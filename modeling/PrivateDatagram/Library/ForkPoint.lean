import Mathlib.Data.List.Infix

/-!
# Fork points

A branch is the list of an element and everything behind it, the newest first.
Two branches meet at their longest common suffix, and the way from there to
the end of a branch is the list of its longer suffixes, the shortest first.
-/

namespace PrivateDatagram.Library.ForkPoint

variable {α : Type} [DecidableEq α]

/-- The longest suffix of the second branch that is one of the first. -/
def forkPoint (chain : List α) : List α → List α
  | [] => []
  | newest :: older =>
      if (newest :: older) <:+ chain then newest :: older
      else forkPoint chain older

theorem forkPoint_suffix_chain (chain branch : List α) :
    forkPoint chain branch <:+ chain := by
  induction branch with
  | nil => exact List.nil_suffix
  | cons newest older ih =>
      rw [forkPoint]
      split_ifs with here
      · exact here
      · exact ih

theorem forkPoint_suffix_branch (chain branch : List α) :
    forkPoint chain branch <:+ branch := by
  induction branch with
  | nil => exact List.nil_suffix
  | cons newest older ih =>
      rw [forkPoint]
      split_ifs with here
      · exact List.suffix_rfl
      · exact ih.trans (List.suffix_cons newest older)

/-- Every common suffix is one of the fork point. -/
theorem suffix_forkPoint {chain branch common : List α}
    (onChain : common <:+ chain) (onBranch : common <:+ branch) :
    common <:+ forkPoint chain branch := by
  induction branch with
  | nil => exact onBranch
  | cons newest older ih =>
      rw [forkPoint]
      split_ifs with here
      · exact onBranch
      · rcases List.suffix_cons_iff.mp onBranch with whole | inside
        · rw [whole] at onChain
          exact absurd onChain here
        · exact ih inside

omit [DecidableEq α] in
theorem suffix_antisymm {left right : List α} (one : left <:+ right)
    (two : right <:+ left) : left = right :=
  one.eq_of_length (Nat.le_antisymm one.length_le two.length_le)

theorem forkPoint_comm (chain branch : List α) :
    forkPoint chain branch = forkPoint branch chain :=
  suffix_antisymm
    (suffix_forkPoint (forkPoint_suffix_branch _ _) (forkPoint_suffix_chain _ _))
    (suffix_forkPoint (forkPoint_suffix_branch _ _) (forkPoint_suffix_chain _ _))

theorem forkPoint_of_suffix {chain branch : List α}
    (onChain : branch <:+ chain) : forkPoint chain branch = branch :=
  suffix_antisymm (forkPoint_suffix_branch _ _)
    (suffix_forkPoint onChain List.suffix_rfl)

/-- A part of a branch that goes past the fork has the same fork point. -/
theorem forkPoint_of_between {chain branch part : List α}
    (past : forkPoint chain branch <:+ part) (within : part <:+ branch) :
    forkPoint chain part = forkPoint chain branch :=
  suffix_antisymm
    (suffix_forkPoint (forkPoint_suffix_chain _ _)
      ((forkPoint_suffix_branch _ _).trans within))
    (suffix_forkPoint (forkPoint_suffix_chain _ _) past)

/-- The end of a branch that is longer than the chain does not matter. -/
theorem forkPoint_drop (chain branch : List α) :
    forkPoint chain (branch.drop (branch.length - chain.length)) =
      forkPoint chain branch := by
  apply forkPoint_of_between
  · have onBranch := forkPoint_suffix_branch chain branch
    have short := (forkPoint_suffix_chain chain branch).length_le
    refine List.suffix_of_suffix_length_le onBranch (List.drop_suffix _ _) ?_
    rw [List.length_drop]
    have longer := onBranch.length_le
    omega
  · exact List.drop_suffix _ _

/-! ## The way up a branch -/

/-- The suffixes of a branch that are longer than a given length. -/
def above (length : Nat) : List α → List (List α)
  | [] => []
  | newest :: older =>
      if older.length + 1 ≤ length then []
      else above length older ++ [newest :: older]

omit [DecidableEq α] in
theorem mem_above {length : Nat} {branch part : List α} :
    part ∈ above length branch ↔ part <:+ branch ∧ length < part.length := by
  induction branch with
  | nil =>
      rw [above, List.suffix_nil]
      constructor
      · intro impossible
        cases impossible
      · rintro ⟨rfl, impossible⟩
        cases impossible
  | cons newest older ih =>
      rw [above]
      split_ifs with short
      · constructor
        · intro impossible
          cases impossible
        · rintro ⟨within, long⟩
          have bound := within.length_le
          rw [List.length_cons] at bound
          omega
      · rw [List.mem_append, List.mem_singleton, ih, List.suffix_cons_iff]
        constructor
        · rintro (⟨within, long⟩ | rfl)
          · exact ⟨Or.inr within, long⟩
          · exact ⟨Or.inl rfl, by rw [List.length_cons]; omega⟩
        · rintro ⟨rfl | within, long⟩
          · exact Or.inr rfl
          · exact Or.inl ⟨within, long⟩

omit [DecidableEq α] in
theorem length_above (length : Nat) (branch : List α) :
    (above length branch).length = branch.length - length := by
  induction branch with
  | nil => exact (Nat.zero_sub length).symm
  | cons newest older ih =>
      rw [above, List.length_cons]
      split_ifs with short
      · rw [List.length_nil]
        omega
      · rw [List.length_append, List.length_singleton, ih]
        omega

omit [DecidableEq α] in
/-- Each step of the way is one longer than the one before. -/
theorem length_of_mem_above {length : Nat} {branch part : List α}
    {before after : List (List α)} (within : length ≤ branch.length)
    (way : above length branch = before ++ part :: after) :
    part.length = length + before.length + 1 := by
  induction branch generalizing after with
  | nil => simp [above] at way
  | cons newest older ih =>
      rw [above] at way
      split_ifs at way with short
      · simp at way
      · rcases List.eq_nil_or_concat after with rfl | ⟨init, last, rfl⟩
        · rcases List.append_inj' way rfl with ⟨earlier, same⟩
          have counted := length_above length older
          rw [earlier] at counted
          cases same
          rw [List.length_cons] at within ⊢
          omega
        · rw [List.concat_eq_append, ← List.cons_append,
            ← List.append_assoc] at way
          rcases List.append_inj' way rfl with ⟨earlier, _⟩
          rw [List.length_cons] at within
          exact ih (by omega) earlier

/-- Each step of the way comes directly after the one before. -/
def Climbs (start : List α) : List (List α) → Prop
  | [] => True
  | part :: parts => part.tail = start ∧ Climbs part parts

omit [DecidableEq α] in
theorem Climbs.concat {start last : List α} {parts : List (List α)}
    (climbs : Climbs start parts) (next : last.tail = parts.getLastD start) :
    Climbs start (parts ++ [last]) := by
  induction parts generalizing start with
  | nil => exact ⟨next, trivial⟩
  | cons part parts ih =>
      rw [List.getLastD_cons] at next
      exact ⟨climbs.1, ih climbs.2 next⟩

omit [DecidableEq α] in
theorem getLastD_above {start branch : List α} (suffix : start <:+ branch) :
    (above start.length branch).getLastD start = branch := by
  cases branch with
  | nil =>
      rw [List.suffix_nil.mp suffix]
      rfl
  | cons newest older =>
      rw [above]
      split_ifs with short
      · exact suffix.eq_of_length_le short
      · exact List.getLastD_concat

omit [DecidableEq α] in
theorem climbs_above {start branch : List α} (suffix : start <:+ branch) :
    Climbs start (above start.length branch) := by
  induction branch with
  | nil => exact trivial
  | cons newest older ih =>
      rw [above]
      split_ifs with short
      · exact trivial
      · have within : start <:+ older := by
          refine (List.suffix_cons_iff.mp suffix).resolve_left ?_
          rintro rfl
          exact short (List.length_cons.symm.le)
        refine (ih within).concat ?_
        rw [getLastD_above within, List.tail_cons]

end PrivateDatagram.Library.ForkPoint
