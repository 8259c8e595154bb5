import Mathlib.Data.List.Basic
import Mathlib.Data.Nat.ModEq

/-!
# Cipher modes

A mode transforms a stream and passes a state on from each part of the stream
to the next.  On whole blocks it does the same whether the parts come one by
one or at once, and another mode may undo it.  Both hold of chained block
ciphers.
-/

namespace PrivateDatagram.Library.CipherModes

variable {σ α : Type}

/-- The output for some input, and the next state. -/
abbrev Mode (σ α : Type) := σ → List α → List α × σ

/-- On whole blocks, the output is as long as the input and does not depend on
how the input is cut. -/
structure Streams (n : Nat) (mode : Mode σ α) : Prop where
  length : ∀ state input, n ∣ input.length →
    (mode state input).1.length = input.length
  append : ∀ state left right, n ∣ left.length → n ∣ right.length →
    mode state (left ++ right) =
      ((mode state left).1 ++ (mode (mode state left).2 right).1,
        (mode (mode state left).2 right).2)

/-- The second mode gives back what the first one was given, and comes to the
same state. -/
def Undoes (n : Nat) (forward backward : Mode σ α) : Prop :=
  ∀ state input, n ∣ input.length →
    backward state (forward state input).1 =
      (input, (forward state input).2)

/-! ## Block by block -/

/-- Some elements that make up a block. -/
abbrev Block (α : Type) (n : Nat) := {elements : List α // elements.length = n}

section Blockwise

variable {n : Nat} (step : σ → Block α n → Block α n × σ)

/-- The first blocks of a stream. -/
def blocks : Nat → Mode σ α
  | 0, state, _ => ([], state)
  | count + 1, state, input =>
      if enough : n ≤ input.length then
        let one := step state ⟨input.take n, List.length_take_of_le enough⟩
        let rest := blocks count one.2 (input.drop n)
        (one.1.val ++ rest.1, rest.2)
      else
        ([], state)

/-- All blocks of a stream. -/
def blockwise : Mode σ α := fun state input =>
  blocks step (input.length / n) state input

variable {step}

theorem blocks_cons (count : Nat) (state : σ) (first : Block α n)
    (rest : List α) :
    blocks step (count + 1) state (first.val ++ rest) =
      ((step state first).1.val ++
          (blocks step count (step state first).2 rest).1,
        (blocks step count (step state first).2 rest).2) := by
  have enough : n ≤ (first.val ++ rest).length := by
    rw [List.length_append, first.property]
    exact Nat.le_add_right n _
  have taken : (first.val ++ rest).take n = first.val :=
    List.take_left' first.property
  have dropped : (first.val ++ rest).drop n = rest :=
    List.drop_left' first.property
  rw [blocks, dif_pos enough]
  simp only [taken, dropped]

/-- Whole blocks are empty, or start with one. -/
theorem block_cases {count : Nat} {input : List α}
    (length : input.length = (count + 1) * n) :
    ∃ (first : Block α n) (rest : List α), input = first.val ++ rest ∧
      rest.length = count * n := by
  have enough : n ≤ input.length := by
    rw [length, Nat.succ_mul]
    exact Nat.le_add_left n _
  refine ⟨⟨input.take n, List.length_take_of_le enough⟩, input.drop n,
    (List.take_append_drop n input).symm, ?_⟩
  rw [List.length_drop, length, Nat.succ_mul, Nat.add_sub_cancel]

theorem length_blocks {count : Nat} {state : σ} {input : List α}
    (length : input.length = count * n) :
    (blocks step count state input).1.length = count * n := by
  induction count generalizing state input with
  | zero => rw [blocks, Nat.zero_mul, List.length_nil]
  | succ count ih =>
      obtain ⟨first, rest, rfl, left⟩ := block_cases length
      rw [blocks_cons, List.length_append, ih left, Nat.succ_mul,
        (step state first).1.property, Nat.add_comm]

theorem blocks_append {count more : Nat} {state : σ} {left right : List α}
    (length : left.length = count * n) :
    blocks step (count + more) state (left ++ right) =
      ((blocks step count state left).1 ++
          (blocks step more (blocks step count state left).2 right).1,
        (blocks step more (blocks step count state left).2 right).2) := by
  induction count generalizing state left with
  | zero =>
      rw [Nat.zero_mul, List.length_eq_zero_iff] at length
      rw [length, Nat.zero_add, List.nil_append, blocks, List.nil_append]
  | succ count ih =>
      obtain ⟨first, rest, rfl, rest_length⟩ := block_cases length
      rw [Nat.succ_add, List.append_assoc, blocks_cons, blocks_cons,
        ih rest_length, List.append_assoc]

theorem blocks_undo {back : σ → Block α n → Block α n × σ}
    (undoes : ∀ state block,
      back state (step state block).1 = (block, (step state block).2))
    {count : Nat} {state : σ} {input : List α}
    (length : input.length = count * n) :
    blocks back count state (blocks step count state input).1 =
      (input, (blocks step count state input).2) := by
  induction count generalizing state input with
  | zero =>
      rw [Nat.zero_mul, List.length_eq_zero_iff] at length
      rw [length, blocks, blocks]
  | succ count ih =>
      obtain ⟨first, rest, rfl, left⟩ := block_cases length
      rw [blocks_cons, blocks_cons, undoes, ih left]

theorem count_of_dvd {input : List α} (whole : n ∣ input.length) :
    input.length = input.length / n * n :=
  (Nat.div_mul_cancel whole).symm

theorem streams_blockwise : Streams n (blockwise step) where
  length state input whole := by
    rw [blockwise, length_blocks (count_of_dvd whole),
      Nat.div_mul_cancel whole]
  append state left right wholeLeft wholeRight := by
    have count : (left ++ right).length / n =
        left.length / n + right.length / n := by
      rw [List.length_append, Nat.add_div_of_dvd_right wholeLeft]
    unfold blockwise
    rw [count, blocks_append (count_of_dvd wholeLeft)]

theorem undoes_blockwise {back : σ → Block α n → Block α n × σ}
    (undoes : ∀ state block,
      back state (step state block).1 = (block, (step state block).2)) :
    Undoes n (blockwise step) (blockwise back) := by
  intro state input whole
  have same : (blockwise step state input).1.length = input.length := by
    rw [blockwise, length_blocks (count_of_dvd whole),
      Nat.div_mul_cancel whole]
  rw [blockwise, same, blockwise, blocks_undo undoes (count_of_dvd whole)]

end Blockwise

/-! ## Chained blocks -/

section Chaining

variable {n : Nat} (permutation : Equiv.Perm (Block α n))
    (mix : Block α n → Block α n → Block α n)

/-- Mix a block with the cipher block before it, and encrypt it. -/
def chain (before block : Block α n) : Block α n × Block α n :=
  (permutation (mix block before), permutation (mix block before))

/-- Decrypt a block, and take the block before it out again. -/
def unchain (before block : Block α n) : Block α n × Block α n :=
  (mix (permutation.symm block) before, block)

variable {permutation mix}

theorem unchain_chain
    (cancels : ∀ block before, mix (mix block before) before = block)
    (before block : Block α n) :
    unchain permutation mix before (chain permutation mix before block).1 =
      (block, (chain permutation mix before block).2) := by
  rw [unchain, chain, Equiv.symm_apply_apply, cancels]

end Chaining

end PrivateDatagram.Library.CipherModes
