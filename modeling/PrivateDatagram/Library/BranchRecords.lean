import PrivateDatagram.Library.ForkPoint

/-!
# Records along a branch

Every suffix of a branch has a record.  A loop that goes up the branch and
computes each record anew from the one behind it restores the records that the
computation agrees with, whatever was there before.
-/

namespace PrivateDatagram.Library.BranchRecords

open ForkPoint

variable {α β : Type} [DecidableEq α]

/--
Compute the records of some branches in order.  A computation sees the branch,
the record behind it and the record that it replaces.
-/
def rewriteAll (compute : List α → β → β → Option β) :
    List (List α) → (List α → β) → Option (List α → β)
  | [], records => some records
  | part :: rest, records =>
      match compute part (records part.tail) (records part) with
      | none => none
      | some record =>
          rewriteAll compute rest (Function.update records part record)

theorem rewriteAll_append (compute : List α → β → β → Option β)
    (first second : List (List α)) (records : List α → β) :
    rewriteAll compute (first ++ second) records =
      (rewriteAll compute first records).bind
        (rewriteAll compute second) := by
  induction first generalizing records with
  | nil => rfl
  | cons part rest ih =>
      rw [List.cons_append, rewriteAll, rewriteAll]
      cases compute part (records part.tail) (records part) with
      | none => rfl
      | some record => exact ih _

theorem rewriteAll_singleton {compute : List α → β → β → Option β}
    {part : List α} {records : List α → β} {record : β}
    (computed : compute part (records part.tail) (records part) =
      some record) :
    rewriteAll compute [part] records =
      some (Function.update records part record) := by
  rw [rewriteAll, computed]
  rfl

/--
Records that agree with the computation above a height, and with what was there
elsewhere, are what the loop ends with.
-/
theorem rewriteAll_above {compute : List α → β → β → Option β}
    {start : Nat} {branch : List α} {records target : List α → β}
    (computed : ∀ part ∈ above start branch,
      compute part (target part.tail) (records part) = some (target part))
    (elsewhere : ∀ part, part ∉ above start branch →
      target part = records part) :
    rewriteAll compute (above start branch) records = some target := by
  induction branch generalizing target with
  | nil =>
      have same : target = records := by
        funext part
        exact elsewhere part List.not_mem_nil
      rw [same]
      rfl
  | cons newest older ih =>
      rw [above] at computed elsewhere ⊢
      split_ifs at computed elsewhere ⊢ with short
      · have same : target = records := by
          funext part
          exact elsewhere part List.not_mem_nil
        rw [same]
        rfl
      · -- all but the last record
        let partly := Function.update target (newest :: older)
          (records (newest :: older))
        have lower : ∀ part : List α, part.length ≤ older.length →
            partly part = target part := by
          intro part bound
          apply Function.update_of_ne
          rintro rfl
          rw [List.length_cons] at bound
          omega
        have shorter : ∀ part ∈ above start older,
            part.length ≤ older.length := by
          intro part member
          exact (mem_above.mp member).1.length_le
        have before : rewriteAll compute (above start older) records =
            some partly := by
          apply ih
          · intro part member
            have bound := shorter part member
            rw [lower part bound, lower part.tail (by
              rw [List.length_tail]
              omega)]
            exact computed part (List.mem_append_left _ member)
          · intro part outside
            by_cases last : part = newest :: older
            · subst last
              exact Function.update_self _ _ _
            · rw [show partly part = target part from
                Function.update_of_ne last _ _]
              apply elsewhere
              rw [List.mem_append, List.mem_singleton]
              rintro (member | same)
              · exact outside member
              · exact last same
        rw [rewriteAll_append, before, Option.bind_some]
        have last : compute (newest :: older) (partly older)
            (partly (newest :: older)) = some (target (newest :: older)) := by
          rw [lower older (Nat.le_refl _),
            show partly (newest :: older) = records (newest :: older) from
              Function.update_self _ _ _]
          exact computed _ (List.mem_append_right _ List.mem_cons_self)
        rw [rewriteAll_singleton last, Function.update_idem,
          Function.update_eq_self]

end PrivateDatagram.Library.BranchRecords
