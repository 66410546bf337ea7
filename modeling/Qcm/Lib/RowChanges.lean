import Mathlib

/-!
What a list model tells its views: rows that come in, go away or move, and a
reset.  A view that replays the changes reads the rows of an insertion and of a
reset when they are announced; a change that does not fit the rows of the view
is not valid.
-/

namespace Qcm.Lib

universe u

variable {α : Type u}

/-- A change of the rows of a list, with the rows a view finds. -/
inductive RowChange (α : Type u) where
  | insert (first : Nat) (found : List α)
  | remove (first last : Nat)
  /-- The rows go in front of the row `destination` of the list before the change. -/
  | move (first last destination : Nat)
  | reset (found : List α)
  deriving DecidableEq, Repr

theorem insertIdx_length_append (front back : List α) (row : α) :
    (front ++ back).insertIdx front.length row = front ++ row :: back := by
  induction front with
  | nil => rfl
  | cons first front ih => rw [List.cons_append, List.length_cons, List.insertIdx_succ_cons, ih, List.cons_append]

theorem eraseIdx_length_append (front back : List α) (row : α) :
    (front ++ row :: back).eraseIdx front.length = front ++ back := by
  rw [List.eraseIdx_append_of_length_le (Nat.le_refl _), Nat.sub_self, List.eraseIdx_cons_zero]

namespace RowChange

/-- The change fits the rows, as the `begin…Rows` functions ask for it. -/
def Valid (rows : List α) : RowChange α → Prop
  | .insert first found => first ≤ rows.length ∧ found ≠ []
  | .remove first last => first ≤ last ∧ last < rows.length
  | .move first last destination =>
    first ≤ last ∧ last < rows.length ∧ destination ≤ rows.length ∧
      (destination < first ∨ last + 1 < destination)
  | .reset _ => True

instance [DecidableEq α] (rows : List α) (change : RowChange α) : Decidable (change.Valid rows) := by
  cases change <;> unfold Valid <;> infer_instance

def apply (rows : List α) : RowChange α → List α
  | .insert first found => rows.take first ++ found ++ rows.drop first
  | .remove first last => rows.take first ++ rows.drop (last + 1)
  | .move first last destination =>
    let moved := (rows.take (last + 1)).drop first
    let others := rows.take first ++ rows.drop (last + 1)
    let place := if destination ≤ first then destination else destination - moved.length
    others.take place ++ moved ++ others.drop place
  | .reset found => found

/-- One change after the other, or nothing when one of them is not valid. -/
def replay [DecidableEq α] : List α → List (RowChange α) → Option (List α)
  | rows, [] => some rows
  | rows, change :: changes => if change.Valid rows then replay (change.apply rows) changes else none

section Replay

variable [DecidableEq α] {rows after final : List α} {change : RowChange α} {changes more : List (RowChange α)}

theorem replay_append (first : replay rows changes = some after) (second : replay after more = some final) :
    replay rows (changes ++ more) = some final := by
  induction changes generalizing rows with
  | nil =>
    cases first
    exact second
  | cons change changes ih =>
    rw [replay] at first
    split at first
    · rename_i valid
      rw [List.cons_append, replay, if_pos valid]
      exact ih first
    · cases first

theorem replay_single (valid : change.Valid rows) : replay rows [change] = some (change.apply rows) := by
  rw [replay, if_pos valid, replay]

end Replay

section Single

variable {front middle back : List α} {row : α}

/-- One row that goes up is taken out and put in. -/
theorem apply_move_up :
    (RowChange.move (front.length + middle.length) (front.length + middle.length) front.length).apply
      (front ++ middle ++ row :: back) = front ++ row :: (middle ++ back) := by
  have place : front.length + middle.length = (front ++ middle).length := by simp
  simp only [apply, place]
  have taken : (front ++ middle ++ row :: back).take ((front ++ middle).length + 1) = front ++ middle ++ [row] := by
    rw [List.take_length_add_append]
    rfl
  have left : (front ++ middle ++ row :: back).drop ((front ++ middle).length + 1) = back := by
    rw [← List.drop_drop, List.drop_left]
    rfl
  rw [taken, left, List.drop_left, List.take_left, if_pos (by simp)]
  simp

theorem apply_insert_at : (RowChange.insert front.length [row]).apply (front ++ back) = front ++ row :: back := by
  simp [apply]

theorem apply_remove_at :
    (RowChange.remove front.length front.length).apply (front ++ row :: back) = front ++ back := by
  have left : (front ++ row :: back).drop (front.length + 1) = back := by
    rw [← List.drop_drop, List.drop_left]
    rfl
  rw [apply, List.take_left, left]

end Single

end RowChange

end Qcm.Lib
