import Mathlib

/-!
`std::upper_bound`: the first entry above a value, found by halving.

In a list whose entries above the value stand behind the others it is where the
first of them stands.
-/

namespace Qcm.Lib

universe u

variable {α : Type u} {above : α → Bool} {entries : List α}

/-- The search between `first` and `first + count`, with a limit on its turns. -/
def upperBoundFrom (above : α → Bool) (entries : List α) : (fuel first count : Nat) → Nat
  | 0, first, _ => first
  | fuel + 1, first, count =>
    if count = 0 then first
    else
      let half := count / 2
      if entries[first + half]?.any above then upperBoundFrom above entries fuel first half
      else upperBoundFrom above entries fuel (first + half + 1) (count - half - 1)

def upperBound (above : α → Bool) (entries : List α) : Nat :=
  upperBoundFrom above entries entries.length 0 entries.length

/-- The search closes in on the place where the entries above the value start. -/
theorem upperBoundFrom_eq {place fuel first count : Nat}
    (parted : ∀ index entry, entries[index]? = some entry → (above entry = true ↔ place ≤ index))
    (inside : first + count ≤ entries.length) (lower : first ≤ place) (upper : place ≤ first + count)
    (enough : count ≤ fuel) : upperBoundFrom above entries fuel first count = place := by
  induction fuel generalizing first count with
  | zero =>
    rw [upperBoundFrom]
    omega
  | succ fuel ih =>
    rw [upperBoundFrom]
    split_ifs with none
    · omega
    · have there : first + count / 2 < entries.length := by omega
      have side := parted _ _ (List.getElem?_eq_getElem there)
      simp only [List.getElem?_eq_getElem there, Option.any_some]
      split_ifs with beyond
      · have low := side.mp beyond
        exact ih (by omega) lower low (by omega)
      · have high := mt side.mpr beyond
        exact ih (by omega) (by omega) (by omega) (by omega)

theorem upperBound_eq {place : Nat} (bounded : place ≤ entries.length)
    (parted : ∀ index entry, entries[index]? = some entry → (above entry = true ↔ place ≤ index)) :
    upperBound above entries = place :=
  upperBoundFrom_eq parted (by omega) (Nat.zero_le _) (by omega) le_rfl

/-- A list in which nothing stands behind an entry above the value but others
above it is parted. -/
theorem upperBound_parts (ordered : entries.Pairwise fun one other => above one = true → above other = true) :
    upperBound above entries ≤ entries.length ∧ ∀ index entry, entries[index]? = some entry →
      (above entry = true ↔ upperBound above entries ≤ index) := by
  suffices split : ∃ place ≤ entries.length, ∀ index entry, entries[index]? = some entry →
      (above entry = true ↔ place ≤ index) by
    obtain ⟨place, bounded, parted⟩ := split
    rw [upperBound_eq bounded parted]
    exact ⟨bounded, parted⟩
  induction entries with
  | nil => exact ⟨0, le_rfl, fun _ _ held => by simp at held⟩
  | cons entry rest ih =>
    obtain ⟨behind, ordered⟩ := List.pairwise_cons.mp ordered
    by_cases high : above entry = true
    · refine ⟨0, Nat.zero_le _, fun index other held => ?_⟩
      obtain same | later := List.mem_cons.mp (List.mem_of_getElem? held)
      · simp [same, high]
      · simp [behind other later high]
    · obtain ⟨place, bounded, parted⟩ := ih ordered
      refine ⟨place + 1, Nat.succ_le_succ bounded, fun index other held => ?_⟩
      obtain _ | index := index
      · obtain rfl := Option.some.inj held
        simp [high]
      · rw [Nat.succ_le_succ_iff]
        exact parted index other held

end Qcm.Lib
