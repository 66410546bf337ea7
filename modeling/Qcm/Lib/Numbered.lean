import Qcm.Lib.Hash

/-!
The place of each entry of a list, as a map that is filled from the first entry
to the last.  When no entry comes twice the map is the inverse of the list.
-/

namespace Qcm.Lib

universe u

variable {α : Type u} [DecidableEq α]

/-- The places of the entries; of an entry that comes twice the last one. -/
def Hash.numbered (entries : List α) : Hash α Nat :=
  entries.zipIdx.foldl (fun places entry => places.insert entry.1 entry.2) ∅

private theorem lookup_written {entries : List α} (apart : entries.Nodup) (places : Hash α Nat) (start : Nat)
    (entry : α) (place : Nat) :
    ((entries.zipIdx start).foldl (fun places entry => places.insert entry.1 entry.2) places).lookup entry =
        some place ↔
      (start ≤ place ∧ entries[place - start]? = some entry) ∨ (entry ∉ entries ∧ places.lookup entry = some place) := by
  induction entries generalizing places start with
  | nil => simp
  | cons first entries ih =>
    rw [List.nodup_cons] at apart
    rw [List.zipIdx_cons, List.foldl_cons, ih apart.2, Hash.lookup_insert]
    by_cases here : entry = first
    · subst here
      have others : ∀ place, entries[place]? ≠ some entry := fun place found =>
        apart.1 (List.mem_of_getElem? found)
      constructor
      · rintro (⟨_, found⟩ | ⟨_, found⟩)
        · exact absurd found (others _)
        · rw [if_pos rfl] at found
          cases found
          simp
      · rintro (⟨later, found⟩ | ⟨absent, _⟩)
        · obtain same | past := Nat.eq_or_lt_of_le later
          · simp [apart.1, same]
          · rw [show place - start = place - (start + 1) + 1 by omega, List.getElem?_cons_succ] at found
            exact absurd found (others _)
        · simp at absent
    · simp only [here, if_false, List.mem_cons, false_or]
      constructor
      · rintro (⟨later, found⟩ | kept)
        · refine .inl ⟨by omega, ?_⟩
          rwa [show place - start = place - (start + 1) + 1 by omega, List.getElem?_cons_succ]
        · exact .inr kept
      · rintro (⟨later, found⟩ | kept)
        · obtain same | past := Nat.eq_or_lt_of_le later
          · rw [same, Nat.sub_self, List.getElem?_cons_zero, Option.some.injEq] at found
            exact absurd found.symm here
          · refine .inl ⟨past, ?_⟩
            rwa [show place - start = place - (start + 1) + 1 by omega, List.getElem?_cons_succ] at found
        · exact .inr kept

theorem Hash.lookup_numbered {entries : List α} (apart : entries.Nodup) (entry : α) (place : Nat) :
    (Hash.numbered entries).lookup entry = some place ↔ entries[place]? = some entry := by
  have written := lookup_written apart ∅ 0 entry place
  simpa [Hash.numbered] using written

end Qcm.Lib
