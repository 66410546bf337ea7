import Mathlib

/-!
Neighbours in a list.  Where the list goes strictly upwards, two of its members
are neighbours when none of the others lies between them.
-/

namespace Qcm.Lib

universe u

variable {α : Type u}

/-- Two entries of which the second comes right after the first. -/
def Neighbours (entries : List α) (one next : α) : Prop :=
  ∃ place : Nat, entries[place]? = some one ∧ entries[place + 1]? = some next

variable [LinearOrder α] {entries : List α} {one next : α}

private theorem getElem?_lt (upwards : entries.Pairwise (· < ·)) {first second : Nat} (before : first < second)
    (here : entries[first]? = some one) (there : entries[second]? = some next) : one < next := by
  obtain ⟨_, rfl⟩ := List.getElem?_eq_some_iff.mp here
  obtain ⟨_, rfl⟩ := List.getElem?_eq_some_iff.mp there
  exact List.pairwise_iff_getElem.mp upwards first second _ _ before

theorem neighbours_iff (upwards : entries.Pairwise (· < ·)) :
    Neighbours entries one next ↔
      one ∈ entries ∧ next ∈ entries ∧ one < next ∧ ∀ other ∈ entries, ¬ (one < other ∧ other < next) := by
  constructor
  · rintro ⟨place, here, there⟩
    refine ⟨List.mem_of_getElem? here, List.mem_of_getElem? there,
      getElem?_lt upwards (Nat.lt_succ_self place) here there, ?_⟩
    rintro other member ⟨above, below⟩
    obtain ⟨middle, stands⟩ := List.mem_iff_getElem?.mp member
    have later : place < middle := by
      by_contra early
      obtain same | less := Nat.eq_or_lt_of_le (Nat.le_of_not_lt early)
      · rw [same, here, Option.some.injEq] at stands
        exact absurd above (stands ▸ lt_irrefl other)
      · exact absurd above (lt_asymm (getElem?_lt upwards less stands here))
    have earlier : middle < place + 1 := by
      by_contra late
      obtain same | less := Nat.eq_or_lt_of_le (Nat.le_of_not_lt late)
      · rw [← same, there, Option.some.injEq] at stands
        exact absurd below (stands ▸ lt_irrefl next)
      · exact absurd below (lt_asymm (getElem?_lt upwards less there stands))
    omega
  · rintro ⟨first, second, less, none⟩
    obtain ⟨place, here⟩ := List.mem_iff_getElem?.mp first
    obtain ⟨end', there⟩ := List.mem_iff_getElem?.mp second
    have later : place < end' := by
      by_contra early
      obtain same | back := Nat.eq_or_lt_of_le (Nat.le_of_not_lt early)
      · rw [same, here, Option.some.injEq] at there
        exact absurd less (there ▸ lt_irrefl one)
      · exact absurd less (lt_asymm (getElem?_lt upwards back there here))
    obtain same | more := Nat.eq_or_lt_of_le (Nat.succ_le_of_lt later)
    · subst same
      exact ⟨place, here, there⟩
    · have inside : place + 1 < entries.length := more.trans (List.getElem?_eq_some_iff.mp there).1
      have between := List.getElem?_eq_getElem inside
      exact absurd ⟨getElem?_lt upwards (Nat.lt_succ_self place) here between, getElem?_lt upwards more between there⟩
        (none _ (List.mem_of_getElem? between))

end Qcm.Lib
