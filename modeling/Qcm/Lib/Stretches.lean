import Mathlib

/-!
Stretches of a list: as many neighbours of one kind as stand together, so that
none can be added on either side.
-/

namespace Qcm.Lib

universe u v

variable {α : Type u} {κ : Type v}

structure Stretch (kind : α → κ) (list before run after : List α) (k : κ) : Prop where
  split : list = before ++ run ++ after
  some : run ≠ []
  alike : ∀ a ∈ run, kind a = k
  left : ∀ a, before.getLast? = .some a → kind a ≠ k
  right : ∀ a, after.head? = .some a → kind a ≠ k

namespace Stretch

variable {kind : α → κ} {list before run after part front back : List α} {k : κ} {a : α}

theorem run_infix (stretch : Stretch kind list before run after k) : run <:+: list :=
  ⟨before, after, stretch.split.symm⟩

theorem not_mem_nil : ¬ Stretch kind [] before run after k := fun stretch =>
  stretch.some (List.append_eq_nil_iff.mp (List.append_eq_nil_iff.mp stretch.split.symm).1).2

/-- A part of one kind lies in a stretch of that kind. -/
theorem of_infix [DecidableEq κ] (inside : part <:+: list) (some : part ≠ []) (alike : ∀ a ∈ part, kind a = k) :
    ∃ before run after, Stretch kind list before run after k ∧ part <:+: run := by
  obtain ⟨front, back, rfl⟩ := inside
  let same : α → Bool := fun a => kind a = k
  refine ⟨front.rdropWhile same, front.rtakeWhile same ++ part ++ back.takeWhile same, back.dropWhile same, ?_,
    ⟨_, _, rfl⟩⟩
  constructor
  · calc front ++ part ++ back
      _ = (front.rdropWhile same ++ front.rtakeWhile same) ++ part ++ (back.takeWhile same ++ back.dropWhile same) := by
        rw [List.takeWhile_append_dropWhile, List.rdropWhile_append_rtakeWhile]
      _ = _ := by simp only [List.append_assoc]
  · simp [some]
  · intro a member
    rcases List.mem_append.mp member with early | late
    · rcases List.mem_append.mp early with left | middle
      · simpa [same] using List.mem_rtakeWhile_imp left
      · exact alike a middle
    · simpa [same] using List.mem_takeWhile_imp late
  · intro a last
    have kept : front.rdropWhile same ≠ [] := fun none => by simp [none] at last
    rw [List.getLast?_eq_some_getLast kept, Option.some.injEq] at last
    simpa [same, last] using List.rdropWhile_last_not same front kept
  · intro a first
    have stopped := List.head?_dropWhile_not same back
    simpa [first, same] using stopped

/-- A list of one kind is one stretch. -/
theorem of_alike (some : list ≠ []) (alike : ∀ a ∈ list, kind a = k) : Stretch kind list [] list [] k :=
  ⟨by simp, some, alike, by simp, by simp⟩

theorem eq_of_alike (alike : ∀ a ∈ list, kind a = k) {other : κ} (stretch : Stretch kind list before run after other) :
    before = [] ∧ run = list ∧ after = [] ∧ other = k := by
  have same : other = k := by
    obtain ⟨a, member⟩ := List.exists_mem_of_ne_nil _ stretch.some
    exact (stretch.alike a member).symm.trans (alike a (stretch.run_infix.subset member))
  subst same
  have no_before : before = [] := by
    by_contra rest
    exact stretch.left _ (List.getLast?_eq_some_getLast rest)
      (alike _ (by simp [stretch.split, List.getLast_mem rest]))
  have no_after : after = [] := by
    by_contra rest
    exact stretch.right _ (List.head?_eq_some_head rest) (alike _ (by simp [stretch.split, List.head_mem rest]))
  subst no_before no_after
  exact ⟨rfl, by simpa using stretch.split.symm, rfl, rfl⟩

/-- A stretch with something behind it does not see what comes later. -/
theorem append_iff (ended : after ≠ []) :
    Stretch kind (list ++ [a]) before run (after ++ [a]) k ↔ Stretch kind list before run after k := by
  have heads : (after ++ [a]).head? = after.head? := List.head?_append_of_ne_nil _ ended
  constructor
  · rintro ⟨split, some, alike, left, right⟩
    rw [← List.append_assoc] at split
    exact ⟨List.append_cancel_right split, some, alike, left, heads ▸ right⟩
  · rintro ⟨rfl, some, alike, left, right⟩
    exact ⟨by simp, some, alike, left, heads ▸ right⟩

theorem ended_iff : Stretch kind (list ++ [a]) before run [a] k ↔ Stretch kind list before run [] k ∧ kind a ≠ k := by
  constructor
  · rintro ⟨split, some, alike, left, right⟩
    exact ⟨⟨by simpa using List.append_cancel_right split, some, alike, left, by simp⟩, right a rfl⟩
  · rintro ⟨⟨rfl, some, alike, left, -⟩, other⟩
    exact ⟨by simp, some, alike, left, by simpa using other⟩

/-- An element of the same kind makes the last stretch longer. -/
theorem extend (stretch : Stretch kind list before run [] k) (same : kind a = k) :
    Stretch kind (list ++ [a]) before (run ++ [a]) [] k := by
  refine ⟨by simp [stretch.split], by simp, ?_, stretch.left, by simp⟩
  rw [List.forall_mem_append, List.forall_mem_singleton]
  exact ⟨stretch.alike, same⟩

/-- An element of another kind than the last one begins a stretch. -/
theorem begin (other : ∀ b, list.getLast? = .some b → kind b ≠ kind a) :
    Stretch kind (list ++ [a]) list [a] [] (kind a) :=
  ⟨by simp, by simp, by simp, other, by simp⟩

/-- The last element is of the kind of the last stretch. -/
theorem last (stretch : Stretch kind list before run [] k) : ∃ a, list.getLast? = .some a ∧ kind a = k := by
  have some := stretch.some
  refine ⟨run.getLast some, ?_, stretch.alike _ (List.getLast_mem _)⟩
  rw [stretch.split, List.append_nil, List.getLast?_append_of_ne_nil _ some, List.getLast?_eq_some_getLast some]

/-- The last stretch is the only one at the end. -/
theorem last_unique {otherBefore otherRun : List α} {other : κ} (stretch : Stretch kind list before run [] k)
    (another : Stretch kind list otherBefore otherRun [] other) :
    before = otherBefore ∧ run = otherRun ∧ k = other := by
  have no_rest : ∀ {front rest : List α} {k : κ}, (∀ a ∈ rest, kind a = k) →
      (∀ a, (front ++ rest).getLast? = .some a → kind a ≠ k) → rest = [] := by
    intro front rest k alike left
    by_contra some
    refine left _ ?_ (alike _ (List.getLast_mem some))
    rw [List.getLast?_append_of_ne_nil _ some, List.getLast?_eq_some_getLast some]
  obtain ⟨a, last, kind_a⟩ := stretch.last
  obtain ⟨b, same, kind_b⟩ := another.last
  cases last.symm.trans same
  cases kind_a.symm.trans kind_b
  have splits := stretch.split.symm.trans another.split
  simp only [List.append_nil] at splits
  rcases List.append_eq_append_iff.mp splits with ⟨rest, rfl, rfl⟩ | ⟨rest, rfl, rfl⟩
  · have none := no_rest (fun a member => stretch.alike a (List.mem_append_left _ member)) another.left
    simp [none]
  · have none := no_rest (fun a member => another.alike a (List.mem_append_left _ member)) stretch.left
    simp [none]

end Stretch

end Qcm.Lib
