import Mathlib

/-!
Runs of marked rows, collected while the rows are passed from the first to the
last: a marked row makes the last run longer when it stands behind it, and else
starts another.  What is collected are the maximal runs of the marked rows.
-/

namespace Qcm.Lib

/-- `count` rows from the row `index` on. -/
structure RowRun where
  index : Nat
  count : Nat
  deriving DecidableEq, Repr

namespace RowRun

def Holds (run : RowRun) (row : Nat) : Prop := run.index ≤ row ∧ row < run.index + run.count

/-- The runs with one more row, which comes after all of theirs. -/
def extend (runs : List RowRun) (row : Nat) : List RowRun :=
  match runs.getLast? with
  | some last =>
    if last.index + last.count = row then runs.dropLast ++ [{ last with count := last.count + 1 }]
    else runs ++ [⟨row, 1⟩]
  | none => [⟨row, 1⟩]

/-- The maximal runs of the marked rows: none is empty, a row that is not marked
stands between two of them, and the marked rows are those that they hold. -/
structure Maximal (marked : Nat → Prop) (runs : List RowRun) : Prop where
  inhabited : ∀ run ∈ runs, 0 < run.count
  apart : runs.Pairwise fun one next => one.index + one.count < next.index
  holds : ∀ row, (∃ run ∈ runs, run.Holds row) ↔ marked row

variable {marked : Nat → Prop} {runs : List RowRun} {row : Nat}

theorem Maximal.congr {others : Nat → Prop} (maximal : Maximal marked runs) (same : ∀ row, marked row ↔ others row) :
    Maximal others runs :=
  ⟨maximal.inhabited, maximal.apart, fun row => (maximal.holds row).trans (same row)⟩

theorem Maximal.nil (none : ∀ row, ¬ marked row) : Maximal marked [] :=
  ⟨by simp, .nil, fun row => by simp [none row]⟩

/-- The rows of a run are marked, so a bound on those is one on these. -/
theorem Maximal.stop_le {limit : Nat} (maximal : Maximal marked runs) (bounded : ∀ row, marked row → row < limit)
    {run : RowRun} (member : run ∈ runs) : run.index + run.count ≤ limit := by
  have some := maximal.inhabited run member
  have last := bounded (run.index + run.count - 1)
    ((maximal.holds _).mp ⟨run, member, by unfold Holds; omega⟩)
  omega

theorem Maximal.extend (maximal : Maximal marked runs) (bounded : ∀ other, marked other → other < row) :
    Maximal (fun other => marked other ∨ other = row) (extend runs row) := by
  unfold RowRun.extend
  cases ending : runs.getLast? with
  | none =>
    have empty : runs = [] := List.getLast?_eq_none_iff.mp ending
    subst empty
    have none : ∀ other, ¬ marked other := fun other marks => by simpa using (maximal.holds other).mpr marks
    refine ⟨by simp, by simp, fun other => ?_⟩
    simp only [List.mem_singleton, exists_eq_left, Holds, none other, false_or]
    omega
  | some last =>
    obtain ⟨front, rfl⟩ := List.getLast?_eq_some_iff.mp ending
    have stops := fun {run} => @Maximal.stop_le _ _ row maximal bounded run
    obtain ⟨apart, _, before⟩ := List.pairwise_append.mp maximal.apart
    by_cases behind : last.index + last.count = row
    · simp only [if_pos behind, List.dropLast_concat]
      refine ⟨?_, ?_, fun other => ?_⟩
      · intro run member
        obtain inside | rfl : run ∈ front ∨ run = { last with count := last.count + 1 } := by simpa using member
        · exact maximal.inhabited run (by simp [inside])
        · simp
      · refine List.pairwise_append.mpr ⟨apart, by simp, fun one member next final => ?_⟩
        obtain rfl := List.mem_singleton.mp final
        exact before one member last (List.mem_singleton_self last)
      · rw [← maximal.holds other]
        simp only [List.mem_append, List.mem_singleton, or_and_right, exists_or, exists_eq_left, Holds, or_assoc]
        refine or_congr_right ?_
        omega
    · simp only [if_neg behind]
      refine ⟨?_, ?_, fun other => ?_⟩
      · intro run member
        obtain inside | rfl : run ∈ front ++ [last] ∨ run = ⟨row, 1⟩ := by simpa [or_assoc] using member
        · exact maximal.inhabited run inside
        · simp
      · refine List.pairwise_append.mpr ⟨maximal.apart, by simp, fun one member next final => ?_⟩
        obtain rfl := List.mem_singleton.mp final
        have stop := stops (List.mem_append_right front (List.mem_singleton_self last))
        obtain inside | rfl : one ∈ front ∨ one = last := by simpa using member
        · have first := before one inside last (List.mem_singleton_self last)
          show one.index + one.count < row
          omega
        · show one.index + one.count < row
          omega
      · rw [← maximal.holds other]
        simp only [List.mem_append, List.mem_singleton, or_and_right, exists_or, exists_eq_left, Holds, or_assoc]
        refine or_congr_right (or_congr_right ?_)
        omega

end RowRun

end Qcm.Lib
