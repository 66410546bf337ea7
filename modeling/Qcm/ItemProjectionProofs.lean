import Qcm.ItemProjection

/-!
What a projection says is so.  The loop over the rows gathers three things that
do not depend on each other: the revisions row by row, whether a row moved, and
the runs of changed rows, which are maximal because the loop goes upwards.
-/

namespace Qcm.ItemProjectionProofs

open Lib ItemProjection

variable {κ ρ : Type} [DecidableEq κ] [DecidableEq ρ] {key : ρ → κ} {before : ItemSnapshot κ ρ} {count : Nat}
  {first last : Int} {read : Nat → ρ} {current : Nat → Bool}

section Loop

theorem compareRows_versions (index : Nat) (rows : List ρ) (pass : Pass) :
    (compareRows key before first last index rows pass).versions = pass.versions ++
      (rows.zipIdx index).map fun entry =>
        (unchanged key before first last entry.2 entry.1).getD (nextRevision before) := by
  induction rows generalizing index pass with
  | nil => simp [compareRows]
  | cons row rows ih =>
    rw [compareRows, ih]
    simp

theorem compareRows_reset (index : Nat) (rows : List ρ) (pass : Pass) :
    (compareRows key before first last index rows pass).reset =
      (pass.reset || (rows.zipIdx index).any fun entry => moved key before entry.2 entry.1) := by
  induction rows generalizing index pass with
  | nil => simp [compareRows]
  | cons row rows ih =>
    rw [compareRows, ih]
    simp [Bool.or_assoc]

theorem compareRows_changes (index : Nat) (rows : List ρ) (pass : Pass) {marked : Nat → Prop}
    (maximal : RowRun.Maximal marked pass.changes) (bounded : ∀ row, marked row → row < index) :
    RowRun.Maximal (fun row => marked row ∨
        ∃ value, (value, row) ∈ rows.zipIdx index ∧ unchanged key before first last row value = none)
      (compareRows key before first last index rows pass).changes := by
  induction rows generalizing index pass marked with
  | nil => exact maximal.congr (by simp)
  | cons value rows ih =>
    rw [compareRows]
    cases same : unchanged key before first last index value with
    | some revision =>
      refine RowRun.Maximal.congr (ih (index + 1) _ maximal fun row marks => Nat.lt_succ_of_lt (bounded row marks))
        fun row => or_congr_right ?_
      constructor
      · rintro ⟨other, member, differs⟩
        exact ⟨other, by simp [member], differs⟩
      · rintro ⟨other, member, differs⟩
        rw [List.zipIdx_cons, List.mem_cons] at member
        obtain here | later := member
        · cases here
          rw [same] at differs
          cases differs
        · exact ⟨other, later, differs⟩
    | none =>
      refine (ih (index + 1) _ (maximal.extend bounded) fun row marks => ?_).congr fun row => ?_
      · obtain early | rfl := marks
        · exact Nat.lt_succ_of_lt (bounded row early)
        · exact Nat.lt_succ_self _
      · rw [or_assoc]
        refine or_congr_right ?_
        constructor
        · rintro (rfl | ⟨other, member, differs⟩)
          · exact ⟨value, by simp, same⟩
          · exact ⟨other, by simp [member], differs⟩
        · rintro ⟨other, member, differs⟩
          rw [List.zipIdx_cons, List.mem_cons] at member
          obtain here | later := member
          · cases here
            exact .inl rfl
          · exact .inr ⟨other, later, differs⟩

end Loop

variable {indexes : List Nat} {rows : List ρ} {index start stop : Nat} {row : ρ}

section Reading

omit [DecidableEq ρ] in
private theorem mapM_eq_map {step : Nat → Option ρ} (each : ∀ index row, step index = some row → row = read index)
    (done : indexes.mapM step = some rows) : rows = indexes.map read := by
  induction indexes generalizing rows with
  | nil => simpa using done.symm
  | cons index indexes ih =>
    rw [List.mapM_cons] at done
    cases found : step index with
    | none => simp [found] at done
    | some row =>
      cases rest : indexes.mapM step with
      | none => simp [found, rest] at done
      | some others =>
        simp only [found, rest] at done
        cases done
        rw [List.map_cons, each index row found, ih rest]

omit [DecidableEq ρ] in
private theorem readRow_eq (found : readRow read current index = some row) : row = read index := by
  unfold readRow at found
  split at found <;> cases found
  rfl

omit [DecidableEq ρ] in
theorem mapM_readRow (done : indexes.mapM (readRow read current) = some rows) : rows = indexes.map read := mapM_eq_map (fun _ _ found => readRow_eq found) done

omit [DecidableEq ρ] in
/-- All rows, when those of the span were read before the others. -/
theorem complete_eq
    (done : complete count read current start stop ((List.range' start (stop - start)).map read) = some rows) :
    rows = (List.range count).map read := by
  refine mapM_eq_map (fun index row found => ?_) done
  split at found
  · rename_i inside
    rw [List.getElem?_map, List.getElem?_range' (by omega), Option.map_some, Option.some.injEq] at found
    rw [← found]
    congr 1
    omega
  · exact readRow_eq found

end Reading

section Rows

/-- The rows of a span keep their keys, or are no span. -/
def KeepsKeys (key : ρ → κ) (before : ItemSnapshot κ ρ) (read : Nat → ρ) (start stop : Nat) : Prop :=
  ∀ index, start ≤ index → index < stop → keyAt before index = some (key (read index))

def Changed (before : ItemSnapshot κ ρ) (first last : Int) (read : Nat → ρ) (index : Nat) : Prop :=
  dirty first last index = true ∨ (before.items[index]?).map Item.value ≠ some (read index)

omit [DecidableEq κ] in
theorem unchanged_none_iff (same : keyAt before index = some (key row)) :
    unchanged key before first last index row = none ↔
      dirty first last index = true ∨ (before.items[index]?).map Item.value ≠ some row := by
  obtain ⟨item, stands, _⟩ := Option.map_eq_some_iff.mp same
  have found := (before.indexed (key row) index).mpr same
  unfold unchanged
  simp only [found, Option.bind_eq_bind, Option.bind_some, stands, Option.map_some, ne_eq, Option.some.injEq]
  cases dirty first last index <;> by_cases equal : item.value = row <;> simp [equal]

omit [DecidableEq κ] in
theorem unchanged_some {revision : Nat} (kept : unchanged key before first last index row = some revision) :
    ∃ (old : Nat) (item : Item κ ρ), before.items[old]? = some item ∧ item.key = key row ∧ item.value = row ∧
      item.contentRevision = revision := by
  unfold unchanged at kept
  simp only [Option.bind_eq_bind, Option.bind_eq_some_iff] at kept
  obtain ⟨old, found, item, stands, kept⟩ := kept
  split at kept
  · rename_i same
    rw [Bool.and_eq_true, decide_eq_true_iff] at same
    have keys := (before.indexed (key row) old).mp found
    rw [stands, Option.map_some, Option.some.injEq] at keys
    exact ⟨old, item, stands, keys, same.2, by simpa using kept⟩
  · cases kept

omit [DecidableEq κ] [DecidableEq ρ] in
theorem zipIdx_rows (start stop : Nat) :
    ((List.range' start stop).map read).zipIdx start = (List.range' start stop).map fun index => (read index, index) := by
  induction stop generalizing start with
  | zero => rfl
  | succ stop ih => rw [List.range'_succ, List.map_cons, List.map_cons, List.zipIdx_cons, ih]

omit [DecidableEq ρ] in
theorem all_kept_iff : ((((List.range' start (stop - start)).map read).zipIdx start).all fun entry =>
        !moved key before entry.2 entry.1) = true ↔ KeepsKeys key before read start stop := by
  simp only [zipIdx_rows, List.all_map, List.all_eq_true, List.mem_range'_1, Function.comp_apply, moved,
    Bool.not_eq_true', decide_eq_false_iff_not, not_not, KeepsKeys]
  constructor
  · intro all index low high
    exact all index ⟨low, by omega⟩
  · rintro keeps index ⟨low, high⟩
    exact keeps index low (by omega)

end Rows

section Projections

variable {type : String} {result : ItemSourceProjection ρ}

/-- The rows of a span that keep their keys, as values; or all rows, compared. -/
theorem projectItemSource_cases (done : projectItemSource key before count first last read current type = some result) :
    (isSpan before count first last = true ∧ KeepsKeys key before read first.toNat (last.toNat + 1) ∧
        result = {
          valuesOnly := true
          values := (List.range' first.toNat (last.toNat + 1 - first.toNat)).map fun index => (index, read index) }) ∨
      (¬ (isSpan before count first last = true ∧ KeepsKeys key before read first.toNat (last.toNat + 1)) ∧
        ∃ pass, pass = compareRows key before first last 0 ((List.range count).map read)
          ⟨[], [], count ≠ before.items.length⟩ ∧
        result = {
          snapshot := some ⟨(List.range count).map read, pass.versions, type⟩
          changes := if pass.reset then [] else pass.changes
          reset := pass.reset }) := by
  unfold projectItemSource at done
  cases inside : isSpan before count first last with
  | true =>
    simp only [inside, if_true, Bool.true_and, Option.bind_eq_bind, Option.bind_eq_some_iff] at done
    obtain ⟨rows, reads, done⟩ := done
    have same := mapM_readRow reads
    subst same
    by_cases keeps : KeepsKeys key before read first.toNat (last.toNat + 1)
    · rw [if_pos (all_kept_iff.mpr keeps)] at done
      cases done
      refine .inl ⟨rfl, keeps, ?_⟩
      simp [zipIdx_rows]
    · rw [if_neg fun all => keeps (all_kept_iff.mp all), Option.bind_eq_some_iff] at done
      obtain ⟨rows, reads, done⟩ := done
      have all := complete_eq reads
      subst all
      cases done
      exact .inr ⟨fun both => keeps both.2, _, rfl, rfl⟩
  | false =>
    simp only [inside, Bool.false_and, Bool.false_eq_true, if_false, Option.bind_eq_bind, Option.bind_eq_some_iff,
      Option.bind_some] at done
    obtain ⟨rows, reads, done⟩ := done
    have same := mapM_readRow reads
    subst same
    cases done
    exact .inr ⟨by simp, _, rfl, by simp [List.range_eq_range']⟩

theorem reset_false_iff {pass : Pass}
    (passed : pass = compareRows key before first last 0 ((List.range count).map read)
      ⟨[], [], count ≠ before.items.length⟩) :
    pass.reset = false ↔ count = before.items.length ∧ KeepsKeys key before read 0 count := by
  have keeps := @all_kept_iff _ _ _ key before read 0 count
  rw [Nat.sub_zero, ← List.range_eq_range', List.all_eq_not_any_not] at keeps
  rw [passed, compareRows_reset, Bool.or_eq_false_iff, ← keeps]
  simp

/-- Two rows as they are shown. -/
def shown : ItemSnapshot Nat (Nat × Nat) :=
  ItemProjectionSnapshot.published Prod.fst ⟨[(1, 0), (2, 0)], [0, 0], ""⟩ 0 rfl (by decide)

end Projections

end Qcm.ItemProjectionProofs
