import Qcm.EntityOwnerProofs
import Qcm.EntityPropagation

/-!
A batch that meets its own stamps.

`Absorbs` says that an update was merged into what a key holds, or is too old to
be looked at, and `Spends` says the same of a removal.  Where every element of a
batch is absorbed, `apply` accepts the batch and leaves every key as it was.
-/

namespace Qcm.EntityRedelivery

open Lib EntityStore EntityApplyProofs EntityKey EntityMergeProofs
open EntityPhases EntityOrigins EntityPropagation

variable {iteration : Iteration} {store : Store} {batch : EntityBatch} {run : EntityStore.Run}
  {key : Key} {entry : Entry} {u : Update} {removal : Removal} {v : KeyState}

/-! ## Updates that were merged -/

/-- The entry has everything of an update: each of its fields is newer, or as the
update carries it. -/
structure HoldsAll (u : Update) (entry : Entry) : Prop where
  owner : entry.owner = u.stamp.owner
  fresh : entry.stale = false
  presence : ∃ seen, entry.versions .presence = some seen ∧ u.stamp.revision ≤ seen
  fields : ∀ a, .assign a ∈ u.steps → ∃ seen, entry.versions a.slot = some seen ∧
    u.stamp.revision ≤ seen ∧ (seen = u.stamp.revision →
      entry.content a.slot = a.incoming ∧ (a.slot ∈ entry.nulls ↔ a.isNull = true))
  quiet : ∀ message, .fail message ∉ u.steps

/-- The checks an update passes. -/
structure Checked (v : KeyState) (u : Update) : Prop where
  valid : ¬ (u.key.id ≤ 0 ∨ u.stamp.revision = 0 ∨ u.stamp.owner < 0)
  announced : v.floor ≤ u.stamp.revision → u.stamp.epoch ≤ v.epochs u.stamp.owner

/-- An update that changes nothing: it is too old, or the entry has all of it. -/
def Absorbs (v : KeyState) (u : Update) : Prop :=
  Rejects v u ∨ (Takes v u ∧ ∃ entry, v.current = some entry ∧ HoldsAll u entry)

theorem HoldsAll.touch (holds : HoldsAll u entry) (clock : Nat) :
    HoldsAll u { entry with touched := clock } :=
  ⟨holds.owner, holds.fresh, holds.presence, holds.fields, holds.quiet⟩

private theorem prepared_held (holds : HoldsAll u entry) : prepared u entry = entry := by
  obtain ⟨seen, version, newer⟩ := holds.presence
  have fresh := holds.fresh
  cases entry with
  | mk data owner epoch versions nulls artists album favorite stale touched =>
    simp only at version fresh
    simp only [prepared, Entry.mk.injEq, true_and, and_true]
    refine ⟨?_, fresh.symm⟩
    rw [version, Option.getD_some, Nat.max_eq_left newer, ← version, Function.update_eq_self]

private theorem assign_held {revision seen : Nat} {edit : Edit} {a : Assignment}
    (version : edit.entry.versions a.slot = some seen) (newer : revision ≤ seen)
    (same : seen = revision → edit.entry.content a.slot = a.incoming ∧
      (a.slot ∈ edit.entry.nulls ↔ a.isNull = true)) : assign revision edit a = edit := by
  unfold assign
  dsimp only
  rw [version]
  by_cases later : revision < seen
  · rw [if_pos (by simpa using later)]
  · obtain rfl : seen = revision := by omega
    obtain ⟨content, null⟩ := same rfl
    have flag : decide (a.slot ∈ edit.entry.nulls) = a.isNull := by simp [null]
    have equal : ¬ (some seen = (none : Option Nat) ∨ edit.entry.content a.slot ≠ a.incoming ∨
        decide (a.slot ∈ edit.entry.nulls) ≠ a.isNull) := by simp [content, flag]
    rw [if_neg (by simp), if_neg fun both => equal both.2, if_neg equal]
    have stamped : edit.entry.stamp a.slot seen a.isNull = edit.entry := by
      have versions : Function.update edit.entry.versions a.slot (some seen) = edit.entry.versions := by
        rw [← version, Function.update_eq_self]
      have nulls : (if a.isNull then insert a.slot edit.entry.nulls
          else edit.entry.nulls.erase a.slot) = edit.entry.nulls := by
        split
        · rename_i set
          exact Finset.insert_eq_of_mem (null.mpr set)
        · rename_i unset
          exact Finset.erase_eq_of_notMem fun member => unset (null.mp member)
      rw [Entry.stamp, versions, nulls]
    rw [stamped]

private theorem steps_held {revision : Nat} (steps : List Step) (edit : Edit)
    (fields : ∀ a, .assign a ∈ steps → ∃ seen, edit.entry.versions a.slot = some seen ∧
      revision ≤ seen ∧ (seen = revision → edit.entry.content a.slot = a.incoming ∧
        (a.slot ∈ edit.entry.nulls ↔ a.isNull = true)))
    (quiet : ∀ message, .fail message ∉ steps) : steps.foldl (Step.run revision) edit = edit := by
  induction steps with
  | nil => rfl
  | cons step rest ih =>
    have now : Step.run revision edit step = edit := by
      cases step with
      | fail message => exact absurd (.head _) (quiet message)
      | assign a =>
        obtain ⟨seen, version, newer, same⟩ := fields a (.head _)
        exact assign_held version newer same
    rw [List.foldl_cons, now]
    exact ih (fun a member => fields a (.tail _ member))
      fun message member => quiet message (.tail _ member)

private theorem prepare_rejects (checked : Checked (view run u.key) u)
    (rejects : Rejects (view run u.key) u) : prepare run u.key u.stamp u.data = (run, none) := by
  unfold prepare
  rw [if_neg checked.valid]
  split
  · rfl
  rename_i recent
  split
  · rfl
  rename_i current
  have announced : ¬ Hash.value run.epochs u.stamp.owner 0 < u.stamp.epoch :=
    Nat.not_lt.mpr (checked.announced (Nat.le_of_not_lt recent))
  rw [if_neg announced]
  obtain low | beyond | ⟨revision, dead, covers⟩ := rejects
  · exact absurd low recent
  · exact absurd beyond current
  · change run.tombstones.lookup u.key = some revision at dead
    rw [if_pos (by simpa [dead] using covers)]

private theorem prepare_held (plain : canonical u.key = u.key)
    (valid : ¬ (u.key.id ≤ 0 ∨ u.stamp.revision = 0 ∨ u.stamp.owner < 0))
    (taken : Takes (view run u.key) u) (current : (view run u.key).current = some entry)
    (holds : HoldsAll u entry) :
    prepare run u.key u.stamp u.data =
      ({ run with
          removed := run.removed.erase u.key
          staged := run.staged.insert u.key entry
          statuses := run.statuses.insert u.key .ready }, some entry) := by
  have readied : ready run u.key u.stamp entry =
      ({ run with
          removed := run.removed.erase u.key
          staged := run.staged.insert u.key entry
          statuses := run.statuses.insert u.key .ready }, some entry) := by
    have kept := prepared_held holds
    unfold prepared at kept
    unfold ready
    rw [holds.fresh]
    simp only [Bool.false_eq_true, if_false, kept]
  have alive : ¬ (run.tombstones.lookup u.key).any (u.stamp.revision ≤ ·) := by
    intro dead
    obtain ⟨revision, tombstone, covers⟩ := Option.any_eq_true _ _ |>.mp dead
    have older := taken.alive revision tombstone
    simp only [decide_eq_true_eq] at covers
    omega
  have announced : u.stamp.epoch = Hash.value run.epochs u.stamp.owner 0 := taken.announced
  have recent : ¬ u.stamp.revision < run.store.floor := Nat.not_lt.mpr taken.recent
  unfold prepare
  rw [if_neg valid, if_neg recent, if_neg (by omega), if_neg (by omega),
    if_neg alive, find_plain plain]
  simp only [view] at current
  cases staged : run.staged.lookup u.key with
  | some held =>
    rw [staged, Option.some_or] at current
    cases current
    exact readied
  | none =>
    rw [staged, Option.none_or] at current
    dsimp only
    rw [current]
    dsimp only
    rw [if_neg (not_not.mpr holds.owner)]
    exact readied

/-- An update that is absorbed does not fail, and leaves every key and every mark
as they were. -/
theorem absorbed_update (plain : canonical u.key = u.key) (clean : run.error = "")
    (checked : Checked (view run u.key) u) (absorbs : Absorbs (view run u.key) u) :
    (applyUpdate run u).error = "" ∧ (applyUpdate run u).epochs = run.epochs ∧
      (∀ key, view (applyUpdate run u) key = view run key) ∧
      ∀ key, Hash.value (applyUpdate run u).changed key ∅ = Hash.value run.changed key ∅ := by
  obtain rejects | ⟨taken, entry, current, holds⟩ := absorbs
  · have same : applyUpdate run u = run := by
      rw [applyUpdate, prepare_rejects checked rejects]
    rw [same]
    exact ⟨clean, rfl, fun _ => rfl, fun _ => rfl⟩
  · have steps : u.steps.foldl (Step.run u.stamp.revision) ⟨entry, ∅, ""⟩ = ⟨entry, ∅, ""⟩ :=
      steps_held u.steps _ holds.fields holds.quiet
    have same : applyUpdate run u = { run with
        removed := run.removed.erase u.key
        staged := run.staged.insert u.key entry
        statuses := run.statuses.insert u.key .ready } := by
      rw [applyUpdate, prepare_held plain checked.valid taken current holds]
      dsimp only
      rw [steps]
      simp
    rw [same]
    refine ⟨clean, rfl, fun key => ?_, fun _ => rfl⟩
    by_cases here : key = u.key
    · subst here
      have before : (run.staged.lookup u.key).or
          (if u.key ∈ run.removed then none else run.store.entries.lookup u.key) = some entry := current
      simp [view, before]
    · simp [view, here, List.mem_erase_of_ne here]

/-- The checks a removal passes. -/
structure RemovalChecked (v : KeyState) (removal : Removal) : Prop where
  valid : ¬ ((Removal.key removal).id ≤ 0 ∨
    ((Removal.key removal).type ≠ Song ∧ (Removal.key removal).type ≠ Album ∧
      (Removal.key removal).type ≠ Artist ∧ (Removal.key removal).type ≠ Mix) ∨
    removal.stamp.revision = 0 ∨ removal.stamp.owner < 0)
  announced : v.floor ≤ removal.stamp.revision → removal.stamp.epoch ≤ v.epochs removal.stamp.owner

/-- A removal that is not looked at: older than the floor or the epoch of its owner. -/
def Outdated (v : KeyState) (removal : Removal) : Prop :=
  removal.stamp.revision < v.floor ∨ removal.stamp.epoch < v.epochs removal.stamp.owner

/-- A removal that changes nothing: it is too old, or the key is gone and its
tombstone is as new. -/
def Spends (v : KeyState) (removal : Removal) : Prop :=
  Outdated v removal ∨ (∃ entry, v.current = some entry ∧ removal.stamp.revision < latest (some entry)) ∨
    (v.current = none ∧ ∃ dead, v.tombstone = some dead ∧ removal.stamp.revision ≤ dead)

/-- A removal that is spent does not fail, and leaves every key and every mark as
they were. -/
theorem spent_removal (clean : run.error = "")
    (checked : RemovalChecked (view run (Removal.key removal)) removal)
    (same : ∀ key, view run key = storeView run.store key)
    (spends : Spends (view run (Removal.key removal)) removal) :
    (applyRemoval run removal).error = "" ∧ (applyRemoval run removal).epochs = run.epochs ∧
      (∀ key, view (applyRemoval run removal) key = view run key) ∧
      ∀ key, Hash.value (applyRemoval run removal).changed key ∅ = Hash.value run.changed key ∅ := by
  have announced := checked.announced
  have existing := view_existing run (Removal.key removal)
  have unstored : (view run (Removal.key removal)).current = none →
      run.staged.lookup (Removal.key removal) = none ∧
        run.store.entries.lookup (Removal.key removal) = none := by
    intro gone
    have stored := congrArg KeyState.current (same (Removal.key removal))
    rw [gone] at stored
    refine ⟨?_, by simpa [storeView, view, EntityStore.Run.start] using stored.symm⟩
    exact (Option.or_eq_none_iff.mp gone).1
  have valid : ¬ ((canonical ⟨removal.type, removal.id⟩).id ≤ 0 ∨
      ((canonical ⟨removal.type, removal.id⟩).type ≠ Song ∧
        (canonical ⟨removal.type, removal.id⟩).type ≠ Album ∧
        (canonical ⟨removal.type, removal.id⟩).type ≠ Artist ∧
        (canonical ⟨removal.type, removal.id⟩).type ≠ Mix) ∨
      removal.stamp.revision = 0 ∨ removal.stamp.owner < 0) := checked.valid
  unfold applyRemoval
  dsimp only
  rw [find_plain (canonical_idem ⟨removal.type, removal.id⟩), if_neg valid]
  split
  · exact ⟨clean, rfl, fun _ => rfl, fun _ => rfl⟩
  rename_i recent
  split
  · exact ⟨clean, rfl, fun _ => rfl, fun _ => rfl⟩
  rename_i current
  have known : ¬ Hash.value run.epochs removal.stamp.owner 0 < removal.stamp.epoch :=
    Nat.not_lt.mpr (announced (Nat.le_of_not_lt recent))
  rw [if_neg known]
  split
  · exact ⟨clean, rfl, fun _ => rfl, fun _ => rfl⟩
  rename_i newest
  obtain (low | beyond) | ⟨entry, held, newer⟩ | ⟨gone, dead, tombstone, covers⟩ := spends
  · exact absurd low recent
  · exact absurd beyond current
  · rw [held, Option.some_or] at existing
    change ¬ removal.stamp.revision < latest ((run.staged.lookup (Removal.key removal)).or
      (run.store.entries.lookup (Removal.key removal))) at newest
    rw [← existing] at newest
    exact absurd newer newest
  · obtain ⟨unstaged, absent⟩ := unstored gone
    have dead_run : run.tombstones.lookup (Removal.key removal) = some dead := tombstone
    have dead_store : run.store.tombstones.lookup (Removal.key removal) = some dead := by
      have tombstones := congrArg KeyState.tombstone (same (Removal.key removal))
      rw [tombstone] at tombstones
      exact tombstones.symm
    have listed : Removal.key removal ∈ run.store.tombstones :=
      AList.lookup_isSome.mp (by rw [dead_store]; rfl)
    refine ⟨clean, rfl, fun key => ?_, fun key => ?_⟩
    · by_cases here : key = Removal.key removal
      · subst here
        have value : max (Hash.value run.tombstones (Removal.key removal) 0) removal.stamp.revision = dead := by
          rw [Hash.value, dead_run, Option.getD_some, Nat.max_eq_left covers]
        have after : (view { run with
            removed := run.removed.insert (Removal.key removal)
            staged := run.staged.erase (Removal.key removal)
            statuses := run.statuses.insert (Removal.key removal) .deleted
            tombstones := run.tombstones.insert (Removal.key removal)
              (max (Hash.value run.tombstones (Removal.key removal) 0) removal.stamp.revision) }
            (Removal.key removal)) = view run (Removal.key removal) := by
          rw [value]
          simp [view, unstaged, absent, dead_run]
        exact after
      · have apart : key ≠ canonical ⟨removal.type, removal.id⟩ := here
        simp [view, apart]
    · change Hash.value (if ((run.staged.lookup (Removal.key removal)).or
        (run.store.entries.lookup (Removal.key removal))).isSome ∨
          Removal.key removal ∉ run.store.tombstones then _ else _) key ∅ = _
      rw [if_neg]
      rintro (there | fresh)
      · rw [unstaged, absent] at there
        cases there
      · exact fresh listed

end Qcm.EntityRedelivery
