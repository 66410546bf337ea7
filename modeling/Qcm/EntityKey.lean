import Qcm.EntityApplyProofs
import Qcm.Lib.Runs

/-!
The entity store seen from one key.

`KeyStep` says all that one element of a batch can do to a key: announce an
epoch, be merged into the entry or be rejected, take the entry away or be passed
over.  `apply_follows` connects it to the code: a batch that `apply` accepts
takes the view of every key through the elements that concern it, in their
order, and `Committed` to the view of the store it leaves.
-/

namespace Qcm.EntityKey

open Lib Lib.Runs EntityStore EntityApplyProofs

/-- What the store and a batch in progress know about one key: the entry in the
members, the entry there will be when the batch ends here, and the tombstone. -/
structure KeyState where
  epochs : Int → Nat
  floor : Nat
  stored : Option Entry
  current : Option Entry
  tombstone : Option Nat

/-- The entry an update starts from when there is none. -/
def freshEntry (u : Update) : Entry :=
  ⟨u.data, u.stamp.owner, u.stamp.epoch, fun _ => none, ∅, [], none, none, false, 0⟩

/-- The entry `prepare` hands out. -/
def prepared (u : Update) (entry : Entry) : Entry :=
  { entry with
    stale := false
    versions := Function.update entry.versions .presence
      (some (max ((entry.versions .presence).getD 0) u.stamp.revision)) }

/-- An entry after all steps of an update. -/
def merge (u : Update) (current : Option Entry) : Edit :=
  u.steps.foldl (Step.run u.stamp.revision) ⟨prepared u (current.getD (freshEntry u)), ∅, ""⟩

/-- The elements of a batch that concern a key. -/
inductive Event where
  | invalidate (reset : ReadStamp)
  | update (u : Update)
  | remove (stamp : ReadStamp)

/-- The entry is of an epoch that is over. -/
def outdatedBy (reset : ReadStamp) (entry : Entry) : Bool :=
  decide (entry.owner = reset.owner ∧ entry.epoch < reset.epoch)

/-- An update that is too old to be looked at. -/
def Rejects (s : KeyState) (u : Update) : Prop :=
  u.stamp.revision < s.floor ∨ u.stamp.epoch < s.epochs u.stamp.owner ∨
    ∃ revision, s.tombstone = some revision ∧ u.stamp.revision ≤ revision

/-- An update that is merged: nothing that was removed is as new. -/
structure Takes (s : KeyState) (u : Update) : Prop where
  recent : s.floor ≤ u.stamp.revision
  announced : u.stamp.epoch = s.epochs u.stamp.owner
  alive : ∀ revision, s.tombstone = some revision → revision < u.stamp.revision

/-- What an element can do to a key. -/
inductive KeyStep : KeyState → Event → KeyState → Prop where
  | known {s : KeyState} {reset : ReadStamp} (old : reset.epoch ≤ s.epochs reset.owner) :
      KeyStep s (.invalidate reset) s
  | bumped {s : KeyState} {reset : ReadStamp} (new : s.epochs reset.owner < reset.epoch)
      (unstaged : s.current = none ∨ s.current = s.stored) :
      KeyStep s (.invalidate reset)
        { s with
          epochs := Function.update s.epochs reset.owner reset.epoch
          current := if s.stored.any (outdatedBy reset) then none else s.current }
  | rejected {s : KeyState} {u : Update} (old : Rejects s u) : KeyStep s (.update u) s
  | merged {s : KeyState} {u : Update} (taken : Takes s u)
      (clean : (merge u s.current).error = "") :
      KeyStep s (.update u) { s with current := some (merge u s.current).entry }
  | passed {s : KeyState} {stamp : ReadStamp}
      (old : stamp.revision < s.floor ∨ stamp.epoch < s.epochs stamp.owner ∨
        stamp.revision < latest (s.current.or s.stored)) : KeyStep s (.remove stamp) s
  | removed {s : KeyState} {stamp : ReadStamp} (recent : s.floor ≤ stamp.revision)
      (announced : stamp.epoch = s.epochs stamp.owner)
      (newest : latest (s.current.or s.stored) ≤ stamp.revision) :
      KeyStep s (.remove stamp)
        { s with
          current := none
          tombstone := some (max (s.tombstone.getD 0) stamp.revision) }

/-- The end of a batch: the current entry is stored, the floor may rise, and a
tombstone may go that the floor has reached. -/
structure Committed (s t : KeyState) : Prop where
  epochs : t.epochs = s.epochs
  floor : s.floor ≤ t.floor
  stored : ∃ clock, t.stored = s.current.map fun entry => { entry with touched := clock }
  current : t.current = t.stored
  tombstone : t.tombstone = s.tombstone ∨
    ∃ revision, s.tombstone = some revision ∧ revision ≤ t.floor ∧ t.tombstone = none

/-- The view of a key in the middle of a batch. -/
def view (run : Run) (key : Key) : KeyState where
  epochs owner := Hash.value run.epochs owner 0
  floor := run.store.floor
  stored := run.store.entries.lookup key
  current := (run.staged.lookup key).or
    (if key ∈ run.removed then none else run.store.entries.lookup key)
  tombstone := run.tombstones.lookup key

/-- The view of a key between batches. -/
def storeView (store : Store) (key : Key) : KeyState := view (Run.start store) key

def updateEvent (key : Key) (u : Update) : Option Event :=
  if u.key = key then some (.update u) else none

/-- The key a removal names. -/
def Removal.key (removal : Removal) : Key := canonical ⟨removal.type, removal.id⟩

def removalEvent (key : Key) (removal : Removal) : Option Event :=
  if Removal.key removal = key then some (.remove removal.stamp) else none

/-- The elements of a batch that concern a key, in the order `apply` meets them. -/
def events (key : Key) (batch : EntityBatch) : List Event :=
  batch.invalidations.map .invalidate ++
    (batch.updates.filterMap (updateEvent key) ++ batch.removals.filterMap (removalEvent key))

variable {iteration : Iteration} {store : Store} {batch : EntityBatch} {run : Run} {key : Key}

variable {u : Update} {removal : Removal}

theorem mem_events {event : Event} :
    event ∈ events key batch ↔
      (∃ reset ∈ batch.invalidations, event = .invalidate reset) ∨
      (∃ u ∈ batch.updates, u.key = key ∧ event = .update u) ∨
      ∃ removal ∈ batch.removals, Removal.key removal = key ∧ event = .remove removal.stamp := by
  simp only [events, List.mem_append, List.mem_map, List.mem_filterMap, updateEvent, removalEvent,
    Option.ite_none_right_eq_some, Option.some.injEq, eq_comm (a := event)]

theorem mem_invalidate {reset : ReadStamp} (member : .invalidate reset ∈ events key batch) :
    reset ∈ batch.invalidations := by
  simpa using mem_events.mp member

theorem mem_update (member : .update u ∈ events key batch) : u ∈ batch.updates ∧ u.key = key := by
  simpa using mem_events.mp member

theorem mem_remove {stamp : ReadStamp} (member : .remove stamp ∈ events key batch) :
    ∃ removal ∈ batch.removals, Removal.key removal = key ∧ stamp = removal.stamp := by
  simpa using mem_events.mp member

@[simp] theorem canonical_idem (key : Key) : canonical (canonical key) = canonical key := by
  by_cases albumArtist : key.type = 52
  · simp [canonical, albumArtist, Artist]
  · simp [canonical, albumArtist]

theorem find_plain (plain : canonical key = key) : find store key = store.entries.lookup key := by
  rw [find, plain]

theorem update_key_plain (member : u ∈ batch.updates) : canonical u.key = u.key := by
  simp only [EntityBatch.updates, List.mem_append, List.mem_map] at member
  obtain ((⟨_, _, rfl⟩ | ⟨_, _, rfl⟩) | ⟨_, _, rfl⟩) | ⟨_, _, rfl⟩ := member
  all_goals rfl

theorem mem_outdated {reset : ReadStamp} :
    key ∈ outdated store reset.owner reset.epoch ↔
      (store.entries.lookup key).any (outdatedBy reset) = true := by
  simp only [outdated, List.mem_map, List.mem_filter, Option.any_eq_true, outdatedBy]
  constructor
  · rintro ⟨⟨_, entry⟩, ⟨member, old⟩, rfl⟩
    exact ⟨entry, (Hash.lookup_eq_some_iff _ _ _).mpr member, old⟩
  · rintro ⟨entry, found, old⟩
    exact ⟨⟨key, entry⟩, ⟨(Hash.lookup_eq_some_iff _ _ _).mp found, old⟩, rfl⟩

theorem foldl_discard (keys : List Key) (run : Run) :
    ∃ removed changed statuses, keys.foldl Run.discard run =
      { run with removed := removed, changed := changed, statuses := statuses } ∧
      ∀ key, key ∈ removed ↔ key ∈ keys ∨ key ∈ run.removed := by
  induction keys generalizing run with
  | nil => exact ⟨_, _, _, rfl, by simp⟩
  | cons first rest ih =>
    obtain ⟨removed, changed, statuses, same, members⟩ := ih (run.discard first)
    refine ⟨removed, changed, statuses, same, fun key => ?_⟩
    rw [members, Run.discard, List.mem_insert_iff, List.mem_cons]
    tauto

private theorem invalidate_step (iteration : Iteration) (key : Key) (unstaged : run.staged = ∅)
    (reset : ReadStamp) :
    KeyStep (view run key) (.invalidate reset) (view (invalidate iteration run reset) key) ∧
      (invalidate iteration run reset).staged = ∅ ∧
      (invalidate iteration run reset).error = run.error := by
  unfold invalidate
  split
  · rename_i new
    obtain ⟨removed, changed, statuses, same, members⟩ :=
      foldl_discard (iteration.order (outdated run.store reset.owner reset.epoch))
        { run with epochs := run.epochs.insert reset.owner reset.epoch }
    rw [same]
    refine ⟨?_, unstaged, rfl⟩
    have shape : view { run with
        epochs := run.epochs.insert reset.owner reset.epoch
        removed := removed
        changed := changed
        statuses := statuses } key =
      { view run key with
        epochs := Function.update (view run key).epochs reset.owner reset.epoch
        current := if (view run key).stored.any (outdatedBy reset) then none
          else (view run key).current } := by
      simp only [view, unstaged, AList.lookup_empty, Option.none_or, KeyState.mk.injEq, and_true,
        true_and]
      refine ⟨?_, ?_⟩
      · funext owner
        simp only [Hash.value_insert, Function.update_apply]
      · have gone := (iteration.perm (outdated run.store reset.owner reset.epoch)).mem_iff (a := key)
        rw [mem_outdated] at gone
        simp only [members, gone]
        by_cases old : (run.store.entries.lookup key).any (outdatedBy reset) = true
        · simp [old]
        · simp [old]
    rw [shape]
    refine .bumped new ?_
    simp only [view, unstaged, AList.lookup_empty, Option.none_or]
    split
    · exact .inl rfl
    · exact .inr rfl
  · rename_i old
    exact ⟨.known (Nat.le_of_not_lt old), unstaged, rfl⟩

theorem fail_error (message : String) (loud : message ≠ "") :
    (run.fail message).error ≠ "" := by
  unfold Run.fail
  split
  · exact loud
  · assumption

private theorem invalidations_follow (key : Key) (unstaged : run.staged = ∅)
    (resets : List ReadStamp)
    (clean : (invalidations iteration run resets).error = "") :
    run.error = "" ∧
      Follows KeyStep (view run key) (resets.map .invalidate)
        (view (invalidations iteration run resets) key) := by
  induction resets generalizing run with
  | nil => exact ⟨clean, .nil _⟩
  | cons reset rest ih =>
    unfold invalidations at clean ⊢
    split at clean
    · exact absurd clean (fail_error _ (by decide))
    · rename_i valid
      rw [if_neg valid]
      obtain ⟨stepped, still, same⟩ := invalidate_step iteration key unstaged reset
      obtain ⟨before, follows⟩ := ih still clean
      exact ⟨same ▸ before, .cons stepped follows⟩

/-! ## Updates -/

/-- The fields `prepare` marks: a new entry appears, a stale one is fresh again. -/
def preparedFields (current : Option Entry) : Fields :=
  (if current.isNone then {.presence} else ∅) ∪ (if current.any (·.stale) then {.stale} else ∅)

@[simp] theorem value_mark (run : Run) (key other : Key) (fields : Fields) :
    Hash.value (run.mark key fields).changed other ∅ =
      if other = key then Hash.value run.changed other ∅ ∪ fields
      else Hash.value run.changed other ∅ := by
  rw [Run.mark, Hash.value_insert]
  split
  · rename_i same
    rw [same]
  · rfl

private theorem ready_shape (run : Run) (key : Key) (u : Update) (entry : Entry) :
    ∃ changed, ready run key u.stamp entry =
      ({ run with
          staged := run.staged.insert key (prepared u entry)
          removed := run.removed.erase key
          changed := changed
          statuses := run.statuses.insert key .ready }, some (prepared u entry)) ∧
      ∀ other, Hash.value changed other ∅ =
        if other = key then Hash.value run.changed other ∅ ∪ (if entry.stale then {.stale} else ∅)
        else Hash.value run.changed other ∅ := by
  unfold ready
  by_cases stale : entry.stale = true
  · simp only [stale, if_true]
    exact ⟨_, rfl, fun other => value_mark run key other {.stale}⟩
  · simp only [stale, Bool.false_eq_true, if_false]
    exact ⟨_, rfl, fun other => by simp⟩

/-- An update is merged into the entry there is, or into a new one. -/
structure UpdateMerged (run : Run) (u : Update) (after : Run) : Prop where
  taken : Takes (view run u.key) u
  /-- An entry that no update of the batch was merged into yet is of the same owner. -/
  owner : run.staged.lookup u.key = none →
    ∀ entry, (view run u.key).current = some entry → entry.owner = u.stamp.owner
  clean : (merge u (view run u.key).current).error = ""
  epochs : after.epochs = run.epochs
  tombstones : after.tombstones = run.tombstones
  staged : after.staged = run.staged.insert u.key (merge u (view run u.key).current).entry
  removed : after.removed = run.removed.erase u.key
  statuses : after.statuses = run.statuses.insert u.key .ready
  changed : ∀ key, Hash.value after.changed key ∅ =
    if key = u.key then Hash.value run.changed key ∅ ∪ preparedFields (view run u.key).current ∪
      (merge u (view run u.key).current).fields
    else Hash.value run.changed key ∅

private theorem prepare_cases {run' : Run} {found : Option Entry} (plain : canonical u.key = u.key)
    (ran : prepare run u.key u.stamp u.data = (run', found)) (clean : run'.error = "") : run.error = "" ∧
      ((found = none ∧ run' = run ∧ Rejects (view run u.key) u) ∨
        (Takes (view run u.key) u ∧
          (run.staged.lookup u.key = none →
            ∀ entry, (view run u.key).current = some entry → entry.owner = u.stamp.owner) ∧
          ∃ changed,
            found = some (prepared u ((view run u.key).current.getD (freshEntry u))) ∧
            run' = { run with
              staged := run.staged.insert u.key
                (prepared u ((view run u.key).current.getD (freshEntry u)))
              removed := run.removed.erase u.key
              changed := changed
              statuses := run.statuses.insert u.key .ready } ∧
            ∀ key, Hash.value changed key ∅ =
              if key = u.key then
                Hash.value run.changed key ∅ ∪ preparedFields (view run u.key).current
              else Hash.value run.changed key ∅)) := by
  unfold prepare at ran
  rw [find_plain plain] at ran
  split at ran
  · cases ran
    exact absurd clean (fail_error _ (by decide))
  split at ran
  · rename_i old
    cases ran
    exact ⟨clean, .inl ⟨rfl, rfl, .inl old⟩⟩
  split at ran
  · rename_i old
    cases ran
    exact ⟨clean, .inl ⟨rfl, rfl, .inr (.inl old)⟩⟩
  split at ran
  · cases ran
    exact absurd clean (fail_error _ (by decide))
  split at ran
  · rename_i dead
    cases ran
    obtain ⟨revision, tombstone, old⟩ := Option.any_eq_true _ _ |>.mp dead
    exact ⟨clean, .inl ⟨rfl, rfl, .inr (.inr ⟨revision, tombstone, by simpa using old⟩)⟩⟩
  rename_i recent current announced alive
  have taken : Takes (view run u.key) u := by
    refine ⟨Nat.le_of_not_lt recent, ?_, fun revision tombstone => ?_⟩
    · exact Nat.le_antisymm (Nat.le_of_not_lt announced) (Nat.le_of_not_lt current)
    · have := alive
      change run.tombstones.lookup u.key = some revision at tombstone
      rw [tombstone] at this
      simpa using this
  cases staged : run.staged.lookup u.key with
  | some entry =>
    have base : (view run u.key).current = some entry := by simp [view, staged]
    obtain ⟨changed, shape, marks⟩ := ready_shape run u.key u entry
    rw [staged] at ran
    cases shape.symm.trans ran
    refine ⟨clean, .inr ⟨taken, by rintro ⟨⟩, changed, ?_⟩⟩
    simp [base, marks, preparedFields]
  | none =>
    rw [staged] at ran
    dsimp only at ran
    split at ran
    · rename_i existing stored
      split at ran
      · cases ran
        exact absurd clean (fail_error _ (by decide))
      · rename_i same
        have base : (view run u.key).current = some existing := by simp [view, staged, stored]
        obtain ⟨changed, shape, marks⟩ := ready_shape run u.key u existing
        cases shape.symm.trans ran
        refine ⟨clean, .inr ⟨taken, fun _ entry found => ?_, changed, ?_⟩⟩
        · cases base.symm.trans found
          exact not_not.mp same
        · simp [base, marks, preparedFields]
    · rename_i absent
      have base : (view run u.key).current = none := by simp [view, staged, absent]
      obtain ⟨changed, shape, marks⟩ :=
        ready_shape (run.mark u.key {.presence}) u.key u (freshEntry u)
      cases shape.symm.trans ran
      refine ⟨clean, .inr ⟨taken, fun _ entry found => ?_, changed, ?_⟩⟩
      · rw [base] at found
        contradiction
      · refine ⟨by rw [base]; rfl, by rw [base]; rfl, fun key => ?_⟩
        rw [marks, value_mark, base]
        split <;> simp [preparedFields, freshEntry]

theorem applyUpdate_cases (plain : canonical u.key = u.key) (clean : (applyUpdate run u).error = "") :
    run.error = "" ∧
      ((Rejects (view run u.key) u ∧ applyUpdate run u = run) ∨
        UpdateMerged run u (applyUpdate run u)) := by
  unfold applyUpdate at clean ⊢
  split at clean
  · rename_i run' same
    obtain ⟨before, ⟨_, rfl, old⟩ | ⟨_, _, _, absurd, _⟩⟩ := prepare_cases plain same clean
    · exact ⟨before, .inl ⟨old, rfl⟩⟩
    · cases absurd
  · rename_i run' entry same
    dsimp only at clean ⊢
    -- a step that fails would leave its message
    have quiet : (u.steps.foldl (Step.run u.stamp.revision) ⟨entry, ∅, ""⟩).error = "" := by
      by_contra loud
      rw [if_neg loud] at clean
      exact fail_error _ loud clean
    simp only [quiet, if_true] at clean ⊢
    have settled : run'.error = "" := by
      split at clean
      · exact clean
      · exact clean
    obtain ⟨before, ⟨absurd, _⟩ | ⟨taken, owner, changed, found, rfl, marks⟩⟩ :=
      prepare_cases plain same settled
    · cases absurd
    · cases found
      refine ⟨before, .inr ⟨taken, owner, quiet, ?_, ?_, ?_, ?_, ?_, fun key => ?_⟩⟩
      · split <;> rfl
      · split <;> rfl
      · split <;> exact AList.insert_insert _
      · split <;> rfl
      · split <;> rfl
      · dsimp only
        split
        · rename_i unchanged
          rw [merge, unchanged]
          simpa using marks key
        · rw [value_mark, marks]
          split <;> rfl

theorem update_checked (clean : (applyUpdate run u).error = "") :
    ¬ (u.key.id ≤ 0 ∨ u.stamp.revision = 0 ∨ u.stamp.owner < 0) ∧
      (run.store.floor ≤ u.stamp.revision →
        u.stamp.epoch ≤ Hash.value run.epochs u.stamp.owner 0) := by
  have loud (message : String) (failed : prepare run u.key u.stamp u.data = (run.fail message, none))
      (said : message ≠ "") : False := by
    unfold applyUpdate at clean
    rw [failed] at clean
    exact fail_error _ said clean
  refine ⟨fun invalid => ?_, fun recent => ?_⟩
  · exact loud "Invalid entity identity or stamp" (by rw [prepare, if_pos invalid]) (by decide)
  · by_contra later
    refine loud "Unannounced owner epoch" ?_ (by decide)
    unfold prepare
    split
    · rename_i invalid
      exact (loud "Invalid entity identity or stamp" (by rw [prepare, if_pos invalid]) (by decide)).elim
    · rw [if_neg (Nat.not_lt.mpr recent), if_neg (by omega), if_pos (by omega)]

private theorem applyUpdate_step (key : Key) (plain : canonical u.key = u.key)
    (clean : (applyUpdate run u).error = "") : run.error = "" ∧
      (u.key = key → KeyStep (view run key) (.update u) (view (applyUpdate run u) key)) ∧
      (u.key ≠ key → view (applyUpdate run u) key = view run key) := by
  obtain ⟨before, ⟨old, same⟩ | merged⟩ := applyUpdate_cases plain clean
  · rw [same]
    refine ⟨before, ?_, fun _ => rfl⟩
    rintro rfl
    exact .rejected old
  · refine ⟨before, ?_, ?_⟩
    · rintro rfl
      refine Eq.subst ?_ (KeyStep.merged merged.taken merged.clean)
      simp [view, merged.epochs, merged.tombstones, merged.staged]
    · intro other
      have apart : key ≠ u.key := Ne.symm other
      simp [view, merged.epochs, merged.tombstones, merged.staged, merged.removed, apart,
        List.mem_erase_of_ne apart]

theorem view_existing (run : Run) (key : Key) :
    (view run key).current.or (view run key).stored =
      (run.staged.lookup key).or (run.store.entries.lookup key) := by
  simp only [view]
  cases run.staged.lookup key with
  | some entry => rfl
  | none =>
    simp only [Option.none_or]
    split
    · rfl
    · cases run.store.entries.lookup key <;> rfl

/-- A removal that is looked at: it is not older than the floor, its epoch is the
current one, and nothing in the entry is newer. -/
structure Strikes (run : Run) (removal : Removal) : Prop where
  recent : run.store.floor ≤ removal.stamp.revision
  announced : removal.stamp.epoch = Hash.value run.epochs removal.stamp.owner 0
  newest : latest ((run.staged.lookup (Removal.key removal)).or
    (run.store.entries.lookup (Removal.key removal))) ≤ removal.stamp.revision

/-- A removal that is passed over. -/
def Passes (run : Run) (removal : Removal) : Prop :=
  removal.stamp.revision < run.store.floor ∨
    removal.stamp.epoch < Hash.value run.epochs removal.stamp.owner 0 ∨
    removal.stamp.revision < latest ((run.staged.lookup (Removal.key removal)).or
      (run.store.entries.lookup (Removal.key removal)))

/-- A batch in progress after a removal that is carried out. -/
def Run.strike (run : Run) (removal : Removal) : Run :=
  let key := Removal.key removal
  { run with
    removed := run.removed.insert key
    staged := run.staged.erase key
    statuses := run.statuses.insert key .deleted
    tombstones :=
      run.tombstones.insert key (max (Hash.value run.tombstones key 0) removal.stamp.revision)
    changed :=
      if ((run.staged.lookup key).or (run.store.entries.lookup key)).isSome ∨
          key ∉ run.store.tombstones then
        run.changed.insert key AllFields
      else run.changed }

theorem applyRemoval_cases (clean : (applyRemoval run removal).error = "") : run.error = "" ∧
      ((Passes run removal ∧ applyRemoval run removal = run) ∨
        (Strikes run removal ∧ applyRemoval run removal = Run.strike run removal)) := by
  unfold applyRemoval at clean ⊢
  dsimp only at clean ⊢
  rw [find_plain (canonical_idem ⟨removal.type, removal.id⟩)] at clean ⊢
  split at clean
  · exact absurd clean (fail_error _ (by decide))
  rename_i valid
  rw [if_neg valid]
  split at clean
  · rename_i old
    rw [if_pos old]
    exact ⟨clean, .inl ⟨.inl old, rfl⟩⟩
  rename_i recent
  rw [if_neg recent]
  split at clean
  · rename_i old
    rw [if_pos old]
    exact ⟨clean, .inl ⟨.inr (.inl old), rfl⟩⟩
  rename_i current
  rw [if_neg current]
  split at clean
  · exact absurd clean (fail_error _ (by decide))
  rename_i announced
  rw [if_neg announced]
  split at clean
  · rename_i old
    rw [if_pos old]
    exact ⟨clean, .inl ⟨.inr (.inr old), rfl⟩⟩
  · rename_i newest
    rw [if_neg newest]
    exact ⟨clean, .inr ⟨⟨Nat.le_of_not_lt recent,
      Nat.le_antisymm (Nat.le_of_not_lt announced) (Nat.le_of_not_lt current),
      Nat.le_of_not_lt newest⟩, rfl⟩⟩

theorem removal_checked (clean : (applyRemoval run removal).error = "") : ¬ ((Removal.key removal).id ≤ 0 ∨
      ((Removal.key removal).type ≠ Song ∧ (Removal.key removal).type ≠ Album ∧
        (Removal.key removal).type ≠ Artist ∧ (Removal.key removal).type ≠ Mix) ∨
      removal.stamp.revision = 0 ∨ removal.stamp.owner < 0) ∧
      (run.store.floor ≤ removal.stamp.revision →
        removal.stamp.epoch ≤ Hash.value run.epochs removal.stamp.owner 0) := by
  unfold applyRemoval at clean
  dsimp only at clean
  split at clean
  · exact absurd clean (fail_error _ (by decide))
  rename_i valid
  refine ⟨valid, fun recent => ?_⟩
  by_contra later
  rw [if_neg (Nat.not_lt.mpr recent), if_neg (by omega), if_pos (by omega)] at clean
  exact fail_error _ (by decide) clean

theorem applyRemoval_step (key : Key) (clean : (applyRemoval run removal).error = "") : run.error = "" ∧
      (Removal.key removal = key →
        KeyStep (view run key) (.remove removal.stamp) (view (applyRemoval run removal) key)) ∧
      (Removal.key removal ≠ key → view (applyRemoval run removal) key = view run key) := by
  obtain ⟨before, ⟨old, same⟩ | ⟨strikes, same⟩⟩ := applyRemoval_cases clean
  · rw [same]
    refine ⟨before, ?_, fun _ => rfl⟩
    rintro rfl
    refine .passed ?_
    rw [view_existing]
    exact old
  · rw [same]
    refine ⟨before, ?_, ?_⟩
    · rintro rfl
      have stepped := KeyStep.removed (s := view run (Removal.key removal)) strikes.recent
        strikes.announced (view_existing run _ ▸ strikes.newest)
      refine Eq.subst ?_ stepped
      simp [view, Run.strike, Hash.value]
    · intro other
      have apart : key ≠ Removal.key removal := Ne.symm other
      simp [view, Run.strike, apart]

private theorem foldl_follows {α : Type} {round : Run → α → Run} (key : Key) (of : α → Key) (event : α → Event)
    (rounds : List α) (stepped : ∀ run a, a ∈ rounds → (round run a).error = "" → run.error = "" ∧
      (of a = key → KeyStep (view run key) (event a) (view (round run a) key)) ∧
      (of a ≠ key → view (round run a) key = view run key))
    (run : Run) (clean : (rounds.foldl round run).error = "") : run.error = "" ∧
      Follows KeyStep (view run key) (rounds.filterMap fun a => if of a = key then some (event a) else none)
        (view (rounds.foldl round run) key) := by
  induction rounds generalizing run with
  | nil => exact ⟨clean, .nil _⟩
  | cons a rest ih =>
    obtain ⟨between, follows⟩ :=
      ih (fun run b member => stepped run b (.tail _ member)) (round run a) clean
    obtain ⟨before, concerns, spares⟩ := stepped run a (.head _) between
    refine ⟨before, ?_⟩
    rw [List.foldl_cons, List.filterMap_cons]
    by_cases here : of a = key
    · rw [if_pos here]
      exact .cons (concerns here) follows
    · rw [if_neg here]
      rwa [spares here] at follows

theorem removals_follow (key : Key) (removals : List Removal) (run : Run)
    (clean : (removals.foldl applyRemoval run).error = "") :
    run.error = "" ∧ Follows KeyStep (view run key) (removals.filterMap (removalEvent key))
      (view (removals.foldl applyRemoval run) key) :=
  foldl_follows key Removal.key (.remove ·.stamp) removals (fun _ _ _ => applyRemoval_step key) run clean

theorem updates_follow (key : Key) (updates : List Update)
    (plain : ∀ u ∈ updates, canonical u.key = u.key) (run : Run)
    (clean : (updates.foldl applyUpdate run).error = "") :
    run.error = "" ∧ Follows KeyStep (view run key) (updates.filterMap (updateEvent key))
      (view (updates.foldl applyUpdate run) key) :=
  foldl_follows key Update.key .update updates (fun _ u member => applyUpdate_step key (plain u member)) run clean

/-- What a batch has gathered when it comes to its removals. -/
def beforeRemovals (iteration : Iteration) (store : Store) (batch : EntityBatch) : Run :=
  batch.updates.foldl applyUpdate
    (invalidations iteration (Run.start store) batch.invalidations)

theorem gather_eq (iteration : Iteration) (store : Store) (batch : EntityBatch) :
    gather iteration store batch =
      batch.removals.foldl applyRemoval (beforeRemovals iteration store batch) := by
  simp only [gather, beforeRemovals, EntityBatch.updates, List.foldl_append]

theorem gather_follows (clean : (gather iteration store batch).error = "") :
    Follows KeyStep (storeView store key) (events key batch)
      (view (gather iteration store batch) key) := by
  rw [gather_eq] at clean ⊢
  obtain ⟨updated, removals⟩ := removals_follow key batch.removals _ clean
  obtain ⟨invalidated, updates⟩ :=
    updates_follow key batch.updates (fun _ => update_key_plain) _ updated
  obtain ⟨_, resets⟩ := invalidations_follow key rfl batch.invalidations invalidated
  exact resets.append (updates.append removals)

/-! ## The end of a batch -/

private theorem foldl_pruneChanged (keys : List Key) (run : Run) :
    ∃ changed, keys.foldl pruneChanged run = { run with changed := changed } := by
  induction keys generalizing run with
  | nil => exact ⟨_, rfl⟩
  | cons first rest ih =>
    rw [List.foldl_cons]
    unfold pruneChanged
    split
    · obtain ⟨changed, same⟩ := ih { run with changed := _ }
      exact ⟨changed, same⟩
    · exact ih run

private theorem foldl_dropEntry (iteration : Iteration) (statuses : Hash Key Status) (keys : List Key) (store : Store) :
    ∃ absent entries, keys.foldl (dropEntry iteration statuses) store =
      { store with absent := absent, entries := entries } ∧
      ∀ key, entries.lookup key = if key ∈ keys then none else store.entries.lookup key := by
  induction keys generalizing store with
  | nil => exact ⟨_, _, rfl, by simp⟩
  | cons first rest ih =>
    obtain ⟨absent, entries, same, lookups⟩ := ih (dropEntry iteration statuses store first)
    refine ⟨absent, entries, same, fun key => ?_⟩
    rw [lookups]
    simp only [dropEntry, rememberAbsence, Hash.lookup_erase, List.mem_cons]
    by_cases inRest : key ∈ rest
    · simp [inRest]
    · simp [inRest]

private theorem foldl_adopt (staged : Hash Key Entry) (keys : List Key) (store : Store) :
    ∃ clock absent entries, keys.foldl (adopt staged) store =
      { store with clock := clock, absent := absent, entries := entries } ∧
      ∀ key, (key ∉ keys → entries.lookup key = store.entries.lookup key) ∧
        ∀ entry, key ∈ keys → staged.lookup key = some entry →
          ∃ touched, entries.lookup key = some { entry with touched := touched } := by
  induction keys generalizing store with
  | nil => exact ⟨_, _, _, rfl, by simp⟩
  | cons first rest ih =>
    rw [List.foldl_cons]
    cases found : staged.lookup first with
    | none =>
      obtain ⟨clock, absent, entries, same, lookups⟩ := ih store
      refine ⟨clock, absent, entries, by rw [adopt, found]; exact same, fun key => ⟨?_, ?_⟩⟩
      · exact fun outside => (lookups key).1 fun inRest => outside (.tail _ inRest)
      · intro entry member named
        refine (lookups key).2 entry ?_ named
        exact (List.mem_cons.mp member).resolve_left fun same =>
          absurd (found.symm.trans (same ▸ named)) (by simp)
    | some adopted =>
      obtain ⟨clock, absent, entries, same, lookups⟩ := ih (adopt staged store first)
      have stored : (adopt staged store first).entries =
          store.entries.insert first { adopted with touched := store.clock + 1 } := by
        rw [adopt, found]
      rw [stored] at lookups
      refine ⟨clock, absent, entries, ?_, fun key => ⟨?_, ?_⟩⟩
      · rw [same, adopt, found]
      · intro outside
        obtain ⟨apart, notRest⟩ := not_or.mp (mt List.mem_cons.mpr outside)
        rw [(lookups key).1 notRest, Hash.lookup_insert, if_neg apart]
      · intro entry member named
        by_cases inRest : key ∈ rest
        · exact (lookups key).2 entry inRest named
        · have first := (List.mem_cons.mp member).resolve_right inRest
          subst first
          cases found.symm.trans named
          exact ⟨_, by rw [(lookups key).1 inRest, Hash.lookup_insert, if_pos rfl]⟩

/-- When the tombstones are too many, those that go are not above the floor. -/
private theorem trimTombstones_shape (store : Store) :
    ∃ floor tombstones, trimTombstones store =
      { store with floor := floor, tombstones := tombstones } ∧ store.floor ≤ floor ∧
      ∀ key, tombstones.lookup key = store.tombstones.lookup key ∨
        ∃ revision, store.tombstones.lookup key = some revision ∧ revision ≤ floor ∧
          tombstones.lookup key = none := by
  unfold trimTombstones
  split
  · refine ⟨_, _, rfl, Nat.le_max_left _ _, fun key => ?_⟩
    rw [Hash.lookup_filter]
    cases found : store.tombstones.lookup key with
    | none => exact .inl rfl
    | some revision =>
      rw [Option.filter_some]
      split
      · exact .inl rfl
      · rename_i old
        exact .inr ⟨revision, rfl, by simpa only [decide_eq_true_eq, Nat.not_lt] using old, rfl⟩
  · exact ⟨_, _, rfl, le_rfl, fun _ => .inl rfl⟩

private theorem commit_committed (instanceName : String) (run : Run) (key : Key) :
    Committed (view run key) (storeView (commit iteration instanceName run) key) := by
  unfold commit
  dsimp only
  generalize (if Hash.same run.store.epochs run.epochs then run.store.scopeRevision
    else run.store.scopeRevision + 1) = scopeRevision
  obtain ⟨absent, kept, dropped, keptLookups⟩ := foldl_dropEntry iteration
    run.statuses (iteration.order run.removed)
    { run.store with
      instanceName := instanceName
      scopeRevision := scopeRevision
      epochs := run.epochs
      tombstones := run.tombstones }
  rw [dropped]
  obtain ⟨floor, tombstones, trimmed, raised, tombs⟩ := trimTombstones_shape
    { run.store with
      instanceName := instanceName
      scopeRevision := scopeRevision
      epochs := run.epochs
      tombstones := run.tombstones
      absent := absent
      entries := kept }
  rw [trimmed]
  obtain ⟨clock, absent', entries, adopted, lookups⟩ := foldl_adopt run.staged
    (iteration.order run.staged.keys)
    { run.store with
      instanceName := instanceName
      scopeRevision := scopeRevision
      epochs := run.epochs
      tombstones := tombstones
      floor := floor
      absent := absent
      entries := kept }
  rw [adopted]
  have staged : key ∈ iteration.order run.staged.keys ↔ (run.staged.lookup key).isSome := by
    rw [(iteration.perm _).mem_iff, AList.lookup_isSome, AList.mem_keys]
  have gone : key ∈ iteration.order run.removed ↔ key ∈ run.removed := (iteration.perm _).mem_iff
  refine ⟨rfl, raised, ?_, ?_, tombs key⟩
  · change ∃ clock, entries.lookup key = _
    cases found : run.staged.lookup key with
    | some entry =>
      obtain ⟨touched, stored⟩ := (lookups key).2 entry (staged.mpr (by rw [found]; rfl)) found
      exact ⟨touched, by simp [view, found, stored]⟩
    | none =>
      rw [(lookups key).1 (fun member => by simp [staged, found] at member), keptLookups]
      simp only [gone, view, found, Option.none_or]
      split
      · exact ⟨0, rfl⟩
      · cases stored : run.store.entries.lookup key with
        | none => exact ⟨0, rfl⟩
        | some entry => exact ⟨entry.touched, rfl⟩
  · simp [storeView, view, Run.start]

section

variable (accepted : (apply iteration store batch).1.error = "")
include accepted

theorem apply_accepted : (gather iteration store batch).error = "" ∧ ∃ changed : Hash Key Fields,
      changed = ((iteration.order (gather iteration store batch).staged.keys).foldl pruneChanged
        (gather iteration store batch)).changed ∧
      (apply iteration store batch).2 = commit iteration batch.instanceName
        { gather iteration store batch with changed := changed } ∧
      (apply iteration store batch).1.changes = report iteration
        { gather iteration store batch with changed := changed } (apply iteration store batch).2 := by
  obtain ⟨changed, same⟩ := foldl_pruneChanged
    (iteration.order (gather iteration store batch).staged.keys) (gather iteration store batch)
  rw [same]
  unfold apply at accepted ⊢
  split at accepted
  · exact absurd accepted (by simp)
  split at accepted
  · exact absurd accepted (by simp)
  split at accepted
  · exact absurd accepted (by simp)
  dsimp only at accepted ⊢
  split at accepted
  · rename_i loud
    exact absurd accepted loud
  · rename_i protocol known budget clean
    rw [if_neg protocol, if_neg known, if_neg budget, if_neg clean, same]
    exact ⟨not_not.mp clean, _, rfl, rfl, rfl⟩

theorem apply_committed (key : Key) :
    (gather iteration store batch).error = "" ∧ Committed (view (gather iteration store batch) key)
      (storeView (apply iteration store batch).2 key) := by
  obtain ⟨clean, changed, _, same, _⟩ := apply_accepted accepted
  rw [same]
  exact ⟨clean, commit_committed batch.instanceName
    { gather iteration store batch with changed := changed } key⟩

theorem apply_follows (key : Key) : ∃ s, Follows KeyStep (storeView store key) (events key batch) s ∧
      Committed s (storeView (apply iteration store batch).2 key) := by
  obtain ⟨clean, committed⟩ := apply_committed accepted key
  exact ⟨_, gather_follows clean, committed⟩

end

private theorem commit_keeps_tombstones (iteration : Iteration) (instanceName : String) (run : Run) :
    (commit iteration instanceName run).tombstoneCapacity = run.store.tombstoneCapacity ∧
      (commit iteration instanceName run).instanceName = instanceName ∧
      (commit iteration instanceName run).epochs = run.epochs ∧
      (run.tombstones.size ≤ run.store.tombstoneCapacity →
        (commit iteration instanceName run).floor = run.store.floor ∧
          (commit iteration instanceName run).tombstones = run.tombstones) := by
  unfold commit
  dsimp only
  generalize (if Hash.same run.store.epochs run.epochs then run.store.scopeRevision
    else run.store.scopeRevision + 1) = scopeRevision
  obtain ⟨absent, kept, dropped, _⟩ := foldl_dropEntry iteration
    run.statuses (iteration.order run.removed)
    { run.store with
      instanceName := instanceName
      scopeRevision := scopeRevision
      epochs := run.epochs
      tombstones := run.tombstones }
  rw [dropped]
  obtain ⟨clock, absent', entries, adopted, _⟩ := foldl_adopt run.staged
    (iteration.order run.staged.keys) (trimTombstones
    { run.store with
      instanceName := instanceName
      scopeRevision := scopeRevision
      epochs := run.epochs
      tombstones := run.tombstones
      absent := absent
      entries := kept })
  rw [adopted]
  refine ⟨?_, ?_, ?_, fun room => ?_⟩
  · change (trimTombstones _).tombstoneCapacity = _
    unfold trimTombstones
    split <;> rfl
  · change (trimTombstones _).instanceName = _
    unfold trimTombstones
    split <;> rfl
  · change (trimTombstones _).epochs = _
    unfold trimTombstones
    split <;> rfl
  · change (trimTombstones _).floor = _ ∧ (trimTombstones _).tombstones = _
    unfold trimTombstones
    rw [if_neg (Nat.not_lt.mpr room)]
    exact ⟨rfl, rfl⟩

section

variable (accepted : (apply iteration store batch).1.error = "")
include accepted

theorem apply_keeps_tombstones
    (room : (gather iteration store batch).tombstones.size ≤ store.tombstoneCapacity) :
    (apply iteration store batch).2.floor = store.floor ∧
      (apply iteration store batch).2.tombstones = (gather iteration store batch).tombstones := by
  obtain ⟨_, changed, _, same, _⟩ := apply_accepted accepted
  have kept := (commit_keeps_tombstones iteration batch.instanceName
    { gather iteration store batch with changed := changed }).2.2.2
  rw [same]
  rw [gather_store] at kept
  exact kept room

theorem apply_names : (apply iteration store batch).2.instanceName = batch.instanceName ∧
      (apply iteration store batch).2.epochs = (gather iteration store batch).epochs := by
  obtain ⟨_, changed, _, same, _⟩ := apply_accepted accepted
  have kept := commit_keeps_tombstones iteration batch.instanceName
    { gather iteration store batch with changed := changed }
  rw [same]
  exact ⟨kept.2.1, kept.2.2.1⟩

theorem apply_capacity : (apply iteration store batch).2.tombstoneCapacity = store.tombstoneCapacity := by
  obtain ⟨_, changed, _, same, _⟩ := apply_accepted accepted
  have kept := (commit_keeps_tombstones iteration batch.instanceName
    { gather iteration store batch with changed := changed }).1
  rw [same]
  rwa [gather_store] at kept

end

end Qcm.EntityKey
