import Qcm.EntityOrigins
import Qcm.EntityRuns

/-!
An entry has one owner.

`prepare` compares the owner of an update with that of the entry only where it
takes the entry from the store.  An entry that the batch itself staged, be it new
or stored before, takes the updates of any owner, and so the fields of an entry
come from its owner while no batch brings updates of a key under two owners that
`prepare` lets through.
-/

namespace Qcm.EntityOwnerProofs

open Lib Lib.Runs EntityStore EntityApplyProofs EntityKey EntityMergeProofs
open EntityConvergenceProofs EntityPhases EntityOrigins EntityRuns

variable {iteration : Iteration} {store : Store} {batch : EntityBatch} {key : Key} {sizes : Sizes}
  {history : List EntityBatch}

/-- An update that neither the floor, the epoch of its owner nor a tombstone
makes `prepare` pass over. -/
structure Considered (store : Store) (batch : EntityBatch) (u : Update) : Prop where
  recent : store.floor ≤ u.stamp.revision
  epoch : announced store batch.invalidations u.stamp.owner ≤ u.stamp.epoch
  alive : ∀ revision, store.tombstones.lookup u.key = some revision → revision < u.stamp.revision

/-- The key is stored, no announcement of the batch outdates its entry, and the
first of its updates that is considered is under another owner. -/
def Clashes (store : Store) (batch : EntityBatch) (key : Key) : Prop :=
  ∃ entry before u after, store.entries.lookup key = some entry ∧
    (∀ reset ∈ batch.invalidations, reset.owner = entry.owner → reset.epoch ≤ entry.epoch) ∧
    batch.updates = before ++ u :: after ∧ u.key = key ∧ Considered store batch u ∧
    (∀ v ∈ before, v.key = key → ¬ Considered store batch v) ∧ u.stamp.owner ≠ entry.owner

/-- Each key is updated under one owner, unless the first update clashes with
the stored entry. -/
def Separate (store : Store) (batch : EntityBatch) : Prop :=
  ∀ u ∈ batch.updates, ∀ v ∈ batch.updates, u.key = v.key → u.stamp.owner ≠ v.stamp.owner →
    Clashes store batch u.key

/-- The values that updates of a key brought under an owner and epoch. -/
def BroughtBy (history : List EntityBatch) (key : Key) (owner : Int) (epoch : Nat) : Source :=
  fun slot seen value null => ∃ u a, UpdateOf history key u ∧ .assign a ∈ u.steps ∧
    u.stamp.owner = owner ∧ u.stamp.epoch = epoch ∧ u.stamp.revision = seen ∧
    a.slot = slot ∧ a.incoming = value ∧ a.isNull = null

/-- Every entry is of the current epoch of its owner, and so is every update that
a field of it comes from. -/
def Owned (history : List EntityBatch) (store : Store) : Prop :=
  ∀ key entry, store.entries.lookup key = some entry →
    entry.epoch = Hash.value store.epochs entry.owner 0 ∧
      Filled (BroughtBy history key entry.owner entry.epoch) key entry

variable {run : EntityStore.Run}

private theorem foldl_clean {updates : List Update} (plain : ∀ u ∈ updates, canonical u.key = u.key)
    (clean : (updates.foldl applyUpdate run).error = "") : run.error = "" :=
  (updates_follow ⟨0, 0⟩ updates plain run clean).1

private theorem skipped {updates : List Update} {run : EntityStore.Run}
    (left : Announced store batch.invalidations run)
    (plain : ∀ u ∈ updates, canonical u.key = u.key)
    (skips : ∀ u ∈ updates, u.key = key → ¬ Considered store batch u)
    (clean : (updates.foldl applyUpdate run).error = "") :
    (updates.foldl applyUpdate run).staged.lookup key = none ∧
      view (updates.foldl applyUpdate run) key = view run key := by
  refine (foldl_keeps (fun after => after.staged.lookup key = none ∧ view after key = view run key)
    updates (fun after u member ran => ?_) run clean).2 ⟨by rw [left.staged]; rfl, rfl⟩
  obtain ⟨before, ⟨_, same⟩ | merged⟩ := applyUpdate_cases (plain u member) ran
  · exact ⟨before, fun held => same.symm ▸ held⟩
  · refine ⟨before, fun held => ?_⟩
    by_cases here : u.key = key
    · subst here
      have taken := merged.taken
      rw [held.2] at taken
      refine absurd ⟨?_, ?_, fun revision found => ?_⟩ (skips u member rfl)
      · simpa [view, left.members] using taken.recent
      · rw [taken.announced]
        exact Nat.le_of_eq (left.epochs _).symm
      · exact taken.alive revision (by simpa [view, left.tombstones] using found)
    · have apart : key ≠ u.key := Ne.symm here
      refine ⟨by rw [merged.staged, Hash.lookup_insert, if_neg apart]; exact held.1, ?_⟩
      rw [← held.2]
      simp [view, merged.epochs, merged.tombstones, merged.staged, merged.removed, apart,
        List.mem_erase_of_ne apart]

/-- A batch whose first considered update of a key clashes with the stored entry
is refused. -/
theorem clash_refused (consistent : EpochsAgree store) (clashes : Clashes store batch key) :
    (apply iteration store batch).1.error ≠ "" := by
  intro accepted
  obtain ⟨entry, before, u, after, found, stays, split, rfl, considered, skips, apart⟩ := clashes
  have clean := (apply_committed accepted u.key).1
  rw [gather_eq] at clean
  have updated := (removals_follow u.key batch.removals _ clean).1
  have plain : ∀ v ∈ batch.updates, canonical v.key = v.key := fun v => update_key_plain
  rw [beforeRemovals, split, List.foldl_append, List.foldl_cons] at updated
  rw [split] at plain
  have met := foldl_clean (fun v member => plain v (by simp [member])) updated
  have first := (applyUpdate_cases (plain u (by simp)) met).1
  have early : ∀ v ∈ before, canonical v.key = v.key := fun v member => plain v (by simp [member])
  have left := invalidations_announced consistent batch.invalidations (foldl_clean early first)
  obtain ⟨unstaged, same⟩ := skipped left early skips first
  have kept : u.key ∉ (invalidations iteration (Run.start store) batch.invalidations).removed := by
    rw [left.removed]
    rintro ⟨other, held, reset, member, owner, beyond⟩
    cases found.symm.trans held
    exact absurd (stays reset member owner) (Nat.not_le.mpr beyond)
  have current : (view (invalidations iteration (Run.start store) batch.invalidations) u.key).current =
      some entry := by rw [(left.view u.key).2, if_neg kept, found]
  obtain ⟨_, ⟨old, _⟩ | merged⟩ := applyUpdate_cases (plain u (by simp)) met
  · rw [same] at old
    obtain low | beyond | ⟨revision, dead, covers⟩ := old
    · change u.stamp.revision < (invalidations iteration (Run.start store) _).store.floor at low
      rw [left.members] at low
      exact absurd considered.recent (Nat.not_le.mpr low)
    · exact absurd considered.epoch (Nat.not_le.mpr (left.epochs u.stamp.owner ▸ beyond))
    · exact absurd (considered.alive revision (by simpa [view, left.tombstones] using dead))
        (Nat.not_lt.mpr covers)
  · exact apart (merged.owner unstaged entry (same.symm ▸ current)).symm

theorem accepted_owner (consistent : EpochsAgree store) (separate : Separate store batch)
    (accepted : (apply iteration store batch).1.error = "") {u v : Update}
    (first : u ∈ batch.updates) (second : v ∈ batch.updates) (same : u.key = v.key) :
    u.stamp.owner = v.stamp.owner := by
  by_contra apart
  exact clash_refused consistent (separate u first v second same apart) accepted

/-! ## Batches that are applied -/

private theorem brought_mono {owner : Int} {epoch : Nat} {slot : Field} {seen : Nat} {value : Value}
    {null : Bool} (batch : EntityBatch) (brought : BroughtBy history key owner epoch slot seen value null) :
    BroughtBy (history ++ [batch]) key owner epoch slot seen value null := by
  obtain ⟨u, a, ⟨old, held, member, here⟩, rest⟩ := brought
  exact ⟨u, a, ⟨old, List.mem_append_left _ held, member, here⟩, rest⟩

/-- What is known of a batch in progress. -/
private def Gathered (history : List EntityBatch) (batch : EntityBatch) (run : EntityStore.Run) : Prop :=
  ∀ key entry, (view run key).current = some entry →
    entry.epoch = Hash.value run.epochs entry.owner 0 ∧
      Filled (BroughtBy (history ++ [batch]) key entry.owner entry.epoch) key entry ∧
      (run.staged.lookup key ≠ none → ∃ u ∈ batch.updates, u.key = key ∧ u.stamp.owner = entry.owner)

private theorem update_gathered {u : Update}
    (alone : ∀ u ∈ batch.updates, ∀ v ∈ batch.updates, u.key = v.key → u.stamp.owner = v.stamp.owner)
    (member : u ∈ batch.updates) (ran : (applyUpdate run u).error = "") (held : Gathered history batch run) :
    Gathered history batch (applyUpdate run u) := by
  obtain ⟨_, ⟨_, same⟩ | merged⟩ := applyUpdate_cases (update_key_plain member) ran
  · rwa [same]
  intro key entry found
  rw [merged_current merged] at found
  rw [merged.epochs]
  split at found
  · rename_i here
    subst here
    cases found
    -- the entry it is merged into is of its owner, by the check or since the batch staged it
    have owner : ∀ entry, (view run u.key).current = some entry → entry.owner = u.stamp.owner := by
      intro entry current
      obtain ⟨_, _, staged⟩ := held u.key entry current
      cases stage : run.staged.lookup u.key with
      | none => exact merged.owner stage entry current
      | some _ =>
        obtain ⟨v, other, same, owner⟩ := staged (by simp [stage])
        exact owner.symm.trans (alone v other u member same)
    have epoch : ∀ entry, (view run u.key).current = some entry → entry.epoch = u.stamp.epoch := by
      intro entry current
      rw [(held u.key entry current).1, owner entry current]
      exact merged.taken.announced.symm
    obtain ⟨filled, owner', epoch'⟩ := filled_merge
      (BroughtBy (history ++ [batch]) u.key u.stamp.owner u.stamp.epoch) member merged.clean
      (fun entry current => by
        have filled := (held u.key entry current).2.1
        rwa [owner entry current, epoch entry current] at filled)
      (fun a assigned => ⟨u, a, ⟨batch, by simp, member, rfl⟩, assigned, rfl, rfl, rfl, rfl, rfl, rfl⟩)
    have owned : (merge u (view run u.key).current).entry.owner = u.stamp.owner ∧
        (merge u (view run u.key).current).entry.epoch = u.stamp.epoch := by
      rw [owner', epoch']
      cases current : (view run u.key).current with
      | none => exact ⟨rfl, rfl⟩
      | some entry => exact ⟨owner entry current, epoch entry current⟩
    rw [owned.1, owned.2]
    exact ⟨merged.taken.announced, filled, fun _ => ⟨u, member, rfl, rfl⟩⟩
  · rename_i apart
    obtain ⟨epoch, filled, staged⟩ := held key entry found
    refine ⟨epoch, filled, fun stage => staged ?_⟩
    rwa [merged.staged, Hash.lookup_insert, if_neg apart] at stage

private theorem removal_gathered {removal : Removal} (ran : (applyRemoval run removal).error = "")
    (held : Gathered history batch run) : Gathered history batch (applyRemoval run removal) := by
  obtain ⟨_, ⟨_, same⟩ | ⟨_, same⟩⟩ := applyRemoval_cases ran
  · rwa [same]
  rw [same]
  intro key entry found
  rw [strike_current] at found
  split at found
  · cases found
  · rename_i apart
    obtain ⟨epoch, filled, staged⟩ := held key entry found
    refine ⟨epoch, filled, fun stage => staged ?_⟩
    rwa [Run.strike, Hash.lookup_erase, if_neg apart] at stage

theorem apply_owned (held : Owned history store) (separate : Separate store batch)
    (accepted : (apply iteration store batch).1.error = "") :
    Owned (history ++ [batch]) (apply iteration store batch).2 := by
  have consistent : EpochsAgree store := fun key entry found => (held key entry found).1
  have gathered : Gathered history batch (gather iteration store batch) := by
    refine gather_induction _ consistent (apply_committed accepted ⟨0, 0⟩).1 ?_ ?_ ?_
    · intro run left key entry found
      rw [(left.view key).2] at found
      split at found
      · cases found
      · rename_i stays
        rw [left.epochs]
        exact ⟨left.epoch consistent found stays,
          (held key entry found).2.mono fun _ _ _ _ => brought_mono batch,
          fun stage => absurd (by rw [left.staged]; rfl) stage⟩
    · exact fun run u _ member ran => update_gathered
        (fun u first v second => accepted_owner consistent separate accepted first second) member ran
    · exact fun run removal _ _ ran => removal_gathered ran
  intro key entry found
  obtain ⟨_, committed⟩ := apply_committed accepted key
  obtain ⟨clock, stored⟩ := committed.stored
  have same : (apply iteration store batch).2.entries.lookup key = _ := stored
  rw [same] at found
  obtain ⟨old, current, rfl⟩ := Option.map_eq_some_iff.mp found
  obtain ⟨epoch, filled, _⟩ := gathered key old current
  exact ⟨epoch.trans (congrFun committed.epochs old.owner).symm, filled.touch clock⟩

theorem thinned_owned {before after : Store} (held : Owned history before)
    (thinned : Thinned before after) : Owned history after := by
  intro key entry found
  have consistent := thinned.epochs_agree fun key entry found => (held key entry found).1
  obtain ⟨old, stored, stale, rfl⟩ := thinned.entries key entry found
  exact ⟨consistent key _ found, (held key old stored).2.age stale⟩

/-- While the batches keep the owners of a key apart, every entry is of the
current epoch of its owner and every field of it comes from an update under that
owner and epoch, and a batch with updates of a key under two owners is refused. -/
theorem fields_come_from_owner {trace : List (Store × Call)} (run : Run sizes trace store)
    (separate : ∀ entry ∈ trace, ∀ batch, entry.2.op = .apply batch → Separate entry.1 batch) :
    Owned (applied trace) store ∧
      ∀ iteration batch, Separate store batch →
        (∃ u ∈ batch.updates, ∃ v ∈ batch.updates, u.key = v.key ∧ u.stamp.owner ≠ v.stamp.owner) →
        (apply iteration store batch).1.error ≠ "" := by
  refine ⟨?_, fun iteration batch apart => ?_⟩
  · exact run_induction run Separate separate Owned (fun _ _ found => by cases found)
      (fun _ _ _ held thinned => thinned_owned held thinned)
      (fun _ _ _ _ held met clean => apply_owned held met clean)
  · rintro ⟨u, first, v, second, same, owners⟩
    exact clash_refused (epochs_agree run) (apart u first v second same owners)

/-- The name of song 1 under owner 0, and its duration under owner 1. -/
def twoOwners : EntityBatch :=
  { protocol := 2, instanceName := "backend"
    songs := [⟨1, ⟨0, 0, 1⟩, { name := some "song" }, none, none, none⟩,
      ⟨1, ⟨1, 0, 2⟩, { duration := some 180 }, none, none, none⟩] }

/-- The batch is applied, and the entry of owner 0 has a duration that came from
an update under owner 1. -/
theorem second_owner_merged :
    Run wide [(Store.initial, ⟨inOrder, .apply twoOwners⟩)] (apply inOrder Store.initial twoOwners).2 ∧
      (∃ u ∈ twoOwners.updates, ∃ v ∈ twoOwners.updates,
        u.key = v.key ∧ u.stamp.owner ≠ v.stamp.owner) ∧
      (apply inOrder Store.initial twoOwners).1.error = "" ∧
      ¬ Owned (applied [(Store.initial, ⟨inOrder, .apply twoOwners⟩)])
        (apply inOrder Store.initial twoOwners).2 := by
  have accepted : (apply inOrder Store.initial twoOwners).1.error = "" := by decide
  refine ⟨.snoc (.done _) rfl, ⟨_, .head _, _, .tail _ (.head _),
    rfl, by decide⟩, accepted, fun owned => ?_⟩
  have history : applied [(Store.initial, ⟨inOrder, .apply twoOwners⟩)] = [twoOwners] := by
    simp [applied, Call.accepted, accepted]
  have facts : ((apply inOrder Store.initial twoOwners).2.entries.lookup ⟨Song, 1⟩).map
      (fun entry => (entry.owner, entry.versions .duration)) = some (0, some 2) := by decide
  obtain ⟨entry, found, same⟩ := Option.map_eq_some_iff.mp facts
  obtain ⟨owner, version⟩ := Prod.mk.inj same
  obtain ⟨u, a, source, assigned, under, _, _, slot, _⟩ :=
    (owned _ entry found).2.set .duration (by decide) 2 version
  rw [history] at source
  obtain ⟨_, held, member, _⟩ := source
  obtain rfl := List.mem_singleton.mp held
  obtain first | second := List.mem_cons.mp member
  · subst first
    obtain rfl : a = ⟨.name, .text "song", false, rfl⟩ := by
      simpa [SongUpdate.update, SongFields.metadata, scalar, nullable, stateSteps, artistSteps,
        albumSteps] using assigned
    cases slot
  · obtain rfl := List.mem_singleton.mp second
    rw [owner] at under
    exact absurd under (by decide)

theorem one_owner_kept :
    Owned (applied [(Store.initial, ⟨inOrder, .apply named⟩)]) (apply inOrder Store.initial named).2 ∧
      ∀ iteration batch, Separate (apply inOrder Store.initial named).2 batch →
        (∃ u ∈ batch.updates, ∃ v ∈ batch.updates, u.key = v.key ∧ u.stamp.owner ≠ v.stamp.owner) →
        (apply iteration (apply inOrder Store.initial named).2 batch).1.error ≠ "" := by
  have run : Run wide [(Store.initial, ⟨inOrder, .apply named⟩)] (apply inOrder Store.initial named).2 :=
    .snoc (.done _) rfl
  refine fields_come_from_owner run fun entry member batch op => ?_
  obtain rfl := List.mem_singleton.mp member
  cases op
  intro u first v second _ apart
  obtain rfl := List.mem_singleton.mp first
  obtain rfl := List.mem_singleton.mp second
  exact absurd rfl apart

end Qcm.EntityOwnerProofs
