import Qcm.EntityKey

/-!
A key that was removed does not come back with an old update.

The guarantee is `Dead`: a tombstone at least as new as the removal or, once it
is trimmed, a floor at least as new.  Trimming erases the tombstones up to the
floor and `prepare` lets an update at the floor through, so an update stamped
exactly at the floor is the one that can bring a trimmed key back.
-/

namespace Qcm.EntityTombstoneProofs

open Lib Lib.Runs EntityStore EntityApplyProofs EntityKey

variable {iteration : Iteration} {store s t : Store} {batch : EntityBatch} {key : Key}
  {revision : Nat}

/-- A removal deletes its key when its turn comes: it is not older than the
floor, its epoch is the current one, and nothing in the entry is newer. -/
def CarriesOut (run : Run) (removal : Removal) : Prop :=
  run.store.floor ≤ removal.stamp.revision ∧
    removal.stamp.epoch = Hash.value run.epochs removal.stamp.owner 0 ∧
    latest ((run.staged.lookup (Removal.key removal)).or
      (run.store.entries.lookup (Removal.key removal))) ≤ removal.stamp.revision

/-- The batch is accepted, and a removal of the key at the revision is carried out. -/
def Removed (iteration : Iteration) (store : Store) (batch : EntityBatch) (key : Key)
    (revision : Nat) : Prop :=
  (apply iteration store batch).1.error = "" ∧
    ∃ before removal after, batch.removals = before ++ removal :: after ∧
      Removal.key removal = key ∧ removal.stamp.revision = revision ∧
      CarriesOut (before.foldl applyRemoval (beforeRemovals iteration store batch)) removal

/-- The key is guarded against updates up to the revision. -/
def Dead (revision : Nat) (s : KeyState) : Prop :=
  revision ≤ s.floor ∨ ∃ newest, s.tombstone = some newest ∧ revision ≤ newest

private theorem dead_step {s t : KeyState} {event : Event} (stepped : KeyStep s event t)
    (dead : Dead revision s) : Dead revision t := by
  cases stepped with
  | removed recent announced newest =>
    obtain low | ⟨tombstone, found, old⟩ := dead
    · exact .inl low
    · exact .inr ⟨_, rfl, by rw [found, Option.getD_some]; omega⟩
  | _ => exact dead

private theorem dead_follows {s t : KeyState} {labels : List Event}
    (run : Follows KeyStep s labels t) (dead : Dead revision s) : Dead revision t := by
  induction run with
  | nil => exact dead
  | cons stepped _ ih => exact ih (dead_step stepped dead)

private theorem dead_committed {s t : KeyState} (committed : Committed s t)
    (dead : Dead revision s) : Dead revision t := by
  have raised := committed.floor
  obtain low | ⟨newest, found, old⟩ := dead
  · exact .inl (by omega)
  · obtain same | ⟨tombstone, was, reached, _⟩ := committed.tombstone
    · exact .inr ⟨newest, same.trans found, old⟩
    · cases found.symm.trans was
      exact .inl (by omega)

theorem apply_keeps_dead (iteration : Iteration) (batch : EntityBatch)
    (dead : Dead revision (storeView store key)) :
    Dead revision (storeView (apply iteration store batch).2 key) := by
  by_cases accepted : (apply iteration store batch).1.error = ""
  · obtain ⟨between, follows, committed⟩ := apply_follows accepted key
    exact dead_committed committed (dead_follows follows dead)
  · rwa [refused_batch_changes_nothing iteration store batch accepted]

theorem removed_dead (removed : Removed iteration store batch key revision) :
    Dead revision (storeView (apply iteration store batch).2 key) := by
  obtain ⟨accepted, before, removal, after, split, rfl, rfl, recent, announced, newest⟩ := removed
  obtain ⟨clean, committed⟩ := apply_committed accepted (Removal.key removal)
  rw [gather_eq, split, List.foldl_append, List.foldl_cons] at clean committed
  obtain ⟨carried, follows⟩ := removals_follow (Removal.key removal) after _ clean
  have stepped := (applyRemoval_step (Removal.key removal) carried).2.1 rfl
  refine dead_committed committed (dead_follows follows ?_)
  generalize applyRemoval _ removal = next at stepped
  generalize nextView : view next (Removal.key removal) = v at stepped
  cases stepped with
  | passed old =>
    rw [view_existing] at old
    obtain old | old | old := old
    · exact absurd old (Nat.not_lt.mpr recent)
    · exact absurd announced (Nat.ne_of_lt old)
    · exact absurd old (Nat.not_lt.mpr newest)
  | removed => exact .inr ⟨_, rfl, Nat.le_max_right _ _⟩

/-- No update of the key is stamped with the revision while the floor stands
there and the tombstone of the key is gone. -/
def Spares (key : Key) (revision : Nat) (store : Store) (batch : EntityBatch) : Prop :=
  store.floor = revision →
    (∀ newest, store.tombstones.lookup key = some newest → newest < revision) →
    ∀ u ∈ batch.updates, u.key = key → u.stamp.revision ≠ revision

/-- One batch applied, in some order of iteration. -/
def Applies (s : Store) (batch : EntityBatch) (t : Store) : Prop :=
  ∃ iteration, t = (apply iteration s batch).2

/-- A revision that `prepare` turns away, by the floor or by a tombstone. -/
def TurnedAway (revision : Nat) (s : KeyState) : Prop :=
  revision < s.floor ∨ ∃ newest, s.tombstone = some newest ∧ revision ≤ newest

private theorem turnedAway_step {s t : KeyState} {event : Event} (stepped : KeyStep s event t)
    (away : TurnedAway revision s) : TurnedAway revision t := by
  cases stepped with
  | removed recent announced newest =>
    obtain low | ⟨tombstone, found, old⟩ := away
    · exact .inl low
    · exact .inr ⟨_, rfl, by rw [found, Option.getD_some]; omega⟩
  | _ => exact away

private theorem gone_follows {s t : KeyState} {labels : List Event}
    (run : Follows KeyStep s labels t)
    (away : ∀ u, .update u ∈ labels → TurnedAway u.stamp.revision s) (gone : s.current = none) :
    t.current = none := by
  induction run with
  | nil => exact gone
  | @cons s t v event labels stepped rest ih =>
    apply ih
    · intro u member
      exact turnedAway_step stepped (away u (.tail _ member))
    · cases stepped with
      | @merged u taken clean =>
        obtain low | ⟨newest, tombstone, dead⟩ := away u (.head _)
        · exact absurd taken.recent (Nat.not_le.mpr low)
        · exact absurd (taken.alive newest tombstone) (Nat.not_lt.mpr dead)
      | bumped new unstaged => simp [gone]
      | removed => rfl
      | _ => exact gone

/-- Once a removal of a key at a revision was carried out, a batch that only
holds updates of the key up to that revision does not make it present again,
whatever batches came in between, unless one is stamped exactly at the floor. -/
theorem removed_key_stays_absent {first : Iteration} {start : Store} {removing : EntityBatch}
    {trace : List (Store × EntityBatch)} (removed : Removed first start removing key revision)
    (run : Steps Applies (apply first start removing).2 trace s) (spared : Spares key revision s batch)
    (old : ∀ u ∈ batch.updates, u.key = key → u.stamp.revision ≤ revision)
    (absent : key ∉ s.entries) : key ∉ (apply iteration s batch).2.entries := by
  have dead : Dead revision (storeView s key) := by
    refine run.invariant (fun s => Dead revision (storeView s key)) (fun _ _ => True)
      (fun _ _ => trivial) ?_ (removed_dead removed)
    rintro s batch _ dead _ ⟨iteration, rfl⟩
    exact apply_keeps_dead iteration batch dead
  have away : ∀ u, .update u ∈ events key batch →
      TurnedAway u.stamp.revision (storeView s key) := by
    intro u member
    obtain ⟨_, _, absurd⟩ | ⟨_, held, same, named⟩ | ⟨_, _, _, absurd⟩ := mem_events.mp member
    · cases absurd
    case inr.inr => cases absurd
    cases named
    have bound := old u held same
    by_cases kept : ∃ newest, s.tombstones.lookup key = some newest ∧ revision ≤ newest
    · obtain ⟨newest, tombstone, covers⟩ := kept
      exact .inr ⟨newest, tombstone, by omega⟩
    · obtain low | kept' := dead
      · have apart : s.floor = revision → u.stamp.revision ≠ revision := fun level =>
          spared level (fun newest found => by
            by_contra covers
            exact kept ⟨newest, found, by omega⟩) u held same
        change revision ≤ s.floor at low
        refine .inl ?_
        change u.stamp.revision < s.floor
        omega
      · exact absurd kept' kept
  by_cases accepted : (apply iteration s batch).1.error = ""
  · obtain ⟨between, follows, committed⟩ := apply_follows accepted key
    obtain ⟨clock, stored⟩ := committed.stored
    have gone := gone_follows follows away (by
      simp [storeView, view, Run.start, AList.lookup_eq_none.mpr absent])
    rw [gone] at stored
    exact AList.lookup_eq_none.mp stored
  · rwa [refused_batch_changes_nothing iteration s batch accepted]

/-- A store that keeps one tombstone. -/
def oneTombstone : Store := setTombstoneCapacity Store.initial 1

/-- Song 1 is removed at revision 5 and song 2 at 6, which trims the tombstone
of song 1 and raises the floor to 5. -/
def removals : EntityBatch :=
  { protocol := 2, instanceName := "backend"
    removals := [⟨1, Song, ⟨0, 0, 5⟩⟩, ⟨2, Song, ⟨0, 0, 6⟩⟩] }

/-- An update of song 1 at the given revision. -/
def songOne (revision : Nat) : EntityBatch :=
  { protocol := 2, instanceName := "backend"
    songs := [⟨1, ⟨0, 0, revision⟩, { name := some "song" }, none, none, none⟩] }

private theorem song_one_removed : Removed inOrder oneTombstone removals ⟨Song, 1⟩ 5 :=
  ⟨by decide, [], ⟨1, Song, ⟨0, 0, 5⟩⟩, _, rfl, rfl, rfl, by decide, by decide, by decide⟩

/-- The update at revision 5 is let through by the floor of 5, and no tombstone
is left to reject it. -/
theorem update_at_floor_resurrects :
    Removed inOrder oneTombstone removals ⟨Song, 1⟩ 5 ∧
      (find (apply inOrder oneTombstone removals).2 ⟨Song, 1⟩).isNone ∧
      (find (apply inOrder (apply inOrder oneTombstone removals).2 (songOne 5)).2
        ⟨Song, 1⟩).isSome :=
  ⟨song_one_removed, by decide, by decide⟩

theorem older_update_stays_out :
    ⟨Song, 1⟩ ∉ (apply inOrder (apply inOrder oneTombstone removals).2 (songOne 4)).2.entries :=
  removed_key_stays_absent song_one_removed (.done _)
    (fun _ _ u member _ => by
      obtain rfl : u = (songOne 4).songs[0].update := by simpa [songOne, EntityBatch.updates] using member
      decide)
    (fun u member _ => by
      obtain rfl : u = (songOne 4).songs[0].update := by simpa [songOne, EntityBatch.updates] using member
      decide)
    (by decide)

end Qcm.EntityTombstoneProofs
