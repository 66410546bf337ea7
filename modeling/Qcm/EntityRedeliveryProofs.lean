import Qcm.EntityRedelivery

/-!
A batch that is delivered twice.

After an accepted batch every update of it is absorbed: its fields are in the
entry, or newer ones, or a tombstone covers it.  So is every removal, but for one
that was passed over because of an entry that the batch itself outdated: that
entry is gone when the batch comes again, and the removal leaves a tombstone
then.  `Overlooked` says which batches have such a removal.
-/

namespace Qcm.EntityRedeliveryProofs

open Lib Lib.Runs EntityStore EntityApplyProofs EntityKey EntityMergeProofs
open EntityPhases EntityOrigins EntityPropagation EntityRedelivery EntityRuns
open EntityOwnerProofs EntityConvergenceProofs

variable {iteration : Iteration} {store : Store} {batch : EntityBatch} {run : EntityStore.Run}
  {key : Key} {entry : Entry} {u : Update} {removal : Removal} {v : KeyState}

/-- The batch updates each key under one owner. -/
def Alone (batch : EntityBatch) : Prop :=
  ∀ u ∈ batch.updates, ∀ w ∈ batch.updates, u.key = w.key → u.stamp.owner = w.stamp.owner

/-! ## Updates are absorbed -/

variable {current : Option Entry} {revision : Nat}

theorem le_latest {slot : Field} {seen : Nat} (version : entry.versions slot = some seen) :
    seen ≤ latest (some entry) := by
  have bound := Finset.le_sup (f := fun slot => (entry.versions slot).getD 0) (Finset.mem_univ slot)
  simpa [latest, version] using bound

theorem holds_newer (holds : HoldsAll u entry) : u.stamp.revision ≤ latest (some entry) := by
  obtain ⟨seen, version, newer⟩ := holds.presence
  exact newer.trans (le_latest version)

section

variable (member : u ∈ batch.updates) (clean : (merge u current).error = "")
include member clean

theorem merged_presence : (merge u current).entry.versions .presence =
      some (max (((current.getD (freshEntry u)).versions .presence).getD 0) u.stamp.revision) := by
  obtain ⟨_, merged⟩ := steps_merged (update_loud member) clean
  have untouched : ¬ Carries u.steps .presence := fun ⟨a, _, here⟩ => slot_ne_presence a here
  have prior : (prepared u (current.getD (freshEntry u))).versions .presence =
      some (max (((current.getD (freshEntry u)).versions .presence).getD 0) u.stamp.revision) := by
    simp [prepared]
  exact (merged.other .presence untouched).version.trans prior

theorem merged_fresh : (merge u current).entry.stale = false := by
  obtain ⟨_, merged⟩ := steps_merged (update_loud member) clean
  exact merged.frame.stale

theorem merged_quiet (message : String) : .fail message ∉ u.steps := by
  intro failing
  have loud := update_loud member message failing
  obtain ⟨before, after, split⟩ := List.append_of_mem failing
  have step := clean
  rw [merge, split, List.foldl_append, List.foldl_cons] at step
  have rest : Loud after := fun other inside => update_loud member other (by
    rw [split]
    exact List.mem_append_right _ (.tail _ inside))
  have between := (steps_merged rest step).1
  change (Edit.fail _ message).error = "" at between
  unfold Edit.fail at between
  split at between
  · exact loud between
  · contradiction

theorem merged_holds (owner : (current.getD (freshEntry u)).owner = u.stamp.owner) :
    HoldsAll u (merge u current).entry := by
  obtain ⟨_, merged⟩ := steps_merged (update_loud member) clean
  refine ⟨(merge_owner member clean).1.trans owner, merged_fresh member clean,
    ⟨_, merged_presence member clean, Nat.le_max_right _ _⟩, fun a carried => ?_,
    merged_quiet member clean⟩
  by_cases older : ∀ seen, (prepared u (current.getD (freshEntry u))).versions a.slot = some seen →
      seen ≤ u.stamp.revision
  · obtain ⟨version, content, null⟩ := merged.set a carried older
    exact ⟨_, version, le_rfl, fun _ => ⟨content, null⟩⟩
  · push Not at older
    obtain ⟨seen, version, newer⟩ := older
    have same := merged.level a.slot seen version (Nat.le_of_lt newer)
    exact ⟨seen, same.version.trans version, Nat.le_of_lt newer, fun equal => by omega⟩

end

theorem holds_merge {w : Update} (holds : HoldsAll u entry) (member : w ∈ batch.updates)
    (clean : (merge w (some entry)).error = "") :
    HoldsAll u (merge w (some entry)).entry := by
  obtain ⟨_, merged⟩ := steps_merged (update_loud member) clean
  obtain ⟨seen, version, newer⟩ := holds.presence
  refine ⟨(merge_owner member clean).1.trans holds.owner, merged_fresh member clean,
    ⟨_, merged_presence member clean, ?_⟩, fun a carried => ?_, holds.quiet⟩
  · rw [Option.getD_some, version, Option.getD_some]
    exact newer.trans (Nat.le_max_left _ _)
  · obtain ⟨seen, version, newer, kept⟩ := holds.fields a carried
    have prior : (prepared w ((some entry).getD (freshEntry w))).versions a.slot = some seen :=
      (prepared_versions w entry (slot_ne_presence a)).trans version
    by_cases level : w.stamp.revision ≤ seen
    · have same := merged.level a.slot seen prior level
      refine ⟨seen, same.version.trans prior, newer, fun equal => ?_⟩
      obtain ⟨content, null⟩ := kept equal
      exact ⟨same.content.trans ((content_prepared w entry a.slot).trans content), same.null.trans null⟩
    · obtain same | ⟨_, _, _, version, _, _⟩ := merged.field a.slot
      · refine ⟨seen, same.version.trans prior, newer, fun equal => ?_⟩
        obtain ⟨content, null⟩ := kept equal
        exact ⟨same.content.trans ((content_prepared w entry a.slot).trans content), same.null.trans null⟩
      · exact ⟨_, version, by omega, fun equal => by omega⟩

theorem rejects_mono {w : KeyState} (rejects : Rejects v u) (floor : w.floor = v.floor)
    (epochs : w.epochs = v.epochs)
    (tombstone : ∀ dead, v.tombstone = some dead → ∃ later, w.tombstone = some later ∧ dead ≤ later) :
    Rejects w u := by
  obtain low | beyond | ⟨dead, found, covers⟩ := rejects
  · exact .inl (floor ▸ low)
  · exact .inr (.inl (epochs ▸ beyond))
  · obtain ⟨later, held, above⟩ := tombstone dead found
    exact .inr (.inr ⟨later, held, covers.trans above⟩)

/-- The updates met so far are checked and absorbed, and what is staged is of the
owner the batch has for the key. -/
structure Met (store : Store) (batch : EntityBatch) (seen : List Update) (run : EntityStore.Run) : Prop where
  members : run.store = store
  owner : ∀ u ∈ batch.updates, ∀ entry, run.staged.lookup u.key = some entry →
    entry.owner = u.stamp.owner
  checked : ∀ u ∈ seen, Checked (view run u.key) u
  absorbed : ∀ u ∈ seen, Absorbs (view run u.key) u

private theorem view_other (merged : UpdateMerged run u (applyUpdate run u)) (apart : key ≠ u.key) :
    view (applyUpdate run u) key = view run key := by
  simp [view, merged.epochs, merged.tombstones, merged.staged, merged.removed, apart,
    List.mem_erase_of_ne apart]

private theorem view_merged (merged : UpdateMerged run u (applyUpdate run u)) :
    view (applyUpdate run u) u.key = { view run u.key with
      current := some (merge u (view run u.key).current).entry } := by
  simp [view, merged.epochs, merged.tombstones, merged.staged]

private theorem strike_here (run : EntityStore.Run) (removal : Removal) :
    view (Run.strike run removal) (Removal.key removal) =
      { view run (Removal.key removal) with
        current := none
        tombstone := some (max (Hash.value run.tombstones (Removal.key removal) 0)
          removal.stamp.revision) } := by
  simp [view, Run.strike]

private theorem strike_other (run : EntityStore.Run) (apart : key ≠ Removal.key removal) :
    view (Run.strike run removal) key = view run key := by
  simp [view, Run.strike, apart]

private theorem checked_here (clean : (applyUpdate run u).error = "") : Checked (view run u.key) u :=
  ⟨(update_checked clean).1, (update_checked clean).2⟩

private theorem update_met {seen : List Update} (alone : Alone batch) (member : u ∈ batch.updates)
    (clean : (applyUpdate run u).error = "") (met : Met store batch seen run) : Met store batch (seen ++ [u]) (applyUpdate run u) := by
  have here := checked_here clean
  obtain ⟨_, ⟨rejects, same⟩ | merged⟩ := applyUpdate_cases (update_key_plain member) clean
  · rw [same]
    refine ⟨met.members, met.owner, fun w listed => ?_, fun w listed => ?_⟩
    · obtain earlier | rfl := mem_snoc listed
      · exact met.checked w earlier
      · exact here
    · obtain earlier | rfl := mem_snoc listed
      · exact met.absorbed w earlier
      · exact .inl rejects
  · have held := view_merged merged
    have base : ((view run u.key).current.getD (freshEntry u)).owner = u.stamp.owner := by
      cases staged : run.staged.lookup u.key with
      | some entry =>
        have current : (view run u.key).current = some entry := by simp [view, staged]
        rw [current]
        exact met.owner u member entry staged
      | none =>
        cases current : (view run u.key).current with
        | none => rfl
        | some entry => exact merged.owner staged entry current
    have holds := merged_holds member merged.clean base
    refine ⟨(applyUpdate_store run u).trans met.members, fun w listed entry found => ?_,
      fun w listed => ?_, fun w listed => ?_⟩
    · rw [merged.staged, Hash.lookup_insert] at found
      split at found
      · rename_i same
        cases found
        exact holds.owner.trans (alone u member w listed same.symm)
      · exact met.owner w listed entry found
    · obtain earlier | rfl := mem_snoc listed
      · have kept := met.checked w earlier
        by_cases same : w.key = u.key
        · rw [same, held]
          exact ⟨kept.valid, by rw [same] at kept; exact kept.announced⟩
        · rw [view_other merged same]
          exact kept
      · rw [held]
        exact ⟨here.valid, here.announced⟩
    · obtain earlier | rfl := mem_snoc listed
      · have kept := met.absorbed w earlier
        by_cases same : w.key = u.key
        · rw [same] at kept ⊢
          rw [held]
          obtain rejects | ⟨taken, entry, current, before⟩ := kept
          · exact .inl rejects
          · have clean := merged.clean
            rw [current] at clean ⊢
            exact .inr ⟨⟨taken.recent, taken.announced, taken.alive⟩, _, rfl, holds_merge before member clean⟩
        · rw [view_other merged same]
          exact kept
      · rw [held]
        have taken := merged.taken
        exact .inr ⟨⟨taken.recent, taken.announced, taken.alive⟩, _, rfl, holds⟩

private theorem removal_met (clean : (applyRemoval run removal).error = "")
    (met : Met store batch batch.updates run) :
    Met store batch batch.updates (applyRemoval run removal) := by
  obtain ⟨_, ⟨_, same⟩ | ⟨strikes, same⟩⟩ := applyRemoval_cases clean
  · rw [same]
    exact met
  · rw [same]
    refine ⟨met.members, fun w listed entry found => ?_, fun w listed => ?_, fun w listed => ?_⟩
    · obtain ⟨-, found⟩ := Hash.lookup_erase_some found
      exact met.owner w listed entry found
    · exact ⟨(met.checked w listed).valid, (met.checked w listed).announced⟩
    · have kept := met.absorbed w listed
      by_cases same : w.key = Removal.key removal
      · refine .inl ?_
        have dead : (view (Run.strike run removal) w.key).tombstone =
            some (max (Hash.value run.tombstones w.key 0) removal.stamp.revision) := by
          rw [same]
          exact congrArg KeyState.tombstone (strike_here run removal)
        obtain rejects | ⟨taken, entry, current, holds⟩ := kept
        · refine rejects_mono rejects rfl rfl fun revision found => ⟨_, dead, ?_⟩
          change run.tombstones.lookup w.key = some revision at found
          rw [Hash.value, found, Option.getD_some]
          exact Nat.le_max_left _ _
        · have newest := strikes.newest
          rw [← view_existing, ← same, current, Option.some_or] at newest
          exact .inr (.inr ⟨_, dead, ((holds_newer holds).trans newest).trans (Nat.le_max_right _ _)⟩)
      · rw [strike_other run same]
        exact kept

theorem updates_absorbed (consistent : EpochsAgree store) (alone : Alone batch)
    (clean : (gather iteration store batch).error = "") :
    Met store batch batch.updates (gather iteration store batch) := by
  rw [gather_eq] at clean ⊢
  obtain ⟨updated, removed⟩ := foldl_keeps (Met store batch batch.updates) batch.removals
    (fun run a _ ran => ⟨(applyRemoval_cases ran).1, removal_met ran⟩) _ clean
  obtain ⟨announced, merged⟩ := foldl_tracks (Met store batch) batch.updates
    (fun _ run u member ran => ⟨(applyUpdate_cases (update_key_plain member) ran).1,
      update_met alone member ran⟩) _ updated
  have left := invalidations_announced consistent batch.invalidations announced
  refine removed (merged ⟨left.members, fun w _ entry found => ?_, nofun, nofun⟩)
  rw [left.staged] at found
  cases found

/-- A removal that was passed over for a stored entry that is gone now. -/
structure Missed (v : KeyState) (removal : Removal) : Prop where
  recent : ¬ Outdated v removal
  gone : v.current = none
  older : removal.stamp.revision < latest v.stored
  alive : ∀ dead, v.tombstone = some dead → dead < removal.stamp.revision

/-- The removals met so far are checked, and spent or missed. -/
def Handled (seen : List Removal) (run : EntityStore.Run) : Prop :=
  ∀ removal ∈ seen, RemovalChecked (view run (Removal.key removal)) removal ∧
    (Spends (view run (Removal.key removal)) removal ∨ Missed (view run (Removal.key removal)) removal)

private theorem gone_handled (gone : v.current = none)
    (older : removal.stamp.revision < latest v.stored ∨
      ∃ dead, v.tombstone = some dead ∧ removal.stamp.revision ≤ dead) :
    Spends v removal ∨ Missed v removal := by
  by_cases covered : ∃ dead, v.tombstone = some dead ∧ removal.stamp.revision ≤ dead
  · exact .inl (.inr (.inr ⟨gone, covered⟩))
  by_cases beyond : Outdated v removal
  · exact .inl (.inl beyond)
  refine .inr ⟨beyond, gone, older.resolve_right covered, fun dead found => ?_⟩
  by_contra above
  exact covered ⟨dead, found, Nat.le_of_not_lt above⟩

private theorem removal_handled {seen : List Removal} (clean : (applyRemoval run removal).error = "")
    (handled : Handled seen run) : Handled (seen ++ [removal]) (applyRemoval run removal) := by
  obtain ⟨valid, announced⟩ := removal_checked clean
  obtain ⟨_, ⟨passes, same⟩ | ⟨strikes, same⟩⟩ := applyRemoval_cases clean
  · rw [same]
    intro other listed
    obtain earlier | now := List.mem_append.mp listed
    · exact handled other earlier
    cases List.mem_singleton.mp now
    refine ⟨⟨valid, announced⟩, ?_⟩
    obtain low | beyond | newer := passes
    · exact .inl (.inl (.inl low))
    · exact .inl (.inl (.inr beyond))
    · rw [← view_existing] at newer
      cases current : (view run (Removal.key removal)).current with
      | some entry =>
        rw [current, Option.some_or] at newer
        exact .inl (.inr (.inl ⟨entry, current, newer⟩))
      | none =>
        rw [current, Option.none_or] at newer
        exact gone_handled current (.inl newer)
  · rw [same]
    have here := strike_here run removal
    intro other listed
    obtain earlier | rfl := mem_snoc listed
    · obtain ⟨checked, kept⟩ := handled other earlier
      by_cases twin : Removal.key other = Removal.key removal
      · rw [twin] at checked kept ⊢
        rw [here]
        refine ⟨⟨twin ▸ checked.valid, checked.announced⟩, ?_⟩
        obtain (beyond | ⟨entry, current, newer⟩ | ⟨_, dead, found, covers⟩) | missed := kept
        · exact .inl (.inl beyond)
        · have newest := strikes.newest
          rw [← view_existing, current, Option.some_or] at newest
          exact gone_handled rfl (.inr ⟨_, rfl, ((Nat.le_of_lt newer).trans newest).trans
            (Nat.le_max_right _ _)⟩)
        · refine gone_handled rfl (.inr ⟨_, rfl, covers.trans ?_⟩)
          change run.tombstones.lookup (Removal.key removal) = some dead at found
          rw [Hash.value, found, Option.getD_some]
          exact Nat.le_max_left _ _
        · exact gone_handled rfl (.inl missed.older)
      · rw [strike_other run twin]
        exact ⟨checked, kept⟩
    · rw [here]
      exact ⟨⟨valid, announced⟩, gone_handled rfl (.inr ⟨_, rfl, Nat.le_max_right _ _⟩)⟩

theorem removals_handled (clean : (gather iteration store batch).error = "") :
    Handled batch.removals (gather iteration store batch) := by
  rw [gather_eq] at clean ⊢
  exact (foldl_tracks Handled batch.removals (fun _ run removal _ ran =>
    ⟨(applyRemoval_cases ran).1, removal_handled ran⟩) _ clean).2 nofun

/-! ## Which removals are missed -/

/-- A removal that is looked at: neither the floor nor an announcement is newer. -/
structure Pending (store : Store) (batch : EntityBatch) (removal : Removal) : Prop where
  recent : store.floor ≤ removal.stamp.revision
  epoch : announced store batch.invalidations removal.stamp.owner ≤ removal.stamp.epoch

/-- The newest removal of a stored key whose entry the batch outdates, when the
entry is newer than the removal, and the tombstone older, and every update of the
key is taken back by an earlier removal of it. -/
structure Overlooks (store : Store) (batch : EntityBatch) (before : List Removal) (removal : Removal)
    (after : List Removal) (entry : Entry) : Prop where
  split : batch.removals = before ++ removal :: after
  stored : store.entries.lookup (Removal.key removal) = some entry
  outdated : ∃ reset ∈ batch.invalidations, reset.owner = entry.owner ∧ entry.epoch < reset.epoch
  pending : Pending store batch removal
  older : removal.stamp.revision < latest (some entry)
  alive : ∀ dead, store.tombstones.lookup (Removal.key removal) = some dead →
    dead < removal.stamp.revision
  first : ∀ other ∈ before, Removal.key other = Removal.key removal → Pending store batch other →
    other.stamp.revision < removal.stamp.revision
  last : ∀ other ∈ after, Removal.key other = Removal.key removal → Pending store batch other →
    other.stamp.revision ≤ removal.stamp.revision
  updates : ∀ u ∈ batch.updates, u.key = Removal.key removal → Considered store batch u →
    ∃ other ∈ before, Removal.key other = Removal.key removal ∧ Pending store batch other ∧
      u.stamp.revision ≤ other.stamp.revision

/-- The batch has a removal that is missed. -/
def Overlooked (store : Store) (batch : EntityBatch) : Prop :=
  ∃ before removal after entry, Overlooks store batch before removal after entry

/-- The members and the epochs of a batch in progress after its announcements. -/
structure Level (store : Store) (batch : EntityBatch) (run : EntityStore.Run) : Prop where
  members : run.store = store
  epochs : ∀ owner, Hash.value run.epochs owner 0 = announced store batch.invalidations owner

private theorem update_level (level : Level store batch run) (member : u ∈ batch.updates)
    (clean : (applyUpdate run u).error = "") : Level store batch (applyUpdate run u) := by
  refine ⟨(applyUpdate_store run u).trans level.members, ?_⟩
  obtain ⟨_, ⟨_, same⟩ | merged⟩ := applyUpdate_cases (update_key_plain member) clean
  · rw [same]
    exact level.epochs
  · rw [merged.epochs]
    exact level.epochs

private theorem removal_level (level : Level store batch run)
    (clean : (applyRemoval run removal).error = "") : Level store batch (applyRemoval run removal) := by
  obtain ⟨_, ⟨_, same⟩ | ⟨_, same⟩⟩ := applyRemoval_cases clean
  · rw [same]
    exact level
  · rw [same]
    exact ⟨level.members, level.epochs⟩

theorem gather_level (consistent : EpochsAgree store) (clean : (gather iteration store batch).error = "") :
    Level store batch (gather iteration store batch) :=
  gather_induction (Level store batch) consistent clean (fun _ left => ⟨left.members, left.epochs⟩)
    (fun _ _ _ member ran level => update_level level member ran)
    fun _ _ _ _ ran level => removal_level level ran

theorem Level.pending (level : Level store batch run) :
    Pending store batch removal ↔ ¬ Outdated (view run (Removal.key removal)) removal := by
  unfold Outdated
  change _ ↔ ¬ (removal.stamp.revision < run.store.floor ∨
    removal.stamp.epoch < Hash.value run.epochs removal.stamp.owner 0)
  rw [level.members, level.epochs]
  constructor
  · rintro ⟨recent, epoch⟩
    omega
  · intro looked
    exact ⟨by omega, by omega⟩

theorem Level.struck (level : Level store batch run) (strikes : Strikes run removal) :
    Pending store batch removal :=
  ⟨level.members ▸ strikes.recent, Nat.le_of_eq ((level.epochs _).symm.trans strikes.announced.symm)⟩

/-! ### The newest version of an entry -/

section

variable (member : u ∈ batch.updates) (clean : (merge u current).error = "")
include member clean

private theorem merge_steps :
    Merged u.stamp.revision u.steps (prepared u (current.getD (freshEntry u))) (merge u current).entry :=
  (steps_merged (update_loud member) clean).2

theorem latest_merge_le :
    latest (some (merge u current).entry) ≤ max (latest current) u.stamp.revision := by
  have base (slot : Field) :
      ((current.getD (freshEntry u)).versions slot).getD 0 ≤ latest current := by
    cases current with
    | none => exact Nat.le_refl 0
    | some entry =>
      exact Finset.le_sup (f := fun slot => (entry.versions slot).getD 0) (Finset.mem_univ slot)
  refine Finset.sup_le fun slot _ => ?_
  by_cases here : slot = .presence
  · rw [here, merged_presence member clean, Option.getD_some]
    exact Nat.max_le.mpr ⟨(base .presence).trans (Nat.le_max_left _ _), Nat.le_max_right _ _⟩
  obtain same | ⟨_, _, _, version, _, _⟩ := (merge_steps member clean).field slot
  · rw [same.version, prepared_versions u _ here]
    exact (base slot).trans (Nat.le_max_left _ _)
  · rw [version]
    exact Nat.le_max_right _ _

theorem latest_le_merge : latest current ≤ latest (some (merge u current).entry) := by
  have merged := merge_steps member clean
  have presence := merged_presence member clean
  cases current with
  | none => exact Nat.zero_le _
  | some entry =>
    refine Finset.sup_le fun slot _ => ?_
    cases version : entry.versions slot with
    | none => exact Nat.zero_le _
    | some seen =>
      by_cases here : slot = .presence
      · subst here
        rw [Option.getD_some, version] at presence
        exact (Nat.le_max_left _ _).trans (le_latest presence)
      have prior : (prepared u ((some entry).getD (freshEntry u))).versions slot = some seen :=
        (prepared_versions u entry here).trans version
      obtain same | ⟨a, _, rfl, later, _, _⟩ := merged.field slot
      · exact le_latest (same.version.trans prior)
      · by_cases level : u.stamp.revision ≤ seen
        · exact le_latest ((merged.level a.slot seen prior level).version.trans prior)
        · exact (Nat.le_of_lt (Nat.lt_of_not_le level)).trans (le_latest later)

theorem revision_le_merge : u.stamp.revision ≤ latest (some (merge u current).entry) :=
  (Nat.le_max_right _ _).trans (le_latest (merged_presence member clean))

end

/-! ### A missed removal is overlooked -/

/-- The entry of a key is as new as a revision, or its tombstone is. -/
def Covers (key : Key) (revision : Nat) (run : EntityStore.Run) : Prop :=
  (∃ entry, (view run key).current = some entry ∧ revision ≤ latest (some entry)) ∨
    ∃ dead, (view run key).tombstone = some dead ∧ revision ≤ dead

private theorem update_covers (member : u ∈ batch.updates) (clean : (applyUpdate run u).error = "")
    (covers : Covers key revision run) : Covers key revision (applyUpdate run u) := by
  obtain ⟨_, ⟨_, same⟩ | merged⟩ := applyUpdate_cases (update_key_plain member) clean
  · rw [same]
    exact covers
  · by_cases here : key = u.key
    · subst here
      obtain ⟨entry, current, newer⟩ | ⟨dead, found, newer⟩ := covers
      · have held := view_merged merged
        have quiet := merged.clean
        rw [current] at held quiet
        refine .inl ⟨_, congrArg KeyState.current held, newer.trans (latest_le_merge member quiet)⟩
      · exact .inr ⟨dead, (congrArg KeyState.tombstone (view_merged merged)).trans found, newer⟩
    · unfold Covers
      rw [view_other merged here]
      exact covers

private theorem removal_covers (clean : (applyRemoval run removal).error = "")
    (covers : Covers key revision run) : Covers key revision (applyRemoval run removal) := by
  obtain ⟨_, ⟨_, same⟩ | ⟨strikes, same⟩⟩ := applyRemoval_cases clean
  · rw [same]
    exact covers
  · rw [same]
    by_cases here : key = Removal.key removal
    · subst here
      refine .inr ⟨_, congrArg KeyState.tombstone (strike_here run removal), ?_⟩
      obtain ⟨entry, current, newer⟩ | ⟨old, found, newer⟩ := covers
      · have newest := strikes.newest
        rw [← view_existing, current, Option.some_or] at newest
        exact (newer.trans newest).trans (Nat.le_max_right _ _)
      · change run.tombstones.lookup (Removal.key removal) = some old at found
        rw [Hash.value, found, Option.getD_some]
        exact newer.trans (Nat.le_max_left _ _)
    · unfold Covers
      rw [strike_other run here]
      exact covers

private theorem removals_clean (removals : List Removal)
    (clean : (removals.foldl applyRemoval run).error = "") : run.error = "" :=
  (removals_follow ⟨0, 0⟩ removals run clean).1

private theorem removals_cover (removals : List Removal)
    (clean : (removals.foldl applyRemoval run).error = "") :
    run.error = "" ∧ (Covers key revision run → Covers key revision (removals.foldl applyRemoval run)) :=
  foldl_keeps (Covers key revision) removals
    (fun _ _ _ ran => ⟨(applyRemoval_cases ran).1, removal_covers ran⟩) run clean

private theorem missed_uncovered (missed : Missed (view run key) removal)
    (newer : removal.stamp.revision ≤ revision) : ¬ Covers key revision run := by
  rintro (⟨entry, current, _⟩ | ⟨dead, found, covers⟩)
  · rw [missed.gone] at current
    cases current
  · exact absurd (missed.alive dead found) (Nat.not_lt.mpr (newer.trans covers))

private theorem kept_covers (consistent : EpochsAgree store)
    (clean : (gather iteration store batch).error = "") (stored : store.entries.lookup key = some entry)
    (stays : ¬ ∃ reset ∈ batch.invalidations, reset.owner = entry.owner ∧ entry.epoch < reset.epoch) :
    Covers key (latest (some entry)) (gather iteration store batch) := by
  refine gather_induction (Covers key (latest (some entry))) consistent clean (fun run left => ?_)
    (fun _ _ _ member ran => update_covers member ran) fun _ _ _ _ ran => removal_covers ran
  have kept : key ∉ run.removed := by
    rw [left.removed]
    rintro ⟨other, found, reset⟩
    cases stored.symm.trans found
    exact stays reset
  exact .inl ⟨entry, by rw [(left.view key).2, if_neg kept, stored], le_rfl⟩

/-- The entry of the key is outdated by an announcement of the batch. -/
def OutdatedKey (store : Store) (batch : EntityBatch) (key : Key) : Prop :=
  ∃ entry, store.entries.lookup key = some entry ∧
    ∃ reset ∈ batch.invalidations, reset.owner = entry.owner ∧ entry.epoch < reset.epoch

/-- The updates met so far: those considered are in the entries, and where the
stored entry is outdated nothing else is. -/
structure Updated (store : Store) (batch : EntityBatch) (seen : List Update) (run : EntityStore.Run) :
    Prop where
  level : Level store batch run
  tombstones : run.tombstones = store.tombstones
  brought : ∀ u ∈ seen, Considered store batch u → ∃ entry,
    (view run u.key).current = some entry ∧ u.stamp.revision ≤ latest (some entry)
  fresh : ∀ key, OutdatedKey store batch key → ∀ entry, (view run key).current = some entry →
    ∃ u ∈ seen, u.key = key ∧ Considered store batch u ∧ latest (some entry) ≤ u.stamp.revision

private theorem rejects_considered (level : Level store batch run)
    (tombstones : run.tombstones = store.tombstones) (rejects : Rejects (view run u.key) u) :
    ¬ Considered store batch u := by
  intro considered
  obtain low | beyond | ⟨dead, found, covers⟩ := rejects
  · change u.stamp.revision < run.store.floor at low
    rw [level.members] at low
    exact absurd considered.recent (Nat.not_le.mpr low)
  · change u.stamp.epoch < Hash.value run.epochs u.stamp.owner 0 at beyond
    rw [level.epochs] at beyond
    exact absurd considered.epoch (Nat.not_le.mpr beyond)
  · change run.tombstones.lookup u.key = some dead at found
    rw [tombstones] at found
    exact absurd (considered.alive dead found) (Nat.not_lt.mpr covers)

private theorem takes_considered (level : Level store batch run)
    (tombstones : run.tombstones = store.tombstones) (taken : Takes (view run u.key) u) :
    Considered store batch u := by
  refine ⟨level.members ▸ taken.recent, ?_, fun dead found => taken.alive dead ?_⟩
  · exact Nat.le_of_eq ((level.epochs _).symm.trans taken.announced.symm)
  · rw [← tombstones] at found
    exact found

private theorem update_updated {seen : List Update} (member : u ∈ batch.updates)
    (clean : (applyUpdate run u).error = "") (updated : Updated store batch seen run) :
    Updated store batch (seen ++ [u]) (applyUpdate run u) := by
  have level := update_level updated.level member clean
  obtain ⟨_, ⟨rejects, same⟩ | merged⟩ := applyUpdate_cases (update_key_plain member) clean
  · rw [same]
    refine ⟨updated.level, updated.tombstones, fun w listed considered => ?_,
      fun key beyond entry current => ?_⟩
    · obtain earlier | rfl := mem_snoc listed
      · exact updated.brought w earlier considered
      · exact absurd considered (rejects_considered updated.level updated.tombstones rejects)
    · obtain ⟨w, earlier, rest⟩ := updated.fresh key beyond entry current
      exact ⟨w, List.mem_append_left _ earlier, rest⟩
  · have held := congrArg KeyState.current (view_merged merged)
    have considered := takes_considered updated.level updated.tombstones merged.taken
    refine ⟨level, merged.tombstones.trans updated.tombstones, fun w listed before => ?_,
      fun key beyond entry current => ?_⟩
    · obtain earlier | rfl := mem_snoc listed
      · obtain ⟨entry, current, newer⟩ := updated.brought w earlier before
        by_cases same : w.key = u.key
        · rw [same] at current ⊢
          have grown := latest_le_merge member merged.clean
          rw [current] at held grown
          exact ⟨_, held, newer.trans grown⟩
        · rw [view_other merged same]
          exact ⟨entry, current, newer⟩
      · exact ⟨_, held, revision_le_merge member merged.clean⟩
    · by_cases same : key = u.key
      · subst same
        cases held.symm.trans current
        have bound := latest_merge_le member merged.clean
        obtain old | new := Nat.le_total (latest (view run u.key).current) u.stamp.revision
        · rw [Nat.max_eq_right old] at bound
          exact ⟨u, by simp, rfl, considered, bound⟩
        · rw [Nat.max_eq_left new] at bound
          cases before : (view run u.key).current with
          | none =>
            rw [before] at bound
            exact ⟨u, by simp, rfl, considered, bound.trans (Nat.zero_le _)⟩
          | some old =>
            obtain ⟨w, earlier, here, known, newest⟩ := updated.fresh u.key beyond old before
            rw [before] at bound
            exact ⟨w, List.mem_append_left _ earlier, here, known, bound.trans newest⟩
      · rw [view_other merged same] at current
        obtain ⟨w, earlier, rest⟩ := updated.fresh key beyond entry current
        exact ⟨w, List.mem_append_left _ earlier, rest⟩

theorem beforeRemovals_updated (consistent : EpochsAgree store)
    (clean : (beforeRemovals iteration store batch).error = "") :
    Updated store batch batch.updates (beforeRemovals iteration store batch) := by
  obtain ⟨announced, updated⟩ := foldl_tracks (Updated store batch) batch.updates
    (fun _ run u member ran => ⟨(applyUpdate_cases (update_key_plain member) ran).1,
      update_updated member ran⟩) _ clean
  have left := invalidations_announced consistent batch.invalidations announced
  refine updated ⟨⟨left.members, left.epochs⟩, left.tombstones, nofun, fun key beyond entry current => ?_⟩
  obtain ⟨old, stored, reset⟩ := beyond
  rw [(left.view key).2, if_pos ((left.removed key).mpr ⟨old, stored, reset⟩)] at current
  cases current

/-- The first of the greatest elements of a list that satisfy a predicate. -/
private theorem exists_newest {α : Type} (p : α → Prop) (rank : α → Nat) (list : List α)
    (some : ∃ a ∈ list, p a) :
    ∃ before a after, list = before ++ a :: after ∧ p a ∧
      (∀ b ∈ before, p b → rank b < rank a) ∧ ∀ b ∈ after, p b → rank b ≤ rank a := by
  induction list with
  | nil =>
    obtain ⟨_, member, _⟩ := some
    cases member
  | cons x rest ih =>
    by_cases later : ∃ a ∈ rest, p a
    · obtain ⟨before, a, after, rfl, held, first, last⟩ := ih later
      by_cases greatest : p x ∧ rank a ≤ rank x
      · refine ⟨[], x, _, rfl, greatest.1, nofun, fun b member other => ?_⟩
        simp only [List.mem_append, List.mem_cons] at member
        obtain member | rfl | member := member
        · exact (Nat.le_of_lt (first b member other)).trans greatest.2
        · exact greatest.2
        · exact (last b member other).trans greatest.2
      · refine ⟨x :: before, a, after, rfl, held, fun b member other => ?_, last⟩
        obtain rfl | member := List.mem_cons.mp member
        · exact Nat.lt_of_not_le fun above => greatest ⟨other, above⟩
        · exact first b member other
    · obtain ⟨a, member, held⟩ := some
      obtain rfl | member := List.mem_cons.mp member
      · exact ⟨[], a, rest, rfl, held, nofun, fun b member other => absurd ⟨b, member, other⟩ later⟩
      · exact absurd ⟨a, member, held⟩ later

private theorem taken_back {before : List Removal} (level : Level store batch run)
    (current : (view run u.key).current = some entry) (newer : u.stamp.revision ≤ latest (some entry))
    (clean : (before.foldl applyRemoval run).error = "") :
    (view (before.foldl applyRemoval run) u.key).current.isSome ∨
      ∃ other ∈ before, Removal.key other = u.key ∧ Pending store batch other ∧
        u.stamp.revision ≤ other.stamp.revision := by
  have tracked := (foldl_tracks
    (fun seen run => Level store batch run ∧
      ((∃ entry, (view run u.key).current = some entry ∧ u.stamp.revision ≤ latest (some entry)) ∨
        ∃ other ∈ seen, Removal.key other = u.key ∧ Pending store batch other ∧
          u.stamp.revision ≤ other.stamp.revision)) before
    (fun seen run removal _ ran => ⟨(applyRemoval_cases ran).1, fun ⟨level, held⟩ => ?_⟩)
    run clean).2 ⟨level, .inl ⟨entry, current, newer⟩⟩
  · obtain ⟨_, ⟨entry, current, _⟩ | back⟩ := tracked
    · exact .inl (by rw [current]; rfl)
    · exact .inr back
  refine ⟨removal_level level ran, ?_⟩
  obtain ⟨entry, current, newer⟩ | ⟨other, listed, rest⟩ := held
  · obtain ⟨_, ⟨_, same⟩ | ⟨strikes, same⟩⟩ := applyRemoval_cases ran
    · rw [same]
      exact .inl ⟨entry, current, newer⟩
    · by_cases here : Removal.key removal = u.key
      · have newest := strikes.newest
        rw [← view_existing, here, current, Option.some_or] at newest
        exact .inr ⟨removal, by simp, here, level.struck strikes, newer.trans newest⟩
      · refine .inl ⟨entry, ?_, newer⟩
        rw [same, strike_other run (Ne.symm here)]
        exact current
  · exact .inr ⟨other, List.mem_append_left _ listed, rest⟩

private theorem removals_level (level : Level store batch run) (removals : List Removal)
    (clean : (removals.foldl applyRemoval run).error = "") :
    Level store batch (removals.foldl applyRemoval run) :=
  (foldl_keeps (Level store batch) removals
    (fun _ _ _ ran => ⟨(applyRemoval_cases ran).1, fun level => removal_level level ran⟩) run clean).2 level

private theorem pending_covers (level : Level store batch run) (pending : Pending store batch removal)
    (there : (view run (Removal.key removal)).current.isSome)
    (clean : (applyRemoval run removal).error = "") :
    Covers (Removal.key removal) removal.stamp.revision (applyRemoval run removal) := by
  obtain ⟨_, ⟨passes, same⟩ | ⟨_, same⟩⟩ := applyRemoval_cases clean
  · rw [same]
    obtain low | beyond | newer := passes
    · exact absurd (.inl low) (level.pending.mp pending)
    · exact absurd (.inr beyond) (level.pending.mp pending)
    · obtain ⟨entry, current⟩ := Option.isSome_iff_exists.mp there
      rw [← view_existing, current, Option.some_or] at newer
      exact .inl ⟨entry, current, Nat.le_of_lt newer⟩
  · rw [same]
    exact .inr ⟨_, congrArg KeyState.tombstone (strike_here run removal), Nat.le_max_right _ _⟩

/-- A removal that is missed when the batch ends is overlooked, or a newer one is. -/
theorem missed_overlooked (consistent : EpochsAgree store)
    (clean : (gather iteration store batch).error = "") (member : removal ∈ batch.removals)
    (missed : Missed (view (gather iteration store batch) (Removal.key removal)) removal) :
    Overlooked store batch := by
  have level := gather_level consistent clean
  obtain ⟨before, newest, after, split, ⟨same, pending⟩, first, last⟩ :=
    exists_newest (fun other => Removal.key other = Removal.key removal ∧ Pending store batch other)
      (fun other => other.stamp.revision) batch.removals
      ⟨removal, member, rfl, level.pending.mpr missed.recent⟩
  have greatest : removal.stamp.revision ≤ newest.stamp.revision := by
    have listed := member
    rw [split, List.mem_append, List.mem_cons] at listed
    obtain early | rfl | late := listed
    · exact Nat.le_of_lt (first removal early ⟨rfl, level.pending.mpr missed.recent⟩)
    · exact le_rfl
    · exact last removal late ⟨rfl, level.pending.mpr missed.recent⟩
  have passed : Missed (view (gather iteration store batch) (Removal.key newest)) newest := by
    have gone := missed.gone
    obtain (beyond | ⟨entry, current, _⟩ | ⟨_, dead, found, covers⟩) | passed :=
      (removals_handled clean newest (by simp [split])).2
    · exact absurd beyond (level.pending.mp pending)
    · rw [same, gone] at current
      cases current
    · rw [same] at found
      exact absurd (missed.alive dead found) (Nat.not_lt.mpr (greatest.trans covers))
    · exact passed
  have uncovered {revision : Nat} (newer : newest.stamp.revision ≤ revision) :=
    missed_uncovered passed newer
  have older := passed.older
  change newest.stamp.revision <
    latest ((gather iteration store batch).store.entries.lookup (Removal.key newest)) at older
  rw [level.members] at older
  cases stored : store.entries.lookup (Removal.key newest) with
  | none =>
    rw [stored] at older
    exact absurd older (Nat.not_lt_zero _)
  | some entry =>
    rw [stored] at older
    rw [gather_eq] at clean uncovered
    have updated := removals_clean _ clean
    have left := beforeRemovals_updated consistent updated
    refine ⟨before, newest, after, entry, split, stored, ?_, pending, older, fun dead found => ?_,
      fun other listed here looked => first other listed ⟨here.trans same, looked⟩,
      fun other listed here looked => last other listed ⟨here.trans same, looked⟩,
      fun u brought here considered => ?_⟩
    · by_contra stays
      rw [← gather_eq] at uncovered clean
      exact uncovered (Nat.le_of_lt older) (kept_covers consistent clean stored stays)
    · by_contra above
      rw [← left.tombstones] at found
      exact uncovered (Nat.le_of_not_lt above)
        ((removals_cover _ clean).2 (.inr ⟨dead, found, le_rfl⟩))
    · obtain ⟨merged, current, newer⟩ := left.brought u brought considered
      rw [split, List.foldl_append] at clean uncovered
      have turn := removals_clean _ clean
      obtain there | back := taken_back left.level current newer turn
      · have quiet := clean
        rw [List.foldl_cons] at quiet
        have met := removals_clean _ quiet
        have covers := pending_covers (removals_level left.level _ turn) pending (here ▸ there) met
        exact absurd ((removals_cover _ quiet).2 covers) (uncovered le_rfl)
      · rwa [here] at back

/-! ### An overlooked removal is missed -/

variable {before after : List Removal}

/-- The removals before an overlooked one take all updates of its key back, and
none is as new. -/
private theorem overlooked_before (overlooks : Overlooks store batch before removal after entry)
    (left : Updated store batch batch.updates run)
    (clean : (before.foldl applyRemoval run).error = "") :
    (view (before.foldl applyRemoval run) (Removal.key removal)).current = none ∧
      ∀ dead, (view (before.foldl applyRemoval run) (Removal.key removal)).tombstone = some dead →
        dead < removal.stamp.revision := by
  have outdated : OutdatedKey store batch (Removal.key removal) :=
    ⟨entry, overlooks.stored, overlooks.outdated⟩
  have tracked := (foldl_tracks
    (fun seen run => Level store batch run ∧
      (∀ entry, (view run (Removal.key removal)).current = some entry →
        (∃ u ∈ batch.updates, u.key = Removal.key removal ∧ Considered store batch u ∧
          latest (some entry) ≤ u.stamp.revision) ∧
        ∀ other ∈ seen, Removal.key other = Removal.key removal → Pending store batch other →
          other.stamp.revision < latest (some entry)) ∧
      ∀ dead, (view run (Removal.key removal)).tombstone = some dead → dead < removal.stamp.revision)
    before
    (fun seen run other listed ran => ⟨(applyRemoval_cases ran).1, fun ⟨level, held, alive⟩ => ?_⟩)
    run clean).2 ⟨left.level, fun entry current => ⟨left.fresh _ outdated entry current, nofun⟩,
      fun dead found => overlooks.alive dead ?_⟩
  · obtain ⟨_, held, alive⟩ := tracked
    refine ⟨Option.eq_none_iff_forall_ne_some.mpr fun entry current => ?_, alive⟩
    obtain ⟨⟨u, brought, here, considered, bound⟩, newer⟩ := held entry current
    obtain ⟨other, listed, same, pending, covers⟩ := overlooks.updates u brought here considered
    have above := newer other listed same pending
    omega
  · refine ⟨removal_level level ran, ?_⟩
    obtain ⟨_, ⟨passes, same⟩ | ⟨strikes, same⟩⟩ := applyRemoval_cases ran
    · rw [same]
      refine ⟨fun entry current => ⟨(held entry current).1, fun third seenOrNow here pending => ?_⟩, alive⟩
      obtain earlier | rfl := mem_snoc seenOrNow
      · exact (held entry current).2 third earlier here pending
      · obtain low | beyond | newer := passes
        · exact absurd (.inl low) (level.pending.mp pending)
        · exact absurd (.inr beyond) (level.pending.mp pending)
        · rwa [← view_existing, here, current, Option.some_or] at newer
    · rw [same]
      by_cases here : Removal.key other = Removal.key removal
      · have struck := strike_here run other
        rw [here] at struck
        rw [struck]
        refine ⟨fun entry current => (by cases current), fun revision found => ?_⟩
        · cases found
          have newer := overlooks.first other listed here (level.struck strikes)
          refine max_lt ?_ newer
          cases found : run.tombstones.lookup (Removal.key removal) with
          | none =>
            rw [Hash.value, found]
            exact Nat.lt_of_le_of_lt (Nat.zero_le _) newer
          | some old =>
            rw [Hash.value, found]
            exact alive old found
      · rw [strike_other run (Ne.symm here)]
        refine ⟨fun entry current => ⟨(held entry current).1, fun third seenOrNow twin pending => ?_⟩,
          alive⟩
        obtain earlier | rfl := mem_snoc seenOrNow
        · exact (held entry current).2 third earlier twin pending
        · exact absurd twin here
  · rw [← left.tombstones]
    exact found

private theorem overlooked_after (overlooks : Overlooks store batch before removal after entry)
    (base : Level store batch run) (clean : ((removal :: after).foldl applyRemoval run).error = "")
    (gone : (view run (Removal.key removal)).current = none) :
    view ((removal :: after).foldl applyRemoval run) (Removal.key removal) =
      view run (Removal.key removal) := by
  refine ((foldl_keeps
    (fun now => Level store batch now ∧ view now (Removal.key removal) = view run (Removal.key removal))
    (removal :: after)
    (fun now other listed ran => ⟨(applyRemoval_cases ran).1, fun ⟨level, same⟩ =>
      ⟨removal_level level ran, ?_⟩⟩) run clean).2 ⟨base, rfl⟩).2
  obtain ⟨_, ⟨_, kept⟩ | ⟨strikes, struck⟩⟩ := applyRemoval_cases ran
  · rw [kept]
    exact same
  · by_cases here : Removal.key other = Removal.key removal
    · have bound : other.stamp.revision ≤ removal.stamp.revision := by
        obtain rfl | later := List.mem_cons.mp listed
        · exact le_rfl
        · exact overlooks.last other later here (level.struck strikes)
      have newest := strikes.newest
      have older := overlooks.older
      rw [← view_existing, here, same, gone, Option.none_or] at newest
      change latest (run.store.entries.lookup (Removal.key removal)) ≤ _ at newest
      rw [base.members, overlooks.stored] at newest
      omega
    · rw [struck, strike_other now (Ne.symm here)]
      exact same

/-- An overlooked removal is missed: its key is gone, and the tombstone is older. -/
theorem overlooked_missed (consistent : EpochsAgree store)
    (clean : (gather iteration store batch).error = "")
    (overlooks : Overlooks store batch before removal after entry) :
    (view (gather iteration store batch) (Removal.key removal)).current = none ∧
      ∀ dead, (view (gather iteration store batch) (Removal.key removal)).tombstone = some dead →
        dead < removal.stamp.revision := by
  rw [gather_eq, overlooks.split, List.foldl_append] at clean ⊢
  have turn := removals_clean _ clean
  have updated := removals_clean _ turn
  have left := beforeRemovals_updated consistent updated
  obtain ⟨gone, alive⟩ := overlooked_before overlooks left turn
  rw [overlooked_after overlooks (removals_level left.level _ turn) clean gone]
  exact ⟨gone, alive⟩

/-! ## The second delivery -/

private theorem delivered_view (accepted : (apply iteration store batch).1.error = "")
    (room : (gather iteration store batch).tombstones.size ≤ store.tombstoneCapacity) (key : Key) :
    ∃ clock, storeView (apply iteration store batch).2 key =
      { view (gather iteration store batch) key with
        stored := (view (gather iteration store batch) key).current.map
          fun entry => { entry with touched := clock }
        current := (view (gather iteration store batch) key).current.map
          fun entry => { entry with touched := clock } } := by
  obtain ⟨_, committed⟩ := apply_committed accepted key
  obtain ⟨floor, tombstones⟩ := apply_keeps_tombstones accepted room
  obtain ⟨clock, stored⟩ := committed.stored
  refine ⟨clock, ?_⟩
  have level : (storeView (apply iteration store batch).2 key).floor =
      (view (gather iteration store batch) key).floor := by
    change (apply iteration store batch).2.floor = (gather iteration store batch).store.floor
    rw [floor, gather_store]
  have tombstone : (storeView (apply iteration store batch).2 key).tombstone =
      (view (gather iteration store batch) key).tombstone :=
    congrArg (·.lookup key) tombstones
  generalize storeView (apply iteration store batch).2 key = t at *
  cases t
  simp only at committed stored level tombstone
  have epochs := committed.epochs
  have current := committed.current
  simp only at epochs current
  simp only [KeyState.mk.injEq]
  exact ⟨epochs, level, stored, current.trans stored, tombstone⟩

/-- A batch in progress that has changed nothing yet. -/
structure Quiet (store : Store) (run : EntityStore.Run) : Prop where
  members : run.store = store
  clean : run.error = ""
  epochs : run.epochs = store.epochs
  views : ∀ key, view run key = storeView store key
  marks : ∀ key, Hash.value run.changed key ∅ = ∅

private theorem announcements_valid (resets : List ReadStamp)
    (clean : (invalidations iteration run resets).error = "") :
    ∀ reset ∈ resets, ¬ (reset.revision = 0 ∨ reset.owner < 0) := by
  induction resets generalizing run with
  | nil => exact nofun
  | cons reset rest ih =>
    unfold invalidations at clean
    split at clean
    · exact absurd clean (fail_error _ (by decide))
    · rename_i valid
      intro other listed
      obtain rfl | later := List.mem_cons.mp listed
      · exact valid
      · exact ih clean other later

private theorem announcements_known (resets : List ReadStamp)
    (valid : ∀ reset ∈ resets, ¬ (reset.revision = 0 ∨ reset.owner < 0))
    (known : ∀ reset ∈ resets, reset.epoch ≤ Hash.value run.epochs reset.owner 0) :
    invalidations iteration run resets = run := by
  induction resets with
  | nil => rfl
  | cons reset rest ih =>
    have still : invalidate iteration run reset = run := by
      unfold invalidate
      rw [if_neg (Nat.not_lt.mpr (known reset List.mem_cons_self))]
    unfold invalidations
    rw [if_neg (valid reset List.mem_cons_self), still]
    exact ih (fun other listed => valid other (.tail _ listed))
      fun other listed => known other (.tail _ listed)

theorem absorbed_gather
    (valid : ∀ reset ∈ batch.invalidations, ¬ (reset.revision = 0 ∨ reset.owner < 0))
    (known : ∀ reset ∈ batch.invalidations, reset.epoch ≤ Hash.value store.epochs reset.owner 0)
    (updates : ∀ u ∈ batch.updates, Checked (storeView store u.key) u ∧ Absorbs (storeView store u.key) u)
    (removals : ∀ removal ∈ batch.removals, RemovalChecked (storeView store (Removal.key removal)) removal ∧
      Spends (storeView store (Removal.key removal)) removal) :
    Quiet store (gather iteration store batch) := by
  have announced : invalidations iteration (.start store) batch.invalidations =
      EntityStore.Run.start store := announcements_known batch.invalidations valid known
  rw [gather_eq, beforeRemovals, announced]
  refine List.foldlRecOn batch.removals applyRemoval ?_ fun run quiet removal listed => ?_
  · refine List.foldlRecOn batch.updates applyUpdate ?_ fun run quiet u listed => ?_
    · exact ⟨rfl, rfl, rfl, fun _ => rfl, fun key => by simp [EntityStore.Run.start, Hash.value]⟩
    · obtain ⟨checked, absorbs⟩ := updates u listed
      rw [← quiet.views] at checked absorbs
      obtain ⟨clean, epochs, views, marks⟩ :=
        absorbed_update (update_key_plain listed) quiet.clean checked absorbs
      exact ⟨(applyUpdate_store run u).trans quiet.members, clean, epochs.trans quiet.epochs,
        fun key => (views key).trans (quiet.views key), fun key => (marks key).trans (quiet.marks key)⟩
  · obtain ⟨checked, spends⟩ := removals removal listed
    rw [← quiet.views] at checked spends
    have same (key : Key) : view run key = storeView run.store key := by
      rw [quiet.members]
      exact quiet.views key
    obtain ⟨clean, epochs, views, marks⟩ := spent_removal quiet.clean checked same spends
    exact ⟨(applyRemoval_store run removal).trans quiet.members, clean, epochs.trans quiet.epochs,
      fun key => (views key).trans (quiet.views key), fun key => (marks key).trans (quiet.marks key)⟩

private theorem propagate_silent {changed : Hash Key Fields}
    (silent : ∀ key, Hash.value changed key ∅ = ∅) (dependents : Hash Key (List Change)) (rounds : Nat)
    (queue : List Key) : propagate dependents rounds queue changed = changed := by
  induction rounds generalizing queue with
  | zero => rfl
  | succ rounds ih =>
    cases queue with
    | nil => rfl
    | cons key queue =>
      unfold propagate
      rw [if_pos (by simp [silent])]
      exact ih queue

theorem report_silent (iteration : Iteration) (store : Store)
    (silent : ∀ key, Hash.value run.changed key ∅ = ∅) : report iteration run store = [] := by
  unfold report
  rw [propagate_silent silent]
  refine List.filterMap_eq_nil_iff.mpr fun key _ => ?_
  simp [silent]

private theorem pruned_silent (keys : List Key) (silent : ∀ key, Hash.value run.changed key ∅ = ∅) (key : Key) :
    Hash.value (keys.foldl pruneChanged run).changed key ∅ = ∅ := by
  refine List.foldlRecOn (motive := fun run => ∀ key, Hash.value run.changed key ∅ = ∅) keys
    pruneChanged silent (fun run silent first _ key => ?_) key
  unfold pruneChanged
  split
  · rename_i entry previous _ _
    rw [Hash.value_insert, silent first]
    split
    · simp [prune]
    · exact silent key
  · exact silent key

/-- A second delivery of a batch, right after the first. -/
structure Repeats (iteration again : Iteration) (store : Store) (batch : EntityBatch) : Prop where
  accepted : (apply again (apply iteration store batch).2 batch).1.error = ""
  entries : ∀ key, ((apply again (apply iteration store batch).2 batch).2.entries.lookup key).map untimed =
    ((apply iteration store batch).2.entries.lookup key).map untimed
  epochs : (apply again (apply iteration store batch).2 batch).2.epochs =
    (apply iteration store batch).2.epochs
  tombstones : ∀ key, (apply again (apply iteration store batch).2 batch).2.tombstones.lookup key =
    (apply iteration store batch).2.tombstones.lookup key
  floor : (apply again (apply iteration store batch).2 batch).2.floor =
    (apply iteration store batch).2.floor
  instanceName : (apply again (apply iteration store batch).2 batch).2.instanceName =
    (apply iteration store batch).2.instanceName
  quiet : ∀ change ∈ (apply again (apply iteration store batch).2 batch).1.changes,
    change.key ∈ (apply iteration store batch).2.entries → ∀ slot ∈ change.fields,
      slot = .presence ∨ slot = .stale ∨ slot = .deleted

private theorem delivered_updates (consistent : EpochsAgree store) (alone : Alone batch)
    (accepted : (apply iteration store batch).1.error = "")
    (room : (gather iteration store batch).tombstones.size ≤ store.tombstoneCapacity)
    (member : u ∈ batch.updates) :
    Checked (storeView (apply iteration store batch).2 u.key) u ∧
      Absorbs (storeView (apply iteration store batch).2 u.key) u := by
  have met := updates_absorbed consistent alone (apply_committed accepted u.key).1
  obtain ⟨clock, same⟩ := delivered_view accepted room u.key
  rw [same]
  refine ⟨⟨(met.checked u member).valid, (met.checked u member).announced⟩, ?_⟩
  obtain rejects | ⟨taken, entry, current, holds⟩ := met.absorbed u member
  · exact .inl rejects
  · exact .inr ⟨⟨taken.recent, taken.announced, taken.alive⟩, _, by rw [current]; rfl,
      holds.touch clock⟩

private theorem delivered_removals (accepted : (apply iteration store batch).1.error = "")
    (room : (gather iteration store batch).tombstones.size ≤ store.tombstoneCapacity)
    (member : removal ∈ batch.removals)
    (heard : ¬ Missed (view (gather iteration store batch) (Removal.key removal)) removal) :
    RemovalChecked (storeView (apply iteration store batch).2 (Removal.key removal)) removal ∧
      Spends (storeView (apply iteration store batch).2 (Removal.key removal)) removal := by
  obtain ⟨checked, handled⟩ := removals_handled (apply_committed accepted ⟨0, 0⟩).1 removal member
  obtain ⟨clock, same⟩ := delivered_view accepted room (Removal.key removal)
  rw [same]
  refine ⟨⟨checked.valid, checked.announced⟩, ?_⟩
  obtain beyond | ⟨entry, current, newer⟩ | ⟨gone, covered⟩ := handled.resolve_right heard
  · exact .inl beyond
  · exact .inr (.inl ⟨{ entry with touched := clock }, by rw [current]; rfl, newer⟩)
  · exact .inr (.inr ⟨by rw [gone]; rfl, covered⟩)

private theorem delivered_epochs (consistent : EpochsAgree store)
    (accepted : (apply iteration store batch).1.error = "") {reset : ReadStamp}
    (member : reset ∈ batch.invalidations) :
    reset.epoch ≤ Hash.value (apply iteration store batch).2.epochs reset.owner 0 := by
  rw [(apply_names accepted).2, (gather_level consistent (apply_committed accepted ⟨0, 0⟩).1).epochs]
  by_contra above
  exact Nat.lt_irrefl _ (lt_announced.mpr (.inr ⟨reset, member, rfl, Nat.lt_of_not_le above⟩))

private theorem accepted_again {again : Iteration} (accepted : (apply iteration store batch).1.error = "")
    (clean : (gather again (apply iteration store batch).2 batch).error = "") :
    (apply again (apply iteration store batch).2 batch).1.error = "" := by
  have named := (apply_names accepted).1
  generalize (apply iteration store batch).2 = first at *
  unfold apply at accepted ⊢
  split at accepted
  · exact absurd accepted (by simp)
  rename_i protocol
  split at accepted
  · exact absurd accepted (by simp)
  split at accepted
  · exact absurd accepted (by simp)
  rename_i budget
  rw [if_neg protocol, if_neg (by simp [named]), if_neg budget]
  dsimp only
  rw [if_neg (not_not.mpr clean)]

/-- Where no removal is overlooked, the second delivery finds everything as it is. -/
theorem repeats_of_heard (again : Iteration) (consistent : EpochsAgree store) (alone : Alone batch)
    (accepted : (apply iteration store batch).1.error = "")
    (room : (gather iteration store batch).tombstones.size ≤ store.tombstoneCapacity)
    (heard : ¬ Overlooked store batch) : Repeats iteration again store batch := by
  have clean := (apply_committed accepted ⟨0, 0⟩).1
  have started : (invalidations iteration (.start store) batch.invalidations).error = "" := by
    rw [gather_eq] at clean
    exact (updates_follow ⟨0, 0⟩ batch.updates (fun _ => update_key_plain) _ (removals_clean _ clean)).1
  have quiet : Quiet (apply iteration store batch).2 (gather again (apply iteration store batch).2 batch) :=
    absorbed_gather (announcements_valid _ started)
      (fun reset member => delivered_epochs consistent accepted member)
      (fun u member => delivered_updates consistent alone accepted room member)
      fun removal member => delivered_removals accepted room member fun missed =>
        heard (missed_overlooked consistent clean member missed)
  have fits : (gather again (apply iteration store batch).2 batch).tombstones.size ≤
      (apply iteration store batch).2.tombstoneCapacity := by
    rw [apply_capacity accepted]
    refine Nat.le_trans (Hash.size_le_of_keys _ (apply iteration store batch).2.tombstones.keys
      fun key listed => ?_) ?_
    · have there := AList.lookup_isSome.mpr (AList.mem_keys.mpr listed)
      have same : (gather again (apply iteration store batch).2 batch).tombstones.lookup key =
          (apply iteration store batch).2.tombstones.lookup key :=
        congrArg KeyState.tombstone (quiet.views key)
      rw [same] at there
      exact AList.mem_keys.mp (AList.lookup_isSome.mp there)
    · rw [← Hash.size_eq, (apply_keeps_tombstones accepted room).2]
      exact room
  have repeated := accepted_again accepted quiet.clean
  obtain ⟨floor, tombstones⟩ := apply_keeps_tombstones repeated fits
  refine ⟨repeated, fun key => ?_, (apply_names repeated).2.trans quiet.epochs, fun key => ?_, floor,
    (apply_names repeated).1.trans (apply_names accepted).1.symm, fun change reported => ?_⟩
  · obtain ⟨clock, same⟩ := delivered_view repeated fits key
    have stored := congrArg KeyState.stored same
    rw [quiet.views] at stored
    have held : (storeView (apply iteration store batch).2 key).current =
        (apply iteration store batch).2.entries.lookup key := by simp [storeView, view, EntityStore.Run.start]
    rw [held] at stored
    change (apply again (apply iteration store batch).2 batch).2.entries.lookup key = _ at stored
    rw [stored, Option.map_map]
    rfl
  · rw [tombstones]
    exact congrArg KeyState.tombstone (quiet.views key)
  · obtain ⟨_, changed, pruned, _, reports⟩ := apply_accepted repeated
    rw [reports, report_silent] at reported
    · cases reported
    · rw [pruned]
      exact pruned_silent _ quiet.marks

/-- An overlooked removal leaves a tombstone when the batch comes again. -/
theorem overlooked_of_repeats {again : Iteration} (consistent : EpochsAgree store)
    (accepted : (apply iteration store batch).1.error = "")
    (room : (gather iteration store batch).tombstones.size ≤ store.tombstoneCapacity)
    (fits : (gather again (apply iteration store batch).2 batch).tombstones.size ≤ store.tombstoneCapacity)
    (repeats : Repeats iteration again store batch) : ¬ Overlooked store batch := by
  rintro ⟨before, removal, after, entry, overlooks⟩
  have clean := (apply_committed accepted ⟨0, 0⟩).1
  obtain ⟨gone, alive⟩ := overlooked_missed consistent clean overlooks
  obtain ⟨clock, first⟩ := delivered_view accepted room (Removal.key removal)
  have absent : (apply iteration store batch).2.entries.lookup (Removal.key removal) = none := by
    have stored := congrArg KeyState.stored first
    rw [gone] at stored
    exact stored
  have dead_first : (apply iteration store batch).2.tombstones.lookup (Removal.key removal) =
      (view (gather iteration store batch) (Removal.key removal)).tombstone :=
    congrArg KeyState.tombstone first
  obtain ⟨_, committed⟩ := apply_committed repeats.accepted (Removal.key removal)
  obtain ⟨_, spent | missed⟩ := removals_handled (apply_committed repeats.accepted ⟨0, 0⟩).1 removal
    (by simp [overlooks.split])
  · obtain beyond | ⟨held, current, _⟩ | ⟨_, dead, found, covers⟩ := spent
    · obtain low | past := beyond
      · change removal.stamp.revision < (gather again _ batch).store.floor at low
        rw [gather_store, (apply_keeps_tombstones accepted room).1] at low
        exact absurd overlooks.pending.recent (Nat.not_le.mpr low)
      · change removal.stamp.epoch < Hash.value (gather again _ batch).epochs removal.stamp.owner 0 at past
        rw [← (apply_names repeats.accepted).2, repeats.epochs, (apply_names accepted).2,
          (gather_level consistent clean).epochs] at past
        exact absurd overlooks.pending.epoch (Nat.not_le.mpr past)
    · obtain ⟨_, stored⟩ := committed.stored
      have there : (apply again (apply iteration store batch).2 batch).2.entries.lookup
          (Removal.key removal) = _ := stored
      have same := repeats.entries (Removal.key removal)
      rw [there, current, absent] at same
      cases same
    · have kept := (apply_keeps_tombstones repeats.accepted ((apply_capacity accepted).symm ▸ fits)).2
      have same := repeats.tombstones (Removal.key removal)
      rw [kept, dead_first] at same
      exact absurd (alive dead (same.symm.trans found)) (Nat.not_lt.mpr covers)
  · have older := missed.older
    change removal.stamp.revision < latest ((gather again _ batch).store.entries.lookup _) at older
    rw [gather_store, absent] at older
    exact absurd older (Nat.not_lt_zero _)

/-- Delivering a batch again changes nothing and reports nothing, unless the batch
has a removal that is overlooked; then it changes something. -/
theorem redelivery_repeats {sizes : Sizes} {trace : List (Store × Call)}
    (run : EntityRuns.Run sizes trace store) (iteration again : Iteration) (batch : EntityBatch)
    (alone : Alone batch) (accepted : (apply iteration store batch).1.error = "")
    (room : (gather iteration store batch).tombstones.size ≤ store.tombstoneCapacity) :
    (¬ Overlooked store batch → Repeats iteration again store batch) ∧
      ((gather again (apply iteration store batch).2 batch).tombstones.size ≤ store.tombstoneCapacity →
        Repeats iteration again store batch → ¬ Overlooked store batch) :=
  ⟨repeats_of_heard again (epochs_agree run) alone accepted room,
    overlooked_of_repeats (epochs_agree run) accepted room⟩

/-- The song at a revision, at epoch 0 of its owner. -/
def songAt (revision : Nat) : EntityBatch :=
  { protocol := 2, instanceName := "backend"
    songs := [⟨1, ⟨0, 0, revision⟩, { name := some "song" }, none, none, none⟩] }

/-- The song is removed at a revision, after announcements. -/
def withoutSong (invalidations : List ReadStamp) (epoch revision : Nat) : EntityBatch :=
  { protocol := 2, instanceName := "backend"
    invalidations := invalidations
    removals := [⟨1, Song, ⟨0, epoch, revision⟩⟩] }

theorem removed_song_repeats :
    Repeats inOrder inOrder (apply inOrder Store.initial (songAt 10)).2 (withoutSong [] 0 12) := by
  have run : EntityRuns.Run wide [(Store.initial, ⟨inOrder, .apply (songAt 10)⟩)]
      (apply inOrder Store.initial (songAt 10)).2 := .snoc (.done _) rfl
  refine (redelivery_repeats run inOrder inOrder (withoutSong [] 0 12) nofun (by decide) (by decide)).1 ?_
  rintro ⟨_, _, _, _, overlooks⟩
  obtain ⟨_, announced, _⟩ := overlooks.outdated
  cases announced

/-- The store has the song at revision 10, and a batch announces a new epoch and
removes the song at revision 3.  The removal is passed over, and leaves a
tombstone when the batch comes again. -/
theorem late_removal_not_repeated :
    EntityRuns.Run wide [(Store.initial, ⟨inOrder, .apply (songAt 10)⟩)]
        (apply inOrder Store.initial (songAt 10)).2 ∧
      Alone (withoutSong [⟨0, 1, 3⟩] 1 3) ∧
      (apply inOrder (apply inOrder Store.initial (songAt 10)).2 (withoutSong [⟨0, 1, 3⟩] 1 3)).1.error =
        "" ∧
      (gather inOrder (apply inOrder Store.initial (songAt 10)).2
          (withoutSong [⟨0, 1, 3⟩] 1 3)).tombstones.size ≤
        (apply inOrder Store.initial (songAt 10)).2.tombstoneCapacity ∧
      ¬ Repeats inOrder inOrder (apply inOrder Store.initial (songAt 10)).2
        (withoutSong [⟨0, 1, 3⟩] 1 3) := by
  refine ⟨.snoc (.done _) rfl, nofun, by decide, by decide, fun repeats => ?_⟩
  have kept := repeats.tombstones ⟨Song, 1⟩
  revert kept
  decide

end Qcm.EntityRedeliveryProofs
