import Qcm.EntityMergeProofs

/-!
Batches of one instance leave the same entries in whatever order they are
applied, for the keys that are `Settled`.

An update lives when no batch announces a later epoch of its owner.  What is
left of a key is decided by the live updates that outlive every removal of it:
they are merged field by field, and if there are none a removal has the last
word.  Each order reaches that state, because every batch it applies leaves a
trace in the view of the key (`Progress`), and the entry holds nothing that did
not come from a batch (`Sourced`).
-/

namespace Qcm.EntityConvergenceProofs

open Lib Lib.Runs EntityStore EntityApplyProofs EntityKey EntityMergeProofs

/-- An update of the key in one of the batches. -/
def UpdateOf (batches : List EntityBatch) (key : Key) (u : Update) : Prop :=
  ∃ batch ∈ batches, u ∈ batch.updates ∧ u.key = key

/-- No batch announces a later epoch of the owner. -/
def Lives (batches : List EntityBatch) (stamp : ReadStamp) : Prop :=
  ∀ batch ∈ batches, ∀ reset ∈ batch.invalidations, reset.owner = stamp.owner →
    reset.epoch ≤ stamp.epoch

/-- The stamp of a removal of the key that no live update in its own batch outdates. -/
def Deletes (batches : List EntityBatch) (key : Key) (stamp : ReadStamp) : Prop :=
  ∃ batch ∈ batches, ∃ removal ∈ batch.removals, Removal.key removal = key ∧
    removal.stamp = stamp ∧ ∀ u ∈ batch.updates, u.key = key → Lives batches u.stamp →
      u.stamp.revision ≤ stamp.revision

/-- A live update of the key that is newer than every deletion of it. -/
structure Outlives (batches : List EntityBatch) (key : Key) (u : Update) : Prop where
  source : UpdateOf batches key u
  lives : Lives batches u.stamp
  newer : ∀ stamp, Deletes batches key stamp → stamp.revision < u.stamp.revision

/-- Two updates of one key at one revision agree on the fields both carry. -/
def Consistent (batches : List EntityBatch) : Prop :=
  ∀ key u v, UpdateOf batches key u → UpdateOf batches key v →
    u.stamp.revision = v.stamp.revision →
    ∀ a b, .assign a ∈ u.steps → .assign b ∈ v.steps → a.slot = b.slot →
      a.incoming = b.incoming ∧ a.isNull = b.isNull

/-- What makes the order of the batches immaterial for a key. -/
structure Settled (batches : List EntityBatch) (key : Key) : Prop where
  /-- The key is updated under one owner. -/
  owner : ∀ u v, UpdateOf batches key u → UpdateOf batches key v → u.stamp.owner = v.stamp.owner
  /-- Where an update outlives the deletions, those that do carry every field the live updates carry. -/
  fields : ∀ w, Outlives batches key w → ∀ u, UpdateOf batches key u → Lives batches u.stamp →
    ∀ slot, Carries u.steps slot → ∃ w, Outlives batches key w ∧ Carries w.steps slot
  /-- Where none does, a live deletion is at least as new as every update. -/
  deleted : ∀ u, UpdateOf batches key u → Lives batches u.stamp →
    (∀ w, ¬ Outlives batches key w) → ∃ stamp, Deletes batches key stamp ∧ Lives batches stamp ∧
      ∀ u, UpdateOf batches key u → u.stamp.revision ≤ stamp.revision

variable {batches : List EntityBatch} {key : Key} {entry before after : Entry} {u : Update}

/-! ## Where the content of an entry comes from -/

/-- The value of a field that no update carried. -/
def initialContent (kind : Kind) : Field → Value
  | .album => .link none
  | .artists => .ids []
  | .favorite => .flag none
  | slot => kind.initial slot

def presenceOf (entry : Entry) : Nat := (entry.versions .presence).getD 0

/-- A field of an entry is as an update of the key left it. -/
def FieldFrom (batches : List EntityBatch) (key : Key) (entry : Entry) (slot : Field)
    (seen : Nat) : Prop :=
  ∃ u a, UpdateOf batches key u ∧ .assign a ∈ u.steps ∧ a.slot = slot ∧
    u.stamp.revision = seen ∧ u.stamp.owner = entry.owner ∧ u.stamp.epoch = entry.epoch ∧
    entry.content slot = a.incoming ∧ (slot ∈ entry.nulls ↔ a.isNull = true)

/-- Everything in an entry comes from updates of its key under its owner and epoch. -/
structure Sourced (batches : List EntityBatch) (key : Key) (entry : Entry) : Prop where
  kind : entry.data.kind = kindOf key.type
  id : entry.data.id = key.id
  link : entry.data.albumId = entry.album
  ready : entry.stale = false
  apart : ∀ slot, Field.apart slot = true → entry.data.values slot = entry.data.kind.initial slot
  presence : ∃ u, UpdateOf batches key u ∧ entry.versions .presence = some u.stamp.revision ∧
    u.stamp.owner = entry.owner ∧ u.stamp.epoch = entry.epoch
  present : .presence ∉ entry.nulls
  newest : ∀ slot seen, entry.versions slot = some seen → seen ≤ presenceOf entry
  set : ∀ slot, slot ≠ .presence → ∀ seen, entry.versions slot = some seen →
    FieldFrom batches key entry slot seen
  unset : ∀ slot, slot ≠ .presence → entry.versions slot = none →
    entry.content slot = initialContent entry.data.kind slot ∧ slot ∉ entry.nulls

variable {event : Event} {seen : List Event} {start : Store} {order : List EntityBatch}

theorem Sourced.touch (sourced : Sourced batches key entry) (clock : Nat) :
    Sourced batches key { entry with touched := clock } :=
  { sourced with }

private theorem prepared_presence (u : Update) (entry : Entry) :
    (prepared u entry).versions .presence = some (max (presenceOf entry) u.stamp.revision) := by
  simp [prepared, presenceOf]

theorem prepared_versions (u : Update) (entry : Entry) {slot : Field} (other : slot ≠ .presence) :
    (prepared u entry).versions slot = entry.versions slot :=
  Function.update_of_ne other _ _

theorem content_prepared (u : Update) (entry : Entry) (slot : Field) :
    (prepared u entry).content slot = entry.content slot := by
  cases slot <;> rfl

private theorem presenceOf_prepared (u : Update) (entry : Entry) :
    presenceOf (prepared u entry) = max (presenceOf entry) u.stamp.revision := by
  rw [presenceOf, prepared_presence, Option.getD_some]

private theorem fresh_sourced (source : UpdateOf batches key u) :
    Sourced batches key (prepared u (freshEntry u)) := by
  obtain ⟨batch, held, member, rfl⟩ := source
  have data := update_data member
  have blank : ∀ slot, slot ≠ .presence → (prepared u (freshEntry u)).versions slot = none :=
    fun slot other => prepared_versions u _ other
  have presence := prepared_presence u (freshEntry u)
  refine ⟨?_, ?_, ?_, rfl, ?_, ⟨u, ⟨batch, held, member, rfl⟩, ?_, rfl, rfl⟩, ?_, ?_, ?_, ?_⟩
  · change u.data.kind = _
    rw [data]
    rfl
  · change u.data.id = _
    rw [data]
    rfl
  · change u.data.albumId = none
    rw [data]
    rfl
  · intro slot _
    change u.data.values slot = u.data.kind.initial slot
    rw [data]
    rfl
  · rw [presence]
    simp [presenceOf, freshEntry]
  · exact Finset.notMem_empty _
  · intro slot seen found
    by_cases other : slot = .presence
    · subst other
      rw [presenceOf, found, Option.getD_some]
    · rw [blank slot other] at found
      contradiction
  · intro slot other seen found
    rw [blank slot other] at found
    contradiction
  · intro slot other _
    refine ⟨?_, Finset.notMem_empty _⟩
    rw [content_prepared]
    change (freshEntry u).content slot = initialContent u.data.kind slot
    have values : u.data.values = u.data.kind.initial := by
      rw [data]
      rfl
    cases slot <;> first
      | rfl
      | exact congrFun values _

private theorem found_sourced (source : UpdateOf batches key u)
    (sourced : Sourced batches key entry) (owner : u.stamp.owner = entry.owner)
    (epoch : u.stamp.epoch = entry.epoch) : Sourced batches key (prepared u entry) := by
  refine { sourced with ready := rfl, presence := ?_, newest := ?_, set := ?_, unset := ?_ }
  · obtain ⟨v, from_v, version, owner_v, epoch_v⟩ := sourced.presence
    have seen : presenceOf entry = v.stamp.revision := by rw [presenceOf, version, Option.getD_some]
    by_cases newer : u.stamp.revision ≤ presenceOf entry
    · refine ⟨v, from_v, ?_, owner_v, epoch_v⟩
      rw [prepared_presence, Nat.max_eq_left newer, seen]
    · refine ⟨u, source, ?_, owner, epoch⟩
      rw [prepared_presence, Nat.max_eq_right (Nat.le_of_not_le newer)]
  · intro slot seen found
    rw [presenceOf_prepared]
    by_cases other : slot = .presence
    · subst other
      rw [prepared_presence] at found
      cases found
      exact le_rfl
    · rw [prepared_versions u entry other] at found
      exact Nat.le_trans (sourced.newest slot seen found) (Nat.le_max_left _ _)
  · intro slot other seen found
    rw [prepared_versions u entry other] at found
    obtain ⟨v, a, from_v, member, same, revision, owner_v, epoch_v, content, null⟩ :=
      sourced.set slot other seen found
    exact ⟨v, a, from_v, member, same, revision, owner_v, epoch_v,
      (content_prepared u entry slot).trans content, null⟩
  · intro slot other found
    rw [prepared_versions u entry other] at found
    rw [content_prepared]
    exact sourced.unset slot other found

private theorem merged_sourced (source : UpdateOf batches key u)
    (sourced : Sourced batches key before) (owner : u.stamp.owner = before.owner)
    (epoch : u.stamp.epoch = before.epoch) (present : u.stamp.revision ≤ presenceOf before)
    (merged : Merged u.stamp.revision u.steps before after) : Sourced batches key after := by
  have untouched : SameField before after .presence :=
    merged.other .presence fun ⟨a, _, same⟩ => slot_ne_presence a same
  have presence : presenceOf after = presenceOf before := by
    rw [presenceOf, untouched.version, presenceOf]
  have frame := merged.frame
  refine ⟨frame.kind.trans sourced.kind, frame.id.trans sourced.id, frame.link sourced.link,
    frame.stale.trans sourced.ready, ?_, ?_, fun null => sourced.present (untouched.null.mp null),
    ?_, ?_, ?_⟩
  · intro slot set
    rw [frame.apart slot set, frame.kind, sourced.apart slot set]
  · obtain ⟨v, from_v, version, owner_v, epoch_v⟩ := sourced.presence
    exact ⟨v, from_v, untouched.version.trans version, owner_v.trans frame.owner.symm,
      epoch_v.trans frame.epoch.symm⟩
  · intro slot seen found
    rw [presence]
    obtain same | ⟨a, member, _, version, _, _⟩ := merged.field slot
    · exact sourced.newest slot seen (same.version.symm.trans found)
    · cases version.symm.trans found
      exact present
  · intro slot other seen found
    obtain same | ⟨a, member, here, version, content, null⟩ := merged.field slot
    · obtain ⟨v, b, from_v, held, here, revision, owner_v, epoch_v, content, null⟩ :=
        sourced.set slot other seen (same.version.symm.trans found)
      exact ⟨v, b, from_v, held, here, revision, owner_v.trans frame.owner.symm,
        epoch_v.trans frame.epoch.symm, same.content.trans content, same.null.trans null⟩
    · cases version.symm.trans found
      exact ⟨u, a, source, member, here, rfl, owner.trans frame.owner.symm,
        epoch.trans frame.epoch.symm, content, null⟩
  · intro slot other found
    obtain same | ⟨_, _, _, version, _, _⟩ := merged.field slot
    · obtain ⟨content, null⟩ := sourced.unset slot other (same.version.symm.trans found)
      exact ⟨same.content.trans (content.trans (by rw [frame.kind])), fun set => null (same.null.mp set)⟩
    · rw [version] at found
      contradiction

/-- No version of a field goes down. -/
def Grows (before after : Entry) : Prop :=
  ∀ slot seen, before.versions slot = some seen → ∃ later, after.versions slot = some later ∧ seen ≤ later

private theorem merged_grows {revision : Nat} {steps : List Step}
    (merged : Merged revision steps before after) : Grows before after := by
  intro slot seen found
  by_cases level : revision ≤ seen
  · exact ⟨seen, (merged.level slot seen found level).version.trans found, le_rfl⟩
  by_cases carried : Carries steps slot
  · obtain ⟨a, member, rfl⟩ := carried
    refine ⟨revision, (merged.set a member fun other same => ?_).1, by omega⟩
    cases found.symm.trans same
    omega
  · exact ⟨seen, (merged.other slot carried).version.trans found, le_rfl⟩

private theorem prepared_grows (u : Update) (entry : Entry) : Grows entry (prepared u entry) := by
  intro slot seen found
  by_cases other : slot = .presence
  · subst other
    refine ⟨_, prepared_presence u entry, ?_⟩
    rw [presenceOf, found, Option.getD_some]
    exact Nat.le_max_left _ _
  · exact ⟨seen, (prepared_versions u entry other).trans found, le_rfl⟩

private theorem Grows.trans {first second third : Entry} (one : Grows first second)
    (two : Grows second third) : Grows first third := by
  intro slot seen found
  obtain ⟨later, held, above⟩ := one slot seen found
  obtain ⟨last, held, beyond⟩ := two slot later held
  exact ⟨last, held, Nat.le_trans above beyond⟩

/-- An entry has an update in it: every field the update carries is as new. -/
structure Holds (u : Update) (entry : Entry) : Prop where
  presence : u.stamp.revision ≤ presenceOf entry
  fields : ∀ a, .assign a ∈ u.steps →
    ∃ seen, entry.versions a.slot = some seen ∧ u.stamp.revision ≤ seen

private theorem Grows.presence (grows : Grows before after)
    (sourced : Sourced batches key before) : presenceOf before ≤ presenceOf after := by
  obtain ⟨u, _, version, _⟩ := sourced.presence
  obtain ⟨later, held, above⟩ := grows .presence _ version
  rwa [presenceOf, version, presenceOf, held, Option.getD_some, Option.getD_some]

private theorem Holds.grow (holds : Holds u before) (grows : Grows before after)
    (sourced : Sourced batches key before) : Holds u after := by
  refine ⟨Nat.le_trans holds.presence (grows.presence sourced), fun a member => ?_⟩
  obtain ⟨seen, found, above⟩ := holds.fields a member
  obtain ⟨later, held, beyond⟩ := grows a.slot seen found
  exact ⟨later, held, by omega⟩

/-- A merge that does not fail leaves a sourced entry that holds the update and
everything the entry held before. -/
private theorem merge_effect (source : UpdateOf batches key u) {current : Option Entry}
    (clean : (merge u current).error = "")
    (found : ∀ entry, current = some entry → Sourced batches key entry ∧
      u.stamp.owner = entry.owner ∧ u.stamp.epoch = entry.epoch) :
    Sourced batches key (merge u current).entry ∧ Holds u (merge u current).entry ∧
      (merge u current).entry.owner = u.stamp.owner ∧
      (merge u current).entry.epoch = u.stamp.epoch ∧
      ∀ entry, current = some entry → Grows entry (merge u current).entry := by
  obtain ⟨batch, held, member, rfl⟩ := source
  have source : UpdateOf batches u.key u := ⟨batch, held, member, rfl⟩
  have prior : Sourced batches u.key (prepared u (current.getD (freshEntry u))) ∧
      u.stamp.owner = (current.getD (freshEntry u)).owner ∧
      u.stamp.epoch = (current.getD (freshEntry u)).epoch := by
    cases current with
    | none => exact ⟨fresh_sourced source, rfl, rfl⟩
    | some entry =>
      obtain ⟨sourced, owner, epoch⟩ := found entry rfl
      exact ⟨found_sourced source sourced owner epoch, owner, epoch⟩
  obtain ⟨sourced, owner, epoch⟩ := prior
  obtain ⟨_, merged⟩ := steps_merged (update_loud member) clean
  have present : u.stamp.revision ≤ presenceOf (prepared u (current.getD (freshEntry u))) := by
    rw [presenceOf_prepared]
    exact Nat.le_max_right _ _
  have after := merged_sourced source sourced owner epoch present merged
  refine ⟨after, ⟨?_, fun a assigned => ?_⟩, merged.frame.owner.trans owner.symm,
    merged.frame.epoch.trans epoch.symm, ?_⟩
  · obtain ⟨later, held, above⟩ := merged_grows merged .presence _ (prepared_presence u _)
    have presence : presenceOf (merge u current).entry = later := by
      rw [presenceOf, merge, held, Option.getD_some]
    rw [presenceOf_prepared] at present
    omega
  · by_cases level : ∃ seen, (prepared u (current.getD (freshEntry u))).versions a.slot = some seen ∧
        u.stamp.revision ≤ seen
    · obtain ⟨seen, found, above⟩ := level
      exact ⟨seen, (merged.level a.slot seen found above).version.trans found, above⟩
    · refine ⟨_, (merged.set a assigned fun seen found => ?_).1, le_rfl⟩
      by_contra above
      exact level ⟨seen, found, by omega⟩
  · rintro entry rfl
    exact (prepared_grows u entry).trans (merged_grows merged)

/-! ## What a batch does to a key -/

/-- What is known of a key while batches are applied. -/
structure Known (batches : List EntityBatch) (key : Key) (s : KeyState) : Prop where
  floor : s.floor = 0
  announced : ∀ owner, s.epochs owner = 0 ∨ ∃ batch ∈ batches, ∃ reset ∈ batch.invalidations,
    reset.owner = owner ∧ reset.epoch = s.epochs owner
  stored : ∀ entry, s.stored = some entry → Sourced batches key entry
  current : ∀ entry, s.current = some entry → Sourced batches key entry ∧
    entry.epoch = s.epochs entry.owner
  tombstone : ∀ revision, s.tombstone = some revision →
    ∃ stamp, Deletes batches key stamp ∧ stamp.revision = revision
  alive : ∀ entry revision, s.current = some entry → s.tombstone = some revision →
    revision < presenceOf entry

/-- The entry belongs to the owner and the epoch of an update. -/
structure Belongs (u : Update) (entry : Entry) : Prop where
  owner : entry.owner = u.stamp.owner
  epoch : entry.epoch = u.stamp.epoch

private theorem Belongs.carry {v : Update} (merged : Belongs v before) (belongs : Belongs u before)
    (after : Belongs v entry) : Belongs u entry :=
  ⟨after.owner.trans (merged.owner.symm.trans belongs.owner),
    after.epoch.trans (merged.epoch.symm.trans belongs.epoch)⟩

/-- An update that was met: a tombstone is as new, or the entry is. -/
def Covered (u : Update) (s : KeyState) : Prop :=
  (∃ revision, s.tombstone = some revision ∧ u.stamp.revision ≤ revision) ∨
    ∃ entry, s.current = some entry ∧ Belongs u entry ∧ u.stamp.revision ≤ presenceOf entry

/-- The current entry has an update in it. -/
def Kept (u : Update) (s : KeyState) : Prop :=
  ∃ entry, s.current = some entry ∧ Belongs u entry ∧ Holds u entry

/-- The key is dead up to a revision. -/
def Killed (revision : Nat) (s : KeyState) : Prop :=
  ∃ newest, s.tombstone = some newest ∧ revision ≤ newest

/-- A deletion that is live and at least as new as every update of the key. -/
def LastWord (batches : List EntityBatch) (key : Key) (stamp : ReadStamp) : Prop :=
  Lives batches stamp ∧ ∀ u, UpdateOf batches key u → u.stamp.revision ≤ stamp.revision

variable {s t : KeyState} {batch : EntityBatch}

private theorem epochs_le (known : Known batches key s) {stamp : ReadStamp}
    (lives : Lives batches stamp) : s.epochs stamp.owner ≤ stamp.epoch := by
  obtain zero | ⟨batch, held, reset, member, owner, epoch⟩ := known.announced stamp.owner
  · omega
  · rw [← epoch]
    exact lives batch held reset member owner

private theorem presence_le_latest (sourced : Sourced batches key entry) (rest : Option Entry) :
    presenceOf entry ≤ latest ((some entry).or rest) := by
  obtain ⟨u, _, version, _⟩ := sourced.presence
  change _ ≤ Finset.univ.sup _
  exact Finset.le_sup (f := fun slot => (entry.versions slot).getD 0) (Finset.mem_univ Field.presence)

private theorem latest_le (sourced : Sourced batches key entry) :
    latest (some entry) ≤ presenceOf entry := by
  refine Finset.sup_le fun slot _ => ?_
  cases found : entry.versions slot with
  | none => exact Nat.zero_le _
  | some seen => exact sourced.newest slot seen found

private theorem removal_deletes (known : Known batches key s) (held : batch ∈ batches)
    {removal : Removal} (member : removal ∈ batch.removals) (here : Removal.key removal = key)
    (covered : ∀ u ∈ batch.updates, u.key = key → Lives batches u.stamp → Covered u s)
    (newest : latest (s.current.or s.stored) ≤ removal.stamp.revision) :
    Deletes batches key removal.stamp ∨
      ∃ revision, s.tombstone = some revision ∧ removal.stamp.revision ≤ revision := by
  by_cases outdated : ∃ u ∈ batch.updates, u.key = key ∧ Lives batches u.stamp ∧
      removal.stamp.revision < u.stamp.revision
  · obtain ⟨u, updated, same, lives, newer⟩ := outdated
    obtain ⟨revision, tombstone, above⟩ | ⟨entry, current, _, above⟩ := covered u updated same lives
    · exact .inr ⟨revision, tombstone, by omega⟩
    · have bound := presence_le_latest (known.current entry current).1 s.stored
      rw [current] at newest
      omega
  · refine .inl ⟨batch, held, removal, member, here, rfl, fun u updated same lives => ?_⟩
    by_contra newer
    exact outdated ⟨u, updated, same, lives, by omega⟩

private theorem found_belongs (settled : Settled batches key) (known : Known batches key s)
    (source : UpdateOf batches key u) (taken : Takes s u) (current : s.current = some entry) :
    Sourced batches key entry ∧ Belongs u entry := by
  obtain ⟨sourced, epoch⟩ := known.current entry current
  obtain ⟨v, from_v, _, owner_v, _⟩ := sourced.presence
  have owner : entry.owner = u.stamp.owner := owner_v.symm.trans (settled.owner v u from_v source)
  exact ⟨sourced, owner, by rw [epoch, owner, taken.announced]⟩

private theorem merge_kept (settled : Settled batches key) (known : Known batches key s)
    (source : UpdateOf batches key u) (taken : Takes s u)
    (clean : (merge u s.current).error = "") :
    Sourced batches key (merge u s.current).entry ∧ Belongs u (merge u s.current).entry ∧
      Holds u (merge u s.current).entry ∧
      ∀ entry, s.current = some entry → Grows entry (merge u s.current).entry ∧ Belongs u entry := by
  obtain ⟨sourced, holds, owner, epoch, grows⟩ := merge_effect source clean fun entry current => by
    obtain ⟨sourced, belongs⟩ := found_belongs settled known source taken current
    exact ⟨sourced, belongs.owner.symm, belongs.epoch.symm⟩
  exact ⟨sourced, ⟨owner, epoch⟩, holds, fun entry current =>
    ⟨grows entry current, (found_belongs settled known source taken current).2⟩⟩

private theorem not_outdated (lives : Lives batches u.stamp) (held : batch ∈ batches)
    {reset : ReadStamp} (member : reset ∈ batch.invalidations) (belongs : Belongs u entry) :
    outdatedBy reset entry = false := by
  refine decide_eq_false fun ⟨owner, epoch⟩ => ?_
  have bound := lives batch held reset member (owner.symm.trans belongs.owner)
  have := belongs.epoch
  omega

private theorem known_step (settled : Settled batches key) (held : batch ∈ batches)
    (member : event ∈ events key batch) (known : Known batches key s)
    (covered : ∀ stamp, event = .remove stamp → ∀ u ∈ batch.updates, u.key = key → Lives batches u.stamp → Covered u s)
    (stepped : KeyStep s event t) : Known batches key t := by
  cases stepped with
  | known | rejected | passed => exact known
  | @bumped reset new unstaged =>
    have announced := mem_invalidate member
    refine ⟨known.floor, ?_, known.stored, ?_, known.tombstone, ?_⟩
    · intro owner
      by_cases here : owner = reset.owner
      · subst here
        exact .inr ⟨batch, held, reset, announced, rfl, by simp⟩
      · change Function.update s.epochs reset.owner reset.epoch owner = 0 ∨ _
        rw [Function.update_of_ne here]
        obtain zero | ⟨other, held, earlier, member, owner', epoch⟩ := known.announced owner
        · exact .inl zero
        · exact .inr ⟨other, held, earlier, member, owner', by
            rw [epoch]
            exact (Function.update_of_ne here _ _).symm⟩
    · intro entry current
      dsimp only at current
      split at current
      · contradiction
      · rename_i recent
        obtain ⟨sourced, epoch⟩ := known.current entry current
        refine ⟨sourced, epoch.trans (Function.update_of_ne ?_ _ _).symm⟩
        intro owner
        have stored : s.stored = some entry := by
          obtain none | same := unstaged
          · rw [none] at current
            contradiction
          · rw [← same, current]
        rw [stored, Option.any_some, outdatedBy, decide_eq_true_eq, not_and] at recent
        exact recent owner (by rw [epoch, owner]; exact new)
    · intro entry revision current tombstone
      dsimp only at current
      split at current
      · contradiction
      · exact known.alive entry revision current tombstone
  | @merged u taken clean =>
    obtain ⟨updated, here⟩ := mem_update member
    obtain ⟨sourced, belongs, holds, _⟩ :=
      merge_kept settled known ⟨batch, held, updated, here⟩ taken clean
    refine { known with current := ?_, alive := ?_ }
    · rintro entry ⟨⟩
      exact ⟨sourced, by rw [belongs.epoch, belongs.owner, taken.announced]⟩
    · rintro entry revision ⟨⟩ tombstone
      exact Nat.lt_of_lt_of_le (taken.alive revision tombstone) holds.presence
  | @removed stamp recent announced newest =>
    obtain ⟨removal, removes, here, rfl⟩ := mem_remove member
    refine ⟨known.floor, known.announced, known.stored, ?_, ?_, ?_⟩
    · intro entry current
      cases current
    · rintro revision ⟨⟩
      have deletes := removal_deletes known held removes here (covered _ rfl) newest
      cases tombstone : s.tombstone with
      | none =>
        obtain deletes | ⟨_, found, _⟩ := deletes
        · exact ⟨_, deletes, by simp⟩
        · rw [tombstone] at found
          contradiction
      | some older =>
        rw [Option.getD_some]
        by_cases above : removal.stamp.revision ≤ older
        · rw [Nat.max_eq_left above]
          exact known.tombstone older tombstone
        · obtain deletes | ⟨other, found, beyond⟩ := deletes
          · exact ⟨_, deletes, (Nat.max_eq_right (Nat.le_of_not_le above)).symm⟩
          · cases tombstone.symm.trans found
            contradiction
    · intro entry revision current
      cases current

private theorem killed_step {revision : Nat} (stepped : KeyStep s event t) (killed : Killed revision s) :
    Killed revision t := by
  obtain ⟨newest, tombstone, above⟩ := killed
  cases stepped with
  | removed => exact ⟨_, rfl, by rw [tombstone, Option.getD_some]; omega⟩
  | _ => exact ⟨newest, tombstone, above⟩

private theorem epochs_step (stepped : KeyStep s event t) (owner : Int) :
    s.epochs owner ≤ t.epochs owner := by
  cases stepped with
  | @bumped reset new _ =>
    by_cases here : owner = reset.owner
    · subst here
      simpa using Nat.le_of_lt new
    · simp [here]
  | _ => exact le_rfl

/-- The current entry a live update belongs to survives an announcement. -/
private theorem survives_bump (lives : Lives batches u.stamp) (held : batch ∈ batches)
    {reset : ReadStamp} (member : .invalidate reset ∈ events key batch)
    (unstaged : s.current = none ∨ s.current = s.stored) (current : s.current = some entry)
    (belongs : Belongs u entry) : (if s.stored.any (outdatedBy reset) then none else s.current) = some entry := by
  have announced := mem_invalidate member
  have stored : s.stored = some entry := by
    obtain none | same := unstaged
    · rw [none] at current
      contradiction
    · rw [← same, current]
  rw [stored, Option.any_some, not_outdated lives held announced belongs, current]
  rfl

section

variable (settled : Settled batches key) (held : batch ∈ batches) (member : event ∈ events key batch)
  (known : Known batches key s)
include settled held member known

private theorem covered_step (stepped : KeyStep s event t) (lives : Lives batches u.stamp)
    (covered : Covered u s) : Covered u t := by
  obtain killed | ⟨entry, current, belongs, above⟩ := covered
  · exact .inl (killed_step stepped killed)
  cases stepped with
  | known | rejected | passed => exact .inr ⟨entry, current, belongs, above⟩
  | bumped new unstaged =>
    exact .inr ⟨entry, survives_bump lives held member unstaged current belongs, belongs, above⟩
  | @merged v taken clean =>
    obtain ⟨updated, here⟩ := mem_update member
    obtain ⟨sourced, belongs', holds, grows⟩ :=
      merge_kept settled known ⟨batch, held, updated, here⟩ taken clean
    obtain ⟨grow, belonged⟩ := grows entry current
    have bound := grow.presence (known.current entry current).1
    exact .inr ⟨_, rfl, belonged.carry belongs belongs', by omega⟩
  | removed recent announced newest =>
    have bound := presence_le_latest (known.current entry current).1 s.stored
    rw [current] at newest
    exact .inl ⟨_, rfl, by omega⟩

private theorem kept_step
    (covered : ∀ stamp, event = .remove stamp → ∀ u ∈ batch.updates, u.key = key → Lives batches u.stamp → Covered u s)
    (stepped : KeyStep s event t) (outlives : Outlives batches key u) (kept : Kept u s) : Kept u t := by
  obtain ⟨entry, current, belongs, holds⟩ := kept
  cases stepped with
  | known | rejected | passed => exact ⟨entry, current, belongs, holds⟩
  | bumped new unstaged =>
    exact ⟨entry, survives_bump outlives.lives held member unstaged current belongs, belongs, holds⟩
  | @merged v taken clean =>
    obtain ⟨updated, here⟩ := mem_update member
    obtain ⟨_, belongs', _, grows⟩ :=
      merge_kept settled known ⟨batch, held, updated, here⟩ taken clean
    obtain ⟨grow, belonged⟩ := grows entry current
    exact ⟨_, rfl, belonged.carry belongs belongs', holds.grow grow (known.current entry current).1⟩
  | @removed stamp recent announced newest =>
    -- a removal that takes the entry away would be newer than the update in it
    obtain ⟨removal, removes, here, rfl⟩ := mem_remove member
    have deletes := removal_deletes known held removes here (covered _ rfl) newest
    have bound := presence_le_latest (known.current entry current).1 s.stored
    rw [current] at newest
    obtain deletes | ⟨revision, tombstone, above⟩ := deletes
    · have older := outlives.newer _ deletes
      have := holds.presence
      omega
    · have younger := known.alive entry revision current tombstone
      omega

end

/-- What the elements met so far have left of a key. -/
private structure Progress (batches : List EntityBatch) (key : Key) (seen : List Event)
    (s : KeyState) : Prop where
  known : Known batches key s
  resets : ∀ reset, .invalidate reset ∈ seen → reset.epoch ≤ s.epochs reset.owner
  covered : ∀ u, .update u ∈ seen → Lives batches u.stamp → Covered u s
  kept : ∀ u, .update u ∈ seen → Outlives batches key u → Kept u s
  killed : ∀ stamp, .remove stamp ∈ seen → LastWord batches key stamp → Killed stamp.revision s

private theorem update_met (settled : Settled batches key) (held : batch ∈ batches)
    (member : .update u ∈ events key batch) (known : Known batches key s)
    (stepped : KeyStep s (.update u) t) (lives : Lives batches u.stamp) :
    Covered u t ∧ (Outlives batches key u → Kept u t) := by
  obtain ⟨updated, here⟩ := mem_update member
  cases stepped with
  | rejected old =>
    obtain low | stale | ⟨revision, tombstone, above⟩ := old
    · rw [known.floor] at low
      omega
    · exact absurd (epochs_le known lives) (Nat.not_le.mpr stale)
    · refine ⟨.inl ⟨revision, tombstone, above⟩, fun outlives => ?_⟩
      obtain ⟨stamp, deletes, same⟩ := known.tombstone revision tombstone
      have older := outlives.newer stamp deletes
      omega
  | merged taken clean =>
    obtain ⟨_, belongs, holds, _⟩ :=
      merge_kept settled known ⟨batch, held, updated, here⟩ taken clean
    exact ⟨.inr ⟨_, rfl, belongs, holds.presence⟩, fun _ => ⟨_, rfl, belongs, holds⟩⟩

private theorem removal_met (known : Known batches key s) {stamp : ReadStamp}
    (stepped : KeyStep s (.remove stamp) t) (last : LastWord batches key stamp) :
    Killed stamp.revision t := by
  cases stepped with
  | removed => exact ⟨_, rfl, Nat.le_max_right _ _⟩
  | passed old =>
    have bound : ∀ entry, Sourced batches key entry → latest (some entry) ≤ stamp.revision := by
      intro entry sourced
      obtain ⟨u, source, version, _⟩ := sourced.presence
      have newest := latest_le sourced
      rw [presenceOf, version, Option.getD_some] at newest
      exact Nat.le_trans newest (last.2 u source)
    obtain low | stale | newer := old
    · rw [known.floor] at low
      omega
    · exact absurd (epochs_le known last.1) (Nat.not_le.mpr stale)
    · cases current : s.current with
      | some entry =>
        rw [current, Option.some_or] at newer
        exact absurd (bound entry (known.current entry current).1) (Nat.not_le.mpr newer)
      | none =>
        rw [current, Option.none_or] at newer
        cases stored : s.stored with
        | some entry =>
          rw [stored] at newer
          exact absurd (bound entry (known.stored entry stored)) (Nat.not_le.mpr newer)
        | none =>
          rw [stored] at newer
          exact absurd newer (Nat.not_lt_zero _)

private theorem progress_step (settled : Settled batches key) (held : batch ∈ batches)
    (member : event ∈ events key batch)
    (ready : ∀ stamp, event = .remove stamp → ∀ u ∈ batch.updates, u.key = key → .update u ∈ seen)
    (progress : Progress batches key seen s) (stepped : KeyStep s event t) :
    Progress batches key (seen ++ [event]) t := by
  have known := progress.known
  have covered : ∀ stamp, event = .remove stamp → ∀ u ∈ batch.updates, u.key = key →
      Lives batches u.stamp → Covered u s :=
    fun stamp removes u updated here => progress.covered u (ready stamp removes u updated here)
  refine ⟨known_step settled held member known covered stepped, ?_, ?_, ?_, ?_⟩
  · intro reset met
    obtain before | rfl := mem_snoc met
    · exact Nat.le_trans (progress.resets reset before) (epochs_step stepped reset.owner)
    · cases stepped with
      | known old => exact old
      | bumped => simp
  · intro u met lives
    obtain before | rfl := mem_snoc met
    · exact covered_step settled held member known stepped lives (progress.covered u before lives)
    · exact (update_met settled held member known stepped lives).1
  · intro u met outlives
    obtain before | rfl := mem_snoc met
    · exact kept_step settled held member known covered stepped outlives
        (progress.kept u before outlives)
    · exact (update_met settled held member known stepped outlives.lives).2 outlives
  · intro stamp met last
    obtain before | rfl := mem_snoc met
    · exact killed_step stepped (progress.killed stamp before last)
    · exact removal_met known stepped last

/-- A batch takes a key through all its elements: the updates are met before the
removals. -/
private theorem progress_batch (settled : Settled batches key) (held : batch ∈ batches)
    (progress : Progress batches key seen s) (follows : Follows KeyStep s (events key batch) t) :
    Progress batches key (seen ++ events key batch) t := by
  obtain ⟨early, late, whole, first, second⟩ : ∃ early late, events key batch = early ++ late ∧
      (∀ stamp, .remove stamp ∉ early) ∧
      ∀ u ∈ batch.updates, u.key = key → .update u ∈ early := by
    refine ⟨_, _, (List.append_assoc _ _ _).symm, ?_, ?_⟩
    · simp [updateEvent]
    · intro u updated here
      simp only [List.mem_append, List.mem_filterMap]
      exact .inr ⟨u, updated, by rw [updateEvent, if_pos here]⟩
  rw [whole] at follows
  obtain ⟨between, updates, removals⟩ := follows.split
  have met := updates.tracks (Progress batches key) (fun seen event s t member progress stepped =>
    progress_step settled held (whole ▸ List.mem_append_left _ member)
      (fun stamp removes => absurd (removes ▸ member) (first stamp)) progress stepped) progress
  have done := removals.tracks
    (fun seen s => Progress batches key seen s ∧
      ∀ u ∈ batch.updates, u.key = key → .update u ∈ seen)
    (fun seen event s t member inv stepped =>
      ⟨progress_step settled held (whole ▸ List.mem_append_right _ member)
        (fun _ _ => inv.2) inv.1 stepped,
        fun u updated here => List.mem_append_left _ (inv.2 u updated here)⟩)
    ⟨met, fun u updated here => List.mem_append_right _ (second u updated here)⟩
  rw [whole, ← List.append_assoc]
  exact done.1

/-- Committing a batch that trims nothing keeps what is known of a key. -/
private theorem progress_commit (progress : Progress batches key seen s) (committed : Committed s t)
    (floor : t.floor = s.floor) (tombstone : t.tombstone = s.tombstone) : Progress batches key seen t := by
  obtain ⟨clock, stored⟩ := committed.stored
  have known := progress.known
  have epochs := committed.epochs
  -- the entry is the one there was, with another clock
  have touched : ∀ entry, t.stored = some entry →
      ∃ before, s.current = some before ∧ entry = { before with touched := clock } := by
    intro entry found
    rw [stored] at found
    obtain ⟨before, current, same⟩ := Option.map_eq_some_iff.mp found
    exact ⟨before, current, same.symm⟩
  have current : ∀ entry, s.current = some entry →
      t.current = some { entry with touched := clock } := by
    intro entry found
    rw [committed.current, stored, found]
    rfl
  refine ⟨⟨by rw [floor, known.floor], by rw [epochs]; exact known.announced, ?_, ?_,
    by rw [tombstone]; exact known.tombstone, ?_⟩, by rw [epochs]; exact progress.resets, ?_, ?_, ?_⟩
  · intro entry found
    obtain ⟨before, held, rfl⟩ := touched entry found
    exact (known.current before held).1.touch clock
  · intro entry found
    rw [committed.current] at found
    obtain ⟨before, held, rfl⟩ := touched entry found
    obtain ⟨sourced, epoch⟩ := known.current before held
    exact ⟨sourced.touch clock, by rw [epochs]; exact epoch⟩
  · intro entry revision found dead
    rw [committed.current] at found
    obtain ⟨before, held, rfl⟩ := touched entry found
    rw [tombstone] at dead
    exact known.alive before revision held dead
  · intro u met lives
    obtain ⟨revision, dead, above⟩ | ⟨entry, held, belongs, above⟩ := progress.covered u met lives
    · exact .inl ⟨revision, tombstone.trans dead, above⟩
    · exact .inr ⟨_, current entry held, ⟨belongs.owner, belongs.epoch⟩, above⟩
  · intro u met outlives
    obtain ⟨entry, held, belongs, holds⟩ := progress.kept u met outlives
    exact ⟨_, current entry held, ⟨belongs.owner, belongs.epoch⟩, ⟨holds.presence, holds.fields⟩⟩
  · intro stamp met last
    obtain ⟨newest, dead, above⟩ := progress.killed stamp met last
    exact ⟨newest, tombstone.trans dead, above⟩

/-- A batch applied without an error, in some order of iteration. -/
def Accepted (s : Store) (batch : EntityBatch) (t : Store) : Prop :=
  ∃ iteration, (apply iteration s batch).1.error = "" ∧ t = (apply iteration s batch).2

/-- The keys the batches remove. -/
def removedKeys (batches : List EntityBatch) : List Key :=
  ((batches.flatMap EntityBatch.removals).map Removal.key).dedup

/-- A store before its first batch. -/
structure Fresh (store : Store) : Prop where
  entries : store.entries = ∅
  tombstones : store.tombstones = ∅
  epochs : store.epochs = ∅
  floor : store.floor = 0

/-- The tombstones of all removals fit, and there are no others. -/
private structure Roomy (batches : List EntityBatch) (store : Store) : Prop where
  room : (removedKeys batches).length ≤ store.tombstoneCapacity
  keys : ∀ key, (store.tombstones.lookup key).isSome → key ∈ removedKeys batches

private theorem tombstone_source {labels : List Event} (run : Follows KeyStep s labels t)
    (dead : t.tombstone.isSome) : s.tombstone.isSome ∨ ∃ stamp, .remove stamp ∈ labels := by
  induction run with
  | nil => exact .inl dead
  | @cons s t v event labels stepped rest ih =>
    obtain before | ⟨stamp, member⟩ := ih dead
    · cases stepped with
      | @removed stamp => exact .inr ⟨stamp, .head _⟩
      | _ => exact .inl before
    · exact .inr ⟨stamp, .tail _ member⟩

/-- An accepted batch for whose tombstones there is room takes every key through
its elements and commits it without trimming anything. -/
private theorem accepted_step {s t : Store} (held : batch ∈ batches) (roomy : Roomy batches s)
    (accepted : Accepted s batch t) :
    Roomy batches t ∧ ∀ key, ∃ v, Follows KeyStep (storeView s key) (events key batch) v ∧
      Committed v (storeView t key) ∧ (storeView t key).floor = v.floor ∧
      (storeView t key).tombstone = v.tombstone := by
  obtain ⟨iteration, clean, rfl⟩ := accepted
  have sources : ∀ key, ((gather iteration s batch).tombstones.lookup key).isSome →
      key ∈ removedKeys batches := by
    intro key dead
    have follows : Follows KeyStep (storeView s key) (events key batch) _ :=
      gather_follows (apply_committed clean key).1
    obtain before | ⟨stamp, member⟩ := tombstone_source follows dead
    · exact roomy.keys key before
    · obtain ⟨removal, removes, here, _⟩ := mem_remove member
      exact List.mem_dedup.mpr (List.mem_map.mpr
        ⟨removal, List.mem_flatMap.mpr ⟨batch, held, removes⟩, here⟩)
  have fits : (gather iteration s batch).tombstones.size ≤ s.tombstoneCapacity :=
    Nat.le_trans (Hash.size_le_of_keys _ (removedKeys batches) fun key member =>
      sources key (AList.lookup_isSome.mpr (AList.mem_keys.mpr member))) roomy.room
  obtain ⟨floor, tombstones⟩ := apply_keeps_tombstones clean fits
  refine ⟨⟨by rw [apply_capacity clean]; exact roomy.room, by rw [tombstones]; exact sources⟩,
    fun key => ?_⟩
  obtain ⟨quiet, committed⟩ := apply_committed clean key
  refine ⟨_, gather_follows quiet, committed, ?_, ?_⟩
  · change (apply iteration s batch).2.floor = (gather iteration s batch).store.floor
    rw [floor, gather_store]
  · change (apply iteration s batch).2.tombstones.lookup key = _
    rw [tombstones]
    rfl

private theorem fresh_progress (fresh : Fresh start) (batches : List EntityBatch) (key : Key) :
    Progress batches key [] (storeView start key) := by
  have stored : (storeView start key).stored = none := by
    simp [storeView, view, Run.start, fresh.entries]
  have current : (storeView start key).current = none := by
    simp [storeView, view, Run.start, fresh.entries]
  have tombstone : (storeView start key).tombstone = none := by
    simp [storeView, view, Run.start, fresh.tombstones]
  refine ⟨⟨fresh.floor, fun owner => .inl ?_, ?_, ?_, ?_, ?_⟩, ?_, ?_, ?_, ?_⟩
  · simp [storeView, view, Run.start, fresh.epochs, Hash.value]
  · simp [stored]
  · simp [current]
  · simp [tombstone]
  · simp [current]
  all_goals simp

private theorem run_progress {s : Store} (fresh : Fresh start)
    (window : (removedKeys batches).length ≤ start.tombstoneCapacity)
    (inside : ∀ batch ∈ order, batch ∈ batches) (run : Follows Accepted start order s)
    (settled : Settled batches key) :
    Progress batches key (order.flatMap (events key)) (storeView s key) := by
  have start_progress := fresh_progress fresh batches key
  have tracked := run.tracks
    (fun seen s => Roomy batches s ∧ Progress batches key (seen.flatMap (events key)) (storeView s key))
    (fun seen batch s t member inv accepted => by
      obtain ⟨roomy, views⟩ := accepted_step (inside batch member) inv.1 accepted
      obtain ⟨v, follows, committed, floor, tombstone⟩ := views key
      refine ⟨roomy, ?_⟩
      rw [List.flatMap_append, List.flatMap_singleton]
      exact progress_commit (progress_batch settled (inside batch member) inv.2 follows) committed
        floor tombstone)
    (show _ ∧ Progress batches key (([] : List EntityBatch).flatMap (events key)) _ from
      ⟨⟨window, by simp [fresh.tombstones]⟩, start_progress⟩)
  simpa using tracked.2

/-! ## Convergence -/

/-- An entry without the tick of its last use, which counts the batches. -/
def untimed (entry : Entry) : Entry := { entry with touched := 0 }

/-- What all batches together have left of a key. -/
private structure Finished (batches : List EntityBatch) (key : Key) (s : KeyState) : Prop where
  known : Known batches key s
  resets : ∀ stamp : ReadStamp, stamp.epoch = s.epochs stamp.owner → Lives batches stamp
  kept : ∀ u, Outlives batches key u → Kept u s
  killed : ∀ stamp, Deletes batches key stamp → LastWord batches key stamp →
    Killed stamp.revision s

private theorem run_finished {s : Store} (fresh : Fresh start)
    (window : (removedKeys batches).length ≤ start.tombstoneCapacity) (same : order.Perm batches)
    (run : Follows Accepted start order s) (settled : Settled batches key) :
    Finished batches key (storeView s key) := by
  have progress := run_progress fresh window (fun batch member => same.mem_iff.mp member) run settled
  have met : ∀ batch ∈ batches, ∀ event ∈ events key batch, event ∈ order.flatMap (events key) :=
    fun batch held event member => List.mem_flatMap.mpr ⟨batch, same.mem_iff.mpr held, member⟩
  refine ⟨progress.known, ?_, ?_, ?_⟩
  · intro stamp announced batch held reset member owner
    rw [announced, ← owner]
    exact progress.resets reset (met batch held _ (mem_events.mpr (.inl ⟨reset, member, rfl⟩)))
  · intro u outlives
    obtain ⟨batch, held, member, here⟩ := outlives.source
    exact progress.kept u
      (met batch held _ (mem_events.mpr (.inr (.inl ⟨u, member, here, rfl⟩)))) outlives
  · rintro _ ⟨batch, held, removal, member, here, rfl, _⟩ last
    exact progress.killed _
      (met batch held _ (mem_events.mpr (.inr (.inr ⟨removal, member, here, rfl⟩)))) last

private theorem source_lives (finished : Finished batches key s) (current : s.current = some entry)
    (owner : u.stamp.owner = entry.owner) (epoch : u.stamp.epoch = entry.epoch) :
    Lives batches u.stamp :=
  finished.resets u.stamp
    (by rw [epoch, owner]; exact (finished.known.current entry current).2)

/-- Where no update outlives the deletions, nothing is left of the key. -/
private theorem finished_absent (settled : Settled batches key) (finished : Finished batches key s)
    (dead : ∀ w, ¬ Outlives batches key w) : s.current = none := by
  cases current : s.current with
  | none => rfl
  | some entry =>
    obtain ⟨sourced, _⟩ := finished.known.current entry current
    obtain ⟨u, source, version, owner, epoch⟩ := sourced.presence
    have lives := source_lives finished current owner epoch
    obtain ⟨stamp, deletes, last⟩ := settled.deleted u source lives dead
    obtain ⟨newest, tombstone, above⟩ := finished.killed stamp deletes last
    have alive := finished.known.alive entry newest current tombstone
    have covered := last.2 u source
    rw [presenceOf, version, Option.getD_some] at alive
    omega

/-- Where one does, each order keeps at least what another keeps. -/
private theorem finished_grows {left right : Entry} (settled : Settled batches key)
    (one : Finished batches key s) (two : Finished batches key t) {w : Update}
    (outlives : Outlives batches key w) (first : s.current = some left)
    (second : t.current = some right) : Grows left right := by
  -- an update that is as new as one that outlives the deletions is kept
  have kept : ∀ {v v' : Update}, UpdateOf batches key v → Lives batches v.stamp →
      Outlives batches key v' → v'.stamp.revision ≤ v.stamp.revision → Holds v right := by
    intro v v' source lives outlives above
    have newer := fun stamp deletes => Nat.lt_of_lt_of_le (outlives.newer stamp deletes) above
    obtain ⟨entry, current, _, holds⟩ := two.kept v ⟨source, lives, newer⟩
    cases second.symm.trans current
    exact holds
  have held : ∀ {v : Update}, Outlives batches key v → Holds v left := by
    intro v outlives
    obtain ⟨entry, current, _, holds⟩ := one.kept v outlives
    cases first.symm.trans current
    exact holds
  obtain ⟨sourced, _⟩ := one.known.current left first
  obtain ⟨sourced', _⟩ := two.known.current right second
  intro slot seen found
  by_cases other : slot = .presence
  · subst other
    obtain ⟨v, source, version, owner, epoch⟩ := sourced.presence
    have above := (held outlives).presence
    rw [presenceOf, version, Option.getD_some] at above
    have holds := kept source (source_lives one first owner epoch) outlives above
    cases found.symm.trans version
    obtain ⟨v', _, version', _⟩ := sourced'.presence
    refine ⟨_, version', ?_⟩
    have bound := holds.presence
    rwa [presenceOf, version', Option.getD_some] at bound
  · obtain ⟨v, a, source, member, here, revision, owner, epoch, _⟩ :=
      sourced.set slot other seen found
    have lives := source_lives one first owner epoch
    obtain ⟨w', outlives', b, member', here'⟩ :=
      settled.fields w outlives v source lives slot ⟨a, member, here⟩
    obtain ⟨seen', found', above⟩ := (held outlives').fields b member'
    rw [here'] at found'
    cases found.symm.trans found'
    obtain ⟨later, version, bound⟩ := (kept source lives outlives' (by omega)).fields a member
    exact ⟨later, here ▸ version, by omega⟩

private theorem sourced_same {left right : Entry} (consistent : Consistent batches)
    (one : Sourced batches key left) (two : Sourced batches key right)
    (owner : left.owner = right.owner) (epoch : left.epoch = right.epoch)
    (versions : left.versions = right.versions) : untimed left = untimed right := by
  have kind : left.data.kind = right.data.kind := one.kind.trans two.kind.symm
  have fields : ∀ slot, slot ≠ .presence →
      left.content slot = right.content slot ∧ (slot ∈ left.nulls ↔ slot ∈ right.nulls) := by
    intro slot other
    cases found : left.versions slot with
    | none =>
      obtain ⟨content, null⟩ := one.unset slot other found
      obtain ⟨content', null'⟩ := two.unset slot other (versions ▸ found)
      exact ⟨by rw [content, content', kind], iff_of_false null null'⟩
    | some seen =>
      obtain ⟨u, a, source, member, here, revision, _, _, content, null⟩ :=
        one.set slot other seen found
      obtain ⟨v, b, source', member', here', revision', _, _, content', null'⟩ :=
        two.set slot other seen (versions ▸ found)
      obtain ⟨incoming, isNull⟩ := consistent key u v source source'
        (revision.trans revision'.symm) a b member member' (here.trans here'.symm)
      exact ⟨by rw [content, content', incoming], by rw [null, null', isNull]⟩
  have album : left.album = right.album := by
    have := (fields .album (by decide)).1
    simpa [Entry.content] using this
  have artists : left.artists = right.artists := by
    have := (fields .artists (by decide)).1
    simpa [Entry.content] using this
  have favorite : left.favorite = right.favorite := by
    have := (fields .favorite (by decide)).1
    simpa [Entry.content] using this
  have values : left.data.values = right.data.values := by
    funext slot
    cases set : Field.apart slot with
    | true => rw [one.apart slot set, two.apart slot set, kind]
    | false =>
      have other : slot ≠ .presence := fun here => by
        rw [here] at set
        contradiction
      rw [← content_property left set, ← content_property right set]
      exact (fields slot other).1
  have nulls : left.nulls = right.nulls := by
    ext slot
    by_cases other : slot = .presence
    · rw [other]
      exact iff_of_false one.present two.present
    · exact (fields slot other).2
  have id : left.data.id = right.data.id := one.id.trans two.id.symm
  have link : left.data.albumId = right.data.albumId :=
    one.link.trans (album.trans two.link.symm)
  have stale : left.stale = right.stale := one.ready.trans two.ready.symm
  obtain ⟨⟨_, _, _, _⟩, _, _, _, _, _, _, _, _, _⟩ := left
  obtain ⟨⟨_, _, _, _⟩, _, _, _, _, _, _, _, _, _⟩ := right
  simp_all [untimed]

/-- Two runs over the same batches, in whatever order, leave the same entry of
every settled key. -/
theorem settled_keys_converge {start s t : Store} {left right : List EntityBatch}
    (fresh : Fresh start) (one : Follows Accepted start left s)
    (two : Follows Accepted start right t) (same : left.Perm right)
    (consistent : Consistent left)
    (window : (removedKeys left).length ≤ start.tombstoneCapacity) (key : Key)
    (settled : Settled left (canonical key)) :
    (find s key).map untimed = (find t key).map untimed := by
  have first := run_finished fresh window (List.Perm.refl left) one settled
  have second := run_finished fresh window same.symm two settled
  have seen : ∀ store : Store, (storeView store (canonical key)).current = find store key :=
    fun store => by simp [storeView, view, Run.start, find]
  rw [← seen s, ← seen t]
  by_cases dead : ∀ w, ¬ Outlives left (canonical key) w
  · rw [finished_absent settled first dead, finished_absent settled second dead]
  obtain ⟨w, outlives⟩ := not_forall_not.mp dead
  obtain ⟨entry, current, belongs, _⟩ := first.kept w outlives
  obtain ⟨entry', current', belongs', _⟩ := second.kept w outlives
  rw [current, current', Option.map_some, Option.map_some, Option.some_inj]
  have up := finished_grows settled first second outlives current current'
  have down := finished_grows settled second first outlives current' current
  refine sourced_same consistent (first.known.current entry current).1
    (second.known.current entry' current').1 (belongs.owner.trans belongs'.owner.symm)
    (belongs.epoch.trans belongs'.epoch.symm) (funext fun slot => ?_)
  cases found : entry.versions slot with
  | none =>
    cases found' : entry'.versions slot with
    | none => rfl
    | some seen =>
      obtain ⟨_, absurd, _⟩ := down slot seen found'
      rw [found] at absurd
      contradiction
  | some seen =>
    obtain ⟨later, found', above⟩ := up slot seen found
    obtain ⟨last, again, below⟩ := down slot later found'
    cases found.symm.trans again
    rw [found', Nat.le_antisymm above below]

private theorem settled_of_no_removals
    (owner : ∀ u v, UpdateOf batches key u → UpdateOf batches key v → u.stamp.owner = v.stamp.owner)
    (none : ∀ batch ∈ batches, batch.removals = []) : Settled batches key := by
  have outlives : ∀ u, UpdateOf batches key u → Lives batches u.stamp → Outlives batches key u := by
    refine fun u source lives => ⟨source, lives, ?_⟩
    rintro stamp ⟨batch, held, removal, member, _⟩
    rw [none batch held] at member
    contradiction
  exact ⟨owner, fun _ _ u source lives _ carries => ⟨u, outlives u source lives, carries⟩,
    fun u source lives dead => absurd (outlives u source lives) (dead u)⟩

/-- A batch of one update of song 1. -/
def songUpdate (revision : Nat) (fields : SongFields) : EntityBatch :=
  { protocol := 2, instanceName := "backend"
    songs := [⟨1, ⟨0, 0, revision⟩, fields, none, none, none⟩] }

/-- A batch that removes song 1. -/
def songRemoval (revision : Nat) : EntityBatch :=
  { protocol := 2, instanceName := "backend", removals := [⟨1, Song, ⟨0, 0, revision⟩⟩] }

def named : EntityBatch := songUpdate 1 { name := some "song" }
def timed : EntityBatch := songUpdate 3 { duration := some 180 }

/-- The store after the batches, which are applied in the order of insertion. -/
def applyAll (batches : List EntityBatch) : Store :=
  batches.foldl (fun store batch => (apply inOrder store batch).2) Store.initial

private theorem fresh_initial : Fresh Store.initial := ⟨rfl, rfl, rfl, rfl⟩

private theorem accepted {s : Store} (clean : (apply inOrder s batch).1.error = "") :
    Accepted s batch (apply inOrder s batch).2 :=
  ⟨inOrder, clean, rfl⟩

private theorem song_update (known : order ⊆ [named, songRemoval 2, timed]) (source : UpdateOf order key u) :
    u.stamp.owner = 0 ∧
      ((u.stamp.revision = 1 ∧ u.steps = [.assign ⟨.name, .text "song", false, rfl⟩]) ∨
        (u.stamp.revision = 3 ∧ u.steps = [.assign ⟨.duration, .real 180, false, rfl⟩])) := by
  obtain ⟨batch, held, member, _⟩ := source
  have held := known held
  simp only [List.mem_cons, List.not_mem_nil, or_false] at held
  obtain rfl | rfl | rfl := held
  · cases List.mem_singleton.mp member
    exact ⟨rfl, .inl ⟨rfl, rfl⟩⟩
  · contradiction
  · cases List.mem_singleton.mp member
    exact ⟨rfl, .inr ⟨rfl, rfl⟩⟩

private theorem songs_consistent (known : order ⊆ [named, songRemoval 2, timed]) : Consistent order := by
  intro key u v from_u from_v revision a b member member' here
  obtain ⟨_, ⟨one, steps⟩ | ⟨one, steps⟩⟩ := song_update known from_u
  all_goals
    obtain ⟨_, ⟨two, steps'⟩ | ⟨two, steps'⟩⟩ := song_update known from_v
    all_goals first
      | omega
      | rw [steps, List.mem_singleton] at member
        rw [steps', List.mem_singleton] at member'
        cases member
        cases member'
        exact ⟨rfl, rfl⟩

/-- The removal at 2 takes the name away when it comes before the update at 3,
and is passed over, without a tombstone, when it comes after. -/
theorem overtaken_removal_leaves_older_fields :
    ∃ s t, Fresh Store.initial ∧ Follows Accepted Store.initial [named, songRemoval 2, timed] s ∧
      Follows Accepted Store.initial [named, timed, songRemoval 2] t ∧
      [named, songRemoval 2, timed].Perm [named, timed, songRemoval 2] ∧
      Consistent [named, songRemoval 2, timed] ∧
      (removedKeys [named, songRemoval 2, timed]).length ≤ Store.initial.tombstoneCapacity ∧
      (find s ⟨Song, 1⟩).map untimed ≠ (find t ⟨Song, 1⟩).map untimed := by
  refine ⟨applyAll [named, songRemoval 2, timed], applyAll [named, timed, songRemoval 2],
    fresh_initial,
    .cons (accepted (by decide)) (.cons (accepted (by decide)) (.cons (accepted (by decide)) (.nil _))),
    .cons (accepted (by decide)) (.cons (accepted (by decide)) (.cons (accepted (by decide)) (.nil _))),
    .cons _ (.swap _ _ _), songs_consistent fun _ => id, by decide, fun same => ?_⟩
  have name := congrArg (Option.map fun entry => entry.known .name) same
  revert name
  decide

theorem updates_converge :
    (find (applyAll [named, timed]) ⟨Song, 1⟩).map untimed =
      (find (applyAll [timed, named]) ⟨Song, 1⟩).map untimed :=
  settled_keys_converge fresh_initial
    (.cons (accepted (by decide)) (.cons (accepted (by decide)) (.nil _)))
    (.cons (accepted (by decide)) (.cons (accepted (by decide)) (.nil _)))
    (.swap _ _ _) (songs_consistent (by simp)) (by decide) _
    (settled_of_no_removals
      (fun u v from_u from_v =>
        ((song_update (by simp) from_u).1).trans ((song_update (by simp) from_v).1).symm)
      (by decide))

end Qcm.EntityConvergenceProofs
