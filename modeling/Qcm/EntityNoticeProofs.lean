import Qcm.EntityOrigins
import Qcm.EntityPropagation
import Qcm.EntityRuns

/-!
What `apply` changes, it reports.

While a batch is gathered, every field in which an entry comes to differ from the
stored one is marked (`Noted`).  Pruning takes a mark away only where the values
and the null flags agree, since the entries are `Formed`: a field without a
version has the value it began with, and so has one that is null.  What refers to
an artist or album whose name or presence changed is marked by the loop at the
end.
-/

namespace Qcm.EntityNoticeProofs

open Lib Lib.Runs EntityStore EntityApplyProofs EntityKey EntityMergeProofs
open EntityConvergenceProofs EntityPhases EntityOrigins EntityPropagation
open EntityRuns

variable {iteration : Iteration} {store : Store} {batch : EntityBatch} {key : Key} {sizes : Sizes}
  {entry before after : Entry} {slot : Field} {u : Update}

/-! ## Marks while the batch is gathered -/

/-- The two entries agree on a field: whether it has a version, its value and
whether it is null. -/
structure Alike (before after : Entry) (slot : Field) : Prop where
  known : after.known slot = before.known slot
  content : after.content slot = before.content slot
  null : slot ∈ after.nulls ↔ slot ∈ before.nulls

variable {run : EntityStore.Run}

theorem Alike.refl (entry : Entry) (slot : Field) : Alike entry entry slot := ⟨rfl, rfl, .rfl⟩

theorem Alike.trans {first second third : Entry} (one : Alike first second slot)
    (two : Alike second third slot) : Alike first third slot :=
  ⟨two.known.trans one.known, two.content.trans one.content, two.null.trans one.null⟩

theorem alike_of_same (same : SameField before after slot) : Alike before after slot :=
  ⟨by rw [Entry.known, same.version, Entry.known], same.content, same.null⟩

private theorem assign_noted (revision : Nat) (edit : Edit) (a : Assignment) (slot : Field) :
    edit.fields ⊆ (assign revision edit a).fields ∧
      (slot ∈ (assign revision edit a).fields ∨ Alike edit.entry (assign revision edit a).entry slot) := by
  unfold assign
  dsimp only
  split
  · exact ⟨Finset.Subset.refl _, .inr (.refl _ _)⟩
  split
  · unfold Edit.fail
    split <;> exact ⟨Finset.Subset.refl _, .inr (.refl _ _)⟩
  split
  · refine ⟨Finset.subset_insert _ _, ?_⟩
    by_cases here : slot = a.slot
    · exact .inl (here ▸ Finset.mem_insert_self _ _)
    · exact .inr (alike_of_same
        ((write_other edit.entry a.fits here).trans (stamp_other _ _ here)))
  · rename_i equal
    refine ⟨Finset.Subset.refl _, .inr ?_⟩
    by_cases here : slot = a.slot
    · subst here
      obtain ⟨version, content, null⟩ := stamp_here revision edit.entry a.slot a.isNull
      simp only [not_or, not_not, ne_eq] at equal
      refine ⟨?_, content, null.trans ?_⟩
      · rw [Entry.known, version, Entry.known]
        exact (Option.isSome_iff_ne_none.mpr equal.1).symm
      · rw [← equal.2.2, decide_eq_true_eq]
    · exact alike_of_same (stamp_other _ _ here)

theorem steps_noted (revision : Nat) (steps : List Step) (edit : Edit) (slot : Field) :
    edit.fields ⊆ (steps.foldl (Step.run revision) edit).fields ∧
      (slot ∈ (steps.foldl (Step.run revision) edit).fields ∨
        Alike edit.entry (steps.foldl (Step.run revision) edit).entry slot) := by
  induction steps generalizing edit with
  | nil => exact ⟨Finset.Subset.refl _, .inr (.refl _ _)⟩
  | cons step rest ih =>
    rw [List.foldl_cons]
    obtain ⟨grown, later⟩ := ih (Step.run revision edit step)
    have now : edit.fields ⊆ (Step.run revision edit step).fields ∧
        (slot ∈ (Step.run revision edit step).fields ∨
          Alike edit.entry (Step.run revision edit step).entry slot) := by
      cases step with
      | assign a => exact assign_noted revision edit a slot
      | fail message =>
        unfold Step.run Edit.fail
        dsimp only
        split <;> exact ⟨Finset.Subset.refl _, .inr (.refl _ _)⟩
    refine ⟨now.1.trans grown, ?_⟩
    obtain marked | alike := now.2
    · exact .inl (grown marked)
    · exact later.imp_right alike.trans

/-- A field in which an entry came to differ from the stored one. -/
def Unlike : Option Entry → Option Entry → Field → Prop
  | none, none, _ => False
  | some _, none, _ => True
  | none, some entry, slot => slot = .presence ∨ entry.known slot = true
  | some before, some after, slot => slot ≠ .presence ∧ ¬ Alike before after slot

/-- Every field in which an entry came to differ is marked. -/
def Noted (run : EntityStore.Run) : Prop :=
  ∀ key slot, Unlike (view run key).stored (view run key).current slot →
    slot ∈ Hash.value run.changed key ∅

private theorem prepared_alike (u : Update) (entry : Entry) (other : slot ≠ .presence) :
    Alike entry (prepared u entry) slot :=
  ⟨by rw [Entry.known, prepared_versions u entry other, Entry.known], content_prepared u entry slot,
    .rfl⟩

private theorem merge_noted (u : Update) (current : Option Entry) (other : slot ≠ .presence) :
    slot ∈ (merge u current).fields ∨
      Alike (current.getD (freshEntry u)) (merge u current).entry slot :=
  (steps_noted _ u.steps ⟨prepared u (current.getD (freshEntry u)), ∅, ""⟩ slot).2.imp_right
    (prepared_alike u _ other).trans

private theorem update_noted (member : u ∈ batch.updates) (ran : (applyUpdate run u).error = "")
    (noted : Noted run) : Noted (applyUpdate run u) := by
  obtain ⟨_, ⟨_, same⟩ | merged⟩ := applyUpdate_cases (update_key_plain member) ran
  · rwa [same]
  intro key slot unlike
  have stored : (view (applyUpdate run u) key).stored = (view run key).stored := by simp [view]
  rw [stored, merged_current merged] at unlike
  rw [merged.changed]
  by_cases here : key = u.key
  · subst here
    rw [if_pos rfl] at unlike ⊢
    have held := noted u.key slot
    cases current : (view run u.key).current with
    | none =>
      rw [current] at unlike held
      have presence : Field.presence ∈ preparedFields none := by simp [preparedFields]
      cases before : (view run u.key).stored with
      | some entry =>
        rw [before] at held
        exact Finset.mem_union_left _ (Finset.mem_union_left _ (held trivial))
      | none =>
        rw [before] at unlike
        by_cases other : slot = .presence
        · subst other
          exact Finset.mem_union_left _ (Finset.mem_union_right _ presence)
        · obtain marked | alike := merge_noted u none other
          · exact Finset.mem_union_right _ marked
          · have known := unlike.resolve_left other
            rw [alike.known] at known
            cases known
    | some entry =>
      rw [current] at unlike held
      by_cases other : slot = .presence
      · subst other
        cases before : (view run u.key).stored with
        | some _ =>
          rw [before] at unlike
          exact absurd rfl unlike.1
        | none =>
          rw [before] at held
          exact Finset.mem_union_left _ (Finset.mem_union_left _ (held (.inl rfl)))
      · obtain marked | alike := merge_noted u (some entry) other
        · exact Finset.mem_union_right _ marked
        · refine Finset.mem_union_left _ (Finset.mem_union_left _ (held ?_))
          cases before : (view run u.key).stored with
          | none =>
            rw [before] at unlike
            have known := unlike.resolve_left other
            rw [alike.known] at known
            exact .inr known
          | some old =>
            rw [before] at unlike
            exact ⟨other, fun same => unlike.2 (same.trans alike)⟩
  · rw [if_neg here] at unlike ⊢
    exact noted key slot unlike

private theorem removal_noted {removal : Removal} (ran : (applyRemoval run removal).error = "")
    (noted : Noted run) : Noted (applyRemoval run removal) := by
  obtain ⟨_, ⟨_, same⟩ | ⟨_, same⟩⟩ := applyRemoval_cases ran
  · rwa [same]
  rw [same]
  intro key slot unlike
  rw [strike_current] at unlike
  change Unlike (run.store.entries.lookup key) _ slot at unlike
  by_cases here : key = Removal.key removal
  · subst here
    rw [if_pos rfl] at unlike
    cases stored : run.store.entries.lookup (Removal.key removal) with
    | none =>
      rw [stored] at unlike
      exact absurd unlike id
    | some entry =>
      have there : ((run.staged.lookup (Removal.key removal)).or
          (run.store.entries.lookup (Removal.key removal))).isSome := by simp [stored]
      simp only [Run.strike, there, true_or, if_true, Hash.value_insert]
      exact Finset.mem_univ slot
  · rw [if_neg here] at unlike
    have untouched : Hash.value (Run.strike run removal).changed key ∅ = Hash.value run.changed key ∅ := by
      simp only [Run.strike]
      split
      · rw [Hash.value_insert, if_neg here]
      · rfl
    rw [untouched]
    exact noted key slot unlike

theorem gather_noted (consistent : EpochsAgree store)
    (clean : (gather iteration store batch).error = "") : Noted (gather iteration store batch) := by
  refine gather_induction Noted consistent clean ?_
    (fun run u _ member ran => update_noted member ran) (fun run removal _ _ ran => removal_noted ran)
  intro run left key slot unlike
  rw [(left.view key).1, (left.view key).2] at unlike
  rw [left.changed]
  split
  · exact Finset.mem_univ slot
  · rename_i stays
    rw [if_neg stays] at unlike
    cases stored : store.entries.lookup key with
    | none =>
      rw [stored] at unlike
      exact absurd unlike id
    | some entry =>
      rw [stored] at unlike
      exact absurd (Alike.refl entry slot) unlike.2

/-- Every key is that of its type, and every entry has only proper values. -/
def Formed (store : Store) : Prop :=
  ∀ key entry, store.entries.lookup key = some entry →
    canonical key = key ∧ Filled (Proper (kindOf key.type)) key entry

/-- What is known of a batch in progress. -/
private def FormedRun (batch : EntityBatch) (run : EntityStore.Run) : Prop :=
  (∀ key entry, (view run key).current = some entry →
    canonical key = key ∧ Filled (Proper (kindOf key.type)) key entry) ∧
  ∀ key, run.staged.lookup key ≠ none → ∃ u ∈ batch.updates, u.key = key

private theorem gather_formed (consistent : EpochsAgree store) (formed : Formed store)
    (clean : (gather iteration store batch).error = "") :
    FormedRun batch (gather iteration store batch) := by
  refine gather_induction (FormedRun batch) consistent clean ?_ ?_ ?_
  · intro run left
    refine ⟨fun key entry found => ?_, fun key stage => ?_⟩
    · rw [(left.view key).2] at found
      split at found
      · cases found
      · exact formed key entry found
    · rw [left.staged] at stage
      exact absurd rfl stage
  · intro run u _ member ran held
    obtain ⟨_, ⟨_, same⟩ | merged⟩ := applyUpdate_cases (update_key_plain member) ran
    · rwa [same]
    refine ⟨fun key entry found => ?_, fun key stage => ?_⟩
    · rw [merged_current merged] at found
      split at found
      · rename_i here
        subst here
        cases found
        exact ⟨update_key_plain member, (filled_merge _ member merged.clean
          (fun entry current => (held.1 u.key entry current).2)
          (fun a assigned => update_proper member assigned _ _)).1⟩
      · exact held.1 key entry found
    · rw [merged.staged, Hash.lookup_insert] at stage
      split at stage
      · rename_i here
        exact ⟨u, member, here.symm⟩
      · exact held.2 key stage
  · intro run removal _ _ ran held
    obtain ⟨_, ⟨_, same⟩ | ⟨_, same⟩⟩ := applyRemoval_cases ran
    · rwa [same]
    rw [same]
    refine ⟨fun key entry found => ?_, fun key stage => ?_⟩
    · rw [strike_current] at found
      split at found
      · cases found
      · exact held.1 key entry found
    · simp only [Run.strike, Hash.lookup_erase] at stage
      split at stage
      · exact absurd rfl stage
      · exact held.2 key stage

theorem apply_current (accepted : (apply iteration store batch).1.error = "") (key : Key) :
    ∃ clock, (apply iteration store batch).2.entries.lookup key =
      (view (gather iteration store batch) key).current.map fun entry =>
        { entry with touched := clock } :=
  (apply_committed accepted key).2.stored

theorem apply_formed (consistent : EpochsAgree store) (formed : Formed store)
    (accepted : (apply iteration store batch).1.error = "") :
    Formed (apply iteration store batch).2 := by
  have gathered := gather_formed consistent formed (apply_committed accepted ⟨0, 0⟩).1
  intro key entry found
  obtain ⟨clock, same⟩ := apply_current accepted key
  rw [same] at found
  obtain ⟨old, current, rfl⟩ := Option.map_eq_some_iff.mp found
  obtain ⟨plain, filled⟩ := gathered.1 key old current
  exact ⟨plain, filled.touch clock⟩

theorem run_formed {trace : List (Store × Call)} (run : Run sizes trace store) : Formed store := by
  have both : EpochsAgree store ∧ Formed store := run_induction run (fun _ _ => True)
    (fun _ _ _ _ => trivial) (fun _ store => EpochsAgree store ∧ Formed store)
    ⟨fun _ _ found => (by cases found), fun _ _ found => (by cases found)⟩
    (fun _ s t held thinned => ⟨thinned.epochs_agree held.1, fun key entry found => by
      obtain ⟨old, stored, stale, rfl⟩ := thinned.entries key entry found
      obtain ⟨plain, filled⟩ := held.2 key old stored
      exact ⟨plain, filled.age stale⟩⟩)
    (fun _ _ _ _ held _ clean => ⟨apply_epochs_agree held.1 clean, apply_formed held.1 held.2 clean⟩)
  exact both.2

/-! ## Pruning -/

/-- A field shows a difference: in its value or in whether it is null. -/
def Shows (before after : Entry) (slot : Field) : Prop :=
  after.content slot ≠ before.content slot ∨ ¬ (slot ∈ after.nulls ↔ slot ∈ before.nulls)

variable {kind : Kind}

private theorem unknown_alike (left : Filled (Proper kind) key before)
    (right : Filled (Proper kind) key after) (other : slot ≠ .presence)
    (unknown : after.known slot = false) (same : before.known slot = after.known slot) :
    ¬ Shows before after slot := by
  have none_before : before.versions slot = none := by
    rw [unknown] at same
    simpa [Entry.known] using same
  have none_after : after.versions slot = none := by simpa [Entry.known] using unknown
  obtain ⟨content, null⟩ := left.unset slot other none_before
  obtain ⟨content', null'⟩ := right.unset slot other none_after
  rintro (differ | differ)
  · exact differ (by rw [content, content', left.kind, right.kind])
  · exact differ (iff_of_false null' null)

section

variable (filled : Filled (Proper (kindOf key.type)) key entry)
include filled

private theorem null_content (other : slot ≠ .presence) (null : slot ∈ entry.nulls) :
    entry.content slot = initialContent (kindOf key.type) slot := by
  cases version : entry.versions slot with
  | none => exact absurd null (filled.unset slot other version).2
  | some seen => exact (filled.set slot other seen version).1 (by simpa using null)

private theorem not_null (never : slot = .artists ∨ slot = .favorite) : slot ∉ entry.nulls := by
  have other : slot ≠ .presence := by
    obtain rfl | rfl := never <;> decide
  cases version : entry.versions slot with
  | none => exact (filled.unset slot other version).2
  | some seen => simpa using (filled.set slot other seen version).2.2 never

private theorem album_null (known : entry.known .album = true) : .album ∈ entry.nulls ↔ entry.album = none := by
  obtain ⟨seen, version⟩ := Option.isSome_iff_exists.mp known
  obtain ⟨value, missing, _⟩ := filled.set .album (by decide) seen version
  constructor
  · intro null
    have content := value (by simpa using null)
    exact Value.link.inj content
  · intro none
    simpa using missing rfl (congrArg Value.link none)

end

/-- Pruning keeps the mark of every field that shows a difference. -/
theorem prune_keeps {fields : Fields} (left : Filled (Proper (kindOf key.type)) key before)
    (right : Filled (Proper (kindOf key.type)) key after) (other : slot ≠ .presence)
    (shows : Shows before after slot) (marked : slot ∈ fields) : slot ∈ prune before after fields := by
  have known : slot ∈ AllFields.filter (fun slot => before.known slot ≠ after.known slot) ↔
      before.known slot ≠ after.known slot := by simp [AllFields]
  unfold prune
  dsimp only
  generalize AllFields.filter (fun slot => before.known slot ≠ after.known slot) = knowledge at known ⊢
  have first : slot ∈ if before.data.kind = after.data.kind then
      fields \ before.data.kind.properties.filter fun slot =>
        slot ∉ knowledge ∧ (slot ∈ before.nulls ↔ slot ∈ after.nulls) ∧
          (after.known slot = false ∨ slot ∈ after.nulls ∨
            before.data.values slot = after.data.values slot)
      else fields := by
    split
    · refine Finset.mem_sdiff.mpr ⟨marked, fun same => ?_⟩
      obtain ⟨property, unchanged, nulls, equal⟩ := Finset.mem_filter.mp same
      rw [known, not_not] at unchanged
      have apart : Field.apart slot = false := by
        revert property
        cases before.data.kind <;> cases slot <;> decide
      obtain unknown | null | values := equal
      · exact unknown_alike left right other unknown unchanged shows
      · obtain differ | differ := shows
        · refine differ ?_
          rw [null_content right other null, null_content left other (nulls.mpr null)]
        · exact differ nulls.symm
      · obtain differ | differ := shows
        · refine differ ?_
          rw [content_property after apart, content_property before apart, values]
        · exact differ nulls.symm
    · exact marked
  -- the relations and the favorite: the field that is erased shows no difference
  have erase : ∀ {fields : Fields} {field : Field} {same : Prop} [Decidable same], slot ∈ fields →
      (slot = field → ¬ same) → slot ∈ if same then fields.erase field else fields := by
    intro fields field same _ member spared
    split
    · rename_i equal
      exact Finset.mem_erase.mpr ⟨fun here => spared here equal, member⟩
    · exact member
  refine erase (erase (erase first ?_) ?_) ?_
  · rintro rfl ⟨artists, _⟩
    obtain differ | differ := shows
    · exact differ (congrArg Value.ids artists.symm)
    · exact differ (iff_of_false (not_null right (.inl rfl)) (not_null left (.inl rfl)))
  · rintro rfl ⟨album, unchanged⟩
    rw [known, not_not] at unchanged
    obtain differ | differ := shows
    · exact differ (congrArg Value.link album.symm)
    · cases after_known : after.known .album with
      | false => exact unknown_alike left right other after_known unchanged (.inr differ)
      | true =>
        refine differ ?_
        rw [album_null right after_known, album_null left (unchanged.trans after_known), album]
  · rintro rfl ⟨favorite, _⟩
    obtain differ | differ := shows
    · exact differ (congrArg Value.flag favorite.symm)
    · exact differ (iff_of_false (not_null right (.inr rfl)) (not_null left (.inr rfl)))

private theorem foldl_pruneChanged_keeps (keys : List Key) (run : EntityStore.Run)
    (kept : ∀ entry previous fields, run.staged.lookup key = some entry →
      find run.store key = some previous → slot ∈ fields → slot ∈ prune previous entry fields)
    (marked : slot ∈ Hash.value run.changed key ∅) :
    slot ∈ Hash.value (keys.foldl pruneChanged run).changed key ∅ := by
  induction keys generalizing run with
  | nil => exact marked
  | cons first rest ih =>
    rw [List.foldl_cons]
    unfold pruneChanged
    split
    · rename_i entry previous staged stored
      refine ih _ kept ?_
      rw [Hash.value_insert]
      split
      · rename_i here
        subst here
        exact kept entry previous _ staged stored marked
      · exact marked
    · exact ih run kept marked

/-! ## What is reported -/

/-- A change is reported for a key, with a bit for the field. -/
def Reported (changes : List Change) (key : Key) (slot : Field) : Prop :=
  ∃ change ∈ changes, change.key = key ∧ slot ∈ change.fields

/-- A field in which the entries of a key differ.  An entry that appears differs
in its presence and in the fields it knows, and one that disappears in all. -/
def Differs : Option Entry → Option Entry → Field → Prop
  | none, none, _ => False
  | some _, none, _ => True
  | none, some entry, slot => slot = .presence ∨ entry.known slot = true
  | some before, some after, slot => slot ≠ .presence ∧
      (Shows before after slot ∨ slot = .album ∧ after.data.albumId ≠ before.data.albumId)

/-- The name or the presence of an entry changes. -/
def Moves : Option Entry → Option Entry → Prop
  | none, none => False
  | some before, some after => Shows before after .name
  | _, _ => True

private theorem moves_concern {before after : Option Entry} (moves : Moves before after) :
    ∃ slot ∈ concerning, Differs before after slot := by
  cases before with
  | none =>
    cases after with
    | none => exact absurd moves id
    | some entry => exact ⟨.presence, by decide, .inl rfl⟩
  | some before =>
    cases after with
    | none => exact ⟨.presence, by decide, trivial⟩
    | some after => exact ⟨.name, by decide, by decide, .inl moves⟩

private theorem difference_marked (consistent : EpochsAgree store) (formed : Formed store)
    (accepted : (apply iteration store batch).1.error = "") (key : Key) (slot : Field)
    (differs : Differs (store.entries.lookup key)
      ((apply iteration store batch).2.entries.lookup key) slot) :
    slot ∈ Hash.value ((iteration.order (gather iteration store batch).staged.keys).foldl pruneChanged
      (gather iteration store batch)).changed key ∅ := by
  have clean := (apply_committed accepted key).1
  have gathered := gather_formed consistent formed clean
  have noted := gather_noted consistent clean key slot
  have members : (gather iteration store batch).store = store := gather_store store batch
  have stored : (view (gather iteration store batch) key).stored = store.entries.lookup key := by
    rw [view, members]
  obtain ⟨clock, after⟩ := apply_current accepted key
  rw [after] at differs
  rw [stored] at noted
  cases current : (view (gather iteration store batch) key).current with
  | none =>
    rw [current] at differs noted
    cases before : store.entries.lookup key with
    | none =>
      rw [before] at differs
      exact absurd differs id
    | some old =>
      rw [before] at noted
      refine foldl_pruneChanged_keeps _ _ (fun entry previous fields staged => ?_) (noted trivial)
      simp [view, staged] at current
  | some entry =>
    rw [current] at differs noted
    obtain ⟨plain, right⟩ := gathered.1 key entry current
    cases before : store.entries.lookup key with
    | none =>
      rw [before] at differs noted
      refine foldl_pruneChanged_keeps _ _ (fun _ previous _ _ found => ?_) (noted differs)
      rw [members, find_plain plain, before] at found
      cases found
    | some old =>
      rw [before] at differs noted
      have left := (formed key old before).2
      obtain ⟨other, differ⟩ := differs
      have shows : Shows old entry slot := by
        obtain shows | ⟨rfl, album⟩ := differ
        · exact shows
        · refine .inl fun same => album ?_
          change entry.data.albumId = old.data.albumId
          rw [right.link, left.link]
          exact Value.link.inj same
      have unlike : ¬ Alike old entry slot := fun alike => by
        obtain content | null := shows
        · exact content alike.content
        · exact null alike.null
      refine foldl_pruneChanged_keeps _ _ (fun staged previous fields stage found => ?_)
        (noted ⟨other, unlike⟩)
      rw [members, find_plain plain, before] at found
      obtain rfl : staged = entry := by simpa [view, stage] using current
      cases found
      exact prune_keeps left right other shows

private theorem mem_keys_of_marked {changed : Hash Key Fields}
    (marked : slot ∈ Hash.value changed key ∅) : key ∈ changed.keys := by
  refine AList.mem_keys.mp (AList.lookup_isSome.mp ?_)
  cases found : changed.lookup key with
  | none => simp [Hash.value, found] at marked
  | some fields => rfl

private theorem marked_reported {after : Store} {final : Hash Key Fields}
    (same : propagate after.dependents (propagationRounds after.dependents run.changed)
      (iteration.order run.changed.keys) run.changed = final)
    (marked : slot ∈ Hash.value final key ∅) : Reported (report iteration run after) key slot := by
  refine ⟨⟨key, Hash.value final key ∅, Hash.value run.statuses key (status after key)⟩, ?_, rfl, marked⟩
  unfold report
  dsimp only
  rw [same]
  refine List.mem_filterMap.mpr ⟨key, (iteration.perm _).mem_iff.mpr (mem_keys_of_marked marked), ?_⟩
  rw [if_neg]
  intro empty
  rw [empty] at marked
  cases marked

/-- After a batch that is applied in some run, every field in which an entry
differs is reported, what refers to a key whose name or presence changed is
reported by the field that refers to it, and the loop over what depends on the
changes ends for every graph of references. -/
theorem changes_are_reported {trace : List (Store × Call)} (run : Run sizes trace store)
    (accepted : (apply iteration store batch).1.error = "") :
    (∀ key slot, Differs (store.entries.lookup key)
        ((apply iteration store batch).2.entries.lookup key) slot →
      Reported (apply iteration store batch).1.changes key slot) ∧
    (∀ key entry target field, (apply iteration store batch).2.entries.lookup key = some entry →
      Refers entry target field → Moves (store.entries.lookup target)
        ((apply iteration store batch).2.entries.lookup target) →
      Reported (apply iteration store batch).1.changes key field) ∧
    ∀ (graph order : Iteration) (members : Store) (changed : Hash Key Fields),
      let dependents := (rebuildDependencies graph members).dependents
      Propagates dependents (order.order changed.keys) changed
        (propagate dependents (propagationRounds dependents changed) (order.order changed.keys)
          changed) := by
  have marked := difference_marked (epochs_agree run) (run_formed run) accepted
  obtain ⟨_, changed, pruned, committed, reports⟩ := apply_accepted accepted
  rw [← pruned] at marked
  obtain ⟨members, rebuilt⟩ : ∃ members, (apply iteration store batch).2 =
      rebuildDependencies iteration members := by
    rw [committed]
    exact ⟨_, rfl⟩
  have ran := propagates iteration iteration members changed
  have entries : (apply iteration store batch).2.entries = members.entries := by rw [rebuilt]; rfl
  rw [← rebuilt] at ran
  refine ⟨fun key slot differs => ?_, fun key entry target field found refers moves => ?_,
    fun graph order members changed => propagates graph order members changed⟩
  · rw [reports]
    exact marked_reported rfl (Propagates.grows ran key (marked _ _ differs))
  · rw [reports]
    obtain ⟨slot, concerns, differs⟩ := moves_concern moves
    have queued : target ∈ iteration.order changed.keys :=
      (iteration.perm _).mem_iff.mpr (mem_keys_of_marked (marked _ _ differs))
    have depends : (⟨key, {field}, .ready⟩ : Change) ∈
        Hash.value (apply iteration store batch).2.dependents target [] := by
      rw [rebuilt]
      exact mem_dependents.mpr ⟨key, entry, field, entries ▸ found, refers, rfl⟩
    have through := Propagates.marks ran queued
      (Finset.not_disjoint_iff.mpr ⟨slot, marked _ _ differs, concerns⟩) depends
    exact marked_reported rfl (through (Finset.mem_singleton_self field))

theorem new_song_reported :
    Reported (apply inOrder Store.initial named).1.changes ⟨Song, 1⟩ .name := by
  have run : Run wide [] Store.initial := .done _
  have known : ((apply inOrder Store.initial named).2.entries.lookup ⟨Song, 1⟩).map
      (fun entry => entry.known .name) = some true := by decide
  obtain ⟨entry, found, named⟩ := Option.map_eq_some_iff.mp known
  refine (changes_are_reported run (by decide)).1 ⟨Song, 1⟩ .name ?_
  rw [found]
  exact .inr named

/-! ## The index of dependencies -/

/-- Under each key the index has exactly the entries that refer to it, each with
the field by which it does. -/
def Indexed (store : Store) : Prop :=
  ∀ target dependency, dependency ∈ Hash.value store.dependents target [] ↔
    ∃ key entry field, store.entries.lookup key = some entry ∧ Refers entry target field ∧
      dependency = ⟨key, {field}, .ready⟩

private theorem indexed_of_empty (entries : store.entries = ∅) (dependents : store.dependents = ∅) :
    Indexed store := by
  intro target dependency
  rw [entries, dependents]
  refine iff_of_false List.not_mem_nil ?_
  rintro ⟨_, _, _, found, _⟩
  cases found

private theorem refers_age {target : Key} {field : Field} {stale : Bool} :
    Refers { entry with stale := stale } target field ↔ Refers entry target field := by
  constructor
  all_goals
    rintro (member | linked)
    · exact .artist member
    · exact .album linked

private theorem Indexed.markStale (indexed : Indexed store) : Indexed (markStale iteration store).2 := by
  refine fun target dependency => (indexed target dependency).trans (exists_congr fun key => ?_)
  change _ ↔ ∃ entry field, (List.foldl setStale store.entries _).lookup key = some entry ∧ _
  rw [foldl_setStale]
  split
  · simp only [Option.map_eq_some_iff]
    constructor
    · rintro ⟨entry, field, found, refers, same⟩
      exact ⟨_, field, ⟨entry, found, rfl⟩, refers_age.mpr refers, same⟩
    · rintro ⟨_, field, ⟨entry, found, rfl⟩, refers, same⟩
      exact ⟨entry, field, found, refers_age.mp refers, same⟩
  · rfl

theorem run_indexed {trace : List (Store × Call)} (run : Run sizes trace store) : Indexed store := by
  refine run.invariant Indexed (fun _ _ => True) (fun _ _ => trivial) ?_ (indexed_of_empty rfl rfl)
  rintro s ⟨iteration, op⟩ _ indexed _ rfl
  cases op with
  | apply batch =>
    change Indexed (apply iteration s batch).2
    by_cases accepted : (apply iteration s batch).1.error = ""
    · obtain ⟨_, changed, _, committed, _⟩ := apply_accepted accepted
      rw [committed]
      exact fun _ _ => mem_dependents
    · rwa [refused_batch_changes_nothing iteration s batch accepted]
  | collect => exact fun _ _ => mem_dependents
  | clear =>
    obtain ⟨entries, dependents, _⟩ := clear_shape iteration s
    exact indexed_of_empty entries dependents
  | markStale => exact indexed.markStale
  | unpin key =>
    change Indexed (unpin s key)
    unfold unpin
    split <;> exact indexed
  | pin key | setCapacity capacity | setByteBudget bytes | setTombstoneCapacity capacity => exact indexed

end Qcm.EntityNoticeProofs
