import Qcm.EntityKey

/-!
What the steps of an update do to the fields of its entry, when none of them
fails: a field that is newer stays, and every other field the update carries
takes its value and its revision.
-/

namespace Qcm.EntityMergeProofs

open EntityStore EntityKey

variable {entry before after : Entry} {revision : Nat}

/-- The slots that hold no property of the data. -/
def Field.apart : Field → Bool
  | .album | .artists | .favorite | .presence | .stale | .deleted => true
  | _ => false

variable {slot : Field} {value : Value}

private theorem write_cases (entry : Entry) (fits : slot.accepts value = true) :
    (∃ link, slot = .album ∧ value = .link link ∧ entry.write slot value =
      { entry with album := link, data := { entry.data with albumId := link } }) ∨
    (∃ ids, slot = .artists ∧ value = .ids ids ∧
      entry.write slot value = { entry with artists := ids }) ∨
    (∃ flag, slot = .favorite ∧ value = .flag flag ∧
      entry.write slot value = { entry with favorite := flag }) ∨
    (Field.apart slot = false ∧ entry.write slot value =
      { entry with data :=
          { entry.data with values := Function.update entry.data.values slot value } }) := by
  cases slot <;> cases value <;> first
    | contradiction
    | exact .inr (.inr (.inr ⟨rfl, rfl⟩))
    | exact .inl ⟨_, rfl, rfl, rfl⟩
    | exact .inr (.inl ⟨_, rfl, rfl, rfl⟩)
    | exact .inr (.inr (.inl ⟨_, rfl, rfl, rfl⟩))

theorem content_property (entry : Entry) (set : Field.apart slot = false) :
    entry.content slot = entry.data.values slot := by
  cases slot <;> first
    | rfl
    | contradiction

theorem content_write (entry : Entry) (fits : slot.accepts value = true) (other : Field) :
    (entry.write slot value).content other = if other = slot then value else entry.content other := by
  obtain ⟨link, rfl, rfl, same⟩ | ⟨ids, rfl, rfl, same⟩ | ⟨flag, rfl, rfl, same⟩ | ⟨set, same⟩ :=
    write_cases entry fits
  · rw [same]
    cases other <;> rfl
  · rw [same]
    cases other <;> rfl
  · rw [same]
    cases other <;> rfl
  · rw [same]
    split
    · rename_i here
      rw [here, content_property _ set]
      exact Function.update_self _ _ _
    · rename_i elsewhere
      cases other <;> first
        | rfl
        | exact Function.update_of_ne elsewhere _ _

/-- Two entries agree on a field: its version, its value and whether it is null. -/
structure SameField (left right : Entry) (slot : Field) : Prop where
  version : right.versions slot = left.versions slot
  content : right.content slot = left.content slot
  null : slot ∈ right.nulls ↔ slot ∈ left.nulls

/-- What a step never touches. -/
structure SameFrame (before after : Entry) : Prop where
  kind : after.data.kind = before.data.kind
  id : after.data.id = before.data.id
  owner : after.owner = before.owner
  epoch : after.epoch = before.epoch
  stale : after.stale = before.stale
  link : before.data.albumId = before.album → after.data.albumId = after.album
  apart : ∀ slot, Field.apart slot = true → after.data.values slot = before.data.values slot

variable {first second third : Entry} {other : Field} {edit : Edit} {α : Type} {wrap : α → Value}
variable {fits : ∀ value, slot.accepts (wrap value) = true} {batch : EntityBatch} {u : Update}

theorem SameField.trans (one : SameField first second slot)
    (two : SameField second third slot) : SameField first third slot :=
  ⟨two.version.trans one.version, two.content.trans one.content, two.null.trans one.null⟩

theorem SameFrame.trans (one : SameFrame first second) (two : SameFrame second third) : SameFrame first third :=
  ⟨two.kind.trans one.kind, two.id.trans one.id, two.owner.trans one.owner,
    two.epoch.trans one.epoch, two.stale.trans one.stale, fun linked => two.link (one.link linked),
    fun slot set => (two.apart slot set).trans (one.apart slot set)⟩

theorem SameFrame.refl (entry : Entry) : SameFrame entry entry :=
  ⟨rfl, rfl, rfl, rfl, rfl, fun linked => linked, fun _ _ => rfl⟩

private theorem write_frame (entry : Entry) (fits : slot.accepts value = true) :
    SameFrame entry (entry.write slot value) := by
  obtain ⟨link, rfl, rfl, same⟩ | ⟨ids, rfl, rfl, same⟩ | ⟨flag, rfl, rfl, same⟩ | ⟨set, same⟩ :=
    write_cases entry fits
  · rw [same]
    exact ⟨rfl, rfl, rfl, rfl, rfl, fun _ => rfl, fun _ _ => rfl⟩
  · rw [same]
    exact ⟨rfl, rfl, rfl, rfl, rfl, fun linked => linked, fun _ _ => rfl⟩
  · rw [same]
    exact ⟨rfl, rfl, rfl, rfl, rfl, fun linked => linked, fun _ _ => rfl⟩
  · rw [same]
    refine ⟨rfl, rfl, rfl, rfl, rfl, fun linked => linked, fun other outside => ?_⟩
    have elsewhere : other ≠ slot := fun here => by
      rw [here, set] at outside
      contradiction
    exact Function.update_of_ne elsewhere _ _

private theorem stamp_frame (entry : Entry) (slot : Field) (isNull : Bool) :
    SameFrame entry (entry.stamp slot revision isNull) :=
  ⟨rfl, rfl, rfl, rfl, rfl, fun linked => linked, fun _ _ => rfl⟩

theorem stamp_other (entry : Entry) (isNull : Bool) (elsewhere : other ≠ slot) :
    SameField entry (entry.stamp slot revision isNull) other := by
  refine ⟨Function.update_of_ne elsewhere _ _, ?_, ?_⟩
  · cases other <;> rfl
  · unfold Entry.stamp
    cases isNull <;> simp [elsewhere]

theorem stamp_here (revision : Nat) (entry : Entry) (slot : Field) (isNull : Bool) :
    (entry.stamp slot revision isNull).versions slot = some revision ∧
      (entry.stamp slot revision isNull).content slot = entry.content slot ∧
      (slot ∈ (entry.stamp slot revision isNull).nulls ↔ isNull = true) := by
  refine ⟨Function.update_self _ _ _, ?_, ?_⟩
  · cases slot <;> rfl
  · unfold Entry.stamp
    cases isNull <;> simp

theorem write_other (entry : Entry) (fits : slot.accepts value = true)
    (elsewhere : other ≠ slot) : SameField entry (entry.write slot value) other := by
  refine ⟨?_, by rw [content_write entry fits, if_neg elsewhere], ?_⟩
  all_goals
    obtain ⟨_, _, _, same⟩ | ⟨_, _, _, same⟩ | ⟨_, _, _, same⟩ | ⟨_, same⟩ := write_cases entry fits
    all_goals rw [same]

/-- What one assignment leaves of an entry, when it does not fail. -/
private structure Assigned (revision : Nat) (before after : Entry) (a : Assignment) : Prop where
  frame : SameFrame before after
  other : ∀ slot, slot ≠ a.slot → SameField before after slot
  level : ∀ seen, before.versions a.slot = some seen → revision ≤ seen →
    SameField before after a.slot
  set : (∀ seen, before.versions a.slot = some seen → seen ≤ revision) →
    after.versions a.slot = some revision ∧ after.content a.slot = a.incoming ∧
      (a.slot ∈ after.nulls ↔ a.isNull = true)

private theorem assign_effect {a : Assignment} (clean : (assign revision edit a).error = "") :
    edit.error = "" ∧ Assigned revision edit.entry (assign revision edit a).entry a := by
  unfold assign at clean ⊢
  dsimp only at clean ⊢
  split at clean
  · rename_i newer
    rw [if_pos newer]
    obtain ⟨seen, found, above⟩ := Option.any_eq_true _ _ |>.mp newer
    refine ⟨clean, .refl _, fun _ _ => ⟨rfl, rfl, .rfl⟩, fun _ _ _ => ⟨rfl, rfl, .rfl⟩, fun old => ?_⟩
    exact absurd (old seen found) (by simpa using above)
  rename_i older
  rw [if_neg older]
  have bound : ∀ seen, edit.entry.versions a.slot = some seen → seen ≤ revision := by
    intro seen found
    rw [found] at older
    simpa using older
  split at clean
  · unfold Edit.fail at clean
    split at clean
    · exact absurd clean (by simp)
    · contradiction
  rename_i agrees
  rw [if_neg agrees]
  split at clean
  · rename_i different
    rw [if_pos different]
    obtain ⟨version, content, null⟩ :=
      stamp_here revision (edit.entry.write a.slot a.incoming) a.slot a.isNull
    refine ⟨clean, (write_frame edit.entry a.fits).trans (stamp_frame _ _ _), ?_, ?_, fun _ => ?_⟩
    · exact fun slot elsewhere =>
        (write_other edit.entry a.fits elsewhere).trans (stamp_other _ _ elsewhere)
    · intro seen found above
      have same : seen = revision := Nat.le_antisymm (bound seen found) above
      exact absurd ⟨found.trans (congrArg some same), different⟩ agrees
    · exact ⟨version, content.trans (by rw [content_write _ a.fits, if_pos rfl]), null⟩
  · rename_i equal
    rw [if_neg equal]
    obtain ⟨version, content, null⟩ := stamp_here revision edit.entry a.slot a.isNull
    obtain ⟨_, held, flagged⟩ : edit.entry.versions a.slot ≠ none ∧
        edit.entry.content a.slot = a.incoming ∧ (a.slot ∈ edit.entry.nulls ↔ a.isNull = true) := by
      simp only [not_or, not_not, ne_eq] at equal
      exact ⟨equal.1, equal.2.1, by rw [← equal.2.2, decide_eq_true_eq]⟩
    refine ⟨clean, stamp_frame _ _ _, fun slot elsewhere => stamp_other _ _ elsewhere, ?_, fun _ => ?_⟩
    · intro seen found above
      have same : seen = revision := Nat.le_antisymm (bound seen found) above
      exact ⟨version.trans (same ▸ found.symm), content, null.trans flagged.symm⟩
    · exact ⟨version, content.trans held, null⟩

/-- The steps of an update carry a field. -/
def Carries (steps : List Step) (slot : Field) : Prop := ∃ a, .assign a ∈ steps ∧ a.slot = slot

/-- What the steps of an update leave of an entry, when none of them fails. -/
structure Merged (revision : Nat) (steps : List Step) (before after : Entry) : Prop where
  frame : SameFrame before after
  other : ∀ slot, ¬ Carries steps slot → SameField before after slot
  level : ∀ slot seen, before.versions slot = some seen → revision ≤ seen →
    SameField before after slot
  set : ∀ a, .assign a ∈ steps →
    (∀ seen, before.versions a.slot = some seen → seen ≤ revision) →
    after.versions a.slot = some revision ∧ after.content a.slot = a.incoming ∧
      (a.slot ∈ after.nulls ↔ a.isNull = true)

theorem Merged.field {steps : List Step} (merged : Merged revision steps before after) (slot : Field) :
    SameField before after slot ∨ ∃ a, .assign a ∈ steps ∧ a.slot = slot ∧
      after.versions slot = some revision ∧ after.content slot = a.incoming ∧ (slot ∈ after.nulls ↔ a.isNull = true) := by
  by_cases carried : Carries steps slot
  · obtain ⟨a, member, rfl⟩ := carried
    by_cases level : ∃ seen, before.versions a.slot = some seen ∧ revision ≤ seen
    · obtain ⟨seen, found, above⟩ := level
      exact .inl (merged.level a.slot seen found above)
    · refine .inr ⟨a, member, rfl, merged.set a member fun seen found => ?_⟩
      by_contra above
      exact level ⟨seen, found, by omega⟩
  · exact .inl (merged.other slot carried)

private theorem fail_loud (edit : Edit) (message : String) (loud : message ≠ "") :
    (edit.fail message).error ≠ "" := by
  unfold Edit.fail
  split
  · exact loud
  · assumption

/-- A failing step of an update has something to say. -/
def Loud (steps : List Step) : Prop := ∀ message, .fail message ∈ steps → message ≠ ""

theorem steps_merged {steps : List Step} (loud : Loud steps)
    (clean : (steps.foldl (Step.run revision) edit).error = "") : edit.error = "" ∧
      Merged revision steps edit.entry (steps.foldl (Step.run revision) edit).entry := by
  induction steps generalizing edit with
  | nil =>
    refine ⟨clean, .refl _, fun _ _ => ⟨rfl, rfl, .rfl⟩, fun _ _ _ _ => ⟨rfl, rfl, .rfl⟩, ?_⟩
    exact fun a member => absurd member List.not_mem_nil
  | cons step rest ih =>
    rw [List.foldl_cons] at clean ⊢
    obtain ⟨between, merged⟩ := ih (fun message member => loud message (.tail _ member)) clean
    cases step with
    | fail message => exact absurd between (fail_loud _ _ (loud message List.mem_cons_self))
    | assign a =>
      obtain ⟨before, assigned⟩ := assign_effect between
      change Merged revision rest (assign revision edit a).entry _ at merged
      refine ⟨before, assigned.frame.trans merged.frame, ?_, ?_, ?_⟩
      · intro slot carried
        have elsewhere : slot ≠ a.slot := fun here => carried ⟨a, .head _, here.symm⟩
        refine (assigned.other slot elsewhere).trans (merged.other slot ?_)
        rintro ⟨b, member, same⟩
        exact carried ⟨b, .tail _ member, same⟩
      · intro slot seen found above
        have same : SameField edit.entry (assign revision edit a).entry slot := by
          by_cases here : slot = a.slot
          · subst here
            exact assigned.level seen found above
          · exact assigned.other slot here
        exact same.trans (merged.level slot seen (same.version.trans found) above)
      · intro b member old
        obtain head | inRest := List.mem_cons.mp member
        · cases head
          obtain ⟨version, content, null⟩ := assigned.set old
          have later := merged.level a.slot revision version le_rfl
          exact ⟨later.version.trans version, later.content.trans content, later.null.trans null⟩
        · refine merged.set b inRest fun seen found => ?_
          by_cases here : b.slot = a.slot
          · rw [here] at found old
            rw [(assigned.set old).1] at found
            cases found
            exact le_rfl
          · exact old seen ((assigned.other b.slot here).version.symm.trans found)

theorem slot_ne_presence (a : Assignment) : a.slot ≠ .presence := fun same => by
  have fits := a.fits
  rw [same] at fits
  cases a.incoming <;> contradiction

private theorem loud_append {first second : List Step} (one : Loud first) (two : Loud second) :
    Loud (first ++ second) := fun message member =>
  (List.mem_append.mp member).elim (one message) (two message)

private theorem loud_scalar (value : Option α) : Loud (scalar slot wrap fits value) := by
  cases value <;> simp [Loud, scalar]

private theorem loud_nullable {empty : α} (value : Option (Option α)) : Loud (nullable slot wrap fits empty value) := by
  cases value <;> simp [Loud, nullable]

private theorem loud_artists (ids : Option (List Int)) : Loud (artistSteps ids) := by
  intro message member
  unfold artistSteps at member
  repeat' split at member
  all_goals simp_all

private theorem loud_album (link : Option (Option Int)) : Loud (albumSteps link) := by
  intro message member
  unfold albumSteps at member
  repeat' split at member
  all_goals simp_all

theorem update_loud (member : u ∈ batch.updates) : Loud u.steps := by
  simp only [EntityBatch.updates, List.mem_append, List.mem_map] at member
  obtain ((⟨_, _, rfl⟩ | ⟨_, _, rfl⟩) | ⟨_, _, rfl⟩) | ⟨_, _, rfl⟩ := member
  all_goals
    repeat' apply loud_append
    all_goals first
      | exact loud_scalar _
      | exact loud_nullable _
      | exact loud_artists _
      | exact loud_album _

/-- The gadget type of the keys of a type. -/
def kindOf (type : Int) : Kind :=
  if type = Song then .song else if type = Album then .album else if type = Artist then .artist
  else .mix

theorem update_data (member : u ∈ batch.updates) : u.data = Data.new (kindOf u.key.type) u.key.id := by
  simp only [EntityBatch.updates, List.mem_append, List.mem_map] at member
  obtain ((⟨_, _, rfl⟩ | ⟨_, _, rfl⟩) | ⟨_, _, rfl⟩) | ⟨_, _, rfl⟩ := member
  all_goals rfl

end Qcm.EntityMergeProofs
