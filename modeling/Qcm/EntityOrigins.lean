import Qcm.EntityConvergenceProofs
import Qcm.EntityPhases

/-!
Where the fields of an entry come from.  An entry is `Filled` from a source when
every field with a version has a value of the source at that version, and every
other field still has the value it began with.  Merging an update keeps an entry
filled from a source that has the assignments of the update.
-/

namespace Qcm.EntityOrigins

open Lib EntityStore EntityKey EntityMergeProofs EntityConvergenceProofs

/-- The values of a field at a revision, with whether they are null. -/
abbrev Source := Field → Nat → Value → Bool → Prop

structure Filled (source : Source) (key : Key) (entry : Entry) : Prop where
  kind : entry.data.kind = kindOf key.type
  link : entry.data.albumId = entry.album
  set : ∀ slot, slot ≠ .presence → ∀ seen, entry.versions slot = some seen →
    source slot seen (entry.content slot) (decide (slot ∈ entry.nulls))
  unset : ∀ slot, slot ≠ .presence → entry.versions slot = none →
    entry.content slot = initialContent entry.data.kind slot ∧ slot ∉ entry.nulls

variable {source : Source} {key : Key} {entry before after : Entry} {u : Update}
  {batch : EntityBatch}

section

variable (filled : Filled source key entry)
include filled

theorem Filled.mono {wider : Source}
    (inside : ∀ slot seen value null, source slot seen value null → wider slot seen value null) :
    Filled wider key entry :=
  { filled with set := fun slot other seen found => inside _ _ _ _ (filled.set slot other seen found) }

theorem Filled.touch (clock : Nat) : Filled source key { entry with touched := clock } :=
  { filled with }

theorem Filled.age (stale : Bool) : Filled source key { entry with stale := stale } :=
  { filled with }

theorem Filled.prepare : Filled source key (prepared u entry) := by
  refine ⟨filled.kind, filled.link, fun slot other seen found => ?_, fun slot other found => ?_⟩
  · rw [prepared_versions u entry other] at found
    rw [content_prepared]
    exact filled.set slot other seen found
  · rw [prepared_versions u entry other] at found
    rw [content_prepared]
    exact filled.unset slot other found

end

theorem fresh_filled (member : u ∈ batch.updates) : Filled source u.key (freshEntry u) := by
  have data := update_data member
  refine ⟨?_, ?_, fun slot _ seen found => ?_, fun slot _ _ => ⟨?_, Finset.notMem_empty _⟩⟩
  · simp [freshEntry, data, Data.new]
  · simp [freshEntry, data, Data.new]
  · cases found
  · have values : u.data.values = u.data.kind.initial := by simp [data, Data.new]
    cases slot <;> first
      | rfl
      | exact congrFun values _

variable {revision : Nat} {steps : List Step} {slot : Field}

theorem Filled.merge (filled : Filled source key before) (merged : Merged revision steps before after)
    (carried : ∀ a, .assign a ∈ steps → source a.slot revision a.incoming a.isNull) : Filled source key after := by
  refine ⟨merged.frame.kind.trans filled.kind, merged.frame.link filled.link,
    fun slot other seen found => ?_, fun slot other found => ?_⟩
  · obtain same | ⟨a, member, rfl, version, content, null⟩ := merged.field slot
    · rw [same.content, decide_eq_decide.mpr same.null]
      exact filled.set slot other seen (same.version.symm.trans found)
    · cases version.symm.trans found
      have flag : decide (a.slot ∈ after.nulls) = a.isNull := by simp [null]
      rw [content, flag]
      exact carried a member
  · obtain same | ⟨_, _, _, version, _, _⟩ := merged.field slot
    · obtain ⟨content, null⟩ := filled.unset slot other (same.version.symm.trans found)
      exact ⟨same.content.trans (content.trans (by rw [merged.frame.kind])),
        fun set => null (same.null.mp set)⟩
    · rw [version] at found
      contradiction

theorem filled_merge (source : Source) (member : u ∈ batch.updates) {current : Option Entry}
    (clean : (merge u current).error = "")
    (found : ∀ entry, current = some entry → Filled source u.key entry)
    (carried : ∀ a, .assign a ∈ u.steps → source a.slot u.stamp.revision a.incoming a.isNull) :
    Filled source u.key (merge u current).entry ∧
      (merge u current).entry.owner = (current.getD (freshEntry u)).owner ∧
      (merge u current).entry.epoch = (current.getD (freshEntry u)).epoch := by
  obtain ⟨_, merged⟩ := steps_merged (update_loud member) clean
  have base : Filled source u.key (current.getD (freshEntry u)) := by
    cases current with
    | none => exact fresh_filled member
    | some entry => exact found entry rfl
  exact ⟨base.prepare.merge merged carried, merged.frame.owner, merged.frame.epoch⟩

/-- A null is the value a field begins with, a song has no album exactly when the
album is null, and artists and favorites are never null. -/
def Proper (kind : Kind) : Source := fun slot _ value null =>
  (null = true → value = initialContent kind slot) ∧
    (slot = .album → value = .link none → null = true) ∧
    (slot = .artists ∨ slot = .favorite → null = false)

/-- The assignments among the steps are proper for every kind. -/
private def AllProper (steps : List Step) : Prop :=
  ∀ kind a, .assign a ∈ steps → ∀ seen, Proper kind a.slot seen a.incoming a.isNull

private theorem proper_append {first second : List Step} (one : AllProper first)
    (two : AllProper second) : AllProper (first ++ second) := fun kind a member =>
  (List.mem_append.mp member).elim (one kind a) (two kind a)

private theorem proper_scalar {α : Type} {wrap : α → Value}
    {fits : ∀ value, slot.accepts (wrap value) = true} (value : Option α) (apart : slot ≠ .album) :
    AllProper (scalar slot wrap fits value) := by
  intro kind a member seen
  cases value with
  | none => cases member
  | some value =>
    obtain rfl : a = ⟨slot, wrap value, false, fits value⟩ := by simpa [scalar] using member
    exact ⟨fun null => (by cases null), fun album => absurd album apart, fun _ => rfl⟩

private theorem proper_nullable {α : Type} {wrap : α → Value} {zero : α}
    {fits : ∀ value, slot.accepts (wrap value) = true} (value : Option (Option α))
    (begins : ∀ kind, wrap zero = initialContent kind slot)
    (apart : slot ≠ .album ∧ slot ≠ .artists ∧ slot ≠ .favorite) :
    AllProper (nullable slot wrap fits zero value) := by
  intro kind a member seen
  cases value with
  | none => cases member
  | some wrapped =>
    obtain rfl : a = ⟨slot, wrap (wrapped.getD zero), wrapped.isNone, fits _⟩ := by
      simpa [nullable] using member
    refine ⟨fun null => ?_, fun album => absurd album apart.1, fun other => ?_⟩
    · obtain rfl := Option.isNone_iff_eq_none.mp null
      exact begins kind
    · exact (other.elim apart.2.1 apart.2.2).elim

private theorem proper_artists (ids : Option (List Int)) : AllProper (artistSteps ids) := by
  intro kind a member seen
  unfold artistSteps at member
  repeat' split at member
  all_goals simp only [List.mem_singleton, List.not_mem_nil, reduceCtorEq] at member
  cases member
  exact ⟨fun null => (by cases null), fun album => (by cases album), fun _ => rfl⟩

private theorem proper_album (link : Option (Option Int)) : AllProper (albumSteps link) := by
  intro kind a member seen
  unfold albumSteps at member
  repeat' split at member
  all_goals simp only [List.mem_singleton, List.not_mem_nil, reduceCtorEq] at member
  rename_i link _
  cases member
  refine ⟨fun null => ?_, fun _ missing => ?_, fun other => by simp at other⟩
  · obtain rfl := Option.isNone_iff_eq_none.mp null
    rfl
  · cases missing
    rfl

theorem update_proper (member : u ∈ batch.updates) {a : Assignment} (assigned : .assign a ∈ u.steps)
    (kind : Kind) (seen : Nat) : Proper kind a.slot seen a.incoming a.isNull := by
  suffices AllProper u.steps from this kind a assigned seen
  simp only [EntityBatch.updates, List.mem_append, List.mem_map] at member
  obtain ((⟨_, _, rfl⟩ | ⟨_, _, rfl⟩) | ⟨_, _, rfl⟩) | ⟨_, _, rfl⟩ := member
  all_goals
    repeat' apply proper_append
    all_goals first
      | exact proper_scalar _ (by decide)
      | exact proper_nullable _ (fun _ => rfl) (by decide)
      | exact proper_artists _
      | exact proper_album _

end Qcm.EntityOrigins
