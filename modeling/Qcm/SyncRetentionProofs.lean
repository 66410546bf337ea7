import Qcm.Lib.Runs
import Qcm.SyncCascadeProofs
import Qcm.SyncCoordinator

/-!
What holds of the retentions and of the items in every state of the coordinator:
the retained table of a provider counts its live retentions, a guard that has
read the table still knows every live retention, and an item stays with its
provider.
-/

namespace Qcm.SyncRetentionProofs

open Lib Lib.Runs SyncDatabase SyncBatch SyncCascadeProofs SyncCoordinator

section Frames

variable {w : World} {p q : Int} {k : Nat}

@[simp] theorem setProvider_providers (state : ProviderState) :
    (w.setProvider p state).providers q = if q = p then state else w.providers q := by
  simp [World.setProvider, Function.update_apply]

@[simp] theorem setProvider_retentions (state : ProviderState) :
    (w.setProvider p state).retentions = w.retentions := rfl

@[simp] theorem setProvider_db (state : ProviderState) : (w.setProvider p state).db = w.db := rfl

@[simp] theorem setProvider_runs (state : ProviderState) : (w.setProvider p state).runs = w.runs := rfl

@[simp] theorem setProvider_started (state : ProviderState) :
    (w.setProvider p state).started = w.started := rfl

@[simp] theorem setRun_providers (run : Option SyncRun) : (w.setRun k run).providers = w.providers := rfl

@[simp] theorem setRun_retentions (run : Option SyncRun) : (w.setRun k run).retentions = w.retentions := rfl

@[simp] theorem setRun_db (run : Option SyncRun) : (w.setRun k run).db = w.db := rfl

@[simp] theorem setRun_started (run : Option SyncRun) : (w.setRun k run).started = w.started := rfl

@[simp] theorem setRun_runs (run : Option SyncRun) (j : Nat) :
    (w.setRun k run).runs j = if j = k then run else w.runs j := by
  simp [World.setRun, Function.update_apply]

@[simp] theorem releaseFor_retentions : (w.releaseFor p k).retentions = w.retentions := by
  unfold World.releaseFor
  split <;> rfl

@[simp] theorem releaseFor_db : (w.releaseFor p k).db = w.db := by
  unfold World.releaseFor
  split <;> rfl

@[simp] theorem releaseFor_runs : (w.releaseFor p k).runs = w.runs := by
  unfold World.releaseFor
  split <;> rfl

@[simp] theorem releaseFor_started : (w.releaseFor p k).started = w.started := by
  unfold World.releaseFor
  split <;> rfl

theorem releaseFor_providers : (w.releaseFor p k).providers q = w.providers q ∨
    ∃ guard, (w.providers q).guard = some guard ∧ guard.holder = some k ∧ q = p ∧
      (w.releaseFor p k).providers q = (w.providers q).release := by
  unfold World.releaseFor
  split
  · rename_i mine
    by_cases same : q = p
    · obtain ⟨guard, held, holder⟩ := Option.any_eq_true _ _ |>.mp mine
      exact .inr ⟨guard, same ▸ held, by simpa using holder, same, by simp [same]⟩
    · exact .inl (by simp [same])
  · exact .inl rfl

end Frames

variable {db : Database} {p id : Int} {w after : World} {owner : Int → Int}

theorem retainCounts_value (ids : List Int) (counts : Hash Int Nat) (id : Int) :
    Hash.value (retainCounts counts ids) id 0 = Hash.value counts id 0 + ids.count id := by
  induction ids generalizing counts with
  | nil => rfl
  | cons head rest ih =>
    rw [retainCounts, List.foldl_cons, ← retainCounts, ih, Hash.value_insert, List.count_cons]
    by_cases same : id = head
    · simp [same]
      omega
    · simp [same, Ne.symm same]

private theorem dropCount_value (counts : Hash Int Nat) (head id : Int) :
    Hash.value (dropCount counts head) id 0 =
      Hash.value counts id 0 - if head = id then 1 else 0 := by
  unfold dropCount
  split
  · rename_i absent
    split
    · rename_i same
      subst same
      simp [Hash.value, absent]
    · rfl
  · rename_i count there
    by_cases same : head = id
    · subst same
      by_cases last : count - 1 = 0 <;> simp [Hash.value, there, last]
    · by_cases last : count - 1 = 0 <;>
        simp [Hash.value, last, same, Ne.symm same]

theorem dropCounts_value (ids : List Int) (counts : Hash Int Nat) (id : Int) :
    Hash.value (dropCounts counts ids) id 0 = Hash.value counts id 0 - ids.count id := by
  induction ids generalizing counts with
  | nil => rfl
  | cons head rest ih =>
    rw [dropCounts, List.foldl_cons, ← dropCounts, ih, dropCount_value, List.count_cons]
    by_cases same : head = id
    · simp [same]
      omega
    · simp [same]

theorem mem_candidates {row : ItemRow} :
    (id, row) ∈ db.candidates p ↔ db.items.lookup id = some row ∧ row.providerId = p := by
  simp [Database.candidates, Hash.lookup_eq_some_iff]

theorem candidates_nodup (db : Database) (p : Int) : ((db.candidates p).map Prod.fst).Nodup := by
  have keys : (db.items.entries.map Sigma.fst).Nodup := db.items.nodupKeys
  have shape : (db.candidates p).map Prod.fst =
      (db.items.entries.filter fun entry => entry.2.providerId = p).map Sigma.fst := by
    simp [Database.candidates]
  rw [shape]
  exact keys.sublist (List.filter_sublist.map _)

variable {kept ids : Finset Int} {entry : Int × List Int}

private theorem candidates_cover
    (whole : ((db.candidates p).filter fun entry => entry.1 ∈ kept).length = kept.card) (member : id ∈ kept) :
    ∃ row, db.items.lookup id = some row ∧ row.providerId = p := by
  set found := ((db.candidates p).filter fun entry => entry.1 ∈ kept).map Prod.fst with shape
  have nodup : found.Nodup := (candidates_nodup db p).sublist (List.filter_sublist.map _)
  have inside : found.toFinset ⊆ kept := by
    intro key there
    simp only [shape, List.mem_toFinset, List.mem_map, List.mem_filter, decide_eq_true_eq] at there
    obtain ⟨entry, ⟨_, there⟩, rfl⟩ := there
    exact there
  have size : found.toFinset.card = kept.card := by
    rw [List.toFinset_card_of_nodup nodup, shape, List.length_map, whole]
  have every := Finset.eq_of_subset_of_card_le inside size.ge
  rw [← every] at member
  simp only [shape, List.mem_toFinset, List.mem_map, List.mem_filter] at member
  obtain ⟨⟨key, row⟩, ⟨there, _⟩, rfl⟩ := member
  exact ⟨row, mem_candidates.mp there⟩

/-- Everything a retention keeps is an item of its provider. -/
theorem retainItems_owned (collected : db.retainItems p ids = .ok kept)
    (member : id ∈ kept) : ∃ row, db.items.lookup id = some row ∧ row.providerId = p := by
  simp only [Database.retainItems] at collected
  split at collected
  · cases collected
  split at collected
  · cases collected
  split at collected
  · cases collected
  rename_i whole
  cases collected
  exact candidates_cover (not_not.mp whole) member

/-- Some live retention holds the item. -/
def Retained (w : World) (id : Int) : Prop := ∃ entry ∈ w.retentions, id ∈ entry.2

/-- The live retentions of a provider that keep an item. -/
def keepers (w : World) (p id : Int) : Nat :=
  w.retentions.countP fun entry => entry.1 = p && entry.2.contains id

/-- What every reached state satisfies. -/
structure Sound (owner : Int → Int) (w : World) : Prop where
  owned : Owned owner w.db
  mine : ∀ entry ∈ w.retentions, entry.2.Nodup ∧ ∀ id ∈ entry.2, owner id = entry.1
  counted : ∀ p id, Hash.value (w.providers p).retained id 0 = keepers w p id
  surveyed : ∀ p guard kept, (w.providers p).guard = some guard → guard.retained = some kept →
    ∀ entry ∈ w.retentions, entry.1 = p → ∀ id ∈ entry.2, id ∈ kept

private theorem keepers_pos (live : entry ∈ w.retentions) (kept : id ∈ entry.2) : 0 < keepers w entry.1 id :=
  List.countP_pos_iff.mpr ⟨entry, live, by simpa using kept⟩

/-- Every item of a live retention is in the table. -/
theorem Sound.listed (sound : Sound owner w) (live : entry ∈ w.retentions)
    (kept : id ∈ entry.2) : id ∈ (w.providers entry.1).retained.keys := by
  have positive := keepers_pos live kept
  rw [← sound.counted, Hash.value] at positive
  cases there : (w.providers entry.1).retained.lookup id with
  | none => simp [there] at positive
  | some count =>
    have member : id ∈ (w.providers entry.1).retained :=
      AList.lookup_isSome.mp (by rw [there]; rfl)
    simpa [AList.mem_keys] using member

section Frame

variable {owner : Int → Int} {w : World}

private theorem Sound.setProvider (sound : Sound owner w) {state : ProviderState}
    (table : state.retained = (w.providers p).retained)
    (guards : ∀ guard kept, state.guard = some guard → guard.retained = some kept →
      (∃ before, (w.providers p).guard = some before ∧ before.retained = some kept) ∨
      kept = (w.providers p).retained.keys) :
    Sound owner (w.setProvider p state) := by
  refine ⟨sound.owned, sound.mine, fun q id => ?_, fun q guard kept held read entry live mine id member => ?_⟩
  · rw [setProvider_providers]
    split
    · rename_i same
      rw [table, same]
      exact sound.counted p id
    · exact sound.counted q id
  · rw [setProvider_providers] at held
    split at held
    · rename_i same
      rcases guards guard kept held read with ⟨before, held, read⟩ | rfl
      · exact sound.surveyed p before kept held read entry live (mine.trans same) id member
      · exact (mine.trans same) ▸ sound.listed live member
    · exact sound.surveyed q guard kept held read entry live mine id member

private theorem Sound.setRun (sound : Sound owner w) (k : Nat) (run : Option SyncRun) :
    Sound owner (w.setRun k run) := { sound with }

private theorem Sound.release (sound : Sound owner w) (p : Int) (active : Nat) :
    Sound owner (w.setProvider p { (w.providers p).release with active := active }) :=
  sound.setProvider rfl fun _ _ held _ => nomatch held

private theorem Sound.releaseFor (sound : Sound owner w) (p : Int) (k : Nat) :
    Sound owner (w.releaseFor p k) := by
  unfold World.releaseFor
  split
  · exact sound.release p _
  · exact sound

private theorem Sound.withDb (sound : Sound owner w) (owned : Owned owner db) :
    Sound owner { w with db := db } := { sound with owned := owned }

private theorem Owned.of_items {after : Database} (owned : Owned owner db)
    (fewer : ∀ id row, after.items.lookup id = some row → db.items.lookup id = some row) :
    Owned owner after := fun id row there => owned id row (fewer id row there)

private theorem Sound.retain (sound : Sound owner w)
    (free : (w.providers p).guard = none) (collected : w.db.retainItems p ids = .ok kept) :
    Sound owner { w.setProvider p { w.providers p with
        retained := retainCounts (w.providers p).retained (kept.sort (· ≤ ·)) } with
      retentions := (p, kept.sort (· ≤ ·)) :: w.retentions } := by
  refine ⟨sound.owned, ?_, fun q id => ?_, fun q guard known held read entry live mine id member => ?_⟩
  · intro entry live
    rcases List.mem_cons.mp live with rfl | live
    · refine ⟨Finset.sort_nodup _ _, fun id member => ?_⟩
      obtain ⟨row, there, belongs⟩ := retainItems_owned collected ((Finset.mem_sort _).mp member)
      rw [← belongs, sound.owned id row there]
    · exact sound.mine entry live
  · have before := sound.counted q id
    simp only [keepers, List.countP_cons, setProvider_providers] at before ⊢
    split
    · rename_i same
      subst same
      rw [retainCounts_value, before]
      congr 1
      rw [(Finset.sort_nodup _ _).count]
      simp
    · rename_i apart
      rw [before]
      simp [Ne.symm apart]
  · simp only [setProvider_providers] at held
    split at held
    · simp [free] at held
    · rename_i apart
      rcases List.mem_cons.mp live with rfl | live
      · exact absurd mine.symm apart
      · exact sound.surveyed q guard known held read entry live mine id member

private theorem Sound.forget (sound : Sound owner w) {ids : List Int} (live : (p, ids) ∈ w.retentions) :
    Sound owner { w.setProvider p { w.providers p with
        retained := dropCounts (w.providers p).retained ids } with
      retentions := w.retentions.erase (p, ids) } := by
  have less (entry : Int × List Int) (kept : entry ∈ w.retentions.erase (p, ids)) : entry ∈ w.retentions :=
    List.mem_of_mem_erase kept
  refine ⟨sound.owned, fun entry kept => sound.mine entry (less entry kept), fun q id => ?_,
    fun q guard known held read entry kept mine id member => ?_⟩
  · have before := sound.counted q id
    have nodup := (sound.mine _ live).1
    simp only [keepers, setProvider_providers] at before ⊢
    rw [List.countP_erase]
    simp only [live]
    split
    · rename_i same
      subst same
      rw [dropCounts_value, before, nodup.count]
      by_cases member : id ∈ ids <;> simp [member]
    · rename_i apart
      rw [before]
      simp [Ne.symm apart]
  · simp only [setProvider_providers] at held
    refine sound.surveyed q guard known ?_ read entry (less entry kept) mine id member
    split at held
    · rename_i same
      exact same ▸ held
    · exact held

end Frame

theorem Sound.step {event : Event} (sound : Sound owner w) (step : Step owner w event after) :
    Sound owner after := by
  cases step with
  | acquire free live =>
    refine sound.setProvider rfl fun guard kept held read => ?_
    cases held
    cases read
  | release held outside => exact sound.release _ _
  | write held outside owned => exact sound.withDb owned
  | @stamp p guard id held outside =>
    refine sound.setProvider ?_ fun after kept now read => .inl ⟨guard, held, ?_⟩
    · unfold ProviderState.favorite
      split_ifs <;> rfl
    · have same : ((w.providers p).favorite guard id).guard =
          some { guard with stamped := id :: guard.stamped } := by
        unfold ProviderState.favorite
        split_ifs <;> rfl
      rw [same] at now
      cases now
      exact read
  | setFavorite held outside foreign stamped mine => exact sound.withDb sound.owned
  | invalidateSync held outside =>
    exact sound.setProvider rfl fun guard kept held read => .inl ⟨guard, held, read⟩
  | readRetained held =>
    refine sound.setProvider rfl fun guard kept now read => .inr ?_
    cases now
    cases read
    rfl
  | dropBefore held outside foreign surveyed =>
    exact sound.withDb (Owned.of_items sound.owned fun id row there =>
      ((syncDropBefore_thins ..).items id row |>.mp there).1)
  | @start p free idle =>
    have opened : Sound owner (w.setProvider p { w.providers p with
        sequence := (w.providers p).sequence + 1
        active := (w.providers p).sequence + 1
        favorites := ∅
        favoriteOverflow := 0 }) :=
      sound.setProvider rfl fun guard kept held read => .inl ⟨guard, held, read⟩
    exact { opened with }
  | cancel => exact sound.setProvider rfl fun guard kept held read => .inl ⟨guard, held, read⟩
  | retain free collected => exact sound.retain free collected
  | forget live => exact sound.forget live
  | advance => exact { sound with }
  | bind there idle | fail there idle | request there idle done | refuse there idle refused
  | begin there idle waits passed => exact sound.setRun _ _
  | @enter k run caller op there waiting guarded free live fits =>
    have entered : Sound owner (w.setProvider run.provider
        ((w.providers run.provider).acquire (some run.token) (some k))) := by
      refine sound.setProvider rfl fun guard kept held read => ?_
      cases held
      cases read
    exact entered.setRun _ _
  | conflict there waiting free live foreign | observeLibrary there waiting found
  | refuseLibrary there waiting refused | returnLibraries there waiting => exact sound.setRun _ _
  | observeItems there inside resolved | refuseItems there inside refused =>
    exact (sound.releaseFor _ _).setRun _ _
  | commitBatch there inside written current live =>
    exact ((sound.releaseFor _ _).setRun _ _).withDb written.owned
  | excess there inside many => exact (sound.releaseFor _ _).setRun _ _
  | finalize there inside held mine surveyed few fewLibraries current live =>
    exact ((sound.release _ _).setRun _ _).withDb (Owned.of_items sound.owned fun id row there =>
      ((finalize_thins ..).items id row |>.mp there).1)
  | interrupt there busy | abandon there busy => exact (sound.releaseFor _ _).setRun _ _
  | @drop k run there idle =>
    have left : Sound owner (w.setProvider run.provider
        ((w.providers run.provider).cancel run.token)) :=
      sound.setProvider rfl fun guard kept held read => .inl ⟨guard, held, read⟩
    exact left.setRun _ _

theorem Sound.initial (initial : Initial owner w) : Sound owner w := by
  refine ⟨initial.owned, ?_, fun p id => ?_, fun p guard kept held => ?_⟩
  · simp [initial.free]
  · simp [keepers, initial.free, initial.fresh, ProviderState.fresh, Hash.value]
  · simp [initial.fresh, ProviderState.fresh] at held

/-- What a finalize that commits has found and what it does. -/
theorem finalized_cases {k : Nat} {pruned : List Int} (step : Step owner w (.finalized p k pruned) after) :
    ∃ run caller guard kept, w.runs k = some run ∧ run.provider = p ∧
      run.call = .inside caller .finalize ∧ (w.providers p).guard = some guard ∧
      guard.holder = some k ∧ guard.retained = some kept ∧ (w.providers p).active = run.token ∧
      pruned = (w.db.pruned p run.scopes run.seen kept.toFinset).map Prod.fst ∧
      after.db = w.db.finalize p run.scopes run.seen run.libraries kept.toFinset := by
  cases step with
  | finalize there inside held mine surveyed few fewLibraries current live =>
    exact ⟨_, _, _, _, there, rfl, inside, held, mine, surveyed, live, rfl, rfl⟩

/-- The states a coordinator can get into. -/
def Reachable (owner : Int → Int) : World → Prop :=
  Reach (Initial owner) (fun _ _ => True) (Step owner)

theorem Reachable.follows {events : List Event} (reached : Reachable owner w)
    (run : Follows (Step owner) w events after) : Reachable owner after := by
  induction run with
  | nil => exact reached
  | cons step _ ih => exact ih (reached.next trivial step)

theorem Reachable.sound (reached : Reachable owner w) : Sound owner w :=
  reached.invariant (fun _ => Sound.initial) fun _ _ _ sound _ step => sound.step step

end Qcm.SyncRetentionProofs
