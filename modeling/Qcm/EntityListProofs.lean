import Qcm.EntityLists

/-!
A list of entities shows what was asked for.  Ids, rows, pins and what the views
were told are four records of one list; each edit of a row keeps them together,
and the two loops of a synchronization are runs of such edits.
-/

namespace Qcm.EntityListProofs

open Lib EntityLists
open EntityStore (Store Kind Key canonical)

section Stores

/-- How often a key is pinned. -/
def pinned (store : Store) (key : Key) : Nat := Hash.value store.pins (canonical key) 0

theorem pinned_pin (store : Store) (held key : Key) :
    pinned (EntityStore.pin store held) key =
      pinned store key + if canonical key = canonical held then 1 else 0 := by
  simp only [pinned, EntityStore.pin, Hash.value_insert]
  split
  · rename_i same
    rw [same]
  · rfl

theorem pinned_unpin (store : Store) (held key : Key) :
    pinned (EntityStore.unpin store held) key =
      pinned store key - if canonical key = canonical held then 1 else 0 := by
  unfold EntityStore.unpin
  by_cases same : canonical key = canonical held
  · rw [if_pos same]
    cases found : store.pins.lookup (canonical held) with
    | none =>
      simp only [pinned, same]
      simp [Hash.value, found]
    | some count =>
      simp only [pinned, same]
      rcases count with _ | _ | count <;> simp [Hash.value, found]
  · rw [if_neg same]
    cases found : store.pins.lookup (canonical held) with
    | none => simp
    | some count =>
      rcases count with _ | _ | count <;> simp [pinned, Hash.value, same]

theorem canonical_type (kind : Kind) (id : Int) : canonical ⟨type kind, id⟩ = ⟨type kind, id⟩ := by
  cases kind <;> rfl

end Stores

section Frame

variable {σ : Type} [DecidableEq σ] {kind : Kind} {id : Int} {ids : List Int} {list : EntityList σ}

@[simp] theorem pin_ids : (pin kind id list).ids = list.ids := by unfold pin; split <;> rfl
@[simp] theorem pin_rows : (pin kind id list).rows = list.rows := by unfold pin; split <;> rfl
@[simp] theorem pin_source : (pin kind id list).source = list.source := by unfold pin; split <;> rfl
@[simp] theorem pin_announced : (pin kind id list).announced = list.announced := by unfold pin; split <;> rfl
@[simp] theorem unpin_ids : (unpin kind id list).ids = list.ids := by unfold unpin change; split <;> [rfl; split <;> rfl]
@[simp] theorem unpin_source : (unpin kind id list).source = list.source := by
  unfold unpin change; split <;> [rfl; split <;> rfl]
@[simp] theorem unpin_announced : (unpin kind id list).announced = list.announced := by
  unfold unpin change; split <;> [rfl; split <;> rfl]

omit [DecidableEq σ] in
@[simp] theorem reindex_ids : (reindex list).ids = list.ids := rfl
omit [DecidableEq σ] in
@[simp] theorem reindex_source : (reindex list).source = list.source := rfl
omit [DecidableEq σ] in
@[simp] theorem reindex_stores : (reindex list).stores = list.stores := rfl
omit [DecidableEq σ] in
@[simp] theorem reindex_announced : (reindex list).announced = list.announced := rfl

theorem unpins_frame (kind : Kind) (ids : List Int) (list : EntityList σ) :
    (ids.foldl (fun list id => unpin kind id list) list).ids = list.ids ∧
    (ids.foldl (fun list id => unpin kind id list) list).source = list.source ∧
    (ids.foldl (fun list id => unpin kind id list) list).announced = list.announced := by
  induction ids generalizing list with
  | nil => exact ⟨rfl, rfl, rfl⟩
  | cons id ids ih =>
    obtain ⟨same, source, announced⟩ := ih (unpin kind id list)
    exact ⟨same.trans unpin_ids, source.trans unpin_source, announced.trans unpin_announced⟩

end Frame

section Records

variable {σ : Type} [DecidableEq σ] (kind : Kind) (base : σ → Store) (list : EntityList σ)

/-- The row map says of each id where it stands, and of no other that it stands anywhere. -/
def Indexed : Prop := ∀ id row, list.rows.lookup id = some row ↔ list.ids[row]? = some id

/-- The list adds one pin to each of the ids in its own store, and none elsewhere. -/
def PinsExactly (ids : List Int) : Prop :=
  ∀ owner key, pinned (list.stores owner) key = pinned (base owner) key +
    if list.source = some owner ∧ (canonical key).type = type kind ∧ (canonical key).id ∈ ids then 1 else 0

structure Kept : Prop where
  positive : ∀ id ∈ list.ids, 0 < id
  nodup : list.ids.Nodup
  indexed : Indexed list
  pins : PinsExactly kind base list list.ids

/-- The views were told how the rows of one list became those of the other. -/
def Shown (list after : EntityList σ) : Prop :=
  ∃ changes, after.announced = list.announced ++ changes ∧ RowChange.replay list.ids changes = some after.ids

end Records

section Pins

variable {σ : Type} [DecidableEq σ] {kind : Kind} {base : σ → Store} {list : EntityList σ} {id : Int}
  {ids others : List Int}

theorem PinsExactly.congr (exact : PinsExactly kind base list ids) (same : ∀ id, id ∈ ids ↔ id ∈ others) :
    PinsExactly kind base list others := by
  intro owner key
  rw [exact owner key]
  simp only [same]

/-- What an edit of the shown store does to its pins is all that changes. -/
theorem PinsExactly.change {current : σ} {edit : Store → Store} (exact : PinsExactly kind base list ids)
    (bound : list.source = some current)
    (edited : ∀ key, pinned (edit (list.stores current)) key = pinned (base current) key +
      if (canonical key).type = type kind ∧ (canonical key).id ∈ others then 1 else 0) :
    PinsExactly kind base (change current edit list) others := by
  intro owner key
  by_cases here : owner = current
  · subst here
    simp [EntityLists.change, bound, edited]
  · have before := exact owner key
    have elsewhere : current ≠ owner := fun same => here same.symm
    simp only [bound, Option.some.injEq, elsewhere, false_and, if_false] at before
    simp [EntityLists.change, bound, Function.update_of_ne here, before, elsewhere]

theorem mem_cons_apart {key : Key} (apart : canonical key ≠ ⟨type kind, id⟩) :
    (canonical key).type = type kind ∧ (canonical key).id ∈ id :: ids ↔
      (canonical key).type = type kind ∧ (canonical key).id ∈ ids := by
  refine and_congr_right fun typed => ?_
  rw [List.mem_cons, or_iff_right fun equal => apart (by rw [← typed, ← equal])]

theorem PinsExactly.pin (exact : PinsExactly kind base list ids) (fresh : id ∉ ids) :
    PinsExactly kind base (pin kind id list) (id :: ids) := by
  unfold EntityLists.pin
  split
  · rename_i bound
    intro owner key
    simpa [bound] using exact owner key
  · rename_i current bound
    refine exact.change bound fun key => ?_
    have before := exact current key
    simp only [bound, true_and] at before
    rw [pinned_pin, canonical_type, before]
    by_cases same : canonical key = ⟨type kind, id⟩
    · simp [same, fresh]
    · rw [if_neg same, if_congr (mem_cons_apart same) rfl rfl, Nat.add_zero]

theorem PinsExactly.unpin (exact : PinsExactly kind base list (id :: ids)) (fresh : id ∉ ids) (positive : 0 < id) :
    PinsExactly kind base (unpin kind id list) ids := by
  unfold EntityLists.unpin
  split
  · rename_i bound
    intro owner key
    simpa [bound] using exact owner key
  · rename_i current bound
    rw [if_pos positive]
    refine exact.change bound fun key => ?_
    have before := exact current key
    simp only [bound, true_and] at before
    rw [pinned_unpin, canonical_type, before]
    by_cases same : canonical key = ⟨type kind, id⟩
    · simp [same, fresh]
    · rw [if_neg same, if_congr (mem_cons_apart same) rfl rfl, Nat.sub_zero]

theorem PinsExactly.unpins (exact : PinsExactly kind base list (ids ++ others)) (apart : (ids ++ others).Nodup)
    (positive : ∀ id ∈ ids, 0 < id) :
    PinsExactly kind base (ids.foldl (fun list id => EntityLists.unpin kind id list) list) others := by
  induction ids generalizing list with
  | nil => exact exact
  | cons id ids ih =>
    rw [List.cons_append, List.nodup_cons] at apart
    exact ih (exact.unpin apart.1 (positive id (by simp))) apart.2 fun other member => positive other (by simp [member])

end Pins

section Index

variable {σ : Type} {list : EntityList σ}

theorem indexed_reindex (apart : list.ids.Nodup) : Indexed (reindex list) := Hash.lookup_numbered apart

theorem Indexed.isNone_iff (indexed : Indexed list) (id : Int) :
    (list.rows.lookup id).isNone = true ↔ id ∉ list.ids := by
  rw [Option.isNone_iff_eq_none, List.mem_iff_getElem?, not_exists]
  constructor
  · intro absent row found
    rw [← indexed id row, absent] at found
    cases found
  · intro absent
    cases found : list.rows.lookup id with
    | none => rfl
    | some row => exact absurd ((indexed id row).mp found) (absent row)

end Index

section Edits

variable {σ : Type} [DecidableEq σ] {kind : Kind} {base : σ → Store} {list middle after : EntityList σ} {id : Int}
  {front rest back : List Int}

omit [DecidableEq σ] in
theorem Shown.refl : Shown list list := ⟨[], by simp, rfl⟩

omit [DecidableEq σ] in
theorem Shown.trans (first : Shown list middle) (second : Shown middle after) : Shown list after := by
  obtain ⟨changes, told, shown⟩ := first
  obtain ⟨more, later, final⟩ := second
  exact ⟨changes ++ more, by rw [later, told, List.append_assoc], RowChange.replay_append shown final⟩

omit [DecidableEq σ] in
theorem Shown.single (change : RowChange Int) (told : after.announced = list.announced ++ [change])
    (valid : change.Valid list.ids) (same : change.apply list.ids = after.ids) : Shown list after :=
  ⟨[change], told, same ▸ RowChange.replay_single valid⟩

theorem Kept.rearranged (kept : Kept kind base list) (after : EntityList σ) (same : after.ids.Perm list.ids)
    (stores : after.stores = list.stores) (source : after.source = list.source) : Kept kind base (reindex after) where
  positive id member := kept.positive id (same.mem_iff.mp member)
  nodup := same.nodup_iff.mpr kept.nodup
  indexed := indexed_reindex (same.nodup_iff.mpr kept.nodup)
  pins owner key := by
    have before := kept.pins owner key
    simp only [reindex_stores, reindex_source, reindex_ids, stores, source, before, same.mem_iff]

theorem removeAt_kept (kept : Kept kind base list) (here : list.ids = front ++ id :: back) :
    Kept kind base (removeAt kind front.length id list) ∧
      (removeAt kind front.length id list).ids = front ++ back ∧
      (removeAt kind front.length id list).source = list.source ∧
      Shown list (removeAt kind front.length id list) := by
  have apart := kept.nodup
  rw [here, List.nodup_middle, List.nodup_cons] at apart
  have left : list.ids.eraseIdx front.length = front ++ back := by
    rw [here, eraseIdx_length_append]
  have pins : PinsExactly kind base (unpin kind id list) (front ++ back) :=
    (kept.pins.congr fun other => by rw [here]; simp [or_left_comm]).unpin apart.1
      (kept.positive id (by simp [here]))
  have ids : (removeAt kind front.length id list).ids = front ++ back := by
    simp only [removeAt, announce, reindex, unpin_ids, left]
  refine ⟨⟨?_, ?_, ?_, ?_⟩, ids, ?_, Shown.single (.remove front.length front.length) ?_ ?_ ?_⟩
  · intro other member
    rw [ids] at member
    exact kept.positive other (by rw [here]; simp only [List.mem_append, List.mem_cons] at member ⊢; tauto)
  · rw [ids]
    exact apart.2
  · have indexed : Indexed (reindex { unpin kind id list with ids := list.ids.eraseIdx front.length }) :=
      indexed_reindex (by simpa [left] using apart.2)
    simp only [removeAt, unpin_ids]
    exact indexed
  · rw [ids]
    exact fun owner key => pins owner key
  · simp [removeAt, announce, reindex]
  · simp [removeAt, announce, reindex]
  · simp [RowChange.Valid, here]
  · rw [here, RowChange.apply_remove_at, ids]

/-- The row at the end of what is in its place already: it stays, comes up or comes in. -/
theorem place_kept (kept : Kept kind base list) (here : list.ids = front ++ rest) (fresh : id ∉ front)
    (positive : 0 < id) :
    ∃ others, (place kind front.length id list).ids = (front ++ [id]) ++ others ∧
      (∀ other ∈ others, other ∈ rest) ∧
      Kept kind base (place kind front.length id list) ∧
      (place kind front.length id list).source = list.source ∧
      Shown list (place kind front.length id list) := by
  by_cases stands : list.ids[front.length]? = some id
  · have first : rest[0]? = some id := by
      rwa [here, List.getElem?_append_right le_rfl, Nat.sub_self] at stands
    obtain ⟨others, rfl⟩ : ∃ others, rest = id :: others := by
      cases rest with
      | nil => cases first
      | cons head others =>
        rw [List.getElem?_cons_zero, Option.some.injEq] at first
        exact ⟨others, by rw [first]⟩
    rw [place, if_pos stands]
    exact ⟨others, by simp [here], fun other member => by simp [member], kept, rfl, Shown.refl⟩
  · cases found : list.rows.lookup id with
    | some existing =>
      have stood := (kept.indexed id existing).mp found
      have inside : id ∈ rest := by
        have member := List.mem_of_getElem? stood
        rw [here, List.mem_append] at member
        exact member.resolve_left fresh
      obtain ⟨middle, back, rfl⟩ := List.append_of_mem inside
      have row : existing = front.length + middle.length := by
        have same : list.ids[front.length + middle.length]? = some id := by
          rw [here, ← List.append_assoc, List.getElem?_append_right (by simp), List.length_append, Nat.sub_self]
          rfl
        rw [← kept.indexed, found, Option.some.injEq] at same
        exact same
      have moved : (list.ids.eraseIdx existing).insertIdx front.length id = front ++ id :: (middle ++ back) := by
        rw [here, row, ← List.append_assoc, ← List.length_append, eraseIdx_length_append, List.append_assoc,
          insertIdx_length_append]
      have order : (front ++ id :: (middle ++ back)).Perm list.ids := by
        rw [here]
        exact List.Perm.append_left front List.perm_middle.symm
      rw [place, if_neg stands, found]
      refine ⟨middle ++ back, ?_, ?_, ?_, rfl, ?_⟩
      · simp [announce, reindex, moved]
      · intro other member
        simp only [List.mem_append, List.mem_cons] at member ⊢
        tauto
      · have same := kept.rearranged { list with ids := (list.ids.eraseIdx existing).insertIdx front.length id }
          (by simpa only [moved] using order) rfl rfl
        exact { same with }
      · refine Shown.single (.move existing existing front.length) rfl ?_ ?_
        · have behind : middle ≠ [] := by
            rintro rfl
            exact stands (by simpa [row] using stood)
          have later := List.length_pos_iff.mpr behind
          simp only [RowChange.Valid, here, row, List.length_append, List.length_cons]
          omega
        · simp only [announce, reindex, moved]
          rw [here, row, ← List.append_assoc, RowChange.apply_move_up]
    | none =>
      have absent : id ∉ list.ids := (kept.indexed.isNone_iff id).mp (by simp [found])
      have put : list.ids.insertIdx front.length id = front ++ id :: rest := by
        rw [here, insertIdx_length_append]
      have apart : (front ++ id :: rest).Nodup := by
        rw [List.nodup_middle, List.nodup_cons, ← here]
        exact ⟨absent, kept.nodup⟩
      rw [place, if_neg stands, found]
      have ids : (announce (.insert front.length [id])
          (reindex (pin kind id { list with ids := list.ids.insertIdx front.length id }))).ids = front ++ id :: rest := by
        simp [announce, put]
      refine ⟨rest, ?_, fun other member => member, ⟨?_, ?_, ?_, ?_⟩, ?_, ?_⟩
      · rw [ids]
        simp
      · rw [ids]
        intro other member
        obtain rfl | old : other = id ∨ other ∈ list.ids := by
          rw [here]
          simp only [List.mem_append, List.mem_cons] at member ⊢
          tauto
        · exact positive
        · exact kept.positive other old
      · rw [ids]
        exact apart
      · exact indexed_reindex (by simpa [put] using apart)
      · rw [ids]
        have before : PinsExactly kind base { list with ids := list.ids.insertIdx front.length id } list.ids := kept.pins
        refine PinsExactly.congr (before.pin absent) fun other => ?_
        rw [here]
        simp [or_left_comm]
      · simp [announce]
      · refine Shown.single (.insert front.length [id]) (by simp [announce]) ?_ ?_
        · simp [RowChange.Valid, here]
        · rw [ids, here, RowChange.apply_insert_at]

end Edits

section Wanted

/-- The first occurrences of the positive ids, in their order. -/
def firsts (ids : List Int) : List Int := (ids.filter (0 < ·)).eraseDups

private theorem foldl_wanted (ids held : List Int) :
    ids.foldl (fun wanted id => if 0 < id ∧ id ∉ wanted then wanted ++ [id] else wanted) held =
      held ++ firsts (ids.filter (· ∉ held)) := by
  induction ids generalizing held with
  | nil => simp [firsts]
  | cons id ids ih =>
    rw [List.foldl_cons, ih]
    by_cases there : id ∈ held
    · simp [there]
    · by_cases positive : 0 < id
      · rw [if_pos ⟨positive, there⟩, List.filter_cons_of_pos (by simpa using there)]
        simp only [firsts, List.filter_filter, List.filter_cons_of_pos, positive, decide_true, List.eraseDups_cons,
          List.append_assoc, List.singleton_append, List.mem_append, List.mem_singleton]
        congr 3
        refine List.filter_congr fun other _ => ?_
        by_cases same : other = id <;> simp [same, and_comm]
      · rw [if_neg (by simp [positive]), List.filter_cons_of_pos (by simpa using there)]
        simp [firsts, positive]

theorem wanted_eq (ids : List Int) : wanted ids = firsts ids := by
  rw [wanted, foldl_wanted]
  simp

theorem firsts_positive {ids : List Int} {id : Int} (member : id ∈ firsts ids) : 0 < id := by
  rw [firsts, List.mem_eraseDups, List.mem_filter, decide_eq_true_iff] at member
  exact member.2

private theorem nodup_eraseDups (ids : List Int) : ids.eraseDups.Nodup := by
  induction length : ids.length using Nat.strong_induction_on generalizing ids with
  | _ count ih =>
    cases ids with
    | nil => simp
    | cons id ids =>
      rw [List.eraseDups_cons, List.nodup_cons, List.mem_eraseDups]
      have shorter := List.length_filter_le (fun other => !other == id) ids
      rw [List.length_cons] at length
      exact ⟨by simp, ih _ (by omega) _ rfl⟩

theorem firsts_nodup (ids : List Int) : (firsts ids).Nodup := nodup_eraseDups _

end Wanted

section Loops

variable {σ : Type} [DecidableEq σ] {kind : Kind} {base : σ → Store} {list : EntityList σ}
  {ids front back rest : List Int}

theorem removeOthers_kept (wanted : List Int) (kept : Kept kind base list) (here : list.ids = front ++ back)
    (settled : ∀ id ∈ back, id ∈ wanted) :
    Kept kind base (removeOthers kind wanted front.length list) ∧
      (∀ id ∈ (removeOthers kind wanted front.length list).ids, id ∈ wanted) ∧
      (removeOthers kind wanted front.length list).source = list.source ∧
      Shown list (removeOthers kind wanted front.length list) := by
  induction front using List.reverseRecOn generalizing list back with
  | nil => exact ⟨kept, by simpa [removeOthers, here] using settled, rfl, Shown.refl⟩
  | append_singleton front id ih =>
    rw [List.append_assoc, List.singleton_append] at here
    have stands : list.ids[front.length]? = some id := by
      rw [here, List.getElem?_append_right le_rfl, Nat.sub_self]
      rfl
    rw [List.length_append, List.length_singleton, removeOthers, stands]
    by_cases member : id ∈ wanted
    · simp only [if_pos member]
      refine ih kept here fun other inside => ?_
      obtain rfl | old := List.mem_cons.mp inside
      · exact member
      · exact settled other old
    · simp only [if_neg member]
      obtain ⟨still, ids, source, shown⟩ := removeAt_kept kept here
      obtain ⟨final, all, same, told⟩ := ih still ids settled
      exact ⟨final, all, same.trans source, shown.trans told⟩

/-- What is in front stands as it is wanted, and of what follows each id is still to come. -/
theorem placeAll_kept (done todo : List Int) (kept : Kept kind base list) (here : list.ids = done ++ rest) (apart : (done ++ todo).Nodup)
    (positive : ∀ id ∈ todo, 0 < id) (left : ∀ id ∈ rest, id ∈ todo) :
    Kept kind base (placeAll kind done.length todo list) ∧
      (placeAll kind done.length todo list).ids = done ++ todo ∧
      (placeAll kind done.length todo list).source = list.source ∧
      Shown list (placeAll kind done.length todo list) := by
  induction todo generalizing done rest list with
  | nil =>
    have none : rest = [] := List.eq_nil_iff_forall_not_mem.mpr fun id member => by simpa using left id member
    subst none
    exact ⟨kept, by simpa [placeAll] using here, rfl, Shown.refl⟩
  | cons id todo ih =>
    have fresh : id ∉ done := by
      rw [List.nodup_middle, List.nodup_cons] at apart
      exact fun member => apart.1 (by simp [member])
    obtain ⟨others, ids, old, still, source, shown⟩ := place_kept kept here fresh (positive id (by simp))
    have next : ∀ other ∈ others, other ∈ todo := by
      intro other member
      have once := still.nodup
      rw [ids, List.append_assoc, List.singleton_append, List.nodup_middle, List.nodup_cons] at once
      obtain rfl | later := List.mem_cons.mp (left other (old other member))
      · exact absurd (by simp [member]) once.1
      · exact later
    obtain ⟨final, all, same, told⟩ := ih _ still ids (by simpa using apart)
      (fun other member => positive other (by simp [member])) next
    rw [List.length_append, List.length_singleton] at final all same told
    exact ⟨final, by rw [placeAll, all]; simp, same.trans source, shown.trans told⟩

section

variable (kept : Kept kind base list)
include kept

theorem syncKeys_kept (ids : List Int) :
    Kept kind base (syncKeys kind ids list) ∧ (syncKeys kind ids list).ids = firsts ids ∧
      (syncKeys kind ids list).source = list.source ∧ Shown list (syncKeys kind ids list) := by
  obtain ⟨thinned, all, source, shown⟩ := removeOthers_kept (EntityLists.wanted ids) kept
    (List.append_nil list.ids).symm (by simp)
  obtain ⟨final, placed, same, told⟩ := placeAll_kept [] (EntityLists.wanted ids) thinned rfl
    (by simpa [wanted_eq] using firsts_nodup ids)
    (fun id member => firsts_positive (by rwa [wanted_eq] at member)) all
  refine ⟨final, ?_, same.trans source, shown.trans told⟩
  rw [wanted_eq] at placed
  simpa [syncKeys, wanted_eq] using placed

theorem push_kept (id : Int) : Kept kind base (push kind list id) ∧
      (push kind list id).ids = (if 0 < id ∧ id ∉ list.ids then list.ids ++ [id] else list.ids) ∧
      (push kind list id).source = list.source ∧ (push kind list id).announced = list.announced := by
  unfold push
  simp only [kept.indexed.isNone_iff id]
  split
  · rename_i fresh
    refine ⟨⟨?_, ?_, ?_, ?_⟩, by simp, by simp, by simp⟩
    · intro other member
      rw [pin_ids, List.mem_append, List.mem_singleton] at member
      exact member.elim (kept.positive other) fun same => same ▸ fresh.1
    · rw [pin_ids]
      exact kept.nodup.append (List.nodup_singleton id) (by simpa using fresh.2)
    · intro other row
      rw [pin_ids, pin_rows, Hash.lookup_insert]
      by_cases same : other = id
      · subst same
        rw [if_pos rfl, Option.some.injEq]
        constructor
        · rintro rfl
          simp
        · intro found
          obtain ⟨bound, value⟩ := List.getElem?_eq_some_iff.mp found
          by_cases early : row < list.ids.length
          · rw [List.getElem_append_left early] at value
            exact absurd (value ▸ List.getElem_mem early) fresh.2
          · simp at bound
            omega
      · rw [if_neg same, kept.indexed other row]
        constructor
        · intro found
          rw [List.getElem?_append_left (List.getElem?_eq_some_iff.mp found).1]
          exact found
        · intro found
          obtain ⟨bound, value⟩ := List.getElem?_eq_some_iff.mp found
          by_cases early : row < list.ids.length
          · rwa [List.getElem?_append_left early] at found
          · have last : row = list.ids.length := by
              simp at bound
              omega
            subst last
            simp at value
            exact absurd value.symm same
    · rw [pin_ids]
      have before : PinsExactly kind base { list with
        rows := list.rows.insert id list.ids.length, ids := list.ids ++ [id] } list.ids := kept.pins
      exact (before.pin fresh.2).congr fun other => by simp [or_comm]
  · exact ⟨kept, rfl, rfl, rfl⟩

theorem pushes_kept (ids : List Int) : Kept kind base (ids.foldl (push kind) list) ∧
      (ids.foldl (push kind) list).ids =
        ids.foldl (fun wanted id => if 0 < id ∧ id ∉ wanted then wanted ++ [id] else wanted) list.ids ∧
      (ids.foldl (push kind) list).source = list.source ∧ (ids.foldl (push kind) list).announced = list.announced := by
  induction ids generalizing list with
  | nil => exact ⟨kept, rfl, rfl, rfl⟩
  | cons id ids ih =>
    obtain ⟨still, pushed, source, announced⟩ := push_kept kept id
    obtain ⟨final, all, same, told⟩ := ih still
    exact ⟨final, by rw [List.foldl_cons, List.foldl_cons, all, pushed], same.trans source, told.trans announced⟩

theorem resetKeys_kept (ids : List Int) :
    Kept kind base (resetKeys kind ids list) ∧ (resetKeys kind ids list).ids = firsts ids ∧
      (resetKeys kind ids list).source = list.source ∧ Shown list (resetKeys kind ids list) := by
  obtain ⟨same, source, announced⟩ := unpins_frame kind list.ids list
  have none : PinsExactly kind base (list.ids.foldl (fun list id => unpin kind id list) list) [] := by
    refine PinsExactly.unpins ?_ (by simpa using kept.nodup) kept.positive
    rw [List.append_nil]
    exact kept.pins
  have cleared : Kept kind base { list.ids.foldl (fun list id => unpin kind id list) list with ids := [], rows := ∅ } :=
    ⟨by simp, List.nodup_nil, fun id row => by simp, none⟩
  obtain ⟨final, all, still, told⟩ := pushes_kept cleared ids
  have filled : (resetKeys kind ids list).ids = firsts ids := by
    rw [← wanted_eq]
    exact all
  exact ⟨{ final with }, filled, still.trans source,
    Shown.single _ (congrArg (· ++ _) (told.trans announced)) trivial rfl⟩

theorem rawErase_kept {first last : Nat} (order : first ≤ last) :
    Kept kind base (rawErase kind first last list) ∧
      (rawErase kind first last list).ids = list.ids.take first ++ list.ids.drop last ∧
      (rawErase kind first last list).source = list.source ∧
      (rawErase kind first last list).announced = list.announced := by
  have split : list.ids = list.ids.take first ++ ((list.ids.take last).drop first ++ list.ids.drop last) := by
    have front : list.ids.take last = list.ids.take first ++ (list.ids.take last).drop first := by
      conv_lhs => rw [← List.take_append_drop first (list.ids.take last), List.take_take, Nat.min_eq_left order]
    rw [← List.append_assoc, ← front, List.take_append_drop]
  have order : list.ids.Perm ((list.ids.take last).drop first ++ (list.ids.take first ++ list.ids.drop last)) := by
    conv_lhs => rw [split]
    rw [← List.append_assoc, ← List.append_assoc]
    exact List.perm_append_comm.append_right _
  have apart := order.nodup_iff.mp kept.nodup
  obtain ⟨same, source, announced⟩ :=
    unpins_frame kind ((list.ids.take last).drop first) list
  have pins : PinsExactly kind base
      (((list.ids.take last).drop first).foldl (fun list id => unpin kind id list) list)
      (list.ids.take first ++ list.ids.drop last) :=
    PinsExactly.unpins (kept.pins.congr fun id => order.mem_iff) apart
      fun id member => kept.positive id (order.mem_iff.mpr (List.mem_append_left _ member))
  have ids : (rawErase kind first last list).ids = list.ids.take first ++ list.ids.drop last := by
    simp only [rawErase, reindex, same]
  refine ⟨⟨?_, ?_, ?_, ?_⟩, ids, source, announced⟩
  · rw [ids]
    exact fun id member => kept.positive id (order.mem_iff.mpr (List.mem_append_right _ member))
  · rw [ids]
    exact (List.nodup_append.mp apart).2.1
  · exact indexed_reindex (by rw [same]; exact (List.nodup_append.mp apart).2.1)
  · rw [ids]
    exact fun owner key => pins owner key

end

end Loops

section Runs

variable {σ : Type} [DecidableEq σ]

/-- What a request asks for: the first occurrences of the ids it names, the rows
it does not take, nothing of another store.  A request with an id that is not
positive asks for nothing. -/
def requested (list : EntityList σ) : Request σ → List Int
  | .resetIds ids => if valid ids then firsts ids else list.ids
  | .syncIds ids => if valid ids then firsts ids else list.ids
  | .appendIds ids => if valid ids then firsts (list.ids ++ ids) else list.ids
  | .removeRows first last => list.ids.take first ++ list.ids.drop last
  | .setStore source => if list.source = some source then list.ids else []

/-- The lists that requests lead to. -/
inductive Reachable (kind : Kind) (removed : Nat → Nat → List (RowChange Int)) (stores : σ → Store) (source : σ) :
    EntityList σ → Prop
  | new : Reachable kind removed stores source (EntityList.new kind stores source)
  | step {list : EntityList σ} {request : Request σ} (reached : Reachable kind removed stores source list)
      (fits : request.fits list) : Reachable kind removed stores source (step kind removed list request)

variable {kind : Kind} {removed : Nat → Nat → List (RowChange Int)} {base : σ → Store} {source : σ}
  {list : EntityList σ}

theorem new_kept : Kept kind base (EntityList.new kind base source) where
  positive id member := by cases member
  nodup := List.nodup_nil
  indexed id row := by
    have absent : (∅ : Hash Int Nat).lookup id = none := rfl
    simp [EntityList.new, setStore, absent]
  pins owner key := by simp [EntityList.new, setStore]

theorem setStore_kept {owner : σ} (source : σ) (kept : Kept kind base list) (bound : list.source = some owner) :
    Kept kind base (setStore kind source list) ∧
      (setStore kind source list).ids = (if list.source = some source then list.ids else []) ∧
      (setStore kind source list).source = some source ∧ Shown list (setStore kind source list) := by
  unfold setStore
  by_cases same : list.source = some source
  · rw [if_pos same, if_pos same]
    exact ⟨kept, rfl, same, Shown.refl⟩
  · obtain ⟨emptied, ids, _, shown⟩ := resetKeys_kept kept []
    have called : resetIds kind [] list = resetKeys kind [] list := rfl
    rw [if_neg same, if_neg same, bound, Option.isSome_some, if_pos rfl, called]
    refine ⟨⟨?_, ?_, emptied.indexed, ?_⟩, ids, rfl, shown⟩
    · exact emptied.positive
    · exact emptied.nodup
    · intro owner key
      have before := emptied.pins owner key
      rw [ids] at before ⊢
      simpa [firsts] using before

private theorem when_valid {owner : σ} {after : EntityList σ} {ids asked : List Int} (kept : Kept kind base list)
    (bound : list.source = some owner)
    (done : Kept kind base after ∧ after.ids = asked ∧ after.source = list.source ∧ Shown list after) :
    Kept kind base (if valid ids then after else list) ∧
      (if valid ids then after else list).ids = (if valid ids then asked else list.ids) ∧
      (∃ owner, (if valid ids then after else list).source = some owner) ∧
      Shown list (if valid ids then after else list) := by
  obtain ⟨still, all, same, shown⟩ := done
  split
  · exact ⟨still, all, ⟨owner, same.trans bound⟩, shown⟩
  · exact ⟨kept, rfl, ⟨owner, bound⟩, Shown.refl⟩

/-- What a request does: it keeps the four records together, and shows what it was asked for. -/
theorem step_kept {owner : σ}
    (announces : ∀ first last, first < last → removed first last = [.remove first (last - 1)])
    (kept : Kept kind base list) (bound : list.source = some owner) {request : Request σ} (fits : request.fits list) :
    Kept kind base (step kind removed list request) ∧
      (step kind removed list request).ids = requested list request ∧
      (∃ owner, (step kind removed list request).source = some owner) ∧
      Shown list (step kind removed list request) := by
  cases request with
  | resetIds ids => exact when_valid kept bound (resetKeys_kept kept ids)
  | syncIds ids => exact when_valid kept bound (syncKeys_kept kept ids)
  | appendIds ids => exact when_valid kept bound (syncKeys_kept kept (list.ids ++ ids))
  | removeRows first last =>
    obtain ⟨some, inside⟩ := fits
    obtain ⟨still, left, same, silent⟩ := rawErase_kept kept (Nat.le_of_lt some)
    refine ⟨{ still with }, left, ⟨owner, same.trans bound⟩,
      Shown.single (.remove first (last - 1)) ?_ ?_ ?_⟩
    · simp [step, announces first last some, silent]
    · simp only [RowChange.Valid]
      omega
    · rw [RowChange.apply, show last - 1 + 1 = last by omega]
      exact left.symm
  | setStore source =>
    obtain ⟨still, left, same, shown⟩ := setStore_kept source kept bound
    exact ⟨still, left, ⟨source, same⟩, shown⟩

theorem Reachable.kept (announces : ∀ first last, first < last → removed first last = [.remove first (last - 1)])
    (reached : Reachable kind removed base source list) :
    Kept kind base list ∧ ∃ owner, list.source = some owner := by
  induction reached with
  | new => exact ⟨new_kept, source, rfl⟩
  | step _ fits ih =>
    obtain ⟨kept, owner, bound⟩ := ih
    obtain ⟨still, _, source, _⟩ := step_kept announces kept bound fits
    exact ⟨still, source⟩

def announcing (first last : Nat) : List (RowChange Int) := [.remove first (last - 1)]

end Runs

end Qcm.EntityListProofs
