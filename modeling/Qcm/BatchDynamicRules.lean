import Qcm.BatchRepeatRules

/-!
Dynamic rows, images and albums of songs, written once and written again.  A
dynamic row comes to rest unless its entry says one favorite for a new row and
another for a row that is there.
-/

namespace Qcm.BatchDynamicRules

open Lib SyncDatabase SyncBatch SyncCoordinator BatchTables BatchWrites BatchRules
  BatchRepeatRules

variable {b d t u x y : Tables} {provider now later : Int} {mask : Mask}

/-! Dynamic rows. -/

/-- A dynamic row up to the time of its last write. -/
def bareDynamic (row : DynamicRow) : DynamicRow := { row with updateAt := 0 }

/-- What a new row gets from its entry. -/
def defaults (entry : DynamicInput) : DynamicFields :=
  entry.onInsert.getD ⟨.missing, .missing, .missing, .missing⟩

/-- The favorite after the flag of an entry. -/
def flagged (flag : Patch Bool) (written : Bool) (now : Int) (favorite : Option Int) : Option Int :=
  match flag with
  | .missing => favorite
  | .set value => if written then (if value then favorite.or (some now) else none) else favorite

/-- The row an entry makes of the one it finds, or of none. -/
def turned (mask : Mask) (now : Int) (kept : Bool) (entry : DynamicInput) (old : Option DynamicRow) : DynamicRow :=
  let model := old.getD DynamicRow.fresh
  let inserted := old.isNone
  { model with
    isExternal := patchField inserted (mask.allows "is_external") (defaults entry).isExternal
      entry.fields.isExternal model.isExternal
    remotePlayCount := patchField inserted (mask.allows "remote_play_count") (defaults entry).remotePlayCount
      entry.fields.remotePlayCount model.remotePlayCount
    remoteLastPlayedAt := patchField inserted (mask.allows "remote_last_played_at")
      (defaults entry).remoteLastPlayedAt entry.fields.remoteLastPlayedAt model.remoteLastPlayedAt
    favoriteAt := if kept then model.favoriteAt else
      patchField inserted (mask.allows "favorite_at") (defaults entry).favoriteAt entry.fields.favoriteAt
        (flagged entry.favorite (inserted || mask.allows "favorite") now model.favoriteAt)
    updateAt := now }

/-- What an entry must be like to be written at all. -/
def Sensible (mask : Mask) (entry : DynamicInput) : Prop :=
  (entry.favorite ≠ .missing → entry.fields.favoriteAt = .missing) ∧ mask.validate dynamicFields = .ok ()

variable {entry : DynamicInput} {old : Option DynamicRow} {kept : Int → Bool}
  {dynamics : Hash Int DynamicRow} {seen : List Int} {after : Database × List Int}
  {entries : List DynamicInput} {items : List (Int × ItemRow)}

theorem mark_iff {model row : DynamicRow} {inserted : Bool} : entry.mark model inserted mask now = .ok row ↔
      (entry.favorite ≠ .missing → entry.fields.favoriteAt = .missing) ∧
        row = { model with
          favoriteAt := flagged entry.favorite (inserted || mask.allows "favorite") now model.favoriteAt } := by
  unfold DynamicInput.mark flagged
  cases entry.favorite with
  | missing =>
    simp
    exact eq_comm
  | set value =>
    simp only [ne_eq, reduceCtorEq, not_false_eq_true, forall_const, unless_iff, not_not]
    refine and_congr_right fun _ => ?_
    split
    · simp [eq_comm]
    · simp only [Except.ok.injEq]
      exact eq_comm

theorem settled_eq (now : Int) (kept : Bool) {marked applied : DynamicRow}
    (mark : marked = { old.getD DynamicRow.fresh with
      favoriteAt := flagged entry.favorite (old.isNone || mask.allows "favorite") now
        (old.getD DynamicRow.fresh).favoriteAt })
    (apply : entry.apply marked old.isNone mask = .ok applied) : mask.validate dynamicFields = .ok () ∧
      { DynamicRow.restore applied kept (old.getD DynamicRow.fresh).favoriteAt with updateAt := now } =
        turned mask now kept entry old := by
  obtain ⟨_, valid, rest⟩ := bind_ok.mp apply
  cases pure_ok.mp rest
  subst mark
  refine ⟨valid, ?_⟩
  cases kept <;> simp [turned, DynamicRow.restore, defaults]

theorem apply_sensible (entry : DynamicInput) (model : DynamicRow) (inserted : Bool)
    (valid : mask.validate dynamicFields = .ok ()) : ∃ row, entry.apply model inserted mask = .ok row :=
  ⟨_, bind_ok.mpr ⟨_, valid, rfl⟩⟩

theorem writeDynamic_iff :
    writeDynamic provider mask now kept entry ({ t with dynamics := dynamics }.database, seen) = .ok after ↔
      ∃ id, Names { t with dynamics := dynamics } provider [] entry.item id ∧ id ∉ seen ∧ Sensible mask entry ∧
        0 ≤ (turned mask now (kept id) entry (dynamics.lookup id)).remotePlayCount ∧
        after = ({ t with
          dynamics := dynamics.insert id (turned mask now (kept id) entry (dynamics.lookup id)) }.database,
          id :: seen) := by
  simp only [writeDynamic]
  rw [resolve_and_iff]
  refine exists_congr fun id => ?_
  constructor
  · rintro ⟨item, named, rest⟩
    obtain ⟨new, rest⟩ := unless_iff.mp rest
    obtain ⟨marked, mark, rest⟩ := bind_ok.mp rest
    obtain ⟨applied, apply, rest⟩ := bind_ok.mp rest
    obtain ⟨count, rest⟩ := unless_iff.mp rest
    obtain ⟨agree, marked⟩ := mark_iff.mp mark
    obtain ⟨valid, settled⟩ := settled_eq now (kept id) marked apply
    cases pure_ok.mp rest
    have counts := congrArg DynamicRow.remotePlayCount settled
    refine ⟨⟨item, named⟩, new, ⟨agree, valid⟩, ?_, ?_⟩
    · exact counts ▸ not_lt.mp count
    · exact settled ▸ rfl
  · rintro ⟨⟨item, named⟩, new, ⟨agree, valid⟩, count, rfl⟩
    obtain ⟨applied, apply⟩ := apply_sensible entry { (dynamics.lookup id).getD DynamicRow.fresh with
        favoriteAt := flagged entry.favorite ((dynamics.lookup id).isNone || mask.allows "favorite") now
          ((dynamics.lookup id).getD DynamicRow.fresh).favoriteAt } (dynamics.lookup id).isNone valid
    have settled := (settled_eq now (kept id) rfl apply).2
    have counts := congrArg DynamicRow.remotePlayCount settled
    refine ⟨item, named, unless_iff.mpr ⟨new, bind_ok.mpr ⟨_, mark_iff.mpr ⟨agree, rfl⟩,
      bind_ok.mpr ⟨applied, apply, unless_iff.mpr ⟨?_, ?_⟩⟩⟩⟩⟩
    · exact not_lt.mpr (counts ▸ count)
    · exact settled ▸ rfl

/-- The favorite of a new row is settled by what its entry gives new rows, and the
flag, which may change rows that are there, says otherwise. -/
def Overruled (mask : Mask) (kept : Bool) (entry : DynamicInput) (old : Option DynamicRow) : Prop :=
  old = none ∧ kept = false ∧ mask.allows "favorite" = true ∧ ∃ value time,
    entry.favorite = .set value ∧ (defaults entry).favoriteAt = .set time ∧ time.isSome ≠ value

theorem favorite_again (now later : Int) {kept : Bool} (sensible : Sensible mask entry) :
    (turned mask later kept entry (some (turned mask now kept entry old))).favoriteAt =
        (turned mask now kept entry old).favoriteAt ↔ ¬Overruled mask kept entry old := by
  cases kept with
  | true => simp [turned, Overruled]
  | false =>
    cases flag : entry.favorite with
    | missing =>
      have agree : ¬Overruled mask false entry old := by simp [Overruled, flag]
      simp [turned, flagged, flag, agree]
    | set value =>
      have free := sensible.1 (by simp [flag])
      cases allowed : mask.allows "favorite" with
      | false => simp [turned, flagged, Overruled, flag, free, allowed, patchField, Patch.over]
      | true =>
        cases old with
        | some row =>
          have agree : ¬Overruled mask false entry (some row) := by simp [Overruled]
          cases value <;> simp [turned, flagged, flag, free, allowed, patchField, Patch.over, agree]
        | none =>
          -- Both flags have been seen by now: what is left is what a new row is given.
          cases given : (defaults entry).favoriteAt with
          | missing =>
            have agree : ¬Overruled mask false entry none := by simp [Overruled, given]
            cases value <;> simp [turned, flagged, flag, free, allowed, given, patchField, Patch.over, agree]
          | set time =>
            cases value <;> cases time <;>
              simp [turned, flagged, Overruled, flag, free, allowed, given, patchField, Patch.over]

@[simp] theorem count_again {kept : Bool} :
    (turned mask later kept entry (some (turned mask now kept entry old))).remotePlayCount =
      (turned mask now kept entry old).remotePlayCount := by
  simp [turned]

/-- A row comes to rest, unless its entry overrules itself. -/
theorem turned_again {kept : Bool} (sensible : Sensible mask entry) :
    bareDynamic (turned mask later kept entry (some (turned mask now kept entry old))) =
        bareDynamic (turned mask now kept entry old) ↔ ¬Overruled mask kept entry old := by
  rw [← favorite_again now later sensible]
  constructor
  · intro same
    have favorites := congrArg DynamicRow.favoriteAt same
    exact favorites
  · intro same
    simp only [bareDynamic, DynamicRow.mk.injEq, same]
    simp [turned]

/-- An entry can be written over the row of the item it names. -/
structure Turns (t : Tables) (provider : Int) (mask : Mask) (now : Int) (kept : Int → Bool)
    (dynamics : Hash Int DynamicRow) (entry : DynamicInput) (id : Int) : Prop where
  names : Names t provider [] entry.item id
  sensible : Sensible mask entry
  count : 0 ≤ (turned mask now (kept id) entry (dynamics.lookup id)).remotePlayCount

/-- The rows after a loop: those of its entries, and all others as they were. -/
structure Rewritten (mask : Mask) (now : Int) (kept : Int → Bool) (entries : List DynamicInput) (ids : List Int)
    (dynamics last : Hash Int DynamicRow) : Prop where
  each : List.Forall₂ (fun entry id =>
    last.lookup id = some (turned mask now (kept id) entry (dynamics.lookup id))) entries ids
  others : ∀ id, id ∉ ids → last.lookup id = dynamics.lookup id

theorem Turns.insert {kept : Int → Bool} {dynamics : Hash Int DynamicRow} {entry : DynamicInput} {id other : Int}
    {row : DynamicRow} (apart : other ≠ id) : Turns t provider mask now kept (dynamics.insert id row) entry other ↔
      Turns t provider mask now kept dynamics entry other := by
  have same : (dynamics.insert id row).lookup other = dynamics.lookup other := AList.lookup_insert_ne apart
  exact ⟨fun turns => ⟨turns.names, turns.sensible, same ▸ turns.count⟩,
    fun turns => ⟨turns.names, turns.sensible, same ▸ turns.count⟩⟩

theorem Rewritten.cons {kept : Int → Bool} {entries : List DynamicInput} {ids : List Int}
    {dynamics last : Hash Int DynamicRow} {entry : DynamicInput} {id : Int} (new : id ∉ ids)
    (rest : Rewritten mask now kept entries ids
      (dynamics.insert id (turned mask now (kept id) entry (dynamics.lookup id))) last) :
    Rewritten mask now kept (entry :: entries) (id :: ids) dynamics last where
  each := by
    refine .cons ?_ (forall₂_imp_mem rest.each.flip fun other member entry stored => ?_).flip
    · rw [rest.others id new, AList.lookup_insert]
    · have apart : other ≠ id := fun same => new (same ▸ member)
      rwa [AList.lookup_insert_ne apart] at stored
  others other apart := by
    simp only [List.mem_cons, not_or] at apart
    rw [rest.others other apart.2, AList.lookup_insert_ne apart.1]

private theorem Names.at_dynamics {kinds : List ItemType} {item : ItemRef} {id : Int} :
    Names { t with dynamics := dynamics } provider kinds item id ↔ Names t provider kinds item id :=
  ⟨fun names => names.grow (.of_still ⟨rfl, rfl, rfl⟩), fun names => names.grow (.of_still ⟨rfl, rfl, rfl⟩)⟩

theorem writeDynamics_settle
    (done : writeDynamics provider mask now kept entries ({ t with dynamics := dynamics }.database, seen) = .ok after) :
    ∃ ids last, List.Forall₂ (Turns t provider mask now kept dynamics) entries ids ∧ ids.Nodup ∧
      (∀ id ∈ ids, id ∉ seen) ∧ after.1 = { t with dynamics := last }.database ∧
      Rewritten mask now kept entries ids dynamics last := by
  induction entries generalizing dynamics seen with
  | nil =>
    cases done
    exact ⟨[], dynamics, .nil, List.nodup_nil, by simp, rfl, .nil, fun _ _ => rfl⟩
  | cons entry rest ih =>
    obtain ⟨middle, first, others⟩ := bind_ok.mp done
    obtain ⟨id, names, new, sensible, count, rfl⟩ := writeDynamic_iff.mp first
    obtain ⟨ids, last, turns, distinct, fresh, shape, rewritten⟩ := ih others
    have apart : id ∉ ids := fun member => fresh id member (by simp)
    refine ⟨id :: ids, last, .cons ⟨Names.at_dynamics.mp names, sensible, count⟩ ?_, List.nodup_cons.mpr ⟨apart, distinct⟩,
      ?_, shape, rewritten.cons apart⟩
    · refine (forall₂_imp_mem turns.flip fun other member entry turns => ?_).flip
      have kept : other ≠ id := fun same => apart (same ▸ member)
      exact (Turns.insert kept).mp turns
    · simp only [List.mem_cons, forall_eq_or_imp]
      exact ⟨new, fun other member => fun old => fresh other member (by simp [old])⟩

theorem writeDynamics_goes {ids : List Int}
    (turns : List.Forall₂ (Turns t provider mask now kept dynamics) entries ids) (distinct : ids.Nodup)
    (fresh : ∀ id ∈ ids, id ∉ seen) :
    ∃ after last, writeDynamics provider mask now kept entries ({ t with dynamics := dynamics }.database, seen) =
        .ok after ∧ after.1 = { t with dynamics := last }.database ∧ Rewritten mask now kept entries ids dynamics last := by
  induction entries generalizing ids dynamics seen with
  | nil =>
    cases turns
    exact ⟨_, dynamics, rfl, rfl, .nil, fun _ _ => rfl⟩
  | cons entry rest ih =>
    obtain _ | ⟨turn, turns⟩ := turns
    rename_i id ids
    obtain ⟨apart, distinct⟩ := List.nodup_cons.mp distinct
    have first := writeDynamic_iff.mpr ⟨id, Names.at_dynamics.mpr turn.names, fresh id (by simp), turn.sensible,
      turn.count, rfl⟩
    have later : List.Forall₂ (Turns t provider mask now kept
        (dynamics.insert id (turned mask now (kept id) entry (dynamics.lookup id)))) rest ids := by
      refine (forall₂_imp_mem turns.flip fun other member entry turns => ?_).flip
      have kept : other ≠ id := fun same => apart (same ▸ member)
      exact (Turns.insert kept).mpr turns
    have ahead : ∀ other ∈ ids, other ∉ id :: seen := fun other member => by
      have kept : other ≠ id := fun same => apart (same ▸ member)
      simp [kept, fresh other (by simp [member])]
    obtain ⟨after, last, gone, shape, rewritten⟩ := ih later distinct ahead
    exact ⟨after, last, bind_ok.mpr ⟨_, first, gone⟩, shape, rewritten.cons apart⟩

theorem insertDynamics_settle (now : Int) (db : Database) (items : List Int) :
    (∀ id ∈ items, ((insertDynamics now items db).dynamics.lookup id).isSome) ∧
      ∀ id, (db.dynamics.lookup id).isSome → (insertDynamics now items db).dynamics.lookup id = db.dynamics.lookup id := by
  induction items generalizing db with
  | nil => simp [insertDynamics]
  | cons head rest ih =>
    rw [insertDynamics, List.foldl_cons, ← insertDynamics]
    split
    · rename_i there
      obtain ⟨each, others⟩ := ih db
      refine ⟨fun id member => ?_, others⟩
      rcases List.mem_cons.mp member with rfl | member
      · rw [others id there, there]
      · exact each id member
    · rename_i absent
      obtain ⟨each, others⟩ := ih { db with dynamics := db.dynamics.insert head { DynamicRow.fresh with updateAt := now } }
      refine ⟨fun id member => ?_, fun id there => ?_⟩
      · rcases List.mem_cons.mp member with rfl | member
        · rw [others id (by simp), AList.lookup_insert, Option.isSome_some]
        · exact each id member
      · have apart : id ≠ head := fun same => absent (same ▸ there)
        have kept : (db.dynamics.insert head { DynamicRow.fresh with updateAt := now }).lookup id =
            db.dynamics.lookup id := AList.lookup_insert_ne apart
        rw [others id (by rw [kept, there]), kept]

theorem insertDynamics_again {items : List Int} {db : Database} (there : ∀ id ∈ items, (db.dynamics.lookup id).isSome) :
    insertDynamics now items db = db := by
  induction items with
  | nil => rfl
  | cons head rest ih =>
    rw [insertDynamics, List.foldl_cons, ← insertDynamics, if_pos (there head (by simp))]
    exact ih fun id member => there id (by simp [member])

/-- The dynamic rows a batch has left behind. -/
structure DynamicsSettled (t u : Tables) (provider : Int) (mask : Mask) (now : Int) (kept : Int → Bool)
    (entries : List DynamicInput) (items : List Int) (ids : List Int) : Prop where
  turns : List.Forall₂ (Turns t provider mask now kept t.dynamics) entries ids
  distinct : ids.Nodup
  stored : List.Forall₂ (fun entry id =>
    u.dynamics.lookup id = some (turned mask now (kept id) entry (t.dynamics.lookup id))) entries ids
  there : ∀ id ∈ items, (u.dynamics.lookup id).isSome

theorem dynamics_settle (done : writeDynamicRows provider mask now kept entries items t = .ok u) :
    ∃ ids, DynamicsSettled t u provider mask now kept entries (items.map Prod.fst) ids := by
  obtain ⟨⟨left, seen⟩, loop, rest⟩ := bind_ok.mp done
  cases pure_ok.mp rest
  obtain ⟨ids, last, turns, distinct, -, rfl, rewritten⟩ := writeDynamics_settle loop
  obtain ⟨each, others⟩ := insertDynamics_settle now { t with dynamics := last }.database (items.map Prod.fst)
  refine ⟨ids, turns, distinct, rewritten.each.imp fun entry id stored => ?_, each⟩
  exact (others id (Option.isSome_iff_exists.mpr ⟨_, stored⟩)).trans stored

/-- Written again, the rows are the same, unless an entry overrules itself. -/
theorem dynamics_again {written ids : List Int} (later : Int)
    (settled : DynamicsSettled t u provider mask now kept entries written ids) (grows : Grows t x)
    (same : x.dynamics = u.dynamics) (listed : items.map Prod.fst = written) :
    ∃ dynamics, writeDynamicRows provider mask later kept entries items x = .ok { x with dynamics := dynamics } ∧
      (Alike bareDynamic u.dynamics dynamics ↔ ∀ entry ∈ entries, ∀ id, Names t provider [] entry.item id →
        ¬Overruled mask (kept id) entry (t.dynamics.lookup id)) := by
  have turns : List.Forall₂ (Turns x provider mask later kept x.dynamics) entries ids :=
    settled.turns.mp (fun entry id turn stored => ⟨turn.names.grow grows, turn.sensible, by
      rw [same, stored, count_again]
      exact turn.count⟩) settled.stored
  have fresh : ∀ id ∈ ids, id ∉ ([] : List Int) := by simp
  obtain ⟨⟨left, seen⟩, last, gone, rfl, rewritten⟩ := writeDynamics_goes turns settled.distinct fresh
  have there : ∀ id ∈ written, (last.lookup id).isSome := fun id member => by
    by_cases named : id ∈ ids
    · obtain ⟨entry, -, stored⟩ := exists_of_forall₂ rewritten.each named
      exact Option.isSome_iff_exists.mpr ⟨_, stored⟩
    · rw [rewritten.others id named, same]
      exact settled.there id member
  have met : List.Forall₂ (fun entry id => (Turns t provider mask now kept t.dynamics entry id ∧
      u.dynamics.lookup id = some (turned mask now (kept id) entry (t.dynamics.lookup id))) ∧
      last.lookup id = some (turned mask later (kept id) entry (x.dynamics.lookup id))) entries ids :=
    (settled.turns.mp (fun _ _ turn stored => ⟨turn, stored⟩) settled.stored).mp
      (fun _ _ first second => ⟨first, second⟩) rewritten.each
  refine ⟨last, bind_ok.mpr ⟨_, gone, ?_⟩, fun alike entry member id names => ?_, fun settles key => ?_⟩
  · dsimp only
    rw [listed, insertDynamics_again there]
    rfl
  · obtain ⟨other, -, ⟨turn, stored⟩, again⟩ := value_of_forall₂ met member
    cases turn.names.one names
    have one := alike id
    rw [again, same, stored] at one
    exact (turned_again turn.sensible).mp (Option.some.inj one)
  · by_cases named : key ∈ ids
    · obtain ⟨entry, member, ⟨turn, stored⟩, again⟩ := exists_of_forall₂ met named
      rw [again, same, stored]
      exact congrArg some ((turned_again turn.sensible).mpr (settles entry member key turn.names))
    · rw [rewritten.others key named, same]

end Qcm.BatchDynamicRules
