import Qcm.CacheRuns

/-!
Of the versions of a key at most one is live.  A version is live from its
creation on until it is retired, condemned or deleted, and no change makes one
live again; the creation of another retires it.  So the live version that a
lookup finds is the one created last.
-/

namespace Qcm.CacheVersionProofs

open Lib Lib.Act ResourceFormat CacheState CacheDisk CacheLoad CacheStore
  CacheFiles CacheEvents CacheRules CacheSettle CachePurge CacheSound CacheChange
  CacheSteps

/-- There is a version of the key with this generation, whatever became of it. -/
def Known (s : Storage) (key generation : String) : Prop :=
  ∃ id row, s.tables.versions.lookup id = some row ∧ row.key = key ∧ row.generation = generation

/-- The version is there and was not retired, invalidated or found corrupt. -/
def Live (s : Storage) (key generation : String) : Prop :=
  ∃ id row, s.tables.versions.lookup id = some row ∧ row.key = key ∧ row.generation = generation ∧ row.obsolete = 0

/-- A key has at most one live version. -/
def Unique (rows : Hash Nat VersionRow) : Prop :=
  ∀ id other row same, rows.lookup id = some row → rows.lookup other = some same →
    row.key = same.key → row.obsolete = 0 → same.obsolete = 0 → id = other

/-- The version appeared between the two states. -/
def Creates (key generation : String) (s t : Storage) : Prop := ¬ Known s key generation ∧ Known t key generation

/-- One row comes from another: the same version, which does not become live again. -/
structure Descends (before after : VersionRow) : Prop where
  key : after.key = before.key
  generation : after.generation = before.generation
  live : after.obsolete = 0 → before.obsolete = 0

variable {row : VersionRow} {tables : Tables} {trace : List (Storage × Event × List Chance)}

theorem Descends.refl (row : VersionRow) : Descends row row := ⟨rfl, rfl, id⟩

theorem Descends.trans {first second third : VersionRow} (one : Descends first second) (two : Descends second third) :
    Descends first third :=
  ⟨two.key.trans one.key, two.generation.trans one.generation, fun live => one.live (two.live live)⟩

/-- Every row comes from the one of its id. -/
def Succeeds (rel : VersionRow → VersionRow → Prop) (before after : Hash Nat VersionRow) : Prop :=
  ∀ id row, after.lookup id = some row → ∃ old, before.lookup id = some old ∧ rel old row

/-- What the changes on behalf of an event do to a row, as a relation of the row before and after. -/
structure Carried (event : Event) (rel : VersionRow → VersionRow → Prop) : Prop where
  same : ∀ {old row : VersionRow}, headOf row = headOf old → rel old row
  used : ∀ row time, rel row { row with lastUse := time }
  refreshed : ∀ row metadata, core metadata = core row.metadata → rel row { row with metadata := metadata }
  condemned : ∀ row, rel row (setObsolete 2 row)
  retired : ∀ {handle}, event = .retire handle → ∀ row, rel row (setObsolete 1 row)

theorem descends_setObsolete {level : Nat} (positive : level ≠ 0) (row : VersionRow) :
    Descends row (setObsolete level row) := ⟨rfl, rfl, fun live => absurd live positive⟩

theorem descends_of_head {old : VersionRow} (same : headOf row = headOf old) : Descends old row := by
  have key := congrArg VersionRow.key same
  have generation := congrArg VersionRow.generation same
  have level := congrArg VersionRow.obsolete same
  exact ⟨key, generation, level.symm.trans⟩

theorem descends_carried (event : Event) : Carried event Descends where
  same := descends_of_head
  used _ _ := ⟨rfl, rfl, id⟩
  refreshed _ _ _ := ⟨rfl, rfl, id⟩
  condemned := descends_setObsolete (by decide)
  retired _ := descends_setObsolete (by decide)

variable {id time : Nat} {tables next : Tables} {s t : Storage} {metadata : Metadata}

section Carried

variable {event : Event} {rel : VersionRow → VersionRow → Prop}

section

variable (carried : Carried event rel)
include carried

theorem Carried.rows (rows : Hash Nat VersionRow) : Succeeds rel rows rows :=
  fun _ row present => ⟨row, present, carried.same rfl⟩

theorem Carried.changeVersion {change : VersionRow → VersionRow}
    (each : ∀ row, rel row (change row)) : Succeeds rel tables.versions (changeVersion id change tables).versions :=
  fun _ _ present => (recast_changeVersion (fun _ => carried.same rfl) fun row _ => each row).back present

theorem Carried.frame (frame : Frame s t) : Succeeds rel s.tables.versions t.tables.versions := by
  intro id row present
  have same := frame.rows id
  rw [present] at same
  obtain ⟨old, stored, equal⟩ := Option.map_eq_some_iff.mp same.symm
  exact ⟨old, stored, carried.same equal.symm⟩

theorem Carried.patch {index : Index}
    (patched : patch id index tables = some next) : Succeeds rel tables.versions next.versions := by
  obtain ⟨row, entries, stored, -, rfl⟩ := patch_eq_some patched
  intro other after present
  obtain ⟨rfl, rfl⟩ | ⟨-, present⟩ := Hash.lookup_insert_some present
  · exact ⟨row, stored, carried.same rfl⟩
  · exact ⟨after, present, carried.same rfl⟩

/-! ## What the changes do to them -/

theorem Carried.evict {may : Storage → Nat → Nat → Prop} (evict : Evict may s t) :
    Succeeds rel s.tables.versions t.tables.versions := by
  cases evict with
  | purge purge =>
    cases purge with
    | settle settle => exact carried.frame settle.frame
    | expire expire =>
      cases expire with
      | tick tick =>
        cases tick
        exact carried.rows _
      | _ => exact carried.rows _
    | obsolete unheld => exact carried.changeVersion carried.condemned
    | release unheld => exact carried.rows _
    | discard discard => cases discard <;> exact carried.rows _
    | @deleteRows id unheld gone =>
      intro other row present
      refine ⟨row, ?_, carried.same rfl⟩
      obtain ⟨-, present⟩ := Hash.lookup_erase_some present
      exact present
  | unpack unpack =>
    cases unpack with
    | tick tick =>
      cases tick
      exact carried.rows _
    | @condemn token =>
      unfold markPackDeleting
      split <;> exact carried.rows _
    | discard discard => cases discard <;> exact carried.rows _
    | dropRow marked => exact carried.rows _

end

end Carried

variable [Sha256] {event : Event} {start s t : Storage} {rel : VersionRow → VersionRow → Prop}

/-- A new version, for which the others of its key are retired. -/
def Inserts (start s t : Storage) : Prop :=
  ∃ metadata time, metadata.generation ∉ start.issued ∧
    insertVersion metadata time (retireOthers metadata.key s.tables) = some t.tables

theorem Carried.change (carried : Carried event rel) (sound : Sound s) (change : Change event start s t) :
    Succeeds rel s.tables.versions t.tables.versions ∨ Inserts start s t := by
  cases change with
  | insert asked fresh issued valid layout inserted => exact .inr ⟨_, _, fresh, inserted⟩
  | evict evict => exact .inl (carried.evict evict)
  | touch => exact .inl (carried.changeVersion fun row => carried.used row _)
  | corrupt => exact .inl (carried.changeVersion carried.condemned)
  | retire asked held same => exact .inl (carried.changeVersion (carried.retired asked))
  | refreshRow held =>
    obtain ⟨row, stored, same, -⟩ := sound.heldRow held
    refine .inl fun id after present => (recast_changeVersion (fun _ => carried.same rfl) fun other listed => ?_).back present
    rw [stored] at listed
    cases listed
    exact carried.refreshed row _ same.symm
  | invalidate asked =>
    refine .inl fun id row present => (recast_of_map fun row => ?_).back present
    split
    · exact carried.condemned row
    · exact carried.same rfl
  | forgetEntry found patched => exact .inl (carried.patch patched)
  | publishWritten found layout grown patched =>
    rw [upserted]
    have kept := carried.patch patched
    exact .inl kept
  | hold hold =>
    cases hold with
    | settle settle => exact .inl (carried.frame settle.frame)
    | _ => exact .inl (carried.rows _)
  | pin pin =>
    cases pin with
    | tick tick =>
      cases tick
      exact .inl (carried.rows _)
    | _ => exact .inl (carried.rows _)
  | append append =>
    cases append with
    | tick tick =>
      cases tick
      exact .inl (carried.rows _)
    | extend beyond =>
      rw [onFile_others]
      exact .inl (carried.rows _)
  | fill | spill | cutPack =>
    rw [onFile_others]
    exact .inl (carried.rows _)
  | cleanup discard => cases discard <;> exact .inl (carried.rows _)
  | clear clear =>
    cases clear with
    | tick tick =>
      cases tick
      exact .inl (carried.rows _)
    | discard discard => cases discard <;> exact .inl (carried.rows _)
  | abandon discard | supersede discard | sweep discard => cases discard <;> exact .inl (carried.rows _)
  | insertPack inserted number present header =>
    unfold CacheObjects.insertPack at inserted
    split at inserted <;> cases inserted
    exact .inl (carried.rows _)
  | commitObject asked whole listed live group present stored bound =>
    rw [growPack_tables]
    exact .inl (carried.rows _)
  | touchPack =>
    unfold CacheObjects.touchPack
    split <;> exact .inl (carried.rows _)
  | grantLease room granted =>
    unfold insertLease at granted
    split at granted <;> cases granted
    exact .inl (carried.rows _)
  | extendLease asked =>
    unfold CacheFiles.extendLease
    split
    · split <;> exact .inl (carried.rows _)
    · exact .inl (carried.rows _)
  | _ => exact .inl (carried.rows _)

omit [Sha256] in
theorem inserted_row (inserted : insertVersion metadata time (retireOthers metadata.key tables) = some next)
    (present : next.versions.lookup id = some row) :
    (id = nextId tables ∧ row.key = metadata.key ∧ row.generation = metadata.generation) ∨
      ∃ old, tables.versions.lookup id = some old ∧
        (old.obsolete = 0 ∧ row = setObsolete 1 old ∨ (old.key = metadata.key → old.obsolete ≠ 0) ∧ row = old) := by
  obtain ⟨-, rfl⟩ := insertVersion_eq_some inserted
  rw [nextId_retireOthers, Hash.lookup_insert] at present
  split at present
  · rename_i same
    cases present
    exact .inl ⟨same, rfl, rfl⟩
  · rw [retireOthers, Hash.lookup_map] at present
    obtain ⟨old, stored, rfl⟩ := Option.map_eq_some_iff.mp present
    refine .inr ⟨old, stored, ?_⟩
    split
    · rename_i live
      exact .inl ⟨live.2, rfl⟩
    · rename_i other
      exact .inr ⟨fun key live => other ⟨key, live⟩, rfl⟩

omit [Sha256] in
theorem inserted_descends (inserted : insertVersion metadata time (retireOthers metadata.key tables) = some next)
    (present : next.versions.lookup id = some row) :
    (id = nextId tables ∧ row.key = metadata.key ∧ row.generation = metadata.generation) ∨
      (row.key = metadata.key → row.obsolete ≠ 0) ∧ ∃ old, tables.versions.lookup id = some old ∧ Descends old row := by
  rcases inserted_row inserted present with new | ⟨old, stored, ⟨-, rfl⟩ | ⟨retired, rfl⟩⟩
  · exact .inl new
  · exact .inr ⟨fun _ live => (by decide : (1 : Nat) ≠ 0) live, old, stored, descends_setObsolete (by decide) old⟩
  · exact .inr ⟨retired, row, stored, .refl row⟩

omit [Sha256] in
theorem Unique.succeeds {before after : Hash Nat VersionRow} (unique : Unique before) (succeeds : Succeeds Descends before after) :
    Unique after := by
  intro id other row same present stored key live also
  obtain ⟨old, had, from_old⟩ := succeeds id row present
  obtain ⟨twin, there, from_twin⟩ := succeeds other same stored
  have keys : old.key = twin.key := by rw [← from_old.key, key, from_twin.key]
  exact unique id other old twin had there keys (from_old.live live) (from_twin.live also)

omit [Sha256] in
theorem Unique.inserts (unique : Unique s.tables.versions) (inserts : Inserts start s t) : Unique t.tables.versions := by
  obtain ⟨metadata, time, -, inserted⟩ := inserts
  intro id other row same present stored key live also
  rcases inserted_descends inserted present with ⟨new, newKey, -⟩ | ⟨retired, old, had, from_old⟩
  · rcases inserted_descends inserted stored with ⟨also, -, -⟩ | ⟨retired, -⟩
    · rw [new, also]
    · exact absurd also (retired (key.symm.trans newKey))
  · rcases inserted_descends inserted stored with ⟨-, newKey, -⟩ | ⟨-, twin, there, from_twin⟩
    · exact absurd live (retired (key.trans newKey))
    · have keys : old.key = twin.key := by rw [← from_old.key, key, from_twin.key]
      exact unique id other old twin had there keys (from_old.live live) (from_twin.live also)

omit [Sha256] in
theorem work_tables (work : Work s t) : t.tables = s.tables := by cases work <;> rfl

theorem put_tables (put : Put s t) : t.tables = s.tables := by
  cases put
  rfl

/-- What successions and insertions keep, an event keeps: nothing else writes the rows. -/
theorem Carried.perform {P : Storage → Prop} (carried : Carried event rel) (sound : Sound start) (tape : List Chance)
    (succeeds : ∀ {s t}, P s → Succeeds rel s.tables.versions t.tables.versions → P t)
    (inserts : ∀ {s t}, P s → Inserts start s t → P t) (base : P start) : P (perform event tape start) := by
  have kept : Kept event start fun s => Sound s ∧ P s := by
    refine ⟨fun s t holds change => ⟨.change s t holds.1 change, ?_⟩, fun s holds => holds.1⟩
    rcases carried.change holds.1 change with succession | insertion
    · exact succeeds holds.2 succession
    · exact inserts holds.2 insertion
  have reads {s t : Storage} (same : t.tables = s.tables) (holds : P s) : P t :=
    succeeds holds fun _ row present => ⟨row, same ▸ present, carried.same rfl⟩
  refine (kept.perform (kept.writeData fun s t holds put => ⟨.put s t holds.1 put, reads (put_tables put) holds.2⟩)
    (fun s t holds work => ⟨.work s t holds.1 work, reads (work_tables work) holds.2⟩)
    (fun s t holds configure => ⟨.configure s t holds.1 configure, reads ?_ holds.2⟩)
    (fun s holds => ⟨holds.1.restart, reads (s := s) rfl holds.2⟩) ⟨sound, base⟩).2
  cases configure
  rfl

theorem Reachable.of_steps (run : Runs.Steps Step Storage.fresh trace s) : Reachable s := by
  induction run with
  | done => exact .fresh
  | snoc before stepped ih =>
    cases stepped
    exact ih.perform _ _

theorem Reachable.unique (reached : Reachable s) : Unique s.tables.versions := by
  let Holds (s : Storage) : Prop := Sound s ∧ Unique s.tables.versions
  suffices holds : Holds s from holds.2
  refine reached.invariant ?_ ?_
  · rintro _ rfl
    refine ⟨.fresh, fun id other row same present => ?_⟩
    cases (AList.lookup_empty (β := fun _ => VersionRow) id).symm.trans present
  · rintro s ⟨event, tape⟩ _ ⟨sound, unique⟩ _ rfl
    exact ⟨sound_lasting.step sound rfl, (descends_carried event).perform (P := fun s => Unique s.tables.versions)
      sound tape Unique.succeeds Unique.inserts unique⟩

/-- The versions that an event did not create it found. -/
def Found (rel : VersionRow → VersionRow → Prop) (start t : Storage) : Prop :=
  ∀ id row, t.tables.versions.lookup id = some row → row.generation ∈ start.issued →
    ∃ old, start.tables.versions.lookup id = some old ∧ rel old row

/-- A relation of rows that is kept along the changes of an event, an insertion among them. -/
structure Lineage (event : Event) (rel : VersionRow → VersionRow → Prop) : Prop extends Carried event rel where
  trans : ∀ {first second third}, rel first second → rel second third → rel first third
  generation : ∀ {old row}, rel old row → row.generation = old.generation
  retiring : ∀ old : VersionRow, old.obsolete = 0 → rel old (setObsolete 1 old)

omit [Sha256] in
theorem descends_lineage (event : Event) : Lineage event Descends where
  toCarried := descends_carried event
  trans := .trans
  generation := Descends.generation
  retiring old _ := descends_setObsolete (by decide) old

omit [Sha256] in
theorem Lineage.succeeds (lineage : Lineage event rel) (found : Found rel start s)
    (succeeds : Succeeds rel s.tables.versions t.tables.versions) : Found rel start t := by
  intro id row present issued
  obtain ⟨mid, stored, later⟩ := succeeds id row present
  obtain ⟨old, there, earlier⟩ := found id mid stored (lineage.generation later ▸ issued)
  exact ⟨old, there, lineage.trans earlier later⟩

omit [Sha256] in
theorem Lineage.inserts (lineage : Lineage event rel) (found : Found rel start s) (inserts : Inserts start s t) :
    Found rel start t := by
  obtain ⟨metadata, time, fresh, inserted⟩ := inserts
  intro id row present issued
  have aged : ∀ mid, s.tables.versions.lookup id = some mid → rel mid row →
      ∃ old, start.tables.versions.lookup id = some old ∧ rel old row := fun mid stored later => by
    obtain ⟨old, there, earlier⟩ := found id mid stored (lineage.generation later ▸ issued)
    exact ⟨old, there, lineage.trans earlier later⟩
  rcases inserted_row inserted present with ⟨-, -, generation⟩ | ⟨mid, stored, ⟨live, rfl⟩ | ⟨-, rfl⟩⟩
  · exact absurd (generation ▸ issued) fresh
  · exact aged mid stored (lineage.retiring mid live)
  · exact aged row stored (lineage.same rfl)

theorem Lineage.perform (lineage : Lineage event rel) (sound : Sound start) (tape : List Chance) :
    Found rel start (perform event tape start) :=
  lineage.toCarried.perform sound tape lineage.succeeds lineage.inserts
    fun _ row present _ => ⟨row, present, lineage.same rfl⟩

/-- The versions that an event created are the only live ones of their keys. -/
def Alone (start t : Storage) : Prop :=
  ∀ id other row same, t.tables.versions.lookup id = some row → t.tables.versions.lookup other = some same →
    row.key = same.key → row.generation ∉ start.issued → same.obsolete = 0 → same.generation ∉ start.issued

omit [Sha256] in
theorem Alone.succeeds (alone : Alone start s) (succeeds : Succeeds Descends s.tables.versions t.tables.versions) :
    Alone start t := by
  intro id other row same present stored key fresh live
  obtain ⟨old, had, from_old⟩ := succeeds id row present
  obtain ⟨twin, there, from_twin⟩ := succeeds other same stored
  rw [from_twin.generation]
  rw [from_old.generation] at fresh
  have keys : old.key = twin.key := by rw [← from_old.key, key, from_twin.key]
  exact alone id other old twin had there keys fresh (from_twin.live live)

omit [Sha256] in
theorem Alone.inserts (alone : Alone start s) (inserts : Inserts start s t) : Alone start t := by
  obtain ⟨metadata, time, unissued, inserted⟩ := inserts
  intro id other row same present stored key fresh live
  rcases inserted_descends inserted stored with ⟨-, -, generation⟩ | ⟨retired, twin, there, from_twin⟩
  · rw [generation]
    exact unissued
  · rcases inserted_descends inserted present with ⟨-, newKey, -⟩ | ⟨-, old, had, from_old⟩
    · exact absurd live (retired (key.symm.trans newKey))
    · rw [from_twin.generation]
      rw [from_old.generation] at fresh
      have keys : old.key = twin.key := by rw [← from_old.key, key, from_twin.key]
      exact alone id other old twin had there keys fresh (from_twin.live live)

theorem alone_perform (sound : Sound start) (event : Event) (tape : List Chance) :
    Alone start (perform event tape start) :=
  (descends_carried event).perform sound tape Alone.succeeds Alone.inserts
    fun _ _ row _ present _ _ fresh => absurd (sound.rows.each _ row present).issued fresh

/-- The version appeared in a step of the run, was live after it and has been since, and no
version of the key appeared after it. -/
def Newest (key generation : String) (trace : List (Storage × Event × List Chance)) (s : Storage) : Prop :=
  ∃ earlier entry later, trace = earlier ++ entry :: later ∧
    Creates key generation entry.1 (perform entry.2.1 entry.2.2 entry.1) ∧
    (∀ next ∈ later, Live next.1 key generation) ∧ Live s key generation ∧
    ∀ next ∈ later, ∀ other, ¬ Creates key other next.1 (perform next.2.1 next.2.2 next.1)

theorem Newest.step {key generation : String} (sound : Sound s)
    (newest : Live s key generation → Newest key generation trace s) (event : Event) (tape : List Chance)
    (live : Live (perform event tape s) key generation) :
    Newest key generation (trace ++ [(s, event, tape)]) (perform event tape s) := by
  have found : Found Descends s (perform event tape s) := (descends_lineage event).perform sound tape
  obtain ⟨id, row, present, rfl, rfl, level⟩ := live
  by_cases issued : row.generation ∈ s.issued
  · obtain ⟨old, stored, descends⟩ := found id row present issued
    have before : Live s row.key row.generation :=
      ⟨id, old, stored, descends.key.symm, descends.generation.symm, descends.live level⟩
    obtain ⟨earlier, entry, later, rfl, creates, steady, -, quiet⟩ := newest before
    refine ⟨earlier, entry, later ++ [(s, event, tape)], by simp, creates, fun next member => ?_,
      ⟨id, row, present, rfl, rfl, level⟩, fun next member other created => ?_⟩
    · obtain old | rfl := Runs.mem_snoc member
      · exact steady next old
      · exact before
    · obtain old | rfl := Runs.mem_snoc member
      · exact quiet next old other created
      · obtain ⟨unknown, number, made, there, key, rfl⟩ := created
        -- what this step created would be alone with the live versions of its key
        refine alone_perform sound event tape number id made row there present key (fun had => unknown ?_) level issued
        obtain ⟨first, listed, from_first⟩ := found number made there had
        exact ⟨number, first, listed, from_first.key.symm.trans key, from_first.generation.symm⟩
  · have unknown : ¬ Known s row.key row.generation := by
      rintro ⟨number, known, listed, -, same⟩
      exact issued (same ▸ (sound.rows.each number known listed).issued)
    refine ⟨trace, (s, event, tape), [], rfl, ⟨unknown, id, row, present, rfl, rfl⟩, fun next member => ?_,
      ⟨id, row, present, rfl, rfl, level⟩, fun next member => ?_⟩
    · cases member
    · cases member

theorem live_newest (run : Runs.Steps Step Storage.fresh trace s) :
    Sound s ∧ ∀ key generation, Live s key generation → Newest key generation trace s := by
  induction run with
  | done =>
    refine ⟨.fresh, fun key generation live => ?_⟩
    obtain ⟨id, row, present, -⟩ := live
    cases (AList.lookup_empty (β := fun _ => VersionRow) id).symm.trans present
  | @snoc mid last label trace before stepped ih =>
    obtain ⟨sound, newest⟩ := ih
    obtain ⟨event, tape⟩ := label
    cases stepped
    refine ⟨sound_lasting.step sound rfl, fun key generation live => ?_⟩
    exact .step sound (newest key generation) event tape live

/-! ## Lookups -/

omit [Sha256] in
theorem newest_eq_some {key : String} (found : CacheStore.newest key tables = some id) :
    ∃ row, tables.versions.lookup id = some row ∧ row.key = key ∧ row.obsolete = 0 := by
  have member := (List.max?_eq_some_iff.mp found).1
  obtain ⟨row, listed⟩ := Option.isSome_iff_exists.mp (AList.lookup_isSome.mpr (AList.mem_keys.mpr member))
  rw [Hash.lookup_filter] at listed
  obtain ⟨stored, live⟩ := Option.filter_eq_some_iff.mp listed
  rw [Bool.and_eq_true, beq_iff_eq, beq_iff_eq] at live
  exact ⟨row, stored, live.1, live.2⟩

/-- The row of a version, as the storage has it at the start of a lookup. -/
def Listed (s : Storage) (key : String) (version : Version) : Prop :=
  ∃ row, s.tables.versions.lookup version.id = some row ∧ row.key = key ∧ row.obsolete = 0 ∧
    row.generation = version.metadata.generation

theorem lookup_triple (key : String) :
    Triple (fun t => Sound t ∧ t.tables = s.tables) (CacheStore.lookup key)
      (fun found _ => ∀ version, found = some version → Listed s key version) (fun _ => True) := by
  have constant : ∀ {fact : Prop} {α : Type} {action : Io α}, Triple (fun _ => fact) action (fun _ _ => fact) fun _ => True :=
    (Keeps.of_final fun _ => id).otherwise fun _ _ => trivial
  have ticks : Closed Tick fun t => Sound t ∧ t.tables = s.tables := by
    rintro t u ⟨holds, same⟩ tick
    refine ⟨.tick t u holds tick, ?_⟩
    cases tick
    exact same
  refine .bind ((query_triple ticks).otherwise fun _ _ => trivial) fun found => ?_
  cases found with
  | none => exact .pure fun _ _ => nofun
  | some id =>
    refine .pointwise fun begun ⟨⟨holds, same⟩, chosen⟩ => ?_
    rw [same] at chosen
    obtain ⟨row, stored, owner, live⟩ := newest_eq_some chosen.symm
    -- loading the version leaves its row but for the blocks
    let Loading : Storage → Prop := fun t => Sound t ∧
      ∃ next, t.tables.versions.lookup id = some next ∧ headOf next = headOf row
    have loads : Closed Hold Loading := by
      rintro t u ⟨now, next, present, head⟩ hold
      refine ⟨.hold t u now hold, ?_⟩
      cases hold with
      | settle settle =>
        obtain ⟨last, listed, equal⟩ := settle.frame.row present
        exact ⟨last, listed, equal.trans head⟩
      | _ => exact ⟨next, present, head⟩
    have given : Triple (fun t => t = begun) (version id) (fun held _ => Listed s key held) fun _ => True := by
      refine (version_triple loads fun t now => now.1).weaken (fun t equal => ?_) (fun held t granted => ?_) fun _ _ => trivial
      · rw [equal]
        exact ⟨holds, row, by rw [same]; exact stored, rfl⟩
      · obtain ⟨⟨now, next, present, head⟩, granted⟩ := granted
        obtain ⟨value, resident, metadata⟩ := granted.resident
        obtain ⟨backing, there, cores, -⟩ := now.residents id value resident
        rw [present] at there
        cases there
        have generations := congrArg Metadata.generation cores
        have heads := descends_of_head head
        refine ⟨row, granted.same ▸ stored, owner, live, ?_⟩
        rw [← heads.generation, (now.rows.each id next present).generation, ← metadata]
        exact generations.symm
    refine .bind (Q := fun loaded _ => ∀ held, loaded = .ok held → Listed s key held)
      (.attempt (given.after ?_) (fun _ _ _ => nofun) fun _ _ => trivial) fun loaded => ?_
    · rintro held t listed _ ⟨⟩
      exact listed
    · cases loaded with
      | error error =>
        have removed : Triple (fun _ => True) (delete id) (fun _ _ => True) fun _ => True := constant
        exact .bind (removed.before fun _ _ => trivial) fun _ => .pure fun _ _ => nofun
      | ok held =>
        refine .bind (Q := fun _ _ => Listed s key held)
          (.before constant fun _ listed => listed held rfl) fun _ => ?_
        refine .pure fun _ listed version given => ?_
        cases given
        exact listed

/-- In every state of every run, through any failures, crashes and reopenings, a key has at most one live
version, and a lookup finds nothing or the live version, which is the one created last. -/
theorem lookup_finds_the_newest {trace : List (Storage × Event × List Chance)}
    (run : Runs.Steps Step Storage.fresh trace s) :
    Unique s.tables.versions ∧ ∀ (key : String) (tape : List Chance) (found : Option Version),
      (CacheStore.lookup key { s with tape := tape }).1 = .ok found → found = none ∨ ∃ version row,
        found = some version ∧ s.tables.versions.lookup version.id = some row ∧ row.key = key ∧ row.obsolete = 0 ∧
          row.generation = version.metadata.generation ∧ Newest key version.metadata.generation trace s := by
  obtain ⟨sound, newest⟩ := live_newest run
  refine ⟨Reachable.unique (Reachable.of_steps run), fun key tape found returned => ?_⟩
  have retaped : Sound { s with tape := tape } := Sound.tick s _ sound (.pass _ _ _ _ _ _ le_rfl le_rfl)
  have listed := lookup_triple (s := s) key { s with tape := tape } ⟨retaped, rfl⟩
  rw [returned] at listed
  cases found with
  | none => exact .inl rfl
  | some version =>
    obtain ⟨row, stored, owner, live, generation⟩ := listed version rfl
    refine .inr ⟨version, row, rfl, stored, owner, live, generation, newest key _ ?_⟩
    exact ⟨version.id, row, stored, owner, generation, live⟩

/-- A track that is cached in one file. -/
def track : Metadata where
  key := "track"
  provider := 1
  kind := 0
  generation := "00112233445566778899aabbccddeeff"
  geometry := ⟨1048576, minBlock, minBlock_listed⟩
  store := true
  layout := .blocks

omit [Sha256] in
theorem lookup_finds_a_created_track :
    let _ := openssl
    let launched := perform (.launch defaultCapacity) [] Storage.fresh
    let created := perform (.create track) [] launched
    Unique created.tables.versions ∧ ∀ (key : String) (tape : List Chance) (found : Option Version),
      (CacheStore.lookup key { created with tape := tape }).1 = .ok found → found = none ∨ ∃ version row,
        found = some version ∧ created.tables.versions.lookup version.id = some row ∧ row.key = key ∧ row.obsolete = 0 ∧
          row.generation = version.metadata.generation ∧ Newest key version.metadata.generation
            [(Storage.fresh, .launch defaultCapacity, []), (launched, .create track, [])] created := by
  intro _ launched created
  have run : Runs.Steps Step Storage.fresh
      ([(Storage.fresh, .launch defaultCapacity, [])] ++ [(launched, .create track, [])]) created :=
    .snoc (.snoc (.done Storage.fresh) rfl) rfl
  exact lookup_finds_the_newest run

end Qcm.CacheVersionProofs
