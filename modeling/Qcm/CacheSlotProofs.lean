import Qcm.CacheVersionProofs

/-!
The slots of a data file.  A block that is written goes behind the end of the
file, at a slot that no entry has, and what a failed write left behind is cut
off at whole slots, above every entry.  So the entries of a version, in its row
and in memory, share no slot, and the bytes of their slots stay as they are.
-/

namespace Qcm.CacheSlotProofs

open Lib Lib.Act ResourceFormat CacheState CacheDisk CacheLoad CacheStore
  CacheFiles CacheEvents CacheRules CacheSettle CachePurge CacheSound CacheChange
  CacheSteps CacheVersionProofs

/-- A present block of a version with a data file and its slot, in the row of the version or in memory. -/
inductive Refers (s : Storage) (id : Nat) : Nat → Nat → Prop where
  | committed {row : VersionRow} {block : Nat} {entry : Entry} (stored : s.tables.versions.lookup id = some row)
      (layout : row.metadata.layout = .blocks) (listed : row.blocks.entries.lookup block = some entry) :
      Refers s id block entry.slot
  | memory {value : Resident} {block : Nat} {entry : Entry} (found : s.versions.lookup id = some value)
      (layout : value.metadata.layout = .blocks) (listed : value.index.get block = some entry) :
      Refers s id block entry.slot

/-- Where a slot of a version begins in its data file. -/
def slotStart (metadata : Metadata) (slot : Nat) : Nat := headerLen + slot * metadata.geometry.block

/-- Whether a resident has a published file is as its row says, and its file is named for that. -/
def Owns (files : Hash Nat CompleteRow) (versions : Hash Nat Resident) : Prop :=
  ∀ id value, versions.lookup id = some value → value.metadata.layout = .blocks →
    value.plain = (files.lookup id).any CompleteRow.ready ∧
      value.file = some (if value.plain then .ok value.metadata.generation else .data value.metadata.generation)

structure Slotted (s : Storage) : Prop where
  inside : ∀ id row file block slot, s.tables.versions.lookup id = some row →
    s.files.lookup (.data row.metadata.generation) = some file → Refers s id block slot →
    slotStart row.metadata (slot + 1) ≤ file.length
  apart : ∀ id block other slot, Refers s id block slot → Refers s id other slot → block = other
  owns : Owns s.tables.completeFiles s.versions

/-! ## What a change leaves of them -/

variable {event : Event} {start s t : Storage}

/-- The entries of these rows were there before. -/
def FewerRows (s : Storage) (rows : Hash Nat VersionRow) : Prop :=
  ∀ id row, rows.lookup id = some row → row.metadata.layout = .blocks →
    ∀ block entry, row.blocks.entries.lookup block = some entry → Refers s id block entry.slot

/-- The entries of these residents were there before. -/
def FewerMemory (s : Storage) (versions : Hash Nat Resident) : Prop :=
  ∀ id value, versions.lookup id = some value → value.metadata.layout = .blocks →
    ∀ block entry, value.index.get block = some entry → Refers s id block entry.slot

/-- The data file of a generation after a change: it got longer, was cut to whole slots above the
entries of its version, or belongs to no version yet. -/
inductive Prior (start s : Storage) (generation : String) : Contents → Prop where
  | grown {old file : Contents} (present : s.files.lookup (.data generation) = some old)
      (longer : old.length ≤ file.length) (same : ∀ position < old.length, file.byte position = old.byte position) :
      Prior start s generation file
  | cut {id slots : Nat} {row : VersionRow} {old : Contents} (absent : s.versions.lookup id = none)
      (stored : s.tables.versions.lookup id = some row) (name : row.metadata.generation = generation)
      (present : s.files.lookup (.data generation) = some old)
      (whole : slots = (old.length - headerLen) / row.metadata.geometry.block)
      (above : ∀ block entry, row.blocks.entries.lookup block = some entry → entry.slot < slots) :
      Prior start s generation (old.setLength (slotStart row.metadata slots))
  | new {file : Contents} (fresh : generation ∉ start.issued) (novel : Novel generation s.tables.versions) :
      Prior start s generation file

def PriorFiles (start s : Storage) (files : Hash FileName Contents) : Prop :=
  ∀ generation file, files.lookup (.data generation) = some file → Prior start s generation file

/-- A change that takes no entry in, and harms no data file. -/
structure Tamed (start s t : Storage) : Prop where
  rows : FewerRows s t.tables.versions
  memory : FewerMemory s t.versions
  files : PriorFiles start s t.files
  owns : Owns t.tables.completeFiles t.versions

variable {id block slot : Nat} {value : Resident} {index : Index} {tables : Tables} {name : FileName}
  {data : List UInt8} {versions : Hash Nat Resident} {may : Storage → Nat → Nat → Prop}
  {metadata : Metadata} {appended : Appended}

theorem FewerRows.same : FewerRows s s.tables.versions := fun _ _ stored layout _ _ listed => .committed stored layout listed

theorem FewerRows.recast {rows : Hash Nat VersionRow} (recast : Recast Aged.Whole s.tables.versions rows) :
    FewerRows s rows := by
  intro id row present layout block entry listed
  obtain ⟨old, stored, aged, blocks⟩ := recast.back present
  rw [blocks] at listed
  exact .committed stored (layout_of_core aged.metadata ▸ layout) listed

theorem FewerRows.changeVersion {change : VersionRow → VersionRow}
    (each : ∀ row, s.tables.versions.lookup id = some row → Aged.Whole row (change row)) :
    FewerRows s (changeVersion id change s.tables).versions :=
  FewerRows.recast (recast_changeVersion Aged.Whole.refl each)

theorem FewerRows.erase : FewerRows s (s.tables.versions.erase id) := by
  intro other row present layout block entry listed
  obtain ⟨-, present⟩ := Hash.lookup_erase_some present
  exact .committed present layout listed

theorem FewerRows.patch (sound : Sound s) (found : s.versions.lookup id = some value)
    (patched : patch id index s.tables = some tables)
    (known : value.metadata.layout = .blocks → ∀ block entry, index.get block = some entry →
      value.index.get block = some entry) :
    FewerRows s tables.versions := by
  obtain ⟨row, entries, stored, -, rfl, gets⟩ := patch_row patched
  obtain ⟨twin, there, same, -⟩ := sound.residents id value found
  rw [stored] at there
  cases there
  intro other next present layout block entry listed
  obtain ⟨rfl, rfl⟩ | ⟨-, present⟩ := Hash.lookup_insert_some present
  · change entries.lookup block = some entry at listed
    rw [gets] at listed
    split at listed
    · have blocks : value.metadata.layout = .blocks := (layout_of_core same).trans layout
      exact .memory found blocks (known blocks block entry listed)
    · exact .committed stored layout listed
  · exact .committed present layout listed

theorem FewerMemory.same : FewerMemory s s.versions := fun _ _ found layout _ _ listed => .memory found layout listed

theorem FewerMemory.erase : FewerMemory s (s.versions.erase id) := by
  intro other value present layout block entry listed
  obtain ⟨-, present⟩ := Hash.lookup_erase_some present
  exact .memory present layout listed

theorem FewerMemory.insert {id : Nat} {value : Resident}
    (known : value.metadata.layout = .blocks → ∀ block entry, value.index.get block = some entry →
      Refers s id block entry.slot) : FewerMemory s (s.versions.insert id value) := by
  intro other found present layout block entry listed
  obtain ⟨rfl, rfl⟩ | ⟨-, present⟩ := Hash.lookup_insert_some present
  · exact known layout block entry listed
  · exact .memory present layout listed

theorem FewerMemory.put (next : Resident) (found : s.versions.lookup id = some value)
    (layout : next.metadata.layout = value.metadata.layout)
    (known : value.metadata.layout = .blocks → ∀ block entry, next.index.get block = some entry →
      value.index.get block = some entry) :
    FewerMemory s (s.versions.insert id next) :=
  FewerMemory.insert fun blocks block entry listed =>
    have same : value.metadata.layout = .blocks := layout.symm.trans blocks
    .memory found same (known same block entry listed)

theorem PriorFiles.same : PriorFiles start s s.files := fun _ _ present => .grown present le_rfl fun _ _ => rfl

theorem PriorFiles.erase : PriorFiles start s (s.files.erase name) := by
  intro generation file present
  obtain ⟨-, present⟩ := Hash.lookup_erase_some present
  exact .grown present le_rfl fun _ _ => rfl

theorem PriorFiles.other {name : FileName} {change : Contents → Contents} (apart : ∀ generation, name ≠ .data generation) :
    PriorFiles start s (onFile name change s).files := by
  intro generation file present
  unfold CacheDisk.onFile at present
  split at present
  · rw [Hash.lookup_insert, if_neg (apart generation).symm] at present
    exact .grown present le_rfl fun _ _ => rfl
  · exact .grown present le_rfl fun _ _ => rfl

theorem splice_behind {file : Contents} {offset count : Nat} {data : Nat → UInt8} (behind : file.length ≤ offset) :
    file.length ≤ (file.splice offset count data).length ∧
      ∀ position < file.length, (file.splice offset count data).byte position = file.byte position := by
  constructor
  · simp only [Contents.splice]
    split <;> omega
  · intro position within
    exact if_neg (by omega)

theorem PriorFiles.extend {offset count : Nat} {data : Nat → UInt8}
    (beyond : ∀ file, s.files.lookup name = some file → file.length ≤ offset) :
    PriorFiles start s (onFile name (fun file => file.splice offset count data) s).files := by
  intro generation file present
  unfold CacheDisk.onFile at present
  split at present
  · rename_i old there
    obtain ⟨rfl, rfl⟩ | ⟨-, present⟩ := Hash.lookup_insert_some present
    · have behind := beyond old there
      exact .grown (there) (splice_behind behind).1 (splice_behind behind).2
    · exact .grown present le_rfl fun _ _ => rfl
  · exact .grown present le_rfl fun _ _ => rfl

theorem Owns.erase {files : Hash Nat CompleteRow} (owns : Owns files versions) :
    Owns files (versions.erase id) := by
  intro other value present
  obtain ⟨-, present⟩ := Hash.lookup_erase_some present
  exact owns other value present

theorem Owns.insert {files : Hash Nat CompleteRow} {versions : Hash Nat Resident} (owns : Owns files versions) {id : Nat}
    {value : Resident} (own : value.metadata.layout = .blocks →
      value.plain = (files.lookup id).any CompleteRow.ready ∧
        value.file = some (if value.plain then .ok value.metadata.generation else .data value.metadata.generation)) :
    Owns files (versions.insert id value) := by
  intro other found present
  obtain ⟨rfl, rfl⟩ | ⟨-, present⟩ := Hash.lookup_insert_some present
  · exact own
  · exact owns other found present

theorem Owns.put {files : Hash Nat CompleteRow} (owns : Owns files versions) (next : Resident)
    (found : versions.lookup id = some value) (metadata : core next.metadata = core value.metadata)
    (plain : next.plain = value.plain) (file : next.file = value.file) :
    Owns files (versions.insert id next) := by
  refine owns.insert fun layout => ?_
  rw [plain, file, generation_of_core metadata]
  exact owns id value found (layout_of_core metadata ▸ layout)

theorem Owns.files {files next : Hash Nat CompleteRow} (owns : Owns files versions)
    (same : ∀ id, (versions.lookup id).isSome →
      (next.lookup id).any CompleteRow.ready = (files.lookup id).any CompleteRow.ready) :
    Owns next versions := by
  intro id value present layout
  rw [same id (by rw [present]; rfl)]
  exact owns id value present layout

/-! ## Every change is such a change -/

theorem patch_complete {next : Tables} (patched : patch id index tables = some next) :
    next.completeFiles = tables.completeFiles := by
  obtain ⟨row, entries, -, -, rfl⟩ := patch_eq_some patched
  rfl

theorem tamed_of_patch (sound : Sound s) (owns : Owns s.tables.completeFiles s.versions)
    (found : s.versions.lookup id = some value) (patched : patch id index s.tables = some tables)
    (known : value.metadata.layout = .blocks → ∀ block entry, index.get block = some entry →
      value.index.get block = some entry) :
    Tamed start s { s with tables := tables, versions := s.versions.insert id { value with index := index.committed } } := by
  refine ⟨.patch sound found patched known, .put _ found rfl known, .same, ?_⟩
  rw [patch_complete patched]
  exact owns.put _ found rfl rfl rfl

theorem tamed_of_tick (owns : Owns s.tables.completeFiles s.versions) (tick : Tick s t) : Tamed start s t := by
  cases tick
  exact ⟨.same, .same, .same, owns⟩

theorem tamed_of_discard {why : Storage → FileName → Prop} (owns : Owns s.tables.completeFiles s.versions)
    (discard : Discard why s t) : Tamed start s t := by
  cases discard with
  | unlink reason => exact ⟨.same, .same, .erase, owns⟩
  | litter reason | forget reason gone => exact ⟨.same, .same, .same, owns⟩

section

variable (sound : Sound s) (owns : Owns s.tables.completeFiles s.versions)
include sound owns

theorem tamed_of_reserve (reserve : Reserve s t) : Tamed start s t := by
  cases reserve with
  | tick tick => exact tamed_of_tick owns tick
  | commitIndex found patched => exact tamed_of_patch sound owns found patched fun _ _ _ => id
  | spare found clean loose => exact ⟨.same, .erase, .same, owns.erase⟩

theorem tamed_of_remove (remove : Remove may s t) : Tamed start s t := by
  cases remove with
  | tick tick => exact tamed_of_tick owns tick
  | condemn allowed found layout patched =>
    have cleared : Tamed start s _ := tamed_of_patch sound owns found patched fun blocks => by
      rw [layout] at blocks
      cases blocks
    rw [markDeleting_versions]
    exact { cleared with files := .same }
  | dropRow marked => exact ⟨.same, .same, .same, owns⟩
  | discard discard => exact tamed_of_discard owns discard

theorem tamed_of_settle (settle : Settle may s t) : Tamed start s t := by
  cases settle with
  | reserve reserve => exact tamed_of_reserve sound owns reserve
  | remove remove => exact tamed_of_remove sound owns remove
  | @fetch id row value absent stored loaded =>
    refine ⟨.same, .insert fun layout block entry listed => ?_, .same, owns.insert fun layout => ?_⟩
    · rw [loaded.index] at listed
      exact .committed stored (loaded.metadata ▸ layout) listed
    · rw [loaded.metadata] at layout ⊢
      exact loaded.blocks layout
  | @cut id slots row file absent stored present whole header above =>
    rw [onFile_others]
    refine ⟨.same, .same, fun generation after there => ?_, owns⟩
    rw [onFile, present] at there
    change (s.files.insert _ _).lookup _ = some after at there
    rw [Hash.lookup_insert] at there
    split at there
    · rename_i same
      cases there
      exact .cut absent stored (FileName.data.inj same).symm (same ▸ present) whole above
    · exact .grown there le_rfl fun _ _ => rfl
  | record present => exact ⟨.same, .same, .same, owns⟩

theorem tamed_of_evict (evict : Evict may s t) : Tamed start s t := by
  cases evict with
  | purge purge =>
    cases purge with
    | settle settle => exact tamed_of_settle sound owns settle
    | expire expire =>
      cases expire with
      | tick tick => exact tamed_of_tick owns tick
      | doubt | due certain grace => exact ⟨.same, .same, .same, owns⟩
    | obsolete unheld =>
      rw [changeVersion_others]
      exact ⟨.changeVersion fun row _ => setObsolete_whole (by decide) row, .same, .same, owns⟩
    | release unheld => exact ⟨.same, .erase, .same, owns.erase⟩
    | discard discard => exact tamed_of_discard owns discard
    | @deleteRows id unheld gone =>
      refine ⟨.erase, .same, .same, owns.files fun other present => ?_⟩
      have apart : other ≠ id := by
        rintro rfl
        rw [gone] at present
        cases present
      change ((s.tables.completeFiles.erase id).lookup other).any CompleteRow.ready = _
      rw [AList.lookup_erase_ne apart]
  | unpack unpack =>
    cases unpack with
    | tick tick => exact tamed_of_tick owns tick
    | condemn =>
      rw [markPackDeleting_others]
      exact ⟨.same, .same, .same, owns⟩
    | discard discard => exact tamed_of_discard owns discard
    | dropRow marked => exact ⟨.same, .same, .same, owns⟩

theorem tamed_of_hold (hold : Hold s t) : Tamed start s t := by
  cases hold with
  | settle settle => exact tamed_of_settle sound owns settle
  | keepLease found | newLease found free =>
    exact ⟨.same, .put _ found rfl fun _ _ _ => id, .same, owns.put _ found rfl rfl rfl⟩
  | grant found holds number => exact ⟨.same, .same, .same, owns⟩

theorem tamed_of_insert {time : Nat}
    (inserted : insertVersion metadata time (retireOthers metadata.key s.tables) = some tables) :
    Tamed start s { s with
      tables := tables
      versions := s.versions.insert (nextId s.tables) ⟨metadata, .fresh metadata.geometry,
        if metadata.layout = .blocks then some (.data metadata.generation) else none, none, false⟩ } := by
  obtain ⟨-, rfl⟩ := insertVersion_eq_some inserted
  refine ⟨fun id row present layout block entry listed => ?_, .insert fun _ block entry listed => ?_, .same,
    owns.insert fun layout => ⟨?_, ?_⟩⟩
  · obtain ⟨rfl, rfl⟩ | ⟨-, present⟩ := Hash.lookup_insert_some present
    · cases (AList.lookup_empty (β := fun _ => Entry) block).symm.trans listed
    · exact FewerRows.recast (recast_retireOthers metadata.key s.tables) id row present layout block entry listed
  · cases (AList.lookup_empty (β := fun _ => Entry) block).symm.trans listed
  · symm
    refine Bool.eq_false_iff.mpr fun ready => ?_
    obtain ⟨row, stored, -⟩ := sound.published.stored _ ready
    rw [nextId_fresh] at stored
    cases stored
  · exact if_pos layout

theorem tamed_of_publishRow {held : Version} {length : Nat} {digest : Digest}
    (working : Worker.held s.worker = some held) (found : s.versions.lookup held.id = some value) :
    Tamed start s { s with
      tables := publishRow held.id length digest s.tables
      versions := s.versions.insert held.id
        { value with file := some (.ok held.metadata.generation), plain := true }
      building := none } := by
  obtain ⟨other, present, -, same⟩ := sound.held.residents held (sound.held.worker held working).1
  rw [found] at present
  cases present
  have ready : ∀ id, ((publishRow held.id length digest s.tables).completeFiles.lookup id).any CompleteRow.ready =
      if id = held.id then true else (s.tables.completeFiles.lookup id).any CompleteRow.ready := by
    intro id
    rw [publishRow, Hash.lookup_insert]
    split
    · cases s.tables.completeFiles.lookup held.id <;> rfl
    · rfl
  refine ⟨.same, .put _ found rfl fun _ _ _ => id, .same, fun id next there layout => ?_⟩
  rw [ready]
  rw [Hash.lookup_insert] at there
  split at there
  · rename_i equal
    cases there
    rw [if_pos equal, generation_of_core same]
    exact ⟨rfl, rfl⟩
  · rename_i apart
    rw [if_neg apart]
    exact owns id next there layout

end

theorem deferRow_ready {till other : Nat} :
    ((deferRow id till tables).completeFiles.lookup other).any CompleteRow.ready =
      (tables.completeFiles.lookup other).any CompleteRow.ready := by
  rw [deferRow, Hash.lookup_insert]
  split
  · rename_i same
    rw [same]
    cases tables.completeFiles.lookup id <;> rfl
  · rfl

variable [Sha256]

theorem tamed_of_change (sound : Sound s) (owns : Owns s.tables.completeFiles s.versions) (change : Change event start s t) :
    Tamed start s t := by
  cases change with
  | evict evict => exact tamed_of_evict sound owns evict
  | touch =>
    rw [changeVersion_others]
    exact ⟨.changeVersion fun row _ => ⟨⟨rfl, rfl, rfl, id⟩, rfl⟩, .same, .same, owns⟩
  | corrupt | retire =>
    rw [changeVersion_others]
    exact ⟨.changeVersion fun row _ => setObsolete_whole (by decide) row, .same, .same, owns⟩
  | invalidate asked =>
    refine ⟨.recast (recast_of_map fun row => ?_), .same, .same, owns⟩
    split
    · exact setObsolete_whole (by decide) row
    · exact .refl row
  | refreshRow held =>
    obtain ⟨row, stored, same, -⟩ := sound.heldRow held
    rw [changeVersion_others]
    refine ⟨.changeVersion fun other present => ?_, .same, .same, owns⟩
    rw [stored] at present
    cases present
    exact ⟨⟨rfl, rfl, same.symm, id⟩, rfl⟩
  | @refresh version store value held found =>
    obtain ⟨also, present, -, same⟩ := sound.held.residents version held
    rw [found] at present
    cases present
    have metadata : core { version.metadata with store := store } = core value.metadata := same.symm
    exact ⟨.same, .put _ found (layout_of_core metadata) fun _ _ _ => id, .same, owns.put _ found metadata rfl rfl⟩
  | insert asked fresh issued valid layout inserted => exact tamed_of_insert sound owns inserted
  | hold hold => exact tamed_of_hold sound owns hold
  | pin pin =>
    cases pin with
    | tick tick => exact tamed_of_tick owns tick
    | _ => exact ⟨.same, .same, .same, owns⟩
  | @make name absent packs data =>
    refine ⟨.same, .same, fun generation file present => ?_, owns⟩
    obtain ⟨same, present⟩ | ⟨-, present⟩ := Hash.lookup_insert_some present
    · obtain ⟨fresh, novel⟩ := data generation same
      exact .new fresh novel
    · exact .grown present le_rfl fun _ _ => rfl
  | append append =>
    cases append with
    | tick tick => exact tamed_of_tick owns tick
    | extend beyond =>
      rw [onFile_others]
      exact ⟨.same, .same, .extend beyond, owns⟩
  | fill | spill | cutPack =>
    rw [onFile_others]
    exact ⟨.same, .same, .other fun _ => nofun, owns⟩
  | unmake novel => exact ⟨.same, .same, .erase, owns⟩
  | cleanup discard => exact tamed_of_discard owns discard
  | clear clear =>
    cases clear with
    | tick tick => exact tamed_of_tick owns tick
    | discard discard => exact tamed_of_discard owns discard
  | abandon discard | supersede discard | sweep discard => exact tamed_of_discard owns discard
  | @forgetBlock id block value found layout =>
    refine ⟨.same, .put _ found rfl fun _ other entry listed => ?_, .same, owns.put _ found rfl rfl rfl⟩
    rw [remove_get] at listed
    split at listed
    · cases listed
    · exact listed
  | forgetEntry found patched =>
    refine tamed_of_patch sound owns found patched fun _ other entry listed => ?_
    rw [remove_get] at listed
    split at listed
    · cases listed
    · exact listed
  | publishWritten found layout grown patched =>
    have published : Tamed start s _ := tamed_of_patch sound owns found patched fun blocks => by
      rw [layout] at blocks
      cases blocks
    rw [upserted]
    exact { published with files := .same }
  | insertPack inserted number present header =>
    unfold CacheObjects.insertPack at inserted
    split at inserted <;> cases inserted
    exact ⟨.same, .same, .same, owns⟩
  | commitObject asked whole listed live group present stored bound =>
    rw [growPack_tables]
    exact ⟨.same, .same, .same, owns⟩
  | touchPack =>
    unfold CacheObjects.touchPack
    split <;> exact ⟨.same, .same, .same, owns⟩
  | defer => exact ⟨.same, .same, .same, owns.files fun _ _ => deferRow_ready⟩
  | publish present absent =>
    refine ⟨.same, .same, fun generation file there => ?_, owns⟩
    rw [Hash.lookup_insert, if_neg nofun, Hash.lookup_erase, if_neg nofun] at there
    exact .grown there le_rfl fun _ _ => rfl
  | publishRow working building found => exact tamed_of_publishRow sound owns working found
  | grantLease room granted =>
    unfold insertLease at granted
    split at granted <;> cases granted
    exact ⟨.same, .same, .same, owns⟩
  | extendLease asked =>
    unfold CacheFiles.extendLease
    split
    · split <;> exact ⟨.same, .same, .same, owns⟩
    · exact ⟨.same, .same, .same, owns⟩
  | _ => exact ⟨.same, .same, .same, owns⟩

/-- One row comes from another of the same resource. -/
structure Cored (before after : VersionRow) : Prop where
  generation : after.generation = before.generation
  metadata : core after.metadata = core before.metadata

omit [Sha256] in
theorem cored_of_head {old row : VersionRow} (same : headOf row = headOf old) : Cored old row := by
  have generation := congrArg VersionRow.generation same
  have metadata := congrArg (fun row => core row.metadata) same
  exact ⟨generation, metadata⟩

omit [Sha256] in
theorem cored_lineage (event : Event) : Lineage event Cored where
  same := cored_of_head
  used _ _ := ⟨rfl, rfl⟩
  refreshed _ _ same := ⟨rfl, same⟩
  condemned _ := ⟨rfl, rfl⟩
  retired _ _ := ⟨rfl, rfl⟩
  trans one two := ⟨two.generation.trans one.generation, two.metadata.trans one.metadata⟩
  generation := Cored.generation
  retiring _ _ := ⟨rfl, rfl⟩

omit [Sha256] in
theorem Refers.row (sound : Sound s) (refers : Refers s id block slot) :
    ∃ row, s.tables.versions.lookup id = some row ∧ row.metadata.layout = .blocks := by
  cases refers with
  | committed stored layout listed => exact ⟨_, stored, layout⟩
  | memory found layout listed =>
    obtain ⟨row, stored, same, -⟩ := sound.residents id _ found
    exact ⟨row, stored, (layout_of_core same).symm.trans layout⟩

omit [Sha256] in
theorem same_of_generation (sound : Sound s) {other : Nat} {row twin : VersionRow}
    (stored : s.tables.versions.lookup id = some row) (present : s.tables.versions.lookup other = some twin)
    (same : row.metadata.generation = twin.metadata.generation) : id = other := by
  refine sound.rows.unique id other row twin stored present ?_
  rw [(sound.rows.each id row stored).generation, same, (sound.rows.each other twin present).generation]

omit [Sha256] in
theorem Tamed.refers (tamed : Tamed start s t) (refers : Refers t id block slot) :
    Refers s id block slot := by
  cases refers with
  | committed stored layout listed => exact tamed.rows id _ stored layout _ _ listed
  | memory found layout listed => exact tamed.memory id _ found layout _ _ listed

theorem row_before (sound : Sound s) (change : Change event start s t) {old row : VersionRow}
    (stored : s.tables.versions.lookup id = some old) (present : t.tables.versions.lookup id = some row) :
    core row.metadata = core old.metadata := by
  have lineage := cored_lineage event
  rcases lineage.change sound change with succeeds | ⟨metadata, time, -, inserted⟩
  · obtain ⟨mid, there, cored⟩ := succeeds id row present
    rw [stored] at there
    cases there
    exact cored.metadata
  · rcases inserted_row inserted present with ⟨rfl, -, -⟩ | ⟨mid, there, ⟨-, rfl⟩ | ⟨-, rfl⟩⟩
    · rw [nextId_fresh] at stored
      cases stored
    · rw [stored] at there
      cases there
      rfl
    · rw [stored] at there
      cases there
      rfl

omit [Sha256] in
theorem slotStart_core {left right : Metadata} (same : core left = core right) (slot : Nat) :
    slotStart left slot = slotStart right slot := by
  rw [slotStart, slotStart, geometry_of_core same]

theorem Slotted.change (sound : Sound s) (slotted : Slotted s) (change : Change event start s t) : Slotted t := by
  have tamed := tamed_of_change sound slotted.owns change
  refine ⟨fun id row file block slot stored present refers => ?_, fun id block other slot first second => ?_, tamed.owns⟩
  · have before := tamed.refers refers
    obtain ⟨old, had, -⟩ := before.row sound
    have same := row_before sound change had stored
    rw [slotStart_core same]
    rw [generation_of_core same] at present
    cases tamed.files _ file present with
    | grown there longer bytes => exact Nat.le_trans (slotted.inside id old _ block slot had there before) longer
    | @cut other slots twin _ absent listed name there whole above =>
      cases same_of_generation sound listed had name
      rw [had] at listed
      cases listed
      cases before with
      | committed kept layout found =>
        rw [had] at kept
        cases kept
        exact Nat.add_le_add_left (Nat.mul_le_mul_right _ (above block _ found)) _
      | memory found layout listed =>
        rw [absent] at found
        cases found
    | new fresh novel => exact absurd (sound.rows.each id old had).generation (novel id old had)
  · exact slotted.apart id block other slot (tamed.refers first) (tamed.refers second)

theorem slotted_kept (event : Event) (start : Storage) : Kept event start fun s => Sound s ∧ Slotted s :=
  ⟨fun s t holds change => ⟨.change s t holds.1 change, holds.2.change holds.1 change⟩, fun _ holds => holds.1⟩

/-! ## Writing blocks -/

/-- Blocks that were appended and are not in the index yet: their slots are theirs alone, and in the file. -/
structure Waiting (id : Nat) (metadata : Metadata) (appended : Appended) (s : Storage) : Prop where
  free : ∀ entry ∈ appended, ∀ block slot, Refers s id block slot → slot ≠ entry.2.1
  within : ∀ entry ∈ appended, ∀ file, s.files.lookup (.data metadata.generation) = some file →
    slotStart metadata (entry.2.1 + 1) ≤ file.length
  distinct : (appended.map fun entry => entry.2.1).Nodup

omit [Sha256] in
theorem Waiting.nil : Waiting id metadata [] s := ⟨nofun, nofun, List.nodup_nil⟩

omit [Sha256] in
theorem Waiting.reverse (waiting : Waiting id metadata appended s) :
    Waiting id metadata appended.reverse s where
  free entry member := waiting.free entry (List.mem_reverse.mp member)
  within entry member := waiting.within entry (List.mem_reverse.mp member)
  distinct := by
    rw [List.map_reverse, List.nodup_reverse]
    exact waiting.distinct

omit [Sha256] in
theorem append_versions (append : Append s t) : t.versions = s.versions ∧ t.tables = s.tables := by
  cases append with
  | tick tick =>
    cases tick
    exact ⟨rfl, rfl⟩
  | extend beyond =>
    rw [onFile_others]
    exact ⟨rfl, rfl⟩

omit [Sha256] in
theorem refers_append (append : Append s t) : Refers t id block slot ↔ Refers s id block slot := by
  obtain ⟨versions, tables⟩ := append_versions append
  constructor
  · rintro (⟨stored, layout, listed⟩ | ⟨found, layout, listed⟩)
    · exact .committed (tables ▸ stored) layout listed
    · exact .memory (versions ▸ found) layout listed
  · rintro (⟨stored, layout, listed⟩ | ⟨found, layout, listed⟩)
    · exact .committed (tables ▸ stored) layout listed
    · exact .memory (versions ▸ found) layout listed

omit [Sha256] in
theorem append_longer {after : Contents} (append : Append s t) (present : t.files.lookup name = some after) :
    ∃ file, s.files.lookup name = some file ∧ file.length ≤ after.length := by
  cases append with
  | tick tick =>
    cases tick
    exact ⟨after, present, le_rfl⟩
  | extend beyond =>
    unfold CacheDisk.onFile at present
    split at present
    · rename_i old there
      obtain ⟨rfl, rfl⟩ | ⟨-, present⟩ := Hash.lookup_insert_some present
      · exact ⟨old, there, (splice_behind (beyond old there)).1⟩
      · exact ⟨after, present, le_rfl⟩
    · exact ⟨after, present, le_rfl⟩

omit [Sha256] in
theorem Waiting.append : Closed Append (Waiting id metadata appended) := by
  intro s t waiting append
  refine ⟨fun entry member block slot refers => ?_, fun entry member after present => ?_, waiting.distinct⟩
  · exact waiting.free entry member block slot ((refers_append append).mp refers)
  · obtain ⟨file, there, longer⟩ := append_longer append present
    exact Nat.le_trans (waiting.within entry member file there) longer

/-- A version in memory, with its index as it was read. -/
def Opened (id : Nat) (value : Resident) (s : Storage) : Prop :=
  (Sound s ∧ Slotted s) ∧ s.versions.lookup id = some value

theorem Opened.append : Closed Append (Opened id value) := by
  refine (slotted_kept .usage Storage.fresh).appends.and fun s t found append => ?_
  rw [(append_versions append).1]
  exact found

omit [Sha256] in
theorem Opened.below (opened : Opened id value s) {file : Contents} {behind : Nat}
    (present : s.files.lookup (.data value.metadata.generation) = some file)
    (past : file.length ≤ headerLen + behind * value.metadata.geometry.block)
    (refers : Refers s id block slot) : slot < behind := by
  obtain ⟨⟨sound, slotted⟩, found⟩ := opened
  obtain ⟨row, stored, same, -⟩ := sound.residents id value found
  have inside := slotted.inside id row file block slot stored (generation_of_core same ▸ present) refers
  rw [← slotStart_core same] at inside
  have products : (slot + 1) * value.metadata.geometry.block ≤ behind * value.metadata.geometry.block :=
    Nat.le_of_add_le_add_left (Nat.le_trans inside past)
  exact Nat.le_of_mul_le_mul_right products value.metadata.geometry.block_pos

theorem appendBlock_waits : Triple (fun s => Opened id value s ∧ Waiting id value.metadata appended s)
      (appendBlock value (.data value.metadata.generation) block data)
      (fun slot s => Opened id value s ∧ Waiting id value.metadata ((block, slot, data) :: appended) s)
      (fun s => Opened id value s ∧ Waiting id value.metadata appended s) := by
  have closed : Closed Append fun s => Opened id value s ∧ Waiting id value.metadata appended s :=
    Opened.append.and Waiting.append
  let Picked : Nat → Storage → Prop := fun slot s => (∀ other taken, Refers s id other taken → taken ≠ slot) ∧
    slot ∉ appended.map fun entry => entry.2.1
  have steady : ∀ slot, Closed Append (Picked slot) := fun slot s t picked append =>
    ⟨fun other taken refers => picked.1 other taken ((refers_append append).mp refers), picked.2⟩
  refine (appendBlock_triple closed steady fun s file slot holds present past => ⟨fun other taken refers => ?_, ?_⟩).after ?_
  · exact Nat.ne_of_lt (holds.1.below present past refers)
  · intro member
    obtain ⟨entry, listed, same⟩ := List.mem_map.mp member
    have inside := holds.2.within entry listed file present
    have positive := value.metadata.geometry.block_pos
    rw [slotStart, same, Nat.add_one_mul] at inside
    omega
  · rintro slot s ⟨⟨⟨opened, waiting⟩, free, apart⟩, file, present, whole⟩
    refine ⟨opened, ⟨fun entry member => ?_, fun entry member => ?_, List.nodup_cons.mpr ⟨apart, waiting.distinct⟩⟩⟩
    · rcases List.mem_cons.mp member with rfl | old
      · exact free
      · exact waiting.free entry old
    · rcases List.mem_cons.mp member with rfl | old
      · intro after there
        rw [present] at there
        cases there
        rw [slotStart, Nat.add_one_mul, ← Nat.add_assoc]
        exact whole
      · exact waiting.within entry old

theorem appendBlocks_wait (blocks : List (Nat × List UInt8)) :
    Triple (fun s => Opened id value s ∧ Waiting id value.metadata appended s)
      (appendBlocks value (.data value.metadata.generation) blocks appended)
      (fun appended s => Opened id value s ∧ Waiting id value.metadata appended s) (Opened id value) := by
  induction blocks generalizing appended with
  | nil => exact .pure fun s holds => ⟨holds.1, holds.2.reverse⟩
  | cons entry rest ih =>
    refine .ite (fun _ => ih) fun _ => ?_
    exact .bind (appendBlock_waits.otherwise fun s holds => holds.1) fun slot => ih

theorem refers_set (found : s.versions.lookup id = some value)
    (set : value.index.set block slot data = .ok index) {other place taken : Nat}
    (refers : Refers { s with versions := s.versions.insert id { value with index := index } } other place taken) :
    Refers s other place taken ∨ other = id ∧ place = block ∧ taken = slot := by
  obtain ⟨-, -, rfl⟩ := set_eq_ok set
  rcases refers with ⟨stored, layout, listed⟩ | @⟨next, _, entry, present, layout, listed⟩
  · exact .inl (.committed stored layout listed)
  · rw [Hash.lookup_insert] at present
    split at present
    · rename_i same
      cases present
      change (value.index.entries.insert block _).lookup place = some entry at listed
      rw [Hash.lookup_insert] at listed
      split at listed
      · rename_i equal
        cases listed
        exact .inr ⟨same, equal, rfl⟩
      · exact .inl (same ▸ .memory found layout listed)
    · exact .inl (.memory present layout listed)

/-- A version of this resource in memory. -/
def Typed (id : Nat) (metadata : Metadata) (s : Storage) : Prop :=
  (Sound s ∧ Slotted s) ∧ ∀ value, s.versions.lookup id = some value → core value.metadata = core metadata

theorem Waiting.set {rest : Appended} (typed : Typed id metadata s)
    (waiting : Waiting id metadata ((block, slot, data) :: rest) s) (layout : metadata.layout = .blocks)
    (found : s.versions.lookup id = some value) (set : value.index.set block slot data = .ok index) :
    Typed id metadata { s with versions := s.versions.insert id { value with index := index } } ∧
      Waiting id metadata rest { s with versions := s.versions.insert id { value with index := index } } := by
  obtain ⟨⟨sound, slotted⟩, same⟩ := typed
  have metadata_same := same value found
  have put := Sound.put s _ sound (.setBlock found ((layout_of_core metadata_same).trans layout) set)
  obtain ⟨apart, distinct⟩ := List.nodup_cons.mp waiting.distinct
  refine ⟨⟨⟨put, ⟨fun other row file place taken stored present refers => ?_, fun other place third taken first second => ?_,
    slotted.owns.put _ found rfl rfl rfl⟩⟩, fun next present => ?_⟩, fun entry member place taken refers => ?_,
    fun entry member => waiting.within entry (.tail _ member), distinct⟩
  · rcases refers_set found set refers with old | ⟨rfl, rfl, rfl⟩
    · exact slotted.inside other row file place taken stored present old
    · obtain ⟨twin, there, equal, -⟩ := sound.residents other value found
      change s.tables.versions.lookup other = some row at stored
      rw [stored] at there
      cases there
      have cores := equal.symm.trans metadata_same
      rw [slotStart_core cores]
      exact waiting.within _ (.head _) file (generation_of_core cores ▸ present)
  · have lone := waiting.free _ (.head _)
    rcases refers_set found set first with old | ⟨rfl, rfl, rfl⟩
    · rcases refers_set found set second with also | ⟨rfl, rfl, rfl⟩
      · exact slotted.apart other place third taken old also
      · exact absurd rfl (lone place _ old)
    · rcases refers_set found set second with also | ⟨-, rfl, -⟩
      · exact absurd rfl (lone third _ also)
      · rfl
  · obtain ⟨-, rfl⟩ | ⟨-, present⟩ := Hash.lookup_insert_some present
    · exact metadata_same
    · exact same next present
  · rcases refers_set found set refers with old | ⟨-, -, rfl⟩
    · exact waiting.free entry (.tail _ member) place taken old
    · rintro equal
      exact apart (List.mem_map.mpr ⟨entry, member, equal.symm⟩)

theorem setAppended_keeps (layout : metadata.layout = .blocks) (appended : Appended) :
    Triple (fun s => Typed id metadata s ∧ Waiting id metadata appended s) (setAppended id appended)
      (fun _ s => Sound s ∧ Slotted s) fun s => Sound s ∧ Slotted s := by
  refine .bind (.weaken (.loopRest (E := fun s => Sound s ∧ Slotted s)
    (J := fun rest _ s => Typed id metadata s ∧ Waiting id metadata rest s) ?_) (fun _ holds => holds)
    (fun _ s holds => holds.1.1) fun _ holds => holds) fun _ => Keeps.pure
  rintro ⟨block, slot, data⟩ rest carried
  refine .bind (resident_triple.otherwise fun s holds => holds.1.1) fun value => ?_
  refine .bind (Q := fun index s => ((Typed id metadata s ∧ Waiting id metadata ((block, slot, data) :: rest) s) ∧
      s.versions.lookup id = some value) ∧ value.index.set block slot data = .ok index)
    (liftExcept_triple (fun index set s holds => ⟨holds, set⟩) fun s holds => holds.1.1.1) fun index => ?_
  refine .bind (Q := fun _ s => Typed id metadata s ∧ Waiting id metadata rest s) (.update ?_)
    fun _ => .pure fun s holds => holds
  rintro s ⟨⟨⟨typed, waiting⟩, found⟩, set⟩
  exact waiting.set typed layout found set

/-- No file of the version is published. -/
def Unready (id : Nat) (s : Storage) : Prop := (s.tables.completeFiles.lookup id).any CompleteRow.ready = false

omit [Sha256] in
theorem Unready.evict : Closed (Evict may) (Unready id) := by
  intro s t unready evict
  cases evict with
  | purge purge =>
    cases purge with
    | settle settle =>
      rw [Unready, settle.frame.part (fun s => s.tables.completeFiles) fun _ => rfl]
      exact unready
    | expire expire =>
      cases expire with
      | tick tick =>
        cases tick
        exact unready
      | _ => exact unready
    | obsolete unheld =>
      rw [Unready, changeVersion_others]
      exact unready
    | release unheld => exact unready
    | discard discard => cases discard <;> exact unready
    | @deleteRows other unheld gone =>
      change ((s.tables.completeFiles.erase other).lookup id).any CompleteRow.ready = false
      rw [Hash.lookup_erase]
      split
      · rfl
      · exact unready
  | unpack unpack =>
    cases unpack with
    | tick tick =>
      cases tick
      exact unready
    | condemn =>
      rw [Unready, markPackDeleting_others]
      exact unready
    | discard discard => cases discard <;> exact unready
    | dropRow marked => exact unready

/-- A write puts its blocks at slots of their own, whatever fails and wherever it stops. -/
theorem slotted_writes : Writes fun s => Sound s ∧ Slotted s := by
  intro id metadata blocks layout
  let Both : Storage → Prop := fun s => Sound s ∧ Slotted s
  have kept : Kept .usage Storage.fresh Both := slotted_kept .usage Storage.fresh
  let Pre : Storage → Prop := fun s => Both s ∧ Named id metadata s
  have evicts : Closed (Evict Any) Pre := kept.evicts.and Named.evict
  have settles := Purge.settles (Evict.purges evicts)
  have drop : ∀ s, Pre s → Both s := fun s holds => holds.1
  refine Triple.bind ((checkActive_keeps (Settle.ticks settles)).otherwise drop) fun _ => ?_
  refine Triple.bind ((load_sound settles).otherwise drop) fun value => ?_
  refine Triple.ite (fun _ => Triple.ensure (fun _ s holds => holds.1.1) fun _ s holds => holds.1.1) fun thin => ?_
  -- nothing publishes the file before the blocks are appended
  let Bare : Storage → Prop := fun s => Pre s ∧ Unready id s
  have bare : Closed (Evict Any) Bare := evicts.and Unready.evict
  have bareSettles := Purge.settles (Evict.purges bare)
  refine Triple.before (P := Bare) ?_ fun s ⟨holds, found⟩ => ⟨holds, ?_⟩
  · refine Triple.bind ((evict_keeps bare (any_entitled (Settle.ticks bareSettles))).otherwise fun s holds => holds.1.1)
      fun _ => ?_
    refine Triple.bind ((load_sound bareSettles).otherwise fun s holds => holds.1.1) fun value => ?_
    refine Triple.pointwise fun begun ⟨⟨⟨⟨sound, slotted⟩, named⟩, unready⟩, found⟩ => ?_
    have same := named.metadata sound found
    have blocked : value.metadata.layout = .blocks := (layout_of_core same).trans layout
    obtain ⟨plain, file⟩ := slotted.owns id value found blocked
    rw [plain, unready] at file
    rw [file]
    refine Triple.before (P := fun s => Opened id value s ∧ Waiting id value.metadata [] s) ?_ fun s equal => ?_
    · refine Triple.bind ((appendBlocks_wait blocks).otherwise fun s holds => holds.1) fun appended => ?_
      have synced : Closed Tick fun s => Opened id value s ∧ Waiting id value.metadata appended s :=
        (Opened.append.and Waiting.append).mono fun _ _ => .tick
      refine Triple.bind ((disk_keeps synced).otherwise fun s holds => holds.1.1) fun _ => ?_
      refine Triple.bind ((setAppended_keeps blocked appended).before fun s ⟨opened, waiting⟩ => ?_) fun _ =>
        commit_keeps (Settle.reserves kept.settles)
      refine ⟨⟨opened.1, fun other present => ?_⟩, waiting⟩
      rw [opened.2] at present
      cases present
      rfl
    · rw [equal]
      exact ⟨⟨⟨sound, slotted⟩, found⟩, .nil⟩
  · have same := holds.2.metadata holds.1.1 found
    have owned := (holds.1.2.owns id value found ((layout_of_core same).trans layout)).1
    rw [Unready, ← owned]
    exact Bool.eq_false_iff.mpr thin

omit [Sha256] in
theorem Slotted.restart (slotted : Slotted s) : Slotted (CacheEvents.restart s) := by
  have fewer : ∀ id block slot, Refers (CacheEvents.restart s) id block slot → Refers s id block slot := by
    rintro id block slot (⟨stored, layout, listed⟩ | ⟨found, layout, listed⟩)
    · exact .committed stored layout listed
    · cases (AList.lookup_empty (β := fun _ => Resident) id).symm.trans found
  refine ⟨fun id row file block slot stored present refers => ?_, fun id block other slot first second => ?_,
    fun id value present => ?_⟩
  · exact slotted.inside id row file block slot stored present (fewer id block slot refers)
  · exact slotted.apart id block other slot (fewer id block slot first) (fewer id other slot second)
  · cases (AList.lookup_empty (β := fun _ => Resident) id).symm.trans present

omit [Sha256] in
theorem Slotted.of_same (slotted : Slotted s) (tables : t.tables = s.tables) (versions : t.versions = s.versions)
    (lengths : ∀ name, (t.files.lookup name).map Contents.length = (s.files.lookup name).map Contents.length) :
    Slotted t := by
  have fewer : ∀ id block slot, Refers t id block slot → Refers s id block slot := by
    rintro id block slot (⟨stored, layout, listed⟩ | ⟨found, layout, listed⟩)
    · exact .committed (tables ▸ stored) layout listed
    · exact .memory (versions ▸ found) layout listed
  refine ⟨fun id row file block slot stored present refers => ?_, fun id block other slot first second => ?_, ?_⟩
  · have long := lengths (.data row.metadata.generation)
    rw [present] at long
    obtain ⟨old, there, same⟩ := Option.map_eq_some_iff.mp long.symm
    rw [← same]
    exact slotted.inside id row old block slot (tables ▸ stored) there (fewer id block slot refers)
  · exact slotted.apart id block other slot (fewer id block slot first) (fewer id other slot second)
  · rw [tables, versions]
    exact slotted.owns

theorem slotted_lasting : Lasting fun s => Sound s ∧ Slotted s where
  sound s holds := holds.1
  change event start := (slotted_kept event start).closed
  writes := slotted_writes
  work s t holds work := by
    refine ⟨.work s t holds.1 work, ?_⟩
    cases work <;> exact holds.2.of_same rfl rfl fun _ => rfl
  configure event s t holds configure := by
    refine ⟨.configure s t holds.1 configure, ?_⟩
    cases configure
    exact holds.2.of_same rfl rfl fun _ => rfl
  restart s holds := ⟨holds.1.restart, holds.2.restart⟩

/-- Bytes of files change on the disk, and the files keep their lengths. -/
inductive Damage : Storage → Storage → Prop where
  | damage (s : Storage) (files : Hash FileName Contents)
      (same : ∀ name, (files.lookup name).map Contents.length = (s.files.lookup name).map Contents.length) :
      Damage s { s with files := files }

/-- The states of a cache that began with an empty directory, on a disk that may damage its files. -/
inductive Weathered : Storage → Prop where
  | fresh : Weathered Storage.fresh
  | event {s : Storage} (weathered : Weathered s) (event : Event) (tape : List Chance) : Weathered (perform event tape s)
  | damage {s t : Storage} (weathered : Weathered s) (damage : Damage s t) : Weathered t

omit [Sha256] in
theorem Slotted.fresh : Slotted Storage.fresh := by
  have rows : ∀ id, Storage.fresh.tables.versions.lookup id = none := AList.lookup_empty
  have versions : ∀ id, Storage.fresh.versions.lookup id = none := AList.lookup_empty
  have none : ∀ id block slot, ¬ Refers Storage.fresh id block slot := by
    rintro id block slot (⟨stored, layout, listed⟩ | ⟨found, layout, listed⟩)
    · cases (rows id).symm.trans stored
    · cases (versions id).symm.trans found
  refine ⟨fun id row file block slot _ _ refers => ?_, fun id block other slot refers => ?_, fun id value found => ?_⟩
  · exact absurd refers (none id block slot)
  · exact absurd refers (none id block slot)
  · cases (versions id).symm.trans found

theorem Weathered.slotted (weathered : Weathered s) : Sound s ∧ Slotted s := by
  induction weathered with
  | fresh => exact ⟨.fresh, .fresh⟩
  | @event s weathered event tape ih => exact slotted_lasting.step ih (show Step s (event, tape) _ from rfl)
  | damage weathered damage ih =>
    obtain ⟨sound, slotted⟩ := ih
    cases damage with
    | damage files same =>
      exact ⟨{ sound with },
        slotted.of_same rfl rfl same⟩

/-! ## No write into a slot that is taken -/

/-- The whole slots of the data files that an event found are there and as they were, unless the file is gone. -/
def Intact (start s : Storage) : Prop :=
  ∀ id row file after, start.tables.versions.lookup id = some row →
    start.files.lookup (.data row.metadata.generation) = some file →
    s.files.lookup (.data row.metadata.generation) = some after →
    ∀ slot, slotStart row.metadata (slot + 1) ≤ file.length →
      slotStart row.metadata (slot + 1) ≤ after.length ∧
        ∀ position < slotStart row.metadata (slot + 1), after.byte position = file.byte position

omit [Sha256] in
theorem whole_kept {length slots : Nat} (whole : slots = (length - headerLen) / metadata.geometry.block)
    (inside : slotStart metadata (slot + 1) ≤ length) :
    slotStart metadata (slot + 1) ≤ slotStart metadata slots := by
  have room : (slot + 1) * metadata.geometry.block ≤ length - headerLen := Nat.le_sub_of_add_le' inside
  rw [whole]
  exact Nat.add_le_add_left (Nat.mul_le_mul_right _ ((Nat.le_div_iff_mul_le metadata.geometry.block_pos).mpr room)) _

omit [Sha256] in
theorem Intact.step (began : Sound start) (found : Found Cored start s) (intact : Intact start s)
    (sound : Sound s) (files : PriorFiles start s t.files) : Intact start t := by
  intro id row file after stored first present slot inside
  have issued : row.metadata.generation ∈ start.issued := by
    rw [← (began.rows.each id row stored).generation]
    exact (began.rows.each id row stored).issued
  cases files _ after present with
  | grown there longer same =>
    obtain ⟨within, bytes⟩ := intact id row file _ stored first there slot inside
    refine ⟨Nat.le_trans within longer, fun position before => ?_⟩
    rw [same position (Nat.lt_of_lt_of_le before within), bytes position before]
  | @cut other slots twin old absent listed name there whole above =>
    obtain ⟨within, bytes⟩ := intact id row file old stored first there slot inside
    -- the row whose file was cut is the one of this version
    have known : twin.generation ∈ start.issued := by
      rw [(sound.rows.each other twin listed).generation, name]
      exact issued
    obtain ⟨origin, kept, cored⟩ := found other twin listed known
    cases same_of_generation began kept stored ((generation_of_core cored.metadata).symm.trans name)
    rw [stored] at kept
    cases kept
    rw [slotStart_core cored.metadata slots]
    rw [geometry_of_core cored.metadata] at whole
    have reach := whole_kept whole within
    refine ⟨reach, fun position before => ?_⟩
    rw [← bytes position before]
    exact if_pos (Nat.lt_of_lt_of_le before reach)
  | new fresh novel => exact absurd issued fresh

/-- What is kept along an event for the sake of the slots it found. -/
structure Guarded (start s : Storage) : Prop where
  sound : Sound s
  owns : Owns s.tables.completeFiles s.versions
  found : Found Cored start s
  intact : Intact start s

theorem guarded_kept (began : Sound start) (event : Event) : Kept event start (Guarded start) := by
  refine ⟨fun s t guarded change => ?_, fun s guarded => guarded.sound⟩
  have tamed := tamed_of_change guarded.sound guarded.owns change
  refine ⟨.change s t guarded.sound change, tamed.owns, ?_,
    guarded.intact.step began guarded.found guarded.sound tamed.files⟩
  have lineage := cored_lineage event
  rcases lineage.change guarded.sound change with succeeds | inserts
  · exact lineage.succeeds guarded.found succeeds
  · exact lineage.inserts guarded.found inserts

theorem guarded_put : Closed Put (Guarded start) := by
  intro s t guarded put
  have sound := Sound.put s t guarded.sound put
  cases put with
  | setBlock found layout set =>
    exact ⟨sound, guarded.owns.put _ found rfl rfl rfl, guarded.found, guarded.intact⟩

theorem intact_perform (began : Sound start) (slotted : Slotted start) (event : Event) (tape : List Chance) :
    Intact start (perform event tape start) := by
  have kept := guarded_kept began event
  have begun : Guarded start start := by
    refine ⟨began, slotted.owns, fun id row present _ => ⟨row, present, rfl, rfl⟩, ?_⟩
    intro id row file after _ first present slot inside
    rw [first] at present
    cases present
    exact ⟨inside, fun _ _ => rfl⟩
  have ended : Guarded start (perform event tape start) := kept.perform (kept.writeData guarded_put)
    (fun s t guarded work => ?_) (fun s t guarded configure => ?_) (fun s guarded => ?_) begun
  · exact ended.intact
  · have sound := Sound.work s t guarded.sound work
    cases work <;> exact { guarded with sound := sound }
  · have sound := Sound.configure s t guarded.sound configure
    cases configure
    exact { guarded with sound := sound }
  · refine ⟨guarded.sound.restart, fun id value present => ?_, guarded.found, guarded.intact⟩
    cases (AList.lookup_empty (β := fun _ => Resident) id).symm.trans present

/-- However a cache was used, whatever failed and wherever the process died, the entries of a version, in its
row and in memory, have slots of their own inside the data file, and no event changes a byte of these slots. -/
theorem slots_apart_inside_unchanged (weathered : Weathered s) :
    (∀ id block other slot, Refers s id block slot → Refers s id other slot → block = other) ∧
    (∀ id row file block slot, s.tables.versions.lookup id = some row →
      s.files.lookup (.data row.metadata.generation) = some file → Refers s id block slot →
      slotStart row.metadata (slot + 1) ≤ file.length) ∧
    ∀ event tape id row file after block slot, s.tables.versions.lookup id = some row →
      s.files.lookup (.data row.metadata.generation) = some file → Refers s id block slot →
      (perform event tape s).files.lookup (.data row.metadata.generation) = some after →
      ∀ position, slotStart row.metadata slot ≤ position → position < slotStart row.metadata (slot + 1) →
        after.byte position = file.byte position := by
  obtain ⟨sound, slotted⟩ := weathered.slotted
  refine ⟨slotted.apart, slotted.inside, fun event tape id row file after block slot stored present refers there => ?_⟩
  intro position _ before
  have inside := slotted.inside id row file block slot stored present refers
  exact (intact_perform sound slotted event tape id row file after stored present there slot inside).2 position before

/-- A resource with a data file. -/
def cover : Metadata where
  key := "cover"
  provider := 1
  kind := 0
  generation := "fedcba9876543210fedcba9876543210"
  geometry := ⟨2 * minBlock, minBlock, minBlock_listed⟩
  store := true
  layout := .blocks

omit [Sha256] in
theorem slots_of_a_twice_written_cover :
    let _ := openssl
    let created := perform (.create cover) [] (perform (.launch defaultCapacity) [] Storage.fresh)
    let written := perform (.write 1 [(0, List.replicate minBlock 7), (0, List.replicate minBlock 7)]) [] created
    ∀ id block other slot, Refers written id block slot → Refers written id other slot → block = other := by
  intro _ created written
  have weathered : Weathered created :=
    .event (.event .fresh (.launch defaultCapacity) []) (.create cover) []
  exact (slots_apart_inside_unchanged (weathered.event _ _)).1

end Qcm.CacheSlotProofs
