import Qcm.CacheLoad

/-!
Eviction, and the operations on versions: create, look up, read, write,
invalidate (`store.rs`, `segments.rs`, and the packs that eviction reaches in
`objects.rs`).
-/

namespace Qcm.CacheStore

open Lib Lib.Act ResourceFormat CacheState CacheDisk CacheLoad

variable [Sha256]

def deleteSegmentRows (id : Nat) (tables : Tables) : Tables :=
  { tables with segments := tables.segments.filter fun key _ => decide (key.1 ≠ id) }

def deleteCompleteRow (id : Nat) (tables : Tables) : Tables :=
  { tables with completeFiles := tables.completeFiles.erase id }

def deleteLeaseRows (id : Nat) (tables : Tables) : Tables :=
  { tables with fileLeases := tables.fileLeases.filter fun _ lease => decide (lease.version ≠ id) }

def deleteVersionRow (id : Nat) (tables : Tables) : Tables :=
  { tables with versions := tables.versions.erase id }

/-- The rows of a version, as the last transaction of `delete` takes them out. -/
def deleteVersionRows (id : Nat) : List (Tables → Option Tables) :=
  [fun tables => some (deleteSegmentRows id tables), fun tables => some (deleteCompleteRow id tables),
    fun tables => some (deleteLeaseRows id tables), fun tables => some (deleteVersionRow id tables)]

/-- The files of a version that is not in segments. -/
def versionFiles (generation : String) : List FileName := [.data generation, .okTmp generation, .ok generation]

/-- `delete`, once nothing holds the version. -/
def deleteUnheld (id : Nat) : Io Unit := do
  let generation ← query fun tables => (tables.versions.lookup id).map VersionRow.generation
  execute (changeVersion id (setObsolete 2))
  deleteAllSegments id
  dropResident id
  for name in ((generation.filter validGeneration).map versionFiles).getD [] do
    removeManaged name
  transaction (deleteVersionRows id)

/-- `delete` -/
def delete (id : Nat) : Io Unit := do
  let s ← state
  if s.versionPinned id then pure ()
  else if s.leased id then pure ()
  else do
    let pinned ← externallyPinned id
    if pinned then pure () else deleteUnheld id

def deleteObjectsOf (token : Token) (tables : Tables) : Tables :=
  { tables with objects := tables.objects.filter fun _ row => decide (row.pack ≠ token) }

def markPackDeleting (token : Token) (tables : Tables) : Tables :=
  match tables.packs.lookup token with
  | some row => { tables with packs := tables.packs.insert token { row with deleting := true } }
  | none => tables

def deletePackRow (token : Token) (tables : Tables) : Tables := { tables with packs := tables.packs.erase token }

/-- `delete_pack`; every token makes a managed name. -/
def deletePack (token : Token) : Io Unit := do
  transaction [fun tables => some (deleteObjectsOf token tables), fun tables => some (markPackDeleting token tables)]
  removeManaged (.pack token)
  execute (deletePackRow token)

/-- The order of two rows under `ORDER BY first DESC, last_use ASC`. -/
def evictedFirst (first : Nat × Nat) (second : Nat × Nat) : Bool :=
  decide (second.1 < first.1 ∨ (first.1 = second.1 ∧ first.2 ≤ second.2))

/-- Rows in the order of `ORDER BY level DESC, last_use ASC`; ties keep the order of the table. -/
def evictionOrder {α : Type} (rank : α → Nat × Nat) (rows : List α) : List α :=
  rows.insertionSort fun first second => evictedFirst (rank first) (rank second) = true

def packCandidates (tables : Tables) : List (Token × Bool) :=
  (evictionOrder (fun entry : (_ : Token) × PackRow => (entry.2.deleting.toNat, entry.2.lastUse))
    tables.packs.entries).map fun entry => (entry.1, entry.2.deleting)

/-- The loop of `evict_packs`: it stops at the first pack there is room for. -/
def evictPackTurns (required : Nat) : List (Token × Bool) → Io Unit
  | [] => pure ()
  | pack :: rest => do
    let measured ← usage
    let s ← state
    if pack.2 = false ∧ saturate (measured.total + required) ≤ s.capacity then pure ()
    else do
      let _ ← attempt (deletePack pack.1)
      evictPackTurns required rest

/-- `evict_packs` -/
def evictPacks (required : Nat) : Io Unit := do
  let packs ← query packCandidates
  evictPackTurns required packs

/-- The candidates of `evict_segments`, in the order `deleting DESC, obsolete DESC, last_use ASC`;
a level is at most two. -/
def segmentCandidates (tables : Tables) : List ((Nat × Nat) × Bool) :=
  let joined := tables.segments.entries.filterMap fun entry =>
    (tables.versions.lookup entry.1.1).map fun version => (entry.1, entry.2, version.obsolete)
  (evictionOrder (fun row => (3 * row.2.1.deleting.toNat + row.2.2, row.2.1.lastUse)) joined).map
    fun row => (row.1, row.2.1.deleting || row.2.2 != 0)

/-- The sum as `+` of `u64` computes it in a release build. -/
def wrap (sum : Nat) : Nat := sum % 2 ^ 64

/-- One turn of `evict_segments`. -/
def evictSegment (required : Nat) (candidate : (Nat × Nat) × Bool) : Io Unit := do
  let measured ← usage
  let s ← state
  if candidate.2 = false ∧ wrap (measured.total + required) ≤ s.capacity then pure ()
  else if s.pinned candidate.1 then pure ()
  else do
    let _ ← attempt (removeSegment candidate.1.1 candidate.1.2)

/-- `evict_segments` -/
def evictSegments (required : Nat) : Io Unit := do
  let candidates ← query segmentCandidates
  for candidate in candidates do
    evictSegment required candidate

def versionCandidates (spent : Bool) (tables : Tables) : List (Nat × Bool) :=
  let rows := tables.versions.entries
  let chosen :=
    if spent then evictionOrder (fun entry : (_ : Nat) × VersionRow => (entry.2.obsolete, entry.2.lastUse)) rows
    else rows.filter fun entry => entry.2.obsolete != 0
  chosen.map fun entry => (entry.1, entry.2.obsolete != 0)

/-- `required`, with what the file being built still needs. -/
def demand (s : Storage) (required : Nat) : Nat :=
  saturate (required + (s.building.map Build.remaining).getD 0)

/-- The loop of `evict` over the versions; `bytes` is the last usage taken. -/
def evictVersions (required : Nat) : List (Nat × Bool) → Nat → Io Nat
  | [], bytes => pure bytes
  | candidate :: rest, bytes => do
    let s ← state
    if candidate.2 = false ∧ saturate (bytes + required) ≤ s.capacity then evictVersions required rest bytes
    else if s.leased candidate.1 then evictVersions required rest bytes
    else do
      let _ ← attempt (delete candidate.1)
      let measured ← usage
      evictVersions required rest measured.total

/-- `evict` -/
def evict (required : Nat) : Io Unit := do
  let measured ← usage
  let s ← state
  let required := demand s required
  let candidates ← query (versionCandidates (decide (s.capacity < wrap (measured.total + required))))
  evictPacks required
  evictSegments required
  let measured ← usage
  let bytes ← evictVersions required candidates measured.total
  let s ← state
  ensure (saturate (bytes + required) ≤ s.capacity) (.text "cache capacity reached")

def dropHandle (version : Version) (s : Storage) : Storage :=
  { s with handles := s.handles.filter fun other => other.handle != version.handle }

def dropWindow (window : Window) (s : Storage) : Storage :=
  { s with windows := s.windows.filter fun other => other.handle != window.handle }

/-- The lease of a resident, or a new one when it does not upgrade. -/
def leaseOf (value : Resident) : Io Nat := do
  let s ← state
  match value.lease with
  | some lease => if s.upgrades value then pure lease else nextSerial
  | none => nextSerial

/-- `version` -/
def version (id : Nat) : Io Version := do
  let value ← load id
  let lease ← leaseOf value
  putResident id { value with lease := some lease }
  let handle ← nextSerial
  let held : Version := ⟨handle, id, value.metadata, lease⟩
  update fun s => { s with handles := held :: s.handles }
  pure held

/-- The pin of a segment, or a new one when it does not upgrade. -/
def pinOf (segment : Nat × Nat) : Io Nat := do
  let s ← state
  match s.pins.lookup segment with
  | some pin => if s.pinLive pin then pure pin else nextSerial
  | none => nextSerial

def retainPins (s : Storage) : Storage := { s with pins := s.pins.filter fun _ pin => s.pinLive pin }

/-- The loop of `pin_segments`: the window holds each pin as soon as it is made. -/
def pinEach (handle : Nat) : List (Nat × Nat) → List ((Nat × Nat) × Nat) → Io Window
  | [], pins => pure ⟨handle, pins⟩
  | segment :: rest, pins => do
    let pin ← pinOf segment
    let held := (segment, pin) :: pins
    update fun s => { s with
      pins := s.pins.insert segment pin
      windows := ⟨handle, held⟩ :: s.windows.filter fun other => other.handle != handle }
    pinEach handle rest held

/-- `pin_segments` -/
def pinSegments (id : Nat) (numbers : List Nat) : Io Window := do
  update retainPins
  let handle ← nextSerial
  pinEach handle (numbers.map fun number => (id, number)) []

/-- The version a lookup finds: the newest of the key that is not obsolete. -/
def newest (key : String) (tables : Tables) : Option Nat :=
  ((tables.versions.filter fun _ row => row.key == key && row.obsolete == 0).keys).max?

/-- `lookup` -/
def lookup (key : String) : Io (Option Version) := do
  let found ← query (newest key)
  match found with
  | none => pure none
  | some id => do
    let loaded ← attempt (version id)
    match loaded with
    | .ok version => do
      onError (dropHandle version) do
        let time ← now
        execute (changeVersion id fun row => { row with lastUse := time })
      pure (some version)
    | .error _ => do
      delete id
      pure none

/-- The row id SQLite gives: one more than the largest. -/
def nextId (tables : Tables) : Nat := (tables.versions.keys.max?).getD 0 + 1

def retireOthers (key : String) (tables : Tables) : Tables :=
  { tables with versions := tables.versions.map fun _ row =>
      if row.key = key ∧ row.obsolete = 0 then setObsolete 1 row else row }

/-- `INSERT INTO versions`; generations are unique. -/
def insertVersion (metadata : Metadata) (time : Nat) (tables : Tables) : Option Tables :=
  if tables.versions.any fun _ row => row.generation == metadata.generation then none
  else some { tables with
    versions := tables.versions.insert (nextId tables)
      ⟨metadata.key, metadata.provider, metadata.kind, metadata.generation, metadata,
        ⟨metadata.geometry.count * entryLen, ∅⟩, time, 0⟩ }

/-- The data file of a new version, with its header. -/
def createData (metadata : Metadata) : Io Unit := do
  evict 4096
  createNew (.data metadata.generation)
  disk
  writeAll (.data metadata.generation) 0 (dataHeader metadata.geometry metadata.generation)
  disk
  disk
  recordSize (.data metadata.generation) metadata.kind

/-- `create_layout` -/
def createLayout (metadata : Metadata) : Io Version := do
  ensure (validGeneration metadata.generation) (.text "invalid generation")
  liftExcept (validateLayout metadata.layout metadata.geometry)
  reserveIndex (metadata.geometry.count * entryLen)
  when (metadata.layout = .blocks) (createData metadata)
  let time ← now
  let s ← state
  let id := nextId s.tables
  let inserted ← attempt (transaction [fun tables => some (retireOthers metadata.key tables), insertVersion metadata time])
  match inserted with
  | .error error => do
    let _ ← attempt (removeFile (.data metadata.generation))
    update fun s => { s with sizes := s.sizes.erase (.data metadata.generation) }
    fail error
  | .ok _ => do
    let file := if metadata.layout = .blocks then some (FileName.data metadata.generation) else none
    putResident id ⟨metadata, Index.fresh metadata.geometry, file, none, false⟩
    version id

/-- `create` -/
def create (metadata : Metadata) : Io Version :=
  createLayout { metadata with layout := layoutFor metadata.kind metadata.geometry.length }

/-- `retire_corrupt` -/
def retireCorrupt (id : Nat) : Io Unit := do
  update fun s => match s.versions.lookup id with
    | some value => if s.upgrades value then { s with revoked := value.lease.toList ++ s.revoked } else s
    | none => s
  execute (changeVersion id (setObsolete 2))

/-- The bytes at a place of a file, when they have the digest. -/
def verified (name : FileName) (offset count : Nat) (digest : Digest) : Io (Option (List UInt8)) := do
  disk
  let data ← attempt (readExact name offset count)
  match data with
  | .ok data => pure (if Sha256.hash data = digest then some data else none)
  | .error _ => pure none

/-- `read_segment` -/
def readSegment (id block : Nat) : Io (Option (List UInt8)) := do
  let value ← load id
  match value.index.get block with
  | none => pure none
  | some entry => do
    let range ← require (value.metadata.geometry.range block) (.text "block out of bounds")
    let size ← require value.metadata.layout.segmentBytes (.text "not segmented")
    let number := range.start / size
    let found ← segmentFor id number
    match found with
    | none => do
      removeSegment id number
      pure none
    | some segment => do
      let opened ← attempt (segmentFile value.metadata segment)
      match opened with
      | .error _ => do
        removeSegment id number
        pure none
      | .ok name => do
        let data ← verified name (headerLen + entry.slot * value.metadata.geometry.block) range.length entry.digest
        match data with
        | none => do
          let current ← resident id
          publishSegmentIndex id (current.index.remove block) []
          pure none
        | some data => do
          let touched ← segmentTick
          execute fun tables => match tables.segments.lookup (id, number) with
            | some row => { tables with segments := tables.segments.insert (id, number) { row with lastUse := touched } }
            | none => tables
          pure (some data)

/-- `read` -/
def read (id block : Nat) : Io (Option (List UInt8)) := do
  checkActive id
  let value ← load id
  if value.metadata.layout ≠ .blocks then readSegment id block
  else match value.index.get block with
  | none => pure none
  | some entry => do
    let range ← require (value.metadata.geometry.range block) (.text "block out of bounds")
    match value.file with
    | none => crash
    | some name => do
      let offset := if value.plain then range.start else headerLen + entry.slot * value.metadata.geometry.block
      let data ← verified name offset range.length entry.digest
      match data with
      | some data => pure (some data)
      | none =>
        if value.plain then do
          retireCorrupt id
          fail .plainCorrupt
        else do
          putResident id { value with index := value.index.remove block }
          commit id
          pure none

/-! ## Writing -/

/-- Blocks that are appended: each with the slot it got. -/
abbrev Appended := List (Nat × Nat × List UInt8)

/-- One block at the end of a data file. -/
def appendBlock (value : Resident) (name : FileName) (block : Nat) (data : List UInt8) : Io Nat := do
  let range ← require (value.metadata.geometry.range block) (.text "block out of bounds")
  ensure (data.length = range.length) (.text "incomplete block")
  let size ← fileLength name
  let slot := divCeil (size - headerLen) value.metadata.geometry.block
  ensure (slot < maxSlot) (.text "slot limit")
  let offset := headerLen + slot * value.metadata.geometry.block
  writeAll name offset data
  when (data.length < value.metadata.geometry.block)
    (writeZeros name (offset + data.length) (value.metadata.geometry.block - data.length))
  pure slot

def appendBlocks (value : Resident) (name : FileName) : List (Nat × List UInt8) → Appended → Io Appended
  | [], appended => pure appended.reverse
  | (block, data) :: rest, appended =>
    if (value.index.get block).isSome then appendBlocks value name rest appended
    else do
      let slot ← appendBlock value name block data
      appendBlocks value name rest ((block, slot, data) :: appended)

/-- `index.set` of the blocks that were appended. -/
def setAppended (id : Nat) (appended : Appended) : Io Unit := do
  for entry in appended do
    let value ← resident id
    let index ← liftExcept (value.index.set entry.1 entry.2.1 entry.2.2)
    putResident id { value with index := index }

/-- `write_data` -/
def writeData (id : Nat) (blocks : List (Nat × List UInt8)) : Io Unit := do
  checkActive id
  let value ← load id
  if value.plain then
    ensure (∀ entry ∈ blocks, (value.index.get entry.1).any (fun kept => kept.digest = Sha256.hash entry.2) = true)
      (.text "attempted plain overwrite")
  else do
    let missing := (blocks.filter fun entry => (value.index.get entry.1).isNone).length
    evict (missing * value.metadata.geometry.block)
    let value ← load id
    match value.file with
    | none => crash
    | some name => do
      let appended ← appendBlocks value name blocks []
      disk
      setAppended id appended
      commit id

/-- The blocks of a write, by segment number and block, both ascending. -/
abbrev Grouped := List (Nat × List (Nat × List UInt8))

/-- An entry of a `BTreeMap` put in or changed. -/
def alterSorted {β : Type} (key : Nat) (change : Option β → β) : List (Nat × β) → List (Nat × β)
  | [] => [(key, change none)]
  | (other, value) :: rest =>
    if key < other then (key, change none) :: (other, value) :: rest
    else if key = other then (key, change (some value)) :: rest
    else (other, value) :: alterSorted key change rest

/-- The blocks that have no entry, in their groups, when all have the right length. -/
def groupBlocks (value : Resident) (size : Nat) : List (Nat × List UInt8) → Grouped → Except Failure Grouped
  | [], grouped => pure grouped
  | (block, data) :: rest, grouped =>
    match value.metadata.geometry.range block with
    | none => throw (.text "block out of bounds")
    | some range =>
      if data.length ≠ range.length then throw (.text "incomplete block")
      else if (value.index.get block).isNone then
        groupBlocks value size rest
          (alterSorted (range.start / size) (fun blocks => alterSorted block (fun _ => data) (blocks.getD [])) grouped)
      else groupBlocks value size rest grouped

/-- The room that the groups need. -/
def groupedRoom (grouped : Grouped) : Nat :=
  (grouped.map fun group => (group.2.map fun entry => divCeil entry.2.length 4096 * 4096).sum + 8192).sum

/-- The segment a group goes to, and whether it is new. -/
def chooseSegment (id number : Nat) (metadata : Metadata) (size : Nat) : Io (Segment × Bool) := do
  let found ← segmentFor id number
  match found.filter fun segment => !segment.deleting with
  | some segment => pure (segment, false)
  | none => do
    when (found.isSome = true) (removeSegment id number)
    let token ← nextSerial
    pure (⟨number, token, min size (metadata.geometry.length - number * size), false⟩, true)

/-- The file of a segment, made with its header when the segment is new. -/
def openSegment (metadata : Metadata) (segment : Segment) (created : Bool) : Io FileName :=
  if created then do
    let name := segment.name metadata
    createNew name
    disk
    writeAll name 0 (segmentHeader metadata segment.number segment.token segment.length)
    pure name
  else segmentFile metadata segment

/-- The blocks of a group into the file and the index. -/
def writeBlocks (name : FileName) (metadata : Metadata) (size : Nat) :
    List (Nat × List UInt8) → Index → Io Index
  | [], index => do
    disk
    pure index
  | (block, data) :: rest, index => do
    let slot := block % (size / metadata.geometry.block)
    writeAll name (headerLen + slot * metadata.geometry.block) data
    let index ← liftExcept (index.set block slot data)
    writeBlocks name metadata size rest index

/-- One group, once its segment is chosen; its file is recorded also when the writing failed. -/
def writeGroup (metadata : Metadata) (size : Nat) (segment : Segment) (created : Bool)
    (blocks : List (Nat × List UInt8)) (index : Index) : Io Index := do
  let name ← openSegment metadata segment created
  let writing ← attempt (writeBlocks name metadata size blocks index)
  recordSize name metadata.kind
  liftExcept writing

/-- The loop of `write_segments`: the files it created, with the index and the segments
written, or the error that stopped it. -/
def writeGroups (id : Nat) (metadata : Metadata) (size : Nat) :
    Grouped → Index → List FileName → List Segment → Io (List FileName × Except Failure (Index × List Segment))
  | [], index, created, written => pure (created, .ok (index, written))
  | (number, blocks) :: rest, index, created, written => do
    let chosen ← attempt (chooseSegment id number metadata size)
    match chosen with
    | .error error => pure (created, .error error)
    | .ok (segment, new) => do
      let created := if new then segment.name metadata :: created else created
      let done ← attempt (writeGroup metadata size segment new blocks index)
      match done with
      | .error error => pure (created, .error error)
      | .ok index => writeGroups id metadata size rest index created (segment :: written)

/-- `INSERT INTO segments ... ON CONFLICT DO UPDATE` -/
def upsertSegment (id touched : Nat) (segment : Segment) (tables : Tables) : Tables :=
  { tables with segments := tables.segments.insert (id, segment.number) ⟨segment.token, segment.length, touched, false⟩ }

/-- What follows the loop of `write_segments`. -/
def publishWritten (id : Nat) (index : Index) (written : List Segment) : Io Unit := do
  disk
  let touched ← segmentTick
  publishSegmentIndex id index (written.map fun segment tables => some (upsertSegment id touched segment tables))

/-- `write_segments` from the eviction on, with the pins held. -/
def writeGrouped (id : Nat) (metadata : Metadata) (size : Nat) (grouped : Grouped) : Io Unit := do
  evict (groupedRoom grouped)
  let value ← resident id
  let (created, outcome) ← writeGroups id metadata size grouped value.index [] []
  let result ← attempt do
    let (index, written) ← liftExcept outcome
    publishWritten id index written
  match result with
  | .ok _ => pure ()
  | .error error => do
    for name in created do
      let _ ← attempt (removeManaged name)
    fail error

/-- The pins of the groups, one window each, held until the end of `body`. -/
def holdingPins (id : Nat) (body : Io Unit) : List Nat → Io Unit
  | [] => body
  | number :: rest => do
    let window ← pinSegments id [number]
    closing (dropWindow window) (holdingPins id body rest)

/-- `write_segments` -/
def writeSegments (id : Nat) (blocks : List (Nat × List UInt8)) : Io Unit := do
  repairSegments id
  let value ← resident id
  let size ← require value.metadata.layout.segmentBytes (.text "not segmented")
  let grouped ← liftExcept (groupBlocks value size blocks [])
  if grouped = [] then pure ()
  else holdingPins id (writeGrouped id value.metadata size grouped) (grouped.map Prod.fst)

/-- The size of the file of a version that is resident. -/
def recordWritten : Option Resident → Io Unit
  | some value =>
    recordSize (if value.plain then .ok value.metadata.generation else .data value.metadata.generation)
      value.metadata.kind
  | none => pure ()

/-- `CommitOutcome` -/
structure CommitOutcome where
  complete : Bool
  newlyComplete : Bool

/-- `write` -/
def write (id : Nat) (blocks : List (Nat × List UInt8)) : Io CommitOutcome := do
  checkActive id
  let value ← load id
  let wasComplete := value.index.isCommitted && value.index.complete
  if value.metadata.layout ≠ .blocks then do
    writeSegments id blocks
    let value ← load id
    let complete := value.index.complete
    pure ⟨complete, complete && !wasComplete⟩
  else do
    let result ← attempt (writeData id blocks)
    let s ← state
    recordWritten (s.versions.lookup id)
    liftExcept result
    let value ← load id
    let complete := value.index.isCommitted && value.index.complete
    pure ⟨complete, complete && !wasComplete⟩

/-- `update` -/
def updateVersion (id : Nat) (metadata : Metadata) : Io Unit := do
  execute (changeVersion id fun row => { row with metadata := metadata })
  let value ← load id
  putResident id { value with metadata := metadata }

/-- `Store::retire` -/
def retire (id : Nat) : Io Unit := execute (changeVersion id (setObsolete 1))

/-- `invalidate_packs` -/
def invalidatePacks (provider : Int) : Io Unit := do
  let tokens ← query fun tables => (tables.packs.filter fun _ row => row.provider == provider).keys
  for token in tokens do
    let _ ← attempt (deletePack token)

/-- The leases of the residents of a provider that upgrade. -/
def leasesOf (s : Storage) (provider : Int) : List Nat :=
  (s.versions.values.filter fun value => value.metadata.provider == provider && s.upgrades value).flatMap
    fun value => value.lease.toList

/-- `UPDATE versions SET obsolete=2 WHERE provider=?` -/
def obsoleteProvider (provider : Int) (tables : Tables) : Tables :=
  { tables with versions := tables.versions.map fun _ row =>
      if row.provider = provider then setObsolete 2 row else row }

/-- `invalidate` -/
def invalidate (provider : Int) : Io Unit := do
  invalidatePacks provider
  update fun s => { s with revoked := leasesOf s provider ++ s.revoked }
  execute (obsoleteProvider provider)
  evict 0

/-- `Store::complete` -/
def complete (id : Nat) : Io Bool := do
  repairSegments id
  let value ← load id
  pure (value.index.isCommitted && value.index.complete)

/-- `Store::covered` -/
def covered (id : Nat) (range : ByteRange) : Io Bool := do
  repairSegments id
  let value ← load id
  let first := range.start / value.metadata.geometry.block
  pure ((List.range' first (divCeil range.stop value.metadata.geometry.block - first)).all fun block =>
    (value.index.get block).isSome)

/-- `Store::missing_range` -/
def missingRange (id : Nat) (range : ByteRange) : Io ByteRange := do
  repairSegments id
  let value ← load id
  let block := value.metadata.geometry.block
  let first := range.start / block + 1
  let next := (List.range' first (divCeil range.stop block - first)).find? fun index => (value.index.get index).isSome
  pure ⟨range.start, (next.map (· * block)).getD range.stop⟩

/-- `Store::window` -/
def window (id : Nat) (range : ByteRange) : Io Window := do
  checkActive id
  let value ← load id
  ensure (range.start ≤ range.stop ∧ range.stop ≤ value.metadata.geometry.length ∧ range.length ≤ windowBytes)
    (.text "invalid cache window")
  match value.metadata.layout.segmentBytes with
  | none => pure ⟨0, []⟩
  | some size =>
    let first := range.start / size
    pinSegments id (List.range' first (divCeil range.stop size - first))

end Qcm.CacheStore
