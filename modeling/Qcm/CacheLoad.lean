import Qcm.CacheDisk

/-!
Leases of published files, and the indexes that are in memory: loading a
version, committing an index, and the segments of a version
(`materialize.rs`, `store.rs`, `segments.rs`).

`load`, `repair_segments` and `remove_segment` of the source call each other, but
a version that is resident loads at once; what they do from there on is
`repairResident` and `removeResident`.
-/

namespace Qcm.CacheLoad

open Lib Lib.Act ResourceFormat CacheState CacheDisk

def nanos : Nat := 10 ^ 9

/-- `lease_now` -/
def leaseNow : Io Nat := do
  let instant ← instantNow
  let s ← state
  pure (s.clock + (instant - s.started) / nanos)

/-- `persist_clock` -/
def persistClock : Io Unit := do
  let time ← leaseNow
  execute fun tables => { tables with fileClock := some (max (tables.fileClock.getD 0) time) }

/-- The restart grace is over, or there is none. -/
def graceOver : Option Nat → Io Bool
  | none => pure true
  | some till => do
    let instant ← instantNow
    pure (decide (till ≤ instant))

def deleteExpired (time : Nat) (tables : Tables) : Tables :=
  { tables with fileLeases := tables.fileLeases.filter fun _ lease => decide (time < lease.expires) }

def setUncertain (uncertain : Bool) : Io Unit := update fun s => { s with clockUncertain := uncertain }

/-- The wall clock has caught up with the lease clock. -/
def checkUncertain : Io Unit := do
  let wall ← now
  let time ← leaseNow
  when (time ≤ wall) (setUncertain false)

/-- The leases that are due go, outside the grace of a restart. -/
def expireDue (grace : Option Nat) : Io Unit := do
  let spent ← graceOver grace
  when (spent = true) do
    let time ← leaseNow
    execute (deleteExpired time)

/-- `expire_leases` -/
def expireLeases : Io Unit := do
  let wall ← now
  let s ← state
  when (wall < s.clock) (setUncertain true)
  let s ← state
  when (s.clockUncertain = true) checkUncertain
  let s ← state
  when (s.clockUncertain = false) (expireDue s.restartGrace)

/-- `externally_pinned` -/
def externallyPinned (id : Nat) : Io Bool := do
  expireLeases
  query fun tables => tables.fileLeases.any fun _ lease => lease.version == id

/-- `plain_length` -/
def plainLength (id : Nat) : Io (Option Nat) := do
  let row ← query fun tables => tables.completeFiles.lookup id
  match row with
  | none => pure none
  | some row =>
    if ¬ row.ready then pure none
    else do
      ensure (row.digest.isSome ∧ row.format = 1) (.text "invalid plain descriptor")
      pure (some row.length)

/-- `plain` -/
def isPlain (id : Nat) : Io Bool := do
  let length ← plainLength id
  pure length.isSome

/-- `self.versions[&id]`, which panics without the version. -/
def resident (id : Nat) : Io Resident := do
  let s ← state
  match s.versions.lookup id with
  | some value => pure value
  | none => crash

def putResident (id : Nat) (value : Resident) : Io Unit :=
  update fun s => { s with versions := s.versions.insert id value }

def dropResident (id : Nat) : Io Unit := update fun s => { s with versions := s.versions.erase id }

/-- `check_active` -/
def checkActive (id : Nat) : Io Unit := do
  let row ← query fun tables => tables.versions.lookup id
  ensure (row.any fun row => row.obsolete ≠ 2) (.text "provider invalidated")

/-- `commit` -/
def commit (id : Nat) : Io Unit := do
  let s ← state
  let value ← require (s.versions.lookup id) (.text "version not resident")
  if value.index.isCommitted then pure ()
  else do
    transaction [patch id value.index]
    putResident id { value with index := value.index.committed }

/-- The residents that may be dropped, in the order the map is walked in. -/
def droppable (s : Storage) (turn : Nat) : List Nat :=
  ((s.versions.entries.filter fun entry => !s.upgrades entry.2).map Sigma.fst).rotate turn

/-- The loop of `reserve_index`; every turn drops a resident. -/
def reserveTurns (required : Nat) : Nat → Io Unit
  | 0 => fail (.text "resource index budget reached")
  | turns + 1 => do
    let s ← state
    if (s.versions.values.map fun value => value.index.size).sum + required ≤ indexBudget ∧
        s.versions.size < maxResident then pure ()
    else do
      let answer ← chance
      let old ← require (droppable s answer.amount).head? (.text "resource index budget reached")
      commit old
      dropResident old
      reserveTurns required turns

/-- `reserve_index` -/
def reserveIndex (required : Nat) : Io Unit := do
  let s ← state
  reserveTurns required (s.versions.size + 1)

/-! ## Segments -/

structure Segment where
  number : Nat
  token : Token
  length : Nat
  deleting : Bool

/-- `Segment::name` -/
def Segment.name (segment : Segment) (metadata : Metadata) : FileName :=
  .segment metadata.generation segment.number segment.token

/-- `Storage::segment` -/
def segmentFor (id number : Nat) : Io (Option Segment) := do
  let row ← query fun tables => tables.segments.lookup (id, number)
  match row with
  | none => pure none
  | some row => do
    ensure (0 < row.length) (.text "invalid segment descriptor")
    pure (some ⟨number, row.token, row.length, row.deleting⟩)

variable [Sha256]

/-- `segment_file` -/
def segmentFile (metadata : Metadata) (segment : Segment) : Io FileName := do
  let size ← require metadata.layout.segmentBytes (.text "not segmented")
  let start := segment.number * size
  ensure (start < metadata.geometry.length ∧ segment.length = min size (metadata.geometry.length - start) ∧
    ¬ segment.deleting) (.text "invalid segment length")
  let name := segment.name metadata
  regularFile name
  let length ← fileLength name
  ensure (headerLen ≤ length ∧ length ≤ headerLen + segment.length) (.text "invalid segment file length")
  let header ← readExact name 0 headerLen
  ensure (header = segmentHeader metadata segment.number segment.token segment.length)
    (.text "segment identity mismatch")
  pure name

omit [Sha256] in
/-- `publish_segment_index` -/
def publishSegmentIndex (id : Nat) (index : Index) (operation : List (Tables → Option Tables)) : Io Unit := do
  transaction (patch id index :: operation)
  let value ← resident id
  putResident id { value with index := index.committed }

/-- The blocks of a segment. -/
def segmentBlocks (geometry : Geometry) (size number : Nat) : List Nat :=
  let first := number * size / geometry.block
  List.range' first (divCeil (min ((number + 1) * size) geometry.length) geometry.block - first)

/-- The index without the blocks of a segment. -/
def clearSegment (index : Index) (size number : Nat) : Index :=
  (segmentBlocks index.geometry size number).foldl
    (fun index block => if (index.get block).isSome then index.remove block else index) index

def markDeleting (id number : Nat) (tables : Tables) : Tables :=
  match tables.segments.lookup (id, number) with
  | some row => { tables with segments := tables.segments.insert (id, number) { row with deleting := true } }
  | none => tables

def deleteSegmentRow (id number : Nat) (tables : Tables) : Tables :=
  { tables with segments := tables.segments.erase (id, number) }

omit [Sha256] in
/-- The file of a segment, when its row was read. -/
def removeSegmentFile (metadata : Metadata) : Except Failure (Option Segment) → Io Unit
  | .ok (some segment) => removeManaged (segment.name metadata)
  | _ => pure ()

omit [Sha256] in
/-- `remove_segment` of a resident version. -/
def removeResident (id number : Nat) : Io Unit := do
  let value ← resident id
  let size ← require value.metadata.layout.segmentBytes (.text "not segmented")
  publishSegmentIndex id (clearSegment value.index size number) [fun tables => some (markDeleting id number tables)]
  let found ← attempt (segmentFor id number)
  removeSegmentFile value.metadata found
  execute (deleteSegmentRow id number)

/-- Whether the row and the file of a segment pass their checks. -/
def segmentValid (id number : Nat) (metadata : Metadata) : Io Bool := do
  let found ← attempt (segmentFor id number)
  match found with
  | .ok (some segment) => do
    let checked ← attempt (segmentFile metadata segment)
    pure checked.isOk
  | _ => pure false

/-- One turn of `repair_segments`: a segment in use whose row or file does not pass goes. -/
def repairSegment (id : Nat) (metadata : Metadata) (size number : Nat) : Io Unit := do
  let current ← resident id
  when ((segmentBlocks metadata.geometry size number).any (fun block => (current.index.get block).isSome) = true) do
    let valid ← segmentValid id number metadata
    when (valid = false) (removeResident id number)

/-- `repair_segments` of a resident version. -/
def repairResident (id : Nat) : Io Unit := do
  let value ← resident id
  match value.metadata.layout.segmentBytes with
  | none => pure ()
  | some size =>
    for number in List.range (divCeil value.metadata.geometry.length size) do
      repairSegment id value.metadata size number

/-- `load` of a version in segments. -/
def loadSegments (id : Nat) (row : VersionRow) (size : Nat) : Io Unit := do
  reserveIndex row.blocks.size
  let index ← liftExcept (Index.loadSegments row.metadata.geometry row.blocks size)
  putResident id ⟨row.metadata, index, none, none, false⟩
  repairResident id

/-- The index of a published file, once the file has the right length. -/
def loadPlain (row : VersionRow) (name : FileName) (length : Nat) : Io Index := do
  let size ← fileLength name
  ensure (length = row.metadata.geometry.length) (.text "plain descriptor length mismatch")
  ensure (size = row.metadata.geometry.length) (.text "invalid plain length")
  reserveIndex row.blocks.size
  liftExcept (Index.loadPlain row.metadata.geometry row.blocks)

/-- The index of a data file, cut to its whole slots. -/
def loadData (row : VersionRow) (name : FileName) : Io Index := do
  let size ← fileLength name
  ensure (headerLen ≤ size) (.text "incomplete data header")
  let header ← readExact name 0 headerLen
  ensure (header = dataHeader row.metadata.geometry row.metadata.generation) (.text "data identity mismatch")
  let slots := (size - headerLen) / row.metadata.geometry.block
  reserveIndex row.blocks.size
  let index ← liftExcept (Index.load row.metadata.geometry row.blocks slots)
  setLength name (headerLen + slots * row.metadata.geometry.block)
  pure index

def loadIndex (row : VersionRow) (name : FileName) : Option Nat → Io Index
  | some length => loadPlain row name length
  | none => loadData row name

/-- `load` of a version with a file of its own. -/
def loadFile (id : Nat) (row : VersionRow) : Io Unit := do
  let plain ← plainLength id
  let name : FileName := if plain.isSome then .ok row.metadata.generation else .data row.metadata.generation
  regularFile name
  let index ← loadIndex row name plain
  recordSize name row.metadata.kind
  putResident id ⟨row.metadata, index, some name, none, plain.isSome⟩

/-- `load` of a version that is not resident. -/
def loadAbsent (id : Nat) : Io Unit := do
  let found ← query fun tables => tables.versions.lookup id
  let row ← require found (.text "cache version removed")
  ensure (validGeneration row.metadata.generation) (.text "invalid generation")
  liftExcept (validateLayout row.metadata.layout row.metadata.geometry)
  match row.metadata.layout.segmentBytes with
  | some size => loadSegments id row size
  | none => loadFile id row

/-- `load` -/
def load (id : Nat) : Io Resident := do
  let s ← state
  when ((s.versions.lookup id).isNone = true) (loadAbsent id)
  resident id

/-- `repair_segments` -/
def repairSegments (id : Nat) : Io Unit := do
  let _ ← load id
  repairResident id

/-- `remove_segment` -/
def removeSegment (id number : Nat) : Io Unit := do
  let _ ← load id
  removeResident id number

/-- `delete_all_segments` -/
def deleteAllSegments (id : Nat) : Io Unit := do
  let numbers ← query fun tables => (tables.segments.keys.filter fun key => key.1 = id).map Prod.snd
  for number in numbers do
    removeSegment id number

end Qcm.CacheLoad
