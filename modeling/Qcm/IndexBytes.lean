import Qcm.CacheStore
import Qcm.Lib.Runs
import Qcm.Lib.Spans

/-!
The index of a version byte by byte, and how the bytes that change reach the
`blocks` column of its row
(`backend/main/src/resource_cache/{format,store,segments,sqlite}.rs`).

`Index` is the source's: the entries as bytes, and the ranges of bytes set or
removed since the last commit.  A `Cache` is what there is of one version: its
row and segment rows in the database, with the transaction that may be open, and
its index in memory.  Every call that can fail takes one answer of the tape, so a
commit can stop at its `BEGIN`, before any range, or at its `COMMIT`, with an
error or with the process.
-/

namespace Qcm.IndexBytes

open Lib Lib.Act ResourceFormat
open CacheState (Digest Sha256 Failure Chance entryLen maxSlot validateLayout)
open CacheLoad (segmentBlocks)
open CacheStore (Grouped alterSorted)

structure Index where
  bytes : List UInt8
  dirty : List (Span Nat)
  geometry : Geometry

/-- `u32::to_le_bytes` -/
def toLittleEndian (value : Nat) : List UInt8 := (List.range 4).map fun place => UInt8.ofNat (value / 256 ^ place)

/-- `u32::from_le_bytes` -/
def fromLittleEndian (bytes : List UInt8) : Nat := bytes.foldr (fun byte rest => byte.toNat + 256 * rest) 0

/-- `copy_from_slice` into the bytes from `start` on. -/
def copyInto (bytes : List UInt8) (start : Nat) (data : List UInt8) : List UInt8 :=
  bytes.take start ++ (data ++ bytes.drop (start + data.length))

/-- The bytes of a range. -/
def slice (bytes : List UInt8) (range : Span Nat) : List UInt8 :=
  (bytes.drop range.start).take (range.stop - range.start)

/-- The range of the entry of a block. -/
def entrySpan (block : Nat) : Span Nat := ⟨block * entryLen, block * entryLen + entryLen⟩

namespace Index

/-- `Index::new` -/
def fresh (geometry : Geometry) : Index := ⟨List.replicate (geometry.count * entryLen) 0, [], geometry⟩

/-- The slot and the digest of a block; the slot 0 of an entry means none. -/
def get (index : Index) (block : Nat) : Option (Nat × List UInt8) :=
  let entry := slice index.bytes (entrySpan block)
  if entry.length < entryLen then none
  else
    let slot := fromLittleEndian (entry.take 4)
    if slot = 0 then none else some (slot - 1, entry.drop 4)

def set [Sha256] (index : Index) (block : Nat) (slot : UInt32) (data : List UInt8) : Except Failure Index :=
  match index.geometry.range block with
  | none => throw (.text "block out of bounds")
  | some range =>
    if data.length ≠ range.length then throw (.text "incomplete block")
    else if slot.toNat = maxSlot then throw (.text "physical slot limit reached")
    else
      let start := block * entryLen
      let bytes := copyInto index.bytes start (toLittleEndian (slot.toNat + 1))
      let bytes := copyInto bytes (start + 4) (Sha256.hash data).bytes
      pure { index with bytes := bytes, dirty := index.dirty ++ [entrySpan block] }

/-- The source panics when the entry is not there; see `removing`. -/
def remove (index : Index) (block : Nat) : Index :=
  { index with
    bytes := copyInto index.bytes (block * entryLen) (List.replicate entryLen 0)
    dirty := index.dirty ++ [entrySpan block] }

def complete (index : Index) : Bool := (List.range index.geometry.count).all fun block => (index.get block).isSome

/-- `dirty`: the ranges merged, and the index with its ranges sorted. -/
def dirtyRanges (index : Index) : List (Span Nat) × Index :=
  let sorted := Span.sorted index.dirty
  (Span.merge sorted, { index with dirty := sorted })

def committed (index : Index) : Index := { index with dirty := [] }

def isCommitted (index : Index) : Bool := index.dirty.isEmpty

/-- `load_layout` -/
def loadLayout (geometry : Geometry) (bytes : List UInt8) (slots : Option Nat) : Except Failure Index :=
  if ¬ (geometry.count ≤ 1000000 ∧ bytes.length = geometry.count * entryLen) then
    .error (.text "invalid index size")
  else
    let value : Index := ⟨bytes, [], geometry⟩
    if (slots.any fun bound => (List.range geometry.count).any fun block =>
        (value.get block).any fun entry => bound ≤ entry.1) = true then
      .error (.text "index references absent slot")
    else .ok value

def load (geometry : Geometry) (bytes : List UInt8) (slots : Nat) : Except Failure Index :=
  loadLayout geometry bytes (some slots)

def loadPlain (geometry : Geometry) (bytes : List UInt8) : Except Failure Index := do
  let index ← loadLayout geometry bytes none
  if index.complete then .ok index else .error (.text "incomplete plain index")

def loadSegments (geometry : Geometry) (bytes : List UInt8) (size : Nat) : Except Failure Index := do
  let value ← loadLayout geometry bytes none
  if ((List.range geometry.count).any fun block =>
      (value.get block).any fun entry => entry.1 ≠ block % (size / geometry.block)) = true then
    .error (.text "invalid segment slot")
  else .ok value

end Index

/-- The `blocks` column of the version, and which of its segment rows are marked deleting. -/
structure Rows where
  blocks : List UInt8
  segments : Hash Nat Bool

/-- The rows as a statement sees them, those an open transaction goes back to, and how
many transactions have committed. -/
structure Database where
  rows : Rows
  journal : Option Rows
  commits : Nat

structure Cache where
  database : Database
  resident : Option Index
  tape : List Chance

abbrev Io := Act Cache Failure

/-- A call that may fail or be the last thing the process does. -/
def trial (error : Failure) : Io Unit := do
  let s ← state
  match s.tape with
  | [] => pure ()
  | answer :: rest => do
    update fun s => { s with tape := rest }
    match answer.verdict with
    | .pass => pure ()
    | .fail => fail error
    | .crash => crash

def liftExcept {α : Type} : Except Failure α → Io α
  | .ok value => pure value
  | .error error => fail error

def changeRows (change : Rows → Rows) : Io Unit :=
  update fun s => { s with database := { s.database with rows := change s.database.rows } }

def putResident (index : Index) : Io Unit := update fun s => { s with resident := some index }

/-- `BEGIN IMMEDIATE` -/
def beginTransaction : Io Unit := do
  trial .sql
  update fun s => { s with database := { s.database with journal := some s.database.rows } }

/-- `COMMIT` -/
def commitTransaction : Io Unit := do
  trial .sql
  update fun s => { s with database := { s.database with journal := none, commits := s.database.commits + 1 } }

/-- `ROLLBACK` -/
def rollback (s : Cache) : Cache :=
  { s with database := { s.database with rows := s.database.journal.getD s.database.rows, journal := none } }

/-- What goes back when a computation ends without a value. -/
def undoing {σ ε α : Type} (exit : σ → σ) (action : Act σ ε α) : Act σ ε α := fun s =>
  match action s with
  | (.ok value, t) => (.ok value, t)
  | (.err error, t) => (.err error, exit t)
  | (.crash, t) => (.crash, exit t)

/-- `sqlite3_blob_write` of one range. -/
def writeRange (bytes : List UInt8) (range : Span Nat) : Io Unit := do
  ensure (range.stop - range.start < 2 ^ 31 ∧ range.start < 2 ^ 31)
    (.text "out of range integral type conversion attempted")
  trial .sql
  changeRows fun rows => { rows with blocks := copyInto rows.blocks range.start (slice bytes range) }

def writeRanges (bytes : List UInt8) : List (Span Nat) → Io Unit
  | [] => pure ()
  | range :: rest => do
    writeRange bytes range
    writeRanges bytes rest

/-- `Database::patch`; the blob is closed in any case. -/
def patch (bytes : List UInt8) (ranges : List (Span Nat)) : Io Unit := do
  trial .sql
  let result ← attempt do
    let s ← state
    ensure (s.database.rows.blocks.length = bytes.length) (.text "BLOB length changed")
    writeRanges bytes ranges
  let closed ← attempt (trial .sql)
  liftExcept result
  liftExcept closed

/-- `BEGIN IMMEDIATE`, the statements and `COMMIT`, or the `ROLLBACK`.  What a process leaves
in its journal when it dies is rolled back when the database is opened again. -/
def transaction (statements : Io Unit) : Io Unit := do
  beginTransaction
  undoing rollback do
    statements
    commitTransaction

/-- One statement, which commits by itself. -/
def execute (change : Rows → Rows) : Io Unit := do
  trial .sql
  changeRows change

/-- The index of the version, which the operations before have loaded. -/
def residentIndex : Io Index := do
  let s ← state
  require s.resident (.text "version not resident")

/-- `Storage::commit` -/
def commit : Io Unit := do
  let index ← residentIndex
  let (ranges, index) := index.dirtyRanges
  putResident index
  if ranges = [] then pure ()
  else do
    transaction (patch index.bytes ranges)
    putResident index.committed

/-- `publish_segment_index` of a copy of the index, which replaces the resident one. -/
def publishSegmentIndex (index : Index) (operation : Io Unit) : Io Unit := do
  let (ranges, index) := index.dirtyRanges
  transaction do
    patch index.bytes ranges
    operation
  let _ ← residentIndex
  putResident index.committed

/-- The `set` of `write_data`, on the resident index. -/
def setting [Sha256] (block : Nat) (slot : UInt32) (data : List UInt8) : Io Unit := do
  let index ← residentIndex
  let index ← liftExcept (index.set block slot data)
  putResident index

/-- The `remove` of `read_data`, on the resident index; the slice panics out of bounds. -/
def removing (block : Nat) : Io Unit := do
  let index ← residentIndex
  if index.bytes.length < (entrySpan block).stop then crash
  else putResident (index.remove block)

/-- A copy of the index without the blocks of a segment. -/
def clearBlocks (index : Index) (blocks : List Nat) : Index :=
  blocks.foldl (fun index block => if (index.get block).isSome then index.remove block else index) index

def markDeleting (number : Nat) (rows : Rows) : Rows :=
  if number ∈ rows.segments then { rows with segments := rows.segments.insert number true } else rows

/-- `remove_segment` -/
def removeSegment (size number : Nat) : Io Unit := do
  let index ← residentIndex
  publishSegmentIndex (clearBlocks index (segmentBlocks index.geometry size number)) (execute (markDeleting number))
  trial .io -- the segment's file goes
  execute fun rows => { rows with segments := rows.segments.erase number }

/-- The end of `read_segment` for a block whose bytes do not have their digest. -/
def dropBlock (block : Nat) : Io Unit := do
  let index ← residentIndex
  if (index.get block).isNone then pure ()
  else publishSegmentIndex (index.remove block) (pure ())

/-- The blocks of a write that have no entry, in their groups, when all have the right length. -/
def groupBlocks (index : Index) (size : Nat) : List (Nat × List UInt8) → Grouped → Except Failure Grouped
  | [], grouped => pure grouped
  | (block, data) :: rest, grouped =>
    match index.geometry.range block with
    | none => throw (.text "block out of bounds")
    | some range =>
      if data.length ≠ range.length then throw (.text "incomplete block")
      else if (index.get block).isNone then
        groupBlocks index size rest
          (alterSorted (range.start / size) (fun blocks => alterSorted block (fun _ => data) (blocks.getD [])) grouped)
      else groupBlocks index size rest grouped

/-- The segment row a group goes to: one marked deleting is removed first. -/
def chooseSegment (size number : Nat) : Io Unit := do
  trial .sql
  let s ← state
  if s.database.rows.segments.lookup number = some true then removeSegment size number else pure ()

/-- The blocks of a group into its file and the copy of the index. -/
def writeBlocks [Sha256] (size : Nat) : List (Nat × List UInt8) → Index → Io Index
  | [], index => pure index
  | (block, data) :: rest, index => do
    trial .io
    let index ← liftExcept (index.set block (UInt32.ofNat (block % (size / index.geometry.block))) data)
    writeBlocks size rest index

/-- The loop of `write_segments`; the numbers are those of the segments written. -/
def writeGroups [Sha256] (size : Nat) : Grouped → Index → List Nat → Io (Index × List Nat)
  | [], index, written => pure (index, written)
  | (number, blocks) :: rest, index, written => do
    chooseSegment size number
    trial .io -- the file is opened, or made with its header
    let index ← writeBlocks size blocks index
    trial .io -- and synced
    writeGroups size rest index (number :: written)

/-- The segment rows of the write, each of them live. -/
def upsertSegments : List Nat → Io Unit
  | [] => pure ()
  | number :: rest => do
    execute fun rows => { rows with segments := rows.segments.insert number false }
    upsertSegments rest

/-- `write_segments`, from the copy of the index on. -/
def writeSegments [Sha256] (size : Nat) (blocks : List (Nat × List UInt8)) : Io Unit := do
  let index ← residentIndex
  let grouped ← liftExcept (groupBlocks index size blocks [])
  if grouped = [] then pure ()
  else do
    let index ← residentIndex
    let (index, written) ← writeGroups size grouped index []
    trial .io
    publishSegmentIndex index (upsertSegments written)

/-- What the storage does with the index of a version.  A `load` names the slots of a
data file, or none for a plain file; `release` is `reserve_index` dropping the version. -/
inductive Op where
  | load (slots : Option Nat)
  | set (block : Nat) (slot : UInt32) (data : List UInt8)
  | remove (block : Nat)
  | commit
  | release
  | removeSegment (number : Nat)
  | dropBlock (block : Nat)
  | writeSegments (blocks : List (Nat × List UInt8))
  | restart

/-- The `load` of a version that is not resident. -/
def loadAbsent (geometry : Geometry) (layout : Layout) (slots : Option Nat) : Io Unit := do
  trial .sql
  liftExcept (validateLayout layout geometry)
  trial .io
  let s ← state
  let index ← liftExcept <| match layout, slots with
    | .segments size, _ => Index.loadSegments geometry s.database.rows.blocks size
    | .blocks, some slots => Index.load geometry s.database.rows.blocks slots
    | .blocks, none => Index.loadPlain geometry s.database.rows.blocks
  putResident index

/-- What the process leaves behind. -/
def restarted (s : Cache) : Cache := { s with resident := none }

def perform [Sha256] (geometry : Geometry) (layout : Layout) : Op → Io Unit
  | .load slots => do
    let s ← state
    if s.resident.isSome then pure () else loadAbsent geometry layout slots
  | .set block slot data => setting block slot data
  | .remove block => removing block
  | .commit => commit
  | .release => do
    commit
    update fun s => { s with resident := none }
  | .removeSegment number => do
    let size ← require layout.segmentBytes (.text "not segmented")
    removeSegment size number
  | .dropBlock block => dropBlock block
  | .writeSegments blocks => do
    let size ← require layout.segmentBytes (.text "not segmented")
    writeSegments size blocks
  | .restart => crash

/-- `read` and `write` go by the layout: the resident index of a version in segments is
changed through copies only. -/
def Op.Suits (layout : Layout) : Op → Prop
  | .set _ _ _ | .remove _ => layout = .blocks
  | .dropBlock _ => layout ≠ .blocks
  | _ => True

/-- An operation with the answers its calls get. -/
structure Turn where
  op : Op
  tape : List Chance

/-- How an operation ended: whether it returned `Ok`, whether the process died in it, and
whether a transaction on the index committed. -/
structure Ending where
  ok : Bool
  died : Bool
  published : Bool

/-- One operation; a process that dies starts again. -/
def play [Sha256] (geometry : Geometry) (layout : Layout) (s : Cache) (turn : Turn) : Ending × Cache :=
  match perform geometry layout turn.op { s with tape := turn.tape } with
  | (.ok _, t) => (⟨true, false, decide (t.database.commits ≠ s.database.commits)⟩, t)
  | (.err _, t) => (⟨false, false, decide (t.database.commits ≠ s.database.commits)⟩, t)
  | (.crash, t) => (⟨false, true, decide (t.database.commits ≠ s.database.commits)⟩, restarted t)

def Step [Sha256] (geometry : Geometry) (layout : Layout) (s : Cache) (turn : Turn) (t : Cache) : Prop :=
  turn.op.Suits layout ∧ t = (play geometry layout s turn).2

/-- The blocks set or removed since the last commit, after one more operation. -/
def Ending.changes (ending : Ending) (op : Op) (changed : List Nat) : List Nat :=
  if ending.died || ending.published then []
  else match op with
    | .set block _ _ => if ending.ok then block :: changed else changed
    | .remove block => if ending.ok then block :: changed else changed
    | _ => changed

/-- The blocks set or removed in a run since its last commit, which the death of the
process takes with it. -/
def changedSince [Sha256] (geometry : Geometry) (layout : Layout) (trace : List (Cache × Turn)) : List Nat :=
  trace.foldl (fun changed entry => (play geometry layout entry.1 entry.2).1.changes entry.2.op changed) []

/-- No transaction is open, nothing is in memory, and a segment marked deleting has no
entry in the column. -/
structure Initial (geometry : Geometry) (layout : Layout) (s : Cache) : Prop where
  closed : s.database.journal = none
  unloaded : s.resident = none
  cleared : ∀ size number, layout = .segments size → s.database.rows.segments.lookup number = some true →
    ∀ block ∈ segmentBlocks geometry size number, (Index.get ⟨s.database.rows.blocks, [], geometry⟩ block) = none

end Qcm.IndexBytes
