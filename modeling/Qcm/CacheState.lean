import Qcm.Lib.Contents
import Qcm.Lib.Hash
import Qcm.ResourceFormat

/-!
The data of the resource cache: block indexes, the tables of `meta.sqlite`, the
names of the managed files and the state of `Storage`
(`backend/main/src/resource_cache/{format,store,segments,objects,materialize,sqlite}.rs`).

An index maps a block to its slot and digest; its bytes are the entries in
order, 36 each, so a byte range of the source is a list of blocks here.  Version
4 UUIDs come from a counter.  Row ids, lengths and seconds are natural numbers:
they stay far below 2^63.
-/

namespace Qcm.CacheState

open Lib ResourceFormat

def headerLen : Nat := 64
def entryLen : Nat := 36
def defaultCapacity : Nat := 32 * 1024 * 1024 * 1024
def maxResident : Nat := 128
def leaseSeconds : Nat := 120
def maxLeases : Nat := 256
def packBytes : Nat := 16 * 1024 * 1024
def packHeader : Nat := 64
def maxObject : Nat := packBytes - packHeader
def indexBudget : Nat := 64 * 1024 * 1024
def maxSlot : Nat := 2 ^ 32 - 1
def maxU64 : Nat := 2 ^ 64 - 1

/-- `saturating_add` of `u64`, on a sum. -/
def saturate (sum : Nat) : Nat := min sum maxU64

/-- A SHA-256 digest. -/
structure Digest where
  bytes : List UInt8
  length : bytes.length = 32
  deriving DecidableEq

/-- SHA-256, which the source takes from OpenSSL. -/
class Sha256 where
  hash : List UInt8 → Digest

/-- A version 4 UUID. -/
abbrev Token := Nat

def ascii (text : String) : List UInt8 := text.toList.map fun char => UInt8.ofNat char.toNat

def littleEndian (value : Nat) : List UInt8 := (List.range 8).map fun index => UInt8.ofNat (value / 256 ^ index)

def uuidBytes (token : Token) : List UInt8 :=
  (List.range 16).map fun index => UInt8.ofNat (token / 256 ^ (15 - index))

def hexDigit (value : Nat) : UInt8 := UInt8.ofNat (if value < 10 then 48 + value else 87 + value)

/-- `Uuid::simple`: 32 hexadecimal digits. -/
def simple (token : Token) : List UInt8 := (List.range 32).map fun index => hexDigit (token / 16 ^ (31 - index) % 16)

def isHexDigit (char : Char) : Bool :=
  ('0' ≤ char && char ≤ '9') || ('a' ≤ char && char ≤ 'f') || ('A' ≤ char && char ≤ 'F')

def validGeneration (value : String) : Bool := value.toList.length == 32 && value.toList.all isHexDigit

/-- `Layout::for_resource` -/
def layoutFor (kind : Int) (length : Nat) : Layout :=
  if kind = 1 ∧ segmentBytes < length then .segments segmentBytes else .blocks

inductive Failure where
  | io
  | sql
  | text (message : String)
  | plainCorrupt
  deriving DecidableEq

/-- `Layout::validate`; a geometry carries a valid block size. -/
def validateLayout (layout : Layout) (geometry : Geometry) : Except Failure Unit :=
  if 1000000 < geometry.count then .error (.text "resource index exceeds memory limit")
  else match layout with
    | .blocks => .ok ()
    | .segments bytes =>
      if (bytes = segmentBytes ∨ bytes = 33554432) ∧ bytes % geometry.block = 0 then .ok ()
      else .error (.text "invalid segment geometry")

/-- The fields of `Metadata` that the storage reads; of `policy`, `store`. -/
structure Metadata where
  key : String
  provider : Int
  kind : Int
  generation : String
  geometry : Geometry
  store : Bool
  layout : Layout

section Headers

variable [Sha256]

/-- `Geometry::header` -/
def dataHeader (geometry : Geometry) (generation : String) : List UInt8 :=
  ascii "QCMRSC01" ++ littleEndian geometry.length ++ littleEndian geometry.block ++
    (Sha256.hash (ascii generation)).bytes ++ List.replicate 8 0

/-- `Segment::header` -/
def segmentHeader (metadata : Metadata) (number : Nat) (token : Token) (length : Nat) : List UInt8 :=
  ascii "QCMSEG01" ++ littleEndian length ++ littleEndian number ++ littleEndian metadata.geometry.block ++
    uuidBytes token ++ (Sha256.hash (ascii metadata.generation)).bytes.take 16

/-- `header` of a pack. -/
def packHeaderBytes (token : Token) : List UInt8 :=
  ascii "QCMPACK1" ++ simple token ++ List.replicate 24 0

end Headers

/-- Where a block is kept, and its digest. -/
structure Entry where
  slot : Nat
  digest : Digest
  deriving DecidableEq

/-- The `blocks` column: how many bytes it has, and its entries that are not zero. -/
structure Blob where
  size : Nat
  entries : Hash Nat Entry

structure Index where
  geometry : Geometry
  entries : Hash Nat Entry
  dirty : List Nat

namespace Index

/-- `bytes().len()` -/
def size (index : Index) : Nat := index.geometry.count * entryLen

/-- `Index::new` -/
def fresh (geometry : Geometry) : Index := ⟨geometry, ∅, []⟩

def get (index : Index) (block : Nat) : Option Entry := index.entries.lookup block

def set [Sha256] (index : Index) (block slot : Nat) (data : List UInt8) : Except Failure Index :=
  match index.geometry.range block with
  | none => throw (.text "block out of bounds")
  | some range =>
    if data.length ≠ range.length then throw (.text "incomplete block")
    else if slot = maxSlot then throw (.text "physical slot limit reached")
    else pure { index with
      entries := index.entries.insert block ⟨slot, Sha256.hash data⟩
      dirty := block :: index.dirty }

def remove (index : Index) (block : Nat) : Index :=
  { index with entries := index.entries.erase block, dirty := block :: index.dirty }

def complete (index : Index) : Bool := (List.range index.geometry.count).all fun block => (index.get block).isSome

def committed (index : Index) : Index := { index with dirty := [] }

def isCommitted (index : Index) : Bool := index.dirty.isEmpty

/-- `load_layout` -/
def loadLayout (geometry : Geometry) (blocks : Blob) (slots : Option Nat) : Except Failure Index :=
  if ¬ (geometry.count ≤ 1000000 ∧ blocks.size = geometry.count * entryLen) then
    .error (.text "invalid index size")
  else if (slots.any fun bound => blocks.entries.any fun _ entry => bound ≤ entry.slot) = true then
    .error (.text "index references absent slot")
  else .ok ⟨geometry, blocks.entries, []⟩

def load (geometry : Geometry) (blocks : Blob) (slots : Nat) : Except Failure Index :=
  loadLayout geometry blocks (some slots)

def loadPlain (geometry : Geometry) (blocks : Blob) : Except Failure Index := do
  let index ← loadLayout geometry blocks none
  if index.complete then .ok index else .error (.text "incomplete plain index")

def loadSegments (geometry : Geometry) (blocks : Blob) (size : Nat) : Except Failure Index := do
  let index ← loadLayout geometry blocks none
  if (index.entries.any fun block entry => entry.slot ≠ block % (size / geometry.block)) = true then
    .error (.text "invalid segment slot")
  else .ok index

end Index

structure VersionRow where
  key : String
  provider : Int
  kind : Int
  generation : String
  metadata : Metadata
  blocks : Blob
  lastUse : Nat
  obsolete : Nat

/-- A row of `complete_files`. -/
structure CompleteRow where
  ready : Bool
  length : Nat
  digest : Option Digest
  retryAt : Nat
  format : Nat

/-- A row of `file_leases`. -/
structure LeaseRow where
  version : Nat
  client : String
  expires : Nat

/-- A row of `segments`. -/
structure SegmentRow where
  token : Token
  length : Nat
  lastUse : Nat
  deleting : Bool

/-- A row of `packs`. -/
structure PackRow where
  group : String
  provider : Int
  length : Nat
  lastUse : Nat
  deleting : Bool

/-- The fields of `ObjectMetadata` that the storage reads. -/
structure ObjectMetadata where
  key : String
  group : String
  provider : Int
  length : Nat

/-- A row of `objects`. -/
structure ObjectRow where
  pack : Token
  offset : Nat
  length : Nat
  digest : Digest
  metadata : ObjectMetadata

structure Tables where
  versions : Hash Nat VersionRow
  completeFiles : Hash Nat CompleteRow
  fileLeases : Hash Token LeaseRow
  fileClock : Option Nat
  segments : Hash (Nat × Nat) SegmentRow
  packs : Hash Token PackRow
  objects : Hash String ObjectRow

def Tables.fresh : Tables := ⟨∅, ∅, ∅, none, ∅, ∅, ∅⟩

/-! ## Files and memory -/

inductive FileName where
  | data (generation : String)
  | okTmp (generation : String)
  | ok (generation : String)
  | segment (generation : String) (number : Nat) (token : Token)
  | pack (token : Token)
  deriving DecidableEq

/-- `managed_name` of the three kinds of files. -/
def managedName : FileName → Bool
  | .data generation => validGeneration generation
  | .okTmp generation => validGeneration generation
  | .ok generation => validGeneration generation
  | .segment generation _ _ => validGeneration generation
  | .pack _ => true

structure Resident where
  metadata : Metadata
  index : Index
  file : Option FileName
  lease : Option Nat
  plain : Bool

/-- `Version`: a handle with the lease it holds. -/
structure Version where
  handle : Nat
  id : Nat
  metadata : Metadata
  lease : Nat

/-- `Window`: the pins it holds, each under its version and segment number. -/
structure Window where
  handle : Nat
  pins : List ((Nat × Nat) × Nat)

structure Build where
  id : Nat
  remaining : Nat

/-- How far the file worker is with its ticket; the bytes are those copied so far. -/
inductive Worker where
  | idle
  | copying (version : Version) (block : Nat) (copied : List UInt8)
  | fetched (version : Version) (block : Nat) (copied data : List UInt8)
  | written (version : Version) (block : Nat) (copied : List UInt8)
  | verified (version : Version) (digest : Digest)
  | failed (version : Version)

inductive Verdict where
  | pass
  | fail
  | crash
  deriving DecidableEq

/-- What the environment answers to one call: whether it passes, and the number it
reports (a size, a clock reading, how much of a write was done). -/
structure Chance where
  verdict : Verdict
  amount : Nat

/-- `Storage` with the disk under it, and what callers and the file worker hold.
Leases, pins and handles are numbered; a weak reference upgrades while a holder of
its number lives.  `instant` is the monotonic clock in nanoseconds, `tape` what
the environment answers to the calls to come. -/
structure Storage where
  tables : Tables
  files : Hash FileName Contents
  databaseBytes : Nat
  versions : Hash Nat Resident
  capacity : Nat
  pins : Hash (Nat × Nat) Nat
  segmentClock : Nat
  sizes : Hash FileName (Nat × Int)
  building : Option Build
  scanCursor : Nat
  clock : Nat
  clockUncertain : Bool
  started : Nat
  filesEnabled : Bool
  restartGrace : Option Nat
  garbage : Hash FileName Unit
  running : Bool
  handles : List Version
  windows : List Window
  revoked : List Nat
  worker : Worker
  issued : List String
  instant : Nat
  serial : Nat
  tape : List Chance

/-- An empty cache directory. -/
def Storage.fresh : Storage where
  tables := Tables.fresh
  files := ∅
  databaseBytes := 0
  versions := ∅
  capacity := 0
  pins := ∅
  segmentClock := 0
  sizes := ∅
  building := none
  scanCursor := 0
  clock := 0
  clockUncertain := false
  started := 0
  filesEnabled := true
  restartGrace := none
  garbage := ∅
  running := false
  handles := []
  windows := []
  revoked := []
  worker := .idle
  issued := []
  instant := 0
  serial := 0
  tape := []

namespace Storage

/-- `lease.upgrade()` of a resident. -/
def upgrades (s : Storage) (resident : Resident) : Bool :=
  resident.lease.any fun lease => s.handles.any fun version => version.lease == lease

/-- Whether a version is resident and its lease upgrades. -/
def leased (s : Storage) (id : Nat) : Bool := (s.versions.lookup id).any s.upgrades

/-- `strong_count` of a pin is positive. -/
def pinLive (s : Storage) (pin : Nat) : Bool := s.windows.any fun window => window.pins.any fun held => held.2 == pin

/-- Whether the pin of a segment upgrades. -/
def pinned (s : Storage) (segment : Nat × Nat) : Bool := (s.pins.lookup segment).any s.pinLive

/-- Whether a pin of a version upgrades. -/
def versionPinned (s : Storage) (id : Nat) : Bool := s.pins.any fun segment pin => segment.1 == id && s.pinLive pin

end Storage

end Qcm.CacheState
