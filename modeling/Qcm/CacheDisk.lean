import Qcm.CacheState
import Qcm.Lib.Effect

/-!
What the storage asks of its surroundings: SQLite, the file system, the clocks.
Each call takes one answer from the tape, so a run covers every choice of what
fails and where the process dies.  A statement that fails and a transaction that
does not commit leave the tables as they were; a write that fails may have
written a part.
-/

namespace Qcm.CacheDisk

open Lib Lib.Act ResourceFormat CacheState

abbrev Io := Act Storage Failure

/-- The next answer of the environment. -/
def chance : Io Chance := fun s =>
  match s.tape with
  | [] => (.ok ⟨.pass, 0⟩, s)
  | answer :: rest => (.ok answer, { s with tape := rest })

/-- A call that may fail or be the last thing the process does. -/
def trial (error : Failure) : Io Nat := do
  let answer ← chance
  match answer.verdict with
  | .pass => pure answer.amount
  | .fail => fail error
  | .crash => crash

/-- The value of a fallible step of the program. -/
def liftExcept {α : Type} : Except Failure α → Io α
  | .ok value => pure value
  | .error error => fail error

/-- A `SELECT`. -/
def query {α : Type} (select : Tables → α) : Io α := do
  let _ ← trial .sql
  let s ← state
  pure (select s.tables)

/-- The tables after the statements of a transaction, each of which may fail. -/
def runStatements : List (Tables → Option Tables) → Tables → Io Tables
  | [], tables => pure tables
  | first :: rest, tables => do
    let _ ← trial .sql
    let next ← require (first tables) .sql
    runStatements rest next

/-- The database files grow to any size with a change. -/
def putTables (tables : Tables) (bytes : Nat) : Io Unit :=
  update fun s => { s with tables := tables, databaseBytes := bytes }

/-- One statement, which commits by itself. -/
def statement (change : Tables → Option Tables) : Io Unit := do
  let bytes ← trial .sql
  let s ← state
  let tables ← require (change s.tables) .sql
  putTables tables bytes

def execute (change : Tables → Tables) : Io Unit := statement fun tables => some (change tables)

/-- `BEGIN IMMEDIATE`, the statements, `COMMIT`; or the `ROLLBACK`. -/
def transaction (statements : List (Tables → Option Tables)) : Io Unit := do
  let _ ← trial .sql
  let s ← state
  let tables ← runStatements statements s.tables
  let bytes ← trial .sql
  putTables tables bytes

/-- `Database::patch`: the dirty entries of an index go into its row. -/
def patch (id : Nat) (index : Index) (tables : Tables) : Option Tables := do
  let row ← tables.versions.lookup id
  if row.blocks.size ≠ index.size then none
  let entries := index.dirty.foldl (fun entries block =>
    match index.get block with
    | some entry => entries.insert block entry
    | none => entries.erase block) row.blocks.entries
  some { tables with
    versions := tables.versions.insert id { row with blocks := { row.blocks with entries := entries } } }

/-- `UPDATE versions` of one row. -/
def changeVersion (id : Nat) (change : VersionRow → VersionRow) (tables : Tables) : Tables :=
  match tables.versions.lookup id with
  | some row => { tables with versions := tables.versions.insert id (change row) }
  | none => tables

def setObsolete (level : Nat) (row : VersionRow) : VersionRow := { row with obsolete := level }

/-- `policy::now`: the wall clock in seconds. -/
def now : Io Nat := do
  let answer ← chance
  pure answer.amount

/-- `Instant::now()`, in nanoseconds. -/
def instantNow : Io Nat := do
  let answer ← chance
  update fun s => { s with instant := s.instant + answer.amount }
  let s ← state
  pure s.instant

/-- The next number of the counter for UUIDs, leases, pins and handles. -/
def nextSerial : Io Nat := do
  let s ← state
  update fun s => { s with serial := s.serial + 1 }
  pure s.serial

/-- `segment_tick` -/
def segmentTick : Io Nat := do
  let micros ← now
  update fun s => { s with segmentClock := max micros (s.segmentClock + 1) }
  let s ← state
  pure s.segmentClock

/-- A file-system call that changes nothing: permissions, `sync_all`, `sync_directory`. -/
def disk : Io Unit := do
  let _ ← trial .io
  pure ()

def onFile (name : FileName) (change : Contents → Contents) (s : Storage) : Storage :=
  match s.files.lookup name with
  | some file => { s with files := s.files.insert name (change file) }
  | none => s

/-- The file behind a name or a descriptor. -/
def fileAt (name : FileName) : Io Contents := do
  disk
  let s ← state
  require (s.files.lookup name) .io

/-- `regular_file`; the cache makes nothing but regular files. -/
def regularFile (name : FileName) : Io Unit := do
  let _ ← fileAt name
  pure ()

/-- `metadata()?.len()` -/
def fileLength (name : FileName) : Io Nat := do
  let file ← fileAt name
  pure file.length

/-- `allocated(&metadata()?)`: the bytes of the blocks a file has on the disk. -/
def allocated (name : FileName) : Io Nat := do
  let bytes ← trial .io
  let s ← state
  let _ ← require (s.files.lookup name) .io
  pure bytes

/-- `create_new(true)` -/
def createNew (name : FileName) : Io Unit := do
  disk
  let s ← state
  ensure ((s.files.lookup name).isNone) .io
  update fun s => { s with files := s.files.insert name Contents.empty }

/-- `seek` and `write_all`. -/
def writeAll (name : FileName) (offset : Nat) (data : List UInt8) : Io Unit := do
  let answer ← chance
  match answer.verdict with
  | .pass => update (onFile name fun file => file.write offset data)
  | .fail =>
    update (onFile name fun file => file.write offset (data.take answer.amount))
    fail .io
  | .crash =>
    update (onFile name fun file => file.write offset (data.take answer.amount))
    crash

/-- `write_all` of so many zeros. -/
def writeZeros (name : FileName) (offset count : Nat) : Io Unit := do
  let answer ← chance
  match answer.verdict with
  | .pass => update (onFile name fun file => file.writeZeros offset count)
  | .fail =>
    update (onFile name fun file => file.writeZeros offset (min count answer.amount))
    fail .io
  | .crash =>
    update (onFile name fun file => file.writeZeros offset (min count answer.amount))
    crash

def setLength (name : FileName) (length : Nat) : Io Unit := do
  disk
  update (onFile name fun file => file.setLength length)

/-- `seek` and `read_exact`. -/
def readExact (name : FileName) (offset count : Nat) : Io (List UInt8) := do
  let file ← fileAt name
  require (file.readExact offset count) .io

/-- `remove_file`, which may find nothing there. -/
def removeFile (name : FileName) : Io Unit := do
  disk
  update fun s => { s with files := s.files.erase name }

/-- `rename` onto a free name. -/
def rename (source target : FileName) : Io Unit := do
  disk
  let s ← state
  let file ← require (s.files.lookup source) .io
  update fun s => { s with files := (s.files.erase source).insert target file }

/-- `self.sizes.insert(name, (allocated(..)?, kind))` -/
def recordSize (name : FileName) (kind : Int) : Io Unit := do
  let bytes ← allocated name
  update fun s => { s with sizes := s.sizes.insert name (bytes, kind) }

/-- `remove_managed`: a file that cannot be removed is noted as garbage. -/
def removeManaged (name : FileName) : Io Unit := do
  ensure (managedName name) (.text "unmanaged cache path")
  let removed ← attempt do
    removeFile name
    disk
  match removed with
  | .error error =>
    update fun s => { s with garbage := s.garbage.insert name () }
    fail error
  | .ok _ => update fun s => { s with garbage := s.garbage.erase name, sizes := s.sizes.erase name }

/-- `cleanup_garbage`: any 64 of the names, in any order. -/
def cleanupGarbage : Io Unit := do
  let answer ← chance
  let s ← state
  for name in (s.garbage.keys.rotate answer.amount).take 64 do
    let _ ← attempt (removeManaged name)

structure Usage where
  image : Nat
  audio : Nat
  metadata : Nat

def Usage.total (usage : Usage) : Nat := usage.image + usage.audio + usage.metadata

/-- The recorded sizes of one sort of files. -/
def Storage.recorded (s : Storage) (audio : Bool) : Nat :=
  ((s.sizes.values.filter fun size => decide (size.2 = 1) = audio).map Prod.fst).sum

/-- `usage`; the three database files are measured together. -/
def usage : Io Usage := do
  disk
  let s ← state
  pure ⟨Storage.recorded s false, Storage.recorded s true, s.databaseBytes⟩

end Qcm.CacheDisk
