import Qcm.CacheStore

/-!
Objects in shared pack files (`objects.rs`).
-/

namespace Qcm.CacheObjects

open Lib Lib.Act ResourceFormat CacheState CacheDisk CacheLoad CacheStore

variable [Sha256]

structure Object where
  metadata : ObjectMetadata
  bytes : List UInt8

def deleteObject (key : String) (tables : Tables) : Tables := { tables with objects := tables.objects.erase key }

/-- The join of `object`: the row of a key and its pack, unless the pack is being deleted. -/
def objectRow (key : String) (tables : Tables) : Option (ObjectRow × PackRow) := do
  let row ← tables.objects.lookup key
  let pack ← tables.packs.lookup row.pack
  if pack.deleting then none else some (row, pack)

/-- The bytes of an object, checked against its row. -/
def readObject (row : ObjectRow) (pack : PackRow) : Io Object := do
  ensure (packHeader ≤ row.offset ∧ row.length ≤ maxObject ∧ row.metadata.length = row.length ∧
    row.offset + row.length ≤ pack.length) (.text "invalid packed object")
  regularFile (.pack row.pack)
  let actual ← readExact (.pack row.pack) 0 packHeader
  ensure (actual = packHeaderBytes row.pack) (.text "pack identity mismatch")
  let bytes ← readExact (.pack row.pack) row.offset row.length
  ensure (Sha256.hash bytes = row.digest) (.text "object checksum mismatch")
  pure ⟨row.metadata, bytes⟩

def touchPack (token : Token) (clock : Nat) (tables : Tables) : Tables :=
  match tables.packs.lookup token with
  | some row => { tables with packs := tables.packs.insert token { row with lastUse := clock } }
  | none => tables

/-- `object` -/
def object (key : String) : Io (Option Object) := do
  let found ← query (objectRow key)
  match found with
  | none => pure none
  | some (row, pack) => do
    let result ← attempt (readObject row pack)
    match result with
    | .ok object => do
      let clock ← segmentTick
      execute (touchPack row.pack clock)
      pure (some object)
    | .error _ => do
      execute (deleteObject key)
      pure none

/-- The pack a new object goes to: of its group, not being deleted, with room; the one used last. -/
def packWithRoom (group : String) (length : Nat) (tables : Tables) : Option (Token × Nat) :=
  let packs := tables.packs.entries.filter fun entry =>
    entry.2.group == group && !entry.2.deleting && decide (entry.2.length + length ≤ packBytes)
  ((packs.insertionSort fun first second => second.2.lastUse ≤ first.2.lastUse).head?).map
    fun entry => (entry.1, entry.2.length)

def insertPack (token : Token) (metadata : ObjectMetadata) (tables : Tables) : Option Tables :=
  if (tables.packs.lookup token).isSome then none
  else some { tables with packs := tables.packs.insert token ⟨metadata.group, metadata.provider, packHeader, 0, false⟩ }

/-- A new pack file with its row; the file is recorded whatever comes of it. -/
def createPack (metadata : ObjectMetadata) : Io Token := do
  let token ← nextSerial
  createNew (.pack token)
  let created ← attempt do
    disk
    writeAll (.pack token) 0 (packHeaderBytes token)
    disk
    disk
    statement (insertPack token metadata)
  let measured ← attempt (allocated (.pack token))
  let bytes := match measured with
    | .ok bytes => bytes
    | .error _ => 4096
  update fun s => { s with sizes := s.sizes.insert (.pack token) (bytes, 1) }
  match created with
  | .ok _ => pure token
  | .error error => do
    let _ ← attempt (removeManaged (.pack token))
    fail error

/-- `INSERT OR REPLACE INTO objects` -/
def replaceObject (metadata : ObjectMetadata) (token : Token) (offset : Nat) (digest : Digest)
    (tables : Tables) : Tables :=
  { tables with objects := tables.objects.insert metadata.key ⟨token, offset, metadata.length, digest, metadata⟩ }

/-- `UPDATE packs SET length=?,last_use=? WHERE token=? AND deleting=0` -/
def growPack (token : Token) (length clock : Nat) (tables : Tables) : Tables :=
  match tables.packs.lookup token with
  | some row =>
    if row.deleting then tables
    else { tables with packs := tables.packs.insert token { row with length := length, lastUse := clock } }
  | none => tables

/-- The transaction of `put_object`. -/
def commitObject (metadata : ObjectMetadata) (token : Token) (offset : Nat) (digest : Digest) (clock : Nat) :
    List (Tables → Option Tables) :=
  [fun tables => some (replaceObject metadata token offset digest tables),
    fun tables => some (growPack token (offset + metadata.length) clock tables)]

/-- The bytes of an object at the end of its pack, and its row. -/
def appendObject (metadata : ObjectMetadata) (bytes : List UInt8) (token : Token) (offset : Nat) : Io Unit := do
  let actual ← readExact (.pack token) 0 packHeader
  let length ← fileLength (.pack token)
  ensure (actual = packHeaderBytes token ∧ offset ≤ length) (.text "invalid pack identity")
  setLength (.pack token) offset
  writeAll (.pack token) offset bytes
  disk
  let clock ← segmentTick
  transaction (commitObject metadata token offset (Sha256.hash bytes) clock)

/-- The pack that was found, or a new one. -/
def packFor (metadata : ObjectMetadata) : Option (Token × Nat) → Io (Token × Nat)
  | some found => pure found
  | none => do
    let token ← createPack metadata
    pure (token, packHeader)

/-- The pack is cut back to its row. -/
def undoAppend (token : Token) (offset : Nat) : Io Unit := do
  let _ ← attempt (setLength (.pack token) offset)
  let _ ← attempt disk

/-- `put_object` of an object that is admitted, once there is room; the pack file is measured
last. -/
def storeObject (metadata : ObjectMetadata) (bytes : List UInt8) : Io Unit := do
  let existing ← query (packWithRoom metadata.group metadata.length)
  let (token, offset) ← packFor metadata existing
  ensure (packHeader ≤ offset ∧ offset + metadata.length ≤ packBytes) (.text "invalid pack append")
  regularFile (.pack token)
  let result ← attempt (appendObject metadata bytes token offset)
  when (result.isOk = false) (undoAppend token offset)
  recordSize (.pack token) 1
  liftExcept result

/-- `Storage::put_object` -/
def putObject (metadata : ObjectMetadata) (bytes : List UInt8) : Io Unit := do
  ensure (metadata.length = bytes.length ∧ metadata.length ≤ maxObject) (.text "object admission limit")
  evict (divCeil (metadata.length + packHeader) 4096 * 4096)
  storeObject metadata bytes

/-- `Store::put_object`: the caller's `valid` is asked before and after. -/
def putValidObject (metadata : ObjectMetadata) (bytes : List UInt8) (before after : Bool) : Io Unit := do
  ensure before (.text "object commit invalidated")
  let result ← attempt (putObject metadata bytes)
  if ¬ after then do
    execute (deleteObject metadata.key)
    fail (.text "object commit invalidated")
  else liftExcept result

/-- `Store::remove_object` -/
def removeObject (key : String) : Io Unit := execute (deleteObject key)

/-- `Store::update_object` -/
def updateObject (metadata : ObjectMetadata) : Io Unit :=
  execute fun tables => match tables.objects.lookup metadata.key with
    | some row => { tables with objects := tables.objects.insert metadata.key { row with metadata := metadata } }
    | none => tables

/-- Whether the descriptor and the file of a pack pass their checks; the file is cut to its row. -/
def retainPack (token : Token) (row : PackRow) : Io Unit := do
  ensure (packHeader ≤ row.length ∧ row.length ≤ packBytes ∧ ¬ row.deleting) (.text "invalid pack descriptor")
  regularFile (.pack token)
  let actual ← readExact (.pack token) 0 packHeader
  let length ← fileLength (.pack token)
  ensure (actual = packHeaderBytes token ∧ row.length ≤ length) (.text "invalid pack data")
  setLength (.pack token) row.length

/-- The loop of `retain_packs`. -/
def retainPackTurns : List ((_ : Token) × PackRow) → Hash FileName Int → Io (Hash FileName Int)
  | [], retained => pure retained
  | pack :: rest, retained => do
    let valid ← attempt (retainPack pack.1 pack.2)
    match valid with
    | .ok _ => retainPackTurns rest (retained.insert (.pack pack.1) 1)
    | .error _ => do
      let _ ← attempt (deletePack pack.1)
      retainPackTurns rest retained

/-- `retain_packs`: the names it adds to those retained. -/
def retainPacks (retained : Hash FileName Int) : Io (Hash FileName Int) := do
  let packs ← query fun tables => tables.packs.entries
  retainPackTurns packs retained

end Qcm.CacheObjects
