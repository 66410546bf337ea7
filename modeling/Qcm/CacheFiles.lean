import Qcm.CacheObjects

/-!
Published files: the conversion of a complete version into one plain file, and
the leases that hand such a file out (`materialize.rs`).
-/

namespace Qcm.CacheFiles

open Lib Lib.Act ResourceFormat CacheState CacheDisk CacheLoad CacheStore

variable [Sha256]

def ticketReservation (length : Nat) : Nat := divCeil length 4096 * 4096

/-- `LocalFile` -/
structure LocalFile where
  name : FileName
  token : Token
  lifetime : Nat

/-! ## Conversion -/

/-- The upsert of `defer_build`. -/
def deferRow (id till : Nat) (tables : Tables) : Tables :=
  let row := match tables.completeFiles.lookup id with
    | some row => { row with retryAt := till }
    | none => ⟨false, 0, none, till, 1⟩
  { tables with completeFiles := tables.completeFiles.insert id row }

/-- `defer_build` -/
def deferBuild (id : Nat) : Io Unit := do
  let time ← leaseNow
  execute (deferRow id (time + 30))

def removeRecorded (name : FileName) : Io Unit := do
  let s ← state
  when ((s.sizes.lookup name).isSome = true) (removeManaged name)

/-- `cleanup_plain_data` -/
def cleanupPlainData : Io Unit := do
  let names ← query fun tables => tables.versions.entries.filterMap fun entry =>
    if (tables.completeFiles.lookup entry.1).any CompleteRow.ready then some (FileName.data entry.2.generation)
    else none
  for name in names do
    removeRecorded name

/-- The versions `next_build` looks at, ascending, at most 64. -/
def buildCandidates (time cursor : Nat) (tables : Tables) : List Nat :=
  ((tables.versions.entries.filter fun entry =>
      entry.2.obsolete == 0 && cursor < entry.1 &&
        (match tables.completeFiles.lookup entry.1 with
        | some row => !row.ready && decide (row.retryAt ≤ time)
        | none => true)).map Sigma.fst).insertionSort (· ≤ ·) |>.take 64

/-- Whether a version is to be converted. -/
def convertible (value : Resident) : Bool :=
  value.metadata.layout = .blocks && !(value.metadata.kind == 1 && decide (segmentBytes < value.metadata.geometry.length)) &&
    value.metadata.store && value.index.isCommitted && value.index.complete

def unpublished (generation : String) : List FileName := [.okTmp generation, .ok generation]

def removeUnpublished (generation : String) : Io Unit := do
  for name in unpublished generation do
    removeManaged name

/-- The new file of a conversion. -/
def prepareBuild (generation : String) : Io Unit := do
  removeUnpublished generation
  createNew (.okTmp generation)
  disk

/-- The steps of `next_build` for one candidate, once its handle is taken: whether the
conversion starts. -/
def startBuild (held : Version) : Io Bool := do
  let id := held.id
  let cleaned ← attempt (removeUnpublished held.metadata.generation)
  match cleaned with
  | .error _ => do
    deferBuild id
    pure false
  | .ok _ => do
    let reserved := ticketReservation held.metadata.geometry.length
    let room ← attempt (evict reserved)
    match room with
    | .error _ => do
      deferBuild id
      pure false
    | .ok _ => do
      let prepared ← attempt (prepareBuild held.metadata.generation)
      match prepared with
      | .error _ => do
        deferBuild id
        pure false
      | .ok _ => do
        recordSize (.okTmp held.metadata.generation) held.metadata.kind
        update fun s => { s with building := some ⟨id, reserved⟩ }
        pure true

/-- The loop of `next_build`. -/
def tryBuilds : List Nat → Io (Option Version)
  | [] => pure none
  | id :: rest => do
    update fun s => { s with scanCursor := id }
    let loaded ← attempt (load id)
    match loaded with
    | .error _ => tryBuilds rest
    | .ok value =>
      if ¬ convertible value then tryBuilds rest
      else do
        let held ← version id
        let started ← onError (dropHandle held) (startBuild held)
        if started then pure (some held)
        else do
          update (dropHandle held)
          tryBuilds rest

/-- `next_build` -/
def nextBuild : Io (Option Version) := do
  let s ← state
  if ¬ s.filesEnabled then pure none
  else do
    expireLeases
    cleanupGarbage
    cleanupPlainData
    let _ ← attempt (evict 0)
    let time ← leaseNow
    let s ← state
    let ids ← query (buildCandidates time s.scanCursor)
    if ids.isEmpty then do
      update fun s => { s with scanCursor := 0 }
      pure none
    else tryBuilds ids

/-- `check_build` -/
def checkBuild (id : Nat) : Io Unit := do
  let s ← state
  ensure (s.building.any fun build => build.id = id) (.text "stale file ticket")
  let row ← query fun tables => tables.versions.lookup id
  ensure (row.any fun row => row.obsolete = 0) (.text "file generation retired")

/-- `read_block` of the file worker. -/
def readForBuild (id block : Nat) : Io (List UInt8) := do
  checkBuild id
  let data ← read id block
  require data (.text "conversion block missing")

/-- `copied_block` -/
def copiedBlock (id bytes : Nat) : Io Unit := do
  checkBuild id
  let value ← load id
  let reserved := ticketReservation value.metadata.geometry.length
  update fun s => { s with
    sizes := s.sizes.insert (.okTmp value.metadata.generation) (bytes, value.metadata.kind)
    building := s.building.map fun build => { build with remaining := reserved - bytes } }

/-- The upsert of `publish_file`. -/
def publishRow (id length : Nat) (digest : Digest) (tables : Tables) : Tables :=
  let row := match tables.completeFiles.lookup id with
    | some row => { row with ready := true, length := length, digest := some digest, retryAt := 0 }
    | none => ⟨true, length, some digest, 0, 1⟩
  { tables with completeFiles := tables.completeFiles.insert id row }

/-- `publish_file` up to the rename. -/
def admitPublication (held : Version) : Io Unit := do
  checkBuild held.id
  let s ← state
  ensure (held.lease ∉ s.revoked) (.text "file provider invalidated")
  let value ← load held.id
  ensure (value.index.isCommitted ∧ value.index.complete ∧ ¬ value.plain) (.text "file index not committed")
  regularFile (.okTmp held.metadata.generation)
  let length ← fileLength (.okTmp held.metadata.generation)
  ensure (length = held.metadata.geometry.length) (.text "file output size changed")
  disk
  let s ← state
  ensure ((s.files.lookup (.ok held.metadata.generation)).isNone) (.text "file already published")

/-- `publish_file` -/
def publishFile (held : Version) (digest : Digest) : Io Unit := do
  admitPublication held
  let generation := held.metadata.generation
  rename (.okTmp generation) (.ok generation)
  update fun s => { s with sizes := s.sizes.erase (.okTmp generation) }
  recordSize (.ok generation) held.metadata.kind
  update fun s => { s with building := s.building.map fun build => { build with remaining := 0 } }
  disk
  let _ ← fileAt (.ok generation)
  transaction [fun tables => some (publishRow held.id held.metadata.geometry.length digest tables)]
  let value ← resident held.id
  putResident held.id { value with file := some (.ok generation), plain := true }
  update fun s => { s with building := none }
  let _ ← attempt cleanupPlainData

/-- One of the two files of a conversion that failed. -/
def discardUnpublished (name : FileName) (kind : Int) : Io Unit := do
  let _ ← attempt (recordSize name kind)
  removeManaged name

/-- `finish_failed` -/
def finishFailed (id : Nat) : Io Unit := do
  update fun s => { s with building := none }
  deferBuild id
  let value ← load id
  let plain ← isPlain id
  if ¬ plain then
    for name in unpublished value.metadata.generation do
      discardUnpublished name value.metadata.kind

/-- Whether the published file is there in its length. -/
def fileIntact (generation : String) (length : Nat) : Io Bool := do
  let found ← attempt (regularFile (.ok generation))
  match found with
  | .error _ => pure false
  | .ok _ => do
    let actual ← fileLength (.ok generation)
    pure (decide (actual = length))

/-- The lengths of the other versions' files that are leased. -/
def protectedBytes (id : Nat) (tables : Tables) : Nat :=
  ((tables.completeFiles.entries.filter fun entry =>
    tables.fileLeases.any fun _ lease => lease.version == entry.1 && lease.version != id).map
      fun entry => entry.2.length).sum

def insertLease (token : Token) (lease : LeaseRow) (tables : Tables) : Option Tables :=
  if (tables.fileLeases.lookup token).isSome then none
  else some { tables with fileLeases := tables.fileLeases.insert token lease }

/-- The grant of `acquire_file`, once all is checked. -/
def grantLease (id : Nat) (client : String) (generation : String) : Io LocalFile := do
  let token ← nextSerial
  persistClock
  let time ← leaseNow
  statement (insertLease token ⟨id, client, time + leaseSeconds⟩)
  pure ⟨.ok generation, token, leaseSeconds⟩

/-- `acquire_file` -/
def acquireFile (id : Nat) (client : String) : Io (Option LocalFile) := do
  expireLeases
  let s ← state
  if s.clockUncertain then pure none
  else do
  let plain ← isPlain id
  if ¬ plain then pure none
  else do
  let row ← query fun tables => tables.versions.lookup id
  if ¬ row.any (fun row => row.obsolete == 0) then pure none
  else do
  let value ← load id
  if value.metadata.kind ≠ 0 then pure none
  else do
  let intact ← fileIntact value.metadata.generation value.metadata.geometry.length
  if ¬ intact then do
    retireCorrupt id
    fail .plainCorrupt
  else do
  let count ← query fun tables => tables.fileLeases.size
  if maxLeases ≤ count then pure none
  else do
  let held ← query (protectedBytes id)
  let s ← state
  if min (s.capacity / 2) (512 * 1024 * 1024) < saturate (held + value.metadata.geometry.length) then pure none
  else do
  let file ← grantLease id client value.metadata.generation
  pure (some file)

/-- The version of a lease that may be renewed at this time. -/
def renewable (token : Token) (client : String) (time : Nat) (tables : Tables) : Option Nat := do
  let lease ← tables.fileLeases.lookup token
  let row ← tables.versions.lookup lease.version
  if lease.client = client ∧ row.obsolete = 0 ∧ time < lease.expires then some lease.version else none

def extendLease (token : Token) (client : String) (expires : Nat) (tables : Tables) : Tables :=
  match tables.fileLeases.lookup token with
  | some lease =>
    if lease.client = client then
      { tables with fileLeases := tables.fileLeases.insert token { lease with expires := expires } }
    else tables
  | none => tables

/-- `renew_file` -/
def renewFile (token : Token) (client : String) : Io Bool := do
  expireLeases
  let s ← state
  if s.clockUncertain then pure false
  else do
  let time ← leaseNow
  let found ← query (renewable token client time)
  match found with
  | none => pure false
  | some id => do
    let value ← load id
    let intact ← fileIntact value.metadata.generation value.metadata.geometry.length
    if ¬ intact then do
      retireCorrupt id
      pure false
    else do
      persistClock
      let time ← leaseNow
      execute (extendLease token client (time + leaseSeconds))
      pure true

def deleteLease (token : Token) (client : String) (tables : Tables) : Tables :=
  { tables with fileLeases := tables.fileLeases.filter fun key lease => !(key == token && lease.client == client) }

/-- `Store::release_file` -/
def releaseFile (token : Token) (client : String) : Io Unit := do
  execute (deleteLease token client)
  evict 0

/-- `restore_segment_clock` -/
def restoreSegmentClock : Io Unit := do
  let last ← query fun tables =>
    max ((tables.segments.values.map SegmentRow.lastUse).max?.getD 0) ((tables.packs.values.map PackRow.lastUse).max?.getD 0)
  update fun s => { s with segmentClock := last }

/-- `restore_leases` -/
def restoreLeases : Io Unit := do
  let old ← query fun tables => tables.fileClock.getD 0
  update fun s => { s with clockUncertain := decide (s.clock < old), clock := max s.clock old }
  let leased ← query fun tables => tables.fileLeases.size
  when (leased ≠ 0) do
    let instant ← instantNow
    update fun s => { s with restartGrace := some (instant + leaseSeconds * nanos) }
  persistClock

/-- The files of the versions that are kept by a restart: their data or published files, and the
published file of every version with a lease. -/
def retainedFiles (tables : Tables) : Hash FileName Int :=
  let own := tables.versions.entries.foldl (fun (retained : Hash FileName Int) entry =>
    if validGeneration entry.2.metadata.generation = true ∧ entry.2.metadata.layout = .blocks then
      let name : FileName :=
        if (tables.completeFiles.lookup entry.1).any CompleteRow.ready then .ok entry.2.metadata.generation
        else .data entry.2.metadata.generation
      retained.insert name entry.2.metadata.kind
    else retained) ∅
  tables.fileLeases.entries.foldl (fun retained lease =>
    match tables.versions.lookup lease.2.version with
    | some row => if validGeneration row.generation then retained.insert (.ok row.generation) row.kind else retained
    | none => retained) own

/-- `retain_segments`: the names it adds. -/
def retainSegments (retained : Hash FileName Int) (tables : Tables) : Hash FileName Int :=
  tables.segments.entries.foldl (fun retained entry =>
    match tables.versions.lookup entry.1.1 with
    | some row =>
      if validGeneration row.metadata.generation = true ∧ row.metadata.layout ≠ .blocks then
        retained.insert (.segment row.metadata.generation entry.1.2 entry.2.token) row.metadata.kind
      else retained
    | none => retained) retained

/-- One entry of the cache directory: recorded, and removed when nothing retains it. -/
def recoverFile (retained : Hash FileName Int) (name : FileName) : Io Unit :=
  match retained.lookup name with
  | some kind => recordSize name kind
  | none =>
    if managedName name then do
      recordSize name 0
      let _ ← attempt (removeManaged name)
    else pure ()

/-- A version whose generation is not a valid one is given up. -/
def discardInvalid (id : Nat) : Io Unit := do
  execute (changeVersion id (setObsolete 2))
  let _ ← attempt (delete id)

/-- `recover` -/
def recover : Io Unit := do
  let versions ← query fun tables => tables.versions.entries
  let retained ← query retainedFiles
  for id in (versions.filter fun entry => !validGeneration entry.2.metadata.generation).map Sigma.fst do
    discardInvalid id
  let retained ← query (retainSegments retained)
  let retained ← CacheObjects.retainPacks retained
  disk
  let s ← state
  for name in s.files.keys do
    recoverFile retained name
  let _ ← attempt (evict 0)

/-- `Storage::open`, on the memory of a new process. -/
def openStorage (capacity : Nat) : Io Unit := do
  disk
  let _ ← trial .sql
  let wall ← now
  let started ← instantNow
  update fun s => { s with capacity := capacity, clock := wall, started := started }
  restoreSegmentClock
  restoreLeases
  recover
  update fun s => { s with running := true }

end Qcm.CacheFiles
