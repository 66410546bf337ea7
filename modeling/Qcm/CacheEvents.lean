import Qcm.CacheFiles
import Qcm.Lib.Runs

/-!
The cache as a system: the storage thread runs one job at a time, for callers
that hold versions and windows and for the file worker, whose own file writes
fall between the jobs.  The process may die inside a job or between two, and is
started again on what is on the disk.
-/

namespace Qcm.CacheEvents

open Lib Lib.Act ResourceFormat CacheState CacheDisk CacheLoad CacheStore
  CacheObjects CacheFiles

variable [Sha256]

/-- The memory of a new process. -/
def restart (s : Storage) : Storage :=
  { Storage.fresh with
    tables := s.tables
    files := s.files
    databaseBytes := s.databaseBytes
    issued := s.issued
    instant := s.instant
    serial := s.serial }

/-- The version the file worker works on. -/
def Worker.held : Worker → Option Version
  | .idle => none
  | .copying version _ _ => some version
  | .fetched version _ _ _ => some version
  | .written version _ _ => some version
  | .verified version _ => some version
  | .failed version => some version

inductive Event where
  | launch (capacity : Nat)
  | stop
  | lookup (key : String)
  | create (metadata : Metadata)
  | read (handle block : Nat)
  | write (handle : Nat) (blocks : List (Nat × List UInt8))
  | complete (handle : Nat)
  | covered (handle : Nat) (range : ByteRange)
  | missingRange (handle : Nat) (range : ByteRange)
  | window (handle : Nat) (range : ByteRange)
  | refresh (handle : Nat) (store : Bool)
  | retire (handle : Nat)
  | invalidate (provider : Int)
  | usage
  | localFile (handle : Nat) (client : String)
  | renewFile (token : Token) (client : String)
  | releaseFile (token : Token) (client : String)
  | object (key : String)
  | putObject (metadata : ObjectMetadata) (bytes : List UInt8) (before after : Bool)
  | removeObject (key : String)
  | updateObject (metadata : ObjectMetadata)
  | dropVersion (handle : Nat)
  | dropWindow (handle : Nat)
  | begin
  | fetch
  | spill
  | report
  | verify
  | cancel
  | publish
  | giveUp
  | rescan

/-- A call with a version that the caller holds. -/
def withHandle {α : Type} (handle : Nat) (call : Version → Io α) : Io Unit := do
  let s ← state
  match s.handles.find? fun version => version.handle == handle with
  | some version => let _ ← call version
  | none => pure ()

def setWorker (worker : Worker) : Io Unit := update fun s => { s with worker := worker }

/-- A step of the file worker, which gives up on an error. -/
def workerStep {α : Type} (held : Version) (action : Io α) (next : α → Worker) : Io Unit := do
  let done ← attempt action
  match done with
  | .ok value => setWorker (next value)
  | .error _ => setWorker (.failed held)

/-- The end of `copy_blocks`: the file is read back against its digest. -/
def verifyCopy (held : Version) (copied : List UInt8) : Io Digest := do
  ensure (copied.length = held.metadata.geometry.length) (.text "conversion length mismatch")
  disk
  let file ← fileAt (.okTmp held.metadata.generation)
  ensure (file.length = copied.length ∧ Sha256.hash (file.slice 0 file.length) = Sha256.hash copied)
    (.text "file verification failed")
  pure (Sha256.hash copied)

/-- The next step of `copy_blocks`, when it is of this sort. -/
def workerFetch : Worker → Io Unit
  | .copying held block copied =>
    if block < held.metadata.geometry.count then
      workerStep held (readForBuild held.id block) fun data => .fetched held block copied data
    else pure ()
  | _ => pure ()

def workerSpill : Worker → Io Unit
  | .fetched held block copied data =>
    workerStep held (writeAll (.okTmp held.metadata.generation) copied.length data) fun _ =>
      .written held block (copied ++ data)
  | _ => pure ()

def workerReport : Worker → Io Unit
  | .written held block copied =>
    workerStep held (do
      let bytes ← allocated (.okTmp held.metadata.generation)
      copiedBlock held.id bytes) fun _ => .copying held (block + 1) copied
  | _ => pure ()

def workerVerify : Worker → Io Unit
  | .copying held block copied =>
    if block < held.metadata.geometry.count then pure ()
    else workerStep held (verifyCopy held copied) fun digest => .verified held digest
  | _ => pure ()

def workerPublish : Worker → Io Unit
  | .verified held digest => do
    let done ← attempt (publishFile held digest)
    match done with
    | .ok _ => update fun s => { dropHandle held s with worker := .idle }
    | .error _ => setWorker (.failed held)
  | _ => pure ()

def workerGiveUp : Worker → Io Unit
  | .failed held => do
    let _ ← attempt (finishFailed held.id)
    update fun s => { dropHandle held s with worker := .idle }
  | _ => pure ()

def workerBegin : Worker → Io Unit
  | .idle => do
    let ticket ← nextBuild
    match ticket with
    | some held => setWorker (.copying held 0 [])
    | none => pure ()
  | _ => pure ()

/-- The stop flag is seen, or the conversion is abandoned before it is published. -/
def workerCancel (worker : Worker) : Io Unit :=
  match Worker.held worker with
  | some held => setWorker (.failed held)
  | none => pure ()

/-- What an event does.  A new version has a generation no earlier one had; an update keeps
all but the policy, and an object keeps its provider. -/
def Event.action : Event → Io Unit
  | .launch capacity => openStorage capacity
  | .stop => crash
  | .lookup key => do let _ ← CacheStore.lookup key
  | .create metadata => do
    let s ← state
    if metadata.generation ∈ s.issued then pure ()
    else do
      update fun s => { s with issued := metadata.generation :: s.issued }
      let _ ← CacheStore.create metadata
  | .read handle block => withHandle handle fun version => CacheStore.read version.id block
  | .write handle blocks => withHandle handle fun version => CacheStore.write version.id blocks
  | .complete handle => withHandle handle fun version => CacheStore.complete version.id
  | .covered handle range => withHandle handle fun version => CacheStore.covered version.id range
  | .missingRange handle range => withHandle handle fun version => CacheStore.missingRange version.id range
  | .window handle range => withHandle handle fun version => CacheStore.window version.id range
  | .refresh handle store => withHandle handle fun version =>
      updateVersion version.id { version.metadata with store := store }
  | .retire handle => withHandle handle fun version => CacheStore.retire version.id
  | .invalidate provider => CacheStore.invalidate provider
  | .usage => do let _ ← CacheDisk.usage
  | .localFile handle client => withHandle handle fun version => acquireFile version.id client
  | .renewFile token client => do let _ ← CacheFiles.renewFile token client
  | .releaseFile token client => CacheFiles.releaseFile token client
  | .object key => do let _ ← CacheObjects.object key
  | .putObject metadata bytes before after => putValidObject metadata bytes before after
  | .removeObject key => CacheObjects.removeObject key
  | .updateObject metadata => do
    let s ← state
    if (s.tables.objects.lookup metadata.key).any fun row => row.metadata.provider = metadata.provider then
      CacheObjects.updateObject metadata
    else pure ()
  | .dropVersion handle => update fun s =>
      if (Worker.held s.worker).any fun held => held.handle == handle then s
      else { s with handles := s.handles.filter fun version => version.handle != handle }
  | .dropWindow handle => update fun s =>
      { s with windows := s.windows.filter fun window => window.handle != handle }
  | .begin => do let s ← state; workerBegin s.worker
  | .fetch => do let s ← state; workerFetch s.worker
  | .spill => do let s ← state; workerSpill s.worker
  | .report => do let s ← state; workerReport s.worker
  | .verify => do let s ← state; workerVerify s.worker
  | .cancel => do let s ← state; workerCancel s.worker
  | .publish => do let s ← state; workerPublish s.worker
  | .giveUp => do let s ← state; workerGiveUp s.worker
  | .rescan => update fun s => { s with scanCursor := 0 }

/-- The cache after an event, with what the environment answers to it.  A launch needs a stopped
cache and every other event a running one; a launch that fails leaves none running. -/
def perform (event : Event) (tape : List Chance) (s : Storage) : Storage :=
  match event with
  | .launch capacity =>
    if s.running then s
    else match Event.action (.launch capacity) { restart s with tape := tape } with
      | (.ok _, t) => { t with tape := [] }
      | (_, t) => restart t
  | event =>
    if s.running then
      match Event.action event { s with tape := tape } with
      | (.crash, t) => restart t
      | (_, t) => { t with tape := [] }
    else s

/-- A step of the cache: an event and the answers of the environment. -/
def Step (s : Storage) (label : Event × List Chance) (t : Storage) : Prop := t = perform label.1 label.2 s

end Qcm.CacheEvents
