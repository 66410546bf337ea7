import Qcm.Lib.Hash
import Qcm.Lib.Runs
import Qcm.ResourceFormat

/-!
Readers and downloads of the resource cache
(`backend/main/src/resource_cache/service.rs`), as steps between the points
where a task waits or takes a lock.

A download is an `Arc` shared by its task and its readers, and `downloads` holds
weak references to it.  What upstream serves under the validator of a version is
the representation of the version, so bytes are known by the range of it they
were cut from.  A block that storage reads back is in `stored`; the storage of a
version is that of `store.rs` and `segments.rs` seen from its callers: a write
stores the blocks that are absent, a window pins segments, and an eviction takes
away a segment that nobody pins.

Semaphores only delay a task.  What a `PreparedResource` says of its validity,
when a timer fires and what upstream answers is open.
-/

namespace Qcm.ResourceDownloads

open Lib ResourceFormat

def fetchBytes : Nat := 4 * 1024 * 1024
def outputBytes : Nat := 64 * 1024

/-- What downloads read of a `Version`.  None of it changes while somebody holds
a clone, which keeps the row of the version. -/
structure Version where
  id : Int
  provider : Int
  geometry : Geometry
  layout : Layout
  ranges : Bool
  /-- `policy.range_value().is_some()` -/
  validated : Bool

/-- The row of a version, and whether its lease is valid. -/
structure Row where
  version : Version
  obsolete : Nat := 0
  valid : Bool := true

/-- The messages of `DownloadFailure::Other`. -/
inductive Other where
  | providerInvalidated | resourceInvalidated | serviceStopped | lengthDisappeared | uncombinable
  | wrongRange | unresumable | unaligned | outOfBounds | truncated | oversized | transport | storage
  deriving DecidableEq

/-- Their texts; those of the transport and of the storage come from outside. -/
def Other.text : Other → Option String
  | .providerInvalidated => some "provider invalidated"
  | .resourceInvalidated => some "resource invalidated"
  | .serviceStopped => some "resource service stopped"
  | .lengthDisappeared => some "resource length disappeared"
  | .uncombinable => some "cannot combine unvalidated partial responses"
  | .wrongRange => some "upstream returned wrong range"
  | .unresumable => some "cannot resume unvalidated representation"
  | .unaligned => some "unaligned upstream range"
  | .outOfBounds => some "block out of bounds"
  | .truncated => some "truncated resource body"
  | .oversized => some "resource body exceeds declared range"
  | .transport | .storage => none

/-- `DownloadFailure`, without the headers of an upstream status. -/
inductive Failure where
  | changed
  | upstream (status : Nat)
  | other (message : Other)
  deriving DecidableEq

inductive Progress where
  | running | complete
  | failed (failure : Failure)
  deriving DecidableEq

/-- Where a task goes on after its batch was flushed. -/
inductive Resume where
  | top | taking
  | finish (result : Option Failure)

/-- Where the task of a download is in `fetch_blocks`. -/
inductive Phase where
  | unspawned | starting
  /-- The head of the loop, and its `select`. -/
  | top | waiting
  /-- Inside a chunk. -/
  | taking
  /-- The loop that makes room when the block is not to be stored. -/
  | finding | pruning (slowest : Nat) | crowded
  | placing
  | flushing (resume : Resume) | unloading (indexes : List Nat) (resume : Resume)
  | finishing (result : Option Failure)
  | deregistering | ended

def Resume.phase : Resume → Phase
  | .top => .top
  | .taking => .taking
  | .finish result => .finishing result

/-- `Download`, with the locals of its task. -/
structure Download where
  version : Version
  range : ByteRange
  /-- Whether the task was given the response it reads. -/
  carried : Bool
  cancelled : Bool := false
  blocks : Hash Nat ByteRange := ∅
  progress : Progress := .running
  /-- The positions it knows of, by their readers. -/
  readers : List Nat
  phase : Phase := .unspawned
  cursor : Nat
  buffered : Nat := 0
  /-- What is left of the chunk. -/
  pending : Nat := 0
  batch : List (Nat × ByteRange) := []
  persist : Bool := false
  windowEnd : Nat
  window : Option ByteRange := none

/-- Where a reader is in `respond` and in `block`. -/
inductive ReaderPhase where
  | entering | joining | idle
  | looking (index : Nat) | seeking (index : Nat) | spawning (index : Option Nat)
  | polling (index : Nat) | polled (index : Nat) (progress : Progress)
  | missed (index : Nat) (progress : Progress)

/-- `Reader`; its cursor and its `position` are one number. -/
structure Reader where
  version : Version
  position : Nat
  stop : Nat
  window : Nat
  sequential : Nat := 0
  pinned : ByteRange
  initial : Option Nat := none
  block : Option (Nat × ByteRange) := none
  cachedOnly : Bool := false
  phase : ReaderPhase := .entering

/-- The service.  Readers and downloads have numbers, the first of which not in
use is `issued`. -/
structure Service where
  rows : Hash Int Row := ∅
  stored : Hash (Int × Nat) ByteRange := ∅
  downloads : Hash Nat Download := ∅
  registry : Hash (Int × Nat × Nat) Nat := ∅
  readers : Hash Nat Reader := ∅
  issued : Nat := 0
  stopping : Bool := false

/-! ## The task of a download -/

/-- A response to the request of a download: its status, what `response_geometry`
makes of its headers, whether its final URL, its encoding and its validator are
those of the version, and whether its policy lets it be stored. -/
structure Response where
  status : Nat
  declared : Option (Nat × ByteRange)
  sameTarget : Bool
  identity : Bool
  matchesRange : Bool
  cacheable : Bool

/-- The checks of `fetch_blocks` on the response it asked for: whether the
version is retired, and the failure. -/
def refusal (version : Version) (range : ByteRange) (response : Response) : Option (Bool × Failure) :=
  if response.status ≠ 200 ∧ response.status ≠ 206 then some (true, .upstream response.status)
  else match response.declared with
  | none => some (false, .other .lengthDisappeared)
  | some (length, actual) =>
    if length ≠ version.geometry.length ∨ response.sameTarget = false then some (true, .changed)
    else if response.identity = false then some (true, .changed)
    else if version.validated ∧ response.matchesRange = false then some (true, .changed)
    else if version.validated = false ∧ response.status ≠ 200 then some (false, .other .uncombinable)
    else if response.status = 206 then
      if actual = range then none else some (false, .other .wrongRange)
    else if range = actual then none
    else if version.validated = false then some (false, .other .unresumable)
    else some (true, .changed)

namespace Download

/-- The start of the loop. -/
def begin (download : Download) (cacheable : Bool) : Download :=
  { download with persist := cacheable, phase := .top }

/-- The end of the loop: the window is dropped, and what is left of the batch is
flushed. -/
def leave (download : Download) (result : Option Failure) : Download :=
  { download with
    window := none
    phase := if download.batch = [] then .finishing result else .flushing (.finish result) }

/-- The window of the bytes that are read next. -/
def openWindow (download : Download) : Download :=
  let windowEnd := min download.range.stop (download.cursor + fetchBytes)
  { download with windowEnd := windowEnd, window := some ⟨download.cursor, windowEnd⟩ }

/-- Blocks that the slowest reader has passed are dropped, and the next is placed
when there is room. -/
def prune (download : Download) (slowest : Nat) : Download :=
  let blocks := Hash.filter
    (fun index _ => decide (slowest < (index + 1) * download.version.geometry.block)) download.blocks
  let held := ((Hash.values blocks).map ByteRange.length).sum
  { download with
    blocks := blocks
    phase := if held + download.buffered ≤ fetchBytes then .placing else .crowded }

/-- A whole block is put into the map, and into the batch when it is to be stored. -/
def place (download : Download) (block : ByteRange) : Download :=
  let index := download.cursor / download.version.geometry.block
  let bytes : ByteRange := ⟨download.cursor, download.cursor + download.buffered⟩
  let batch := if download.persist then download.batch ++ [(index, bytes)] else download.batch
  let full := 1024 * 1024 ≤ (batch.map fun entry => entry.2.length).sum ∨
    block.stop = download.range.stop
  { download with
    blocks := download.blocks.insert index bytes
    progress := .running
    cursor := block.stop
    buffered := 0
    batch := batch
    phase := if download.persist ∧ full then .flushing .taking else .taking }

/-- After a write that succeeded, its blocks leave the map. -/
def unload (download : Download) (indexes : List Nat) (resume : Resume) : Download :=
  { download with
    blocks := Hash.filter (fun index _ => decide (index ∉ indexes)) download.blocks
    progress := .running
    persist := true
    phase := resume.phase }

/-- The result becomes the progress. -/
def finish (download : Download) (result : Option Failure) : Download :=
  { download with
    progress := match result with
      | none => .complete
      | some failure => .failed failure
    phase := .deregistering }

end Download

/-- What a step of a task does to the storage. -/
inductive Effect where
  | none | retire | failure
  | store (blocks : List (Nat × ByteRange))

/-- The steps of a task, given the positions of the readers that are still there,
whether the service stops and the level at which the version is obsolete. -/
inductive TaskStep (positions : List Nat) (stopping : Bool) (obsolete : Nat) :
    Download → Effect → Download → Prop where
  -- until the body is read
  | began {d : Download} (at_start : d.phase = .starting) (carried : d.carried = true)
      (going : d.cancelled = false) :
      TaskStep positions stopping obsolete d .none (d.begin true)
  | accepted {d : Download} {response : Response} (at_start : d.phase = .starting)
      (asked : d.carried = false) (fine : refusal d.version d.range response = none) :
      TaskStep positions stopping obsolete d (if response.cacheable then .none else .retire)
        (d.begin response.cacheable)
  | refused {d : Download} {response : Response} {retire : Bool} {failure : Failure}
      (at_start : d.phase = .starting) (asked : d.carried = false)
      (wrong : refusal d.version d.range response = some (retire, failure)) :
      TaskStep positions stopping obsolete d (if retire then .retire else .none)
        { d with phase := .finishing (some failure) }
  | unanswered {d : Download} (at_start : d.phase = .starting) (asked : d.carried = false) :
      TaskStep positions stopping obsolete d .none
        { d with phase := .finishing (some (.other .transport)) }
  | startCancelled {d : Download} (at_start : d.phase = .starting) (cancelled : d.cancelled = true) :
      TaskStep positions stopping obsolete d .none
        { d with phase := .finishing (some (.other .providerInvalidated)) }
  | startStopped {d : Download} (at_start : d.phase = .starting) (stopped : stopping = true) :
      TaskStep positions stopping obsolete d .none
        { d with phase := .finishing (some (.other .serviceStopped)) }
  | startFailed {d : Download} (at_start : d.phase = .starting) :
      TaskStep positions stopping obsolete d .failure
        { d with phase := .finishing (some (.other .storage)) }
  -- the loop
  | invalid {d : Download} (at_top : d.phase = .top) :
      TaskStep positions stopping obsolete d .none (d.leave (some (.other .providerInvalidated)))
  | deserted {d : Download} (at_top : d.phase = .top) (alone : positions = []) :
      TaskStep positions stopping obsolete d .none (d.leave none)
  | attended {d : Download} (at_top : d.phase = .top) (read : positions ≠ []) :
      TaskStep positions stopping obsolete d .none { d with phase := .waiting }
  | chunk {d : Download} {length : Nat} (at_select : d.phase = .waiting)
      (fits : d.cursor + d.buffered + length ≤ d.range.stop) :
      TaskStep positions stopping obsolete d .none { d with pending := length, phase := .taking }
  | oversized {d : Download} (at_select : d.phase = .waiting) :
      TaskStep positions stopping obsolete d .none (d.leave (some (.other .oversized)))
  | whole {d : Download} (at_select : d.phase = .waiting) (read : d.cursor = d.range.stop)
      (rest : d.buffered = 0) : TaskStep positions stopping obsolete d .none (d.leave none)
  | truncated {d : Download} (at_select : d.phase = .waiting)
      (short : ¬ (d.cursor = d.range.stop ∧ d.buffered = 0)) :
      TaskStep positions stopping obsolete d .none (d.leave (some (.other .truncated)))
  | broken {d : Download} (at_select : d.phase = .waiting) :
      TaskStep positions stopping obsolete d .none (d.leave (some (.other .transport)))
  | interrupted {d : Download} (at_select : d.phase = .waiting ∨ d.phase = .crowded)
      (stopped : stopping = true) :
      TaskStep positions stopping obsolete d .none (d.leave (some (.other .serviceStopped)))
  | cancelled {d : Download} (at_select : d.phase = .waiting ∨ d.phase = .crowded)
      (cancelled : d.cancelled = true) :
      TaskStep positions stopping obsolete d .none (d.leave (some (.other .providerInvalidated)))
  | invalidated {d : Download} (at_select : d.phase = .waiting) :
      TaskStep positions stopping obsolete d .none (d.leave (some (.other .resourceInvalidated)))
  | woken {d : Download} (at_select : d.phase = .waiting) :
      TaskStep positions stopping obsolete d .none { d with phase := .top }
  | timer {d : Download} (at_select : d.phase = .waiting) (some : d.batch ≠ []) :
      TaskStep positions stopping obsolete d .none { d with phase := .flushing .top }
  -- a chunk
  | emptied {d : Download} (in_chunk : d.phase = .taking) (used : d.pending = 0) :
      TaskStep positions stopping obsolete d .none { d with phase := .top }
  | windowed {d : Download} (in_chunk : d.phase = .taking) (left : 0 < d.pending)
      (passed : d.windowEnd ≤ d.cursor) (active : obsolete ≠ 2) :
      TaskStep positions stopping obsolete d .none d.openWindow
  | windowRefused {d : Download} (in_chunk : d.phase = .taking) (left : 0 < d.pending)
      (passed : d.windowEnd ≤ d.cursor) (inactive : obsolete = 2) :
      TaskStep positions stopping obsolete d .none (d.leave (some (.other .providerInvalidated)))
  | windowFailed {d : Download} (in_chunk : d.phase = .taking) (left : 0 < d.pending)
      (passed : d.windowEnd ≤ d.cursor) :
      TaskStep positions stopping obsolete d .failure (d.leave (some (.other .storage)))
  | outside {d : Download} (in_chunk : d.phase = .taking) (left : 0 < d.pending)
      (inside : d.cursor < d.windowEnd)
      (bounds : d.version.geometry.range (d.cursor / d.version.geometry.block) = none) :
      TaskStep positions stopping obsolete d .none (d.leave (some (.other .outOfBounds)))
  | unaligned {d : Download} {block : ByteRange} (in_chunk : d.phase = .taking)
      (left : 0 < d.pending) (inside : d.cursor < d.windowEnd)
      (bounds : d.version.geometry.range (d.cursor / d.version.geometry.block) = some block)
      (between : d.cursor ≠ block.start) :
      TaskStep positions stopping obsolete d .none (d.leave (some (.other .unaligned)))
  | partly {d : Download} {block : ByteRange} (in_chunk : d.phase = .taking)
      (left : 0 < d.pending) (inside : d.cursor < d.windowEnd)
      (bounds : d.version.geometry.range (d.cursor / d.version.geometry.block) = some block)
      (start : d.cursor = block.start) (short : d.buffered + d.pending < block.length) :
      TaskStep positions stopping obsolete d .none
        { d with buffered := d.buffered + d.pending, pending := 0 }
  | filled {d : Download} {block : ByteRange} (in_chunk : d.phase = .taking)
      (left : 0 < d.pending) (inside : d.cursor < d.windowEnd)
      (bounds : d.version.geometry.range (d.cursor / d.version.geometry.block) = some block)
      (start : d.cursor = block.start) (enough : block.length ≤ d.buffered + d.pending) :
      TaskStep positions stopping obsolete d .none
        { d with
          buffered := block.length
          pending := d.pending - (block.length - d.buffered)
          phase := if d.persist then .placing else .finding }
  -- room for a block that is not stored
  | unread {d : Download} (in_room : d.phase = .finding) (alone : positions = []) :
      TaskStep positions stopping obsolete d .none (d.leave none)
  | measured {d : Download} {slowest : Nat} (in_room : d.phase = .finding)
      (least : positions.min? = some slowest) :
      TaskStep positions stopping obsolete d .none { d with phase := .pruning slowest }
  | pruned {d : Download} {slowest : Nat} (in_room : d.phase = .pruning slowest) :
      TaskStep positions stopping obsolete d .none (d.prune slowest)
  | retried {d : Download} (in_room : d.phase = .crowded) :
      TaskStep positions stopping obsolete d .none { d with phase := .finding }
  | placed {d : Download} {block : ByteRange} (in_chunk : d.phase = .placing)
      (bounds : d.version.geometry.range (d.cursor / d.version.geometry.block) = some block) :
      TaskStep positions stopping obsolete d .none (d.place block)
  -- `flush_batch`
  | flushed {d : Download} {resume : Resume} (in_flush : d.phase = .flushing resume) :
      TaskStep positions stopping obsolete d (.store d.batch)
        { d with batch := [], phase := .unloading (d.batch.map Prod.fst) resume }
  | unflushed {d : Download} {resume : Resume} {part : List (Nat × ByteRange)}
      (in_flush : d.phase = .flushing resume) (some : part ⊆ d.batch) :
      TaskStep positions stopping obsolete d (.store part)
        { d with batch := [], persist := false, phase := resume.phase }
  | unloaded {d : Download} {indexes : List Nat} {resume : Resume}
      (in_flush : d.phase = .unloading indexes resume) :
      TaskStep positions stopping obsolete d .none (d.unload indexes resume)
  -- the end
  | settled {d : Download} {result : Option Failure} (halted : d.phase = .finishing result) :
      TaskStep positions stopping obsolete d .none (d.finish result)
  | aborted {d : Download} (stopped : stopping = true) (spawned : d.phase ≠ .unspawned) :
      TaskStep positions stopping obsolete d .none { d with phase := .ended, window := none }

inductive Answer where
  | bytes (range : ByteRange)
  | failed (failure : Failure)
  /-- `download did not produce requested block` -/
  | unproduced
  /-- `cached block unavailable` -/
  | unavailable
  /-- `resource reader closed` -/
  | closed
  deriving DecidableEq

/-- What a reader sees of the service. -/
structure ReaderView where
  stored : Nat → Option ByteRange
  obsolete : Nat
  stopping : Bool
  download : Option Download

namespace Reader

def index (reader : Reader) : Nat := reader.position / reader.version.geometry.block

/-- The reader turns to the block of its cursor.  The first block is asked for
under the window the reader was opened with. -/
def ask (reader : Reader) (download : Option Download) : Reader :=
  let start := reader.index * reader.version.geometry.block
  let next := { reader with
    initial := if download.any (·.range.contains reader.position) then reader.initial else none
    phase := .looking reader.index }
  if reader.block = none ∧ reader.cachedOnly = false then next
  else
    let consecutive := reader.block.any fun block => block.1 + 1 = reader.index
    let sequential := if consecutive then reader.sequential + 1 else reader.sequential
    let grows := consecutive ∧ 4 ≤ sequential
    { next with
      pinned := ⟨start, min reader.stop (start + reader.window)⟩
      window := if grows then min (reader.window * 2) fetchBytes else reader.window
      sequential := if grows then 0 else sequential }

/-- A block was found. -/
def receive (reader : Reader) (index : Nat) (bytes : ByteRange) : Reader :=
  { reader with
    block := some (index, bytes)
    initial := if reader.cachedOnly then none else reader.initial
    phase := .idle }

/-- The length of the next frame cut from the block. -/
def frame (reader : Reader) (bytes : ByteRange) : Nat :=
  min (min outputBytes (bytes.length - reader.position % reader.version.geometry.block))
    (reader.stop - reader.position)

end Reader

/-- The steps of a reader between `download` and `download`: it answers, or goes on. -/
inductive ReaderStep (view : ReaderView) :
    Reader → Option (Nat × Answer) → Option Reader → Prop where
  | asked {r : Reader} (idle : r.phase = .idle) (more : r.position < r.stop)
      (other : r.block.map Prod.fst ≠ some r.index) : ReaderStep view r none (some (r.ask view.download))
  | closed {r : Reader} (idle : r.phase = .idle) (body : r.block ≠ none ∨ r.cachedOnly = true) :
      ReaderStep view r (some (r.index, .closed)) none
  | emitted {r : Reader} {index : Nat} {bytes : ByteRange} (idle : r.phase = .idle)
      (more : r.position < r.stop) (block : r.block = some (index, bytes)) (here : index = r.index) :
      ReaderStep view r none (some { r with position := r.position + r.frame bytes })
  -- `Store::read`, at first and after the map of the download was looked at
  | inactive {r : Reader} {index : Nat}
      (reading : r.phase = .looking index ∨ ∃ progress, r.phase = .missed index progress)
      (obsolete : view.obsolete = 2) :
      ReaderStep view r (some (index, .failed (.other .providerInvalidated))) none
  | found {r : Reader} {index : Nat} {bytes : ByteRange}
      (reading : r.phase = .looking index ∨ ∃ progress, r.phase = .missed index progress)
      (active : view.obsolete ≠ 2) (stored : view.stored index = some bytes) :
      ReaderStep view r (some (index, .bytes bytes)) (some (r.receive index bytes))
  | unavailable {r : Reader} {index : Nat} (reading : r.phase = .looking index)
      (active : view.obsolete ≠ 2) (absent : view.stored index = none)
      (cached : r.cachedOnly = true) : ReaderStep view r (some (index, .unavailable)) none
  | absent {r : Reader} {index : Nat} (reading : r.phase = .looking index)
      (active : view.obsolete ≠ 2) (absent : view.stored index = none)
      (uncached : r.cachedOnly = false) :
      ReaderStep view r none
        (some { r with phase := if r.initial.isSome then .polling index else .seeking index })
  -- the loop over the progress of the download
  | stopped {r : Reader} {index : Nat} (polling : r.phase = .polling index)
      (stopping : view.stopping = true) :
      ReaderStep view r (some (index, .failed (.other .serviceStopped))) none
  | polled {r : Reader} {index : Nat} {download : Download} (polling : r.phase = .polling index)
      (going : view.stopping = false) (attached : view.download = some download) :
      ReaderStep view r none (some { r with phase := .polled index download.progress })
  | taken {r : Reader} {index : Nat} {progress : Progress} {download : Download} {bytes : ByteRange}
      (polled : r.phase = .polled index progress) (attached : view.download = some download)
      (there : download.blocks.lookup index = some bytes) :
      ReaderStep view r (some (index, .bytes bytes)) (some (r.receive index bytes))
  | untaken {r : Reader} {index : Nat} {progress : Progress} {download : Download}
      (polled : r.phase = .polled index progress) (attached : view.download = some download)
      (gone : download.blocks.lookup index = none) :
      ReaderStep view r none (some { r with phase := .missed index progress })
  | waited {r : Reader} {index : Nat} (missed : r.phase = .missed index .running)
      (active : view.obsolete ≠ 2) (absent : view.stored index = none) :
      ReaderStep view r none (some { r with phase := .polling index })
  | failed {r : Reader} {index : Nat} {failure : Failure}
      (missed : r.phase = .missed index (.failed failure)) (active : view.obsolete ≠ 2)
      (absent : view.stored index = none) : ReaderStep view r (some (index, .failed failure)) none
  | unproduced {r : Reader} {index : Nat} (missed : r.phase = .missed index .complete)
      (active : view.obsolete ≠ 2) (absent : view.stored index = none) :
      ReaderStep view r (some (index, .unproduced)) none

/-! ## The service -/

def Phase.isEnded : Phase → Bool
  | .ended => true
  | _ => false

/-- A download as it is registered. -/
def Download.register (version : Version) (range : ByteRange) (carried : Bool) (reader : Nat) :
    Download where
  version := version
  range := range
  carried := carried
  readers := [reader]
  cursor := range.start
  windowEnd := range.start

def Download.key (download : Download) : Int × Nat × Nat :=
  (download.version.id, download.range.start, download.range.stop)

/-- A reader as `respond` makes it. -/
def Reader.enter (version : Version) (start stop : Nat) (cachedOnly : Bool) : Reader where
  version := version
  position := start
  stop := stop
  window := if start = 0 then fetchBytes else maxBlock
  pinned := ⟨start, min stop (start + fetchBytes)⟩
  cachedOnly := cachedOnly

/-- The segments a window pins. -/
def pins (window : ByteRange) (size number : Nat) : Bool :=
  decide (window.start / size ≤ number ∧ number < divCeil window.stop size)

/-- The blocks of a segment. -/
def segmentBlocks (geometry : Geometry) (size number : Nat) : List Nat :=
  let first := number * size / geometry.block
  List.range' first
    (divCeil (min ((number + 1) * size) geometry.length) geometry.block - first)

namespace Service

variable (s : Service)

/-- The positions a download knows of whose readers are still there. -/
def positions (download : Download) : List Nat :=
  download.readers.filterMap fun r => (s.readers.lookup r).map Reader.position

/-- Whether a weak reference to a download can be upgraded. -/
def alive (d : Nat) : Bool :=
  (s.downloads.lookup d).any (fun download => !download.phase.isEnded) ||
    Hash.any (fun _ reader => decide (reader.initial = some d)) s.readers

/-- A download of the version that `downloads` knows and whose range contains
the position. -/
def Offers (version : Int) (position d : Nat) : Prop :=
  ∃ key download, s.registry.lookup key = some d ∧ key.1 = version ∧
    s.downloads.lookup d = some download ∧ s.alive d = true ∧
    download.range.contains position = true

/-- `downloads.retain` -/
def sweep : Hash (Int × Nat × Nat) Nat := Hash.filter (fun _ d => s.alive d) s.registry

/-- `missing_range`: the range up to the next block that is stored. -/
def missing (version : Version) (range : ByteRange) : ByteRange :=
  let block := version.geometry.block
  let first := range.start / block + 1
  let next := (List.range' first (divCeil range.stop block - first)).find? fun index =>
    (s.stored.lookup (version.id, index)).isSome
  { range with
    stop := match next with
      | none => range.stop
      | some index => index * block }

/-- The starts of the other downloads of the version. -/
def starts (version : Int) : List Nat :=
  s.registry.entries.filterMap fun entry =>
    if entry.1.1 = version ∧ s.alive entry.2 = true then
      (s.downloads.lookup entry.2).map fun download => download.range.start
    else none

/-- The range up to the next download. -/
def clip (version : Int) (range : ByteRange) : ByteRange :=
  let inside := (s.starts version).filter fun start =>
    decide (range.start < start ∧ start < range.stop)
  { range with stop := inside.min?.getD range.stop }

/-- The range of the download for a block. -/
def fetchRange (reader : Reader) (index : Nat) : ByteRange :=
  let start := index * reader.version.geometry.block
  let length := reader.version.geometry.length
  if reader.version.ranges then
    s.clip reader.version.id
      (s.missing reader.version ⟨start, min (start + reader.window) length⟩)
  else ⟨0, length⟩

def obsolete (version : Int) : Nat := (s.rows.lookup version).elim 2 Row.obsolete

def view (reader : Reader) : ReaderView where
  stored index := s.stored.lookup (reader.version.id, index)
  obsolete := s.obsolete reader.version.id
  stopping := s.stopping
  download := reader.initial.bind fun d => s.downloads.lookup d

def putReader (r : Nat) : Option Reader → Service
  | none => { s with readers := s.readers.erase r }
  | some reader => { s with readers := s.readers.insert r reader }

def putDownload (d : Nat) (download : Download) : Service :=
  { s with downloads := s.downloads.insert d download }

/-- A new version, and the number of its first reader. -/
def create (version : Version) : Service :=
  { s with rows := s.rows.insert version.id ⟨version, 0, true⟩, issued := s.issued + 1 }

def retire (version : Int) : Service :=
  match s.rows.lookup version with
  | none => s
  | some row => { s with rows := s.rows.insert version { row with obsolete := 1 } }

/-- A write: the blocks that are absent are stored. -/
def write (version : Int) (blocks : List (Nat × ByteRange)) : Service :=
  { s with
    stored := blocks.foldl
      (fun stored block =>
        if (stored.lookup (version, block.1)).isSome then stored
        else stored.insert (version, block.1) block.2)
      s.stored }

def perform (version : Int) : Effect → Service
  | .none | .failure => s
  | .retire => s.retire version
  | .store blocks => s.write version blocks

/-- A new download, for a reader that waits for its task. -/
def start (r : Nat) (reader : Reader) (download : Download) : Service :=
  let next := (s.putDownload s.issued download).putReader r
    (some { reader with initial := some s.issued })
  { next with registry := s.sweep.insert download.key s.issued, issued := s.issued + 1 }

/-- A reader is put on the list of a download. -/
def attach (r : Nat) (reader : Reader) (d : Nat) (download : Download) (phase : ReaderPhase) :
    Service :=
  (s.putDownload d { download with readers := download.readers ++ [r] }).putReader r
    (some { reader with initial := some d, phase := phase })

/-- Blocks that are no longer stored. -/
def lose (version : Int) (blocks : List Nat) : Service :=
  { s with
    stored := Hash.filter (fun key _ => decide (¬ (key.1 = version ∧ key.2 ∈ blocks))) s.stored }

/-- `invalidate`, on a download if it is registered. -/
def cancelDownload (provider : Int) (d : Nat) (download : Download) : Download :=
  if download.version.provider = provider ∧
      Hash.any (fun _ known => decide (known = d)) s.registry = true then
    { download with cancelled := true, progress := .failed (.other .providerInvalidated) }
  else download

def cancel (provider : Int) : Service :=
  { s with downloads := Hash.map (s.cancelDownload provider) s.downloads }

/-- `Storage::invalidate` -/
def invalidate (provider : Int) : Service :=
  { s with
    rows := Hash.map
      (fun _ row =>
        if row.version.provider = provider then { row with obsolete := 2, valid := false } else row)
      s.rows }

/-- Somebody holds a clone of the version. -/
def holds (version : Int) : Bool :=
  Hash.any (fun _ reader => decide (reader.version.id = version)) s.readers ||
    Hash.any (fun _ download => decide (download.version.id = version) && !download.phase.isEnded)
      s.downloads

/-- Somebody has a window over a segment. -/
def pinned (version : Int) (size number : Nat) : Bool :=
  Hash.any (fun _ reader => decide (reader.version.id = version) && pins reader.pinned size number)
      s.readers ||
    Hash.any
      (fun _ download => decide (download.version.id = version) &&
        download.window.any fun window => pins window size number)
      s.downloads

end Service

/-- What is to be seen of a step. -/
inductive Event where
  | quiet
  /-- A reader is put on the list of a download it did not start. -/
  | attach (r d : Nat)
  /-- Blocks go from the storage. -/
  | lose (version : Int) (blocks : List Nat)
  | answer (r index : Nat) (answer : Answer)
  /-- A new version, whose first response covers a range. -/
  | respond (version : Version) (range : ByteRange)
  /-- A call to the storage fails. -/
  | failure

def Effect.event : Effect → Event
  | .failure => .failure
  | _ => .quiet

/-- The steps of the service. -/
inductive Step : Service → Event → Service → Prop where
  -- `respond`
  | opened {s : Service} {row : Row} {start stop : Nat} {cachedOnly : Bool}
      (known : s.rows.lookup row.version.id = some row) (current : row.obsolete = 0)
      (order : start ≤ stop) (inside : stop ≤ row.version.geometry.length)
      (covered : cachedOnly = true → ∀ index, start / row.version.geometry.block ≤ index →
        index < divCeil stop row.version.geometry.block →
        (s.stored.lookup (row.version.id, index)).isSome) :
      Step s .quiet
        ({ s with issued := s.issued + 1 }.putReader s.issued
          (some (.enter row.version start stop cachedOnly)))
  | found {s : Service} {r d : Nat} {reader : Reader} (there : s.readers.lookup r = some reader)
      (entering : reader.phase = .entering)
      (offered : s.Offers reader.version.id reader.position d) :
      Step s .quiet (s.putReader r (some { reader with initial := some d, phase := .joining }))
  | alone {s : Service} {r : Nat} {reader : Reader} (there : s.readers.lookup r = some reader)
      (entering : reader.phase = .entering)
      (none : ∀ d, ¬ s.Offers reader.version.id reader.position d) :
      Step s .quiet (s.putReader r (some { reader with phase := .idle }))
  | pushed {s : Service} {r d : Nat} {reader : Reader} {download : Download}
      (there : s.readers.lookup r = some reader) (joining : reader.phase = .joining)
      (initial : reader.initial = some d) (known : s.downloads.lookup d = some download) :
      Step s (.attach r d) (s.attach r reader d download .idle)
  -- `respond`, for a response that makes a new version
  | created {s : Service} {version : Version} {range : ByteRange} {start stop : Nat}
      (fresh : version.id ∉ s.rows) (order : start ≤ stop)
      (inside : stop ≤ version.geometry.length)
      (partly : version.ranges = true →
        range.start < range.stop ∧ range.stop ≤ version.geometry.length)
      (whole : version.ranges = false → range = ⟨0, version.geometry.length⟩)
      (covers : range.contains start = true) :
      Step s (.respond version range)
        ((s.create version).start s.issued
          { Reader.enter version start stop false with phase := .spawning none }
          (.register version range true s.issued))
  | createdApart {s : Service} {version : Version} {range : ByteRange} {start stop : Nat}
      (fresh : version.id ∉ s.rows) (order : start ≤ stop)
      (inside : stop ≤ version.geometry.length) (apart : range.contains start = false) :
      Step s (.respond version range)
        ((s.create version).putReader s.issued
          (some { Reader.enter version start stop false with phase := .idle }))
  -- `block`, where the reader has no download
  | unvalidated {s : Service} {r index : Nat} {reader : Reader}
      (there : s.readers.lookup r = some reader) (seeking : reader.phase = .seeking index)
      (bare : reader.version.validated = false) :
      Step s (.answer r index (.failed .changed))
        ((s.retire reader.version.id).putReader r none)
  | joined {s : Service} {r index d : Nat} {reader : Reader} {download : Download}
      (there : s.readers.lookup r = some reader) (seeking : reader.phase = .seeking index)
      (validated : reader.version.validated = true)
      (offered : s.Offers reader.version.id reader.position d)
      (known : s.downloads.lookup d = some download) :
      Step s (.attach r d)
        ({ s with registry := s.sweep }.attach r reader d download (.polling index))
  | fetched {s : Service} {r index : Nat} {reader : Reader}
      (there : s.readers.lookup r = some reader) (seeking : reader.phase = .seeking index)
      (validated : reader.version.validated = true)
      (none : ∀ d, ¬ s.Offers reader.version.id reader.position d) :
      Step s .quiet
        (s.start r { reader with phase := .spawning (some index) }
          (.register reader.version (s.fetchRange reader index) false r))
  -- `download`, once the lock of `downloads` is released
  | spawned {s : Service} {r d : Nat} {index : Option Nat} {reader : Reader} {download : Download}
      (there : s.readers.lookup r = some reader) (spawning : reader.phase = .spawning index)
      (initial : reader.initial = some d) (known : s.downloads.lookup d = some download)
      (unspawned : download.phase = .unspawned) (going : s.stopping = false) :
      Step s .quiet
        ((s.putDownload d { download with phase := .starting }).putReader r
          (some { reader with phase := index.elim .idle .polling }))
  | refused {s : Service} {r d : Nat} {index : Option Nat} {reader : Reader} {download : Download}
      (there : s.readers.lookup r = some reader) (spawning : reader.phase = .spawning index)
      (initial : reader.initial = some d) (known : s.downloads.lookup d = some download)
      (unspawned : download.phase = .unspawned) (stopping : s.stopping = true) :
      Step s (.answer r reader.index (.failed (.other .serviceStopped)))
        ((s.putDownload d
          { download with
            progress := .failed (.other .serviceStopped)
            phase := .ended }).putReader r none)
  -- the reader between two downloads
  | answered {s : Service} {r index : Nat} {reader : Reader} {answer : Answer} {next : Option Reader}
      (there : s.readers.lookup r = some reader)
      (stepped : ReaderStep (s.view reader) reader (some (index, answer)) next) :
      Step s (.answer r index answer) (s.putReader r next)
  | moved {s : Service} {r : Nat} {reader : Reader} {next : Option Reader}
      (there : s.readers.lookup r = some reader)
      (stepped : ReaderStep (s.view reader) reader none next) : Step s .quiet (s.putReader r next)
  | readerFailed {s : Service} {r : Nat} {reader : Reader}
      (there : s.readers.lookup r = some reader) (spawned : ∀ index, reader.phase ≠ .spawning index) :
      Step s .failure (s.putReader r none)
  | dropped {s : Service} {r : Nat} {reader : Reader}
      (there : s.readers.lookup r = some reader) (spawned : ∀ index, reader.phase ≠ .spawning index) :
      Step s .quiet (s.putReader r none)
  | droppedEarly {s : Service} {r d : Nat} {index : Option Nat} {reader : Reader}
      {download : Download} (there : s.readers.lookup r = some reader)
      (spawning : reader.phase = .spawning index) (initial : reader.initial = some d)
      (known : s.downloads.lookup d = some download) (unspawned : download.phase = .unspawned) :
      Step s .quiet ((s.putDownload d { download with phase := .ended }).putReader r none)
  -- the task
  | task {s : Service} {d : Nat} {download next : Download} {effect : Effect}
      (known : s.downloads.lookup d = some download)
      (stepped : TaskStep (s.positions download) s.stopping (s.obsolete download.version.id)
        download effect next) :
      Step s effect.event ((s.putDownload d next).perform download.version.id effect)
  | deregistered {s : Service} {d : Nat} {download : Download}
      (known : s.downloads.lookup d = some download) (halted : download.phase = .deregistering) :
      Step s .quiet
        { s.putDownload d { download with phase := .ended } with
          registry := s.registry.erase download.key }
  -- the rest of the service and of the storage
  | cancelled {s : Service} {provider : Int} : Step s .quiet (s.cancel provider)
  | invalidated {s : Service} {provider : Int} : Step s .quiet (s.invalidate provider)
  | retired {s : Service} {version : Int} : Step s .quiet (s.retire version)
  | stopped {s : Service} : Step s .quiet { s with stopping := true }
  | evicted {s : Service} {row : Row} {size number : Nat}
      (known : s.rows.lookup row.version.id = some row)
      (segmented : row.version.layout.segmentBytes = some size)
      (free : s.pinned row.version.id size number = false) :
      Step s (.lose row.version.id (segmentBlocks row.version.geometry size number))
        (s.lose row.version.id (segmentBlocks row.version.geometry size number))
  | damaged {s : Service} {version : Int} {index : Nat} :
      Step s (.lose version [index]) (s.lose version [index])
  | deleted {s : Service} {version : Int} (free : s.holds version = false) :
      Step s .quiet
        { s with
          rows := s.rows.erase version
          stored := Hash.filter (fun key _ => decide (key.1 ≠ version)) s.stored }

/-- The service before its first request: some versions are stored. -/
structure Fresh (s : Service) : Prop where
  downloads : s.downloads = ∅
  registry : s.registry = ∅
  readers : s.readers = ∅
  rows : ∀ id row, s.rows.lookup id = some row → row.version.id = id
  stored : ∀ id index bytes, s.stored.lookup (id, index) = some bytes →
    ∃ row, s.rows.lookup id = some row ∧ row.version.geometry.range index = some bytes

end Qcm.ResourceDownloads
