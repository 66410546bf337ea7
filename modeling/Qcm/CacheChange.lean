import Qcm.CacheSound

/-!
Every change that the storage, its callers and the file worker make to the
cache on behalf of an event, each with what the code knows when it makes it.
An operation is a run of these changes, cut at any point when the process dies.
-/

namespace Qcm.CacheChange

open Lib ResourceFormat CacheState CacheDisk CacheLoad CacheStore CacheObjects
  CacheFiles CacheEvents CacheRules CacheSettle CachePurge CacheSound

/-- No restriction on which segments are condemned. -/
def Any (_ : Storage) (_ _ : Nat) : Prop := True

/-- No version has this generation. -/
def Novel (generation : String) (rows : Hash Nat VersionRow) : Prop :=
  ∀ id row, rows.lookup id = some row → row.generation ≠ generation

def Ready (files : Hash Nat CompleteRow) (id : Nat) : Prop := (files.lookup id).any CompleteRow.ready = true

/-- A file left by a conversion that was not published, while no conversion is under way. -/
def Unpublished (s : Storage) (name : FileName) : Prop :=
  (s.building = none ∨ s.worker = .idle) ∧ ∃ id row, s.tables.versions.lookup id = some row ∧
    ¬ Ready s.tables.completeFiles id ∧ name ∈ unpublished row.generation

/-- What removing such files does. -/
inductive Clear : Storage → Storage → Prop where
  | tick {s t : Storage} (tick : Tick s t) : Clear s t
  | discard {s t : Storage} (discard : Discard Unpublished s t) : Clear s t

/-- The data file of a version that has a published file. -/
def Superseded (s : Storage) (name : FileName) : Prop :=
  ∃ id row, s.tables.versions.lookup id = some row ∧ Ready s.tables.completeFiles id ∧ name = .data row.generation

/-- What the rows of versions, leases and segments need a file for. -/
inductive Needed (tables : Tables) : FileName → Prop where
  | own {id : Nat} {row : VersionRow} (stored : tables.versions.lookup id = some row)
      (valid : validGeneration row.metadata.generation = true) (layout : row.metadata.layout = .blocks) :
      Needed tables (if (tables.completeFiles.lookup id).any CompleteRow.ready then .ok row.metadata.generation
        else .data row.metadata.generation)
  | leased {token : Token} {lease : LeaseRow} {row : VersionRow} (granted : tables.fileLeases.lookup token = some lease)
      (stored : tables.versions.lookup lease.version = some row) (valid : validGeneration row.generation = true) :
      Needed tables (.ok row.generation)
  | segment {id number : Nat} {row : SegmentRow} {version : VersionRow}
      (listed : tables.segments.lookup (id, number) = some row) (stored : tables.versions.lookup id = some version)
      (valid : validGeneration version.metadata.generation = true) (layout : version.metadata.layout ≠ .blocks) :
      Needed tables (.segment version.metadata.generation number row.token)

/-- A file of a segment. -/
def Stray (_ : Storage) (name : FileName) : Prop := ∃ generation number token, name = .segment generation number token

/-- What a write puts into a segmented index: entries of blocks in segments it has written. -/
structure Grown (before after : Index) (size : Nat) (written : List Segment) : Prop where
  revises : Revises before after
  entries : ∀ block ∈ after.dirty, ∃ entry, after.get block = some entry ∧ block < before.geometry.count ∧
    entry.slot = block % (size / before.geometry.block) ∧
    ∃ segment ∈ written, segment.number = segmentOf before.geometry size block

/-- What a launch sets; the capacity is the one it is asked for. -/
inductive Configure (event : Event) : Storage → Storage → Prop where
  | configure (s : Storage) (capacity clock started : Nat) (uncertain running : Bool) (grace : Option Nat)
      (asked : capacity = s.capacity ∨ event = .launch capacity) :
      Configure event s { s with
        capacity := capacity
        clock := clock
        started := started
        clockUncertain := uncertain
        running := running
        restartGrace := grace }

/-- What writing at the end of a file does. -/
inductive Append : Storage → Storage → Prop where
  | tick {s t : Storage} (tick : Tick s t) : Append s t
  | extend {s : Storage} {name : FileName} {offset count : Nat} {data : Nat → UInt8}
      (beyond : ∀ file, s.files.lookup name = some file → file.length ≤ offset) :
      Append s (onFile name (fun file => file.splice offset count data) s)

/-- What giving out a handle does. -/
inductive Hold : Storage → Storage → Prop where
  | settle {s t : Storage} (settle : Settle Any s t) : Hold s t
  | keepLease {s : Storage} {id : Nat} {value : Resident} (found : s.versions.lookup id = some value) :
      Hold s { s with versions := s.versions.insert id value }
  | newLease {s : Storage} {id lease : Nat} {value : Resident} (found : s.versions.lookup id = some value)
      (free : s.upgrades value = false) :
      Hold s { s with versions := s.versions.insert id { value with lease := some lease } }
  | grant {s : Storage} {id handle lease : Nat} {value : Resident} (found : s.versions.lookup id = some value)
      (holds : value.lease = some lease) (number : handle < s.serial) :
      Hold s { s with handles := ⟨handle, id, value.metadata, lease⟩ :: s.handles }

/-- What windows do to the pins of segments. -/
inductive Pin : Storage → Storage → Prop where
  | tick {s t : Storage} (tick : Tick s t) : Pin s t
  | dropWindow {s : Storage} {handle : Nat} :
      Pin s { s with windows := s.windows.filter fun window => window.handle != handle }
  | retainPins {s : Storage} : Pin s (retainPins s)
  | keepPin {s : Storage} {segment : Nat × Nat} {pin handle : Nat} {pins : List ((Nat × Nat) × Nat)}
      (present : s.pins.lookup segment = some pin) (held : ∀ entry ∈ pins, ∃ window ∈ s.windows, entry ∈ window.pins) :
      Pin s { s with
        pins := s.pins.insert segment pin
        windows := ⟨handle, (segment, pin) :: pins⟩ :: s.windows.filter fun other => other.handle != handle }
  | newPin {s : Storage} {segment : Nat × Nat} {pin handle : Nat} {pins : List ((Nat × Nat) × Nat)}
      (free : s.pinned segment = false) (held : ∀ entry ∈ pins, ∃ window ∈ s.windows, entry ∈ window.pins) :
      Pin s { s with
        pins := s.pins.insert segment pin
        windows := ⟨handle, (segment, pin) :: pins⟩ :: s.windows.filter fun other => other.handle != handle }

/-- What the file worker does with its ticket. -/
inductive Work : Storage → Storage → Prop where
  | start {s : Storage} {held : Version} {reserved : Nat} (handle : held ∈ s.handles)
      (layout : held.metadata.layout = .blocks)
      (clean : ∀ name ∈ unpublished held.metadata.generation, s.garbage.lookup name = none) :
      Work s { s with building := some ⟨held.id, reserved⟩, worker := .copying held 0 [] }
  | move {s : Storage} {worker : Worker} (same : Worker.held worker = Worker.held s.worker) :
      Work s { s with worker := worker }
  | finish {s : Storage} {held : Version} (working : Worker.held s.worker = some held) :
      Work s { dropHandle held s with worker := .idle }

/-- What is known of a version when its published file is leased. -/
structure Room (s : Storage) (id : Nat) : Prop where
  count : s.tables.fileLeases.size < maxLeases
  ready : Ready s.tables.completeFiles id
  bytes : ∃ value, s.versions.lookup id = some value ∧
    protectedBytes id s.tables + value.metadata.geometry.length ≤ min (s.capacity / 2) (512 * 1024 * 1024)

section Changes

variable [Sha256] (event : Event) (start : Storage)

/-- What taking an appended block into the index in memory does. -/
inductive Put : Storage → Storage → Prop where
  | setBlock {s : Storage} {id block slot : Nat} {data : List UInt8} {value : Resident} {index : Index}
      (found : s.versions.lookup id = some value) (layout : value.metadata.layout = .blocks)
      (set : value.index.set block slot data = .ok index) :
      Put s { s with versions := s.versions.insert id { value with index := index } }

inductive Change : Storage → Storage → Prop where
  | evict {s t : Storage} (evict : Evict Any s t) : Change s t
  -- versions
  | touch {s : Storage} {id time : Nat} :
      Change s { s with tables := changeVersion id (fun row => { row with lastUse := time }) s.tables }
  | revoke {s : Storage} {leases : List Nat} : Change s { s with revoked := leases ++ s.revoked }
  | corrupt {s : Storage} {id : Nat} : Change s { s with tables := changeVersion id (setObsolete 2) s.tables }
  | invalidate {s : Storage} {provider : Int} (asked : event = .invalidate provider) :
      Change s { s with tables := obsoleteProvider provider s.tables }
  | retire {s : Storage} {version : Version} (asked : event = .retire version.handle) (held : version ∈ s.handles)
      (same : s.tables = start.tables) :
      Change s { s with tables := changeVersion version.id (setObsolete 1) s.tables }
  | refreshRow {s : Storage} {version : Version} {store : Bool} (held : version ∈ s.handles) :
      Change s { s with
        tables := changeVersion version.id
          (fun row => { row with metadata := { version.metadata with store := store } }) s.tables }
  | refresh {s : Storage} {version : Version} {store : Bool} {value : Resident} (held : version ∈ s.handles)
      (found : s.versions.lookup version.id = some value) :
      Change s { s with
        versions := s.versions.insert version.id
          { value with metadata := { version.metadata with store := store } } }
  | issue {s : Storage} {metadata : Metadata} (asked : event = .create metadata) :
      Change s { s with issued := metadata.generation :: s.issued }
  | insert {s : Storage} {original metadata : Metadata} {time : Nat} {tables : Tables}
      (asked : event = .create original) (fresh : metadata.generation ∉ start.issued)
      (issued : metadata.generation ∈ s.issued) (valid : validGeneration metadata.generation = true)
      (layout : validateLayout metadata.layout metadata.geometry = .ok ())
      (inserted : insertVersion metadata time (retireOthers metadata.key s.tables) = some tables) :
      Change s { s with
        tables := tables
        versions := s.versions.insert (nextId s.tables) ⟨metadata, Index.fresh metadata.geometry,
          if metadata.layout = .blocks then some (.data metadata.generation) else none, none, false⟩ }
  -- handles and pins
  | hold {s t : Storage} (hold : Hold s t) : Change s t
  | dropHandle {s : Storage} {handle : Nat} (idle : ∀ held, Worker.held s.worker = some held → held.handle ≠ handle) :
      Change s { s with handles := s.handles.filter fun version => version.handle != handle }
  | pin {s t : Storage} (pin : Pin s t) : Change s t
  -- files
  | make {s : Storage} {name : FileName} (absent : s.files.lookup name = none)
      (packs : ∀ token, name = .pack token → s.tables.packs.lookup token = none)
      (data : ∀ generation, name = .data generation → generation ∉ start.issued ∧ Novel generation s.tables.versions) :
      Change s { s with files := s.files.insert name Contents.empty }
  | append {s t : Storage} (append : Append s t) : Change s t
  | fill {s : Storage} {generation : String} {number offset count : Nat} {token : Token} {data : Nat → UInt8} :
      Change s (onFile (.segment generation number token) (fun file => file.splice offset count data) s)
  | spill {s : Storage} {generation : String} {offset count : Nat} {data : Nat → UInt8} :
      Change s (onFile (.okTmp generation) (fun file => file.splice offset count data) s)
  | cutPack {s : Storage} {token : Token} {length : Nat}
      (covers : ∀ row, s.tables.packs.lookup token = some row → row.deleting = false → row.length ≤ length) :
      Change s (onFile (.pack token) (fun file => file.setLength length) s)
  | unmake {s : Storage} {generation : String} (novel : Novel generation s.tables.versions) :
      Change s { s with files := s.files.erase (.data generation) }
  | unrecord {s : Storage} {generation : String} (novel : Novel generation s.tables.versions) :
      Change s { s with sizes := s.sizes.erase (.data generation) }
  | measure {s : Storage} {name : FileName} {size : Nat × Int} : Change s { s with
    sizes := s.sizes.insert name size }
  | cleanup {s t : Storage} (discard : Discard (fun s name => (s.garbage.lookup name).isSome) s t) : Change s t
  | clear {s t : Storage} (clear : Clear s t) : Change s t
  | abandon {s t : Storage} (discard : Discard Stray s t) : Change s t
  | supersede {s t : Storage} (discard : Discard Superseded s t) : Change s t
  | sweep {s t : Storage} (discard : Discard (fun s name => s.worker = .idle ∧ ¬ Needed s.tables name) s t) : Change s t
  -- indexes
  | forgetBlock {s : Storage} {id block : Nat} {value : Resident} (found : s.versions.lookup id = some value)
      (layout : value.metadata.layout = .blocks) :
      Change s { s with versions := s.versions.insert id { value with index := value.index.remove block } }
  | forgetEntry {s : Storage} {id block : Nat} {value : Resident} {tables : Tables}
      (found : s.versions.lookup id = some value) (patched : patch id (value.index.remove block) s.tables = some tables) :
      Change s { s with
        tables := tables
        versions := s.versions.insert id { value with index := (value.index.remove block).committed } }
  | publishWritten {s : Storage} {id size touched : Nat} {value : Resident} {index : Index} {written : List Segment}
      {tables : Tables} (found : s.versions.lookup id = some value) (layout : value.metadata.layout = .segments size)
      (grown : Grown value.index index size written) (patched : patch id index s.tables = some tables) :
      Change s { s with
        tables := written.foldl (fun tables segment => upsertSegment id touched segment tables) tables
        versions := s.versions.insert id { value with index := index.committed } }
  | touchSegment {s : Storage} {key : Nat × Nat} {row : SegmentRow} {time : Nat}
      (listed : s.tables.segments.lookup key = some row) :
      Change s { s with
        tables := { s.tables with segments := s.tables.segments.insert key { row with lastUse := time } } }
  -- packs and objects
  | insertPack {s : Storage} {metadata : ObjectMetadata} {token : Token} {file : Contents} {tables : Tables}
      (inserted : insertPack token metadata s.tables = some tables) (number : token < s.serial)
      (present : s.files.lookup (.pack token) = some file)
      (header : file.readExact 0 packHeader = some (packHeaderBytes token)) : Change s { s with tables := tables }
  | commitObject {s : Storage} {metadata : ObjectMetadata} {bytes : List UInt8} {before after : Bool} {token : Token}
      {row : PackRow} {file : Contents} {time : Nat} (asked : event = .putObject metadata bytes before after)
      (whole : metadata.length = bytes.length) (listed : s.tables.packs.lookup token = some row)
      (live : row.deleting = false) (group : row.group = metadata.group)
      (present : s.files.lookup (.pack token) = some file)
      (stored : file.readExact row.length bytes.length = some bytes) (bound : row.length + bytes.length ≤ packBytes) :
      Change s { s with
        tables := growPack token (row.length + metadata.length) time
          (replaceObject metadata token row.length (Sha256.hash bytes) s.tables) }
  | deleteObject {s : Storage} {key : String} : Change s { s with tables := deleteObject key s.tables }
  | touchPack {s : Storage} {token : Token} {time : Nat} : Change s { s with
    tables := touchPack token time s.tables }
  | rewriteObject {s : Storage} {metadata : ObjectMetadata} {row : ObjectRow}
      (listed : s.tables.objects.lookup metadata.key = some row) (same : row.metadata.provider = metadata.provider) :
      Change s { s with
        tables := { s.tables with objects := s.tables.objects.insert metadata.key { row with
          metadata := metadata } } }
  -- conversions
  | scan {s : Storage} {cursor : Nat} : Change s { s with scanCursor := cursor }
  | defer {s : Storage} {id till : Nat} : Change s { s with tables := deferRow id till s.tables }
  | reserve {s : Storage} {build : Build} {remaining : Nat} (current : s.building = some build) :
      Change s { s with building := some { build with remaining := remaining } }
  | endBuild {s : Storage} : Change s { s with building := none }
  | publish {s : Storage} {generation : String} {file : Contents} (present : s.files.lookup (.okTmp generation) = some file)
      (absent : s.files.lookup (.ok generation) = none) :
      Change s { s with files := (s.files.erase (.okTmp generation)).insert (.ok generation) file }
  | unrecordTmp {s : Storage} {generation : String} (gone : s.files.lookup (.okTmp generation) = none) :
      Change s { s with sizes := s.sizes.erase (.okTmp generation) }
  | publishRow {s : Storage} {held : Version} {digest : Digest} {value : Resident}
      (working : Worker.held s.worker = some held) (building : s.building.isSome)
      (found : s.versions.lookup held.id = some value) :
      Change s { s with
        tables := publishRow held.id held.metadata.geometry.length digest s.tables
        versions := s.versions.insert held.id
          { value with file := some (.ok held.metadata.generation), plain := true }
        building := none }
  -- leases
  | persistClock {s : Storage} {time : Nat} :
      Change s { s with tables := { s.tables with fileClock := some (max (s.tables.fileClock.getD 0) time) } }
  | grantLease {s : Storage} {token : Token} {lease : LeaseRow} {tables : Tables} (room : Room s lease.version)
      (granted : insertLease token lease s.tables = some tables) : Change s { s with tables := tables }
  | extendLease {s : Storage} {token : Token} {client : String} (asked : event = .renewFile token client) :
      Change s { s with
        tables := extendLease token client (s.clock + (s.instant - s.started) / nanos + leaseSeconds) s.tables }
  | releaseLease {s : Storage} {token : Token} {client : String} (asked : event = .releaseFile token client) :
      Change s { s with tables := deleteLease token client s.tables }

end Changes

end Qcm.CacheChange

namespace Qcm.CacheSound

open Lib ResourceFormat CacheState CacheDisk CacheLoad CacheStore CacheObjects
  CacheFiles CacheEvents CacheRules CacheSettle CachePurge CacheChange

variable {s : Storage} {id touched : Nat} {entry : (Nat × Nat) × Nat} {tables : Tables}
variable {name : FileName} {value : Resident} {window : Window} {metadata : Metadata} {time serial : Nat}
variable {file : Option FileName} {key : Nat × Nat} {packs : Hash Token PackRow} {token : Token}

theorem Sound.onFile (sound : Sound s) {change : Contents → Contents} : Sound (onFile name change s) := by
  unfold CacheDisk.onFile
  split
  · exact { sound with }
  · exact sound

theorem Sound.putIndex (sound : Sound s) (next : Resident)
    (found : s.versions.lookup id = some value) (lease : next.lease = value.lease)
    (metadata : core next.metadata = core value.metadata)
    (index : value.metadata.layout = .blocks ∨ next.index = value.index) :
    Residents s.tables.versions (s.versions.insert id next) ∧
      Held (s.versions.insert id next) s.handles s.worker s.serial := by
  obtain ⟨row, stored, same, mirrors⟩ := sound.residents id value found
  refine ⟨sound.residents.insert stored (metadata.trans same) fun size layout => ?_,
    sound.held.keep found lease metadata⟩
  rcases index with blocks | equal
  · rw [layout_of_core same, layout] at blocks
    cases blocks
  · rw [equal]
    exact mirrors size layout

theorem Pins.take {pins : Hash (Nat × Nat) Nat} {windows : List Window} (sound : Pins pins windows)
    {segment : Nat × Nat} {pin handle : Nat} {held : List ((Nat × Nat) × Nat)}
    (keep : ∀ window ∈ windows, ∀ entry ∈ window.pins, entry.1 = segment → entry.2 = pin)
    (listed : ∀ entry ∈ held, ∃ window ∈ windows, entry ∈ window.pins) :
    Pins (pins.insert segment pin)
      (⟨handle, (segment, pin) :: held⟩ :: windows.filter fun other => other.handle != handle) := by
  have old : ∀ window ∈ windows, ∀ entry ∈ window.pins, (pins.insert segment pin).lookup entry.1 = some entry.2 := by
    intro window member entry inside
    rw [Hash.lookup_insert]
    split
    · rename_i same
      rw [keep window member entry inside same]
    · exact sound window member entry inside
  intro window member entry inside
  rcases List.mem_cons.mp member with rfl | later
  · rcases List.mem_cons.mp inside with rfl | earlier
    · exact AList.lookup_insert ..
    · obtain ⟨other, there, also⟩ := listed entry earlier
      exact old other there entry also
  · exact old window (List.mem_of_mem_filter later) entry inside

theorem pinLive_of_mem (member : window ∈ s.windows) (inside : entry ∈ window.pins) : s.pinLive entry.2 = true :=
  List.any_eq_true.mpr ⟨window, member, List.any_eq_true.mpr ⟨entry, inside, beq_self_eq_true _⟩⟩

theorem Sound.pinned (sound : Sound s) (member : window ∈ s.windows)
    (inside : entry ∈ window.pins) : s.pinned entry.1 = true := by
  rw [Storage.pinned, sound.pins window member entry inside]
  exact pinLive_of_mem member inside

theorem Sound.hold : Closed Hold Sound := by
  intro s t sound hold
  cases hold with
  | settle settle => exact .settle s _ sound settle
  | keepLease found =>
    obtain ⟨residents, handles⟩ := sound.putIndex _ found rfl rfl (.inr rfl)
    exact { sound with residents := residents, held := handles }
  | newLease found free =>
    obtain ⟨row, stored, same, mirrors⟩ := sound.residents _ _ found
    exact { sound with
      residents := sound.residents.insert stored same mirrors
      held := sound.held.replace (sound.held.loose found free) }
  | grant found holds number =>
    refine { sound with held := ⟨fun held member => ?_, fun held member => ?_, fun held working => ?_⟩ }
    · rcases List.mem_cons.mp member with rfl | old
      · exact ⟨_, found, holds, rfl⟩
      · exact sound.held.residents held old
    · rcases List.mem_cons.mp member with rfl | old
      · exact number
      · exact sound.held.numbers held old
    · obtain ⟨old, layout⟩ := sound.held.worker held working
      exact ⟨.tail _ old, layout⟩

theorem Sound.pin : Closed Pin Sound := by
  intro s t sound pin
  cases pin with
  | tick tick => exact .tick s _ sound tick
  | dropWindow =>
    exact { sound with pins := fun window member => sound.pins window (List.mem_of_mem_filter member) }
  | retainPins =>
    refine { sound with pins := fun window member entry inside => ?_ }
    refine (Hash.lookup_filter ..).trans ?_
    rw [sound.pins window member entry inside]
    exact if_pos (pinLive_of_mem member inside)
  | keepPin present held =>
    refine { sound with pins := sound.pins.take (fun window member entry inside same => ?_) held }
    have linked := sound.pins window member entry inside
    rw [same, present] at linked
    exact (Option.some.inj linked).symm
  | newPin free held =>
    refine { sound with pins := sound.pins.take (fun window member entry inside same => ?_) held }
    have pinned := sound.pinned member inside
    rw [same, free] at pinned
    cases pinned

theorem Sound.cleanup : Closed (Discard fun s name => (s.garbage.lookup name).isSome) Sound := by
  refine .discard ?_ ?_
  · rintro s name sound listed id row present level ready rfl
    rw [sound.published.clean id row present level ready] at listed
    cases listed
  · intro s name sound listed held working current member
    rw [sound.published.working held working current name member] at listed
    cases listed

theorem Sound.clear : Closed (Discard Unpublished) Sound := by
  refine .discard ?_ ?_
  · rintro s name sound ⟨-, id, row, stored, unready, listed⟩ other version present - ready rfl
    rcases mem_unpublished.mp listed with same | same
    · cases same
    · rw [sound.rows.unique other id version row present stored (FileName.ok.inj same)] at ready
      exact unready ready
  · rintro s name sound ⟨idle, -⟩ held working current -
    rcases idle with none | none
    · rw [none] at current
      cases current
    · rw [none] at working
      cases working

theorem Sound.abandon : Closed (Discard Stray) Sound := by
  refine .discard ?_ ?_
  · rintro s name - ⟨generation, number, token, rfl⟩ other version - - -
    exact nofun
  · rintro s name - ⟨generation, number, token, rfl⟩ held - - member
    rcases mem_unpublished.mp member with same | same <;> cases same

theorem Sound.supersede : Closed (Discard Superseded) Sound := by
  refine .discard ?_ ?_
  · rintro s name - ⟨id, row, -, -, rfl⟩ other version - - -
    exact nofun
  · rintro s name - ⟨id, row, -, -, rfl⟩ held - - member
    rcases mem_unpublished.mp member with same | same <;> cases same

theorem Sound.sweep : Closed (Discard fun s name => s.worker = .idle ∧ ¬ Needed s.tables name) Sound := by
  refine .discard ?_ ?_
  · rintro s name sound ⟨-, unneeded⟩ id row present - ready rfl
    obtain ⟨same, stored, layout⟩ := sound.published.stored id ready
    rw [present] at stored
    cases stored
    have each := sound.rows.each id row present
    have needed := Needed.own present (each.generation ▸ each.valid) layout
    rw [if_pos ready, ← each.generation] at needed
    exact unneeded needed
  · rintro s name - ⟨idle, -⟩ held working
    rw [idle] at working
    cases working

theorem nextId_lt {rows : Hash Nat VersionRow} {row : VersionRow} (present : rows.lookup id = some row) :
    id < rows.keys.max?.getD 0 + 1 := by
  have member : id ∈ rows.keys := AList.mem_keys.mpr (AList.lookup_isSome.mp (by rw [present]; rfl))
  cases largest : rows.keys.max? with
  | none =>
    rw [List.max?_eq_none_iff.mp largest] at member
    cases member
  | some most => exact Nat.lt_succ_of_le ((List.max?_eq_some_iff.mp largest).2 id member)

theorem nextId_fresh (tables : Tables) : tables.versions.lookup (nextId tables) = none := by
  cases present : tables.versions.lookup (nextId tables) with
  | none => rfl
  | some row => exact absurd (nextId_lt present) (Nat.lt_irrefl _)

theorem nextId_retireOthers (key : String) (tables : Tables) : nextId (retireOthers key tables) = nextId tables := by
  have keys : (retireOthers key tables).versions.keys = tables.versions.keys := by
    simp [retireOthers, Hash.map, AList.keys, List.keys]
  rw [nextId, keys]
  rfl

theorem recast_retireOthers (key : String) (tables : Tables) :
    Recast Aged.Whole tables.versions (retireOthers key tables).versions := by
  refine recast_of_map fun row => ?_
  split
  · exact setObsolete_whole (by decide) row
  · exact .refl row

theorem insertVersion_eq_some {next : Tables}
    (inserted : insertVersion metadata time tables = some next) :
    Novel metadata.generation tables.versions ∧ next = { tables with
      versions := tables.versions.insert (nextId tables)
        ⟨metadata.key, metadata.provider, metadata.kind, metadata.generation, metadata,
          ⟨metadata.geometry.count * entryLen, ∅⟩, time, 0⟩ } := by
  unfold insertVersion at inserted
  split at inserted <;> cases inserted
  rename_i none
  refine ⟨fun id row present same => none ?_, rfl⟩
  exact Hash.any_iff.mpr ⟨id, row, present, beq_iff_eq.mpr same⟩

theorem Sound.insertVersion (sound : Sound s)
    (issued : metadata.generation ∈ s.issued) (valid : validGeneration metadata.generation = true)
    (layout : validateLayout metadata.layout metadata.geometry = .ok ())
    (inserted : insertVersion metadata time (retireOthers metadata.key s.tables) = some tables)
    : Sound { s with
      tables := tables
      versions := s.versions.insert (nextId s.tables) ⟨metadata, .fresh metadata.geometry, file, none, false⟩ } := by
  obtain ⟨novel, rfl⟩ := insertVersion_eq_some inserted
  rw [nextId_retireOthers]
  have recast := recast_retireOthers metadata.key s.tables
  have retired := sound.recast recast
  have unused : s.tables.versions.lookup (nextId s.tables) = none := nextId_fresh _
  have apart : ∀ {id row}, (retireOthers metadata.key s.tables).versions.lookup id = some row → id ≠ nextId s.tables := by
    rintro id row present rfl
    obtain ⟨old, stored, -⟩ := recast.back present
    rw [unused] at stored
    cases stored
  refine ⟨⟨fun id row present => ?_, fun id other row same present stored equal => ?_⟩, ?_, ?_, ?_, sound.pins,
    sound.tokens, ⟨fun id ready => ?_, fun id row present level ready => ?_, sound.published.working⟩⟩
  · obtain ⟨-, rfl⟩ | ⟨-, present⟩ := Hash.lookup_insert_some present
    · exact ⟨rfl, rfl, valid, layout, issued⟩
    · exact retired.rows.each id row present
  · rw [Hash.lookup_insert] at present stored
    split at present <;> split at stored
    · rename_i one two
      rw [one, two]
    · cases present
      exact absurd equal.symm (novel other same stored)
    · cases stored
      exact absurd equal (novel id row present)
    · exact retired.rows.unique id other row same present stored equal
  · exact retired.tidy.publish (fun _ _ _ => rfl) fun size _ block entry listed => nomatch listed
  · intro id value present
    obtain ⟨same, rfl⟩ | ⟨other, present⟩ := Hash.lookup_insert_some present
    · rw [← same]
      exact ⟨_, AList.lookup_insert .., rfl, fun size _ => ⟨rfl, rfl, fun block => rfl⟩⟩
    · obtain ⟨row, stored, rest⟩ := retired.residents id value present
      exact ⟨row, (AList.lookup_insert_ne other).trans stored, rest⟩
  · refine sound.held.replace fun version member same => ?_
    obtain ⟨row, stored, -⟩ := sound.heldRow member
    rw [same, unused] at stored
    cases stored
  · obtain ⟨row, stored, blocks⟩ := retired.published.stored id ready
    exact ⟨row, (AList.lookup_insert_ne (apart stored)).trans stored, blocks⟩
  · rw [Hash.lookup_insert] at present
    split at present
    · rename_i same
      obtain ⟨row, stored, -⟩ := retired.published.stored id ready
      exact absurd same (apart stored)
    · exact retired.published.clean id row present level ready

theorem upserted (written : List Segment) (tables : Tables) :
    written.foldl (fun tables segment => upsertSegment id touched segment tables) tables =
      { tables with segments :=
          (written.foldl (fun tables segment => upsertSegment id touched segment tables) tables).segments } := by
  induction written generalizing tables with
  | nil => rfl
  | cons segment rest ih =>
    rw [List.foldl_cons, ih]
    rfl

theorem upserted_others (written : List Segment) (tables : Tables)
    (apart : ∀ segment ∈ written, key ≠ (id, segment.number)) :
    (written.foldl (fun tables segment => upsertSegment id touched segment tables) tables).segments.lookup key =
      tables.segments.lookup key := by
  induction written generalizing tables with
  | nil => rfl
  | cons segment rest ih =>
    rw [List.foldl_cons, ih _ fun other member => apart other (.tail _ member)]
    exact AList.lookup_insert_ne (apart segment (.head _))

theorem upserted_live (written : List Segment) (tables : Tables)
    (live : (∃ segment ∈ written, key = (id, segment.number)) ∨ ∃ row, tables.segments.lookup key = some row ∧
      row.deleting = false) :
    ∃ row, (written.foldl (fun tables segment => upsertSegment id touched segment tables) tables).segments.lookup key =
      some row ∧ row.deleting = false := by
  induction written generalizing tables with
  | nil =>
    rcases live with ⟨segment, member, -⟩ | live
    · cases member
    · exact live
  | cons segment rest ih =>
    refine ih _ ?_
    by_cases same : key = (id, segment.number)
    · exact .inr ⟨_, by rw [same]; exact AList.lookup_insert .., rfl⟩
    · rcases live with ⟨other, member, equal⟩ | ⟨row, listed, alive⟩
      · rcases List.mem_cons.mp member with rfl | later
        · exact absurd equal same
        · exact .inl ⟨other, later, equal⟩
      · exact .inr ⟨row, (AList.lookup_insert_ne same).trans listed, alive⟩

theorem Sound.publishWritten (sound : Sound s) {size : Nat} {index : Index}
    {written : List Segment} (found : s.versions.lookup id = some value)
    (layout : value.metadata.layout = .segments size) (grown : Grown value.index index size written)
    (patched : patch id index s.tables = some tables) : Sound { s with
      tables := written.foldl (fun tables segment => upsertSegment id touched segment tables) tables
      versions := s.versions.insert id { value with index := index.committed } } := by
  obtain ⟨row, stored, same, mirrors⟩ := sound.residents id value found
  have geometry : value.index.geometry = value.metadata.geometry := by
    rw [(mirrors size (layout_of_core same ▸ layout)).geometry, geometry_of_core same]
  have segments : tables.segments = s.tables.segments := by
    obtain ⟨_, _, -, -, rfl, -⟩ := patch_row patched
    rfl
  rw [upserted]
  refine sound.publishIndex _ found grown.revises patched (fun other number apart => ?_) ?_
  · rw [upserted_others written tables fun segment _ equal => apart (congrArg Prod.fst equal), segments]
  · intro bytes bytesLayout block entry listed
    rw [layout] at bytesLayout
    cases bytesLayout
    by_cases dirty : block ∈ index.dirty
    · obtain ⟨other, also, inside, slot, segment, member, number⟩ := grown.entries block dirty
      rw [listed] at also
      cases also
      rw [geometry] at inside slot number
      exact ⟨inside, slot, upserted_live written tables (.inl ⟨segment, member, by rw [number]⟩)⟩
    · rw [grown.revises.others block dirty] at listed
      have old := sound.placed found layout listed
      refine ⟨old.inside, old.slot, upserted_live written tables (.inr ?_)⟩
      rw [segments]
      exact old.live

theorem Tokens.insert (tokens : Tokens packs serial)
    {row : PackRow} (number : token < serial) : Tokens (packs.insert token row) serial := by
  intro other found present
  obtain ⟨rfl, present⟩ | ⟨-, present⟩ := Hash.lookup_insert_some present
  · exact number
  · exact tokens other found present

theorem Sound.putPacks (sound : Sound s) {objects : Hash String ObjectRow}
    (tokens : Tokens packs s.serial) :
    Sound { s with tables := { s.tables with packs := packs, objects := objects } } :=
  { sound with tokens := tokens }

section

variable [Sha256] {event : Event} {start : Storage}

variable {length : Nat} {s t : Storage}

omit [Sha256] in
theorem growPack_tables :
    growPack token length time tables = { tables with packs := (growPack token length time tables).packs } := by
  unfold growPack
  split
  · split <;> rfl
  · rfl

omit [Sha256] in
theorem growPack_tokens (tokens : Tokens tables.packs serial) :
    Tokens (growPack token length time tables).packs serial := by
  unfold growPack
  split
  · rename_i row found
    split
    · exact tokens
    · exact tokens.insert (tokens token row found)
  · exact tokens

omit [Sha256] in
theorem Sound.publishRow (sound : Sound s) {held : Version} {digest : Digest}
    (working : Worker.held s.worker = some held) (building : s.building.isSome)
    (found : s.versions.lookup held.id = some value) {plain : Bool} :
    Sound { s with
      tables := publishRow held.id length digest s.tables
      versions := s.versions.insert held.id { value with file := file, plain := plain }
      building := none } := by
  obtain ⟨member, layout⟩ := sound.held.worker held working
  obtain ⟨row, stored, same, generation⟩ := sound.heldRow member
  obtain ⟨residents, handles⟩ := sound.putIndex { value with
    file := file
    plain := plain } found rfl rfl (.inr rfl)
  refine { sound with
    residents := residents
    held := handles
    published := ⟨fun id ready => ?_, fun id version present level ready => ?_, nofun⟩ }
  · change ((s.tables.completeFiles.insert held.id _).lookup id).any CompleteRow.ready = true at ready
    rw [Hash.lookup_insert] at ready
    split at ready
    · rename_i equal
      rw [equal]
      exact ⟨row, stored, layout_of_core same ▸ layout⟩
    · exact sound.published.stored id ready
  · change ((s.tables.completeFiles.insert held.id _).lookup id).any CompleteRow.ready = true at ready
    change s.tables.versions.lookup id = some version at present
    rw [Hash.lookup_insert] at ready
    split at ready
    · rename_i equal
      rw [equal, stored] at present
      cases present
      change s.garbage.lookup (.ok row.generation) = none
      rw [generation]
      exact sound.published.working held working building _ (mem_unpublished.mpr (.inr rfl))
    · exact sound.published.clean id version present level ready

theorem Sound.put : Closed Put Sound := by
  intro s t sound put
  cases put with
  | @setBlock id block slot data value index found layout set =>
    obtain ⟨residents, handles⟩ := sound.putIndex { value with index := index } found rfl rfl (.inl layout)
    exact { sound with residents := residents, held := handles }

theorem Sound.change : Closed (Change event start) Sound := by
  intro s t sound change
  cases change with
  | evict evict => exact .evict s _ sound evict
  | touch => exact sound.changeVersion fun row _ => ⟨⟨rfl, rfl, rfl, fun level => level⟩, rfl⟩
  | corrupt => exact sound.changeVersion fun row _ => setObsolete_whole (by decide) row
  | invalidate asked =>
    refine sound.recast (recast_of_map fun row => ?_)
    split
    · exact setObsolete_whole (by decide) row
    · exact .refl row
  | retire asked held same => exact sound.changeVersion fun row _ => setObsolete_whole (by decide) row
  | refreshRow held =>
    obtain ⟨row, stored, same, -⟩ := sound.heldRow held
    refine sound.changeVersion fun other present => ?_
    rw [stored] at present
    cases present
    exact ⟨⟨rfl, rfl, same.symm, fun level => level⟩, rfl⟩
  | @refresh version store value held found =>
    obtain ⟨also, present, -, same⟩ := sound.held.residents version held
    rw [found] at present
    cases present
    obtain ⟨residents, handles⟩ := sound.putIndex
      { value with metadata := { version.metadata with store := store } } found rfl same.symm (.inr rfl)
    exact { sound with residents := residents, held := handles }
  | issue asked =>
    refine { sound with rows := ⟨fun id row present => ?_, sound.rows.unique⟩ }
    have each := sound.rows.each id row present
    exact { each with issued := .tail _ each.issued }
  | insert asked fresh issued valid layout inserted => exact sound.insertVersion issued valid layout inserted
  | hold hold => exact .hold s _ sound hold
  | dropHandle idle =>
    refine { sound with held := ⟨fun held member => ?_, fun held member => ?_, fun held working => ?_⟩ }
    · exact sound.held.residents held (List.mem_of_mem_filter member)
    · exact sound.held.numbers held (List.mem_of_mem_filter member)
    · obtain ⟨old, layout⟩ := sound.held.worker held working
      exact ⟨List.mem_filter.mpr ⟨old, bne_iff_ne.mpr (idle held working)⟩, layout⟩
  | pin pin => exact .pin s _ sound pin
  | append append =>
    cases append with
    | tick tick => exact .tick s _ sound tick
    | extend beyond => exact sound.onFile
  | fill | spill | cutPack covers => exact sound.onFile
  | cleanup discard => exact .cleanup s _ sound discard
  | clear clear =>
    cases clear with
    | tick tick => exact .tick s _ sound tick
    | discard discard => exact .clear s _ sound discard
  | abandon discard => exact .abandon s _ sound discard
  | supersede discard => exact .supersede s _ sound discard
  | sweep discard => exact .sweep s _ sound discard
  | @forgetBlock id block value found layout =>
    obtain ⟨residents, handles⟩ := sound.putIndex { value with index := value.index.remove block } found rfl rfl
      (.inl layout)
    exact { sound with residents := residents, held := handles }
  | @forgetEntry id block value tables found patched =>
    have published := sound.publishIndex s.tables.segments found (.remove _ _) patched
      (fun _ _ _ => rfl) fun size layout other entry listed => ?_
    · obtain ⟨row, entries, -, -, rfl, -⟩ := patch_row patched
      exact published
    · rw [remove_get] at listed
      split at listed
      · cases listed
      · exact sound.placed found layout listed
  | publishWritten found layout grown patched => exact sound.publishWritten found layout grown patched
  | @touchSegment key row time listed =>
    refine { sound with tidy := fun id version size present layout block entry inside => ?_ }
    have old := sound.tidy id version size present layout block entry inside
    obtain ⟨segment, there, live⟩ := old.live
    refine ⟨old.inside, old.slot, ?_⟩
    by_cases same : (id, segmentOf version.metadata.geometry size block) = key
    · rw [same, listed] at there
      cases there
      exact ⟨{ row with lastUse := time }, by rw [same]; exact AList.lookup_insert .., live⟩
    · exact ⟨segment, (AList.lookup_insert_ne same).trans there, live⟩
  | @insertPack metadata token file tables inserted number present header =>
    unfold CacheObjects.insertPack at inserted
    split at inserted <;> cases inserted
    exact sound.putPacks (sound.tokens.insert number)
  | commitObject asked whole listed live group present stored bound =>
    rw [growPack_tables]
    exact sound.putPacks (growPack_tokens sound.tokens)
  | @touchPack token time =>
    unfold CacheObjects.touchPack
    split
    · rename_i row found
      exact sound.putPacks (sound.tokens.insert (sound.tokens token row found))
    · exact sound
  | @defer id till =>
    have same : ∀ other, Ready (deferRow id till s.tables).completeFiles other → Ready s.tables.completeFiles other := by
      intro other ready
      rw [Ready, deferRow, Hash.lookup_insert] at ready
      split at ready
      · rename_i equal
        rw [Ready, equal]
        cases found : s.tables.completeFiles.lookup id with
        | none =>
          rw [found] at ready
          cases ready
        | some row =>
          rw [found] at ready
          exact ready
      · exact ready
    exact { sound with
      published := ⟨fun other ready => sound.published.stored other (same other ready),
        fun other row present level ready => sound.published.clean other row present level (same other ready),
          sound.published.working⟩ }
  | reserve current =>
    refine { sound with published := ⟨sound.published.stored, sound.published.clean, fun held working _ => ?_⟩ }
    exact sound.published.working held working (by rw [current]; rfl)
  | endBuild =>
    exact { sound with published := ⟨sound.published.stored, sound.published.clean, nofun⟩ }
  | publishRow working building found => exact sound.publishRow working building found
  | @grantLease token lease tables room granted =>
    unfold insertLease at granted
    split at granted <;> cases granted
    exact { sound with }
  | extendLease asked =>
    unfold CacheFiles.extendLease
    split
    · split
      · exact { sound with }
      · exact sound
    · exact sound
  | _ => exact { sound with }

omit [Sha256] in
theorem onFile_others {change : Contents → Contents} :
    onFile name change s = { s with files := (onFile name change s).files } := by
  unfold CacheDisk.onFile
  split <;> rfl

section

variable (change : Change event start s t)
include change

/-- Only the file worker turns to something else, only a launch sets the capacity, and no generation is given out twice. -/
private theorem change_still :
    t.worker = s.worker ∧ t.capacity = s.capacity ∧ ∀ generation ∈ s.issued, generation ∈ t.issued := by
  cases change with
  | evict evict =>
    exact ⟨evict_part evict Storage.worker fun _ => rfl, evict_part evict Storage.capacity fun _ => rfl,
      fun _ given => evict_part evict Storage.issued (fun _ => rfl) ▸ given⟩
  | issue asked => exact ⟨rfl, rfl, fun _ given => .tail _ given⟩
  | hold hold =>
    cases hold with
    | settle settle =>
      exact ⟨settle.frame.part Storage.worker fun _ => rfl, settle.frame.part Storage.capacity fun _ => rfl,
        fun _ given => settle.frame.part Storage.issued (fun _ => rfl) ▸ given⟩
    | _ => exact ⟨rfl, rfl, fun _ => id⟩
  | pin pin =>
    cases pin with
    | tick tick =>
      cases tick
      exact ⟨rfl, rfl, fun _ => id⟩
    | _ => exact ⟨rfl, rfl, fun _ => id⟩
  | append append =>
    cases append with
    | tick tick =>
      cases tick
      exact ⟨rfl, rfl, fun _ => id⟩
    | extend beyond =>
      rw [onFile_others]
      exact ⟨rfl, rfl, fun _ => id⟩
  | fill | spill | cutPack =>
    rw [onFile_others]
    exact ⟨rfl, rfl, fun _ => id⟩
  | cleanup discard => cases discard <;> exact ⟨rfl, rfl, fun _ => id⟩
  | clear clear =>
    cases clear with
    | tick tick =>
      cases tick
      exact ⟨rfl, rfl, fun _ => id⟩
    | discard discard => cases discard <;> exact ⟨rfl, rfl, fun _ => id⟩
  | abandon discard | supersede discard | sweep discard => cases discard <;> exact ⟨rfl, rfl, fun _ => id⟩
  | _ => exact ⟨rfl, rfl, fun _ => id⟩

theorem change_worker : t.worker = s.worker := (change_still change).1

theorem change_capacity : t.capacity = s.capacity :=
  (change_still change).2.1

theorem change_issued {generation : String} (given : generation ∈ s.issued) :
    generation ∈ t.issued := (change_still change).2.2 generation given

end

omit [Sha256] in
theorem Sound.work : Closed Work Sound := by
  intro s t sound work
  cases work with
  | start handle layout clean =>
    refine { sound with
      held := ⟨sound.held.residents, sound.held.numbers, fun held working => ?_⟩
      published := ⟨sound.published.stored, sound.published.clean, fun held working _ => ?_⟩ }
    · cases working
      exact ⟨handle, layout⟩
    · cases working
      exact clean
  | move same =>
    refine { sound with
      held := ⟨sound.held.residents, sound.held.numbers, fun held working => ?_⟩
      published := ⟨sound.published.stored, sound.published.clean, fun held working => ?_⟩ }
    · exact sound.held.worker held (same ▸ working)
    · exact sound.published.working held (same ▸ working)
  | finish working =>
    refine { sound with
      held := ⟨fun held member => ?_, fun held member => ?_, nofun⟩
      published := ⟨sound.published.stored, sound.published.clean, nofun⟩ }
    · exact sound.held.residents held (List.mem_of_mem_filter member)
    · exact sound.held.numbers held (List.mem_of_mem_filter member)

omit [Sha256] in
theorem Sound.configure : Closed (Configure event) Sound := by
  rintro s _ sound ⟨⟩
  exact { sound with }

omit [Sha256] in
theorem Sound.restart (sound : Sound s) : Sound (restart s) := by
  have versions : ∀ id, (CacheEvents.restart s).versions.lookup id = none := AList.lookup_empty
  have garbage : ∀ name, (CacheEvents.restart s).garbage.lookup name = none := AList.lookup_empty
  refine ⟨sound.rows, sound.tidy, fun id value present => ?_, ⟨nofun, nofun, nofun⟩, nofun, sound.tokens,
    ⟨sound.published.stored, fun id row _ _ _ => garbage _, nofun⟩⟩
  cases (versions id).symm.trans present

omit [Sha256] in
theorem Sound.fresh : Sound Storage.fresh := by
  have rows : ∀ id, Storage.fresh.tables.versions.lookup id = none := AList.lookup_empty
  have files : ∀ id, Storage.fresh.tables.completeFiles.lookup id = none := AList.lookup_empty
  have tokens : ∀ token, Storage.fresh.tables.packs.lookup token = none := AList.lookup_empty
  have versions : ∀ id, Storage.fresh.versions.lookup id = none := AList.lookup_empty
  refine ⟨⟨fun id row present => ?_, fun id other row same present => ?_⟩, fun id row size present => ?_,
    fun id value present => ?_, ⟨nofun, nofun, nofun⟩, nofun, fun token row present => ?_, ⟨fun id ready => ?_,
    fun id row present => ?_, nofun⟩⟩
  · cases (rows id).symm.trans present
  · cases (rows id).symm.trans present
  · cases (rows id).symm.trans present
  · cases (versions id).symm.trans present
  · cases (tokens token).symm.trans present
  · rw [files] at ready
    cases ready
  · cases (rows id).symm.trans present

end

end Qcm.CacheSound
