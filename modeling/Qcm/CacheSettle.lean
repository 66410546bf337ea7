import Qcm.CacheRules
import Qcm.Lib.Fallible

/-!
What the index in memory goes through: residents are dropped and loaded, indexes
committed, segments condemned and deleted.  `Reserve` and `Settle` list the
changes with what the code has checked when it makes them, and every function
down to `delete_all_segments` is a run of such changes.
-/

namespace Qcm.CacheSettle

open Lib Lib.Act ResourceFormat CacheState CacheDisk CacheLoad CacheRules

/-- What making room for an index does. -/
inductive Reserve : Storage → Storage → Prop where
  | tick {s t : Storage} (tick : Tick s t) : Reserve s t
  | commitIndex {s : Storage} {id : Nat} {value : Resident} {tables : Tables}
      (found : s.versions.lookup id = some value) (patched : patch id value.index s.tables = some tables) :
      Reserve s { s with
        tables := tables
        versions := s.versions.insert id { value with index := value.index.committed } }
  | spare {s : Storage} {id : Nat} {value : Resident} (found : s.versions.lookup id = some value)
      (clean : value.index.dirty = []) (loose : s.upgrades value = false) :
      Reserve s { s with versions := s.versions.erase id }

/-- What a version is when it is loaded from its row. -/
structure Loaded (tables : Tables) (id : Nat) (row : VersionRow) (value : Resident) : Prop where
  metadata : value.metadata = row.metadata
  index : value.index = ⟨row.metadata.geometry, row.blocks.entries, []⟩
  lease : value.lease = none
  size : row.blocks.size = row.metadata.geometry.count * entryLen
  segments : ∀ bytes, row.metadata.layout = .segments bytes → value.file = none ∧ value.plain = false ∧
    ∀ block entry, row.blocks.entries.lookup block = some entry →
      entry.slot = block % (bytes / row.metadata.geometry.block)
  blocks : row.metadata.layout = .blocks →
    value.plain = (tables.completeFiles.lookup id).any CompleteRow.ready ∧
      value.file = some (if value.plain then .ok row.metadata.generation else .data row.metadata.generation)

/-- The file of a segment whose row is marked. -/
def Condemned (s : Storage) (name : FileName) : Prop :=
  ∃ id number row value, s.tables.segments.lookup (id, number) = some row ∧ row.deleting = true ∧
    s.versions.lookup id = some value ∧ name = .segment value.metadata.generation number row.token

/-- What removing segments does; `may` is what entitles to condemn one. -/
inductive Remove (may : Storage → Nat → Nat → Prop) : Storage → Storage → Prop where
  | tick {s t : Storage} (tick : Tick s t) : Remove may s t
  | condemn {s : Storage} {id number size : Nat} {value : Resident} {tables : Tables} (allowed : may s id number)
      (found : s.versions.lookup id = some value) (layout : value.metadata.layout = .segments size)
      (patched : patch id (clearSegment value.index size number) s.tables = some tables) :
      Remove may s { s with
        tables := markDeleting id number tables
        versions := s.versions.insert id
          { value with index := (clearSegment value.index size number).committed } }
  | dropRow {s : Storage} {id number : Nat}
      (marked : ∀ row, s.tables.segments.lookup (id, number) = some row → row.deleting = true) :
      Remove may s { s with tables := deleteSegmentRow id number s.tables }
  | discard {s t : Storage} (discard : Discard Condemned s t) : Remove may s t

/-- What loading versions and removing segments does. -/
inductive Settle (may : Storage → Nat → Nat → Prop) : Storage → Storage → Prop where
  | reserve {s t : Storage} (reserve : Reserve s t) : Settle may s t
  | remove {s t : Storage} (remove : Remove may s t) : Settle may s t
  | fetch {s : Storage} {id : Nat} {row : VersionRow} {value : Resident} (absent : s.versions.lookup id = none)
      (stored : s.tables.versions.lookup id = some row) (loaded : Loaded s.tables id row value) :
      Settle may s { s with versions := s.versions.insert id value }
  | cut {s : Storage} {id slots : Nat} {row : VersionRow} {file : Contents} (absent : s.versions.lookup id = none)
      (stored : s.tables.versions.lookup id = some row)
      (present : s.files.lookup (.data row.metadata.generation) = some file)
      (whole : slots = (file.length - headerLen) / row.metadata.geometry.block) (header : headerLen ≤ file.length)
      (inside : ∀ block entry, row.blocks.entries.lookup block = some entry → entry.slot < slots) :
      Settle may s (onFile (.data row.metadata.generation)
        (fun file => file.setLength (headerLen + slots * row.metadata.geometry.block)) s)
  | record {s : Storage} {name : FileName} {size : Nat × Int} (present : (s.files.lookup name).isSome) :
      Settle may s { s with sizes := s.sizes.insert name size }

variable {I : Storage → Prop} {may : Storage → Nat → Nat → Prop}

variable {id number : Nat} {index : Index} {tables : Tables} {s t : Storage} {geometry : Geometry}
  {blocks : Blob}

theorem Reserve.ticks (closed : Closed Reserve I) : Closed Tick I := closed.mono fun _ _ => .tick

theorem Remove.ticks (closed : Closed (Remove may) I) : Closed Tick I := closed.mono fun _ _ => .tick

theorem Settle.reserves (closed : Closed (Settle may) I) : Closed Reserve I := closed.mono fun _ _ => .reserve

theorem Settle.removes (closed : Closed (Settle may) I) : Closed (Remove may) I := closed.mono fun _ _ => .remove

theorem Settle.ticks (closed : Closed (Settle may) I) : Closed Tick I := Reserve.ticks (Settle.reserves closed)

/-- The permission to condemn a segment is not lost by calls that change nothing. -/
def Steady (may : Storage → Nat → Nat → Prop) : Prop := ∀ id number, Closed Tick fun s => may s id number

/-- The state without what loading and removing change: the indexes, the segments, the files
with their sizes, and what every call may change. -/
def outside (s : Storage) : Storage :=
  { s with
    tables := { s.tables with versions := ∅, segments := ∅ }
    files := ∅
    versions := ∅
    sizes := ∅
    garbage := ∅
    tape := []
    databaseBytes := 0
    instant := 0
    segmentClock := 0
    serial := 0 }

/-- A row but for its blocks. -/
def headOf (row : VersionRow) : VersionRow := { row with blocks := ⟨0, ∅⟩ }

structure Frame (s t : Storage) : Prop where
  outside : outside t = outside s
  rows : ∀ id, (t.tables.versions.lookup id).map headOf = (s.tables.versions.lookup id).map headOf

theorem Frame.row (frame : Frame s t) {row : VersionRow} (present : s.tables.versions.lookup id = some row) :
    ∃ next, t.tables.versions.lookup id = some next ∧ headOf next = headOf row := by
  have same := frame.rows id
  rw [present] at same
  exact Option.map_eq_some_iff.mp same

theorem patch_eq_some {next : Tables} (patched : patch id index tables = some next) :
    ∃ row entries, tables.versions.lookup id = some row ∧ row.blocks.size = index.size ∧
      next = { tables with
        versions := tables.versions.insert id { row with blocks := { row.blocks with entries := entries } } } := by
  obtain ⟨row, present, rest⟩ := Option.bind_eq_some_iff.mp patched
  split at rest <;> cases rest
  rename_i same
  exact ⟨row, _, present, not_not.mp same, rfl⟩

theorem Frame.part {τ : Type} (frame : Frame s t) (part : Storage → τ)
    (inside : ∀ s, part (CacheSettle.outside s) = part s) : part t = part s := by
  rw [← inside t, ← inside s, frame.outside]

theorem Frame.leases (frame : Frame s t) : t.tables.fileLeases = s.tables.fileLeases :=
  frame.part (fun s => s.tables.fileLeases) fun _ => rfl

theorem Frame.versionPinned (frame : Frame s t) (id : Nat) : t.versionPinned id = s.versionPinned id :=
  frame.part (fun s => s.versionPinned id) fun _ => rfl

theorem Frame.pinned (frame : Frame s t) (segment : Nat × Nat) : t.pinned segment = s.pinned segment :=
  frame.part (fun s => s.pinned segment) fun _ => rfl

theorem frame_patch {versions : Hash Nat Resident} (patched : patch id index s.tables = some tables) :
    Frame s { s with tables := tables, versions := versions } := by
  obtain ⟨row, entries, present, -, rfl⟩ := patch_eq_some patched
  refine ⟨rfl, fun other => ?_⟩
  rw [Hash.lookup_insert]
  split
  · rename_i same
    rw [same, present]
    rfl
  · rfl

theorem Reserve.frame (reserve : Reserve s t) : Frame s t := by
  obtain ⟨⟨⟩⟩ | ⟨found, patched⟩ | _ := reserve
  · exact ⟨rfl, fun _ => rfl⟩
  · exact frame_patch patched
  · exact ⟨rfl, fun _ => rfl⟩

theorem markDeleting_versions (id number : Nat) (tables : Tables) :
    markDeleting id number tables = { tables with segments := (markDeleting id number tables).segments } := by
  unfold markDeleting
  split <;> rfl

theorem Remove.frame (remove : Remove may s t) : Frame s t := by
  cases remove with
  | tick tick =>
    cases tick
    exact ⟨rfl, fun _ => rfl⟩
  | condemn allowed found layout patched =>
    rw [markDeleting_versions]
    have frame : Frame s { s with tables := _, versions := ∅ } := frame_patch patched
    exact ⟨frame.outside, frame.rows⟩
  | dropRow marked => exact ⟨rfl, fun _ => rfl⟩
  | discard discard => cases discard <;> exact ⟨rfl, fun _ => rfl⟩

theorem Settle.frame (settle : Settle may s t) : Frame s t := by
  cases settle with
  | reserve reserve => exact reserve.frame
  | remove remove => exact remove.frame
  | fetch absent stored loaded => exact ⟨rfl, fun _ => rfl⟩
  | cut absent stored present whole header inside =>
    rw [onFile, present]
    exact ⟨rfl, fun _ => rfl⟩
  | record present => exact ⟨rfl, fun _ => rfl⟩

theorem committed_of_clean {value : Resident} (clean : value.index.dirty = []) :
    { value with index := value.index.committed } = value := by
  obtain ⟨metadata, ⟨geometry, entries, dirty⟩, file, lease, plain⟩ := value
  cases clean
  rfl

theorem commit_triple (closed : Closed Reserve I) (id : Nat) (value : Resident) :
    Triple (fun s => I s ∧ s.versions.lookup id = some value) (commit id)
      (fun _ s => I s ∧ s.versions.lookup id = some { value with index := value.index.committed }) I := by
  have ticks := Reserve.ticks closed
  refine Triple.bindState fun found => ?_
  refine Triple.bind (Q := fun current s => (I s ∧ s.versions.lookup id = some value) ∧ current = value)
    (.require (fun current present s holds => ⟨holds.1, ?_⟩) fun _ s holds => holds.1.1) fun current => ?_
  · rw [← holds.2, holds.1.2] at present
    exact (Option.some.inj present).symm
  · refine .ite (fun clean => .pure fun s ⟨⟨holds, present⟩, same⟩ => ?_) fun dirty => ?_
    · rw [same, Index.isCommitted, List.isEmpty_iff] at clean
      rw [committed_of_clean clean]
      exact ⟨holds, present⟩
    · have after : Closed Tick fun s => I { s with
          versions := s.versions.insert id { value with index := value.index.committed } } := by
        rintro s _ holds ⟨_, _, _, _, _, later, more⟩
        exact ticks _ _ holds (.pass _ _ _ _ _ _ later more)
      refine .bind (Q := fun _ s => I { s with
        versions := s.versions.insert id { value with index := value.index.committed } } ∧ current = value) ?_ fun _ => ?_
      · refine .pointwise fun start ⟨begun, same⟩ => ?_
        have present : Closed Tick fun s => I s ∧ s.versions.lookup id = some value :=
          Tick.beside ticks fun holds => holds
        refine (transaction_triple present after fun s tables holds ran => ?_).weaken
          (fun s equal => equal ▸ begun) (fun _ s holds => ⟨holds, same⟩) fun s holds => holds.1
        rw [same] at ran
        obtain ⟨next, patched, done⟩ := Option.bind_eq_some_iff.mp ran
        cases done
        exact closed s _ holds.1 (.commitIndex holds.2 patched)
      · refine .update fun s ⟨holds, same⟩ => ?_
        rw [same]
        exact ⟨holds, AList.lookup_insert ..⟩

theorem commit_keeps (closed : Closed Reserve I) : Keeps I (commit id) := by
  refine .pointwise fun start holds => ?_
  cases found : start.versions.lookup id with
  | none =>
    refine .bindState fun read => ?_
    refine .bind (Q := fun _ _ => False) (.require (fun value present s same => ?_) fun _ s same => same.1 ▸ holds)
      fun value => fun s impossible => impossible.elim
    rw [← same.2, same.1, found] at present
    cases present
  | some value =>
    refine ((commit_triple closed id value).before fun s same => ?_).after fun _ s done => done.1
    rw [same]
    exact ⟨holds, found⟩

theorem mem_droppable {turn : Nat} (member : (droppable s turn).head? = some id) :
    ∃ value, s.versions.lookup id = some value ∧ s.upgrades value = false := by
  have inside := List.mem_rotate.mp (List.mem_of_mem_head? (Option.mem_def.mpr member))
  obtain ⟨entry, kept, rfl⟩ := List.mem_map.mp inside
  obtain ⟨listed, loose⟩ := List.mem_filter.mp kept
  exact ⟨entry.2, (Hash.lookup_eq_some_iff ..).mpr listed, by simpa using loose⟩

variable {required size : Nat} {row : VersionRow} {A : Storage → Prop} {segment : Segment}

theorem reserveTurns_keeps (closed : Closed Reserve I) (turns : Nat) : Keeps I (reserveTurns required turns) := by
  have ticks := Reserve.ticks closed
  induction turns with
  | zero => exact Keeps.fail
  | succ turns ih =>
    refine .bindState fun found => ?_
    refine .ite (fun _ => .pure fun s holds => holds.1) fun _ => ?_
    have same : Closed Tick fun s => I s ∧ found.versions = s.versions ∧ found.handles = s.handles :=
      Tick.beside ticks fun holds => holds
    refine .bind (Q := fun _ s => I s ∧ found.versions = s.versions ∧ found.handles = s.handles)
      ((chance_triple same).weaken (fun s holds => ⟨holds.1, by rw [holds.2], by rw [holds.2]⟩) (fun _ _ => id)
        fun _ => False.elim) fun answer => ?_
    refine .bind (Q := fun old s => I s ∧ ∃ value, s.versions.lookup old = some value ∧ s.upgrades value = false)
      (.require (fun old picked s holds => ?_) fun _ s holds => holds.1) fun old => ?_
    · obtain ⟨value, present, loose⟩ := mem_droppable picked
      refine ⟨holds.1, value, holds.2.1 ▸ present, ?_⟩
      rw [Storage.upgrades, ← holds.2.2]
      exact loose
    refine .pointwise fun start ⟨holds, value, present, loose⟩ => ?_
    have watched : Closed Reserve fun s => I s ∧ s.upgrades value = false := by
      refine closed.and ?_
      rintro s _ held ⟨⟨⟩ | _⟩ <;> exact held
    have committed := (commit_triple watched old value).weaken (O := fun s => s = start)
      (fun s same => by rw [same]; exact ⟨⟨holds, loose⟩, present⟩) (fun _ _ => id) fun s held => held.1
    refine .bind committed fun _ => ?_
    refine .bind (Q := fun _ => I) (.update fun s held => ?_) fun _ => ih
    exact closed s _ held.1.1 (.spare held.2 rfl held.1.2)

theorem reserveIndex_keeps (closed : Closed Reserve I) : Keeps I (reserveIndex required) :=
  Keeps.bind Keeps.state fun _ => reserveTurns_keeps closed _

/-! ## Segments -/

theorem resident_triple :
    Triple I (resident id) (fun value s => I s ∧ s.versions.lookup id = some value) I := by
  refine .bindState fun found => ?_
  cases present : found.versions.lookup id with
  | none => exact .crash fun s holds => holds.1
  | some value => exact Triple.pure fun s ⟨holds, same⟩ => ⟨holds, by rw [same, present]⟩

theorem resident_keeps : Keeps I (resident id) := resident_triple.after fun _ _ holds => holds.1

theorem segmentFor_triple (ticks : Closed Tick I) :
    Triple I (segmentFor id number) (fun found s => I s ∧ ∀ segment, found = some segment →
      segment.number = number ∧ ∃ row, s.tables.segments.lookup (id, number) = some row ∧
        row.token = segment.token ∧ row.length = segment.length ∧ row.deleting = segment.deleting) I := by
  refine .bind (query_triple ticks) fun row => ?_
  cases row with
  | none => exact .pure fun s holds => ⟨holds.1, nofun⟩
  | some row =>
    refine .bind (Q := fun _ s => I s ∧ some row = s.tables.segments.lookup (id, number))
      (.ensure (fun _ s holds => holds) fun _ s holds => holds.1) fun _ => .pure fun s holds => ?_
    refine ⟨holds.1, fun segment same => ?_⟩
    cases same
    exact ⟨rfl, row, holds.2.symm, rfl, rfl, rfl⟩

theorem segmentFor_keeps (ticks : Closed Tick I) : Keeps I (segmentFor id number) :=
  (segmentFor_triple ticks).after fun _ _ holds => holds.1

/-- An index is published with its tables and in memory, or not at all. -/
theorem publishSegmentIndex_triple {J : Storage → Prop} (ticks : Closed Tick I) (after : Closed Tick J)
    {operation : List (Tables → Option Tables)} (value : Resident)
    (keep : ∀ s tables, I s → s.versions.lookup id = some value →
      runAll (patch id index :: operation) s.tables = some tables →
      J { s with tables := tables, versions := s.versions.insert id { value with index := index.committed } }) :
    Triple (fun s => I s ∧ s.versions.lookup id = some value) (publishSegmentIndex id index operation)
      (fun _ => J) I := by
  have present : Closed Tick fun s => I s ∧ s.versions.lookup id = some value := Tick.beside ticks fun holds => holds
  have middle : Closed Tick fun s => s.versions.lookup id = some value ∧
      J { s with versions := s.versions.insert id { value with index := index.committed } } := by
    rintro s _ holds ⟨_, _, _, _, _, later, more⟩
    exact ⟨holds.1, after _ _ holds.2 (.pass _ _ _ _ _ _ later more)⟩
  have published := transaction_triple present middle
    fun s tables holds ran => ⟨holds.2, keep s tables holds.1 holds.2 ran⟩
  refine .bind (published.otherwise fun s holds => holds.1)
    fun _ => ?_
  refine .bind (Q := fun current s => current = value ∧
    J { s with versions := s.versions.insert id { value with index := index.committed } }) ?_ fun current => ?_
  · refine .bindState fun found => ?_
    cases listed : found.versions.lookup id with
    | none =>
      refine .crash fun s ⟨holds, same⟩ => ?_
      rw [← same, holds.1] at listed
      cases listed
    | some current =>
      refine .pure fun s ⟨holds, same⟩ => ⟨?_, holds.2⟩
      rw [← same, holds.1] at listed
      exact (Option.some.inj listed).symm
  · exact .update fun s ⟨same, holds⟩ => same ▸ holds

theorem markDeleting_lookup {row : SegmentRow}
    (present : (markDeleting id number tables).segments.lookup (id, number) = some row) : row.deleting = true := by
  unfold markDeleting at present
  split at present
  · rw [AList.lookup_insert] at present
    cases present
    rfl
  · rename_i absent
    rw [absent] at present
    cases present

/-- A segment of a resident version goes in three steps: its blocks and its mark together,
its file, its row. -/
theorem removeResident_keeps (steady : Steady may) (closed : Closed (Remove may) I) :
    Triple (fun s => I s ∧ may s id number) (removeResident id number) (fun _ => I) I := by
  have ticks := Remove.ticks closed
  have allowed : Closed Tick fun s => I s ∧ may s id number := ticks.and (steady id number)
  refine Triple.bind (resident_triple.otherwise fun s holds => holds.1)
    fun value => ?_
  refine .bind (Q := fun size s => ((I s ∧ may s id number) ∧ s.versions.lookup id = some value) ∧
      value.metadata.layout = .segments size)
    (.require (fun size layout s holds => ⟨holds, ?_⟩) fun _ s holds => holds.1.1) fun size => ?_
  · cases shape : value.metadata.layout with
    | blocks =>
      rw [shape] at layout
      cases layout
    | segments bytes =>
      rw [shape] at layout
      cases layout
      rfl
  -- from the mark on, the row of the segment is a marked one or none
  let Marked : Storage → Prop := fun s => I s ∧
    (∃ current, s.versions.lookup id = some current ∧ current.metadata = value.metadata) ∧
    ∀ row, s.tables.segments.lookup (id, number) = some row → row.deleting = true
  have marked : Closed Tick Marked := Tick.beside ticks fun holds => holds
  refine .bind (Q := fun _ => Marked) ?_ fun _ => ?_
  · refine .pointwise fun start ⟨begun, layout⟩ => ?_
    have published : Triple (fun s => (I s ∧ may s id number) ∧ s.versions.lookup id = some value)
        (publishSegmentIndex id (clearSegment value.index size number)
          [fun tables => some (markDeleting id number tables)]) (fun _ => Marked) fun s => I s ∧ may s id number := by
      refine publishSegmentIndex_triple allowed marked value fun s tables holds present ran => ?_
      obtain ⟨next, patched, done⟩ := Option.bind_eq_some_iff.mp ran
      cases done
      refine ⟨closed s _ holds.1 (.condemn holds.2 present layout patched), ⟨_, AList.lookup_insert .., rfl⟩,
        fun row found => ?_⟩
      exact markDeleting_lookup found
    exact published.weaken (fun s same => same ▸ begun) (fun _ _ holds => holds) fun s holds => holds.1
  refine .bind (Q := fun found s => Marked s ∧ ∀ segment, found = .ok (some segment) →
      segment.number = number ∧ ∃ row, s.tables.segments.lookup (id, number) = some row ∧ row.token = segment.token)
    (.attempt (F := Marked) ?_ ?_ ?_) fun found => ?_
  · refine (segmentFor_triple marked).after fun found s ⟨holds, listed⟩ => ⟨holds, fun segment same => ?_⟩
    cases same
    obtain ⟨same, row, present, token, -⟩ := listed segment rfl
    exact ⟨same, row, present, token⟩
  · exact fun error s holds => ⟨holds, nofun⟩
  · exact fun s holds => holds.1
  refine .bind (Q := fun _ => Marked) ?_ fun _ => ?_
  · obtain _ | _ | segment := found
    · exact .pure fun s holds => holds.1
    · exact .pure fun s holds => holds.1
    · -- the mark is the reason to remove the file
      let Listed : Storage → Prop := fun s => Marked s ∧ segment.number = number ∧
        ∃ row, s.tables.segments.lookup (id, number) = some row ∧ row.token = segment.token
      have removed : Keeps Listed (removeManaged (segment.name value.metadata)) := by
        have steady : Closed Tick Listed := Tick.beside marked fun holds => holds
        have discards : Closed (Discard Condemned) Listed := by
          rintro s t ⟨⟨holds, stays⟩, listed⟩ discard
          have kept := closed s t holds (.discard discard)
          cases discard <;> exact ⟨⟨kept, stays⟩, listed⟩
        refine removeManaged_keeps steady discards ?_
        rintro s ⟨⟨-, ⟨current, present, same⟩, deleting⟩, number, row, listed, token⟩
        exact ⟨id, _, row, current, listed, deleting row listed, present, by rw [same, token, ← number]; rfl⟩
      exact removed.weaken (fun s ⟨holds, listed⟩ => ⟨holds, listed segment rfl⟩) (fun _ s holds => holds.1)
        fun s holds => holds.1.1
  · refine (execute_triple (Q := I) marked ticks fun s holds => ?_).otherwise fun s holds => holds.1
    exact closed s _ holds.1 (.dropRow holds.2.2)

theorem Remove.metadata {metadata : Metadata} :
    Closed (Remove may) fun s => ∃ value, s.versions.lookup id = some value ∧ value.metadata = metadata := by
  intro s t ⟨value, present, same⟩ remove
  cases remove with
  | tick tick =>
    cases tick
    exact ⟨value, present, same⟩
  | condemn allowed found layout patched =>
    rename_i other number size current tables
    by_cases equal : id = other
    · rw [equal, found] at present
      cases present
      rw [equal]
      exact ⟨_, AList.lookup_insert .., same⟩
    · exact ⟨value, by rw [Hash.lookup_insert, if_neg equal, present], same⟩
  | dropRow marked => exact ⟨value, present, same⟩
  | discard discard => cases discard <;> exact ⟨value, present, same⟩

/-! ## Loading -/

theorem Reserve.absent : Closed Reserve fun s => s.versions.lookup id = none ∧ s.tables.versions.lookup id = some row := by
  rintro s _ ⟨absent, stored⟩ (⟨⟨⟩⟩ | ⟨found, patched⟩ | ⟨found, _, _⟩)
  · exact ⟨absent, stored⟩
  · rename_i other value tables
    have apart : id ≠ other := fun same => by rw [same, found] at absent; cases absent
    obtain ⟨row, entries, _, _, rfl⟩ := patch_eq_some patched
    exact ⟨by rw [Hash.lookup_insert, if_neg apart, absent], by rw [Hash.lookup_insert, if_neg apart, stored]⟩
  · exact ⟨by rw [Hash.lookup_erase, absent, ite_self], stored⟩

theorem Reserve.completeFiles (reserve : Reserve s t) :
    t.tables.completeFiles = s.tables.completeFiles ∧ t.files = s.files := by
  obtain ⟨⟨⟩⟩ | ⟨found, patched⟩ | _ := reserve
  · exact ⟨rfl, rfl⟩
  · obtain ⟨row, entries, _, _, rfl⟩ := patch_eq_some patched
    exact ⟨rfl, rfl⟩
  · exact ⟨rfl, rfl⟩

theorem loadLayout_ok {slots : Option Nat} (loaded : Index.loadLayout geometry blocks slots = .ok index) :
    index = ⟨geometry, blocks.entries, []⟩ ∧ blocks.size = geometry.count * entryLen ∧
      ∀ bound, slots = some bound → ∀ block entry, blocks.entries.lookup block = some entry → entry.slot < bound := by
  unfold Index.loadLayout at loaded
  split at loaded
  · cases loaded
  · rename_i sized
    split at loaded <;> cases loaded
    rename_i inside
    refine ⟨rfl, (not_not.mp sized).2, fun bound same block entry present => ?_⟩
    rw [same] at inside
    by_contra outside
    refine inside ?_
    rw [Option.any_some]
    exact Hash.any_iff.mpr ⟨block, entry, present, decide_eq_true (Nat.le_of_not_lt outside)⟩

theorem loadPlain_ok (loaded : Index.loadPlain geometry blocks = .ok index) :
    index = ⟨geometry, blocks.entries, []⟩ ∧ blocks.size = geometry.count * entryLen := by
  obtain ⟨found, laid, rest⟩ := bind_ok.mp loaded
  split at rest <;> cases rest
  exact ⟨(loadLayout_ok laid).1, (loadLayout_ok laid).2.1⟩

theorem loadSegments_ok (loaded : Index.loadSegments geometry blocks size = .ok index) :
    index = ⟨geometry, blocks.entries, []⟩ ∧ blocks.size = geometry.count * entryLen ∧
      ∀ block entry, blocks.entries.lookup block = some entry → entry.slot = block % (size / geometry.block) := by
  obtain ⟨found, laid, rest⟩ := bind_ok.mp loaded
  have same := loadLayout_ok laid
  split at rest <;> cases rest
  rename_i inside
  refine ⟨same.1, same.2.1, fun block entry present => ?_⟩
  by_contra apart
  refine inside (Hash.any_iff.mpr ⟨block, entry, ?_, decide_eq_true apart⟩)
  rw [same.1]
  exact present

/-- The row a version is loaded from, while the version is not resident yet. -/
def Absent (id : Nat) (row : VersionRow) (s : Storage) : Prop :=
  s.versions.lookup id = none ∧ s.tables.versions.lookup id = some row

theorem loadPlain_triple (closed : Closed Reserve A) {name : FileName} {length : Nat} :
    Triple A (loadPlain row name length) (fun index s => A s ∧ index = ⟨row.metadata.geometry, row.blocks.entries, []⟩ ∧
      row.blocks.size = row.metadata.geometry.count * entryLen) A := by
  refine Triple.bind (fileLength_keeps (Reserve.ticks closed)) fun size => ?_
  refine .bind Keeps.ensure fun _ => .bind Keeps.ensure fun _ => ?_
  refine .bind (reserveIndex_keeps closed) fun _ => ?_
  exact liftExcept_triple (fun index same s holds => ⟨holds, loadPlain_ok same⟩) fun s holds => holds

theorem plainLength_triple (ticks : Closed Tick I) : Triple I (plainLength id)
      (fun found s => I s ∧ (s.tables.completeFiles.lookup id).any CompleteRow.ready = found.isSome) I := by
  refine .bind (query_triple ticks) fun row => ?_
  cases row with
  | none => exact Triple.pure fun s ⟨holds, same⟩ => ⟨holds, by rw [← same]; rfl⟩
  | some row =>
    refine .ite (fun pending => .pure fun s ⟨holds, same⟩ => ⟨holds, ?_⟩) fun ready => ?_
    · rw [← same]
      simpa using pending
    · refine .bind (Q := fun _ s => I s ∧ some row = s.tables.completeFiles.lookup id)
        (.ensure (fun _ s holds => holds) fun _ s holds => holds.1) fun _ => .pure fun s ⟨holds, same⟩ => ?_
      refine ⟨holds, ?_⟩
      rw [← same]
      simpa using ready

theorem isPlain_triple (ticks : Closed Tick I) :
    Triple I (isPlain id) (fun plain s => I s ∧ (s.tables.completeFiles.lookup id).any CompleteRow.ready = plain) I :=
  Triple.bind (plainLength_triple ticks) fun _ => .pure fun _ holds => holds

section Loading

variable [Sha256]

variable {metadata : Metadata} {id number : Nat} {row : VersionRow}

theorem segmentFile_triple (ticks : Closed Tick I) :
    Triple I (segmentFile metadata segment) (fun name s => I s ∧ name = segment.name metadata) I := by
  refine .bind Keeps.require fun size => .bind Keeps.ensure fun _ => ?_
  refine .bind (regularFile_keeps ticks) fun _ => .bind (fileLength_keeps ticks) fun length => ?_
  refine .bind Keeps.ensure fun _ => .bind (readExact_keeps ticks) fun header => ?_
  exact .bind Keeps.ensure fun _ => .pure fun s holds => ⟨holds, rfl⟩

theorem segmentFile_keeps (ticks : Closed Tick I) : Keeps I (segmentFile metadata segment) := (segmentFile_triple ticks).after fun _ _ holds => holds.1

theorem segmentValid_keeps (ticks : Closed Tick I) : Keeps I (segmentValid id number metadata) := by
  refine .bind (.attempt (segmentFor_keeps ticks)) fun found => ?_
  obtain _ | _ | segment := found
  · exact .pure
  · exact .pure
  · exact .bind (.attempt (segmentFile_keeps ticks)) fun _ => .pure

/-- What a segment that does not pass its check entitles to. -/
def Judged (may : Storage → Nat → Nat → Prop) (I : Storage → Prop) : Prop :=
  ∀ id number metadata, Triple (fun s => I s ∧ ∃ value, s.versions.lookup id = some value ∧ value.metadata = metadata)
    (segmentValid id number metadata) (fun valid s => I s ∧ (valid = false → may s id number)) I

theorem Judged.and (judged : Judged may I) (ticks : Closed Tick A) : Judged may fun s => I s ∧ A s := by
  intro id number metadata
  refine ((judged id number metadata).both (segmentValid_keeps ticks)).weaken ?_ ?_ fun _ holds => holds
  · exact fun s ⟨⟨holds, more⟩, known⟩ => ⟨⟨holds, known⟩, more⟩
  · exact fun valid s ⟨⟨holds, entitled⟩, more⟩ => ⟨⟨holds, more⟩, entitled⟩

theorem repairSegment_keeps (steady : Steady may) (closed : Closed (Remove may) I) (judged : Judged may I) :
    Keeps (fun s => I s ∧ ∃ value, s.versions.lookup id = some value ∧ value.metadata = metadata)
      (repairSegment id metadata size number) := by
  have kept : Closed (Remove may) fun s => I s ∧ ∃ value, s.versions.lookup id = some value ∧ value.metadata = metadata :=
    closed.and Remove.metadata
  refine Triple.bind resident_keeps fun current => Triple.when (fun _ => ?_) fun _ s holds => holds
  refine .bind (Q := fun valid s => (I s ∧ ∃ value, s.versions.lookup id = some value ∧ value.metadata = metadata) ∧
    (valid = false → may s id number)) ?_ fun valid => ?_
  · have stays : Closed (Remove may) fun s => ∃ value, s.versions.lookup id = some value ∧ value.metadata = metadata :=
      Remove.metadata
    have known : Keeps (fun s => ∃ value, s.versions.lookup id = some value ∧ value.metadata = metadata)
        (segmentValid id number metadata) := segmentValid_keeps (Remove.ticks stays)
    refine ((judged id number metadata).both known).weaken (fun s holds => ⟨holds, holds.2⟩) ?_ fun _ holds => holds
    exact fun valid s ⟨⟨holds, entitled⟩, metadata⟩ => ⟨⟨holds, metadata⟩, entitled⟩
  · refine .when (fun broken => (removeResident_keeps steady kept).before fun s holds => ⟨holds.1, holds.2 broken⟩)
      fun _ s holds => holds.1

theorem repairResident_keeps (steady : Steady may) (closed : Closed (Remove may) I) (judged : Judged may I) :
    Keeps I (repairResident id) := by
  refine Triple.bind resident_triple fun value => ?_
  cases value.metadata.layout.segmentBytes with
  | none => exact Triple.pure fun s holds => holds.1
  | some size =>
    let Same : Storage → Prop := fun s => I s ∧ ∃ other, s.versions.lookup id = some other ∧ other.metadata = value.metadata
    have loop : Keeps Same (forIn (List.range (divCeil value.metadata.geometry.length size)) PUnit.unit fun number _ => do
        repairSegment id value.metadata size number
        pure (ForInStep.yield PUnit.unit)) :=
      Keeps.loop fun number _ _ => .bind (repairSegment_keeps steady closed judged) fun _ => .pure
    refine .bind (loop.weaken (fun s holds => ⟨holds.1, value, holds.2, rfl⟩) (fun _ s holds => holds.1)
      fun s holds => holds.1) fun _ => Keeps.pure

theorem loadSegments_keeps (steady : Steady may) (closed : Closed (Settle may) I) (judged : Judged may I)
    (layout : row.metadata.layout = .segments size) :
    Triple (fun s => I s ∧ Absent id row s) (loadSegments id row size) (fun _ => I) I := by
  have absent : Closed Reserve fun s => I s ∧ Absent id row s := (Settle.reserves closed).and Reserve.absent
  refine .bind ((reserveIndex_keeps absent).otherwise
    fun s holds => holds.1) fun _ => ?_
  refine .bind (Q := fun index s => (I s ∧ Absent id row s) ∧
    Index.loadSegments row.metadata.geometry row.blocks size = .ok index)
    (liftExcept_triple (fun index same s holds => ⟨holds, same⟩) fun s holds => holds.1) fun index => ?_
  refine .bind (Q := fun _ => I) (.update fun s ⟨⟨holds, gone, stored⟩, same⟩ => ?_)
    fun _ => repairResident_keeps steady (Settle.removes closed) judged
  obtain ⟨index, sized, slots⟩ := loadSegments_ok same
  refine closed s _ holds (.fetch gone stored ⟨rfl, index, rfl, sized, fun bytes same => ?_, fun same => ?_⟩)
  · rw [layout] at same
    cases same
    exact ⟨rfl, rfl, slots⟩
  · rw [layout] at same
    cases same

/-- The data file of a version is cut to its whole slots, and every entry lies in one. -/
theorem loadData_triple (closed : Closed (Settle may) I) {plain : Bool} :
    Triple (fun s => I s ∧ Absent id row s ∧ (s.tables.completeFiles.lookup id).any CompleteRow.ready = plain)
      (loadData row (.data row.metadata.generation))
      (fun index s => (I s ∧ Absent id row s ∧ (s.tables.completeFiles.lookup id).any CompleteRow.ready = plain) ∧
        index = ⟨row.metadata.geometry, row.blocks.entries, []⟩ ∧
        row.blocks.size = row.metadata.geometry.count * entryLen) I := by
  let A : Storage → Prop := fun s => I s ∧ Absent id row s ∧
    (s.tables.completeFiles.lookup id).any CompleteRow.ready = plain
  have steady : Closed Reserve A := by
    refine (Settle.reserves closed).and (Reserve.absent.and fun s t holds reserve => ?_)
    rw [(Reserve.completeFiles reserve).1]
    exact holds
  refine Triple.bind ((fileLength_triple (Reserve.ticks steady)).otherwise
    fun s holds => holds.1) fun size => ?_
  let B : Contents → Storage → Prop := fun file s => A s ∧ s.files.lookup (.data row.metadata.generation) = some file
  refine .pointwise fun start ⟨begun, file, present, sized⟩ => ?_
  have unmoved : Closed Reserve (B file) := by
    refine steady.and fun s t holds reserve => ?_
    rw [(Reserve.completeFiles reserve).2]
    exact holds
  have fails : ∀ s, B file s → I s := fun s holds => holds.1.1
  refine .before (P := B file) ?_ fun s same => same ▸ ⟨begun, present⟩
  refine .bind (Q := fun _ s => B file s ∧ headerLen ≤ size)
    (.ensure (fun header s holds => ⟨holds, header⟩) fun _ => fails) fun _ => ?_
  have ticks : Closed Tick fun s => B file s ∧ headerLen ≤ size :=
    fun s t holds tick => ⟨Reserve.ticks unmoved s t holds.1 tick, holds.2⟩
  refine .bind ((readExact_keeps ticks).otherwise
    fun s holds => fails s holds.1) fun header => ?_
  refine .bind (Q := fun _ s => B file s ∧ headerLen ≤ size)
    (.ensure (fun _ s holds => holds) fun _ s holds => fails s holds.1) fun _ => ?_
  have room : Closed Reserve fun s => B file s ∧ headerLen ≤ size :=
    fun s t holds reserve => ⟨unmoved s t holds.1 reserve, holds.2⟩
  refine .bind ((reserveIndex_keeps room).otherwise
    fun s holds => fails s holds.1) fun _ => ?_
  refine .bind (Q := fun index s => (B file s ∧ headerLen ≤ size) ∧ Index.load row.metadata.geometry row.blocks
      ((size - headerLen) / row.metadata.geometry.block) = .ok index)
    (liftExcept_triple (fun index same s holds => ⟨holds, same⟩) fun s holds => fails s holds.1) fun index => ?_
  refine .bind (Q := fun _ s => A s ∧ index = ⟨row.metadata.geometry, row.blocks.entries, []⟩ ∧
    row.blocks.size = row.metadata.geometry.count * entryLen) ?_ fun _ => .pure fun _ holds => holds
  refine (setLength_triple ?_ fun s ⟨⟨⟨⟨holds, absent, ready⟩, there⟩, header⟩, same⟩ => ?_).weaken
    (fun _ holds => holds) (fun _ _ holds => holds) fun s holds => fails s holds.1.1
  · exact fun s t holds tick => ⟨ticks s t holds.1 tick, holds.2⟩
  · obtain ⟨index, whole, inside⟩ := loadLayout_ok same
    have cut := closed s _ holds (.cut absent.1 absent.2 there rfl (sized ▸ header)
      (sized ▸ inside _ rfl))
    refine ⟨⟨?_, ?_⟩, index, whole⟩
    · rw [sized] at cut
      exact cut
    · rw [onFile, there]
      exact ⟨absent, ready⟩

theorem loadFile_keeps (closed : Closed (Settle may) I) (layout : row.metadata.layout = .blocks) :
    Triple (fun s => I s ∧ Absent id row s) (loadFile id row) (fun _ => I) I := by
  let A : Bool → Storage → Prop := fun plain s => I s ∧ Absent id row s ∧
    (s.tables.completeFiles.lookup id).any CompleteRow.ready = plain
  have steady : ∀ plain, Closed Reserve (A plain) := by
    refine fun plain => (Settle.reserves closed).and (Reserve.absent.and fun s t holds reserve => ?_)
    rw [(Reserve.completeFiles reserve).1]
    exact holds
  have absent : Closed Tick fun s => I s ∧ Absent id row s :=
    Reserve.ticks ((Settle.reserves closed).and Reserve.absent)
  refine Triple.bind (Q := fun plain s => A plain.isSome s) ((plainLength_triple absent).weaken (fun _ holds => holds)
    (fun _ s holds => ⟨holds.1.1, holds.1.2, holds.2⟩) fun s holds => holds.1) fun plain => ?_
  have ticks := Reserve.ticks (steady plain.isSome)
  refine Triple.bind ((regularFile_keeps ticks).otherwise
    fun s holds => holds.1) fun _ => ?_
  let B : Index → Storage → Prop := fun index s => A plain.isSome s ∧
    index = ⟨row.metadata.geometry, row.blocks.entries, []⟩ ∧ row.blocks.size = row.metadata.geometry.count * entryLen
  refine Triple.bind (Q := B) ?_ fun index => ?_
  · cases plain with
    | none => exact loadData_triple closed
    | some length =>
      exact (loadPlain_triple (steady _)).otherwise fun s holds => holds.1
  · have kept : Closed Tick (B index) := fun s t holds tick => ⟨ticks s t holds.1 tick, holds.2⟩
    refine Triple.bind ((recordSize_keeps kept fun s bytes holds there => ?_).otherwise fun s holds => holds.1.1) fun _ => ?_
    · exact ⟨⟨closed s _ holds.1.1 (.record there), holds.1.2⟩, holds.2⟩
    · refine Triple.update fun s ⟨⟨holds, gone, ready⟩, same, sized⟩ => ?_
      refine closed s _ holds (.fetch gone.1 gone.2 ⟨rfl, same, rfl, sized, fun bytes segmented => ?_, fun _ => ⟨ready.symm, rfl⟩⟩)
      rw [layout] at segmented
      cases segmented

section

variable (steady : Steady may) (closed : Closed (Settle may) I) (judged : Judged may I)
include steady closed judged

theorem loadAbsent_keeps :
    Triple (fun s => I s ∧ s.versions.lookup id = none) (loadAbsent id) (fun _ => I) I := by
  have ticks : Closed Tick fun s => I s ∧ s.versions.lookup id = none :=
    Tick.beside (Settle.ticks closed) fun holds => holds
  refine .bind ((query_triple ticks).otherwise fun s holds => holds.1)
    fun found => ?_
  refine .bind (Q := fun row s => I s ∧ Absent id row s)
    (.require (fun row same s holds => ⟨holds.1.1, holds.1.2, holds.2 ▸ same⟩) fun _ s holds => holds.1.1)
    fun row => ?_
  refine .bind (Q := fun _ s => I s ∧ Absent id row s)
    (.ensure (fun _ s holds => holds) fun _ s holds => holds.1) fun _ => ?_
  refine .bind (Q := fun _ s => I s ∧ Absent id row s)
    (liftExcept_triple (fun _ _ s holds => holds) fun s holds => holds.1) fun _ => ?_
  cases layout : row.metadata.layout with
  | blocks => exact loadFile_keeps closed layout
  | segments size => exact loadSegments_keeps steady closed judged layout

theorem load_triple : Triple I (load id) (fun value s => I s ∧ s.versions.lookup id = some value) I := by
  refine .bindState fun found => ?_
  refine .bind (Q := fun _ => I) ?_ fun _ => resident_triple
  refine .when (fun absent => (loadAbsent_keeps steady closed judged).before fun s ⟨holds, same⟩ => ⟨holds, ?_⟩)
    fun _ s holds => holds.1
  rw [same]
  exact Option.isNone_iff_eq_none.mp absent

theorem load_keeps : Keeps I (load id) :=
  (load_triple steady closed judged).after fun _ _ holds => holds.1

theorem repairSegments_keeps : Keeps I (repairSegments id) :=
  Keeps.bind (load_keeps steady closed judged) fun _ => repairResident_keeps steady (Settle.removes closed) judged

theorem removeSegment_keeps (entitled : ∀ s, I s → may s id number) : Keeps I (removeSegment id number) :=
  Keeps.bind (load_keeps steady closed judged) fun _ =>
    (removeResident_keeps steady (Settle.removes closed)).before fun s holds => ⟨holds, entitled s holds⟩

theorem deleteAllSegments_keeps (entitled : ∀ s number, I s → may s id number) :
    Keeps I (deleteAllSegments id) := by
  refine Keeps.bind (query_keeps (Settle.ticks closed)) fun numbers => Keeps.bind ?_ fun _ => Keeps.pure
  refine .loop fun number _ _ => .bind ?_ fun _ => .pure
  exact removeSegment_keeps steady closed judged fun s => entitled s number

end

end Loading

end Qcm.CacheSettle
