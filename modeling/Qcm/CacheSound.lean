import Qcm.CachePurge

/-!
What holds between the tables, the memory and the handles of the cache: rows
and residents speak of the same version, a handle keeps its resident, every
entry of a segmented version lies in a live segment, and the file of a published
version is no garbage.  Eviction, loading and everything under them keep it.
-/

namespace Qcm.CacheSound

open Lib Lib.Act ResourceFormat CacheState CacheDisk CacheLoad CacheStore
  CacheFiles CacheEvents CacheRules CacheSettle CachePurge

/-- Metadata but for the policy, which callers may change. -/
def core (metadata : Metadata) : Metadata := { metadata with store := false }

/-- The segment a block lies in. -/
def segmentOf (geometry : Geometry) (size block : Nat) : Nat := block * geometry.block / size

structure RowSound (issued : List String) (row : VersionRow) : Prop where
  generation : row.generation = row.metadata.generation
  provider : row.provider = row.metadata.provider
  valid : validGeneration row.generation = true
  layout : validateLayout row.metadata.layout row.metadata.geometry = .ok ()
  issued : row.generation ∈ issued

structure Rows (issued : List String) (rows : Hash Nat VersionRow) : Prop where
  each : ∀ id row, rows.lookup id = some row → RowSound issued row
  unique : ∀ id other row same, rows.lookup id = some row → rows.lookup other = some same →
    row.generation = same.generation → id = other

/-- An entry of a segmented version: its slot, and the live segment it lies in. -/
structure Placed (segments : Hash (Nat × Nat) SegmentRow) (id size : Nat) (geometry : Geometry) (block : Nat)
    (entry : Entry) : Prop where
  inside : block < geometry.count
  slot : entry.slot = block % (size / geometry.block)
  live : ∃ row, segments.lookup (id, segmentOf geometry size block) = some row ∧ row.deleting = false

def Tidy (rows : Hash Nat VersionRow) (segments : Hash (Nat × Nat) SegmentRow) : Prop :=
  ∀ id row size, rows.lookup id = some row → row.metadata.layout = .segments size →
    ∀ block entry, row.blocks.entries.lookup block = some entry →
      Placed segments id size row.metadata.geometry block entry

/-- The index in memory of a segmented version is the one in its row. -/
structure Mirrors (row : VersionRow) (index : Index) : Prop where
  geometry : index.geometry = row.metadata.geometry
  clean : index.dirty = []
  entries : ∀ block, index.get block = row.blocks.entries.lookup block

def Residents (rows : Hash Nat VersionRow) (versions : Hash Nat Resident) : Prop :=
  ∀ id value, versions.lookup id = some value → ∃ row, rows.lookup id = some row ∧
    core value.metadata = core row.metadata ∧
    ∀ size, row.metadata.layout = .segments size → Mirrors row value.index

structure Held (versions : Hash Nat Resident) (handles : List Version) (worker : Worker) (serial : Nat) : Prop where
  residents : ∀ held ∈ handles, ∃ value, versions.lookup held.id = some value ∧ value.lease = some held.lease ∧
    core value.metadata = core held.metadata
  numbers : ∀ held ∈ handles, held.handle < serial
  worker : ∀ held, Worker.held worker = some held → held ∈ handles ∧ held.metadata.layout = .blocks

/-- The pins that windows hold are the ones of the map. -/
def Pins (pins : Hash (Nat × Nat) Nat) (windows : List Window) : Prop :=
  ∀ window ∈ windows, ∀ held ∈ window.pins, pins.lookup held.1 = some held.2

def Tokens (packs : Hash Token PackRow) (serial : Nat) : Prop := ∀ token row, packs.lookup token = some row → token < serial

structure Published (rows : Hash Nat VersionRow) (files : Hash Nat CompleteRow) (garbage : Hash FileName Unit)
    (building : Option Build) (worker : Worker) : Prop where
  stored : ∀ id, (files.lookup id).any CompleteRow.ready = true →
    ∃ row, rows.lookup id = some row ∧ row.metadata.layout = .blocks
  clean : ∀ id row, rows.lookup id = some row → row.obsolete = 0 → (files.lookup id).any CompleteRow.ready = true →
    garbage.lookup (.ok row.generation) = none
  working : ∀ held, Worker.held worker = some held → building.isSome → ∀ name ∈ unpublished held.metadata.generation,
    garbage.lookup name = none

structure Sound (s : Storage) : Prop where
  rows : Rows s.issued s.tables.versions
  tidy : Tidy s.tables.versions s.tables.segments
  residents : Residents s.tables.versions s.versions
  held : Held s.versions s.handles s.worker s.serial
  pins : Pins s.pins s.windows
  tokens : Tokens s.tables.packs s.serial
  published : Published s.tables.versions s.tables.completeFiles s.garbage s.building s.worker

/-! ## Rows that change in place -/

/-- What a row may become, apart from its blocks. -/
structure Aged (before after : VersionRow) : Prop where
  generation : after.generation = before.generation
  provider : after.provider = before.provider
  metadata : core after.metadata = core before.metadata
  level : after.obsolete = 0 → before.obsolete = 0

variable {row : VersionRow} {change : VersionRow → VersionRow} {tables : Tables} {left right : Metadata}
  {files : Hash Nat CompleteRow} {garbage : Hash FileName Unit} {building : Option Build} {index : Index}
  {block : Nat} {name : FileName}

theorem Aged.refl (row : VersionRow) : Aged row row := ⟨rfl, rfl, rfl, id⟩

/-- The same rows, each changed as `rel` says. -/
def Recast (rel : VersionRow → VersionRow → Prop) (before after : Hash Nat VersionRow) : Prop :=
  ∀ id, Option.Rel rel (before.lookup id) (after.lookup id)

/-- A row that keeps its blocks. -/
def Aged.Whole (before after : VersionRow) : Prop := Aged before after ∧ after.blocks = before.blocks

variable {rel : VersionRow → VersionRow → Prop} {before after rows : Hash Nat VersionRow} {issued : List String}
variable {segments : Hash (Nat × Nat) SegmentRow} {versions : Hash Nat Resident}
variable {id block slot size number : Nat} {old next : VersionRow} {data : List UInt8} {value : Resident}
variable {s : Storage} {geometry : Geometry} {generation : String}

theorem Recast.back (recast : Recast rel before after) (present : after.lookup id = some row) :
    ∃ old, before.lookup id = some old ∧ rel old row := by
  have related := recast id
  rw [present] at related
  generalize before.lookup id = found at related
  cases related with
  | some same => exact ⟨_, rfl, same⟩

theorem Recast.forth (recast : Recast rel before after) (present : before.lookup id = some row) :
    ∃ next, after.lookup id = some next ∧ rel row next := by
  have related := recast id
  rw [present] at related
  generalize after.lookup id = found at related
  cases related with
  | some same => exact ⟨_, rfl, same⟩

theorem Recast.mono {weak : VersionRow → VersionRow → Prop} (recast : Recast rel before after)
    (sub : ∀ old row, rel old row → weak old row) : Recast weak before after := by
  intro id
  have related := recast id
  generalize before.lookup id = old at related ⊢
  generalize after.lookup id = row at related ⊢
  cases related with
  | some same => exact .some (sub _ _ same)
  | none => exact .none

theorem recast_of_map (each : ∀ row, rel row (change row)) :
    Recast rel rows (Hash.map (fun _ => change) rows) := by
  intro id
  rw [Hash.lookup_map]
  cases rows.lookup id with
  | none => exact .none
  | some row => exact .some (each row)

theorem recast_changeVersion (same : ∀ row, rel row row)
    (each : ∀ row, tables.versions.lookup id = some row → rel row (change row)) :
    Recast rel tables.versions (changeVersion id change tables).versions := by
  intro other
  rw [changeVersion]
  split
  · rename_i row present
    rw [Hash.lookup_insert]
    split
    · rename_i equal
      rw [equal, present]
      exact .some (each row present)
    · cases tables.versions.lookup other with
      | none => exact .none
      | some row => exact .some (same row)
  · cases tables.versions.lookup other with
    | none => exact .none
    | some row => exact .some (same row)

theorem changeVersion_others :
    changeVersion id change tables = { tables with versions := (changeVersion id change tables).versions } := by
  unfold changeVersion
  split <;> rfl

theorem setObsolete_whole {level : Nat} (positive : level ≠ 0) (row : VersionRow) :
    Aged.Whole row (setObsolete level row) := ⟨⟨rfl, rfl, rfl, fun none => absurd none positive⟩, rfl⟩

theorem layout_of_core (same : core left = core right) : left.layout = right.layout := by
  have equal := congrArg Metadata.layout same
  exact equal

theorem geometry_of_core (same : core left = core right) : left.geometry = right.geometry := by
  have equal := congrArg Metadata.geometry same
  exact equal

theorem generation_of_core (same : core left = core right) : left.generation = right.generation := by
  have equal := congrArg Metadata.generation same
  exact equal

theorem provider_of_core (same : core left = core right) : left.provider = right.provider := by
  have equal := congrArg Metadata.provider same
  exact equal

theorem RowSound.aged (sound : RowSound issued old) (aged : Aged old row) : RowSound issued row where
  generation := by rw [aged.generation, sound.generation, generation_of_core aged.metadata]
  provider := by rw [aged.provider, sound.provider, provider_of_core aged.metadata]
  valid := by rw [aged.generation, sound.valid]
  layout := by rw [layout_of_core aged.metadata, geometry_of_core aged.metadata, sound.layout]
  issued := by
    rw [aged.generation]
    exact sound.issued

theorem Rows.recast (sound : Rows issued before) (recast : Recast Aged before after) : Rows issued after where
  each id row present := by
    obtain ⟨old, stored, aged⟩ := recast.back present
    exact (sound.each id old stored).aged aged
  unique id other row same present stored equal := by
    obtain ⟨old, found, aged⟩ := recast.back present
    obtain ⟨second, listed, also⟩ := recast.back stored
    refine sound.unique id other old second found listed ?_
    rw [← aged.generation, ← also.generation, equal]

theorem Tidy.recast (tidy : Tidy before segments) (recast : Recast Aged.Whole before after) : Tidy after segments := by
  intro id row size present layout block entry listed
  obtain ⟨old, stored, aged, blocks⟩ := recast.back present
  rw [blocks] at listed
  rw [geometry_of_core aged.metadata]
  exact tidy id old size stored (layout_of_core aged.metadata ▸ layout) block entry listed

theorem Residents.recast (residents : Residents before versions) (recast : Recast Aged.Whole before after) :
    Residents after versions := by
  intro id value present
  obtain ⟨old, stored, same, mirrors⟩ := residents id value present
  obtain ⟨row, found, aged, blocks⟩ := recast.forth stored
  refine ⟨row, found, same.trans aged.metadata.symm, fun size layout => ?_⟩
  have mirror := mirrors size (layout_of_core aged.metadata ▸ layout)
  exact ⟨mirror.geometry.trans (geometry_of_core aged.metadata).symm, mirror.clean, fun block => by
    rw [blocks, mirror.entries]⟩

theorem Published.recast {worker : Worker} (published : Published before files garbage building worker)
    (recast : Recast Aged before after) : Published after files garbage building worker where
  stored id ready := by
    obtain ⟨old, present, layout⟩ := published.stored id ready
    obtain ⟨row, found, aged⟩ := recast.forth present
    exact ⟨row, found, layout_of_core aged.metadata ▸ layout⟩
  clean id row present level ready := by
    obtain ⟨old, stored, aged⟩ := recast.back present
    rw [aged.generation]
    exact published.clean id old stored (aged.level level) ready
  working := published.working

/-! ## Indexes that are revised -/

/-- An index that differs from another at its dirty blocks only. -/
structure Revises (before after : Index) : Prop where
  geometry : after.geometry = before.geometry
  more : ∀ block ∈ before.dirty, block ∈ after.dirty
  others : ∀ block, block ∉ after.dirty → after.get block = before.get block

theorem Revises.refl (index : Index) : Revises index index := ⟨rfl, fun _ => id, fun _ _ => rfl⟩

theorem Revises.trans {first second third : Index} (one : Revises first second) (two : Revises second third) :
    Revises first third where
  geometry := two.geometry.trans one.geometry
  more block member := two.more block (one.more block member)
  others block clean := by
    rw [two.others block clean, one.others block fun member => clean (two.more block member)]

theorem remove_get {other : Nat} :
    (index.remove block).get other = if other = block then none else index.get other :=
  Hash.lookup_erase ..

theorem Revises.remove (index : Index) (block : Nat) : Revises index (index.remove block) where
  geometry := rfl
  more other member := .tail _ member
  others other clean := by rw [remove_get, if_neg fun same : other = block => clean (same ▸ .head _)]

section

variable [Sha256]

theorem set_eq_ok {index next : Index}
    (set : index.set block slot data = .ok next) :
    (∃ range, index.geometry.range block = some range ∧ data.length = range.length) ∧ slot ≠ maxSlot ∧
      next = { index with
        entries := index.entries.insert block ⟨slot, Sha256.hash data⟩
        dirty := block :: index.dirty } := by
  unfold Index.set at set
  split at set
  · cases set
  · rename_i range inside
    split at set
    · cases set
    · rename_i whole
      split at set <;> cases set
      rename_i room
      exact ⟨⟨range, inside, not_not.mp whole⟩, room, rfl⟩

theorem Revises.set {index next : Index} (set : index.set block slot data = .ok next) : Revises index next := by
  obtain ⟨-, -, rfl⟩ := set_eq_ok set
  refine ⟨rfl, fun other member => .tail _ member, fun other clean => ?_⟩
  exact AList.lookup_insert_ne fun same => clean (same ▸ .head _)

end

theorem clearSegment_spec (blocks : List Nat) (index : Index) :
    Revises index (blocks.foldl (fun index block => if (index.get block).isSome then index.remove block else index) index) ∧
      ∀ block, (blocks.foldl (fun index block => if (index.get block).isSome then index.remove block else index) index).get
        block = if block ∈ blocks then none else index.get block := by
  induction blocks generalizing index with
  | nil => exact ⟨Revises.refl index, fun block => by simp⟩
  | cons first rest ih =>
    obtain ⟨revises, gets⟩ := ih (if (index.get first).isSome then index.remove first else index)
    have turn : Revises index (if (index.get first).isSome then index.remove first else index) := by
      split
      · exact .remove index first
      · exact .refl index
    have turned : ∀ block, (if (index.get first).isSome then index.remove first else index).get block =
        if block = first then none else index.get block := by
      intro block
      split
      · exact remove_get
      · rename_i absent
        split
        · rename_i same
          rw [same]
          simpa using absent
        · rfl
    refine ⟨turn.trans revises, fun block => ?_⟩
    rw [List.foldl_cons, gets, turned]
    by_cases same : block = first
    · simp [same]
    · simp [same]

theorem Revises.clearSegment (index : Index) (size number : Nat) : Revises index (clearSegment index size number) :=
  (clearSegment_spec _ index).1

theorem clearSegment_get : (clearSegment index size number).get block =
      if block ∈ segmentBlocks index.geometry size number then none else index.get block :=
  (clearSegment_spec _ index).2 block

theorem patched_entries (index : Index) (blocks : List Nat) (entries : Hash Nat Entry) (block : Nat) :
    (blocks.foldl (fun entries block => match index.get block with
      | some entry => entries.insert block entry
      | none => entries.erase block) entries).lookup block =
      if block ∈ blocks then index.get block else entries.lookup block := by
  induction blocks generalizing entries with
  | nil => simp
  | cons first rest ih =>
    rw [List.foldl_cons, ih]
    by_cases later : block ∈ rest
    · simp [later]
    · rw [if_neg later]
      by_cases same : block = first
      · subst same
        rw [if_pos (.head _)]
        cases index.get block with
        | some entry => exact AList.lookup_insert ..
        | none => exact AList.lookup_erase ..
      · rw [if_neg (by simp [same, later])]
        cases index.get first with
        | some entry => exact AList.lookup_insert_ne same
        | none => exact AList.lookup_erase_ne same

theorem patch_row {next : Tables} (patched : patch id index tables = some next) :
    ∃ row entries, tables.versions.lookup id = some row ∧ row.blocks.size = index.size ∧
      next = { tables with
        versions := tables.versions.insert id { row with blocks := { row.blocks with entries := entries } } } ∧
      ∀ block, entries.lookup block = if block ∈ index.dirty then index.get block else row.blocks.entries.lookup block := by
  obtain ⟨row, present, rest⟩ := Option.bind_eq_some_iff.mp patched
  split at rest <;> cases rest
  rename_i same
  exact ⟨row, _, present, not_not.mp same, rfl, patched_entries index index.dirty _⟩

theorem recast_insert (same : ∀ row, rel row row)
    (present : rows.lookup id = some row) (changed : rel row next) : Recast rel rows (rows.insert id next) := by
  intro other
  rw [Hash.lookup_insert]
  split
  · rename_i equal
    rw [equal, present]
    exact .some changed
  · cases rows.lookup other with
    | none => exact .none
    | some row => exact .some (same row)

theorem patch_recast {next : Tables} (patched : patch id index tables = some next) :
    Recast Aged tables.versions next.versions := by
  obtain ⟨row, entries, present, -, rfl, -⟩ := patch_row patched
  exact recast_insert Aged.refl present ⟨rfl, rfl, rfl, fun level => level⟩

theorem Mirrors.revise {before after : Index} (mirrors : Mirrors row before)
    (revises : Revises before after) (metadata : next.metadata = row.metadata)
    (entries : ∀ block, next.blocks.entries.lookup block = if block ∈ after.dirty then after.get block else row.blocks.entries.lookup block) :
    Mirrors next after.committed where
  geometry := by
    rw [metadata, ← mirrors.geometry]
    exact revises.geometry
  clean := rfl
  entries block := by
    rw [entries]
    split
    · rfl
    · rename_i clean
      rw [← mirrors.entries]
      exact revises.others block clean

theorem Tidy.publish (tidy : Tidy rows segments) {after : Hash (Nat × Nat) SegmentRow}
    (others : ∀ other number, other ≠ id → after.lookup (other, number) = segments.lookup (other, number))
    (placed : ∀ size, row.metadata.layout = .segments size →
      ∀ block entry, row.blocks.entries.lookup block = some entry →
      Placed after id size row.metadata.geometry block entry) : Tidy (rows.insert id row) after := by
  intro other found size present layout block entry listed
  obtain ⟨rfl, rfl⟩ | ⟨apart, present⟩ := Hash.lookup_insert_some present
  · exact placed size layout block entry listed
  · have old := tidy other found size present layout block entry listed
    refine ⟨old.inside, old.slot, ?_⟩
    rw [others _ _ apart]
    exact old.live

theorem Residents.publish (residents : Residents rows versions) (metadata : core next.metadata = core row.metadata)
    (same : core value.metadata = core row.metadata)
    (mirrors : ∀ size, row.metadata.layout = .segments size → Mirrors next value.index) :
    Residents (rows.insert id next) (versions.insert id value) := by
  intro other found present
  obtain ⟨rfl, rfl⟩ | ⟨apart, present⟩ := Hash.lookup_insert_some present
  · exact ⟨next, AList.lookup_insert .., same.trans metadata.symm, fun size layout =>
      mirrors size (layout_of_core metadata ▸ layout)⟩
  · obtain ⟨old, listed, rest⟩ := residents other found present
    exact ⟨old, (AList.lookup_insert_ne apart).trans listed, rest⟩

theorem Residents.insert (residents : Residents rows versions) {row : VersionRow}
    (stored : rows.lookup id = some row) (same : core value.metadata = core row.metadata)
    (mirrors : ∀ size, row.metadata.layout = .segments size → Mirrors row value.index) :
    Residents rows (versions.insert id value) := by
  intro other found present
  obtain ⟨rfl, rfl⟩ | ⟨-, present⟩ := Hash.lookup_insert_some present
  · exact ⟨row, stored, same, mirrors⟩
  · exact residents other found present

theorem Residents.erase (residents : Residents rows versions) : Residents rows (versions.erase id) := by
  intro other found present
  obtain ⟨-, present⟩ := Hash.lookup_erase_some present
  exact residents other found present

variable {handles : List Version} {worker : Worker} {serial : Nat} {id : Nat} {value next : Resident}

theorem Held.free (held : Held s.versions s.handles s.worker s.serial)
    (loose : s.leased id = false) : ∀ version ∈ s.handles, version.id ≠ id := by
  intro version member same
  obtain ⟨value, present, lease, -⟩ := held.residents version member
  rw [Storage.leased, ← same, present, Option.any_some, Storage.upgrades, lease, Option.any_some,
    List.any_eq_false] at loose
  exact loose version member (beq_self_eq_true _)

theorem Held.loose (held : Held s.versions s.handles s.worker s.serial)
    (found : s.versions.lookup id = some value) (loose : s.upgrades value = false) :
    ∀ version ∈ s.handles, version.id ≠ id :=
  held.free (by rw [Storage.leased, found, Option.any_some, loose])

section

variable (held : Held versions handles worker serial)
include held

theorem Held.keep (found : versions.lookup id = some value) (lease : next.lease = value.lease)
    (metadata : core next.metadata = core value.metadata) :
    Held (versions.insert id next) handles worker serial := by
  refine ⟨fun version member => ?_, held.numbers, held.worker⟩
  obtain ⟨old, present, leased, same⟩ := held.residents version member
  by_cases equal : version.id = id
  · rw [equal, found] at present
    cases present
    exact ⟨next, by rw [equal, AList.lookup_insert], lease.trans leased, metadata.trans same⟩
  · exact ⟨old, (AList.lookup_insert_ne equal).trans present, leased, same⟩

theorem Held.replace (none : ∀ version ∈ handles, version.id ≠ id) :
    Held (versions.insert id next) handles worker serial := by
  refine ⟨fun version member => ?_, held.numbers, held.worker⟩
  obtain ⟨old, present, rest⟩ := held.residents version member
  exact ⟨old, (AList.lookup_insert_ne (none version member)).trans present, rest⟩

theorem Held.erase (none : ∀ version ∈ handles, version.id ≠ id) :
    Held (versions.erase id) handles worker serial := by
  refine ⟨fun version member => ?_, held.numbers, held.worker⟩
  obtain ⟨old, present, rest⟩ := held.residents version member
  exact ⟨old, (AList.lookup_erase_ne (none version member)).trans present, rest⟩

theorem Held.absent (absent : versions.lookup id = none) : ∀ version ∈ handles, version.id ≠ id := by
  intro version member same
  obtain ⟨old, present, -⟩ := held.residents version member
  rw [same, absent] at present
  cases present

theorem Held.later {more : Nat} (later : serial ≤ more) : Held versions handles worker more :=
  ⟨held.residents, fun version member => Nat.lt_of_lt_of_le (held.numbers version member) later, held.worker⟩

end

theorem lt_divCeil {index bytes divisor : Nat} (positive : 0 < divisor) :
    index < divCeil bytes divisor ↔ index * divisor < bytes := by
  rw [divCeil, Nat.lt_iff_add_one_le, Nat.le_div_iff_mul_le positive, Nat.add_mul]
  omega

theorem validateLayout_ok
    (valid : validateLayout (.segments size) geometry = .ok ()) : 0 < size ∧ geometry.block ∣ size := by
  unfold validateLayout at valid
  split at valid
  · cases valid
  · split at valid
    · rename_i impossible
      cases impossible
    · rename_i same
      cases same
      split at valid
      · rename_i fits
        refine ⟨?_, Nat.dvd_of_mod_eq_zero fits.2⟩
        obtain ⟨same | same, -⟩ := fits <;> rw [same] <;> decide
      · cases valid

theorem mem_segmentBlocks (positive : 0 < size) (divides : geometry.block ∣ size) (inside : block < geometry.count) :
    block ∈ segmentBlocks geometry size number ↔ segmentOf geometry size block = number := by
  have some := geometry.block_pos
  obtain ⟨count, rfl⟩ := divides
  have many : 0 < count := Nat.pos_of_mul_pos_left positive
  have within := Geometry.lt_count.mp inside
  have first : number * (geometry.block * count) / geometry.block = number * count := by
    rw [Nat.mul_left_comm, Nat.mul_div_cancel_left _ some]
  have last : block < divCeil (min ((number + 1) * (geometry.block * count)) geometry.length) geometry.block ↔
      block < (number + 1) * count := by
    rw [lt_divCeil some, lt_min_iff, and_iff_left within, Nat.mul_comm block, Nat.mul_left_comm,
      Nat.mul_lt_mul_left some]
  have which : segmentOf geometry (geometry.block * count) block = block / count := by
    rw [segmentOf, Nat.mul_comm block, Nat.mul_div_mul_left _ _ some]
  rw [segmentBlocks, first, List.mem_range'_1, which, Nat.div_eq_iff many]
  have upper : (number + 1) * count = number * count + count := Nat.succ_mul ..
  omega

/-! ## What loading, removing and evicting keep -/

variable {may : Storage → Nat → Nat → Prop}

theorem Sound.tick : Closed Tick Sound := by
  rintro s _ sound ⟨_, _, _, _, _, later, more⟩
  exact { sound with
    held := sound.held.later more
    tokens := fun token row present => Nat.lt_of_lt_of_le (sound.tokens token row present) more }

theorem Sound.publishIndex (sound : Sound s) (segments : Hash (Nat × Nat) SegmentRow)
    (found : s.versions.lookup id = some value) (revises : Revises value.index index)
    (patched : patch id index s.tables = some tables)
    (others : ∀ other number, other ≠ id → segments.lookup (other, number) = s.tables.segments.lookup (other, number))
    (placed : ∀ size, value.metadata.layout = .segments size → ∀ block entry, index.get block = some entry →
      Placed segments id size value.metadata.geometry block entry) :
    Sound { s with
      tables := { tables with segments := segments }
      versions := s.versions.insert id { value with index := index.committed } } := by
  obtain ⟨row, stored, same, mirrors⟩ := sound.residents id value found
  have recast := patch_recast patched
  obtain ⟨old, entries, present, -, rfl, gets⟩ := patch_row patched
  rw [stored] at present
  cases present
  have mirror : ∀ size, row.metadata.layout = .segments size →
      Mirrors { row with blocks := { row.blocks with entries := entries } } index.committed :=
    fun size layout => (mirrors size layout).revise revises rfl gets
  refine ⟨sound.rows.recast recast, sound.tidy.publish others fun size layout block entry listed => ?_,
    sound.residents.publish rfl same mirror, sound.held.keep found rfl rfl, sound.pins, sound.tokens,
    sound.published.recast recast⟩
  have listed : index.get block = some entry := ((mirror size layout).entries block).trans listed
  have there := placed size (layout_of_core same ▸ layout) block entry listed
  rw [geometry_of_core same] at there
  exact there

theorem Sound.placed (sound : Sound s) {entry : Entry}
    (found : s.versions.lookup id = some value) (layout : value.metadata.layout = .segments size)
    (listed : value.index.get block = some entry) :
    Placed s.tables.segments id size value.metadata.geometry block entry := by
  obtain ⟨row, stored, same, mirrors⟩ := sound.residents id value found
  rw [layout_of_core same] at layout
  rw [geometry_of_core same]
  exact sound.tidy id row size stored layout block entry (((mirrors size layout).entries block).symm.trans listed)

theorem Sound.reserve : Closed Reserve Sound := by
  intro s t sound reserve
  cases reserve with
  | tick tick => exact .tick s _ sound tick
  | commitIndex found patched =>
    have published := sound.publishIndex s.tables.segments found (.refl _) patched
      (fun _ _ _ => rfl) fun size layout block entry listed => sound.placed found layout listed
    obtain ⟨row, entries, -, -, rfl, -⟩ := patch_row patched
    exact published
  | spare found clean loose =>
    exact { sound with residents := sound.residents.erase, held := sound.held.erase (sound.held.loose found loose) }

theorem Published.littered (published : Published rows files garbage building worker)
    (unused : ∀ id row, rows.lookup id = some row → row.obsolete = 0 →
      (files.lookup id).any CompleteRow.ready = true → name ≠ .ok row.generation)
    (idle : ∀ held, Worker.held worker = some held → building.isSome → name ∉ unpublished held.metadata.generation) :
    Published rows files (garbage.insert name ()) building worker where
  stored := published.stored
  clean id row present level ready := by
    rw [Hash.lookup_insert, if_neg fun same => unused id row present level ready same.symm]
    exact published.clean id row present level ready
  working held working current other member := by
    rw [Hash.lookup_insert, if_neg fun same : other = name => idle held working current (same ▸ member)]
    exact published.working held working current other member

theorem Published.tidied (published : Published rows files garbage building worker) :
    Published rows files (garbage.erase name) building worker where
  stored := published.stored
  clean id row present level ready := by
    rw [Hash.lookup_erase, published.clean id row present level ready, ite_self]
  working held working current other member := by
    rw [Hash.lookup_erase, published.working held working current other member, ite_self]

theorem Sound.discard {why : Storage → FileName → Prop}
    (unused : ∀ s name, Sound s → why s name → ∀ id row, s.tables.versions.lookup id = some row → row.obsolete = 0 →
      (s.tables.completeFiles.lookup id).any CompleteRow.ready = true → name ≠ .ok row.generation)
    (idle : ∀ s name, Sound s → why s name → ∀ held, Worker.held s.worker = some held → s.building.isSome →
      name ∉ unpublished held.metadata.generation) : Closed (Discard why) Sound := by
  intro s t sound discard
  cases discard with
  | unlink reason => exact { sound with }
  | litter reason =>
    exact { sound with published := sound.published.littered (unused s _ sound reason) (idle s _ sound reason) }
  | forget reason gone =>
    exact { sound with published := sound.published.tidied }

theorem mem_unpublished : name ∈ unpublished generation ↔ name = .okTmp generation ∨ name = .ok generation := by
  simp [unpublished]

theorem Sound.remove : Closed (Remove may) Sound := by
  intro s t sound remove
  cases remove with
  | tick tick => exact .tick s _ sound tick
  | @condemn id number size value tables allowed found layout patched =>
    obtain ⟨row, stored, same, mirrors⟩ := sound.residents id value found
    have geometry : value.index.geometry = value.metadata.geometry := by
      rw [(mirrors size (layout_of_core same ▸ layout)).geometry, geometry_of_core same]
    have valid := (sound.rows.each id row stored).layout
    rw [← layout_of_core same, ← geometry_of_core same, layout] at valid
    obtain ⟨positive, divides⟩ := validateLayout_ok valid
    have segments : tables.segments = s.tables.segments := by
      obtain ⟨_, _, -, -, rfl, -⟩ := patch_row patched
      rfl
    have marked : ∀ key, key ≠ (id, number) →
        (markDeleting id number tables).segments.lookup key = s.tables.segments.lookup key := by
      intro key apart
      rw [← segments, markDeleting]
      split
      · exact AList.lookup_insert_ne apart
      · rfl
    have published := sound.publishIndex (markDeleting id number tables).segments found
      (.clearSegment value.index size number) patched
      (fun other number apart => marked _ fun equal => apart (congrArg Prod.fst equal)) ?_
    · rw [markDeleting_versions]
      exact published
    · intro bytes bytesLayout block entry listed
      rw [layout] at bytesLayout
      cases bytesLayout
      rw [clearSegment_get] at listed
      split at listed
      · cases listed
      · rename_i outside
        have old := sound.placed found layout listed
        refine ⟨old.inside, old.slot, ?_⟩
        rw [geometry, mem_segmentBlocks positive divides old.inside] at outside
        rw [marked _ fun equal => outside (congrArg Prod.snd equal)]
        exact old.live
  | @dropRow id number marked =>
    refine { sound with tidy := fun other row size present layout block entry listed => ?_ }
    have old := sound.tidy other row size present layout block entry listed
    obtain ⟨live, there, alive⟩ := old.live
    refine ⟨old.inside, old.slot, live, ?_, alive⟩
    refine (AList.lookup_erase_ne fun equal => ?_).trans there
    rw [equal] at there
    rw [marked live there] at alive
    cases alive
  | discard discard =>
    refine .discard ?_ ?_ s _ sound discard
    · rintro s name - ⟨id, number, row, value, -, -, -, rfl⟩ other version - - -
      exact nofun
    · rintro s name - ⟨id, number, row, value, -, -, -, rfl⟩ held - - member
      rcases mem_unpublished.mp member with same | same <;> cases same

theorem Sound.settle : Closed (Settle may) Sound := by
  intro s t sound settle
  cases settle with
  | reserve reserve => exact .reserve s _ sound reserve
  | remove remove => exact .remove s _ sound remove
  | fetch absent stored loaded =>
    refine ⟨sound.rows, sound.tidy, sound.residents.insert stored (by rw [loaded.metadata]) fun size layout => ?_,
      sound.held.replace (sound.held.absent absent), sound.pins, sound.tokens, sound.published⟩
    rw [loaded.index]
    exact ⟨rfl, rfl, fun block => rfl⟩
  | cut absent stored present whole header inside =>
    rw [onFile, present]
    exact { sound with }
  | record present =>
    exact { sound with }

theorem Sound.expire : Closed Expire Sound := by
  intro s t sound expire
  cases expire with
  | tick tick => exact .tick s _ sound tick
  | doubt => exact { sound with }
  | due certain grace =>
    exact { sound with }

theorem Sound.recast (sound : Sound s) (recast : Recast Aged.Whole s.tables.versions rows) :
    Sound { s with tables := { s.tables with versions := rows } } :=
  ⟨sound.rows.recast (recast.mono fun _ _ => And.left), sound.tidy.recast recast, sound.residents.recast recast,
    sound.held, sound.pins, sound.tokens, sound.published.recast (recast.mono fun _ _ => And.left)⟩

theorem Aged.Whole.refl (row : VersionRow) : Aged.Whole row row := ⟨.refl row, rfl⟩

theorem Sound.changeVersion (sound : Sound s)
    (each : ∀ row, s.tables.versions.lookup id = some row → Aged.Whole row (change row)) :
    Sound { s with tables := changeVersion id change s.tables } := by
  rw [changeVersion_others]
  exact sound.recast (recast_changeVersion Aged.Whole.refl each)

theorem mem_versionFiles :
    name ∈ versionFiles generation ↔ name = .data generation ∨ name = .okTmp generation ∨ name = .ok generation := by
  simp [versionFiles]

theorem Sound.heldRow (sound : Sound s) {held : Version} (member : held ∈ s.handles) :
    ∃ row, s.tables.versions.lookup held.id = some row ∧ core row.metadata = core held.metadata ∧
      row.generation = held.metadata.generation := by
  obtain ⟨value, present, -, same⟩ := sound.held.residents held member
  obtain ⟨row, stored, equal, -⟩ := sound.residents held.id value present
  refine ⟨row, stored, equal.symm.trans same, ?_⟩
  rw [(sound.rows.each held.id row stored).generation, ← generation_of_core equal, generation_of_core same]

theorem Sound.unheldFile (sound : Sound s) {held : Version}
    (stored : s.tables.versions.lookup id = some row) (unheld : Unheld s id)
    (listed : name ∈ versionFiles row.generation) (member : held ∈ s.handles) :
    name ∉ unpublished held.metadata.generation := by
  intro also
  obtain ⟨other, present, -, generation⟩ := sound.heldRow member
  refine sound.held.free unheld.handles held member (sound.rows.unique _ _ other row present stored ?_)
  rw [generation]
  rcases mem_unpublished.mp also with rfl | rfl
  · rcases mem_versionFiles.mp listed with same | same | same
    · cases same
    · exact FileName.okTmp.inj same
    · cases same
  · rcases mem_versionFiles.mp listed with same | same | same
    · cases same
    · cases same
    · exact FileName.ok.inj same

theorem Sound.purge : Closed (Purge may) Sound := by
  intro s t sound purge
  cases purge with
  | settle settle => exact .settle s _ sound settle
  | expire expire => exact .expire s _ sound expire
  | obsolete unheld => exact sound.changeVersion fun row _ => setObsolete_whole (by decide) row
  | release unheld =>
    exact { sound with
      residents := sound.residents.erase
      held := sound.held.erase (sound.held.free unheld.handles) }
  | discard discard =>
    refine .discard ?_ ?_ s _ sound discard
    · rintro s name sound ⟨id, row, stored, level, listed, -, -⟩ other version present used - rfl
      rcases mem_versionFiles.mp listed with same | same | same
      · cases same
      · cases same
      · have equal := sound.rows.unique _ _ version row present stored (FileName.ok.inj same)
        rw [equal, stored] at present
        cases present
        rw [used] at level
        cases level
    · rintro s name sound ⟨id, row, stored, -, listed, unheld, -⟩ held working -
      exact sound.unheldFile stored unheld listed (sound.held.worker held working).1
  | @deleteRows id unheld gone =>
    have other : ∀ {key row}, (s.tables.versions.erase id).lookup key = some row →
        key ≠ id ∧ s.tables.versions.lookup key = some row := by
      intro key row present
      rw [Hash.lookup_erase] at present
      split at present
      · cases present
      · rename_i apart
        exact ⟨apart, present⟩
    refine ⟨⟨fun key row present => sound.rows.each key row (other present).2,
      fun key second row same present stored => sound.rows.unique key second row same (other present).2 (other stored).2⟩,
      fun key row size present layout block entry listed => ?_, fun key value present => ?_, sound.held, sound.pins,
      sound.tokens, fun key ready => ?_, fun key row present level ready => ?_, sound.published.working⟩
    · have old := sound.tidy key row size (other present).2 layout block entry listed
      obtain ⟨segment, there, live⟩ := old.live
      refine ⟨old.inside, old.slot, segment, ?_, live⟩
      refine (Hash.lookup_filter ..).trans ?_
      rw [there]
      exact if_pos (decide_eq_true (other present).1)
    · obtain ⟨row, stored, rest⟩ := sound.residents key value present
      refine ⟨row, (AList.lookup_erase_ne fun same => ?_).trans stored, rest⟩
      rw [same, gone] at present
      cases present
    · change ((s.tables.completeFiles.erase id).lookup key).any CompleteRow.ready = true at ready
      rw [Hash.lookup_erase] at ready
      split at ready
      · cases ready
      · rename_i apart
        obtain ⟨row, stored, layout⟩ := sound.published.stored key ready
        exact ⟨row, (AList.lookup_erase_ne apart).trans stored, layout⟩
    · change ((s.tables.completeFiles.erase id).lookup key).any CompleteRow.ready = true at ready
      rw [Hash.lookup_erase, if_neg (other present).1] at ready
      exact sound.published.clean key row (other present).2 level ready

theorem markPackDeleting_others {token : Token} :
    markPackDeleting token tables = { tables with packs := (markPackDeleting token tables).packs } := by
  unfold markPackDeleting
  split <;> rfl

theorem Sound.unpack : Closed Unpack Sound := by
  intro s t sound unpack
  cases unpack with
  | tick tick => exact .tick s _ sound tick
  | @condemn token =>
    rw [markPackDeleting_others]
    refine { sound with tokens := fun other row present => ?_ }
    change (markPackDeleting token (deleteObjectsOf token s.tables)).packs.lookup other = some row at present
    unfold markPackDeleting at present
    split at present
    · rename_i old found
      obtain ⟨rfl, present⟩ | ⟨-, present⟩ := Hash.lookup_insert_some present
      · exact sound.tokens token old found
      · exact sound.tokens other row present
    · exact sound.tokens other row present
  | discard discard =>
    refine .discard ?_ ?_ s _ sound discard
    · rintro s name - ⟨token, rfl, -⟩ other version - - -
      exact nofun
    · rintro s name - ⟨token, rfl, -⟩ held - - member
      rcases mem_unpublished.mp member with same | same <;> cases same
  | @dropRow token marked =>
    refine { sound with tokens := fun other row present => ?_ }
    obtain ⟨-, present⟩ := Hash.lookup_erase_some present
    exact sound.tokens other row present

theorem Sound.evict : Closed (Evict may) Sound := by
  intro s t sound evict
  cases evict with
  | purge purge => exact .purge s _ sound purge
  | unpack unpack => exact .unpack s _ sound unpack

/-- Rows only age or go. -/
def Descends (before after : Hash Nat VersionRow) : Prop :=
  ∀ id row, after.lookup id = some row → ∃ old, before.lookup id = some old ∧ Aged old row

theorem descends_refl : Descends rows rows := fun _ row present => ⟨row, present, .refl row⟩

theorem aged_of_head (same : headOf row = headOf old) : Aged old row := by
  have generation := congrArg VersionRow.generation same
  have provider := congrArg VersionRow.provider same
  have metadata := congrArg (fun row => core row.metadata) same
  have level := congrArg VersionRow.obsolete same
  exact ⟨generation, provider, metadata, fun none => level.symm.trans none⟩

variable {s t : Storage}

theorem settle_descends (settle : Settle may s t) : Descends s.tables.versions t.tables.versions := by
  intro id row present
  have same := settle.frame.rows id
  rw [present] at same
  obtain ⟨old, stored, head⟩ := Option.map_eq_some_iff.mp same.symm
  exact ⟨old, stored, aged_of_head head.symm⟩

theorem purge_descends (purge : Purge may s t) : Descends s.tables.versions t.tables.versions := by
  cases purge with
  | settle settle => exact settle_descends settle
  | expire expire =>
    cases expire with
    | tick tick =>
      cases tick
      exact descends_refl
    | _ => exact descends_refl
  | @obsolete id unheld =>
    have recast : Recast Aged s.tables.versions (changeVersion id (setObsolete 2) s.tables).versions :=
      recast_changeVersion Aged.refl fun row _ => (setObsolete_whole (by decide) row).1
    exact fun id row present => recast.back present
  | release unheld => exact descends_refl
  | discard discard => cases discard <;> exact descends_refl
  | @deleteRows gone unheld absent =>
    intro id row present
    obtain ⟨-, present⟩ := Hash.lookup_erase_some present
    exact ⟨row, present, .refl row⟩

theorem unpack_versions (unpack : Unpack s t) : t.tables.versions = s.tables.versions := by
  cases unpack with
  | tick tick =>
    cases tick
    rfl
  | condemn =>
    rw [markPackDeleting_others]
    rfl
  | discard discard => cases discard <;> rfl
  | dropRow marked => rfl

theorem evict_descends (evict : Evict may s t) : Descends s.tables.versions t.tables.versions := by
  cases evict with
  | purge purge => exact purge_descends purge
  | unpack unpack =>
    rw [unpack_versions unpack]
    exact descends_refl

/-- What callers and the worker hold, and what else eviction does not touch. -/
def beyond (s : Storage) : Storage :=
  { s with
    tables := Tables.fresh
    files := ∅
    databaseBytes := 0
    versions := ∅
    sizes := ∅
    clockUncertain := false
    garbage := ∅
    instant := 0
    segmentClock := 0
    serial := 0
    tape := [] }

theorem settle_beyond (settle : Settle may s t) : beyond t = beyond s := by
  have same := congrArg beyond settle.frame.outside
  exact same

theorem evict_beyond (evict : Evict may s t) : beyond t = beyond s := by
  cases evict with
  | purge purge =>
    cases purge with
    | settle settle => exact settle_beyond settle
    | expire expire =>
      cases expire with
      | tick tick =>
        cases tick
        rfl
      | _ => rfl
    | obsolete unheld | release unheld => rfl
    | discard discard => cases discard <;> rfl
    | deleteRows unheld absent => rfl
  | unpack unpack =>
    cases unpack with
    | tick tick =>
      cases tick
      rfl
    | condemn => rfl
    | discard discard => cases discard <;> rfl
    | dropRow marked => rfl

theorem evict_part {τ : Type} (evict : Evict may s t) (part : Storage → τ) (inside : ∀ s, part (beyond s) = part s) :
    part t = part s := by
  rw [← inside t, ← inside s, evict_beyond evict]

end Qcm.CacheSound
