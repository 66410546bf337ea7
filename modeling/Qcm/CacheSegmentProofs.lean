import Qcm.CacheRuns

/-!
The segments of a version and the entries of its index fit together in every
state of the cache, and after every operation on it, whichever way it ended.
-/

namespace Qcm.CacheSegmentProofs

open Lib Lib.Act ResourceFormat CacheState CacheDisk CacheLoad CacheStore
  CacheFiles CacheEvents CacheRules CacheSound CacheChange CacheSteps

/-- A present entry of the index of a segmented version, in its row or in memory. -/
inductive Entered (s : Storage) (id size : Nat) : Geometry → Nat → Entry → Prop where
  | stored {row : VersionRow} {block : Nat} {entry : Entry} (present : s.tables.versions.lookup id = some row)
      (layout : row.metadata.layout = .segments size) (listed : row.blocks.entries.lookup block = some entry) :
      Entered s id size row.metadata.geometry block entry
  | resident {value : Resident} {block : Nat} {entry : Entry} (present : s.versions.lookup id = some value)
      (layout : value.metadata.layout = .segments size) (listed : value.index.get block = some entry) :
      Entered s id size value.metadata.geometry block entry

/-- A segment that is being deleted has no entry inside it; an entry has a live segment, and the
slot that its block has there. -/
structure Segmented (s : Storage) : Prop where
  dead : ∀ id number segment, s.tables.segments.lookup (id, number) = some segment → segment.deleting = true →
    ∀ size geometry block entry, Entered s id size geometry block entry → block ∉ segmentBlocks geometry size number
  covered : ∀ id size geometry block entry, Entered s id size geometry block entry →
    ∃ number segment, s.tables.segments.lookup (id, number) = some segment ∧ segment.deleting = false ∧
      block ∈ segmentBlocks geometry size number
  slot : ∀ id size geometry block entry, Entered s id size geometry block entry →
    entry.slot = block % (size / geometry.block)

theorem entered_placed {s : Storage} (sound : Sound s) {id size block : Nat} {geometry : Geometry} {entry : Entry}
    (entered : Entered s id size geometry block entry) :
    Placed s.tables.segments id size geometry block entry ∧ ∀ number,
      block ∈ segmentBlocks geometry size number ↔ segmentOf geometry size block = number := by
  cases entered with
  | @stored row _ _ present layout listed =>
    have placed := sound.tidy id row size present layout block entry listed
    have valid := (sound.rows.each id row present).layout
    rw [layout] at valid
    obtain ⟨positive, divides⟩ := validateLayout_ok valid
    exact ⟨placed, fun number => mem_segmentBlocks positive divides placed.inside⟩
  | @resident value _ _ present layout listed =>
    have placed := sound.placed present layout listed
    obtain ⟨row, stored, same, -⟩ := sound.residents id value present
    have valid := (sound.rows.each id row stored).layout
    rw [← layout_of_core same, ← geometry_of_core same, layout] at valid
    obtain ⟨positive, divides⟩ := validateLayout_ok valid
    exact ⟨placed, fun number => mem_segmentBlocks positive divides placed.inside⟩

theorem segmented_of_sound {s : Storage} (sound : Sound s) : Segmented s where
  dead id number segment listed deleting size geometry block entry entered inside := by
    obtain ⟨placed, blocks⟩ := entered_placed sound entered
    obtain ⟨row, live, alive⟩ := placed.live
    rw [(blocks number).mp inside, listed] at live
    cases live
    rw [deleting] at alive
    cases alive
  covered id size geometry block entry entered := by
    obtain ⟨placed, blocks⟩ := entered_placed sound entered
    obtain ⟨row, live, alive⟩ := placed.live
    exact ⟨_, row, live, alive, (blocks _).mpr rfl⟩
  slot id size geometry block entry entered := (entered_placed sound entered).1.slot

variable [Sha256]

/-- Rows and entries of segments fit together in every state that the cache can be in, and after every
write, eviction, removal and reopening there, whether it was completed or cut off anywhere. -/
theorem segments_fit_entries {s : Storage} (reached : Reachable s) :
    Segmented s ∧ ∀ tape : List Chance,
      (∀ id blocks, Segmented (writeSegments id blocks { s with tape := tape }).2) ∧
      (∀ required, Segmented (evict required { s with tape := tape }).2) ∧
      (∀ id number, Segmented (removeSegment id number { s with tape := tape }).2) ∧
      ∀ capacity, Segmented (openStorage capacity { restart s with tape := tape }).2 := by
  have kept : Kept .usage s Sound := ⟨Sound.change, fun _ => id⟩
  have sound := reached.sound
  refine ⟨segmented_of_sound sound, fun tape => ?_⟩
  have retaped : ∀ t, Sound t → Sound { t with tape := tape } := fun t holds =>
    kept.ticks t _ holds (.pass _ _ _ _ _ _ le_rfl le_rfl)
  refine ⟨fun id blocks => ?_, fun required => ?_, fun id number => ?_, fun capacity => ?_⟩
  · exact segmented_of_sound (kept.writeSegments.final (retaped s sound))
  · exact segmented_of_sound (kept.evict.final (retaped s sound))
  · exact segmented_of_sound (kept.removeSegment.final (retaped s sound))
  · have launching : Kept (.launch capacity) s Sound := ⟨Sound.change, fun _ => id⟩
    have opened : Triple (fun s => Sound s ∧ s.worker = .idle) (openStorage capacity) (fun _ => Sound) Sound :=
      launching.openStorage Sound.configure rfl
    have ended := opened { restart s with tape := tape } ⟨retaped _ sound.restart, rfl⟩
    revert ended
    cases (openStorage capacity { restart s with tape := tape }).1 <;> exact segmented_of_sound

/-- A resource that is cached in segments. -/
def clip : Metadata where
  key := "clip"
  provider := 1
  kind := 1
  generation := "0123456789abcdef0123456789abcdef"
  geometry := ⟨20971520, minBlock, minBlock_listed⟩
  store := true
  layout := .blocks

omit [Sha256] in
theorem segments_fit_a_written_clip :
    let _ := openssl
    let created := perform (.create clip) [] (perform (.launch defaultCapacity) [] Storage.fresh)
    Segmented (perform (.write 1 [(0, List.replicate minBlock 7)]) [] created) := by
  intro _ created
  have reached : Reachable created := (Reachable.fresh.perform (.launch defaultCapacity) []).perform (.create clip) []
  exact (segments_fit_entries (reached.perform (.write 1 [(0, List.replicate minBlock 7)]) [])).1

end Qcm.CacheSegmentProofs
