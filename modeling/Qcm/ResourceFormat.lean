import Mathlib

/-!
Block geometry of cached resources (`backend/main/src/resource_cache/format.rs`).

A resource is cut into blocks of one size, the last of which may be shorter.
Sizes are natural numbers: `Geometry::new` bounds a resource by a million blocks
of a mebibyte, far below the range of `u64`.
-/

namespace Qcm.ResourceFormat

def minBlock : Nat := 256 * 1024
def maxBlock : Nat := 1024 * 1024
def segmentBytes : Nat := 16 * 1024 * 1024
def windowBytes : Nat := 4 * 1024 * 1024

/-- `Range<u64>`: half-open. -/
structure ByteRange where
  start : Nat
  stop : Nat
  deriving DecidableEq

def ByteRange.contains (range : ByteRange) (position : Nat) : Bool :=
  decide (range.start ≤ position ∧ position < range.stop)

def ByteRange.length (range : ByteRange) : Nat := range.stop - range.start

theorem ByteRange.contains_iff {range : ByteRange} {position : Nat} :
    range.contains position = true ↔ range.start ≤ position ∧ position < range.stop :=
  decide_eq_true_iff

/-- `u64::div_ceil` -/
def divCeil (value divisor : Nat) : Nat := (value + divisor - 1) / divisor

/-- `Geometry`, with one of the block sizes that every load checks for. -/
structure Geometry where
  length : Nat
  block : Nat
  size : block = minBlock ∨ block = 524288 ∨ block = maxBlock

theorem minBlock_listed : minBlock = minBlock ∨ minBlock = 524288 ∨ minBlock = maxBlock := .inl rfl

def Geometry.count (geometry : Geometry) : Nat := divCeil geometry.length geometry.block

/-- `Geometry::new`: the smallest block with at most 8192 blocks, if there is one. -/
def Geometry.new (length : Nat) : Option Geometry :=
  let geometry : Geometry :=
    if divCeil length minBlock ≤ 8192 then ⟨length, minBlock, .inl rfl⟩
    else if divCeil length 524288 ≤ 8192 then ⟨length, 524288, .inr (.inl rfl)⟩
    else ⟨length, maxBlock, .inr (.inr rfl)⟩
  if geometry.count ≤ 1000000 then some geometry else none

/-- `Geometry::range`: the bytes of a block, none when it is out of bounds. -/
def Geometry.range (geometry : Geometry) (index : Nat) : Option ByteRange :=
  if index < geometry.count then
    some ⟨index * geometry.block, min ((index + 1) * geometry.block) geometry.length⟩
  else none

inductive Layout where
  | blocks
  | segments (bytes : Nat)
  deriving DecidableEq

def Layout.segmentBytes : Layout → Option Nat
  | .blocks => none
  | .segments bytes => some bytes

variable {geometry : Geometry} {index position : Nat} {range : ByteRange}

theorem Geometry.block_pos (geometry : Geometry) : 0 < geometry.block := by
  obtain same | same | same := geometry.size <;> rw [same] <;> decide

theorem Geometry.block_dvd_maxBlock (geometry : Geometry) : geometry.block ∣ maxBlock := by
  obtain same | same | same := geometry.size <;> rw [same] <;> decide

theorem Geometry.lt_count : index < geometry.count ↔ index * geometry.block < geometry.length := by
  have positive := geometry.block_pos
  rw [Geometry.count, divCeil, Nat.lt_iff_add_one_le, Nat.le_div_iff_mul_le positive, Nat.add_mul]
  omega

theorem Geometry.range_eq_some :
    geometry.range index = some range ↔ index * geometry.block < geometry.length ∧
      range = ⟨index * geometry.block, min ((index + 1) * geometry.block) geometry.length⟩ := by
  rw [Geometry.range, ← Geometry.lt_count]
  split
  · rename_i inside
    simp [inside, eq_comm]
  · rename_i outside
    simp [outside]

/-- A position lies in the block of its index. -/
theorem Geometry.index_bounds (geometry : Geometry) (position : Nat) :
    position / geometry.block * geometry.block ≤ position ∧
      position < (position / geometry.block + 1) * geometry.block := by
  have positive := geometry.block_pos
  refine ⟨Nat.div_mul_le_self _ _, ?_⟩
  rw [Nat.add_mul, Nat.one_mul]
  exact Nat.lt_div_mul_add positive

/-- A byte range starts and ends where blocks do, inside the resource. -/
structure Aligned (geometry : Geometry) (range : ByteRange) : Prop where
  start : geometry.block ∣ range.start
  stop : geometry.block ∣ range.stop ∨ range.stop = geometry.length
  inside : range.stop ≤ geometry.length

/-- An aligned range contains a position when it contains the start of its block. -/
theorem Aligned.contains_start (aligned : Aligned geometry range) (inside : position < geometry.length)
    (start : range.start ≤ position / geometry.block * geometry.block)
    (stop : position / geometry.block * geometry.block < range.stop) :
    range.contains position = true := by
  obtain ⟨lower, upper⟩ := geometry.index_bounds position
  refine ByteRange.contains_iff.mpr ⟨Nat.le_trans start lower, ?_⟩
  obtain ⟨last, same⟩ | whole := aligned.stop
  · rw [same, Nat.mul_comm] at stop
    have index : position / geometry.block < last := Nat.lt_of_mul_lt_mul_left stop
    rw [same, Nat.mul_comm]
    exact Nat.lt_of_lt_of_le upper (Nat.mul_le_mul_right _ index)
  · rwa [whole]

end Qcm.ResourceFormat
