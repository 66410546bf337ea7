import Mathlib

/-!
Base64 in lines (`encode` and `decode` in `crypto/mod.rs`).

The encoder breaks what the engine writes into lines; the decoder gives them to
the engine as they are, which refuses a line feed.
-/

namespace Qcm.Base64Lines

abbrev Bytes := List UInt8

/-- `'\n'` -/
def lineFeed : UInt8 := 10

/-- The engine `STANDARD` of the crate `base64`. -/
structure Engine where
  encode : Bytes → Bytes
  decode : Bytes → Option Bytes

/-- A byte of the standard alphabet, or the padding. -/
def symbol (byte : UInt8) : Bool :=
  (65 ≤ byte && byte ≤ 90) || (97 ≤ byte && byte ≤ 122) || (48 ≤ byte && byte ≤ 57) || byte == 43 || byte == 47 ||
    byte == 61

/-- What the engine does: it writes symbols, and nothing for no data only; and it refuses a text with another byte. -/
structure Engine.Standard (engine : Engine) : Prop where
  symbols : ∀ data, ∀ byte ∈ engine.encode data, symbol byte = true
  some : ∀ data, engine.encode data = [] ↔ data = []
  empty : engine.decode [] = .some []
  refuses : ∀ text, (∃ byte ∈ text, symbol byte = false) → engine.decode text = none

/-- `out[place] = byte`, which has no result where the index is outside. -/
def put (out : Bytes) (place : Nat) (byte : Option UInt8) : Option Bytes :=
  if place < out.length then byte.map (out.set place) else none

/-- A copy loop, and the line feed after it. -/
def putLine (block : Bytes) (outPrefix inPrefix count : Nat) (out : Bytes) : Option Bytes := do
  let out ← (List.range count).foldlM (fun out j => put out (outPrefix + j) block[inPrefix + j]?) out
  put out (outPrefix + count) lineFeed

/-- `encode_block` -/
def Engine.encodeBlock (engine : Engine) (data : Bytes) : Bytes := engine.encode data

def encode (engine : Engine) (data : Bytes) : Option Bytes := do
  let block := engine.encode data
  let len := block.length
  let blockLen := len / 64
  let lastLineLen := len % 64
  let fin := len + blockLen + if lastLineLen > 0 then 1 else 0
  let out ← (List.range blockLen).foldlM (fun out i => putLine block (i * 65) (i * 64) 64 out) (List.replicate fin 0)
  if lastLineLen > 0 then putLine block (blockLen * 65) (blockLen * 64) lastLineLen out else some out

def decode (engine : Engine) (data : Bytes) : Option Bytes := engine.decode data

/-- The text is the block in lines. -/
structure Wraps (block out : Bytes) : Prop where
  lines : ∃ lines : List Bytes, out = lines.flatMap (· ++ [lineFeed]) ∧
    ∀ line ∈ lines, line.length ≤ 64 ∧ ∀ byte ∈ line, symbol byte = true
  whole : out.filter (· ≠ lineFeed) = block

variable {block written room out : Bytes} {data : Bytes} {outPrefix inPrefix count n : Nat} {byte : UInt8} {engine : Engine}

theorem put_next (byte : UInt8) (room : Bytes) (start : written.length = outPrefix) (left : 0 < room.length) :
    put (written ++ room) outPrefix byte = some (written ++ [byte] ++ room.drop 1) := by
  cases room with
  | nil => cases left
  | cons old rest =>
    subst start
    simp [put]

theorem copy_next (start : written.length = outPrefix) (fits : count ≤ room.length)
    (inside : inPrefix + count ≤ block.length) :
    (List.range count).foldlM (fun out j => put out (outPrefix + j) block[inPrefix + j]?) (written ++ room) =
      some (written ++ (block.drop inPrefix).take count ++ room.drop count) := by
  induction count with
  | zero => simp
  | succ count ih =>
    have there : inPrefix + count < block.length := inside
    rw [List.range_succ, List.foldlM_append, ih (Nat.le_of_succ_le fits) (Nat.le_of_lt there)]
    have size : (written ++ (block.drop inPrefix).take count).length = outPrefix + count := by
      rw [List.length_append, List.length_take, List.length_drop, start]
      omega
    have next := put_next block[inPrefix + count] (room.drop count) size (by rw [List.length_drop]; omega)
    rw [List.drop_drop] at next
    have taken : (block.drop inPrefix).take (count + 1) = (block.drop inPrefix).take count ++ [block[inPrefix + count]] := by
      rw [List.take_add_one, List.getElem?_drop, List.getElem?_eq_getElem there]
      rfl
    rw [taken, ← List.append_assoc]
    simpa [List.getElem?_eq_getElem there] using next

theorem putLine_next (room : Bytes) (start : written.length = outPrefix) (fits : count < room.length)
    (inside : inPrefix + count ≤ block.length) : putLine block outPrefix inPrefix count (written ++ room) =
      some (written ++ ((block.drop inPrefix).take count ++ [lineFeed]) ++ room.drop (count + 1)) := by
  have size : (written ++ (block.drop inPrefix).take count).length = outPrefix + count := by
    rw [List.length_append, List.length_take, List.length_drop, start]
    omega
  have next := put_next lineFeed (room.drop count) size (by rw [List.length_drop]; omega)
  rw [List.drop_drop] at next
  rw [putLine, copy_next start (Nat.le_of_lt fits) inside, ← List.append_assoc written]
  exact next

/-! ## The lines -/

def line (block : Bytes) (i : Nat) : Bytes := (block.drop (i * 64)).take 64

/-- The first lines of the text. -/
def lines (block : Bytes) (n : Nat) : Bytes := (List.range n).flatMap fun i => line block i ++ [lineFeed]

theorem lines_succ : lines block (n + 1) = lines block n ++ (line block n ++ [lineFeed]) := by
  simp [lines, List.range_succ]

theorem length_lines (full : n * 64 ≤ block.length) : (lines block n).length = n * 65 := by
  induction n with
  | zero => rfl
  | succ n ih =>
    rw [lines_succ, List.length_append, ih (by omega), List.length_append, line, List.length_take, List.length_drop]
    simp only [List.length_singleton]
    omega

theorem putLines (full : n * 64 ≤ block.length) (fits : n * 65 ≤ room.length) :
    (List.range n).foldlM (fun out i => putLine block (i * 65) (i * 64) 64 out) room =
      some (lines block n ++ room.drop (n * 65)) := by
  induction n with
  | zero => simp [lines]
  | succ n ih =>
    have before : (lines block n).length = n * 65 := length_lines (by omega)
    have next := putLine_next (room.drop (n * 65)) before (by rw [List.length_drop]; omega)
      (show n * 64 + 64 ≤ block.length by omega)
    rw [List.range_succ, List.foldlM_append, ih (by omega) (by omega), lines_succ]
    rw [List.drop_drop] at next
    simpa [line, Nat.succ_mul] using next

theorem filter_lines (symbols : ∀ byte ∈ block, symbol byte = true) :
    (lines block n).filter (· ≠ lineFeed) = block.take (n * 64) := by
  have line_feeds : ∀ i, (line block i).filter (· ≠ lineFeed) = line block i := by
    refine fun i => List.filter_eq_self.mpr fun byte member => decide_eq_true ?_
    rintro rfl
    exact absurd (symbols _ (List.mem_of_mem_drop (List.mem_of_mem_take member))) (by decide)
  induction n with
  | zero => rfl
  | succ n ih =>
    rw [lines_succ, List.filter_append, ih, List.filter_append, line_feeds, line, Nat.succ_mul, List.take_add]
    simp

theorem wraps_lines (symbols : ∀ byte ∈ block, symbol byte = true) (whole : block.length ≤ n * 64) :
    Wraps block (lines block n) := by
  refine ⟨⟨(List.range n).map (line block), by simp [lines, List.flatMap_map], fun text member => ?_⟩, ?_⟩
  · obtain ⟨i, -, rfl⟩ := List.mem_map.mp member
    exact ⟨List.length_take_le .., fun byte member => symbols byte (List.mem_of_mem_drop (List.mem_of_mem_take member))⟩
  · rw [filter_lines symbols, List.take_of_length_le whole]

theorem encode_eq (engine : Engine) (data : Bytes) : ∃ n, (engine.encode data).length ≤ n * 64 ∧ (engine.encode data = [] → n = 0) ∧
    encode engine data = some (lines (engine.encode data) n) := by
  unfold encode
  generalize engine.encode data = block
  have parts := Nat.div_add_mod block.length 64
  have less := Nat.mod_lt block.length (by decide : 0 < 64)
  dsimp only
  generalize block.length / 64 = full, block.length % 64 = last at parts less ⊢
  have inside : full * 64 ≤ block.length := by omega
  simp only [Option.bind_eq_bind]
  rw [putLines inside (by rw [List.length_replicate]; omega), Option.bind_some]
  by_cases some : last > 0
  · refine ⟨full + 1, by omega, fun none => absurd parts (by rw [none, List.length_nil]; omega), ?_⟩
    rw [if_pos some, if_pos some, putLine_next _ (length_lines inside)
      (by rw [List.length_drop, List.length_replicate]; omega) (by omega), lines_succ, line]
    have rest : (block.drop (full * 64)).length = last := by
      rw [List.length_drop]
      omega
    have beyond : ((List.replicate (block.length + full + 1) (0 : UInt8)).drop (full * 65)).drop (last + 1) = [] :=
      List.drop_eq_nil_of_le (by rw [List.length_drop, List.length_replicate]; omega)
    rw [List.take_of_length_le (by omega : _ ≤ last), List.take_of_length_le (by omega : _ ≤ 64), beyond, List.append_nil]
  · refine ⟨full, by omega, fun none => by rw [none, List.length_nil] at parts; omega, ?_⟩
    rw [if_neg some, if_neg some, List.drop_eq_nil_of_le (by rw [List.length_replicate]; omega), List.append_nil]

/-- The round trip: the encoder writes the block in lines, and the decoder reads back the data. -/
structure RoundTrips (engine : Engine) (data : Bytes) : Prop where
  wraps : ∃ out, encode engine data = some out ∧ Wraps (engine.encodeBlock data) out
  reads : (encode engine data).bind (decode engine) = some data

/-- The text is in lines whatever the data is, and it is read back just when there is no data. -/
theorem encode_wraps (standard : engine.Standard) (data : Bytes) :
    (∃ out, encode engine data = some out ∧ Wraps (engine.encodeBlock data) out) ∧
      (RoundTrips engine data ↔ data = []) := by
  obtain ⟨n, whole, none, encoded⟩ := encode_eq engine data
  have wraps := wraps_lines (standard.symbols data) whole
  refine ⟨⟨_, encoded, wraps⟩, fun ⟨_, reads⟩ => ?_, fun empty => ⟨⟨_, encoded, wraps⟩, ?_⟩⟩
  · by_contra some
    have filled : engine.encode data ≠ [] := mt (standard.some data).mp some
    have positive := List.length_pos_iff.mpr filled
    obtain ⟨n, rfl⟩ := Nat.exists_eq_succ_of_ne_zero (by omega : n ≠ 0)
    have feeds : lineFeed ∈ lines (engine.encode data) (n + 1) := by simp [lines_succ]
    rw [encoded, Option.bind_some, decode, standard.refuses _ ⟨_, feeds, rfl⟩] at reads
    cases reads
  · rw [encoded, none ((standard.some data).mpr empty), empty]
    exact standard.empty

/-- The engine, for a zero byte. -/
def zero : Engine where
  encode data := if data = [] then [] else [65, 65, 61, 61]
  decode text := if text = [] then some [] else if ∀ byte ∈ text, symbol byte = true then some [0] else none

theorem zero_standard : zero.Standard where
  symbols data := by
    unfold zero
    dsimp only
    split <;> simp [symbol]
  some data := by simp [zero]
  empty := rfl
  refuses text := by
    rintro ⟨byte, member, bad⟩
    have filled := List.ne_nil_of_mem member
    simp only [zero, if_neg filled]
    exact if_neg fun all => absurd (all byte member) (by simp [bad])

theorem encode_wraps_zero : (∃ out, encode zero [0] = some out ∧ Wraps (zero.encodeBlock [0]) out) ∧
    (RoundTrips zero [0] ↔ [0] = ([] : Bytes)) :=
  encode_wraps zero_standard [0]

theorem zero_lost : ¬ ∀ engine : Engine, engine.Standard → ∀ data, RoundTrips engine data := fun claim =>
  absurd (claim zero zero_standard [0]).reads (by decide)

end Qcm.Base64Lines
