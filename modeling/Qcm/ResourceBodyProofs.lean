import Qcm.ResourceBody

/-!
The frames of a response body are the bytes of the range, in order.

As long as every read yields the bytes of its block, a poll before the end gives
out the next bytes and moves the cursor behind them; so the stream ends after as
many polls as there are bytes, at most.
-/

namespace Qcm.ResourceBodyProofs

open ResourceFormat ResourceBody
open ResourceDownloads (fetchBytes outputBytes)

/-- The bytes of a resource from one position on. -/
def bytesFrom (content : Nat → UInt8) (start count : Nat) : List UInt8 :=
  (List.range' start count).map content

/-- The bytes of a block, the last of which may be short. -/
def blockBytes (content : Nat → UInt8) (geometry : Geometry) (index : Nat) : List UInt8 :=
  bytesFrom content (index * geometry.block)
    (min ((index + 1) * geometry.block) geometry.length - index * geometry.block)

/-- What a read of a block yields is its bytes. -/
def Honest (content : Nat → UInt8) (geometry : Geometry) (around : Surroundings) : Prop :=
  ∀ index bytes download, index * geometry.block < geometry.length →
    around.read index = some (bytes, download) → bytes = blockBytes content geometry index

/-- Nothing stops the reader, and every block can be read. -/
structure Serves (geometry : Geometry) (around : Surroundings) : Prop where
  going : around.closed = false
  active : around.active = true
  read (index : Nat) (inside : index * geometry.block < geometry.length) : (around.read index).isSome

/-- The cursor is inside the range, and the block that is held is one of the
resource. -/
structure Sound (content : Nat → UInt8) (reader : Reader) : Prop where
  cursor : reader.cursor ≤ reader.stop
  stop : reader.stop ≤ reader.geometry.length
  window : reader.window ≤ fetchBytes
  block (index : Nat) (bytes : List UInt8) (held : reader.block = some (index, bytes)) :
    bytes = blockBytes content reader.geometry index

variable {content : Nat → UInt8} {reader next : Reader} {around : Surroundings} {start count : Nat}

private theorem bytesFrom_slice {offset size : Nat} (inside : offset + size ≤ count) :
    ((bytesFrom content start count).drop offset).take size = bytesFrom content (start + offset) size := by
  rw [bytesFrom, ← List.map_drop, ← List.map_take, List.drop_range',
    List.take_range'_of_length_ge (by omega), Nat.mul_one, bytesFrom]

theorem bytesFrom_append {more : Nat} :
    bytesFrom content start count ++ bytesFrom content (start + count) more =
      bytesFrom content start (count + more) := by
  rw [bytesFrom, bytesFrom, bytesFrom, ← List.map_append, List.range'_append_1]

/-- What one frame gives out. -/
structure Emits (content : Nat → UInt8) (reader : Reader) (frame : List UInt8) (next : Reader) : Prop where
  bytes : frame = bytesFrom content reader.cursor (next.cursor - reader.cursor)
  forward : reader.cursor < next.cursor
  inside : next.cursor ≤ reader.stop
  short : frame.length ≤ outputBytes
  sound : Sound content next
  stop : next.stop = reader.stop
  geometry : next.geometry = reader.geometry

theorem Sound.emit (sound : Sound content reader) (more : reader.cursor < reader.stop) :
    Emits content reader (reader.emit (blockBytes content reader.geometry reader.index)).1
      (reader.emit (blockBytes content reader.geometry reader.index)).2 := by
  have bounds := reader.geometry.index_bounds reader.cursor
  have stop := sound.stop
  have cursor : reader.index * reader.geometry.block + reader.cursor % reader.geometry.block = reader.cursor := by
    rw [Reader.index, Nat.mul_comm]
    exact Nat.div_add_mod _ _
  have positive : 0 < outputBytes := by decide
  have size : (blockBytes content reader.geometry reader.index).length =
      min ((reader.index + 1) * reader.geometry.block) reader.geometry.length -
        reader.index * reader.geometry.block := by
    rw [blockBytes, bytesFrom, List.length_map, List.length_range']
  have upper : reader.cursor < (reader.index + 1) * reader.geometry.block := bounds.2
  generalize taken : min (min outputBytes ((blockBytes content reader.geometry reader.index).length -
    reader.cursor % reader.geometry.block)) (reader.stop - reader.cursor) = length
  have emitted : reader.emit (blockBytes content reader.geometry reader.index) =
      (((blockBytes content reader.geometry reader.index).drop (reader.cursor % reader.geometry.block)).take length,
        { reader with cursor := reader.cursor + length }) := by
    rw [← taken]
    rfl
  rw [size] at taken
  have bytes : ((blockBytes content reader.geometry reader.index).drop
      (reader.cursor % reader.geometry.block)).take length = bytesFrom content reader.cursor length := by
    rw [blockBytes, bytesFrom_slice (by omega), cursor]
  rw [emitted]
  refine ⟨?_, ?_, ?_, ?_, ⟨?_, stop, sound.window, sound.block⟩, rfl, rfl⟩
  · rw [bytes, Nat.add_sub_cancel_left]
  · simp only
    omega
  · simp only
    omega
  · rw [bytes, bytesFrom, List.length_map, List.length_range']
    omega
  · simp only
    omega

theorem Sound.nextWindow_valid (sound : Sound content reader) :
    windowValid reader.geometry reader.nextWindow = true := by
  have below := (reader.geometry.index_bounds reader.cursor).1
  have same : fetchBytes = windowBytes := by decide
  have cursor := sound.cursor
  have stop := sound.stop
  have window := sound.window
  simp only [windowValid, Reader.nextWindow, Reader.index, Bool.and_eq_true]
  refine ⟨⟨decide_eq_true ?_, decide_eq_true ?_⟩, decide_eq_true ?_⟩ <;> omega

section
variable (bytes : List UInt8) (download : Option ByteRange)

theorem Reader.turn_cursor : (reader.turn bytes download).cursor = reader.cursor := by
  rw [Reader.turn, Reader.grow]
  split_ifs <;> rfl

theorem Reader.turn_stop : (reader.turn bytes download).stop = reader.stop := by
  rw [Reader.turn, Reader.grow]
  split_ifs <;> rfl

theorem Reader.turn_geometry : (reader.turn bytes download).geometry = reader.geometry := by
  rw [Reader.turn, Reader.grow]
  split_ifs <;> rfl

theorem Reader.turn_index : (reader.turn bytes download).index = reader.index := by
  rw [Reader.index, turn_cursor, turn_geometry, Reader.index]

end

theorem Reader.grow_window (bounded : reader.window ≤ fetchBytes) : reader.grow.window ≤ fetchBytes := by
  rw [Reader.grow]
  split_ifs
  · exact Nat.min_le_right _ _
  · exact bounded
  · exact bounded

/-- A reader that turned to the block of its cursor, with its bytes. -/
theorem Sound.turn (sound : Sound content reader) (download : Option ByteRange) :
    Sound content (reader.turn (blockBytes content reader.geometry reader.index) download) where
  cursor := by
    rw [Reader.turn_cursor, Reader.turn_stop]
    exact sound.cursor
  stop := by
    rw [Reader.turn_stop, Reader.turn_geometry]
    exact sound.stop
  window := Reader.grow_window sound.window
  block index bytes held := by
    rw [Reader.turn_geometry]
    simp only [Reader.turn, Option.some.injEq, Prod.mk.injEq] at held
    obtain ⟨rfl, rfl⟩ := held
    rfl

/-- A poll that went well, or did not because the surroundings stopped it. -/
def Right (content : Nat → UInt8) (reader : Reader) (around : Surroundings) : Reader.Poll → Prop
  | .ended => reader.cursor = reader.stop
  | .failed window error => error ≠ .window ∧ (∀ range ∈ window, windowValid reader.geometry range = true) ∧
      ¬ Serves reader.geometry around
  | .frame window frame next => Emits content reader frame next ∧
      ∀ range ∈ window, windowValid reader.geometry range = true

theorem Sound.serve (sound : Sound content reader) (more : reader.cursor < reader.stop)
    (honest : Honest content reader.geometry around) :
    Right content reader around (reader.serve around) := by
  have here : reader.index * reader.geometry.block < reader.geometry.length :=
    Nat.lt_of_le_of_lt (reader.geometry.index_bounds reader.cursor).1 (Nat.lt_of_lt_of_le more sound.stop)
  have valid : ∀ range ∈ some reader.nextWindow, windowValid reader.geometry range = true := by
    intro range asked
    rw [← Option.some.inj asked]
    exact sound.nextWindow_valid
  rw [Reader.serve]
  split
  · rename_i index bytes held
    obtain ⟨held, same⟩ := Option.filter_eq_some_iff.mp held
    obtain rfl : index = reader.index := of_decide_eq_true same
    obtain rfl := sound.block _ _ held
    exact ⟨sound.emit more, fun _ asked => nomatch asked⟩
  · simp only
    split_ifs with gone invalid
    · exact ⟨nofun, valid, fun serves => absurd serves.active (by simpa using gone)⟩
    · simp [sound.nextWindow_valid] at invalid
    · split
      · rename_i missed
        exact ⟨nofun, valid, fun serves => by simpa [missed] using serves.read _ here⟩
      · rename_i bytes download read
        obtain rfl := honest _ _ _ here read
        have emits := (sound.turn download).emit (by rwa [Reader.turn_cursor, Reader.turn_stop])
        rw [Reader.turn_geometry, Reader.turn_index] at emits
        refine ⟨⟨?_, ?_, ?_, emits.short, emits.sound, ?_, ?_⟩, valid⟩
        · exact emits.bytes.trans (by rw [Reader.turn_cursor])
        · exact (Reader.turn_cursor ..).symm.trans_lt emits.forward
        · exact emits.inside.trans_eq (Reader.turn_stop ..)
        · exact emits.stop.trans (Reader.turn_stop ..)
        · exact emits.geometry.trans (Reader.turn_geometry ..)

theorem Sound.poll (sound : Sound content reader) (honest : Honest content reader.geometry around) :
    Right content reader around (reader.poll around) := by
  rw [Reader.poll]
  split_ifs with closed ended
  · exact ⟨nofun, nofun, fun serves => absurd serves.going (by simp [closed])⟩
  · exact ended
  · have released : Sound content reader.release := { sound with }
    have right := released.serve (Nat.lt_of_le_of_ne sound.cursor ended) honest
    generalize reader.release.serve around = result at right
    cases result with
    | ended | failed window error => exact right
    | frame window frame next =>
      obtain ⟨emits, valid⟩ := right
      exact ⟨{ emits with }, valid⟩

/-- What a stream gave out is the start of what is left of the range, and all of
it at the regular end. -/
structure Streamed (content : Nat → UInt8) (reader : Reader) (result : Transcript) : Prop where
  frames : ∀ frame ∈ result.frames, frame ≠ [] ∧ frame.length ≤ outputBytes
  windows : ∀ range ∈ result.windows, windowValid reader.geometry range = true
  ending : result.ending ≠ some (.error .window)
  given : result.frames.flatten <+: bytesFrom content reader.cursor (reader.stop - reader.cursor)
  whole (ended : result.ending = some (.ok ())) :
    result.frames.flatten = bytesFrom content reader.cursor (reader.stop - reader.cursor)

theorem bytesFrom_split (content : Nat → UInt8) (forward : reader.cursor ≤ next.cursor)
    (inside : next.cursor ≤ reader.stop) :
    bytesFrom content reader.cursor (next.cursor - reader.cursor) ++
        bytesFrom content next.cursor (reader.stop - next.cursor) =
      bytesFrom content reader.cursor (reader.stop - reader.cursor) := by
  have parts : next.cursor - reader.cursor + (reader.stop - next.cursor) = reader.stop - reader.cursor := by
    omega
  rw [← parts, ← bytesFrom_append, Nat.add_sub_cancel' forward]

theorem Sound.transcript (turns : Nat) :
    ∀ {reader : Reader} {around : Nat → Surroundings}, Sound content reader →
      (∀ turn, Honest content reader.geometry (around turn)) →
      Streamed content reader (transcript turns around reader) ∧
        ((∀ turn, Serves reader.geometry (around turn)) → reader.stop - reader.cursor < turns →
          (transcript turns around reader).ending = some (.ok ())) := by
  induction turns with
  | zero =>
    intro reader around sound honest
    exact ⟨⟨nofun, nofun, nofun, List.nil_prefix, nofun⟩, fun _ short => absurd short (Nat.not_lt_zero _)⟩
  | succ turns ih =>
    intro reader around sound honest
    have right := sound.poll (honest 0)
    rw [ResourceBody.transcript]
    generalize reader.poll (around 0) = result at right
    cases result with
    | ended =>
      have none : reader.stop - reader.cursor = 0 := Nat.sub_eq_zero_of_le (Nat.le_of_eq right.symm)
      refine ⟨⟨nofun, nofun, nofun, List.nil_prefix, fun _ => ?_⟩, fun _ _ => rfl⟩
      rw [none]
      rfl
    | failed window error =>
      obtain ⟨other, valid, stopped⟩ := right
      refine ⟨⟨nofun, ?_, ?_, List.nil_prefix, nofun⟩, fun serves => absurd (serves 0) stopped⟩
      · exact fun range asked => valid range (Option.mem_toList.mp asked)
      · exact fun same => other (Except.error.inj (Option.some.inj same))
    | frame window frame next =>
      obtain ⟨emits, valid⟩ := right
      have same := emits.geometry
      obtain ⟨rest, ends⟩ := ih emits.sound fun turn => by
        rw [same]
        exact honest (turn + 1)
      have filled : frame ≠ [] := by
        have size := congrArg List.length emits.bytes
        rw [bytesFrom, List.length_map, List.length_range'] at size
        exact List.length_pos_iff.mp (size.trans_gt (Nat.sub_pos_of_lt emits.forward))
      have joined := bytesFrom_split content (Nat.le_of_lt emits.forward) emits.inside
      rw [← emits.bytes] at joined
      refine ⟨⟨?_, ?_, rest.ending, ?_, fun ended => ?_⟩, fun serves short => ?_⟩
      · exact List.forall_mem_cons.mpr ⟨⟨filled, emits.short⟩, rest.frames⟩
      · intro range asked
        obtain now | later := List.mem_append.mp asked
        · exact valid range (Option.mem_toList.mp now)
        · exact same ▸ rest.windows range later
      · rw [List.flatten_cons, ← joined, List.prefix_append_right_inj, ← emits.stop]
        exact rest.given
      · rw [List.flatten_cons, rest.whole ended, emits.stop, joined]
      · refine ends (fun turn => same ▸ serves _) ?_
        have forward := emits.forward
        have inside := emits.inside
        rw [emits.stop]
        omega

/-- The bytes of a range, in frames that are neither empty nor long.

Whatever stops the stream, it is never a window that the store rejects; and
nothing stops it when the reader stays open and every read yields its block. -/
theorem body_streams (geometry : Geometry) {start stop : Nat} (nonempty : start < stop)
    (inside : stop ≤ geometry.length) (onlyCached : Bool) (download : Option ByteRange)
    {around : Nat → Surroundings} (honest : ∀ turn, Honest content geometry (around turn)) (turns : Nat) :
    let first := if onlyCached then none else
      some (start / geometry.block, blockBytes content geometry (start / geometry.block))
    let result := transcript turns around (Reader.opened geometry start stop onlyCached first download)
    windowValid geometry (firstWindow start stop) = true ∧
      (∀ range ∈ result.windows, windowValid geometry range = true) ∧
      result.ending ≠ some (.error .window) ∧
      (∀ frame ∈ result.frames, frame ≠ [] ∧ frame.length ≤ outputBytes) ∧
      result.frames.flatten <+: bytesFrom content start (stop - start) ∧
      (result.ending = some (.ok ()) → result.frames.flatten = bytesFrom content start (stop - start)) ∧
      ((∀ turn, Serves geometry (around turn)) → stop - start < turns → result.ending = some (.ok ())) := by
  intro first result
  have sound : Sound content (Reader.opened geometry start stop onlyCached first download) := by
    refine ⟨Nat.le_of_lt nonempty, inside, ?_, ?_⟩
    · have small : maxBlock ≤ fetchBytes := by decide
      simp only [Reader.opened]
      split_ifs
      · exact le_rfl
      · exact small
    · intro index bytes held
      obtain ⟨-, same⟩ := Option.ite_none_left_eq_some.mp held
      obtain ⟨rfl, rfl⟩ := Prod.mk.inj (Option.some.inj same)
      rfl
  obtain ⟨streamed, ends⟩ := sound.transcript turns honest
  have same : fetchBytes = windowBytes := by decide
  refine ⟨?_, streamed.windows, streamed.ending, streamed.frames, streamed.given, streamed.whole, ends⟩
  simp only [windowValid, firstWindow, Bool.and_eq_true]
  refine ⟨⟨decide_eq_true ?_, decide_eq_true ?_⟩, decide_eq_true ?_⟩ <;> omega

/-- Two bytes behind the first one of a resource of three, all of it in storage. -/
theorem tail_streamed :
    let geometry : Geometry := ⟨3, minBlock, .inl rfl⟩
    let content := fun position => UInt8.ofNat (97 + position)
    let stored : Surroundings := ⟨false, true, fun index => some (blockBytes content geometry index, none)⟩
    let result := transcript 3 (fun _ => stored) (Reader.opened geometry 1 3 true none none)
    result.frames.flatten = [98, 99] ∧ result.ending = some (.ok ()) := by
  intro geometry content stored result
  have honest : Honest content geometry stored := by
    intro index bytes download _ read
    exact (Prod.mk.inj (Option.some.inj read)).1.symm
  obtain ⟨_, _, _, _, _, whole, ends⟩ := body_streams geometry (by decide : 1 < 3) (Nat.le_refl 3) true none
    (fun _ => honest) 3
  have ended : result.ending = some (.ok ()) := ends (fun _ => ⟨rfl, rfl, fun _ _ => rfl⟩) (by decide)
  exact ⟨(whole ended).trans (by decide), ended⟩

end Qcm.ResourceBodyProofs
