import Qcm.Lib.Runs

/-!
How decoded samples reach the device (`player.cpp`, `PcmChannel::next_pcm` and
`Player::tick`), for one opening of the device.

The worker puts blocks into a queue and the device pulls frames out of it, on a
thread of its own; a second queue tells the worker which frames were handed out
where.  Frames are of any type, and so are times, with the time that a number of
frames after another one is.
-/

namespace Qcm.PcmDelivery

open Lib

variable {α T : Type}

structure PcmBlock (α T : Type) where
  samples : List α
  seconds : T

structure ClockSpan (T : Type) where
  outputFrame : Nat
  frames : Nat
  seconds : T

def ClockSpan.stop (span : ClockSpan T) : Nat := span.outputFrame + span.frames

/-- Where `next_pcm` is. -/
inductive Pull (α T : Type) where
  | idle
  | looping (requested produced : Nat)
  | fronted (requested produced : Nat) (block : PcmBlock α T)
  | pushed (requested produced count : Nat) (block : PcmBlock α T)

/-- Where `tick` is, with the position of the device that it has read. -/
inductive Tick (α T : Type) where
  | idle
  | draining (played : Nat)
  | decoding (played : Nat)
  | pushing (played : Nat) (block : PcmBlock α T)
  | testing (played : Nat)
  | emptied (played : Nat)
  | stopped

/-- The device, its channel and the worker; with all decoded blocks, all frames handed to the device at their output
indices, all spans pushed and the index after the frames handed so far.  `lost` tells that a tick has given up a
block it had decoded, `ended` that the end was sent. -/
structure Device (α T : Type) where
  valid : Bool := false
  output : Nat := 0
  offset : Nat := 0
  pcm : List (PcmBlock α T) := []
  clock : List (ClockSpan T) := []
  pull : Pull α T := .idle
  position : Nat := 0
  tick : Tick α T := .idle
  eof : Bool := false
  lastEnd : Nat := 0
  decoded : List (PcmBlock α T) := []
  handed : List (α × Nat) := []
  spans : List (ClockSpan T) := []
  next : Nat := 0
  lost : Bool := false
  ended : Bool := false

def pcmCapacity : Nat := 32

def clockCapacity : Nat := 512

inductive Event (α T : Type) where
  | passDesc (valid : Bool)
  | pull (outputOffset requested : Nat)
  | front
  | pushClock
  | copy
  | advance (frames : Nat)
  | start
  | drain
  | decode (block : PcmBlock α T) (eof : Bool)
  | push
  | cancelled
  | broken
  | testPcm
  | testClock (playing : Bool)

namespace Device

/-- `next_pcm`, from the test of its loop to the block at the front. -/
def front (d : Device α T) (requested produced : Nat) : Device α T :=
  if produced < requested then
    match d.pcm with
    | block :: _ => { d with pull := .fronted requested produced block }
    | [] => { d with pull := .idle }
  else { d with pull := .idle }

/-- `next_pcm` pushes the span of the frames that it hands out next. -/
def pushClock (after : T → Nat → T) (d : Device α T) (requested produced : Nat) (block : PcmBlock α T) : Device α T :=
  let count := min (block.samples.length - d.offset) (requested - produced)
  if d.clock.length < clockCapacity then
    let span := { outputFrame := d.output + produced, frames := count, seconds := after block.seconds d.offset }
    { d with
      clock := d.clock ++ [span]
      spans := d.spans ++ [span]
      pull := .pushed requested produced count block }
  else { d with pull := .idle }

/-- `next_pcm` copies the frames, and consumes the block when it is used up. -/
def copy (d : Device α T) (requested produced count : Nat) (block : PcmBlock α T) : Device α T :=
  let copied := { d with
    handed := d.handed ++ ((block.samples.drop d.offset).take count).zipIdx (d.output + produced)
    next := d.output + produced + count
    pull := .looping requested (produced + count) }
  if d.offset + count = block.samples.length then { copied with offset := 0, pcm := d.pcm.tail }
  else { copied with offset := d.offset + count }

/-- One round of the loop of `tick` that drains the spans. -/
def drain (d : Device α T) (played : Nat) : Device α T :=
  match d.clock with
  | [] => { d with tick := .decoding played }
  | span :: rest =>
    let seen := { d with lastEnd := span.stop }
    if played < span.outputFrame then { seen with tick := .decoding played }
    else if min (played - span.outputFrame) span.frames < span.frames then { seen with tick := .decoding played }
    else { seen with clock := rest }

/-- `tick` decodes a block, if there is room for one. -/
def decode (d : Device α T) (played : Nat) (block : PcmBlock α T) (eof : Bool) : Device α T :=
  if d.pcm.length < pcmCapacity ∧ d.eof = false then
    if block.samples = [] then { d with eof := eof, tick := .testing played }
    else { d with eof := eof, decoded := d.decoded ++ [block], tick := .pushing played block }
  else { d with tick := .testing played }

end Device

open Device

/-- What an event does.  A pull is given an index past the frames handed out before; `advance` moves the position of
the device, below which all frames handed to it are output. -/
def perform (after : T → Nat → T) (d : Device α T) : Event α T → Option (Device α T)
  | .passDesc valid =>
    match d.pull with
    | .idle => some { d with valid := valid }
    | _ => none
  | .pull outputOffset requested =>
    match d.pull with
    | .idle =>
      if d.next ≤ outputOffset then
        some { d with output := outputOffset, pull := if d.valid then .looping requested 0 else .idle }
      else none
    | _ => none
  | .front =>
    match d.pull with
    | .looping requested produced => some (d.front requested produced)
    | _ => none
  | .pushClock =>
    match d.pull with
    | .fronted requested produced block => some (d.pushClock after requested produced block)
    | _ => none
  | .copy =>
    match d.pull with
    | .pushed requested produced count block => some (d.copy requested produced count block)
    | _ => none
  | .advance frames => some { d with position := d.position + frames }
  | .start =>
    match d.tick with
    | .idle => some { d with tick := .draining d.position }
    | _ => none
  | .drain =>
    match d.tick with
    | .draining played => some (d.drain played)
    | _ => none
  | .decode block eof =>
    match d.tick with
    | .decoding played => some (d.decode played block eof)
    | _ => none
  | .push =>
    match d.tick with
    | .pushing played block =>
      if d.pcm.length < pcmCapacity then some { d with pcm := d.pcm ++ [block], tick := .testing played }
      else some { d with lost := true, tick := .stopped }
    | _ => none
  | .cancelled =>
    match d.tick with
    | .pushing _ _ => some { d with lost := true, tick := .idle }
    | _ => none
  | .broken =>
    match d.tick with
    | .idle => some { d with tick := .stopped }
    | .pushing _ _ => some { d with lost := true, tick := .stopped }
    | _ => none
  | .testPcm =>
    match d.tick with
    | .testing played =>
      if d.eof = true ∧ d.pcm.isEmpty = true then some { d with tick := .emptied played } else some { d with tick := .idle }
    | _ => none
  | .testClock playing =>
    match d.tick with
    | .emptied played =>
      if d.clock.isEmpty = true ∧ d.lastEnd ≤ played ∧ playing = true then
        some { d with ended := true, tick := .stopped }
      else some { d with tick := .idle }
    | _ => none

def Step (after : T → Nat → T) (d : Device α T) (event : Event α T) (e : Device α T) : Prop :=
  perform after d event = some e

/-- No tick begins after one has given up a block it had decoded. -/
def Continues (d : Device α T) : Event α T → Prop
  | .start => d.lost = false
  | _ => True

instance (d : Device α T) : (event : Event α T) → Decidable (Continues d event)
  | .start => inferInstanceAs (Decidable (_ = _))
  | .passDesc _ | .pull _ _ | .front | .pushClock | .copy | .advance _ | .drain | .decode _ _ | .push | .cancelled
  | .broken | .testPcm | .testClock _ => inferInstanceAs (Decidable True)

/-- All decoded frames, in order. -/
def Device.frames (d : Device α T) : List α := d.decoded.flatMap PcmBlock.samples

/-- A part of a decoded block, with the span that was pushed for it. -/
structure Piece (α T : Type) where
  span : ClockSpan T
  block : PcmBlock α T
  offset : Nat

/-- The frames of a piece at their output indices. -/
def Piece.frames (piece : Piece α T) : List (α × Nat) :=
  ((piece.block.samples.drop piece.offset).take piece.span.frames).zipIdx piece.span.outputFrame

/-- The piece lies in a decoded block, and its span has the time of its first frame. -/
def Piece.Right (after : T → Nat → T) (d : Device α T) (piece : Piece α T) : Prop :=
  piece.block ∈ d.decoded ∧ 0 < piece.span.frames ∧ piece.offset + piece.span.frames ≤ piece.block.samples.length ∧
    piece.span.seconds = after piece.block.seconds piece.offset

/-- The spans cut the frames handed out into pieces, in order and apart from each other; the last one may be of a
piece that is not copied yet. -/
def Parted (after : T → Nat → T) (d : Device α T) : Prop :=
  d.spans.Pairwise (fun earlier later => earlier.stop ≤ later.outputFrame) ∧
    ∃ pieces copying : List (Piece α T), d.spans = (pieces ++ copying).map Piece.span ∧
      d.handed = pieces.flatMap Piece.frames ∧ (∀ piece ∈ pieces ++ copying, piece.Right after d) ∧
      (match d.pull with | .pushed _ _ _ _ => copying.length = 1 | _ => copying = [])

/-- What the device gets. -/
structure Delivers (after : T → Nat → T) (d : Device α T) : Prop where
  inOrder : d.handed.map Prod.fst <+: d.frames
  parted : Parted after d
  complete : d.ended = true → d.handed.map Prod.fst = d.frames ∧ ∀ frame ∈ d.handed, frame.2 < d.position

end Qcm.PcmDelivery
