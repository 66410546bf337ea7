import Qcm.ResourceDownloads

/-!
The body of a resource response (`respond` in
`backend/main/src/resource_cache/service.rs`): a stream that cuts frames from the
blocks under its cursor, each block read under a window that the store pins.

What a poll meets is open: whether the reader is closed, whether the store takes
the window, and what a read of a block yields, with the range of the download it
came from.
-/

namespace Qcm.ResourceBody

open ResourceFormat
open ResourceDownloads (fetchBytes outputBytes)

/-- `Reader`, the state of the stream. -/
structure Reader where
  geometry : Geometry
  cursor : Nat
  stop : Nat
  block : Option (Nat × List UInt8)
  /-- The range of the download that serves the reader. -/
  initial : Option ByteRange
  onlyCached : Bool
  window : Nat
  sequential : Nat := 0

/-- What a poll meets. -/
structure Surroundings where
  closed : Bool
  /-- Whether the version is still there for `Store::window`. -/
  active : Bool
  /-- `Store::read`, and `block` of the service. -/
  read : Nat → Option (List UInt8 × Option ByteRange)

inductive BodyError where
  /-- `resource reader closed` -/
  | closed
  /-- `invalid cache window` -/
  | window
  /-- The version has gone. -/
  | inactive
  /-- A block could not be read. -/
  | read
  deriving DecidableEq

/-- `Store::window` accepts a range of the resource that is not too long. -/
def windowValid (geometry : Geometry) (range : ByteRange) : Bool :=
  range.start ≤ range.stop && range.stop ≤ geometry.length && range.stop - range.start ≤ windowBytes

/-- The window that `respond` pins before there is a reader. -/
def firstWindow (start stop : Nat) : ByteRange := ⟨start, min stop (start + fetchBytes)⟩

namespace Reader

/-- The reader of a response, with the first block where it was fetched. -/
def opened (geometry : Geometry) (start stop : Nat) (onlyCached : Bool)
    (first : Option (Nat × List UInt8)) (initial : Option ByteRange) : Reader where
  geometry := geometry
  cursor := start
  stop := stop
  block := first
  initial := initial
  onlyCached := onlyCached
  window := if start = 0 then fetchBytes else maxBlock

def index (reader : Reader) : Nat := reader.cursor / reader.geometry.block

/-- The window that a reader asks for when it turns to the block of its cursor. -/
def nextWindow (reader : Reader) : ByteRange :=
  let start := reader.index * reader.geometry.block
  ⟨start, min reader.stop (start + reader.window)⟩

/-- Four blocks read one after the other double the window. -/
def grow (reader : Reader) : Reader :=
  if reader.block.any fun block => block.1 + 1 = reader.index then
    if 4 ≤ reader.sequential + 1 then
      { reader with window := min (reader.window * 2) fetchBytes, sequential := 0 }
    else { reader with sequential := reader.sequential + 1 }
  else reader

/-- The frame at the cursor, and the reader behind it. -/
def emit (reader : Reader) (bytes : List UInt8) : List UInt8 × Reader :=
  let offset := reader.cursor % reader.geometry.block
  let length := min (min outputBytes (bytes.length - offset)) (reader.stop - reader.cursor)
  ((bytes.drop offset).take length, { reader with cursor := reader.cursor + length })

/-- A download whose range the cursor has left is let go. -/
def release (reader : Reader) : Reader :=
  { reader with initial := reader.initial.filter fun range => range.contains reader.cursor }

/-- The reader with the block of its cursor, as a read yields it. -/
def turn (reader : Reader) (bytes : List UInt8) (download : Option ByteRange) : Reader :=
  { reader.grow with
    initial := if reader.onlyCached then none else download
    block := some (reader.index, bytes) }

/-- What a poll comes to, and the window it asked for. -/
inductive Poll where
  | ended
  | failed (window : Option ByteRange) (error : BodyError)
  | frame (window : Option ByteRange) (bytes : List UInt8) (next : Reader)

/-- The part of a poll that has bytes to give out. -/
def serve (reader : Reader) (around : Surroundings) : Poll :=
  match reader.block.filter fun block => block.1 = reader.index with
  | some (_, bytes) =>
    let (frame, next) := reader.emit bytes
    .frame none frame next
  | none =>
    let window := reader.nextWindow
    if !around.active then .failed (some window) .inactive
    else if !windowValid reader.geometry window then .failed (some window) .window
    else
      match around.read reader.index with
      | none => .failed (some window) .read
      | some (bytes, download) =>
        let (frame, next) := (reader.turn bytes download).emit bytes
        .frame (some window) frame next

/-- One turn of the stream. -/
def poll (reader : Reader) (around : Surroundings) : Poll :=
  if around.closed then .failed none .closed
  else if reader.cursor = reader.stop then .ended
  else reader.release.serve around

end Reader

/-- What a stream gave out, what windows it asked for, and how it ended, if it
has. -/
structure Transcript where
  frames : List (List UInt8)
  windows : List ByteRange
  ending : Option (Except BodyError Unit)

/-- The stream polled `n` times, each time in its own surroundings. -/
def transcript : Nat → (Nat → Surroundings) → Reader → Transcript
  | 0, _, _ => ⟨[], [], none⟩
  | n + 1, around, reader =>
    match reader.poll (around 0) with
    | .ended => ⟨[], [], some (.ok ())⟩
    | .failed window error => ⟨[], window.toList, some (.error error)⟩
    | .frame window bytes next =>
      let rest := transcript n (fun turn => around (turn + 1)) next
      ⟨bytes :: rest.frames, window.toList ++ rest.windows, rest.ending⟩

end Qcm.ResourceBody
