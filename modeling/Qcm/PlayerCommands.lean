import Qcm.Lib.Runs

/-!
The commands of the player (`player.cpp`, until it is closed).

A command is numbered when it is submitted and dropped when it is taken up if it
has become too old.  Opening and seeking wait for the media and for the device
between the steps below, and commands are submitted meanwhile.  Values of `f32`
are an arbitrary type with the function that is applied to a volume.
-/

namespace Qcm.PlayerCommands

open Lib

variable {F : Type}

inductive CommandKind where
  | source
  | play
  | pause
  | stop
  | seek
  | volume
deriving DecidableEq

structure Command where
  kind : CommandKind
  source : String := ""
  revision : Nat
  sourceRevision : Nat
deriving DecidableEq

/-- Whether the command asks for playing or for not playing. -/
def Command.asks (command : Command) : Option Bool :=
  match command.kind with
  | .source => some (command.source ≠ "")
  | .play => some true
  | .pause | .stop => some false
  | .seek | .volume => none

/-- The commands that count the revision up. -/
def CommandKind.bumps : CommandKind → Bool
  | .source | .stop | .seek => true
  | .play | .pause | .volume => false

/-- The commands that count the source revision up. -/
def CommandKind.replaces : CommandKind → Bool
  | .source | .stop => true
  | _ => false

/-- A call of `set_volume` that has stored the volume, or one of `submit` that has not pushed its command yet. -/
inductive Caller where
  | idle
  | stored
  | pushing (command : Command)
deriving DecidableEq

/-- What `open_device` is called for: `open_source` of a new source or within a seek, or a seek that goes on with the
given state of playing. -/
inductive Purpose where
  | source
  | reopen
  | resume (playing : Bool)
deriving DecidableEq

/-- Where the worker is between two steps of a command. -/
inductive Phase where
  | idle
  | checked (command : Command)
  | opening (reopen : Bool)
  | mounting (purpose : Purpose)
  | waiting (purpose : Purpose)
  | settling (reopen : Bool)
  | seeking
  | resuming
  | moving (resume : Bool)
deriving DecidableEq

/-- `Player`; of the decoder whether its media can be sought, of the device the volume last applied.  `dropped` tells
that a command about playing or the volume was dropped since the player last took these up, and `failed` that the
media or the device has failed. -/
structure Player (F : Type) where
  requestedPlaying : Bool := false
  requestedRevision : Nat := 0
  requestedSource : Nat := 0
  activeRevision : Nat := 0
  activeSource : Nat := 0
  volume : F
  caller : Caller := .idle
  actions : List Command := []
  pending : List Command := []
  batch : List Command := []
  phase : Phase := .idle
  currentSource : String := ""
  decoder : Option Bool := none
  device : Option F := none
  desired : F
  playing : Bool := false
  dropped : Bool := false
  failed : Bool := false

namespace Player

def cancelled (p : Player F) : Prop := p.activeRevision ≠ p.requestedRevision ∨ p.activeSource ≠ p.requestedSource

instance (p : Player F) : Decidable p.cancelled := inferInstanceAs (Decidable (_ ∨ _))

/-- `submit` up to the push, under the lock. -/
def announce (p : Player F) (kind : CommandKind) (source : String) : Player F :=
  let counted := { p with
    requestedSource := if kind.replaces then p.requestedSource + 1 else p.requestedSource
    requestedPlaying :=
      match kind with
      | .source => source ≠ ""
      | .play => true
      | .pause | .stop => false
      | .seek | .volume => p.requestedPlaying
    requestedRevision := if kind.bumps then p.requestedRevision + 1 else p.requestedRevision }
  { counted with
    caller := .pushing
      { kind := kind, source := source, revision := counted.requestedRevision
        sourceRevision := counted.requestedSource } }

/-- `apply` of the desired state, if there is a device. -/
def apply (p : Player F) : Player F := { p with device := p.device.map fun _ => p.desired }

def stopDevice (p : Player F) : Player F := { p with device := none }

/-- `stop_media`; the desired state that it clears is not read before a device is opened. -/
def stopMedia (p : Player F) : Player F := { p.stopDevice with decoder := none, playing := false }

def fail (p : Player F) : Player F :=
  { p.stopMedia with phase := .idle, failed := p.failed || !decide p.cancelled }

/-- `set_playing`; how the volume fades does not matter here. -/
def setPlaying (p : Player F) (value : Bool) : Player F := apply { p with playing := value }

/-- `open_source` up to the opening of the media. -/
def openSource (p : Player F) (reopen : Bool) : Player F :=
  let stopped := p.stopMedia
  if stopped.currentSource = "" then { stopped with phase := .idle, dropped := false }
  else if stopped.cancelled then { stopped with phase := .idle }
  else { stopped with phase := .opening reopen }

/-- The head of `command`: whether the command is dropped. -/
def check (p : Player F) (command : Command) : Player F :=
  if command.sourceRevision ≠ p.requestedSource ∨
      (command.kind ≠ .source ∧ command.revision ≠ p.requestedRevision) then
    { p with dropped := p.dropped || decide (command.kind ≠ .source ∧ command.kind ≠ .seek) }
  else { p with phase := .checked command }

/-- The revisions that a command is carried out at. -/
def activate (p : Player F) (command : Command) : Player F :=
  { p with
    phase := .idle
    activeSource := command.sourceRevision
    activeRevision := if command.kind = CommandKind.source then p.requestedRevision else command.revision }

/-- The rest of `command`, up to where it waits. -/
def begin (cube : F → F) (p : Player F) (command : Command) : Player F :=
  let active := p.activate command
  match command.kind with
  | .source => openSource { active.stopMedia with currentSource := command.source } false
  | .play => active.setPlaying true
  | .pause => active.setPlaying false
  | .stop => { stopMedia { active with currentSource := "" } with dropped := false }
  | .seek =>
    if active.decoder = none ∧ active.currentSource ≠ "" then active.openSource true
    else { active with phase := .seeking }
  | .volume =>
    match active.device with
    | some _ => apply { active with desired := cube active.volume }
    | none => active

/-- The media were opened, and can be sought or not, or they were not opened. -/
def mediaOpened (p : Player F) (reopen : Bool) (media : Option Bool) : Player F :=
  match media with
  | none => p.fail
  | some seekable => { p with decoder := some seekable, phase := .mounting (if reopen then Purpose.reopen else .source) }

/-- `open_device` up to its loop. -/
def mount (cube : F → F) (p : Player F) (purpose : Purpose) : Player F :=
  { p with desired := cube p.volume, device := some (cube p.volume), phase := .waiting purpose }

/-- The device is ready, or `open_device` has given up. -/
def ready (p : Player F) (purpose : Purpose) (done : Bool) : Player F :=
  match purpose, done with
  | .source, true => { p with phase := .settling false }
  | .reopen, true => { p with phase := .settling true }
  | .resume playing, true => { p with playing := playing, dropped := false, phase := .idle }
  | .resume _, false => if p.cancelled then { p.stopDevice with phase := .idle } else p.fail
  | _, false => p.fail

/-- The end of `open_source`. -/
def settle (p : Player F) (reopen : Bool) : Player F :=
  { p with playing := p.requestedPlaying, dropped := false, phase := if reopen then .seeking else .idle }

/-- `seek_media` does nothing. -/
def Idles (p : Player F) : Prop := p.decoder ≠ some true ∨ p.cancelled

instance (p : Player F) : Decidable p.Idles := inferInstanceAs (Decidable (_ ∨ _))

/-- The media were sought, or not. -/
def moved (p : Player F) (resume done : Bool) : Player F :=
  if done then { p with phase := .mounting (.resume resume) }
  else if p.cancelled then { p with phase := .idle }
  else p.fail

/-- `tick` finds that all has been played. -/
def ended (p : Player F) : Player F := { p with playing := false, decoder := none, device := none }

/-- What was submitted and is not in the hands of the worker, oldest first. -/
def queued (p : Player F) : List Command :=
  p.batch ++ p.pending ++ p.actions ++
  match p.caller with
  | .pushing command => [command]
  | _ => []

/-- What was submitted and not taken up, oldest first. -/
def flight (p : Player F) : List Command :=
  match p.phase with
  | .checked command => command :: p.queued
  | _ => p.queued

end Player

open Player

inductive Event (F : Type) where
  | store (volume : F)
  | announce (kind : CommandKind) (source : String)
  | push
  | forward
  | take
  | check
  | begin
  | mediaOpened (media : Option Bool)
  | mount
  | ready (done : Bool)
  | settle
  | sought
  | resume
  | moved (done : Bool)
  | tick
  | ended
  | broken

/-- What an event does: calls from outside, a command that `process_actions` hands on, and the steps of the worker.
A tick comes between two commands, and changes something here only when it applies the desired state, when it finds
all played or when the device or the decoder has failed. -/
def perform (cube : F → F) (p : Player F) : Event F → Option (Player F)
  | .store volume =>
    match p.caller with
    | .idle => some { p with volume := volume, caller := .stored }
    | _ => none
  | .announce kind source =>
    match p.caller with
    | .idle => if kind = .volume then none else some (p.announce kind source)
    | .stored => if kind = .volume then some (p.announce .volume "") else none
    | .pushing _ => none
  | .push =>
    match p.caller with
    | .pushing command => some { p with actions := p.actions ++ [command], caller := .idle }
    | _ => none
  | .forward =>
    match p.actions with
    | command :: rest => some { p with actions := rest, pending := p.pending ++ [command] }
    | [] => none
  | .take =>
    match p.phase, p.batch with
    | .idle, [] => some { p with batch := p.pending, pending := [] }
    | _, _ => none
  | .check =>
    match p.phase, p.batch with
    | .idle, command :: rest => some (check { p with batch := rest } command)
    | _, _ => none
  | .begin =>
    match p.phase with
    | .checked command => some (p.begin cube command)
    | _ => none
  | .mediaOpened media =>
    match p.phase with
    | .opening reopen => some (p.mediaOpened reopen media)
    | _ => none
  | .mount =>
    match p.phase with
    | .mounting purpose => some (p.mount cube purpose)
    | _ => none
  | .ready done =>
    match p.phase with
    | .waiting purpose => some (p.ready purpose done)
    | _ => none
  | .settle =>
    match p.phase with
    | .settling reopen => some (p.settle reopen)
    | _ => none
  | .sought =>
    match p.phase with
    | .seeking => some (if p.Idles then { p with phase := .idle } else { p with phase := .resuming })
    | _ => none
  | .resume =>
    match p.phase with
    | .resuming => some { p.stopDevice with phase := .moving p.requestedPlaying }
    | _ => none
  | .moved done =>
    match p.phase with
    | .moving resume => some (p.moved resume done)
    | _ => none
  | .tick =>
    match p.phase with
    | .idle => some p.apply
    | _ => none
  | .ended =>
    match p.phase with
    | .idle => if p.cancelled ∨ p.decoder = none ∨ p.device.isNone ∨ p.playing = false then none else some p.ended
    | _ => none
  | .broken =>
    match p.phase with
    | .idle => if p.cancelled ∨ p.decoder = none ∨ p.device.isNone then none else some p.fail
    | _ => none

def Step (cube : F → F) (p : Player F) (event : Event F) (q : Player F) : Prop := perform cube p event = some q

/-- All commands have been processed. -/
def Quiet (p : Player F) : Prop := p.phase = .idle ∧ p.caller = .idle ∧ p.flight = []

/-- The player does what was last asked for. -/
def Follows (cube : F → F) (p : Player F) : Prop :=
  p.playing = p.requestedPlaying ∧ ∀ volume, p.device = some volume → volume = cube p.volume

/-- No seek that turns out to do nothing comes after a dropped command, unless a newer command has cancelled it;
and the media have not been played to their end. -/
def Honours (p : Player F) : Event F → Prop
  | .sought => p.decoder = some true ∨ p.cancelled ∨ p.dropped = false
  | .ended => False
  | _ => True

instance (p : Player F) : (event : Event F) → Decidable (Honours p event)
  | .sought => inferInstanceAs (Decidable (_ ∨ _ ∨ _))
  | .ended => inferInstanceAs (Decidable False)
  | .store _ | .announce _ _ | .push | .forward | .take | .check | .begin | .mediaOpened _ | .mount | .ready _
  | .settle | .resume | .moved _ | .tick | .broken => inferInstanceAs (Decidable True)

end Qcm.PlayerCommands
