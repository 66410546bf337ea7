import Qcm.PlayerCommands

/-!
How the notifications of the player reach the user interface (`player.cpp` of the
player and of the application).

The worker sends under the lock that commands are submitted under, into a channel
that keeps only the latest position and the latest cached part; a loop takes the
notifications out of it and hops to the thread of the interface with each.  That
thread submits the commands too, also from the handlers of a notification.  What
the worker notifies of, and when, is left open.
-/

namespace Qcm.PlayerNotifications

open Lib
open PlayerCommands (CommandKind)

variable {F : Type}

inductive PlayState where
  | playing
  | paused
  | stopped
deriving DecidableEq

/-- `notify::info`, with the ends of a cached part of any type. -/
inductive Info (F : Type) where
  | position (value : Int)
  | duration (value : Int)
  | playstate (value : PlayState)
  | busy (value : Bool)
  | cache (first last : F)
  | seekable (value : Bool)
  | ended
deriving DecidableEq

def Info.isPosition : Info F → Bool
  | .position _ => true
  | _ => false

def Info.isCache : Info F → Bool
  | .cache _ _ => true
  | _ => false

/-- A notification, with the revision it was produced for and the number of those sent before it. -/
structure Notification (F : Type) where
  epoch : Nat
  info : Info F
  revision : Nat
  serial : Nat
deriving DecidableEq

/-- A latest notification, and whether the queue has an entry for it. -/
structure Slot (F : Type) where
  latest : Option (Notification F) := none
  queued : Bool := false
deriving DecidableEq

/-- `NotifyChannel`. -/
structure NotifyChannel (F : Type) where
  queue : List (Notification F) := []
  closed : Bool := false
  epoch : Nat := 0
  position : Slot F := {}
  cache : Slot F := {}
deriving DecidableEq

namespace NotifyChannel

def push (channel : NotifyChannel F) (notification : Notification F) : Option (NotifyChannel F) :=
  if channel.closed then none else some { channel with queue := channel.queue ++ [notification] }

def enqueueLatest (channel : NotifyChannel F) (notification : Notification F) (slot : Slot F) :
    NotifyChannel F × Slot F :=
  if slot.queued then (channel, { slot with latest := some notification })
  else
    match channel.push notification with
    | some pushed => (pushed, { latest := some notification, queued := true })
    | none => (channel, { latest := none, queued := false })

/-- `send`; what it returns is not used. -/
def send (channel : NotifyChannel F) (notification : Notification F) : NotifyChannel F :=
  if notification.info.isPosition then
    let (pushed, slot) := channel.enqueueLatest notification channel.position
    { pushed with position := slot }
  else if notification.info.isCache then
    let (pushed, slot) := channel.enqueueLatest notification channel.cache
    { pushed with cache := slot }
  else (channel.push notification).getD channel

def advanceEpoch (channel : NotifyChannel F) : NotifyChannel F :=
  { channel with
    position := { channel.position with latest := none }
    cache := { channel.cache with latest := none }
    epoch := channel.epoch + 1 }

/-- `resolve`, with `take_latest` in its two cases. -/
def resolve (channel : NotifyChannel F) (notification : Notification F) :
    NotifyChannel F × Option (Notification F) :=
  if notification.info.isPosition then ({ channel with position := {} }, channel.position.latest)
  else if notification.info.isCache then ({ channel with cache := {} }, channel.cache.latest)
  else (channel, some notification)

end NotifyChannel

/-- What is called on the thread of the interface: `submit` with a kind of command, or `close`. -/
inductive Call where
  | submit (kind : CommandKind)
  | close
deriving DecidableEq

/-- A call that makes what is notified of an earlier revision stale. -/
def Call.supersedes : Call → Bool
  | .submit kind => kind.bumps
  | .close => false

/-- How far a call has come that holds the lock. -/
inductive Caller where
  | idle
  | counted (call : Call)
  | revised (call : Call)
  | pushing (kind : CommandKind)
deriving DecidableEq

structure Command where
  kind : CommandKind
  revision : Nat
  sourceRevision : Nat
  id : Nat
deriving DecidableEq

inductive Worker (F : Type) where
  | idle
  | checked (command : Command)
  | sending (info : Info F)
deriving DecidableEq

/-- Where the notification loop is. -/
inductive Loop (F : Type) where
  | waiting
  | took (notification : Notification F)
  | resolved (notification : Notification F)
  | hopping (notification : Notification F)
  | handling (notification : Notification F)
  | ended
deriving DecidableEq

/-- The player, its channel and the loop.  `superseded` counts the sources, stops and seeks that were submitted, `sent`
the notifications, and `last` is the position sent last in this epoch.  `handled` and `emitted` are the notifications
that the interface was given, by their handlers and by the signal that follows, each with what `superseded` was. -/
structure Player (F : Type) where
  closed : Bool := false
  requestedRevision : Nat := 0
  requestedSource : Nat := 0
  latestId : Nat := 0
  activeRevision : Nat := 0
  activeSource : Nat := 0
  currentId : Nat := 0
  lastBusy : Option Bool := none
  lastState : Option PlayState := none
  lastPosition : Int := -1
  commands : List Command := []
  caller : Caller := .idle
  worker : Worker F := .idle
  channel : NotifyChannel F := {}
  loop : Loop F := .waiting
  superseded : Nat := 0
  sent : Nat := 0
  last : Option (Notification F) := none
  handled : List (Notification F × Nat) := []
  emitted : List (Notification F × Nat) := []
deriving DecidableEq

namespace Player

def Cancelled (p : Player F) : Prop :=
  p.closed = true ∨ p.activeRevision ≠ p.requestedRevision ∨ p.activeSource ≠ p.requestedSource

instance (p : Player F) : Decidable p.Cancelled := inferInstanceAs (Decidable (_ ∨ _))

/-- `submit` or `close`, up to the source revision. -/
def start (p : Player F) (call : Call) : Player F :=
  if p.closed then p
  else
    match call with
    | .submit kind =>
      { p with
        requestedSource := if kind.replaces then p.requestedSource + 1 else p.requestedSource
        caller := .counted call }
    | .close => { p with closed := true, caller := .counted call }

/-- The revision is counted, for those calls that count it. -/
def revise (p : Player F) (call : Call) : Player F :=
  match call with
  | .submit kind =>
    if kind.bumps then
      { p with
        requestedRevision := p.requestedRevision + 1, superseded := p.superseded + 1, caller := .revised call }
    else { p with caller := .pushing kind }
  | .close => { p with requestedRevision := p.requestedRevision + 1, caller := .revised call }

def advance (p : Player F) (call : Call) : Player F :=
  { p with
    channel := p.channel.advanceEpoch
    last := none
    caller :=
      match call with
      | .submit kind => .pushing kind
      | .close => .idle }

def push (p : Player F) (kind : CommandKind) : Player F :=
  { p with
    commands := p.commands ++
      [{ kind := kind, revision := p.requestedRevision, sourceRevision := p.requestedSource, id := p.latestId + 1 }]
    latestId := p.latestId + 1
    caller := .idle }

/-- `command` up to its first test. -/
def take (p : Player F) (command : Command) : Player F :=
  if command.sourceRevision ≠ p.requestedSource then p else { p with worker := .checked command }

/-- What was notified of before another revision is forgotten. -/
def forget (p : Player F) (revision : Nat) : Player F :=
  if p.activeRevision ≠ revision then { p with lastBusy := none, lastState := none, lastPosition := -1 } else p

/-- `command` from its second test to where the command is carried out. -/
def activate (p : Player F) (command : Command) : Player F :=
  if command.kind ≠ .source ∧ command.revision ≠ p.requestedRevision then { p with worker := .idle }
  else
    let revision := if command.kind = CommandKind.source then p.requestedRevision else command.revision
    { p.forget revision with
      activeSource := command.sourceRevision, activeRevision := revision, currentId := command.id, worker := .idle }

/-- `busy`, `state` and `position` up to `send`, and the calls of `send` itself. -/
def report (p : Player F) (info : Info F) : Player F :=
  match info with
  | .busy value =>
    if p.Cancelled ∨ (value = false ∧ p.currentId ≠ p.latestId) ∨ p.lastBusy = some value then p
    else { p with lastBusy := some value, worker := .sending info }
  | .playstate value =>
    if p.Cancelled ∨ p.lastState = some value then p else { p with lastState := some value, worker := .sending info }
  | .position value =>
    if p.Cancelled ∨ p.lastPosition = value then p else { p with lastPosition := value, worker := .sending info }
  | _ => { p with worker := .sending info }

/-- `send`, under the lock. -/
def send (p : Player F) (info : Info F) : Player F :=
  if p.Cancelled then { p with worker := .idle }
  else
    let notification := { epoch := p.channel.epoch, info := info, revision := p.activeRevision, serial := p.sent }
    { p with
      channel := p.channel.send notification
      sent := p.sent + 1
      last := if info.isPosition then some notification else p.last
      worker := .idle }

/-- The loop finds out what the entry it took stands for. -/
def resolve (p : Player F) (notification : Notification F) : Player F :=
  let (channel, resolved) := p.channel.resolve notification
  { p with
    channel := channel
    loop :=
      match resolved with
      | some notification => .resolved notification
      | none => .waiting }

def test (p : Player F) (notification : Notification F) : Player F :=
  { p with loop := if notification.epoch = p.channel.epoch then .hopping notification else .waiting }

/-- On the thread of the interface: the epoch again, and `set_position_raw` or `processNotify`. -/
def deliver (p : Player F) (notification : Notification F) : Player F :=
  if notification.epoch = p.channel.epoch then
    { p with
      handled := p.handled ++ [(notification, p.superseded)]
      loop := if notification.info.isPosition then .waiting else .handling notification }
  else { p with loop := .waiting }

def emit (p : Player F) (notification : Notification F) : Player F :=
  { p with emitted := p.emitted ++ [(notification, p.superseded)], loop := .waiting }

end Player

open Player

inductive Event (F : Type) where
  | start (call : Call)
  | revise
  | advance
  | push
  | closeChannel
  | take
  | activate
  | report (info : Info F)
  | send
  | next
  | resolve
  | test
  | deliver
  | emit
  | abandon

/-- The steps of the loop. -/
def Event.ofLoop : Event F → Bool
  | .next | .resolve | .test | .deliver | .emit => true
  | _ => false

/-- What an event does.  The loop is abandoned when the thread of the interface is gone, or the channel is closed. -/
def perform (p : Player F) : Event F → Option (Player F)
  | .start call =>
    match p.caller with
    | .idle => some (p.start call)
    | _ => none
  | .revise =>
    match p.caller with
    | .counted call => some (p.revise call)
    | _ => none
  | .advance =>
    match p.caller with
    | .revised call => some (p.advance call)
    | _ => none
  | .push =>
    match p.caller with
    | .pushing kind => some (p.push kind)
    | _ => none
  | .closeChannel =>
    match p.caller with
    | .idle => if p.closed then some { p with channel := { p.channel with closed := true } } else none
    | _ => none
  | .take =>
    match p.worker, p.commands with
    | .idle, command :: rest => some (Player.take { p with commands := rest } command)
    | _, _ => none
  | .activate =>
    match p.worker with
    | .checked command => some (p.activate command)
    | _ => none
  | .report info =>
    match p.worker with
    | .idle => some (p.report info)
    | _ => none
  | .send =>
    match p.worker, p.caller with
    | .sending info, .idle => some (p.send info)
    | _, _ => none
  | .next =>
    match p.loop, p.channel.queue with
    | .waiting, notification :: rest =>
      some { p with channel := { p.channel with queue := rest }, loop := .took notification }
    | _, _ => none
  | .resolve =>
    match p.loop with
    | .took notification => some (p.resolve notification)
    | _ => none
  | .test =>
    match p.loop with
    | .resolved notification => some (p.test notification)
    | _ => none
  | .deliver =>
    match p.loop, p.caller with
    | .hopping notification, .idle => some (p.deliver notification)
    | _, _ => none
  | .emit =>
    match p.loop, p.caller with
    | .handling notification, .idle => some (p.emit notification)
    | _, _ => none
  | .abandon =>
    match p.loop with
    | .hopping _ => some { p with loop := .ended }
    | .waiting => if p.channel.closed then some { p with loop := .ended } else none
    | _ => none

def Step (p : Player F) (event : Event F) (q : Player F) : Prop := perform p event = some q

def Loop.isHandling : Loop F → Bool
  | .handling _ => true
  | _ => false

/-- No handler of a notification submits a source, a stop or a seek. -/
def Calm (p : Player F) : Event F → Prop
  | .start call => p.loop.isHandling = true → call.supersedes = false
  | _ => True

instance (p : Player F) : (event : Event F) → Decidable (Calm p event)
  | .start _ => inferInstanceAs (Decidable (_ → _))
  | .revise | .advance | .push | .closeChannel | .take | .activate | .report _ | .send | .next | .resolve | .test
  | .deliver | .emit | .abandon => inferInstanceAs (Decidable True)

/-- A later position is sent, or the epoch advances. -/
def Replaces (p : Player F) : Event F → Prop
  | .send => (∃ value, p.worker = .sending (.position value)) ∧ ¬ p.Cancelled
  | .advance => True
  | _ => False

/-- The notifications were given for the revision that was the last one submitted then. -/
def Current (log : List (Notification F × Nat)) : Prop := ∀ entry ∈ log, entry.1.revision = entry.2

/-- The interface has handled the notification. -/
def Handled (p : Player F) (notification : Notification F) : Prop := ∃ entry ∈ p.handled, entry.1 = notification

/-- The steps until the loop waits again. -/
def Loop.steps : Loop F → Nat
  | .waiting | .ended => 0
  | .handling _ => 1
  | .hopping _ => 2
  | .resolved _ => 3
  | .took _ => 4

/-- The steps of the loop until it has taken all out of the queue that is in it now. -/
def Player.work (p : Player F) : Nat := p.loop.steps + 5 * p.channel.queue.length

/-- The latest position of the epoch is delivered, unless a later position or a later epoch replaces it or the loop is
abandoned: until then the loop can go on whenever no call is under way, and it has delivered the position when it has
gone on for as long as its work takes. -/
def Arrives (p : Player F) : Prop :=
  ∀ notification, p.last = some notification → p.loop ≠ .ended →
    (Handled p notification ∨ p.caller ≠ .idle ∨ ∃ event q, event.ofLoop = true ∧ Step p event q) ∧
    ∀ trace q, Runs.Steps Step p trace q →
      (∀ entry ∈ trace, ¬ Replaces entry.1 entry.2 ∧ entry.2 ≠ .abandon) →
      p.work ≤ (trace.filter fun entry => entry.2.ofLoop).length → Handled q notification

end Qcm.PlayerNotifications
