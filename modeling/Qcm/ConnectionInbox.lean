import Qcm.Lib.Hash
import Qcm.Lib.Runs

/-!
The connection to the backend and the inbox of its messages (`backend/connection.cpp`).

All of it runs on the thread of the interface.  A callback may do anything there
before it returns, also let further messages arrive, so a callback that has been
called stands on a stack with what its caller has left to do.
-/

namespace Qcm.ConnectionInbox

open Lib

/-- A `QByteArray`. -/
abbrev Message := List UInt8

/-- `ConnectionInbox::charge`; a `QByteArray` object has 24 bytes. -/
def charge (value : Message) : Nat := max value.length 24

/-- `ConnectionInbox` of one connection, with the messages that arrived over it, those handed to the callback,
and whether `connect` has returned a client that is used. -/
structure Inbox where
  messages : List Message := []
  bytes : Nat := 0
  ready : Bool := false
  delivering : Bool := false
  arrived : List Message := []
  delivered : List Message := []
  opened : Bool := false

/-- `ConnectionInbox::append` -/
def Inbox.append (inbox : Inbox) (value : Message) (limit : Nat) : Option Inbox :=
  if limit < charge value ∨ limit - charge value < inbox.bytes then none
  else some { inbox with bytes := inbox.bytes + charge value, messages := inbox.messages ++ [value] }

/-- A callback that has been called, by what is left to do when it returns. -/
inductive Frame where
  | done
  | drain (generation : Nat)
  | opening (generation : Nat)
deriving DecidableEq

/-- Where `run_connection` waits. -/
inductive Worker where
  | waiting
  | connecting (generation : Nat)
  | opening (generation : Nat)
  | established (generation : Nat)
  | leaving (generation : Nat) (wasConnected : Bool)
  | closing (generation : Nat) (wasConnected : Bool)
  | stopped
deriving DecidableEq

/-- `ConnectionState`, with the inboxes of the connections begun so far under their generations. -/
structure ConnectionState where
  generation : Nat := 0
  connected : Bool := false
  closing : Bool := false
  failed : Bool := false
  peerDisconnected : Bool := false
  target : Bool := false
  inboxes : Hash Nat Inbox := ∅
  worker : Worker := .waiting
  frames : List Frame := []

namespace ConnectionState

def stop (state : ConnectionState) : ConnectionState := { state with connected := false }

def current (state : ConnectionState) (value : Nat) : Prop := state.generation = value ∧ state.closing = false

instance (state : ConnectionState) (value : Nat) : Decidable (state.current value) :=
  inferInstanceAs (Decidable (_ ∧ _))

def called (state : ConnectionState) (frame : Frame) : ConnectionState :=
  { state with frames := frame :: state.frames }

def put (state : ConnectionState) (generation : Nat) (inbox : Inbox) : ConnectionState :=
  { state with inboxes := state.inboxes.insert generation inbox }

def fail (state : ConnectionState) (value : Nat) : ConnectionState :=
  if ¬ state.current value ∨ state.failed = true then state
  else (stop { state with failed := true }).called .done

/-- The loop of `ConnectionInbox::drain` from its test on: up to the next call of the callback, or to the end. -/
def drainLoop (state : ConnectionState) (generation : Nat) (inbox : Inbox) : ConnectionState :=
  if state.current generation ∧ state.connected = true ∧ state.failed = false then
    match inbox.messages with
    | value :: rest =>
      (state.put generation { inbox with
        messages := rest
        bytes := inbox.bytes - charge value
        delivered := inbox.delivered ++ [value] }).called (.drain generation)
    | [] => state.put generation { inbox with delivering := false }
  else state.put generation { inbox with delivering := false, messages := [], bytes := 0 }

/-- `ConnectionInbox::drain` -/
def drain (state : ConnectionState) (generation : Nat) (inbox : Inbox) : ConnectionState :=
  if inbox.ready = false ∨ inbox.delivering = true then state.put generation inbox
  else drainLoop state generation { inbox with delivering := true }

end ConnectionState

open ConnectionState

/-- The kinds of messages, as far as they are told apart. -/
inductive Kind where
  | binary
  | pong
  | other
deriving DecidableEq

/-- The message callback of a connection; what arrived is noted in the inbox before. -/
def receive (limit : Nat) (state : ConnectionState) (generation : Nat) (inbox : Inbox) (kind : Kind)
    (value : Message) : ConnectionState :=
  if ¬ state.current generation ∨ state.failed = true then state
  else
    match kind with
    | .pong => state
    | .other => state.fail generation
    | .binary =>
      if inbox.ready = true ∧ inbox.delivering = false ∧ inbox.messages = [] then
        if state.connected = true then
          (state.put generation { inbox with delivered := inbox.delivered ++ [value] }).called .done
        else state
      else
        match inbox.append value limit with
        | some appended => state.drain generation appended
        | none => state.fail generation

def Inbox.note (inbox : Inbox) (kind : Kind) (value : Message) : Inbox :=
  if kind = .binary then { inbox with arrived := inbox.arrived ++ [value] } else inbox

/-- `callbacks.disconnected` of a connection. -/
def disconnected (state : ConnectionState) (generation : Nat) : ConnectionState :=
  if state.current generation then { state with connected := false, peerDisconnected := true } else state

/-- `BackendConnection::open`, with an address that can be parsed or not. -/
def openUrl (state : ConnectionState) (parsed : Bool) : ConnectionState :=
  if state.closing = true then state
  else if parsed = false then state.fail state.generation
  else { stop { state with generation := state.generation + 1 } with target := true }

/-- `BackendConnection::disconnect` -/
def disconnect (state : ConnectionState) : ConnectionState :=
  stop { state with generation := state.generation + 1, target := false }

/-- `BackendConnection::shutdown` -/
def shutdown (state : ConnectionState) : ConnectionState :=
  { state with closing := true, connected := false, target := false }

/-- `run_connection` takes the address up; the session can be made or not. -/
def takeTarget (state : ConnectionState) (session : Bool) : ConnectionState :=
  let begun := { state with target := false, failed := false, peerDisconnected := false }
  if session = true then
    { begun.put state.generation {} with worker := .connecting state.generation }
  else begun.fail state.generation

/-- `WebSocketClient::connect` has returned, with a client that is connected or not, or without one. -/
def connectReturned (state : ConnectionState) (generation : Nat) (inbox : Inbox) (client : Option Bool) :
    ConnectionState :=
  match client with
  | none => { state.fail generation with worker := .closing generation false }
  | some isConnected =>
    if state.current generation ∧ state.failed = false ∧ state.peerDisconnected = false ∧ isConnected = true then
      { (state.put generation { inbox with opened := true }).called (.opening generation) with
        connected := true
        worker := .opening generation }
    else { state with connected := false, worker := .leaving generation false }

/-- The session of a connection is closed; who was told of the connection is told of its end. -/
def sessionClosed (state : ConnectionState) (generation : Nat) (wasConnected failed : Bool) : ConnectionState :=
  let closed := if failed = true then state.fail generation else state
  let waiting := { closed with worker := .waiting }
  if waiting.current generation ∧ wasConnected = true then waiting.called .done else waiting

/-- What can happen, in any order and also while a callback has not returned. -/
inductive Event where
  | message (generation : Nat) (kind : Kind) (value : Message)
  | error (generation : Nat)
  | disconnected (generation : Nat)
  | openUrl (parsed : Bool)
  | disconnect
  | shutdown
  | engineFailed
  | takeTarget (session : Bool)
  | connectReturned (client : Option Bool)
  | changed
  | clientClosed (failed : Bool)
  | sessionClosed (failed : Bool)
  | returned

/-- The callback on top of the stack returns. -/
def returned (state : ConnectionState) : Option ConnectionState :=
  match state.frames with
  | [] => none
  | .done :: rest => some { state with frames := rest }
  | .drain generation :: rest =>
    (state.inboxes.lookup generation).map fun inbox => drainLoop { state with frames := rest } generation inbox
  | .opening generation :: rest =>
    (state.inboxes.lookup generation).map fun inbox =>
      drain { state with frames := rest, worker := .established generation } generation { inbox with ready := true }

/-- What an event does; an error is one of the connection or of something sent over it. -/
def perform (limit : Nat) (state : ConnectionState) : Event → Option ConnectionState
  | .message generation kind value =>
    (state.inboxes.lookup generation).map fun inbox =>
      let noted := inbox.note kind value
      receive limit (state.put generation noted) generation noted kind value
  | .error generation => (state.inboxes.lookup generation).map fun _ => state.fail generation
  | .disconnected generation => (state.inboxes.lookup generation).map fun _ => disconnected state generation
  | .openUrl parsed => some (openUrl state parsed)
  | .disconnect => some (disconnect state)
  | .shutdown => some (shutdown state)
  | .engineFailed =>
    if state.worker = .waiting then some { state.fail state.generation with worker := .stopped } else none
  | .takeTarget session =>
    if state.worker = .waiting ∧ state.closing = false ∧ state.target = true then some (takeTarget state session) else none
  | .connectReturned client =>
    match state.worker with
    | .connecting generation =>
      (state.inboxes.lookup generation).map fun inbox => connectReturned state generation inbox client
    | _ => none
  | .changed =>
    match state.worker with
    | .established generation =>
      if state.current generation ∧ state.connected = true then none
      else some { state with connected := false, worker := .leaving generation true }
    | _ => none
  | .clientClosed failed =>
    match state.worker with
    | .leaving generation wasConnected =>
      let closed := if failed = true then state.fail generation else state
      some { closed with worker := .closing generation wasConnected }
    | _ => none
  | .sessionClosed failed =>
    match state.worker with
    | .closing generation wasConnected => some (sessionClosed state generation wasConnected failed)
    | _ => none
  | .returned => returned state

def Step (limit : Nat) (state : ConnectionState) (event : Event) (next : ConnectionState) : Prop :=
  perform limit state event = some next

/-- The connection of this generation has failed, or the generation is no longer the current one. -/
def Over (state : ConnectionState) (generation : Nat) : Prop :=
  generation ∈ state.inboxes ∧ (¬ state.current generation ∨ state.failed = true)

/-- The connection is current and connected, or may still become so. -/
def Live (state : ConnectionState) (generation : Nat) (inbox : Inbox) : Prop :=
  state.current generation ∧ state.failed = false ∧ (state.connected = true ∨ inbox.opened = false)

/-- No callback of this connection stands on the stack that has messages handed out when it returns. -/
def Quiet (state : ConnectionState) (generation : Nat) : Prop :=
  .drain generation ∉ state.frames ∧ .opening generation ∉ state.frames

/-- What the inbox of a connection keeps to.  What was handed out and what is queued are arrivals in their order,
each once; while the connection is current and connected, or may become so, they are all arrivals, and none of them
is queued once the callbacks have returned; and nothing is handed out any more once the connection is over. -/
structure Delivers (limit : Nat) (state : ConnectionState) (generation : Nat) (inbox : Inbox) : Prop where
  bytes : inbox.bytes = (inbox.messages.map charge).sum
  within : inbox.bytes ≤ limit
  order : (inbox.delivered ++ inbox.messages).Sublist inbox.arrived
  early : Live state generation inbox → inbox.delivered ++ inbox.messages = inbox.arrived
  whole : state.current generation → state.connected = true → inbox.delivered ++ inbox.messages = inbox.arrived
  quiet : state.current generation → state.connected = true → Quiet state generation → inbox.delivered = inbox.arrived
  ended : Over state generation → ∀ trace later, Runs.Steps (Step limit) state trace later →
    (later.inboxes.lookup generation).map Inbox.delivered = some inbox.delivered

end Qcm.ConnectionInbox
