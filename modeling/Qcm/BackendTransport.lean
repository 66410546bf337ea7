import Qcm.Lib.Hash
import Qcm.Lib.Runs

/-!
The transport to the backend (`backend.cpp`, `BackendTransport` and `Backend::send`, with `protocol.hpp` and
`pending.cppm`), and the way of what it receives to the entity store and the message handlers.

The transport has a thread of its own.  What is posted to it is taken up in order, and so are the calls that it posts
to the interface; a task that waits may be resumed whenever its result is there.  A step is what a thread does before
it returns to its queue, so the steps of the two threads come in any order.
-/

namespace Qcm.BackendTransport

open Lib
open Runs

/-- An `EntityBatch`, by what the handshake looks at. -/
structure Batch where
  protocol : Nat
  instanceId : String
deriving DecidableEq

/-- A `QcmMessage`: whether its type is `TEST_RSP` and whether it has one are told apart, and `rsp` is whether the
code of a `Rsp` is `ERROR_CODE_OK`. -/
structure Message where
  id : Int
  protocolVersion : Nat
  isTestRsp : Bool
  hasTestRsp : Bool
  entities : Option Batch
  rsp : Option Bool
deriving DecidableEq

/-- `protocol::Version` -/
def version : Nat := 2

/-- `protocol::Session` -/
structure Session where
  serial : Int := 0
  ready : Bool := false

namespace Session

def reset : Session := {}

def begin (serial : Int) : Session := { serial := serial }

/-- `accept`: the session after a message, or what is wrong with the message. -/
def accept (session : Session) (message : Message) : Except String Session :=
  if message.protocolVersion ≠ version then
    .error s!"Backend protocol mismatch: expected {version}, received {message.protocolVersion}"
  else if session.ready = true then .ok session
  else if session.serial = 0 ∨ message.id ≠ session.serial ∨ message.hasTestRsp = false ∨ message.isTestRsp = false then
    .error "Backend message received before handshake"
  else
    match message.entities with
    | some batch =>
      if batch.protocol ≠ version ∨ batch.instanceId = "" then .error "Backend entity protocol mismatch"
      else .ok { session with ready := true }
    | none => .error "Backend entity protocol mismatch"

end Session

/-- A message that has come in, with `m_generation` then, whether the peer had said hello by then, and the number of
the request that it answers. -/
structure Received where
  message : Message
  generation : Nat
  greeted : Bool
  answers : Option Nat
deriving DecidableEq

/-- A task of `Backend::send`: the requests are numbered, and know the generation in which they began. -/
structure Request where
  number : Nat
  id : Int
  generation : Nat
deriving DecidableEq

/-- What a request comes to. -/
inductive Result where
  | ok (received : Received)
  | err (message : String)
deriving DecidableEq

/-- What is posted to the transport. -/
inductive Post where
  | start
  | kill
  | connectTo
  | send (request : Request)
  | sendUntracked (id : Int) (hasTestReq : Bool)
  | cancel (id : Int)
  | shutdown
deriving DecidableEq

/-- What is posted to the interface. -/
inductive Call where
  | started
  | connected
  | disconnected
  | error (message : String)
  | message (received : Received)
  | handle (received : Received)
deriving DecidableEq

/-- What a request waits for has come: its answer, or that the entities of its answer were applied. -/
inductive Resumption where
  | answered (request : Request) (result : Result)
  | applied (request : Request) (received : Received)
deriving DecidableEq

/-- A delivery to the store, for a request or for the message itself. -/
structure Operation where
  delivery : Nat
  received : Received
  consumer : Option Request
deriving DecidableEq

/-- The connection: also one that its peer has left, before the transport is told of it. -/
inductive Link where
  | idle
  | opening
  | open
  | parted
deriving DecidableEq

/-- The two threads.  Of the peer it is known which messages it has not answered yet on this connection (`owed`, with
the numbers of the requests), which hellos it was sent and whether it has answered one of them; the last fields are
what has come of it all, with `m_generation` then. -/
structure Backend where
  protocol : Session := {}
  timer : Bool := false
  running : Bool := false
  link : Link := .idle
  pending : Hash Int Request := ∅
  shuttingDown : Bool := false
  connected : Bool := false
  failed : Bool := false
  posted : List Post := []
  owed : List (Int × Option Nat) := []
  hellos : List Int := []
  greeted : Bool := false
  generation : Nat := 0
  serial : Int := 1
  requests : List Request := []
  calls : List Call := []
  resumptions : List Resumption := []
  abandoned : List Nat := []
  deliveryGeneration : Nat := 0
  operations : List Operation := []
  applying : Option Operation := none
  stored : List (Received × Nat) := []
  handled : List (Received × Nat) := []
  finished : List (Request × Result) := []

namespace Backend

def resetProtocol (s : Backend) : Backend := { s with protocol := .reset, timer := false }

def post (s : Backend) (call : Call) : Backend := { s with calls := s.calls ++ [call] }

/-- The handle of a request is completed. -/
def settle (s : Backend) (request : Request) (result : Result) : Backend :=
  { s with resumptions := s.resumptions ++ [.answered request result] }

/-- `m_pending.fail_all` -/
def failPending (s : Backend) (message : String) : Backend :=
  { s with
    pending := ∅
    resumptions := s.resumptions ++ (Hash.values s.pending).map fun request => .answered request (.err message) }

def fail (s : Backend) (message : String) : Backend :=
  let down := { ({ s.resetProtocol with connected := false }).failPending message with link := .idle }
  if s.shuttingDown = true then down
  else if s.failed = true then down
  else { down with failed := true }.post (.error message)

/-- `callbacks.connected` -/
def whenConnected (s : Backend) : Backend :=
  { s.resetProtocol with generation := s.generation + 1, connected := true }.post .connected

/-- `callbacks.disconnected` -/
def whenDisconnected (s : Backend) : Backend :=
  ({ s.resetProtocol with generation := s.generation + 1, connected := false }.failPending "backend disconnected").post
    .disconnected

/-- `BackendPending::complete` -/
def complete (s : Backend) (id : Int) (received : Received) : Backend :=
  match s.pending.lookup id with
  | some request => { s with pending := s.pending.erase id }.settle request (.ok received)
  | none => s

/-- `callbacks.message` -/
def whenMessage (s : Backend) (received : Received) : Backend :=
  match s.protocol.accept received.message with
  | .error message => s.fail message
  | .ok protocol =>
    let accepted := { s with protocol := protocol, timer := if protocol.ready = true then false else s.timer }
    if received.message.id ≠ 0 ∧ received.message.hasTestRsp = false then accepted.complete received.message.id received
    else accepted.post (.message received)

def start (s : Backend) : Backend :=
  if s.running = true then s
  else if s.shuttingDown = true then s
  else { s with failed := false, connected := false, link := .idle, running := true }

def kill (s : Backend) : Backend := { s.resetProtocol with connected := false, link := .idle }

def connectTo (s : Backend) : Backend := if s.shuttingDown = true then s else { s with link := .opening }

/-- `BackendTransport::send`; the connection may refuse the message. -/
def send (s : Backend) (request : Request) (refused : Option String) : Backend :=
  if s.connected = false ∨ s.shuttingDown = true then s.settle request (.err "backend disconnected")
  else if s.protocol.ready = false then s.settle request (.err "backend handshake not complete")
  else if (s.pending.lookup request.id).isSome then s.settle request (.err "duplicate backend request id")
  else if s.link ≠ .open then s.settle request (.err "Backend disconnected")
  else
    match refused with
    | some message => s.settle request (.err message)
    | none => { s with
        pending := s.pending.insert request.id request
        owed := s.owed ++ [(request.id, some request.number)] }

def sendUntracked (s : Backend) (id : Int) (hasTestReq : Bool) (refused : Option String) : Backend :=
  if s.connected = false ∨ s.shuttingDown = true then s
  else if s.protocol.ready = false ∧ hasTestReq = false then s.fail "backend handshake not complete"
  else
    let begun :=
      if s.protocol.ready = true then s
      else { s with protocol := .begin id, timer := true, hellos := s.hellos ++ [id] }
    if s.link ≠ .open ∨ refused ≠ none then begun else { begun with owed := begun.owed ++ [(id, none)] }

/-- `BackendPending::cancel`: the handle is dropped. -/
def cancel (s : Backend) (id : Int) : Backend :=
  match s.pending.lookup id with
  | some request => { s with pending := s.pending.erase id }.settle request (.err "request canceled")
  | none => s

def shutdown (s : Backend) : Backend :=
  { { s.resetProtocol with shuttingDown := true, connected := false }.failPending "backend shutting down" with
    link := .idle }

def work (s : Backend) (refused : Option String) : Post → Backend
  | .start => s.start
  | .kill => s.kill
  | .connectTo => s.connectTo
  | .send request => s.send request refused
  | .sendUntracked id hasTestReq => s.sendUntracked id hasTestReq refused
  | .cancel id => s.cancel id
  | .shutdown => s.shutdown

/-! ## The interface -/

/-- `Backend::serial` -/
def next (current : Int) : Int := if current = 2147483647 then 1 else current + 1

/-- `Backend::send`, up to where it waits. -/
def request (s : Backend) : Backend :=
  let request := { number := s.requests.length, id := s.serial, generation := s.generation }
  { s with
    serial := next s.serial
    requests := s.requests ++ [request]
    posted := s.posted ++ [.send request] }

/-- `Backend::on_error` -/
def onError (s : Backend) : Backend := { s with posted := s.posted ++ [.kill] }

/-- `Backend::on_connected`, with `AppStore::reset`. -/
def onConnected (s : Backend) : Backend :=
  { s with
    deliveryGeneration := s.deliveryGeneration + 1
    serial := next s.serial
    posted := s.posted ++ [.sendUntracked s.serial true] }

/-- `AppStore::deliver` -/
def deliver (s : Backend) (received : Received) (consumer : Option Request) : Backend :=
  { s with operations := s.operations ++ [⟨s.deliveryGeneration, received, consumer⟩] }

/-- `process_msg`, which posts to the handler. -/
def processMsg (s : Backend) (received : Received) : Backend := s.post (.handle received)

/-- The lambda that a message without a request is posted with. -/
def onMessage (s : Backend) (received : Received) : Backend :=
  if received.generation ≠ s.generation then s
  else if received.message.entities.isSome then s.deliver received none
  else if received.message.hasTestRsp = true then s.onError
  else s.processMsg received

def call (s : Backend) : Call → Backend
  | .started => { s with posted := s.posted ++ [.connectTo] }
  | .connected => s.onConnected
  | .disconnected => s
  | .error _ => s.onError
  | .message received => s.onMessage received
  | .handle received => { s with handled := s.handled ++ [(received, s.generation)] }

/-- A request returns, and the guard cancels it. -/
def finish (s : Backend) (request : Request) (result : Result) : Backend :=
  { s with finished := s.finished ++ [(request, result)], posted := s.posted ++ [.cancel request.id] }

/-- `Backend::send`, from where it waited on; of one that was abandoned nothing is left. -/
def resume (s : Backend) (resumption : Resumption) : Backend :=
  match resumption with
  | .answered request result =>
    if request.number ∈ s.abandoned then { s with finished := s.finished ++ [(request, .err "request canceled")] }
    else
      match result with
      | .err message => s.finish request (.err message)
      | .ok received =>
        if request.generation ≠ s.generation then s.finish request (.err "backend generation changed")
        else if received.message.entities.isSome then s.deliver received (some request)
        else if received.message.rsp = none ∨ received.message.rsp = some true then
          s.finish request (.err "backend does not support entity protocol v1")
        else s.finish request (.ok received)
  | .applied request received =>
    if request.number ∈ s.abandoned then { s with finished := s.finished ++ [(request, .err "request canceled")] }
    else if request.generation ≠ s.generation then
      s.finish request (.err "backend generation changed during delivery")
    else s.finish request (.ok received)

/-- The `completed` of a delivery. -/
def completed (s : Backend) (operation : Operation) (error : Option String) : Backend :=
  match operation.consumer, error with
  | none, none => s.processMsg operation.received
  | none, some _ => s.onError
  | some request, none => { s with resumptions := s.resumptions ++ [.applied request operation.received] }
  | some request, some message => s.settle request (.err message)

/-- The store begins an operation of its queue. -/
def apply (s : Backend) (operation : Operation) : Backend :=
  if operation.delivery ≠ s.deliveryGeneration then s.completed operation (some "entity store reset")
  else { s with stored := s.stored ++ [(operation.received, s.generation)], applying := some operation }

end Backend

open Backend

inductive Event where
  | connected
  | parted
  | disconnected
  | message (message : Message) (entry : Option (Int × Option Nat))
  | garbage
  | error (message : String)
  | exited (code : Int)
  | processError (key : String) (stopped : Bool)
  | timeout
  | port (found : Bool)
  | work (refused : Option String)
  | request
  | abandon (request : Request)
  | start
  | shutdown
  | call
  | resume (resumption : Resumption)
  | apply
  | applied (error : Option String)

/-- A hello of the peer on this connection: an answer to a hello that was sent to it, with all that belongs to it. -/
def greets (hellos : List Int) (message : Message) : Bool :=
  message.protocolVersion = version ∧ message.id ∈ hellos ∧ message.hasTestRsp = true ∧ message.isTestRsp = true ∧
    message.entities.any fun batch => batch.protocol = version ∧ batch.instanceId ≠ ""

/-- The message comes in, and is handed to the transport. -/
def Backend.receive (s : Backend) (message : Message) (answers : Option Nat) : Backend :=
  let greeted := s.greeted || greets s.hellos message
  { s with greeted := greeted }.whenMessage
    { message := message, generation := s.generation, greeted := greeted, answers := answers }

/-- What happens.  A peer that has said hello sends answers to what it was sent, once each and with the id of what they
answer, and other messages without an id; before, it may send anything. -/
def perform (s : Backend) : Event → Option Backend
  | .connected =>
    if s.link = .opening then some { s.whenConnected with link := .open, owed := [], hellos := [], greeted := false }
    else none
  | .parted => if s.link = .open then some { s with link := .parted } else none
  | .disconnected =>
    if s.link = .open ∨ s.link = .parted then some { s.whenDisconnected with link := .idle } else none
  | .message message (some entry) =>
    if s.link = .open ∧ entry ∈ s.owed ∧ message.id = entry.1 then
      some ({ s with owed := s.owed.erase entry }.receive message entry.2)
    else none
  | .message message none =>
    if s.link = .open ∧ (s.protocol.ready = false ∨ message.id = 0) then some (s.receive message none) else none
  | .garbage => if s.link = .open then some (s.fail "Invalid backend protobuf message") else none
  | .error message => some (s.fail message)
  | .exited code =>
    if s.running = true then some (({ s with running := false } : Backend).fail s!"Backend exited: {code}") else none
  | .processError key stopped =>
    if s.running = true then some (({ s with running := !stopped } : Backend).fail s!"Backend {key}") else none
  | .timeout => if s.timer = true then some (s.fail "Backend handshake timed out") else none
  | .port found =>
    if s.running = true then
      some (s.post (if found = true then .started else .error "Read port from backend failed"))
    else none
  | .work refused =>
    match s.posted with
    | post :: rest => some (({ s with posted := rest } : Backend).work refused post)
    | [] => none
  | .request => some s.request
  | .abandon request =>
    if request ∈ s.requests ∧ request.number ∉ s.abandoned ∧ request ∉ s.finished.map Prod.fst then
      some { s with abandoned := s.abandoned ++ [request.number], posted := s.posted ++ [.cancel request.id] }
    else none
  | .start => some { s with posted := s.posted ++ [.start] }
  | .shutdown => some { s with posted := s.posted ++ [.shutdown] }
  | .call =>
    match s.calls with
    | call :: rest => some (({ s with calls := rest } : Backend).call call)
    | [] => none
  | .resume resumption =>
    if resumption ∈ s.resumptions then
      some (({ s with resumptions := s.resumptions.erase resumption } : Backend).resume resumption)
    else none
  | .apply =>
    match s.applying, s.operations with
    | none, operation :: rest => some (({ s with operations := rest } : Backend).apply operation)
    | _, _ => none
  | .applied error =>
    match s.applying with
    | some operation => some (({ s with applying := none } : Backend).completed operation error)
    | none => none

def Step (s : Backend) (event : Event) (t : Backend) : Prop := perform s event = some t

def Call.handed : Call → Option Received
  | .handle received => some received
  | .started | .connected | .disconnected | .error _ | .message _ => none

def Post.request : Post → Option Request
  | .send request => some request
  | .start | .kill | .connectTo | .sendUntracked _ _ | .cancel _ | .shutdown => none

def Resumption.request : Resumption → Request
  | .answered request _ | .applied request _ => request

/-- The messages that are past the test of their generation, and are neither stored nor handled yet. -/
def Backend.inHand (s : Backend) : List Received :=
  s.calls.filterMap Call.handed ++ s.operations.map Operation.received ++ (s.applying.map Operation.received).toList

/-- What is posted to be sent has an id that no message has which waits for its answer; a request whose id is pending
is not sent anyway. -/
def Unused (s : Backend) : Post → Prop
  | .send request => s.pending.lookup request.id = none → ∀ entry ∈ s.owed, entry.1 ≠ request.id
  | .sendUntracked id _ => s.pending.lookup id = none ∧ ∀ entry ∈ s.owed, entry.1 ≠ id
  | .start | .kill | .connectTo | .cancel _ | .shutdown => True

instance (s : Backend) : (post : Post) → Decidable (Unused s post)
  | .send _ => inferInstanceAs (Decidable (_ = _ → ∀ entry ∈ _, _))
  | .sendUntracked _ _ => inferInstanceAs (Decidable (_ ∧ ∀ entry ∈ _, _))
  | .start | .kill | .connectTo | .cancel _ | .shutdown => inferInstanceAs (Decidable True)

/-- The connection is neither made nor lost while the interface has a message in hand, and no id is used again while a
message with it waits for its answer. -/
def Spares (s : Backend) : Event → Prop
  | .connected | .disconnected => s.inHand = []
  | .work _ => ∀ post ∈ s.posted.head?, Unused s post
  | _ => True

instance (s : Backend) : (event : Event) → Decidable (Spares s event)
  | .connected | .disconnected => inferInstanceAs (Decidable (_ = _))
  | .work _ => inferInstanceAs (Decidable (∀ post ∈ _, Unused s post))
  | .parted | .message .. | .garbage | .error _ | .exited _ | .processError .. | .timeout | .port _ | .request
  | .abandon _ | .start | .shutdown | .call | .resume _ | .apply | .applied _ => inferInstanceAs (Decidable True)

/-- The requests that have not returned. -/
def Backend.underWay (s : Backend) : List Request :=
  s.posted.filterMap Post.request ++ Hash.values s.pending ++ s.resumptions.map Resumption.request ++
    s.operations.filterMap Operation.consumer ++ (s.applying.bind Operation.consumer).toList

/-- What a request comes to when it returns with a message. -/
def Result.received : Result → Option Received
  | .ok received => some received
  | .err _ => none

/-- The events in which the transport gives all up that waits for an answer. -/
def Event.failing : Event → Prop
  | .disconnected | .garbage | .error _ | .exited _ | .processError _ _ | .timeout => True
  | _ => False

/-- What holds in every run. -/
structure Carried (s : Backend) : Prop where
  /-- What reaches the store, the handlers and the requests came after the peer had said hello. -/
  stored : ∀ entry ∈ s.stored, entry.1.greeted = true
  handled : ∀ entry ∈ s.handled, entry.1.greeted = true
  answered : ∀ entry ∈ s.finished, ∀ received, entry.2.received = some received → received.greeted = true
  /-- A request is under way or has returned once. -/
  numbered : s.requests.map Request.number = List.range s.requests.length
  once : (s.underWay ++ s.finished.map Prod.fst).Perm s.requests
  /-- When the connection fails no request is left without a result. -/
  drained : ∀ event t, event.failing → Step s event t → t.pending = ∅

/-- What reaches the store and the handlers is of the generation of that moment. -/
def Current (s : Backend) : Prop :=
  (∀ entry ∈ s.stored, entry.1.generation = entry.2) ∧ ∀ entry ∈ s.handled, entry.1.generation = entry.2

/-- A request returns with its own answer or with a failure. -/
def Own (s : Backend) : Prop :=
  ∀ entry ∈ s.finished, ∀ received, entry.2.received = some received → received.answers = some entry.1.number

end Qcm.BackendTransport
