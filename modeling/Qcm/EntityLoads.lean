import Qcm.Lib.Hash
import Qcm.Lib.Runs

/-!
The loader of songs (`backend.cpp`, `EntityLoader`, with `load_pool.hpp`).

A flight is the request for a key with those who wait for its answer.  Callbacks
may do anything that is done here, so what they do stands between the calls of
the callbacks as events of their own; the callbacks of several flights may take
turns in any order, of which those of nested calls are some.
-/

namespace Qcm.EntityLoads

open Lib
open Runs

/-- Where a flight is: in the pool, taken out of it by `reset`, or with the callbacks that are still to be called of
the copy that was taken. -/
inductive Place where
  | pooled
  | cleared
  | calling (rest : List Nat)
deriving DecidableEq

/-- A `Flight`; the consumers are known by their tickets, which the map is sorted by. -/
structure Flight where
  key : String
  ids : List Int
  consumers : List Nat
  place : Place
deriving DecidableEq

/-- The flight still has the callback of this ticket to call. -/
def Flight.owes (flight : Flight) (ticket : Nat) : Bool :=
  match flight.place with
  | .pooled | .cleared => flight.consumers.contains ticket
  | .calling rest => rest.contains ticket

/-- The callback of this ticket is in the copy. -/
def Flight.calls (flight : Flight) (ticket : Nat) : Bool :=
  match flight.place with
  | .pooled | .cleared => false
  | .calling rest => rest.contains ticket

/-- What a lease and the observer of its callback know. -/
structure Ticket where
  flight : Nat
  object : Nat
  released : Bool
deriving DecidableEq

/-- What has happened, as far as the consumers see it. -/
inductive Note where
  | called (ticket object : Nat)
  | released (ticket : Nat)
  | destroyed (object : Nat)
  | refused (object : Nat)
deriving DecidableEq

/-- `EntityLoader`.  `flights` are those that are kept alive, by the pool or by those who call their callbacks;
`running` are the ones whose request is neither answered nor cancelled, and `leaving` the tickets whose `leave` is
queued or connected to an object that was destroyed. -/
structure Loader where
  pool : Hash String Nat := ∅
  flights : Hash Nat Flight := ∅
  made : Nat := 0
  serial : Nat := 0
  tickets : Hash Nat Ticket := ∅
  running : List Nat := []
  leaving : List Nat := []
  destroyed : List Nat := []
  history : List Note := []
  pinned : List Int := []
  unpinned : List Int := []

/-- The capacity of `LoadPool`. -/
def capacity : Nat := 128

namespace Loader

/-- A new flight, in the pool and with its request under way. -/
def create (s : Loader) (key : String) (ids : List Int) : Loader :=
  { s with
    pool := s.pool.insert key s.made
    flights := s.flights.insert s.made { key := key, ids := ids, consumers := [], place := .pooled }
    made := s.made + 1
    running := s.running ++ [s.made]
    pinned := s.pinned ++ ids }

/-- A consumer joins a flight. -/
def join (s : Loader) (id : Nat) (flight : Flight) (object : Nat) : Loader :=
  { s with
    serial := s.serial + 1
    tickets := s.tickets.insert (s.serial + 1) { flight := id, object := object, released := false }
    flights := s.flights.insert id { flight with consumers := flight.consumers ++ [s.serial + 1] } }

/-- `load`, with `acquire`. -/
def load (s : Loader) (key : String) (ids : List Int) (object : Nat) : Loader :=
  if ids = [] then s
  else
    match s.pool.lookup key with
    | some id =>
      match s.flights.lookup id with
      | some flight => s.join id flight object
      | none => s
    | none =>
      if capacity ≤ s.pool.size then { s with history := s.history ++ [.refused object] }
      else (s.create key ids).join s.made { key := key, ids := ids, consumers := [], place := .pooled } object

/-- `~Flight`. -/
def drop (s : Loader) (id : Nat) : Loader :=
  match s.flights.lookup id with
  | some flight =>
    { s with
      flights := s.flights.erase id
      running := s.running.filter fun other => other ≠ id
      unpinned := s.unpinned ++ flight.ids }
  | none => s

/-- `leave`; a flight without consumers is taken out of the pool, which kept it alive. -/
def leave (s : Loader) (ticket : Nat) : Loader :=
  match s.tickets.lookup ticket with
  | some lease =>
    match s.flights.lookup lease.flight with
    | some flight =>
      let consumers := flight.consumers.erase ticket
      let left := { s with flights := s.flights.insert lease.flight { flight with consumers := consumers } }
      if consumers = [] ∧ s.pool.lookup flight.key = some lease.flight then
        drop { left with pool := s.pool.erase flight.key } lease.flight
      else left
    | none => s
  | none => s

/-- The lease is released. -/
def setReleased (s : Loader) (ticket : Nat) (lease : Ticket) : Loader :=
  { s with
    tickets := s.tickets.insert ticket { lease with released := true }
    history := s.history ++ [.released ticket] }

/-- The response is there: the flight is taken out of the pool, if it is the one there, and its consumers are copied. -/
def respond (s : Loader) (id : Nat) : Loader :=
  let answered := { s with running := s.running.filter fun other => other ≠ id }
  match s.flights.lookup id with
  | some flight =>
    if s.pool.lookup flight.key = some id then
      { answered with
        pool := s.pool.erase flight.key
        flights := s.flights.insert id { flight with place := .calling flight.consumers } }
    else answered
  | none => answered

/-- `reset`, up to its loops. -/
def reset (s : Loader) : Loader :=
  { s with
    pool := ∅
    flights := Hash.map (fun id flight =>
      if s.pool.lookup flight.key = some id then { flight with place := .cleared } else flight) s.flights }

/-- A callback is called; its observer lets it through if the object is there. -/
def call (s : Loader) (id : Nat) (flight : Flight) (ticket : Nat) (rest : List Nat) : Loader :=
  let next := { s with flights := s.flights.insert id { flight with place := .calling rest } }
  match s.tickets.lookup ticket with
  | some lease =>
    if lease.object ∈ s.destroyed then next else { next with history := s.history ++ [.called ticket lease.object] }
  | none => next

/-- The object of the ticket is there. -/
def present (s : Loader) (ticket : Nat) : Bool :=
  (s.tickets.lookup ticket).any fun lease => !s.destroyed.contains lease.object

/-- The flight of the ticket, if it is alive. -/
def flightOf (s : Loader) (ticket : Nat) : Option Flight :=
  (s.tickets.lookup ticket).bind fun lease => s.flights.lookup lease.flight

end Loader

open Loader

inductive Event where
  | load (key : String) (ids : List Int) (object : Nat)
  | release (ticket : Nat)
  | releaseElsewhere (ticket : Nat)
  | destroy (object : Nat)
  | leave (ticket : Nat)
  | respond (id : Nat)
  | reset
  | copy (id : Nat)
  | call (id : Nat)
  | drop (id : Nat)

/-- What an event does: calls, among them of callbacks; a lease that is released on another thread leaves later. -/
def perform (s : Loader) : Event → Option Loader
  | .load key ids object => if object ∈ s.destroyed then none else some (s.load key ids object)
  | .release ticket =>
    match s.tickets.lookup ticket with
    | some lease => if lease.released then none else some ((s.setReleased ticket lease).leave ticket)
    | none => none
  | .releaseElsewhere ticket =>
    match s.tickets.lookup ticket with
    | some lease =>
      if lease.released then none
      else some { s.setReleased ticket lease with leaving := s.leaving ++ [ticket] }
    | none => none
  | .destroy object =>
    if object ∈ s.destroyed then none
    else
      some { s with
        destroyed := s.destroyed ++ [object]
        history := s.history ++ [.destroyed object]
        leaving := s.leaving ++
          (s.tickets.entries.filter fun entry => entry.2.object == object && !entry.2.released).map Sigma.fst }
  | .leave ticket =>
    if ticket ∈ s.leaving then some (Loader.leave { s with leaving := s.leaving.erase ticket } ticket) else none
  | .respond id => if id ∈ s.running then some (s.respond id) else none
  | .reset => some s.reset
  | .copy id =>
    match s.flights.lookup id with
    | some flight =>
      match flight.place with
      | .cleared => some { s with flights := s.flights.insert id { flight with place := .calling flight.consumers } }
      | _ => none
    | none => none
  | .call id =>
    match s.flights.lookup id with
    | some flight =>
      match flight.place with
      | .calling (ticket :: rest) => some (s.call id flight ticket rest)
      | _ => none
    | none => none
  | .drop id =>
    match s.flights.lookup id with
    | some flight =>
      match flight.place with
      | .calling [] => some (s.drop id)
      | _ => none
    | none => none

def Step (s : Loader) (event : Event) (t : Loader) : Prop := perform s event = some t

/-- The steps of a flight of its own. -/
def Event.own (event : Event) (id : Nat) : Prop :=
  event = .respond id ∨ event = .copy id ∨ event = .call id ∨ event = .drop id

/-- No lease is released while its callback is in a copy that is being called, none on another thread while its
callback may still be called, and no key is loaded again while a flight of it that was reset is not cancelled yet. -/
def Spares (s : Loader) : Event → Prop
  | .load key _ _ =>
    (s.running.all fun id => (s.flights.lookup id).all fun flight =>
      flight.key != key || s.pool.lookup key == some id) = true
  | .release ticket => ((s.flightOf ticket).any fun flight => flight.calls ticket) = true → s.present ticket = false
  | .releaseElsewhere ticket =>
    ((s.flightOf ticket).any fun flight => flight.owes ticket) = true → s.present ticket = false
  | _ => True

instance (s : Loader) : (event : Event) → Decidable (Spares s event)
  | .load .. => inferInstanceAs (Decidable (_ = _))
  | .release _ | .releaseElsewhere _ => inferInstanceAs (Decidable (_ = _ → _ = _))
  | .destroy _ | .leave _ | .respond _ | .reset | .copy _ | .call _ | .drop _ => inferInstanceAs (Decidable True)

/-- At most one request is under way for a key. -/
def Single (s : Loader) : Prop :=
  ∀ id ∈ s.running, ∀ other ∈ s.running, ∀ flight otherFlight, s.flights.lookup id = some flight →
    s.flights.lookup other = some otherFlight → flight.key = otherFlight.key → id = other

/-- A callback is called once at most. -/
def Once (history : List Note) : Prop :=
  ∀ before ticket object later, history = before ++ .called ticket object :: later →
    ∀ other, .called ticket other ∉ before

/-- No callback is called after its lease was released or its object destroyed. -/
def NeverLate (history : List Note) : Prop :=
  ∀ before ticket object later, history = before ++ .called ticket object :: later →
    .released ticket ∉ before ∧ .destroyed object ∉ before

/-- What those who load get, and the pins. -/
structure Served (s : Loader) : Prop where
  once : Once s.history
  /-- A consumer that stays has been called or is still to be called by its flight. -/
  served : ∀ ticket lease, s.tickets.lookup ticket = some lease → lease.released = false →
    lease.object ∉ s.destroyed → .called ticket lease.object ∈ s.history ∨
      ∃ flight, s.flights.lookup lease.flight = some flight ∧ flight.owes ticket = true
  /-- A flight can be brought to its end by steps of its own. -/
  ends : ∀ id flight, s.flights.lookup id = some flight → ∃ events t, (∀ event ∈ events, event.own id) ∧
    Follows Step s events t ∧ t.flights.lookup id = none
  unpins : s.flights.entries = [] → ∀ id, s.pinned.count id = s.unpinned.count id

end Qcm.EntityLoads
