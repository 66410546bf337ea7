import Qcm.Lib.Hash

/-!
The session tasks of a plugin, `Tasks` of `plugin/lua/src/session.rs`: the first
caller of a key owns a flight and runs the callback, later callers join the
flight while its cell is empty, and the cell is written by the owner, by its drop
guard, and by `cancel`.

The table is behind a mutex, which `cancel` holds until it has sent to the last
flight; each read and each write of a cell is a step of its own.  A cell counts
its writes, and a waiter remembers the count it has seen, as `tokio::sync::watch`
does.
-/

namespace Qcm.SessionTasks

open Lib

/-- How far the owner of a flight has come.  It runs the callback, holds what the
callback returned, holds what it is about to send, has sent it, or has returned.
When its future is dropped under the callback, its guard has yet to look at the
cell, has found it empty, or is done. -/
inductive Stage (ρ : Type) where
  | running
  | returned (result : ρ)
  | read (result : ρ)
  | sent (result : ρ)
  | done (result : ρ)
  | dropping
  | failing
  | dropped
  deriving DecidableEq

/-- `Flight` with its owner.  `result` is what the callback returned and `hit`
whether `cancel` has sent to the flight, both for the statements only. -/
structure Flight (κ ρ : Type) where
  key : κ
  cell : Option ρ
  version : Nat
  stage : Stage ρ
  result : Option ρ
  hit : Bool

/-- How far a caller that has joined a flight has come. -/
inductive Wait (ρ : Type) where
  | joined
  | looking
  | waiting
  | done (result : ρ)
  | dropped
  deriving DecidableEq

/-- A caller that has joined a flight, with the version its receiver has seen. -/
structure Waiter (ρ : Type) where
  flight : Nat
  seen : Nat
  wait : Wait ρ

/-- The table, every flight and waiter there has been, and the flights that the
`cancel` that holds the table has yet to send to. -/
structure World (κ ρ : Type) where
  table : Hash κ Nat
  flights : List (Flight κ ρ)
  waiters : List (Waiter ρ)
  cancelling : Option (List Nat)

section Steps

variable {κ ρ : Type} [DecidableEq κ]

def World.fresh : World κ ρ := ⟨∅, [], [], none⟩

/-- `send_replace`. -/
def Flight.send (flight : Flight κ ρ) (result : ρ) : Flight κ ρ :=
  { flight with cell := some result, version := flight.version + 1 }

/-- The owner's future holds the flight. -/
def Stage.holds : Stage ρ → Bool
  | .done _ | .dropped => false
  | _ => true

/-- The waiter's future holds the flight. -/
def Wait.holds : Wait ρ → Bool
  | .done _ | .dropped => false
  | _ => true

/-- Whether the weak reference to a flight can be upgraded. -/
def World.alive (w : World κ ρ) (i : Nat) : Bool :=
  w.flights[i]?.any (·.stage.holds) || w.waiters.any fun waiter => waiter.flight = i && waiter.wait.holds

def World.setFlight (w : World κ ρ) (i : Nat) (flight : Flight κ ρ) : World κ ρ :=
  { w with flights := w.flights.set i flight }

def World.setWaiter (w : World κ ρ) (j : Nat) (waiter : Waiter ρ) : World κ ρ :=
  { w with waiters := w.waiters.set j waiter }

/-- The flight a call of a key joins. -/
def World.open (w : World κ ρ) (key : κ) : Option Nat :=
  (w.table.lookup key).filter fun i => w.alive i && w.flights[i]?.any (·.cell.isNone)

/-- The part of `run` under the mutex. -/
def World.call (w : World κ ρ) (key : κ) : World κ ρ :=
  match w.open key with
  | some i => { w with waiters := w.waiters ++ [⟨i, 0, .joined⟩] }
  | none =>
    { w with
      table := w.table.insert key w.flights.length
      flights := w.flights ++ [⟨key, none, 0, .running, none, false⟩] }

/-- What happens. -/
inductive Event (κ ρ : Type) where
  | call (key : κ)
  | finish (i : Nat) (result : ρ)
  | read (i : Nat)
  | send (i : Nat)
  | leave (i : Nat)
  | dropOwner (i : Nat)
  | check (i : Nat)
  | fail (i : Nat)
  | subscribe (j : Nat)
  | look (j : Nat)
  | wake (j : Nat)
  | dropWaiter (j : Nat)
  | cancel (order : List Nat)
  | cancelNext
  | cancelEnd

/-- One step of the owner of a flight; `error` is "session task cancelled". -/
def Flight.step (error : ρ) (flight : Flight κ ρ) : Event κ ρ → Option (Flight κ ρ)
  | .finish _ result =>
    match flight.stage with
    | .running => some { flight with stage := .returned result, result := some result }
    | _ => none
  | .read _ =>
    match flight.stage with
    | .returned result => some { flight with stage := .read (flight.cell.getD result) }
    | _ => none
  | .send _ =>
    match flight.stage with
    | .read result => some { flight.send result with stage := .sent result }
    | _ => none
  -- The guard is dropped with the cell filled, and the result is returned.
  | .leave _ =>
    match flight.stage with
    | .sent result => some { flight with stage := .done result }
    | _ => none
  | .dropOwner _ =>
    match flight.stage with
    | .running => some { flight with stage := .dropping }
    | _ => none
  | .check _ =>
    match flight.stage with
    | .dropping => some { flight with stage := if flight.cell.isNone then .failing else .dropped }
    | _ => none
  | .fail _ =>
    match flight.stage with
    | .failing => some { flight.send error with stage := .dropped }
    | _ => none
  | _ => none

/-- One step of a waiter on its flight. -/
def Waiter.step (waiter : Waiter ρ) (flight : Flight κ ρ) : Event κ ρ → Option (Waiter ρ)
  | .subscribe _ =>
    match waiter.wait with
    | .joined => some { waiter with seen := flight.version, wait := .looking }
    | _ => none
  | .look _ =>
    match waiter.wait, flight.cell with
    | .looking, some result => some { waiter with wait := .done result }
    | .looking, none => some { waiter with wait := .waiting }
    | _, _ => none
  | .wake _ =>
    match waiter.wait with
    | .waiting =>
      if flight.version = waiter.seen then none
      else some { waiter with seen := flight.version, wait := .looking }
    | _ => none
  | .dropWaiter _ => if waiter.wait.holds then some { waiter with wait := .dropped } else none
  | _ => none

/-- The next flight `cancel` sends to, where it is still held by anyone. -/
def World.cancelNext (error : ρ) (w : World κ ρ) (i : Nat) (rest : List Nat) : World κ ρ :=
  let w := { w with cancelling := some rest }
  if w.alive i then
    match w.flights[i]? with
    | some flight => w.setFlight i { flight.send error with hit := true }
    | none => w
  else w

/-- One step. -/
def World.step (error : ρ) (w : World κ ρ) (event : Event κ ρ) : Option (World κ ρ) :=
  match event with
  | .call key => if w.cancelling.isSome then none else some (w.call key)
  | .finish i _ | .read i | .send i | .leave i | .dropOwner i | .check i | .fail i =>
    w.flights[i]?.bind fun flight => (flight.step error event).map (w.setFlight i)
  | .subscribe j | .look j | .wake j | .dropWaiter j =>
    w.waiters[j]?.bind fun waiter =>
      w.flights[waiter.flight]?.bind fun flight => (waiter.step flight event).map (w.setWaiter j)
  | .cancel order =>
    if w.cancelling.isNone ∧ order.Perm w.table.values then
      some { w with table := ∅, cancelling := some order }
    else none
  | .cancelNext =>
    match w.cancelling with
    | some (i :: rest) => some (w.cancelNext error i rest)
    | _ => none
  | .cancelEnd => if w.cancelling = some [] then some { w with cancelling := none } else none

end Steps

end Qcm.SessionTasks
