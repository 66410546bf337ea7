import Qcm.Lib.Locks
import Qcm.Lib.Runs
import Qcm.SyncDatabase

/-!
The locks of the sync coordinator (`sync_run.rs`, `retention.rs`).

Every operation is a task that takes one step at a time: it asks for a lock, goes
on when it has it, and lets go of all its locks when it ends, with a result, with
an error or because its future was dropped.  Writers share the projection lock and
take the mutexes of providers under it; a snapshot has the projection lock alone.
-/

namespace Qcm.SyncLocks

open Lib Lib.Locks SyncDatabase

/-- The projection lock, below the mutexes of the providers by their ids. -/
abbrev LockId := WithBot Int

def projection : LockId := ⊥

/-- `ProviderState::writes`. -/
def writes (provider : Int) : LockId := provider

/-- `checked_add(1)` on a `u64`. -/
def checkedAdd (n : Nat) : Option Nat := if n < 2 ^ 64 - 1 then some (n + 1) else none

/-- The counters of `WriteState`, and the atomics beside it. -/
structure ProviderState where
  revision : Nat
  changes : Nat
  active : Nat
  sequence : Nat
deriving DecidableEq

/-- `write_guard` under the mutex: the states it leaves, and whether the guard is
given.  An error leaves the counters that were advanced before it. -/
def writeGuard (state : ProviderState) (origin : Option Nat) (projectionRevision : Nat) :
    ProviderState × Nat × Bool :=
  if origin.any fun token => state.active ≠ token then (state, projectionRevision, false)
  else
    match if origin.isSome then some state.revision else checkedAdd state.revision with
    | none => (state, projectionRevision, false)
    | some revision =>
      match checkedAdd state.changes with
      | none => ({ state with revision := revision }, projectionRevision, false)
      | some changes =>
        match checkedAdd projectionRevision with
        | none => ({ state with revision := revision, changes := changes }, projectionRevision, false)
        | some next => ({ state with revision := revision, changes := changes }, next, true)

/-- The body of `start`, under the mutex. -/
def startSync (state : ProviderState) : ProviderState :=
  if state.active ≠ 0 then state
  else
    let sequence := (state.sequence + 1) % 2 ^ 64
    match checkedAdd state.sequence with
    | none => { state with sequence := sequence }
    | some token => { state with sequence := sequence, active := token }

/-- `invalidate_scope`: the epoch of the owner, and that of the local scope. -/
def invalidateScope (epochs : Hash Int Nat) (owner : Int) : Hash Int Nat :=
  match checkedAdd (Hash.value epochs owner 0) with
  | none => epochs
  | some epoch =>
    let epochs := epochs.insert owner epoch
    if owner = 0 then epochs
    else
      match checkedAdd (Hash.value epochs 0 0) with
      | none => epochs
      | some epoch => epochs.insert 0 epoch

/-- The providers of the items, each once. -/
def itemProviders (db : Database) (ids : List Int) : List Int :=
  ((db.items.entries.filter fun row => decide (row.1 ∈ ids)).map fun row => row.2.providerId).dedup

/-- `sort_unstable`, `insert(0, 0)` and `dedup`. -/
def lockOrder (providers : List Int) : List Int :=
  (0 :: providers.insertionSort (· ≤ ·)).destutter (· ≠ ·)

/-- The items that mixes are a cache of. -/
def mixRemotes (db : Database) (ids : List Int) : List Int :=
  (db.mixes.entries.filter fun row => decide (row.1 ∈ ids)).filterMap fun row => row.2.remoteId

inductive Call where
  | readSnapshot
  | readRevision (provider : Int)
  | write (provider : Int) (origin : Option Nat)
  | writeItems (ids : List Int)
  | writeMixes (ids items : List Int)
  | start (provider : Int)
  | retainItems (provider : Int)
  | finalize (provider : Int) (token : Nat)

/-- What a writer does once it shares the projection. -/
inductive Entry where
  | provider (provider : Int) (origin : Option Nat)
  | items (ids : List Int)

/-- How far a task has come. -/
inductive Stage where
  | called (call : Call)
  /-- `write_mixes` has read its mixes. -/
  | affected (ids : List Int)
  /-- The projection is asked for, to share it. -/
  | entering (entry : Entry)
  /-- Guards are given for `done`, and to be taken for `rest`. -/
  | looping (done rest : List Int) (origin : Option Nat)
  /-- The mutex of `next` is asked for. -/
  | asking (done : List Int) (next : Int) (rest : List Int) (origin : Option Nat)
  /-- The guards are with the caller. -/
  | guarded (providers : List Int)
  /-- The projection is asked for, to have it alone. -/
  | opening
  | loading (revision : Nat)
  | reading (revision : Nat) (epochs : Hash Int Nat)
  /-- The mutex is asked for by `start`, `retain_items` or `read_revision`. -/
  | waiting (starts : Bool) (provider : Int)
  | inside (starts : Bool) (provider : Int)

/-- What a reader sees of the projection under a snapshot. -/
structure Observation where
  instanceName : String
  revision : Nat
  epochs : Hash Int Nat
  database : Database

structure World where
  locks : LockId → Lock Nat
  providers : Int → ProviderState
  projectionRevision : Nat
  instanceName : String
  epochs : Hash Int Nat
  database : Database
  tasks : Hash Nat Stage
  /-- What was read under snapshots so far. -/
  observations : List Observation

def World.initial (instanceName : String) (database : Database) : World :=
  ⟨fun _ => .free, fun _ => ⟨0, 0, 0, 0⟩, 1, instanceName, ∅, database, ∅, []⟩

/-- The task goes on. -/
def World.move (w : World) (k : Nat) (stage : Stage) : World := { w with tasks := w.tasks.insert k stage }

/-- The task goes on, with a request for a lock. -/
def World.ask (w : World) (k : Nat) (stage : Stage) (l : LockId) (mode : Mode) : World :=
  { w.move k stage with locks := Function.update w.locks l ((w.locks l).request k mode) }

/-- The task ends. -/
def World.leave (w : World) (k : Nat) : World :=
  { w with locks := fun l => (w.locks l).leave k, tasks := w.tasks.erase k }

def World.setProvider (w : World) (provider : Int) (state : ProviderState) : World :=
  { w with providers := Function.update w.providers provider state }

inductive Label where
  | call (k : Nat) (call : Call)
  | advance (k : Nat)
  /-- The operation returns an error, its guards are dropped, or its future is. -/
  | drop (k : Nat)
  /-- A statement of a caller that has its guards. -/
  | modify (k : Nat) (database : Database)
  | invalidate (k : Nat) (provider : Int)
  /-- `cancel`, `invalidate_sync` and the end of a `SyncRun`. -/
  | setActive (provider : Int) (active : Nat)
  | observe (k : Nat)

/-- The first step of a call. -/
def begin (w : World) (k : Nat) : Call → World
  | .readSnapshot => w.ask k .opening projection .exclusive
  | .readRevision provider => w.ask k (.waiting false provider) (writes provider) .exclusive
  | .write provider origin => w.ask k (.entering (.provider provider origin)) projection .shared
  | .writeItems ids => w.ask k (.entering (.items ids)) projection .shared
  | .writeMixes ids items => w.move k (.affected (items ++ mixRemotes w.database ids))
  | .start provider => w.ask k (.waiting true provider) (writes provider) .exclusive
  | .retainItems provider => w.ask k (.waiting false provider) (writes provider) .exclusive
  | .finalize provider token => w.ask k (.entering (.provider provider (some token))) projection .shared

/-- The next step of a task, if it does not wait. -/
def advance (w : World) (k : Nat) : Stage → Option World
  | .called call => some (begin w k call)
  | .affected ids => some (w.ask k (.entering (.items ids)) projection .shared)
  | .entering (.provider provider origin) =>
    if Granted (w.locks projection) k .shared then some (w.move k (.looping [] [provider] origin)) else none
  | .entering (.items ids) =>
    if Granted (w.locks projection) k .shared then
      some (w.move k (.looping [] (lockOrder (itemProviders w.database ids)) none))
    else none
  | .looping done [] _ => some (w.move k (.guarded done))
  | .looping done (next :: rest) origin =>
    some (w.ask k (.asking done next rest origin) (writes next) .exclusive)
  | .asking done next rest origin =>
    if Granted (w.locks (writes next)) k .exclusive then
      let (state, revision, given) := writeGuard (w.providers next) origin w.projectionRevision
      let w := { w.setProvider next state with projectionRevision := revision }
      some (if given then w.move k (.looping (done ++ [next]) rest origin) else w.leave k)
    else none
  | .guarded _ => some (w.leave k)
  | .opening =>
    if Granted (w.locks projection) k .exclusive then some (w.move k (.loading w.projectionRevision)) else none
  | .loading revision => some (w.move k (.reading revision w.epochs))
  | .reading _ _ => some (w.leave k)
  | .waiting starts provider =>
    if Granted (w.locks (writes provider)) k .exclusive then some (w.move k (.inside starts provider)) else none
  | .inside starts provider =>
    let w := if starts then w.setProvider provider (startSync (w.providers provider)) else w
    some (w.leave k)

def step (w : World) : Label → Option World
  | .call k call => if k ∈ w.tasks then none else some (w.move k (.called call))
  | .advance k => (w.tasks.lookup k).bind (advance w k)
  | .drop k => if k ∈ w.tasks then some (w.leave k) else none
  | .modify k database =>
    match w.tasks.lookup k with
    | some (.guarded _) => some { w with database := database }
    | _ => none
  | .invalidate k provider =>
    match w.tasks.lookup k with
    | some (.guarded providers) =>
      if provider ∈ providers then some { w with epochs := invalidateScope w.epochs provider } else none
    | _ => none
  | .setActive provider active =>
    some (w.setProvider provider { w.providers provider with active := active })
  | .observe k =>
    match w.tasks.lookup k with
    | some (.reading revision epochs) =>
      some { w with observations :=
        w.observations ++ [⟨w.instanceName, revision, epochs, w.database⟩] }
    | _ => none

/-- The providers a task has guards of. -/
def Stage.guards : Stage → List Int
  | .looping done _ _ | .asking done _ _ _ | .guarded done => done
  | _ => []

/-- The lock a task has asked for and not gone on with. -/
def Stage.asks : Stage → Option (LockId × Mode)
  | .entering _ => some (projection, .shared)
  | .asking _ next _ _ => some (writes next, .exclusive)
  | .opening => some (projection, .exclusive)
  | .waiting _ provider => some (writes provider, .exclusive)
  | _ => none

/-- The locks a task goes on with. -/
def Stage.has : Stage → List (LockId × Mode)
  | .looping done _ _ | .asking done _ _ _ | .guarded done =>
    (projection, .shared) :: done.map fun provider => (writes provider, .exclusive)
  | .loading _ | .reading _ _ => [(projection, .exclusive)]
  | .inside _ provider => [(writes provider, .exclusive)]
  | _ => []

end Qcm.SyncLocks
