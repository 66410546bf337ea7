import Mathlib

/-!
The task manager (`task.rs`).

`spawn` starts the task on the runtime and sends its `Add` afterwards; the task
sends its `End` from the runtime when its future is over.  Both go through one
unbounded channel to the thread that runs `process`.  Each of these happens as a
step of its own, so that a run is any interleaving of the calls, the tasks and
the thread.
-/

namespace Qcm.TaskManager

/-- The sender a `wait` call hands over; the calls are numbered. -/
abbrev Waiter := Nat

structure Task where
  id : Int64
  /-- The number of the task on the runtime. -/
  handle : Nat
  /-- Whether the sender for the cancellation is still there. -/
  sender : Bool
  waiters : List Waiter
deriving DecidableEq, Repr

inductive TaskManagerEvent where
  | add (task : Task)
  | progress
  | cancel (id : Int64)
  | ended (id : Int64)
  | stop
  | wait (id : Int64) (tx : Waiter)
deriving DecidableEq, Repr

/-- How far a task on the runtime has come. -/
inductive Phase where
  | running
  /-- The `select!` is over and the `End` not yet sent. -/
  | completed
  | ended
  /-- The future panicked: nothing is sent. -/
  | panicked
deriving DecidableEq, Repr

/-- A task on the runtime, and whether the call that spawned it has sent its `Add`. -/
structure Spawned where
  id : Int64
  added : Bool
  phase : Phase
deriving DecidableEq, Repr

structure World where
  /-- The counter of `gen_id`. -/
  nextId : Int64
  channel : List TaskManagerEvent
  tasks : List Task
  /-- The loop is left: the receiver and the table are gone. -/
  stopped : Bool
  spawned : List Spawned
  /-- The tasks whose cancellation receiver has been resolved. -/
  cancelled : List Nat
  /-- The calls of `wait`, in their order. -/
  asked : List (Int64 × Waiter)
  /-- The waiters whose `rx.await` is over. -/
  notified : List Waiter
deriving DecidableEq, Repr

/-- `TaskManager::new` -/
def World.new : World :=
  { nextId := 0, channel := [], tasks := [], stopped := false, spawned := [], cancelled := [],
    asked := [], notified := [] }

def find (s : World) (id : Int64) : Option Task :=
  s.tasks.find? fun task => task.id = id

/-- A change of the entry `get_mut` returns. -/
def update (s : World) (id : Int64) (change : Task → Task) : World :=
  { s with tasks := s.tasks.map fun task => if task.id = id then change task else task }

def notify (s : World) (waiters : List Waiter) : World :=
  { s with notified := s.notified ++ waiters }

/-- The senders of a dropped task are dropped with it. -/
def dropTask (s : World) (task : Task) : World :=
  { notify s task.waiters with cancelled := task.handle :: s.cancelled }

def dropTasks (s : World) (tasks : List Task) : World :=
  tasks.foldl dropTask s

/-- `HashMap::remove`; also what `insert` does to an earlier entry. -/
def remove (s : World) (id : Int64) : World :=
  { dropTasks s (s.tasks.filter fun task => task.id = id) with
    tasks := s.tasks.filter fun task => task.id ≠ id }

def dropEvent (s : World) : TaskManagerEvent → World
  | .add task => dropTask s task
  | .wait _ tx => notify s [tx]
  | _ => s

/-- `sender.send`, which gives the event back once the receiver is gone. -/
def send (s : World) (event : TaskManagerEvent) : World :=
  if s.stopped then dropEvent s event else { s with channel := s.channel ++ [event] }

/-- The end of `process`: what is in the table and in the channel is dropped. -/
def leave (s : World) : World :=
  let dropped := s.channel.foldl dropEvent (dropTasks s s.tasks)
  { dropped with channel := [], tasks := [], stopped := true }

/-- The body of the loop of `process`. -/
def handle (s : World) : TaskManagerEvent → World
  | .add task =>
    let s := remove s task.id
    { s with tasks := task :: s.tasks }
  | .cancel id =>
    match find s id with
    | some task =>
      if task.sender then
        { update s id (fun task => { task with sender := false }) with
          cancelled := task.handle :: s.cancelled }
      else s
    | none => s
  -- the waiters are told just before their senders would go with the entry
  | .ended id => remove s id
  | .wait id tx =>
    match find s id with
    | some _ => update s id fun task => { task with waiters := task.waiters ++ [tx] }
    | none => notify s [tx]
  | .progress => s
  | .stop => leave s

inductive Action where
  /-- `spawn` up to the start of the task on the runtime. -/
  | spawn
  /-- The `add` that `spawn` ends with. -/
  | add (handle : Nat)
  /-- The future of the task returns. -/
  | complete (handle : Nat)
  /-- The task is cancelled: the other branch of its `select!`. -/
  | interrupt (handle : Nat)
  | panic (handle : Nat)
  /-- The task sends its `End`. -/
  | finish (handle : Nat)
  | wait (id : Int64)
  | cancel (id : Int64)
  | stop
  /-- The thread takes the next event. -/
  | process
deriving DecidableEq, Repr

/-- The task goes from one phase to another. -/
def advance (s : World) (handle : Nat) (before after : Phase) : Option World := do
  let task ← s.spawned[handle]?
  if task.phase = before then
    some { s with spawned := s.spawned.set handle { task with phase := after } }
  else none

def step (s : World) : Action → Option World
  | .spawn =>
    some { s with
      nextId := s.nextId + 1
      spawned := s.spawned ++ [{ id := s.nextId, added := false, phase := .running }] }
  | .add handle => do
    let task ← s.spawned[handle]?
    if task.added then none
    else
      let s := { s with spawned := s.spawned.set handle { task with added := true } }
      some (send s (.add { id := task.id, handle, sender := true, waiters := [] }))
  | .complete handle => advance s handle .running .completed
  | .interrupt handle => if handle ∈ s.cancelled then advance s handle .running .completed else none
  | .panic handle => advance s handle .running .panicked
  | .finish handle => do
    let task ← s.spawned[handle]?
    let s ← advance s handle .completed .ended
    some (send s (.ended task.id))
  | .wait id =>
    let tx := s.asked.length
    some (send { s with asked := s.asked ++ [(id, tx)] } (.wait id tx))
  | .cancel id => some (send s (.cancel id))
  | .stop => some (send s .stop)
  | .process =>
    match s.channel with
    | [] => none
    | event :: rest => some (handle { s with channel := rest } event)

/-- An event that reports on the task itself. -/
def TaskManagerEvent.of (id : Int64) : TaskManagerEvent → Bool
  | .add task => task.id = id
  | .ended other => other = id
  | _ => false

/-- The call that spawned the task has returned, the task is over and every
event it led to has been processed. -/
def Done (s : World) (task : Spawned) : Prop :=
  task ∈ s.spawned ∧ task.added = true ∧ (task.phase = .ended ∨ task.phase = .panicked) ∧
    ∀ event ∈ s.channel, event.of task.id = false

instance (s : World) (task : Spawned) : Decidable (Done s task) :=
  inferInstanceAs (Decidable (_ ∧ _ ∧ _ ∧ ∀ event ∈ s.channel, _))

/-- No entry is left of a task that is done, and whoever waits for it is told,
or will be when the thread comes to the call. -/
def Settled (s : World) : Prop :=
  ∀ task, Done s task → (∀ entry ∈ s.tasks, entry.id ≠ task.id) ∧
    ∀ tx, (task.id, tx) ∈ s.asked → tx ∈ s.notified ∨ .wait task.id tx ∈ s.channel

end Qcm.TaskManager
