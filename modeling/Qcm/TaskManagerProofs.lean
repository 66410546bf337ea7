import Qcm.TaskManager
import Qcm.Lib.Runs

/-!
What the task manager keeps track of, in every interleaving of the calls, the
tasks and its thread.

No waiter is ever lost: each is told, held by an entry, or on its way
(`asked_waiters_are_tracked`).  Entries are another matter.  `spawn` sends the
`Add` of a task that is already running, and an entry goes away only with an
`End` that comes after it, so what is needed is that the channel closes each
`Add` by an `End` behind it.
-/

namespace Qcm.TaskManagerProofs

open TaskManager Lib.Runs

variable {s t : World} {id : Int64}

/-- The states of the runs whose steps all meet the guard. -/
abbrev Reached (guard : World → Action → Prop) : World → Prop :=
  Reach (· = World.new) guard fun s a t => step s a = some t

private theorem dropTasks_eq (tasks : List Task) :
    dropTasks s tasks = { s with
      cancelled := (tasks.map Task.handle).reverse ++ s.cancelled
      notified := s.notified ++ tasks.flatMap Task.waiters } := by
  induction tasks generalizing s with
  | nil => simp [dropTasks]
  | cons task rest ih =>
    rw [dropTasks, List.foldl_cons, ← dropTasks, ih]
    simp [dropTask, notify]

private theorem remove_eq : remove s id = { s with
    tasks := s.tasks.filter fun task => task.id ≠ id
    cancelled := ((s.tasks.filter fun task => task.id = id).map Task.handle).reverse ++ s.cancelled
    notified := s.notified ++ (s.tasks.filter fun task => task.id = id).flatMap Task.waiters } := by
  rw [remove, dropTasks_eq]

/-- The waiters an event carries. -/
private def carried : TaskManagerEvent → List Waiter
  | .add task => task.waiters
  | .wait _ tx => [tx]
  | _ => []

private theorem dropEvent_eq (event : TaskManagerEvent) :
    ∃ cancelled, dropEvent s event =
      { s with cancelled := cancelled, notified := s.notified ++ carried event } := by
  cases event with
  | add task => exact ⟨_, rfl⟩
  | wait other tx => exact ⟨s.cancelled, rfl⟩
  | _ => exact ⟨s.cancelled, by simp [dropEvent, carried]⟩

private theorem dropEvents_eq (events : List TaskManagerEvent) :
    ∃ cancelled, events.foldl dropEvent s =
      { s with cancelled := cancelled, notified := s.notified ++ events.flatMap carried } := by
  induction events generalizing s with
  | nil => exact ⟨s.cancelled, by simp⟩
  | cons event rest ih =>
    obtain ⟨cancelled, first⟩ := dropEvent_eq (s := s) event
    obtain ⟨more, others⟩ := ih (s := dropEvent s event)
    refine ⟨more, ?_⟩
    rw [List.foldl_cons, others, first]
    simp

private theorem leave_eq : ∃ cancelled, leave s = { s with
    channel := [], tasks := [], stopped := true, cancelled := cancelled
    notified := s.notified ++ s.tasks.flatMap Task.waiters ++ s.channel.flatMap carried } := by
  obtain ⟨cancelled, dropped⟩ := dropEvents_eq (s := dropTasks s s.tasks) s.channel
  exact ⟨cancelled, by rw [leave, dropped, dropTasks_eq]⟩

/-- The change `get_mut` allows leaves the ids and the calls already there. -/
private structure Grows (change : Task → Task) : Prop where
  id : ∀ task, (change task).id = task.id
  waiters : ∀ task, task.waiters ⊆ (change task).waiters

variable {change : Task → Task} {event : TaskManagerEvent} {tx : Waiter} {other : Int64}
variable {rest : List TaskManagerEvent} {spawned : List Spawned} {a : Action} {task : Spawned}

private theorem Grows.sameWaiters (id : ∀ task, (change task).id = task.id)
    (waiters : ∀ task, (change task).waiters = task.waiters) : Grows change :=
  ⟨id, fun task => by rw [waiters]; exact List.Subset.refl _⟩

private theorem pushed_grows (tx : Waiter) :
    Grows fun task => { task with waiters := task.waiters ++ [tx] } :=
  ⟨fun _ => rfl, fun _ => List.subset_append_left _ _⟩

private theorem update_self : update s id (fun task => task) = s := by simp [update]

/-- What the thread does with an event. -/
private inductive Handled (s : World) : TaskManagerEvent → World → Prop where
  | add (task : Task) :
      Handled s (.add task) { remove s task.id with tasks := task :: (remove s task.id).tasks }
  | ended (id : Int64) : Handled s (.ended id) (remove s id)
  | wait (id : Int64) (tx : Waiter) {entry : Task} (member : entry ∈ s.tasks) (same : entry.id = id) :
      Handled s (.wait id tx) (update s id fun task => { task with waiters := task.waiters ++ [tx] })
  | unknown (id : Int64) (tx : Waiter) : Handled s (.wait id tx) (notify s [tx])
  | stop : Handled s .stop (leave s)
  /-- A cancellation, or nothing. -/
  | other {event : TaskManagerEvent} (id : Int64) {change : Task → Task} (cancelled : List Nat)
      (grows : Grows change) (silent : ∀ id, event.of id = false) (empty : carried event = []) :
      Handled s event { update s id change with cancelled := cancelled }

private theorem handled (event : TaskManagerEvent) : Handled s event (handle s event) := by
  have still (quiet : ∀ id, event.of id = false) (empty : carried event = []) : Handled s event s := by
    have same := Handled.other (s := s) 0 s.cancelled (.sameWaiters (fun _ => rfl) fun _ => rfl) quiet empty
    rwa [update_self] at same
  cases event with
  | add task => exact .add task
  | progress => exact still (fun _ => rfl) rfl
  | cancel id =>
    simp only [handle]
    split
    · split
      · exact .other id _ (.sameWaiters (fun _ => rfl) fun _ => rfl) (fun _ => rfl) rfl
      · exact still (fun _ => rfl) rfl
    · exact still (fun _ => rfl) rfl
  | ended id => exact .ended id
  | stop => exact .stop
  | wait id tx =>
    simp only [handle]
    split
    · rename_i entry found
      exact .wait id tx (List.mem_of_find?_eq_some found) (by simpa using List.find?_some found)
    · exact .unknown id tx

private theorem Handled.frame (ran : Handled s event t) :
    t.spawned = s.spawned ∧ t.asked = s.asked ∧ t.nextId = s.nextId := by
  cases ran with
  | stop =>
    obtain ⟨cancelled, left⟩ := leave_eq (s := s)
    simp [left]
  | _ => simp [remove_eq, update, notify]

/-! ## Waiters -/

/-- A waiter is told, on its way to the thread, or held by the entry of its task. -/
def Heard (s : World) (id : Int64) (tx : Waiter) : Prop :=
  tx ∈ s.notified ∨ .wait id tx ∈ s.channel ∨ ∃ entry ∈ s.tasks, entry.id = id ∧ tx ∈ entry.waiters

/-- Nothing is left once the loop is left. -/
def Gone (s : World) : Prop := s.stopped = true → s.tasks = [] ∧ s.channel = []

private theorem send_heard (before : Heard s id tx ∨ event = .wait id tx) (gone : Gone s) : Heard (send s event) id tx := by
  by_cases stopped : s.stopped = true
  · obtain ⟨cancelled, dropped⟩ := dropEvent_eq (s := s) event
    obtain ⟨noTasks, noEvents⟩ := gone stopped
    rw [send, if_pos stopped, dropped]
    rcases before with (told | waiting | ⟨entry, member, -⟩) | rfl
    · exact .inl (by simp [told])
    · simp [noEvents] at waiting
    · simp [noTasks] at member
    · exact .inl (by simp [carried])
  · rw [send, if_neg stopped]
    rcases before with (told | waiting | held) | rfl
    · exact .inl told
    · exact .inr (.inl (by simp [waiting]))
    · exact .inr (.inr held)
    · exact .inr (.inl (by simp))

private theorem send_gone (gone : Gone s) : Gone (send s event) := by
  by_cases stopped : s.stopped = true
  · obtain ⟨cancelled, dropped⟩ := dropEvent_eq (s := s) event
    rw [send, if_pos stopped, dropped]
    exact gone
  · rw [send, if_neg stopped]
    intro other
    exact absurd other stopped

private theorem update_heard (grows : Grows change) (heard : Heard s id tx) : Heard (update s other change) id tx := by
  rcases heard with told | sent | ⟨entry, member, same, held⟩
  · exact .inl told
  · exact .inr (.inl sent)
  · refine .inr (.inr ⟨_, List.mem_map_of_mem member, ?_⟩)
    split
    · exact ⟨(grows.id entry).trans same, grows.waiters entry held⟩
    · exact ⟨same, held⟩

private theorem remove_heard (heard : Heard s id tx) : Heard (remove s other) id tx := by
  rw [remove_eq]
  rcases heard with told | sent | ⟨entry, member, same, held⟩
  · exact .inl (by simp [told])
  · exact .inr (.inl sent)
  · by_cases removed : entry.id = other
    · refine .inl (List.mem_append_right _ (List.mem_flatMap.mpr ⟨entry, ?_, held⟩))
      simp [member, removed]
    · exact .inr (.inr ⟨entry, by simp [member, removed], same, held⟩)

private theorem leave_heard (heard : Heard s id tx) : tx ∈ (leave s).notified := by
  obtain ⟨cancelled, left⟩ := leave_eq (s := s)
  rw [left]
  rcases heard with told | sent | ⟨entry, member, same, held⟩
  · simp [told]
  · exact List.mem_append_right _ (List.mem_flatMap.mpr ⟨_, sent, by simp [carried]⟩)
  · exact List.mem_append_left _ (List.mem_append_right _ (List.mem_flatMap.mpr ⟨entry, member, held⟩))

/-- Whatever event the thread takes, a waiter stays heard. -/
private theorem Handled.heard (channel : s.channel = event :: rest) (ran : Handled { s with channel := rest } event t)
    (heard : Heard s id tx) : Heard t id tx := by
  -- either it is this waiter's call, or the waiter is heard without the event
  have apart : event = .wait id tx ∨ Heard { s with channel := rest } id tx := by
    rcases heard with told | sent | held
    · exact .inr (.inl told)
    · rw [channel] at sent
      rcases List.mem_cons.mp sent with own | later
      · exact .inl own.symm
      · exact .inr (.inr (.inl later))
    · exact .inr (.inr (.inr held))
  rcases apart with own | heard
  · cases own
    cases ran with
    | wait _ _ member same =>
      refine .inr (.inr ⟨_, List.mem_map_of_mem member, ?_⟩)
      simp [same]
    | unknown => exact .inl (by simp [notify])
    | other _ _ _ _ empty => cases empty
  · cases ran with
    | add task =>
      have kept : Heard (remove { s with channel := rest } task.id) id tx := remove_heard heard
      rcases kept with told | sent | ⟨entry, member, same, held⟩
      · exact .inl told
      · exact .inr (.inl sent)
      · exact .inr (.inr ⟨entry, .tail _ member, same, held⟩)
    | ended other => exact remove_heard heard
    | wait other own => exact update_heard (pushed_grows own) heard
    | unknown =>
      rcases heard with told | sent | held
      · exact .inl (List.mem_append_left _ told)
      · exact .inr (.inl sent)
      · exact .inr (.inr held)
    | stop => exact .inl (leave_heard heard)
    | other _ cancelled grows => exact update_heard (s := { s with channel := rest }) grows heard

private theorem Handled.gone (ran : Handled s event t) (running : s.stopped = false) : Gone t := by
  cases ran with
  | stop =>
    obtain ⟨cancelled, left⟩ := leave_eq (s := s)
    simp [left, Gone]
  | _ => simp [remove_eq, update, notify, Gone, running]

/-- No waiter is lost, and nothing is left behind a stop. -/
structure Tracked (s : World) : Prop where
  heard : ∀ id tx, (id, tx) ∈ s.asked → Heard s id tx
  gone : Gone s

private theorem advance_eq {handle : Nat} {before after : Phase}
    (ran : advance s handle before after = some t) :
    ∃ task, s.spawned[handle]? = some task ∧ task.phase = before ∧
      t = { s with spawned := s.spawned.set handle { task with phase := after } } := by
  simp only [advance, Option.bind_eq_bind, Option.bind_eq_some_iff] at ran
  obtain ⟨task, found, ran⟩ := ran
  split at ran
  · rename_i same
    exact ⟨task, found, same, by simpa using ran.symm⟩
  · cases ran

private theorem send_frame (event : TaskManagerEvent) :
    (send s event).spawned = s.spawned ∧ (send s event).asked = s.asked ∧
      (send s event).stopped = s.stopped ∧ (send s event).tasks = s.tasks := by
  by_cases stopped : s.stopped = true
  · obtain ⟨cancelled, dropped⟩ := dropEvent_eq (s := s) event
    rw [send, if_pos stopped, dropped]
    simp
  · rw [send, if_neg stopped]
    simp

private theorem Tracked.send (tracked : Tracked s) : Tracked (send s event) where
  heard other tx member := by
    rw [(send_frame event).2.1] at member
    exact send_heard (.inl (tracked.heard other tx member)) tracked.gone
  gone := send_gone tracked.gone

private theorem Tracked.runtime {nextId : Int64} (tracked : Tracked s) : Tracked { s with spawned := spawned, nextId := nextId } :=
  ⟨tracked.heard, tracked.gone⟩

private theorem tracked_step (tracked : Tracked s) (ran : step s a = some t) : Tracked t := by
  cases a with
  | spawn =>
    cases ran
    exact tracked.runtime
  | add handle =>
    simp only [step, Option.bind_eq_bind, Option.bind_eq_some_iff] at ran
    obtain ⟨task, found, ran⟩ := ran
    split at ran <;> cases ran
    exact Tracked.send tracked.runtime
  | complete handle =>
    obtain ⟨task, found, same, rfl⟩ := advance_eq ran
    exact tracked.runtime
  | interrupt handle =>
    simp only [step] at ran
    split at ran
    · obtain ⟨task, found, same, rfl⟩ := advance_eq ran
      exact tracked.runtime
    · cases ran
  | panic handle =>
    obtain ⟨task, found, same, rfl⟩ := advance_eq ran
    exact tracked.runtime
  | finish handle =>
    simp only [step, Option.bind_eq_bind, Option.bind_eq_some_iff] at ran
    obtain ⟨task, found, u, advanced, ran⟩ := ran
    obtain ⟨_, _, _, rfl⟩ := advance_eq advanced
    cases ran
    exact Tracked.send tracked.runtime
  | wait id =>
    cases ran
    refine ⟨fun other tx member => ?_, send_gone tracked.gone⟩
    rw [(send_frame _).2.1] at member
    rcases List.mem_append.mp member with earlier | own
    · exact send_heard (.inl (tracked.heard other tx earlier)) tracked.gone
    · obtain ⟨rfl, rfl⟩ : other = id ∧ tx = s.asked.length := by simpa using own
      exact send_heard (.inr rfl) tracked.gone
  | cancel id | stop =>
    cases ran
    exact tracked.send
  | process =>
    simp only [step] at ran
    split at ran <;> cases ran
    rename_i event rest channel
    have ran := handled (s := { s with channel := rest }) event
    refine ⟨fun other tx member => ?_, ran.gone ?_⟩
    · rw [ran.frame.2.1] at member
      exact ran.heard channel (tracked.heard other tx member)
    · by_contra stopped
      have none := (tracked.gone (by simpa using stopped)).2
      simp [channel] at none

/-- In every run, each waiter has been told, is held by the entry of its task,
or its call is in the channel. -/
theorem asked_waiters_are_tracked (reached : Reached (fun _ _ => True) s) : Tracked s := by
  refine reached.invariant ?_ fun s a t tracked _ ran => tracked_step tracked ran
  rintro s rfl
  exact ⟨fun _ _ member => by simp [World.new] at member, fun stopped => by simp [World.new] at stopped⟩

theorem waiter_of_new_task_is_tracked : ∃ s, Tracked s ∧ (0, 0) ∈ s.asked := by
  have run : ∃ s, play (fun _ (_ : Action) => True) step .new [.spawn, .add 0, .wait 0] = some s ∧ (0, 0) ∈ s.asked :=
    ⟨_, rfl, by decide⟩
  obtain ⟨s, played, asked⟩ := run
  exact ⟨s, asked_waiters_are_tracked (Reach.play _ (.start rfl) played), asked⟩

/-! ## Entries -/

/-- Each `Add` of the task in the channel has its `End` behind it. -/
def Closing (id : Int64) : List TaskManagerEvent → Prop
  | [] => True
  | event :: rest => (∀ task, event = .add task → task.id = id → .ended id ∈ rest) ∧ Closing id rest

/-- What is known of a task in the table or the channel is going to end. -/
structure Closed (s : World) (id : Int64) : Prop where
  entries : ∀ entry ∈ s.tasks, entry.id = id → .ended id ∈ s.channel
  channel : Closing id s.channel

private theorem closing_snoc {channel : List TaskManagerEvent}
    (closing : Closing id channel) (other : ∀ task, event = .add task → task.id ≠ id) :
    Closing id (channel ++ [event]) := by
  induction channel with
  | nil => exact ⟨fun task own same => absurd same (other task own), trivial⟩
  | cons head rest ih =>
    exact ⟨fun task own same => by simp [closing.1 task own same], ih closing.2⟩

/-- An `End` closes everything before it. -/
private theorem closing_ended (channel : List TaskManagerEvent) : Closing id (channel ++ [.ended id]) := by
  induction channel with
  | nil => exact ⟨fun _ own => by simp at own, trivial⟩
  | cons head rest ih => exact ⟨fun _ _ _ => by simp, ih⟩

private theorem Closed.send (closed : Closed s id) (running : s.stopped = false)
    (other : ∀ task, event = .add task → task.id ≠ id) : Closed (send s event) id := by
  rw [TaskManager.send, if_neg (by simp [running])]
  refine ⟨fun entry member same => ?_, closing_snoc closed.channel other⟩
  exact List.mem_append_left _ (closed.entries entry member same)

private theorem closed_send_ended (running : s.stopped = false) : Closed (send s (.ended id)) id := by
  rw [send, if_neg (by simp [running])]
  exact ⟨fun _ _ _ => by simp, closing_ended s.channel⟩

private theorem Handled.closed (channel : s.channel = event :: rest) (ran : Handled { s with channel := rest } event t)
    (closed : Closed s id) : Closed t id := by
  obtain ⟨entries, closing⟩ := closed
  rw [channel] at entries closing
  cases ran with
  | add task =>
    refine ⟨fun entry member same => ?_, by simpa [remove_eq] using closing.2⟩
    rcases List.mem_cons.mp member with rfl | old
    · simpa [remove_eq] using closing.1 entry rfl same
    · have old : entry ∈ s.tasks := by simp [remove_eq] at old; exact old.1
      simpa [remove_eq] using entries entry old same
  | ended other =>
    refine ⟨fun entry member same => ?_, by simpa [remove_eq] using closing.2⟩
    obtain ⟨old, apart⟩ : entry ∈ s.tasks ∧ ¬ entry.id = other := by simpa [remove_eq] using member
    have later := entries entry old same
    rw [same] at apart
    simpa [remove_eq, apart] using later
  | wait other tx =>
    refine ⟨fun entry member same => ?_, closing.2⟩
    obtain ⟨old, origin, rfl⟩ := List.mem_map.mp member
    have later := entries old origin (by split at same <;> exact same)
    simpa [update] using later
  | unknown other tx =>
    refine ⟨fun entry member same => ?_, closing.2⟩
    simpa [notify] using entries entry member same
  | stop =>
    obtain ⟨cancelled, left⟩ := leave_eq (s := { s with channel := rest })
    rw [left]
    exact ⟨fun _ member => by simp at member, trivial⟩
  | other _ cancelled grows silent =>
    refine ⟨fun entry member same => ?_, closing.2⟩
    obtain ⟨old, origin, rfl⟩ := List.mem_map.mp member
    have later := entries old origin (by split at same; exacts [(grows.id old).symm.trans same, same])
    have apart : ¬ .ended id = event := fun own => by simpa [← own, TaskManagerEvent.of] using silent id
    simpa [update, apart] using later

/-- The steps with which the books stay right: a task reports its end after the
call that spawned it has reported the task, no future panics, and no id is given
out twice.  Nothing is asked of the steps after the manager was stopped. -/
def Orderly (s : World) : Action → Prop
  | .spawn => s.stopped = true ∨ ∀ task ∈ s.spawned, task.id ≠ s.nextId
  | .finish handle => s.stopped = true ∨ ∀ task ∈ s.spawned[handle]?, task.added = true
  | .panic _ => s.stopped = true
  | _ => True

instance (s : World) : (a : Action) → Decidable (Orderly s a)
  | .spawn | .finish _ => inferInstanceAs (Decidable (_ ∨ _))
  | .panic _ => inferInstanceAs (Decidable (_ = _))
  | .add _ | .complete _ | .interrupt _ | .wait _ | .cancel _ | .stop | .process => .isTrue trivial

/-- What orderly steps keep until the manager is stopped. -/
structure Ordered (s : World) : Prop where
  distinct : (s.spawned.map Spawned.id).Nodup
  calm : ∀ task ∈ s.spawned, task.phase ≠ .panicked
  ended : ∀ task ∈ s.spawned, task.phase = .ended → task.added = true ∧ Closed s task.id

private theorem ids_set {handle : Nat} {after : Spawned}
    (found : spawned[handle]? = some task) (same : after.id = task.id)
    (distinct : (spawned.map Spawned.id).Nodup) : ((spawned.set handle after).map Spawned.id).Nodup := by
  have kept : (spawned.set handle after).map Spawned.id = spawned.map Spawned.id := by
    refine List.ext_getElem? fun place => ?_
    by_cases here : place = handle
    · subst here
      obtain ⟨bound, rfl⟩ := List.getElem?_eq_some_iff.mp found
      simp [bound, same]
    · simp [List.getElem?_set_ne (Ne.symm here)]
  rwa [kept]

private theorem Ordered.advance {handle : Nat} {phase : Phase} (ordered : Ordered s)
    (found : s.spawned[handle]? = some task) (calm : phase ≠ .panicked) (open_ : phase ≠ .ended) :
    Ordered { s with spawned := s.spawned.set handle { task with phase := phase } } := by
  refine ⟨?_, fun other member => ?_, fun other member final => ?_⟩
  · exact ids_set found rfl ordered.distinct
  · rcases List.mem_or_eq_of_mem_set member with old | rfl
    · exact ordered.calm other old
    · exact calm
  · rcases List.mem_or_eq_of_mem_set member with old | rfl
    · obtain ⟨added, closed⟩ := ordered.ended other old final
      exact ⟨added, closed.entries, closed.channel⟩
    · exact absurd final open_

private theorem Ordered.send (ordered : Ordered s) (running : s.stopped = false)
    (quiet : ∀ task, event ≠ .add task) : Ordered (send s event) := by
  have spawned := (send_frame (s := s) event).1
  refine ⟨by rw [spawned]; exact ordered.distinct, by rw [spawned]; exact ordered.calm, ?_⟩
  rw [spawned]
  intro task member final
  obtain ⟨added, closed⟩ := ordered.ended task member final
  exact ⟨added, closed.send running fun other own => absurd own (quiet other)⟩

private theorem ordered_add {handle : Nat} (ordered : Ordered s)
    (running : s.stopped = false) (found : s.spawned[handle]? = some task) (first : ¬ task.added = true) :
    Ordered (send { s with spawned := s.spawned.set handle { task with added := true } }
      (.add { id := task.id, handle, sender := true, waiters := [] })) := by
  have here := List.mem_of_getElem? found
  refine ⟨?_, ?_, ?_⟩ <;> rw [(send_frame _).1]
  · exact ids_set found rfl ordered.distinct
  · intro other member
    rcases List.mem_or_eq_of_mem_set member with old | rfl
    · exact ordered.calm other old
    · exact ordered.calm task here
  · intro other member final
    rcases List.mem_or_eq_of_mem_set member with old | rfl
    · obtain ⟨added, closed⟩ := ordered.ended other old final
      refine ⟨added, Closed.send ⟨closed.entries, closed.channel⟩ running ?_⟩
      rintro _ ⟨⟩ same
      have one : task = other := List.inj_on_of_nodup_map ordered.distinct here old same
      exact first (one ▸ added)
    · exact absurd (ordered.ended task here final).1 first

private theorem ordered_finish {handle : Nat} (ordered : Ordered s)
    (running : s.stopped = false) (found : s.spawned[handle]? = some task) (added : task.added = true) :
    Ordered (send { s with spawned := s.spawned.set handle { task with phase := .ended } }
      (.ended task.id)) := by
  refine ⟨?_, ?_, ?_⟩ <;> rw [(send_frame _).1]
  · exact ids_set found rfl ordered.distinct
  · intro other member
    rcases List.mem_or_eq_of_mem_set member with old | rfl
    · exact ordered.calm other old
    · simp
  · intro other member final
    rcases List.mem_or_eq_of_mem_set member with old | rfl
    · obtain ⟨earlier, closed⟩ := ordered.ended other old final
      exact ⟨earlier, Closed.send ⟨closed.entries, closed.channel⟩ running fun _ own => by simp at own⟩
    · exact ⟨added, closed_send_ended running⟩

private theorem Handled.stopped (ran : Handled s event t) (running : t.stopped = false) : s.stopped = false := by
  cases ran with
  | stop =>
    obtain ⟨cancelled, left⟩ := leave_eq (s := s)
    simp [left] at running
  | _ => simpa [remove_eq, update, notify] using running

private theorem ordered_step (ordered : s.stopped = false → Ordered s) (orderly : Orderly s a)
    (ran : step s a = some t) (running : t.stopped = false) : Ordered t := by
  cases a with
  | spawn =>
    cases ran
    have fresh := orderly.resolve_left (by simpa using running)
    obtain ⟨distinct, calm, ended⟩ := ordered running
    refine ⟨?_, fun task member => ?_, fun task member final => ?_⟩
    · simp only [List.map_append, List.map_cons, List.map_nil]
      refine distinct.append (List.nodup_singleton _) ?_
      simpa using fun task member same => fresh task member same
    · rcases List.mem_append.mp member with old | own
      · exact calm task old
      · simp [List.mem_singleton.mp own]
    · rcases List.mem_append.mp member with old | own
      · obtain ⟨added, closed⟩ := ended task old final
        exact ⟨added, closed.entries, closed.channel⟩
      · simp [List.mem_singleton.mp own] at final
  | add handle =>
    simp only [step, Option.bind_eq_bind, Option.bind_eq_some_iff] at ran
    obtain ⟨task, found, ran⟩ := ran
    split at ran <;> cases ran
    rename_i first
    rw [(send_frame _).2.2.1] at running
    exact ordered_add (ordered running) running found first
  | complete handle =>
    obtain ⟨task, found, same, rfl⟩ := advance_eq ran
    exact (ordered running).advance found (by simp) (by simp)
  | interrupt handle =>
    simp only [step] at ran
    split at ran
    · obtain ⟨task, found, same, rfl⟩ := advance_eq ran
      exact (ordered running).advance found (by simp) (by simp)
    · cases ran
  | panic handle =>
    obtain ⟨task, found, same, rfl⟩ := advance_eq ran
    have stopped : s.stopped = true := orderly
    simp [stopped] at running
  | finish handle =>
    simp only [step, Option.bind_eq_bind, Option.bind_eq_some_iff] at ran
    obtain ⟨task, found, u, advanced, ran⟩ := ran
    obtain ⟨_, again, _, rfl⟩ := advance_eq advanced
    obtain rfl := Option.some.inj (found.symm.trans again)
    cases ran
    rw [(send_frame _).2.2.1] at running
    have added := orderly.resolve_left (by simpa using running) task found
    exact ordered_finish (ordered running) running found added
  | wait id =>
    cases ran
    rw [(send_frame _).2.2.1] at running
    obtain ⟨distinct, calm, ended⟩ := ordered running
    refine Ordered.send ⟨distinct, calm, fun task member final => ?_⟩ running (by simp)
    obtain ⟨added, closed⟩ := ended task member final
    exact ⟨added, closed.entries, closed.channel⟩
  | cancel id | stop =>
    cases ran
    rw [(send_frame _).2.2.1] at running
    exact (ordered running).send running (by simp)
  | process =>
    simp only [step] at ran
    split at ran <;> cases ran
    rename_i event rest channel
    have ran := handled (s := { s with channel := rest }) event
    obtain ⟨distinct, calm, ended⟩ := ordered (ran.stopped running)
    have spawned := ran.frame.1
    refine ⟨by rw [spawned]; exact distinct, by rw [spawned]; exact calm, ?_⟩
    rw [spawned]
    intro task member final
    obtain ⟨added, closed⟩ := ended task member final
    exact ⟨added, ran.closed channel closed⟩

private theorem Closed.entry_gone (closed : Closed s id) (processed : ∀ event ∈ s.channel, event.of id = false) :
    ∀ entry ∈ s.tasks, entry.id ≠ id := by
  intro entry member same
  have waiting := processed _ (closed.entries entry member same)
  simp [TaskManagerEvent.of] at waiting

/-- What is kept along an orderly run. -/
private structure Booked (s : World) : Prop where
  tracked : Tracked s
  ordered : s.stopped = false → Ordered s

private theorem booked_new : Booked .new := by
  refine ⟨⟨fun _ _ member => by simp [World.new] at member, fun stopped => by simp [World.new] at stopped⟩,
    fun _ => ⟨?_, ?_, ?_⟩⟩ <;> simp [World.new]

/-- In every run of orderly steps, a task that is over leaves no entry behind, and
who waits for it is told. -/
theorem orderly_runs_settle (reached : Reached Orderly s) : Settled s := by
  have booked : Booked s := reached.invariant (fun s same => same ▸ booked_new)
    fun s a t before orderly ran =>
      ⟨tracked_step before.tracked ran, ordered_step before.ordered orderly ran⟩
  intro task ⟨member, added, ended, processed⟩
  have gone : ∀ entry ∈ s.tasks, entry.id ≠ task.id := by
    by_cases stopped : s.stopped = true
    · simp [(booked.tracked.gone stopped).1]
    · have ordered := booked.ordered (by simpa using stopped)
      have ended := ended.resolve_right (ordered.calm task member)
      exact (ordered.ended task member ended).2.entry_gone processed
  refine ⟨gone, fun tx asked => ?_⟩
  rcases booked.tracked.heard task.id tx asked with told | sent | ⟨entry, held, same, -⟩
  · exact .inl told
  · exact .inr sent
  · exact absurd same (gone entry held)

theorem waited_task_settles : ∃ s, Settled s ∧ Done s ⟨0, true, .ended⟩ ∧ (0, 0) ∈ s.asked := by
  have run : ∃ s, play Orderly step .new
      [.spawn, .add 0, .wait 0, .complete 0, .finish 0, .process, .process, .process] = some s ∧
      Done s ⟨0, true, .ended⟩ ∧ (0, 0) ∈ s.asked := ⟨_, rfl, by decide, by decide⟩
  obtain ⟨s, played, done⟩ := run
  exact ⟨s, orderly_runs_settle (Reach.play _ (.start rfl) played), done⟩

/-- The task is over before `spawn` comes to its `add`: the `End` finds no entry,
the entry of the `Add` behind it stays, and a waiter it takes is never told. -/
theorem early_end_leaves_entry : ∃ s task,
    Reached (fun _ _ => True) s ∧ Done s task ∧ s.channel = [] ∧
      (∃ entry ∈ s.tasks, entry.id = task.id) ∧ ∃ tx, (task.id, tx) ∈ s.asked ∧ tx ∉ s.notified := by
  have run : ∃ s, play (fun _ (_ : Action) => True) step .new
      [.spawn, .complete 0, .finish 0, .add 0, .wait 0, .process, .process, .process] = some s ∧
      Done s ⟨0, true, .ended⟩ ∧ s.channel = [] ∧ (∃ entry ∈ s.tasks, entry.id = 0) ∧
      (0, 0) ∈ s.asked ∧ 0 ∉ s.notified := ⟨_, rfl, by decide, by decide, by decide, by decide, by decide⟩
  obtain ⟨s, played, done, empty, entry, asked, untold⟩ := run
  exact ⟨s, _, Reach.play _ (.start rfl) played, done, empty, entry, 0, asked, untold⟩

end Qcm.TaskManagerProofs
