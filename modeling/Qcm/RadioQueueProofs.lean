import Qcm.RadioInvariants

/-!
No queue is lost.  Each queue a provider has opened is in the table, in the
hands of a task, or has been closed once with the last state the provider
returned for it.

A task that is dropped takes the queue it has in hand with it, and a `next` that
refuses a batch forgets its state; in runs of careful steps neither happens.
-/

namespace Qcm.RadioQueueProofs

open RadioSessions RadioMoves RadioInvariants Lib.Runs

variable {s t : World} {isUuid : List Char → Bool} {prompt careful : Prop} {number : Nat} {id : SessionId}
  {session : Session}

def pendingOf (s : World) (number : Nat) : List SessionId :=
  ((s.closers[number]?).map Closer.pending).getD []

/-- A task is on its way to put the session into the table or to close its queue. -/
def InCharge (s : World) (id : SessionId) : Prop :=
  (∃ number, runOf s number = .openRetain id ∨ ∃ error, runOf s number = .openRelease id error) ∨
    ∃ number, id ∈ pendingOf s number ∨ stageOf s number = .waiting id

/-- Where the queues the providers have opened have come to. -/
structure Accounted (s : World) : Prop where
  kept : ∀ (id : SessionId) (session : Session), s.objects[id]? = some session →
    id ∈ s.sessions ∨ InCharge s id ∨ session.closes = [session.returned]
  once : ∀ (id : SessionId) (session : Session), s.objects[id]? = some session →
    session.closes = [] ∨ session.closes = [session.returned]
  live : ∀ id ∈ s.sessions, ∃ session, s.objects[id]? = some session ∧ session.closes = []

@[ext]
structure View where
  runs : Nat → Run
  stages : Nat → Release
  pending : Nat → List SessionId
  cells : SessionId → Option Session
  table : List SessionId

def view (s : World) : View :=
  { runs := runOf s, stages := stageOf s, pending := pendingOf s, cells := fun id => s.objects[id]?,
    table := s.sessions }

/-- The future is between the call of `next_queue` and its end. -/
def asking (run : Run) : Option SessionId :=
  match run with
  | .nextCalled request _ _ => some request.session
  | .nextRetain request _ _ => some request.session
  | _ => none

structure Owned (v : View) : Prop where
  /-- An open session is in the table or on its way there or out of it. -/
  unclosed : ∀ id session, v.cells id = some session → session.closed = none →
    id ∈ v.table ∨ (∃ number, v.runs number = .openRetain id) ∨ ∃ number, id ∈ v.pending number
  /-- Who closes a session calls `close_queue`. -/
  byOperation : ∀ id session number, v.cells id = some session → session.closed = some (.operation number) →
    (∃ error, v.runs number = .openRelease id error) ∨ session.closes = [session.returned]
  byCloser : ∀ id session number, v.cells id = some session → session.closed = some (.closer number) →
    v.stages number = .waiting id ∨ session.closes = [session.returned]
  releasing : ∀ number id error, v.runs number = .openRelease id error →
    ∃ session, v.cells id = some session ∧ session.closed = some (.operation number) ∧ session.closes = []
  waiting : ∀ number id, v.stages number = .waiting id →
    ∃ session, v.cells id = some session ∧ session.closed = some (.closer number) ∧ session.closes = []
  closes : ∀ id session, v.cells id = some session →
    session.closes = [] ∨ session.closed ≠ none ∧ session.closes = [session.returned]
  /-- Nothing is asked of a queue that has been closed. -/
  quiet : ∀ number id session, asking (v.runs number) = some id → v.cells id = some session → session.closes = []
  latest : ∀ id session, v.cells id = some session → session.data.batch.state = session.returned ∨
    ∃ number request state batch, v.runs number = .nextRetain request state batch ∧ request.session = id
  returned : ∀ number request state batch session, v.runs number = .nextRetain request state batch →
    v.cells request.session = some session → session.returned = batch.state
  /-- A session is in the table, in the hands of a closing call, or still being opened, and in one only. -/
  listed : ∀ id ∈ v.table, ∃ session, v.cells id = some session ∧ session.closed = none
  leaving : ∀ number, ∀ id ∈ v.pending number, id ∉ v.table ∧ (v.cells id).isSome = true
  coming : ∀ number id, v.runs number = .openRetain id →
    id ∉ v.table ∧ (∀ closer, id ∉ v.pending closer) ∧
      ∃ session, v.cells id = some session ∧ session.opener = number

variable {run : Run} {closer : Closer} {after : Session}

theorem view_setSession (found : s.objects[id]? = some session) (after : Session) :
    view (setSession s id after) = { view s with cells := Function.update (view s).cells id (some after) } := by
  refine View.ext rfl rfl rfl ?_ rfl
  funext other
  simp [view, objects_setSession found, Function.update_apply]

theorem view_setRun (stands : At s number run) (after : Run) :
    view (setRun s number after) = { view s with runs := Function.update (view s).runs number after } :=
  View.ext (runOf_setRun stands after) rfl rfl rfl rfl

theorem view_finish (stands : At s number run) (result : Except RadioError Page) :
    view (finish s number result) = { view s with runs := Function.update (view s).runs number .done } :=
  View.ext (runOf_finish stands result) rfl rfl rfl rfl

theorem pendingOf_setCloser (stands : s.closers[number]? = some closer) (after : Closer) :
    pendingOf (setCloser s number after) = Function.update (pendingOf s) number after.pending := by
  obtain ⟨bound, rfl⟩ := List.getElem?_eq_some_iff.mp stands
  funext other
  by_cases same : other = number
  · subst same
    simp [pendingOf, setCloser, bound]
  · simp [pendingOf, setCloser, same, Ne.symm same]

theorem view_setCloser (stands : s.closers[number]? = some closer) (after : Closer) :
    view (setCloser s number after) = { view s with
      stages := Function.update (view s).stages number after.stage
      pending := Function.update (view s).pending number after.pending } :=
  View.ext rfl (stageOf_setCloser stands after) (pendingOf_setCloser stands after) rfl rfl

/-! ## What keeps the queues owned -/

variable {v : View}
variable {place : Nat} {request : NextRequest} {state : String} {batch : QueueBatch}

@[simp]
theorem update_iff {α : Type} {f : Nat → α} {a b : α} :
    Function.update f number a place = b ↔ place = number ∧ a = b ∨ place ≠ number ∧ f place = b := by
  rw [Function.update_apply]
  split <;> simp [*]

@[simp]
theorem asking_update {f : Nat → Run} : asking (Function.update f number run place) = some id ↔
      place = number ∧ asking run = some id ∨ place ≠ number ∧ asking (f place) = some id := by
  rw [Function.update_apply]
  split <;> simp [*]

/-- What a change of a session leaves as it is, unless it has to do with its closing. -/
structure SameClosing (before after : Session) : Prop where
  closed : after.closed = before.closed
  closes : after.closes = before.closes
  returned : after.returned = before.returned
  opener : after.opener = before.opener
  state : after.data.batch.state = before.data.batch.state ∨ after.data.batch.state = before.returned

private theorem Owned.touch (owned : Owned v) (found : v.cells id = some session)
    (same : SameClosing session after) : Owned { v with cells := Function.update v.cells id (some after) } := by
  obtain ⟨closed, closes, returned, opener, state⟩ := same
  constructor <;> simp only [update_iff] <;> grind [Owned]

/-- A future that has no queue in hand. -/
def emptyHanded : Run → Bool
  | .openRetain _ => false
  | .openRelease _ _ => false
  | .nextRetain _ _ _ => false
  | _ => true

private theorem Owned.goOn (owned : Owned v) {after : Run} (before : emptyHanded (v.runs number) = true)
    (rests : emptyHanded after = true)
    (quiet : ∀ id session, asking after = some id → v.cells id = some session → session.closes = []) :
    Owned { v with runs := Function.update v.runs number after } := by
  constructor <;> simp only [update_iff, asking_update] <;> grind [Owned, emptyHanded]

private theorem Owned.opened (owned : Owned v) (before : emptyHanded (v.runs number) = true)
    (fresh : v.cells id = none) (unasked : ∀ place, asking (v.runs place) ≠ some id)
    (isOpen : session.closed = none) (unclosed : session.closes = []) (opener : session.opener = number)
    (state : session.data.batch.state = session.returned) :
    Owned { v with
      cells := Function.update v.cells id (some session)
      runs := Function.update v.runs number (.openRetain id) } := by
  constructor <;> simp only [update_iff, asking_update, exists_or, exists_eq_left] <;>
    grind [Owned, emptyHanded, asking]

private theorem Owned.insert (owned : Owned v) (stands : v.runs number = .openRetain id)
    (found : v.cells id = some session) (isOpen : session.closed = none) :
    Owned { v with table := id :: v.table, runs := Function.update v.runs number .done } := by
  constructor <;> simp only [update_iff, asking_update, List.mem_cons] <;> grind [Owned, asking]

private theorem Owned.leave (owned : Owned v) (stands : v.runs number = .openRetain id)
    (found : v.cells id = some session) (shut : session.closed ≠ none) :
    Owned { v with runs := Function.update v.runs number .done } := by
  constructor <;> simp only [update_iff, asking_update] <;> grind [Owned, asking]

private theorem Owned.release (owned : Owned v) (stands : v.runs number = .openRetain id)
    (found : v.cells id = some session) (isOpen : session.closed = none) {after : Session}
    (same : SameClosing { session with closed := some (.operation number) } after) (error : RadioError) :
    Owned { v with
      cells := Function.update v.cells id (some after)
      runs := Function.update v.runs number (.openRelease id error) } := by
  obtain ⟨closed, closes, returned, opener, state⟩ := same
  constructor <;>
    simp only [update_iff, asking_update, exists_or, exists_and_left, Run.openRelease.injEq, exists_eq', and_true] <;>
    grind [Owned, asking]

private theorem Owned.close (owned : Owned v) {error : RadioError}
    (stands : v.runs number = .openRelease id error) (found : v.cells id = some session)
    (unasked : ∀ place, asking (v.runs place) ≠ some id)
    (same : SameClosing { session with closes := session.closes ++ [session.data.batch.state] } after) :
    Owned { v with
      cells := Function.update v.cells id (some after)
      runs := Function.update v.runs number (.openClosing id error) } := by
  obtain ⟨closed, closes, returned, opener, state⟩ := same
  constructor <;> simp only [update_iff, asking_update] <;> grind [Owned, asking]

private theorem Owned.returning (owned : Owned v) {retained : List Int}
    (stands : v.runs number = .nextCalled request state retained) (found : v.cells request.session = some session)
    (alone : ∀ place, asking (v.runs place) = some request.session → place = number) (batch : QueueBatch) :
    Owned { v with
      cells := Function.update v.cells request.session (some { session with returned := batch.state })
      runs := Function.update v.runs number (.nextRetain request state batch) } := by
  constructor <;>
    simp only [update_iff, asking_update, exists_or, exists_and_left, Run.nextRetain.injEq] <;>
    grind [Owned, asking]

private theorem Owned.answer (owned : Owned v)
    (stands : v.runs number = .nextRetain request state batch) (found : v.cells request.session = some session)
    (settled : session.data.batch.state = session.returned) :
    Owned { v with runs := Function.update v.runs number .done } := by
  constructor <;> simp only [update_iff, asking_update, exists_or, exists_and_left] <;> grind [Owned, asking]

private theorem Owned.take (owned : Owned v) (fresh : v.pending number = []) (chosen : SessionId → Bool) :
    Owned { v with
      pending := Function.update v.pending number (v.table.filter chosen)
      table := v.table.filter fun id => !chosen id } := by
  constructor <;> simp only [Function.update_apply] <;> grind [Owned]

private theorem Owned.next (owned : Owned v) {rest : List SessionId} (pending : v.pending number = id :: rest)
    (found : v.cells id = some session) (shut : session.closed ≠ none) :
    Owned { v with pending := Function.update v.pending number rest } := by
  constructor <;> simp only [Function.update_apply] <;> grind [Owned]

private theorem Owned.swap (owned : Owned v) {rest : List SessionId} (rests : ∀ id, v.stages number ≠ .waiting id)
    (pending : v.pending number = id :: rest) (found : v.cells id = some session) (isOpen : session.closed = none) :
    Owned { v with
      cells := Function.update v.cells id (some { session with closed := some (.closer number) })
      stages := Function.update v.stages number (.waiting id)
      pending := Function.update v.pending number rest } := by
  constructor <;> simp only [Function.update_apply] <;> grind [Owned]

private theorem Owned.lock (owned : Owned v) (stands : v.stages number = .waiting id)
    (found : v.cells id = some session) (unasked : ∀ place, asking (v.runs place) ≠ some id)
    (same : SameClosing { session with closes := session.closes ++ [session.data.batch.state] } after) :
    Owned { v with
      cells := Function.update v.cells id (some after)
      stages := Function.update v.stages number (.closing id) } := by
  obtain ⟨closed, closes, returned, opener, state⟩ := same
  constructor <;> simp only [Function.update_apply] <;> grind [Owned, asking]

private theorem Owned.rest (owned : Owned v) (number : Nat) (stage : Release) (before : ∀ id, v.stages number ≠ .waiting id)
    (after : ∀ id, stage ≠ .waiting id) :
    Owned { v with stages := Function.update v.stages number stage } := by
  constructor <;> simp only [Function.update_apply] <;> grind [Owned]

theorem pendingOf_take (chosen : SessionId → Bool) (purges : Bool) :
    pendingOf (take s chosen purges) =
      Function.update (pendingOf s) s.closers.length (s.sessions.filter chosen) := by
  funext other
  rcases Nat.lt_trichotomy other s.closers.length with inside | rfl | outside
  · simp [pendingOf, take, List.getElem?_append_left inside, Nat.ne_of_lt inside]
  · simp [pendingOf, take]
  · have beyond : (s.closers ++ [(⟨s.sessions.filter chosen, .idle, purges⟩ : Closer)])[other]? = none := by
      simp; omega
    have none : s.closers[other]? = none := by simp; omega
    simp [pendingOf, take, beyond, none, Nat.ne_of_gt outside]

theorem pendingOf_eq (stands : s.closers[number]? = some closer) : pendingOf s number = closer.pending := by
  simp [pendingOf, stands]

/-! ## The moves -/

private theorem Owned.change (owned : Owned (view s)) (found : s.objects[id]? = some session)
    (same : SameClosing session after) : Owned (view (setSession s id after)) := by
  rw [view_setSession found]
  exact owned.touch found same

private theorem Owned.setRun (owned : Owned (view s)) (stands : At s number run)
    (before : emptyHanded run = true) (after : Run) (rests : emptyHanded after = true)
    (quiet : ∀ id session, asking after = some id → s.objects[id]? = some session → session.closes = []) :
    Owned (view (setRun s number after)) := by
  rw [view_setRun stands]
  refine owned.goOn ?_ rests quiet
  · change emptyHanded (runOf s number) = true
    rwa [At.runOf_eq stands]

private theorem Owned.finish (owned : Owned (view s)) (stands : At s number run)
    (before : emptyHanded run = true) (result : Except RadioError Page) :
    Owned (view (finish s number result)) := by
  rw [view_finish stands]
  refine owned.goOn ?_ rfl fun _ _ asks => by cases asks
  · change emptyHanded (runOf s number) = true
    rwa [At.runOf_eq stands]

private theorem Owned.finishNext (owned : Owned (view s)) (stands : At s number (.nextRetain request state batch))
    (found : s.objects[request.session]? = some session) (same : SameClosing session after)
    (settled : after.data.batch.state = session.returned) (result : Except RadioError Page) :
    Owned (view (RadioSessions.finish (setSession s request.session after) number result)) := by
  rw [view_finish (s := setSession s request.session after) stands]
  have cell : (view (setSession s request.session after)).cells request.session = some after := by
    simp [view, objects_setSession found]
  exact (owned.change found same).answer (At.runOf_eq stands) cell (settled.trans same.returned.symm)

private theorem asking_holds (asks : asking run = some id) : run.holds = some id := by
  cases run with
  | nextCalled | nextRetain => exact asks
  | _ => cases asks

private theorem asks_alone (locks : Locks s) {first second : Nat} (one : asking (runOf s first) = some id)
    (two : asking (runOf s second) = some id) : first = second := by
  obtain ⟨session, found, locked⟩ := locks (.operation first) id (asking_holds one)
  obtain ⟨other, there, own⟩ := locks (.operation second) id (asking_holds two)
  cases found.symm.trans there
  cases locked.symm.trans own
  rfl

private theorem unasked_of_free (locks : Locks s) (found : s.objects[id]? = some session)
    (free : session.locked = none) (place : Nat) : asking (runOf s place) ≠ some id := by
  intro asks
  obtain ⟨other, there, own⟩ := locks (.operation place) id (asking_holds asks)
  cases found.symm.trans there
  cases free.symm.trans own

theorem owned_move (move : Move prompt True s t) (locks : Locks s) (owned : Owned (view s)) : Owned (view t) := by
  cases move with
  | register id value => cases s.registry id <;> exact owned
  | touch found => exact owned.change found ⟨rfl, rfl, rfl, rfl, .inl rfl⟩
  | start created absent now unanswered starts remembered =>
    have changed : view { s with
        operations := (created.key, s.started.length) :: s.operations, started := s.started ++ [created] } =
        { view s with runs := Function.update (view s).runs s.started.length created.run } :=
      View.ext (runOf_append created) rfl rfl rfl rfl
    rw [changed]
    refine owned.goOn ?_ ?_ ?_
    · simp [view, runOf, emptyHanded]
    · rcases starts with ⟨_, _, -, run⟩ | ⟨_, _, -, run, -⟩ <;> rw [run] <;> rfl
    · rcases starts with ⟨_, _, -, run⟩ | ⟨_, _, -, run, -⟩ <;> rw [run] <;> exact fun _ _ asks => by cases asks
  | fail stands free kept error =>
    rename_i number run
    refine owned.finish stands ?_ _
    rcases kept trivial with rests | holds
    · cases run <;> first | rfl | cases rests
    · obtain ⟨id, holds⟩ := Option.isSome_iff_exists.mp holds
      obtain ⟨session, found, -⟩ := locks (.operation number) id (by rw [holding, At.runOf_eq stands, holds])
      cases found.symm.trans (free id holds)
  | goOn stands first second epoch =>
    rename_i number run after
    refine owned.setRun stands ?_ after ?_ ?_
    · cases run <;> first | rfl | cases first
    · cases after <;> first | rfl | cases second
    · intro id session asks
      cases after with
      | openStart | openPrevious | openDefinition => cases asks
      | _ => cases second
  | call stands same =>
    rename_i number request after epoch
    exact Owned.setRun (s := { s with opens := s.opens ++ [number] }) owned stands rfl _ rfl fun _ _ asks => by cases asks
  | opened stands batch =>
    rename_i number request epoch
    have grown : view { s with objects := s.objects ++ [newSession s number request epoch batch] } =
        { view s with
          cells := Function.update (view s).cells s.objects.length
            (some (newSession s number request epoch batch)) } := by
      refine View.ext rfl rfl rfl ?_ rfl
      funext other
      simp [view, objects_append, Function.update_apply]
    have fresh : s.objects[s.objects.length]? = none := by simp
    have here : At { s with objects := s.objects ++ [newSession s number request epoch batch] } number
        (.openCalled request epoch) := stands
    rw [view_setRun here, grown]
    refine owned.opened ?_ fresh (fun place asks => ?_) rfl rfl rfl rfl
    · change emptyHanded (runOf s number) = true
      rw [At.runOf_eq stands]
      rfl
    · obtain ⟨session, found, -⟩ := locks (.operation place) _ (asking_holds asks)
      cases fresh.symm.trans found
  | retain stands found items => exact owned.change found ⟨rfl, rfl, rfl, rfl, .inl rfl⟩
  | insert stands found live room =>
    rename_i number id session
    have isOpen : session.closed = none := by
      simp only [valid_eq_true, Dead, not_or, not_not] at live
      exact live.1.2.1
    have here : At { s with sessions := id :: s.sessions } number (.openRetain id) := stands
    have listed : Owned (view (finish { s with sessions := id :: s.sessions } number (.ok session.data))) := by
      rw [view_finish here]
      exact owned.insert (At.runOf_eq stands) found isOpen
    have there : (finish { s with sessions := id :: s.sessions } number (.ok session.data)).objects[id]? =
        some session := found
    exact listed.change there (by exact ⟨rfl, rfl, rfl, rfl, .inl rfl⟩)
  | release stands found error =>
    unfold release
    split
    · rename_i shut
      rw [fail, view_finish stands]
      exact owned.leave (At.runOf_eq stands) found (by simpa [Option.isSome_iff_ne_none] using shut)
    · rename_i isOpen
      rw [view_setRun (stands.setSession), view_setSession found]
      exact owned.release (At.runOf_eq stands) found (by simpa using isOpen)
        (by exact ⟨rfl, rfl, rfl, rfl, .inl rfl⟩) error
  | close stands found free =>
    rw [view_setRun (stands.setSession), view_setSession found]
    exact owned.close (At.runOf_eq stands) found (unasked_of_free locks found free)
      (by exact ⟨rfl, rfl, rfl, rfl, .inl rfl⟩)
  | closed stands found =>
    exact Owned.finish (owned.change found (by exact ⟨rfl, rfl, rfl, rfl, .inl rfl⟩)) stands.setSession rfl _
  | hold stands found free live version retained =>
    rename_i number request session
    have held : Owned (view (setSession s request.session { session with locked := some (.operation number) })) :=
      owned.change found ⟨rfl, rfl, rfl, rfl, .inl rfl⟩
    refine held.setRun stands.setSession rfl _ rfl fun id other asks there => ?_
    cases asks
    rw [objects_setSession found, if_pos rfl] at there
    cases there
    -- a valid session has not been closed
    simp only [valid_eq_true, Dead, not_or, not_not] at live
    exact (owned.closes request.session session found).resolve_right fun shut => shut.1 live.1.2.1
  | returned stands found batch =>
    rw [view_setRun (stands.setSession), view_setSession found]
    exact owned.returning (At.runOf_eq stands) found
      (fun place asks => asks_alone locks asks (by rw [At.runOf_eq stands]; rfl)) batch
  | abandon stands holds found error kept =>
    rename_i number id run session
    have same : SameClosing session { session with locked := none } := ⟨rfl, rfl, rfl, rfl, .inl rfl⟩
    cases run with
    | nextRetain request state batch =>
      cases holds
      refine owned.finishNext stands found same ?_ _
      have returned := owned.returned number request state batch session (At.runOf_eq stands) found
      exact (kept trivial request state batch rfl).symm.trans returned.symm
    | openClosing | nextCalled => exact Owned.finish (owned.change found same) stands.setSession rfl _
    | _ => cases holds
  | keepState stands found dead =>
    rename_i number request state batch session
    have returned := owned.returned number request state batch session (At.runOf_eq stands) found
    exact owned.finishNext stands found (by exact ⟨rfl, rfl, rfl, rfl, .inr returned.symm⟩) returned.symm _
  | commit stands found live items =>
    rename_i number request state batch session
    have returned := owned.returned number request state batch session (At.runOf_eq stands) found
    exact owned.finishNext stands found (by exact ⟨rfl, rfl, rfl, rfl, .inr returned.symm⟩) returned.symm
      (.ok { session.data with version := session.data.version + 1, batch := batch })
  | take chosen purges =>
    have changed : view (take s chosen purges) = { view s with
        pending := Function.update (view s).pending s.closers.length (s.sessions.filter chosen)
        table := s.sessions.filter fun id => !chosen id } :=
      View.ext rfl (stageOf_take chosen purges) (pendingOf_take chosen purges) rfl rfl
    rw [changed]
    exact owned.take (by simp [view, pendingOf]) chosen
  | skip stands stage pending found done =>
    rename_i number closer id rest session
    rw [view_setCloser stands, ← stageOf_eq stands]
    simp only [view, Function.update_eq_self]
    exact owned.next ((pendingOf_eq stands).trans pending) found (by simpa [Option.isSome_iff_ne_none] using done)
  | swap stands stage pending found first =>
    rename_i number closer id rest session
    have here (next : Session) : (setSession s id next).closers[number]? = some closer := stands
    rw [view_setCloser (here _), view_setSession found]
    refine owned.swap (fun id waits => ?_) ((pendingOf_eq stands).trans pending) found first
    cases waits.symm.trans ((stageOf_eq stands).trans stage)
  | lock stands stage found free =>
    rename_i number closer id session
    have here (next : Session) : (setSession s id next).closers[number]? = some closer := stands
    rw [view_setCloser (here _), view_setSession found, ← pendingOf_eq stands]
    simp only [view, Function.update_eq_self]
    exact owned.lock ((stageOf_eq stands).trans stage) found (unasked_of_free locks found free)
      (by exact ⟨rfl, rfl, rfl, rfl, .inl rfl⟩)
  | unlock stands stage found items =>
    rename_i number closer id session
    have freed : Owned (view (setSession s id { session with locked := none, items := items })) :=
      owned.change found ⟨rfl, rfl, rfl, rfl, .inl rfl⟩
    have here : (setSession s id { session with locked := none, items := items }).closers[number]? = some closer :=
      stands
    rw [view_setCloser here, ← pendingOf_eq here]
    have rested := freed.rest number .idle (fun other waits => ?_) (by rintro _ ⟨⟩)
    · simpa only [view, Function.update_eq_self] using rested
    · cases waits.symm.trans ((stageOf_eq here).trans stage)
  | flag stands purges =>
    rename_i number closer
    rw [view_setCloser stands, ← stageOf_eq stands, ← pendingOf_eq stands]
    simpa only [view, Function.update_eq_self] using owned
  | abort stands free kept =>
    rename_i number closer
    obtain ⟨none, rests⟩ := kept trivial
    have rested := owned.rest number .idle (fun id waits => ?_) (by rintro _ ⟨⟩)
    · rw [view_setCloser stands, ← (pendingOf_eq stands).trans none]
      simpa only [view, Function.update_eq_self] using rested
    · exact rests id ((stageOf_eq stands).symm.trans waits)
  | _ => exact owned

theorem owned_initial (fresh : s.Initial) : Owned (view s) := by
  obtain ⟨-, sessions, objects, -, started, -, closers, -, -⟩ := fresh
  constructor <;>
    simp [view, sessions, objects, runOf, started, stageOf, pendingOf, closers, asking]

private theorem accounted_of_owned (owned : Owned (view s)) : Accounted s where
  kept id session found := by
    cases shut : session.closed with
    | none =>
      rcases owned.unclosed id session found shut with listed | ⟨number, comes⟩ | ⟨number, leaves⟩
      · exact .inl listed
      · exact .inr (.inl (.inl ⟨number, .inl comes⟩))
      · exact .inr (.inl (.inr ⟨number, .inl leaves⟩))
    | some holder =>
      cases holder with
      | operation number =>
        rcases owned.byOperation id session number found shut with releases | passed
        · exact .inr (.inl (.inl ⟨number, .inr releases⟩))
        · exact .inr (.inr passed)
      | closer number =>
        rcases owned.byCloser id session number found shut with waits | passed
        · exact .inr (.inl (.inr ⟨number, .inr waits⟩))
        · exact .inr (.inr passed)
  once id session found := (owned.closes id session found).imp_right And.right
  live id member := by
    obtain ⟨session, found, isOpen⟩ := owned.listed id member
    exact ⟨session, found, (owned.closes id session found).resolve_right fun shut => shut.1 isOpen⟩

/-- What is kept along a run. -/
private structure Keeping (s : World) : Prop where
  locks : Locks s
  owned : Owned (view s)

/-- In runs of careful steps no queue is lost. -/
theorem careful_runs_lose_no_queue (reached : Reached isUuid Careful s) : Accounted s := by
  have keeping : Keeping s := reached_invariant False True reached
    (fun none => none.elim) (fun _ _ _ => id)
    (fun _ fresh => ⟨locks_initial fresh, owned_initial fresh⟩)
    fun _ _ move held => ⟨locks_move move held.locks, owned_move move held.locks held.owned⟩
  exact accounted_of_owned keeping.owned

theorem closed_queue_is_accounted : ∃ s, Accounted s ∧ s.objects.map Session.closes = [["first"]] := by
  have run : ((play Careful (step isSampleUuid) sample (firstOpen ++ [.close 0, .release 0, .lock 0, .closed 0])).map
      fun s => s.objects.map Session.closes) = some [["first"]] := by decide +kernel
  obtain ⟨s, played, same⟩ := Option.map_eq_some_iff.mp run
  have reached : Reached isSampleUuid Careful s := Reach.play _ (.start (by simp [World.Initial, sample])) played
  exact ⟨s, careful_runs_lose_no_queue reached, same⟩

/-- The timeout of an `open` drops the queue that has just been opened: it is in no
table and no hands, and is never closed. -/
theorem timeout_loses_queue : ∃ s, Reached isSampleUuid (fun _ _ => True) s ∧ ¬ Accounted s := by
  have run : ((play (fun _ _ => True) (step isSampleUuid) sample (openQueue ++ [.cut 0])).map fun s =>
      (s.sessions, s.objects.map Session.closes, s.started.map Operation.run, s.closers)) =
        some ([], [[]], [.done], []) := by decide +kernel
  obtain ⟨s, played, same⟩ := Option.map_eq_some_iff.mp run
  refine ⟨s, Reach.play _ (.start (by simp [World.Initial, sample])) played, fun accounted => ?_⟩
  simp only [Prod.mk.injEq] at same
  obtain ⟨sessions, closes, runs, closers⟩ := same
  obtain ⟨session, objects, unclosed⟩ := List.map_eq_singleton_iff.mp closes
  have idle (number : Nat) : runOf s number = .done := by
    obtain ⟨operation, started, settled⟩ := List.map_eq_singleton_iff.mp runs
    cases number <;> simp [runOf, started, settled]
  rcases accounted.kept 0 session (by simp [objects]) with listed | charge | passed
  · simp [sessions] at listed
  · simp [InCharge, idle, pendingOf, stageOf, closers] at charge
  · simp [unclosed] at passed

end Qcm.RadioQueueProofs
