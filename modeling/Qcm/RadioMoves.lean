import Qcm.RadioSessions
import Qcm.Lib.Runs

/-!
Everything a step of the radio sessions can do, said once.  A step is a short
sequence of moves, each of which changes one thing; invariants are proved move
by move.

Two conditions on the steps are carried through: `Prompt`, that a retry of an
`open` meets its operation while the cache still has it, and `Careful`, that no
task is dropped, and no batch refused, while it alone knows a queue or a state.
-/

namespace Qcm.RadioMoves

open RadioSessions Lib.Runs

variable {s t u : World} {isUuid : List Char → Bool} {prompt careful : Prop}

/-- The cache does not forget an `open` that has reached the provider: its
operation is still running or younger than `OPERATION_TTL`. -/
def Remembered (s : World) (key : Key) : Prop :=
  ∀ number ∈ s.opens, ∀ operation ∈ s.started[number]?, operation.key = key →
    operation.result = none ∨ s.instant - operation.created < OPERATION_TTL

instance (s : World) (key : Key) : Decidable (Remembered s key) :=
  inferInstanceAs (Decidable (∀ number ∈ s.opens, ∀ operation ∈ s.started[number]?, _ → _ ∨ _))

def Timely (s : World) : Call → Prop
  | .opening id _ => Remembered s (.opening id)
  | .next _ _ => True

instance (s : World) : (call : Call) → Decidable (Timely s call)
  | .opening id _ => inferInstanceAs (Decidable (Remembered s (.opening id)))
  | .next _ _ => .isTrue trivial

/-- A request comes to the cache while its operation is remembered. -/
def Prompt (s : World) : Action → Prop
  | .enter number => ∀ request ∈ s.requests[number]?, Timely s request.call
  | _ => True

instance (s : World) : (a : Action) → Decidable (Prompt s a)
  | .enter number => inferInstanceAs (Decidable (∀ request ∈ s.requests[number]?, Timely s request.call))
  | .tick _ | .setClock _ | .addProvider _ | .removeProvider _ | .renew _ | .request _ | .answer _
  | .resume _ _ | .cut _ | .close _ | .collect | .invalidate _ | .stop | .release _ | .lock _ | .closed _
  | .purge _ | .abort _ => .isTrue trivial

/-- The state of the session is the one the provider has returned with the batch. -/
def Unchanged (s : World) (id : SessionId) (batch : QueueBatch) : Prop :=
  ∀ session ∈ s.objects[id]?, batch.state = session.data.batch.state

/-- A batch of `next_queue` that is going to be refused. -/
def Refused (s : World) (request : NextRequest) (batch : QueueBatch) : Prop :=
  ∃ session ∈ s.objects[request.session]?, valid s session = true ∧
    (validateBatch batch false ≠ .ok () ∨
      batch.configuration.same session.data.batch.configuration = false ∨ request.target.provider.id = none)

/-- What has come for a `next` can be lost: the session has the state of the batch. -/
def Keeps (s : World) : Run → Prop
  | .nextRetain request _ batch => Unchanged s request.session batch
  | _ => True

/-- A future that can be dropped. -/
def Droppable (s : World) : Run → Prop
  | .openRetain _ => False
  | .openRelease _ _ => False
  | .nextRetain request _ batch => Unchanged s request.session batch
  | _ => True

/-- A batch that is going to be refused brings the state the session has. -/
def Harmless (s : World) (batch : QueueBatch) : Run → Prop
  | .nextCalled request _ _ => Refused s request batch → Unchanged s request.session batch
  | _ => True

/-- A closing call that has no session in hand. -/
def Clear (closer : Closer) : Prop :=
  closer.pending = [] ∧ ∀ id, closer.stage ≠ .waiting id

/-- No operation is cut off between the return of `open_queue` and the table or
`close_queue`, no closing call is aborted before its `close_queue`, and a `next`
that is cut off or refused after the return of `next_queue` has brought the state
the session has. -/
def Careful (s : World) : Action → Prop
  | .cut number => ∀ operation ∈ s.started[number]?, Droppable s operation.run
  | .abort number => ∀ closer ∈ s.closers[number]?, Clear closer
  | .resume number (.batch (.ok batch)) => ∀ operation ∈ s.started[number]?, Harmless s batch operation.run
  | .resume number (.retained (.error _)) => ∀ operation ∈ s.started[number]?, Keeps s operation.run
  | _ => True

instance (s : World) (id : SessionId) (batch : QueueBatch) : Decidable (Unchanged s id batch) :=
  inferInstanceAs (Decidable (∀ session ∈ s.objects[id]?, _ = _))

instance (s : World) (request : NextRequest) (batch : QueueBatch) : Decidable (Refused s request batch) :=
  inferInstanceAs (Decidable (∃ session ∈ s.objects[request.session]?, _ ∧ (_ ∨ _ ∨ _)))

instance (s : World) : (run : Run) → Decidable (Keeps s run)
  | .nextRetain request _ batch => inferInstanceAs (Decidable (Unchanged s request.session batch))
  | .openStart _ | .openPrevious _ _ _ | .openDefinition _ _ | .openCalled _ _ | .openRetain _
  | .openRelease _ _ | .openClosing _ _ | .nextStart _ | .nextCalled _ _ _ | .done => .isTrue trivial

instance (s : World) : (run : Run) → Decidable (Droppable s run)
  | .openRetain _ | .openRelease _ _ => .isFalse id
  | .nextRetain request _ batch => inferInstanceAs (Decidable (Unchanged s request.session batch))
  | .openStart _ | .openPrevious _ _ _ | .openDefinition _ _ | .openCalled _ _ | .openClosing _ _
  | .nextStart _ | .nextCalled _ _ _ | .done => .isTrue trivial

instance (s : World) (batch : QueueBatch) : (run : Run) → Decidable (Harmless s batch run)
  | .nextCalled request _ _ =>
    inferInstanceAs (Decidable (Refused s request batch → Unchanged s request.session batch))
  | .openStart _ | .openPrevious _ _ _ | .openDefinition _ _ | .openCalled _ _ | .openRetain _
  | .openRelease _ _ | .openClosing _ _ | .nextStart _ | .nextRetain _ _ _ | .done => .isTrue trivial

theorem idle_not_waiting (id : SessionId) : Release.idle ≠ .waiting id := nofun

theorem closing_not_waiting (closed id : SessionId) : Release.closing closed ≠ .waiting id := nofun

instance : (stage : Release) → Decidable (∀ id, stage ≠ .waiting id)
  | .idle => .isTrue idle_not_waiting
  | .closing closed => .isTrue (closing_not_waiting closed)
  | .waiting id => .isFalse fun none => none id rfl

instance (closer : Closer) : Decidable (Clear closer) :=
  inferInstanceAs (Decidable (closer.pending = [] ∧ ∀ id, closer.stage ≠ .waiting id))

instance (s : World) : (a : Action) → Decidable (Careful s a)
  | .cut number => inferInstanceAs (Decidable (∀ operation ∈ s.started[number]?, Droppable s operation.run))
  | .abort number => inferInstanceAs (Decidable (∀ closer ∈ s.closers[number]?, Clear closer))
  | .resume number (.batch (.ok batch)) =>
    inferInstanceAs (Decidable (∀ operation ∈ s.started[number]?, Harmless s batch operation.run))
  | .resume number (.retained (.error _)) =>
    inferInstanceAs (Decidable (∀ operation ∈ s.started[number]?, Keeps s operation.run))
  | .resume _ .go | .resume _ (.definition _) | .resume _ (.batch (.error _)) | .resume _ (.retained (.ok _))
  | .tick _ | .setClock _ | .addProvider _ | .removeProvider _ | .renew _ | .request _ | .enter _ | .answer _
  | .close _ | .collect | .invalidate _ | .stop | .release _ | .lock _ | .closed _ | .purge _ => .isTrue trivial

/-- What an early future of `open` remembers: its provider and the epoch. -/
def epochOf : Run → Option (Provider × Nat)
  | .openPrevious request epoch _ => some (request.target.provider, epoch)
  | .openDefinition request epoch => some (request.target.provider, epoch)
  | .openCalled request epoch => some (request.target.provider, epoch)
  | _ => none

/-- A future of `open` before its call of `open_queue`. -/
def early : Run → Bool
  | .openStart _ => true
  | .openPrevious _ _ _ => true
  | .openDefinition _ _ => true
  | _ => false

/-- A future that has neither the lock nor the closing of a session in hand. -/
def idle : Run → Bool
  | .openRetain _ => false
  | .openRelease _ _ => false
  | .openClosing _ _ => false
  | .nextCalled _ _ _ => false
  | .nextRetain _ _ _ => false
  | _ => true

/-- A future that a request for this key starts. -/
def Starts (s : World) (key : Key) (run : Run) : Prop :=
  (∃ id request, key = .opening id ∧ run = .openStart request) ∨
    ∃ id request, key = .next request.session id ∧ run = .nextStart request ∧
      ∃ asked ∈ s.requests, asked.call = .next id request

/-- The operation is there and at this await. -/
def At (s : World) (number : Nat) (run : Run) : Prop :=
  ∃ operation, s.started[number]? = some operation ∧ operation.run = run

inductive Move (prompt careful : Prop) (s : World) : World → Prop where
  | clock (wall : Nat) {instant : Nat} (later : s.instant ≤ instant) :
      Move prompt careful s { s with wall := wall, instant := instant }
  | renew (provider : Provider) : Move prompt careful s (invalidateProvider s provider)
  | register (id : Int) (value : Option Provider) :
      Move prompt careful s ((s.registry id).elim
        { s with registry := Function.update s.registry id value }
        (invalidateProvider { s with registry := Function.update s.registry id value }))
  | stop : Move prompt careful s { s with stopped := true }
  | ask (call : Call) (known : ∀ id request, call = .next id request → request.session ∈ s.sessions) :
      Move prompt careful s { s with requests := s.requests ++ [⟨call, .checked⟩] }
  | stage (number : Nat) (stage : Stage) : Move prompt careful s (setStage s number stage)
  | touch {id : SessionId} {session : Session} (found : s.objects[id]? = some session) :
      Move prompt careful s (setSession s id { session with touched := s.instant })
  | purge : Move prompt careful s (purge s)
  | start (created : Operation) (absent : s.operations.lookup created.key = none)
      (now : created.created = s.instant) (unanswered : created.result = none)
      (starts : Starts s created.key created.run)
      (remembered : prompt → ∀ id, created.key = .opening id → Remembered s created.key) :
      Move prompt careful s { s with
        operations := (created.key, s.started.length) :: s.operations
        started := s.started ++ [created] }
  /-- The future ends, with nothing in hand unless it is dropped carelessly. -/
  | fail {number : Nat} {run : Run} (stands : At s number run)
      (free : ∀ id, run.holds = some id → s.objects[id]? = none)
      (kept : careful → idle run = true ∨ run.holds.isSome = true) (error : RadioError) :
      Move prompt careful s (fail s number error)
  | goOn {number : Nat} {run : Run} (stands : At s number run) (first : early run = true) {after : Run}
      (second : early after = true)
      (epoch : epochOf after = epochOf run ∨
        ∃ provider, epochOf after = some (provider, s.epoch provider)) :
      Move prompt careful s (setRun s number after)
  | call {number : Nat} {request after : OpenRequest} {epoch : Nat}
      (stands : At s number (.openDefinition request epoch)) (same : after.target = request.target) :
      Move prompt careful s (setRun { s with opens := s.opens ++ [number] } number (.openCalled after epoch))
  | opened {number : Nat} {request : OpenRequest} {epoch : Nat}
      (stands : At s number (.openCalled request epoch)) (batch : QueueBatch) :
      Move prompt careful s (setRun
        { s with objects := s.objects ++ [newSession s number request epoch batch] } number
        (.openRetain s.objects.length))
  | retain {number : Nat} {id : SessionId} {session : Session} (stands : At s number (.openRetain id))
      (found : s.objects[id]? = some session) (items : Option (List Root)) :
      Move prompt careful s (setSession s id { session with items := items })
  | insert {number : Nat} {id : SessionId} {session : Session} (stands : At s number (.openRetain id))
      (found : s.objects[id]? = some session) (live : valid s session = true)
      (room : s.sessions.length < MAX_SESSIONS) :
      Move prompt careful s (finish
        (setSession { s with sessions := id :: s.sessions } id { session with inserted := true }) number
        (.ok session.data))
  | release {number : Nat} {id : SessionId} {session : Session} (stands : At s number (.openRetain id))
      (found : s.objects[id]? = some session) (error : RadioError) :
      Move prompt careful s (release s number id session error)
  | close {number : Nat} {id : SessionId} {error : RadioError} {session : Session}
      (stands : At s number (.openRelease id error)) (found : s.objects[id]? = some session)
      (free : session.locked = none) :
      Move prompt careful s (setRun (setSession s id { session with
        locked := some (.operation number), closes := session.closes ++ [session.data.batch.state] })
        number (.openClosing id error))
  | closed {number : Nat} {id : SessionId} {error : RadioError} {session : Session}
      (stands : At s number (.openClosing id error)) (found : s.objects[id]? = some session) :
      Move prompt careful s (RadioSessions.fail
        (setSession s id { session with locked := none, items := none }) number error)
  | hold {number : Nat} {request : NextRequest} {session : Session}
      (stands : At s number (.nextStart request)) (found : s.objects[request.session]? = some session)
      (free : session.locked = none) (live : valid s session = true)
      (version : session.data.version = request.expectedVersion) (retained : List Int) :
      Move prompt careful s (setRun
        (setSession s request.session { session with locked := some (.operation number) }) number
        (.nextCalled request session.data.batch.state retained))
  | returned {number : Nat} {request : NextRequest} {state : String} {retained : List Int}
      {session : Session} (stands : At s number (.nextCalled request state retained))
      (found : s.objects[request.session]? = some session) (batch : QueueBatch) :
      Move prompt careful s (setRun
        (setSession s request.session { session with returned := batch.state }) number
        (.nextRetain request state batch))
  | abandon {number : Nat} {id : SessionId} {run : Run} {session : Session} (stands : At s number run)
      (holds : run.holds = some id) (found : s.objects[id]? = some session) (error : RadioError)
      (kept : careful → ∀ request state batch, run = .nextRetain request state batch →
        batch.state = session.data.batch.state) :
      Move prompt careful s (abandon s number id session error)
  | keepState {number : Nat} {request : NextRequest} {state : String} {batch : QueueBatch}
      {session : Session} (stands : At s number (.nextRetain request state batch))
      (found : s.objects[request.session]? = some session) (dead : valid s session = false) :
      Move prompt careful s (keepState s number request.session session batch.state)
  | commit {number : Nat} {request : NextRequest} {state : String} {batch : QueueBatch}
      {session : Session} (stands : At s number (.nextRetain request state batch))
      (found : s.objects[request.session]? = some session) (live : valid s session = true)
      (items : List Root) :
      Move prompt careful s (finish { setSession s request.session { session with
          items := some items
          data := { session.data with version := session.data.version + 1, batch := batch }
          locked := none } with
        pages := s.pages ++ [⟨request.session, number, request.expectedVersion, state,
          { session.data with version := session.data.version + 1, batch := batch }⟩] } number
        (.ok { session.data with version := session.data.version + 1, batch := batch }))
  | take (chosen : SessionId → Bool) (purges : Bool) : Move prompt careful s (take s chosen purges)
  | skip {number : Nat} {closer : Closer} {id : SessionId} {rest : List SessionId} {session : Session}
      (stands : s.closers[number]? = some closer) (stage : closer.stage = .idle)
      (pending : closer.pending = id :: rest) (found : s.objects[id]? = some session)
      (done : session.closed.isSome = true) :
      Move prompt careful s (setCloser s number { closer with pending := rest })
  | swap {number : Nat} {closer : Closer} {id : SessionId} {rest : List SessionId} {session : Session}
      (stands : s.closers[number]? = some closer) (stage : closer.stage = .idle)
      (pending : closer.pending = id :: rest) (found : s.objects[id]? = some session)
      (first : session.closed = none) :
      Move prompt careful s (setCloser
        (setSession s id { session with closed := some (.closer number) }) number
        { closer with pending := rest, stage := .waiting id })
  | lock {number : Nat} {closer : Closer} {id : SessionId} {session : Session}
      (stands : s.closers[number]? = some closer) (stage : closer.stage = .waiting id)
      (found : s.objects[id]? = some session) (free : session.locked = none) :
      Move prompt careful s (setCloser (setSession s id { session with
        locked := some (.closer number), closes := session.closes ++ [session.data.batch.state] })
        number { closer with stage := .closing id })
  | unlock {number : Nat} {closer : Closer} {id : SessionId} {session : Session}
      (stands : s.closers[number]? = some closer) (stage : closer.stage = .closing id)
      (found : s.objects[id]? = some session) (items : Option (List Root)) :
      Move prompt careful s (setCloser
        (setSession s id { session with locked := none, items := items }) number
        { closer with stage := .idle })
  | flag {number : Nat} {closer : Closer} (stands : s.closers[number]? = some closer) (purges : Bool) :
      Move prompt careful s (setCloser s number { closer with purges := purges })
  | abort {number : Nat} {closer : Closer} (stands : s.closers[number]? = some closer)
      (free : ∀ id, closer.stage = .closing id → s.objects[id]? = none)
      (kept : careful → closer.pending = [] ∧ ∀ id, closer.stage ≠ .waiting id) :
      Move prompt careful s (setCloser s number { pending := [], stage := .idle, purges := false })

variable {number : Nat} {operation : Operation} {run : Run} {error : RadioError} {id : SessionId}
  {session : Session}

theorem getElem?_modify_cases {started : List Operation} {change : Operation → Operation} {place : Nat}
    (found : (started.modify number change)[place]? = some operation) :
    ∃ before, started[place]? = some before ∧
      (place = number ∧ operation = change before ∨ place ≠ number ∧ operation = before) := by
  rw [List.getElem?_modify, Option.map_eq_map, Option.map_eq_some_iff] at found
  obtain ⟨before, there, rfl⟩ := found
  by_cases same : number = place
  · exact ⟨before, there, .inl ⟨same.symm, by simp [same]⟩⟩
  · exact ⟨before, there, .inr ⟨Ne.symm same, by simp [same]⟩⟩

/-- The moves of a step. -/
abbrev Moves (prompt careful : Prop) : World → World → Prop :=
  Relation.ReflTransGen (Move prompt careful)

theorem Move.once (move : Move prompt careful s t) : Moves prompt careful s t := .single move

/-! ## The parts of a step -/

@[simp]
theorem setRun_setRun {first second : Run} :
    setRun (setRun s number first) number second = setRun s number second := by
  simp [setRun, List.modify_modify_eq, Function.comp_def]

@[simp]
theorem fail_setRun : fail (setRun s number run) number error = fail s number error := by
  simp [fail, finish, setRun, List.modify_modify_eq, Function.comp_def]

@[simp]
theorem setSession_setSession {first second : Session} :
    setSession (setSession s id first) id second = setSession s id second := by
  simp [setSession]

theorem setSession_setRun :
    setSession (setRun s number run) id session = setRun (setSession s id session) number run := rfl

private theorem release_setRun :
    release (setRun s number run) number id session error = release s number id session error := by
  simp [release, setSession_setRun]

theorem At.setRun {before : Run} (stands : At s number before) (after : Run) :
    At (setRun s number after) number after := by
  obtain ⟨operation, found, -⟩ := stands
  exact ⟨{ operation with run := after }, by simp [RadioSessions.setRun, found], rfl⟩

private theorem modify_eq_set {α : Type} {cells : List α} {place : Nat} {a : α} (found : cells[place]? = some a)
    (f : α → α) : cells.modify place f = cells.set place (f a) := by
  obtain ⟨bound, rfl⟩ := List.getElem?_eq_some_iff.mp found
  refine List.ext_getElem? fun other => ?_
  by_cases same : place = other
  · subst same
    simp [bound]
  · simp [same]

theorem At.setSession (stands : At s number run) : At (setSession s id session) number run := stands

theorem unlock_eq (found : s.objects[id]? = some session) :
    unlock s id = setSession s id { session with locked := none } := by
  rw [unlock, setSession, modify_eq_set found]

theorem unlock_absent (absent : s.objects[id]? = none) : unlock s id = s := by
  simp [unlock, List.modify_eq_self (by simpa using absent)]

private theorem found_setSession {before : Session} (found : s.objects[id]? = some before) :
    (setSession s id session).objects[id]? = some session := by
  obtain ⟨bound, -⟩ := List.getElem?_eq_some_iff.mp found
  simp [setSession, bound]

private theorem insert_moves (stands : At s number (.openRetain id)) (found : s.objects[id]? = some session)
    (validation : Except RadioError Unit) :
    Move prompt careful s (insertSession s number id session validation) := by
  unfold insertSession
  split
  · exact .release stands found _
  · split
    · rename_i both
      exact .insert stands found both.1 both.2
    · split
      · exact .release stands found _
      · exact .release stands found _

private theorem insert_setRun (run : Run) :
    insertSession (setRun s number run) number id session (.error error) =
      insertSession s number id session (.error error) :=
  release_setRun

private theorem sessionFor_touch {target : Target} (ran : sessionFor s id target = .ok t) :
    id ∈ s.sessions ∧ ∃ session, s.objects[id]? = some session ∧
      t = setSession s id { session with touched := s.instant } := by
  unfold sessionFor at ran
  split at ran
  · cases ran
  · rename_i session found
    split at ran
    · cases ran
    · by_cases listed : id ∈ s.sessions
      · rw [if_pos listed] at found
        exact ⟨listed, session, found, by cases ran; rfl⟩
      · simp [listed] at found

private theorem resumeOpen_moves {input : Input} (found : s.started[number]? = some operation)
    (ran : resumeOpen s number operation.run input = some t) : Moves prompt careful s t := by
  have stands : At s number operation.run := ⟨operation, found, rfl⟩
  generalize operation.run = run at stands ran
  unfold resumeOpen at ran
  split at ran
  · rename_i request
    split at ran
    · cases ran
      exact (Move.fail stands nofun (fun _ => .inl rfl) _).once
    · dsimp only at ran
      split at ran
      · cases ran
        exact (Move.goOn stands rfl (by rfl) (.inr ⟨_, rfl⟩)).once
      · split at ran
        · cases ran
          exact (Move.fail stands nofun (fun _ => .inl rfl) _).once
        · rename_i id known u touched
          cases ran
          obtain ⟨-, session, here, rfl⟩ := sessionFor_touch touched
          exact (Move.touch here).once.tail (.goOn (At.setSession stands) rfl (by rfl) (.inr ⟨_, rfl⟩))
  · rename_i request epoch id
    obtain ⟨session, here, ran⟩ := Option.bind_eq_some_iff.mp ran
    split at ran
    · cases ran
    · split at ran
      · cases ran
        exact (Move.fail stands nofun (fun _ => .inl rfl) _).once
      · cases ran
        exact (Move.goOn stands rfl (by rfl) (.inl (by rfl))).once
  · cases ran
    exact (Move.fail stands nofun (fun _ => .inl rfl) _).once
  · cases ran
    exact (Move.call stands (by rfl)).once
  · cases ran
    exact (Move.fail stands nofun (fun _ => .inl rfl) _).once
  · -- the queue is opened; what follows is a step of its own
    rename_i request epoch batch
    have opened : Move prompt careful s _ := .opened stands batch
    have there : ({ s with objects := s.objects ++ [newSession s number request epoch batch] } :
        World).objects[s.objects.length]? = some (newSession s number request epoch batch) := by simp
    have waits := At.setRun (s := { s with objects := s.objects ++ [newSession s number request epoch batch] })
      stands (.openRetain s.objects.length)
    dsimp only at ran
    split at ran
    · cases ran
      refine opened.once.tail ?_
      rw [← insert_setRun (.openRetain s.objects.length)]
      exact insert_moves waits there _
    · split at ran
      · cases ran
        refine opened.once.tail ?_
        rw [← insert_setRun (.openRetain s.objects.length)]
        exact insert_moves waits there _
      · cases ran
        exact opened.once
  · obtain ⟨session, here, ran⟩ := Option.bind_eq_some_iff.mp ran
    cases ran
    exact (insert_moves stands here _).once
  · obtain ⟨session, here, ran⟩ := Option.bind_eq_some_iff.mp ran
    cases ran
    exact (Move.retain stands here _).once.tail (insert_moves stands.setSession (found_setSession here) _)
  · obtain ⟨session, here, ran⟩ := Option.bind_eq_some_iff.mp ran
    split at ran
    · cases ran
    · rename_i free
      cases ran
      exact (Move.close stands here (by simpa using free)).once
  · obtain ⟨session, here, ran⟩ := Option.bind_eq_some_iff.mp ran
    cases ran
    exact (Move.closed stands here).once
  · cases ran

private theorem abandon_setRun (run : Run) : abandon (setRun s number run) number id session error =
      abandon s number id session error := by
  simp [abandon, setSession_setRun]

private theorem abandon_setSession {other : Session} : abandon (setSession s id other) number id session error =
      abandon s number id session error := by
  simp [abandon]

private theorem refuse_moves {request : NextRequest} {state : String} {retained : List Int}
    (stands : At s number (.nextCalled request state retained))
    (found : s.objects[request.session]? = some session) (batch : QueueBatch) (error : RadioError)
    (kept : careful → batch.state = session.data.batch.state) : Moves prompt careful s
      (abandon s number request.session { session with returned := batch.state } error) := by
  have returned : Move prompt careful s _ := .returned stands found batch
  refine returned.once.tail ?_
  rw [← abandon_setSession, ← abandon_setRun (.nextRetain request state batch)]
  refine .abandon (.setRun stands.setSession _) rfl (found_setSession found) _ ?_
  rintro claim _ _ _ ⟨⟩
  exact kept claim

private theorem resumeNext_moves {input : Input} (found : s.started[number]? = some operation)
    (allowed : careful → Careful s (.resume number input))
    (ran : resumeNext s number operation.run input = some t) : Moves prompt careful s t := by
  have stands : At s number operation.run := ⟨operation, found, rfl⟩
  have kept : ∀ batch request state retained, careful → input = .batch (.ok batch) →
      operation.run = .nextCalled request state retained → Refused s request batch →
      Unchanged s request.session batch := by
    rintro batch request state retained claim rfl same refused
    have kept := allowed claim operation found
    rw [same] at kept
    exact kept refused
  have lost : ∀ error request state batch, careful → input = .retained (.error error) →
      operation.run = .nextRetain request state batch → Unchanged s request.session batch := by
    rintro error request state batch claim rfl same
    have kept := allowed claim operation found
    rwa [same] at kept
  clear allowed
  generalize operation.run = run at stands ran kept lost
  unfold resumeNext at ran
  split at ran
  · obtain ⟨session, here, ran⟩ := Option.bind_eq_some_iff.mp ran
    split at ran
    · cases ran
    · rename_i free
      split at ran
      · cases ran
        exact (Move.fail stands nofun (fun _ => .inl rfl) _).once
      · rename_i live
        split at ran
        · cases ran
          exact (Move.fail stands nofun (fun _ => .inl rfl) _).once
        · rename_i version
          split at ran
          · cases ran
            exact (Move.fail stands nofun (fun _ => .inl rfl) _).once
          · cases ran
            exact (Move.hold stands here (by simpa using free) (by simpa using live)
              (by simpa using version) _).once
  · obtain ⟨session, here, ran⟩ := Option.bind_eq_some_iff.mp ran
    cases ran
    exact (Move.abandon stands rfl here _ (fun _ => nofun)).once
  · rename_i request state retained batch
    obtain ⟨session, here, ran⟩ := Option.bind_eq_some_iff.mp ran
    have refuse (error : RadioError) (refused : valid s session = true →
        (validateBatch batch false ≠ .ok () ∨
          batch.configuration.same session.data.batch.configuration = false ∨
          request.target.provider.id = none)) (live : valid s session = true) :
        Moves prompt careful s
          (abandon s number request.session { session with returned := batch.state } error) :=
      refuse_moves stands here batch error fun claim =>
        kept batch request state retained claim rfl rfl ⟨session, here, live, refused live⟩ session here
    have same : valid s { session with returned := batch.state } = valid s session := rfl
    dsimp only at ran
    rw [same] at ran
    split at ran
    · rename_i dead
      cases ran
      have returned : Move prompt careful s _ := .returned stands here batch
      refine returned.once.tail ?_
      rw [keepState, ← abandon_setSession, ← abandon_setRun (.nextRetain request state batch)]
      exact .keepState (.setRun stands.setSession _) (found_setSession here)
        (same.trans (by simpa using dead))
    · rename_i live
      have live : valid s session = true := by simpa using live
      split at ran
      · rename_i error invalid
        cases ran
        exact refuse error (fun _ => .inl (by simp [invalid])) live
      · split at ran
        · rename_i differs
          cases ran
          exact refuse _ (fun _ => .inr (.inl (by simpa using differs))) live
        · split at ran
          · rename_i none
            cases ran
            exact refuse _ (fun _ => .inr (.inr none)) live
          · cases ran
            exact (Move.returned stands here batch).once
  · rename_i request state batch error
    obtain ⟨session, here, ran⟩ := Option.bind_eq_some_iff.mp ran
    cases ran
    refine (Move.abandon stands rfl here _ ?_).once
    rintro claim _ _ _ ⟨⟩
    exact lost error request state batch claim rfl rfl session here
  · rename_i request state batch items
    obtain ⟨session, here, ran⟩ := Option.bind_eq_some_iff.mp ran
    split at ran
    · rename_i dead
      cases ran
      exact (Move.keepState stands here (by simpa using dead)).once
    · rename_i live
      cases ran
      exact (Move.commit stands here (by simpa using live) items).once
  · cases ran

private theorem cut_moves (found : s.started[number]? = some operation)
    (allowed : careful → Careful s (.cut number)) (error : RadioError) :
    Moves prompt careful s (fail (unlockRun s operation.run) number error) := by
  have stands : At s number operation.run := ⟨operation, found, rfl⟩
  have allowed : careful → _ := fun claim => allowed claim operation found
  generalize operation.run = run at stands allowed
  cases holds : run.holds with
  | none =>
    rw [unlockRun, holds]
    refine (Move.fail stands (by simp [holds]) (fun claim => .inl ?_) error).once
    cases run with
    | openRetain | openRelease => exact (allowed claim).elim
    | openClosing | nextCalled | nextRetain => cases holds
    | _ => rfl
  | some id =>
    rw [unlockRun, holds, Option.elim_some]
    cases there : s.objects[id]? with
    | none =>
      rw [unlock_absent there]
      refine (Move.fail stands ?_ (fun _ => .inr (by simp [holds])) error).once
      rintro other same
      cases holds.symm.trans same
      exact there
    | some session =>
      rw [unlock_eq there]
      refine (Move.abandon stands holds there error ?_).once
      rintro claim request state batch rfl
      cases holds
      exact allowed claim session there

private theorem operation_moves {request : Request} (asked : s.requests[number]? = some request)
    (allowed : prompt → ∀ id call, request.call = .opening id call → Remembered s (.opening id)) :
    Moves prompt careful s (request.call.operation s).1 := by
  have lookups (key : Key) (fingerprint : Fingerprint) (provider : Provider) (run : Run)
      (starts : Starts s key run) (remembered : prompt → ∀ id, key = .opening id → Remembered s key) :
      Moves prompt careful s (operation s key fingerprint provider run).1 := by
    unfold operation
    split
    · exact .refl
    · dsimp only
      split
      · split
        · exact Move.purge.once
        · repeat' split
          all_goals exact Move.purge.once
      · rename_i absent
        split
        · exact Move.purge.once
        · have started : Move prompt careful (purge s) _ := .start
            { key, provider, epoch := s.epoch provider, fingerprint, created := s.instant, result := none, run }
            absent rfl rfl starts remembered
          exact Move.purge.once.tail started
  cases called : request.call with
  | opening id call =>
    refine lookups _ _ _ _ (.inl ⟨id, _, rfl, rfl⟩) fun claim other same => ?_
    cases same
    exact allowed claim id call called
  | next id call =>
    exact lookups _ _ _ _ (.inr ⟨id, call, rfl, rfl, request, List.mem_of_getElem? asked, called⟩) nofun

private theorem answer_moves (call : Call) (page : Page) :
    Moves prompt careful s (call.answer s page).1 := by
  cases call with
  | opening id request => exact .refl
  | next id request =>
    simp only [Call.answer]
    split
    · exact .refl
    · rename_i u touched
      obtain ⟨-, session, here, rfl⟩ := sessionFor_touch touched
      exact (Move.touch here).once

/-- A step is a sequence of moves, prompt and careful when the step is. -/
theorem step_moves {a : Action} (ran : step isUuid s a = some t) (timely : prompt → Prompt s a)
    (allowed : careful → Careful s a) : Moves prompt careful s t := by
  cases a with
  | tick elapsed =>
    cases ran
    exact (Move.clock s.wall (Nat.le_add_right _ _)).once
  | setClock wall =>
    cases ran
    exact (Move.clock wall le_rfl).once
  | addProvider provider =>
    obtain ⟨id, known, ran⟩ := Option.bind_eq_some_iff.mp ran
    cases ran
    exact (Move.register id (some provider)).once
  | removeProvider id =>
    cases ran
    exact (Move.register id none).once
  | renew provider =>
    cases ran
    exact (Move.renew provider).once
  | request call =>
    simp only [step] at ran
    split at ran
    · split at ran
      · cases ran
        exact .refl
      · cases ran
        exact (Move.ask _ (by simp)).once
    · split at ran
      · cases ran
        exact .refl
      · rename_i id request accepted
        split at ran
        · cases ran
          exact .refl
        · rename_i u touched
          cases ran
          obtain ⟨listed, session, here, rfl⟩ := sessionFor_touch touched
          refine (Move.touch here).once.tail (.ask _ ?_)
          rintro _ _ ⟨⟩
          exact listed
  | enter number =>
    obtain ⟨request, asked, ran⟩ := Option.bind_eq_some_iff.mp ran
    have moves : Moves prompt careful s (request.call.operation s).1 := operation_moves asked
      fun claim id call called => by
        have timely := timely claim request asked
        rwa [called] at timely
    split at ran
    · split at ran
      all_goals
        rename_i same
        cases ran
        rw [same] at moves
        exact moves.tail (.stage _ _)
    · cases ran
  | answer number =>
    obtain ⟨request, asked, ran⟩ := Option.bind_eq_some_iff.mp ran
    split at ran
    · obtain ⟨found, there, ran⟩ := Option.bind_eq_some_iff.mp ran
      obtain ⟨result, settled, ran⟩ := Option.bind_eq_some_iff.mp ran
      split at ran
      · cases ran
        exact (Move.stage _ _).once
      · split at ran
        · cases ran
          exact (Move.stage _ _).once
        · rename_i page
          cases ran
          exact (answer_moves request.call page).tail (.stage _ _)
    · cases ran
  | resume number input =>
    obtain ⟨operation, found, ran⟩ := Option.bind_eq_some_iff.mp ran
    cases opening : resumeOpen s number operation.run input with
    | none =>
      rw [opening] at ran
      exact resumeNext_moves found allowed ran
    | some u =>
      rw [opening] at ran
      cases ran
      exact resumeOpen_moves found opening
  | cut number =>
    obtain ⟨operation, found, ran⟩ := Option.bind_eq_some_iff.mp ran
    split at ran
    · cases ran
    · cases ran
      exact cut_moves found allowed _
  | close id | collect | invalidate provider =>
    cases ran
    exact (Move.take _ _).once
  | stop =>
    cases ran
    exact Move.stop.once
  | release number =>
    obtain ⟨closer, stands, ran⟩ := Option.bind_eq_some_iff.mp ran
    split at ran
    · rename_i id rest stage pending
      obtain ⟨session, here, ran⟩ := Option.bind_eq_some_iff.mp ran
      split at ran
      · rename_i done
        cases ran
        exact (Move.skip stands stage pending here done).once
      · rename_i first
        cases ran
        exact (Move.swap stands stage pending here (by simpa using first)).once
    · cases ran
  | lock number =>
    obtain ⟨closer, stands, ran⟩ := Option.bind_eq_some_iff.mp ran
    split at ran
    · rename_i id stage
      obtain ⟨session, here, ran⟩ := Option.bind_eq_some_iff.mp ran
      split at ran
      · cases ran
      · rename_i free
        cases ran
        exact (Move.lock stands stage here (by simpa using free)).once
    · cases ran
  | closed number =>
    obtain ⟨closer, stands, ran⟩ := Option.bind_eq_some_iff.mp ran
    split at ran
    · rename_i id stage
      obtain ⟨session, here, ran⟩ := Option.bind_eq_some_iff.mp ran
      cases ran
      exact (Move.unlock stands stage here none).once
    · cases ran
  | purge number =>
    obtain ⟨closer, stands, ran⟩ := Option.bind_eq_some_iff.mp ran
    split at ran
    · cases ran
      have there : (RadioSessions.purge s).closers[number]? = some closer := stands
      have flagged : Move prompt careful (RadioSessions.purge s) _ := .flag there false
      exact Move.purge.once.tail flagged
    · cases ran
  | abort number =>
    obtain ⟨closer, stands, ran⟩ := Option.bind_eq_some_iff.mp ran
    cases ran
    have allowed := fun claim => allowed claim closer stands
    cases stage : closer.stage with
    | closing id =>
      cases there : s.objects[id]? with
      | none =>
        dsimp only
        rw [unlock_absent there]
        exact (Move.abort stands (fun other same => by cases stage.symm.trans same; exact there) allowed).once
      | some session =>
        have freed : Move prompt careful s _ := .unlock stands stage there session.items
        have idle : (setCloser (setSession s id { session with locked := none }) number
            { closer with stage := .idle }).closers[number]? = some { closer with stage := .idle } := by
          obtain ⟨bound, -⟩ := List.getElem?_eq_some_iff.mp stands
          simp [setCloser, setSession, bound]
        have gone : Move prompt careful _ _ := .abort idle nofun fun claim => ⟨(allowed claim).1, nofun⟩
        dsimp only
        rw [unlock_eq there]
        simpa [setCloser] using freed.once.tail gone
    | _ => exact (Move.abort stands (by simp [stage]) allowed).once

/-- The states of the runs whose steps all meet the guard. -/
abbrev Reached (isUuid : List Char → Bool) (guard : World → Action → Prop) : World → Prop :=
  Reach World.Initial guard fun s a t => step isUuid s a = some t

/-- What holds at the start and is kept by every move holds in every run. -/
theorem reached_invariant (prompt careful : Prop) {guard : World → Action → Prop} {Inv : World → Prop}
    (reached : Reached isUuid guard s)
    (timely : prompt → ∀ s a, guard s a → Prompt s a) (allowed : careful → ∀ s a, guard s a → Careful s a)
    (base : ∀ s, s.Initial → Inv s) (keep : ∀ s t, Move prompt careful s t → Inv s → Inv t) : Inv s := by
  refine reached.invariant base fun s a t held guarded ran => ?_
  have moves : Moves prompt careful s t :=
    step_moves ran (fun claim => timely claim s a guarded) fun claim => allowed claim s a guarded
  clear ran
  induction moves with
  | refl => exact held
  | tail _ move ih => exact keep _ _ move ih

def sample : World :=
  { wall := 0, instant := 0, epoch := fun _ => 0, registry := fun _ => none, stopped := false, sessions := [],
    objects := [], operations := [], started := [], requests := [], closers := [], opens := [], pages := [] }

def sampleTarget : Target := ⟨2, "radio", ⟨0, some 1⟩⟩

def sampleUuid : String := "67e55044-10b1-426f-9247-bb680e5fe0c8"

def isSampleUuid (text : List Char) : Bool := text = sampleUuid.toList

/-- An operation id that is 30 seconds ahead of the clock. -/
def sampleId : String := "30000:" ++ sampleUuid

def askOpen : Action :=
  .request (.opening sampleId
    { target := sampleTarget, previousId := none, configuration := [], input := none, reason := .initial,
      previousState := none })

def sampleBatch (state : String) : QueueBatch := ⟨[⟨7, true⟩], state, [], none, false⟩

/-- A request opens the queue; its session is not yet in the table. -/
def openQueue : List Action :=
  [.addProvider sampleTarget.provider, askOpen, .enter 0, .resume 0 .go, .resume 0 (.definition (.ok [])),
    .resume 0 (.batch (.ok (sampleBatch "first")))]

/-- A request opens the queue, and its session goes into the table. -/
def firstOpen : List Action := openQueue ++ [.resume 0 (.retained (.ok []))]

/-- The next page of that session is asked for. -/
def askNext (expectedVersion : Nat) : Action :=
  .request (.next sampleId
    { target := sampleTarget, session := 0, expectedVersion, currentNativeIds := [] })

end Qcm.RadioMoves
