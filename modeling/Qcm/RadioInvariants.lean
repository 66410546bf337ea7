import Qcm.RadioMoves

/-!
What holds of the sessions in every run: who holds the lock of a session is the
task that says so, and a session that was ever in the table and is no longer
valid will never be valid again.
-/

namespace Qcm.RadioInvariants

open RadioSessions RadioMoves

variable {s t : World} {prompt careful : Prop} {number : Nat} {id : SessionId} {session : Session}

def runOf (s : World) (number : Nat) : Run :=
  ((s.started[number]?).map Operation.run).getD .done

def stageOf (s : World) (number : Nat) : Release :=
  ((s.closers[number]?).map Closer.stage).getD .idle

variable {run : Run} {closer : Closer} {after next : Session}

theorem At.runOf_eq (stands : At s number run) : runOf s number = run := by
  obtain ⟨operation, found, rfl⟩ := stands
  simp [runOf, found]

theorem runOf_setRun (stands : At s number run) (after : Run) :
    runOf (setRun s number after) = Function.update (runOf s) number after := by
  obtain ⟨operation, found, rfl⟩ := stands
  funext other
  by_cases same : other = number
  · subst same
    simp [runOf, setRun, found]
  · simp [runOf, setRun, same, Ne.symm same]

theorem runOf_finish (stands : At s number run) (result : Except RadioError Page) :
    runOf (finish s number result) = Function.update (runOf s) number .done := by
  obtain ⟨operation, found, rfl⟩ := stands
  funext other
  by_cases same : other = number
  · subst same
    simp [runOf, finish, found]
  · simp [runOf, finish, same, Ne.symm same]

theorem runOf_append (created : Operation) :
    runOf { s with operations := (created.key, s.started.length) :: s.operations, started := s.started ++ [created] } =
      Function.update (runOf s) s.started.length created.run := by
  funext other
  rcases Nat.lt_trichotomy other s.started.length with inside | rfl | outside
  · simp [runOf, List.getElem?_append_left inside, Nat.ne_of_lt inside]
  · simp [runOf]
  · have beyond : (s.started ++ [created])[other]? = none := by simp; omega
    have none : s.started[other]? = none := by simp; omega
    simp [runOf, beyond, none, Nat.ne_of_gt outside]

theorem stageOf_setCloser (stands : s.closers[number]? = some closer) (after : Closer) :
    stageOf (setCloser s number after) = Function.update (stageOf s) number after.stage := by
  obtain ⟨bound, rfl⟩ := List.getElem?_eq_some_iff.mp stands
  funext other
  by_cases same : other = number
  · subst same
    simp [stageOf, setCloser, bound]
  · simp [stageOf, setCloser, same, Ne.symm same]

theorem stageOf_eq (stands : s.closers[number]? = some closer) : stageOf s number = closer.stage := by
  simp [stageOf, stands]

theorem stageOf_take (chosen : SessionId → Bool) (purges : Bool) : stageOf (take s chosen purges) = stageOf s := by
  funext other
  rcases Nat.lt_trichotomy other s.closers.length with inside | rfl | outside
  · simp [stageOf, take, List.getElem?_append_left inside]
  · simp [stageOf, take]
  · have beyond : (s.closers ++ [(⟨s.sessions.filter chosen, .idle, purges⟩ : Closer)])[other]? = none := by
      simp; omega
    have none : s.closers[other]? = none := by simp; omega
    simp [stageOf, take, beyond, none]

theorem objects_setSession {before : Session} (found : s.objects[id]? = some before) (other : SessionId) :
    (setSession s id session).objects[other]? = if other = id then some session else s.objects[other]? := by
  obtain ⟨bound, rfl⟩ := List.getElem?_eq_some_iff.mp found
  by_cases same : other = id
  · subst same
    simp [setSession, bound]
  · simp [setSession, same, Ne.symm same]

theorem objects_append (other : SessionId) :
    (s.objects ++ [session])[other]? = if other = s.objects.length then some session else s.objects[other]? := by
  rcases Nat.lt_trichotomy other s.objects.length with inside | rfl | outside
  · simp [List.getElem?_append_left inside, Nat.ne_of_lt inside]
  · simp
  · have beyond : (s.objects ++ [session])[other]? = none := by simp; omega
    have none : s.objects[other]? = none := by simp; omega
    simp [beyond, none, Nat.ne_of_gt outside]

/-! ## Locks -/

/-- The session whose lock a task says it holds. -/
def holding (s : World) : Holder → Option SessionId
  | .operation number => (runOf s number).holds
  | .closer number =>
    match stageOf s number with
    | .closing id => some id
    | _ => none

/-- Who holds a lock is written down in the session. -/
def Locks (s : World) : Prop :=
  ∀ holder id, holding s holder = some id →
    ∃ session, s.objects[id]? = some session ∧ session.locked = some holder

private theorem Locks.keep (locks : Locks s)
    (runs : ∀ holder, holding t holder = holding s holder ∨ holding t holder = none)
    (cells : ∀ (id : SessionId) (session : Session), s.objects[id]? = some session →
      ∃ after : Session, t.objects[id]? = some after ∧ after.locked = session.locked) : Locks t := by
  intro holder id held
  rcases runs holder with same | none
  · obtain ⟨session, found, locked⟩ := locks holder id (same ▸ held)
    obtain ⟨after, there, kept⟩ := cells id session found
    exact ⟨after, there, kept.trans locked⟩
  · rw [none] at held
    cases held

private theorem Locks.acquire (locks : Locks s) {holder : Holder} {after : Session}
    (found : s.objects[id]? = some session) (free : session.locked = none) (takes : holding t holder = some id)
    (others : ∀ other, other ≠ holder → holding t other = holding s other)
    (cells : ∀ place, t.objects[place]? = if place = id then some after else s.objects[place]?)
    (locked : after.locked = some holder) : Locks t := by
  intro other place held
  by_cases same : other = holder
  · subst same
    cases takes.symm.trans held
    exact ⟨after, by simp [cells], locked⟩
  · rw [others other same] at held
    obtain ⟨old, there, own⟩ := locks other place held
    by_cases here : place = id
    · subst here
      cases found.symm.trans there
      cases free.symm.trans own
    · exact ⟨old, by simp [cells, here, there], own⟩

private theorem Locks.free (locks : Locks s) {holder : Holder} (held : holding s holder = some id)
    (gives : holding t holder = none) (others : ∀ other, other ≠ holder → holding t other = holding s other)
    (cells : ∀ place, t.objects[place]? = if place = id then some after else s.objects[place]?) : Locks t := by
  intro other place takes
  by_cases same : other = holder
  · subst same
    cases gives.symm.trans takes
  · rw [others other same] at takes
    obtain ⟨old, there, own⟩ := locks other place takes
    by_cases here : place = id
    · subst here
      obtain ⟨session, found, locked⟩ := locks holder place held
      cases found.symm.trans there
      cases locked.symm.trans own
      exact absurd rfl same
    · exact ⟨old, by simp [cells, here, there], own⟩

private theorem holding_operation (runs : runOf t = Function.update (runOf s) number run)
    (stages : stageOf t = stageOf s) : holding t (.operation number) = run.holds ∧
      ∀ other, other ≠ .operation number → holding t other = holding s other := by
  refine ⟨by simp [holding, runs], fun other apart => ?_⟩
  cases other with
  | operation place =>
    have apart : place ≠ number := fun same => apart (by rw [same])
    simp [holding, runs, apart]
  | closer place => simp [holding, stages]

private theorem holding_closer {after : Closer}
    (stages : stageOf t = Function.update (stageOf s) number after.stage) (runs : runOf t = runOf s) :
    (holding t (.closer number) = match after.stage with | .closing id => some id | _ => none) ∧
      ∀ other, other ≠ .closer number → holding t other = holding s other := by
  refine ⟨by simp [holding, stages], fun other apart => ?_⟩
  cases other with
  | operation place => simp [holding, runs]
  | closer place =>
    have apart : place ≠ number := fun same => apart (by rw [same])
    simp [holding, stages, apart]

private theorem Locks.touch (locks : Locks s) (found : s.objects[id]? = some session)
    (kept : after.locked = session.locked) : Locks (setSession s id after) := by
  refine locks.keep (fun holder => .inl rfl) fun place old there => ?_
  rw [objects_setSession found]
  split
  · rename_i same
    subst same
    cases found.symm.trans there
    exact ⟨after, rfl, kept⟩
  · exact ⟨old, there, rfl⟩

section

variable (locks : Locks s) (stands : At s number run)
include locks stands

private theorem Locks.setRun {after : Run} (rests : after.holds = none) : Locks (setRun s number after) := by
  obtain ⟨own, others⟩ := holding_operation (runOf_setRun stands after) rfl
  refine locks.keep (fun holder => ?_) fun place old there => ⟨old, there, rfl⟩
  by_cases mine : holder = .operation number
  · exact .inr (by rw [mine, own, rests])
  · exact .inl (others holder mine)

private theorem Locks.finish (result : Except RadioError Page) : Locks (finish s number result) := by
  obtain ⟨own, others⟩ := holding_operation (runOf_finish stands result) rfl
  refine locks.keep (fun holder => ?_) fun place old there => ⟨old, there, rfl⟩
  by_cases mine : holder = .operation number
  · exact .inr (by rw [mine, own]; rfl)
  · exact .inl (others holder mine)

private theorem Locks.hold {after : Run} (found : s.objects[id]? = some session)
    (free : session.locked = none) (mine : next.locked = some (.operation number))
    (takes : after.holds = some id) : Locks (RadioSessions.setRun (setSession s id next) number after) := by
  obtain ⟨own, others⟩ :=
    holding_operation (runOf_setRun (s := setSession s id next) stands after) rfl
  exact locks.acquire found free (own.trans takes) others (objects_setSession found) mine

private theorem Locks.give (holds : run.holds = some id) (found : s.objects[id]? = some session)
    (result : Except RadioError Page) :
    Locks (RadioSessions.finish (setSession s id next) number result) := by
  obtain ⟨own, others⟩ :=
    holding_operation (runOf_finish (s := setSession s id next) stands result) rfl
  exact locks.free (by rw [holding, At.runOf_eq stands, holds]) own others (objects_setSession found)

end

private theorem Locks.setCloser (locks : Locks s) {after : Closer}
    (stands : s.closers[number]? = some closer)
    (rests : after.stage = closer.stage ∨ ∀ id, after.stage ≠ .closing id) : Locks (setCloser s number after) := by
  obtain ⟨own, others⟩ := holding_closer (stageOf_setCloser stands after) rfl
  refine locks.keep (fun holder => ?_) fun place old there => ⟨old, there, rfl⟩
  by_cases mine : holder = .closer number
  · rw [mine, own]
    rcases rests with same | idle
    · exact .inl (by rw [same, holding, stageOf_eq stands])
    · right
      split
      · rename_i id same
        exact absurd same (idle id)
      · rfl
  · exact .inl (others holder mine)

theorem locks_move (move : Move prompt careful s t) (locks : Locks s) : Locks t := by
  cases move with
  | register id value => cases s.registry id <;> exact locks
  | touch found => exact locks.touch found rfl
  | start created absent now unanswered starts remembered =>
    have rests : created.run.holds = none := by
      rcases starts with ⟨_, _, -, run⟩ | ⟨_, _, -, run, -⟩ <;> rw [run] <;> rfl
    obtain ⟨own, others⟩ := holding_operation (runOf_append (s := s) created) rfl
    refine locks.keep (fun holder => ?_) fun place old there => ⟨old, there, rfl⟩
    by_cases mine : holder = .operation s.started.length
    · exact .inr (by rw [mine, own, rests])
    · exact .inl (others holder mine)
  | fail stands free kept error => exact locks.finish stands _
  | goOn stands first second epoch =>
    rename_i after
    refine locks.setRun stands ?_
    cases after <;> first | rfl | cases second
  | call stands same => exact locks.setRun (s := { s with opens := s.opens ++ [_] }) stands rfl
  | opened stands batch =>
    rename_i number request epoch
    have grown : Locks { s with objects := s.objects ++ [newSession s number request epoch batch] } := by
      refine locks.keep (fun holder => .inl rfl) fun place old there => ⟨old, ?_, rfl⟩
      have bound := (List.getElem?_eq_some_iff.mp there).1
      rw [List.getElem?_append_left bound, there]
    exact grown.setRun stands rfl
  | retain stands found items => exact locks.touch found rfl
  | insert stands found live room =>
    rename_i number id session
    have listed : Locks { s with sessions := id :: s.sessions } := locks
    exact (listed.touch found (by rfl)).finish stands _
  | release stands found error =>
    unfold release
    split
    · exact locks.finish stands _
    · exact (locks.touch found (by rfl)).setRun stands.setSession rfl
  | close stands found free => exact locks.hold stands found free rfl rfl
  | closed stands found => exact locks.give stands rfl found _
  | hold stands found free live version retained => exact locks.hold stands found free rfl rfl
  | returned stands found batch =>
    rename_i number request state retained session
    have touched : Locks (setSession s request.session { session with returned := batch.state }) :=
      locks.touch found rfl
    obtain ⟨own, others⟩ := holding_operation
      (runOf_setRun (s := setSession s request.session { session with returned := batch.state }) stands
        (.nextRetain request state batch)) rfl
    refine touched.keep (fun holder => .inl ?_) fun place old there => ⟨old, there, rfl⟩
    by_cases mine : holder = .operation number
    · rw [mine, own, holding, At.runOf_eq (stands.setSession)]
      rfl
    · exact others holder mine
  | abandon stands holds found error kept => exact locks.give stands holds found _
  | keepState stands found dead => exact locks.give stands rfl found _
  | commit stands found live items =>
    rename_i number request state batch session
    have given (next : Session) (page : Page) :
        Locks (finish (setSession s request.session next) number (.ok page)) := locks.give stands rfl found _
    exact given _ _
  | take chosen purges =>
    refine locks.keep (fun holder => .inl ?_) fun place old there => ⟨old, there, rfl⟩
    cases holder with
    | operation place => rfl
    | closer place => simp [holding, stageOf_take]
  | skip stands stage pending found done => exact locks.setCloser stands (.inl rfl)
  | swap stands stage pending found first =>
    exact (locks.touch found (by rfl)).setCloser stands (.inr nofun)
  | lock stands stage found free =>
    rename_i number closer id session
    have stages (next : Session) := stageOf_setCloser (s := setSession s id next) stands
      { closer with stage := .closing id }
    obtain ⟨own, others⟩ := holding_closer (stages _) rfl
    exact locks.acquire found free own others (objects_setSession found) rfl
  | unlock stands stage found items =>
    rename_i number closer id session
    have stages (next : Session) := stageOf_setCloser (s := setSession s id next) stands
      { closer with stage := .idle }
    obtain ⟨own, others⟩ := holding_closer (stages { session with locked := none, items := items }) rfl
    exact locks.free (by rw [holding, stageOf_eq stands, stage]) own others (objects_setSession found)
  | flag stands purges => exact locks.setCloser stands (.inl rfl)
  | abort stands free kept => exact locks.setCloser stands (.inr nofun)
  | _ => exact locks

/-! ## Validity -/

/-- A session is invalid for a reason that does not go away. -/
def Dead (s : World) (session : Session) : Prop :=
  s.stopped = true ∨ session.closed ≠ none ∨ session.epoch ≠ s.epoch session.target.provider

theorem valid_eq_true : valid s session = true ↔
    ¬ Dead s session ∧ validateProvider s session.target.provider = true := by
  simp [valid, Dead, and_assoc]

/-- The request of a future of `next`. -/
def nextOf : Run → Option NextRequest
  | .nextStart request => some request
  | .nextCalled request _ _ => some request
  | .nextRetain request _ _ => some request
  | _ => none

/-- The session has been in the table. -/
def Inserted (s : World) (id : SessionId) : Prop :=
  ∃ session, s.objects[id]? = some session ∧ session.inserted = true

/-- Epochs only grow, and a provider leaves the registry with a new epoch: a
session that has been in the table stays valid for its provider or is dead. -/
structure Life (s : World) : Prop where
  epochs : ∀ number provider epoch, epochOf (runOf s number) = some (provider, epoch) →
    epoch ≤ s.epoch provider
  born : ∀ (id : SessionId) (session : Session), s.objects[id]? = some session →
    session.epoch ≤ s.epoch session.target.provider
  settled : ∀ (id : SessionId) (session : Session), s.objects[id]? = some session → session.inserted = true →
    Dead s session ∨ validateProvider s session.target.provider = true
  listed : ∀ id ∈ s.sessions, Inserted s id
  asked : ∀ request ∈ s.requests, ∀ id call, request.call = .next id call → Inserted s call.session
  nexts : ∀ number request, nextOf (runOf s number) = some request → Inserted s request.session

theorem Life.dead (life : Life s) (found : s.objects[id]? = some session) (inserted : session.inserted = true)
    (invalid : valid s session = false) : Dead s session := by
  rcases life.settled id session found inserted with dead | registered
  · exact dead
  · by_contra alive
    simp [valid_eq_true.mpr ⟨alive, registered⟩] at invalid

/-- The providers change: no epoch goes back, and who leaves the registry has a new one. -/
private theorem Life.environment (life : Life s) {epoch : Provider → Nat} {registry : Int → Option Provider}
    {stopped : Bool} (grows : ∀ provider, s.epoch provider ≤ epoch provider)
    (leaves : ∀ provider, validateProvider s provider = true → provider.id.bind registry ≠ some provider →
      s.epoch provider < epoch provider)
    (stops : s.stopped = true → stopped = true) :
    Life { s with epoch := epoch, registry := registry, stopped := stopped } := by
  refine ⟨fun number provider old remembered => (life.epochs number provider old remembered).trans (grows _),
    fun id session found => (life.born id session found).trans (grows _), fun id session found inserted => ?_,
    life.listed, life.asked, life.nexts⟩
  have young := life.born id session found
  rcases life.settled id session found inserted with (stopped | closed | old) | registered
  · exact .inl (.inl (stops stopped))
  · exact .inl (.inr (.inl closed))
  · have later := grows session.target.provider
    exact .inl (.inr (.inr (by simp only; omega)))
  · by_cases stays : session.target.provider.id.bind registry = some session.target.provider
    · exact .inr (by simpa [validateProvider] using stays)
    · have later := leaves _ registered stays
      exact .inl (.inr (.inr (by simp only; omega)))

private theorem Life.touch (life : Life s) (found : s.objects[id]? = some session)
    (target : after.target = session.target) (epoch : after.epoch = session.epoch)
    (closed : session.closed ≠ none → after.closed ≠ none)
    (kept : session.inserted = true → after.inserted = true)
    (comes : after.inserted = true → session.inserted = true ∨ validateProvider s session.target.provider = true) :
    Life (setSession s id after) := by
  have inserted {place : SessionId} (before : Inserted s place) : Inserted (setSession s id after) place := by
    obtain ⟨old, there, inserted⟩ := before
    by_cases same : place = id
    · subst same
      cases found.symm.trans there
      exact ⟨after, by simp [objects_setSession found], kept inserted⟩
    · exact ⟨old, by simp [objects_setSession found, same, there], inserted⟩
  refine ⟨life.epochs, fun place other there => ?_, fun place other there own => ?_,
    fun place member => inserted (life.listed place member),
    fun request member name call same => inserted (life.asked request member name call same),
    fun number request same => inserted (life.nexts number request same)⟩
  · rw [objects_setSession found] at there
    split at there
    · cases there
      rw [target, epoch]
      exact life.born id session found
    · exact life.born place other there
  · rw [objects_setSession found] at there
    split at there
    · cases there
      have settled : Dead s session ∨ validateProvider s session.target.provider = true :=
        (comes own).elim (life.settled id session found) Or.inr
      rw [target]
      refine settled.imp_left ?_
      rintro (stopped | shut | old)
      · exact .inl stopped
      · exact .inr (.inl (closed shut))
      · exact .inr (.inr (by rw [target, epoch]; exact old))
    · exact life.settled place other there own

private theorem Life.runs (life : Life s) (runs : runOf t = Function.update (runOf s) number run)
    (epochs : t.epoch = s.epoch) (registry : t.registry = s.registry) (stopped : t.stopped = s.stopped)
    (objects : t.objects = s.objects) (sessions : t.sessions = s.sessions)
    (requests : t.requests = s.requests)
    (epoch : ∀ provider epoch, epochOf run = some (provider, epoch) → epoch ≤ s.epoch provider)
    (next : ∀ request, nextOf run = some request → Inserted s request.session) : Life t := by
  have inserted {place : SessionId} (before : Inserted s place) : Inserted t place := by
    rwa [Inserted, objects]
  refine ⟨fun place provider old same => ?_, ?_, ?_, ?_, ?_, fun place request same => ?_⟩
  · rw [runs, Function.update_apply] at same
    rw [epochs]
    split at same
    · exact epoch provider old same
    · exact life.epochs place provider old same
  · rw [objects, epochs]
    exact life.born
  · rw [objects]
    intro place session there own
    have settled := life.settled place session there own
    rwa [Dead, validateProvider, stopped, epochs, registry]
  · rw [sessions]
    exact fun id member => inserted (life.listed id member)
  · rw [requests]
    exact fun request member name call same => inserted (life.asked request member name call same)
  · rw [runs, Function.update_apply] at same
    split at same
    · exact inserted (next request same)
    · exact inserted (life.nexts place request same)

private theorem Life.setRun (life : Life s) (stands : At s number run) (after : Run)
    (epoch : ∀ provider epoch, epochOf after = some (provider, epoch) → epoch ≤ s.epoch provider)
    (next : ∀ request, nextOf after = some request → Inserted s request.session) :
    Life (setRun s number after) :=
  life.runs (runOf_setRun stands after) rfl rfl rfl rfl rfl rfl epoch next

private theorem Life.finish (life : Life s) (stands : At s number run) (result : Except RadioError Page) :
    Life (finish s number result) :=
  life.runs (runOf_finish stands result) rfl rfl rfl rfl rfl rfl nofun nofun

/-- What a change of a session leaves as it is, unless the session is closed. -/
structure SameQueue (before after : Session) : Prop where
  target : after.target = before.target
  epoch : after.epoch = before.epoch
  inserted : after.inserted = before.inserted
  closed : before.closed ≠ none → after.closed ≠ none

private theorem Life.change (life : Life s) (found : s.objects[id]? = some session)
    (same : SameQueue session after) : Life (setSession s id after) :=
  life.touch found same.target same.epoch same.closed (fun own => same.inserted.trans own)
    fun own => .inl (same.inserted ▸ own)

private theorem Life.changeRun (life : Life s) {after : Run} (stands : At s number run)
    (found : s.objects[id]? = some session) (same : SameQueue session next) (young : epochOf after = none)
    (asks : nextOf after = nextOf run ∨ nextOf after = none) :
    Life (RadioSessions.setRun (setSession s id next) number after) := by
  have changed : Life (setSession s id next) := life.change found same
  refine changed.setRun stands after (by simp [young]) fun request asked => ?_
  rcases asks with kept | none
  · refine changed.nexts number request ?_
    rw [At.runOf_eq (s := setSession s id next) stands, ← kept, asked]
  · cases none.symm.trans asked

private theorem Life.changeFinish (life : Life s) (stands : At s number run)
    (found : s.objects[id]? = some session) (same : SameQueue session next)
    (result : Except RadioError Page) : Life (RadioSessions.finish (setSession s id next) number result) :=
  Life.finish (life.change found same) stands result

private theorem Life.changeCloser (life : Life s) (found : s.objects[id]? = some session)
    (same : SameQueue session next) : Life (setCloser (setSession s id next) number closer) := by
  obtain ⟨epochs, born, settled, listed, asked, nexts⟩ := life.change found same
  exact ⟨epochs, born, settled, listed, asked, nexts⟩

private theorem invalidate_grows (s : World) (provider other : Provider) :
    s.epoch other ≤ (invalidateProvider s provider).epoch other := by
  simp only [invalidateProvider, Function.update_apply]
  split
  · rename_i same
    rw [same]
    exact Nat.le_succ _
  · exact le_rfl

private theorem Life.register (life : Life s) (id : Int) (value : Option Provider) :
    Life ((s.registry id).elim
      { s with registry := Function.update s.registry id value }
      (invalidateProvider { s with registry := Function.update s.registry id value })) := by
  -- who is registered before and not after was registered under this id
  have leaves (provider : Provider) (registered : validateProvider s provider = true)
      (gone : provider.id.bind (Function.update s.registry id value) ≠ some provider) :
      s.registry id = some provider := by
    have registered : provider.id.bind s.registry = some provider := by simpa [validateProvider] using registered
    obtain ⟨own, known, here⟩ := Option.bind_eq_some_iff.mp registered
    by_cases same : own = id
    · exact same ▸ here
    · rw [known, Option.bind_some, Function.update_of_ne same] at gone
      exact absurd here gone
  cases old : s.registry id with
  | none =>
    refine life.environment (fun _ => le_rfl) (fun provider registered gone => ?_) fun stopped => stopped
    cases old.symm.trans (leaves provider registered gone)
  | some former =>
    refine life.environment (invalidate_grows s former) (fun provider registered gone => ?_) fun stopped => stopped
    cases old.symm.trans (leaves provider registered gone)
    simp

/-- No epoch goes back, and a stop is for good. -/
theorem Move.grows (move : Move prompt careful s t) :
    (∀ provider, s.epoch provider ≤ t.epoch provider) ∧ (s.stopped = true → t.stopped = true) := by
  have still : (∀ provider, s.epoch provider ≤ s.epoch provider) ∧ (s.stopped = true → s.stopped = true) :=
    ⟨fun _ => le_rfl, fun stopped => stopped⟩
  cases move with
  | renew provider => exact ⟨invalidate_grows s provider, fun stopped => stopped⟩
  | register id value =>
    cases s.registry id with
    | none => exact still
    | some former => exact ⟨invalidate_grows s former, fun stopped => stopped⟩
  | stop => exact ⟨fun _ => le_rfl, fun _ => rfl⟩
  | release stands found error =>
    unfold release
    split <;> exact still
  | _ => exact still

theorem Dead.move (move : Move prompt careful s t) (life : Life s) (found : s.objects[id]? = some session)
    (dead : Dead s session) : Dead t session := by
  obtain ⟨grows, stops⟩ := Move.grows move
  rcases dead with stopped | shut | old
  · exact .inl (stops stopped)
  · exact .inr (.inl shut)
  · have young := life.born id session found
    have later := grows session.target.provider
    exact .inr (.inr (by omega))

theorem locks_initial (fresh : s.Initial) : Locks s := by
  obtain ⟨-, -, -, -, started, -, closers, -, -⟩ := fresh
  intro holder id held
  cases holder <;> simp [holding, runOf, stageOf, started, closers, Run.holds] at held

theorem life_initial (fresh : s.Initial) : Life s := by
  obtain ⟨-, sessions, objects, -, started, requests, closers, -, -⟩ := fresh
  constructor <;> simp [sessions, objects, requests, runOf, started, epochOf, nextOf]

theorem life_move (move : Move prompt careful s t) (life : Life s) : Life t := by
  cases move with
  | renew provider =>
    refine life.environment (invalidate_grows s provider) (fun other registered gone => ?_) fun stopped => stopped
    exact absurd (by simpa [validateProvider] using registered) gone
  | register id value => exact life.register id value
  | stop =>
    refine life.environment (fun _ => le_rfl) (fun other registered gone => ?_) fun _ => rfl
    exact absurd (by simpa [validateProvider] using registered) gone
  | ask call known =>
    refine { life with asked := fun request member name next same => ?_ }
    rcases List.mem_append.mp member with old | own
    · exact life.asked request old name next same
    · rw [List.mem_singleton.mp own] at same
      exact life.listed _ (known name next same)
  | stage number stage =>
    refine { life with asked := fun request member name next same => ?_ }
    obtain ⟨place, there⟩ := List.mem_iff_getElem?.mp member
    simp only [setStage, List.getElem?_modify, Option.map_eq_map, Option.map_eq_some_iff] at there
    obtain ⟨before, found, rfl⟩ := there
    refine life.asked before (List.mem_of_getElem? found) name next ?_
    split at same <;> exact same
  | touch found => exact life.change found ⟨rfl, rfl, rfl, fun shut => shut⟩
  | start created absent now unanswered starts remembered =>
    refine life.runs (runOf_append created) rfl rfl rfl rfl rfl rfl ?_ ?_ <;>
      rcases starts with ⟨_, _, -, run⟩ | ⟨name, call, -, run, asked, member, same⟩ <;> rw [run]
    · nofun
    · nofun
    · nofun
    · rintro _ ⟨⟩
      exact life.asked asked member name call same
  | fail stands free kept error => exact life.finish stands _
  | goOn stands first second epoch =>
    rename_i number run after
    refine life.setRun stands after (fun provider old same => ?_) fun request same => ?_
    · rcases epoch with kept | ⟨other, now⟩
      · exact life.epochs number provider old (by rw [At.runOf_eq stands, ← kept, same])
      · cases now.symm.trans same
        exact le_rfl
    · cases after with
      | openStart | openPrevious | openDefinition => cases same
      | _ => cases second
  | call stands same =>
    rename_i number request after epoch
    refine life.runs (runOf_setRun (s := { s with opens := s.opens ++ [number] }) stands _) rfl rfl rfl rfl rfl rfl
      ?_ nofun
    rintro provider _ ⟨⟩
    refine life.epochs number _ epoch ?_
    rw [At.runOf_eq stands, epochOf, same]
  | opened stands batch =>
    rename_i number request epoch
    have young := life.epochs number _ epoch (by rw [At.runOf_eq stands]; rfl)
    have inserted {place : SessionId} (before : Inserted s place) :
        Inserted { s with objects := s.objects ++ [newSession s number request epoch batch] } place := by
      obtain ⟨session, there, own⟩ := before
      have bound := (List.getElem?_eq_some_iff.mp there).1
      exact ⟨session, by simp [List.getElem?_append_left bound, there], own⟩
    have grown : Life { s with objects := s.objects ++ [newSession s number request epoch batch] } := by
      refine ⟨life.epochs, fun place session there => ?_, fun place session there own => ?_,
        fun place member => inserted (life.listed place member),
        fun asked member name call same => inserted (life.asked asked member name call same),
        fun place call same => inserted (life.nexts place call same)⟩
      · simp only [objects_append] at there
        split at there
        · cases there
          exact young
        · exact life.born place session there
      · simp only [objects_append] at there
        split at there
        · cases there
          cases own
        · exact life.settled place session there own
    exact grown.setRun stands _ (by simp [epochOf]) (by simp [nextOf])
  | retain stands found items => exact life.change found ⟨rfl, rfl, rfl, fun shut => shut⟩
  | insert stands found live room =>
    rename_i number id session
    have registered := (valid_eq_true.mp live).2
    have touched : Life (setSession s id { session with inserted := true }) :=
      life.touch found rfl rfl (fun shut => shut) (fun _ => rfl) fun _ => .inr registered
    have there : Inserted (setSession s id { session with inserted := true }) id :=
      ⟨{ session with inserted := true }, by simp [objects_setSession found], rfl⟩
    have listed : Life { setSession s id { session with inserted := true } with sessions := id :: s.sessions } := by
      refine { touched with listed := fun place member => ?_ }
      rcases List.mem_cons.mp member with rfl | old
      · exact there
      · exact touched.listed place old
    exact listed.finish stands _
  | release stands found error =>
    unfold release
    split
    · exact life.finish stands _
    · exact life.changeRun stands found ⟨rfl, rfl, rfl, fun _ => nofun⟩ rfl (.inr rfl)
  | close stands found free => exact life.changeRun stands found ⟨rfl, rfl, rfl, fun shut => shut⟩ rfl (.inr rfl)
  | closed stands found => exact life.changeFinish stands found (by exact ⟨rfl, rfl, rfl, fun shut => shut⟩) _
  | hold stands found free live version retained | returned stands found batch =>
    exact life.changeRun stands found ⟨rfl, rfl, rfl, fun shut => shut⟩ rfl (.inl rfl)
  | abandon stands holds found error kept =>
    exact life.changeFinish stands found (by exact ⟨rfl, rfl, rfl, fun shut => shut⟩) _
  | keepState stands found dead => exact life.changeFinish stands found (by exact ⟨rfl, rfl, rfl, fun shut => shut⟩) _
  | commit stands found live items =>
    rename_i number request state batch session
    have changed (page : Page) : Life (finish (setSession s request.session { session with
        items := some items, data := page, locked := none }) number (.ok page)) :=
      life.changeFinish stands found (by exact ⟨rfl, rfl, rfl, fun shut => shut⟩) _
    obtain ⟨epochs, born, settled, listed, asked, nexts⟩ := changed _
    exact ⟨epochs, born, settled, listed, asked, nexts⟩
  | take chosen purges =>
    exact { life with listed := fun id member => life.listed id (List.mem_of_mem_filter member) }
  | swap stands stage pending found first =>
    exact life.changeCloser found (by exact ⟨rfl, rfl, rfl, fun _ => nofun⟩)
  | lock stands stage found free | unlock stands stage found items =>
    exact life.changeCloser found (by exact ⟨rfl, rfl, rfl, fun shut => shut⟩)
  | _ => exact { life with }

/-! ## What every run keeps -/

/-- A session belongs to one task at a time: no two calls about it to its provider overlap. -/
theorem sessions_have_one_holder (reached : Reached isUuid (fun _ _ => True) s) (id : SessionId) :
    {holder | holding s holder = some id}.Subsingleton := by
  have locks : Locks s := reached_invariant False False reached (fun none => none.elim) (fun none => none.elim)
    (fun _ => locks_initial) fun _ _ => locks_move
  intro one mine other theirs
  obtain ⟨session, found, locked⟩ := locks one id mine
  obtain ⟨same, there, own⟩ := locks other id theirs
  cases found.symm.trans there
  exact Option.some.inj (locked.symm.trans own)

theorem next_holds_its_session : ∃ s : World, {holder | holding s holder = some 0}.Subsingleton ∧
    holding s (.operation 1) = some 0 := by
  have run : ((Lib.Runs.play (fun _ _ => True) (step isSampleUuid) sample
      (firstOpen ++ [askNext 1, .enter 1, .resume 1 .go])).map fun s => holding s (.operation 1)) = some (some 0) := by
    decide +kernel
  obtain ⟨s, played, same⟩ := Option.map_eq_some_iff.mp run
  exact ⟨s, sessions_have_one_holder (.play _ (.start (by simp [World.Initial, sample])) played) 0, same⟩

/-- What a session keeps of what its validity depends on. -/
private structure Outlasts (before after : Session) : Prop where
  target : after.target = before.target
  epoch : after.epoch = before.epoch
  closed : before.closed ≠ none → after.closed ≠ none

private theorem setSession_outlasts {before next : Session} {place : SessionId} (there : s.objects[place]? = some before)
    (outlasts : Outlasts before next) (found : s.objects[id]? = some session) :
    ∃ after, (setSession s place next).objects[id]? = some after ∧ Outlasts session after := by
  by_cases same : id = place
  · subst same
    cases there.symm.trans found
    exact ⟨next, by simp [objects_setSession there], outlasts⟩
  · exact ⟨session, by simp [objects_setSession there, same, found], rfl, rfl, fun shut => shut⟩

private theorem Move.outlasts (move : Move prompt careful s t) (found : s.objects[id]? = some session) :
    ∃ after, t.objects[id]? = some after ∧ Outlasts session after := by
  have same : Outlasts session session := ⟨rfl, rfl, fun shut => shut⟩
  cases move with
  | register id value => cases s.registry id <;> exact ⟨session, found, same⟩
  | touch there => exact setSession_outlasts there ⟨rfl, rfl, fun shut => shut⟩ found
  | opened =>
    obtain ⟨bound, -⟩ := List.getElem?_eq_some_iff.mp found
    exact ⟨session, (List.getElem?_append_left bound).trans found, same⟩
  | retain _ there | insert _ there | close _ there | closed _ there | hold _ there | returned _ there
  | keepState _ there | commit _ there => exact setSession_outlasts there (by exact ⟨rfl, rfl, fun shut => shut⟩) found
  | release _ there error =>
    unfold release
    split
    · exact ⟨session, found, same⟩
    · exact setSession_outlasts there ⟨rfl, rfl, fun _ => nofun⟩ found
  | swap _ _ _ there => exact setSession_outlasts there (by exact ⟨rfl, rfl, fun _ => nofun⟩) found
  | abandon _ _ there | lock _ _ there | unlock _ _ there =>
    exact setSession_outlasts there (by exact ⟨rfl, rfl, fun shut => shut⟩) found
  | _ => exact ⟨session, found, same⟩

/-- A session is there and will not be valid again. -/
private def Gone (s : World) (id : SessionId) : Prop :=
  ∃ session, s.objects[id]? = some session ∧ Dead s session

private theorem gone_moves (moves : Moves False False s t) (life : Life s) (gone : Gone s id) : Life t ∧ Gone t id := by
  induction moves with
  | refl => exact ⟨life, gone⟩
  | tail _ move ih =>
    obtain ⟨life, session, found, dead⟩ := ih
    obtain ⟨after, there, target, epoch, closed⟩ := Move.outlasts move found
    refine ⟨life_move move life, after, there, ?_⟩
    obtain stopped | shut | old := Dead.move move life found dead
    · exact .inl stopped
    · exact .inr (.inl (closed shut))
    · exact .inr (.inr (by rw [epoch, target]; exact old))

/-- A session that has been in the table and is invalid stays so, whatever its provider and the clocks do later. -/
theorem invalid_sessions_stay_invalid (reached : Reached isUuid (fun _ _ => True) s)
    (later : Lib.Runs.Reach (fun u => u = s) (fun _ _ => True) (fun s a t => step isUuid s a = some t) t)
    (found : s.objects[id]? = some session) (inserted : session.inserted = true) (invalid : valid s session = false) :
    ∃ after, t.objects[id]? = some after ∧ valid t after = false := by
  have life : Life s := reached_invariant False False reached (fun none => none.elim) (fun none => none.elim)
    (fun _ => life_initial) fun _ _ => life_move
  have kept : Life t ∧ Gone t id := later.invariant
    (fun _ same => same ▸ ⟨life, session, found, life.dead found inserted invalid⟩)
    fun _ _ _ held _ ran => gone_moves (step_moves ran (fun none => none.elim) fun none => none.elim) held.1 held.2
  obtain ⟨-, after, there, dead⟩ := kept
  exact ⟨after, there, Bool.eq_false_iff.mpr fun live => (valid_eq_true.mp live).1 dead⟩

/-- The provider of a session is renewed, and registered once more. -/
theorem renewed_provider_leaves_its_session : ∃ t : World, ∃ after, t.objects[0]? = some after ∧ valid t after = false := by
  have run : ((Lib.Runs.play (fun _ _ => True) (step isSampleUuid) sample
      (firstOpen ++ [.renew sampleTarget.provider])).any fun s => (s.objects[0]?).any (fun session => session.inserted && !valid s session) &&
        (step isSampleUuid s (.addProvider sampleTarget.provider)).isSome) = true := by decide +kernel
  obtain ⟨s, played, shown⟩ := (Option.any_eq_true ..).mp run
  obtain ⟨invalid, ran⟩ := Bool.and_eq_true_iff.mp shown
  obtain ⟨session, found, both⟩ := (Option.any_eq_true ..).mp invalid
  obtain ⟨t, ran⟩ := Option.isSome_iff_exists.mp ran
  rw [Bool.and_eq_true, Bool.not_eq_true'] at both
  exact ⟨t, invalid_sessions_stay_invalid (.play _ (.start (by simp [World.Initial, sample])) played)
    (.next (.start rfl) trivial ran) found both.1 both.2⟩

end Qcm.RadioInvariants
