import Qcm.RadioInvariants

/-!
Paging is linear: the pages of a session follow one another, each asked with the
state the page before it left, and each raising the version by one.

The lock of the session is held from the check of the version to the commit, so
no page comes between.  A `next` that finds its session invalid leaves the new
state without a page; such a session is dead, and has no page after it.
-/

namespace Qcm.RadioPagingProofs

open RadioSessions RadioMoves RadioInvariants Lib.Runs

variable {s t : World} {isUuid : List Char → Bool} {prompt careful : Prop} {number : Nat} {id : SessionId}
  {session : Session}

/-- The pages of a session, in the order of their commits. -/
def pagesOf (s : World) (id : SessionId) : List Success :=
  s.pages.filter fun success => success.session = id

/-- Each page was asked at the version and with the state of the one before it. -/
def Linear (version : Nat) (state : String) : List Success → Prop
  | [] => True
  | success :: rest => success.expectedVersion = version ∧ success.page.version = version + 1 ∧
      success.state = state ∧ Linear (version + 1) success.page.batch.state rest

/-- The state the last page left. -/
def lastState (state : String) : List Success → String
  | [] => state
  | success :: rest => lastState success.page.batch.state rest

/-- The sessions, the pages and the answers to `next` as paging is meant to leave them. -/
structure Paged (s : World) : Prop where
  linear : ∀ (id : SessionId) (session : Session), s.objects[id]? = some session →
    Linear 1 session.opened.state (pagesOf s id)
  version : ∀ (id : SessionId) (session : Session), s.objects[id]? = some session →
    session.data.version = (pagesOf s id).length + 1
  distinct : s.pages.Pairwise fun first second =>
    first.session = second.session → first.expectedVersion ≠ second.expectedVersion
  limit : s.sessions.length ≤ MAX_SESSIONS
  /-- A `next` that has succeeded has one of the pages. -/
  answered : ∀ (number : Nat) (operation : Operation) (id : SessionId) (operationId : String) (page : Page),
    s.started[number]? = some operation → operation.key = .next id operationId →
    operation.result = some (.ok page) →
    ∃ success ∈ s.pages, success.session = id ∧ success.operation = number ∧ success.page = page

variable {state : String} {pages : List Success} {run : Run} {next : Session}

theorem linear_snoc {version : Nat} {success : Success} (linear : Linear version state pages)
    (asked : success.expectedVersion = version + pages.length)
    (raised : success.page.version = version + pages.length + 1)
    (left : success.state = lastState state pages) : Linear version state (pages ++ [success]) := by
  induction pages generalizing version state with
  | nil => exact ⟨asked, raised, left, trivial⟩
  | cons first rest ih =>
    obtain ⟨versionFirst, raisedFirst, stateFirst, after⟩ := linear
    refine ⟨versionFirst, raisedFirst, stateFirst, ih after ?_ ?_ ?_⟩
    · rw [asked, List.length_cons]
      omega
    · rw [raised, List.length_cons]
      omega
    · exact left

@[simp]
theorem lastState_snoc {success : Success} :
    lastState state (pages ++ [success]) = success.page.batch.state := by
  induction pages generalizing state with
  | nil => rfl
  | cons first rest ih => exact ih

theorem linear_bounds {version : Nat} (linear : Linear version state pages) :
    ∀ success ∈ pages, version ≤ success.expectedVersion ∧ success.expectedVersion < version + pages.length := by
  induction pages generalizing version state with
  | nil => simp
  | cons first rest ih =>
    obtain ⟨own, -, -, after⟩ := linear
    intro success member
    rw [List.length_cons]
    rcases List.mem_cons.mp member with rfl | later
    · omega
    · have bounds := ih after success later
      omega

/-! ## The invariant -/

/-- The session and the state a future of `next` has read. -/
def readOf : Run → Option (NextRequest × String)
  | .nextCalled request state _ => some (request, state)
  | .nextRetain request state _ => some (request, state)
  | _ => none

structure History (s : World) : Prop where
  linear : ∀ (id : SessionId) (session : Session), s.objects[id]? = some session →
    Linear 1 session.opened.state (pagesOf s id)
  version : ∀ (id : SessionId) (session : Session), s.objects[id]? = some session →
    session.data.version = (pagesOf s id).length + 1
  state : ∀ (id : SessionId) (session : Session), s.objects[id]? = some session →
    Dead s session ∨ session.data.batch.state = lastState session.opened.state (pagesOf s id)
  reading : ∀ number request state, readOf (runOf s number) = some (request, state) →
    ∃ session, s.objects[request.session]? = some session ∧
      session.data.version = request.expectedVersion ∧ session.data.batch.state = state
  bounded : ∀ success ∈ s.pages, success.session < s.objects.length
  distinct : s.pages.Pairwise fun first second =>
    first.session = second.session → first.expectedVersion ≠ second.expectedVersion
  limit : s.sessions.length ≤ MAX_SESSIONS

private theorem History.environment (history : History s) (objects : t.objects = s.objects)
    (pages : t.pages = s.pages) (runs : runOf t = runOf s) (sessions : t.sessions.length ≤ s.sessions.length)
    (dead : ∀ (id : SessionId) (session : Session), s.objects[id]? = some session → Dead s session → Dead t session) :
    History t := by
  have own (id : SessionId) : pagesOf t id = pagesOf s id := by rw [pagesOf, pages, pagesOf]
  refine ⟨?_, ?_, ?_, ?_, ?_, ?_, sessions.trans history.limit⟩
  · simpa only [objects, own] using history.linear
  · simpa only [objects, own] using history.version
  · simp only [objects, own]
    intro id session found
    exact (history.state id session found).imp_left (dead id session found)
  · simpa only [objects, runs] using history.reading
  · simpa only [objects, pages] using history.bounded
  · simpa only [pages] using history.distinct

/-- What a change of a session leaves as it is when it is not a page. -/
private structure SamePage (before after : Session) : Prop where
  target : after.target = before.target
  epoch : after.epoch = before.epoch
  data : after.data = before.data
  opened : after.opened = before.opened
  closed : before.closed ≠ none → after.closed ≠ none

section

variable (history : History s)
include history

private theorem History.change {after : Session} (found : s.objects[id]? = some session)
    (same : SamePage session after) : History (setSession s id after) := by
  obtain ⟨target, epoch, data, opened, closed⟩ := same
  refine ⟨fun place other there => ?_, fun place other there => ?_, fun place other there => ?_,
    fun place request state read => ?_, ?_, history.distinct, history.limit⟩
  · rw [objects_setSession found] at there
    split at there
    · rename_i here
      cases there
      rw [opened, here]
      exact history.linear id session found
    · exact history.linear place other there
  · rw [objects_setSession found] at there
    split at there
    · rename_i here
      cases there
      rw [data, here]
      exact history.version id session found
    · exact history.version place other there
  · rw [objects_setSession found] at there
    split at there
    · rename_i here
      cases there
      rw [data, opened, here]
      refine (history.state id session found).imp_left ?_
      rintro (stopped | shut | old)
      · exact .inl stopped
      · exact .inr (.inl (closed shut))
      · exact .inr (.inr (by rw [target, epoch]; exact old))
    · exact history.state place other there
  · obtain ⟨other, there, version, kept⟩ := history.reading place request state read
    rw [objects_setSession found]
    split
    · rename_i here
      rw [here] at there
      cases found.symm.trans there
      exact ⟨after, rfl, by rw [data]; exact version, by rw [data]; exact kept⟩
    · exact ⟨other, there, version, kept⟩
  · simpa [setSession] using history.bounded

private theorem History.runs (runs : runOf t = Function.update (runOf s) number run)
    (objects : t.objects = s.objects) (pages : t.pages = s.pages) (sessions : t.sessions = s.sessions)
    (dead : ∀ session, Dead s session → Dead t session)
    (reads : ∀ request state, readOf run = some (request, state) → ∃ session, s.objects[request.session]? = some session ∧ session.data.version = request.expectedVersion ∧ session.data.batch.state = state) :
    History t := by
  have own (id : SessionId) : pagesOf t id = pagesOf s id := by rw [pagesOf, pages, pagesOf]
  refine ⟨?_, ?_, ?_, ?_, ?_, ?_, ?_⟩
  · simpa only [objects, own] using history.linear
  · simpa only [objects, own] using history.version
  · simp only [objects, own]
    intro id session found
    exact (history.state id session found).imp_left (dead session)
  · intro place request state read
    rw [runs, Function.update_apply] at read
    rw [objects]
    split at read
    · exact reads request state read
    · exact history.reading place request state read
  · simpa only [objects, pages] using history.bounded
  · simpa only [pages] using history.distinct
  · simpa only [sessions] using history.limit

private theorem History.setRun (stands : At s number run) (after : Run) (reads : readOf after = none) :
    History (setRun s number after) :=
  history.runs (runOf_setRun stands after) rfl rfl rfl (fun _ => id) (by simp [reads])

private theorem History.finish (stands : At s number run) (result : Except RadioError Page) :
    History (finish s number result) :=
  history.runs (runOf_finish stands result) rfl rfl rfl (fun _ => id) nofun

private theorem History.changeFinish (stands : At s number run) (found : s.objects[id]? = some session)
    (same : SamePage session next) (result : Except RadioError Page) :
    History (RadioSessions.finish (setSession s id next) number result) :=
  History.finish (history.change found same) stands result

private theorem History.changeRun {after : Run} (stands : At s number run)
    (found : s.objects[id]? = some session) (same : SamePage session next) (reads : readOf after = none) :
    History (RadioSessions.setRun (setSession s id next) number after) :=
  History.setRun (history.change found same) stands after reads

private theorem History.changeCloser {closer : Closer} (found : s.objects[id]? = some session)
    (same : SamePage session next) : History (setCloser (setSession s id next) number closer) :=
  (history.change found same).environment rfl rfl rfl (Nat.le_refl _) fun _ _ _ dead => dead

end

private theorem holds_of_read {request : NextRequest} (read : readOf run = some (request, state)) :
    run.holds = some request.session := by
  cases run with
  | nextCalled | nextRetain =>
    cases read
    rfl
  | _ => cases read

/-- The page of a session changes, under its lock: no other future has read it. -/
private theorem History.write (history : History s) (locks : Locks s) {run : Run} {next : Session}
    (stands : At s number run) (holds : run.holds = some id) (found : s.objects[id]? = some session)
    (opened : next.opened = session.opened) {pages : List Success} (result : Except RadioError Page)
    (linear : Linear 1 session.opened.state (pagesOf { s with pages := pages } id))
    (version : next.data.version = (pagesOf { s with pages := pages } id).length + 1)
    (state : Dead s next ∨
      next.data.batch.state = lastState session.opened.state (pagesOf { s with pages := pages } id))
    (others : ∀ place, place ≠ id → pagesOf { s with pages := pages } place = pagesOf s place)
    (bounded : ∀ success ∈ pages, success.session < s.objects.length)
    (distinct : pages.Pairwise fun first second =>
      first.session = second.session → first.expectedVersion ≠ second.expectedVersion) :
    History (RadioSessions.finish { setSession s id next with pages := pages } number result) := by
  have cells (place : SessionId) : (setSession s id next).objects[place]? =
      if place = id then some next else s.objects[place]? := objects_setSession found place
  refine ⟨fun place other there => ?_, fun place other there => ?_, fun place other there => ?_,
    fun place request state read => ?_, ?_, distinct, history.limit⟩
  · change (setSession s id next).objects[place]? = some other at there
    rw [cells] at there
    split at there
    · rename_i here
      cases there
      rw [opened, here]
      exact linear
    · rename_i apart
      exact others place apart ▸ history.linear place other there
  · change (setSession s id next).objects[place]? = some other at there
    rw [cells] at there
    split at there
    · rename_i here
      cases there
      rw [here]
      exact version
    · rename_i apart
      exact others place apart ▸ history.version place other there
  · change (setSession s id next).objects[place]? = some other at there
    rw [cells] at there
    split at there
    · rename_i here
      cases there
      rw [opened, here]
      exact state
    · rename_i apart
      exact others place apart ▸ history.state place other there
  · rw [runOf_finish (s := { setSession s id next with pages := pages }) stands,
      Function.update_apply] at read
    split at read
    · cases read
    · rename_i apart
      obtain ⟨other, there, version, kept⟩ := history.reading place request state read
      refine ⟨other, ?_, version, kept⟩
      change (setSession s id next).objects[request.session]? = some other
      rw [cells, if_neg, there]
      -- two holders of one lock are the same
      intro here
      have mine := locks (.operation number) id (by rw [holding, At.runOf_eq stands, holds])
      have theirs := locks (.operation place) id ((holds_of_read read).trans (congrArg some here))
      obtain ⟨one, foundOne, lockedOne⟩ := mine
      obtain ⟨two, foundTwo, lockedTwo⟩ := theirs
      cases foundOne.symm.trans foundTwo
      cases lockedOne.symm.trans lockedTwo
      exact apart rfl
  · intro success member
    have inside := bounded success member
    simpa [RadioSessions.finish, setSession] using inside

theorem history_move (move : Move prompt careful s t) (locks : Locks s) (life : Life s) (history : History s) :
    History t := by
  have dying (id : SessionId) (session : Session) (found : s.objects[id]? = some session) (dead : Dead s session) :
      Dead t session := Dead.move move life found dead
  cases move with
  | renew | stop => exact history.environment rfl rfl rfl le_rfl dying
  | register id value =>
    cases old : s.registry id <;> rw [old] at dying <;> exact history.environment rfl rfl rfl le_rfl dying
  | touch found => exact history.change found ⟨rfl, rfl, rfl, rfl, fun shut => shut⟩
  | start created absent now unanswered starts remembered =>
    refine history.runs (runOf_append created) rfl rfl rfl (fun _ => id) ?_
    rcases starts with ⟨_, _, -, run⟩ | ⟨_, _, -, run, -⟩ <;> rw [run] <;> nofun
  | fail stands free kept error => exact history.finish stands _
  | goOn stands first second epoch =>
    rename_i after
    refine history.setRun stands after ?_
    cases after with
    | openStart | openPrevious | openDefinition => rfl
    | _ => cases second
  | call stands same =>
    exact history.runs (runOf_setRun (s := { s with opens := _ }) stands _) rfl rfl rfl (fun _ => id) nofun
  | opened stands batch =>
    rename_i number request epoch
    have new : pagesOf s s.objects.length = [] := by
      refine List.filter_eq_nil_iff.mpr fun success member => ?_
      simpa using Nat.ne_of_lt (history.bounded success member)
    have grown : History { s with objects := s.objects ++ [newSession s number request epoch batch] } := by
      refine ⟨fun place session there => ?_, fun place session there => ?_, fun place session there => ?_,
        fun place call state read => ?_, fun success member => ?_, history.distinct, history.limit⟩
      · change Linear 1 session.opened.state (pagesOf s place)
        simp only [objects_append] at there
        split at there
        · rename_i here
          rw [here, new]
          trivial
        · exact history.linear place session there
      · change session.data.version = (pagesOf s place).length + 1
        simp only [objects_append] at there
        split at there
        · rename_i here
          cases there
          rw [here, new]
          rfl
        · exact history.version place session there
      · change Dead s session ∨ session.data.batch.state = lastState session.opened.state (pagesOf s place)
        simp only [objects_append] at there
        split at there
        · rename_i here
          cases there
          rw [here, new]
          exact .inr rfl
        · exact history.state place session there
      · obtain ⟨session, there, version, kept⟩ := history.reading place call state read
        have bound := (List.getElem?_eq_some_iff.mp there).1
        exact ⟨session, by simp [List.getElem?_append_left bound, there], version, kept⟩
      · exact Nat.lt_of_lt_of_le (history.bounded success member) (by simp)
    exact grown.setRun stands _ rfl
  | retain stands found items => exact history.change found ⟨rfl, rfl, rfl, rfl, fun shut => shut⟩
  | insert stands found live room =>
    rename_i number id session
    have changed : History (setSession s id { session with inserted := true }) :=
      history.change found ⟨rfl, rfl, rfl, rfl, fun shut => shut⟩
    have listed : History { setSession s id { session with inserted := true } with sessions := id :: s.sessions } :=
      { changed with limit := room }
    exact listed.finish stands _
  | release stands found error =>
    unfold release
    split
    · exact history.finish stands _
    · exact history.changeRun stands found (by exact ⟨rfl, rfl, rfl, rfl, fun _ => nofun⟩) rfl
  | close stands found free =>
    exact history.changeRun stands found (by exact ⟨rfl, rfl, rfl, rfl, fun shut => shut⟩) rfl
  | closed stands found =>
    exact History.changeFinish history stands found (by exact ⟨rfl, rfl, rfl, rfl, fun shut => shut⟩) _
  | hold stands found free live version retained =>
    rename_i number request session
    have changed : History (setSession s request.session { session with locked := some (.operation number) }) :=
      history.change found ⟨rfl, rfl, rfl, rfl, fun shut => shut⟩
    refine changed.runs (runOf_setRun stands.setSession _) rfl rfl rfl (fun _ => id) ?_
    rintro _ _ ⟨⟩
    exact ⟨{ session with locked := some (.operation number) }, by simp [objects_setSession found],
      version, rfl⟩
  | returned stands found batch =>
    rename_i number request state retained session
    have changed : History (setSession s request.session { session with returned := batch.state }) :=
      history.change found ⟨rfl, rfl, rfl, rfl, fun shut => shut⟩
    refine changed.runs (runOf_setRun stands.setSession _) rfl rfl rfl (fun _ => id) ?_
    rintro _ _ ⟨⟩
    refine changed.reading number request state ?_
    rw [At.runOf_eq (stands.setSession), readOf]
  | abandon stands holds found error kept =>
    exact History.changeFinish history stands found (by exact ⟨rfl, rfl, rfl, rfl, fun shut => shut⟩) _
  | keepState stands found dead =>
    rename_i number request state batch session
    -- the state that is left has no page, but no page comes after it either
    obtain ⟨other, there, inserted⟩ := life.nexts number request (by rw [At.runOf_eq stands]; rfl)
    cases found.symm.trans there
    have gone : Dead s session := life.dead found inserted dead
    have linear := history.linear _ _ found
    have version := history.version _ _ found
    exact history.write locks stands rfl found (by rfl) _ linear version (.inl gone) (fun _ _ => rfl)
      history.bounded history.distinct
  | commit stands found live items =>
    rename_i number request state batch session
    obtain ⟨other, there, version, kept⟩ :=
      history.reading number request state (by rw [At.runOf_eq stands]; rfl)
    cases found.symm.trans there
    have alive : ¬ Dead s session := (valid_eq_true.mp live).1
    have current := (history.state _ _ found).resolve_left alive
    have length := history.version _ _ found
    let page : Page := { session.data with version := session.data.version + 1, batch := batch }
    let success : Success := ⟨request.session, number, request.expectedVersion, state, page⟩
    have mine : pagesOf { s with pages := s.pages ++ [success] } request.session =
        pagesOf s request.session ++ [success] := by
      simp [pagesOf, success]
    have others (place : SessionId) (apart : place ≠ request.session) :
        pagesOf { s with pages := s.pages ++ [success] } place = pagesOf s place := by
      simp [pagesOf, success, Ne.symm apart]
    refine history.write locks stands rfl found (by rfl) _ ?_ ?_ ?_ others ?_ ?_
    · rw [mine]
      refine linear_snoc (history.linear _ _ found) ?_ ?_ ?_
      · change request.expectedVersion = _
        omega
      · change session.data.version + 1 = _
        omega
      · exact kept.symm.trans current
    · rw [mine, List.length_append]
      change session.data.version + 1 = _
      rw [length]
      rfl
    · rw [mine, lastState_snoc]
      exact .inr rfl
    · intro other member
      obtain old | rfl := mem_snoc member
      · exact history.bounded other old
      · exact (List.getElem?_eq_some_iff.mp found).1
    · refine List.pairwise_append.mpr ⟨history.distinct, List.pairwise_singleton _ _, ?_⟩
      intro first member second own same
      rw [List.mem_singleton.mp own] at same ⊢
      have earlier : first ∈ pagesOf s request.session := List.mem_filter.mpr ⟨member, by simpa using same⟩
      have bounds := linear_bounds (history.linear _ _ found) first earlier
      change first.expectedVersion ≠ request.expectedVersion
      omega
  | take chosen purges =>
    exact history.environment rfl rfl rfl (List.length_filter_le ..) fun _ _ _ => id
  | swap stands stage pending found first =>
    exact history.changeCloser found (by exact ⟨rfl, rfl, rfl, rfl, fun _ => nofun⟩)
  | lock stands stage found free | unlock stands stage found items =>
    exact history.changeCloser found (by exact ⟨rfl, rfl, rfl, rfl, fun shut => shut⟩)
  | _ => exact history.environment rfl rfl rfl le_rfl fun _ _ _ => id

/-! ## Answers -/

def opening : Run → Bool
  | .openStart _ | .openPrevious _ _ _ | .openDefinition _ _ | .openCalled _ _ => true
  | .openRetain _ | .openRelease _ _ | .openClosing _ _ => true
  | _ => false

/-- The page is in the log as one of the operation's. -/
def Logged (pages : List Success) (id : SessionId) (number : Nat) (page : Page) : Prop :=
  ∃ success ∈ pages, success.session = id ∧ success.operation = number ∧ success.page = page

/-- An operation runs what its key says, and the pages of `next` are logged. -/
structure Answers (started : List Operation) (pages : List Success) : Prop where
  opens : ∀ (number : Nat) (operation : Operation), started[number]? = some operation →
    opening operation.run = true → ∃ id, operation.key = .opening id
  nexts : ∀ (number : Nat) (operation : Operation) (request : NextRequest), started[number]? = some operation →
    nextOf operation.run = some request → ∃ id, operation.key = .next request.session id
  answered : ∀ (number : Nat) (operation : Operation) (id : SessionId) (operationId : String) (page : Page),
    started[number]? = some operation → operation.key = .next id operationId →
    operation.result = some (.ok page) → Logged pages id number page

section

variable (answers : Answers s.started s.pages) (stands : At s number run)
include answers stands

private theorem Answers.setRun (after : Run) (opens : opening after = true → opening run = true)
    (nexts : ∀ request, nextOf after = some request → nextOf run = some request) :
    Answers (setRun s number after).started s.pages := by
  obtain ⟨before, found, rfl⟩ := stands
  refine ⟨fun place operation there same => ?_, fun place operation request there same => ?_,
    fun place operation id name page there key result => ?_⟩ <;>
    obtain ⟨old, here, ⟨rfl, rfl⟩ | ⟨-, rfl⟩⟩ := getElem?_modify_cases there
  · cases found.symm.trans here
    exact answers.opens place before here (opens same)
  · exact answers.opens place _ here same
  · cases found.symm.trans here
    exact answers.nexts place before request here (nexts request same)
  · exact answers.nexts place _ request here same
  · exact answers.answered place _ id name page here key result
  · exact answers.answered place _ id name page here key result

private theorem Answers.finish (result : Except RadioError Page) (more : s.pages ⊆ pages)
    (logged : ∀ operation, s.started[number]? = some operation → ∀ id name page, operation.key = .next id name → result = .ok page → Logged pages id number page) :
    Answers (finish s number result).started pages := by
  obtain ⟨before, found, rfl⟩ := stands
  refine ⟨fun place operation there same => ?_, fun place operation request there same => ?_,
    fun place operation id name page there key answer => ?_⟩ <;>
    obtain ⟨old, here, ⟨rfl, rfl⟩ | ⟨-, rfl⟩⟩ := getElem?_modify_cases there
  · cases same
  · exact answers.opens place _ here same
  · cases same
  · exact answers.nexts place _ request here same
  · exact logged old here id name page key (Option.some.inj answer)
  · obtain ⟨success, member, rest⟩ := answers.answered place _ id name page here key answer
    exact ⟨success, more member, rest⟩

private theorem Answers.fail (error : RadioError) : Answers (fail s number error).started s.pages :=
  answers.finish stands _ (List.Subset.refl _) fun _ _ _ _ _ _ => nofun

end

private theorem answers_move (move : Move prompt careful s t) (answers : Answers s.started s.pages) :
    Answers t.started t.pages := by
  cases move with
  | register id value => cases s.registry id <;> exact answers
  | start created absent now unanswered starts remembered =>
    have shape {place : Nat} {operation : Operation} (there : (s.started ++ [created])[place]? = some operation) :
        s.started[place]? = some operation ∨ operation = created := by
      rcases Nat.lt_or_ge place s.started.length with inside | outside
      · exact .inl (by rwa [List.getElem?_append_left inside] at there)
      · rw [List.getElem?_append_right outside] at there
        exact .inr (List.mem_singleton.mp (List.mem_of_getElem? there))
    refine ⟨fun place operation there same => ?_, fun place operation request there same => ?_,
      fun place operation id name page there key result => ?_⟩ <;>
      rcases shape there with old | rfl
    · exact answers.opens place operation old same
    · rcases starts with ⟨id, _, key, -⟩ | ⟨_, _, -, run, -⟩
      · exact ⟨id, key⟩
      · rw [run] at same
        cases same
    · exact answers.nexts place operation request old same
    · rcases starts with ⟨_, _, -, run⟩ | ⟨id, _, key, run, -⟩
      · rw [run] at same
        cases same
      · rw [run] at same
        cases same
        exact ⟨id, key⟩
    · exact answers.answered place operation id name page old key result
    · cases unanswered.symm.trans result
  | fail stands free kept error => exact answers.fail stands _
  | goOn stands first second epoch =>
    rename_i run after
    refine answers.setRun stands after (fun _ => ?_) fun request same => ?_
    · cases run with
      | openStart | openPrevious | openDefinition => rfl
      | _ => cases first
    · cases after with
      | openStart | openPrevious | openDefinition => cases same
      | _ => cases second
  | call stands same | opened stands batch => exact answers.setRun stands _ (fun _ => rfl) nofun
  | insert stands found live room =>
    obtain ⟨operation, there, run⟩ := stands
    refine answers.finish ⟨operation, there, rfl⟩ _ (List.Subset.refl _) fun other here id name page key _ => ?_
    cases there.symm.trans here
    obtain ⟨_, opens⟩ := answers.opens _ _ there (by rw [run]; rfl)
    cases opens.symm.trans key
  | release stands found error =>
    unfold release
    split
    · exact answers.fail stands _
    · exact answers.setRun stands _ (fun _ => rfl) nofun
  | close stands found free => exact answers.setRun stands _ (fun _ => rfl) nofun
  | closed stands found => exact answers.fail stands _
  | hold stands found free live version retained =>
    exact answers.setRun stands _ nofun fun _ => id
  | returned stands found batch => exact answers.setRun stands _ nofun fun _ => id
  | abandon stands holds found error kept | keepState stands found dead => exact answers.fail stands _
  | commit stands found live items =>
    rename_i number request state batch session
    obtain ⟨operation, there, run⟩ := stands
    refine answers.finish ⟨operation, there, rfl⟩ _ (List.subset_append_left _ _) fun other here id name page key same => ?_
    cases there.symm.trans here
    obtain ⟨_, nexts⟩ := answers.nexts _ _ request there (by rw [run]; rfl)
    cases nexts.symm.trans key
    cases same
    exact ⟨_, List.mem_append_right _ (List.mem_singleton.mpr rfl), rfl, rfl, rfl⟩
  | _ => exact answers

/-- What is kept along a run. -/
private structure Paging (s : World) : Prop where
  locks : Locks s
  life : Life s
  history : History s
  answers : Answers s.started s.pages

private theorem paging_initial (fresh : s.Initial) : Paging s := by
  refine ⟨locks_initial fresh, life_initial fresh, ?_, ?_⟩ <;>
    obtain ⟨-, sessions, objects, -, started, -, -, -, pages⟩ := fresh
  · constructor <;> simp [sessions, objects, runOf, started, readOf, pages, MAX_SESSIONS]
  · rw [started, pages]
    constructor <;> simp

/-- In every run the pages of each session are linear. -/
theorem paging_is_linear (reached : Reached isUuid (fun _ _ => True) s) : Paged s := by
  have paging : Paging s := reached_invariant False False reached
    (fun none => none.elim) (fun none => none.elim) (fun _ => paging_initial) fun _ _ move held =>
      ⟨locks_move move held.locks, life_move move held.life,
        history_move move held.locks held.life held.history, answers_move move held.answers⟩
  exact ⟨paging.history.linear, paging.history.version, paging.history.distinct, paging.history.limit,
    paging.answers.answered⟩

theorem second_page_is_linear : ∃ s, Paged s ∧ s.pages.map Success.state = ["first"] := by
  have run : ((play (fun _ _ => True) (step isSampleUuid) sample (firstOpen ++ [askNext 1, .enter 1, .resume 1 .go,
      .resume 1 (.batch (.ok (sampleBatch "second"))), .resume 1 (.retained (.ok []))])).map fun s =>
      s.pages.map Success.state) = some ["first"] := by decide +kernel
  obtain ⟨s, played, same⟩ := Option.map_eq_some_iff.mp run
  have reached : Reached isSampleUuid (fun _ _ => True) s :=
    Reach.play _ (.start (by simp [World.Initial, sample])) played
  exact ⟨s, paging_is_linear reached, same⟩

end Qcm.RadioPagingProofs
