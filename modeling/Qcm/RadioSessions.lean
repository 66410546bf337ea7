import Mathlib

/-!
The radio sessions (`radio.rs`): the cache of operations, the sessions, and the
calls to the providers behind them.

`open`, `next`, `close` and the cleanup run as tasks of their own.  A step is
what a task does between two awaits, together with the answer it was waiting
for, so that a run is any interleaving of the requests, the operations they
start, the closing calls, the clocks and the replacement of providers.  An
operation can be cut off at every await, by its timeout or a panic, and a
closing call by the abort of its task.

`Session` and `World` carry a few fields the source does not have: who has set a
flag or holds a lock, and which calls the providers have seen.  Nothing is
decided by them.
-/

namespace Qcm.RadioSessions

def MAX_SESSIONS : Nat := 128
def MAX_OPERATIONS : Nat := 512
/-- Milliseconds, as are all times here. -/
def SESSION_TTL : Nat := 30 * 60 * 1000
def OPERATION_TTL : Nat := 5 * 60 * 1000
def MAX_STATE_BYTES : Nat := 64 * 1024

inductive RadioError where
  | expired
  | conflict
  | invalid (message : String)
  | provider (error : String)
deriving DecidableEq, Repr

/-- A provider is known by its allocation; its id is set before it is registered. -/
structure Provider where
  arc : Nat
  id : Option Int
deriving DecidableEq, Repr

/-- The entries of a map, each key once. -/
abbrev Configuration := List (String × String)

def Configuration.same (a b : Configuration) : Bool :=
  a.all (b.contains ·) && b.all (a.contains ·)

/-- `entry(key).or_insert(value)` -/
def Configuration.orInsert (a : Configuration) (field : String × String) : Configuration :=
  if a.any (·.1 = field.1) then a else a ++ [field]

structure Song where
  id : Int
  canPlay : Bool
deriving DecidableEq, Repr

structure QueueBatch where
  songs : List Song
  state : String
  configuration : Configuration
  /-- `presentation.source_item_id` -/
  source : Option Int
  exhausted : Bool
deriving DecidableEq, Repr

/-- Sessions are numbered; the number is the session id. -/
abbrev SessionId := Nat

structure Page where
  sessionId : SessionId
  version : Nat
  batch : QueueBatch
deriving DecidableEq, Repr

structure Target where
  queueId : Int
  nativeId : String
  provider : Provider
deriving DecidableEq, Repr

/-- A task that can hold the lock of a session or close it. -/
inductive Holder where
  | operation (number : Nat)
  | closer (number : Nat)
deriving DecidableEq, Repr

/-- A root of an `ItemRetention`. -/
structure Root where
  id : Int
  nativeId : String
  isSong : Bool
deriving DecidableEq, Repr

structure Session where
  target : Target
  epoch : Nat
  /-- Who has set `closed`, if it is set. -/
  closed : Option Holder
  touched : Nat
  data : Page
  /-- Who holds the lock of `data`. -/
  locked : Option Holder
  items : Option (List Root)
  /-- The operation that opened the queue. -/
  opener : Nat
  /-- What `open_queue` returned. -/
  opened : QueueBatch
  /-- Whether the session has been in the table. -/
  inserted : Bool
  /-- The state the provider returned last for this queue. -/
  returned : String
  /-- The states passed to `close_queue` for this queue. -/
  closes : List String
deriving DecidableEq, Repr

inductive QueueOpenReason where
  | initial
  | reconfigure
  | restart
deriving DecidableEq, Repr

structure QueueInput where
  nativeId : String
  itemType : String
deriving DecidableEq, Repr

/-- What `open` is asked; the empty previous id is none. -/
structure OpenRequest where
  target : Target
  previousId : Option SessionId
  configuration : Configuration
  input : Option QueueInput
  reason : QueueOpenReason
  previousState : Option String
deriving DecidableEq, Repr

structure NextRequest where
  target : Target
  session : SessionId
  expectedVersion : Nat
  currentNativeIds : List String
deriving DecidableEq, Repr

inductive Key where
  | opening (operationId : String)
  | next (session : SessionId) (operationId : String)
deriving DecidableEq, Repr

/-- The tuples whose JSON text the source compares. -/
inductive Fingerprint where
  | opening (queueId : Int) (provider : Option Int) (previousId : Option SessionId)
      (reason : QueueOpenReason) (input : Option QueueInput) (configuration : Configuration)
  | next (expectedVersion : Nat) (currentNativeIds : List String)
deriving DecidableEq, Repr

/-- Where the future of an operation stands: the await it is at. -/
inductive Run where
  | openStart (request : OpenRequest)
  | openPrevious (request : OpenRequest) (epoch : Nat) (previous : SessionId)
  | openDefinition (request : OpenRequest) (epoch : Nat)
  | openCalled (request : OpenRequest) (epoch : Nat)
  | openRetain (session : SessionId)
  | openRelease (session : SessionId) (error : RadioError)
  | openClosing (session : SessionId) (error : RadioError)
  | nextStart (request : NextRequest)
  | nextCalled (request : NextRequest) (state : String) (retained : List Int)
  | nextRetain (request : NextRequest) (state : String) (batch : QueueBatch)
  | done
deriving DecidableEq, Repr

structure Operation where
  key : Key
  provider : Provider
  epoch : Nat
  fingerprint : Fingerprint
  created : Nat
  result : Option (Except RadioError Page)
  run : Run

/-- A call of `open` or `next` whose operation id was accepted. -/
inductive Call where
  | opening (operationId : String) (request : OpenRequest)
  | next (operationId : String) (request : NextRequest)
deriving DecidableEq, Repr

inductive Stage where
  | checked
  | waiting (operation : Nat)
  | answered (result : Except RadioError Page)

structure Request where
  call : Call
  stage : Stage

/-- Where a closing call stands with the session it is releasing. -/
inductive Release where
  | idle
  | waiting (session : SessionId)
  | closing (session : SessionId)
deriving DecidableEq, Repr

/-- A call of `close`, `collect` or `invalidate`. -/
structure Closer where
  pending : List SessionId
  stage : Release
  /-- `collect` purges the operations at its end. -/
  purges : Bool
deriving DecidableEq, Repr

/-- A page a `next` operation has returned. -/
structure Success where
  session : SessionId
  operation : Nat
  expectedVersion : Nat
  /-- The state the page was asked with. -/
  state : String
  page : Page
deriving DecidableEq, Repr

structure World where
  /-- `SystemTime::now`, since the epoch. -/
  wall : Nat
  /-- `Instant::now` -/
  instant : Nat
  /-- `lifecycle_epoch` -/
  epoch : Provider → Nat
  /-- `global::provider` -/
  registry : Int → Option Provider
  stopped : Bool
  sessions : List SessionId
  objects : List Session
  operations : List (Key × Nat)
  started : List Operation
  requests : List Request
  closers : List Closer
  /-- The operations that have called `open_queue`. -/
  opens : List Nat
  pages : List Success

/-- A service with no session and no operation. -/
def World.Initial (s : World) : Prop :=
  s.stopped = false ∧ s.sessions = [] ∧ s.objects = [] ∧ s.operations = [] ∧ s.started = [] ∧
    s.requests = [] ∧ s.closers = [] ∧ s.opens = [] ∧ s.pages = []

/-- `str::parse::<u128>` -/
def parseU128 (text : List Char) : Option Nat :=
  let digits := match text with
    | '+' :: rest => rest
    | _ => text
  if digits.isEmpty || !digits.all Char.isDigit then none
  else
    let value := digits.foldl (fun value digit => 10 * value + (digit.toNat - '0'.toNat)) 0
    if value < 2 ^ 128 then some value else none

/-- `check_operation_id`; whether a text is a UUID is left to its library. -/
def checkOperationId (isUuid : List Char → Bool) (wall : Nat) (id : String) : Except RadioError Unit :=
  match id.toList.span (· != ':') with
  | (_, []) => .error (.invalid "Invalid radio operation ID")
  | (timestamp, _ :: uuid) =>
    if !isUuid uuid then .error (.invalid "Invalid radio operation ID")
    else
      match parseU128 timestamp with
      | none => .error (.invalid "Invalid radio operation timestamp")
      | some timestamp =>
        if timestamp > wall + 30000 ∨ wall - timestamp ≥ OPERATION_TTL then .error .expired else .ok ()

def validateBatch (batch : QueueBatch) (opening : Bool) : Except RadioError Unit :=
  if batch.state.utf8ByteSize > MAX_STATE_BYTES then .error (.invalid "Radio state exceeds 64 KiB")
  else if batch.songs.any (·.id ≤ 0) then .error (.invalid "Radio returned unsynchronized songs")
  else if opening && !batch.songs.any (·.canPlay) then
    .error (.invalid "Radio returned no playable songs")
  else .ok ()

/-- The default `validate_provider`. -/
def validateProvider (s : World) (provider : Provider) : Bool :=
  (provider.id.bind s.registry) = some provider

def valid (s : World) (session : Session) : Bool :=
  !s.stopped && session.closed.isNone && session.epoch == s.epoch session.target.provider &&
    validateProvider s session.target.provider

/-! ## Parts of a step -/

def setSession (s : World) (id : SessionId) (session : Session) : World :=
  { s with objects := s.objects.set id session }

/-- `RadioSessions::session` -/
def sessionFor (s : World) (id : SessionId) (target : Target) : Except RadioError World :=
  match (if id ∈ s.sessions then s.objects[id]? else none) with
  | none => .error .expired
  | some session =>
    if !valid s session || session.target.queueId != target.queueId ||
        session.target.provider != target.provider then .error .expired
    else .ok (setSession s id { session with touched := s.instant })

/-- The operations `retain` leaves. -/
def fresh (s : World) : List (Key × Nat) :=
  s.operations.filter fun entry =>
    match s.started[entry.2]? with
    | some operation => s.instant - operation.created < OPERATION_TTL || operation.result.isNone
    | none => false

def purge (s : World) : World :=
  { s with operations := fresh s }

/-- The first half of `operation`: the operation of the key, or a fresh one. -/
def operation (s : World) (key : Key) (fingerprint : Fingerprint) (provider : Provider) (run : Run) :
    World × Except RadioError Nat :=
  if s.stopped || !validateProvider s provider then (s, .error .expired)
  else
    let s := purge s
    match s.operations.lookup key with
    | some number =>
      match s.started[number]? with
      | none => (s, .error .expired)
      | some found =>
        if found.provider != provider || found.epoch != s.epoch provider then (s, .error .expired)
        else if found.fingerprint != fingerprint then (s, .error .conflict)
        else (s, .ok number)
    | none =>
      if s.operations.length ≥ MAX_OPERATIONS then
        (s, .error (.invalid "Too many pending radio operations"))
      else
        let number := s.started.length
        let created : Operation :=
          { key, provider, epoch := s.epoch provider, fingerprint, created := s.instant, result := none, run }
        ({ s with operations := (key, number) :: s.operations, started := s.started ++ [created] }, .ok number)

def setRun (s : World) (number : Nat) (run : Run) : World :=
  { s with started := s.started.modify number fun operation => { operation with run := run } }

/-- The future of the operation is over. -/
def finish (s : World) (number : Nat) (result : Except RadioError Page) : World :=
  { s with started := s.started.modify number fun operation =>
      { operation with run := .done, result := some result } }

def fail (s : World) (number : Nat) (error : RadioError) : World :=
  finish s number (.error error)

/-- `release` up to its await, for an operation. -/
def release (s : World) (number id : Nat) (session : Session) (error : RadioError) : World :=
  if session.closed.isSome then fail s number error
  else
    setRun (setSession s id { session with closed := some (.operation number) }) number
      (.openRelease id error)

/-- The end of `open`: the session is put in the table, or released. -/
def insertSession (s : World) (number id : Nat) (session : Session) (validation : Except RadioError Unit) :
    World :=
  match validation with
  | .error error => release s number id session error
  | .ok () =>
    if valid s session ∧ s.sessions.length < MAX_SESSIONS then
      let s := setSession { s with sessions := id :: s.sessions } id { session with inserted := true }
      finish s number (.ok session.data)
    else if valid s session then release s number id session (.invalid "Too many radio sessions")
    else release s number id session .expired

/-- The roots a `next` keeps for the songs that are still played. -/
def retainedIds (session : Session) (currentNativeIds : List String) : List Int :=
  ((session.items.getD []).filter fun item => item.isSong && currentNativeIds.contains item.nativeId).map
    Root.id

/-- What an operation was waiting for. -/
inductive Input where
  /-- It goes on, or gets the lock it waits for. -/
  | go
  | definition (fields : Except String (List (String × String)))
  | batch (result : Except String QueueBatch)
  | retained (items : Except RadioError (List Root))

/-- The session of a queue that has just been opened. -/
def newSession (s : World) (number : Nat) (request : OpenRequest) (epoch : Nat) (batch : QueueBatch) :
    Session :=
  { target := request.target, epoch, closed := none, touched := s.instant,
    data := { sessionId := s.objects.length, version := 1, batch }, locked := none, items := none,
    opener := number, opened := batch, inserted := false, returned := batch.state, closes := [] }

/-- A step of `open`. -/
def resumeOpen (s : World) (number : Nat) : Run → Input → Option World
  | .openStart request, .go =>
    if s.stopped || !validateProvider s request.target.provider then some (fail s number .expired)
    else
      let epoch := s.epoch request.target.provider
      match request.previousId with
      | none => some (setRun s number (.openDefinition request epoch))
      | some id =>
        match sessionFor s id request.target with
        | .error error => some (fail s number error)
        | .ok s => some (setRun s number (.openPrevious request epoch id))
  | .openPrevious request epoch id, .go => do
    let session ← s.objects[id]?
    if session.locked.isSome then none
    else if !valid s session then some (fail s number .expired)
    else
      let request := { request with previousState := some session.data.batch.state }
      some (setRun s number (.openDefinition request epoch))
  | .openDefinition _ _, .definition (.error error) => some (fail s number (.provider error))
  | .openDefinition request epoch, .definition (.ok fields) =>
    let request := { request with
      configuration := fields.foldl Configuration.orInsert request.configuration }
    some (setRun { s with opens := s.opens ++ [number] } number (.openCalled request epoch))
  | .openCalled _ _, .batch (.error error) => some (fail s number (.provider error))
  | .openCalled request epoch, .batch (.ok batch) =>
    let id := s.objects.length
    let session := newSession s number request epoch batch
    let s := { s with objects := s.objects ++ [session] }
    match validateBatch batch true with
    | .error error => some (insertSession s number id session (.error error))
    | .ok () =>
      if request.target.provider.id = none then some (insertSession s number id session (.error .expired))
      else some (setRun s number (.openRetain id))
  | .openRetain id, .retained (.error error) => do
    let session ← s.objects[id]?
    some (insertSession s number id session (.error error))
  | .openRetain id, .retained (.ok items) => do
    let session ← s.objects[id]?
    let session := { session with items := some items }
    some (insertSession (setSession s id session) number id session (.ok ()))
  | .openRelease id error, .go => do
    let session ← s.objects[id]?
    if session.locked.isSome then none
    else
      let session := { session with
        locked := some (.operation number), closes := session.closes ++ [session.data.batch.state] }
      some (setRun (setSession s id session) number (.openClosing id error))
  | .openClosing id error, .go => do
    let session ← s.objects[id]?
    some (fail (setSession s id { session with locked := none, items := none }) number error)
  | _, _ => none

/-- The end of a `next` that keeps the page as it is. -/
def abandon (s : World) (number id : Nat) (session : Session) (error : RadioError) : World :=
  fail (setSession s id { session with locked := none }) number error

/-- The end of a `next` whose session has become invalid: only the state is kept. -/
def keepState (s : World) (number id : Nat) (session : Session) (state : String) : World :=
  abandon s number id
    { session with data := { session.data with batch := { session.data.batch with state := state } } } .expired

/-- A step of `next`. -/
def resumeNext (s : World) (number : Nat) : Run → Input → Option World
  | .nextStart request, .go => do
    let session ← s.objects[request.session]?
    if session.locked.isSome then none
    else if !valid s session then some (fail s number .expired)
    else if session.data.version ≠ request.expectedVersion then some (fail s number .conflict)
    else if session.data.batch.exhausted then some (fail s number (.invalid "Radio has ended"))
    else
      let retained := retainedIds session request.currentNativeIds
      let run := .nextCalled request session.data.batch.state retained
      let session := { session with locked := some (.operation number) }
      some (setRun (setSession s request.session session) number run)
  | .nextCalled request _ _, .batch (.error error) => do
    let session ← s.objects[request.session]?
    some (abandon s number request.session session (.provider error))
  | .nextCalled request state _, .batch (.ok batch) => do
    let session ← s.objects[request.session]?
    let session := { session with returned := batch.state }
    if !valid s session then some (keepState s number request.session session batch.state)
    else
      match validateBatch batch false with
      | .error error => some (abandon s number request.session session error)
      | .ok () =>
        if !batch.configuration.same session.data.batch.configuration then
          some (abandon s number request.session session
            (.invalid "Radio configuration changed during continuation"))
        else if request.target.provider.id = none then
          some (abandon s number request.session session .expired)
        else some (setRun (setSession s request.session session) number (.nextRetain request state batch))
  | .nextRetain request _ _, .retained (.error error) => do
    let session ← s.objects[request.session]?
    some (abandon s number request.session session error)
  | .nextRetain request state batch, .retained (.ok items) => do
    let session ← s.objects[request.session]?
    if !valid s session then some (keepState s number request.session session batch.state)
    else
      let page := { session.data with version := session.data.version + 1, batch := batch }
      let session := { session with items := some items, data := page, locked := none }
      let success : Success := ⟨request.session, number, request.expectedVersion, state, page⟩
      some (finish { setSession s request.session session with pages := s.pages ++ [success] } number
        (.ok page))
  | _, _ => none

def unlock (s : World) (id : SessionId) : World :=
  { s with objects := s.objects.modify id fun session => { session with locked := none } }

/-- The session whose lock an operation holds. -/
def Run.holds : Run → Option SessionId
  | .openClosing id _ => some id
  | .nextCalled request _ _ => some request.session
  | .nextRetain request _ _ => some request.session
  | _ => none

/-- Dropping the future of an operation drops the guard it holds. -/
def unlockRun (s : World) (run : Run) : World :=
  run.holds.elim s (unlock s)

/-! ## Steps -/

inductive Action where
  | tick (elapsed : Nat)
  | setClock (wall : Nat)
  | addProvider (provider : Provider)
  | removeProvider (id : Int)
  /-- The account or the authentication of a provider changes. -/
  | renew (provider : Provider)
  /-- `open` or `next` up to the operation cache. -/
  | request (call : Call)
  | enter (request : Nat)
  | answer (request : Nat)
  | resume (operation : Nat) (input : Input)
  /-- The timeout of the operation, or a panic in it. -/
  | cut (operation : Nat)
  | close (id : SessionId)
  | collect
  | invalidate (provider : Int)
  /-- The first line of `shutdown`; the second is a `collect`. -/
  | stop
  /-- The next session of a closing call, up to the lock. -/
  | release (closer : Nat)
  | lock (closer : Nat)
  | closed (closer : Nat)
  | purge (closer : Nat)
  /-- The task of the closing call is aborted. -/
  | abort (closer : Nat)

def invalidateProvider (s : World) (provider : Provider) : World :=
  { s with epoch := Function.update s.epoch provider (s.epoch provider + 1) }

/-- The parts of a request that the operation cache is asked with. -/
def Call.operation (s : World) : Call → World × Except RadioError Nat
  | .opening id request =>
    let sorted := request.configuration.insertionSort fun a b => a.1 ≤ b.1
    let fingerprint := .opening request.target.queueId request.target.provider.id request.previousId
      request.reason request.input sorted
    RadioSessions.operation s (.opening id) fingerprint request.target.provider
      (.openStart { request with previousState := none })
  | .next id request =>
    RadioSessions.operation s (.next request.session id)
      (.next request.expectedVersion request.currentNativeIds) request.target.provider (.nextStart request)

/-- The last check of a call on the page its operation has. -/
def Call.answer (s : World) (page : Page) : Call → World × Except RadioError Page
  | .opening _ _ =>
    let live := page.sessionId ∈ s.sessions ∧ (s.objects[page.sessionId]?).any (valid s)
    (s, if live then .ok page else .error .expired)
  | .next _ request =>
    match sessionFor s request.session request.target with
    | .error error => (s, .error error)
    | .ok s => (s, .ok page)

def setStage (s : World) (number : Nat) (stage : Stage) : World :=
  { s with requests := s.requests.modify number fun request => { request with stage := stage } }

def setCloser (s : World) (number : Nat) (closer : Closer) : World :=
  { s with closers := s.closers.set number closer }

/-- The sessions go from the table to a closing call. -/
def take (s : World) (chosen : SessionId → Bool) (purges : Bool) : World :=
  { s with
    sessions := s.sessions.filter fun id => !chosen id
    closers := s.closers ++ [{ pending := s.sessions.filter chosen, stage := .idle, purges }] }

/-- A session `collect` takes. -/
def outdated (s : World) (id : SessionId) : Bool :=
  match s.objects[id]? with
  | none => false
  | some session => !valid s session || SESSION_TTL ≤ s.instant - session.touched

def step (isUuid : List Char → Bool) (s : World) : Action → Option World
  | .tick elapsed => some { s with instant := s.instant + elapsed }
  | .setClock wall => some { s with wall := wall }
  | .addProvider provider => do
    let id ← provider.id
    let old := s.registry id
    let s := { s with registry := Function.update s.registry id (some provider) }
    some (old.elim s (invalidateProvider s))
  | .removeProvider id =>
    let old := s.registry id
    let s := { s with registry := Function.update s.registry id none }
    some (old.elim s (invalidateProvider s))
  | .renew provider => some (invalidateProvider s provider)
  | .request call =>
    match call with
    | .opening id _ =>
      match checkOperationId isUuid s.wall id with
      | .error _ => some s
      | .ok () => some { s with requests := s.requests ++ [⟨call, .checked⟩] }
    | .next id request =>
      match checkOperationId isUuid s.wall id with
      | .error _ => some s
      | .ok () =>
        match sessionFor s request.session request.target with
        | .error _ => some s
        | .ok s => some { s with requests := s.requests ++ [⟨call, .checked⟩] }
  | .enter number => do
    let request ← s.requests[number]?
    match request.stage with
    | .checked =>
      match request.call.operation s with
      | (s, .error error) => some (setStage s number (.answered (.error error)))
      | (s, .ok operation) => some (setStage s number (.waiting operation))
    | _ => none
  | .answer number => do
    let request ← s.requests[number]?
    match request.stage with
    | .waiting operation => do
      let found ← s.started[operation]?
      let result ← found.result
      if found.epoch ≠ s.epoch found.provider ∨ !validateProvider s found.provider then
        some (setStage s number (.answered (.error .expired)))
      else
        match result with
        | .error error => some (setStage s number (.answered (.error error)))
        | .ok page =>
          let (s, answer) := request.call.answer s page
          some (setStage s number (.answered answer))
    | _ => none
  | .resume number input => do
    let operation ← s.started[number]?
    (resumeOpen s number operation.run input).orElse fun _ => resumeNext s number operation.run input
  | .cut number => do
    let operation ← s.started[number]?
    if operation.run = .done then none
    else some (fail (unlockRun s operation.run) number (.invalid "Radio operation did not complete"))
  | .close id => some (take s (· == id) false)
  | .collect => some (take s (outdated s) true)
  | .invalidate provider =>
    some (take s (fun id => (s.objects[id]?).any fun session => session.target.provider.id == some provider)
      false)
  | .stop => some { s with stopped := true }
  | .release number => do
    let closer ← s.closers[number]?
    match closer.stage, closer.pending with
    | .idle, id :: rest => do
      let session ← s.objects[id]?
      if session.closed.isSome then some (setCloser s number { closer with pending := rest })
      else
        let s := setSession s id { session with closed := some (.closer number) }
        some (setCloser s number { closer with pending := rest, stage := .waiting id })
    | _, _ => none
  | .lock number => do
    let closer ← s.closers[number]?
    match closer.stage with
    | .waiting id => do
      let session ← s.objects[id]?
      if session.locked.isSome then none
      else
        let session := { session with
          locked := some (.closer number), closes := session.closes ++ [session.data.batch.state] }
        some (setCloser (setSession s id session) number { closer with stage := .closing id })
    | _ => none
  | .closed number => do
    let closer ← s.closers[number]?
    match closer.stage with
    | .closing id => do
      let session ← s.objects[id]?
      let s := setSession s id { session with locked := none, items := none }
      some (setCloser s number { closer with stage := .idle })
    | _ => none
  | .purge number => do
    let closer ← s.closers[number]?
    if closer.purges ∧ closer.stage = .idle ∧ closer.pending = [] then
      some (setCloser (RadioSessions.purge s) number { closer with purges := false })
    else none
  | .abort number => do
    let closer ← s.closers[number]?
    let s := match closer.stage with
      | .closing id => unlock s id
      | _ => s
    some (setCloser s number { pending := [], stage := .idle, purges := false })

end Qcm.RadioSessions
