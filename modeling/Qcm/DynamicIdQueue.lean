import Qcm.IdQueue

/-!
The queue of a radio in the app: `DynamicIdQueue` (`app/src/model/id_queue.cpp`)
with its two `QueueNextQuery`s (`app/src/query/play_query.cpp`).

A request that was sent is a flight.  Its answer comes when it comes, also after
the query has gone on to another request or has given up waiting; a flight may
be lost, which is what `cancel` comes to.  A handler of a status runs where the
status changes.  While rows are removed or put in, `m_auto_removing` keeps the
handler of the current index from running, so the index is only set there.

The last fields of the state hold what has happened so far.
-/

namespace Qcm.DynamicIdQueue

open IdQueue (Queue Platform Item insertIds removeRows)

/-- `msg::model::QueueSession`; the one without an id is none. -/
structure QueueSession where
  id : String := ""
  version : Nat := 0
  configuration : List (String × String) := []
  exhausted : Bool := false

/-- `ordered_songs` of the backend (`backend/main/src/api/radio.rs`): the songs
of the library, each where it stands first. -/
def orderedSongs {Id : Type} [DecidableEq Id] : List Id → Finset Id → List Id
  | [], _ => []
  | id :: ids, songs => if id ∈ songs then id :: orderedSongs ids (songs.erase id) else orderedSongs ids songs

theorem mem_of_mem_orderedSongs {Id : Type} [DecidableEq Id] {ids : List Id} {songs : Finset Id} {id : Id}
    (member : id ∈ orderedSongs ids songs) : id ∈ songs := by
  induction ids generalizing songs with
  | nil => cases member
  | cons head ids ih =>
    rw [orderedSongs] at member
    split_ifs at member with known
    · obtain rfl | later := List.mem_cons.mp member
      · exact known
      · exact Finset.mem_of_mem_erase (ih later)
    · exact ih member

theorem orderedSongs_nodup {Id : Type} [DecidableEq Id] (ids : List Id) (songs : Finset Id) :
    (orderedSongs ids songs).Nodup := by
  induction ids generalizing songs with
  | nil => exact List.nodup_nil
  | cons head ids ih =>
    rw [orderedSongs]
    split_ifs with known
    · refine List.nodup_cons.mpr ⟨fun member => ?_, ih _⟩
      exact absurd rfl (Finset.ne_of_mem_erase (mem_of_mem_orderedSongs member))
    · exact ih songs

/-- `GetQueueNextRsp`, and `OpenQueueRsp`, which has the same fields.  The
backend lists no song twice. -/
structure Page (Id : Type) where
  songIds : List Id
  distinct : songIds.Nodup
  session : QueueSession

/-- The answer of the backend. -/
def response {Id : Type} [DecidableEq Id] (ids : List Id) (songs : Finset Id) (session : QueueSession) : Page Id :=
  ⟨orderedSongs ids songs, orderedSongs_nodup ids songs, session⟩

/-- The error of an answer, by its code. -/
inductive Failure where
  /-- `ERROR_CODE_QUEUE_SESSION_EXPIRED` -/
  | expired
  /-- `ERROR_CODE_QUEUE_SESSION_CONFLICT` -/
  | conflict
  /-- The code −1 of the transport. -/
  | transport
  | other
  deriving DecidableEq

inductive QueueOpenReason where
  | initial | reconfigure | restart
  deriving DecidableEq

/-- `OpenQueueReq` or `GetQueueNextReq`, without the id of the queue.  Operation
ids are numbers. -/
inductive Request (Id : Type) where
  | opening (reason : QueueOpenReason) (configuration : List (String × String)) (operation : Nat)
      (previousSession : String)
  | next (currentSongIds : List Id) (session : String) (expectedVersion operation : Nat)

/-- What a queue is constructed with: `std::hash` and Qt, whether the id of the
queue and those of songs are valid, and whether the radio can restart. -/
structure Context (Id H : Type) where
  platform : Platform Id H
  queueValid : Bool
  songsValid : List Id → Bool
  canRestart : Bool

inductive Status where
  | uninitialized | querying | finished | error
  deriving DecidableEq

/-- `QueueNextQuery` -/
structure Query (Id : Type) where
  status : Status := .uninitialized
  revision : Nat := 0
  sessionExpired : Bool := false
  transportFailure : Bool := false
  timer : Bool := false
  request : Option (Request Id) := none
  data : Page Id := ⟨[], List.nodup_nil, {}⟩

/-- A request that was sent, with the revision of its query. -/
structure Flight (Id : Type) where
  revision : Nat
  request : Request Id

variable {Id Extra H : Type}

def Request.opens : Request Id → Bool
  | .opening .. => true
  | .next .. => false

/-- The check of `QueueNextQuery::reload`. -/
def Context.valid (c : Context Id H) : Request Id → Bool
  | .opening .. => c.queueValid
  | .next ids .. => c.queueValid && c.songsValid ids

namespace Query

/-- `reset` -/
def reset (query : Query Id) : Query Id :=
  { query with
    timer := false, revision := query.revision + 1, transportFailure := false, sessionExpired := false
    status := .uninitialized }

/-- `reload`, with the request that it sends. -/
def reload (c : Context Id H) (query : Query Id) : Query Id × List (Flight Id) :=
  match query.request.filter c.valid with
  | none => ({ query with status := .error }, [])
  | some request =>
    ({ query with
        timer := true, revision := query.revision + 1, status := .querying, sessionExpired := false
        transportFailure := false }, [⟨query.revision + 1, request⟩])

/-- The timeout of the timer, which is a single shot. -/
def timeout (query : Query Id) : Query Id :=
  { query with timer := false, revision := query.revision + 1, transportFailure := true, status := .error }

/-- The end of a request that the query has been waiting for. -/
def settle (query : Query Id) : Except Failure (Page Id) → Query Id
  | .ok page => { query with timer := false, data := page, status := .finished }
  | .error failure =>
    { query with
      timer := false, sessionExpired := failure = .expired || failure = .conflict
      transportFailure := failure = .transport, status := .error }

end Query

/-! ## The queue -/

/-- `QueueConfigField` -/
structure QueueConfigField where
  key : String
  value : String
  options : List String

/-- A field with the value that a session has for it. -/
def QueueSession.configure (session : QueueSession) (field : QueueConfigField) : QueueConfigField :=
  { field with value := (session.configuration.lookup field.key).getD "" }

/-- A page that was applied: its session and version, and the songs of it that
were not in the queue. -/
structure Applied (Id : Type) where
  session : String
  version : Nat
  added : List Id

/-- What identifies a page. -/
def Applied.key (page : Applied Id) : String × Nat := (page.session, page.version)

structure State (Id Extra H : Type) where
  rows : Queue Id Extra H
  session : QueueSession := {}
  sessionExpired : Bool := false
  configuring : Bool := false
  suppressPrefetch : Bool := false
  configuration : List QueueConfigField := []
  query : Query Id := {}
  openQuery : Query Id := {}
  flights : List (Flight Id) := []
  operations : Nat := 0
  alive : Bool := true
  /-- The sessions that `close` was sent for. -/
  closed : List String := []
  /-- The sessions that came with the answers to an open. -/
  obtained : List String := []
  /-- The pages applied to earlier sessions, and those applied to this one. -/
  past : List (Applied Id) := []
  pages : List (Applied Id) := []

namespace State

def ids (s : State Id Extra H) : List Id := s.rows.queue.map Item.id

/-- The item at a row. -/
def itemAt (s : State Id Extra H) (row : Int) : Option (Item Id Extra) :=
  if row < 0 then none else s.rows.queue[row.toNat]?

/-- `close` -/
def close (s : State Id Extra H) (id : String) : State Id Extra H :=
  if id = "" then s else { s with closed := s.closed ++ [id] }

def values (s : State Id Extra H) : List (String × String) :=
  s.configuration.map fun field => (field.key, field.value)

/-- `m_session` is another one now, of which no page was applied so far. -/
def leave (s : State Id Extra H) (session : QueueSession) : State Id Extra H :=
  { s with session, past := s.past ++ s.pages, pages := [] }

/-- The handler of `Backend::disconnected`. -/
def disconnected (s : State Id Extra H) : State Id Extra H :=
  if s.session.id = "" then s else { s with sessionExpired := true }

/-- The destructor. -/
def destroyed (s : State Id Extra H) : State Id Extra H :=
  { (s.close s.session.id).leave {} with rows := Queue.empty, alive := false }

variable [DecidableEq H] (c : Context Id H)

/-- All rows are removed, where there are some. -/
def clear (s : State Id Extra H) : Option (State Id Extra H) :=
  if s.rows.rowCount = 0 then some s
  else (removeRows c.platform s.rows 0 s.rows.rowCount).map fun result => { s with rows := result.2 }

variable [DecidableEq Id]

/-- The songs of a page are put in behind the last row. -/
def append (s : State Id Extra H) (page : Page Id) : Option (State Id Extra H) :=
  (insertIds c.platform s.rows s.rows.rowCount page.songIds).map fun result =>
    { s with
      rows := result.2
      pages := s.pages ++
        [⟨page.session.id, page.session.version, page.songIds.filter fun id => id ∉ s.ids⟩] }

/-- `on_query_finished` -/
def onQueryFinished (s : State Id Extra H) : Option (State Id Extra H) :=
  if s.query.status = .querying then some s
  else if s.query.status ≠ .finished then
    some (if s.query.sessionExpired then { s with sessionExpired := true } else s)
  else
    let page := s.query.data
    if page.session.id ≠ s.session.id ∨ page.session.version ≤ s.session.version then some s
    else do
      let previousCount := s.rows.rowCount
      let s ← append c { s with session := page.session } page
      return { s with suppressPrefetch := s.rows.rowCount = previousCount }

/-- `on_open_finished` -/
def onOpenFinished (s : State Id Extra H) : Option (State Id Extra H) :=
  if s.openQuery.status = .querying then some s
  else
    let s := { s with configuring := false }
    let page := s.openQuery.data
    if s.openQuery.status ≠ .finished ∨ page.songIds = [] ∨ page.session.id = "" then
      let s := if s.openQuery.status = .finished then s.close page.session.id else s
      some (if s.openQuery.sessionExpired then { s with sessionExpired := true } else s)
    else do
      let previous := s.session.id
      let s := { s with query := s.query.reset, sessionExpired := false, suppressPrefetch := false }
      let s := s.leave page.session
      let s := { s with configuration := s.configuration.map page.session.configure }
      let s ← s.clear c
      let s ← s.append c page
      let s := { s with rows := { s.rows with currentIndex := 0 } }
      return s.close previous

/-- `reload` of the query of a session, and the handler of its status. -/
def reloadNext (s : State Id Extra H) : Option (State Id Extra H) :=
  let (query, sent) := s.query.reload c
  let t := { s with query, flights := s.flights ++ sent }
  if query.status = s.query.status then some t else t.onQueryFinished c

def reloadOpen (s : State Id Extra H) : Option (State Id Extra H) :=
  let (openQuery, sent) := s.openQuery.reload c
  let t := { s with openQuery, flights := s.flights ++ sent }
  if openQuery.status = s.openQuery.status then some t else t.onOpenFinished c

/-- `open` -/
def openQueue (s : State Id Extra H) (reason : QueueOpenReason) (configuration : List (String × String)) :
    Option (State Id Extra H) :=
  if s.configuring then some s
  else
    let previous := if s.sessionExpired then "" else s.session.id
    let request := .opening reason configuration s.operations previous
    { s with
      openQuery := { s.openQuery with request := some request }
      operations := s.operations + 1, configuring := true }.reloadOpen c

def ensureStarted (s : State Id Extra H) : Option (State Id Extra H) :=
  if s.configuring then some s
  else if s.sessionExpired then s.openQueue c .initial s.values
  else if s.session.id ≠ "" then some s
  else if s.openQuery.transportFailure then { s with configuring := true }.reloadOpen c
  else s.openQueue c .initial s.values

def restart (s : State Id Extra H) : Option (State Id Extra H) :=
  if c.canRestart || s.sessionExpired then s.openQueue c .restart s.values else some s

def configure (s : State Id Extra H) (key value : String) : Option (State Id Extra H) :=
  if s.configuring then some s
  else
    match s.configuration.find? fun field => field.key = key with
    | none => some s
    | some field =>
      if field.value = value ∨ value ∉ field.options then some s
      else
        s.openQueue c .reconfigure (s.values.map fun entry => if entry.1 = key then (key, value) else entry)

/-- `request_next` -/
def requestNext (s : State Id Extra H) : Option (State Id Extra H) :=
  if s.query.transportFailure then s.reloadNext c
  else
    let request := .next s.ids s.session.id s.session.version s.operations
    { s with query := { s.query with request := some request }, operations := s.operations + 1 }.reloadNext c

/-- `on_request_next` -/
def onRequestNext (s : State Id Extra H) : Option (State Id Extra H) :=
  if s.session.id = "" || s.sessionExpired || s.session.exhausted || s.suppressPrefetch then some s
  else if s.query.status = .querying ∨ s.rows.currentIndex < s.rows.rowCount - 3 then some s
  else s.requestNext c

/-- The played rows in front of the one before the current one are removed. -/
def trim (s : State Id Extra H) (idx : Int) : Option (State Id Extra H) :=
  if 1 < idx ∧ idx < s.rows.rowCount then
    (removeRows c.platform s.rows 0 (idx - 1)).map fun result => { s with rows := result.2 }
  else some s

/-- `on_current_index_changed` -/
def onCurrentIndexChanged (s : State Id Extra H) (idx : Int) : Option (State Id Extra H) := do
  let s ← s.trim c idx
  { s with suppressPrefetch := false }.onRequestNext c

def setCurrentIndex (s : State Id Extra H) (idx : Int) : Option (State Id Extra H) :=
  if s.rows.currentIndex = idx then some s
  else { s with rows := { s.rows with currentIndex := idx } }.onCurrentIndexChanged c idx

/-- The slot of `requestNext`. -/
def onRequested (s : State Id Extra H) : Option (State Id Extra H) :=
  { s with suppressPrefetch := false }.onRequestNext c

def invalidateSession (s : State Id Extra H) : Option (State Id Extra H) := do
  let closing := s.close s.session.id
  let s := { closing with query := closing.query.reset, openQuery := closing.openQuery.reset }.leave {}
  let s ← { s with sessionExpired := false, configuring := false, suppressPrefetch := false }.clear c
  return { s with rows := { s.rows with currentIndex := -1 } }

/-- The timer of an open ends, and the handler of its status runs. -/
def openTimeout (s : State Id Extra H) : Option (State Id Extra H) :=
  let t := { s with openQuery := s.openQuery.timeout }
  if t.openQuery.status = s.openQuery.status then some t else t.onOpenFinished c

def nextTimeout (s : State Id Extra H) : Option (State Id Extra H) :=
  let t := { s with query := s.query.timeout }
  if t.query.status = s.query.status then some t else t.onQueryFinished c

/-- The answer to an open, for a query that goes on with it or one that does not. -/
def answerOpen (s : State Id Extra H) (revision : Nat) (result : Except Failure (Page Id)) :
    Option (State Id Extra H) :=
  if s.alive = false ∨ revision ≠ s.openQuery.revision then
    match result with
    | .ok page => some (s.close page.session.id)
    | .error _ => some s
  else
    let t := { s with openQuery := s.openQuery.settle result }
    if t.openQuery.status = s.openQuery.status then some t else t.onOpenFinished c

def answerNext (s : State Id Extra H) (revision : Nat) (result : Except Failure (Page Id)) :
    Option (State Id Extra H) :=
  if s.alive = false ∨ revision ≠ s.query.revision then some s
  else
    let t := { s with query := s.query.settle result }
    if t.query.status = s.query.status then some t else t.onQueryFinished c

/-- The session of an answer, if there is one. -/
def gained : Except Failure (Page Id) → List String
  | .ok page => if page.session.id = "" then [] else [page.session.id]
  | .error _ => []

/-- A flight is over. -/
def answer (s : State Id Extra H) (index : Nat) (result : Except Failure (Page Id)) : Option (State Id Extra H) :=
  match s.flights[index]? with
  | none => none
  | some flight =>
    let s := { s with flights := s.flights.eraseIdx index }
    if flight.request.opens then
      { s with obtained := s.obtained ++ gained result }.answerOpen c flight.revision result
    else s.answerNext c flight.revision result

end State

inductive Event (Id : Type) where
  | ensureStarted
  | restart
  | configure (key value : String)
  | invalidateSession
  /-- `Backend::disconnected` -/
  | disconnected
  | requestNext
  | setCurrentIndex (idx : Int)
  | openTimeout
  | nextTimeout
  | answer (index : Nat) (result : Except Failure (Page Id))
  | lose (index : Nat)
  /-- The destructor. -/
  | destroyed

/-- Whether an event can come: an answer to a request that was sent, a timer that
runs, or what is asked of a queue that is there. -/
def Event.Possible (s : State Id Extra H) : Event Id → Prop
  | .answer index _ | .lose index => index < s.flights.length
  | .openTimeout => s.alive = true ∧ s.openQuery.timer = true
  | .nextTimeout => s.alive = true ∧ s.query.timer = true
  | _ => s.alive = true

variable [DecidableEq H] [DecidableEq Id] (c : Context Id H)

open State in
/-- One event; a queue that is gone only meets the answers that are still to come. -/
def step (s : State Id Extra H) : Event Id → Option (State Id Extra H)
  | .answer index result => s.answer c index result
  | .lose index => if index < s.flights.length then some { s with flights := s.flights.eraseIdx index } else none
  | event =>
    if s.alive = false then none
    else
      match event with
      | .ensureStarted => s.ensureStarted c
      | .restart => s.restart c
      | .configure key value => s.configure c key value
      | .invalidateSession => s.invalidateSession c
      | .disconnected => some s.disconnected
      | .requestNext => s.onRequested c
      | .setCurrentIndex idx => s.setCurrentIndex c idx
      | .openTimeout => if s.openQuery.timer = false then none else s.openTimeout c
      | .nextTimeout => if s.query.timer = false then none else s.nextTimeout c
      | .destroyed => some s.destroyed
      | .answer _ _ | .lose _ => none

/-- A queue as it is constructed. -/
def constructed (configuration : List QueueConfigField) : State Id Extra H :=
  { rows := Queue.empty, configuration }

end Qcm.DynamicIdQueue
