import Qcm.Lib.Hash
import Qcm.Lib.Runs

/-!
Playback sessions (`playback.rs`).

A source that a provider has opened for a song has to be closed again.  The
handlers, the collection of idle sessions, the invalidation of a provider and
the shutdown run concurrently; a step below is what one of them does between two
of its waits, or under one lock.
-/

namespace Qcm.Playback

open Lib

def maxSessions : Nat := 16

/-- `IDLE`, in nanoseconds. -/
def idle : Nat := 120 * 1000000000

/-- `Session`, with the object of its provider and the epoch that had. -/
structure Session where
  token : String
  provider : Nat
  epoch : Nat

/-- Who has a permit of the semaphore: a request that opens a source, or a session. -/
inductive Holder where
  | task (id : Nat)
  | session (token : String)
deriving DecidableEq

def Holder.token? : Holder → Option String
  | .task _ => none
  | .session token => some token

/-- Where a task waits. -/
inductive Task where
  | opening (provider : Nat) (epoch : Nat)
  | registering (session : Session)
  | prepared (session : Session)
  | rejected (session : Session)
  | collecting (todo : List Session)
  | removing (token : String) (todo : List Session)
  | stopping
  | finishing (provider : Option Int)

/-- The session whose registration the task has not finished. -/
def Task.held : Task → Option String
  | .registering session | .prepared session | .rejected session => some session.token
  | _ => none

/-- The sessions the task has a reference to. -/
def Task.refers : Task → List String
  | .registering session | .prepared session | .rejected session => [session.token]
  | .collecting todo | .removing _ todo => todo.map Session.token
  | _ => []

/-- `PlaybackSessions`, with the tasks; the sessions whose `ResourceLifetime` is cancelled, the cleanups that were
spawned and those that have ended, and every source other than of bytes that a provider has returned. -/
structure PlaybackSessions where
  sessions : Hash String Session := ∅
  closing : List (Option Int × String) := []
  stopping : Bool := false
  permits : List Holder := []
  slotsClosed : Bool := false
  tasks : Hash Nat Task := ∅
  cancelled : List String := []
  scheduled : List String := []
  cleaned : List String := []
  returned : List String := []
  touched : String → Nat := fun _ => 0
  now : Nat := 0
  ids : Nat → Option Int
  epochs : Nat → Nat

namespace PlaybackSessions

def put (s : PlaybackSessions) (id : Nat) (task : Task) : PlaybackSessions :=
  { s with tasks := s.tasks.insert id task }

def done (s : PlaybackSessions) (id : Nat) : PlaybackSessions := { s with tasks := s.tasks.erase id }

/-- `Session::valid` -/
def valid (s : PlaybackSessions) (session : Session) : Prop :=
  session.token ∉ s.cancelled ∧ session.epoch = s.epochs session.provider

instance (s : PlaybackSessions) (session : Session) : Decidable (s.valid session) :=
  inferInstanceAs (Decidable (_ ∧ _))

/-- `schedule_close` -/
def scheduleClose (s : PlaybackSessions) (session : Session) : PlaybackSessions :=
  if session.token ∈ s.cancelled then s
  else { s with
    cancelled := session.token :: s.cancelled
    closing := (s.closing.filter fun task => task.2 ∉ s.cleaned) ++ [(s.ids session.provider, session.token)]
    scheduled := s.scheduled ++ [session.token] }

/-- A session is taken out of the table and closed, if it is there. -/
def close (s : PlaybackSessions) (token : String) : PlaybackSessions :=
  match s.sessions.lookup token with
  | some session => scheduleClose { s with sessions := s.sessions.erase token } session
  | none => s

/-- Sessions are taken out of the table together, and closed one after the other. -/
def closeAll (s : PlaybackSessions) (gone : Session → Bool) : PlaybackSessions :=
  (s.sessions.filter fun _ session => gone session).values.foldl scheduleClose
    { s with sessions := s.sessions.filter fun _ session => !gone session }

/-- `finish_closing` takes the tasks it waits for. -/
def finishClosing (s : PlaybackSessions) (provider : Option Int) : PlaybackSessions :=
  { s with closing := s.closing.filter fun task => provider ≠ none ∧ task.1 ≠ provider }

/-- `get`: who asks for a session touches it. -/
def get (s : PlaybackSessions) (token : String) : PlaybackSessions :=
  match s.sessions.lookup token with
  | some session =>
    if s.valid session then
      { s with touched := fun other => if other = token then s.now else s.touched other }
    else s
  | none => s

/-- A request to open a source gets a permit, or is refused. -/
def requested (s : PlaybackSessions) (id provider : Nat) : PlaybackSessions :=
  if s.slotsClosed = true ∨ maxSessions ≤ s.permits.length then s
  else { s.put id (.opening provider (s.epochs provider)) with permits := .task id :: s.permits }

/-- The provider has opened a source, which is no source of bytes. -/
def opened (s : PlaybackSessions) (id provider epoch : Nat) (token : String) : PlaybackSessions :=
  { s.put id (.registering ⟨token, provider, epoch⟩) with
    permits := s.permits.map fun holder => if holder = .task id then .session token else holder
    returned := token :: s.returned
    touched := fun other => if other = token then s.now else s.touched other }

/-- The end of a registration, under the lock of the table. -/
def register (s : PlaybackSessions) (id : Nat) (session : Session) : PlaybackSessions :=
  if s.stopping = true ∨ maxSessions ≤ s.sessions.size then s.put id (.rejected session)
  else { s.done id with sessions := s.sessions.insert session.token session }

/-- What `collect` does about one of the sessions it has read from the table. -/
def collect (s : PlaybackSessions) (id : Nat) (session : Session) (todo : List Session) : PlaybackSessions :=
  if ¬ s.valid session ∨ idle < s.now - s.touched session.token then s.put id (.removing session.token todo)
  else s.put id (.collecting todo)

end PlaybackSessions

open PlaybackSessions

inductive Event where
  | elapse (time : Nat)
  | setEpoch (provider epoch : Nat)
  | setId (provider : Nat) (id : Option Int)
  | requested (id provider : Nat)
  | answered (id : Nat) (source : Option String)
  | prepared (id : Nat) (found : Bool)
  | registered (id : Nat)
  | rejected (id : Nat)
  | get (token : String)
  | close (token : String)
  | collect (id : Nat)
  | collectNext (id : Nat)
  | collectRemove (id : Nat)
  | invalidate (id : Nat) (provider : Int)
  | shutdown (id : Nat)
  | drain (id : Nat)
  | finishClosing (id : Nat)
  | cleaned (token : String)
  | dropped (token : String)

/-- The source whose registration a task has not finished. -/
def holding (s : PlaybackSessions) (id : Nat) : Option String := (s.tasks.lookup id).bind Task.held

def Registering (s : PlaybackSessions) (token : String) : Prop := ∃ id, holding s id = some token

/-- Nobody has a reference to the session. -/
def Unreferenced (s : PlaybackSessions) (token : String) : Prop :=
  token ∉ s.sessions ∧ (∀ entry ∈ s.tasks.entries, token ∉ entry.2.refers) ∧
    (token ∈ s.scheduled → token ∈ s.cleaned)

instance (s : PlaybackSessions) (token : String) : Decidable (Unreferenced s token) :=
  inferInstanceAs (Decidable (_ ∧ _))

/-- What an event does.  A request has a task of its own, and a token is drawn that was not drawn before.  The
requests that touch a session, resolve an address or read a resource are `get` for the table. -/
def perform (s : PlaybackSessions) : Event → Option PlaybackSessions
  | .elapse time => some { s with now := s.now + time }
  | .setEpoch provider epoch =>
    some { s with epochs := fun other => if other = provider then epoch else s.epochs other }
  | .setId provider id => some { s with ids := fun other => if other = provider then id else s.ids other }
  | .requested id provider => if id ∈ s.tasks then none else some (requested s id provider)
  | .answered id source =>
    match s.tasks.lookup id, source with
    | some (.opening provider epoch), some token =>
      if token ∈ s.returned then none else some (opened s id provider epoch token)
    | some (.opening _ _), none => some { s.done id with permits := s.permits.filter fun holder => holder ≠ .task id }
    | _, _ => none
  | .prepared id found =>
    match s.tasks.lookup id with
    | some (.registering session) =>
      if s.valid session ∧ found = true then some (s.put id (.prepared session))
      else some (s.put id (.rejected session))
    | _ => none
  | .registered id =>
    match s.tasks.lookup id with
    | some (.prepared session) => some (register s id session)
    | _ => none
  | .rejected id =>
    match s.tasks.lookup id with
    | some (.rejected session) => some ((scheduleClose s session).done id)
    | _ => none
  | .get token => some (s.get token)
  | .close token => some (s.close token)
  | .collect id => if id ∈ s.tasks then none else some (s.put id (.collecting s.sessions.values))
  | .collectNext id =>
    match s.tasks.lookup id with
    | some (.collecting (session :: todo)) => some (PlaybackSessions.collect s id session todo)
    | some (.collecting []) => some (s.done id)
    | _ => none
  | .collectRemove id =>
    match s.tasks.lookup id with
    | some (.removing token todo) => some ((s.close token).put id (.collecting todo))
    | _ => none
  | .invalidate id provider =>
    if id ∈ s.tasks then none
    else some ((s.closeAll fun session => s.ids session.provider = some provider).put id (.finishing (some provider)))
  | .shutdown id =>
    if id ∈ s.tasks then none else some { s.put id .stopping with stopping := true, slotsClosed := true }
  | .drain id =>
    match s.tasks.lookup id with
    | some .stopping => some ((s.closeAll fun _ => true).put id (.finishing none))
    | _ => none
  | .finishClosing id =>
    match s.tasks.lookup id with
    | some (.finishing provider) => some ((finishClosing s provider).done id)
    | _ => none
  | .cleaned token => if token ∈ s.scheduled then some { s with cleaned := token :: s.cleaned } else none
  | .dropped token =>
    if Unreferenced s token then some { s with permits := s.permits.filter fun holder => holder ≠ .session token }
    else none

def Step (s : PlaybackSessions) (event : Event) (t : PlaybackSessions) : Prop := perform s event = some t

/-- The source is in the table and was not closed, or it was closed once and is out of it. -/
def Once (s : PlaybackSessions) (token : String) : Prop :=
  (token ∈ s.sessions ∧ token ∉ s.scheduled) ∨ (token ∉ s.sessions ∧ s.scheduled.count token = 1)

end Qcm.Playback
