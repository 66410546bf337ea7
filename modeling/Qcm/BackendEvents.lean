import Qcm.Lib.Hash

/-!
The messages about providers (`process_event.rs`).

One loop handles the backend events one after the other and merges the sync
commits into `sync_status`.  A new provider is synced by a task, and a spawned
continuation sends the status of all providers once the task is over, with the
map as it was when the event was handled.  A message is put together in one step
and sent in a later one, as there are awaits between them; the global tables may
change at any time.
-/

namespace Qcm.BackendEvents

open Lib

inductive SyncState where
  | finished
  | syncing
  | notAuth
  | networkError
  | dbError
  | ioError
  | unknownError
deriving DecidableEq, Repr

inductive SyncCommit where
  | addAlbum (n : Int32)
  | addArtist (n : Int32)
  | addSong (n : Int32)
  | setState (state : SyncState)
deriving DecidableEq, Repr

structure ProviderSyncStatus where
  id : Option Int
  state : SyncState
  album : Int32
  artist : Int32
  song : Int32
deriving DecidableEq, Repr

/-- `ProviderSyncStatus::default`. -/
def ProviderSyncStatus.empty : ProviderSyncStatus := ⟨none, .finished, 0, 0, 0⟩

/-- A new state starts the counters again. -/
def mergeSyncStatus (v : ProviderSyncStatus) : SyncCommit → ProviderSyncStatus
  | .setState state => { ProviderSyncStatus.empty with id := v.id, state := state }
  | .addAlbum n => { v with album := v.album + n }
  | .addArtist n => { v with artist := v.artist + n }
  | .addSong n => { v with song := v.song + n }

/-- A row of the library table. -/
structure Library where
  libraryId : Int
  name : String
  providerId : Int
  nativeId : String
  editTime : Int
deriving DecidableEq, Repr

/-- What a provider tells about itself; `Auth` is the type of its auth method. -/
structure Provider (Auth : Type) where
  id : Option Int
  name : String
  typeName : String
  baseUrl : String
  authMethod : Auth

structure AuthInfo (Auth : Type) where
  serverUrl : String
  method : Auth

structure ProviderStatus (Auth : Type) where
  id : Option Int
  name : String
  typeName : String
  syncStatus : Option ProviderSyncStatus
  authInfo : Option (AuthInfo Auth)
  libraries : List Library
  epoch : Nat

inductive Message (Auth : Type) where
  | providerStatus (statuses : List (ProviderStatus Auth)) (full : Bool)
  | providerSyncStatus (status : ProviderSyncStatus)

/-- What `send_provider_status` reads besides the map: the registered providers
with the stamps of `provider_snapshot`, and the library table. -/
structure Global (Auth : Type) where
  providers : List (Provider Auth)
  stamps : Hash Int Nat
  libraries : List Library

variable {Auth : Type}

/-- The status of one provider; a provider without an id has none. -/
def providerStatus (g : Global Auth) (syncStatus : Hash Int ProviderSyncStatus) (p : Provider Auth) :
    Option (ProviderStatus Auth) :=
  p.id.map fun id =>
    { id := some id
      epoch := Hash.value g.stamps id 0
      name := p.name
      typeName := p.typeName
      authInfo := some ⟨p.baseUrl, p.authMethod⟩
      libraries := g.libraries.filter fun library => decide (some library.providerId = p.id)
      syncStatus := syncStatus.lookup id }

/-- The message of `send_provider_status`. -/
def statusMessage (g : Global Auth) (syncStatus : Hash Int ProviderSyncStatus) : Message Auth :=
  .providerStatus (g.providers.filterMap (providerStatus g syncStatus)) true

/-- The status a commit leaves: merged into the one there is, or into a new one. -/
def commitStatus (syncStatus : Hash Int ProviderSyncStatus) (id : Int) (commit : SyncCommit) :
    ProviderSyncStatus :=
  match syncStatus.lookup id with
  | some v => mergeSyncStatus v commit
  | none => { mergeSyncStatus ProviderSyncStatus.empty commit with id := some id }

inductive BackendEvent where
  | first
  | newProvider (id : Int)
  | updateProvider (id : Int)
  | deleteProvider (id : Int)
  | replaceProvider (id : Int)
  | syncCommit (id : Int) (commit : SyncCommit)
deriving DecidableEq, Repr

/-- A message the loop is about to send; the continuation of a new provider is
spawned after it. -/
structure Handling (Auth : Type) where
  message : Message Auth
  spawns : Bool

/-- A spawned continuation. -/
inductive Continuation (Auth : Type) where
  /-- The sync is not over; the map is the one captured. -/
  | waiting (syncStatus : Hash Int ProviderSyncStatus)
  | sending (message : Message Auth)

structure State (Auth : Type) where
  global : Global Auth
  syncStatus : Hash Int ProviderSyncStatus
  handling : Option (Handling Auth)
  continuations : List (Continuation Auth)
  /-- What the client received, in its order. -/
  received : List (Message Auth)

def State.initial : State Auth := ⟨⟨[], ∅, []⟩, ∅, none, [], []⟩

/-- What can happen next.  A message fails when `populate` or the sink does, and a
continuation is dropped when its provider was gone or its message failed. -/
inductive Label (Auth : Type) where
  | environment (g : Global Auth)
  | handle (event : BackendEvent)
  | sent
  | failed
  | synced (k : Nat)
  | delivered (k : Nat)
  | dropped (k : Nat)

/-- An event comes to the loop. -/
def handle (s : State Auth) : BackendEvent → State Auth
  | .syncCommit id commit =>
    let status := commitStatus s.syncStatus id commit
    { s with
      syncStatus := s.syncStatus.insert id status
      handling := some ⟨.providerSyncStatus status, false⟩ }
  | .newProvider _ => { s with handling := some ⟨statusMessage s.global s.syncStatus, true⟩ }
  | .first | .updateProvider _ | .deleteProvider _ | .replaceProvider _ =>
    { s with handling := some ⟨statusMessage s.global s.syncStatus, false⟩ }

def step (s : State Auth) : Label Auth → Option (State Auth)
  | .environment g => some { s with global := g }
  | .handle event => if s.handling.isNone then some (handle s event) else none
  | .sent =>
    s.handling.map fun handling =>
      { s with
        handling := none
        received := s.received ++ [handling.message]
        continuations :=
          if handling.spawns then s.continuations ++ [.waiting s.syncStatus] else s.continuations }
  | .failed => s.handling.map fun _ => { s with handling := none }
  | .synced k =>
    match s.continuations[k]? with
    | some (.waiting syncStatus) =>
      some { s with
        continuations := s.continuations.set k (.sending (statusMessage s.global syncStatus)) }
    | _ => none
  | .delivered k =>
    match s.continuations[k]? with
    | some (.sending message) =>
      some { s with
        received := s.received ++ [message]
        continuations := s.continuations.eraseIdx k }
    | _ => none
  | .dropped k =>
    if k < s.continuations.length then some { s with continuations := s.continuations.eraseIdx k }
    else none

/-- Every event was handled, and every continuation is over. -/
def Quiescent (s : State Auth) : Prop := s.handling = none ∧ s.continuations = []

/-- The sync status of a provider in a message, if the message carries one. -/
def carried (p : Int) : Message Auth → Option ProviderSyncStatus
  | .providerStatus statuses _ =>
    statuses.findSome? fun status => if status.id = some p then status.syncStatus else none
  | .providerSyncStatus status => if status.id = some p then some status else none

/-- The last sync status of a provider among the messages. -/
def lastStatus (p : Int) (received : List (Message Auth)) : Option ProviderSyncStatus :=
  received.foldl (fun last message => (carried p message).or last) none

/-- The message the client receives in a step. -/
def leaving (s : State Auth) : Label Auth → Option (Message Auth)
  | .sent => s.handling.map Handling.message
  | .delivered k =>
    match s.continuations[k]? with
    | some (.sending message) => some message
    | _ => none
  | _ => none

/-- The commit of a provider, if the step handles one. -/
def commitOf (p : Int) : Label Auth → Option SyncCommit
  | .handle (.syncCommit id commit) => if id = p then some commit else none
  | _ => none

/-- The status that commits of a provider make, one after the other. -/
def mergedStatus (p : Int) (commits : List SyncCommit) : Option ProviderSyncStatus :=
  if commits = [] then none
  else some (commits.foldl mergeSyncStatus { ProviderSyncStatus.empty with id := some p })

end Qcm.BackendEvents
