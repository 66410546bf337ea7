import Qcm.SyncBatch

/-!
The sync coordinator: the write lock of each provider with its revision, the
runs of a full sync, the item retentions, and the steps of everyone who uses
them.  A run is borrowed by one call at a time, but every call waits at its
awaits, so the steps of other writers, a cancellation and the drop of a
retention fall in between.  A transaction reads and writes one state of the
database and is taken as one step at its commit.  Counters are natural numbers:
the checked additions of the source fail only after 2^64 steps.
-/

namespace Qcm.SyncCoordinator

open Lib SyncDatabase SyncBatch

def maxSeen : Nat := 200000

/-- A held `WriteGuard`: the origin it was asked for with, the run whose call
holds it, what `retained_items` has told its holder, and the items whose
favorite the holder has stamped. -/
structure Guard where
  origin : Option Nat
  holder : Option Nat
  retained : Option (List Int)
  stamped : List Int

/-- `ProviderState` with its `WriteState`. -/
structure ProviderState where
  guard : Option Guard
  revision : Nat
  favorites : Hash Int Nat
  favoriteOverflow : Nat
  retained : Hash Int Nat
  active : Nat
  sequence : Nat

def ProviderState.fresh : ProviderState := ⟨none, 0, ∅, 0, ∅, 0, 0⟩

/-- `write_guard`, once the lock is free and the origin is checked. -/
def ProviderState.acquire (state : ProviderState) (origin holder : Option Nat) : ProviderState :=
  { state with
    guard := some ⟨origin, holder, none, []⟩
    revision := if origin.isNone then state.revision + 1 else state.revision }

def ProviderState.release (state : ProviderState) : ProviderState := { state with guard := none }

/-- The guard after `retained_items`. -/
def Guard.readRetained (guard : Guard) (state : ProviderState) : Guard :=
  { guard with retained := some state.retained.keys }

/-- `WriteGuard::favorite`. -/
def ProviderState.favorite (state : ProviderState) (guard : Guard) (id : Int) : ProviderState :=
  let stamped := { state with guard := some { guard with stamped := id :: guard.stamped } }
  if state.active = 0 then stamped
  else if state.favorites.size < maxSeen then
    { stamped with favorites := state.favorites.insert id state.revision }
  else { stamped with favoriteOverflow := state.revision }

/-- `favorite_changed_after`. -/
def ProviderState.favoriteChangedAfter (state : ProviderState) (revision : Nat) (id : Int) : Bool :=
  revision < state.favoriteOverflow || (state.favorites.lookup id).any (revision < ·)

/-- `SyncCancellation::cancel`, and the drop of a run. -/
def ProviderState.cancel (state : ProviderState) (token : Nat) : ProviderState :=
  { state with active := if state.active = token then 0 else state.active }

/-- The counts after one more retention of these ids. -/
def retainCounts (counts : Hash Int Nat) (ids : List Int) : Hash Int Nat :=
  ids.foldl (fun counts id => counts.insert id (counts.value id 0 + 1)) counts

/-- One id of a dropped retention; the source's count is positive there. -/
def dropCount (counts : Hash Int Nat) (id : Int) : Hash Int Nat :=
  match counts.lookup id with
  | none => counts
  | some count => if count - 1 = 0 then counts.erase id else counts.insert id (count - 1)

/-- `ItemRetention::drop`. -/
def dropCounts (counts : Hash Int Nat) (ids : List Int) : Hash Int Nat := ids.foldl dropCount counts

/-- Who calls a run: `core` code, or a plugin through the Lua bindings. -/
inductive Caller where
  | core | plugin
  deriving DecidableEq

/-- The calls of a run that do not wait. -/
inductive Request where
  | declare (scopes : List SyncScope) (required : List ItemType)
  | completeLibraries
  | complete (scope : SyncScope)
  | sealing
  deriving DecidableEq

/-- The calls of a run. -/
inductive Op where
  | request (request : Request)
  | libraries (ids : List Int)
  | items (scope : SyncScope) (items : List ItemRef)
  | batch (batch : Batch)
  | finalize
  deriving DecidableEq

/-- How far a call that waits has come: before its guard, or with it. -/
inductive Call where
  | idle
  | waiting (caller : Caller) (op : Op)
  | inside (caller : Caller) (op : Op)
  deriving DecidableEq

/-- `SyncRun`. -/
structure SyncRun where
  provider : Int
  token : Nat
  revision : Nat
  scopes : Finset SyncScope
  completed : Finset SyncScope
  seen : Finset Int
  libraries : Finset Int
  librariesComplete : Bool
  declared : Bool
  sealed : Bool
  failed : Bool
  generation : Option (Nat × Nat)
  call : Call

def SyncRun.fresh (provider : Int) (token revision : Nat) : SyncRun :=
  ⟨provider, token, revision, ∅, ∅, ∅, ∅, false, false, false, false, none, .idle⟩

/-- An error of a call, with whether the call itself marked the run failed. -/
structure Fault where
  marks : Bool
  text : String
  deriving DecidableEq

/-- An error that leaves the run as it is. -/
def refusal (text : String) : Fault := ⟨false, text⟩

/-- An error after `self.failed = true`. -/
def failure (text : String) : Fault := ⟨true, text⟩

section Checks

/-- `WriteGeneration::check`; a generation is a shared counter and the value it
must have. -/
def generationCheck (cells : Nat → Nat) (generation : Option (Nat × Nat)) : Except Fault Unit :=
  match generation with
  | none => .ok ()
  | some (cell, expected) =>
    if cells cell ≠ expected then .error (refusal "provider generation changed") else .ok ()

variable (run : SyncRun) (cells : Nat → Nat) (active : Nat)

/-- `SyncRun::running`. -/
def SyncRun.running : Except Fault Unit := do
  generationCheck cells run.generation
  if run.failed || run.sealed || active ≠ run.token then
    .error (refusal "sync session is not writable")

/-- The check of one declared scope. -/
def scopeCheck (libraries : Finset Int) (required : List ItemType) (scope : SyncScope) :
    Except Fault Unit :=
  match ItemType.tryFrom scope.itemType with
  | none => .error (refusal "invalid scope type")
  | some kind =>
    match scope.libraryId with
    | some id =>
      if id ∉ libraries ∨ kind ∉ required then
        .error (refusal "scope is outside discovered libraries or required types")
      else .ok ()
    | none =>
      if kind ≠ .mix ∧ kind ≠ .radio then
        .error (refusal "only remote mixes and radios have a global full-sync scope")
      else .ok ()

/-- `SyncRun::declare`. -/
def SyncRun.declare (scopes : List SyncScope) (required : List ItemType) : Except Fault SyncRun := do
  run.running cells active
  if run.declared then .error (refusal "scopes have already been declared") else
  if scopes.toFinset.card ≠ scopes.length ∨ maxSeen < scopes.length then
    .error (refusal "duplicate or excessive scopes")
  else
  scopes.forM (scopeCheck run.libraries required)
  if ∃ id ∈ run.libraries, ∃ kind ∈ required, SyncScope.new (some id) kind ∉ scopes then
    .error (refusal "required library scope is missing")
  else if SyncScope.new none .mix ∉ scopes then .error (refusal "global mix scope is missing")
  else return { run with scopes := scopes.toFinset, declared := true }

/-- `SyncRun::complete_libraries`. -/
def SyncRun.completeLibraries : Except Fault SyncRun := do
  run.running cells active
  return { run with librariesComplete := true }

/-- `SyncRun::complete`. -/
def SyncRun.complete (scope : SyncScope) : Except Fault SyncRun := do
  run.running cells active
  if scope ∉ run.scopes then .error (refusal "unknown sync scope")
  else return { run with completed := insert scope run.completed }

/-- `SyncRun::seal`. -/
def SyncRun.seal : Except Fault SyncRun := do
  run.running cells active
  if !run.declared || !run.librariesComplete || run.completed ≠ run.scopes then
    .error (refusal "sync enumeration is incomplete")
  else return { run with sealed := true }

def SyncRun.request : Request → Except Fault SyncRun
  | .declare scopes required => run.declare cells active scopes required
  | .completeLibraries => run.completeLibraries cells active
  | .complete scope => run.complete cells active scope
  | .sealing => run.seal cells active

/-- What `observe_libraries` checks before it looks the libraries up. -/
def SyncRun.beginLibraries (ids : List Int) : Except Fault Unit := do
  run.running cells active
  if run.declared then .error (refusal "libraries must be observed before scopes are declared")
  else if maxSeen < ids.length + run.libraries.card then .error (failure "observation limit exceeded")
  else .ok ()

/-- One turn of the loop of `observe_libraries`. -/
def SyncRun.observeLibrary (db : Database) (id : Int) : Except Fault SyncRun :=
  match db.libraries.lookup id with
  | none => .error (refusal "missing observed library")
  | some library =>
    if library.providerId ≠ run.provider then
      .error (failure "observed library belongs to another provider")
    else .ok { run with libraries := insert id run.libraries }

/-- What `observe_items` checks before it asks for the guard. -/
def SyncRun.beginItems (scope : SyncScope) (items : List ItemRef) : Except Fault Unit := do
  run.running cells active
  if scope ∉ run.scopes ∨ scope ∈ run.completed then .error (refusal "scope is not writable")
  else if maxSeen < items.length + run.seen.card then .error (failure "observation limit exceeded")
  else .ok ()

/-- The ids `observe_items` resolves its items to. -/
def observedIds (db : Database) (provider : Int) (scope : SyncScope) (items : List ItemRef) :
    Except Fault (List Int) :=
  items.mapM fun key =>
    match resolve db provider key [] with
    | .error text => .error (refusal text)
    | .ok (id, row) =>
      if row.libraryId ≠ scope.libraryId ∨ row.kind.code ≠ scope.itemType then
        .error (failure "observed item is outside scope")
      else .ok id

/-- What `finalize` checks before it asks for the guard. -/
def SyncRun.beginFinalize : Except Fault Unit :=
  if run.failed || !run.sealed then .error (refusal "sync was not sealed successfully") else .ok ()

/-- The checks of a call that goes on to wait. -/
def SyncRun.begin : Op → Except Fault Unit
  | .request request => (run.request cells active request).map fun _ => ()
  | .libraries ids => run.beginLibraries cells active ids
  | .items scope items => run.beginItems cells active scope items
  | .batch _ => run.running cells active
  | .finalize => run.beginFinalize

end Checks

/-- The errors that a call is given after which the run is marked failed: by the
call, or by the binding that called it.  The binding of `sync_batch` alone does
not mark a batch that was refused at once, and no binding calls `finalize`. -/
def marked (caller : Caller) (op : Op) (fault : Fault) : Bool :=
  fault.marks || (caller = .plugin && match op with
    | .batch _ => false
    | .finalize => false
    | _ => true)

/-- The run after a call that returned an error. -/
def SyncRun.refuse (run : SyncRun) (caller : Caller) (op : Op) (fault : Fault) : SyncRun :=
  { run with failed := run.failed || marked caller op fault, call := .idle }

/-- An error of the database or of the guard in the middle of a call: only
`sync_batch` marks its run for it. -/
def broken : Op → Fault
  | .batch _ => failure "database error"
  | _ => refusal "database error"

/-- The coordinator with the database and everything that refers to it.
`retentions` are the live retentions, `cells` the plugin generations. -/
structure World where
  db : Database
  providers : Int → ProviderState
  runs : Nat → Option SyncRun
  started : Nat
  retentions : List (Int × List Int)
  cells : Nat → Nat

def World.setProvider (w : World) (provider : Int) (state : ProviderState) : World :=
  { w with providers := Function.update w.providers provider state }

def World.setRun (w : World) (k : Nat) (run : Option SyncRun) : World :=
  { w with runs := Function.update w.runs k run }

/-- The lock is dropped when the call of the run that holds it ends. -/
def World.releaseFor (w : World) (provider : Int) (k : Nat) : World :=
  if (w.providers provider).guard.any (·.holder = some k) then
    w.setProvider provider (w.providers provider).release
  else w

/-- What happens to the coordinator. -/
inductive Event where
  | acquired (provider : Int) (origin : Option Nat)
  | released (provider : Int)
  | wrote (provider : Int) (origin : Option Nat)
  | stamped (provider : Int) (id : Int)
  | setFavorite (provider : Int) (id : Int) (value : Bool)
  | invalidatedSync (provider : Int)
  | readRetained (provider : Int)
  | droppedBefore (provider : Int) (now : Int)
  | started (provider : Int) (k : Nat)
  | cancelled (provider : Int) (token : Nat)
  | retained (provider : Int) (ids : List Int)
  | forgot (provider : Int) (ids : List Int)
  | advanced (cell : Nat)
  | bound (k : Nat) (cell : Nat)
  | failed (k : Nat)
  | requested (k : Nat) (request : Request)
  | refused (k : Nat) (caller : Caller) (op : Op) (fault : Fault)
  | began (k : Nat) (caller : Caller) (op : Op)
  | entered (k : Nat) (caller : Caller) (op : Op)
  | observedLibrary (k : Nat) (id : Int)
  | observedItems (k : Nat) (scope : SyncScope) (ids : List Int)
  | batched (provider : Int) (k : Nat) (batch : Batch)
  | finalized (provider : Int) (k : Nat) (pruned : List Int)
  | returned (k : Nat)
  | abandoned (k : Nat)
  | dropped (k : Nat)

/-- One step. -/
inductive Step (owner : Int → Int) : World → Event → World → Prop where
  /-- `write` by anyone but a call of a run. -/
  | acquire {w : World} {p : Int} {origin : Option Nat} (free : (w.providers p).guard = none)
      (live : ∀ token, origin = some token → (w.providers p).active = token) :
      Step owner w (.acquired p origin) (w.setProvider p ((w.providers p).acquire origin none))
  | release {w : World} {p : Int} {guard : Guard} (held : (w.providers p).guard = some guard)
      (outside : guard.holder = none) :
      Step owner w (.released p) (w.setProvider p (w.providers p).release)
  /-- Any write of a guard's holder. -/
  | write {w : World} {p : Int} {guard : Guard} {db : Database}
      (held : (w.providers p).guard = some guard) (outside : guard.holder = none)
      (owned : Owned owner db) : Step owner w (.wrote p guard.origin) { w with db := db }
  | stamp {w : World} {p : Int} {guard : Guard} {id : Int}
      (held : (w.providers p).guard = some guard) (outside : guard.holder = none) :
      Step owner w (.stamped p id) (w.setProvider p ((w.providers p).favorite guard id))
  /-- The upsert of `SetFavorite`, under the guard it stamped the item with. -/
  | setFavorite {w : World} {p : Int} {guard : Guard} {id : Int} {value : Bool} {now : Int}
      (held : (w.providers p).guard = some guard) (outside : guard.holder = none)
      (foreign : guard.origin = none) (stamped : id ∈ guard.stamped) (mine : owner id = p) :
      Step owner w (.setFavorite p id value) { w with db := setFavorite w.db id value now }
  | invalidateSync {w : World} {p : Int} {guard : Guard}
      (held : (w.providers p).guard = some guard) (outside : guard.holder = none) :
      Step owner w (.invalidatedSync p) (w.setProvider p { w.providers p with active := 0 })
  /-- `retained_items`, by whoever holds the guard. -/
  | readRetained {w : World} {p : Int} {guard : Guard} (held : (w.providers p).guard = some guard) :
      Step owner w (.readRetained p)
        (w.setProvider p { w.providers p with guard := some (guard.readRetained (w.providers p)) })
  /-- The end of a sync without a run. -/
  | dropBefore {w : World} {p : Int} {guard : Guard} {kept : List Int} {now : Int}
      (held : (w.providers p).guard = some guard) (outside : guard.holder = none)
      (foreign : guard.origin = none) (surveyed : guard.retained = some kept) :
      Step owner w (.droppedBefore p now) { w with db := w.db.syncDropBefore p now kept.toFinset }
  | start {w : World} {p : Int} (free : (w.providers p).guard = none)
      (idle : (w.providers p).active = 0) :
      Step owner w (.started p w.started)
        { w.setProvider p { w.providers p with
            sequence := (w.providers p).sequence + 1
            active := (w.providers p).sequence + 1
            favorites := ∅
            favoriteOverflow := 0 } with
          runs := Function.update w.runs w.started
            (some (SyncRun.fresh p ((w.providers p).sequence + 1) (w.providers p).revision))
          started := w.started + 1 }
  | cancel {w : World} {p : Int} {token : Nat} :
      Step owner w (.cancelled p token) (w.setProvider p ((w.providers p).cancel token))
  /-- `retain_items`, which holds the write lock while it reads. -/
  | retain {w : World} {p : Int} {ids : Finset Int} {kept : Finset Int}
      (free : (w.providers p).guard = none) (collected : w.db.retainItems p ids = .ok kept) :
      Step owner w (.retained p (kept.sort (· ≤ ·)))
        { w.setProvider p { w.providers p with
            retained := retainCounts (w.providers p).retained (kept.sort (· ≤ ·)) } with
          retentions := (p, kept.sort (· ≤ ·)) :: w.retentions }
  /-- The drop of a retention takes no write lock. -/
  | forget {w : World} {p : Int} {ids : List Int} (live : (p, ids) ∈ w.retentions) :
      Step owner w (.forgot p ids)
        { w.setProvider p { w.providers p with
            retained := dropCounts (w.providers p).retained ids } with
          retentions := w.retentions.erase (p, ids) }
  | advance {w : World} {cell : Nat} :
      Step owner w (.advanced cell)
        { w with cells := Function.update w.cells cell (w.cells cell + 1) }
  | bind {w : World} {k cell : Nat} {run : SyncRun} (there : w.runs k = some run)
      (idle : run.call = .idle) :
      Step owner w (.bound k cell)
        (w.setRun k (some { run with generation := some (cell, w.cells cell) }))
  | fail {w : World} {k : Nat} {run : SyncRun} (there : w.runs k = some run)
      (idle : run.call = .idle) :
      Step owner w (.failed k) (w.setRun k (some { run with failed := true }))
  | request {w : World} {k : Nat} {run next : SyncRun} {request : Request}
      (there : w.runs k = some run) (idle : run.call = .idle)
      (done : run.request w.cells (w.providers run.provider).active request = .ok next) :
      Step owner w (.requested k request) (w.setRun k (some next))
  | refuse {w : World} {k : Nat} {run : SyncRun} {caller : Caller} {op : Op} {fault : Fault}
      (there : w.runs k = some run) (idle : run.call = .idle)
      (refused : run.begin w.cells (w.providers run.provider).active op = .error fault) :
      Step owner w (.refused k caller op fault) (w.setRun k (some (run.refuse caller op fault)))
  | begin {w : World} {k : Nat} {run : SyncRun} {caller : Caller} {op : Op}
      (there : w.runs k = some run) (idle : run.call = .idle) (waits : ∀ request, op ≠ .request request)
      (passed : run.begin w.cells (w.providers run.provider).active op = .ok ()) :
      Step owner w (.began k caller op) (w.setRun k (some { run with call := .waiting caller op }))
  /-- A call of the run gets its guard. -/
  | enter {w : World} {k : Nat} {run : SyncRun} {caller : Caller} {op : Op}
      (there : w.runs k = some run) (waiting : run.call = .waiting caller op)
      (guarded : ∀ ids, op ≠ .libraries ids) (free : (w.providers run.provider).guard = none)
      (live : (w.providers run.provider).active = run.token)
      (fits : op = .finalize → (w.providers run.provider).revision = run.revision) :
      Step owner w (.entered k caller op)
        ((w.setProvider run.provider
          ((w.providers run.provider).acquire (some run.token) (some k))).setRun k
            (some { run with call := .inside caller op }))
  /-- `finalize` finds another revision than the one the run started from. -/
  | conflict {w : World} {k : Nat} {run : SyncRun} {caller : Caller}
      (there : w.runs k = some run) (waiting : run.call = .waiting caller .finalize)
      (free : (w.providers run.provider).guard = none)
      (live : (w.providers run.provider).active = run.token)
      (foreign : (w.providers run.provider).revision ≠ run.revision) :
      Step owner w
        (.refused k caller .finalize
          (failure "sync prune conflicted with another write; retry required"))
        (w.setRun k (some (run.refuse caller .finalize
          (failure "sync prune conflicted with another write; retry required"))))
  | observeLibrary {w : World} {k : Nat} {run next : SyncRun} {caller : Caller} {id : Int} {ids : List Int}
      (there : w.runs k = some run) (waiting : run.call = .waiting caller (.libraries (id :: ids)))
      (found : run.observeLibrary w.db id = .ok next) :
      Step owner w (.observedLibrary k id)
        (w.setRun k (some { next with call := .waiting caller (.libraries ids) }))
  | refuseLibrary {w : World} {k : Nat} {run : SyncRun} {caller : Caller} {id : Int} {ids : List Int}
      {fault : Fault}
      (there : w.runs k = some run) (waiting : run.call = .waiting caller (.libraries (id :: ids)))
      (refused : run.observeLibrary w.db id = .error fault) :
      Step owner w (.refused k caller (.libraries (id :: ids)) fault)
        (w.setRun k (some (run.refuse caller (.libraries (id :: ids)) fault)))
  | returnLibraries {w : World} {k : Nat} {run : SyncRun} {caller : Caller}
      (there : w.runs k = some run) (waiting : run.call = .waiting caller (.libraries [])) :
      Step owner w (.returned k) (w.setRun k (some { run with call := .idle }))
  | observeItems {w : World} {k : Nat} {run : SyncRun} {caller : Caller} {scope : SyncScope}
      {items : List ItemRef} {ids : List Int}
      (there : w.runs k = some run) (inside : run.call = .inside caller (.items scope items))
      (resolved : observedIds w.db run.provider scope items = .ok ids) :
      Step owner w (.observedItems k scope ids)
        ((w.releaseFor run.provider k).setRun k
          (some { run with seen := run.seen ∪ ids.toFinset, call := .idle }))
  | refuseItems {w : World} {k : Nat} {run : SyncRun} {caller : Caller} {scope : SyncScope}
      {items : List ItemRef} {fault : Fault}
      (there : w.runs k = some run) (inside : run.call = .inside caller (.items scope items))
      (refused : observedIds w.db run.provider scope items = .error fault) :
      Step owner w (.refused k caller (.items scope items) fault)
        ((w.releaseFor run.provider k).setRun k
          (some (run.refuse caller (.items scope items) fault)))
  /-- A batch commits when its token and generation still hold. -/
  | commitBatch {w : World} {k : Nat} {run : SyncRun} {caller : Caller} {batch : Batch} {db : Database}
      (there : w.runs k = some run) (inside : run.call = .inside caller (.batch batch))
      (written : Batched owner run.provider
        ((w.providers run.provider).favoriteChangedAfter run.revision) batch w.db db)
      (current : generationCheck w.cells run.generation = .ok ())
      (live : (w.providers run.provider).active = run.token) :
      Step owner w (.batched run.provider k batch)
        { (w.releaseFor run.provider k).setRun k (some { run with call := .idle }) with db := db }
  /-- `finalize` finds more candidates than it would look at. -/
  | excess {w : World} {k : Nat} {run : SyncRun} {caller : Caller}
      (there : w.runs k = some run) (inside : run.call = .inside caller .finalize)
      (many : maxSeen < (w.db.candidates run.provider).length) :
      Step owner w (.refused k caller .finalize (failure "prune candidate limit exceeded"))
        ((w.releaseFor run.provider k).setRun k
          (some (run.refuse caller .finalize (failure "prune candidate limit exceeded"))))
  | finalize {w : World} {k : Nat} {run : SyncRun} {caller : Caller} {guard : Guard} {kept : List Int}
      (there : w.runs k = some run) (inside : run.call = .inside caller .finalize)
      (held : (w.providers run.provider).guard = some guard) (mine : guard.holder = some k)
      (surveyed : guard.retained = some kept)
      (few : (w.db.candidates run.provider).length ≤ maxSeen)
      (fewLibraries : (Hash.filter (fun _ row => row.providerId = run.provider)
        w.db.libraries).size ≤ maxSeen)
      (current : generationCheck w.cells run.generation = .ok ())
      (live : (w.providers run.provider).active = run.token) :
      Step owner w
        (.finalized run.provider k
          ((w.db.pruned run.provider run.scopes run.seen kept.toFinset).map Prod.fst))
        { (w.setProvider run.provider { (w.providers run.provider).release with active := 0 }).setRun k
            (some { run with call := .idle }) with
          db := w.db.finalize run.provider run.scopes run.seen run.libraries kept.toFinset }
  /-- A call that waits or holds the guard is given an error by the database, by
  the guard or by its last checks. -/
  | interrupt {w : World} {k : Nat} {run : SyncRun} {caller : Caller} {op : Op}
      (there : w.runs k = some run)
      (busy : run.call = .waiting caller op ∨ run.call = .inside caller op) :
      Step owner w (.refused k caller op (broken op))
        ((w.releaseFor run.provider k).setRun k (some (run.refuse caller op (broken op))))
  /-- The future of a call is dropped. -/
  | abandon {w : World} {k : Nat} {run : SyncRun} (there : w.runs k = some run)
      (busy : run.call ≠ .idle) :
      Step owner w (.abandoned k)
        ((w.releaseFor run.provider k).setRun k (some { run with call := .idle }))
  | drop {w : World} {k : Nat} {run : SyncRun} (there : w.runs k = some run)
      (idle : run.call = .idle) :
      Step owner w (.dropped k)
        ((w.setProvider run.provider ((w.providers run.provider).cancel run.token)).setRun k none)

/-- A coordinator as it is made, over some database. -/
structure Initial (owner : Int → Int) (w : World) : Prop where
  owned : Owned owner w.db
  fresh : w.providers = fun _ => ProviderState.fresh
  noRuns : w.runs = fun _ => none
  free : w.retentions = []

end Qcm.SyncCoordinator
