import Qcm.ProviderStamps

/-!
Updates of the settings of one provider (`provider_settings.rs`), any number of
them at once.

A request runs on a thread of its own between its steps below.  What it does
before it has the write guard is not ordered with what the others do.  Settings
are of any type, with the check of the provider they are for.
-/

namespace Qcm.ProviderSettings

open Lib
open ProviderStamps (Object)

variable {V : Type}

structure SettingsSnapshot (V : Type) where
  revision : Nat
  values : V
deriving DecidableEq

/-- `UpdateProviderReq`, with the settings if they are a JSON object. -/
structure UpdateProviderReq (V : Type) where
  tmpProvider : String := ""
  authInfo : Bool := false
  settingsRevision : Nat
  settings : Option V
deriving DecidableEq

/-- What a request has made up its mind about before it authenticates. -/
structure Task (V : Type) where
  req : UpdateProviderReq V
  old : Object
  candidate : Object
  values : V
deriving DecidableEq

def Task.replacing (task : Task V) : Prop := task.old ≠ task.candidate

instance (task : Task V) : Decidable task.replacing := inferInstanceAs (Decidable (_ ≠ _))

/-- How far a request has come. -/
inductive Stage (V : Type) where
  | absent
  | called (req : UpdateProviderReq V)
  /-- The registered provider is read. -/
  | found (req : UpdateProviderReq V) (old : Object)
  /-- The candidate is there. -/
  | picked (req : UpdateProviderReq V) (old candidate : Object)
  /-- The candidate has the settings, if it replaces the old provider. -/
  | asking (task : Task V)
  /-- It has authenticated. -/
  | waiting (task : Task V)
  /-- It has the write guard. -/
  | guarded (task : Task V)
  /-- The old provider is still the registered one. -/
  | checked (task : Task V)
  /-- The row is written in the transaction. -/
  | saved (task : Task V) (snapshot : SettingsSnapshot V)
  | committed (task : Task V) (snapshot : SettingsSnapshot V)
  /-- The candidate has the settings of the row. -/
  | stored (task : Task V) (snapshot : SettingsSnapshot V)
  /-- `invalidate_scope`. -/
  | invalidated (task : Task V) (snapshot : SettingsSnapshot V)
  | leaving
  | done
deriving DecidableEq

/-- The stages at which a request has the guard. -/
def Stage.holds : Stage V → Bool
  | .guarded _ | .checked _ | .saved _ _ | .committed _ _ | .stored _ _ | .invalidated _ _ | .leaving => true
  | _ => false

/-- The row, what is registered, and the requests; `made` counts the provider objects, and `commits` lists the base
revisions of what was committed. -/
structure World (V : Type) where
  row : Option (SettingsSnapshot V) := none
  registered : Option Object
  tmpProviders : Hash String Object := ∅
  types : Object → String
  settings : Object → SettingsSnapshot V
  made : Nat
  holder : Option Nat := none
  table : Hash Nat (Stage V) := ∅
  commits : List Nat := []

namespace World

/-- The revision of the row; `save` puts one with revision 0 where there is none. -/
def revision (w : World V) : Nat := (w.row.map SettingsSnapshot.revision).getD 0

/-- How far the request with this id has come. -/
def requests (w : World V) (id : Nat) : Stage V := (w.table.lookup id).getD .absent

def put (w : World V) (id : Nat) (stage : Stage V) : World V := { w with table := w.table.insert id stage }

/-- The request returns, and drops the guard. -/
def leave (w : World V) (id : Nat) : World V := { w.put id .done with holder := none }

def setSettings (w : World V) (object : Object) (snapshot : SettingsSnapshot V) : World V :=
  { w with settings := fun other => if other = object then snapshot else w.settings other }

/-- A new provider object; its settings are those its plugin starts with. -/
def create (w : World V) (type : String) (values : V) : World V :=
  { w.setSettings w.made { revision := 0, values := values } with
    made := w.made + 1
    types := fun other => if other = w.made then type else w.types other }

/-- `provider_settings::save`, with the revision as an `i64`. -/
def save (w : World V) (revision : Nat) (values : V) : Option (SettingsSnapshot V) :=
  if revision + 1 < 2 ^ 63 ∧ w.revision = revision then some { revision := revision + 1, values := values } else none

/-- `update` finds its candidate; `created` is what the creator makes, if it does not fail. -/
def pick (w : World V) (id : Nat) (req : UpdateProviderReq V) (old : Object) (created : Option V) : World V :=
  if req.authInfo = true ∧ req.tmpProvider ≠ "" then w.put id .done
  else if req.tmpProvider ≠ "" then
    match w.tmpProviders.lookup req.tmpProvider with
    | some provider => if w.types provider ≠ w.types old then w.put id .done else w.put id (.picked req old provider)
    | none => w.put id .done
  else if req.authInfo then
    match created with
    | some values => (w.create (w.types old) values).put id (.picked req old w.made)
    | none => w.put id .done
  else w.put id (.picked req old old)

/-- The settings that a request has for its candidate. -/
def given (validate : Object → V → Option V) (req : UpdateProviderReq V) (candidate : Object) : Option V :=
  req.settings.bind (validate candidate)

/-- `update` checks the settings, and gives them to a candidate that replaces the old provider. -/
def give (validate : Object → V → Option V) (w : World V) (id : Nat) (req : UpdateProviderReq V)
    (old candidate : Object) : World V :=
  match given validate req candidate with
  | none => w.put id .done
  | some values =>
    let task : Task V := { req := req, old := old, candidate := candidate, values := values }
    if task.replacing then
      (w.setSettings candidate { revision := req.settingsRevision, values := values }).put id (.asking task)
    else w.put id (.asking task)

/-- `commit`: the row is written. -/
def commit (w : World V) (id : Nat) (task : Task V) (snapshot : SettingsSnapshot V) : World V :=
  { w.put id (.committed task snapshot) with
    row := some snapshot
    commits := w.commits ++ [task.req.settingsRevision] }

end World

open World

/-- What happens: a request is called or takes its next step, or a temporary provider comes or goes. -/
inductive Event (V : Type) where
  | createTmp (key : String) (type : String) (values : V)
  | deleteTmp (key : String)
  | call (id : Nat) (req : UpdateProviderReq V)
  | find (id : Nat)
  | pick (id : Nat) (created : Option V)
  | give (id : Nat)
  | auth (id : Nat) (ok : Bool)
  | guard (id : Nat) (ok : Bool)
  | check (id : Nat)
  | save (id : Nat)
  | commit (id : Nat) (ok : Bool)
  | store (id : Nat)
  | scope (id : Nat) (ok : Bool)
  | register (id : Nat)
  | release (id : Nat)

/-- The step of an event.  `ok` is whether what is called succeeds; `commit` stands for the other write of the
transaction too. -/
def perform (validate : Object → V → Option V) (w : World V) : Event V → Option (World V)
  | .createTmp key type values =>
    some { w.create type values with tmpProviders := w.tmpProviders.insert key w.made }
  | .deleteTmp key => some { w with tmpProviders := w.tmpProviders.erase key }
  | .call id req =>
    match w.requests id with
    | .absent => some (w.put id (.called req))
    | _ => none
  | .find id =>
    match w.requests id with
    | .called req =>
      match w.registered with
      | some old => some (w.put id (.found req old))
      | none => some (w.put id .done)
    | _ => none
  | .pick id created =>
    match w.requests id with
    | .found req old => some (w.pick id req old created)
    | _ => none
  | .give id =>
    match w.requests id with
    | .picked req old candidate => some (w.give validate id req old candidate)
    | _ => none
  | .auth id ok =>
    match w.requests id with
    | .asking task => some (w.put id (if task.req.authInfo = true ∧ ok = false then .done else .waiting task))
    | _ => none
  | .guard id ok =>
    match w.requests id with
    | .waiting task =>
      if ok = false then some (w.put id .done)
      else if w.holder = none then some { w.put id (.guarded task) with holder := some id }
      else none
    | _ => none
  | .check id =>
    match w.requests id with
    | .guarded task => some (if w.registered = some task.old then w.put id (.checked task) else w.leave id)
    | _ => none
  | .save id =>
    match w.requests id with
    | .checked task =>
      match w.save task.req.settingsRevision task.values with
      | some snapshot => some (w.put id (.saved task snapshot))
      | none => some (w.leave id)
    | _ => none
  | .commit id ok =>
    match w.requests id with
    | .saved task snapshot => some (if ok then w.commit id task snapshot else w.leave id)
    | _ => none
  | .store id =>
    match w.requests id with
    | .committed task snapshot => some ((w.setSettings task.candidate snapshot).put id (.stored task snapshot))
    | _ => none
  | .scope id ok =>
    match w.requests id with
    | .stored task snapshot =>
      if task.replacing then some (if ok then w.put id (.invalidated task snapshot) else w.leave id) else none
    | _ => none
  | .register id =>
    match w.requests id with
    | .invalidated task _ => some { w.put id .leaving with registered := some task.candidate }
    | _ => none
  | .release id =>
    match w.requests id with
    | .leaving => some (w.leave id)
    | .stored task _ => if task.replacing then none else some (w.leave id)
    | _ => none

def Step (validate : Object → V → Option V) (w : World V) (event : Event V) (v : World V) : Prop :=
  perform validate w event = some v

/-- The request has given the candidate the settings of the row, and is about to register it. -/
def Stage.publishes (candidate : Object) : Stage V → Bool
  | .stored task _ | .invalidated task _ => task.candidate == candidate
  | _ => false

/-- No settings that are not saved are given to a provider that is registered by now, or that the holder of the guard
is about to register. -/
def SparesAt (validate : Object → V → Option V) (w : World V) : Stage V → Prop
  | .picked req old candidate =>
    old ≠ candidate → (given validate req candidate).isSome = true →
      w.registered ≠ some candidate ∧ (w.holder.all fun other => !(w.requests other).publishes candidate) = true
  | _ => True

instance (validate : Object → V → Option V) (w : World V) : (stage : Stage V) → Decidable (SparesAt validate w stage)
  | .picked .. => inferInstanceAs (Decidable (_ → _ → _))
  | .absent | .called _ | .found .. | .asking _ | .waiting _ | .guarded _ | .checked _ | .saved .. | .committed ..
  | .stored .. | .invalidated .. | .leaving | .done => inferInstanceAs (Decidable True)

/-- What a request gives to its candidate is spared by the others, and the scope epoch is not exhausted. -/
def Spares (validate : Object → V → Option V) (w : World V) : Event V → Prop
  | .give id => SparesAt validate w (w.requests id)
  | .scope _ ok => ok = true
  | _ => True

instance (validate : Object → V → Option V) (w : World V) : (event : Event V) → Decidable (Spares validate w event)
  | .give id => inferInstanceAs (Decidable (SparesAt validate w (w.requests id)))
  | .scope _ _ => inferInstanceAs (Decidable (_ = _))
  | .createTmp .. | .deleteTmp _ | .call .. | .find _ | .pick .. | .auth .. | .guard .. | .check _ | .save _
  | .commit .. | .store _ | .register _ | .release _ => inferInstanceAs (Decidable True)

/-- The registered provider has the settings of the row; without a row they are unsaved ones of revision 0. -/
def Holds (w : World V) : Prop :=
  ∀ object, w.registered = some object →
    match w.row with
    | some row => w.settings object = row
    | none => (w.settings object).revision = 0

/-- No request is in progress. -/
def Idle (w : World V) : Prop := ∀ entry ∈ w.table.entries, entry.2 = .done

instance [DecidableEq V] (w : World V) : Decidable (Idle w) := inferInstanceAs (Decidable (∀ entry ∈ w.table.entries, entry.2 = .done))

/-- Before any request, with a registered provider that has its settings from the row. -/
structure Initial (w : World V) : Prop where
  absent : w.table = ∅
  free : w.holder = none
  fresh : w.commits = []
  registered : ∀ object, w.registered = some object → object < w.made
  tmpProviders : ∀ key object, w.tmpProviders.lookup key = some object → object < w.made
  holds : Holds w

/-- Each commit had the stored revision as its base and raised it by one, from the first on. -/
def Counted (w : World V) : Prop :=
  ∃ first, w.commits = List.range' first w.commits.length ∧ w.revision = first + w.commits.length

end Qcm.ProviderSettings
