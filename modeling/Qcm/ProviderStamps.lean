import Qcm.Lib.Hash
import Qcm.Lib.Runs

/-!
The registry of providers and their stamps (`global.rs`).

Every function of the registry runs under one lock, from beginning to end.  A
panic inside poisons the lock, and nothing gets past it afterwards.
-/

namespace Qcm.ProviderStamps

open Lib

/-- A provider object.  Two `Arc`s are the same when they hold the same object. -/
abbrev Object := Nat

/-- The providers of `Global`, with what their objects answer to `id` and `lifecycle_epoch`. -/
structure Global where
  providers : Hash Int Object
  providerStamps : Hash Int (Nat × Nat)
  nextProviderStamp : Nat
  ids : Object → Option Int
  epochs : Object → Nat
  poisoned : Bool

/-- `Global::new`; the objects are there before they are registered. -/
def Global.new (ids : Object → Option Int) (epochs : Object → Nat) : Global where
  providers := ∅
  providerStamps := ∅
  nextProviderStamp := 0
  ids := ids
  epochs := epochs
  poisoned := false

def panicked (g : Global) : Global := { g with poisoned := true }

/-- A new stamp for the epoch; the counter is a `u64`. -/
def issue (g : Global) (id : Int) (epoch : Nat) : Option Global :=
  if g.nextProviderStamp < 2 ^ 64 - 1 then
    let stamp := g.nextProviderStamp + 1
    some { g with nextProviderStamp := stamp, providerStamps := g.providerStamps.insert id (epoch, stamp) }
  else none

/-- The stamp of the id is the one of the epoch, or a new one is made. -/
def stamped (g : Global) (id : Int) (epoch : Nat) : Option Global :=
  if (g.providerStamps.lookup id).any fun entry => entry.1 == epoch then some g else issue g id epoch

/-- `provider_snapshot` past the lock: the state it leaves, and what it returns. -/
def snapshotUnlocked (g : Global) (id : Int) : Global × Option (Object × Nat) :=
  match g.providers.lookup id with
  | none => (g, none)
  | some provider =>
    match stamped g id (g.epochs provider) with
    | none => (panicked g, none)
    | some next => (next, (next.providerStamps.lookup id).map fun entry => (provider, entry.2))

/-- `provider_snapshot` -/
def providerSnapshot (g : Global) (id : Int) : Global × Option (Object × Nat) :=
  if g.poisoned then (g, none) else snapshotUnlocked g id

/-- The objects after `invalidate` on one that was registered; it may move its epoch. -/
def invalidated (g : Global) (old : Option Object) (epoch : Nat) : Global :=
  match old with
  | some object => { g with epochs := fun other => if other = object then epoch else g.epochs other }
  | none => g

/-- `add_provider`; `epoch` is the one the replaced object has afterwards. -/
def addProvider (g : Global) (object : Object) (epoch : Nat) : Global :=
  if g.poisoned then g
  else
    match g.ids object with
    | none => panicked g
    | some id =>
      invalidated { g with
        providerStamps := g.providerStamps.erase id
        providers := g.providers.insert id object } (g.providers.lookup id) epoch

/-- `remove_provider` -/
def removeProvider (g : Global) (id : Int) (epoch : Nat) : Global :=
  if g.poisoned then g
  else
    invalidated { g with
      providerStamps := g.providerStamps.erase id
      providers := g.providers.erase id } (g.providers.lookup id) epoch

/-- What is called: on the registry, or on an object by whoever holds it. -/
inductive Call where
  | add (object : Object) (epoch : Nat)
  | remove (id : Int) (epoch : Nat)
  | snapshot (id : Int)
  | setEpoch (object : Object) (epoch : Nat)
  | setId (object : Object) (id : Option Int)

def perform (g : Global) : Call → Global
  | .add object epoch => addProvider g object epoch
  | .remove id epoch => removeProvider g id epoch
  | .snapshot id => (providerSnapshot g id).1
  | .setEpoch object epoch => { g with epochs := fun other => if other = object then epoch else g.epochs other }
  | .setId object id => { g with ids := fun other => if other = object then id else g.ids other }

def Step (g : Global) (call : Call) (h : Global) : Prop := h = perform g call

/-- The call adds or removes a provider under this id. -/
def Replaces (id : Int) (g : Global) : Call → Prop
  | .add object _ => g.ids object = some id
  | .remove other _ => other = id
  | _ => False

/-- The call is a snapshot that makes a new stamp. -/
def Issues (stamp : Nat) (g : Global) : Call → Prop
  | .snapshot id => ∃ provider, (providerSnapshot g id).2 = some (provider, stamp) ∧ g.nextProviderStamp < stamp
  | _ => False

end Qcm.ProviderStamps
