import Qcm.EntityStore
import Qcm.Lib.Numbered
import Qcm.Lib.RowChanges

/-!
The list of entities behind a view (`app/src/model/entity_list.cppm`).

A list holds ids, the row of each, and a pin on each in the store it reads from.
Its rows are edited one by one when ids are synchronized, and each edit is
announced to the views.  The selection, the placeholders and the roles of a row
are the view's and not part of this.
-/

namespace Qcm.EntityLists

open Lib EntityStore

/-- The type under which a reader of `AppStore` files its items. -/
def type : Kind → Int
  | .song => Song
  | .album => Album
  | .artist => Artist
  | .mix => Mix

/-- The list and the stores that it may read from, by their owner. -/
structure EntityList (σ : Type) where
  stores : σ → Store
  /-- `m_source` and `m_bound`. -/
  source : Option σ
  ids : List Int
  rows : Hash Int Nat
  /-- What was announced to the views, the oldest first. -/
  announced : List (RowChange Int)

variable {σ : Type} [DecidableEq σ] (kind : Kind)

def change (owner : σ) (edit : Store → Store) (list : EntityList σ) : EntityList σ :=
  { list with stores := Function.update list.stores owner (edit (list.stores owner)) }

/-- `ReadStore::pin`: a store that was never set has nothing to call. -/
def pin (id : Int) (list : EntityList σ) : EntityList σ :=
  match list.source with
  | none => list
  | some owner => change owner (EntityStore.pin · ⟨type kind, id⟩) list

/-- `ReadStore::unpin`, by way of `AppStore::unpin`, which asks for a valid id. -/
def unpin (id : Int) (list : EntityList σ) : EntityList σ :=
  match list.source with
  | none => list
  | some owner => if 0 < id then change owner (EntityStore.unpin · ⟨type kind, id⟩) list else list

def announce (change : RowChange Int) (list : EntityList σ) : EntityList σ :=
  { list with announced := list.announced ++ [change] }

omit [DecidableEq σ] in
def reindex (list : EntityList σ) : EntityList σ :=
  { list with rows := Hash.numbered list.ids }

/-- One turn of the loop of `resetKeys`. -/
def push (list : EntityList σ) (id : Int) : EntityList σ :=
  if 0 < id ∧ (list.rows.lookup id).isNone then
    pin kind id { list with rows := list.rows.insert id list.ids.length, ids := list.ids ++ [id] }
  else list

def resetKeys (ids : List Int) (list : EntityList σ) : EntityList σ :=
  let cleared := list.ids.foldl (fun list id => unpin kind id list) list
  let filled := ids.foldl (push kind) { cleared with ids := [], rows := ∅ }
  announce (.reset filled.ids) filled

/-- The ids that `syncKeys` wants, each once. -/
def wanted (ids : List Int) : List Int :=
  ids.foldl (fun wanted id => if 0 < id ∧ id ∉ wanted then wanted ++ [id] else wanted) []

/-- The row goes, between `beginRemoveRows` and `endRemoveRows`. -/
def removeAt (row : Nat) (id : Int) (list : EntityList σ) : EntityList σ :=
  let list := unpin kind id list
  announce (.remove row row) (reindex { list with ids := list.ids.eraseIdx row })

/-- The first loop of `syncKeys`, from the last row to the first. -/
def removeOthers (wanted : List Int) : Nat → EntityList σ → EntityList σ
  | 0, list => list
  | row + 1, list =>
    match list.ids[row]? with
    | none => list
    | some id => removeOthers wanted row (if id ∈ wanted then list else removeAt kind row id list)

/-- One turn of the second loop of `syncKeys`. -/
def place (row : Nat) (id : Int) (list : EntityList σ) : EntityList σ :=
  if list.ids[row]? = some id then list
  else match list.rows.lookup id with
    | some existing =>
      announce (.move existing existing row)
        (reindex { list with ids := (list.ids.eraseIdx existing).insertIdx row id })
    | none =>
      announce (.insert row [id]) (reindex (pin kind id { list with ids := list.ids.insertIdx row id }))

def placeAll : Nat → List Int → EntityList σ → EntityList σ
  | _, [], list => list
  | row, id :: ids, list => placeAll (row + 1) ids (place kind row id list)

def syncKeys (ids : List Int) (list : EntityList σ) : EntityList σ :=
  let wanted := wanted ids
  placeAll kind 0 wanted (removeOthers kind wanted list.ids.length list)

def appendKeys (ids : List Int) (list : EntityList σ) : EntityList σ := syncKeys kind (list.ids ++ ids) list

/-- `identity::valid` of a list of ids. -/
def valid (ids : List Int) : Bool := ids.all (0 < ·)

def resetIds (ids : List Int) (list : EntityList σ) : EntityList σ :=
  if valid ids then resetKeys kind ids list else list

def appendIds (ids : List Int) (list : EntityList σ) : EntityList σ :=
  if valid ids then appendKeys kind ids list else list

def syncIds (ids : List Int) (list : EntityList σ) : EntityList σ :=
  if valid ids then syncKeys kind ids list else list

/-- `set_store`: two stores are the same when their owners are. -/
def setStore (source : σ) (list : EntityList σ) : EntityList σ :=
  if list.source = some source then list
  else
    let list := if list.source.isSome then resetIds kind [] list else list
    { list with source := some source }

def rawErase (first last : Nat) (list : EntityList σ) : EntityList σ :=
  let list := ((list.ids.take last).drop first).foldl (fun list id => unpin kind id list) list
  reindex { list with ids := list.ids.take first ++ list.ids.drop last }

def EntityList.new (stores : σ → Store) (source : σ) : EntityList σ :=
  setStore kind source ⟨stores, none, [], ∅, []⟩

inductive Request (σ : Type) where
  | resetIds (ids : List Int)
  | syncIds (ids : List Int)
  | appendIds (ids : List Int)
  /-- The base class removes the rows from `first` up to `last`, without it. -/
  | removeRows (first last : Nat)
  | setStore (source : σ)

/-- Rows are there that a request takes away. -/
def Request.fits (list : EntityList σ) : Request σ → Prop
  | .removeRows first last => first < last ∧ last ≤ list.ids.length
  | _ => True

/-- A request, given what the base class announces of a removal. -/
def step (removed : Nat → Nat → List (RowChange Int)) (list : EntityList σ) : Request σ → EntityList σ
  | .resetIds ids => resetIds kind ids list
  | .syncIds ids => syncIds kind ids list
  | .appendIds ids => appendIds kind ids list
  | .removeRows first last =>
    let erased := rawErase kind first last list
    { erased with announced := erased.announced ++ removed first last }
  | .setStore source => setStore kind source list

end Qcm.EntityLists
