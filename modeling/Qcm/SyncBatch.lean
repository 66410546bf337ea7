import Qcm.SyncDatabase

/-!
The part of `sync_batch` that writes a user's dynamic rows: how an item
reference is resolved, which fields a mask lets through, and the loop over the
`dynamics` of a batch.  The other tables of a batch are left open (`Batched`):
what is used of them is that they leave the dynamic rows alone and that no
statement changes the provider of an item.
-/

namespace Qcm.SyncBatch

open Lib SyncDatabase

/-- `Patch`: a field that is left out, or set. -/
inductive Patch (α : Type) where
  | missing
  | set (value : α)
  deriving DecidableEq

/-- The value a patch leaves in a field. -/
def Patch.over {α : Type} (patch : Patch α) (value : α) : α :=
  match patch with
  | .missing => value
  | .set next => next

structure ItemKey where
  nativeId : String
  libraryId : Patch (Option Int)
  kind : ItemType
  id : Option Int
  deriving DecidableEq

inductive ItemRef where
  | id (id : Int)
  | key (key : ItemKey)
  deriving DecidableEq

/-- `Mask`. -/
structure Mask where
  includes : Option (List String)
  excludes : Option (List String)
  deriving DecidableEq

/-- `Mask::validate`. -/
def Mask.validate (mask : Mask) (fields : List String) : Except String Unit :=
  if mask.includes.isSome ∧ mask.excludes.isSome then
    .error "include and exclude are mutually exclusive"
  else
    match (mask.includes.getD [] ++ mask.excludes.getD []).find? fun name => !fields.contains name with
    | some name => .error ("unknown mask field: " ++ name)
    | none => .ok ()

/-- `Mask::allows`. -/
def Mask.allows (mask : Mask) (name : String) : Bool :=
  (match mask.includes with
    | none => true
    | some names => names.contains name) &&
  (match mask.excludes with
    | none => true
    | some names => !names.contains name)

structure DynamicFields where
  isExternal : Patch Bool
  remotePlayCount : Patch Int
  remoteLastPlayedAt : Patch (Option Int)
  favoriteAt : Patch (Option Int)
  deriving DecidableEq

structure DynamicInput where
  item : ItemRef
  onInsert : Option DynamicFields
  fields : DynamicFields
  favorite : Patch Bool
  deriving DecidableEq

/-- The parts of a batch that its dynamic rows depend on. -/
structure Batch where
  dynamics : List DynamicInput
  mask : Mask
  deriving DecidableEq

section Resolve

variable (db : Database) (provider : Int)

/-- `owns_library`. -/
def ownsLibrary (id : Int) : Except String Bool :=
  match db.libraries.lookup id with
  | none => .ok false
  | some library =>
    if library.providerId ≠ provider then .error "library belongs to another provider" else .ok true

/-- `library_optional`: nothing when the library is not there. -/
def libraryOptional (key : ItemKey) : Except String (Option (Option Int)) :=
  if key.nativeId.isEmpty ∨ 4096 < key.nativeId.utf8ByteSize then .error "invalid native_id"
  else
    match key.libraryId with
    | .missing => .error "library_id is required; use null for global items"
    | .set (some id) => do
      if ← ownsLibrary db provider id then return some (some id) else return none
    | .set none =>
      if key.kind ≠ .mix ∧ key.kind ≠ .radio then .error "only mixes and radio queues may be global"
      else .ok (some none)

/-- The item an `ItemRef` names, before its provider and type are checked. -/
def findItem (item : ItemRef) (expected : List ItemType) : Except String (Option (Int × ItemRow)) :=
  match item with
  | .id id => .ok ((db.items.lookup id).map fun row => (id, row))
  | .key key =>
    if expected ≠ [] ∧ key.kind ∉ expected then .error "item reference has wrong type"
    else do
      match ← libraryOptional db provider key with
      | none => return none
      | some library =>
        let found := (db.items.entries.find? fun entry =>
          entry.2.providerId = provider && entry.2.nativeId = key.nativeId && entry.2.kind = key.kind &&
            entry.2.libraryId = library).map fun entry => (entry.1, entry.2)
        match key.id, found with
        | some id, some item => if id ≠ item.1 then .error "item id does not match key" else return found
        | _, _ => return found

/-- `resolve_optional`. -/
def resolveOptional (item : ItemRef) (expected : List ItemType) :
    Except String (Option (Int × ItemRow)) := do
  match ← findItem db provider item expected with
  | none => return none
  | some found =>
    if found.2.providerId ≠ provider ∨ (expected ≠ [] ∧ found.2.kind ∉ expected) then
      .error "item reference has wrong provider or type"
    else return some found

/-- `resolve`. -/
def resolve (item : ItemRef) (expected : List ItemType) : Except String (Int × ItemRow) := do
  match ← resolveOptional db provider item expected with
  | none => .error "missing item reference"
  | some found => return found

end Resolve

/-- The fields a mask on dynamic rows may name. -/
def dynamicFields : List String :=
  ["is_external", "remote_play_count", "remote_last_played_at", "favorite_at", "favorite"]

/-- One field of `apply`: the default for a new row, then the patch itself. -/
def patchField {α : Type} (inserted : Bool) (allowed : Bool) (onInsert patch : Patch α) (value : α) : α :=
  let value := if inserted then onInsert.over value else value
  if inserted || allowed then patch.over value else value

/-- `DynamicInput::apply`. -/
def DynamicInput.apply (entry : DynamicInput) (model : DynamicRow) (inserted : Bool) (mask : Mask) :
    Except String DynamicRow := do
  mask.validate dynamicFields
  let defaults := entry.onInsert.getD ⟨.missing, .missing, .missing, .missing⟩
  return { model with
    isExternal := patchField inserted (mask.allows "is_external") defaults.isExternal
      entry.fields.isExternal model.isExternal
    remotePlayCount := patchField inserted (mask.allows "remote_play_count") defaults.remotePlayCount
      entry.fields.remotePlayCount model.remotePlayCount
    remoteLastPlayedAt := patchField inserted (mask.allows "remote_last_played_at")
      defaults.remoteLastPlayedAt entry.fields.remoteLastPlayedAt model.remoteLastPlayedAt
    favoriteAt := patchField inserted (mask.allows "favorite_at") defaults.favoriteAt
      entry.fields.favoriteAt model.favoriteAt }

/-- The `favorite` flag of an entry, turned into a time. -/
def DynamicInput.mark (entry : DynamicInput) (model : DynamicRow) (inserted : Bool) (mask : Mask)
    (now : Int) : Except String DynamicRow :=
  match entry.favorite with
  | .missing => .ok model
  | .set value =>
    if entry.fields.favoriteAt ≠ .missing then .error "favorite and favorite_at conflict"
    else if inserted || mask.allows "favorite" then
      .ok { model with favoriteAt := if value then model.favoriteAt.or (some now) else none }
    else .ok model

/-- `dynamic::Model::default()`. -/
def DynamicRow.fresh : DynamicRow := ⟨false, 0, 0, none, none, none, none, 0⟩

/-- The favorite that was there is put back when it was set after the run started. -/
def DynamicRow.restore (row : DynamicRow) (kept : Bool) (favorite : Option Int) : DynamicRow :=
  if kept then { row with favoriteAt := favorite } else row

/-- One turn of the loop over `dynamics`.  `kept` says whose favorite was set
after the run started; one reading of the clock stands for those of a batch. -/
def writeDynamic (provider : Int) (mask : Mask) (now : Int) (kept : Int → Bool) (entry : DynamicInput)
    (state : Database × List Int) : Except String (Database × List Int) := do
  let item ← resolve state.1 provider entry.item []
  if item.1 ∈ state.2 then .error "duplicate dynamic identity" else
  let old := state.1.dynamics.lookup item.1
  let model := old.getD DynamicRow.fresh
  let marked ← entry.mark model old.isNone mask now
  let applied ← entry.apply marked old.isNone mask
  let settled := DynamicRow.restore applied (kept item.1) model.favoriteAt
  if settled.remotePlayCount < 0 then .error "negative remote play count" else
  return ({ state.1 with dynamics := state.1.dynamics.insert item.1 { settled with updateAt := now } },
    item.1 :: state.2)

/-- The loop over `dynamics`. -/
def writeDynamics (provider : Int) (mask : Mask) (now : Int) (kept : Int → Bool)
    (entries : List DynamicInput) (state : Database × List Int) : Except String (Database × List Int) :=
  entries.foldlM (fun state entry => writeDynamic provider mask now kept entry state) state

/-- The row each written item gets when it has none. -/
def insertDynamics (now : Int) (items : List Int) (db : Database) : Database :=
  items.foldl (fun db id =>
    if (db.dynamics.lookup id).isSome then db
    else { db with dynamics := db.dynamics.insert id { DynamicRow.fresh with updateAt := now } }) db

/-- Every item belongs to the provider `owner` names.  An item id is
`AUTOINCREMENT`, so it is never given twice, and no statement updates
`item.provider_id`: the provider of an id is settled once and for all. -/
def Owned (owner : Int → Int) (db : Database) : Prop :=
  ∀ id row, db.items.lookup id = some row → row.providerId = owner id

/-- A batch that committed: `entered` is the database when its dynamic rows are
written, after its libraries and entities, and `items` are the items it wrote. -/
structure Batched (owner : Int → Int) (provider : Int) (kept : Int → Bool) (batch : Batch)
    (before after : Database) : Prop where
  written : ∃ (entered left : Database) (items ids : List Int) (now : Int),
    entered.dynamics = before.dynamics ∧ Owned owner entered ∧
    writeDynamics provider batch.mask now kept batch.dynamics (entered, []) = .ok (left, ids) ∧
    after.dynamics = (insertDynamics now items left).dynamics
  owned : Owned owner after

/-- The upsert of `SetFavorite`. -/
def setFavorite (db : Database) (id : Int) (value : Bool) (now : Int) : Database :=
  let row := (db.dynamics.lookup id).getD { DynamicRow.fresh with updateAt := now }
  { db with dynamics := db.dynamics.insert id { row with favoriteAt := if value then some now else none } }

/-- The favorite of an item. -/
def favoriteOf (db : Database) (id : Int) : Option Int :=
  (db.dynamics.lookup id).bind DynamicRow.favoriteAt

end Qcm.SyncBatch
