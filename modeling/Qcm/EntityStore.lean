import Qcm.Lib.Hash
import Qcm.Lib.Worklist

/-!
The entity store of the client, `qcm::store::EntityStore`
(`app/src/message/include/Qcm/message/entity_store{,_impl}.hpp`), with the
batches of `backend/main/proto/entity.proto` it merges.

A `QVariant` is a `Value`; doubles are rationals, so `NaN` and the sign of zero
are left out.  A bit set of fields is a `Finset`.  `QHash` promises no order of
iteration: each loop over one walks its keys in an order taken from `Iteration`.
The generated types give every scalar of a patch a property of the same name and
type on the data it patches, so `Unknown entity field` and `Invalid entity field
type` are never reported.
-/

namespace Qcm.EntityStore

open Lib

/-- `Field`, without its `Count`. -/
inductive Field where
  | name | sortName | type | duration | trackCount | discCount | description | company | language
  | publishTime | addedAt | trackNumber | discNumber | canPlay | popularity | tags | albumCount
  | musicCount | mixType | updateAt | album | artists | favorite | presence | stale | deleted
  deriving DecidableEq

instance : Fintype Field where
  elems := {.name, .sortName, .type, .duration, .trackCount, .discCount, .description, .company,
    .language, .publishTime, .addedAt, .trackNumber, .discNumber, .canPlay, .popularity, .tags,
    .albumCount, .musicCount, .mixType, .updateAt, .album, .artists, .favorite, .presence, .stale,
    .deleted}
  complete field := by cases field <;> decide

abbrev Fields := Finset Field

def AllFields : Fields := Finset.univ

structure Key where
  type : Int
  id : Int
  deriving DecidableEq

def Song : Int := 101
def Album : Int := 51
def Artist : Int := 53
def Mix : Int := 54

/-- Album artists are artists. -/
def canonical (key : Key) : Key := if key.type = 52 then { key with type := Artist } else key

structure Timestamp where
  seconds : Int
  nanos : Int
  deriving DecidableEq

/-- What the property of a field holds. -/
inductive Value where
  | text (value : String)
  | int (value : Int)
  | real (value : Rat)
  | bool (value : Bool)
  | time (value : Timestamp)
  | texts (values : List String)
  | ids (values : List Int)
  | link (id : Option Int)
  | flag (value : Option Bool)
  deriving DecidableEq

/-- Whether a value is of the type a field holds. -/
def Field.accepts : Field → Value → Bool
  | .name, .text _ | .sortName, .text _ | .description, .text _ | .company, .text _
  | .language, .text _ => true
  | .type, .int _ | .duration, .int _ | .trackCount, .int _ | .discCount, .int _
  | .trackNumber, .int _ | .discNumber, .int _ | .albumCount, .int _ | .musicCount, .int _
  | .mixType, .int _ => true
  | .duration, .real _ | .popularity, .real _ => true
  | .canPlay, .bool _ => true
  | .publishTime, .time _ | .addedAt, .time _ | .updateAt, .time _ => true
  | .tags, .texts _ => true
  | .album, .link _ => true
  | .artists, .ids _ => true
  | .favorite, .flag _ => true
  | _, _ => false

/-- The gadget types of the model. -/
inductive Kind where
  | song | album | artist | mix
  deriving DecidableEq

/-- The value of a field that was never set. -/
def Kind.initial (kind : Kind) : Field → Value
  | .name | .sortName | .description | .company | .language => .text ""
  | .duration => if kind = .song then .real 0 else .int 0
  | .popularity => .real 0
  | .canPlay => .bool false
  | .publishTime | .addedAt | .updateAt => .time ⟨0, 0⟩
  | .tags => .texts []
  | _ => .int 0

/-- The fields of a gadget type that are properties of its meta object.  Fields
of a message type are properties under another name. -/
def Kind.properties : Kind → Fields
  | .song => {.name, .sortName, .trackNumber, .discNumber, .duration, .canPlay, .popularity, .tags}
  | .album => {.name, .sortName, .type, .duration, .trackCount, .discCount, .description, .company,
      .language}
  | .artist => {.name, .sortName, .description, .albumCount, .musicCount}
  | .mix => {.name, .sortName, .trackCount, .description, .mixType}

/-- `Entry::data`: a song, album, artist or mix. -/
structure Data where
  kind : Kind
  id : Int
  values : Field → Value
  albumId : Option Int

def Data.new (kind : Kind) (id : Int) : Data := ⟨kind, id, kind.initial, none⟩

structure Entry where
  data : Data
  owner : Int
  epoch : Nat
  versions : Field → Option Nat
  nulls : Fields
  artists : List Int
  album : Option Int
  favorite : Option Bool
  stale : Bool
  touched : Nat

def Entry.known (entry : Entry) (field : Field) : Bool := (entry.versions field).isSome

inductive Status where
  | missing | ready | stale | deleted | invalidated | evicted
  deriving DecidableEq

structure Change where
  key : Key
  fields : Fields
  status : Status := .ready
  deriving DecidableEq

structure ApplyResult where
  error : String
  changes : List Change
  stateChanges : List Key

/-- The members of the store. -/
structure Store where
  scopeRevision : Nat
  entries : Hash Key Entry
  dependents : Hash Key (List Change)
  pins : Hash Key Nat
  tombstones : Hash Key Nat
  absent : Hash Key Status
  floor : Nat
  epochs : Hash Int Nat
  instanceName : String
  clock : Nat
  capacity : Nat
  byteBudget : Nat
  tombstoneCapacity : Nat

def Store.initial : Store :=
  ⟨0, ∅, ∅, ∅, ∅, ∅, 0, ∅, "", 0, 10000, 64 * 1024 * 1024, 8192⟩

/-- The order in which a loop over a `QHash` meets the keys, of which the order
of insertion is given. -/
structure Iteration where
  order : List Key → List Key
  perm : ∀ keys, (order keys).Perm keys

def find (store : Store) (key : Key) : Option Entry := store.entries.lookup (canonical key)

def status (store : Store) (key : Key) : Status :=
  match find store key with
  | some entry => if entry.stale then .stale else .ready
  | none => Hash.value store.absent (canonical key) .missing

/-- `pin`, which counts. -/
def pin (store : Store) (key : Key) : Store :=
  { store with pins := store.pins.insert (canonical key) (Hash.value store.pins (canonical key) 0 + 1) }

/-- `unpin`: the last one takes the key away. -/
def unpin (store : Store) (key : Key) : Store :=
  match store.pins.lookup (canonical key) with
  | none => store
  | some 1 => { store with pins := store.pins.erase (canonical key) }
  | some count => { store with pins := store.pins.insert (canonical key) (count - 1) }

def setCapacity (store : Store) (capacity : Int) : Store :=
  { store with capacity := (max 0 capacity).toNat }

def setByteBudget (store : Store) (bytes : Int) : Store :=
  { store with byteBudget := (max 0 bytes).toNat }

def setTombstoneCapacity (store : Store) (capacity : Int) : Store :=
  { store with tombstoneCapacity := (max 0 capacity).toNat }

structure ReadStamp where
  owner : Int
  epoch : Nat
  revision : Nat

/-- A `TextValue`, null when it has no value; likewise `TimeValue`. -/
abbrev TextValue := Option String
abbrev TimeValue := Option Timestamp

structure SongFields where
  name : Option String := none
  sortName : Option TextValue := none
  trackNumber : Option Int := none
  discNumber : Option Int := none
  duration : Option Rat := none
  canPlay : Option Bool := none
  publishTime : Option TimeValue := none
  popularity : Option Rat := none
  tags : Option (List String) := none

structure AlbumFields where
  name : Option String := none
  sortName : Option TextValue := none
  type : Option Int := none
  duration : Option Int := none
  trackCount : Option Int := none
  discCount : Option Int := none
  description : Option TextValue := none
  company : Option TextValue := none
  language : Option TextValue := none
  publishTime : Option TimeValue := none
  addedAt : Option TimeValue := none

structure ArtistFields where
  name : Option String := none
  sortName : Option TextValue := none
  description : Option String := none
  albumCount : Option Int := none
  musicCount : Option Int := none
  addedAt : Option TimeValue := none

structure MixFields where
  name : Option String := none
  sortName : Option TextValue := none
  trackCount : Option Int := none
  description : Option String := none
  mixType : Option Int := none
  updateAt : Option TimeValue := none

structure SongUpdate where
  id : Int
  stamp : ReadStamp
  fields : SongFields
  /-- `relations.album`, whose id may be missing. -/
  album : Option (Option Int) := none
  artists : Option (List Int) := none
  favorite : Option Bool := none

structure AlbumUpdate where
  id : Int
  stamp : ReadStamp
  fields : AlbumFields
  artists : Option (List Int) := none
  favorite : Option Bool := none

structure ArtistUpdate where
  id : Int
  stamp : ReadStamp
  fields : ArtistFields
  favorite : Option Bool := none

structure MixUpdate where
  id : Int
  stamp : ReadStamp
  fields : MixFields

structure Removal where
  id : Int
  type : Int
  stamp : ReadStamp

structure EntityBatch where
  protocol : Nat
  instanceName : String
  songs : List SongUpdate := []
  albums : List AlbumUpdate := []
  artists : List ArtistUpdate := []
  mixes : List MixUpdate := []
  removals : List Removal := []
  invalidations : List ReadStamp := []

/-! ## What an update does to its entry -/

/-- One call of `assign`, with a value of the type of its field. -/
structure Assignment where
  slot : Field
  incoming : Value
  isNull : Bool
  fits : slot.accepts incoming = true

/-- A step of an update: an assignment, or a failure. -/
inductive Step where
  | assign (assignment : Assignment)
  | fail (message : String)

section Steps

variable {α : Type}

/-- A field that has presence, when it is present. -/
def scalar (slot : Field) (wrap : α → Value) (fits : ∀ value, slot.accepts (wrap value) = true) :
    Option α → List Step
  | none => []
  | some value => [.assign ⟨slot, wrap value, false, fits value⟩]

/-- `text` and `time`: a wrapped value, null when the wrapper is empty. -/
def nullable (slot : Field) (wrap : α → Value) (fits : ∀ value, slot.accepts (wrap value) = true)
    (empty : α) : Option (Option α) → List Step
  | none => []
  | some wrapped => [.assign ⟨slot, wrap (wrapped.getD empty), wrapped.isNone, fits _⟩]

end Steps

/-- `metadata`: scalars in the order of the properties, then the wrapped texts,
the times and the tags. -/
def SongFields.metadata (patch : SongFields) : List Step :=
  scalar .name .text (fun _ => rfl) patch.name ++
  scalar .trackNumber .int (fun _ => rfl) patch.trackNumber ++
  scalar .discNumber .int (fun _ => rfl) patch.discNumber ++
  scalar .duration .real (fun _ => rfl) patch.duration ++
  scalar .canPlay .bool (fun _ => rfl) patch.canPlay ++
  scalar .popularity .real (fun _ => rfl) patch.popularity ++
  nullable .sortName .text (fun _ => rfl) "" patch.sortName ++
  nullable .publishTime .time (fun _ => rfl) ⟨0, 0⟩ patch.publishTime ++
  scalar .tags .texts (fun _ => rfl) patch.tags

def AlbumFields.metadata (patch : AlbumFields) : List Step :=
  scalar .name .text (fun _ => rfl) patch.name ++
  scalar .type .int (fun _ => rfl) patch.type ++
  scalar .duration .int (fun _ => rfl) patch.duration ++
  scalar .trackCount .int (fun _ => rfl) patch.trackCount ++
  scalar .discCount .int (fun _ => rfl) patch.discCount ++
  nullable .sortName .text (fun _ => rfl) "" patch.sortName ++
  nullable .description .text (fun _ => rfl) "" patch.description ++
  nullable .company .text (fun _ => rfl) "" patch.company ++
  nullable .language .text (fun _ => rfl) "" patch.language ++
  nullable .publishTime .time (fun _ => rfl) ⟨0, 0⟩ patch.publishTime ++
  nullable .addedAt .time (fun _ => rfl) ⟨0, 0⟩ patch.addedAt

def ArtistFields.metadata (patch : ArtistFields) : List Step :=
  scalar .name .text (fun _ => rfl) patch.name ++
  scalar .description .text (fun _ => rfl) patch.description ++
  scalar .albumCount .int (fun _ => rfl) patch.albumCount ++
  scalar .musicCount .int (fun _ => rfl) patch.musicCount ++
  nullable .sortName .text (fun _ => rfl) "" patch.sortName ++
  nullable .addedAt .time (fun _ => rfl) ⟨0, 0⟩ patch.addedAt

def MixFields.metadata (patch : MixFields) : List Step :=
  scalar .name .text (fun _ => rfl) patch.name ++
  scalar .trackCount .int (fun _ => rfl) patch.trackCount ++
  scalar .description .text (fun _ => rfl) patch.description ++
  scalar .mixType .int (fun _ => rfl) patch.mixType ++
  nullable .sortName .text (fun _ => rfl) "" patch.sortName ++
  nullable .updateAt .time (fun _ => rfl) ⟨0, 0⟩ patch.updateAt

/-- `state`. -/
def stateSteps (favorite : Option Bool) : List Step :=
  scalar .favorite (fun value => .flag (some value)) (fun _ => rfl) favorite

/-- `artists`. -/
def artistSteps : Option (List Int) → List Step
  | none => []
  | some ids =>
    if 10000 < ids.length then [.fail "Artist relation budget exceeded"]
    else if ids.any (· ≤ 0) || !decide ids.Nodup then [.fail "Invalid artist relation"]
    else [.assign ⟨.artists, .ids ids, false, rfl⟩]

/-- The album relation of a song. -/
def albumSteps : Option (Option Int) → List Step
  | none => []
  | some link =>
    if link.any (· ≤ 0) then [.fail "Invalid album relation"]
    else [.assign ⟨.album, .link link, link.isNone, rfl⟩]

/-- An element of `songs`, `albums`, `artists` or `mixes` as `apply` treats it. -/
structure Update where
  key : Key
  stamp : ReadStamp
  data : Data
  steps : List Step

def SongUpdate.update (u : SongUpdate) : Update :=
  ⟨⟨Song, u.id⟩, u.stamp, Data.new .song u.id,
    u.fields.metadata ++ stateSteps u.favorite ++ artistSteps u.artists ++ albumSteps u.album⟩

def AlbumUpdate.update (u : AlbumUpdate) : Update :=
  ⟨⟨Album, u.id⟩, u.stamp, Data.new .album u.id,
    u.fields.metadata ++ stateSteps u.favorite ++ artistSteps u.artists⟩

def ArtistUpdate.update (u : ArtistUpdate) : Update :=
  ⟨⟨Artist, u.id⟩, u.stamp, Data.new .artist u.id, u.fields.metadata ++ stateSteps u.favorite⟩

def MixUpdate.update (u : MixUpdate) : Update :=
  ⟨⟨Mix, u.id⟩, u.stamp, Data.new .mix u.id, u.fields.metadata⟩

/-- The updates of a batch in the order of the four loops. -/
def EntityBatch.updates (batch : EntityBatch) : List Update :=
  batch.songs.map SongUpdate.update ++ batch.albums.map AlbumUpdate.update ++
    batch.artists.map ArtistUpdate.update ++ batch.mixes.map MixUpdate.update

/-- The value of a field as `assign` is given it. -/
def Entry.content (entry : Entry) : Field → Value
  | .album => .link entry.album
  | .artists => .ids entry.artists
  | .favorite => .flag entry.favorite
  | slot => entry.data.values slot

/-- What `write` does for a field; the album of a song is also kept in its data. -/
def Entry.write (entry : Entry) (slot : Field) (value : Value) : Entry :=
  match slot, value with
  | .album, .link id => { entry with album := id, data := { entry.data with albumId := id } }
  | .artists, .ids ids => { entry with artists := ids }
  | .favorite, .flag value => { entry with favorite := value }
  | slot, value =>
    { entry with data := { entry.data with values := Function.update entry.data.values slot value } }

/-- An entry under an update, with the fields `assign` changed and the first failure. -/
structure Edit where
  entry : Entry
  fields : Fields
  error : String

def Edit.fail (edit : Edit) (message : String) : Edit :=
  if edit.error = "" then { edit with error := message } else edit

/-- `seen = revision` and the null bit, at the end of `assign`. -/
def Entry.stamp (entry : Entry) (slot : Field) (revision : Nat) (isNull : Bool) : Entry :=
  { entry with
    versions := Function.update entry.versions slot (some revision)
    nulls := if isNull then insert slot entry.nulls else entry.nulls.erase slot }

/-- `assign`. -/
def assign (revision : Nat) (edit : Edit) (a : Assignment) : Edit :=
  let seen := edit.entry.versions a.slot
  if seen.any (revision < ·) then edit
  else
    let different := seen = none ∨ edit.entry.content a.slot ≠ a.incoming ∨
      decide (a.slot ∈ edit.entry.nulls) ≠ a.isNull
    if seen = some revision ∧ different then edit.fail "Conflicting entity field revision"
    else if different then
      { edit with
        entry := (edit.entry.write a.slot a.incoming).stamp a.slot revision a.isNull
        fields := insert a.slot edit.fields }
    else { edit with entry := edit.entry.stamp a.slot revision a.isNull }

def Step.run (revision : Nat) (edit : Edit) : Step → Edit
  | .assign assignment => Qcm.EntityStore.assign revision edit assignment
  | .fail message => edit.fail message

/-! ## `apply` -/

/-- The store and the locals of `apply`. -/
structure Run where
  store : Store
  staged : Hash Key Entry
  removed : List Key
  epochs : Hash Int Nat
  tombstones : Hash Key Nat
  changed : Hash Key Fields
  statuses : Hash Key Status
  error : String
  stateChanges : List Key

def Run.start (store : Store) : Run :=
  ⟨store, ∅, [], store.epochs, store.tombstones, ∅, ∅, "", []⟩

/-- `fail`: the first message stays. -/
def Run.fail (run : Run) (message : String) : Run :=
  if run.error = "" then { run with error := message } else run

/-- `changed[key] |= fields`. -/
def Run.mark (run : Run) (key : Key) (fields : Fields) : Run :=
  { run with changed := run.changed.insert key (Hash.value run.changed key ∅ ∪ fields) }

/-- An entry of an owner whose epoch is over. -/
def Run.discard (run : Run) (key : Key) : Run :=
  { run with
    removed := run.removed.insert key
    changed := run.changed.insert key AllFields
    statuses := run.statuses.insert key .invalidated }

variable (iteration : Iteration)

/-- The keys of the stored entries of an owner that are older than an epoch. -/
def outdated (store : Store) (owner : Int) (epoch : Nat) : List Key :=
  (store.entries.entries.filter fun entry =>
    decide (entry.2.owner = owner ∧ entry.2.epoch < epoch)).map Sigma.fst

def invalidate (run : Run) (reset : ReadStamp) : Run :=
  if Hash.value run.epochs reset.owner 0 < reset.epoch then
    (iteration.order (outdated run.store reset.owner reset.epoch)).foldl Run.discard
      { run with epochs := run.epochs.insert reset.owner reset.epoch }
  else run

/-- The loop over `invalidations`, left at the first invalid stamp. -/
def invalidations (run : Run) : List ReadStamp → Run
  | [] => run
  | reset :: rest =>
    if reset.revision = 0 ∨ reset.owner < 0 then run.fail "Invalid scope stamp"
    else invalidations (invalidate iteration run reset) rest

/-- The end of `prepare`, for the entry it found or made. -/
def ready (run : Run) (key : Key) (stamp : ReadStamp) (entry : Entry) : Run × Option Entry :=
  let run := if entry.stale then run.mark key {.stale} else run
  let entry := { entry with
    stale := false
    versions := Function.update entry.versions .presence
      (some (max ((entry.versions .presence).getD 0) stamp.revision)) }
  ({ run with
    removed := run.removed.erase key
    staged := run.staged.insert key entry
    statuses := run.statuses.insert key .ready }, some entry)

/-- `prepare`: the entry an update works on, if it is to be applied. -/
def prepare (run : Run) (key : Key) (stamp : ReadStamp) (data : Data) : Run × Option Entry :=
  if key.id ≤ 0 ∨ stamp.revision = 0 ∨ stamp.owner < 0 then
    (run.fail "Invalid entity identity or stamp", none)
  else if stamp.revision < run.store.floor then (run, none)
  else if stamp.epoch < Hash.value run.epochs stamp.owner 0 then (run, none)
  else if Hash.value run.epochs stamp.owner 0 < stamp.epoch then
    (run.fail "Unannounced owner epoch", none)
  else if (run.tombstones.lookup key).any (stamp.revision ≤ ·) then (run, none)
  else
    match run.staged.lookup key with
    | some entry => ready run key stamp entry
    | none =>
      match if key ∈ run.removed then none else find run.store key with
      | some existing =>
        if existing.owner ≠ stamp.owner then (run.fail "Entity owner changed", none)
        else ready run key stamp existing
      | none =>
        ready (run.mark key {.presence}) key stamp
          ⟨data, stamp.owner, stamp.epoch, fun _ => none, ∅, [], none, none, false, 0⟩

/-- One round of the loops over the updates. -/
def applyUpdate (run : Run) (u : Update) : Run :=
  match prepare run u.key u.stamp u.data with
  | (run, none) => run
  | (run, some entry) =>
    let edit := u.steps.foldl (Step.run u.stamp.revision) ⟨entry, ∅, ""⟩
    let run := if edit.fields = ∅ then run else run.mark u.key edit.fields
    let run := if edit.error = "" then run else run.fail edit.error
    { run with
      staged := run.staged.insert u.key edit.entry
      stateChanges :=
        if entry.favorite.isSome ∧ edit.entry.favorite ≠ entry.favorite then
          run.stateChanges ++ [u.key]
        else run.stateChanges }

/-- The newest version in an entry, 0 for none. -/
def latest (existing : Option Entry) : Nat :=
  match existing with
  | none => 0
  | some entry => Finset.univ.sup fun slot => (entry.versions slot).getD 0

/-- One round of the loop over `removals`. -/
def applyRemoval (run : Run) (removal : Removal) : Run :=
  let key := canonical ⟨removal.type, removal.id⟩
  let stamp := removal.stamp
  if key.id ≤ 0 ∨
      (key.type ≠ Song ∧ key.type ≠ Album ∧ key.type ≠ Artist ∧ key.type ≠ Mix) ∨
      stamp.revision = 0 ∨ stamp.owner < 0 then
    run.fail "Invalid entity removal"
  else if stamp.revision < run.store.floor then run
  else if stamp.epoch < Hash.value run.epochs stamp.owner 0 then run
  else if Hash.value run.epochs stamp.owner 0 < stamp.epoch then
    run.fail "Unannounced removal epoch"
  else
    let existing := (run.staged.lookup key).or (find run.store key)
    if stamp.revision < latest existing then run
    else
      { run with
        removed := run.removed.insert key
        staged := run.staged.erase key
        statuses := run.statuses.insert key .deleted
        tombstones := run.tombstones.insert key (max (Hash.value run.tombstones key 0) stamp.revision)
        changed := if existing.isSome ∨ key ∉ run.store.tombstones then
          run.changed.insert key AllFields else run.changed }

/-- Everything up to the last check that can fail. -/
def gather (store : Store) (batch : EntityBatch) : Run :=
  let run := invalidations iteration (Run.start store) batch.invalidations
  let run := (batch.songs.map SongUpdate.update).foldl applyUpdate run
  let run := (batch.albums.map AlbumUpdate.update).foldl applyUpdate run
  let run := (batch.artists.map ArtistUpdate.update).foldl applyUpdate run
  let run := (batch.mixes.map MixUpdate.update).foldl applyUpdate run
  batch.removals.foldl applyRemoval run

/-- Takes out of `fields` those in which a staged entry does not differ from the
stored one after all. -/
def prune (previous entry : Entry) (fields : Fields) : Fields :=
  let knowledge := AllFields.filter fun slot => previous.known slot ≠ entry.known slot
  let same := previous.data.kind.properties.filter fun slot =>
    slot ∉ knowledge ∧ (slot ∈ previous.nulls ↔ slot ∈ entry.nulls) ∧
      (entry.known slot = false ∨ slot ∈ entry.nulls ∨
        previous.data.values slot = entry.data.values slot)
  let fields := if previous.data.kind = entry.data.kind then fields \ same else fields
  let fields := if previous.artists = entry.artists ∧ .artists ∉ knowledge then
    fields.erase .artists else fields
  let fields := if previous.album = entry.album ∧ .album ∉ knowledge then
    fields.erase .album else fields
  if previous.favorite = entry.favorite ∧ .favorite ∉ knowledge then
    fields.erase .favorite else fields

/-- The loop that prunes `changed`, over one key of `staged`. -/
def pruneChanged (run : Run) (key : Key) : Run :=
  match run.staged.lookup key, find run.store key with
  | some entry, some previous =>
    { run with changed :=
        run.changed.insert key (prune previous entry (Hash.value run.changed key ∅)) }
  | _, _ => run

/-- Whether the favorite of a stored entry that has one changes. -/
def favoriteChanges (run : Run) (key : Key) : Bool :=
  match run.staged.lookup key, find run.store key with
  | some entry, some previous => previous.favorite.isSome && previous.favorite ≠ entry.favorite
  | _, _ => false

/-- `trimAbsences`. -/
def trimAbsences (absent : Hash Key Status) (pins : Hash Key Nat) (capacity : Nat) :
    Hash Key Status :=
  (iteration.order absent.keys).foldl
    (fun absent key =>
      if max 64 capacity + pins.size < absent.size ∧ key ∉ pins then absent.erase key else absent)
    absent

def rememberAbsence (store : Store) (key : Key) (status : Status) : Store :=
  { store with absent :=
      trimAbsences iteration (store.absent.insert key status) store.pins store.tombstoneCapacity }

/-- An entry that was invalidated or deleted leaves the store. -/
def dropEntry (statuses : Hash Key Status) (store : Store) (key : Key) : Store :=
  rememberAbsence iteration { store with entries := store.entries.erase key } key
    (Hash.value statuses key .invalidated)

/-- When there are too many tombstones, the floor is raised to the newest of
those that are too many, and the tombstones up to the floor are erased. -/
def trimTombstones (store : Store) : Store :=
  if store.tombstoneCapacity < store.tombstones.size then
    let revisions := (Hash.values store.tombstones).insertionSort (· ≤ ·)
    let floor := max store.floor
      ((revisions[revisions.length - store.tombstoneCapacity - 1]?).getD 0)
    { store with
      floor := floor
      tombstones := Hash.filter (fun _ revision => decide (floor < revision)) store.tombstones }
  else store

/-- A staged entry is stored. -/
def adopt (staged : Hash Key Entry) (store : Store) (key : Key) : Store :=
  match staged.lookup key with
  | none => store
  | some entry =>
    { store with
      clock := store.clock + 1
      absent := store.absent.erase key
      entries := store.entries.insert key { entry with touched := store.clock + 1 } }

/-- `dependents[key].push_back(change)`. -/
def dependOn (dependents : Hash Key (List Change)) (key : Key) (change : Change) :
    Hash Key (List Change) :=
  dependents.insert key (Hash.value dependents key [] ++ [change])

/-- The references of one entry, as dependencies of what it refers to. -/
def dependOnReferences (store : Store) (dependents : Hash Key (List Change)) (key : Key) :
    Hash Key (List Change) :=
  match store.entries.lookup key with
  | none => dependents
  | some entry =>
    let dependents := entry.artists.foldl
      (fun dependents id => dependOn dependents ⟨Artist, id⟩ ⟨key, {.artists}, .ready⟩) dependents
    match entry.album with
    | none => dependents
    | some id => dependOn dependents ⟨Album, id⟩ ⟨key, {.album}, .ready⟩

def rebuildDependencies (store : Store) : Store :=
  let keys := iteration.order store.entries.keys
  { store with dependents := keys.foldl (dependOnReferences store) ∅ }

/-- One dependency of a changed key: it is marked, and queued when it was not
marked before. -/
def follow (state : List Key × Hash Key Fields) (dependency : Change) :
    List Key × Hash Key Fields :=
  let old := Hash.value state.2 dependency.key ∅
  (if old = ∅ then state.1 ++ [dependency.key] else state.1,
    state.2.insert dependency.key (old ∪ dependency.fields))

/-- The loop over `queue`.  A key is queued once, so as many rounds as there are
changed keys and dependencies are enough. -/
def propagate (dependents : Hash Key (List Change)) :
    Nat → List Key → Hash Key Fields → Hash Key Fields
  | 0, _, changed => changed
  | _, [], changed => changed
  | fuel + 1, key :: queue, changed =>
    if Disjoint (Hash.value changed key ∅) {.name, .presence, .deleted} then
      propagate dependents fuel queue changed
    else
      let (queue, changed) := (Hash.value dependents key []).foldl follow (queue, changed)
      propagate dependents fuel queue changed

def propagationRounds (dependents : Hash Key (List Change)) (changed : Hash Key Fields) : Nat :=
  changed.size + ((Hash.values dependents).map List.length).sum

/-- The members as `apply` leaves them. -/
def commit (instanceName : String) (run : Run) : Store :=
  let store := { run.store with
    instanceName := instanceName
    scopeRevision :=
      if Hash.same run.store.epochs run.epochs then run.store.scopeRevision
      else run.store.scopeRevision + 1
    epochs := run.epochs
    tombstones := run.tombstones }
  let store := (iteration.order run.removed).foldl (dropEntry iteration run.statuses) store
  let store := trimTombstones store
  let store := (iteration.order run.staged.keys).foldl (adopt run.staged) store
  rebuildDependencies iteration store

/-- The changes that are reported, from what changed and what depends on it. -/
def report (run : Run) (store : Store) : List Change :=
  let changed := propagate store.dependents (propagationRounds store.dependents run.changed)
    (iteration.order run.changed.keys) run.changed
  (iteration.order changed.keys).filterMap fun key =>
    let fields := Hash.value changed key ∅
    if fields = ∅ then none
    else some ⟨key, fields, Hash.value run.statuses key (status store key)⟩

/-- `EntityStore::apply`: the result and the members afterwards. -/
def apply (store : Store) (batch : EntityBatch) : ApplyResult × Store :=
  if batch.protocol ≠ 2 ∨ batch.instanceName = "" then
    (⟨"Unsupported entity protocol", [], []⟩, store)
  else if store.instanceName ≠ "" ∧ store.instanceName ≠ batch.instanceName then
    (⟨"Entity backend instance changed", [], []⟩, store)
  else if 200000 < batch.songs.length + batch.albums.length + batch.artists.length +
        batch.mixes.length + batch.removals.length ∨ 10000 < batch.invalidations.length then
    (⟨"Entity batch budget exceeded", [], []⟩, store)
  else
    let run := gather iteration store batch
    if run.error ≠ "" then (⟨run.error, [], run.stateChanges⟩, run.store)
    else
      let run := (iteration.order run.staged.keys).foldl pruneChanged run
      let stateChanges := (iteration.order run.staged.keys).filter (favoriteChanges run)
      let store := commit iteration batch.instanceName run
      (⟨"", report iteration run store, stateChanges⟩, store)

/-- `clear`: every entry is remembered as invalidated. -/
def clear (store : Store) : List Change × Store :=
  let keys := iteration.order store.entries.keys
  let cleared := { store with
    scopeRevision := store.scopeRevision + 1
    entries := ∅
    dependents := ∅
    epochs := ∅
    tombstones := ∅
    absent := ∅ }
  (keys.map fun key => ⟨key, AllFields, .invalidated⟩,
    { keys.foldl (fun store key => rememberAbsence iteration store key .invalidated) cleared with
      floor := 0
      instanceName := "" })

/-- `it->stale = true`. -/
def setStale (entries : Hash Key Entry) (key : Key) : Hash Key Entry :=
  match entries.lookup key with
  | none => entries
  | some entry => entries.replace key { entry with stale := true }

/-- `markStale`. -/
def markStale (store : Store) : List Change × Store :=
  let fresh := (iteration.order store.entries.keys).filter fun key =>
    (store.entries.lookup key).any fun entry => !entry.stale
  (fresh.map fun key => ⟨key, {.stale}, .stale⟩,
    { store with entries := fresh.foldl setStale store.entries })

/-- The sizes of types, as the compiler lays them out; `qsizetype` has 8 bytes. -/
structure Sizes where
  key : Nat
  status : Nat
  entry : Nat
  change : Nat
  string : Nat

/-- The bytes of the characters of a `QString`, two for each UTF-16 unit. -/
def textBytes (text : String) : Nat := 2 * (text.toList.map fun char => if char.val < 0x10000 then 1 else 2).sum

/-- What `entryBytes` adds for a property. -/
def valueBytes (sizes : Sizes) : Value → Nat
  | .text text => textBytes text
  | .texts texts => (texts.map fun text => sizes.string + textBytes text).sum
  | _ => 0

def entryBytes (sizes : Sizes) (entry : Entry) : Nat :=
  sizes.entry + (entry.artists.length + entry.album.toList.length) * (8 + sizes.change + 32) +
    ∑ slot ∈ entry.data.kind.properties, valueBytes sizes (entry.data.values slot)

/-- The bytes of a record of an absent key. -/
def absenceBytes (sizes : Sizes) : Nat := sizes.key + sizes.status + 32

def bytes (sizes : Sizes) (store : Store) : Nat :=
  store.tombstones.size * (sizes.key + 8 + 32) + store.absent.size * absenceBytes sizes +
    store.pins.size * (sizes.key + 8 + 32) +
    ((Hash.values store.entries).map (entryBytes sizes)).sum

/-- The keys an entry refers to. -/
def Entry.references (entry : Entry) : List Key :=
  entry.artists.map (⟨Artist, ·⟩) ++ entry.album.toList.map (⟨Album, ·⟩)

/-- The references of a stored key. -/
def references (store : Store) (key : Key) : List Key :=
  match find store key with
  | none => []
  | some entry => entry.references

/-- The pinned keys, where the walk through the references begins. -/
def pinned (store : Store) : List Key :=
  (iteration.order store.pins.keys).filter fun key => 0 < Hash.value store.pins key 0

/-- The loop over `pending`. -/
def reachable (store : Store) : List Key :=
  let links := (store.entries.keys.map fun key => (references store key).length).sum
  Worklist.visit (references store) (store.pins.size + links) (pinned iteration store) []

/-- `m_entries[key].touched`. -/
def touched (store : Store) (key : Key) : Nat := (store.entries.lookup key).elim 0 Entry.touched

/-- The stored keys that are not reachable, the longest untouched first. -/
def candidates (store : Store) : List Key :=
  ((iteration.order store.entries.keys).filter fun key => key ∉ reachable iteration store).insertionSort
    fun left right => touched store left ≤ touched store right

/-- One entry leaves the store for want of room. -/
def evict (store : Store) (key : Key) : Store :=
  rememberAbsence iteration { store with entries := store.entries.erase key } key .evicted

/-- The loop over the candidates. -/
def evictions (sizes : Sizes) : List Key → Nat → Store → List Change × Store
  | [], _, store => ([], store)
  | key :: rest, used, store =>
    if store.entries.size ≤ store.capacity ∧ used ≤ store.byteBudget then ([], store)
    else
      let size := (store.entries.lookup key).elim sizes.entry (entryBytes sizes)
      let (changes, store) := evictions sizes rest (used - size) (evict iteration store key)
      (⟨key, AllFields, .evicted⟩ :: changes, store)

/-- `collect`. -/
def collect (sizes : Sizes) (store : Store) : List Change × Store :=
  let (changes, store) :=
    evictions iteration sizes (candidates iteration store) (bytes sizes store) store
  let store := { store with
    absent := trimAbsences iteration store.absent store.pins store.tombstoneCapacity }
  (changes, rebuildDependencies iteration store)

end Qcm.EntityStore
