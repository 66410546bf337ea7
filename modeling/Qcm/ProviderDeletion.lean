import Qcm.Lib.References
import Qcm.Lib.Runs
import Qcm.SyncCoordinator

/-!
`DeleteProviderReq`, among everything else that happens to the coordinator.

Whoever writes the tables does it in statements, under the foreign keys of the
migrations: a statement that names a missing row fails, its transaction with it,
and a deletion takes the rows along that refer to what it deletes.  `item` names
its provider without a foreign key.
-/

namespace Qcm.ProviderDeletion

open Lib Lib.Runs SyncDatabase SyncCoordinator

/-- The ids of the provider rows, beside the tables of the coordinator. -/
structure Store where
  providers : List Int
  db : Database

/-- The statements on these tables: an insert or an update of the row with an id,
or a deletion. -/
inductive Statement where
  | putProvider (id : Int)
  | putLibrary (id : Int) (row : LibraryRow)
  | putItem (id : Int) (row : ItemRow)
  | putAlbum (id : Int) (row : NameRow)
  | putArtist (id : Int) (row : NameRow)
  | putSong (id : Int) (row : SongRow)
  | putRemoteMix (id : Int) (row : NameRow)
  | putDynamic (id : Int) (row : DynamicRow)
  | putMix (id : Int) (row : MixRow)
  | putAlbumArtist (id : Int) (row : ArtistRelRow)
  | putSongArtist (id : Int) (row : ArtistRelRow)
  | putMixSong (id : Int) (row : MixSongRow)
  | deleteProviders (gone : Int → Bool)
  | deleteLibraries (gone : Int → LibraryRow → Bool)
  | deleteItems (gone : Int → ItemRow → Bool)
  | deleteMixes (gone : Int → MixRow → Bool)
  | deleteAlbumArtists (gone : Int → ArtistRelRow → Bool)
  | deleteSongArtists (gone : Int → ArtistRelRow → Bool)
  | deleteMixSongs (gone : Int → MixSongRow → Bool)

/-- Whether a table has a row with this id. -/
def has {β : Type} (table : Hash Int β) (id : Int) : Bool := (table.lookup id).isSome

/-- `DELETE FROM provider`: `library.provider_id` cascades. -/
def Store.deleteProviders (s : Store) (gone : Int → Bool) : Store where
  providers := s.providers.filter fun id => !gone id
  db := s.db.deleteLibraries fun _ row => s.providers.contains row.providerId && gone row.providerId

/-- The tables after a write whose references are there. -/
def Store.checked (s : Store) (found : Bool) (db : Database) : Option Store :=
  if found then some { s with db := db } else none

/-- One statement. -/
def Statement.exec (s : Store) : Statement → Option Store
  | .putProvider id => some { s with providers := s.providers.insert id }
  | .putLibrary id row => s.checked (s.providers.contains row.providerId)
      { s.db with libraries := Hash.put id row s.db.libraries }
  | .putItem id row => s.checked (row.libraryId.all (has s.db.libraries))
      { s.db with items := Hash.put id row s.db.items }
  | .putAlbum id row => s.checked (has s.db.items id) { s.db with albums := Hash.put id row s.db.albums }
  | .putArtist id row => s.checked (has s.db.items id) { s.db with artists := Hash.put id row s.db.artists }
  | .putSong id row => s.checked (has s.db.items id && row.albumId.all (has s.db.albums))
      { s.db with songs := Hash.put id row s.db.songs }
  | .putRemoteMix id row => s.checked (has s.db.items id)
      { s.db with remoteMixes := Hash.put id row s.db.remoteMixes }
  | .putDynamic id row => s.checked (has s.db.items id)
      { s.db with dynamics := s.db.dynamics.insert id row }
  | .putMix id row => s.checked (row.remoteId.all (has s.db.remoteMixes))
      { s.db with mixes := Hash.put id row s.db.mixes }
  | .putAlbumArtist id row => s.checked (has s.db.albums row.owner && has s.db.artists row.artistId)
      { s.db with relAlbumArtists := Hash.put id row s.db.relAlbumArtists }
  | .putSongArtist id row => s.checked (has s.db.songs row.owner && has s.db.artists row.artistId)
      { s.db with relSongArtists := Hash.put id row s.db.relSongArtists }
  | .putMixSong id row => s.checked (has s.db.mixes row.mixId && has s.db.songs row.songId)
      { s.db with relMixSongs := Hash.put id row s.db.relMixSongs }
  | .deleteProviders gone => some (s.deleteProviders gone)
  | .deleteLibraries gone => some { s with db := s.db.deleteLibraries gone }
  | .deleteItems gone => some { s with db := s.db.deleteItems gone }
  | .deleteMixes gone => some { s with db := s.db.deleteMixes gone }
  | .deleteAlbumArtists gone => some { s with db := { s.db with
      relAlbumArtists := Hash.filter (fun id row => !gone id row) s.db.relAlbumArtists } }
  | .deleteSongArtists gone => some { s with db := { s.db with
      relSongArtists := Hash.filter (fun id row => !gone id row) s.db.relSongArtists } }
  | .deleteMixSongs gone => some { s with db := { s.db with
      relMixSongs := Hash.filter (fun id row => !gone id row) s.db.relMixSongs } }

/-- The statements of a transaction, one after the other. -/
def execAll (s : Store) (sql : List Statement) : Option Store := sql.foldlM Statement.exec s

/-- A transaction: all of its statements, or none. -/
def transact (s : Store) (sql : List Statement) : Store := (execAll s sql).getD s

/-- The foreign keys that lead from a row to its library and its provider. -/
structure ForeignKeys (s : Store) : Prop where
  libraries : ∀ id row, s.db.libraries.lookup id = some row → row.providerId ∈ s.providers
  items : Refers s.db.items (fun _ row => row.libraryId) s.db.libraries
  albums : Refers s.db.albums (fun id _ => some id) s.db.items
  artists : Refers s.db.artists (fun id _ => some id) s.db.items
  songs : Refers s.db.songs (fun id _ => some id) s.db.items
  remoteMixes : Refers s.db.remoteMixes (fun id _ => some id) s.db.items
  mixes : Refers s.db.mixes (fun _ row => row.remoteId) s.db.remoteMixes

/-- How far the request has come. -/
inductive Stage where
  | called
  /-- It has the write guard of the provider. -/
  | guarded
  /-- `invalidate_sync`. -/
  | stopped
  /-- The provider row is deleted. -/
  | deleted
  /-- `invalidate_scope`. -/
  | scoped
  /-- The guard is dropped. -/
  | released
  /-- `remove_provider`. -/
  | removed
  /-- The reply is `Ok`. -/
  | returned
  /-- The reply is an error, or the future was dropped. -/
  | failed
  deriving DecidableEq

/-- The stages at which the request holds the guard. -/
def Stage.holds : Stage → Bool
  | .guarded | .stopped | .deleted | .scoped => true
  | _ => false

/-- The stages after the deletion. -/
def Stage.past : Stage → Bool
  | .deleted | .scoped | .released | .removed | .returned => true
  | _ => false

/-- `registered` is `Global::providers`: the providers that are loaded, each with
the cell of its generation. -/
structure World where
  sync : SyncCoordinator.World
  providers : List Int
  registered : Hash Int Nat
  stage : Stage

def World.store (w : World) : Store := ⟨w.providers, w.sync.db⟩

/-- `remove_provider`; `invalidate` advances the generation of what was removed. -/
def World.removeProvider (w : World) (id : Int) : World :=
  { w with
    registered := w.registered.erase id
    sync := match w.registered.lookup id with
      | none => w.sync
      | some cell =>
        { w.sync with cells := Function.update w.sync.cells cell (w.sync.cells cell + 1) } }

/-- The events of whoever holds the guard of a provider outside of a run. -/
def usesGuard (p : Int) : SyncCoordinator.Event → Bool
  | .released q | .wrote q _ | .stamped q _ | .setFavorite q _ _ | .invalidatedSync q
  | .readRetained q | .droppedBefore q _ => q = p
  | _ => false

inductive Event where
  | request (stage : Stage)
  | other (event : SyncCoordinator.Event) (sql : List Statement)
  | addProvider (id : Int) (cell : Nat)

/-- One step of the request for `p`, or of anything else. -/
inductive Step (owner : Int → Int) (p : Int) : World → Event → World → Prop where
  | acquire {w : World} {sync : SyncCoordinator.World} (here : w.stage = .called)
      (step : SyncCoordinator.Step owner w.sync (.acquired p none) sync) :
      Step owner p w (.request .guarded) { w with sync := sync, stage := .guarded }
  | stop {w : World} {sync : SyncCoordinator.World} (here : w.stage = .guarded)
      (step : SyncCoordinator.Step owner w.sync (.invalidatedSync p) sync) :
      Step owner p w (.request .stopped) { w with sync := sync, stage := .stopped }
  | delete {w : World} {sync : SyncCoordinator.World} {s : Store} (here : w.stage = .stopped)
      (done : Statement.exec w.store (.deleteProviders fun id => id = p) = some s)
      (step : SyncCoordinator.Step owner w.sync (.wrote p none) sync) (written : sync.db = s.db) :
      Step owner p w (.request .deleted)
        { w with sync := sync, providers := s.providers, stage := .deleted }
  | scope {w : World} (here : w.stage = .deleted) :
      Step owner p w (.request .scoped) { w with stage := .scoped }
  | release {w : World} {sync : SyncCoordinator.World} (here : w.stage = .scoped)
      (step : SyncCoordinator.Step owner w.sync (.released p) sync) :
      Step owner p w (.request .released) { w with sync := sync, stage := .released }
  | remove {w : World} (here : w.stage = .released) :
      Step owner p w (.request .removed) { w.removeProvider p with stage := .removed }
  | answer {w : World} (here : w.stage = .removed) :
      Step owner p w (.request .returned) { w with stage := .returned }
  /-- An error, or the end of the request's future, without the guard or with it. -/
  | fail {w : World} (outside : w.stage.holds = false) (unanswered : w.stage ≠ .returned) :
      Step owner p w (.request .failed) { w with stage := .failed }
  | failInside {w : World} {sync : SyncCoordinator.World} (inside : w.stage.holds = true)
      (step : SyncCoordinator.Step owner w.sync (.released p) sync) :
      Step owner p w (.request .failed) { w with sync := sync, stage := .failed }
  /-- A step of the coordinator, of a sync run or of another request.  What it
  writes is a transaction. -/
  | other {w : World} {sync : SyncCoordinator.World} {event : SyncCoordinator.Event}
      {sql : List Statement} (apart : w.stage.holds = true → usesGuard p event = false)
      (step : SyncCoordinator.Step owner w.sync event sync)
      (written : sync.db = (transact w.store sql).db) :
      Step owner p w (.other event sql)
        { w with sync := sync, providers := (transact w.store sql).providers }
  /-- `AddProviderReq` writes its row without a guard, under the id its provider
  has already, if it has one. -/
  | addProvider {w : World} {id : Int} {cell : Nat} :
      Step owner p w (.addProvider id cell)
        { w with providers := w.providers.insert id, registered := w.registered.insert id cell }

/-- An item of the provider that its libraries account for. -/
def Homed (p : Int) (db : Database) (row : ItemRow) : Prop :=
  row.providerId = p →
    ∃ id, row.libraryId = some id ∧ ∀ library, db.libraries.lookup id = some library → library.providerId = p

/-- A statement that writes no item of the provider outside of its libraries, and
not its row. -/
def Statement.Keeps (p : Int) (db : Database) : Statement → Prop
  | .putProvider id => id ≠ p
  | .putItem _ row => Homed p db row
  | _ => True

/-- `Keeps`, of every statement that a transaction comes to. -/
def Orderly (p : Int) : Store → List Statement → Prop
  | _, [] => True
  | s, statement :: rest =>
    statement.Keeps p s.db ∧ ∀ t, statement.exec s = some t → Orderly p t rest

/-- At the deletion the libraries of the provider account for its items, and
nothing is written later that they do not account for. -/
def Accounted (p : Int) (w : World) : Event → Prop
  | .request .deleted => ∀ id row, w.sync.db.items.lookup id = some row → Homed p w.sync.db row
  | .request _ => True
  | .other _ sql => w.stage.past = true → Orderly p w.store sql
  | .addProvider id _ => w.stage.past = true → id ≠ p

/-- A row keyed by an item that is there, of another provider. -/
def Foreign (p : Int) (db : Database) (id : Int) : Prop :=
  ∃ row, db.items.lookup id = some row ∧ row.providerId ≠ p

/-- No item of the provider is there, and no row that belongs to one. -/
structure Clean (p : Int) (db : Database) : Prop where
  items : ∀ id row, db.items.lookup id = some row → row.providerId ≠ p
  songs : ∀ id row, db.songs.lookup id = some row → Foreign p db id
  albums : ∀ id row, db.albums.lookup id = some row → Foreign p db id
  artists : ∀ id row, db.artists.lookup id = some row → Foreign p db id
  remoteMixes : ∀ id row, db.remoteMixes.lookup id = some row → Foreign p db id
  mixes : ∀ id row remote, db.mixes.lookup id = some row → row.remoteId = some remote → Foreign p db remote

end Qcm.ProviderDeletion
