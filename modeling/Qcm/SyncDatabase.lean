import Qcm.Lib.Hash

/-!
The tables a provider's library is kept in, with the rows a deletion takes along
through the foreign keys of the migrations (`foreign_keys = ON`, every one of
them `ON DELETE CASCADE`), and the clean-up of `sync_drop_before`.  A row keeps
the columns that some statement below, or a sync batch, reads or writes.
-/

namespace Qcm.SyncDatabase

open Lib

/-- `ItemType`. -/
inductive ItemType where
  | unSpecified | provider | library | album | albumArtist | artist | mix | radio | song | program
  deriving DecidableEq, Repr

/-- The number an item type is stored and sent as. -/
def ItemType.code : ItemType → Int
  | .unSpecified => 0
  | .provider => 1
  | .library => 2
  | .album => 51
  | .albumArtist => 52
  | .artist => 53
  | .mix => 54
  | .radio => 55
  | .song => 101
  | .program => 102

/-- `ItemType::try_from`. -/
def ItemType.tryFrom (code : Int) : Option ItemType :=
  [ItemType.unSpecified, .provider, .library, .album, .albumArtist, .artist, .mix, .radio, .song,
    .program].find? fun kind => kind.code = code

theorem ItemType.tryFrom_code (kind : ItemType) : ItemType.tryFrom kind.code = some kind := by
  cases kind <;> rfl

structure LibraryRow where
  providerId : Int
  editTime : Int
  deriving DecidableEq

structure ItemRow where
  nativeId : String
  libraryId : Option Int
  providerId : Int
  kind : ItemType
  lastSyncAt : Int
  deriving DecidableEq

structure NameRow where
  name : String
  deriving DecidableEq

structure SongRow where
  name : String
  albumId : Option Int
  deriving DecidableEq

/-- A row of `mix`, the local mixes and the cache of each remote one. -/
structure MixRow where
  name : String
  remoteId : Option Int
  deriving DecidableEq

/-- A row of `rel_album_artist` or `rel_song_artist`; the owner is the album or
the song. -/
structure ArtistRelRow where
  owner : Int
  artistId : Int
  updateAt : Int
  deriving DecidableEq

structure MixSongRow where
  mixId : Int
  songId : Int
  orderIdx : Int
  deriving DecidableEq

structure DynamicRow where
  isExternal : Bool
  playCount : Int
  remotePlayCount : Int
  lastPosition : Option Int
  lastPlayedAt : Option Int
  remoteLastPlayedAt : Option Int
  favoriteAt : Option Int
  updateAt : Int
  deriving DecidableEq

/-- The database of the backend. -/
structure Database where
  libraries : Hash Int LibraryRow
  items : Hash Int ItemRow
  albums : Hash Int NameRow
  artists : Hash Int NameRow
  songs : Hash Int SongRow
  remoteMixes : Hash Int NameRow
  dynamics : Hash Int DynamicRow
  mixes : Hash Int MixRow
  relAlbumArtists : Hash Int ArtistRelRow
  relSongArtists : Hash Int ArtistRelRow
  relMixSongs : Hash Int MixSongRow

def Database.empty : Database := ⟨∅, ∅, ∅, ∅, ∅, ∅, ∅, ∅, ∅, ∅, ∅⟩

/-- `DELETE FROM mix`: the songs listed in a deleted mix go with it. -/
def Database.deleteMixes (db : Database) (gone : Int → MixRow → Bool) : Database :=
  { db with
    mixes := db.mixes.filter fun id row => !gone id row
    relMixSongs := db.relMixSongs.filter fun _ row => !Hash.hits gone db.mixes row.mixId }

/-- `DELETE FROM remote_mix`: `mix.remote_id` cascades. -/
def Database.deleteRemoteMixes (db : Database) (gone : Int → NameRow → Bool) : Database :=
  { db with remoteMixes := db.remoteMixes.filter fun id row => !gone id row }.deleteMixes
    fun _ row => row.remoteId.any (Hash.hits gone db.remoteMixes)

/-- `DELETE FROM song`: its artist relations and its places in mixes cascade. -/
def Database.deleteSongs (db : Database) (gone : Int → SongRow → Bool) : Database :=
  { db with
    songs := db.songs.filter fun id row => !gone id row
    relSongArtists := db.relSongArtists.filter fun _ row => !Hash.hits gone db.songs row.owner
    relMixSongs := db.relMixSongs.filter fun _ row => !Hash.hits gone db.songs row.songId }

/-- `DELETE FROM artist`. -/
def Database.deleteArtists (db : Database) (gone : Int → NameRow → Bool) : Database :=
  { db with
    artists := db.artists.filter fun id row => !gone id row
    relAlbumArtists := db.relAlbumArtists.filter fun _ row => !Hash.hits gone db.artists row.artistId
    relSongArtists := db.relSongArtists.filter fun _ row => !Hash.hits gone db.artists row.artistId }

/-- `DELETE FROM album`: `song.album_id` cascades, so the songs of a deleted
album go with it. -/
def Database.deleteAlbums (db : Database) (gone : Int → NameRow → Bool) : Database :=
  { db with
    albums := db.albums.filter fun id row => !gone id row
    relAlbumArtists := db.relAlbumArtists.filter fun _ row => !Hash.hits gone db.albums row.owner
    }.deleteSongs fun _ row => row.albumId.any (Hash.hits gone db.albums)

/-- `DELETE FROM item`: every table keyed by the item cascades. -/
def Database.deleteItems (db : Database) (gone : Int → ItemRow → Bool) : Database :=
  let went := Hash.hits gone db.items
  (((({ db with
    items := db.items.filter fun id row => !gone id row
    dynamics := db.dynamics.filter fun id _ => !went id
    }.deleteAlbums fun id _ => went id).deleteArtists fun id _ => went id).deleteSongs
    fun id _ => went id).deleteRemoteMixes fun id _ => went id)

/-- `DELETE FROM library`: `item.library_id` cascades. -/
def Database.deleteLibraries (db : Database) (gone : Int → LibraryRow → Bool) : Database :=
  { db with libraries := db.libraries.filter fun id row => !gone id row }.deleteItems
    fun _ row => row.libraryId.any (Hash.hits gone db.libraries)

/-- The owners whose artist relations `sync_drop_before` clears: one relation
of theirs is older than the sync, they lie in a library that is left, and they
are not retained or were synced again. -/
def Database.staleOwners (db : Database) (rels : Hash Int ArtistRelRow) (libraries : List Int)
    (now : Int) (retained : Finset Int) (owner : Int) : Bool :=
  Hash.any (fun _ rel => rel.owner = owner && rel.updateAt < now &&
    Hash.hits (fun id item => item.libraryId.any libraries.contains &&
      (id ∉ retained || now ≤ item.lastSyncAt)) db.items rel.owner) rels

/-- `sync_drop_before`. -/
def Database.syncDropBefore (db : Database) (provider now : Int) (retained : Finset Int) : Database :=
  let cleaned := db.deleteLibraries fun _ row => row.providerId = provider && row.editTime < now
  let ids := (Hash.filter (fun _ row => row.providerId = provider) cleaned.libraries).keys
  let albums := cleaned.staleOwners cleaned.relAlbumArtists ids now retained
  let cleaned :=
    { cleaned with relAlbumArtists := cleaned.relAlbumArtists.filter fun _ rel => !albums rel.owner }
  let songs := cleaned.staleOwners cleaned.relSongArtists ids now retained
  let cleaned :=
    { cleaned with relSongArtists := cleaned.relSongArtists.filter fun _ rel => !songs rel.owner }
  cleaned.deleteItems fun id row =>
    row.lastSyncAt < now && row.providerId = provider && id ∉ retained

/-- `SyncScope`. -/
structure SyncScope where
  libraryId : Option Int
  itemType : Int
  deriving DecidableEq

/-- `SyncScope::new`. -/
def SyncScope.new (library : Option Int) (kind : ItemType) : SyncScope := ⟨library, kind.code⟩

/-- What `finalize` does for one candidate that it prunes. -/
def Database.pruneItem (db : Database) (id : Int) (row : ItemRow) : Database :=
  let cleared :=
    if row.kind = .mix ∨ row.kind = .radio then db.deleteMixes fun _ mix => mix.remoteId = some id
    else db
  cleared.deleteItems fun other _ => other = id

/-- The items of a provider, the candidates of `finalize`. -/
def Database.candidates (db : Database) (provider : Int) : List (Int × ItemRow) :=
  (db.items.entries.filter fun entry => entry.2.providerId = provider).map fun entry =>
    (entry.1, entry.2)

/-- The candidates that `finalize` deletes. -/
def Database.pruned (db : Database) (provider : Int) (scopes : Finset SyncScope)
    (seen retained : Finset Int) : List (Int × ItemRow) :=
  (db.candidates provider).filter fun entry =>
    SyncScope.new entry.2.libraryId entry.2.kind ∈ scopes ∧ entry.1 ∉ seen ∧ entry.1 ∉ retained

/-- The rows `finalize` deletes, in its order: the pruned items one by one, then
the libraries that the run has not met. -/
def Database.finalize (db : Database) (provider : Int) (scopes : Finset SyncScope)
    (seen libraries retained : Finset Int) : Database :=
  let pruned := (db.pruned provider scopes seen retained).foldl
    (fun db entry => db.pruneItem entry.1 entry.2) db
  pruned.deleteLibraries fun id row => row.providerId = provider && id ∉ libraries

/-- The database rows every item retention is made from, as
`retain_items` collects them: the ids asked for, the albums of the songs among
them, and the artists of the songs and albums. -/
def Database.retainItems (db : Database) (provider : Int) (ids : Finset Int) : Except String (Finset Int) :=
  let roots := (db.candidates provider).filter fun entry => entry.1 ∈ ids
  if 4096 < ids.card ∨ ∃ id ∈ ids, id ≤ 0 then .error "invalid retained item set"
  else if roots.length ≠ ids.card then
    .error "retained item is missing or belongs to another provider"
  else
    let albums := db.songs.entries.filterMap fun entry => if entry.1 ∈ ids then entry.2.albumId else none
    let ids := ids ∪ albums.toFinset
    let songArtists := db.relSongArtists.entries.filterMap fun entry =>
      if entry.2.owner ∈ ids then some entry.2.artistId else none
    let albumArtists := db.relAlbumArtists.entries.filterMap fun entry =>
      if entry.2.owner ∈ ids then some entry.2.artistId else none
    let ids := ids ∪ songArtists.toFinset ∪ albumArtists.toFinset
    let dependencies := (db.candidates provider).filter fun entry => entry.1 ∈ ids
    if dependencies.length ≠ ids.card then
      .error "retained item dependency is missing or belongs to another provider"
    else .ok ids

end Qcm.SyncDatabase
