import Qcm.SyncCoordinator
import Qcm.Lib.Rows

/-!
The rows a sync batch writes, with every column it reads or sets except the
times that nothing here reads back, and the batch itself as `sync_batch` gets
it.  The coordinator's tables keep fewer columns: `Tables.database` forgets the
others, and a reference is resolved there.
-/

namespace Qcm.BatchTables

open Lib SyncDatabase SyncBatch

inductive AlbumType where
  | unknown | album | ep | single | soundtrack | compilation | live
  deriving DecidableEq, Repr

inductive ImageType where
  | primary | backdrop | banner | thumb | logo
  deriving DecidableEq, Repr

inductive MixType where
  | normal | link | cache
  deriving DecidableEq, Repr

structure Library where
  name : String
  providerId : Int
  nativeId : String
  editTime : Int
  deriving DecidableEq

structure Album where
  name : String
  sortName : Option String
  trackCount : Int
  discCount : Int
  kind : AlbumType
  duration : Int
  language : Option String
  description : Option String
  company : Option String
  publishTime : Option Int
  addedAt : Option Int
  deriving DecidableEq

structure Artist where
  name : String
  sortName : Option String
  description : String
  albumCount : Int
  musicCount : Int
  addedAt : Option Int
  deriving DecidableEq

/-- A row of `song`.  `popularity` is kept as the bits of its `f64`, and `tags`
is nothing where the stored JSON is not an array of strings. -/
structure Song where
  name : String
  sortName : Option String
  albumId : Option Int
  trackNumber : Int
  discNumber : Int
  duration : Int
  canPlay : Bool
  popularity : BitVec 64
  tags : Option (List String)
  publishTime : Option Int
  addedAt : Option Int
  deriving DecidableEq

structure RemoteMix where
  name : String
  description : Option String
  trackCount : Int
  mixType : String
  deriving DecidableEq

structure Mix where
  name : String
  trackCount : Int
  mixType : MixType
  sortName : Option String
  description : String
  remoteId : Option Int
  deriving DecidableEq

/-- A row of `image`, which is found by its item and type. -/
structure Image where
  nativeId : Option String
  db : Option String
  fresh : String
  deriving DecidableEq

/-- `sqlite_sequence`: the highest ids given out so far. -/
structure Sequence where
  library : Int
  item : Int
  mix : Int
  relAlbumArtist : Int
  relSongArtist : Int
  relMixSong : Int
  deriving DecidableEq

structure Tables where
  providers : List Int
  libraries : Hash Int Library
  items : Hash Int ItemRow
  albums : Hash Int Album
  artists : Hash Int Artist
  songs : Hash Int Song
  remoteMixes : Hash Int RemoteMix
  mixes : Hash Int Mix
  dynamics : Hash Int DynamicRow
  images : Hash (Int × ImageType) Image
  relAlbumArtists : Hash Int ArtistRelRow
  relSongArtists : Hash Int ArtistRelRow
  relMixSongs : Hash Int MixSongRow
  sequence : Sequence

def Tables.empty (providers : List Int) : Tables :=
  ⟨providers, ∅, ∅, ∅, ∅, ∅, ∅, ∅, ∅, ∅, ∅, ∅, ∅, ⟨0, 0, 0, 0, 0, 0⟩⟩

/-- The tables as the coordinator knows them. -/
def Tables.database (t : Tables) : Database where
  libraries := Hash.map (fun _ row => ⟨row.providerId, row.editTime⟩) t.libraries
  items := t.items
  albums := Hash.map (fun _ row => ⟨row.name⟩) t.albums
  artists := Hash.map (fun _ row => ⟨row.name⟩) t.artists
  songs := Hash.map (fun _ row => ⟨row.name, row.albumId⟩) t.songs
  remoteMixes := Hash.map (fun _ row => ⟨row.name⟩) t.remoteMixes
  dynamics := t.dynamics
  mixes := Hash.map (fun _ row => ⟨row.name, row.remoteId⟩) t.mixes
  relAlbumArtists := t.relAlbumArtists
  relSongArtists := t.relSongArtists
  relMixSongs := t.relMixSongs

/-- The id `AUTOINCREMENT` gives next: above every id that was ever there. -/
def nextId {β : Type} (sequence : Int) (rows : Hash Int β) : Int := rows.keys.foldl max sequence + 1

def Tables.nextItem (t : Tables) : Int := nextId t.sequence.item t.items

/-! The batch. -/

structure AlbumFields where
  name : Patch String
  sortName : Patch (Option String)
  trackCount : Patch Int
  discCount : Patch Int
  kind : Patch AlbumType
  duration : Patch Int
  language : Patch (Option String)
  description : Patch (Option String)
  company : Patch (Option String)
  publishTime : Patch (Option Int)
  addedAt : Patch (Option Int)
  deriving DecidableEq

structure AlbumInput where
  item : ItemRef
  onInsert : Option AlbumFields
  fields : AlbumFields
  deriving DecidableEq

structure ArtistFields where
  name : Patch String
  sortName : Patch (Option String)
  description : Patch String
  albumCount : Patch Int
  musicCount : Patch Int
  addedAt : Patch (Option Int)
  deriving DecidableEq

structure ArtistInput where
  item : ItemRef
  onInsert : Option ArtistFields
  fields : ArtistFields
  deriving DecidableEq

structure SongFields where
  name : Patch String
  sortName : Patch (Option String)
  trackNumber : Patch Int
  discNumber : Patch Int
  duration : Patch Int
  canPlay : Patch Bool
  popularity : Patch (BitVec 64)
  tags : Patch (List String)
  publishTime : Patch (Option Int)
  addedAt : Patch (Option Int)
  deriving DecidableEq

structure SongInput where
  item : ItemRef
  onInsert : Option SongFields
  fields : SongFields
  albumId : Patch (Option ItemRef)
  deriving DecidableEq

structure RemoteMixFields where
  name : Patch String
  description : Patch (Option String)
  trackCount : Patch Int
  mixType : Patch String
  deriving DecidableEq

structure RemoteMixInput where
  item : ItemRef
  onInsert : Option RemoteMixFields
  fields : RemoteMixFields
  deriving DecidableEq

structure LibraryInput where
  nativeId : String
  name : String
  deriving DecidableEq

structure ImageInput where
  itemId : ItemRef
  imageType : ImageType
  nativeId : Patch (Option String)
  fresh : Patch String
  remove : Bool
  deriving DecidableEq

inductive RelationMode where
  | merge | replace
  deriving DecidableEq, Repr

structure RelationInput where
  owner : ItemRef
  mode : RelationMode
  targets : List ItemRef
  deriving DecidableEq

structure SongAlbumInput where
  song : ItemRef
  album : Option ItemRef
  deriving DecidableEq

structure MixContents where
  mix : ItemRef
  mode : RelationMode
  songs : List ItemRef
  deriving DecidableEq

structure BatchOptions where
  albums : Mask
  artists : Mask
  songs : Mask
  remoteMixes : Mask
  dynamics : Mask
  deriving DecidableEq

structure SyncBatch where
  libraries : List LibraryInput
  albums : List AlbumInput
  artists : List ArtistInput
  songs : List SongInput
  remoteMixes : List RemoteMixInput
  dynamics : List DynamicInput
  images : List ImageInput
  songAlbums : List SongAlbumInput
  albumArtists : List RelationInput
  songArtists : List RelationInput
  remoteMixContents : List MixContents
  options : BatchOptions
  deriving DecidableEq

/-- `SyncBatch::default()`. -/
def SyncBatch.none : SyncBatch :=
  let every : Mask := ⟨.none, .none⟩
  ⟨[], [], [], [], [], [], [], [], [], [], [], ⟨every, every, every, every, every⟩⟩

/-! The fields a mask may name, group by group. -/

def albumFields : List String :=
  ["name", "sort_name", "track_count", "disc_count", "type", "duration", "language", "description",
    "company", "publish_time", "added_at"]

def artistFields : List String :=
  ["name", "sort_name", "description", "album_count", "music_count", "added_at"]

def songFields : List String :=
  ["name", "sort_name", "track_number", "disc_number", "duration", "can_play", "popularity", "tags",
    "publish_time", "added_at", "album_id"]

def remoteMixFields : List String := ["name", "description", "track_count", "mix_type"]

/-- The entities of a batch, at most 500. -/
def SyncBatch.count (batch : SyncBatch) : Nat :=
  batch.libraries.length + batch.albums.length + batch.artists.length + batch.songs.length +
    batch.remoteMixes.length + batch.dynamics.length + batch.images.length +
    batch.remoteMixContents.length

/-- The references of its relations, at most 5000. -/
def SyncBatch.refs (batch : SyncBatch) : Nat :=
  batch.songAlbums.length * 2 +
    ((batch.albumArtists ++ batch.songArtists).map fun relation => relation.targets.length + 1).sum

def SyncBatch.mixSongs (batch : SyncBatch) : Nat :=
  (batch.remoteMixContents.map fun contents => contents.songs.length).sum

/-- What `sync_batch` checks before it asks for the guard.  `jsonLength` is the
number of bytes `serde_json` writes for a batch. -/
def SyncBatch.admit (jsonLength : SyncBatch → Nat) (batch : SyncBatch) : Except String Unit := do
  batch.options.albums.validate albumFields
  batch.options.artists.validate artistFields
  batch.options.songs.validate songFields
  batch.options.remoteMixes.validate remoteMixFields
  batch.options.dynamics.validate dynamicFields
  if 500 < batch.count then .error "batch entity limit exceeded"
  else if 5000 < batch.refs ∨ 10000 < batch.mixSongs then .error "batch reference limit exceeded"
  else if 4 * 1024 * 1024 < jsonLength batch then .error "batch byte limit exceeded"
  else return ()

end Qcm.BatchTables
