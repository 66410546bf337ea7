import Qcm.BatchTables

/-!
`sync_batch`: the identities first, then the rows of the entities, and last
what refers to them, all in one transaction.  A reference is resolved against
the tables as they stand at that point.  The source's macros are functions of
the group they are used for.
-/

namespace Qcm.BatchWrites

open Lib SyncDatabase SyncBatch SyncCoordinator BatchTables

/-- The columns the library upsert looks for. -/
def sameLibrary (provider : Int) (nativeId : String) (_ : Int) (row : Library) : Bool :=
  row.providerId = provider && row.nativeId = nativeId

/-- One turn of the loop over `libraries`. -/
def writeLibrary (provider now : Int) (state : Tables × List String × List (Int × Library))
    (entry : LibraryInput) : Except String (Tables × List String × List (Int × Library)) := do
  let (t, seen, written) := state
  if entry.nativeId = "" ∨ entry.nativeId ∈ seen then .error "duplicate or empty library identity"
  else
    match Hash.find (sameLibrary provider entry.nativeId) t.libraries with
    | some (id, old) =>
      let row := { old with name := entry.name, editTime := now }
      return ({ t with libraries := Hash.put id row t.libraries }, entry.nativeId :: seen, written ++ [(id, row)])
    | none =>
      let id := nextId t.sequence.library t.libraries
      let row : Library := ⟨entry.name, provider, entry.nativeId, now⟩
      if provider ∉ t.providers then .error "FOREIGN KEY constraint failed"
      else
        return ({ t with
          libraries := Hash.put id row t.libraries
          sequence := { t.sequence with library := id } }, entry.nativeId :: seen, written ++ [(id, row)])

/-- The columns an item key is looked up by. -/
def sameKey (provider : Int) (key : ItemKey) (library : Option Int) (_ : Int) (row : ItemRow) : Bool :=
  row.providerId = provider && row.nativeId = key.nativeId && row.kind = key.kind && row.libraryId = library

/-- The unique indexes of `item` that a row with a new key can still hit. -/
def clashes (provider : Int) (key : ItemKey) (library : Option Int) (_ : Int) (row : ItemRow) : Bool :=
  row.nativeId = key.nativeId && row.kind = key.kind &&
    ((library.isSome && row.libraryId = library) ||
      (row.providerId = provider && row.libraryId.getD (-1) = library.getD (-1)))

/-- `allocate`. -/
def allocate (provider now : Int) (kinds : List ItemType) (t : Tables) (item : ItemRef) :
    Except String (Tables × Int × ItemRow) :=
  match item with
  | .id _ => do return (t, ← resolve t.database provider item kinds)
  | .key key => do
    match ← libraryOptional t.database provider key with
    | none => .error "missing library"
    | some library =>
      if key.kind ∉ kinds then .error "wrong entity type" else
      match Hash.find (sameKey provider key library) t.items with
      | some (id, found) =>
        if key.id.any (· ≠ id) then .error "item id does not match key"
        else
          let row := { found with lastSyncAt := now }
          return ({ t with items := Hash.put id row t.items }, id, row)
      | none =>
        let id := t.nextItem
        let row : ItemRow := ⟨key.nativeId, library, provider, key.kind, now⟩
        if key.id.isSome then .error "supplied item id does not exist"
        else if Hash.any (clashes provider key library) t.items then .error "UNIQUE constraint failed"
        else
          return ({ t with items := Hash.put id row t.items, sequence := { t.sequence with item := id } }, id, row)

/-- `allocate!`: one entry of a group. -/
def allocateEntry (provider now : Int) (kinds : List ItemType) (state : Tables × List (Int × ItemRow))
    (item : ItemRef) : Except String (Tables × List (Int × ItemRow)) := do
  let (t, found) ← allocate provider now kinds state.1 item
  if found.1 ∈ state.2.map Prod.fst then .error "duplicate entity identity"
  else return (t, state.2 ++ [found])

/-- A row that `write_entities!` has written, and whether it is a new one. -/
structure Wrote (ρ : Type) where
  id : Int
  row : ρ
  inserted : Bool

/-- What `write_entities!` is used with. -/
structure Group (ι ρ : Type) where
  kinds : List ItemType
  fresh : ρ
  item : ι → ItemRef
  name : ρ → String
  apply : ι → ρ → Bool → Mask → Except String ρ
  rows : Tables → Hash Int ρ
  update : Tables → Hash Int ρ → Tables

section Entities

variable {ι ρ : Type}

/-- `write_entities!`: one entry of a group. -/
def writeEntity (group : Group ι ρ) (provider : Int) (mask : Mask) (state : Tables × List (Wrote ρ))
    (entry : ι) : Except String (Tables × List (Wrote ρ)) := do
  let item ← resolve state.1.database provider (group.item entry) group.kinds
  let old := (group.rows state.1).lookup item.1
  let model ← group.apply entry (old.getD group.fresh) old.isNone mask
  if group.name model = "" then .error "entity name is required"
  else
    return (group.update state.1 (Hash.put item.1 model (group.rows state.1)),
      state.2 ++ [⟨item.1, model, old.isNone⟩])

def writeEntities (group : Group ι ρ) (provider : Int) (mask : Mask) (entries : List ι) (t : Tables) :
    Except String (Tables × List (Wrote ρ)) :=
  entries.foldlM (writeEntity group provider mask) (t, [])

end Entities

def AlbumInput.apply (entry : AlbumInput) (model : Album) (inserted : Bool) (mask : Mask) :
    Except String Album := do
  mask.validate albumFields
  let defaults := entry.onInsert.getD
    ⟨.missing, .missing, .missing, .missing, .missing, .missing, .missing, .missing, .missing, .missing, .missing⟩
  let fields := entry.fields
  return {
    name := patchField inserted (mask.allows "name") defaults.name fields.name model.name
    sortName := patchField inserted (mask.allows "sort_name") defaults.sortName fields.sortName model.sortName
    trackCount := patchField inserted (mask.allows "track_count") defaults.trackCount fields.trackCount
      model.trackCount
    discCount := patchField inserted (mask.allows "disc_count") defaults.discCount fields.discCount
      model.discCount
    kind := patchField inserted (mask.allows "type") defaults.kind fields.kind model.kind
    duration := patchField inserted (mask.allows "duration") defaults.duration fields.duration model.duration
    language := patchField inserted (mask.allows "language") defaults.language fields.language model.language
    description := patchField inserted (mask.allows "description") defaults.description fields.description
      model.description
    company := patchField inserted (mask.allows "company") defaults.company fields.company model.company
    publishTime := patchField inserted (mask.allows "publish_time") defaults.publishTime fields.publishTime
      model.publishTime
    addedAt := patchField inserted (mask.allows "added_at") defaults.addedAt fields.addedAt model.addedAt }

def ArtistInput.apply (entry : ArtistInput) (model : Artist) (inserted : Bool) (mask : Mask) :
    Except String Artist := do
  mask.validate artistFields
  let defaults := entry.onInsert.getD ⟨.missing, .missing, .missing, .missing, .missing, .missing⟩
  let fields := entry.fields
  return {
    name := patchField inserted (mask.allows "name") defaults.name fields.name model.name
    sortName := patchField inserted (mask.allows "sort_name") defaults.sortName fields.sortName model.sortName
    description := patchField inserted (mask.allows "description") defaults.description fields.description
      model.description
    albumCount := patchField inserted (mask.allows "album_count") defaults.albumCount fields.albumCount
      model.albumCount
    musicCount := patchField inserted (mask.allows "music_count") defaults.musicCount fields.musicCount
      model.musicCount
    addedAt := patchField inserted (mask.allows "added_at") defaults.addedAt fields.addedAt model.addedAt }

/-- A patch of tags, in the JSON they are stored as. -/
def tagsPatch : Patch (List String) → Patch (Option (List String))
  | .missing => .missing
  | .set tags => .set (some tags)

def SongInput.apply (entry : SongInput) (model : Song) (inserted : Bool) (mask : Mask) :
    Except String Song := do
  mask.validate songFields
  let defaults := entry.onInsert.getD
    ⟨.missing, .missing, .missing, .missing, .missing, .missing, .missing, .missing, .missing, .missing⟩
  let fields := entry.fields
  return { model with
    name := patchField inserted (mask.allows "name") defaults.name fields.name model.name
    sortName := patchField inserted (mask.allows "sort_name") defaults.sortName fields.sortName model.sortName
    trackNumber := patchField inserted (mask.allows "track_number") defaults.trackNumber fields.trackNumber
      model.trackNumber
    discNumber := patchField inserted (mask.allows "disc_number") defaults.discNumber fields.discNumber
      model.discNumber
    duration := patchField inserted (mask.allows "duration") defaults.duration fields.duration model.duration
    canPlay := patchField inserted (mask.allows "can_play") defaults.canPlay fields.canPlay model.canPlay
    popularity := patchField inserted (mask.allows "popularity") defaults.popularity fields.popularity
      model.popularity
    tags := patchField inserted (mask.allows "tags") (tagsPatch defaults.tags) (tagsPatch fields.tags)
      model.tags
    publishTime := patchField inserted (mask.allows "publish_time") defaults.publishTime fields.publishTime
      model.publishTime
    addedAt := patchField inserted (mask.allows "added_at") defaults.addedAt fields.addedAt model.addedAt }

def RemoteMixInput.apply (entry : RemoteMixInput) (model : RemoteMix) (inserted : Bool) (mask : Mask) :
    Except String RemoteMix := do
  mask.validate remoteMixFields
  let defaults := entry.onInsert.getD ⟨.missing, .missing, .missing, .missing⟩
  let fields := entry.fields
  return {
    name := patchField inserted (mask.allows "name") defaults.name fields.name model.name
    description := patchField inserted (mask.allows "description") defaults.description fields.description
      model.description
    trackCount := patchField inserted (mask.allows "track_count") defaults.trackCount fields.trackCount
      model.trackCount
    mixType := patchField inserted (mask.allows "mix_type") defaults.mixType fields.mixType model.mixType }

/-- `write_entities!(albums, album, ..)`. -/
def albumGroup : Group AlbumInput Album where
  kinds := [.album]
  fresh := ⟨"", none, 0, 0, .album, 0, none, none, none, none, none⟩
  item := AlbumInput.item
  name := Album.name
  apply := AlbumInput.apply
  rows := Tables.albums
  update t rows := { t with albums := rows }

/-- `write_entities!(artists, artist, ..)`. -/
def artistGroup : Group ArtistInput Artist where
  kinds := [.artist]
  fresh := ⟨"", none, "", 0, 0, none⟩
  item := ArtistInput.item
  name := Artist.name
  apply := ArtistInput.apply
  rows := Tables.artists
  update t rows := { t with artists := rows }

/-- `write_entities!(songs, song, ..)`. -/
def songGroup : Group SongInput Song where
  kinds := [.song]
  fresh := ⟨"", none, none, 0, 0, 0, true, 0, some [], none, none⟩
  item := SongInput.item
  name := Song.name
  apply := SongInput.apply
  rows := Tables.songs
  update t rows := { t with songs := rows }

/-- `write_entities!(remote_mixes, remote_mix, ..)`. -/
def remoteMixGroup : Group RemoteMixInput RemoteMix where
  kinds := [.mix, .radio]
  fresh := ⟨"", none, 0, "normal"⟩
  item := RemoteMixInput.item
  name := RemoteMix.name
  apply := RemoteMixInput.apply
  rows := Tables.remoteMixes
  update t rows := { t with remoteMixes := rows }

/-- `f64::is_finite`: the exponent is not all ones. -/
def isFinite (bits : BitVec 64) : Bool := bits.extractLsb' 52 11 ≠ 0x7ff

def checkAlbum (row : Album) : Except String Unit :=
  if row.duration < 0 ∨ row.trackCount < 0 ∨ row.discCount < 0 then .error "negative album quantity"
  else .ok ()

def checkArtist (row : Artist) : Except String Unit :=
  if row.albumCount < 0 ∨ row.musicCount < 0 then .error "negative artist quantity" else .ok ()

def checkSong (row : Song) : Except String Unit :=
  if row.duration < 0 ∨ row.trackNumber < 0 ∨ row.discNumber < 0 ∨ isFinite row.popularity = false then
    .error "invalid song quantity"
  else if row.tags = none then .error "song tags must be an array of strings"
  else .ok ()

def ofRemote (remote : Int) (_ : Int) (row : Mix) : Bool := row.remoteId = some remote

/-- One turn of the loop over the written remote mixes: the cache mix of each. -/
def writeMix (t : Tables) (remote : Wrote RemoteMix) : Except String Tables :=
  if remote.row.trackCount < 0 then .error "negative mix quantity"
  else
    let description := remote.row.description.getD ""
    match Hash.find (ofRemote remote.id) t.mixes with
    | some (id, old) =>
      .ok { t with mixes := Hash.put id { old with
        name := remote.row.name, description := description, trackCount := remote.row.trackCount } t.mixes }
    | none =>
      let id := nextId t.sequence.mix t.mixes
      .ok { t with
        mixes := Hash.put id
          ⟨remote.row.name, remote.row.trackCount, .cache, none, description, some remote.id⟩ t.mixes
        sequence := { t.sequence with mix := id } }

/-- The loops over `dynamics` and over the rows every written item must have. -/
def writeDynamicRows (provider : Int) (mask : Mask) (now : Int) (kept : Int → Bool)
    (entries : List DynamicInput) (items : List (Int × ItemRow)) (t : Tables) : Except String Tables := do
  let (left, _) ← writeDynamics provider mask now kept entries (t.database, [])
  return { t with dynamics := (insertDynamics now (items.map Prod.fst) left).dynamics }

/-- What an entry does to the image at its place. -/
def ImageInput.apply (entry : ImageInput) (place : Int × ImageType) (images : Hash (Int × ImageType) Image) :
    Hash (Int × ImageType) Image :=
  if entry.remove then images.erase place
  else
    let old := (images.lookup place).getD ⟨none, none, ""⟩
    Hash.put place { old with
      nativeId := entry.nativeId.over old.nativeId, fresh := entry.fresh.over old.fresh } images

/-- One turn of the loop over `images`. -/
def writeImage (provider : Int) (state : Tables × List (Int × ImageType)) (entry : ImageInput) :
    Except String (Tables × List (Int × ImageType)) := do
  let (t, seen) := state
  let item ← resolve t.database provider entry.itemId []
  let place := (item.1, entry.imageType)
  if place ∈ seen then .error "duplicate image identity"
  else return ({ t with images := ImageInput.apply entry place t.images }, place :: seen)

/-- The album a song is given; both must lie in one library. -/
def chooseAlbum (provider : Int) (t : Tables) (library : Option Int) :
    Option ItemRef → Except String (Option Int)
  | none => .ok none
  | some key => do
    let album ← resolve t.database provider key [.album]
    if library ≠ album.2.libraryId then .error "song and album must share a library"
    else return some album.1

/-- The update of `song.album_id`, once the song is resolved. -/
def setAlbum (provider : Int) (t : Tables) (song : Int × ItemRow) (album : Option ItemRef) :
    Except String Tables := do
  let album ← chooseAlbum provider t song.2.libraryId album
  match t.songs.lookup song.1 with
  | none => .error "None of the records are updated"
  | some row =>
    if album.any fun id => (t.albums.lookup id).isNone then .error "FOREIGN KEY constraint failed"
    else return { t with songs := Hash.put song.1 { row with albumId := album } t.songs }

/-- One turn of the second loop over `songs`. -/
def patchAlbum (provider : Int) (mask : Mask) (created : List Int) (state : Tables × List Int)
    (entry : SongInput) : Except String (Tables × List Int) :=
  match entry.albumId with
  | .missing => .ok state
  | .set album => do
    let song ← resolve state.1.database provider entry.item [.song]
    if song.1 ∉ created ∧ mask.allows "album_id" = false then return state
    else return (← setAlbum provider state.1 song album, song.1 :: state.2)

/-- One turn of the loop over `song_albums`. -/
def writeSongAlbum (provider : Int) (state : Tables × List Int) (entry : SongAlbumInput) :
    Except String (Tables × List Int) := do
  let song ← resolve state.1.database provider entry.song [.song]
  if song.1 ∈ state.2 then .error "duplicate song album relation"
  else return (← setAlbum provider state.1 song entry.album, song.1 :: state.2)

/-- What `relations!` is used with. -/
structure Relation where
  kinds : List ItemType
  rows : Tables → Hash Int ArtistRelRow
  sequence : Tables → Int
  update : Tables → Hash Int ArtistRelRow → Int → Tables
  owns : Tables → Int → Bool

def relates (owner artist : Int) (_ : Int) (row : ArtistRelRow) : Bool :=
  row.owner = owner && row.artistId = artist

/-- The checks of one target. -/
def checkTarget (provider : Int) (t : Tables) (owner : Int × ItemRow) (targets : List Int)
    (target : ItemRef) : Except String (List Int) := do
  let artist ← resolve t.database provider target [.artist]
  if artist.2.libraryId ≠ owner.2.libraryId then .error "artist relation crosses libraries"
  else if artist.1 ∈ targets then .error "duplicate relation target"
  else return targets ++ [artist.1]

/-- The upsert of one relation. -/
def relate (relation : Relation) (now owner : Int) (t : Tables) (artist : Int) : Except String Tables :=
  match Hash.find (relates owner artist) (relation.rows t) with
  | some (id, old) =>
    .ok (relation.update t (Hash.put id { old with updateAt := now } (relation.rows t)) (relation.sequence t))
  | none =>
    let id := nextId (relation.sequence t) (relation.rows t)
    if !relation.owns t owner || (t.artists.lookup artist).isNone then .error "FOREIGN KEY constraint failed"
    else .ok (relation.update t (Hash.put id ⟨owner, artist, now⟩ (relation.rows t)) id)

/-- The relations of an owner go, where its new ones replace them. -/
def clearRelation (relation : Relation) (mode : RelationMode) (owner : Int) (t : Tables) : Tables :=
  match mode with
  | .merge => t
  | .replace =>
    relation.update t (Hash.filter (fun _ row => row.owner ≠ owner) (relation.rows t)) (relation.sequence t)

/-- `relations!`: one entry.  The source walks its targets as a set; the order
shows only in the ids of new rows. -/
def writeRelation (relation : Relation) (provider now : Int) (state : Tables × List Int)
    (entry : RelationInput) : Except String (Tables × List Int) := do
  let owner ← resolve state.1.database provider entry.owner relation.kinds
  if owner.1 ∈ state.2 then .error "duplicate relation owner"
  else
    let targets ← entry.targets.foldlM (checkTarget provider state.1 owner) []
    let cleared := clearRelation relation entry.mode owner.1 state.1
    return (← targets.foldlM (relate relation now owner.1) cleared, owner.1 :: state.2)

/-- `relations!(album_artists, rel_album_artist, ..)`. -/
def albumArtists : Relation where
  kinds := [.album]
  rows := Tables.relAlbumArtists
  sequence t := t.sequence.relAlbumArtist
  update t rows last :=
    { t with relAlbumArtists := rows, sequence := { t.sequence with relAlbumArtist := last } }
  owns t album := (t.albums.lookup album).isSome

/-- `relations!(song_artists, rel_song_artist, ..)`. -/
def songArtists : Relation where
  kinds := [.song]
  rows := Tables.relSongArtists
  sequence t := t.sequence.relSongArtist
  update t rows last :=
    { t with relSongArtists := rows, sequence := { t.sequence with relSongArtist := last } }
  owns t song := (t.songs.lookup song).isSome

/-- The songs of a mix, resolved. -/
def checkMember (provider : Int) (t : Tables) (songs : List Int) (key : ItemRef) :
    Except String (List Int) := do
  let song ← resolve t.database provider key [.song]
  if song.1 ∈ songs then .error "duplicate_member" else return songs ++ [song.1]

/-- The insert of one song at its place in a mix. -/
def insertMember (mix : Int) (t : Tables) (song : Int × Nat) : Except String Tables :=
  let id := nextId t.sequence.relMixSong t.relMixSongs
  if (t.songs.lookup song.1).isNone then .error "FOREIGN KEY constraint failed"
  else .ok { t with
    relMixSongs := Hash.put id ⟨mix, song.1, song.2⟩ t.relMixSongs
    sequence := { t.sequence with relMixSong := id } }

/-- The songs of a mix, in place of those it had. -/
def fillMix (mix : Int) (songs : List Int) (t : Tables) : Except String Tables :=
  songs.zipIdx.foldlM (insertMember mix)
    { t with relMixSongs := Hash.filter (fun _ row => row.mixId ≠ mix) t.relMixSongs }

/-- The counts of a remote mix and of its cache. -/
def countMix (remote id : Int) (mix : Mix) (count : Nat) (t : Tables) : Except String Tables :=
  match t.remoteMixes.lookup remote with
  | none => .error "None of the records are updated"
  | some row =>
    .ok { t with
      remoteMixes := Hash.put remote { row with trackCount := count } t.remoteMixes
      mixes := Hash.put id { mix with trackCount := count } t.mixes }

/-- One turn of the loop over `remote_mix_contents`. -/
def writeContents (provider : Int) (state : Tables × List Int) (entry : MixContents) :
    Except String (Tables × List Int) :=
  if entry.mode ≠ .replace then .error "ordered mix contents require replace"
  else do
    let remote ← resolve state.1.database provider entry.mix [.mix, .radio]
    if remote.1 ∈ state.2 then .error "duplicate mix contents"
    else
      match Hash.find (ofRemote remote.1) state.1.mixes with
      | none => .error "missing cache mix"
      | some (id, mix) => do
        let songs ← entry.songs.foldlM (checkMember provider state.1) []
        let filled ← fillMix id songs state.1
        return (← countMix remote.1 id mix songs.length filled, remote.1 :: state.2)

structure SyncResult where
  libraries : List (Int × Library)
  items : List (Int × ItemRow)
  albums : List (Int × Album)
  artists : List (Int × Artist)
  songs : List (Int × Song)
  remoteMixes : List (Int × RemoteMix)

/-- The rows of a group read again, in the caller's order. -/
def reread {ρ : Type} (rows : Hash Int ρ) (missing : String) (wrote : List (Wrote ρ)) :
    Except String (List (Int × ρ)) :=
  wrote.mapM fun wrote =>
    match rows.lookup wrote.id with
    | none => .error missing
    | some row => .ok (wrote.id, row)

/-- A provider's writer.  What the tables do not decide is given: whether the
generation and the coordinator let it in, and whether the generation, the
session and the commit let it out. -/
structure Writer where
  provider : Int
  now : Int
  run : Option (Nat × Nat)
  coordinator : ProviderState
  entering : Except String Unit
  leaving : Except String Unit

/-- Whose favorite was set after the run of the writer started. -/
def Writer.kept (w : Writer) (id : Int) : Bool :=
  w.run.any fun run => w.coordinator.favoriteChangedAfter run.2 id

/-- The identities of a batch: its libraries, then the items of its entities. -/
def enter (w : Writer) (batch : SyncBatch) (t : Tables) :
    Except String (Tables × List (Int × Library) × List (Int × ItemRow)) := do
  let (t, _, libraries) ← batch.libraries.foldlM (writeLibrary w.provider w.now) (t, [], [])
  let state ← (batch.albums.map AlbumInput.item).foldlM (allocateEntry w.provider w.now [.album]) (t, [])
  let state ← (batch.artists.map ArtistInput.item).foldlM (allocateEntry w.provider w.now [.artist]) state
  let state ← (batch.songs.map SongInput.item).foldlM (allocateEntry w.provider w.now [.song]) state
  let (t, items) ←
    (batch.remoteMixes.map RemoteMixInput.item).foldlM (allocateEntry w.provider w.now [.mix, .radio]) state
  return (t, libraries, items)

/-- The rows of the entities, as they were written. -/
structure Entities where
  albums : List (Wrote Album)
  artists : List (Wrote Artist)
  songs : List (Wrote Song)
  remoteMixes : List (Wrote RemoteMix)

/-- The rows of a batch's entities, with the checks of their quantities. -/
def describe (w : Writer) (batch : SyncBatch) (t : Tables) : Except String (Tables × Entities) := do
  let (t, albums) ← writeEntities albumGroup w.provider batch.options.albums batch.albums t
  let (t, artists) ← writeEntities artistGroup w.provider batch.options.artists batch.artists t
  let (t, songs) ← writeEntities songGroup w.provider batch.options.songs batch.songs t
  let (t, remotes) ← writeEntities remoteMixGroup w.provider batch.options.remoteMixes batch.remoteMixes t
  albums.forM fun wrote => checkAlbum wrote.row
  artists.forM fun wrote => checkArtist wrote.row
  songs.forM fun wrote => checkSong wrote.row
  let t ← remotes.foldlM writeMix t
  return (t, ⟨albums, artists, songs, remotes⟩)

/-- What refers to the entities. -/
def connect (w : Writer) (batch : SyncBatch) (items : List (Int × ItemRow)) (songs : List (Wrote Song))
    (t : Tables) : Except String Tables := do
  let t ← writeDynamicRows w.provider batch.options.dynamics w.now w.kept batch.dynamics items t
  let (t, _) ← batch.images.foldlM (writeImage w.provider) (t, [])
  let created := (songs.filter Wrote.inserted).map Wrote.id
  let state ← batch.songs.foldlM (patchAlbum w.provider batch.options.songs created) (t, [])
  let (t, _) ← batch.songAlbums.foldlM (writeSongAlbum w.provider) state
  let (t, _) ← batch.albumArtists.foldlM (writeRelation albumArtists w.provider w.now) (t, [])
  let (t, _) ← batch.songArtists.foldlM (writeRelation songArtists w.provider w.now) (t, [])
  let (t, _) ← batch.remoteMixContents.foldlM (writeContents w.provider) (t, [])
  return t

/-- `apply`: all that happens in the transaction. -/
def apply (w : Writer) (batch : SyncBatch) (t : Tables) : Except String (Tables × SyncResult) := do
  let (t, libraries, items) ← enter w batch t
  let (t, wrote) ← describe w batch t
  let t ← connect w batch items wrote.songs t
  let remotes ← reread t.remoteMixes "missing remote mix" wrote.remoteMixes
  let songs ← reread t.songs "missing song" wrote.songs
  return (t, ⟨libraries, items, wrote.albums.map fun wrote => (wrote.id, wrote.row),
    wrote.artists.map fun wrote => (wrote.id, wrote.row), songs, remotes⟩)

/-- The transaction of `sync_batch`, up to its commit. -/
def transaction (jsonLength : SyncBatch → Nat) (w : Writer) (batch : SyncBatch) (t : Tables) :
    Except String (Tables × SyncResult) := do
  batch.admit jsonLength
  w.entering
  let done ← apply w batch t
  w.leaving
  return done

/-- `sync_batch`: the answer, and the tables afterwards.  A transaction that is
dropped before its commit leaves no trace. -/
def syncBatch (jsonLength : SyncBatch → Nat) (w : Writer) (batch : SyncBatch) (t : Tables) :
    Except String SyncResult × Tables :=
  match transaction jsonLength w batch t with
  | .ok (after, result) => (.ok result, after)
  | .error text => (.error text, t)

end Qcm.BatchWrites
