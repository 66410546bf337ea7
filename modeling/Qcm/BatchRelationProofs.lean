import Qcm.BatchRules

/-!
A batch joins only what belongs together: whatever it relates, the two items are
of one provider and one library and of the types the relation is declared for.
What a reference resolves to carries its provider and type, the library is
compared, and none of the three ever changes of an item that is there.
-/

namespace Qcm.BatchRelationProofs

open Lib SyncDatabase SyncBatch SyncCoordinator BatchTables BatchWrites BatchRules

variable {t u v : Tables} {provider : Int}

/-- Two items of one provider and one library, of these types. -/
def Fit (t : Tables) (first second : Int) (kinds : ItemType × ItemType) : Prop :=
  ∃ left right, t.items.lookup first = some left ∧ t.items.lookup second = some right ∧
    left.kind = kinds.1 ∧ right.kind = kinds.2 ∧ left.providerId = right.providerId ∧
    left.libraryId = right.libraryId

/-- Every relation that is stored joins items that fit. -/
structure Joined (t : Tables) : Prop where
  songAlbums : ∀ song row album, t.songs.lookup song = some row → row.albumId = some album →
    Fit t song album (.song, .album)
  albumArtists : ∀ id row, t.relAlbumArtists.lookup id = some row →
    Fit t row.owner row.artistId (.album, .artist)
  songArtists : ∀ id row, t.relSongArtists.lookup id = some row → Fit t row.owner row.artistId (.song, .artist)

variable {kinds : ItemType × ItemType} {entry : SongInput} {mask : Mask} {before after : Tables × List Int}
  {batch : SyncBatch} {now : Int}

theorem Fit.grow {first second : Int} (fit : Fit t first second kinds) (grows : Grows t u) :
    Fit u first second kinds := by
  obtain ⟨left, right, one, two, kind, sort, owner, shelf⟩ := fit
  obtain ⟨left', one', same⟩ := grows.items first left one
  obtain ⟨right', two', alike⟩ := grows.items second right two
  obtain ⟨-, leftShelf, leftOwner, leftKind⟩ := identity_eq same
  obtain ⟨-, rightShelf, rightOwner, rightKind⟩ := identity_eq alike
  exact ⟨left', right', one', two', leftKind.trans kind, rightKind.trans sort,
    leftOwner.trans (owner.trans rightOwner.symm), leftShelf.trans (shelf.trans rightShelf.symm)⟩

theorem Fit.of_named {item other : ItemRef} {first second : Int} {left right : ItemRow}
    (named : Named t provider [kinds.1] item first left)
    (also : Named t provider [kinds.2] other second right) (shelf : right.libraryId = left.libraryId) :
    Fit t first second kinds := by
  have kind := named.kind
  have sort := also.kind
  simp only [List.cons_ne_nil, List.mem_singleton, false_or] at kind sort
  exact ⟨left, right, named.stored, also.stored, kind, sort, named.mine.trans also.mine.symm, shelf.symm⟩

theorem Joined.carry (joined : Joined t) (grows : Grows t u) (songs : u.songs = t.songs)
    (albumRels : u.relAlbumArtists = t.relAlbumArtists) (songRels : u.relSongArtists = t.relSongArtists) :
    Joined u where
  songAlbums song row album there chosen := (joined.songAlbums song row album (songs ▸ there) chosen).grow grows
  albumArtists id row there := (joined.albumArtists id row (albumRels ▸ there)).grow grows
  songArtists id row there := (joined.songArtists id row (songRels ▸ there)).grow grows

theorem Joined.enter {w : Writer} {batch : SyncBatch} {done : Tables × List (Int × Library) × List (Int × ItemRow)}
    (joined : Joined t) (entered : enter w batch t = .ok done) : Joined done.1 := by
  obtain ⟨⟨libraries, items, library, item, shape⟩, grows⟩ := enter_shape entered
  exact joined.carry grows (by rw [shape]) (by rw [shape]) (by rw [shape])

/-! The rows of the songs keep their albums. -/

theorem songApply_album {model row : Song} {inserted : Bool}
    (applied : SongInput.apply entry model inserted mask = .ok row) : row.albumId = model.albumId := by
  obtain ⟨_, -, rest⟩ := bind_ok.mp applied
  cases pure_ok.mp rest
  rfl

private theorem Joined.putSong {id : Int} {row : Song} (joined : Joined t)
    (fits : ∀ album, row.albumId = some album → Fit t id album (.song, .album)) :
    Joined { t with songs := Hash.put id row t.songs } where
  songAlbums song other album there chosen := by
    rw [Hash.lookup_put] at there
    split at there
    · rename_i here
      cases there
      exact here ▸ fits album chosen
    · exact joined.songAlbums song other album there chosen
  albumArtists := joined.albumArtists
  songArtists := joined.songArtists

private theorem Joined.writeSong {before after : Tables × List (Wrote Song)} (joined : Joined before.1)
    (done : writeEntity songGroup provider mask before entry = .ok after) : Joined after.1 := by
  obtain ⟨id, item, row, named, applied, -, rfl⟩ := writeEntity_iff.mp done
  refine joined.putSong fun album chosen => ?_
  rw [songApply_album applied] at chosen
  cases found : before.1.songs.lookup id with
  | none =>
    have fresh : (songGroup.rows before.1).lookup id = none := found
    rw [fresh] at chosen
    cases chosen
  | some old =>
    have there : (songGroup.rows before.1).lookup id = some old := found
    rw [there] at chosen
    exact joined.songAlbums id old album found chosen

theorem Joined.describe {w : Writer} {done : Tables × Entities} (joined : Joined t)
    (described : describe w batch t = .ok done) : Joined done.1 := by
  obtain ⟨albums, artists, songs, remotes, last, first, second, third, fourth, -, -, -, mixes, rfl⟩ :=
    describe_iff.mp described
  obtain ⟨albumRows, one⟩ := writeEntities_shape albumGroup_lawful first
  obtain ⟨artistRows, two⟩ := writeEntities_shape artistGroup_lawful second
  obtain ⟨remoteRows, four⟩ := writeEntities_shape remoteMixGroup_lawful fourth
  obtain ⟨mixRows, lastMix, five⟩ := writeMix_shape mixes
  have entered : Joined albums.1 :=
    joined.carry (.of_still (one ▸ albumGroup_lawful.still ..)) (one ▸ rfl) (one ▸ rfl) (one ▸ rfl)
  have peopled : Joined artists.1 :=
    entered.carry (.of_still (two ▸ artistGroup_lawful.still ..)) (two ▸ rfl) (two ▸ rfl) (two ▸ rfl)
  have sung : Joined songs.1 :=
    foldlM_keeps (fun state => Joined state.1) third (fun _ _ _ _ held turned => held.writeSong turned) peopled
  have mixed : Joined remotes.1 :=
    sung.carry (.of_still (four ▸ remoteMixGroup_lawful.still ..)) (four ▸ rfl) (four ▸ rfl) (four ▸ rfl)
  have still : Still remotes.1 last := by
    rw [five]
    exact ⟨rfl, rfl, rfl⟩
  exact mixed.carry (.of_still still) (by rw [five]) (by rw [five]) (by rw [five])

/-! The relations. -/

theorem Joined.setAlbum {item : ItemRef} {song : Int} {row : ItemRow} {album : Option ItemRef} (joined : Joined t)
    (named : Named t provider [.song] item song row) (done : setAlbum provider t (song, row) album = .ok u) :
    Joined u := by
  obtain ⟨chosen, old, choice, -, -, rfl⟩ := setAlbum_iff.mp done
  refine joined.putSong fun id same => ?_
  cases album with
  | none =>
    cases (choice : chosen = none)
    cases same
  | some key =>
    obtain ⟨other, found, also, shelf, rfl⟩ := choice
    cases same
    exact .of_named named also shelf

private theorem Joined.patch {created : List Int} (joined : Joined before.1)
    (done : patchAlbum provider mask created before entry = .ok after) : Joined after.1 := by
  simp only [patchAlbum] at done
  split at done
  · cases done
    exact joined
  · rw [resolve_and_iff] at done
    obtain ⟨song, row, named, rest⟩ := done
    split at rest
    · cases pure_ok.mp rest
      exact joined
    · obtain ⟨next, chosen, same⟩ := bind_ok.mp rest
      cases pure_ok.mp same
      exact joined.setAlbum named chosen

private theorem Joined.choose {entry : SongAlbumInput} (joined : Joined before.1)
    (done : writeSongAlbum provider before entry = .ok after) : Joined after.1 := by
  simp only [writeSongAlbum] at done
  rw [resolve_and_iff] at done
  obtain ⟨song, row, named, rest⟩ := done
  obtain ⟨-, rest⟩ := unless_iff.mp rest
  obtain ⟨next, chosen, same⟩ := bind_ok.mp rest
  cases pure_ok.mp same
  exact joined.setAlbum named chosen

/-- What holds of every stored row of a relation and of what is related now
holds of every row after an upsert. -/
theorem relate_rows {relation : Relation} {owner artist : Int} (Holds : Int → Int → Prop)
    (lawful : Relation.Lawful relation) (done : relate relation now owner t artist = .ok u)
    (fits : Holds owner artist)
    (held : ∀ id row, (relation.rows t).lookup id = some row → Holds row.owner row.artistId) :
    ∀ id row, (relation.rows u).lookup id = some row → Holds row.owner row.artistId := by
  intro id row there
  simp only [relate] at done
  split at done
  · rename_i place old found
    cases done
    rw [lawful.rows_update, Hash.lookup_put] at there
    split at there
    · cases there
      exact held place old (Hash.find_some found).1
    · exact held id row there
  · split at done
    · cases done
    cases done
    rw [lawful.rows_update, Hash.lookup_put] at there
    split at there
    · cases there
      exact fits
    · exact held id row there

/-- One entry of `relations!`: every row there is afterwards was there before, or
joins the owner to an artist of its provider and library. -/
theorem writeRelation_rows {relation : Relation} {entry : RelationInput} {kind : ItemType}
    (sort : relation.kinds = [kind]) (lawful : Relation.Lawful relation)
    (done : writeRelation relation provider now before entry = .ok after)
    (held : ∀ id row, (relation.rows before.1).lookup id = some row →
      Fit before.1 row.owner row.artistId (kind, .artist)) :
    ∀ id row, (relation.rows after.1).lookup id = some row → Fit before.1 row.owner row.artistId (kind, .artist) := by
  obtain ⟨owner, item, ids, related, named, -, listed, loop, rfl⟩ := writeRelation_iff.mp done
  rw [sort] at named
  have fits : ∀ id ∈ ids, Fit before.1 owner id (kind, .artist) := fun id member => by
    obtain ⟨target, -, row, also, shelf⟩ := exists_of_forall₂ listed.1 member
    exact .of_named named also shelf
  have cleared : ∀ id row, (relation.rows (clearRelation relation entry.mode owner before.1)).lookup id = some row →
      Fit before.1 row.owner row.artistId (kind, .artist) := by
    intro id row there
    unfold clearRelation at there
    split at there
    · exact held id row there
    · rw [lawful.rows_update, Hash.lookup_filter, Option.filter_eq_some_iff] at there
      exact held id row there.1
  exact foldlM_keeps (fun u => ∀ id row, (relation.rows u).lookup id = some row →
      Fit before.1 row.owner row.artistId (kind, .artist)) loop
    (fun artist member _ _ kept turned =>
      relate_rows (fun owner artist => Fit before.1 owner artist (kind, .artist)) lawful turned
        (fits artist member) kept) cleared

private theorem Joined.credit {entry : RelationInput} (joined : Joined before.1)
    (done : writeRelation BatchWrites.albumArtists provider now before entry = .ok after) :
    Joined after.1 := by
  have rows := writeRelation_rows rfl albumArtists_lawful done joined.albumArtists
  obtain ⟨albumRows, last, shape⟩ := writeRelation_shape albumArtists_lawful done
  have grows : Grows before.1 after.1 := .of_still (shape ▸ albumArtists_lawful.still ..)
  refine ⟨fun song row album there chosen => ?_, fun id row there => (rows id row there).grow grows,
    fun id row there => ?_⟩
  · exact (joined.songAlbums song row album (by rwa [shape] at there) chosen).grow grows
  · exact (joined.songArtists id row (by rwa [shape] at there)).grow grows

private theorem Joined.perform {entry : RelationInput} (joined : Joined before.1)
    (done : writeRelation BatchWrites.songArtists provider now before entry = .ok after) :
    Joined after.1 := by
  have rows := writeRelation_rows rfl songArtists_lawful done joined.songArtists
  obtain ⟨songRows, last, shape⟩ := writeRelation_shape songArtists_lawful done
  have grows : Grows before.1 after.1 := .of_still (shape ▸ songArtists_lawful.still ..)
  refine ⟨fun song row album there chosen => ?_, fun id row there => ?_,
    fun id row there => (rows id row there).grow grows⟩
  · exact (joined.songAlbums song row album (by rwa [shape] at there) chosen).grow grows
  · exact (joined.albumArtists id row (by rwa [shape] at there)).grow grows

theorem Joined.connect {w : Writer} {items : List (Int × ItemRow)} {wrote : List (Wrote Song)}
    (joined : Joined t) (connected : connect w batch items wrote t = .ok u) : Joined u := by
  obtain ⟨dynamic, images, patched, chosen, albums, songs, contents, first, second, third, fourth, fifth, sixth,
    seventh, rfl⟩ := connect_iff.mp connected
  obtain ⟨dynamics, one⟩ := dynamics_shape first
  obtain ⟨pictures, two⟩ := images_shape second
  obtain ⟨rows, remotes, mixes, last, seven⟩ := contents_shape seventh
  have before : Joined images.1 := by
    rw [two, one]
    exact joined.carry (.of_still ⟨rfl, rfl, rfl⟩) rfl rfl rfl
  have patched : Joined patched.1 :=
    foldlM_keeps (fun state => Joined state.1) third (fun _ _ _ _ held turned => held.patch turned) before
  have chosen : Joined chosen.1 :=
    foldlM_keeps (fun state => Joined state.1) fourth (fun _ _ _ _ held turned => held.choose turned) patched
  have credited : Joined albums.1 :=
    foldlM_keeps (fun state => Joined state.1) fifth (fun _ _ _ _ held turned => held.credit turned) chosen
  have performed : Joined songs.1 :=
    foldlM_keeps (fun state => Joined state.1) sixth (fun _ _ _ _ held turned => held.perform turned) credited
  rw [seven]
  exact performed.carry (.of_still ⟨rfl, rfl, rfl⟩) rfl rfl rfl

theorem Joined.syncBatch {jsonLength : SyncBatch → Nat} {w : Writer} (joined : Joined t) :
    Joined (syncBatch jsonLength w batch t).2 := by
  simp only [BatchWrites.syncBatch]
  split
  · rename_i after result done
    obtain ⟨-, -, applied, -⟩ := transaction_iff.mp done
    obtain ⟨entered, described, last, remotes, songs, first, second, third, -, -, same⟩ := apply_iff.mp applied
    cases same
    exact ((joined.enter first).describe second).connect third
  · exact joined

/-- A sequence of batches, each of its writer. -/
def runBatches (jsonLength : SyncBatch → Nat) (steps : List (Writer × SyncBatch)) (t : Tables) : Tables :=
  steps.foldl (fun t step => (syncBatch jsonLength step.1 step.2 t).2) t

/-- After any sequence of batches, valid or refused, of any providers, every
stored relation joins items of one provider and one library and of the types
the relation is declared for. -/
theorem relations_stay_joined (jsonLength : SyncBatch → Nat) (steps : List (Writer × SyncBatch))
    (joined : Joined t) : Joined (runBatches jsonLength steps t) := by
  induction steps generalizing t with
  | nil => exact joined
  | cons step rest ih => exact ih joined.syncBatch

/-! One batch of a library, and one of a song by an artist on an album. -/

private def sampleWriter : Writer := ⟨1, 50, none, .fresh, .ok (), .ok ()⟩

private def sampleKey (kind : ItemType) (name : String) : ItemRef := .key ⟨name, .set (some 1), kind, none⟩

private def sampleLibrary : SyncBatch := { SyncBatch.none with libraries := [⟨"library", "Music"⟩] }

private def sampleBatch : SyncBatch := { SyncBatch.none with
  albums := [⟨sampleKey .album "album", none,
    ⟨.set "Album", .missing, .missing, .missing, .missing, .missing, .missing, .missing, .missing, .missing, .missing⟩⟩]
  artists := [⟨sampleKey .artist "artist", none, ⟨.set "Artist", .missing, .missing, .missing, .missing, .missing⟩⟩]
  songs := [⟨sampleKey .song "song", none,
    ⟨.set "Song", .missing, .missing, .missing, .missing, .missing, .missing, .missing, .missing, .missing⟩,
    .set (some (sampleKey .album "album"))⟩]
  albumArtists := [⟨sampleKey .album "album", .merge, [sampleKey .artist "artist"]⟩]
  songArtists := [⟨sampleKey .song "song", .replace, [sampleKey .artist "artist"]⟩] }

private theorem empty_joined (providers : List Int) : Joined (Tables.empty providers) where
  songAlbums _ row _ stored _ := absurd (show none = some row from stored) (Option.some_ne_none row).symm
  albumArtists _ row stored := absurd (show none = some row from stored) (Option.some_ne_none row).symm
  songArtists _ row stored := absurd (show none = some row from stored) (Option.some_ne_none row).symm

theorem sample_relations_joined :
    let t := runBatches (fun _ => 0) [(sampleWriter, sampleLibrary), (sampleWriter, sampleBatch)] (Tables.empty [1])
    Joined t ∧ (Hash.values t.relAlbumArtists, Hash.values t.relSongArtists, (Hash.values t.songs).map Song.albumId) =
      ([⟨1, 2, 50⟩], [⟨3, 2, 50⟩], [some 1]) := by
  intro t
  have joined : Joined t := relations_stay_joined (fun _ => 0) [(sampleWriter, sampleLibrary), (sampleWriter, sampleBatch)]
    (empty_joined [1])
  exact ⟨joined, by decide +kernel⟩

end Qcm.BatchRelationProofs
