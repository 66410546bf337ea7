import Qcm.SyncCascadeProofs

/-!
Which rows of the two artist tables `sync_drop_before` deletes.  A row goes with
its owner, its artist or the album of its song when the items or libraries are
deleted; of the others, the clean-up finds the stale rows by their own time, but
deletes every row of an owner it has found.
-/

namespace Qcm.SyncDropProofs

open Lib SyncDatabase SyncCascadeProofs

variable {id : Int} {db middle : Database} {first second : Int → ItemRow → Bool} {cut : Int → Bool}

section Cascades

/-- No deletion of an item takes this row of `rel_album_artist` along. -/
structure AlbumRelKept (db : Database) (gone : Int → ItemRow → Bool) (rel : ArtistRelRow) : Prop where
  album : ∀ row, db.albums.lookup rel.owner = some row → Hash.hits gone db.items rel.owner = false
  artist : ∀ row, db.artists.lookup rel.artistId = some row → Hash.hits gone db.items rel.artistId = false

/-- No deletion of an item takes this row of `rel_song_artist` along. -/
structure SongRelKept (db : Database) (gone : Int → ItemRow → Bool) (rel : ArtistRelRow) : Prop where
  song : ∀ row, db.songs.lookup rel.owner = some row → Hash.hits gone db.items rel.owner = false
  album : ∀ song album row, db.songs.lookup rel.owner = some song → song.albumId = some album →
    db.albums.lookup album = some row → Hash.hits gone db.items album = false
  artist : ∀ row, db.artists.lookup rel.artistId = some row → Hash.hits gone db.items rel.artistId = false

/-- What is left of the artist tables when the items of `gone` are deleted. -/
structure RelsThinned (db after : Database) (gone : Int → ItemRow → Bool) : Prop where
  albumRels : ∀ key rel, after.relAlbumArtists.lookup key = some rel ↔
    db.relAlbumArtists.lookup key = some rel ∧ AlbumRelKept db gone rel
  songRels : ∀ key rel, after.relSongArtists.lookup key = some rel ↔
    db.relSongArtists.lookup key = some rel ∧ SongRelKept db gone rel

private theorem misses_const {β : Type} {went : Int → Bool} {map : Hash Int β} :
    Hash.hits (fun id _ => went id) map id = false ↔ ∀ row, map.lookup id = some row → went id = false :=
  misses_iff

theorem deleteItems_thins_rels (db : Database) (gone : Int → ItemRow → Bool) :
    RelsThinned db (db.deleteItems gone) gone := by
  set went := Hash.hits gone db.items with known
  constructor
  case albumRels =>
    intro key rel
    have shape : (db.deleteItems gone).relAlbumArtists =
        (db.relAlbumArtists.filter fun _ row => !Hash.hits (fun id _ => went id) db.albums row.owner).filter
          fun _ row => !Hash.hits (fun id _ => went id) db.artists row.artistId := rfl
    rw [shape, lookup_kept, lookup_kept, misses_const, misses_const, and_assoc]
    exact and_congr_right fun _ =>
      ⟨fun ⟨album, artist⟩ => ⟨album, artist⟩, fun kept => ⟨kept.album, kept.artist⟩⟩
  case songRels =>
    intro key rel
    let onAlbum : Int → SongRow → Bool := fun _ row =>
      row.albumId.any (Hash.hits (fun id _ => went id) db.albums)
    have shape : (db.deleteItems gone).relSongArtists =
        ((db.relSongArtists.filter fun _ row => !Hash.hits onAlbum db.songs row.owner).filter
          fun _ row => !Hash.hits (fun id _ => went id) db.artists row.artistId).filter
          fun _ row => !Hash.hits (fun id _ => went id)
            (db.songs.filter fun id row => !onAlbum id row) row.owner := rfl
    rw [shape, lookup_kept, lookup_kept, lookup_kept, misses_const, misses_const, misses_iff, and_assoc, and_assoc]
    refine and_congr_right fun _ => ?_
    have album (song : SongRow) : onAlbum rel.owner song = false ↔ ∀ album row, song.albumId = some album →
        db.albums.lookup album = some row → went album = false := by
      rw [← Bool.not_eq_true, Option.any_eq_true]
      constructor
      · intro spared album row named stored
        by_contra taken
        refine spared ⟨album, named, Hash.hits_iff.mpr ⟨row, stored, by simpa using taken⟩⟩
      · rintro spared ⟨album, named, taken⟩
        obtain ⟨row, stored, went⟩ := Hash.hits_iff.mp taken
        simp [spared album row named stored] at went
    simp only [album, lookup_kept]
    constructor
    · rintro ⟨albums, artist, own⟩
      exact ⟨fun row there => own row ⟨there, albums row there⟩,
        fun song album row there => albums song there album row, artist⟩
    · intro kept
      exact ⟨fun song there album row => kept.album song album row there, kept.artist,
        fun row there => kept.song row there.1⟩

private theorem AlbumRelKept.both (thinned : Thinned db middle first cut) (rel : ArtistRelRow) :
    AlbumRelKept db (fun id row => first id row || second id row) rel ↔
      AlbumRelKept db first rel ∧ AlbumRelKept middle second rel := by
  have both (id : Int) : Hash.hits (fun id row => first id row || second id row) db.items id = false ↔
      Hash.hits first db.items id = false ∧ Hash.hits second middle.items id = false :=
    misses_both thinned.items id
  constructor
  · intro kept
    have album row there := (both _).mp (kept.album row there)
    have artist row there := (both _).mp (kept.artist row there)
    exact ⟨⟨fun row there => (album row there).1, fun row there => (artist row there).1⟩,
      ⟨fun row there => (album row ((thinned.albums _ _).mp there).1).2,
        fun row there => (artist row ((thinned.artists _ _).mp there).1).2⟩⟩
  · rintro ⟨before, later⟩
    constructor
    · intro row there
      have spared := before.album row there
      exact (both _).mpr ⟨spared, later.album row ((thinned.albums _ _).mpr ⟨there, spared⟩)⟩
    · intro row there
      have spared := before.artist row there
      exact (both _).mpr ⟨spared, later.artist row ((thinned.artists _ _).mpr ⟨there, spared⟩)⟩

private theorem SongRelKept.both (thinned : Thinned db middle first cut) (rel : ArtistRelRow) :
    SongRelKept db (fun id row => first id row || second id row) rel ↔
      SongRelKept db first rel ∧ SongRelKept middle second rel := by
  have both (id : Int) : Hash.hits (fun id row => first id row || second id row) db.items id = false ↔
      Hash.hits first db.items id = false ∧ Hash.hits second middle.items id = false :=
    misses_both thinned.items id
  constructor
  · intro kept
    have song row there := (both _).mp (kept.song row there)
    have album song id row there named stored := (both _).mp (kept.album song id row there named stored)
    have artist row there := (both _).mp (kept.artist row there)
    constructor
    · exact ⟨fun row there => (song row there).1,
        fun song id row there named stored => (album song id row there named stored).1,
        fun row there => (artist row there).1⟩
    · exact ⟨fun row there => (song row ((thinned.songs _ _).mp there).1).2,
        fun song id row there named stored =>
          (album song id row ((thinned.songs _ _).mp there).1 named ((thinned.albums _ _).mp stored).1).2,
        fun row there => (artist row ((thinned.artists _ _).mp there).1).2⟩
  · rintro ⟨before, later⟩
    have left (song : SongRow) (there : db.songs.lookup rel.owner = some song) :
        middle.songs.lookup rel.owner = some song :=
      (thinned.songs _ _).mpr ⟨there, before.song song there,
        fun album row named stored => before.album song album row there named stored⟩
    constructor
    · intro row there
      exact (both _).mpr ⟨before.song row there, later.song row (left row there)⟩
    · intro song album row there named stored
      have spared := before.album song album row there named stored
      exact (both _).mpr ⟨spared,
        later.album song album row (left song there) named ((thinned.albums _ _).mpr ⟨stored, spared⟩)⟩
    · intro row there
      have spared := before.artist row there
      exact (both _).mpr ⟨spared, later.artist row ((thinned.artists _ _).mpr ⟨there, spared⟩)⟩

end Cascades

section Clean

variable (db : Database) (provider now : Int) (retained : Finset Int)

/-- The item lies in a library of the provider that is not deleted. -/
def Remaining (id : Int) : Prop :=
  ∃ item library row, db.items.lookup id = some item ∧ item.libraryId = some library ∧
    db.libraries.lookup library = some row ∧ row.providerId = provider ∧ now ≤ row.editTime

/-- A retained item that was not synced again. -/
def HeldBack (id : Int) : Prop :=
  id ∈ retained ∧ ∃ item, db.items.lookup id = some item ∧ item.lastSyncAt < now

/-- An item of another provider, in none of the provider's libraries. -/
def Foreign (id : Int) : Prop :=
  ∃ item, db.items.lookup id = some item ∧ item.providerId ≠ provider ∧
    ∀ library row, item.libraryId = some library → db.libraries.lookup library = some row →
      row.providerId ≠ provider

/-- The rows that are to survive by their own time or through their owner. -/
def Spared (rel : ArtistRelRow) : Prop := now ≤ rel.updateAt ∨ HeldBack db now retained rel.owner

/-- The items that are deleted, with a library or by themselves. -/
def deletedItem (id : Int) (row : ItemRow) : Bool :=
  libraryGone db (staleLibrary provider now) row || staleItem provider now retained id row

/-- The items deleted with a library. -/
def lostItem (_id : Int) (row : ItemRow) : Bool := libraryGone db (staleLibrary provider now) row

/-- What a clean-up of one artist table is for: it deletes exactly the stale rows. -/
def Exact (rels after : Hash Int ArtistRelRow) : Prop :=
  ∀ key rel, rels.lookup key = some rel →
    (Spared db now retained rel → after.lookup key = some rel) ∧
    (Remaining db provider now rel.owner → ¬Spared db now retained rel → after.lookup key = none) ∧
    (Foreign db provider rel.owner → after.lookup key = some rel)

/-- The rows of an owner are cleared: one of those that the libraries have left
is older than the sync. -/
def Cleared (rels : Hash Int ArtistRelRow) (left : ArtistRelRow → Prop) (owner : Int) : Prop :=
  Remaining db provider now owner ∧ ¬HeldBack db now retained owner ∧
    ∃ key rel, rels.lookup key = some rel ∧ left rel ∧ rel.owner = owner ∧ rel.updateAt < now

/-- No row that is to survive goes with an item, and none that is fresh has an
owner whose rows are cleared. -/
def Careful (rels : Hash Int ArtistRelRow) (kept left : ArtistRelRow → Prop) : Prop :=
  ∀ key rel, rels.lookup key = some rel →
    (Spared db now retained rel ∨ Foreign db provider rel.owner → kept rel) ∧
    (now ≤ rel.updateAt → ¬Cleared db provider now retained rels left rel.owner)

variable {db provider now retained}

private theorem Foreign.not_remaining (foreign : Foreign db provider id) : ¬Remaining db provider now id := by
  rintro ⟨item, library, row, there, inside, stored, mine, _⟩
  obtain ⟨other, known, _, outside⟩ := foreign
  obtain rfl : item = other := Option.some.inj (there.symm.trans known)
  exact outside library row inside stored mine

/-- A table whose rows survive unless they go with an item or with the rows of
their owner is cleaned exactly where that meets no row that is to survive. -/
private theorem exact_iff_careful {rels after : Hash Int ArtistRelRow} {kept left : ArtistRelRow → Prop}
    (earlier : ∀ rel, kept rel → left rel)
    (survives : ∀ key rel, after.lookup key = some rel ↔ rels.lookup key = some rel ∧ kept rel ∧
      ¬Cleared db provider now retained rels left rel.owner) :
    Exact db provider now retained rels after ↔ Careful db provider now retained rels kept left := by
  constructor
  · intro exact key rel there
    obtain ⟨spared, _, foreign⟩ := exact key rel there
    constructor
    · rintro (due | other)
      · exact ((survives key rel).mp (spared due)).2.1
      · exact ((survives key rel).mp (foreign other)).2.1
    · intro fresh
      exact ((survives key rel).mp (spared (.inl fresh))).2.2
  · intro careful key rel there
    obtain ⟨goes, clears⟩ := careful key rel there
    refine ⟨fun due => ?_, fun remaining stale => ?_, fun other => ?_⟩
    · refine (survives key rel).mpr ⟨there, goes (.inl due), ?_⟩
      rcases due with fresh | held
      · exact clears fresh
      · exact fun cleared => cleared.2.1 held
    · -- A stale row of a remaining library is one of those its owner is cleared for.
      cases found : after.lookup key with
      | none => rfl
      | some row =>
        obtain ⟨same, keeps, apart⟩ := (survives key row).mp found
        obtain rfl : rel = row := Option.some.inj (there.symm.trans same)
        have old : rel.updateAt < now := not_le.mp fun fresh => stale (.inl fresh)
        exact absurd ⟨remaining, fun held => stale (.inr held), key, rel, there, earlier rel keeps, rfl, old⟩ apart
    · exact (survives key rel).mpr ⟨there, goes (.inr other), fun cleared => other.not_remaining cleared.1⟩

private theorem libraries_left (db : Database) (provider now : Int) :
    RelsThinned db (db.deleteLibraries (staleLibrary provider now)) (lostItem db provider now) ∧
    ∀ library, library ∈ ((db.deleteLibraries (staleLibrary provider now)).libraries.filter
        fun _ row => row.providerId = provider).keys ↔
      ∃ row, db.libraries.lookup library = some row ∧ row.providerId = provider ∧ now ≤ row.editTime := by
  constructor
  · have thinned := deleteItems_thins_rels
      { db with libraries := db.libraries.filter fun id row => !staleLibrary provider now id row }
      (lostItem db provider now)
    constructor
    · intro key rel
      exact (thinned.albumRels key rel).trans
        (and_congr_right fun _ => ⟨fun kept => ⟨kept.album, kept.artist⟩,
          fun kept => ⟨kept.album, kept.artist⟩⟩)
    · intro key rel
      exact (thinned.songRels key rel).trans
        (and_congr_right fun _ => ⟨fun kept => ⟨kept.song, kept.album, kept.artist⟩,
          fun kept => ⟨kept.song, kept.album, kept.artist⟩⟩)
  · intro library
    have shape : (db.deleteLibraries (staleLibrary provider now)).libraries =
        db.libraries.filter fun id row => !staleLibrary provider now id row := rfl
    rw [← AList.mem_keys, ← AList.lookup_isSome, shape, Hash.lookup_filter, Hash.lookup_filter,
      Option.isSome_iff_exists]
    simp only [Option.filter_eq_some_iff, staleLibrary]
    constructor
    · rintro ⟨row, ⟨there, fresh⟩, mine⟩
      simp only [decide_eq_true_eq] at mine
      refine ⟨row, there, mine, ?_⟩
      simpa [mine] using fresh
    · rintro ⟨row, there, mine, fresh⟩
      exact ⟨row, ⟨there, by simp [fresh]⟩, by simpa using mine⟩

private theorem staleOwners_iff {provider now : Int} (retained : Finset Int)
    {rels left : Hash Int ArtistRelRow} {keeps : ArtistRelRow → Prop} {libraries : List Int}
    (items : ∀ id row, middle.items.lookup id = some row ↔
      db.items.lookup id = some row ∧ lostItem db provider now id row = false)
    (table : ∀ key rel, left.lookup key = some rel ↔ rels.lookup key = some rel ∧ keeps rel)
    (remaining : ∀ library, library ∈ libraries ↔
      ∃ row, db.libraries.lookup library = some row ∧ row.providerId = provider ∧ now ≤ row.editTime) (owner : Int) :
    middle.staleOwners left libraries now retained owner = true ↔ Cleared db provider now retained rels keeps owner := by
  unfold Database.staleOwners
  rw [Hash.any_iff]
  simp only [Bool.and_eq_true, decide_eq_true_eq, Hash.hits_iff, table]
  constructor
  · rintro ⟨key, rel, ⟨there, kept⟩, ⟨rfl, old⟩, item, found, inside, due⟩
    obtain ⟨library, named, listed⟩ := Option.any_eq_true _ _ |>.mp inside
    obtain ⟨row, stored, mine, fresh⟩ := (remaining library).mp (by simpa using listed)
    have known := ((items _ _).mp found).1
    refine ⟨⟨item, library, row, known, named, stored, mine, fresh⟩, ?_, key, rel, there, kept, rfl, old⟩
    rintro ⟨member, other, same, before⟩
    obtain rfl : item = other := Option.some.inj (known.symm.trans same)
    simp only [member, not_true_eq_false, decide_false, Bool.false_or, decide_eq_true_eq] at due
    omega
  · rintro ⟨⟨item, library, row, known, named, stored, mine, fresh⟩, held, key, rel, there, kept, rfl, old⟩
    have spared : lostItem db provider now rel.owner item = false := by
      have young : ¬row.editTime < now := by omega
      simp [lostItem, libraryGone, named, Hash.hits, stored, staleLibrary, young]
    have listed : library ∈ libraries := (remaining library).mpr ⟨row, stored, mine, fresh⟩
    refine ⟨key, rel, ⟨there, kept⟩, ⟨rfl, old⟩, item, (items _ _).mpr ⟨known, spared⟩, ?_, ?_⟩
    · simp [named, listed]
    · by_cases member : rel.owner ∈ retained
      · have synced : ¬item.lastSyncAt < now := fun before => held ⟨member, item, known, before⟩
        simp [member, not_lt.mp synced]
      · simp [member]

/-- The rows that are left of the two tables. -/
private theorem syncDropBefore_rels (db : Database) (provider now : Int) (retained : Finset Int) (key : Int)
    (rel : ArtistRelRow) :
    ((db.syncDropBefore provider now retained).relAlbumArtists.lookup key = some rel ↔
      db.relAlbumArtists.lookup key = some rel ∧
      AlbumRelKept db (deletedItem db provider now retained) rel ∧
      ¬Cleared db provider now retained db.relAlbumArtists (AlbumRelKept db (lostItem db provider now))
        rel.owner) ∧
    ((db.syncDropBefore provider now retained).relSongArtists.lookup key = some rel ↔
      db.relSongArtists.lookup key = some rel ∧
      SongRelKept db (deletedItem db provider now retained) rel ∧
      ¬Cleared db provider now retained db.relSongArtists (SongRelKept db (lostItem db provider now))
        rel.owner) := by
  obtain ⟨rels, remaining⟩ := libraries_left db provider now
  have thinned : Thinned db (db.deleteLibraries (staleLibrary provider now)) (lostItem db provider now) _ :=
    deleteLibraries_thins db (staleLibrary provider now)
  set middle := db.deleteLibraries (staleLibrary provider now) with start
  set libraries := (middle.libraries.filter fun _ row => row.providerId = provider).keys
  let albums := middle.staleOwners middle.relAlbumArtists libraries now retained
  let songs := middle.staleOwners middle.relSongArtists libraries now retained
  have last := deleteItems_thins_rels
    { middle with
      relAlbumArtists := middle.relAlbumArtists.filter fun _ rel => !albums rel.owner
      relSongArtists := middle.relSongArtists.filter fun _ rel => !songs rel.owner }
    (staleItem provider now retained)
  constructor
  · have both : AlbumRelKept db (deletedItem db provider now retained) rel ↔
        AlbumRelKept db (lostItem db provider now) rel ∧
          AlbumRelKept middle (staleItem provider now retained) rel := AlbumRelKept.both thinned rel
    have cleared := staleOwners_iff retained thinned.items rels.albumRels remaining rel.owner
    refine (last.albumRels key rel).trans ?_
    rw [lookup_kept, rels.albumRels, ← Bool.not_eq_true, cleared, both]
    constructor
    · rintro ⟨⟨⟨there, before⟩, apart⟩, later⟩
      exact ⟨there, ⟨before, later.album, later.artist⟩, apart⟩
    · rintro ⟨there, ⟨before, later⟩, apart⟩
      exact ⟨⟨⟨there, before⟩, apart⟩, later.album, later.artist⟩
  · have both : SongRelKept db (deletedItem db provider now retained) rel ↔
        SongRelKept db (lostItem db provider now) rel ∧
          SongRelKept middle (staleItem provider now retained) rel := SongRelKept.both thinned rel
    have cleared := staleOwners_iff retained thinned.items rels.songRels remaining rel.owner
    refine (last.songRels key rel).trans ?_
    rw [lookup_kept, rels.songRels, ← Bool.not_eq_true, cleared, both]
    constructor
    · rintro ⟨⟨⟨there, before⟩, apart⟩, later⟩
      exact ⟨there, ⟨before, later.song, later.album, later.artist⟩, apart⟩
    · rintro ⟨there, ⟨before, later⟩, apart⟩
      exact ⟨⟨⟨there, before⟩, apart⟩, later.song, later.album, later.artist⟩

/-- An album synced at 10, of whose two artists the second was not met again. -/
def renewedAlbum : Database :=
  { Database.empty with
    libraries := [⟨5, ⟨7, 10⟩⟩].toAList
    items := [⟨1, ⟨"album", some 5, 7, .album, 10⟩⟩, ⟨3, ⟨"stays", some 5, 7, .artist, 10⟩⟩,
      ⟨4, ⟨"left", some 5, 7, .artist, 10⟩⟩].toAList
    albums := [⟨1, ⟨"album"⟩⟩].toAList
    artists := [⟨3, ⟨"stays"⟩⟩, ⟨4, ⟨"left"⟩⟩].toAList
    relAlbumArtists := [⟨1, ⟨1, 3, 10⟩⟩, ⟨2, ⟨1, 4, 0⟩⟩].toAList }

end Clean

end Qcm.SyncDropProofs
