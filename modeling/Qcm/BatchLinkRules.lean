import Qcm.BatchRepeatRules

/-!
What refers to the items of a batch, written once and written again: images,
albums of songs, relations and the contents of mixes.  Rows of relations and of
mixes are compared by what they join, as they get new ids when they are written
again.
-/

namespace Qcm.BatchLinkRules

open Lib SyncDatabase SyncBatch BatchTables BatchWrites BatchRules BatchRepeatRules

variable {b t u x y : Tables} {provider now : Int}

/-! Images. -/

/-- What an entry makes of the image at its place. -/
def pictured (entry : ImageInput) (old : Option Image) : Option Image :=
  if entry.remove then none
  else
    let image := old.getD ⟨none, none, ""⟩
    some { image with nativeId := entry.nativeId.over image.nativeId, fresh := entry.fresh.over image.fresh }

variable {entries : List ImageInput} {after before : Tables × List Int} {album : Option ItemRef}
  {song : ItemRef} {id : Int} {created : List Int} {mask : Mask}

theorem lookup_image (entry : ImageInput) (place other : Int × ImageType) (images : Hash (Int × ImageType) Image) :
    (ImageInput.apply entry place images).lookup other =
      if other = place then pictured entry (images.lookup place) else images.lookup other := by
  unfold ImageInput.apply pictured
  split
  · split
    · rename_i same
      rw [same, AList.lookup_erase]
    · rename_i apart
      rw [AList.lookup_erase_ne apart]
  · simp

theorem pictured_again (entry : ImageInput) (old : Option Image) :
    pictured entry (pictured entry old) = pictured entry old := by
  unfold pictured
  split
  · rfl
  · simp [over_over]

/-- The place of an image, as its entry has left it. -/
structure Pictured (t : Tables) (provider : Int) (images : Hash (Int × ImageType) Image) (entry : ImageInput)
    (place : Int × ImageType) : Prop where
  names : Names t provider [] entry.itemId place.1
  type : place.2 = entry.imageType
  rests : pictured entry (images.lookup place) = images.lookup place

theorem images_settle {after : Tables × List (Int × ImageType)}
    (done : entries.foldlM (writeImage provider) (t, []) = .ok after) :
    ∃ places, List.Forall₂ (Pictured t provider after.1.images) entries places ∧ places.Nodup := by
  have settled := foldlM_settles (fun state : Tables × List (Int × ImageType) => Still t state.1)
    (fun (state : Tables) entry place => Pictured t provider state.images entry place) done .refl ?_
  · obtain ⟨-, places, each, distinct, -⟩ := settled
    exact ⟨places, each, distinct⟩
  · intro state seen entry next still turned
    obtain ⟨id, item, named, new, rfl⟩ := writeImage_iff.mp turned
    refine ⟨(id, entry.imageType), new, rfl, still.trans ⟨rfl, rfl, rfl⟩, ⟨⟨item, still.symm.named named⟩, rfl, ?_⟩,
      fun other held apart settled => ⟨settled.names, settled.type, ?_⟩⟩
    · dsimp only
      rw [lookup_image, if_pos rfl, pictured_again]
    · dsimp only
      rw [lookup_image, if_neg apart]
      exact settled.rests

theorem images_again {places : List (Int × ImageType)} {images : Hash (Int × ImageType) Image}
    (each : List.Forall₂ (Pictured b provider images) entries places) (distinct : places.Nodup)
    (grows : Grows b x) (same : Same images x.images) :
    ∃ after, entries.foldlM (writeImage provider) (x, []) = .ok after ∧
      ∃ last, after.1 = { x with images := last } ∧ Same images last := by
  have fresh : ∀ place ∈ places, place ∉ ([] : List (Int × ImageType)) := by simp
  have goes := foldlM_again (writeImage provider)
    (fun _ (state : Tables) => ∃ last, state = { x with images := last } ∧ Same images last) each distinct fresh
    ⟨x.images, rfl, same⟩ ?_
  · obtain ⟨last, gone, rows, rfl, alike⟩ := goes
    exact ⟨_, gone, rows, rfl, alike⟩
  · rintro state seen entry ⟨place, type⟩ ⟨names, rfl, rests⟩ new ⟨rows, rfl, alike⟩
    obtain ⟨item, named⟩ := names.grow grows
    have here : Named { x with images := rows } provider [] entry.itemId place item :=
      Still.named (t := x) ⟨rfl, rfl, rfl⟩ named
    refine ⟨_, writeImage_iff.mpr ⟨place, item, here, new, rfl⟩, _, rfl, fun other => ?_⟩
    have held := alike (place, entry.imageType)
    rw [lookup_image]
    split
    · rename_i here
      rw [here, held, rests]
    · exact alike other

/-! Albums of songs. -/

/-- A song has the album it was given. -/
def Housed (t : Tables) (provider : Int) (song : ItemRef) (album : Option ItemRef) (id : Int) : Prop :=
  ∃ item row, Named t provider [.song] song id item ∧ t.songs.lookup id = some row ∧
    Chosen t provider item.libraryId album row.albumId ∧ ∀ id, row.albumId = some id → (t.albums.lookup id).isSome

theorem Chosen.grow {library : Option Int} {chosen : Option Int} (grows : Grows t u)
    (fits : Chosen t provider library album chosen) : Chosen u provider library album chosen := by
  cases album with
  | none => exact fits
  | some key =>
    obtain ⟨id, row, named, shelf, rfl⟩ := fits
    obtain ⟨next, again, same⟩ := grows.named named
    exact ⟨id, next, again, (identity_eq same).2.1.trans shelf, rfl⟩

theorem Housed.still (housed : Housed t provider song album id) (still : Still t u)
    (same : u.songs.lookup id = t.songs.lookup id) (albums : u.albums = t.albums) :
    Housed u provider song album id := by
  obtain ⟨item, row, named, stored, fits, keyed⟩ := housed
  exact ⟨item, row, still.named named, same.trans stored, Chosen.grow (.of_still still) fits, albums ▸ keyed⟩

theorem Housed.names (housed : Housed t provider song album id) : Names t provider [.song] song id := by
  obtain ⟨item, -, named, -⟩ := housed
  exact ⟨item, named⟩

theorem setAlbum_settle {item : ItemRow} (named : Named t provider [.song] song id item)
    (done : setAlbum provider t (id, item) album = .ok u) :
    Still t u ∧ u.albums = t.albums ∧ Housed u provider song album id ∧
      ∀ other, other ≠ id → u.songs.lookup other = t.songs.lookup other := by
  obtain ⟨chosen, row, fits, stored, keyed, rfl⟩ := setAlbum_iff.mp done
  have still : Still t { t with songs := Hash.put id { row with albumId := chosen } t.songs } := ⟨rfl, rfl, rfl⟩
  refine ⟨still, rfl, ⟨item, { row with albumId := chosen }, still.named named, by simp, ?_, keyed⟩,
    fun other apart => ?_⟩
  · exact Chosen.grow (.of_still still) fits
  · simp [apart]

theorem setAlbum_again {item : ItemRow} (housed : Housed b provider song album id) (grows : Grows b x)
    (songs : Same b.songs x.songs) (albums : Same b.albums x.albums)
    (named : Named x provider [.song] song id item) :
    ∃ rows, setAlbum provider x (id, item) album = .ok { x with songs := rows } ∧ Same b.songs rows := by
  obtain ⟨first, row, there, stored, fits, keyed⟩ := housed
  obtain ⟨next, again, same⟩ := grows.named there
  obtain ⟨-, rfl⟩ := again.unique named
  have shelf := (identity_eq same).2.1
  refine ⟨_, setAlbum_iff.mpr ⟨row.albumId, row, shelf ▸ Chosen.grow grows fits, (songs id).trans stored, fun album chosen => ?_,
    rfl⟩, fun other => ?_⟩
  · rw [albums album]
    exact keyed album chosen
  · rw [Hash.lookup_put]
    split
    · rename_i here
      rw [here, stored]
    · exact songs other

theorem patchAlbum_iff {entry : SongInput} : patchAlbum provider mask created before entry = .ok after ↔
      (entry.albumId = .missing ∧ after = before) ∨
      ∃ album id item, entry.albumId = .set album ∧ Named before.1 provider [.song] entry.item id item ∧
        ((id ∉ created ∧ mask.allows "album_id" = false ∧ after = before) ∨
          ((id ∈ created ∨ mask.allows "album_id" = true) ∧
            ∃ next, setAlbum provider before.1 (id, item) album = .ok next ∧ after = (next, id :: before.2))) := by
  cases given : entry.albumId with
  | missing =>
    simp [patchAlbum, given]
    exact eq_comm
  | set album =>
    simp only [patchAlbum, given]
    rw [resolve_and_iff]
    simp only [reduceCtorEq, false_and, false_or, Patch.set.injEq, exists_eq_left', exists_and_left]
    refine exists_congr fun id => exists_congr fun item => and_congr_right fun named => ?_
    by_cases skipped : id ∉ created ∧ mask.allows "album_id" = false
    · rw [if_pos skipped, pure_ok]
      simp [skipped]
    · rw [if_neg skipped, bind_ok]
      simp only [pure_ok]
      constructor
      · intro done
        refine .inr ⟨?_, done⟩
        by_contra neither
        simp only [not_or, Bool.not_eq_true] at neither
        exact skipped neither
      · rintro (⟨fresh, denied, -⟩ | ⟨-, done⟩)
        · exact absurd ⟨fresh, denied⟩ skipped
        · exact done

theorem patchAlbums_settle {ids : List Int} {entries : List SongInput}
    (names : List.Forall₂ (fun entry => Names t provider [.song] (SongInput.item entry)) entries ids)
    (distinct : ids.Nodup) (done : entries.foldlM (patchAlbum provider mask created) (t, []) = .ok after) :
    Still t after.1 ∧ after.1.albums = t.albums ∧
      ∀ entry ∈ entries, ∀ album, entry.albumId = .set album → mask.allows "album_id" = true →
        ∃ id ∈ after.2, Housed after.1 provider entry.item album id := by
  have apart := pairwise_of_forall₂ names distinct fun _ _ _ one other => other.one one
  refine foldlM_tracks (fun past (state : Tables × List Int) => Still t state.1 ∧ state.1.albums = t.albums ∧
      ∀ entry ∈ past, ∀ album, entry.albumId = .set album → mask.allows "album_id" = true →
        ∃ id ∈ state.2, Housed state.1 provider entry.item album id) done apart ⟨.refl, rfl, by simp⟩ ?_
  rintro entry - past before after ahead ⟨still, albums, each⟩ turned
  rcases patchAlbum_iff.mp turned with ⟨missing, rfl⟩ | ⟨album, id, item, given, named, ⟨-, denied, rfl⟩ | ⟨-, next, set, rfl⟩⟩
  · refine ⟨still, albums, fun other member album set => ?_⟩
    rcases List.mem_append.mp member with earlier | here
    · exact each other earlier album set
    · cases List.mem_singleton.mp here
      simp [missing] at set
  · refine ⟨still, albums, fun other member album set allowed => ?_⟩
    simp [denied] at allowed
  · obtain ⟨stays, same, housed, others⟩ := setAlbum_settle named set
    refine ⟨still.trans stays, same.trans albums, fun other member wanted chosen allowed => ?_⟩
    rcases List.mem_append.mp member with earlier | here
    · obtain ⟨song, noted, settled⟩ := each other earlier wanted chosen allowed
      obtain ⟨row, held, there, rest⟩ := settled
      have away : song ≠ id := fun equal =>
        ahead other earlier song ⟨row, still.symm.named there⟩ ⟨item, equal ▸ still.symm.named named⟩
      exact ⟨song, by simp [noted], Housed.still ⟨row, held, there, rest⟩ stays (others song away) same⟩
    · cases List.mem_singleton.mp here
      rw [given] at chosen
      cases chosen
      exact ⟨id, by simp, housed⟩

theorem writeSongAlbum_iff {entry : SongAlbumInput} : writeSongAlbum provider before entry = .ok after ↔
      ∃ id item next, Named before.1 provider [.song] entry.song id item ∧ id ∉ before.2 ∧
        setAlbum provider before.1 (id, item) entry.album = .ok next ∧ after = (next, id :: before.2) := by
  simp only [writeSongAlbum]
  rw [resolve_and_iff]
  simp only [unless_iff, bind_ok, pure_ok, exists_and_left]

/-- The albums of songs, as a batch has left them. -/
structure AlbumsSettled (t : Tables) (provider : Int) (mask : Mask) (batch : SyncBatch) (patched songs : List Int) :
    Prop where
  patches : ∀ entry ∈ batch.songs, ∀ album, entry.albumId = .set album → mask.allows "album_id" = true →
    ∃ id ∈ patched, Housed t provider entry.item album id
  links : List.Forall₂ (fun entry id => Housed t provider (SongAlbumInput.song entry) entry.album id) batch.songAlbums songs
  distinct : songs.Nodup
  fresh : ∀ id ∈ songs, id ∉ patched

theorem albums_settle {ids : List Int} {batch : SyncBatch} {patched : Tables × List Int}
    (names : List.Forall₂ (fun entry => Names t provider [.song] (SongInput.item entry)) batch.songs ids)
    (distinct : ids.Nodup)
    (done : batch.songs.foldlM (patchAlbum provider mask created) (t, []) = .ok patched)
    (linked : batch.songAlbums.foldlM (writeSongAlbum provider) patched = .ok after) :
    Still t after.1 ∧ after.1.albums = t.albums ∧
      ∃ songs, AlbumsSettled after.1 provider mask batch patched.2 songs := by
  obtain ⟨still, albums, patches⟩ := patchAlbums_settle names distinct done
  have settled := foldlM_settles (fun state : Tables × List Int => Still patched.1 state.1 ∧
      state.1.albums = patched.1.albums ∧
      ∀ id ∈ patched.2, id ∈ state.2 ∧ state.1.songs.lookup id = patched.1.songs.lookup id)
    (fun (state : Tables) (entry : SongAlbumInput) id => Housed state provider entry.song entry.album id) linked
    ⟨.refl, rfl, fun id member => ⟨member, rfl⟩⟩ ?_
  · obtain ⟨⟨stays, same, kept⟩, songs, links, apart, -, fresh⟩ := settled
    refine ⟨still.trans stays, same.trans albums, songs, fun entry member album given allowed => ?_, links, apart, fresh⟩
    obtain ⟨id, noted, housed⟩ := patches entry member album given allowed
    exact ⟨id, noted, Housed.still housed stays (kept id noted).2 same⟩
  · rintro state seen entry next ⟨stays, same, kept⟩ turned
    obtain ⟨id, item, u, named, new, set, rfl⟩ := writeSongAlbum_iff.mp turned
    obtain ⟨stays', same', housed, others⟩ := setAlbum_settle named set
    refine ⟨id, new, rfl, ⟨stays.trans stays', same'.trans same, fun other noted => ?_⟩, housed,
      fun other held away settled => Housed.still settled stays' (others held away) same'⟩
    obtain ⟨seen, stored⟩ := kept other noted
    have away : other ≠ id := fun equal => new (equal ▸ seen)
    exact ⟨by simp [seen], (others other away).trans stored⟩

/-- The mask decides alone which songs a batch that comes again gives an album. -/
theorem albums_again {batch : SyncBatch} {patched songs : List Int}
    (settled : AlbumsSettled b provider mask batch patched songs) (grows : Grows b x)
    (same : Same b.songs x.songs) (albums : Same b.albums x.albums)
    (names : ∀ entry ∈ batch.songs, ∃ id, Names b provider [.song] (SongInput.item entry) id) :
    ∃ middle after, batch.songs.foldlM (patchAlbum provider mask []) (x, []) = .ok middle ∧
      batch.songAlbums.foldlM (writeSongAlbum provider) middle = .ok after ∧
      ∃ rows, after.1 = { x with songs := rows } ∧ Same b.songs rows := by
  have first : ∃ middle, batch.songs.foldlM (patchAlbum provider mask []) (x, []) = .ok middle ∧
      (∃ rows, middle.1 = { x with songs := rows } ∧ Same b.songs rows) ∧ ∀ id ∈ middle.2, id ∈ patched := by
    refine foldlM_goes (fun _ (state : Tables × List Int) => (∃ rows, state.1 = { x with songs := rows } ∧ Same b.songs rows) ∧
      ∀ id ∈ state.2, id ∈ patched) (R := fun _ _ => True) (List.pairwise_of_forall fun _ _ => trivial)
      ⟨⟨x.songs, rfl, same⟩, by simp⟩ ?_
    rintro entry member - ⟨state, seen⟩ - ⟨⟨rows, rfl, kept⟩, noted⟩
    cases given : entry.albumId with
    | missing => exact ⟨_, patchAlbum_iff.mpr (.inl ⟨given, rfl⟩), ⟨rows, rfl, kept⟩, noted⟩
    | set album =>
      have grown : Grows b { x with songs := rows } := grows.trans (.of_still ⟨rfl, rfl, rfl⟩)
      cases allowed : mask.allows "album_id" with
      | false =>
        obtain ⟨id, there⟩ := names entry member
        obtain ⟨item, named⟩ := there.grow grown
        exact ⟨_, patchAlbum_iff.mpr (.inr ⟨album, id, item, given, named, .inl ⟨by simp, allowed, rfl⟩⟩),
          ⟨rows, rfl, kept⟩, noted⟩
      | true =>
        obtain ⟨id, known, housed⟩ := settled.patches entry member album given allowed
        obtain ⟨_, there⟩ := Housed.names housed
        obtain ⟨item, named, -⟩ := grown.named there
        obtain ⟨next, set, again⟩ := setAlbum_again housed grown kept albums named
        refine ⟨_, patchAlbum_iff.mpr (.inr ⟨album, id, item, given, named, .inr ⟨.inr allowed, _, set, rfl⟩⟩),
          ⟨next, rfl, again⟩, ?_⟩
        simp only [List.mem_cons, forall_eq_or_imp]
        exact ⟨known, noted⟩
  obtain ⟨⟨state, seen⟩, gone, ⟨rows, rfl, kept⟩, noted⟩ := first
  have second := foldlM_again (writeSongAlbum provider)
    (fun _ (state : Tables) => ∃ rows, state = { x with songs := rows } ∧ Same b.songs rows) settled.links
    settled.distinct (fun id member earlier => settled.fresh id member (noted id earlier)) ⟨rows, rfl, kept⟩ ?_
  · obtain ⟨last, linked, final⟩ := second
    exact ⟨_, _, gone, linked, final⟩
  · rintro state seen entry id housed new ⟨rows, rfl, kept⟩
    have grown : Grows b { x with songs := rows } := grows.trans (.of_still ⟨rfl, rfl, rfl⟩)
    obtain ⟨_, there⟩ := Housed.names housed
    obtain ⟨item, named, -⟩ := grown.named there
    obtain ⟨next, set, again⟩ := setAlbum_again housed grown kept albums named
    exact ⟨_, writeSongAlbum_iff.mpr ⟨id, item, _, named, new, set, rfl⟩, next, rfl, again⟩

end Qcm.BatchLinkRules
