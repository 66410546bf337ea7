import Qcm.BatchDynamicRules
import Qcm.BatchListRules

/-!
A batch that went through goes through again and leaves the same rows, unless
one of its entries settles the favorite of a new row and then flags it
otherwise.  A batch that fails leaves the tables as they were.
-/

namespace Qcm.BatchRepeatProofs

open Lib SyncDatabase SyncBatch SyncCoordinator BatchTables BatchWrites BatchRules
  BatchRepeatRules BatchDynamicRules BatchLinkRules BatchListRules

variable {b d t u x y : Tables} {provider : Int}

/-! What the phases leave settled in the tables at the end. -/

/-- Only albums of songs are written. -/
def Rehoused (t u : Tables) : Prop := ∃ rows, u = { t with songs := rows } ∧ Alike withoutAlbum t.songs rows

variable {mask : Mask} {batch : SyncBatch} {after : Tables × List Int} {w : Writer}

theorem Rehoused.trans (first : Rehoused t u) (second : Rehoused u x) : Rehoused t x := by
  obtain ⟨_, rfl, one⟩ := first
  obtain ⟨rows, rfl, two⟩ := second
  exact ⟨rows, rfl, one.trans two⟩

theorem setAlbum_rehoused {song : Int × ItemRow} {album : Option ItemRef} (done : setAlbum provider t song album = .ok u) :
    Rehoused t u := by
  obtain ⟨chosen, row, -, stored, -, rfl⟩ := setAlbum_iff.mp done
  exact ⟨_, rfl, .put stored rfl⟩

theorem albums_rehoused {created : List Int} {patched : Tables × List Int}
    (first : batch.songs.foldlM (patchAlbum provider mask created) (t, []) = .ok patched)
    (second : batch.songAlbums.foldlM (writeSongAlbum provider) patched = .ok after) : Rehoused t after.1 := by
  have one := foldlM_keeps (fun state => Rehoused t state.1) first (fun entry _ before after held turned => by
    rcases patchAlbum_iff.mp turned with ⟨-, rfl⟩ | ⟨_, _, _, -, -, ⟨-, -, rfl⟩ | ⟨-, next, set, rfl⟩⟩
    · exact held
    · exact held
    · exact held.trans (setAlbum_rehoused set)) ⟨t.songs, rfl, .refl⟩
  exact foldlM_keeps (fun state => Rehoused t state.1) second (fun entry _ before after held turned => by
    obtain ⟨_, _, next, -, -, set, rfl⟩ := writeSongAlbum_iff.mp turned
    exact held.trans (setAlbum_rehoused set)) one

theorem relations_shape {relation : Relation} {now : Int} {entries : List RelationInput}
    {before : Tables × List Int} (lawful : Relation.Lawful relation)
    (done : entries.foldlM (writeRelation relation provider now) before = .ok after) :
    ∃ rows last, after.1 = relation.update before.1 rows last :=
  foldlM_keeps (fun state => ∃ rows last, state.1 = relation.update before.1 rows last) done
    (fun entry _ middle next held turned => by
      obtain ⟨_, _, same⟩ := held
      obtain ⟨rows, last, shape⟩ := writeRelation_shape lawful turned
      exact ⟨rows, last, by rw [shape, same, lawful.update_update]⟩)
    ⟨_, _, (lawful.update_self before.1).symm⟩

theorem Placed.still {ids : EntityIds} (placed : Placed t provider batch ids) (still : Still t u) :
    Placed u provider batch ids where
  libraries entry member := ⟨(placed.libraries entry member).1, by
    have titled := (placed.libraries entry member).2
    rwa [Titled, still.libraries]⟩
  shelves := placed.shelves
  albums := placed.albums.imp fun _ _ names => names.grow (.of_still still)
  artists := placed.artists.imp fun _ _ names => names.grow (.of_still still)
  songs := placed.songs.imp fun _ _ names => names.grow (.of_still still)
  remoteMixes := placed.remoteMixes.imp fun _ _ names => names.grow (.of_still still)
  distinct := placed.distinct

theorem patchField_or {α : Type} {allowed : Bool} {onInsert patch : Patch α} {value : α} (other : α)
    (rests : value = patchField false allowed onInsert patch value) :
    patchField false allowed onInsert patch other = value ∨ patchField false allowed onInsert patch other = other := by
  cases allowed <;> cases patch <;> simp_all [patchField, Patch.over]

theorem remoteApply_withCount {entry : RemoteMixInput} {row other : RemoteMix}
    (applied : RemoteMixInput.apply entry row false mask = .ok row)
    (same : uncountedRemote other = uncountedRemote row) :
    ∃ next, RemoteMixInput.apply entry other false mask = .ok next ∧ uncountedRemote next = uncountedRemote row ∧
      (next.trackCount = row.trackCount ∨ next.trackCount = other.trackCount) := by
  obtain ⟨_, valid, rest⟩ := bind_ok.mp applied
  have fields := pure_ok.mp rest
  simp only [uncountedRemote, RemoteMix.mk.injEq, true_and] at same
  obtain ⟨name, description, kind⟩ := same
  refine ⟨_, bind_ok.mpr ⟨_, valid, rfl⟩, ?_, patchField_or _ (congrArg RemoteMix.trackCount fields)⟩
  simp only [uncountedRemote, RemoteMix.mk.injEq, true_and, name, description, kind]
  exact ⟨(congrArg RemoteMix.name fields).symm, (congrArg RemoteMix.description fields).symm,
    (congrArg RemoteMix.mixType fields).symm⟩

theorem Described.carry {awaits : Int → Prop} (described : Described d provider batch fun _ => False)
    (still : Still d b) (albums : b.albums = d.albums) (artists : b.artists = d.artists)
    (songs : Alike withoutAlbum d.songs b.songs) (remixed : Remixed awaits d.remoteMixes b.remoteMixes)
    (mixed : Mixed awaits d.mixes b.mixes)
    (counted : ∀ id, awaits id → ∃ row, b.remoteMixes.lookup id = some row ∧ 0 ≤ row.trackCount) :
    Described b provider batch awaits where
  albums entry member := by
    obtain ⟨id, row, names, stored, rest⟩ := described.albums entry member
    exact ⟨id, row, names.grow (.of_still still), albums ▸ stored, rest⟩
  artists entry member := by
    obtain ⟨id, row, names, stored, rest⟩ := described.artists entry member
    exact ⟨id, row, names.grow (.of_still still), artists ▸ stored, rest⟩
  songs entry member := by
    obtain ⟨id, row, names, stored, applied, proper, checked⟩ := described.songs entry member
    have alike := songs id
    rw [stored] at alike
    obtain ⟨next, there, same⟩ := Option.map_eq_some_iff.mp alike
    have whole : next = { row with albumId := next.albumId } := by
      simp only [withoutAlbum, Song.mk.injEq, true_and] at same
      cases next
      simp_all
    refine ⟨id, next, names.grow (.of_still still), there, ?_, ?_, ?_⟩
    · rw [whole]
      exact songApply_withAlbum next.albumId applied
    · rw [whole]
      exact proper
    · rw [whole]
      exact checked
  remoteMixes entry member := by
    obtain ⟨id, row, next, names, stored, applied, proper, -, settled, sized, place, mix, found, name, description, count⟩ :=
      described.remoteMixes entry member
    have whole : next = row := settled not_false
    subst whole
    have equal := count not_false
    obtain ⟨current, hit, near⟩ := mixed.found id place mix found
    by_cases awaited : awaits id
    · obtain ⟨other, there, positive⟩ := counted id awaited
      have alike := remixed.alike id
      rw [stored, there] at alike
      obtain ⟨final, again, same, counts⟩ := remoteApply_withCount applied (Option.some.inj alike)
      have fields := same
      simp only [uncountedRemote, RemoteMix.mk.injEq, true_and] at fields
      have close := near
      simp only [uncounted, Mix.mk.injEq, true_and] at close
      refine ⟨id, other, final, names.grow (.of_still still), there, again, by rw [fields.1]; exact proper,
        same.trans (Option.some.inj alike).symm, fun free => absurd awaited free, ?_, place, current, hit, ?_, ?_,
        fun free => absurd awaited free⟩
      · rcases counts with old | new
        · rw [old]
          exact sized
        · rw [new]
          exact positive
      · rw [close.1, name, fields.1]
      · rw [close.2.2.2.1, description, fields.2.1]
    · have own := ofRemote_iff.mp (Hash.find_some found).2
      have kept : current = mix := mixed.counts place mix current (Hash.find_some found).1 (Hash.find_some hit).1
        fun remote searched awaited' => by
          have other := ofRemote_iff.mp (Hash.find_some searched).2
          exact awaited (Option.some.inj (own.symm.trans other) ▸ awaited')
      subst kept
      exact ⟨id, next, next, names.grow (.of_still still), (remixed.counts id awaited).trans stored, applied, proper, rfl,
        fun _ => rfl, sized, place, current, hit, name, description, fun _ => equal⟩

theorem AlbumsSettled.carry {patched songs : List Int}
    (settled : AlbumsSettled t provider mask batch patched songs) (still : Still t u)
    (same : u.songs = t.songs) (albums : u.albums = t.albums) :
    AlbumsSettled u provider mask batch patched songs where
  patches entry member album given allowed := by
    obtain ⟨id, noted, housed⟩ := settled.patches entry member album given allowed
    exact ⟨id, noted, Housed.still housed still (by rw [same]) albums⟩
  links := settled.links.imp fun _ _ housed => Housed.still housed still (by rw [same]) albums
  distinct := settled.distinct
  fresh := settled.fresh

/-- What a batch has left in the tables: `d` is where its dynamic rows began. -/
structure Settled (w : Writer) (batch : SyncBatch) (d b : Tables) : Prop where
  still : Still d b
  entities : ∃ ids remotes, Placed b w.provider batch ids ∧ Described b w.provider batch (fun id => id ∈ remotes) ∧
    List.Forall₂ (fun entry remote => ∃ id row songs, Filled b w.provider entry remote id row songs)
      batch.remoteMixContents remotes ∧ remotes.Nodup ∧
    ∃ rows, DynamicsSettled d b w.provider batch.options.dynamics w.now w.kept batch.dynamics ids.all rows
  images : ∃ places, List.Forall₂ (Pictured b w.provider b.images) batch.images places ∧ places.Nodup
  albums : ∃ patched songs, AlbumsSettled b w.provider batch.options.songs batch patched songs
  albumArtists : ∃ owners, List.Forall₂ (Linked albumArtists b w.provider) batch.albumArtists owners ∧ owners.Nodup
  songArtists : ∃ owners, List.Forall₂ (Linked songArtists b w.provider) batch.songArtists owners ∧ owners.Nodup

theorem apply_settles {result : SyncResult} (applied : apply w batch t = .ok (b, result)) :
    ∃ d, Settled w batch d b ∧ d.dynamics = t.dynamics ∧ Grows t d := by
  obtain ⟨entered, described, last, remotes, songs, first, second, third, -, -, same⟩ := apply_iff.mp applied
  obtain ⟨rfl, -⟩ := Prod.mk.inj same
  obtain ⟨shapeOne, grows⟩ := enter_shape first
  obtain ⟨ids, placed, items⟩ := enter_settle first
  obtain ⟨stillOne, sameDynamics, rows⟩ := describe_settle placed second
  obtain ⟨dynamic, images, patched, chosen, albums, songRels, contents, one, two, three, four, five, six, seven, rfl⟩ :=
    connect_iff.mp third
  obtain ⟨ids', dynamics⟩ := dynamics_settle one
  obtain ⟨places, pictures, placesApart⟩ := images_settle two
  obtain ⟨_, shapeDynamic⟩ := dynamics_shape one
  obtain ⟨_, shapeImages⟩ := images_shape two
  have rehoused := albums_rehoused three four
  obtain ⟨songRows, shapeSongs, alikeSongs⟩ := rehoused
  obtain ⟨_, _, shapeAlbums⟩ := relations_shape albumArtists_lawful five
  obtain ⟨_, _, shapeArtists⟩ := relations_shape songArtists_lawful six
  obtain ⟨_, _, _, _, shapeContents⟩ := contents_shape seven
  have toImages : Still described.1 images.1 := by rw [shapeImages, shapeDynamic]; exact ⟨rfl, rfl, rfl⟩
  have toChosen : Still images.1 chosen.1 := by rw [shapeSongs]; exact ⟨rfl, rfl, rfl⟩
  have toAlbums : Still chosen.1 albums.1 := by rw [shapeAlbums]; exact ⟨rfl, rfl, rfl⟩
  have toArtists : Still albums.1 songRels.1 := by rw [shapeArtists]; exact ⟨rfl, rfl, rfl⟩
  obtain ⟨-, -, songs, housed⟩ := albums_settle
    (placed.songs.imp fun _ _ names => names.grow (.of_still (stillOne.trans toImages))) placed.apart.2.2.1 three four
  obtain ⟨owners, linkedAlbums, ownersApart⟩ := relations_settle albumArtists_outward five
  obtain ⟨singers, linkedSongs, singersApart⟩ := relations_settle songArtists_outward six
  obtain ⟨remotes, filled, remotesApart, toContents, remixed, mixed⟩ := contents_settle seven
  have fromChosen : Still chosen.1 contents.1 := toAlbums.trans (toArtists.trans toContents)
  have fromImages : Still images.1 contents.1 := toChosen.trans fromChosen
  have still : Still described.1 contents.1 := toImages.trans fromImages
  have counted : ∀ id, id ∈ remotes → ∃ row, contents.1.remoteMixes.lookup id = some row ∧ 0 ≤ row.trackCount := by
    intro id member
    obtain ⟨entry, -, _, _, songs, filled⟩ := exists_of_forall₂ filled member
    obtain ⟨row, stored, count⟩ := filled.counted
    exact ⟨row, stored, by omega⟩
  have albumTable : contents.1.albums = described.1.albums := by
    rw [shapeContents, shapeArtists, shapeAlbums, shapeSongs, shapeImages, shapeDynamic]
    rfl
  have artistTable : contents.1.artists = described.1.artists := by
    rw [shapeContents, shapeArtists, shapeAlbums, shapeSongs, shapeImages, shapeDynamic]
    rfl
  have songTable : contents.1.songs = chosen.1.songs := by
    rw [shapeContents, shapeArtists, shapeAlbums]
    rfl
  have songsAlike : Alike withoutAlbum described.1.songs contents.1.songs := by
    rw [songTable, shapeSongs]
    rw [shapeImages, shapeDynamic] at alikeSongs
    exact alikeSongs
  have remoteTable : songRels.1.remoteMixes = described.1.remoteMixes := by
    rw [shapeArtists, shapeAlbums, shapeSongs, shapeImages, shapeDynamic]
    rfl
  have mixTable : songRels.1.mixes = described.1.mixes := by
    rw [shapeArtists, shapeAlbums, shapeSongs, shapeImages, shapeDynamic]
    rfl
  have dynamicTable : contents.1.dynamics = dynamic.dynamics := by
    rw [shapeContents, shapeArtists, shapeAlbums, shapeSongs, shapeImages]
    rfl
  have imageTable : contents.1.images = images.1.images := by
    rw [shapeContents, shapeArtists, shapeAlbums, shapeSongs]
    rfl
  have enteredDynamics : entered.1.dynamics = t.dynamics := by
    obtain ⟨_, _, _, _, shape⟩ := shapeOne
    rw [shape]
  rw [remoteTable] at remixed
  rw [mixTable] at mixed
  rw [items] at dynamics
  refine ⟨described.1, ⟨still, ⟨ids, remotes, Placed.still placed (stillOne.trans still),
    Described.carry rows still albumTable artistTable songsAlike remixed mixed counted, filled, remotesApart, ids',
    dynamics.turns, dynamics.distinct, dynamicTable ▸ dynamics.stored, dynamicTable ▸ dynamics.there⟩,
    ⟨places, ?_, placesApart⟩, ⟨patched.2, songs, ?_⟩, ⟨owners, ?_, ownersApart⟩, ⟨singers, ?_, singersApart⟩⟩,
    sameDynamics.trans enteredDynamics, grows.trans (.of_still stillOne)⟩
  · have fromDynamic : Still dynamic contents.1 := by
      refine Still.trans (u := images.1) ?_ fromImages
      rw [shapeImages]
      exact ⟨rfl, rfl, rfl⟩
    rw [imageTable]
    exact pictures.imp fun _ _ pictured => ⟨pictured.names.grow (.of_still fromDynamic), pictured.type, pictured.rests⟩
  · exact AlbumsSettled.carry housed fromChosen songTable (by rw [shapeContents, shapeArtists, shapeAlbums]; rfl)
  · refine linkedAlbums.imp fun entry owner linked => linked.carry (toArtists.trans toContents) ?_ fun artist keyed => ?_
    · rw [shapeContents, shapeArtists]
      rfl
    · rw [shapeContents, shapeArtists]
      exact keyed
  · refine linkedSongs.imp fun entry owner linked => linked.carry toContents ?_ fun artist keyed => ?_
    · rw [shapeContents]
      rfl
    · rw [shapeContents]
      exact keyed

/-! The batch once more. -/

/-- The same rows: times are left aside, and the ids of relation rows. -/
structure SameRows (t u : Tables) : Prop where
  providers : u.providers = t.providers
  libraries : Alike bareLibrary t.libraries u.libraries
  items : Alike identity t.items u.items
  albums : Same t.albums u.albums
  artists : Same t.artists u.artists
  songs : Same t.songs u.songs
  remoteMixes : Same t.remoteMixes u.remoteMixes
  mixes : Same t.mixes u.mixes
  dynamics : Alike bareDynamic t.dynamics u.dynamics
  images : Same t.images u.images
  albumArtists : (Relation.joined albumArtists u).Perm (Relation.joined albumArtists t)
  songArtists : (Relation.joined songArtists u).Perm (Relation.joined songArtists t)
  mixSongs : (Hash.columns lists u.relMixSongs).Perm (Hash.columns lists t.relMixSongs)

theorem mapM_ok {ε α β : Type} {read : α → Except ε β} {entries : List α} (each : ∀ entry ∈ entries, ∃ value, read entry = .ok value) :
    ∃ values, entries.mapM read = .ok values := by
  induction entries with
  | nil => exact ⟨[], rfl⟩
  | cons entry rest ih =>
    obtain ⟨value, first⟩ := each entry (by simp)
    obtain ⟨values, others⟩ := ih fun other member => each other (by simp [member])
    refine ⟨value :: values, ?_⟩
    rw [List.mapM_cons, first]
    exact bind_ok.mpr ⟨value, rfl, bind_ok.mpr ⟨values, others, rfl⟩⟩

theorem reread_goes {ρ : Type} {rows : Hash Int ρ} (missing : String) {wrote : List (Wrote ρ)}
    (there : ∀ row ∈ wrote, (rows.lookup row.id).isSome) : ∃ read, reread rows missing wrote = .ok read :=
  mapM_ok fun row member => by
    obtain ⟨value, stored⟩ := Option.isSome_iff_exists.mp (there row member)
    exact ⟨(row.id, value), by rw [stored]⟩

/-- A batch that has settled goes through again.  Of all rows only a favorite can
differ then, and it does exactly where an entry overrules itself. -/
theorem apply_again {again : Writer} (settled : Settled w batch d b)
    (provider : again.provider = w.provider) (kept : again.kept = w.kept) :
    ∃ last result, apply again batch b = .ok (last, result) ∧
      (SameRows b last ↔ ∀ entry ∈ batch.dynamics, ∀ id, Names d w.provider [] entry.item id →
        ¬Overruled batch.options.dynamics (w.kept id) entry (d.dynamics.lookup id)) := by
  obtain ⟨still, ⟨ids, remotes, placed, described, filled, remotesApart, named, dynamics⟩, ⟨places, pictures, placesApart⟩,
    ⟨patched, songs, housed⟩, ⟨owners, linkedAlbums, ownersApart⟩, ⟨singers, linkedSongs, singersApart⟩⟩ := settled
  rw [← provider] at placed described filled dynamics pictures housed linkedAlbums linkedSongs ⊢
  rw [← kept] at dynamics ⊢
  obtain ⟨entered, first, touched, items⟩ := enter_again placed
  obtain ⟨written, second, redone, songsThere, remotesThere⟩ := describe_again placed described touched
  obtain ⟨_, _, _, _, shapeEntered⟩ := touched.entered
  obtain ⟨_, _, _, _, _, _, shapeWritten⟩ := redone.others
  have grows : Grows b written.1 := touched.grows.trans (.of_still redone.still)
  have dynamicTable : written.1.dynamics = b.dynamics := by rw [shapeWritten, shapeEntered]
  have imageTable : written.1.images = b.images := by rw [shapeWritten, shapeEntered]
  obtain ⟨dynamicRows, third, settles⟩ := dynamics_again again.now dynamics ((Grows.of_still still).trans grows)
    dynamicTable items
  have toDynamic : Grows b { written.1 with dynamics := dynamicRows } := grows.trans (.of_still ⟨rfl, rfl, rfl⟩)
  obtain ⟨images, fourth, imageRows, shapeImages, sameImages⟩ := images_again pictures placesApart toDynamic
    (by rw [imageTable]; exact .refl)
  have toImages : Grows b images.1 := by
    rw [shapeImages]
    exact toDynamic.trans (.of_still ⟨rfl, rfl, rfl⟩)
  have albumRows : Same b.albums written.1.albums := by
    have same := redone.albums
    rwa [shapeEntered] at same
  have artistRows : Same b.artists written.1.artists := by
    have same := redone.artists
    rwa [shapeEntered] at same
  have songRows : Same b.songs images.1.songs := by
    have same := redone.songs
    rw [shapeEntered] at same
    rwa [shapeImages]
  have created : (written.2.songs.filter Wrote.inserted).map Wrote.id = [] := by
    rw [List.map_eq_nil_iff, List.filter_eq_nil_iff]
    intro row member
    simp [(songsThere row member).1]
  obtain ⟨middle, chosen, fifth, sixth, housedRows, shapeChosen, sameSongs⟩ := albums_again housed toImages songRows
    (by rw [shapeImages]; exact albumRows) fun entry member => by
      obtain ⟨id, -, names⟩ := value_of_forall₂ placed.songs member
      exact ⟨id, names⟩
  have toChosen : Grows b chosen.1 := by
    rw [shapeChosen]
    exact toImages.trans (.of_still ⟨rfl, rfl, rfl⟩)
  obtain ⟨albumRels, seventh, _, _, shapeAlbums, permAlbums⟩ := relations_again albumArtists_outward again.now linkedAlbums
    ownersApart toChosen (by rw [shapeChosen, shapeImages, shapeWritten, shapeEntered]; exact .refl _)
    fun owner artist keyed => ⟨by
      rw [shapeChosen, shapeImages]
      simpa [albumArtists, albumRows owner] using keyed.1, by
      rw [shapeChosen, shapeImages]
      simpa [artistRows artist] using keyed.2⟩
  have toAlbums : Grows b albumRels.1 := by
    rw [shapeAlbums]
    exact toChosen.trans (.of_still ⟨rfl, rfl, rfl⟩)
  obtain ⟨songRels, eighth, _, _, shapeSongs, permSongs⟩ := relations_again songArtists_outward again.now linkedSongs
    singersApart toAlbums (by rw [shapeAlbums, shapeChosen, shapeImages, shapeWritten, shapeEntered]; exact .refl _)
    fun owner artist keyed => ⟨by
      rw [shapeAlbums, shapeChosen, shapeImages]
      simpa [songArtists, albumArtists, sameSongs owner] using keyed.1, by
      rw [shapeAlbums, shapeChosen, shapeImages]
      simpa [albumArtists, artistRows artist] using keyed.2⟩
  have toSongs : Grows b songRels.1 := by
    rw [shapeSongs]
    exact toAlbums.trans (.of_still ⟨rfl, rfl, rfl⟩)
  have remixed : Remixed (fun id => id ∈ remotes) b.remoteMixes songRels.1.remoteMixes := by
    have same := redone.remoteMixes
    rw [shapeEntered] at same
    rwa [shapeSongs, shapeAlbums, shapeChosen, shapeImages]
  have mixed : Mixed (fun id => id ∈ remotes) b.mixes songRels.1.mixes := by
    have same := redone.mixes
    rw [shapeEntered] at same
    rwa [shapeSongs, shapeAlbums, shapeChosen, shapeImages]
  obtain ⟨contents, ninth, mixSongs, remoteRows, mixRows, _, shapeContents, permContents, sameRemotes, sameMixes⟩ :=
    contents_again filled remotesApart toSongs (by rw [shapeSongs, shapeAlbums, shapeChosen]; exact sameSongs) remixed mixed
      (by rw [shapeSongs, shapeAlbums, shapeChosen, shapeImages, shapeWritten, shapeEntered]; exact .refl _)
  have connected : connect again batch entered.2.2 written.2.songs written.1 = .ok contents.1 :=
    connect_iff.mpr ⟨_, images, middle, chosen, albumRels, songRels, contents, third, fourth, by rw [created]; exact fifth,
      sixth, seventh, eighth, ninth, rfl⟩
  have songTable : contents.1.songs = housedRows := by
    rw [shapeContents, shapeSongs, shapeAlbums, shapeChosen]
    rfl
  have remoteTable : contents.1.remoteMixes = remoteRows := by rw [shapeContents]
  have remotesStored : ∀ row ∈ written.2.remoteMixes, (contents.1.remoteMixes.lookup row.id).isSome := by
    intro row member
    have there := remotesThere row member
    rw [shapeEntered] at there
    rw [remoteTable, sameRemotes row.id]
    exact there
  have songsStored : ∀ row ∈ written.2.songs, (contents.1.songs.lookup row.id).isSome := by
    intro row member
    have there := (songsThere row member).2
    rw [shapeEntered] at there
    rw [songTable, sameSongs row.id]
    exact there
  obtain ⟨remoteRead, tenth⟩ := reread_goes "missing remote mix" remotesStored
  obtain ⟨songRead, eleventh⟩ := reread_goes "missing song" songsStored
  refine ⟨contents.1, _, apply_iff.mpr ⟨entered, written, contents.1, remoteRead, songRead, first, second, connected, tenth,
    eleventh, rfl⟩, ?_⟩
  rw [← settles]
  have dynamicRest : contents.1.dynamics = dynamicRows := by
    rw [shapeContents, shapeSongs, shapeAlbums, shapeChosen, shapeImages]
    rfl
  constructor
  · intro same
    rw [← dynamicRest]
    exact same.dynamics
  · intro alike
    refine ⟨?_, ?_, ?_, ?_, ?_, by rw [songTable]; exact sameSongs, by rw [remoteTable]; exact sameRemotes, ?_,
      by rw [dynamicRest]; exact alike, ?_, ?_, ?_, ?_⟩
    · rw [shapeContents, shapeSongs, shapeAlbums, shapeChosen, shapeImages, shapeWritten, shapeEntered]
      rfl
    · rw [shapeContents, shapeSongs, shapeAlbums, shapeChosen, shapeImages, shapeWritten]
      exact touched.libraries
    · rw [shapeContents, shapeSongs, shapeAlbums, shapeChosen, shapeImages, shapeWritten]
      exact touched.items
    · rw [shapeContents, shapeSongs, shapeAlbums, shapeChosen, shapeImages]
      exact albumRows
    · rw [shapeContents, shapeSongs, shapeAlbums, shapeChosen, shapeImages]
      exact artistRows
    · rw [shapeContents]
      exact sameMixes
    · rw [shapeContents, shapeSongs, shapeAlbums, shapeChosen, shapeImages]
      exact sameImages
    · rw [shapeContents, shapeSongs, shapeAlbums]
      exact permAlbums
    · rw [shapeContents, shapeSongs]
      exact permSongs
    · rw [shapeContents]
      exact permContents

/-! In terms of the tables before the batch. -/

/-- The library a key looks in. -/
def ItemKey.shelf (key : ItemKey) : Option Int :=
  match key.libraryId with
  | .missing => none
  | .set library => library

/-- The item a reference names, or the next one to come. -/
def target (t : Tables) (provider : Int) : ItemRef → Int
  | .id id => id
  | .key key => ((Hash.find (sameKey provider key (ItemKey.shelf key)) t.items).map Prod.fst).getD t.nextItem

/-- An entry gives a new row one favorite and says the other with its flag. -/
def Contradicts (w : Writer) (batch : SyncBatch) (t : Tables) (entry : DynamicInput) : Prop :=
  Overruled batch.options.dynamics (w.kept (target t w.provider entry.item)) entry
    (t.dynamics.lookup (target t w.provider entry.item))

/-- Dynamic rows refer to items, and favorites are stamped of items. -/
structure Rooted (t : Tables) (state : ProviderState) : Prop where
  dynamics : ∀ id, (t.dynamics.lookup id).isSome → id < t.nextItem
  favorites : ∀ id, (state.favorites.lookup id).isSome → id < t.nextItem

/-- The same writer once more, let in and let out, with no favorite set in between. -/
structure Repeats (w again : Writer) : Prop where
  provider : again.provider = w.provider
  run : again.run = w.run
  favorites : again.coordinator.favorites = w.coordinator.favorites
  overflow : again.coordinator.favoriteOverflow = w.coordinator.favoriteOverflow
  entering : again.entering = .ok ()
  leaving : again.leaving = .ok ()

theorem Repeats.kept {again : Writer} (repeats : Repeats w again) : again.kept = w.kept := by
  funext id
  simp only [Writer.kept, ProviderState.favoriteChangedAfter, repeats.run, repeats.favorites, repeats.overflow]

theorem syncBatch_ok {jsonLength : SyncBatch → Nat} {result : SyncResult} :
    syncBatch jsonLength w batch t = (.ok result, u) ↔ batch.admit jsonLength = .ok () ∧ w.entering = .ok () ∧
      apply w batch t = .ok (u, result) ∧ w.leaving = .ok () := by
  rw [← transaction_iff, syncBatch]
  cases transaction jsonLength w batch t with
  | error text => simp
  | ok done =>
    simp only [Except.ok.injEq, Prod.ext_iff]
    exact and_comm

theorem shelf_eq {key : ItemKey} {library : Option Int}
    (shelf : libraryOptional t.database provider key = .ok (some library)) : ItemKey.shelf key = library := by
  simp only [libraryOptional] at shelf
  split at shelf
  · cases shelf
  cases given : key.libraryId with
  | missing => simp [given] at shelf
  | set wanted =>
    rw [given] at shelf
    cases wanted with
    | none =>
      simp only at shelf
      split at shelf <;> cases shelf
      simp [ItemKey.shelf, given]
    | some id =>
      obtain ⟨owns, -, rest⟩ := bind_ok.mp shelf
      cases owns with
      | false => cases rest
      | true =>
        cases rest
        simp [ItemKey.shelf, given]

theorem names_target {item : ItemRef} {id : Int} {kinds : List ItemType} (grows : Grows t d)
    (names : Names d provider kinds item id) :
    id = target t provider item ∨ (t.nextItem ≤ id ∧ target t provider item = t.nextItem) := by
  obtain ⟨row, named⟩ := names
  cases item with
  | id given => exact .inl (named.by_id given rfl).symm
  | key key =>
    obtain ⟨-, -, library, shelf, found⟩ := named.by_key key rfl
    have own := shelf_eq shelf
    simp only [target, own]
    cases searched : Hash.find (sameKey provider key library) t.items with
    | some entry =>
      obtain ⟨next, again, -⟩ := grows.found _ _ _ entry.1 entry.2 searched
      rw [found] at again
      cases again
      exact .inl rfl
    | none =>
      refine .inr ⟨grows.fresh id ?_ (by simp [named.stored]), rfl⟩
      cases there : t.items.lookup id with
      | none => rfl
      | some old =>
        obtain ⟨next, stored, same⟩ := grows.items id old there
        rw [named.stored] at stored
        cases stored
        have fits := (Hash.find_some found).2
        rw [sameKey_congr same, Hash.find_none.mp searched id old there] at fits
        cases fits

theorem overruled_target {entry : DynamicInput} {id : Int} (rooted : Rooted t w.coordinator)
    (grows : Grows t d) (same : d.dynamics = t.dynamics) (names : Names d w.provider [] entry.item id) :
    Overruled batch.options.dynamics (w.kept id) entry (d.dynamics.lookup id) ↔ Contradicts w batch t entry := by
  rw [Contradicts, same]
  rcases names_target grows names with known | ⟨new, next⟩
  · rw [known]
  · have unwritten : ∀ id, t.nextItem ≤ id → t.dynamics.lookup id = none := fun id above => by
      by_contra there
      have below := rooted.dynamics id (Option.isSome_iff_ne_none.mpr there)
      omega
    have unstamped : ∀ id, t.nextItem ≤ id → w.coordinator.favorites.lookup id = none := fun id above => by
      by_contra there
      have below := rooted.favorites id (Option.isSome_iff_ne_none.mpr there)
      omega
    rw [next, unwritten id new, unwritten t.nextItem (le_refl _)]
    simp only [Writer.kept, ProviderState.favoriteChangedAfter, unstamped id new, unstamped t.nextItem (le_refl _)]

/-- For any tables and any batch: a batch that fails leaves the tables as they
were, and a batch that went through goes through again, leaving the same rows,
exactly if none of its entries contradicts itself on a row it makes. -/
theorem batch_repeats_iff (jsonLength : SyncBatch → Nat) (w : Writer) (batch : SyncBatch)
    (rooted : Rooted t w.coordinator) :
    (∀ text after, syncBatch jsonLength w batch t = (.error text, after) → after = t) ∧
      ∀ result after again, syncBatch jsonLength w batch t = (.ok result, after) → Repeats w again →
        ((∃ second last, syncBatch jsonLength again batch after = (.ok second, last) ∧ SameRows after last) ↔
          ∀ entry ∈ batch.dynamics, ¬Contradicts w batch t entry) := by
  refine ⟨fun text after failed => ?_, fun result after again accepted repeats => ?_⟩
  · simp only [syncBatch] at failed
    split at failed <;> cases failed
    rfl
  · obtain ⟨admitted, -, applied, -⟩ := syncBatch_ok.mp accepted
    obtain ⟨d, settled, same, grows⟩ := apply_settles applied
    obtain ⟨last, second, reapplied, settles⟩ := apply_again settled repeats.provider repeats.kept
    have whole : syncBatch jsonLength again batch after = (.ok second, last) :=
      syncBatch_ok.mpr ⟨admitted, repeats.entering, reapplied, repeats.leaving⟩
    constructor
    · rintro ⟨_, _, run, rows⟩ entry member contradicts
      rw [whole] at run
      cases run
      obtain ⟨_, _, -, -, -, -, _, dynamics⟩ := settled.entities
      obtain ⟨id, -, turns⟩ := value_of_forall₂ dynamics.turns member
      exact settles.mp rows entry member id turns.names
        ((overruled_target rooted grows same turns.names).mpr contradicts)
    · intro agree
      refine ⟨second, last, whole, settles.mpr fun entry member id names overruled => ?_⟩
      exact agree entry member ((overruled_target rooted grows same names).mp overruled)

/-! A song that is new, marked as a favorite of old by what new rows get and as
none by its flag; and the same song without the flag. -/

private def musicTables : Tables :=
  { Tables.empty [1] with
    libraries := Hash.put 1 ⟨"Music", 1, "music", 0⟩ ∅
    sequence := ⟨1, 0, 0, 0, 0, 0⟩ }

private def songWriter : Writer := ⟨1, 50, none, .fresh, .ok (), .ok ()⟩

private def newSong : ItemRef := .key ⟨"song", .set (some 1), .song, none⟩

private def markedBatch (flag : Patch Bool) : SyncBatch := { SyncBatch.none with
  songs := [⟨newSong, none, ⟨.set "Song", .missing, .missing, .missing, .missing, .missing, .missing, .missing, .missing,
    .missing⟩, .missing⟩]
  dynamics := [⟨newSong, some ⟨.missing, .missing, .missing, .set (some 0)⟩,
    ⟨.missing, .missing, .missing, .missing⟩, flag⟩] }

private theorem musicTables_rooted : Rooted musicTables .fresh := ⟨nofun, nofun⟩

private def onceMarked (flag : Patch Bool) : Except String SyncResult × Tables :=
  syncBatch (fun _ => 0) songWriter (markedBatch flag) musicTables

/-- The flag takes back at once what the defaults gave. -/
theorem flagged_song_changes_again :
    ∃ result after, syncBatch (fun _ => 0) songWriter (markedBatch (.set false)) musicTables = (.ok result, after) ∧
      ¬∃ second last, syncBatch (fun _ => 0) songWriter (markedBatch (.set false)) after = (.ok second, last) ∧
        SameRows after last := by
  have accepted : (onceMarked (.set false)).1.isOk = true := by decide +kernel
  have given : ((onceMarked (.set false)).2.dynamics.lookup 1).map DynamicRow.favoriteAt = some (some 0) := by
    decide +kernel
  have taken : ((syncBatch (fun _ => 0) songWriter (markedBatch (.set false))
      (onceMarked (.set false)).2).2.dynamics.lookup 1).map DynamicRow.favoriteAt = some none := by decide +kernel
  cases first : onceMarked (.set false) with
  | mk answer after =>
    rw [first] at accepted given taken
    cases answer with
    | error text => cases accepted
    | ok result =>
      refine ⟨result, after, first, ?_⟩
      rintro ⟨second, last, run, rows⟩
      dsimp only at given taken
      rw [run] at taken
      have alike : (last.dynamics.lookup 1).map DynamicRow.favoriteAt =
          (after.dynamics.lookup 1).map DynamicRow.favoriteAt := by
        have same := congrArg (Option.map DynamicRow.favoriteAt) (rows.dynamics 1)
        rw [Option.map_map, Option.map_map] at same
        exact same
      have both := taken.symm.trans (alike.trans given)
      cases both

theorem plain_song_repeats :
    ∃ result after, syncBatch (fun _ => 0) songWriter (markedBatch .missing) musicTables = (.ok result, after) ∧
      ∃ second last, syncBatch (fun _ => 0) songWriter (markedBatch .missing) after = (.ok second, last) ∧
        SameRows after last := by
  have accepted : (onceMarked .missing).1.isOk = true := by decide +kernel
  cases first : onceMarked .missing with
  | mk answer after =>
    rw [first] at accepted
    cases answer with
    | error text => cases accepted
    | ok result =>
      have repeats : Repeats songWriter songWriter := ⟨rfl, rfl, rfl, rfl, rfl, rfl⟩
      refine ⟨result, after, first, ((batch_repeats_iff (fun _ => 0) songWriter (markedBatch .missing)
        musicTables_rooted).2 result after songWriter first repeats).mpr fun entry member contradicts => ?_⟩
      obtain ⟨-, -, -, value, time, flag, -⟩ := contradicts
      cases List.mem_singleton.mp member
      cases flag

end Qcm.BatchRepeatProofs
