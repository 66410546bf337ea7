import Qcm.BatchRepeatProofs

/-!
What masks do.  `column` is the rule for one column of a row, and
`ruledAlbum` and its like are the rows it makes.  The phases of a batch leave
these rows, up to the columns that other parts of the batch set.
-/

namespace Qcm.BatchMaskProofs

open Lib SyncDatabase SyncBatch SyncCoordinator BatchTables BatchWrites BatchRules
  BatchRepeatRules BatchDynamicRules BatchLinkRules BatchListRules BatchRepeatProofs

variable {t u x : Tables} {provider : Int} {mask : Mask}

/-! The rule. -/

/-- A column of a row.  Where the row is there, it is the patch's if that is set and
the mask allows it, and else what it was.  In a new row it is the patch's, or what
new rows get, or the default, and the mask has no say. -/
def ruled {α : Type} (allowed : Bool) (onInsert patch : Patch α) (default : α) (old : Option α) : α :=
  match old with
  | some value => if allowed then patch.over value else value
  | none => patch.over (onInsert.over default)

def column {ι ρ α : Type} (group : Group ι ρ) (allowed : Bool) (onInsert patch : Patch α) (read : ρ → α)
    (old : Option ρ) : α := ruled allowed onInsert patch (read group.fresh) (old.map read)

variable {w : Writer} {entries : List SongInput} {after : Tables × List Int} {batch : SyncBatch}
  {wrote : List (Wrote Song)} {jsonLength : SyncBatch → Nat}

theorem patchField_column {ι ρ α : Type} (group : Group ι ρ) (allowed : Bool) (onInsert patch : Patch α)
    (read : ρ → α) (old : Option ρ) :
    patchField old.isNone allowed onInsert patch (read (old.getD group.fresh)) =
      column group allowed onInsert patch read old := by
  cases old with
  | none | some row => simp [patchField, column, ruled]

def ruledAlbum (mask : Mask) (entry : AlbumInput) (old : Option Album) : Album :=
  let onInsert := entry.onInsert.getD
    ⟨.missing, .missing, .missing, .missing, .missing, .missing, .missing, .missing, .missing, .missing, .missing⟩
  let fields := entry.fields
  { name := column albumGroup (mask.allows "name") onInsert.name fields.name Album.name old
    sortName := column albumGroup (mask.allows "sort_name") onInsert.sortName fields.sortName Album.sortName old
    trackCount := column albumGroup (mask.allows "track_count") onInsert.trackCount fields.trackCount
      Album.trackCount old
    discCount := column albumGroup (mask.allows "disc_count") onInsert.discCount fields.discCount Album.discCount old
    kind := column albumGroup (mask.allows "type") onInsert.kind fields.kind Album.kind old
    duration := column albumGroup (mask.allows "duration") onInsert.duration fields.duration Album.duration old
    language := column albumGroup (mask.allows "language") onInsert.language fields.language Album.language old
    description := column albumGroup (mask.allows "description") onInsert.description fields.description
      Album.description old
    company := column albumGroup (mask.allows "company") onInsert.company fields.company Album.company old
    publishTime := column albumGroup (mask.allows "publish_time") onInsert.publishTime fields.publishTime
      Album.publishTime old
    addedAt := column albumGroup (mask.allows "added_at") onInsert.addedAt fields.addedAt Album.addedAt old }

def ruledArtist (mask : Mask) (entry : ArtistInput) (old : Option Artist) : Artist :=
  let onInsert := entry.onInsert.getD ⟨.missing, .missing, .missing, .missing, .missing, .missing⟩
  let fields := entry.fields
  { name := column artistGroup (mask.allows "name") onInsert.name fields.name Artist.name old
    sortName := column artistGroup (mask.allows "sort_name") onInsert.sortName fields.sortName Artist.sortName old
    description := column artistGroup (mask.allows "description") onInsert.description fields.description
      Artist.description old
    albumCount := column artistGroup (mask.allows "album_count") onInsert.albumCount fields.albumCount
      Artist.albumCount old
    musicCount := column artistGroup (mask.allows "music_count") onInsert.musicCount fields.musicCount
      Artist.musicCount old
    addedAt := column artistGroup (mask.allows "added_at") onInsert.addedAt fields.addedAt Artist.addedAt old }

/-- The album of a song is not among its plain columns: `AlbumRuled` is its rule. -/
def ruledSong (mask : Mask) (entry : SongInput) (old : Option Song) : Song :=
  let onInsert := entry.onInsert.getD
    ⟨.missing, .missing, .missing, .missing, .missing, .missing, .missing, .missing, .missing, .missing⟩
  let fields := entry.fields
  { name := column songGroup (mask.allows "name") onInsert.name fields.name Song.name old
    sortName := column songGroup (mask.allows "sort_name") onInsert.sortName fields.sortName Song.sortName old
    albumId := old.bind Song.albumId
    trackNumber := column songGroup (mask.allows "track_number") onInsert.trackNumber fields.trackNumber
      Song.trackNumber old
    discNumber := column songGroup (mask.allows "disc_number") onInsert.discNumber fields.discNumber
      Song.discNumber old
    duration := column songGroup (mask.allows "duration") onInsert.duration fields.duration Song.duration old
    canPlay := column songGroup (mask.allows "can_play") onInsert.canPlay fields.canPlay Song.canPlay old
    popularity := column songGroup (mask.allows "popularity") onInsert.popularity fields.popularity
      Song.popularity old
    tags := column songGroup (mask.allows "tags") (tagsPatch onInsert.tags) (tagsPatch fields.tags) Song.tags old
    publishTime := column songGroup (mask.allows "publish_time") onInsert.publishTime fields.publishTime
      Song.publishTime old
    addedAt := column songGroup (mask.allows "added_at") onInsert.addedAt fields.addedAt Song.addedAt old }

def ruledRemoteMix (mask : Mask) (entry : RemoteMixInput) (old : Option RemoteMix) : RemoteMix :=
  let onInsert := entry.onInsert.getD ⟨.missing, .missing, .missing, .missing⟩
  let fields := entry.fields
  { name := column remoteMixGroup (mask.allows "name") onInsert.name fields.name RemoteMix.name old
    description := column remoteMixGroup (mask.allows "description") onInsert.description fields.description
      RemoteMix.description old
    trackCount := column remoteMixGroup (mask.allows "track_count") onInsert.trackCount fields.trackCount
      RemoteMix.trackCount old
    mixType := column remoteMixGroup (mask.allows "mix_type") onInsert.mixType fields.mixType
      RemoteMix.mixType old }

/-- A mask that names a field the group has not, or both what it includes and what it excludes. -/
def Misnamed (mask : Mask) (fields : List String) : Prop :=
  (mask.includes.isSome ∧ mask.excludes.isSome) ∨
    ∃ name ∈ mask.includes.getD [] ++ mask.excludes.getD [], name ∉ fields

theorem validate_error {fields : List String} (misnamed : Misnamed mask fields) :
    ∃ text, mask.validate fields = .error text := by
  unfold Mask.validate
  split
  · exact ⟨_, rfl⟩
  · rename_i single
    rcases misnamed with both | ⟨name, listed, unknown⟩
    · exact absurd both single
    · split
      · exact ⟨_, rfl⟩
      · rename_i every
        have known := List.find?_eq_none.mp every name listed
        simp [unknown] at known

section Entities

variable {ι ρ γ : Type} {group : Group ι ρ} {rule : ι → Option ρ → ρ}

/-- A group's rows follow a rule, from the row that was there or from none. -/
def Obeys (group : Group ι ρ) (mask : Mask) (rule : ι → Option ρ → ρ) : Prop :=
  ∀ entry old row, group.apply entry (old.getD group.fresh) old.isNone mask = .ok row → row = rule entry old

variable {same : ρ → ρ → Prop} {first second : Option ρ}

theorem albumGroup_obeys : Obeys albumGroup mask (ruledAlbum mask) := by
  intro entry old row applied
  obtain ⟨_, -, rest⟩ := bind_ok.mp applied
  rw [pure_ok.mp rest, ruledAlbum]
  simp only [← patchField_column]

theorem artistGroup_obeys : Obeys artistGroup mask (ruledArtist mask) := by
  intro entry old row applied
  obtain ⟨_, -, rest⟩ := bind_ok.mp applied
  rw [pure_ok.mp rest, ruledArtist]
  simp only [← patchField_column]

theorem songGroup_obeys : Obeys songGroup mask (ruledSong mask) := by
  intro entry old row applied
  obtain ⟨_, -, rest⟩ := bind_ok.mp applied
  have album : (old.getD songGroup.fresh).albumId = old.bind Song.albumId := by cases old <;> rfl
  rw [pure_ok.mp rest, ruledSong]
  simp only [← patchField_column, ← album]

theorem remoteMixGroup_obeys : Obeys remoteMixGroup mask (ruledRemoteMix mask) := by
  intro entry old row applied
  obtain ⟨_, -, rest⟩ := bind_ok.mp applied
  rw [pure_ok.mp rest, ruledRemoteMix]
  simp only [← patchField_column]

/-- The rows of a group from `t` to `u`, up to `same`: those the entries name are
made by the rule, and all others are as they were. -/
structure Ruled (group : Group ι ρ) (rule : ι → Option ρ → ρ) (same : Int → ρ → ρ → Prop) (provider : Int)
    (entries : List ι) (t u : Tables) : Prop where
  each : ∀ entry ∈ entries, ∃ id row, Names u provider group.kinds (group.item entry) id ∧
    (group.rows u).lookup id = some row ∧ same id row (rule entry ((group.rows t).lookup id))
  others : ∀ id, (∀ entry ∈ entries, ¬Names u provider group.kinds (group.item entry) id) →
    Option.Rel (same id) ((group.rows u).lookup id) ((group.rows t).lookup id)

/-- Rows that are made by the rule follow it, while later phases keep to `same`. -/
theorem Makes.ruled {entries : List ι} {wrote : List (Wrote ρ)} {s : Tables} {same : Int → ρ → ρ → Prop}
    (makes : Makes group mask provider entries wrote t u) (obeys : Obeys group mask rule)
    (first : group.rows t = group.rows s) (still : Still t x)
    (kept : ∀ id, Option.Rel (same id) ((group.rows x).lookup id) ((group.rows u).lookup id)) :
    Ruled group rule same provider entries s x := by
  constructor
  · intro entry member
    obtain ⟨wrote, -, row⟩ := value_of_forall₂ makes.each member
    have alike := kept wrote.id
    rw [row.stored] at alike
    cases stored : (group.rows x).lookup wrote.id with
    | none =>
      rw [stored] at alike
      cases alike
    | some next =>
      rw [stored] at alike
      cases alike with
      | some alike =>
        refine ⟨wrote.id, next, row.names.grow (.of_still still), stored, ?_⟩
        rwa [obeys entry _ wrote.row row.made, first] at alike
  · intro id apart
    have alike := kept id
    rwa [makes.others id fun entry member names => apart entry member (names.grow (.of_still still)), first] at alike

theorem rel_of_eq (reflexive : ∀ row, same row row) (equal : first = second) : Option.Rel same first second := by
  subst equal
  cases first with
  | none => exact .none
  | some row => exact .some (reflexive row)

theorem rel_of_map {blank : ρ → γ} (equal : first.map blank = second.map blank) :
    Option.Rel (fun row next => blank row = blank next) first second := by
  cases first with
  | none =>
    cases second with
    | none => exact .none
    | some next => cases equal
  | some row =>
    cases second with
    | none => cases equal
    | some next => exact .some (Option.some.inj equal)

theorem rel_imp {also : ρ → ρ → Prop} (rel : Option.Rel same first second)
    (step : ∀ row next, first = some row → second = some next → same row next → also row next) :
    Option.Rel also first second := by
  cases rel with
  | none => exact .none
  | some alike => exact .some (step _ _ rfl rfl alike)

end Entities

/-! Dynamic rows. -/

/-- The favorite of a dynamic row.  One that was set after the run began stays, and
else the flag of the entry is the patch where it is set. -/
def ruledFavorite (mask : Mask) (now : Int) (kept : Bool) (entry : DynamicInput) (old : Option DynamicRow) :
    Option Int :=
  let before := old.bind DynamicRow.favoriteAt
  if kept then before
  else
    match entry.favorite with
    | .missing => ruled (mask.allows "favorite_at") (defaults entry).favoriteAt entry.fields.favoriteAt none
        (old.map DynamicRow.favoriteAt)
    | .set flag => ruled (mask.allows "favorite") .missing (.set (if flag then before.or (some now) else none)) none
        (old.map DynamicRow.favoriteAt)

/-- A dynamic row notes the time of its last write. -/
def ruledDynamic (mask : Mask) (now : Int) (kept : Bool) (entry : DynamicInput) (old : Option DynamicRow) :
    DynamicRow :=
  let fields := entry.fields
  { old.getD DynamicRow.fresh with
    isExternal := ruled (mask.allows "is_external") (defaults entry).isExternal fields.isExternal false
      (old.map DynamicRow.isExternal)
    remotePlayCount := ruled (mask.allows "remote_play_count") (defaults entry).remotePlayCount
      fields.remotePlayCount 0 (old.map DynamicRow.remotePlayCount)
    remoteLastPlayedAt := ruled (mask.allows "remote_last_played_at") (defaults entry).remoteLastPlayedAt
      fields.remoteLastPlayedAt none (old.map DynamicRow.remoteLastPlayedAt)
    favoriteAt := ruledFavorite mask now kept entry old
    updateAt := now }

/-- A new row whose entry flags a favorite and has another favorite for new rows. -/
def TwiceMarked (entry : DynamicInput) (old : Option DynamicRow) : Prop :=
  old = none ∧ entry.favorite ≠ .missing ∧ (defaults entry).favoriteAt ≠ .missing

def withoutFavorite (row : DynamicRow) : DynamicRow := { row with favoriteAt := none }

theorem turned_ruled {now : Int} {kept : Bool} {entry : DynamicInput} {old : Option DynamicRow} :
    withoutFavorite (turned mask now kept entry old) = withoutFavorite (ruledDynamic mask now kept entry old) := by
  cases old with
  | none => simp [withoutFavorite, turned, ruledDynamic, patchField, ruled, DynamicRow.fresh]
  | some row => simp [withoutFavorite, turned, ruledDynamic, patchField, ruled]

theorem turned_favorite {now : Int} {kept : Bool} {entry : DynamicInput} {old : Option DynamicRow}
    (sensible : Sensible mask entry) (once : ¬TwiceMarked entry old) :
    (turned mask now kept entry old).favoriteAt = ruledFavorite mask now kept entry old := by
  have alone := sensible.1
  cases kept with
  | true => cases old <;> rfl
  | false =>
    cases flag : entry.favorite with
    | missing => cases old <;> simp [turned, ruledFavorite, flagged, flag, patchField, ruled, DynamicRow.fresh]
    | set value =>
      have plain : entry.fields.favoriteAt = .missing := alone (by simp [flag])
      cases old with
      | some row => simp [turned, ruledFavorite, flagged, flag, plain, patchField, ruled, Patch.over]
      | none =>
        have bare : (defaults entry).favoriteAt = .missing := by
          by_contra given
          exact once ⟨rfl, by simp [flag], given⟩
        simp [turned, ruledFavorite, flagged, flag, plain, bare, patchField, ruled, Patch.over, DynamicRow.fresh]

theorem insertDynamics_others (now : Int) (db : Database) (items : List Int) (id : Int)
    (absent : db.dynamics.lookup id = none) : (insertDynamics now items db).dynamics.lookup id =
      if id ∈ items then some { DynamicRow.fresh with updateAt := now } else none := by
  induction items generalizing db with
  | nil => simpa [insertDynamics] using absent
  | cons head rest ih =>
    rw [insertDynamics, List.foldl_cons, ← insertDynamics]
    by_cases same : id = head
    · subst same
      have here : ({ db with dynamics := db.dynamics.insert id { DynamicRow.fresh with updateAt := now } } :
          Database).dynamics.lookup id = some { DynamicRow.fresh with updateAt := now } := AList.lookup_insert ..
      rw [if_neg (by simp [absent]), (insertDynamics_settle now _ rest).2 id (by rw [here]; rfl), here]
      simp
    · have apart : (db.dynamics.insert head { DynamicRow.fresh with updateAt := now }).lookup id = none := by
        rw [AList.lookup_insert_ne same, absent]
      split
      · rw [ih db absent]
        simp [same]
      · rw [ih _ apart]
        simp [same]

/-- The dynamic rows from `t` to `u`, for the items of `items`. -/
structure DynamicsRuled (w : Writer) (mask : Mask) (entries : List DynamicInput) (items : Int → Prop) (t u : Tables) :
    Prop where
  each : ∀ entry ∈ entries, ∃ id row, Names u w.provider [] entry.item id ∧ u.dynamics.lookup id = some row ∧
    withoutFavorite row =
      withoutFavorite (ruledDynamic mask w.now (w.kept id) entry (t.dynamics.lookup id)) ∧
    (¬TwiceMarked entry (t.dynamics.lookup id) →
      row.favoriteAt = ruledFavorite mask w.now (w.kept id) entry (t.dynamics.lookup id))
  others : ∀ id, (∀ entry ∈ entries, ¬Names u w.provider [] entry.item id) →
    (items id → u.dynamics.lookup id =
      some ((t.dynamics.lookup id).getD { DynamicRow.fresh with updateAt := w.now })) ∧
    (¬items id → u.dynamics.lookup id = t.dynamics.lookup id)

theorem DynamicsRuled.carry {entries : List DynamicInput} {items wanted : Int → Prop} {s : Tables}
    (ruled : DynamicsRuled w mask entries items t u) (first : t.dynamics = s.dynamics)
    (last : x.dynamics = u.dynamics) (still : Still u x) (listed : ∀ id, wanted id ↔ items id) :
    DynamicsRuled w mask entries wanted s x := by
  constructor
  · intro entry member
    obtain ⟨id, row, names, stored, rest⟩ := ruled.each entry member
    exact ⟨id, row, names.grow (.of_still still), last ▸ stored, first ▸ rest⟩
  · intro id apart
    rw [last, listed, ← first]
    exact ruled.others id fun entry member names => apart entry member (names.grow (.of_still still))

theorem writeDynamicRows_ruled {entries : List DynamicInput} {items : List (Int × ItemRow)}
    (done : writeDynamicRows w.provider mask w.now w.kept entries items t = .ok u) :
    DynamicsRuled w mask entries (fun id => id ∈ items.map Prod.fst) t u := by
  obtain ⟨⟨left, seen⟩, loop, rest⟩ := bind_ok.mp done
  obtain ⟨ids, last, turns, -, -, shape, rewritten⟩ := writeDynamics_settle loop
  cases pure_ok.mp rest
  dsimp only at shape
  subst shape
  have still : Still t { t with dynamics :=
      (insertDynamics w.now (items.map Prod.fst) { t with dynamics := last }.database).dynamics } := ⟨rfl, rfl, rfl⟩
  have kept := (insertDynamics_settle w.now { t with dynamics := last }.database (items.map Prod.fst)).2
  constructor
  · intro entry member
    have both : List.Forall₂ (fun entry id => Turns t w.provider mask w.now w.kept t.dynamics entry id ∧
        last.lookup id = some (turned mask w.now (w.kept id) entry (t.dynamics.lookup id))) entries ids :=
      turns.mp (fun _ _ turn stored => ⟨turn, stored⟩) rewritten.each
    obtain ⟨id, -, turn, stored⟩ := value_of_forall₂ both member
    have there : ({ t with dynamics := last } : Tables).database.dynamics.lookup id =
        some (turned mask w.now (w.kept id) entry (t.dynamics.lookup id)) := stored
    refine ⟨id, _, turn.names.grow (.of_still still), (kept id (by rw [there]; rfl)).trans there, turned_ruled, ?_⟩
    exact turned_favorite turn.sensible
  · intro id apart
    have unnamed : id ∉ ids := fun member => by
      obtain ⟨entry, listed, turn⟩ := exists_of_forall₂ turns member
      exact apart entry listed (turn.names.grow (.of_still still))
    have same : ({ t with dynamics := last } : Tables).database.dynamics.lookup id = t.dynamics.lookup id :=
      rewritten.others id unnamed
    cases there : t.dynamics.lookup id with
    | some row =>
      rw [there] at same
      have stays := (kept id (by rw [same]; rfl)).trans same
      exact ⟨fun _ => stays, fun _ => stays⟩
    | none =>
      rw [there] at same
      have fresh := insertDynamics_others w.now _ (items.map Prod.fst) id same
      exact ⟨fun member => fresh.trans (if_pos member), fun member => fresh.trans (if_neg member)⟩

/-! Albums of songs. -/

/-- Whether an entry gives a song an album. -/
def Rehouses (mask : Mask) (created : List Int) (entry : SongInput) (id : Int) (album : Option ItemRef) : Prop :=
  entry.albumId = .set album ∧ (id ∈ created ∨ mask.allows "album_id" = true)

theorem patchAlbums_rehouse {created ids : List Int}
    (names : List.Forall₂ (fun entry => Names t provider [.song] (SongInput.item entry)) entries ids)
    (distinct : ids.Nodup) (done : entries.foldlM (patchAlbum provider mask created) (t, []) = .ok after) :
    (Still t after.1 ∧ after.1.albums = t.albums) ∧
      (∀ entry ∈ entries, ∀ id album, Names t provider [.song] entry.item id →
        Rehouses mask created entry id album → Housed after.1 provider entry.item album id) ∧
      ∀ id, (∀ entry ∈ entries, Names t provider [.song] entry.item id →
        ∀ album, ¬Rehouses mask created entry id album) → after.1.songs.lookup id = t.songs.lookup id := by
  have apart := pairwise_of_forall₂ names distinct fun _ _ _ one other => other.one one
  refine foldlM_tracks (fun past (state : Tables × List Int) => (Still t state.1 ∧ state.1.albums = t.albums) ∧
      (∀ entry ∈ past, ∀ id album, Names t provider [.song] entry.item id →
        Rehouses mask created entry id album → Housed state.1 provider entry.item album id) ∧
      ∀ id, (∀ entry ∈ past, Names t provider [.song] entry.item id →
        ∀ album, ¬Rehouses mask created entry id album) → state.1.songs.lookup id = t.songs.lookup id)
    done apart ⟨⟨.refl, rfl⟩, by simp, fun _ _ => rfl⟩ ?_
  rintro entry - past before after ahead ⟨⟨still, albums⟩, each, others⟩ turned
  rcases patchAlbum_iff.mp turned with
    ⟨missing, rfl⟩ | ⟨album, id, item, given, named, ⟨old, denied, rfl⟩ | ⟨rule, next, set, rfl⟩⟩
  · refine ⟨⟨still, albums⟩, fun other member id album names rehouses => ?_, fun id none => ?_⟩
    · rcases List.mem_append.mp member with earlier | here
      · exact each other earlier id album names rehouses
      · cases List.mem_singleton.mp here
        cases missing.symm.trans rehouses.1
    · exact others id fun other earlier => none other (by simp [earlier])
  · have own : Names t provider [.song] entry.item id := ⟨item, still.symm.named named⟩
    refine ⟨⟨still, albums⟩, fun other member id' album names rehouses => ?_, fun id none => ?_⟩
    · rcases List.mem_append.mp member with earlier | here
      · exact each other earlier id' album names rehouses
      · cases List.mem_singleton.mp here
        cases own.one names
        rcases rehouses.2 with made | allowed
        · exact absurd made old
        · simp [denied] at allowed
    · exact others id fun other earlier => none other (by simp [earlier])
  · have own : Names t provider [.song] entry.item id := ⟨item, still.symm.named named⟩
    obtain ⟨stays, same, housed, apart⟩ := setAlbum_settle named set
    refine ⟨⟨still.trans stays, same.trans albums⟩, fun other member id' album' names rehouses => ?_,
      fun id' none => ?_⟩
    · rcases List.mem_append.mp member with earlier | here
      · have away : id' ≠ id := fun equal => ahead other earlier id (equal ▸ names) own
        exact Housed.still (each other earlier id' album' names rehouses) stays (apart id' away) same
      · cases List.mem_singleton.mp here
        cases own.one names
        cases given.symm.trans rehouses.1
        exact housed
    · have away : id' ≠ id := fun equal => none entry (by simp) (equal ▸ own) album ⟨given, equal ▸ rule⟩
      exact (apart id' away).trans (others id' fun other earlier => none other (by simp [earlier]))

theorem songAlbums_others {entries : List SongAlbumInput} {before : Tables × List Int}
    (done : entries.foldlM (writeSongAlbum provider) before = .ok after) :
    (Still before.1 after.1 ∧ after.1.albums = before.1.albums) ∧
      ∀ id, (∀ link ∈ entries, ¬Names before.1 provider [.song] link.song id) →
        after.1.songs.lookup id = before.1.songs.lookup id :=
  foldlM_keeps (fun state => (Still before.1 state.1 ∧ state.1.albums = before.1.albums) ∧
      ∀ id, (∀ link ∈ entries, ¬Names before.1 provider [.song] link.song id) →
        state.1.songs.lookup id = before.1.songs.lookup id) done
    (fun link member middle last held turned => by
      obtain ⟨⟨still, albums⟩, others⟩ := held
      obtain ⟨id, item, next, named, -, set, rfl⟩ := writeSongAlbum_iff.mp turned
      obtain ⟨stays, same, -, apart⟩ := setAlbum_settle named set
      refine ⟨⟨still.trans stays, same.trans albums⟩, fun other none => ?_⟩
      have away : other ≠ id := fun equal => none link member ⟨item, equal ▸ still.symm.named named⟩
      exact (apart other away).trans (others other none))
    ⟨⟨.refl, rfl⟩, fun _ _ => rfl⟩

/-- The album of a song an entry names: the one it sets, for a new song or where the
mask allows it, and else the one it had. -/
def AlbumRuled (u : Tables) (provider : Int) (mask : Mask) (entry : SongInput) (id : Int) (old : Option Song)
    (album : Option Int) : Prop :=
  match entry.albumId with
  | .missing => album = old.bind Song.albumId
  | .set wanted =>
    if old = none ∨ mask.allows "album_id" = true then
      ∃ item, Named u provider [.song] entry.item id item ∧ Chosen u provider item.libraryId wanted album
    else album = old.bind Song.albumId

/-- The albums of the songs from `t` to `u`, where no link names them. -/
structure AlbumsRuled (provider : Int) (mask : Mask) (batch : SyncBatch) (t u : Tables) : Prop where
  each : ∀ entry ∈ batch.songs, ∀ id, Names u provider [.song] entry.item id →
    (∀ link ∈ batch.songAlbums, ¬Names u provider [.song] link.song id) →
    AlbumRuled u provider mask entry id (t.songs.lookup id) ((u.songs.lookup id).bind Song.albumId)
  others : ∀ id, (∀ entry ∈ batch.songs, ¬Names u provider [.song] entry.item id) →
    (∀ link ∈ batch.songAlbums, ¬Names u provider [.song] link.song id) →
    (u.songs.lookup id).bind Song.albumId = (t.songs.lookup id).bind Song.albumId

theorem albums_ruled {created ids : List Int} {s : Tables} {patched : Tables × List Int}
    (names : List.Forall₂ (fun entry => Names t provider [.song] (SongInput.item entry)) batch.songs ids)
    (distinct : ids.Nodup)
    (made : ∀ entry ∈ batch.songs, ∀ id, Names t provider [.song] entry.item id →
      (id ∈ created ↔ s.songs.lookup id = none))
    (same : ∀ id, (t.songs.lookup id).bind Song.albumId = (s.songs.lookup id).bind Song.albumId)
    (done : batch.songs.foldlM (patchAlbum provider mask created) (t, []) = .ok patched)
    (linked : batch.songAlbums.foldlM (writeSongAlbum provider) patched = .ok after)
    (still : Still after.1 u) (songs : u.songs = after.1.songs) : AlbumsRuled provider mask batch s u := by
  obtain ⟨⟨first, albums⟩, each, others⟩ := patchAlbums_rehouse names distinct done
  obtain ⟨⟨second, kept⟩, apart⟩ := songAlbums_others linked
  have back : Still u patched.1 := (second.trans still).symm
  have whole : Still u t := (first.trans (second.trans still)).symm
  have only := one_of_pairwise (pairwise_of_forall₂ names distinct fun _ _ _ one other => other.one one)
  constructor
  · intro entry member id named unlinked
    have own : Names t provider [.song] entry.item id := named.grow (.of_still whole)
    have stays := apart id fun link listed there => unlinked link listed (there.grow (.of_still back.symm))
    rw [songs, stays, AlbumRuled]
    have plain (free : ∀ album, ¬Rehouses mask created entry id album) :
        (patched.1.songs.lookup id).bind Song.albumId = (s.songs.lookup id).bind Song.albumId := by
      rw [others id fun other listed there => ?_, same]
      rcases only other listed entry member with rfl | away
      · exact free
      · exact absurd own (away id there)
    cases given : entry.albumId with
    | missing => exact plain fun album rehouses => by cases given.symm.trans rehouses.1
    | set wanted =>
      dsimp only
      split
      · rename_i rule
        have rehouses : Rehouses mask created entry id wanted :=
          ⟨given, rule.imp (made entry member id own).mpr fun allowed => allowed⟩
        obtain ⟨item, row, there, stored, fits, -⟩ := each entry member id wanted own rehouses
        rw [stored]
        exact ⟨item, back.symm.named there, Chosen.grow (.of_still back.symm) fits⟩
      · rename_i neither
        refine plain fun album rehouses => neither (rehouses.2.imp (made entry member id own).mp fun allowed => allowed)
  · intro id unnamed unlinked
    have stays := apart id fun link listed there => unlinked link listed (there.grow (.of_still back.symm))
    rw [songs, stays, others id fun entry member there => absurd (there.grow (.of_still whole.symm)) (unnamed entry member)]
    exact same id

/-! The whole batch. -/

/-- The items whose rows the entries of a batch describe. -/
def Lists (u : Tables) (provider : Int) (batch : SyncBatch) (id : Int) : Prop :=
  (∃ entry ∈ batch.albums, Names u provider [.album] (AlbumInput.item entry) id) ∨
    (∃ entry ∈ batch.artists, Names u provider [.artist] (ArtistInput.item entry) id) ∨
    (∃ entry ∈ batch.songs, Names u provider [.song] (SongInput.item entry) id) ∨
    ∃ entry ∈ batch.remoteMixes, Names u provider [.mix, .radio] (RemoteMixInput.item entry) id

theorem lists_iff {ids : EntityIds} {id : Int} (placed : Placed u provider batch ids) :
    Lists u provider batch id ↔ id ∈ ids.all := by
  have group {ι : Type} {kinds : List ItemType} {item : ι → ItemRef} {entries : List ι} {own : List Int}
      (each : List.Forall₂ (fun entry => Names u provider kinds (item entry)) entries own) :
      (∃ entry ∈ entries, Names u provider kinds (item entry) id) ↔ id ∈ own := by
    constructor
    · rintro ⟨entry, member, names⟩
      obtain ⟨other, there, also⟩ := value_of_forall₂ each member
      exact also.one names ▸ there
    · exact exists_of_forall₂ each
  rw [Lists, group placed.albums, group placed.artists, group placed.songs, group placed.remoteMixes]
  simp only [EntityIds.all, List.mem_append, or_assoc]

/-- The rows a batch leaves.  The album of a song is also set by `song_albums`, and the
count of a remote mix by its contents. -/
structure Masked (w : Writer) (batch : SyncBatch) (t u : Tables) : Prop where
  albums : Ruled albumGroup (ruledAlbum batch.options.albums) (fun _ row next => row = next) w.provider
    batch.albums t u
  artists : Ruled artistGroup (ruledArtist batch.options.artists) (fun _ row next => row = next) w.provider
    batch.artists t u
  songs : Ruled songGroup (ruledSong batch.options.songs) (fun _ row next => withoutAlbum row = withoutAlbum next)
    w.provider batch.songs t u
  songAlbums : AlbumsRuled w.provider batch.options.songs batch t u
  remoteMixes : Ruled remoteMixGroup (ruledRemoteMix batch.options.remoteMixes) (fun id row next =>
      uncountedRemote row = uncountedRemote next ∧
        ((∀ entry ∈ batch.remoteMixContents, ¬Names u w.provider [.mix, .radio] entry.mix id) → row = next))
    w.provider batch.remoteMixes t u
  dynamics : DynamicsRuled w batch.options.dynamics batch.dynamics (Lists u w.provider batch) t u

theorem created_iff {id : Int} (makes : Makes songGroup mask provider entries wrote t u)
    (there : ∃ entry ∈ entries, Names t provider [.song] entry.item id) :
    id ∈ (wrote.filter Wrote.inserted).map Wrote.id ↔ t.songs.lookup id = none := by
  obtain ⟨entry, member, names⟩ := there
  obtain ⟨own, listed, row⟩ := value_of_forall₂ makes.each member
  cases row.names.one names
  simp only [List.mem_map, List.mem_filter]
  constructor
  · rintro ⟨other, ⟨found, inserted⟩, same⟩
    obtain ⟨_, -, row⟩ := exists_of_forall₂ makes.each found
    rw [row.inserted, Option.isNone_iff_eq_none] at inserted
    exact same ▸ inserted
  · intro absent
    refine ⟨own, ⟨listed, ?_⟩, rfl⟩
    rw [row.inserted, Option.isNone_iff_eq_none]
    exact absent

theorem makes_albums {id : Int} (makes : Makes songGroup mask provider entries wrote t u) :
    (u.songs.lookup id).bind Song.albumId = (t.songs.lookup id).bind Song.albumId := by
  by_cases named : ∃ entry ∈ entries, Names t provider [.song] (SongInput.item entry) id
  · obtain ⟨entry, member, names⟩ := named
    obtain ⟨own, -, row⟩ := value_of_forall₂ makes.each member
    cases row.names.one names
    have stored : u.songs.lookup own.id = some own.row := row.stored
    rw [stored, songGroup_obeys entry _ own.row row.made]
    rfl
  · have same := makes.others id fun entry member names => named ⟨entry, member, names⟩
    exact congrArg (fun row => Option.bind row Song.albumId) same

theorem apply_masked {result : SyncResult} (applied : apply w batch t = .ok (u, result)) : Masked w batch t u := by
  obtain ⟨entered, described, last, remotes, songs, first, second, third, -, -, same⟩ := apply_iff.mp applied
  obtain ⟨rfl, -⟩ := Prod.mk.inj same
  obtain ⟨⟨_, _, _, _, shapeEnter⟩, -⟩ := enter_shape first
  obtain ⟨ids, placed, items⟩ := enter_settle first
  obtain ⟨⟨stillOne, sameDynamics⟩, ⟨madeAlbums, -⟩, ⟨madeArtists, -⟩, ⟨madeSongs, -⟩, madeRemotes, -⟩ :=
    describe_makes placed second
  obtain ⟨dynamic, images, patched, chosen, albums, songRels, contents, one, two, three, four, five, six, seven, rfl⟩ :=
    connect_iff.mp third
  have dynamics := writeDynamicRows_ruled one
  obtain ⟨_, shapeDynamic⟩ := dynamics_shape one
  obtain ⟨_, shapeImages⟩ := images_shape two
  obtain ⟨songRows, shapeSongs, alikeSongs⟩ := albums_rehoused three four
  obtain ⟨_, _, shapeAlbums⟩ := relations_shape albumArtists_lawful five
  obtain ⟨_, _, shapeArtists⟩ := relations_shape songArtists_lawful six
  obtain ⟨_, _, _, _, shapeContents⟩ := contents_shape seven
  obtain ⟨remoteIds, filled, -, toContents, remixed, -⟩ := contents_settle seven
  have toDynamic : Still described.1 dynamic := by rw [shapeDynamic]; exact ⟨rfl, rfl, rfl⟩
  have toImages : Still dynamic images.1 := by rw [shapeImages]; exact ⟨rfl, rfl, rfl⟩
  have toChosen : Still images.1 chosen.1 := by rw [shapeSongs]; exact ⟨rfl, rfl, rfl⟩
  have fromChosen : Still chosen.1 contents.1 := by
    refine Still.trans (u := songRels.1) ?_ toContents
    rw [shapeArtists, shapeAlbums]
    exact ⟨rfl, rfl, rfl⟩
  have fromDynamic : Still dynamic contents.1 := toImages.trans (toChosen.trans fromChosen)
  have still : Still entered.1 contents.1 := stillOne.trans (toDynamic.trans fromDynamic)
  have albumTable : contents.1.albums = described.1.albums := by
    rw [shapeContents, shapeArtists, shapeAlbums, shapeSongs, shapeImages, shapeDynamic]
    rfl
  have artistTable : contents.1.artists = described.1.artists := by
    rw [shapeContents, shapeArtists, shapeAlbums, shapeSongs, shapeImages, shapeDynamic]
    rfl
  have songTable : contents.1.songs = chosen.1.songs := by
    rw [shapeContents, shapeArtists, shapeAlbums]
    rfl
  have imageSongs : images.1.songs = described.1.songs := by
    rw [shapeImages, shapeDynamic]
  have remoteTable : songRels.1.remoteMixes = described.1.remoteMixes := by
    rw [shapeArtists, shapeAlbums, shapeSongs, shapeImages, shapeDynamic]
    rfl
  have dynamicTable : contents.1.dynamics = dynamic.dynamics := by
    rw [shapeContents, shapeArtists, shapeAlbums, shapeSongs, shapeImages]
    rfl
  have toPatch : Still entered.1 images.1 := stillOne.trans (toDynamic.trans toImages)
  constructor
  case albums =>
    refine Makes.ruled madeAlbums albumGroup_obeys (by rw [shapeEnter]; rfl) still fun id => ?_
    exact rel_of_eq (fun _ => rfl) (congrArg (AList.lookup id) albumTable)
  case artists =>
    refine Makes.ruled madeArtists artistGroup_obeys (by rw [shapeEnter]; rfl) still fun id => ?_
    exact rel_of_eq (fun _ => rfl) (congrArg (AList.lookup id) artistTable)
  case songs =>
    refine Makes.ruled madeSongs songGroup_obeys (by rw [shapeEnter]; rfl) still fun id => rel_of_map ?_
    have alike := alikeSongs id
    have whole : songGroup.rows contents.1 = songRows := songTable.trans (by rw [shapeSongs])
    rw [imageSongs] at alike
    rw [whole]
    exact alike
  case songAlbums =>
    refine albums_ruled (placed.songs.imp fun _ _ names => names.grow (.of_still toPatch)) placed.apart.2.2.1
      (fun entry member id names => ?_) (fun id => ?_) three four fromChosen songTable
    · have before : entered.1.songs = t.songs := by rw [shapeEnter]
      rw [created_iff madeSongs ⟨entry, member, names.grow (.of_still toPatch.symm)⟩, before]
    · have before : entered.1.songs = t.songs := by rw [shapeEnter]
      rw [imageSongs, makes_albums madeSongs, before]
  case remoteMixes =>
    refine Makes.ruled madeRemotes remoteMixGroup_obeys (by rw [shapeEnter]; rfl) still fun id => ?_
    rw [remoteTable] at remixed
    refine rel_imp (rel_of_map (remixed.alike id)) fun row next stored there alike => ⟨alike, fun apart => ?_⟩
    have outside : id ∉ remoteIds := fun member => by
      obtain ⟨entry, listed, _, _, _, held⟩ := exists_of_forall₂ filled member
      exact apart entry listed held.names
    have same := remixed.counts id outside
    exact Option.some.inj (stored.symm.trans (same.trans there))
  case dynamics =>
    refine dynamics.carry (sameDynamics.trans (by rw [shapeEnter])) dynamicTable fromDynamic fun id => ?_
    rw [lists_iff (Placed.still placed still), items]

theorem syncBatch_error {text : String} (failed : syncBatch jsonLength w batch t = (.error text, u)) : u = t := by
  simp only [syncBatch] at failed
  split at failed <;> cases failed
  rfl

theorem admit_named (admitted : batch.admit jsonLength = .ok ()) :
    ¬(Misnamed batch.options.albums albumFields ∨ Misnamed batch.options.artists artistFields ∨
      Misnamed batch.options.songs songFields ∨ Misnamed batch.options.remoteMixes remoteMixFields ∨
      Misnamed batch.options.dynamics dynamicFields) := by
  obtain ⟨_, albums, _, artists, _, songs, _, remotes, _, dynamics, -⟩ := by
    simpa only [ SyncBatch.admit, bind_ok, exists_and_left] using admitted
  have named {mask : Mask} {fields : List String} {value : Unit} (valid : mask.validate fields = .ok value) :
      ¬Misnamed mask fields := fun misnamed => by
    obtain ⟨text, refused⟩ := validate_error misnamed
    cases valid.symm.trans refused
  rintro (one | two | three | four | five)
  · exact named albums one
  · exact named artists two
  · exact named songs three
  · exact named remotes four
  · exact named dynamics five

private def markedTables : Tables :=
  { Tables.empty [1] with
    libraries := Hash.put 1 ⟨"Music", 1, "music", 0⟩ ∅
    items := Hash.put 1 ⟨"song", some 1, 1, .song, 0⟩ ∅
    songs := Hash.put 1 { songGroup.fresh with name := "Song" } ∅
    dynamics := Hash.put 1 { DynamicRow.fresh with favoriteAt := some 40 } ∅
    sequence := ⟨1, 1, 0, 0, 0, 0⟩ }

private def markedState : ProviderState :=
  { ProviderState.fresh with revision := 2, favorites := Hash.put 1 2 ∅, active := 1 }

private def runWriter : Writer := ⟨1, 50, some (1, 1), markedState, .ok (), .ok ()⟩

private def clearingEntry : DynamicInput := ⟨.id 1, none, ⟨.missing, .missing, .missing, .set none⟩, .missing⟩

private def clearingBatch : SyncBatch := { SyncBatch.none with dynamics := [clearingEntry] }

end Qcm.BatchMaskProofs
