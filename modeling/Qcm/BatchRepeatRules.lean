import Qcm.BatchRules

/-!
The phases of a batch, each run twice: what a phase that went through leaves
settled in its tables, and that the same phase goes through again where that is
so, and writes what is there already.
-/

namespace Qcm.BatchRepeatRules

open Lib SyncDatabase SyncBatch SyncCoordinator BatchTables BatchWrites BatchRules

variable {b t u x y : Tables} {provider now : Int} {kinds : List ItemType}

/-- The id a reference names. -/
def Names (t : Tables) (provider : Int) (kinds : List ItemType) (item : ItemRef) (id : Int) : Prop :=
  ∃ row, Named t provider kinds item id row

variable {id other : Int} {row : Mix} {entries : List LibraryInput} {w : Writer} {batch : SyncBatch}
  {done : Tables × Entities} {awaits : Int → Prop} {mixes : Hash Int Mix} {remotes : List (Wrote RemoteMix)}

theorem Names.one {item : ItemRef} {wanted : List ItemType} (names : Names t provider kinds item id)
    (also : Names t provider wanted item other) : other = id := by
  obtain ⟨_, named⟩ := names
  obtain ⟨_, again⟩ := also
  exact (named.unique again).1

theorem Names.grow {item : ItemRef} (names : Names t provider kinds item id) (grows : Grows t u) :
    Names u provider kinds item id := by
  obtain ⟨_, named⟩ := names
  obtain ⟨next, again, -⟩ := grows.named named
  exact ⟨next, again⟩

/-- Two maps with the same rows, up to some columns. -/
def Alike {α β γ : Type} [DecidableEq α] (blank : β → γ) (first second : Hash α β) : Prop :=
  ∀ key, (second.lookup key).map blank = (first.lookup key).map blank

theorem Alike.refl {α β γ : Type} [DecidableEq α] {blank : β → γ} {rows : Hash α β} : Alike blank rows rows :=
  fun _ => rfl

theorem Alike.trans {α β γ : Type} [DecidableEq α] {blank : β → γ} {first second third : Hash α β}
    (one : Alike blank first second) (two : Alike blank second third) : Alike blank first third :=
  fun key => (two key).trans (one key)

theorem Alike.put {α β γ : Type} [DecidableEq α] {blank : β → γ} {rows : Hash α β} {key : α} {old value : β}
    (there : rows.lookup key = some old) (same : blank value = blank old) :
    Alike blank rows (Hash.put key value rows) := by
  intro other
  rw [Hash.lookup_put]
  split
  · rename_i here
    rw [here, there, Option.map_some, Option.map_some, same]
  · rfl

/-- Two maps with the same rows. -/
def Same {α β : Type} [DecidableEq α] (first second : Hash α β) : Prop :=
  ∀ key, second.lookup key = first.lookup key

theorem Same.refl {α β : Type} [DecidableEq α] {rows : Hash α β} : Same rows rows := fun _ => rfl

/-! Libraries and items. -/

/-- A library up to the time of its last edit. -/
def bareLibrary (row : Library) : Library := { row with editTime := 0 }

/-- The tables of a batch that comes again: libraries and items are stamped, and
nothing else is written. -/
structure Touched (provider : Int) (t u : Tables) : Prop where
  entered : Entered t u
  grows : Grows t u
  libraries : Alike bareLibrary t.libraries u.libraries
  items : Alike identity t.items u.items
  titled : ∀ entry, Titled provider entry t → Titled provider entry u

theorem Touched.refl : Touched provider t t := ⟨.refl, .refl, .refl, .refl, fun _ => id⟩

theorem Touched.trans (first : Touched provider t u) (second : Touched provider u x) : Touched provider t x :=
  ⟨first.entered.trans second.entered, first.grows.trans second.grows, first.libraries.trans second.libraries,
    first.items.trans second.items, fun entry titled => second.titled entry (first.titled entry titled)⟩

theorem Touched.library {row old : Library} (there : t.libraries.lookup id = some old)
    (same : bareLibrary row = bareLibrary old) :
    Touched provider t { t with libraries := Hash.put id row t.libraries } := by
  have fields := same
  simp only [bareLibrary, Library.mk.injEq, and_true] at fields
  obtain ⟨name, owner, native⟩ := fields
  refine ⟨⟨_, t.items, t.sequence.library, t.sequence.item, rfl⟩, .of_libraries (fun other kept stored => ?_) rfl,
    .put there same, .refl, fun entry titled => ?_⟩
  · rw [Hash.lookup_put]
    split
    · rename_i here
      subst here
      rw [there] at stored
      cases stored
      exact ⟨row, rfl, owner⟩
    · exact ⟨kept, stored, rfl⟩
  · obtain ⟨place, found, hit, named⟩ := titled
    have search : Hash.find (sameLibrary provider entry.nativeId) (Hash.put id row t.libraries) =
        some (place, if place = id then row else found) := by
      rw [Hash.find_put (fun stored held => ?_) (by simp [there]), hit, Option.map_some]
      rw [there] at held
      cases held
      simp only [sameLibrary, owner, native]
    refine ⟨place, _, search, ?_⟩
    split
    · rename_i here
      subst here
      have stored := (Hash.find_some hit).1
      rw [there] at stored
      cases stored
      rw [name, named]
    · exact named

theorem Touched.item {row old : ItemRow} (there : t.items.lookup id = some old)
    (same : identity row = identity old) : Touched provider t { t with items := Hash.put id row t.items } :=
  ⟨⟨t.libraries, _, t.sequence.library, t.sequence.item, rfl⟩, .touch there same, .refl, .put there same,
    fun _ titled => titled⟩

theorem libraries_settle {after : Tables × List String × List (Int × Library)}
    (done : entries.foldlM (writeLibrary provider now) (t, [], []) = .ok after) :
    (∀ entry ∈ entries, entry.nativeId ≠ "" ∧ Titled provider entry after.1) ∧
      (entries.map LibraryInput.nativeId).Nodup := by
  have tracked := foldlM_tracks (fun past (state : Tables × List String × List (Int × Library)) =>
      (∀ entry ∈ past, entry.nativeId ≠ "" ∧ entry.nativeId ∈ state.2.1 ∧ Titled provider entry state.1) ∧
        (past.map LibraryInput.nativeId).Nodup)
    (R := fun _ _ => True) done (List.pairwise_of_forall fun _ _ => trivial) (by simp) ?_
  · exact ⟨fun entry member => ⟨(tracked.1 entry member).1, (tracked.1 entry member).2.2⟩, tracked.2⟩
  · rintro entry - past before after - ⟨each, distinct⟩ turned
    obtain ⟨proper, new, seen, -, -, titled, others⟩ := writeLibrary_ok turned
    refine ⟨fun other member => ?_, ?_⟩
    · rcases List.mem_append.mp member with old | own
      · obtain ⟨named, met, held⟩ := each other old
        have apart : other.nativeId ≠ entry.nativeId := fun same => new (same ▸ met)
        exact ⟨named, by simp [seen, met], others other apart held⟩
      · cases List.mem_singleton.mp own
        exact ⟨proper, by simp [seen], titled⟩
    · rw [List.map_append, List.nodup_append]
      refine ⟨distinct, List.nodup_singleton _, fun native old other own => ?_⟩
      obtain ⟨held, member, rfl⟩ := List.mem_map.mp old
      rw [List.map_singleton, List.mem_singleton] at own
      exact fun same => new (own ▸ same ▸ (each held member).2.1)

theorem libraries_again (now : Int) (touched : Touched provider b x)
    (each : ∀ entry ∈ entries, entry.nativeId ≠ "" ∧ Titled provider entry b)
    (distinct : (entries.map LibraryInput.nativeId).Nodup) :
    ∃ after, entries.foldlM (writeLibrary provider now) (x, [], []) = .ok after ∧ Touched provider b after.1 := by
  have apart : entries.Pairwise fun entry other => entry.nativeId ≠ other.nativeId := by
    rw [List.Nodup, List.pairwise_map] at distinct
    exact distinct
  have goes : ∃ last, entries.foldlM (writeLibrary provider now) (x, [], []) = .ok last ∧
      (Touched provider b last.1 ∧
        ∀ native ∈ last.2.1, ∃ other ∈ entries, LibraryInput.nativeId other = native) := by
    refine foldlM_goes (fun past (state : Tables × List String × List (Int × Library)) =>
      Touched provider b state.1 ∧ ∀ native ∈ state.2.1, ∃ other ∈ past, LibraryInput.nativeId other = native)
      apart ⟨touched, by simp⟩ ?_
    rintro entry member past ⟨t, seen, written⟩ ahead ⟨held, met⟩
    obtain ⟨proper, titled⟩ := each entry member
    obtain ⟨id, old, found, named⟩ := held.titled entry titled
    have new : entry.nativeId ∉ seen := fun there => by
      obtain ⟨other, earlier, same⟩ := met _ there
      exact ahead other earlier same
    have turned : writeLibrary provider now (t, seen, written) entry =
        .ok ({ t with libraries := Hash.put id { old with name := entry.name, editTime := now } t.libraries },
          entry.nativeId :: seen, written ++ [(id, { old with name := entry.name, editTime := now })]) := by
      simp [writeLibrary, proper, new, found, pure, Except.pure]
    refine ⟨_, turned, held.trans (.library (Hash.find_some found).1 ?_), fun native there => ?_⟩
    · simp only [bareLibrary, named]
    · rcases List.mem_cons.mp there with rfl | there
      · exact ⟨entry, by simp, rfl⟩
      · obtain ⟨other, earlier, same⟩ := met native there
        exact ⟨other, by simp [earlier], same⟩
  obtain ⟨last, gone, kept, -⟩ := goes
  exact ⟨last, gone, kept⟩

theorem allocated_settle {entries : List ItemRef} {before after : Tables × List (Int × ItemRow)}
    (distinct : (before.2.map Prod.fst).Nodup)
    (done : entries.foldlM (allocateEntry provider now kinds) before = .ok after) :
    ∃ ids, List.Forall₂ (Names after.1 provider kinds) entries ids ∧
      after.2.map Prod.fst = before.2.map Prod.fst ++ ids ∧ (after.2.map Prod.fst).Nodup := by
  have tracked := foldlM_tracks (fun past (state : Tables × List (Int × ItemRow)) =>
      (state.2.map Prod.fst).Nodup ∧ ∃ ids, List.Forall₂ (Names state.1 provider kinds) past ids ∧
        state.2.map Prod.fst = before.2.map Prod.fst ++ ids)
    (R := fun _ _ => True) done (List.pairwise_of_forall fun _ _ => trivial) ⟨distinct, [], .nil, by simp⟩ ?_
  · obtain ⟨nodup, ids, names, same⟩ := tracked
    exact ⟨ids, names, same, nodup⟩
  · rintro entry - past before' after - ⟨nodup, ids, names, same⟩ turned
    obtain ⟨id, row, ⟨-, -, grows⟩, named, new, shape⟩ := allocateEntry_ok turned
    refine ⟨?_, ids ++ [id], ?_, by simp [shape, same]⟩
    · rw [shape, List.map_append, List.nodup_append]
      refine ⟨nodup, List.nodup_singleton _, fun old member other own => ?_⟩
      rw [List.map_singleton, List.mem_singleton] at own
      subst own
      exact fun same => new (same ▸ member)
    · exact List.rel_append (names.imp fun _ _ name => name.grow grows) (.cons ⟨row, named⟩ .nil)

theorem allocate_again (now : Int) {item : ItemRef} (names : Names b provider kinds item id)
    (some_kind : kinds ≠ []) (touched : Touched provider b x) :
    ∃ next row, allocate provider now kinds x item = .ok (next, id, row) ∧ Touched provider b next := by
  obtain ⟨row, named⟩ := names.grow touched.grows
  cases item with
  | id given =>
    refine ⟨x, row, ?_, touched⟩
    simp only [allocate]
    exact bind_ok.mpr ⟨_, resolve_iff.mpr named, rfl⟩
  | key key =>
    obtain ⟨typed, own, library, shelf, found⟩ := named.by_key key rfl
    have sort : ¬key.kind ∉ kinds := not_not.mpr (typed.resolve_left some_kind)
    have given : (key.id.any (· ≠ id)) = false := by
      cases held : key.id with
      | none => rfl
      | some other =>
        rw [held] at own
        simpa using own
    refine ⟨{ x with items := Hash.put id { row with lastSyncAt := now } x.items },
      { row with lastSyncAt := now }, ?_, touched.trans (.item named.stored rfl)⟩
    simp only [allocate]
    refine bind_ok.mpr ⟨some library, shelf, ?_⟩
    dsimp only
    rw [if_neg sort, found]
    dsimp only
    rw [given]
    rfl

theorem allocated_again (now : Int) {entries : List ItemRef} {ids : List Int}
    (before : Tables × List (Int × ItemRow)) (names : List.Forall₂ (Names b provider kinds) entries ids) (some_kind : kinds ≠ [])
    (distinct : (before.2.map Prod.fst ++ ids).Nodup) (touched : Touched provider b before.1) :
    ∃ after, entries.foldlM (allocateEntry provider now kinds) before = .ok after ∧ Touched provider b after.1 ∧
      after.2.map Prod.fst = before.2.map Prod.fst ++ ids := by
  induction names generalizing before with
  | nil => exact ⟨before, rfl, touched, by simp⟩
  | @cons entry id entries ids named others ih =>
    obtain ⟨next, row, allocated, kept⟩ := allocate_again now named some_kind touched
    have new : id ∉ before.2.map Prod.fst := fun member =>
      (List.nodup_append.mp distinct).2.2 id member id (by simp) rfl
    have turned : allocateEntry provider now kinds before entry = .ok (next, before.2 ++ [(id, row)]) := by
      simp only [allocateEntry]
      exact bind_ok.mpr ⟨_, allocated, unless_iff.mpr ⟨new, rfl⟩⟩
    obtain ⟨after, gone, last, same⟩ := ih (next, before.2 ++ [(id, row)]) (by simpa using distinct) kept
    refine ⟨after, ?_, last, by simpa using same⟩
    rw [List.foldlM_cons, turned]
    exact gone

/-- The ids of a batch's entities, group by group. -/
structure EntityIds where
  albums : List Int
  artists : List Int
  songs : List Int
  remoteMixes : List Int

def EntityIds.all (ids : EntityIds) : List Int := ids.albums ++ ids.artists ++ ids.songs ++ ids.remoteMixes

/-- The identities of a batch are there. -/
structure Placed (t : Tables) (provider : Int) (batch : SyncBatch) (ids : EntityIds) : Prop where
  libraries : ∀ entry ∈ batch.libraries, entry.nativeId ≠ "" ∧ Titled provider entry t
  shelves : (batch.libraries.map LibraryInput.nativeId).Nodup
  albums : List.Forall₂ (fun entry => Names t provider [.album] (AlbumInput.item entry)) batch.albums ids.albums
  artists : List.Forall₂ (fun entry => Names t provider [.artist] (ArtistInput.item entry)) batch.artists ids.artists
  songs : List.Forall₂ (fun entry => Names t provider [.song] (SongInput.item entry)) batch.songs ids.songs
  remoteMixes : List.Forall₂ (fun entry => Names t provider [.mix, .radio] (RemoteMixInput.item entry))
    batch.remoteMixes ids.remoteMixes
  distinct : ids.all.Nodup

variable {ids : EntityIds}

theorem enter_settle {done : Tables × List (Int × Library) × List (Int × ItemRow)}
    (entered : enter w batch t = .ok done) :
    ∃ ids, Placed done.1 w.provider batch ids ∧ done.2.2.map Prod.fst = ids.all := by
  obtain ⟨shelved, albums, artists, songs, remotes, first, second, third, fourth, fifth, rfl⟩ :=
    enter_iff.mp entered
  obtain ⟨libraries, shelves⟩ := libraries_settle first
  obtain ⟨as, one, sameOne, nodupOne⟩ := allocated_settle (by simp) second
  obtain ⟨rs, two, sameTwo, nodupTwo⟩ := allocated_settle nodupOne third
  obtain ⟨ss, three, sameThree, nodupThree⟩ := allocated_settle nodupTwo fourth
  obtain ⟨ms, four, sameFour, nodupFour⟩ := allocated_settle nodupThree fifth
  obtain ⟨-, shelfFour, toLast⟩ := allocated_shape fifth
  obtain ⟨-, shelfThree, growsThree⟩ := allocated_shape fourth
  obtain ⟨-, shelfTwo, growsTwo⟩ := allocated_shape third
  have toSongs := growsThree.trans toLast
  have toArtists := growsTwo.trans toSongs
  have shelf : remotes.1.libraries = shelved.1.libraries :=
    shelfFour.trans (shelfThree.trans (shelfTwo.trans (allocated_shape second).2.1))
  have kept : ∀ entry, Titled w.provider entry shelved.1 → Titled w.provider entry remotes.1 := fun entry titled => by
    rw [Titled, shelf]
    exact titled
  refine ⟨⟨as, rs, ss, ms⟩, ⟨fun entry member => ⟨(libraries entry member).1, kept entry (libraries entry member).2⟩,
    shelves, ?_, ?_, ?_, ?_, ?_⟩, ?_⟩
  · exact (List.forall₂_map_left_iff.mp one).imp fun _ _ name => name.grow toArtists
  · exact (List.forall₂_map_left_iff.mp two).imp fun _ _ name => name.grow toSongs
  · exact (List.forall₂_map_left_iff.mp three).imp fun _ _ name => name.grow toLast
  · exact List.forall₂_map_left_iff.mp four
  · rw [sameFour, sameThree, sameTwo, sameOne] at nodupFour
    simpa [EntityIds.all] using nodupFour
  · rw [sameFour, sameThree, sameTwo, sameOne]
    simp [EntityIds.all]

theorem Placed.apart (placed : Placed t provider batch ids) :
    ids.albums.Nodup ∧ ids.artists.Nodup ∧ ids.songs.Nodup ∧ ids.remoteMixes.Nodup := by
  have distinct := placed.distinct
  simp only [EntityIds.all] at distinct
  obtain ⟨three, remotes, -⟩ := List.nodup_append.mp distinct
  obtain ⟨two, songs, -⟩ := List.nodup_append.mp three
  obtain ⟨albums, artists, -⟩ := List.nodup_append.mp two
  exact ⟨albums, artists, songs, remotes⟩

theorem enter_again (placed : Placed t w.provider batch ids) :
    ∃ done, enter w batch t = .ok done ∧ Touched w.provider t done.1 ∧ done.2.2.map Prod.fst = ids.all := by
  obtain ⟨shelved, first, touched⟩ := libraries_again w.now .refl placed.libraries placed.shelves
  have distinct := placed.distinct
  simp only [EntityIds.all] at distinct
  obtain ⟨distinctThree, -, -⟩ := List.nodup_append.mp distinct
  obtain ⟨distinctTwo, -, -⟩ := List.nodup_append.mp distinctThree
  obtain ⟨distinctOne, -, -⟩ := List.nodup_append.mp distinctTwo
  obtain ⟨albums, second, one, sameOne⟩ := allocated_again w.now (shelved.1, [])
    (List.forall₂_map_left_iff.mpr placed.albums) (by simp) (by simpa using distinctOne) touched
  obtain ⟨artists, third, two, sameTwo⟩ := allocated_again w.now albums
    (List.forall₂_map_left_iff.mpr placed.artists) (by simp) (by simpa [sameOne] using distinctTwo) one
  obtain ⟨songs, fourth, three, sameThree⟩ := allocated_again w.now artists
    (List.forall₂_map_left_iff.mpr placed.songs) (by simp) (by simpa [sameTwo, sameOne] using distinctThree) two
  obtain ⟨remotes, fifth, four, sameFour⟩ := allocated_again w.now songs
    (List.forall₂_map_left_iff.mpr placed.remoteMixes) (by simp)
    (by simpa [sameThree, sameTwo, sameOne] using distinct) three
  refine ⟨_, enter_iff.mpr ⟨shelved, albums, artists, songs, remotes, first, second, third, fourth, fifth, rfl⟩,
    four, ?_⟩
  rw [sameFour, sameThree, sameTwo, sameOne]
  simp [EntityIds.all]

/-! The rows of the entities. -/

theorem over_over {α : Type} (patch : Patch α) (value : α) : patch.over (patch.over value) = patch.over value := by
  cases patch <;> rfl

@[simp] theorem patchField_again {α : Type} (inserted allowed : Bool) (onInsert patch : Patch α) (value : α) :
    patchField false allowed onInsert patch (patchField inserted allowed onInsert patch value) =
      patchField inserted allowed onInsert patch value := by
  cases inserted <;> cases allowed <;> simp [patchField, over_over]

section Entities

variable {ι ρ : Type} {group : Group ι ρ} {mask : Mask}

/-- What an entry has written it writes again. -/
def Settles (group : Group ι ρ) : Prop :=
  ∀ entry model inserted mask row, group.apply entry model inserted mask = .ok row →
    group.apply entry row false mask = .ok row

variable {entries : List ι}

theorem groups_settle :
    Settles albumGroup ∧ Settles artistGroup ∧ Settles songGroup ∧ Settles remoteMixGroup := by
  refine ⟨?_, ?_, ?_, ?_⟩ <;>
  · intro entry model inserted mask row applied
    obtain ⟨_, valid, rest⟩ := bind_ok.mp applied
    cases pure_ok.mp rest
    exact bind_ok.mpr ⟨_, valid, by simp [pure, Except.pure]⟩

/-- The row a group makes for an entry, of the one that was there or a fresh one. -/
structure Made (group : Group ι ρ) (mask : Mask) (named : Tables) (provider : Int) (before : Tables) (rows : Hash Int ρ)
    (entry : ι) (wrote : Wrote ρ) : Prop where
  names : Names named provider group.kinds (group.item entry) wrote.id
  stored : rows.lookup wrote.id = some wrote.row
  made : group.apply entry (((group.rows before).lookup wrote.id).getD group.fresh)
    ((group.rows before).lookup wrote.id).isNone mask = .ok wrote.row
  proper : group.name wrote.row ≠ ""
  inserted : wrote.inserted = ((group.rows before).lookup wrote.id).isNone

theorem writeEntities_makes {ids : List Int} {after : Tables × List (Wrote ρ)} (lawful : Group.Lawful group)
    (distinct : ids.Nodup)
    (names : List.Forall₂ (fun entry => Names t provider group.kinds (group.item entry)) entries ids)
    (done : writeEntities group provider mask entries t = .ok after) :
    List.Forall₂ (Made group mask t provider t (group.rows after.1)) entries after.2 ∧ after.2.map Wrote.id = ids ∧
      ∀ id, (∀ entry ∈ entries, ¬Names t provider group.kinds (group.item entry) id) →
        (group.rows after.1).lookup id = (group.rows t).lookup id := by
  have apart := pairwise_of_forall₂ names distinct fun _ _ _ one other => other.one one
  have tracked := foldlM_tracks (fun past (state : Tables × List (Wrote ρ)) =>
      (∃ rows, state.1 = group.update t rows) ∧
        List.Forall₂ (Made group mask t provider t (group.rows state.1)) past state.2 ∧
        ∀ id, (∀ entry ∈ past, ¬Names t provider group.kinds (group.item entry) id) →
          (group.rows state.1).lookup id = (group.rows t).lookup id)
    done apart ⟨⟨_, (lawful.update_rows t).symm⟩, .nil, fun _ _ => rfl⟩ ?_
  · exact ⟨tracked.2.1, map_of_forall₂ names tracked.2.1 fun _ _ _ one row => one.one row.names, tracked.2.2⟩
  · rintro entry member past before after ahead ⟨⟨rows, shape⟩, each, others⟩ turned
    obtain ⟨id, item, row, named, applied, proper, rfl⟩ := writeEntity_iff.mp turned
    have here : Names t provider group.kinds (group.item entry) id :=
      ⟨item, Still.named (shape ▸ (lawful.still t rows)).symm named⟩
    have new : ∀ other ∈ past, ¬Names t provider group.kinds (group.item other) id :=
      fun other earlier there => ahead other earlier id there here
    have was := others id new
    refine ⟨⟨_, by rw [shape, lawful.update_update]⟩, ?_, fun other apart => ?_⟩
    · rw [lawful.rows_update]
      refine List.rel_append (forall₂_imp_mem each fun other earlier wrote row => ?_) (.cons ⟨here, ?_, ?_, proper, ?_⟩ .nil)
      · have kept : wrote.id ≠ id := fun same => new other earlier (same ▸ row.names)
        exact ⟨row.names, by rw [Hash.lookup_put, if_neg kept]; exact row.stored, row.made, row.proper,
          row.inserted⟩
      · rw [Hash.lookup_put, if_pos rfl]
      · exact was ▸ applied
      · rw [was]
    · have kept : other ≠ id := fun same => apart entry (by simp) (same ▸ here)
      rw [lawful.rows_update, Hash.lookup_put, if_neg kept]
      exact others other fun held earlier => apart held (by simp [earlier])

/-- The rows a group makes for its entries, from `t` to `u`. -/
structure Makes (group : Group ι ρ) (mask : Mask) (provider : Int) (entries : List ι) (wrote : List (Wrote ρ))
    (t u : Tables) : Prop where
  each : List.Forall₂ (Made group mask t provider t (group.rows u)) entries wrote
  others : ∀ id, (∀ entry ∈ entries, ¬Names t provider group.kinds (group.item entry) id) →
    (group.rows u).lookup id = (group.rows t).lookup id

theorem Makes.widen {wrote : List (Wrote ρ)} (makes : Makes group mask provider entries wrote t u)
    (still : Still b t) (first : group.rows t = group.rows b) (last : group.rows x = group.rows u) :
    Makes group mask provider entries wrote b x where
  each := makes.each.imp fun _ _ row => ⟨row.names.grow (.of_still still.symm), last ▸ row.stored,
    first ▸ row.made, row.proper, first ▸ row.inserted⟩
  others id apart := by
    rw [last, makes.others id fun entry member names => apart entry member (names.grow (.of_still still.symm)), first]

/-- The row an entry writes when it comes again, over the one it finds. -/
structure Again (group : Group ι ρ) (named : Tables) (provider : Int) (Fine : Int → ρ → ρ → Prop)
    (before rows : Hash Int ρ) (entry : ι) (wrote : Wrote ρ) : Prop where
  names : Names named provider group.kinds (group.item entry) wrote.id
  old : wrote.inserted = false
  fine : ∃ row, before.lookup wrote.id = some row ∧ Fine wrote.id row wrote.row
  stored : rows.lookup wrote.id = some wrote.row

theorem writeEntities_again (Fine : Int → ρ → ρ → Prop) (lawful : Group.Lawful group)
    (apart : entries.Pairwise fun entry other => ∀ id, Names b provider group.kinds (group.item entry) id →
      ¬Names b provider group.kinds (group.item other) id)
    (grows : Grows b x)
    (each : ∀ entry ∈ entries, ∃ id row next, Names b provider group.kinds (group.item entry) id ∧
      (group.rows x).lookup id = some row ∧ group.apply entry row false mask = .ok next ∧ group.name next ≠ "" ∧
      Fine id row next) :
    ∃ after, writeEntities group provider mask entries x = .ok after ∧
      List.Forall₂ (Again group b provider Fine (group.rows x) (group.rows after.1)) entries after.2 ∧
      ∃ rows, after.1 = group.update x rows ∧ ∀ id, rows.lookup id = (group.rows x).lookup id ∨
        ∃ row next, (group.rows x).lookup id = some row ∧ rows.lookup id = some next ∧ Fine id row next := by
  have goes : ∃ after, writeEntities group provider mask entries x = .ok after ∧
      (List.Forall₂ (Again group b provider Fine (group.rows x) (group.rows after.1)) entries after.2 ∧
      (∃ rows, after.1 = group.update x rows) ∧ ∀ id,
        ((∀ entry ∈ entries, ¬Names b provider group.kinds (group.item entry) id) →
          (group.rows after.1).lookup id = (group.rows x).lookup id)) := by
    refine foldlM_goes (fun past (state : Tables × List (Wrote ρ)) =>
      List.Forall₂ (Again group b provider Fine (group.rows x) (group.rows state.1)) past state.2 ∧
      (∃ rows, state.1 = group.update x rows) ∧ ∀ id,
        ((∀ entry ∈ past, ¬Names b provider group.kinds (group.item entry) id) →
          (group.rows state.1).lookup id = (group.rows x).lookup id)) apart
      ⟨.nil, ⟨_, (lawful.update_rows x).symm⟩, fun _ _ => rfl⟩ ?_
    rintro entry member past ⟨y, wrote⟩ ahead ⟨written, ⟨rows, rfl⟩, others⟩
    obtain ⟨id, row, next, names, stored, applied, proper, fine⟩ := each entry member
    obtain ⟨item, named⟩ := names.grow grows
    have new : ∀ other ∈ past, ¬Names b provider group.kinds (group.item other) id :=
      fun other earlier there => ahead other earlier id there names
    have found := (others id new).trans stored
    have here : Named (group.update x rows) provider group.kinds (group.item entry) id item :=
      Still.named (lawful.still x rows) named
    dsimp only at found
    refine ⟨_, writeEntity_iff.mpr ⟨id, item, next, here, by rw [found]; exact applied, proper, rfl⟩, ?_,
      ⟨_, lawful.update_update ..⟩, fun other apart => ?_⟩
    · rw [lawful.rows_update]
      refine List.rel_append (forall₂_imp_mem written fun other earlier wrote again => ?_)
        (.cons ⟨names, ?_, ⟨row, stored, fine⟩, ?_⟩ .nil)
      · have kept : wrote.id ≠ id := fun same => new other earlier (same ▸ again.names)
        exact ⟨again.names, again.old, again.fine, by rw [Hash.lookup_put, if_neg kept]; exact again.stored⟩
      · simp [found]
      · rw [Hash.lookup_put, if_pos rfl]
    · have kept : other ≠ id := fun same => apart entry (by simp) (same ▸ names)
      rw [lawful.rows_update, Hash.lookup_put, if_neg kept]
      exact others other fun held earlier => apart held (by simp [earlier])
  obtain ⟨after, gone, written, ⟨rows, shape⟩, others⟩ := goes
  refine ⟨after, gone, written, rows, shape, fun id => ?_⟩
  have reads : group.rows after.1 = rows := by rw [shape, lawful.rows_update]
  rw [reads] at others written
  by_cases named : ∀ entry ∈ entries, ¬Names b provider group.kinds (group.item entry) id
  · exact .inl (others id named)
  · push Not at named
    obtain ⟨entry, member, names⟩ := named
    obtain ⟨wrote, -, again⟩ := value_of_forall₂ written member
    obtain ⟨row, stored, fine⟩ := again.fine
    cases names.one again.names
    exact .inr ⟨row, wrote.row, stored, again.stored, fine⟩

end Entities

/-! The cache mixes of the written remote mixes. -/

theorem ofRemote_iff {remote : Int} : ofRemote remote id row = true ↔ row.remoteId = some remote := by
  simp [ofRemote]

/-- A mix up to its count. -/
def uncounted (row : Mix) : Mix := { row with trackCount := 0 }

/-- A remote mix up to its count. -/
def uncountedRemote (row : RemoteMix) : RemoteMix := { row with trackCount := 0 }

/-- The same mixes in the same places, up to the counts of those that the remote
mixes have which `awaits` tells. -/
structure Mixed (awaits : Int → Prop) (first second : Hash Int Mix) : Prop where
  alike : Alike uncounted first second
  found : ∀ remote id row, Hash.find (ofRemote remote) first = some (id, row) →
    ∃ next, Hash.find (ofRemote remote) second = some (id, next) ∧ uncounted next = uncounted row
  counts : ∀ id row next, first.lookup id = some row → second.lookup id = some next →
    (∀ remote, Hash.find (ofRemote remote) first = some (id, row) → ¬awaits remote) → next = row

theorem Mixed.refl : Mixed awaits mixes mixes where
  alike := .refl
  found _ id row there := ⟨row, there, rfl⟩
  counts id row next there also _ := by
    rw [there] at also
    exact (Option.some.inj also).symm

theorem uncounted_remote {next : Mix} (same : uncounted next = uncounted row) : next.remoteId = row.remoteId := by
  have remotes := congrArg Mix.remoteId same
  exact remotes

theorem find_other {remote place : Int} {found : Mix} (own : row.remoteId = some remote)
    (was : ∀ old, mixes.lookup id = some old → old.remoteId = some remote) (apart : other ≠ remote)
    (there : Hash.find (ofRemote other) mixes = some (place, found)) :
    Hash.find (ofRemote other) (Hash.put id row mixes) = some (place, found) := by
  have misses : ∀ row : Mix, row.remoteId = some remote → ofRemote other id row = false := fun row own => by
    simpa [ofRemote, own] using fun same => apart same.symm
  rw [Hash.find_put (fun old stored => (misses row own).trans (misses old (was old stored)).symm)
    (fun _ => misses row own), there, Option.map_some, if_neg]
  rintro rfl
  obtain ⟨stored, hit⟩ := Hash.find_some there
  rw [misses found (was found stored)] at hit
  cases hit

/-- The mix of a written remote mix. -/
def Cached (t : Tables) (remote : Wrote RemoteMix) : Prop :=
  0 ≤ remote.row.trackCount ∧ ∃ id mix, Hash.find (ofRemote remote.id) t.mixes = some (id, mix) ∧
    mix.name = remote.row.name ∧ mix.description = remote.row.description.getD "" ∧
    mix.trackCount = remote.row.trackCount

theorem writeMixes_settle (distinct : (remotes.map Wrote.id).Nodup)
    (done : remotes.foldlM writeMix t = .ok u) : ∀ remote ∈ remotes, Cached u remote := by
  have apart : remotes.Pairwise fun remote other => remote.id ≠ other.id := by
    rw [List.Nodup, List.pairwise_map] at distinct
    exact distinct
  refine foldlM_tracks (fun past u => ∀ remote ∈ past, Cached u remote) done apart (by simp) ?_
  intro remote _ past before after ahead each turned
  simp only [writeMix] at turned
  split at turned
  · cases turned
  rename_i sized
  have positive : 0 ≤ remote.row.trackCount := by omega
  have others (id : Int) (row : Mix) (own : row.remoteId = some remote.id)
      (was : ∀ old, before.mixes.lookup id = some old → old.remoteId = some remote.id) :
      ∀ other ∈ past, Cached { before with mixes := Hash.put id row before.mixes } other := by
    intro other earlier
    obtain ⟨counted, place, mix, found, fields⟩ := each other earlier
    exact ⟨counted, place, mix, find_other own was (ahead other earlier) found, fields⟩
  split at turned
  · rename_i id old found
    cases turned
    obtain ⟨stored, hit⟩ := Hash.find_some found
    have was : old.remoteId = some remote.id := ofRemote_iff.mp hit
    intro other member
    rcases List.mem_append.mp member with earlier | here
    · refine others id _ (by exact was) (fun row there => ?_) other earlier
      rw [stored] at there
      cases there
      exact was
    · cases List.mem_singleton.mp here
      exact ⟨positive, id, _, Hash.find_put_found found (ofRemote_iff.mpr was), rfl, rfl, rfl⟩
  · rename_i none
    cases turned
    have fresh : before.mixes.lookup (nextId before.sequence.mix before.mixes) = Option.none := nextId_fresh
    intro other member
    rcases List.mem_append.mp member with earlier | here
    · exact others _ _ rfl (fun row there => by rw [fresh] at there; cases there) other earlier
    · cases List.mem_singleton.mp here
      exact ⟨positive, _, _, Hash.find_put_new fresh (ofRemote_iff.mpr rfl), rfl, rfl, rfl⟩

theorem Mixed.put {first second : Hash Int Mix} {value : Mix} (mixed : Mixed awaits first second)
    (there : first.lookup id = some row) (same : uncounted value = uncounted row)
    (count : (∀ remote, Hash.find (ofRemote remote) first = some (id, row) → ¬awaits remote) → value = row) :
    Mixed awaits first (Hash.put id value second) := by
  obtain ⟨current, stored, alike⟩ : ∃ current, second.lookup id = some current ∧ uncounted current = uncounted row := by
    have kept := mixed.alike id
    rw [there] at kept
    exact Option.map_eq_some_iff.mp kept
  have swap : uncounted value = uncounted current := same.trans alike.symm
  refine ⟨mixed.alike.trans (.put stored swap), fun remote place old found => ?_, fun other old next was now kept => ?_⟩
  · obtain ⟨next, hit, near⟩ := mixed.found remote place old found
    have tests : ∀ held, second.lookup id = some held → ofRemote remote id value = ofRemote remote id held := by
      intro held here
      rw [stored] at here
      cases here
      simp only [ofRemote, uncounted_remote swap]
    rw [Hash.find_put tests (by simp [stored]), hit, Option.map_some]
    split
    · rename_i here
      cases here
      have held := (Hash.find_some hit).1
      rw [stored] at held
      cases held
      exact ⟨value, rfl, swap.trans near⟩
    · exact ⟨next, rfl, near⟩
  · rw [Hash.lookup_put] at now
    split at now
    · rename_i here
      subst here
      cases now
      rw [there] at was
      cases was
      exact count kept
    · exact mixed.counts other old next was now kept

/-- A remote mix that comes again to the mix it has. -/
def Recached (awaits : Int → Prop) (mixes : Hash Int Mix) (id : Int) (row : RemoteMix) : Prop :=
  0 ≤ row.trackCount ∧ ∃ place mix, Hash.find (ofRemote id) mixes = some (place, mix) ∧ mix.name = row.name ∧
    mix.description = row.description.getD "" ∧ (¬awaits id → mix.trackCount = row.trackCount)

theorem writeMixes_again (mixed : Mixed awaits mixes x.mixes)
    (each : ∀ remote ∈ remotes, Recached awaits mixes remote.id remote.row) :
    ∃ after, remotes.foldlM writeMix x = .ok after ∧
      ∃ rows, after = { x with mixes := rows } ∧ Mixed awaits mixes rows := by
  refine foldlM_goes (fun _ (state : Tables) => ∃ rows, state = { x with mixes := rows } ∧ Mixed awaits mixes rows)
    (R := fun _ _ => True) (List.pairwise_of_forall fun _ _ => trivial) ⟨x.mixes, rfl, mixed⟩ ?_
  rintro remote member - - - ⟨rows, rfl, held⟩
  obtain ⟨sized, place, mix, found, name, description, count⟩ := each remote member
  obtain ⟨current, hit, near⟩ := held.found remote.id place mix found
  obtain ⟨stored, -⟩ := Hash.find_some found
  have turned : writeMix { x with mixes := rows } remote = .ok { x with
      mixes := Hash.put place
        ⟨remote.row.name, remote.row.trackCount, current.mixType, current.sortName,
          remote.row.description.getD "", current.remoteId⟩ rows } := by
    simp only [writeMix, hit]
    rw [if_neg (by omega)]
  refine ⟨_, turned, _, rfl, held.put stored ?_ fun kept => ?_⟩
  · simp only [uncounted, Mix.mk.injEq] at near ⊢
    simp [near, name, description]
  · simp only [uncounted, Mix.mk.injEq] at near
    simp only [← name, ← description, ← count (kept remote.id found), near]

/-! The rows of a batch, all together. -/

/-- A song up to its album. -/
def withoutAlbum (row : Song) : Song := { row with albumId := none }

theorem songApply_withAlbum {entry : SongInput} {model : Song} {inserted : Bool} {mask : Mask} (album : Option Int)
    {row : Song} (applied : SongInput.apply entry model inserted mask = .ok row) :
    SongInput.apply entry { model with albumId := album } inserted mask = .ok { row with albumId := album } := by
  obtain ⟨_, valid, rest⟩ := bind_ok.mp applied
  cases pure_ok.mp rest
  exact bind_ok.mpr ⟨_, valid, rfl⟩

/-- How a remote mix is written when it comes again: as it is, where its contents do
not come with it, and else up to its count. -/
def Remade (awaits : Int → Prop) (mixes : Hash Int Mix) (id : Int) (row next : RemoteMix) : Prop :=
  uncountedRemote next = uncountedRemote row ∧ (¬awaits id → next = row) ∧
    Recached awaits mixes id next

/-- The rows of a batch's entities are there as the batch has them.  `awaits` tells
the remote mixes whose contents come with them. -/
structure Described (t : Tables) (provider : Int) (batch : SyncBatch) (awaits : Int → Prop) : Prop where
  albums : ∀ entry ∈ batch.albums, ∃ id row, Names t provider [.album] entry.item id ∧
    t.albums.lookup id = some row ∧ AlbumInput.apply entry row false batch.options.albums = .ok row ∧
    row.name ≠ "" ∧ checkAlbum row = .ok ()
  artists : ∀ entry ∈ batch.artists, ∃ id row, Names t provider [.artist] entry.item id ∧
    t.artists.lookup id = some row ∧ ArtistInput.apply entry row false batch.options.artists = .ok row ∧
    row.name ≠ "" ∧ checkArtist row = .ok ()
  songs : ∀ entry ∈ batch.songs, ∃ id row, Names t provider [.song] entry.item id ∧
    t.songs.lookup id = some row ∧ SongInput.apply entry row false batch.options.songs = .ok row ∧
    row.name ≠ "" ∧ checkSong row = .ok ()
  remoteMixes : ∀ entry ∈ batch.remoteMixes, ∃ id row next, Names t provider [.mix, .radio] entry.item id ∧
    t.remoteMixes.lookup id = some row ∧
    RemoteMixInput.apply entry row false batch.options.remoteMixes = .ok next ∧ next.name ≠ "" ∧
    Remade awaits t.mixes id row next

/-- The rows of a batch's entities, as they are made from those that were there. -/
theorem describe_makes (placed : Placed t w.provider batch ids) (described : describe w batch t = .ok done) :
    (Still t done.1 ∧ done.1.dynamics = t.dynamics) ∧
      (Makes albumGroup batch.options.albums w.provider batch.albums done.2.albums t done.1 ∧
        ∀ wrote ∈ done.2.albums, checkAlbum wrote.row = .ok ()) ∧
      (Makes artistGroup batch.options.artists w.provider batch.artists done.2.artists t done.1 ∧
        ∀ wrote ∈ done.2.artists, checkArtist wrote.row = .ok ()) ∧
      (Makes songGroup batch.options.songs w.provider batch.songs done.2.songs t done.1 ∧
        ∀ wrote ∈ done.2.songs, checkSong wrote.row = .ok ()) ∧
      Makes remoteMixGroup batch.options.remoteMixes w.provider batch.remoteMixes done.2.remoteMixes t done.1 ∧
        ∀ remote ∈ done.2.remoteMixes, Cached done.1 remote := by
  obtain ⟨albums, artists, songs, remotes, last, first, second, third, fourth, one, two, three, mixes, rfl⟩ :=
    describe_iff.mp described
  obtain ⟨distinctAlbums, distinctArtists, distinctSongs, distinctRemotes⟩ := placed.apart
  obtain ⟨albumRows, shapeOne⟩ := writeEntities_shape albumGroup_lawful first
  obtain ⟨artistRows, shapeTwo⟩ := writeEntities_shape artistGroup_lawful second
  obtain ⟨songRows, shapeThree⟩ := writeEntities_shape songGroup_lawful third
  obtain ⟨remoteRows, shapeFour⟩ := writeEntities_shape remoteMixGroup_lawful fourth
  obtain ⟨mixRows, lastMix, shapeFive⟩ := writeMix_shape mixes
  have stillOne : Still t albums.1 := shapeOne ▸ albumGroup_lawful.still ..
  have stillTwo : Still t artists.1 := stillOne.trans (shapeTwo ▸ artistGroup_lawful.still ..)
  have stillThree : Still t songs.1 := stillTwo.trans (shapeThree ▸ songGroup_lawful.still ..)
  have stillFour : Still t remotes.1 := stillThree.trans (shapeFour ▸ remoteMixGroup_lawful.still ..)
  have still : Still t last := stillFour.trans (by rw [shapeFive]; exact ⟨rfl, rfl, rfl⟩)
  obtain ⟨eachOne, -, othersOne⟩ := writeEntities_makes albumGroup_lawful distinctAlbums placed.albums first
  obtain ⟨eachTwo, -, othersTwo⟩ := writeEntities_makes artistGroup_lawful distinctArtists
    (placed.artists.imp fun _ _ name => name.grow (.of_still stillOne)) second
  obtain ⟨eachThree, -, othersThree⟩ := writeEntities_makes songGroup_lawful distinctSongs
    (placed.songs.imp fun _ _ name => name.grow (.of_still stillTwo)) third
  obtain ⟨eachFour, same, othersFour⟩ := writeEntities_makes remoteMixGroup_lawful distinctRemotes
    (placed.remoteMixes.imp fun _ _ name => name.grow (.of_still stillThree)) fourth
  have madeOne := Makes.mk eachOne othersOne
  have madeTwo := Makes.mk eachTwo othersTwo
  have madeThree := Makes.mk eachThree othersThree
  have madeFour := Makes.mk eachFour othersFour
  refine ⟨⟨still, ?_⟩, ⟨madeOne.widen .refl rfl ?_, forM_ok.mp one⟩, ⟨madeTwo.widen stillOne ?_ ?_, forM_ok.mp two⟩,
    ⟨madeThree.widen stillTwo ?_ ?_, forM_ok.mp three⟩, madeFour.widen stillThree ?_ ?_,
    writeMixes_settle (same ▸ distinctRemotes) mixes⟩
  · rw [shapeFive, shapeFour, shapeThree, shapeTwo, shapeOne]
    rfl
  · rw [shapeFive, shapeFour, shapeThree, shapeTwo]
    rfl
  · rw [shapeOne]
    rfl
  · rw [shapeFive, shapeFour, shapeThree]
    rfl
  · rw [shapeTwo, shapeOne]
    rfl
  · rw [shapeFive, shapeFour]
    rfl
  · rw [shapeThree, shapeTwo, shapeOne]
    rfl
  · rw [shapeFive]
    rfl

theorem describe_settle (placed : Placed t w.provider batch ids) (described : describe w batch t = .ok done) :
    Still t done.1 ∧ done.1.dynamics = t.dynamics ∧ Described done.1 w.provider batch (fun _ => False) := by
  obtain ⟨⟨still, dynamics⟩, ⟨albums, one⟩, ⟨artists, two⟩, ⟨songs, three⟩, remotes, cached⟩ :=
    describe_makes placed described
  refine ⟨still, dynamics, fun entry member => ?_, fun entry member => ?_, fun entry member => ?_,
    fun entry member => ?_⟩
  · obtain ⟨wrote, there, row⟩ := value_of_forall₂ albums.each member
    exact ⟨wrote.id, wrote.row, row.names.grow (.of_still still), row.stored,
      groups_settle.1 entry _ _ _ _ row.made, row.proper, one wrote there⟩
  · obtain ⟨wrote, there, row⟩ := value_of_forall₂ artists.each member
    exact ⟨wrote.id, wrote.row, row.names.grow (.of_still still), row.stored,
      groups_settle.2.1 entry _ _ _ _ row.made, row.proper, two wrote there⟩
  · obtain ⟨wrote, there, row⟩ := value_of_forall₂ songs.each member
    exact ⟨wrote.id, wrote.row, row.names.grow (.of_still still), row.stored,
      groups_settle.2.2.1 entry _ _ _ _ row.made, row.proper, three wrote there⟩
  · obtain ⟨wrote, there, row⟩ := value_of_forall₂ remotes.each member
    obtain ⟨sized, place, mix, found, name, description, count⟩ := cached wrote there
    exact ⟨wrote.id, wrote.row, wrote.row, row.names.grow (.of_still still), row.stored,
      groups_settle.2.2.2 entry _ _ _ _ row.made, row.proper, rfl, fun _ => rfl, sized, place, mix, found, name,
      description, fun _ => count⟩

/-- The same remote mixes, up to the counts of those that `awaits` tells. -/
structure Remixed (awaits : Int → Prop) (first second : Hash Int RemoteMix) : Prop where
  alike : Alike uncountedRemote first second
  counts : ∀ id, ¬awaits id → second.lookup id = first.lookup id

/-- The tables after the rows of a batch have been written again. -/
structure Redescribed (awaits : Int → Prop) (x y : Tables) : Prop where
  still : Still x y
  albums : Same x.albums y.albums
  artists : Same x.artists y.artists
  songs : Same x.songs y.songs
  remoteMixes : Remixed awaits x.remoteMixes y.remoteMixes
  mixes : Mixed awaits x.mixes y.mixes
  others : ∃ albums artists songs remotes mixes last, y = { x with
    albums := albums, artists := artists, songs := songs, remoteMixes := remotes, mixes := mixes
    sequence := { x.sequence with mix := last } }

private theorem same_again {ρ : Type} {old rows : Hash Int ρ} {Fine : Int → ρ → ρ → Prop}
    (each : ∀ id, rows.lookup id = old.lookup id ∨
      ∃ row next, old.lookup id = some row ∧ rows.lookup id = some next ∧ Fine id row next)
    (same : ∀ id row next, Fine id row next → next = row) : Same old rows := by
  intro id
  rcases each id with kept | ⟨row, next, stored, written, fine⟩
  · rw [kept]
  · rw [stored, written, same id row next fine]

theorem describe_again (placed : Placed b w.provider batch ids)
    (described : Described b w.provider batch awaits) (touched : Touched w.provider b x) :
    ∃ done, describe w batch x = .ok done ∧ Redescribed awaits x done.1 ∧
      (∀ wrote ∈ done.2.songs, wrote.inserted = false ∧ (x.songs.lookup wrote.id).isSome) ∧
      ∀ wrote ∈ done.2.remoteMixes, (x.remoteMixes.lookup wrote.id).isSome := by
  obtain ⟨albumTable, artistTable, songTable, remoteTable, mixTable⟩ : x.albums = b.albums ∧ x.artists = b.artists ∧
      x.songs = b.songs ∧ x.remoteMixes = b.remoteMixes ∧ x.mixes = b.mixes := by
    obtain ⟨libraries, items, library, item, rfl⟩ := touched.entered
    exact ⟨rfl, rfl, rfl, rfl, rfl⟩
  have grows := touched.grows
  obtain ⟨distinctAlbums, distinctArtists, distinctSongs, distinctRemotes⟩ := placed.apart
  have one {kinds : List ItemType} (entry : ItemRef) (id other : Int) (names : Names b w.provider kinds entry id)
      (also : Names b w.provider kinds entry other) : id = other := also.one names
  obtain ⟨albums, first, wroteOne, rowsOne, shapeOne, eachOne⟩ := writeEntities_again
    (fun _ row next => next = row ∧ checkAlbum next = .ok ()) albumGroup_lawful
    (pairwise_of_forall₂ placed.albums distinctAlbums fun _ _ _ names also => one _ _ _ names also) grows
    fun entry member => by
      obtain ⟨id, row, names, stored, applied, proper, checked⟩ := described.albums entry member
      rw [← albumTable] at stored
      exact ⟨id, row, row, names, stored, applied, proper, rfl, checked⟩
  have stillOne : Still x albums.1 := shapeOne ▸ albumGroup_lawful.still ..
  have keptOne : artistGroup.rows albums.1 = x.artists := by rw [shapeOne]; rfl
  obtain ⟨artists, second, wroteTwo, rowsTwo, shapeTwo, eachTwo⟩ := writeEntities_again (x := albums.1)
    (fun _ row next => next = row ∧ checkArtist next = .ok ()) artistGroup_lawful
    (pairwise_of_forall₂ placed.artists distinctArtists fun _ _ _ names also => one _ _ _ names also)
    (grows.trans (.of_still stillOne)) fun entry member => by
      obtain ⟨id, row, names, stored, applied, proper, checked⟩ := described.artists entry member
      rw [← artistTable, ← keptOne] at stored
      exact ⟨id, row, row, names, stored, applied, proper, rfl, checked⟩
  have stillTwo : Still x artists.1 := stillOne.trans (shapeTwo ▸ artistGroup_lawful.still ..)
  have keptTwo : songGroup.rows artists.1 = x.songs := by rw [shapeTwo, shapeOne]; rfl
  obtain ⟨songs, third, wroteThree, rowsThree, shapeThree, eachThree⟩ := writeEntities_again (x := artists.1)
    (fun _ row next => next = row ∧ checkSong next = .ok ()) songGroup_lawful
    (pairwise_of_forall₂ placed.songs distinctSongs fun _ _ _ names also => one _ _ _ names also)
    (grows.trans (.of_still stillTwo)) fun entry member => by
      obtain ⟨id, row, names, stored, applied, proper, checked⟩ := described.songs entry member
      rw [← songTable, ← keptTwo] at stored
      exact ⟨id, row, row, names, stored, applied, proper, rfl, checked⟩
  have stillThree : Still x songs.1 := stillTwo.trans (shapeThree ▸ songGroup_lawful.still ..)
  have keptThree : remoteMixGroup.rows songs.1 = x.remoteMixes := by rw [shapeThree, shapeTwo, shapeOne]; rfl
  obtain ⟨remotes, fourth, wroteFour, rowsFour, shapeFour, eachFour⟩ := writeEntities_again (x := songs.1)
    (Remade awaits b.mixes) remoteMixGroup_lawful
    (pairwise_of_forall₂ placed.remoteMixes distinctRemotes fun _ _ _ names also => one _ _ _ names also)
    (grows.trans (.of_still stillThree)) fun entry member => by
      obtain ⟨id, row, next, names, stored, applied, proper, remade⟩ := described.remoteMixes entry member
      rw [← remoteTable, ← keptThree] at stored
      exact ⟨id, row, next, names, stored, applied, proper, remade⟩
  have stillFour : Still x remotes.1 := stillThree.trans (shapeFour ▸ remoteMixGroup_lawful.still ..)
  have keptFour : remotes.1.mixes = x.mixes := by rw [shapeFour, shapeThree, shapeTwo, shapeOne]; rfl
  have start : Mixed awaits x.mixes remotes.1.mixes := keptFour ▸ .refl
  obtain ⟨last, mixes, mixRows, shapeFive, mixed⟩ := writeMixes_again start fun wrote there => by
      obtain ⟨entry, -, again⟩ := exists_of_forall₂ wroteFour there
      obtain ⟨row, -, -, -, recached⟩ := again.fine
      exact mixTable ▸ recached
  have checkOne : (albums.2.forM fun wrote => checkAlbum wrote.row) = .ok () := forM_ok.mpr fun wrote there => by
    obtain ⟨entry, -, again⟩ := exists_of_forall₂ wroteOne there
    obtain ⟨row, -, -, checked⟩ := again.fine
    exact checked
  have checkTwo : (artists.2.forM fun wrote => checkArtist wrote.row) = .ok () := forM_ok.mpr fun wrote there => by
    obtain ⟨entry, -, again⟩ := exists_of_forall₂ wroteTwo there
    obtain ⟨row, -, -, checked⟩ := again.fine
    exact checked
  have checkThree : (songs.2.forM fun wrote => checkSong wrote.row) = .ok () := forM_ok.mpr fun wrote there => by
    obtain ⟨entry, -, again⟩ := exists_of_forall₂ wroteThree there
    obtain ⟨row, -, -, checked⟩ := again.fine
    exact checked
  rw [keptThree] at eachFour wroteFour
  rw [keptTwo] at eachThree wroteThree
  rw [keptOne] at eachTwo
  have whole : last = { x with
      albums := rowsOne, artists := rowsTwo, songs := rowsThree, remoteMixes := rowsFour, mixes := mixRows } := by
    rw [shapeFive, shapeFour, shapeThree, shapeTwo, shapeOne]
    rfl
  refine ⟨_, describe_iff.mpr ⟨albums, artists, songs, remotes, last, first, second, third, fourth, checkOne, checkTwo,
    checkThree, mixes, rfl⟩, ?_, fun wrote there => ?_, fun wrote there => ?_⟩
  · subst whole
    refine ⟨⟨rfl, rfl, rfl⟩, same_again eachOne fun _ _ _ fine => fine.1, same_again eachTwo fun _ _ _ fine => fine.1,
      same_again eachThree fun _ _ _ fine => fine.1, ⟨fun id => ?_, fun id kept => ?_⟩, mixed,
      ⟨rowsOne, rowsTwo, rowsThree, rowsFour, mixRows, x.sequence.mix, rfl⟩⟩
    · rcases eachFour id with same | ⟨row, next, stored, written, remade⟩
      · exact congrArg (Option.map uncountedRemote) same
      · rw [written, stored, Option.map_some, Option.map_some, remade.1]
    · rcases eachFour id with same | ⟨row, next, stored, written, remade⟩
      · exact same
      · rw [written, stored, remade.2.1 kept]
  · obtain ⟨entry, -, again⟩ := exists_of_forall₂ wroteThree there
    obtain ⟨row, stored, -⟩ := again.fine
    exact ⟨again.old, Option.isSome_iff_exists.mpr ⟨row, stored⟩⟩
  · obtain ⟨entry, -, again⟩ := exists_of_forall₂ wroteFour there
    obtain ⟨row, stored, -⟩ := again.fine
    exact Option.isSome_iff_exists.mpr ⟨row, stored⟩

end Qcm.BatchRepeatRules
