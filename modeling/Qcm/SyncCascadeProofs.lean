import Qcm.SyncDatabase

/-!
What deletions leave of the tables, foreign keys counted.  `Thinned` says it once
for a set of deleted items, two deletions in a row compose, and the clean-ups of
`finalize` and `sync_drop_before` are instances of it.
-/

namespace Qcm.SyncCascadeProofs

open Lib SyncDatabase

/-- What is left of the tables when the items of `gone` are deleted with
everything that cascades from them; `cut` are the remote mixes whose cached mix
was deleted by name. -/
structure Thinned (db after : Database) (gone : Int → ItemRow → Bool) (cut : Int → Bool) : Prop where
  items : ∀ id row, after.items.lookup id = some row ↔ db.items.lookup id = some row ∧ gone id row = false
  albums : ∀ id row, after.albums.lookup id = some row ↔
    db.albums.lookup id = some row ∧ Hash.hits gone db.items id = false
  artists : ∀ id row, after.artists.lookup id = some row ↔
    db.artists.lookup id = some row ∧ Hash.hits gone db.items id = false
  remoteMixes : ∀ id row, after.remoteMixes.lookup id = some row ↔
    db.remoteMixes.lookup id = some row ∧ Hash.hits gone db.items id = false
  songs : ∀ id song, after.songs.lookup id = some song ↔
    db.songs.lookup id = some song ∧ Hash.hits gone db.items id = false ∧
      ∀ album row, song.albumId = some album → db.albums.lookup album = some row →
        Hash.hits gone db.items album = false
  mixes : ∀ key row, db.mixes.lookup key = some row →
    (∀ remote, row.remoteId = some remote → cut remote = false ∧ Hash.hits gone db.items remote = false) →
    after.mixes.lookup key = some row

variable {first second : Int → ItemRow → Bool}
variable {β : Type} {test : Int → β → Bool} {map : Hash Int β} {id : Int}

theorem misses_iff : Hash.hits test map id = false ↔ ∀ row, map.lookup id = some row → test id row = false := by
  rw [← Bool.not_eq_true, Hash.hits_iff]
  simp

theorem misses_both {items left : Hash Int ItemRow}
    (thinned : ∀ id row, left.lookup id = some row ↔ items.lookup id = some row ∧ first id row = false)
    (id : Int) : Hash.hits (fun id row => first id row || second id row) items id = false ↔
      Hash.hits first items id = false ∧ Hash.hits second left id = false := by
  simp only [misses_iff, thinned, Bool.or_eq_false_iff]
  constructor
  · intro neither
    exact ⟨fun row there => (neither row there).1, fun row there => (neither row there.1).2⟩
  · intro ⟨before, later⟩ row there
    exact ⟨before row there, later row ⟨there, before row there⟩⟩

theorem Thinned.refl (db : Database) : Thinned db db (fun _ _ => false) (fun _ => false) := by
  constructor <;> simp [misses_iff]

theorem Thinned.trans {db middle after : Database} {cut next : Int → Bool}
    (before : Thinned db middle first cut) (later : Thinned middle after second next) :
    Thinned db after (fun id row => first id row || second id row) (fun id => cut id || next id) := by
  have both (id : Int) : Hash.hits (fun id row => first id row || second id row) db.items id = false ↔
      Hash.hits first db.items id = false ∧ Hash.hits second middle.items id = false :=
    misses_both before.items id
  constructor
  · intro id row
    rw [later.items, before.items, Bool.or_eq_false_iff, and_assoc]
  · intro id row
    rw [later.albums, before.albums, both, and_assoc]
  · intro id row
    rw [later.artists, before.artists, both, and_assoc]
  · intro id row
    rw [later.remoteMixes, before.remoteMixes, both, and_assoc]
  · intro id song
    rw [later.songs, before.songs, both]
    constructor
    · rintro ⟨⟨there, own, albums⟩, ownLater, albumsLater⟩
      refine ⟨there, ⟨own, ownLater⟩, fun album row named stored => ?_⟩
      have kept := albums album row named stored
      exact (both album).mpr ⟨kept, albumsLater album row named ((before.albums album row).mpr ⟨stored, kept⟩)⟩
    · rintro ⟨there, ⟨own, ownLater⟩, albums⟩
      refine ⟨⟨there, own, fun album row named stored => ?_⟩, ownLater, fun album row named stored => ?_⟩
      · exact ((both album).mp (albums album row named stored)).1
      · have stored := ((before.albums album row).mp stored).1
        exact ((both album).mp (albums album row named stored)).2
  · intro key row there spared
    have parts (remote : Int) (named : row.remoteId = some remote) :
        (cut remote = false ∧ next remote = false) ∧
          Hash.hits first db.items remote = false ∧ Hash.hits second middle.items remote = false := by
      have kept := spared remote named
      rw [Bool.or_eq_false_iff, both] at kept
      exact kept
    have kept := before.mixes key row there fun remote named =>
      ⟨(parts remote named).1.1, (parts remote named).2.1⟩
    exact later.mixes key row kept fun remote named =>
      ⟨(parts remote named).1.2, (parts remote named).2.2⟩

theorem lookup_kept {row : β} : AList.lookup id (map.filter fun id row => !test id row) = some row ↔
      map.lookup id = some row ∧ test id row = false := by
  rw [Hash.lookup_filter, Option.filter_eq_some_iff]
  simp

private theorem hits_const {went : Int → Bool} :
    Hash.hits (fun id _ => went id) map id = true ↔ (∃ row, map.lookup id = some row) ∧ went id = true := by
  rw [Hash.hits_iff]
  simp

theorem deleteItems_thins (db : Database) (gone : Int → ItemRow → Bool) :
    Thinned db (db.deleteItems gone) gone (fun _ => false) := by
  constructor
  · intro id row
    exact lookup_kept
  · intro id row
    exact lookup_kept
  · intro id row
    exact lookup_kept
  · intro id row
    exact lookup_kept
  · intro id song
    have first : AList.lookup id (db.songs.filter fun _ row => !row.albumId.any
        (Hash.hits (fun id _ => Hash.hits gone db.items id) db.albums)) = some song ↔ _ := lookup_kept
    refine (lookup_kept.trans (and_congr first Iff.rfl)).trans ?_
    rw [and_assoc, and_comm (b := Hash.hits gone db.items id = false)]
    refine and_congr_right fun _ => and_congr_right fun _ => ?_
    rw [← Bool.not_eq_true, Option.any_eq_true]
    constructor
    · intro spared album row named stored
      by_contra taken
      exact spared ⟨album, named, hits_const.mpr ⟨⟨row, stored⟩, by simpa using taken⟩⟩
    · rintro spared ⟨album, named, taken⟩
      obtain ⟨⟨row, stored⟩, went⟩ := hits_const.mp taken
      simp [spared album row named stored] at went
  · intro key row there spared
    refine lookup_kept.mpr ⟨there, ?_⟩
    rw [← Bool.not_eq_true, Option.any_eq_true]
    rintro ⟨remote, named, taken⟩
    have went := (hits_const.mp taken).2
    simp [(spared remote named).2] at went

/-- Whether the library of an item is one of those deleted. -/
def libraryGone (db : Database) (gone : Int → LibraryRow → Bool) (row : ItemRow) : Bool :=
  row.libraryId.any (Hash.hits gone db.libraries)

theorem deleteLibraries_thins (db : Database) (gone : Int → LibraryRow → Bool) :
    Thinned db (db.deleteLibraries gone) (fun _ row => libraryGone db gone row) (fun _ => false) := by
  have thinned := deleteItems_thins
    { db with libraries := db.libraries.filter fun id row => !gone id row }
    fun _ row => libraryGone db gone row
  exact { thinned with }

theorem pruneItem_thins (db : Database) (id : Int) (row : ItemRow) :
    Thinned db (db.pruneItem id row) (fun other _ => other = id) (fun other => other = id) := by
  unfold Database.pruneItem
  split
  · have thinned := deleteItems_thins (db.deleteMixes fun _ mix => mix.remoteId = some id)
      fun other _ => other = id
    refine { thinned with mixes := fun key mix there spared => ?_ }
    refine thinned.mixes key mix (lookup_kept.mpr ⟨there, ?_⟩) fun remote named =>
      ⟨rfl, (spared remote named).2⟩
    rw [decide_eq_false_iff_not]
    intro named
    simpa using (spared id named).1
  · have thinned := deleteItems_thins db fun other _ => other = id
    exact { thinned with mixes := fun key mix there spared => thinned.mixes key mix there fun remote named => ⟨rfl,
      (spared remote named).2⟩ }

theorem pruneItems_thins (entries : List (Int × ItemRow)) (db : Database) :
    Thinned db (entries.foldl (fun db entry => db.pruneItem entry.1 entry.2) db)
      (fun id _ => (entries.map Prod.fst).contains id) (fun id => (entries.map Prod.fst).contains id) := by
  induction entries generalizing db with
  | nil => simpa using Thinned.refl db
  | cons entry rest ih =>
    have thinned := (pruneItem_thins db entry.1 entry.2).trans (ih (db.pruneItem entry.1 entry.2))
    simpa [List.contains_cons, beq_eq_decide] using thinned

private theorem deleteItems_libraries (db : Database) (gone : Int → ItemRow → Bool) :
    (db.deleteItems gone).libraries = db.libraries := rfl

private theorem pruneItems_libraries (entries : List (Int × ItemRow)) (db : Database) :
    (entries.foldl (fun db entry => db.pruneItem entry.1 entry.2) db).libraries = db.libraries := by
  induction entries generalizing db with
  | nil => rfl
  | cons entry rest ih =>
    rw [List.foldl_cons, ih, Database.pruneItem, deleteItems_libraries]
    split <;> rfl

/-- The libraries `finalize` deletes. -/
def unseenLibrary (provider : Int) (libraries : Finset Int) (id : Int) (row : LibraryRow) : Bool :=
  row.providerId = provider && id ∉ libraries

theorem finalize_thins (db : Database) (provider : Int) (scopes : Finset SyncScope)
    (seen libraries retained : Finset Int) :
    Thinned db (db.finalize provider scopes seen libraries retained)
      (fun id row => ((db.pruned provider scopes seen retained).map Prod.fst).contains id ||
        libraryGone db (unseenLibrary provider libraries) row)
      (fun id => ((db.pruned provider scopes seen retained).map Prod.fst).contains id) := by
  have items := pruneItems_thins (db.pruned provider scopes seen retained) db
  have rest := deleteLibraries_thins ((db.pruned provider scopes seen retained).foldl
    (fun db entry => db.pruneItem entry.1 entry.2) db) (unseenLibrary provider libraries)
  have both := items.trans rest
  simp only [libraryGone, pruneItems_libraries, Bool.or_false] at both
  exact both

/-- The libraries `sync_drop_before` deletes. -/
def staleLibrary (provider now : Int) (_id : Int) (row : LibraryRow) : Bool :=
  row.providerId = provider && row.editTime < now

/-- The items `sync_drop_before` deletes. -/
def staleItem (provider now : Int) (retained : Finset Int) (id : Int) (row : ItemRow) : Bool :=
  row.lastSyncAt < now && row.providerId = provider && id ∉ retained

theorem syncDropBefore_thins (db : Database) (provider now : Int) (retained : Finset Int) :
    Thinned db (db.syncDropBefore provider now retained)
      (fun id row => libraryGone db (staleLibrary provider now) row || staleItem provider now retained id row)
      (fun _ => false) := by
  have libraries := deleteLibraries_thins db (staleLibrary provider now)
  have cleaned : Thinned db _ _ _ := libraries.trans (deleteItems_thins _ (staleItem provider now retained))
  exact { cleaned with }

end Qcm.SyncCascadeProofs
