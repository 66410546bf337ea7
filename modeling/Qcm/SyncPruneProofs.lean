import Qcm.SyncRetentionProofs

/-!
What pruning does to an item that a live retention or the finalizing run
protects.  The explicit deletions spare the item itself, but a deleted library
takes its items along and a deleted album its songs, so an item keeps its rows
exactly when neither happens to it.
-/

namespace Qcm.SyncPruneProofs

open Lib Lib.Runs SyncDatabase SyncBatch SyncCascadeProofs SyncCoordinator
open SyncRetentionProofs

/-- The rows of an item: whatever it had, it still has. -/
structure Survives (db after : Database) (id : Int) : Prop where
  item : ∀ row, db.items.lookup id = some row → after.items.lookup id = some row
  album : ∀ row, db.albums.lookup id = some row → after.albums.lookup id = some row
  artist : ∀ row, db.artists.lookup id = some row → after.artists.lookup id = some row
  song : ∀ row, db.songs.lookup id = some row → after.songs.lookup id = some row
  remoteMix : ∀ row, db.remoteMixes.lookup id = some row → after.remoteMixes.lookup id = some row
  mix : ∀ key row, db.mixes.lookup key = some row → row.remoteId = some id →
    after.mixes.lookup key = some row

/-- Neither the library of the item is deleted, nor, for a song with an album,
the item or the library of the album. -/
structure Spared (db : Database) (id : Int) (dropped : Int → LibraryRow → Bool)
    (pruned : Int → ItemRow → Bool) : Prop where
  library : ∀ row, db.items.lookup id = some row → libraryGone db dropped row = false
  album : ∀ song album name row, db.songs.lookup id = some song → song.albumId = some album →
    db.albums.lookup album = some name → db.items.lookup album = some row →
    pruned album row = false ∧ libraryGone db dropped row = false

variable {db : Database} {gone pruned : Int → ItemRow → Bool} {id : Int} {dropped : Int → LibraryRow → Bool}
variable {after : Database} {cut : Int → Bool} {row : ItemRow}

/-- The rows of an item that is not deleted by name survive exactly when no
cascade reaches them. -/
theorem survives_iff (thinned : Thinned db after gone cut)
    (uncut : cut id = false) : Survives db after id ↔ Hash.hits gone db.items id = false ∧
      ∀ song album name, db.songs.lookup id = some song → song.albumId = some album →
        db.albums.lookup album = some name → Hash.hits gone db.items album = false := by
  constructor
  · intro survives
    refine ⟨?_, fun song album name there named stored => ?_⟩
    · rw [misses_iff]
      intro row there
      exact ((thinned.items id row).mp (survives.item row there)).2
    · exact ((thinned.songs id song).mp (survives.song song there)).2.2 album name named stored
  · rintro ⟨own, albums⟩
    constructor
    · intro row there
      exact (thinned.items id row).mpr ⟨there, misses_iff.mp own row there⟩
    · intro row there
      exact (thinned.albums id row).mpr ⟨there, own⟩
    · intro row there
      exact (thinned.artists id row).mpr ⟨there, own⟩
    · intro song there
      exact (thinned.songs id song).mpr ⟨there, own, fun album name named stored =>
        albums song album name there named stored⟩
    · intro row there
      exact (thinned.remoteMixes id row).mpr ⟨there, own⟩
    · intro key row there named
      refine thinned.mixes key row there fun remote other => ?_
      cases named.symm.trans other
      exact ⟨uncut, own⟩

/-- Deleting some items by name and some libraries: the condition read off the
two sets. -/
private theorem survives_iff_spared (thinned : Thinned db after gone cut) (uncut : cut id = false)
    (taken : ∀ other row, db.items.lookup other = some row →
      (gone other row = false ↔ pruned other row = false ∧ libraryGone db dropped row = false))
    (named : ∀ row, db.items.lookup id = some row → pruned id row = false) :
    Survives db after id ↔ Spared db id dropped pruned := by
  rw [survives_iff thinned uncut]
  constructor
  · rintro ⟨own, albums⟩
    refine ⟨fun row there => ?_, fun song album name row there of stored item => ?_⟩
    · exact ((taken id row there).mp (misses_iff.mp own row there)).2
    · exact (taken album row item).mp (misses_iff.mp (albums song album name there of stored) row item)
  · intro spared
    refine ⟨misses_iff.mpr fun row there => ?_, fun song album name there of stored => ?_⟩
    · exact (taken id row there).mpr ⟨named row there, spared.library row there⟩
    · rw [misses_iff]
      intro row item
      exact (taken album row item).mpr (spared.album song album name row there of stored item)

/-- The items `finalize` deletes by name. -/
def prunable (run : SyncRun) (kept : List Int) (id : Int) (row : ItemRow) : Bool :=
  row.providerId = run.provider && SyncScope.new row.libraryId row.kind ∈ run.scopes &&
    id ∉ run.seen && id ∉ kept

theorem mem_pruned {run : SyncRun} {kept : List Int} (there : db.items.lookup id = some row) :
    id ∈ (db.pruned run.provider run.scopes run.seen kept.toFinset).map Prod.fst ↔ prunable run kept id row = true := by
  simp only [Database.pruned, List.mem_map, List.mem_filter, Prod.exists, exists_and_right,
    exists_eq_right, mem_candidates, there, Option.some.injEq, prunable, Bool.and_eq_true,
    decide_eq_true_eq, List.mem_toFinset]
  constructor
  · rintro ⟨_, ⟨rfl, mine⟩, inside, unseen, free⟩
    exact ⟨⟨⟨mine, inside⟩, unseen⟩, free⟩
  · rintro ⟨⟨⟨mine, inside⟩, unseen⟩, free⟩
    exact ⟨row, ⟨rfl, mine⟩, inside, unseen, free⟩

theorem pruned_stored {p : Int} {scopes : Finset SyncScope} {seen kept : Finset Int}
    (named : id ∈ (db.pruned p scopes seen kept).map Prod.fst) : ∃ row, db.items.lookup id = some row := by
  simp only [Database.pruned, List.mem_map, List.mem_filter, Prod.exists] at named
  obtain ⟨_, row, ⟨candidate, _⟩, rfl⟩ := named
  exact ⟨row, (mem_candidates.mp candidate).1⟩

/-- A clean-up that commits: the libraries and the items it deletes by name, and
the items its run has observed. -/
inductive Sweep (owner : Int → Int) (w after : World) :
    (Int → LibraryRow → Bool) → (Int → ItemRow → Bool) → (Int → Prop) → Prop where
  | finalize {k : Nat} {run : SyncRun} {guard : Guard} {kept pruned : List Int}
      (there : w.runs k = some run) (held : (w.providers run.provider).guard = some guard)
      (surveyed : guard.retained = some kept) (step : Step owner w (.finalized run.provider k pruned) after) :
      Sweep owner w after (unseenLibrary run.provider run.libraries) (prunable run kept)
        fun id => id ∈ run.seen
  | dropBefore {p now : Int} {guard : Guard} {kept : List Int}
      (held : (w.providers p).guard = some guard) (surveyed : guard.retained = some kept)
      (step : Step owner w (.droppedBefore p now) after) :
      Sweep owner w after (staleLibrary p now) (staleItem p now kept.toFinset) fun _ => False

private theorem protected_not_named {owner : Int → Int} {w after : World} {observed : Int → Prop}
    (sound : Sound owner w) (sweep : Sweep owner w after dropped pruned observed)
    (safe : Retained w id ∨ observed id) (there : w.db.items.lookup id = some row) : pruned id row = false := by
  have belongs := sound.owned id row there
  cases sweep with
  | @finalize k run guard kept pruned run_there held surveyed step =>
    rw [← Bool.not_eq_true]
    simp only [prunable, Bool.and_eq_true, decide_eq_true_eq]
    rintro ⟨⟨⟨mine, _⟩, unseen⟩, free⟩
    rcases safe with ⟨entry, live, member⟩ | seen
    · have same : entry.1 = run.provider := by
        rw [← (sound.mine entry live).2 id member, ← belongs, mine]
      exact free (sound.surveyed _ guard kept held surveyed entry live same id member)
    · exact unseen seen
  | @dropBefore p now guard kept held surveyed step =>
    rw [← Bool.not_eq_true]
    simp only [staleItem, Bool.and_eq_true, decide_eq_true_eq, List.mem_toFinset]
    rintro ⟨⟨_, mine⟩, free⟩
    rcases safe with ⟨entry, live, member⟩ | seen
    · have same : entry.1 = p := by
        rw [← (sound.mine entry live).2 id member, ← belongs, mine]
      exact free (sound.surveyed _ guard kept held surveyed entry live same id member)
    · exact seen

/-- An item that a live retention or the finalizing run protects keeps its rows
exactly when its library is not dropped and, for a song, neither its album is
pruned nor the album's library dropped. -/
theorem protected_item_survives_iff {owner : Int → Int} {w after : World}
    {dropped : Int → LibraryRow → Bool} {pruned : Int → ItemRow → Bool} {observed : Int → Prop}
    (reached : Reachable owner w) (sweep : Sweep owner w after dropped pruned observed) {id : Int}
    (safe : Retained w id ∨ observed id) :
    Survives w.db after.db id ↔ Spared w.db id dropped pruned := by
  have unnamed (row : ItemRow) (there : w.db.items.lookup id = some row) :=
    protected_not_named reached.sound sweep safe there
  cases sweep with
  | @finalize k run guard kept pruned there held surveyed step =>
    obtain ⟨same, caller, holding, known, here, -, inside, lock, mine, read, live, rfl, db⟩ :=
      finalized_cases step
    cases there.symm.trans here
    cases held.symm.trans lock
    cases surveyed.symm.trans read
    rw [db]
    refine survives_iff_spared (finalize_thins ..) ?_ (fun other row stored => ?_) unnamed
    · rw [← Bool.not_eq_true, List.contains_iff_mem]
      intro named
      obtain ⟨row, stored⟩ := pruned_stored named
      have taken := (mem_pruned stored).mp named
      simp [unnamed row stored] at taken
    · rw [Bool.or_eq_false_iff, ← Bool.not_eq_true, List.contains_iff_mem, mem_pruned stored,
        Bool.not_eq_true]
  | @dropBefore p now guard kept held surveyed step =>
    cases step with
    | dropBefore holding outside foreign known =>
      cases held.symm.trans holding
      cases surveyed.symm.trans known
      refine survives_iff_spared (syncDropBefore_thins ..) rfl (fun other row stored => ?_) unnamed
      rw [Bool.or_eq_false_iff, and_comm]

section Lost

/-- One library with an album, item 2, and its song, item 3. -/
private def shelf : Database :=
  { Database.empty with
    libraries := AList.insert 5 ⟨1, 0⟩ ∅
    items := AList.insert 2 ⟨"album", some 5, 1, .album, 0⟩ (AList.insert 3 ⟨"song", some 5, 1, .song, 0⟩ ∅)
    albums := AList.insert 2 ⟨"album"⟩ ∅
    songs := AList.insert 3 ⟨"song", some 2⟩ ∅ }

private def shelved : World :=
  ⟨shelf, fun _ => ProviderState.fresh, fun _ => none, 0, [], fun _ => 0⟩

private def songScope : SyncScope := SyncScope.new (some 5) .song

private def albumScope : SyncScope := SyncScope.new (some 5) .album

private def mixScope : SyncScope := SyncScope.new none .mix

/-- A full sync that meets the song and no album, up to its commit. -/
private def lone : List Event :=
  [.started 1 0, .began 0 .core (.libraries [5]), .observedLibrary 0 5, .returned 0,
    .requested 0 (.declare [songScope, albumScope, mixScope] [.song, .album]),
    .requested 0 .completeLibraries, .began 0 .core (.items songScope [.id 3]),
    .entered 0 .core (.items songScope [.id 3]), .observedItems 0 songScope [3],
    .requested 0 (.complete songScope), .requested 0 (.complete albumScope),
    .requested 0 (.complete mixScope), .requested 0 .sealing, .began 0 .core .finalize,
    .entered 0 .core .finalize, .readRetained 1]

/-- The run of that sync when it holds its last guard. -/
private def closing : SyncRun :=
  ⟨1, 1, 0, [songScope, albumScope, mixScope].toFinset,
    insert mixScope (insert albumScope (insert songScope ∅)), ∅ ∪ [3].toFinset, insert 5 ∅, true, true,
    true, false, none, .inside .core .finalize⟩

private def closingGuard : Guard := ⟨some 1, some 0, some [], []⟩

private theorem lone_follows : ∃ w, Follows (Step fun _ => 1) shelved lone w ∧ w.db = shelf ∧
    w.runs 0 = some closing ∧ (w.providers 1).guard = some closingGuard ∧ (w.providers 1).active = 1 := by
  refine ⟨_, .cons (.start rfl rfl) <| .cons (.begin rfl rfl (by simp) rfl) <|
    .cons (.observeLibrary rfl rfl rfl) <| .cons (.returnLibraries rfl rfl) <|
    .cons (.request rfl rfl rfl) <| .cons (.request rfl rfl rfl) <|
    .cons (.begin rfl rfl (by simp) rfl) <| .cons (.enter rfl rfl (by simp) rfl rfl (by simp)) <|
    .cons (.observeItems rfl rfl rfl) <| .cons (.request rfl rfl rfl) <|
    .cons (.request rfl rfl rfl) <| .cons (.request rfl rfl rfl) <| .cons (.request rfl rfl rfl) <|
    .cons (.begin rfl rfl (by simp) rfl) <|
    .cons (.enter rfl rfl (by simp) rfl rfl fun _ => rfl) <| .cons (.readRetained rfl) <| .nil _,
    rfl, rfl, rfl, rfl⟩

private theorem shelved_reachable : Reachable (fun _ => 1) shelved := by
  refine .start ⟨fun id row there => ?_, rfl, rfl, rfl⟩
  have both : ∀ entry ∈ shelf.items.entries, entry.2.providerId = 1 := by decide
  exact both _ ((Hash.lookup_eq_some_iff _ _ _).mp there)

/-- The sync commits, and song 3, which it has observed, is gone. -/
private theorem lone_sweep : ∃ w after, Reachable (fun _ => 1) w ∧ w.db = shelf ∧
    Sweep (fun _ => 1) w after (unseenLibrary 1 {5}) (prunable closing []) (fun id => id ∈ closing.seen) ∧
    after.db.songs.lookup 3 = none := by
  obtain ⟨w, follows, db, there, held, live⟩ := lone_follows
  have step : Step (fun _ => 1) w (.finalized 1 0 _) _ := .finalize there rfl held rfl rfl
    (by rw [db]; decide) (by rw [db]; decide) rfl live
  refine ⟨w, _, shelved_reachable.follows follows, db, .finalize there held rfl step, ?_⟩
  rw [db]
  rfl

/-- An observed song whose album the sync did not meet is lost with the album. -/
theorem observed_song_lost_with_album :
    ¬ ∀ (owner : Int → Int) (w after : World) (dropped : Int → LibraryRow → Bool)
      (pruned : Int → ItemRow → Bool) (observed : Int → Prop), Reachable owner w →
      Sweep owner w after dropped pruned observed → ∀ id, Retained w id ∨ observed id →
      Survives w.db after.db id := by
  intro claimed
  obtain ⟨w, after, reached, db, sweep, lost⟩ := lone_sweep
  have survives := claimed _ w after _ _ _ reached sweep 3 (.inr (by decide))
  have song := survives.song ⟨"song", some 2⟩ (by rw [db]; rfl)
  rw [lost] at song
  cases song

/-- That song was not spared: its album is pruned. -/
theorem lone_song_not_spared :
    ∃ w, Reachable (fun _ => 1) w ∧ ¬ Spared w.db 3 (unseenLibrary 1 {5}) (prunable closing []) := by
  obtain ⟨w, after, reached, db, sweep, lost⟩ := lone_sweep
  refine ⟨w, reached, fun spared => ?_⟩
  have survives := (protected_item_survives_iff reached sweep (.inr (by decide))).mpr spared
  have song := survives.song ⟨"song", some 2⟩ (by rw [db]; rfl)
  rw [lost] at song
  cases song

end Lost

end Qcm.SyncPruneProofs
