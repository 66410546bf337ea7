import Qcm.ProviderDeletion

/-!
What is left of a provider after `DeleteProviderReq`.

The foreign keys lead from every row to an item, and from an item to its library
and its provider, where it has a library: `ForeignKeys` is kept by every
statement.  The deletion takes the items along that the provider's libraries
account for (`deleteProviders_clears_iff`), and afterwards no library of the
provider can be written, so no item of it in one (`Gone`).
-/

namespace Qcm.ProviderDeletion

open Lib Lib.Runs SyncDatabase

variable {owner : Int → Int} {p : Int} {s t : Store} {db : Database}

/-! ## The foreign keys -/

/-- The tables keyed by an item, and the mixes behind them. -/
structure Keyed (db : Database) : Prop where
  albums : Refers db.albums (fun id _ => some id) db.items
  artists : Refers db.artists (fun id _ => some id) db.items
  songs : Refers db.songs (fun id _ => some id) db.items
  remoteMixes : Refers db.remoteMixes (fun id _ => some id) db.items
  mixes : Refers db.mixes (fun _ row => row.remoteId) db.remoteMixes

variable {statement : Statement} {sql : List Statement} {after : World}

theorem ForeignKeys.keyed (keys : ForeignKeys s) : Keyed s.db :=
  { keys with }

theorem ForeignKeys.of_keyed
    (libraries : ∀ id row, s.db.libraries.lookup id = some row → row.providerId ∈ s.providers)
    (items : Refers s.db.items (fun _ row => row.libraryId) s.db.libraries) (keyed : Keyed s.db) :
    ForeignKeys s :=
  { keyed with libraries := libraries, items := items }

theorem Keyed.deleteItems (keyed : Keyed db) (gone : Int → ItemRow → Bool) : Keyed (db.deleteItems gone) where
  albums := keyed.albums.cascade gone
  artists := keyed.artists.cascade gone
  songs := (keyed.songs.filter_child _).cascade gone
  remoteMixes := keyed.remoteMixes.cascade gone
  mixes := keyed.mixes.cascade fun id _ => Hash.hits gone db.items id

theorem ForeignKeys.deleteItems (keys : ForeignKeys s) (gone : Int → ItemRow → Bool) :
    ForeignKeys { s with db := s.db.deleteItems gone } :=
  .of_keyed keys.libraries (keys.items.filter_child _) (keys.keyed.deleteItems gone)

theorem ForeignKeys.deleteLibraries (keys : ForeignKeys s) (gone : Int → LibraryRow → Bool) :
    ForeignKeys { s with db := s.db.deleteLibraries gone } := by
  refine .of_keyed (fun id row there => ?_) (keys.items.cascade gone) ?_
  · exact keys.libraries id row (Hash.lookup_sub there).1
  · have keyed : Keyed { s.db with libraries := Hash.filter (fun id row => !gone id row) s.db.libraries } :=
      { keys with }
    exact keyed.deleteItems _

theorem ForeignKeys.deleteProviders (keys : ForeignKeys s) (gone : Int → Bool) :
    ForeignKeys (s.deleteProviders gone) := by
  have cascaded := keys.deleteLibraries fun _ row => s.providers.contains row.providerId && gone row.providerId
  refine .of_keyed (fun id row there => ?_) cascaded.items cascaded.keyed
  obtain ⟨stored, spared⟩ := Hash.lookup_sub there
  have known := keys.libraries id row stored
  refine List.mem_filter.mpr ⟨known, ?_⟩
  simpa [known] using spared

theorem checked_eq_some {found : Bool} : s.checked found db = some t ↔ found = true ∧ t = { s with db := db } := by
  unfold Store.checked
  split <;> rename_i here <;> simp [here, eq_comm]

private theorem all_has {β : Type} {table : Hash Int β} {column : Option Int}
    (found : column.all (has table) = true) : ∀ id ∈ column, (table.lookup id).isSome := by
  rintro id named
  cases named
  exact found

theorem ForeignKeys.exec (keys : ForeignKeys s) (done : statement.exec s = some t) : ForeignKeys t := by
  have own {β : Type} {table : Hash Int β} {id : Int} (found : has table id = true) :
      ∀ other ∈ some id, (table.lookup other).isSome := by
    rintro other named
    cases named
    exact found
  cases statement with
  | putProvider id =>
    cases done
    exact .of_keyed (fun id row there => List.mem_insert_of_mem (keys.libraries id row there)) keys.items keys.keyed
  | putLibrary id row =>
    obtain ⟨known, rfl⟩ := checked_eq_some.mp done
    refine .of_keyed (fun other next there => ?_) keys.items.put_parent
      { keys with }
    rw [Hash.lookup_put] at there
    split at there
    · cases there
      simpa using known
    · exact keys.libraries other next there
  | putItem id row =>
    obtain ⟨found, rfl⟩ := checked_eq_some.mp done
    exact .of_keyed keys.libraries (keys.items.put_child (all_has found))
      ⟨keys.albums.put_parent, keys.artists.put_parent, keys.songs.put_parent, keys.remoteMixes.put_parent,
        keys.mixes⟩
  | putAlbum id row =>
    obtain ⟨found, rfl⟩ := checked_eq_some.mp done
    exact { keys with albums := keys.albums.put_child (own found) }
  | putArtist id row =>
    obtain ⟨found, rfl⟩ := checked_eq_some.mp done
    exact { keys with artists := keys.artists.put_child (own found) }
  | putSong id row =>
    obtain ⟨found, rfl⟩ := checked_eq_some.mp done
    exact { keys with songs := keys.songs.put_child (own (Bool.and_eq_true_iff.mp found).1) }
  | putRemoteMix id row =>
    obtain ⟨found, rfl⟩ := checked_eq_some.mp done
    exact { keys with
      remoteMixes := keys.remoteMixes.put_child (own found), mixes := keys.mixes.put_parent }
  | putDynamic id row =>
    obtain ⟨_, rfl⟩ := checked_eq_some.mp done
    exact { keys with }
  | putMix id row =>
    obtain ⟨found, rfl⟩ := checked_eq_some.mp done
    exact { keys with mixes := keys.mixes.put_child (all_has found) }
  | putAlbumArtist id row | putSongArtist id row | putMixSong id row =>
    obtain ⟨_, rfl⟩ := checked_eq_some.mp done
    exact { keys with }
  | deleteProviders gone =>
    cases done
    exact keys.deleteProviders gone
  | deleteLibraries gone =>
    cases done
    exact keys.deleteLibraries gone
  | deleteItems gone =>
    cases done
    exact keys.deleteItems gone
  | deleteMixes gone =>
    cases done
    exact { keys with mixes := keys.mixes.filter_child _ }
  | deleteAlbumArtists gone | deleteSongArtists gone | deleteMixSongs gone =>
    cases done
    exact { keys with }

/-- The provider row is gone, and the items of the provider. -/
structure Gone (p : Int) (s : Store) : Prop where
  row : p ∉ s.providers
  items : ∀ id row, s.db.items.lookup id = some row → row.providerId ≠ p

theorem ForeignKeys.no_library (keys : ForeignKeys s) (row : p ∉ s.providers) {id : Int} {library : LibraryRow}
    (there : s.db.libraries.lookup id = some library) : library.providerId ≠ p := fun same =>
  row (same ▸ keys.libraries id library there)

theorem Gone.clean (gone : Gone p s) (keys : ForeignKeys s) : Clean p s.db := by
  have foreign (id : Int) (there : (s.db.items.lookup id).isSome) : Foreign p s.db id := by
    obtain ⟨row, found⟩ := Option.isSome_iff_exists.mp there
    exact ⟨row, found, gone.items id row found⟩
  constructor
  · exact gone.items
  · exact fun id row there => foreign id (keys.songs id row there id rfl)
  · exact fun id row there => foreign id (keys.albums id row there id rfl)
  · exact fun id row there => foreign id (keys.artists id row there id rfl)
  · exact fun id row there => foreign id (keys.remoteMixes id row there id rfl)
  · intro id row remote there named
    obtain ⟨mix, found⟩ := Option.isSome_iff_exists.mp (keys.mixes id row there remote named)
    exact foreign remote (keys.remoteMixes remote mix found remote rfl)

private theorem deleteItems_items (gone : Int → ItemRow → Bool) :
    (db.deleteItems gone).items = Hash.filter (fun id row => !gone id row) db.items := rfl

private theorem Gone.of_filter {keep : Int → ItemRow → Bool} (gone : Gone p s) (providers : p ∉ t.providers)
    (items : t.db.items = Hash.filter keep s.db.items) : Gone p t := by
  refine ⟨providers, fun id row there => ?_⟩
  rw [items] at there
  exact gone.items id row (Hash.lookup_sub there).1

/-- A statement brings no item of the provider back: it would lie in a library
that the provider cannot have. -/
theorem Gone.exec (gone : Gone p s) (keys : ForeignKeys s) (keeps : statement.Keeps p s.db)
    (done : statement.exec s = some t) : Gone p t := by
  cases statement with
  | putProvider id =>
    cases done
    refine ⟨fun back => ?_, gone.items⟩
    obtain rfl | there := List.mem_insert_iff.mp back
    · exact keeps rfl
    · exact gone.row there
  | putItem id row =>
    obtain ⟨found, rfl⟩ := checked_eq_some.mp done
    refine ⟨gone.row, fun other next there => ?_⟩
    rw [Hash.lookup_put] at there
    split at there
    · cases there
      intro mine
      obtain ⟨library, named, owned⟩ := keeps mine
      rw [named] at found
      obtain ⟨row, stored⟩ := Option.isSome_iff_exists.mp found
      exact keys.no_library gone.row stored (owned row stored)
    · exact gone.items other next there
  | deleteProviders cut =>
    cases done
    exact gone.of_filter (fun back => gone.row (List.mem_of_mem_filter back)) (deleteItems_items _)
  | deleteLibraries cut | deleteItems cut =>
    cases done
    exact gone.of_filter gone.row (deleteItems_items _)
  | deleteMixes cut =>
    cases done
    exact ⟨gone.row, gone.items⟩
  | _ =>
    first
      | (obtain ⟨_, rfl⟩ := checked_eq_some.mp done
         exact ⟨gone.row, gone.items⟩)
      | (cases done
         exact ⟨gone.row, gone.items⟩)

theorem deleteProviders_items (keys : ForeignKeys s) {id : Int} {row : ItemRow} :
    (s.deleteProviders fun id => id = p).db.items.lookup id = some row ↔
      s.db.items.lookup id = some row ∧ ∀ library place, row.libraryId = some place →
        s.db.libraries.lookup place = some library → library.providerId ≠ p := by
  have items : (s.deleteProviders fun id => id = p).db.items = Hash.filter (fun _ row => !row.libraryId.any
      (Hash.hits (fun _ row => s.providers.contains row.providerId && decide (row.providerId = p))
        s.db.libraries)) s.db.items := rfl
  rw [items, Hash.lookup_filter, Option.filter_eq_some_iff, Bool.not_eq_true', ← Bool.not_eq_true,
    Option.any_eq_true]
  refine and_congr_right fun _ => ⟨fun spared library place named there mine => ?_, ?_⟩
  · have known := keys.libraries place library there
    refine spared ⟨place, named, Hash.hits_iff.mpr ⟨library, there, ?_⟩⟩
    exact Bool.and_eq_true_iff.mpr ⟨by simpa using known, decide_eq_true mine⟩
  · rintro apart ⟨place, named, hit⟩
    obtain ⟨library, there, mine⟩ := Hash.hits_iff.mp hit
    exact apart library place named there (of_decide_eq_true (Bool.and_eq_true_iff.mp mine).2)

/-- The deletion leaves no item of the provider exactly when its libraries
account for all of them. -/
theorem deleteProviders_clears_iff (keys : ForeignKeys s) :
    Gone p (s.deleteProviders fun id => id = p) ↔
      ∀ id row, s.db.items.lookup id = some row → Homed p s.db row := by
  constructor
  · intro gone id row there mine
    by_contra unhomed
    refine gone.items id row ((deleteProviders_items keys).mpr ⟨there, fun library place named stored same => ?_⟩) mine
    refine unhomed ⟨place, named, fun other found => ?_⟩
    rw [stored] at found
    cases found
    exact same
  · intro homed
    refine ⟨by simp [Store.deleteProviders], fun id row there mine => ?_⟩
    obtain ⟨stored, spared⟩ := (deleteProviders_items keys).mp there
    obtain ⟨place, named, owned⟩ := homed id row stored mine
    obtain ⟨library, found⟩ := Option.isSome_iff_exists.mp (keys.items id row stored place named)
    exact spared library place named found (owned library found)

theorem execAll_cons {rest : List Statement} :
    execAll s (statement :: rest) = (statement.exec s).bind fun t => execAll t rest := rfl

theorem ForeignKeys.execAll (keys : ForeignKeys s) (done : execAll s sql = some t) : ForeignKeys t := by
  induction sql generalizing s with
  | nil =>
    cases done
    exact keys
  | cons statement rest ih =>
    rw [execAll_cons] at done
    obtain ⟨u, first, later⟩ := Option.bind_eq_some_iff.mp done
    exact ih (keys.exec first) later

theorem Gone.execAll (gone : Gone p s) (keys : ForeignKeys s) (orderly : Orderly p s sql)
    (done : execAll s sql = some t) : Gone p t := by
  induction sql generalizing s with
  | nil =>
    cases done
    exact gone
  | cons statement rest ih =>
    rw [execAll_cons] at done
    obtain ⟨u, first, later⟩ := Option.bind_eq_some_iff.mp done
    exact ih (gone.exec keys orderly.1 first) (keys.exec first) (orderly.2 u first) later

theorem transact_cases (s : Store) (sql : List Statement) :
    transact s sql = s ∨ execAll s sql = some (transact s sql) := by
  unfold transact
  cases execAll s sql with
  | none => exact .inl rfl
  | some t => exact .inr rfl

theorem ForeignKeys.transact (keys : ForeignKeys s) (sql : List Statement) : ForeignKeys (transact s sql) := by
  obtain same | done := transact_cases s sql
  · rw [same]
    exact keys
  · exact keys.execAll done

theorem Gone.transact (gone : Gone p s) (keys : ForeignKeys s) (orderly : Orderly p s sql) :
    Gone p (transact s sql) := by
  obtain same | done := transact_cases s sql
  · rw [same]
    exact gone
  · exact gone.execAll keys orderly done

/-! ## Runs -/

/-- What a run keeps: the foreign keys, and after the deletion that the provider
is gone. -/
structure Settled (p : Int) (w : World) : Prop where
  keys : ForeignKeys w.store
  gone : w.stage.past = true → Gone p w.store

private theorem Settled.still {w : World} (settled : Settled p w) (same : after.store = w.store)
    (stage : after.stage.past = true → w.stage.past = true) : Settled p after :=
  ⟨same ▸ settled.keys, fun past => same ▸ settled.gone (stage past)⟩

private theorem Settled.of_store (same : after.store = t) (keys : ForeignKeys t)
    (gone : after.stage.past = true → Gone p t) : Settled p after := by
  subst same
  exact ⟨keys, gone⟩

private theorem step_db {sync after : SyncCoordinator.World} {event : SyncCoordinator.Event}
    (step : SyncCoordinator.Step owner sync event after)
    (quiet : event = .acquired p none ∨ event = .invalidatedSync p ∨ event = .released p) :
    after.db = sync.db := by
  cases step with
  | acquire | invalidateSync | release => rfl
  | _ => simp at quiet

theorem Settled.step {w : World} {event : Event} (settled : Settled p w) (accounted : Accounted p w event)
    (step : Step owner p w event after) : Settled p after := by
  cases step with
  | acquire here step =>
    exact settled.still (congrArg (Store.mk w.providers) (step_db step (.inl rfl))) (by simp [Stage.past])
  | stop here step =>
    exact settled.still (congrArg (Store.mk w.providers) (step_db step (.inr (.inl rfl)))) (by simp [Stage.past])
  | @delete sync s here done step written =>
    cases done
    have same : World.store { w with sync := sync, providers := _, stage := .deleted } =
        w.store.deleteProviders fun id => id = p := congrArg (Store.mk _) written
    exact .of_store same (settled.keys.deleteProviders _) fun _ =>
      (deleteProviders_clears_iff settled.keys).mpr accounted
  | scope here => exact settled.still rfl (by simp [here, Stage.past])
  | release here step =>
    exact settled.still (congrArg (Store.mk w.providers) (step_db step (.inr (.inr rfl)))) (by simp [here, Stage.past])
  | remove here =>
    refine settled.still (congrArg (Store.mk w.providers) ?_) (by simp [here, Stage.past])
    show (World.removeProvider w p).sync.db = w.sync.db
    unfold World.removeProvider
    dsimp only
    split <;> rfl
  | answer here => exact settled.still rfl (by simp [here, Stage.past])
  | fail outside unanswered => exact settled.still rfl (by simp [Stage.past])
  | failInside inside step =>
    exact settled.still (congrArg (Store.mk w.providers) (step_db step (.inr (.inr rfl)))) (by simp [Stage.past])
  | @other sync event sql apart step written =>
    have same : World.store { w with sync := sync, providers := (transact w.store sql).providers } =
        transact w.store sql := congrArg (Store.mk _) written
    exact .of_store same (settled.keys.transact sql) fun past =>
      (settled.gone past).transact settled.keys (accounted past)
  | @addProvider id cell =>
    have done : Statement.exec w.store (.putProvider id) =
        some (World.store { w with providers := w.providers.insert id, registered := w.registered.insert id cell }) :=
      rfl
    refine ⟨settled.keys.exec done, fun past => ?_⟩
    have keeps : Statement.Keeps p w.store.db (.putProvider id) := accounted past
    exact (settled.gone past).exec settled.keys keeps done

theorem foreignKeys_iff : ForeignKeys s ↔
    (∀ entry ∈ s.db.libraries.entries, entry.2.providerId ∈ s.providers) ∧
      Refers s.db.items (fun _ row => row.libraryId) s.db.libraries ∧
      Refers s.db.albums (fun id _ => some id) s.db.items ∧
      Refers s.db.artists (fun id _ => some id) s.db.items ∧
      Refers s.db.songs (fun id _ => some id) s.db.items ∧
      Refers s.db.remoteMixes (fun id _ => some id) s.db.items ∧
      Refers s.db.mixes (fun _ row => row.remoteId) s.db.remoteMixes := by
  constructor
  · rintro ⟨libraries, items, albums, artists, songs, remoteMixes, mixes⟩
    exact ⟨fun entry member => libraries entry.1 entry.2 ((Hash.lookup_eq_some_iff ..).mpr member), items, albums,
      artists, songs, remoteMixes, mixes⟩
  · rintro ⟨libraries, items, albums, artists, songs, remoteMixes, mixes⟩
    exact ⟨fun id row there => libraries ⟨id, row⟩ ((Hash.lookup_eq_some_iff ..).mp there), items, albums, artists,
      songs, remoteMixes, mixes⟩

instance (s : Store) : Decidable (ForeignKeys s) := decidable_of_iff _ foreignKeys_iff.symm

theorem request_answered {w : World} (called : w.stage = .called) (free : (w.sync.providers p).guard = none)
    (owned : SyncBatch.Owned owner w.sync.db) :
    ∃ trace after, Steps (Step owner p) w trace after ∧ after.stage = .returned ∧
      after.sync.db = (w.store.deleteProviders fun id => id = p).db ∧
      ∀ entry ∈ trace, ∃ stage, entry.2 = .request stage ∧ (stage = .deleted → entry.1.sync.db = w.sync.db) := by
  let acquired := w.sync.setProvider p ((w.sync.providers p).acquire none none)
  let stopped := acquired.setProvider p { acquired.providers p with active := 0 }
  let left := w.store.deleteProviders fun id => id = p
  let deleted := { stopped with db := left.db }
  let released := deleted.setProvider p (deleted.providers p).release
  have held : (acquired.providers p).guard = some ⟨none, none, none, []⟩ := by
    simp [acquired, SyncCoordinator.World.setProvider, SyncCoordinator.ProviderState.acquire]
  have keeps : (stopped.providers p).guard = some ⟨none, none, none, []⟩ := by
    simp [stopped, SyncCoordinator.World.setProvider, held]
  have owns : SyncBatch.Owned owner left.db := fun id row there => owned id row (Hash.lookup_sub there).1
  have acquire : Step owner p w (.request .guarded) { w with sync := acquired, stage := .guarded } :=
    .acquire called (.acquire free (by simp))
  have stop : Step owner p { w with sync := acquired, stage := .guarded } (.request .stopped)
      { w with sync := stopped, stage := .stopped } := .stop rfl (.invalidateSync held rfl)
  have delete : Step owner p { w with sync := stopped, stage := .stopped } (.request .deleted)
      { w with sync := deleted, providers := left.providers, stage := .deleted } :=
    .delete rfl rfl (.write keeps rfl owns) rfl
  have scope : Step owner p { w with sync := deleted, providers := left.providers, stage := .deleted }
      (.request .scoped) { w with sync := deleted, providers := left.providers, stage := .scoped } := .scope rfl
  have release : Step owner p { w with sync := deleted, providers := left.providers, stage := .scoped }
      (.request .released) { w with sync := released, providers := left.providers, stage := .released } :=
    .release rfl (.release keeps rfl)
  let removed : World :=
    World.removeProvider { w with sync := released, providers := left.providers, stage := .released } p
  have remove : Step owner p { w with sync := released, providers := left.providers, stage := .released }
      (.request .removed) { removed with stage := .removed } := .remove rfl
  have answer : Step owner p { removed with stage := .removed } (.request .returned)
      { removed with stage := .returned } := .answer rfl
  refine ⟨_, _, ((((((((Steps.done w).snoc acquire).snoc stop).snoc delete).snoc scope).snoc release).snoc
    remove).snoc answer), rfl, ?_, ?_⟩
  · show (World.removeProvider _ p).sync.db = left.db
    unfold World.removeProvider
    dsimp only
    split <;> rfl
  · simp [stopped, acquired, SyncCoordinator.World.setProvider]

/-- Once the reply is `Ok`, nothing of the provider is there. -/
theorem deleted_provider_is_gone {w after : World} {trace : List (World × Event)} (keys : ForeignKeys w.store)
    (fresh : w.stage = .called) (run : Steps (Step owner p) w trace after)
    (accounted : ∀ entry ∈ trace, Accounted p entry.1 entry.2) (returned : after.stage = .returned) :
    Clean p after.sync.db := by
  have settled : Settled p after := run.invariant (Settled p) (Accounted p) accounted
    (fun _ _ _ settled accounted step => settled.step accounted step) ⟨keys, by simp [fresh, Stage.past]⟩
  exact (settled.gone (by simp [returned, Stage.past])).clean settled.keys

/-- A coordinator that has just started over some tables, with the request. -/
private def requested (db : Database) : World where
  sync := ⟨db, fun _ => .fresh, fun _ => none, 0, [], fun _ => 0⟩
  providers := [1]
  registered := ∅
  stage := .called

/-- A provider with a song in its library. -/
private def songTables : Database :=
  { Database.empty with
    libraries := Hash.put 4 ⟨1, 0⟩ ∅
    items := Hash.put 9 ⟨"song", some 4, 1, .song, 0⟩ ∅
    songs := Hash.put 9 ⟨"Song", none⟩ ∅ }

/-- A provider with a mix, as a batch writes it: the item, the remote mix and its
cache. -/
private def mixTables : Database :=
  { Database.empty with
    items := Hash.put 7 ⟨"daily", none, 1, .mix, 0⟩ ∅
    remoteMixes := Hash.put 7 ⟨"Daily"⟩ ∅
    mixes := Hash.put 3 ⟨"Daily", some 7⟩ ∅ }

private theorem owned_of (items : ∀ entry ∈ db.items.entries, entry.2.providerId = 1) :
    SyncBatch.Owned (fun _ => 1) db := fun id row there =>
  items ⟨id, row⟩ ((Hash.lookup_eq_some_iff ..).mp there)

private theorem songs_homed : ∀ entry ∈ songTables.items.entries, ∃ place, entry.2.libraryId = some place ∧
    ∀ library, songTables.libraries.lookup place = some library → library.providerId = 1 := by
  intro entry member
  cases List.mem_singleton.mp member
  exact ⟨4, rfl, fun library there => by cases there; rfl⟩

theorem deleted_song_is_gone : ∃ trace after, Steps (Step (fun _ => 1) 1) (requested songTables) trace after ∧
    after.stage = .returned ∧ (songTables.items.lookup 9).isSome ∧ Clean 1 after.sync.db := by
  have owned : SyncBatch.Owned (fun _ => 1) songTables := owned_of (by decide)
  obtain ⟨trace, after, run, returned, _, requests⟩ :=
    request_answered (p := 1) (w := requested songTables) rfl rfl owned
  refine ⟨trace, after, run, returned, by decide, ?_⟩
  refine deleted_provider_is_gone (by decide) rfl run (fun entry member => ?_) returned
  obtain ⟨stage, event, same⟩ := requests entry member
  rw [event]
  cases stage with
  | deleted =>
    show ∀ id row, _ → _
    rw [same rfl]
    exact fun id row there _ => songs_homed ⟨id, row⟩ ((Hash.lookup_eq_some_iff ..).mp there)
  | _ => exact trivial

theorem deleted_mix_stays : ∃ trace after, Steps (Step (fun _ => 1) 1) (requested mixTables) trace after ∧
    ForeignKeys (requested mixTables).store ∧ after.stage = .returned ∧ ¬ Clean 1 after.sync.db := by
  have owned : SyncBatch.Owned (fun _ => 1) mixTables := owned_of (by decide)
  obtain ⟨trace, after, run, returned, left, _⟩ :=
    request_answered (p := 1) (w := requested mixTables) rfl rfl owned
  refine ⟨trace, after, run, by decide, returned, fun clean => ?_⟩
  refine clean.items 7 ⟨"daily", none, 1, .mix, 0⟩ ?_ rfl
  rw [left]
  decide

end Qcm.ProviderDeletion
