import Qcm.EntityNoticeProofs

/-!
What `collect` takes away.

It walks the references from the pinned keys and evicts entries that it did not
meet, the longest untouched first, until the store is within its bounds.  Each
eviction leaves a record of the absence, which `bytes` counts and the loop does
not: where it stops before all such entries are gone, the store is within its
bounds exactly when they leave room for the records too.
-/

namespace Qcm.EntityCollectProofs

open Lib Lib.Runs Lib.Worklist EntityStore EntityApplyProofs EntityKey
open EntityPhases EntityRuns EntityNoticeProofs

variable {iteration : Iteration} {store before after : Store} {key : Key} {sizes : Sizes}

/-- How many absence records are kept. -/
def absenceLimit (store : Store) : Nat := max 64 store.tombstoneCapacity + store.pins.size

/-- The step of the loop in `trimAbsences`. -/
private abbrev trimStep (pins : Hash Key Nat) (limit : Nat) (absent : Hash Key Status) (key : Key) :
    Hash Key Status :=
  if limit < absent.size ∧ key ∉ pins then absent.erase key else absent

variable {keys : List Key}

private theorem mem_of_mem_trim (pins : Hash Key Nat) (limit : Nat) (keys : List Key)
    (absent : Hash Key Status) (member : key ∈ keys.foldl (trimStep pins limit) absent) :
    key ∈ absent := by
  induction keys generalizing absent with
  | nil => exact member
  | cons first rest ih =>
    have held := ih _ member
    unfold trimStep at held
    split at held
    · exact (AList.mem_erase.mp held).2
    · exact held

private theorem size_trim (pins : Hash Key Nat) (limit : Nat) (keys : List Key)
    (absent : Hash Key Status) (distinct : keys.Nodup) (held : ∀ key ∈ keys, key ∈ absent) :
    Hash.size (keys.foldl (trimStep pins limit) absent) =
      if absent.size ≤ limit then absent.size
      else max limit (absent.size - (keys.filter fun key => decide (key ∉ pins)).length) := by
  induction keys generalizing absent with
  | nil =>
    simp only [List.foldl_nil, List.filter_nil, List.length_nil, Nat.sub_zero]
    split <;> omega
  | cons first rest ih =>
    obtain ⟨fresh, distinct⟩ := List.nodup_cons.mp distinct
    rw [List.foldl_cons]
    unfold trimStep
    by_cases full : limit < absent.size
    · by_cases pin : first ∈ pins
      · rw [if_neg fun both => both.2 pin, ih absent distinct fun key member =>
          held key (.tail _ member)]
        simp [pin]
      · rw [if_pos ⟨full, pin⟩, ih (absent.erase first) distinct fun key member =>
          AList.mem_erase.mpr ⟨fun same => fresh (same ▸ member), held key (.tail _ member)⟩]
        have fewer := Hash.size_erase (held first List.mem_cons_self)
        simp only [List.filter_cons, pin, not_false_eq_true, decide_true, if_true, List.length_cons]
        split <;> split <;> omega
    · rw [if_neg fun both => full both.1, ih absent distinct fun key member =>
        held key (.tail _ member), if_pos (Nat.le_of_not_lt full),
        if_pos (Nat.le_of_not_lt full)]

/-- Pinned keys alone never exceed the limit, so trimming reaches it. -/
theorem size_trimAbsences (absent : Hash Key Status) (pins : Hash Key Nat) (capacity : Nat) :
    Hash.size (trimAbsences iteration absent pins capacity) =
      min absent.size (max 64 capacity + pins.size) := by
  have order := iteration.perm absent.keys
  have trimmed := size_trim pins (max 64 capacity + pins.size) (iteration.order absent.keys) absent
    (order.nodup_iff.mpr absent.keys_nodup) fun key member => AList.mem_keys.mpr (order.mem_iff.mp member)
  have parts := List.length_eq_length_filter_add (l := absent.keys) fun key => decide (key ∈ pins)
  have few : (absent.keys.filter fun key => decide (key ∈ pins)).length ≤ pins.size := by
    rw [Hash.size_eq]
    refine (List.subperm_of_subset (absent.keys_nodup.filter _) fun key member => ?_).length_le
    exact AList.mem_keys.mp (by simpa using (List.mem_filter.mp member).2)
  have same : ((iteration.order absent.keys).filter fun key => decide (key ∉ pins)).length =
      (absent.keys.filter fun key => !decide (key ∈ pins)).length := by
    rw [(order.filter _).length_eq]
    simp only [decide_not]
  have counted := Hash.size_eq absent
  change Hash.size (List.foldl (trimStep pins _) absent _) = _
  rw [trimmed, same]
  split <;> omega

theorem mem_of_mem_trimAbsences {absent : Hash Key Status} {pins : Hash Key Nat} {capacity : Nat}
    (member : key ∈ trimAbsences iteration absent pins capacity) : key ∈ absent :=
  mem_of_mem_trim pins _ _ absent member

/-! ## Tidy stores -/

/-- The clock is not behind an entry, no two entries were touched at one tick, no
stored key is recorded as absent, and pinned keys are canonical. -/
structure Tidy (store : Store) : Prop where
  clock : ∀ key entry, store.entries.lookup key = some entry → entry.touched ≤ store.clock
  ticks : ∀ key other left right, store.entries.lookup key = some left →
    store.entries.lookup other = some right → left.touched = right.touched → key = other
  absent : ∀ key ∈ store.absent, store.entries.lookup key = none
  pins : ∀ key ∈ store.pins, canonical key = key

theorem Tidy.keep (tidy : Tidy before)
    (entries : ∀ key entry, after.entries.lookup key = some entry →
      ∃ old, before.entries.lookup key = some old ∧ old.touched = entry.touched)
    (clock : before.clock ≤ after.clock)
    (absent : ∀ key ∈ after.absent, after.entries.lookup key = none)
    (pins : after.pins = before.pins) : Tidy after := by
  refine ⟨fun key entry found => ?_, fun key other left right found found' same => ?_, absent,
    fun key member => tidy.pins key (pins ▸ member)⟩
  · obtain ⟨old, held, touched⟩ := entries key entry found
    rw [← touched]
    exact Nat.le_trans (tidy.clock key old held) clock
  · obtain ⟨old, held, touched⟩ := entries key left found
    obtain ⟨old', held', touched'⟩ := entries other right found'
    exact tidy.ticks key other old old' held held' (touched.trans (same.trans touched'.symm))

theorem leave_tidy (tidy : Tidy store) (key : Key) (status : Status) :
    Tidy (rememberAbsence iteration { store with entries := store.entries.erase key } key status) := by
  refine tidy.keep (fun other entry found => ?_) le_rfl (fun other member => ?_) rfl
  · simp only [rememberAbsence, Hash.lookup_erase] at found
    split at found
    · cases found
    · exact ⟨entry, found, rfl⟩
  · have recorded := mem_of_mem_trimAbsences member
    simp only [rememberAbsence, Hash.lookup_erase]
    split
    · rfl
    · rename_i apart
      exact tidy.absent other ((AList.mem_insert _).mp recorded |>.resolve_left apart)

theorem foldl_tidy {α : Type} {round : Store → α → Store}
    (keeps : ∀ store a, Tidy store → Tidy (round store a)) (rounds : List α) (tidy : Tidy store) :
    Tidy (rounds.foldl round store) := by
  induction rounds generalizing store with
  | nil => exact tidy
  | cons first rest ih => exact ih (keeps store first tidy)

private theorem Tidy.same (tidy : Tidy before) (entries : after.entries = before.entries)
    (clock : after.clock = before.clock) (absent : after.absent = before.absent)
    (pins : after.pins = before.pins) : Tidy after :=
  tidy.keep (fun _ entry found => ⟨entry, entries ▸ found, rfl⟩) (Nat.le_of_eq clock.symm)
    (fun key member => by rw [entries]; exact tidy.absent key (absent ▸ member)) pins

private theorem adopt_tidy (staged : Hash Key Entry) (store : Store) (key : Key) (tidy : Tidy store) :
    Tidy (adopt staged store key) := by
  unfold adopt
  split
  · exact tidy
  refine ⟨fun other entry found => ?_, fun first second left right found found' same => ?_,
    fun other member => ?_, tidy.pins⟩
  · obtain ⟨rfl, rfl⟩ | ⟨-, found⟩ := Hash.lookup_insert_some found
    · exact le_rfl
    · exact Nat.le_succ_of_le (tidy.clock other entry found)
  · rw [Hash.lookup_insert] at found found'
    split at found <;> split at found'
    · rename_i one two
      exact one.trans two.symm
    · cases found
      have early := tidy.clock second right found'
      dsimp only at same
      omega
    · cases found'
      have early := tidy.clock first left found
      dsimp only at same
      omega
    · exact tidy.ticks first second left right found found' same
  · obtain ⟨apart, recorded⟩ := AList.mem_erase.mp member
    rw [Hash.lookup_insert, if_neg apart]
    exact tidy.absent other recorded

private theorem trimTombstones_tidy (tidy : Tidy store) : Tidy (trimTombstones store) := by
  unfold trimTombstones
  split
  · exact tidy.same rfl rfl rfl rfl
  · exact tidy

private theorem commit_tidy (instanceName : String) (run : EntityStore.Run) (tidy : Tidy run.store) :
    Tidy (commit iteration instanceName run) := by
  unfold commit
  dsimp only
  refine Tidy.same (foldl_tidy (adopt_tidy run.staged) _ (trimTombstones_tidy ?_)) rfl rfl rfl rfl
  exact foldl_tidy (fun store key held => leave_tidy held key _) _ (tidy.same rfl rfl rfl rfl)

private theorem evictions_tidy (iteration : Iteration) (sizes : Sizes) (keys : List Key) (used : Nat) (store : Store) (tidy : Tidy store) :
    Tidy (evictions iteration sizes keys used store).2 := by
  induction keys generalizing used store with
  | nil => exact tidy
  | cons key rest ih =>
    unfold evictions
    split
    · exact tidy
    · exact ih _ _ (leave_tidy tidy key .evicted)

theorem collect_tidy (tidy : Tidy store) : Tidy (collect iteration sizes store).2 := by
  have evicted := evictions_tidy iteration sizes (candidates iteration store) (bytes sizes store) store tidy
  exact evicted.keep (fun _ entry found => ⟨entry, found, rfl⟩) le_rfl
    (fun key member => evicted.absent key (mem_of_mem_trimAbsences member)) rfl

theorem run_tidy {trace : List (Store × Call)} (run : Run sizes trace store) : Tidy store := by
  refine run.invariant Tidy (fun _ _ => True) (fun _ _ => trivial) ?_
    ⟨fun _ _ found => (by cases found), fun _ _ _ _ found => (by cases found),
      fun _ member => (by cases member), fun _ member => (by cases member)⟩
  rintro s ⟨iteration, op⟩ _ tidy _ rfl
  have thinned {t : Store} (thin : Thinned s t) (absent : t.absent = s.absent) (pins : t.pins = s.pins) :
      Tidy t := by
    refine tidy.keep (fun key entry found => ?_) (Nat.le_of_eq thin.clock.symm) (fun key member => ?_) pins
    · obtain ⟨old, held, _, rfl⟩ := thin.entries key entry found
      exact ⟨old, held, rfl⟩
    · have none := tidy.absent key (absent ▸ member)
      cases found : t.entries.lookup key with
      | none => rfl
      | some entry =>
        obtain ⟨old, held, _⟩ := thin.entries key entry found
        rw [none] at held
        cases held
  cases op with
  | apply batch =>
    change Tidy (apply iteration s batch).2
    by_cases accepted : (apply iteration s batch).1.error = ""
    · obtain ⟨_, changed, _, committed, _⟩ := apply_accepted accepted
      rw [committed]
      refine commit_tidy _ _ ?_
      rwa [gather_store]
    · rwa [refused_batch_changes_nothing iteration s batch accepted]
  | collect => exact collect_tidy tidy
  | clear =>
    obtain ⟨none, _, pins, clock⟩ := clear_shape iteration s
    change Tidy (clear iteration s).2
    refine tidy.keep (fun key entry found => ?_)
      (Nat.le_of_eq clock.symm) (fun key _ => ?_) pins
    · rw [none] at found
      cases found
    · rw [none]
      rfl
  | markStale => exact thinned markStale_thinned rfl rfl
  | pin key =>
    refine { tidy with pins := fun other member => ?_ }
    obtain rfl | held := (AList.mem_insert _).mp member
    · exact canonical_idem key
    · exact tidy.pins other held
  | unpin key =>
    change Tidy (unpin s key)
    unfold unpin
    split
    · exact tidy
    · exact { tidy with pins := fun other member => tidy.pins other (AList.mem_erase.mp member).2 }
    · rename_i count found
      refine { tidy with pins := fun other member => ?_ }
      obtain rfl | held := (AList.mem_insert _).mp member
      · exact canonical_idem key
      · exact tidy.pins other held
  | setCapacity capacity | setByteBudget bytes | setTombstoneCapacity capacity =>
    exact tidy.same rfl rfl rfl rfl

/-- In every run no key is both held and recorded as absent, no two entries were
touched at one tick, and the index of dependencies has exactly the references of
the entries, whichever were evicted or went stale. -/
theorem entries_match_their_records {trace : List (Store × Call)} (run : Run sizes trace store) :
    Tidy store ∧ Indexed store := ⟨run_tidy run, run_indexed run⟩

/-- A song of an album. -/
def albumSong : EntityBatch :=
  { protocol := 2, instanceName := "backend", songs := [⟨1, ⟨0, 0, 1⟩, {}, some (some 7), none, none⟩] }

def onAlbum : Store := (apply inOrder Store.initial albumSong).2

/-- A song that went stale is still found under its album. -/
theorem stale_song_is_indexed :
    ⟨⟨Song, 1⟩, {.album}, .ready⟩ ∈ Hash.value (markStale inOrder onAlbum).2.dependents ⟨Album, 7⟩ [] := by
  have run : Run wide [(Store.initial, ⟨inOrder, .apply albumSong⟩), (onAlbum, ⟨inOrder, .markStale⟩)]
      (markStale inOrder onAlbum).2 := Steps.snoc (t := onAlbum) (.snoc (.done _) rfl) rfl
  have link : ((markStale inOrder onAlbum).2.entries.lookup ⟨Song, 1⟩).map Entry.album = some (some 7) := by decide
  obtain ⟨entry, found, linked⟩ := Option.map_eq_some_iff.mp link
  exact ((entries_match_their_records run).2 _ _).mpr ⟨_, entry, _, found, .album linked, rfl⟩

/-- The pinned keys. -/
def pinnedKeys (store : Store) : List Key :=
  store.pins.keys.filter fun key => 0 < Hash.value store.pins key 0

/-- A key that can be reached from a pinned one through the references of the
stored entries. -/
def Held (store : Store) : Key → Prop := Reaches (references store) (pinnedKeys store)

private theorem reference_plain {entry : Entry} (member : key ∈ entry.references) :
    canonical key = key := by
  obtain artist | album := List.mem_append.mp member
  · obtain ⟨_, _, rfl⟩ := List.mem_map.mp artist
    rfl
  · obtain ⟨_, _, rfl⟩ := List.mem_map.mp album
    rfl

private theorem held_plain (tidy : Tidy store) (held : Held store key) : canonical key = key := by
  refine Reaches.closed (P := fun key => canonical key = key) held (fun a member => ?_)
    fun a _ b linked => ?_
  · exact tidy.pins a (AList.mem_keys.mpr (List.mem_filter.mp member).1)
  · unfold references at linked
    split at linked
    · cases linked
    · exact reference_plain linked

/-- The walk meets exactly what can be reached. -/
theorem mem_reachable (tidy : Tidy store) (key : Key) :
    key ∈ reachable iteration store ↔ Held store key := by
  have order := iteration.perm store.pins.keys
  have roots : ∀ a, a ∈ pinned iteration store ↔ a ∈ pinnedKeys store := fun a =>
    (order.filter _).mem_iff
  have same : ∀ a, Reaches (references store) (pinned iteration store) a ↔ Held store a := fun a =>
    ⟨fun reached => reached.closed (fun b member => .root ((roots b).mp member))
      (fun _ before _ linked => before.link linked),
    fun reached => Reaches.closed reached (fun b member => .root ((roots b).mpr member))
      (fun _ before _ linked => before.link linked)⟩
  rw [← same key]
  have links : (store.entries.keys.map fun key => (references store key).length).sum =
      ∑ a ∈ store.entries.keys.toFinset, (references store a).length :=
    (List.sum_toFinset _ store.entries.keys_nodup).symm
  have outside : ∀ a, Reaches (references store) (pinned iteration store) a →
      a ∉ store.entries.keys.toFinset → references store a = [] := by
    intro a reached unknown
    unfold references
    rw [find_plain (held_plain tidy ((same a).mp reached)), AList.lookup_eq_none.mpr fun member =>
      unknown (List.mem_toFinset.mpr (AList.mem_keys.mp member))]
  refine mem_visit outside ?_ key
  rw [links]
  refine Nat.add_le_add ?_ le_rfl
  rw [Hash.size_eq, ← order.length_eq]
  exact List.length_filter_le _ _

/-! ## Evictions -/

/-- The bytes of the entry of a key. -/
def entrySize (sizes : Sizes) (store : Store) (key : Key) : Nat :=
  (store.entries.lookup key).elim sizes.entry (entryBytes sizes)

private theorem evict_lookup (other : Key) :
    (evict iteration store key).entries.lookup other =
      if other = key then none else store.entries.lookup other := by
  simp [evict, rememberAbsence, Hash.lookup_erase]

private theorem evict_size (iteration : Iteration) (stored : key ∈ store.entries) :
    (evict iteration store key).entries.size + 1 = store.entries.size :=
  Hash.size_erase stored

private theorem evict_bytes (iteration : Iteration) (sizes : Sizes) (stored : key ∈ store.entries) :
    bytes sizes (evict iteration store key) + entrySize sizes store key +
        store.absent.size * absenceBytes sizes =
      bytes sizes store + (evict iteration store key).absent.size * absenceBytes sizes := by
  obtain ⟨entry, found⟩ := Option.isSome_iff_exists.mp (AList.lookup_isSome.mpr stored)
  have values := ((Hash.values_perm_erase found).map (entryBytes sizes)).sum_eq
  rw [List.map_cons, List.sum_cons] at values
  rw [entrySize, found, Option.elim_some]
  unfold bytes
  rw [values]
  change _ + (Hash.values (store.entries.erase key) |>.map (entryBytes sizes)).sum + _ + _ = _
  have pins : (evict iteration store key).pins = store.pins := rfl
  have tombstones : (evict iteration store key).tombstones = store.tombstones := rfl
  rw [pins, tombstones]
  omega

private theorem evict_absent (iteration : Iteration) (fresh : store.absent.lookup key = none) :
    (evict iteration store key).absent.size = min (store.absent.size + 1) (absenceLimit store) := by
  change Hash.size (trimAbsences iteration (store.absent.insert key .evicted) _ _) = _
  rw [size_trimAbsences, Hash.size_insert, fresh]
  rfl

/-- The entries of the keys are not needed for the rest to be within the bounds,
when the records of their absence are not counted. -/
def Enough (sizes : Sizes) (store : Store) (keys : List Key) : Prop :=
  store.entries.size - keys.length ≤ store.capacity ∧
    bytes sizes store - (keys.map (entrySize sizes store)).sum ≤ store.byteBudget

private theorem enough_take {i : Nat} (early : i ≤ keys.length) :
    Enough sizes store (keys.take i) ↔ store.entries.size - i ≤ store.capacity ∧
      bytes sizes store - ((keys.take i).map (entrySize sizes store)).sum ≤ store.byteBudget := by
  rw [Enough, List.length_take, Nat.min_eq_left early]

/-- The loop evicts the first of the candidates, as many as are enough. -/
private theorem evictions_spec (iteration : Iteration) (sizes : Sizes) (keys : List Key) (used : Nat) (store : Store) (distinct : keys.Nodup)
    (stored : ∀ key ∈ keys, key ∈ store.entries) :
    ∃ n ≤ keys.length, evictions iteration sizes keys used store =
        ((keys.take n).map fun key => ⟨key, AllFields, .evicted⟩,
          (keys.take n).foldl (evict iteration) store) ∧
      (∀ i < n, ¬ (store.entries.size - i ≤ store.capacity ∧
        used - ((keys.take i).map (entrySize sizes store)).sum ≤ store.byteBudget)) ∧
      (n < keys.length → store.entries.size - n ≤ store.capacity ∧
        used - ((keys.take n).map (entrySize sizes store)).sum ≤ store.byteBudget) := by
  induction keys generalizing used store with
  | nil => exact ⟨0, le_rfl, rfl, by simp, by simp⟩
  | cons key rest ih =>
    obtain ⟨fresh, distinct⟩ := List.nodup_cons.mp distinct
    unfold evictions
    split
    · rename_i enough
      exact ⟨0, Nat.zero_le _, rfl, by simp, fun _ => by simpa using enough⟩
    · rename_i short
      have apart : ∀ other ∈ rest, other ≠ key := fun other member same => fresh (same ▸ member)
      have sizes_rest : ∀ i, (rest.take i).map (entrySize sizes (evict iteration store key)) =
          (rest.take i).map (entrySize sizes store) := fun i =>
        List.map_congr_left fun other member => by
          rw [entrySize, evict_lookup, if_neg (apart other (List.mem_of_mem_take member)), entrySize]
      have smaller := evict_size iteration (stored key List.mem_cons_self)
      obtain ⟨n, bound, result, before, last⟩ := ih (used - entrySize sizes store key)
        (evict iteration store key) distinct fun other member => by
          rw [← AList.lookup_isSome, evict_lookup, if_neg (apart other member), AList.lookup_isSome]
          exact stored other (.tail _ member)
      have capacity : (evict iteration store key).capacity = store.capacity := rfl
      have byteBudget : (evict iteration store key).byteBudget = store.byteBudget := rfl
      simp only [sizes_rest, capacity, byteBudget] at before last
      refine ⟨n + 1, Nat.succ_le_succ bound, ?_, fun i early => ?_, fun more => ?_⟩
      · rw [entrySize] at result
        dsimp only
        rw [result]
        rfl
      · cases i with
        | zero => simpa using short
        | succ i =>
          have shorter := before i (Nat.lt_of_succ_lt_succ early)
          rw [List.take_succ_cons, List.map_cons, List.sum_cons]
          rintro ⟨room, budget⟩
          exact shorter ⟨by omega, by omega⟩
      · obtain ⟨room, budget⟩ := last (Nat.lt_of_succ_lt_succ more)
        rw [List.take_succ_cons, List.map_cons, List.sum_cons]
        exact ⟨by omega, by omega⟩

/-- What evicting some keys leaves. -/
private structure Evicted (sizes : Sizes) (store : Store) (keys : List Key) (after : Store) : Prop where
  tidy : Tidy after
  lookup : ∀ key, after.entries.lookup key = if key ∈ keys then none else store.entries.lookup key
  pins : after.pins = store.pins
  capacity : after.capacity = store.capacity
  byteBudget : after.byteBudget = store.byteBudget
  limit : after.tombstoneCapacity = store.tombstoneCapacity
  size : after.entries.size + keys.length = store.entries.size
  bytes : bytes sizes after + (keys.map (entrySize sizes store)).sum +
    store.absent.size * absenceBytes sizes = EntityStore.bytes sizes store + after.absent.size * absenceBytes sizes
  absent : min after.absent.size (absenceLimit store) =
    min (store.absent.size + keys.length) (absenceLimit store)

private theorem foldl_evict (iteration : Iteration) (sizes : Sizes) (keys : List Key) (store : Store)
    (tidy : Tidy store) (distinct : keys.Nodup) (stored : ∀ key ∈ keys, key ∈ store.entries) :
    Evicted sizes store keys (keys.foldl (evict iteration) store) := by
  induction keys generalizing store with
  | nil => exact ⟨tidy, fun _ => rfl, rfl, rfl, rfl, rfl, rfl, rfl, rfl⟩
  | cons key rest ih =>
    obtain ⟨fresh, distinct⟩ := List.nodup_cons.mp distinct
    have apart : ∀ other ∈ rest, other ≠ key := fun other member same => fresh (same ▸ member)
    have here : key ∈ store.entries := stored key (.head _)
    have later := ih (evict iteration store key) (leave_tidy tidy key .evicted) distinct
      fun other member => by
        rw [← AList.lookup_isSome, evict_lookup, if_neg (apart other member), AList.lookup_isSome]
        exact stored other (.tail _ member)
    have unrecorded : store.absent.lookup key = none := by
      refine AList.lookup_eq_none.mpr fun recorded => ?_
      have gone := tidy.absent key recorded
      rw [AList.lookup_eq_none] at gone
      exact gone here
    have same : rest.map (entrySize sizes (evict iteration store key)) =
        rest.map (entrySize sizes store) :=
      List.map_congr_left fun other member => by
        rw [entrySize, evict_lookup, if_neg (apart other member), entrySize]
    have spent := evict_bytes iteration sizes here
    have recorded := evict_absent iteration unrecorded
    have smaller := evict_size iteration here
    have limit : absenceLimit (evict iteration store key) = absenceLimit store := rfl
    have bytes := later.bytes
    have absent := later.absent
    have size := later.size
    rw [same] at bytes
    rw [limit] at absent
    refine ⟨later.tidy, fun other => ?_, later.pins, later.capacity, later.byteBudget, later.limit,
      ?_, ?_, ?_⟩
    · rw [List.foldl_cons, later.lookup, evict_lookup]
      by_cases first : other = key
      · simp [first]
      · simp [first]
    · rw [List.length_cons, List.foldl_cons]
      omega
    · rw [List.map_cons, List.sum_cons, List.foldl_cons]
      omega
    · rw [List.length_cons, List.foldl_cons, absent, recorded]
      omega

/-- The stored keys that cannot be reached from a pinned one, the longest
untouched first. -/
def Oldest (store : Store) (keys : List Key) : Prop :=
  (∀ key, key ∈ keys ↔ key ∈ store.entries ∧ ¬ Held store key) ∧
    keys.Pairwise fun left right => touched store left < touched store right

theorem Oldest.nodup (oldest : Oldest store keys) : keys.Nodup :=
  oldest.2.imp fun {left right} earlier => by
    rintro rfl
    exact Nat.lt_irrefl _ earlier

theorem Oldest.unique {left right : List Key} (one : Oldest store left) (two : Oldest store right) :
    left = right := by
  have same : left.Perm right := (List.perm_ext_iff_of_nodup one.nodup two.nodup).mpr
    fun key => (one.1 key).trans (two.1 key).symm
  exact same.eq_of_pairwise (fun _ _ _ _ earlier later => absurd earlier (Nat.lt_asymm later)) one.2 two.2

theorem candidates_oldest (iteration : Iteration) (tidy : Tidy store) : Oldest store (candidates iteration store) := by
  have order := iteration.perm store.entries.keys
  have listed : ∀ key, key ∈ candidates iteration store ↔ key ∈ store.entries ∧ ¬ Held store key := by
    intro key
    rw [candidates, List.mem_insertionSort, List.mem_filter, order.mem_iff, decide_eq_true_eq,
      mem_reachable tidy, AList.mem_keys]
  refine ⟨listed, ?_⟩
  have distinct : (candidates iteration store).Nodup :=
    (List.perm_insertionSort _ _).nodup_iff.mpr ((order.nodup_iff.mpr store.entries.keys_nodup).filter _)
  have sorted : (candidates iteration store).Pairwise fun left right =>
      touched store left ≤ touched store right := by
    have total : Std.Total fun left right : Key => touched store left ≤ touched store right :=
      ⟨fun _ _ => Nat.le_total _ _⟩
    have trans : IsTrans Key fun left right => touched store left ≤ touched store right :=
      ⟨fun _ _ _ => Nat.le_trans⟩
    exact List.pairwise_insertionSort _ _
  refine (sorted.and distinct).imp_of_mem fun {left right} first second both => ?_
  obtain ⟨earlier, apart⟩ := both
  refine Nat.lt_of_le_of_ne earlier fun same => apart ?_
  obtain ⟨one, found⟩ := Option.isSome_iff_exists.mp (AList.lookup_isSome.mpr ((listed left).mp first).1)
  obtain ⟨two, found'⟩ := Option.isSome_iff_exists.mp (AList.lookup_isSome.mpr ((listed right).mp second).1)
  rw [touched, found, touched, found'] at same
  exact tidy.ticks left right one two found found' same

/-! ## What is left -/

/-- The last step of `collect` before it rebuilds the dependencies. -/
private def trimmed (iteration : Iteration) (store : Store) : Store :=
  { store with absent := trimAbsences iteration store.absent store.pins store.tombstoneCapacity }

private theorem trimmed_bytes (iteration : Iteration) (sizes : Sizes) (store : Store) :
    (trimmed iteration store).absent.size = min store.absent.size (absenceLimit store) ∧
      bytes sizes (trimmed iteration store) + store.absent.size * absenceBytes sizes =
        bytes sizes store + (trimmed iteration store).absent.size * absenceBytes sizes := by
  refine ⟨size_trimAbsences _ _ _, ?_⟩
  unfold bytes
  change store.tombstones.size * _ + _ + store.pins.size * _ + _ + _ = _
  have entries : (trimmed iteration store).entries = store.entries := rfl
  rw [entries]
  omega

private theorem held_iff (tidy : Tidy store) (pins : after.pins = store.pins)
    (lookup : ∀ key, after.entries.lookup key = if key ∈ keys then none else store.entries.lookup key)
    (unheld : ∀ key ∈ keys, ¬ Held store key) (key : Key) : Held after key ↔ Held store key := by
  have roots : pinnedKeys after = pinnedKeys store := by rw [pinnedKeys, pins, pinnedKeys]
  constructor
  · intro held
    rw [Held, roots] at held
    refine Reaches.mono held fun a _ b linked => ?_
    unfold references find at linked ⊢
    rw [lookup] at linked
    split at linked
    · cases linked
    · rename_i entry found
      split at found
      · cases found
      · rw [found]
        exact linked
  · intro held
    rw [Held, roots]
    refine Reaches.mono held fun a reached b linked => ?_
    unfold references find at linked ⊢
    have plain := held_plain tidy reached
    rw [lookup, plain, if_neg fun member => unheld a member reached]
    rwa [plain] at linked

/-- Where eviction stops before the last candidate, the bounds leave room for the
records it leaves. -/
def RecordsFit (sizes : Sizes) (store : Store) : Prop :=
  ∀ keys, Oldest store keys → ∀ n < keys.length,
    (∀ i < n, ¬ Enough sizes store (keys.take i)) → Enough sizes store (keys.take n) →
      bytes sizes store + min (store.absent.size + n) (absenceLimit store) * absenceBytes sizes ≤
        store.byteBudget + ((keys.take n).map (entrySize sizes store)).sum +
          store.absent.size * absenceBytes sizes

/-- The store is within its bounds. -/
def Bounded (sizes : Sizes) (store : Store) : Prop :=
  store.entries.size ≤ store.capacity ∧ bytes sizes store ≤ store.byteBudget

/-- In every run, `collect` keeps what can be reached from a pinned key and
evicts the longest untouched of the rest; afterwards the store is within its
bounds or holds only what can be reached, exactly when the records fit. -/
theorem collect_bounded_iff {trace : List (Store × Call)} (run : Run sizes trace store)
    (iteration : Iteration) :
    (∀ key, Held store key →
      (collect iteration sizes store).2.entries.lookup key = store.entries.lookup key) ∧
    (∃ keys n, Oldest store keys ∧ (collect iteration sizes store).1.map Change.key = keys.take n ∧
      ∀ key, (collect iteration sizes store).2.entries.lookup key =
        if key ∈ keys.take n then none else store.entries.lookup key) ∧
    ((Bounded sizes (collect iteration sizes store).2 ∨
        ∀ key ∈ (collect iteration sizes store).2.entries, Held (collect iteration sizes store).2 key) ↔
      RecordsFit sizes store) := by
  have tidy := run_tidy run
  have oldest := candidates_oldest iteration tidy
  obtain ⟨n, bound, result, short, stops⟩ := evictions_spec iteration sizes
    (candidates iteration store) (bytes sizes store) store oldest.nodup
    fun key member => ((oldest.1 key).mp member).1
  have short (i : Nat) (first : i < n) : ¬ Enough sizes store ((candidates iteration store).take i) :=
    mt (enough_take (by omega)).mp (short i first)
  have stops (more : n < (candidates iteration store).length) :
      Enough sizes store ((candidates iteration store).take n) :=
    (enough_take bound).mpr (stops more)
  have left := foldl_evict iteration sizes ((candidates iteration store).take n) store tidy
    (oldest.nodup.sublist (List.take_sublist _ _))
    fun key member => ((oldest.1 key).mp (List.mem_of_mem_take member)).1
  have shape : collect iteration sizes store =
      (((candidates iteration store).take n).map fun key => ⟨key, AllFields, .evicted⟩,
        rebuildDependencies iteration
          (trimmed iteration (((candidates iteration store).take n).foldl (evict iteration) store))) := by
    unfold collect
    dsimp only
    rw [result]
    rfl
  rw [shape]
  dsimp only
  generalize ((candidates iteration store).take n).foldl (evict iteration) store = members at left
  obtain ⟨records, spent⟩ := trimmed_bytes iteration sizes members
  have unheld : ∀ key ∈ (candidates iteration store).take n, ¬ Held store key :=
    fun key member => ((oldest.1 key).mp (List.mem_of_mem_take member)).2
  have held : ∀ key, Held (rebuildDependencies iteration (trimmed iteration members)) key ↔
      Held store key := held_iff tidy left.pins left.lookup unheld
  refine ⟨fun key reached => ?_, ⟨_, n, oldest, ?_, left.lookup⟩, ?_⟩
  · exact (left.lookup key).trans (if_neg fun member => unheld key member reached)
  · simp [Function.comp_def]
  have limit : absenceLimit members = absenceLimit store := by
    rw [absenceLimit, left.limit, left.pins, absenceLimit]
  have taken : ((candidates iteration store).take n).length = n := by
    rw [List.length_take, Nat.min_eq_left bound]
  have smaller := left.size
  have cost := left.bytes
  have recorded := left.absent
  rw [taken] at smaller recorded
  rw [limit] at records
  have paid : bytes sizes (rebuildDependencies iteration (trimmed iteration members)) +
      (((candidates iteration store).take n).map (entrySize sizes store)).sum +
        store.absent.size * absenceBytes sizes =
      bytes sizes store +
        min (store.absent.size + n) (absenceLimit store) * absenceBytes sizes := by
    change bytes sizes (trimmed iteration members) + _ + _ = _
    rw [← recorded, ← records]
    omega
  have room : (rebuildDependencies iteration (trimmed iteration members)).entries.size + n =
      store.entries.size := smaller
  have budget : (rebuildDependencies iteration (trimmed iteration members)).byteBudget =
      store.byteBudget := left.byteBudget
  have capacity : (rebuildDependencies iteration (trimmed iteration members)).capacity =
      store.capacity := left.capacity
  constructor
  · rintro fits keys listed m early before enough
    obtain rfl := listed.unique oldest
    -- the loop stops at the first number that is enough
    obtain rfl : m = n := by
      refine Nat.le_antisymm ?_ ?_ <;> by_contra apart
      · exact before n (by omega) (stops (by omega))
      · exact short m (by omega) enough
    obtain ⟨_, bounded⟩ | all := fits
    · rw [budget] at bounded
      omega
    · have member := List.getElem_mem early
      have kept : (candidates iteration store)[m] ∉ (candidates iteration store).take m := by
        intro taken
        obtain ⟨i, late, same⟩ := List.mem_take_iff_getElem.mp taken
        have index := (oldest.nodup.getElem_inj_iff).mp same
        omega
      obtain ⟨stored, free⟩ := (oldest.1 _).mp member
      refine absurd ((held _).mp (all _ ?_)) free
      rw [← AList.lookup_isSome]
      change (members.entries.lookup _).isSome
      rw [left.lookup, if_neg kept, AList.lookup_isSome]
      exact stored
  · intro fits
    by_cases all : n < (candidates iteration store).length
    · obtain ⟨fewer, -⟩ := (enough_take bound).mp (stops all)
      have fit := fits _ oldest n all short (stops all)
      exact .inl ⟨by omega, by omega⟩
    · refine .inr fun key stored => (held key).mpr ?_
      by_contra free
      rw [← AList.lookup_isSome] at stored
      change (members.entries.lookup key).isSome at stored
      rw [left.lookup] at stored
      split at stored
      · cases stored
      · rename_i kept
        rw [List.take_of_length_le (Nat.le_of_not_lt all)] at kept
        exact kept ((oldest.1 key).mpr ⟨AList.lookup_isSome.mp stored, free⟩)

/-- Two songs without fields, of 528 bytes each. -/
def twoSongs : EntityBatch :=
  { protocol := 2, instanceName := "backend"
    songs := [⟨1, ⟨0, 0, 1⟩, {}, none, none, none⟩, ⟨2, ⟨0, 0, 2⟩, {}, none, none, none⟩] }

def stored : Store := (apply inOrder Store.initial twoSongs).2

/-- The two songs, with a budget for one and 10 bytes more. -/
def tight : Store := setByteBudget stored 538

private theorem tight_run : Run wide [(Store.initial, ⟨inOrder, .apply twoSongs⟩),
    (stored, ⟨inOrder, .setByteBudget 538⟩)] tight :=
  Steps.snoc (t := stored) (.snoc (.done _) rfl) rfl

/-- One song is evicted, which leaves 528 bytes and a record of 52: the other
stays although the store exceeds its budget and no key is pinned. -/
theorem record_exceeds_budget :
    Run wide [(Store.initial, ⟨inOrder, .apply twoSongs⟩), (stored, ⟨inOrder, .setByteBudget 538⟩)] tight ∧
      ¬ (Bounded wide (collect inOrder wide tight).2 ∨
        ∀ key ∈ (collect inOrder wide tight).2.entries, Held (collect inOrder wide tight).2 key) := by
  refine ⟨tight_run, ?_⟩
  rintro (⟨_, within⟩ | held)
  · revert within
    decide
  · have kept : ⟨Song, 1⟩ ∈ (collect inOrder wide tight).2.entries :=
      AList.lookup_isSome.mp (by decide)
    have roots : pinnedKeys (collect inOrder wide tight).2 = [] := by decide
    refine Reaches.closed (P := fun _ => False) (held _ kept) (fun a member => ?_) fun _ absurd _ _ => absurd
    rw [roots] at member
    cases member

theorem stored_songs_bounded_iff :
    (Bounded wide (collect inOrder wide stored).2 ∨
      ∀ key ∈ (collect inOrder wide stored).2.entries, Held (collect inOrder wide stored).2 key) ↔
        RecordsFit wide stored := by
  have run : Run wide [(Store.initial, ⟨inOrder, .apply twoSongs⟩)] stored := .snoc (.done _) rfl
  exact (collect_bounded_iff run inOrder).2.2

end Qcm.EntityCollectProofs
