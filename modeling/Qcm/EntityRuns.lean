import Qcm.EntityPhases

/-!
Runs of the entity store: any calls in any order, each with the orders its loops
over hash maps happen to take.  Only `apply` makes entries; the other calls keep
them, let them go or mark them stale (`Thinned`).
-/

namespace Qcm.EntityRuns

open Lib Lib.Runs EntityStore EntityApplyProofs EntityKey EntityPhases

/-- The calls that change the store. -/
inductive Op where
  | apply (batch : EntityBatch)
  | collect
  | clear
  | markStale
  | pin (key : Key)
  | unpin (key : Key)
  | setCapacity (capacity : Int)
  | setByteBudget (bytes : Int)
  | setTombstoneCapacity (capacity : Int)

structure Call where
  iteration : Iteration
  op : Op

def perform (sizes : Sizes) (store : Store) (call : Call) : Store :=
  match call.op with
  | .apply batch => (apply call.iteration store batch).2
  | .collect => (collect call.iteration sizes store).2
  | .clear => (clear call.iteration store).2
  | .markStale => (markStale call.iteration store).2
  | .pin key => pin store key
  | .unpin key => unpin store key
  | .setCapacity capacity => setCapacity store capacity
  | .setByteBudget bytes => setByteBudget store bytes
  | .setTombstoneCapacity capacity => setTombstoneCapacity store capacity

/-- The calls of a run of a new store, each with the store it was made on. -/
abbrev Run (sizes : Sizes) (trace : List (Store × Call)) (store : Store) : Prop :=
  Steps (fun s call t => t = perform sizes s call) Store.initial trace store

/-- The sizes on a 64-bit target. -/
def wide : Sizes := ⟨16, 4, 528, 32, 24⟩

/-- The batch of a call, when it is applied without an error. -/
def Call.accepted (store : Store) (call : Call) : Option EntityBatch :=
  match call.op with
  | .apply batch => if (apply call.iteration store batch).1.error = "" then some batch else none
  | _ => none

/-- The batches that were applied. -/
def applied (trace : List (Store × Call)) : List EntityBatch :=
  trace.filterMap fun entry => Call.accepted entry.1 entry.2

variable {iteration : Iteration} {store before after : Store} {batch : EntityBatch} {key : Key}
  {sizes : Sizes}

/-- The entries of the store afterwards are entries there were before, some of
them stale now, and the epochs are the same unless no entry is left. -/
structure Thinned (before after : Store) : Prop where
  entries : ∀ key entry, after.entries.lookup key = some entry →
    ∃ old, before.entries.lookup key = some old ∧ ∃ stale, entry = { old with stale := stale }
  epochs : after.epochs = before.epochs ∨ after.entries = ∅
  clock : after.clock = before.clock

variable {trace : List (Store × Call)}

theorem Thinned.same (entries : after.entries = before.entries) (epochs : after.epochs = before.epochs)
    (clock : after.clock = before.clock) : Thinned before after :=
  ⟨fun _ entry found => ⟨entry, entries ▸ found, entry.stale, rfl⟩, .inl epochs, clock⟩

/-! ## The calls that make no entry -/

theorem evictions_shape (iteration : Iteration) (sizes : Sizes) (keys : List Key) (used : Nat) (store : Store) :
    ∃ entries absent, (evictions iteration sizes keys used store).2 =
      { store with entries := entries, absent := absent } ∧
      ∀ key entry, entries.lookup key = some entry → store.entries.lookup key = some entry := by
  induction keys generalizing used store with
  | nil => exact ⟨_, _, rfl, fun _ _ => id⟩
  | cons key rest ih =>
    unfold evictions
    split
    · exact ⟨_, _, rfl, fun _ _ => id⟩
    · obtain ⟨entries, absent, same, kept⟩ := ih
        (used - (store.entries.lookup key).elim sizes.entry (entryBytes sizes))
        (evict iteration store key)
      refine ⟨entries, absent, same, fun other entry found => ?_⟩
      have before := kept other entry found
      simp only [evict, rememberAbsence, Hash.lookup_erase] at before
      split at before
      · cases before
      · exact before

theorem collect_thinned : Thinned store (collect iteration sizes store).2 := by
  obtain ⟨entries, absent, same, kept⟩ := evictions_shape iteration sizes (candidates iteration store) (bytes sizes store) store
  have shape : (collect iteration sizes store).2 =
      rebuildDependencies iteration { (evictions iteration sizes (candidates iteration store)
        (bytes sizes store) store).2 with
          absent := trimAbsences iteration (evictions iteration sizes (candidates iteration store)
            (bytes sizes store) store).2.absent
            (evictions iteration sizes (candidates iteration store) (bytes sizes store) store).2.pins
            (evictions iteration sizes (candidates iteration store)
              (bytes sizes store) store).2.tombstoneCapacity } := rfl
  rw [shape, same]
  exact ⟨fun key entry found => ⟨entry, kept key entry found, entry.stale, rfl⟩, .inl rfl, rfl⟩

private theorem foldl_rememberAbsence (iteration : Iteration) (status : Status) (keys : List Key) (store : Store) :
    ∃ absent, keys.foldl (fun store key => rememberAbsence iteration store key status) store =
      { store with absent := absent } := by
  induction keys generalizing store with
  | nil => exact ⟨_, rfl⟩
  | cons first rest ih =>
    obtain ⟨absent, same⟩ := ih (rememberAbsence iteration store first status)
    exact ⟨absent, same⟩

theorem clear_shape (iteration : Iteration) (store : Store) :
    (clear iteration store).2.entries = ∅ ∧ (clear iteration store).2.dependents = ∅ ∧
      (clear iteration store).2.pins = store.pins ∧ (clear iteration store).2.clock = store.clock := by
  unfold clear
  dsimp only
  obtain ⟨absent, same⟩ := foldl_rememberAbsence iteration .invalidated
    (iteration.order store.entries.keys)
    { store with
      scopeRevision := store.scopeRevision + 1
      entries := ∅
      dependents := ∅
      epochs := ∅
      tombstones := ∅
      absent := ∅ }
  rw [same]
  exact ⟨rfl, rfl, rfl, rfl⟩

theorem clear_thinned : Thinned store (clear iteration store).2 := by
  obtain ⟨none, _, _, clock⟩ := clear_shape iteration store
  exact ⟨fun _ _ found => (by rw [none] at found; cases found), .inr none, clock⟩

theorem lookup_setStale (entries : Hash Key Entry) (key other : Key) :
    (setStale entries key).lookup other =
      if other = key then (entries.lookup other).map fun entry => { entry with stale := true }
      else entries.lookup other := by
  unfold setStale
  split
  · rename_i absent
    split
    · rename_i same
      rw [same, absent]
      rfl
    · rfl
  · rename_i entry found
    rw [Hash.lookup_replace]
    split
    · rename_i same
      rw [same, found]
      rfl
    · rfl

theorem foldl_setStale (keys : List Key) (entries : Hash Key Entry) (key : Key) :
    (keys.foldl setStale entries).lookup key =
      if key ∈ keys then (entries.lookup key).map fun entry => { entry with stale := true }
      else entries.lookup key := by
  induction keys generalizing entries with
  | nil => rfl
  | cons first rest ih =>
    rw [List.foldl_cons, ih, lookup_setStale]
    by_cases here : key = first
    · cases entries.lookup key <;> simp [here]
    · simp [here]

theorem markStale_thinned : Thinned store (markStale iteration store).2 := by
  refine ⟨fun key entry found => ?_, .inl rfl, rfl⟩
  change (List.foldl setStale store.entries _).lookup key = some entry at found
  rw [foldl_setStale] at found
  split at found
  · obtain ⟨old, stored, rfl⟩ := Option.map_eq_some_iff.mp found
    exact ⟨old, stored, true, rfl⟩
  · exact ⟨entry, found, entry.stale, rfl⟩

/-- Every call but an accepted batch thins the store out. -/
theorem perform_thins (call : Call) (idle : Call.accepted store call = none) :
    Thinned store (perform sizes store call) := by
  unfold perform
  unfold Call.accepted at idle
  split
  · rename_i batch op
    rw [op] at idle
    dsimp only at idle
    rw [ite_eq_right_iff] at idle
    rw [refused_batch_changes_nothing call.iteration store batch fun clean => by cases idle clean]
    exact .same rfl rfl rfl
  · exact collect_thinned
  · exact clear_thinned
  · exact markStale_thinned
  · exact .same rfl rfl rfl
  · unfold unpin
    split <;> exact .same rfl rfl rfl
  · exact .same rfl rfl rfl
  · exact .same rfl rfl rfl
  · exact .same rfl rfl rfl

theorem Call.accepted_eq_some {call : Call} :
    Call.accepted store call = some batch ↔
      call.op = .apply batch ∧ (apply call.iteration store batch).1.error = "" := by
  unfold Call.accepted
  split
  · rename_i other op
    rw [Option.ite_none_right_eq_some, Option.some.injEq, op, Op.apply.injEq]
    constructor
    · rintro ⟨clean, rfl⟩
      exact ⟨rfl, clean⟩
    · rintro ⟨rfl, clean⟩
      exact ⟨clean, rfl⟩
  · rename_i other
    simp only [reduceCtorEq, false_iff, not_and]
    exact fun op => absurd op (other batch)

theorem applied_snoc (trace : List (Store × Call)) (store : Store) (call : Call) :
    applied (trace ++ [(store, call)]) = applied trace ++ (Call.accepted store call).toList := by
  rw [applied, List.filterMap_append]
  cases accepted : Call.accepted store call <;> simp [applied, accepted]

/-- What is kept when the store is thinned out, and by every batch that is applied
and meets the guard, holds after every run whose batches meet the guard. -/
theorem run_induction (run : Run sizes trace store) (guard : Store → EntityBatch → Prop)
    (guarded : ∀ entry ∈ trace, ∀ batch, entry.2.op = .apply batch → guard entry.1 batch)
    (Inv : List EntityBatch → Store → Prop) (base : Inv [] Store.initial)
    (thins : ∀ history s t, Inv history s → Thinned s t → Inv history t)
    (applies : ∀ history s iteration batch, Inv history s → guard s batch → (apply iteration s batch).1.error = "" →
      Inv (history ++ [batch]) (apply iteration s batch).2) :
    Inv (applied trace) store := by
  induction run with
  | done => exact base
  | @snoc s t call trace before stepped ih =>
    have held := ih fun entry member => guarded entry (List.mem_append_left _ member)
    subst stepped
    rw [applied_snoc]
    cases accepted : Call.accepted s call with
    | none =>
      rw [Option.toList_none, List.append_nil]
      exact thins _ _ _ held (perform_thins call accepted)
    | some batch =>
      obtain ⟨op, clean⟩ := Call.accepted_eq_some.mp accepted
      have met := guarded (s, call) (by simp) batch op
      have same : perform sizes s call = (apply call.iteration s batch).2 := by
        rw [perform, op]
      rw [same]
      exact applies _ s call.iteration batch held met clean

theorem Thinned.epochs_agree (thinned : Thinned before after) (consistent : EpochsAgree before) :
    EpochsAgree after := by
  intro key entry found
  obtain same | none := thinned.epochs
  · obtain ⟨old, held, stale, rfl⟩ := thinned.entries key entry found
    rw [same]
    exact consistent key old held
  · rw [none] at found
    cases found

/-- In every run, the entries are of the epochs of their owners. -/
theorem epochs_agree (run : Run sizes trace store) : EpochsAgree store :=
  run_induction run (fun _ _ => True) (fun _ _ _ _ => trivial) (fun _ => EpochsAgree)
    (fun _ _ found => by cases found) (fun _ _ _ held thinned => thinned.epochs_agree held)
    (fun _ _ _ _ held _ clean => apply_epochs_agree held clean)

end Qcm.EntityRuns
