import Qcm.SyncRunProofs

/-!
A favorite set while a sync runs is kept by every batch of that run.  The stamp
is made under a guard that raised the revision above the one the run started
from, and it stays until another run starts, when the old one can no longer
commit.
-/

namespace Qcm.SyncFavoriteProofs

open Lib Lib.Runs SyncDatabase SyncBatch SyncCoordinator SyncRetentionProofs
open SyncRunProofs

variable {item : ItemRef} {found : Int × ItemRow} {owner : Int → Int} {id other : Int}

section Rows

variable {db after : Database} {p now : Int} {mask : Mask} {kept : Int → Bool}

variable {expected : List ItemType} {left : Database × List Int}

private theorem findItem_stored
    (named : findItem db p item expected = .ok (some found)) : db.items.lookup found.1 = some found.2 := by
  cases item with
  | id id =>
    simp only [findItem, Except.ok.injEq, Option.map_eq_some_iff] at named
    obtain ⟨row, there, rfl⟩ := named
    exact there
  | key key =>
    simp only [findItem] at named
    split at named
    · cases named
    obtain ⟨library, _, rest⟩ := bind_ok.mp named
    cases library with
    | none => cases rest
    | some library =>
      have met : (db.items.entries.find? fun entry => entry.2.providerId = p &&
          entry.2.nativeId = key.nativeId && entry.2.kind = key.kind && entry.2.libraryId = library).map
          (fun entry => (entry.1, entry.2)) = some found := by
        dsimp only at rest
        split at rest
        · rename_i id item _ there
          split at rest
          · cases rest
          · exact Except.ok.inj rest
        · exact Except.ok.inj rest
      obtain ⟨entry, there, rfl⟩ := Option.map_eq_some_iff.mp met
      exact (Hash.lookup_eq_some_iff _ _ _).mpr (List.mem_of_find?_eq_some there)

theorem resolve_ok (resolved : resolve db p item expected = .ok found) :
    db.items.lookup found.1 = some found.2 ∧ found.2.providerId = p := by
  obtain ⟨optional, first, rest⟩ := bind_ok.mp resolved
  cases optional with
  | none => cases rest
  | some other =>
    cases rest
    obtain ⟨candidate, named, checked⟩ := bind_ok.mp first
    cases candidate with
    | none => cases checked
    | some candidate =>
      dsimp only at checked
      split at checked <;> cases checked
      rename_i fits
      refine ⟨findItem_stored named, ?_⟩
      by_contra other
      exact fits (.inl other)

/-- One turn of the loop changes the row of one item of the provider, and keeps
its favorite when that was set after the run started. -/
theorem writeDynamic_ok {entry : DynamicInput} {before : Database × List Int}
    (done : writeDynamic p mask now kept entry before = .ok left) :
    ∃ id item row, before.1.items.lookup id = some item ∧ item.providerId = p ∧
      left.1 = { before.1 with dynamics := before.1.dynamics.insert id row } ∧
      (kept id = true → row.favoriteAt = favoriteOf before.1 id) := by
  obtain ⟨⟨id, item⟩, resolved, rest⟩ := bind_ok.mp done
  obtain ⟨stored, mine⟩ := resolve_ok resolved
  dsimp only at rest
  split at rest
  · cases rest
  obtain ⟨marked, _, rest⟩ := bind_ok.mp rest
  obtain ⟨applied, _, rest⟩ := bind_ok.mp rest
  split at rest
  · cases rest
  cases rest
  refine ⟨id, item, _, stored, mine, rfl, fun safe => ?_⟩
  rw [safe]
  show ((before.1.dynamics.lookup id).getD DynamicRow.fresh).favoriteAt = _
  unfold favoriteOf
  cases before.1.dynamics.lookup id <;> rfl

theorem favoriteOf_insert (db : Database) (id other : Int) (row : DynamicRow) :
    favoriteOf { db with dynamics := db.dynamics.insert id row } other =
      if other = id then row.favoriteAt else favoriteOf db other := by
  simp only [favoriteOf, Hash.lookup_insert]
  split <;> rfl

theorem writeDynamics_keeps {entries : List DynamicInput} {ids : List Int}
    (owned : Owned owner db) (done : writeDynamics p mask now kept entries (db, ids) = .ok left)
    (safe : kept id = true ∨ owner id ≠ p) : favoriteOf left.1 id = favoriteOf db id := by
  have both := foldlM_keeps (fun state : Database × List Int =>
      Owned owner state.1 ∧ favoriteOf state.1 id = favoriteOf db id) done ?_ ⟨owned, rfl⟩
  · exact both.2
  · rintro entry _ before next ⟨still, same⟩ turned
    obtain ⟨other, item, row, stored, mine, shape, favorite⟩ := writeDynamic_ok turned
    rw [shape, favoriteOf_insert]
    refine ⟨still, ?_⟩
    split
    · rename_i here
      subst here
      rcases safe with set | foreign
      · rw [favorite set, same]
      · exact absurd ((still id item stored).symm.trans mine) foreign
    · exact same

theorem insertDynamics_keeps (items : List Int) (id : Int) :
    favoriteOf (insertDynamics now items db) id = favoriteOf db id := by
  induction items generalizing db with
  | nil => rfl
  | cons head rest ih =>
    rw [insertDynamics, List.foldl_cons, ← insertDynamics, ih]
    split
    · rfl
    · rename_i absent
      rw [favoriteOf_insert]
      split
      · rename_i here
        subst here
        rw [Option.not_isSome_iff_eq_none] at absent
        simp [favoriteOf, absent, DynamicRow.fresh]
      · rfl

theorem batched_keeps {batch : Batch} (batched : Batched owner p kept batch db after)
    (safe : kept id = true ∨ owner id ≠ p) : favoriteOf after id = favoriteOf db id := by
  obtain ⟨entered, left, items, ids, now, before, owned, written, rest⟩ := batched.written
  have loop := writeDynamics_keeps owned written safe
  have defaults : favoriteOf (insertDynamics now items left) id = favoriteOf left id :=
    insertDynamics_keeps items id
  simp only [favoriteOf, before, rest] at loop defaults ⊢
  exact defaults.trans loop

end Rows

/-- The stamps that protect what was set since the run started, for as long as
it is active. -/
structure Stamped (p : Int) (token revision : Nat) (events : List Event) (w : World) : Prop where
  raised : ∀ id, (w.providers p).active = token →
    (w.providers p).favoriteChangedAfter revision id = true → revision < (w.providers p).revision
  held : ∀ guard id, (w.providers p).active = token → (w.providers p).guard = some guard →
    guard.origin = none → id ∈ guard.stamped → (w.providers p).favoriteChangedAfter revision id = true
  committed : ∀ id value, (w.providers p).active = token → .setFavorite p id value ∈ events →
    (w.providers p).favoriteChangedAfter revision id = true

section Stamps

variable {owner : Int → Int} {w after : World} {p : Int} {k token revision : Nat} {event : Event}
  {events : List Event}

variable {state : ProviderState} {guard : Guard}

private theorem favorite_changed (later : revision < state.revision)
    (active : state.active ≠ 0) (changed : other = id ∨ state.favoriteChangedAfter revision other = true) :
    (state.favorite guard id).favoriteChangedAfter revision other = true := by
  unfold ProviderState.favorite
  rw [if_neg active]
  split
  · simp only [ProviderState.favoriteChangedAfter, Bool.or_eq_true, decide_eq_true_eq,
      Hash.lookup_insert] at changed ⊢
    by_cases same : other = id
    · right
      simpa [same] using later
    · simpa [same] using changed
  · simp [ProviderState.favoriteChangedAfter, later]

private theorem changed_favorite (changed : (state.favorite guard id).favoriteChangedAfter revision other = true) :
    state.favoriteChangedAfter revision other = true ∨ revision < state.revision := by
  unfold ProviderState.favorite at changed
  split_ifs at changed
  · exact .inl changed
  · simp only [ProviderState.favoriteChangedAfter, Bool.or_eq_true, decide_eq_true_eq,
      Hash.lookup_insert] at changed ⊢
    rcases changed with overflow | entry
    · exact .inl (.inl overflow)
    · split_ifs at entry
      · exact .inr (by simpa using entry)
      · exact .inl (.inr entry)
  · simp only [ProviderState.favoriteChangedAfter, Bool.or_eq_true, decide_eq_true_eq] at changed ⊢
    rcases changed with later | entry
    · exact .inr later
    · exact .inl (.inr entry)

private theorem move_stamps (move : Move w p event state) (given : token ≤ (w.providers p).sequence)
    (live : state.active = token) :
    (∀ id, state.favoriteChangedAfter revision id = (w.providers p).favoriteChangedAfter revision id) ∨
      ∃ guard id, (w.providers p).guard = some guard ∧ state = (w.providers p).favorite guard id := by
  cases move with
  | still guard same active sequence favorites overflow =>
    exact .inl fun id => by simp [ProviderState.favoriteChangedAfter, favorites, overflow]
  | stamp held => exact .inr ⟨_, _, held, rfl⟩
  | start free idle =>
    have fresh : (w.providers p).sequence + 1 = token := live
    omega
  | _ => exact .inl fun id => rfl

private theorem move_marked (move : Move w p event state) (held : state.guard = some guard)
    (member : id ∈ guard.stamped) : ∃ before, (w.providers p).guard = some before ∧ before.origin = guard.origin ∧
      (id ∈ before.stamped ∨ state = (w.providers p).favorite before id) := by
  cases move with
  | still same revision active sequence favorites overflow =>
    exact ⟨guard, same ▸ held, rfl, .inl member⟩
  | acquire free live | enter there mine free live =>
    cases held
    cases member
  | release less => cases held
  | quit => exact ⟨guard, held, rfl, .inl member⟩
  | @stamp before other kept =>
    have now : ((w.providers p).favorite before other).guard =
        some { before with stamped := other :: before.stamped } := by
      unfold ProviderState.favorite
      split_ifs <;> rfl
    cases now.symm.trans held
    rcases List.mem_cons.mp member with rfl | old
    · exact ⟨before, kept, rfl, .inr rfl⟩
    · exact ⟨before, kept, rfl, .inl old⟩
  | read kept =>
    cases held
    exact ⟨_, kept, rfl, .inl member⟩
  | start free idle => exact ⟨guard, held, rfl, .inl member⟩

theorem Stamped.step (stamped : Stamped p token revision events w)
    (guarded : Guarded p k token revision events w) (step : Step owner w event after) :
    Stamped p token revision (events ++ [event]) after := by
  have move := step_moves step p
  have raised := move.revision_le
  have back (live : (after.providers p).active = token) : (w.providers p).active = token :=
    move.active_back guarded.positive guarded.given live
  have busy (live : (after.providers p).active = token) : (w.providers p).active ≠ 0 := by
    have := guarded.positive
    rw [back live]
    omega
  have keeps (live : (after.providers p).active = token) (id : Int)
      (changed : (w.providers p).favoriteChangedAfter revision id = true) :
      (after.providers p).favoriteChangedAfter revision id = true := by
    rcases move_stamps move guarded.given live with same | ⟨guard, other, _, shape⟩
    · rw [same]
      exact changed
    · rw [shape]
      exact favorite_changed (stamped.raised id (back live) changed) (busy live) (.inr changed)
  refine ⟨fun id live changed => ?_, fun guard id live held outside member => ?_,
    fun id value live member => ?_⟩
  · rcases move_stamps move guarded.given live with same | ⟨guard, other, _, shape⟩
    · rw [same] at changed
      exact (stamped.raised id (back live) changed).trans_le raised
    · rw [shape] at changed
      rcases changed_favorite changed with before | later
      · exact (stamped.raised id (back live) before).trans_le raised
      · exact later.trans_le raised
  · obtain ⟨before, kept, origin, old | shape⟩ := move_marked move held member
    · exact keeps live id (stamped.held before id (back live) kept (origin.trans outside) old)
    · rw [shape]
      have later := guarded.outside before (back live) kept (origin.trans outside)
      exact favorite_changed later (busy live) (.inl rfl)
  · obtain old | rfl := mem_snoc member
    · exact keeps live id (stamped.committed id value (back live) old)
    · cases step with
      | setFavorite held outside foreign marked mine =>
        exact stamped.held _ id live held foreign marked

end Stamps

theorem Stamped.start {w after : World} {p : Int} {k revision : Nat} (step : Step owner w (.started p k) after) :
    Stamped p ((w.providers p).sequence + 1) revision [] after := by
  cases step with
  | start free idle =>
    refine ⟨fun id live changed => ?_, fun guard id live held => ?_, by simp⟩
    · simp [ProviderState.favoriteChangedAfter] at changed
    · simp [free] at held

/-- No batch of a run changes a favorite that was set after the run started. -/
theorem favorite_survives_batches {owner : Int → Int} {opened w₀ w after : World} {p q r : Int} {k : Nat}
    {events : List Event} {batch : Batch} {id : Int} {value : Bool} (reached : Reachable owner opened)
    (started : Step owner opened (.started p k) w₀) (run : Follows (Step owner) w₀ events w)
    (set : .setFavorite r id value ∈ events) (batched : Step owner w (.batched q k batch) after) :
    favoriteOf after.db id = favoriteOf w.db id := by
  have ledger := (Ledger.start (Reachable.tokens reached) started).follows run
  have carried := run.tracks (fun events w =>
      Ledger p k ((opened.providers p).sequence + 1) (opened.providers p).revision events w ∧
      Stamped p ((opened.providers p).sequence + 1) (opened.providers p).revision events w ∧
      ∀ r id value, .setFavorite r id value ∈ events → owner id = r)
    ?_ ⟨Ledger.start (Reachable.tokens reached) started, Stamped.start started, by simp⟩
  · obtain ⟨_, stamped, mine⟩ := carried
    rw [List.nil_append] at stamped mine
    cases batched with
    | commitBatch there inside written current live =>
      obtain ⟨provider, token, revision⟩ := (ledger.kept _ there).identity
      refine batched_keeps written ?_
      by_cases own : r = p
      · left
        rw [provider, revision]
        rw [provider, token] at live
        exact stamped.committed id value live (own ▸ set)
      · right
        rw [mine r id value set, provider]
        exact own
  · rintro seen event s t _ ⟨held, stamped, mine⟩ step
    refine ⟨held.step step, stamped.step held.guarded step, fun r id value member => ?_⟩
    obtain old | rfl := mem_snoc member
    · exact mine r id value old
    · cases step with
      | setFavorite lock outside foreign marked owned => exact owned

section Clicked

private def songShelf : Database :=
  { Database.empty with items := AList.insert 2 ⟨"song", none, 1, .song, 0⟩ ∅ }

private def shelved : World :=
  ⟨songShelf, fun _ => ProviderState.fresh, fun _ => none, 0, [], fun _ => 0⟩

/-- A batch that clears the favorite of item 2, read before the click. -/
private def clearing : Batch :=
  ⟨[⟨.id 2, none, ⟨.missing, .missing, .missing, .missing⟩, .set false⟩], ⟨none, none⟩⟩

private def click : List Event :=
  [.acquired 1 none, .stamped 1 2, .setFavorite 1 2 true, .released 1, .began 0 .core (.batch clearing),
    .entered 0 .core (.batch clearing)]

private theorem shelved_reachable : Reachable (fun _ => 1) shelved := by
  refine .start ⟨fun id row there => ?_, rfl, rfl, rfl⟩
  have both : ∀ entry ∈ songShelf.items.entries, entry.2.providerId = 1 := by decide
  exact both _ ((Hash.lookup_eq_some_iff _ _ _).mp there)

private def writing : SyncRun :=
  { SyncRun.fresh 1 1 0 with call := .inside .core (.batch clearing) }

private theorem click_follows : ∃ w₀ w, Step (fun _ => 1) shelved (.started 1 0) w₀ ∧
    Follows (Step fun _ => 1) w₀ click w ∧ w.db = setFavorite songShelf 2 true 7 ∧
    w.runs 0 = some writing ∧ (w.providers 1).active = 1 ∧
    ∃ left, writeDynamics 1 clearing.mask 9 ((w.providers 1).favoriteChangedAfter 0) clearing.dynamics
      (w.db, []) = .ok left :=
  ⟨_, _, .start rfl rfl, .cons (.acquire rfl nofun) <| .cons (.stamp rfl rfl) <|
    .cons (.setFavorite rfl rfl rfl (.head _) rfl) <| .cons (.release rfl rfl) <|
    .cons (.begin rfl rfl (by simp) rfl) <| .cons (.enter rfl rfl (by simp) rfl rfl nofun) <| .nil _,
    rfl, rfl, rfl, _, rfl⟩

/-- The favorite set at time 7 is still there after the batch. -/
theorem click_survives : ∃ w after, Step (fun _ => 1) w (.batched 1 0 clearing) after ∧
    favoriteOf after.db 2 = some 7 := by
  obtain ⟨w₀, w, started, follows, db, there, live, ⟨left, ids⟩, written⟩ := click_follows
  have arrived : Reachable (fun _ => 1) w := Reachable.follows (shelved_reachable.next trivial started) follows
  have owned : Owned (fun _ => 1) left := fun id row stored => by
    obtain ⟨items, _⟩ := foldlM_keeps (fun state : Database × List Int =>
      Owned (fun _ => 1) state.1 ∧ True) written (fun entry _ before next still turned => by
        obtain ⟨_, _, _, _, _, shape, _⟩ := writeDynamic_ok turned
        rw [shape]
        exact still) ⟨arrived.sound.owned, trivial⟩
    exact items id row stored
  have batched : Batched (fun _ => 1) 1 ((w.providers 1).favoriteChangedAfter 0) clearing w.db left :=
    ⟨⟨w.db, left, [], ids, 9, rfl, arrived.sound.owned, written, rfl⟩, owned⟩
  have step : Step (fun _ => 1) w (.batched 1 0 clearing) _ := .commitBatch there rfl batched rfl live
  have clicked : .setFavorite 1 2 true ∈ click := by simp [click]
  refine ⟨w, _, step, ?_⟩
  rw [favorite_survives_batches shelved_reachable started follows clicked step]
  show favoriteOf w.db 2 = some 7
  rw [db]
  rfl

end Clicked

end Qcm.SyncFavoriteProofs
