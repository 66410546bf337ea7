import Qcm.EntityPhases

/-!
The end of `apply`: which keys depend on which (`mem_dependents`), and the loop
that marks what depends on a key whose name or presence changed.

`Propagates` is that loop as it is written, without a bound on its rounds.
`propagates` says that it ends for every graph of references, with what the
bounded loop of the model computes.
-/

namespace Qcm.EntityPropagation

open Lib EntityStore

variable {iteration : Iteration} {store : Store} {dependents : Hash Key (List Change)}
  {queue : List Key} {changed final : Hash Key Fields} {key : Key}

/-- An entry refers to a key by a field. -/
inductive Refers (entry : Entry) : Key → Field → Prop where
  | artist {id : Int} (member : id ∈ entry.artists) : Refers entry ⟨Artist, id⟩ .artists
  | album {id : Int} (linked : entry.album = some id) : Refers entry ⟨Album, id⟩ .album

variable {target : Key} {dependency : Change}

theorem mem_dependOn {other : Key} {change : Change} :
    dependency ∈ Hash.value (dependOn dependents target change) other [] ↔
      dependency ∈ Hash.value dependents other [] ∨ (other = target ∧ dependency = change) := by
  rw [dependOn, Hash.value_insert]
  split
  · rename_i same
    subst same
    simp
  · rename_i apart
    simp [apart]

private theorem mem_foldl_dependOn (ids : List Int) (dependents : Hash Key (List Change)) {change : Change} :
    dependency ∈ Hash.value
        (ids.foldl (fun dependents id => dependOn dependents ⟨Artist, id⟩ change) dependents) target [] ↔
      dependency ∈ Hash.value dependents target [] ∨
        ∃ id ∈ ids, target = ⟨Artist, id⟩ ∧ dependency = change := by
  induction ids generalizing dependents with
  | nil => simp
  | cons id rest ih =>
    rw [List.foldl_cons, ih, mem_dependOn]
    simp only [List.mem_cons, exists_eq_or_imp, or_assoc]

private theorem mem_dependOnReferences :
    dependency ∈ Hash.value (dependOnReferences store dependents key) target [] ↔
      dependency ∈ Hash.value dependents target [] ∨
        ∃ entry field, store.entries.lookup key = some entry ∧ Refers entry target field ∧
          dependency = ⟨key, {field}, .ready⟩ := by
  unfold dependOnReferences
  cases found : store.entries.lookup key with
  | none => simp
  | some entry =>
    have links : (∃ field, Refers entry target field ∧ dependency = ⟨key, {field}, .ready⟩) ↔
        (∃ id ∈ entry.artists, target = ⟨Artist, id⟩ ∧ dependency = ⟨key, {.artists}, .ready⟩) ∨
          ∃ id, entry.album = some id ∧ target = ⟨Album, id⟩ ∧
            dependency = ⟨key, {.album}, .ready⟩ := by
      constructor
      · rintro ⟨_, ⟨member⟩ | ⟨linked⟩, same⟩
        · exact .inl ⟨_, member, rfl, same⟩
        · exact .inr ⟨_, linked, rfl, same⟩
      · rintro (⟨id, member, rfl, same⟩ | ⟨id, linked, rfl, same⟩)
        · exact ⟨_, .artist member, same⟩
        · exact ⟨_, .album linked, same⟩
    simp only [Option.some.injEq, exists_and_left, exists_eq_left', links]
    cases album : entry.album with
    | none =>
      dsimp only
      rw [mem_foldl_dependOn]
      simp
    | some id =>
      dsimp only
      rw [mem_dependOn, mem_foldl_dependOn]
      simp only [Option.some.injEq, exists_eq_left', or_assoc]

theorem mem_dependents :
    dependency ∈ Hash.value (rebuildDependencies iteration store).dependents target [] ↔
      ∃ key entry field, store.entries.lookup key = some entry ∧ Refers entry target field ∧
        dependency = ⟨key, {field}, .ready⟩ := by
  have general : ∀ (keys : List Key) (dependents : Hash Key (List Change)),
      dependency ∈ Hash.value (keys.foldl (dependOnReferences store) dependents) target [] ↔
        dependency ∈ Hash.value dependents target [] ∨ ∃ key ∈ keys, ∃ entry field,
          store.entries.lookup key = some entry ∧ Refers entry target field ∧
            dependency = ⟨key, {field}, .ready⟩ := by
    intro keys
    induction keys with
    | nil => simp
    | cons first rest ih =>
      intro dependents
      rw [List.foldl_cons, ih, mem_dependOnReferences]
      simp only [List.mem_cons, exists_eq_or_imp, or_assoc]
  change dependency ∈ Hash.value ((iteration.order store.entries.keys).foldl _ _) target [] ↔ _
  rw [general]
  constructor
  · rintro (none | ⟨key, _, rest⟩)
    · cases none
    · exact ⟨key, rest⟩
  · rintro ⟨key, entry, field, found, rest⟩
    have member : key ∈ iteration.order store.entries.keys :=
      (iteration.perm _).mem_iff.mpr (AList.mem_keys.mp (AList.lookup_isSome.mp (by rw [found]; rfl)))
    exact .inr ⟨key, member, entry, field, found, rest⟩

/-! ## The loop -/

/-- The fields whose change concerns what refers to a key. -/
def concerning : Fields := {.name, .presence, .deleted}

/-- The loop over `queue`: from the keys that wait and the fields that are marked
to the fields that are marked in the end. -/
inductive Propagates (dependents : Hash Key (List Change)) :
    List Key → Hash Key Fields → Hash Key Fields → Prop where
  | done {changed : Hash Key Fields} : Propagates dependents [] changed changed
  | skipped {key : Key} {queue : List Key} {changed final : Hash Key Fields}
      (idle : Disjoint (Hash.value changed key ∅) concerning)
      (rest : Propagates dependents queue changed final) :
      Propagates dependents (key :: queue) changed final
  | followed {key : Key} {queue : List Key} {changed final : Hash Key Fields}
      (moved : ¬ Disjoint (Hash.value changed key ∅) concerning)
      (rest : Propagates dependents
        ((Hash.value dependents key []).foldl follow (queue, changed)).1
        ((Hash.value dependents key []).foldl follow (queue, changed)).2 final) :
      Propagates dependents (key :: queue) changed final

/-- Every dependency marks something. -/
def Marking (dependents : Hash Key (List Change)) : Prop :=
  ∀ key, ∀ dependency ∈ Hash.value dependents key [], dependency.fields ≠ ∅

/-- The keys that depend on something. -/
def dependingKeys (dependents : Hash Key (List Change)) : Finset Key :=
  ((Hash.values dependents).flatten.map Change.key).toFinset

/-- How many of these are not marked yet; each is queued at most once more. -/
def unmarked (dependents : Hash Key (List Change)) (changed : Hash Key Fields) : Nat :=
  ((dependingKeys dependents).filter fun key => Hash.value changed key ∅ = ∅).card

theorem mem_dependingKeys (member : dependency ∈ Hash.value dependents key []) :
    dependency.key ∈ dependingKeys dependents := by
  cases found : dependents.lookup key with
  | none =>
    rw [Hash.value, found] at member
    cases member
  | some list =>
    rw [Hash.value, found, Option.getD_some] at member
    have held : list ∈ Hash.values dependents :=
      List.mem_map.mpr ⟨⟨key, list⟩, (Hash.lookup_eq_some_iff _ _ _).mp found, rfl⟩
    exact List.mem_toFinset.mpr (List.mem_map.mpr ⟨dependency, List.mem_flatten.mpr ⟨list, held, member⟩, rfl⟩)

private theorem follow_unmarked (known : dependency.key ∈ dependingKeys dependents)
    (marks : dependency.fields ≠ ∅) (state : List Key × Hash Key Fields) :
    (follow state dependency).1.length + unmarked dependents (follow state dependency).2 ≤
      state.1.length + unmarked dependents state.2 := by
  have rest : ((dependingKeys dependents).filter fun key =>
      Hash.value (follow state dependency).2 key ∅ = ∅) =
      ((dependingKeys dependents).filter fun key => Hash.value state.2 key ∅ = ∅).erase dependency.key := by
    ext key
    simp only [follow, Finset.mem_filter, Finset.mem_erase, Hash.value_insert]
    by_cases here : key = dependency.key
    · simp [here, Finset.union_eq_empty, marks]
    · simp [here]
  rw [unmarked, rest, unmarked]
  by_cases blank : Hash.value state.2 dependency.key ∅ = ∅
  · have member : dependency.key ∈
        (dependingKeys dependents).filter fun key => Hash.value state.2 key ∅ = ∅ :=
      Finset.mem_filter.mpr ⟨known, blank⟩
    have fewer := Finset.card_erase_add_one member
    have queued : (follow state dependency).1.length = state.1.length + 1 := by simp [follow, blank]
    omega
  · have queued : (follow state dependency).1 = state.1 := by simp [follow, blank]
    have fewer := Finset.card_erase_le (a := dependency.key)
      (s := (dependingKeys dependents).filter fun key => Hash.value state.2 key ∅ = ∅)
    rw [queued]
    omega

private theorem foldl_follow_unmarked (dependents : Hash Key (List Change)) (list : List Change)
    (known : ∀ dependency ∈ list, dependency.key ∈ dependingKeys dependents)
    (marks : ∀ dependency ∈ list, dependency.fields ≠ ∅) (state : List Key × Hash Key Fields) :
    (list.foldl follow state).1.length + unmarked dependents (list.foldl follow state).2 ≤
      state.1.length + unmarked dependents state.2 := by
  induction list generalizing state with
  | nil => exact le_rfl
  | cons dependency rest ih =>
    obtain ⟨here, knownRest⟩ := List.forall_mem_cons.mp known
    obtain ⟨marksHere, marksRest⟩ := List.forall_mem_cons.mp marks
    exact Nat.le_trans (ih knownRest marksRest _) (follow_unmarked here marksHere state)

/-- With a round for each key that waits or may be queued, the bounded loop ends
with an empty queue. -/
theorem propagates_of_rounds (marking : Marking dependents) (rounds : Nat) (queue : List Key)
    (changed : Hash Key Fields) (enough : queue.length + unmarked dependents changed ≤ rounds) :
    Propagates dependents queue changed (propagate dependents rounds queue changed) := by
  induction rounds generalizing queue changed with
  | zero =>
    obtain rfl : queue = [] := List.eq_nil_of_length_eq_zero (by omega)
    exact .done
  | succ rounds ih =>
    cases queue with
    | nil => exact .done
    | cons key queue =>
      rw [List.length_cons] at enough
      rw [propagate]
      split
      · rename_i idle
        exact .skipped idle (ih queue changed (by omega))
      · rename_i moved
        have bound := foldl_follow_unmarked dependents (Hash.value dependents key [])
          (fun _ member => mem_dependingKeys member) (marking key) (queue, changed)
        exact .followed moved (ih _ _ (by simp only at bound; omega))

theorem unmarked_le (dependents : Hash Key (List Change)) (changed : Hash Key Fields) :
    unmarked dependents changed ≤ ((Hash.values dependents).map List.length).sum := by
  calc unmarked dependents changed
      ≤ (dependingKeys dependents).card := Finset.card_filter_le _ _
    _ ≤ ((Hash.values dependents).flatten.map Change.key).length := List.toFinset_card_le _
    _ = ((Hash.values dependents).map List.length).sum := by rw [List.length_map, List.length_flatten]

theorem rebuilt_marking : Marking (rebuildDependencies iteration store).dependents := by
  intro target dependency member
  obtain ⟨key, entry, field, _, _, rfl⟩ := mem_dependents.mp member
  simp

/-- The loop ends for every graph of references, whatever is marked before it. -/
theorem propagates (iteration order : Iteration) (store : Store) (changed : Hash Key Fields) :
    let dependents := (rebuildDependencies iteration store).dependents
    Propagates dependents (order.order changed.keys) changed
      (propagate dependents (propagationRounds dependents changed) (order.order changed.keys) changed) := by
  refine propagates_of_rounds rebuilt_marking _ _ _ (Nat.add_le_add ?_ (unmarked_le _ _))
  rw [(order.perm changed.keys).length_eq]
  simp [Hash.size, AList.keys, List.keys]

private theorem follow_grows (state : List Key × Hash Key Fields) (dependency : Change) (key : Key) :
    Hash.value state.2 key ∅ ⊆ Hash.value (follow state dependency).2 key ∅ := by
  rw [follow, Hash.value_insert]
  split
  · rename_i same
    rw [same]
    exact Finset.subset_union_left
  · exact Finset.Subset.refl _

section

variable (list : List Change) (state : List Key × Hash Key Fields)
include list state

private theorem foldl_follow_grows (key : Key) :
    Hash.value state.2 key ∅ ⊆ Hash.value (list.foldl follow state).2 key ∅ := by
  induction list generalizing state with
  | nil => exact Finset.Subset.refl _
  | cons dependency rest ih => exact (follow_grows state dependency key).trans (ih _)

private theorem foldl_follow_marks (member : dependency ∈ list) :
    dependency.fields ⊆ Hash.value (list.foldl follow state).2 dependency.key ∅ := by
  induction list generalizing state with
  | nil => cases member
  | cons first rest ih =>
    obtain rfl | later := List.mem_cons.mp member
    · refine Finset.Subset.trans ?_ (foldl_follow_grows rest (follow state dependency) dependency.key)
      rw [follow, Hash.value_insert, if_pos rfl]
      exact Finset.subset_union_right
    · exact ih _ later

private theorem foldl_follow_queue (member : key ∈ state.1) : key ∈ (list.foldl follow state).1 := by
  induction list generalizing state with
  | nil => exact member
  | cons first rest ih =>
    refine ih _ ?_
    rw [follow]
    dsimp only
    split
    · exact List.mem_append_left _ member
    · exact member

end

theorem Propagates.grows (ran : Propagates dependents queue changed final) (key : Key) :
    Hash.value changed key ∅ ⊆ Hash.value final key ∅ := by
  induction ran with
  | done => exact Finset.Subset.refl _
  | skipped _ _ ih => exact ih
  | followed _ _ ih => exact (foldl_follow_grows _ _ key).trans ih

/-- What depends on a queued key whose name or presence changed is marked. -/
theorem Propagates.marks (ran : Propagates dependents queue changed final) (queued : key ∈ queue)
    (moved : ¬ Disjoint (Hash.value changed key ∅) concerning)
    (depends : dependency ∈ Hash.value dependents key []) :
    dependency.fields ⊆ Hash.value final dependency.key ∅ := by
  induction ran with
  | done => cases queued
  | @skipped first queue changed final idle rest ih =>
    obtain rfl | later := List.mem_cons.mp queued
    · exact absurd idle moved
    · exact ih later moved
  | @followed first queue changed final _ rest ih =>
    obtain rfl | later := List.mem_cons.mp queued
    · exact (foldl_follow_marks _ _ depends).trans (Propagates.grows rest _)
    · exact ih (foldl_follow_queue _ _ later) fun idle =>
        moved (idle.mono_left (foldl_follow_grows _ (queue, changed) key))

end Qcm.EntityPropagation
