import Qcm.ShuffleProxy
import Qcm.Lib.Runs

/-!
The shuffle list stays a permutation of the source rows, and the map its
inverse, in every run whose steps are accepted.

Growth and reshuffling are rearrangements.  Shrinking is not: it takes the
entries it swaps in from the end of the list, whatever they are.
`shrink_perm_iff` says for which lists that is enough.
-/

namespace Qcm.ShuffleProxyProofs

open ShuffleProxy Lib.Runs

variable {s s' : Proxy}

/-- The list is a permutation of the source rows, and the map its inverse. -/
structure Synced (s : Proxy) : Prop where
  rows : s.shuffleList.Perm (List.range s.rowCount)
  inverse : ∀ row place, s.sourceToProxy row = some place ↔ s.shuffleList[place]? = some row

variable {rows : List Nat} {count : Nat}

private theorem inverse_fold (rows : List Nat) (distinct : rows.Nodup) (start : Nat)
    (map : Nat → Option Nat) (row place : Nat) :
    (rows.zipIdx start).foldl setPlace map row = some place ↔
      (start ≤ place ∧ rows[place - start]? = some row) ∨ (row ∉ rows ∧ map row = some place) := by
  induction rows generalizing start map with
  | nil => simp
  | cons head rest ih =>
    obtain ⟨fresh, restDistinct⟩ := List.nodup_cons.mp distinct
    rw [List.zipIdx_cons, List.foldl_cons, ih restDistinct, setPlace]
    by_cases same : row = head
    · subst same
      have later : ∀ i, rest[i]? ≠ some row := fun i found => fresh (List.mem_of_getElem? found)
      by_cases first : place = start
      · subst first
        simp [fresh]
      · have shifted : start ≤ place → place - start = place - (start + 1) + 1 := by omega
        simp only [later, and_false, fresh, not_false_eq_true, Function.update_self, true_and,
          Option.some.injEq, false_or, List.mem_cons, not_true_eq_false, false_and, or_false]
        constructor
        · intro h
          omega
        · rintro ⟨bound, found⟩
          rw [shifted bound, List.getElem?_cons_succ] at found
          exact absurd found (later _)
    · simp only [Function.update_of_ne same, List.mem_cons, same, false_or]
      refine or_congr_left ?_
      by_cases first : place = start
      · subst first
        have : ¬ place + 1 ≤ place := by omega
        simp [Ne.symm same, this]
      · constructor
        · rintro ⟨bound, found⟩
          refine ⟨by omega, ?_⟩
          rwa [show place - start = place - (start + 1) + 1 by omega, List.getElem?_cons_succ]
        · rintro ⟨bound, found⟩
          refine ⟨by omega, ?_⟩
          rwa [show place - start = place - (start + 1) + 1 by omega,
            List.getElem?_cons_succ] at found

/-- On distinct rows the map inverts the list. -/
theorem inverseMap_iff (distinct : rows.Nodup) (row place : Nat) :
    inverseMap rows row = some place ↔ rows[place]? = some row := by
  rw [inverseMap, inverse_fold rows distinct]
  simp

private theorem refresh_synced_iff (fits : s.shuffleList.length = s.rowCount) :
    (∃ s', refreshFromSource s = some s' ∧ Synced s') ↔
      s.shuffleList.Perm (List.range s.rowCount) := by
  have whole : s.shuffleList.take s.rowCount = s.shuffleList := by
    rw [← fits, List.take_length]
  rw [refreshFromSource, if_neg (by omega)]
  simp only [Option.some.injEq, exists_eq_left', whole]
  constructor
  · exact fun synced => synced.rows
  · intro rows
    exact ⟨rows, inverseMap_iff (rows.nodup_iff.mpr List.nodup_range)⟩

private theorem zeroInFront_perm (rows : List Nat) : (zeroInFront rows).Perm rows := by
  unfold zeroInFront
  split
  · exact List.swap_perm _ _ _
  · exact .refl _

private theorem shuffleFrom_perm (rows : List Nat) (first : Nat) (random : Shuffle) :
    (shuffleFrom rows first random).Perm rows := by
  have parts := (random.perm (rows.drop first)).append_left (rows.take first)
  rwa [List.take_append_drop] at parts

private theorem grown_perm {old : Nat} (bound : old ≤ count) (same : rows.Perm (List.range old)) :
    (rows ++ List.range' old (count - old)).Perm (List.range count) := by
  have split := List.range'_append_1 (s := 0) (m := old) (n := count - old)
  rw [Nat.zero_add, Nat.add_sub_cancel' bound] at split
  rw [List.range_eq_range', ← split, ← List.range_eq_range']
  exact same.append_right _

/-! ## Shrinking -/

/-- In the part of the list that is cut off, no surviving row stands before one
that is gone. -/
def GoneFirst (count : Nat) (rows : List Nat) : Prop :=
  (rows.drop count).Pairwise fun x y => x < count → y < count

/-- The state of the loop before entry `i`: `k - 1` entries were swapped in, the
last ones of the list, and everything from `i` up to them is untouched. -/
structure ShrinkInv (count : Nat) (rows : List Nat) (i : Nat) (state : List Nat × Nat) :
    Prop where
  perm : state.1.Perm rows
  swapped : state.2 = (rows.take i).countP (count ≤ ·) + 1
  untouched : ∀ j, i ≤ j → j + state.2 ≤ rows.length → state.1[j]? = rows[j]?
  survivors : (∀ j < i, ∀ row, state.1[j]? = some row → row < count) ↔
    ∀ j, rows.length < j + state.2 → ∀ row, rows[j]? = some row → row < count

theorem getElem?_swap (rows : List Nat) {i j : Nat} (left : i < rows.length)
    (right : j < rows.length) (k : Nat) :
    (rows.swap i j)[k]? = if k = j then rows[i]? else if k = i then rows[j]? else rows[k]? := by
  rw [List.swap_eq_of_lt left right, List.getElem?_set, List.getElem?_set]
  grind

section

variable (bound : count ≤ rows.length) (same : rows.Perm (List.range rows.length))
include bound same

theorem gone_count : rows.countP (count ≤ ·) = rows.length - count := by
  have split := List.range'_append_1 (s := 0) (m := count) (n := rows.length - count)
  rw [Nat.zero_add, Nat.add_sub_cancel' bound] at split
  rw [same.countP_eq, List.range_eq_range', ← split, List.countP_append,
    List.countP_eq_zero.mpr, List.countP_eq_length.mpr, List.length_range', Nat.zero_add]
  · intro row member
    have := List.mem_range'_1.mp member
    simpa using this.1
  · intro row member
    have := List.mem_range'_1.mp member
    simp
    omega

private theorem shrink_step {i : Nat} (inside : i < count) {state : List Nat × Nat}
    (inv : ShrinkInv count rows i state) :
    ShrinkInv count rows (i + 1) (shrinkStep count rows.length state i) := by
  have within : i < rows.length := by omega
  have taken : rows.take (i + 1) = rows.take i ++ [rows[i]] := List.take_succ_eq_append_getElem within
  have gone := gone_count bound same
  have most : (rows.take (i + 1)).countP (count ≤ ·) ≤ rows.length - count :=
    gone ▸ (List.take_sublist _ _).countP_le
  have few : (rows.take i).countP (count ≤ ·) ≤ rows.length - count :=
    gone ▸ (List.take_sublist _ _).countP_le
  have here : state.1[i]? = some rows[i] := by
    rw [inv.untouched i (Nat.le_refl i) (by rw [inv.swapped]; omega), List.getElem?_eq_getElem within]
  have counted : (rows.take (i + 1)).countP (count ≤ ·) =
      (rows.take i).countP (count ≤ ·) + [rows[i]].countP (count ≤ ·) := by
    rw [taken, List.countP_append]
  have total := inv.perm.length_eq
  simp only [shrinkStep, here]
  split
  · rename_i isGone
    simp only [List.countP_singleton, isGone, decide_true, if_true] at counted
    have room : state.2 + count ≤ rows.length := by rw [inv.swapped]; omega
    have positive : 0 < state.2 := by rw [inv.swapped]; omega
    have entries := getElem?_swap state.1 (show i < state.1.length by omega)
      (show rows.length - state.2 < state.1.length by omega)
    refine ⟨(List.swap_perm _ _ _).trans inv.perm, by rw [counted, inv.swapped], ?_, ?_⟩
    · intro j later untouched
      rw [entries, if_neg (by omega), if_neg (by omega)]
      exact inv.untouched j (by omega) (by omega)
    · have last : state.1[rows.length - state.2]? = rows[rows.length - state.2]? :=
        inv.untouched _ (by omega) (by omega)
      have earlier : ∀ j < i, (state.1.swap i (rows.length - state.2))[j]? = state.1[j]? := by
        intro j before
        rw [entries, if_neg (by omega), if_neg (by omega)]
      have put : (state.1.swap i (rows.length - state.2))[i]? = rows[rows.length - state.2]? := by
        rw [entries, if_neg (by omega), if_pos rfl, last]
      constructor
      · intro all j late row found
        by_cases first : j = rows.length - state.2
        · subst first
          exact all i (by omega) row (put.trans found)
        · refine inv.survivors.mp (fun j before row found => ?_) j (by omega) row found
          exact all j (by omega) row ((earlier j before).trans found)
      · intro all j before row found
        by_cases first : j = i
        · subst first
          exact all (rows.length - state.2) (by omega) row (put.symm.trans found)
        · refine inv.survivors.mpr (fun j late row found => all j (by omega) row found) j
            (by omega) row ?_
          rwa [earlier j (by omega)] at found
  · rename_i survives
    simp only [List.countP_singleton, survives, decide_false, Bool.false_eq_true, if_false,
      Nat.add_zero] at counted
    refine ⟨inv.perm, by rw [counted, inv.swapped], ?_, ?_⟩
    · exact fun j later => inv.untouched j (by omega)
    · rw [← inv.survivors]
      constructor
      · exact fun all j before => all j (by omega)
      · intro all j before row found
        by_cases first : j = i
        · subst first
          rw [here] at found
          cases found
          omega
        · exact all j (by omega) row found

theorem shrink_inv {i : Nat} (inside : i ≤ count) :
    ShrinkInv count rows i ((List.range i).foldl (shrinkStep count rows.length) (rows, 1)) := by
  induction i with
  | zero =>
    refine ⟨.refl _, by simp, fun _ _ _ => rfl, ?_⟩
    refine iff_of_true (by simp) fun j late row found => ?_
    have := (List.getElem?_eq_some_iff.mp found).1
    simp only [List.range_zero, List.foldl_nil] at late
    omega
  | succ i ih =>
    rw [List.range_succ, List.foldl_append]
    exact shrink_step bound same (by omega) (ih (by omega))

theorem shrinkLoop_length : (shrinkLoop count rows).length = rows.length :=
  (shrink_inv bound same (Nat.le_refl _)).perm.length_eq

end

/-- The last entries that survive are the last entries of the list exactly when
no survivor stands before an entry that is gone. -/
private theorem last_survive_iff (rows : List Nat) :
    (∀ j, rows.length < j + (rows.countP (· < count) + 1) → ∀ row, rows[j]? = some row →
      row < count) ↔ rows.Pairwise fun x y => x < count → y < count := by
  induction rows with
  | nil => simp
  | cons head rest ih =>
    have most : rest.countP (· < count) ≤ rest.length := List.countP_le_length
    by_cases survives : head < count
    · simp only [List.countP_cons, survives, decide_true, if_true, List.length_cons,
        List.pairwise_cons, forall_const]
      constructor
      · intro all
        have full : rest.countP (· < count) = rest.length := by
          by_contra partly
          have counted := (List.drop_sublist (rest.length - rest.countP (· < count) - 1) rest).countP_le
            (p := fun row => decide (row < count))
          rw [List.countP_eq_length.mpr, List.length_drop] at counted
          · omega
          · intro row member
            obtain ⟨j, found⟩ := List.mem_iff_getElem?.mp member
            rw [List.getElem?_drop] at found
            have good := all (rest.length - rest.countP (· < count) - 1 + j + 1) (by omega) row
              (by simpa using found)
            simpa using good
        have whole : ∀ row ∈ rest, row < count := by
          simpa using List.countP_eq_length.mp full
        exact ⟨whole, List.pairwise_of_forall_mem_list fun x _ y later _ => whole y later⟩
      · rintro ⟨whole, _⟩ j late row found
        cases j with
        | zero => simp_all
        | succ j => exact whole row (List.mem_of_getElem? found)
    · simp only [List.countP_cons, survives, decide_false, Bool.false_eq_true, if_false,
        List.length_cons, List.pairwise_cons, false_implies, implies_true, true_and, Nat.add_zero]
      rw [← ih]
      constructor
      · intro all j late row found
        exact all (j + 1) (by omega) row (by simpa using found)
      · intro all j late row found
        cases j with
        | zero => omega
        | succ j => exact all j (by omega) row (by simpa using found)

/-- Cutting a permutation down leaves a permutation exactly when the rows that
are gone stand first in the part that is cut off. -/
theorem shrink_perm_iff (bound : count ≤ rows.length) (same : rows.Perm (List.range rows.length)) :
    ((shrinkLoop count rows).take count).Perm (List.range count) ↔ GoneFirst count rows := by
  have inv := shrink_inv bound same (Nat.le_refl count)
  have gone := gone_count bound same
  have distinct := (inv.perm.trans same).nodup_iff.mpr List.nodup_range
  have total := shrinkLoop_length bound same
  -- as many survivors are cut off as entries are swapped in
  have swapped : (rows.take count).countP (count ≤ ·) = (rows.drop count).countP (· < count) := by
    have parts : rows.countP (count ≤ ·) =
        (rows.take count).countP (count ≤ ·) + (rows.drop count).countP (count ≤ ·) := by
      rw [← List.countP_append, List.take_append_drop]
    have cut := List.length_eq_countP_add_countP (fun row => decide (row < count)) (l := rows.drop count)
    simp only [Bool.not_eq_true, decide_eq_false_iff_not, Nat.not_lt, List.length_drop] at cut
    omega
  have survive : ((shrinkLoop count rows).take count).Perm (List.range count) ↔
      ∀ j < count, ∀ row, (shrinkLoop count rows)[j]? = some row → row < count := by
    constructor
    · intro kept j inside row found
      have member : row ∈ (shrinkLoop count rows).take count :=
        List.mem_of_getElem? ((List.getElem?_take_of_lt inside).trans found)
      exact List.mem_range.mp (kept.mem_iff.mp member)
    · intro all
      have below : (shrinkLoop count rows).take count ⊆ List.range count := by
        intro row member
        obtain ⟨j, found⟩ := List.mem_iff_getElem?.mp member
        have inside := (List.getElem?_eq_some_iff.mp found).1
        rw [List.length_take] at inside
        rw [List.getElem?_take_of_lt (by omega)] at found
        exact List.mem_range.mpr (all j (by omega) row found)
      refine (List.subperm_of_subset (distinct.sublist (List.take_sublist _ _)) below).perm_of_length_le ?_
      rw [List.length_range, List.length_take]
      exact Nat.le_min.mpr ⟨Nat.le_refl _, total.symm ▸ bound⟩
  rw [survive, GoneFirst, ← last_survive_iff]
  refine inv.survivors.trans ?_
  rw [inv.swapped, swapped]
  have few : (rows.drop count).countP (· < count) ≤ rows.length - count :=
    List.length_drop ▸ List.countP_le_length
  constructor
  · intro all j late row found
    rw [List.length_drop] at late
    rw [List.getElem?_drop] at found
    exact all (count + j) (by omega) row found
  · intro all j late row found
    refine all (j - count) (by rw [List.length_drop]; omega) row ?_
    rwa [List.getElem?_drop, Nat.add_sub_cancel' (by omega)]

/-! ## Steps -/

/-- When `shuffleSync` keeps the permutation: the current index leaves a range
to shuffle when rows are added, and the rows that are gone stand first in the
part of the list that is cut off when rows are taken away. -/
def AcceptsSync (s : Proxy) : Prop :=
  (s.shuffleList.length < s.rowCount → -1 ≤ s.currentIndex ∧ s.currentIndex < s.rowCount) ∧
    (s.rowCount < s.shuffleList.length → GoneFirst s.rowCount s.shuffleList)

/-- The steps that keep the permutation. -/
def Accepts (s : Proxy) : Op → Prop
  | .sourceRows rowCount _ => AcceptsSync { s with rowCount }
  | .setSourceModel rowCount source _ _ => AcceptsSync (evaluateCurrent { s with rowCount } source)
  | .setShuffle _ _ => True
  | .reShuffle _ => True
  | .evaluateCurrent _ => True

/-- The list is a permutation of as many rows as it has, and the map its inverse. -/
private structure Listed (s : Proxy) : Prop where
  rows : s.shuffleList.Perm (List.range s.shuffleList.length)
  inverse : ∀ row place, s.sourceToProxy row = some place ↔ s.shuffleList[place]? = some row

private theorem Synced.listed (synced : Synced s) : Listed s := by
  have total := synced.rows.length_eq
  rw [List.length_range] at total
  exact ⟨total ▸ synced.rows, synced.inverse⟩

private theorem shuffleSync_iff (listed : Listed s) (random : Shuffle) :
    (∃ s', shuffleSync s random = some s' ∧ Synced s') ↔ AcceptsSync s := by
  unfold shuffleSync
  dsimp only
  by_cases grows : s.shuffleList.length < s.rowCount
  · rw [if_pos grows]
    by_cases outside : s.currentIndex + 1 < 0 ∨ (s.rowCount : Int) < s.currentIndex + 1
    · rw [if_pos outside]
      refine iff_of_false (by simp) ?_
      rintro ⟨room, _⟩
      have := room grows
      omega
    · have grown := grown_perm (Nat.le_of_lt grows) listed.rows
      have moved := (shuffleFrom_perm _ (s.currentIndex + 1).toNat random).trans grown
      rw [if_neg outside, refresh_synced_iff (by simpa using moved.length_eq)]
      exact iff_of_true moved ⟨fun _ => by omega, fun _ => by omega⟩
  · rw [if_neg grows]
    by_cases shrinks : s.rowCount < s.shuffleList.length
    · have bound := Nat.le_of_lt shrinks
      have fits : ((shrinkLoop s.rowCount s.shuffleList).take s.rowCount).length = s.rowCount := by
        rw [List.length_take, shrinkLoop_length bound listed.rows, Nat.min_eq_left bound]
      rw [if_pos shrinks, refresh_synced_iff fits, shrink_perm_iff bound listed.rows]
      exact ⟨fun first => ⟨fun _ => by omega, fun _ => first⟩, fun accepted => accepted.2 shrinks⟩
    · have even : s.shuffleList.length = s.rowCount := by omega
      rw [if_neg shrinks]
      refine iff_of_true ⟨s, rfl, even ▸ listed.rows, listed.inverse⟩ ?_
      exact ⟨fun _ => by omega, fun _ => by omega⟩

private theorem reShuffle_synced (synced : Synced s) (random : Shuffle) :
    ∃ s', reShuffle s random = some s' ∧ Synced s' := by
  unfold reShuffle
  split
  · have shuffled := (zeroInFront_perm _).trans ((random.perm s.shuffleList).trans synced.rows)
    exact (refresh_synced_iff (by simpa using shuffled.length_eq)).mpr shuffled
  · exact ⟨s, rfl, synced⟩

/-- From a synced proxy, a step is defined and leaves a synced one exactly when
it is accepted. -/
theorem apply_synced_iff (synced : Synced s) (op : Op) :
    (∃ s', apply s op = some s' ∧ Synced s') ↔ Accepts s op := by
  cases op with
  | sourceRows rowCount random =>
    exact shuffleSync_iff (s := { s with rowCount }) ⟨synced.listed.rows, synced.inverse⟩ random
  | setSourceModel rowCount source support random =>
    refine Iff.trans ?_ (shuffleSync_iff (s := evaluateCurrent { s with rowCount } source)
      ⟨synced.listed.rows, synced.inverse⟩ random)
    simp only [apply, Option.map_eq_some_iff]
    constructor
    · rintro ⟨_, ⟨s', ran, rfl⟩, kept⟩
      exact ⟨s', ran, kept.rows, kept.inverse⟩
    · rintro ⟨s', ran, kept⟩
      exact ⟨_, ⟨s', ran, rfl⟩, kept.rows, kept.inverse⟩
  | setShuffle value random =>
    simp only [Accepts, iff_true, apply]
    split
    · exact ⟨s, rfl, synced⟩
    · exact reShuffle_synced (s := { s with shuffle := value }) ⟨synced.rows, synced.inverse⟩ random
  | reShuffle random => exact iff_of_true (reShuffle_synced synced random) trivial
  | evaluateCurrent source => exact iff_of_true ⟨_, rfl, synced.rows, synced.inverse⟩ trivial

/-- The two maps send the rows of the source into each other. -/
def MutuallyInverse (s : Proxy) : Prop :=
  ∀ row : Int, 0 ≤ row → row < s.rowCount →
    mapFromSource s (mapToSource s row) = row ∧ mapToSource s (mapFromSource s row) = row

private theorem entry_mapped (synced : Synced s) (shuffled : useShuffle s = true) {place row : Nat}
    (found : s.shuffleList[place]? = some row) :
    mapToSource s place = row ∧ mapFromSource s row = place := by
  have bound := (List.getElem?_eq_some_iff.mp found).1
  have back := (synced.inverse row place).mpr found
  constructor
  · rw [mapToSource, if_neg (by omega), if_pos shuffled, Int.toNat_natCast, found]
    rfl
  · simp [mapFromSource, shuffled, back]

/-- A synced proxy maps its rows one to one onto the rows of the source. -/
theorem synced_inverse (synced : Synced s) : MutuallyInverse s := by
  intro row lower upper
  have total := synced.rows.length_eq
  rw [List.length_range] at total
  obtain ⟨row, rfl⟩ := Int.eq_ofNat_of_zero_le lower
  by_cases shuffled : useShuffle s = true
  · obtain ⟨source, there⟩ : ∃ source, s.shuffleList[row]? = some source :=
      ⟨_, List.getElem?_eq_getElem (by omega)⟩
    obtain ⟨place, found⟩ := List.mem_iff_getElem?.mp
      (synced.rows.mem_iff.mpr (List.mem_range.mpr (Int.ofNat_lt.mp upper)))
    obtain ⟨forth, back⟩ := entry_mapped synced shuffled there
    obtain ⟨forth', back'⟩ := entry_mapped synced shuffled found
    exact ⟨forth ▸ back, back' ▸ forth'⟩
  · simp only [mapFromSource, mapToSource, shuffled, Bool.false_eq_true, if_false, and_self]
    rw [if_neg (by omega)]

/-- The proxies reached by accepted steps. -/
def Reached : Proxy → Prop :=
  Reach (fun s => s = Proxy.initial) Accepts fun s op s' => apply s op = some s'

/-- Every run of accepted steps leaves a permutation and its inverse, so the two
maps are mutually inverse; and the steps that keep it so are the accepted ones. -/
theorem permutation_of_accepted_runs (reached : Reached s) :
    Synced s ∧ MutuallyInverse s ∧
      ∀ op, (∃ s', apply s op = some s' ∧ Synced s') ↔ Accepts s op := by
  have synced : Synced s := by
    apply reached.invariant
    · rintro _ rfl
      exact ⟨.refl _, by simp [Proxy.initial]⟩
    · intro s op s' synced accepted ran
      obtain ⟨other, same, kept⟩ := (apply_synced_iff synced op).mpr accepted
      rw [ran] at same
      cases same
      exact kept
  exact ⟨synced, synced_inverse synced, apply_synced_iff synced⟩

/-- The outcome that brings the third entry to the front. -/
def swapThird : Shuffle where
  rearrange rows := (rows.swap 0 2).swap 1 2
  perm rows := (List.swap_perm _ 1 2).trans (List.swap_perm rows 0 2)

/-- The source gets four rows, the list is shuffled, and two rows are taken away:
an entry that is gone is swapped in for another one. -/
theorem shrink_keeps_gone_row :
    (do
      let grown ← apply Proxy.initial (.sourceRows 4 swapThird)
      let shrunk ← apply grown (.sourceRows 2 swapThird)
      pure (grown.shuffleList, shrunk.shuffleList, mapToSource shrunk 0, mapFromSource shrunk 1)) =
      some ([2, 0, 1, 3], [3, 0], 3, -1) ∧
    ∀ s, (apply Proxy.initial (.sourceRows 4 swapThird)).bind
        (apply · (.sourceRows 2 swapThird)) = some s → ¬ Synced s := by
  refine ⟨by decide, fun s ran synced => ?_⟩
  cases ran
  exact absurd synced.rows (by decide)

theorem permutation_of_a_growth :
    ∃ s, apply Proxy.initial (.sourceRows 2 swapThird) = some s ∧ Synced s ∧ MutuallyInverse s ∧
      ∀ op, (∃ s', apply s op = some s' ∧ Synced s') ↔ Accepts s op := by
  have accepted : Accepts Proxy.initial (.sourceRows 2 swapThird) :=
    ⟨fun _ => ⟨by decide, by decide⟩, fun shrinks => absurd shrinks (by decide)⟩
  exact ⟨_, rfl, permutation_of_accepted_runs (.next (.start rfl) accepted rfl)⟩

end Qcm.ShuffleProxyProofs
