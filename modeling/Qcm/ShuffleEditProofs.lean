import Qcm.ShuffleEdits
import Qcm.ShuffleProxyProofs

/-!
Which edits of the source leave the shuffled order alone.

The view learns how many rows there are and keeps the numbers in its list, so an
insertion is unnoticed only behind the rows shown so far, and a removal only
where the numbers come to mean the songs that remain, in their order
(`stable_iff`).
-/

namespace Qcm.ShuffleEditProofs

open ShuffleProxy ShuffleProxyProofs ShuffleEdits Lib.Splice

variable {Id : Type} {songs : List Id} {s s' : Proxy} {edit : Edit Id} {rows : List Nat}
  {left place first count : Nat}

/-- The entry of the list at a place, after all but `left` rows are gone: the old
one, or else the next one from the end. -/
def entryAfter (left : Nat) (rows : List Nat) (place : Nat) : Option Nat :=
  rows[place]?.bind fun row =>
    if row < left then some row else rows[rows.length - (rows.take (place + 1)).countP (left ≤ ·)]?

private theorem shrink_entries (bound : left ≤ rows.length) (same : rows.Perm (List.range rows.length)) {turns : Nat}
    (inside : turns ≤ left) (before : place < turns) :
    ((List.range turns).foldl (shrinkStep left rows.length) (rows, 1)).1[place]? = entryAfter left rows place := by
  induction turns with
  | zero => exact absurd before (Nat.not_lt_zero _)
  | succ turns ih =>
    have inv := shrink_inv bound same (Nat.le_of_succ_le inside)
    rw [List.range_succ, List.foldl_append, List.foldl_cons, List.foldl_nil]
    generalize ran : (List.range turns).foldl (shrinkStep left rows.length) (rows, 1) = state at inv ih
    have within : turns < rows.length := by omega
    have few : (rows.take turns).countP (left ≤ ·) ≤ rows.length - left :=
      gone_count bound same ▸ (List.take_sublist _ _).countP_le
    have most : (rows.take (turns + 1)).countP (left ≤ ·) ≤ rows.length - left :=
      gone_count bound same ▸ (List.take_sublist _ _).countP_le
    have here : state.1[turns]? = some rows[turns] := by
      rw [inv.untouched turns (Nat.le_refl _) (by rw [inv.swapped]; omega), List.getElem?_eq_getElem within]
    have counted : (rows.take (turns + 1)).countP (left ≤ ·) =
        (rows.take turns).countP (left ≤ ·) + [rows[turns]].countP (left ≤ ·) := by
      rw [List.take_succ_eq_append_getElem within, List.countP_append]
    simp only [shrinkStep, here]
    split_ifs with gone
    · simp only [List.countP_singleton, gone, decide_true, if_true] at counted
      have swapped : state.2 = (rows.take (turns + 1)).countP (left ≤ ·) := by rw [counted, inv.swapped]
      have total := inv.perm.length_eq
      rw [getElem?_swap state.1 (by omega) (by omega), if_neg (by omega)]
      split_ifs with now
      · subst now
        rw [inv.untouched _ (by omega) (by omega), entryAfter, List.getElem?_eq_getElem within, Option.bind_some,
          if_neg (Nat.not_lt.mpr gone), swapped]
      · exact ih (by omega) (by omega)
    · obtain rfl | earlier := Nat.eq_or_lt_of_le (Nat.le_of_lt_succ before)
      · rw [here, entryAfter, List.getElem?_eq_getElem within, Option.bind_some, if_pos (Nat.not_le.mp gone)]
      · exact ih (by omega) earlier

/-- The numbers of the rows that remain after a removal, in the order of the list. -/
def remaining (first count : Nat) (rows : List Nat) : List Nat := rows.filterMap (erased first count)

theorem remaining_range {total : Nat} (inside : first + count ≤ total) :
    remaining first count (List.range total) = List.range (total - count) := by
  have front := List.range'_append_1 (s := 0) (m := first) (n := total - count - first)
  have back := List.range'_append_1 (s := 0) (m := first) (n := total - first)
  have middle := List.range'_append_1 (s := first) (m := count) (n := total - count - first)
  rw [Nat.zero_add, Nat.add_sub_cancel' (by omega)] at front back
  rw [show count + (total - count - first) = total - first by omega] at middle
  have low : (List.range' 0 first).filterMap (erased first count) = List.range' 0 first := by
    refine (List.filterMap_congr fun row member => ?_).trans List.filterMap_some
    have before := (List.mem_range'_1.mp member).2
    rw [erased, if_pos (by omega)]
  have gone : (List.range' first count).filterMap (erased first count) = [] := by
    refine List.filterMap_eq_nil_iff.mpr fun row member => ?_
    obtain ⟨lower, upper⟩ := List.mem_range'_1.mp member
    rw [erased, if_neg (by omega), if_pos upper]
  have high : (List.range' (first + count) (total - count - first)).filterMap (erased first count) =
      List.range' first (total - count - first) := by
    have moved : (List.range' (first + count) (total - count - first)).map (· - count) =
        List.range' (first + count - count) (total - count - first) :=
      List.map_sub_range' (Nat.le_add_left count first) _
    rw [Nat.add_sub_cancel] at moved
    rw [← moved, ← List.filterMap_eq_map]
    refine List.filterMap_congr fun row member => ?_
    have lower := (List.mem_range'_1.mp member).1
    rw [erased, if_neg (by omega), if_neg (by omega)]
    rfl
  rw [remaining, List.range_eq_range', ← back, ← middle, List.filterMap_append, List.filterMap_append, low, gone, high,
    List.nil_append, front, List.range_eq_range']

theorem remaining_perm (same : rows.Perm (List.range rows.length)) (inside : first + count ≤ rows.length) :
    (remaining first count rows).Perm (List.range (rows.length - count)) :=
  remaining_range inside ▸ same.filterMap _

/-- The entries are the rows that remain if and only if the list is. -/
theorem entries_iff (same : rows.Perm (List.range rows.length)) (inside : first + count ≤ rows.length) :
    (∀ place < rows.length - count, (remaining first count rows)[place]? = entryAfter (rows.length - count) rows place) ↔
      (shrinkLoop (rows.length - count) rows).take (rows.length - count) = remaining first count rows := by
  have bound := Nat.sub_le rows.length count
  have entries (place : Nat) (within : place < rows.length - count) :
      ((shrinkLoop (rows.length - count) rows).take (rows.length - count))[place]? =
        entryAfter (rows.length - count) rows place := by
    rw [List.getElem?_take_of_lt within]
    exact shrink_entries bound same (Nat.le_refl _) within
  have size : (remaining first count rows).length = rows.length - count :=
    (remaining_perm same inside).length_eq.trans List.length_range
  constructor
  · intro each
    refine List.ext_getElem? fun place => ?_
    by_cases within : place < rows.length - count
    · rw [entries place within, each place within]
    · rw [List.getElem?_eq_none (by rw [List.length_take]; omega), List.getElem?_eq_none (by omega)]
  · intro whole place within
    rw [← entries place within, whole]

section
variable {rowCount : Nat} (random : Shuffle)

/-- Rows are added behind the current one, whatever the shuffle makes of the rest. -/
theorem sync_grown (listed : s.shuffleList.length = s.rowCount)
    (current : -1 ≤ s.currentIndex ∧ s.currentIndex < s.rowCount) (grows : s.rowCount < rowCount) :
    ∃ s', apply s (.sourceRows rowCount random) = some s' ∧ useShuffle s' = useShuffle s ∧
      ∀ place : Nat, (place : Int) ≤ s.currentIndex → s'.shuffleList[place]? = s.shuffleList[place]? := by
  have room : ¬ (s.currentIndex + 1 < 0 ∨ (rowCount : Int) < s.currentIndex + 1) := by omega
  simp only [apply, shuffleSync]
  rw [if_pos (listed ▸ grows), if_neg room]
  have first : (s.currentIndex + 1).toNat ≤ s.shuffleList.length := by omega
  generalize grown : s.shuffleList ++ List.range' s.shuffleList.length (rowCount - s.shuffleList.length) = whole
  have total : (shuffleFrom whole (s.currentIndex + 1).toNat random).length = rowCount := by
    rw [shuffleFrom, List.length_append, (random.perm _).length_eq, ← List.length_append, List.take_append_drop,
      ← grown, List.length_append, List.length_range']
    omega
  simp only [refreshFromSource]
  rw [if_neg (Nat.not_lt.mpr (Nat.le_of_eq total.symm))]
  refine ⟨_, rfl, rfl, fun place shown => ?_⟩
  have within : place < (s.currentIndex + 1).toNat := by omega
  have kept : place < (whole.take (s.currentIndex + 1).toNat).length := by
    rw [List.length_take, ← grown, List.length_append]
    omega
  rw [shuffleFrom, List.getElem?_append_left kept, List.getElem?_take_of_lt within, ← grown,
    List.getElem?_append_left (by omega)]

theorem sync_shrunk (same : s.shuffleList.Perm (List.range s.shuffleList.length))
    (shrinks : rowCount < s.shuffleList.length) :
    ∃ s', apply s (.sourceRows rowCount random) = some s' ∧ useShuffle s' = useShuffle s ∧ s'.rowCount = rowCount ∧
      s'.shuffleList = (shrinkLoop rowCount s.shuffleList).take rowCount := by
  have bound := Nat.le_of_lt shrinks
  have fits : ((shrinkLoop rowCount s.shuffleList).take rowCount).length = rowCount := by
    rw [List.length_take, shrinkLoop_length bound same, Nat.min_eq_left bound]
  simp only [apply, shuffleSync]
  rw [if_neg (Nat.not_lt.mpr bound), if_pos shrinks]
  simp only [refreshFromSource]
  rw [if_neg (Nat.not_lt.mpr (Nat.le_of_eq fits.symm))]
  exact ⟨_, rfl, rfl, rfl, rfl⟩

end

theorem songAt_eq (shuffled : useShuffle s = true) : songAt songs s place = s.shuffleList[place]?.bind (songs[·]?) := by
  have mapped : mapToSource s place = (s.shuffleList[place]?.map Int.ofNat).getD (-1) := by
    rw [mapToSource, shuffled, if_pos rfl, Int.toNat_natCast]
    split_ifs with outside
    · rw [List.getElem?_eq_none (by omega)]
      rfl
    · rfl
  rw [songAt, mapped]
  cases s.shuffleList[place]? with
  | none | some row => rfl

theorem shown_eq (shuffled : useShuffle s = true) (fits : s.shuffleList.length = s.rowCount) :
    shown songs s = s.shuffleList.map (songs[·]?) := by
  refine List.ext_getElem? fun place => ?_
  rw [shown, List.getElem?_map, List.getElem?_map]
  by_cases inside : place < s.rowCount
  · rw [List.getElem?_range inside, Option.map_some, songAt_eq shuffled, List.getElem?_eq_getElem (fits ▸ inside)]
    rfl
  · rw [List.getElem?_eq_none (by rw [List.length_range]; omega), List.getElem?_eq_none (by omega)]
    rfl

theorem not_mem_erased {row : Nat} (distinct : songs.Nodup) (gone : erased first count row = none) {song : Id}
    (found : songs[row]? = some song) : song ∉ eraseRange songs first count := by
  rw [erased] at gone
  split_ifs at gone with before within
  have apart := List.disjoint_of_nodup_append ((eraseRange_append_perm songs first count).nodup_iff.mpr distinct)
  have taken : (erasedRange songs first count)[row - first]? = some song := by
    rw [erasedRange, List.getElem?_take_of_lt (by omega), List.getElem?_drop, Nat.add_sub_cancel' (by omega), found]
  exact apart (List.mem_of_getElem? taken)

/-- What the view shows of the songs that remain are the rows that remain. -/
theorem shown_remaining [DecidableEq Id] (distinct : songs.Nodup) (inside : first + count ≤ songs.length)
    (within : ∀ row ∈ rows, row < songs.length) :
    (rows.map (songs[·]?)).filter (fun song => song.any (· ∈ eraseRange songs first count)) =
      (remaining first count rows).map ((eraseRange songs first count)[·]?) := by
  induction rows with
  | nil => rfl
  | cons row rest ih =>
    obtain ⟨here, others⟩ := List.forall_mem_cons.mp within
    have found := List.getElem?_eq_getElem here
    rw [List.map_cons, List.filter_cons, ih others, found]
    cases place : erased first count row with
    | none =>
      have gone := not_mem_erased distinct place found
      have split : remaining first count (row :: rest) = remaining first count rest := List.filterMap_cons_none place
      simp [gone, split]
    | some after =>
      have moved := (getElem?_eraseRange songs inside place).trans found
      have kept := List.mem_of_getElem? moved
      have split : remaining first count (row :: rest) = after :: remaining first count rest :=
        List.filterMap_cons_some place
      simp [kept, moved, split]

theorem rows_of_shown (distinct : songs.Nodup) {kept others : List Nat} (within : ∀ row ∈ kept, row < songs.length)
    (same : others.map (songs[·]?) = kept.map (songs[·]?)) : others = kept := by
  induction kept generalizing others with
  | nil => exact List.map_eq_nil_iff.mp same
  | cons row kept ih =>
    obtain ⟨here, later⟩ := List.forall_mem_cons.mp within
    obtain ⟨other, others, rfl, song, rest⟩ := List.map_eq_cons_iff.mp same
    rw [ih later rest, (List.getElem?_inj here distinct).mp song.symm]

/-! ## Edits -/

/-- A shuffled view of a queue without repetitions, with a current row or none. -/
structure View (songs : List Id) (s : Proxy) : Prop where
  synced : Synced s
  count : s.rowCount = songs.length
  distinct : songs.Nodup
  shuffled : useShuffle s = true
  current : -1 ≤ s.currentIndex ∧ s.currentIndex < s.rowCount

/-- An edit that the source can make: it adds songs it does not have, or takes
away rows it has. -/
def Possible (songs : List Id) : Edit Id → Prop
  | .insertion pos added => pos ≤ songs.length ∧ added ≠ [] ∧ (insertRange songs pos added).Nodup
  | .removal first count => 0 < count ∧ first + count ≤ songs.length

/-- The songs up to the current row stay where they are, and those that remain
stay in order. -/
def Stable [DecidableEq Id] (songs : List Id) (s : Proxy) (edit : Edit Id) : Prop :=
  ∀ random, ∃ s', edited songs s edit random = some s' ∧
    match edit with
    | .insertion _ _ => ∀ place : Nat, (place : Int) ≤ s.currentIndex →
        songAt (edit.songs songs) s' place = songAt songs s place
    | .removal _ _ => shown (edit.songs songs) s' =
        (shown songs s).filter fun song => song.any (· ∈ edit.songs songs)

/-- The condition on the list: the rows shown up to the current one lie in front
of the insertion; the entries that are kept, and those taken from the end for the
others, are the new numbers of the rows that remain, in their order. -/
def Steady (s : Proxy) : Edit Id → Prop
  | .insertion pos _ => ∀ (place row : Nat), (place : Int) ≤ s.currentIndex → s.shuffleList[place]? = some row → row < pos
  | .removal first count => ∀ place < s.shuffleList.length - count,
      (remaining first count s.shuffleList)[place]? = entryAfter (s.shuffleList.length - count) s.shuffleList place

/-- A song stays at its row if and only if the insertion is behind it. -/
theorem insertRange_same_iff {pos row : Nat} {added : List Id} (inside : pos ≤ songs.length) (some : added ≠ [])
    (distinct : (insertRange songs pos added).Nodup) (there : row < songs.length) :
    (insertRange songs pos added)[row]? = songs[row]? ↔ row < pos := by
  have total := (insertRange_perm songs pos added).length_eq
  rw [List.length_append] at total
  have more := List.length_pos_iff.mpr some
  have moved := getElem?_insertRange songs added inside row
  rw [← moved]
  constructor
  · intro same
    have place := (List.getElem?_inj (show inserted pos added.length row < _ by
      rw [inserted]
      split_ifs <;> omega) distinct).mp same.symm
    rw [inserted] at place
    split_ifs at place with before
    · exact before
    · omega
  · intro before
    rw [inserted, if_pos before]

theorem insertion_stable_iff [DecidableEq Id] {pos : Nat} {added : List Id} (view : View songs s)
    (possible : Possible songs (.insertion pos added)) :
    Stable songs s (.insertion pos added) ↔ Steady s (Edit.insertion pos added) := by
  obtain ⟨inside, some, distinct⟩ := possible
  have total := (insertRange_perm songs pos added).length_eq
  have listed : s.shuffleList.length = s.rowCount := view.synced.rows.length_eq.trans List.length_range
  have more := List.length_pos_iff.mpr some
  have count := view.count
  rw [List.length_append] at total
  have grown (random : Shuffle) := sync_grown random listed view.current
    (show s.rowCount < (insertRange songs pos added).length by omega)
  have same_iff {s' : Proxy} (shuffled : useShuffle s' = useShuffle s) {place row : Nat}
      (kept : s'.shuffleList[place]? = s.shuffleList[place]?) (found : s.shuffleList[place]? = .some row) :
      songAt (insertRange songs pos added) s' place = songAt songs s place ↔ row < pos := by
    have there := List.mem_range.mp (view.synced.rows.mem_iff.mp (List.mem_of_getElem? found))
    rw [songAt_eq (shuffled.trans view.shuffled), songAt_eq view.shuffled, kept, found]
    exact insertRange_same_iff inside some distinct (count ▸ there)
  constructor
  · intro stable place row shown found
    obtain ⟨s', ran, same⟩ := stable ⟨id, fun _ => .refl _⟩
    obtain ⟨other, also, shuffled, kept⟩ := grown ⟨id, fun _ => .refl _⟩
    cases ran.symm.trans also
    exact (same_iff shuffled (kept place shown) found).mp (same place shown)
  · intro steady random
    obtain ⟨s', ran, shuffled, kept⟩ := grown random
    refine ⟨s', ran, fun place shown => ?_⟩
    have current := view.current
    have found := List.getElem?_eq_getElem (show place < s.shuffleList.length by omega)
    exact (same_iff shuffled (kept place shown) found).mpr (steady place _ shown found)

theorem removal_stable_iff [DecidableEq Id] (view : View songs s) (possible : Possible songs (.removal first count)) :
    Stable songs s (.removal first count) ↔ Steady s (.removal first count : Edit Id) := by
  obtain ⟨some, inside⟩ := possible
  have listed : s.shuffleList.length = s.rowCount := view.synced.rows.length_eq.trans List.length_range
  have whole := view.count
  have same : s.shuffleList.Perm (List.range s.shuffleList.length) := listed ▸ view.synced.rows
  have total : (eraseRange songs first count).length = s.shuffleList.length - count := by
    rw [eraseRange, List.length_append, List.length_take, List.length_drop]
    omega
  have distinct : (eraseRange songs first count).Nodup :=
    ((eraseRange_append_perm songs first count).nodup_iff.mpr view.distinct).of_append_right
  have remain := remaining_perm same (show first + count ≤ s.shuffleList.length by omega)
  have before : (shown songs s).filter (fun song => song.any (· ∈ eraseRange songs first count)) =
      (remaining first count s.shuffleList).map ((eraseRange songs first count)[·]?) := by
    rw [shown_eq view.shuffled listed]
    refine shown_remaining view.distinct inside fun row member => ?_
    rw [← whole]
    exact List.mem_range.mp (view.synced.rows.mem_iff.mp member)
  have shrunk (random : Shuffle) : ∃ s', edited songs s (.removal first count) random = .some s' ∧
      shown (eraseRange songs first count) s' =
        ((shrinkLoop (s.shuffleList.length - count) s.shuffleList).take (s.shuffleList.length - count)).map
          ((eraseRange songs first count)[·]?) := by
    obtain ⟨s', ran, shuffled, rowCount, after⟩ := sync_shrunk random same
      (show (eraseRange songs first count).length < s.shuffleList.length by omega)
    refine ⟨s', ran, ?_⟩
    rw [shown_eq (shuffled.trans view.shuffled) (by
      rw [after, rowCount, List.length_take, shrinkLoop_length (by omega) same]
      omega), after, total]
  refine Iff.trans ?_ (entries_iff same (show first + count ≤ s.shuffleList.length by omega)).symm
  constructor
  · intro stable
    obtain ⟨s', ran, order⟩ := stable ⟨id, fun _ => .refl _⟩
    obtain ⟨other, also, after⟩ := shrunk ⟨id, fun _ => .refl _⟩
    cases ran.symm.trans also
    refine rows_of_shown distinct (fun row member => ?_) (after.symm.trans (order.trans before))
    rw [total]
    exact List.mem_range.mp (remain.mem_iff.mp member)
  · intro whole random
    obtain ⟨s', ran, after⟩ := shrunk random
    exact ⟨s', ran, after.trans ((congrArg _ whole).trans before.symm)⟩

/-- Three rows, of which the view shows the last one first; the second row that
it shows is the current one. -/
def lastInFront : Proxy := ⟨3, true, true, [2, 0, 1], inverseMap [2, 0, 1], 1⟩

theorem lastInFront_view : Reached lastInFront ∧ View [10, 20, 30] lastInFront := by
  have grown : Accepts Proxy.initial (.sourceRows 3 swapThird) :=
    ⟨fun _ => ⟨by decide, by decide⟩, fun shrinks => absurd shrinks (by decide)⟩
  refine ⟨.next (a := .evaluateCurrent 0) (.next (.start rfl) grown rfl) trivial rfl, ?_⟩
  exact ⟨⟨by decide, fun row place => inverseMap_iff (by decide) row place⟩, rfl, by decide, rfl, by decide, by decide⟩

end Qcm.ShuffleEditProofs
