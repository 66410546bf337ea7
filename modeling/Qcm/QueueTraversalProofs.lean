import Qcm.QueueTraversal
import Qcm.ShuffleProxyProofs

/-!
A round of `next()` goes through every source row and ends where it began, and
`prev()` undoes it, exactly where the view's current index is the place of the
current row.  Every step that changes the row makes it so.  Switching the
shuffle on does not: the rows are shuffled after the index was evaluated.
-/

namespace Qcm.QueueTraversalProofs

open ShuffleProxy ShuffleProxyProofs QueueTraversal

section Maps

variable {s : Proxy}

theorem mapToSource_valid (synced : Synced s) {place : Int} (lower : 0 ≤ place)
    (upper : place < s.rowCount) : 0 ≤ mapToSource s place ∧ mapToSource s place < s.rowCount := by
  obtain ⟨place, rfl⟩ := Int.eq_ofNat_of_zero_le lower
  have total := synced.rows.length_eq
  rw [List.length_range] at total
  have inside : place < s.shuffleList.length := by omega
  rw [mapToSource, if_neg (by omega)]
  split
  · have member := synced.rows.mem_iff.mp (List.getElem_mem inside)
    have below := List.mem_range.mp member
    simp [inside]
    omega
  · exact ⟨lower, upper⟩

theorem mapFromSource_valid (synced : Synced s) {row : Int} (lower : 0 ≤ row) (upper : row < s.rowCount) :
    0 ≤ mapFromSource s row ∧ mapFromSource s row < s.rowCount := by
  obtain ⟨row, rfl⟩ := Int.eq_ofNat_of_zero_le lower
  have total := synced.rows.length_eq
  rw [List.length_range] at total
  unfold mapFromSource
  split
  · obtain ⟨place, found⟩ := List.mem_iff_getElem?.mp
      (synced.rows.mem_iff.mpr (List.mem_range.mpr (Int.ofNat_lt.mp upper)))
    have bound := (List.getElem?_eq_some_iff.mp found).1
    have back := (synced.inverse row place).mpr found
    rw [if_neg (by omega)]
    simp [back]
    omega
  · exact ⟨lower, upper⟩

end Maps

/-- The queue has rows, the view maps them one to one, and the current row is one of them. -/
structure Playing (q : PlayQueue) : Prop where
  synced : Synced q.proxy
  rows : 0 < q.proxy.rowCount
  lower : 0 ≤ q.source
  upper : q.source < q.proxy.rowCount

/-- The modes of a round: a list loop, or a shuffle loop that is not random. -/
def Rounds (q : PlayQueue) : Prop :=
  stepMode q.loopMode = .listLoop ∨ stepMode q.loopMode = .shuffleLoop ∧ q.randomMode = false

/-- The view's current index is the place of the current row. -/
def Steady (q : PlayQueue) : Prop := q.proxy.currentIndex = mapFromSource q.proxy q.source

/-- The queue after some calls of `next()`. -/
def nexts (picks : Nat → Int) (q : PlayQueue) : Nat → PlayQueue
  | 0 => q
  | i + 1 => next (nexts picks q i) (picks i)

/-- As many calls of `next()` as there are rows visit every source row once and
return to the start, and each of `next()` and `prev()` undoes the other. -/
structure Traverses (q : PlayQueue) : Prop where
  visits : ∀ picks, ((List.range q.proxy.rowCount).map fun i => (nexts picks q (i + 1)).source).Perm
    ((List.range q.proxy.rowCount).map Int.ofNat)
  returns : ∀ picks, (nexts picks q q.proxy.rowCount).source = q.source
  backAfterNext : ∀ pick, (prev (next q pick)).source = q.source
  nextAfterBack : ∀ pick, (next (prev q) pick).source = q.source

section Moves

variable {q : PlayQueue}

/-- The queue at a place of its view. -/
def standing (q : PlayQueue) (place : Int) : PlayQueue :=
  { q with source := mapToSource q.proxy place, proxy := { q.proxy with currentIndex := place } }

variable {place : Int}

@[simp] theorem standing_source (place : Int) : (standing q place).source = mapToSource q.proxy place := rfl

@[simp] theorem standing_standing (first second : Int) :
    standing (standing q first) second = standing q second := rfl

theorem Playing.moved (playing : Playing q) {place : Int} (lower : 0 ≤ place)
    (upper : place < q.proxy.rowCount) : Playing (standing q place) := by
  obtain ⟨above, below⟩ := mapToSource_valid playing.synced lower upper
  exact ⟨⟨playing.synced.rows, playing.synced.inverse⟩, playing.rows, above, below⟩

theorem steady_standing (playing : Playing q) (lower : 0 ≤ place) (upper : place < q.proxy.rowCount) :
    Steady (standing q place) :=
  (synced_inverse playing.synced place lower upper).1.symm

/-- A queue whose view is in step stands at the place of its current row. -/
theorem Steady.eq_standing (playing : Playing q) (steady : Steady q) :
    q = standing q (mapFromSource q.proxy q.source) := by
  have row := (synced_inverse playing.synced q.source playing.lower playing.upper).2
  unfold standing
  rw [row, ← steady]

/-- A move to another row, and any move of a queue that is in step, ends where it
was to go. -/
private theorem setCurrentIndex_standing (playing : Playing q) (lower : 0 ≤ place)
    (upper : place < q.proxy.rowCount) (moves : mapToSource q.proxy place ≠ q.source ∨ Steady q) :
    setCurrentIndex q place = standing q place := by
  have back := (synced_inverse playing.synced place lower upper).1
  unfold setCurrentIndex setSource
  split
  · rename_i same
    have steady : Steady q := moves.resolve_left fun apart => apart same
    have here : mapFromSource q.proxy q.source = place := by rw [← same, back]
    rw [← here]
    exact steady.eq_standing playing
  · unfold standing evaluateCurrent
    rw [back]

private theorem setCurrentIndex_same (same : mapToSource q.proxy place = q.source) :
    setCurrentIndex q place = q := if_pos same

private theorem next_eq (playing : Playing q) (rounds : Rounds q) (pick : Int) :
    next q pick = setCurrentIndex q ((q.proxy.currentIndex + 1).tmod q.proxy.rowCount) := by
  have nonempty : q.proxy.rowCount ≠ 0 := Nat.pos_iff_ne_zero.mp playing.rows
  unfold next nextIn
  rcases rounds with mode | ⟨mode, calm⟩
  · simp [mode, nonempty]
  · simp [mode, calm, nonempty]

private theorem prev_eq (playing : Playing q) (rounds : Rounds q) :
    prev q = setCurrentIndex q
      (if q.proxy.currentIndex ≤ 0 then (q.proxy.rowCount : Int) - 1 else q.proxy.currentIndex - 1) := by
  have nonempty : q.proxy.rowCount ≠ 0 := Nat.pos_iff_ne_zero.mp playing.rows
  have top : max (q.proxy.rowCount : Int) 1 = q.proxy.rowCount := by omega
  unfold prev prevIn
  rcases rounds with mode | ⟨mode, _⟩ <;> simp [mode, nonempty, top]

private theorem wrap_bounds {count : Nat} (rows : 0 < count) (place : Int) :
    0 ≤ place % count ∧ place % count < count :=
  ⟨Int.emod_nonneg _ (by omega), Int.emod_lt_of_pos _ (by omega)⟩

section

variable (playing : Playing q) (rounds : Rounds q) (lower : 0 ≤ place) (upper : place < q.proxy.rowCount)
include playing rounds lower upper

private theorem next_standing (pick : Int) :
    next (standing q place) pick = standing q ((place + 1) % q.proxy.rowCount) := by
  obtain ⟨above, below⟩ := wrap_bounds playing.rows (place + 1)
  rw [next_eq (playing.moved lower upper) rounds]
  have wrapped : (place + 1).tmod q.proxy.rowCount = (place + 1) % q.proxy.rowCount :=
    Int.tmod_eq_emod_of_nonneg (by omega)
  change setCurrentIndex (standing q place) ((place + 1).tmod q.proxy.rowCount) = _
  rw [wrapped]
  exact setCurrentIndex_standing (playing.moved lower upper) above below
    (.inr (steady_standing playing lower upper))

private theorem prev_standing :
    prev (standing q place) = standing q (if place ≤ 0 then (q.proxy.rowCount : Int) - 1 else place - 1) := by
  rw [prev_eq (playing.moved lower upper) rounds]
  change setCurrentIndex (standing q place)
    (if place ≤ 0 then (q.proxy.rowCount : Int) - 1 else place - 1) = _
  refine setCurrentIndex_standing (playing.moved lower upper) ?_ ?_
    (.inr (steady_standing playing lower upper))
  · split <;> omega
  · change _ < (q.proxy.rowCount : Int)
    split <;> omega

private theorem nexts_standing (picks : Nat → Int) (i : Nat) :
    nexts picks (standing q place) i = standing q ((place + i) % q.proxy.rowCount) := by
  induction i with
  | zero => simp [nexts, Int.emod_eq_of_lt lower upper]
  | succ i ih =>
    obtain ⟨above, below⟩ := wrap_bounds playing.rows (place + i)
    rw [nexts, ih, next_standing playing rounds above below]
    congr 1
    rw [Int.emod_add_emod, Int.natCast_succ, add_assoc]

end

private theorem round_perm (playing : Playing q) (place : Int) :
    ((List.range q.proxy.rowCount).map fun (i : Nat) =>
      mapToSource q.proxy ((place + (i + 1 : Nat)) % q.proxy.rowCount)).Perm
      ((List.range q.proxy.rowCount).map Int.ofNat) := by
  have bounds (i : Nat) := wrap_bounds playing.rows (place + (i + 1 : Nat))
  have distinct : ((List.range q.proxy.rowCount).map fun (i : Nat) =>
      mapToSource q.proxy ((place + (i + 1 : Nat)) % q.proxy.rowCount)).Nodup := by
    refine List.Nodup.map_on (fun i first j second same => ?_) List.nodup_range
    have places := congrArg (mapFromSource q.proxy) same
    rw [(synced_inverse playing.synced _ (bounds i).1 (bounds i).2).1,
      (synced_inverse playing.synced _ (bounds j).1 (bounds j).2).1] at places
    have even := Int.ModEq.add_left_cancel' place places
    have left := List.mem_range.mp first
    have right := List.mem_range.mp second
    have even : (i : Int) % q.proxy.rowCount = j % q.proxy.rowCount :=
      Int.ModEq.add_right_cancel' 1 (by simpa using even)
    rw [Int.emod_eq_of_lt (by omega) (by omega), Int.emod_eq_of_lt (by omega) (by omega)] at even
    omega
  refine (List.subperm_of_subset distinct fun row member => ?_).perm_of_length_le (by simp)
  obtain ⟨i, _, rfl⟩ := List.mem_map.mp member
  obtain ⟨above, below⟩ := mapToSource_valid playing.synced (bounds i).1 (bounds i).2
  exact List.mem_map.mpr ⟨(mapToSource q.proxy ((place + (i + 1 : Nat)) % q.proxy.rowCount)).toNat,
    List.mem_range.mpr (by omega), Int.toNat_of_nonneg above⟩

/-- One round from a queue that is in step. -/
private theorem Steady.traverses (playing : Playing q) (rounds : Rounds q) (steady : Steady q) :
    Traverses q := by
  have here := steady.eq_standing playing
  obtain ⟨lower, upper⟩ := mapFromSource_valid playing.synced playing.lower playing.upper
  set place := mapFromSource q.proxy q.source with known
  have row : mapToSource q.proxy place = q.source :=
    (synced_inverse playing.synced q.source playing.lower playing.upper).2
  have gone (picks : Nat → Int) (i : Nat) : nexts picks q i =
      standing q ((place + i) % q.proxy.rowCount) := by
    conv_lhs => rw [here]
    exact nexts_standing playing rounds lower upper picks i
  constructor
  · intro picks
    simp only [gone, standing_source]
    exact round_perm playing place
  · intro picks
    rw [gone, standing_source, Int.add_emod_right, Int.emod_eq_of_lt lower upper, row]
  · intro pick
    obtain ⟨above, below⟩ := wrap_bounds playing.rows (place + 1)
    have onward : next q pick = standing q ((place + 1) % q.proxy.rowCount) := by
      conv_lhs => rw [here]
      exact next_standing playing rounds lower upper pick
    rw [onward, prev_standing playing rounds above below, standing_source, ← row]
    congr 1
    by_cases last : place + 1 = q.proxy.rowCount
    · rw [last, Int.emod_self]
      simp
      omega
    · rw [Int.emod_eq_of_lt (by omega) (by omega), if_neg (by omega)]
      omega
  · intro pick
    have backward : prev q = standing q (if place ≤ 0 then (q.proxy.rowCount : Int) - 1 else place - 1) := by
      conv_lhs => rw [here]
      exact prev_standing playing rounds lower upper
    rw [backward]
    split
    · rename_i first
      rw [next_standing playing rounds (by omega) (by omega), standing_source, ← row, Int.sub_add_cancel,
        Int.emod_self, show place = 0 by omega]
    · rw [next_standing playing rounds (by omega) (by omega), standing_source, ← row, Int.sub_add_cancel,
        Int.emod_eq_of_lt lower upper]

private theorem nexts_first (picks : Nat → Int) (q : PlayQueue) (i : Nat) :
    nexts picks q (i + 1) = nexts (fun j => picks (j + 1)) (next q (picks 0)) i := by
  induction i with
  | zero => rfl
  | succ i ih =>
    rw [nexts, ih]
    rfl

/-- A round from a place of the view that is not the one of the current row does
not end there, or never leaves it. -/
private theorem Traverses.steady (playing : Playing q) (rounds : Rounds q)
    (lower : 0 ≤ q.proxy.currentIndex) (upper : q.proxy.currentIndex < q.proxy.rowCount)
    (traverses : Traverses q) : Steady q := by
  by_contra apart
  obtain ⟨above, below⟩ := wrap_bounds playing.rows (q.proxy.currentIndex + 1)
  obtain ⟨first, last⟩ := mapFromSource_valid playing.synced playing.lower playing.upper
  have many : 1 < q.proxy.rowCount := by
    unfold Steady at apart
    omega
  have wrapped : (q.proxy.currentIndex + 1).tmod q.proxy.rowCount =
      (q.proxy.currentIndex + 1) % q.proxy.rowCount := Int.tmod_eq_emod_of_nonneg (by omega)
  have step (pick : Int) : next q pick = setCurrentIndex q ((q.proxy.currentIndex + 1) % q.proxy.rowCount) := by
    rw [next_eq playing rounds, wrapped]
  by_cases same : mapToSource q.proxy ((q.proxy.currentIndex + 1) % q.proxy.rowCount) = q.source
  · -- The first step writes the row that is current, and so does every later one.
    have stuck (i : Nat) : nexts (fun _ => 0) q i = q := by
      induction i with
      | zero => rfl
      | succ i ih => rw [nexts, ih, step, setCurrentIndex_same same]
    have distinct := (traverses.visits fun _ => 0).nodup_iff.mpr
      (List.Nodup.map (fun _ _ => Int.ofNat.inj) List.nodup_range)
    have again := List.inj_on_of_nodup_map distinct (List.mem_range.mpr playing.rows)
      (List.mem_range.mpr many) (by rw [stuck, stuck])
    omega
  · -- The first step puts the view in step, one round behind its stale place.
    obtain ⟨rest, whole⟩ := Nat.exists_eq_succ_of_ne_zero (Nat.pos_iff_ne_zero.mp playing.rows)
    have back := traverses.returns fun _ => 0
    have around : (((q.proxy.currentIndex + 1) % q.proxy.rowCount + rest) % q.proxy.rowCount : Int) =
        q.proxy.currentIndex := by
      rw [Int.emod_add_emod, show q.proxy.currentIndex + 1 + rest = q.proxy.currentIndex + q.proxy.rowCount by omega,
        Int.add_emod_right, Int.emod_eq_of_lt lower upper]
    rw [whole, nexts_first, step, setCurrentIndex_standing playing above below (.inl same),
      nexts_standing playing rounds above below, around, standing_source] at back
    apply apart
    rw [Steady, ← back, (synced_inverse playing.synced _ lower upper).1]

end Moves

/-- A queue in step with its view is traversed by `next()` and `prev()`, whatever
the permutation and the current row; one whose view stands at another row is not. -/
theorem traverses_iff_steady {q : PlayQueue} (playing : Playing q) (rounds : Rounds q) :
    (Steady q → Traverses q) ∧
    (0 ≤ q.proxy.currentIndex → q.proxy.currentIndex < q.proxy.rowCount → Traverses q → Steady q) :=
  ⟨fun steady => steady.traverses playing rounds,
    fun lower upper traverses => traverses.steady playing rounds lower upper⟩

/-- Three rows in their order, the second of them current. -/
def threeRows : PlayQueue :=
  ⟨⟨3, true, false, [0, 1, 2], inverseMap [0, 1, 2], 1⟩, 1, .listLoop, false, false, false⟩

theorem threeRows_traversed : Traverses threeRows := by
  refine (traverses_iff_steady ⟨⟨.refl _, inverseMap_iff (by decide)⟩, ?_, ?_, ?_⟩ (.inl rfl)).1 rfl
  all_goals decide

/-- The shuffle loop is chosen while the second row is current: the rows are
shuffled to 0, 2, 1, but the view still stands at its second place, and `next()`
stays on the row for ever. -/
theorem shuffled_round_is_stuck :
    ∃ q, setLoopMode threeRows .shuffleLoop swapThird = some q ∧ Playing q ∧ Rounds q ∧ ¬Traverses q := by
  have playing : Playing
      ⟨⟨3, true, true, [0, 2, 1], inverseMap [0, 2, 1], 1⟩, 1, .shuffleLoop, false, false, false⟩ := by
    refine ⟨⟨by decide, inverseMap_iff (by decide)⟩, ?_, ?_, ?_⟩
    all_goals decide
  refine ⟨_, rfl, playing, .inr ⟨rfl, rfl⟩, fun traverses => ?_⟩
  have visits := (traverses.visits fun _ => 0).mem_iff (a := 0)
  revert visits
  decide

end Qcm.QueueTraversalProofs
