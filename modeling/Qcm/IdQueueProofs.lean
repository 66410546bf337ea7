import Qcm.IdQueue
import Qcm.Lib.Runs

/-!
What the calls of `IdQueue` keep.

`RepInv` is the representation invariant: the ids of `m_queue` are distinct and
`m_set` holds exactly their hashes.  `apply_keeps_iff` says which calls keep it,
and `representation_of_accepted_runs` carries it along every run of such calls.

The current item is followed as an element of the vector, not by its value:
`track` says where a call takes the element at an index, `track_follows` that
this is what the call does to `m_queue`, and `keeps_current_iff` when
`m_current_index` goes along.
-/

namespace Qcm.IdQueueProofs

open IdQueue Lib.Splice Lib.Runs

variable {Id Extra H : Type}
variable {p : Platform Id H} {q q' : Queue Id Extra H}

/-- The documented behaviour relied on: hashes do not collide, and
`beginMoveRows` refuses a destination inside the moved range or right behind it. -/
structure Documented (p : Platform Id H) : Prop where
  injective : Function.Injective p.hash
  refuses : ∀ first last destination, first ≤ destination → destination ≤ last + 1 →
    p.beginMoveRows first last destination = false

/-- A platform with the documented behaviour: numbers for ids, each its own
hash, and Qt's own test of a move within one parent. -/
def plainPlatform : Platform Nat Nat where
  hash := id
  beginMoveRows first last destination := !decide (first ≤ destination ∧ destination ≤ last + 1)

variable {sourceParent destinationParent : Bool} {sourceRow count destinationChild first : Int}
  {result : Bool × Queue Id Extra H}

theorem plain_documented : Documented plainPlatform :=
  ⟨Function.injective_id, by simp +contextual [plainPlatform]⟩

/-- The sums a move forms stay inside `int`. -/
def AcceptsMove (sourceRow count : Int) : Prop :=
  sourceRow < 0 ∨ (inInt (sourceRow + count) = true ∧ inInt (sourceRow + count - 1) = true)

/-- Whether a move is refused, by its own checks or by the model. -/
def MoveRefused (p : Platform Id H) (q : Queue Id Extra H) (sourceParent : Bool)
    (sourceRow count : Int) (destinationParent : Bool) (destinationChild : Int) : Prop :=
  sourceRow < 0 ∨
    refusesMove q sourceParent sourceRow count destinationParent destinationChild = true ∨
    p.beginMoveRows sourceRow (sourceRow + count - 1) destinationChild = false

instance {sourceParent destinationParent : Bool} {sourceRow count destinationChild : Int} :
    Decidable (MoveRefused p q sourceParent sourceRow count destinationParent destinationChild) :=
  inferInstanceAs (Decidable (_ ∨ _ ∨ _))

/-- A move that is not refused has its rows and its destination inside the
queue, and the destination outside the moved range. -/
private theorem move_shape (doc : Documented p)
    (goes : ¬ MoveRefused p q sourceParent sourceRow count destinationParent destinationChild) :
    0 ≤ sourceRow ∧ 0 < count ∧ sourceRow + count ≤ q.rowCount ∧ 0 ≤ destinationChild ∧
      destinationChild ≤ q.rowCount ∧
      (destinationChild < sourceRow ∨ sourceRow + count < destinationChild) := by
  simp only [MoveRefused, refusesMove, Bool.or_eq_true, decide_eq_true_eq, not_or] at goes
  obtain ⟨positive, ⟨⟨⟨⟨⟨⟨rows, target⟩, bound⟩, _⟩, some_rows⟩, _⟩, _⟩, allowed⟩ := goes
  refine ⟨by omega, by omega, by omega, by omega, by omega, ?_⟩
  by_contra inside
  exact allowed (doc.refuses _ _ _ (by omega) (by omega))

/-- The rows after a move that goes through: the moved rows are carried up or
down to the destination. -/
def movedRows (q : Queue Id Extra H) (sourceRow count destinationChild : Int) :
    List (Item Id Extra) :=
  if destinationChild.toNat < sourceRow.toNat then
    rotateRange q.queue destinationChild.toNat sourceRow.toNat (sourceRow.toNat + count.toNat)
  else rotateRange q.queue sourceRow.toNat (sourceRow.toNat + count.toNat) destinationChild.toNat

private theorem moveRows_refused (fits : AcceptsMove sourceRow count)
    (refused : MoveRefused p q sourceParent sourceRow count destinationParent destinationChild) :
    moveRows p q sourceParent sourceRow count destinationParent destinationChild =
      some (false, q) := by
  unfold moveRows
  rcases fits with negative | ⟨sum, pred⟩
  · simp [negative]
  · rcases refused with negative | refused | refused <;> simp [*]

private theorem moveRows_goes (doc : Documented p) (fits : AcceptsMove sourceRow count)
    (goes : ¬ MoveRefused p q sourceParent sourceRow count destinationParent destinationChild) :
    moveRows p q sourceParent sourceRow count destinationParent destinationChild =
      some (true, { q with queue := movedRows q sourceRow count destinationChild }) := by
  obtain ⟨positive, some_rows, rows, target, bound, apart⟩ := move_shape doc goes
  obtain ⟨sum, pred⟩ := fits.resolve_left (by omega)
  simp only [MoveRefused, not_or, Bool.not_eq_true, Bool.not_eq_false] at goes
  unfold moveRows movedRows
  simp only [goes.1, sum, pred, goes.2.1, goes.2.2, if_false, Bool.and_self, Bool.not_true,
    Bool.false_eq_true]
  split
  · rfl
  · rw [if_neg (by omega)]

private theorem moveRows_overflows (overflow : ¬ AcceptsMove sourceRow count) :
    moveRows p q sourceParent sourceRow count destinationParent destinationChild = none := by
  simp only [AcceptsMove, not_or] at overflow
  unfold moveRows
  rw [if_neg overflow.1, if_pos]
  simpa [not_and_or, imp_iff_not_or] using overflow.2

/-! ## The representation invariant -/

variable [DecidableEq H]

/-- The ids of the rows are distinct and the set holds exactly their hashes. -/
structure RepInv (p : Platform Id H) (q : Queue Id Extra H) : Prop where
  distinct : (q.queue.map Item.id).Nodup
  hashes : q.set = (q.queue.map fun el => p.hash el.id).toFinset

theorem contains_iff (inv : RepInv p q) (injective : Function.Injective p.hash) (id : Id) :
    contains p q id = true ↔ id ∈ q.queue.map Item.id := by
  simp only [contains, decide_eq_true_eq, inv.hashes, List.mem_toFinset, List.mem_map]
  exact exists_congr fun el => and_congr_right fun _ => injective.eq_iff

private theorem hashes_of_perm {xs ys : List (Item Id Extra)} (same : xs.Perm ys) :
    (xs.map fun el => p.hash el.id).toFinset = (ys.map fun el => p.hash el.id).toFinset :=
  List.toFinset_eq_of_perm _ _ (same.map _)

theorem empty_rep : RepInv p (Queue.empty : Queue Id Extra H) :=
  ⟨by simp [Queue.empty], by simp [Queue.empty]⟩

private theorem rep_of_perm (inv : RepInv p q) {rows : List (Item Id Extra)}
    (same : rows.Perm q.queue) : RepInv p { q with queue := rows } :=
  ⟨(same.map Item.id).nodup_iff.mpr inv.distinct, inv.hashes.trans (hashes_of_perm same).symm⟩

/-- An insertion keeps the invariant exactly when the items it keeps have
distinct ids: they are already distinct from the rows. -/
private theorem insert_rep_iff (inv : RepInv p q) (injective : Function.Injective p.hash)
    (pos : Nat) (items : List (Item Id Extra)) :
    RepInv p { q with
      queue := insertRange q.queue pos (fresh p q items)
      set := q.set ∪ ((fresh p q items).map fun el => p.hash el.id).toFinset } ↔
    ((fresh p q items).map Item.id).Nodup := by
  have same := insertRange_perm q.queue pos (fresh p q items)
  have apart : List.Disjoint ((fresh p q items).map Item.id) (q.queue.map Item.id) := by
    intro id added held
    obtain ⟨el, member, rfl⟩ := List.mem_map.mp added
    have absent := (List.mem_filter.mp member).2
    rw [(contains_iff inv injective el.id).mpr held] at absent
    contradiction
  constructor
  · intro kept
    have whole := (same.map Item.id).nodup_iff.mp kept.distinct
    rw [List.map_append] at whole
    exact (List.nodup_append.mp whole).1
  · intro distinct
    refine ⟨?_, ?_⟩
    · rw [(same.map Item.id).nodup_iff, List.map_append]
      exact List.Nodup.append distinct inv.distinct apart
    · simp only [inv.hashes, hashes_of_perm same, List.map_append, List.toFinset_append]
      exact Finset.union_comm _ _

private theorem foldl_erase_hashes (erased : List (Item Id Extra)) (set : Finset H) (value : H) :
    value ∈ erased.foldl (fun set el => set.erase (p.hash el.id)) set ↔
      value ∈ set ∧ value ∉ erased.map fun el => p.hash el.id := by
  induction erased generalizing set with
  | nil => simp
  | cons el rest ih =>
    simp only [List.foldl_cons, ih, Finset.mem_erase, List.map_cons, List.mem_cons, not_or]
    tauto

private theorem erase_rep (inv : RepInv p q) (injective : Function.Injective p.hash)
    (first count : Nat) (current : Int) :
    RepInv p ⟨eraseRange q.queue first count,
      (erasedRange q.queue first count).foldl (fun set el => set.erase (p.hash el.id)) q.set,
      current⟩ := by
  have parts := eraseRange_append_perm q.queue first count
  have distinct := (parts.map Item.id).nodup_iff.mpr inv.distinct
  rw [List.map_append, List.nodup_append] at distinct
  refine ⟨distinct.2.1, ?_⟩
  ext value
  have held : value ∈ q.set ↔ value ∈ (erasedRange q.queue first count).map (fun el => p.hash el.id) ∨
      value ∈ (eraseRange q.queue first count).map (fun el => p.hash el.id) := by
    rw [inv.hashes, ← hashes_of_perm parts, List.mem_toFinset, List.map_append, List.mem_append]
  have apart : value ∈ (eraseRange q.queue first count).map (fun el => p.hash el.id) →
      value ∉ (erasedRange q.queue first count).map (fun el => p.hash el.id) := by
    intro kept gone
    obtain ⟨el, member, rfl⟩ := List.mem_map.mp kept
    obtain ⟨other, removed, same⟩ := List.mem_map.mp gone
    exact distinct.2.2 _ (List.mem_map_of_mem removed) _ (List.mem_map_of_mem member)
      (injective same)
  rw [foldl_erase_hashes, held, List.mem_toFinset]
  tauto

/-- An insertion keeps the ids distinct when it brings no id twice that is not
yet in the queue. -/
def AcceptsInsert (p : Platform Id H) (q : Queue Id Extra H) (pos : Int)
    (items : List (Item Id Extra)) : Prop :=
  q.rowCount < pos ∨ fresh p q items = [] ∨
    (0 ≤ pos ∧ ((fresh p q items).map Item.id).Nodup)

/-- A removal is defined when it ends inside the rows. -/
def AcceptsRemoval (q : Queue Id Extra H) (first count : Int) : Prop :=
  count ≤ 0 ∨ (0 ≤ first ∧ first + count ≤ q.rowCount)

/-- The calls that keep the invariant. -/
def Accepts (p : Platform Id H) (q : Queue Id Extra H) : Op Id Extra → Prop
  | .insertIds pos ids => AcceptsInsert p q pos (ids.map fun id => ⟨id, none⟩)
  | .insertItems pos items => AcceptsInsert p q pos items
  | .remove _ => True
  | .removeRows first count => AcceptsRemoval q first count
  | .moveRows _ sourceRow count _ _ => AcceptsMove sourceRow count
  | .move src _ count => AcceptsMove src count

theorem insert_keeps_iff (doc : Documented p) (inv : RepInv p q) (pos : Int)
    (items : List (Item Id Extra)) :
    (∃ q', (insertItems p q pos items).map Prod.snd = some q' ∧ RepInv p q') ↔
      AcceptsInsert p q pos items := by
  unfold insertItems AcceptsInsert
  by_cases beyond : q.rowCount < pos
  · simp [beyond, inv]
  by_cases none_fresh : fresh p q items = []
  · simp [beyond, none_fresh, inv]
  by_cases negative : pos < 0
  · have : ¬ 0 ≤ pos := by omega
    simp [beyond, none_fresh, negative]
  · have position : 0 ≤ pos := by omega
    simp only [beyond, none_fresh, negative, position, if_false, Option.map_some,
      Option.some.injEq, exists_eq_left', false_or, true_and]
    exact insert_rep_iff inv doc.injective pos.toNat items

theorem removeRows_defined_iff (p : Platform Id H) (q : Queue Id Extra H)
    (first count : Int) :
    (∃ r, removeRows p q first count = some r) ↔ AcceptsRemoval q first count := by
  unfold removeRows AcceptsRemoval
  by_cases none_asked : count ≤ 0
  · simp [none_asked]
  · have positive : max count 1 - 1 + 1 = count := by omega
    by_cases outside : first < 0 ∨ q.rowCount < first + (max count 1 - 1) + 1
    · rw [if_neg none_asked]
      dsimp only
      rw [if_pos outside]
      simp only [reduceCtorEq, exists_false, false_iff]
      omega
    · rw [if_neg none_asked]
      dsimp only
      rw [if_neg outside]
      simp only [Option.some.injEq, exists_eq', true_iff]
      omega

theorem removeRows_rep (doc : Documented p) (inv : RepInv p q)
    (ran : removeRows p q first count = some result) : RepInv p result.2 := by
  unfold removeRows at ran
  split at ran
  · cases ran
    exact inv
  · dsimp only at ran
    split at ran
    · contradiction
    · cases ran
      exact erase_rep inv doc.injective _ _ _

omit [DecidableEq H] in
private theorem remove_row_bound [DecidableEq Id] {id : Id} {row : Nat}
    (found : (q.queue.findIdx? fun el => el.id = id) = some row) : row < q.queue.length := by
  obtain ⟨bound, _⟩ := List.findIdx?_eq_some_iff_getElem.mp found
  exact bound

private theorem remove_keeps [DecidableEq Id] (doc : Documented p) (inv : RepInv p q) (id : Id) :
    ∃ q', remove p q id = some q' ∧ RepInv p q' := by
  unfold remove
  split
  · exact ⟨q, rfl, inv⟩
  · rename_i row found
    have bound := remove_row_bound found
    obtain ⟨result, ran⟩ := (removeRows_defined_iff p q row 1).mpr (.inr ⟨by omega, by simp only [Queue.rowCount]; omega⟩)
    exact ⟨result.2, by simp [ran], removeRows_rep doc inv ran⟩

private theorem move_keeps_iff (doc : Documented p) (inv : RepInv p q)
    (sourceParent destinationParent : Bool) (sourceRow count destinationChild : Int) :
    (∃ q', (moveRows p q sourceParent sourceRow count destinationParent destinationChild).map
      Prod.snd = some q' ∧ RepInv p q') ↔ AcceptsMove sourceRow count := by
  constructor
  · rintro ⟨q', ran, _⟩
    by_contra overflow
    simp [moveRows_overflows overflow] at ran
  · intro fits
    by_cases refused :
        MoveRefused p q sourceParent sourceRow count destinationParent destinationChild
    · exact ⟨q, by simp [moveRows_refused fits refused], inv⟩
    · obtain ⟨positive, some_rows, rows, target, bound, apart⟩ := move_shape doc refused
      refine ⟨_, by rw [moveRows_goes doc fits refused]; rfl, rep_of_perm inv ?_⟩
      unfold movedRows
      split
      · exact rotateRange_perm q.queue (Nat.le_of_lt ‹_›) (Nat.le_add_right _ _)
      · exact rotateRange_perm q.queue (Nat.le_add_right _ _) (by omega)

section Calls

variable [DecidableEq Id]

/-- From a queue that satisfies the invariant, a call is defined and keeps it
exactly when it is accepted. -/
theorem apply_keeps_iff (doc : Documented p) (inv : RepInv p q) (op : Op Id Extra) :
    (∃ q', apply p q op = some q' ∧ RepInv p q') ↔ Accepts p q op := by
  cases op with
  | insertIds pos ids => exact insert_keeps_iff doc inv pos _
  | insertItems pos items => exact insert_keeps_iff doc inv pos items
  | remove id =>
    simp only [Accepts, iff_true]
    exact remove_keeps doc inv id
  | removeRows first count =>
    refine Iff.trans ?_ (removeRows_defined_iff p q first count)
    constructor
    · rintro ⟨q', ran, _⟩
      obtain ⟨result, ran, _⟩ := Option.map_eq_some_iff.mp ran
      exact ⟨result, ran⟩
    · rintro ⟨result, ran⟩
      exact ⟨result.2, by simp [apply, ran], removeRows_rep doc inv ran⟩
  | moveRows sourceParent sourceRow count destinationParent destinationChild =>
    exact move_keeps_iff doc inv sourceParent destinationParent sourceRow count destinationChild
  | move src dst count => exact move_keeps_iff doc inv false false src count dst

/-- The queues reached from a fresh one by accepted calls. -/
def Reached (p : Platform Id H) : Queue Id Extra H → Prop :=
  Reach (fun q => q = Queue.empty) (Accepts p) fun q op q' => apply p q op = some q'

/-- Every run of accepted calls keeps the ids distinct and the set in step with
them, and at each queue it reaches the accepted calls are exactly those that do. -/
theorem representation_of_accepted_runs (doc : Documented p) (reached : Reached p q) :
    RepInv p q ∧
      ∀ op : Op Id Extra, (∃ q', apply p q op = some q' ∧ RepInv p q') ↔ Accepts p q op := by
  have inv : RepInv p q := by
    apply reached.invariant
    · rintro _ rfl
      exact empty_rep
    · intro q op q' inv accepted ran
      obtain ⟨other, same, kept⟩ := (apply_keeps_iff doc inv op).mpr accepted
      rw [ran] at same
      cases same
      exact kept
  exact ⟨inv, apply_keeps_iff doc inv⟩

/-- A span with a repeated id is inserted as it stands, and a removal that
reaches past the last row has no defined result. -/
theorem repeated_ids_break_representation :
    (∃ q', apply plainPlatform (Queue.empty : Queue Nat Unit Nat) (.insertIds 0 [7, 7]) = some q' ∧
      ¬ RepInv plainPlatform q') ∧
    apply plainPlatform (⟨[⟨7, none⟩], {7}, -1⟩ : Queue Nat Unit Nat) (.removeRows 0 2) = none := by
  refine ⟨⟨⟨[⟨7, none⟩, ⟨7, none⟩], {7}, -1⟩, rfl, ?_⟩, by decide⟩
  intro inv
  have distinct := inv.distinct
  simp at distinct

theorem representation_of_two_calls :
    RepInv plainPlatform (⟨[⟨8, none⟩], {8}, -1⟩ : Queue Nat Unit Nat) ∧
      ∀ op : Op Nat Unit, (∃ q', apply plainPlatform ⟨[⟨8, none⟩], {8}, -1⟩ op = some q' ∧
        RepInv plainPlatform q') ↔ Accepts plainPlatform ⟨[⟨8, none⟩], {8}, -1⟩ op := by
  have inserts : apply plainPlatform (Queue.empty : Queue Nat Unit Nat) (.insertIds 0 [7, 8]) =
      some ⟨[⟨7, none⟩, ⟨8, none⟩], {7, 8}, -1⟩ := rfl
  have removes : apply plainPlatform (⟨[⟨7, none⟩, ⟨8, none⟩], {7, 8}, -1⟩ : Queue Nat Unit Nat)
      (.removeRows 0 1) = some ⟨[⟨8, none⟩], {8}, -1⟩ := rfl
  refine representation_of_accepted_runs plain_documented (.next (.next (.start rfl) ?_ inserts) ?_ removes)
  · exact .inr (.inr ⟨by decide, by decide⟩)
  · exact .inr ⟨by decide, by decide⟩

end Calls

/-! ## The current item -/

/-- Where an insertion takes the element at `i`. -/
def trackInsert (p : Platform Id H) (q : Queue Id Extra H) (pos : Int)
    (items : List (Item Id Extra)) (i : Nat) : Nat :=
  if q.rowCount < pos then i else inserted pos.toNat (fresh p q items).length i

/-- Where a move takes the element at `i`. -/
def trackMove (p : Platform Id H) (q : Queue Id Extra H) (sourceParent : Bool)
    (sourceRow count : Int) (destinationParent : Bool) (destinationChild : Int) (i : Nat) : Nat :=
  if MoveRefused p q sourceParent sourceRow count destinationParent destinationChild then i
  else if destinationChild.toNat < sourceRow.toNat then
    rotated destinationChild.toNat sourceRow.toNat (sourceRow.toNat + count.toNat) i
  else rotated sourceRow.toNat (sourceRow.toNat + count.toNat) destinationChild.toNat i

/-- Where a call takes the element at index `i` of the rows; `none` when the
call removes that very element. -/
def track [DecidableEq Id] (p : Platform Id H) (q : Queue Id Extra H) :
    Op Id Extra → Nat → Option Nat
  | .insertIds pos ids, i => some (trackInsert p q pos (ids.map fun id => ⟨id, none⟩) i)
  | .insertItems pos items, i => some (trackInsert p q pos items i)
  | .remove id, i =>
    match q.queue.findIdx? fun el => el.id = id with
    | none => some i
    | some row => erased row 1 i
  | .removeRows first count, i =>
    if count ≤ 0 then some i else erased first.toNat count.toNat i
  | .moveRows sourceParent sourceRow count destinationParent destinationChild, i =>
    some (trackMove p q sourceParent sourceRow count destinationParent destinationChild i)
  | .move src dst count, i => some (trackMove p q false src count false dst i)

private theorem insert_tracked {pos : Int} {items : List (Item Id Extra)}
    {result : Int × Queue Id Extra H} (ran : insertItems p q pos items = some result) (i : Nat) :
    result.2.queue[trackInsert p q pos items i]? = q.queue[i]? := by
  unfold insertItems at ran
  unfold trackInsert
  split at ran
  · rename_i beyond
    cases ran
    simp [beyond]
  · rename_i within
    dsimp only at ran
    split at ran
    · rename_i none_fresh
      cases ran
      simp [within, none_fresh, inserted]
    · split at ran
      · contradiction
      · cases ran
        rw [if_neg within]
        simp only [Queue.rowCount] at within
        exact getElem?_insertRange q.queue _ (by omega) i

theorem removeRows_eq (ran : removeRows p q first count = some result) (some_rows : ¬ count ≤ 0) :
    0 ≤ first ∧ first + count ≤ q.rowCount ∧
      result.2.queue = eraseRange q.queue first.toNat count.toNat ∧
      result.2.currentIndex =
        (if first + count - 1 < q.currentIndex then q.currentIndex - count
         else if first ≤ q.currentIndex then -1 else q.currentIndex) := by
  have ended : max count 1 - 1 + 1 = count := by omega
  unfold removeRows at ran
  rw [if_neg some_rows] at ran
  dsimp only at ran
  split at ran
  · contradiction
  · rename_i inside
    have clamped : min (first + (max count 1 - 1)) (max q.rowCount 1 - 1) = first + count - 1 := by
      omega
    cases ran
    refine ⟨by omega, by omega, by rw [ended], ?_⟩
    simp only [clamped, ended]
    split
    · rfl
    · split <;> split <;> first | rfl | omega

private theorem remove_tracked (ran : removeRows p q first count = some result) (some_rows : ¬ count ≤ 0)
    {i j : Nat} (kept : erased first.toNat count.toNat i = some j) : result.2.queue[j]? = q.queue[i]? := by
  obtain ⟨start, stop, rows, _⟩ := removeRows_eq ran some_rows
  rw [rows]
  exact getElem?_eraseRange q.queue (by simp only [Queue.rowCount] at stop; omega) kept

omit [DecidableEq H] in
private theorem move_tracked (doc : Documented p)
    (ran : moveRows p q sourceParent sourceRow count destinationParent destinationChild = some result)
    (i : Nat) : result.2.queue[trackMove p q sourceParent sourceRow count destinationParent
      destinationChild i]? = q.queue[i]? := by
  by_cases fits : AcceptsMove sourceRow count
  · by_cases refused :
        MoveRefused p q sourceParent sourceRow count destinationParent destinationChild
    · rw [moveRows_refused fits refused] at ran
      cases ran
      rw [trackMove, if_pos refused]
    · obtain ⟨positive, some_rows, rows, target, bound, apart⟩ := move_shape doc refused
      simp only [Queue.rowCount] at rows bound
      rw [moveRows_goes doc fits refused] at ran
      cases ran
      rw [trackMove, if_neg refused]
      simp only [movedRows]
      split
      · exact getElem?_rotateRange q.queue (by omega) (by omega) (by omega) i
      · exact getElem?_rotateRange q.queue (by omega) (by omega) (by omega) i
  · rw [moveRows_overflows fits] at ran
    contradiction

/-- The index designates a row. -/
def Designates (q : Queue Id Extra H) : Prop := 0 ≤ q.currentIndex ∧ q.currentIndex < q.rowCount

/-- Insertions that leave the current item designated: those that add nothing,
and those behind it. -/
def SparesInsert (p : Platform Id H) (q : Queue Id Extra H) (pos : Int)
    (items : List (Item Id Extra)) : Prop :=
  q.rowCount < pos ∨ fresh p q items = [] ∨ (0 ≤ pos ∧ (Designates q → q.currentIndex < pos))

/-- Moves that leave the current item designated: those that are refused, and
those that rotate a range it is not in. -/
def SparesMove (p : Platform Id H) (q : Queue Id Extra H) (sourceParent : Bool)
    (sourceRow count : Int) (destinationParent : Bool) (destinationChild : Int) : Prop :=
  AcceptsMove sourceRow count ∧
    (MoveRefused p q sourceParent sourceRow count destinationParent destinationChild ∨
      (Designates q → q.currentIndex < min sourceRow destinationChild ∨
        max (sourceRow + count) destinationChild ≤ q.currentIndex))

private theorem insert_keeps_current_iff (pos : Int) (items : List (Item Id Extra)) :
    (∃ q', (insertItems p q pos items).map Prod.snd = some q' ∧
      ∀ i : Nat, q.currentIndex = i → i < q.queue.length →
        q'.currentIndex = trackInsert p q pos items i) ↔ SparesInsert p q pos items := by
  unfold insertItems SparesInsert trackInsert
  by_cases beyond : q.rowCount < pos
  · simp +contextual [beyond]
  by_cases none_fresh : fresh p q items = []
  · simp +contextual [beyond, none_fresh, inserted]
  by_cases negative : pos < 0
  · have : ¬ 0 ≤ pos := by omega
    simp [beyond, none_fresh, negative]
  · have position : 0 ≤ pos := by omega
    have some_added : 0 < (fresh p q items).length := List.length_pos_iff.mpr none_fresh
    simp only [beyond, none_fresh, negative, position, if_false, Option.map_some,
      Option.some.injEq, exists_eq_left', false_or, true_and]
    simp only [Designates, Queue.rowCount]
    constructor
    · intro same designated
      have moved := same q.currentIndex.toNat (by omega) (by omega)
      unfold inserted at moved
      split at moved <;> omega
    · intro behind i here inside
      have before := behind ⟨by omega, by omega⟩
      rw [inserted, if_pos (by omega), here]

/-- A removal takes the index along with the element it designates. -/
private theorem removal_keeps_current (ran : removeRows p q first count = some result) {i j : Nat}
    (here : q.currentIndex = i)
    (kept : (if count ≤ 0 then some i else erased first.toNat count.toNat i) = some j) :
    result.2.currentIndex = j := by
  split at kept
  · rename_i none_asked
    cases kept
    rw [removeRows, if_pos none_asked] at ran
    cases ran
    exact here
  · rename_i some_rows
    obtain ⟨start, stop, _, current⟩ := removeRows_eq ran some_rows
    rw [current, here]
    unfold erased at kept
    split at kept
    · cases kept
      rw [if_neg (by omega), if_neg (by omega)]
    · split at kept
      · contradiction
      · cases kept
        rw [if_pos (by omega)]
        omega

omit [DecidableEq H] in
private theorem move_keeps_current_iff (doc : Documented p) (sourceParent destinationParent : Bool)
    (sourceRow count destinationChild : Int) :
    (∃ q', (moveRows p q sourceParent sourceRow count destinationParent destinationChild).map
      Prod.snd = some q' ∧ ∀ i : Nat, q.currentIndex = i → i < q.queue.length →
        q'.currentIndex =
          trackMove p q sourceParent sourceRow count destinationParent destinationChild i) ↔
      SparesMove p q sourceParent sourceRow count destinationParent destinationChild := by
  unfold SparesMove
  by_cases fits : AcceptsMove sourceRow count
  · by_cases refused :
        MoveRefused p q sourceParent sourceRow count destinationParent destinationChild
    · simp +contextual [moveRows_refused fits refused, fits, refused, trackMove]
    · obtain ⟨positive, some_rows, rows, target, bound, apart⟩ := move_shape doc refused
      simp only [moveRows_goes doc fits refused, fits, refused, trackMove, if_false,
        Option.map_some, Option.some.injEq, exists_eq_left', false_or, true_and, Designates,
        Queue.rowCount]
      -- which of the two rotations runs does not depend on the current index
      have untouched : ∀ i : Nat, (i = (if destinationChild.toNat < sourceRow.toNat then
          rotated destinationChild.toNat sourceRow.toNat (sourceRow.toNat + count.toNat) i
          else rotated sourceRow.toNat (sourceRow.toNat + count.toNat) destinationChild.toNat i)) ↔
          ((i : Int) < min sourceRow destinationChild ∨
            max (sourceRow + count) destinationChild ≤ i) := by
        intro i
        split
        · rw [eq_comm, rotated_eq_iff (by omega) (by omega)]
          omega
        · rw [eq_comm, rotated_eq_iff (by omega) (by omega)]
          omega
      constructor
      · intro same designated
        have here : q.currentIndex = (q.currentIndex.toNat : Int) := by omega
        have fixed := same q.currentIndex.toNat here (by omega)
        rw [here] at fixed ⊢
        exact (untouched _).mp (by exact_mod_cast fixed)
      · intro outside i here inside
        rw [here] at outside ⊢
        exact_mod_cast (untouched i).mpr (outside ⟨by omega, by omega⟩)
  · simp [moveRows_overflows fits, fits]

section CurrentCalls

variable [DecidableEq Id]

/-- `track` is what a call does to `m_queue`: the element at `i` is found at the
index it names. -/
theorem track_follows (doc : Documented p) {op : Op Id Extra} (ran : apply p q op = some q')
    {i j : Nat} (goes : track p q op i = some j) : q'.queue[j]? = q.queue[i]? := by
  cases op with
  | insertIds pos ids | insertItems pos items =>
    obtain ⟨result, called, rfl⟩ := Option.map_eq_some_iff.mp ran
    cases goes
    exact insert_tracked called i
  | remove id =>
    simp only [apply, remove] at ran
    simp only [track] at goes
    split at ran
    · simp_all
    · rename_i row found
      obtain ⟨result, called, rfl⟩ := Option.map_eq_some_iff.mp ran
      rw [found] at goes
      exact remove_tracked called (by omega) (by simpa using goes)
  | removeRows first count =>
    obtain ⟨result, called, rfl⟩ := Option.map_eq_some_iff.mp ran
    simp only [track] at goes
    split at goes
    · rename_i none_asked
      cases goes
      simp only [removeRows, if_pos none_asked] at called
      cases called
      rfl
    · rename_i some_rows
      exact remove_tracked called some_rows goes
  | moveRows sourceParent sourceRow count destinationParent destinationChild | move src dst count =>
    obtain ⟨result, called, rfl⟩ := Option.map_eq_some_iff.mp ran
    cases goes
    exact move_tracked doc called i

/-- The call is defined, and the index designates after it the element it
designated before, unless the call removed that very element. -/
def KeepsCurrent (p : Platform Id H) (q : Queue Id Extra H) (op : Op Id Extra) : Prop :=
  ∃ q', apply p q op = some q' ∧
    ∀ i : Nat, q.currentIndex = i → i < q.queue.length → ∀ j, track p q op i = some j →
      q'.currentIndex = j

/-- The calls that leave the current item designated. -/
def SparesCurrent (p : Platform Id H) (q : Queue Id Extra H) :
    Op Id Extra → Prop
  | .insertIds pos ids => SparesInsert p q pos (ids.map fun id => ⟨id, none⟩)
  | .insertItems pos items => SparesInsert p q pos items
  | .remove _ => True
  | .removeRows first count => AcceptsRemoval q first count
  | .moveRows sourceParent sourceRow count destinationParent destinationChild =>
    SparesMove p q sourceParent sourceRow count destinationParent destinationChild
  | .move src dst count => SparesMove p q false src count false dst

/-- The current item survives a call exactly when the call is one of those that
spare it. -/
theorem keeps_current_iff (doc : Documented p) (q : Queue Id Extra H) (op : Op Id Extra) :
    KeepsCurrent p q op ↔ SparesCurrent p q op := by
  cases op with
  | insertIds pos ids =>
    simpa only [KeepsCurrent, SparesCurrent, apply, insertIds, track, Option.some.injEq, forall_eq'] using
      insert_keeps_current_iff (p := p) (q := q) pos (ids.map fun id => ⟨id, none⟩)
  | insertItems pos items =>
    simpa only [KeepsCurrent, SparesCurrent, apply, track, Option.some.injEq, forall_eq'] using
      insert_keeps_current_iff (p := p) (q := q) pos items
  | remove id =>
    simp only [SparesCurrent, iff_true, KeepsCurrent, apply, remove, track]
    cases found : q.queue.findIdx? fun el => el.id = id with
    | none => exact ⟨q, rfl, fun i here _ j same => by cases same; exact here⟩
    | some row =>
      have bound := remove_row_bound found
      obtain ⟨result, ran⟩ := (removeRows_defined_iff p q row 1).mpr
        (.inr ⟨by omega, by simp only [Queue.rowCount]; omega⟩)
      exact ⟨result.2, by simp [ran], fun i here _ j kept =>
        removal_keeps_current ran here (by simpa using kept)⟩
  | removeRows first count =>
    refine Iff.trans ?_ (removeRows_defined_iff p q first count)
    constructor
    · rintro ⟨q', ran, _⟩
      obtain ⟨result, ran, _⟩ := Option.map_eq_some_iff.mp ran
      exact ⟨result, ran⟩
    · rintro ⟨result, ran⟩
      exact ⟨result.2, by simp [apply, ran], fun i here _ j kept =>
        removal_keeps_current ran here kept⟩
  | moveRows sourceParent sourceRow count destinationParent destinationChild =>
    simpa only [KeepsCurrent, SparesCurrent, apply, track, Option.some.injEq, forall_eq'] using
      move_keeps_current_iff doc (q := q) sourceParent destinationParent sourceRow count
        destinationChild
  | move src dst count =>
    simpa only [KeepsCurrent, SparesCurrent, apply, move, track, Option.some.injEq, forall_eq'] using
      move_keeps_current_iff doc (q := q) false false src count dst

/-- Keeping the index on the element keeps `currentId`. -/
theorem current_id_kept (doc : Documented p) {op : Op Id Extra} (ran : apply p q op = some q')
    (keeps : KeepsCurrent p q op) {i j : Nat} (here : q.currentIndex = i)
    (inside : i < q.queue.length) (kept : track p q op i = some j) :
    q'.currentId = q.currentId := by
  obtain ⟨other, same, follows⟩ := keeps
  rw [ran] at same
  cases same
  have moved := follows i here inside j kept
  have element := track_follows doc ran kept
  have bound : j < q'.queue.length := by
    rw [List.getElem?_eq_getElem inside] at element
    exact (List.getElem?_eq_some_iff.mp element).1
  simp only [Queue.currentId, Queue.rowCount, moved, here, Int.toNat_natCast, element]
  rw [if_neg (by omega), if_neg (by omega)]

/-- An insertion in front of the current item, and a move across it, leave
another item designated. -/
theorem current_item_lost :
    (∃ q', apply plainPlatform (⟨[⟨7, none⟩], {7}, 0⟩ : Queue Nat Unit Nat) (.insertIds 0 [5]) =
      some q' ∧ q'.queue = [⟨5, none⟩, ⟨7, none⟩] ∧ q'.currentId = some 5) ∧
    (∃ q', apply plainPlatform (⟨[⟨7, none⟩, ⟨8, none⟩], {7, 8}, 0⟩ : Queue Nat Unit Nat)
      (.moveRows false 1 1 false 0) = some q' ∧ q'.queue = [⟨8, none⟩, ⟨7, none⟩] ∧
      q'.currentId = some 8) ∧
    ¬ KeepsCurrent plainPlatform (⟨[⟨7, none⟩], {7}, 0⟩ : Queue Nat Unit Nat) (.insertIds 0 [5]) := by
  refine ⟨⟨_, rfl, rfl, rfl⟩, ⟨_, rfl, rfl, rfl⟩, ?_⟩
  rintro ⟨q', ran, follows⟩
  cases ran
  exact absurd (follows 0 rfl (by decide) 1 rfl) (by decide)

theorem keeps_current_on_one_row :
    KeepsCurrent plainPlatform (⟨[⟨7, none⟩], {7}, 0⟩ : Queue Nat Unit Nat) (.insertIds 1 [5]) ↔
      SparesCurrent plainPlatform (⟨[⟨7, none⟩], {7}, 0⟩ : Queue Nat Unit Nat) (.insertIds 1 [5]) :=
  keeps_current_iff plain_documented _ _

end CurrentCalls

end Qcm.IdQueueProofs
