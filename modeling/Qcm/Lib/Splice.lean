import Mathlib

/-!
Splices of a sequence: a range inserted, erased, or rotated in place, as the
sequence containers of C++ define them.  Each splice comes with the map that
says where it takes the element at an index, so that a caller can follow one
element without comparing values.
-/

namespace Qcm.Lib.Splice

variable {α : Type*}

/-- `vector::insert(begin + pos, ys)`. -/
def insertRange (xs : List α) (pos : Nat) (ys : List α) : List α :=
  xs.take pos ++ (ys ++ xs.drop pos)

/-- `vector::erase(begin + first, begin + first + count)`. -/
def eraseRange (xs : List α) (first count : Nat) : List α :=
  xs.take first ++ xs.drop (first + count)

/-- The elements `eraseRange` takes out. -/
def erasedRange (xs : List α) (first count : Nat) : List α :=
  (xs.drop first).take count

/-- `std::rotate(begin + first, begin + middle, begin + last)`. -/
def rotateRange (xs : List α) (first middle last : Nat) : List α :=
  xs.take first ++ ((xs.take last).drop middle ++ ((xs.take middle).drop first ++ xs.drop last))

/-- Where an insertion of `count` elements at `pos` takes index `i`. -/
def inserted (pos count i : Nat) : Nat := if i < pos then i else i + count

/-- Where an erasure takes index `i`, if it keeps it. -/
def erased (first count i : Nat) : Option Nat :=
  if i < first then some i else if i < first + count then none else some (i - count)

/-- Where a rotation takes index `i`. -/
def rotated (first middle last i : Nat) : Nat :=
  if i < first then i
  else if i < middle then i + (last - middle)
  else if i < last then i - (middle - first)
  else i

theorem insertRange_perm (xs : List α) (pos : Nat) (ys : List α) :
    (insertRange xs pos ys).Perm (ys ++ xs) := by
  have parts := List.perm_append_comm_assoc (xs.take pos) ys (xs.drop pos)
  rwa [List.take_append_drop] at parts

theorem eraseRange_append_perm (xs : List α) (first count : Nat) :
    (erasedRange xs first count ++ eraseRange xs first count).Perm xs := by
  have whole : xs.take first ++ (erasedRange xs first count ++ xs.drop (first + count)) = xs := by
    rw [erasedRange, ← List.drop_drop, List.take_append_drop, List.take_append_drop]
  have parts := List.perm_append_comm_assoc (erasedRange xs first count) (xs.take first)
    (xs.drop (first + count))
  rwa [whole] at parts

theorem rotateRange_perm (xs : List α) {first middle last : Nat} (lower : first ≤ middle)
    (upper : middle ≤ last) : (rotateRange xs first middle last).Perm xs := by
  have low : xs.take first ++ (xs.take middle).drop first = xs.take middle := by
    conv_rhs => rw [← List.take_append_drop first (xs.take middle)]
    rw [List.take_take, Nat.min_eq_left lower]
  have high : xs.take middle ++ (xs.take last).drop middle = xs.take last := by
    conv_rhs => rw [← List.take_append_drop middle (xs.take last)]
    rw [List.take_take, Nat.min_eq_left upper]
  have whole : xs.take first ++ ((xs.take middle).drop first ++
      ((xs.take last).drop middle ++ xs.drop last)) = xs := by
    rw [← List.append_assoc, low, ← List.append_assoc, high, List.take_append_drop]
  have swap := (List.perm_append_comm_assoc ((xs.take last).drop middle)
    ((xs.take middle).drop first) (xs.drop last)).append_left (xs.take first)
  rwa [whole] at swap

theorem getElem?_insertRange (xs : List α) {pos : Nat} (ys : List α) (inside : pos ≤ xs.length)
    (i : Nat) : (insertRange xs pos ys)[inserted pos ys.length i]? = xs[i]? := by
  unfold insertRange inserted
  split
  · grind
  · grind

theorem getElem?_eraseRange (xs : List α) {first count : Nat}
    (inside : first + count ≤ xs.length) {i j : Nat} (kept : erased first count i = some j) :
    (eraseRange xs first count)[j]? = xs[i]? := by
  unfold eraseRange
  unfold erased at kept
  split at kept
  · grind
  · split at kept
    · contradiction
    · grind

theorem getElem?_rotateRange (xs : List α) {first middle last : Nat} (lower : first ≤ middle)
    (upper : middle ≤ last) (inside : last ≤ xs.length) (i : Nat) :
    (rotateRange xs first middle last)[rotated first middle last i]? = xs[i]? := by
  have starts : (xs.take first).length = first := List.length_take_of_le (by omega)
  have highs : ((xs.take last).drop middle).length = last - middle := by simp; omega
  have lows : ((xs.take middle).drop first).length = middle - first := by simp; omega
  unfold rotateRange rotated
  split
  · rw [List.getElem?_append_left (by omega), List.getElem?_take_of_lt (by omega)]
  · split
    · rw [List.getElem?_append_right (by omega), List.getElem?_append_right (by omega),
        List.getElem?_append_left (by omega), List.getElem?_drop,
        List.getElem?_take_of_lt (by omega)]
      congr 1
      omega
    · split
      · rw [List.getElem?_append_right (by omega), List.getElem?_append_left (by omega),
          List.getElem?_drop, List.getElem?_take_of_lt (by omega)]
        congr 1
        omega
      · rw [List.getElem?_append_right (by omega), List.getElem?_append_right (by omega),
          List.getElem?_append_right (by omega), List.getElem?_drop]
        congr 1
        omega

/-- A rotation by a proper part keeps the indices outside its range and no others. -/
theorem rotated_eq_iff {first middle last : Nat} (lower : first < middle) (upper : middle < last)
    (i : Nat) : rotated first middle last i = i ↔ i < first ∨ last ≤ i := by
  unfold rotated
  split <;> [skip; split <;> [skip; split]] <;> omega

end Qcm.Lib.Splice
