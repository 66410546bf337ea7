import Qcm.Lib.Splice

/-!
The play queue's row model, `qcm::model::IdQueue` (`app/src/model/id_queue.cpp`).

A call that C++ leaves undefined has no result here: an iterator formed outside
`m_queue`, a range erased past its end, a rotation whose iterators are out of
order, a signed sum that leaves `int`.  Everything else is computed as the
source computes it.  The signals around a change (`beginInsertRows`,
`currentIndexChanged`, ...) carry no state of the queue and are left out, apart
from the verdict of `beginMoveRows`.
-/

namespace Qcm.IdQueue

open Lib.Splice

/-- What the queue takes from outside: `std::hash<model::ItemId>` and the
verdict of `QAbstractItemModel::beginMoveRows` on a move of rows `first..last`
in front of `destination` under one parent. -/
structure Platform (Id H : Type) where
  hash : Id → H
  beginMoveRows : (first last destination : Int) → Bool

/-- `IdQueue::Item`; the `ItemId` overload of `insert` leaves `extra` default. -/
structure Item (Id Extra : Type) where
  id : Id
  extra : Option Extra
  deriving DecidableEq

/-- `m_queue`, `m_set` and `m_current_index`. -/
structure Queue (Id Extra H : Type) where
  queue : List (Item Id Extra)
  set : Finset H
  currentIndex : Int

variable {Id Extra H : Type}

/-- A freshly constructed `IdQueue`. -/
def Queue.empty : Queue Id Extra H := ⟨[], ∅, -1⟩

/-- `rowCount`, which ignores its parent. -/
def Queue.rowCount (q : Queue Id Extra H) : Int := q.queue.length

/-- `currentId`: the id of the row designated as current, if there is one. -/
def Queue.currentId (q : Queue Id Extra H) : Option Id :=
  if q.currentIndex < 0 ∨ q.rowCount ≤ q.currentIndex then none
  else (q.queue[q.currentIndex.toNat]?).map Item.id

/-- The range of `int`, outside of which a signed sum is undefined. -/
def inInt (value : Int) : Bool := decide (-2147483648 ≤ value ∧ value ≤ 2147483647)

variable [DecidableEq H]

/-- `contains`, by hash as the source looks it up. -/
def contains (p : Platform Id H) (q : Queue Id Extra H) (id : Id) : Bool :=
  decide (p.hash id ∈ q.set)

/-- The items of a span that `insert` keeps: those whose hash is not in `m_set`,
which the loop reads and does not update. -/
def fresh (p : Platform Id H) (q : Queue Id Extra H) (items : List (Item Id Extra)) :
    List (Item Id Extra) :=
  items.filter fun el => !contains p q el.id

/-- `insert(pos, std::span<const Item>)`. -/
def insertItems (p : Platform Id H) (q : Queue Id Extra H) (pos : Int)
    (items : List (Item Id Extra)) : Option (Int × Queue Id Extra H) :=
  if q.rowCount < pos then some (0, q)
  else
    let added := fresh p q items
    if added = [] then some (0, q)
    else if pos < 0 then none
    else some (added.length,
      { q with
        queue := insertRange q.queue pos.toNat added
        set := q.set ∪ (added.map fun el => p.hash el.id).toFinset })

/-- `insert(pos, std::span<const ItemId>)`. -/
def insertIds (p : Platform Id H) (q : Queue Id Extra H) (pos : Int) (ids : List Id) :
    Option (Int × Queue Id Extra H) :=
  insertItems p q pos (ids.map fun id => ⟨id, none⟩)

/-- `removeRows`.  `last` is clamped to the final row; the erased range still
ends at `begin + count + 1`. -/
def removeRows (p : Platform Id H) (q : Queue Id Extra H) (first count : Int) :
    Option (Bool × Queue Id Extra H) :=
  if count ≤ 0 then some (false, q)
  else
    let count := max count 1 - 1
    let last := min (first + count) (max q.rowCount 1 - 1)
    if first < 0 ∨ q.rowCount < first + count + 1 then none
    else
      let begin := first.toNat
      let length := (count + 1).toNat
      let queue := eraseRange q.queue begin length
      let set := (erasedRange q.queue begin length).foldl (fun set el => set.erase (p.hash el.id)) q.set
      let current :=
        if last < q.currentIndex then q.currentIndex - (count + 1)
        else if q.currentIndex ≤ last ∧ first ≤ q.currentIndex then -1
        else q.currentIndex
      some (true, ⟨queue, set, current⟩)

/-- `remove(id)`: the first row holding the id goes through `removeRow`. -/
def remove [DecidableEq Id] (p : Platform Id H) (q : Queue Id Extra H) (id : Id) :
    Option (Queue Id Extra H) :=
  match q.queue.findIdx? fun el => el.id = id with
  | none => some q
  | some row => (removeRows p q row 1).map Prod.snd

/-- The early return of `moveRows`, in the order of the source's `||`. -/
def refusesMove (q : Queue Id Extra H) (sourceParent : Bool) (sourceRow count : Int)
    (destinationParent : Bool) (destinationChild : Int) : Bool :=
  decide (q.rowCount ≤ sourceRow + count - 1) || decide (destinationChild < 0) ||
    decide (q.rowCount < destinationChild) || decide (sourceRow = destinationChild - 1) ||
    decide (count ≤ 0) || sourceParent || destinationParent

/-- `moveRows`; a parent is the validity of its `QModelIndex`.  The current
index is not touched. -/
def moveRows (p : Platform Id H) (q : Queue Id Extra H) (sourceParent : Bool)
    (sourceRow count : Int) (destinationParent : Bool) (destinationChild : Int) :
    Option (Bool × Queue Id Extra H) :=
  if sourceRow < 0 then some (false, q)
  else if !(inInt (sourceRow + count) && inInt (sourceRow + count - 1)) then none
  else if refusesMove q sourceParent sourceRow count destinationParent destinationChild then
    some (false, q)
  else if !p.beginMoveRows sourceRow (sourceRow + count - 1) destinationChild then some (false, q)
  else
    let src := sourceRow.toNat
    let dst := destinationChild.toNat
    let length := count.toNat
    if dst < src then
      some (true, { q with queue := rotateRange q.queue dst src (src + length) })
    else if dst < src + length then none
    else some (true, { q with queue := rotateRange q.queue src (src + length) dst })

/-- `move(src, dst, count)`, under the invalid root index. -/
def move (p : Platform Id H) (q : Queue Id Extra H) (src dst count : Int) :
    Option (Bool × Queue Id Extra H) :=
  moveRows p q false src count false dst

/-- The calls that change the rows. -/
inductive Op (Id Extra : Type) where
  | insertIds (pos : Int) (ids : List Id)
  | insertItems (pos : Int) (items : List (Item Id Extra))
  | remove (id : Id)
  | removeRows (first count : Int)
  | moveRows (sourceParent : Bool) (sourceRow count : Int) (destinationParent : Bool)
      (destinationChild : Int)
  | move (src dst count : Int)

/-- The queue after a call, `none` where the call is undefined. -/
def apply [DecidableEq Id] (p : Platform Id H) (q : Queue Id Extra H) :
    Op Id Extra → Option (Queue Id Extra H)
  | .insertIds pos ids => (insertIds p q pos ids).map Prod.snd
  | .insertItems pos items => (insertItems p q pos items).map Prod.snd
  | .remove id => remove p q id
  | .removeRows first count => (removeRows p q first count).map Prod.snd
  | .moveRows sourceParent sourceRow count destinationParent destinationChild =>
    (moveRows p q sourceParent sourceRow count destinationParent destinationChild).map Prod.snd
  | .move src dst count => (move p q src dst count).map Prod.snd

end Qcm.IdQueue
