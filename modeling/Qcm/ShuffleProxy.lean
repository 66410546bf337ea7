import Mathlib

/-!
The shuffled view of the play queue, `qcm::PlayIdProxyQueue`
(`app/src/model/play_queue.cpp`): a permutation of the source rows and its
inverse map, kept in step with the number of source rows.

A call has no result where C++ leaves it undefined: a shuffle whose first
iterator lies outside the list, a read behind the end of the list.  The layout
signals around a change carry no state and are left out.
-/

namespace Qcm.ShuffleProxy

/-- One outcome of `Random::shuffle`: what it makes of a range rearranges it. -/
structure Shuffle where
  rearrange : List Nat → List Nat
  perm : ∀ rows, (rearrange rows).Perm rows

/-- The proxy with the row count of its source.  `currentIndex` is the value its
binding was last evaluated to. -/
structure Proxy where
  rowCount : Nat
  supportShuffle : Bool
  shuffle : Bool
  shuffleList : List Nat
  sourceToProxy : Nat → Option Nat
  currentIndex : Int

/-- A proxy without rows, as constructed. -/
def Proxy.initial : Proxy := ⟨0, true, true, [], fun _ => none, -1⟩

def useShuffle (s : Proxy) : Bool := s.supportShuffle && s.shuffle

def mapToSource (s : Proxy) (row : Int) : Int :=
  if row < 0 ∨ (s.shuffleList.length : Int) ≤ row then -1
  else if useShuffle s then (s.shuffleList[row.toNat]?.map Int.ofNat).getD (-1)
  else row

def mapFromSource (s : Proxy) (row : Int) : Int :=
  if useShuffle s then
    if row < 0 then -1 else ((s.sourceToProxy row.toNat).map Int.ofNat).getD (-1)
  else row

/-- The binding of `m_current_index`, evaluated on the current index of the
source. -/
def evaluateCurrent (s : Proxy) (source : Int) : Proxy :=
  { s with currentIndex := mapFromSource s source }

/-- `m_source_to_proxy[sourceRow] = proxyRow`. -/
def setPlace (map : Nat → Option Nat) (entry : Nat × Nat) : Nat → Option Nat :=
  Function.update map entry.1 (some entry.2)

/-- The map that sends the row at each place of a list to that place. -/
def inverseMap (rows : List Nat) : Nat → Option Nat :=
  rows.zipIdx.foldl setPlace fun _ => none

/-- `refreshFromSource` reads one entry of the list for each source row. -/
def refreshFromSource (s : Proxy) : Option Proxy :=
  if s.shuffleList.length < s.rowCount then none
  else some { s with sourceToProxy := inverseMap (s.shuffleList.take s.rowCount) }

/-- `Random::shuffle(begin + first, end)`. -/
def shuffleFrom (rows : List Nat) (first : Nat) (random : Shuffle) : List Nat :=
  rows.take first ++ random.rearrange (rows.drop first)

/-- One round of the loop that shrinks the list: a row that is gone is swapped
with the `k`-th entry from the end. -/
def shrinkStep (count old : Nat) (state : List Nat × Nat) (i : Nat) : List Nat × Nat :=
  match state.1[i]? with
  | some row => if count ≤ row then (state.1.swap i (old - state.2), state.2 + 1) else state
  | none => state

/-- The loop over the first `count` entries. -/
def shrinkLoop (count : Nat) (rows : List Nat) : List Nat :=
  ((List.range count).foldl (shrinkStep count rows.length) (rows, 1)).1

/-- `shuffleSync`. -/
def shuffleSync (s : Proxy) (random : Shuffle) : Option Proxy :=
  let count := s.rowCount
  let old := s.shuffleList.length
  if old < count then
    let grown := s.shuffleList ++ List.range' old (count - old)
    let first := s.currentIndex + 1
    if first < 0 ∨ (count : Int) < first then none
    else refreshFromSource { s with shuffleList := shuffleFrom grown first.toNat random }
  else if count < old then
    refreshFromSource { s with shuffleList := (shrinkLoop count s.shuffleList).take count }
  else some s

/-- Source row 0 is swapped to the front, where there is one. -/
def zeroInFront (rows : List Nat) : List Nat :=
  match rows.findIdx? (· = 0) with
  | some i => rows.swap i 0
  | none => rows

/-- `reShuffle`. -/
def reShuffle (s : Proxy) (random : Shuffle) : Option Proxy :=
  if useShuffle s then
    refreshFromSource { s with shuffleList := zeroInFront (random.rearrange s.shuffleList) }
  else some s

/-- What happens to a proxy.  The binding of the current index is evaluated when
Qt sees fit, so it is a step of its own. -/
inductive Op where
  /-- Rows inserted into, removed from or moved in the source, which has `rowCount` rows now. -/
  | sourceRows (rowCount : Nat) (random : Shuffle)
  /-- `setSourceModel` with another model, of which the row count, the current
  index and the shuffle option are given. -/
  | setSourceModel (rowCount : Nat) (source : Int) (support : Bool) (random : Shuffle)
  | setShuffle (value : Bool) (random : Shuffle)
  | reShuffle (random : Shuffle)
  | evaluateCurrent (source : Int)

def apply (s : Proxy) : Op → Option Proxy
  | .sourceRows rowCount random => shuffleSync { s with rowCount } random
  | .setSourceModel rowCount source support random =>
    (shuffleSync (evaluateCurrent { s with rowCount } source) random).map
      fun s => { s with supportShuffle := support }
  | .setShuffle value random =>
    if value = s.shuffle then some s else reShuffle { s with shuffle := value } random
  | .reShuffle random => reShuffle s random
  | .evaluateCurrent source => some (evaluateCurrent s source)

end Qcm.ShuffleProxy
