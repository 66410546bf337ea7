import Qcm.ShuffleProxy

/-!
How the play queue goes from song to song, `qcm::PlayQueue`
(`app/src/model/play_queue.cpp`).  A move is made in rows of the shuffled view,
written to the source as a row of the source, and read back through the binding
of the view's current index, which Qt evaluates when a property it has read
changes.  The request for more rows and the recorded actions carry no state of
the queue and are left out.
-/

namespace Qcm.QueueTraversal

open ShuffleProxy

/-- `enums::LoopMode`. -/
inductive LoopMode where
  | noneLoop | singleLoop | listLoop | shuffleLoop
  deriving DecidableEq

/-- The play queue over its proxy; `source` is the current index of the source. -/
structure PlayQueue where
  proxy : Proxy
  source : Int
  loopMode : LoopMode
  randomMode : Bool
  isDynamic : Bool
  pendingAdvance : Bool

/-- The source's current index is written.  Writing the value it has already
notifies nobody, so the binding of the view keeps its value. -/
def setSource (q : PlayQueue) (row : Int) : PlayQueue :=
  if row = q.source then q else { q with source := row, proxy := evaluateCurrent q.proxy row }

/-- `PlayIdProxyQueue::setCurrentIndex`. -/
def setCurrentIndex (q : PlayQueue) (row : Int) : PlayQueue := setSource q (mapToSource q.proxy row)

/-- `randomIndex`, with the row its loop ends on. -/
def randomIndex (q : PlayQueue) (pick : Int) : PlayQueue :=
  if q.proxy.rowCount ≤ 1 then q else setCurrentIndex q pick

/-- `next(mode)`; `pick` is used in random mode only. -/
def nextIn (q : PlayQueue) (mode : LoopMode) (pick : Int) : PlayQueue :=
  let count : Int := q.proxy.rowCount
  let current := q.proxy.currentIndex
  if count = 0 then if q.isDynamic then { q with pendingAdvance := true } else q
  else
    match mode with
    | .noneLoop =>
      if current + 1 < count then setCurrentIndex q (current + 1)
      else if q.isDynamic then { q with pendingAdvance := true }
      else q
    | .listLoop => setCurrentIndex q ((current + 1).tmod count)
    | .shuffleLoop =>
      if q.randomMode then randomIndex q pick else setCurrentIndex q ((current + 1).tmod count)
    | .singleLoop => q

/-- `prev(mode)`. -/
def prevIn (q : PlayQueue) (mode : LoopMode) : PlayQueue :=
  let count : Int := q.proxy.rowCount
  let current := q.proxy.currentIndex
  if count = 0 then q
  else
    match mode with
    | .noneLoop => if 1 ≤ current then setCurrentIndex q (current - 1) else q
    | .listLoop | .shuffleLoop =>
      setCurrentIndex q (if current ≤ 0 then max count 1 - 1 else current - 1)
    | .singleLoop => q

/-- The mode that a user's step is taken in. -/
def stepMode (mode : LoopMode) : LoopMode := if mode = .singleLoop then .listLoop else mode

/-- `next()`. -/
def next (q : PlayQueue) (pick : Int) : PlayQueue := nextIn q (stepMode q.loopMode) pick

/-- `prev()`. -/
def prev (q : PlayQueue) : PlayQueue := prevIn q (stepMode q.loopMode)

/-- `setLoopMode`.  Where the shuffle is switched, the binding of the view's
current index is evaluated before the handler of the change shuffles the rows,
and nothing evaluates it after that. -/
def setLoopMode (q : PlayQueue) (mode : LoopMode) (random : Shuffle) : Option PlayQueue :=
  if mode = q.loopMode then some q
  else
    let shuffled : Bool := mode = .shuffleLoop
    if shuffled = q.proxy.shuffle then some { q with loopMode := mode }
    else
      let switched := evaluateCurrent { q.proxy with shuffle := shuffled } q.source
      (reShuffle switched random).map fun proxy => { q with proxy := proxy, loopMode := mode }

end Qcm.QueueTraversal
