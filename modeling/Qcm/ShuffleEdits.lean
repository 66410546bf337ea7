import Qcm.Lib.Splice
import Qcm.ShuffleProxy

/-!
What the shuffled view shows of the songs behind it, before and after rows are
inserted into the source or removed from it (`onSourceRowsInserted` and
`onSourceRowsRemoved` of `app/src/model/play_queue.cpp`).
-/

namespace Qcm.ShuffleEdits

open ShuffleProxy Lib.Splice

variable {Id : Type}

/-- The song at a row of the view: that of the source row it is mapped to. -/
def songAt (songs : List Id) (s : Proxy) (place : Nat) : Option Id :=
  let row := mapToSource s place
  if row < 0 then none else songs[row.toNat]?

/-- The view from its first row to its last. -/
def shown (songs : List Id) (s : Proxy) : List (Option Id) := (List.range s.rowCount).map (songAt songs s)

/-- An edit of the source, at the rows that the source announces. -/
inductive Edit (Id : Type) where
  | insertion (pos : Nat) (added : List Id)
  | removal (first count : Nat)

/-- The songs after an edit. -/
def Edit.songs (songs : List Id) : Edit Id → List Id
  | .insertion pos added => insertRange songs pos added
  | .removal first count => eraseRange songs first count

/-- The view after an edit, of which it learns the number of rows. -/
def edited (songs : List Id) (s : Proxy) (edit : Edit Id) (random : Shuffle) : Option Proxy :=
  apply s (.sourceRows (edit.songs songs).length random)

end Qcm.ShuffleEdits
