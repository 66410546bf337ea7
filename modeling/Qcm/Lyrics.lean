import Qcm.Lib.UpperBound
import Qcm.LyricParser

/-!
Lyrics on their way from a document to the view: the subtitle made of the tags
(`backend/core/src/subtitle/mod.rs`), its message (`backend/main/src/convert.rs`),
the rows of the query (`app/src/query/lyric_query.cpp`) and the model that shows
them (`app/src/model/lyric.cpp`).
-/

namespace Qcm.Lyrics

open Lib LyricParser
open Lib.Nom (Fault)

structure SubtitleItem where
  start : Option Int
  stop : Option Int
  text : Option Text

/-- The closure of `from_lrc`. -/
def subtitleItem : LrcTag → Option SubtitleItem
  | .time text timestamps =>
    match timestamps with
    | [] => none
    | first :: others =>
      if text = [] then none
      else some { start := some first, stop := others.head?, text := some text }
  | .id _ => none

/-- `Subtitle::from_lrc` -/
def fromLrc (decimals : Decimals) (lrc : Text) : Except (Fault Error) (List SubtitleItem) := do
  let items ← parse decimals lrc
  return items.filterMap subtitleItem

/-- `msg::model::SubtitleItem` -/
structure SubtitleMessage where
  start : Int
  stop : Int
  text : Text

/-- `qcm_from` -/
def message (item : SubtitleItem) : SubtitleMessage where
  start := item.start.getD (-1)
  stop := item.stop.getD (-1)
  text := item.text.getD []

structure LyricItem where
  milliseconds : Int
  content : Text
  deriving DecidableEq

def lyricItem (message : SubtitleMessage) : LyricItem := ⟨message.start, message.text⟩

/-- The rows that a query shows of a document. -/
def lyricRows (decimals : Decimals) (lrc : Text) : Except (Fault Error) (List LyricItem) := do
  let items ← fromLrc decimals lrc
  return items.map fun item => lyricItem (message item)

structure LyricModel where
  items : List LyricItem := []
  position : Int := 0
  currentIndex : Int := -1

namespace LyricModel

def refreshIndex (model : LyricModel) : LyricModel :=
  let next := upperBound (fun item => decide (max model.position 0 < item.milliseconds)) model.items
  { model with currentIndex := next - 1 }

/-- The index is refreshed where the position changes. -/
def setPosition (model : LyricModel) (position : Int) : LyricModel :=
  if model.position = position then model else { model with position := position }.refreshIndex

def resetModel (model : LyricModel) (items : List LyricItem) : LyricModel :=
  { model with items := items }.refreshIndex

end LyricModel

/-- What happens to the model: the query resets it, and the player moves on. -/
inductive Event where
  | reset (items : List LyricItem)
  | position (position : Int)

def step (model : LyricModel) : Event → LyricModel
  | .reset items => model.resetModel items
  | .position position => model.setPosition position

def run (events : List Event) : LyricModel := events.foldl step {}

end Qcm.Lyrics
