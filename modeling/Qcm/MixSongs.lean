import Qcm.BatchWrites

/-!
Songs that are put into a mix and taken out of it (`append_songs` and
`remove_songs` in `backend/core/src/model/mix.rs`), beside the contents that a
batch writes.

A table has one row for a mix and a song.  An insert that meets that row gives it
the id that the new row would have had, and leaves its place.
-/

namespace Qcm.MixSongs

open Lib SyncDatabase SyncBatch BatchTables BatchWrites

/-- The columns of the unique index. -/
def memberOf (mix song : Int) (_ : Int) (row : MixSongRow) : Bool := row.mixId = mix && row.songId = song

/-- One row of the insert, `ON CONFLICT (song_id, mix_id) DO UPDATE`. -/
def insertSong (mix : Int) (t : Tables) (song : Int) : Except String Tables :=
  let id := nextId t.sequence.relMixSong t.relMixSongs
  let sequence := { t.sequence with relMixSong := id }
  match Hash.find (memberOf mix song) t.relMixSongs with
  | some (old, row) => .ok { t with relMixSongs := Hash.put id row (t.relMixSongs.erase old), sequence }
  | none =>
    if (t.mixes.lookup mix).isNone ∨ (t.songs.lookup song).isNone then .error "FOREIGN KEY constraint failed"
    else .ok { t with relMixSongs := Hash.put id ⟨mix, song, 0⟩ t.relMixSongs, sequence }

/-- The rows of a mix whose `order_idx` is 0. -/
def unplaced (mix : Int) (_ : Int) (row : MixSongRow) : Bool := row.mixId = mix && row.orderIdx = 0

/-- `max_order`: `COALESCE(MAX(order_idx), -1)` over the rows of a mix. -/
def maxOrder (mix : Int) (rows : Hash Int MixSongRow) : Int :=
  (((Hash.values rows).filter (·.mixId = mix)).map MixSongRow.orderIdx).max?.getD (-1)

/-- `ROW_NUMBER() OVER (ORDER BY id)` -/
def rowNumber (ids : List Int) (id : Int) : Nat := (ids.filter (· ≤ id)).length

/-- `new_orders`: songs with their new places. -/
def newOrders (mix : Int) (rows : Hash Int MixSongRow) : List (Int × Int) :=
  let selected := (Hash.filter (unplaced mix) rows).entries
  selected.map fun entry => (entry.2.songId, maxOrder mix rows + rowNumber (selected.map Sigma.fst) entry.1)

/-- `reorder_append`: what is selected for a song is selected before any row is updated. -/
def reorderAppend (mix : Int) (t : Tables) : Tables :=
  let orders := newOrders mix t.relMixSongs
  { t with
    relMixSongs := Hash.map (fun id row =>
      if unplaced mix id row then
        -- every song that is updated is one of those selected
        { row with orderIdx := ((orders.find? (·.1 = row.songId)).map Prod.snd).getD 0 }
      else row) t.relMixSongs }

/-- `update_track_count` -/
def updateTrackCount (mix delta : Int) (t : Tables) : Tables :=
  if delta = 0 then t
  else
    match t.mixes.lookup mix with
    | none => t
    | some row => { t with mixes := Hash.put mix { row with trackCount := row.trackCount + delta } t.mixes }

def appendSongs (mix : Int) (songs : List Int) (t : Tables) : Except String (Tables × Nat) := do
  let t ← songs.foldlM (insertSong mix) t
  let count := Hash.size (Hash.filter (unplaced mix) t.relMixSongs)
  return (updateTrackCount mix count (reorderAppend mix t), count)

def removeSongs (mix : Int) (songs : List Int) (t : Tables) : Tables × Nat :=
  let kept := Hash.filter (fun _ row => !(row.mixId = mix && row.songId ∈ songs)) t.relMixSongs
  let affected := Hash.size t.relMixSongs - Hash.size kept
  (updateTrackCount mix (-affected) { t with relMixSongs := kept }, affected)

/-- What is done to the songs of mixes, each in a transaction of its own: songs
are added or removed, or a provider writes the contents of its mixes. -/
inductive Edit where
  | append (mix : Int) (songs : List Int)
  | remove (mix : Int) (songs : List Int)
  | contents (provider : Int) (entries : List MixContents)

/-- The tables after it, which are those before it when it fails. -/
def edited (t : Tables) : Edit → Tables
  | .append mix songs => ((appendSongs mix songs t).map Prod.fst).toOption.getD t
  | .remove mix songs => (removeSongs mix songs t).1
  | .contents provider entries => ((entries.foldlM (writeContents provider) (t, [])).map Prod.fst).toOption.getD t

end Qcm.MixSongs
