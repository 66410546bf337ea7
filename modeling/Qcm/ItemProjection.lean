import Qcm.Lib.Numbered
import Qcm.Lib.RowRuns

/-!
What a card view is given when its list changes
(`app/src/model/item_source_projection.hpp`).

The rows are compared with the snapshot that the view shows.  A span of rows
that keep their keys is sent as values; otherwise a snapshot is made of all rows,
with a revision to each, and with the runs of rows that changed or a reset.
-/

namespace Qcm.ItemProjection

open Lib

/-- A row of a snapshot: its descriptor, and its value. -/
structure Item (κ ρ : Type) where
  key : κ
  contentRevision : Nat
  value : ρ

/-- `ItemSnapshot`: a key stands in one row at most, and is found there. -/
structure ItemSnapshot (κ ρ : Type) where
  revision : Nat
  items : List (Item κ ρ)
  indexOfKey : κ → Option Nat
  indexed : ∀ key index, indexOfKey key = some index ↔ (items[index]?).map Item.key = some key

/-- `ItemProjectionSnapshot`, before it is published. -/
structure ItemProjectionSnapshot (ρ : Type) where
  rows : List ρ
  versions : List Nat
  type : String

structure ItemSourceProjection (ρ : Type) where
  snapshot : Option (ItemProjectionSnapshot ρ) := none
  values : List (Nat × ρ) := []
  /-- Each an `ItemChange::Update`. -/
  changes : List RowRun := []
  valuesOnly : Bool := false
  reset : Bool := false

variable {κ ρ : Type} [DecidableEq κ] [DecidableEq ρ] (key : ρ → κ)

/-- The published snapshot: its rows are found by `m_indexes`. -/
def ItemProjectionSnapshot.published (snapshot : ItemProjectionSnapshot ρ) (revision : Nat)
    (whole : snapshot.versions.length = snapshot.rows.length) (apart : (snapshot.rows.map key).Nodup) :
    ItemSnapshot κ ρ where
  revision
  items := List.zipWith (fun row version => ⟨key row, version, row⟩) snapshot.rows snapshot.versions
  indexOfKey := (Hash.numbered (snapshot.rows.map key)).lookup
  indexed wanted index := by
    rw [Hash.lookup_numbered apart, List.getElem?_map, List.getElem?_zipWith]
    cases row : snapshot.rows[index]? with
    | none => simp
    | some row =>
      have inside : index < snapshot.versions.length := by
        rw [whole]
        exact (List.getElem?_eq_some_iff.mp row).1
      simp [List.getElem?_eq_getElem inside]

variable (before : ItemSnapshot κ ρ) (count : Nat) (first last : Int)

/-- The key that a row had. -/
def keyAt (index : Nat) : Option κ := (before.items[index]?).map Item.key

/-- A span inside the rows, when there are as many as before. -/
def isSpan : Bool := 0 ≤ first ∧ first ≤ last ∧ last < count ∧ count = before.items.length

def dirty (index : Nat) : Bool := 0 ≤ first ∧ first ≤ index ∧ (index : Int) ≤ last

/-- The content revision of an unchanged row. -/
def unchanged (index : Nat) (row : ρ) : Option Nat := do
  let old ← before.indexOfKey (key row)
  let item ← before.items[old]?
  if !dirty first last index && item.value = row then return item.contentRevision else none

/-- A row is given another key, or is new. -/
def moved (index : Nat) (row : ρ) : Bool := keyAt before index ≠ some (key row)

/-- `before->revision + 1`, of 64 bits. -/
def nextRevision : Nat := (before.revision + 1) % 2 ^ 64

/-- What the loop over all rows has gathered. -/
structure Pass where
  versions : List Nat
  changes : List RowRun
  reset : Bool

/-- The loop over all rows, from the row `index` on. -/
def compareRows : Nat → List ρ → Pass → Pass
  | _, [], pass => pass
  | index, row :: rows, pass =>
    let old := unchanged key before first last index row
    compareRows (index + 1) rows
      { versions := pass.versions ++ [old.getD (nextRevision before)]
        changes := if old.isSome then pass.changes else RowRun.extend pass.changes index
        reset := pass.reset || moved key before index row }

variable (read : Nat → ρ) (current : Nat → Bool)

/-- A row, unless the projection is no longer wanted when it has been read. -/
def readRow (index : Nat) : Option ρ := if current index then some (read index) else none

/-- The rows read so far, when all are needed after all. -/
def complete (start stop : Nat) (rows : List ρ) : Option (List ρ) :=
  (List.range count).mapM fun index =>
    if start ≤ index ∧ index < stop then rows[index - start]? else readRow read current index

def projectItemSource (type : String) : Option (ItemSourceProjection ρ) := do
  let inside := isSpan before count first last
  let start := if inside then first.toNat else 0
  let stop := if inside then last.toNat + 1 else count
  let rows ← (List.range' start (stop - start)).mapM (readRow read current)
  if inside && (rows.zipIdx start).all fun entry => !moved key before entry.2 entry.1 then
    return { valuesOnly := true, values := (rows.zipIdx start).map fun entry => (entry.2, entry.1) }
  else
    let rows ← if inside then complete count read current start stop rows else some rows
    let pass := compareRows key before first last 0 rows ⟨[], [], count ≠ before.items.length⟩
    return {
      snapshot := some ⟨rows, pass.versions, type⟩
      changes := if pass.reset then [] else pass.changes
      reset := pass.reset }

end Qcm.ItemProjection
