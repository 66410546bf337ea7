import Qcm.Lib.Rows

/-!
The rows of a table by their columns alone, without the ids they are stored
under.  Columns with a first component are grouped by it; a group is written
anew by dropping it and adding its rows, and whatever order that leaves them in,
the same rows are there when it happens again.
-/

namespace Qcm.Lib

universe u v w

section Columns

variable {α : Type u} {β : Type v} {γ : Type w} [DecidableEq α]

/-- The columns `read` of every row. -/
def Hash.columns (read : β → γ) (map : Hash α β) : List γ := (Hash.values map).map read

variable {read : β → γ} {map : Hash α β}

theorem Hash.mem_columns {column : γ} :
    column ∈ Hash.columns read map ↔ ∃ key value, map.lookup key = some value ∧ read value = column := by
  simp only [Hash.columns, Hash.values, List.map_map, List.mem_map, Function.comp_apply, Hash.lookup_eq_some_iff]
  exact ⟨fun ⟨entry, member, same⟩ => ⟨entry.1, entry.2, member, same⟩,
    fun ⟨key, value, member, same⟩ => ⟨⟨key, value⟩, member, same⟩⟩

theorem Hash.columns_put_new {key : α} {value : β} (absent : map.lookup key = none) :
    Hash.columns read (Hash.put key value map) = read value :: Hash.columns read map := by
  rw [Hash.columns, Hash.values, Hash.entries_put_new absent]
  rfl

theorem Hash.columns_put_same {key : α} {old value : β} (there : map.lookup key = some old)
    (same : read value = read old) :
    Hash.columns read (Hash.put key value map) = Hash.columns read map := by
  rw [Hash.put, if_pos (by simp [there])]
  simp only [Hash.columns, Hash.values, Hash.map, List.map_map]
  refine List.map_congr_left fun entry member => ?_
  simp only [Function.comp_apply]
  split
  · rename_i here
    have stored := (Hash.lookup_eq_some_iff map entry.1 entry.2).mpr member
    rw [here, there] at stored
    rw [same, Option.some.inj stored]
  · rfl

omit [DecidableEq α] in
theorem Hash.columns_filter (keep : γ → Bool) :
    Hash.columns read (Hash.filter (fun _ row => keep (read row)) map) = (Hash.columns read map).filter keep := by
  simp [Hash.columns, Hash.values, Hash.filter, List.filter_map, Function.comp_def]

end Columns

section Groups

variable {δ : Type w} {rows others : List (Int × δ)} {owner other : Int}

/-- The rows of one owner. -/
def ownRows (owner : Int) (rows : List (Int × δ)) : List (Int × δ) := rows.filter fun row => row.1 = owner

/-- The rows of all other owners. -/
def otherRows (owner : Int) (rows : List (Int × δ)) : List (Int × δ) := rows.filter fun row => row.1 ≠ owner

theorem mem_ownRows {row : Int × δ} : row ∈ ownRows owner rows ↔ row ∈ rows ∧ row.1 = owner := by
  simp [ownRows]

/-- The rows of an owner and all others are all rows. -/
theorem ownRows_append_otherRows : (ownRows owner rows ++ otherRows owner rows).Perm rows := by
  have parts := List.filter_append_perm (fun row : Int × δ => decide (row.1 = owner)) rows
  simpa [ownRows, otherRows, decide_not] using parts

@[simp] theorem ownRows_append : ownRows owner (rows ++ others) = ownRows owner rows ++ ownRows owner others := by
  simp [ownRows]

theorem ownRows_map (values : List δ) : ownRows owner (values.map fun value => (owner, value)) =
    values.map fun value => (owner, value) := by
  simp [ownRows, List.filter_map, Function.comp_def]

theorem ownRows_map_other (values : List δ) (apart : other ≠ owner) :
    ownRows other (values.map fun value => (owner, value)) = [] := by
  simp [ownRows, apart.symm]

@[simp] theorem ownRows_otherRows : ownRows owner (otherRows owner rows) = [] := by
  simp [ownRows, otherRows]

theorem ownRows_otherRows_ne (apart : other ≠ owner) : ownRows other (otherRows owner rows) = ownRows other rows := by
  simp only [ownRows, otherRows, List.filter_filter]
  refine List.filter_congr fun row _ => ?_
  by_cases here : row.1 = other
  · simp [here, apart]
  · simp [here]

@[simp] theorem ownRows_rewritten (values : List δ) :
    ownRows owner ((values.map fun value => (owner, value)) ++ otherRows owner rows) =
      values.map fun value => (owner, value) := by
  rw [ownRows_append, ownRows_map, ownRows_otherRows, List.append_nil]

theorem ownRows_rewritten_ne (values : List δ) (apart : other ≠ owner) :
    ownRows other ((values.map fun value => (owner, value)) ++ otherRows owner rows) = ownRows other rows := by
  rw [ownRows_append, ownRows_map_other values apart, ownRows_otherRows_ne apart, List.nil_append]

/-- An owner's rows, dropped and added again. -/
theorem perm_rewritten {again : List (Int × δ)} {values : List δ} (same : again.Perm rows)
    (own : (ownRows owner rows).Perm (values.map fun value => (owner, value))) :
    ((values.map fun value => (owner, value)) ++ otherRows owner again).Perm rows :=
  (own.symm.append (same.filter _)).trans ownRows_append_otherRows

variable [DecidableEq δ] {values : List δ}

/-- Values added to an owner's, where they are not there yet. -/
def addRows (owner : Int) (values : List δ) (rows : List (Int × δ)) : List (Int × δ) :=
  values.foldl (fun rows value => rows.insert (owner, value)) rows

theorem mem_addRows {row : Int × δ} :
    row ∈ addRows owner values rows ↔ row ∈ rows ∨ ∃ value ∈ values, row = (owner, value) := by
  induction values generalizing rows with
  | nil => simp [addRows]
  | cons value rest ih =>
    rw [addRows, List.foldl_cons, ← addRows, ih, List.mem_insert_iff]
    simp only [List.mem_cons, exists_eq_or_imp]
    tauto

theorem addRows_there (there : ∀ value ∈ values, (owner, value) ∈ rows) : addRows owner values rows = rows := by
  induction values with
  | nil => rfl
  | cons value rest ih =>
    rw [addRows, List.foldl_cons, ← addRows, List.insert_of_mem (there value (by simp))]
    exact ih fun other member => there other (by simp [member])

theorem addRows_new (distinct : values.Nodup) (new : ∀ value ∈ values, (owner, value) ∉ rows) :
    (addRows owner values rows).Perm ((values.map fun value => (owner, value)) ++ rows) := by
  induction values generalizing rows with
  | nil => exact .refl _
  | cons value rest ih =>
    obtain ⟨apart, distinct⟩ := List.nodup_cons.mp distinct
    rw [addRows, List.foldl_cons, ← addRows, List.insert_of_not_mem (new value (by simp))]
    have later : ∀ other ∈ rest, (owner, other) ∉ (owner, value) :: rows := fun other member => by
      have away : other ≠ value := fun same => apart (same ▸ member)
      simp [away, new other (by simp [member])]
    exact (ih distinct later).trans List.perm_middle

theorem addRows_otherRows (distinct : values.Nodup) :
    (addRows owner values (otherRows owner rows)).Perm
      ((values.map fun value => (owner, value)) ++ otherRows owner rows) :=
  addRows_new distinct (by simp [otherRows])

theorem ownRows_addRows (distinct : values.Nodup) :
    (ownRows owner (addRows owner values (otherRows owner rows))).Perm (values.map fun value => (owner, value)) := by
  have added : (ownRows owner (addRows owner values (otherRows owner rows))).Perm
      (ownRows owner ((values.map fun value => (owner, value)) ++ otherRows owner rows)) :=
    (addRows_otherRows distinct).filter _
  rwa [ownRows_rewritten] at added

theorem ownRows_addRows_ne (apart : other ≠ owner) :
    ownRows other (addRows owner values rows) = ownRows other rows := by
  induction values generalizing rows with
  | nil => rfl
  | cons value rest ih =>
    rw [addRows, List.foldl_cons, ← addRows, ih, List.insert_eq]
    split
    · rfl
    · simp [ownRows, apart.symm]

end Groups

end Qcm.Lib
