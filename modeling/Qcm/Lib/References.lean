import Qcm.Lib.Rows

/-!
References between tables.  `Refers` says that what the rows of one table name in
a column are rows of another; it is kept by a row that is written with its
reference checked, by any new row of the table referred to, and by a deletion that
takes the referring rows along.
-/

namespace Qcm.Lib

universe u v

variable {κ ι : Type u} {β γ : Type v} [DecidableEq κ] [DecidableEq ι]

/-- What the rows of `child` name in a column is there in `parent`. -/
def Refers (child : Hash κ β) (column : κ → β → Option ι) (parent : Hash ι γ) : Prop :=
  ∀ key row, child.lookup key = some row → ∀ id ∈ column key row, (parent.lookup id).isSome

theorem refers_iff {child : Hash κ β} {column : κ → β → Option ι} {parent : Hash ι γ} :
    Refers child column parent ↔
      (child.entries.all fun entry => (column entry.1 entry.2).all fun id => (parent.lookup id).isSome) = true := by
  simp only [List.all_eq_true, Option.all_eq_true]
  constructor
  · intro refers entry member id named
    exact refers entry.1 entry.2 ((Hash.lookup_eq_some_iff ..).mpr member) id named
  · intro each key row there id named
    exact each ⟨key, row⟩ ((Hash.lookup_eq_some_iff ..).mp there) id named

instance (child : Hash κ β) (column : κ → β → Option ι) (parent : Hash ι γ) :
    Decidable (Refers child column parent) := decidable_of_iff _ refers_iff.symm

/-- The rows of `child` that name none of the deleted rows. -/
def Hash.spare (child : Hash κ β) (column : κ → β → Option ι) (parent : Hash ι γ)
    (gone : ι → γ → Bool) : Hash κ β :=
  Hash.filter (fun key row => !(column key row).any (Hash.hits gone parent)) child

variable {child : Hash κ β} {column : κ → β → Option ι} {parent : Hash ι γ}

theorem Hash.lookup_sub {keep : κ → β → Bool} {map : Hash κ β} {key : κ} {row : β}
    (there : AList.lookup key (Hash.filter keep map) = some row) :
    AList.lookup key map = some row ∧ keep key row = true := by
  rw [Hash.lookup_filter] at there
  exact Option.filter_eq_some_iff.mp there

section

variable (refers : Refers child column parent)
include refers

/-- A table with fewer rows. -/
theorem Refers.filter_child (keep : κ → β → Bool) :
    Refers (Hash.filter keep child) column parent := fun key row there =>
  refers key row (Hash.lookup_sub there).1

/-- A row whose reference was looked up. -/
theorem Refers.put_child {key : κ} {row : β} (found : ∀ id ∈ column key row, (parent.lookup id).isSome) :
    Refers (Hash.put key row child) column parent := by
  intro other next there
  rw [Hash.lookup_put] at there
  split at there
  · rename_i same
    cases there
    exact same ▸ found
  · exact refers other next there

/-- A row of the table referred to, new or written again. -/
theorem Refers.put_parent {id : ι} {row : γ} : Refers child column (Hash.put id row parent) := by
  intro key next there other named
  rw [Hash.lookup_put]
  split
  · rfl
  · exact refers key next there other named

/-- `ON DELETE CASCADE`. -/
theorem Refers.cascade (gone : ι → γ → Bool) :
    Refers (child.spare column parent gone) column (Hash.filter (fun id row => !gone id row) parent) := by
  intro key row there id named
  obtain ⟨stored, spared⟩ := Hash.lookup_sub there
  obtain ⟨target, found⟩ := Option.isSome_iff_exists.mp (refers key row stored id named)
  have kept : gone id target = false := by
    rw [Option.mem_def.mp named, Option.any_some, Hash.hits, found] at spared
    simpa using spared
  simp [Hash.lookup_filter, found, kept]

end

end Qcm.Lib
