import Mathlib

/-!
Maps with several values to a key, as `http::HeaderMap` is documented: the
values of a key keep the order in which they were appended, and the order of
the keys is arbitrary.
-/

namespace Qcm.Lib

universe u v w

/-- The values that a list of entries has for a key. -/
def valuesOf {κ : Type u} {ν : Type v} [DecidableEq κ] (entries : List (κ × ν)) (key : κ) : List ν :=
  entries.filterMap fun entry => if entry.1 = key then some entry.2 else none

/-- What a multimap offers, and what each operation does to the values of a key. -/
class MultiMap (κ : outParam (Type u)) (ν : outParam (Type v)) (M : Type w) [DecidableEq κ] where
  empty : M
  /-- `iter` -/
  entries : M → List (κ × ν)
  /-- `remove`: all values of the key. -/
  remove : M → κ → M
  /-- `append`: one more value, behind those of the key. -/
  append : M → κ → ν → M
  /-- `insert`: one value in the place of those of the key. -/
  insert : M → κ → ν → M
  entries_empty : entries empty = []
  values_remove (map : M) (key other : κ) :
    valuesOf (entries (remove map key)) other = if other = key then [] else valuesOf (entries map) other
  values_append (map : M) (key other : κ) (value : ν) : valuesOf (entries (append map key value)) other =
    if other = key then valuesOf (entries map) other ++ [value] else valuesOf (entries map) other
  values_insert (map : M) (key other : κ) (value : ν) : valuesOf (entries (insert map key value)) other =
    if other = key then [value] else valuesOf (entries map) other

namespace MultiMap

variable {κ : Type u} {ν : Type v} {M : Type w} [DecidableEq κ] [MultiMap κ ν M]

/-- `get_all` -/
def getAll (map : M) (key : κ) : List ν := valuesOf (entries map) key

/-- `get`: the first value of the key. -/
def get (map : M) (key : κ) : Option ν := (getAll map key).head?

def containsKey (map : M) (key : κ) : Bool := (getAll map key).isEmpty = false

variable {map : M} {key other : κ} {value : ν}

@[simp]
theorem getAll_empty : getAll (empty : M) key = [] := by
  rw [getAll, entries_empty]
  rfl

theorem getAll_remove : getAll (remove map key) other = if other = key then [] else getAll map other :=
  values_remove map key other

theorem getAll_append : getAll (append map key value) other =
    if other = key then getAll map other ++ [value] else getAll map other :=
  values_append map key other value

theorem getAll_insert :
    getAll (insert map key value) other = if other = key then [value] else getAll map other :=
  values_insert map key other value

theorem mem_getAll : value ∈ getAll map key ↔ (key, value) ∈ entries map := by
  simp only [getAll, valuesOf, List.mem_filterMap, Prod.exists]
  constructor
  · rintro ⟨k, v, member, same⟩
    split at same
    · rename_i here
      cases here
      cases same
      exact member
    · cases same
  · intro member
    exact ⟨key, value, member, by simp⟩

theorem containsKey_iff : containsKey map key = true ↔ getAll map key ≠ [] := by
  simp [containsKey]

/-- Keys removed one after the other. -/
theorem getAll_foldl_remove {keys : List κ} :
    getAll (keys.foldl remove map) key = if key ∈ keys then [] else getAll map key := by
  induction keys generalizing map with
  | nil => simp
  | cons first rest ih =>
    rw [List.foldl_cons, ih, getAll_remove]
    by_cases later : key ∈ rest
    · simp [later]
    · by_cases now : key = first <;> simp [later, now]

/-- Values appended to one key. -/
theorem getAll_foldl_append {values : List ν} :
    getAll (values.foldl (fun map value => append map key value) map) other =
      if other = key then getAll map other ++ values else getAll map other := by
  induction values generalizing map with
  | nil => simp
  | cons first rest ih =>
    rw [List.foldl_cons, ih, getAll_append]
    by_cases same : other = key <;> simp [same]

end MultiMap

section

variable {κ : Type u} {ν : Type v} [DecidableEq κ] {entries : List (κ × ν)} {key other : κ} {value : ν}

theorem valuesOf_append {more : List (κ × ν)} :
    valuesOf (entries ++ more) key = valuesOf entries key ++ valuesOf more key :=
  List.filterMap_append

theorem valuesOf_filter_key (keep : κ → Bool) :
    valuesOf (entries.filter fun entry => keep entry.1) key =
      if keep key then valuesOf entries key else [] := by
  rw [valuesOf, List.filterMap_filter]
  cases kept : keep key with
  | true =>
    refine List.filterMap_congr fun entry _ => ?_
    by_cases here : entry.1 = key <;> simp [here, kept]
  | false =>
    refine List.filterMap_eq_nil_iff.mpr fun entry _ => ?_
    by_cases here : entry.1 = key <;> simp [here, kept]

end

/-- The entries themselves, in the order in which they came. -/
instance listMultiMap (κ : Type u) (ν : Type v) [DecidableEq κ] : MultiMap κ ν (List (κ × ν)) where
  empty := []
  entries map := map
  remove map key := map.filter fun entry => entry.1 ≠ key
  append map key value := map ++ [(key, value)]
  insert map key value := (map.filter fun entry => entry.1 ≠ key) ++ [(key, value)]
  entries_empty := rfl
  values_remove map key other := by
    rw [valuesOf_filter_key fun k => decide (k ≠ key)]
    by_cases same : other = key <;> simp [same]
  values_append map key other value := by
    rw [valuesOf_append]
    by_cases same : other = key
    · simp [valuesOf, same]
    · simp [valuesOf, same, Ne.symm same]
  values_insert map key other value := by
    rw [valuesOf_append, valuesOf_filter_key fun k => decide (k ≠ key)]
    by_cases same : other = key
    · simp [valuesOf, same]
    · simp [valuesOf, same, Ne.symm same]

end Qcm.Lib
