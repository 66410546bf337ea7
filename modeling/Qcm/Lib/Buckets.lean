import Qcm.Lib.MultiMap

/-!
Values put into buckets by a key, as in a `BTreeMap<K, Vec<V>>`: the buckets stand
in the order of the keys, the values of a bucket in the order they came in.
-/

namespace Qcm.Lib.Buckets

universe u v

variable {κ : Type u} {ν : Type v} [LinearOrder κ]

/-- `entry(key).or_default().push(value)` -/
def push (key : κ) (value : ν) : List (κ × List ν) → List (κ × List ν)
  | [] => [(key, [value])]
  | (first, values) :: rest =>
    if key < first then (key, [value]) :: (first, values) :: rest
    else if key = first then (first, values ++ [value]) :: rest
    else (first, values) :: push key value rest

/-- `get(&key)` -/
def get : List (κ × List ν) → κ → Option (List ν)
  | [], _ => none
  | (first, values) :: rest, key => if key = first then some values else get rest key

def Ascending (buckets : List (κ × List ν)) : Prop := buckets.Pairwise fun left right => left.1 < right.1

/-- The buckets of some entries: as the keys say, in their order, none of them empty. -/
structure Of (entries : List (κ × ν)) (buckets : List (κ × List ν)) : Prop where
  ascending : Ascending buckets
  get_eq : ∀ key, get buckets key = if valuesOf entries key = [] then none else some (valuesOf entries key)

variable {entries : List (κ × ν)} {buckets : List (κ × List ν)} {key other : κ} {value : ν} {values : List ν}

theorem get_below (below : ∀ bucket ∈ buckets, key < bucket.1) : get buckets key = none := by
  induction buckets with
  | nil => rfl
  | cons first rest ih =>
    rw [get, if_neg (ne_of_lt (below first (.head _)))]
    exact ih fun bucket member => below bucket (.tail _ member)

theorem mem_iff_get (ascending : Ascending buckets) : (key, values) ∈ buckets ↔ get buckets key = some values := by
  induction buckets with
  | nil => simp [get]
  | cons first rest ih =>
    obtain ⟨below, sorted⟩ := List.pairwise_cons.mp ascending
    rw [List.mem_cons, get, ih sorted]
    by_cases same : key = first.1
    · rw [if_pos same, same, get_below below]
      simp [Prod.ext_iff, eq_comm]
    · rw [if_neg same]
      simp [Prod.ext_iff, same]

theorem get_push (ascending : Ascending buckets) : get (push key value buckets) other =
    if other = key then some ((get buckets key).getD [] ++ [value]) else get buckets other := by
  induction buckets with
  | nil => simp [push, get]
  | cons first rest ih =>
    obtain ⟨here, found⟩ := first
    obtain ⟨below, sorted⟩ := List.pairwise_cons.mp ascending
    rw [push]
    split_ifs with front mine same mine mine
    · -- a bucket of its own, in front of all
      have none_yet : get ((here, found) :: rest) key = none :=
        get_below fun bucket member => by
          rcases List.mem_cons.mp member with rfl | later
          · exact front
          · exact lt_trans front (below bucket later)
      rw [get, if_pos mine, none_yet]
      rfl
    · rw [get, if_neg mine]
    · simp [get, same, mine]
    · simp [get, same ▸ mine]
    · rw [get, if_neg (mine ▸ same), ih sorted, if_pos mine, get, if_neg same]
    · rw [get, get, ih sorted, if_neg mine]

theorem key_of_mem_push {bucket : κ × List ν} (member : bucket ∈ push key value buckets) :
    bucket.1 = key ∨ ∃ old ∈ buckets, bucket.1 = old.1 := by
  induction buckets with
  | nil => exact .inl (by rw [List.mem_singleton.mp member])
  | cons first rest ih =>
    rw [push] at member
    split_ifs at member with front same <;> rcases List.mem_cons.mp member with rfl | later
    · exact .inl rfl
    · exact .inr ⟨bucket, later, rfl⟩
    · exact .inl same.symm
    · exact .inr ⟨bucket, .tail _ later, rfl⟩
    · exact .inr ⟨first, .head _, rfl⟩
    · rcases ih later with mine | ⟨old, before, same_key⟩
      · exact .inl mine
      · exact .inr ⟨old, .tail _ before, same_key⟩

theorem ascending_push (ascending : Ascending buckets) : Ascending (push key value buckets) := by
  induction buckets with
  | nil => exact List.pairwise_singleton ..
  | cons first rest ih =>
    obtain ⟨below, sorted⟩ := List.pairwise_cons.mp ascending
    rw [push]
    split_ifs with front same
    · refine List.pairwise_cons.mpr ⟨fun bucket member => ?_, ascending⟩
      rcases List.mem_cons.mp member with rfl | later
      · exact front
      · exact lt_trans front (below bucket later)
    · exact List.pairwise_cons.mpr ⟨below, sorted⟩
    · refine List.pairwise_cons.mpr ⟨fun bucket member => ?_, ih sorted⟩
      rcases key_of_mem_push member with mine | ⟨old, before, same_key⟩
      · exact mine ▸ lt_of_le_of_ne (not_lt.mp front) (Ne.symm same)
      · exact same_key ▸ below old before

theorem of_nil : Of ([] : List (κ × ν)) [] where
  ascending := List.Pairwise.nil
  get_eq _ := rfl

theorem Of.push (known : Of entries buckets) : Of (entries ++ [(key, value)]) (push key value buckets) where
  ascending := ascending_push known.ascending
  get_eq other := by
    rw [get_push known.ascending, known.get_eq, known.get_eq]
    by_cases same : other = key
    · subst same
      have more : valuesOf (entries ++ [(other, value)]) other = valuesOf entries other ++ [value] := by
        simp [valuesOf]
      have filled : valuesOf entries other ++ [value] ≠ [] := List.concat_ne_nil _ _
      rw [if_pos rfl, more, if_neg filled]
      by_cases none_yet : valuesOf entries other = []
      · rw [if_pos none_yet, none_yet]
        rfl
      · rw [if_neg none_yet]
        rfl
    · have kept : valuesOf (entries ++ [(key, value)]) other = valuesOf entries other := by
        simp [valuesOf, Ne.symm same]
      rw [if_neg same, kept]

theorem Of.mem_iff (known : Of entries buckets) :
    (key, values) ∈ buckets ↔ values = valuesOf entries key ∧ values ≠ [] := by
  rw [mem_iff_get known.ascending, known.get_eq]
  split_ifs with none_yet
  · simp [none_yet]
  · rw [Option.some.injEq, eq_comm]
    exact ⟨fun same => ⟨same, same ▸ none_yet⟩, And.left⟩

end Qcm.Lib.Buckets
