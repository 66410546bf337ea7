import Mathlib

/-!
Hash maps as association lists without repeated keys.  The order of the entries
is the order in which they were put in; a caller that walks a map in another
order takes the keys and rearranges them first.
-/

namespace Qcm.Lib

universe u v w

variable {α : Type u} {β : Type v}

/-- A map from `α` to `β`. -/
abbrev Hash (α : Type u) (β : Type v) := AList fun _ : α => β

variable [DecidableEq α]

/-- `QHash::value`: the value of a key, or the given one. -/
def Hash.value (map : Hash α β) (key : α) (default : β) : β := (map.lookup key).getD default

def Hash.size (map : Hash α β) : Nat := map.entries.length

def Hash.values (map : Hash α β) : List β := map.entries.map Sigma.snd

/-- The entries that pass a test. -/
def Hash.filter (keep : α → β → Bool) (map : Hash α β) : Hash α β where
  entries := map.entries.filter fun entry => keep entry.1 entry.2
  nodupKeys := map.nodupKeys.sublist List.filter_sublist

/-- The map with other values at the same keys. -/
def Hash.map {γ : Type w} (change : α → β → γ) (map : Hash α β) : Hash α γ where
  entries := map.entries.map fun entry => ⟨entry.1, change entry.1 entry.2⟩
  nodupKeys := by
    have keys : (map.entries.map fun entry => (⟨entry.1, change entry.1 entry.2⟩ : Sigma fun _ => γ)).keys =
        map.entries.keys := by simp [List.keys]
    rw [List.NodupKeys, keys]
    exact map.nodupKeys

/-- Two maps with the same values at the same keys. -/
def Hash.same [DecidableEq β] (left right : Hash α β) : Bool :=
  left.size == right.size && left.entries.all fun entry => right.lookup entry.1 = some entry.2

/-- Whether a key is there with a value that passes a test. -/
def Hash.hits (test : α → β → Bool) (map : Hash α β) (key : α) : Bool :=
  (map.lookup key).any (test key)

/-- Whether an entry passes a test. -/
def Hash.any (test : α → β → Bool) (map : Hash α β) : Bool :=
  map.entries.any fun entry => test entry.1 entry.2

variable {test : α → β → Bool} {map : Hash α β} {key : α}

theorem Hash.lookup_insert (map : Hash α β) (key other : α) (value : β) :
    AList.lookup other (map.insert key value) =
      if other = key then some value else AList.lookup other map := by
  split
  · rename_i same
    rw [same, AList.lookup_insert]
  · rename_i apart
    rw [AList.lookup_insert_ne apart]

/-- What is there after an insertion is what was put in, or was there before. -/
theorem Hash.lookup_insert_some {other : α} {value found : β}
    (present : (map.insert key value).lookup other = some found) :
    key = other ∧ value = found ∨ other ≠ key ∧ map.lookup other = some found := by
  rw [Hash.lookup_insert] at present
  split at present
  · exact .inl ⟨Eq.symm ‹_›, Option.some.inj present⟩
  · exact .inr ⟨‹_›, present⟩

theorem Hash.lookup_erase (map : Hash α β) (key other : α) :
    AList.lookup other (map.erase key) = if other = key then none else AList.lookup other map := by
  split
  · rename_i same
    rw [same, AList.lookup_erase]
  · rename_i apart
    rw [AList.lookup_erase_ne apart]

theorem Hash.lookup_erase_some {other : α} {found : β} (present : (map.erase key).lookup other = some found) :
    other ≠ key ∧ map.lookup other = some found := by
  rw [Hash.lookup_erase] at present
  split at present
  · cases present
  · exact ⟨‹_›, present⟩

private theorem dlookup_kreplace (entries : List (Sigma fun _ : α => β)) (key other : α) (value : β) :
    (List.kreplace key value entries).dlookup other =
      if other = key then (entries.dlookup other).map fun _ => value else entries.dlookup other := by
  induction entries with
  | nil => simp [List.kreplace]
  | cons entry rest ih =>
    obtain ⟨first, held⟩ := entry
    unfold List.kreplace at ih ⊢
    by_cases here : key = first
    · subst here
      by_cases same : other = key
      · subst same
        simp [List.lookmap_cons_some]
      · simp [List.lookmap_cons_some, same]
    · rw [List.lookmap_cons_none _ _ (by simp [here])]
      by_cases same : other = first
      · subst same
        simp [Ne.symm here]
      · rw [List.dlookup_cons_ne _ _ (by simpa using same), ih, List.dlookup_cons_ne _ _ (by simpa using same)]

theorem Hash.lookup_replace (map : Hash α β) (key other : α) (value : β) :
    AList.lookup other (map.replace key value) =
      if other = key then (AList.lookup other map).map fun _ => value else AList.lookup other map :=
  dlookup_kreplace map.entries key other value

theorem Hash.lookup_eq_some_iff (map : Hash α β) (key : α) (value : β) :
    AList.lookup key map = some value ↔ ⟨key, value⟩ ∈ map.entries :=
  AList.mem_lookup_iff

theorem Hash.lookup_filter (keep : α → β → Bool) (map : Hash α β) (key : α) :
    AList.lookup key (Hash.filter keep map) = (AList.lookup key map).filter (keep key) := by
  ext value
  rw [Option.filter_eq_some_iff, Hash.lookup_eq_some_iff, Hash.lookup_eq_some_iff]
  exact List.mem_filter

theorem Hash.lookup_map {γ : Type w} (change : α → β → γ) (map : Hash α β) (key : α) :
    AList.lookup key (Hash.map change map) = (AList.lookup key map).map (change key) := by
  ext value
  rw [Option.map_eq_some_iff, Hash.lookup_eq_some_iff]
  simp only [Hash.lookup_eq_some_iff, Hash.map, List.mem_map]
  constructor
  · rintro ⟨entry, member, same⟩
    cases same
    exact ⟨entry.2, member, rfl⟩
  · rintro ⟨before, member, rfl⟩
    exact ⟨⟨key, before⟩, member, rfl⟩

theorem Hash.any_iff :
    Hash.any test map = true ↔ ∃ key value, AList.lookup key map = some value ∧ test key value = true := by
  simp only [Hash.any, List.any_eq_true, Hash.lookup_eq_some_iff]
  exact ⟨fun ⟨entry, member, passed⟩ => ⟨entry.1, entry.2, member, passed⟩,
    fun ⟨key, value, member, passed⟩ => ⟨⟨key, value⟩, member, passed⟩⟩

theorem Hash.hits_iff :
    Hash.hits test map key = true ↔ ∃ value, AList.lookup key map = some value ∧ test key value = true := by
  simp [Hash.hits, Option.any_eq_true]

theorem Hash.value_insert (map : Hash α β) (key other : α) (value default : β) :
    Hash.value (map.insert key value) other default =
      if other = key then value else Hash.value map other default := by
  rw [Hash.value, Hash.lookup_insert]
  split <;> rfl

omit [DecidableEq α] in
theorem Hash.size_eq (map : Hash α β) : map.size = map.keys.length := by
  simp [Hash.size, AList.keys, List.keys]

theorem Hash.size_insert (map : Hash α β) (key : α) (value : β) :
    Hash.size (map.insert key value) = if (AList.lookup key map).isSome then map.size else map.size + 1 := by
  rw [Hash.size_eq, Hash.size_eq, AList.keys_insert, List.length_cons]
  split
  · rename_i present
    have member : key ∈ map.keys := AList.mem_keys.mpr (AList.lookup_isSome.mp present)
    rw [List.length_erase_of_mem member]
    have positive := List.length_pos_of_mem member
    omega
  · rename_i absent
    rw [List.erase_of_not_mem fun member => absent (AList.lookup_isSome.mpr (AList.mem_keys.mp member))]

theorem Hash.size_erase (member : key ∈ map) : Hash.size (map.erase key) + 1 = map.size := by
  have listed := AList.mem_keys.mp member
  rw [Hash.size_eq, Hash.size_eq, AList.keys_erase, List.length_erase_of_mem listed]
  have positive := List.length_pos_of_mem listed
  omega

/-- The entry of a key and the others. -/
theorem Hash.entries_perm_erase {value : β} (found : AList.lookup key map = some value) :
    map.entries.Perm (⟨key, value⟩ :: (map.erase key).entries) := by
  have listed : key ∈ map.entries.keys := AList.mem_keys.mp (AList.lookup_isSome.mp (by rw [found]; rfl))
  obtain ⟨held, early, late, fresh, split, erased⟩ := List.exists_of_kerase listed
  obtain rfl : held = value := by
    have same : map.entries.dlookup key = some value := found
    rw [split, List.dlookup_append, List.dlookup_eq_none.mpr fresh, Option.none_or, List.dlookup_cons_eq] at same
    exact Option.some.inj same
  rw [AList.erase]
  dsimp only
  rw [erased, split]
  exact List.perm_middle

/-- The value of a key and the values of the others. -/
theorem Hash.values_perm_erase {value : β} (found : AList.lookup key map = some value) :
    (Hash.values map).Perm (value :: Hash.values (map.erase key)) :=
  List.Perm.map (fun entry : Sigma fun _ : α => β => entry.2) (Hash.entries_perm_erase found)

omit [DecidableEq α] in
/-- A map whose keys lie in a list is no longer than the list. -/
theorem Hash.size_le_of_keys (map : Hash α β) (keys : List α) (inside : ∀ key ∈ map.keys, key ∈ keys) :
    map.size ≤ keys.length := by
  rw [Hash.size_eq]
  exact (List.subperm_of_subset map.keys_nodup inside).length_le

end Qcm.Lib
