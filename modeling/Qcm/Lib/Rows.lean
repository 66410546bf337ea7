import Qcm.Lib.Hash

/-!
Tables as maps from row ids: a row is written in its place when its id is there,
and looked for by its columns.  A search goes on to find the row it found as
long as the searched columns are not written and no new row has the same ones.
-/

namespace Qcm.Lib

universe u v

variable {α : Type u} {β : Type v} [DecidableEq α]

/-- The map with a row written: in its place, or as a new row. -/
def Hash.put (key : α) (value : β) (map : Hash α β) : Hash α β :=
  if (map.lookup key).isSome then Hash.map (fun other row => if other = key then value else row) map
  else map.insert key value

omit [DecidableEq α] in
/-- The first entry that passes a test. -/
def Hash.find (test : α → β → Bool) (map : Hash α β) : Option (α × β) :=
  (map.entries.find? fun entry => test entry.1 entry.2).map fun entry => (entry.1, entry.2)

variable {key : α} {value : β} {map : Hash α β} {test : α → β → Bool}

@[simp] theorem Hash.lookup_put (key other : α) (value : β) (map : Hash α β) :
    AList.lookup other (Hash.put key value map) =
      if other = key then some value else AList.lookup other map := by
  unfold Hash.put
  split
  · rename_i there
    rw [Hash.lookup_map]
    by_cases same : other = key
    · subst same
      obtain ⟨row, found⟩ := Option.isSome_iff_exists.mp there
      simp [found]
    · simp [same]
  · rw [Hash.lookup_insert]

theorem Hash.entries_put_new (absent : map.lookup key = none) :
    (Hash.put key value map).entries = ⟨key, value⟩ :: map.entries := by
  rw [Hash.put, if_neg (by simp [absent]), AList.entries_insert_of_notMem (AList.lookup_eq_none.mp absent)]

theorem Hash.find_some {entry : α × β} (found : Hash.find test map = some entry) :
    map.lookup entry.1 = some entry.2 ∧ test entry.1 entry.2 = true := by
  obtain ⟨stored, first, rfl⟩ := Option.map_eq_some_iff.mp found
  have passed := List.find?_some first
  exact ⟨(Hash.lookup_eq_some_iff _ _ _).mpr (List.mem_of_find?_eq_some first), passed⟩

theorem Hash.find_none :
    Hash.find test map = none ↔ ∀ key value, map.lookup key = some value → test key value = false := by
  simp only [Hash.find, Option.map_eq_none_iff, List.find?_eq_none, Hash.lookup_eq_some_iff,
    Bool.not_eq_true]
  exact ⟨fun none key value member => none ⟨key, value⟩ member,
    fun none entry member => none entry.1 entry.2 member⟩

/-- A search in the map with other values of the same answer to the test. -/
theorem Hash.find_map {change : α → β → β}
    (same : ∀ key value, map.lookup key = some value → test key (change key value) = test key value) :
    Hash.find test (Hash.map change map) =
      (Hash.find test map).map fun entry => (entry.1, change entry.1 entry.2) := by
  have tests : ∀ entry ∈ map.entries,
      test entry.1 (change entry.1 entry.2) = test entry.1 entry.2 := fun entry member =>
    same entry.1 entry.2 ((Hash.lookup_eq_some_iff _ _ _).mpr member)
  simp only [Hash.find, Hash.map, List.find?_map, Option.map_map]
  have searches := List.find?_congr tests
  exact congrArg (Option.map fun entry => (entry.1, change entry.1 entry.2)) searches

/-- A written row whose searched columns stay, or a new row with others, leaves
a search as it was. -/
theorem Hash.find_put (kept : ∀ old, map.lookup key = some old → test key value = test key old)
    (other : map.lookup key = none → test key value = false) : Hash.find test (Hash.put key value map) =
      (Hash.find test map).map fun entry => (entry.1, if entry.1 = key then value else entry.2) := by
  unfold Hash.put
  split
  · rename_i there
    obtain ⟨old, found⟩ := Option.isSome_iff_exists.mp there
    refine Hash.find_map fun place row stored => ?_
    by_cases same : place = key
    · subst same
      rw [found] at stored
      cases stored
      simp [kept old found]
    · simp [same]
  · rename_i absent
    have none : map.lookup key = none := by simpa using absent
    have missing : ∀ entry, Hash.find test map = some entry → entry.1 ≠ key := by
      rintro entry found rfl
      rw [(Hash.find_some found).1] at none
      cases none
    have entries : (map.insert key value).entries = ⟨key, value⟩ :: map.entries :=
      AList.entries_insert_of_notMem (AList.lookup_eq_none.mp none)
    rw [Hash.find, entries, List.find?_cons_of_neg (by simp [other none])]
    cases found : Hash.find test map with
    | none =>
      rw [Hash.find] at found
      simpa using found
    | some entry =>
      rw [Hash.find] at found
      simp [found, missing entry (by rw [Hash.find, found])]

/-- A new row that passes is the one a search finds. -/
theorem Hash.find_put_new (absent : map.lookup key = none) (passes : test key value = true) :
    Hash.find test (Hash.put key value map) = some (key, value) := by
  have fresh : key ∉ map := AList.lookup_eq_none.mp absent
  rw [Hash.put, if_neg (by simp [absent]), Hash.find, AList.entries_insert_of_notMem fresh,
    List.find?_cons_of_pos (by simpa using passes)]
  rfl

/-- Written in its place, the row a search has found is found again. -/
theorem Hash.find_put_found {old : β} (found : Hash.find test map = some (key, old))
    (passes : test key value = true) : Hash.find test (Hash.put key value map) = some (key, value) := by
  obtain ⟨stored, passed⟩ := Hash.find_some found
  have kept : ∀ row, map.lookup key = some row → test key value = test key row := fun row there => by
    rw [stored] at there
    cases there
    rw [passes, ← passed]
  have absent : map.lookup key = none → test key value = false := fun none => by
    rw [stored] at none
    cases none
  rw [Hash.find_put kept absent, found]
  simp

end Qcm.Lib
