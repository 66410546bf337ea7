import Qcm.ResourceHeaderProofs

/-!
What `merge_validation` makes of the stored headers of a resource, when an
upstream says that the resource has not changed.

Headers are stored as `saved` wrote them, so a merged list is compared header by
header, each with its values in their order.
-/

namespace Qcm.HeaderMergeProofs

open Lib ResourceHeaders ResourceHeaderProofs

variable {M : Type*} [MultiMap HeaderName HeaderValue M]

/-- What `restore` makes of an entry of a header. -/
private def restored (name : HeaderName) (entry : Text × Text) : Option HeaderValue :=
  if HeaderName.fromBytes entry.1 = some name then HeaderValue.fromStr entry.2 else none

variable {merged new : M} {name : HeaderName} {now : HeaderValue}
variable {entries : Headers} {headers kept : M}

private theorem getAll_foldl_restore : MultiMap.getAll (entries.foldl restoreEntry merged) name =
      MultiMap.getAll merged name ++ entries.filterMap (restored name) := by
  induction entries generalizing merged with
  | nil => simp
  | cons entry rest ih =>
    rw [List.foldl_cons, ih, restoreEntry]
    cases key : HeaderName.fromBytes entry.1 with
    | none => simp [restored, key]
    | some other =>
      cases val : HeaderValue.fromStr entry.2 with
      | none => simp [restored, val]
      | some value =>
        rw [MultiMap.getAll_append]
        by_cases same : name = other
        · simp [restored, key, val, same]
        · simp [restored, key, same, Ne.symm same]

def isText (value : HeaderValue) : Bool := value.toStr.isSome

theorem getAll_restore_saved : MultiMap.getAll (restore (saved headers) : M) name =
      if name = .contentLength ∨ name = .contentRange then []
      else (MultiMap.getAll (forwarded headers) name).filter isText := by
  have each (entry : HeaderName × HeaderValue) : (savedEntry entry).bind (restored name) =
      if entry.1 = name then
        if name = .contentLength ∨ name = .contentRange then none
        else if isText entry.2 then some entry.2 else none
      else none := by
    rw [savedEntry]
    split
    · rename_i length
      by_cases here : entry.1 = name
      · rw [here] at length
        simp [here, length]
      · simp [here]
    · rename_i other
      cases read : entry.2.toStr with
      | none => simp [isText, read]
      | some text =>
        by_cases here : entry.1 = name
        · rw [here] at other
          simp [restored, here, other, fromBytes_chars, fromStr_of_toStr read, isText, read]
        · simp [restored, here, fromBytes_chars]
  rw [restore, getAll_foldl_restore, MultiMap.getAll_empty, List.nil_append, saved,
    List.filterMap_filterMap, List.filterMap_congr fun entry _ => each entry, MultiMap.getAll, valuesOf,
    List.filter_filterMap]
  split
  · refine List.filterMap_eq_nil_iff.mpr fun entry _ => ?_
    split <;> rfl
  · refine List.filterMap_congr fun entry _ => ?_
    split <;> rfl

/-! ## The merge -/

/-- The answer to a validation carries a header, after stripping. -/
def Carries (new : M) (name : HeaderName) : Prop := ∃ text, (name.chars, text) ∈ saved new

private theorem getAll_replaceHeader {text : Text} : MultiMap.getAll (replaceHeader new merged text) name =
      if HeaderName.fromBytes text = some name then MultiMap.getAll new name
      else MultiMap.getAll merged name := by
  rw [replaceHeader]
  cases read : HeaderName.fromBytes text with
  | none => simp
  | some key =>
    rw [MultiMap.getAll_foldl_append, MultiMap.getAll_remove]
    by_cases same : name = key
    · simp [same]
    · simp [same, Ne.symm same]

private theorem getAll_replaceHeaders :
    MultiMap.getAll (entries.foldl (fun merged entry => replaceHeader new merged entry.1) merged) name =
      if ∃ entry ∈ entries, HeaderName.fromBytes entry.1 = some name then MultiMap.getAll new name
      else MultiMap.getAll merged name := by
  induction entries generalizing merged with
  | nil => simp
  | cons entry rest ih =>
    rw [List.foldl_cons, ih, getAll_replaceHeader]
    by_cases later : ∃ entry ∈ rest, HeaderName.fromBytes entry.1 = some name
    · simp [later]
    · by_cases now : HeaderName.fromBytes entry.1 = some name <;> simp [later, now]

private theorem carries_iff :
    (∃ entry ∈ saved new, HeaderName.fromBytes entry.1 = some name) ↔ Carries new name := by
  constructor
  · rintro ⟨⟨key, text⟩, written, read⟩
    obtain ⟨other, -, -, -, same, -⟩ := mem_saved.mp written
    simp only at same read
    rw [same, fromBytes_chars, Option.some.injEq] at read
    exact ⟨text, read ▸ same ▸ written⟩
  · rintro ⟨text, written⟩
    exact ⟨_, written, fromBytes_chars name⟩

open Classical in
private theorem getAll_replaceSaved :
    MultiMap.getAll ((saved new).foldl (fun merged entry => replaceHeader new merged entry.1) merged) name =
      if Carries new name then MultiMap.getAll new name else MultiMap.getAll merged name := by
  rw [getAll_replaceHeaders]
  exact if_congr carries_iff rfl rfl

open Classical in
theorem getAll_mergeValidation {old : Headers} : MultiMap.getAll (mergeValidation old new now) name =
      if name = .age then (MultiMap.getAll new .age).take 1
      else if name = .date ∧ MultiMap.getAll new .date = [] then [now]
      else if Carries new name then MultiMap.getAll new name
      else MultiMap.getAll (restore old : M) name := by
  have dated (merged : M) : MultiMap.getAll (if MultiMap.containsKey new .date then merged
      else MultiMap.insert merged .date now) name =
      if name = .date ∧ MultiMap.getAll new .date = [] then [now] else MultiMap.getAll merged name := by
    by_cases there : MultiMap.getAll new .date = []
    · have absent : MultiMap.containsKey new .date = false := by simp [MultiMap.containsKey, there]
      simp [absent, there, MultiMap.getAll_insert]
    · simp [MultiMap.containsKey_iff.mpr there, there]
  have apart : HeaderName.age ≠ HeaderName.date := by decide
  rw [mergeValidation, MultiMap.get]
  cases ages : MultiMap.getAll new .age with
  | nil =>
    simp only [List.head?_nil, List.take_nil]
    rw [dated, MultiMap.getAll_remove, getAll_replaceSaved]
    by_cases age : name = .age
    · simp [age, apart]
    · simp [age]
  | cons first rest =>
    simp only [List.head?_cons, List.take_succ_cons, List.take_zero]
    rw [MultiMap.getAll_insert, dated, MultiMap.getAll_remove, getAll_replaceSaved]
    by_cases age : name = .age <;> simp [age]

/-- What a validation makes of the headers that were saved of `kept`. -/
structure Merged (kept new : M) (now : HeaderValue) : Prop where
  /-- A header that the answer carries has the values of the answer. -/
  carried (name : HeaderName) (there : Carries new name) (other : name ≠ .age) :
    MultiMap.getAll (mergeValidation (saved kept) new now) name = MultiMap.getAll new name
  /-- `Age` is the first one of the answer, if it has any. -/
  age : MultiMap.getAll (mergeValidation (saved kept) new now) .age = (MultiMap.getAll new .age).take 1
  /-- An answer without a date gets the present one. -/
  undated (absent : MultiMap.getAll new .date = []) :
    MultiMap.getAll (mergeValidation (saved kept) new now) .date = [now]
  /-- Every other header keeps the values that are stored; so does `Date` where
  the answer has one that does not survive the stripping. -/
  others (name : HeaderName) (absent : ¬ Carries new name) (age : name ≠ .age)
    (dated : name = .date → MultiMap.getAll new .date ≠ []) :
    (MultiMap.getAll (mergeValidation (saved kept) new now) name).map HeaderValue.toStr =
      (valuesOf (saved kept) name.chars).map some
  /-- The same answer once more, if it has a date, changes nothing. -/
  again (dated : MultiMap.getAll new .date ≠ []) (later : HeaderValue) (name : HeaderName) :
    MultiMap.getAll (mergeValidation (saved (mergeValidation (saved kept) new now)) new later) name =
      MultiMap.getAll (mergeValidation (saved kept) new now) name

private theorem map_toStr_filter {values : List HeaderValue} :
    (values.filter isText).map HeaderValue.toStr = (values.filterMap HeaderValue.toStr).map some := by
  induction values with
  | nil => rfl
  | cons value rest ih => cases read : value.toStr <;> simp [isText, read, ← ih]

private theorem hop_stripped (hop : name ∈ hopByHop) : MultiMap.getAll (forwarded headers) name = [] := by
  rw [getAll_forwarded, if_pos (.inl hop)]

theorem Carries.there (carries : Carries new name) : name ∉ hopByHop ∧ MultiMap.getAll new name ≠ [] := by
  obtain ⟨text, written⟩ := carries
  obtain ⟨other, value, there, -, same, -⟩ := mem_saved.mp written
  cases chars_injective same
  rw [getAll_forwarded] at there
  split at there
  · cases there
  · rename_i stays
    exact ⟨fun hop => stays (.inl hop), List.ne_nil_of_mem there⟩

/-- A merged list has no `Connection` line that could name a header. -/
private theorem connection_absent : MultiMap.getAll (mergeValidation (saved kept) new now) .connection = [] := by
  have hop : HeaderName.connection ∈ hopByHop := by decide
  have undated : HeaderName.connection ≠ .date := by decide
  rw [getAll_mergeValidation, if_neg (by decide), if_neg (fun both => undated both.1),
    if_neg (fun carries => carries.there.1 hop), getAll_restore_saved, hop_stripped hop]
  split <;> rfl

private theorem getAll_forwarded_merged : MultiMap.getAll (forwarded (mergeValidation (saved kept) new now)) name =
      if name ∈ hopByHop then [] else MultiMap.getAll (mergeValidation (saved kept) new now) name := by
  have stays : ¬ Dropped (mergeValidation (saved kept) new now) name := by
    rintro ⟨text, read, -⟩
    simp [value, MultiMap.get, connection_absent] at read
  rw [getAll_forwarded]
  simp [stays]

/-- A header that only the store has stays the same when it is saved, read back
and saved again. -/
private theorem restored_again
    (same : MultiMap.getAll (mergeValidation (saved kept) new now) name = MultiMap.getAll (restore (saved kept)
      : M) name) : MultiMap.getAll (restore (saved (mergeValidation (saved kept) new now)) : M) name =
      MultiMap.getAll (restore (saved kept) : M) name := by
  rw [getAll_restore_saved, getAll_forwarded_merged, same, getAll_restore_saved]
  split
  · rfl
  · split
    · rename_i hop
      rw [hop_stripped hop]
    · rw [List.filter_filter]
      simp

/-- An answer with two lines of `Age`. -/
def twoAges : List (HeaderName × HeaderValue) :=
  [(.age, ⟨"5".toList, by decide⟩), (.age, ⟨"7".toList, seven_legal⟩)]

end Qcm.HeaderMergeProofs
