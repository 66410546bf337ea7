import Qcm.ResourceHeaders

/-!
What `forwarded` and `saved` take away, and what a validation makes of the
headers that are stored.

A header is nominated where some line of `Connection` names it.  `forwarded`
reads the first line alone, and that only where it is text.
-/

namespace Qcm.ResourceHeaderProofs

open Lib Lib.HttpField ResourceHeaders

theorem fromBytes_lowercase (text : Text) :
    HeaderName.fromBytes (Text.toAsciiLowercase text) = HeaderName.fromBytes text := by
  have same : Text.toAsciiLowercase (Text.toAsciiLowercase text) = Text.toAsciiLowercase text := by
    simp [Text.toAsciiLowercase]
  simp only [HeaderName.fromBytes, same]

theorem fromBytes_eq_some {text : Text} {name : HeaderName} :
    HeaderName.fromBytes text = some name ↔ Text.toAsciiLowercase text = name.chars := by
  constructor
  · intro read
    simp only [HeaderName.fromBytes] at read
    split at read
    · rw [← Option.some.inj read]
    · cases read
  · intro same
    unfold HeaderName.fromBytes
    rw [dif_pos (same ▸ name.valid)]
    exact congrArg some (by cases name; simpa using same)

private theorem toLower_of_isNameChar {c : Char} (valid : isNameChar c = true) : c.toLower = c := by
  simp only [isNameChar, Char.isUpper, Bool.and_eq_true, Bool.not_eq_true', decide_eq_false_iff_not] at valid
  rw [Char.toLower, dif_neg]
  simpa using valid.2

theorem fromBytes_chars (name : HeaderName) : HeaderName.fromBytes name.chars = some name := by
  rw [fromBytes_eq_some, Text.toAsciiLowercase]
  exact (List.map_congr_left fun c member => toLower_of_isNameChar (name.valid.2.2 c member)).trans
    (List.map_id' _)

theorem chars_injective {left right : HeaderName} (same : left.chars = right.chars) : left = right := by
  cases left
  cases right
  cases same
  rfl

private theorem utf8_of_isVisible {c : Char} (visible : isVisible c = true) : utf8 c = [c] := by
  simp only [isVisible, isVchar, isOws, Bool.or_eq_true, Bool.and_eq_true, decide_eq_true_eq,
    beq_iff_eq] at visible
  have small : c.toNat < 0x80 := by
    obtain vchar | rfl | rfl := visible
    · omega
    · decide
    · decide
  have least : c.val ≤ 0x7f := by
    rw [UInt32.le_iff_toNat_le]
    exact Nat.le_of_lt_succ small
  rw [utf8, String.utf8EncodeChar_eq_singleton (Char.utf8Size_eq_one_iff.mpr least)]
  simp only [List.map_cons, List.map_nil, List.cons.injEq, and_true]
  have octet : c.val.toUInt8.toNat = c.toNat := by
    rw [UInt32.toNat_toUInt8]
    exact Nat.mod_eq_of_lt (lt_trans small (by decide))
  rw [octet, Char.ofNat_toNat]

theorem fromStr_of_toStr {value : HeaderValue} {text : Text} (read : value.toStr = some text) :
    HeaderValue.fromStr text = some value := by
  unfold HeaderValue.toStr at read
  split at read
  · rename_i visible
    have octets : text.flatMap utf8 = value.octets := by
      rw [← Option.some.inj read, List.flatMap_congr fun c member => utf8_of_isVisible (visible c member)]
      simp
    unfold HeaderValue.fromStr
    rw [dif_pos (octets ▸ value.valid)]
    cases value
    simpa using octets
  · cases read

/-! ## What is passed on -/

/-- A header is named by a line where it stands between commas, in any case and
with whitespace around it. -/
def Names (line : Text) (name : HeaderName) : Prop :=
  ∃ before token after, before ++ (token ++ after) ∈ line.splitOn ',' ∧
    (∀ c ∈ before, isOws c = true) ∧ (∀ c ∈ after, isOws c = true) ∧
    HeaderName.fromBytes token = some name

variable {M : Type*} [MultiMap HeaderName HeaderValue M] {headers : M} {name : HeaderName}

/-- A header is nominated when some line of `Connection` names it. -/
def Nominated (headers : M) (name : HeaderName) : Prop :=
  ∃ line ∈ MultiMap.getAll headers .connection, Names line.octets name

private theorem isVchar_of_toLower {c : Char} (lower : isTchar c.toLower = true) : isVchar c = true := by
  by_cases upper : c.val ≥ 'A'.val ∧ c.val ≤ 'Z'.val
  · have least := UInt32.le_iff_toNat_le.mp upper.1
    have most := UInt32.le_iff_toNat_le.mp upper.2
    simp only [isVchar, Bool.and_eq_true, decide_eq_true_eq, Char.toNat]
    exact ⟨le_trans (by decide) least, le_trans most (by decide)⟩
  · have same : c.toLower = c := by rw [Char.toLower, dif_neg upper]
    exact isVchar_of_isTchar (same ▸ lower)

private theorem trim_token {token : Text} (read : HeaderName.fromBytes token = some name) :
    Text.trim token = token := by
  refine Text.trim_solid fun c member => not_isWhitespace_of_isVchar (isVchar_of_toLower ?_)
  have lower : c.toLower ∈ name.chars := by
    rw [← fromBytes_eq_some.mp read]
    exact List.mem_map_of_mem member
  have valid := name.valid.2.2 _ lower
  rw [isNameChar, Bool.and_eq_true] at valid
  exact valid.1

/-- What `forwarded` reads of the pieces of a text are the headers it names. -/
theorem names_iff {line : Text} (visible : ∀ c ∈ line, isVisible c = true) :
    Names line name ↔ ∃ piece ∈ line.splitOn ',',
      HeaderName.fromBytes (Text.toAsciiLowercase (Text.trim piece)) = some name := by
  constructor
  · rintro ⟨before, token, after, inside, leads, trails, read⟩
    refine ⟨_, inside, ?_⟩
    rw [Text.trim_padded (fun c member => isWhitespace_of_isOws (leads c member))
      (fun c member => isWhitespace_of_isOws (trails c member)), trim_token read, fromBytes_lowercase, read]
  · rintro ⟨piece, inside, read⟩
    obtain ⟨before, after, whole, leads, trails⟩ := Text.exists_padding piece
    have seen : ∀ c ∈ piece, isVisible c = true := fun c member =>
      visible c ((Text.sublist_of_mem_splitOn inside).subset member)
    rw [fromBytes_lowercase] at read
    refine ⟨before, Text.trim piece, after, whole.symm ▸ inside, fun c member => ?_, fun c member => ?_, read⟩
    · exact isOws_of_isWhitespace (seen c (whole ▸ List.mem_append_left _ member)) (leads c member)
    · exact isOws_of_isWhitespace (seen c (whole ▸ List.mem_append_right _ (List.mem_append_right _ member)))
        (trails c member)

theorem getAll_foldl_removeNamed {names : List Text} :
    MultiMap.getAll (names.foldl removeNamed headers) name =
      if ∃ text ∈ names, HeaderName.fromBytes text = some name then []
      else MultiMap.getAll headers name := by
  induction names generalizing headers with
  | nil => simp
  | cons first rest ih =>
    rw [List.foldl_cons, ih, removeNamed]
    cases read : HeaderName.fromBytes first with
    | none => simp [read]
    | some key =>
      rw [MultiMap.getAll_remove]
      by_cases later : ∃ text ∈ rest, HeaderName.fromBytes text = some name
      · simp [later]
      · by_cases same : name = key <;> simp [later, read, same, Ne.symm]

theorem visible_of_value {key : HeaderName} {text : Text} (read : value headers key = some text) :
    (∃ line, MultiMap.get headers key = some line ∧ line.octets = text) ∧ ∀ c ∈ text, isVisible c = true := by
  obtain ⟨line, first, read⟩ := Option.bind_eq_some_iff.mp read
  unfold HeaderValue.toStr at read
  split at read <;> cases read
  rename_i visible
  exact ⟨⟨line, first, rfl⟩, visible⟩

/-- The headers that `forwarded` takes away because of `Connection`. -/
def Dropped (headers : M) (name : HeaderName) : Prop :=
  ∃ text, value headers .connection = some text ∧ Names text name

theorem Dropped.nominated (dropped : Dropped headers name) : Nominated headers name := by
  obtain ⟨text, read, names⟩ := dropped
  obtain ⟨⟨line, first, rfl⟩, -⟩ := visible_of_value read
  exact ⟨line, List.mem_of_mem_head? first, names⟩

open Classical in
theorem getAll_forwarded : MultiMap.getAll (forwarded headers) name =
    if name ∈ hopByHop ∨ Dropped headers name then [] else MultiMap.getAll headers name := by
  have dropped : (∃ text ∈ (((value headers .connection).getD []).splitOn ',').map fun s =>
      Text.toAsciiLowercase (Text.trim s), HeaderName.fromBytes text = some name) ↔ Dropped headers name := by
    simp only [List.mem_map, exists_exists_and_eq_and]
    cases read : value headers .connection with
    | none =>
      have none : HeaderName.fromBytes [] = none := by decide
      simp [Dropped, read, Text.trim, Text.trimStart, Text.trimEnd, Text.toAsciiLowercase, none]
    | some text =>
      simp only [Dropped, read, Option.some.injEq, exists_eq_left', Option.getD_some]
      exact (names_iff (visible_of_value read).2).symm
  rw [forwarded, getAll_foldl_removeNamed, MultiMap.getAll_foldl_remove]
  simp only [dropped]
  by_cases gone : Dropped headers name <;> simp [gone]

private theorem savedEntry_value (entry : HeaderName × HeaderValue) :
    ((savedEntry entry).bind fun written => if written.1 = name.chars then some written.2 else none) =
      if entry.1 = name then
        if name = .contentLength ∨ name = .contentRange then none else entry.2.toStr
      else none := by
  have key : entry.1.chars = name.chars ↔ entry.1 = name := ⟨chars_injective, fun same => same ▸ rfl⟩
  rw [savedEntry]
  by_cases here : entry.1 = name
  · by_cases length : name = .contentLength ∨ name = .contentRange
    · simp [here, length]
    · cases read : entry.2.toStr <;> simp [here, length]
  · split
    · simp
    · cases read : entry.2.toStr <;> simp [here, key]

/-- The values that `saved` writes for a header: those that are text. -/
theorem valuesOf_saved : valuesOf (saved headers) name.chars =
    if name = .contentLength ∨ name = .contentRange then []
    else (MultiMap.getAll (forwarded headers) name).filterMap HeaderValue.toStr := by
  rw [saved, valuesOf, List.filterMap_filterMap, MultiMap.getAll, valuesOf, List.filterMap_filterMap,
    List.filterMap_congr fun entry _ => savedEntry_value entry]
  split
  · refine List.filterMap_eq_nil_iff.mpr fun entry _ => ?_
    split <;> rfl
  · refine List.filterMap_congr fun entry _ => ?_
    split <;> rfl

/-- What the headers that are passed on or saved have to be: of a header that is
for one hop or nominated nothing, of any other header all values, where only
`saved` leaves out the length, the range, and what is not text. -/
structure Stripped (headers : M) : Prop where
  dropped (name : HeaderName) (listed : name ∈ hopByHop ∨ Nominated headers name) :
    MultiMap.getAll (forwarded headers) name = [] ∧ valuesOf (saved headers) name.chars = []
  passed (name : HeaderName) (other : ¬ (name ∈ hopByHop ∨ Nominated headers name)) :
    MultiMap.getAll (forwarded headers) name = MultiMap.getAll headers name
  kept (name : HeaderName) (other : ¬ (name ∈ hopByHop ∨ Nominated headers name)) :
    valuesOf (saved headers) name.chars =
      if name = .contentLength ∨ name = .contentRange then []
      else (MultiMap.getAll headers name).filterMap HeaderValue.toStr
  names (entry : Text × Text) (written : entry ∈ saved headers) :
    ∃ name : HeaderName, entry.1 = name.chars

theorem savedEntry_eq_some {entry : HeaderName × HeaderValue} {written : Text × Text} :
    savedEntry entry = some written ↔ ¬ (entry.1 = .contentLength ∨ entry.1 = .contentRange) ∧
      written.1 = entry.1.chars ∧ entry.2.toStr = some written.2 := by
  rw [savedEntry]
  split
  · rename_i length
    simp [length]
  · rename_i other
    cases read : entry.2.toStr with
    | none => simp
    | some text =>
      obtain ⟨key, val⟩ := written
      simp only [Option.map_some, Option.some.injEq, Prod.mk.injEq, other, not_false_eq_true, true_and]
      rw [eq_comm]

/-- Every entry that is saved carries the text of a value that is passed on. -/
theorem mem_saved {entry : Text × Text} : entry ∈ saved headers ↔ ∃ name value,
    value ∈ MultiMap.getAll (forwarded headers) name ∧
      ¬ (name = .contentLength ∨ name = .contentRange) ∧
      entry.1 = name.chars ∧ value.toStr = some entry.2 := by
  simp only [saved, List.mem_filterMap, Prod.exists, savedEntry_eq_some, MultiMap.mem_getAll]

theorem seven_legal : ∀ c ∈ "7".toList, isFieldChar c = true := by decide

/-- Two lines of `Connection`, the second of which names a header. -/
def twoConnectionLines : List (HeaderName × HeaderValue) :=
  [(.connection, ⟨"close".toList, by decide⟩), (.connection, ⟨"age".toList, by decide⟩),
    (.age, ⟨"7".toList, seven_legal⟩)]

end Qcm.ResourceHeaderProofs
