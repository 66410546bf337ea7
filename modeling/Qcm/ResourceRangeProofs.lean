import Qcm.ResourceRanges

/-!
The ranges that are answered, against the byte ranges of RFC 9110: the two
readers of the header agree, and a response that is sent as partial has bytes.
-/

namespace Qcm.ResourceRangeProofs

open Lib ResourceHeaders CachePolicy ResourceFormat ResourceRanges

/-- A position as it is written. -/
structure Digits where
  chars : Text
  there : chars ≠ []
  digits : ∀ c ∈ chars, c.isDigit = true
  small : Text.digitsValue chars < 2 ^ 64

def Digits.value (digits : Digits) : Nat := Text.digitsValue digits.chars

/-- A range behind the unit: from a position on, up to another one or to the end,
or a number of bytes from the end. -/
inductive RangeSpec where
  | int (first : Digits) (last : Option Digits)
  | suffix (length : Digits)

def RangeSpec.text : RangeSpec → Text
  | .int first last => first.chars ++ '-' :: (last.map Digits.chars).getD []
  | .suffix length => '-' :: length.chars

/-- The bytes of a resource that a range selects, none where the range cannot be
satisfied.  A suffix can, unless it asks for no bytes. -/
def RangeSpec.select (length : Nat) : RangeSpec → Option ByteRange
  | .int first last =>
    if first.value < length then
      some ⟨first.value, min ((last.map fun last => last.value + 1).getD length) length⟩
    else none
  | .suffix size => if size.value = 0 then none else some ⟨length - size.value, length⟩

/-- Not from behind the last position. -/
def RangeSpec.Valid : RangeSpec → Prop
  | .int first last => ∀ stop, last = some stop → first.value ≤ stop.value
  | .suffix _ => True

variable {text : Text} {length : Nat} {range : ByteRange} {spec : RangeSpec}

theorem Digits.parse (digits : Digits) : Text.parseU64 digits.chars = some digits.value := by
  have unsigned : Text.stripPrefix ['+'] digits.chars = none := by
    refine if_neg fun leads => ?_
    obtain ⟨rest, same⟩ := leads
    have sign := digits.digits '+' (by simp [← same])
    revert sign
    decide
  rw [Text.parseU64, unsigned, Option.getD_none, if_pos ⟨digits.there, digits.digits, digits.small⟩, value]

private theorem no_dash (digits : Digits) : '-' ∉ digits.chars := fun member =>
  absurd (digits.digits _ member) (by decide)

private theorem no_comma (digits : Digits) : ',' ∉ digits.chars := fun member =>
  absurd (digits.digits _ member) (by decide)

private theorem split_int {first : Digits} {last : Option Digits} :
    Text.splitOnce '-' (RangeSpec.int first last).text =
      some (first.chars, (last.map Digits.chars).getD []) :=
  Text.splitOnce_append (no_dash first)

private theorem split_suffix {size : Digits} :
    Text.splitOnce '-' (RangeSpec.suffix size).text = some ([], size.chars) :=
  @Text.splitOnce_append [] _ _ (by simp)

theorem requested_iff : requestedText spec.text = true ↔ spec.Valid := by
  cases spec with
  | int first last =>
    have comma : ',' ∉ (RangeSpec.int first last).text := by
      cases last with
      | none | some last => simp [RangeSpec.text, no_comma]
    rw [requestedText, if_neg comma, split_int]
    cases last with
    | none => simp [first.there, first.parse, RangeSpec.Valid]
    | some last => simp [first.there, first.parse, last.there, last.parse, RangeSpec.Valid]
  | suffix size =>
    have comma : ',' ∉ (RangeSpec.suffix size).text := by simp [RangeSpec.text, no_comma]
    rw [requestedText, if_neg comma, split_suffix]
    simp [size.parse, RangeSpec.Valid]

/-- The bytes to send are those that the range selects, if there are any. -/
theorem clientText_spec (small : length < 2 ^ 64) (valid : spec.Valid) :
    clientText spec.text length = (spec.select length).filter fun range => range.start < range.stop := by
  cases spec with
  | int first last =>
    have there : first.chars.isEmpty = false := by simpa using first.there
    have least := first.small
    rw [clientText, split_int, RangeSpec.select]
    simp only [there, Bool.false_eq_true, if_false, first.parse]
    cases last with
    | none =>
      by_cases inside : first.value < length <;> simp [inside, Option.filter_some]
    | some last =>
      have more : last.chars.isEmpty = false := by simpa using last.there
      have order := valid last rfl
      simp only [Option.map_some, Option.getD_some, more, Bool.false_eq_true, if_false, last.parse]
      have stop : min (saturatingAdd last.value 1) length = min (last.value + 1) length := by
        simp only [saturatingAdd, maxU64]
        omega
      rw [stop]
      by_cases inside : first.value < length
      · have some : first.value < min (last.value + 1) length := by omega
        simp [inside, some, Option.filter_some]
      · simp [inside]
  | suffix size =>
    rw [clientText, split_suffix, RangeSpec.select]
    simp only [List.isEmpty_nil, if_true, size.parse]
    by_cases none : size.value = 0
    · simp [none]
    · by_cases empty : length = 0
      · simp [none, empty, Option.filter_some]
      · have some : length - size.value < length := by omega
        simp [none, some, Nat.pos_of_ne_zero none, Nat.pos_of_ne_zero empty, Option.filter_some]

/-! ## The range of a request -/

variable {M : Type*} [MultiMap HeaderName HeaderValue M] {headers : M} {policy : Policy}

/-- A requested range does not begin with the unit once more. -/
private theorem no_second_unit (requested : requestedText text = true) : ¬ bytesUnit <+: text := by
  rintro ⟨rest, rfl⟩
  have unit : bytesUnit = 'b' :: "ytes=".toList := by decide
  have letter (more : Text) : Text.parseU64 ('b' :: more) = none := by
    have unsigned : Text.stripPrefix ['+'] ('b' :: more) = none := if_neg (by simp)
    rw [Text.parseU64, unsigned, Option.getD_none]
    exact if_neg fun all => absurd (all.2.1 'b' (by simp)) (by decide)
  rw [requestedText, unit, List.cons_append] at requested
  split at requested
  · cases requested
  · rw [Text.splitOnce] at requested
    split at requested
    · rename_i none
      cases requested
    · rename_i start stop read
      split at read <;> cases read
      rw [List.takeWhile_cons_of_pos (by decide), if_neg (by simp), letter] at requested
      cases requested

theorem clientRange_of_requested (length : Nat) (requested : rangeRequested headers policy = true) :
    ∃ text, value headers .range = some (bytesUnit ++ text) ∧ requestedText text = true ∧
      clientRange headers policy length = clientText text length := by
  have asked := requested
  rw [rangeRequested] at requested
  split at requested
  · cases requested
  · split at requested
    · cases requested
    · rename_i text read
      obtain ⟨header, found, stripped⟩ := Option.bind_eq_some_iff.mp read
      rw [Text.stripPrefix_eq_some] at stripped
      subst stripped
      refine ⟨text, found, requested, ?_⟩
      rw [clientRange, asked, found, Option.getD_some,
        Text.trimStartMatches_append (by decide) (no_second_unit requested)]
      rfl

theorem clientText_bounds (requested : requestedText text = true) (answered : clientText text length = some range) :
    range.start < range.stop ∧ range.stop ≤ length := by
  rw [requestedText] at requested
  rw [clientText] at answered
  split at requested
  · cases requested
  · cases cut : Text.splitOnce '-' text with
    | none => simp [cut] at requested
    | some ends =>
      obtain ⟨start, stop⟩ := ends
      simp only [cut] at requested answered
      split at requested
      · rename_i suffix
        rw [if_pos suffix] at answered
        obtain ⟨size, read⟩ := Option.isSome_iff_exists.mp requested
        simp only [read] at answered
        split at answered <;> cases answered
        simp only
        omega
      · rename_i int
        rw [if_neg int] at answered
        obtain ⟨first, read, ends⟩ := (Option.any_eq_true ..).mp requested
        simp only [read] at answered
        cases open' : stop.isEmpty with
        | true =>
          simp only [open', if_true] at answered
          split at answered <;> cases answered
          simp only
          omega
        | false =>
          rw [open', Bool.false_or] at ends
          obtain ⟨last, read', -⟩ := (Option.any_eq_true ..).mp ends
          simp only [open', Bool.false_eq_true, if_false, read', Option.map_some] at answered
          split at answered <;> cases answered
          simp only
          omega

/-- A range that is not requested is the whole resource; one that is requested is
what it selects, where that is not empty; and the range of a partial response has
a last byte. -/
theorem clientRange_spec (headers : M) (policy : Policy) (small : length < 2 ^ 64) :
    (rangeRequested headers policy = false → clientRange headers policy length = some ⟨0, length⟩) ∧
      (∀ spec : RangeSpec, rangeRequested headers policy = true →
        value headers .range = some (bytesUnit ++ spec.text) →
          clientRange headers policy length =
            (spec.select length).filter fun range => range.start < range.stop) ∧
      ∀ range, clientRange headers policy length = some range →
        isPartial headers policy length range = true →
          range.start < range.stop ∧ range.stop ≤ length ∧
            contentRange range = some (range.start, range.stop - 1) := by
  refine ⟨fun whole => ?_, fun spec requested written => ?_, fun range answered part => ?_⟩
  · rw [clientRange, whole]
    rfl
  · obtain ⟨text, read, asked, same⟩ := clientRange_of_requested length requested
    have text : text = spec.text := List.append_cancel_left (Option.some.inj (read.symm.trans written))
    rw [same, text, clientText_spec small (requested_iff.mp (text ▸ asked))]
  · have requested : rangeRequested headers policy = true := by
      by_contra whole
      rw [Bool.not_eq_true] at whole
      rw [clientRange, whole] at answered
      cases answered
      simp [isPartial, whole] at part
    obtain ⟨text, -, asked, same⟩ := clientRange_of_requested length requested
    obtain ⟨some, inside⟩ := clientText_bounds asked (same.symm.trans answered)
    exact ⟨some, inside, if_neg (by omega)⟩

/-- `bytes=-5` -/
def lastFive : List (HeaderName × HeaderValue) := [(.range, ⟨"bytes=-5".toList, by decide⟩)]

def five : Digits := ⟨['5'], by decide, by decide, by decide⟩

def anyPolicy : Policy := ⟨0, 0, 0, false, true, none, none, none⟩

/-- A suffix of an empty resource can be satisfied, with no bytes, and is refused. -/
theorem empty_suffix_refused : rangeRequested lastFive anyPolicy = true ∧
    value lastFive .range = some (bytesUnit ++ (RangeSpec.suffix five).text) ∧
      (RangeSpec.suffix five).select 0 = some ⟨0, 0⟩ ∧ clientRange lastFive anyPolicy 0 = none := by
  decide

theorem last_five_bytes : clientRange lastFive anyPolicy 12 = some ⟨7, 12⟩ := by
  have selected := (clientRange_spec lastFive anyPolicy (by decide : 12 < 2 ^ 64)).2.1 (.suffix five)
    (by decide) (by decide)
  exact selected.trans (by decide)

end Qcm.ResourceRangeProofs
