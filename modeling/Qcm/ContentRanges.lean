import Qcm.Lib.Text

/-!
The text of a content range, and what is read as one (`HttpContentRange` in
`backend/main/src/http/range.rs`).

The parser cuts the text at blanks and at slashes alike, and its numbers may have
a plus sign: it reads what is written, and more.
-/

namespace Qcm.ContentRanges

open Lib

structure HttpContentRange where
  start : UInt64
  stop : UInt64
  full : UInt64
deriving DecidableEq

/-- `bytes` -/
def unit : Text := ['b', 'y', 't', 'e', 's']

/-- A number as it is written. -/
def digits (n : UInt64) : Text := Nat.toDigits 10 n.toNat

/-- `HttpContentRange::fmt` -/
def HttpContentRange.text (range : HttpContentRange) : Text :=
  unit ++ ' ' :: (digits range.start ++ '-' :: (digits range.stop ++ '/' :: digits range.full))

/-- `parse::<u64>` -/
def number (text : Text) : Option UInt64 := (Text.parseU64 text).map UInt64.ofNat

def isSeparator (c : Char) : Bool := c == '/' || c == ' '

def parseContentRange (s : Text) : Option HttpContentRange :=
  match s.splitOnP isSeparator with
  | [word, range, full] =>
    if word = unit then
      match range.splitOnP (· == '-') with
      | [start, stop] =>
        match number start, number stop, number full with
        | some start, some stop, some full => some ⟨start, stop, full⟩
        | _, _, _ => none
      | _ => none
    else none
  | _ => none

/-- A number that is written in digits, with zeros in front or none. -/
def Written (text : Text) (n : UInt64) : Prop :=
  text ≠ [] ∧ (∀ c ∈ text, c.isDigit = true) ∧ Text.digitsValue text = n.toNat

/-- The text is that of the content range, up to zeros in front of its numbers. -/
def Reads (s : Text) (range : HttpContentRange) : Prop :=
  ∃ x y z, s = unit ++ ' ' :: (x ++ '-' :: (y ++ '/' :: z)) ∧
    Written x range.start ∧ Written y range.stop ∧ Written z range.full

/-- The text has the parts of a content range, but another separator or a number with a plus sign. -/
def Loose (s : Text) : Prop :=
  ∃ c d x y z, isSeparator c = true ∧ isSeparator d = true ∧ s = unit ++ c :: (x ++ '-' :: (y ++ d :: z)) ∧
      (number x).isSome ∧ (number y).isSome ∧ (number z).isSome ∧ ¬ (c = ' ' ∧ d = '/' ∧ '+' ∉ x ++ (y ++ z))

variable {s text x y z word before after rest : Text} {range : HttpContentRange} {n : UInt64} {c d : Char}
  {p : Char → Bool} {pieces : List Text}

/-- The first piece goes up to the first separator. -/
theorem splitOnP_cons (split : s.splitOnP p = word :: pieces) :
    pieces = [] ∧ s = word ∨ ∃ c rest, p c = true ∧ s = word ++ c :: rest ∧ rest.splitOnP p = pieces := by
  have whole := List.takeWhile_append_dropWhile (p := fun c => !p c) (l := s)
  have free : ∀ c ∈ s.takeWhile fun c => !p c, p c = false := fun c member => by
    simpa using List.mem_takeWhile_imp member
  have first := List.head?_dropWhile_not (fun c => !p c) s
  generalize s.takeWhile (fun c => !p c) = front at whole free
  cases left : s.dropWhile fun c => !p c with
  | nil =>
    rw [left, List.append_nil] at whole
    rw [← whole, List.splitOnP_eq_singleton free] at split
    cases split
    exact Or.inl ⟨rfl, whole.symm⟩
  | cons c rest =>
    rw [left] at whole first
    have here : p c = true := by simpa using first
    rw [← whole, List.splitOnP_append_cons_of_forall_mem free c here rest] at split
    cases split
    exact Or.inr ⟨c, rest, here, whole.symm, rfl⟩

theorem splitOnP_two (free : ∀ c ∈ x, p c = false) (here : p d = true) (also : ∀ c ∈ y, p c = false) :
    (x ++ d :: y).splitOnP p = [x, y] := by
  rw [List.splitOnP_append_cons_of_forall_mem free d here, List.splitOnP_eq_singleton also]

/-- A text falls apart at its first separator in one way. -/
theorem append_cons_inj (same : x ++ c :: before = y ++ d :: after) (free : ∀ c ∈ x, p c = false) (here : p c = true)
    (also : ∀ c ∈ y, p c = false) (there : p d = true) : x = y ∧ c = d ∧ before = after := by
  have one : (x ++ c :: before).takeWhile (fun c => !p c) = x ++ (c :: before).takeWhile fun c => !p c :=
    List.takeWhile_append_of_pos (by simpa using free)
  have two : (y ++ d :: after).takeWhile (fun c => !p c) = y ++ (d :: after).takeWhile fun c => !p c :=
    List.takeWhile_append_of_pos (by simpa using also)
  rw [same, two] at one
  simp only [here, there, List.takeWhile_cons, Bool.not_true, Bool.false_eq_true, if_false, List.append_nil] at one
  subst one
  simpa using List.append_cancel_left same

theorem number_written (written : Written text n) : number text = some n := by
  obtain ⟨some, all, value⟩ := written
  have unsigned : Text.stripPrefix ['+'] text = none := by
    refine if_neg ?_
    rintro ⟨rest, rfl⟩
    exact absurd (all '+' (by simp)) (by decide)
  rw [number, Text.parseU64, unsigned, Option.getD_none, if_pos ⟨some, all, value ▸ n.toNat_lt⟩, Option.map_some, value,
    UInt64.ofNat_toNat]

/-- A number that is read has digits only, behind a plus sign or none. -/
theorem number_some (read : number text = some n) :
    ∃ digits, Written digits n ∧ (text = digits ∨ text = '+' :: digits) := by
  obtain ⟨value, parsed, rfl⟩ := Option.map_eq_some_iff.mp read
  unfold Text.parseU64 at parsed
  dsimp only at parsed
  split at parsed <;> cases parsed
  rename_i valid
  refine ⟨_, ⟨valid.1, valid.2.1, (UInt64.toNat_ofNat_of_lt' valid.2.2).symm⟩, ?_⟩
  cases sign : Text.stripPrefix ['+'] text with
  | none => exact Or.inl rfl
  | some rest => exact Or.inr (Text.stripPrefix_eq_some.mp sign)

theorem number_free (read : number text = some n) : ∀ c ∈ text, isSeparator c = false ∧ (c == '-') = false := by
  obtain ⟨digits, ⟨-, all, -⟩, signed⟩ := number_some read
  have apart : ∀ c : Char, c.isDigit = true → isSeparator c = false ∧ (c == '-') = false := by
    intro c digit
    have low : c ≠ '/' ∧ c ≠ ' ' ∧ c ≠ '-' := by
      refine ⟨?_, ?_, ?_⟩ <;> rintro rfl <;> exact absurd digit (by decide)
    simp [isSeparator, low]
  intro c member
  obtain rfl | rfl := signed
  · exact apart c (all c member)
  · obtain rfl | member := List.mem_cons.mp member
    · decide
    · exact apart c (all c member)

theorem written_digits (n : UInt64) : Written (digits n) n :=
  ⟨Nat.toDigits_ne_nil, fun _ member => Nat.isDigit_of_mem_toDigits (by decide) (by decide) member,
    Nat.ofDigitChars_ten_toDigits⟩

/-- What the parser reads: three numbers, with a hyphen and two separators. -/
theorem parse_iff : parseContentRange s = some range ↔ ∃ c d x y z, isSeparator c = true ∧ isSeparator d = true ∧
    s = unit ++ c :: (x ++ '-' :: (y ++ d :: z)) ∧
      number x = some range.start ∧ number y = some range.stop ∧ number z = some range.full := by
  constructor
  · intro parsed
    unfold parseContentRange at parsed
    split at parsed
    swap
    · cases parsed
    rename_i word span full split
    split at parsed
    swap
    · cases parsed
    rename_i same
    subst same
    split at parsed
    swap
    · cases parsed
    rename_i start stop halves
    split at parsed <;> cases parsed
    rename_i first last whole
    obtain ⟨none, -⟩ | ⟨c, behind, one, rfl, tail⟩ := splitOnP_cons split
    · cases none
    obtain ⟨none, -⟩ | ⟨d, final, two, rfl, ending⟩ := splitOnP_cons tail
    · cases none
    obtain ⟨-, rfl⟩ | ⟨_, _, -, -, empty⟩ := splitOnP_cons ending
    swap
    · exact absurd empty (List.splitOnP_ne_nil _ _)
    obtain ⟨none, -⟩ | ⟨dash, upper, hyphen, rfl, half⟩ := splitOnP_cons halves
    · cases none
    obtain ⟨-, rfl⟩ | ⟨_, _, -, -, empty⟩ := splitOnP_cons half
    swap
    · exact absurd empty (List.splitOnP_ne_nil _ _)
    cases beq_iff_eq.mp hyphen
    exact ⟨c, d, _, _, _, one, two, by simp, first, last, whole⟩
  · rintro ⟨c, d, x, y, z, one, two, rfl, first, last, whole⟩
    have free : ∀ e ∈ x ++ '-' :: y, isSeparator e = false := by
      simp only [List.mem_append, List.mem_cons]
      rintro e (member | rfl | member)
      · exact (number_free first e member).1
      · decide
      · exact (number_free last e member).1
    have split : (unit ++ c :: ((x ++ '-' :: y) ++ d :: z)).splitOnP isSeparator = [unit, x ++ '-' :: y, z] := by
      rw [List.splitOnP_append_cons_of_forall_mem (by decide) c one,
        splitOnP_two free two fun e member => (number_free whole e member).1]
    rw [List.append_assoc, List.cons_append] at split
    have halves : (x ++ '-' :: y).splitOnP (· == '-') = [x, y] :=
      splitOnP_two (fun e member => (number_free first e member).2) rfl fun e member => (number_free last e member).2
    simp only [parseContentRange, split, if_true, halves, first, last, whole]

theorem reads_of_strict (first : number x = some range.start) (last : number y = some range.stop)
    (whole : number z = some range.full) (plain : '+' ∉ x ++ (y ++ z)) :
    Reads (unit ++ ' ' :: (x ++ '-' :: (y ++ '/' :: z))) range := by
  have written : ∀ {text n}, number text = some n → '+' ∉ text → Written text n := by
    intro text n read none
    obtain ⟨digits, written, rfl | rfl⟩ := number_some read
    · exact written
    · exact absurd (List.mem_cons_self ..) none
  simp only [List.mem_append, not_or] at plain
  exact ⟨x, y, z, rfl, written first plain.1, written last plain.2.1, written whole plain.2.2⟩

/-- What is written is read again; and what is read is that text exactly where it is not a loose one. -/
theorem content_range_round_trip (s : List Char) :
    (∀ range : HttpContentRange, parseContentRange range.text = some range) ∧
      ((∀ range, parseContentRange s = some range → Reads s range) ↔ ¬ Loose s) := by
  refine ⟨fun range => parse_iff.mpr ⟨' ', '/', _, _, _, rfl, rfl, rfl, number_written (written_digits _),
    number_written (written_digits _), number_written (written_digits _)⟩, ?_, fun strict range parsed => ?_⟩
  · rintro all ⟨c, d, x, y, z, one, two, same, first, last, whole, loose⟩
    obtain ⟨start, first⟩ := Option.isSome_iff_exists.mp first
    obtain ⟨stop, last⟩ := Option.isSome_iff_exists.mp last
    obtain ⟨full, whole⟩ := Option.isSome_iff_exists.mp whole
    obtain ⟨x', y', z', again, one', two', three'⟩ := all ⟨start, stop, full⟩ (parse_iff.mpr
      ⟨c, d, x, y, z, one, two, same, first, last, whole⟩)
    have others := number_free (number_written one')
    have more := number_free (number_written two')
    rw [same] at again
    have rest := List.append_cancel_left again
    rw [List.cons.injEq] at rest
    obtain ⟨rfl, -, rest⟩ := append_cons_inj rest.2 (fun e member => (number_free first e member).2) rfl
      (fun e member => (others e member).2) rfl
    obtain ⟨rfl, rfl, rfl⟩ := append_cons_inj rest (fun e member => (number_free last e member).1) two
      (fun e member => (more e member).1) rfl
    have unsigned : ∀ {text n}, Written text n → '+' ∉ text := fun written member =>
      absurd (written.2.1 _ member) (by decide)
    refine loose ⟨by simpa using again, rfl, ?_⟩
    simp only [List.mem_append, not_or]
    exact ⟨unsigned one', unsigned two', unsigned three'⟩
  · obtain ⟨c, d, x, y, z, one, two, rfl, first, last, whole⟩ := parse_iff.mp parsed
    by_cases tight : c = ' ' ∧ d = '/' ∧ '+' ∉ x ++ (y ++ z)
    · obtain ⟨rfl, rfl, plain⟩ := tight
      exact reads_of_strict first last whole plain
    · exact absurd ⟨c, d, x, y, z, one, two, rfl, by simp [first], by simp [last], by simp [whole], tight⟩ strict

/-- A slash stands where the blank belongs, and a blank where the slash does. -/
theorem loose_content_range : ¬ ∀ s range, parseContentRange s = some range → Reads s range := by
  intro claim
  obtain ⟨x, y, z, same, -⟩ := claim (unit ++ '/' :: ['0', '-', '1', ' ', '2']) ⟨0, 1, 2⟩
    (parse_iff.mpr ⟨'/', ' ', ['0'], ['1'], ['2'], rfl, rfl, rfl, rfl, rfl, rfl⟩)
  simp [unit] at same

end Qcm.ContentRanges
