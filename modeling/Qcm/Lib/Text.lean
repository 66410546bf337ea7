import Mathlib

/-!
Text as a list of characters, with the operations of Rust's `str` on it.
Where Rust returns a slice, the characters of the slice are returned.
-/

namespace Qcm.Lib

abbrev Text := List Char

namespace Text

/-- The characters of the text are tried, not all characters. -/
instance (priority := high) decidableForallMem (p : Char → Prop) [DecidablePred p] (text : Text) :
    Decidable (∀ c ∈ text, p c) :=
  List.decidableBAll p text

/-- `char::is_whitespace`: the property `White_Space`. -/
def isWhitespace (c : Char) : Bool :=
  let n := c.toNat
  (0x09 ≤ n && n ≤ 0x0D) || n == 0x20 || n == 0x85 || n == 0xA0 || n == 0x1680 ||
    (0x2000 ≤ n && n ≤ 0x200A) || n == 0x2028 || n == 0x2029 || n == 0x202F || n == 0x205F ||
    n == 0x3000

def trimStart (text : Text) : Text := text.dropWhile isWhitespace

def trimEnd (text : Text) : Text := text.rdropWhile isWhitespace

def trim (text : Text) : Text := trimEnd (trimStart text)

/-- `split_once`, at the first separator. -/
def splitOnce (separator : Char) (text : Text) : Option (Text × Text) :=
  if separator ∈ text then
    some (text.takeWhile (· != separator), (text.dropWhile (· != separator)).tail)
  else none

def stripPrefix (start text : Text) : Option Text :=
  if start <+: text then some (text.drop start.length) else none

/-- `trim_start_matches` of a pattern that is not empty: as often as it stands there. -/
def trimStartMatches (pattern text : Text) : Text := go text.length text where
  go : Nat → Text → Text
    | 0, text => text
    | fuel + 1, text => if pattern <+: text then go fuel (text.drop pattern.length) else text

/-- `trim_matches` of one character. -/
def trimMatches (c : Char) (text : Text) : Text :=
  (text.dropWhile (· == c)).rdropWhile (· == c)

def toAsciiLowercase (text : Text) : Text := text.map Char.toLower

def eqIgnoreAsciiCase (left right : Text) : Bool := toAsciiLowercase left == toAsciiLowercase right

/-- What a string of digits stands for. -/
def digitsValue (text : Text) : Nat := text.foldl (fun n c => 10 * n + (c.toNat - 48)) 0

/-- `parse::<u64>`: digits, after a plus sign or none. -/
def parseU64 (text : Text) : Option Nat :=
  let digits := (stripPrefix ['+'] text).getD text
  if digits ≠ [] ∧ (∀ c ∈ digits, c.isDigit = true) ∧ digitsValue digits < 2 ^ 64 then
    some (digitsValue digits)
  else none

/-- `parse::<i64>`: digits, after a sign or none. -/
def parseI64 (text : Text) : Option Int :=
  let (negative, digits) :=
    match text with
    | '-' :: digits => (true, digits)
    | '+' :: digits => (false, digits)
    | digits => (false, digits)
  if digits ≠ [] ∧ ∀ c ∈ digits, c.isDigit = true then
    let value : Int := if negative then -(digitsValue digits : Int) else digitsValue digits
    if -2 ^ 63 ≤ value ∧ value < 2 ^ 63 then some value else none
  else none

theorem toNat_toLower (c : Char) :
    c.toLower.toNat = if 65 ≤ c.toNat ∧ c.toNat ≤ 90 then c.toNat + 32 else c.toNat := by
  unfold Char.toLower
  simp only [ge_iff_le, UInt32.le_iff_toNat_le]
  split
  · rename_i upper
    have room : c.val.toNat + 32 < 2 ^ 32 := lt_of_le_of_lt (Nat.add_le_add_right upper.2 32) (by decide)
    exact ((UInt32.toNat_add ..).trans (Nat.mod_eq_of_lt room)).trans (if_pos upper).symm
  · rename_i other
    exact (if_neg other).symm

variable {text before after : Text} {c separator : Char} {p : Char → Bool}

theorem splitOnce_absent (absent : separator ∉ text) : splitOnce separator text = none := if_neg absent

/-- The first separator is the one before which there is none. -/
theorem splitOnce_append (absent : separator ∉ before) :
    splitOnce separator (before ++ separator :: after) = some (before, after) := by
  have others : ∀ c ∈ before, (c != separator) = true := fun c member =>
    bne_iff_ne.mpr fun same => absent (same ▸ member)
  rw [splitOnce, if_pos (by simp), List.takeWhile_append_of_pos others, List.dropWhile_append_of_pos others]
  simp

theorem stripPrefix_eq_some {start rest : Text} : stripPrefix start text = some rest ↔ text = start ++ rest := by
  rw [stripPrefix]
  constructor
  · intro read
    split at read
    · rename_i leads
      obtain ⟨more, rfl⟩ := leads
      cases read
      simp
    · cases read
  · rintro rfl
    simp

variable {pattern piece joint : Text} {pieces : List Text}

theorem trimStartMatches_self (absent : ¬ pattern <+: text) : trimStartMatches pattern text = text := by
  rw [trimStartMatches]
  cases text.length with
  | zero => rfl
  | succ n => rw [trimStartMatches.go, if_neg absent]

/-- The pattern is taken away once where it does not follow itself. -/
theorem trimStartMatches_append (some : pattern ≠ []) (absent : ¬ pattern <+: text) :
    trimStartMatches pattern (pattern ++ text) = text := by
  obtain ⟨n, size⟩ : ∃ n, (pattern ++ text).length = n + 1 := by
    cases pattern with
    | nil => exact absurd rfl some
    | cons c rest => exact ⟨(rest ++ text).length, rfl⟩
  rw [trimStartMatches, size, trimStartMatches.go, if_pos (List.prefix_append _ _), List.drop_left]
  cases n with
  | zero => rfl
  | succ n => rw [trimStartMatches.go, if_neg absent]

theorem rdropWhile_append (pass : ∀ c ∈ after, p c = true) :
    (text ++ after).rdropWhile p = text.rdropWhile p := by
  rw [List.rdropWhile, List.reverse_append, List.dropWhile_append_of_pos, List.rdropWhile]
  intro c member
  exact pass c (List.mem_reverse.mp member)

/-- Whitespace around a text is trimmed away. -/
theorem trim_padded (left : ∀ c ∈ before, isWhitespace c = true)
    (right : ∀ c ∈ after, isWhitespace c = true) : trim (before ++ (text ++ after)) = trim text := by
  rw [trim, trimStart, List.dropWhile_append_of_pos left]
  by_cases blank : ∀ c ∈ text, isWhitespace c = true
  · have all : ∀ c ∈ text ++ after, isWhitespace c = true := fun c member =>
      (List.mem_append.mp member).elim (blank c) (right c)
    rw [trim, trimStart, List.dropWhile_eq_nil_iff.mpr all, List.dropWhile_eq_nil_iff.mpr blank]
  · have more : text.dropWhile isWhitespace ≠ [] := fun gone =>
      blank (List.dropWhile_eq_nil_iff.mp gone)
    rw [List.dropWhile_append, if_neg (by simpa using more), trimEnd, rdropWhile_append right]
    rfl

/-- A text without whitespace at its ends stays as it is. -/
theorem trim_tight {first last : Char} (head : text.head? = some first) (foot : text.getLast? = some last)
    (starts : isWhitespace first = false) (ends : isWhitespace last = false) : trim text = text := by
  obtain ⟨rest, rfl⟩ : ∃ rest, text = first :: rest := by
    cases text with
    | nil => cases head
    | cons c rest => exact ⟨rest, by simpa using head⟩
  have start : trimStart (first :: rest) = first :: rest := by simp [trimStart, starts]
  rw [trim, start, trimEnd, List.rdropWhile_eq_self_iff]
  intro there
  rw [List.getLast?_eq_some_getLast there, Option.some.injEq] at foot
  simp [foot, ends]

/-- So does a text without any. -/
theorem trim_solid (solid : ∀ c ∈ text, isWhitespace c = false) : trim text = text := by
  cases head : text.head? with
  | none =>
    rw [List.head?_eq_none_iff.mp head]
    rfl
  | some first =>
    obtain ⟨last, foot⟩ : ∃ last, text.getLast? = some last := by
      cases foot : text.getLast? with
      | none => simp [List.getLast?_eq_none_iff.mp foot] at head
      | some last => exact ⟨last, rfl⟩
    exact trim_tight head foot (solid first (List.mem_of_mem_head? head))
      (solid last (List.mem_of_mem_getLast? foot))

/-- What is trimmed away is whitespace. -/
theorem exists_padding (text : Text) : ∃ before after, before ++ (trim text ++ after) = text ∧
    (∀ c ∈ before, isWhitespace c = true) ∧ (∀ c ∈ after, isWhitespace c = true) := by
  refine ⟨text.takeWhile isWhitespace, (trimStart text).rtakeWhile isWhitespace, ?_, ?_, ?_⟩
  · rw [trim, trimEnd, List.rdropWhile_append_rtakeWhile, trimStart, List.takeWhile_append_dropWhile]
  · exact fun c member => List.mem_takeWhile_imp member
  · exact fun c member => List.mem_rtakeWhile_imp member

theorem sublist_intercalate (inside : piece ∈ pieces) : piece.Sublist (joint.intercalate pieces) := by
  induction pieces with
  | nil => cases inside
  | cons first rest ih =>
    obtain rfl | later := List.mem_cons.mp inside
    · by_cases alone : rest = []
      · simp [alone]
      · rw [List.intercalate_cons_of_ne_nil alone, List.append_assoc]
        exact List.sublist_append_left _ _
    · rw [List.intercalate_cons_of_ne_nil (List.ne_nil_of_mem later)]
      exact (ih later).trans (List.sublist_append_right _ _)

theorem of_mem_intercalate (member : c ∈ joint.intercalate pieces) : c ∈ joint ∨ ∃ piece ∈ pieces, c ∈ piece := by
  induction pieces with
  | nil => cases member
  | cons first rest ih =>
    by_cases alone : rest = []
    · subst alone
      exact .inr ⟨first, by simp, by simpa using member⟩
    · rw [List.intercalate_cons_of_ne_nil alone, List.mem_append, List.mem_append] at member
      obtain (here | joint) | later := member
      · exact .inr ⟨first, by simp, here⟩
      · exact .inl joint
      · exact (ih later).imp id fun ⟨piece, inside, member⟩ => ⟨piece, .tail _ inside, member⟩

/-- The pieces of a text are made of its characters, in their order. -/
theorem sublist_of_mem_splitOn (inside : piece ∈ text.splitOn separator) : piece.Sublist text := by
  have sublist : piece.Sublist ([separator].intercalate (text.splitOn separator)) := sublist_intercalate inside
  rwa [List.intercalate_splitOn] at sublist

end Text

end Qcm.Lib
