import Qcm.Lib.Text

/-!
Field values of RFC 9110: characters, tokens, quoted strings, entity tags and
comma-separated lists, each with the text it is written as.  An octet is the
character of its code.
-/

namespace Qcm.Lib.HttpField

/-- A character of a token. -/
def isTchar (c : Char) : Bool := c.isAlphanum || c ∈ "!#$%&'*+-.^_`|~".toList

def isVchar (c : Char) : Bool := 0x21 ≤ c.toNat && c.toNat ≤ 0x7E

def isObsText (c : Char) : Bool := 0x80 ≤ c.toNat && c.toNat ≤ 0xFF

/-- Optional whitespace is made of these. -/
def isOws (c : Char) : Bool := c == ' ' || c == '\t'

/-- What may stand in a text that is visible ASCII. -/
def isVisible (c : Char) : Bool := isVchar c || isOws c

/-- What may stand in a field value. -/
def isFieldChar (c : Char) : Bool := isVisible c || isObsText c

variable {c : Char}

theorem isVchar_of_isTchar (tchar : isTchar c = true) : isVchar c = true := by
  simp only [isTchar, Bool.or_eq_true, decide_eq_true_eq] at tchar
  obtain alphanum | special := tchar
  · simp only [Char.isAlphanum, Char.isAlpha, Char.isUpper, Char.isLower, Char.isDigit,
      Bool.or_eq_true, Bool.and_eq_true, decide_eq_true_eq, ge_iff_le, UInt32.le_iff_toNat_le] at alphanum
    simp only [isVchar, Bool.and_eq_true, decide_eq_true_eq, Char.toNat]
    obtain (upper | lower) | digit := alphanum
    · exact ⟨le_trans (by decide) upper.1, le_trans upper.2 (by decide)⟩
    · exact ⟨le_trans (by decide) lower.1, le_trans lower.2 (by decide)⟩
    · exact ⟨le_trans (by decide) digit.1, le_trans digit.2 (by decide)⟩
  · revert special
    revert c
    decide

theorem isVisible_of_isVchar (vchar : isVchar c = true) : isVisible c = true := by
  rw [isVisible, vchar, Bool.true_or]

theorem isWhitespace_of_isOws (ows : isOws c = true) : Text.isWhitespace c = true := by
  simp only [isOws, Bool.or_eq_true, beq_iff_eq] at ows
  obtain rfl | rfl := ows <;> decide

/-- Of the visible characters only blanks and tabs are whitespace. -/
theorem isOws_of_isWhitespace (visible : isVisible c = true) (space : Text.isWhitespace c = true) :
    isOws c = true := by
  simp only [isVisible, isVchar, Bool.or_eq_true, Bool.and_eq_true, decide_eq_true_eq] at visible
  obtain vchar | ows := visible
  · simp only [Text.isWhitespace, Bool.or_eq_true, Bool.and_eq_true, decide_eq_true_eq, beq_iff_eq] at space
    omega
  · exact ows

theorem not_isWhitespace_of_isVchar (vchar : isVchar c = true) : Text.isWhitespace c = false := by
  simp only [isVchar, Bool.and_eq_true, decide_eq_true_eq] at vchar
  simp only [Text.isWhitespace, Bool.or_eq_false_iff, Bool.and_eq_false_iff, decide_eq_false_iff_not,
    beq_eq_false_iff_ne]
  omega

structure Token where
  chars : Text
  there : chars ≠ []
  tchars : ∀ c ∈ chars, isTchar c = true

/-- What may stand for itself in a quoted string. -/
def isQdText (c : Char) : Bool := isFieldChar c && c != '"' && c != '\\'

/-- A character of a quoted string, or one behind a backslash. -/
inductive QuotedItem where
  | plain (c : Char) (valid : isQdText c = true)
  | escaped (c : Char) (valid : isFieldChar c = true)

def QuotedItem.text : QuotedItem → Text
  | .plain c _ => [c]
  | .escaped c _ => ['\\', c]

/-- The character it stands for. -/
def QuotedItem.char : QuotedItem → Char
  | .plain c _ => c
  | .escaped c _ => c

def quotedText (items : List QuotedItem) : Text := '"' :: (items.flatMap QuotedItem.text ++ ['"'])

/-- What may stand in an entity tag, blanks included. -/
def isTagChar (c : Char) : Bool := isFieldChar c && c != '"'

structure EntityTag where
  weak : Bool
  chars : Text
  valid : ∀ c ∈ chars, isTagChar c = true

/-- The tag without its weakness. -/
def EntityTag.quoted (tag : EntityTag) : Text := '"' :: (tag.chars ++ ['"'])

def EntityTag.text (tag : EntityTag) : Text := (if tag.weak then ['W', '/'] else []) ++ tag.quoted

/-- A place of a comma-separated list: an element, or nothing, in whitespace. -/
structure Place (α : Type*) where
  before : Text
  element : Option α
  after : Text
  leads : ∀ c ∈ before, isOws c = true
  trails : ∀ c ∈ after, isOws c = true

def Place.text {α : Type*} (shown : α → Text) (place : Place α) : Text :=
  place.before ++ ((place.element.map shown).getD [] ++ place.after)

/-- A list as it is written. -/
def listText {α : Type*} (shown : α → Text) (places : List (Place α)) : Text :=
  [','].intercalate (places.map (Place.text shown))

/-- The elements of a list. -/
def elements {α : Type*} (places : List (Place α)) : List α := places.filterMap Place.element

end Qcm.Lib.HttpField
