import Qcm.Lib.Fallible
import Qcm.Lib.Text

/-!
Parsers that read the start of a text and leave the rest (the complete parsers
of the crate `nom`), with what they leave.

A parser stops with an error, which an alternative may follow, or it takes the
program down.  A loop has a limit on its turns that its text cannot reach, as
every turn shortens what is left (`many_eq`).
-/

namespace Qcm.Lib.Nom

/-- `nom::error::ErrorKind`, where one is made here. -/
inductive ErrorKind where
  | tag | digit | alpha | isA | isNot | crLf | many1
  deriving DecidableEq

/-- `ParseError`.  Of two errors the later one is kept, as `nom` does by default. -/
class ParseError (ε : Type) where
  fromErrorKind : Text → ErrorKind → ε

inductive Fault (ε : Type) where
  | error (error : ε)
  | panicked
  deriving DecidableEq

abbrev Parser (ε α : Type) := StateT Text (Except (Fault ε)) α

section
variable {ε α β γ : Type}

def fails (error : ε) : Parser ε α := fun _ => .error (.error error)

def panics : Parser ε α := fun _ => .error .panicked

/-- `alt` -/
def alt (first second : Parser ε α) : Parser ε α := fun text =>
  match first text with
  | .error (.error _) => second text
  | result => result

def opt (parser : Parser ε α) : Parser ε (Option α) := fun text =>
  match parser text with
  | .error (.error _) => .ok (none, text)
  | .error .panicked => .error .panicked
  | .ok (value, rest) => .ok (some value, rest)

def preceded (before : Parser ε α) (parser : Parser ε β) : Parser ε β := do
  let _ ← before
  parser

def delimited (before : Parser ε α) (parser : Parser ε β) (after : Parser ε γ) : Parser ε β := do
  let _ ← before
  let value ← parser
  let _ ← after
  return value

def separatedPair (left : Parser ε α) (between : Parser ε β) (right : Parser ε γ) : Parser ε (α × γ) := do
  let first ← left
  let _ ← between
  let second ← right
  return (first, second)

/-- The characters up to the first that fails a test, and none of them may do. -/
def taken0 (test : Char → Bool) : Parser ε Text := fun text => .ok (text.takeWhile test, text.dropWhile test)

def space0 : Parser ε Text := taken0 fun c => c == ' ' || c == '\t'

variable [ParseError ε]

/-- The characters up to the first that fails a test, and there is one. -/
def taken1 (kind : ErrorKind) (test : Char → Bool) : Parser ε Text := fun text =>
  if text.takeWhile test = [] then .error (.error (ParseError.fromErrorKind text kind))
  else .ok (text.takeWhile test, text.dropWhile test)

def digit1 : Parser ε Text := taken1 .digit Char.isDigit

def alpha1 : Parser ε Text := taken1 .alpha Char.isAlpha

def isA (set : Text) : Parser ε Text := taken1 .isA set.contains

def isNot (set : Text) : Parser ε Text := taken1 .isNot fun c => !set.contains c

def tag (word : Text) : Parser ε Text := fun text =>
  match Text.stripPrefix word text with
  | some rest => .ok (word, rest)
  | none => .error (.error (ParseError.fromErrorKind text .tag))

/-- `line_ending` -/
def lineEnding : Parser ε Text := fun text =>
  match text with
  | '\n' :: rest => .ok (['\n'], rest)
  | '\r' :: '\n' :: rest => .ok (['\r', '\n'], rest)
  | _ => .error (.error (ParseError.fromErrorKind text .crLf))

/-- `not_line_ending`: an error where a carriage return stands without a newline. -/
def notLineEnding : Parser ε Text := fun text =>
  let line := text.takeWhile fun c => c != '\r' && c != '\n'
  let rest := text.dropWhile fun c => c != '\r' && c != '\n'
  match rest with
  | '\r' :: '\n' :: _ => .ok (line, rest)
  | '\r' :: _ => .error (.error (ParseError.fromErrorKind text .tag))
  | _ => .ok (line, rest)

/-- The turns of `many1` behind the first. -/
def manyFrom (parser : Parser ε α) : Nat → Parser ε (List α)
  | 0, text => .ok ([], text)
  | fuel + 1, text =>
    match parser text with
    | .error (.error _) => .ok ([], text)
    | .error .panicked => .error .panicked
    | .ok (value, rest) =>
      if rest.length = text.length then .error (.error (ParseError.fromErrorKind text .many1))
      else
        match manyFrom parser fuel rest with
        | .error fault => .error fault
        | .ok (values, rest) => .ok (value :: values, rest)

def many (parser : Parser ε α) : Parser ε (List α) := fun text => manyFrom parser (text.length + 1) text

def many1 (parser : Parser ε α) : Parser ε (List α) := do
  let first ← parser
  let others ← many parser
  return first :: others

end

section
variable {ε α β γ : Type} {parser first second : Parser ε α} {text rest : Text} {value : α} {test : Char → Bool}

/-- What a parser leaves is the end of its text. -/
def Leaves (parser : Parser ε α) : Prop :=
  ∀ text value rest, parser text = .ok (value, rest) → rest <:+ text

/-- A parser that leaves less than there was. -/
def Advances (parser : Parser ε α) : Prop :=
  ∀ text value rest, parser text = .ok (value, rest) → rest <:+ text ∧ rest.length < text.length

theorem Advances.leaves (advances : Advances parser) : Leaves parser :=
  fun text value rest done => (advances text value rest done).1

theorem run_bind {next : α → Parser ε β} {final : β} :
    (parser >>= next) text = .ok (final, rest) ↔
      ∃ value middle, parser text = .ok (value, middle) ∧ next value middle = .ok (final, rest) := by
  refine bind_ok.trans ⟨fun ⟨⟨value, middle⟩, done, later⟩ => ⟨value, middle, done, later⟩, ?_⟩
  exact fun ⟨value, middle, done, later⟩ => ⟨(value, middle), done, later⟩

theorem run_pure {given : α} : (pure given : Parser ε α) text = .ok (value, rest) ↔ given = value ∧ text = rest := by
  simp [pure, StateT.pure, Except.pure]

theorem run_ite {condition : Prop} [Decidable condition]
    (done : (if condition then first else second) text = .ok (value, rest)) :
    first text = .ok (value, rest) ∨ second text = .ok (value, rest) := by
  by_cases holds : condition
  · rw [if_pos holds] at done
    exact .inl done
  · rw [if_neg holds] at done
    exact .inr done

theorem leaves_pure (value : α) : Leaves (pure value : Parser ε α) := by
  intro text given rest done
  obtain ⟨-, rfl⟩ := run_pure.mp done
  exact List.suffix_rfl

theorem Leaves.bind {next : α → Parser ε β} (leaves : Leaves parser) (others : ∀ value, Leaves (next value)) :
    Leaves (parser >>= next) := by
  intro text final rest done
  obtain ⟨value, middle, done, later⟩ := run_bind.mp done
  exact (others value middle final rest later).trans (leaves text value middle done)

theorem Advances.bind {next : α → Parser ε β} (advances : Advances parser) (others : ∀ value, Leaves (next value)) :
    Advances (parser >>= next) := by
  intro text final rest done
  obtain ⟨value, middle, done, later⟩ := run_bind.mp done
  obtain ⟨suffix, shorter⟩ := advances text value middle done
  have left := others value middle final rest later
  exact ⟨left.trans suffix, Nat.lt_of_le_of_lt left.length_le shorter⟩

theorem Leaves.advances_bind {next : α → Parser ε β} (leaves : Leaves parser)
    (others : ∀ value, Advances (next value)) : Advances (parser >>= next) := by
  intro text final rest done
  obtain ⟨value, middle, done, later⟩ := run_bind.mp done
  obtain ⟨suffix, shorter⟩ := others value middle final rest later
  have left := leaves text value middle done
  exact ⟨suffix.trans left, Nat.lt_of_lt_of_le shorter left.length_le⟩

theorem Leaves.ite {condition : Prop} [Decidable condition] (one : Leaves first) (other : Leaves second) :
    Leaves (if condition then first else second) :=
  fun text value rest done => (run_ite done).elim (one text value rest) (other text value rest)

theorem leaves_fails (error : ε) : Leaves (fails error : Parser ε α) := by
  intro text value rest done
  cases done

theorem leaves_panics : Leaves (panics : Parser ε α) := by
  intro text value rest done
  cases done

theorem Advances.alt (one : Advances first) (other : Advances second) : Advances (alt first second) := by
  intro text value rest done
  rw [Nom.alt] at done
  split at done
  · exact other text value rest done
  · exact one text value rest done

theorem Leaves.delimited {before : Parser ε β} {after : Parser ε γ} (opens : Leaves before) (leaves : Leaves parser)
    (closes : Leaves after) : Leaves (delimited before parser after) :=
  opens.bind fun _ => leaves.bind fun _ => closes.bind fun _ => leaves_pure _

theorem Advances.delimited {before : Parser ε β} {after : Parser ε γ} (opens : Advances before) (leaves : Leaves parser)
    (closes : Leaves after) : Advances (delimited before parser after) :=
  opens.bind fun _ => leaves.bind fun _ => closes.bind fun _ => leaves_pure _

theorem Leaves.separatedPair {between : Parser ε β} {right : Parser ε γ} (leaves : Leaves parser)
    (splits : Leaves between) (others : Leaves right) : Leaves (separatedPair parser between right) :=
  leaves.bind fun _ => splits.bind fun _ => others.bind fun _ => leaves_pure _

theorem leaves_get : Leaves (get : Parser ε Text) := by
  intro text value rest done
  cases done
  exact List.suffix_rfl

theorem leaves_taken0 : Leaves (taken0 test : Parser ε Text) := by
  intro text value rest done
  cases done
  exact List.dropWhile_suffix _

theorem leaves_space0 : Leaves (space0 : Parser ε Text) := leaves_taken0

theorem Leaves.opt (leaves : Leaves parser) : Leaves (opt parser) := by
  intro text value rest done
  rw [Nom.opt] at done
  split at done
  · cases done
    exact List.suffix_rfl
  · cases done
  · rename_i given left ran
    cases done
    exact leaves text given rest ran

variable [ParseError ε] {kind : ErrorKind} {word : Text}

theorem advances_taken1 : Advances (taken1 kind test : Parser ε Text) := by
  intro text value rest done
  rw [taken1] at done
  split at done <;> cases done
  rename_i some
  refine ⟨List.dropWhile_suffix _, ?_⟩
  have whole := congrArg List.length (List.takeWhile_append_dropWhile (p := test) (l := text))
  rw [List.length_append] at whole
  have positive := List.length_pos_iff.mpr some
  omega

theorem tag_ok {read : Text} :
    (tag word : Parser ε Text) text = .ok (read, rest) ↔ word = read ∧ text = word ++ rest := by
  rw [tag, ← Text.stripPrefix_eq_some]
  cases Text.stripPrefix word text <;> simp

theorem leaves_tag : Leaves (tag word : Parser ε Text) := by
  intro text read rest done
  obtain ⟨-, rfl⟩ := tag_ok.mp done
  exact List.suffix_append _ _

theorem advances_tag (some : word ≠ []) : Advances (tag word : Parser ε Text) := by
  intro text read rest done
  obtain ⟨-, rfl⟩ := tag_ok.mp done
  have positive := List.length_pos_iff.mpr some
  exact ⟨List.suffix_append _ _, by rw [List.length_append]; omega⟩

theorem advances_lineEnding : Advances (lineEnding : Parser ε Text) := by
  intro text read rest done
  unfold lineEnding at done
  split at done
  · cases done
    exact ⟨List.suffix_cons _ _, Nat.lt_succ_self _⟩
  · cases done
    exact ⟨(List.suffix_cons _ _).trans (List.suffix_cons _ _), Nat.lt_succ_of_lt (Nat.lt_succ_self _)⟩
  · cases done

/-- What `not_line_ending` stops at: the end of the text, or a line ending. -/
theorem notLineEnding_ok {line : Text} (done : (notLineEnding : Parser ε Text) text = .ok (line, rest)) :
    line ++ rest = text ∧ (rest = [] ∨ ∃ ending left, (lineEnding : Parser ε Text) rest = .ok (ending, left)) := by
  have whole := List.takeWhile_append_dropWhile (p := fun c => c != '\r' && c != '\n') (l := text)
  have first := List.head?_dropWhile_not (fun c => c != '\r' && c != '\n') text
  simp only [notLineEnding] at done
  generalize text.dropWhile (fun c => c != '\r' && c != '\n') = after at done whole first
  split at done
  · cases done
    exact ⟨whole, .inr ⟨_, _, rfl⟩⟩
  · cases done
  · rename_i newline bare
    cases done
    refine ⟨whole, ?_⟩
    obtain _ | ⟨c, rest⟩ := rest
    · exact .inl rfl
    · right
      rw [List.head?_cons] at first
      simp only [Bool.and_eq_false_iff, bne_eq_false_iff_eq] at first
      obtain rfl | rfl := first
      · exact absurd rfl (bare rest)
      · exact ⟨_, _, rfl⟩

theorem leaves_notLineEnding : Leaves (notLineEnding : Parser ε Text) := by
  intro text line rest done
  obtain ⟨rfl, -⟩ := notLineEnding_ok done
  exact List.suffix_append _ _

/-- With enough turns, how many there may be does not matter. -/
theorem manyFrom_fuel (leaves : Leaves parser) {fuel more : Nat} :
    text.length < fuel → text.length < more → manyFrom parser fuel text = manyFrom parser more text := by
  induction fuel generalizing text more with
  | zero => exact fun none => absurd none (Nat.not_lt_zero _)
  | succ fuel ih =>
    intro enough also
    obtain _ | more := more
    · exact absurd also (Nat.not_lt_zero _)
    rw [manyFrom, manyFrom]
    split
    · rfl
    · rfl
    · rename_i value rest ran
      split_ifs with same
      · rfl
      · have shorter := (leaves _ _ _ ran).length_le
        rw [ih (show rest.length < fuel by omega) (show rest.length < more by omega)]

/-- The loop of `many1`: it ends at the first error, and a turn that reads
nothing is one. -/
theorem many_eq (leaves : Leaves parser) :
    many parser text = match parser text with
      | .error (.error _) => .ok ([], text)
      | .error .panicked => .error .panicked
      | .ok (value, rest) =>
        if rest.length = text.length then .error (.error (ParseError.fromErrorKind text .many1))
        else match many parser rest with
          | .error fault => .error fault
          | .ok (values, rest) => .ok (value :: values, rest) := by
  rw [many, manyFrom]
  split
  · rfl
  · rfl
  · rename_i value rest ran
    split_ifs with same
    · rfl
    · have shorter := (leaves _ _ _ ran).length_le
      rw [many, manyFrom_fuel leaves (by omega : rest.length < text.length) (Nat.lt_succ_self _)]

theorem leaves_manyFrom (leaves : Leaves parser) (fuel : Nat) : Leaves (manyFrom parser fuel) := by
  induction fuel with
  | zero => exact leaves_pure []
  | succ fuel ih =>
    intro text values rest done
    rw [manyFrom] at done
    split at done
    · cases done
      exact List.suffix_rfl
    · cases done
    · rename_i value middle ran
      split_ifs at done
      split at done <;> cases done
      rename_i others left later
      exact (ih _ _ _ later).trans (leaves _ _ _ ran)

theorem Advances.many1 (advances : Advances parser) : Advances (many1 parser) := by
  refine advances.bind fun first => Leaves.bind ?_ fun others => leaves_pure _
  exact fun text => leaves_manyFrom advances.leaves _ text

/-- `many1` reads one value at least. -/
theorem many1_some {values : List α} (done : Nom.many1 parser text = .ok (values, rest)) : values ≠ [] := by
  obtain ⟨first, _, -, later⟩ := run_bind.mp done
  obtain ⟨others, _, -, last⟩ := run_bind.mp later
  obtain ⟨rfl, -⟩ := run_pure.mp last
  exact List.cons_ne_nil _ _

end

end Qcm.Lib.Nom
