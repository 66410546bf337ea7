import Qcm.Lib.NomPanics
import Qcm.LyricDecimals
import Qcm.LyricProofs

/-!
The parser of lyrics ends on every document, and takes the program down on those
with a timestamp that is too large for the decimals.
-/

namespace Qcm.LyricTotalProofs

open Lib Lib.Nom LyricParser LyricProofs LyricDecimals

variable {decimals : Decimals} {value : decimals.Decimal → ℚ} {n1 n2 n3 : Text}

/-! ## Timestamps -/

/-- The numbers of a timestamp. -/
def numbers : Parser Error (Text × Text × Text) :=
  separatedPair numStr (tag [':']) (separatedPair numStr (isA [':', '.']) numStr)

def Digits (text : Text) : Prop := text ≠ [] ∧ ∀ c ∈ text, c.isDigit = true

variable {input text rest : Text}

variable {min sec fraction : decimals.Decimal}

theorem numStr_digits {number : Text} (read : numStr text = .ok (number, rest)) : Digits number := by
  obtain ⟨_, _, -, read⟩ := run_bind.mp read
  obtain ⟨found, _, taken, read⟩ := run_bind.mp read
  obtain ⟨_, _, -, last⟩ := run_bind.mp read
  obtain ⟨rfl, -⟩ := run_pure.mp last
  rw [digit1, taken1] at taken
  split at taken <;> cases taken
  exact ⟨‹_›, fun c member => List.mem_takeWhile_imp member⟩

theorem numbers_digits (read : numbers text = .ok ((n1, n2, n3), rest)) : Digits n1 ∧ Digits n2 ∧ Digits n3 := by
  obtain ⟨first, _, read1, read⟩ := run_bind.mp read
  obtain ⟨_, _, -, read⟩ := run_bind.mp read
  obtain ⟨⟨second, third⟩, _, others, last⟩ := run_bind.mp read
  cases (run_pure.mp last).1
  obtain ⟨second, _, read2, others⟩ := run_bind.mp others
  obtain ⟨_, _, -, others⟩ := run_bind.mp others
  obtain ⟨third, _, read3, last⟩ := run_bind.mp others
  cases (run_pure.mp last).1
  exact ⟨numStr_digits read1, numStr_digits read2, numStr_digits read3⟩

theorem calm_numbers : Calm numbers := by
  have number : Calm numStr := calm_space0.delimited calm_taken1 calm_space0
  exact number.separatedPair calm_tag (number.separatedPair calm_taken1 number)

theorem calm_orFail {α : Type} {error : Error} {value : Option α} : Calm (orFail error value) := by
  cases value with
  | none => exact calm_fails error
  | some value => exact calm_pure

theorem orFail_ok {α : Type} {error : Error} {value : Option α} {given : α} :
    orFail error value text = .ok (given, rest) ↔ value = some given ∧ text = rest := by
  cases value with
  | none => exact ⟨nofun, fun both => nomatch both.1⟩
  | some value => exact run_pure.trans (by simp)

theorem orPanic_bind_panics {α β : Type} {value : Option α} {next : α → Parser Error β} :
    Panics (orPanic value >>= next) text ↔ ∀ given, value = some given → Panics (next given) text := by
  cases value with
  | none => exact ⟨fun _ => nofun, fun _ => rfl⟩
  | some value => exact ⟨fun panics given same => Option.some.inj same ▸ panics, fun all => all value rfl⟩

theorem total_eq_none : total decimals min sec fraction = none ↔
    ∀ minutes, decimals.mul min (decimals.dec 60) = some minutes → ∀ sum, decimals.add minutes sec = some sum →
      ∀ whole, decimals.add sum fraction = some whole → decimals.mul whole (decimals.dec 1000) = none := by
  simp only [total, Option.bind_eq_bind, Option.bind_eq_none_iff]

/-- What `parse_timestamp` does with the numbers it has read. -/
def computed (decimals : Decimals) (min sec fraction : decimals.Decimal) : Parser Error Int := do
  let minutes ← orPanic (decimals.mul min (decimals.dec 60))
  let seconds ← orPanic (decimals.add minutes sec)
  let seconds ← orPanic (decimals.add seconds fraction)
  let timestamp ← orPanic (decimals.mul seconds (decimals.dec 1000))
  let remaining ← get
  orFail ⟨remaining, .invalidTimestamp⟩ (decimals.toI64 (decimals.trunc timestamp))

theorem computed_panics :
    Panics (computed decimals min sec fraction) text ↔ total decimals min sec fraction = none := by
  have shown : ∀ timestamp : decimals.Decimal, Calm (do
      let remaining ← get
      orFail ⟨remaining, .invalidTimestamp⟩ (decimals.toI64 (decimals.trunc timestamp)) : Parser Error Int) :=
    fun timestamp => Calm.bind nofun fun _ => calm_orFail
  rw [total_eq_none]
  refine orPanic_bind_panics.trans (forall₂_congr fun minutes _ => ?_)
  refine orPanic_bind_panics.trans (forall₂_congr fun sum _ => ?_)
  refine orPanic_bind_panics.trans (forall₂_congr fun whole _ => ?_)
  rw [orPanic_bind_panics, Option.eq_none_iff_forall_ne_some]
  exact forall_congr' fun timestamp =>
    ⟨fun panics same => shown _ _ (panics same), fun none same => absurd same none⟩

theorem parseTimestamp_panics : Panics (parseTimestamp decimals) text ↔
    ∃ n1 n2 n3 rest, numbers text = .ok ((n1, n2, n3), rest) ∧
      ∃ min sec num fraction, decimals.fromStrExact n1 = some min ∧ decimals.fromStrExact n2 = some sec ∧
        decimals.fromStrExact n3 = some num ∧ decimals.setScale num n3.length = some fraction ∧
        total decimals min sec fraction = none := by
  constructor
  · intro panics
    obtain ⟨⟨n1, n2, n3⟩, rest, read, later⟩ := (bind_panics_calm calm_numbers).mp panics
    obtain ⟨min, _, read1, later⟩ := (bind_panics_calm calm_orFail).mp later
    obtain ⟨sec, _, read2, later⟩ := (bind_panics_calm calm_orFail).mp later
    obtain ⟨num, _, read3, later⟩ := (bind_panics_calm calm_orFail).mp later
    obtain ⟨fraction, _, read4, later⟩ := (bind_panics_calm calm_orFail).mp later
    exact ⟨n1, n2, n3, rest, read, min, sec, num, fraction, (orFail_ok.mp read1).1, (orFail_ok.mp read2).1,
      (orFail_ok.mp read3).1, (orFail_ok.mp read4).1, computed_panics.mp later⟩
  · rintro ⟨n1, n2, n3, rest, read, min, sec, num, fraction, read1, read2, read3, read4, none⟩
    refine (bind_panics_calm calm_numbers).mpr ⟨(n1, n2, n3), rest, read, ?_⟩
    refine (bind_panics_calm calm_orFail).mpr ⟨min, rest, orFail_ok.mpr ⟨read1, rfl⟩, ?_⟩
    refine (bind_panics_calm calm_orFail).mpr ⟨sec, rest, orFail_ok.mpr ⟨read2, rfl⟩, ?_⟩
    refine (bind_panics_calm calm_orFail).mpr ⟨num, rest, orFail_ok.mpr ⟨read3, rfl⟩, ?_⟩
    refine (bind_panics_calm calm_orFail).mpr ⟨fraction, rest, orFail_ok.mpr ⟨read4, rfl⟩, ?_⟩
    exact computed_panics.mpr none

/-- Where its numbers can be read, a timestamp is in range: its seconds stay below the
thousandth part of the largest decimal, or are just that and the product has room. -/
def InRange (decimals : Decimals) (n1 n2 n3 : Text) : Prop :=
  ∀ min sec num fraction, decimals.fromStrExact n1 = some min → decimals.fromStrExact n2 = some sec →
    decimals.fromStrExact n3 = some num → decimals.setScale num n3.length = some fraction →
    seconds n1 n2 < maxValue / 1000 ∨
      (seconds n1 n2 = maxValue / 1000 ∧ total decimals min sec fraction ≠ none)

/-- The numbers at the start of a text, where they can be read, are in range. -/
def Modest (decimals : Decimals) (text : Text) : Prop :=
  ∀ n1 n2 n3 rest, numbers text = .ok ((n1, n2, n3), rest) → InRange decimals n1 n2 n3

/-- Numbers that can be read have room exactly when they are in range. -/
theorem total_room_iff (faithful : Faithful decimals value) (digits : Digits n1 ∧ Digits n2 ∧ Digits n3)
    {num : decimals.Decimal} (read1 : decimals.fromStrExact n1 = some min)
    (read2 : decimals.fromStrExact n2 = some sec) (read3 : decimals.fromStrExact n3 = some num)
    (read4 : decimals.setScale num n3.length = some fraction) :
    total decimals min sec fraction ≠ none ↔ seconds n1 n2 < maxValue / 1000 ∨
      (seconds n1 n2 = maxValue / 1000 ∧ total decimals min sec fraction ≠ none) := by
  obtain ⟨⟨some1, all1⟩, ⟨some2, all2⟩, some3, all3⟩ := digits
  have min_eq := faithful.fromStrExact n1 min some1 all1 read1
  have sec_eq := faithful.fromStrExact n2 sec some2 all2 read2
  have fraction_eq := faithful.setScale n3 num n3.length fraction some3 all3 read3 read4
  have low : 0 ≤ value fraction := by rw [fraction_eq]; positivity
  have high : value fraction ≤ 1 := by
    rw [fraction_eq, div_le_one (by positivity)]
    exact_mod_cast (digitsValue_lt all3).le
  rcases lt_trichotomy (seconds n1 n2) (maxValue / 1000) with below | same | above
  · exact ⟨fun _ => .inl below, fun _ => total_room faithful min_eq sec_eq low high below⟩
  · exact ⟨fun room => .inr ⟨same, room⟩, fun either => (either.resolve_left (same ▸ lt_irrefl _)).2⟩
  · have none := total_full faithful min_eq sec_eq low above
    refine ⟨fun room => absurd none room, ?_⟩
    rintro (below | ⟨same, -⟩)
    · exact absurd below (not_lt.mpr above.le)
    · exact absurd same above.ne'

theorem parseTimestamp_calm_iff (faithful : Faithful decimals value) :
    ¬ Panics (parseTimestamp decimals) text ↔ Modest decimals text := by
  rw [parseTimestamp_panics]
  constructor
  · intro calm n1 n2 n3 rest read min sec num fraction read1 read2 read3 read4
    refine (total_room_iff faithful (numbers_digits read) read1 read2 read3 read4).mp fun none => ?_
    exact calm ⟨n1, n2, n3, rest, read, min, sec, num, fraction, read1, read2, read3, read4, none⟩
  · rintro modest ⟨n1, n2, n3, rest, read, min, sec, num, fraction, read1, read2, read3, read4, none⟩
    exact (total_room_iff faithful (numbers_digits read) read1 read2 read3 read4).mpr
      (modest n1 n2 n3 rest read min sec num fraction read1 read2 read3 read4) none

/-! ## Rounds -/

theorem parseTimeTagTimestamp_panics : Panics (parseTimeTagTimestamp decimals) text ↔
    ∃ body, text = '[' :: body ∧ Panics (parseTimestamp decimals) body := by
  have closes : ∀ value : Int, Calm (do
      let _ ← (tag [']'] : Parser Error Text)
      return value : Parser Error Int) := fun value => calm_tag.bind fun _ => calm_pure
  rw [parseTimeTagTimestamp, delimited, bind_panics_calm calm_tag]
  simp only [bind_panics_of_calm closes]
  constructor
  · rintro ⟨word, body, read, panics⟩
    obtain ⟨-, rfl⟩ := tag_ok.mp read
    exact ⟨body, rfl, panics⟩
  · rintro ⟨body, rfl, panics⟩
    exact ⟨['['], body, tag_ok.mpr ⟨rfl, rfl⟩, panics⟩

theorem calm_parseIdTag : Calm parseIdTag := by
  have field : Calm (separatedPair (delimited space0 alpha1 space0) (tag [':'])
      (delimited space0 (isNot [']']) space0) : Parser Error (Text × Text)) :=
    (calm_space0.delimited calm_taken1 calm_space0).separatedPair calm_tag
      (calm_space0.delimited calm_taken1 calm_space0)
  refine Calm.bind (calm_tag.delimited field calm_tag) fun _ => ?_
  iterate 6 refine .ite calm_pure ?_
  refine .ite (calm_orFail.bind fun _ => calm_pure) ?_
  iterate 3 refine .ite calm_pure ?_
  exact calm_pure

def isBlank (c : Char) : Bool := c == ' ' || c == '\t'

/-- The timestamps that what is left of a document begins with are in range. -/
def Careful (decimals : Decimals) (remaining : Text) : Prop :=
  ∀ body, Tried (parseTimeTagTimestamp decimals) (remaining.dropWhile isBlank) ('[' :: body) → Modest decimals body

theorem parseTimeTag_panics : Panics (parseTimeTag decimals) text ↔
    ∃ body, Tried (parseTimeTagTimestamp decimals) text ('[' :: body) ∧ Panics (parseTimestamp decimals) body := by
  have stamp : Advances (parseTimeTagTimestamp decimals) :=
    (advances_tag (List.cons_ne_nil _ _)).delimited leaves_parseTimestamp leaves_tag
  have line : ∀ timestamps : List Int, Calm (do
      let _ ← space0
      let text ← notLineEnding
      return .time (Text.trimEnd text) timestamps : Parser Error LrcTag) :=
    fun timestamps => calm_space0.bind fun _ => calm_notLineEnding.bind fun _ => calm_pure
  rw [parseTimeTag, bind_panics_of_calm line, many1_panics stamp]
  simp only [parseTimeTagTimestamp_panics]
  constructor
  · rintro ⟨last, tried, body, rfl, panics⟩
    exact ⟨body, tried, panics⟩
  · rintro ⟨body, tried, panics⟩
    exact ⟨_, tried, body, rfl, panics⟩

theorem parseContent_calm_iff (faithful : Faithful decimals value) :
    ¬ Panics (parseContent decimals) text ↔ Careful decimals text := by
  have ends : ∀ content : Content, Calm (do
      let _ ← (opt lineEnding : Parser Error (Option Text))
      return content : Parser Error Content) := fun content => calm_lineEnding.opt.bind fun _ => calm_pure
  have unknown : Calm (do return .unkown (← notLineEnding) : Parser Error Content) :=
    calm_notLineEnding.bind fun _ => calm_pure
  have tagged : Panics (parseTag decimals) text ↔ Panics (parseTimeTag decimals) (text.dropWhile isBlank) := by
    rw [parseTag, preceded, bind_panics_calm calm_space0]
    simp only [alt_panics_of_calm calm_parseIdTag]
    constructor
    · rintro ⟨blanks, rest, read, panics⟩
      cases read
      exact panics
    · exact fun panics => ⟨_, _, rfl, panics⟩
  rw [parseContent, bind_panics_of_calm ends, alt_panics_of_calm unknown,
    bind_panics_of_calm fun _ => calm_pure, tagged, parseTimeTag_panics]
  simp only [not_exists, not_and, parseTimestamp_calm_iff faithful]
  rfl

/-- The texts that are left when a round begins. -/
inductive Reached (decimals : Decimals) (input : Text) : Text → Prop where
  | start : Reached decimals input input
  | next {remaining rest : Text} {content : Content} (reached : Reached decimals input remaining)
      (more : remaining ≠ []) (read : parseContent decimals remaining = .ok (content, rest)) : Reached decimals input rest

theorem Reached.trans {middle last : Text} (early : Reached decimals input middle)
    (late : Reached decimals middle last) : Reached decimals input last := by
  induction late with
  | start => exact early
  | next _ more read ih => exact ih.next more read

theorem parse_panics_of_content (more : input ≠ []) (panics : Panics (parseContent decimals) input) :
    parse decimals input = .error .panicked := by
  rw [parse_eq, if_neg more, show parseContent decimals input = .error .panicked from panics]
  rfl

theorem parse_panics_of_rest {content : Content} (more : input ≠ [])
    (read : parseContent decimals input = .ok (content, rest)) :
    parse decimals input = .error .panicked ↔ parse decimals rest = .error .panicked := by
  rw [parse_eq, if_neg more, read]
  change (parse decimals rest >>= _) = _ ↔ _
  cases parse decimals rest with
  | error fault => rfl
  | ok tags => cases content <;> exact ⟨nofun, nofun⟩

theorem parse_panics : parse decimals input = .error .panicked ↔
    ∃ remaining, Reached decimals input remaining ∧ remaining ≠ [] ∧ Panics (parseContent decimals) remaining := by
  constructor
  · intro panics
    induction size : input.length using Nat.strong_induction_on generalizing input with
    | h size ih =>
      subst size
      have more : input ≠ [] := by
        rintro rfl
        cases panics
      cases read : parseContent decimals input with
      | error fault =>
        rw [parse_eq, if_neg more, read] at panics
        cases panics
        exact ⟨input, .start, more, read⟩
      | ok result =>
        obtain ⟨content, rest⟩ := result
        obtain ⟨remaining, reached, round⟩ :=
          ih _ (parseContent_shortens more read) ((parse_panics_of_rest more read).mp panics) rfl
        exact ⟨remaining, (Reached.start.next more read).trans reached, round⟩
  · rintro ⟨remaining, reached, more, panics⟩
    have here := parse_panics_of_content more panics
    clear more panics
    induction reached with
    | start => exact here
    | next _ more read ih => exact ih ((parse_panics_of_rest more read).mpr here)

/-- The parser ends, as each round reads something, and it does not panic. -/
def Total (decimals : Decimals) (input : Text) : Prop :=
  (∀ fuel, input.length ≤ fuel → parseFrom decimals fuel input = parse decimals input) ∧
    (∀ remaining content rest, Reached decimals input remaining → remaining ≠ [] →
      parseContent decimals remaining = .ok (content, rest) → rest.length < remaining.length) ∧
    parse decimals input ≠ .error .panicked

theorem total_iff_careful (decimals : Decimals) (value : decimals.Decimal → ℚ) (faithful : Faithful decimals value)
    (input : Text) :
    Total decimals input ↔ ∀ remaining, Reached decimals input remaining → remaining ≠ [] → Careful decimals remaining := by
  constructor
  · rintro ⟨-, -, calm⟩ remaining reached more
    exact (parseContent_calm_iff faithful).mp fun panics => calm (parse_panics.mpr ⟨remaining, reached, more, panics⟩)
  · intro careful
    refine ⟨fun fuel enough => parseFrom_fuel enough le_rfl, fun remaining content rest _ more read =>
      parseContent_shortens more read, fun panics => ?_⟩
    obtain ⟨remaining, reached, more, panics⟩ := parse_panics.mp panics
    exact (parseContent_calm_iff faithful).mpr (careful remaining reached more) panics

/-- A line with a timestamp of one second. -/
theorem timed_line_total : Total wide "[00:01.00]a".toList := by
  refine (total_iff_careful wide wideValue wide_faithful _).mpr fun remaining reached more => ?_
  have only : remaining = "[00:01.00]a".toList ∨ remaining = [] := by
    clear more
    induction reached with
    | start => exact .inl rfl
    | next _ more read ih =>
      obtain rfl := ih.resolve_right more
      cases read
      exact .inr rfl
  obtain rfl := only.resolve_right more
  intro body tried
  cases tried with
  | here =>
    intro n1 n2 n3 rest read min sec num fraction _ _ _ _
    cases read
    exact .inl (by decide)
  | next read later =>
    cases read
    cases later with
    | next read _ => cases read

/-- Minutes of 28 digits have no room in seconds. -/
theorem long_minutes_panic : ¬ ∀ (decimals : Decimals) (value : decimals.Decimal → ℚ), Faithful decimals value →
    ∀ input, Total decimals input := by
  intro claim
  obtain ⟨-, -, calm⟩ := claim wide wideValue wide_faithful "[9999999999999999999999999999:00.00]".toList
  exact calm (by decide)

end Qcm.LyricTotalProofs
