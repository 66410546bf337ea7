import Qcm.LyricParser

/-!
The decimals that the parser of lyrics computes with.  A decimal has 96 bits and a
scale; its operations round what they have no digits for, and panic on what is
beyond the largest one.
-/

namespace Qcm.LyricDecimals

open Lib LyricParser

/-- The largest decimal. -/
def maxValue : Nat := 2 ^ 96 - 1

/-- The result of an operation: there is one up to the largest decimal, there is none
from the next integer on, and rounding does not pass an integer. -/
structure Rounded {D : Type} (value : D → ℚ) (exact : ℚ) (result : Option D) : Prop where
  room : exact ≤ maxValue → ∃ d, result = some d
  full : maxValue + 1 ≤ exact → result = none
  above : ∀ d, result = some d → ∀ n : Nat, (n : ℚ) ≤ exact → (n : ℚ) ≤ value d
  below : ∀ d, result = some d → ∀ n : Nat, exact ≤ n → value d ≤ n

/-- What is relied upon of the decimals of the crate, by the numbers they stand for. -/
structure Faithful (decimals : Decimals) (value : decimals.Decimal → ℚ) : Prop where
  fromStrExact : ∀ digits d, digits ≠ [] → (∀ c ∈ digits, c.isDigit = true) → decimals.fromStrExact digits = some d →
    value d = Text.digitsValue digits
  setScale : ∀ digits d scale e, digits ≠ [] → (∀ c ∈ digits, c.isDigit = true) →
    decimals.fromStrExact digits = some d → decimals.setScale d scale = some e →
    value e = Text.digitsValue digits / 10 ^ scale
  dec : ∀ n ≤ maxValue, value (decimals.dec n) = n
  mul : ∀ a b, 0 ≤ value a → 0 ≤ value b → Rounded value (value a * value b) (decimals.mul a b)
  add : ∀ a b, 0 ≤ value a → 0 ≤ value b → Rounded value (value a + value b) (decimals.add a b)

/-- `(min * 60 + sec + sec_decimal) * 1000` -/
def total (decimals : Decimals) (min sec fraction : decimals.Decimal) : Option decimals.Decimal := do
  let minutes ← decimals.mul min (decimals.dec 60)
  let seconds ← decimals.add minutes sec
  let seconds ← decimals.add seconds fraction
  decimals.mul seconds (decimals.dec 1000)

/-- The full seconds of a timestamp. -/
def seconds (n1 n2 : Text) : Nat := 60 * Text.digitsValue n1 + Text.digitsValue n2

variable {decimals : Decimals} {value : decimals.Decimal → ℚ} {n1 n2 n3 : Text}

theorem Rounded.natural {exact : Nat} {result : Option decimals.Decimal} {d : decimals.Decimal}
    (rounded : Rounded value exact result) (some : result = .some d) : value d = exact :=
  le_antisymm (rounded.below d some exact le_rfl) (rounded.above d some exact le_rfl)

theorem digitsValue_lt {digits : Text} (valid : ∀ c ∈ digits, c.isDigit = true) :
    Text.digitsValue digits < 10 ^ digits.length := by
  suffices general : ∀ n : Nat, digits.foldl (fun n c => 10 * n + (c.toNat - 48)) n < (n + 1) * 10 ^ digits.length by
    simpa [Text.digitsValue] using general 0
  induction digits with
  | nil => simp
  | cons c rest ih =>
    intro n
    have digit : c.toNat - 48 ≤ 9 := by
      have range : 48 ≤ c.toNat ∧ c.toNat ≤ 57 := by
        simpa [Char.isDigit, UInt32.le_iff_toNat_le] using valid c (.head _)
      omega
    calc (c :: rest).foldl (fun n c => 10 * n + (c.toNat - 48)) n
      _ < (10 * n + (c.toNat - 48) + 1) * 10 ^ rest.length :=
        ih (fun c member => valid c (.tail _ member)) _
      _ ≤ (10 * (n + 1)) * 10 ^ rest.length := Nat.mul_le_mul_right _ (by omega)
      _ = (n + 1) * 10 ^ (c :: rest).length := by rw [List.length_cons]; ring

section

variable (faithful : Faithful decimals value) {m s x : Nat} {min sec fraction minutes sum whole : decimals.Decimal}

include faithful

theorem minutes_rounded (min_eq : value min = m) :
    Rounded value (60 * m : Nat) (decimals.mul min (decimals.dec 60)) := by
  have sixty : value (decimals.dec 60) = (60 : Nat) := faithful.dec 60 (by decide)
  have product := faithful.mul min (decimals.dec 60) (by rw [min_eq]; positivity) (by rw [sixty]; positivity)
  rwa [min_eq, sixty, ← Nat.cast_mul, Nat.mul_comm] at product

theorem sum_rounded (minutes_eq : value minutes = m) (sec_eq : value sec = s) :
    Rounded value (m + s : Nat) (decimals.add minutes sec) := by
  have sums := faithful.add minutes sec (by rw [minutes_eq]; positivity) (by rw [sec_eq]; positivity)
  rwa [minutes_eq, sec_eq, ← Nat.cast_add] at sums

theorem whole_rounded (sum_eq : value sum = x) (low : 0 ≤ value fraction) :
    Rounded value (x + value fraction) (decimals.add sum fraction) := by
  have sums := faithful.add sum fraction (by rw [sum_eq]; positivity) low
  rwa [sum_eq] at sums

theorem product_rounded (low : 0 ≤ value whole) :
    Rounded value (value whole * 1000) (decimals.mul whole (decimals.dec 1000)) := by
  have thousand : value (decimals.dec 1000) = (1000 : Nat) := faithful.dec 1000 (by decide)
  have product := faithful.mul whole (decimals.dec 1000) low (by rw [thousand]; positivity)
  rwa [thousand] at product

theorem total_room (min_eq : value min = m) (sec_eq : value sec = s) (low : 0 ≤ value fraction)
    (high : value fraction ≤ 1) (below : 60 * m + s < maxValue / 1000) : total decimals min sec fraction ≠ none := by
  have times := minutes_rounded faithful min_eq
  obtain ⟨minutes, some_minutes⟩ := times.room (by exact_mod_cast (show 60 * m ≤ maxValue by omega))
  have plus := sum_rounded faithful (times.natural some_minutes) sec_eq
  obtain ⟨sum, some_sum⟩ := plus.room (by exact_mod_cast (show 60 * m + s ≤ maxValue by omega))
  have sum_eq := plus.natural some_sum
  have ends := whole_rounded faithful sum_eq low
  have next : ((60 * m + s : Nat) : ℚ) + value fraction ≤ (60 * m + s + 1 : Nat) := by
    push_cast
    linarith
  obtain ⟨whole, some_whole⟩ := ends.room (le_trans next (by exact_mod_cast (show 60 * m + s + 1 ≤ maxValue by omega)))
  have whole_low := ends.above whole some_whole (60 * m + s) (by linarith)
  have whole_high := ends.below whole some_whole _ next
  have room : ((60 * m + s + 1 : Nat) : ℚ) * 1000 ≤ maxValue := by
    exact_mod_cast (show (60 * m + s + 1) * 1000 ≤ maxValue by omega)
  obtain ⟨product, some_product⟩ :=
    (product_rounded faithful (le_trans (Nat.cast_nonneg _) whole_low)).room (by linarith)
  simp [total, some_minutes, some_sum, some_whole, some_product]

theorem total_full (min_eq : value min = m) (sec_eq : value sec = s) (low : 0 ≤ value fraction)
    (above : maxValue / 1000 < 60 * m + s) : total decimals min sec fraction = none := by
  by_contra some
  obtain ⟨product, some⟩ := Option.ne_none_iff_exists'.mp some
  obtain ⟨minutes, some_minutes, some⟩ := Option.bind_eq_some_iff.mp some
  obtain ⟨sum, some_sum, some⟩ := Option.bind_eq_some_iff.mp some
  obtain ⟨whole, some_whole, some_product⟩ := Option.bind_eq_some_iff.mp some
  have minutes_eq := (minutes_rounded faithful min_eq).natural some_minutes
  have sum_eq := (sum_rounded faithful minutes_eq sec_eq).natural some_sum
  have whole_low := (whole_rounded faithful sum_eq low).above whole some_whole (60 * m + s) (by linarith)
  have full : ((maxValue + 1 : Nat) : ℚ) ≤ (60 * m + s : Nat) * 1000 := by
    exact_mod_cast (show maxValue + 1 ≤ (60 * m + s) * 1000 by omega)
  rw [Nat.cast_succ] at full
  have none := (product_rounded faithful (le_trans (Nat.cast_nonneg _) whole_low)).full (by linarith)
  cases none.symm.trans some_product

end

/-- Decimals of as many digits as they need, up to the largest one. -/
def wide : Decimals where
  Decimal := Nat × Nat
  fromStrExact digits := if Text.digitsValue digits ≤ maxValue then some (Text.digitsValue digits, 0) else none
  setScale value scale := if scale ≤ 28 then some (value.1, scale) else none
  dec value := (value, 0)
  mul one other :=
    if one.1 * other.1 ≤ maxValue * 10 ^ (one.2 + other.2) then some (one.1 * other.1, one.2 + other.2) else none
  add one other :=
    let sum := one.1 * 10 ^ other.2 + other.1 * 10 ^ one.2
    if sum ≤ maxValue * 10 ^ (one.2 + other.2) then some (sum, one.2 + other.2) else none
  trunc value := (value.1 / 10 ^ value.2, 0)
  toI64 value := if value.1 / 10 ^ value.2 < 2 ^ 63 then some (value.1 / 10 ^ value.2 : Nat) else none

def wideValue (d : Nat × Nat) : ℚ := d.1 / 10 ^ d.2

/-- A result that is exact is rounded. -/
theorem rounded_exact {m scale : Nat} {exact : ℚ} (same : wideValue (m, scale) = exact) :
    Rounded wideValue exact (if m ≤ maxValue * 10 ^ scale then some (m, scale) else none) := by
  have bound : exact ≤ maxValue ↔ m ≤ maxValue * 10 ^ scale := by
    rw [← same, wideValue, div_le_iff₀ (by positivity)]
    exact_mod_cast Iff.rfl
  constructor
  · exact fun low => ⟨_, if_pos (bound.mp low)⟩
  · exact fun full => if_neg fun low => by linarith [bound.mpr low]
  · intro d some n low
    split at some <;> cases some
    exact same ▸ low
  · intro d some n high
    split at some <;> cases some
    exact same ▸ high

theorem wide_faithful : Faithful wide wideValue where
  fromStrExact digits d _ _ read := by
    obtain ⟨-, same⟩ := Option.ite_none_right_eq_some.mp read
    cases same
    simp [wideValue]
  setScale digits d scale e _ _ read scaled := by
    obtain ⟨-, same⟩ := Option.ite_none_right_eq_some.mp read
    cases same
    obtain ⟨-, same⟩ := Option.ite_none_right_eq_some.mp scaled
    cases same
    rfl
  dec n _ := by simp [wide, wideValue]
  mul a b _ _ := rounded_exact (by
    simp only [wideValue]
    push_cast
    rw [pow_add]
    field_simp)
  add a b _ _ := rounded_exact (by
    simp only [wideValue]
    push_cast
    rw [pow_add]
    field_simp)

end Qcm.LyricDecimals
