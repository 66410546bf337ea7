import Mathlib

/-!
Years of the Gregorian calendar, carried on to both sides, and the times of UTC in
milliseconds from 1970 on.
-/

namespace Qcm.Lib.Calendar

/-- The leap days before the first of January of a year, counted from the year 1 on. -/
def leapDays (year : Int) : Int := (year - 1) / 4 - (year - 1) / 100 + (year - 1) / 400

/-- The first of January of a year. -/
def yearStart (year : Int) : Int := (365 * (year - 1970) + leapDays year - leapDays 1970) * 86400000

/-- The year of a time, by the blocks of 400, 100 and 4 years before it. -/
def utcYear (time : Int) : Int :=
  let days := time / 86400000 + 719162
  let rest400 := days % 146097
  let centuries := min (rest400 / 36524) 3
  let rest100 := rest400 - 36524 * centuries
  let rest4 := rest100 % 1461
  400 * (days / 146097) + 100 * centuries + 4 * (rest100 / 1461) + min (rest4 / 365) 3 + 1

section

variable {a c q y : Int}

private theorem leapDays_blocks (hc : 0 ≤ c ∧ c ≤ 3) (hq : 0 ≤ q ∧ q ≤ 24) (hy : 0 ≤ y ∧ y ≤ 3) :
    leapDays (400 * a + 100 * c + 4 * q + y + 1) = 97 * a + 24 * c + q := by
  unfold leapDays
  omega

/-- The fourth year of a block has a leap day, but for the last block of most centuries. -/
private theorem leapDays_next (hc : 0 ≤ c ∧ c ≤ 3) (hq : 0 ≤ q ∧ q ≤ 24) (hy : 0 ≤ y ∧ y ≤ 3) :
    leapDays (400 * a + 100 * c + 4 * q + y + 1 + 1) =
      97 * a + 24 * c + q + if y = 3 ∧ (q < 24 ∨ c = 3) then 1 else 0 := by
  unfold leapDays
  split_ifs <;> omega

end

theorem within_utcYear (time : Int) : yearStart (utcYear time) ≤ time ∧ time < yearStart (utcYear time + 1) := by
  obtain ⟨days, days_eq⟩ : ∃ days, days = time / 86400000 + 719162 := ⟨_, rfl⟩
  obtain ⟨a, a_eq⟩ : ∃ a, a = days / 146097 := ⟨_, rfl⟩
  obtain ⟨c, c_eq⟩ : ∃ c, c = min (days % 146097 / 36524) 3 := ⟨_, rfl⟩
  obtain ⟨rest, rest_eq⟩ : ∃ rest, rest = days % 146097 - 36524 * c := ⟨_, rfl⟩
  obtain ⟨q, q_eq⟩ : ∃ q, q = rest / 1461 := ⟨_, rfl⟩
  obtain ⟨y, y_eq⟩ : ∃ y, y = min (rest % 1461 / 365) 3 := ⟨_, rfl⟩
  have year : utcYear time = 400 * a + 100 * c + 4 * q + y + 1 := by
    simp only [utcYear, ← days_eq, ← a_eq, ← c_eq, ← rest_eq, ← q_eq, ← y_eq]
  have c_range : 0 ≤ c ∧ c ≤ 3 := by omega
  have q_range : 0 ≤ q ∧ q ≤ 24 := by omega
  have y_range : 0 ≤ y ∧ y ≤ 3 := by omega
  have low := leapDays_blocks (a := a) c_range q_range y_range
  have high := leapDays_next (a := a) c_range q_range y_range
  have base : leapDays 1970 = 477 := by decide
  rw [year]
  simp only [yearStart, low, high, base]
  split_ifs at high ⊢ <;> omega

theorem yearStart_strictMono : StrictMono yearStart := by
  intro early late before
  unfold yearStart leapDays
  omega

/-- A year is reached by the times from its start on. -/
theorem yearStart_gc : GaloisConnection yearStart utcYear := by
  intro year time
  obtain ⟨low, high⟩ := within_utcYear time
  constructor
  · intro started
    exact Int.le_of_lt_add_one (yearStart_strictMono.lt_iff_lt.mp (lt_of_le_of_lt started high))
  · intro reached
    exact le_trans (yearStart_strictMono.monotone reached) low

theorem le_utcYear {year time : Int} : year ≤ utcYear time ↔ yearStart year ≤ time := (yearStart_gc year time).symm

theorem utcYear_lt {year time : Int} : utcYear time < year ↔ time < yearStart year := yearStart_gc.lt_iff_lt.symm

theorem utcYear_eq {year time : Int} : utcYear time = year ↔ yearStart year ≤ time ∧ time < yearStart (year + 1) := by
  rw [← le_utcYear, ← utcYear_lt]
  omega

end Qcm.Lib.Calendar
