import Qcm.MessageFilters

/-!
What the condition of one filter says of the stored value.

Every condition on a year is one on its first of January: it is the condition on
years where the bound is that of a half-open interval, and misses it within the
year otherwise.  A search text is put into a pattern as it is, so that it is looked
for as it is only where it has no wildcard.
-/

namespace Qcm.FilterConditionProofs

open Lib Lib.Sql Lib.Calendar MessageFilters

/-! ## Years -/

/-- The relation of two years that a condition asks for. -/
def Stands (year value : Int) : IntCondition → Prop
  | .equal => year = value
  | .equalNot => year ≠ value
  | .less => year < value
  | .lessEqual => year ≤ value
  | .greater => year > value
  | .greaterEqual => year ≥ value
  | .unspecified => True

/-- The filter is built, and it holds exactly of the years it asks for. -/
def Right (chrono : Chrono) (ref : ColumnRef) (db : Database Table Column) (scopes : Scopes) (f : IntFilter)
    (time : Int) : Prop :=
  ∃ expr, f.getYearExpr ref chrono = .ok (some expr) ∧
    (expr.Holds db scopes ↔ Stands (utcYear time) f.value (.ofI32 f.condition))

def Dated (chrono : Chrono) (year : Int) : Prop := chrono.first ≤ year ∧ year ≤ chrono.last

/-- Where the filter does what it asks for. -/
def Careful (chrono : Chrono) (value time : Int) : IntCondition → Prop
  | .equal => Dated chrono value ∧ Dated chrono (value + 1)
  | .equalNot => Dated chrono value ∧ Dated chrono (value + 1) ∧ utcYear time = value
  | .less | .greaterEqual => Dated chrono value
  | .lessEqual | .greater => Dated chrono value ∧ (utcYear time = value → time = yearStart value)
  | .unspecified => Dated chrono value

variable {chrono : Chrono} {ref : ColumnRef} {db : Database Table Column} {scopes : Scopes} {f : IntFilter}
  {year time : Int}

theorem yearStart_ok : chrono.yearStart year = .ok (Calendar.yearStart year) ↔ Dated chrono year := by
  unfold Chrono.yearStart
  split_ifs with dated
  · exact ⟨fun _ => dated, fun _ => rfl⟩
  · exact ⟨fun built => (nomatch built), fun other => absurd other dated⟩

theorem yearStart_error (undated : ¬ Dated chrono year) : chrono.yearStart year = .error .noSuchLocalTime :=
  if_neg undated

section

variable (stored : db.lookup scopes ref = .integer time) {bound : Int}

include stored

theorem holds_lt : (Sql.Expr.compare .lt ref (.value (.integer bound))).Holds db scopes ↔ time < bound := by
  simp [Sql.Expr.Holds, Sql.Expr.truth, Comparison.truth, Database.operand, stored, Value.lt]

theorem holds_lte : (Sql.Expr.compare .lte ref (.value (.integer bound))).Holds db scopes ↔ time ≤ bound := by
  simp [Sql.Expr.Holds, Sql.Expr.truth, Comparison.truth, Database.operand, stored, Value.lt]

theorem holds_gt : (Sql.Expr.compare .gt ref (.value (.integer bound))).Holds db scopes ↔ bound < time := by
  simp [Sql.Expr.Holds, Sql.Expr.truth, Comparison.truth, Database.operand, stored, Value.lt]

theorem holds_gte : (Sql.Expr.compare .gte ref (.value (.integer bound))).Holds db scopes ↔ bound ≤ time := by
  simp [Sql.Expr.Holds, Sql.Expr.truth, Comparison.truth, Database.operand, stored, Value.lt]

theorem not_holds_gt_text {text : Text} : ¬ (Sql.Expr.compare .gt ref (.value (.text text))).Holds db scopes := by
  simp [Sql.Expr.Holds, Sql.Expr.truth, Comparison.truth, Database.operand, stored, Value.lt]

end

theorem careful_dated {condition : IntCondition} {value : Int} (careful : Careful chrono value time condition) :
    Dated chrono value := by
  cases condition <;> first | exact careful | exact careful.1

theorem not_right_undated (undated : ¬ Dated chrono f.value) : ¬ Right chrono ref db scopes f time := by
  rintro ⟨expr, built, -⟩
  rw [IntFilter.getYearExpr, yearStart_error undated] at built
  cases built

/-- A filter that is built is the right one when its expression says so. -/
theorem right_of_built {expr : Expr} (built : f.getYearExpr ref chrono = .ok (some expr)) :
    Right chrono ref db scopes f time ↔
      (expr.Holds db scopes ↔ Stands (utcYear time) f.value (.ofI32 f.condition)) := by
  constructor
  · rintro ⟨other, same, right⟩
    cases built.symm.trans same
    exact right
  · exact fun right => ⟨expr, built, right⟩

/-- How a condition that is one bound compares with it. -/
def boundOf : IntCondition → Option Comparison
  | .less => some .lt
  | .lessEqual => some .lte
  | .greater => some .gt
  | .greaterEqual => some .gte
  | .equal | .equalNot | .unspecified => none

theorem bound_built {start : Int} {condition : IntCondition} {comparison : Comparison}
    (dated : chrono.yearStart f.value = .ok start) (which : IntCondition.ofI32 f.condition = condition)
    (bound : boundOf condition = some comparison) :
    f.getYearExpr ref chrono = .ok (some (.compare comparison ref (.value (.integer start)))) := by
  rw [IntFilter.getYearExpr, dated, which]
  cases condition <;> cases bound <;> rfl

theorem not_right_next (bounded : IntCondition.ofI32 f.condition = .equal ∨ IntCondition.ofI32 f.condition = .equalNot)
    (undated : ¬ Dated chrono (f.value + 1)) : ¬ Right chrono ref db scopes f time := by
  rintro ⟨expr, built, -⟩
  by_cases dated : Dated chrono f.value
  · rw [IntFilter.getYearExpr, yearStart_ok.mpr dated, yearStart_error undated] at built
    rcases bounded with which | which <;> rw [which] at built <;> cases built
  · rw [IntFilter.getYearExpr, yearStart_error dated] at built
    cases built

theorem right_iff_careful (chrono : Chrono) (ref : ColumnRef) (db : Database Table Column) (scopes : Scopes)
    (f : IntFilter) (time : Int) (stored : db.lookup scopes ref = .integer time)
    (asked : IntCondition.ofI32 f.condition ≠ .unspecified) :
    Right chrono ref db scopes f time ↔ Careful chrono f.value time (.ofI32 f.condition) := by
  by_cases dated : Dated chrono f.value
  case neg =>
    exact ⟨fun right => absurd right (not_right_undated dated), fun careful => absurd (careful_dated careful) dated⟩
  have start := yearStart_ok.mpr dated
  have low := yearStart_strictMono (Int.lt_succ f.value)
  have reached := @le_utcYear f.value time
  have passed := @le_utcYear (f.value + 1) time
  cases which : IntCondition.ofI32 f.condition with
  | unspecified => exact absurd which asked
  | less =>
    rw [right_of_built (bound_built start which rfl), holds_lt stored, which]
    simp only [Stands, Careful, dated, iff_true]
    exact utcYear_lt.symm
  | greaterEqual =>
    rw [right_of_built (bound_built start which rfl), holds_gte stored, which]
    simp only [Stands, Careful, dated, iff_true]
    exact reached.symm
  | lessEqual =>
    rw [right_of_built (bound_built start which rfl), holds_lte stored, which]
    simp only [Stands, Careful, dated, true_and]
    omega
  | greater =>
    rw [right_of_built (bound_built start which rfl), holds_gt stored, which]
    simp only [Stands, Careful, dated, true_and]
    omega
  | equal =>
    by_cases next : Dated chrono (f.value + 1)
    · have built : f.getYearExpr ref chrono = .ok (some (.all
          [.compare .gte ref (.value (.integer (yearStart f.value))),
            .compare .lt ref (.value (.integer (yearStart (f.value + 1))))])) := by
        rw [IntFilter.getYearExpr, start, which, yearStart_ok.mpr next]
        rfl
      rw [right_of_built built, Sql.Expr.holds_all, which]
      simp only [List.forall_mem_cons, holds_gte stored, holds_lt stored, Stands, Careful, dated, next, utcYear_eq]
      simp
    · exact ⟨fun right => absurd right (not_right_next (.inl which) next), fun careful => absurd careful.2 next⟩
  | equalNot =>
    by_cases next : Dated chrono (f.value + 1)
    · have built : f.getYearExpr ref chrono = .ok (some (.all
          [.compare .lt ref (.value (.integer (yearStart f.value))),
            .compare .gt ref (.value (.text (yearStartText (f.value + 1))))])) := by
        rw [IntFilter.getYearExpr, start, which, yearStart_ok.mpr next]
        rfl
      rw [right_of_built built, Sql.Expr.holds_all, which]
      simp only [List.forall_mem_cons, not_holds_gt_text stored, Stands, Careful, dated, next]
      simp
    · exact ⟨fun right => absurd right (not_right_next (.inr which) next), fun careful => absurd careful.2.1 next⟩

/-- The years of `chrono` 0.4. -/
def chronoYears : Chrono := ⟨-262143, 262142, by decide⟩

/-- The row of an album that was published at a time. -/
def published (time : Int) : Scopes := [[(.album, fun column => if column = .publishTime then .integer time else .null)]]

/-- An album of June 2024 is from 2024 or later. -/
theorem june_reaches_year : Right chronoYears (col .publishTime) (database fun _ => []) (published 1717200000000)
    ⟨2024, 6⟩ 1717200000000 :=
  (right_iff_careful _ _ _ _ ⟨2024, 6⟩ 1717200000000 (by decide) (by decide)).mpr ⟨by decide, by decide⟩

/-- An album of June 2024 passes for one from after 2024. -/
theorem june_is_after_its_year : ¬ ∀ (chrono : Chrono) (ref : ColumnRef) (db : Database Table Column) (scopes : Scopes)
    (f : IntFilter) (time : Int), db.lookup scopes ref = .integer time →
      IntCondition.ofI32 f.condition ≠ .unspecified → Right chrono ref db scopes f time := by
  intro claim
  obtain ⟨expr, built, right⟩ := claim chronoYears (col .publishTime) (database fun _ => [])
    (published 1717200000000) ⟨2024, 5⟩ 1717200000000 (by decide) (by decide)
  cases built
  exact absurd (right.mp (by decide)) (by decide : ¬ utcYear 1717200000000 > 2024)

/-- On every stored text, the two conditions say where the search text stands. -/
def Finds (s : Text) : Prop :=
  ∀ (ref : ColumnRef) (db : Database Table Column) (scopes : Scopes) (text : Text),
    db.lookup scopes ref = .text text →
      (∃ expr, stringConditionToExpr ref .contains s = some expr ∧ (expr.Holds db scopes ↔ Text.Within s text)) ∧
      ∃ expr, stringConditionToExpr ref .containsNot s = some expr ∧ (expr.Holds db scopes ↔ ¬ Text.Within s text)

section

variable {text s : Text} (stored : db.lookup scopes ref = .text text)

include stored

theorem holds_like {pattern : Text} : (Sql.Expr.like ref pattern).Holds db scopes ↔ Text.like pattern text = true := by
  simp [Sql.Expr.Holds, Sql.Expr.truth, stored, Value.like]

theorem holds_notLike {pattern : Text} :
    (Sql.Expr.notLike ref pattern).Holds db scopes ↔ ¬ Text.like pattern text = true := by
  simp [Sql.Expr.Holds, Sql.Expr.truth, stored, Value.like]

end

/-- The row of an album with a name. -/
def named (text : Text) : Scopes := [[(.album, fun column => if column = .name then .text text else .null)]]

end Qcm.FilterConditionProofs
