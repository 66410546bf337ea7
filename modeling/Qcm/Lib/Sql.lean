import Qcm.Lib.Like

/-!
Conditions of SQLite: values by their storage class, truth with an unknown third
value, columns named with their table or without, joins and `EXISTS`.

A value is compared as it is stored.  The conversions by the affinity of a column
are left out: they change an integer beside a column of text, and beside a column
of integers a text that reads as a number.
-/

namespace Qcm.Lib.Sql

inductive Value where
  | null
  | integer (value : Int)
  | text (value : Text)
  deriving DecidableEq

/-- `none` where SQL has NULL. -/
abbrev Truth := Option Bool

namespace Truth

/-- `AND` -/
def both : Truth → Truth → Truth
  | some false, _ => some false
  | _, some false => some false
  | some true, some true => some true
  | _, _ => none

/-- `OR` -/
def either : Truth → Truth → Truth
  | some true, _ => some true
  | _, some true => some true
  | some false, some false => some false
  | _, _ => none

def allOf (truths : List Truth) : Truth := truths.foldr both (some true)

def anyOf (truths : List Truth) : Truth := truths.foldr either (some false)

@[simp]
theorem both_true {left right : Truth} : both left right = some true ↔ left = some true ∧ right = some true := by
  rcases left with _ | _ | _ <;> rcases right with _ | _ | _ <;> simp [both]

@[simp]
theorem either_true {left right : Truth} : either left right = some true ↔ left = some true ∨ right = some true := by
  rcases left with _ | _ | _ <;> rcases right with _ | _ | _ <;> simp [either]

theorem allOf_true {truths : List Truth} : allOf truths = some true ↔ ∀ truth ∈ truths, truth = some true := by
  induction truths with
  | nil => simp [allOf]
  | cons first rest ih => simpa [allOf] using fun _ => ih

theorem anyOf_true {truths : List Truth} : anyOf truths = some true ↔ some true ∈ truths := by
  induction truths with
  | nil => simp [anyOf]
  | cons first rest ih =>
    rw [List.mem_cons, ← ih, eq_comm (a := some true)]
    exact either_true

end Truth

namespace Value

def eq : Value → Value → Truth
  | .null, _ => none
  | _, .null => none
  | left, right => some (left = right)

/-- Integers stand before texts, texts in the order of their characters. -/
def lt : Value → Value → Truth
  | .null, _ => none
  | _, .null => none
  | .integer left, .integer right => some (left < right)
  | .integer _, .text _ => some true
  | .text _, .integer _ => some false
  | .text left, .text right => some (left < right)

/-- An integer is matched as its digits. -/
def like (pattern : Text) : Value → Truth
  | .null => none
  | .integer value => some (Text.like pattern (toString value).toList)
  | .text value => some (Text.like pattern value)

end Value

inductive Comparison where
  | eq | ne | lt | lte | gt | gte
  deriving DecidableEq

def Comparison.truth : Comparison → Value → Value → Truth
  | eq, left, right => left.eq right
  | ne, left, right => (left.eq right).map not
  | lt, left, right => left.lt right
  | lte, left, right => (right.lt left).map not
  | gt, left, right => right.lt left
  | gte, left, right => (left.lt right).map not

abbrev Row (Column : Type) := Column → Value

structure Database (Table Column : Type) where
  has : Table → Column → Bool
  rows : Table → List (Row Column)

/-- A column, with its table or without. -/
structure ColumnRef (Table Column : Type) where
  table : Option Table
  column : Column
  deriving DecidableEq

/-- The rows that the tables of one `FROM` stand for. -/
abbrev Frame (Table Column : Type) := List (Table × Row Column)

inductive JoinKind where
  | inner | left
  deriving DecidableEq

/-- `JOIN table ON left = right` -/
structure Join (Table Column : Type) where
  kind : JoinKind
  table : Table
  left : ColumnRef Table Column
  right : ColumnRef Table Column

inductive Operand (Table Column : Type) where
  | value (value : Value)
  | column (ref : ColumnRef Table Column)

inductive Expr (Table Column : Type) where
  | constant (truth : Bool)
  | compare (comparison : Comparison) (ref : ColumnRef Table Column) (operand : Operand Table Column)
  | like (ref : ColumnRef Table Column) (pattern : Text)
  | notLike (ref : ColumnRef Table Column) (pattern : Text)
  | isNull (ref : ColumnRef Table Column)
  | isNotNull (ref : ColumnRef Table Column)
  | isIn (ref : ColumnRef Table Column) (values : List Value)
  | all (conditions : List (Expr Table Column))
  | any (conditions : List (Expr Table Column))
  /-- `EXISTS (SELECT 1 FROM table JOIN .. WHERE ..)` -/
  | existsIn (table : Table) (joins : List (Join Table Column)) (conditions : List (Expr Table Column))

variable {Table Column : Type} [DecidableEq Table]

namespace Database

variable (db : Database Table Column)

/-- The table is one that the name may mean. -/
def names (ref : ColumnRef Table Column) (table : Table) : Bool :=
  (ref.table.all fun name => name = table) && db.has table ref.column

/-- The innermost query that has such a column is meant. -/
def lookup : List (Frame Table Column) → ColumnRef Table Column → Value
  | [], _ => .null
  | frame :: outer, ref =>
    match frame.find? fun entry => db.names ref entry.1 with
    | some entry => entry.2 ref.column
    | none => lookup outer ref

/-- A name that no table or more than one of the same query has is an error. -/
def resolves : List (List Table) → ColumnRef Table Column → Bool
  | [], _ => false
  | tables :: outer, ref =>
    match tables.filter (db.names ref) with
    | [] => resolves outer ref
    | [_] => true
    | _ => false

def operand (scopes : List (Frame Table Column)) : Operand Table Column → Value
  | .value value => value
  | .column ref => db.lookup scopes ref

/-- What one row of a join is joined with. -/
def joined (outer : List (Frame Table Column)) (join : Join Table Column) (frame : Frame Table Column) :
    List (Frame Table Column) :=
  let matching := ((db.rows join.table).map fun row => frame ++ [(join.table, row)]).filter fun frame =>
    (db.lookup (frame :: outer) join.left).eq (db.lookup (frame :: outer) join.right) = some true
  match join.kind with
  | .inner => matching
  | .left => if matching.isEmpty then [frame ++ [(join.table, fun _ => .null)]] else matching

/-- The rows of `FROM table JOIN ..`. -/
def frames (outer : List (Frame Table Column)) (table : Table) (joins : List (Join Table Column)) :
    List (Frame Table Column) :=
  joins.foldl (fun frames join => frames.flatMap (db.joined outer join))
    ((db.rows table).map fun row => [(table, row)])

end Database

namespace Expr

variable (db : Database Table Column)

mutual

def truth : Expr Table Column → List (Frame Table Column) → Truth
  | constant truth, _ => some truth
  | compare comparison ref operand, scopes =>
    comparison.truth (db.lookup scopes ref) (db.operand scopes operand)
  | like ref pattern, scopes => (db.lookup scopes ref).like pattern
  | notLike ref pattern, scopes => ((db.lookup scopes ref).like pattern).map not
  | isNull ref, scopes => some (db.lookup scopes ref = .null)
  | isNotNull ref, scopes => some (db.lookup scopes ref ≠ .null)
  | isIn ref values, scopes => Truth.anyOf (values.map (db.lookup scopes ref).eq)
  | all conditions, scopes => Truth.allOf (truths conditions scopes)
  | any conditions, scopes => Truth.anyOf (truths conditions scopes)
  | existsIn table joins conditions, scopes =>
    some ((db.frames scopes table joins).any fun frame =>
      Truth.allOf (truths conditions (frame :: scopes)) = some true)

def truths : List (Expr Table Column) → List (Frame Table Column) → List Truth
  | [], _ => []
  | condition :: rest, scopes => truth condition scopes :: truths rest scopes

end

/-- The condition lets the row through. -/
def Holds (scopes : List (Frame Table Column)) (condition : Expr Table Column) : Prop :=
  condition.truth db scopes = some true

instance (scopes : List (Frame Table Column)) (condition : Expr Table Column) :
    Decidable (condition.Holds db scopes) := inferInstanceAs (Decidable (_ = _))

variable {db} {scopes : List (Frame Table Column)} {conditions : List (Expr Table Column)}

theorem truths_eq : truths db conditions scopes = conditions.map fun condition => condition.truth db scopes := by
  induction conditions with
  | nil => rfl
  | cons first rest ih => rw [truths, ih, List.map_cons]

@[simp]
theorem holds_constant {truth : Bool} : (constant truth : Expr Table Column).Holds db scopes ↔ truth = true := by
  simp [Holds, Expr.truth]

@[simp]
theorem holds_all : (all conditions).Holds db scopes ↔ ∀ condition ∈ conditions, condition.Holds db scopes := by
  simp [Holds, truth, truths_eq, Truth.allOf_true]

@[simp]
theorem holds_any : (any conditions).Holds db scopes ↔ ∃ condition ∈ conditions, condition.Holds db scopes := by
  simp [Holds, truth, truths_eq, Truth.anyOf_true]

@[simp]
theorem holds_existsIn {table : Table} {joins : List (Join Table Column)} :
    (existsIn table joins conditions).Holds db scopes ↔ ∃ frame ∈ db.frames scopes table joins,
      ∀ condition ∈ conditions, condition.Holds db (frame :: scopes) := by
  simp [Holds, truth, truths_eq, Truth.allOf_true]

end Expr

end Qcm.Lib.Sql
