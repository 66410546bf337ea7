import Qcm.Lib.Sql

/-!
Queries of SQLite: what a `SELECT` has to resolve before it runs, and the rows it
gives.  The order of the rows is that of the engine, which may arrange the same
rows in another way each time.
-/

namespace Qcm.Lib.Sql

inductive SortKey (Table Column : Type) where
  | column (ref : ColumnRef Table Column)
  /-- `RANDOM()` -/
  | random

/-- `SELECT output FROM table JOIN .. WHERE .. ORDER BY ..`, the keys ascending or not. -/
structure Query (Table Column : Type) where
  table : Table
  joins : List (Join Table Column)
  conditions : List (Expr Table Column)
  orderBy : List (SortKey Table Column × Bool)
  distinct : Bool
  output : List (ColumnRef Table Column)

variable {Table Column : Type} [DecidableEq Table]

section

variable (db : Database Table Column)

def Join.resolves (scopes : List (List Table)) (join : Join Table Column) : Bool :=
  db.resolves scopes join.left && db.resolves scopes join.right

def Operand.resolves (scopes : List (List Table)) : Operand Table Column → Bool
  | value _ => true
  | column ref => db.resolves scopes ref

namespace Expr

mutual

def resolves : Expr Table Column → List (List Table) → Bool
  | constant _, _ => true
  | compare _ ref operand, scopes => db.resolves scopes ref && operand.resolves db scopes
  | like ref _, scopes | notLike ref _, scopes | isNull ref, scopes | isNotNull ref, scopes | isIn ref _, scopes =>
    db.resolves scopes ref
  | all conditions, scopes | any conditions, scopes => allResolve conditions scopes
  | existsIn table joins conditions, scopes =>
    let scopes := (table :: joins.map Join.table) :: scopes
    joins.all (Join.resolves db scopes) && allResolve conditions scopes

def allResolve : List (Expr Table Column) → List (List Table) → Bool
  | [], _ => true
  | condition :: rest, scopes => resolves condition scopes && allResolve rest scopes

end

end Expr

def SortKey.resolves (scopes : List (List Table)) : SortKey Table Column → Bool
  | column ref => db.resolves scopes ref
  | random => true

/-- Every name in the query means one column. -/
def Query.prepares (query : Query Table Column) : Bool :=
  let scopes := [query.table :: query.joins.map Join.table]
  query.joins.all (Join.resolves db scopes) && Expr.allResolve db query.conditions scopes &&
    query.orderBy.all (fun key => key.1.resolves db scopes) && query.output.all (db.resolves scopes)

/-- The rows that the conditions let through. -/
def Query.found (query : Query Table Column) : List (Frame Table Column) :=
  (db.frames [] query.table query.joins).filter fun frame =>
    query.conditions.all fun condition => condition.Holds db [frame]

/-- What the query gives for its rows as they are arranged. -/
def Query.give (query : Query Table Column) (frames : List (Frame Table Column)) : List (List Value) :=
  let rows := frames.map fun frame => query.output.map (db.lookup [frame])
  if query.distinct then rows.dedup else rows

/-- `SELECT COUNT(*) FROM (query)` -/
def Query.count (query : Query Table Column) : Nat := (query.give db (query.found db)).length

end

/-- The order in which rows come out, each time a query is run. -/
structure Engine (Table Column : Type) where
  arrange : Nat → Query Table Column → List (Frame Table Column) → List (Frame Table Column)
  perm : ∀ turn query frames, (arrange turn query frames).Perm frames

/-- The rows of one run. -/
def Query.rows (db : Database Table Column) (engine : Engine Table Column) (turn : Nat) (query : Query Table Column) :
    List (List Value) :=
  query.give db (engine.arrange turn query (query.found db))

variable {db : Database Table Column} {engine : Engine Table Column} {turn : Nat} {query : Query Table Column}

theorem Query.give_perm {left right : List (Frame Table Column)} (same : left.Perm right) :
    (query.give db left).Perm (query.give db right) := by
  unfold give
  split
  · exact (same.map _).dedup
  · exact same.map _

theorem Query.rows_perm : (query.rows db engine turn).Perm (query.give db (query.found db)) :=
  give_perm (engine.perm turn query _)

variable (engine turn) in
theorem Query.length_rows : (query.rows db engine turn).length = query.count db := rows_perm.length_eq

theorem Query.count_eq_zero : query.count db = 0 ↔ query.found db = [] := by
  unfold count give
  split <;> simp [List.length_eq_zero_iff]

end Qcm.Lib.Sql
