import Qcm.Lib.Fallible
import Qcm.EntityPages

/-!
What a client sees that turns the pages of a list.  The pages themselves are right
as long as the rows come out in one order; the sign that there is more stays on for
the last page that has rows, so that the client is right only where there are none.
-/

namespace Qcm.EntityPageProofs

open Lib Lib.Sql MessageFilters EntityPages

/-- The ids of the filtered set. -/
def filtered (db : Database Table Column) (query : Query) : List Int :=
  (query.give db (query.found db)).filterMap rowId

/-- The answers to a client that asks for one page after the other. -/
def Answers (chrono : Chrono) (engine : Engine) (db : Database Table Column) (request : Request)
    (pages : Nat → Response) : Prop :=
  ∀ n : Nat, (request.turnTo n).execute chrono engine n db = .ok (pages n)

/-- A client that asks on while there is more asks so often. -/
def Requests (pages : Nat → Response) (count : Nat) : Prop :=
  0 < count ∧ (∀ n, n + 1 < count → (pages n).hasMore = true) ∧ (pages (count - 1)).hasMore = false

def sizeOf (request : Request) : Nat := (PageParams.new request.page request.pageSize).pageSize

/-- The pages have the filtered set, each id once, and say where they end. -/
def Paged (chrono : Chrono) (engine : Engine) (db : Database Table Column) (request : Request) : Prop :=
  ∃ query pages, request.query chrono = .ok query ∧ Answers chrono engine db request pages ∧
    (∀ n, (filtered db query).length ≤ sizeOf request * n →
      ((List.range n).flatMap fun n => (pages n).ids).Perm (filtered db query)) ∧
    (∀ n, (pages n).hasMore = true ↔ ∃ later, n < later ∧ (pages later).ids ≠ []) ∧
    Requests pages (max 1 (((filtered db query).length + sizeOf request - 1) / sizeOf request))

/-- The request is answered, and the filtered set is empty. -/
def Quiet (chrono : Chrono) (db : Database Table Column) (request : Request) : Prop :=
  ∃ query, request.query chrono = .ok query ∧ query.prepares db = true ∧ request.confirm db = .ok () ∧
    query.found db = []

variable {chrono : Chrono} {engine : Engine} {db : Database Table Column} {request : Request} {query : Query}
  {pages : Nat → Response} {n : Nat}

theorem query_turnTo : (request.turnTo n).query chrono = request.query chrono := by
  cases request <;> rfl

theorem confirm_turnTo : (request.turnTo n).confirm db = request.confirm db := by
  cases request <;> rfl

theorem sizeOf_pos : 0 < sizeOf request := by
  simp [sizeOf, PageParams.new]

theorem params_turnTo : PageParams.new (request.turnTo n).page (request.turnTo n).pageSize = ⟨n, sizeOf request⟩ := by
  cases request <;> simp [Request.turnTo, Request.page, Request.pageSize, PageParams.new, sizeOf]

/-- The answer to the request for a page. -/
def pageOf (engine : Engine) (db : Database Table Column) (request : Request) (query : Query) (n : Nat) : Response :=
  ⟨(page (sizeOf request) n (query.rows db engine n)).filterMap rowId, asI32 (query.count db),
    n * sizeOf request < query.count db⟩

/-- A page is answered where the query is built and runs, whichever page it is. -/
theorem execute_ok {response : Response} : (request.turnTo n).execute chrono engine n db = .ok response ↔
    ∃ query, request.query chrono = .ok query ∧ query.prepares db = true ∧ request.confirm db = .ok () ∧
      response = pageOf engine db request query n := by
  rw [Request.execute, query_turnTo, confirm_turnTo, params_turnTo]
  constructor
  · intro done
    obtain ⟨query, built, run⟩ := bind_ok.mp done
    split at run
    case isFalse => cases run
    case isTrue prepares =>
      obtain ⟨⟨⟩, confirmed, answered⟩ := bind_ok.mp run
      cases answered
      exact ⟨query, built, prepares, confirmed, rfl⟩
  · rintro ⟨query, built, prepares, confirmed, rfl⟩
    rw [built]
    show (if query.prepares db = true then _ else _) = _
    rw [if_pos prepares, confirmed]
    rfl

theorem answers_iff : Answers chrono engine db request pages ↔
    ∃ query, request.query chrono = .ok query ∧ query.prepares db = true ∧ request.confirm db = .ok () ∧
      pages = pageOf engine db request query := by
  constructor
  · intro answers
    obtain ⟨query, built, prepares, confirmed, -⟩ := execute_ok.mp (answers 0)
    refine ⟨query, built, prepares, confirmed, funext fun n => ?_⟩
    obtain ⟨other, same, -, -, answer⟩ := execute_ok.mp (answers n)
    cases built.symm.trans same
    exact answer
  · rintro ⟨query, built, prepares, confirmed, rfl⟩ n
    exact execute_ok.mpr ⟨query, built, prepares, confirmed, rfl⟩

theorem hasMore_pageOf : (pageOf engine db request query n).hasMore = true ↔ sizeOf request * n < query.count db := by
  simp [pageOf, Nat.mul_comm]

theorem rows_of_ids (ids : (pageOf engine db request query n).ids ≠ []) : sizeOf request * n < query.count db := by
  rw [← Query.length_rows engine n, ← page_ne_nil sizeOf_pos]
  intro none
  exact ids (by simp [pageOf, none])

variable (engine request) in
/-- A client that follows the promise asks once more than there are pages with rows. -/
theorem requests_one_more (some : 0 < query.count db) :
    Requests (pageOf engine db request query) ((query.count db - 1) / sizeOf request + 1 + 1) := by
  have size := @sizeOf_pos request
  obtain ⟨full, rest, split, short⟩ : ∃ full rest, query.count db = sizeOf request * full + rest + 1 ∧
      rest < sizeOf request :=
    ⟨(query.count db - 1) / sizeOf request, (query.count db - 1) % sizeOf request,
      by rw [Nat.div_add_mod]; omega, Nat.mod_lt _ size⟩
  have last : (query.count db - 1) / sizeOf request = full := by
    rw [split, Nat.add_sub_cancel, Nat.mul_add_div size, Nat.div_eq_of_lt short, Nat.add_zero]
  rw [last]
  refine ⟨Nat.succ_pos _, fun n asked => ?_, ?_⟩
  · rw [hasMore_pageOf, split]
    have := Nat.mul_le_mul_left (sizeOf request) (show n ≤ full by omega)
    omega
  · rw [Nat.add_sub_cancel, Bool.eq_false_iff, ne_eq, hasMore_pageOf, split, Nat.mul_succ]
    omega

theorem paged_of_quiet (quiet : Quiet chrono db request) : Paged chrono engine db request := by
  obtain ⟨query, built, prepares, confirmed, none⟩ := quiet
  have count : query.count db = 0 := Query.count_eq_zero.mpr none
  have empty : filtered db query = [] := by
    rw [filtered, List.length_eq_zero_iff.mp count]
    rfl
  have no_ids : ∀ n, (pageOf engine db request query n).ids = [] := by
    intro n
    by_contra ids
    exact absurd (rows_of_ids ids) (by omega)
  have no_more : ∀ n, (pageOf engine db request query n).hasMore = false := by
    intro n
    rw [Bool.eq_false_iff, ne_eq, hasMore_pageOf]
    omega
  refine ⟨query, _, built, answers_iff.mpr ⟨query, built, prepares, confirmed, rfl⟩, ?_, ?_, ?_⟩
  · intro n _
    simp [empty, no_ids]
  · simp [no_ids, no_more]
  · have one : (([] : List Int).length + sizeOf request - 1) / sizeOf request = 0 := by
      have size := @sizeOf_pos request
      exact Nat.div_eq_of_lt (by simp only [List.length_nil]; omega)
    rw [empty, one]
    exact ⟨Nat.one_pos, fun n => by omega, no_more 0⟩

theorem paged_iff_quiet (chrono : Chrono) (engine : Engine) (db : Database Table Column) (request : Request) :
    Paged chrono engine db request ↔ Quiet chrono db request := by
  refine ⟨?_, paged_of_quiet⟩
  rintro ⟨query, pages, built, answers, -, ends, -⟩
  obtain ⟨other, same, prepares, confirmed, rfl⟩ := answers_iff.mp answers
  cases built.symm.trans same
  refine ⟨query, built, prepares, confirmed, Query.count_eq_zero.mp ?_⟩
  by_contra some
  -- the last page that has rows promises another one
  obtain ⟨-, promises, stops⟩ := requests_one_more engine request (Nat.pos_of_ne_zero some)
  rw [Bool.eq_false_iff, ne_eq, hasMore_pageOf, not_lt] at stops
  obtain ⟨later, behind, ids⟩ := (ends _).mp (promises ((query.count db - 1) / sizeOf request) (by omega))
  exact absurd (rows_of_ids ids) (not_lt.mpr (le_trans stops (Nat.mul_le_mul_left _ behind)))

/-- Rows in the order they are found. -/
def asFound : Engine := ⟨fun _ _ => id, fun _ _ _ => .refl _⟩

/-- A library with one mix, the mix 7. -/
def oneMix : Database Table Column :=
  database fun table => if table = .mix then [fun column => if column = .mixType then .integer 0 else .integer 7] else []

/-- Ten mixes to a page. -/
def mixsByTen : Request := .getMixs ⟨[], 0, 10, 0, true, [], []⟩

/-- The only page of the only mix says that there is more. -/
theorem only_page_has_more : ¬ ∀ (chrono : Chrono) (engine : Engine) (db : Database Table Column) (request : Request),
    Paged chrono engine db request := by
  intro claim
  obtain ⟨query, pages, built, answers, -, ends, -⟩ := claim ⟨-262143, 262142, by decide⟩ asFound oneMix mixsByTen
  obtain ⟨other, same, -, -, rfl⟩ := answers_iff.mp answers
  cases same
  obtain ⟨later, behind, ids⟩ := (ends 0).mp (by decide)
  have short := rows_of_ids ids
  rw [show Query.count oneMix _ = 1 from by decide, show sizeOf mixsByTen = 10 from rfl] at short
  omega

end Qcm.EntityPageProofs
