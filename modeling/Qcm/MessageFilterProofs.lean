import Qcm.Lib.Fallible
import Qcm.MessageFilters

/-!
What the condition of a request's filters says of a row.  The documented meaning
speaks of groups and relations as sets of filters; how often and in which order a
filter or a relation is given does not occur in it.
-/

namespace Qcm.MessageFilterProofs

open Lib Lib.Sql MessageFilters

variable {F : Type} (groupOf : F → Int) (toExpr : F → Except Panic (Option Expr))

section

variable (holds : Expr → Prop) (filters : List F)

/-- A filter of the group says something. -/
def Filled (g : Int) : Prop := ∃ f ∈ filters, groupOf f = g ∧ ∃ expr, toExpr f = .ok (some expr)

/-- Inside a group the filters are joined by AND. -/
def InGroup (g : Int) : Prop :=
  ∀ f ∈ filters, groupOf f = g → ∀ expr, toExpr f = .ok (some expr) → holds expr

/-- The two groups of the entry are not empty. -/
def Survives (entry : FilterLogic) : Prop :=
  Filled groupOf toExpr filters entry.groupA ∧ Filled groupOf toExpr filters entry.groupB

def Related (entry : FilterLogic) : Prop :=
  match LogicOp.ofI32 entry.op with
  | .or => InGroup groupOf toExpr holds filters entry.groupA ∨ InGroup groupOf toExpr holds filters entry.groupB
  | .and | .unspecified =>
    InGroup groupOf toExpr holds filters entry.groupA ∧ InGroup groupOf toExpr holds filters entry.groupB

/-- All relations, and all groups that no relation speaks of. -/
def Documented (logics : List FilterLogic) : Prop :=
  (∀ entry ∈ logics, Survives groupOf toExpr filters entry → Related groupOf toExpr holds filters entry) ∧
    ∀ g, Filled groupOf toExpr filters g →
      (∀ entry ∈ logics, Survives groupOf toExpr filters entry → g ≠ entry.groupA ∧ g ≠ entry.groupB) →
        InGroup groupOf toExpr holds filters g

end

variable {groupOf toExpr} {holds weaker : Expr → Prop} {filters others : List F} {logics otherLogics : List FilterLogic}
  {buckets : List (Int × List Expr)} {db : Database Table Column} {scopes : Scopes} {g : Int}

/-- The buckets hold the expressions of the filters, by their groups. -/
structure Sorted (groupOf : F → Int) (toExpr : F → Except Panic (Option Expr)) (filters : List F)
    (buckets : List (Int × List Expr)) : Prop where
  ascending : Buckets.Ascending buckets
  filled : ∀ g, (∃ exprs, (g, exprs) ∈ buckets) ↔ Filled groupOf toExpr filters g
  mem_iff : ∀ g exprs, (g, exprs) ∈ buckets → ∀ expr,
    expr ∈ exprs ↔ ∃ f ∈ filters, groupOf f = g ∧ toExpr f = .ok (some expr)

private theorem fill_of {rules : List (Int × Expr)} {start : List (Int × List Expr)} (known : Buckets.Of rules start)
    (done : filters.foldlM (addFilter groupOf toExpr) start = .ok buckets) :
    ∃ more, Buckets.Of (rules ++ more) buckets ∧
      ∀ g expr, (g, expr) ∈ more ↔ ∃ f ∈ filters, groupOf f = g ∧ toExpr f = .ok (some expr) := by
  induction filters generalizing rules start with
  | nil =>
    cases done
    exact ⟨[], by simpa using known, by simp⟩
  | cons f rest ih =>
    obtain ⟨middle, turned, later⟩ := bind_ok.mp done
    obtain ⟨resolved, known_f, turned⟩ := bind_ok.mp turned
    cases resolved with
    | none =>
      cases turned
      obtain ⟨more, of_more, mem_more⟩ := ih known later
      refine ⟨more, of_more, fun g expr => ?_⟩
      rw [mem_more]
      simp [known_f]
    | some expr =>
      cases turned
      obtain ⟨more, of_more, mem_more⟩ := ih known.push later
      refine ⟨(groupOf f, expr) :: more, by simpa using of_more, fun g other => ?_⟩
      rw [List.mem_cons, mem_more]
      simp [known_f, eq_comm]

theorem sorted_of_fillBuckets (done : fillBuckets groupOf toExpr filters = .ok buckets) :
    Sorted groupOf toExpr filters buckets := by
  obtain ⟨rules, known, mem_rules⟩ := fill_of Buckets.of_nil done
  rw [List.nil_append] at known
  have mem_values : ∀ g expr, expr ∈ valuesOf rules g ↔ (g, expr) ∈ rules := by
    intro g expr
    simp only [valuesOf, List.mem_filterMap, Prod.exists, Option.ite_none_right_eq_some, Option.some.injEq]
    constructor
    · rintro ⟨_, _, member, rfl, rfl⟩
      exact member
    · exact fun member => ⟨g, expr, member, rfl, rfl⟩
  refine ⟨known.ascending, fun g => ?_, fun g exprs member expr => ?_⟩
  · constructor
    · rintro ⟨exprs, member⟩
      obtain ⟨rfl, some⟩ := known.mem_iff.mp member
      obtain ⟨expr, inside⟩ := List.exists_mem_of_ne_nil _ some
      obtain ⟨f, member, same, resolved⟩ := (mem_rules g expr).mp ((mem_values g expr).mp inside)
      exact ⟨f, member, same, expr, resolved⟩
    · rintro ⟨f, member, same, expr, resolved⟩
      have inside := (mem_values g expr).mpr ((mem_rules g expr).mpr ⟨f, member, same, resolved⟩)
      exact ⟨_, known.mem_iff.mpr ⟨rfl, List.ne_nil_of_mem inside⟩⟩
  · rw [(known.mem_iff.mp member).1, mem_values, mem_rules]

theorem fillBuckets_ok : (∃ buckets, fillBuckets groupOf toExpr filters = .ok buckets) ↔
    ∀ f ∈ filters, ∃ resolved, toExpr f = .ok resolved := by
  suffices general : ∀ start, (∃ buckets, filters.foldlM (addFilter groupOf toExpr) start = .ok buckets) ↔
      ∀ f ∈ filters, ∃ resolved, toExpr f = .ok resolved from general []
  induction filters with
  | nil => exact fun start => ⟨by simp, fun _ => ⟨start, rfl⟩⟩
  | cons f rest ih =>
    intro start
    rw [List.forall_mem_cons]
    constructor
    · rintro ⟨buckets, done⟩
      obtain ⟨middle, turned, later⟩ := bind_ok.mp done
      obtain ⟨resolved, known, -⟩ := bind_ok.mp turned
      exact ⟨⟨resolved, known⟩, (ih middle).mp ⟨buckets, later⟩⟩
    · rintro ⟨⟨resolved, known⟩, later⟩
      obtain ⟨middle, turned⟩ : ∃ middle, addFilter groupOf toExpr start f = .ok middle := by
        rw [addFilter, known]
        cases resolved <;> exact ⟨_, rfl⟩
      obtain ⟨buckets, done⟩ := (ih middle).mpr later
      exact ⟨buckets, bind_ok.mpr ⟨middle, turned, done⟩⟩

variable (db scopes) in
/-- A group has a condition exactly when it is not empty, and it is that of the group. -/
theorem Sorted.groupCond_cases (sorted : Sorted groupOf toExpr filters buckets) (g : Int) :
    (Filled groupOf toExpr filters g ∧ ∃ condition, groupCond buckets g = some condition ∧
      (condition.Holds db scopes ↔ InGroup groupOf toExpr (Sql.Expr.Holds db scopes) filters g)) ∨
    (¬ Filled groupOf toExpr filters g ∧ groupCond buckets g = none) := by
  cases found : Buckets.get buckets g with
  | none =>
    refine .inr ⟨fun some => ?_, by rw [groupCond, found]; rfl⟩
    obtain ⟨exprs, member⟩ := (sorted.filled g).mpr some
    rw [(Buckets.mem_iff_get sorted.ascending).mp member] at found
    cases found
  | some exprs =>
    have member := (Buckets.mem_iff_get sorted.ascending).mpr found
    refine .inl ⟨(sorted.filled g).mp ⟨exprs, member⟩, .all exprs, by rw [groupCond, found]; rfl, ?_⟩
    rw [Sql.Expr.holds_all]
    constructor
    · intro all f inside same expr resolved
      exact all expr ((sorted.mem_iff g exprs member expr).mpr ⟨f, inside, same, resolved⟩)
    · intro all expr inside
      obtain ⟨f, member, same, resolved⟩ := (sorted.mem_iff g exprs member expr).mp inside
      exact all f member same expr resolved

variable (db scopes) in
/-- One entry adds the condition of its relation and speaks of both groups, or does nothing. -/
theorem Sorted.relate_cases (sorted : Sorted groupOf toExpr filters buckets) (pairs : Pairs) (entry : FilterLogic) :
    (Survives groupOf toExpr filters entry ∧ ∃ combined : Expr,
      (combined.Holds db scopes ↔ Related groupOf toExpr (Sql.Expr.Holds db scopes) filters entry) ∧
      relate buckets pairs entry =
        ⟨pairs.pairConds ++ [combined], entry.groupB :: entry.groupA :: pairs.referenced⟩) ∨
    (¬ Survives groupOf toExpr filters entry ∧ relate buckets pairs entry = pairs) := by
  rcases sorted.groupCond_cases db scopes entry.groupA with
    ⟨some_a, a, cond_a, holds_a⟩ | ⟨none_a, cond_a⟩
  · rcases sorted.groupCond_cases db scopes entry.groupB with
      ⟨some_b, b, cond_b, holds_b⟩ | ⟨none_b, cond_b⟩
    · refine .inl ⟨⟨some_a, some_b⟩, ?_⟩
      simp only [relate, cond_a, cond_b, Related]
      cases LogicOp.ofI32 entry.op with
      | or => exact ⟨.any [a, b], by simp [holds_a, holds_b], rfl⟩
      | and | unspecified => exact ⟨.all [a, b], by simp [holds_a, holds_b], rfl⟩
    · exact .inr ⟨fun both => none_b both.2, by rw [relate, cond_a, cond_b]⟩
  · exact .inr ⟨fun both => none_a both.1, by rw [relate, cond_a]⟩

variable (db scopes logics) in
/-- What all entries leave, whatever stood there before. -/
theorem Sorted.relates (sorted : Sorted groupOf toExpr filters buckets) (pairs : Pairs) :
    ((∀ condition ∈ (logics.foldl (relate buckets) pairs).pairConds, condition.Holds db scopes) ↔
      (∀ condition ∈ pairs.pairConds, condition.Holds db scopes) ∧ ∀ entry ∈ logics,
        Survives groupOf toExpr filters entry → Related groupOf toExpr (Sql.Expr.Holds db scopes) filters entry) ∧
    ∀ g, g ∈ (logics.foldl (relate buckets) pairs).referenced ↔ g ∈ pairs.referenced ∨
      ∃ entry ∈ logics, Survives groupOf toExpr filters entry ∧ (g = entry.groupA ∨ g = entry.groupB) := by
  induction logics generalizing pairs with
  | nil => simp
  | cons entry rest ih =>
    rw [List.foldl_cons]
    obtain ⟨conds, refs⟩ := ih (relate buckets pairs entry)
    rcases sorted.relate_cases db scopes pairs entry with
      ⟨survives, combined, holds, after⟩ | ⟨dropped, after⟩
    · rw [after] at conds refs ⊢
      refine ⟨?_, fun g => ?_⟩
      · rw [conds, List.forall_mem_append, List.forall_mem_singleton, holds, List.forall_mem_cons, and_assoc]
        exact and_congr_right fun _ => and_congr_left fun _ => ⟨fun related _ => related, fun related => related survives⟩
      · rw [refs, List.mem_cons, List.mem_cons]
        simp only [List.exists_mem_cons_iff, survives, true_and]
        generalize (∃ entry ∈ rest, _) = later
        grind
    · rw [after] at conds refs ⊢
      refine ⟨?_, fun g => ?_⟩
      · rw [conds, List.forall_mem_cons]
        exact and_congr_right fun _ => ⟨fun all => ⟨fun survives => absurd survives dropped, all⟩, And.right⟩
      · rw [refs]
        simp only [List.exists_mem_cons_iff, dropped, false_and, false_or]

/-- The row satisfies what was built exactly when it satisfies what is documented. -/
theorem Sorted.combine_documented (sorted : Sorted groupOf toExpr filters buckets) :
    Selects db scopes (combine buckets logics) ↔
      Documented groupOf toExpr (Sql.Expr.Holds db scopes) filters logics := by
  obtain ⟨conds, refs⟩ := sorted.relates logics db scopes ⟨[], []⟩
  rw [combine]
  split_ifs with empty
  · -- no filter says anything, so that no group is spoken of
    have none_filled : ∀ g, ¬ Filled groupOf toExpr filters g := by
      intro g some
      obtain ⟨exprs, member⟩ := (sorted.filled g).mpr some
      rw [List.isEmpty_iff.mp empty] at member
      cases member
    exact ⟨fun _ => ⟨fun _ _ survives => absurd survives.1 (none_filled _), fun g some => absurd some (none_filled g)⟩,
      fun _ => trivial⟩
  rw [Selects, Sql.Expr.holds_all, List.forall_mem_append, conds]
  refine and_congr ⟨fun all => all.2, fun all => ⟨by simp, all⟩⟩ ?_
  have unreferenced : ∀ g, (∀ entry ∈ logics, Survives groupOf toExpr filters entry →
      g ≠ entry.groupA ∧ g ≠ entry.groupB) ↔ g ∉ (logics.foldl (relate buckets) ⟨[], []⟩).referenced := by
    intro g
    rw [refs g]
    simp only [List.not_mem_nil, false_or, not_exists, not_and, not_or, ne_eq]
  simp only [unreferenced, List.mem_filterMap, Prod.exists, Option.ite_none_left_eq_some]
  constructor
  · intro all g some alone
    obtain ⟨exprs, member⟩ := (sorted.filled g).mpr some
    rcases sorted.groupCond_cases db scopes g with ⟨-, condition, cond, holds⟩ | ⟨none, -⟩
    · exact holds.mp (all condition ⟨g, exprs, member, alone, cond⟩)
    · exact absurd some none
  · rintro all condition ⟨g, exprs, member, alone, cond⟩
    rcases sorted.groupCond_cases db scopes g with ⟨some, other, other_cond, holds⟩ | ⟨-, none⟩
    · cases other_cond.symm.trans cond
      exact holds.mpr (all g some alone)
    · cases none.symm.trans cond

theorem build_documented {condition : Option Expr}
    (built : buildGroupedCondition groupOf toExpr filters logics = .ok condition) :
    Selects db scopes condition ↔ Documented groupOf toExpr (Sql.Expr.Holds db scopes) filters logics := by
  obtain ⟨buckets, filled, combined⟩ := bind_ok.mp built
  cases combined
  exact (sorted_of_fillBuckets filled).combine_documented

theorem build_ok : (∃ condition, buildGroupedCondition groupOf toExpr filters logics = .ok condition) ↔
    ∀ f ∈ filters, ∃ resolved, toExpr f = .ok resolved := by
  rw [← @fillBuckets_ok _ groupOf]
  constructor
  · rintro ⟨condition, built⟩
    obtain ⟨buckets, filled, -⟩ := bind_ok.mp built
    exact ⟨buckets, filled⟩
  · rintro ⟨buckets, filled⟩
    exact ⟨_, bind_ok.mpr ⟨buckets, filled, rfl⟩⟩

/-! ## Other orders, other ids -/

theorem documented_perm (same : filters.Perm others) (alike : logics.Perm otherLogics) :
    Documented groupOf toExpr holds filters logics ↔ Documented groupOf toExpr holds others otherLogics := by
  simp only [Documented, Survives, Related, Filled, InGroup, same.mem_iff, alike.mem_iff]

theorem documented_replace {before after : List F} {bad good : F} {none some : Expr} (group : groupOf bad = groupOf good)
    (resolves_bad : toExpr bad = .ok (Option.some none)) (resolves_good : toExpr good = .ok (Option.some some))
    (narrows : holds none → holds some)
    (documented : Documented groupOf toExpr holds (before ++ bad :: after) logics) :
    Documented groupOf toExpr holds (before ++ good :: after) logics := by
  have filled : ∀ g, Filled groupOf toExpr (before ++ bad :: after) g ↔
      Filled groupOf toExpr (before ++ good :: after) g := by
    intro g
    simp [Filled, resolves_bad, resolves_good, group, or_and_right, exists_or]
  have inside : ∀ g, InGroup groupOf toExpr holds (before ++ bad :: after) g →
      InGroup groupOf toExpr holds (before ++ good :: after) g := by
    intro g all f member same expr resolved
    rcases List.mem_append.mp member with early | rest
    · exact all f (List.mem_append_left _ early) same expr resolved
    rcases List.mem_cons.mp rest with rfl | late
    · cases resolves_good.symm.trans resolved
      exact narrows (all bad (by simp) (group.trans same) none resolves_bad)
    · exact all f (by simp [late]) same expr resolved
  refine ⟨fun entry member survives => ?_, fun g some alone => ?_⟩
  · have related := documented.1 entry member ⟨(filled _).mpr survives.1, (filled _).mpr survives.2⟩
    unfold Related at related ⊢
    split at related
    · exact related.imp (inside _) (inside _)
    · exact related.imp (inside _) (inside _)
    · exact related.imp (inside _) (inside _)
  · refine inside g (documented.2 g ((filled g).mpr some) fun entry member survives => ?_)
    exact alone entry member ⟨(filled _).mp survives.1, (filled _).mp survives.2⟩

/-- The payloads of an album's filter that carry an id. -/
def albumIds : List (IdFilter → AlbumPayload) := [.albumArtistIdFilter, .artistIdFilter]

def songIds : List (IdFilter → SongPayload) := [.albumIdFilter, .mixIdFilter]

/-- With an id that `required` turns down, the filter is one that no row passes. -/
theorem albumId_resolves (chrono : Chrono) {make : IdFilter → AlbumPayload} (kind : make ∈ albumIds) (group : Int)
    (id : IdFilter) : ∃ expr, albumFilterToExpr chrono ⟨group, some (make id)⟩ = .ok (some expr) ∧
      ∀ error, required id.value "filter_id" = .error error → ∀ db scopes, ¬ expr.Holds db scopes := by
  simp only [albumIds, List.mem_cons, List.not_mem_nil, or_false] at kind
  rcases kind with rfl | rfl <;> refine ⟨_, rfl, fun error bad db scopes => ?_⟩ <;> simp [bad]

theorem songId_resolves {make : IdFilter → SongPayload} (kind : make ∈ songIds) (group : Int) (id : IdFilter) :
    ∃ expr, songFilterToExpr ⟨group, some (make id)⟩ = .ok (some expr) ∧
      ∀ error, required id.value "filter_id" = .error error → ∀ db scopes, ¬ expr.Holds db scopes := by
  simp only [songIds, List.mem_cons, List.not_mem_nil, or_false] at kind
  rcases kind with rfl | rfl <;> refine ⟨_, rfl, fun error bad db scopes => ?_⟩ <;> simp [bad]

/-- What a filter that nothing passes lets through, any filter in its place lets through. -/
theorem build_replace {before after : List F} {bad good : F} (group : groupOf bad = groupOf good) {none some : Expr}
    (resolves_bad : toExpr bad = .ok (Option.some none)) (resolves_good : toExpr good = .ok (Option.some some))
    (nothing : ∀ db scopes, ¬ none.Holds db scopes) {condition : Option Expr}
    (built : buildGroupedCondition groupOf toExpr (before ++ bad :: after) logics = .ok condition) :
    ∃ other, buildGroupedCondition groupOf toExpr (before ++ good :: after) logics = .ok other ∧
      ∀ db scopes, Selects db scopes condition → Selects db scopes other := by
  have resolve := build_ok.mp ⟨condition, built⟩
  obtain ⟨other, built_other⟩ : ∃ other,
      buildGroupedCondition groupOf toExpr (before ++ good :: after) logics = .ok other := by
    refine build_ok.mpr fun f member => ?_
    rcases List.mem_append.mp member with early | rest
    · exact resolve f (List.mem_append_left _ early)
    rcases List.mem_cons.mp rest with rfl | late
    · exact ⟨_, resolves_good⟩
    · exact resolve f (by simp [late])
  refine ⟨other, built_other, fun db scopes selected => ?_⟩
  rw [build_documented built] at selected
  rw [build_documented built_other]
  exact documented_replace group resolves_bad resolves_good (fun holds => absurd holds (nothing db scopes)) selected

theorem groups_mean_what_is_documented :
    (∀ (F : Type) (groupOf : F → Int) (toExpr : F → Except Panic (Option Expr)) (filters : List F)
      (logics : List FilterLogic) (condition : Option Expr),
      buildGroupedCondition groupOf toExpr filters logics = .ok condition → ∀ db scopes,
        (Selects db scopes condition ↔ Documented groupOf toExpr (Sql.Expr.Holds db scopes) filters logics)) ∧
    (∀ (F : Type) (groupOf : F → Int) (toExpr : F → Except Panic (Option Expr)) (filters others : List F)
      (logics otherLogics : List FilterLogic), filters.Perm others → logics.Perm otherLogics →
      ∀ condition, buildGroupedCondition groupOf toExpr filters logics = .ok condition →
        ∃ other, buildGroupedCondition groupOf toExpr others otherLogics = .ok other ∧
          ∀ db scopes, Selects db scopes condition ↔ Selects db scopes other) ∧
    (∀ (chrono : Chrono) (before after : List (MessageFilters.Filter AlbumPayload)) (logics : List FilterLogic)
      (group : Int),
      ∀ make ∈ albumIds, ∀ (bad valid : IdFilter) (error : ProcessError),
      required bad.value "filter_id" = .error error → ∀ condition,
      buildGroupedCondition Filter.group (albumFilterToExpr chrono)
        (before ++ ⟨group, some (make bad)⟩ :: after) logics = .ok condition →
      ∃ other, buildGroupedCondition Filter.group (albumFilterToExpr chrono)
          (before ++ ⟨group, some (make valid)⟩ :: after) logics = .ok other ∧
        ∀ db scopes, Selects db scopes condition → Selects db scopes other) ∧
    (∀ (before after : List (MessageFilters.Filter SongPayload)) (logics : List FilterLogic) (group : Int),
      ∀ make ∈ songIds, ∀ (bad valid : IdFilter) (error : ProcessError),
      required bad.value "filter_id" = .error error → ∀ condition,
      buildGroupedCondition Filter.group songFilterToExpr
        (before ++ ⟨group, some (make bad)⟩ :: after) logics = .ok condition →
      ∃ other, buildGroupedCondition Filter.group songFilterToExpr
          (before ++ ⟨group, some (make valid)⟩ :: after) logics = .ok other ∧
        ∀ db scopes, Selects db scopes condition → Selects db scopes other) := by
  refine ⟨?documented, ?orders, ?albums, ?songs⟩
  case documented =>
    intro F groupOf toExpr filters logics condition built db scopes
    exact build_documented built
  case orders =>
    intro F groupOf toExpr filters others logics otherLogics same alike condition built
    obtain ⟨other, built_other⟩ : ∃ other, buildGroupedCondition groupOf toExpr others otherLogics = .ok other :=
      build_ok.mpr fun f member => build_ok.mp ⟨condition, built⟩ f (same.mem_iff.mpr member)
    refine ⟨other, built_other, fun db scopes => ?_⟩
    rw [build_documented built, build_documented built_other, documented_perm same alike]
  case albums =>
    intro chrono before after logics group make kind bad valid error refused condition built
    obtain ⟨none, resolves_bad, nothing⟩ := albumId_resolves chrono kind group bad
    obtain ⟨some, resolves_valid, -⟩ := albumId_resolves chrono kind group valid
    exact build_replace (by rfl) resolves_bad resolves_valid (nothing error refused) built
  case songs =>
    intro before after logics group make kind bad valid error refused condition built
    obtain ⟨none, resolves_bad, nothing⟩ := songId_resolves kind group bad
    obtain ⟨some, resolves_valid, -⟩ := songId_resolves kind group valid
    exact build_replace (by rfl) resolves_bad resolves_valid (nothing error refused) built

/-- Songs of the album 3, or of an album with a missing id. -/
theorem missing_id_beside_album :
    let album : MessageFilters.Filter SongPayload := ⟨1, some (.albumIdFilter ⟨some 3⟩)⟩
    let missing : MessageFilters.Filter SongPayload := ⟨2, some (.albumIdFilter ⟨none⟩)⟩
    let condition : Option Expr := some (.all [.any [.all [.compare .eq (col .albumId) (.value (.integer 3))],
      .all [.constant false]]])
    (∀ db scopes, Selects db scopes condition ↔ Documented Filter.group songFilterToExpr (Sql.Expr.Holds db scopes)
      [album, missing] [⟨2, 1, 2⟩]) ∧
    (∃ other, buildGroupedCondition Filter.group songFilterToExpr [missing, album] [⟨2, 1, 2⟩] = .ok other ∧
      ∀ db scopes, Selects db scopes condition ↔ Selects db scopes other) ∧
    ∃ other, buildGroupedCondition Filter.group songFilterToExpr
        [album, ⟨2, some (.albumIdFilter ⟨some 9⟩)⟩] [⟨2, 1, 2⟩] = .ok other ∧
      ∀ db scopes, Selects db scopes condition → Selects db scopes other :=
  ⟨groups_mean_what_is_documented.1 _ _ _ _ _ _ rfl,
    groups_mean_what_is_documented.2.1 _ _ _ _ _ _ _ (.swap ..) (.refl _) _ rfl,
    groups_mean_what_is_documented.2.2.2 [_] [] _ 2 .albumIdFilter (by simp [songIds]) ⟨none⟩ ⟨some 9⟩ _ rfl _ rfl⟩

end Qcm.MessageFilterProofs
