import Qcm.CachePolicy

/-!
How the answer of `Policy::fresh` depends on the order of the request's
directives.

Each `max-age` lowers the lifetime for what comes behind it, and each
`min-fresh` is compared with the lifetime it meets.  So the order matters where
some `min-fresh` lies between a `max-age` and the lifetime of the policy.
-/

namespace Qcm.PolicyFreshProofs

open Lib Lib.HttpField ResourceHeaders CachePolicy

/-- The limit that a directive sets. -/
def cap (d : Directive) : Option Nat :=
  if d.1 = Directive.maxAge then some ((parseArgument d.2).getD 0) else none

/-- The age up to which a directive wants the response to be fresh. -/
def demand (age : Nat) (d : Directive) : Option Nat :=
  if d.1 = Directive.minFresh then some (saturatingAdd ((parseArgument d.2).getD maxU64) age) else none

/-- Below a lifetime and every limit of the directives. -/
def Below (x lifetime : Nat) (ds : List Directive) : Prop :=
  x < lifetime ∧ ∀ d ∈ ds, ∀ c, cap d = some c → x < c

variable {age lifetime last x : Nat} {d : Directive} {ds others : List Directive}

/-- A lifetime with the limit of a directive. -/
def lowered (lifetime : Nat) (d : Directive) : Nat := ((cap d).map (min lifetime)).getD lifetime

variable {lines : List HeaderValue}

private theorem lt_lowered : x < lowered lifetime d ↔ x < lifetime ∧ ∀ c, cap d = some c → x < c := by
  rw [lowered]
  cases cap d with
  | none => simp
  | some c => simp

theorem limit_eq : Policy.limit age lifetime d =
    if ∃ f, demand age d = some f ∧ lifetime ≤ f then none else some (lowered lifetime d) := by
  have apart : Directive.maxAge ≠ Directive.minFresh := by decide
  rw [Policy.limit, lowered, cap, demand]
  by_cases most : d.1 = Directive.maxAge
  · simp [most, apart]
  · by_cases least : d.1 = Directive.minFresh
    · simp [least, apart.symm]
    · simp [most, least]

theorem below_cons : Below x lifetime (d :: ds) ↔ Below x (lowered lifetime d) ds := by
  simp only [Below, List.forall_mem_cons, lt_lowered, and_assoc]

/-- A loop that goes through ends with the lowest limit, and every demand was
below the lifetime it began with. -/
theorem loop_ends (done : ds.foldlM (Policy.limit age) lifetime = some last) :
    (∀ x, x < last ↔ Below x lifetime ds) ∧ ∀ d ∈ ds, ∀ f, demand age d = some f → f < lifetime := by
  induction ds generalizing lifetime with
  | nil =>
    cases done
    exact ⟨fun x => by simp [Below], by simp⟩
  | cons d ds ih =>
    rw [List.foldlM_cons, limit_eq] at done
    split at done
    · cases done
    · rename_i met
      have rest := ih done
      refine ⟨fun x => by rw [rest.1, below_cons], fun other member f wants => ?_⟩
      obtain rfl | later := List.mem_cons.mp member
      · by_contra above
        exact met ⟨f, wants, not_lt.mp above⟩
      · exact (lt_lowered.mp (rest.2 other later f wants)).1

/-- It goes through where every demand is below every limit. -/
theorem loop_goes (met : ∀ d ∈ ds, ∀ f, demand age d = some f → Below f lifetime ds) :
    ∃ last, ds.foldlM (Policy.limit age) lifetime = some last := by
  induction ds generalizing lifetime with
  | nil => exact ⟨lifetime, rfl⟩
  | cons d ds ih =>
    have meets : ¬ ∃ f, demand age d = some f ∧ lifetime ≤ f := fun ⟨f, wants, above⟩ =>
      absurd (met d (by simp) f wants).1 (not_lt.mpr above)
    rw [List.foldlM_cons, limit_eq, if_neg meets]
    exact ih fun other member f wants => below_cons.mp (met other (.tail _ member) f wants)

variable {policy : Policy} {now : Nat}

theorem freshWithin_iff : policy.freshWithin now ds = true ↔
    ∃ last, ds.foldlM (Policy.limit (policy.age now)) policy.lifetime = some last ∧ policy.age now < last := by
  rw [Policy.freshWithin]
  split
  · rename_i stopped
    simp [stopped]
  · rename_i lifetime done
    simp [done]

/-- Every demand is below the lifetime of the policy, but one of them is not
below every limit, while the age is. -/
def Contested (policy : Policy) (now : Nat) (ds : List Directive) : Prop :=
  Below (policy.age now) policy.lifetime ds ∧
    (∀ d ∈ ds, ∀ f, demand (policy.age now) d = some f → f < policy.lifetime) ∧
      ∃ d ∈ ds, ∃ f, demand (policy.age now) d = some f ∧ ∃ limiting ∈ ds, ∃ c, cap limiting = some c ∧ c ≤ f

theorem Below.perm (below : Below x lifetime ds) (same : others.Perm ds) : Below x lifetime others :=
  ⟨below.1, fun d member => below.2 d (same.mem_iff.mp member)⟩

theorem Contested.perm (contested : Contested policy now ds) (same : others.Perm ds) :
    Contested policy now others := by
  obtain ⟨below, demands, d, member, f, wants, limiting, there, c, caps, above⟩ := contested
  exact ⟨below.perm same, fun d member => demands d (same.mem_iff.mp member), d, same.mem_iff.mpr member, f, wants,
    limiting, same.mem_iff.mpr there, c, caps, above⟩

private theorem freshWithin_perm (agreed : ¬ Contested policy now ds) (same : others.Perm ds)
    (fresh : policy.freshWithin now ds = true) : policy.freshWithin now others = true := by
  obtain ⟨last, done, young⟩ := freshWithin_iff.mp fresh
  obtain ⟨lowest, demands⟩ := loop_ends done
  have below := (lowest _).mp young
  have met : ∀ d ∈ others, ∀ f, demand (policy.age now) d = some f → Below f policy.lifetime others := by
    intro d member f wants
    have there := same.mem_iff.mp member
    refine ⟨demands d there f wants, fun limiting inside c caps => ?_⟩
    by_contra above
    exact agreed ⟨below, demands, d, there, f, wants, limiting, same.mem_iff.mp inside, c, caps, not_lt.mp above⟩
  obtain ⟨others', through⟩ := loop_goes met
  exact freshWithin_iff.mpr ⟨others', through, ((loop_ends through).1 _).mpr (below.perm same)⟩

theorem freshWithin_of_perm (agreed : ¬ Contested policy now ds) (same : others.Perm ds) :
    policy.freshWithin now others = policy.freshWithin now ds := by
  rw [Bool.eq_iff_iff]
  exact ⟨freshWithin_perm (fun contested => agreed (contested.perm same.symm)) same.symm,
    freshWithin_perm agreed same⟩

/-- The directives that set no limit before those that do. -/
def demandsFirst (ds : List Directive) : List Directive :=
  ds.filter (fun d => (cap d).isNone) ++ ds.filter fun d => !(cap d).isNone

def limitsFirst (ds : List Directive) : List Directive :=
  ds.filter (fun d => !(cap d).isNone) ++ ds.filter fun d => (cap d).isNone

theorem demandsFirst_perm : (demandsFirst ds).Perm ds := List.filter_append_perm _ _

theorem limitsFirst_perm : (limitsFirst ds).Perm ds := List.perm_append_comm.trans demandsFirst_perm

private theorem demand_of_cap {c : Nat} (caps : cap d = some c) : demand age d = none := by
  have apart : Directive.maxAge ≠ Directive.minFresh := by decide
  rw [cap] at caps
  split at caps
  · rename_i most
    simp [demand, most, apart]
  · cases caps

theorem Contested.fresh (contested : Contested policy now ds) :
    policy.freshWithin now (demandsFirst ds) = true := by
  obtain ⟨below, demands, -⟩ := contested
  have first : ∀ d ∈ ds.filter (fun d => (cap d).isNone), ∀ f, demand (policy.age now) d = some f →
      Below f policy.lifetime (ds.filter fun d => (cap d).isNone) := by
    intro d member f wants
    refine ⟨demands d (List.mem_filter.mp member).1 f wants, fun limiting inside c caps => ?_⟩
    simpa [caps] using (List.mem_filter.mp inside).2
  obtain ⟨middle, front⟩ := loop_goes first
  have second : ∀ d ∈ ds.filter (fun d => !(cap d).isNone), ∀ f, demand (policy.age now) d = some f →
      Below f middle (ds.filter fun d => !(cap d).isNone) := by
    intro d member f wants
    obtain ⟨c, caps⟩ : ∃ c, cap d = some c := by
      simpa [Option.isSome_iff_exists] using (List.mem_filter.mp member).2
    rw [demand_of_cap caps] at wants
    cases wants
  obtain ⟨last, back⟩ := loop_goes second
  have done : (demandsFirst ds).foldlM (Policy.limit (policy.age now)) policy.lifetime = some last := by
    rw [demandsFirst, List.foldlM_append, front]
    exact back
  exact freshWithin_iff.mpr ⟨last, done, ((loop_ends done).1 _).mpr (below.perm demandsFirst_perm)⟩

theorem Contested.stale (contested : Contested policy now ds) :
    policy.freshWithin now (limitsFirst ds) = false := by
  obtain ⟨-, -, d, member, f, wants, limiting, inside, c, caps, above⟩ := contested
  rw [Bool.eq_false_iff]
  intro fresh
  obtain ⟨last, done, -⟩ := freshWithin_iff.mp fresh
  rw [limitsFirst, List.foldlM_append] at done
  obtain ⟨middle, front, back⟩ := Option.bind_eq_some_iff.mp done
  have free : (cap d).isNone = true := by
    cases caps' : cap d with
    | none => rfl
    | some other =>
      rw [demand_of_cap caps'] at wants
      cases wants
  have met : f < middle := (loop_ends back).2 d (List.mem_filter.mpr ⟨member, free⟩) f wants
  have first : limiting ∈ ds.filter fun d => !(cap d).isNone :=
    List.mem_filter.mpr ⟨inside, by simp [caps]⟩
  exact absurd ((((loop_ends front).1 f).mp met).2 limiting first c caps) (not_lt.mpr above)

variable {M : Type*} [MultiMap HeaderName HeaderValue M]

/-- A directive that keeps a stored response from being used. -/
def Forbidden (policy : Policy) (ds : List Directive) : Prop :=
  policy.noCache = true ∨ ∃ d ∈ ds, d.1 = Directive.noCache ∨ d.1 = Directive.noStore

/-- `Pragma: no-cache`, which counts where there is no `Cache-Control`. -/
def PragmaForbids (request : M) : Prop :=
  MultiMap.getAll request .cacheControl = [] ∧
    ∃ v, value request .pragma = some v ∧ Text.eqIgnoreAsciiCase v Directive.noCache = true

variable {request : M}

theorem fresh_iff : policy.fresh now request = true ↔
    ¬ PragmaForbids request ∧ ¬ Forbidden policy (directives request) ∧
      policy.freshWithin now (directives request) = true := by
  have pragma : (!MultiMap.containsKey request .cacheControl &&
      ((value request .pragma).map fun v => Text.eqIgnoreAsciiCase v Directive.noCache).getD false) = true ↔
        PragmaForbids request := by
    rw [Bool.and_eq_true, Bool.not_eq_true', ← Bool.not_eq_true, MultiMap.containsKey_iff, not_not,
      PragmaForbids]
    refine and_congr_right fun _ => ?_
    cases value request .pragma <;> simp
  have forbidden : (policy.noCache || (directives request).any fun d =>
      d.1 = Directive.noCache || d.1 = Directive.noStore) = true ↔ Forbidden policy (directives request) := by
    simp [Forbidden]
  rw [Policy.fresh]
  split
  · rename_i forbids
    simp [pragma.mp forbids]
  · rename_i allowed
    rw [pragma] at allowed
    simp only [allowed, not_false_eq_true, true_and]
    split
    · rename_i forbids
      simp [forbidden.mp forbids]
    · rename_i free
      rw [forbidden] at free
      simp [free]

/-- A request with the same directives in another order, within and across its
lines. -/
structure Reordered (request other : M) : Prop where
  permuted : (directives other).Perm (directives request)
  lines : MultiMap.getAll other .cacheControl = [] ↔ MultiMap.getAll request .cacheControl = []
  others (name : HeaderName) (different : name ≠ .cacheControl) :
    MultiMap.getAll other name = MultiMap.getAll request name

/-- A request with one more `max-age` or `min-fresh`. -/
structure Extended (request other : M) : Prop where
  inserted : ∃ front d back, directives request = front ++ back ∧ directives other = front ++ d :: back ∧
      (d.1 = Directive.maxAge ∨ d.1 = Directive.minFresh)
  others (name : HeaderName) (different : name ≠ .cacheControl) :
    MultiMap.getAll other name = MultiMap.getAll request name

/-- The order of the directives does not change the answer, and a further
`max-age` or `min-fresh` does not make it fresh. -/
structure OrderFree (policy : Policy) (now : Nat) (request : M) : Prop where
  reordered (other : M) (same : Reordered request other) : policy.fresh now other = policy.fresh now request
  extended (other : M) (more : Extended request other) (fresh : policy.fresh now other = true) :
    policy.fresh now request = true

/-- Every directive of a request can stand in a line of its own. -/
theorem exists_line (member : d ∈ directives request) : ∃ header, headerDirectives header = [d] := by
  obtain ⟨header, -, member⟩ := List.mem_flatMap.mp member
  have forbids : ∃ header, headerDirectives header = [(Directive.noStore, none)] :=
    ⟨⟨Directive.noStore, by decide⟩, by decide⟩
  rw [headerDirectives] at member
  cases read : header.toStr with
  | none =>
    rw [read] at member
    rw [List.mem_singleton.mp member]
    exact forbids
  | some text =>
    rw [read] at member
    obtain part | unclosed := List.mem_append.mp member
    · obtain ⟨piece, inside, reads⟩ := List.mem_filterMap.mp part
      have visible : ∀ c ∈ piece, isVisible c = true := by
        intro c there
        have seen : ∀ c ∈ text, isVisible c = true := by
          rw [HeaderValue.toStr] at read
          split at read <;> cases read
          rename_i visible
          exact visible
        exact seen c ((QuotedSplit.mem_of_mem_split inside there).resolve_left List.not_mem_nil)
      have whole := (QuotedSplit.whole_of_mem_split (by decide) inside).split
      refine ⟨⟨piece, fun c there => by rw [isFieldChar, visible c there, Bool.true_or]⟩, ?_⟩
      rw [headerDirectives, HeaderValue.toStr, if_pos visible]
      simp [lineDirectives, whole, reads]
    · split at unclosed
      · rw [List.mem_singleton.mp unclosed]
        exact forbids
      · cases unclosed

/-- A request with given lines of `Cache-Control`, and otherwise the same. -/
def withLines (request : M) (lines : List HeaderValue) : M :=
  lines.foldl (fun request line => MultiMap.append request .cacheControl line)
    (MultiMap.remove request .cacheControl)

theorem getAll_withLines {name : HeaderName} : MultiMap.getAll (withLines request lines) name =
      if name = .cacheControl then lines else MultiMap.getAll request name := by
  rw [withLines, MultiMap.getAll_foldl_append, MultiMap.getAll_remove]
  split <;> simp

theorem directives_withLines : directives (withLines request lines) = lines.flatMap headerDirectives := by
  rw [directives, getAll_withLines, if_pos rfl]

private theorem exists_lines (each : ∀ d ∈ ds, ∃ header, headerDirectives header = [d]) :
    ∃ lines : List HeaderValue, lines.flatMap headerDirectives = ds ∧ (lines = [] ↔ ds = []) := by
  induction ds with
  | nil => exact ⟨[], rfl, by simp⟩
  | cons d ds ih =>
    rw [List.forall_mem_cons] at each
    obtain ⟨header, reads⟩ := each.1
    obtain ⟨lines, rest, -⟩ := ih each.2
    exact ⟨header :: lines, by rw [List.flatMap_cons, reads, rest, List.singleton_append], by simp⟩

theorem exists_reordered (same : others.Perm (directives request)) (some : others ≠ []) :
    ∃ other : M, Reordered request other ∧ directives other = others := by
  obtain ⟨lines, reads, empty⟩ := exists_lines fun d member => exists_line (same.mem_iff.mp member)
  have read : directives (withLines request lines) = others := by rw [directives_withLines, reads]
  refine ⟨withLines request lines, ⟨read ▸ same, ?_, fun name different => ?_⟩, read⟩
  · have there : MultiMap.getAll request .cacheControl ≠ [] := by
      intro absent
      rw [directives, absent] at same
      exact some same.eq_nil
    rw [getAll_withLines, if_pos rfl, empty]
    exact iff_of_false some there
  · rw [getAll_withLines, if_neg different]

/-! ## When the order does not matter -/

private theorem value_of_others {other : M} {name : HeaderName}
    (same : MultiMap.getAll other name = MultiMap.getAll request name) :
    value other name = value request name := by
  rw [value, value, MultiMap.get, MultiMap.get, same]

theorem Forbidden.perm (forbidden : Forbidden policy ds) (same : others.Perm ds) : Forbidden policy others :=
  forbidden.imp id fun ⟨d, member, forbids⟩ => ⟨d, same.mem_iff.mpr member, forbids⟩

theorem Reordered.fresh {other : M} (same : Reordered request other)
    (agreed : Forbidden policy (directives request) ∨ ¬ Contested policy now (directives request)) :
    policy.fresh now other = policy.fresh now request := by
  have pragma : PragmaForbids other ↔ PragmaForbids request := by
    rw [PragmaForbids, same.lines, value_of_others (same.others .pragma (by decide)), PragmaForbids]
  have forbidden : Forbidden policy (directives other) ↔ Forbidden policy (directives request) :=
    ⟨fun forbids => forbids.perm same.permuted.symm, fun forbids => forbids.perm same.permuted⟩
  rw [Bool.eq_iff_iff, fresh_iff, fresh_iff, pragma, forbidden]
  refine and_congr_right fun _ => and_congr_right fun free => ?_
  rw [freshWithin_of_perm (agreed.resolve_left free) same.permuted]

/-- A higher lifetime does not end the loop earlier. -/
private theorem loop_mono {higher : Nat} (le : lifetime ≤ higher)
    (done : ds.foldlM (Policy.limit age) lifetime = some last) :
    ∃ more, ds.foldlM (Policy.limit age) higher = some more ∧ last ≤ more := by
  induction ds generalizing lifetime higher with
  | nil =>
    cases done
    exact ⟨higher, rfl, le⟩
  | cons d ds ih =>
    rw [List.foldlM_cons, limit_eq] at done
    split at done
    · cases done
    · rename_i met
      have meets : ¬ ∃ f, demand age d = some f ∧ higher ≤ f := fun ⟨f, wants, above⟩ =>
        met ⟨f, wants, le.trans above⟩
      have lower : lowered lifetime d ≤ lowered higher d := by
        rw [lowered, lowered]
        cases cap d with
        | none => exact le
        | some c =>
          simp only [Option.map_some, Option.getD_some]
          omega
      rw [List.foldlM_cons, limit_eq, if_neg meets]
      exact ih lower done

private theorem freshWithin_without {front back : List Directive}
    (fresh : policy.freshWithin now (front ++ d :: back) = true) :
    policy.freshWithin now (front ++ back) = true := by
  obtain ⟨last, done, young⟩ := freshWithin_iff.mp fresh
  rw [List.foldlM_append] at done
  obtain ⟨middle, first, rest⟩ := Option.bind_eq_some_iff.mp done
  rw [List.foldlM_cons, limit_eq] at rest
  split at rest
  · cases rest
  · have lower : lowered middle d ≤ middle := by
      rw [lowered]
      cases cap d with
      | none => exact le_refl _
      | some c => exact Nat.min_le_left _ _
    obtain ⟨more, through, le⟩ := loop_mono lower rest
    refine freshWithin_iff.mpr ⟨more, ?_, lt_of_lt_of_le young le⟩
    rw [List.foldlM_append, first]
    exact through

theorem Extended.fresh {other : M} (more : Extended request other)
    (heard : policy.noCache = true ∨ ¬ PragmaForbids request ∨ policy.lifetime ≤ policy.age now)
    (fresh : policy.fresh now other = true) : policy.fresh now request = true := by
  obtain ⟨-, free, within⟩ := fresh_iff.mp fresh
  obtain ⟨front, d, back, here, there, -⟩ := more.inserted
  rw [there] at free within
  have remains := freshWithin_without within
  rw [fresh_iff, here]
  refine ⟨?_, fun forbids => free (forbids.imp id ?_), remains⟩
  · obtain cache | allowed | old := heard
    · exact absurd (.inl cache) free
    · exact allowed
    · obtain ⟨last, done, young⟩ := freshWithin_iff.mp remains
      exact absurd (((loop_ends done).1 _).mp young).1 (not_lt.mpr old)
  · rintro ⟨other, member, forbids⟩
    exact ⟨other, by simp only [List.mem_append, List.mem_cons] at member ⊢; tauto, forbids⟩

private def anyAge : HeaderValue := ⟨"min-fresh=0".toList, by decide⟩

private theorem anyAge_read : headerDirectives anyAge = [(Directive.minFresh, some ['0'])] := by decide

/-- A request whose `Pragma` counted is answered once it has a `Cache-Control`. -/
private theorem fresh_of_pragma (pragma : PragmaForbids request) (cached : policy.noCache = false)
    (young : policy.age now < policy.lifetime) :
    Extended request (withLines request [anyAge]) ∧ policy.fresh now (withLines request [anyAge]) = true := by
  have none : directives request = [] := by rw [directives, pragma.1, List.flatMap_nil]
  have read : directives (withLines request [anyAge]) = [(Directive.minFresh, some ['0'])] := by
    rw [directives_withLines, List.flatMap_singleton, anyAge_read]
  refine ⟨⟨⟨[], _, [], none, read, .inr rfl⟩, fun name different => ?_⟩, ?_⟩
  · rw [getAll_withLines, if_neg different]
  · rw [fresh_iff, read]
    refine ⟨fun forbids => ?_, ?_, ?_⟩
    · have absent := forbids.1
      rw [getAll_withLines, if_pos rfl] at absent
      cases absent
    · rintro (cache | ⟨d, member, forbids⟩)
      · rw [cached] at cache
        cases cache
      · rw [List.mem_singleton.mp member] at forbids
        revert forbids
        decide
    · have zero : (parseArgument (some ['0'])).getD maxU64 = 0 := by decide
      have least : saturatingAdd 0 (policy.age now) ≤ policy.age now := by
        rw [saturatingAdd, Nat.zero_add]
        exact Nat.min_le_left _ _
      have free : cap (Directive.minFresh, some ['0']) = Option.none := by decide
      have below {x : Nat} (le : x ≤ policy.age now) :
          Below x policy.lifetime [(Directive.minFresh, some ['0'])] :=
        ⟨lt_of_le_of_lt le young, by simp [free]⟩
      have met : ∀ d ∈ [(Directive.minFresh, some ['0'])], ∀ f, demand (policy.age now) d = some f →
          Below f policy.lifetime [(Directive.minFresh, some ['0'])] := by
        intro d member f wants
        rw [List.mem_singleton.mp member, demand, if_pos rfl, zero, Option.some.injEq] at wants
        exact wants ▸ below least
      obtain ⟨last, done⟩ := loop_goes met
      exact freshWithin_iff.mpr ⟨last, done, ((loop_ends done).1 _).mpr (below (le_refl _))⟩

/-- The order of a request's directives does not matter exactly when no
`min-fresh` is between a `max-age` and the lifetime of the policy, or the answer
is forbidden anyway; a further directive only matters where it keeps `Pragma`
from counting. -/
theorem orderFree_iff {request : M} : OrderFree policy now request ↔
    (Forbidden policy (directives request) ∨ ¬ Contested policy now (directives request)) ∧
      (policy.noCache = true ∨ ¬ PragmaForbids request ∨ policy.lifetime ≤ policy.age now) := by
  constructor
  · intro free
    refine ⟨?_, ?_⟩
    · by_contra! both
      obtain ⟨unforbidden, contested⟩ := both
      obtain ⟨d, member, -⟩ := contested.2.2
      have some {ds : List Directive} (same : ds.Perm (directives request)) : ds ≠ [] := by
        rintro rfl
        exact absurd (same.mem_iff.mpr member) List.not_mem_nil
      obtain ⟨young, first, read⟩ := exists_reordered demandsFirst_perm (some demandsFirst_perm)
      obtain ⟨old, second, read'⟩ := exists_reordered limitsFirst_perm (some limitsFirst_perm)
      have fresh : policy.fresh now young = true := by
        rw [fresh_iff, read]
        refine ⟨fun pragma => ?_, fun forbids => unforbidden (forbids.perm demandsFirst_perm.symm),
          contested.fresh⟩
        rw [directives, pragma.1, List.flatMap_nil] at read
        exact some demandsFirst_perm read.symm
      have stale := (fresh_iff.mp ((free.reordered old second).trans
        ((free.reordered young first).symm.trans fresh))).2.2
      rw [read', contested.stale] at stale
      cases stale
    · by_contra! both
      have cached : policy.noCache = false := by simpa using both.1
      obtain ⟨more, fresh⟩ := fresh_of_pragma both.2.1 cached both.2.2
      exact absurd both.2.1 (fresh_iff.mp (free.extended _ more fresh)).1
  · intro ⟨agreed, heard⟩
    exact ⟨fun _ same => same.fresh agreed, fun _ more => more.fresh heard⟩

/-- A response of age 0 that is fresh for 100 seconds. -/
def lastingPolicy : Policy := ⟨0, 0, 100, false, true, none, none, none⟩

/-- `min-fresh=10, max-age=5` in both orders. -/
def freshFirst : List (HeaderName × HeaderValue) :=
  [(.cacheControl, ⟨"min-fresh=10, max-age=5".toList, by decide⟩)]

def limitFirst : List (HeaderName × HeaderValue) :=
  [(.cacheControl, ⟨"max-age=5, min-fresh=10".toList, by decide⟩)]

/-- The order decides. -/
theorem order_decides : (directives limitFirst).Perm (directives freshFirst) ∧
    lastingPolicy.fresh 0 freshFirst = true ∧ lastingPolicy.fresh 0 limitFirst = false := by
  decide

end Qcm.PolicyFreshProofs
