import Mathlib

/-!
What can be reached in a graph, by a loop over a list that grows while it is
walked.  The graph is given by the neighbours of a node, and only finitely many
of the nodes that can be reached have any: the loop ends after as many rounds as
there are roots and links.
-/

namespace Qcm.Lib.Worklist

variable {α : Type*} {next : α → List α} {roots : List α}

/-- The nodes that can be reached from the roots. -/
inductive Reaches (next : α → List α) (roots : List α) : α → Prop where
  | root {a : α} (member : a ∈ roots) : Reaches next roots a
  | link {a b : α} (reached : Reaches next roots a) (linked : b ∈ next a) : Reaches next roots b

/-- A set that holds the roots and is closed under links holds what is reached. -/
theorem Reaches.closed {P : α → Prop} {a : α} (reached : Reaches next roots a)
    (base : ∀ a ∈ roots, P a) (step : ∀ a, P a → ∀ b ∈ next a, P b) : P a := by
  induction reached with
  | root member => exact base _ member
  | link _ linked ih => exact step _ ih _ linked

/-- Only the links of what is reached matter. -/
theorem Reaches.mono {next' : α → List α} {a : α} (reached : Reaches next roots a)
    (same : ∀ a, Reaches next roots a → ∀ b ∈ next a, b ∈ next' a) : Reaches next' roots a := by
  induction reached with
  | root member => exact .root member
  | link before linked ih => exact .link ih (same _ before _ linked)

variable [DecidableEq α]

/-- The loop: the nodes that wait, and those that were seen. -/
def visit (next : α → List α) : Nat → List α → List α → List α
  | 0, _, seen => seen
  | _, [], seen => seen
  | rounds + 1, a :: pending, seen =>
    if a ∈ seen then visit next rounds pending seen
    else visit next rounds (pending ++ next a) (a :: seen)

/-- The links of the nodes that were not seen yet. -/
def unseen (next : α → List α) (support : Finset α) (seen : List α) : Nat :=
  ∑ a ∈ support with a ∉ seen, (next a).length

/-- A node that is seen takes its links from those to come. -/
theorem unseen_cons {support : Finset α} {seen : List α} {a : α} (fresh : a ∉ seen)
    (outside : a ∉ support → next a = []) :
    (next a).length + unseen next support (a :: seen) = unseen next support seen := by
  have rest : ({b ∈ support | b ∉ a :: seen} : Finset α) =
      ({b ∈ support | b ∉ seen} : Finset α).erase a := by
    ext b
    simp only [Finset.mem_filter, Finset.mem_erase, List.mem_cons]
    tauto
  unfold unseen
  rw [rest]
  by_cases member : a ∈ support
  · exact Finset.add_sum_erase _ (fun a => (next a).length) (Finset.mem_filter.mpr ⟨member, fresh⟩)
  · rw [outside member, List.length_nil, Nat.zero_add, Finset.erase_eq_of_notMem]
    exact fun inside => member (Finset.mem_filter.mp inside).1

variable {support : Finset α}

/-- With enough rounds, the loop holds what it was given and is closed under links. -/
theorem visit_closed (outside : ∀ a, Reaches next roots a → a ∉ support → next a = [])
    (rounds : Nat) (pending seen : List α) (waiting : ∀ a ∈ pending, Reaches next roots a)
    (enough : pending.length + unseen next support seen ≤ rounds)
    (followed : ∀ a ∈ seen, ∀ b ∈ next a, b ∈ seen ∨ b ∈ pending) :
    (∀ a, a ∈ seen ∨ a ∈ pending → a ∈ visit next rounds pending seen) ∧
      ∀ a ∈ visit next rounds pending seen, ∀ b ∈ next a, b ∈ visit next rounds pending seen := by
  induction rounds generalizing pending seen with
  | zero =>
    obtain rfl : pending = [] := List.eq_nil_of_length_eq_zero (by omega)
    simpa [visit] using followed
  | succ rounds ih =>
    cases pending with
    | nil => simpa [visit] using followed
    | cons a pending =>
      obtain ⟨reached, later⟩ := List.forall_mem_cons.mp waiting
      rw [visit]
      rw [List.length_cons] at enough
      by_cases known : a ∈ seen
      · rw [if_pos known]
        have followed' : ∀ c ∈ seen, ∀ b ∈ next c, b ∈ seen ∨ b ∈ pending := by
          intro c member b linked
          obtain old | now := followed c member b linked
          · exact .inl old
          · obtain rfl | later := List.mem_cons.mp now
            · exact .inl known
            · exact .inr later
        obtain ⟨holds, closed⟩ := ih pending seen later (by omega) followed'
        refine ⟨fun b given => holds b ?_, closed⟩
        obtain old | now := given
        · exact .inl old
        · obtain rfl | later := List.mem_cons.mp now
          · exact .inl known
          · exact .inr later
      · rw [if_neg known]
        have spent : (next a).length + unseen next support (a :: seen) = unseen next support seen :=
          unseen_cons known (outside a reached)
        have followed' : ∀ c ∈ a :: seen, ∀ b ∈ next c, b ∈ a :: seen ∨ b ∈ pending ++ next a := by
          intro c member b linked
          obtain rfl | before := List.mem_cons.mp member
          · exact .inr (List.mem_append_right _ linked)
          · have := followed c before b linked
            simp only [List.mem_cons, List.mem_append] at this ⊢
            tauto
        have waiting' : ∀ b ∈ pending ++ next a, Reaches next roots b := by
          intro b member
          obtain before | linked := List.mem_append.mp member
          · exact later b before
          · exact reached.link linked
        obtain ⟨holds, closed⟩ := ih (pending ++ next a) (a :: seen) waiting'
          (by rw [List.length_append]; omega) followed'
        refine ⟨fun b given => holds b ?_, closed⟩
        simp only [List.mem_cons, List.mem_append] at given ⊢
        tauto

/-- The loop only meets what can be reached. -/
theorem visit_reached (rounds : Nat) (pending seen : List α)
    (waiting : ∀ a ∈ pending, Reaches next roots a) (met : ∀ a ∈ seen, Reaches next roots a) :
    ∀ a ∈ visit next rounds pending seen, Reaches next roots a := by
  induction rounds generalizing pending seen with
  | zero => simpa [visit] using met
  | succ rounds ih =>
    cases pending with
    | nil => simpa [visit] using met
    | cons a pending =>
      obtain ⟨reached, later⟩ := List.forall_mem_cons.mp waiting
      rw [visit]
      split
      · exact ih pending seen later met
      · refine ih _ _ ?_ (List.forall_mem_cons.mpr ⟨reached, met⟩)
        intro b member
        obtain before | linked := List.mem_append.mp member
        · exact later b before
        · exact reached.link linked

/-- The loop over the roots meets exactly what can be reached from them. -/
theorem mem_visit (outside : ∀ a, Reaches next roots a → a ∉ support → next a = []) {rounds : Nat}
    (enough : roots.length + ∑ a ∈ support, (next a).length ≤ rounds) (a : α) :
    a ∈ visit next rounds roots [] ↔ Reaches next roots a := by
  constructor
  · exact visit_reached rounds roots [] (fun a => .root) (by simp) a
  · intro reached
    obtain ⟨holds, closed⟩ := visit_closed outside rounds roots [] (fun a => .root)
      (by simpa [unseen] using enough) (by simp)
    exact reached.closed (fun a member => holds a (.inr member)) closed

end Qcm.Lib.Worklist
