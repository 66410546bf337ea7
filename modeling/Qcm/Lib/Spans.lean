import Mathlib

/-!
Half-open spans of a linear order.  Spans that are sorted by their starts are
merged in one pass: a span that starts inside the one before it, or where that
one stops, is joined to it.  The merge covers what the spans cover, and what it
leaves apart is apart by a gap.
-/

namespace Qcm.Lib

universe u

/-- The span from `start`, without `stop`. -/
structure Span (α : Type u) where
  start : α
  stop : α

namespace Span

variable {α : Type u} [LinearOrder α]

def Holds (span : Span α) (place : α) : Prop := span.start ≤ place ∧ place < span.stop

/-- Whether some of the spans holds a place. -/
def Covered (spans : List (Span α)) (place : α) : Prop := ∃ span ∈ spans, span.Holds place

/-- The merge of the spans that follow into the last one so far. -/
def mergeInto (last : Span α) : List (Span α) → List (Span α)
  | [] => [last]
  | next :: rest =>
    if next.start ≤ last.stop then mergeInto ⟨last.start, max last.stop next.stop⟩ rest
    else last :: mergeInto next rest

/-- The merge of spans in their order. -/
def merge : List (Span α) → List (Span α)
  | [] => []
  | first :: rest => mergeInto first rest

/-- `sort_by_key` on the starts, which is stable. -/
def sorted (spans : List (Span α)) : List (Span α) :=
  spans.mergeSort fun left right => decide (left.start ≤ right.start)

variable {spans rest : List (Span α)} {last span : Span α} {place : α}

@[simp] theorem mem_sorted : span ∈ sorted spans ↔ span ∈ spans := List.mem_mergeSort

theorem sorted_pairwise (spans : List (Span α)) :
    (sorted spans).Pairwise fun left right => left.start ≤ right.start := by
  have ordered := @List.pairwise_mergeSort _ (fun left right : Span α => decide (left.start ≤ right.start))
    (fun first second third one two => by
      simp only [decide_eq_true_eq] at one two ⊢
      exact one.trans two)
    (fun first second => by
      simp only [Bool.or_eq_true, decide_eq_true_eq]
      exact le_total _ _) spans
  exact ordered.imp fun before => decide_eq_true_eq.mp before

theorem covered_cons : Covered (last :: rest) place ↔ last.Holds place ∨ Covered rest place := by
  simp only [Covered, List.mem_cons, exists_eq_or_imp]

/-- Two spans of which the second starts inside the first, or where it stops, are one. -/
theorem holds_joined {next : Span α} (after : last.start ≤ next.start) (touches : next.start ≤ last.stop) :
    Holds ⟨last.start, max last.stop next.stop⟩ place ↔ last.Holds place ∨ next.Holds place := by
  simp only [Holds, lt_max_iff]
  constructor
  · rintro ⟨low, inside | inside⟩
    · exact .inl ⟨low, inside⟩
    · rcases lt_or_ge place last.stop with before | beyond
      · exact .inl ⟨low, before⟩
      · exact .inr ⟨touches.trans beyond, inside⟩
  · rintro (⟨low, inside⟩ | ⟨low, inside⟩)
    · exact ⟨low, .inl inside⟩
    · exact ⟨after.trans low, .inr inside⟩

theorem mergeInto_covers (last : Span α) (later : ∀ span ∈ rest, last.start ≤ span.start)
    (ordered : rest.Pairwise fun left right => left.start ≤ right.start) :
    Covered (mergeInto last rest) place ↔ last.Holds place ∨ Covered rest place := by
  induction rest generalizing last with
  | nil => simp [mergeInto, Covered]
  | cons next rest ih =>
    obtain ⟨first, others⟩ := List.pairwise_cons.mp ordered
    rw [mergeInto, covered_cons]
    split
    · rename_i touches
      have joined := ih ⟨last.start, max last.stop next.stop⟩
        (fun span member => later span (.tail _ member)) others
      rw [joined, holds_joined (later next (.head _)) touches, or_assoc]
    · rw [covered_cons, ih _ first others]

theorem start_le_of_mem_mergeInto (last : Span α) (later : ∀ span ∈ rest, last.start ≤ span.start)
    (ordered : rest.Pairwise fun left right => left.start ≤ right.start) (member : span ∈ mergeInto last rest) :
    last.start ≤ span.start := by
  induction rest generalizing last with
  | nil =>
    rw [List.mem_singleton.mp member]
  | cons next rest ih =>
    obtain ⟨first, others⟩ := List.pairwise_cons.mp ordered
    rw [mergeInto] at member
    split at member
    · exact ih ⟨last.start, max last.stop next.stop⟩
        (fun span member => later span (.tail _ member)) others member
    · rcases List.mem_cons.mp member with rfl | member
      · exact le_rfl
      · exact (later next (.head _)).trans (ih _ first others member)

theorem mergeInto_separated (later : ∀ span ∈ rest, last.start ≤ span.start)
    (ordered : rest.Pairwise fun left right => left.start ≤ right.start) :
    (mergeInto last rest).Pairwise fun left right => left.stop < right.start := by
  induction rest generalizing last with
  | nil => exact List.pairwise_singleton _ _
  | cons next rest ih =>
    obtain ⟨first, others⟩ := List.pairwise_cons.mp ordered
    rw [mergeInto]
    split
    · exact ih (fun span member => later span (.tail _ member)) others
    · rename_i apart
      refine List.pairwise_cons.mpr ⟨fun span member => ?_, ih first others⟩
      exact (not_le.mp apart).trans_le (start_le_of_mem_mergeInto _ first others member)

/-- The merge covers what the spans cover. -/
theorem merge_covers (ordered : spans.Pairwise fun left right => left.start ≤ right.start) :
    Covered (merge spans) place ↔ Covered spans place := by
  cases spans with
  | nil => rfl
  | cons first rest =>
    obtain ⟨later, others⟩ := List.pairwise_cons.mp ordered
    rw [merge, mergeInto_covers _ later others, covered_cons]

/-- Between two spans of the merge there is a gap. -/
theorem merge_separated (ordered : spans.Pairwise fun left right => left.start ≤ right.start) :
    (merge spans).Pairwise fun left right => left.stop < right.start := by
  cases spans with
  | nil => exact .nil
  | cons first rest =>
    obtain ⟨later, others⟩ := List.pairwise_cons.mp ordered
    exact mergeInto_separated later others

theorem mergeInto_bounded {bound : α} (stops : last.stop ≤ bound) (within : ∀ span ∈ rest, span.stop ≤ bound)
    (member : span ∈ mergeInto last rest) : span.stop ≤ bound := by
  induction rest generalizing last with
  | nil => rwa [List.mem_singleton.mp member]
  | cons next rest ih =>
    have follows := within next (.head _)
    have others := fun span member => within span (.tail _ member)
    rw [mergeInto] at member
    split at member
    · exact ih (max_le stops follows) others member
    · rcases List.mem_cons.mp member with rfl | member
      · exact stops
      · exact ih follows others member

/-- The merge stays within the bounds of the spans. -/
theorem merge_bounded {bound : α} (within : ∀ span ∈ spans, span.stop ≤ bound) (member : span ∈ merge spans) :
    span.stop ≤ bound := by
  cases spans with
  | nil => exact absurd member List.not_mem_nil
  | cons first rest =>
    exact mergeInto_bounded (within first (.head _))
      (fun span member => within span (.tail _ member)) member

theorem mergeInto_ne_nil : mergeInto last rest ≠ [] := by
  induction rest generalizing last with
  | nil => exact List.cons_ne_nil _ _
  | cons next rest ih =>
    rw [mergeInto]
    split
    · exact ih
    · exact List.cons_ne_nil _ _

theorem merge_eq_nil : merge spans = [] ↔ spans = [] := by
  cases spans with
  | nil => exact ⟨fun _ => rfl, fun _ => rfl⟩
  | cons first rest => exact ⟨fun none => absurd none mergeInto_ne_nil, fun none => absurd none (List.cons_ne_nil _ _)⟩

end Span

end Qcm.Lib
