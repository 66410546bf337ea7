import Mathlib

/-!
A sequence cut at a separator, except where an odd number of quotes stands
before it.  A piece comes out whole when no separator in it is outside quotes
and its quotes are even.
-/

namespace Qcm.Lib.QuotedSplit

variable {α : Type*} [DecidableEq α] (quote separator : α)

/-- Whether what follows an element is in quotes. -/
def turn (quoted : Bool) (c : α) : Bool := if c = quote then !quoted else quoted

/-- The pieces of a sequence, the first of which begins with `part`, and whether
it ends in quotes; a piece that ends so is not given out. -/
def split : List α → Bool → List α → List (List α) × Bool
  | [], quoted, part => (if quoted then [] else [part], quoted)
  | c :: rest, quoted, part =>
    if c = separator ∧ turn quote quoted c = false then
      let later := split rest false []
      (part :: later.1, later.2)
    else split rest (turn quote quoted c) (part ++ [c])

/-- Whether what follows a sequence is in quotes. -/
def quotedAfter (quoted : Bool) (text : List α) : Bool := text.foldl (turn quote) quoted

/-- No separator of a sequence is outside quotes. -/
def held : Bool → List α → Bool
  | _, [] => true
  | quoted, c :: rest =>
    decide (c = separator → turn quote quoted c = true) && held (turn quote quoted c) rest

/-- A piece that comes out as it is. -/
def Whole (text : List α) : Prop :=
  held quote separator false text = true ∧ quotedAfter quote false text = false

variable {quote separator} {quoted : Bool} {part text rest : List α} {c : α}

theorem quotedAfter_cons :
    quotedAfter quote quoted (c :: text) = quotedAfter quote (turn quote quoted c) text := rfl

theorem quotedAfter_append :
    quotedAfter quote quoted (text ++ rest) = quotedAfter quote (quotedAfter quote quoted text) rest :=
  List.foldl_append

theorem held_append : held quote separator quoted (text ++ rest) =
    (held quote separator quoted text && held quote separator (quotedAfter quote quoted text) rest) := by
  induction text generalizing quoted with
  | nil => rfl
  | cons c text ih => rw [List.cons_append, held, ih, held, Bool.and_assoc, quotedAfter, quotedAfter, List.foldl_cons]

/-- Neither quotes nor separators leave everything as it is. -/
theorem of_plain (quotes : quote ∉ text) (separators : separator ∉ text) :
    held quote separator quoted text = true ∧ quotedAfter quote quoted text = quoted := by
  induction text generalizing quoted with
  | nil => exact ⟨rfl, rfl⟩
  | cons c text ih =>
    simp only [List.mem_cons, not_or] at quotes separators
    have same : turn quote quoted c = quoted := by rw [turn, if_neg (Ne.symm quotes.1)]
    rw [held, quotedAfter, List.foldl_cons, same]
    exact ⟨by simp [(ih quotes.2 separators.2).1, Ne.symm separators.1], (ih quotes.2 separators.2).2⟩

/-- Around a piece they do not matter. -/
theorem whole_padded {before after : List α} (left : quote ∉ before ∧ separator ∉ before)
    (right : quote ∉ after ∧ separator ∉ after) :
    Whole quote separator (before ++ (text ++ after)) ↔ Whole quote separator text := by
  have leads : held quote separator false before = true ∧ quotedAfter quote false before = false :=
    of_plain left.1 left.2
  have trails := fun quoted : Bool => @of_plain _ _ _ _ quoted _ right.1 right.2
  rw [Whole, held_append, held_append, leads.1, leads.2, (trails _).1, quotedAfter_append, leads.2,
    quotedAfter_append, (trails _).2, Bool.true_and, Bool.and_true, Whole]

/-- A sequence in quotes. -/
theorem whole_quoted (apart : separator ≠ quote) :
    Whole quote separator (quote :: (text ++ [quote])) ↔
      held quote separator true text = true ∧ quotedAfter quote true text = true := by
  have opens : turn quote false quote = true := by simp [turn]
  have closes (quoted : Bool) : turn quote quoted quote = !quoted := by simp [turn]
  rw [Whole, held, held_append, quotedAfter_cons, quotedAfter_append, opens, quotedAfter_cons, closes]
  simp [held, Ne.symm apart, quotedAfter]

/-- What is held goes into the piece. -/
theorem split_append (inside : held quote separator quoted text = true) :
    split quote separator (text ++ rest) quoted part =
      split quote separator rest (quotedAfter quote quoted text) (part ++ text) := by
  induction text generalizing quoted part with
  | nil => simp [quotedAfter]
  | cons c text ih =>
    rw [held, Bool.and_eq_true, decide_eq_true_eq] at inside
    have stays : ¬ (c = separator ∧ turn quote quoted c = false) := fun both => by
      rw [inside.1 both.1] at both
      cases both.2
    rw [List.cons_append, split, if_neg stays, ih inside.2, quotedAfter, quotedAfter, List.foldl_cons,
      List.append_assoc]
    rfl

/-- Where the first piece comes from. -/
theorem split_eq_cons (apart : separator ≠ quote) {first : List α} {pieces : List (List α)} {ends : Bool}
    (cut : split quote separator text quoted part = (first :: pieces, ends)) :
    ∃ front, first = part ++ front ∧ held quote separator quoted front = true ∧
      quotedAfter quote quoted front = false ∧
      (text = front ∧ pieces = [] ∧ ends = false ∨
        ∃ rest, text = front ++ separator :: rest ∧
          split quote separator rest false [] = (pieces, ends)) := by
  induction text generalizing quoted part with
  | nil =>
    rw [split] at cut
    cases quoted with
    | true => cases cut
    | false =>
      cases cut
      exact ⟨[], by simp, rfl, rfl, .inl ⟨rfl, rfl, rfl⟩⟩
  | cons c text ih =>
    rw [split] at cut
    split at cut
    · rename_i separates
      obtain ⟨rfl, outside⟩ := separates
      cases cut
      rw [turn, if_neg apart] at outside
      subst outside
      exact ⟨[], by simp, rfl, rfl, .inr ⟨text, rfl, rfl⟩⟩
    · rename_i stays
      obtain ⟨front, same, inside, after, or⟩ := ih cut
      refine ⟨c :: front, by simp [same], ?_, ?_, ?_⟩
      · rw [held, inside, Bool.and_true, decide_eq_true_eq]
        intro separates
        by_contra outside
        exact stays ⟨separates, by simpa using outside⟩
      · rw [quotedAfter, List.foldl_cons]
        exact after
      · obtain ⟨rfl, rest⟩ | ⟨rest, rfl, later⟩ := or
        · exact .inl ⟨rfl, rest⟩
        · exact .inr ⟨rest, rfl, later⟩

/-- A piece is made of what was cut. -/
theorem mem_of_mem_split {piece : List α} (inside : piece ∈ (split quote separator text quoted part).1)
    (member : c ∈ piece) : c ∈ part ∨ c ∈ text := by
  induction text generalizing quoted part with
  | nil =>
    rw [split] at inside
    cases quoted with
    | true => cases inside
    | false => exact .inl (List.mem_singleton.mp inside ▸ member)
  | cons first text ih =>
    rw [split] at inside
    split at inside
    · obtain rfl | later := List.mem_cons.mp inside
      · exact .inl member
      · exact .inr (.tail _ ((ih later).resolve_left (List.not_mem_nil)))
    · obtain before | after := ih inside
      · obtain before | here := List.mem_append.mp before
        · exact .inl before
        · exact .inr (List.mem_cons.mpr (.inl (List.mem_singleton.mp here)))
      · exact .inr (.tail _ after)

theorem split_separator (apart : separator ≠ quote) :
    split quote separator (separator :: rest) false part =
      (part :: (split quote separator rest false []).1, (split quote separator rest false []).2) := by
  rw [split, if_pos ⟨rfl, by rw [turn, if_neg apart]⟩]

theorem Whole.split (whole : Whole quote separator text) :
    QuotedSplit.split quote separator text false [] = ([text], false) := by
  have cut : QuotedSplit.split quote separator (text ++ []) false [] = _ := split_append whole.1
  rw [List.append_nil, whole.2, List.nil_append] at cut
  exact cut

/-- Every piece is whole. -/
theorem whole_of_mem_split (apart : separator ≠ quote) {piece : List α}
    (member : piece ∈ (split quote separator text false []).1) : Whole quote separator piece := by
  generalize cut : split quote separator text false [] = result at member
  obtain ⟨pieces, ends⟩ := result
  induction pieces generalizing text with
  | nil => cases member
  | cons first pieces ih =>
    obtain ⟨front, same, inside, after, rest⟩ := split_eq_cons apart cut
    rw [List.nil_append] at same
    obtain rfl | later := List.mem_cons.mp member
    · exact same ▸ ⟨inside, after⟩
    · obtain ⟨-, rfl, -⟩ | ⟨rest, -, cut⟩ := rest
      · cases later
      · exact ih cut later

/-- A list is cut back into its pieces exactly when each of them is whole. -/
theorem split_intercalate (apart : separator ≠ quote) {pieces : List (List α)} (some : pieces ≠ []) :
    split quote separator ([separator].intercalate pieces) false [] = (pieces, false) ↔
      ∀ piece ∈ pieces, Whole quote separator piece := by
  constructor
  · intro cut piece member
    have given : piece ∈ (split quote separator ([separator].intercalate pieces) false []).1 := by
      rw [cut]
      exact member
    exact whole_of_mem_split apart given
  · intro whole
    induction pieces with
    | nil => exact absurd rfl some
    | cons first pieces ih =>
      rw [List.forall_mem_cons] at whole
      by_cases last : pieces = []
      · subst last
        rw [List.intercalate_singleton]
        exact whole.1.split
      · rw [List.intercalate_cons_of_ne_nil last, List.append_assoc, split_append whole.1.1, whole.1.2,
          List.singleton_append, split_separator apart, ih last whole.2]
        rfl

end Qcm.Lib.QuotedSplit
