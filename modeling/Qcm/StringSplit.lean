import Qcm.Lib.Spans

/-!
The splitting of a text at separators (`split` in `core/src/helper/str.cppm`).

A piece is a span of the text.  At a separator the loop goes on to the others of
the list with the text that the turn began with, and steps over one more character
in the end: it reads as it should where that character begins no separator.
-/

namespace Qcm.StringSplit

open Lib

abbrev Bytes := List UInt8

structure Cursor where
  it : Nat
  lastIt : Nat
  out : List (Span Nat)

def Cursor.take (s : Cursor) (sep : Bytes) : Cursor :=
  { it := s.it + sep.length, lastIt := s.it + sep.length, out := s.out ++ [⟨s.lastIt, s.it⟩] }

/-- A turn of the loop; what the separators are looked for in stays as it was. -/
def Cursor.turn (input : Bytes) (seps : List Bytes) (s : Cursor) : Cursor :=
  let sub := input.drop s.it
  let tested := seps.foldl (fun s sep => if sep <+: sub then s.take sep else s) s
  { tested with it := tested.it + 1 }

/-- The loop, with a limit on its turns. -/
def loop (input : Bytes) (seps : List Bytes) : Nat → Cursor → Cursor
  | 0, s => s
  | fuel + 1, s => if s.it < input.length then loop input seps fuel (s.turn input seps) else s

def Cursor.pieces (s : Cursor) : List (Span Nat) := if s.it ≠ s.lastIt then s.out ++ [⟨s.lastIt, s.it⟩] else s.out

/-- The cursor behind the loop. -/
def scanned (input : Bytes) (seps : List Bytes) : Cursor := loop input seps input.length ⟨0, 0, []⟩

def split (input : Bytes) (seps : List Bytes) : List (Span Nat) := (scanned input seps).pieces

/-! ## Fields -/

/-- The separators that begin at a place. -/
def standing (input : Bytes) (seps : List Bytes) (place : Nat) : List Bytes :=
  seps.filter fun sep => sep <+: input.drop place

/-- The fields from a place on, which is in a field that began at `start`.  Of several separators that begin at a place
the first one of the list is read there, and an empty field at the end is dropped. -/
inductive Fields (input : Bytes) (seps : List Bytes) : Nat → Nat → List (Span Nat) → Prop where
  | none : Fields input seps input.length input.length []
  | last {start : Nat} (filled : start < input.length) :
      Fields input seps start input.length [⟨start, input.length⟩]
  | sep {start place : Nat} {sep : Bytes} {rest : List (Span Nat)} (stands : (standing input seps place).head? = some sep)
      (later : Fields input seps (place + sep.length) (place + sep.length) rest) :
      Fields input seps start place (⟨start, place⟩ :: rest)
  | other {start place : Nat} {rest : List (Span Nat)} (inside : place < input.length)
      (free : standing input seps place = []) (later : Fields input seps start (place + 1) rest) :
      Fields input seps start place rest

/-- What `split` is to do. -/
structure Splits (input : Bytes) (seps : List Bytes) : Prop where
  fields : Fields input seps 0 0 (split input seps)
  inside : ∀ piece ∈ split input seps, piece.start ≤ piece.stop ∧ piece.stop ≤ input.length
  order : (split input seps).Pairwise fun earlier later => earlier.stop ≤ later.start
  apart : ∀ piece ∈ split input seps, ∀ sep ∈ seps, ¬ sep <:+: (input.drop piece.start).take (piece.stop - piece.start)
  ends : (scanned input seps).it ≤ input.length

/-- From a place on, separators as long as the given ones follow one another, and then a character at which none
begins. -/
def Spaced (input : Bytes) (seps : List Bytes) : Nat → List Bytes → Prop
  | place, [] => place < input.length ∧ standing input seps place = []
  | place, sep :: more =>
    (∃ other, (standing input seps place).head? = some other ∧ other.length = sep.length) ∧
      Spaced input seps (place + sep.length) more

/-- Wherever a turn comes to separators, they are spaced. -/
inductive Clean (input : Bytes) (seps : List Bytes) : Nat → Prop where
  | done : Clean input seps input.length
  | other {place : Nat} (inside : place < input.length) (free : standing input seps place = [])
      (later : Clean input seps (place + 1)) : Clean input seps place
  | seps {place : Nat} (some : standing input seps place ≠ [])
      (spaced : Spaced input seps place (standing input seps place))
      (later : Clean input seps (place + ((standing input seps place).map List.length).sum + 1)) : Clean input seps place

variable {input : Bytes} {seps more : List Bytes} {start place stop : Nat} {sep : Bytes} {piece : Span Nat}
  {pieces rest : List (Span Nat)} {s : Cursor}

theorem mem_standing : sep ∈ standing input seps place ↔ sep ∈ seps ∧ sep <+: input.drop place := by
  simp [standing]

namespace Fields

theorem place_le (fields : Fields input seps start place pieces) : place ≤ input.length := by
  induction fields with
  | none | last => exact Nat.le_refl _
  | sep _ _ ih => omega
  | other inside => exact Nat.le_of_lt inside

theorem inside (fields : Fields input seps start place pieces) (before : start ≤ place) :
    ∀ piece ∈ pieces, start ≤ piece.start ∧ piece.start ≤ piece.stop ∧ piece.stop ≤ input.length := by
  induction fields with
  | none => simp
  | last filled => simpa using Nat.le_of_lt filled
  | sep _ later ih =>
    have within := Nat.le_of_add_right_le later.place_le
    intro piece member
    obtain rfl | member := List.mem_cons.mp member
    · exact ⟨Nat.le_refl _, before, within⟩
    · have follows := ih (Nat.le_refl _) piece member
      omega
  | other _ _ _ ih => exact ih (by omega)

theorem order (fields : Fields input seps start place pieces) :
    pieces.Pairwise fun earlier later => earlier.stop ≤ later.start := by
  induction fields with
  | none => exact .nil
  | last => exact List.pairwise_singleton _ _
  | sep _ later ih =>
    refine List.pairwise_cons.mpr ⟨fun piece member => ?_, ih⟩
    exact Nat.le_of_add_right_le (later.inside (Nat.le_refl _) piece member).1
  | other _ _ _ ih => exact ih

/-- No separator begins in a field. -/
theorem free (fields : Fields input seps start place pieces)
    (early : ∀ i, start ≤ i → i < place → standing input seps i = []) :
    ∀ piece ∈ pieces, ∀ i, piece.start ≤ i → i < piece.stop → standing input seps i = [] := by
  induction fields with
  | none => simp
  | last => simpa using early
  | sep _ _ ih =>
    intro piece member
    obtain rfl | member := List.mem_cons.mp member
    · exact early
    · exact ih (fun i low high => absurd low (by omega)) piece member
  | @other start place rest _ free _ ih =>
    refine ih fun i low high => ?_
    obtain before | rfl := Nat.lt_succ_iff_lt_or_eq.mp high
    · exact early i low before
    · exact free

theorem apart (fields : Fields input seps 0 0 pieces) (filled : ∀ sep ∈ seps, sep ≠ []) :
    ∀ piece ∈ pieces, ∀ sep ∈ seps, ¬ sep <:+: (input.drop piece.start).take (piece.stop - piece.start) := by
  rintro piece member sep listed ⟨before, after, text⟩
  have positive := List.length_pos_iff.mpr (filled sep listed)
  have size := congrArg List.length text
  simp only [List.length_append, List.length_take] at size
  have begins : sep <+: input.drop (piece.start + before.length) := by
    rw [← List.drop_drop, ← List.take_append_drop (piece.stop - piece.start) (input.drop piece.start), ← text,
      List.append_assoc, List.append_assoc, List.drop_left]
    exact List.prefix_append _ _
  have none := fields.free (fun _ _ high => absurd high (Nat.not_lt_zero _)) piece member
    (piece.start + before.length) (by omega) (by omega)
  exact List.not_mem_nil (none ▸ mem_standing.mpr ⟨listed, begins⟩)

/-- The first field is the one that the place is in. -/
theorem head (fields : Fields input seps start place (piece :: rest)) : piece.start = start ∧ place ≤ piece.stop := by
  generalize whole : piece :: rest = pieces at fields
  induction fields with
  | none => cases whole
  | last => cases whole; exact ⟨rfl, Nat.le_refl _⟩
  | sep => cases whole; exact ⟨rfl, Nat.le_refl _⟩
  | other _ _ _ ih =>
    obtain ⟨same, within⟩ := ih whole
    exact ⟨same, by omega⟩

theorem sep_iff (inside : place < input.length) (stands : (standing input seps place).head? = some sep) :
    Fields input seps start place (⟨start, place⟩ :: rest) ↔
      Fields input seps (place + sep.length) (place + sep.length) rest := by
  refine ⟨fun fields => ?_, .sep stands⟩
  cases fields with
  | last => exact absurd inside (Nat.lt_irrefl _)
  | sep again later =>
    cases stands.symm.trans again
    exact later
  | other _ free =>
    rw [free] at stands
    cases stands

/-- At a place without a separator the field goes on. -/
theorem other_iff (inside : place < input.length) (free : standing input seps place = []) :
    Fields input seps start place pieces ↔ Fields input seps start (place + 1) pieces := by
  refine ⟨fun fields => ?_, .other inside free⟩
  cases fields with
  | none | last => exact absurd inside (Nat.lt_irrefl _)
  | sep stands => rw [free] at stands; cases stands
  | other _ _ later => exact later

end Fields

/-! ## Turns -/

/-- The pieces of separators that are taken where another one has been. -/
def empties : Nat → List Bytes → List (Span Nat)
  | _, [] => []
  | place, sep :: more => ⟨place, place⟩ :: empties (place + sep.length) more

theorem foldl_take (out : List (Span Nat)) : more.foldl Cursor.take ⟨place, place, out⟩ =
    ⟨place + (more.map List.length).sum, place + (more.map List.length).sum, out ++ empties place more⟩ := by
  induction more generalizing place out with
  | nil => simp [empties]
  | cons sep more ih => simp [Cursor.take, ih, empties, Nat.add_assoc]

theorem turn_eq : s.turn input seps =
    { (standing input seps s.it).foldl Cursor.take s with it := ((standing input seps s.it).foldl Cursor.take s).it + 1 } := by
  simp [Cursor.turn, standing, List.foldl_filter]

/-- Empty pieces, and then one that is not empty, are fields where the separators are spaced. -/
theorem empties_iff (filled : place + (more.map List.length).sum < stop) :
    Fields input seps place place (empties place more ++ ⟨place + (more.map List.length).sum, stop⟩ :: rest) ↔
      Spaced input seps place more ∧ Fields input seps (place + (more.map List.length).sum)
        (place + (more.map List.length).sum + 1) (⟨place + (more.map List.length).sum, stop⟩ :: rest) := by
  induction more generalizing place with
  | nil =>
    simp only [List.map_nil, List.sum_nil, Nat.add_zero] at filled ⊢
    constructor
    · intro fields
      cases fields with
      | last inside => exact absurd inside (Nat.lt_irrefl _)
      | sep => exact absurd filled (Nat.lt_irrefl _)
      | other inside free later => exact ⟨⟨inside, free⟩, later⟩
    · rintro ⟨⟨inside, free⟩, later⟩
      exact .other inside free later
  | cons sep more ih =>
    simp only [List.map_cons, List.sum_cons, ← Nat.add_assoc] at filled ⊢
    rw [Spaced, and_assoc, ← ih filled]
    constructor
    · intro fields
      generalize whole : empties place (sep :: more) ++ _ = pieces at fields
      cases fields with
      | none => cases whole
      | last inside => exact absurd inside (Nat.lt_irrefl _)
      | @sep _ _ other _ stands later =>
        cases whole
        have same : place + other.length = place + sep.length := by
          cases more with
          | nil => exact later.head.1.symm.trans (by simp)
          | cons => exact later.head.1.symm
        exact ⟨⟨other, stands, Nat.add_left_cancel same⟩, same ▸ later⟩
      | other _ _ later =>
        subst whole
        exact absurd later.head.2 (Nat.not_succ_le_self _)
    · rintro ⟨⟨other, stands, same⟩, later⟩
      exact .sep stands (by rwa [same])

namespace Clean

theorem place_le (clean : Clean input seps place) (filled : ∀ sep ∈ seps, sep ≠ []) : place ≤ input.length := by
  cases clean with
  | done => exact Nat.le_refl _
  | other inside => exact Nat.le_of_lt inside
  | seps some =>
    obtain ⟨sep, member⟩ := List.exists_mem_of_ne_nil _ some
    obtain ⟨listed, begins⟩ := mem_standing.mp member
    have positive := List.length_pos_iff.mpr (filled sep listed)
    have within := begins.length_le
    rw [List.length_drop] at within
    omega

theorem other_iff (inside : place < input.length) (free : standing input seps place = []) :
    Clean input seps place ↔ Clean input seps (place + 1) := by
  refine ⟨fun clean => ?_, .other inside free⟩
  cases clean with
  | done => exact absurd inside (Nat.lt_irrefl _)
  | other _ _ later => exact later
  | seps some => exact absurd free some

theorem seps_iff (inside : place < input.length) (some : standing input seps place ≠ []) :
    Clean input seps place ↔ Spaced input seps place (standing input seps place) ∧
      Clean input seps (place + ((standing input seps place).map List.length).sum + 1) := by
  refine ⟨fun clean => ?_, fun ⟨spaced, later⟩ => .seps some spaced later⟩
  cases clean with
  | done => exact absurd inside (Nat.lt_irrefl _)
  | other _ free => exact absurd free some
  | seps _ spaced later => exact ⟨spaced, later⟩

end Clean

/-- What the rest of the loop adds to the pieces: a piece from the start of the field on, and fields just where the rest
of the text is clean. -/
structure Reads (input : Bytes) (seps : List Bytes) (s final : Cursor) (rest : List (Span Nat)) : Prop where
  pieces : final.pieces = s.out ++ rest
  head : s.lastIt < s.it → ∃ stop tail, rest = ⟨s.lastIt, stop⟩ :: tail ∧ s.it ≤ stop
  fields : Fields input seps s.lastIt s.it rest ∧ final.it ≤ input.length ↔ Clean input seps s.it

theorem reads_stop (filled : ∀ sep ∈ seps, sep ≠ []) (outside : input.length ≤ s.it) (before : s.lastIt ≤ s.it) :
    ∃ rest, Reads input seps s s rest := by
  refine ⟨if s.it ≠ s.lastIt then [⟨s.lastIt, s.it⟩] else [], ?_, fun some => ?_, fun ⟨_, ends⟩ => ?_, fun clean => ?_⟩
  · unfold Cursor.pieces
    split <;> simp
  · rw [if_pos (Nat.ne_of_gt some)]
    exact ⟨s.it, [], rfl, Nat.le_refl _⟩
  · rw [Nat.le_antisymm ends outside]
    exact .done
  · have ends := Nat.le_antisymm (clean.place_le filled) outside
    refine ⟨?_, Nat.le_of_eq ends⟩
    rw [ends] at before ⊢
    obtain some | same := Nat.lt_or_eq_of_le before
    · rw [if_pos (Nat.ne_of_gt some)]
      exact .last some
    · rw [same, if_neg (not_not.mpr rfl)]
      exact .none

/-- From a cursor on, the loop reads what is left: the induction is on the turns that it may take. -/
theorem loop_reads (filled : ∀ sep ∈ seps, sep ≠ []) (fuel : Nat) (s : Cursor) (enough : input.length ≤ s.it + fuel)
    (before : s.lastIt ≤ s.it) : ∃ rest, Reads input seps s (loop input seps fuel s) rest := by
  induction fuel generalizing s with
  | zero => exact reads_stop filled enough before
  | succ fuel ih =>
    rw [loop]
    split
    swap
    · exact reads_stop filled (Nat.le_of_not_lt ‹_›) before
    rename_i inside
    rw [turn_eq]
    cases found : standing input seps s.it with
    | nil =>
      obtain ⟨rest, pieces, head, fields⟩ := ih { s with it := s.it + 1 } (by dsimp only; omega) (Nat.le_succ_of_le before)
      refine ⟨rest, pieces, fun some => ?_, ?_⟩
      · obtain ⟨stop, tail, whole, within⟩ := head (Nat.lt_succ_of_lt some)
        exact ⟨stop, tail, whole, Nat.le_of_succ_le within⟩
      · rw [Clean.other_iff inside found, Fields.other_iff inside found]
        exact fields
    | cons sep more =>
      have stands : (standing input seps s.it).head? = some sep := by rw [found]; rfl
      have filled : standing input seps s.it ≠ [] := by simp [found]
      rw [List.foldl_cons, Cursor.take, foldl_take]
      generalize place : s.it + sep.length + (more.map List.length).sum = next
      obtain ⟨rest, pieces, head, fields⟩ := ih
        ⟨next + 1, next, s.out ++ [⟨s.lastIt, s.it⟩] ++ empties (s.it + sep.length) more⟩ (by dsimp only; omega)
        (Nat.le_succ _)
      obtain ⟨stop, tail, rfl, within⟩ := head (Nat.lt_succ_self _)
      refine ⟨⟨s.lastIt, s.it⟩ :: (empties (s.it + sep.length) more ++ ⟨next, stop⟩ :: tail), ?_, ?_, ?_⟩
      · rw [pieces]
        simp
      · exact fun _ => ⟨s.it, _, rfl, Nat.le_refl _⟩
      · have spaced : Spaced input seps s.it (sep :: more) ↔ Spaced input seps (s.it + sep.length) more :=
          and_iff_right ⟨sep, stands, rfl⟩
        rw [Clean.seps_iff inside filled, Fields.sep_iff inside stands, found, spaced, List.map_cons, List.sum_cons,
          ← Nat.add_assoc, place]
        subst place
        rw [empties_iff within, and_assoc]
        exact and_congr_right fun _ => fields

/-- A text is split at separators as it should be exactly where it is clean: wherever the scan comes to separators,
those that begin there follow one another, and then comes a character at which none begins. -/
theorem split_iff_clean (filled : ∀ sep ∈ seps, sep ≠ []) : Splits input seps ↔ Clean input seps 0 := by
  obtain ⟨rest, pieces, -, reads⟩ : ∃ rest, Reads input seps ⟨0, 0, []⟩ (scanned input seps) rest :=
    loop_reads filled _ _ (Nat.le_add_left ..) (Nat.le_refl _)
  have whole : split input seps = rest := pieces
  constructor
  · intro splits
    exact reads.mp ⟨whole ▸ splits.fields, splits.ends⟩
  · intro clean
    obtain ⟨fields, ends⟩ := reads.mpr clean
    rw [← whole] at fields
    exact ⟨fields, fun piece member => (fields.inside (Nat.le_refl _) piece member).2, fields.order, fields.apart filled,
      ends⟩

/-- Two words with a comma between them. -/
theorem split_iff_clean_of_words : Splits [97, 44, 98] [[44]] := by
  have spaced : Spaced [97, 44, 98] [[44]] 1 [[44]] := ⟨⟨[44], by decide, rfl⟩, by decide, by decide⟩
  exact (split_iff_clean (by decide)).mpr (.other (by decide) (by decide) (.seps (by decide) spaced .done))

/-- A comma at the end: the scan ends behind the text. -/
theorem last_comma_overrun : ¬ ∀ (input : Bytes) (seps : List Bytes), seps ≠ [] → (∀ sep ∈ seps, sep ≠ []) →
    Splits input seps := fun claim =>
  absurd (claim [97, 44] [[44]] (by decide) (by decide)).ends (by decide)

end Qcm.StringSplit
