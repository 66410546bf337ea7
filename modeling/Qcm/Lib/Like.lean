import Qcm.Lib.Text

/-!
The operator `LIKE` of SQLite, without an `ESCAPE` clause: `%` stands for any run
of characters, `_` for any one, and ASCII letters are compared without their case.
-/

namespace Qcm.Lib.Text

/-- A pattern and a text, by the pattern. -/
def like : Text → Text → Bool
  | [], text => text.isEmpty
  | p :: pattern, text =>
    if p = '%' then text.tails.any (like pattern)
    else match text with
      | [] => false
      | c :: rest => (p = '_' || p.toLower = c.toLower) && like pattern rest

/-- No character of the text means anything else in a pattern. -/
def Plain (text : Text) : Prop := '%' ∉ text ∧ '_' ∉ text

instance (text : Text) : Decidable (Plain text) := inferInstanceAs (Decidable (_ ∧ _))

/-- The text stands in the other one, the case of ASCII letters apart. -/
def Within (part text : Text) : Prop := toAsciiLowercase part <:+: toAsciiLowercase text

instance (part text : Text) : Decidable (Within part text) := inferInstanceAs (Decidable (_ <:+: _))

variable {part pattern text : Text}

theorem like_percent : like ('%' :: pattern) text = true ↔ ∃ back, back <:+ text ∧ like pattern back = true := by
  simp [like, List.any_eq_true]

theorem like_underscore : like ('_' :: pattern) text = true ↔ ∃ c rest, text = c :: rest ∧ like pattern rest = true := by
  cases text with
  | nil | cons c rest => simp [like]

@[simp]
theorem like_any : like ['%'] text = true := like_percent.mpr ⟨[], List.nil_suffix, rfl⟩

/-- A part without wildcards takes as many characters of the text as it has. -/
theorem like_append (plain : Plain part) : like (part ++ pattern) text = true ↔
    ∃ front back, text = front ++ back ∧ toAsciiLowercase front = toAsciiLowercase part ∧
      like pattern back = true := by
  induction part generalizing text with
  | nil => simp [toAsciiLowercase]
  | cons p rest ih =>
    have apart : p ≠ '%' ∧ p ≠ '_' :=
      ⟨fun same => plain.1 (by simp [same]), fun same => plain.2 (by simp [same])⟩
    have later : Plain rest := ⟨fun inside => plain.1 (by simp [inside]), fun inside => plain.2 (by simp [inside])⟩
    cases text with
    | nil => simp [like, apart, toAsciiLowercase]
    | cons c text =>
      simp only [List.cons_append, like, apart, if_false, decide_false, Bool.false_or, Bool.and_eq_true,
        decide_eq_true_eq, ih later]
      constructor
      · rintro ⟨same, front, back, rfl, lower, tail⟩
        exact ⟨c :: front, back, rfl, by simpa [toAsciiLowercase, same] using lower, tail⟩
      · rintro ⟨front, back, split, lower, tail⟩
        cases front with
        | nil => simp [toAsciiLowercase] at lower
        | cons first front =>
          obtain ⟨rfl, rfl⟩ := List.cons_eq_cons.mp split
          obtain ⟨same, lower⟩ := List.cons_eq_cons.mp lower
          exact ⟨same.symm, front, back, rfl, lower, tail⟩

/-- Between two `%` a part without wildcards is looked for as it is. -/
theorem like_within (plain : Plain part) : like ('%' :: (part ++ ['%'])) text = true ↔ Within part text := by
  rw [like_percent]
  simp only [like_append plain, like_any, and_true]
  constructor
  · rintro ⟨_, ⟨before, rfl⟩, front, back, rfl, lower⟩
    exact ⟨toAsciiLowercase before, toAsciiLowercase back, by simp [toAsciiLowercase, List.map_append] at lower ⊢; exact lower.symm⟩
  · rintro ⟨before, after, split⟩
    obtain ⟨start, back, rfl, here, -⟩ := List.map_eq_append_iff.mp split.symm
    obtain ⟨front, middle, rfl, -, lower⟩ := List.map_eq_append_iff.mp here
    exact ⟨middle ++ back, ⟨front, by simp⟩, middle, back, rfl, lower⟩

/-- A text without wildcards that the part matches as a pattern. -/
def solid (part : Text) : Text := (part.filter (· ≠ '%')).map fun c => if c = '_' then 'x' else c

theorem like_solid : like (part ++ ['%']) (solid part) = true := by
  induction part with
  | nil => rfl
  | cons p rest ih =>
    by_cases percent : p = '%'
    · subst percent
      exact like_percent.mpr ⟨solid rest, by simp [solid], ih⟩
    by_cases underscore : p = '_'
    · subst underscore
      exact like_underscore.mpr ⟨'x', solid rest, by simp [solid], ih⟩
    · simpa [solid, like, percent, underscore] using ih

private theorem solid_apart {c : Char} (member : c ∈ solid part) : c ≠ '%' ∧ c ≠ '_' := by
  simp only [solid, ne_eq, decide_not, List.mem_map, List.mem_filter] at member
  obtain ⟨d, ⟨-, other⟩, rfl⟩ := member
  split
  · decide
  · exact ⟨by simpa using other, ‹_›⟩

/-- Neither has it one in lower case: no letter becomes a wildcard. -/
private theorem solid_plain : Plain (toAsciiLowercase (solid part)) := by
  have kept : ∀ c ∈ solid part, c.toLower ≠ '%' ∧ c.toLower ≠ '_' := by
    intro c member
    have apart := solid_apart member
    rw [ne_eq, ne_eq, ← Char.toNat_inj, ← Char.toNat_inj, toNat_toLower]
    rw [ne_eq, ne_eq, ← Char.toNat_inj, ← Char.toNat_inj] at apart
    simp only [Char.reduceToNat] at apart ⊢
    split <;> omega
  constructor <;> intro inside <;> obtain ⟨c, member, lower⟩ := List.mem_map.mp inside
  · exact (kept c member).1 lower
  · exact (kept c member).2 lower

/-- With a wildcard in it, the part is also found where it does not stand. -/
theorem not_within_solid (special : ¬ Plain part) : ¬ Within part (solid part) := by
  rintro ⟨before, after, split⟩
  have inside : ∀ c ∈ part, c.toLower ∈ toAsciiLowercase (solid part) := by
    intro c member
    rw [← split]
    simp only [toAsciiLowercase, List.mem_append, List.mem_map]
    exact .inl (.inr ⟨c, member, rfl⟩)
  refine special ⟨fun percent => ?_, fun underscore => ?_⟩
  · exact solid_plain.1 (inside '%' percent)
  · exact solid_plain.2 (inside '_' underscore)

end Qcm.Lib.Text
