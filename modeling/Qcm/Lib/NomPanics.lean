import Qcm.Lib.Nom

/-!
Where a parser takes the program down: most parsers never do, and one that is made
of others does where the first of them does that is reached.
-/

namespace Qcm.Lib.Nom

variable {ε α β γ : Type} {parser first second : Parser ε α} {text rest : Text} {value : α} {test : Char → Bool}

def Panics (parser : Parser ε α) (text : Text) : Prop := parser text = .error .panicked

/-- A parser that never panics. -/
def Calm (parser : Parser ε α) : Prop := ∀ text, ¬ Panics parser text

variable {next : α → Parser ε β}

theorem bind_panics : Panics (parser >>= next) text ↔
    Panics parser text ∨ ∃ value rest, parser text = .ok (value, rest) ∧ Panics (next value) rest := by
  simp only [Panics, bind, StateT.bind]
  cases ran : parser text with
  | error fault => simp [Except.bind]
  | ok result =>
    obtain ⟨value, rest⟩ := result
    simp [Except.bind]

theorem calm_pure : Calm (pure value : Parser ε α) := nofun

theorem calm_fails (error : ε) : Calm (fails error : Parser ε α) := nofun

theorem Calm.bind {next : α → Parser ε β} (calm : Calm parser) (later : ∀ value, Calm (next value)) :
    Calm (parser >>= next) := by
  intro text panics
  obtain early | ⟨value, rest, -, late⟩ := bind_panics.mp panics
  · exact calm text early
  · exact later value rest late

theorem Calm.ite {condition : Prop} [Decidable condition] (one : Calm first) (other : Calm second) :
    Calm (if condition then first else second) := by
  split
  · exact one
  · exact other

/-- Before a calm parser, only what stands in front of it can panic. -/
theorem bind_panics_of_calm (later : ∀ value, Calm (next value)) :
    Panics (parser >>= next) text ↔ Panics parser text := by
  rw [bind_panics]
  exact or_iff_left fun ⟨value, rest, _, late⟩ => later value rest late

/-- After a calm parser, only what stands behind it can panic. -/
theorem bind_panics_calm (calm : Calm parser) : Panics (parser >>= next) text ↔
    ∃ value rest, parser text = .ok (value, rest) ∧ Panics (next value) rest := by
  rw [bind_panics]
  exact or_iff_right (calm text)

/-- A calm alternative does not change where a parser panics. -/
theorem alt_panics_of_calm (calm : Calm second) : Panics (alt first second) text ↔ Panics first text := by
  unfold Panics alt
  cases ran : first text with
  | error fault =>
    cases fault with
    | error error => exact ⟨fun panics => absurd panics (calm text), nofun⟩
    | panicked => rfl
  | ok result => rfl

theorem Calm.opt (calm : Calm parser) : Calm (opt parser) := by
  intro text panics
  unfold Panics Nom.opt at panics
  split at panics
  · cases panics
  · rename_i ran
    exact calm text ran
  · cases panics

theorem Calm.delimited {before : Parser ε β} {after : Parser ε γ} (opens : Calm before) (calm : Calm parser)
    (closes : Calm after) : Calm (delimited before parser after) :=
  opens.bind fun _ => calm.bind fun _ => closes.bind fun _ => calm_pure

theorem Calm.separatedPair {between : Parser ε β} {right : Parser ε γ} (calm : Calm parser) (splits : Calm between)
    (others : Calm right) : Calm (separatedPair parser between right) :=
  calm.bind fun _ => splits.bind fun _ => others.bind fun _ => calm_pure

theorem calm_taken0 : Calm (taken0 test : Parser ε Text) := nofun

theorem calm_space0 : Calm (space0 : Parser ε Text) := calm_taken0

section

variable [ParseError ε] {kind : ErrorKind} {word : Text}

theorem calm_taken1 : Calm (taken1 kind test : Parser ε Text) := by
  intro text panics
  unfold Panics taken1 at panics
  split at panics <;> cases panics

theorem calm_tag : Calm (tag word : Parser ε Text) := by
  intro text panics
  unfold Panics tag at panics
  split at panics <;> cases panics

theorem calm_lineEnding : Calm (lineEnding : Parser ε Text) := by
  intro text panics
  unfold Panics lineEnding at panics
  split at panics <;> cases panics

theorem calm_notLineEnding : Calm (notLineEnding : Parser ε Text) := by
  intro text panics
  unfold Panics notLineEnding at panics
  dsimp only at panics
  split at panics <;> cases panics

/-- The texts at which the parser is run while it goes on reading. -/
inductive Tried (parser : Parser ε α) : Text → Text → Prop where
  | here {text : Text} : Tried parser text text
  | next {text rest last : Text} {value : α} (read : parser text = .ok (value, rest)) (later : Tried parser rest last) :
      Tried parser text last

/-- A loop panics where one of its turns does. -/
theorem many_panics (advances : Advances parser) :
    Panics (many parser) text ↔ ∃ last, Tried parser text last ∧ Panics parser last := by
  induction size : text.length using Nat.strong_induction_on generalizing text with
  | h size ih =>
    subst size
    unfold Panics
    rw [many_eq advances.leaves]
    cases ran : parser text with
    | error fault =>
      have only_here : ∀ last, Tried parser text last → last = text := by
        rintro last (_ | ⟨read, -⟩)
        · rfl
        · cases ran.symm.trans read
      cases fault with
      | error error =>
        refine ⟨nofun, ?_⟩
        rintro ⟨last, tried, panics⟩
        cases only_here last tried
        cases ran.symm.trans panics
      | panicked => exact ⟨fun _ => ⟨text, .here, ran⟩, fun _ => rfl⟩
    | ok result =>
      obtain ⟨value, rest⟩ := result
      have shorter := (advances _ _ _ ran).2
      have later := ih rest.length shorter rfl
      simp only [Nat.ne_of_lt shorter, if_false]
      constructor
      · intro panics
        have deep : Panics (many parser) rest := by
          unfold Panics
          split at panics <;> cases panics
          rename_i fault failed
          exact failed
        obtain ⟨last, tried, panics⟩ := later.mp deep
        exact ⟨last, .next ran tried, panics⟩
      · rintro ⟨last, tried, panics⟩
        have deep : Panics (many parser) rest := by
          cases tried with
          | here => cases ran.symm.trans panics
          | next read tried =>
            cases ran.symm.trans read
            exact later.mpr ⟨last, tried, panics⟩
        rw [show many parser rest = .error .panicked from deep]

theorem many1_panics (advances : Advances parser) :
    Panics (many1 parser) text ↔ ∃ last, Tried parser text last ∧ Panics parser last := by
  unfold many1
  rw [bind_panics]
  simp only [bind_panics_of_calm (fun _ => calm_pure), many_panics advances]
  constructor
  · rintro (panics | ⟨value, rest, read, last, tried, panics⟩)
    · exact ⟨text, .here, panics⟩
    · exact ⟨last, .next read tried, panics⟩
  · rintro ⟨last, tried, panics⟩
    cases tried with
    | here => exact .inl panics
    | next read tried => exact .inr ⟨_, _, read, last, tried, panics⟩

end

end Qcm.Lib.Nom
