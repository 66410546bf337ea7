import Mathlib

/-!
Computations on a state that may return an error or be cut off.  The state a run
leaves behind is kept in every case, so what a failed or interrupted run has done
can be asked about.  `Triple` is partial in nothing: it says what a run ends in
whichever way it ends.
-/

namespace Qcm.Lib

universe u

/-- How a computation ends: with a value, with an error it returns, or cut off. -/
inductive Outcome (ε α : Type u) where
  | ok (value : α)
  | err (error : ε)
  | crash

/-- A computation on states `σ` with errors `ε`. -/
def Act (σ ε α : Type u) : Type u := σ → Outcome ε α × σ

namespace Act

variable {σ ε α β : Type u}

instance : Monad (Act σ ε) where
  pure value := fun s => (.ok value, s)
  bind first rest := fun s =>
    match first s with
    | (.ok value, t) => rest value t
    | (.err error, t) => (.err error, t)
    | (.crash, t) => (.crash, t)

def fail (error : ε) : Act σ ε α := fun s => (.err error, s)

/-- The process dies. -/
def crash : Act σ ε α := fun s => (.crash, s)

def state : Act σ ε σ := fun s => (.ok s, s)

def update (change : σ → σ) : Act σ ε PUnit := fun s => (.ok ⟨⟩, change s)

def ensure (condition : Prop) [Decidable condition] (error : ε) : Act σ ε PUnit :=
  if condition then pure ⟨⟩ else fail error

def when (condition : Prop) [Decidable condition] (action : Act σ ε PUnit) : Act σ ε PUnit :=
  if condition then action else pure ⟨⟩

/-- The value of an optional result, or an error. -/
def require (value : Option α) (error : ε) : Act σ ε α :=
  match value with
  | some value => pure value
  | none => fail error

/-- An error becomes a value; a crash goes on. -/
def attempt (action : Act σ ε α) : Act σ ε (Except ε α) := fun s =>
  match action s with
  | (.ok value, t) => (.ok (.ok value), t)
  | (.err error, t) => (.ok (.error error), t)
  | (.crash, t) => (.crash, t)

/-- What is done on the way out of a scope, with a value or with an error. -/
def closing (exit : σ → σ) (action : Act σ ε α) : Act σ ε α := fun s =>
  match action s with
  | (.ok value, t) => (.ok value, exit t)
  | (.err error, t) => (.err error, exit t)
  | (.crash, t) => (.crash, t)

/-- What is done on the way out of a scope with an error only. -/
def onError (exit : σ → σ) (action : Act σ ε α) : Act σ ε α := fun s =>
  match action s with
  | (.err error, t) => (.err error, exit t)
  | ended => ended

end Act

open Act

variable {σ ε α β : Type u}

/-- What the end of a run satisfies: `Q` with the value, `E` without one. -/
def Outcome.Meets (Q : α → σ → Prop) (E : σ → Prop) : Outcome ε α → σ → Prop
  | .ok value, s => Q value s
  | .err _, s => E s
  | .crash, s => E s

/-- Every run of `action` from `P` ends in `Q` with its value, or in `E` without one. -/
def Triple (P : σ → Prop) (action : Act σ ε α) (Q : α → σ → Prop) (E : σ → Prop) : Prop :=
  ∀ s, P s → (action s).1.Meets Q E (action s).2

/-- However a run ends, it keeps `I`. -/
def Keeps (I : σ → Prop) (action : Act σ ε α) : Prop := Triple I action (fun _ => I) I

variable {P O I : σ → Prop} {Q S : α → σ → Prop} {E F : σ → Prop} {R : β → σ → Prop}
variable {action : Act σ ε α} {rest : α → Act σ ε β}

variable {error : ε}

theorem Triple.weaken (triple : Triple P action Q E) (before : ∀ s, O s → P s)
    (after : ∀ value s, Q value s → S value s) (otherwise : ∀ s, E s → F s) :
    Triple O action S F := by
  intro s holds
  have ended := triple s (before s holds)
  revert ended
  cases (action s).1 with
  | ok value => exact after value _
  | err error | crash => exact otherwise _

theorem Triple.before (triple : Triple P action Q E) (before : ∀ s, O s → P s) : Triple O action Q E :=
  triple.weaken before (fun _ _ => id) fun _ => id

theorem Triple.after (triple : Triple P action Q E) (after : ∀ value s, Q value s → S value s) :
    Triple P action S E :=
  triple.weaken (fun _ => id) after fun _ => id

theorem Triple.otherwise (triple : Triple P action Q E) (otherwise : ∀ s, E s → F s) : Triple P action Q F :=
  triple.weaken (fun _ => id) (fun _ _ => id) otherwise

/-- What two triples say of one computation. -/
theorem Triple.both (first : Triple P action Q E) (second : Triple O action S F) :
    Triple (fun s => P s ∧ O s) action (fun value s => Q value s ∧ S value s) fun s => E s ∧ F s := by
  intro s holds
  have one := first s holds.1
  have two := second s holds.2
  revert one two
  cases (action s).1 with
  | ok value | err error | crash => exact .intro

/-- A triple may start from one state at a time. -/
theorem Triple.pointwise (each : ∀ s, P s → Triple (fun t => t = s) action Q E) : Triple P action Q E :=
  fun s holds => each s holds s rfl

theorem Triple.pure {value : α} (holds : ∀ s, P s → Q value s) :
    Triple P (pure value : Act σ ε α) Q E := holds

theorem Triple.bind (first : Triple P action Q E) (second : ∀ value, Triple (Q value) (rest value) R E) :
    Triple P (action >>= rest) R E := by
  intro s holds
  have ended := first s holds
  simp only [Bind.bind]
  revert ended
  cases action s with
  | mk outcome t =>
    cases outcome with
    | ok value => exact second value t
    | err error | crash => exact id

/-- The rest of a computation may use what the state was when it was read. -/
theorem Triple.bindState {rest : σ → Act σ ε β} (second : ∀ found, Triple (fun s => P s ∧ s = found) (rest found) R E) :
    Triple P (state >>= rest) R E :=
  fun s holds => second s s ⟨holds, rfl⟩

theorem Triple.fail (holds : ∀ s, P s → E s) : Triple P (fail error : Act σ ε α) Q E := holds

theorem Triple.crash (holds : ∀ s, P s → E s) : Triple P (crash : Act σ ε α) Q E := holds

theorem Triple.state {Q : σ → σ → Prop} (holds : ∀ s, P s → Q s s) :
    Triple P (state : Act σ ε σ) Q E := holds

theorem Triple.update {Q : PUnit → σ → Prop} {change : σ → σ} (holds : ∀ s, P s → Q ⟨⟩ (change s)) :
    Triple P (update change : Act σ ε PUnit) Q E := holds

theorem Triple.ensure {Q : PUnit → σ → Prop} {condition : Prop} [Decidable condition]
    (passes : condition → ∀ s, P s → Q ⟨⟩ s) (stops : ¬ condition → ∀ s, P s → E s) :
    Triple P (ensure condition error : Act σ ε PUnit) Q E := by
  unfold Act.ensure
  split
  · rename_i holds
    exact passes holds
  · rename_i refused
    exact stops refused

theorem Triple.require {value : Option α} (passes : ∀ found, value = some found → ∀ s, P s → Q found s)
    (stops : value = none → ∀ s, P s → E s) : Triple P (require value error : Act σ ε α) Q E := by
  cases value with
  | some found => exact passes found rfl
  | none => exact stops rfl

/-- What an attempt ends in. -/
def Ends (P E : σ → Prop) : Except ε α → σ → Prop
  | .ok _, s => P s
  | .error _, s => E s

theorem Triple.attempt {Q : Except ε α → σ → Prop} (body : Triple P action (fun value => Q (.ok value)) F)
    (failed : ∀ error s, F s → Q (.error error) s) (dead : ∀ s, F s → E s) :
    Triple P (attempt action) Q E := by
  intro s holds
  have ended := body s holds
  unfold Act.attempt
  revert ended
  cases action s with
  | mk outcome t =>
    cases outcome with
    | ok value => exact id
    | err error => exact failed error t
    | crash => exact dead t

theorem Triple.closing {exit : σ → σ} (body : Triple P action S F)
    (leaves : ∀ value s, S value s → Q value (exit s)) (failed : ∀ s, F s → E (exit s))
    (dead : ∀ s, F s → E s) : Triple P (closing exit action) Q E := by
  intro s holds
  have ended := body s holds
  unfold Act.closing
  revert ended
  cases action s with
  | mk outcome t =>
    cases outcome with
    | ok value => exact leaves value t
    | err error => exact failed t
    | crash => exact dead t

theorem Triple.onError {exit : σ → σ} (body : Triple P action Q F)
    (failed : ∀ s, F s → E (exit s)) (dead : ∀ s, F s → E s) : Triple P (onError exit action) Q E := by
  intro s holds
  have ended := body s holds
  unfold Act.onError
  revert ended
  cases action s with
  | mk outcome t =>
    cases outcome with
    | ok value => exact id
    | err error => exact failed t
    | crash => exact dead t

theorem Triple.ite {condition : Prop} [Decidable condition] {other : Act σ ε α}
    (yes : condition → Triple P action Q E) (no : ¬ condition → Triple P other Q E) :
    Triple P (if condition then action else other) Q E := by
  split
  · rename_i holds
    exact yes holds
  · rename_i refused
    exact no refused

theorem Triple.when {Q : PUnit → σ → Prop} {condition : Prop} [Decidable condition] {action : Act σ ε PUnit}
    (yes : condition → Triple P action Q E) (no : ¬ condition → ∀ s, P s → Q ⟨⟩ s) :
    Triple P (when condition action) Q E :=
  Triple.ite yes fun refused => .pure (no refused)

/-- A loop whose turns keep `J`, with the value the loop carries. -/
theorem Triple.loop {ι : Type u} {entries : List ι} {first : β} {turn : ι → β → Act σ ε (ForInStep β)}
    {J : β → σ → Prop}
    (keep : ∀ entry ∈ entries, ∀ carried,
      Triple (J carried) (turn entry carried) (fun next => J next.value) E) :
    Triple (J first) (forIn entries first turn) J E := by
  induction entries generalizing first with
  | nil => exact .pure fun _ => id
  | cons entry others ih =>
    rw [List.forIn_cons]
    refine (keep entry (.head _) first).bind fun next => ?_
    cases next with
    | done last => exact .pure fun _ => id
    | yield last => exact ih fun other member => keep other (.tail _ member)

/-- A loop whose invariant speaks of the entries still to come. -/
theorem Triple.loopRest {ι : Type u} {entries : List ι} {first : β} {turn : ι → β → Act σ ε (ForInStep β)}
    {J : List ι → β → σ → Prop}
    (keep : ∀ entry others carried, Triple (J (entry :: others) carried) (turn entry carried)
      (fun next => match next with
        | .yield value => J others value
        | .done value => J [] value) E) :
    Triple (J entries first) (forIn entries first turn) (J []) E := by
  induction entries generalizing first with
  | nil => exact .pure fun _ => id
  | cons entry others ih =>
    rw [List.forIn_cons]
    refine (keep entry others first).bind fun next => ?_
    cases next with
    | done last => exact .pure fun _ => id
    | yield last => exact ih

theorem Keeps.pure {value : α} : Keeps I (pure value : Act σ ε α) := Triple.pure fun _ => id

theorem Keeps.bind (first : Keeps I action) (second : ∀ value, Keeps I (rest value)) :
    Keeps I (action >>= rest) := Triple.bind first second

theorem Keeps.fail : Keeps I (fail error : Act σ ε α) := Triple.fail fun _ => id

theorem Keeps.crash : Keeps I (crash : Act σ ε α) := Triple.crash fun _ => id

theorem Keeps.state : Keeps I (state : Act σ ε σ) := Triple.state fun _ => id

theorem Keeps.update {change : σ → σ} (keep : ∀ s, I s → I (change s)) :
    Keeps I (update change : Act σ ε PUnit) := Triple.update keep

theorem Keeps.ensure {condition : Prop} [Decidable condition] :
    Keeps I (ensure condition error : Act σ ε PUnit) := Triple.ensure (fun _ _ => id) fun _ _ => id

theorem Keeps.require {value : Option α} : Keeps I (require value error : Act σ ε α) :=
  Triple.require (fun _ _ _ => id) fun _ _ => id

theorem Keeps.attempt (body : Keeps I action) : Keeps I (attempt action) :=
  Triple.attempt body (fun _ _ => id) fun _ => id

theorem Keeps.ite {condition : Prop} [Decidable condition] {other : Act σ ε α}
    (yes : condition → Keeps I action) (no : ¬ condition → Keeps I other) :
    Keeps I (if condition then action else other) := Triple.ite yes no

theorem Keeps.when {condition : Prop} [Decidable condition] {action : Act σ ε PUnit}
    (yes : condition → Keeps I action) : Keeps I (when condition action) := Triple.when yes fun _ _ => id

theorem Keeps.loop {ι : Type u} {entries : List ι} {first : β} {turn : ι → β → Act σ ε (ForInStep β)}
    (keep : ∀ entry ∈ entries, ∀ carried, Keeps I (turn entry carried)) :
    Keeps I (forIn entries first turn) := Triple.loop keep

/-- However the run ends, the state it leaves keeps the invariant. -/
theorem Keeps.final (keeps : Keeps I action) {s : σ} (holds : I s) : I (action s).2 := by
  have ended := keeps s holds
  revert ended
  cases (action s).1 <;> exact id

theorem Keeps.of_final (final : ∀ s, I s → I (action s).2) : Keeps I action := by
  intro s holds
  have ended := final s holds
  cases outcome : (action s).1 <;> exact ended

end Qcm.Lib
