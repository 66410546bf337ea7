import Mathlib

/-!
Runs of a labelled transition relation.  `Reach` collects the states reached by
steps that all satisfy a guard, and `Steps` keeps the labels and the states a
run went through, for statements about what happened earlier in the run.  The
rules here package the induction once: an invariant needs its base case and its
step lemma, and nothing else.
-/

namespace Qcm.Lib.Runs

variable {σ α : Type*}

/-- The states reached from `init` by steps that each satisfy `guard` in the
state they start from. -/
inductive Reach (init : σ → Prop) (guard : σ → α → Prop) (step : σ → α → σ → Prop) : σ → Prop where
  | start {s : σ} (initial : init s) : Reach init guard step s
  | next {s t : σ} {a : α} (reached : Reach init guard step s) (guarded : guard s a)
      (stepped : step s a t) : Reach init guard step t

variable {init : σ → Prop} {guard : σ → α → Prop} {step : σ → α → σ → Prop}

variable {s t : σ}

/-- What holds initially and is kept by every guarded step holds of every
reached state. -/
theorem Reach.invariant {Inv : σ → Prop} (reached : Reach init guard step s) (base : ∀ s, init s → Inv s)
    (keep : ∀ s a t, Inv s → guard s a → step s a t → Inv t) : Inv s := by
  induction reached with
  | start initial => exact base _ initial
  | next _ guarded stepped ih => exact keep _ _ _ ih guarded stepped

/-- What is reached under a guard is reached under a weaker one. -/
theorem Reach.weaken {weaker : σ → α → Prop} (reached : Reach init guard step s)
    (allows : ∀ s a, guard s a → weaker s a) : Reach init weaker step s := by
  induction reached with
  | start initial => exact .start initial
  | next _ guarded stepped ih => exact ih.next (allows _ _ guarded) stepped

/-- Steps that compute, taken one after the other while the guard allows them. -/
def play (guard : σ → α → Prop) [∀ s a, Decidable (guard s a)] (step : σ → α → Option σ) (s : σ) :
    List α → Option σ
  | [] => some s
  | a :: rest => if guard s a then (step s a).bind fun t => play guard step t rest else none

theorem Reach.play {step : σ → α → Option σ} [∀ s a, Decidable (guard s a)] (labels : List α)
    (reached : Reach init guard (fun s a t => step s a = some t) s)
    (played : play guard step s labels = some t) : Reach init guard (fun s a t => step s a = some t) t := by
  induction labels generalizing s with
  | nil =>
    cases played
    exact reached
  | cons a rest ih =>
    rw [Runs.play] at played
    split at played
    · rename_i guarded
      obtain ⟨u, stepped, later⟩ := Option.bind_eq_some_iff.mp played
      exact ih (reached.next guarded stepped) later
    · cases played

/-- The labels of a run from one state to another, oldest first, each with the
state its step started from. -/
inductive Steps (step : σ → α → σ → Prop) : σ → List (σ × α) → σ → Prop where
  | done (s : σ) : Steps step s [] s
  | snoc {s t u : σ} {a : α} {trace : List (σ × α)} (before : Steps step s trace t)
      (stepped : step t a u) : Steps step s (trace ++ [(t, a)]) u

/-- An invariant is carried along a run whose steps all meet `guard`. -/
theorem Steps.invariant {trace : List (σ × α)} (run : Steps step s trace t) (Inv : σ → Prop)
    (guard : σ → α → Prop) (guarded : ∀ entry ∈ trace, guard entry.1 entry.2)
    (keep : ∀ s a t, Inv s → guard s a → step s a t → Inv t) (base : Inv s) : Inv t := by
  induction run with
  | done => exact base
  | @snoc t u a trace before stepped ih =>
    have held := ih fun entry member => guarded entry (by simp [member])
    exact keep t a u held (guarded (t, a) (by simp)) stepped

/-- A run can be extended by another one. -/
theorem Steps.append {u : σ} {first second : List (σ × α)} (run : Steps step s first t)
    (rest : Steps step t second u) : Steps step s (first ++ second) u := by
  induction rest with
  | done => simpa using run
  | @snoc v w a trace before stepped ih =>
    rw [← List.append_assoc]
    exact .snoc ih stepped

/-- A run has been through the states its trace names. -/
theorem Steps.upto {u : σ} {a : α} {first rest : List (σ × α)}
    (run : Steps step s (first ++ (t, a) :: rest) u) : Steps step s first t := by
  generalize whole : first ++ (t, a) :: rest = trace at run
  induction run generalizing rest with
  | done => simp at whole
  | @snoc v w b trace before stepped ih =>
    obtain rfl | ⟨init, last, rfl⟩ := List.eq_nil_or_concat rest
    · obtain ⟨rfl, same⟩ := List.append_singleton_inj.mp whole
      cases same
      exact before
    · have shorter : (first ++ (t, a) :: init) ++ [last] = trace ++ [(v, b)] := by simp [← whole]
      exact ih (List.append_singleton_inj.mp shorter).1

/-- Steps that compute, taken one after the other, with the run they make. -/
def record (step : σ → α → Option σ) (s : σ) : List α → Option (List (σ × α) × σ)
  | [] => some ([], s)
  | a :: rest => (step s a).bind fun t => (record step t rest).map fun run => ((s, a) :: run.1, run.2)

theorem Steps.of_record {step : σ → α → Option σ} {labels : List α} {trace : List (σ × α)}
    (recorded : record step s labels = some (trace, t)) :
    Steps (fun s a t => step s a = some t) s trace t := by
  induction labels generalizing s trace with
  | nil =>
    cases recorded
    exact .done _
  | cons a rest ih =>
    rw [record] at recorded
    obtain ⟨u, stepped, later⟩ := Option.bind_eq_some_iff.mp recorded
    obtain ⟨⟨tail, last⟩, ran, same⟩ := Option.map_eq_some_iff.mp later
    cases same
    exact Steps.append (.snoc (.done s) stepped) (ih ran)

/-- A run over a given list of labels. -/
inductive Follows (step : σ → α → σ → Prop) : σ → List α → σ → Prop where
  | nil (s : σ) : Follows step s [] s
  | cons {s t u : σ} {a : α} {labels : List α} (first : step s a t)
      (rest : Follows step t labels u) : Follows step s (a :: labels) u

theorem Follows.append {u : σ} {first second : List α} (run : Follows step s first t)
    (rest : Follows step t second u) : Follows step s (first ++ second) u := by
  induction run with
  | nil => exact rest
  | cons stepped _ ih => exact .cons stepped (ih rest)

/-- A run over two lists passes through a state between them. -/
theorem Follows.split {u : σ} {first second : List α} (run : Follows step s (first ++ second) u) :
    ∃ t, Follows step s first t ∧ Follows step t second u := by
  induction first generalizing s with
  | nil => exact ⟨s, .nil s, run⟩
  | cons a labels ih =>
    cases run with
    | cons stepped rest =>
      obtain ⟨t, before, after⟩ := ih rest
      exact ⟨t, .cons stepped before, after⟩

/-- An invariant about the labels met so far is carried along a run. -/
theorem Follows.tracks {seen labels : List α} (run : Follows step s labels t) (Inv : List α → σ → Prop)
    (keep : ∀ seen a s t, a ∈ labels → Inv seen s → step s a t → Inv (seen ++ [a]) t) (base : Inv seen s) :
    Inv (seen ++ labels) t := by
  induction run generalizing seen with
  | nil => simpa using base
  | @cons s t u a labels stepped rest ih =>
    have next := keep seen a s t (by simp) base stepped
    have last := ih (fun seen b s t member => keep seen b s t (by simp [member])) next
    simpa using last

/-- A member of a list with one more behind it. -/
theorem mem_snoc {a b : α} {list : List α} (member : a ∈ list ++ [b]) : a ∈ list ∨ a = b := by
  simpa using member

/-- Whatever asks in a list is answered later in it. -/
def Answered (asks answers : α → Prop) (list : List α) : Prop :=
  ∀ before a after, list = before ++ a :: after → asks a → ∃ b ∈ after, answers b

theorem answered_snoc {asks answers : α → Prop} (apart : ∀ a, asks a → ¬ answers a) (list : List α)
    (last : α) : Answered asks answers (list ++ [last]) ↔
      answers last ∨ (¬ asks last ∧ Answered asks answers list) := by
  constructor
  · intro answered
    by_cases now : answers last
    · exact .inl now
    refine .inr ⟨fun asked => ?_, fun before a after same asked => ?_⟩
    · obtain ⟨_, member, _⟩ := answered list last [] rfl asked
      cases member
    · obtain ⟨b, member, answer⟩ := answered before a (after ++ [last]) (by simp [same]) asked
      obtain later | rfl := mem_snoc member
      · exact ⟨b, later, answer⟩
      · exact absurd answer now
  · intro settled before a after same asked
    obtain rfl | ⟨init, final, rfl⟩ := List.eq_nil_or_concat after
    · obtain ⟨rfl, rfl⟩ := List.append_singleton_inj.mp same
      obtain now | ⟨calm, _⟩ := settled
      · exact absurd now (apart _ asked)
      · exact absurd asked calm
    · have whole : list ++ [last] = (before ++ a :: init) ++ [final] := by simp [same]
      obtain ⟨rfl, rfl⟩ := List.append_singleton_inj.mp whole
      obtain now | ⟨_, earlier⟩ := settled
      · exact ⟨last, by simp, now⟩
      · obtain ⟨b, member, answer⟩ := earlier before a init rfl asked
        exact ⟨b, by simp [member], answer⟩

end Qcm.Lib.Runs
