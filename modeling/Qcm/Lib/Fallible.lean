import Mathlib

/-!
Computations that may fail: what a successful run of a sequence or of a loop has
gone through.
-/

namespace Qcm.Lib

universe u v w

variable {ε : Type u} {α : Type v} {β : Type w}

theorem bind_ok {γ : Type v} {first : Except ε α} {rest : α → Except ε γ} {value : γ} :
    (first >>= rest) = .ok value ↔ ∃ middle, first = .ok middle ∧ rest middle = .ok value := by
  cases first <;> simp [bind, Except.bind]

/-- What every turn keeps is kept by the loop. -/
theorem foldlM_keeps {turn : α → β → Except ε α} {entries : List β} {first last : α} (Inv : α → Prop)
    (done : entries.foldlM turn first = .ok last)
    (keep : ∀ entry ∈ entries, ∀ before after, Inv before → turn before entry = .ok after → Inv after)
    (base : Inv first) : Inv last := by
  induction entries generalizing first with
  | nil =>
    cases done
    exact base
  | cons entry rest ih =>
    obtain ⟨middle, turned, later⟩ := bind_ok.mp done
    exact ih later (fun other member => keep other (.tail _ member))
      (keep entry (.head _) first middle base turned)

end Qcm.Lib
