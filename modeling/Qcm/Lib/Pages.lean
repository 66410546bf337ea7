import Mathlib

/-! Pages of a list: as many rows to a page, the last one short. -/

namespace Qcm.Lib

universe u

variable {α : Type u}

/-- `LIMIT size OFFSET size * n` -/
def page (size n : Nat) (rows : List α) : List α := (rows.drop (size * n)).take size

variable {size n : Nat} {rows : List α}

theorem page_ne_nil (some : 0 < size) : page size n rows ≠ [] ↔ size * n < rows.length := by
  simp [page, Nat.ne_of_gt some]

end Qcm.Lib
