import Mathlib

/-!
The bytes of a file: a length and the byte at each position, zero from the end
on.  Writing past the end leaves a hole of zeros, as a file system does.
-/

namespace Qcm.Lib

structure Contents where
  length : Nat
  byte : Nat → UInt8
  blank : ∀ position, length ≤ position → byte position = 0

namespace Contents

def empty : Contents := ⟨0, fun _ => 0, fun _ _ => rfl⟩

/-- The file after `count` bytes were written at `offset`. -/
def splice (file : Contents) (offset count : Nat) (data : Nat → UInt8) : Contents where
  length := if count = 0 then file.length else max file.length (offset + count)
  byte position :=
    if offset ≤ position ∧ position < offset + count then data (position - offset) else file.byte position
  blank position beyond := by
    split at beyond
    · rename_i none
      rw [if_neg (by omega)]
      exact file.blank position beyond
    · rw [if_neg (by omega)]
      exact file.blank position (by omega)

/-- `write_all` at a position. -/
def write (file : Contents) (offset : Nat) (data : List UInt8) : Contents :=
  file.splice offset data.length fun index => data.getD index 0

/-- A run of zeros written at a position. -/
def writeZeros (file : Contents) (offset count : Nat) : Contents :=
  file.splice offset count fun _ => 0

/-- `set_len`. -/
def setLength (file : Contents) (length : Nat) : Contents where
  length := length
  byte position := if position < length then file.byte position else 0
  blank position beyond := if_neg (by omega)

/-- The `count` bytes at `offset`, those past the end taken as zero. -/
def slice (file : Contents) (offset count : Nat) : List UInt8 :=
  (List.range count).map fun index => file.byte (offset + index)

/-- `read_exact` at a position: all the bytes, or none when the file is too short. -/
def readExact (file : Contents) (offset count : Nat) : Option (List UInt8) :=
  if count = 0 ∨ offset + count ≤ file.length then some (file.slice offset count) else none

variable {file : Contents} {offset count length : Nat} {data bytes : List UInt8}

theorem readExact_eq_some :
    file.readExact offset count = some bytes ↔
      (count = 0 ∨ offset + count ≤ file.length) ∧ file.slice offset count = bytes := by
  by_cases fits : count = 0 ∨ offset + count ≤ file.length
  · rw [readExact, if_pos fits, Option.some.injEq, and_iff_right fits]
  · rw [readExact, if_neg fits]
    exact ⟨(nomatch ·), fun found => absurd found.1 fits⟩

/-- What was written reads back. -/
theorem slice_write : (file.write offset data).slice offset data.length = data := by
  refine List.ext_getElem (by simp [slice]) fun index inside bound => ?_
  simp [slice, write, splice, bound]

@[simp]
theorem setLength_length : (file.setLength length).length = length := rfl

theorem length_write (positive : data ≠ []) :
    (file.write offset data).length = max file.length (offset + data.length) :=
  if_neg fun none => positive (List.length_eq_zero_iff.mp none)

/-- What was written is read, all of it. -/
theorem readExact_write : (file.write offset data).readExact offset data.length = some data := by
  refine readExact_eq_some.mpr ⟨?_, slice_write⟩
  by_cases none : data.length = 0
  · exact .inl none
  · refine .inr ?_
    rw [length_write fun empty => none (by rw [empty]; rfl)]
    exact Nat.le_max_right ..

end Contents

end Qcm.Lib
