import Mathlib.Data.List.TakeWhile
import Mathlib.Algebra.Order.Ring.Nat

/-!
# Byte strings and C strings

A C string is the bytes before the first NUL of a buffer. The type carries the
absence of a NUL, so that comparing two C strings, copying one and hashing one
are operations on their byte lists.
-/

namespace VHttp

abbrev Bytes := List UInt8

/-- The bytes of a NUL-terminated string, without its terminator. -/
abbrev CString := { bytes : Bytes // 0 ∉ bytes }

/-- What a C function reads as a string from a buffer: the bytes up to the first
NUL. -/
def CString.read (buffer : Bytes) : CString :=
  ⟨buffer.takeWhile (fun byte => decide (byte ≠ 0)), by
    intro present
    simpa using List.mem_takeWhile_imp present⟩

/-- Bytes without a NUL are read before anything behind them. -/
theorem CString.read_append (bytes rest : Bytes) (clean : 0 ∉ bytes) :
    (CString.read (bytes ++ rest)).1 = bytes ++ (CString.read rest).1 := by
  simp only [CString.read]
  rw [List.takeWhile_append_of_pos]
  intro byte present
  have different : byte ≠ 0 := fun same => clean (same ▸ present)
  simpa using different

/-- What stands behind a NUL is not read. -/
theorem CString.read_stopped (bytes rest : Bytes) (stopped : 0 ∈ bytes) :
    (CString.read (bytes ++ rest)).1 = (CString.read bytes).1 := by
  induction bytes with
  | nil => cases stopped
  | cons byte bytes inductionHypothesis =>
    by_cases zero : byte = 0
    · simp [CString.read, zero]
    · have later := inductionHypothesis ((List.mem_cons.mp stopped).resolve_left (Ne.symm zero))
      simpa [CString.read, zero] using later

/-- Bytes without a NUL, followed by one, are read back whole. -/
theorem CString.read_terminated (bytes rest : Bytes) (clean : 0 ∉ bytes) :
    CString.read (bytes ++ 0 :: rest) = ⟨bytes, clean⟩ := by
  apply Subtype.ext
  rw [read_append bytes _ clean]
  simp [CString.read]

end VHttp
