import VHttp.Foundations.CString

/-!
# Formatted text

The directives %d and %s of a printf format, the first with a C int. A size that is passed
for an int is read as its low 32 bits, so that the number printed is the size exactly while
it is below 2^31. Digits are injective and contain nothing but digits.
-/

namespace VHttp

/-- What a directive of a format takes. -/
inductive Argument where
  | integer (value : Int)
  | text (bytes : Bytes)

/-- The decimal digits of a number. -/
def digits (value : Nat) : Bytes :=
  (Nat.toDigits 10 value).map (fun digit => UInt8.ofNat digit.toNat)

/-- An int, as %d prints it. -/
def decimal : Int → Bytes
  | .ofNat value => digits value
  | .negSucc below => 45 :: digits (below + 1)

/-- The int read where a 64-bit size is passed: its low 32 bits, signed. -/
def asInt (size : Nat) : Int := Int.bmod size 4294967296

/-- The text that a format and its arguments make. -/
def format : Bytes → List Argument → Bytes
  | 37 :: 100 :: rest, .integer value :: arguments => decimal value ++ format rest arguments
  | 37 :: 115 :: rest, .text bytes :: arguments => bytes ++ format rest arguments
  | byte :: rest, arguments => byte :: format rest arguments
  | [], _ => []

@[simp] theorem format_integer (rest : Bytes) (value : Int) (arguments : List Argument) :
    format (37 :: 100 :: rest) (.integer value :: arguments) =
      decimal value ++ format rest arguments := rfl

@[simp] theorem format_text (rest bytes : Bytes) (arguments : List Argument) :
    format (37 :: 115 :: rest) (.text bytes :: arguments) = bytes ++ format rest arguments := rfl

/-- Bytes in front of the next directive are copied. -/
theorem format_plain (plain rest : Bytes) (arguments : List Argument) (clean : 37 ∉ plain) :
    format (plain ++ rest) arguments = plain ++ format rest arguments := by
  induction plain with
  | nil => rfl
  | cons byte others inductionHypothesis =>
    simp only [List.mem_cons, not_or] at clean
    rw [List.cons_append, format, inductionHypothesis clean.2, List.cons_append]
    · intro _ _ _ _ same
      exact absurd same.symm clean.1
    · intro _ _ _ _ same
      exact absurd same.symm clean.1

/-- Every byte of a number's digits is a digit. -/
theorem digits_range (value : Nat) : ∀ byte ∈ digits value, 48 ≤ byte ∧ byte ≤ 57 := by
  intro byte member
  obtain ⟨digit, isDigit, rfl⟩ := List.mem_map.mp member
  have range := Nat.isDigit_of_mem_toDigits (by decide) (by decide) isDigit
  simp only [Char.isDigit, Bool.and_eq_true, decide_eq_true_eq] at range
  have low : 48 ≤ digit.toNat := range.1
  have high : digit.toNat ≤ 57 := range.2
  constructor
  · rw [UInt8.le_iff_toNat_le, UInt8.toNat_ofNat_of_lt' (by simp [UInt8.size]; omega)]
    exact low
  · rw [UInt8.le_iff_toNat_le, UInt8.toNat_ofNat_of_lt' (by simp [UInt8.size]; omega)]
    exact high

theorem digits_nonempty (value : Nat) : digits value ≠ [] := by
  simp [digits]

/-- The digits, read back as characters. -/
theorem digits_chars (value : Nat) :
    (digits value).map (fun byte => Char.ofNat byte.toNat) = Nat.toDigits 10 value := by
  have restored : ∀ digit ∈ Nat.toDigits 10 value,
      Char.ofNat (UInt8.ofNat digit.toNat).toNat = digit := by
    intro digit isDigit
    have range := Nat.isDigit_of_mem_toDigits (by decide) (by decide) isDigit
    simp only [Char.isDigit, Bool.and_eq_true, decide_eq_true_eq] at range
    have high : digit.toNat ≤ 57 := range.2
    rw [UInt8.toNat_ofNat_of_lt' (by simp [UInt8.size]; omega), Char.ofNat_toNat]
  rw [digits, List.map_map]
  exact (List.map_congr_left restored).trans (List.map_id' _)

/-- Numbers with the same digits are the same. -/
theorem digits_injective {first second : Nat} (same : digits first = digits second) :
    first = second := by
  have chars := congrArg (List.map (fun byte : UInt8 => Char.ofNat byte.toNat)) same
  rw [digits_chars, digits_chars] at chars
  have read := congrArg (fun digits => Nat.ofDigitChars 10 digits 0) chars
  simpa [Nat.ofDigitChars_ten_toDigits] using read

/-- A byte that is neither a digit nor a minus is in no number. -/
theorem decimal_clean (value : Int) (byte : UInt8) (other : byte < 45 ∨ 57 < byte) :
    byte ∉ decimal value := by
  simp only [UInt8.lt_iff_toNat_lt, UInt8.reduceToNat] at other
  have noDigit : ∀ number, byte ∉ digits number := by
    intro number member
    have range := digits_range number byte member
    simp only [UInt8.le_iff_toNat_le, UInt8.reduceToNat] at range
    omega
  have noMinus : byte ≠ 45 := by
    rintro rfl
    simp at other
  cases value with
  | ofNat number => exact noDigit number
  | negSucc below => simp [decimal, noMinus, noDigit]

theorem asInt_range (size : Nat) : -2147483648 ≤ asInt size ∧ asInt size < 2147483648 := by
  have above : -((4294967296 : Nat) / 2 : Int) ≤ Int.bmod size 4294967296 :=
    Int.le_bmod (by decide)
  have below : Int.bmod size 4294967296 < ((4294967296 : Nat) + 1) / 2 :=
    Int.bmod_lt (by decide)
  unfold asInt
  omega

theorem asInt_small (size : Nat) (small : size < 2147483648) : asInt size = size := by
  unfold asInt
  refine Int.bmod_eq_of_le ?_ ?_ <;> omega

/-- An int is printed as the digits of a number exactly if it is that number. -/
theorem decimal_eq_digits (value : Int) (number : Nat) :
    decimal value = digits number ↔ value = number := by
  cases value with
  | ofNat other =>
    rw [Int.ofNat_eq_natCast, Int.natCast_inj]
    exact ⟨digits_injective, fun same => congrArg digits same⟩
  | negSucc below =>
    refine iff_of_false (fun same => ?_) (by simp)
    have minus : (45 : UInt8) ∈ digits number := by
      rw [← same]
      exact List.mem_cons_self
    exact absurd (digits_range number 45 minus).1 (by decide)

/-- A size is read as it is exactly below 2^31. -/
theorem asInt_exact (size : Nat) : asInt size = size ↔ size < 2 ^ 31 := by
  have two : (2 : Nat) ^ 31 = 2147483648 := by decide
  have below := (asInt_range size).2
  rw [two]
  exact ⟨fun same => by omega, asInt_small size⟩

/-- A printed int has at most eleven characters. -/
theorem decimal_short (size : Nat) : (decimal (asInt size)).length ≤ 11 := by
  have short : ∀ number < 10000000000, (digits number).length ≤ 10 := by
    intro number small
    rw [digits, List.length_map]
    refine (Nat.length_toDigits_le_iff (by decide) (by decide)).mpr (small.trans_eq ?_)
    decide
  obtain ⟨above, below⟩ := asInt_range size
  cases value : asInt size with
  | ofNat number =>
    rw [value, Int.ofNat_eq_natCast] at below
    exact (short number (by omega)).trans (by decide)
  | negSucc number =>
    rw [value, Int.negSucc_eq] at above
    have tight := short (number + 1) (by omega)
    rw [decimal, List.length_cons]
    omega

end VHttp
