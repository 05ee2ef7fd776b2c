import Mathlib.Algebra.Order.Ring.Int
import Mathlib.Data.Nat.Cast.Basic

/-!
`String::strToI64` and `String::strToU64`, on a platform whose `long` has 64 bits. The digits are
read by `strtol` and `strtoul`, which stop at the limits of the type; the suffix multiplies what
they return, and the product is one of 64-bit numbers.

`strTo_iff` says when the result is the product, or the limit that is nearest to it: when the
product fits the type, or the number without its suffix does not. A signed product that does not fit
may wrap to the limit by accident.
-/

set_option autoImplicit false
set_option relaxedAutoImplicit false

namespace Nebula.Strings

/-! ### Reading digits -/

/-- The characters between `'\t'` and `'\r'`, and the blank. -/
def isspace (c : UInt8) : Bool := (9 ≤ c && c ≤ 13) || c == 32

def isdigit (c : UInt8) : Bool := 48 ≤ c && c ≤ 57

/-- The number that digits stand for. -/
def decimal (digits : List UInt8) : ℕ := digits.foldl (fun n c ↦ 10 * n + (c.toNat - 48)) 0

/-- What `strtol` and `strtoul` find in a string: whether there is a minus sign, the number behind
it, and where the digits end. There may be no digits. -/
def readNumber (s : List UInt8) : Option (Bool × ℕ × List UInt8) :=
  let s := s.dropWhile isspace
  let (negative, s) :=
    match s with
    | [] => (false, [])
    | c :: rest =>
        if c = 45 then (true, rest)
        else if c = 43 then (false, rest)
        else (false, c :: rest)
  if (s.takeWhile isdigit).isEmpty then none
  else some (negative, decimal (s.takeWhile isdigit), s.dropWhile isdigit)

abbrev longMin : ℤ := -2 ^ 63
abbrev longMax : ℤ := 2 ^ 63 - 1
abbrev ulongMax : ℕ := 2 ^ 64 - 1

/-- The number that fits and is nearest to a number. -/
def nearestLong (v : ℤ) : ℤ := max longMin (min longMax v)

/-- `strtol`, with base 10. -/
def strtol (s : List UInt8) : BitVec 64 × List UInt8 :=
  match readNumber s with
  | none => (0, s)
  | some (negative, n, rest) => (BitVec.ofInt 64 (nearestLong (if negative then -n else n)), rest)

/-- `strtoul`, with base 10. -/
def strtoul (s : List UInt8) : BitVec 64 × List UInt8 :=
  match readNumber s with
  | none => (0, s)
  | some (negative, n, rest) =>
      (if n > ulongMax then BitVec.ofNat 64 ulongMax
        else if negative then -BitVec.ofNat 64 n else BitVec.ofNat 64 n, rest)

/-! ### The functions -/

/-- `switch (*ptr)`, for a character that may be the NUL behind the string. -/
def applySuffix (val : BitVec 64) (ptr : List UInt8) : BitVec 64 :=
  match ptr.headD 0 with
  | 75 => val * 1024
  | 107 => val * 1000
  | 77 => val * 1048576
  | 109 => val * 1000000
  | 71 => val * 1073741824
  | 103 => val * 1000000000
  | _ => val

def strToI64 (s : List UInt8) (parseSuffix : Bool) : BitVec 64 :=
  let (val, ptr) := strtol s
  if val = BitVec.ofInt 64 longMin ∨ val = BitVec.ofInt 64 longMax then val
  else if parseSuffix then applySuffix val ptr
  else val

def strToU64 (s : List UInt8) (parseSuffix : Bool) : BitVec 64 :=
  let (val, ptr) := strtoul s
  if val = BitVec.ofNat 64 ulongMax then val
  else if parseSuffix then applySuffix val ptr
  else val

/-! ### Numerals -/

inductive Sign where
  | none
  | plus
  | minus

def Sign.bytes : Sign → List UInt8
  | none => []
  | plus => [43]
  | minus => [45]

def Sign.apply (n : ℕ) : Sign → ℤ
  | none => n
  | plus => n
  | minus => -n

inductive Suffix where
  | none
  | binaryKilo
  | kilo
  | binaryMega
  | mega
  | binaryGiga
  | giga

namespace Suffix

/-- `K`, `k`, `M`, `m`, `G` or `g`. -/
def bytes : Suffix → List UInt8
  | none => []
  | binaryKilo => [75]
  | kilo => [107]
  | binaryMega => [77]
  | mega => [109]
  | binaryGiga => [71]
  | giga => [103]

def factor : Suffix → ℕ
  | none => 1
  | binaryKilo => 2 ^ 10
  | kilo => 10 ^ 3
  | binaryMega => 2 ^ 20
  | mega => 10 ^ 6
  | binaryGiga => 2 ^ 30
  | giga => 10 ^ 9

end Suffix

/-- Blanks, a decimal number, and a suffix. -/
structure Numeral where
  blanks : List UInt8
  digits : List UInt8
  suffix : Suffix
  isspace_blanks : ∀ c ∈ blanks, isspace c = true
  isdigit_digits : ∀ c ∈ digits, isdigit c = true
  digits_ne_nil : digits ≠ []

namespace Numeral

variable (n : Numeral) (sign : Sign)

/-- The string, with a sign in front of the digits. -/
def bytes : List UInt8 := n.blanks ++ (sign.bytes ++ (n.digits ++ n.suffix.bytes))

/-- The number without its suffix. -/
def integer : ℤ := sign.apply (decimal n.digits)

/-- What the numeral stands for. -/
def value : ℤ := n.integer sign * n.suffix.factor

/-- A digit is neither a blank nor a sign. -/
theorem isdigit_ne {c : UInt8} (h : isdigit c = true) : isspace c = false ∧ c ≠ 45 ∧ c ≠ 43 := by
  have hge : (48 : UInt8).toNat ≤ c.toNat :=
    UInt8.le_iff_toNat_le.mp (of_decide_eq_true (Bool.and_eq_true_iff.mp h).1)
  have hge' : 48 ≤ c.toNat := hge
  refine ⟨?_, ?_, ?_⟩
  · have h13 : ¬ c ≤ 13 := fun hle ↦ by
      have : c.toNat ≤ 13 := UInt8.le_iff_toNat_le.mp hle
      omega
    have h32 : c ≠ 32 := fun heq ↦ by
      rw [heq] at hge'
      exact absurd hge' (by decide)
    simp [isspace, h13, h32]
  · rintro rfl
    exact absurd hge' (by decide)
  · rintro rfl
    exact absurd hge' (by decide)

theorem not_isdigit_suffix (suffix : Suffix) : suffix.bytes.takeWhile isdigit = [] := by
  cases suffix <;> rfl

theorem takeWhile_digits : (n.digits ++ n.suffix.bytes).takeWhile isdigit = n.digits ∧
    (n.digits ++ n.suffix.bytes).dropWhile isdigit = n.suffix.bytes := by
  have hsuffix : n.suffix.bytes.dropWhile isdigit = n.suffix.bytes := by
    cases n.suffix <;> rfl
  rw [List.takeWhile_append_of_pos n.isdigit_digits, List.dropWhile_append_of_pos n.isdigit_digits,
    not_isdigit_suffix, List.append_nil, hsuffix]
  exact ⟨rfl, rfl⟩

/-- The digits start with a digit. -/
theorem exists_digits_eq_cons :
    ∃ c rest, n.digits ++ n.suffix.bytes = c :: rest ∧ isdigit c = true := by
  obtain ⟨c, rest, hdigits⟩ := List.exists_cons_of_ne_nil n.digits_ne_nil
  refine ⟨c, rest ++ n.suffix.bytes, by rw [hdigits]; rfl, n.isdigit_digits c ?_⟩
  rw [hdigits]
  exact List.mem_cons_self

theorem readNumber_bytes : readNumber (n.bytes sign) =
    some (sign matches .minus, decimal n.digits, n.suffix.bytes) := by
  obtain ⟨c, rest, hcons, hdigit⟩ := n.exists_digits_eq_cons
  obtain ⟨hspace, hminus, hplus⟩ := isdigit_ne hdigit
  obtain ⟨htake, hdrop⟩ := n.takeWhile_digits
  have hne : n.digits.isEmpty = false := List.isEmpty_eq_false_iff.mpr n.digits_ne_nil
  rw [hcons] at htake hdrop
  unfold readNumber bytes
  rw [List.dropWhile_append_of_pos n.isspace_blanks, hcons]
  cases sign with
  | none =>
    simp [Sign.bytes, hspace, hminus, hplus, htake, hdrop, hne]
  | plus =>
    simp [Sign.bytes, htake, hdrop, hne, isspace]
  | minus =>
    simp [Sign.bytes, htake, hdrop, hne, isspace]

/-- The suffix multiplies. -/
theorem applySuffix_bytes (val : BitVec 64) (suffix : Suffix) :
    applySuffix val suffix.bytes = val * BitVec.ofNat 64 suffix.factor := by
  cases suffix with
  | none => exact (BitVec.mul_one val).symm
  | _ => rfl

theorem factor_pos (suffix : Suffix) : 1 ≤ suffix.factor ∧ suffix.factor < 2 ^ 63 := by
  cases suffix <;> decide

theorem factor_even (suffix : Suffix) : suffix.factor = 1 ∨ 2 ∣ suffix.factor := by
  cases suffix <;> decide

/-! ### Signed numbers -/

theorem strtol_bytes :
    strtol (n.bytes sign) = (BitVec.ofInt 64 (nearestLong (n.integer sign)), n.suffix.bytes) := by
  unfold strtol
  rw [readNumber_bytes]
  cases sign <;> rfl

theorem toInt_ofInt_long {v : ℤ} (hmin : longMin ≤ v) (hmax : v ≤ longMax) :
    (BitVec.ofInt 64 v).toInt = v := by
  refine BitVec.toInt_ofInt_eq_self (by decide) hmin ?_
  show v < 2 ^ 63
  simp only [longMax] at hmax
  omega

theorem longMin_eq : longMin = -9223372036854775808 := rfl

theorem longMax_eq : longMax = 9223372036854775807 := rfl

/-- A number at a limit of the type is not multiplied. -/
theorem strToI64_of_limit (h : n.integer sign ≤ longMin ∨ longMax ≤ n.integer sign) :
    (strToI64 (n.bytes sign) true).toInt = nearestLong (n.integer sign) := by
  have hlimit : nearestLong (n.integer sign) = longMin ∨
      nearestLong (n.integer sign) = longMax := by
    unfold nearestLong
    rw [longMin_eq, longMax_eq] at *
    omega
  unfold strToI64
  rw [strtol_bytes]
  rcases hlimit with hmin | hmax
  · simp only [hmin, true_or, if_true]
    exact toInt_ofInt_long le_rfl (by decide)
  · simp only [hmax, or_true, if_true]
    exact toInt_ofInt_long (by decide) le_rfl

/-- A number inside the limits is multiplied, modulo `2 ^ 64`. -/
theorem strToI64_of_inside (hmin : longMin < n.integer sign) (hmax : n.integer sign < longMax) :
    (strToI64 (n.bytes sign) true).toInt = (n.value sign).bmod (2 ^ 64) := by
  have hnearest : nearestLong (n.integer sign) = n.integer sign := by
    rw [nearestLong, min_eq_right hmax.le, max_eq_right hmin.le]
  have hval : (BitVec.ofInt 64 (n.integer sign)).toInt = n.integer sign :=
    toInt_ofInt_long hmin.le hmax.le
  have hfactor : (BitVec.ofNat 64 n.suffix.factor).toInt = n.suffix.factor := by
    rw [← BitVec.ofInt_natCast]
    have hlt := (factor_pos n.suffix).2
    refine toInt_ofInt_long ?_ ?_
    · rw [longMin_eq]
      omega
    · rw [longMax_eq]
      omega
  have hinside : ¬ (BitVec.ofInt 64 (n.integer sign) = BitVec.ofInt 64 longMin ∨
      BitVec.ofInt 64 (n.integer sign) = BitVec.ofInt 64 longMax) := by
    rintro (heq | heq)
    · have heq' := congrArg BitVec.toInt heq
      rw [hval, toInt_ofInt_long le_rfl (by decide)] at heq'
      exact absurd heq' hmin.ne'
    · have heq' := congrArg BitVec.toInt heq
      rw [hval, toInt_ofInt_long (by decide) le_rfl] at heq'
      exact absurd heq' hmax.ne
  unfold strToI64
  rw [strtol_bytes, hnearest]
  simp only [if_neg hinside, if_true]
  rw [applySuffix_bytes, BitVec.toInt_mul, hval, hfactor]
  rfl

theorem bmod_eq (p : ℤ) : p.bmod (2 ^ 64) =
    if p % 18446744073709551616 < 9223372036854775808 then p % 18446744073709551616
    else p % 18446744073709551616 - 18446744073709551616 := Int.bmod_def p (2 ^ 64)

/-- A product that has been reduced modulo `2 ^ 64` is the nearest limit only by accident. -/
theorem bmod_eq_nearestLong_iff {p : ℤ} (heven : longMax < p → 2 ∣ p) :
    p.bmod (2 ^ 64) = nearestLong p ↔
      longMin ≤ p ∧ p ≤ longMax ∨ p < longMin ∧ p % 2 ^ 64 = 2 ^ 63 := by
  rw [bmod_eq]
  unfold nearestLong
  rw [longMin_eq, longMax_eq] at *
  rcases lt_or_ge 9223372036854775807 p with hlarge | hle
  · have := heven hlarge
    split_ifs <;> omega
  · split_ifs <;> omega

/-- When the signed number is the product or the limit that is nearest to it. -/
theorem strToI64_iff : (strToI64 (n.bytes sign) true).toInt = nearestLong (n.value sign) ↔
    longMin ≤ n.value sign ∧ n.value sign ≤ longMax ∨
      n.integer sign ≤ longMin ∨ longMax ≤ n.integer sign ∨
      n.value sign < longMin ∧ n.value sign % 2 ^ 64 = 2 ^ 63 := by
  have hfactor := (factor_pos n.suffix).1
  have hfactor' : (1 : ℤ) ≤ n.suffix.factor := by exact_mod_cast hfactor
  by_cases hlimit : n.integer sign ≤ longMin ∨ longMax ≤ n.integer sign
  · refine iff_of_true ?_ (Or.inr (hlimit.imp_right Or.inl))
    rw [strToI64_of_limit n sign hlimit]
    unfold nearestLong value
    rw [longMin_eq, longMax_eq] at *
    rcases hlimit with hmin | hmax
    · have hle : n.integer sign * n.suffix.factor ≤ n.integer sign * 1 :=
        mul_le_mul_of_nonpos_left hfactor' (by omega)
      omega
    · have hle : n.integer sign * 1 ≤ n.integer sign * n.suffix.factor :=
        mul_le_mul_of_nonneg_left hfactor' (by omega)
      omega
  · obtain ⟨hmin, hmax⟩ := not_or.mp hlimit
    rw [strToI64_of_inside n sign (not_le.mp hmin) (not_le.mp hmax), bmod_eq_nearestLong_iff]
    · simp only [hmin, hmax, false_or]
    · intro hlarge
      rcases factor_even n.suffix with hone | heven
      · rw [value, hone, Nat.cast_one, mul_one] at hlarge
        exact absurd hlarge.le hmax
      · exact Dvd.dvd.mul_left (by exact_mod_cast heven) _

/-! ### Unsigned numbers -/

theorem strtoul_bytes : strtoul (n.bytes .none) =
    (BitVec.ofNat 64 (min (decimal n.digits) ulongMax), n.suffix.bytes) := by
  unfold strtoul
  rw [readNumber_bytes]
  rcases lt_or_ge ulongMax (decimal n.digits) with hlarge | hle
  · simp only [gt_iff_lt, hlarge, if_true, min_eq_right hlarge.le]
  · simp only [gt_iff_lt, not_lt.mpr hle, if_false, min_eq_left hle]
    rfl

theorem ulongMax_eq : ulongMax = 18446744073709551615 := rfl

/-- When the unsigned number is the product or the limit that is nearest to it. -/
theorem strToU64_iff :
    (strToU64 (n.bytes .none) true).toNat = min (decimal n.digits * n.suffix.factor) ulongMax ↔
      decimal n.digits * n.suffix.factor ≤ ulongMax ∨ ulongMax ≤ decimal n.digits := by
  obtain ⟨hfactor, hfactor'⟩ := factor_pos n.suffix
  unfold strToU64
  rw [strtoul_bytes]
  by_cases hlimit : ulongMax ≤ decimal n.digits
  · have hle : decimal n.digits * 1 ≤ decimal n.digits * n.suffix.factor :=
      Nat.mul_le_mul_left _ hfactor
    rw [mul_one] at hle
    refine iff_of_true ?_ (Or.inr hlimit)
    simp only [min_eq_right hlimit, min_eq_right (hlimit.trans hle), if_true]
    rfl
  · have hlt : decimal n.digits < 18446744073709551615 := not_le.mp hlimit
    have hinside : BitVec.ofNat 64 (decimal n.digits) ≠ BitVec.ofNat 64 ulongMax := by
      intro heq
      have heq' := congrArg BitVec.toNat heq
      rw [BitVec.toNat_ofNat, BitVec.toNat_ofNat, ulongMax_eq] at heq'
      omega
    have hproduct : (BitVec.ofNat 64 (decimal n.digits) * BitVec.ofNat 64 n.suffix.factor).toNat =
        decimal n.digits * n.suffix.factor % 18446744073709551616 := by
      rw [← BitVec.ofNat_mul, BitVec.toNat_ofNat]
    simp only [min_eq_left (not_le.mp hlimit).le, if_neg hinside, if_true]
    rw [applySuffix_bytes, hproduct, or_iff_left hlimit, ulongMax_eq]
    rcases factor_even n.suffix with hone | heven
    · rw [hone]
      omega
    · have heven' : 2 ∣ decimal n.digits * n.suffix.factor := Dvd.dvd.mul_left heven _
      omega

/-- A number with a suffix is the product, or the limit of the type that is nearest to it: in the
signed type, and in the unsigned type without a sign. -/
theorem strTo_iff :
    ((strToI64 (n.bytes sign) true).toInt = nearestLong (n.value sign) ↔
      longMin ≤ n.value sign ∧ n.value sign ≤ longMax ∨
        n.integer sign ≤ longMin ∨ longMax ≤ n.integer sign ∨
        n.value sign < longMin ∧ n.value sign % 2 ^ 64 = 2 ^ 63) ∧
    ((strToU64 (n.bytes .none) true).toNat = min (decimal n.digits * n.suffix.factor) ulongMax ↔
      decimal n.digits * n.suffix.factor ≤ ulongMax ∨ ulongMax ≤ decimal n.digits) :=
  ⟨n.strToI64_iff sign, n.strToU64_iff⟩

/-- `18014398509481984K`, which is `2 ^ 64`. -/
def twoPow64 : Numeral where
  blanks := []
  digits := [49, 56, 48, 49, 52, 51, 57, 56, 53, 48, 57, 52, 56, 49, 57, 56, 52]
  suffix := .binaryKilo
  isspace_blanks := List.all_eq_true.mp rfl
  isdigit_digits := List.all_eq_true.mp rfl
  digits_ne_nil := by decide

/-- Both functions return 0 for `2 ^ 64`. -/
theorem not_strTo_twoPow64 :
    (strToI64 (twoPow64.bytes .none) true).toInt = 0 ∧
      nearestLong (twoPow64.value .none) = 2 ^ 63 - 1 ∧
    (strToU64 (twoPow64.bytes .none) true).toNat = 0 ∧
      min (decimal twoPow64.digits * twoPow64.suffix.factor) ulongMax = 2 ^ 64 - 1 := by
  refine ⟨?_, ?_, ?_, ?_⟩ <;> rfl

end Numeral

end Nebula.Strings
