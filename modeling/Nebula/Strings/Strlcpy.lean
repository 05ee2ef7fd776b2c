import Mathlib.Data.Nat.Basic

/-!
`String::strlcpy`. A string is the list of its bytes, without the NUL behind it; what the function
leaves in `dst` is the string it has stored there.

`strlcpy_eq` is what the comment at the function says: at most `siz - 1` bytes are stored, and the
length of the source is returned.
-/

set_option autoImplicit false
set_option relaxedAutoImplicit false

namespace Nebula.Strings

/-- `while (--n != 0) { if ((*d++ = *s++) == '\0') break; }`, for the value that `n` has after it
has been decremented: the bytes that are stored in front of the NUL, how many have been read, and
whether the loop was left through the `break`. -/
def copyLoop : ℕ → List UInt8 → List UInt8 × ℕ × Bool
  | 0, _ => ([], 0, false)
  | _ + 1, [] => ([], 1, true)
  | n + 1, c :: s =>
      let (d, read, broke) := copyLoop n s
      (c :: d, read + 1, broke)

/-- `while (*s++) ;`, as the number of bytes that are read. -/
def skipLoop : List UInt8 → ℕ
  | [] => 1
  | _ :: s => skipLoop s + 1

/-- The string that is stored in `dst`, and the result. -/
def strlcpy (src : List UInt8) (siz : ℕ) : List UInt8 × ℕ :=
  let (d, read, broke) := if siz ≠ 0 then copyLoop (siz - 1) src else ([], 0, false)
  let read := if broke then read else read + skipLoop (src.drop read)
  (d, read - 1)

theorem skipLoop_eq (s : List UInt8) : skipLoop s = s.length + 1 := by
  induction s with
  | nil => rfl
  | cons c s ih => rw [skipLoop, ih, List.length_cons]

theorem copyLoop_eq (n : ℕ) (s : List UInt8) :
    copyLoop n s = (s.take n, if s.length < n then s.length + 1 else n, decide (s.length < n)) := by
  induction n generalizing s with
  | zero => rfl
  | succ n ih =>
    cases s with
    | nil => rfl
    | cons c s =>
      rw [copyLoop, ih]
      simp only [List.take_succ_cons, List.length_cons, Nat.add_lt_add_iff_right]
      split_ifs <;> rfl

theorem strlcpy_eq (src : List UInt8) (siz : ℕ) :
    strlcpy src siz = (src.take (siz - 1), src.length) := by
  unfold strlcpy
  split_ifs with hsiz
  · rw [copyLoop_eq]
    by_cases hfits : src.length < siz - 1
    · simp [hfits]
    · simp only [hfits, decide_false, if_false, Bool.false_eq_true, skipLoop_eq, List.length_drop]
      congr 1
      omega
  · rw [not_not.mp hsiz]
    simp [skipLoop_eq]

end Nebula.Strings
