import Mathlib.Data.Nat.Notation
import Mathlib.Tactic.SplitIfs

/-!
Strings as the lists of their bytes, without the NUL behind them, and the paths of files among them.
-/

set_option autoImplicit false
set_option relaxedAutoImplicit false

namespace Nebula.Library

abbrev Bytes := List UInt8

abbrev newline : UInt8 := 10

abbrev carriageReturn : UInt8 := 13

/-- The bytes of a text. -/
def ascii (s : String) : Bytes := s.toList.map fun c ↦ UInt8.ofNat c.toNat

/-- Whether the last bytes of a string are a given suffix. -/
def endsWith (srcStr suffix : Bytes) : Bool :=
  if srcStr.length < suffix.length then false
  else srcStr.drop (srcStr.length - suffix.length) == suffix

/-! ### Paths -/

/-- `PATH_MAX`. -/
abbrev pathMax : ℕ := 4096

/-- `NAME_MAX`. -/
abbrev nameMax : ℕ := 255

/-- `"/"`. -/
def slash : Bytes := [0x2f]

theorem endsWith_slash_replicate {c : UInt8} (hc : c ≠ 0x2f) (n : ℕ) :
    endsWith (List.replicate n c) slash = false := by
  unfold endsWith
  split_ifs with hshort
  · rfl
  · have hone : n - (n - 1) = 1 := by
      have hslash : slash.length = 1 := rfl
      rw [List.length_replicate, hslash] at hshort
      omega
    have hlast : (List.replicate n c).drop (n - slash.length) = [c] :=
      List.drop_replicate.trans (congrArg (List.replicate · c) hone)
    rw [List.length_replicate, hlast]
    simpa [slash] using hc

end Nebula.Library
