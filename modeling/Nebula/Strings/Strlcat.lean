import Nebula.Library.Text
import Nebula.Strings.Strlcpy

/-!
`String::strlcpy` and `String::strlcat` on the array that they store into. `strlcpyTo_spec` and
`strlcatTo_spec` say which string is there afterwards, and that no byte has been stored next to the
array: what does not fit is cut off, and the result is the length that the string would have had.

Paths are modelled as strings without their arrays. `strlcat` is what happens to such a string, and
`strlcatTo_stored` says that this is what happens in the array.
-/

set_option autoImplicit false
set_option relaxedAutoImplicit false

namespace Nebula.Strings

open Nebula.Library

/-- `strlcpy`: the result, and the array afterwards. -/
def strlcpyTo (dst : Buffer UInt8) (src : List UInt8) (siz : ℕ) : ℕ × Buffer UInt8 :=
  let (stored, result) := strlcpy src siz
  (result, if siz ≠ 0 then dst.store 0 stored else dst)

/-- `while (n-- != 0 && *d != '\0') d++;` -/
def endLoop (dst : Buffer UInt8) : ℕ → ℤ → ℤ
  | 0, d => d
  | n + 1, d => if dst.cell d ≠ 0 then endLoop dst n (d + 1) else d

/-- The loop that appends, and the store of the NUL behind it. -/
def appendLoop : List UInt8 → ℕ → Buffer UInt8 → ℤ → Buffer UInt8
  | [], _, dst, d => dst.write d 0
  | c :: s, n, dst, d =>
      if n ≠ 1 then appendLoop s (n - 1) (dst.write d c) (d + 1) else appendLoop s n dst d

/-- `strlcat`: the result, and the array afterwards. -/
def strlcatTo (dst : Buffer UInt8) (src : List UInt8) (siz : ℕ) : ℕ × Buffer UInt8 :=
  let dlen := (endLoop dst siz 0).toNat
  let n := siz - dlen
  if n = 0 then (dlen + src.length, dst) else (dlen + src.length, appendLoop src n dst dlen)

/-- `strlcat` to a string: the string that is stored, and the result. -/
def strlcat (dst src : List UInt8) (siz : ℕ) : List UInt8 × ℕ :=
  if siz ≤ dst.length then (dst, siz + src.length)
  else (dst ++ src.take (siz - dst.length - 1), dst.length + src.length)

variable {dst : Buffer UInt8} {s t : List UInt8} {siz : ℕ}

theorem strlcpyTo_spec (hsiz : 0 < siz) (hroom : siz ≤ dst.size) (hs : 0 ∉ s) :
    (strlcpyTo dst s siz).1 = s.length ∧ (strlcpyTo dst s siz).2.IsText 0 (s.take (siz - 1)) ∧
      (strlcpyTo dst s siz).2.size = dst.size ∧ (strlcpyTo dst s siz).2.strayed = dst.strayed := by
  have hstored : strlcpyTo dst s siz = (s.length, dst.store 0 (s.take (siz - 1))) := by
    rw [strlcpyTo, strlcpy_eq]
    simp only [if_pos hsiz.ne']
  have hfits : 0 + ((s.take (siz - 1)).length : ℤ) < dst.size := by
    rw [List.length_take]
    omega
  rw [hstored]
  obtain ⟨htext, hstrayed⟩ := dst.isText_store le_rfl hfits fun hmem ↦
    hs (List.mem_of_mem_take hmem)
  exact ⟨rfl, htext, dst.size_store 0 _, hstrayed⟩

/-- The end of a string is found. -/
theorem endLoop_of_isText {i : ℤ} (h : dst.IsText i t) {n : ℕ} (hn : t.length < n) :
    endLoop dst n i = i + t.length := by
  induction t generalizing i n with
  | nil =>
    obtain ⟨n, rfl⟩ := Nat.exists_eq_succ_of_ne_zero (show n ≠ 0 by simp at hn; omega)
    have hend : dst.cell i = 0 := h.2
    rw [endLoop, if_neg (not_not.mpr hend)]
    exact (add_zero i).symm
  | cons c t ih =>
    rw [List.length_cons] at hn
    obtain ⟨n, rfl⟩ := Nat.exists_eq_succ_of_ne_zero (show n ≠ 0 by omega)
    obtain ⟨⟨-, hcell, hc⟩, ht⟩ := h
    rw [endLoop, hcell, if_pos hc, ih ht (by omega), List.length_cons]
    push_cast
    omega

/-- When there is room for one byte only, none is appended. -/
theorem appendLoop_one (s : List UInt8) (dst : Buffer UInt8) (d : ℤ) :
    appendLoop s 1 dst d = dst.write d 0 := by
  induction s with
  | nil => rfl
  | cons c s ih => rw [appendLoop, if_neg (not_not.mpr rfl), ih]

/-- As many bytes are appended as there is room for. -/
theorem appendLoop_eq (s : List UInt8) (n : ℕ) (dst : Buffer UInt8) (d : ℤ) :
    appendLoop s (n + 1) dst d = dst.store d (s.take n) := by
  induction n generalizing s dst d with
  | zero => exact appendLoop_one s dst d
  | succ n ih =>
    cases s with
    | nil => rfl
    | cons c s =>
      rw [appendLoop, if_pos (by omega), Nat.add_sub_cancel, ih]
      rfl

theorem strlcatTo_spec (h : dst.IsText 0 t) (hlength : t.length < siz) (hroom : siz ≤ dst.size)
    (hs : 0 ∉ s) :
    (strlcatTo dst s siz).1 = t.length + s.length ∧
      (strlcatTo dst s siz).2.IsText 0 (t ++ s.take (siz - t.length - 1)) ∧
      (strlcatTo dst s siz).2.size = dst.size ∧ (strlcatTo dst s siz).2.strayed = dst.strayed := by
  have hend : (endLoop dst siz 0).toNat = t.length := by
    rw [endLoop_of_isText h hlength, zero_add]
    exact Int.toNat_natCast _
  obtain ⟨n, hn⟩ : ∃ n, siz - t.length = n + 1 := Nat.exists_eq_succ_of_ne_zero (by omega)
  have hstored : strlcatTo dst s siz = (t.length + s.length, dst.store t.length (s.take n)) := by
    simp only [strlcatTo, hend, hn, if_neg (Nat.succ_ne_zero n), appendLoop_eq]
  have hfits : (t.length : ℤ) + (s.take n).length < dst.size := by
    rw [List.length_take]
    omega
  rw [hstored, hn, Nat.add_sub_cancel]
  obtain ⟨htext, hstrayed⟩ := dst.isText_store (by omega) hfits fun hmem ↦
    hs (List.mem_of_mem_take hmem)
  refine ⟨rfl, h.append (dst.size_store _ _) (fun j _ hj ↦ ?_) ?_, dst.size_store _ _, hstrayed⟩
  · exact dst.cell_store_of_lt _ (by omega)
  · rw [zero_add]
    exact htext

/-! ### Strings without their arrays -/

/-- A string that does not fill its array is continued up to the end of the array. -/
theorem strlcat_eq_take (h : t.length < siz) : (strlcat t s siz).1 = (t ++ s).take (siz - 1) := by
  have hall : t.take (siz - 1) = t := List.take_of_length_le (Nat.le_sub_one_of_lt h)
  rw [strlcat, if_neg (not_le.mpr h), List.take_append, hall, Nat.sub_right_comm]

/-- A string that is too long is not searched for its end. -/
theorem endLoop_of_le {i : ℤ} {t : List UInt8} (h : dst.IsText i t) {n : ℕ} (hn : n ≤ t.length) :
    endLoop dst n i = i + n := by
  induction t generalizing i n with
  | nil =>
    obtain rfl : n = 0 := Nat.le_zero.mp hn
    exact (add_zero i).symm
  | cons c t ih =>
    obtain ⟨⟨-, hcell, hc⟩, ht⟩ := h
    cases n with
    | zero => exact (add_zero i).symm
    | succ n =>
      rw [endLoop, hcell, if_pos hc, ih ht (Nat.le_of_succ_le_succ hn)]
      push_cast
      omega

theorem strlcatTo_stored {s t : List UInt8} (h : dst.IsText 0 t) (hroom : siz ≤ dst.size)
    (hs : 0 ∉ s) :
    (strlcatTo dst s siz).1 = (strlcat t s siz).2 ∧
      (strlcatTo dst s siz).2.IsText 0 (strlcat t s siz).1 ∧
      (strlcatTo dst s siz).2.size = dst.size ∧ (strlcatTo dst s siz).2.strayed = dst.strayed := by
  unfold strlcat
  split_ifs with hfull
  · have hend : (endLoop dst siz 0).toNat = siz := by
      rw [endLoop_of_le h hfull, zero_add]
      exact Int.toNat_natCast _
    have hkept : strlcatTo dst s siz = (siz + s.length, dst) := by
      simp only [strlcatTo, hend, Nat.sub_self, if_true]
    rw [hkept]
    exact ⟨rfl, h, rfl, rfl⟩
  · exact strlcatTo_spec h (not_le.mp hfull) hroom hs

end Nebula.Strings
