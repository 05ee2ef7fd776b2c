import Mathlib.Algebra.Order.Ring.Nat
import Mathlib.Data.Nat.Bitwise
import Mathlib.Tactic.Ring

/-!
Numbers as sequences of bytes. `littleEndian n v` are the lowest `n` bytes of `v`, the lowest first,
and `bigEndian n v` the same bytes, the lowest last; `ofLittleEndian` is the number that bytes stand
for. Numbers below `256 ^ n` and sequences of `n` bytes correspond to each other
(`ofLittleEndian_littleEndian`, `littleEndian_ofLittleEndian`).

`foldl_bytes` reads bytes the other way around: each of them is put behind those that have been read
before it. `toNat_shiftLeft_or` is how a part of a word is put behind another one.
-/

set_option autoImplicit false
set_option relaxedAutoImplicit false

namespace Nebula.Library

/-- The lowest `n` bytes of a number, the lowest first. -/
def littleEndian : ℕ → ℕ → List UInt8
  | 0, _ => []
  | n + 1, v => UInt8.ofNat (v % 256) :: littleEndian n (v / 256)

/-- The lowest `n` bytes of a number, the lowest last. -/
def bigEndian (n v : ℕ) : List UInt8 := (littleEndian n v).reverse

/-- The number that bytes stand for, the lowest first. -/
def ofLittleEndian : List UInt8 → ℕ
  | [] => 0
  | c :: s => c.toNat + 256 * ofLittleEndian s

theorem toNat_ofNat_mod (v : ℕ) : (UInt8.ofNat (v % 256)).toNat = v % 256 :=
  UInt8.toNat_ofNat_of_lt' (Nat.mod_lt _ (by decide))

@[simp] theorem length_littleEndian (n v : ℕ) : (littleEndian n v).length = n := by
  induction n generalizing v with
  | zero => rfl
  | succ n ih => rw [littleEndian, List.length_cons, ih]

@[simp] theorem length_bigEndian (n v : ℕ) : (bigEndian n v).length = n := by
  rw [bigEndian, List.length_reverse, length_littleEndian]

theorem ofLittleEndian_littleEndian {n v : ℕ} (h : v < 256 ^ n) :
    ofLittleEndian (littleEndian n v) = v := by
  induction n generalizing v with
  | zero => exact (Nat.lt_one_iff.mp h).symm
  | succ n ih =>
    have hrest : v / 256 < 256 ^ n := Nat.div_lt_of_lt_mul (by rwa [pow_succ'] at h)
    rw [littleEndian, ofLittleEndian, toNat_ofNat_mod, ih hrest]
    exact Nat.mod_add_div v 256

theorem littleEndian_ofLittleEndian (s : List UInt8) :
    littleEndian s.length (ofLittleEndian s) = s := by
  induction s with
  | nil => rfl
  | cons c s ih =>
    have hc : c.toNat < 256 := c.toNat_lt
    have hmod : (c.toNat + 256 * ofLittleEndian s) % 256 = c.toNat := by omega
    have hdiv : (c.toNat + 256 * ofLittleEndian s) / 256 = ofLittleEndian s := by omega
    rw [List.length_cons, ofLittleEndian, littleEndian, hmod, hdiv, ih, UInt8.ofNat_toNat]

/-- Different numbers have different bytes. -/
theorem littleEndian_inj {n v w : ℕ} (hv : v < 256 ^ n) (hw : w < 256 ^ n) :
    littleEndian n v = littleEndian n w ↔ v = w := by
  refine ⟨fun h ↦ ?_, congrArg _⟩
  rw [← ofLittleEndian_littleEndian hv, h, ofLittleEndian_littleEndian hw]

/-- Bytes that are read with the lowest one last. -/
theorem foldl_bytes (s : List UInt8) :
    s.foldl (fun v c ↦ v * 256 + c.toNat) 0 = ofLittleEndian s.reverse := by
  have hreverse : ∀ s : List UInt8,
      ofLittleEndian s = s.foldr (fun c v ↦ v * 256 + c.toNat) 0 := by
    intro s
    induction s with
    | nil => rfl
    | cons c s ih =>
      rw [ofLittleEndian, List.foldr_cons, ← ih]
      ring
  rw [hreverse, List.foldr_reverse]

/-- Two disjoint parts of a word. -/
theorem toNat_shiftLeft_or {w n a : ℕ} {x y : BitVec w} (hx : (x <<< n).toNat = a * 2 ^ n)
    (hy : y.toNat < 2 ^ n) : ((x <<< n) ||| y).toNat = a * 2 ^ n + y.toNat := by
  rw [BitVec.toNat_or, hx, ← Nat.shiftLeft_eq, ← Nat.shiftLeft_add_eq_or_of_lt hy]

end Nebula.Library
