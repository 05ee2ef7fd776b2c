import Nebula.Library.Balanced
import Nebula.Library.ByteOrder

/-!
`Prng`: numbers of 32 and 64 bits from `random_r`, which yields numbers of 31 bits. The lowest 13
bits of one number stand in front of the highest 19 bits of the next one.

`unbiased` says that every result comes from equally many numbers, so that the results are uniformly
distributed if the numbers are.
-/

set_option autoImplicit false
set_option relaxedAutoImplicit false

namespace Nebula.Prng

open Library

open scoped ENNReal

/-- What `random_r` yields. -/
abbrev Random := Fin (2 ^ 31)

section Functions

variable {δ : Type*} (randomR : δ → Random × δ)

def randomU32 (databuf : δ) : BitVec 32 × δ :=
  let (r, databuf) := randomR databuf
  let (r2, databuf) := randomR databuf
  ((BitVec.ofNat 32 r <<< 19) ||| (BitVec.ofNat 32 r2 >>> 12), databuf)

def randomI32 (databuf : δ) : ℤ × δ :=
  let (r, databuf) := randomU32 randomR databuf
  (r.toInt, databuf)

def randomU64 (databuf : δ) : BitVec 64 × δ :=
  let (a, databuf) := randomU32 randomR databuf
  let (b, databuf) := randomU32 randomR databuf
  let r := a.setWidth 64
  let r := r <<< 32
  let r := r ||| b.setWidth 64
  (r, databuf)

def randomI64 (databuf : δ) : ℤ × δ :=
  let (r, databuf) := randomU64 randomR databuf
  (r.toInt, databuf)

end Functions

/-- A `random_r` that yields given numbers one after the other. -/
def fromList : List Random → Random × List Random
  | [] => (0, [])
  | r :: rs => (r, rs)

/-- The result for two numbers of `random_r`. -/
def u32 (p : Random × Random) : BitVec 32 := (randomU32 fromList [p.1, p.2]).1

/-- The result for four numbers of `random_r`. -/
def u64 (p : (Random × Random) × Random × Random) : BitVec 64 :=
  (randomU64 fromList [p.1.1, p.1.2, p.2.1, p.2.2]).1

/-- With any `random_r`, the results are those for the numbers that it yields. -/
theorem randomU64_eq {δ : Type*} (randomR : δ → Random × δ) (databuf : δ) :
    let (r, d) := randomR databuf
    let (r2, d2) := randomR d
    let (r3, d3) := randomR d2
    let (r4, d4) := randomR d3
    randomU32 randomR databuf = (u32 (r, r2), d2) ∧
      randomU64 randomR databuf = (u64 ((r, r2), r3, r4), d4) := ⟨rfl, rfl⟩

/-! ### The bits -/

/-- A number of `m` bits in front of one of `n` bits. -/
def concat (m n : ℕ) : Fin (2 ^ m) × Fin (2 ^ n) ≃ BitVec (m + n) :=
  finProdFinEquiv.trans ((finCongr (pow_add 2 m n).symm).trans
    ⟨BitVec.ofFin, BitVec.toFin, fun _ ↦ rfl, fun _ ↦ rfl⟩)

/-- Of the first number the remainder modulo `2 ^ 13` counts, and of the second one the quotient by
`2 ^ 12`. -/
theorem u32_eq (p : Random × Random) :
    u32 p = concat 13 19 (Prod.map (Fin.modNat ∘ finCongr (by norm_num : 2 ^ 31 = 2 ^ 18 * 2 ^ 13))
      (Fin.divNat ∘ finCongr (by norm_num : 2 ^ 31 = 2 ^ 19 * 2 ^ 12)) p) := by
  obtain ⟨r, r2⟩ := p
  have hlow : (BitVec.ofNat 32 r <<< 19).toNat = (r : ℕ) % 2 ^ 13 * 2 ^ 19 := by
    rw [BitVec.toNat_shiftLeft, BitVec.toNat_ofNat, Nat.shiftLeft_eq]
    omega
  have hhigh : (BitVec.ofNat 32 r2 >>> 12).toNat = (r2 : ℕ) / 2 ^ 12 := by
    rw [BitVec.toNat_ushiftRight, BitVec.toNat_ofNat, Nat.shiftRight_eq_div_pow]
    omega
  refine BitVec.eq_of_toNat_eq ?_
  show ((BitVec.ofNat 32 r <<< 19) ||| (BitVec.ofNat 32 r2 >>> 12)).toNat = _
  rw [toNat_shiftLeft_or hlow (by omega), hhigh, Nat.add_comm, Nat.mul_comm]
  rfl

/-- The first result stands in front of the second one. -/
theorem u64_eq (p : (Random × Random) × Random × Random) :
    u64 p = concat 32 32 (Prod.map BitVec.toFin BitVec.toFin (Prod.map u32 u32 p)) := by
  obtain ⟨p, q⟩ := p
  have hp := (u32 p).isLt
  have hq := (u32 q).isLt
  have hhigh : ((u32 p).setWidth 64 <<< 32).toNat = (u32 p).toNat * 2 ^ 32 := by
    rw [BitVec.toNat_shiftLeft, BitVec.toNat_setWidth, Nat.shiftLeft_eq]
    omega
  have hlow : ((u32 q).setWidth 64).toNat = (u32 q).toNat := by
    rw [BitVec.toNat_setWidth]
    omega
  refine BitVec.eq_of_toNat_eq ?_
  show (((u32 p).setWidth 64 <<< 32) ||| (u32 q).setWidth 64).toNat = _
  rw [toNat_shiftLeft_or hhigh (by omega), hlow, Nat.add_comm, Nat.mul_comm]
  rfl

/-! ### How often each result occurs -/

/-- Each result comes from `k` arguments, all results occur, and they are uniformly distributed if
the arguments are. -/
structure Unbiased {α : Type*} [Fintype α] [Nonempty α] {w : ℕ} (k : ℕ) (f : α → BitVec w) :
    Prop where
  card_eq : ∀ x, Nat.card {a // f a = x} = k
  surjective : Function.Surjective f
  uniform : ∀ x, (PMF.uniformOfFintype α).map f x = ((2 ^ w : ℕ) : ℝ≥0∞)⁻¹

theorem unbiased_of_balanced {α : Type*} [Fintype α] [Nonempty α] {w k : ℕ} {f : α → BitVec w}
    (h : Balanced k f) (hk : k ≠ 0) (hcard : Fintype.card α = k * 2 ^ w) : Unbiased k f :=
  ⟨h, h.surjective hk, h.map_uniform hk hcard⟩

theorem balanced_u32 : Balanced (2 ^ 30) u32 := by
  have hlow : Balanced (2 ^ 18) (Fin.modNat ∘ finCongr (by norm_num : 2 ^ 31 = 2 ^ 18 * 2 ^ 13)) :=
    (balanced_modNat (2 ^ 18) (2 ^ 13)).equiv_comp (finCongr _)
  have hhigh : Balanced (2 ^ 12) (Fin.divNat ∘ finCongr (by norm_num : 2 ^ 31 = 2 ^ 19 * 2 ^ 12)) :=
    (balanced_divNat (2 ^ 19) (2 ^ 12)).equiv_comp (finCongr _)
  have h := (hlow.prodMap hhigh).comp_equiv (concat 13 19)
  simp only [← u32_eq] at h
  exact h

theorem balanced_u64 : Balanced (2 ^ 60) u64 := by
  have hfin : Balanced (2 ^ 30) (BitVec.toFin ∘ u32) :=
    balanced_u32.comp_equiv ⟨BitVec.toFin, BitVec.ofFin, fun _ ↦ rfl, fun _ ↦ rfl⟩
  have h := (hfin.prodMap hfin).comp_equiv (concat 32 32)
  have heq : (fun p ↦ concat 32 32 (Prod.map (BitVec.toFin ∘ u32) (BitVec.toFin ∘ u32) p)) = u64 :=
    funext fun p ↦ (u64_eq p).symm
  rw [heq] at h
  exact h

/-- Every number of 32 bits comes from `2 ^ 30` pairs of numbers of `random_r`, and every number of
64 bits from `2 ^ 60` quadruples. -/
theorem unbiased : Unbiased (2 ^ 30) u32 ∧ Unbiased (2 ^ 60) u64 := by
  have hpair : Fintype.card (Random × Random) = 2 ^ 62 := by
    rw [Fintype.card_prod, Fintype.card_fin, ← pow_add]
  refine ⟨unbiased_of_balanced balanced_u32 (by decide) hpair,
    unbiased_of_balanced balanced_u64 (by decide) ?_⟩
  rw [Fintype.card_prod, hpair, ← pow_add, ← pow_add]

end Nebula.Prng
