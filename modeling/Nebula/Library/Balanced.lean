import Mathlib.Logic.Equiv.Fin.Basic
import Mathlib.Probability.Distributions.Uniform
import Mathlib.SetTheory.Cardinal.Finite

/-!
Functions that take each of their values equally often. `Balanced k f` says that every value is the
image of `k` arguments: products of such functions are of this kind (`Balanced.prodMap`), and so are
the quotient and the remainder of a division by a factor of the number of arguments
(`balanced_divNat`, `balanced_modNat`). A balanced function makes a uniformly distributed argument
into a uniformly distributed value (`Balanced.map_uniform`).
-/

set_option autoImplicit false
set_option relaxedAutoImplicit false

namespace Nebula.Library

open scoped ENNReal

variable {α β γ δ : Type*} {k l : ℕ} {f : α → β} {g : γ → δ}

/-- Every value is the image of `k` arguments. -/
def Balanced (k : ℕ) (f : α → β) : Prop := ∀ b, Nat.card {a // f a = b} = k

theorem Balanced.comp_equiv (h : Balanced k f) (e : β ≃ γ) : Balanced k fun a ↦ e (f a) := by
  intro c
  rw [← h (e.symm c)]
  exact Nat.card_congr (Equiv.subtypeEquivRight fun _ ↦ e.eq_symm_apply.symm)

theorem Balanced.equiv_comp (h : Balanced k f) (e : γ ≃ α) : Balanced k fun c ↦ f (e c) := by
  intro b
  rw [← h b]
  exact Nat.card_congr (e.subtypeEquiv fun _ ↦ Iff.rfl)

theorem Balanced.prodMap (hf : Balanced k f) (hg : Balanced l g) :
    Balanced (k * l) (Prod.map f g) := by
  rintro ⟨b, d⟩
  rw [← hf b, ← hg d, ← Nat.card_prod, ← Nat.card_congr Equiv.subtypeProdEquivProd]
  exact Nat.card_congr (Equiv.subtypeEquivRight fun p ↦ Prod.ext_iff)

theorem balanced_fst : Balanced (Nat.card β) (Prod.fst : α × β → α) := fun a ↦
  Nat.card_congr
    { toFun := fun p ↦ p.1.2
      invFun := fun b ↦ ⟨(a, b), rfl⟩
      left_inv := by
        rintro ⟨⟨a, b⟩, rfl⟩
        rfl
      right_inv := fun _ ↦ rfl }

theorem balanced_snd : Balanced (Nat.card α) (Prod.snd : α × β → β) :=
  balanced_fst.equiv_comp (Equiv.prodComm α β)

/-- The quotients of the numbers below `m * n` by `n`. -/
theorem balanced_divNat (m n : ℕ) : Balanced n (Fin.divNat : Fin (m * n) → Fin m) := by
  have h := balanced_fst.equiv_comp (finProdFinEquiv (m := m) (n := n)).symm
  rwa [Nat.card_fin] at h

/-- The remainders of the numbers below `m * n` modulo `n`. -/
theorem balanced_modNat (m n : ℕ) : Balanced m (Fin.modNat : Fin (m * n) → Fin n) := by
  have h := balanced_snd.equiv_comp (finProdFinEquiv (m := m) (n := n)).symm
  rwa [Nat.card_fin] at h

theorem Balanced.surjective (h : Balanced k f) (hk : k ≠ 0) : Function.Surjective f := by
  intro b
  obtain ⟨a, ha⟩ := (Nat.card_ne_zero.mp (h b ▸ hk)).1
  exact ⟨a, ha⟩

/-- If the arguments are uniformly distributed, so are the values. -/
theorem Balanced.map_uniform [Fintype α] [Nonempty α] (h : Balanced k f) {n : ℕ} (hk : k ≠ 0)
    (hcard : Fintype.card α = k * n) (b : β) :
    (PMF.uniformOfFintype α).map f b = (n : ℝ≥0∞)⁻¹ := by
  classical
  have hfibre : (Finset.univ.filter fun a ↦ b = f a).card = k := by
    rw [← h b, Nat.card_eq_fintype_card, Fintype.card_subtype]
    simp only [eq_comm]
  have hk' : (k : ℝ≥0∞) ≠ 0 := Nat.cast_ne_zero.mpr hk
  calc (PMF.uniformOfFintype α).map f b
      = ∑ a, if b = f a then (Fintype.card α : ℝ≥0∞)⁻¹ else 0 := by
        simp only [PMF.map_apply, PMF.uniformOfFintype_apply, tsum_fintype]
    _ = k * (Fintype.card α : ℝ≥0∞)⁻¹ := by
        rw [← Finset.sum_filter, Finset.sum_const, hfibre, nsmul_eq_mul]
    _ = (n : ℝ≥0∞)⁻¹ := by
        rw [hcard, Nat.cast_mul, ENNReal.mul_inv (Or.inl hk') (Or.inl (ENNReal.natCast_ne_top k)),
          ← mul_assoc, ENNReal.mul_inv_cancel hk' (ENNReal.natCast_ne_top k), one_mul]

end Nebula.Library
