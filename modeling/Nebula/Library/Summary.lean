import Mathlib.Algebra.BigOperators.Group.List.Basic

/-!
Summaries of collections of values that can be taken in parts: a summary starts out empty, takes in
values one at a time, and is merged with the summaries of other parts. A plan says in which way a
summary comes about, and which values go into it.

`eval_eq_sum` and `foldlM_eq_sum` compute a summary when the summaries are a commutative monoid in
which taking in a value is adding the summary of that value alone. With the two, the values alone
decide about the summary, and neither the plan nor their order does (`eval_eq_foldlM`).
-/

set_option autoImplicit false
set_option relaxedAutoImplicit false

namespace Nebula.Library

/-- How a summary comes about. -/
inductive MergePlan (α : Type*) where
  | fresh
  | add (plan : MergePlan α) (v : α)
  | merge (plan other : MergePlan α)

namespace MergePlan

variable {α M : Type*}

/-- The values that go into the summary. -/
def values : MergePlan α → List α
  | fresh => []
  | add plan v => plan.values ++ [v]
  | merge plan other => plan.values ++ other.values

section Eval

variable (empty : M) (take : M → α → Option M) (combine : M → M → M)

/-- The summary that comes about, when taking in a value may fail. -/
def eval : MergePlan α → Option M
  | fresh => some empty
  | add plan v => plan.eval.bind fun m ↦ take m v
  | merge plan other => plan.eval.bind fun m ↦ other.eval.map (combine m)

end Eval

variable [AddCommMonoid M] {take : M → α → Option M} {single : α → M}

/-- A plan sums up the summaries of its values. -/
theorem eval_eq_sum (htake : ∀ m v, take m v = some (m + single v)) (plan : MergePlan α) :
    plan.eval 0 take (· + ·) = some (plan.values.map single).sum := by
  induction plan with
  | fresh => rfl
  | add plan v ih => simp [eval, values, ih, htake]
  | merge plan other ih ihother => simp [eval, values, ih, ihother]

/-- Values taken in one after the other are summed up. -/
theorem foldlM_eq_sum (htake : ∀ m v, take m v = some (m + single v)) (vs : List α) (m : M) :
    vs.foldlM take m = some (m + (vs.map single).sum) := by
  induction vs generalizing m with
  | nil => simp
  | cons v vs ih => simp [htake, ih, add_assoc]

/-- A plan comes to the summary that takes in its values in any order. -/
theorem eval_eq_foldlM (htake : ∀ m v, take m v = some (m + single v)) {plan : MergePlan α}
    {vs : List α} (hvs : vs.Perm plan.values) :
    plan.eval 0 take (· + ·) = vs.foldlM take 0 := by
  have hsum : (vs.map single).sum = (plan.values.map single).sum := (hvs.map single).sum_eq
  rw [eval_eq_sum htake, foldlM_eq_sum htake, hsum, zero_add]

end MergePlan

end Nebula.Library
