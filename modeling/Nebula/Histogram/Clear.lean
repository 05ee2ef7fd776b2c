import Nebula.Histogram.Merge

/-!
What becomes of a histogram after `clear`, as far as its users can see: they use it further, merge
it into another one perhaps, and look at the result. `clear` leaves the `min_` of a histogram at
zero, where a new one has the greatest of all values.

`observed_clear_iff` says when the result is that of a new histogram.
-/

set_option autoImplicit false
set_option relaxedAutoImplicit false

namespace Nebula.Histogram

open Nebula.Library

/-- What a histogram is used for: it takes in a value, or is merged with another one. -/
inductive Use where
  | add (v : Uint64)
  | merge (other : Histogram)

/-- The histogram after it has been used. -/
def use (h : Histogram) : Use → Option Histogram
  | .add v => h.take v
  | .merge other => some (h.merge other)

def useAll (h : Histogram) (uses : List Use) : Option Histogram := uses.foldlM use h

/-- `min()`, `max()`, `average()`, `total()` and `count()`, and the buckets. -/
structure Observation where
  min : Uint64
  max : Uint64
  average : Uint64
  total : Uint64
  count : Uint64
  buckets : Fin 166 → Uint64

def observe (h : Histogram) : Observation where
  min := h.min_
  max := h.max_
  average := h.average
  total := h.total_
  count := h.count_
  buckets := h.buckets_

/-- What there is to see when a histogram has been used, and merged into `target` if there is
one. -/
def observed (h : Histogram) (uses : List Use) (target : Option Histogram) : Option Observation :=
  (h.useAll uses).map fun h ↦ ((target.map fun t ↦ t.merge h).getD h).observe

/-- The part that a use contributes. -/
def Use.part : Use → Histogram
  | .add v => single v
  | .merge other => other

variable {h h' : Histogram}

/-- The parts of the uses are added up. -/
theorem useAll_eq_add (h : Histogram) (uses : List Use) :
    h.useAll uses = some (h + (uses.map Use.part).sum) := by
  refine MergePlan.foldlM_eq_sum (fun h u ↦ ?_) uses h
  cases u with
  | add v => exact take_eq_add h v
  | merge other => rfl

/-- Nothing of a histogram is hidden. -/
theorem observe_inj : h.observe = h'.observe ↔ h = h' := by
  refine ⟨fun hobserve ↦ ?_, fun heq ↦ heq ▸ rfl⟩
  exact ext (congrArg Observation.min hobserve) (congrArg Observation.max hobserve)
    (congrArg Observation.total hobserve) (congrArg Observation.count hobserve)
    (congrArg Observation.buckets hobserve)

/-! ### The least value -/

/-- A sum has the least value zero when one of its parts has. -/
theorem add_min_eq_zero_iff (h h' : Histogram) :
    (h + h').min_ = 0 ↔ h.min_ = 0 ∨ h'.min_ = 0 := by
  change (if h.min_ > h'.min_ then h'.min_ else h.min_) = 0 ↔ _
  split <;> bv_omega

theorem sum_min_eq_zero_iff (parts : List Histogram) :
    parts.sum.min_ = 0 ↔ ∃ part ∈ parts, part.min_ = 0 := by
  induction parts with
  | nil =>
    have hfresh : (0 : Histogram).min_ ≠ 0 := by decide
    simp only [List.sum_nil, hfresh, List.not_mem_nil, false_and, exists_false]
  | cons part parts ih =>
    rw [List.sum_cons, add_min_eq_zero_iff, ih, List.exists_mem_cons_iff]

/-- A cleared histogram differs from a new one in its `min_` alone, and there it wins. -/
theorem clear_add (h h' : Histogram) : h.clear + h' = { h' with min_ := 0 } := by
  have hclear : h.clear + h' = { fresh + h' with min_ := (h.clear + h').min_ } := rfl
  have hmin : (h.clear + h').min_ = 0 := (add_min_eq_zero_iff _ _).mpr (Or.inl rfl)
  have hfresh : fresh + h' = h' := fresh_merge h'
  rw [hclear, hmin, hfresh]

theorem zero_min_eq_iff (h : Histogram) : { h with min_ := 0 } = h ↔ h.min_ = 0 :=
  ⟨fun heq ↦ (congrArg min_ heq).symm, fun hzero ↦ by rw [← hzero]⟩

/-- Merged into a histogram, a change of `min_` to zero does not show when one of the two has the
least value zero anyhow. -/
theorem add_zero_min_eq_iff (h h' : Histogram) :
    h + { h' with min_ := 0 } = h + h' ↔ h'.min_ = 0 ∨ h.min_ = 0 := by
  have hchange : h + { h' with min_ := 0 } =
      { h + h' with min_ := (h + { h' with min_ := 0 }).min_ } := rfl
  have hmin : (h + { h' with min_ := 0 }).min_ = 0 := (add_min_eq_zero_iff _ _).mpr (Or.inr rfl)
  rw [or_comm, ← add_min_eq_zero_iff, hchange, hmin, zero_min_eq_iff]

/-! ### Cleared and new -/

theorem Use.part_min_eq_zero_iff (u : Use) :
    u.part.min_ = 0 ↔ u = .add 0 ∨ ∃ other, u = .merge other ∧ other.min_ = 0 := by
  cases u with
  | add v =>
    simp only [part, single_min_, add.injEq, reduceCtorEq, false_and, exists_false, or_false]
  | merge other => simp only [part, reduceCtorEq, merge.injEq, exists_eq_left', false_or]

/-- The least value of all that a histogram is used for. -/
theorem sum_part_min_eq_zero_iff (uses : List Use) :
    (uses.map Use.part).sum.min_ = 0 ↔
      ∃ u ∈ uses, u = .add 0 ∨ ∃ other, u = .merge other ∧ other.min_ = 0 := by
  simp only [sum_min_eq_zero_iff, List.mem_map, exists_exists_and_eq_and, Use.part_min_eq_zero_iff]

/-- A histogram that has been cleared and then used shows what a new one would show exactly when the
value zero is added to it, or a histogram whose `min_` is zero is merged into it, or it is merged
into such a histogram. -/
theorem observed_clear_iff (h : Histogram) (uses : List Use) (target : Option Histogram) :
    h.clear.observed uses target = fresh.observed uses target ↔
      (∃ u ∈ uses, u = .add 0 ∨ ∃ other, u = .merge other ∧ other.min_ = 0) ∨
        ∃ t ∈ target, t.min_ = 0 := by
  have hfresh : fresh + (uses.map Use.part).sum = (uses.map Use.part).sum := fresh_merge _
  simp only [observed, useAll_eq_add, clear_add, hfresh, Option.map_some, Option.some_inj,
    observe_inj, ← sum_part_min_eq_zero_iff]
  generalize (uses.map Use.part).sum = parts
  cases target with
  | none =>
    simp only [Option.map_none, Option.getD_none, Option.not_mem_none, false_and, exists_false,
      or_false]
    exact zero_min_eq_iff parts
  | some t =>
    simp only [Option.map_some, Option.getD_some, Option.mem_def, Option.some_inj, exists_eq_left']
    exact add_zero_min_eq_iff t parts

/-- After `clear`, a histogram to which only the value 5 has been added shows 0 as its least value,
where a new one shows 5. -/
theorem observed_clear_five :
    (fresh.clear.observed [.add 5] none).map Observation.min = some 0 ∧
      (fresh.observed [.add 5] none).map Observation.min = some 5 := by
  have hclear : fresh.clear + ([Use.add 5].map Use.part).sum = _ := clear_add fresh _
  simp only [observed, useAll_eq_add, hclear]
  decide

end Nebula.Histogram
