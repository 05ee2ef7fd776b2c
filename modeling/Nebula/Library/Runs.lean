import Mathlib.Order.Basic

/-!
The maximal runs of a list that are free of separators. `runs_dropWhile` skips separators in front
of the first run, `runs_takeWhile` and `runs_eq_singleton` cut the first run off, and `runs_concat`
says that separators behind the last run do not matter. `runs_spread` is the other way round: tokens
that are written down with separators between them are the runs of what is written.
-/

set_option autoImplicit false
set_option relaxedAutoImplicit false

namespace Nebula.Library

variable {α : Type*} {sep : α → Bool} {l : List α} {c : α}

/-- The maximal runs of a list without separators, in order. -/
def runs (sep : α → Bool) (l : List α) : List (List α) :=
  (l.splitOnP sep).filter fun run ↦ !run.isEmpty

@[simp] theorem runs_nil : runs sep [] = [] := by
  rw [runs, List.splitOnP_nil]
  rfl

theorem runs_cons (h : sep c = true) (l : List α) : runs sep (c :: l) = runs sep l := by
  rw [runs, List.splitOnP_cons_eq_if_modifyHead, if_pos h]
  rfl

theorem runs_dropWhile (l : List α) : runs sep (l.dropWhile sep) = runs sep l := by
  induction l with
  | nil => rfl
  | cons c l ih =>
    by_cases hc : sep c = true
    · rw [List.dropWhile_cons_of_pos hc, ih, runs_cons hc]
    · rw [List.dropWhile_cons_of_neg hc]

theorem runs_concat (h : sep c = true) (l : List α) : runs sep (l ++ [c]) = runs sep l := by
  rw [runs, List.splitOnP_append_cons l [] h, List.splitOnP_nil, List.filter_append]
  exact List.append_nil _

/-- A list without separators is its only run. -/
theorem runs_of_free {token : List α} (hne : token ≠ []) (hfree : ∀ c ∈ token, sep c = false) :
    runs sep token = [token] := by
  rw [runs, List.splitOnP_eq_singleton hfree, List.filter_cons, if_pos (by simpa using hne)]
  rfl

/-- A list without separators in front of one is the first run. -/
theorem runs_append_cons {token : List α} (hne : token ≠ []) (hfree : ∀ c ∈ token, sep c = false)
    (hc : sep c = true) (l : List α) : runs sep (token ++ c :: l) = token :: runs sep l := by
  rw [runs, List.splitOnP_append_cons_of_forall_mem hfree c hc, List.filter_cons,
    if_pos (by simpa using hne)]
  rfl

theorem runs_eq_singleton (hne : l ≠ []) (h : l.takeWhile (fun c ↦ !sep c) = l) :
    runs sep l = [l] := by
  have hfree : ∀ c ∈ l, sep c = false := by
    intro c hc
    rw [← h] at hc
    simpa using List.all_eq_true.mp List.all_takeWhile c hc
  exact runs_of_free hne hfree

/-- The first run of a list that does not start with a separator, and the runs behind it. -/
theorem runs_takeWhile {tail : List α} (hne : l.takeWhile (fun c ↦ !sep c) ≠ [])
    (h : l.dropWhile (fun c ↦ !sep c) = c :: tail) :
    runs sep l = l.takeWhile (fun c ↦ !sep c) :: runs sep tail := by
  have hc : sep c = true := by
    have hhead := List.head?_dropWhile_not (fun c ↦ !sep c) l
    rw [h] at hhead
    simpa using hhead
  have hfree : ∀ d ∈ l.takeWhile (fun c ↦ !sep c), sep d = false := by
    intro d hd
    simpa using List.all_eq_true.mp List.all_takeWhile d hd
  have hsplit : l = l.takeWhile (fun c ↦ !sep c) ++ c :: tail := by
    rw [← h, List.takeWhile_append_dropWhile]
  have hruns := runs_append_cons hne hfree hc tail
  rwa [← hsplit] at hruns

/-! ### Tokens with gaps between them -/

theorem runs_append_of_seps {gap : List α} (h : ∀ c ∈ gap, sep c = true) (l : List α) :
    runs sep (gap ++ l) = runs sep l := by
  induction gap with
  | nil => rfl
  | cons c gap ih =>
    rw [List.cons_append, runs_cons (h c List.mem_cons_self)]
    exact ih fun d hd ↦ h d (List.mem_cons_of_mem c hd)

/-- Tokens, each with the gap behind it. -/
def spread (fields : List (List α × List α)) : List α :=
  fields.flatMap fun field ↦ field.1 ++ field.2

/-- The runs of tokens with gaps between them are the tokens; only behind the last token there may
be no gap. -/
theorem runs_spread {fields : List (List α × List α)}
    (htoken : ∀ field ∈ fields, field.1 ≠ [] ∧ ∀ c ∈ field.1, sep c = false)
    (hgap : ∀ field ∈ fields, ∀ c ∈ field.2, sep c = true)
    (hapart : ∀ field ∈ fields.dropLast, field.2 ≠ []) :
    runs sep (spread fields) = fields.map Prod.fst := by
  induction fields with
  | nil => exact runs_nil
  | cons field rest ih =>
    obtain ⟨hne, hfree⟩ := htoken field List.mem_cons_self
    have hseps := hgap field List.mem_cons_self
    have hrest := ih (fun f hf ↦ htoken f (List.mem_cons_of_mem field hf))
      (fun f hf ↦ hgap f (List.mem_cons_of_mem field hf))
      fun f hf ↦ hapart f (by cases rest <;> simp_all)
    have hspread : spread (field :: rest) = field.1 ++ (field.2 ++ spread rest) := by
      rw [spread, List.flatMap_cons, List.append_assoc]
      rfl
    rw [hspread, List.map_cons]
    cases hbehind : field.2 with
    | nil =>
      -- Without a gap the token is the last one.
      cases rest with
      | nil => simpa [spread] using runs_of_free hne hfree
      | cons next rest => exact absurd hbehind (hapart field (by simp))
    | cons c gap =>
      rw [hbehind] at hseps
      rw [List.cons_append, runs_append_cons hne hfree (hseps c List.mem_cons_self),
        runs_append_of_seps fun d hd ↦ hseps d (List.mem_cons_of_mem c hd), hrest]

end Nebula.Library
