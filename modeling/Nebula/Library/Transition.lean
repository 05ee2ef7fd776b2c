import Mathlib.Algebra.GroupWithZero.Nat
import Mathlib.Data.Int.Notation
import Mathlib.Logic.Basic

/-!
Systems of parties that take turns in any order. A system says for every state which actions can be
taken there and what they lead to, and a run is a list of actions, taken one after the other; a
statement about every list of actions is a statement about every interleaving.

`run_invariant` is the invariant rule. `run_meets` is the one for runs whose actions are all taken
under a condition, and `meets_or_spoiled` compares the two: when an action taken against the
condition spoils the state for good, every run has met the condition or ends in a spoiled state.
`always_iff_meets` is the exact condition for a property of every state along a run,
`run_potential` bounds what the actions of a run can cost, and `run_simulates` takes the runs of one
system to runs of another. `run_emitted` is the invariant rule for what the actions put out.
-/

set_option autoImplicit false
set_option relaxedAutoImplicit false

namespace Nebula.Library

variable {σ α : Type*}

/-- The state that an action leads to, or `none` where it cannot be taken. -/
abbrev System (σ α : Type*) := σ → α → Option σ

namespace System

variable {next : System σ α} {s t : σ} {a : α} {actions : List α}

/-- The state that a sequence of actions leads to. -/
def run (next : System σ α) : σ → List α → Option σ
  | s, [] => some s
  | s, a :: rest =>
      match next s a with
      | some s => run next s rest
      | none => none

/-- Every action is taken under the condition. -/
def Meets (next : System σ α) (C : σ → α → Prop) : σ → List α → Prop
  | _, [] => True
  | s, a :: rest =>
      C s a ∧
        match next s a with
        | some s => Meets next C s rest
        | none => True

instance decidableMeets {C : σ → α → Prop} [∀ s a, Decidable (C s a)] :
    ∀ (s : σ) (actions : List α), Decidable (next.Meets C s actions)
  | _, [] => isTrue trivial
  | s, a :: rest =>
      have : Decidable (match next s a with
          | some s => next.Meets C s rest
          | none => True) :=
        match next s a with
        | some s => decidableMeets s rest
        | none => isTrue trivial
      inferInstanceAs (Decidable (C s a ∧ _))

/-- A run is a first action and a run from where it leads. -/
theorem run_cons (h : next.run s (a :: actions) = some t) :
    ∃ s', next s a = some s' ∧ next.run s' actions = some t := by
  rw [run] at h
  cases hs : next s a with
  | none =>
    rw [hs] at h
    cases h
  | some s' =>
    rw [hs] at h
    exact ⟨s', rfl, h⟩

/-- A run of two sequences of actions is a run of the first, and one of the second from there. -/
theorem run_append_eq_some {actions' : List α} :
    next.run s (actions ++ actions') = some t ↔
      ∃ s', next.run s actions = some s' ∧ next.run s' actions' = some t := by
  induction actions generalizing s with
  | nil => simp [run]
  | cons a rest ih =>
    rw [List.cons_append, run, run]
    cases next s a with
    | none => simp
    | some s' => exact ih

theorem meets_cons {C : σ → α → Prop} {s' : σ} (h : next s a = some s') :
    next.Meets C s (a :: actions) ↔ C s a ∧ next.Meets C s' actions := by
  rw [Meets, h]

/-- What every action taken under a condition keeps, a run that meets the condition keeps. -/
theorem run_meets {I : σ → Prop} {C : σ → α → Prop}
    (hstep : ∀ s a s', I s → C s a → next s a = some s' → I s') (hs : I s)
    (hmeets : next.Meets C s actions) (h : next.run s actions = some t) : I t := by
  induction actions generalizing s with
  | nil =>
    cases h
    exact hs
  | cons a rest ih =>
    obtain ⟨s', hfirst, hrest⟩ := run_cons h
    have hmeets' := (meets_cons hfirst).mp hmeets
    exact ih (hstep s a s' hs hmeets'.1 hfirst) hmeets'.2 hrest

/-- A condition on the actions alone. -/
theorem meets_of_forall_mem {P : α → Prop} (h : ∀ a ∈ actions, P a) (s : σ) :
    next.Meets (fun _ ↦ P) s actions := by
  induction actions generalizing s with
  | nil => trivial
  | cons a rest ih =>
    refine ⟨h a List.mem_cons_self, ?_⟩
    cases next s a with
    | none => trivial
    | some s' => exact ih (fun b hb ↦ h b (List.mem_cons_of_mem a hb)) s'

/-- The invariant rule: what every action keeps, every run keeps. -/
theorem run_invariant {I : σ → Prop} (hstep : ∀ s a s', I s → next s a = some s' → I s')
    (hs : I s) (h : next.run s actions = some t) : I t := by
  induction actions generalizing s with
  | nil =>
    cases h
    exact hs
  | cons a rest ih =>
    obtain ⟨s', hfirst, hrest⟩ := run_cons h
    exact ih (hstep s a s' hs hfirst) hrest

/-- The simulation rule: when every action of one system is an action of the other, or is not
noticed there, then a run of the one is a run of the other with some of its actions. -/
theorem run_simulates {σ' : Type*} {next' : System σ' α} {R : σ → σ' → Prop} {s' : σ'}
    (hstep : ∀ s a t s', R s s' → next s a = some t →
      R t s' ∨ ∃ t', next' s' a = some t' ∧ R t t') (hs : R s s')
    (h : next.run s actions = some t) :
    ∃ actions' t', List.Sublist actions' actions ∧ next'.run s' actions' = some t' ∧ R t t' := by
  induction actions generalizing s s' with
  | nil =>
    cases h
    exact ⟨[], s', .slnil, rfl, hs⟩
  | cons a rest ih =>
    obtain ⟨s₁, hfirst, hrest⟩ := run_cons h
    rcases hstep s a s₁ s' hs hfirst with hsame | ⟨s₁', hfirst', hsame⟩
    · obtain ⟨actions', t', hsub, hrun, hend⟩ := ih hsame hrest
      exact ⟨actions', t', hsub.cons a, hrun, hend⟩
    · obtain ⟨actions', t', hsub, hrun, hend⟩ := ih hsame hrest
      exact ⟨a :: actions', t', hsub.cons_cons a, by rw [run, hfirst']; exact hrun, hend⟩

/-- What the actions of a run put out, one after the other. -/
def emitted {β : Type*} (next : System σ α) (out : σ → α → List β) : σ → List α → List β
  | _, [] => []
  | s, a :: rest =>
      out s a ++
        match next s a with
        | some s => emitted next out s rest
        | none => []

/-- The invariant rule for a state and what has been put out before it. -/
theorem run_emitted {β : Type*} {out : σ → α → List β} {I : σ → List β → Prop}
    (hstep : ∀ s a s' l, I s l → next s a = some s' → I s' (l ++ out s a)) {l : List β}
    (hs : I s l) (h : next.run s actions = some t) : I t (l ++ next.emitted out s actions) := by
  induction actions generalizing s l with
  | nil =>
    cases h
    rw [emitted, List.append_nil]
    exact hs
  | cons a rest ih =>
    obtain ⟨s', hfirst, hrest⟩ := run_cons h
    rw [emitted, hfirst, ← List.append_assoc]
    exact ih (hstep s a s' l hs hfirst) hrest

/-- Some run leads from one state to another. -/
def Reaches (next : System σ α) (s t : σ) : Prop := ∃ actions, next.run s actions = some t

theorem Reaches.refl (next : System σ α) (s : σ) : next.Reaches s s := ⟨[], rfl⟩

theorem Reaches.trans {u : σ} (h : next.Reaches s t) (h' : next.Reaches t u) :
    next.Reaches s u := by
  obtain ⟨actions, hrun⟩ := h
  obtain ⟨actions', hrun'⟩ := h'
  exact ⟨actions ++ actions', run_append_eq_some.mpr ⟨t, hrun, hrun'⟩⟩

theorem Reaches.of_next (h : next s a = some t) : next.Reaches s t :=
  ⟨[a], by rw [run, h]; rfl⟩

/-- The potential rule: when the cost `c` of every action is drawn from a potential `μ`, to which
the action adds its gain `g` at most, then a run has not cost more than there was and has been
added. -/
theorem run_potential {I : σ → Prop} {μ : σ → ℤ} {c g : α → ℕ}
    (hI : ∀ s a s', I s → next s a = some s' → I s')
    (hstep : ∀ s a s', I s → next s a = some s' → μ s' + c a ≤ μ s + g a) (hs : I s)
    (h : next.run s actions = some t) :
    μ t + (actions.map c).sum ≤ μ s + (actions.map g).sum := by
  induction actions generalizing s with
  | nil =>
    cases h
    exact Int.le_refl _
  | cons a rest ih =>
    obtain ⟨s', hfirst, hrest⟩ := run_cons h
    have hhead := hstep s a s' hs hfirst
    have htail := ih (hI s a s' hs hfirst) hrest
    rw [List.map_cons, List.map_cons, List.sum_cons, List.sum_cons]
    omega

/-- When actions taken under a condition keep an invariant, one taken against it spoils the state,
and a spoiled state stays spoiled, then every run has met the condition or ends in a spoiled
state. -/
theorem meets_or_spoiled {I B : σ → Prop} {C : σ → α → Prop}
    (hstep : ∀ s a s', I s → C s a → next s a = some s' → I s')
    (hspoil : ∀ s a s', I s → ¬ C s a → next s a = some s' → B s')
    (hspoiled : ∀ s a s', B s → next s a = some s' → B s') (hs : I s)
    (h : next.run s actions = some t) : next.Meets C s actions ∨ B t := by
  induction actions generalizing s with
  | nil => exact Or.inl trivial
  | cons a rest ih =>
    obtain ⟨s', hfirst, hrest⟩ := run_cons h
    by_cases hC : C s a
    · have hrest' := ih (hstep s a s' hs hC hfirst) hrest
      exact hrest'.imp_left fun hmeets ↦ (meets_cons hfirst).mpr ⟨hC, hmeets⟩
    · exact Or.inr (run_invariant hspoiled (hspoil s a s' hs hC hfirst) hrest)

/-- Every state reached along the run has the property. -/
def Always (next : System σ α) (P : σ → Prop) (s : σ) (actions : List α) : Prop :=
  ∀ n t, next.run s (actions.take n) = some t → P t

theorem always_cons {P : σ → Prop} {s' : σ} (h : next s a = some s') :
    next.Always P s (a :: actions) ↔ P s ∧ next.Always P s' actions := by
  have hrun : ∀ n, next.run s ((a :: actions).take (n + 1)) = next.run s' (actions.take n) := by
    intro n
    rw [List.take_succ_cons, run, h]
  constructor
  · exact fun halways ↦ ⟨halways 0 s rfl, fun n t ht ↦ halways (n + 1) t ((hrun n).trans ht)⟩
  · rintro ⟨hs, hrest⟩ n t ht
    cases n with
    | zero =>
      cases ht
      exact hs
    | succ n => exact hrest n t ((hrun n).symm.trans ht)

/-- When an invariant implies a property, is kept by actions taken under a condition, and actions
taken against it lead to a state without the property, then the runs with the property in every
state are those that meet the condition. -/
theorem always_iff_meets {I J P : σ → Prop} {C : σ → α → Prop}
    (hI : ∀ s a s', I s → next s a = some s' → I s')
    (hJ : ∀ s a s', J s → C s a → next s a = some s' → J s') (hP : ∀ s, J s → P s)
    (hbad : ∀ s a, I s → ¬ C s a → ∃ s', next s a = some s' ∧ ¬ P s') (hs : I s) (hs' : J s) :
    next.Always P s actions ↔ next.Meets C s actions := by
  induction actions generalizing s with
  | nil =>
    refine iff_of_true (fun n t ht ↦ ?_) trivial
    rw [List.take_nil] at ht
    cases ht
    exact hP s hs'
  | cons a rest ih =>
    cases hnext : next s a with
    | none =>
      have hC : C s a := Classical.byContradiction fun hC ↦ by
        obtain ⟨s', hsome, -⟩ := hbad s a hs hC
        rw [hnext] at hsome
        cases hsome
      refine iff_of_true (fun n t ht ↦ ?_) ⟨hC, by rw [hnext]; trivial⟩
      cases n with
      | zero =>
        cases ht
        exact hP s hs'
      | succ n =>
        rw [List.take_succ_cons, run, hnext] at ht
        cases ht
    | some s' =>
      rw [always_cons hnext, meets_cons hnext]
      by_cases hC : C s a
      · rw [ih (hI s a s' hs hnext) (hJ s a s' hs' hC hnext)]
        exact and_congr_left fun _ ↦ iff_of_true (hP s hs') hC
      · refine iff_of_false (fun halways ↦ ?_) fun hmeets ↦ hC hmeets.1
        obtain ⟨s'', hsome, hnot⟩ := hbad s a hs hC
        rw [hnext] at hsome
        cases hsome
        exact hnot (halways.2 0 s' rfl)

end System

end Nebula.Library
