import Mathlib.Data.Set.Basic

/-!
Steps that may fail, and tables of handles. An `Attempt` succeeds or fails, and may have changed the
state in either case; `both` and `onlyIf` are the short-circuit conditions attempts are made in, and
`orElse` gives up after cleaning up; `acquire` gets the handle that the attempts are about.

A state has a table of handles, which are in use or not. An attempt `Configures` a set of handles
when it changes no others, and, if it succeeds, has applied a given change to each of them, which
may depend on the state it started from; a failed one may have applied some of it. A run `Yields` a
value when it changes no others either, and returns the value with the handles configured, or gives
up with the handles of the set out of use. `Configures.both`, `Configures.onlyIf` and
`Yields.orElse` are the rules for putting them together. `Keeps` is for a property of the state that
nothing breaks, with the same rules.
-/

set_option autoImplicit false
set_option relaxedAutoImplicit false

namespace Nebula.Library

/-- A step that succeeds or fails, and may change the state in either case. -/
abbrev Attempt (σ : Type*) := σ → Bool × σ

namespace Attempt

variable {σ β ι α : Type*}

/-- Two attempts, the second one only if the first one has succeeded. -/
def both (a b : Attempt σ) : Attempt σ := fun s ↦
  match a s with
  | (false, s) => (false, s)
  | (true, s) => b s

/-- An attempt that is made only under a condition. -/
def onlyIf (condition : Bool) (a : Attempt σ) : Attempt σ :=
  if condition then a else fun s ↦ (true, s)

/-- Go on if the attempt succeeds; else clean up and give up. -/
def orElse (a : Attempt σ) (cleanUp : σ → σ) (next : σ → Option β × σ) : σ → Option β × σ := fun s ↦
  match a s with
  | (false, s) => (none, cleanUp s)
  | (true, s) => next s

/-- An attempt with a value that is read first; it fails if there is none. -/
def reading {γ : Type*} (get : σ → Option γ × σ) (a : γ → Attempt σ) : Attempt σ := fun s ↦
  match get s with
  | (none, s) => (false, s)
  | (some value, s) => a value s

/-- Get a handle and use it; give up if there is none. -/
def acquire {γ : Type*} (get : σ → Option γ × σ) (use : γ → σ → Option β × σ) :
    σ → Option β × σ := fun s ↦
  match get s with
  | (none, s) => (none, s)
  | (some handle, s) => use handle s

/-- A property of the state that is kept, whether something succeeds or fails. -/
def Keeps {γ : Type*} (P : σ → Prop) (run : σ → γ × σ) : Prop := ∀ s, P s → P (run s).2

/-- An attempt changes no handle outside a set, and applies a change to every handle if it
succeeds. -/
structure Configures (table : σ → ι → Option α) (handles : Set ι) (change : σ → ι → α → α)
    (a : Attempt σ) : Prop where
  frame : ∀ s, ∀ i ∉ handles, table (a s).2 i = table s i
  applied : ∀ s, (a s).1 = true → ∀ i, table (a s).2 i = (table s i).map (change s i)

/-- A run changes no handle outside a set, and returns a value with a change applied to every
handle, or gives up with the handles of the set out of use. -/
structure Yields (table : σ → ι → Option α) (handles : Set ι) (change : σ → ι → α → α) (value : β)
    (run : σ → Option β × σ) : Prop where
  value_eq : ∀ s v, (run s).1 = some v → v = value
  applied : ∀ s v, (run s).1 = some v → ∀ i, table (run s).2 i = (table s i).map (change s i)
  dropped : ∀ s, (run s).1 = none → ∀ i ∈ handles, table (run s).2 i = none
  frame : ∀ s, ∀ i ∉ handles, table (run s).2 i = table s i

variable {table : σ → ι → Option α} {handles handles' : Set ι} {change change' : σ → ι → α → α}
  {a b : Attempt σ}

theorem orElse_of_succeeds {s : σ} {cleanUp : σ → σ} {next : σ → Option β × σ}
    (h : (a s).1 = true) : a.orElse cleanUp next s = next (a s).2 := by
  unfold Attempt.orElse
  generalize a s = first at *
  obtain ⟨_ | _, t⟩ := first
  · exact absurd h Bool.false_ne_true
  · rfl

theorem orElse_of_fails {s : σ} {cleanUp : σ → σ} {next : σ → Option β × σ} (h : (a s).1 = false) :
    (a.orElse cleanUp next s).1 = none := by
  unfold Attempt.orElse
  generalize a s = first at *
  obtain ⟨_ | _, t⟩ := first
  · rfl
  · exact absurd h.symm Bool.false_ne_true

theorem Configures.mono (h : Configures table handles change a) (hsub : handles ⊆ handles') :
    Configures table handles' change a where
  frame s i hi := h.frame s i fun hmem ↦ hi (hsub hmem)
  applied := h.applied

theorem Configures.both (h : Configures table handles change a)
    (h' : Configures table handles change' b) :
    Configures table handles (fun s i ↦ change' (a s).2 i ∘ change s i) (a.both b) where
  frame s i hi := by
    have hfirst := h.frame s i hi
    unfold Attempt.both
    generalize a s = first at *
    obtain ⟨_ | _, t⟩ := first
    · exact hfirst
    · exact (h'.frame t i hi).trans hfirst
  applied s := by
    have hfirst := h.applied s
    unfold Attempt.both
    generalize a s = first at *
    obtain ⟨_ | _, t⟩ := first
    · exact fun hfalse ↦ absurd hfalse Bool.false_ne_true
    · intro hsucceeds i
      rw [h'.applied t hsucceeds i, hfirst rfl i, Option.map_map]

theorem Configures.onlyIf (h : Configures table handles change a) (condition : Bool) :
    Configures table handles (fun s i ↦ if condition then change s i else id)
      (Attempt.onlyIf condition a) := by
  cases condition with
  | true => exact h
  | false => exact ⟨fun _ _ _ ↦ rfl, fun _ _ _ ↦ (Option.map_id_apply).symm⟩

theorem yields_return (value : β) :
    Yields table handles (fun _ _ ↦ id) value fun s ↦ (some value, s) where
  value_eq _ _ heq := (Option.some.inj heq).symm
  applied _ _ _ _ := (Option.map_id_apply).symm
  dropped _ hnone := absurd hnone (by simp)
  frame _ _ _ := rfl

theorem Yields.orElse {value : β} {next : σ → Option β × σ} {cleanUp : σ → σ}
    (hnext : Yields table handles change' value next) (h : Configures table handles change a)
    (hdropped : ∀ s, ∀ i ∈ handles, table (cleanUp s) i = none)
    (hframe : ∀ s, ∀ i ∉ handles, table (cleanUp s) i = table s i) :
    Yields table handles (fun s i ↦ change' (a s).2 i ∘ change s i) value
      (a.orElse cleanUp next) where
  value_eq s v := by
    unfold Attempt.orElse
    generalize a s = first at *
    obtain ⟨_ | _, t⟩ := first
    · exact fun hnone ↦ absurd hnone (by simp)
    · exact hnext.value_eq t v
  applied s v := by
    have hfirst := h.applied s
    unfold Attempt.orElse
    generalize a s = first at *
    obtain ⟨_ | _, t⟩ := first
    · exact fun hnone ↦ absurd hnone (by simp)
    · intro hv i
      rw [hnext.applied t v hv i, hfirst rfl i, Option.map_map]
  dropped s := by
    unfold Attempt.orElse
    generalize a s = first at *
    obtain ⟨_ | _, t⟩ := first
    · exact fun _ ↦ hdropped t
    · exact hnext.dropped t
  frame s i hi := by
    have hfirst := h.frame s i hi
    unfold Attempt.orElse
    generalize a s = first at *
    obtain ⟨_ | _, t⟩ := first
    · exact (hframe t i hi).trans hfirst
    · exact (hnext.frame t i hi).trans hfirst

/-! ### Properties that are kept -/

section Keeps

variable {P : σ → Prop}

theorem Keeps.both (h : Keeps P a) (h' : Keeps P b) : Keeps P (a.both b) := by
  intro s hs
  have hfirst := h s hs
  unfold Attempt.both
  generalize a s = first at *
  obtain ⟨_ | _, t⟩ := first
  · exact hfirst
  · exact h' t hfirst

theorem Keeps.onlyIf (h : Keeps P a) (condition : Bool) : Keeps P (Attempt.onlyIf condition a) := by
  cases condition with
  | true => exact h
  | false => exact fun _ hs ↦ hs

theorem Keeps.orElse {cleanUp : σ → σ} {next : σ → Option β × σ} (h : Keeps P a)
    (hcleanUp : ∀ s, P s → P (cleanUp s)) (hnext : Keeps P next) :
    Keeps P (a.orElse cleanUp next) := by
  intro s hs
  have hfirst := h s hs
  unfold Attempt.orElse
  generalize a s = first at *
  obtain ⟨_ | _, t⟩ := first
  · exact hcleanUp t hfirst
  · exact hnext t hfirst

theorem Keeps.reading {γ : Type*} {get : σ → Option γ × σ} {use : γ → Attempt σ}
    (h : Keeps P get) (huse : ∀ value, Keeps P (use value)) :
    Keeps P (Attempt.reading get use) := by
  intro s hs
  have hfirst := h s hs
  unfold Attempt.reading
  generalize get s = first at *
  obtain ⟨_ | value, t⟩ := first
  · exact hfirst
  · exact huse value t hfirst

theorem Keeps.acquire {γ : Type*} {get : σ → Option γ × σ} {use : γ → σ → Option β × σ}
    (h : Keeps P get) (huse : ∀ handle, Keeps P (use handle)) :
    Keeps P (Attempt.acquire get use) := by
  intro s hs
  have hfirst := h s hs
  unfold Attempt.acquire
  generalize get s = first at *
  obtain ⟨_ | handle, t⟩ := first
  · exact hfirst
  · exact huse handle t hfirst

end Keeps

end Attempt

end Nebula.Library
