import Mathlib.Data.Finset.Card
import Mathlib.Data.Nat.Find
import Mathlib.Logic.Relation

/-!
Links that are followed from one point to the next, until a point is reached that links to none.
`chase` follows them for a given number of steps; `chase_card_eq_some_iff` says that as many steps
as there are links are enough, so that a chase that has not come to an end then goes in a circle.
-/

set_option autoImplicit false
set_option relaxedAutoImplicit false

namespace Nebula.Library

variable {α : Type*} {next : α → Option α} {a b : α} {m n : ℕ}

/-- Follow links for at most a number of steps; the result is the point where they end. -/
def chase (next : α → Option α) : ℕ → α → Option α
  | 0, a =>
      match next a with
      | none => some a
      | some _ => none
  | n + 1, a =>
      match next a with
      | none => some a
      | some b => chase next n b

/-- The links that start at a point end at another one. -/
def LeadsTo (next : α → Option α) (a b : α) : Prop :=
  Relation.ReflTransGen (fun a b ↦ next a = some b) a b ∧ next b = none

theorem chase_of_none (h : next a = none) (n : ℕ) : chase next n a = some a := by
  cases n with
  | zero => simp only [chase, h]
  | succ n => simp only [chase, h]

theorem chase_zero_of_some (h : next a = some b) : chase next 0 a = none := by
  simp only [chase, h]

theorem chase_succ_of_some (h : next a = some b) (n : ℕ) :
    chase next (n + 1) a = chase next n b := by
  simp only [chase, h]

theorem leadsTo_of_chase (h : chase next n a = some b) : LeadsTo next a b := by
  induction n generalizing a with
  | zero =>
    cases hnext : next a with
    | none =>
      rw [chase_of_none hnext] at h
      cases h
      exact ⟨.refl, hnext⟩
    | some c =>
      rw [chase_zero_of_some hnext] at h
      cases h
  | succ n ih =>
    cases hnext : next a with
    | none =>
      rw [chase_of_none hnext] at h
      cases h
      exact ⟨.refl, hnext⟩
    | some c =>
      rw [chase_succ_of_some hnext] at h
      obtain ⟨hpath, hend⟩ := ih h
      exact ⟨.head hnext hpath, hend⟩

theorem exists_chase_of_leadsTo (h : LeadsTo next a b) : ∃ n, chase next n a = some b := by
  obtain ⟨hpath, hend⟩ := h
  induction hpath using Relation.ReflTransGen.head_induction_on with
  | refl => exact ⟨0, chase_of_none hend 0⟩
  | head hnext _ ih =>
    obtain ⟨n, hn⟩ := ih
    exact ⟨n + 1, by rw [chase_succ_of_some hnext, hn]⟩

/-- A chase that has come to an end stays there. -/
theorem chase_mono (h : chase next m a = some b) (hle : m ≤ n) : chase next n a = some b := by
  induction n generalizing a m with
  | zero => rwa [Nat.le_zero.mp hle] at h
  | succ n ih =>
    cases hnext : next a with
    | none =>
      rw [chase_of_none hnext] at h ⊢
      exact h
    | some c =>
      rcases m with _ | m
      · rw [chase_zero_of_some hnext] at h
        cases h
      · rw [chase_succ_of_some hnext] at h ⊢
        exact ih h (Nat.succ_le_succ_iff.mp hle)

/-- The number of links between two points. -/
def IsDistance (next : α → Option α) (b : α) (n : ℕ) (a : α) : Prop :=
  chase next n a = some b ∧ ∀ m < n, chase next m a ≠ some b

/-- The points on the way have different distances, so they are different. -/
theorem exists_card_eq_of_isDistance {S : Finset α} (hS : ∀ a, next a ≠ none → a ∈ S)
    (h : IsDistance next b n a) :
    ∃ T ⊆ S, T.card = n ∧ ∀ c ∈ T, ∃ m ≤ n, IsDistance next b m c := by
  classical
  induction n generalizing a with
  | zero =>
    exact ⟨∅, Finset.empty_subset S, Finset.card_empty,
      fun _ hc ↦ absurd hc (Finset.notMem_empty _)⟩
  | succ n ih =>
    obtain ⟨hchase, hleast⟩ := h
    cases hnext : next a with
    | none =>
      refine absurd ?_ (hleast 0 (Nat.succ_pos n))
      rw [chase_of_none hnext] at hchase ⊢
      exact hchase
    | some c =>
      have hc : IsDistance next b n c := by
        refine ⟨by rwa [chase_succ_of_some hnext] at hchase, fun m hm hshort ↦ ?_⟩
        exact hleast (m + 1) (Nat.succ_lt_succ hm) (by rwa [chase_succ_of_some hnext])
      obtain ⟨T, hsub, hcard, hdist⟩ := ih hc
      have hnew : a ∉ T := by
        intro hmem
        obtain ⟨m, hm, hmdist⟩ := hdist a hmem
        exact hleast m (Nat.lt_succ_of_le hm) hmdist.1
      have ha : a ∈ S := hS a (hnext ▸ Option.some_ne_none c)
      refine ⟨insert a T, Finset.insert_subset ha hsub,
        by rw [Finset.card_insert_of_notMem hnew, hcard], fun d hd ↦ ?_⟩
      rcases Finset.mem_insert.mp hd with rfl | hd
      · exact ⟨n + 1, le_rfl, hchase, hleast⟩
      · obtain ⟨m, hm, hmdist⟩ := hdist d hd
        exact ⟨m, Nat.le_succ_of_le hm, hmdist⟩

/-- As many steps as there are links are enough to find where they end. -/
theorem chase_card_eq_some_iff {S : Finset α} (hS : ∀ a, next a ≠ none → a ∈ S) :
    chase next S.card a = some b ↔ LeadsTo next a b := by
  classical
  refine ⟨leadsTo_of_chase, fun h ↦ ?_⟩
  have hexists := exists_chase_of_leadsTo h
  have hdist : IsDistance next b (Nat.find hexists) a :=
    ⟨Nat.find_spec hexists, fun m hm ↦ Nat.find_min hexists hm⟩
  obtain ⟨T, hsub, hcard, -⟩ := exists_card_eq_of_isDistance hS hdist
  exact chase_mono hdist.1 (hcard ▸ Finset.card_le_card hsub)

end Nebula.Library
