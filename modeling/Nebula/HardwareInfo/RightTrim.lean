import Nebula.Library.Outcome
import Nebula.Library.Text
import Mathlib.Data.List.DropRight

/-!
`HardwareInfo::rightTrim`: the whitespace at the end of a line is overwritten, from the last
character on towards the first. The index is a `size_t`, which is never negative, so only a
character that is not whitespace ends the loop.

`trimsRight_iff` says that the line is trimmed as it should be exactly if it has such a character.
-/

set_option autoImplicit false
set_option relaxedAutoImplicit false

namespace Nebula.HardwareInfo

open Nebula.Library Outcome

/-- A line in a block of memory. No object is so large that the difference of two pointers into it
overflows. -/
structure Line where
  buffer : Buffer UInt8
  text : List UInt8
  isText : buffer.IsText 0 text
  size_le : buffer.size ≤ 2 ^ 63

/-! ### The loop -/

/-- `'\t'`, `'\n'`, `'\v'`, `'\f'`, `'\r'` and `' '`. -/
def whitespace : List UInt8 := [9, 10, 11, 12, 13, 32]

/-- The variables of the loop. `accesses` is not one of them: the indices at which the loop has read
or written a character. -/
structure Trimming where
  line : Buffer UInt8
  i : BitVec 64
  quit : Bool
  accesses : List ℤ

/-- The `switch`, and `i--`. The address `line + i` wraps around as `i` does. -/
def trimBody (s : Trimming) : Outcome Trimming :=
  let index := s.i.toInt
  let line := s.line.touch index
  if s.line.cell index ∈ whitespace then
    done ⟨line.write index 0, s.i - 1, s.quit, index :: index :: s.accesses⟩
  else done ⟨line, s.i - 1, true, index :: s.accesses⟩

/-- `rightTrim`, for at most `fuel` iterations. -/
def rightTrim (fuel : ℕ) (line : Buffer UInt8) : Outcome Trimming :=
  let len := BitVec.ofNat 64 (line.text 0).length
  whileLoop (fun s ↦ decide (0 ≤ s.i) && !s.quit) trimBody fuel ⟨line, len - 1, false, []⟩

/-! ### One iteration -/

section Loop

variable {line : Buffer UInt8} {text : List UInt8} {c : UInt8} {accesses : List ℤ}

/-- The loop in front of the last character of what is left of the line. -/
def trimFrom (fuel : ℕ) (line : Buffer UInt8) (text : List UInt8) (accesses : List ℤ) :
    Outcome Trimming :=
  whileLoop (fun s ↦ decide (0 ≤ s.i) && !s.quit) trimBody fuel
    ⟨line, BitVec.ofNat 64 text.length - 1, false, accesses⟩

theorem guard_eq (s : Trimming) : (decide (0 ≤ s.i) && !s.quit) = !s.quit := by
  rw [decide_eq_true (BitVec.le_def.mpr (Nat.zero_le _)), Bool.true_and]

theorem trimFrom_zero : trimFrom 0 line text accesses =
    running ⟨line, BitVec.ofNat 64 text.length - 1, false, accesses⟩ :=
  whileLoop_zero (guard_eq _)

theorem trimFrom_succ (fuel : ℕ) : trimFrom (fuel + 1) line text accesses =
    (trimBody ⟨line, BitVec.ofNat 64 text.length - 1, false, accesses⟩).andThen
      (whileLoop (fun s ↦ decide (0 ≤ s.i) && !s.quit) trimBody fuel) :=
  whileLoop_succ (guard_eq _) fuel

theorem length_concat_sub_one (text : List UInt8) (c : UInt8) :
    BitVec.ofNat 64 (text ++ [c]).length - 1 = BitVec.ofNat 64 text.length := by
  have hsucc : BitVec.ofNat 64 (text.length + 1) = BitVec.ofNat 64 text.length + 1 :=
    BitVec.ofNat_add ..
  rw [List.length_append, List.length_singleton, hsucc, BitVec.add_sub_cancel]

/-- The last character of a line, and its index. -/
theorem cell_last (htext : line.IsText 0 (text ++ [c])) (hsize : line.size ≤ 2 ^ 63) :
    (BitVec.ofNat 64 text.length).toInt = text.length ∧ line.InBounds text.length ∧
      line.cell text.length = c := by
  have hlast := htext.drop
  rw [zero_add] at hlast
  have hlt := hlast.1.1.2
  refine ⟨?_, hlast.1.1, hlast.1.2.1⟩
  rw [← BitVec.ofInt_natCast]
  exact BitVec.toInt_ofInt_eq_self (by decide) (by omega) (by omega)

/-- A whitespace character at the end of the line is overwritten. -/
theorem trimFrom_whitespace (htext : line.IsText 0 (text ++ [c])) (hsize : line.size ≤ 2 ^ 63)
    (hc : c ∈ whitespace) (fuel : ℕ) : trimFrom (fuel + 1) line (text ++ [c]) accesses =
      trimFrom fuel (line.write text.length 0) text
        (text.length :: text.length :: accesses) := by
  obtain ⟨hindex, hbounds, hcell⟩ := cell_last htext hsize
  rw [trimFrom_succ, length_concat_sub_one, trimBody]
  simp only [hindex, hcell, if_pos hc, Buffer.touch_of_inBounds hbounds, andThen_done]
  rfl

/-- Any other character ends the loop. -/
theorem trimFrom_visible (htext : line.IsText 0 (text ++ [c])) (hsize : line.size ≤ 2 ^ 63)
    (hc : c ∉ whitespace) (fuel : ℕ) : trimFrom (fuel + 1) line (text ++ [c]) accesses =
      done ⟨line, BitVec.ofNat 64 text.length - 1, true, text.length :: accesses⟩ := by
  obtain ⟨hindex, hbounds, hcell⟩ := cell_last htext hsize
  rw [trimFrom_succ, length_concat_sub_one, trimBody]
  simp only [hindex, hcell, if_neg hc, Buffer.touch_of_inBounds hbounds, andThen_done]
  exact whileLoop_of_not_guard (guard_eq _) fuel

/-- In front of the line the index has wrapped around, and the loop goes on. -/
theorem trimFrom_nil (line : Buffer UInt8) (accesses : List ℤ) :
    -1 ∈ (trimFrom 1 line [] accesses).state.accesses := by
  have hindex : (BitVec.ofNat 64 ([] : List UInt8).length - 1).toInt = -1 := by decide
  have hnext : ∀ s : Trimming, -1 ∈ s.accesses →
      -1 ∈ ((done s).andThen
        (whileLoop (fun s ↦ decide (0 ≤ s.i) && !s.quit) trimBody 0)).state.accesses := by
    intro s hs
    rw [andThen_done, whileLoop]
    split_ifs <;> exact hs
  rw [trimFrom_succ, trimBody]
  simp only [hindex]
  split_ifs <;> exact hnext _ List.mem_cons_self

/-- The loop never leaves a line with a character that is not whitespace, and trims it. -/
theorem trimFrom_spec (bound : ℕ) : ∀ (text : List UInt8) (line : Buffer UInt8)
    (accesses : List ℤ) (fuel : ℕ), line.IsText 0 text → line.size ≤ 2 ^ 63 →
    (∃ c ∈ text, c ∉ whitespace) → text.length ≤ bound → (∀ j ∈ accesses, 0 ≤ j ∧ j < bound) →
      (∀ j ∈ (trimFrom fuel line text accesses).state.accesses, 0 ≤ j ∧ j < bound) ∧
        (text.length ≤ fuel → ∃ s, trimFrom fuel line text accesses = done s ∧
          s.line.IsText 0 (text.rdropWhile fun c ↦ decide (c ∈ whitespace))) := by
  intro text
  induction text using List.reverseRecOn with
  | nil => exact fun _ _ _ _ _ ⟨c, hc, _⟩ ↦ absurd hc List.not_mem_nil
  | append_singleton text c ih =>
    intro line accesses fuel htext hsize hvisible hbound haccesses
    rw [List.length_append, List.length_singleton] at hbound ⊢
    have hindex : (0 : ℤ) ≤ text.length ∧ (text.length : ℤ) < bound := by omega
    cases fuel with
    | zero =>
      rw [trimFrom_zero]
      exact ⟨haccesses, fun hfuel ↦ absurd hfuel (Nat.not_succ_le_zero _)⟩
    | succ fuel =>
      by_cases hc : c ∈ whitespace
      · have hrest : ∃ c ∈ text, c ∉ whitespace := by
          obtain ⟨d, hd, hd'⟩ := hvisible
          rcases List.mem_append.mp hd with hd | hd
          · exact ⟨d, hd, hd'⟩
          · exact absurd (List.mem_singleton.mp hd ▸ hc) hd'
        have hcut : (line.write text.length 0).IsText 0 text := by
          have hcut := htext.cut
          rwa [zero_add] at hcut
        rw [trimFrom_whitespace htext hsize hc,
          List.rdropWhile_concat_pos _ _ _ (by simpa using hc)]
        obtain ⟨hin, hdone⟩ := ih (line.write text.length 0)
          (text.length :: text.length :: accesses) fuel hcut hsize hrest (by omega)
          (by simpa [hindex] using haccesses)
        exact ⟨hin, fun hfuel ↦ hdone (by omega)⟩
      · rw [trimFrom_visible htext hsize hc, List.rdropWhile_concat_neg _ _ _ (by simpa using hc)]
        exact ⟨by simpa [hindex] using haccesses, fun _ ↦ ⟨_, rfl, htext⟩⟩

/-- A line without such a character is left at its front. -/
theorem trimFrom_blank : ∀ (text : List UInt8) (line : Buffer UInt8) (accesses : List ℤ),
    line.IsText 0 text → line.size ≤ 2 ^ 63 → (∀ c ∈ text, c ∈ whitespace) →
      -1 ∈ (trimFrom (text.length + 1) line text accesses).state.accesses := by
  intro text
  induction text using List.reverseRecOn with
  | nil => exact fun line accesses _ _ _ ↦ trimFrom_nil line accesses
  | append_singleton text c ih =>
    intro line accesses htext hsize hblank
    have hcut : (line.write text.length 0).IsText 0 text := by
      have hcut := htext.cut
      rwa [zero_add] at hcut
    rw [trimFrom_whitespace htext hsize (hblank c (by simp)), List.length_append]
    exact ih _ _ hcut hsize fun d hd ↦ hblank d (List.mem_append_left _ hd)

end Loop

/-! ### Trimming a line -/

/-- The loop ends and leaves the line without the whitespace at its end, and it has accessed only
characters of the line. -/
structure TrimsRight (l : Line) : Prop where
  trimmed : ∃ fuel s, rightTrim fuel l.buffer = done s ∧
    s.line.IsText 0 (l.text.rdropWhile fun c ↦ decide (c ∈ whitespace))
  inside : ∀ fuel, ∀ j ∈ (rightTrim fuel l.buffer).state.accesses, 0 ≤ j ∧ j < l.text.length

theorem rightTrim_eq (l : Line) (fuel : ℕ) :
    rightTrim fuel l.buffer = trimFrom fuel l.buffer l.text [] := by
  rw [rightTrim, l.isText.text_eq, trimFrom]

/-- A line with a character that is not whitespace is trimmed in as many iterations as it has
characters. -/
theorem rightTrim_spec (l : Line) (hvisible : ∃ c ∈ l.text, c ∉ whitespace) {fuel : ℕ}
    (hfuel : l.text.length ≤ fuel) :
    ∃ s, rightTrim fuel l.buffer = done s ∧
      s.line.IsText 0 (l.text.rdropWhile fun c ↦ decide (c ∈ whitespace)) := by
  rw [rightTrim_eq]
  exact (trimFrom_spec l.text.length l.text l.buffer [] fuel l.isText l.size_le hvisible le_rfl
    (List.forall_mem_nil _)).2 hfuel

theorem not_trimsRight (l : Line) (hblank : ∀ c ∈ l.text, c ∈ whitespace) : ¬ TrimsRight l := by
  intro h
  have hfront := trimFrom_blank l.text l.buffer [] l.isText l.size_le hblank
  rw [← rightTrim_eq] at hfront
  exact absurd (h.inside _ _ hfront).1 (by decide)

/-- A line is trimmed as it should be exactly if not all of it is whitespace. -/
theorem trimsRight_iff (l : Line) : TrimsRight l ↔ ∃ c ∈ l.text, c ∉ whitespace := by
  constructor
  · intro h
    by_contra hnone
    push Not at hnone
    exact not_trimsRight l hnone h
  · intro hvisible
    refine ⟨⟨l.text.length, rightTrim_spec l hvisible le_rfl⟩, fun fuel ↦ ?_⟩
    rw [rightTrim_eq]
    exact (trimFrom_spec l.text.length l.text l.buffer [] fuel l.isText l.size_le hvisible le_rfl
      (List.forall_mem_nil _)).1

/-- The line `"\n"`, in a block of its own, with blanks around it. -/
def blankLine : Line where
  buffer := ⟨2, fun i ↦ if i = 0 then 10 else if i = 1 then 0 else 32, false⟩
  text := [10]
  isText := ⟨⟨by decide, rfl, by decide⟩, by decide, rfl⟩
  size_le := by decide

/-- Of a blank line the newline is overwritten, and then the byte in front of it. -/
theorem not_trimsRight_blankLine :
    (rightTrim 2 blankLine.buffer).state.line.cell (-1) = 0 ∧
      (rightTrim 2 blankLine.buffer).state.line.strayed = true ∧ ¬ TrimsRight blankLine :=
  ⟨by decide, by decide,
    not_trimsRight blankLine (List.forall_mem_singleton.mpr (by decide))⟩

end Nebula.HardwareInfo
