import Nebula.TextFile.Tokens

/-!
A `Tokens` object is used for one string after the other. `tokenize` takes a string apart without
keeping anything between two strings; `splitString_eq_tokenize` says that the tokens that an object
counts are those, and what is left in the slots from earlier strings is not seen.

`splitString_reused` is the result: the tokens are the runs of the string, in order, and neither
`hint_size` nor what the object has been used for matters.
-/

set_option autoImplicit false
set_option relaxedAutoImplicit false

namespace Nebula.TextFile

open Nebula.Library Outcome

/-- The addresses of the tokens of a string, and the line afterwards. -/
def tokenize (delim : List UInt8) : ℕ → Buffer UInt8 → ℤ → List ℤ × Buffer UInt8
  | 0, line, _ => ([], line)
  | fuel + 1, line, str =>
      match line.strtokR str delim with
      | (none, _, line) => ([], line)
      | (some token, saved, line) =>
          ((token :: (tokenize delim fuel line saved).1), (tokenize delim fuel line saved).2)

namespace Tokens

/-- The objects that come about when requests succeed, whatever strings they have been used for. -/
inductive Reached : Tokens → Prop where
  | new (hintSize : BitVec 32) (hhint : hintSize.toNat < 2 ^ 31) : Reached (new hintSize)
  | clear {t : Tokens} (h : Reached t) : Reached t.clear
  | split {x y : Splitting} {i : ℤ} {s : List UInt8} {ok : Bool} (delim : List UInt8)
      (h : Reached x.tokens) (hample : x.heap.Ample) (htext : x.line.IsText i s)
      (hcount : (runs (fun c ↦ delim.contains c) s).length < 2 ^ 31)
      (hdone : x.splitString i delim = .done (ok, y)) : Reached y.tokens

variable {t : Tokens}

theorem hintSize_new_lt {hintSize : BitVec 32} (h : hintSize.toNat < 2 ^ 31) :
    (new hintSize).hintSize.toNat < 2 ^ 31 := by
  unfold new
  simp only
  split_ifs
  · exact h
  · decide

theorem Reached.sound (h : t.Reached) : t.Sound ∧ t.hintSize.toNat < 2 ^ 31 := by
  induction h with
  | new hintSize hhint => exact ⟨sound_new hintSize, hintSize_new_lt hhint⟩
  | clear h ih => exact ⟨ih.1.clear, ih.2⟩
  | split delim h hample htext hcount hdone ih =>
    obtain ⟨y, hsplit, -, hsound, hhint, -, -⟩ :=
      Splitting.splitString_spec delim htext hample ih.1 ih.2 hcount
    obtain ⟨-, rfl⟩ := Prod.mk.inj (Outcome.done.inj (hdone.symm.trans hsplit))
    exact ⟨hsound, hhint ▸ ih.2⟩

/-- What `token` returns is the address with that index. -/
theorem token_eq_getElem? (t : Tokens) (idx : BitVec 32) :
    t.token idx = t.addresses[idx.toNat]? := by
  unfold Tokens.token addresses
  cases hall : t.tokens with
  | none =>
    rw [Option.map_none, ite_self]
    rfl
  | some all =>
    have hcount : ((t.numOfTokens.toNat : ℤ) - 0).toNat = t.numOfTokens.toNat := by omega
    show _ = (all.slice 0 t.numOfTokens.toNat)[idx.toNat]?
    rw [Buffer.slice, hcount, List.getElem?_map]
    by_cases hidx : idx < t.numOfTokens
    · rw [if_pos hidx, List.getElem?_range (BitVec.lt_def.mp hidx), Option.map_some,
        Option.map_some, zero_add]
    · have hge : (List.range t.numOfTokens.toNat).length ≤ idx.toNat := by
        rw [List.length_range]
        exact not_lt.mp fun hlt ↦ hidx (BitVec.lt_def.mpr hlt)
      rw [if_neg hidx, List.getElem?_eq_none hge]
      rfl

end Tokens

namespace Splitting

variable {x : Splitting} {i : ℤ} {s : List UInt8}

/-- When requests succeed, the addresses of the tokens are stored behind the others. -/
theorem splitLoop_eq_tokenize (delim : List UInt8) (fuel : ℕ) (h : x.line.IsText i s)
    (hample : x.heap.Ample) (hsound : x.tokens.Sound) (hhint : x.tokens.hintSize.toNat < 2 ^ 31)
    (hcount : x.tokens.numOfTokens.toNat + (runs (fun c ↦ delim.contains c) s).length < 2 ^ 31)
    {y : Splitting} (hdone : splitLoop delim fuel x i = .done (true, y)) :
    y.line = (tokenize delim fuel x.line i).2 ∧
      x.tokens.Extends y.tokens (tokenize delim fuel x.line i).1 := by
  induction fuel generalizing x i s with
  | zero => cases hdone
  | succ fuel ih =>
    rcases Buffer.strtokR_cases h delim with
      ⟨-, saved, heq⟩ | ⟨start, saved, line, token, rest, heq, hcut⟩
    · rw [splitLoop, heq] at hdone
      rw [tokenize, heq]
      cases hdone
      exact ⟨rfl, hsound.extends_refl⟩
    · have hruns := congrArg List.length hcut.runs_eq
      rw [List.length_cons] at hruns
      have hnum : x.tokens.numOfTokens.toNat < 2 ^ 31 := by omega
      obtain ⟨heap, t, hsave, hample', hextends⟩ :=
        saveTokenAddr_spec (x := { x with line }) hample hsound hnum hhint start
      have hnum' : t.numOfTokens.toNat = x.tokens.numOfTokens.toNat + 1 := hextends.count
      rw [splitLoop, heq] at hdone
      simp only [hsave, andThen_done, if_true] at hdone
      rw [tokenize, heq]
      obtain ⟨hline, hextends'⟩ := ih (x := ⟨heap, t, line⟩) hcut.restText hample' hextends.sound
        (by rw [hextends.hint_eq]; exact hhint) (by rw [hnum']; omega) hdone
      exact ⟨hline, hextends.trans hextends'⟩

/-- The tokens of a string, whatever the object has been used for before. -/
theorem splitString_eq_tokenize (delim : List UInt8) (h : x.line.IsText i s) (hample : x.heap.Ample)
    (ht : x.tokens.Reached) (hcount : (runs (fun c ↦ delim.contains c) s).length < 2 ^ 31) :
    ∃ y, splitString x i delim = .done (true, y) ∧ y.tokens.Sound ∧
      y.tokens.addresses = (tokenize delim (s.length + 1) x.line i).1 ∧
      y.line = (tokenize delim (s.length + 1) x.line i).2 ∧
      y.tokens.strings y.line = runs (fun c ↦ delim.contains c) s ∧
      y.tokens.numOfTokens.toNat = (runs (fun c ↦ delim.contains c) s).length := by
  obtain ⟨hsound, hhint⟩ := ht.sound
  obtain ⟨y, hsplit, -, hysound, -, hstrings, hnum⟩ :=
    splitString_spec delim h hample hsound hhint hcount
  have hloop := hsplit
  rw [splitString, h.text_eq] at hloop
  obtain ⟨hline, hextends⟩ := splitLoop_eq_tokenize delim (s.length + 1)
    (x := { x with tokens := x.tokens.clear }) h hample hsound.clear hhint
    (by simpa [Tokens.clear] using hcount) hloop
  refine ⟨y, hsplit, hysound, ?_, hline, hstrings, hnum⟩
  rw [hextends.addresses, x.tokens.addresses_clear, List.nil_append]

/-- What is read through an object: the number of the tokens, and each by its index. -/
structure Holds (y : Splitting) (tokens : List (List UInt8)) : Prop where
  num_eq : y.tokens.numOfTokens.toNat = tokens.length
  token_eq : ∀ idx, (y.tokens.token idx).map y.line.text = tokens[idx.toNat]?
  allocated : ∀ all, y.tokens.tokens = some all →
    all.size = y.tokens.maxTokens.toNat ∧ all.strayed = false

/-- When requests succeed, `splitString` returns true, and the tokens are the runs of the string
that are free of delimiters. The same tokens at the same addresses are found with any other object.
-/
theorem splitString_reused (delim : List UInt8) (h : x.line.IsText i s) (hample : x.heap.Ample)
    (ht : x.tokens.Reached) (hcount : (runs (fun c ↦ delim.contains c) s).length < 2 ^ 31) :
    ∃ y, splitString x i delim = .done (true, y) ∧ y.Holds (runs (fun c ↦ delim.contains c) s) ∧
      ∀ x' : Splitting, x'.line = x.line → x'.heap.Ample → x'.tokens.Reached →
        ∃ y', splitString x' i delim = .done (true, y') ∧ y'.line = y.line ∧
          y'.tokens.numOfTokens = y.tokens.numOfTokens ∧ y'.tokens.token = y.tokens.token := by
  obtain ⟨y, hsplit, hsound, haddresses, hline, hstrings, hnum⟩ :=
    splitString_eq_tokenize delim h hample ht hcount
  rw [hsound.strings_eq] at hstrings
  refine ⟨y, hsplit, ⟨hnum, fun idx ↦ ?_, hsound.allocated⟩, fun x' hx' hample' ht' ↦ ?_⟩
  · rw [Tokens.token_eq_getElem?, ← List.getElem?_map, hstrings]
  · obtain ⟨y', hsplit', -, haddresses', hline', -, hnum'⟩ :=
      splitString_eq_tokenize (x := x') delim (hx' ▸ h) hample' ht' hcount
    rw [hx'] at haddresses' hline'
    refine ⟨y', hsplit', hline'.trans hline.symm, BitVec.eq_of_toNat_eq (hnum'.trans hnum.symm), ?_⟩
    ext idx
    rw [Tokens.token_eq_getElem?, Tokens.token_eq_getElem?, haddresses', haddresses]

/-! ### An object that is used again -/

/-- `a b c`. -/
def threeWords : Buffer UInt8 := (⟨8, fun _ ↦ 0, false⟩ : Buffer UInt8).store 0 [97, 32, 98, 32, 99]

theorem isText_threeWords : threeWords.IsText 0 [97, 32, 98, 32, 99] :=
  (Buffer.isText_store _ le_rfl (by decide) (by decide)).1

/-- An object with one slot at a time has been used for the same string before. -/
theorem splitString_reused_threeWords :
    ∃ x : Splitting, x.line = threeWords ∧ x.tokens.token 0 ≠ none ∧
    ∃ y, splitString x 0 [32] = .done (true, y) ∧ y.Holds [[97], [98], [99]] ∧
      ∀ x' : Splitting, x'.line = x.line → x'.heap.Ample → x'.tokens.Reached →
        ∃ y', splitString x' 0 [32] = .done (true, y') ∧ y'.line = y.line ∧
          y'.tokens.numOfTokens = y.tokens.numOfTokens ∧ y'.tokens.token = y.tokens.token := by
  have hnew : (Tokens.new 1).Reached := .new 1 (by decide)
  have hcount :
      (runs (fun c ↦ ([32] : List UInt8).contains c) [97, 32, 98, 32, 99]).length < 2 ^ 31 := by
    decide
  obtain ⟨y, hsplit, hholds, -⟩ := splitString_reused (x := ⟨ampleHeap, .new 1, threeWords⟩) [32]
    isText_threeWords ample_ampleHeap hnew hcount
  have hy : y.tokens.Reached := .split [32] hnew ample_ampleHeap isText_threeWords hcount hsplit
  refine ⟨⟨ampleHeap, y.tokens, threeWords⟩, rfl, fun hnone ↦ ?_, ?_⟩
  · have hfirst := hholds.token_eq 0
    rw [show y.tokens.token 0 = none from hnone, Option.map_none] at hfirst
    exact absurd hfirst (by decide)
  · exact splitString_reused (x := ⟨ampleHeap, y.tokens, threeWords⟩) [32] isText_threeWords
      ample_ampleHeap hy hcount

end Splitting

end Nebula.TextFile
