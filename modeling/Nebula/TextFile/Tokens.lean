import Nebula.Library.Heap
import Nebula.Library.Outcome
import Nebula.Library.Slice
import Nebula.Library.Text

/-!
`Tokens`: the addresses of the tokens of a string, in an array that grows by `hint_size_` slots at a
time and is kept from one string to the next. `splitString` takes the string apart in place, and the
tokens are read from there afterwards.

Requests for memory may fail. A request for the first slots that has failed leaves `max_tokens_`
behind, and the next token is stored through `NULL`, which ends the process.

`splitString_spec` is about requests that succeed: the tokens are the runs of the string that are
free of delimiters, whatever the object has been used for before.
-/

set_option autoImplicit false
set_option relaxedAutoImplicit false

namespace Nebula.TextFile

open Nebula.Library Outcome

/-! ### The object -/

structure Tokens where
  tokens : Option (Buffer ℤ)
  numOfTokens : BitVec 32
  maxTokens : BitVec 32
  hintSize : BitVec 32

/-- A list of tokens, the line that they point into, and the memory that is left. -/
structure Splitting where
  heap : Heap
  tokens : Tokens
  line : Buffer UInt8

namespace Tokens

abbrev defaultHintSize : BitVec 32 := 32

/-- The constructor. -/
def new (hintSize : BitVec 32) : Tokens where
  tokens := none
  numOfTokens := 0
  maxTokens := 0
  hintSize := if hintSize ≠ 0 then hintSize else defaultHintSize

def clear (t : Tokens) : Tokens := { t with numOfTokens := 0 }

/-- `token(idx)`; `none` is `NULL`. -/
def token (t : Tokens) (idx : BitVec 32) : Option ℤ :=
  if idx < t.numOfTokens then t.tokens.map fun all ↦ all.cell idx.toNat else none

/-- The strings that are read through `numOfTokens()` and `token(idx)`. -/
def strings (t : Tokens) (line : Buffer UInt8) : List (List UInt8) :=
  (List.range t.numOfTokens.toNat).filterMap fun idx ↦ (t.token (.ofNat 32 idx)).map line.text

end Tokens

namespace Splitting

/-- `*(tokens_ + num_of_tokens_++) = ptr`. -/
def store (x : Splitting) (ptr : ℤ) : Outcome (Bool × Splitting) :=
  match x.tokens.tokens with
  | none => .crashed (false, x)
  | some all =>
      .done (true, { x with tokens := { x.tokens with
        tokens := some (all.write x.tokens.numOfTokens.toNat ptr)
        numOfTokens := x.tokens.numOfTokens + 1 } })

def saveTokenAddr (x : Splitting) (ptr : ℤ) : Outcome (Bool × Splitting) :=
  let t := x.tokens
  if t.numOfTokens = t.maxTokens then
    let maxTokens := if t.maxTokens = 0 then t.hintSize else t.maxTokens + t.hintSize
    match t.tokens with
    | none =>
        match x.heap.malloc maxTokens.toNat with
        | (none, heap) => .done (false, { x with heap, tokens := { t with maxTokens } })
        | (some all, heap) =>
            store { x with heap, tokens := { t with maxTokens, tokens := some all } } ptr
    | some old =>
        match x.heap.realloc old maxTokens.toNat with
        | (none, heap) =>
            .done (false, { x with heap, tokens := { t with maxTokens := maxTokens - t.hintSize } })
        | (some all, heap) =>
            store { x with heap, tokens := { t with maxTokens, tokens := some all } } ptr
  else store x ptr

/-- The loop of `splitString`, from the string at an index on. -/
def splitLoop (delim : List UInt8) : ℕ → Splitting → ℤ → Outcome (Bool × Splitting)
  | 0, x, _ => .running (false, x)
  | fuel + 1, x, str =>
      match x.line.strtokR str delim with
      | (none, _, line) => .done (true, { x with line })
      | (some token, saved, line) =>
          (saveTokenAddr { x with line } token).andThen fun (ok, x) ↦
            if ok then splitLoop delim fuel x saved else .done (false, x)

/-- A string has fewer tokens than bytes, so the loop comes to an end. -/
def splitString (x : Splitting) (input : ℤ) (delim : List UInt8) : Outcome (Bool × Splitting) :=
  splitLoop delim ((x.line.text input).length + 1) { x with tokens := x.tokens.clear } input

end Splitting

/-! ### Storing a token -/

namespace Tokens

/-- The addresses of the tokens. -/
def addresses (t : Tokens) : List ℤ :=
  match t.tokens with
  | none => []
  | some all => all.slice 0 t.numOfTokens.toNat

/-- The slots that have been counted are there, and no store has missed them. -/
structure Sound (t : Tokens) : Prop where
  num_le : t.numOfTokens.toNat ≤ t.maxTokens.toNat
  hint_pos : 0 < t.hintSize.toNat
  unallocated : t.tokens = none → t.maxTokens = 0
  allocated : ∀ all, t.tokens = some all → all.size = t.maxTokens.toNat ∧ all.strayed = false

/-- New tokens have been stored behind the others. -/
structure Extends (t t' : Tokens) (new : List ℤ) : Prop where
  sound : t'.Sound
  hint_eq : t'.hintSize = t.hintSize
  count : t'.numOfTokens.toNat = t.numOfTokens.toNat + new.length
  addresses : t'.addresses = t.addresses ++ new

variable {t t' t'' : Tokens} {new new' : List ℤ}

theorem Sound.extends_refl (h : t.Sound) : t.Extends t [] :=
  ⟨h, rfl, rfl, (List.append_nil _).symm⟩

theorem Extends.trans (h : t.Extends t' new) (h' : t'.Extends t'' new') :
    t.Extends t'' (new ++ new') where
  sound := h'.sound
  hint_eq := h'.hint_eq.trans h.hint_eq
  count := by rw [h'.count, h.count, List.length_append, add_assoc]
  addresses := by rw [h'.addresses, h.addresses, List.append_assoc]

theorem sound_new (hintSize : BitVec 32) : (Tokens.new hintSize).Sound where
  num_le := le_rfl
  hint_pos := by
    unfold Tokens.new
    split_ifs with hzero
    · exact Nat.pos_of_ne_zero fun h ↦ hzero (BitVec.eq_of_toNat_eq h)
    · decide
  unallocated _ := rfl
  allocated _ hsome := absurd hsome (Option.some_ne_none _).symm

theorem addresses_clear (t : Tokens) : t.clear.addresses = [] := by
  unfold Tokens.addresses clear
  cases t.tokens with
  | none => rfl
  | some all => exact Buffer.slice_eq_nil le_rfl

theorem Sound.clear (h : t.Sound) : t.clear.Sound where
  num_le := Nat.zero_le _
  hint_pos := h.hint_pos
  unallocated := h.unallocated
  allocated := h.allocated

/-- If not all slots are taken, then there are some, and one of them is free. -/
theorem Sound.exists_room (h : t.Sound) (hne : t.numOfTokens ≠ t.maxTokens) :
    ∃ all, t.tokens = some all ∧ t.numOfTokens.toNat < t.maxTokens.toNat := by
  have hroom : t.numOfTokens.toNat < t.maxTokens.toNat :=
    lt_of_le_of_ne h.num_le fun heq ↦ hne (BitVec.eq_of_toNat_eq heq)
  obtain ⟨all, hall⟩ : ∃ all, t.tokens = some all := by
    refine Option.ne_none_iff_exists'.mp fun hnone ↦ ?_
    rw [h.unallocated hnone] at hroom
    exact absurd hroom (Nat.not_lt_zero _)
  exact ⟨all, hall, hroom⟩

/-- The number of slots that are asked for, unless it overflows. -/
theorem toNat_grown (t : Tokens) (hlt : t.maxTokens.toNat + t.hintSize.toNat < 2 ^ 32) :
    (if t.maxTokens = 0 then t.hintSize else t.maxTokens + t.hintSize).toNat =
      t.maxTokens.toNat + t.hintSize.toNat := by
  split_ifs with hzero
  · rw [hzero]
    exact (Nat.zero_add _).symm
  · rw [BitVec.toNat_add]
    exact Nat.mod_eq_of_lt hlt

/-- What is read through the object are the strings at the addresses. -/
theorem Sound.strings_eq (h : t.Sound) (line : Buffer UInt8) :
    t.strings line = t.addresses.map line.text := by
  have hlt := t.numOfTokens.isLt
  unfold strings Tokens.addresses Tokens.token
  cases hall : t.tokens with
  | none =>
    have hzero : t.numOfTokens.toNat = 0 := by
      have := h.num_le
      rw [h.unallocated hall] at this
      exact Nat.le_zero.mp this
    rw [hzero]
    rfl
  | some all =>
    have hcount : ((t.numOfTokens.toNat : ℤ) - 0).toNat = t.numOfTokens.toNat := by omega
    show _ = (all.slice 0 t.numOfTokens.toNat).map line.text
    rw [Buffer.slice, hcount, List.map_map, ← List.filterMap_eq_map]
    refine List.filterMap_congr fun idx hidx ↦ ?_
    have hidx' : (BitVec.ofNat 32 idx).toNat = idx :=
      Nat.mod_eq_of_lt ((List.mem_range.mp hidx).trans hlt)
    have hvalid : BitVec.ofNat 32 idx < t.numOfTokens := by
      rw [BitVec.lt_def, hidx']
      exact List.mem_range.mp hidx
    rw [if_pos hvalid, Option.map_some, Option.map_some, hidx', Function.comp_apply,
      Function.comp_apply, zero_add]

end Tokens

namespace Splitting

variable {x : Splitting}

/-- A store into a slot that is there. -/
theorem store_spec {all : Buffer ℤ} (hall : x.tokens.tokens = some all) (h : x.tokens.Sound)
    (hroom : x.tokens.numOfTokens.toNat < x.tokens.maxTokens.toNat) (ptr : ℤ) :
    ∃ t, store x ptr = .done (true, { x with tokens := t }) ∧ x.tokens.Extends t [ptr] := by
  obtain ⟨hsize, hstrayed⟩ := h.allocated all hall
  have hcount : (x.tokens.numOfTokens + 1).toNat = x.tokens.numOfTokens.toNat + 1 := by
    have := x.tokens.maxTokens.isLt
    rw [BitVec.toNat_add]
    show (x.tokens.numOfTokens.toNat + 1) % 2 ^ 32 = _
    exact Nat.mod_eq_of_lt (by omega)
  unfold store
  rw [hall]
  refine ⟨_, rfl, ⟨?_, h.hint_pos, ?_, ?_⟩, rfl, hcount, ?_⟩
  · show (x.tokens.numOfTokens + 1).toNat ≤ x.tokens.maxTokens.toNat
    rw [hcount]
    exact hroom
  · exact fun hnone ↦ absurd hnone (Option.some_ne_none _)
  · rintro all' ⟨⟩
    have hbounds : all.InBounds x.tokens.numOfTokens.toNat := ⟨by omega, by omega⟩
    exact ⟨hsize, (Buffer.strayed_write_of_inBounds hbounds ptr).trans hstrayed⟩
  · simp only [Tokens.addresses, hall, hcount]
    push_cast
    exact Buffer.slice_push (by omega) ptr

/-- A larger array takes the place of a full one. -/
theorem extends_grow {t : Tokens} (h : t.Sound) (maxTokens : BitVec 32) (all : Buffer ℤ)
    (hmax : t.maxTokens.toNat ≤ maxTokens.toNat) (hsize : all.size = maxTokens.toNat)
    (hstrayed : all.strayed = false)
    (hcells : t.addresses = all.slice 0 t.numOfTokens.toNat) :
    t.Extends { t with maxTokens, tokens := some all } [] where
  sound :=
    { num_le := h.num_le.trans hmax
      hint_pos := h.hint_pos
      unallocated := fun hnone ↦ absurd hnone (Option.some_ne_none _)
      allocated := by
        rintro all' ⟨⟩
        exact ⟨hsize, hstrayed⟩ }
  hint_eq := rfl
  count := rfl
  addresses := by rw [List.append_nil, hcells]; rfl

/-- A token is stored into the larger array. -/
theorem store_grown (heap : Heap) {t : Tokens} {all : Buffer ℤ} (hgrow : x.tokens.Extends t [])
    (hall : t.tokens = some all) (hroom : x.tokens.numOfTokens.toNat < t.maxTokens.toNat)
    (ptr : ℤ) :
    ∃ t', store ⟨heap, t, x.line⟩ ptr = .done (true, ⟨heap, t', x.line⟩) ∧
      x.tokens.Extends t' [ptr] := by
  have hcount : t.numOfTokens.toNat = x.tokens.numOfTokens.toNat := hgrow.count
  obtain ⟨t', hstore, hextends⟩ := store_spec (x := ⟨heap, t, x.line⟩) hall hgrow.sound
    (hcount.trans_lt hroom) ptr
  exact ⟨t', hstore, hgrow.trans hextends⟩

/-- A store keeps the number of slots. -/
theorem maxTokens_of_store {y : Splitting} {ptr : ℤ} {ok : Bool} (h : store x ptr = .done (ok, y)) :
    y.tokens.maxTokens = x.tokens.maxTokens := by
  unfold store at h
  cases hall : x.tokens.tokens with
  | none =>
    rw [hall] at h
    cases h
  | some all =>
    rw [hall] at h
    cases h
    rfl

/-- All slots are taken, and a request for more of them is granted or not. -/
def Asks (x : Splitting) (granted : Bool) : Prop :=
  x.tokens.numOfTokens = x.tokens.maxTokens ∧ x.heap.grants x.heap.requests = granted

/-- A token has been stored behind the others, in a slot that was free, or that is a new one. -/
structure Saved (x : Splitting) (ptr : ℤ) (heap : Heap) (t : Tokens) : Prop where
  extends_tokens : x.tokens.Extends t [ptr]
  slots : heap = x.heap ∧ t.maxTokens = x.tokens.maxTokens ∨
    x.Asks true ∧ heap = x.heap.asked ∧
      t.maxTokens.toNat = x.tokens.maxTokens.toNat + x.tokens.hintSize.toNat

/-- An array is granted that has more slots than the one that is full. -/
theorem saved_of_grown {maxTokens : BitVec 32} {all : Buffer ℤ} (hasks : x.Asks true)
    (h : x.tokens.Sound)
    (hgrown : maxTokens.toNat = x.tokens.maxTokens.toNat + x.tokens.hintSize.toNat)
    (hsize : all.size = maxTokens.toNat) (hstrayed : all.strayed = false)
    (hcells : x.tokens.addresses = all.slice 0 x.tokens.numOfTokens.toNat) (ptr : ℤ) :
    ∃ t, store ⟨x.heap.asked, { x.tokens with maxTokens, tokens := some all }, x.line⟩ ptr =
      .done (true, ⟨x.heap.asked, t, x.line⟩) ∧ x.Saved ptr x.heap.asked t := by
  have hnum := congrArg BitVec.toNat hasks.1
  have hhint := h.hint_pos
  obtain ⟨t, hstore, hextends⟩ := store_grown x.heap.asked
    (extends_grow h maxTokens all (by omega) hsize hstrayed hcells) rfl
    (show x.tokens.numOfTokens.toNat < maxTokens.toNat by omega) ptr
  exact ⟨t, hstore, hextends, Or.inr ⟨hasks, rfl, by
    rw [← hgrown]
    exact congrArg BitVec.toNat (maxTokens_of_store hstore)⟩⟩

/-- Either a request for more slots fails, and nothing changes, or a token is stored behind the
others. There has to be an array if the request fails, and the number of slots must not overflow if
it is granted. -/
theorem saveTokenAddr_cases (h : x.tokens.Sound) (hfirst : x.tokens.tokens = none → ¬ x.Asks false)
    (hoverflow : x.Asks true → x.tokens.maxTokens.toNat + x.tokens.hintSize.toNat < 2 ^ 32)
    (ptr : ℤ) :
    x.Asks false ∧ saveTokenAddr x ptr = .done (false, { x with heap := x.heap.asked }) ∨
      ¬ x.Asks false ∧
        ∃ heap t, saveTokenAddr x ptr = .done (true, ⟨heap, t, x.line⟩) ∧ x.Saved ptr heap t := by
  unfold saveTokenAddr
  by_cases hfull : x.tokens.numOfTokens = x.tokens.maxTokens
  · simp only [if_pos hfull, Heap.malloc, Heap.realloc, Heap.request]
    cases hgrants : x.heap.grants x.heap.requests with
    | false =>
      have hasks : x.Asks false := ⟨hfull, hgrants⟩
      refine Or.inl ⟨hasks, ?_⟩
      cases hall : x.tokens.tokens with
      | none => exact absurd hasks (hfirst hall)
      | some old =>
        have hback : (if x.tokens.maxTokens = 0 then x.tokens.hintSize
            else x.tokens.maxTokens + x.tokens.hintSize) - x.tokens.hintSize =
              x.tokens.maxTokens := by
          split_ifs with hzero
          · rw [hzero, BitVec.sub_self]
            rfl
          · exact BitVec.add_sub_cancel ..
        simp only [Bool.false_eq_true, if_false, hback, ← hall]
    | true =>
      have hasks : x.Asks true := ⟨hfull, hgrants⟩
      refine Or.inr ⟨fun hrefused ↦ ?_, ?_⟩
      · exact absurd (hgrants.symm.trans hrefused.2) Bool.true_eq_false_eq_False
      have hgrown := x.tokens.toNat_grown (hoverflow hasks)
      generalize (if x.tokens.maxTokens = 0 then x.tokens.hintSize
        else x.tokens.maxTokens + x.tokens.hintSize) = maxTokens at hgrown ⊢
      cases hall : x.tokens.tokens with
      | none =>
        have hzero : x.tokens.numOfTokens.toNat = 0 := by
          rw [hfull, h.unallocated hall]
          rfl
        have hcells : x.tokens.addresses =
            Buffer.slice ⟨maxTokens.toNat, x.heap.slots x.heap.requests, false⟩ 0
              x.tokens.numOfTokens.toNat := by
          rw [Tokens.addresses, hall, hzero]
          rfl
        obtain ⟨t, hstore, hsaved⟩ := saved_of_grown hasks h hgrown rfl rfl hcells ptr
        exact ⟨_, t, hstore, hsaved⟩
      | some old =>
        obtain ⟨hsize, hstrayed⟩ := h.allocated old hall
        have hmax := h.num_le
        let all := Heap.enlarged old maxTokens.toNat (x.heap.slots x.heap.requests)
        have hstrayed' : all.strayed = false := hstrayed
        have hcells : x.tokens.addresses = all.slice 0 x.tokens.numOfTokens.toNat := by
          rw [Tokens.addresses, hall]
          exact Buffer.slice_congr fun i hi hlt ↦ (if_pos ⟨hi, by omega⟩).symm
        obtain ⟨t, hstore, hsaved⟩ := saved_of_grown hasks h hgrown rfl hstrayed' hcells ptr
        exact ⟨_, t, hstore, hsaved⟩
  · rw [if_neg hfull]
    obtain ⟨all, hall, hroom⟩ := h.exists_room hfull
    obtain ⟨t, hstore, hextends⟩ := store_spec hall h hroom ptr
    exact Or.inr ⟨fun hasks ↦ hfull hasks.1, x.heap, t, hstore, hextends,
      Or.inl ⟨rfl, maxTokens_of_store hstore⟩⟩

/-- When requests succeed, a token is stored behind the others; the array grows if it is full. -/
theorem saveTokenAddr_spec (hample : x.heap.Ample) (h : x.tokens.Sound)
    (hnum : x.tokens.numOfTokens.toNat < 2 ^ 31) (hhint : x.tokens.hintSize.toNat < 2 ^ 31)
    (ptr : ℤ) :
    ∃ heap t, saveTokenAddr x ptr = .done (true, ⟨heap, t, x.line⟩) ∧ heap.Ample ∧
      x.tokens.Extends t [ptr] := by
  have hgranted : ¬ x.Asks false := by
    rintro ⟨-, hrefused⟩
    rw [hample] at hrefused
    exact absurd hrefused.symm Bool.false_ne_true
  rcases saveTokenAddr_cases h (fun _ ↦ hgranted) (fun hasks ↦ by
    have := congrArg BitVec.toNat hasks.1
    omega) ptr with ⟨hrefused, -⟩ | ⟨-, heap, t, hsave, hsaved⟩
  · exact absurd hrefused hgranted
  · refine ⟨heap, t, hsave, ?_, hsaved.extends_tokens⟩
    rcases hsaved.slots with ⟨rfl, -⟩ | ⟨-, rfl, -⟩
    · exact hample
    · exact hample

/-! ### Splitting a string -/

/-- Whatever requests for memory fail, a store leaves the line alone. -/
theorem line_saveTokenAddr (x : Splitting) (ptr : ℤ) :
    (saveTokenAddr x ptr).state.2.line = x.line := by
  have hstore : ∀ x : Splitting, (store x ptr).state.2.line = x.line := by
    intro x
    unfold store
    cases x.tokens.tokens <;> rfl
  unfold saveTokenAddr
  by_cases hfull : x.tokens.numOfTokens = x.tokens.maxTokens
  · simp only [if_pos hfull]
    split <;> split <;> rfl
  · rw [if_neg hfull]
    exact hstore x

variable {i : ℤ} {s : List UInt8}

/-- Whatever requests for memory fail, the string is taken apart inside its block. -/
theorem line_splitLoop (delim : List UInt8) (fuel : ℕ) (h : x.line.IsText i s) :
    (splitLoop delim fuel x i).state.2.line.size = x.line.size ∧
      (splitLoop delim fuel x i).state.2.line.strayed = x.line.strayed := by
  induction fuel generalizing x i s with
  | zero => exact ⟨rfl, rfl⟩
  | succ fuel ih =>
    rcases Buffer.strtokR_cases h delim with
      ⟨-, saved, heq⟩ | ⟨start, saved, line, token, rest, heq, hcut⟩
    · rw [splitLoop, heq]
      exact ⟨rfl, rfl⟩
    · rw [splitLoop, heq]
      have hline := line_saveTokenAddr { x with line } start
      refine state_andThen (P := fun y : Bool × Splitting ↦ y.2.line.size = x.line.size ∧
        y.2.line.strayed = x.line.strayed) ?_ fun y hy ↦ ?_
      · rw [hline]
        exact ⟨hcut.size_eq, hcut.strayed_eq⟩
      · obtain ⟨ok, y⟩ := y
        have hyline : y.line = line := by simpa [hy] using hline
        cases ok with
        | false => exact ⟨hyline ▸ hcut.size_eq, hyline ▸ hcut.strayed_eq⟩
        | true =>
          obtain ⟨hsize, hstrayed⟩ := ih (x := y) (hyline ▸ hcut.restText)
          exact ⟨hsize.trans (hyline ▸ hcut.size_eq), hstrayed.trans (hyline ▸ hcut.strayed_eq)⟩

/-- What the loop has done when requests succeed: the tokens are the runs of the string, and the
memory in front of it is as it was. -/
structure Split (delim : List UInt8) (x : Splitting) (i : ℤ) (s : List UInt8) (y : Splitting)
    (new : List ℤ) : Prop where
  ample : y.heap.Ample
  extends_tokens : x.tokens.Extends y.tokens new
  text : new.map y.line.text = runs (fun c ↦ delim.contains c) s
  size_eq : y.line.size = x.line.size
  strayed_eq : y.line.strayed = x.line.strayed
  frame : ∀ j ≤ i, y.line.cell j = x.line.cell j

theorem splitLoop_spec (delim : List UInt8) (fuel : ℕ) (h : x.line.IsText i s)
    (hfuel : s.length < fuel)
    (hample : x.heap.Ample) (hsound : x.tokens.Sound) (hhint : x.tokens.hintSize.toNat < 2 ^ 31)
    (hcount : x.tokens.numOfTokens.toNat + (runs (fun c ↦ delim.contains c) s).length < 2 ^ 31) :
    ∃ y new, splitLoop delim fuel x i = .done (true, y) ∧ Split delim x i s y new := by
  induction fuel generalizing x i s with
  | zero => omega
  | succ fuel ih =>
    rcases Buffer.strtokR_cases h delim with
      ⟨hruns, saved, heq⟩ | ⟨start, saved, line, token, rest, heq, hcut⟩
    · rw [splitLoop, heq]
      exact ⟨x, [], rfl, hample, hsound.extends_refl, hruns.symm, rfl, rfl, fun _ _ ↦ rfl⟩
    · rw [splitLoop, heq]
      have hruns := hcut.runs_eq
      have hmore := congrArg List.length hruns
      rw [List.length_cons] at hmore
      have hnum : x.tokens.numOfTokens.toNat < 2 ^ 31 := by omega
      obtain ⟨heap, t, hsave, hample', hextends⟩ :=
        saveTokenAddr_spec (x := { x with line }) hample hsound hnum hhint start
      have hnum' : t.numOfTokens.toNat = x.tokens.numOfTokens.toNat + 1 := hextends.count
      obtain ⟨y, new, hloop, hsplit⟩ := ih (x := ⟨heap, t, line⟩) hcut.restText
        (by have := hcut.shorter; omega) hample' hextends.sound
        (by rw [hextends.hint_eq]; exact hhint) (by rw [hnum']; omega)
      refine ⟨y, start :: new, ?_, hsplit.ample, hextends.trans hsplit.extends_tokens, ?_,
        hsplit.size_eq.trans hcut.size_eq, hsplit.strayed_eq.trans hcut.strayed_eq, fun j hj ↦ ?_⟩
      · simp only [hsave, andThen_done, if_true]
        exact hloop
      · have htoken : y.line.IsText start token := hcut.tokenText.congr hsplit.size_eq
          fun j _ hj ↦ hsplit.frame j (hj.trans hcut.le_saved)
        rw [List.map_cons, htoken.text_eq, hsplit.text, hruns]
      · have hle : i ≤ saved := by
          have := hcut.le_start
          have := hcut.le_saved
          omega
        exact (hsplit.frame j (hj.trans hle)).trans (hcut.frame j hj)

/-- When requests succeed, the tokens of a string are its runs, whatever has been there before. -/
theorem splitString_spec (delim : List UInt8) (h : x.line.IsText i s) (hample : x.heap.Ample)
    (hsound : x.tokens.Sound) (hhint : x.tokens.hintSize.toNat < 2 ^ 31)
    (hcount : (runs (fun c ↦ delim.contains c) s).length < 2 ^ 31) :
    ∃ y, splitString x i delim = .done (true, y) ∧ y.heap.Ample ∧ y.tokens.Sound ∧
      y.tokens.hintSize = x.tokens.hintSize ∧
      y.tokens.strings y.line = runs (fun c ↦ delim.contains c) s ∧
      y.tokens.numOfTokens.toNat = (runs (fun c ↦ delim.contains c) s).length := by
  obtain ⟨y, new, hloop, hsplit⟩ := splitLoop_spec delim ((x.line.text i).length + 1)
    (x := { x with tokens := x.tokens.clear }) h (by rw [h.text_eq]; omega)
    hample hsound.clear hhint
    (by simpa [Tokens.clear] using hcount)
  have hextends := hsplit.extends_tokens
  have haddresses : y.tokens.addresses = new := by
    rw [hextends.addresses, x.tokens.addresses_clear, List.nil_append]
  have hstrings : y.tokens.strings y.line = runs (fun c ↦ delim.contains c) s := by
    rw [hextends.sound.strings_eq, haddresses, hsplit.text]
  refine ⟨y, hloop, hsplit.ample, hextends.sound, hextends.hint_eq, hstrings, ?_⟩
  rw [hextends.count, ← hsplit.text, List.length_map]
  exact Nat.zero_add _

end Splitting

end Nebula.TextFile
