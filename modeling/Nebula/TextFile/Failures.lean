import Nebula.TextFile.Lines

/-!
Requests for memory that fail while a string is split. A request for more slots that fails takes
back what has been counted, and `splitString` returns false. A request for the first slots that
fails does not: `max_tokens_` counts slots that are not there, and the next token is stored through
`NULL`. Nor does `parseLineByLine` look at the result of `splitString`.

`usable_of_run` says that nothing else goes wrong: in a run in which the first slots are granted and
the number of slots does not overflow, every call leaves a usable object, and a callback sees whole
lines as long as all slots that they need are granted.
-/

set_option autoImplicit false
set_option relaxedAutoImplicit false

namespace Nebula.TextFile

open Nebula.Library Outcome

namespace Tokens

/-- The slots that have been counted are there, and none have been counted exactly if there is no
array. -/
structure Usable (t : Tokens) : Prop extends t.Sound where
  none_of_zero : t.maxTokens = 0 → t.tokens = none

variable {t t' : Tokens}

theorem usable_new (hintSize : BitVec 32) : (Tokens.new hintSize).Usable where
  toSound := sound_new hintSize
  none_of_zero _ := rfl

theorem Usable.clear (h : t.Usable) : t.clear.Usable where
  toSound := h.toSound.clear
  none_of_zero := h.none_of_zero

/-- An object with a token is usable. -/
theorem Sound.usable (h : t.Sound) (hpos : 0 < t.numOfTokens.toNat) : t.Usable where
  toSound := h
  none_of_zero := by
    intro hzero
    have := h.num_le
    rw [hzero] at this
    exact absurd (hpos.trans_le this) (lt_irrefl 0)

/-- How many slots there are when they have been enlarged a number of times. -/
def slotsAfter (t : Tokens) (n : ℕ) : ℕ := t.maxTokens.toNat + n * t.hintSize.toNat

/-- What a string with a number of tokens needs: its first slots are granted if there are none, and
the number of slots does not overflow when they are enlarged. -/
structure Copes (t : Tokens) (heap : Heap) (count : ℕ) : Prop where
  first : t.tokens = none → t.numOfTokens.toNat < count → heap.grants heap.requests = true
  no_overflow : ∀ n, t.slotsAfter n < count → (∀ k ≤ n, heap.grants (heap.requests + k) = true) →
    t.slotsAfter (n + 1) < 2 ^ 32

/-- All slots that a string with a number of tokens needs are granted. -/
structure Fits (t : Tokens) (heap : Heap) (count : ℕ) : Prop extends t.Copes heap count where
  granted : ∀ n, t.slotsAfter n < count → heap.grants (heap.requests + n) = true

end Tokens

namespace Splitting

variable {x y : Splitting} {ptr i : ℤ} {s : List UInt8} {heap : Heap} {t : Tokens} {count : ℕ}
  {delim : List UInt8}

/-! ### One token -/

theorem slotsAfter_zero (hfull : x.tokens.numOfTokens = x.tokens.maxTokens) :
    x.tokens.slotsAfter 0 = x.tokens.numOfTokens.toNat := by
  rw [Tokens.slotsAfter, zero_mul, add_zero, hfull]

theorem requests_asked_add (heap : Heap) (n : ℕ) :
    heap.asked.requests + n = heap.requests + (n + 1) := by
  rw [Nat.add_comm n 1, ← Nat.add_assoc]
  rfl

/-- Larger slots are the ones that are there after one more enlargement. -/
theorem Saved.slotsAfter (h : x.Saved ptr heap t) :
    heap = x.heap ∧ t.slotsAfter = x.tokens.slotsAfter ∨
    x.Asks true ∧ heap = x.heap.asked ∧ ∀ n, t.slotsAfter n = x.tokens.slotsAfter (n + 1) := by
  refine h.slots.imp (fun hsame ↦ ⟨hsame.1, ?_⟩) fun hmore ↦ ⟨hmore.1, hmore.2.1, fun n ↦ ?_⟩
  · ext n
    rw [Tokens.slotsAfter, Tokens.slotsAfter, hsame.2, h.extends_tokens.hint_eq]
  · rw [Tokens.slotsAfter, Tokens.slotsAfter, hmore.2.2, h.extends_tokens.hint_eq, Nat.succ_mul]
    omega

/-- What the tokens that are left need. -/
theorem Saved.copes (h : x.Saved ptr heap t) (hcopes : x.tokens.Copes x.heap count) :
    t.Copes heap count := by
  have hpos : 0 < t.numOfTokens.toNat := by
    rw [h.extends_tokens.count]
    exact Nat.succ_pos _
  have hsome : t.tokens ≠ none := by
    intro hnone
    have hle := h.extends_tokens.sound.num_le
    rw [h.extends_tokens.sound.unallocated hnone] at hle
    exact absurd (hpos.trans_le hle) (lt_irrefl 0)
  refine ⟨fun hnone ↦ absurd hnone hsome, fun n hn hgrants ↦ ?_⟩
  rcases h.slotsAfter with ⟨rfl, hslots⟩ | ⟨hasks, rfl, hslots⟩
  · rw [hslots] at hn ⊢
    exact hcopes.no_overflow n hn hgrants
  · rw [hslots] at hn ⊢
    refine hcopes.no_overflow (n + 1) hn fun k hk ↦ ?_
    rcases k with _ | k
    · exact hasks.2
    · rw [← requests_asked_add]
      exact hgrants k (by omega)

theorem Saved.fits (h : x.Saved ptr heap t) (hfits : x.tokens.Fits x.heap count) :
    t.Fits heap count := by
  refine ⟨h.copes hfits.toCopes, fun n hn ↦ ?_⟩
  rcases h.slotsAfter with ⟨rfl, hslots⟩ | ⟨-, rfl, hslots⟩
  · rw [hslots] at hn
    exact hfits.granted n hn
  · rw [hslots] at hn
    rw [requests_asked_add]
    exact hfits.granted (n + 1) hn

/-- A token is stored, or nothing changes. -/
theorem saveTokenAddr_of_copes (h : x.tokens.Sound) (hcopes : x.tokens.Copes x.heap count)
    (hcount : x.tokens.numOfTokens.toNat < count) (ptr : ℤ) :
    x.Asks false ∧ saveTokenAddr x ptr = .done (false, { x with heap := x.heap.asked }) ∨
      ¬ x.Asks false ∧
        ∃ heap t, saveTokenAddr x ptr = .done (true, ⟨heap, t, x.line⟩) ∧ x.Saved ptr heap t := by
  refine saveTokenAddr_cases h (fun hnone hasks ↦ ?_) (fun hasks ↦ ?_) ptr
  · exact absurd (hasks.2.symm.trans (hcopes.first hnone hcount)) Bool.false_ne_true
  · have hslots := hcopes.no_overflow 0 (by rwa [slotsAfter_zero hasks.1]) fun k hk ↦ by
      rw [Nat.le_zero.mp hk]
      exact hasks.2
    rwa [Tokens.slotsAfter, zero_add, one_mul] at hslots

theorem not_asks_of_fits (hfits : x.tokens.Fits x.heap count)
    (hcount : x.tokens.numOfTokens.toNat < count) : ¬ x.Asks false := by
  intro hasks
  have hgrant := hfits.granted 0 (by rwa [slotsAfter_zero hasks.1])
  exact absurd (hasks.2.symm.trans hgrant) Bool.false_ne_true

/-! ### One string -/

/-- The tokens for which the loop of `splitString` calls `saveTokenAddr`, each with the state in
which it does. -/
def saves (delim : List UInt8) : ℕ → Splitting → ℤ → List (Splitting × ℤ)
  | 0, _, _ => []
  | fuel + 1, x, str =>
      match x.line.strtokR str delim with
      | (none, _, _) => []
      | (some token, saved, line) =>
          ({ x with line }, token) ::
            match saveTokenAddr { x with line } token with
            | .done (true, x) => saves delim fuel x saved
            | _ => []

/-- What the loop has done: a number of tokens from the front of the string have been stored, and it
has returned whether these are all. -/
structure Stored (delim : List UInt8) (x : Splitting) (i : ℤ) (s : List UInt8) (ok : Bool)
    (y : Splitting) (new : List ℤ) : Prop where
  extends_tokens : x.tokens.Extends y.tokens new
  text : new.map y.line.text = (runs (fun c ↦ delim.contains c) s).take new.length
  complete : ok = true ↔ new.length = (runs (fun c ↦ delim.contains c) s).length
  unused : new = [] → y.tokens = x.tokens
  size_eq : y.line.size = x.line.size
  frame : ∀ j ≤ i, y.line.cell j = x.line.cell j

/-- Each request for more slots that failed has changed nothing and ended the loop. -/
structure Refused (saves : List (Splitting × ℤ)) (ok : Bool) : Prop where
  unchanged : ∀ save ∈ saves, save.1.Asks false →
    save.1.saveTokenAddr save.2 = .done (false, { save.1 with heap := save.1.heap.asked })
  reported : ok = false ↔ ∃ save ∈ saves, save.1.Asks false

/-- A token has been stored, and then those behind it. -/
theorem Stored.cons {line : Buffer UInt8} {start saved : ℤ} {token rest : List UInt8} {ok : Bool}
    {new : List ℤ}
    (hcut : Buffer.Cut (fun c ↦ delim.contains c) x.line i s line start saved token rest)
    (hsaved : Saved { x with line } start heap t)
    (hrest : Stored delim ⟨heap, t, line⟩ saved rest ok y new) :
    Stored delim x i s ok y (start :: new) where
  extends_tokens := hsaved.extends_tokens.trans hrest.extends_tokens
  text := by
    have htoken : y.line.IsText start token := hcut.tokenText.congr hrest.size_eq
      fun j _ hj ↦ hrest.frame j (hj.trans hcut.le_saved)
    rw [List.map_cons, htoken.text_eq, hrest.text, hcut.runs_eq, List.length_cons,
      List.take_succ_cons]
  complete := by
    rw [hcut.runs_eq, List.length_cons, List.length_cons, Nat.succ_inj]
    exact hrest.complete
  unused hnil := absurd hnil (List.cons_ne_nil _ _)
  size_eq := hrest.size_eq.trans hcut.size_eq
  frame j hj := by
    have := hcut.le_start
    have := hcut.le_saved
    exact (hrest.frame j (by show j ≤ saved; omega)).trans (hcut.frame j hj)

theorem Refused.cons {save : Splitting × ℤ} {saves : List (Splitting × ℤ)} {ok : Bool}
    (hgranted : ¬ save.1.Asks false) (h : Refused saves ok) : Refused (save :: saves) ok where
  unchanged := List.forall_mem_cons.mpr ⟨fun hasks ↦ absurd hasks hgranted, h.unchanged⟩
  reported := by
    rw [h.reported, List.exists_mem_cons_iff]
    exact (or_iff_right hgranted).symm

theorem splitLoop_stored (delim : List UInt8) (fuel : ℕ) (h : x.line.IsText i s)
    (hfuel : s.length < fuel)
    (hsound : x.tokens.Sound) (hcopes : x.tokens.Copes x.heap
      (x.tokens.numOfTokens.toNat + (runs (fun c ↦ delim.contains c) s).length)) :
    ∃ ok y new, splitLoop delim fuel x i = .done (ok, y) ∧ Stored delim x i s ok y new ∧
      Refused (saves delim fuel x i) ok ∧ (x.tokens.Fits x.heap
        (x.tokens.numOfTokens.toNat + (runs (fun c ↦ delim.contains c) s).length) → ok = true) := by
  induction fuel generalizing x i s with
  | zero => omega
  | succ fuel ih =>
    rcases Buffer.strtokR_cases h delim with
      ⟨hruns, saved, heq⟩ | ⟨start, saved, line, token, rest, heq, hcut⟩
    · rw [splitLoop, saves, heq]
      refine ⟨true, x, [], rfl, ⟨hsound.extends_refl, rfl, ?_, fun _ ↦ rfl, rfl, fun _ _ ↦ rfl⟩,
        ⟨?_, ?_⟩, fun _ ↦ rfl⟩
      · exact iff_of_true rfl (congrArg List.length hruns).symm
      · exact fun _ hsave ↦ absurd hsave List.not_mem_nil
      · simp
    · rw [splitLoop, saves, heq]
      have hruns := hcut.runs_eq
      have hmore := congrArg List.length hruns
      rw [List.length_cons] at hmore
      have hroom : x.tokens.numOfTokens.toNat <
          x.tokens.numOfTokens.toNat + (runs (fun c ↦ delim.contains c) s).length := by omega
      rcases saveTokenAddr_of_copes (x := { x with line }) hsound hcopes hroom start with
        ⟨hasks, hsave⟩ | ⟨hgranted, heap, t, hsave, hsaved⟩
      · simp only [hsave, andThen_done]
        refine ⟨false, _, [], rfl, ⟨hsound.extends_refl, rfl, ?_, fun _ ↦ rfl, hcut.size_eq,
          hcut.frame⟩, ⟨?_, ?_⟩, fun hfits ↦ ?_⟩
        · refine iff_of_false Bool.false_ne_true fun hlength ↦ ?_
          rw [List.length_nil] at hlength
          omega
        · rintro save hmem -
          rw [List.mem_singleton.mp hmem]
          exact hsave
        · exact iff_of_true rfl ⟨_, List.mem_singleton_self _, hasks⟩
        · exact absurd hasks (not_asks_of_fits hfits hroom)
      · have hnum : t.numOfTokens.toNat = x.tokens.numOfTokens.toNat + 1 :=
          hsaved.extends_tokens.count
        have hcount : t.numOfTokens.toNat + (runs (fun c ↦ delim.contains c) rest).length =
            x.tokens.numOfTokens.toNat + (runs (fun c ↦ delim.contains c) s).length := by omega
        have hcopes' : t.Copes heap
            (t.numOfTokens.toNat + (runs (fun c ↦ delim.contains c) rest).length) := by
          rw [hcount]
          exact hsaved.copes hcopes
        obtain ⟨ok, y, new, hloop, hstored, hrefused, hok⟩ := ih (x := ⟨heap, t, line⟩)
          hcut.restText (by have := hcut.shorter; omega) hsaved.extends_tokens.sound hcopes'
        rw [hcount] at hok
        simp only [hsave, andThen_done, if_true]
        exact ⟨ok, y, start :: new, hloop, hstored.cons hcut hsaved, hrefused.cons hgranted,
          fun hfits ↦ hok (hsaved.fits hfits)⟩

/-- What a call of `splitString` has done: the object is usable, it holds a number of tokens from
the front of the string, and the result says whether these are all. -/
structure Handled (delim : List UInt8) (x : Splitting) (i : ℤ) (s : List UInt8) (ok : Bool)
    (y : Splitting) : Prop where
  usable : y.tokens.Usable
  strings : y.tokens.strings y.line =
    (runs (fun c ↦ delim.contains c) s).take y.tokens.numOfTokens.toNat
  complete : ok = true ↔
    y.tokens.numOfTokens.toNat = (runs (fun c ↦ delim.contains c) s).length
  refused : Refused (saves delim (s.length + 1) { x with tokens := x.tokens.clear } i) ok

/-- Whatever requests fail, a string whose tokens the object copes with is handled. -/
theorem splitString_handled (delim : List UInt8) (h : x.line.IsText i s) (husable : x.tokens.Usable)
    (hcopes : x.tokens.clear.Copes x.heap (runs (fun c ↦ delim.contains c) s).length) :
    ∃ ok y, splitString x i delim = .done (ok, y) ∧ Handled delim x i s ok y ∧
      (x.tokens.clear.Fits x.heap (runs (fun c ↦ delim.contains c) s).length → ok = true) := by
  have hcount : x.tokens.clear.numOfTokens.toNat + (runs (fun c ↦ delim.contains c) s).length =
      (runs (fun c ↦ delim.contains c) s).length := Nat.zero_add _
  obtain ⟨ok, y, new, hloop, hstored, hrefused, hok⟩ := splitLoop_stored delim (s.length + 1)
    (x := { x with tokens := x.tokens.clear }) h (Nat.lt_succ_self _) husable.toSound.clear
    (by rw [hcount]; exact hcopes)
  rw [hcount] at hok
  have hnum : y.tokens.numOfTokens.toNat = new.length := by
    rw [hstored.extends_tokens.count]
    exact Nat.zero_add _
  have hsound := hstored.extends_tokens.sound
  refine ⟨ok, y, by rw [splitString, h.text_eq]; exact hloop, ⟨?_, ?_, ?_, hrefused⟩, hok⟩
  · rcases new with _ | ⟨a, new⟩
    · rw [hstored.unused rfl]
      exact husable.clear
    · exact hsound.usable (by rw [hnum]; exact Nat.succ_pos _)
  · rw [hsound.strings_eq, hstored.extends_tokens.addresses, x.tokens.addresses_clear,
      List.nil_append, hstored.text, hnum]
  · rw [hnum]
    exact hstored.complete

end Splitting

/-! ### One file -/

/-- All slots that the tokens of a line need are granted. -/
def LineRead.Fits (delim : List UInt8) (read : LineRead) : Prop :=
  read.splitting.tokens.clear.Fits read.splitting.heap
    (runs (fun c ↦ delim.contains c) (stripped read.physical)).length

/-- A line is split into all its tokens. -/
def LineRead.Whole (delim : List UInt8) (read : LineRead) : Prop :=
  ∃ y, read.splitting.splitString 0 delim = .done (true, y) ∧ y.tokens.Usable ∧
    y.tokens.strings y.line = runs (fun c ↦ delim.contains c) (stripped read.physical)

section Lines

variable {σ : Type*}

/-- A usable object and a line that fits. -/
theorem whole_of_fits {delim : List UInt8} {read : LineRead}
    (htext : read.splitting.line.IsText 0 (stripped read.physical))
    (husable : read.splitting.tokens.Usable) (hfits : read.Fits delim) : read.Whole delim := by
  obtain ⟨ok, y, hsplit, hhandled, hok⟩ := Splitting.splitString_handled delim htext husable
    hfits.toCopes
  cases hok hfits
  refine ⟨y, hsplit, hhandled.usable, ?_⟩
  rw [hhandled.strings, hhandled.complete.mp rfl, List.take_length]

/-- While all slots are granted that the lines need, all lines are split into all their tokens. -/
theorem linesRead_whole (call : ParseCall σ) {lines : List (List UInt8)}
    (hlines : ∀ line ∈ lines, 0 ∉ line ∧ line ≠ []) :
    ∀ {x : Parsing σ}, Safe x.splitting.line x.lineSize → x.splitting.tokens.Usable →
      (∀ read ∈ linesRead call lines x, read.Fits call.delim) →
      ∀ read ∈ linesRead call lines x, read.Whole call.delim := by
  induction lines with
  | nil => exact fun _ _ _ _ hread ↦ absurd hread List.not_mem_nil
  | cons physical unread ih =>
    intro x h husable hfits
    obtain ⟨hphysical, hunread⟩ := List.forall_mem_cons.mp hlines
    rcases linesRead_cons_cases call unread hphysical h with
      hnone | ⟨y, hloaded, hlast | ⟨ok, z, hsplit, hsafe, hmore⟩⟩
    · rw [hnone]
      exact List.forall_mem_nil _
    · rw [hlast, List.forall_mem_singleton] at hfits ⊢
      exact whole_of_fits hloaded.text (hloaded.tokens_eq ▸ husable) hfits
    · rw [hmore, List.forall_mem_cons] at hfits ⊢
      have hwhole := whole_of_fits hloaded.text (hloaded.tokens_eq ▸ husable) hfits.1
      refine ⟨hwhole, ih hunread hsafe ?_ hfits.2⟩
      obtain ⟨y', hsplit', husable', -⟩ := hwhole
      cases hsplit.symm.trans hsplit'
      exact husable'

end Lines

/-! ### Runs -/

/-- The objects of the runs in which each string is one that the object copes with, whatever other
requests fail. -/
inductive Tokens.Used : Tokens → Prop where
  | new (hintSize : BitVec 32) : Used (Tokens.new hintSize)
  | clear {t : Tokens} (h : Used t) : Used t.clear
  | split {x y : Splitting} {i : ℤ} {s : List UInt8} {ok : Bool} (delim : List UInt8)
      (h : Used x.tokens) (htext : x.line.IsText i s)
      (hcopes : x.tokens.clear.Copes x.heap (runs (fun c ↦ delim.contains c) s).length)
      (hdone : x.splitString i delim = .done (ok, y)) : Used y.tokens

theorem Tokens.Used.usable {t : Tokens} (h : t.Used) : t.Usable := by
  induction h with
  | new hintSize => exact usable_new hintSize
  | clear h ih => exact ih.clear
  | split delim h htext hcopes hdone ih =>
    obtain ⟨ok, y, hsplit, hhandled, -⟩ := Splitting.splitString_handled delim htext ih hcopes
    obtain ⟨-, rfl⟩ := Prod.mk.inj (Outcome.done.inj (hdone.symm.trans hsplit))
    exact hhandled.usable

/-- The callback of a call only sees lines with all their tokens, and what it returns decides what
becomes of the call. -/
def SeesWhole {σ : Type*} (p : TextFileParser) (heap : Heap)
    (fopen : List UInt8 → Option FileContent)
    (call : ParseCall σ) (arg : σ) : Prop :=
  ∃ seen, (p.parseLineByLine heap fopen call arg).state.2.2.2 = (call.visit seen arg).2 ∧
    ∀ visit ∈ seen, ∃ read ∈ p.linesRead heap fopen call arg,
      visit = (read.lineNum.toNat, runs (fun c ↦ call.delim.contains c) (stripped read.physical))

theorem linesRead_whole_of_reached {σ : Type*} {p : TextFileParser} (hp : p.Reached) (heap : Heap)
    (fopen : List UInt8 → Option FileContent) (call : ParseCall σ) (arg : σ)
    (hfits : ∀ read ∈ p.linesRead heap fopen call arg, read.Fits call.delim) :
    ∀ read ∈ p.linesRead heap fopen call arg, read.Whole call.delim := by
  unfold TextFileParser.linesRead at hfits ⊢
  rcases hbuffer : p.ensureBuffer heap with ⟨_ | line, heap'⟩
  · exact fun _ hread ↦ absurd hread List.not_mem_nil
  · simp only [hbuffer] at hfits ⊢
    cases hfile : fopen call.filename with
    | none => exact fun _ hread ↦ absurd hread List.not_mem_nil
    | some file =>
      simp only [hfile] at hfits
      exact linesRead_whole call file.strings_physicalLines
        (x := ⟨⟨heap', .new call.hintSize, line⟩, defaultLineSize, 0, arg⟩)
        (hp.ready.ensureBuffer hbuffer) (Tokens.usable_new call.hintSize) hfits

theorem sees_of_whole {σ : Type*} {p : TextFileParser} {heap : Heap}
    {fopen : List UInt8 → Option FileContent} {call : ParseCall σ} {arg : σ}
    (hwhole : ∀ read ∈ p.linesRead heap fopen call arg, read.Whole call.delim) :
    SeesWhole p heap fopen call arg := by
  refine ⟨_, p.arg_parseLineByLine heap fopen call arg, fun visit hvisit ↦ ?_⟩
  obtain ⟨read, hread, heq⟩ := List.mem_filterMap.mp hvisit
  obtain ⟨y, hsplit, -, hstrings⟩ := hwhole read hread
  refine ⟨read, hread, ?_⟩
  unfold LineRead.visit at heq
  simp only [hsplit, hstrings] at heq
  split_ifs at heq
  exact (Option.some.inj heq).symm

/-- In a run in which every string is one that the object copes with, the object stays usable and a
failed request is reported. The callback of a call whose lines are granted their slots sees whole
lines only. -/
theorem usable_of_run {t : Tokens} (ht : t.Used) {p : TextFileParser} (hp : p.Reached) :
    (t.Usable ∧ ∀ (x : Splitting) (i : ℤ) (s delim : List UInt8), x.tokens = t → x.line.IsText i s →
      t.clear.Copes x.heap (runs (fun c ↦ delim.contains c) s).length →
      ∃ ok y, x.splitString i delim = .done (ok, y) ∧ x.Handled delim i s ok y) ∧
    ∀ (σ : Type) (heap : Heap) (fopen : List UInt8 → Option FileContent) (call : ParseCall σ)
      (arg : σ),
      (∀ read ∈ p.linesRead heap fopen call arg, read.Fits call.delim) →
      (∀ read ∈ p.linesRead heap fopen call arg, read.Whole call.delim) ∧
        SeesWhole p heap fopen call arg := by
  refine ⟨⟨ht.usable, fun x i s delim htokens htext hcopes ↦ ?_⟩,
    fun σ heap fopen call arg hfits ↦ ?_⟩
  · obtain ⟨ok, y, hsplit, hhandled, -⟩ := Splitting.splitString_handled delim htext
      (htokens ▸ ht.usable) (htokens ▸ hcopes)
    exact ⟨ok, y, hsplit, hhandled⟩
  · have hwhole := linesRead_whole_of_reached hp heap fopen call arg hfits
    exact ⟨hwhole, sees_of_whole hwhole⟩

/-- Memory in which one request fails. -/
def failing (n : ℕ) : Heap := ⟨fun k ↦ k ≠ n, fun _ _ ↦ 0, fun _ _ ↦ 0, 0⟩

/-- A buffer that holds `a b`. -/
def twoWords : Buffer UInt8 := (⟨4, fun _ ↦ 0, false⟩ : Buffer UInt8).store 0 [97, 32, 98]

/-- The callback keeps what it sees. -/
def keepAll : ParseCall (List (ℕ × List (List UInt8))) where
  filename := []
  fn arg _ n tokens := (0, arg ++ [(n, tokens)])
  delim := [32, 10]
  skipEmpty := true
  hintSize := 1

/-- The file `a b`. -/
def oneLine : FileContent := ⟨[97, 32, 98, 10], by decide, by decide⟩

/-- An object with one slot at a time copes with two tokens, unless the first slot is refused. -/
theorem copes_one {heap : Heap} (hfirst : heap.grants heap.requests = true) :
    (Tokens.new 1).clear.Copes heap 2 where
  first _ _ := hfirst
  no_overflow n hn _ := by
    have hslots : ∀ n, (Tokens.new 1).clear.slotsAfter n = 0 + n * 1 := fun _ ↦ rfl
    rw [hslots] at hn ⊢
    omega

/-- The second slot is refused for the second token of a string, and all slots are granted for a
file. -/
theorem usable_of_run_twoWords :
    (∃ ok y, Splitting.splitString ⟨failing 1, .new 1, twoWords⟩ 0 [32] = .done (ok, y) ∧
      Splitting.Handled [32] ⟨failing 1, .new 1, twoWords⟩ 0 [97, 32, 98] ok y) ∧
    SeesWhole .new (failing 3) (fun _ ↦ some oneLine) keepAll [] := by
  obtain ⟨⟨-, hsplit⟩, hsees⟩ := usable_of_run (.new 1) TextFileParser.Reached.new
  refine ⟨hsplit ⟨failing 1, .new 1, twoWords⟩ 0 [97, 32, 98] [32] rfl ?_ (copes_one rfl), ?_⟩
  · exact (Buffer.isText_store _ le_rfl (by decide) (by decide)).1
  · refine (hsees _ (failing 3) (fun _ ↦ some oneLine) keepAll [] fun read hread ↦ ?_).2
    cases List.mem_singleton.mp (show read ∈ [_] from hread)
    refine ⟨copes_one rfl, fun n hn ↦ ?_⟩
    have hlt : 0 + n * 1 < 2 := hn
    show decide (1 + n ≠ 3) = true
    rw [decide_eq_true_iff]
    omega

/-- When the request for the first slots fails, the next call stores a token through `NULL`; when a
later one fails, the callback does not see the second token. -/
theorem not_usable_failing :
    (∃ y, Splitting.splitString ⟨failing 0, .new 1, twoWords⟩ 0 [32] = .done (false, y) ∧
      y.tokens.tokens = none ∧ y.tokens.maxTokens = 1 ∧
      ∃ z, Splitting.splitString { y with line := twoWords } 0 [32] = .crashed z) ∧
    (TextFileParser.new.parseLineByLine (failing 2) (fun _ ↦ some oneLine) keepAll []).state.2.2.2 =
      [(1, [[97]])] := by
  refine ⟨⟨_, rfl, rfl, rfl, _, rfl⟩, ?_⟩
  rfl

end Nebula.TextFile
