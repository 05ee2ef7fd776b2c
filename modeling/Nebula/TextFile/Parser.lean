import Nebula.Library.Bytes
import Nebula.TextFile.Tokens

/-!
`TextFileParser`: a file is read line by line into a buffer that is kept from one file to the next,
the terminator of each line is cut off, the line is split into tokens in place, and a callback is
called for it, until a callback returns a nonzero value.

The content of a file is what `getline` makes of it: lines that end behind a newline, and a last one
that may not (`physicalLines`). `parseLineByLine_visits` says that the callback sees exactly the
lines, each with its number and its runs that are free of delimiters.
-/

set_option autoImplicit false
set_option relaxedAutoImplicit false

namespace Nebula.TextFile

open Nebula.Library Outcome

/-! ### Files -/

/-- The content of a text file. Offsets into a file are signed 64-bit numbers. -/
structure FileContent where
  bytes : List UInt8
  nulFree : 0 ∉ bytes
  length_lt : bytes.length < 2 ^ 63

/-- The lines that `getline` yields one after the other. -/
def physicalLines : List UInt8 → List (List UInt8)
  | [] => []
  | c :: s =>
      if c = newline then [c] :: physicalLines s
      else
        match physicalLines s with
        | [] => [[c]]
        | line :: lines => (c :: line) :: lines

/-- A line is read up to its newline. -/
theorem physicalLines_append {s : List UInt8} (h : newline ∉ s) (t : List UInt8) :
    physicalLines (s ++ newline :: t) = (s ++ [newline]) :: physicalLines t := by
  induction s with
  | nil => rw [List.nil_append, physicalLines, if_pos rfl, List.nil_append]
  | cons c s ih =>
    obtain ⟨hc, hs⟩ : newline ≠ c ∧ newline ∉ s := by simpa using h
    rw [List.cons_append, physicalLines, if_neg hc.symm, ih hs]
    rfl

/-- A last line without a newline is read up to the end of the file. -/
theorem physicalLines_of_not_mem {s : List UInt8} (h : newline ∉ s) (hne : s ≠ []) :
    physicalLines s = [s] := by
  induction s with
  | nil => exact absurd rfl hne
  | cons c s ih =>
    obtain ⟨hc, hs⟩ : newline ≠ c ∧ newline ∉ s := by simpa using h
    rw [physicalLines, if_neg hc.symm]
    rcases eq_or_ne s [] with rfl | hne'
    · rfl
    · rw [ih hs hne']

theorem flatten_physicalLines (s : List UInt8) : (physicalLines s).flatten = s := by
  induction s with
  | nil => rfl
  | cons c s ih =>
    rw [physicalLines]
    split_ifs
    · rw [List.flatten_cons, ih, List.singleton_append]
    · split
      · next hnil =>
        rw [hnil] at ih
        rw [← ih]
        rfl
      · next line lines hcons =>
        rw [hcons] at ih
        rw [← ih]
        rfl

theorem ne_nil_of_mem_physicalLines {s line : List UInt8} (h : line ∈ physicalLines s) :
    line ≠ [] := by
  induction s generalizing line with
  | nil => exact absurd h List.not_mem_nil
  | cons c s ih =>
    rw [physicalLines] at h
    split_ifs at h
    · rcases List.mem_cons.mp h with rfl | h
      · exact List.cons_ne_nil _ _
      · exact ih h
    · split at h
      · rw [List.mem_singleton.mp h]
        exact List.cons_ne_nil _ _
      · next first lines hcons =>
        rcases List.mem_cons.mp h with rfl | h
        · exact List.cons_ne_nil _ _
        · exact ih (hcons ▸ List.mem_cons_of_mem first h)

/-- A file has no more lines than bytes. -/
theorem length_physicalLines_le (s : List UInt8) : (physicalLines s).length ≤ s.length := by
  induction s with
  | nil => exact le_rfl
  | cons c s ih =>
    rw [physicalLines]
    split_ifs
    · exact Nat.succ_le_succ ih
    · split
      · exact Nat.succ_le_succ (Nat.zero_le _)
      · next first lines hcons =>
        rw [hcons] at ih
        exact ih.trans (Nat.le_succ _)

/-- The lines of a file are strings, and none of them is empty. -/
theorem FileContent.strings_physicalLines (file : FileContent) :
    ∀ line ∈ physicalLines file.bytes, 0 ∉ line ∧ line ≠ [] := by
  intro line hline
  refine ⟨fun hmem ↦ file.nulFree ?_, ne_nil_of_mem_physicalLines hline⟩
  rw [← flatten_physicalLines file.bytes]
  exact List.mem_flatten.mpr ⟨line, hline, hmem⟩

/-! ### The object -/

abbrev defaultLineSize : ℕ := 4096

structure TextFileParser where
  lineBuffer : Option (Buffer UInt8)
  lineSize : ℕ
  fileHandle : Option FileContent

/-- The arguments of a call, with a callback that carries a state of its own: it is called with the
name of the file, the number of the line and the tokens that it reads. -/
structure ParseCall (σ : Type*) where
  filename : List UInt8
  fn : σ → List UInt8 → ℕ → List (List UInt8) → BitVec 32 × σ
  delim : List UInt8
  skipEmpty : Bool
  hintSize : BitVec 32

/-- The variables of the loop, and the state of the callback. -/
structure Parsing (σ : Type*) where
  splitting : Splitting
  lineSize : ℕ
  lineNum : BitVec 64
  arg : σ

/-- `getline`, when there is a line to be read: the buffer is made larger if the line does not fit.
-/
def getline (heap : Heap) (line : Buffer UInt8) (lineSize : ℕ) (physical : List UInt8) :
    Option (Buffer UInt8 × ℕ) × Heap :=
  if physical.length < lineSize then (some (line.store 0 physical, lineSize), heap)
  else
    let newSize := max (2 * lineSize) (physical.length + 1)
    match heap.request (Heap.enlarged line newSize (heap.bytes heap.requests)) with
    | (none, heap) => (none, heap)
    | (some line, heap) => (some (line.store 0 physical, newSize), heap)

/-- The removal of a trailing `"\r"`, `"\n"` or `"\r\n"`. -/
def stripTerminator (line : Buffer UInt8) (length : ℤ) : Buffer UInt8 :=
  let last := line.cell (length - 1)
  let line := line.touch (length - 1)
  if last = carriageReturn ∨ last = newline then
    let length := length - 1
    let line := line.write length 0
    if length ≠ 0 then
      let last := line.cell (length - 1)
      let line := line.touch (length - 1)
      if last = carriageReturn then line.write (length - 1) 0 else line
    else line
  else line

/-- The loop of `parseLineByLine`, over the lines that have not been read yet. -/
def parseLoop {σ : Type*} (call : ParseCall σ) :
    List (List UInt8) → Parsing σ → Outcome (BitVec 32 × Parsing σ)
  | [], x => .done (0, x)
  | physical :: unread, x =>
      match getline x.splitting.heap x.splitting.line x.lineSize physical with
      | (none, heap) => .done (0, { x with splitting := { x.splitting with heap } })
      | (some (line, lineSize), heap) =>
          let lineNum := x.lineNum + 1
          let line := stripTerminator line physical.length
          ((Splitting.splitString { x.splitting with heap, line } 0 call.delim).map fun y ↦
            ((0 : BitVec 32), ({ x with splitting := y.2, lineSize, lineNum } : Parsing σ))).andThen
            fun (_, x) ↦
              if x.splitting.tokens.numOfTokens = 0 ∧ call.skipEmpty then parseLoop call unread x
              else
                let (rc, arg) := call.fn x.arg call.filename lineNum.toNat
                  (x.splitting.tokens.strings x.splitting.line)
                if rc ≠ 0 then .done (rc, { x with arg }) else parseLoop call unread { x with arg }

namespace TextFileParser

def new : TextFileParser := ⟨none, 0, none⟩

def clear (_ : TextFileParser) : TextFileParser := ⟨none, 0, none⟩

/-- The buffer of the parser, with a request for one if there is none. -/
def ensureBuffer (p : TextFileParser) (heap : Heap) : Option (Buffer UInt8) × Heap :=
  match p.lineBuffer with
  | some line => (some line, heap)
  | none => heap.request ⟨defaultLineSize, heap.bytes heap.requests, false⟩

/-- `parseLineByLine`, for files that `fopen` finds or does not find. -/
def parseLineByLine {σ : Type*} (p : TextFileParser) (heap : Heap)
    (fopen : List UInt8 → Option FileContent) (call : ParseCall σ) (arg : σ) :
    Outcome (BitVec 32 × TextFileParser × Heap × σ) :=
  let p := { p with fileHandle := none }
  match p.ensureBuffer heap with
  | (none, heap) => .done (-1, p, heap, arg)
  | (some line, heap) =>
      match fopen call.filename with
      | none => .done (-1, ⟨some line, defaultLineSize, none⟩, heap, arg)
      | some file =>
          (parseLoop call (physicalLines file.bytes)
            ⟨⟨heap, .new call.hintSize, line⟩, defaultLineSize, 0, arg⟩).map fun (rc, x) ↦
              (rc, ⟨some x.splitting.line, x.lineSize, none⟩, x.splitting.heap, x.arg)

/-- The states of a parser after any calls, whatever they were called with and whatever came of
them. -/
inductive Reached : TextFileParser → Prop where
  | new : Reached new
  | clear {p : TextFileParser} (h : Reached p) : Reached p.clear
  | parse {p p' : TextFileParser} {σ : Type} (heap heap' : Heap)
      (fopen : List UInt8 → Option FileContent) (call : ParseCall σ) (arg arg' : σ) (rc : BitVec 32)
      (h : Reached p)
      (hdone : p.parseLineByLine heap fopen call arg = .done (rc, p', heap', arg')) : Reached p'

end TextFileParser

/-! ### Reading a line -/

/-- A line without the trailing characters that are removed from it. -/
def stripped (s : List UInt8) : List UInt8 :=
  if s.getLast? = some carriageReturn ∨ s.getLast? = some newline then
    if s.dropLast.getLast? = some carriageReturn then s.dropLast.dropLast else s.dropLast
  else s

variable {line line' : Buffer UInt8} {s : List UInt8}

/-- The line is there, and no access has missed the buffer. -/
structure Loaded (line line' : Buffer UInt8) (s : List UInt8) : Prop where
  text : line'.IsText 0 s
  size_eq : line'.size = line.size
  strayed_eq : line'.strayed = line.strayed

/-- The last character of a string, and what is left when a NUL takes its place. -/
theorem last_of_isText {c : UInt8} (h : line.IsText 0 (s ++ [c])) :
    line.cell s.length = c ∧ line.InBounds s.length ∧ Loaded line (line.write s.length 0) s := by
  have hlast := (Buffer.IsText.drop h).1
  rw [zero_add] at hlast
  have hcut := Buffer.IsText.cut h
  rw [zero_add] at hcut
  exact ⟨hlast.2.1, hlast.1, hcut, rfl, Buffer.strayed_write_of_inBounds hlast.1 0⟩

theorem stripTerminator_spec (h : line.IsText 0 s) (hne : s ≠ []) :
    Loaded line (stripTerminator line s.length) (stripped s) := by
  obtain ⟨t, c, rfl⟩ : ∃ t c, s = t ++ [c] := ⟨_, _, (List.dropLast_append_getLast hne).symm⟩
  obtain ⟨hcell, hbounds, hcut⟩ := last_of_isText h
  have hlength : (((t ++ [c]).length : ℕ) : ℤ) - 1 = t.length := by
    rw [List.length_append, List.length_singleton]
    push_cast
    omega
  unfold stripTerminator stripped
  simp only [hlength, hcell, Buffer.touch_of_inBounds hbounds, List.getLast?_concat,
    Option.some.injEq, List.dropLast_concat]
  by_cases hterminator : c = carriageReturn ∨ c = newline
  · rw [if_pos hterminator, if_pos hterminator]
    rcases List.eq_nil_or_concat' t with rfl | ⟨u, d, rfl⟩
    · rw [if_neg (by simp), if_neg (by simp)]
      exact hcut
    · obtain ⟨hcell', hbounds', hcut'⟩ := last_of_isText hcut.text
      have hlength' : (((u ++ [d]).length : ℕ) : ℤ) - 1 = u.length := by
        rw [List.length_append, List.length_singleton]
        push_cast
        omega
      have hlong : (((u ++ [d]).length : ℕ) : ℤ) ≠ 0 := by omega
      rw [if_pos hlong, hlength', hcell', Buffer.touch_of_inBounds hbounds', List.getLast?_concat,
        List.dropLast_concat]
      by_cases hd : d = carriageReturn
      · rw [if_pos hd, if_pos (congrArg some hd)]
        exact ⟨hcut'.text, hcut'.size_eq.trans hcut.size_eq, hcut'.strayed_eq.trans hcut.strayed_eq⟩
      · rw [if_neg hd, if_neg fun heq ↦ hd (Option.some.inj heq)]
        exact hcut
  · rw [if_neg hterminator, if_neg hterminator]
    exact ⟨h, rfl, rfl⟩

/-- What is removed from a line are terminators, so that its runs are the same. -/
theorem runs_stripped {delim : List UInt8} (hcr : carriageReturn ∈ delim) (hnl : newline ∈ delim)
    (s : List UInt8) :
    runs (fun c ↦ delim.contains c) (stripped s) = runs (fun c ↦ delim.contains c) s := by
  have hdrop : ∀ (s : List UInt8) (c : UInt8), c ∈ delim → s.getLast? = some c →
      runs (fun c ↦ delim.contains c) s.dropLast = runs (fun c ↦ delim.contains c) s := by
    intro s c hc hlast
    have hs := List.dropLast_append_getLast? c hlast
    conv_rhs => rw [← hs]
    exact (runs_concat (by simpa using hc) _).symm
  unfold stripped
  split_ifs with hterminator hcr'
  · rw [hdrop _ _ hcr hcr']
    exact hterminator.elim (hdrop s _ hcr) (hdrop s _ hnl)
  · exact hterminator.elim (hdrop s _ hcr) (hdrop s _ hnl)
  · rfl

/-- `getline` leaves the line in a buffer that is as large as it says. -/
theorem getline_spec {heap : Heap} {lineSize : ℕ} {physical : List UInt8}
    (hsize : lineSize ≤ line.size)
    (hphysical : 0 ∉ physical) {lineSize' : ℕ}
    (h : (getline heap line lineSize physical).1 = some (line', lineSize')) :
    line'.IsText 0 physical ∧ lineSize ≤ lineSize' ∧ lineSize' ≤ line'.size ∧
      line'.strayed = line.strayed := by
  have hstore : ∀ (block : Buffer UInt8) (n : ℕ), physical.length < n → n ≤ block.size →
      (block.store 0 physical).IsText 0 physical ∧
        (block.store 0 physical).strayed = block.strayed := fun block n hlt hle ↦
    block.isText_store le_rfl (by omega) hphysical
  unfold getline at h
  split_ifs at h with hfits
  · cases h
    obtain ⟨htext, hstrayed⟩ := hstore line lineSize hfits hsize
    exact ⟨htext, le_rfl, by rwa [Buffer.size_store], hstrayed⟩
  · unfold Heap.request at h
    split_ifs at h with hgrant
    cases h
    obtain ⟨htext, hstrayed⟩ := hstore
      (Heap.enlarged line (max (2 * lineSize) (physical.length + 1)) (heap.bytes heap.requests))
      (max (2 * lineSize) (physical.length + 1)) (by omega) le_rfl
    exact ⟨htext, by omega, by rw [Buffer.size_store]; exact le_rfl, hstrayed⟩

theorem getline_of_ample {heap : Heap} (h : heap.Ample) (line : Buffer UInt8) (lineSize : ℕ)
    (physical : List UInt8) : ∃ line' lineSize' heap', heap'.Ample ∧
      getline heap line lineSize physical = (some (line', lineSize'), heap') := by
  unfold getline
  split_ifs
  · exact ⟨_, _, heap, h, rfl⟩
  · simp only [h.request]
    exact ⟨_, _, heap.asked, h, rfl⟩

/-! ### All lines -/

/-- The buffer is as large as it is taken to be, and no access has missed it. -/
structure Safe (line : Buffer UInt8) (lineSize : ℕ) : Prop where
  default_le : defaultLineSize ≤ lineSize
  le_size : lineSize ≤ line.size
  unstrayed : line.strayed = false

/-- The line is read and its terminator removed. -/
theorem Safe.loaded {heap heap' : Heap} {lineSize lineSize' : ℕ} {physical : List UInt8}
    (h : Safe line lineSize) (hphysical : 0 ∉ physical) (hne : physical ≠ [])
    (hgetline : getline heap line lineSize physical = (some (line', lineSize'), heap')) :
    (stripTerminator line' physical.length).IsText 0 (stripped physical) ∧
      Safe (stripTerminator line' physical.length) lineSize' := by
  obtain ⟨htext, hle, hsize, hstrayed⟩ :=
    getline_spec h.le_size hphysical (congrArg Prod.fst hgetline)
  have hstripped := stripTerminator_spec htext hne
  exact ⟨hstripped.text, h.default_le.trans hle, hstripped.size_eq ▸ hsize,
    (hstripped.strayed_eq.trans hstrayed).trans h.unstrayed⟩

/-- A string is taken apart inside the buffer. -/
theorem Safe.splitString {x : Splitting} {lineSize : ℕ} (h : Safe x.line lineSize)
    (htext : x.line.IsText 0 s) (delim : List UInt8) :
    Safe (x.splitString 0 delim).state.2.line lineSize := by
  obtain ⟨hsize, hstrayed⟩ := Splitting.line_splitLoop
    (x := { x with tokens := x.tokens.clear }) delim
    ((x.line.text 0).length + 1) htext
  exact ⟨h.default_le, h.le_size.trans_eq hsize.symm, hstrayed.trans h.unstrayed⟩

section Loop

variable {σ : Type*} {call : ParseCall σ}

/-- Whatever requests for memory fail and whatever the callback returns, the loop stays in the
buffer. -/
theorem safe_parseLoop (call : ParseCall σ) {lines : List (List UInt8)}
    (hlines : ∀ line ∈ lines, 0 ∉ line ∧ line ≠ []) :
    ∀ {x : Parsing σ}, Safe x.splitting.line x.lineSize →
      Safe (parseLoop call lines x).state.2.splitting.line
        (parseLoop call lines x).state.2.lineSize := by
  induction lines with
  | nil => exact fun h ↦ h
  | cons physical unread ih =>
    intro x h
    obtain ⟨hphysical, hunread⟩ := List.forall_mem_cons.mp hlines
    rw [parseLoop]
    rcases hgetline : getline x.splitting.heap x.splitting.line x.lineSize physical with
      ⟨_ | ⟨line, lineSize⟩, heap⟩
    · exact h
    · obtain ⟨htext, hsafe⟩ := h.loaded hphysical.1 hphysical.2 hgetline
      refine state_map_andThen (P := fun y : BitVec 32 × Parsing σ ↦
        Safe y.2.splitting.line y.2.lineSize) ?_ fun hy ↦ ?_
      · exact Safe.splitString
          (x := ⟨heap, x.splitting.tokens, stripTerminator line physical.length⟩)
          hsafe htext call.delim
      · simp only
        split_ifs
        · exact ih hunread hy
        · exact hy
        · exact ih hunread hy

/-! ### What a callback should see -/

/-- The lines that are to be visited, each with its number and its runs without delimiters. -/
def visitsFrom (delim : List UInt8) (skipEmpty : Bool) (lines : List (List UInt8)) (n : ℕ) :
    List (ℕ × List (List UInt8)) :=
  ((lines.zipIdx n).map fun line ↦ (line.2, runs (fun c ↦ delim.contains c) line.1)).filter
    fun visit ↦ !(skipEmpty && visit.2.isEmpty)

/-- The lines of a file that are to be visited. -/
def visits (delim : List UInt8) (skipEmpty : Bool) (bytes : List UInt8) :
    List (ℕ × List (List UInt8)) :=
  visitsFrom delim skipEmpty (physicalLines bytes) 1

/-- The callback is called for one after the other, until it returns a nonzero value: that value, or
zero, and the state of the callback. -/
def ParseCall.visit (call : ParseCall σ) : List (ℕ × List (List UInt8)) → σ → BitVec 32 × σ
  | [], arg => (0, arg)
  | (n, tokens) :: rest, arg =>
      let (rc, arg) := call.fn arg call.filename n tokens
      if rc ≠ 0 then (rc, arg) else call.visit rest arg

theorem visitsFrom_cons (delim : List UInt8) (skipEmpty : Bool) (physical : List UInt8)
    (unread : List (List UInt8)) (n : ℕ) : visitsFrom delim skipEmpty (physical :: unread) n =
      if skipEmpty && (runs (fun c ↦ delim.contains c) physical).isEmpty then
        visitsFrom delim skipEmpty unread (n + 1)
      else (n, runs (fun c ↦ delim.contains c) physical) ::
        visitsFrom delim skipEmpty unread (n + 1) := by
  unfold visitsFrom
  rw [List.zipIdx_cons, List.map_cons, List.filter_cons]
  cases skipEmpty && (runs (fun c ↦ delim.contains c) physical).isEmpty <;> rfl

/-- What holds between two lines when requests succeed. -/
structure Going (x : Parsing σ) : Prop where
  safe : Safe x.splitting.line x.lineSize
  ample : x.splitting.heap.Ample
  sound : x.splitting.tokens.Sound
  hint_lt : x.splitting.tokens.hintSize.toNat < 2 ^ 31

/-- When requests succeed, one iteration skips the line or calls the callback for its tokens. -/
theorem parseLoop_cons (hcr : carriageReturn ∈ call.delim) (hnl : newline ∈ call.delim)
    {physical : List UInt8} (hphysical : 0 ∉ physical ∧ physical ≠ [])
    (hfew : (runs (fun c ↦ call.delim.contains c) physical).length < 2 ^ 31) {x : Parsing σ}
    (h : Going x) (hnum : x.lineNum.toNat + 1 < 2 ^ 64) (unread : List (List UInt8)) :
    ∃ next : σ → Parsing σ,
      (∀ arg, Going (next arg) ∧ (next arg).lineNum.toNat = x.lineNum.toNat + 1 ∧
        (next arg).arg = arg) ∧
      parseLoop call (physical :: unread) x =
        let tokens := runs (fun c ↦ call.delim.contains c) physical
        if (call.skipEmpty && tokens.isEmpty) = true then parseLoop call unread (next x.arg)
        else
          let (rc, arg) := call.fn x.arg call.filename (x.lineNum.toNat + 1) tokens
          if rc ≠ 0 then .done (rc, next arg) else parseLoop call unread (next arg) := by
  obtain ⟨line, lineSize, heap, hample, hgetline⟩ :=
    getline_of_ample h.ample x.splitting.line x.lineSize physical
  obtain ⟨htext, hsafe⟩ := h.safe.loaded hphysical.1 hphysical.2 hgetline
  have hruns := runs_stripped hcr hnl physical
  obtain ⟨y, hsplit, hyample, hysound, hyhint, hstrings, hcount⟩ := Splitting.splitString_spec
    (x := ⟨heap, x.splitting.tokens, stripTerminator line physical.length⟩) call.delim htext hample
    h.sound h.hint_lt (hruns ▸ hfew)
  rw [hruns] at hstrings hcount
  have hysafe : Safe y.line lineSize := by
    have hsplitSafe := Safe.splitString
      (x := ⟨heap, x.splitting.tokens, stripTerminator line physical.length⟩) hsafe htext call.delim
    rwa [hsplit] at hsplitSafe
  have hlineNum : (x.lineNum + 1).toNat = x.lineNum.toNat + 1 := by
    rw [BitVec.toNat_add]
    exact Nat.mod_eq_of_lt hnum
  have hskip : (y.tokens.numOfTokens = 0 ∧ call.skipEmpty = true) ↔
      (call.skipEmpty && (runs (fun c ↦ call.delim.contains c) physical).isEmpty) = true := by
    rw [Bool.and_eq_true, and_comm, List.isEmpty_iff, ← List.length_eq_zero_iff, ← hcount,
      ← BitVec.toNat_inj]
    rfl
  refine ⟨fun arg ↦ ⟨y, lineSize, x.lineNum + 1, arg⟩, fun arg ↦
    ⟨⟨hysafe, hyample, hysound, hyhint ▸ h.hint_lt⟩, hlineNum, rfl⟩, ?_⟩
  rw [parseLoop, hgetline]
  simp only [hsplit, Outcome.map, andThen_done, hskip, hstrings, hlineNum]

/-- When requests succeed, the loop visits the lines that are to be visited. -/
theorem parseLoop_spec (hcr : carriageReturn ∈ call.delim) (hnl : newline ∈ call.delim)
    {lines : List (List UInt8)} (hlines : ∀ line ∈ lines, 0 ∉ line ∧ line ≠ [])
    (htokens : ∀ line ∈ lines, (runs (fun c ↦ call.delim.contains c) line).length < 2 ^ 31) :
    ∀ {x : Parsing σ}, Going x → x.lineNum.toNat + lines.length < 2 ^ 64 →
      ∃ y, parseLoop call lines x = .done ((call.visit
        (visitsFrom call.delim call.skipEmpty lines (x.lineNum.toNat + 1)) x.arg).1, y) ∧
        y.arg = (call.visit
          (visitsFrom call.delim call.skipEmpty lines (x.lineNum.toNat + 1)) x.arg).2 := by
  induction lines with
  | nil => exact fun {x} _ _ ↦ ⟨x, rfl, rfl⟩
  | cons physical unread ih =>
    intro x h hnum
    obtain ⟨hphysical, hunread⟩ := List.forall_mem_cons.mp hlines
    obtain ⟨hfew, hunreadFew⟩ := List.forall_mem_cons.mp htokens
    rw [List.length_cons] at hnum
    obtain ⟨next, hnext, hloop⟩ := parseLoop_cons hcr hnl hphysical hfew h (by omega) unread
    have hrest : ∀ arg, ∃ y, parseLoop call unread (next arg) = .done ((call.visit
        (visitsFrom call.delim call.skipEmpty unread (x.lineNum.toNat + 1 + 1)) arg).1, y) ∧
        y.arg = (call.visit
          (visitsFrom call.delim call.skipEmpty unread (x.lineNum.toNat + 1 + 1)) arg).2 := by
      intro arg
      obtain ⟨hgoing, hlineNum, harg⟩ := hnext arg
      have hvisited := ih hunread hunreadFew hgoing (by omega)
      rwa [hlineNum, harg] at hvisited
    rw [hloop, visitsFrom_cons]
    simp only
    split_ifs with hskip hrc
    · exact hrest x.arg
    · rw [ParseCall.visit]
      simp only [if_pos hrc]
      exact ⟨_, rfl, (hnext _).2.2⟩
    · rw [ParseCall.visit]
      simp only [if_neg hrc]
      exact hrest _

end Loop

/-! ### The call -/

namespace TextFileParser

variable {σ : Type*} {p : TextFileParser}

/-- The buffer, if there is one, has at least the default size, and no access has missed it. -/
def Ready (p : TextFileParser) : Prop :=
  ∀ line, p.lineBuffer = some line → Safe line defaultLineSize

theorem Ready.ensureBuffer (h : p.Ready) {heap heap' : Heap} {line : Buffer UInt8}
    (hbuffer : p.ensureBuffer heap = (some line, heap')) : Safe line defaultLineSize := by
  unfold TextFileParser.ensureBuffer at hbuffer
  cases hline : p.lineBuffer with
  | some old =>
    rw [hline] at hbuffer
    cases hbuffer
    exact h line hline
  | none =>
    rw [hline, Heap.request] at hbuffer
    split_ifs at hbuffer
    · cases hbuffer
      exact ⟨le_rfl, le_rfl, rfl⟩
    · cases hbuffer

/-- When requests succeed, there is a buffer. -/
theorem ensureBuffer_of_ample (p : TextFileParser) {heap : Heap} (hheap : heap.Ample) :
    ∃ line heap', p.ensureBuffer heap = (some line, heap') ∧ heap'.Ample := by
  unfold ensureBuffer
  cases p.lineBuffer with
  | some line => exact ⟨line, heap, rfl, hheap⟩
  | none => exact ⟨_, heap.asked, hheap.request _, hheap⟩

/-- A call leaves a parser ready, whatever comes of it. -/
theorem Ready.parse (h : p.Ready) (heap : Heap) (fopen : List UInt8 → Option FileContent)
    (call : ParseCall σ) (arg : σ) : (p.parseLineByLine heap fopen call arg).state.2.1.Ready := by
  have hsame : ∀ line : Buffer UInt8, Safe line defaultLineSize →
      (⟨some line, defaultLineSize, none⟩ : TextFileParser).Ready := by
    rintro line hline line' ⟨⟩
    exact hline
  unfold parseLineByLine
  rcases hbuffer : ({ p with fileHandle := none } : TextFileParser).ensureBuffer heap with
    ⟨_ | line, heap'⟩
  · simp only [hbuffer]
    exact h
  · have hsafe := Ready.ensureBuffer (p := { p with fileHandle := none }) h hbuffer
    simp only [hbuffer]
    cases fopen call.filename with
    | none => exact hsame line hsafe
    | some file =>
      have hloop := safe_parseLoop call file.strings_physicalLines
        (x := ⟨⟨heap', .new call.hintSize, line⟩, defaultLineSize, 0, arg⟩) hsafe
      rw [state_map]
      rintro line' ⟨⟩
      exact ⟨le_rfl, (Int.ofNat_le.mpr hloop.default_le).trans hloop.le_size, hloop.unstrayed⟩

theorem Reached.ready (h : p.Reached) : p.Ready := by
  induction h with
  | new => exact fun _ hsome ↦ absurd hsome (Option.some_ne_none _).symm
  | clear h ih => exact fun _ hsome ↦ absurd hsome (Option.some_ne_none _).symm
  | parse heap heap' fopen call arg arg' rc h hdone ih =>
    have hready := ih.parse heap fopen call arg
    rwa [hdone] at hready

/-- When requests succeed, `parseLineByLine` opens the file and visits its lines: all of them, or
those with a token, with their numbers and their runs without delimiters, until a callback returns a
nonzero value. -/
theorem parseLineByLine_visits (hp : p.Reached) {heap : Heap} (hheap : heap.Ample)
    (fopen : List UInt8 → Option FileContent) (call : ParseCall σ) (arg : σ)
    (hcr : carriageReturn ∈ call.delim) (hnl : newline ∈ call.delim)
    (hhint : call.hintSize.toNat < 2 ^ 31)
    (htokens : ∀ file, fopen call.filename = some file → ∀ line ∈ physicalLines file.bytes,
      (runs (fun c ↦ call.delim.contains c) line).length < 2 ^ 31) :
    ∃ rc p' heap' arg', p.parseLineByLine heap fopen call arg = .done (rc, p', heap', arg') ∧
      (rc, arg') = match fopen call.filename with
        | none => (-1, arg)
        | some file => call.visit (visits call.delim call.skipEmpty file.bytes) arg := by
  have hready := hp.ready
  unfold parseLineByLine
  obtain ⟨line, heap', hbuffer, hheap'⟩ :=
    ensureBuffer_of_ample { p with fileHandle := none } hheap
  have hsafe := Ready.ensureBuffer (p := { p with fileHandle := none }) hready hbuffer
  simp only [hbuffer]
  cases hfile : fopen call.filename with
  | none => exact ⟨_, _, _, _, rfl, rfl⟩
  | some file =>
    have hsmall : (Tokens.new call.hintSize).hintSize.toNat < 2 ^ 31 := by
      unfold Tokens.new
      simp only
      split_ifs
      · exact hhint
      · decide
    have hcount : (0 : BitVec 64).toNat + (physicalLines file.bytes).length < 2 ^ 64 := by
      have := length_physicalLines_le file.bytes
      have := file.length_lt
      show 0 + _ < _
      omega
    obtain ⟨y, hloop, harg⟩ := parseLoop_spec hcr hnl file.strings_physicalLines
      (htokens file hfile)
      (x := ⟨⟨heap', .new call.hintSize, line⟩, defaultLineSize, 0, arg⟩)
      ⟨hsafe, hheap', Tokens.sound_new call.hintSize, hsmall⟩ hcount
    simp only [hloop, Outcome.map]
    exact ⟨_, _, _, _, rfl, Prod.ext rfl harg⟩

/-- Callbacks that keep what they are called with, and stop at a line that consists of a `D`. -/
def untilD : ParseCall (List (ℕ × List (List UInt8))) where
  filename := [102]
  fn arg _ n tokens := (if tokens = [[68]] then 1 else 0, arg ++ [(n, tokens)])
  delim := [32, 10, 13]
  skipEmpty := true
  hintSize := 1

/-- A file of four lines: `a b`, an empty one, `D` and `c`. -/
def fourLines : FileContent where
  bytes := [97, 32, 98, 13, 10, 10, 68, 10, 99]
  nulFree := by decide
  length_lt := by decide

/-- After a file that could not be opened, the first and the third line are visited. -/
theorem parseLineByLine_visits_fourLines : ∃ p, Reached p ∧ ∃ rc p' heap' arg',
    p.parseLineByLine ampleHeap (fun _ ↦ some fourLines) untilD [] = .done (rc, p', heap', arg') ∧
      rc = 1 ∧ arg' = [(1, [[97], [98]]), (3, [[68]])] := by
  have hreached : Reached ⟨some ⟨4096, fun _ ↦ 0, false⟩, 4096, none⟩ :=
    .parse ampleHeap ampleHeap.asked (fun _ ↦ none) untilD [] [] (-1) .new rfl
  refine ⟨_, hreached, ?_⟩
  obtain ⟨rc, p', heap', arg', hdone, hvisit⟩ := parseLineByLine_visits hreached
    ample_ampleHeap (fun _ ↦ some fourLines) untilD []
    (by decide) (by decide) (by decide) (by
      rintro file ⟨⟩
      decide)
  have hcalls : untilD.visit (visits untilD.delim untilD.skipEmpty fourLines.bytes) [] =
      (1, [(1, [[97], [98]]), (3, [[68]])]) := by decide
  have hresult : (rc, arg') = (1, [(1, [[97], [98]]), (3, [[68]])]) := hvisit.trans hcalls
  exact ⟨rc, p', heap', arg', hdone, congrArg Prod.fst hresult, congrArg Prod.snd hresult⟩

end TextFileParser

end Nebula.TextFile
