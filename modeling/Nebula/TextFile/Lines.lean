import Nebula.TextFile.Parser

/-!
The lines that a call of `parseLineByLine` reads, one after the other (`linesRead`): each as
`getline` yields it, with its number and with the object that `splitString` is called for.
`parseLoop_eq_visit` says that the callback sees these lines and no others.

A line is split after its terminator has been cut off. `strips_iff` says that this takes exactly one
terminator off each line, unless the file ends in two carriage returns: then both are cut off.
-/

set_option autoImplicit false
set_option relaxedAutoImplicit false

namespace Nebula.TextFile

open Nebula.Library Outcome

/-! ### The lines of a call -/

/-- A line that has been read: its bytes, its number, and what `splitString` is called for. -/
structure LineRead where
  physical : List UInt8
  lineNum : BitVec 64
  splitting : Splitting

section Lines

variable {σ : Type*}

/-- The variables of the loop when the next line has been read and its terminator removed, if there
is memory for it. -/
def Parsing.readLine (x : Parsing σ) (physical : List UInt8) : Option (Parsing σ) :=
  match getline x.splitting.heap x.splitting.line x.lineSize physical with
  | (none, _) => none
  | (some (line, lineSize), heap) =>
      some { x with
        splitting := { x.splitting with heap, line := stripTerminator line physical.length }
        lineSize
        lineNum := x.lineNum + 1 }

/-- A line has been split: it may be skipped, and else the callback is called. The loop goes on
unless the callback returns a nonzero value. -/
def Parsing.handle (call : ParseCall σ) (x : Parsing σ) : Option (Parsing σ) :=
  if x.splitting.tokens.numOfTokens = 0 ∧ call.skipEmpty then some x
  else
    let (rc, arg) := call.fn x.arg call.filename x.lineNum.toNat
      (x.splitting.tokens.strings x.splitting.line)
    if rc ≠ 0 then none else some { x with arg }

/-- The lines that the loop reads. -/
def linesRead (call : ParseCall σ) : List (List UInt8) → Parsing σ → List LineRead
  | [], _ => []
  | physical :: unread, x =>
      match x.readLine physical with
      | none => []
      | some x =>
          ⟨physical, x.lineNum, x.splitting⟩ ::
            match x.splitting.splitString 0 call.delim with
            | .done (_, splitting) =>
                match Parsing.handle call { x with splitting } with
                | none => []
                | some x => linesRead call unread x
            | _ => []

/-- What the callback is called with for a line, if it is. -/
def LineRead.visit (call : ParseCall σ) (read : LineRead) : Option (ℕ × List (List UInt8)) :=
  match read.splitting.splitString 0 call.delim with
  | .done (_, y) =>
      if y.tokens.numOfTokens = 0 ∧ call.skipEmpty then none
      else some (read.lineNum.toNat, y.tokens.strings y.line)
  | _ => none

/-- The lines that a call reads. -/
def TextFileParser.linesRead (p : TextFileParser) (heap : Heap)
    (fopen : List UInt8 → Option FileContent) (call : ParseCall σ) (arg : σ) : List LineRead :=
  match p.ensureBuffer heap with
  | (none, _) => []
  | (some line, heap) =>
      match fopen call.filename with
      | none => []
      | some file =>
          TextFile.linesRead call (physicalLines file.bytes)
            ⟨⟨heap, .new call.hintSize, line⟩, defaultLineSize, 0, arg⟩

/-- The callback is called for the lines that have been read, and for no others. -/
theorem parseLoop_eq_visit (call : ParseCall σ) (lines : List (List UInt8)) (x : Parsing σ) :
    ((parseLoop call lines x).state.1, (parseLoop call lines x).state.2.arg) =
      call.visit ((linesRead call lines x).filterMap (LineRead.visit call)) x.arg := by
  induction lines generalizing x with
  | nil => rfl
  | cons physical unread ih =>
    rw [parseLoop, linesRead, Parsing.readLine]
    rcases getline x.splitting.heap x.splitting.line x.lineSize physical with
      ⟨_ | ⟨line, lineSize⟩, heap⟩
    · rfl
    · simp only [List.filterMap_cons, LineRead.visit]
      rcases hsplit : Splitting.splitString
        { x.splitting with heap, line := stripTerminator line physical.length } 0 call.delim with
        ⟨ok, y⟩ | ⟨ok, y⟩ | ⟨ok, y⟩
      · simp only [Outcome.map, andThen_done, Parsing.handle]
        by_cases hskip : y.tokens.numOfTokens = 0 ∧ call.skipEmpty = true
        · simp only [if_pos hskip]
          exact ih _
        · simp only [if_neg hskip, ParseCall.visit]
          split_ifs with hrc
          · rfl
          · exact ih _
      · rfl
      · rfl

/-- What handling a line leaves alone. -/
theorem Parsing.of_handle {call : ParseCall σ} {y z : Parsing σ}
    (hhandle : Parsing.handle call y = some z) :
    z.splitting = y.splitting ∧ z.lineSize = y.lineSize := by
  unfold handle at hhandle
  split_ifs at hhandle with hskip
  · cases hhandle
    exact ⟨rfl, rfl⟩
  · simp only at hhandle
    split_ifs at hhandle with hrc
    cases hhandle
    exact ⟨rfl, rfl⟩

/-- A line is in the buffer without its terminator. -/
structure LineLoaded (physical : List UInt8) (x y : Parsing σ) : Prop where
  text : y.splitting.line.IsText 0 (stripped physical)
  safe : Safe y.splitting.line y.lineSize
  tokens_eq : y.splitting.tokens = x.splitting.tokens

theorem Safe.readLine {physical : List UInt8} {x y : Parsing σ}
    (h : Safe x.splitting.line x.lineSize) (hphysical : 0 ∉ physical ∧ physical ≠ [])
    (hread : x.readLine physical = some y) : LineLoaded physical x y := by
  unfold Parsing.readLine at hread
  rcases hgetline : getline x.splitting.heap x.splitting.line x.lineSize physical with
    ⟨_ | ⟨line, lineSize⟩, heap⟩
  · rw [hgetline] at hread
    cases hread
  · obtain ⟨htext, hsafe⟩ := h.loaded hphysical.1 hphysical.2 hgetline
    rw [hgetline] at hread
    cases hread
    exact ⟨htext, hsafe, rfl⟩

/-- A line is not read, or it is the last one that is, or the others are read behind it. -/
theorem linesRead_cons_cases (call : ParseCall σ) {physical : List UInt8}
    (unread : List (List UInt8)) {x : Parsing σ} (hphysical : 0 ∉ physical ∧ physical ≠ [])
    (h : Safe x.splitting.line x.lineSize) :
    linesRead call (physical :: unread) x = [] ∨ ∃ y : Parsing σ, LineLoaded physical x y ∧
      (linesRead call (physical :: unread) x = [⟨physical, y.lineNum, y.splitting⟩] ∨
        ∃ ok, ∃ z : Parsing σ, y.splitting.splitString 0 call.delim = .done (ok, z.splitting) ∧
          Safe z.splitting.line z.lineSize ∧ linesRead call (physical :: unread) x =
            ⟨physical, y.lineNum, y.splitting⟩ :: linesRead call unread z) := by
  rw [linesRead]
  cases hread : x.readLine physical with
  | none => exact Or.inl rfl
  | some y =>
    have hloaded := h.readLine hphysical hread
    have hsplitSafe := hloaded.safe.splitString hloaded.text call.delim
    refine Or.inr ⟨y, hloaded, ?_⟩
    simp only
    rcases hsplit : y.splitting.splitString 0 call.delim with ⟨ok, splitting⟩ | _ | _
    · rw [hsplit] at hsplitSafe
      cases hhandle : Parsing.handle call { y with splitting } with
      | none => exact Or.inl (by simp only [hhandle])
      | some z =>
        obtain ⟨rfl, hsize⟩ := Parsing.of_handle hhandle
        exact Or.inr ⟨ok, z, rfl, hsize ▸ hsplitSafe, by simp only [hhandle]⟩
    · exact Or.inl rfl
    · exact Or.inl rfl

/-- Whatever requests for memory fail and whatever the callback returns, each line that is read is
one of the file, and what is left of it is a string in the buffer. -/
theorem linesRead_spec (call : ParseCall σ) {lines : List (List UInt8)}
    (hlines : ∀ line ∈ lines, 0 ∉ line ∧ line ≠ []) :
    ∀ {x : Parsing σ}, Safe x.splitting.line x.lineSize → ∀ read ∈ linesRead call lines x,
      read.physical ∈ lines ∧ read.splitting.line.IsText 0 (stripped read.physical) ∧
        read.splitting.line.strayed = false := by
  induction lines with
  | nil => exact fun _ _ hread ↦ absurd hread List.not_mem_nil
  | cons physical unread ih =>
    intro x h
    obtain ⟨hphysical, hunread⟩ := List.forall_mem_cons.mp hlines
    rcases linesRead_cons_cases call unread hphysical h with
      hnone | ⟨y, hloaded, hlast | ⟨ok, z, -, hsafe, hmore⟩⟩
    · rw [hnone]
      exact List.forall_mem_nil _
    · rw [hlast, List.forall_mem_singleton]
      exact ⟨List.mem_cons_self, hloaded.text, hloaded.safe.unstrayed⟩
    · rw [hmore, List.forall_mem_cons]
      refine ⟨⟨List.mem_cons_self, hloaded.text, hloaded.safe.unstrayed⟩, fun read hread ↦ ?_⟩
      exact (ih hunread hsafe read hread).imp_left (List.mem_cons_of_mem physical)

end Lines

/-! ### Terminators -/

/-- A line without its terminator: `"\r\n"` if it ends so, and else one `"\n"` or `"\r"`. -/
def withoutTerminator (s : List UInt8) : List UInt8 :=
  if [carriageReturn, newline] <:+ s then s.dropLast.dropLast
  else if s.getLast? = some newline ∨ s.getLast? = some carriageReturn then s.dropLast
  else s

/-- What is cut off a line is its terminator, unless it ends in two carriage returns. -/
theorem stripped_eq_withoutTerminator_iff {s : List UInt8} :
    stripped s = withoutTerminator s ↔ ¬ [carriageReturn, carriageReturn] <:+ s := by
  rcases List.eq_nil_or_concat' s with rfl | ⟨t, c, rfl⟩
  · exact iff_of_true rfl (by simp)
  rcases List.eq_nil_or_concat' t with rfl | ⟨u, d, rfl⟩
  · refine iff_of_true ?_ (by simp [List.suffix_cons_iff])
    simp [stripped, withoutTerminator, List.suffix_cons_iff, or_comm]
  have hsuffix : ∀ a b : UInt8, [a, b] <:+ u ++ [d] ++ [c] ↔ d = a ∧ c = b := by
    intro a b
    have hsplit : u ++ [d] ++ [c] = u ++ [d, c] := List.append_assoc ..
    have hall : [] ++ [a, b] <:+ u ++ [d, c] ↔ [] <:+ u ∧ [a, b] = [d, c] :=
      List.suffix_append_inj_of_length_eq rfl
    rw [hsplit, ← List.nil_append [a, b], hall]
    simp [eq_comm]
  have hdrop : (u ++ [d] ++ [c]).dropLast = u ++ [d] := List.dropLast_concat
  have hdrop' : (u ++ [d]).dropLast = u := List.dropLast_concat
  have hshort : u ≠ u ++ [d] := by simp
  unfold stripped withoutTerminator
  simp only [hsuffix, hdrop, hdrop', List.getLast?_concat, Option.some.injEq]
  have hne : carriageReturn ≠ newline := by decide
  by_cases hcr : c = carriageReturn
  · by_cases hd : d = carriageReturn <;> simp [hcr, hd, hne]
  · by_cases hnl : c = newline <;> by_cases hd : d = carriageReturn <;>
      simp [hcr, hnl, hd, hne.symm]

/-- A line ends in a newline, or it is the last one. -/
theorem getLast?_of_physicalLines_eq {s line : List UInt8} {before behind : List (List UInt8)}
    (h : physicalLines s = before ++ line :: behind) :
    line.getLast? = some newline ∨ behind = [] := by
  induction s generalizing before line with
  | nil => exact absurd (congrArg List.length h) (by simp [physicalLines])
  | cons c s ih =>
    rw [physicalLines] at h
    split_ifs at h with hc
    · rcases before with _ | ⟨first, before⟩
      · obtain ⟨rfl, -⟩ := List.cons.inj h
        exact Or.inl (congrArg some hc)
      · exact ih (List.cons.inj h).2
    · cases hlines : physicalLines s with
      | nil =>
        rw [hlines] at h
        rcases before with _ | ⟨first, before⟩
        · exact Or.inr (List.cons.inj h).2.symm
        · exact absurd (congrArg List.length h) (by simp)
      | cons first rest =>
        rw [hlines] at h ih
        rcases before with _ | ⟨first', before⟩
        · obtain ⟨rfl, rfl⟩ := List.cons.inj h
          refine (ih (show first :: rest = [] ++ first :: rest from rfl)).imp_left fun hlast ↦ ?_
          rw [List.getLast?_cons, hlast]
          rfl
        · have hrest : first :: rest = (first :: before) ++ line :: behind :=
            congrArg (List.cons first) (List.cons.inj h).2
          exact ih hrest

/-- A line that does not end in a newline is the end of the file. -/
theorem suffix_of_mem_physicalLines {s line : List UInt8} (h : line ∈ physicalLines s)
    (hlast : line.getLast? ≠ some newline) : line <:+ s := by
  obtain ⟨before, behind, hlines⟩ := List.append_of_mem h
  have hflatten := flatten_physicalLines s
  rw [hlines, (getLast?_of_physicalLines_eq hlines).resolve_left hlast, List.flatten_append,
    List.flatten_singleton] at hflatten
  exact ⟨before.flatten, hflatten⟩

/-- Some line ends in two carriage returns exactly when the file does. -/
theorem exists_suffix_physicalLines_iff {s : List UInt8} :
    (∃ line ∈ physicalLines s, [carriageReturn, carriageReturn] <:+ line) ↔
      [carriageReturn, carriageReturn] <:+ s := by
  constructor
  · rintro ⟨line, hmem, hsuffix⟩
    refine hsuffix.trans (suffix_of_mem_physicalLines hmem ?_)
    obtain ⟨t, rfl⟩ := hsuffix
    rw [List.getLast?_append]
    exact fun heq ↦ absurd (Option.some.inj heq) (by decide)
  · intro hsuffix
    induction s with
    | nil => exact absurd hsuffix (by simp)
    | cons c s ih =>
      rcases List.suffix_cons_iff.mp hsuffix with heq | hsuffix
      · rw [← heq]
        exact ⟨_, List.mem_singleton_self _, List.suffix_rfl⟩
      · obtain ⟨line, hmem, hline⟩ := ih hsuffix
        rw [physicalLines]
        split_ifs
        · exact ⟨line, List.mem_cons_of_mem _ hmem, hline⟩
        · cases hlines : physicalLines s with
          | nil => exact absurd (hlines ▸ hmem) List.not_mem_nil
          | cons first rest =>
            rw [hlines] at hmem
            rcases List.mem_cons.mp hmem with rfl | hmem
            · exact ⟨_, List.mem_cons_self, hline.trans (List.suffix_cons c line)⟩
            · exact ⟨line, List.mem_cons_of_mem _ hmem, hline⟩

/-! ### Calls that read every line -/

namespace Splitting

variable {x : Splitting}

/-- When requests succeed, a token is stored somewhere, however many there are. -/
theorem saveTokenAddr_of_ample (hample : x.heap.Ample)
    (hnone : x.tokens.tokens = none → x.tokens.numOfTokens = x.tokens.maxTokens) (ptr : ℤ) :
    ∃ heap t, saveTokenAddr x ptr = .done (true, ⟨heap, t, x.line⟩) ∧ heap.Ample ∧
      t.tokens ≠ none := by
  unfold saveTokenAddr
  by_cases hfull : x.tokens.numOfTokens = x.tokens.maxTokens
  · simp only [if_pos hfull, Heap.malloc, Heap.realloc, hample.request]
    cases x.tokens.tokens with
    | none => exact ⟨_, _, rfl, hample, Option.some_ne_none _⟩
    | some old => exact ⟨_, _, rfl, hample, Option.some_ne_none _⟩
  · rw [if_neg hfull]
    unfold store
    cases htokens : x.tokens.tokens with
    | none => exact absurd (hnone htokens) hfull
    | some all => exact ⟨_, _, rfl, hample, Option.some_ne_none _⟩

theorem splitLoop_of_ample (delim : List UInt8) (fuel : ℕ) {i : ℤ} {s : List UInt8}
    (h : x.line.IsText i s) (hfuel : s.length < fuel) (hample : x.heap.Ample)
    (hnone : x.tokens.tokens = none → x.tokens.numOfTokens = x.tokens.maxTokens) :
    ∃ y, splitLoop delim fuel x i = .done (true, y) ∧ y.heap.Ample ∧
      (y.tokens.tokens = none → y.tokens = x.tokens) := by
  induction fuel generalizing x i s with
  | zero => omega
  | succ fuel ih =>
    rcases Buffer.strtokR_cases h delim with
      ⟨-, saved, heq⟩ | ⟨start, saved, line, token, rest, heq, hcut⟩
    · rw [splitLoop, heq]
      exact ⟨x, rfl, hample, fun _ ↦ rfl⟩
    · rw [splitLoop, heq]
      obtain ⟨heap, t, hsave, hample', hsome⟩ :=
        saveTokenAddr_of_ample (x := { x with line }) hample hnone start
      obtain ⟨y, hloop, hyample, hynone⟩ := ih (x := ⟨heap, t, line⟩) hcut.restText
        (by have := hcut.shorter; omega) hample' fun hnone ↦ absurd hnone hsome
      simp only [hsave, andThen_done, if_true]
      refine ⟨y, hloop, hyample, fun hynone' ↦ absurd ?_ hsome⟩
      have hsame : y.tokens = t := hynone hynone'
      rw [← hsame]
      exact hynone'

end Splitting

/-- When requests succeed and the callback always returns zero, every line is read. -/
theorem map_physical_linesRead {σ : Type*} {call : ParseCall σ}
    (hfn : ∀ arg n tokens, (call.fn arg call.filename n tokens).1 = 0) {lines : List (List UInt8)}
    (hlines : ∀ line ∈ lines, 0 ∉ line ∧ line ≠ []) :
    ∀ {x : Parsing σ}, Safe x.splitting.line x.lineSize → x.splitting.heap.Ample →
      (x.splitting.tokens.tokens = none → x.splitting.tokens.maxTokens = 0) →
      (linesRead call lines x).map LineRead.physical = lines := by
  induction lines with
  | nil => exact fun _ _ _ ↦ rfl
  | cons physical unread ih =>
    intro x h hample hnone
    obtain ⟨hphysical, hunread⟩ := List.forall_mem_cons.mp hlines
    obtain ⟨line, lineSize, heap, hample', hgetline⟩ :=
      getline_of_ample hample x.splitting.line x.lineSize physical
    obtain ⟨htext, hsafe⟩ := h.loaded hphysical.1 hphysical.2 hgetline
    have hsplitSafe := Safe.splitString
      (x := ⟨heap, x.splitting.tokens, stripTerminator line physical.length⟩) hsafe htext call.delim
    obtain ⟨y, hsplit, hyample, hynone⟩ : ∃ y, Splitting.splitString
        ⟨heap, x.splitting.tokens, stripTerminator line physical.length⟩ 0 call.delim =
          .done (true, y) ∧
        y.heap.Ample ∧ (y.tokens.tokens = none → y.tokens = x.splitting.tokens.clear) :=
      Splitting.splitLoop_of_ample (x := ⟨heap, x.splitting.tokens.clear, _⟩) call.delim _ htext
        (by rw [htext.text_eq]; omega) hample' fun htokens ↦ (hnone htokens).symm
    rw [hsplit] at hsplitSafe
    have hymax : y.tokens.tokens = none → y.tokens.maxTokens = 0 := by
      intro htokens
      have hclear := hynone htokens
      rw [hclear] at htokens ⊢
      exact hnone htokens
    rw [linesRead, Parsing.readLine, hgetline]
    simp only [List.map_cons, hsplit, Parsing.handle]
    split_ifs with hskip hrc
    · rw [ih hunread (x := ⟨y, lineSize, x.lineNum + 1, x.arg⟩) hsplitSafe hyample hymax]
    · exact absurd (hfn ..) hrc
    · rw [ih hunread (x := ⟨y, lineSize, x.lineNum + 1, _⟩) hsplitSafe hyample hymax]

/-! ### The call -/

/-- What is tokenised, at the start of the buffer, is a line of the file without its terminator, and
no access has missed the buffer. -/
structure StripsOne (file : FileContent) (read : LineRead) : Prop where
  physical_mem : read.physical ∈ physicalLines file.bytes
  text : read.splitting.line.IsText 0 (withoutTerminator read.physical)
  unstrayed : read.splitting.line.strayed = false

namespace TextFileParser

variable {σ : Type*} {p : TextFileParser}

/-- What is left of the lines that a call reads. -/
theorem Reached.linesRead_spec (hp : p.Reached) (heap : Heap)
    (fopen : List UInt8 → Option FileContent)
    (call : ParseCall σ) (arg : σ) {file : FileContent} (hfile : fopen call.filename = some file) :
    ∀ read ∈ p.linesRead heap fopen call arg, read.physical ∈ physicalLines file.bytes ∧
      read.splitting.line.IsText 0 (stripped read.physical) ∧
        read.splitting.line.strayed = false := by
  unfold TextFileParser.linesRead
  rcases hbuffer : p.ensureBuffer heap with ⟨_ | line, heap'⟩
  · exact fun _ hread ↦ absurd hread List.not_mem_nil
  · simp only [hfile]
    exact TextFile.linesRead_spec call file.strings_physicalLines
      (x := ⟨⟨heap', .new call.hintSize, line⟩, defaultLineSize, 0, arg⟩)
      (hp.ready.ensureBuffer hbuffer)

/-- The callback of a call is called for the lines that it reads, and for no others. -/
theorem arg_parseLineByLine (p : TextFileParser) (heap : Heap)
    (fopen : List UInt8 → Option FileContent)
    (call : ParseCall σ) (arg : σ) : (p.parseLineByLine heap fopen call arg).state.2.2.2 =
      (call.visit ((p.linesRead heap fopen call arg).filterMap (LineRead.visit call)) arg).2 := by
  have hbuffer : ({ p with fileHandle := none } : TextFileParser).ensureBuffer heap =
      p.ensureBuffer heap := rfl
  unfold parseLineByLine TextFileParser.linesRead
  simp only [hbuffer]
  rcases p.ensureBuffer heap with ⟨_ | line, heap'⟩
  · rfl
  · cases fopen call.filename with
    | none => rfl
    | some file =>
      simp only [state_map]
      exact congrArg Prod.snd (parseLoop_eq_visit call (physicalLines file.bytes)
        ⟨⟨heap', .new call.hintSize, line⟩, defaultLineSize, 0, arg⟩)

/-- A call that reads the whole file. -/
def readAll (delim : List UInt8) : ParseCall Unit where
  filename := []
  fn _ _ _ _ := (0, ())
  delim := delim
  skipEmpty := true
  hintSize := 0

theorem map_physical_readAll (hp : p.Reached) (file : FileContent) (delim : List UInt8) :
    (p.linesRead ampleHeap (fun _ ↦ some file) (readAll delim) ()).map LineRead.physical =
      physicalLines file.bytes := by
  obtain ⟨line, heap', hbuffer, hheap'⟩ := p.ensureBuffer_of_ample ample_ampleHeap
  have hfn : ∀ arg n tokens, ((readAll delim).fn arg (readAll delim).filename n tokens).1 = 0 :=
    fun _ _ _ ↦ rfl
  unfold TextFileParser.linesRead
  simp only [hbuffer]
  exact map_physical_linesRead hfn file.strings_physicalLines
    (x := ⟨⟨heap', .new 0, line⟩, defaultLineSize, 0, ()⟩) (hp.ready.ensureBuffer hbuffer) hheap'
    fun _ ↦ rfl

/-- Every call hands the tokens of the lines that it reads to its callback, and of no others, and it
takes exactly one terminator off each of these lines, unless the file ends in two carriage
returns. -/
theorem strips_iff (hp : p.Reached) (file : FileContent) (delim : List UInt8) :
    (∀ (σ : Type) (heap : Heap) (fopen : List UInt8 → Option FileContent) (call : ParseCall σ)
      (arg : σ),
        call.delim = delim → fopen call.filename = some file →
        (p.parseLineByLine heap fopen call arg).state.2.2.2 =
            (call.visit ((p.linesRead heap fopen call arg).filterMap (LineRead.visit call)) arg).2 ∧
          ∀ read ∈ p.linesRead heap fopen call arg, StripsOne file read) ↔
      ¬ [carriageReturn, carriageReturn] <:+ file.bytes := by
  rw [← exists_suffix_physicalLines_iff]
  constructor
  · rintro hstrips ⟨line, hline, hsuffix⟩
    rw [← map_physical_readAll hp file delim] at hline
    obtain ⟨read, hread, rfl⟩ := List.mem_map.mp hline
    obtain ⟨-, htext, -⟩ :=
      hp.linesRead_spec ampleHeap (fun _ ↦ some file) (readAll delim) () rfl read hread
    have hstripped := ((hstrips Unit ampleHeap _ (readAll delim) () rfl rfl).2 read hread).text
    refine stripped_eq_withoutTerminator_iff.mp ?_ hsuffix
    rw [← htext.text_eq, hstripped.text_eq]
  · intro hnone σ heap fopen call arg _ hfile
    refine ⟨p.arg_parseLineByLine heap fopen call arg, fun read hread ↦ ?_⟩
    obtain ⟨hmem, htext, hstrayed⟩ := hp.linesRead_spec heap fopen call arg hfile read hread
    refine ⟨hmem, ?_, hstrayed⟩
    rw [← stripped_eq_withoutTerminator_iff.mpr fun hsuffix ↦ hnone ⟨_, hmem, hsuffix⟩]
    exact htext

/-- The file `x\r`. -/
def oneReturn : FileContent := ⟨[120, 13], by decide, by decide⟩

/-- The file `x\r\r`. -/
def twoReturns : FileContent := ⟨[120, 13, 13], by decide, by decide⟩

/-- One carriage return at the end of a file is a terminator. -/
theorem strips_iff_one : (∀ (σ : Type) (heap : Heap) (fopen : List UInt8 → Option FileContent)
      (call : ParseCall σ) (arg : σ), call.delim = [] → fopen call.filename = some oneReturn →
        (new.parseLineByLine heap fopen call arg).state.2.2.2 =
            (call.visit ((new.linesRead heap fopen call arg).filterMap (LineRead.visit call))
              arg).2 ∧
          ∀ read ∈ new.linesRead heap fopen call arg, StripsOne oneReturn read) ↔
      ¬ [carriageReturn, carriageReturn] <:+ oneReturn.bytes :=
  strips_iff .new oneReturn []

/-- Of `x\r\r`, both carriage returns are cut off: what is tokenised is `x`, and not `x\r`. -/
theorem not_strips_two :
    ∃ read ∈ new.linesRead ampleHeap (fun _ ↦ some twoReturns) (readAll []) (),
      read.physical = [120, 13, 13] ∧ read.splitting.line.text 0 = [120] ∧
        withoutTerminator read.physical = [120, 13] ∧ ¬ StripsOne twoReturns read := by
  have hall := map_physical_readAll (p := new) .new twoReturns []
  have hlines : physicalLines twoReturns.bytes = [[120, 13, 13]] := by decide
  rw [hlines] at hall
  obtain ⟨read, hread, hphysical⟩ := List.mem_map.mp (hall ▸ List.mem_singleton_self [120, 13, 13])
  obtain ⟨-, htext, -⟩ :=
    Reached.new.linesRead_spec ampleHeap (fun _ ↦ some twoReturns) (readAll []) () rfl read hread
  have hone : withoutTerminator read.physical = [120, 13] := by
    rw [hphysical]
    decide
  have hx : read.splitting.line.text 0 = [120] := by
    rw [htext.text_eq, hphysical]
    decide
  refine ⟨read, hread, hphysical, hx, hone, fun hstrips ↦ ?_⟩
  have htext' := hstrips.text.text_eq
  rw [hx, hone] at htext'
  exact absurd (congrArg List.length htext') (by decide)

end TextFileParser

end Nebula.TextFile
