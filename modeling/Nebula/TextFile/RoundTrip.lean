import Nebula.TextFile.Parser

/-!
Files that are written as rows of tokens. In a row there are delimiters between any two tokens, and
there may be some in front of the first token and behind the last, as there is when the line ends in
a carriage return. `parse_written` reads such a file back: the callback is called for the rows, with
their numbers and exactly their tokens.
-/

set_option autoImplicit false
set_option relaxedAutoImplicit false

namespace Nebula.TextFile

open Nebula.Library

variable {delim : List UInt8}

/-! ### Rows -/

structure Token (delim : List UInt8) where
  bytes : List UInt8
  ne_nil : bytes ≠ []
  free : ∀ c ∈ bytes, c ∉ delim

/-- What stands between two tokens of a row. -/
structure Gap (delim : List UInt8) where
  bytes : List UInt8
  delims : ∀ c ∈ bytes, c ∈ delim
  notMem_newline : newline ∉ bytes

/-- A row: tokens, each with the gap behind it. -/
structure Row (delim : List UInt8) where
  lead : Gap delim
  fields : List (Token delim × Gap delim)
  apart : ∀ field ∈ fields.dropLast, field.2.bytes ≠ []

namespace Row

def tokens (row : Row delim) : List (List UInt8) := row.fields.map fun field ↦ field.1.bytes

/-- The line, without its newline. -/
def text (row : Row delim) : List UInt8 :=
  row.lead.bytes ++ spread (row.fields.map fun field ↦ (field.1.bytes, field.2.bytes))

theorem runs_text (row : Row delim) : runs (fun c ↦ delim.contains c) row.text = row.tokens := by
  rw [text, runs_append_of_seps fun c hc ↦ by simpa using row.lead.delims c hc, runs_spread]
  · rw [List.map_map]
    rfl
  · intro field hfield
    obtain ⟨field, -, rfl⟩ := List.mem_map.mp hfield
    exact ⟨field.1.ne_nil, fun c hc ↦ by simpa using field.1.free c hc⟩
  · intro field hfield
    obtain ⟨field, -, rfl⟩ := List.mem_map.mp hfield
    exact fun c hc ↦ by simpa using field.2.delims c hc
  · intro field hfield
    rw [← List.map_dropLast] at hfield
    obtain ⟨field, hmem, rfl⟩ := List.mem_map.mp hfield
    exact row.apart field hmem

theorem notMem_newline (row : Row delim) (hnl : newline ∈ delim) : newline ∉ row.text := by
  intro hmem
  rcases List.mem_append.mp hmem with hmem | hmem
  · exact row.lead.notMem_newline hmem
  · obtain ⟨field, hfield, hmem⟩ := List.mem_flatMap.mp hmem
    obtain ⟨field, -, rfl⟩ := List.mem_map.mp hfield
    rcases List.mem_append.mp hmem with hmem | hmem
    · exact field.1.free newline hmem hnl
    · exact field.2.notMem_newline hmem

end Row

/-! ### Files -/

/-- A file of rows, of which the last may not be terminated. -/
def written (rows : List (Row delim)) (last : Option (Row delim)) : List UInt8 :=
  (rows.flatMap fun row ↦ row.text ++ [newline]) ++ last.elim [] Row.text

theorem physicalLines_written (hnl : newline ∈ delim) (rows : List (Row delim))
    (last : Option (Row delim)) (hlast : ∀ row ∈ last, row.text ≠ []) :
    physicalLines (written rows last) =
      (rows.map fun row ↦ row.text ++ [newline]) ++ last.toList.map Row.text := by
  induction rows with
  | nil =>
    cases last with
    | none => rfl
    | some row => exact physicalLines_of_not_mem (row.notMem_newline hnl) (hlast row rfl)
  | cons row rows ih =>
    have hcons : written (row :: rows) last = row.text ++ newline :: written rows last := by
      simp [written]
    rw [hcons, physicalLines_append (row.notMem_newline hnl), ih]
    rfl

/-- The rows with their numbers, as they are to be visited. -/
def rowVisits (skipEmpty : Bool) (rows : List (Row delim)) : List (ℕ × List (List UInt8)) :=
  ((rows.zipIdx 1).map fun row ↦ (row.2, row.1.tokens)).filter
    fun visit ↦ !(skipEmpty && visit.2.isEmpty)

/-- The runs of the lines are the tokens of the rows. -/
theorem map_runs_written (hnl : newline ∈ delim) (rows : List (Row delim))
    (last : Option (Row delim)) (hlast : ∀ row ∈ last, row.text ≠ []) :
    (physicalLines (written rows last)).map (runs fun c ↦ delim.contains c) =
      (rows ++ last.toList).map Row.tokens := by
  rw [physicalLines_written hnl rows last hlast, List.map_append, List.map_append, List.map_map,
    List.map_map]
  congr 1
  · refine List.map_congr_left fun row _ ↦ ?_
    rw [Function.comp_apply, runs_concat (by simpa using hnl), row.runs_text]
  · exact List.map_congr_left fun row _ ↦ row.runs_text

theorem visits_written (hnl : newline ∈ delim) (skipEmpty : Bool) (rows : List (Row delim))
    (last : Option (Row delim)) (hlast : ∀ row ∈ last, row.text ≠ []) :
    visits delim skipEmpty (written rows last) = rowVisits skipEmpty (rows ++ last.toList) := by
  have hrows := map_runs_written hnl rows last hlast
  have hnumbered := congrArg (fun lines ↦ (List.zipIdx lines 1).map Prod.swap) hrows
  simp only [List.zipIdx_map, List.map_map] at hnumbered
  unfold visits visitsFrom rowVisits
  exact congrArg _ hnumbered

/-- A file of rows is read back: the callback is called for one row after the other, those without
tokens excepted when they are skipped, until it returns a nonzero value. -/
theorem TextFileParser.parse_written {σ : Type*} {p : TextFileParser} (hp : p.Reached) {heap : Heap}
    (hheap : heap.Ample) (fopen : List UInt8 → Option FileContent) (call : ParseCall σ) (arg : σ)
    (hcr : carriageReturn ∈ call.delim) (hnl : newline ∈ call.delim)
    (hhint : call.hintSize.toNat < 2 ^ 31) (rows : List (Row call.delim))
    (last : Option (Row call.delim)) (hlast : ∀ row ∈ last, row.text ≠ []) (file : FileContent)
    (hfile : fopen call.filename = some file) (hbytes : file.bytes = written rows last)
    (hcount : ∀ row ∈ rows ++ last.toList, row.fields.length < 2 ^ 31) :
    ∃ rc p' heap' arg', p.parseLineByLine heap fopen call arg = .done (rc, p', heap', arg') ∧
      (rc, arg') = call.visit (rowVisits call.skipEmpty (rows ++ last.toList)) arg := by
  have htokens : ∀ file', fopen call.filename = some file' →
      ∀ line ∈ physicalLines file'.bytes,
        (runs (fun c ↦ call.delim.contains c) line).length < 2 ^ 31 := by
    intro file' hfile' line hline
    cases hfile.symm.trans hfile'
    have hmem := List.mem_map_of_mem (f := runs fun c ↦ call.delim.contains c) hline
    rw [hbytes, map_runs_written hnl rows last hlast] at hmem
    obtain ⟨row, hrow, heq⟩ := List.mem_map.mp hmem
    rw [← heq, Row.tokens, List.length_map]
    exact hcount row hrow
  obtain ⟨rc, p', heap', arg', hdone, hvisit⟩ :=
    parseLineByLine_visits hp hheap fopen call arg hcr hnl hhint htokens
  refine ⟨rc, p', heap', arg', hdone, ?_⟩
  rw [hvisit, hfile]
  simp only
  rw [hbytes, visits_written hnl call.skipEmpty rows last hlast]

namespace TextFileParser

def noGap : Gap untilD.delim := ⟨[], by simp, by decide⟩

def spaces : Gap untilD.delim := ⟨[32, 32], by simp [untilD], by decide⟩

def cr : Gap untilD.delim := ⟨[carriageReturn], by simp [untilD, carriageReturn], by decide⟩

def letter (c : UInt8) (hc : c ∉ untilD.delim) : Token untilD.delim :=
  ⟨[c], by simp, by simpa using hc⟩

/-- The rows `a b` and one without tokens. -/
def terminatedRows : List (Row untilD.delim) :=
  [⟨noGap, [(letter 97 (by decide), spaces), (letter 98 (by decide), cr)], by decide⟩,
    ⟨spaces, [], by decide⟩]

/-- The row `c`, which ends with the file. -/
def lastRow : Row untilD.delim := ⟨spaces, [(letter 99 (by decide), noGap)], by decide⟩

def threeRows : FileContent := ⟨written terminatedRows (some lastRow), by decide, by decide⟩

theorem parse_written_threeRows : ∃ rc p' heap' arg',
    new.parseLineByLine ampleHeap (fun _ ↦ some threeRows) untilD [] = .done (rc, p', heap', arg') ∧
      rc = 0 ∧ arg' = [(1, [[97], [98]]), (3, [[99]])] := by
  obtain ⟨rc, p', heap', arg', hdone, hvisit⟩ := parse_written .new
    ample_ampleHeap (fun _ ↦ some threeRows) untilD [] (by decide)
    (by decide) (by decide) terminatedRows (some lastRow) (by
      rintro row ⟨⟩
      decide) threeRows rfl rfl (by decide)
  have hcalls : untilD.visit (rowVisits untilD.skipEmpty (terminatedRows ++ [lastRow])) [] =
      (0, [(1, [[97], [98]]), (3, [[99]])]) := by decide
  have hresult : (rc, arg') = (0, [(1, [[97], [98]]), (3, [[99]])]) := hvisit.trans hcalls
  exact ⟨rc, p', heap', arg', hdone, congrArg Prod.fst hresult, congrArg Prod.snd hresult⟩

end TextFileParser

end Nebula.TextFile
