import Nebula.Strings.Strlcat

/-!
A string that is put together in an array of `siz` bytes, by `strlcpy` for its first part and
`strlcat` for the others. `built_concatenate` says what the comments at the two functions promise,
for the whole sequence: the string is cut off after `siz - 1` bytes, and the results tell whether
that has happened.
-/

set_option autoImplicit false
set_option relaxedAutoImplicit false

namespace Nebula.Strings

open Nebula.Library

/-- `strlcat` for the next part; the results so far, and the array. -/
def appendPart (siz : ℕ) (x : List ℕ × Buffer UInt8) (part : List UInt8) : List ℕ × Buffer UInt8 :=
  let (results, dst) := x
  let (result, dst) := strlcatTo dst part siz
  (results ++ [result], dst)

/-- The results of all calls, and the array afterwards. -/
def concatenate (dst : Buffer UInt8) (first : List UInt8) (rest : List (List UInt8)) (siz : ℕ) :
    List ℕ × Buffer UInt8 :=
  let (result, dst) := strlcpyTo dst first siz
  rest.foldl (appendPart siz) ([result], dst)

/-- The string has been put into the array as far as it fits, and the results tell whether it
does. -/
structure Built (dst : Buffer UInt8) (whole : List UInt8) (siz : ℕ) (results : List ℕ)
    (dst' : Buffer UInt8) : Prop where
  text : dst'.IsText 0 (whole.take (siz - 1))
  size : dst'.size = dst.size
  strayed : dst'.strayed = dst.strayed
  truncated : (∃ result ∈ results, siz ≤ result) ↔ siz ≤ whole.length
  length : whole.length < siz → results.getLast? = some whole.length

variable {dst dst' : Buffer UInt8} {first whole part : List UInt8} {siz : ℕ} {results : List ℕ}

theorem built_strlcpyTo (hsiz : 0 < siz) (hroom : siz ≤ dst.size) (hfirst : 0 ∉ first) :
    Built dst first siz [(strlcpyTo dst first siz).1] (strlcpyTo dst first siz).2 := by
  obtain ⟨hresult, htext, hsize, hstrayed⟩ := strlcpyTo_spec hsiz hroom hfirst
  refine ⟨htext, hsize, hstrayed, ?_, fun _ ↦ congrArg some hresult⟩
  simp only [hresult, List.mem_singleton, exists_eq_left]

/-- Once the string has been cut off, nothing is appended any more, and the results say so. -/
theorem Built.append (h : Built dst whole siz results dst') (hsiz : 0 < siz)
    (hroom : siz ≤ dst.size) (hpart : 0 ∉ part) :
    Built dst (whole ++ part) siz (results ++ [(strlcatTo dst' part siz).1])
      (strlcatTo dst' part siz).2 := by
  have hlength : (whole.take (siz - 1)).length < siz := by
    rw [List.length_take]
    omega
  obtain ⟨hresult, htext, hsize, hstrayed⟩ :=
    strlcatTo_spec h.text hlength (h.size.symm ▸ hroom) hpart
  refine ⟨?_, hsize.trans h.size, hstrayed.trans h.strayed, ?_, fun hfits ↦ ?_⟩
  · rw [List.take_append]
    have hleft : siz - (whole.take (siz - 1)).length - 1 = siz - 1 - whole.length := by
      rw [List.length_take]
      omega
    rwa [hleft] at htext
  · rw [hresult, List.length_append, List.length_take]
    simp only [List.mem_append, List.mem_singleton, or_and_right, exists_or, h.truncated,
      exists_eq_left]
    omega
  · rw [List.length_append] at hfits
    rw [List.getLast?_concat, hresult, List.length_append, List.take_of_length_le (by omega)]

theorem Built.foldl {rest : List (List UInt8)} {x : List ℕ × Buffer UInt8}
    (h : Built dst whole siz x.1 x.2) (hsiz : 0 < siz) (hroom : siz ≤ dst.size)
    (hrest : ∀ part ∈ rest, 0 ∉ part) :
    Built dst (whole ++ rest.flatten) siz (rest.foldl (appendPart siz) x).1
      (rest.foldl (appendPart siz) x).2 := by
  induction rest generalizing whole x with
  | nil =>
    rw [List.flatten_nil, List.append_nil]
    exact h
  | cons part rest ih =>
    rw [List.flatten_cons, ← List.append_assoc]
    have hpart : Built dst (whole ++ part) siz (appendPart siz x part).1
        (appendPart siz x part).2 :=
      h.append hsiz hroom (hrest part List.mem_cons_self)
    exact ih hpart fun part' hmem ↦ hrest part' (List.mem_cons_of_mem part hmem)

/-- For every array of `siz` bytes and all parts: the array holds the parts one behind the other, up
to `siz - 1` bytes of them, with a NUL behind; nothing has been stored next to the array; some
result is `siz` or more exactly if the string has been cut off, and otherwise the last result is its
length. -/
theorem built_concatenate (dst : Buffer UInt8) (first : List UInt8) (rest : List (List UInt8))
    (hsiz : 0 < siz) (hroom : siz ≤ dst.size) (hparts : ∀ part ∈ first :: rest, 0 ∉ part) :
    Built dst (first ++ rest.flatten) siz (concatenate dst first rest siz).1
      (concatenate dst first rest siz).2 :=
  (built_strlcpyTo hsiz hroom (hparts first List.mem_cons_self)).foldl hsiz hroom
    fun part hmem ↦ hparts part (List.mem_cons_of_mem first hmem)

/-- An array of four bytes. -/
def fourBytes : Buffer UInt8 := .calloc 4 0 fun _ ↦ 0

/-- `"ab"`, `"c"` and `"de"`. -/
def abcde : List ℕ × Buffer UInt8 := concatenate fourBytes [97, 98] [[99], [100, 101]] 4

theorem built_concatenate_abcde :
    abcde.1 = [2, 3, 5] ∧ Built fourBytes [97, 98, 99, 100, 101] 4 abcde.1 abcde.2 :=
  ⟨by decide +kernel, built_concatenate fourBytes [97, 98] [[99], [100, 101]] (by decide)
    (by decide) (by decide)⟩

end Nebula.Strings
