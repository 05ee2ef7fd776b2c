import Nebula.Library.Runs
import Nebula.Library.Slice

/-!
Strings in a block of bytes, each up to the NUL behind it. `IsText b i s` says that the string at
index `i` of the block is `s`, and `text` reads it (`IsText.text_eq`). `store` puts a string into
the block, and a NUL that is written into a string cuts it off there (`IsText.cut`).

`strtokR` takes a string apart in place: `strtokR_cases` says that it finds the first run of the
string that is free of separators, makes a string of it, and leaves the rest of the string for the
next call.
-/

set_option autoImplicit false
set_option relaxedAutoImplicit false

namespace Nebula.Library.Buffer

/-- At most `count` bytes from an index on, up to the first NUL. -/
def read (b : Buffer UInt8) : ℕ → ℤ → List UInt8
  | 0, _ => []
  | count + 1, i => if b.cell i = 0 then [] else b.cell i :: read b count (i + 1)

/-- The string at an index. -/
def text (b : Buffer UInt8) (i : ℤ) : List UInt8 := b.read (b.size - i).toNat i

/-- Store a string and the NUL behind it. -/
def store : Buffer UInt8 → ℤ → List UInt8 → Buffer UInt8
  | b, i, [] => b.write i 0
  | b, i, c :: s => store (b.write i c) (i + 1) s

/-- `snprintf`, into the block from an index on: at most `size - 1` bytes of the text are stored,
and a NUL behind them, and the length of the whole text is returned. -/
def snprintf (b : Buffer UInt8) (i : ℤ) (size : ℕ) (text : List UInt8) : ℤ × Buffer UInt8 :=
  (text.length, if size = 0 then b else b.store i (text.take (size - 1)))

/-- The string at an index lies in the block and has the given bytes. -/
def IsText (b : Buffer UInt8) : ℤ → List UInt8 → Prop
  | i, [] => b.InBounds i ∧ b.cell i = 0
  | i, c :: s => (b.InBounds i ∧ b.cell i = c ∧ c ≠ 0) ∧ IsText b (i + 1) s

/-- `strtok_r`, called for the string at an index: the token that is found, where the next call goes
on, and the block afterwards. -/
def strtokR (b : Buffer UInt8) (i : ℤ) (delim : List UInt8) : Option ℤ × ℤ × Buffer UInt8 :=
  let s := b.text i
  let rest := s.dropWhile fun c ↦ delim.contains c
  let start := i + (s.length - rest.length : ℕ)
  if rest.isEmpty then (none, start, b)
  else
    let token := rest.takeWhile fun c ↦ !delim.contains c
    let stop := start + token.length
    if token.length = rest.length then (some start, stop, b)
    else (some start, stop + 1, b.write stop 0)

variable {b b' : Buffer UInt8} {i : ℤ} {s t : List UInt8}

namespace IsText

theorem bounds (h : b.IsText i s) : 0 ≤ i ∧ i + s.length < b.size := by
  induction s generalizing i with
  | nil =>
    obtain ⟨⟨hi, hlt⟩, -⟩ := h
    exact ⟨hi, by simpa using hlt⟩
  | cons c s ih =>
    have := (ih h.2).2
    rw [List.length_cons]
    push_cast
    exact ⟨h.1.1.1, by omega⟩

theorem text_eq (h : b.IsText i s) : b.text i = s := by
  have hread : ∀ (s : List UInt8) (i : ℤ) (count : ℕ), b.IsText i s → s.length < count →
      b.read count i = s := by
    intro s
    induction s with
    | nil =>
      intro i count h hcount
      obtain ⟨count, rfl⟩ := Nat.exists_eq_succ_of_ne_zero (show count ≠ 0 by simp at hcount; omega)
      rw [read, if_pos h.2]
    | cons c s ih =>
      intro i count h hcount
      rw [List.length_cons] at hcount
      obtain ⟨count, rfl⟩ := Nat.exists_eq_succ_of_ne_zero (show count ≠ 0 by omega)
      obtain ⟨⟨-, hcell, hc⟩, hs⟩ := h
      rw [read, hcell, if_neg hc, ih (i + 1) count hs (by omega)]
  have := h.bounds
  exact hread s i _ h (by omega)

/-- A string depends on its own bytes only. -/
theorem congr (h : b.IsText i s) (hsize : b'.size = b.size)
    (hcell : ∀ j, i ≤ j → j ≤ i + s.length → b'.cell j = b.cell j) : b'.IsText i s := by
  induction s generalizing i with
  | nil =>
    refine ⟨⟨h.1.1, hsize ▸ h.1.2⟩, ?_⟩
    rw [hcell i le_rfl (by simp)]
    exact h.2
  | cons c s ih =>
    rw [List.length_cons] at hcell
    push_cast at hcell
    refine ⟨⟨⟨h.1.1.1, hsize ▸ h.1.1.2⟩, ?_, h.1.2.2⟩, ih h.2 fun j hj hj' ↦ hcell j ?_ ?_⟩
    · rw [hcell i le_rfl (by omega)]
      exact h.1.2.1
    · omega
    · omega

/-- The end of a string is a string. -/
theorem drop (h : b.IsText i (s ++ t)) : b.IsText (i + s.length) t := by
  induction s generalizing i with
  | nil => simpa using h
  | cons c s ih =>
    have hs := ih h.2
    rw [List.length_cons]
    push_cast
    rwa [add_assoc, add_comm 1] at hs

/-- A string that lies where another one has ended continues it. -/
theorem append (h : b.IsText i s) (hsize : b'.size = b.size)
    (hcell : ∀ j, i ≤ j → j < i + s.length → b'.cell j = b.cell j)
    (ht : b'.IsText (i + s.length) t) : b'.IsText i (s ++ t) := by
  induction s generalizing i with
  | nil => simpa using ht
  | cons c s ih =>
    rw [List.length_cons] at hcell ht
    push_cast at hcell ht
    rw [add_comm (s.length : ℤ), ← add_assoc] at ht
    refine ⟨⟨⟨h.1.1.1, hsize ▸ h.1.1.2⟩, ?_, h.1.2.2⟩, ih h.2 (fun j hj hlt ↦ ?_) ht⟩
    · rw [hcell i le_rfl (by omega)]
      exact h.1.2.1
    · exact hcell j (by omega) (by omega)

/-- A NUL that is written into a string cuts it off. -/
theorem cut {c : UInt8} (h : b.IsText i (s ++ c :: t)) :
    (b.write (i + s.length) 0).IsText i s := by
  induction s generalizing i with
  | nil =>
    have hcell : (b.write (i + ([] : List UInt8).length) 0).cell i = 0 := by
      rw [cell_write, if_pos (by simp)]
    exact ⟨h.1.1, hcell⟩
  | cons d s ih =>
    have hs := ih h.2
    rw [List.length_cons]
    push_cast
    rw [add_assoc, add_comm 1] at hs
    refine ⟨⟨h.1.1, ?_, h.1.2.2⟩, hs⟩
    rw [cell_write, if_neg (by omega)]
    exact h.1.2.1

/-- A NUL that is written where the rest of a string starts, even if there is no rest. -/
theorem take (h : b.IsText i (s ++ t)) : (b.write (i + s.length) 0).IsText i s := by
  cases t with
  | cons c t => exact h.cut
  | nil =>
    have hend := h.drop.2
    rw [List.append_nil] at h
    refine h.congr (size_write ..) fun j _ _ ↦ ?_
    rw [cell_write]
    split_ifs with heq
    · rw [heq, hend]
    · rfl

end IsText

/-! ### Storing a string -/

theorem size_store (b : Buffer UInt8) (i : ℤ) (s : List UInt8) : (b.store i s).size = b.size := by
  induction s generalizing b i with
  | nil => rfl
  | cons c s ih => exact ih (b.write i c) (i + 1)

theorem cell_store_of_lt (b : Buffer UInt8) (s : List UInt8) {i j : ℤ} (h : j < i) :
    (b.store i s).cell j = b.cell j := by
  induction s generalizing b i with
  | nil => rw [store, cell_write, if_neg (by omega)]
  | cons c s ih => rw [store, ih _ (by omega), cell_write, if_neg (by omega)]

theorem strayed_store {b : Buffer UInt8} {i : ℤ} {s : List UInt8} (hi : 0 ≤ i)
    (hroom : i + s.length < b.size) : (b.store i s).strayed = b.strayed := by
  induction s generalizing b i with
  | nil => exact strayed_write_of_inBounds ⟨hi, by simpa using hroom⟩ 0
  | cons c s ih =>
    rw [List.length_cons] at hroom
    push_cast at hroom
    rw [store, ih (by omega) (by rw [size_write]; omega)]
    exact strayed_write_of_inBounds ⟨hi, by omega⟩ c

/-- A string that is stored behind another one takes the place of the NUL. -/
theorem store_store (b : Buffer UInt8) (i : ℤ) (s t : List UInt8) :
    (b.store i s).store (i + s.length) t = b.store i (s ++ t) := by
  induction s generalizing b i with
  | nil =>
    have hstart : i + (([] : List UInt8).length : ℤ) = i := add_zero i
    rw [hstart]
    cases t with
    | nil => exact write_write ..
    | cons c t => exact congrArg (fun b : Buffer UInt8 ↦ b.store (i + 1) t) (write_write ..)
  | cons c s ih =>
    have hnext : i + ((c :: s).length : ℤ) = i + 1 + s.length := by
      rw [List.length_cons]
      push_cast
      omega
    rw [hnext]
    exact ih (b.write i c) (i + 1)

/-- The bytes of a string that has been stored. -/
theorem slice_store (b : Buffer UInt8) (i : ℤ) {s : List UInt8} {n : ℕ} (hn : n ≤ s.length) :
    (b.store i s).slice i (i + n) = s.take n := by
  induction n generalizing b i s with
  | zero => exact slice_eq_nil (by omega)
  | succ n ih =>
    cases s with
    | nil => exact absurd hn (Nat.not_succ_le_zero n)
    | cons c s =>
      have hend : i + ((n + 1 : ℕ) : ℤ) = i + 1 + n := by push_cast; omega
      rw [slice_eq_cons (by omega), hend, store,
        ih (b.write i c) (i + 1) (Nat.le_of_succ_le_succ hn),
        cell_store_of_lt _ _ (by omega), cell_write, if_pos rfl, List.take_succ_cons]

theorem isText_store (b : Buffer UInt8) {i : ℤ} {s : List UInt8} (hi : 0 ≤ i)
    (hroom : i + s.length < b.size) (hs : 0 ∉ s) :
    (b.store i s).IsText i s ∧ (b.store i s).strayed = b.strayed := by
  induction s generalizing b i with
  | nil =>
    have hbounds : b.InBounds i := ⟨hi, by simpa using hroom⟩
    refine ⟨⟨hbounds, ?_⟩, strayed_write_of_inBounds hbounds 0⟩
    rw [store, cell_write, if_pos rfl]
  | cons c s ih =>
    rw [List.length_cons] at hroom
    push_cast at hroom
    obtain ⟨hc, hs⟩ : 0 ≠ c ∧ 0 ∉ s := by simpa using hs
    have hbounds : b.InBounds i := ⟨hi, by omega⟩
    have hroom' : i + 1 + s.length < (b.write i c).size := by
      rw [size_write]
      omega
    obtain ⟨htext, hstrayed⟩ := ih (b.write i c) (by omega) hroom' hs
    refine ⟨⟨⟨?_, ?_, hc.symm⟩, htext⟩, hstrayed.trans (strayed_write_of_inBounds hbounds c)⟩
    · rw [InBounds, size_store]
      exact hbounds
    · rw [store, cell_store_of_lt _ _ (by omega), cell_write, if_pos rfl]

/-! ### Formatting -/

/-- The part of a text that fits is stored with a NUL behind it. -/
theorem isText_snprintf (b : Buffer UInt8) {size : ℕ} (hsize : b.size = size) (hpos : 0 < size)
    (hs : 0 ∉ s) :
    (b.snprintf 0 size s).2.size = size ∧ (b.snprintf 0 size s).2.IsText 0 (s.take (size - 1)) ∧
      (b.snprintf 0 size s).2.strayed = b.strayed := by
  have hfits : (0 : ℤ) + (s.take (size - 1)).length < b.size := by
    rw [List.length_take]
    omega
  have hstored : (b.snprintf 0 size s).2 = b.store 0 (s.take (size - 1)) := if_neg hpos.ne'
  rw [hstored]
  exact ⟨(size_store ..).trans hsize,
    isText_store b le_rfl hfits fun h ↦ hs (List.mem_of_mem_take h)⟩

/-- Two texts that are formatted one behind the other. -/
theorem snprintf_snprintf (b : Buffer UInt8) {size : ℕ} (hs : s.length < size) (t : List UInt8) :
    ((b.snprintf 0 size s).2.snprintf s.length ((size : ℤ) - s.length).toNat t).2 =
      b.store 0 ((s ++ t).take (size - 1)) := by
  have hsize : size ≠ 0 := by omega
  have hroom : ((size : ℤ) - s.length).toNat = size - s.length := by omega
  have hroom' : size - s.length ≠ 0 := by omega
  have hstart : (s.length : ℤ) = 0 + s.length := (zero_add _).symm
  have hall : s.take (size - 1) = s := List.take_of_length_le (by omega)
  have hrest : size - 1 - s.length = size - s.length - 1 := by omega
  simp only [snprintf, if_neg hsize, hroom, if_neg hroom']
  rw [hall, hstart, store_store, List.take_append, hall, hrest]

/-! ### Taking a string apart -/

/-- The first run of a string has become a string of its own, and the rest of the string is where
the next call goes on. -/
structure Cut (sep : UInt8 → Bool) (b : Buffer UInt8) (i : ℤ) (s : List UInt8) (b' : Buffer UInt8)
    (start saved : ℤ) (token rest : List UInt8) : Prop where
  runs_eq : runs sep s = token :: runs sep rest
  shorter : rest.length < s.length
  tokenText : b'.IsText start token
  restText : b'.IsText saved rest
  le_start : i ≤ start
  le_saved : start + token.length ≤ saved
  size_eq : b'.size = b.size
  strayed_eq : b'.strayed = b.strayed
  frame : ∀ j ≤ i, b'.cell j = b.cell j

/-- A list without the separators in front of it is empty or starts with a run. -/
theorem takeWhile_dropWhile_ne_nil {sep : UInt8 → Bool} (h : s.dropWhile sep ≠ []) :
    (s.dropWhile sep).takeWhile (fun c ↦ !sep c) ≠ [] := by
  have hhead := List.head_dropWhile_not sep h
  obtain ⟨c, l, hl⟩ := List.exists_cons_of_ne_nil h
  simp only [hl, List.head_cons] at hhead
  rw [hl, List.takeWhile_cons_of_pos (by simp [hhead])]
  exact List.cons_ne_nil _ _

variable {sep : UInt8 → Bool} {seps token rest : List UInt8} {c : UInt8}

/-- The last run of a string: the NUL behind the string ends it. -/
theorem cut_last (h : b.IsText i (seps ++ token)) (htoken : token ≠ [])
    (hruns : runs sep (seps ++ token) = [token]) :
    Cut sep b i (seps ++ token) b (i + seps.length) (i + seps.length + token.length) token [] where
  runs_eq := by rw [hruns, runs_nil]
  shorter := List.length_pos_iff.mpr (List.append_ne_nil_of_right_ne_nil seps htoken)
  tokenText := h.drop
  restText := IsText.drop (by rw [List.append_nil]; exact h.drop)
  le_start := by omega
  le_saved := le_rfl
  size_eq := rfl
  strayed_eq := rfl
  frame _ _ := rfl

/-- Any other run: a NUL takes the place of the separator behind it. -/
theorem cut_first (h : b.IsText i (seps ++ (token ++ c :: rest))) (htoken : token ≠ [])
    (hruns : runs sep (seps ++ (token ++ c :: rest)) = token :: runs sep rest) :
    Cut sep b i (seps ++ (token ++ c :: rest)) (b.write (i + seps.length + token.length) 0)
      (i + seps.length) (i + seps.length + token.length + 1) token rest := by
  have hstop : b.IsText (i + seps.length + token.length) (c :: rest) := h.drop.drop
  have hpos := List.length_pos_iff.mpr htoken
  refine ⟨hruns, ?_, h.drop.cut, ?_, by omega, by omega, rfl, strayed_write_of_inBounds hstop.1.1 0,
    fun j hj ↦ ?_⟩
  · simp only [List.length_append, List.length_cons]
    omega
  · refine hstop.2.congr rfl fun j hj _ ↦ ?_
    rw [cell_write, if_neg (by omega)]
  · rw [cell_write, if_neg (by omega)]

/-- `strtokR`, in terms of the separators in front of the first run and of what is behind them. -/
theorem strtokR_eq {delim : List UInt8} (h : b.IsText i (seps ++ t))
    (ht : (seps ++ t).dropWhile (fun c ↦ delim.contains c) = t) :
    b.strtokR i delim = if t.isEmpty then (none, i + seps.length, b) else
      if (t.takeWhile fun c ↦ !delim.contains c).length = t.length then
        (some (i + seps.length),
          i + seps.length + (t.takeWhile fun c ↦ !delim.contains c).length, b)
      else
        (some (i + seps.length),
          i + seps.length + (t.takeWhile fun c ↦ !delim.contains c).length + 1,
          b.write (i + seps.length + (t.takeWhile fun c ↦ !delim.contains c).length) 0) := by
  have hstart : (seps ++ t).length - t.length = seps.length := by
    rw [List.length_append, Nat.add_sub_cancel_right]
  unfold strtokR
  simp only [h.text_eq, ht]
  rw [hstart]

theorem strtokR_cases (h : b.IsText i s) (delim : List UInt8) :
    (runs (fun c ↦ delim.contains c) s = [] ∧ ∃ saved, b.strtokR i delim = (none, saved, b)) ∨
      ∃ start saved b' token rest, b.strtokR i delim = (some start, saved, b') ∧
        Cut (fun c ↦ delim.contains c) b i s b' start saved token rest := by
  set sep : UInt8 → Bool := fun c ↦ delim.contains c
  -- the separators in front of the first run, and what is behind them
  obtain ⟨seps, l, hs, hl⟩ : ∃ seps l, seps ++ l = s ∧ s.dropWhile sep = l :=
    ⟨_, _, List.takeWhile_append_dropWhile, rfl⟩
  have hruns : runs sep s = runs sep l := hl ▸ (runs_dropWhile s).symm
  subst hs
  rw [strtokR_eq h hl]
  by_cases hempty : l = []
  · left
    rw [if_pos (List.isEmpty_iff.mpr hempty), hruns, hempty]
    exact ⟨runs_nil, _, rfl⟩
  right
  rw [if_neg (by simpa using hempty)]
  have htoken : l.takeWhile (fun c ↦ !sep c) ≠ [] :=
    hl ▸ takeWhile_dropWhile_ne_nil (hl.symm ▸ hempty)
  have hsplit : l.takeWhile (fun c ↦ !sep c) ++ l.dropWhile (fun c ↦ !sep c) = l :=
    List.takeWhile_append_dropWhile
  cases htail : l.dropWhile (fun c ↦ !sep c) with
  | nil =>
    rw [htail, List.append_nil] at hsplit
    rw [if_pos (congrArg List.length hsplit), hsplit]
    exact ⟨_, _, b, l, [], rfl, cut_last h hempty (hruns.trans (runs_eq_singleton hempty hsplit))⟩
  | cons c rest =>
    rw [htail] at hsplit
    have hne : (l.takeWhile fun c ↦ !sep c).length ≠ l.length := by
      have hcount := congrArg List.length hsplit
      rw [List.length_append, List.length_cons] at hcount
      omega
    rw [if_neg hne]
    have hfirst := hruns.trans (runs_takeWhile htoken htail)
    generalize l.takeWhile (fun c ↦ !sep c) = token at hsplit htoken hfirst ⊢
    subst hsplit
    exact ⟨_, _, _, token, rest, rfl, cut_first h htoken hfirst⟩

end Nebula.Library.Buffer
