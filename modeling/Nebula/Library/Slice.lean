import Nebula.Library.Buffer

/-!
Cells of a buffer that lie next to each other, read as a list. A slice is taken apart at its first
cell (`slice_eq_cons`) or at its last one (`slice_eq_concat`), and depends on its cells alone
(`slice_congr`). `slice_push` says what an append behind the slice does, and `slice_moveInto_perm`
what is left of a slice when its last entry is moved into the place of the first one: the others, in
some order. The keys of a table without holes are different in the list of its entries too
(`Keyed.nodup_slice`).
-/

set_option autoImplicit false
set_option relaxedAutoImplicit false

namespace Nebula.Library.Buffer

variable {α : Type*} {b b' : Buffer α} {i j k : ℤ}

/-- The entries from one index up to, but without, another one. -/
def slice (b : Buffer α) (i j : ℤ) : List α :=
  (List.range (j - i).toNat).map fun n : ℕ ↦ b.cell (i + n)

theorem slice_eq_nil (h : j ≤ i) : b.slice i j = [] := by
  have hcount : (j - i).toNat = 0 := by omega
  rw [slice, hcount]
  rfl

theorem slice_eq_concat (h : i < j) : b.slice i j = b.slice i (j - 1) ++ [b.cell (j - 1)] := by
  have hcount : (j - i).toNat = (j - 1 - i).toNat + 1 := by omega
  have hlast : i + ((j - 1 - i).toNat : ℤ) = j - 1 := by omega
  rw [slice, hcount, List.range_succ, List.map_append, List.map_singleton, hlast]
  rfl

theorem slice_eq_cons (h : i < j) : b.slice i j = b.cell i :: b.slice (i + 1) j := by
  have hcount : (j - i).toNat = (j - (i + 1)).toNat + 1 := by omega
  rw [slice, hcount, List.range_succ_eq_map, List.map_cons, List.map_map]
  refine congrArg₂ List.cons (congrArg b.cell (add_zero i)) (List.map_congr_left fun n _ ↦ ?_)
  exact congrArg b.cell (by push_cast; omega)

theorem slice_congr (h : ∀ n, i ≤ n → n < j → b.cell n = b'.cell n) : b.slice i j = b'.slice i j :=
  List.map_congr_left fun n hn ↦ h _ (by omega) (by have := List.mem_range.mp hn; omega)

theorem length_slice (b : Buffer α) (i j : ℤ) : (b.slice i j).length = (j - i).toNat := by
  rw [slice, List.length_map, List.length_range]

/-- The end of a slice. -/
theorem slice_sublist (h : k ≤ i) : (b.slice i j).Sublist (b.slice k j) := by
  induction i, h using Int.leInduction with
  | base => exact .refl _
  | succ i _ ih =>
    rcases lt_or_ge i j with hlt | hle
    · rw [slice_eq_cons hlt] at ih
      exact (List.sublist_cons_self _ _).trans ih
    · rw [slice_eq_nil (by omega)]
      exact List.nil_sublist _

/-- An entry is stored behind the slice. -/
theorem slice_write_of_le (h : j ≤ k) (a : α) : (b.write k a).slice i j = b.slice i j :=
  slice_congr fun n _ hn ↦ by rw [cell_write, if_neg (by omega)]

/-- An entry is stored in front of the slice. -/
theorem slice_write_of_lt (h : k < i) (a : α) : (b.write k a).slice i j = b.slice i j :=
  slice_congr fun n hn _ ↦ by rw [cell_write, if_neg (by omega)]

theorem slice_push (h : i ≤ j) (a : α) : (b.write j a).slice i (j + 1) = b.slice i j ++ [a] := by
  rw [slice_eq_concat (by omega), add_sub_cancel_right, slice_write_of_le le_rfl, cell_write,
    if_pos rfl]

/-- Moving the last entry of a slice into the place of the first one leaves all but the first. -/
theorem slice_moveInto_perm (h : i < j) :
    ((b.moveInto i (j - 1)).slice i (j - 1)).Perm (b.slice (i + 1) j) := by
  rcases eq_or_lt_of_le (show i ≤ j - 1 by omega) with heq | hlt
  · rw [slice_eq_nil heq.ge, slice_eq_nil (by omega)]
  · have hrest : (b.moveInto i (j - 1)).slice (i + 1) (j - 1) = b.slice (i + 1) (j - 1) :=
      slice_congr fun n hn _ ↦ by rw [cell_moveInto, if_neg (by omega)]
    rw [slice_eq_cons hlt, hrest, cell_moveInto, if_pos rfl,
      slice_eq_concat (show i + 1 < j by omega)]
    exact (List.perm_append_singleton _ _).symm

theorem slice_moveInto_of_le (h : j ≤ i) (last : ℤ) : (b.moveInto i last).slice k j = b.slice k j :=
  slice_congr fun n _ hn ↦ by rw [cell_moveInto, if_neg (by omega)]

/-- The keys of the cells in use are different, also as a list. -/
theorem Keyed.nodup_slice {β : Type*} {key : α → β} {used : ℤ} (h : b.Keyed key used) :
    ((b.slice 0 used).map key).Nodup := by
  rw [slice, List.map_map]
  refine List.Nodup.map_on (fun m hm n hn heq ↦ ?_) List.nodup_range
  have hm' := List.mem_range.mp hm
  have hn' := List.mem_range.mp hn
  have hindex := h.index_eq (0 + m) (0 + n) (by omega) (by omega) (by omega) (by omega) heq
  omega

end Nebula.Library.Buffer
