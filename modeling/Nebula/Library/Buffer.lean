import Mathlib.Data.Int.Interval

/-!
A block of memory of known size, addressed by an integer index, whose first cells are in use. An
access at an index outside the block is not ruled out: it reads or writes whatever lies there, and
leaves a mark in `strayed`, so that "no access outside the block" is the statement that the mark is
never set.

The cells in use hold entries that are told apart by a key (`Keyed`). The operations are those of a
table without holes: an entry is appended behind the last one, and it is removed by moving the last
entry into its place (`swapRemove`), either at a known index or after a scan for it
(`removeFirst`). `holds_swapRemove` and `Keyed.swapRemove` say what a removal does; the scan and
the removal never leave the block while the cells in use lie in it.
-/

set_option autoImplicit false
set_option relaxedAutoImplicit false

namespace Nebula.Library

/-- A block of `size` cells, the memory around it, and whether an access has left the block. -/
structure Buffer (α : Type*) where
  size : ℤ
  cell : ℤ → α
  strayed : Bool

namespace Buffer

variable {α β : Type*}

/-- The indices of the block. -/
def InBounds (b : Buffer α) (i : ℤ) : Prop := 0 ≤ i ∧ i < b.size

instance (b : Buffer α) (i : ℤ) : Decidable (b.InBounds i) :=
  inferInstanceAs (Decidable (_ ∧ _))

/-- A block of zeroed cells, with whatever lies around it. -/
def calloc (size : ℤ) (zero : α) (around : ℤ → α) : Buffer α where
  size := size
  cell i := if 0 ≤ i ∧ i < size then zero else around i
  strayed := false

/-- An access at an index: outside the block it leaves its mark. -/
def touch (b : Buffer α) (i : ℤ) : Buffer α :=
  { b with strayed := b.strayed || !decide (b.InBounds i) }

/-- Store an entry at an index. -/
def write (b : Buffer α) (i : ℤ) (a : α) : Buffer α :=
  { b.touch i with cell := Function.update b.cell i a }

/-- `cells[i] = cells[last]`. -/
def moveInto (b : Buffer α) (i last : ℤ) : Buffer α :=
  (b.touch last).write i (b.cell last)

/-- The first of `count` cells from index `i` on that satisfies a test, by looking at one after the
other. -/
def scan (hit : α → Bool) : ℕ → ℤ → Buffer α → Option ℤ × Buffer α
  | 0, _, b => (none, b)
  | count + 1, i, b =>
      if hit (b.cell i) then (some i, b.touch i) else scan hit count (i + 1) (b.touch i)

/-- Scan the cells in use for one that satisfies a test; if there is one, move the last entry into
it. The result says whether there was one, and how many cells are in use now. -/
def removeFirst (hit : α → Bool) (b : Buffer α) (used : ℤ) : Bool × Buffer α × ℤ :=
  match scan hit used.toNat 0 b with
  | (none, b) => (false, b, used)
  | (some i, b) => (true, b.moveInto i (used - 1), used - 1)

/-- Some cell in use holds the entry. -/
def Holds (b : Buffer α) (used : ℤ) (a : α) : Prop := ∃ i, 0 ≤ i ∧ i < used ∧ b.cell i = a

/-- The cells in use lie in the block, and no two of them have the same key. -/
structure Keyed (b : Buffer α) (key : α → β) (used : ℤ) : Prop where
  nonneg : 0 ≤ used
  le_size : used ≤ b.size
  index_eq : ∀ i j, 0 ≤ i → i < used → 0 ≤ j → j < used →
    key (b.cell i) = key (b.cell j) → i = j

/-! ### Single accesses -/

@[simp] theorem size_touch (b : Buffer α) (i : ℤ) : (b.touch i).size = b.size := rfl

@[simp] theorem cell_touch (b : Buffer α) (i : ℤ) : (b.touch i).cell = b.cell := rfl

@[simp] theorem size_write (b : Buffer α) (i : ℤ) (a : α) : (b.write i a).size = b.size := rfl

theorem cell_write (b : Buffer α) (i : ℤ) (a : α) (j : ℤ) :
    (b.write i a).cell j = if j = i then a else b.cell j := by
  simp [write, Function.update_apply]

theorem strayed_write (b : Buffer α) (i : ℤ) (a : α) :
    (b.write i a).strayed = (b.touch i).strayed := rfl

@[simp] theorem size_moveInto (b : Buffer α) (i last : ℤ) : (b.moveInto i last).size = b.size := rfl

theorem cell_moveInto (b : Buffer α) (i last j : ℤ) :
    (b.moveInto i last).cell j = if j = i then b.cell last else b.cell j :=
  cell_write _ _ _ _

/-- An access inside the block leaves no mark. -/
theorem touch_of_inBounds {b : Buffer α} {i : ℤ} (h : b.InBounds i) : b.touch i = b := by
  simp [touch, h]

theorem strayed_write_of_inBounds {b : Buffer α} {i : ℤ} (h : b.InBounds i) (a : α) :
    (b.write i a).strayed = b.strayed := by
  rw [strayed_write, touch_of_inBounds h]

/-- Of two stores at one index, the second one counts. -/
theorem write_write (b : Buffer α) (i : ℤ) (a a' : α) :
    (b.write i a).write i a' = b.write i a' := by
  have hcell : Function.update (Function.update b.cell i a) i a' = Function.update b.cell i a' :=
    Function.update_idem ..
  have hstrayed : ∀ x y : Bool, (x || y || y) = (x || y) := by decide
  show Buffer.mk b.size _ _ = Buffer.mk b.size _ _
  exact congrArg₂ (Buffer.mk b.size) hcell (hstrayed b.strayed (!decide (b.InBounds i)))

theorem strayed_moveInto_of_inBounds {b : Buffer α} {i last : ℤ} (hi : b.InBounds i)
    (hlast : b.InBounds last) : (b.moveInto i last).strayed = b.strayed := by
  rw [moveInto, touch_of_inBounds hlast, strayed_write_of_inBounds hi]

/-! ### The scan -/

/-- What a scan inside the block finds: the first index of the range whose cell satisfies the test,
if there is one. The block is unchanged. -/
theorem scan_spec (hit : α → Bool) (b : Buffer α) : ∀ (count : ℕ) (i : ℤ), 0 ≤ i →
    i + count ≤ b.size → (scan hit count i b).2 = b ∧
      match (scan hit count i b).1 with
      | none => ∀ j, i ≤ j → j < i + count → hit (b.cell j) = false
      | some k => i ≤ k ∧ k < i + count ∧ hit (b.cell k) = true := by
  intro count
  induction count with
  | zero =>
    intro i _ _
    exact ⟨rfl, fun j hle hlt ↦ absurd hlt (by push_cast; omega)⟩
  | succ count ih =>
    intro i hi hsize
    push_cast at hsize
    have htouch : b.touch i = b := touch_of_inBounds ⟨hi, by omega⟩
    by_cases hhit : hit (b.cell i) = true
    · rw [scan, if_pos hhit, htouch]
      exact ⟨rfl, le_refl i, by push_cast; omega, hhit⟩
    · rw [scan, if_neg hhit, htouch]
      obtain ⟨hbuffer, hfound⟩ := ih (i + 1) (by omega) (by omega)
      refine ⟨hbuffer, ?_⟩
      cases hscan : (scan hit count (i + 1) b).1 with
      | none =>
        rw [hscan] at hfound
        intro j hle hlt
        push_cast at hlt
        rcases eq_or_lt_of_le hle with rfl | hlt'
        · simpa using hhit
        · exact hfound j (by omega) (by omega)
      | some k =>
        rw [hscan] at hfound
        exact ⟨by omega, by push_cast; omega, hfound.2.2⟩

/-! ### Tables without holes -/

namespace Keyed

variable {b : Buffer α} {key : α → β} {used : ℤ}

theorem inBounds (h : b.Keyed key used) {i : ℤ} (hi : 0 ≤ i) (hlt : i < used) : b.InBounds i :=
  ⟨hi, lt_of_lt_of_le hlt h.le_size⟩

theorem touch (h : b.Keyed key used) (i : ℤ) : (b.touch i).Keyed key used :=
  ⟨h.nonneg, h.le_size, h.index_eq⟩

/-- An entry with a new key may be appended while there is room. -/
theorem push (h : b.Keyed key used) {a : α} (hroom : used < b.size)
    (hnew : ∀ i, 0 ≤ i → i < used → key (b.cell i) ≠ key a) :
    (b.write used a).Keyed key (used + 1) where
  nonneg := by have := h.nonneg; omega
  le_size := by simp only [size_write]; omega
  index_eq := by
    intro i j hi hi' hj hj' heq
    simp only [cell_write] at heq
    split_ifs at heq with hiu hju hju
    · omega
    · exact absurd heq.symm (hnew j hj (by omega))
    · exact absurd heq (hnew i hi (by omega))
    · exact h.index_eq i j hi (by omega) hj (by omega) heq

/-- Moving the last entry into the place of another one keeps the keys apart. -/
theorem moveInto (h : b.Keyed key used) {i : ℤ} (hi : 0 ≤ i) (hlt : i < used) :
    (b.moveInto i (used - 1)).Keyed key (used - 1) where
  nonneg := by omega
  le_size := by have := h.le_size; simp only [size_moveInto]; omega
  index_eq := by
    intro j k hj hj' hk hk' heq
    simp only [cell_moveInto] at heq
    split_ifs at heq with hji hki hki
    · omega
    · have := h.index_eq (used - 1) k (by omega) (by omega) hk (by omega) heq
      omega
    · have := h.index_eq j (used - 1) hj (by omega) (by omega) (by omega) heq
      omega
    · exact h.index_eq j k hj (by omega) hk (by omega) heq

/-- Forgetting the last entry keeps the keys apart. -/
theorem pop (h : b.Keyed key used) (hpos : 0 < used) : b.Keyed key (used - 1) :=
  ⟨by omega, by have := h.le_size; omega,
    fun i j hi hi' hj hj' heq ↦ h.index_eq i j hi (by omega) hj (by omega) heq⟩

/-- A store behind the entries in use does not matter to them. -/
theorem write_of_le (h : b.Keyed key used) {i : ℤ} (hi : used ≤ i) (a : α) :
    (b.write i a).Keyed key used where
  nonneg := h.nonneg
  le_size := h.le_size
  index_eq := by
    intro j k hj hj' hk hk' heq
    rw [cell_write, cell_write, if_neg (by omega), if_neg (by omega)] at heq
    exact h.index_eq j k hj hj' hk hk' heq

/-- A store that keeps the key of its cell keeps the keys apart. -/
theorem write_of_key_eq (h : b.Keyed key used) {i : ℤ} {a : α} (hkey : key a = key (b.cell i)) :
    (b.write i a).Keyed key used where
  nonneg := h.nonneg
  le_size := h.le_size
  index_eq := by
    have hcell : ∀ j, key ((b.write i a).cell j) = key (b.cell j) := by
      intro j
      rw [cell_write]
      split_ifs with hji
      · rw [hkey, hji]
      · rfl
    intro j k hj hj' hk hk' heq
    rw [hcell, hcell] at heq
    exact h.index_eq j k hj hj' hk hk' heq

/-- Entries with pairwise different keys, all taken from a finite range of integers, leave room for
an entry of the range that is not among them. -/
theorem lt_of_not_holds {b : Buffer ℤ} {used bound : ℤ} (h : b.Keyed id used)
    (hrange : ∀ i, 0 ≤ i → i < used → 0 ≤ b.cell i ∧ b.cell i < bound) {a : ℤ} (ha : 0 ≤ a)
    (ha' : a < bound) (hnew : ¬ b.Holds used a) : used < bound := by
  have hmaps : Set.MapsTo b.cell (Finset.Ico 0 used) ((Finset.Ico 0 bound).erase a) := by
    intro i hi
    simp only [Finset.coe_Ico, Set.mem_Ico] at hi
    have := hrange i hi.1 hi.2
    simp only [Finset.coe_erase, Finset.coe_Ico, Set.mem_sdiff, Set.mem_Ico, Set.mem_singleton_iff]
    exact ⟨this, fun heq ↦ hnew ⟨i, hi.1, hi.2, heq⟩⟩
  have hinj : Set.InjOn b.cell (Finset.Ico 0 used) := by
    intro i hi j hj heq
    simp only [Finset.coe_Ico, Set.mem_Ico] at hi hj
    exact h.index_eq i j hi.1 hi.2 hj.1 hj.2 heq
  have hcard := Finset.card_le_card_of_injOn b.cell hmaps hinj
  rw [Finset.card_erase_of_mem (Finset.mem_Ico.mpr ⟨ha, ha'⟩), Int.card_Ico, Int.card_Ico] at hcard
  have := h.nonneg
  omega

end Keyed

/-- The entries after an append. -/
theorem holds_push {b : Buffer α} {used : ℤ} (hused : 0 ≤ used) {a c : α} :
    (b.write used a).Holds (used + 1) c ↔ b.Holds used c ∨ c = a := by
  constructor
  · rintro ⟨i, hi, hlt, hcell⟩
    rw [cell_write] at hcell
    split_ifs at hcell with hiu
    · exact Or.inr hcell.symm
    · exact Or.inl ⟨i, hi, by omega, hcell⟩
  · rintro (⟨i, hi, hlt, hcell⟩ | rfl)
    · exact ⟨i, hi, by omega, by rw [cell_write, if_neg (by omega), hcell]⟩
    · exact ⟨used, hused, by omega, by rw [cell_write, if_pos rfl]⟩

/-- The entries after moving the last one into the place of another one: that one is gone. -/
theorem Keyed.holds_moveInto {b : Buffer α} {key : α → β} {used : ℤ} (h : b.Keyed key used) {i : ℤ}
    (hi : 0 ≤ i) (hlt : i < used) {c : α} :
    (b.moveInto i (used - 1)).Holds (used - 1) c ↔
      b.Holds used c ∧ key c ≠ key (b.cell i) := by
  constructor
  · rintro ⟨j, hj, hj', hcell⟩
    rw [cell_moveInto] at hcell
    split_ifs at hcell with hji
    · refine ⟨⟨used - 1, by omega, by omega, hcell⟩, fun hkey ↦ ?_⟩
      rw [← hcell] at hkey
      have := h.index_eq (used - 1) i (by omega) (by omega) hi hlt hkey
      omega
    · refine ⟨⟨j, hj, by omega, hcell⟩, fun hkey ↦ hji ?_⟩
      rw [← hcell] at hkey
      exact h.index_eq j i hj (by omega) hi hlt hkey
  · rintro ⟨⟨j, hj, hj', hcell⟩, hkey⟩
    have hji : j ≠ i := fun heq ↦ hkey (by rw [← hcell, heq])
    by_cases hlast : j = used - 1
    · exact ⟨i, hi, by omega, by rw [cell_moveInto, if_pos rfl, ← hlast, hcell]⟩
    · exact ⟨j, hj, by omega, by rw [cell_moveInto, if_neg hji, hcell]⟩

/-- What the removal of a key does: nothing if no entry has it, and else the last entry moves into
the place of the one that has it. -/
theorem Keyed.removeFirst_cases [DecidableEq β] {b : Buffer α} {key : α → β} {used : ℤ}
    (h : b.Keyed key used) (k : β) :
    ((∀ i, 0 ≤ i → i < used → key (b.cell i) ≠ k) ∧
        removeFirst (fun a ↦ decide (key a = k)) b used = (false, b, used)) ∨
      ∃ i, 0 ≤ i ∧ i < used ∧ key (b.cell i) = k ∧
        removeFirst (fun a ↦ decide (key a = k)) b used =
          (true, b.moveInto i (used - 1), used - 1) := by
  have hused := h.nonneg
  obtain ⟨hbuffer, hfound⟩ := scan_spec (fun a ↦ decide (key a = k)) b used.toNat 0 le_rfl
    (by have := h.le_size; omega)
  unfold removeFirst
  cases hscan : scan (fun a ↦ decide (key a = k)) used.toNat 0 b with
  | mk found scanned =>
    rw [hscan] at hbuffer hfound
    simp only at hbuffer
    subst hbuffer
    cases found with
    | none => exact Or.inl ⟨fun i hi hlt ↦ by simpa using hfound i hi (by omega), rfl⟩
    | some i =>
      obtain ⟨hi, hlt, hhit⟩ := hfound
      exact Or.inr ⟨i, hi, by omega, by simpa using hhit, rfl⟩

/-- Whatever is in the cells, a removal that finds nothing leaves them as they are, and one that
finds something leaves one cell less in use. -/
theorem removeFirst_used (hit : α → Bool) (b : Buffer α) (used : ℤ) :
    ((removeFirst hit b used).2.2 = used ∧ (removeFirst hit b used).2.1.cell = b.cell) ∨
      (removeFirst hit b used).2.2 = used - 1 := by
  have hcell : ∀ (count : ℕ) (i : ℤ) (b : Buffer α), (scan hit count i b).2.cell = b.cell := by
    intro count
    induction count with
    | zero => exact fun _ _ ↦ rfl
    | succ count ih =>
      intro i b
      rw [scan]
      split_ifs
      · rfl
      · rw [ih, cell_touch]
  have hscanned := hcell used.toNat 0 b
  unfold removeFirst
  cases hscan : scan hit used.toNat 0 b with
  | mk found scanned =>
    rw [hscan] at hscanned
    cases found with
    | none => exact Or.inl ⟨rfl, hscanned⟩
    | some i => exact Or.inr rfl

end Buffer

end Nebula.Library
