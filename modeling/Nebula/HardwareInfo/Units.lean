import Nebula.HardwareInfo.ProcFiles

/-!
The units of the sizes in `/proc/cpuinfo` and `/proc/meminfo`. A size line consists of its key, a
colon, blanks, a number and perhaps a unit (`Size`); all other lines are arbitrary.

`sizesRead_iff` says when the sizes that `HardwareInfo` holds are those of the last size lines. The
cache size always is. The sizes of memory and swap space are not if the unit is `KB`, and the size
of the memory is not either if there is no unit, since `"MemTotal"` itself has an `m` in it.
-/

set_option autoImplicit false
set_option relaxedAutoImplicit false

namespace Nebula.HardwareInfo

open Library Strings Outcome

/-! ### Size lines -/

inductive SizeUnit where
  | kB
  | KB
  | mB
  | MB
  deriving DecidableEq

namespace SizeUnit

/-- `'k'`, `'K'`, `'m'` or `'M'`. -/
def letter : SizeUnit → UInt8
  | kB => 107
  | KB => 75
  | mB => 109
  | MB => 77

/-- A blank and the unit, if there is one. -/
def bytes : Option SizeUnit → List UInt8
  | none => []
  | some unit => [32, unit.letter, 66]

def factor : Option SizeUnit → ℕ
  | none => 1
  | some kB => 2 ^ 10
  | some KB => 2 ^ 10
  | some mB => 2 ^ 20
  | some MB => 2 ^ 20

end SizeUnit

/-- What stands behind the colon of a size line: blanks, a number, perhaps a unit, and the newline,
which the last line of a file may lack. The size fits into 64 bits. -/
structure Size where
  blanks : ℕ
  digits : List UInt8
  unit : Option SizeUnit
  terminated : Bool
  isdigit_digits : ∀ c ∈ digits, isdigit c = true
  digits_ne_nil : digits ≠ []
  fits : decimal digits * SizeUnit.factor unit < 2 ^ 64

namespace Size

def number (size : Size) : ℕ := decimal size.digits

def value (size : Size) : ℕ := size.number * SizeUnit.factor size.unit

/-- The newline. -/
def terminator (size : Size) : List UInt8 := if size.terminated then [10] else []

/-- Everything in front of the newline. -/
def written (size : Size) : List UInt8 :=
  List.replicate (size.blanks + 1) 32 ++ (size.digits ++ SizeUnit.bytes size.unit)

def bytes (size : Size) : List UInt8 := size.written ++ size.terminator

end Size

/-- A line of `/proc/cpuinfo`. In front of the colon there may be blanks and tabs. -/
inductive CpuinfoEntry where
  | cacheSize (blanks : List UInt8) (h : ∀ c ∈ blanks, c = 32 ∨ c = 9) (size : Size)
  | other (text : List UInt8) (h : ¬ ascii "cache size" <+: text)

namespace CpuinfoEntry

def bytes : CpuinfoEntry → List UInt8
  | cacheSize blanks _ size => ascii "cache size" ++ (blanks ++ 58 :: size.bytes)
  | other text _ => text

def size? : CpuinfoEntry → Option Size
  | cacheSize _ _ size => some size
  | other _ _ => none

end CpuinfoEntry

/-- A line of `/proc/meminfo`. -/
inductive MeminfoEntry where
  | memTotal (size : Size)
  | swapTotal (size : Size)
  | other (text : List UInt8) (hmem : ¬ ascii "MemTotal:" <+: text)
      (hswap : ¬ ascii "SwapTotal:" <+: text)

namespace MeminfoEntry

def bytes : MeminfoEntry → List UInt8
  | memTotal size => ascii "MemTotal:" ++ size.bytes
  | swapTotal size => ascii "SwapTotal:" ++ size.bytes
  | other text _ _ => text

def memTotal? : MeminfoEntry → Option Size
  | memTotal size => some size
  | _ => none

def swapTotal? : MeminfoEntry → Option Size
  | swapTotal size => some size
  | _ => none

end MeminfoEntry

/-- A line as `getline` leaves it in the buffer, and the entry that is written there. -/
structure Shown (α : Type*) (bytes : α → List UInt8) where
  line : Line
  entry : α
  text_eq : line.text = bytes entry

/-- The size on the last line that has one. -/
def lastSize {α : Type*} {bytes : α → List UInt8} (size? : α → Option Size)
    (lines : List (Shown α bytes)) : Option Size :=
  (lines.filterMap fun l ↦ size? l.entry).getLast?

/-! ### Reading the number -/

/-- A number is read up to the first character that is not a digit. -/
theorem readNumber_digits {blanks digits rest : List UInt8}
    (hblanks : ∀ c ∈ blanks, isspace c = true) (hdigits : ∀ c ∈ digits, isdigit c = true)
    (hne : digits ≠ [])
    (hrest : rest.takeWhile isdigit = []) :
    readNumber (blanks ++ (digits ++ rest)) = some (false, decimal digits, rest) := by
  obtain ⟨c, digits, rfl⟩ := List.exists_cons_of_ne_nil hne
  obtain ⟨hspace, hminus, hplus⟩ := Numeral.isdigit_ne (hdigits c List.mem_cons_self)
  have htake : (c :: digits ++ rest).takeWhile isdigit = c :: digits := by
    rw [List.takeWhile_append_of_pos hdigits, hrest, List.append_nil]
  have hdrop : (c :: digits ++ rest).dropWhile isdigit = rest := by
    have hsplit := List.takeWhile_append_dropWhile (p := isdigit) (l := c :: digits ++ rest)
    rw [htake] at hsplit
    exact List.append_cancel_left hsplit
  unfold readNumber
  rw [List.dropWhile_append_of_pos hblanks, List.cons_append,
    List.dropWhile_cons_of_neg (by simp [hspace])]
  rw [List.cons_append] at htake hdrop
  simp [hminus, hplus, htake, hdrop]

namespace Size

variable (size : Size)

theorem number_lt : size.number < 2 ^ 64 := by
  refine lt_of_le_of_lt ?_ size.fits
  refine Nat.le_mul_of_pos_right _ ?_
  cases size.unit with
  | none => decide
  | some unit => cases unit <;> decide

theorem strToU64_digits {blanks rest : List UInt8} (hblanks : ∀ c ∈ blanks, isspace c = true)
    (hrest : rest.takeWhile isdigit = []) :
    (strToU64 (blanks ++ (size.digits ++ rest)) false) = BitVec.ofNat 64 size.number := by
  have hle : ¬ decimal size.digits > ulongMax := by
    have := size.number_lt
    simp only [number, ulongMax] at *
    omega
  unfold strToU64 strtoul
  rw [readNumber_digits hblanks size.isdigit_digits size.digits_ne_nil hrest]
  simp [hle, number]

end Size

/-! ### Looking for the unit -/

/-- The characters that are looked for. -/
def unitLetters : List UInt8 := [107, 75, 109, 77]

/-- The factor that is taken, by the characters that occur. -/
def foundFactor (s : List UInt8) (second : UInt8) : ℕ :=
  if 107 ∈ s ∨ second ∈ s then 2 ^ 10 else if 109 ∈ s ∨ 77 ∈ s then 2 ^ 20 else 1

theorem scaled_eq (n : ℕ) (s : List UInt8) (second : UInt8) :
    scaled (BitVec.ofNat 64 n) s second = BitVec.ofNat 64 (n * foundFactor s second) := by
  unfold scaled foundFactor
  split_ifs
  · exact (BitVec.ofNat_mul ..).symm
  · exact (BitVec.ofNat_mul ..).symm
  · rw [mul_one]

theorem foundFactor_congr {s t : List UInt8} {second : UInt8} (hsecond : second ∈ unitLetters)
    (h : ∀ x ∈ unitLetters, x ∈ s ↔ x ∈ t) : foundFactor s second = foundFactor t second := by
  unfold foundFactor
  simp only [h 107 (by decide), h second hsecond, h 109 (by decide), h 77 (by decide)]

/-- The letter of the unit, if there is one. -/
def SizeUnit.letters : Option SizeUnit → List UInt8
  | none => []
  | some unit => [unit.letter]

namespace Size

variable (size : Size)

/-- Of the characters that are looked for, the text of a size has only that of its unit. -/
theorem mem_written_iff {x : UInt8} (hx : x ∈ unitLetters) :
    x ∈ size.written ↔ x ∈ SizeUnit.letters size.unit := by
  have hne : x ≠ 32 ∧ x ≠ 66 ∧ isdigit x = false := by
    rcases List.mem_cons.mp hx with rfl | hx
    · decide
    rcases List.mem_cons.mp hx with rfl | hx
    · decide
    rcases List.mem_cons.mp hx with rfl | hx
    · decide
    · rw [List.mem_singleton.mp hx]
      decide
  have hblank : x ∉ List.replicate (size.blanks + 1) (32 : UInt8) := fun h ↦
    hne.1 (List.eq_of_mem_replicate h)
  have hdigit : x ∉ size.digits := fun h ↦
    Bool.false_ne_true (hne.2.2.symm.trans (size.isdigit_digits x h))
  rw [written, List.mem_append, List.mem_append, or_iff_right hblank, or_iff_right hdigit]
  cases size.unit with
  | none => rfl
  | some unit => simp [SizeUnit.bytes, SizeUnit.letters, hne]

theorem mem_bytes_iff {x : UInt8} (hx : x ∈ unitLetters) :
    x ∈ size.bytes ↔ x ∈ SizeUnit.letters size.unit := by
  have hnewline : x ∉ size.terminator := by
    unfold terminator
    split_ifs
    · intro h
      rw [List.mem_singleton.mp h] at hx
      exact absurd hx (by decide)
    · exact List.not_mem_nil
  rw [bytes, List.mem_append, or_iff_left hnewline, size.mem_written_iff hx]

/-- Of a line only the key and the letter of the unit matter. -/
theorem foundFactor_append (key : List UInt8) {second : UInt8} (hsecond : second ∈ unitLetters) :
    foundFactor (key ++ size.written) second =
        foundFactor (key ++ SizeUnit.letters size.unit) second ∧
      foundFactor (key ++ size.bytes) second =
        foundFactor (key ++ SizeUnit.letters size.unit) second := by
  refine ⟨foundFactor_congr hsecond fun x hx ↦ ?_, foundFactor_congr hsecond fun x hx ↦ ?_⟩
  · rw [List.mem_append, List.mem_append, size.mem_written_iff hx]
  · rw [List.mem_append, List.mem_append, size.mem_bytes_iff hx]

/-- Behind the colon of a size in `/proc/cpuinfo`, the unit is found. -/
theorem foundFactor_cacheSize :
    foundFactor (58 :: size.written) 75 = SizeUnit.factor size.unit := by
  rw [← List.singleton_append, (size.foundFactor_append [58] (by decide)).1]
  cases size.unit with
  | none => rfl
  | some unit => cases unit <;> rfl

/-- The factor that is taken for the size of the memory. -/
def memTotalFactor : ℕ := if size.unit = some .kB then 2 ^ 10 else 2 ^ 20

/-- The factor that is taken for the size of the swap space. -/
def swapTotalFactor : ℕ := if size.unit = some .KB then 1 else SizeUnit.factor size.unit

theorem foundFactor_memTotal :
    foundFactor (ascii "MemTotal:" ++ size.bytes) 107 = size.memTotalFactor := by
  rw [(size.foundFactor_append _ (by decide)).2, memTotalFactor]
  cases size.unit with
  | none => decide
  | some unit => cases unit <;> decide

theorem foundFactor_swapTotal :
    foundFactor (ascii "SwapTotal:" ++ size.bytes) 107 = size.swapTotalFactor := by
  rw [(size.foundFactor_append _ (by decide)).2, swapTotalFactor]
  cases size.unit with
  | none => decide
  | some unit => cases unit <;> decide

/-! ### Lines -/

theorem takeWhile_terminator : size.terminator.takeWhile isdigit = [] := by
  unfold terminator
  split_ifs <;> rfl

theorem takeWhile_unit (unit : Option SizeUnit) {rest : List UInt8}
    (hrest : rest.takeWhile isdigit = []) :
    (SizeUnit.bytes unit ++ rest).takeWhile isdigit = [] := by
  cases unit with
  | none => exact hrest
  | some unit => rfl

theorem isspace_replicate (n : ℕ) : ∀ c ∈ List.replicate n (32 : UInt8), isspace c = true := by
  intro c hc
  rw [List.eq_of_mem_replicate hc]
  rfl

theorem strToU64_bytes : strToU64 size.bytes false = BitVec.ofNat 64 size.number := by
  have hbytes : size.bytes = List.replicate (size.blanks + 1) 32 ++
      (size.digits ++ (SizeUnit.bytes size.unit ++ size.terminator)) := by
    simp only [bytes, written, List.append_assoc]
  rw [hbytes]
  exact size.strToU64_digits (isspace_replicate _) (takeWhile_unit _ size.takeWhile_terminator)

/-- Without the first blank and the newline. -/
theorem strToU64_written : strToU64 (size.written.drop 1) false = BitVec.ofNat 64 size.number := by
  have hdrop : size.written.drop 1 = List.replicate size.blanks 32 ++
      (size.digits ++ (SizeUnit.bytes size.unit ++ [])) := by
    rw [written, List.replicate_succ, List.append_nil]
    rfl
  rw [hdrop]
  exact size.strToU64_digits (isspace_replicate _) (takeWhile_unit _ rfl)

/-- The text of a size ends in a visible character. -/
theorem exists_written_eq_concat : ∃ s c, size.written = s ++ [c] ∧ c ∉ whitespace := by
  unfold written
  cases size.unit with
  | none =>
    obtain ⟨digits, c, hdigits⟩ := (List.eq_nil_or_concat' size.digits).resolve_left
      size.digits_ne_nil
    have hc : isdigit c = true := size.isdigit_digits c (by simp [hdigits])
    refine ⟨List.replicate (size.blanks + 1) 32 ++ digits, c, ?_, fun h ↦ ?_⟩
    · rw [SizeUnit.bytes, List.append_nil, hdigits, List.append_assoc]
    · have hall : ∀ d ∈ whitespace, isdigit d = false :=
        List.forall_iff_forall_mem.mp (by decide)
      exact Bool.false_ne_true ((hall c h).symm.trans hc)
  | some unit =>
    refine ⟨List.replicate (size.blanks + 1) 32 ++ (size.digits ++ [32, unit.letter]), 66, ?_,
      by decide⟩
    simp [SizeUnit.bytes]

/-- Trimming a line takes its newline away. -/
theorem rightTrimmed_append (key : List UInt8) :
    rightTrimmed (key ++ size.bytes) = key ++ size.written := by
  obtain ⟨s, c, hwritten, hc⟩ := size.exists_written_eq_concat
  have hvisible : rightTrimmed (key ++ size.written) = key ++ size.written := by
    rw [hwritten, ← List.append_assoc]
    exact List.rdropWhile_concat_neg _ _ _ (by simpa using hc)
  rw [bytes, terminator]
  split_ifs
  · rw [← List.append_assoc, rightTrimmed, List.rdropWhile_concat_pos _ _ _ (by decide)]
    exact hvisible
  · rw [List.append_nil]
    exact hvisible

end Size

theorem not_literal_prefix {c d : UInt8} {s t : List UInt8} (h : c ≠ d) : ¬ c :: s <+: d :: t :=
  fun hp ↦ h (List.cons_prefix_cons.mp hp).1

/-- What a line of `/proc/meminfo` does to the sizes. -/
theorem meminfoText_bytes (info : HardwareInfo) (e : MeminfoEntry) :
    (meminfoText info e.bytes).memoryTotal =
        (e.memTotal?.map fun size ↦
          BitVec.ofNat 64 (size.number * size.memTotalFactor)).getD info.memoryTotal ∧
      (meminfoText info e.bytes).swapTotal =
        (e.swapTotal?.map fun size ↦
          BitVec.ofNat 64 (size.number * size.swapTotalFactor)).getD info.swapTotal ∧
      (meminfoText info e.bytes).cpuCacheSize = info.cpuCacheSize := by
  unfold meminfoText
  cases e with
  | memTotal size =>
    have hmem : ascii "MemTotal:" <+: ascii "MemTotal:" ++ size.bytes :=
      List.prefix_append ..
    have hswap : ¬ ascii "SwapTotal:" <+: ascii "MemTotal:" ++ size.bytes :=
      not_literal_prefix (by decide)
    have hdrop : (ascii "MemTotal:" ++ size.bytes).drop 9 = size.bytes := rfl
    rw [MeminfoEntry.bytes, if_pos hmem, if_neg hswap, hdrop, size.strToU64_bytes, scaled_eq,
      size.foundFactor_memTotal]
    exact ⟨rfl, rfl, rfl⟩
  | swapTotal size =>
    have hmem : ¬ ascii "MemTotal:" <+: ascii "SwapTotal:" ++ size.bytes :=
      not_literal_prefix (by decide)
    have hswap : ascii "SwapTotal:" <+: ascii "SwapTotal:" ++ size.bytes :=
      List.prefix_append ..
    have hdrop : (ascii "SwapTotal:" ++ size.bytes).drop 10 = size.bytes := rfl
    rw [MeminfoEntry.bytes, if_neg hmem, if_pos hswap, hdrop, size.strToU64_bytes, scaled_eq,
      size.foundFactor_swapTotal]
    exact ⟨rfl, rfl, rfl⟩
  | other text hmem hswap =>
    rw [MeminfoEntry.bytes, if_neg hmem, if_neg hswap]
    exact ⟨rfl, rfl, rfl⟩

/-- What a line of `/proc/cpuinfo` does to the sizes. -/
theorem cpuinfoText_bytes (info : HardwareInfo) (e : CpuinfoEntry) :
    (cpuinfoText info e.bytes).cpuCacheSize =
        (e.size?.map fun size ↦ BitVec.ofNat 64 size.value).getD info.cpuCacheSize ∧
      (cpuinfoText info e.bytes).memoryTotal = info.memoryTotal ∧
      (cpuinfoText info e.bytes).swapTotal = info.swapTotal := by
  unfold cpuinfoText
  cases e with
  | cacheSize blanks hblanks size =>
    have hkey : ascii "cache size" ++ (blanks ++ 58 :: size.bytes) =
        (ascii "cache size" ++ blanks ++ [58]) ++ size.bytes := by simp
    have hmodel : ¬ ascii "model name" <+: ascii "cache size" ++ (blanks ++ 58 :: size.bytes) :=
      not_literal_prefix (by decide)
    have hcache : ascii "cache size" <+: ascii "cache size" ++ (blanks ++ 58 :: size.bytes) :=
      List.prefix_append ..
    have hcolon : (58 : UInt8) ∉ ascii "cache size" ++ blanks := by
      intro h
      rcases List.mem_append.mp h with h | h
      · exact absurd h (by decide)
      · exact absurd (hblanks _ h) (by decide)
    have hfound : strstr ((ascii "cache size" ++ blanks ++ [58]) ++ size.written)
        (ascii ": ") = some (58 :: size.written) := by
      have hprefix : ascii ": " <+: 58 :: size.written := List.prefix_append [58, 32] _
      rw [List.append_assoc]
      exact (strstr_append hcolon _ _).trans (strstr_eq_self_iff.mpr hprefix)
    have hsize : scaled (strToU64 (size.written.drop 1) false) (58 :: size.written) 75 =
        BitVec.ofNat 64 size.value := by
      rw [size.strToU64_written, scaled_eq, size.foundFactor_cacheSize]
      rfl
    rw [CpuinfoEntry.bytes, if_neg hmodel, if_pos hcache, hkey, size.rightTrimmed_append, hfound]
    exact ⟨hsize, rfl, rfl⟩
  | other text h =>
    rw [CpuinfoEntry.bytes, if_neg h]
    split_ifs
    · cases strstr (rightTrimmed text) (ascii ": ") <;> exact ⟨rfl, rfl, rfl⟩
    · exact ⟨rfl, rfl, rfl⟩

/-! ### The sizes of the last lines -/

/-- The sizes are those of the last lines that have them, in bytes. -/
structure SizesRead (old new : HardwareInfo)
    (cpuinfo : List (Shown CpuinfoEntry CpuinfoEntry.bytes))
    (meminfo : List (Shown MeminfoEntry MeminfoEntry.bytes)) : Prop where
  cpuCacheSize : new.cpuCacheSize.toNat =
    ((lastSize CpuinfoEntry.size? cpuinfo).map Size.value).getD old.cpuCacheSize.toNat
  memoryTotal : new.memoryTotal.toNat =
    ((lastSize MeminfoEntry.memTotal? meminfo).map Size.value).getD old.memoryTotal.toNat
  swapTotal : new.swapTotal.toNat =
    ((lastSize MeminfoEntry.swapTotal? meminfo).map Size.value).getD old.swapTotal.toNat

/-- Of several lines, the last one with a size counts. -/
theorem read_foldl {α τ : Type*} {bytes : α → List UInt8}
    {step : HardwareInfo → List UInt8 → HardwareInfo} {read : HardwareInfo → τ}
    {size? : α → Option Size} {value : Size → τ}
    (hstep : ∀ info e, read (step info (bytes e)) = ((size? e).map value).getD (read info))
    (lines : List (Shown α bytes)) (info : HardwareInfo) :
    read ((lines.map fun l ↦ l.line.text).foldl step info) =
      ((lastSize size? lines).map value).getD (read info) := by
  have hline : ∀ info (l : Shown α bytes), read (step info l.line.text) =
      ((size? l.entry).map value).getD (read info) := fun info l ↦ by
    rw [l.text_eq, hstep]
  rw [List.foldl_map, latest_foldl hline, lastSize, ← List.getLast?_map, List.map_filterMap]

theorem unread_foldl {α τ : Type*} {bytes : α → List UInt8}
    {step : HardwareInfo → List UInt8 → HardwareInfo} {read : HardwareInfo → τ}
    (hstep : ∀ info e, read (step info (bytes e)) = read info) (lines : List (Shown α bytes))
    (info : HardwareInfo) : read ((lines.map fun l ↦ l.line.text).foldl step info) = read info := by
  induction lines generalizing info with
  | nil => rfl
  | cons l lines ih => rw [List.map_cons, List.foldl_cons, ih, l.text_eq, hstep]

/-- If `k` is prime to the modulus, only zero is left as it is by a multiplication by `k + 1`. -/
theorem eq_zero_of_mul_mod {v k m : ℕ} (hv : v < m) (hk : m.Coprime k)
    (h : v * (k + 1) % m = v) : v = 0 := by
  have hdvd : m ∣ v * (k + 1) - v * (k + 1) % m := Nat.dvd_sub_mod _
  rw [h, Nat.mul_succ, Nat.add_sub_cancel] at hdvd
  exact Nat.eq_zero_of_dvd_of_lt (hk.dvd_of_dvd_mul_right hdvd) hv

namespace Size

variable (size : Size)

/-- The factor for the size of the memory is the right one for `kB`, `mB` and `MB`. -/
theorem memTotalFactor_iff : (BitVec.ofNat 64 (size.number * size.memTotalFactor)).toNat =
    size.value ↔ size.number = 0 ∨ ∃ unit, size.unit = some unit ∧ unit ≠ .KB := by
  have hfits : size.value < 2 ^ 64 := size.fits
  have hright : size.memTotalFactor = SizeUnit.factor size.unit →
      size.number * size.memTotalFactor % 2 ^ 64 = size.value := fun h ↦ by
    rw [h]
    exact Nat.mod_eq_of_lt hfits
  have hwrong : ∀ k, (2 ^ 64).Coprime k → 0 < SizeUnit.factor size.unit →
      size.memTotalFactor = SizeUnit.factor size.unit * (k + 1) →
      (size.number * size.memTotalFactor % 2 ^ 64 = size.value ↔ size.number = 0) := by
    intro k hk hpos h
    rw [h, ← mul_assoc]
    constructor
    · intro heq
      exact (Nat.mul_eq_zero.mp (eq_zero_of_mul_mod hfits hk heq)).resolve_right hpos.ne'
    · intro hzero
      rw [value, hzero, Nat.zero_mul, Nat.zero_mul, Nat.zero_mod]
  rw [BitVec.toNat_ofNat]
  unfold memTotalFactor at *
  cases hunit : size.unit with
  | none =>
    rw [hunit] at hwrong
    rw [hwrong (2 ^ 20 - 1) (by decide) (by decide) rfl]
    simp
  | some unit =>
    rw [hunit] at hwrong hright
    cases unit with
    | KB =>
      rw [hwrong 1023 (by decide) (by decide) rfl]
      simp
    | kB => exact iff_of_true (hright rfl) (Or.inr ⟨_, rfl, SizeUnit.noConfusion⟩)
    | mB => exact iff_of_true (hright rfl) (Or.inr ⟨_, rfl, SizeUnit.noConfusion⟩)
    | MB => exact iff_of_true (hright rfl) (Or.inr ⟨_, rfl, SizeUnit.noConfusion⟩)

/-- The factor for the size of the swap space is the right one for all units but `KB`. -/
theorem swapTotalFactor_iff : (BitVec.ofNat 64 (size.number * size.swapTotalFactor)).toNat =
    size.value ↔ size.number = 0 ∨ size.unit ≠ some .KB := by
  have hfits : size.number * SizeUnit.factor size.unit < 2 ^ 64 := size.fits
  rw [BitVec.toNat_ofNat, value, swapTotalFactor]
  by_cases hunit : size.unit = some .KB
  · rw [hunit] at hfits ⊢
    simp [SizeUnit.factor] at hfits ⊢
    omega
  · rw [if_neg hunit]
    exact iff_of_true (Nat.mod_eq_of_lt hfits) (Or.inr hunit)

end Size

/-- Of a size that may be missing. -/
theorem getD_map_eq_iff (size? : Option Size) (old : BitVec 64) {f : Size → BitVec 64}
    {Good : Size → Prop} (h : ∀ size, (f size).toNat = size.value ↔ Good size) :
    ((size?.map f).getD old).toNat = (size?.map Size.value).getD old.toNat ↔
      ∀ size, size? = some size → Good size := by
  cases size? with
  | none => exact iff_of_true rfl fun _ h ↦ absurd h.symm (Option.some_ne_none _)
  | some size =>
    refine (h size).trans ⟨fun hgood other heq ↦ ?_, fun hall ↦ hall size rfl⟩
    exact Option.some.inj heq ▸ hgood

/-- The files are read to their ends. The sizes are those of the last lines that have them unless
the last size of the memory has no unit or the last size of the memory or the swap space has the
unit `KB`, and it is not zero. -/
theorem sizesRead_iff (info : HardwareInfo) (cpuinfo : List (Shown CpuinfoEntry CpuinfoEntry.bytes))
    (meminfo : List (Shown MeminfoEntry MeminfoEntry.bytes)) :
    ∃ new,
      (∀ fuel, (∀ l ∈ cpuinfo, l.line.text.length ≤ fuel) →
        parseProcFiles fuel true (some (cpuinfo.map fun l ↦ l.line.buffer))
          (some (meminfo.map fun l ↦ l.line.buffer)) info = done new) ∧
      (SizesRead info new cpuinfo meminfo ↔
        (∀ size, lastSize MeminfoEntry.memTotal? meminfo = some size →
          size.number = 0 ∨ ∃ unit, size.unit = some unit ∧ unit ≠ .KB) ∧
        ∀ size, lastSize MeminfoEntry.swapTotal? meminfo = some size →
          size.number = 0 ∨ size.unit ≠ some .KB) := by
  refine ⟨(meminfo.map fun l ↦ l.line.text).foldl meminfoText
    ((cpuinfo.map fun l ↦ l.line.text).foldl cpuinfoText info), fun fuel hfuel ↦ ?_, ?_⟩
  · have hfuel' : ∀ l ∈ cpuinfo.map Shown.line, l.text.length ≤ fuel :=
      List.forall_mem_map.mpr hfuel
    have hparse := parseProcFiles_eq info (cpuinfo.map Shown.line) (meminfo.map Shown.line) hfuel'
    simp only [List.map_map] at hparse
    exact hparse
  · have hcache := read_foldl (fun info e ↦ (cpuinfoText_bytes info e).1) cpuinfo info
    have hcpu := unread_foldl (fun info e ↦ (cpuinfoText_bytes info e).2.1) cpuinfo info
    have hcpu' := unread_foldl (fun info e ↦ (cpuinfoText_bytes info e).2.2) cpuinfo info
    generalize (cpuinfo.map fun l ↦ l.line.text).foldl cpuinfoText info = middle at *
    have hmem := read_foldl (fun info e ↦ (meminfoText_bytes info e).1) meminfo middle
    have hswap := read_foldl (fun info e ↦ (meminfoText_bytes info e).2.1) meminfo middle
    have hkept := unread_foldl (fun info e ↦ (meminfoText_bytes info e).2.2) meminfo middle
    generalize (meminfo.map fun l ↦ l.line.text).foldl meminfoText middle = new at *
    rw [hcache] at hkept
    rw [hcpu] at hmem
    rw [hcpu'] at hswap
    have hcacheRead : new.cpuCacheSize.toNat =
        ((lastSize CpuinfoEntry.size? cpuinfo).map Size.value).getD info.cpuCacheSize.toNat := by
      have hfits : ∀ size : Size, (BitVec.ofNat 64 size.value).toNat = size.value ↔ True :=
        fun size ↦ iff_of_true (Nat.mod_eq_of_lt size.fits) trivial
      rw [hkept]
      exact (getD_map_eq_iff _ _ hfits).mpr fun _ _ ↦ trivial
    have hmemRead := getD_map_eq_iff (lastSize MeminfoEntry.memTotal? meminfo) info.memoryTotal
      Size.memTotalFactor_iff
    have hswapRead := getD_map_eq_iff (lastSize MeminfoEntry.swapTotal? meminfo) info.swapTotal
      Size.swapTotalFactor_iff
    rw [← hmem] at hmemRead
    rw [← hswap] at hswapRead
    exact ⟨fun h ↦ ⟨hmemRead.mp h.memoryTotal, hswapRead.mp h.swapTotal⟩,
      fun h ↦ ⟨hcacheRead, hmemRead.mpr h.1, hswapRead.mpr h.2⟩⟩

/-! ### One kilobyte -/

/-- `" 1 KB\n"`. -/
def oneKB : Size where
  blanks := 0
  digits := [49]
  unit := some .KB
  terminated := true
  isdigit_digits := List.all_eq_true.mp rfl
  digits_ne_nil := List.cons_ne_nil _ _
  fits := by decide

/-- `"MemTotal: 1 KB\n"`, in a buffer of 1024 bytes. -/
def memTotalOneKB : Shown MeminfoEntry MeminfoEntry.bytes where
  line :=
    { buffer := (Buffer.calloc 1024 0 fun _ ↦ 0).store 0 (MeminfoEntry.memTotal oneKB).bytes
      text := (MeminfoEntry.memTotal oneKB).bytes
      isText := (Buffer.isText_store _ le_rfl (by decide) (by decide)).1
      size_le := by
        rw [Buffer.size_store]
        decide }
  entry := .memTotal oneKB
  text_eq := rfl

/-- The members before anything has been read. -/
def unread : HardwareInfo := ⟨[], 0, 0, 0, 0⟩

/-- A memory of one kilobyte is taken for one of a megabyte. -/
theorem not_sizesRead_memTotalOneKB :
    ∃ new, parseProcFiles 0 true (some []) (some [memTotalOneKB.line.buffer]) unread = done new ∧
      new.memoryTotal = 1048576 ∧ oneKB.value = 1024 ∧
      ¬ SizesRead unread new [] [memTotalOneKB] := by
  have hmem : (meminfoText unread memTotalOneKB.line.text).memoryTotal = 1048576 :=
    (meminfoText_bytes unread (.memTotal oneKB)).1
  refine ⟨_, parseProcFiles_eq unread [] [memTotalOneKB.line] (List.forall_mem_nil _), hmem, rfl,
    fun h ↦ ?_⟩
  have hread : (1048576 : BitVec 64).toNat = oneKB.value := hmem ▸ h.memoryTotal
  exact absurd hread (by decide)

end Nebula.HardwareInfo
