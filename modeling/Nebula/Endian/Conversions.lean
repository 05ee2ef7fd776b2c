import Nebula.Library.ByteOrder

/-!
`Endian`: the conversions between the byte order of the host and a given one. The host is asked for
its byte order by looking at the bytes of a number in memory, and a conversion either leaves a
number as it is or reverses its bytes.

A swap that reverses the bytes (`Reverses`) makes the conversions right on every host
(`converts_of_reverses`), and all three swaps do (`converts`).
-/

set_option autoImplicit false
set_option relaxedAutoImplicit false

namespace Nebula.Endian

open Library

/-- How a host lays out integers in memory. -/
inductive Host where
  | little
  | big
  deriving DecidableEq

/-- The bytes of an integer in memory. -/
def Host.bytes (host : Host) (n : ℕ) {w : ℕ} (x : BitVec w) : List UInt8 :=
  match host with
  | .little => littleEndian n x.toNat
  | .big => bigEndian n x.toNat

/-! ### The functions -/

def swap16 (x : BitVec 16) : BitVec 16 := ((x &&& 0xff) <<< 8) ||| (x >>> 8)

/-- The loop of `swap32` and `swap64`, with the number of iterations that are left. -/
def swapLoop {w : ℕ} : ℕ → BitVec w → BitVec w → BitVec w
  | 0, _, out => out
  | i + 1, x, out => swapLoop i (x >>> 8) ((out <<< 8) ||| (x &&& BitVec.ofNat w 0xff))

def swap32 (x : BitVec 32) : BitVec 32 := swapLoop 4 x 0

def swap64 (x : BitVec 64) : BitVec 64 := swapLoop 8 x 0

def isLittleEndian (host : Host) : Bool :=
  let ptr := host.bytes 2 (0x1234 : BitVec 16)
  decide (ptr.getD 0 0 > ptr.getD 1 0)

def isBigEndian (host : Host) : Bool :=
  let ptr := host.bytes 2 (0x1234 : BitVec 16)
  decide (ptr.getD 0 0 < ptr.getD 1 0)

/-- All conversions: the number remains as it is if the host has the byte order already. -/
def convert {α : Type*} (same : Bool) (swap : α → α) (x : α) : α := if same then x else swap x

def toBe16 (host : Host) : BitVec 16 → BitVec 16 := convert (isBigEndian host) swap16

def toLe16 (host : Host) : BitVec 16 → BitVec 16 := convert (isLittleEndian host) swap16

def fromBe16 (host : Host) : BitVec 16 → BitVec 16 := convert (isBigEndian host) swap16

def fromLe16 (host : Host) : BitVec 16 → BitVec 16 := convert (isLittleEndian host) swap16

def toBe32 (host : Host) : BitVec 32 → BitVec 32 := convert (isBigEndian host) swap32

def toLe32 (host : Host) : BitVec 32 → BitVec 32 := convert (isLittleEndian host) swap32

def fromBe32 (host : Host) : BitVec 32 → BitVec 32 := convert (isBigEndian host) swap32

def fromLe32 (host : Host) : BitVec 32 → BitVec 32 := convert (isLittleEndian host) swap32

def toBe64 (host : Host) : BitVec 64 → BitVec 64 := convert (isBigEndian host) swap64

def toLe64 (host : Host) : BitVec 64 → BitVec 64 := convert (isLittleEndian host) swap64

def fromBe64 (host : Host) : BitVec 64 → BitVec 64 := convert (isBigEndian host) swap64

def fromLe64 (host : Host) : BitVec 64 → BitVec 64 := convert (isLittleEndian host) swap64

/-! ### Reversing the bytes -/

/-- A swap reverses the bytes of every integer. -/
def Reverses (n : ℕ) {w : ℕ} (swap : BitVec w → BitVec w) : Prop :=
  ∀ x, littleEndian n (swap x).toNat = bigEndian n x.toNat

section Swap

variable {w : ℕ}

/-- Room is made for a byte behind the others. -/
theorem toNat_shiftLeft_byte {out : BitVec w} (hout : out.toNat * 256 + 255 < 2 ^ w) :
    (out <<< 8).toNat = out.toNat * 2 ^ 8 := by
  rw [BitVec.toNat_shiftLeft, Nat.shiftLeft_eq]
  exact Nat.mod_eq_of_lt (lt_of_le_of_lt (Nat.le_add_right _ 255) hout)

theorem toNat_and_byte (hw : 8 ≤ w) (x : BitVec w) :
    (x &&& BitVec.ofNat w 0xff).toNat = x.toNat % 256 := by
  have hpow : 2 ^ 8 ≤ 2 ^ w := Nat.pow_le_pow_right (by decide) hw
  have hbyte : 0xff % 2 ^ w = 2 ^ 8 - 1 := Nat.mod_eq_of_lt (by omega)
  rw [BitVec.toNat_and, BitVec.toNat_ofNat, hbyte, Nat.and_two_pow_sub_one_eq_mod]

theorem toNat_shiftRight_byte (x : BitVec w) : (x >>> 8).toNat = x.toNat / 256 := by
  rw [BitVec.toNat_ushiftRight, Nat.shiftRight_eq_div_pow]

/-- The loop puts the bytes of a number behind those that it has put there before, the lowest
first. -/
theorem toNat_swapLoop {n : ℕ} (hw : w = 8 * n) : ∀ (i : ℕ) (x out : BitVec w), i ≤ n →
    out.toNat < 256 ^ (n - i) → (swapLoop i x out).toNat =
      (littleEndian i x.toNat).foldl (fun v c ↦ v * 256 + c.toNat) out.toNat := by
  intro i
  induction i with
  | zero => exact fun x out _ _ ↦ rfl
  | succ i ih =>
    intro x out hi hout
    have hpow : 256 ^ (n - i) = 256 ^ (n - (i + 1)) * 256 := by
      rw [← pow_succ]
      congr 1
      omega
    have hle : 256 ^ (n - i) ≤ 2 ^ w := by
      rw [hw, pow_mul]
      exact Nat.pow_le_pow_right (by decide) (Nat.sub_le n i)
    have hb := toNat_and_byte (show 8 ≤ w by omega) x
    have hnext : ((out <<< 8) ||| (x &&& BitVec.ofNat w 0xff)).toNat =
        out.toNat * 256 + x.toNat % 256 := by
      rw [toNat_shiftLeft_or (toNat_shiftLeft_byte (by omega)) (by omega), hb]
      rfl
    rw [swapLoop, ih _ _ (by omega) (by omega), hnext, toNat_shiftRight_byte, littleEndian,
      List.foldl_cons, toNat_ofNat_mod]

theorem reverses_of_foldl {n : ℕ} {swap : BitVec w → BitVec w}
    (h : ∀ x, (swap x).toNat = (littleEndian n x.toNat).foldl (fun v c ↦ v * 256 + c.toNat) 0) :
    Reverses n swap := by
  intro x
  have hback := littleEndian_ofLittleEndian (bigEndian n x.toNat)
  rw [length_bigEndian] at hback
  rw [h, foldl_bytes]
  exact hback

theorem reverses_swapLoop {n : ℕ} (hw : w = 8 * n) : Reverses n (swapLoop n · (0 : BitVec w)) :=
  reverses_of_foldl fun x ↦ toNat_swapLoop hw n x 0 le_rfl (by simp)

/-- The masks do what two iterations of the loop would. -/
theorem reverses_swap16 : Reverses 2 swap16 := by
  refine reverses_of_foldl fun x ↦ ?_
  have hx := x.isLt
  have hlow : (x &&& (0xff : BitVec 16)).toNat = x.toNat % 256 := toNat_and_byte (by decide) x
  have hhigh := toNat_shiftRight_byte x
  have hdiv : x.toNat / 256 % 256 = x.toNat / 256 := by omega
  rw [swap16, toNat_shiftLeft_or (toNat_shiftLeft_byte (by omega)) (by omega), hlow, hhigh]
  rw [littleEndian, littleEndian, littleEndian, List.foldl_cons, List.foldl_cons, List.foldl_nil,
    toNat_ofNat_mod, toNat_ofNat_mod, hdiv, Nat.zero_mul, Nat.zero_add]
  rfl

end Swap

/-! ### The conversions -/

/-- The probes find out what the host is. -/
theorem isBigEndian_eq (host : Host) : isBigEndian host = decide (host = .big) ∧
    isLittleEndian host = decide (host = .little) := by
  cases host <;> decide

/-- The four conversions of integers of `n` bytes are right: what they make of an integer has the
bytes of the integer in the given order in memory, and from an integer with such bytes they get the
integer back, so that each pair of them cancels. -/
structure Converts (host : Host) (n : ℕ) {w : ℕ} (toBe toLe fromBe fromLe : BitVec w → BitVec w) :
    Prop where
  bytes_toBe : ∀ x, host.bytes n (toBe x) = bigEndian n x.toNat
  bytes_toLe : ∀ x, host.bytes n (toLe x) = littleEndian n x.toNat
  fromBe_eq : ∀ x y, host.bytes n y = bigEndian n x.toNat → fromBe y = x
  fromLe_eq : ∀ x y, host.bytes n y = littleEndian n x.toNat → fromLe y = x
  fromBe_toBe : ∀ x, fromBe (toBe x) = x
  toBe_fromBe : ∀ x, toBe (fromBe x) = x
  fromLe_toLe : ∀ x, fromLe (toLe x) = x
  toLe_fromLe : ∀ x, toLe (fromLe x) = x

section Convert

variable {n w : ℕ} {swap : BitVec w → BitVec w}

/-- An integer is determined by its bytes. -/
theorem eq_of_littleEndian (hw : w = 8 * n) {x y : BitVec w}
    (h : littleEndian n x.toNat = littleEndian n y.toNat) : x = y := by
  have hpow : 2 ^ w = 256 ^ n := hw ▸ pow_mul 2 8 n
  exact BitVec.eq_of_toNat_eq
    ((littleEndian_inj (hpow ▸ x.isLt) (hpow ▸ y.isLt)).mp h)

theorem Reverses.involutive (h : Reverses n swap) (hw : w = 8 * n) : Function.Involutive swap := by
  intro x
  refine eq_of_littleEndian hw ?_
  rw [h, bigEndian, h, bigEndian, List.reverse_reverse]

theorem convert_involutive {α : Type*} {swap : α → α} (h : Function.Involutive swap) (same : Bool) :
    Function.Involutive (convert same swap) := by
  intro x
  cases same with
  | false => exact h x
  | true => rfl

/-- What a conversion makes of an integer has the bytes of the integer in memory, in the order that
is asked for. -/
theorem Reverses.bytes_convert (h : Reverses n swap) (host : Host) (x : BitVec w) :
    host.bytes n (convert (isBigEndian host) swap x) = bigEndian n x.toNat ∧
      host.bytes n (convert (isLittleEndian host) swap x) = littleEndian n x.toNat := by
  rw [(isBigEndian_eq host).1, (isBigEndian_eq host).2]
  cases host with
  | little => exact ⟨h x, rfl⟩
  | big =>
    refine ⟨rfl, ?_⟩
    show (littleEndian n (swap x).toNat).reverse = littleEndian n x.toNat
    rw [h, bigEndian, List.reverse_reverse]

theorem Host.bytes_injective (host : Host) (hw : w = 8 * n) {x y : BitVec w}
    (h : host.bytes n x = host.bytes n y) : x = y := by
  cases host with
  | little => exact eq_of_littleEndian hw h
  | big => exact eq_of_littleEndian hw (List.reverse_inj.mp h)

/-- A swap that reverses the bytes makes the conversions right on every host. -/
theorem converts_of_reverses (h : Reverses n swap) (hw : w = 8 * n) (host : Host) :
    Converts host n (convert (isBigEndian host) swap) (convert (isLittleEndian host) swap)
      (convert (isBigEndian host) swap) (convert (isLittleEndian host) swap) := by
  have hswap := h.involutive hw
  refine ⟨fun x ↦ (h.bytes_convert host x).1, fun x ↦ (h.bytes_convert host x).2,
    fun x y hbytes ↦ ?_, fun x y hbytes ↦ ?_, convert_involutive hswap _,
    convert_involutive hswap _, convert_involutive hswap _, convert_involutive hswap _⟩
  · -- the only integer with these bytes is what the conversion makes of `x`
    rw [host.bytes_injective hw (hbytes.trans (h.bytes_convert host x).1.symm)]
    exact convert_involutive hswap _ x
  · rw [host.bytes_injective hw (hbytes.trans (h.bytes_convert host x).2.symm)]
    exact convert_involutive hswap _ x

end Convert

/-- On every host and for every width, the conversions are right. -/
theorem converts (host : Host) :
    Converts host 2 (toBe16 host) (toLe16 host) (fromBe16 host) (fromLe16 host) ∧
      Converts host 4 (toBe32 host) (toLe32 host) (fromBe32 host) (fromLe32 host) ∧
      Converts host 8 (toBe64 host) (toLe64 host) (fromBe64 host) (fromLe64 host) :=
  ⟨converts_of_reverses reverses_swap16 rfl host,
    converts_of_reverses (reverses_swapLoop rfl) rfl host,
    converts_of_reverses (reverses_swapLoop rfl) rfl host⟩

end Nebula.Endian
