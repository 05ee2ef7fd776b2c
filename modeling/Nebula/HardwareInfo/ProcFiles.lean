import Nebula.HardwareInfo.RightTrim
import Nebula.Library.Bytes
import Nebula.Strings.Numbers
import Nebula.Strings.Strlcpy

/-!
`HardwareInfo`: what `/proc/cpuinfo` and `/proc/meminfo` say about the machine. Both files are read
line by line into one buffer. A size is followed by its unit, and the unit is looked for with
`strchr`: behind the key in `parseCpuinfo`, and in the whole line in `parseMemInfo`.

A line is handled in place, and what it comes to depends on its text alone
(`cpuinfoLine_eq`, `meminfoLine_eq`). `latest_foldl` is the rule for values that later lines
overwrite.
-/

set_option autoImplicit false
set_option relaxedAutoImplicit false

namespace Nebula

open Library Strings Outcome

/-- The static members. -/
structure HardwareInfo where
  cpuModelName : List UInt8
  numOfProcessors : BitVec 64
  cpuCacheSize : BitVec 64
  memoryTotal : BitVec 64
  swapTotal : BitVec 64

namespace HardwareInfo

/-- `strstr`: a string from the first occurrence of another one on. -/
def strstr (s needle : List UInt8) : Option (List UInt8) := s.tails.find? needle.isPrefixOf

/-- A size with its unit, `'k'` or `second`, or `'m'` or `'M'`, somewhere in a string. -/
def scaled (size : BitVec 64) (s : List UInt8) (second : UInt8) : BitVec 64 :=
  if 107 ∈ s ∨ second ∈ s then size * 1024
  else if 109 ∈ s ∨ 77 ∈ s then size * 1048576
  else size

/-! ### The files -/

/-- The body of the loop of `parseCpuinfo`. -/
def cpuinfoLine (fuel : ℕ) (info : HardwareInfo) (line : Buffer UInt8) : Outcome HardwareInfo :=
  if strstr (line.text 0) (ascii "model name") = some (line.text 0) then
    let info := { info with numOfProcessors := info.numOfProcessors + 1 }
    (rightTrim fuel line).map fun s ↦
      match strstr (s.line.text 0) (ascii ": ") with
      | none => info
      | some pos => { info with cpuModelName := (strlcpy (pos.drop 2) 1024).1 }
  else if strstr (line.text 0) (ascii "cache size") = some (line.text 0) then
    (rightTrim fuel line).map fun s ↦
      match strstr (s.line.text 0) (ascii ": ") with
      | none => info
      | some pos => { info with cpuCacheSize := scaled (strToU64 (pos.drop 2) false) pos 75 }
  else done info

/-- The body of the loop of `parseMemInfo`, where both tests for kilobytes are for `'k'`. -/
def meminfoLine (info : HardwareInfo) (line : Buffer UInt8) : HardwareInfo :=
  let s := line.text 0
  let info :=
    if strstr s (ascii "MemTotal:") = some s then
      { info with memoryTotal := scaled (strToU64 (s.drop 9) false) s 107 }
    else info
  if strstr s (ascii "SwapTotal:") = some s then
    { info with swapTotal := scaled (strToU64 (s.drop 10) false) s 107 }
  else info

/-- The loop of `parseCpuinfo`, over what `getline` leaves in the buffer. -/
def cpuinfoLoop (fuel : ℕ) : List (Buffer UInt8) → HardwareInfo → Outcome HardwareInfo
  | [], info => done info
  | line :: lines, info => (cpuinfoLine fuel info line).andThen (cpuinfoLoop fuel lines)

/-- `parseCpuinfo`; there is no file if `fopen` fails. -/
def parseCpuinfo (fuel : ℕ) (fin : Option (List (Buffer UInt8))) (info : HardwareInfo) :
    Outcome HardwareInfo :=
  match fin with
  | none => done info
  | some lines => cpuinfoLoop fuel lines info

def parseMemInfo (fin : Option (List (Buffer UInt8))) (info : HardwareInfo) : HardwareInfo :=
  match fin with
  | none => info
  | some lines => lines.foldl meminfoLine info

/-- `parseProcFiles`; `allocated` says whether `malloc` succeeds. -/
def parseProcFiles (fuel : ℕ) (allocated : Bool) (cpuinfo meminfo : Option (List (Buffer UInt8)))
    (info : HardwareInfo) : Outcome HardwareInfo :=
  if !allocated then done info
  else (parseCpuinfo fuel cpuinfo info).andThen fun info ↦ done (parseMemInfo meminfo info)

/-- `checkAndParse`. -/
def checkAndParse (fuel : ℕ) (allocated : Bool) (cpuinfo meminfo : Option (List (Buffer UInt8)))
    (info : HardwareInfo) : Outcome HardwareInfo :=
  parseProcFiles fuel allocated cpuinfo meminfo
    { info with cpuModelName := (strlcpy (ascii "unknown") 1024).1 }

/-! ### Searching -/

variable {s t needle : List UInt8} {c : UInt8}

theorem strstr_cons (c : UInt8) (s needle : List UInt8) :
    strstr (c :: s) needle = if needle <+: c :: s then some (c :: s) else strstr s needle := by
  rw [strstr, List.tails_cons, List.find?_cons]
  by_cases h : needle <+: c :: s
  · rw [List.isPrefixOf_iff_prefix.mpr h, if_pos h]
  · rw [Bool.eq_false_iff.mpr fun hp ↦ h (List.isPrefixOf_iff_prefix.mp hp), if_neg h, strstr]

/-- What is found is not longer than the string. -/
theorem length_le_of_strstr (h : strstr s needle = some t) : t.length ≤ s.length :=
  ((List.mem_tails _ _).mp (List.mem_of_find?_eq_some h)).length_le

/-- A string is found at the start of another one exactly if the other one starts with it. -/
theorem strstr_eq_self_iff : strstr s needle = some s ↔ needle <+: s := by
  cases s with
  | nil =>
    rw [List.prefix_nil]
    cases needle <;> simp [strstr]
  | cons c s =>
    rw [strstr_cons]
    split_ifs with h
    · exact iff_of_true rfl h
    · refine iff_of_false (fun heq ↦ ?_) h
      exact absurd (length_le_of_strstr heq) (Nat.not_succ_le_self _)

/-- What cannot contain the start of a string is passed over. -/
theorem strstr_append (hc : c ∉ s) (t needle : List UInt8) :
    strstr (s ++ t) (c :: needle) = strstr t (c :: needle) := by
  induction s with
  | nil => rfl
  | cons d s ih =>
    obtain ⟨hd, hs⟩ := not_or.mp (mt List.mem_cons.mpr hc)
    rw [List.cons_append, strstr_cons, if_neg fun h ↦ hd (List.cons_prefix_cons.mp h).1, ih hs]

/-! ### Lines as texts -/

/-- A line without the whitespace at its end. -/
def rightTrimmed (s : List UInt8) : List UInt8 := s.rdropWhile fun c ↦ decide (c ∈ whitespace)

/-- What a line of `/proc/cpuinfo` comes to. -/
def cpuinfoText (info : HardwareInfo) (s : List UInt8) : HardwareInfo :=
  if ascii "model name" <+: s then
    let info := { info with numOfProcessors := info.numOfProcessors + 1 }
    match strstr (rightTrimmed s) (ascii ": ") with
    | none => info
    | some pos => { info with cpuModelName := (strlcpy (pos.drop 2) 1024).1 }
  else if ascii "cache size" <+: s then
    match strstr (rightTrimmed s) (ascii ": ") with
    | none => info
    | some pos => { info with cpuCacheSize := scaled (strToU64 (pos.drop 2) false) pos 75 }
  else info

/-- What a line of `/proc/meminfo` comes to. -/
def meminfoText (info : HardwareInfo) (s : List UInt8) : HardwareInfo :=
  let info :=
    if ascii "MemTotal:" <+: s then
      { info with memoryTotal := scaled (strToU64 (s.drop 9) false) s 107 }
    else info
  if ascii "SwapTotal:" <+: s then
    { info with swapTotal := scaled (strToU64 (s.drop 10) false) s 107 }
  else info

theorem meminfoLine_eq (info : HardwareInfo) (l : Line) :
    meminfoLine info l.buffer = meminfoText info l.text := by
  unfold meminfoLine meminfoText
  simp only [l.isText.text_eq, strstr_eq_self_iff]

/-- A line that starts with a visible character is trimmed, and its text is looked at. -/
theorem map_rightTrim {τ : Type*} (l : Line) (hc : c ∉ whitespace) (h : c :: needle <+: l.text)
    {fuel : ℕ} (hfuel : l.text.length ≤ fuel) (f : List UInt8 → τ) :
    (rightTrim fuel l.buffer).map (fun s ↦ f (s.line.text 0)) = done (f (rightTrimmed l.text)) := by
  obtain ⟨s, hs, htext⟩ := rightTrim_spec l ⟨c, h.subset List.mem_cons_self, hc⟩ hfuel
  rw [hs, Outcome.map, htext.text_eq]
  rfl

theorem cpuinfoLine_eq (info : HardwareInfo) (l : Line) {fuel : ℕ}
    (hfuel : l.text.length ≤ fuel) :
    cpuinfoLine fuel info l.buffer = done (cpuinfoText info l.text) := by
  unfold cpuinfoLine cpuinfoText
  simp only [l.isText.text_eq, strstr_eq_self_iff]
  by_cases hmodel : ascii "model name" <+: l.text
  · rw [if_pos hmodel, if_pos hmodel]
    exact map_rightTrim l (by decide) hmodel hfuel fun s ↦
      match strstr s (ascii ": ") with
      | none => { info with numOfProcessors := info.numOfProcessors + 1 }
      | some pos =>
          { info with
            numOfProcessors := info.numOfProcessors + 1
            cpuModelName := (strlcpy (pos.drop 2) 1024).1 }
  · rw [if_neg hmodel, if_neg hmodel]
    by_cases hcache : ascii "cache size" <+: l.text
    · rw [if_pos hcache, if_pos hcache]
      exact map_rightTrim l (by decide) hcache hfuel fun s ↦
        match strstr s (ascii ": ") with
        | none => info
        | some pos => { info with cpuCacheSize := scaled (strToU64 (pos.drop 2) false) pos 75 }
    · rw [if_neg hcache, if_neg hcache]

/-- What the files come to. -/
theorem parseProcFiles_eq (info : HardwareInfo) (cpuinfo meminfo : List Line) {fuel : ℕ}
    (hfuel : ∀ l ∈ cpuinfo, l.text.length ≤ fuel) :
    parseProcFiles fuel true (some (cpuinfo.map Line.buffer)) (some (meminfo.map Line.buffer))
        info =
      done ((meminfo.map Line.text).foldl meminfoText
        ((cpuinfo.map Line.text).foldl cpuinfoText info)) := by
  have hloop : ∀ (info : HardwareInfo), cpuinfoLoop fuel (cpuinfo.map Line.buffer) info =
      done ((cpuinfo.map Line.text).foldl cpuinfoText info) := by
    induction cpuinfo with
    | nil => exact fun _ ↦ rfl
    | cons l cpuinfo ih =>
      intro info
      obtain ⟨hl, hrest⟩ := List.forall_mem_cons.mp hfuel
      rw [List.map_cons, cpuinfoLoop, cpuinfoLine_eq info l hl, andThen_done, ih hrest]
      rfl
  have hmem : ∀ info : HardwareInfo, (meminfo.map Line.buffer).foldl meminfoLine info =
      (meminfo.map Line.text).foldl meminfoText info := by
    intro info
    rw [List.foldl_map, List.foldl_map]
    exact congrArg (meminfo.foldl · info) (funext₂ meminfoLine_eq)
  show (cpuinfoLoop fuel (cpuinfo.map Line.buffer) info).andThen _ = _
  rw [hloop, andThen_done, parseMemInfo, hmem]

/-! ### Values that later lines overwrite -/

/-- If each entry either gives a value or leaves it alone, then the last value that is given is the
one that remains. -/
theorem latest_foldl {σ α β : Type*} {step : σ → α → σ} {read : σ → β} {value : α → Option β}
    (hstep : ∀ s a, read (step s a) = (value a).getD (read s)) (entries : List α) (s : σ) :
    read (entries.foldl step s) = ((entries.filterMap value).getLast?).getD (read s) := by
  induction entries generalizing s with
  | nil => rfl
  | cons a entries ih =>
    rw [List.foldl_cons, ih, hstep]
    cases hvalue : value a with
    | none => rw [List.filterMap_cons_none hvalue, Option.getD_none]
    | some v =>
      rw [List.filterMap_cons_some hvalue, List.getLast?_cons, Option.getD_some, Option.getD_some]

end HardwareInfo

end Nebula
