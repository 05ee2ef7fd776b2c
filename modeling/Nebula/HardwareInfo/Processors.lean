import Nebula.HardwareInfo.Units

/-!
The processors in `/proc/cpuinfo`. There is a line for the model of each processor: the key, blanks
and a colon, and perhaps a space and a name; all other lines are arbitrary.

`processorsRead` says what `checkAndParse` makes of the file, whether or not the memory and the
files are available: the model lines are counted, and the name is the beginning of the last one that
is given, or `"unknown"`.
-/

set_option autoImplicit false
set_option relaxedAutoImplicit false

namespace Nebula.HardwareInfo

open Library Strings Outcome

/-! ### Model lines -/

/-- What stands behind the key of a model line, up to the colon. -/
structure Blanks where
  bytes : List UInt8
  blank : ∀ c ∈ bytes, c = 32 ∨ c = 9

/-- The whitespace at the end of a line. -/
structure LineEnd where
  bytes : List UInt8
  mem_whitespace : ∀ c ∈ bytes, c ∈ whitespace

/-- The name of a model. It ends in a visible character. -/
structure ModelName where
  bytes : List UInt8
  visible : ∃ s c, bytes = s ++ [c] ∧ c ∉ whitespace

inductive ModelEntry where
  | named (blanks : Blanks) (name : ModelName) (lineEnd : LineEnd)
  | unnamed (blanks : Blanks) (lineEnd : LineEnd)
  | other (text : List UInt8) (h : ¬ ascii "model name" <+: text)

namespace ModelEntry

/-- The key and the colon. -/
def key (blanks : Blanks) : List UInt8 := ascii "model name" ++ (blanks.bytes ++ [58])

def bytes : ModelEntry → List UInt8
  | named blanks name lineEnd => key blanks ++ (32 :: name.bytes ++ lineEnd.bytes)
  | unnamed blanks lineEnd => key blanks ++ lineEnd.bytes
  | other text _ => text

def isModel : ModelEntry → Bool
  | other _ _ => false
  | _ => true

def name? : ModelEntry → Option ModelName
  | named _ name _ => some name
  | _ => none

end ModelEntry

/-! ### One line -/

theorem rightTrimmed_append_lineEnd (s : List UInt8) (lineEnd : LineEnd) :
    rightTrimmed (s ++ lineEnd.bytes) = rightTrimmed s := by
  obtain ⟨bytes, hbytes⟩ := lineEnd
  induction bytes using List.reverseRecOn with
  | nil => rw [List.append_nil]
  | append_singleton bytes c ih =>
    have hc := hbytes c (by simp)
    rw [← List.append_assoc, rightTrimmed, List.rdropWhile_concat_pos _ _ _ (by simpa using hc)]
    exact ih fun d hd ↦ hbytes d (List.mem_append_left _ hd)

theorem rightTrimmed_visible (s : List UInt8) {c : UInt8} (hc : c ∉ whitespace) :
    rightTrimmed (s ++ [c]) = s ++ [c] :=
  List.rdropWhile_concat_neg _ _ _ (by simpa using hc)

/-- Behind the key, the name is found. -/
theorem strstr_key (blanks : Blanks) (s : List UInt8) :
    strstr (ModelEntry.key blanks ++ s) (ascii ": ") = strstr (58 :: s) (ascii ": ") := by
  have hcolon : (58 : UInt8) ∉ ascii "model name" ++ blanks.bytes := by
    intro h
    rcases List.mem_append.mp h with h | h
    · exact absurd h (by decide)
    · exact absurd (blanks.blank _ h) (by decide)
  have hkey : ModelEntry.key blanks ++ s = (ascii "model name" ++ blanks.bytes) ++ 58 :: s := by
    simp [ModelEntry.key]
  rw [hkey]
  exact strstr_append hcolon _ _

theorem prefix_key (blanks : Blanks) (s : List UInt8) :
    ascii "model name" <+: ModelEntry.key blanks ++ s :=
  (List.prefix_append ..).trans (List.prefix_append ..)

/-- What a line of `/proc/cpuinfo` does to the processors. -/
theorem cpuinfoText_model (info : HardwareInfo) (e : ModelEntry) :
    (cpuinfoText info e.bytes).numOfProcessors =
        info.numOfProcessors + (if e.isModel then 1 else 0) ∧
      (cpuinfoText info e.bytes).cpuModelName =
        (e.name?.map fun name ↦ name.bytes.take 1023).getD info.cpuModelName := by
  unfold cpuinfoText
  cases e with
  | named blanks name lineEnd =>
    obtain ⟨s, c, hname, hc⟩ := name.visible
    have htrimmed : rightTrimmed (ModelEntry.key blanks ++ (32 :: name.bytes ++ lineEnd.bytes)) =
        ModelEntry.key blanks ++ 32 :: name.bytes := by
      rw [← List.append_assoc, rightTrimmed_append_lineEnd, hname, ← List.cons_append,
        ← List.append_assoc, rightTrimmed_visible _ hc]
    have hfound : strstr (ModelEntry.key blanks ++ 32 :: name.bytes) (ascii ": ") =
        some (58 :: 32 :: name.bytes) := by
      rw [strstr_key]
      exact strstr_eq_self_iff.mpr (List.prefix_append [58, 32] _)
    rw [ModelEntry.bytes, if_pos (prefix_key ..), htrimmed, hfound]
    exact ⟨rfl, congrArg Prod.fst (strlcpy_eq name.bytes 1024)⟩
  | unnamed blanks lineEnd =>
    have htrimmed : rightTrimmed (ModelEntry.key blanks ++ lineEnd.bytes) =
        ModelEntry.key blanks ++ [] := by
      rw [rightTrimmed_append_lineEnd, List.append_nil, ModelEntry.key, ← List.append_assoc,
        rightTrimmed_visible _ (by decide)]
    have hnone : strstr (ModelEntry.key blanks ++ []) (ascii ": ") = none := by
      rw [strstr_key]
      decide
    rw [ModelEntry.bytes, if_pos (prefix_key ..), htrimmed, hnone]
    exact ⟨rfl, rfl⟩
  | other text h =>
    rw [ModelEntry.bytes, if_neg h]
    have hzero : info.numOfProcessors + (if (ModelEntry.other text h).isModel then 1 else 0) =
        info.numOfProcessors := BitVec.add_zero _
    rw [hzero]
    split_ifs
    · cases strstr (rightTrimmed text) (ascii ": ") <;> exact ⟨rfl, rfl⟩
    · exact ⟨rfl, rfl⟩

theorem meminfoText_model (info : HardwareInfo) (s : List UInt8) :
    (meminfoText info s).numOfProcessors = info.numOfProcessors ∧
      (meminfoText info s).cpuModelName = info.cpuModelName := by
  unfold meminfoText
  simp only
  split_ifs <;> exact ⟨rfl, rfl⟩

/-! ### Whole files -/

/-- The lines of `/proc/cpuinfo` as `getline` yields them. -/
abbrev ModelLines := List (Shown ModelEntry ModelEntry.bytes)

namespace ModelLines

def texts (lines : ModelLines) : List (List UInt8) := lines.map fun l ↦ l.line.text

def processors (lines : ModelLines) : ℕ := lines.countP fun l ↦ l.entry.isModel

/-- The last name that is given. -/
def lastName (lines : ModelLines) : Option ModelName :=
  (lines.filterMap fun l ↦ l.entry.name?).getLast?

theorem numOfProcessors_foldl (lines : ModelLines) (info : HardwareInfo) :
    (lines.texts.foldl cpuinfoText info).numOfProcessors =
      info.numOfProcessors + BitVec.ofNat 64 lines.processors := by
  induction lines generalizing info with
  | nil => exact (BitVec.add_zero _).symm
  | cons l lines ih =>
    have hline := (cpuinfoText_model info l.entry).1
    have hfold : (texts (l :: lines)).foldl cpuinfoText info =
        (texts lines).foldl cpuinfoText (cpuinfoText info l.entry.bytes) := by
      rw [texts, List.map_cons, List.foldl_cons, l.text_eq]
      rfl
    rw [hfold, ih, hline, processors, processors, List.countP_cons, BitVec.add_assoc,
      Nat.add_comm (List.countP _ lines), BitVec.ofNat_add]
    cases l.entry.isModel <;> rfl

theorem cpuModelName_foldl (lines : ModelLines) (info : HardwareInfo) :
    (lines.texts.foldl cpuinfoText info).cpuModelName =
      (lines.lastName.map fun name ↦ name.bytes.take 1023).getD info.cpuModelName := by
  have hline : ∀ info (l : Shown ModelEntry ModelEntry.bytes),
      (cpuinfoText info l.line.text).cpuModelName =
        (l.entry.name?.map fun name ↦ name.bytes.take 1023).getD info.cpuModelName :=
    fun info l ↦ by rw [l.text_eq, (cpuinfoText_model info l.entry).2]
  rw [texts, List.foldl_map, latest_foldl hline, lastName, ← List.getLast?_map,
    List.map_filterMap]

end ModelLines

theorem foldl_meminfoText (texts : List (List UInt8)) (info : HardwareInfo) :
    (texts.foldl meminfoText info).numOfProcessors = info.numOfProcessors ∧
      (texts.foldl meminfoText info).cpuModelName = info.cpuModelName := by
  induction texts generalizing info with
  | nil => exact ⟨rfl, rfl⟩
  | cons s texts ih =>
    obtain ⟨hnum, hname⟩ := meminfoText_model info s
    exact ⟨(ih _).1.trans hnum, (ih _).2.trans hname⟩

/-- The lines that `parseCpuinfo` gets to see. -/
def linesSeen (allocated : Bool) (cpuinfo : Option ModelLines) : ModelLines :=
  if allocated then cpuinfo.getD [] else []

/-- `checkAndParse` ends. The model lines that it sees are counted, and the name of the processors
is the beginning of the last name that is given. -/
theorem processorsRead (allocated : Bool) (cpuinfo : Option ModelLines)
    (meminfo : Option (List Line)) (info : HardwareInfo) :
    ∃ new,
      (∀ fuel, (∀ l ∈ linesSeen allocated cpuinfo, l.line.text.length ≤ fuel) →
        checkAndParse fuel allocated (cpuinfo.map fun lines ↦ lines.map fun l ↦ l.line.buffer)
          (meminfo.map fun lines ↦ lines.map Line.buffer) info = done new) ∧
      new.numOfProcessors = info.numOfProcessors +
        BitVec.ofNat 64 (linesSeen allocated cpuinfo).processors ∧
      new.cpuModelName = ((linesSeen allocated cpuinfo).lastName.map fun name ↦
        name.bytes.take 1023).getD (ascii "unknown") := by
  let named : HardwareInfo := { info with cpuModelName := (strlcpy (ascii "unknown") 1024).1 }
  have hunknown : named.cpuModelName = ascii "unknown" :=
    congrArg Prod.fst (strlcpy_eq (ascii "unknown") 1024)
  cases allocated with
  | false => exact ⟨named, fun _ _ ↦ rfl, (BitVec.add_zero _).symm, hunknown⟩
  | true =>
    obtain ⟨hnum, hname⟩ := foldl_meminfoText ((meminfo.getD []).map Line.text)
      ((linesSeen true cpuinfo).texts.foldl cpuinfoText named)
    refine ⟨_, fun fuel hfuel ↦ ?_, hnum.trans (ModelLines.numOfProcessors_foldl _ _),
      hname.trans ((ModelLines.cpuModelName_foldl _ _).trans (by rw [hunknown]))⟩
    -- A file that cannot be opened is read like an empty one.
    have hopened : checkAndParse fuel true
        (cpuinfo.map fun lines ↦ lines.map fun l ↦ l.line.buffer)
        (meminfo.map fun lines ↦ lines.map Line.buffer) info =
        parseProcFiles fuel true (some ((linesSeen true cpuinfo).map fun l ↦ l.line.buffer))
          (some ((meminfo.getD []).map Line.buffer)) named := by
      cases cpuinfo <;> cases meminfo <;> rfl
    have hparse := parseProcFiles_eq named ((linesSeen true cpuinfo).map Shown.line)
      (meminfo.getD []) (List.forall_mem_map.mpr hfuel)
    simp only [List.map_map] at hparse
    exact hopened.trans hparse

end Nebula.HardwareInfo
