import Nebula.Logging.FileHandle
import Mathlib.Algebra.Order.Group.Nat

/-!
The paths of log files. `setConfig` stores the directory into an array of `PATH_MAX` bytes and the
prefix into one of `NAME_MAX + 1`, lets `strftime` expand the prefix together with the time stamp,
and appends the result to the directory; `switchFile` cuts the array off behind the directory and
appends the next result. What does not fit is cut off or left to chance.

`wellPlaced_of_run` says that the paths are right as long as the directory fits, and each time a
file is opened nothing else is cut off or expanded, or `mkstemp` does not take what has been put
together for a template.
-/

set_option autoImplicit false
set_option relaxedAutoImplicit false

namespace Nebula.Logging

open Nebula.Library Nebula.Strings

/-! ### The system -/

/-- The last six characters of a template, `"XXXXXX"`. -/
def sixXs : Bytes := List.replicate 6 88

/-- `"_%Y.%m.%d.%H.%M.%S_"`. -/
def stampFormat : Bytes := ascii "_%Y.%m.%d.%H.%M.%S_"

/-- `strftime`, for a clock that expands the conversion with a given character. Other characters are
copied. -/
def strftime (expand : UInt8 → Bytes) : Bytes → Bytes
  | [] => []
  | [c] => [c]
  | c :: d :: s => if c = 37 then expand d ++ strftime expand s else c :: strftime expand (d :: s)

/-- The clock, and what the system answers, when a file is opened. The array for the name holds the
result of `strftime` if that fits, and else anything. A string that is no template is refused, and
of a template the last six characters are replaced. -/
structure Opening where
  expand : UInt8 → Bytes
  answers : Answers
  formatEpochTime_eq : ∀ format, (strftime expand format).length ≤ nameMax →
    answers.formatEpochTime format = strftime expand format
  mkstemp_refuses : ∀ template, endsWith template sixXs = false →
    (answers.mkstemp template).1 = template ∧ (answers.mkstemp template).2 < 0
  mkstemp_keeps : ∀ template, (answers.mkstemp template).1.take (template.length - 6) =
    template.take (template.length - 6)

/-! ### Names -/

/-- The directory with a slash at its end. -/
def withSlash (logDir : Bytes) : Bytes :=
  if endsWith logDir slash then logDir else logDir ++ slash

/-- The template that `mkstemp` should be called with. -/
def template (logDir namePrefix : Bytes) (expand : UInt8 → Bytes) : Bytes :=
  withSlash logDir ++ (namePrefix ++ strftime expand stampFormat ++ sixXs)

variable {expand : UInt8 → Bytes} {s : Bytes}

theorem strftime_cons_of_ne {c : UInt8} (h : c ≠ 37) (s : Bytes) :
    strftime expand (c :: s) = c :: strftime expand s := by
  cases s with
  | nil => rfl
  | cons d s => rw [strftime, if_neg h]

/-- A text without conversions is copied. -/
theorem strftime_append (h : 37 ∉ s) (t : Bytes) :
    strftime expand (s ++ t) = s ++ strftime expand t := by
  induction s with
  | nil => rfl
  | cons c s ih =>
    obtain ⟨hc, hs⟩ : 37 ≠ c ∧ 37 ∉ s := by simpa using h
    rw [List.cons_append, strftime_cons_of_ne hc.symm, ih hs, List.cons_append]

theorem strftime_formatSuffix (expand : UInt8 → Bytes) :
    strftime expand formatSuffix = strftime expand stampFormat ++ sixXs := by
  have hstamp : stampFormat =
      [95, 37, 89, 46, 37, 109, 46, 37, 100, 46, 37, 72, 46, 37, 77, 46, 37, 83, 95] := rfl
  have hformat : formatSuffix = stampFormat ++ sixXs := rfl
  rw [hformat, hstamp]
  simp [strftime, sixXs]

/-! ### What fits -/

/-- What is in `format_`. -/
def storedFormat (namePrefix : Bytes) : Bytes := (namePrefix ++ formatSuffix).take nameMax

/-- What is in `log_file_` when `mkstemp` is called. -/
def storedTemplate (logDir namePrefix : Bytes) (o : Opening) : Bytes :=
  (withSlash logDir ++ o.answers.formatEpochTime (storedFormat namePrefix)).take (pathMax - 1)

/-- The prefix has no conversions, and format, name and path fit into their arrays. -/
structure Verbatim (logDir namePrefix : Bytes) (o : Opening) : Prop where
  no_conversion : 37 ∉ namePrefix
  format_fits : namePrefix.length + formatSuffix.length ≤ nameMax
  name_fits : (strftime o.expand (namePrefix ++ formatSuffix)).length ≤ nameMax
  path_fits : (template logDir namePrefix o.expand).length < pathMax

/-- The directory fits, and what is in `log_file_` is right, or it is no template. -/
structure Suits (logDir namePrefix : Bytes) (o : Opening) : Prop where
  dir_fits : (withSlash logDir).length < pathMax
  right_or_refused : Verbatim logDir namePrefix o ∨
    endsWith (storedTemplate logDir namePrefix o) sixXs = false

variable {logDir namePrefix : Bytes} {o : Opening}

theorem Verbatim.storedTemplate_eq (h : Verbatim logDir namePrefix o) :
    storedTemplate logDir namePrefix o = template logDir namePrefix o.expand := by
  have hformat : storedFormat namePrefix = namePrefix ++ formatSuffix :=
    List.take_of_length_le (by rw [List.length_append]; exact h.format_fits)
  have hname : strftime o.expand (namePrefix ++ formatSuffix) =
      namePrefix ++ strftime o.expand stampFormat ++ sixXs := by
    rw [strftime_append h.no_conversion, strftime_formatSuffix, List.append_assoc]
  rw [storedTemplate, hformat, o.formatEpochTime_eq _ h.name_fits, hname]
  exact List.take_of_length_le (Nat.le_sub_one_of_lt h.path_fits)

/-- Whether `mkstemp` takes the template or not, it leaves the directory alone. -/
theorem Suits.mkstemp_spec (h : Suits logDir namePrefix o) :
    (o.answers.mkstemp (storedTemplate logDir namePrefix o)).1.take (withSlash logDir).length =
        withSlash logDir ∧
      ((o.answers.mkstemp (storedTemplate logDir namePrefix o)).2 < 0 ∨
        storedTemplate logDir namePrefix o = template logDir namePrefix o.expand) := by
  rcases h.right_or_refused with hverbatim | hrefused
  · rw [hverbatim.storedTemplate_eq]
    refine ⟨?_, Or.inr rfl⟩
    have hkeeps := o.mkstemp_keeps (template logDir namePrefix o.expand)
    have hlength : (withSlash logDir).length ≤
        (template logDir namePrefix o.expand).length - 6 := by
      have hxs : sixXs.length = 6 := rfl
      simp only [template, List.length_append, hxs]
      omega
    have htake := congrArg (List.take (withSlash logDir).length) hkeeps
    rw [List.take_take, List.take_take, Nat.min_eq_left hlength] at htake
    rw [htake]
    exact List.take_left
  · obtain ⟨hsame, hfd⟩ := o.mkstemp_refuses _ hrefused
    refine ⟨?_, Or.inl hfd⟩
    rw [hsame, storedTemplate, List.take_take, Nat.min_eq_left (Nat.le_sub_one_of_lt h.dir_fits)]
    exact List.take_left

/-! ### The handle -/

theorem storedFormat_eq (namePrefix : Bytes) :
    (strlcat (strlcpy namePrefix (nameMax + 1)).1 formatSuffix (nameMax + 1)).1 =
      storedFormat namePrefix := by
  have hlength : (namePrefix.take nameMax).length < nameMax + 1 := by
    rw [List.length_take]
    exact Nat.lt_succ_of_le (Nat.min_le_left ..)
  have hrest : nameMax - min nameMax namePrefix.length = nameMax - namePrefix.length := by omega
  rw [strlcpy_eq, Nat.add_sub_cancel, strlcat_eq_take hlength, storedFormat, Nat.add_sub_cancel,
    List.take_append, List.take_append, List.take_take, Nat.min_self, List.length_take, hrest]

theorem length_le_withSlash (logDir : Bytes) : logDir.length ≤ (withSlash logDir).length := by
  unfold withSlash
  split_ifs
  · exact le_rfl
  · rw [List.length_append]
    exact Nat.le_add_right ..

theorem withSlash_ne_nil (logDir : Bytes) : (withSlash logDir).length ≠ 0 := by
  unfold withSlash
  split_ifs with hslash
  · intro hnil
    rw [List.length_eq_zero_iff.mp hnil] at hslash
    exact absurd hslash (by decide)
  · rw [List.length_append]
    exact Nat.succ_ne_zero _

namespace FileHandle

variable {h : FileHandle}

/-- The directory is stored with a slash at its end. -/
theorem setDir_of_fits (hfits : (withSlash logDir).length < pathMax) (h : FileHandle) :
    h.setDir logDir =
      { h with logFile := withSlash logDir, pathLen := (withSlash logDir).length } := by
  have hlt : logDir.length < pathMax := (length_le_withSlash logDir).trans_lt hfits
  have hall : strlcpy logDir pathMax = (logDir, logDir.length) := by
    rw [strlcpy_eq, List.take_of_length_le (Nat.le_sub_one_of_lt hlt)]
  unfold withSlash at hfits ⊢
  unfold setDir
  rw [hall]
  by_cases hslash : endsWith logDir slash = true
  · simp only [if_pos hslash]
  · rw [if_neg hslash] at hfits
    have hstored : strlcat logDir slash pathMax = (logDir ++ slash, (logDir ++ slash).length) := by
      refine Prod.ext ?_ ?_
      · rw [strlcat_eq_take hlt]
        exact List.take_of_length_le (Nat.le_sub_one_of_lt hfits)
      · rw [strlcat, if_neg (not_le.mpr hlt), List.length_append]
    simp only [if_neg hslash, hstored]

/-- The path of the log file is where it should be, and so is the file that has been opened, if one
has. -/
structure WellPlaced (logDir namePrefix : Bytes) (o : Opening) (h : FileHandle) : Prop where
  pathLen_lt : h.pathLen < pathMax
  pathLen_eq : h.pathLen = (withSlash logDir).length
  directory : h.logFile.take h.pathLen = withSlash logDir
  opened : h.fd < 0 ∨ (h.logFile, h.fd) = o.answers.mkstemp (template logDir namePrefix o.expand)
  unstrayed : h.strayed = false

/-- The handles of the runs in which every file is opened under the conditions, with the opening of
the last one. -/
inductive Run (logDir namePrefix : Bytes) : Opening → FileHandle → Prop where
  | setConfig {h : FileHandle} (hfresh : h.strayed = false) (frequency : BitVec 32) {o : Opening}
      (hsuits : Suits logDir namePrefix o) :
      Run logDir namePrefix o (h.setConfig (some logDir) namePrefix frequency o.answers).1
  | switchFile {h : FileHandle} {o o' : Opening} (hrun : Run logDir namePrefix o h)
      (hsuits : Suits logDir namePrefix o') :
      Run logDir namePrefix o' (h.switchFile o'.answers).2.1
  | writeMessage {h : FileHandle} {o : Opening} (hrun : Run logDir namePrefix o h) (message : Bytes)
      (result : ℤ) : Run logDir namePrefix o (h.writeMessage message result).2.1

/-- A file has been opened, or refused. -/
theorem wellPlaced_of_opened (hsuits : Suits logDir namePrefix o) {h : FileHandle}
    (hpathLen : h.pathLen = (withSlash logDir).length) (hstrayed : h.strayed = false)
    (hopened : (h.logFile, h.fd) = o.answers.mkstemp (storedTemplate logDir namePrefix o)) :
    WellPlaced logDir namePrefix o h := by
  obtain ⟨hdir, hright⟩ := hsuits.mkstemp_spec
  rw [← hopened] at hdir hright
  refine ⟨hpathLen.trans_lt hsuits.dir_fits, hpathLen, by rw [hpathLen]; exact hdir, ?_, hstrayed⟩
  refine hright.imp id fun heq ↦ ?_
  rw [hopened, heq]

theorem setConfig_spec (hsuits : Suits logDir namePrefix o) (hfresh : h.strayed = false)
    (frequency : BitVec 32) :
    WellPlaced logDir namePrefix o (h.setConfig (some logDir) namePrefix frequency o.answers).1 ∧
      (h.setConfig (some logDir) namePrefix frequency o.answers).1.format =
        storedFormat namePrefix := by
  have htemplate : (strlcat (withSlash logDir)
      (o.answers.formatEpochTime (storedFormat namePrefix)) pathMax).1 =
        storedTemplate logDir namePrefix o := strlcat_eq_take hsuits.dir_fits
  unfold setConfig
  simp only [setDir_of_fits hsuits.dir_fits, if_pos (withSlash_ne_nil logDir), storedFormat_eq,
    htemplate]
  exact ⟨wellPlaced_of_opened hsuits rfl hfresh rfl, trivial⟩

/-- Writing changes the counter only. -/
theorem exists_fsyncToDisk (h : FileHandle) :
    ∃ n calls, h.fsyncToDisk = ({ h with numWrite := n }, calls) := by
  unfold fsyncToDisk
  split_ifs
  · exact ⟨0, _, rfl⟩
  · exact ⟨h.numWrite, _, rfl⟩

theorem exists_writeMessage (h : FileHandle) (message : Bytes) (result : ℤ) :
    ∃ n, (h.writeMessage message result).2.1 = { h with numWrite := n } := by
  unfold writeMessage
  split_ifs
  · obtain ⟨n, calls, hsync⟩ := exists_fsyncToDisk { h with numWrite := h.numWrite + 1 }
    rw [hsync]
    exact ⟨n, rfl⟩
  · exact ⟨h.numWrite, rfl⟩
  · exact ⟨h.numWrite, rfl⟩

theorem switchFile_spec (hsuits : Suits logDir namePrefix o) {o' : Opening}
    (hplaced : WellPlaced logDir namePrefix o' h) (hformat : h.format = storedFormat namePrefix) :
    WellPlaced logDir namePrefix o (h.switchFile o.answers).2.1 ∧
      (h.switchFile o.answers).2.1.format = storedFormat namePrefix := by
  have htemplate : (strlcat (withSlash logDir)
      (o.answers.formatEpochTime (storedFormat namePrefix)) pathMax).1 =
        storedTemplate logDir namePrefix o := strlcat_eq_take hsuits.dir_fits
  have hpathLen : h.pathLen ≠ 0 := by
    rw [hplaced.pathLen_eq]
    exact withSlash_ne_nil logDir
  have hinside : (h.strayed || decide (h.pathLen ≥ pathMax)) = false := by
    rw [hplaced.unstrayed, Bool.false_or]
    exact decide_eq_false (not_le.mpr hplaced.pathLen_lt)
  obtain ⟨n, calls, hsync⟩ := exists_fsyncToDisk h
  unfold switchFile
  simp only [if_pos hpathLen, hsync, hplaced.directory, hformat, htemplate]
  exact ⟨wellPlaced_of_opened hsuits hplaced.pathLen_eq hinside rfl, trivial⟩

theorem Run.spec (hrun : Run logDir namePrefix o h) :
    WellPlaced logDir namePrefix o h ∧ h.format = storedFormat namePrefix := by
  induction hrun with
  | setConfig hfresh frequency hsuits => exact setConfig_spec hsuits hfresh frequency
  | switchFile hrun hsuits ih => exact switchFile_spec hsuits ih.1 ih.2
  | @writeMessage h o hrun message result ih =>
    obtain ⟨n, hwritten⟩ := h.exists_writeMessage message result
    obtain ⟨hplaced, hformat⟩ := ih
    rw [hwritten]
    exact ⟨⟨hplaced.pathLen_lt, hplaced.pathLen_eq, hplaced.directory, hplaced.opened,
      hplaced.unstrayed⟩, hformat⟩

/-- In every run in which every file is opened under the conditions, the directory is in its place,
and `mkstemp` has been called with the right template, or has opened no file. -/
theorem wellPlaced_of_run {h : FileHandle} (hrun : Run logDir namePrefix o h) :
    WellPlaced logDir namePrefix o h :=
  hrun.spec.1

/-- `"00"` for every conversion, and the descriptor 5 for every template. -/
def midnight : Opening where
  expand _ := [48, 48]
  answers :=
    { formatEpochTime := strftime fun _ ↦ [48, 48]
      mkstemp := fun template ↦
        if endsWith template sixXs then
          (template.take (template.length - 6) ++ List.replicate 6 97, 5)
        else (template, -1)
      openTty := -1 }
  formatEpochTime_eq _ _ := rfl
  mkstemp_refuses template h := by
    simp only [h, Bool.false_eq_true, if_false]
    exact ⟨trivial, by decide⟩
  mkstemp_keeps template := by
    by_cases hxs : endsWith template sixXs = true
    · simp only [if_pos hxs]
      exact List.take_left' (by rw [List.length_take]; omega)
    · simp only [if_neg hxs]

/-- The prefix `log` in the directory `/a`. -/
theorem suits_midnight : Suits [47, 97] [108, 111, 103] midnight where
  dir_fits := by decide
  right_or_refused := Or.inl ⟨by decide, by decide, by decide, by decide⟩

/-- The second file of a handle. -/
theorem wellPlaced_of_run_midnight : WellPlaced [47, 97] [108, 111, 103] midnight
    ((new.setConfig (some [47, 97]) [108, 111, 103] 0 midnight.answers).1.switchFile
      midnight.answers).2.1 :=
  wellPlaced_of_run (.switchFile (.setConfig rfl 0 suits_midnight) suits_midnight)

/-- The NUL behind the directory misses the array if the length that has been kept is too large. -/
theorem strayed_switchFile {h : FileHandle} (hpathLen : h.pathLen = pathMax) (answers : Answers) :
    (h.switchFile answers).2.1.strayed = true := by
  have hne : h.pathLen ≠ 0 := by
    rw [hpathLen]
    decide
  obtain ⟨n, calls, hsync⟩ := exists_fsyncToDisk h
  unfold switchFile
  simp only [if_pos hne, hsync]
  rw [decide_eq_true hpathLen.ge, Bool.or_true]

/-- A directory that is cut off by one byte is taken to be as long as the array. -/
theorem pathLen_setDir_of_length_eq (h : FileHandle) (hlength : logDir.length = pathMax)
    (hslash : endsWith (logDir.take (pathMax - 1)) slash = false) :
    (h.setDir logDir).pathLen = pathMax := by
  have hkept : (logDir.take (pathMax - 1)).length = pathMax - 1 := by
    rw [List.length_take, hlength]
    rfl
  unfold setDir
  rw [strlcpy_eq]
  simp only [hslash, Bool.false_eq_true, if_false]
  rw [strlcat, hkept, if_neg (by decide)]
  rfl

theorem pathLen_setConfig {h : FileHandle} {frequency : BitVec 32}
    (hdir :
      (({ h with logFile := [], format := [] } : FileHandle).setDir logDir).pathLen = pathMax) :
    (h.setConfig (some logDir) namePrefix frequency o.answers).1.pathLen = pathMax := by
  have hne : (({ h with logFile := [], format := [] } : FileHandle).setDir logDir).pathLen ≠ 0 := by
    rw [hdir]
    decide
  unfold setConfig
  simp only [if_pos hne]
  exact hdir

/-- For a directory of 4096 bytes, a NUL is stored behind the array when the file is switched; for
the prefix `%H`, a file is opened whose name starts with the hour. -/
theorem not_wellPlaced_midnight :
    ((new.setConfig (some (List.replicate 4096 97)) [] 0 midnight.answers).1.pathLen = pathMax ∧
      ((new.setConfig (some (List.replicate 4096 97)) [] 0 midnight.answers).1.switchFile
        midnight.answers).2.1.strayed = true) ∧
    ¬ WellPlaced [47, 97] [37, 72] midnight
      (new.setConfig (some [47, 97]) [37, 72] 0 midnight.answers).1 := by
  have hdir : (new.setDir (List.replicate 4096 97)).pathLen = pathMax := by
    refine pathLen_setDir_of_length_eq new List.length_replicate ?_
    rw [List.take_replicate]
    exact endsWith_slash_replicate (by decide) _
  have hpathLen : (new.setConfig (some (List.replicate 4096 97)) [] 0 midnight.answers).1.pathLen =
      pathMax := pathLen_setConfig hdir
  refine ⟨⟨hpathLen, strayed_switchFile hpathLen midnight.answers⟩, fun hplaced ↦ ?_⟩
  rcases hplaced.opened with hfd | hopened
  · exact absurd hfd (by decide)
  · exact absurd (congrArg Prod.fst hopened) (by decide)

end FileHandle

end Nebula.Logging
