import Nebula.Logging.FileHandle
import Mathlib.Algebra.Group.Nat.Defs
import Mathlib.Data.List.TakeDrop

/-!
What `FileHandle` syncs. The limit `max_write_` is zero from the constructor on, since `setConfig`
does not use the frequency, and `fsyncToDisk` compares the number of writes with it for equality:
directly after a write the two are equal only when the counter has wrapped around.

`unsynced_lt_iff` says that a handle honours the frequency exactly as long as the writes it has made
are fewer than the frequency. `keepsMessages_iff` says when a handle that is also switched from file
to file loses nothing: exactly if every `switchFile` finds the counter at zero, and descriptor 0 is
neither written to nor left to the destructor.
-/

set_option autoImplicit false
set_option relaxedAutoImplicit false

namespace Nebula.Logging.FileHandle

open Nebula.Library Nebula.Strings

/-! ### The handle after `setConfig` -/

variable {h : FileHandle} {s : FileStates}

/-- A handle configured with a directory, and the files it has opened. -/
structure Configured (h : FileHandle) (s : FileStates) : Prop where
  pathLen_ne : h.pathLen ≠ 0
  maxWrite_eq : h.maxWrite = 0
  numWrite_eq : h.numWrite = 0
  isOpen_iff : ∀ fd, s.isOpen fd = true ↔ 0 ≤ fd ∧ fd = h.fd
  unsynced_eq : s.unsynced h.fd = 0

theorem opened_eq_nil {fd : ℤ} (hfd : fd < 0) : opened fd = [] := if_pos hfd

theorem opened_eq_singleton {fd : ℤ} (hfd : 0 ≤ fd) : opened fd = [.opened fd] :=
  if_neg (not_lt.mpr hfd)

/-- Opening a file when no descriptor is open. -/
theorem after_opened (hclosed : ∀ fd, s.isOpen fd = false) (fd : ℤ) :
    (∀ fd', (s.after (opened fd)).isOpen fd' = true ↔ 0 ≤ fd' ∧ fd' = fd) ∧
      (0 ≤ fd ∨ s.unsynced fd = 0 → (s.after (opened fd)).unsynced fd = 0) := by
  rcases lt_or_ge fd 0 with hfd | hfd
  · rw [opened_eq_nil hfd]
    refine ⟨fun fd' ↦ iff_of_false (by simp [hclosed]) (by omega), fun hsynced ↦ ?_⟩
    exact hsynced.resolve_left (by omega)
  · rw [opened_eq_singleton hfd]
    refine ⟨fun fd' ↦ ?_, fun _ ↦ Function.update_self ..⟩
    change Function.update s.isOpen fd true fd' = true ↔ _
    rw [Function.update_apply]
    split_ifs with heq
    · exact iff_of_true rfl ⟨heq ▸ hfd, heq⟩
    · simp [hclosed, heq]

theorem isOpen_allClosed (fd : ℤ) : FileStates.allClosed.isOpen fd = false := rfl

/-- A directory always gives a path. -/
theorem pathLen_setDir (h : FileHandle) (logDir : Bytes) : (h.setDir logDir).pathLen ≠ 0 := by
  unfold setDir
  simp only
  by_cases hslash : endsWith (strlcpy logDir pathMax).1 slash = true
  · -- a string that ends in a slash is not empty
    rw [if_pos hslash]
    intro hnil
    rw [strlcpy_eq] at hnil
    obtain rfl : logDir = [] := List.length_eq_zero_iff.mp hnil
    cases hslash
  · rw [if_neg hslash, strlcat]
    split <;> exact Nat.succ_ne_zero _

theorem setDir_eq (h : FileHandle) (logDir : Bytes) :
    ∃ logFile pathLen, h.setDir logDir = { h with logFile := logFile, pathLen := pathLen } := by
  unfold setDir
  simp only
  split
  · exact ⟨_, _, rfl⟩
  · exact ⟨_, _, rfl⟩

theorem configured_setConfig (logDir namePrefix : Bytes) (frequency : BitVec 32)
    (answers : Answers) :
    Configured (new.setConfig (some logDir) namePrefix frequency answers).1
      (FileStates.allClosed.after
        (new.setConfig (some logDir) namePrefix frequency answers).2) := by
  have hpath := pathLen_setDir new logDir
  obtain ⟨logFile, pathLen, hdir⟩ := setDir_eq new logDir
  have hnew : { new with logFile := [], format := [] } = new := rfl
  have hopened := after_opened isOpen_allClosed
  rw [hdir] at hpath
  unfold setConfig
  simp only [hnew, hdir, if_pos hpath]
  exact ⟨hpath, rfl, rfl, (hopened _).1, (hopened _).2 (Or.inr rfl)⟩

/-! ### Single writes -/

theorem writeMessage_of_neg (hfd : h.fd < 0) (message : Bytes) (result : ℤ) :
    h.writeMessage message result = (-1, h, []) := if_neg (not_le.mpr hfd)

theorem writeMessage_failed (hfd : 0 ≤ h.fd) (message : Bytes) {result : ℤ} (hresult : result < 0) :
    h.writeMessage message result = (result, h, [.write h.fd message result]) := by
  rw [writeMessage, if_pos hfd, if_neg (not_le.mpr hresult)]

/-- A successful write is counted, and not synced. -/
theorem writeMessage_counted (hfd : 0 ≤ h.fd) (message : Bytes) {result : ℤ} (hresult : 0 ≤ result)
    (hnosync : h.fd = 0 ∨ h.numWrite + 1 ≠ h.maxWrite) :
    h.writeMessage message result =
      (result, { h with numWrite := h.numWrite + 1 }, [.write h.fd message result]) := by
  have hsync : fsyncToDisk { h with numWrite := h.numWrite + 1 } =
      ({ h with numWrite := h.numWrite + 1 }, []) := by
    refine if_neg fun hcond ↦ ?_
    rcases hnosync with hzero | hne
    · have hpos : h.fd > 0 := hcond.1
      omega
    · exact hne hcond.2.2
  rw [writeMessage, if_pos hfd, if_pos hresult, hsync]

/-- A successful write that wraps the counter around to the limit is synced. -/
theorem writeMessage_synced (hfd : 0 < h.fd) (hpath : h.pathLen ≠ 0) (message : Bytes)
    {result : ℤ} (hresult : 0 ≤ result) (hsync : h.numWrite + 1 = h.maxWrite) :
    h.writeMessage message result =
      (result, { h with numWrite := 0 }, [.write h.fd message result, .fsync h.fd]) := by
  have hsynced : fsyncToDisk { h with numWrite := h.numWrite + 1 } =
      ({ h with numWrite := 0 }, [.fsync h.fd]) := if_pos ⟨hfd, hpath, hsync⟩
  rw [writeMessage, if_pos (Int.le_of_lt hfd), if_pos hresult, hsynced]

/-! ### The frequency -/

/-- Messages written one after the other, and the results of `write`. -/
def writeMessages (h : FileHandle) (s : FileStates) : List (Bytes × ℤ) → FileHandle × FileStates
  | [] => (h, s)
  | (message, result) :: rest =>
      let (_, h, calls) := h.writeMessage message result
      writeMessages h (s.after calls) rest

/-- The number of writes that succeed. -/
def successes (writes : List (Bytes × ℤ)) : ℕ := writes.countP fun w ↦ decide (0 ≤ w.2)

/-- Until the counter wraps around, no write is ever synced. -/
theorem unsynced_writeMessages (hmax : h.maxWrite = 0) (hfd : 0 ≤ h.fd)
    (hcount : h.numWrite.toNat = s.unsynced h.fd) (writes : List (Bytes × ℤ))
    (hwrap : s.unsynced h.fd + successes writes < 2 ^ 32) :
    (h.writeMessages s writes).2.unsynced h.fd = s.unsynced h.fd + successes writes := by
  induction writes generalizing h s with
  | nil => rfl
  | cons w rest ih =>
    obtain ⟨message, result⟩ := w
    rcases lt_or_ge result 0 with hresult | hresult
    · have hsuccesses : successes ((message, result) :: rest) = successes rest :=
        List.countP_cons_of_neg (by simpa using hresult)
      rw [hsuccesses] at hwrap ⊢
      rw [writeMessages, writeMessage_failed hfd message hresult]
      simp only [FileStates.after_cons, FileStates.after_nil,
        FileStates.apply_write_failed _ _ _ hresult]
      exact ih hmax hfd hcount hwrap
    · have hsuccesses : successes ((message, result) :: rest) = successes rest + 1 :=
        List.countP_cons_of_pos (by simpa using hresult)
      rw [hsuccesses] at hwrap ⊢
      have hnext : (h.numWrite + 1).toNat = s.unsynced h.fd + 1 := by
        rw [BitVec.toNat_add, hcount]
        change (s.unsynced h.fd + 1) % 2 ^ 32 = _
        exact Nat.mod_eq_of_lt (by omega)
      have hne : h.numWrite + 1 ≠ h.maxWrite := by
        rw [hmax]
        intro hzero
        rw [hzero] at hnext
        simp at hnext
      have hunsynced := FileStates.unsynced_apply_write s h.fd message hresult
      rw [writeMessages, writeMessage_counted hfd message hresult (Or.inr hne)]
      have hrest := ih (h := { h with numWrite := h.numWrite + 1 })
        (s := s.apply (.write h.fd message result)) hmax hfd (hnext.trans hunsynced.symm)
        (by change (s.apply _).unsynced h.fd + _ < _; omega)
      change (writeMessages _ (s.apply (.write h.fd message result)) rest).2.unsynced h.fd = _
      rw [hrest]
      change (s.apply _).unsynced h.fd + _ = _
      omega

theorem successes_take_succ_le (writes : List (Bytes × ℤ)) (n : ℕ) :
    successes (writes.take (n + 1)) ≤ successes (writes.take n) + 1 := by
  rw [successes, List.take_add_one, List.countP_append]
  refine Nat.add_le_add_left ?_ _
  refine Nat.le_trans List.countP_le_length ?_
  cases writes[n]? <;> simp

/-- For every configuration with a directory whose file was opened, and every sequence of writes:
after each write the number of successful ones that have not been synced is below the frequency
exactly if fewer writes than the frequency succeed at all. -/
theorem unsynced_lt_iff (logDir namePrefix : Bytes) (frequency : BitVec 32)
    (hfrequency : 1 ≤ frequency.toNat) (answers : Answers)
    (hopened : 0 ≤ (new.setConfig (some logDir) namePrefix frequency answers).1.fd)
    (writes : List (Bytes × ℤ)) :
    (∀ n, ((new.setConfig (some logDir) namePrefix frequency answers).1.writeMessages
        (FileStates.allClosed.after
          (new.setConfig (some logDir) namePrefix frequency answers).2)
        (writes.take n)).2.unsynced
          (new.setConfig (some logDir) namePrefix frequency answers).1.fd < frequency.toNat) ↔
      successes writes < frequency.toNat := by
  have hconfigured := configured_setConfig logDir namePrefix frequency answers
  generalize new.setConfig (some logDir) namePrefix frequency answers = result at *
  obtain ⟨h, calls⟩ := result
  simp only at hopened hconfigured ⊢
  have hfrequency' := frequency.isLt
  have hcount : h.numWrite.toNat = (FileStates.allClosed.after calls).unsynced h.fd := by
    rw [hconfigured.numWrite_eq, hconfigured.unsynced_eq]
    rfl
  have hunsynced : ∀ n, successes (writes.take n) ≤ frequency.toNat →
      (h.writeMessages (FileStates.allClosed.after calls) (writes.take n)).2.unsynced h.fd =
        successes (writes.take n) := by
    intro n hle
    have := unsynced_writeMessages hconfigured.maxWrite_eq hopened hcount (writes.take n)
      (by rw [hconfigured.unsynced_eq]; omega)
    rw [this, hconfigured.unsynced_eq, Nat.zero_add]
  constructor
  · intro hlt
    have hinit : ∀ n, successes (writes.take n) < frequency.toNat := by
      intro n
      induction n with
      | zero => exact hfrequency
      | succ n ih =>
        have hle := successes_take_succ_le writes n
        exact hunsynced (n + 1) (by omega) ▸ hlt (n + 1)
    simpa using hinit writes.length
  · intro hlt n
    have hle : successes (writes.take n) ≤ successes writes :=
      (List.take_sublist n writes).countP_le
    exact (hunsynced n (by omega)).symm ▸ (by omega)

/-- What the system answers when every file is opened as descriptor 3. -/
def opensThree : Answers := ⟨id, fun template ↦ (template, 3), 3⟩

/-- Four of five writes succeed, with a frequency of five: all four are unsynced after the last. -/
theorem unsynced_lt_five :
    ((new.setConfig (some [0x2e]) [0x66] 5 opensThree).1.writeMessages
      (FileStates.allClosed.after (new.setConfig (some [0x2e]) [0x66] 5 opensThree).2)
      (List.take 5 [([], 1), ([], 1), ([], -1), ([], 1), ([], 1)])).2.unsynced 3 < 5 :=
  (unsynced_lt_iff [0x2e] [0x66] 5 (by decide) opensThree (by decide)
    [([], 1), ([], 1), ([], -1), ([], 1), ([], 1)]).mpr (by decide) 5

/-- Five writes succeed, with a frequency of five. -/
theorem not_unsynced_lt_five :
    1 ≤ (5 : BitVec 32).toNat ∧ 0 ≤ (new.setConfig (some [0x2e]) [0x66] 5 opensThree).1.fd ∧
      ¬ ∀ n, ((new.setConfig (some [0x2e]) [0x66] 5 opensThree).1.writeMessages
        (FileStates.allClosed.after (new.setConfig (some [0x2e]) [0x66] 5 opensThree).2)
        (List.take n (List.replicate 5 ([], 1)))).2.unsynced 3 < 5 := by
  refine ⟨by decide, by decide, fun hlt ↦ ?_⟩
  have hfive := hlt 5
  revert hfive
  decide

/-! ### From file to file -/

/-- An operation on a handle, with what the system answers. -/
inductive Op where
  | writeMessage (message : Bytes) (result : ℤ)
  | switchFile (answers : Answers)

/-- The handle after an operation, and the system calls of the operation. -/
def step (h : FileHandle) : Op → FileHandle × List (FileCall Bytes)
  | .writeMessage message result => (h.writeMessage message result).2
  | .switchFile answers => (h.switchFile answers).2

/-- The system calls of a sequence of operations and of the destructor after it. -/
def calls (h : FileHandle) : List Op → List (FileCall Bytes)
  | [] => h.destroy
  | op :: rest => (h.step op).2 ++ calls (h.step op).1 rest

/-- Whenever a new file has been opened, the counter counts the writes to it only. -/
def CountsOwnWrites (h : FileHandle) : List Op → Prop
  | [] => True
  | .writeMessage message result :: rest =>
      CountsOwnWrites (h.step (.writeMessage message result)).1 rest
  | .switchFile answers :: rest =>
      (0 ≤ (h.step (.switchFile answers)).1.fd → (h.step (.switchFile answers)).1.numWrite = 0) ∧
        CountsOwnWrites (h.step (.switchFile answers)).1 rest

/-- Every descriptor that was obtained is closed exactly once, with everything written to it synced,
and the counter is that of the file. -/
def KeepsMessages (h : FileHandle) (s : FileStates) (ops : List Op) : Prop :=
  s.Accepts (h.calls ops) ∧ h.CountsOwnWrites ops

/-- Files are switched while the counter is zero, and descriptor 0 is neither written to nor the one
that is left to the destructor. -/
def Orderly (h : FileHandle) : List Op → Prop
  | [] => h.fd ≠ 0
  | .writeMessage message result :: rest =>
      (h.fd = 0 → result < 0) ∧ Orderly (h.step (.writeMessage message result)).1 rest
  | .switchFile answers :: rest =>
      h.numWrite = 0 ∧ Orderly (h.step (.switchFile answers)).1 rest

/-- What the handle knows of its file. -/
structure Tracks (h : FileHandle) (s : FileStates) : Prop where
  pathLen_ne : h.pathLen ≠ 0
  maxWrite_eq : h.maxWrite = 0
  isOpen_iff : ∀ fd, s.isOpen fd = true ↔ 0 ≤ fd ∧ fd = h.fd
  numWrite_eq_zero_iff : 0 ≤ h.fd → (h.numWrite = 0 ↔ s.unsynced h.fd = 0)
  idle : h.fd ≤ 0 → h.numWrite = 0

theorem Configured.tracks (hconfigured : Configured h s) : Tracks h s :=
  ⟨hconfigured.pathLen_ne, hconfigured.maxWrite_eq, hconfigured.isOpen_iff,
    fun _ ↦ iff_of_true hconfigured.numWrite_eq hconfigured.unsynced_eq,
    fun _ ↦ hconfigured.numWrite_eq⟩

/-- The destructor closes the descriptor, unless it is 0. -/
theorem Tracks.accepts_destroy (h' : Tracks h s) : s.Accepts h.destroy ↔ h.fd ≠ 0 := by
  have hclosed : ∀ fd, Function.update s.isOpen h.fd false fd = false := by
    intro fd
    rw [Function.update_apply]
    split_ifs with heq
    · rfl
    · exact Bool.eq_false_iff.mpr fun hopen ↦ heq ((h'.isOpen_iff fd).mp hopen).2
  unfold destroy
  rcases lt_trichotomy h.fd 0 with hneg | hzero | hpos
  · rw [if_neg (by omega)]
    refine iff_of_true (fun fd ↦ Bool.eq_false_iff.mpr fun hopen ↦ ?_) (by omega)
    have := (h'.isOpen_iff fd).mp hopen
    omega
  · rw [if_neg (by omega)]
    refine iff_of_false (fun haccepts ↦ ?_) (not_not.mpr hzero)
    have hopen := (h'.isOpen_iff 0).mpr ⟨le_rfl, hzero.symm⟩
    rw [haccepts 0] at hopen
    cases hopen
  · rw [if_pos hpos]
    have hopen : s.isOpen h.fd = true := (h'.isOpen_iff h.fd).mpr ⟨by omega, rfl⟩
    refine iff_of_true ?_ (by omega)
    by_cases hnum : h.numWrite = 0
    · rw [if_neg (fun hcond ↦ hcond.2 hnum)]
      exact ⟨fun _ ↦ ⟨hopen, (h'.numWrite_eq_zero_iff (by omega)).mp hnum⟩, hclosed⟩
    · rw [if_pos ⟨h'.pathLen_ne, hnum⟩]
      exact ⟨trivial, fun _ ↦ ⟨hopen, Function.update_self ..⟩, hclosed⟩

/-- Once something has been written to descriptor 0, it is closed unsynced, or never. -/
theorem not_accepts_of_unsynced_zero : ∀ {ops : List Op} {h : FileHandle} {s : FileStates},
    h.pathLen ≠ 0 → h.fd = 0 → s.isOpen 0 = true → s.unsynced 0 ≠ 0 →
      ¬ s.Accepts (h.calls ops) := by
  intro ops
  induction ops with
  | nil =>
    intro h s _ hfd hopen _ haccepts
    rw [calls, destroy, if_neg (by omega)] at haccepts
    rw [haccepts 0] at hopen
    cases hopen
  | cons op rest ih =>
    intro h s hpath hfd hopen hunsynced haccepts
    cases op with
    | writeMessage message result =>
      rcases lt_or_ge result 0 with hresult | hresult
      · rw [calls, step, writeMessage_failed (by omega) message hresult] at haccepts
        have hrest := haccepts.2
        rw [FileStates.apply_write_failed _ _ _ hresult] at hrest
        exact ih hpath hfd hopen hunsynced hrest
      · rw [calls, step, writeMessage_counted (by omega) message hresult (Or.inl hfd)] at haccepts
        have happly := FileStates.unsynced_apply_write s h.fd message hresult
        rw [hfd] at happly
        refine ih (h := { h with numWrite := h.numWrite + 1 }) hpath hfd ?_ ?_ haccepts.2
        · rw [FileStates.isOpen_apply_write]
          exact hopen
        · rw [hfd, happly]
          exact Nat.succ_ne_zero _
    | switchFile answers =>
      have hsync : h.fsyncToDisk = (h, []) := if_neg fun hcond ↦ by
        have hpos : h.fd > 0 := hcond.1
        omega
      rw [calls, step, switchFile, if_pos hpath, hsync] at haccepts
      have hclose := haccepts.1
      rw [hfd] at hclose
      exact hunsynced (hclose le_rfl).2

/-- Opening a file when no descriptor is open is always accepted. -/
theorem accepts_opened (hclosed : ∀ fd, s.isOpen fd = false) (fd : ℤ)
    (rest : List (FileCall Bytes)) :
    s.Accepts (opened fd ++ rest) ↔ (s.after (opened fd)).Accepts rest := by
  rcases lt_or_ge fd 0 with hfd | hfd
  · rw [opened_eq_nil hfd]
    rfl
  · rw [opened_eq_singleton hfd]
    exact and_iff_right (hclosed fd)

/-- When nothing is written to the file any more, the counter is left at zero. -/
theorem fsyncToDisk_of_numWrite_eq (hnum : h.numWrite = 0) :
    ∃ synced : List (FileCall Bytes), h.fsyncToDisk = (h, synced) ∧
      (synced = [] ∨ synced = [.fsync h.fd]) := by
  unfold fsyncToDisk
  split_ifs
  · exact ⟨_, by rw [← hnum], Or.inr rfl⟩
  · exact ⟨_, rfl, Or.inl rfl⟩

/-- A file is switched while the counter is zero. -/
theorem Tracks.switchFile (h' : Tracks h s) (hnum : h.numWrite = 0) (answers : Answers) :
    (h.switchFile answers).2.1.numWrite = 0 ∧ ∃ s', Tracks (h.switchFile answers).2.1 s' ∧
      ∀ rest, s.Accepts ((h.switchFile answers).2.2 ++ rest) ↔ s'.Accepts rest := by
  obtain ⟨synced, hsync, hsynced⟩ := fsyncToDisk_of_numWrite_eq hnum
  -- the old file may be closed, and afterwards no file is open
  have hclose : ∀ rest, s.Accepts (synced ++ FileCall.close h.fd :: rest) ↔
      ((s.after synced).apply (.close h.fd : FileCall Bytes)).Accepts rest := by
    intro rest
    rcases hsynced with rfl | rfl
    · refine and_iff_right fun hfd ↦ ⟨(h'.isOpen_iff h.fd).mpr ⟨hfd, rfl⟩, ?_⟩
      exact (h'.numWrite_eq_zero_iff hfd).mp hnum
    · refine (and_iff_right trivial).trans (and_iff_right fun hfd ↦ ⟨?_, Function.update_self ..⟩)
      exact (h'.isOpen_iff h.fd).mpr ⟨hfd, rfl⟩
  have hclosed : ∀ fd,
      ((s.after synced).apply (.close h.fd : FileCall Bytes)).isOpen fd = false := by
    intro fd
    have hopen : (s.after synced).isOpen = s.isOpen := by rcases hsynced with rfl | rfl <;> rfl
    change Function.update (s.after synced).isOpen h.fd false fd = false
    rw [hopen, Function.update_apply]
    split_ifs with heq
    · rfl
    · exact Bool.eq_false_iff.mpr fun hopen ↦ heq ((h'.isOpen_iff fd).mp hopen).2
  unfold FileHandle.switchFile
  simp only [if_pos h'.pathLen_ne, hsync, List.append_assoc, List.cons_append]
  obtain ⟨hopen, hunsynced⟩ := after_opened hclosed
    (answers.mkstemp (strlcat (h.logFile.take h.pathLen) (answers.formatEpochTime h.format)
      pathMax).1).2
  refine ⟨hnum, _, ⟨h'.pathLen_ne, h'.maxWrite_eq, hopen, ?_, fun _ ↦ hnum⟩, fun rest ↦ ?_⟩
  · exact fun hfd ↦ iff_of_true hnum (hunsynced (Or.inl hfd))
  · rw [hclose, accepts_opened hclosed]

/-- A file that is switched while the counter is not zero is closed unsynced. -/
theorem Tracks.not_accepts_switchFile (h' : Tracks h s) (hnum : h.numWrite ≠ 0) (answers : Answers)
    (rest : List (FileCall Bytes)) : ¬ s.Accepts ((h.switchFile answers).2.2 ++ rest) := by
  have hfd : 0 ≤ h.fd := by
    by_contra hneg
    exact hnum (h'.idle (by omega))
  have hsync : h.fsyncToDisk = (h, []) :=
    if_neg fun hcond ↦ hnum (hcond.2.2.trans h'.maxWrite_eq)
  rw [FileHandle.switchFile, if_pos h'.pathLen_ne, hsync]
  exact fun haccepts ↦ hnum ((h'.numWrite_eq_zero_iff hfd).mpr (haccepts.1 hfd).2)

/-- A write, unless it is a successful one to descriptor 0. -/
theorem Tracks.writeMessage (h' : Tracks h s) (message : Bytes) {result : ℤ}
    (hzero : h.fd = 0 → result < 0) :
    ∃ s', Tracks (h.writeMessage message result).2.1 s' ∧
      ∀ rest, s.Accepts ((h.writeMessage message result).2.2 ++ rest) ↔ s'.Accepts rest := by
  rcases lt_or_ge h.fd 0 with hneg | hfd
  · rw [writeMessage_of_neg hneg]
    exact ⟨s, h', fun rest ↦ Iff.rfl⟩
  rcases lt_or_ge result 0 with hresult | hresult
  · rw [writeMessage_failed hfd message hresult]
    refine ⟨s, h', fun rest ↦ (and_iff_right trivial).trans ?_⟩
    rw [FileStates.apply_write_failed _ _ _ hresult]
    rfl
  have hpos : 0 < h.fd := by
    rcases lt_or_eq_of_le hfd with hpos | heq
    · exact hpos
    · have := hzero heq.symm
      omega
  have hunsynced := FileStates.unsynced_apply_write s h.fd message hresult
  by_cases hwrap : h.numWrite + 1 = h.maxWrite
  · rw [writeMessage_synced hpos h'.pathLen_ne message hresult hwrap]
    refine ⟨(s.apply (.write h.fd message result)).apply (.fsync h.fd : FileCall Bytes),
      ⟨h'.pathLen_ne, h'.maxWrite_eq, ?_, ?_, ?_⟩, fun rest ↦ ?_⟩
    · change ∀ fd, (s.apply (.write h.fd message result)).isOpen fd = true ↔ _
      rw [FileStates.isOpen_apply_write]
      exact h'.isOpen_iff
    · exact fun _ ↦ iff_of_true rfl (Function.update_self ..)
    · exact fun _ ↦ rfl
    · exact (and_iff_right trivial).trans (and_iff_right trivial)
  · rw [writeMessage_counted hfd message hresult (Or.inr hwrap)]
    refine ⟨s.apply (.write h.fd message result), ⟨h'.pathLen_ne, h'.maxWrite_eq, ?_, ?_, ?_⟩,
      fun rest ↦ and_iff_right trivial⟩
    · rw [FileStates.isOpen_apply_write]
      exact h'.isOpen_iff
    · refine fun _ ↦ iff_of_false (fun hnum ↦ hwrap (hnum.trans h'.maxWrite_eq.symm)) ?_
      change (s.apply _).unsynced h.fd ≠ 0
      rw [hunsynced]
      exact Nat.succ_ne_zero _
    · intro hle
      change h.fd ≤ 0 at hle
      omega

/-- From every state of the handle, a sequence of operations loses nothing exactly if it is
orderly. -/
theorem Tracks.keeps_iff : ∀ {ops : List Op} {h : FileHandle} {s : FileStates},
    Tracks h s → (KeepsMessages h s ops ↔ Orderly h ops) := by
  intro ops
  induction ops with
  | nil =>
    intro h s h'
    exact (and_iff_left trivial).trans h'.accepts_destroy
  | cons op rest ih =>
    intro h s h'
    cases op with
    | writeMessage message result =>
      by_cases hzero : h.fd = 0 → result < 0
      · obtain ⟨s', htracks, haccepts⟩ := h'.writeMessage message hzero
        refine Iff.trans ?_ (and_iff_right hzero).symm
        refine Iff.trans ?_ (ih htracks)
        exact and_congr_left fun _ ↦ haccepts _
      · -- descriptor 0 has been written to
        refine iff_of_false (fun hkeeps ↦ ?_) fun horderly ↦ hzero horderly.1
        obtain ⟨hfd, hresult⟩ := Classical.not_imp.mp hzero
        have haccepts := hkeeps.1
        rw [calls, step, writeMessage_counted (by omega) message (by omega) (Or.inl hfd)]
          at haccepts
        have hunsynced := FileStates.unsynced_apply_write s h.fd message
          (show 0 ≤ result by omega)
        refine not_accepts_of_unsynced_zero (h := { h with numWrite := h.numWrite + 1 })
          h'.pathLen_ne hfd ?_ ?_ haccepts.2
        · rw [FileStates.isOpen_apply_write]
          exact (h'.isOpen_iff 0).mpr ⟨le_rfl, hfd.symm⟩
        · rw [hfd] at hunsynced ⊢
          rw [hunsynced]
          exact Nat.succ_ne_zero _
    | switchFile answers =>
      by_cases hnum : h.numWrite = 0
      · obtain ⟨hzero, s', htracks, haccepts⟩ := h'.switchFile hnum answers
        refine Iff.trans ?_ (and_iff_right hnum).symm
        refine Iff.trans ?_ (ih htracks)
        exact and_congr (haccepts _) (and_iff_right fun _ ↦ hzero)
      · refine iff_of_false (fun hkeeps ↦ ?_) fun horderly ↦ hnum horderly.1
        exact h'.not_accepts_switchFile hnum answers _ hkeeps.1

/-- A handle configured with a directory loses nothing, in a sequence of operations that ends with
its destruction, exactly if the sequence is orderly. -/
theorem keepsMessages_iff (logDir namePrefix : Bytes) (frequency : BitVec 32) (answers : Answers)
    (ops : List Op) :
    KeepsMessages (new.setConfig (some logDir) namePrefix frequency answers).1
        (FileStates.allClosed.after
          (new.setConfig (some logDir) namePrefix frequency answers).2) ops ↔
      Orderly (new.setConfig (some logDir) namePrefix frequency answers).1 ops :=
  (configured_setConfig logDir namePrefix frequency answers).tracks.keeps_iff

/-- One message is written before the file is switched: it is closed unsynced. -/
theorem not_keepsMessages_written :
    ¬ KeepsMessages (new.setConfig (some [0x2e]) [0x66] 1 opensThree).1
      (FileStates.allClosed.after (new.setConfig (some [0x2e]) [0x66] 1 opensThree).2)
      [.writeMessage [0x66] 1, .switchFile opensThree] := by
  rintro ⟨haccepts, -⟩
  -- the calls are: write to 3, close 3, open 3
  have hclose := haccepts.2.1 (by decide)
  exact absurd hclose.2 (by decide)

end Nebula.Logging.FileHandle
