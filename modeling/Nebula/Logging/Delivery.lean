import Nebula.Library.Durable
import Nebula.Logging.FileSync
import Nebula.Logging.Shutdown

/-!
From the socket to the disk. The server writes two kinds of messages to its log file: its own, and
those that `recvDomainSocketMessage` receives. `Session.writings` are the calls of `writeMessage`
that it has made for them, and `Session.calls` the system calls that these have made.

`delivered` follows them into the file, when it is not descriptor 0. When the handle is destroyed,
the file holds what the writes have stored, in order and durably; and at any moment before, a crash
would leave a beginning of it. Those of the messages that come from clients are the received ones:
when the server is stopped with an empty socket, all that was sent before it.
-/

set_option autoImplicit false
set_option relaxedAutoImplicit false

namespace Nebula.Logging

open Nebula.Library Nebula.Async

namespace Writing

/-- What is stored. -/
def stored (x : Writing) : Bytes := x.message.take x.result.toNat

/-- The message is stored as a whole. -/
def Complete (x : Writing) : Prop := x.result = x.message.length

/-- The operation on the file handle. -/
def op (x : Writing) : FileHandle.Op := .writeMessage x.message x.result

theorem stored_of_complete {writings : List Writing} (h : ∀ x ∈ writings, x.Complete) :
    writings.flatMap stored = (writings.map Writing.message).flatten := by
  rw [← List.flatMap_def]
  refine List.flatMap_congr fun x hx ↦ ?_
  rw [stored, show x.result = x.message.length from h x hx, Int.toNat_natCast, List.take_length]

end Writing

/-! ### The handle -/

namespace FileHandle

variable {h : FileHandle} {d : Disk UInt8}

/-- The handle after a sequence of operations. -/
def afterOps (h : FileHandle) (ops : List Op) : FileHandle := ops.foldl (fun h op ↦ (h.step op).1) h

/-- The system calls of a sequence of operations, without the destructor. -/
def opCalls (h : FileHandle) : List Op → List (FileCall Bytes)
  | [] => []
  | op :: rest => (h.step op).2 ++ opCalls (h.step op).1 rest

theorem opCalls_append (h : FileHandle) (ops ops' : List Op) :
    h.opCalls (ops ++ ops') = h.opCalls ops ++ (h.afterOps ops).opCalls ops' := by
  induction ops generalizing h with
  | nil => rfl
  | cons op rest ih =>
    rw [List.cons_append, opCalls, opCalls, ih, List.append_assoc]
    rfl

theorem calls_eq (h : FileHandle) (ops : List Op) :
    h.calls ops = h.opCalls ops ++ (h.afterOps ops).destroy := by
  induction ops generalizing h with
  | nil => rfl
  | cons op rest ih =>
    rw [calls, opCalls, ih, List.append_assoc]
    rfl

theorem fd_afterOps (h : FileHandle) (writings : List Writing) :
    (h.afterOps (writings.map Writing.op)).fd = h.fd := by
  induction writings generalizing h with
  | nil => rfl
  | cons x rest ih =>
    exact (ih (h.writeMessage x.message x.result).2.1).trans (h.fd_writeMessage x.message x.result)

/-- The writes are stored one behind the other. -/
theorem stored_opCalls (hfd : 0 ≤ h.fd) (writings : List Writing) :
    (d.after (h.opCalls (writings.map Writing.op))).stored h.fd =
      d.stored h.fd ++ writings.flatMap Writing.stored := by
  induction writings generalizing h d with
  | nil => exact (List.append_nil _).symm
  | cons x rest ih =>
    have hstep := h.fd_writeMessage x.message x.result
    have hstored : (d.after (h.writeMessage x.message x.result).2.2).stored h.fd =
        d.stored h.fd ++ x.stored := by
      rcases calls_writeMessage hfd x.message x.result with hcalls | hcalls <;> rw [hcalls] <;>
        exact Function.update_self ..
    have hrest := ih (h := (h.writeMessage x.message x.result).2.1)
      (d := d.after (h.writeMessage x.message x.result).2.2) (by rw [hstep]; exact hfd)
    rw [hstep, hstored] at hrest
    rw [List.map_cons, opCalls, Disk.after_append, List.flatMap_cons, ← List.append_assoc]
    exact hrest

/-- Nothing is opened. -/
theorem opened_notMem_opCalls (hfd : 0 ≤ h.fd) (writings : List Writing) (fd : ℤ) :
    .opened fd ∉ h.opCalls (writings.map Writing.op) := by
  induction writings generalizing h with
  | nil => exact List.not_mem_nil
  | cons x rest ih =>
    have hstep := h.fd_writeMessage x.message x.result
    rw [List.map_cons, opCalls, List.mem_append, not_or]
    refine ⟨?_, ih (h := (h.writeMessage x.message x.result).2.1) (by rw [hstep]; exact hfd)⟩
    change .opened fd ∉ (h.writeMessage x.message x.result).2.2
    rcases calls_writeMessage hfd x.message x.result with hcalls | hcalls <;> rw [hcalls] <;> simp

/-- Writing to a descriptor other than 0 is orderly. -/
theorem orderly_writings (hfd : 0 < h.fd) (writings : List Writing) :
    Orderly h (writings.map Writing.op) := by
  induction writings generalizing h with
  | nil => exact hfd.ne'
  | cons x rest ih =>
    have hstep := h.fd_writeMessage x.message x.result
    refine ⟨fun hzero ↦ absurd hzero hfd.ne', ?_⟩
    exact ih (h := (h.writeMessage x.message x.result).2.1) (by rw [hstep]; exact hfd)

/-- A handle that is configured with a directory opens its file. -/
theorem opening_setConfig (logDir namePrefix : Bytes) (frequency : BitVec 32) (answers : Answers) :
    (new.setConfig (some logDir) namePrefix frequency answers).2 =
      opened (new.setConfig (some logDir) namePrefix frequency answers).1.fd := by
  have hpath := pathLen_setDir new logDir
  have hnew : { new with logFile := [], format := [] } = new := rfl
  unfold setConfig
  simp only [hnew, if_pos hpath]

/-- The destructor closes the file. -/
theorem destroy_eq (hfd : 0 < h.fd) : ∃ synced : List (FileCall Bytes),
    h.destroy = synced ++ [.close h.fd] ∧ (synced = [] ∨ synced = [.fsync h.fd]) := by
  unfold destroy
  rw [if_pos hfd]
  split_ifs
  · exact ⟨_, rfl, Or.inr rfl⟩
  · exact ⟨_, rfl, Or.inl rfl⟩

/-- What the file holds when the handle has been destroyed. -/
theorem stored_calls (hfd : 0 < h.fd) (writings : List Writing) :
    (d.after (h.calls (writings.map Writing.op))).stored h.fd =
      d.stored h.fd ++ writings.flatMap Writing.stored := by
  have hlast := h.fd_afterOps writings
  obtain ⟨synced, hdestroy, hsynced⟩ := destroy_eq (h := h.afterOps (writings.map Writing.op))
    (by rw [hlast]; exact hfd)
  rw [calls_eq, Disk.after_append, hdestroy, ← stored_opCalls hfd.le writings]
  rcases hsynced with rfl | rfl <;> rfl

theorem opened_notMem_calls (hfd : 0 < h.fd) (writings : List Writing) (fd : ℤ) :
    .opened fd ∉ h.calls (writings.map Writing.op) := by
  have hlast := h.fd_afterOps writings
  obtain ⟨synced, hdestroy, hsynced⟩ := destroy_eq (h := h.afterOps (writings.map Writing.op))
    (by rw [hlast]; exact hfd)
  rw [calls_eq, List.mem_append, not_or]
  refine ⟨opened_notMem_opCalls hfd.le writings fd, ?_⟩
  rw [hdestroy]
  rcases hsynced with rfl | rfl <;> simp

/-- The file is closed durably. -/
theorem Tracks.durable_calls {s : FileStates} (h' : Tracks h s) (hfd : 0 < h.fd)
    (hdisk : d.Synced s) (writings : List Writing) :
    (d.after (h.calls (writings.map Writing.op))).durable h.fd =
      d.stored h.fd ++ writings.flatMap Writing.stored := by
  have haccepts : s.Accepts (h.calls (writings.map Writing.op)) :=
    (h'.keeps_iff.mpr (orderly_writings hfd writings)).1
  have hlast := h.fd_afterOps writings
  obtain ⟨synced, hdestroy, -⟩ := destroy_eq (h := h.afterOps (writings.map Writing.op))
    (by rw [hlast]; exact hfd)
  rw [← stored_calls hfd]
  rw [calls_eq, hdestroy, hlast, ← List.append_assoc] at haccepts ⊢
  exact Disk.durable_of_accepts hfd.le hdisk haccepts

end FileHandle

/-! ### The server -/

namespace Session

/-- The system calls of all calls of `writeMessage`. -/
def calls (s : Session) : List (FileCall Bytes) := s.writings.flatMap Writing.calls

/-- The calls of `writeMessage` that an action makes. -/
def writes (s : Session) : Action → List Writing
  | .server answer =>
      match s.position with
      | .starting => [s.writing false answer.text answer.result]
      | .receiving _ =>
          match s.queue with
          | datagram :: _ => [s.writing true (datagram.bytes.take maxDgramLength) answer.result]
          | [] => []
      | .checkStopFlag _ _ =>
          if s.stopFlag then [s.writing false answer.text answer.result] else []
      | _ => []
  | _ => []

variable {s s' : Session} {action : Action}

/-- An action calls `writeMessage` once, or not at all. -/
theorem writes_cases (s : Session) (action : Action) :
    s.writes action = [] ∨
      ∃ fromClient message result, s.writes action = [s.writing fromClient message result] := by
  unfold writes
  split
  · split
    · exact Or.inr ⟨_, _, _, rfl⟩
    · split
      · exact Or.inr ⟨_, _, _, rfl⟩
      · exact Or.inl rfl
    · split_ifs
      · exact Or.inr ⟨_, _, _, rfl⟩
      · exact Or.inl rfl
    · exact Or.inl rfl
  · exact Or.inl rfl

/-- What an action does to the file handle and to the calls of `writeMessage`. -/
theorem writings_next (hnext : Session.next s action = some s') :
    s'.fileHandle = s.fileHandle.afterOps ((s.writes action).map Writing.op) ∧
      s'.writings = s.writings ++ s.writes action := by
  have hnone : s.writings = s.writings ++ [] := (List.append_nil _).symm
  cases action with
  | send datagram =>
    cases hnext
    exact ⟨rfl, hnone⟩
  | setStopFlag =>
    cases hnext
    exact ⟨rfl, hnone⟩
  | wait ms =>
    cases hnext
    exact ⟨rfl, hnone⟩
  | server answer =>
    change s.serverStep answer = some s' at hnext
    unfold serverStep at hnext
    unfold writes
    cases hposition : s.position with
    | starting =>
      rw [hposition] at hnext
      cases hnext
      exact ⟨rfl, rfl⟩
    | receiving slot =>
      rw [hposition] at hnext
      simp only at hnext ⊢
      cases hqueue : s.queue with
      | nil =>
        rw [hqueue] at hnext
        cases hnext
        cases slot <;> exact ⟨rfl, hnone⟩
      | cons datagram rest =>
        rw [hqueue] at hnext
        cases hnext
        exact ⟨rfl, rfl⟩
    | checkStopFlag now i =>
      rw [hposition] at hnext
      cases hnext
      by_cases hflag : s.stopFlag = true
      · simp only [checkStopFlag, if_pos hflag]
        exact ⟨rfl, rfl⟩
      · simp only [checkStopFlag, if_neg hflag]
        exact ⟨rfl, hnone⟩
    | epollWait latest =>
      rw [hposition] at hnext
      simp only at hnext
      split_ifs at hnext <;> cases hnext <;> exact ⟨rfl, hnone⟩
    | returned =>
      rw [hposition] at hnext
      cases hnext
    | _ =>
      rw [hposition] at hnext
      cases hnext
      exact ⟨rfl, hnone⟩

/-- The system calls of an action. -/
theorem calls_writes (s : Session) (action : Action) :
    (s.writes action).flatMap Writing.calls =
      s.fileHandle.opCalls ((s.writes action).map Writing.op) := by
  rcases s.writes_cases action with hwrites | ⟨fromClient, message, result, hwrites⟩ <;>
    rw [hwrites] <;> rfl

/-- The messages of a run have gone through the file handle, which has made the system calls. -/
theorem writings_run {t : Session} {actions : List Action}
    (hrun : System.run Session.next s actions = some t) (hfresh : s.writings = []) :
    t.writings = System.emitted Session.next writes s actions ∧
      t.fileHandle = s.fileHandle.afterOps (t.writings.map Writing.op) ∧
      t.calls = s.fileHandle.opCalls (t.writings.map Writing.op) := by
  have hinvariant : ∀ u action u' l,
      (u.writings = l ∧ u.fileHandle = s.fileHandle.afterOps (l.map Writing.op) ∧
        u.calls = s.fileHandle.opCalls (l.map Writing.op)) → Session.next u action = some u' →
      u'.writings = l ++ u.writes action ∧
        u'.fileHandle = s.fileHandle.afterOps ((l ++ u.writes action).map Writing.op) ∧
        u'.calls = s.fileHandle.opCalls ((l ++ u.writes action).map Writing.op) := by
    rintro u action u' l ⟨hwritings, hhandle, hcalls⟩ hnext
    obtain ⟨hhandle', hwritings'⟩ := writings_next hnext
    refine ⟨by rw [hwritings', hwritings], ?_, ?_⟩
    · rw [hhandle', hhandle, List.map_append]
      exact List.foldl_append.symm
    · rw [calls, hwritings', List.flatMap_append, calls_writes, List.map_append,
        FileHandle.opCalls_append, ← hhandle, ← hcalls]
      rfl
  obtain ⟨hwritings, hhandle, hcalls⟩ := System.run_emitted hinvariant
    ⟨hfresh, rfl, by rw [calls, hfresh]; rfl⟩ hrun
  rw [List.nil_append] at hwritings hhandle hcalls
  rw [← hwritings] at hhandle hcalls
  exact ⟨hwritings, hhandle, hcalls⟩

/-- For every log server whose start-up has succeeded, with a log file in a directory, every
interleaving with its clients and every outcome of its writes: the system calls are those of the
calls of `writeMessage` that the actions make. When the server is deleted, the file durably holds
what the writes have stored, one behind the other, and whenever the system crashes before that, a
beginning of it. When `routine` returns after a stop that found the socket empty, everything that
was sent before the stop flag was set is among the messages that come from clients, in order. -/
theorem delivered (fdTableSize : ℤ) (aroundFds : ℤ → ℤ) (aroundTimes : ℤ → TimeEventInfo)
    (kernel : InterestSet) (domainFd now : ℤ) (ae : AsyncEvent)
    (hregister : register (.initialized fdTableSize 32 aroundFds aroundTimes) kernel domainFd now =
      some ae)
    (logDir namePrefix : Bytes) (frequency : BitVec 32) (answers : Answers) (h : FileHandle)
    (opening : List (FileCall Bytes))
    (hconfig : FileHandle.new.setConfig (some logDir) namePrefix frequency answers = (h, opening))
    (hfd : 0 < h.fd) (actions : List Action) (t : Session)
    (hrun : System.run Session.next (started ae h domainFd now) actions = some t) :
    t.writings = System.emitted Session.next writes (started ae h domainFd now) actions ∧
      t.fileHandle = h.afterOps (t.writings.map Writing.op) ∧
      t.calls = h.opCalls (t.writings.map Writing.op) ∧
      (Disk.blank.after (opening ++ (t.calls ++ t.fileHandle.destroy))).durable h.fd =
        t.writings.flatMap Writing.stored ∧
      (∀ n, (Disk.blank.after ((opening ++ (t.calls ++ t.fileHandle.destroy)).take n)).durable h.fd
        <+: t.writings.flatMap Writing.stored) ∧
      ((∀ x ∈ t.writings, x.Complete) →
        t.writings.flatMap Writing.stored = (t.writings.map Writing.message).flatten) ∧
      (t.position = .returned →
        System.Meets Session.next DrainsFirst (started ae h domainFd now) actions →
          t.sentBeforeStop.map Datagram.bytes <+: Writing.received t.writings) := by
  obtain ⟨hwritings, hhandle, hcalls⟩ := writings_run hrun rfl
  have hmade : t.calls ++ t.fileHandle.destroy = h.calls (t.writings.map Writing.op) := by
    rw [FileHandle.calls_eq, hcalls, hhandle]
    rfl
  have hconfigured := FileHandle.configured_setConfig logDir namePrefix frequency answers
  rw [hconfig] at hconfigured
  have hopening := FileHandle.opening_setConfig logDir namePrefix frequency answers
  rw [hconfig, FileHandle.opened_eq_singleton hfd.le] at hopening
  change opening = [.opened h.fd] at hopening
  subst hopening
  have hsynced : (Disk.blank.apply (.opened h.fd) : Disk UInt8).Synced
      (FileStates.allClosed.after ([.opened h.fd] : List (FileCall Bytes))) :=
    Disk.Synced.apply (d := Disk.blank) (s := FileStates.allClosed) (fun _ _ ↦ rfl) (.opened h.fd)
  have hlagging : (Disk.blank.apply (.opened h.fd) : Disk UInt8).Lagging :=
    Disk.Lagging.apply (d := Disk.blank) (fun _ ↦ List.prefix_rfl) (.opened h.fd)
  have hempty : (Disk.blank.apply (.opened h.fd) : Disk UInt8).stored h.fd = [] :=
    Function.update_self ..
  have hdurable := hconfigured.tracks.durable_calls hfd hsynced t.writings
  have hstored := FileHandle.stored_calls (d := Disk.blank.apply (.opened h.fd)) hfd t.writings
  rw [hempty, List.nil_append] at hdurable hstored
  rw [hmade]
  refine ⟨hwritings, hhandle, hcalls, hdurable, fun n ↦ ?_, Writing.stored_of_complete,
    fun hreturned hmeets ↦ ?_⟩
  · cases n with
    | zero => exact List.nil_prefix
    | succ n =>
      rw [← hstored, ← List.take_append_drop n (h.calls (t.writings.map Writing.op)),
        Disk.after_append]
      refine (hlagging.after _ h.fd).trans ?_
      rw [List.take_append_drop]
      refine Disk.stored_prefix_after fun hmem ↦ ?_
      exact FileHandle.opened_notMem_calls hfd t.writings h.fd (List.mem_of_mem_drop hmem)
  · obtain ⟨hgoing, hnum⟩ := register_spec rfl hregister
    have hpos : 0 < ae.fds.numMonitoredFds := by
      rw [hnum]
      exact Int.one_pos
    have hstart := Accounted.started hpos hgoing h domainFd now
    have hkept : (started ae h domainFd now).Kept := ⟨hstart, fun _ ↦ Nat.zero_le _⟩
    have hend : t.Kept :=
      System.run_meets (fun _ _ _ hkept hdrains hnext ↦ Kept.next hkept hdrains hnext) hkept
        hmeets hrun
    exact (hend.1.logged_iff_length.mpr (hend.2 (hend.1.returned hreturned))).1

/-- The file holds a message of the server, the one of the client, and another one of the server. -/
theorem delivered_timelyRun :
    (Disk.blank.after (logFile.2 ++
        (afterTimelyRun.calls ++ afterTimelyRun.fileHandle.destroy))).durable 4 =
      [0x73, 0x6d, 0x73] ∧ Writing.received afterTimelyRun.writings = [[0x6d]] := by
  have hdurable := (delivered 8 (fun _ ↦ 0) (fun _ ↦ ⟨0, 0, null, 0⟩)
    ⟨fun _ ↦ none, fun _ ↦ false⟩ 3 0 registered (Option.some_get _).symm [0x2e] [0x66] 1
    ⟨id, fun template ↦ (template, 4), 4⟩ logFile.1 logFile.2 rfl (by decide) timelyRun
    afterTimelyRun (Option.some_get _).symm).2.2.2.1
  have hstored : afterTimelyRun.writings.flatMap Writing.stored = [0x73, 0x6d, 0x73] := by
    decide +kernel
  exact ⟨hdurable.trans hstored, by decide +kernel⟩

end Session

end Nebula.Logging
