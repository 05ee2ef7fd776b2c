import Nebula.Logging.LogServer

/-!
What becomes of the datagrams when the log server is stopped. A round of the event loop empties the
socket before it looks at the stop flag, and `checkStopFlag` ends the loop when it finds the flag
set: what arrives between the two in the last round is never received.

`logged_iff` says that a run in which the server returns has logged every datagram that was sent
before the stop flag was set exactly if none of them was left in the socket when `checkStopFlag`
found the flag set.
-/

set_option autoImplicit false
set_option relaxedAutoImplicit false

namespace Nebula.Logging

open Nebula.Library Nebula.Async

/-- The positions from which a stopped event loop returns without calling `epoll_wait`. -/
def Position.Leaving : Position → Prop
  | .timeEvents _ _ | .checkStopFlag _ _ | .loopTest | .returned => True
  | _ => False

namespace Writing

/-- The messages from clients. -/
def received (writings : List Writing) : List Bytes :=
  (writings.filter Writing.fromClient).map Writing.message

/-- The messages that `write` is called with for clients. -/
def written (writings : List Writing) : List Bytes :=
  (writings.filter Writing.fromClient).flatMap fun x ↦ x.calls.filterMap FileCall.data?

theorem received_append (writings writings' : List Writing) :
    received (writings ++ writings') = received writings ++ received writings' := by
  rw [received, List.filter_append, List.map_append]
  rfl

theorem written_append (writings writings' : List Writing) :
    written (writings ++ writings') = written writings ++ written writings' := by
  rw [written, List.filter_append, List.flatMap_append]
  rfl

end Writing

namespace Session

/-- The messages that `recvDomainSocketMessage` has passed to `FileHandle::writeMessage`. -/
def received (s : Session) : List Bytes := Writing.received s.writings

/-- The messages of the `write` calls that `FileHandle::writeMessage` has made for them. -/
def written (s : Session) : List Bytes := Writing.written s.writings

/-- Everything that was sent before the stop flag was set has been passed to
`FileHandle::writeMessage` exactly once, in the order of its arrival: it is what has been received
first, nothing is received that was not sent, or twice, and if there is a log file, then `write` is
called with what is received, and with nothing else. -/
def Logged (s : Session) : Prop :=
  s.sentBeforeStop.map Datagram.bytes <+: s.received ∧
    s.received <+: s.sent.map Datagram.bytes ∧
    (0 ≤ s.fileHandle.fd → s.written = s.received)

/-- If the action is `checkStopFlag` finding the flag set, then only datagrams that were sent later
are left in the socket. -/
def DrainsFirst (s : Session) : Action → Prop
  | .server _ =>
      match s.position with
      | .checkStopFlag _ _ =>
          s.stopFlag = true → s.sentBeforeStop.length + s.queue.length ≤ s.sent.length
      | _ => True
  | _ => True

instance (s : Session) (action : Action) : Decidable (s.DrainsFirst action) :=
  match action with
  | .send _ | .setStopFlag | .wait _ => isTrue trivial
  | .server _ =>
      match h : s.position with
      | .checkStopFlag _ _ => decidable_of_iff
          (s.stopFlag = true → s.sentBeforeStop.length + s.queue.length ≤ s.sent.length)
          (by simp [DrainsFirst, h])
      | .starting | .loopTest | .readyFds _ | .epollWait _ | .receiving _ | .readingClock
      | .timeEvents _ _ | .returned => isTrue (by simp [DrainsFirst, h])

/-! ### What a step can do -/

variable {s s' : Session} {action : Action} {answer : Answer}

@[simp] theorem fd_writeMessage (fromClient : Bool) (message : Bytes) (result : ℤ) :
    (s.writeMessage fromClient message result).fileHandle.fd = s.fileHandle.fd :=
  s.fileHandle.fd_writeMessage message result

@[simp] theorem received_writeMessage (fromClient : Bool) (message : Bytes) (result : ℤ) :
    (s.writeMessage fromClient message result).received =
      s.received ++ if fromClient then [message] else [] := by
  refine (Writing.received_append s.writings _).trans (congrArg (s.received ++ ·) ?_)
  cases fromClient <;> rfl

/-- A message from a client is written. -/
theorem written_writeMessage_client (hfd : 0 ≤ s.fileHandle.fd) (message : Bytes) (result : ℤ) :
    (s.writeMessage true message result).written = s.written ++ [message] := by
  refine (Writing.written_append s.writings _).trans (congrArg (s.written ++ ·) ?_)
  change (s.fileHandle.writeMessage message result).2.2.filterMap FileCall.data? ++ [] = _
  rw [List.append_nil]
  rcases FileHandle.calls_writeMessage hfd message result with hcalls | hcalls <;> rw [hcalls] <;>
    rfl

/-- A message of the server is none from a client. -/
theorem written_writeMessage_server (message : Bytes) (result : ℤ) :
    (s.writeMessage false message result).written = s.written :=
  (Writing.written_append s.writings _).trans (List.append_nil _)

/-- The buffer of `recvDomainSocketMessage` takes in the whole datagram. -/
theorem received_receive (datagram : Datagram) (rest : List Datagram) (result : ℤ) :
    (s.receive datagram rest result).received = s.received ++ [datagram.bytes] := by
  refine (received_writeMessage true _ result).trans ?_
  rw [List.take_of_length_le datagram.length_le]
  rfl

/-- Nothing has happened to the datagrams and to the stop flag. -/
structure Unmoved (s s' : Session) : Prop where
  stopFlag : s'.stopFlag = s.stopFlag
  queue : s'.queue = s.queue
  sent : s'.sent = s.sent
  sentBeforeStop : s'.sentBeforeStop = s.sentBeforeStop
  received : s'.received = s.received
  written : s'.written = s.written
  fd : s'.fileHandle.fd = s.fileHandle.fd
  numMonitoredFds : s'.ae.fds.numMonitoredFds = s.ae.fds.numMonitoredFds

/-- A step inside the event loop: it leaves the loop only by the loop test, and returns to
`epoll_wait` only by the loop test. -/
structure Loops (s s' : Session) : Prop extends Unmoved s s' where
  stopped : s'.ae.stopped = s.ae.stopped
  returned : s'.position = .returned → s.ae.loopTest = false
  leaving : s.position.Leaving → s.ae.loopTest = false → s'.position.Leaving

/-- A step of the server is one inside the loop, or receives the first datagram of the queue, or
stops the loop. -/
inductive Serves (s : Session) : Session → Prop where
  | loops (s' : Session) (hloops : Loops s s') : Serves s s'
  | receives (slot : Option ℤ) (datagram : Datagram) (rest : List Datagram) (result : ℤ)
      (hposition : s.position = .receiving slot) (hqueue : s.queue = datagram :: rest) :
      Serves s (s.receive datagram rest result)
  | stops (s' : Session) (now i : ℤ) (hposition : s.position = .checkStopFlag now i)
      (hflag : s.stopFlag = true) (hunmoved : Unmoved s s') (hstopped : s'.ae.stopped = true)
      (hleaving : s'.position = .timeEvents now i) : Serves s s'

theorem Unmoved.refl (s : Session) : Unmoved s s := ⟨rfl, rfl, rfl, rfl, rfl, rfl, rfl, rfl⟩

/-- The server writes a message of its own. -/
theorem unmoved_writeMessage (message : Bytes) (result : ℤ) :
    Unmoved s (s.writeMessage false message result) :=
  ⟨rfl, rfl, rfl, rfl, (received_writeMessage ..).trans (List.append_nil _),
    written_writeMessage_server message result, fd_writeMessage .., rfl⟩

theorem loops_goto {position : Position}
    (hreturned : position = .returned → s.ae.loopTest = false)
    (hleaving : s.position.Leaving → s.ae.loopTest = false → position.Leaving) :
    Loops s (s.goto position) :=
  ⟨{ Unmoved.refl s with }, rfl, hreturned, hleaving⟩

theorem serves_of_serverStep (h : s.serverStep answer = some s') : Serves s s' := by
  unfold serverStep at h
  split at h
  case h_1 hposition =>
    cases h
    have hunmoved := unmoved_writeMessage (s := s) answer.text answer.result
    exact .loops _ ⟨{ hunmoved with }, rfl, nofun, fun _ _ ↦ trivial⟩
  case h_2 hposition =>
    cases h
    refine .loops _ (loops_goto ?_ ?_)
    · split_ifs with htest <;> simp [htest]
    · intro _ htest
      rw [if_neg (by simp [htest])]
      trivial
  case h_3 idx hposition =>
    cases h
    refine .loops _ (loops_goto ?_ ?_)
    · split_ifs <;> nofun
    · exact fun hleaving ↦ absurd hleaving (by simp [hposition, Position.Leaving])
  case h_4 latest hposition =>
    have hleaving : ¬ s.position.Leaving := by simp [hposition, Position.Leaving]
    split_ifs at h <;> cases h
    · exact .loops _ (loops_goto nofun fun h ↦ absurd h hleaving)
    · exact .loops _ ⟨{ Unmoved.refl s with }, rfl, nofun, fun h ↦ absurd h hleaving⟩
    · exact .loops _ (loops_goto nofun fun h ↦ absurd h hleaving)
  case h_5 slot hposition =>
    have hleaving : ¬ s.position.Leaving := by simp [hposition, Position.Leaving]
    split at h
    · rename_i datagram rest hqueue
      cases h
      exact .receives slot datagram rest _ hposition hqueue
    · cases h
      refine .loops _ ?_
      cases slot with
      | none =>
        exact ⟨{ Unmoved.refl s with numMonitoredFds := FdTable.numMonitoredFds_settleFired }, rfl,
          nofun, fun h ↦ absurd h hleaving⟩
      | some idx =>
        exact ⟨{ Unmoved.refl s with numMonitoredFds := FdTable.numMonitoredFds_settleReady }, rfl,
          nofun, fun h ↦ absurd h hleaving⟩
  case h_6 hposition =>
    cases h
    exact .loops _ (loops_goto nofun fun _ _ ↦ trivial)
  case h_7 now i hposition =>
    cases h
    refine .loops _ (loops_goto ?_ ?_)
    · split_ifs <;> nofun
    · intro _ _
      split_ifs <;> trivial
  case h_8 now i hposition =>
    cases h
    by_cases hflag : s.stopFlag = true
    · rw [checkStopFlag, if_pos hflag]
      have hunmoved := unmoved_writeMessage (s := s) answer.text answer.result
      exact .stops _ now i hposition hflag { hunmoved with } rfl rfl
    · rw [checkStopFlag, if_neg hflag]
      exact .loops _ ⟨{ Unmoved.refl s with }, rfl, nofun, fun _ _ ↦ trivial⟩
  case h_9 hposition => cases h

/-- What `checkStopFlag` does when it finds the flag set. -/
theorem stopped_of_checkStopFlag {now i : ℤ} (hposition : s.position = .checkStopFlag now i)
    (hflag : s.stopFlag = true) (h : s.serverStep answer = some s') :
    s'.ae.stopped = true ∧ Unmoved s s' := by
  rw [serverStep, hposition] at h
  cases h
  rw [checkStopFlag, if_pos hflag]
  exact ⟨rfl, { unmoved_writeMessage (s := s) answer.text answer.result with }⟩

/-- A descriptor that is not monitored yet is monitored after it has been registered, and the loop
is not stopped by that. -/
theorem register_spec {ae ae' : AsyncEvent} {kernel : InterestSet} {domainFd now : ℤ}
    (hnone : (ae.fds.fdEventList domainFd).monitored = Mask.none)
    (h : register ae kernel domainFd now = some ae') :
    ae'.stopped = ae.stopped ∧ ae'.fds.numMonitoredFds = ae.fds.numMonitoredFds + 1 := by
  unfold register at h
  split at h
  · cases h
  · rename_i fds _ hadd
    have hnum : fds.numMonitoredFds = ae.fds.numMonitoredFds + 1 := by
      unfold FdTable.addFdEvent at hadd
      split at hadd
      · cases hadd
      · simp only [hnone, if_true] at hadd
        split at hadd
        · cases hadd
        · cases hadd
          rfl
    split at h
    · cases h
    · cases h
      exact ⟨rfl, hnum⟩

/-! ### Runs -/

/-- What holds in every session of a server that monitors its socket. -/
structure Accounted (s : Session) : Prop where
  numMonitoredFds_pos : 0 < s.ae.fds.numMonitoredFds
  taken : ∃ taken, s.sent = taken ++ s.queue ∧ s.received = taken.map Datagram.bytes
  written : 0 ≤ s.fileHandle.fd → s.written = s.received
  early : s.sentBeforeStop <+: s.sent
  stopFlag : s.ae.stopped = true → s.stopFlag = true
  leaving : s.ae.stopped = true → s.position.Leaving
  returned : s.position = .returned → s.ae.stopped = true

namespace Accounted

theorem length_sent (h : s.Accounted) : s.sent.length = s.received.length + s.queue.length := by
  obtain ⟨taken, hsent, hreceived⟩ := h.taken
  rw [hsent, hreceived, List.length_append, List.length_map]

/-- The datagrams sent before the stop flag are logged exactly if as many have been received. -/
theorem logged_iff_length (h : s.Accounted) :
    s.Logged ↔ s.sentBeforeStop.length ≤ s.received.length := by
  obtain ⟨taken, hsent, hreceived⟩ := h.taken
  have hinit : s.received <+: s.sent.map Datagram.bytes := by
    rw [hreceived, hsent]
    exact (List.prefix_append taken s.queue).map Datagram.bytes
  constructor
  · intro hlogged
    simpa using hlogged.1.length_le
  · intro hle
    refine ⟨?_, hinit, h.written⟩
    exact List.prefix_of_prefix_length_le (h.early.map Datagram.bytes) hinit (by simpa using hle)

theorem stopped_of_not_loopTest (h : s.Accounted) (htest : s.ae.loopTest = false) :
    s.ae.stopped = true := by
  have hpos := h.numMonitoredFds_pos
  simpa [AsyncEvent.loopTest, hpos] using htest

theorem not_loopTest (hstopped : s.ae.stopped = true) : s.ae.loopTest = false := by
  simp [AsyncEvent.loopTest, hstopped]

/-- A step inside the loop. -/
theorem loops (h : s.Accounted) (hloops : Loops s s') : s'.Accounted where
  numMonitoredFds_pos := hloops.numMonitoredFds ▸ h.numMonitoredFds_pos
  taken := by
    rw [hloops.sent, hloops.queue, hloops.received]
    exact h.taken
  written := by
    rw [hloops.fd, hloops.written, hloops.received]
    exact h.written
  early := by
    rw [hloops.sent, hloops.sentBeforeStop]
    exact h.early
  stopFlag := by
    rw [hloops.stopped, hloops.stopFlag]
    exact h.stopFlag
  leaving := by
    rw [hloops.stopped]
    exact fun hstopped ↦ hloops.leaving (h.leaving hstopped) (not_loopTest hstopped)
  returned := by
    rw [hloops.stopped]
    exact fun hreturned ↦ h.stopped_of_not_loopTest (hloops.returned hreturned)

/-- A datagram is received. -/
theorem receives (h : s.Accounted) {datagram : Datagram} {rest : List Datagram}
    (hqueue : s.queue = datagram :: rest) (result : ℤ) :
    (s.receive datagram rest result).Accounted where
  numMonitoredFds_pos := h.numMonitoredFds_pos
  taken := by
    obtain ⟨taken, hsent, hreceived⟩ := h.taken
    refine ⟨taken ++ [datagram], ?_, ?_⟩
    · change s.sent = taken ++ [datagram] ++ rest
      rw [hsent, hqueue, List.append_assoc]
      rfl
    · rw [received_receive, hreceived, List.map_append]
      rfl
  written hfd := by
    have hopen : 0 ≤ s.fileHandle.fd := hfd.trans_eq (fd_writeMessage true _ result)
    rw [received_receive, ← h.written hopen]
    refine (written_writeMessage_client hopen _ result).trans ?_
    rw [List.take_of_length_le datagram.length_le]
  early := h.early
  stopFlag := h.stopFlag
  leaving := h.leaving
  returned := h.returned

theorem stops (h : s.Accounted) {now i : ℤ} (hflag : s.stopFlag = true) (hunmoved : Unmoved s s')
    (hstopped : s'.ae.stopped = true) (hleaving : s'.position = .timeEvents now i) :
    s'.Accounted where
  numMonitoredFds_pos := hunmoved.numMonitoredFds ▸ h.numMonitoredFds_pos
  taken := by
    rw [hunmoved.sent, hunmoved.queue, hunmoved.received]
    exact h.taken
  written := by
    rw [hunmoved.fd, hunmoved.written, hunmoved.received]
    exact h.written
  early := by
    rw [hunmoved.sent, hunmoved.sentBeforeStop]
    exact h.early
  stopFlag := fun _ ↦ hunmoved.stopFlag ▸ hflag
  leaving := by
    rw [hleaving]
    exact fun _ ↦ trivial
  returned := fun _ ↦ hstopped

/-- Every action of every party. -/
theorem next (h : s.Accounted) (hnext : Session.next s action = some s') : s'.Accounted := by
  cases action with
  | send datagram =>
    cases hnext
    obtain ⟨taken, hsent, hreceived⟩ := h.taken
    refine { h with taken := ⟨taken, ?_, hreceived⟩, early := ?_ }
    · change s.sent ++ [datagram] = taken ++ (s.queue ++ [datagram])
      rw [hsent, List.append_assoc]
    · exact h.early.trans (List.prefix_append s.sent [datagram])
  | setStopFlag =>
    cases hnext
    refine { h with stopFlag := fun _ ↦ rfl, early := ?_ }
    change (if s.stopFlag then s.sentBeforeStop else s.sent) <+: s.sent
    split_ifs
    · exact h.early
    · exact List.prefix_rfl
  | wait ms =>
    cases hnext
    exact { h with }
  | server answer =>
    cases serves_of_serverStep hnext with
    | loops _ hloops => exact h.loops hloops
    | receives slot datagram rest result hposition hqueue =>
      exact h.receives hqueue result
    | stops _ now i hposition hflag hunmoved hstopped hleaving =>
      exact h.stops hflag hunmoved hstopped hleaving

/-- Once the loop is stopped, nothing is received any more. -/
theorem next_of_stopped (h : s.Accounted) (hstopped : s.ae.stopped = true)
    (hnext : Session.next s action = some s') :
    s'.ae.stopped = true ∧ s'.received = s.received ∧ s'.sentBeforeStop = s.sentBeforeStop := by
  cases action with
  | send datagram =>
    cases hnext
    exact ⟨hstopped, rfl, rfl⟩
  | setStopFlag =>
    cases hnext
    exact ⟨hstopped, rfl, if_pos (h.stopFlag hstopped)⟩
  | wait ms =>
    cases hnext
    exact ⟨hstopped, rfl, rfl⟩
  | server answer =>
    cases serves_of_serverStep hnext with
    | loops _ hloops =>
      exact ⟨hloops.stopped.trans hstopped, hloops.received, hloops.sentBeforeStop⟩
    | receives slot datagram rest result hposition hqueue =>
      have hleaving := h.leaving hstopped
      rw [hposition] at hleaving
      cases hleaving
    | stops _ now i hposition hflag hunmoved hstopped' hleaving =>
      exact ⟨hstopped', hunmoved.received, hunmoved.sentBeforeStop⟩

/-- The loop is only stopped by `checkStopFlag` finding the flag set. -/
theorem next_of_going (hgoing : s.ae.stopped = false) (hnext : Session.next s action = some s')
    (hstopped : s'.ae.stopped = true) :
    ∃ answer now i, action = .server answer ∧ s.position = .checkStopFlag now i ∧
      s.stopFlag = true ∧ Unmoved s s' := by
  cases action with
  | send datagram =>
    cases hnext
    exact absurd hstopped (by simp [hgoing])
  | setStopFlag =>
    cases hnext
    exact absurd hstopped (by simp [hgoing])
  | wait ms =>
    cases hnext
    exact absurd hstopped (by simp [hgoing])
  | server answer =>
    cases serves_of_serverStep hnext with
    | loops _ hloops => exact absurd hstopped (by simp [hloops.stopped, hgoing])
    | receives slot datagram rest result hposition hqueue =>
      exact absurd hstopped (by simp [receive, writeMessage, hgoing])
    | stops _ now i hposition hflag hunmoved hstopped' hleaving =>
      exact ⟨answer, now, i, rfl, hposition, hflag, hunmoved⟩

/-- What the condition says when `checkStopFlag` finds the flag set. -/
theorem drainsFirst_iff (h : s.Accounted) {now i : ℤ}
    (hposition : s.position = .checkStopFlag now i)
    (hflag : s.stopFlag = true) (answer : Answer) :
    s.DrainsFirst (.server answer) ↔ s.sentBeforeStop.length ≤ s.received.length := by
  have hsent := h.length_sent
  simp only [DrainsFirst, hposition, hflag, true_implies]
  omega

/-- A server that has registered its socket. -/
theorem started {ae : AsyncEvent} (hpos : 0 < ae.fds.numMonitoredFds) (hgoing : ae.stopped = false)
    (fileHandle : FileHandle) (domainFd now : ℤ) :
    (Session.started ae fileHandle domainFd now).Accounted where
  numMonitoredFds_pos := hpos
  taken := ⟨[], rfl, rfl⟩
  written _ := rfl
  early := List.prefix_rfl
  stopFlag hstopped := absurd (hgoing.symm.trans hstopped) Bool.false_ne_true
  leaving hstopped := absurd (hgoing.symm.trans hstopped) Bool.false_ne_true
  returned := nofun

end Accounted

/-- Nothing sent before the stop flag is missing from what has been received when the loop is
stopped. -/
def Kept (s : Session) : Prop :=
  s.Accounted ∧ (s.ae.stopped = true → s.sentBeforeStop.length ≤ s.received.length)

/-- The loop is stopped, and something sent before the stop flag has not been received. -/
def Lost (s : Session) : Prop :=
  s.Accounted ∧ s.ae.stopped = true ∧ s.received.length < s.sentBeforeStop.length

theorem Kept.next (h : s.Kept) (hdrains : s.DrainsFirst action)
    (hnext : Session.next s action = some s') : s'.Kept := by
  refine ⟨h.1.next hnext, fun hstopped ↦ ?_⟩
  cases hgoing : s.ae.stopped with
  | true =>
    obtain ⟨-, hreceived, hearly⟩ := h.1.next_of_stopped hgoing hnext
    rw [hreceived, hearly]
    exact h.2 hgoing
  | false =>
    obtain ⟨answer, now, i, rfl, hposition, hflag, hunmoved⟩ :=
      Accounted.next_of_going hgoing hnext hstopped
    rw [hunmoved.received, hunmoved.sentBeforeStop]
    exact (h.1.drainsFirst_iff hposition hflag answer).mp hdrains

theorem Kept.lost (h : s.Kept) (hdrains : ¬ s.DrainsFirst action)
    (hnext : Session.next s action = some s') : s'.Lost := by
  have hbad : ∃ answer now i, action = .server answer ∧ s.position = .checkStopFlag now i ∧
      s.stopFlag = true := by
    unfold DrainsFirst at hdrains
    split at hdrains
    · split at hdrains
      · rename_i answer _ now i hposition
        exact ⟨answer, now, i, rfl, hposition, (Classical.not_imp.mp hdrains).1⟩
      · exact absurd trivial hdrains
    · exact absurd trivial hdrains
  obtain ⟨answer, now, i, rfl, hposition, hflag⟩ := hbad
  obtain ⟨hstopped, hunmoved⟩ := stopped_of_checkStopFlag hposition hflag hnext
  rw [h.1.drainsFirst_iff hposition hflag answer] at hdrains
  refine ⟨h.1.next hnext, hstopped, ?_⟩
  rw [hunmoved.received, hunmoved.sentBeforeStop]
  exact Nat.not_le.mp hdrains

theorem Lost.next (h : s.Lost) (hnext : Session.next s action = some s') : s'.Lost := by
  obtain ⟨hstopped, hreceived, hearly⟩ := h.1.next_of_stopped h.2.1 hnext
  refine ⟨h.1.next hnext, hstopped, ?_⟩
  rw [hreceived, hearly]
  exact h.2.2

/-- For every log server whose start-up has succeeded and every interleaving in which `routine`
returns: everything sent before the stop flag was set is logged exactly if `checkStopFlag` never
found the flag set while some of it was left in the socket. -/
theorem logged_iff (fdTableSize : ℤ) (aroundFds : ℤ → ℤ) (aroundTimes : ℤ → TimeEventInfo)
    (kernel : InterestSet) (domainFd now : ℤ) (ae : AsyncEvent)
    (hregister : register (.initialized fdTableSize 32 aroundFds aroundTimes) kernel domainFd now =
      some ae)
    (fileHandle : FileHandle) (actions : List Action) (s : Session)
    (hrun : System.run Session.next (started ae fileHandle domainFd now) actions = some s)
    (hreturned : s.position = .returned) :
    s.Logged ↔
      System.Meets Session.next DrainsFirst (started ae fileHandle domainFd now) actions := by
  obtain ⟨hgoing, hnum⟩ := register_spec rfl hregister
  have hpos : 0 < ae.fds.numMonitoredFds := by
    rw [hnum]
    exact Int.one_pos
  have hstart := Accounted.started hpos hgoing fileHandle domainFd now
  have hkept : (started ae fileHandle domainFd now).Kept := ⟨hstart, fun _ ↦ Nat.zero_le _⟩
  constructor
  · intro hlogged
    refine (System.meets_or_spoiled (fun _ _ _ h ↦ h.next) (fun _ _ _ h ↦ h.lost)
      (fun _ _ _ h ↦ h.next) hkept hrun).resolve_right fun hlost ↦ ?_
    exact absurd (hlost.1.logged_iff_length.mp hlogged) (Nat.not_le.mpr hlost.2.2)
  · intro hmeets
    have h := System.run_meets (fun _ _ _ h hdrains hnext ↦ Kept.next h hdrains hnext) hkept hmeets
      hrun
    exact h.1.logged_iff_length.mpr (h.2 (h.1.returned hreturned))

/-! ### Two runs -/

/-- The event loop that has registered descriptor 3. -/
def registered : AsyncEvent :=
  (register (.initialized 8 32 (fun _ ↦ 0) fun _ ↦ ⟨0, 0, null, 0⟩)
    ⟨fun _ ↦ none, fun _ ↦ false⟩ 3 0).get (by decide)

/-- A handle whose file is descriptor 4. -/
def logFile : FileHandle × List (FileCall Bytes) :=
  FileHandle.new.setConfig (some [0x2e]) [0x66] 1 ⟨id, fun template ↦ (template, 4), 4⟩

def ready : Session := started registered logFile.1 3 0

def message : Datagram := ⟨[0x6d], by decide, by decide⟩

/-- The server takes some steps, and every message that it writes has one byte. -/
def steps (count : ℕ) : List Action := List.replicate count (.server ⟨false, [0x73], 1⟩)

/-- A message wakes the server up, and the stop flag is set while it is being received. -/
def timelyRun : List Action :=
  steps 3 ++ [.send message] ++ steps 1 ++ [.setStopFlag, .wait 1000] ++ steps 7

/-- The server wakes up for the timer, and then a message is sent and the stop flag is set. -/
def lateRun : List Action :=
  steps 3 ++ [.wait 1000] ++ steps 1 ++ [.send message, .setStopFlag] ++ steps 5

def afterTimelyRun : Session := (System.run next ready timelyRun).get (by decide +kernel)

def afterLateRun : Session := (System.run next ready lateRun).get (by decide +kernel)

theorem logged_timelyRun : afterTimelyRun.fileHandle.fd = 4 ∧
    afterTimelyRun.sentBeforeStop.length = 1 ∧ afterTimelyRun.Logged := by
  refine ⟨by decide +kernel, by decide +kernel, ?_⟩
  exact (logged_iff 8 (fun _ ↦ 0) (fun _ ↦ ⟨0, 0, null, 0⟩) ⟨fun _ ↦ none, fun _ ↦ false⟩ 3 0
    registered (Option.some_get _).symm logFile.1 timelyRun afterTimelyRun (Option.some_get _).symm
    (by decide +kernel)).mpr (by decide +kernel)

theorem not_logged_lateRun :
    System.run next ready lateRun = some afterLateRun ∧ afterLateRun.position = .returned ∧
      afterLateRun.fileHandle.fd = 4 ∧ afterLateRun.sentBeforeStop.length = 1 ∧
      afterLateRun.received = [] ∧ ¬ afterLateRun.Logged := by
  refine ⟨(Option.some_get _).symm, by decide +kernel, by decide +kernel, by decide +kernel,
    by decide +kernel, fun hlogged ↦ ?_⟩
  have hle := hlogged.1.length_le
  revert hle
  decide +kernel

end Session

end Nebula.Logging
