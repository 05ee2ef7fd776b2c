import Nebula.Logging.Stopping

/-!
The event loop of the log server. `Session` takes the server thread apart into single steps, so that
clients and `destroyInstance` can act between any two of them; in `eventLoop` a callback is one
exchange with the environment.

`eventLoop_session` says that the first describes the second. When the two callbacks return what
`recvDomainSocketMessage` and `checkStopFlag` return, and `epoll_wait` and the clock do what they
are documented to do, every run of `eventLoop` is one of `Session`, with the same tables and with
the datagrams that the calls of `recvDomainSocketMessage` take out of the socket, in this order.
One iteration is followed step by step (`Coupled.loopBody`); the messages are sent, the time passes
and the stop flag is set when the loop is about to notice it.
-/

set_option autoImplicit false
set_option relaxedAutoImplicit false

namespace Nebula.Logging

open Nebula.Library Nebula.Async FdTable

variable {κ : Type*}

/-! ### The environment -/

/-- The environment of the server's event loop: what the two callbacks return, what `epoll_wait`
reports about the only descriptor that is monitored, and a clock that does not go back. -/
structure ServerEnv (env : Env κ) (domainFd : ℤ) : Prop where
  recv : ∀ w fd mask info, info.proc = recvProc →
    env.react w (.proc fd mask info) = ⟨[], Mask.none⟩
  check : ∀ w event, event.proc = stopProc →
    env.react w (.timeProc event) = ⟨[.stop], 0⟩ ∨
      env.react w (.timeProc event) = ⟨[], defaultCheckIntervalMs⟩
  fired : ∀ w ms batch, env.epollWait w ms = some batch →
    batch = [] ∨ ∃ ee, batch = [ee] ∧ ee.fd = domainFd ∧ ee.events &&& epollOut = 0
  forward : ∀ w now, .clock now ∈ w.log → now ≤ env.clock w
  timedOut : ∀ w ms now log, w.log = .waited ms (some []) :: .clock now :: log →
    now + ms ≤ env.clock w

/-- How often `recvDomainSocketMessage` has been called. -/
def recvCalls : List Record → ℕ
  | [] => 0
  | .called (.proc _ _ _) :: log => recvCalls log + 1
  | _ :: log => recvCalls log

/-- What has been received, when the calls of `recvDomainSocketMessage` take the given datagrams out
of the socket. -/
def receivedBy (arrivals : ℕ → List Datagram) (log : List Record) : List Bytes :=
  ((List.range (recvCalls log)).flatMap arrivals).map Datagram.bytes

/-- The callbacks are registered. -/
structure Wired (ae : AsyncEvent) (domainFd : ℤ) : Prop where
  proc : (ae.fds.fdEventList domainFd).proc = recvProc
  procExp : (ae.fds.fdEventList domainFd).procExp = null
  timeProc : (ae.times.timeEventList.cell 0).proc = stopProc
  inBounds : ae.times.timeEventList.InBounds 0

/-- The session is between two rounds of `recvDomainSocketMessage`, in the same state as the event
loop, and at a time that the loop has read from the clock. -/
structure Coupled (arrivals : ℕ → List Datagram) (domainFd : ℤ) (s : Session) (w : World κ) :
    Prop where
  regular : s.Regular
  domainFd_eq : s.domainFd = domainFd
  ae : s.ae = w.ae
  wired : s.ae.stopped = false → Wired s.ae domainFd
  queue : s.queue = []
  readable : s.readable = false
  stopFlag : s.stopFlag = s.ae.stopped
  clock : .clock s.clock ∈ w.log
  received : s.received = receivedBy arrivals w.log

/-- The session can follow the event loop to a position. -/
def Follows (arrivals : ℕ → List Datagram) (domainFd : ℤ) (s : Session) (position : Position)
    (w : World κ) : Prop :=
  ∃ t, System.Reaches Session.next s t ∧ t.position = position ∧ Coupled arrivals domainFd t w

variable {arrivals : ℕ → List Datagram} {domainFd : ℤ} {s t : Session} {w w' : World κ}
  {position position' : Position}

theorem Follows.trans (h : Follows arrivals domainFd s position w)
    (hnext : ∀ t, t.position = position → Coupled arrivals domainFd t w →
      Follows arrivals domainFd t position' w') : Follows arrivals domainFd s position' w' := by
  obtain ⟨t, hreaches, hposition, hcoupled⟩ := h
  obtain ⟨u, hreaches', hposition', hcoupled'⟩ := hnext t hposition hcoupled
  exact ⟨u, hreaches.trans hreaches', hposition', hcoupled'⟩

theorem regular_of_reaches (h : s.Regular) (hreaches : System.Reaches Session.next s t) :
    t.Regular := by
  obtain ⟨actions, hrun⟩ := hreaches
  exact System.run_invariant (fun _ _ _ h hnext ↦ h.next hnext) h hrun

/-! ### The receiving loop -/

namespace Session

/-- All of the datagrams arrive. -/
theorem reaches_send (s : Session) (datagrams : List Datagram) (hne : datagrams ≠ []) :
    System.Reaches Session.next s
      { s with
        queue := s.queue ++ datagrams
        readable := true
        sent := s.sent ++ datagrams } := by
  induction datagrams generalizing s with
  | nil => exact absurd rfl hne
  | cons datagram rest ih =>
    have hsend : Session.next s (.send datagram) = some { s with
        queue := s.queue ++ [datagram]
        readable := true
        sent := s.sent ++ [datagram] } := rfl
    cases rest with
    | nil => exact .of_next hsend
    | cons datagram' rest' =>
      have hrest := ih { s with
        queue := s.queue ++ [datagram]
        readable := true
        sent := s.sent ++ [datagram] } (List.cons_ne_nil datagram' rest')
      simp only [List.append_assoc, List.singleton_append] at hrest
      exact System.Reaches.trans (.of_next hsend) hrest

/-- What `recvDomainSocketMessage` leaves behind when it has emptied the socket. -/
structure Emptied (s t : Session) : Prop where
  position : t.position = s.position
  domainFd : t.domainFd = s.domainFd
  ae : t.ae = s.ae
  stopFlag : t.stopFlag = s.stopFlag
  readable : t.readable = s.readable
  clock : t.clock = s.clock
  queue : t.queue = []
  received : t.received = s.received ++ s.queue.map Datagram.bytes

/-- The socket is emptied. -/
theorem reaches_receive {slot : Option ℤ} (s : Session) (hposition : s.position = .receiving slot) :
    ∃ t, System.Reaches Session.next s t ∧ Emptied s t := by
  induction hqueue : s.queue generalizing s with
  | nil =>
    refine ⟨s, .refl _ s, rfl, rfl, rfl, rfl, rfl, rfl, hqueue, ?_⟩
    rw [hqueue, List.map_nil, List.append_nil]
  | cons datagram rest ih =>
    have hstep : Session.next s (.server ⟨false, [], 0⟩) = some (s.receive datagram rest 0) := by
      change s.serverStep _ = _
      rw [serverStep, hposition]
      simp only [hqueue]
    obtain ⟨t, hreaches, h⟩ := ih (s.receive datagram rest 0) hposition rfl
    refine ⟨t, System.Reaches.trans (.of_next hstep) hreaches, h.position, h.domainFd, h.ae,
      h.stopFlag, h.readable, h.clock, h.queue, ?_⟩
    rw [h.received, received_receive, hqueue, List.map_cons]
    change s.received ++ [datagram.bytes] ++ rest.map Datagram.bytes = _
    rw [List.append_assoc, List.singleton_append]

end Session

/-! ### Steps that both take -/

namespace Coupled

variable {answer : Answer} {r : Record} {now : ℤ}

/-- What `recvDomainSocketMessage` does not do is not noticed by the session. -/
theorem record (h : Coupled arrivals domainFd s w) (hr : recvCalls (r :: w.log) = recvCalls w.log) :
    Coupled arrivals domainFd s (w.record r) where
  regular := h.regular
  domainFd_eq := h.domainFd_eq
  ae := h.ae
  wired := h.wired
  queue := h.queue
  readable := h.readable
  stopFlag := h.stopFlag
  clock := List.mem_cons_of_mem r h.clock
  received := by
    rw [World.log_record, receivedBy, hr]
    exact h.received

/-- The server thread goes to another position. -/
theorem goto (h : Coupled arrivals domainFd s w)
    (hstep : s.serverStep answer = some (s.goto position)) :
    System.Reaches Session.next s (s.goto position) ∧
      Coupled arrivals domainFd (s.goto position) w := by
  have hreaches : System.Reaches Session.next s (s.goto position) :=
    .of_next (a := .server answer) hstep
  exact ⟨hreaches, regular_of_reaches h.regular hreaches, h.domainFd_eq, h.ae, h.wired, h.queue,
    h.readable, h.stopFlag, h.clock, h.received⟩

theorem follows (h : Coupled arrivals domainFd s w)
    (hstep : s.serverStep answer = some (s.goto position)) :
    Follows arrivals domainFd s position w :=
  ⟨s.goto position, (h.goto hstep).1, rfl, (h.goto hstep).2⟩

/-- Time passes until the loop reads the clock. -/
theorem waitUntil (h : Coupled arrivals domainFd s w) (hle : s.clock ≤ now)
    (hmem : .clock now ∈ w.log) :
    System.Reaches Session.next s { s with clock := now } ∧
      Coupled arrivals domainFd { s with clock := now } w := by
  have hwait : Session.next s (.wait (now - s.clock).toNat) = some { s with clock := now } := by
    have hnow : s.clock + ((now - s.clock).toNat : ℤ) = now := by omega
    change some { s with clock := s.clock + ((now - s.clock).toNat : ℤ) } = _
    rw [hnow]
  have hreaches : System.Reaches Session.next s { s with clock := now } := .of_next hwait
  exact ⟨hreaches, regular_of_reaches h.regular hreaches, h.domainFd_eq, h.ae, h.wired, h.queue,
    h.readable, h.stopFlag, hmem, h.received⟩

/-- The tables of a loop that goes on. -/
theorem tables (h : Coupled arrivals domainFd s w) (hgoing : s.ae.stopped = false) :
    w.ae.fds.numReadyFds = 0 ∧ w.ae.times.usedTimeEvents = 1 := by
  rw [← h.ae]
  refine ⟨h.regular.ticking.numReadyFds, ?_⟩
  rw [h.regular.ticking.used, hgoing]
  rfl

theorem loopTest (h : Coupled arrivals domainFd s w) : s.ae.loopTest = !s.ae.stopped := by
  have hpos := h.regular.accounted.numMonitoredFds_pos
  simp [AsyncEvent.loopTest, hpos]

/-- From the loop test to `epoll_wait`. -/
theorem enters (h : Coupled arrivals domainFd s w) (hposition : s.position = .loopTest)
    (hgoing : s.ae.stopped = false) (hle : s.clock ≤ now) :
    ∃ t, System.Reaches Session.next s t ∧
      t.position = .epollWait (some (now + w.ae.waitMs (toInt32 (w.ae.msLeft now)))) ∧
      t.clock = now ∧ t.ae.stopped = false ∧
      Coupled arrivals domainFd t (w.record (.clock now)) := by
  have hrecord : Coupled arrivals domainFd s (w.record (.clock now)) := h.record rfl
  obtain ⟨hwait, hwaited⟩ := hrecord.waitUntil hle List.mem_cons_self
  have htest : ({ s with clock := now } : Session).serverStep ⟨false, [], 0⟩ =
      some (Session.goto { s with clock := now } (.readyFds 0)) := by
    rw [Session.serverStep]
    simp only [hposition]
    rw [if_pos (by rw [h.loopTest, hgoing]; rfl)]
  obtain ⟨hloop, hlooped⟩ := hwaited.goto htest
  have hready : ¬ (0 : ℤ) < s.ae.fds.numReadyFds := by
    rw [h.ae, (h.tables hgoing).1]
    exact lt_irrefl 0
  obtain ⟨ms, hms, -⟩ := hlooped.regular.ticking.latest hgoing
  have hlatest : (Session.goto { s with clock := now } (.readyFds 0)).latest =
      some (now + w.ae.waitMs (toInt32 (w.ae.msLeft now))) := by
    rw [← h.ae]
    unfold Session.latest at hms ⊢
    simp only at hms ⊢
    split_ifs at hms ⊢
    rfl
  have hstep : (Session.goto { s with clock := now } (.readyFds 0)).serverStep ⟨false, [], 0⟩ =
      some (Session.goto (Session.goto { s with clock := now } (.readyFds 0))
        (.epollWait (some (now + w.ae.waitMs (toInt32 (w.ae.msLeft now)))))) := by
    rw [← hlatest]
    exact congrArg (fun p ↦ some (Session.goto _ p)) (if_neg hready)
  obtain ⟨henter, hentered⟩ := hlooped.goto hstep
  exact ⟨_, (hwait.trans hloop).trans henter, rfl, rfl, hgoing, hentered⟩

/-- From the end of `epoll_wait` to `processTimeEvents`. -/
theorem readsClock (h : Coupled arrivals domainFd s w) (hposition : s.position = .readingClock)
    (hle : s.clock ≤ now) (hmem : .clock now ∈ w.log) :
    Follows arrivals domainFd s (.timeEvents now 0) w := by
  obtain ⟨hwait, hwaited⟩ := h.waitUntil hle hmem
  have hstep : ({ s with clock := now } : Session).serverStep ⟨false, [], 0⟩ =
      some (Session.goto { s with clock := now } (.timeEvents now 0)) := by
    rw [Session.serverStep]
    simp only [hposition]
  obtain ⟨hread, hdone⟩ := hwaited.goto hstep
  exact ⟨_, hwait.trans hread, rfl, hdone⟩

/-- `epoll_wait` has been interrupted. -/
theorem interrupted {latest : Option ℤ} (h : Coupled arrivals domainFd s w)
    (hposition : s.position = .epollWait latest) :
    Follows arrivals domainFd s .readingClock w := by
  have hstep : s.serverStep ⟨true, [], 0⟩ = some (s.goto .readingClock) := by
    rw [Session.serverStep, hposition]
    rfl
  exact h.follows hstep

/-- `epoll_wait` has timed out when the loop reads the clock again, and nothing has arrived. -/
theorem timesOut {ms : ℤ} (h : Coupled arrivals domainFd s w)
    (hposition : s.position = .epollWait (some ms)) (hle : s.clock ≤ now) (hms : ms ≤ now)
    (hmem : .clock now ∈ w.log) : Follows arrivals domainFd s (.timeEvents now 0) w := by
  obtain ⟨hwait, hwaited⟩ := h.waitUntil hle hmem
  have hstep : ({ s with clock := now } : Session).serverStep ⟨false, [], 0⟩ =
      some (Session.goto { s with clock := now } .readingClock) := by
    rw [Session.serverStep]
    simp only [hposition, h.readable, Bool.false_eq_true, false_and, if_false]
    rw [if_pos ⟨ms, rfl, hms⟩]
  obtain ⟨hreturn, hreturned⟩ := hwaited.goto hstep
  obtain ⟨t, hread, ht⟩ := hreturned.readsClock rfl le_rfl hmem
  exact ⟨t, (hwait.trans hreturn).trans hread, ht⟩

/-- `recvDomainSocketMessage` has been called once more. -/
theorem receives {latest : Option ℤ} (h : Coupled arrivals domainFd s w)
    (hposition : s.position = .epollWait latest) (hae : w'.ae = w.ae)
    (hlog : ∀ r ∈ w.log, r ∈ w'.log) (hcalls : recvCalls w'.log = recvCalls w.log + 1) :
    Follows arrivals domainFd s .readingClock w' := by
  have hreceived : receivedBy arrivals w'.log =
      s.received ++ (arrivals (recvCalls w.log)).map Datagram.bytes := by
    rw [h.received, receivedBy, hcalls, List.range_succ, List.flatMap_append, List.map_append,
      List.flatMap_singleton, receivedBy]
  by_cases hnone : arrivals (recvCalls w.log) = []
  · -- the event was for a datagram that is gone
    obtain ⟨t, hreaches, ht, hcoupled⟩ := h.interrupted hposition
    refine ⟨t, hreaches, ht, hcoupled.regular, hcoupled.domainFd_eq, hcoupled.ae.trans hae.symm,
      hcoupled.wired, hcoupled.queue, hcoupled.readable, hcoupled.stopFlag,
      hlog _ hcoupled.clock, ?_⟩
    rw [hreceived, hnone, List.map_nil, List.append_nil, h.received]
    exact hcoupled.received
  · have hsend := s.reaches_send (arrivals (recvCalls w.log)) hnone
    rw [h.queue, List.nil_append] at hsend
    have hreport : Session.next
        { s with
          queue := arrivals (recvCalls w.log)
          readable := true
          sent := s.sent ++ arrivals (recvCalls w.log) } (.server ⟨false, [], 0⟩) =
        some { s with
          queue := arrivals (recvCalls w.log)
          readable := false
          sent := s.sent ++ arrivals (recvCalls w.log)
          position := .receiving none } := by
      change Session.serverStep _ _ = _
      rw [Session.serverStep]
      simp only [hposition, Bool.false_eq_true, if_false]
      rw [if_pos ⟨trivial, hnone⟩]
    obtain ⟨t, hreceive, ht⟩ := Session.reaches_receive
      { s with
        queue := arrivals (recvCalls w.log)
        readable := false
        sent := s.sent ++ arrivals (recvCalls w.log)
        position := .receiving none } rfl
    have hemptied : System.Reaches Session.next s t :=
      hsend.trans (System.Reaches.trans (.of_next hreport) hreceive)
    have hregular := regular_of_reaches h.regular hemptied
    have hdrained : t.drained none = t.goto .readingClock := by
      rw [Session.drained, hregular.ticking.settleFired]
      rfl
    have hdrain : Session.next t (.server ⟨false, [], 0⟩) = some (t.goto .readingClock) := by
      change t.serverStep _ = _
      rw [Session.serverStep, ht.position]
      simp only [ht.queue, hdrained]
    have hreaches := hemptied.trans (.of_next hdrain)
    refine ⟨t.goto .readingClock, hreaches, rfl, regular_of_reaches h.regular hreaches,
      ht.domainFd.trans h.domainFd_eq, (ht.ae.trans h.ae).trans hae.symm, ?_, ht.queue,
      ht.readable, ?_, ?_, ht.received.trans hreceived.symm⟩
    · change t.ae.stopped = false → Wired t.ae domainFd
      rw [ht.ae]
      exact h.wired
    · change t.stopFlag = t.ae.stopped
      rw [ht.stopFlag, ht.ae]
      exact h.stopFlag
    · change .clock t.clock ∈ w'.log
      rw [ht.clock]
      exact hlog _ h.clock

/-- The end of `processTimeEvents`. -/
theorem leaves {i : ℤ} (h : Coupled arrivals domainFd s w)
    (hposition : s.position = .timeEvents now i) (hi : s.ae.times.usedTimeEvents ≤ i) :
    Follows arrivals domainFd s .loopTest w := by
  have hstep : s.serverStep ⟨false, [], 0⟩ = some (s.goto .loopTest) := by
    rw [Session.serverStep]
    simp only [hposition]
    rw [if_neg (not_lt.mpr hi)]
  exact h.follows hstep

/-- The check of the stop flag is not due. -/
theorem passes (h : Coupled arrivals domainFd s w) (hposition : s.position = .timeEvents now 0)
    (hgoing : s.ae.stopped = false)
    (hdue : ¬ (w.ae.times.timeEventList.cell 0).whenMs ≤ now) :
    Follows arrivals domainFd s .loopTest w := by
  have hused : s.ae.times.usedTimeEvents = 1 := by
    rw [h.ae]
    exact (h.tables hgoing).2
  have hstep : s.serverStep ⟨false, [], 0⟩ = some (s.goto (.timeEvents now 1)) := by
    rw [Session.serverStep]
    simp only [hposition]
    rw [if_pos (by rw [hused]; exact Int.one_pos), if_neg (by rw [h.ae]; exact hdue)]
    rfl
  obtain ⟨hpass, hpassed⟩ := h.goto hstep
  have hposition' : (s.goto (.timeEvents now 1)).position = .timeEvents now 1 := rfl
  obtain ⟨t, hleave, ht⟩ := hpassed.leaves hposition' hused.le
  exact ⟨t, hpass.trans hleave, ht⟩

/-- `checkStopFlag` is called. -/
theorem reaches_checkStopFlag (h : Coupled arrivals domainFd s w)
    (hposition : s.position = .timeEvents now 0) (hgoing : s.ae.stopped = false)
    (hdue : (w.ae.times.timeEventList.cell 0).whenMs ≤ now) :
    System.Reaches Session.next s (s.goto (.checkStopFlag now 0)) := by
  have hused : s.ae.times.usedTimeEvents = 1 := by
    rw [h.ae]
    exact (h.tables hgoing).2
  have hstep : s.serverStep ⟨false, [], 0⟩ = some (s.goto (.checkStopFlag now 0)) := by
    rw [Session.serverStep]
    simp only [hposition]
    rw [if_pos (by rw [hused]; exact Int.one_pos), if_pos (by rw [h.ae]; exact hdue)]
  exact (h.goto hstep).1

/-- `checkStopFlag` finds the flag not set. -/
theorem goesOn (h : Coupled arrivals domainFd s w) (hposition : s.position = .timeEvents now 0)
    (hgoing : s.ae.stopped = false) (hdue : (w.ae.times.timeEventList.cell 0).whenMs ≤ now)
    (hae : w'.ae = { w.ae with times := w.ae.times.writeBack 0 now defaultCheckIntervalMs })
    (hlog : ∀ r ∈ w.log, r ∈ w'.log) (hcalls : recvCalls w'.log = recvCalls w.log) :
    Follows arrivals domainFd s .loopTest w' := by
  have hflag : s.stopFlag = false := h.stopFlag.trans hgoing
  have hcheck : Session.next (s.goto (.checkStopFlag now 0)) (.server ⟨false, [], 0⟩) =
      some { s with
        ae := { s.ae with times := s.ae.times.writeBack 0 now defaultCheckIntervalMs }
        position := .timeEvents now 1 } := by
    have hnot : ¬ (s.goto (.checkStopFlag now 0)).stopFlag = true :=
      Bool.eq_false_iff.mp hflag
    exact congrArg some (if_neg hnot)
  have hreaches := (h.reaches_checkStopFlag hposition hgoing hdue).trans (.of_next hcheck)
  have hcoupled : Coupled arrivals domainFd
      { s with
        ae := { s.ae with times := s.ae.times.writeBack 0 now defaultCheckIntervalMs }
        position := .timeEvents now 1 } w' :=
    { regular := regular_of_reaches h.regular hreaches
      domainFd_eq := h.domainFd_eq
      ae := by rw [hae, h.ae]
      wired := by
        intro _
        obtain ⟨hproc, hprocExp, htimeProc, hbounds⟩ := h.wired hgoing
        refine ⟨hproc, hprocExp, ?_, hbounds⟩
        change ((s.ae.times.reschedule 0 _).timeEventList.cell 0).proc = stopProc
        rw [TimeTable.reschedule, Buffer.cell_write, if_pos rfl]
        exact htimeProc
      queue := h.queue
      readable := h.readable
      stopFlag := h.stopFlag
      clock := hlog _ h.clock
      received := by rw [receivedBy, hcalls]; exact h.received }
  have hused : s.ae.times.usedTimeEvents ≤ 1 := by
    rw [h.ae]
    exact (h.tables hgoing).2.le
  have hposition' : ({ s with
      ae := { s.ae with times := s.ae.times.writeBack 0 now defaultCheckIntervalMs }
      position := .timeEvents now 1 } : Session).position = .timeEvents now 1 := rfl
  obtain ⟨t, hleave, ht⟩ := hcoupled.leaves hposition' hused
  exact ⟨t, hreaches.trans hleave, ht⟩

/-- `checkStopFlag` finds the flag set. -/
theorem stops (h : Coupled arrivals domainFd s w) (hposition : s.position = .timeEvents now 0)
    (hgoing : s.ae.stopped = false) (hdue : (w.ae.times.timeEventList.cell 0).whenMs ≤ now)
    (hae : w'.ae = { w.ae with stopped := true, times := w.ae.times.writeBack 0 now 0 })
    (hlog : ∀ r ∈ w.log, r ∈ w'.log) (hcalls : recvCalls w'.log = recvCalls w.log) :
    Follows arrivals domainFd s .loopTest w' := by
  have hset : Session.next (s.goto (.checkStopFlag now 0)) .setStopFlag =
      some { s with
        position := .checkStopFlag now 0
        stopFlag := true
        sentBeforeStop := if s.stopFlag then s.sentBeforeStop else s.sent } := rfl
  obtain ⟨t, hcheck, hstopFlag, ht⟩ : ∃ t, Session.next
      { s with
        position := .checkStopFlag now 0
        stopFlag := true
        sentBeforeStop := if s.stopFlag then s.sentBeforeStop else s.sent }
      (.server ⟨false, [], 0⟩) = some t ∧ t.stopFlag = true ∧
      t.ae = { s.ae with stopped := true, times := s.ae.times.writeBack 0 now 0 } ∧
      t.position = .timeEvents now 0 ∧ t.domainFd = s.domainFd ∧ t.queue = s.queue ∧
      t.readable = s.readable ∧ t.clock = s.clock ∧ t.received = s.received :=
    ⟨_, congrArg some (if_pos rfl), rfl, rfl, rfl, rfl, rfl, rfl, rfl,
      (Session.received_writeMessage ..).trans (List.append_nil _)⟩
  obtain ⟨ht, hposition', hdomainFd, hqueue, hreadable, hclock, hreceived⟩ := ht
  have hreaches := ((h.reaches_checkStopFlag hposition hgoing hdue).trans (.of_next hset)).trans
    (.of_next hcheck)
  have hstopped : t.ae.stopped = true := by rw [ht]
  have hcoupled : Coupled arrivals domainFd t w' :=
    { regular := regular_of_reaches h.regular hreaches
      domainFd_eq := hdomainFd.trans h.domainFd_eq
      ae := by rw [ht, hae, h.ae]
      wired := by
        intro hgoing'
        rw [hstopped] at hgoing'
        cases hgoing'
      queue := hqueue.trans h.queue
      readable := hreadable.trans h.readable
      stopFlag := hstopFlag.trans hstopped.symm
      clock := by rw [hclock]; exact hlog _ h.clock
      received := by rw [receivedBy, hcalls, hreceived]; exact h.received }
  have hused : t.ae.times.usedTimeEvents = 0 := by
    rw [hcoupled.regular.ticking.used, if_pos hstopped]
  obtain ⟨u, hleave, hu⟩ := hcoupled.leaves hposition' hused.le
  exact ⟨u, hreaches.trans hleave, hu⟩

/-- `routine` returns. -/
theorem returns (h : Coupled arrivals domainFd s w) (hposition : s.position = .loopTest)
    (htest : w.ae.loopTest = false) : Follows arrivals domainFd s .returned w := by
  have hstep : s.serverStep ⟨false, [], 0⟩ = some (s.goto .returned) := by
    rw [Session.serverStep]
    simp only [hposition]
    rw [if_neg (by rw [h.ae, htest]; exact Bool.false_ne_true)]
  exact h.follows hstep

/-! ### One iteration of the loop -/

variable {env : Env κ}

theorem nearestTimeEvent_eq (h : Coupled arrivals domainFd s w) (hgoing : s.ae.stopped = false) :
    w.nearestTimeEvent env =
      (w.ae.msLeft (env.clock w), w.record (.clock (env.clock w))) := by
  have hnearest : w.ae.times.nearestSlot w.ae.times.usedTimeEvents.toNat = 0 := by
    rw [(h.tables hgoing).2]
    rfl
  unfold World.nearestTimeEvent
  rw [if_pos hnearest.ge]
  rfl

/-- The loop reads the clock after `epoll_wait`. -/
theorem readsClock_of_follows (henv : ServerEnv env domainFd)
    (h : Follows arrivals domainFd s .readingClock w) :
    Follows arrivals domainFd s (.timeEvents (env.clock w) 0)
      (w.record (.clock (env.clock w))) := by
  obtain ⟨t, hreaches, hposition, hcoupled⟩ := h
  have hle := henv.forward w t.clock hcoupled.clock
  obtain ⟨u, hread, hu⟩ := (hcoupled.record (r := .clock (env.clock w)) rfl).readsClock hposition
    hle List.mem_cons_self
  exact ⟨u, hreaches.trans hread, hu⟩

variable [EpollKernel κ]

/-- No descriptor is listed as ready. -/
theorem processReadyFds_eq (h : Coupled arrivals domainFd s w) (hgoing : s.ae.stopped = false)
    (fuel : ℕ) : processReadyFds env fuel w = .done ⟨0, 0, w⟩ := by
  refine whileLoop_of_not_guard ?_ fuel
  change decide (0 < w.ae.fds.numReadyFds) = false
  rw [(h.tables hgoing).1]
  rfl

/-- An event of the socket. -/
theorem dispatchEntry (henv : ServerEnv env domainFd) (h : Coupled arrivals domainFd s w)
    (hgoing : s.ae.stopped = false) {latest : Option ℤ} (hposition : s.position = .epollWait latest)
    {ee : EpollEvent} (hfd : ee.fd = domainFd) (hout : ee.events &&& epollOut = 0)
    (later : List EpollEvent) :
    ∃ w', w.dispatchEntry env later ee = .done w' ∧ w'.ae = w.ae ∧
      Follows arrivals domainFd s .readingClock w' := by
  have hwired := h.wired hgoing
  rw [h.ae] at hwired
  subst hfd
  have hnotExp : ¬ (ee.otherEvents &&& (epollHup ||| epollErr) ≠ 0 ∧
      (w.ae.fds.fdEventList ee.fd).procExp ≠ null) := fun hexp ↦ hexp.2 hwired.procExp
  unfold World.dispatchEntry
  simp only
  rw [if_neg hnotExp]
  by_cases hin : ee.events &&& epollIn = 0
  · have hnone : ee.aeEvents = Mask.none := by
      simp only [EpollEvent.aeEvents, hin, hout, ne_eq, not_true_eq_false, if_false]
    rw [if_neg (not_not.mpr hnone)]
    exact ⟨w, rfl, rfl, h.interrupted hposition⟩
  · have hread : ee.aeEvents = Mask.readable := by
      simp only [EpollEvent.aeEvents, ne_eq, hin, hout, not_true_eq_false, not_false_eq_true,
        if_true, if_false]
      rfl
    have hentry :
        (Invocation.proc ee.fd ee.aeEvents (w.ae.fds.fdEventList ee.fd)).entry ≠ null := by
      change (w.ae.fds.fdEventList ee.fd).proc ≠ null
      rw [hwired.proc]
      decide
    have hsettle : w.ae.fds.settleFired ee.fd Mask.readable Mask.none = w.ae.fds := by
      have hsettled := h.regular.ticking.settleFired
      rwa [h.ae, h.domainFd_eq] at hsettled
    rw [if_pos (by rw [hread]; decide), World.invoke_of_ne_null hentry]
    simp only [World.callback, henv.recv _ ee.fd Mask.readable _ hwired.proc, World.runCalls, hread,
      World.ae_record, hsettle]
    refine ⟨_, rfl, rfl, h.receives hposition rfl ?_ rfl⟩
    intro r hr
    exact List.mem_cons_of_mem _ (List.mem_cons_of_mem _ hr)

/-- `processFdEvents`, and the reading of the clock behind it. -/
theorem processFdEvents (henv : ServerEnv env domainFd) (h : Coupled arrivals domainFd s w)
    (hgoing : s.ae.stopped = false) {ms : ℤ}
    (hposition : s.position = .epollWait (some (s.clock + ms))) {log : List Record}
    (hlog : w.log = .clock s.clock :: log) :
    ∃ n w', w.processFdEvents env ms = .done (n, w') ∧ w'.ae = w.ae ∧
      Follows arrivals domainFd s (.timeEvents (env.clock w') 0)
        (w'.record (.clock (env.clock w'))) := by
  have hrecord : Coupled arrivals domainFd s (w.record (.waited ms (env.epollWait w ms))) :=
    h.record rfl
  unfold World.processFdEvents
  cases hfired : env.epollWait w ms with
  | none =>
    rw [hfired] at hrecord
    exact ⟨-1, _, rfl, rfl, readsClock_of_follows henv (hrecord.interrupted hposition)⟩
  | some batch =>
    rw [hfired] at hrecord
    rcases henv.fired w ms batch hfired with rfl | ⟨ee, rfl, hfd, hout⟩
    · refine ⟨0, _, rfl, rfl, ?_⟩
      have hle := henv.forward _ s.clock hrecord.clock
      have hms := henv.timedOut (w.record (.waited ms (some []))) ms s.clock log (by
        rw [World.log_record, hlog])
      exact Coupled.timesOut (hrecord.record rfl) hposition hle hms List.mem_cons_self
    · obtain ⟨w', hdone, hae, hfollows⟩ := hrecord.dispatchEntry henv hgoing hposition hfd hout []
      refine ⟨1, w', ?_, hae, readsClock_of_follows henv hfollows⟩
      simp only [World.dispatchBatch, hdone, Outcome.andThen_done, Outcome.map,
        List.length_singleton, Nat.cast_one]

/-- A time event's callback that returns to the loop, when it is known what it does. -/
theorem resumed_of_react {x : TimeLoop κ} {calls : List Call} {result : Mask}
    (hreact : env.react x.called (.timeProc x.event) = ⟨calls, result⟩) :
    x.resumed env =
      { x with
        processed := x.processed + 1
        i := if result ≠ 0 then x.i + 1 else x.i
        world := ((x.called.runCalls env calls).record (.returned (.timeProc x.event) (.timer x.i)
          result (x.called.runCalls env calls).ae)).setTimes
            ((x.called.runCalls env calls).ae.times.writeBack x.i x.now result) } := by
  have hreturned : x.returned env = ((x.called.runCalls env calls).record
      (.returned (.timeProc x.event) (.timer x.i) result (x.called.runCalls env calls).ae),
        result) := by
    have hreact' : env.react (x.reading.record (.called (.timeProc x.event)))
        (.timeProc x.event) = ⟨calls, result⟩ := hreact
    unfold TimeLoop.returned World.callback
    simp only [hreact']
    rfl
  rw [TimeLoop.resumed, hreturned]
  rfl

/-- `processTimeEvents`, behind its reading of the clock. -/
theorem processTimeEvents (henv : ServerEnv env domainFd) (h : Coupled arrivals domainFd s w)
    (hgoing : s.ae.stopped = false) (hposition : s.position = .timeEvents now 0) (fuel : ℕ) :
    ∃ x, whileLoop timeGuard (timeBody env) (fuel + 1) ⟨now, 0, 0, w⟩ = .done x ∧
      Follows arrivals domainFd s .loopTest x.world := by
  have hwired := h.wired hgoing
  rw [h.ae] at hwired
  have hused := (h.tables hgoing).2
  obtain ⟨x, hx⟩ : ∃ x : TimeLoop κ, x = ⟨now, 0, 0, w⟩ := ⟨_, rfl⟩
  have hguard : timeGuard x = true := by
    rw [hx]
    change decide (0 < w.ae.times.usedTimeEvents) = true
    rw [hused]
    rfl
  have hreading : x.reading = w := by
    rw [hx, TimeLoop.reading, TimeTable.touchSlot, Buffer.touch_of_inBounds hwired.inBounds]
    rfl
  have hevent : x.event = w.ae.times.timeEventList.cell 0 := by rw [hx]; rfl
  rw [← hx, whileLoop_succ hguard]
  by_cases hdue : (w.ae.times.timeEventList.cell 0).whenMs ≤ now
  · have hproc : x.event.proc = stopProc := by rw [hevent]; exact hwired.timeProc
    have hfires : x.Fires := ⟨by rw [hevent, hx]; exact hdue, by rw [hproc]; decide⟩
    rw [timeBody_of_fires hfires, Outcome.andThen_done]
    have hcalled : x.called = w.record (.called (.timeProc x.event)) := by
      rw [TimeLoop.called, hreading]
    have hmem : ∀ r r' : Record, ∀ r'' ∈ w.log, r'' ∈ r :: r' :: w.log :=
      fun r r' r'' hr ↦ List.mem_cons_of_mem r (List.mem_cons_of_mem r' hr)
    rcases henv.check x.called x.event hproc with hreact | hreact
    · rw [resumed_of_react hreact, hcalled, hx]
      refine ⟨_, whileLoop_of_not_guard ?_ fuel,
        h.stops hposition hgoing hdue rfl (hmem _ _) rfl⟩
      change decide (0 < w.ae.times.usedTimeEvents - 1) = false
      rw [hused]
      rfl
    · rw [resumed_of_react hreact, hcalled, hx]
      refine ⟨_, whileLoop_of_not_guard ?_ fuel,
        h.goesOn hposition hgoing hdue rfl (hmem _ _) rfl⟩
      change decide (1 < w.ae.times.usedTimeEvents) = false
      rw [hused]
      rfl
  · have hpass : timeBody env x = .done { x with i := x.i + 1, world := w } := by
      rw [timeBody, hreading, if_neg (by rw [hevent, hx]; exact hdue)]
    rw [hpass, Outcome.andThen_done]
    refine ⟨_, whileLoop_of_not_guard ?_ fuel, h.passes hposition hgoing hdue⟩
    rw [hx]
    change decide ((0 : ℤ) + 1 < w.ae.times.usedTimeEvents) = false
    rw [hused]
    rfl

/-- One iteration. -/
theorem loopBody (henv : ServerEnv env domainFd) (h : Coupled arrivals domainFd s w)
    (hgoing : s.ae.stopped = false) (hposition : s.position = .loopTest) (fuel : ℕ) :
    ∃ w', loopBody env (fuel + 1) w = .done w' ∧ Follows arrivals domainFd s .loopTest w' := by
  obtain ⟨t, henter, hwaiting, hclock, hgoing', ht⟩ :=
    h.enters hposition hgoing (henv.forward w s.clock h.clock)
  rw [← hclock] at hwaiting
  obtain ⟨n, w₁, hfds, hae, u, hwait, hposition', hu⟩ :=
    ht.processFdEvents henv hgoing' hwaiting (by rw [hclock]; rfl)
  rw [hclock] at hfds
  have hgoing'' : u.ae.stopped = false := by
    rw [hu.ae, World.ae_record, hae, ← ht.ae]
    exact hgoing'
  obtain ⟨x, htimes, hlast⟩ := hu.processTimeEvents henv hgoing'' hposition' fuel
  have hfollows : Follows arrivals domainFd s .loopTest x.world := by
    obtain ⟨v, hchecked, hv⟩ := hlast
    exact ⟨v, (henter.trans hwait).trans hchecked, hv⟩
  refine ⟨x.world, ?_, hfollows⟩
  unfold Nebula.Async.loopBody
  rw [h.processReadyFds_eq hgoing]
  simp only [Outcome.map, Outcome.andThen_done, h.nearestTimeEvent_eq hgoing]
  change (((w.record (.clock (env.clock w))).processFdEvents env
    (w.ae.waitMs (toInt32 (w.ae.msLeft (env.clock w))))).map Prod.snd).andThen _ = _
  rw [hfds]
  change (whileLoop timeGuard (timeBody env) (fuel + 1) ⟨_, 0, 0, _⟩).map TimeLoop.world = _
  rw [htimes]
  rfl

/-- Every run of the loop. -/
theorem whileLoop (henv : ServerEnv env domainFd) (h : Coupled arrivals domainFd s w)
    (hposition : s.position = .loopTest) (fuel rounds : ℕ) :
    ∃ w' t, System.Reaches Session.next s t ∧ Coupled arrivals domainFd t w' ∧
      (whileLoop (fun w ↦ w.ae.loopTest) (Nebula.Async.loopBody env (fuel + 1)) rounds w =
            .done w' ∧ t.position = .returned ∨
        whileLoop (fun w ↦ w.ae.loopTest) (Nebula.Async.loopBody env (fuel + 1)) rounds w =
            .running w' ∧ t.position = .loopTest) := by
  induction rounds generalizing s w with
  | zero =>
    cases htest : w.ae.loopTest with
    | true => exact ⟨w, s, .refl _ s, h, Or.inr ⟨whileLoop_zero htest, hposition⟩⟩
    | false =>
      obtain ⟨t, hreaches, ht, hcoupled⟩ := h.returns hposition htest
      exact ⟨w, t, hreaches, hcoupled, Or.inl ⟨whileLoop_of_not_guard (s := w) htest 0, ht⟩⟩
  | succ rounds ih =>
    cases htest : w.ae.loopTest with
    | true =>
      have hgoing : s.ae.stopped = false := by
        rw [← h.ae, h.loopTest] at htest
        exact Bool.not_inj htest
      obtain ⟨w₁, hbody, t, hreaches, hposition', ht⟩ := h.loopBody henv hgoing hposition fuel
      obtain ⟨w', u, hreaches', hu, hend⟩ := ih ht hposition'
      refine ⟨w', u, hreaches.trans hreaches', hu, ?_⟩
      rw [whileLoop_succ (s := w) htest, hbody, Outcome.andThen_done]
      exact hend
    | false =>
      obtain ⟨t, hreaches, ht, hcoupled⟩ := h.returns hposition htest
      exact ⟨w, t, hreaches, hcoupled, Or.inl ⟨whileLoop_of_not_guard (s := w) htest _, ht⟩⟩

end Coupled

/-! ### From the start -/

/-- The start-up calls wire the callbacks. -/
theorem wired_register {fdTableSize : ℤ} {aroundFds : ℤ → ℤ} {aroundTimes : ℤ → TimeEventInfo}
    {kernel : InterestSet} {domainFd now : ℤ} {ae : AsyncEvent}
    (h : register (.initialized fdTableSize 32 aroundFds aroundTimes) kernel domainFd now =
      some ae) : Wired ae domainFd := by
  unfold register at h
  rcases FdTable.addFdEvent_cases (AsyncEvent.initialized fdTableSize 32 aroundFds aroundTimes).fds
      kernel domainFd Mask.readable recvProc server null null with
    ⟨kernel', hadd, -⟩ | ⟨-, kernel', -, hadd⟩
  · rw [hadd] at h
    cases h
  · rw [hadd] at h
    cases h
    have hrow := Function.update_self (f := fun _ : ℤ ↦ FdEventInfo.zero) domainFd
    have hsize : (0 : ℤ) < 32 := by decide
    exact ⟨congrArg FdEventInfo.proc (hrow _), congrArg FdEventInfo.procExp (hrow _), rfl,
      le_refl (0 : ℤ), hsize⟩

/-- The session of `routine` in front of the event loop. -/
theorem coupled_started {fdTableSize : ℤ} {aroundFds : ℤ → ℤ} {aroundTimes : ℤ → TimeEventInfo}
    {kernel : InterestSet} {domainFd now : ℤ} {ae : AsyncEvent}
    (hregister : register (.initialized fdTableSize 32 aroundFds aroundTimes) kernel domainFd now =
      some ae) (fileHandle : FileHandle) (arrivals : ℕ → List Datagram) (kernel' : κ) :
    Follows arrivals domainFd (Session.started ae fileHandle domainFd now) .loopTest
      ⟨ae, kernel', [.clock now]⟩ := by
  obtain ⟨hgoing, -⟩ := Session.register_spec rfl hregister
  have hstep : Session.next (Session.started ae fileHandle domainFd now) (.server ⟨false, [], 0⟩) =
      some { (Session.started ae fileHandle domainFd now).writeMessage false [] 0 with
        readyToServe := true
        position := .loopTest } := rfl
  have hreaches : System.Reaches Session.next (Session.started ae fileHandle domainFd now) _ :=
    .of_next hstep
  exact ⟨_, hreaches, rfl,
    { regular := regular_of_reaches (Session.regular_started hregister fileHandle) hreaches
      domainFd_eq := rfl
      ae := rfl
      wired := fun _ ↦ wired_register hregister
      queue := rfl
      readable := rfl
      stopFlag := hgoing.symm
      clock := List.mem_cons_self
      received := rfl }⟩

/-- For every log server whose start-up has succeeded, in every environment that does what the
callbacks, `epoll_wait` and the clock do, and whatever the calls of `recvDomainSocketMessage` take
out of the socket: the event loop never crashes, and every run of it is a run of the session, which
has the same tables, has set the stop flag if the loop is stopped, has received what the calls have
taken out of the socket, and has returned if the loop has. -/
theorem eventLoop_session [EpollKernel κ] (fdTableSize : ℤ) (aroundFds : ℤ → ℤ)
    (aroundTimes : ℤ → TimeEventInfo) (kernel : InterestSet) (domainFd now : ℤ) (ae : AsyncEvent)
    (hregister : register (.initialized fdTableSize 32 aroundFds aroundTimes) kernel domainFd now =
      some ae)
    (fileHandle : FileHandle) (env : Env κ) (henv : ServerEnv env domainFd)
    (arrivals : ℕ → List Datagram) (kernel' : κ) (rounds fuel : ℕ) :
    ∃ actions t w, System.run Session.next (Session.started ae fileHandle domainFd now) actions =
        some t ∧
      t.ae = w.ae ∧ t.stopFlag = w.ae.stopped ∧ t.received = receivedBy arrivals w.log ∧
      (eventLoop env rounds (fuel + 1) ⟨ae, kernel', [.clock now]⟩ = .done w ∧
          t.position = .returned ∨
        eventLoop env rounds (fuel + 1) ⟨ae, kernel', [.clock now]⟩ = .running w ∧
          t.position = .loopTest) := by
  obtain ⟨s, hstart, hposition, hs⟩ := coupled_started hregister fileHandle arrivals kernel'
  obtain ⟨w, t, hloop, ht, hend⟩ := hs.whileLoop henv hposition fuel rounds
  obtain ⟨actions, hrun⟩ := hstart.trans hloop
  refine ⟨actions, t, w, hrun, ht.ae, ?_, ht.received, hend⟩
  rw [ht.stopFlag, ht.ae]

/-- The time, when it passes only in `epoll_wait`. -/
def timeOf : List Record → ℤ
  | [] => 0
  | .clock now :: log => max now (timeOf log)
  | .waited ms _ :: log => timeOf log + ms.toNat
  | _ :: log => timeOf log

/-- The socket is reported once, and the stop flag is set. -/
def stoppingEnv : Env InterestSet where
  react _ invocation :=
    match invocation with
    | .timeProc _ => ⟨[.stop], 0⟩
    | _ => ⟨[], Mask.none⟩
  epollWait w _ := if recvCalls w.log = 0 then some [⟨epollIn, 3⟩] else some []
  clock w := timeOf w.log

theorem le_timeOf {now : ℤ} (log : List Record) (h : .clock now ∈ log) : now ≤ timeOf log := by
  induction log with
  | nil => cases h
  | cons r log ih =>
    rcases List.mem_cons.mp h with rfl | hmem
    · exact le_max_left now (timeOf log)
    · have hle := ih hmem
      cases r with
      | clock now' => exact hle.trans (le_max_right now' (timeOf log))
      | waited ms fired => exact hle.trans (Int.le_add_of_nonneg_right (Int.natCast_nonneg _))
      | _ => exact hle

theorem serverEnv_stoppingEnv : ServerEnv stoppingEnv 3 where
  recv _ _ _ _ _ := rfl
  check _ _ _ := Or.inl rfl
  fired w ms batch h := by
    change (if recvCalls w.log = 0 then some [⟨epollIn, 3⟩] else some []) = some batch at h
    split_ifs at h <;> cases h
    · exact Or.inr ⟨_, rfl, rfl, by decide⟩
    · exact Or.inl rfl
  forward w now h := le_timeOf w.log h
  timedOut w ms now log h := by
    change now + ms ≤ timeOf w.log
    rw [h]
    exact add_le_add (le_max_left now (timeOf log)) (Int.self_le_toNat ms)

/-- The event loop of the session `ready`. -/
def served : World InterestSet :=
  ⟨Session.registered, ⟨fun _ ↦ none, fun _ ↦ false⟩, [.clock 0]⟩

/-- The message is received, and the loop returns after a second. -/
theorem eventLoop_session_stoppingEnv :
    ∃ t, System.Reaches Session.next Session.ready t ∧ t.position = .returned ∧
      t.stopFlag = true ∧ t.received = [[0x6d]] := by
  obtain ⟨actions, t, w, hrun, -, hflag, hreceived, hend⟩ := eventLoop_session 8 (fun _ ↦ 0)
    (fun _ ↦ ⟨0, 0, null, 0⟩) ⟨fun _ ↦ none, fun _ ↦ false⟩ 3 0 Session.registered
    (Option.some_get _).symm Session.logFile.1 stoppingEnv serverEnv_stoppingEnv
    (fun _ ↦ [Session.message]) ⟨fun _ ↦ none, fun _ ↦ false⟩ 3 1
  have hcalls : recvCalls (eventLoop stoppingEnv 3 2 served).state.log = 1 := by decide +kernel
  have hstopped : (eventLoop stoppingEnv 3 2 served).state.ae.stopped = true := by decide +kernel
  have hended : (eventLoop stoppingEnv 3 2 served).Ended := trivial
  rcases hend with ⟨hdone, hposition⟩ | ⟨hrunning, -⟩
  · rw [served, hdone, Outcome.state_done] at hcalls hstopped
    refine ⟨t, ⟨actions, hrun⟩, hposition, hflag.trans hstopped, ?_⟩
    rw [hreceived, receivedBy, hcalls]
    rfl
  · rw [served, hrunning] at hended
    exact absurd hended id

end Nebula.Logging
