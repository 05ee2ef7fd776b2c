import Nebula.AsyncIo.Atomic

/-!
What a process has from `AsyncIo` over time. A `Ledger` says which descriptors the process has, and
with which flags: those it has asked for in the call that returned the descriptor, and those it has
set since. There is no function that takes a flag back.

`run_kept` says that in every sequence of calls, whichever of them fail, the open descriptors are
those of the ledger, with exactly its flags, and that the functions that ask for a flag answer
accordingly. That a new socket is inherited by programs that are executed, whatever has been done
with it before it is returned, is `keeps_constructor`.
-/

set_option autoImplicit false
set_option relaxedAutoImplicit false

namespace Nebula.AsyncIo

open Nebula.Library Attempt

namespace System

/-- `isNonblock_3state`. -/
def isNonblock3state (sys : System) (fd : ℤ) (k : Kernel) : ℤ × Kernel :=
  match sys.fcntlGetfl fd k with
  | (none, k) => (-1, k)
  | (some flags, k) => (if flags &&& oNonblock ≠ 0 then 1 else 0, k)

/-- `isCloseOnExec_3state`. -/
def isCloseOnExec3state (sys : System) (fd : ℤ) (k : Kernel) : ℤ × Kernel :=
  match sys.fcntlGetfd fd k with
  | (none, k) => (-1, k)
  | (some flags, k) => (if flags &&& fdCloexec ≠ 0 then 1 else 0, k)

end System

/-! ### The ledger -/

/-- The flags of a descriptor that have been asked for. -/
structure Flags where
  nonblock : Bool
  closeOnExec : Bool

/-- The descriptor has these flags and no others. -/
structure Flags.Exact (d : Descriptor) (f : Flags) : Prop where
  nonblocking : d.Nonblocking ↔ f.nonblock = true
  closeOnExec : d.CloseOnExec ↔ f.closeOnExec = true

abbrev Ledger := ℤ → Option Flags

namespace Ledger

/-- The descriptors that a call has returned. -/
def enter (l : Ledger) (opened : Option (List ℤ)) (f : Flags) : Ledger := fun fd ↦
  if fd ∈ opened.getD [] then some f else l fd

/-- A flag that a call has set. -/
def note (l : Ledger) (ok : Bool) (fd : ℤ) (change : Flags → Flags) : Ledger := fun i ↦
  if ok = true ∧ i = fd then (l i).map change else l i

def drop (l : Ledger) (fd : ℤ) : Ledger := Function.update l fd none

/-- What is open at first, with the flags it has. -/
def ofKernel (k : Kernel) : Ledger := fun fd ↦
  (k.descriptors fd).map fun d ↦ ⟨decide d.Nonblocking, decide d.CloseOnExec⟩

/-- The open descriptors are those of the ledger, with its flags. -/
def Kept (l : Ledger) (k : Kernel) : Prop := ∀ fd, Option.Rel Flags.Exact (k.descriptors fd) (l fd)

variable {l : Ledger} {k k' : Kernel} {f : Flags}

theorem kept_ofKernel (k : Kernel) : (ofKernel k).Kept k := by
  intro fd
  unfold ofKernel
  cases k.descriptors fd with
  | none => exact .none
  | some d => exact .some ⟨decide_eq_true_iff.symm, decide_eq_true_iff.symm⟩

theorem Kept.congr (h : l.Kept k) (hsame : k'.descriptors = k.descriptors) : l.Kept k' := by
  unfold Kept
  rw [hsame]
  exact h

/-- A function that opens descriptors, or fails. -/
theorem Kept.enter (h : l.Kept k) {opened : Option (List ℤ)} {Good : Descriptor → Prop}
    (hopened : AllOrNothing k opened k' Good) (hgood : ∀ d, Good d → f.Exact d) :
    (l.enter opened f).Kept k' := by
  cases opened with
  | none =>
    have hsame := h.congr (hopened.nothing rfl)
    intro fd
    exact hsame fd
  | some fds =>
    have hnew := hopened.all fds rfl
    intro fd
    change Option.Rel _ _ (if fd ∈ fds then _ else _)
    split_ifs with hfd
    · obtain ⟨d, hd, hd'⟩ := hnew.opened fd hfd
      rw [hd]
      exact .some (hgood d hd')
    · rw [hnew.others fd hfd]
      exact h fd

/-- A function that sets a flag of an open descriptor, or fails. -/
theorem Kept.note (h : l.Kept k) {ok : Bool} {fd : ℤ} {effect : Descriptor → Descriptor}
    {change : Flags → Flags}
    (hset : ∀ i, k'.descriptors i =
      if ok = true ∧ i = fd then (k.descriptors i).map effect else k.descriptors i)
    (hexact : ∀ d f, f.Exact d → (change f).Exact (effect d)) : (l.note ok fd change).Kept k' := by
  intro i
  rw [hset i, Ledger.note]
  split_ifs
  · have hi := h i
    generalize k.descriptors i = before at hi ⊢
    generalize l i = asked at hi ⊢
    cases hi with
    | none => exact .none
    | some hf => exact .some (hexact _ _ hf)
  · exact h i

theorem Kept.drop (h : l.Kept k) (fd : ℤ) : (l.drop fd).Kept (k.close fd) := by
  intro i
  rw [Kernel.descriptors_close, Ledger.drop, Function.update_apply]
  split_ifs
  · exact .none
  · exact h i

end Ledger

/-! ### The functions that set a flag -/

namespace System

/-- A call that changes an open descriptor, or fails and leaves it as it was. -/
theorem descriptors_change (sys : System) (call : SysCall) (fd : ℤ)
    (effect : Descriptor → Option Descriptor) (k : Kernel) (i : ℤ) :
    (sys.change call fd effect k).2.descriptors i =
      if (sys.change call fd effect k).1 = true ∧ i = fd then
        (k.descriptors i).map fun d ↦ (effect d).getD d
      else k.descriptors i := by
  have hconfigures : Configures Kernel.descriptors {fd} (fun _ ↦ only fd fun d ↦ (effect d).getD d)
      (sys.change call fd effect) := configures_change call fd effect
  by_cases hi : i = fd
  · cases hok : (sys.change call fd effect k).1 with
    | true =>
      rw [if_pos ⟨rfl, hi⟩, hconfigures.applied k hok i, only, if_pos hi]
    | false =>
      rw [if_neg fun h ↦ Bool.false_ne_true h.1]
      unfold change at hok ⊢
      split at hok
      · split_ifs at hok ⊢
        rfl
      · rfl
  · rw [if_neg fun h ↦ hi h.2]
    exact hconfigures.frame k i hi

/-- Flags are read and written back, or one of the two calls fails. -/
theorem descriptors_reading (sys : System) (call : SysCall) (fd : ℤ)
    (read : Descriptor → BitVec 32) (write : BitVec 32 → SysCall)
    (effect : BitVec 32 → Descriptor → Descriptor) (k : Kernel) (i : ℤ) :
    let set := reading (sys.get call fd read) fun flags ↦
      sys.change (write flags) fd fun d ↦ some (effect flags d)
    (set k).2.descriptors i =
      if (set k).1 = true ∧ i = fd then (k.descriptors i).map fun d ↦ effect (read d) d
      else k.descriptors i := by
  intro set
  cases hd : k.descriptors fd with
  | none =>
    have hset : set k = (false, k.record call) := by
      change reading (sys.get call fd read) _ k = _
      unfold reading get
      rw [hd]
      split_ifs <;> rfl
    rw [hset]
    exact (if_neg fun h ↦ Bool.false_ne_true h.1).symm
  | some d =>
    have hset : set k = if sys.allows k call then
        sys.change (write (read d)) fd (fun d' ↦ some (effect (read d) d')) (k.record call)
        else (false, k.record call) := by
      change reading (sys.get call fd read) _ k = _
      unfold reading get
      rw [hd]
      split_ifs <;> rfl
    rw [hset]
    split_ifs with hallows hok hok
    · rw [descriptors_change, if_pos hok, Kernel.descriptors_record, hok.2, hd]
      rfl
    · rw [descriptors_change, if_neg hok]
      rfl
    · exact hok.1.elim
    · rfl

theorem descriptors_setNonblock (sys : System) (fd : ℤ) (k : Kernel) (i : ℤ) :
    (sys.setNonblock fd k).2.descriptors i =
      if (sys.setNonblock fd k).1 = true ∧ i = fd then
        (k.descriptors i).map Descriptor.withNonblock
      else k.descriptors i :=
  sys.descriptors_reading (.fcntlGetfl fd) fd Descriptor.statusFlags
    (fun flags ↦ .fcntlSetfl fd (flags ||| oNonblock))
    (fun flags d ↦ { d with statusFlags := flags ||| oNonblock }) k i

theorem descriptors_setCloseOnExec (sys : System) (fd : ℤ) (k : Kernel) (i : ℤ) :
    (sys.setCloseOnExec fd k).2.descriptors i =
      if (sys.setCloseOnExec fd k).1 = true ∧ i = fd then
        (k.descriptors i).map Descriptor.withCloseOnExec
      else k.descriptors i :=
  sys.descriptors_reading (.fcntlGetfd fd) fd Descriptor.descriptorFlags
    (fun flags ↦ .fcntlSetfd fd (flags ||| fdCloexec))
    (fun flags d ↦ { d with descriptorFlags := flags ||| fdCloexec }) k i

/-- What a function that asks for a flag answers, and what it leaves. -/
theorem isNonblock3state_eq (sys : System) (fd : ℤ) (k : Kernel) :
    sys.isNonblock3state fd k =
      (if sys.allows k (.fcntlGetfl fd) then
        (k.descriptors fd).elim (-1) fun d ↦ if d.Nonblocking then 1 else 0
      else -1, k.record (.fcntlGetfl fd)) := by
  unfold isNonblock3state fcntlGetfl get
  cases k.descriptors fd <;> split_ifs <;> rfl

theorem isCloseOnExec3state_eq (sys : System) (fd : ℤ) (k : Kernel) :
    sys.isCloseOnExec3state fd k =
      (if sys.allows k (.fcntlGetfd fd) then
        (k.descriptors fd).elim (-1) fun d ↦ if d.CloseOnExec then 1 else 0
      else -1, k.record (.fcntlGetfd fd)) := by
  unfold isCloseOnExec3state fcntlGetfd get
  cases k.descriptors fd <;> split_ifs <;> rfl

end System

/-! ### Sockets are inherited -/

/-- No descriptor outside a set is closed on exec. -/
def Kernel.InheritedOutside (fds : Set ℤ) (k : Kernel) : Prop :=
  ∀ fd d, k.descriptors fd = some d → d.CloseOnExec → fd ∈ fds

namespace System

variable {fds : Set ℤ} {k : Kernel}

theorem inherited_put (h : k.InheritedOutside fds) {fd : ℤ} {d : Descriptor}
    (hd : d.CloseOnExec → fd ∈ fds) : (k.put fd d).InheritedOutside fds := by
  intro i d' hopen hclosed
  rw [Kernel.descriptors_put] at hopen
  split_ifs at hopen with hi
  · cases hopen
    exact hi ▸ hd hclosed
  · exact h i d' hopen hclosed

theorem inherited_close (h : k.InheritedOutside fds) (fd : ℤ) :
    (k.close fd).InheritedOutside fds := by
  intro i d hopen hclosed
  rw [Kernel.descriptors_close] at hopen
  split_ifs at hopen
  exact h i d hopen hclosed

/-- A call that leaves the flags of the descriptor alone. -/
theorem keeps_change (sys : System) (call : SysCall) (fd : ℤ)
    {effect : Descriptor → Option Descriptor}
    (heffect : ∀ d d', effect d = some d' → d'.descriptorFlags = d.descriptorFlags) :
    Keeps (Kernel.InheritedOutside fds) (sys.change call fd effect) := by
  intro k hk
  unfold change
  split
  · next d' hd' =>
    obtain ⟨d, hopen, hchanged⟩ := Option.bind_eq_some_iff.mp hd'
    split_ifs
    · refine inherited_put (k := k.record call) hk fun hclosed ↦ hk fd d hopen ?_
      rwa [Descriptor.CloseOnExec, heffect d d' hchanged] at hclosed
    · exact hk
  · exact hk

theorem keeps_onSocket (sys : System) (call : SysCall) (fd : ℤ) (change : Socket → Socket) :
    Keeps (Kernel.InheritedOutside fds) (sys.change call fd (Descriptor.onSocket change)) := by
  refine sys.keeps_change call fd fun d d' h ↦ ?_
  obtain ⟨socket, _, rfl⟩ := Option.map_eq_some_iff.mp h
  rfl

theorem keeps_setReuseAddr (sys : System) (fd : ℤ) :
    Keeps (Kernel.InheritedOutside fds) (sys.setReuseAddr fd) :=
  sys.keeps_onSocket _ fd _

theorem keeps_bind (sys : System) (fd : ℤ) (addr : Address) :
    Keeps (Kernel.InheritedOutside fds) (sys.bind fd addr) := fun k hk ↦
  sys.keeps_onSocket _ fd _ k hk

theorem keeps_listen (sys : System) (fd : ℤ) (backlog : ℕ) :
    Keeps (Kernel.InheritedOutside fds) (sys.listen fd backlog) :=
  sys.keeps_onSocket _ fd _

theorem keeps_connect (sys : System) (fd : ℤ) (addr : Address) :
    Keeps (Kernel.InheritedOutside fds) (sys.connect fd addr) :=
  sys.keeps_onSocket _ fd _

theorem keeps_setNonblock (sys : System) (fd : ℤ) :
    Keeps (Kernel.InheritedOutside fds) (sys.setNonblock fd) :=
  Keeps.reading (fun _ hk ↦ hk) fun _ ↦ sys.keeps_change _ fd fun _ _ h ↦ by cases h; rfl

theorem keeps_callSocket (sys : System) (family : Family) (type : SocketType) :
    Keeps (Kernel.InheritedOutside fds) (sys.callSocket family type) := by
  intro k hk
  unfold callSocket
  cases sys.socket k family type with
  | none => exact hk
  | some fd =>
    refine inherited_put (k := k.record _) hk fun hclosed ↦ absurd hclosed ?_
    change ¬ (0 : BitVec 32) &&& fdCloexec ≠ 0
    decide

theorem keeps_orElse_close {fd : ℤ} {a : Attempt Kernel} {next : Kernel → Option ℤ × Kernel}
    (h : Keeps (Kernel.InheritedOutside fds) a)
    (hnext : Keeps (Kernel.InheritedOutside fds) next) :
    Keeps (Kernel.InheritedOutside fds) (a.orElse (fun k ↦ k.close fd) next) :=
  h.orElse (fun _ hk ↦ inherited_close hk fd) hnext

theorem keeps_return (fd : ℤ) :
    Keeps (Kernel.InheritedOutside fds) fun k : Kernel ↦ (some fd, k) := fun _ hk ↦ hk

theorem keeps_createAsyncServerSocket (sys : System) (bindAddr : SockaddrIn) (useTcp : Bool) :
    Keeps (Kernel.InheritedOutside fds) (sys.createAsyncServerSocket bindAddr useTcp) :=
  Keeps.acquire (sys.keeps_callSocket .inet (socketType useTcp)) fun fd ↦
    keeps_orElse_close ((sys.keeps_setNonblock fd).both (sys.keeps_setReuseAddr fd))
      (keeps_orElse_close (sys.keeps_bind fd (.inet bindAddr))
        (keeps_orElse_close ((sys.keeps_listen fd somaxconn).onlyIf useTcp) (keeps_return fd)))

theorem keeps_createAsyncClientSocket (sys : System) (servAddr : SockaddrIn) (useTcp : Bool) :
    Keeps (Kernel.InheritedOutside fds) (sys.createAsyncClientSocket servAddr useTcp) :=
  Keeps.acquire (sys.keeps_callSocket .inet (socketType useTcp)) fun fd ↦
    keeps_orElse_close ((sys.keeps_connect fd (.inet servAddr)).onlyIf useTcp)
      (keeps_orElse_close (sys.keeps_setNonblock fd) (keeps_return fd))

theorem keeps_createAsyncServerSocketAt (sys : System) (bindIp : Option (List UInt8))
    (bindPort : BitVec 32) (useTcp : Bool) :
    Keeps (Kernel.InheritedOutside fds) (sys.createAsyncServerSocketAt bindIp bindPort useTcp) := by
  intro k hk
  unfold createAsyncServerSocketAt
  split
  · exact sys.keeps_createAsyncServerSocket _ useTcp k hk
  · split
    · exact hk
    · exact sys.keeps_createAsyncServerSocket _ useTcp k hk

theorem keeps_createAsyncClientSocketAt (sys : System) (servIp : List UInt8)
    (servPort : BitVec 32) (useTcp : Bool) :
    Keeps (Kernel.InheritedOutside fds) (sys.createAsyncClientSocketAt servIp servPort useTcp) := by
  intro k hk
  unfold createAsyncClientSocketAt
  split
  · exact hk
  · exact sys.keeps_createAsyncClientSocket _ useTcp k hk

theorem keeps_createAsyncUnixServerSocket (sys : System) (fsPathname : List UInt8)
    (useTcp : Bool) :
    Keeps (Kernel.InheritedOutside fds) (sys.createAsyncUnixServerSocket fsPathname useTcp) := by
  intro k hk
  simp only [createAsyncUnixServerSocket]
  split_ifs
  · exact hk
  · refine Keeps.acquire (sys.keeps_callSocket .unix (socketType useTcp)) (fun fd ↦ ?_) k hk
    exact keeps_orElse_close (sys.keeps_setNonblock fd)
      (keeps_orElse_close (sys.keeps_bind fd _) (keeps_return fd))

theorem keeps_createAsyncUnixClientSocket (sys : System) (fsPathname : List UInt8)
    (useTcp : Bool) :
    Keeps (Kernel.InheritedOutside fds) (sys.createAsyncUnixClientSocket fsPathname useTcp) := by
  intro k hk
  simp only [createAsyncUnixClientSocket]
  split_ifs
  · exact hk
  · refine Keeps.acquire (sys.keeps_callSocket .unix (socketType useTcp)) (fun fd ↦ ?_) k hk
    exact keeps_orElse_close (sys.keeps_setNonblock fd)
      (keeps_orElse_close (sys.keeps_connect fd _) (keeps_return fd))

/-- None of the functions that open a socket sets `FD_CLOEXEC`. -/
theorem keeps_constructor (sys : System) (c : Constructor) :
    Keeps (Kernel.InheritedOutside fds) (c.run sys) := by
  cases c with
  | tcpServer bindIp bindPort => exact sys.keeps_createAsyncServerSocketAt bindIp bindPort true
  | tcpServerOn bindAddr => exact sys.keeps_createAsyncServerSocket bindAddr true
  | udpServer bindIp bindPort => exact sys.keeps_createAsyncServerSocketAt bindIp bindPort false
  | udpServerOn bindAddr => exact sys.keeps_createAsyncServerSocket bindAddr false
  | tcpClient servIp servPort => exact sys.keeps_createAsyncClientSocketAt servIp servPort true
  | tcpClientOn servAddr => exact sys.keeps_createAsyncClientSocket servAddr true
  | udpClient servIp servPort => exact sys.keeps_createAsyncClientSocketAt servIp servPort false
  | udpClientOn servAddr => exact sys.keeps_createAsyncClientSocket servAddr false
  | unixTcpServer fsPathname => exact sys.keeps_createAsyncUnixServerSocket fsPathname true
  | unixUdpServer fsPathname => exact sys.keeps_createAsyncUnixServerSocket fsPathname false
  | unixTcpClient fsPathname => exact sys.keeps_createAsyncUnixClientSocket fsPathname true
  | unixUdpClient fsPathname => exact sys.keeps_createAsyncUnixClientSocket fsPathname false

/-- A new socket is non-blocking, and inherited by programs that are executed. -/
theorem allOrNothing_constructor_exact (sys : System) (c : Constructor) (k : Kernel) :
    AllOrNothing k ((c.run sys k).1.map fun fd ↦ [fd]) (c.run sys k).2
      (Flags.Exact · ⟨true, false⟩) := by
  have hall := sys.allOrNothing_constructor c k
  refine ⟨hall.nothing, fun fds hfds ↦ ?_⟩
  have hnew := hall.all fds hfds
  refine ⟨hnew.nodup, hnew.free, fun fd hfd ↦ ?_, hnew.others⟩
  obtain ⟨d, hd, hnonblocking⟩ := hnew.opened fd hfd
  refine ⟨d, hd, iff_of_true hnonblocking rfl, iff_of_false ?_ Bool.false_ne_true⟩
  -- what was closed on exec before the call was open then
  have hinherited : k.InheritedOutside { i | (k.descriptors i).isSome } := fun i d' hopen _ ↦ by
    rw [Set.mem_ofPred_eq, hopen]
    rfl
  intro hclosed
  have hopen := sys.keeps_constructor c k hinherited fd d hd hclosed
  rw [Set.mem_ofPred_eq, (hnew.free fd hfd).2] at hopen
  exact Bool.false_ne_true hopen

end System

/-! ### Sequences of calls -/

/-- A call of one of the functions, or of `close`. -/
inductive Action where
  | constructor (c : Constructor)
  | pipe2 (pipefd : ℤ × ℤ) (flags : BitVec 32)
  | accept4 (tcpServerSockfd : ℤ) (client : ClientAddr) (flags : BitVec 32)
  | setNonblock (fd : ℤ)
  | setCloseOnExec (fd : ℤ)
  | setReuseAddr (fd : ℤ)
  | isNonblock3state (fd : ℤ)
  | isCloseOnExec3state (fd : ℤ)
  | close (fd : ℤ)

/-- The flags that are asked for with `AIO_NONBLOCK` and `AIO_CLOEXEC`. -/
def Flags.ofFlags (flags : BitVec 32) : Flags :=
  ⟨requested flags aioNonblock, requested flags aioCloexec⟩

/-- What a call makes of the ledger and the kernel. -/
def step (sys : System) (x : Ledger × Kernel) (action : Action) : Ledger × Kernel :=
  let (l, k) := x
  match action with
  | .constructor c =>
      let (fd, k) := c.run sys k
      (l.enter (fd.map fun fd ↦ [fd]) ⟨true, false⟩, k)
  | .pipe2 pipefd flags =>
      let result := sys.pipe2 pipefd flags k
      (l.enter (pipeOpened result) (.ofFlags flags), result.2.2)
  | .accept4 tcpServerSockfd client flags =>
      let (fd, _, k) := sys.accept4 tcpServerSockfd client flags k
      (l.enter (fd.map fun fd ↦ [fd]) (.ofFlags flags), k)
  | .setNonblock fd =>
      let (ok, k) := sys.setNonblock fd k
      (l.note ok fd fun r ↦ { r with nonblock := true }, k)
  | .setCloseOnExec fd =>
      let (ok, k) := sys.setCloseOnExec fd k
      (l.note ok fd fun r ↦ { r with closeOnExec := true }, k)
  | .setReuseAddr fd => (l, (sys.setReuseAddr fd k).2)
  | .isNonblock3state fd => (l, (sys.isNonblock3state fd k).2)
  | .isCloseOnExec3state fd => (l, (sys.isCloseOnExec3state fd k).2)
  | .close fd => (l.drop fd, k.close fd)

/-- A sequence of calls, from what is open at first. -/
def run (sys : System) (k : Kernel) (actions : List Action) : Ledger × Kernel :=
  actions.foldl (step sys) (.ofKernel k, k)

section Runs

variable {sys : System} {l : Ledger} {k : Kernel} {fd : ℤ} {f : Flags}

theorem requested_iff (flags bit : BitVec 32) :
    requested flags bit = true ↔ flags &&& bit ≠ 0 := decide_eq_true_iff

theorem exact_of_asRequested {flags : BitVec 32} {d : Descriptor} (h : d.AsRequested flags) :
    (Flags.ofFlags flags).Exact d :=
  ⟨h.nonblocking.trans (requested_iff ..).symm, h.closeOnExec.trans (requested_iff ..).symm⟩

/-- `SO_REUSEADDR` is not one of the flags. -/
theorem Ledger.Kept.setReuseAddr (h : l.Kept k) (fd : ℤ) : l.Kept (sys.setReuseAddr fd k).2 := by
  intro i
  have hi := h i
  change Option.Rel _ ((sys.change _ fd _ k).2.descriptors i) (l i)
  rw [System.descriptors_change]
  split_ifs
  · generalize k.descriptors i = before at hi ⊢
    generalize l i = asked at hi ⊢
    cases hi with
    | none => exact .none
    | @some d f hf =>
      obtain ⟨statusFlags, descriptorFlags, socket⟩ := d
      cases socket <;> exact .some ⟨hf.nonblocking, hf.closeOnExec⟩
  · exact hi

/-- Every call keeps the ledger right. -/
theorem Ledger.Kept.step (h : l.Kept k) (action : Action) :
    (step sys (l, k) action).1.Kept (step sys (l, k) action).2 := by
  cases action with
  | constructor c => exact h.enter (sys.allOrNothing_constructor_exact c k) fun d hd ↦ hd
  | pipe2 pipefd flags =>
    exact h.enter (sys.allOrNothing_pipe2 pipefd flags k) fun d ↦ exact_of_asRequested
  | accept4 tcpServerSockfd client flags =>
    exact h.enter (sys.allOrNothing_accept4 tcpServerSockfd client flags k) fun d ↦
      exact_of_asRequested
  | setNonblock fd =>
    refine h.note (sys.descriptors_setNonblock fd k) fun d f hf ↦ ⟨?_, hf.closeOnExec⟩
    exact iff_of_true d.nonblocking_withNonblock rfl
  | setCloseOnExec fd =>
    refine h.note (sys.descriptors_setCloseOnExec fd k) fun d f hf ↦ ⟨hf.nonblocking, ?_⟩
    exact iff_of_true d.closeOnExec_withCloseOnExec rfl
  | setReuseAddr fd => exact h.setReuseAddr fd
  | isNonblock3state fd =>
    exact h.congr (congrArg (fun x : ℤ × Kernel ↦ x.2.descriptors) (sys.isNonblock3state_eq fd k))
  | isCloseOnExec3state fd =>
    exact h.congr
      (congrArg (fun x : ℤ × Kernel ↦ x.2.descriptors) (sys.isCloseOnExec3state_eq fd k))
  | close fd => exact h.drop fd

theorem kept_foldl (h : l.Kept k) (actions : List Action) :
    (actions.foldl (step sys) (l, k)).1.Kept (actions.foldl (step sys) (l, k)).2 := by
  induction actions generalizing l k with
  | nil => exact h
  | cons action rest ih => exact ih (h.step action)

/-- What a function that asks for a flag answers, by the ledger. -/
def Ledger.answer (l : Ledger) (fd : ℤ) (flag : Flags → Bool) (succeeds : Bool) : ℤ :=
  if succeeds then (l fd).elim (-1) fun f ↦ if flag f then 1 else 0 else -1

theorem Ledger.Kept.isNonblock3state (h : l.Kept k) (fd : ℤ) :
    (sys.isNonblock3state fd k).1 =
      l.answer fd Flags.nonblock (sys.allows k (.fcntlGetfl fd)) := by
  have hfd := h fd
  rw [System.isNonblock3state_eq, Ledger.answer]
  generalize k.descriptors fd = d at hfd ⊢
  generalize l fd = asked at hfd ⊢
  cases hfd with
  | none => rfl
  | some hexact => simp only [Option.elim_some, hexact.nonblocking]

theorem Ledger.Kept.isCloseOnExec3state (h : l.Kept k) (fd : ℤ) :
    (sys.isCloseOnExec3state fd k).1 =
      l.answer fd Flags.closeOnExec (sys.allows k (.fcntlGetfd fd)) := by
  have hfd := h fd
  rw [System.isCloseOnExec3state_eq, Ledger.answer]
  generalize k.descriptors fd = d at hfd ⊢
  generalize l fd = asked at hfd ⊢
  cases hfd with
  | none => rfl
  | some hexact => simp only [Option.elim_some, hexact.closeOnExec]

/-- In every sequence of calls of the functions of `AsyncIo` and of `close`, whichever of the system
calls fail: the open descriptors are those that were open at first and those that have been
returned, less those that have been closed, and their flags are exactly those that they had at
first, were asked for, or have been set successfully. The functions that ask for a flag answer by
the ledger, and -1 if the descriptor is not open or their call fails. -/
theorem run_kept (sys : System) (k : Kernel) (actions : List Action) :
    (run sys k actions).1.Kept (run sys k actions).2 ∧ ∀ fd,
      (sys.isNonblock3state fd (run sys k actions).2).1 =
        (run sys k actions).1.answer fd Flags.nonblock
          (sys.allows (run sys k actions).2 (.fcntlGetfl fd)) ∧
      (sys.isCloseOnExec3state fd (run sys k actions).2).1 =
        (run sys k actions).1.answer fd Flags.closeOnExec
          (sys.allows (run sys k actions).2 (.fcntlGetfd fd)) := by
  have hkept : (run sys k actions).1.Kept (run sys k actions).2 :=
    kept_foldl (Ledger.kept_ofKernel k) actions
  exact ⟨hkept, fun fd ↦ ⟨hkept.isNonblock3state fd, hkept.isCloseOnExec3state fd⟩⟩

end Runs

end Nebula.AsyncIo
