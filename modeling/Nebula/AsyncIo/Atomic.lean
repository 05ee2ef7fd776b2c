import Nebula.AsyncIo.Sockets

/-!
The functions that open descriptors are all or nothing: whichever calls fail, a function that
returns `ERROR` leaves the open descriptors as they were, and one that succeeds has opened the
descriptors that it returns and no others (`AllOrNothing`). The steps in between configure the new
descriptors only (`configures_setNonblock` and the lemmas next to it), so that closing these is
enough.

`constructors_allOrNothing` says it of all functions, with the flags that the new descriptors have.
-/

set_option autoImplicit false
set_option relaxedAutoImplicit false

namespace Nebula.AsyncIo

open Nebula.Library Attempt

/-! ### Flags -/

namespace Descriptor

def withNonblock (d : Descriptor) : Descriptor :=
  { d with statusFlags := d.statusFlags ||| oNonblock }

def withCloseOnExec (d : Descriptor) : Descriptor :=
  { d with descriptorFlags := d.descriptorFlags ||| fdCloexec }

/-- The flags are those that were asked for. -/
structure AsRequested (flags : BitVec 32) (d : Descriptor) : Prop where
  nonblocking : d.Nonblocking ↔ flags &&& aioNonblock ≠ 0
  closeOnExec : d.CloseOnExec ↔ flags &&& aioCloexec ≠ 0

variable {d : Descriptor}

/-- A bit that has been set is set. -/
theorem or_and_self (flags bit : BitVec 32) : (flags ||| bit) &&& bit = bit := by
  ext i hi
  rw [BitVec.getElem_and, BitVec.getElem_or]
  cases bit[i] <;> simp

theorem nonblocking_withNonblock (d : Descriptor) : d.withNonblock.Nonblocking := by
  show (d.statusFlags ||| oNonblock) &&& oNonblock ≠ 0
  rw [or_and_self]
  decide

theorem closeOnExec_withCloseOnExec (d : Descriptor) : d.withCloseOnExec.CloseOnExec := by
  show (d.descriptorFlags ||| fdCloexec) &&& fdCloexec ≠ 0
  rw [or_and_self]
  decide

theorem asRequested_of_new (flags : BitVec 32) (hblocking : ¬ d.Nonblocking)
    (hinherited : ¬ d.CloseOnExec) :
    ((if requested flags aioCloexec then withCloseOnExec else id)
      ((if requested flags aioNonblock then withNonblock else id) d)).AsRequested flags := by
  have hrequested : ∀ bit, requested flags bit = true ↔ flags &&& bit ≠ 0 := fun bit ↦
    decide_eq_true_iff
  constructor
  · rw [← hrequested]
    cases requested flags aioNonblock <;> cases requested flags aioCloexec
    · exact iff_of_false hblocking Bool.false_ne_true
    · exact iff_of_false hblocking Bool.false_ne_true
    · exact iff_of_true d.nonblocking_withNonblock rfl
    · exact iff_of_true d.nonblocking_withNonblock rfl
  · rw [← hrequested]
    cases requested flags aioNonblock <;> cases requested flags aioCloexec
    · exact iff_of_false hinherited Bool.false_ne_true
    · exact iff_of_true d.closeOnExec_withCloseOnExec rfl
    · exact iff_of_false hinherited Bool.false_ne_true
    · exact iff_of_true d.withNonblock.closeOnExec_withCloseOnExec rfl

end Descriptor

/-! ### What a function leaves open -/

/-- The descriptors have been opened, and no others have changed. -/
structure NewlyOpen (k k' : Kernel) (fds : List ℤ) (Good : Descriptor → Prop) : Prop where
  nodup : fds.Nodup
  free : ∀ fd ∈ fds, k.Free fd
  opened : ∀ fd ∈ fds, ∃ d, k'.descriptors fd = some d ∧ Good d
  others : ∀ fd ∉ fds, k'.descriptors fd = k.descriptors fd

/-- A function that returns `ERROR` leaves the open descriptors as they were, and one that succeeds
has opened those that it returns. -/
structure AllOrNothing (k : Kernel) (result : Option (List ℤ)) (k' : Kernel)
    (Good : Descriptor → Prop) : Prop where
  nothing : result = none → k'.descriptors = k.descriptors
  all : ∀ fds, result = some fds → NewlyOpen k k' fds Good

/-- The descriptors that `pipe2` returns. -/
def pipeOpened (result : Bool × (ℤ × ℤ) × Kernel) : Option (List ℤ) :=
  if result.1 then some [result.2.1.1, result.2.1.2] else none

variable {k k' : Kernel} {Good : Descriptor → Prop} {fds : List ℤ}

theorem allOrNothing_of_unchanged (h : k'.descriptors = k.descriptors) :
    AllOrNothing k none k' Good :=
  ⟨fun _ ↦ h, fun _ hsome ↦ absurd hsome (by simp)⟩

/-- A run that configures the descriptors that have just been opened. -/
theorem allOrNothing_of_yields {β : Type*} (Good : Descriptor → Prop) {value : β}
    {run : Kernel → Option β × Kernel} {change : Kernel → ℤ → Descriptor → Descriptor}
    {handles : Set ℤ}
    {New : Descriptor → Prop}
    (h : NewlyOpen k k' fds New) (hrun : Yields Kernel.descriptors handles change value run)
    (hhandles : ∀ fd, fd ∈ handles ↔ fd ∈ fds)
    (hgood : ∀ fd ∈ fds, ∀ d, New d → Good (change k' fd d)) :
    AllOrNothing k ((run k').1.map fun _ ↦ fds) (run k').2 Good where
  nothing hnone := by
    rw [Option.map_eq_none_iff] at hnone
    ext1 fd
    by_cases hfd : fd ∈ fds
    · rw [hrun.dropped k' hnone fd ((hhandles fd).mpr hfd), (h.free fd hfd).2]
    · rw [hrun.frame k' fd (mt (hhandles fd).mp hfd), h.others fd hfd]
  all fds' hsome := by
    obtain ⟨v, hv, rfl⟩ := Option.map_eq_some_iff.mp hsome
    refine ⟨h.nodup, h.free, fun fd hfd ↦ ?_, fun fd hfd ↦ ?_⟩
    · obtain ⟨d, hd, hnew⟩ := h.opened fd hfd
      exact ⟨change k' fd d, by rw [hrun.applied k' v hv, hd, Option.map_some], hgood fd hfd d hnew⟩
    · rw [hrun.frame k' fd (mt (hhandles fd).mp hfd), h.others fd hfd]

/-! ### The steps -/

namespace System

variable {sys : System} {fd : ℤ}

/-- Flags are read, and written back with some of them set. -/
theorem configures_reading (call : SysCall) (fd : ℤ) (read : Descriptor → BitVec 32)
    (write : BitVec 32 → SysCall) (effect : BitVec 32 → Descriptor → Descriptor) :
    Configures Kernel.descriptors {fd} (fun _ ↦ only fd fun d ↦ effect (read d) d)
      (reading (sys.get call fd read) fun flags ↦
        sys.change (write flags) fd fun d ↦ some (effect flags d)) where
  frame k i hi := by
    unfold reading get
    split_ifs
    · cases k.descriptors fd with
      | none => rfl
      | some d => exact (configures_change (write (read d)) fd _).frame (k.record call) i hi
    · rfl
  applied k := by
    unfold reading get
    split_ifs
    · cases hopen : k.descriptors fd with
      | none => exact fun hfails ↦ absurd hfails (by simp)
      | some d =>
        intro hsucceeds i
        refine ((configures_change (write (read d)) fd _).applied (k.record call)
          hsucceeds i).trans ?_
        by_cases hi : i = fd
        · rw [only, only, if_pos hi, if_pos hi, Kernel.descriptors_record, hi, hopen]
          rfl
        · rw [only, only, if_neg hi, if_neg hi, Kernel.descriptors_record]
    · exact fun hfails ↦ absurd hfails (by simp)

theorem configures_setNonblock (sys : System) (fd : ℤ) :
    Configures Kernel.descriptors {fd} (fun _ ↦ only fd Descriptor.withNonblock)
      (sys.setNonblock fd) :=
  configures_reading (.fcntlGetfl fd) fd Descriptor.statusFlags
    (fun flags ↦ .fcntlSetfl fd (flags ||| oNonblock))
    fun flags d ↦ { d with statusFlags := flags ||| oNonblock }

theorem configures_setCloseOnExec (sys : System) (fd : ℤ) :
    Configures Kernel.descriptors {fd} (fun _ ↦ only fd Descriptor.withCloseOnExec)
      (sys.setCloseOnExec fd) :=
  configures_reading (.fcntlGetfd fd) fd Descriptor.descriptorFlags
    (fun flags ↦ .fcntlSetfd fd (flags ||| fdCloexec))
    fun flags d ↦ { d with descriptorFlags := flags ||| fdCloexec }

@[simp] theorem only_self (fd : ℤ) (effect : Descriptor → Descriptor) :
    only fd effect fd = effect :=
  if_pos rfl

/-- A call that changes the socket leaves the flags alone. -/
theorem configures_onSocket (call : SysCall) (fd : ℤ) (change : Socket → Socket) :
    Configures Kernel.descriptors {fd}
      (fun _ ↦ only fd fun d ↦ { d with socket := d.socket.map change })
      (sys.change call fd (Descriptor.onSocket change)) := by
  have heffect : (fun d ↦ (Descriptor.onSocket change d).getD d) =
      fun d ↦ { d with socket := d.socket.map change } := by
    ext1 ⟨status, flags, _ | socket⟩ <;> rfl
  rw [← heffect]
  exact configures_change call fd _

theorem configures_setReuseAddr (sys : System) (fd : ℤ) :
    Configures Kernel.descriptors {fd} (fun _ ↦ only fd fun d ↦
      { d with socket := d.socket.map fun socket ↦ { socket with reuseAddr := true } })
      (sys.setReuseAddr fd) :=
  configures_onSocket _ fd _

theorem configures_bind (sys : System) (fd : ℤ) (addr : Address) :
    Configures Kernel.descriptors {fd} (fun k ↦ only fd fun d ↦ { d with
      socket := d.socket.map fun socket ↦ { socket with bound := some (sys.localAddress k addr) } })
      (sys.bind fd addr) where
  frame k := (configures_onSocket (.bind fd addr) fd _).frame k
  applied k := (configures_onSocket (.bind fd addr) fd _).applied k

theorem configures_listen (sys : System) (fd : ℤ) (backlog : ℕ) :
    Configures Kernel.descriptors {fd} (fun _ ↦ only fd fun d ↦
      { d with socket := d.socket.map fun socket ↦ { socket with listening := true } })
      (sys.listen fd backlog) :=
  configures_onSocket _ fd _

theorem configures_connect (sys : System) (fd : ℤ) (addr : Address) :
    Configures Kernel.descriptors {fd} (fun _ ↦ only fd fun d ↦
      { d with socket := d.socket.map fun socket ↦ { socket with peer := some addr } })
      (sys.connect fd addr) :=
  configures_onSocket _ fd _

theorem yields_orElse_close {a : Attempt Kernel} {next : Kernel → Option ℤ × Kernel}
    {change change' : Kernel → ℤ → Descriptor → Descriptor}
    (h : Configures Kernel.descriptors {fd} change a)
    (hnext : Yields Kernel.descriptors {fd} change' fd next) :
    Yields Kernel.descriptors {fd} (fun k i ↦ change' (a k).2 i ∘ change k i) fd
      (a.orElse (fun k ↦ k.close fd) next) :=
  hnext.orElse h (fun k i hi ↦ (k.descriptors_close fd i).trans (if_pos hi))
    fun k i hi ↦ (k.descriptors_close fd i).trans (if_neg hi)

/-! ### Sockets -/

/-- A new descriptor for a socket. -/
theorem callSocket_cases (sys : System) (family : Family) (type : SocketType) (k : Kernel) :
    (∃ k', sys.callSocket family type k = (none, k') ∧ k'.descriptors = k.descriptors) ∨
      ∃ fd k', sys.callSocket family type k = (some fd, k') ∧
        NewlyOpen k k' [fd] (· = .ofSocket (.new family type)) := by
  unfold callSocket
  cases sys.socket k family type with
  | none => exact Or.inl ⟨_, rfl, rfl⟩
  | some fd =>
    refine Or.inr ⟨fd.1, _, rfl, List.pairwise_singleton .., ?_, ?_, fun i hi ↦ ?_⟩
    · exact List.forall_mem_singleton.mpr fd.2
    · exact List.forall_mem_singleton.mpr ⟨_, (Kernel.descriptors_put ..).trans (if_pos rfl), rfl⟩
    · exact (Kernel.descriptors_put ..).trans (if_neg (mt List.mem_singleton.mpr hi))

/-- What is done with a new socket returns its descriptor or closes it. -/
theorem allOrNothing_acquire {run : ℤ → Kernel → Option ℤ × Kernel}
    {change : ℤ → Kernel → ℤ → Descriptor → Descriptor} (sys : System) (family : Family)
    (type : SocketType) (k : Kernel)
    (hrun : ∀ fd, Yields Kernel.descriptors {fd} (change fd) fd (run fd))
    (hgood : ∀ fd k, Good (change fd k fd (.ofSocket (.new family type)))) :
    AllOrNothing k ((acquire (sys.callSocket family type) run k).1.map fun fd ↦ [fd])
      (acquire (sys.callSocket family type) run k).2 Good := by
  unfold acquire
  rcases sys.callSocket_cases family type k with ⟨k', heq, hsame⟩ | ⟨fd, k', heq, hnew⟩
  · rw [heq]
    exact allOrNothing_of_unchanged hsame
  · rw [heq]
    have hall : AllOrNothing k ((run fd k').1.map fun _ ↦ [fd]) (run fd k').2 Good := by
      refine allOrNothing_of_yields Good hnew (hrun fd) (fun i ↦ List.mem_singleton.symm) ?_
      rintro i hi d rfl
      rw [List.mem_singleton.mp hi]
      exact hgood fd k'
    have hvalue : ((run fd k').1.map fun _ ↦ [fd]) = (run fd k').1.map fun fd ↦ [fd] := by
      refine Option.map_congr fun v hv ↦ ?_
      rw [(hrun fd).value_eq k' v hv]
    rwa [hvalue] at hall

theorem allOrNothing_createAsyncServerSocket (sys : System) (bindAddr : SockaddrIn) (useTcp : Bool)
    (k : Kernel) : AllOrNothing k
      ((sys.createAsyncServerSocket bindAddr useTcp k).1.map fun fd ↦ [fd])
      (sys.createAsyncServerSocket bindAddr useTcp k).2 Descriptor.Nonblocking := by
  refine sys.allOrNothing_acquire .inet (socketType useTcp) k (fun fd ↦ yields_orElse_close
    ((sys.configures_setNonblock fd).both (sys.configures_setReuseAddr fd))
    (yields_orElse_close (sys.configures_bind fd (.inet bindAddr))
      (yields_orElse_close ((sys.configures_listen fd somaxconn).onlyIf useTcp)
        (yields_return fd)))) fun fd _ ↦ ?_
  simp only [only_self, Function.comp_apply]
  cases useTcp <;> exact Descriptor.nonblocking_withNonblock _

theorem allOrNothing_createAsyncServerSocketAt (sys : System) (bindIp : Option (List UInt8))
    (bindPort : BitVec 32) (useTcp : Bool) (k : Kernel) : AllOrNothing k
      ((sys.createAsyncServerSocketAt bindIp bindPort useTcp k).1.map fun fd ↦ [fd])
      (sys.createAsyncServerSocketAt bindIp bindPort useTcp k).2 Descriptor.Nonblocking := by
  unfold createAsyncServerSocketAt
  split
  · exact sys.allOrNothing_createAsyncServerSocket _ useTcp k
  · split
    · exact allOrNothing_of_unchanged rfl
    · exact sys.allOrNothing_createAsyncServerSocket _ useTcp k

theorem allOrNothing_createAsyncClientSocket (sys : System) (servAddr : SockaddrIn) (useTcp : Bool)
    (k : Kernel) : AllOrNothing k
      ((sys.createAsyncClientSocket servAddr useTcp k).1.map fun fd ↦ [fd])
      (sys.createAsyncClientSocket servAddr useTcp k).2 Descriptor.Nonblocking := by
  refine sys.allOrNothing_acquire .inet (socketType useTcp) k (fun fd ↦ yields_orElse_close
    ((sys.configures_connect fd (.inet servAddr)).onlyIf useTcp)
    (yields_orElse_close (sys.configures_setNonblock fd) (yields_return fd))) fun fd _ ↦ ?_
  simp only [only_self, Function.comp_apply]
  exact Descriptor.nonblocking_withNonblock _

theorem allOrNothing_createAsyncClientSocketAt (sys : System) (servIp : List UInt8)
    (servPort : BitVec 32) (useTcp : Bool) (k : Kernel) : AllOrNothing k
      ((sys.createAsyncClientSocketAt servIp servPort useTcp k).1.map fun fd ↦ [fd])
      (sys.createAsyncClientSocketAt servIp servPort useTcp k).2 Descriptor.Nonblocking := by
  unfold createAsyncClientSocketAt
  split
  · exact allOrNothing_of_unchanged rfl
  · exact sys.allOrNothing_createAsyncClientSocket _ useTcp k

theorem allOrNothing_createAsyncUnixServerSocket (sys : System) (fsPathname : List UInt8)
    (useTcp : Bool) (k : Kernel) : AllOrNothing k
      ((sys.createAsyncUnixServerSocket fsPathname useTcp k).1.map fun fd ↦ [fd])
      (sys.createAsyncUnixServerSocket fsPathname useTcp k).2 Descriptor.Nonblocking := by
  simp only [createAsyncUnixServerSocket]
  split_ifs
  · exact allOrNothing_of_unchanged rfl
  refine sys.allOrNothing_acquire .unix (socketType useTcp) k (fun fd ↦ yields_orElse_close
    (sys.configures_setNonblock fd) (yields_orElse_close (sys.configures_bind fd _)
      (yields_return fd))) fun fd _ ↦ ?_
  simp only [only_self, Function.comp_apply]
  exact Descriptor.nonblocking_withNonblock _

theorem allOrNothing_createAsyncUnixClientSocket (sys : System) (fsPathname : List UInt8)
    (useTcp : Bool) (k : Kernel) : AllOrNothing k
      ((sys.createAsyncUnixClientSocket fsPathname useTcp k).1.map fun fd ↦ [fd])
      (sys.createAsyncUnixClientSocket fsPathname useTcp k).2 Descriptor.Nonblocking := by
  simp only [createAsyncUnixClientSocket]
  split_ifs
  · exact allOrNothing_of_unchanged rfl
  refine sys.allOrNothing_acquire .unix (socketType useTcp) k (fun fd ↦ yields_orElse_close
    (sys.configures_setNonblock fd) (yields_orElse_close (sys.configures_connect fd _)
      (yields_return fd))) fun fd _ ↦ ?_
  simp only [only_self, Function.comp_apply]
  exact Descriptor.nonblocking_withNonblock _

theorem allOrNothing_constructor (sys : System) (c : Constructor) (k : Kernel) :
    AllOrNothing k ((c.run sys k).1.map fun fd ↦ [fd]) (c.run sys k).2 Descriptor.Nonblocking := by
  cases c with
  | tcpServer bindIp bindPort =>
    exact sys.allOrNothing_createAsyncServerSocketAt bindIp bindPort true k
  | tcpServerOn bindAddr => exact sys.allOrNothing_createAsyncServerSocket bindAddr true k
  | udpServer bindIp bindPort =>
    exact sys.allOrNothing_createAsyncServerSocketAt bindIp bindPort false k
  | udpServerOn bindAddr => exact sys.allOrNothing_createAsyncServerSocket bindAddr false k
  | tcpClient servIp servPort =>
    exact sys.allOrNothing_createAsyncClientSocketAt servIp servPort true k
  | tcpClientOn servAddr => exact sys.allOrNothing_createAsyncClientSocket servAddr true k
  | udpClient servIp servPort =>
    exact sys.allOrNothing_createAsyncClientSocketAt servIp servPort false k
  | udpClientOn servAddr => exact sys.allOrNothing_createAsyncClientSocket servAddr false k
  | unixTcpServer fsPathname => exact sys.allOrNothing_createAsyncUnixServerSocket fsPathname true k
  | unixUdpServer fsPathname =>
    exact sys.allOrNothing_createAsyncUnixServerSocket fsPathname false k
  | unixTcpClient fsPathname => exact sys.allOrNothing_createAsyncUnixClientSocket fsPathname true k
  | unixUdpClient fsPathname =>
    exact sys.allOrNothing_createAsyncUnixClientSocket fsPathname false k

/-! ### Pipes and connections that are accepted -/

/-- Both ends of a new pipe are blocking, and inherited by programs that are executed. -/
theorem callPipe_cases (sys : System) (k : Kernel) :
    (∃ k', sys.callPipe k = (none, k') ∧ k'.descriptors = k.descriptors) ∨
      ∃ fds k', sys.callPipe k = (some fds, k') ∧ fds.1 ≠ fds.2 ∧
        NewlyOpen k k' [fds.1, fds.2] fun d ↦ ¬ d.Nonblocking ∧ ¬ d.CloseOnExec := by
  unfold callPipe
  cases sys.pipe k with
  | none => exact Or.inl ⟨_, rfl, rfl⟩
  | some fds =>
    obtain ⟨⟨r, w⟩, ⟨hr, hw⟩, hne⟩ := fds
    have htable : ∀ i, (((k.record .pipe).put r (.pipeEnd oRdonly)).put w
        (.pipeEnd oWronly)).descriptors i = if i = w then some (.pipeEnd oWronly)
          else if i = r then some (.pipeEnd oRdonly) else k.descriptors i := fun i ↦ by
      rw [Kernel.descriptors_put, Kernel.descriptors_put, Kernel.descriptors_record]
    refine Or.inr ⟨_, _, rfl, hne, ?_, ?_, ?_, fun i hi ↦ ?_⟩
    · exact List.nodup_cons.mpr ⟨by simpa using hne, List.pairwise_singleton ..⟩
    · simpa using ⟨hr, hw⟩
    · refine List.forall_mem_cons.mpr ⟨⟨.pipeEnd oRdonly, ?_, by decide⟩,
        List.forall_mem_singleton.mpr ⟨.pipeEnd oWronly, ?_, by decide⟩⟩
      · rw [htable, if_neg hne, if_pos rfl]
      · rw [htable, if_pos rfl]
    · obtain ⟨hir, hiw⟩ : i ≠ r ∧ i ≠ w := by simpa using hi
      rw [htable, if_neg hiw, if_neg hir]

/-- The descriptor of a connection is blocking, and inherited by programs that are executed. -/
theorem callAccept_cases (sys : System) (sockfd : ℤ) (client : ClientAddr) (k : Kernel) :
    (∃ k', sys.callAccept sockfd client k = (none, client, k') ∧ k'.descriptors = k.descriptors) ∨
      ∃ fd client' k', sys.callAccept sockfd client k = (some fd, client', k') ∧
        NewlyOpen k k' [fd] fun d ↦ ¬ d.Nonblocking ∧ ¬ d.CloseOnExec := by
  unfold callAccept
  split
  · next server accepted _ _ =>
    refine Or.inr ⟨_, _, _, rfl, List.pairwise_singleton .., ?_, ?_, fun i hi ↦ ?_⟩
    · exact List.forall_mem_singleton.mpr accepted.fd.2
    · refine List.forall_mem_singleton.mpr
        ⟨_, (Kernel.descriptors_put ..).trans (if_pos rfl), ?_, ?_⟩
      · show ¬ oRdwr &&& oNonblock ≠ 0
        decide
      · show ¬ (0 : BitVec 32) &&& fdCloexec ≠ 0
        decide
    · exact (Kernel.descriptors_put ..).trans (if_neg (mt List.mem_singleton.mpr hi))
  · exact Or.inl ⟨_, rfl, rfl⟩

theorem only_ends {r w i : ℤ} {effect : Descriptor → Descriptor} (hne : r ≠ w)
    (hi : i = r ∨ i = w) :
    only w effect i ∘ only r effect i = effect := by
  unfold only
  rcases hi with rfl | rfl
  · rw [if_neg hne, if_pos rfl]
    rfl
  · rw [if_neg hne.symm, if_pos rfl]
    rfl

/-- A step that sets the same flag of both ends. -/
theorem configures_ends {step : ℤ → Attempt Kernel} {effect : Descriptor → Descriptor}
    (h : ∀ fd, Configures Kernel.descriptors {fd} (fun _ ↦ only fd effect) (step fd))
    (fds : ℤ × ℤ) :
    Configures Kernel.descriptors {fds.1, fds.2}
      (fun _ i ↦ only fds.2 effect i ∘ only fds.1 effect i)
      (both (step fds.1) (step fds.2)) :=
  ((h fds.1).mono fun _ hi ↦ Or.inl hi).both ((h fds.2).mono fun _ hi ↦ Or.inr hi)

/-- The clean-up of `pipe2` closes both ends … -/
theorem closed_ends {fds : ℤ × ℤ} (hne : fds.1 ≠ fds.2) (k : Kernel) :
    ∀ i ∈ ({fds.1, fds.2} : Set ℤ), ((k.close fds.1).close fds.2).descriptors i = none := by
  rintro i (rfl | rfl)
  · rw [Kernel.descriptors_close, if_neg hne, Kernel.descriptors_close, if_pos rfl]
  · rw [Kernel.descriptors_close, if_pos rfl]

/-- … and nothing else. -/
theorem kept_ends (fds : ℤ × ℤ) (k : Kernel) : ∀ i ∉ ({fds.1, fds.2} : Set ℤ),
    ((k.close fds.1).close fds.2).descriptors i = k.descriptors i := by
  intro i hi
  obtain ⟨hfst, hsnd⟩ : i ≠ fds.1 ∧ i ≠ fds.2 := not_or.mp hi
  rw [Kernel.descriptors_close, if_neg hsnd, Kernel.descriptors_close, if_neg hfst]

theorem allOrNothing_pipe2 (sys : System) (pipefd : ℤ × ℤ) (flags : BitVec 32) (k : Kernel) :
    AllOrNothing k (pipeOpened (sys.pipe2 pipefd flags k)) (sys.pipe2 pipefd flags k).2.2
      (Descriptor.AsRequested flags) := by
  unfold pipe2
  by_cases hflags : UnknownFlags flags
  · rw [if_pos hflags]
    exact allOrNothing_of_unchanged rfl
  rw [if_neg hflags]
  rcases sys.callPipe_cases k with ⟨k', heq, hsame⟩ | ⟨fds, k', heq, hne, hnew⟩
  · rw [heq]
    exact allOrNothing_of_unchanged hsame
  · rw [heq]
    have hnonblock := (configures_ends sys.configures_setNonblock fds).onlyIf
      (requested flags aioNonblock)
    have hcloseOnExec := (configures_ends sys.configures_setCloseOnExec fds).onlyIf
      (requested flags aioCloexec)
    have hrun := ((yields_return ()).orElse hcloseOnExec (closed_ends hne) (kept_ends fds)).orElse
      hnonblock (closed_ends hne) (kept_ends fds)
    have hopened : ∀ done : Option Unit, (if done.isSome then some [fds.1, fds.2] else none) =
        done.map fun _ ↦ [fds.1, fds.2] := fun done ↦ by cases done <;> rfl
    have hmem : ∀ i, i ∈ ({fds.1, fds.2} : Set ℤ) ↔ i ∈ [fds.1, fds.2] := fun i ↦ by
      rw [List.mem_cons, List.mem_singleton]
      exact Iff.rfl
    have hall := allOrNothing_of_yields (Descriptor.AsRequested flags) hnew hrun hmem
      fun i hi d hd ↦ by
        rw [only_ends hne (by simpa using hi), only_ends hne (by simpa using hi)]
        exact Descriptor.asRequested_of_new flags hd.1 hd.2
    rw [← hopened] at hall
    exact hall

theorem allOrNothing_accept4 (sys : System) (sockfd : ℤ) (client : ClientAddr) (flags : BitVec 32)
    (k : Kernel) : AllOrNothing k ((sys.accept4 sockfd client flags k).1.map fun fd ↦ [fd])
      (sys.accept4 sockfd client flags k).2.2 (Descriptor.AsRequested flags) := by
  unfold accept4
  by_cases hflags : UnknownFlags flags
  · rw [if_pos hflags]
    exact allOrNothing_of_unchanged rfl
  rw [if_neg hflags]
  rcases sys.callAccept_cases sockfd client k with ⟨k', heq, hsame⟩ | ⟨fd, client', k', heq, hnew⟩
  · rw [heq]
    exact allOrNothing_of_unchanged hsame
  · rw [heq]
    have hnonblock := (sys.configures_setNonblock fd).onlyIf (requested flags aioNonblock)
    have hcloseOnExec := (sys.configures_setCloseOnExec fd).onlyIf (requested flags aioCloexec)
    have hrun := yields_orElse_close (hnonblock.both hcloseOnExec) (yields_return fd)
    have hall := allOrNothing_of_yields (Descriptor.AsRequested flags) hnew hrun
      (fun i ↦ List.mem_singleton.symm) fun i hi d hd ↦ by
        rw [List.mem_singleton.mp hi, only_self, only_self]
        exact Descriptor.asRequested_of_new flags hd.1 hd.2
    have hvalue := hrun.value_eq k'
    simp only
    generalize orElse _ _ _ k' = done at hall hvalue ⊢
    obtain ⟨_ | fd', k''⟩ := done
    · exact hall
    · rw [hvalue fd' rfl]
      exact hall

/-- An address length that has been written is restored. -/
theorem len_accept4 (sys : System) (sockfd : ℤ) (client : ClientAddr) (flags : BitVec 32)
    (k : Kernel)
    (h : (sys.accept4 sockfd client flags k).1 = none) :
    (sys.accept4 sockfd client flags k).2.1.len = client.len := by
  revert h
  unfold accept4
  by_cases hflags : UnknownFlags flags
  · rw [if_pos hflags]
    exact fun _ ↦ rfl
  rw [if_neg hflags]
  rcases sys.callAccept_cases sockfd client k with ⟨k', heq, -⟩ | ⟨fd, client', k', heq, -⟩
  · rw [heq]
    exact fun _ ↦ rfl
  · rw [heq]
    simp only
    generalize orElse _ _ _ k' = done
    obtain ⟨_ | fd', k''⟩ := done
    · exact fun _ ↦ rfl
    · exact fun hnone ↦ absurd hnone (by simp)

/-- Whichever calls fail, `pipe2`, `accept4` and the functions that open a socket return `ERROR`
with the open descriptors as they were, or have opened exactly the descriptors they return, with the
flags that were asked for, and for sockets non-blocking. -/
theorem constructors_allOrNothing (sys : System) (k : Kernel) :
    (∀ pipefd flags, AllOrNothing k (pipeOpened (sys.pipe2 pipefd flags k))
      (sys.pipe2 pipefd flags k).2.2 (Descriptor.AsRequested flags)) ∧
    (∀ sockfd client flags, AllOrNothing k
        ((sys.accept4 sockfd client flags k).1.map fun fd ↦ [fd])
        (sys.accept4 sockfd client flags k).2.2 (Descriptor.AsRequested flags) ∧
      ((sys.accept4 sockfd client flags k).1 = none →
        (sys.accept4 sockfd client flags k).2.1.len = client.len)) ∧
    ∀ c : Constructor, AllOrNothing k ((c.run sys k).1.map fun fd ↦ [fd]) (c.run sys k).2
      Descriptor.Nonblocking :=
  ⟨fun pipefd flags ↦ sys.allOrNothing_pipe2 pipefd flags k,
    fun sockfd client flags ↦ ⟨sys.allOrNothing_accept4 sockfd client flags k,
      sys.len_accept4 sockfd client flags k⟩,
    fun c ↦ sys.allOrNothing_constructor c k⟩

/-! ### A small machine -/

instance (k : Kernel) (fd : ℤ) : Decidable (k.Free fd) := inferInstanceAs (Decidable (_ ∧ _))

/-- The first number below a bound that may be handed out. -/
def firstFree (k : Kernel) : ℕ → Option { fd : ℤ // k.Free fd }
  | 0 => none
  | n + 1 => firstFree k n <|> if h : k.Free n then some ⟨n, h⟩ else none

/-- A number that may be handed out next to another one is a different one. -/
theorem free_put {k : Kernel} {r w : ℤ} {d : Descriptor} (h : (k.put r d).Free w) :
    k.Free w ∧ r ≠ w := by
  obtain ⟨hnonneg, hnone⟩ := h
  rw [Kernel.descriptors_put] at hnone
  split_ifs at hnone with heq
  exact ⟨⟨hnonneg, hnone⟩, fun h ↦ heq h.symm⟩

/-- A number below 256 in decimal digits, without leading zeros. -/
def octet (digits : List UInt8) : Option (BitVec 8) :=
  let value := digits.foldl (fun value c ↦ 10 * value + (c.toNat - 0x30)) 0
  if digits ≠ [] ∧ (digits.all fun c ↦ 0x30 ≤ c && c ≤ 0x39) ∧ value < 256 ∧
      (digits.head? = some 0x30 → digits.length = 1) then
    some (BitVec.ofNat 8 value)
  else none

/-- Four numbers with dots between them; the first one is the low byte of the address. -/
def dottedQuad (text : List UInt8) : Option (BitVec 32) :=
  match text.splitOn 0x2e with
  | [a, b, c, d] =>
      match octet a, octet b, octet c, octet d with
      | some a, some b, some c, some d => some (d ++ c ++ b ++ a)
      | _, _, _, _ => none
  | _ => none

/-- `"127.0.0.1"` is an address, and the empty text is none. -/
example : dottedQuad [49, 50, 55, 46, 48, 46, 48, 46, 49] = some 0x0100007f ∧
    dottedQuad [] = none := by decide

/-- A machine with eight descriptors, on which some calls fail. -/
def small (fails : SysCall → Bool) : System where
  allows _ call := !fails call
  socket k _ _ := firstFree k 8
  accept k _ := (firstFree k 8).map fun fd ↦ ⟨fd, .unix [], [], 2⟩
  pipe k := (firstFree k 8).bind fun r ↦
    (firstFree (k.put r.1 (.pipeEnd oRdonly)) 8).map fun w ↦
      ⟨(r.1, w.1), ⟨r.2, (free_put w.2).1⟩, (free_put w.2).2⟩
  anyPort _ := ⟨htons 49152, by decide⟩
  inetPton := dottedQuad

/-- A server whose path cannot be bound closes its socket. -/
example :
    let k : Kernel := ⟨fun _ ↦ none, []⟩
    let server := Constructor.unixTcpServer [47]
    let broken := server.run (small fun call ↦ call = .bind 0 (.unix [47])) k
    (server.run (small fun _ ↦ false) k).1 = some 0 ∧ broken.1 = none ∧ broken.2.log =
      [.close 0, .bind 0 (.unix [47]), .fcntlSetfl 0 0x802, .fcntlGetfl 0, .socket .unix .stream] :=
  ⟨rfl, rfl, rfl⟩

end System

end Nebula.AsyncIo
