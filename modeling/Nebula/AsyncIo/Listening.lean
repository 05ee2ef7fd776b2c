import Nebula.AsyncIo.Atomic

/-!
What a stream server is there for: its socket is bound to an address and listening, so that clients
can connect to that address. On a `Reliable` system the calls of a client do not fail for reasons of
their own, and a new stream socket can be connected to an address at which a socket listens.

`createAsyncServerSocket` leaves a listening socket behind, which is bound to the address unless any
port was asked for; `createAsyncUnixServerSocket` leaves one that is bound only, to which nobody can
connect where connections need a listener (`server_accepts_iff`, `Refusing.unixClient_refused`).
-/

set_option autoImplicit false
set_option relaxedAutoImplicit false

namespace Nebula.AsyncIo

open Nebula.Library Nebula.Strings Attempt

/-! ### Servers and clients -/

/-- A call of one of the functions that open a stream server. -/
inductive StreamServer where
  | tcpServer (bindIp : Option (List UInt8)) (bindPort : BitVec 32)
  | tcpServerOn (bindAddr : SockaddrIn)
  | unixTcpServer (fsPathname : List UInt8)
  deriving DecidableEq

/-- A call of one of the functions that open a stream client. -/
inductive StreamClient where
  | tcpClient (servIp : List UInt8) (servPort : BitVec 32)
  | tcpClientOn (servAddr : SockaddrIn)
  | unixTcpClient (fsPathname : List UInt8)
  deriving DecidableEq

/-- The address that is made of a text and a port. -/
def inetAddress (sys : System) (ip : List UInt8) (port : BitVec 32) : Option Address :=
  (sys.inetPton ip).map fun addr ↦ .inet ⟨htons (port.setWidth 16), addr⟩

/-- The address that is made of a path; there is none if the path is too long. -/
def unixAddress (fsPathname : List UInt8) : Option Address :=
  if fsPathname.length < sunPathSize then some (.unix fsPathname) else none

namespace StreamServer

def toConstructor : StreamServer → Constructor
  | tcpServer bindIp bindPort => .tcpServer bindIp bindPort
  | tcpServerOn bindAddr => .tcpServerOn bindAddr
  | unixTcpServer fsPathname => .unixTcpServer fsPathname

def run (sys : System) (server : StreamServer) : Kernel → Option ℤ × Kernel :=
  server.toConstructor.run sys

/-- The address that a server is asked for. -/
def address (sys : System) : StreamServer → Option Address
  | tcpServer none bindPort => some (.inet ⟨htons (bindPort.setWidth 16), inaddrAny⟩)
  | tcpServer (some bindIp) bindPort => inetAddress sys bindIp bindPort
  | tcpServerOn bindAddr => some (.inet bindAddr)
  | unixTcpServer fsPathname => unixAddress fsPathname

/-- The server is one for TCP, and not one for the sockets of the file system. -/
def IsInet : StreamServer → Prop
  | tcpServer _ _ => True
  | tcpServerOn _ => True
  | unixTcpServer _ => False

/-- The server is asked for a certain port; `htons` takes the lower 16 bits of the argument. -/
def NamesPort : StreamServer → Prop
  | tcpServer _ bindPort => bindPort.setWidth 16 ≠ (0 : BitVec 16)
  | tcpServerOn bindAddr => bindAddr.sinPort ≠ 0
  | unixTcpServer _ => True

end StreamServer

namespace StreamClient

def toConstructor : StreamClient → Constructor
  | tcpClient servIp servPort => .tcpClient servIp servPort
  | tcpClientOn servAddr => .tcpClientOn servAddr
  | unixTcpClient fsPathname => .unixTcpClient fsPathname

def run (sys : System) (client : StreamClient) : Kernel → Option ℤ × Kernel :=
  client.toConstructor.run sys

/-- The address that a client connects to. -/
def address (sys : System) : StreamClient → Option Address
  | tcpClient servIp servPort => inetAddress sys servIp servPort
  | tcpClientOn servAddr => some (.inet servAddr)
  | unixTcpClient fsPathname => unixAddress fsPathname

end StreamClient

/-! ### Connections -/

/-- The socket listens at an address. -/
structure Socket.ListensAt (s : Socket) (addr : Address) : Prop where
  stream : s.type = .stream
  bound : s.bound = some addr
  listening : s.listening = true

namespace Kernel

def socketAt (k : Kernel) (fd : ℤ) : Option Socket := (k.descriptors fd).bind Descriptor.socket

/-- Some socket listens at an address. -/
def Listens (k : Kernel) (addr : Address) : Prop :=
  ∃ fd s, k.socketAt fd = some s ∧ s.ListensAt addr

/-- A descriptor is a socket that is connected to an address. -/
def Connected (k : Kernel) (fd : ℤ) (addr : Address) : Prop :=
  ∃ s, k.socketAt fd = some s ∧ s.peer = some addr

end Kernel

/-- Calls do not fail for reasons of their own: flags are read and written, and a new stream socket
is connected to an address of its family at which a socket listens. -/
structure System.Reliable (sys : System) : Prop where
  reads : ∀ k fd, sys.allows k (.fcntlGetfl fd) = true
  writes : ∀ k fd flags, sys.allows k (.fcntlSetfl fd flags) = true
  connects : ∀ k fd addr, k.socketAt fd = some (.new addr.family .stream) → k.Listens addr →
    sys.allows k (.connect fd addr) = true

/-- A stream socket is not connected to an address at which no socket listens. -/
structure System.Refusing (sys : System) : Prop where
  refuses : ∀ k fd addr, k.socketAt fd = some (.new addr.family .stream) → ¬ k.Listens addr →
    sys.allows k (.connect fd addr) = false

/-- The socket is bound to the address and listening, and as long as it stays as it is, clients that
get a socket can connect to it. -/
structure Accepts (k : Kernel) (fd : ℤ) (addr : Address) : Prop where
  listens : ∃ s, k.socketAt fd = some s ∧ s.ListensAt addr
  connects : ∀ (sys : System) (client : StreamClient) (k' : Kernel), sys.Reliable →
    client.address sys = some addr → k'.socketAt fd = k.socketAt fd →
    (sys.socket k' addr.family .stream).isSome →
    ∃ fd', (client.run sys k').1 = some fd' ∧ (client.run sys k').2.Connected fd' addr

/-! ### What servers and clients leave open -/

namespace System

variable {sys : System} {k k' : Kernel} {fd : ℤ}

theorem server_leaves (sys : System) (bindAddr : SockaddrIn) (k : Kernel) : AllOrNothing k
    ((sys.createAsyncServerSocket bindAddr true k).1.map fun fd ↦ [fd])
    (sys.createAsyncServerSocket bindAddr true k).2
    fun d ↦ ∃ k', d.socket =
      some ⟨.inet, .stream, true, some (sys.localAddress k' (.inet bindAddr)), true, none⟩ := by
  refine sys.allOrNothing_acquire .inet .stream k (fun fd ↦ yields_orElse_close
    ((sys.configures_setNonblock fd).both (sys.configures_setReuseAddr fd))
    (yields_orElse_close (sys.configures_bind fd (.inet bindAddr))
      (yields_orElse_close ((sys.configures_listen fd somaxconn).onlyIf true)
        (yields_return fd)))) fun fd _ ↦ ?_
  simp only [only_self, Function.comp_apply]
  exact ⟨_, rfl⟩

theorem client_leaves (sys : System) (servAddr : SockaddrIn) (k : Kernel) : AllOrNothing k
    ((sys.createAsyncClientSocket servAddr true k).1.map fun fd ↦ [fd])
    (sys.createAsyncClientSocket servAddr true k).2
    fun d ↦ d.socket = some ⟨.inet, .stream, false, none, false, some (.inet servAddr)⟩ := by
  refine sys.allOrNothing_acquire .inet .stream k (fun fd ↦ yields_orElse_close
    ((sys.configures_connect fd (.inet servAddr)).onlyIf true)
    (yields_orElse_close (sys.configures_setNonblock fd) (yields_return fd))) fun fd _ ↦ ?_
  simp only [only_self, Function.comp_apply]
  rfl

/-- A path that is not too long is kept as a whole. -/
theorem strlcpy_of_lt {fsPathname : List UInt8} (h : fsPathname.length < sunPathSize) :
    strlcpy fsPathname sunPathSize = (fsPathname, fsPathname.length) := by
  rw [strlcpy_eq, List.take_of_length_le (Nat.le_sub_one_of_lt h)]

theorem unixServer_leaves (sys : System) {fsPathname : List UInt8}
    (h : fsPathname.length < sunPathSize) (k : Kernel) : AllOrNothing k
      ((sys.createAsyncUnixServerSocket fsPathname true k).1.map fun fd ↦ [fd])
      (sys.createAsyncUnixServerSocket fsPathname true k).2
      fun d ↦ d.socket = some ⟨.unix, .stream, false, some (.unix fsPathname), false, none⟩ := by
  simp only [createAsyncUnixServerSocket, strlcpy_of_lt h, ge_iff_le, if_neg h.not_ge]
  refine sys.allOrNothing_acquire .unix .stream k (fun fd ↦ yields_orElse_close
    (sys.configures_setNonblock fd) (yields_orElse_close (sys.configures_bind fd _)
      (yields_return fd))) fun fd _ ↦ ?_
  simp only [only_self, Function.comp_apply]
  rfl

theorem unixClient_leaves (sys : System) {fsPathname : List UInt8}
    (h : fsPathname.length < sunPathSize) (k : Kernel) : AllOrNothing k
      ((sys.createAsyncUnixClientSocket fsPathname true k).1.map fun fd ↦ [fd])
      (sys.createAsyncUnixClientSocket fsPathname true k).2
      fun d ↦ d.socket = some ⟨.unix, .stream, false, none, false, some (.unix fsPathname)⟩ := by
  simp only [createAsyncUnixClientSocket, strlcpy_of_lt h, ge_iff_le, if_neg h.not_ge]
  refine sys.allOrNothing_acquire .unix .stream k (fun fd ↦ yields_orElse_close
    (sys.configures_setNonblock fd) (yields_orElse_close (sys.configures_connect fd _)
      (yields_return fd))) fun fd _ ↦ ?_
  simp only [only_self, Function.comp_apply]
  rfl

/-! ### Clients on a reliable system -/

theorem socketAt_of_frame {handles : Set ℤ} {change : Kernel → ℤ → Descriptor → Descriptor}
    {a : Attempt Kernel} (h : Configures Kernel.descriptors handles change a) (k : Kernel)
    (hfd : fd ∉ handles) : (a k).2.socketAt fd = k.socketAt fd :=
  congrArg (·.bind Descriptor.socket) (h.frame k fd hfd)

/-- A socket that was open before is another one than the new one, and stays as it is. -/
theorem socketAt_of_newlyOpen {new : ℤ} {New : Descriptor → Prop} {s : Socket}
    (h : NewlyOpen k k' [new] New) (hsocket : k.socketAt fd = some s) :
    fd ≠ new ∧ k'.socketAt fd = some s := by
  obtain ⟨d, hopen, -⟩ := Option.bind_eq_some_iff.mp hsocket
  have hne : fd ≠ new := by
    rintro rfl
    have hfree := (h.free fd List.mem_cons_self).2
    rw [hopen] at hfree
    cases hfree
  refine ⟨hne, ?_⟩
  rw [← hsocket, Kernel.socketAt, Kernel.socketAt, h.others fd (mt List.mem_singleton.mp hne)]

/-- The socket of a client. -/
theorem callSocket_of_isSome {family : Family} {type : SocketType}
    (h : (sys.socket k family type).isSome) : ∃ fd k',
      sys.callSocket family type k = (some fd, k') ∧
        NewlyOpen k k' [fd] (· = .ofSocket (.new family type)) := by
  rcases sys.callSocket_cases family type k with ⟨k', heq, -⟩ | hopened
  · obtain ⟨fd, hfd⟩ := Option.isSome_iff_exists.mp h
    simp [System.callSocket, hfd] at heq
  · exact hopened

/-- Whether a new socket is connected is up to the system. -/
theorem connect_new (addr : Address) {d : Descriptor} (hopen : k.descriptors fd = some d)
    (hsocket : d.socket = some (.new addr.family .stream)) :
    (sys.connect fd addr k).1 = sys.allows k (.connect fd addr) := by
  unfold System.connect change
  simp only [hopen, Option.bind_some, Descriptor.onSocket, hsocket, Option.map_some]
  cases sys.allows k (.connect fd addr) <;> rfl

theorem socketAt_eq {d : Descriptor} {s : Socket} (hopen : k.descriptors fd = some d)
    (hsocket : d.socket = some s) : k.socketAt fd = some s :=
  Option.bind_eq_some_iff.mpr ⟨d, hopen, hsocket⟩

namespace Reliable

variable {s : Socket}

theorem setNonblock (h : sys.Reliable) {d : Descriptor} (hopen : k.descriptors fd = some d) :
    (sys.setNonblock fd k).1 = true := by
  unfold System.setNonblock reading fcntlGetfl get fcntlSetfl change
  simp only [h.reads, if_true, hopen, Option.map_some, Kernel.descriptors_record, Option.bind_some,
    h.writes]

/-- A new socket can be connected to an address at which another socket listens. -/
theorem connect (h : sys.Reliable) (addr : Address) {d : Descriptor}
    (hopen : k.descriptors fd = some d) (hsocket : d.socket = some (.new addr.family .stream))
    (hlistens : k.Listens addr) : (sys.connect fd addr k).1 = true :=
  (connect_new addr hopen hsocket).trans (h.connects k fd addr (socketAt_eq hopen hsocket) hlistens)

theorem client_succeeds (h : sys.Reliable) {servAddr : SockaddrIn}
    (hopens : (sys.socket k .inet .stream).isSome) (hsocket : k.socketAt fd = some s)
    (hlistens : s.ListensAt (.inet servAddr)) :
    ∃ fd', (sys.createAsyncClientSocket servAddr true k).1 = some fd' := by
  obtain ⟨new, k', hcall, hnew⟩ := callSocket_of_isSome hopens
  obtain ⟨_, hopen, rfl⟩ := hnew.opened new List.mem_cons_self
  obtain ⟨-, hkept⟩ := socketAt_of_newlyOpen hnew hsocket
  have hconnect := h.connect (.inet servAddr) hopen rfl ⟨fd, s, hkept, hlistens⟩
  have hopen' := (sys.configures_connect new (.inet servAddr)).applied k' hconnect new
  rw [hopen, Option.map_some] at hopen'
  refine ⟨new, ?_⟩
  rw [createAsyncClientSocket, acquire, show socketType true = .stream from rfl, hcall]
  show (((sys.connect new _).orElse _ _) k').1 = _
  rw [orElse_of_succeeds hconnect, orElse_of_succeeds (h.setNonblock hopen')]

theorem unixClient_succeeds (h : sys.Reliable) {fsPathname : List UInt8}
    (hlength : fsPathname.length < sunPathSize) (hopens : (sys.socket k .unix .stream).isSome)
    (hsocket : k.socketAt fd = some s) (hlistens : s.ListensAt (.unix fsPathname)) :
    ∃ fd', (sys.createAsyncUnixClientSocket fsPathname true k).1 = some fd' := by
  obtain ⟨new, k', hcall, hnew⟩ := callSocket_of_isSome hopens
  obtain ⟨_, hopen, rfl⟩ := hnew.opened new List.mem_cons_self
  obtain ⟨hne, hkept⟩ := socketAt_of_newlyOpen hnew hsocket
  have hnonblock := h.setNonblock hopen
  have hopen' := (sys.configures_setNonblock new).applied k' hnonblock new
  rw [hopen, Option.map_some, only_self] at hopen'
  have hkept' := (socketAt_of_frame (sys.configures_setNonblock new) k' hne).trans hkept
  have hconnect := h.connect (.unix fsPathname) hopen' rfl ⟨fd, s, hkept', hlistens⟩
  refine ⟨new, ?_⟩
  simp only [createAsyncUnixClientSocket, strlcpy_of_lt hlength, ge_iff_le, if_neg hlength.not_ge]
  rw [acquire, show socketType true = .stream from rfl, hcall]
  show (((sys.setNonblock new).orElse _ _) k').1 = _
  rw [orElse_of_succeeds hnonblock, orElse_of_succeeds hconnect]

end Reliable

/-- A client for a path at which nobody listens is turned away. -/
theorem Refusing.unixClient_refused (h : sys.Refusing) {fsPathname : List UInt8}
    (hlength : fsPathname.length < sunPathSize) (hnobody : ¬ k.Listens (.unix fsPathname)) :
    (sys.createAsyncUnixClientSocket fsPathname true k).1 = none := by
  simp only [createAsyncUnixClientSocket, strlcpy_of_lt hlength, ge_iff_le, if_neg hlength.not_ge]
  rw [acquire, show socketType true = .stream from rfl]
  rcases sys.callSocket_cases .unix .stream k with ⟨k', hcall, -⟩ | ⟨new, k', hcall, hnew⟩
  · rw [hcall]
  · rw [hcall]
    obtain ⟨_, hopen, rfl⟩ := hnew.opened new List.mem_cons_self
    show (((sys.setNonblock new).orElse _ _) k').1 = _
    cases hnonblock : (sys.setNonblock new k').1 with
    | false => exact orElse_of_fails hnonblock
    | true =>
      have hopen' := (sys.configures_setNonblock new).applied k' hnonblock new
      rw [hopen, Option.map_some, only_self] at hopen'
      have hsocket' := socketAt_eq hopen' rfl
      have hnobody' : ¬ (sys.setNonblock new k').2.Listens (.unix fsPathname) := by
        rintro ⟨fd, s, hsocket, hlistens⟩
        by_cases hfd : fd = new
        · rw [hfd, hsocket'] at hsocket
          cases hsocket
          exact Option.some_ne_none _ hlistens.bound.symm
        · rw [socketAt_of_frame (sys.configures_setNonblock new) k' hfd, Kernel.socketAt,
            hnew.others fd (mt List.mem_singleton.mp hfd)] at hsocket
          exact hnobody ⟨fd, s, hsocket, hlistens⟩
      have hconnect : (sys.connect new (.unix fsPathname) (sys.setNonblock new k').2).1 = false :=
        (connect_new (.unix fsPathname) hopen' rfl).trans
          (h.refuses _ new (.unix fsPathname) hsocket' hnobody')
      rw [orElse_of_succeeds hnonblock, orElse_of_fails hconnect]

/-- What a successful call returns is open and as it should be. -/
theorem exists_descriptor {result : Option ℤ × Kernel} {Good : Descriptor → Prop}
    (h : AllOrNothing k (result.1.map fun fd ↦ [fd]) result.2 Good) (hsome : result.1 = some fd) :
    ∃ d, result.2.descriptors fd = some d ∧ Good d :=
  (h.all [fd] (by rw [hsome, Option.map_some])).opened fd List.mem_cons_self

theorem exists_socket {result : Option ℤ × Kernel} {s : Socket}
    (h : AllOrNothing k (result.1.map fun fd ↦ [fd]) result.2 fun d ↦ d.socket = some s)
    (hsome : result.1 = some fd) : result.2.socketAt fd = some s := by
  obtain ⟨d, hopen, hsocket⟩ := exists_descriptor h hsome
  exact socketAt_eq hopen hsocket

/-- A client that connects to the address of a listening socket succeeds. -/
theorem Reliable.connected (h : sys.Reliable) {client : StreamClient} {s : Socket} {addr : Address}
    (haddress : client.address sys = some addr) (hopens : (sys.socket k addr.family .stream).isSome)
    (hsocket : k.socketAt fd = some s) (hlistens : s.ListensAt addr) :
    ∃ fd', (client.run sys k).1 = some fd' ∧ (client.run sys k).2.Connected fd' addr := by
  cases client with
  | tcpClient servIp servPort =>
    obtain ⟨ip, hip, rfl⟩ := Option.map_eq_some_iff.mp haddress
    have hrun : (StreamClient.tcpClient servIp servPort).run sys k =
        sys.createAsyncClientSocket ⟨htons (servPort.setWidth 16), ip⟩ true k := by
      show sys.createAsyncClientSocketAt servIp servPort true k = _
      rw [createAsyncClientSocketAt, hip]
    rw [hrun]
    obtain ⟨fd', hsome⟩ := h.client_succeeds hopens hsocket hlistens
    exact ⟨fd', hsome, _, exists_socket (sys.client_leaves _ k) hsome, rfl⟩
  | tcpClientOn servAddr =>
    obtain rfl := Option.some.inj haddress
    obtain ⟨fd', hsome⟩ := h.client_succeeds hopens hsocket hlistens
    exact ⟨fd', hsome, _, exists_socket (sys.client_leaves _ k) hsome, rfl⟩
  | unixTcpClient fsPathname =>
    obtain ⟨hlength, haddr⟩ := Option.ite_none_right_eq_some.mp haddress
    obtain rfl := Option.some.inj haddr
    obtain ⟨fd', hsome⟩ := h.unixClient_succeeds hlength hopens hsocket hlistens
    exact ⟨fd', hsome, _, exists_socket (sys.unixClient_leaves hlength k) hsome, rfl⟩

/-! ### Servers -/

/-- The socket of a TCP server for an address, which was bound in a certain state. -/
def tcpSocket (sys : System) (k : Kernel) (bindAddr : SockaddrIn) : Socket :=
  ⟨.inet, .stream, true, some (sys.localAddress k (.inet bindAddr)), true, none⟩

/-- The socket of a server for a path. -/
def unixSocket (sunPath : List UInt8) : Socket :=
  ⟨.unix, .stream, false, some (.unix sunPath), false, none⟩

theorem htons_eq_zero_iff (port : BitVec 16) : htons port = 0 ↔ port = 0 := by
  have hlt := port.isLt
  rw [htons, ← BitVec.toNat_inj, ← BitVec.toNat_inj, BitVec.toNat_append]
  simp only [BitVec.extractLsb'_toNat, Nat.shiftRight_eq_div_pow, Nat.shiftLeft_eq,
    Nat.or_eq_zero_iff, BitVec.toNat_ofNat, BitVec.ofNat_eq_ofNat, Nat.zero_mod]
  omega

/-- A socket listens at the address that was asked for exactly if a port was. -/
theorem listensAt_tcpSocket_iff (sys : System) (k : Kernel) (bindAddr : SockaddrIn) :
    (sys.tcpSocket k bindAddr).ListensAt (.inet bindAddr) ↔ bindAddr.sinPort ≠ 0 := by
  constructor
  · rintro ⟨-, hbound, -⟩ hzero
    have hport := (Option.some.inj hbound : sys.localAddress k (.inet bindAddr) = .inet bindAddr)
    rw [localAddress, if_pos hzero] at hport
    have hsame : (sys.anyPort k).1 = bindAddr.sinPort :=
      congrArg SockaddrIn.sinPort (Address.inet.inj hport)
    exact (sys.anyPort k).2 (hsame.trans hzero)
  · intro hport
    refine ⟨rfl, ?_, rfl⟩
    rw [tcpSocket, localAddress, if_neg hport]

/-- A server that was created by `tcpServer` is bound in some state to the address that it was asked
for, and listening. -/
theorem run_tcpServer {server : StreamServer} (hinet : server.IsInet)
    (hsome : (server.run sys k).1 = some fd) : ∃ bindAddr k',
      server.address sys = some (.inet bindAddr) ∧ (server.NamesPort ↔ bindAddr.sinPort ≠ 0) ∧
        (server.run sys k).2.socketAt fd = some (sys.tcpSocket k' bindAddr) := by
  have hcreated : ∀ bindAddr, server.run sys k = sys.createAsyncServerSocket bindAddr true k →
      ∃ k', (server.run sys k).2.socketAt fd = some (sys.tcpSocket k' bindAddr) := by
    intro bindAddr hrun
    rw [hrun] at hsome ⊢
    obtain ⟨d, hopen, k', hsocket⟩ := exists_descriptor (sys.server_leaves bindAddr k) hsome
    exact ⟨k', socketAt_eq hopen hsocket⟩
  cases server with
  | tcpServer bindIp bindPort =>
    have hport := not_congr (htons_eq_zero_iff (bindPort.setWidth 16)).symm
    cases bindIp with
    | none =>
      obtain ⟨k', hsocket⟩ := hcreated _ rfl
      exact ⟨_, k', rfl, hport, hsocket⟩
    | some bindIp =>
      have hrun : (StreamServer.tcpServer (some bindIp) bindPort).run sys k =
          sys.createAsyncServerSocketAt (some bindIp) bindPort true k := rfl
      cases hip : sys.inetPton bindIp with
      | none =>
        rw [hrun, createAsyncServerSocketAt, hip] at hsome
        cases hsome
      | some ip =>
        obtain ⟨k', hsocket⟩ := hcreated ⟨htons (bindPort.setWidth 16), ip⟩
          (by rw [hrun, createAsyncServerSocketAt, hip])
        exact ⟨_, k', congrArg (Option.map _) hip, hport, hsocket⟩
  | tcpServerOn bindAddr =>
    obtain ⟨k', hsocket⟩ := hcreated bindAddr rfl
    exact ⟨bindAddr, k', rfl, Iff.rfl, hsocket⟩
  | unixTcpServer fsPathname => exact absurd hinet id

/-- A server for a path is bound to it and not listening. -/
theorem run_unixTcpServer {fsPathname : List UInt8}
    (hsome : ((StreamServer.unixTcpServer fsPathname).run sys k).1 = some fd) :
    ((StreamServer.unixTcpServer fsPathname).run sys k).2.socketAt fd =
      some (unixSocket fsPathname) := by
  by_cases hlength : fsPathname.length < sunPathSize
  · exact exists_socket (sys.unixServer_leaves hlength k) hsome
  · have hlong : (strlcpy fsPathname sunPathSize).2 ≥ sunPathSize := by
      rw [strlcpy_eq]
      exact not_lt.mp hlength
    have hnone : (StreamServer.unixTcpServer fsPathname).run sys k = (none, k) := if_pos hlong
    rw [hnone] at hsome
    cases hsome

/-- A server that has been created accepts connections at its address if and only if it is one for
TCP and was asked for a certain port: the socket of a server for a path is bound, but does not
listen, and port 0 is no port that a socket is bound to. -/
theorem server_accepts_iff (sys : System) (server : StreamServer) (k : Kernel) (fd : ℤ)
    (hsome : (server.run sys k).1 = some fd) :
    (∃ addr, server.address sys = some addr ∧ Accepts (server.run sys k).2 fd addr) ↔
      server.IsInet ∧ server.NamesPort := by
  by_cases hinet : server.IsInet
  · obtain ⟨bindAddr, k', haddress, hnames, hsocket⟩ := run_tcpServer hinet hsome
    rw [and_iff_right hinet, hnames, ← sys.listensAt_tcpSocket_iff k' bindAddr]
    constructor
    · rintro ⟨addr, haddr, ⟨s, hs, hlistens⟩, -⟩
      obtain rfl := Option.some.inj (haddress.symm.trans haddr)
      rwa [Option.some.inj (hsocket.symm.trans hs)]
    · exact fun hlistens ↦ ⟨_, haddress, ⟨_, hsocket, hlistens⟩,
        fun _ _ _ hreliable hclient hkept hopens ↦
          hreliable.connected hclient hopens (hkept.trans hsocket) hlistens⟩
  · refine iff_of_false ?_ fun h ↦ hinet h.1
    rintro ⟨addr, -, ⟨s, hs, hlistens⟩, -⟩
    cases server with
    | unixTcpServer fsPathname =>
      rw [run_unixTcpServer hsome] at hs
      cases hs
      exact Bool.false_ne_true hlistens.listening
    | _ => exact hinet trivial

/-! ### An ideal machine -/

section Ideal

open Classical

/-- A machine on which nothing fails but a connection to an address at which nobody listens. -/
noncomputable def ideal : System :=
  { small fun _ ↦ false with
    allows := fun k call ↦
      match call with
      | .connect _ addr => decide (k.Listens addr)
      | _ => true }

theorem ideal_reliable : ideal.Reliable where
  reads _ _ := rfl
  writes _ _ _ := rfl
  connects _ _ _ _ := decide_eq_true

theorem ideal_refusing : ideal.Refusing where
  refuses _ _ _ _ := decide_eq_false

end Ideal

/-- Nothing is open. -/
def nothingOpen : Kernel := ⟨fun _ ↦ none, []⟩

/-- `"127.0.0.1"`. -/
def localhost : List UInt8 := [49, 50, 55, 46, 48, 46, 48, 46, 49]

/-- A client connects to a server for TCP. -/
theorem server_accepts_iff_localhost : ∃ k fd,
    (StreamServer.tcpServer (some localhost) 80).run ideal nothingOpen = (some 0, k) ∧
      ((StreamClient.tcpClient localhost 80).run ideal k).1 = some fd ∧
      ((StreamClient.tcpClient localhost 80).run ideal k).2.Connected fd
        (.inet ⟨htons 80, 0x0100007f⟩) := by
  have hsome : ((StreamServer.tcpServer (some localhost) 80).run ideal nothingOpen).1 =
      some 0 := rfl
  obtain ⟨addr, haddress, haccepts⟩ :=
    (server_accepts_iff ideal (.tcpServer (some localhost) 80) nothingOpen 0 hsome).mpr
      ⟨trivial, show (80 : BitVec 32).setWidth 16 ≠ (0 : BitVec 16) by decide⟩
  obtain rfl : Address.inet ⟨htons 80, 0x0100007f⟩ = addr := Option.some.inj haddress
  obtain ⟨fd, hfd, hconnected⟩ := haccepts.connects ideal (.tcpClient localhost 80) _
    ideal_reliable rfl rfl rfl
  exact ⟨_, fd, Prod.ext hsome rfl, hfd, hconnected⟩

/-- `"/s"`. -/
def socketPath : List UInt8 := [47, 115]

/-- A server for a path is bound to it and not listening, and a client for that path is turned
away. -/
theorem not_accepts_unixTcpServer :
    let server := StreamServer.unixTcpServer socketPath
    let result := server.run ideal nothingOpen
    result.1 = some 0 ∧ ((StreamClient.unixTcpClient socketPath).run ideal result.2).1 = none ∧
      ¬ ∃ addr, server.address ideal = some addr ∧ Accepts result.2 0 addr := by
  intro server result
  have hsome : result.1 = some 0 := rfl
  have hsocket : result.2.socketAt 0 = some (unixSocket socketPath) := rfl
  have hlength : socketPath.length < sunPathSize := by decide
  have hothers : ∀ fd, fd ≠ 0 → result.2.socketAt fd = none := by
    intro fd hfd
    have hleaves := (ideal.unixServer_leaves hlength nothingOpen).all [0] rfl
    have hnone : result.2.descriptors fd = none := hleaves.others fd (mt List.mem_singleton.mp hfd)
    rw [Kernel.socketAt, hnone, Option.bind_none]
  have hdeaf : ∀ addr fd s, result.2.socketAt fd = some s → ¬ s.ListensAt addr := by
    intro addr fd s hs hlistens
    by_cases hfd : fd = 0
    · rw [hfd, hsocket] at hs
      cases hs
      exact Bool.false_ne_true hlistens.listening
    · rw [hothers fd hfd] at hs
      cases hs
  refine ⟨hsome, ?_, ?_⟩
  · exact ideal_refusing.unixClient_refused hlength
      fun ⟨fd, s, hs, hlistens⟩ ↦ hdeaf _ fd s hs hlistens
  · rintro ⟨addr, -, ⟨s, hs, hlistens⟩, -⟩
    exact hdeaf addr 0 s hs hlistens

end System

end Nebula.AsyncIo
