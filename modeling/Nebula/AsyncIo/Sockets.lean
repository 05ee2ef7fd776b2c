import Nebula.AsyncIo.Kernel
import Nebula.Strings.Strlcpy

/-!
The functions of `AsyncIo` that open descriptors: `pipe2`, `accept4`, and the servers and clients
for TCP, UDP and the two kinds of Unix sockets. Each function checks its arguments, makes one call
that opens descriptors, configures these in several steps, and closes them when one of the steps
fails.

`ERROR` is `none`, or `false` where the function returns nothing else.
-/

set_option autoImplicit false
set_option relaxedAutoImplicit false

namespace Nebula.AsyncIo

open Nebula.Library Nebula.Strings Attempt

abbrev aioNone : BitVec 32 := 0x00
abbrev aioCloexec : BitVec 32 := 0x01
abbrev aioNonblock : BitVec 32 := 0x02

/-- `SOMAXCONN`. -/
abbrev somaxconn : ℕ := 4096

/-- `sizeof(serv_addr.sun_path)`. -/
abbrev sunPathSize : ℕ := 108

/-- `htons`, on a machine that stores the low byte first. -/
def htons (port : BitVec 16) : BitVec 16 := port.extractLsb' 0 8 ++ port.extractLsb' 8 8

/-- `htonl(INADDR_ANY)`. -/
abbrev inaddrAny : BitVec 32 := 0

/-- The flags that `pipe2` and `accept4` know. -/
def UnknownFlags (flags : BitVec 32) : Prop := flags &&& ~~~(aioCloexec ||| aioNonblock) ≠ 0

instance (flags : BitVec 32) : Decidable (UnknownFlags flags) := inferInstanceAs (Decidable (_ ≠ _))

/-- `flags & bit`, as a condition. -/
def requested (flags bit : BitVec 32) : Bool := decide (flags &&& bit ≠ 0)

/-- `use_tcp ? SOCK_STREAM : SOCK_DGRAM`. -/
def socketType (useTcp : Bool) : SocketType := if useTcp then .stream else .dgram

namespace System

/-! ### Flags -/

def setNonblock (sys : System) (fd : ℤ) : Attempt Kernel :=
  reading (sys.fcntlGetfl fd) fun flags ↦ sys.fcntlSetfl fd (flags ||| oNonblock)

def setCloseOnExec (sys : System) (fd : ℤ) : Attempt Kernel :=
  reading (sys.fcntlGetfd fd) fun flags ↦ sys.fcntlSetfd fd (flags ||| fdCloexec)

def setReuseAddr (sys : System) (fd : ℤ) : Attempt Kernel := sys.setsockoptReuseAddr fd

/-! ### Pipes and connections that are accepted -/

/-- The result, what is in `pipefd` afterwards, and the kernel. -/
def pipe2 (sys : System) (pipefd : ℤ × ℤ) (flags : BitVec 32) (k : Kernel) :
    Bool × (ℤ × ℤ) × Kernel :=
  if UnknownFlags flags then (false, pipefd, k)
  else
    match sys.callPipe k with
    | (none, k) => (false, pipefd, k)
    | (some fds, k) =>
        let cleanUp := fun k : Kernel ↦ (k.close fds.1).close fds.2
        let nonblock := onlyIf (requested flags aioNonblock)
          (both (sys.setNonblock fds.1) (sys.setNonblock fds.2))
        let closeOnExec := onlyIf (requested flags aioCloexec)
          (both (sys.setCloseOnExec fds.1) (sys.setCloseOnExec fds.2))
        let (done, k) := nonblock.orElse cleanUp
          (closeOnExec.orElse cleanUp fun k ↦ (some (), k)) k
        (done.isSome, fds, k)

/-- The result, the buffers of the caller afterwards, and the kernel. -/
def accept4 (sys : System) (tcpServerSockfd : ℤ) (client : ClientAddr) (flags : BitVec 32)
    (k : Kernel) : Option ℤ × ClientAddr × Kernel :=
  if UnknownFlags flags then (none, client, k)
  else
    let origLen := client.len
    match sys.callAccept tcpServerSockfd client k with
    | (none, client, k) => (none, client, k)
    | (some fd, client, k) =>
        let configure := both (onlyIf (requested flags aioNonblock) (sys.setNonblock fd))
          (onlyIf (requested flags aioCloexec) (sys.setCloseOnExec fd))
        match configure.orElse (fun k ↦ k.close fd) (fun k ↦ (some fd, k)) k with
        | (none, k) => (none, { client with len := origLen }, k)
        | (some fd, k) => (some fd, client, k)

/-! ### Internet sockets -/

def createAsyncServerSocket (sys : System) (bindAddr : SockaddrIn) (useTcp : Bool) :
    Kernel → Option ℤ × Kernel :=
  acquire (sys.callSocket .inet (socketType useTcp)) fun fd ↦
    let cleanUp := fun k : Kernel ↦ k.close fd
    (both (sys.setNonblock fd) (sys.setReuseAddr fd)).orElse cleanUp
      ((sys.bind fd (.inet bindAddr)).orElse cleanUp
        ((onlyIf useTcp (sys.listen fd somaxconn)).orElse cleanUp fun k ↦ (some fd, k)))

/-- The server for an address that is given as a text; `NULL` is any address. -/
def createAsyncServerSocketAt (sys : System) (bindIp : Option (List UInt8)) (bindPort : BitVec 32)
    (useTcp : Bool) (k : Kernel) : Option ℤ × Kernel :=
  match bindIp with
  | none => sys.createAsyncServerSocket ⟨htons (bindPort.setWidth 16), inaddrAny⟩ useTcp k
  | some bindIp =>
      match sys.inetPton bindIp with
      | none => (none, k)
      | some addr => sys.createAsyncServerSocket ⟨htons (bindPort.setWidth 16), addr⟩ useTcp k

def createAsyncClientSocket (sys : System) (servAddr : SockaddrIn) (useTcp : Bool) :
    Kernel → Option ℤ × Kernel :=
  acquire (sys.callSocket .inet (socketType useTcp)) fun fd ↦
    let cleanUp := fun k : Kernel ↦ k.close fd
    (onlyIf useTcp (sys.connect fd (.inet servAddr))).orElse cleanUp
      ((sys.setNonblock fd).orElse cleanUp fun k ↦ (some fd, k))

/-- The client for an address that is given as a text. -/
def createAsyncClientSocketAt (sys : System) (servIp : List UInt8) (servPort : BitVec 32)
    (useTcp : Bool) (k : Kernel) : Option ℤ × Kernel :=
  match sys.inetPton servIp with
  | none => (none, k)
  | some addr => sys.createAsyncClientSocket ⟨htons (servPort.setWidth 16), addr⟩ useTcp k

/-! ### Unix sockets -/

def createAsyncUnixServerSocket (sys : System) (fsPathname : List UInt8) (useTcp : Bool)
    (k : Kernel) : Option ℤ × Kernel :=
  let (sunPath, length) := strlcpy fsPathname sunPathSize
  if length ≥ sunPathSize then (none, k)
  else
    acquire (sys.callSocket .unix (socketType useTcp)) (fun fd ↦
      let cleanUp := fun k : Kernel ↦ k.close fd
      (sys.setNonblock fd).orElse cleanUp
        ((sys.bind fd (.unix sunPath)).orElse cleanUp fun k ↦ (some fd, k))) k

def createAsyncUnixClientSocket (sys : System) (fsPathname : List UInt8) (useTcp : Bool)
    (k : Kernel) : Option ℤ × Kernel :=
  let (sunPath, length) := strlcpy fsPathname sunPathSize
  if length ≥ sunPathSize then (none, k)
  else
    acquire (sys.callSocket .unix (socketType useTcp)) (fun fd ↦
      let cleanUp := fun k : Kernel ↦ k.close fd
      (sys.setNonblock fd).orElse cleanUp
        ((sys.connect fd (.unix sunPath)).orElse cleanUp fun k ↦ (some fd, k))) k

end System

/-! ### What is called from outside -/

/-- A call of one of the functions that open a socket, with its arguments. -/
inductive Constructor where
  | tcpServer (bindIp : Option (List UInt8)) (bindPort : BitVec 32)
  | tcpServerOn (bindAddr : SockaddrIn)
  | udpServer (bindIp : Option (List UInt8)) (bindPort : BitVec 32)
  | udpServerOn (bindAddr : SockaddrIn)
  | tcpClient (servIp : List UInt8) (servPort : BitVec 32)
  | tcpClientOn (servAddr : SockaddrIn)
  | udpClient (servIp : List UInt8) (servPort : BitVec 32)
  | udpClientOn (servAddr : SockaddrIn)
  | unixTcpServer (fsPathname : List UInt8)
  | unixUdpServer (fsPathname : List UInt8)
  | unixTcpClient (fsPathname : List UInt8)
  | unixUdpClient (fsPathname : List UInt8)
  deriving DecidableEq

def Constructor.run (sys : System) : Constructor → Kernel → Option ℤ × Kernel
  | .tcpServer bindIp bindPort => sys.createAsyncServerSocketAt bindIp bindPort true
  | .tcpServerOn bindAddr => sys.createAsyncServerSocket bindAddr true
  | .udpServer bindIp bindPort => sys.createAsyncServerSocketAt bindIp bindPort false
  | .udpServerOn bindAddr => sys.createAsyncServerSocket bindAddr false
  | .tcpClient servIp servPort => sys.createAsyncClientSocketAt servIp servPort true
  | .tcpClientOn servAddr => sys.createAsyncClientSocket servAddr true
  | .udpClient servIp servPort => sys.createAsyncClientSocketAt servIp servPort false
  | .udpClientOn servAddr => sys.createAsyncClientSocket servAddr false
  | .unixTcpServer fsPathname => sys.createAsyncUnixServerSocket fsPathname true
  | .unixUdpServer fsPathname => sys.createAsyncUnixServerSocket fsPathname false
  | .unixTcpClient fsPathname => sys.createAsyncUnixClientSocket fsPathname true
  | .unixUdpClient fsPathname => sys.createAsyncUnixClientSocket fsPathname false

end Nebula.AsyncIo
