import Nebula.Library.Attempt
import Mathlib.Logic.Function.Basic

/-!
Open descriptors and the system calls that `AsyncIo` makes on them. The kernel has a table of open
descriptors, each with the flags that `fcntl` reads and writes and, for a socket, how far it has
got: bound, listening, connected. A `System` decides which calls fail and which descriptors the
others hand out; it may decide by everything that has been called before. It hands out descriptors
that are not open, and a call that fails changes nothing.

A call that returns a negative number is one that returns `none`, or `false` where it returns
nothing else.
-/

set_option autoImplicit false
set_option relaxedAutoImplicit false

namespace Nebula.AsyncIo

open Nebula.Library

/-- `struct sockaddr_in`, as far as it is used. -/
structure SockaddrIn where
  sinPort : BitVec 16
  sinAddr : BitVec 32
  deriving DecidableEq

/-- An address of the family `AF_INET`, or the `sun_path` of one of the family `AF_UNIX`. -/
inductive Address where
  | inet (addr : SockaddrIn)
  | unix (sunPath : List UInt8)
  deriving DecidableEq

inductive Family where
  | inet
  | unix
  deriving DecidableEq

def Address.family : Address → Family
  | inet _ => .inet
  | unix _ => .unix

inductive SocketType where
  | stream
  | dgram
  deriving DecidableEq

/-- A socket. -/
structure Socket where
  family : Family
  type : SocketType
  reuseAddr : Bool
  bound : Option Address
  listening : Bool
  peer : Option Address
  deriving DecidableEq

/-- A socket that has just been opened. -/
def Socket.new (family : Family) (type : SocketType) : Socket :=
  ⟨family, type, false, none, false, none⟩

/-- An open descriptor: the flags that `F_GETFL` and `F_GETFD` read, and the socket if it is one. -/
structure Descriptor where
  statusFlags : BitVec 32
  descriptorFlags : BitVec 32
  socket : Option Socket
  deriving DecidableEq

abbrev oRdonly : BitVec 32 := 0x000
abbrev oWronly : BitVec 32 := 0x001
abbrev oRdwr : BitVec 32 := 0x002
abbrev oNonblock : BitVec 32 := 0x800
abbrev fdCloexec : BitVec 32 := 0x1

namespace Descriptor

def Nonblocking (d : Descriptor) : Prop := d.statusFlags &&& oNonblock ≠ 0

def CloseOnExec (d : Descriptor) : Prop := d.descriptorFlags &&& fdCloexec ≠ 0

instance (d : Descriptor) : Decidable d.Nonblocking := inferInstanceAs (Decidable (_ ≠ _))

instance (d : Descriptor) : Decidable d.CloseOnExec := inferInstanceAs (Decidable (_ ≠ _))

/-- One end of a new pipe. -/
def pipeEnd (accessMode : BitVec 32) : Descriptor := ⟨accessMode, 0, none⟩

/-- A descriptor for a new socket. -/
def ofSocket (socket : Socket) : Descriptor := ⟨oRdwr, 0, some socket⟩

/-- A change of the socket; there is none without a socket. -/
def onSocket (change : Socket → Socket) (d : Descriptor) : Option Descriptor :=
  d.socket.map fun socket ↦ { d with socket := some (change socket) }

end Descriptor

/-- A call, with the arguments it was made with. -/
inductive SysCall where
  | pipe
  | socket (family : Family) (type : SocketType)
  | accept (fd : ℤ)
  | fcntlGetfl (fd : ℤ)
  | fcntlSetfl (fd : ℤ) (flags : BitVec 32)
  | fcntlGetfd (fd : ℤ)
  | fcntlSetfd (fd : ℤ) (flags : BitVec 32)
  | setReuseAddr (fd : ℤ)
  | bind (fd : ℤ) (addr : Address)
  | listen (fd : ℤ) (backlog : ℕ)
  | connect (fd : ℤ) (addr : Address)
  | close (fd : ℤ)
  deriving DecidableEq

/-- The open descriptors, and the calls that have been made, the last one first. -/
structure Kernel where
  descriptors : ℤ → Option Descriptor
  log : List SysCall

namespace Kernel

/-- The number is one that a call may hand out. -/
def Free (k : Kernel) (fd : ℤ) : Prop := 0 ≤ fd ∧ k.descriptors fd = none

def record (k : Kernel) (call : SysCall) : Kernel := { k with log := call :: k.log }

def put (k : Kernel) (fd : ℤ) (d : Descriptor) : Kernel :=
  { k with descriptors := Function.update k.descriptors fd (some d) }

def close (k : Kernel) (fd : ℤ) : Kernel :=
  { k.record (.close fd) with descriptors := Function.update k.descriptors fd none }

@[simp] theorem descriptors_record (k : Kernel) (call : SysCall) :
    (k.record call).descriptors = k.descriptors := rfl

theorem descriptors_put (k : Kernel) (fd : ℤ) (d : Descriptor) (i : ℤ) :
    (k.put fd d).descriptors i = if i = fd then some d else k.descriptors i :=
  Function.update_apply ..

theorem descriptors_close (k : Kernel) (fd i : ℤ) :
    (k.close fd).descriptors i = if i = fd then none else k.descriptors i :=
  Function.update_apply ..

end Kernel

/-- A connection that is accepted: the descriptor for it, the peer, and what is written to the
buffers of the caller. -/
structure Accepted (k : Kernel) where
  fd : { fd : ℤ // k.Free fd }
  peer : Address
  clientAddr : List UInt8
  clientAddrLen : BitVec 32

/-- The buffers for the address of a client; `none` is `NULL`. -/
structure ClientAddr where
  addr : Option (List UInt8)
  len : Option (BitVec 32)
  deriving DecidableEq

/-- What is behind the calls: which of them succeed and what they hand out, the port that a socket
gets which is bound to port 0, and `inet_pton`. -/
structure System where
  allows : Kernel → SysCall → Bool
  pipe : (k : Kernel) → Option { fds : ℤ × ℤ // (k.Free fds.1 ∧ k.Free fds.2) ∧ fds.1 ≠ fds.2 }
  socket : (k : Kernel) → Family → SocketType → Option { fd : ℤ // k.Free fd }
  accept : (k : Kernel) → ℤ → Option (Accepted k)
  anyPort : Kernel → { port : BitVec 16 // port ≠ 0 }
  inetPton : List UInt8 → Option (BitVec 32)

/-! ### The calls -/

namespace System

def callPipe (sys : System) (k : Kernel) : Option (ℤ × ℤ) × Kernel :=
  match sys.pipe k with
  | none => (none, k.record .pipe)
  | some fds =>
      (some fds.1, ((k.record .pipe).put fds.1.1 (.pipeEnd oRdonly)).put fds.1.2 (.pipeEnd oWronly))

def callSocket (sys : System) (family : Family) (type : SocketType) (k : Kernel) :
    Option ℤ × Kernel :=
  match sys.socket k family type with
  | none => (none, k.record (.socket family type))
  | some fd =>
      (some fd.1, (k.record (.socket family type)).put fd.1
        (.ofSocket (.new family type)))

/-- The new socket does not take over the flags of the listening one. -/
def callAccept (sys : System) (sockfd : ℤ) (client : ClientAddr) (k : Kernel) :
    Option ℤ × ClientAddr × Kernel :=
  match (k.descriptors sockfd).bind Descriptor.socket, sys.accept k sockfd with
  | some server, some accepted =>
      (some accepted.fd.1,
        ⟨client.addr.map fun _ ↦ accepted.clientAddr,
          client.len.map fun _ ↦ accepted.clientAddrLen⟩,
        (k.record (.accept sockfd)).put accepted.fd.1
          (.ofSocket { server with listening := false, peer := some accepted.peer }))
  | _, _ => (none, client, k.record (.accept sockfd))

/-- A call that changes an open descriptor, where it applies. -/
def change (sys : System) (call : SysCall) (fd : ℤ) (effect : Descriptor → Option Descriptor) :
    Attempt Kernel := fun k ↦
  match (k.descriptors fd).bind effect with
  | some d =>
      if sys.allows k call then (true, (k.record call).put fd d) else (false, k.record call)
  | none => (false, k.record call)

/-- A call that reads something from an open descriptor. -/
def get (sys : System) (call : SysCall) (fd : ℤ) (flags : Descriptor → BitVec 32) (k : Kernel) :
    Option (BitVec 32) × Kernel :=
  (if sys.allows k call then (k.descriptors fd).map flags else none, k.record call)

def fcntlGetfl (sys : System) (fd : ℤ) : Kernel → Option (BitVec 32) × Kernel :=
  sys.get (.fcntlGetfl fd) fd Descriptor.statusFlags

def fcntlSetfl (sys : System) (fd : ℤ) (flags : BitVec 32) : Attempt Kernel :=
  sys.change (.fcntlSetfl fd flags) fd fun d ↦ some { d with statusFlags := flags }

def fcntlGetfd (sys : System) (fd : ℤ) : Kernel → Option (BitVec 32) × Kernel :=
  sys.get (.fcntlGetfd fd) fd Descriptor.descriptorFlags

def fcntlSetfd (sys : System) (fd : ℤ) (flags : BitVec 32) : Attempt Kernel :=
  sys.change (.fcntlSetfd fd flags) fd fun d ↦ some { d with descriptorFlags := flags }

/-- `setsockopt` with a nonzero `SO_REUSEADDR`. -/
def setsockoptReuseAddr (sys : System) (fd : ℤ) : Attempt Kernel :=
  sys.change (.setReuseAddr fd) fd
    (Descriptor.onSocket fun socket ↦ { socket with reuseAddr := true })

/-- The address that a socket gets when it is bound: port 0 stands for any port. -/
def localAddress (sys : System) (k : Kernel) : Address → Address
  | .inet addr =>
      .inet (if addr.sinPort = 0 then { addr with sinPort := (sys.anyPort k).1 } else addr)
  | .unix sunPath => .unix sunPath

def bind (sys : System) (fd : ℤ) (addr : Address) : Attempt Kernel := fun k ↦
  sys.change (.bind fd addr) fd
    (Descriptor.onSocket fun socket ↦ { socket with bound := some (sys.localAddress k addr) }) k

def listen (sys : System) (fd : ℤ) (backlog : ℕ) : Attempt Kernel :=
  sys.change (.listen fd backlog) fd
    (Descriptor.onSocket fun socket ↦ { socket with listening := true })

def connect (sys : System) (fd : ℤ) (addr : Address) : Attempt Kernel :=
  sys.change (.connect fd addr) fd
    (Descriptor.onSocket fun socket ↦ { socket with peer := some addr })

/-! ### What the calls do -/

variable {sys : System} {k k' : Kernel} {fd : ℤ}

/-- The effect of a call, on one descriptor. -/
def only (fd : ℤ) (effect : Descriptor → Descriptor) (i : ℤ) : Descriptor → Descriptor :=
  if i = fd then effect else id

theorem configures_change (call : SysCall) (fd : ℤ) (effect : Descriptor → Option Descriptor) :
    Attempt.Configures Kernel.descriptors {fd} (fun _ ↦ only fd fun d ↦ (effect d).getD d)
      (sys.change call fd effect) where
  frame k i hi := by
    unfold change
    split
    · split_ifs
      · exact (Kernel.descriptors_put ..).trans (if_neg hi)
      · rfl
    · rfl
  applied k := by
    unfold change
    split
    · next d hd =>
      split_ifs
      · intro _ i
        obtain ⟨d', hopen, heffect⟩ := Option.bind_eq_some_iff.mp hd
        rw [Kernel.descriptors_put, only]
        split_ifs with hi
        · rw [hi, hopen, Option.map_some, heffect]
          rfl
        · exact (Option.map_id_apply).symm
      · exact fun hfails ↦ absurd hfails (by simp)
    · exact fun hfails ↦ absurd hfails (by simp)

end System

end Nebula.AsyncIo
