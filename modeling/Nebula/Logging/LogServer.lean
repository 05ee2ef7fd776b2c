import Nebula.Async.EventLoop
import Nebula.Library.Transition
import Nebula.Logging.FileHandle

/-!
The log server while it serves: the server thread in the event loop, the datagram socket, the
clients that send to it, and the thread that sets the stop flag. `Session` is the state of all of
them, and `Session.next` is what one action of one of them does.

The server thread takes one step at a time, so that the others can act between any two of them: it
calls `epoll_wait`, receives one datagram, reads the clock, looks at one time event, or reads the
stop flag. Its tables are those of `AsyncEvent`, and the results of its two callbacks are taken into
account there as the event loop does it.
-/

set_option autoImplicit false
set_option relaxedAutoImplicit false

namespace Nebula.Logging

open Nebula.Library Nebula.Async FdTable

abbrev defaultCheckIntervalMs : Mask := 1000

abbrev maxDgramLength : ℕ := 65536

/-- A datagram of a client. It is not empty, and the buffer of `LogHandle::log` is as long as the
one of `recvDomainSocketMessage`. -/
structure Datagram where
  bytes : Bytes
  bytes_ne : bytes ≠ []
  length_le : bytes.length ≤ maxDgramLength

/-! ### The server's callbacks -/

/-- `recvDomainSocketMessage`, as a function pointer. -/
abbrev recvProc : Pointer := 1

/-- `checkStopFlag`, as a function pointer. -/
abbrev stopProc : Pointer := 2

/-- `this`. -/
abbrev server : Pointer := 3

/-- The start-up calls of `routine` on the event loop: the socket is monitored for input, and the
stop flag is going to be checked. -/
def register (ae : AsyncEvent) (kernel : InterestSet) (domainFd now : ℤ) : Option AsyncEvent :=
  match ae.fds.addFdEvent kernel domainFd Mask.readable recvProc server null null with
  | (.error, _) => none
  | (.ok, fds, _) =>
      match ae.times.addTimeEvent now defaultCheckIntervalMs stopProc server with
      | (.error, _) => none
      | (.ok, times) => some { ae with fds := fds, times := times }

/-! ### The state -/

/-- A call of `FileHandle::writeMessage`: whether it is for a datagram, in
`recvDomainSocketMessage`, or for a message of the server, in `writeLogMessage`; the message, the
result of `write`, and the system calls that were made. -/
structure Writing where
  fromClient : Bool
  message : Bytes
  result : ℤ
  calls : List (FileCall Bytes)

/-- Where the server thread is. -/
inductive Position where
  /-- In `routine`, in front of `setReadyToServe`. -/
  | starting
  /-- At the loop test of `eventLoop`. -/
  | loopTest
  /-- At the loop test of `processReadyFds`. -/
  | readyFds (idx : ℤ)
  /-- In `epoll_wait`, which returns at the given time at the latest. -/
  | epollWait (latest : Option ℤ)
  /-- In `recvDomainSocketMessage`, in front of `recvfrom`; it was called from the given slot of the
  ready list, or for the event that `epoll_wait` returned. -/
  | receiving (slot : Option ℤ)
  /-- In `processTimeEvents`, in front of reading the clock. -/
  | readingClock
  /-- At the loop test of `processTimeEvents`. -/
  | timeEvents (now i : ℤ)
  /-- In `checkStopFlag`, in front of reading the stop flag. -/
  | checkStopFlag (now i : ℤ)
  /-- `routine` has returned. -/
  | returned
  deriving DecidableEq

/-- The server, its socket and its clients. `readable` says that a datagram has arrived since
`epoll_wait` has last reported the socket, which is monitored edge-triggered. The last three fields
are never read by the program: the datagrams that have been sent successfully, those of them that
were sent before the stop flag was set, and the calls of `FileHandle::writeMessage`. -/
structure Session where
  position : Position
  domainFd : ℤ
  ae : AsyncEvent
  fileHandle : FileHandle
  readyToServe : Bool
  stopFlag : Bool
  queue : List Datagram
  readable : Bool
  clock : ℤ
  sent : List Datagram
  sentBeforeStop : List Datagram
  writings : List Writing

/-- What the system answers in a step of the server: whether `epoll_wait` is interrupted, the text
that `writeLogMessage` makes with the time of day, and the result of `write`. -/
structure Answer where
  interrupted : Bool
  text : Bytes
  result : ℤ

namespace Session

/-! ### The server thread -/

def goto (s : Session) (position : Position) : Session := { s with position := position }

/-- The call of `FileHandle::writeMessage` with a message. -/
def writing (s : Session) (fromClient : Bool) (message : Bytes) (result : ℤ) : Writing :=
  ⟨fromClient, message, result, (s.fileHandle.writeMessage message result).2.2⟩

def writeMessage (s : Session) (fromClient : Bool) (message : Bytes) (result : ℤ) : Session :=
  { s with
    fileHandle := (s.fileHandle.writeMessage message result).2.1
    writings := s.writings ++ [s.writing fromClient message result] }

/-- The time at which `epoll_wait` returns at the latest. -/
def latest (s : Session) : Option ℤ :=
  let timeoutMs := s.ae.waitMs (toInt32 (s.ae.msLeft s.clock))
  if timeoutMs < 0 then none else some (s.clock + timeoutMs)

/-- `recvDomainSocketMessage` has received a datagram. -/
def receive (s : Session) (datagram : Datagram) (rest : List Datagram) (result : ℤ) : Session :=
  { s.writeMessage true (datagram.bytes.take maxDgramLength) result with queue := rest }

/-- `recvDomainSocketMessage` has returned `NONE` to where it was called from. -/
def drained (s : Session) : Option ℤ → Session
  | none =>
      { s with
        ae := { s.ae with fds := s.ae.fds.settleFired s.domainFd Mask.readable Mask.none }
        position := .readingClock }
  | some idx =>
      let fd := s.ae.fds.listOfReadyFds.cell idx
      { s with
        ae := { s.ae with fds := s.ae.fds.settleReady idx fd Mask.none }
        position :=
          .readyFds (if guess (s.ae.fds.fdEventList fd) Mask.none ≠ 0 then idx + 1 else idx) }

/-- `checkStopFlag`, called for the event in slot `i`, and what becomes of its result. -/
def checkStopFlag (s : Session) (now i : ℤ) (answer : Answer) : Session :=
  if s.stopFlag then
    let s := s.writeMessage false answer.text answer.result
    { s with
      readyToServe := false
      ae := { s.ae with stopped := true, times := s.ae.times.writeBack i now 0 }
      position := .timeEvents now i }
  else
    { s with
      ae := { s.ae with times := s.ae.times.writeBack i now defaultCheckIntervalMs }
      position := .timeEvents now (i + 1) }

/-- One step of the server thread, unless it waits in `epoll_wait` or has returned. -/
def serverStep (s : Session) (answer : Answer) : Option Session :=
  match s.position with
  | .starting =>
      some { s.writeMessage false answer.text answer.result with
        readyToServe := true
        position := .loopTest }
  | .loopTest => some (s.goto (if s.ae.loopTest then .readyFds 0 else .returned))
  | .readyFds idx =>
      some (s.goto
        (if idx < s.ae.fds.numReadyFds then .receiving (some idx) else .epollWait s.latest))
  | .epollWait latest =>
      if answer.interrupted then some (s.goto .readingClock)
      else if s.readable ∧ s.queue ≠ [] then
        some { s with readable := false, position := .receiving none }
      else if ∃ ms ∈ latest, ms ≤ s.clock then some (s.goto .readingClock)
      else none
  | .receiving slot =>
      match s.queue with
      | datagram :: rest => some (s.receive datagram rest answer.result)
      | [] => some (s.drained slot)
  | .readingClock => some (s.goto (.timeEvents s.clock 0))
  | .timeEvents now i =>
      some (s.goto
        (if i < s.ae.times.usedTimeEvents then
          if (s.ae.times.timeEventList.cell i).whenMs ≤ now then .checkStopFlag now i
          else .timeEvents now (i + 1)
        else .loopTest))
  | .checkStopFlag now i => some (s.checkStopFlag now i answer)
  | .returned => none

/-! ### All parties -/

/-- An action: a client sends a datagram, `destroyInstance` sets the stop flag, time passes, or the
server thread takes a step. -/
inductive Action where
  | send (datagram : Datagram)
  | setStopFlag
  | wait (ms : ℕ)
  | server (answer : Answer)

def next : System Session Action
  | s, .send datagram =>
      some { s with
        queue := s.queue ++ [datagram]
        readable := true
        sent := s.sent ++ [datagram] }
  | s, .setStopFlag =>
      some { s with
        stopFlag := true
        sentBeforeStop := if s.stopFlag then s.sentBeforeStop else s.sent }
  | s, .wait ms => some { s with clock := s.clock + ms }
  | s, .server answer => s.serverStep answer

/-- The session when the start-up calls of `routine` have succeeded. -/
def started (ae : AsyncEvent) (fileHandle : FileHandle) (domainFd now : ℤ) : Session where
  position := .starting
  domainFd := domainFd
  ae := ae
  fileHandle := fileHandle
  readyToServe := false
  stopFlag := false
  queue := []
  readable := false
  clock := now
  sent := []
  sentBeforeStop := []
  writings := []

end Session

end Nebula.Logging
