import Nebula.Async.Lifecycle
import Nebula.Logging.FileSync
import Nebula.Logging.Formatting
import Nebula.Logging.Instance
import Mathlib.Algebra.BigOperators.Group.Multiset.Basic
import Mathlib.Data.List.Perm.Basic

/-!
What the log module holds: descriptors, memory, and the file of its socket. The server has a socket,
an event loop and a log file, and every `LogHandle` has a connection to the server and a buffer.
They are obtained one at a time by calls that can fail, and given back by the destructors.

`accounted` says that in every run, whatever fails, the module gives back only what it holds, and
that what is in use is what was in use before and what the objects hold. There is one exception: the
destructor of `FileHandle` does not close descriptor 0.
-/

set_option autoImplicit false
set_option relaxedAutoImplicit false

namespace Nebula.Logging

open Nebula.Library Nebula.Async Handover Resource

/-! ### The log file -/

namespace FileHandle

/-- What is obtained and given back in some calls. Closing a negative number closes nothing. -/
def handovers (calls : List (FileCall Bytes)) : List (Handover Resource) :=
  calls.flatMap fun call ↦
    match call with
    | .opened fd => [.obtained (.descriptor fd)]
    | .close fd => closeFd fd
    | .write .. | .fsync _ => []

/-- What the destructor leaves open. -/
def lost (h : FileHandle) : Multiset Resource :=
  Multiset.replicate (if h.fd = 0 then 1 else 0) (.descriptor 0)

variable (h : FileHandle)

theorem handovers_append (calls calls' : List (FileCall Bytes)) :
    handovers (calls ++ calls') = handovers calls ++ handovers calls' := List.flatMap_append

theorem turns_opened (fd : ℤ) : Turns 0 (handovers (opened fd)) (heldFd fd) := by
  unfold opened
  split_ifs with hfd
  · rw [heldFd_of_neg hfd]
    exact .refl 0
  · rw [heldFd_of_nonneg hfd]
    exact .obtained [Resource.descriptor fd] 0

theorem turns_setConfig (logDir : Option Bytes) (namePrefix : Bytes) (frequency : BitVec 32)
    (answers : Answers) :
    Turns 0 (handovers (h.setConfig logDir namePrefix frequency answers).2)
      (heldFd (h.setConfig logDir namePrefix frequency answers).1.fd) := by
  unfold setConfig
  simp only
  split_ifs <;> exact turns_opened _

theorem turns_writeMessage (message : Bytes) (result : ℤ) :
    Turns (heldFd h.fd) (handovers (h.writeMessage message result).2.2)
      (heldFd (h.writeMessage message result).2.1.fd) := by
  unfold writeMessage fsyncToDisk
  split_ifs <;> exact .refl _

theorem turns_switchFile (answers : Answers) :
    Turns (heldFd h.fd) (handovers (h.switchFile answers).2.2)
      (heldFd (h.switchFile answers).2.1.fd) := by
  have hsync : h.fsyncToDisk.1.fd = h.fd ∧ handovers h.fsyncToDisk.2 = [] := by
    unfold fsyncToDisk
    split_ifs <;> exact ⟨rfl, rfl⟩
  have hclose : Turns (heldFd h.fd) (closeFd h.fd) 0 := by
    rw [← Multiset.add_zero (heldFd h.fd)]
    exact .releasing 0 _ _
  unfold switchFile
  split_ifs
  · simp only
    rw [handovers_append, hsync.2, List.nil_append]
    change Turns _ (closeFd h.fsyncToDisk.1.fd ++ handovers (opened _)) _
    rw [hsync.1]
    exact hclose.append (turns_opened _)
  · exact .refl _

theorem turns_step (op : Op) :
    Turns (heldFd h.fd) (handovers (h.step op).2) (heldFd (h.step op).1.fd) := by
  cases op with
  | writeMessage message result => exact h.turns_writeMessage message result
  | switchFile answers => exact h.turns_switchFile answers

/-- The destructor closes the descriptor, unless it is 0. -/
theorem turns_destroy : Turns (heldFd h.fd) (handovers h.destroy) h.lost := by
  unfold destroy lost
  rcases lt_trichotomy h.fd 0 with hneg | hzero | hpos
  · rw [if_neg (not_lt.mpr hneg.le), if_neg hneg.ne, heldFd_of_neg hneg]
    exact .refl 0
  · rw [if_neg (not_lt.mpr hzero.le), if_pos hzero, hzero]
    exact .refl _
  · rw [if_pos hpos, if_neg hpos.ne', handovers_append]
    have hsync : handovers (if h.pathLen ≠ 0 ∧ h.numWrite ≠ 0 then [.fsync h.fd] else []) = [] := by
      split_ifs <;> rfl
    rw [hsync, ← Multiset.add_zero (heldFd h.fd)]
    change Turns _ (closeFd h.fd ++ []) _
    rw [List.append_nil]
    exact .releasing 0 _ _

end FileHandle

/-! ### The server -/

/-- `server_addr_.sun_path`, for the texts of `getpid()` and `self()`. -/
def sunPath (pid self : Bytes) : Bytes := (ascii "/tmp/p" ++ pid ++ ascii "_t" ++ self).take 107

theorem sunPath_ne (pid self : Bytes) : sunPath pid self ≠ [] := by
  unfold sunPath
  simp [ascii]

/-- What the system answers to a start-up call. -/
structure StartupAnswer where
  ok : Bool
  fd : ℤ
  pid : Bytes
  self : Bytes
  arrays : InitializeAnswers

/-- The members of a `LogServer` that its resources are kept in, and where its thread is. `bound`
says whether the file of the socket has been created; the program does not know. -/
structure LogServer where
  routine : Routine
  domainFd : ℤ
  sunPath : Bytes
  bound : Bool
  fileHandle : FileHandle
  asyncEvent : Allocations

namespace LogServer

/-- The constructor. -/
def new (logDir : Option Bytes) (namePrefix : Bytes) (frequency : BitVec 32) (answers : Answers) :
    LogServer × List (Handover Resource) :=
  let (fileHandle, calls) := FileHandle.new.setConfig logDir namePrefix frequency answers
  (⟨.absent, -1, [], false, fileHandle, .new⟩, FileHandle.handovers calls)

/-- The thread goes on with the next call, or `routine` returns. -/
def proceed (s : LogServer) (call : StartupCall) (ok : Bool) : LogServer :=
  { s with
    routine := if ok then call.next.elim .settingReady .starting else .returned false }

/-- A start-up call of `routine`. -/
def startup (s : LogServer) (call : StartupCall) (answer : StartupAnswer) :
    LogServer × List (Handover Resource) :=
  match call with
  | .socket =>
      ({ s with domainFd := answer.fd }.proceed .socket (decide (0 ≤ answer.fd)),
        obtaining (0 ≤ answer.fd) (.descriptor answer.fd))
  | .setNonblock => (s.proceed .setNonblock answer.ok, [])
  | .bind =>
      let s := { s with sunPath := Logging.sunPath answer.pid answer.self }
      ({ s with bound := answer.ok }.proceed .bind answer.ok,
        obtaining (answer.ok = true) (.socketFile s.sunPath))
  | .newAsyncEvent =>
      let (status, asyncEvent, calls) := s.asyncEvent.initialization 64 32 answer.arrays
      ({ s with asyncEvent := asyncEvent }.proceed .newAsyncEvent (decide (status = Status.ok)),
        calls)
  | .addFdEvent => (s.proceed .addFdEvent answer.ok, [])
  | .addTimeEvent => (s.proceed .addTimeEvent answer.ok, [])

/-- The destructor, and those of the members. -/
def destroy (s : LogServer) : List (Handover Resource) :=
  closeFd s.domainFd ++ releasing (s.sunPath ≠ []) (.socketFile s.sunPath) ++
    s.asyncEvent.destroy ++ FileHandle.handovers s.fileHandle.destroy

/-- What the server holds. -/
def owned (s : LogServer) : Multiset Resource :=
  heldFd s.domainFd + (held (s.bound = true) (.socketFile s.sunPath) +
    (s.asyncEvent.owned + heldFd s.fileHandle.fd))

/-- What is known of the members at a position. -/
def Stage (s : LogServer) : Prop :=
  match s.routine with
  | .absent | .starting .socket =>
      s.domainFd = -1 ∧ s.sunPath = [] ∧ s.bound = false ∧ s.asyncEvent = .new
  | .starting .setNonblock | .starting .bind =>
      s.sunPath = [] ∧ s.bound = false ∧ s.asyncEvent = .new
  | .starting .newAsyncEvent => s.sunPath ≠ [] ∧ s.bound = true ∧ s.asyncEvent = .new
  | .returned false => True
  | _ => s.sunPath ≠ [] ∧ s.bound = true

variable {s : LogServer}

theorem stage_new (logDir : Option Bytes) (namePrefix : Bytes) (frequency : BitVec 32)
    (answers : Answers) : (new logDir namePrefix frequency answers).1.Stage :=
  ⟨rfl, rfl, rfl, rfl⟩

theorem turns_new (logDir : Option Bytes) (namePrefix : Bytes) (frequency : BitVec 32)
    (answers : Answers) :
    Turns 0 (new logDir namePrefix frequency answers).2
      (new logDir namePrefix frequency answers).1.owned := by
  have hempty : (new logDir namePrefix frequency answers).1.owned =
      heldFd (new logDir namePrefix frequency answers).1.fileHandle.fd := by
    unfold owned new
    simp only
    rw [heldFd_of_neg (by decide), Allocations.owned_new]
    simp [held]
  rw [hempty]
  exact FileHandle.new.turns_setConfig logDir namePrefix frequency answers

theorem stage_proceed {call : StartupCall} (ok : Bool)
    (h : ok = true → (s.proceed call true).Stage) : (s.proceed call ok).Stage := by
  cases ok with
  | false => trivial
  | true => exact h rfl

/-- A start-up call. -/
theorem Stage.startup (h : s.Stage) {call : StartupCall} (hroutine : s.routine = .starting call)
    (answer : StartupAnswer) :
    (s.startup call answer).1.Stage ∧
      Turns s.owned (s.startup call answer).2 (s.startup call answer).1.owned := by
  unfold Stage at h
  rw [hroutine] at h
  cases call with
  | socket =>
    obtain ⟨hfd, hpath, hbound, hnew⟩ := h
    refine ⟨stage_proceed _ fun _ ↦ ⟨hpath, hbound, hnew⟩, ?_⟩
    rw [owned, hfd, heldFd_of_neg (by decide), Multiset.zero_add]
    exact .obtaining _ _ _
  | setNonblock => exact ⟨stage_proceed _ fun _ ↦ h, .refl _⟩
  | bind =>
    obtain ⟨-, hbound, hnew⟩ := h
    refine ⟨stage_proceed _ fun hok ↦ ⟨sunPath_ne _ _, hok, hnew⟩, ?_⟩
    have hnone : held (s.bound = true) (socketFile s.sunPath) = 0 := if_neg (by rw [hbound]; simp)
    rw [owned, hnone, Multiset.zero_add]
    exact (Turns.obtaining _ _ _).frame _
  | newAsyncEvent =>
    obtain ⟨hpath, hbound, hnew⟩ := h
    refine ⟨stage_proceed _ fun _ ↦ ⟨hpath, hbound⟩, ?_⟩
    have hturns := Allocations.turns_initialization 64 32 answer.arrays
    rw [← hnew, ← Allocations.owned_new, ← hnew] at hturns
    exact ((hturns.frame_right _).frame _).frame _
  | addFdEvent => exact ⟨stage_proceed _ fun _ ↦ h, .refl _⟩
  | addTimeEvent => exact ⟨stage_proceed _ fun _ ↦ h, .refl _⟩

/-- The destructor gives everything back, unless the log file is descriptor 0. -/
theorem turns_destroy (hbound : s.bound = true ↔ s.sunPath ≠ []) :
    Turns s.owned s.destroy s.fileHandle.lost := by
  have hfile : held (s.bound = true) (socketFile s.sunPath) =
      held (s.sunPath ≠ []) (socketFile s.sunPath) := if_congr hbound rfl rfl
  rw [owned, hfile]
  have hasync := s.asyncEvent.turns_destroy.frame_right (heldFd s.fileHandle.fd)
  rw [Multiset.zero_add] at hasync
  exact (((Turns.releasing _ _ _).append (.releasing _ _ _)).append hasync).append
    s.fileHandle.turns_destroy

/-- The life of the server. -/
inductive Action where
  | new (logDir : Option Bytes) (namePrefix : Bytes) (frequency : BitVec 32) (answers : Answers)
  /-- A successful `create`. -/
  | create
  | startup (answer : StartupAnswer)
  /-- `eventLoop` is entered, `clearReadyToServe` is called, or `routine` returns. -/
  | serve
  | fileHandle (op : FileHandle.Op)
  /-- `delete`, after a `create` that failed or a `join`. -/
  | delete

/-- An action on the server, where there is one, and what it obtains and gives back. -/
def act : Option LogServer → Action → Option (Option LogServer × List (Handover Resource))
  | none, .new logDir namePrefix frequency answers =>
      let (s, calls) := new logDir namePrefix frequency answers
      some (some s, calls)
  | some s, .create =>
      if s.routine = .absent then some (some { s with routine := .starting .socket }, []) else none
  | some s, .startup answer =>
      match s.routine with
      | .starting call =>
          let (s, calls) := s.startup call answer
          some (some s, calls)
      | _ => none
  | some s, .serve =>
      match s.routine with
      | .settingReady => some (some { s with routine := .serving }, [])
      | .serving => some (some { s with routine := .stopping }, [])
      | .stopping => some (some { s with routine := .returned true }, [])
      | _ => none
  | some s, .fileHandle op =>
      let (fileHandle, calls) := s.fileHandle.step op
      some (some { s with fileHandle := fileHandle }, FileHandle.handovers calls)
  | some s, .delete =>
      if s.routine = .absent ∨ s.routine = .returned true then some (none, s.destroy) else none
  | _, _ => none

/-- What the server holds, if there is one. -/
def ownedBy (server : Option LogServer) : Multiset Resource := server.elim 0 owned

/-- Descriptors 0 that nobody will close. -/
def leaked (k : ℕ) : Multiset Resource := Multiset.replicate k (.descriptor 0)

/-- A server can be deleted where it has a socket file exactly if it has a path for one. -/
theorem Stage.bound_iff (h : s.Stage)
    (hroutine : s.routine = .absent ∨ s.routine = .returned true) :
    s.bound = true ↔ s.sunPath ≠ [] := by
  unfold Stage at h
  rcases hroutine with hroutine | hroutine
  · rw [hroutine] at h
    obtain ⟨-, hpath, hbound, -⟩ := h
    exact iff_of_false (by rw [hbound]; simp) (not_not.mpr hpath)
  · rw [hroutine] at h
    exact iff_of_true h.2 h.1

/-- Every action on the server. -/
theorem turns_act {server server' : Option LogServer} {action : Action}
    {calls : List (Handover Resource)} (h : ∀ s ∈ server, s.Stage)
    (hact : act server action = some (server', calls)) :
    (∀ s ∈ server', s.Stage) ∧
      ∃ k, Turns (ownedBy server) calls (ownedBy server' + leaked k) := by
  have hkept : ∀ {s s' : LogServer} {calls}, s'.Stage → Turns s.owned calls s'.owned →
      (∀ t ∈ some s', t.Stage) ∧
        ∃ k, Turns (ownedBy (some s)) calls (ownedBy (some s') + leaked k) := by
    intro s s' calls hstage hturns
    refine ⟨fun t ht ↦ ?_, 0, ?_⟩
    · cases ht
      exact hstage
    · rw [leaked, Multiset.replicate_zero, Multiset.add_zero]
      exact hturns
  cases server with
  | none =>
    cases action with
    | new logDir namePrefix frequency answers =>
      cases hact
      refine ⟨fun t ht ↦ ?_, 0, ?_⟩
      · cases ht
        exact stage_new logDir namePrefix frequency answers
      · rw [leaked, Multiset.replicate_zero, Multiset.add_zero]
        exact turns_new logDir namePrefix frequency answers
    | create | startup _ | serve | fileHandle _ | delete => cases hact
  | some s =>
    have hs := h s rfl
    cases action with
    | new => cases hact
    | create =>
      rw [act] at hact
      split_ifs at hact with hroutine
      cases hact
      refine hkept ?_ (.refl _)
      unfold Stage at hs
      rw [hroutine] at hs
      exact hs
    | startup answer =>
      rw [act] at hact
      split at hact
      · rename_i call hroutine
        cases hact
        obtain ⟨hstage, hturns⟩ := hs.startup hroutine answer
        exact hkept hstage hturns
      · cases hact
    | serve =>
      rw [act] at hact
      unfold Stage at hs
      split at hact
      · rename_i hroutine
        rw [hroutine] at hs
        cases hact
        exact hkept hs (.refl _)
      · rename_i hroutine
        rw [hroutine] at hs
        cases hact
        exact hkept hs (.refl _)
      · rename_i hroutine
        rw [hroutine] at hs
        cases hact
        exact hkept hs (.refl _)
      · cases hact
    | fileHandle op =>
      cases hact
      exact hkept hs ((((s.fileHandle.turns_step op).frame _).frame _).frame _)
    | delete =>
      rw [act] at hact
      split_ifs at hact with hroutine
      cases hact
      refine ⟨by simp, if s.fileHandle.fd = 0 then 1 else 0, ?_⟩
      rw [ownedBy, ownedBy, Option.elim, Option.elim, Multiset.zero_add]
      exact turns_destroy (hs.bound_iff hroutine)

end LogServer

/-! ### Connections -/

/-- The members of a `LogHandle` that its resources are kept in. -/
structure Connection where
  connFd : ℤ
  buffer : Pointer

namespace Connection

/-- What a `LogHandle` holds. -/
def owned (c : Connection) : Multiset Resource := heldFd c.connFd + heldBlock c.buffer

/-- The destructor. -/
def destroy (c : Connection) : List (Handover Resource) := closeFd c.connFd ++ freeBlock c.buffer

/-- `log`, with what `malloc` returns. -/
def log (c : Connection) (malloc : Pointer) : Connection × List (Handover Resource) :=
  if c.buffer = null then ({ c with buffer := malloc }, obtaining (malloc ≠ null) (.block malloc))
  else (c, [])

/-- The life of the connections. `createConnection` gets a descriptor, or a negative number, and may
not be able to connect it. -/
inductive Action where
  | createConnection (connFd : ℤ) (connects : Bool)
  | log (n : ℕ) (malloc : Pointer)
  | delete (n : ℕ)

def act (connections : List Connection) :
    Action → Option (List Connection × List (Handover Resource))
  | .createConnection connFd connects =>
      if connFd < 0 then some (connections, [])
      else if connects = false then
        some (connections, [.obtained (.descriptor connFd)] ++ closeFd connFd)
      else some (⟨connFd, null⟩ :: connections, [.obtained (.descriptor connFd)])
  | .log n malloc =>
      connections[n]?.map fun c ↦ (connections.set n (c.log malloc).1, (c.log malloc).2)
  | .delete n => connections[n]?.map fun c ↦ (connections.eraseIdx n, c.destroy)

/-- What all connections hold. -/
def ownedBy (connections : List Connection) : Multiset Resource := (connections.map owned).sum

variable {c : Connection} {connections connections' : List Connection} {n : ℕ}

theorem turns_log (c : Connection) (malloc : Pointer) :
    Turns c.owned (c.log malloc).2 (c.log malloc).1.owned := by
  unfold log owned
  split_ifs with hnull
  · rw [hnull, heldBlock_null]
    have hmalloc :=
      (Turns.obtaining 0 (malloc ≠ null) (Resource.block malloc)).frame (heldFd c.connFd)
    rwa [Multiset.add_zero (held _ _)] at hmalloc
  · exact .refl _

theorem turns_destroy (c : Connection) : Turns c.owned c.destroy 0 := by
  rw [owned, ← Multiset.add_zero (heldBlock c.buffer)]
  exact (Turns.releasing _ _ _).append (.releasing _ _ _)

/-- One connection and the others. -/
theorem ownedBy_eq (hc : connections[n]? = some c) :
    ownedBy connections = c.owned + ownedBy (connections.eraseIdx n) := by
  obtain ⟨hn, rfl⟩ := List.getElem?_eq_some_iff.mp hc
  have hperm := (List.getElem_cons_eraseIdx_perm hn).map owned
  rw [ownedBy, ← hperm.sum_eq, List.map_cons, List.sum_cons]
  rfl

theorem ownedBy_set (hc : connections[n]? = some c) (c' : Connection) :
    ownedBy (connections.set n c') = c'.owned + ownedBy (connections.eraseIdx n) := by
  obtain ⟨hn, rfl⟩ := List.getElem?_eq_some_iff.mp hc
  have hperm := (List.set_perm_cons_eraseIdx hn c').map owned
  rw [ownedBy, hperm.sum_eq, List.map_cons, List.sum_cons]
  rfl

/-- Every action on the connections. -/
theorem turns_act {action : Action} {calls : List (Handover Resource)}
    (hact : act connections action = some (connections', calls)) :
    Turns (ownedBy connections) calls (ownedBy connections') := by
  cases action with
  | createConnection connFd connects =>
    rw [act] at hact
    split_ifs at hact with hfd hconnects
    · cases hact
      exact .refl _
    · cases hact
      have hclose := Turns.releasing (ownedBy connections) (0 ≤ connFd) (.descriptor connFd)
      have hopen := Turns.obtained [Resource.descriptor connFd] (ownedBy connections)
      rw [show held (0 ≤ connFd) (Resource.descriptor connFd) = {.descriptor connFd} from
        heldFd_of_nonneg hfd] at hclose
      exact hopen.append hclose
    · cases hact
      have hopen := Turns.obtained [Resource.descriptor connFd] (ownedBy connections)
      have howned : ownedBy (⟨connFd, null⟩ :: connections) =
          {.descriptor connFd} + ownedBy connections := by
        rw [ownedBy, List.map_cons, List.sum_cons, owned, heldFd_of_nonneg hfd, heldBlock_null,
          Multiset.add_zero]
        rfl
      rw [howned]
      exact hopen
  | log n malloc =>
    rw [act] at hact
    obtain ⟨c, hc, heq⟩ := Option.map_eq_some_iff.mp hact
    cases heq
    rw [ownedBy_eq hc, ownedBy_set hc]
    exact (c.turns_log malloc).frame_right _
  | delete n =>
    rw [act] at hact
    obtain ⟨c, hc, heq⟩ := Option.map_eq_some_iff.mp hact
    cases heq
    have hdestroy := c.turns_destroy.frame_right (ownedBy (connections.eraseIdx n))
    rw [Multiset.zero_add] at hdestroy
    rw [ownedBy_eq hc]
    exact hdestroy

end Connection

/-! ### The module -/

/-- The server, the connections, and what the rest of the process holds. -/
structure LogModule where
  others : Multiset Resource
  server : Option LogServer
  connections : List Connection

namespace LogModule

/-- An action of the server's threads, on a connection, or elsewhere in the process. -/
inductive Action where
  | others (call : Handover Resource)
  | server (action : LogServer.Action)
  | connection (action : Connection.Action)

/-- The rest of the process gives back what is its own. Connections are created by a server. -/
def act (m : LogModule) : Action → Option (LogModule × List (Handover Resource))
  | .others (.obtained r) => some ({ m with others := r ::ₘ m.others }, [.obtained r])
  | .others (.released r) =>
      if r ∈ m.others then some ({ m with others := m.others.erase r }, [.released r]) else none
  | .server action =>
      (LogServer.act m.server action).map fun after ↦ ({ m with server := after.1 }, after.2)
  | .connection (.createConnection connFd connects) =>
      if m.server = none then none
      else
        (Connection.act m.connections (.createConnection connFd connects)).map fun after ↦
          ({ m with connections := after.1 }, after.2)
  | .connection action =>
      (Connection.act m.connections action).map fun after ↦
        ({ m with connections := after.1 }, after.2)

def next : System LogModule Action := fun m action ↦ (m.act action).map Prod.fst

/-- What an action obtains and gives back. -/
def handovers (m : LogModule) (action : Action) : List (Handover Resource) :=
  (m.act action).elim [] Prod.snd

/-- Nothing has been created. -/
def fresh (others : Multiset Resource) : LogModule := ⟨others, none, []⟩

/-- What the objects of the module hold. -/
def owned (m : LogModule) : Multiset Resource :=
  LogServer.ownedBy m.server + Connection.ownedBy m.connections

variable {m m' : LogModule} {action : Action} {calls : List (Handover Resource)}

/-- An action on a connection does what it does to the list of all. -/
theorem act_connection {action : Connection.Action}
    (hact : m.act (.connection action) = some (m', calls)) :
    ∃ connections, Connection.act m.connections action = some (connections, calls) ∧
      m' = { m with connections := connections } := by
  have hmap : (Connection.act m.connections action).map (fun after ↦
      ({ m with connections := after.1 }, after.2)) = some (m', calls) := by
    cases action with
    | createConnection connFd connects =>
      rw [act] at hact
      split_ifs at hact
      exact hact
    | log | delete => exact hact
  obtain ⟨after, hafter, heq⟩ := Option.map_eq_some_iff.mp hmap
  cases heq
  exact ⟨after.1, hafter, rfl⟩

/-- What happens elsewhere leaves the module alone. -/
theorem turns_others {call : Handover Resource}
    (hact : m.act (.others call) = some (m', calls)) :
    m'.server = m.server ∧ Turns (m.others + m.owned) calls (m'.others + m'.owned) := by
  cases call with
  | obtained r =>
    cases hact
    have hobtained := Turns.obtained [r] m.others
    exact ⟨rfl, hobtained.frame_right m.owned⟩
  | released r =>
    rw [act] at hact
    split_ifs at hact with hmem
    cases hact
    have hreleased : Turns m.others [.released r] (m.others.erase r) := ⟨⟨hmem, trivial⟩, rfl⟩
    exact ⟨rfl, hreleased.frame_right m.owned⟩

/-- What the process holds, with the descriptors 0 that are leaked. -/
def accounts (m : LogModule) (k : ℕ) : Multiset Resource :=
  m.others + (m.owned + LogServer.leaked k)

theorem accounts_add (m : LogModule) (k k' : ℕ) :
    m.accounts k + LogServer.leaked k' = m.accounts (k + k') := by
  rw [accounts, accounts, LogServer.leaked, LogServer.leaked, LogServer.leaked,
    Multiset.replicate_add, Multiset.add_assoc, Multiset.add_assoc]

/-- Every action. -/
theorem turns_act (h : ∀ s ∈ m.server, s.Stage) (hact : m.act action = some (m', calls)) :
    (∀ s ∈ m'.server, s.Stage) ∧
      ∃ k, Turns (m.others + m.owned) calls (m'.accounts k) := by
  have hnone : ∀ holding : Multiset Resource, holding + LogServer.leaked 0 = holding :=
    Multiset.add_zero
  cases action with
  | others call =>
    obtain ⟨hserver, hturns⟩ := turns_others hact
    refine ⟨by rwa [hserver], 0, ?_⟩
    rw [accounts, hnone]
    exact hturns
  | server action =>
    obtain ⟨after, hafter, heq⟩ := Option.map_eq_some_iff.mp hact
    cases heq
    obtain ⟨hstage, k, hturns⟩ := LogServer.turns_act h hafter
    refine ⟨hstage, k, ?_⟩
    have hframe := (hturns.frame_right (Connection.ownedBy m.connections)).frame m.others
    rw [add_right_comm] at hframe
    exact hframe
  | connection action =>
    obtain ⟨connections, hafter, rfl⟩ := act_connection hact
    refine ⟨h, 0, ?_⟩
    rw [accounts, hnone]
    exact ((Connection.turns_act hafter).frame _).frame _

/-- A run, from a state with calls behind it. -/
def Balanced (base : Multiset Resource) (m : LogModule) (calls : List (Handover Resource)) : Prop :=
  (∀ s ∈ m.server, s.Stage) ∧ ∃ k, Turns base calls (m.accounts k)

/-- In every run of the module, whatever fails and whatever the process does elsewhere: when nothing
is handed out that is in use, the destructors give back only what is held, nothing is held twice,
and what is in use is what the rest of the process, the server and the connections hold. Descriptor
0 is the exception: it can be leaked, and then is once. -/
theorem accounted {base : Multiset Resource} (hbase : base.Nodup) {actions : List Action}
    {m : LogModule} (hrun : next.run (fresh base) actions = some m)
    (hfresh : Fresh base (next.emitted handovers (fresh base) actions)) :
    Owned base (next.emitted handovers (fresh base) actions) ∧
      (after base (next.emitted handovers (fresh base) actions)).Nodup ∧
      ∃ k ≤ 1, after base (next.emitted handovers (fresh base) actions) =
        m.others + (m.owned + Multiset.replicate k (.descriptor 0)) := by
  have hbalanced : Balanced base m ([] ++ next.emitted handovers (fresh base) actions) := by
    refine System.run_emitted (I := Balanced base) ?_ ⟨by simp [fresh], 0, ?_⟩ hrun
    · rintro m action m' calls ⟨hstage, k, hturns⟩ hnext
      obtain ⟨after, hact, rfl⟩ := Option.map_eq_some_iff.mp hnext
      obtain ⟨hstage', k', hstep⟩ := turns_act hstage hact
      have hcalls : m.handovers action = after.2 := by
        unfold handovers
        rw [hact]
        rfl
      refine ⟨hstage', k' + k, ?_⟩
      have hframe := hstep.frame_right (LogServer.leaked k)
      rw [accounts_add, Multiset.add_assoc] at hframe
      rw [hcalls]
      exact hturns.append hframe
    · rw [show (fresh base).accounts 0 = base from Multiset.add_zero base]
      exact .refl base
  obtain ⟨-, k, hturns⟩ := hbalanced
  rw [List.nil_append] at hturns
  have hnodup := nodup_after hbase hfresh
  refine ⟨hturns.owned, hnodup, k, ?_, hturns.after_eq⟩
  rw [hturns.after_eq] at hnodup
  have hcount := Multiset.nodup_iff_count_le_one.mp hnodup (.descriptor 0)
  rw [accounts, LogServer.leaked, Multiset.count_add, Multiset.count_add,
    Multiset.count_replicate_self] at hcount
  omega

/-- The first three descriptors. -/
def console : Multiset Resource := {.descriptor 0, .descriptor 1, .descriptor 2}

/-- What the system answers when every start-up call is successful. -/
def starts : StartupAnswer := ⟨true, 4, [0x31], [0x32], ⟨5, 100, 101, 102, 103⟩⟩

/-- A server whose thread cannot be created, and one that starts, gets a message through a first
connection and cannot be reached by a second one, and is stopped before the first is given up. -/
def session : List Action :=
  [.server (.new none [] 1 FileHandle.opensThree), .server .delete,
    .server (.new none [] 1 FileHandle.opensThree), .server .create] ++
  List.replicate 6 (.server (.startup starts)) ++
  [.server .serve, .connection (.createConnection 6 true), .connection (.log 0 104),
    .server (.fileHandle (.writeMessage [0x61] 1)), .connection (.createConnection 7 false),
    .server .serve, .server .serve, .server .delete, .connection (.delete 0)]

theorem accounted_session :
    Owned console (next.emitted handovers (fresh console) session) ∧
      (after console (next.emitted handovers (fresh console) session)).Nodup ∧
      ∃ k ≤ 1, after console (next.emitted handovers (fresh console) session) =
        console + ((fresh console).owned + Multiset.replicate k (.descriptor 0)) :=
  accounted (by decide) (m := fresh console) rfl (by decide)

end LogModule

end Nebula.Logging
