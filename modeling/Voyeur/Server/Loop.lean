import Mathlib.Logic.Function.Basic
import Voyeur.Client.Process
import Voyeur.Wire.Handlers

/-! # The server and its environment

The loop of `run_server` as a transition system. An action is a choice of somebody
outside of the loop (a client, the kernel, another thread of the host program) or
one step of the loop. A connection is a byte stream with the part that was read.
-/

namespace Voyeur

/-- `FD_SETSIZE`. -/
def fdSetSize : ℕ := 1024

/-- What a descriptor of the server's process refers to. -/
inductive Object
  | listener
  | childPipe
  | conn (i : ℕ)
  | other
  deriving DecidableEq

/-- Why the server closed a connection. -/
inductive Cause
  | message (v : Verdict)
  | error
  | exit
  deriving DecidableEq

/-- How the server stands to a connection. -/
inductive Side
  | absent
  | queued
  | accepted (fd : ℕ)
  | closed (why : Cause)
  deriving DecidableEq

structure Conn where
  taken : Bytes
  queue : Bytes
  hungUp : Bool
  side : Side
  deriving DecidableEq

/-- All bytes that were sent on a connection. -/
def Conn.sent (conn : Conn) : Bytes := conn.taken ++ conn.queue

/-- The pipe on which the child's termination is announced. -/
structure Pipe where
  queue : Bytes
  hungUp : Bool
  deriving DecidableEq

inductive FileKind | socket | pipe
  deriving DecidableEq

def enotsock : CInt := 88

/-- `send` takes bytes for a socket only. -/
def kernelSend (kind : FileKind) (buf : Bytes) : Outcome :=
  match kind with
  | .socket => .ok buf.length
  | .pipe => .failed enotsock

/-- What `do_write` leaves in a file that takes everything or nothing. -/
def doWriteTo (kind : FileKind) (buf : Bytes) : Bytes :=
  match kernelSend kind buf with
  | .ok _ => buf
  | .failed _ => []

/-- The pipe after `waitpid_thread`, which has `status` in its variable. -/
def waitpidThread (status : CInt) : Pipe := ⟨doWriteTo .pipe (writeInt status).flatten, true⟩

def wifexited (status : CInt) : Bool := status &&& 0x7f = 0

def wexitstatus (status : CInt) : ℤ := (status >>> 8 &&& 0xff).toNat

/-- The value that a wait status stands for. -/
def exitResult (status : CInt) : ℤ := if wifexited status then wexitstatus status else -1

inductive Report | readable | error
  deriving DecidableEq

/-- Where the loop stands, with the descriptors of the pass that are still to be visited. -/
inductive Phase
  | head
  | scan (todo : List (ℕ × Report))
  | message (fd : ℕ) (prog : Rd Verdict) (acc : Bytes) (todo : List (ℕ × Report))
  | leave
  | stragglers (todo : List ℕ)
  | returned (result : ℤ)
  | undefined

/-- The parameters of `run_server`, and the allocator. -/
structure Setup where
  malloc : ℕ → Bool
  context : Context
  serverSock : ℕ
  childPipe : ℕ
  serverSock_lt : serverSock < fdSetSize
  childPipe_lt : childPipe < fdSetSize
  serverSock_ne : serverSock ≠ childPipe

structure Config where
  conns : ℕ → Conn
  backlog : List ℕ
  table : ℕ → Option Object
  active : ℕ → Bool
  phase : Phase
  childExited : Bool
  childStatus : CInt
  pipe : Pipe
  /-- The wait status of the child, once it has terminated. -/
  child : Option CInt
  /-- The callbacks that were run, with the connections that they were run for. -/
  log : List (ℕ × Call)

namespace Config

/-- The callbacks that were run for a connection. -/
def callsOf (c : Config) (i : ℕ) : List Call :=
  c.log.filterMap fun x => if x.1 = i then some x.2 else none

def setConn (c : Config) (i : ℕ) (conn : Conn) : Config :=
  { c with conns := Function.update c.conns i conn }

/-- `voyeur_close_socket`. -/
def close (c : Config) (fd : ℕ) (why : Cause) : Config :=
  { c with
    table := Function.update c.table fd none
    conns := match c.table fd with
      | some (.conn i) => Function.update c.conns i { c.conns i with side := .closed why }
      | _ => c.conns }

/-- `FD_CLR`. -/
def fdClr (c : Config) (fd : ℕ) : Config := { c with active := Function.update c.active fd false }

/-- Whether `select` may report a descriptor as readable. -/
def ready (c : Config) (fd : ℕ) : Bool :=
  match c.table fd with
  | some .listener => c.backlog ≠ []
  | some .childPipe => c.pipe.queue ≠ [] || c.pipe.hungUp
  | some (.conn i) => (c.conns i).queue ≠ [] || (c.conns i).hungUp
  | _ => false

/-- Whether the server's end of a connection exists, so that the client can send. -/
def linked (S : Setup) (c : Config) (i : ℕ) : Bool :=
  match (c.conns i).side with
  | .queued => c.table S.serverSock = some .listener
  | .accepted _ => true
  | .absent | .closed _ => false

/--
The reports of one call of `select`: the descriptors in ascending order. A pipe has no
exceptional conditions.
-/
def Reportable (c : Config) (reported : List (ℕ × Report)) : Prop :=
  (reported.map Prod.fst).Pairwise (· < ·) ∧
    ∀ r ∈ reported, r.1 < fdSetSize ∧ c.active r.1 = true ∧
      (r.2 = .readable → c.ready r.1 = true) ∧ (r.2 = .error → c.table r.1 ≠ some .childPipe)

instance (c : Config) (reported : List (ℕ × Report)) : Decidable (c.Reportable reported) := by
  unfold Reportable; infer_instance

/-- `voyeur_read_int` into `child_status`, which keeps its value if the read fails. -/
def setStatus (c : Config) (s : Bytes) : Config :=
  match (readInt.run s).2 with
  | some (some status, _) => { c with childStatus := status }
  | _ => c

/-- Reading the status from the child's pipe. The read may have to wait. -/
def readStatus (c : Config) (fd : ℕ) : Option Config :=
  match c.table fd with
  | some .childPipe =>
      if c.pipe.hungUp ∨ 4 ≤ c.pipe.queue.length then
        some { c.setStatus c.pipe.queue with
          pipe := { c.pipe with queue := c.pipe.queue.drop 4 } }
      else none
  | _ => none

/-- One step of the loop itself. -/
def advance (S : Setup) (c : Config) : Option Config :=
  match c.phase with
  | .scan [] => some { c with phase := if c.childExited then .leave else .head }
  | .scan ((fd, .error) :: todo) => some { (c.close fd .error).fdClr fd with phase := .scan todo }
  | .scan ((fd, .readable) :: todo) =>
      if fd = S.serverSock then none   -- see `accept`
      else if fd = S.childPipe then
        (c.readStatus fd).map fun c' =>
          { (c'.close fd .exit).fdClr fd with childExited := true, phase := .scan todo }
      else some { c with phase := .message fd (handleMessage S.malloc S.context) [] todo }
  | .message fd (.done v) _ todo =>
      if 0 ≤ v.code then some { c with phase := .scan todo }
      else some { (c.close fd (.message v)).fdClr fd with phase := .scan todo }
  | .message fd (.emit call prog) acc todo =>
      match c.table fd with
      | some (.conn i) =>
          some { c with log := c.log ++ [(i, call)], phase := .message fd prog acc todo }
      | _ => none
  | .message _ .fault _ _ => some { c with phase := .undefined }
  | .message _ (.read _ _) _ _ => none   -- see `read`
  | .leave =>
      -- The listening socket stays in the set and is closed once more with the stragglers.
      some { c.close S.serverSock .exit with
        phase := .stragglers ((List.range fdSetSize).filter c.active) }
  | .stragglers [] => some { c with phase := .returned (exitResult c.childStatus) }
  | .stragglers (fd :: todo) => some { c.close fd .exit with phase := .stragglers todo }
  | .head | .returned _ | .undefined => none

end Config

inductive Action
  | connect (i : ℕ)
  | send (i : ℕ) (bytes : Bytes)
  | hangUp (i : ℕ)
  /-- The child has the wait status `status`, and `waitpid` left `seen` in the thread's variable. -/
  | childTerminates (status seen : CInt)
  | hostOpens (fd : ℕ)
  | hostCloses (fd : ℕ)
  | select (reported : List (ℕ × Report))
  | selectInterrupted
  | selectFails
  | accept (fd : ℕ)
  | acceptFails
  | read (n : ℕ)
  | readEnd
  | readFails
  | advance
  deriving DecidableEq

namespace Config

/-- `accept_connection`, and `FD_SET` on its result, which has no room for large descriptors. -/
def accept (S : Setup) (c : Config) (fd : ℕ) : Option Config :=
  match c.phase, c.backlog with
  | .scan ((s, .readable) :: todo), i :: backlog =>
      if s = S.serverSock ∧ c.table s = some .listener ∧ c.table fd = none then
        some { c with
          backlog := backlog
          table := Function.update c.table fd (some (.conn i))
          conns := Function.update c.conns i { c.conns i with side := .accepted fd }
          active := if fd < fdSetSize then Function.update c.active fd true else c.active
          phase := if fd < fdSetSize then .scan todo else .undefined }
      else none
  | _, _ => none

/-- A `read` of `n` bytes inside of a message. -/
def read (c : Config) (n : ℕ) : Option Config :=
  match c.phase with
  | .message fd prog acc todo =>
      match c.table fd with
      | some (.conn i) =>
          let conn := c.conns i
          if 0 < n ∧ n ≤ conn.queue.length ∧ acc.length + n ≤ prog.wants then
            some { c.setConn i { conn with
                taken := conn.taken ++ conn.queue.take n, queue := conn.queue.drop n } with
              phase := .message fd (prog.feed (acc ++ conn.queue.take n)).1
                (prog.feed (acc ++ conn.queue.take n)).2 todo }
          else none
      | _ => none
  | _ => none

/-- A `read` inside of a message that gets nothing, at the end of the stream or for an error. -/
def readNothing (c : Config) (possible : Conn → Bool) : Option Config :=
  match c.phase with
  | .message fd (.read n k) acc todo =>
      match c.table fd with
      | some (.conn i) =>
          if acc.length < n ∧ possible (c.conns i) then
            some { c with phase := .message fd (k none) [] todo }
          else none
      | _ => none
  | _ => none

def step (S : Setup) (c : Config) : Action → Option Config
  | .connect i =>
      if (c.conns i).side = .absent ∧ c.table S.serverSock = some .listener then
        some { c.setConn i { c.conns i with side := .queued } with backlog := c.backlog ++ [i] }
      else none
  | .send i bytes =>
      if c.linked S i ∧ (c.conns i).hungUp = false then
        some (c.setConn i { c.conns i with queue := (c.conns i).queue ++ bytes })
      else none
  | .hangUp i =>
      if (c.conns i).side ≠ .absent then some (c.setConn i { c.conns i with hungUp := true })
      else none
  | .childTerminates status seen =>
      if c.child = none then some { c with child := some status, pipe := waitpidThread seen }
      else none
  | .hostOpens fd =>
      if c.table fd = none then
        some { c with table := Function.update c.table fd (some .other) }
      else none
  | .hostCloses fd =>
      if c.table fd = some .other then some { c with table := Function.update c.table fd none }
      else none
  | .select reported =>
      match c.phase with
      | .head => if c.Reportable reported then some { c with phase := .scan reported } else none
      | _ => none
  | .selectInterrupted =>
      match c.phase with
      | .head => some c
      | _ => none
  | .selectFails =>
      match c.phase with
      | .head => some { c with phase := .leave }
      | _ => none
  | .accept fd => c.accept S fd
  | .acceptFails =>
      match c.phase with
      | .scan ((s, .readable) :: todo) =>
          if s = S.serverSock then some { c with phase := .scan todo } else none
      | _ => none
  | .read n => c.read n
  | .readEnd => c.readNothing fun conn => conn.queue = [] && conn.hungUp
  | .readFails => c.readNothing fun _ => true
  | .advance => c.advance S

/-- The server before its first `select`; `host` is the set of the host program's descriptors. -/
def init (S : Setup) (host : ℕ → Bool) : Config where
  conns _ := ⟨[], [], false, .absent⟩
  backlog := []
  table fd :=
    if fd = S.serverSock then some .listener
    else if fd = S.childPipe then some .childPipe
    else if host fd then some .other
    else none
  active fd := fd = S.serverSock || fd = S.childPipe
  phase := .head
  childExited := false
  childStatus := 0
  pipe := ⟨[], false⟩
  child := none
  log := []

end Config

/-- An observer of every event, with the listening socket 3 and the child's pipe 4. -/
def observer : Setup where
  malloc _ := true
  context := ⟨fun _ => ⟨0, some 7, 9⟩⟩
  serverSock := 3
  childPipe := 4
  serverSock_lt := by decide
  childPipe_lt := by decide
  serverSock_ne := by decide

end Voyeur
