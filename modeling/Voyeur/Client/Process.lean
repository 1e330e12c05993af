import Voyeur.Environment.Options
import Voyeur.Wire.Writers

/-! # A process with an interposed function

The static state of one interposing library, the error number, and the results
that the system calls of the process will have. A write goes on after a temporary
error and ends at any other one, and every failed call leaves its error number.
-/

namespace Voyeur

/-- The result of a system call. -/
inductive Outcome where
  | ok (value : ℕ)
  | failed (errno : CInt)
  deriving DecidableEq

/-- The error number after a sequence of system calls. -/
def lastErrno (outcomes : List Outcome) (errno : CInt) : CInt :=
  outcomes.foldl (fun errno o => match o with | .ok _ => errno | .failed e => e) errno

theorem lastErrno_append (outcomes outcomes' : List Outcome) (errno : CInt) :
    lastErrno (outcomes ++ outcomes') errno = lastErrno outcomes' (lastErrno outcomes errno) :=
  List.foldl_append

/-- A pointer to a string: `NULL`, or one that can be read, or one that cannot. -/
inductive CPath | null | string (s : CStr) | invalid
  deriving DecidableEq

/-- A call of a real function, with the arguments that are passed to it. -/
inductive RealCall where
  | open_ (path : CPath) (oflag : CInt) (mode : Option CInt)
  | close (fildes : CInt)
  deriving DecidableEq

/-- The static variables of an interposing library. -/
structure Library where
  /-- The mutex is held by a thread that never releases it. -/
  locked : Bool
  initialized : Bool
  finalized : Bool
  opts : Byte
  sock : ℤ
  /-- Whether the pointer to the real function has been looked up. -/
  next : Bool
  next_of_initialized : initialized = true → next = true

/-- A process, and the results of its system calls; later ones succeed. -/
structure Proc where
  environ : List CStr
  lib : Library
  errno : CInt
  pid : CInt
  cwd : CStr
  /-- The results of the calls that set up a connection. -/
  setup : List Outcome
  /-- The result of the real function. -/
  real : Outcome
  /-- The results of the calls that write an event. -/
  event : List Outcome
  /-- The real calls so far. -/
  calls : List RealCall
  /-- The bytes written so far. -/
  stream : Bytes

/-- Why a function does not return. -/
inductive Stop | crashed | blocked
  deriving DecidableEq, Repr

/-- The programs of a process. -/
abbrev Client := EStateM Stop Proc

def eintr : CInt := 4
def eagain : CInt := 11

/-- The errors after which `do_write` tries again. -/
def temporary (errno : CInt) : Bool := errno = eagain || errno = eintr

/-- The loop of `do_write`, with the bytes that are left and the results to come. -/
def sendLoop (buf : Bytes) : List Outcome → Proc → Bool × Proc
  | [], s => (true, { s with stream := s.stream ++ buf })
  | .ok n :: event, s =>
      if buf = [] then (true, s)
      else sendLoop (buf.drop n) event { s with event := event, stream := s.stream ++ buf.take n }
  | .failed e :: event, s =>
      if buf = [] then (true, s)
      else if temporary e then sendLoop buf event { s with event := event, errno := e }
      else (false, { s with event := event, errno := e })

/-- `do_write`, and whether it succeeds. -/
def doWrite (buf : Bytes) : Client Bool := fun s =>
  .ok (sendLoop buf s.event s).1 (sendLoop buf s.event s).2

/-- A `voyeur_write_*` call: the first write that fails is its last one. -/
def write : WriteCall → Client Unit
  | [] => pure ()
  | buf :: call => do
    if ← doWrite buf then write call

/-- `voyeur_write_string` on a path. -/
def writePath : CPath → Client Unit
  | .null => write (writeString none)
  | .string s => write (writeString (some s))
  -- `strnlen` reads what is not mapped.
  | .invalid => throw .crashed

/-- `getcwd(NULL, 0)`. -/
def getcwd : Client (Option CStr) := fun s =>
  match s.event with
  | [] => .ok (some s.cwd) s
  | .ok _ :: event => .ok (some s.cwd) { s with event := event }
  | .failed e :: event => .ok none { s with event := event, errno := e }

def getpid : Client CInt := return (← get).pid

/-- A system call of the setup, which returns a value or -1. -/
def setupCall : Client ℤ := fun s =>
  match s.setup with
  | [] => .ok 0 s
  | .ok n :: setup => .ok n { s with setup := setup }
  | .failed e :: setup => .ok (-1) { s with setup := setup, errno := e }

/-- `CONNECT_RETRIES`. -/
def connectRetries : ℕ := 20

/-- The calls of `connect`, of which there are at most so many. -/
def connectLoop : ℕ → Client Unit
  | 0 => pure ()
  | tries + 1 => do
    if (← setupCall) < 0 then connectLoop tries

/-- `voyeur_create_client_socket`. The socket is returned even if it cannot be connected. -/
def createClientSocket : Option CStr → Client ℤ
  -- `strlcpy` reads from `NULL`.
  | none => throw .crashed
  | some _ => do
    let sock ← setupCall
    connectLoop connectRetries
    let _ ← setupCall   -- `fcntl`
    return sock

def lock : Client Unit := do
  if (← get).lib.locked then throw .blocked

/-- The static variables after the first call of an interposed function. -/
def Library.init (lib : Library) (opts : Byte) (sock : ℤ) : Library :=
  { lib with opts := opts, sock := sock, initialized := true, next := true,
             next_of_initialized := fun _ => rfl }

/-- What the first call of an interposed function does. -/
def initialize_ (t : EventType) : Client Unit := do
  if !(← get).lib.initialized then
    let environ := (← get).environ
    let sock ← createClientSocket (getenv environ varSocket)
    modify fun s => { s with lib := s.lib.init (clientOptions environ t) sock }

/-- `VOYEUR_CALL_NEXT`. -/
def callNext (call : RealCall) : Client CInt := fun s =>
  if s.lib.next then
    match s.real with
    | .ok n => .ok (BitVec.ofNat 32 n) { s with calls := s.calls ++ [call] }
    | .failed e => .ok (-1) { s with calls := s.calls ++ [call], errno := e }
  else .error .crashed s

end Voyeur
