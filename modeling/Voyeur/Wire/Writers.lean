import Voyeur.Stream.LittleEndian
import Voyeur.Wire.Basic

/-! # Writing events

Every message is a message type, and an event is followed by its event type and
by the fields of that event. Each field is a call of its own, and a string is
two writes: its length and its bytes.
-/

namespace Voyeur

/-- One `voyeur_write_*` call: the buffers that it passes to `do_write`, in order. -/
abbrev WriteCall := List Bytes

/-- `VOYEUR_MAX_STRLEN`. -/
def maxStrlen : ℕ := 4096

/-- Write a word of `k` bytes. -/
def writeWord (k : ℕ) (val : BitVec (8 * k)) : WriteCall := [LittleEndian.encode k val]

def writeMsgType (val : MsgType) : WriteCall := writeWord 4 val.number
def writeEventType (val : EventType) : WriteCall := writeWord 4 val.number
def writeInt (val : CInt) : WriteCall := writeWord 4 val
def writeSize (val : Size) : WriteCall := writeWord 8 val
def writePid (val : CInt) : WriteCall := writeWord 4 val

/-- `voyeur_write_string` with a `len` of 0, as all its callers use it. -/
def writeString : Option CStr → WriteCall
  | none => writeSize 0 ++ [[]]
  | some val =>
      writeSize (BitVec.ofNat 64 (strnlen val maxStrlen)) ++ [val.take (strnlen val maxStrlen)]

/-- The count of a NULL-terminated array of strings, and the strings. -/
def writeStrings (entries : List CStr) : List WriteCall :=
  writeInt (BitVec.ofNat 32 entries.length) :: entries.map fun s => writeString (some s)

/-- The bytes that a sequence of calls puts on a connection when every send succeeds. -/
def wire (calls : List WriteCall) : Bytes := calls.flatten.flatten

@[simp] theorem wire_nil : wire [] = [] := rfl

@[simp] theorem wire_cons (c : WriteCall) (calls : List WriteCall) :
    wire (c :: calls) = c.flatten ++ wire calls := by
  simp [wire]

@[simp] theorem wire_append (calls calls' : List WriteCall) :
    wire (calls ++ calls') = wire calls ++ wire calls' := by
  simp [wire]

/-- `O_CREAT`. -/
def oCreat : CInt := 0x40

/-- The test `oflag & O_CREAT`. -/
def creates (oflag : CInt) : Bool := oflag &&& oCreat != 0

/-- The calls of `write_exec_event` behind the event type. -/
def execFields (options : Byte) (path : Option CStr) (argv envp : List CStr)
    (pathVar cwd : Option CStr) (pid ppid : CInt) : List WriteCall :=
  [writeString path] ++ writeStrings argv ++
    (if hasFlag options observeExecEnv then writeStrings envp else []) ++
    (if hasFlag options observeExecPath then [writeString pathVar] else []) ++
    (if hasFlag options observeExecCwd then [writeString cwd] else []) ++
    [writePid pid, writePid ppid]

/-- `write_exec_event`; `accessible` is whether `access(path, X_OK)` succeeds. -/
def writeExecEvent (options : Byte) (accessible : Bool) (path : Option CStr)
    (argv envp : List CStr) (pathVar cwd : Option CStr) (pid ppid : CInt) : List WriteCall :=
  -- A silent observer only passes the instrumentation on.
  if hasFlag options observeExecSilent then []
  else if !hasFlag options observeExecNoaccess && !accessible then []
  else writeMsgType .event :: writeEventType .exec ::
    execFields options path argv envp pathVar cwd pid ppid

def exitFields (status pid ppid : CInt) : List WriteCall :=
  [writeInt status, writePid pid, writePid ppid]

/-- The mode on the wire: the third argument of `open`, or 0 if it was not asked for. -/
def writtenMode (oflag mode : CInt) : CInt := if creates oflag then mode else 0

def openFields (options : Byte) (path : Option CStr) (oflag mode retval : CInt)
    (cwd : Option CStr) (pid : CInt) : List WriteCall :=
  [writeString path, writeInt oflag, writeInt (writtenMode oflag mode), writeInt retval] ++
    (if hasFlag options observeOpenCwd then [writeString cwd] else []) ++ [writePid pid]

def closeFields (fildes retval pid : CInt) : List WriteCall :=
  [writeInt fildes, writeInt retval, writePid pid]

/-- An array of fewer than `INT_MAX - 1` strings. -/
abbrev StringArray := {l : List CStr // l.length < intMax.toNat - 1}

/-- An event as the observed process has it. -/
inductive ClientEvent where
  | exec (path : Option CStr) (argv envp : StringArray) (pathVar cwd : Option CStr)
      (pid ppid : CInt)
  | exit (status pid ppid : CInt)
  | open_ (path : Option CStr) (oflag mode retval : CInt) (cwd : Option CStr) (pid : CInt)
  | close (fildes retval pid : CInt)
  deriving DecidableEq

namespace ClientEvent

def type : ClientEvent → EventType
  | .exec .. => .exec
  | .exit .. => .exit
  | .open_ .. => .open_
  | .close .. => .close

/-- The calls that write the fields of an event, under the client's options for its type. -/
def fields (options : Byte) : ClientEvent → List WriteCall
  | .exec path argv envp pathVar cwd pid ppid =>
      execFields options path argv envp pathVar cwd pid ppid
  | .exit status pid ppid => exitFields status pid ppid
  | .open_ path oflag mode retval cwd pid => openFields options path oflag mode retval cwd pid
  | .close fildes retval pid => closeFields fildes retval pid

/-- The calls that put a whole event message on a connection. -/
def message (options : Byte) (e : ClientEvent) : List WriteCall :=
  writeMsgType .event :: writeEventType e.type :: e.fields options

/-- The calls that the client makes for an event; `accessible` matters to `exec` events only. -/
def write (options : Byte) (accessible : Bool) : ClientEvent → List WriteCall
  | .exec path argv envp pathVar cwd pid ppid =>
      writeExecEvent options accessible path argv envp pathVar cwd pid ppid
  | e => e.message options

theorem write_cases (options : Byte) (accessible : Bool) (e : ClientEvent) :
    e.write options accessible = [] ∨ e.write options accessible = e.message options := by
  cases e with
  | exec path argv envp pathVar cwd pid ppid =>
    simp only [write, writeExecEvent]
    by_cases hs : hasFlag options observeExecSilent = true
    · exact .inl (if_pos hs)
    · by_cases ha : (!hasFlag options observeExecNoaccess && !accessible) = true
      · exact .inl (by rw [if_neg hs, if_pos ha])
      · exact .inr (by rw [if_neg hs, if_neg ha]; rfl)
  | exit | open_ | close => exact .inr rfl

/-- A string as the observer gets it: its first 4096 bytes, and no bytes for `NULL`. -/
def cut (s : Option CStr) : Bytes := (s.getD []).take maxStrlen

/-- The arguments that the observer's callback gets for an event. -/
def received (options : Byte) : ClientEvent → Event
  | .exec path argv envp pathVar cwd pid ppid =>
      .exec (cut path) (argv.val.map fun s => cut (some s))
        (if hasFlag options observeExecEnv then some (envp.val.map fun s => cut (some s)) else none)
        (if hasFlag options observeExecPath then some (cut pathVar) else none)
        (if hasFlag options observeExecCwd then some (cut cwd) else none) pid ppid
  | .exit status pid ppid => .exit status pid ppid
  | .open_ path oflag mode retval cwd pid =>
      .open_ (cut path) oflag (writtenMode oflag mode)
        (if hasFlag options observeOpenCwd then some (cut cwd) else none) retval pid
  | .close fildes retval pid => .close fildes retval pid

@[simp] theorem type_received (options : Byte) (e : ClientEvent) :
    (e.received options).type = e.type := by
  cases e <;> rfl

end ClientEvent

/-- What a client puts on a connection: an event or the mark that it is done. -/
inductive Message where
  | event (e : ClientEvent)
  | done
  deriving DecidableEq

/-- The bytes of a message, under the client's options. -/
def Message.bytes (options : EventType → Byte) : Message → Bytes
  | .event e => wire (e.message (options e.type))
  | .done => wire [writeMsgType .done]

end Voyeur
