import Mathlib.Data.List.Basic

/-! # Events, options and contexts

The four observable events, the option bits that select their optional fields,
and the observer's context: for every event its options, its callback and the
callback's user data.
-/

namespace Voyeur

abbrev Byte := BitVec 8
abbrev Bytes := List Byte

/-- The bytes of a C string in front of its terminating NUL. -/
abbrev CStr := List Byte

def strnlen (s : CStr) (maxlen : ℕ) : ℕ := min s.length maxlen

/-- The 32-bit `int`, which is also the representation of `pid_t`, `mode_t` and of enumerations. -/
abbrev CInt := BitVec 32

/-- The 64-bit `size_t`. -/
abbrev Size := BitVec 64

/-- The largest `int`, `INT_MAX`. -/
def intMax : CInt := 0x7fffffff

inductive MsgType | event | done
  deriving DecidableEq, Repr

/-- `voyeur_event_type`, without the end marker `VOYEUR_EVENT_MAX`. -/
inductive EventType | exec | exit | open_ | close
  deriving DecidableEq, Repr

def MsgType.number : MsgType → CInt
  | .event => 0
  | .done => 1

def EventType.number : EventType → CInt
  | .exec => 0
  | .exit => 1
  | .open_ => 2
  | .close => 3

/-- `VOYEUR_EVENT_MAX`, the number of event types. -/
def eventMax : ℕ := 4

/-- The event types in the order of `MAP_EVENTS`. -/
def mapEvents : List EventType := [.exec, .exit, .open_, .close]

/-- The event type that a number read from a stream stands for. -/
def EventType.ofNumber (n : CInt) : Option EventType := mapEvents.find? (·.number = n)

@[simp] theorem EventType.ofNumber_number (t : EventType) : ofNumber t.number = some t := by
  cases t <;> rfl

theorem EventType.ofNumber_eq_some {n : CInt} {t : EventType} (h : ofNumber n = some t) :
    n = t.number := by
  rw [ofNumber] at h
  simpa [eq_comm] using List.find?_some h

def observeExecCwd : Byte := 0x01
def observeExecEnv : Byte := 0x02
def observeExecPath : Byte := 0x04
def observeExecNoaccess : Byte := 0x08
def observeExecSilent : Byte := 0x10
def observeOpenCwd : Byte := 0x01

/-- The test `options & flag`. -/
def hasFlag (options flag : Byte) : Bool := options &&& flag != 0

/-- The fields `e_opts`, `e_cb` and `e_userdata` of one event; a missing callback is `NULL`. -/
structure Observer where
  opts : Byte
  cb : Option ℕ
  userdata : ℕ
  deriving DecidableEq, Repr

/-- `voyeur_context`, as far as events are concerned. -/
structure Context where
  observer : EventType → Observer

def Context.opts (context : Context) (t : EventType) : Byte := (context.observer t).opts

/-- The arguments of a callback, one constructor for each callback type. -/
inductive Event where
  | exec (file : Bytes) (argv : List Bytes) (envp : Option (List Bytes)) (path cwd : Option Bytes)
      (pid ppid : CInt)
  | exit (status pid ppid : CInt)
  | open_ (path : Bytes) (oflag mode : CInt) (cwd : Option Bytes) (retval pid : CInt)
  | close (fildes retval pid : CInt)
  deriving DecidableEq, Repr

def Event.type : Event → EventType
  | .exec .. => .exec
  | .exit .. => .exit
  | .open_ .. => .open_
  | .close .. => .close

/-- One invocation of a callback. -/
structure Call where
  cb : ℕ
  event : Event
  userdata : ℕ
  deriving DecidableEq, Repr

/-- The callbacks that a complete event runs: the registered one, if there is one. -/
def Context.calls (context : Context) (e : Event) : List Call :=
  match (context.observer e.type).cb with
  | some cb => [⟨cb, e, (context.observer e.type).userdata⟩]
  | none => []

end Voyeur
