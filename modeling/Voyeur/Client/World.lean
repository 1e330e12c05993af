import Mathlib.Logic.Function.Basic
import Voyeur.Client.Process
import Voyeur.Client.Writing
import Voyeur.Files.Tree
import Voyeur.Fork.Library
import Voyeur.Transition.System

/-! # An observed process with all its libraries

The libraries share the descriptors of the process and call each other: a library that
closes its own socket calls the interposed `close`. The application calls the interposed
functions, opens and closes what it likes and changes its environment; the destructors of
the libraries may run at any time. The process has one thread, but it may be the child of a
process with others, which had locked some of the mutexes.
-/

namespace Voyeur

/-- What a number of the process refers to. -/
inductive Target
  /-- A socket that a library has made for a connection. -/
  | connection (i : ℕ)
  /-- A connected socket of the application. -/
  | socket
  | file
  deriving DecidableEq

/-- A socket of a library, with what was written on it. -/
structure Link where
  type : EventType
  opts : Byte
  /-- One of the calls of `connect` succeeded. -/
  connected : Bool
  bytes : Bytes
  /-- The mark that the client is done was written. -/
  finished : Bool
  deriving DecidableEq

/-- A send, with the connection that it was meant for. -/
structure Sent where
  own : ℕ
  target : Target
  deriving DecidableEq

/-- Who calls the interposed `close`. -/
inductive Caller | application | library
  deriving DecidableEq

/-- A call of the interposed `close`, and whether an event was sent for it. -/
structure CloseRecord where
  caller : Caller
  fildes : ℤ
  retval : CInt
  reported : Bool
  deriving DecidableEq

inductive ExecFunction | execve | execvpe
  deriving DecidableEq

inductive SpawnFunction | posix_spawn | posix_spawnp
  deriving DecidableEq

/-- A call of a real function. -/
inductive NextCall
  | open_ (path : Option CStr) (oflag : CInt) (mode : Option CInt)
  | close (fildes : ℤ)
  | exec (function : ExecFunction) (path : Option CStr) (argv : Option (List CStr))
      (envp : List CStr)
  | spawn (function : SpawnFunction) (path : Option CStr) (argv : Option (List CStr))
      (envp : List CStr)
  deriving DecidableEq

/-- The functions that are called through a pointer of a library. -/
inductive NextFunction | open_ | close | posix_spawn | posix_spawnp
  deriving DecidableEq

/-- `VOYEUR_LOOKUP_NEXT` and `VOYEUR_CALL_NEXT`. -/
inductive PointerUse
  | lookup (f : NextFunction)
  | call (f : NextFunction)
  deriving DecidableEq

/-- The functions that a library calls. -/
def Lib.functions : Lib → List NextFunction
  | .open_ => [.open_]
  | .close => [.close]
  | .posixSpawn => [.posix_spawn, .posix_spawnp]

def SpawnFunction.next : SpawnFunction → NextFunction
  | .posix_spawn => .posix_spawn
  | .posix_spawnp => .posix_spawnp

/-- The answers of the system during one call. -/
structure Answers where
  /-- A call of `socket` succeeds. -/
  socket : Bool
  /-- One of the calls of `connect` for a new socket succeeds. -/
  connected : Bool
  accessible : Bool
  cwd : Option CStr
  /-- The result of the real function, `close` apart. -/
  real : Outcome
  /-- What `posix_spawn` leaves in the variable for the child's number. -/
  child : CInt
  /-- The results of closing what is open; later ones are successes. -/
  closing : List Outcome
  deriving DecidableEq

/-- The variables in which `libvoyeur-exec` keeps the environment of the first call. -/
structure SpawnCache where
  libs : Option CStr
  opts : Option CStr
  sockpath : Option CStr
  deriving DecidableEq

/-- What comes out of a call of `posix_spawn`. -/
structure SpawnReturn where
  retval : CInt
  /-- The writes of the event, if there is a socket. -/
  written : List WriteCall
  /-- What `*pid` is set to; nothing if `pid` is `NULL`. -/
  stored : Option CInt
  deriving DecidableEq

/-- The preloaded libraries, besides `libvoyeur-exec`. -/
structure Preloaded where
  open_ : Bool
  close : Bool
  exit : Bool
  deriving DecidableEq

structure World where
  environ : ArrayPtr
  pid : CInt
  ppid : CInt
  libs : Lib → Library
  /-- The connection that a library has opened for itself. -/
  own : Lib → ℕ
  cache : SpawnCache
  didExitAlready : Bool
  errno : CInt
  table : List (ℕ × Target)
  links : ℕ → Link
  /-- The number of the next connection. -/
  opened : ℕ
  answers : Answers
  calls : List NextCall
  /-- What was done with the pointers of the libraries. -/
  uses : List PointerUse
  sent : List Sent
  closes : List CloseRecord
  /-- The process has crashed or waits for ever, or its image was replaced. -/
  halted : Bool

inductive Halt | crashed | blocked | replaced
  deriving DecidableEq

/-- The functions of the libraries. -/
abbrev Observed := EStateM Halt World

namespace World

/-- The entries of the environment, of which there are none without an array. -/
def vars (w : World) : List CStr := (strings w.environ).getD []

def target (w : World) (fd : ℤ) : Option Target :=
  if 0 ≤ fd then w.table.lookup fd.toNat else none

/-- The number of the next file. -/
def free (w : World) : ℕ := FileTree.lowestFree (w.table.map Prod.fst)

def allocate (w : World) (t : Target) : World := { w with table := (w.free, t) :: w.table }

def setLib (w : World) (l : Lib) (lib : Library) : World :=
  { w with libs := Function.update w.libs l lib }

def called (w : World) (call : NextCall) : World := { w with calls := w.calls ++ [call] }

def used (w : World) (uses : List PointerUse) : World := { w with uses := w.uses ++ uses }

/-- The variable of the socket is set to -1. -/
def dropSocket (w : World) (l : Lib) : World := w.setLib l { w.libs l with sock := -1 }

/-- The library is no longer initialized. -/
def forget (w : World) (l : Lib) : World :=
  w.setLib l { w.libs l with initialized := false, next_of_initialized := fun h => by cases h }

/-- The destructor of `close` has begun. -/
def finalize (w : World) : World := w.setLib .close { w.libs .close with finalized := true }

def recorded (w : World) (r : CloseRecord) : World := { w with closes := w.closes ++ [r] }

/-- Take a number out of the table. -/
def release (w : World) (fd : ℤ) : World := { w with table := FileTree.remove w.table fd.toNat }

/-- A new connection. -/
def connect (w : World) (type : EventType) (opts : Byte) : World :=
  { w.allocate (.connection w.opened) with
    links := Function.update w.links w.opened ⟨type, opts, w.answers.connected, [], false⟩
    opened := w.opened + 1 }

/-- Bytes that are meant for one connection and sent on another, or the same. -/
def sendTo (w : World) (own i : ℕ) (bytes : Bytes) (last : Bool) : World :=
  { w with
    links := Function.update w.links i { w.links i with
      bytes := (w.links i).bytes ++ bytes
      finished := (w.links i).finished || last }
    sent := w.sent ++ [⟨own, .connection i⟩] }

/-- Whether bytes can be sent on a number. -/
def usable (w : World) (fd : ℤ) : Bool :=
  match w.target fd with
  | some (.connection i) => (w.links i).connected
  | some .socket => true
  | some .file => false
  | none => false

/--
The child of a `fork`, with the number `child`. Other threads of its parent held the mutexes of
the libraries `held`, and nobody in the child will release them.
-/
def forked (w : World) (child : CInt) (held : List Lib) : World :=
  { w with
    pid := child
    ppid := w.pid
    libs := fun l => { w.libs l with locked := (w.libs l).locked || decide (l ∈ held) } }

/-- Whether a library that connects now gets a socket. -/
def connects (w : World) : Bool :=
  (getenv w.vars varSocket).isSome && w.answers.socket

/-- A library has a socket in its variable. -/
def Cached (w : World) (l : Lib) : Prop := (w.libs l).initialized = true ∧ 0 ≤ (w.libs l).sock

instance (w : World) (l : Lib) : Decidable (w.Cached l) := by
  unfold Cached; infer_instance

end World

namespace Observed

def ebadf : CInt := 9

def enotsock : CInt := 88

def enotconn : CInt := 107

def varPath : CStr := ascii ['P', 'A', 'T', 'H', '=']

/--
`voyeur_create_client_socket`, with the variable of the environment that it is called on. The
socket is returned even if it cannot be connected.
-/
def createClientSocket (type : EventType) (opts : Byte) : Observed ℤ := fun w =>
  match getenv w.vars varSocket with
  | none => .error .crashed w
  | some _ =>
      if w.answers.socket then .ok w.free (w.connect type opts) else .ok (-1) w

/-- A sequence of `voyeur_write_*` calls, and whether they sent anything. -/
def sendOn (own : ℕ) (fd : ℤ) (calls : List WriteCall) (last : Bool) : Observed Bool := fun w =>
  if wire calls = [] then .ok false w
  else match w.target fd with
    | some (.connection i) =>
        if (w.links i).connected then .ok true (w.sendTo own i (wire calls) last)
        else .ok false { w with errno := enotconn }
    | some .socket => .ok true { w with sent := w.sent ++ [⟨own, .socket⟩] }
    | some .file => .ok false { w with errno := enotsock }
    | none => .ok false { w with errno := ebadf }

/-- Write an event, or what there is of it. -/
def emit (own : ℕ) (fd : ℤ) (x : Writing) : Observed Bool := do
  let sent ← sendOn own fd x.calls false
  if x.crashes then throw .crashed
  return sent

def lock (l : Lib) : Observed PUnit := do
  if ((← get).libs l).locked then throw .blocked

/-- What the first call of a library's function does. -/
def initialize_ (l : Lib) : Observed PUnit := do
  let w ← get
  if !(w.libs l).initialized then
    let opts := clientOptions w.vars l.type
    let sock ← createClientSocket l.type opts
    modify fun w' => { w'.setLib l ((w'.libs l).init opts sock) with
      own := Function.update w'.own l w.opened
      cache :=
        if l = .posixSpawn then
          ⟨getenv w.vars varLibs, getenv w.vars varOpts,
            getenv w.vars varSocket⟩
        else w'.cache
      uses := w'.uses ++ l.functions.map .lookup }

/-- `VOYEUR_CALL_NEXT`, up to the call itself. -/
def callNext (l : Lib) (f : NextFunction) : Observed PUnit := do
  modify fun w => w.used [.call f]
  if !((← get).libs l).next then throw .crashed

/-- Write an event on the socket of a library, given its options and the answer of `access`. -/
def report (l : Lib) (x : Byte → Bool → Writing) : Observed Bool := do
  let w ← get
  if 0 ≤ (w.libs l).sock then
    emit (w.own l) (w.libs l).sock (x (w.libs l).opts w.answers.accessible)
  else return false

/-- The real `close`. The number is free afterwards, also when it reports an error. -/
def realClose (fd : ℤ) : Observed CInt := fun w =>
  match w.target fd, w.answers.closing with
  | none, _ => .ok (-1) { w.called (.close fd) with errno := ebadf }
  | some _, .failed e :: closing =>
      .ok (-1) { (w.called (.close fd)).release fd with
        errno := e, answers := { w.answers with closing := closing } }
  | some _, .ok _ :: closing =>
      .ok 0 { (w.called (.close fd)).release fd with
        answers := { w.answers with closing := closing } }
  | some _, [] => .ok 0 ((w.called (.close fd)).release fd)

/-- The interposed `close` after its destructor. -/
def forwardClose (caller : Caller) (fildes : ℤ) : Observed CInt := do
  callNext .close .close
  let retval ← realClose fildes
  modify fun w => w.recorded ⟨caller, fildes, retval, false⟩
  return retval

/-- The interposed `close` before its destructor. -/
def reportClose (caller : Caller) (fildes : ℤ) : Observed CInt := do
  lock .close
  initialize_ .close
  callNext .close .close
  let retval ← realClose fildes
  let pid := (← get).pid
  let reported ← report .close (ClientEvent.close (BitVec.ofInt 32 fildes) retval pid).writing
  modify fun w => w.recorded ⟨caller, fildes, retval, reported⟩
  return retval

/-- The interposed `close`. -/
def close (caller : Caller) (fildes : ℤ) : Observed CInt := do
  if ((← get).libs .close).finalized then forwardClose caller fildes
  else reportClose caller fildes

/-- What the name `close` means in a process. -/
def anyClose (L : Preloaded) (caller : Caller) (fildes : ℤ) : Observed CInt :=
  if L.close then close caller fildes else realClose fildes

/-- The loop of `voyeur_close_socket`, with a bound on its length. -/
def closeLoop (L : Preloaded) (fd : ℤ) : ℕ → Observed PUnit
  | 0 => return ⟨⟩
  | n + 1 => do
    let retval ← anyClose L .library fd
    if retval = -1 ∧ (← get).errno = eintr then closeLoop L fd n

/-- `voyeur_close_socket`. Every interrupted call uses up one of the results to come. -/
def closeSocket (L : Preloaded) (fd : ℤ) : Observed PUnit := do
  closeLoop L fd ((← get).answers.closing.length + 1)

/-- What a destructor does under the mutex. -/
def unload (L : Preloaded) (l : Lib) : Observed PUnit := do
  let w ← get
  if (w.libs l).initialized then
    if 0 ≤ (w.libs l).sock then
      let _ ← sendOn (w.own l) (w.libs l).sock [writeMsgType .done] true
      closeSocket L (w.libs l).sock
      modify fun w => w.dropSocket l
    modify fun w => w.forget l

/-- The destructors. -/
def cleanup (L : Preloaded) (l : Lib) : Observed PUnit := do
  lock l
  if l = .close then
    modify World.finalize
  unload L l

/-- The real `open`. -/
def realOpen (path : Option CStr) (oflag mode : CInt) : Observed CInt := fun w =>
  let w := w.called (.open_ path oflag (if creates oflag then some mode else none))
  match w.answers.real with
  | .ok _ => .ok (BitVec.ofNat 32 w.free) (w.allocate .file)
  | .failed e => .ok (-1) { w with errno := e }

/-- The interposed `open`. -/
def open_ (path : Option CStr) (oflag mode : CInt) : Observed CInt := do
  lock .open_
  initialize_ .open_
  callNext .open_ .open_
  let retval ← realOpen path oflag mode
  let w ← get
  let _ ← report .open_ (ClientEvent.open_ path oflag mode retval w.answers.cwd w.pid).writing
  return retval

/-- `voyeur_augment_environment`, which follows all its pointers. -/
def augment : (envp : Option (List CStr)) → (libs opts sockpath : Option CStr) →
    Observed (List CStr)
  | some envp, some libs, some opts, some sockpath =>
      return augmentEnvironment envp libs opts sockpath
  | _, _, _, _ => throw .crashed

/-- The real `posix_spawn` and `posix_spawnp`, which return an error number. -/
def realSpawn (function : SpawnFunction) (path : Option CStr) (argv : Option (List CStr))
    (envp : List CStr) : Observed CInt := fun w =>
  let w := w.called (.spawn function path argv envp)
  match w.answers.real with
  | .ok _ => .ok 0 w
  | .failed e => .ok e w

/-- The interposed `posix_spawn` and `posix_spawnp`, with a `pid` that may be `NULL`. -/
def posixSpawn (function : SpawnFunction) (pid : Bool) (path : Option CStr)
    (argv envp : ArrayPtr) : Observed SpawnReturn := do
  lock .posixSpawn
  initialize_ .posixSpawn
  let cache := (← get).cache
  let voyeurEnvp ← augment (strings envp) cache.libs cache.opts cache.sockpath
  callNext .posixSpawn function.next
  let retval ← realSpawn function path (strings argv) voyeurEnvp
  let w ← get
  let childPid := w.answers.child
  let event := fun options accessible => execWriting options accessible path (strings argv)
    (strings envp) (getenv w.vars varPath) w.answers.cwd childPid w.pid
  let _ ← report .posixSpawn event
  return {
    retval := retval
    written :=
      if 0 ≤ (w.libs .posixSpawn).sock then
        (event (w.libs .posixSpawn).opts w.answers.accessible).calls
      else []
    stored := if pid then some childPid else none }

/-- The real `execve` and `execvpe`, which return if they fail. -/
def realExec (function : ExecFunction) (path : Option CStr) (argv : Option (List CStr))
    (envp : List CStr) : Observed CInt := fun w =>
  let w := w.called (.exec function path argv envp)
  match w.answers.real with
  | .ok _ => .error .replaced w
  | .failed e => .ok (-1) { w with errno := e }

/-- A connection for the messages of one call. -/
def oneConnection (L : Preloaded) (type : EventType) (opts : Byte) (x : Writing) :
    Observed PUnit := do
  let own := (← get).opened
  let sock ← createClientSocket type opts
  if 0 ≤ sock then
    let _ ← emit own sock x
    let _ ← sendOn own sock [writeMsgType .done] true
    closeSocket L sock

/-- What the exec functions have in common, on arrays that are not too long for their loops. -/
def exec (L : Preloaded) (function : ExecFunction) (path : Option CStr)
    (argv envp : Option (List CStr)) : Observed CInt := do
  let w ← get
  let libs := getenv w.vars varLibs
  let opts := getenv w.vars varOpts
  let options := clientOptions w.vars .exec
  let sockpath := getenv w.vars varSocket
  oneConnection L .exec options (execWriting options w.answers.accessible path argv envp
    (getenv w.vars varPath) w.answers.cwd w.pid w.ppid)
  let voyeurEnvp ← augment envp libs opts sockpath
  realExec function path argv voyeurEnvp

def execve (L : Preloaded) (path : Option CStr) (argv envp : ArrayPtr) : Observed CInt :=
  exec L .execve path (strings argv) (strings envp)

def execvpe (L : Preloaded) (path : Option CStr) (argv envp : ArrayPtr) : Observed CInt :=
  exec L .execvpe path (strings argv) (strings envp)

def execvp (L : Preloaded) (path : Option CStr) (argv : ArrayPtr) : Observed CInt := do
  exec L .execvpe path (strings argv) (strings (← get).environ)

/-- The arguments that follow `start`. -/
abbrev VarArgs := {l : List CStr // l.length + 1 < intMax.toNat - 1}

/-- `VARARGS_TO_ARGV`. The path takes the place of `start`. -/
def varargsToArgv (path _start : CStr) (rest : VarArgs) : StringArray :=
  ⟨path :: rest.val, by simpa using rest.property⟩

def execlp (L : Preloaded) (path start : CStr) (rest : VarArgs) : Observed CInt := do
  let argv := some (varargsToArgv path start rest)
  exec L .execvpe (some path) (strings argv) (strings (← get).environ)

def execv (L : Preloaded) (path : Option CStr) (argv : ArrayPtr) : Observed CInt := do
  execve L path argv (← get).environ

def execl (L : Preloaded) (path start : CStr) (rest : VarArgs) : Observed CInt := do
  execve L (some path) (some (varargsToArgv path start rest)) (← get).environ

def execle (L : Preloaded) (path start : CStr) (rest : VarArgs) (envp : ArrayPtr) :
    Observed CInt :=
  execve L (some path) (some (varargsToArgv path start rest)) envp

/-- `write_exit_event`, as the wrappers and the handler of `libvoyeur-exit` call it. -/
def writeExitEvent (L : Preloaded) (status : CInt) : Observed PUnit := do
  let w ← get
  if !w.didExitAlready then
    modify fun w => { w with didExitAlready := true }
    let options := clientOptions w.vars .exit
    oneConnection L .exit options ((ClientEvent.exit status w.pid w.ppid).writing options false)

end Observed

inductive ExecRequest
  | execve (path : Option CStr) (argv envp : ArrayPtr)
  | execvp (path : Option CStr) (argv : ArrayPtr)
  | execvpe (path : Option CStr) (argv envp : ArrayPtr)
  | execlp (path start : CStr) (rest : Observed.VarArgs)
  | execv (path : Option CStr) (argv : ArrayPtr)
  | execl (path start : CStr) (rest : Observed.VarArgs)
  | execle (path start : CStr) (rest : Observed.VarArgs) (envp : ArrayPtr)
  deriving DecidableEq

inductive Deal
  | open_ (path : Option CStr) (oflag mode : CInt)
  | close (fildes : ℤ)
  | socket
  /-- The application changes its environment; after `clearenv` there is no array. -/
  | setenv (environ : ArrayPtr)
  | posixSpawn (function : SpawnFunction) (path : Option CStr) (argv envp : ArrayPtr)
  | exec (request : ExecRequest)
  | exit (status : CInt)
  | cleanup (l : Lib)
  /-- `fork` or `vfork`, after which the run is that of the child. -/
  | fork (child : CInt) (held : List Lib)
  deriving DecidableEq

/-- The interposed exec functions. -/
def ExecRequest.perform (L : Preloaded) : ExecRequest → Observed CInt
  | .execve path argv envp => Observed.execve L path argv envp
  | .execvp path argv => Observed.execvp L path argv
  | .execvpe path argv envp => Observed.execvpe L path argv envp
  | .execlp path start rest => Observed.execlp L path start rest
  | .execv path argv => Observed.execv L path argv
  | .execl path start rest => Observed.execl L path start rest
  | .execle path start rest envp => Observed.execle L path start rest envp

/-- What the names mean in a process with these libraries. -/
def Deal.perform (L : Preloaded) : Deal → Observed PUnit
  | .open_ path oflag mode => do
      if L.open_ then discard (Observed.open_ path oflag mode)
      else discard (Observed.realOpen path oflag mode)
  | .close fildes => discard (Observed.anyClose L .application fildes)
  | .socket => modify fun w => if w.answers.socket then w.allocate .socket else w
  | .setenv environ => modify fun w => { w with environ := environ }
  | .fork child held => modify fun w => w.forked child held
  | .posixSpawn function path argv envp =>
      -- The process does not depend on where the number of the child goes.
      discard (Observed.posixSpawn function false path argv envp)
  | .exec request => discard (request.perform L)
  | .exit status => if L.exit then Observed.writeExitEvent L status else return ⟨⟩
  | .cleanup l =>
      match l with
      | .open_ => if L.open_ then Observed.cleanup L l else return ⟨⟩
      | .close => if L.close then Observed.cleanup L l else return ⟨⟩
      | .posixSpawn => Observed.cleanup L l

namespace World

/-- One call, for which the system has these answers. -/
def step (L : Preloaded) (w : World) (a : Deal × Answers) : Option World :=
  if w.halted then none
  else match a.1.perform L { w with answers := a.2 } with
    | .ok _ w' => some w'
    | .error _ w' => some { w' with halted := true }

/-- A library that was just loaded. -/
def freshLibrary : Library := ⟨false, false, false, 0, 0, false, fun h => by cases h⟩

/-- A process at its start, with the descriptors `table` of files. -/
def start (environ : StringArray) (pid ppid : CInt) (table : List ℕ) : World where
  environ := some environ
  pid := pid
  ppid := ppid
  libs _ := freshLibrary
  own _ := 0
  cache := ⟨none, none, none⟩
  didExitAlready := false
  errno := 0
  table := table.map fun fd => (fd, .file)
  links _ := ⟨.exec, 0, false, [], false⟩
  opened := 0
  answers := ⟨false, false, false, none, .ok 0, 0, []⟩
  calls := []
  uses := []
  sent := []
  closes := []
  halted := false

variable {w w' : World} {l l' : Lib} {fd : ℤ}

theorem target_eq_some {t : Target} (h : w.target fd = some t) :
    0 ≤ fd ∧ w.table.lookup fd.toNat = some t := by
  unfold target at h
  split at h
  · next hn => exact ⟨hn, h⟩
  · cases h

theorem target_free : w.target w.free = none := by
  unfold target
  rw [if_pos (Int.natCast_nonneg _), Int.toNat_natCast, List.lookup_eq_none_iff]
  intro e he
  have hm : e.1 ∈ w.table.map Prod.fst := List.mem_map_of_mem he
  have hn : w.free ∉ w.table.map Prod.fst := FileTree.lowestFree_notMem _
  rw [bne_iff_ne]
  intro hf
  exact hn (hf ▸ hm)

theorem ne_free (h : w.target fd ≠ none) : fd ≠ w.free := by
  rintro rfl
  exact h target_free

theorem target_allocate (w : World) (t : Target) (fd : ℤ) :
    (w.allocate t).target fd = if fd = w.free then some t else w.target fd := by
  unfold target allocate
  by_cases hfd : fd = w.free
  · subst hfd
    simp
  · rw [if_neg hfd]
    split
    · next hn =>
      have hne : (fd.toNat == w.free) = false := by
        rw [beq_eq_false_iff_ne]
        omega
      rw [List.lookup_cons, hne]
    · rfl

theorem target_allocate_self (t : Target) : (w.allocate t).target w.free = some t := by
  rw [target_allocate, if_pos rfl]

theorem target_release (hn : 0 ≤ fd) (fd' : ℤ) :
    (w.release fd).target fd' = if fd' = fd then none else w.target fd' := by
  unfold target release
  by_cases hfd : fd' = fd
  · subst hfd
    simp
  · rw [if_neg hfd]
    split
    · next hn' =>
      refine FileTree.lookup_remove_of_ne ?_
      omega
    · rfl

theorem connect_self (type : EventType) (opts : Byte) :
    (w.connect type opts).links w.opened = ⟨type, opts, w.answers.connected, [], false⟩ :=
  Function.update_self _ _ _

theorem connect_of_ne {i : ℕ} (h : i ≠ w.opened) (type : EventType) (opts : Byte) :
    (w.connect type opts).links i = w.links i :=
  Function.update_of_ne h _ _

theorem sendTo_self (own i : ℕ) (bytes : Bytes) (last : Bool) :
    (w.sendTo own i bytes last).links i = { w.links i with
      bytes := (w.links i).bytes ++ bytes, finished := (w.links i).finished || last } :=
  Function.update_self _ _ _

theorem sendTo_of_ne {own i j : ℕ} (h : j ≠ i) (bytes : Bytes) (last : Bool) :
    (w.sendTo own i bytes last).links j = w.links j :=
  Function.update_of_ne h _ _

theorem setLib_self (l : Lib) (lib : Library) : (w.setLib l lib).libs l = lib :=
  Function.update_self _ _ _

theorem setLib_of_ne (h : l' ≠ l) (lib : Library) : (w.setLib l lib).libs l' = w.libs l' :=
  Function.update_of_ne h _ _

theorem target_congr (h : w'.table = w.table) (fd : ℤ) : w'.target fd = w.target fd := by
  unfold target
  rw [h]

end World

end Voyeur
