import Voyeur.Environment.Libs
import Voyeur.Environment.Options
import Voyeur.Memory.Programs

/-! # The calls of the host program

The functions of `voyeur.h` with the blocks that they allocate, point to and free. What they
write into strings is computed by the functions without a heap. A string whose NUL does
not fit into its block is read on into what stands behind it.
-/

namespace Voyeur.Host

open Allocator (Heap Prog)
open Allocator.Prog (alloc free load stop write)
open FileTree (strrchr slash)

/-- A pointer in the array of an environment: to a string of the host, or into an `env_buf`. -/
inductive Entry
  | host (s : CStr)
  | buf (a i : ℕ)
  deriving DecidableEq

/-- What is in a block. -/
inductive Cell
  | context (observed : Context) (resourcePath serverState : Option ℕ)
  | chars (size : ℕ) (s : CStr)
  | serverState (sunPath : CStr) (serverSock : ℤ) (envBuf : Option ℕ)
  | envBuf (vars : List CStr)
  | environ (entries : List Entry)
  | waitpidArg (childPid childPipeInput : ℤ)

namespace Cell

def context? : Cell → Option (Context × Option ℕ × Option ℕ)
  | .context observed path state => some (observed, path, state)
  | _ => none

def serverState? : Cell → Option (CStr × ℤ × Option ℕ)
  | .serverState sunPath serverSock buf => some (sunPath, serverSock, buf)
  | _ => none

def waitpidArg? : Cell → Option (ℤ × ℤ)
  | .waitpidArg childPid childPipeInput => some (childPid, childPipeInput)
  | _ => none

/-- A string, as it is read with the bytes behind its block. -/
def string? (behind : Bytes) : Cell → Option CStr
  | .chars size s => some (if s.length < size then s else cString (s ++ behind))
  | _ => none

/-- The variables in an `env_buf`. -/
def vars? : Cell → Option (List CStr)
  | .envBuf vars => some vars
  | _ => none

def entries? : Cell → Option (List Entry)
  | .environ entries => some entries
  | _ => none

end Cell

/-- What `voyeur_prepare` gets from outside. -/
structure Outcome where
  /-- The path and the result of `voyeur_create_server_socket`. -/
  sunPath : CStr
  serverSock : ℤ
  /-- The address of `did_force_exec`. -/
  dummy : ℕ
  /-- What `dladdr` finds. -/
  dlinfo : Option (Option CStr)
  /-- The bytes behind each block. -/
  behind : ℕ → Bytes

/-- `voyeur_context_create`. -/
def contextCreate : Prog Cell ℕ := alloc (.context ⟨fun _ => ⟨0, none, 0⟩⟩ none none)

/-- The context with another observer for an event type. -/
def register (observed : Context) (t : EventType) (o : Observer) : Context where
  observer t' := if t' = t then o else observed.observer t'

/-- The body that `ON_EVENT` gives to the functions `voyeur_observe_*`. -/
def observe (t : EventType) (context : ℕ) (o : Observer) : Prog Cell Unit := do
  let (observed, resourcePath, serverState) ← load Cell.context? context
  write context (.context (register observed t o) resourcePath serverState)

def observeExec : ℕ → Observer → Prog Cell Unit := observe .exec
def observeExit : ℕ → Observer → Prog Cell Unit := observe .exit
def observeOpen : ℕ → Observer → Prog Cell Unit := observe .open_
def observeClose : ℕ → Observer → Prog Cell Unit := observe .close

/-- `voyeur_set_resource_path`. -/
def setResourcePath (context : ℕ) (path : CStr) : Prog Cell Unit := do
  let size := strnlen path 4096
  let buffer ← alloc (.chars size [])
  let (observed, _, serverState) ← load Cell.context? context
  write context (.context observed (some buffer) serverState)
  write buffer (.chars size (strlcat [] path 4096))

/-- What `voyeur_context_destroy` does with the state of the server. -/
def freeServerState (state : ℕ) : Prog Cell Unit := do
  let (_, _, envBuf) ← load Cell.serverState? state
  envBuf.forM free
  free state

/-- `voyeur_context_destroy`. -/
def contextDestroy (context : ℕ) : Prog Cell Unit := do
  let (_, resourcePath, serverState) ← load Cell.context? context
  resourcePath.forM free
  serverState.forM freeServerState
  free context

def readString (o : Outcome) (a : ℕ) : Prog Cell CStr := load (Cell.string? (o.behind a)) a

/-- `get_default_resource_path`: the directory, and its block if there is one to free. -/
def defaultResourcePath (dlinfo : Option (Option CStr)) : Prog Cell (CStr × Option ℕ) :=
  match dlinfo.join.bind (strrchr · slash) with
  | some i => do
    let libdir ← alloc (.chars (i + 2) (getDefaultResourcePath dlinfo))
    return (getDefaultResourcePath dlinfo, some libdir)
  | none => return (getDefaultResourcePath dlinfo, none)

/-- The directory of the libraries in `voyeur_requested_libs`, and its block if that is to free. -/
def libdir (o : Outcome) (resourcePath : Option ℕ) : Prog Cell (CStr × Option ℕ) :=
  match resourcePath with
  | some path => do return (← readString o path, none)
  | none => defaultResourcePath o.dlinfo

/-- `voyeur_requested_libs`. -/
def requestedLibs (o : Outcome) (context : ℕ) : Prog Cell ℕ := do
  let (observed, resourcePath, serverState) ← load Cell.context? context
  let (dir, allocated) ← libdir o resourcePath
  let r := Voyeur.requestedLibs o.dummy o.dlinfo
    { toContext := observed, resourcePath := some dir }
  let libs ← alloc (.chars r.2.1 r.2.2.libs)
  write context (.context r.1.toContext resourcePath serverState)
  allocated.forM free
  return libs

/-- `voyeur_requested_opts`. -/
def requestedOpts (context : ℕ) : Prog Cell ℕ := do
  let opts ← alloc (.chars eventMax [])
  let (observed, resourcePath, serverState) ← load Cell.context? context
  write context (.context (Voyeur.requestedOpts observed).1 resourcePath serverState)
  write opts (.chars eventMax (Voyeur.requestedOpts observed).2)
  return opts

/-- The four variables that go into an `env_buf`. -/
def newVars (envp : List CStr) (libs opts sockpath : CStr) : List CStr :=
  [envEntry varLibs libs, envEntry varOpts opts, envEntry varSocket sockpath,
    insertEntry ((scanInsert envp 0 none).map Prod.snd) libs]

/-- The pointers of the new array, with the variables at `buf`. -/
def newEntries (envp : List CStr) (buf : ℕ) : List Entry :=
  let newenvp := envp.map .host ++ [.buf buf 0, .buf buf 1, .buf buf 2]
  match scanInsert envp 0 none with
  | some (i, _) => newenvp.set i (.buf buf 3)
  | none => newenvp ++ [.buf buf 3]

/-- `voyeur_augment_environment`, called with the `env_buf` of a server's state. -/
def augmentEnvironment (o : Outcome) (envp : List CStr) (libs opts state : ℕ) : Prog Cell ℕ := do
  let libs ← readString o libs
  let opts ← readString o opts
  let (sunPath, serverSock, _) ← load Cell.serverState? state
  let buf ← alloc (.envBuf [])
  write state (.serverState sunPath serverSock (some buf))
  write buf (.envBuf (newVars envp libs opts sunPath))
  alloc (.environ (newEntries envp buf))

/-- The array that `voyeur_prepare` returns, and the two strings that it does not free. -/
structure Prepared where
  newenvp : ℕ
  libs : ℕ
  opts : ℕ

/-- The `calloc` of the server's state. -/
def newServerState (context : ℕ) : Prog Cell ℕ := do
  let state ← alloc (.serverState [] 0 none)
  let (observed, resourcePath, _) ← load Cell.context? context
  write context (.context observed resourcePath (some state))
  return state

/-- `voyeur_prepare`. -/
def prepare (o : Outcome) (envp : List CStr) (context : ℕ) : Prog Cell (Option Prepared) := do
  let state ← newServerState context
  write state (.serverState o.sunPath o.serverSock none)
  if o.serverSock < 0 then
    return none
  let libs ← requestedLibs o context
  let opts ← requestedOpts context
  let newenvp ← augmentEnvironment o envp libs opts state
  return some ⟨newenvp, libs, opts⟩

/-- `voyeur_start` up to the loop of the server: the server's state and the thread's argument. -/
def start (context : ℕ) (child pipe : ℤ) : Prog Cell (ℕ × ℕ) := do
  let (_, _, serverState) ← load Cell.context? context
  match serverState with
  | some state => do
    let arg ← alloc (.waitpidArg child pipe)
    let _ ← load Cell.serverState? state
    return (state, arg)
  | none => stop

/-- `waitpid_thread`, once the child has terminated. -/
def waitpidThread (arg : ℕ) : Prog Cell Unit := do
  let _ ← load Cell.waitpidArg? arg
  free arg

/-- `voyeur_start` behind the loop, where the path of the socket is cut. -/
def startReturns (state : ℕ) : Prog Cell Unit := do
  let (sunPath, serverSock, envBuf) ← load Cell.serverState? state
  match strrchr sunPath slash with
  | some lastSlash => write state (.serverState (sunPath.take lastSlash) serverSock envBuf)
  | none => pure ()

/--
`voyeur_exec` up to the loop of the server. The child is that of `posix_spawnp`, with the pipe of
the thread that waits for it.
-/
def exec (o : Outcome) (envp : List CStr) (context : ℕ) (child : Option (ℤ × ℤ)) :
    Prog Cell (Option Prepared × Option (ℕ × ℕ)) := do
  match ← prepare o envp context with
  | none => return (none, none)
  | some r =>
    match child with
    | none => do
      free r.newenvp
      return (some r, none)
    | some (child, pipe) => return (some r, some (← start context child pipe))

/-- `voyeur_exec` behind the loop. -/
def execReturns (state newenvp : ℕ) : Prog Cell Unit := do
  startReturns state
  free newenvp

end Voyeur.Host
