import Voyeur.Concurrent.Protocol
import Voyeur.Fork.Tree

/-! # The threads of an observed process

Any number of threads call the interposed `open`, `close`, `posix_spawn` and
`posix_spawnp`, and run the destructors. They share the static variables of the
libraries, and the connections to the server. The interposed `close` looks at
`voyeur_close_finalized` before it takes its mutex, and calls through `voyeur_close_next`
without it when the library is finalized. A destructor that closes its socket calls the
interposed `close`, with its own mutex still held. The process crashes in a call through a
pointer that is still `NULL`, in the setup of a library if `LIBVOYEUR_SOCKET` is missing, and
in `posix_spawn` if `LIBVOYEUR_LIBS` or `LIBVOYEUR_OPTS` is. The program leaves the sockets of
the libraries and these variables alone.
-/

namespace Voyeur

namespace Threaded

open Threads (Instr)

/-- A socket of a library. -/
structure Socket where
  fd : CInt
  /-- The connection that it is used for, if it could be connected. -/
  conn : Option ℕ
  deriving DecidableEq

/-- The static variables of a library, apart from `finalized`. -/
structure Statics where
  initialized : Bool
  sock : Option Socket
  deriving DecidableEq

/-- A call of a real function, and the connection that the library had then. -/
structure Made where
  event : ClientEvent
  conn : Option ℕ
  deriving DecidableEq

/-- Which variables of the environment are set. -/
structure Variables where
  /-- `LIBVOYEUR_SOCKET`. -/
  socket : Bool
  /-- `LIBVOYEUR_LIBS` and `LIBVOYEUR_OPTS`. -/
  passedOn : Bool
  deriving DecidableEq

def Variables.all : Variables := ⟨true, true⟩

/-- What the threads share, and the server. -/
structure Shared where
  statics : Lib → Statics
  /-- `voyeur_close_finalized`. -/
  finalized : Bool
  /-- `voyeur_close_next` is the real function, and not `NULL`. -/
  closeNext : Bool
  vars : Variables
  crashed : Bool
  config : Config
  /-- The calls of the real functions so far. -/
  calls : List Made

inductive Op
  /-- The connection is made when the library is used for the first time. -/
  | initialize_ (l : Lib)
  /-- The real function; a real `close` may close the socket of another library. -/
  | real (l : Lib) (own : Option Lib) (e : ClientEvent)
  | report (l : Lib) (e : ClientEvent)
  /-- `do_write` on what is left of a message. -/
  | send (l : Lib) (bufs : List Bytes)
  /-- The interposed `close` reads `voyeur_close_finalized`. -/
  | check (own : Option Lib) (e : ClientEvent)
  /-- The real `close` without an event. -/
  | forward (own : Option Lib) (e : ClientEvent)
  /-- A destructor has its mutex. -/
  | cleanup (l : Lib)
  | unload (l : Lib)
  /-- The variable of the socket is set to -1. -/
  | dropSocket (l : Lib)
  | forget (l : Lib)
  deriving DecidableEq

/--
The libraries whose static variables or sockets an operation uses. `voyeur_close_finalized` and
`voyeur_close_next` do not count: `check` and `forward` read them without the mutex.
-/
def Op.Uses : Op → Lib → Prop
  | .initialize_ l, k | .report l _, k | .send l _, k | .cleanup l, k | .unload l, k
  | .dropSocket l, k | .forget l, k => k = l
  | .real l own _, k => k = l ∨ own = some k
  | .check own _, k | .forward own _, k => own = some k

/-- What the system, the server or the scheduler chooses in one operation. -/
inductive Choice
  | plain
  | connect (i : ℕ) (fd : CInt)
  /-- There is a socket, but it could not be connected. -/
  | unconnected (fd : CInt)
  | noSocket
  | accessible (answer : Bool)
  | bytes (n : ℕ)
  | fails
  /-- A send fails with `EAGAIN`, `EWOULDBLOCK` or `EINTR`. -/
  | again
  | retval (value : CInt)
  deriving DecidableEq

abbrev Code := List (Instr Lib Op)

namespace Shared

def setStatics (d : Shared) (l : Lib) (s : Statics) : Shared :=
  { d with statics := Function.update d.statics l s }

/-- The static variables at the end of the setup of a library. -/
def setUp (d : Shared) (l : Lib) (sock : Option Socket) : Shared :=
  { d.setStatics l ⟨true, sock⟩ with closeNext := d.closeNext || l = .close }

def crash (d : Shared) : Shared := { d with crashed := true }

/-- The connection of a library. -/
def conn (d : Shared) (l : Lib) : Option ℕ := (d.statics l).sock.bind Socket.conn

/-- The real calls whose events are for a connection. -/
def callsOn (d : Shared) (i : ℕ) : List ClientEvent :=
  d.calls.filterMap fun c => if c.conn = some i then some c.event else none

/-- The socket of a library is closed. -/
def hangUp (S : Setup) (d : Shared) : Option Lib → Config
  | none => d.config
  | some l =>
      match d.conn l with
      | none => d.config
      | some i => (d.config.step S (.hangUp i)).getD d.config

/-- Whether the other end of a connection can still receive. -/
def takes (S : Setup) (d : Shared) (i : ℕ) : Bool :=
  d.config.linked S i && !(d.config.conns i).hungUp

/--
At first the libraries have no socket. A process in which `libvoyeur-close` is not preloaded
closes everything as if this library were finalized, with its pointer set.
-/
def init (S : Setup) (host : ℕ → Bool) (preloadsClose : Bool) (vars : Variables) : Shared where
  statics _ := ⟨false, none⟩
  finalized := !preloadsClose
  closeNext := !preloadsClose
  vars := vars
  crashed := false
  config := Config.init S host
  calls := []

end Shared

/-- What happens under the mutex of a library in a call. -/
def section_ (l : Lib) (own : Option Lib) (e : ClientEvent) : Code :=
  [.lock l, .act (.initialize_ l), .act (.real l own e), .act (.report l e), .unlock l]

def sending (l : Lib) (bufs : List Bytes) : Code :=
  if bufs = [] then [] else [.act (.send l bufs)]

/-- What a program does. A call is given with the results that the system will have for it. -/
inductive ThreadCall
  | call (l : Lib) (e : {e : ClientEvent // e.type = l.type})
  | destructor (l : Lib)
  deriving DecidableEq

def ThreadCall.code : ThreadCall → Code
  | .call .close e => [.act (.check none e)]
  | .call l e => section_ l none e
  | .destructor l => [.lock l, .act (.cleanup l), .unlock l]

/-- The setup in the first call of a library. -/
def setUp (S : Setup) (l : Lib) (choice : Choice) (d : Shared) : Option (Code × Shared) :=
  if (d.statics l).initialized then some ([], d)
  else if d.vars.socket then match choice with
    | .connect i fd => (d.config.step S (.connect i)).map fun c =>
        ([], { d.setUp l (some ⟨fd, some i⟩) with config := c })
    | .unconnected fd => some ([], d.setUp l (some ⟨fd, none⟩))
    | .noSocket => some ([], d.setUp l none)
    | _ => none
  else some ([.act (.initialize_ l)], d.crash)   -- `strlcpy` copies from `NULL`.

/--
The real function. Before it `posix_spawn` extends the environment by the variables, which
`voyeur_augment_environment` copies even from `NULL`.
-/
def callReal (S : Setup) (l : Lib) (own : Option Lib) (e : ClientEvent) (d : Shared) :
    Code × Shared :=
  if l = .posixSpawn && !d.vars.passedOn then ([.act (.real l own e)], d.crash)
  else ([], { d with calls := d.calls ++ [⟨e, d.conn l⟩], config := d.hangUp S own })

/-- The event is written if there is a socket, and, for `posix_spawn`, if the options say so. -/
def reportEvent (S : Setup) (l : Lib) (e : ClientEvent) (choice : Choice) (d : Shared) :
    Option (Code × Shared) :=
  match choice with
  | .accessible answer =>
      match (d.statics l).sock with
      | none => some ([], d)
      | some _ => some (sending l (sends (e.write (S.context.clientOpts e.type) answer)), d)
  | _ => none

/-- One `send`, or the end of a loop of `do_write` because `send` fails. -/
def sendPiece (S : Setup) (l : Lib) (b : Bytes) (bufs : List Bytes) (choice : Choice)
    (d : Shared) : Option (Code × Shared) :=
  match choice with
  | .bytes n =>
      match d.conn l with
      | some i =>
          if 0 < n ∧ n ≤ b.length then
            (d.config.step S (.send i (b.take n))).map fun c =>
              (sending l (Tree.afterSend b n bufs), { d with config := c })
          else none
      | none => none
  | .fails =>
      match d.conn l with
      | some i => if d.takes S i then none else some (sending l bufs, d)
      | none => some (sending l bufs, d)
  | _ => none

/-- What a destructor does under its mutex; `pid` is the number of the process. -/
def unloadLib (pid : CInt) (l : Lib) (choice : Choice) (d : Shared) : Option (Code × Shared) :=
  match choice with
  | .retval value =>
      if (d.statics l).initialized then
        match (d.statics l).sock with
        | none => some ([.act (.forget l)], d)
        | some s =>
            some (sending l (sends [writeMsgType .done]) ++
              [.act (.check (some l) (.close s.fd value pid)), .act (.dropSocket l),
                .act (.forget l)], d)
      else some ([], d)
  | _ => none

/-- The real `close`, through `voyeur_close_next`. -/
def forwardClose (S : Setup) (own : Option Lib) (e : ClientEvent) (d : Shared) : Code × Shared :=
  if d.closeNext then ([], { d with calls := d.calls ++ [⟨e, none⟩], config := d.hangUp S own })
  else ([.act (.forward own e)], d.crash)

/-- An operation that is not made again. -/
def operate (S : Setup) (pid : CInt) (o : Op) (choice : Choice) (d : Shared) :
    Option (Code × Shared) :=
  match o with
  | .initialize_ l => setUp S l choice d
  | .real l own e => some (callReal S l own e d)
  | .report l e => reportEvent S l e choice d
  | .send _ [] => some ([], d)
  | .send l (b :: bufs) => sendPiece S l b bufs choice d
  | .check own e =>
      some (if d.finalized then [.act (.forward own e)] else section_ .close own e, d)
  | .forward own e => some (forwardClose S own e d)
  | .cleanup l =>
      some ([.act (.unload l)], { d with finalized := d.finalized || l = .close })
  | .unload l => unloadLib pid l choice d
  | .dropSocket l => some ([], d.setStatics l { d.statics l with sock := none })
  | .forget l => some ([], d.setStatics l { d.statics l with initialized := false })

/-- `do_write` calls `send` once more. -/
def sendAgain (o : Op) (d : Shared) : Option (Code × Shared) :=
  match o with
  | .send l (b :: bufs) => some ([.act (.send l (b :: bufs))], d)
  | _ => none

def act (S : Setup) (pid : CInt) (o : Op) (choice : Choice) (d : Shared) :
    Option (Code × Shared) :=
  if choice = .again then sendAgain o d else operate S pid o choice d

/-- The steps of the server and of its process. -/
def serverStep (S : Setup) (a : Action) (d : Shared) : Option Shared :=
  if Tree.byServer a then (d.config.step S a).map fun c => { d with config := c } else none

/-- The threads of a process, and the server. -/
def machine (S : Setup) (pid : CInt) :
    Threads.Machine Lib Op Choice ThreadCall Action Shared where
  act := act S pid
  code := ThreadCall.code
  env := serverStep S
  again choice := choice = .again
  stopped := Shared.crashed

end Threaded

end Voyeur
