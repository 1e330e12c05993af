import Voyeur.Stream.LittleEndian
import Voyeur.Stream.Reader
import Voyeur.Wire.Basic

/-! # Reading events

The observer reads a message field by field. A field that the stream cannot
fill makes the handler return; a write outside the buffer that was allocated
for a field has no defined continuation.
-/

namespace Voyeur

/-- The observer's programs: they read bytes and run callbacks. -/
abbrev Rd := StreamReader Byte Call

/-- A pointer to a buffer, as the number of bytes (or slots) it has room for; `NULL` is `none`. -/
abbrev Buffer := Option ℕ

/-- Store one element. A store outside the buffer is undefined behaviour. -/
def store (buf : Buffer) (index : ℤ) : Rd Unit :=
  match buf with
  | some size => if 0 ≤ index ∧ index < size then pure () else .fault
  | none => .fault

/-- `do_read`: its loop runs while the signed count of bytes read is below the size. -/
def doRead (buf : Buffer) (bufSize : Size) : Rd (Option Bytes) :=
  if 0 < bufSize.toInt then
    match buf with
    | some _ => .read bufSize.toNat pure
    | none => pure none   -- `read` into `NULL` fails with `EFAULT` and reads nothing
  else pure (some [])

/-- Read a word of `k` bytes into a variable of that size. -/
def readWord (k : ℕ) : Rd (Option (BitVec (8 * k))) := do
  return (← doRead (some k) (BitVec.ofNat 64 k)).map (LittleEndian.decode k)

def readMsgType : Rd (Option CInt) := readWord 4
def readEventType : Rd (Option CInt) := readWord 4
def readInt : Rd (Option CInt) := readWord 4
def readPid : Rd (Option CInt) := readWord 4
def readSize : Rd (Option Size) := readWord 8

/-- `RETURN_ON_FAIL` in a function without a value. -/
def returnOnFail {β : Type} (p : Rd (Option β)) (k : β → Rd Unit) : Rd Unit := do
  match ← p with
  | some b => k b
  | none => return ()

section

variable (malloc : ℕ → Bool)

/--
`malloc`, where `malloc n` tells whether the allocator grants `n` bytes. No object is
larger than `PTRDIFF_MAX` bytes.
-/
def allocate (size : Size) : Buffer :=
  if size.toNat < 2 ^ 63 ∧ malloc size.toNat then some size.toNat else none

/-- `voyeur_read_string`. The buffer has `maxlen` bytes, or is allocated if `maxlen` is 0. -/
def readString (maxlen : Size) : Rd (Option Bytes) := do
  match ← readSize with
  | none => return none
  | some len =>
    if maxlen ≠ 0 ∧ maxlen ≤ len then
      return none
    else
      let val := if maxlen = 0 then allocate malloc (len + 1) else some maxlen.toNat
      match ← doRead val len with
      | none => return none
      | some bytes =>
        store val len.toNat
        return some bytes

/-- The loop of `handle_exec` that reads `n` strings into the slots from `i` on. -/
def readEntries (slots : Buffer) : (n i : ℕ) → Rd (Option (List Bytes))
  | 0, _ => pure (some [])
  | n + 1, i => do
    match ← readString malloc 0 with
    | none => return none
    | some entry =>
      store slots i
      return (← readEntries slots n (i + 1)).map (entry :: ·)

/-- The part of `handle_exec` that reads an array behind its count, with its `NULL` at the end. -/
def readStrings (count : CInt) : Rd (Option (List Bytes)) :=
  -- The signed sum `count + 1` overflows.
  if count = intMax then .fault
  else do
    let slots := (allocate malloc (8 * (count + 1).signExtend 64)).map (· / 8)
    match ← readEntries malloc slots count.toInt.toNat 0 with
    | none => return none
    | some entries =>
      store slots count.toInt
      return some entries

/-- The part of `handle_exec` that reads a count and an array, as for `argv` and for `envp`. -/
def readArray : Rd (Option (List Bytes)) := do
  match ← readInt with
  | none => return none
  | some count => readStrings malloc count

/-- The value of a field that is only sent when it was asked for. -/
def readIf {β : Type} (asked : Bool) (p : Rd (Option β)) : Rd (Option (Option β)) :=
  if asked then do return (← p).map some else pure (some none)

variable (context : Context)

/-- Run the callback of an event, if there is one. -/
def runCallback (e : Event) : Rd Unit :=
  match (context.observer e.type).cb with
  | some cb => .emit ⟨cb, e, (context.observer e.type).userdata⟩ (pure ())
  | none => pure ()

def handleExec : Rd Unit :=
  returnOnFail (readString malloc 0) fun file =>
  returnOnFail (readArray malloc) fun argv =>
  returnOnFail (readIf (hasFlag (context.opts .exec) observeExecEnv)
    (readArray malloc)) fun envp =>
  returnOnFail (readIf (hasFlag (context.opts .exec) observeExecPath)
    (readString malloc 0)) fun path =>
  returnOnFail (readIf (hasFlag (context.opts .exec) observeExecCwd)
    (readString malloc 0)) fun cwd =>
  returnOnFail readPid fun pid =>
  returnOnFail readPid fun ppid =>
  runCallback context (.exec file argv envp path cwd pid ppid)

def handleExit : Rd Unit :=
  returnOnFail readInt fun status =>
  returnOnFail readPid fun pid =>
  returnOnFail readPid fun ppid =>
  runCallback context (.exit status pid ppid)

def handleOpen : Rd Unit :=
  returnOnFail (readString malloc 0) fun path =>
  returnOnFail readInt fun oflag =>
  returnOnFail readInt fun mode =>
  returnOnFail readInt fun retval =>
  returnOnFail (readIf (hasFlag (context.opts .open_) observeOpenCwd)
    (readString malloc 0)) fun cwd =>
  returnOnFail readPid fun pid =>
  runCallback context (.open_ path oflag mode cwd retval pid)

def handleClose : Rd Unit :=
  returnOnFail readInt fun fildes =>
  returnOnFail readInt fun retval =>
  returnOnFail readPid fun pid =>
  runCallback context (.close fildes retval pid)

/-- `voyeur_handle_event`, with the number that was read as the event type. -/
def handleEvent (type : CInt) : Rd Unit :=
  match EventType.ofNumber type with
  | some .exec => handleExec malloc context
  | some .exit => handleExit context
  | some .open_ => handleOpen malloc context
  | some .close => handleClose context
  -- `SHOULD_NOT_REACH` asserts -1, which never fails, in either build.
  | none => return ()

/-- The branches of `handle_message`. -/
inductive Verdict | handled | done | unknown | failed
  deriving DecidableEq, Repr

/-- The value that `handle_message` returns. -/
def Verdict.code : Verdict → ℤ
  | .handled => 0
  | .done | .unknown | .failed => -1

def handleMessage : Rd Verdict := do
  match ← readMsgType with
  | none => return .failed
  | some msgtype =>
    if msgtype = MsgType.done.number then
      return .done
    else if msgtype = MsgType.event.number then
      match ← readEventType with
      | none => return .failed
      | some type =>
        -- A handler that gives up is not noticed here.
        handleEvent malloc context type
        return .handled
    else
      return .unknown

/-- At most `n` calls of `handle_message` on a connection, until one returns a negative value. -/
def serveConnection (n : ℕ) (s : Bytes) : List Call × StreamReader.Status Byte Verdict :=
  (handleMessage malloc context).serve (fun v => 0 ≤ v.code) n s

end

end Voyeur
