import Voyeur.Memory.Heap
import Voyeur.Stream.Refinement
import Voyeur.Wire.Handlers

/-! # The handlers on a heap

The observer's handlers with the pointers that they pass around: what they allocate,
where they store what they read, what the callbacks find behind their arguments, and what
is freed behind them. To free, read or write a block that is not live, or to go past the
end of one, is undefined behaviour.
-/

namespace Voyeur.OnHeap

/-- An address, or `NULL`. -/
abbrev Pointer := Option ℕ

/--
What a block holds: a string without its NUL, in so many bytes, or the slots of an array of
pointers, where `none` was not stored yet.
-/
inductive Block where
  | chars (size : ℕ) (bytes : Bytes)
  | slots (pointers : List (Option Pointer))

/-- The bytes that were allocated for a block. -/
def Block.size : Block → ℕ
  | .chars size _ => size
  | .slots pointers => 8 * pointers.length

abbrev State := Allocator.Heap Block

namespace State

variable (h : State)

def chars? (p : Pointer) : Option (ℕ × Bytes) :=
  match p.bind h.block with
  | some (.chars size bytes) => some (size, bytes)
  | _ => none

def slots? (p : Pointer) : Option (List (Option Pointer)) :=
  match p.bind h.block with
  | some (.slots pointers) => some pointers
  | _ => none

/-- The string behind a pointer. -/
def string? (p : Pointer) : Option Bytes := (h.chars? p).map Prod.snd

/-- The pointers of an array in front of its first `NULL`, all of which must have been stored. -/
def untilNull : List (Option Pointer) → Option (List Pointer)
  | some none :: _ => some []
  | some (some a) :: pointers => (untilNull pointers).map (some a :: ·)
  | none :: _ | [] => none

/-- The strings of an array with a `NULL` at its end. -/
def strings? (p : Pointer) : Option (List Bytes) :=
  ((h.slots? p).bind untilNull).bind fun pointers => pointers.mapM h.string?

end State

/-- What is behind a pointer that may be `NULL`. -/
def nullable {β : Type} (f : Pointer → Option β) : Pointer → Option (Option β)
  | none => some none
  | some a => (f (some a)).map some

/-- The observer's programs with the heap. -/
abbrev Hd := StateT State Rd

section

variable {β : Type}

def undefined : Hd β := fun _ => .fault

/-- A program that does not touch the heap. -/
def lift (p : Rd β) : Hd β := fun h => do return (← p, h)

/-- Read from the heap. There is nothing to read behind a pointer that is not live. -/
def load (f : State → Option β) : Hd β := fun h =>
  match f h with
  | some b => pure (b, h)
  | none => .fault

def update (f : State → Option State) : Hd Unit := fun h =>
  match f h with
  | some h' => pure ((), h')
  | none => .fault

/-- `malloc` as far as the allocator grants the block, and `NULL` otherwise. -/
def mallocBlock (buf : Buffer) (block : ℕ → Block) : Hd Pointer :=
  match buf with
  | some n => fun h => pure (some h.next, h.alloc (block n))
  | none => pure none

/-- `free` of `NULL` does nothing. -/
def free : Pointer → Hd Unit
  | some a => update (·.free a)
  | none => pure ()

def write (p : Pointer) (block : Block) : Hd Unit := update fun h => p.bind (h.write · block)

/-- The store `p[index] = q` into an array. -/
def storeSlot (p : Pointer) (index : ℤ) (q : Pointer) : Hd Unit := do
  let pointers ← load (·.slots? p)
  if 0 ≤ index ∧ index < pointers.length then
    write p (.slots (pointers.set index.toNat (some q)))
  else undefined

/-- The pointer `p[index]` of an array. -/
def loadSlot (p : Pointer) (index : ℕ) : Hd Pointer :=
  load fun h => (h.slots? p).bind fun pointers => pointers[index]?.join

/-- The store of a NUL behind `index` bytes. -/
def storeNul (p : Pointer) (index : ℕ) : Hd Unit := do
  let (size, _) ← load (·.chars? p)
  if index < size then pure () else undefined

/-- `do_read` into a block. -/
def doRead (buf : Pointer) (bufSize : Size) : Hd (Option Unit) :=
  if 0 < bufSize.toInt then
    match buf with
    | some _ => do
      let (size, _) ← load (·.chars? buf)
      if bufSize.toNat ≤ size then
        match ← lift (.read bufSize.toNat pure) with
        -- No caller looks at what a short read leaves in the buffer.
        | none => return none
        | some bytes =>
          write buf (.chars size bytes)
          return some ()
      else undefined
    | none => pure none   -- `EFAULT`
  else pure (some ())

end

section

variable (malloc : ℕ → Bool)

/-- `voyeur_read_string`. The result is the pointer that it leaves in `*val`. -/
def readString (val : Pointer) (maxlen : Size) : Hd (Option Pointer) := do
  match ← lift readSize with
  | none => return none
  | some len =>
    if maxlen ≠ 0 ∧ maxlen ≤ len then
      return none
    else
      let val ← if maxlen = 0 then mallocBlock (allocate malloc (len + 1)) (.chars · [])
        else pure val
      match ← doRead val len with
      | none =>
        if maxlen = 0 then free val
        return none
      | some () =>
        storeNul val len.toNat
        return some val

/-- The loop of `handle_exec` that reads `n` strings into the slots from `i` on. -/
def readEntries (array : Pointer) : (n i : ℕ) → Hd (Option Unit)
  | 0, _ => pure (some ())
  | n + 1, i => do
    match ← readString malloc none 0 with
    | none => return none
    | some entry =>
      storeSlot array i entry
      readEntries array n (i + 1)

/-- `argc` and `argv`, or `envc` and `envp`. -/
structure Strings where
  count : CInt
  array : Pointer

def readStrings (count : CInt) : Hd (Option Strings) :=
  if count = intMax then undefined
  else do
    let array ← mallocBlock ((allocate malloc (8 * (count + 1).signExtend 64)).map (· / 8))
      fun n => .slots (List.replicate n none)
    match ← readEntries malloc array count.toInt.toNat 0 with
    | none => return none
    | some () =>
      storeSlot array count.toInt none
      return some ⟨count, array⟩

def readArray : Hd (Option Strings) := do
  match ← lift readInt with
  | none => return none
  | some count => readStrings malloc count

/-- A field that is only read when it was asked for. -/
def readIf {β : Type} (asked : Bool) (p : Hd (Option β)) : Hd (Option (Option β)) :=
  if asked then do return (← p).map some else pure (some none)

/-- `RETURN_ON_FAIL`, which frees nothing. -/
def returnOnFail {β : Type} (p : Hd (Option β)) (k : β → Hd Unit) : Hd Unit := do
  match ← p with
  | some b => k b
  | none => return ()

/-- The loop that frees `n` strings of an array, from the slot `i` on. -/
def freeEntries (array : Pointer) : (n i : ℕ) → Hd Unit
  | 0, _ => pure ()
  | n + 1, i => do
    free (← loadSlot array i)
    freeEntries array n (i + 1)

/-- Free the strings of an array, and the array. -/
def Strings.free (a : Strings) : Hd Unit := do
  freeEntries a.array a.count.toInt.toNat 0
  OnHeap.free a.array

variable (context : Context)

/-- Run the callback of an event, if there is one, on what its pointers lead to. -/
def runCallback (type : EventType) (args : State → Option Event) : Hd Unit :=
  match (context.observer type).cb with
  | some _ => do lift (Voyeur.runCallback context (← load args))
  | none => pure ()

def execArgs (file : Pointer) (argv : Strings) (envp : Option Strings)
    (path cwd : Option Pointer) (pid ppid : CInt) (h : State) : Option Event := do
  return .exec (← h.string? file) (← h.strings? argv.array)
    (← nullable h.strings? (envp.bind Strings.array)) (← nullable h.string? path.join)
    (← nullable h.string? cwd.join) pid ppid

def handleExec : Hd Unit :=
  returnOnFail (readString malloc none 0) fun file =>
  returnOnFail (readArray malloc) fun argv =>
  returnOnFail (readIf (hasFlag (context.opts .exec) observeExecEnv) (readArray malloc)) fun envp =>
  returnOnFail (readIf (hasFlag (context.opts .exec) observeExecPath)
    (readString malloc none 0)) fun path =>
  returnOnFail (readIf (hasFlag (context.opts .exec) observeExecCwd)
    (readString malloc none 0)) fun cwd =>
  returnOnFail (lift readPid) fun pid =>
  returnOnFail (lift readPid) fun ppid => do
    runCallback context .exec (execArgs file argv envp path cwd pid ppid)
    free file
    argv.free
    -- The environment, `PATH` and the directory are there if they were asked for.
    envp.forM Strings.free
    path.forM free
    cwd.forM free

def handleExit : Hd Unit :=
  returnOnFail (lift readInt) fun status =>
  returnOnFail (lift readPid) fun pid =>
  returnOnFail (lift readPid) fun ppid =>
  runCallback context .exit fun _ => some (.exit status pid ppid)

def openArgs (path : Pointer) (oflag mode : CInt) (cwd : Option Pointer) (retval pid : CInt)
    (h : State) : Option Event := do
  return .open_ (← h.string? path) oflag mode (← nullable h.string? cwd.join) retval pid

def handleOpen : Hd Unit :=
  returnOnFail (readString malloc none 0) fun path =>
  returnOnFail (lift readInt) fun oflag =>
  returnOnFail (lift readInt) fun mode =>
  returnOnFail (lift readInt) fun retval =>
  returnOnFail (readIf (hasFlag (context.opts .open_) observeOpenCwd)
    (readString malloc none 0)) fun cwd =>
  returnOnFail (lift readPid) fun pid => do
    runCallback context .open_ (openArgs path oflag mode cwd retval pid)
    -- Nothing frees `cwd`.
    free path

def handleClose : Hd Unit :=
  returnOnFail (lift readInt) fun fildes =>
  returnOnFail (lift readInt) fun retval =>
  returnOnFail (lift readPid) fun pid =>
  runCallback context .close fun _ => some (.close fildes retval pid)

/-- `voyeur_handle_event`. -/
def handleEvent (type : CInt) : Hd Unit :=
  match EventType.ofNumber type with
  | some .exec => handleExec malloc context
  | some .exit => handleExit context
  | some .open_ => handleOpen malloc context
  | some .close => handleClose context
  | none => return ()

def handleMessage : Hd Verdict := do
  match ← lift readMsgType with
  | none => return .failed
  | some msgtype =>
    if msgtype = MsgType.done.number then
      return .done
    else if msgtype = MsgType.event.number then
      match ← lift readEventType with
      | none => return .failed
      | some type =>
        handleEvent malloc context type
        return .handled
    else
      return .unknown

/-- At most `n` calls of `handle_message` on a connection, with the heap that they leave. -/
def serveConnection (n : ℕ) (h : State) (s : Bytes) :
    List Call × StreamReader.Status Byte Verdict × State :=
  StreamReader.serveFrom (fun h => handleMessage malloc context h) (fun v => 0 ≤ v.code) n h s

end

end Voyeur.OnHeap
