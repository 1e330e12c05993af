import Voyeur.Wire.Layout

/-! # The payload of each event

Each handler reads the layout of its event and runs the callback with what it
read. A message is therefore handled in one of four ways: its callback runs, it is
dropped at a refused buffer, it is undefined, or the stream ends inside it.
-/

namespace Voyeur

open LittleEndian (encode decode)
open StreamReader (Accepts)

/-- The fields behind an event type, and the event that they make up. -/
structure Payload where
  {Args : Type}
  layout : Layout Args
  event : Args → Event

section

variable (context : Context)

def execPayload : Payload where
  layout := .pair .string <| .pair .array <|
    .pair (.opt (hasFlag (context.opts .exec) observeExecEnv) .array) <|
    .pair (.opt (hasFlag (context.opts .exec) observeExecPath) .string) <|
    .pair (.opt (hasFlag (context.opts .exec) observeExecCwd) .string) <|
    .pair .word .word
  event := fun (file, argv, envp, path, cwd, pid, ppid) => .exec file argv envp path cwd pid ppid

def exitPayload : Payload where
  layout := .pair .word <| .pair .word .word
  event := fun (status, pid, ppid) => .exit status pid ppid

def openPayload : Payload where
  layout := .pair .string <| .pair .word <| .pair .word <| .pair .word <|
    .pair (.opt (hasFlag (context.opts .open_) observeOpenCwd) .string) .word
  event := fun (path, oflag, mode, retval, cwd, pid) => .open_ path oflag mode cwd retval pid

def closePayload : Payload where
  layout := .pair .word <| .pair .word .word
  event := fun (fildes, retval, pid) => .close fildes retval pid

/-- The payload that the observer expects behind an event type. -/
def payload : EventType → Payload
  | .exec => execPayload context
  | .exit => exitPayload
  | .open_ => openPayload context
  | .close => closePayload

end

variable {context : Context}

theorem returnOnFail_readPair {β γ : Type} (p : Rd (Option β)) (q : Rd (Option γ))
    (k : β × γ → Rd Unit) :
    returnOnFail (readPair p q) k =
      returnOnFail p fun b => returnOnFail q fun c => k (b, c) := by
  rw [returnOnFail, readPair, StreamReader.bind_assoc]
  refine congrArg (p >>= ·) (funext fun b => ?_)
  cases b with
  | none => rfl
  | some b =>
    simp only
    rw [returnOnFail, StreamReader.bind_assoc]
    refine congrArg (q >>= ·) (funext fun c => ?_)
    cases c <;> rfl

variable (malloc : ℕ → Bool) (context)

theorem handleEvent_eq (t : EventType) :
    handleEvent malloc context t.number =
      returnOnFail ((payload context t).layout.reader malloc) fun args =>
        runCallback context ((payload context t).event args) := by
  rw [handleEvent, EventType.ofNumber_number]
  cases t <;>
    simp only [payload, execPayload, exitPayload, openPayload, closePayload, Layout.reader,
      returnOnFail_readPair] <;> rfl

theorem handleEvent_unknown {n : CInt} (h : EventType.ofNumber n = none) :
    handleEvent malloc context n = pure () := by
  rw [handleEvent, h]

theorem runCallback_run (e : Event) (s : Bytes) :
    (runCallback context e).run s = (context.calls e, some ((), s)) := by
  unfold runCallback Context.calls
  cases (context.observer e.type).cb <;> rfl

section

variable {malloc context} {t : EventType}

/-- A complete payload runs the callback of its event once, and is read to its end. -/
theorem handleEvent_accepts {args : (payload context t).Args}
    (hv : (payload context t).layout.Valid args)
    (hg : (payload context t).layout.Granted malloc args) :
    Accepts (handleEvent malloc context t.number) ((payload context t).layout.bytes args)
      (context.calls ((payload context t).event args)) () := by
  intro s
  rw [handleEvent_eq, returnOnFail, StreamReader.run_bind_of_value (Layout.accepts _ hv hg s)]
  simp only [runCallback_run, List.nil_append]

theorem handleEvent_none {s u : Bytes}
    (h : ((payload context t).layout.reader malloc).run s = ([], some (none, u))) :
    (handleEvent malloc context t.number).run s = ([], some ((), u)) := by
  rw [handleEvent_eq, returnOnFail, StreamReader.run_bind_of_value h]
  rfl

theorem handleEvent_undefined {s : Bytes} (h : (payload context t).layout.Undefined malloc s) :
    (handleEvent malloc context t.number).run s = ([], none) := by
  rw [handleEvent_eq, returnOnFail, StreamReader.run_bind_of_fault (Layout.run_undefined _ h)]

end

end Voyeur
