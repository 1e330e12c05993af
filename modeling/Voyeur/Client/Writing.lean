import Voyeur.Wire.Messages

/-! # Events about arrays that may be missing

`write_exec_event` goes through arrays that the application gives. A pointer that is `NULL`
is followed when its turn comes, behind what has been written by then. If none is, what is
written is an event or nothing.
-/

namespace Voyeur

/-- A pointer to an array of strings, which may be `NULL`. -/
abbrev ArrayPtr := Option StringArray

/-- The strings that a pointer leads to. -/
def strings (a : ArrayPtr) : Option (List CStr) := a.map Subtype.val

/-- What is written for an event, and whether a `NULL` is followed after that. -/
structure Writing where
  calls : List WriteCall
  crashes : Bool
  deriving DecidableEq

/-- An event about arrays that are there. -/
def ClientEvent.writing (e : ClientEvent) (options : Byte) (accessible : Bool) : Writing :=
  ⟨e.write options accessible, false⟩

/-- `write_exec_event`; `accessible` is whether `access(path, X_OK)` succeeds. -/
def execWriting (options : Byte) (accessible : Bool) (path : Option CStr)
    (argv envp : Option (List CStr)) (pathVar cwd : Option CStr) (pid ppid : CInt) : Writing :=
  if hasFlag options observeExecSilent then ⟨[], false⟩
  else if !hasFlag options observeExecNoaccess && !accessible then ⟨[], false⟩
  else
    match argv with
    | none => ⟨[writeMsgType .event, writeEventType .exec, writeString path], true⟩
    | some argv =>
      if hasFlag options observeExecEnv && envp.isNone then
        ⟨writeMsgType .event :: writeEventType .exec :: writeString path :: writeStrings argv, true⟩
      else
        ⟨writeExecEvent options accessible path argv (envp.getD []) pathVar cwd pid ppid, false⟩

/-- Neither an option nor `access` keeps an exec event from being written. -/
def execBegins (options : Byte) (accessible : Bool) : Bool :=
  !hasFlag options observeExecSilent && (hasFlag options observeExecNoaccess || accessible)

/-- The event about arrays, of which those that are not there are taken to be empty. -/
def execEvent (path : Option CStr) (argv envp : ArrayPtr) (pathVar cwd : Option CStr)
    (pid ppid : CInt) : ClientEvent :=
  .exec path (argv.getD ⟨[], by decide⟩) (envp.getD ⟨[], by decide⟩) pathVar cwd pid ppid

variable {options : Byte} {accessible : Bool} {path : Option CStr} {pathVar cwd : Option CStr}
  {pid ppid : CInt}

theorem strings_getD (a : ArrayPtr) :
    (strings a).getD [] = (a.getD ⟨[], by decide⟩ : StringArray).val := by
  cases a <;> rfl

theorem strings_eq_none_iff {a : ArrayPtr} : strings a = none ↔ a = none := Option.map_eq_none_iff

theorem writeExecEvent_of_not_begins {argv envp : List CStr}
    (h : execBegins options accessible = false) :
    writeExecEvent options accessible path argv envp pathVar cwd pid ppid = [] := by
  unfold execBegins at h
  unfold writeExecEvent
  cases hs : hasFlag options observeExecSilent with
  | true => rfl
  | false =>
    rw [hs] at h
    cases hn : hasFlag options observeExecNoaccess <;> cases accessible <;> simp_all

theorem writeExecEvent_of_begins {argv envp : List CStr}
    (h : execBegins options accessible = true) :
    writeExecEvent options accessible path argv envp pathVar cwd pid ppid =
      writeMsgType .event :: writeEventType .exec ::
        execFields options path argv envp pathVar cwd pid ppid := by
  obtain ⟨hs, hn⟩ := Bool.and_eq_true_iff.mp h
  rw [Bool.not_eq_true'] at hs
  rw [Bool.or_eq_true] at hn
  unfold writeExecEvent
  rw [hs, if_neg Bool.false_ne_true, if_neg]
  rcases hn with hn | hn <;> simp [hn]

theorem execWriting_of_not_begins {argv envp : Option (List CStr)}
    (h : execBegins options accessible = false) :
    execWriting options accessible path argv envp pathVar cwd pid ppid = ⟨[], false⟩ := by
  unfold execBegins at h
  unfold execWriting
  cases hs : hasFlag options observeExecSilent with
  | true => rfl
  | false =>
    rw [hs] at h
    cases hn : hasFlag options observeExecNoaccess <;> cases accessible <;> simp_all

theorem execWriting_of_begins {argv envp : Option (List CStr)}
    (h : execBegins options accessible = true) :
    execWriting options accessible path argv envp pathVar cwd pid ppid =
      match argv with
      | none => ⟨[writeMsgType .event, writeEventType .exec, writeString path], true⟩
      | some argv =>
        if hasFlag options observeExecEnv && envp.isNone then
          ⟨writeMsgType .event :: writeEventType .exec :: writeString path :: writeStrings argv,
            true⟩
        else
          ⟨writeExecEvent options accessible path argv (envp.getD []) pathVar cwd pid ppid,
            false⟩ := by
  obtain ⟨hs, hn⟩ := Bool.and_eq_true_iff.mp h
  rw [Bool.not_eq_true'] at hs
  rw [Bool.or_eq_true] at hn
  unfold execWriting
  rw [hs, if_neg Bool.false_ne_true, if_neg]
  rcases hn with hn | hn <;> simp [hn]

/-- A pointer is followed that is `NULL`. -/
theorem execWriting_crashes_iff {argv envp : Option (List CStr)} :
    (execWriting options accessible path argv envp pathVar cwd pid ppid).crashes = true ↔
      execBegins options accessible = true ∧
        (argv = none ∨ hasFlag options observeExecEnv = true ∧ envp = none) := by
  cases hb : execBegins options accessible with
  | false =>
    rw [execWriting_of_not_begins hb]
    simp
  | true =>
    rw [execWriting_of_begins hb]
    cases argv with
    | none => simp
    | some argv => cases he : hasFlag options observeExecEnv <;> cases envp <;> simp

theorem execWriting_of_not_crashes {argv envp : ArrayPtr}
    (h : (execWriting options accessible path (strings argv) (strings envp) pathVar cwd pid
      ppid).crashes = false) :
    execWriting options accessible path (strings argv) (strings envp) pathVar cwd pid ppid =
      (execEvent path argv envp pathVar cwd pid ppid).writing options accessible := by
  have he : (execEvent path argv envp pathVar cwd pid ppid).write options accessible =
      writeExecEvent options accessible path (argv.getD ⟨[], by decide⟩ : StringArray).val
        (envp.getD ⟨[], by decide⟩ : StringArray).val pathVar cwd pid ppid := rfl
  unfold ClientEvent.writing
  rw [he]
  cases hb : execBegins options accessible with
  | false => rw [execWriting_of_not_begins hb, writeExecEvent_of_not_begins hb]
  | true =>
    rw [execWriting_of_begins hb] at h ⊢
    cases argv with
    | none => cases h
    | some argv =>
      cases envp with
      | some envp => simp [strings]
      | none =>
        cases hn : hasFlag options observeExecEnv with
        | false => simp [strings]
        | true => simp [strings, hn] at h

theorem execWriting_of_arrays {argv envp : ArrayPtr} (ha : argv ≠ none) (he : envp ≠ none) :
    execWriting options accessible path (strings argv) (strings envp) pathVar cwd pid ppid =
      (execEvent path argv envp pathVar cwd pid ppid).writing options accessible := by
  apply execWriting_of_not_crashes
  rw [← Bool.not_eq_true, execWriting_crashes_iff, strings_eq_none_iff, strings_eq_none_iff]
  rintro ⟨-, hn | ⟨-, hn⟩⟩
  · exact ha hn
  · exact he hn

end Voyeur
