import Mathlib.Data.Fintype.Basic
import Voyeur.Wire.Messages

/-! # A library that keeps its connection

The interposing libraries of `open`, `close` and `posix_spawn` connect once and write
all their events on one connection, each as a sequence of buffers that are sent one by
one. Their destructors write the mark that the client is done.
-/

namespace Voyeur

/-- The libraries that keep their connection. -/
inductive Lib | open_ | close | posixSpawn
  deriving DecidableEq

instance : Fintype Lib := ⟨{.open_, .close, .posixSpawn}, by intro l; cases l <;> simp⟩

/-- The events that a library writes. -/
def Lib.type : Lib → EventType
  | .open_ => .open_
  | .close => .close
  | .posixSpawn => .exec

/-- What happens under the mutex of a library. -/
inductive Activity
  | free
  | entered (e : ClientEvent)
  /-- The buffers `bufs` of a message are not yet sent. -/
  | writing (m : Message) (bufs : List Bytes)
  /-- The mutex was taken by a thread that does not exist in this process. -/
  | stuck
  deriving DecidableEq

/--
The static variables of a library; a socket is the connection that it is used for. Only
`close` has the variable `finalized`.
-/
structure LibState where
  initialized : Bool
  finalized : Bool
  sock : Option ℕ
  activity : Activity
  deriving DecidableEq

/-- The buffers that `do_write` sends: it does nothing for an empty one. -/
def sends (calls : List WriteCall) : List Bytes := calls.flatten.filter (· ≠ [])

/-- What a process does on its own with one of its libraries. -/
inductive Local
  | enter (e : ClientEvent)
  /-- There is no socket, or it could not be connected. -/
  | noSocket
  /-- The event is to be written; `accessible` is whether `access(path, X_OK)` succeeds. -/
  | write (accessible : Bool)
  | leave
  | cleanup
  deriving DecidableEq

namespace LibState

/-- The state of a library that was just loaded. -/
def fresh : LibState := ⟨false, false, none, .free⟩

/-- The state of a library after `fork`, in the child. -/
def inherited (s : LibState) : LibState :=
  { s with activity := if s.activity = .free then .free else .stuck }

/-- The functions `open`, `close` and `posix_spawn`, and the destructors, between their sends. -/
def act (context : Context) (l : Lib) (s : LibState) : Local → Option LibState
  | .enter e =>
      if s.activity = .free ∧ e.type = l.type ∧ ¬ (l = .close ∧ s.finalized = true) then
        some { s with activity := .entered e }
      else none
  | .noSocket =>
      match s.activity with
      | .entered _ =>
          if s.initialized then none else some { s with initialized := true, sock := none }
      | _ => none
  | .write accessible =>
      match s.activity with
      | .entered e =>
          if s.initialized then
            let bufs := sends (e.write (context.clientOpts e.type) accessible)
            if s.sock = none ∨ bufs = [] then some { s with activity := .free }
            else some { s with activity := .writing (.event e) bufs }
          else none
      | _ => none
  | .leave =>
      match s.activity with
      | .writing (.event _) [] => some { s with activity := .free }
      | .writing .done [] =>
          some { s with initialized := false, sock := none, activity := .free }
      | _ => none
  | .cleanup =>
      if s.activity = .free then
        if s.initialized = true ∧ s.sock ≠ none then
          some { s with
            finalized := s.finalized || l = .close
            activity := .writing .done (sends [writeMsgType .done]) }
        else some { s with initialized := false, finalized := s.finalized || l = .close }
      else none

end LibState

/-- What a library does between its sends, and when it is possible. -/
inductive LibStep (context : Context) (l : Lib) (s : LibState) : Local → LibState → Prop
  | enter {e : ClientEvent} :
      s.activity = .free → LibStep context l s (.enter e) { s with activity := .entered e }
  | noSocket {e : ClientEvent} :
      s.activity = .entered e →
      LibStep context l s .noSocket { s with initialized := true, sock := none }
  | skip {e : ClientEvent} {accessible : Bool} :
      s.activity = .entered e →
      LibStep context l s (.write accessible) { s with activity := .free }
  | write {e : ClientEvent} {accessible : Bool} {bufs : List Bytes} :
      s.activity = .entered e → [] ∉ bufs →
      bufs.flatten = (Message.event e).bytes context.clientOpts →
      LibStep context l s (.write accessible) { s with activity := .writing (.event e) bufs }
  | leave {e : ClientEvent} :
      s.activity = .writing (.event e) [] →
      LibStep context l s .leave { s with activity := .free }
  | finish :
      s.activity = .writing .done [] →
      LibStep context l s .leave
        { s with initialized := false, sock := none, activity := .free }
  | cleanup {bufs : List Bytes} :
      s.activity = .free → [] ∉ bufs → bufs.flatten = Message.done.bytes context.clientOpts →
      LibStep context l s .cleanup
        { s with finalized := s.finalized || l = .close, activity := .writing .done bufs }
  | unload :
      s.activity = .free →
      LibStep context l s .cleanup
        { s with initialized := false, finalized := s.finalized || l = .close }

section

variable {context : Context} {l : Lib} {s s' : LibState} {d : Local}

theorem nil_notMem_sends (calls : List WriteCall) : [] ∉ sends calls := by simp [sends]

theorem flatten_sends (calls : List WriteCall) : (sends calls).flatten = wire calls :=
  List.flatten_filter_ne_nil

theorem flatten_sends_write {e : ClientEvent} {accessible : Bool}
    (h : sends (e.write (context.clientOpts e.type) accessible) ≠ []) :
    (sends (e.write (context.clientOpts e.type) accessible)).flatten =
      (Message.event e).bytes context.clientOpts := by
  rw [flatten_sends]
  rcases e.write_cases (context.clientOpts e.type) accessible with hw | hw
  · rw [hw] at h
    exact absurd rfl h
  · rw [hw]
    rfl

/-- The functions and the destructors make these steps only. -/
theorem act_sound (h : s.act context l d = some s') : LibStep context l s d s' := by
  cases d with
  | enter e =>
    obtain ⟨hf, h⟩ := Option.ite_none_right_eq_some.mp h
    cases h
    exact .enter hf.1
  | noSocket =>
    simp only [LibState.act] at h
    split at h
    · next e ha =>
      split at h
      · cases h
      · cases h
        exact .noSocket ha
    · cases h
  | write accessible =>
    simp only [LibState.act] at h
    split at h
    · next e ha =>
      obtain ⟨-, h⟩ := Option.ite_none_right_eq_some.mp h
      split at h
      · cases h
        exact .skip ha
      · next hn =>
        cases h
        rw [not_or] at hn
        exact .write ha (nil_notMem_sends _) (flatten_sends_write hn.2)
    · cases h
  | leave =>
    simp only [LibState.act] at h
    split at h
    · next ha =>
      cases h
      exact .leave ha
    · next ha =>
      cases h
      exact .finish ha
    · cases h
  | cleanup =>
    obtain ⟨hf, h⟩ := Option.ite_none_right_eq_some.mp h
    split at h
    · cases h
      exact .cleanup hf (nil_notMem_sends _) (flatten_sends _)
    · cases h
      exact .unload hf

theorem LibStep.sock (h : LibStep context l s d s') {i : ℕ} (hi : s'.sock = some i) :
    s.sock = some i := by
  cases h with
  | noSocket | finish => cases hi
  | enter | skip | write | leave | cleanup | unload => exact hi

theorem LibStep.begins (h : LibStep context l s d s') {m : Message} {bufs : List Bytes}
    (hw : s'.activity = .writing m bufs) :
    [] ∉ bufs ∧ bufs.flatten = m.bytes context.clientOpts := by
  cases h with
  | write ha hn hf | cleanup ha hn hf =>
    cases hw
    exact ⟨hn, hf⟩
  | noSocket ha | unload ha =>
    rw [ha] at hw
    cases hw
  | enter | skip | leave | finish => cases hw

theorem LibStep.between (h : LibStep context l s d s') {m : Message} {b : Bytes}
    {bufs : List Bytes} : s.activity ≠ .writing m (b :: bufs) := by
  cases h with
  | enter ha | noSocket ha | skip ha | write ha | leave ha | finish ha | cleanup ha | unload ha =>
    simp [ha]

end

end Voyeur
