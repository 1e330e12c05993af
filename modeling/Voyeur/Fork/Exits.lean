import Mathlib.Logic.Function.Basic
import Voyeur.Transition.System
import Voyeur.Wire.Writers

/-! # Exit events

The processes of a tree with the state of `libvoyeur-exit` in them: one flag, which `fork`
copies, guards the wrappers of the exit functions and the handler that the library has
registered. The programs' own handlers run in between and may call all of these again.
-/

namespace Voyeur

open Transition (Reach)

inductive Handler | voyeur | program
  deriving DecidableEq

/-- Where a process stands. In `libc` it is between two handlers of `exit`. -/
inductive Running
  | program
  | libc (status : CInt)
  | handler (status : CInt)
  deriving DecidableEq

inductive Ended
  | exited (status : CInt)
  | killed
  deriving DecidableEq

/-- The wrapped functions. -/
inductive ExitCall | exit | _exit | _Exit | exit_group
  deriving DecidableEq

structure Exiting where
  /-- `did_exit_already`. -/
  didExitAlready : Bool
  /-- The registered handlers, the next one first. -/
  handlers : List Handler
  running : Running
  ppid : CInt
  /-- What was written on each of the connections that it opened. -/
  connections : List (List Message)
  ended : Option Ended
  /-- The flag when the process was forked. -/
  inherited : Bool
  /-- The status of its first call of `write_exit_event`. -/
  first : Option CInt
  deriving DecidableEq

inductive Move
  | register
  | call (function : ExitCall) (status : CInt)
  | returnFromMain (status : CInt)
  | nextHandler
  | handlerReturns
  | kill
  /-- The parent dies, and the process gets another one. -/
  | reparent (ppid : CInt)
  deriving DecidableEq

namespace Exiting

/-- `write_exit_event`, with a server that can be reached. -/
def writeExitEvent (pid status : CInt) (p : Exiting) : Exiting :=
  { p with
    didExitAlready := true
    connections :=
      if p.didExitAlready then p.connections
      else p.connections ++ [[.event (.exit status pid p.ppid), .done]]
    first := some (p.first.getD status) }

/-- Code of the program is running. -/
def InProgram (p : Exiting) : Bool :=
  match p.running with
  | .program | .handler _ => true
  | .libc _ => false

/-- The wrappers. There may be no `exit_group` behind that of the library. -/
def call (hasExitGroup : Bool) (pid : CInt) (function : ExitCall) (status : CInt) (p : Exiting) :
    Exiting :=
  let p := p.writeExitEvent pid status
  match function with
  | .exit => { p with running := .libc status }
  | ._exit | ._Exit => { p with ended := some (.exited status) }
  | .exit_group => { p with ended := some (if hasExitGroup then .exited status else .killed) }

/-- `exit` takes the next handler, or ends the process. -/
def nextHandler (pid status : CInt) (p : Exiting) : Exiting :=
  match p.handlers with
  | [] => { p with ended := some (.exited status) }
  | .voyeur :: handlers => { p.writeExitEvent pid status with handlers := handlers }
  | .program :: handlers => { p with running := .handler status, handlers := handlers }

def act (hasExitGroup : Bool) (pid : CInt) (p : Exiting) : Move → Option Exiting
  | .register =>
      if p.InProgram then some { p with handlers := .program :: p.handlers } else none
  | .call function status =>
      if p.InProgram then some (p.call hasExitGroup pid function status) else none
  | .returnFromMain status =>
      -- The C library calls its own `exit`.
      if p.running = .program then some { p with running := .libc status } else none
  | .nextHandler =>
      match p.running with
      | .libc status => some (p.nextHandler pid status)
      | _ => none
  | .handlerReturns =>
      match p.running with
      | .handler status => some { p with running := .libc status }
      | _ => none
  | .kill => some { p with ended := some .killed }
  | .reparent ppid => some { p with ppid := ppid }

/-- The forked process. -/
def forked (pid : CInt) (p : Exiting) : Exiting :=
  { p with ppid := pid, connections := [], inherited := p.didExitAlready, first := none }

/-- The exit events that a process has sent. -/
def events (p : Exiting) : List ClientEvent :=
  p.connections.flatten.filterMap fun
    | .event e => some e
    | .done => none

end Exiting

inductive TreeMove
  | act (pid : CInt) (m : Move)
  | fork (pid child : CInt)
  deriving DecidableEq

/-- The processes by their numbers, which are not used again. -/
abbrev ExitTree := CInt → Option Exiting

namespace ExitTree

def step (hasExitGroup : Bool) (t : ExitTree) : TreeMove → Option ExitTree
  | .act pid m =>
      match t pid with
      | some p =>
          if p.ended = none then
            (p.act hasExitGroup pid m).map fun p' => Function.update t pid (some p')
          else none
      | none => none
  | .fork pid child =>
      match t pid with
      | some p =>
          if p.ended = none ∧ p.InProgram ∧ t child = none then
            some (Function.update t child (some (p.forked pid)))
          else none
      | none => none

/-- A process that runs `main`; `earlier` handlers were registered before that of the library. -/
def init (root parent : CInt) (earlier : ℕ) : ExitTree :=
  Function.update (fun _ => none) root
    (some ⟨false, .voyeur :: List.replicate earlier .program, .program, parent, [], none, false,
      none⟩)

end ExitTree

/-- How the flag, the events and the calls of a process belong together. -/
structure Announced (pid : CInt) (p : Exiting) : Prop where
  flag : p.didExitAlready = (p.inherited || p.first.isSome)
  sent : ∃ ppid, p.connections =
    if p.inherited then []
    else p.first.toList.map fun status => [.event (.exit status pid ppid), .done]
  pending : p.didExitAlready = false → .voyeur ∈ p.handlers
  ended : ∀ status, p.ended = some (.exited status) → p.didExitAlready = true

variable {pid : CInt} {p p' : Exiting} {hasExitGroup : Bool} {t t' : ExitTree}

theorem Announced.writeExitEvent (h : Announced pid p) (status : CInt) :
    Announced pid (p.writeExitEvent pid status) := by
  obtain ⟨ppid, hs⟩ := h.sent
  constructor
  · simp [Exiting.writeExitEvent]
  · have hf := h.flag
    simp only [Exiting.writeExitEvent]
    rcases Bool.eq_false_or_eq_true p.inherited with hi | hi
    · rw [hi, Bool.true_or] at hf
      exact ⟨ppid, by simpa [hf, hi] using hs⟩
    · rw [hi, Bool.false_or] at hf
      cases hp : p.first with
      | none =>
        refine ⟨p.ppid, ?_⟩
        simp [hf, hs, hi, hp]
      | some first =>
        refine ⟨ppid, ?_⟩
        simp [hf, hs, hi, hp]
  · intro hn
    cases hn
  · intro _ _
    rfl

theorem Announced.quiet (h : Announced pid p) (hf : p'.didExitAlready = p.didExitAlready)
    (hc : p'.connections = p.connections) (hi : p'.inherited = p.inherited)
    (hs : p'.first = p.first) (hh : ∀ x ∈ p.handlers, x = .voyeur → x ∈ p'.handlers)
    (he : ∀ status, p'.ended = some (.exited status) → p.didExitAlready = true) :
    Announced pid p' := by
  constructor
  · rw [hf, hi, hs]
    exact h.flag
  · rw [hc, hi, hs]
    exact h.sent
  · intro hn
    rw [hf] at hn
    exact hh _ (h.pending hn) rfl
  · intro status hs
    rw [hf]
    exact he status hs

theorem Announced.end_ (h : Announced pid p) (hf : p.didExitAlready = true)
    (ended : Option Ended) : Announced pid { p with ended := ended } :=
  h.quiet rfl rfl rfl rfl (fun _ hx _ => hx) fun _ _ => hf

theorem Announced.nextHandler (h : Announced pid p) (status : CInt) :
    Announced pid (p.nextHandler pid status) := by
  have hp := h.pending
  unfold Exiting.nextHandler
  split
  · next hh =>
    refine h.end_ ?_ _
    cases hf : p.didExitAlready with
    | true => rfl
    | false => cases hh ▸ hp hf
  · next handlers hh =>
    refine ⟨(h.writeExitEvent status).flag, (h.writeExitEvent status).sent, ?_, ?_⟩
    · intro hn
      cases hn
    · intro _ _
      rfl
  · next handlers hh =>
    refine h.quiet rfl rfl rfl rfl ?_ h.ended
    rintro x hx rfl
    rw [hh] at hx
    exact (List.mem_cons.mp hx).resolve_left (by simp)

theorem Announced.call (h : Announced pid p) (function : ExitCall) (status : CInt) :
    Announced pid (p.call hasExitGroup pid function status) := by
  have hw := h.writeExitEvent status
  cases function with
  | exit => exact hw.quiet rfl rfl rfl rfl (fun _ hx _ => hx) hw.ended
  | _exit | _Exit | exit_group => exact hw.end_ rfl _

theorem Announced.act {m : Move} (h : Announced pid p) (ha : p.act hasExitGroup pid m = some p') :
    Announced pid p' := by
  cases m with
  | register =>
    obtain ⟨-, ha⟩ := Option.ite_none_right_eq_some.mp ha
    cases ha
    exact h.quiet rfl rfl rfl rfl (fun _ hx _ => List.mem_cons_of_mem _ hx) h.ended
  | call function status =>
    obtain ⟨-, ha⟩ := Option.ite_none_right_eq_some.mp ha
    cases ha
    exact h.call function status
  | returnFromMain status =>
    obtain ⟨-, ha⟩ := Option.ite_none_right_eq_some.mp ha
    cases ha
    exact h.quiet rfl rfl rfl rfl (fun _ hx _ => hx) h.ended
  | nextHandler =>
    simp only [Exiting.act] at ha
    split at ha
    · cases ha
      exact h.nextHandler _
    · cases ha
  | handlerReturns =>
    simp only [Exiting.act] at ha
    split at ha
    · cases ha
      exact h.quiet rfl rfl rfl rfl (fun _ hx _ => hx) h.ended
    · cases ha
  | kill =>
    cases ha
    refine h.quiet rfl rfl rfl rfl (fun _ hx _ => hx) ?_
    rintro _ ⟨⟩
  | reparent ppid =>
    cases ha
    exact h.quiet rfl rfl rfl rfl (fun _ hx _ => hx) h.ended

theorem Announced.forked (h : Announced pid p) (child : CInt) (he : p.ended = none) :
    Announced child (p.forked pid) := by
  constructor
  · simp [Exiting.forked]
  · exact ⟨0, by simp [Exiting.forked]⟩
  · exact h.pending
  · intro status hs
    simp [Exiting.forked, he] at hs

/-- Every process of the tree is in order. -/
def AllAnnounced (t : ExitTree) : Prop := ∀ pid p, t pid = some p → Announced pid p

theorem AllAnnounced.update (h : AllAnnounced t) (hp : Announced pid p) :
    AllAnnounced (Function.update t pid (some p)) := by
  intro pid' p' hp'
  by_cases hn : pid' = pid
  · subst hn
    rw [Function.update_self] at hp'
    cases hp'
    exact hp
  · rw [Function.update_of_ne hn] at hp'
    exact h pid' p' hp'

theorem allAnnounced_init (root parent : CInt) (earlier : ℕ) :
    AllAnnounced (ExitTree.init root parent earlier) := by
  refine AllAnnounced.update (fun _ _ hp => by cases hp) ?_
  constructor
  · rfl
  · exact ⟨0, rfl⟩
  · intro _
    exact List.mem_cons_self
  · intro status hs
    cases hs

theorem AllAnnounced.step {m : TreeMove} (h : AllAnnounced t)
    (hs : t.step hasExitGroup m = some t') : AllAnnounced t' := by
  cases m with
  | act pid m =>
    simp only [ExitTree.step] at hs
    split at hs
    · next p hp =>
      obtain ⟨-, hs⟩ := Option.ite_none_right_eq_some.mp hs
      obtain ⟨p', ha, rfl⟩ := Option.map_eq_some_iff.mp hs
      exact h.update ((h pid p hp).act ha)
    · cases hs
  | fork pid child =>
    simp only [ExitTree.step] at hs
    split at hs
    · next p hp =>
      obtain ⟨⟨he, -, -⟩, hs⟩ := Option.ite_none_right_eq_some.mp hs
      cases hs
      exact h.update ((h pid p hp).forked child he)
    · cases hs

variable {root parent : CInt} {earlier : ℕ}

theorem announced_of_reach
    (h : Reach (ExitTree.step hasExitGroup) (fun _ _ => True) (ExitTree.init root parent earlier)
      t) : AllAnnounced t :=
  h.invariant (allAnnounced_init root parent earlier) fun _ _ _ hi _ hs => hi.step hs

/-- A process that was not forked by an exiting one goes through the library before it exits. -/
theorem first_isSome_of_exited
    (h : Reach (ExitTree.step hasExitGroup) (fun _ _ => True) (ExitTree.init root parent earlier) t)
    {status : CInt} (hp : t pid = some p) (he : p.ended = some (.exited status))
    (hi : p.inherited = false) : p.first.isSome = true := by
  have ha := announced_of_reach h pid p hp
  have hf := ha.flag
  rw [ha.ended status he, hi, Bool.false_or] at hf
  exact hf.symm

/--
A process that exits has sent exactly its exit event, with the status that it really exits
with, if and only if it was not forked by a process that had sent its own event before, and
the first of its exits and of the library's handler was called with this status.
-/
theorem exit_event_iff
    (h : Reach (ExitTree.step hasExitGroup) (fun _ _ => True) (ExitTree.init root parent earlier) t)
    {status : CInt} (hp : t pid = some p) (he : p.ended = some (.exited status)) :
    (∃ ppid, p.events = [.exit status pid ppid]) ↔
      p.inherited = false ∧ ∀ first, p.first = some first → first = status := by
  obtain ⟨ppid, hs⟩ := (announced_of_reach h pid p hp).sent
  have hfirst := first_isSome_of_exited h hp he
  unfold Exiting.events
  rw [hs]
  cases hi : p.inherited with
  | true => simp
  | false =>
    cases hf : p.first with
    | none => simp [hf, hi] at hfirst
    | some first => simp

/-- A handler of the program leaves `exit(1)` by `_exit(2)`, after it has forked. -/
def handlerRun : List TreeMove :=
  [.act 7 .register, .act 7 (.call .exit 1), .act 7 .nextHandler, .fork 7 8,
    .act 7 (.call ._exit 2), .act 8 (.call ._exit 1)]

/-- A child is forked, and both processes return from `main`. -/
def returnRun : List TreeMove :=
  [.fork 7 8, .act 8 (.returnFromMain 3), .act 8 .nextHandler, .act 8 .nextHandler,
    .act 7 (.returnFromMain 0), .act 7 .nextHandler, .act 7 .nextHandler]

theorem exit_event_iff_returnRun :
    ∃ (t : ExitTree) (p : Exiting), t 8 = some p ∧ p.ended = some (.exited 3) ∧
      ((∃ ppid, p.events = [.exit 3 8 ppid]) ↔
        p.inherited = false ∧ ∀ first, p.first = some first → first = 3) := by
  have hx : (Transition.exec (ExitTree.step false) (fun _ _ => True) (ExitTree.init 7 1 0)
      returnRun).any (fun t => (t 8).any fun p => decide (p.ended = some (.exited 3))) = true := by
    decide +kernel
  obtain ⟨t, hr, ht⟩ := Transition.exists_reach_of_exec _ hx
  cases hp : t 8 with
  | none =>
    rw [hp] at ht
    cases ht
  | some p =>
    rw [hp] at ht
    have he := of_decide_eq_true ht
    exact ⟨t, p, hp, he, exit_event_iff hr hp he⟩

/-- The parent's event has another status than its end, and the child has sent none. -/
theorem not_exit_event_handlerRun :
    ∃ (t : ExitTree) (p child : Exiting),
      Reach (ExitTree.step false) (fun _ _ => True) (ExitTree.init 7 1 0) t ∧
      t 7 = some p ∧ p.ended = some (.exited 2) ∧ p.events = [.exit 1 7 1] ∧
      t 8 = some child ∧ child.ended = some (.exited 1) ∧ child.events = [] := by
  have hx : (Transition.exec (ExitTree.step false) (fun _ _ => True) (ExitTree.init 7 1 0)
      handlerRun).any (fun t =>
        (t 7).any (fun p => decide (p.ended = some (.exited 2) ∧ p.events = [.exit 1 7 1])) &&
        (t 8).any fun p => decide (p.ended = some (.exited 1) ∧ p.events = [])) = true := by
    decide +kernel
  obtain ⟨t, hr, ht⟩ := Transition.exists_reach_of_exec _ hx
  rw [Bool.and_eq_true] at ht
  cases hp : t 7 with
  | none =>
    rw [hp] at ht
    cases ht.1
  | some p =>
    cases hc : t 8 with
    | none =>
      rw [hc] at ht
      cases ht.2
    | some child =>
      rw [hp, hc] at ht
      obtain ⟨he, hs⟩ := of_decide_eq_true ht.1
      obtain ⟨he', hs'⟩ := of_decide_eq_true ht.2
      exact ⟨t, p, child, hr, hp, he, hs, hc, he', hs'⟩

end Voyeur
