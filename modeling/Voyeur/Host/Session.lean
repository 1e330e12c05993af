import Voyeur.Host.Calls
import Voyeur.Transition.System

/-! # Sessions of a host program

A host calls the functions of `voyeur.h` in any order that their documentation permits, for
any number of contexts. While `voyeur_start` or `voyeur_exec` runs for one context, other threads
may make calls for the others. A session remembers the pointers that the host has got
and not yet given back, the calls and threads under way, and the blocks to which no pointer is
left.
-/

namespace Voyeur.Host

open Allocator (Heap Prog)
open Allocator.Prog (load)

variable {β : Type}

/-- An environment that `voyeur_prepare` has made. -/
structure Environ where
  array : ℕ
  /-- The context that it was made for, until that is destroyed. -/
  context : Option ℕ
  envp : List CStr
  deriving DecidableEq

/-- The environment without a context that is destroyed. -/
def Environ.forget (context : ℕ) (e : Environ) : Environ :=
  if e.context = some context then { e with context := none } else e

/-- A call of `voyeur_start`, or of `voyeur_exec` with its environment, in which the server runs. -/
structure Frame where
  context : ℕ
  state : ℕ
  newenvp : Option Environ
  deriving DecidableEq

/-- The blocks that no pointer leads to any more, by what they were for. -/
inductive Lost
  | libs | opts | resourcePath | serverState | envBuf
  deriving DecidableEq

structure Session where
  heap : Heap Cell
  contexts : List ℕ
  environs : List Environ
  frames : List Frame
  /-- The arguments of the threads that wait for the children. -/
  threads : List ℕ
  lost : List (Lost × ℕ)

inductive Call
  | create
  | observe (context : ℕ) (t : EventType) (o : Observer)
  | setResourcePath (context : ℕ) (path : CStr)
  | prepare (context : ℕ) (envp : List CStr) (o : Outcome)
  | start (context : ℕ) (child pipe : ℤ)
  | exec (context : ℕ) (envp : List CStr) (o : Outcome) (child : Option (ℤ × ℤ))
  /-- The server looks up the observer of an event. -/
  | dispatch (context : ℕ)
  /-- The loop of the server has ended. -/
  | returns (context : ℕ)
  | threadEnds (arg : ℕ)
  /-- The host frees an environment. -/
  | freeEnviron (array : ℕ)
  | destroy (context : ℕ)

namespace Session

variable (s : Session)

/-- Without any context. -/
def start (h₀ : Heap Cell) : Session := ⟨h₀, [], [], [], [], []⟩

def context? (a : ℕ) : Option (Context × Option ℕ × Option ℕ) :=
  (s.heap.block a).bind Cell.context?

def serverState? (a : ℕ) : Option (CStr × ℤ × Option ℕ) := (s.heap.block a).bind Cell.serverState?

/-- The block of the resource path. -/
def pathBlocks (context : ℕ) : List (Lost × ℕ) :=
  match s.context? context with
  | some (_, some path, _) => [(.resourcePath, path)]
  | _ => []

/-- The blocks of the server's state. -/
def serverBlocks (context : ℕ) : List (Lost × ℕ) :=
  match s.context? context with
  | some (_, _, some state) => (.serverState, state) ::
      match s.serverState? state with
      | some (_, _, some buf) => [(.envBuf, buf)]
      | _ => []
  | _ => []

/-- The blocks of a context. -/
def contextBlocks (context : ℕ) : List ℕ :=
  context :: (s.pathBlocks context ++ s.serverBlocks context).map Prod.snd

/-- The environments that are not freed yet. -/
def arrays : List Environ := s.environs ++ s.frames.filterMap Frame.newenvp

/-- All blocks of the library: those that something leads to, and the lost ones. -/
def blocks : List ℕ :=
  s.contexts.flatMap s.contextBlocks ++ s.arrays.map Environ.array ++ s.threads ++
    s.lost.map Prod.snd

/-- Run a program on the heap, unless it stops at a dead block. -/
def run (p : Prog Cell β) (k : β → Session → Session) : Option Session :=
  match p s.heap with
  | .ok b h => some (k b { s with heap := h })
  | .error _ _ => none

/-- The new server's state has taken the place of the one that the context had before. -/
def prepared (old : List (Lost × ℕ)) (r : Option Prepared) : Session :=
  { s with lost := old ++ (match r with
      | some r => [(.libs, r.libs), (.opts, r.opts)]
      | none => []) ++ s.lost }

def addEnviron (e : Environ) : Session := { s with environs := e :: s.environs }

/-- The server runs, and a thread waits for the child. -/
def started (context : ℕ) (newenvp : Option Environ) (r : ℕ × ℕ) : Session :=
  { s with frames := ⟨context, r.1, newenvp⟩ :: s.frames, threads := r.2 :: s.threads }

/-- A context is destroyed. -/
def forget (context : ℕ) : Session :=
  { s with
    contexts := s.contexts.erase context
    environs := s.environs.map (·.forget context) }

def step (s : Session) : Call → Option Session
  | .create => s.run contextCreate fun context t => { t with contexts := context :: t.contexts }
  | .observe context t o => s.run (Host.observe t context o) fun _ t => t
  | .setResourcePath context path =>
      s.run (Host.setResourcePath context path) fun _ t =>
        { t with lost := s.pathBlocks context ++ t.lost }
  | .prepare context envp o =>
      s.run (Host.prepare o envp context) fun r t =>
        let t := t.prepared (s.serverBlocks context) r
        match r with
        | some r => t.addEnviron ⟨r.newenvp, some context, envp⟩
        | none => t
  | .start context child pipe =>
      s.run (Host.start context child pipe) fun r t => t.started context none r
  | .exec context envp o child =>
      s.run (Host.exec o envp context child) fun r t =>
        let t := t.prepared (s.serverBlocks context) r.1
        match r.1, r.2 with
        | some prepared, some r => t.started context (some ⟨prepared.newenvp, some context, envp⟩) r
        | _, _ => t
  | .dispatch context => s.run (load Cell.context? context) fun _ t => t
  | .returns context =>
      match s.frames.find? (·.context = context) with
      | some f =>
          s.run (match f.newenvp with
            | some e => execReturns f.state e.array
            | none => startReturns f.state) fun _ t => { t with frames := t.frames.erase f }
      | none => none
  | .threadEnds arg =>
      s.run (waitpidThread arg) fun _ t => { t with threads := t.threads.erase arg }
  | .freeEnviron array =>
      match s.environs.find? (·.array = array) with
      | some e => s.run (Prog.free array) fun _ t => { t with environs := t.environs.erase e }
      | none => none
  | .destroy context => s.run (contextDestroy context) fun _ t => t.forget context

/-- A context that is not destroyed, and for which no server runs. -/
def Idle (context : ℕ) : Prop := context ∈ s.contexts ∧ ∀ f ∈ s.frames, f.context ≠ context

/-- `voyeur_prepare` was not called yet. -/
def Unprepared (context : ℕ) : Prop := (s.context? context).any (·.2.2 = none) = true

/-- The last call of `voyeur_prepare` has made a socket. -/
def Listens (context : ℕ) : Prop :=
  (((s.context? context).bind (·.2.2)).bind s.serverState?).any (0 ≤ ·.2.1) = true

/-- The calls that the documentation permits, and what happens by itself. -/
def Permitted (s : Session) : Call → Prop
  | .create => True
  | .observe context _ _ => s.Idle context ∧ s.Unprepared context
  | .setResourcePath context _ | .prepare context _ _ | .exec context _ _ _ | .destroy context =>
      s.Idle context
  | .start context _ _ => s.Idle context ∧ s.Listens context
  | .dispatch context | .returns context => ∃ f ∈ s.frames, f.context = context
  | .threadEnds arg => arg ∈ s.threads
  | .freeEnviron array => ∃ e ∈ s.environs, e.array = array

instance (context : ℕ) : Decidable (s.Idle context) := by unfold Idle; infer_instance
instance (context : ℕ) : Decidable (s.Unprepared context) := by unfold Unprepared; infer_instance
instance (context : ℕ) : Decidable (s.Listens context) := by unfold Listens; infer_instance

instance (c : Call) : Decidable (s.Permitted c) :=
  match c with
  | .create | .observe .. | .setResourcePath .. | .prepare .. | .exec .. | .destroy ..
  | .start .. | .dispatch .. | .returns .. | .threadEnds .. | .freeEnviron .. => by
    unfold Permitted
    infer_instance

end Session

end Voyeur.Host
