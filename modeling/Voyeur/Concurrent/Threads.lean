import Mathlib.Algebra.BigOperators.Group.Finset.Basic
import Mathlib.Algebra.Order.BigOperators.Group.Finset
import Mathlib.Algebra.Ring.Nat
import Mathlib.Data.Set.Finite.Lattice
import Mathlib.Order.Bounds.Basic
import Voyeur.Transition.System

/-! # Threads with mutexes

Threads that run lists of instructions on shared data. An instruction takes or releases
a mutex, or is an operation that changes the data and may put further instructions in
front of the rest. A thread without instructions is idle and may begin a call. An operation
may have to be made again, and it may bring the whole process to an end, with the calls that
are under way left as they are.
-/

namespace Threads

open Transition (Reach)

inductive Instr (Λ ο : Type)
  | lock (l : Λ)
  | unlock (l : Λ)
  | act (o : ο)
  deriving DecidableEq

variable {Λ ο χ κ ε σ : Type}

/-- What the operations do with a choice of their environment, and what happens besides. -/
structure Machine (Λ ο χ κ ε σ : Type) where
  act : ο → χ → σ → Option (List (Instr Λ ο) × σ)
  /-- The instructions of a call. -/
  code : κ → List (Instr Λ ο)
  env : ε → σ → Option σ
  /-- The choices after which an operation is only made again. -/
  again : χ → Bool
  /-- Whether the threads are gone. -/
  stopped : σ → Bool

structure State (Λ ο σ : Type) where
  todo : ℕ → List (Instr Λ ο)
  owner : Λ → Option ℕ
  data : σ

inductive Event (χ κ ε : Type)
  | start (t : ℕ) (call : κ)
  | lock (t : ℕ)
  | unlock (t : ℕ)
  | act (t : ℕ) (choice : χ)
  | env (e : ε)
  deriving DecidableEq

/-- The event is a step of a call that is under way. -/
def Event.OfCall : Event χ κ ε → Prop
  | .lock _ | .unlock _ | .act _ _ => True
  | .start _ _ | .env _ => False

namespace State

/-- The thread goes on with other instructions. -/
def goOn (s : State Λ ο σ) (t : ℕ) (code : List (Instr Λ ο)) : State Λ ο σ :=
  { s with todo := Function.update s.todo t code }

def setOwner [DecidableEq Λ] (s : State Λ ο σ) (l : Λ) (t : Option ℕ) : State Λ ο σ :=
  { s with owner := Function.update s.owner l t }

def setData (s : State Λ ο σ) (d : σ) : State Λ ο σ := { s with data := d }

/-- No call is under way. -/
def Idle (s : State Λ ο σ) : Prop := ∀ t, s.todo t = []

def init (d : σ) : State Λ ο σ := ⟨fun _ => [], fun _ => none, d⟩

section

variable (s : State Λ ο σ) (t : ℕ) (code : List (Instr Λ ο)) (d : σ)

@[simp] theorem goOn_todo : (s.goOn t code).todo = Function.update s.todo t code := rfl
@[simp] theorem goOn_owner : (s.goOn t code).owner = s.owner := rfl
@[simp] theorem goOn_data : (s.goOn t code).data = s.data := rfl
@[simp] theorem setData_todo : (s.setData d).todo = s.todo := rfl
@[simp] theorem setData_owner : (s.setData d).owner = s.owner := rfl
@[simp] theorem setData_data : (s.setData d).data = d := rfl

variable [DecidableEq Λ] (l : Λ) (o : Option ℕ)

@[simp] theorem setOwner_todo : (s.setOwner l o).todo = s.todo := rfl
@[simp] theorem setOwner_owner : (s.setOwner l o).owner = Function.update s.owner l o := rfl
@[simp] theorem setOwner_data : (s.setOwner l o).data = s.data := rfl

end

end State

/-- The number of steps that an instruction takes at most, if `cost` bounds the operations. -/
def Instr.cost (cost : ο → ℕ) : Instr Λ ο → ℕ
  | .lock _ | .unlock _ => 1
  | .act o => cost o

def codeCost (cost : ο → ℕ) (code : List (Instr Λ ο)) : ℕ := (code.map (Instr.cost cost)).sum

/-- An operation that is not made again costs more than what it leaves to do. -/
def Machine.Bounded (M : Machine Λ ο χ κ ε σ) (cost : ο → ℕ) : Prop :=
  ∀ o choice d code d', M.act o choice d = some (code, d') → M.again choice = false →
    M.stopped d' = false → codeCost cost code < cost o

/-- The event is an operation that is made again. -/
def Machine.Repeats (M : Machine Λ ο χ κ ε σ) : Event χ κ ε → Prop
  | .act _ choice => M.again choice = true
  | .start _ _ | .lock _ | .unlock _ | .env _ => False

section

variable {cost : ο → ℕ}

@[simp] theorem codeCost_nil : codeCost cost ([] : List (Instr Λ ο)) = 0 := rfl

@[simp] theorem codeCost_cons (i : Instr Λ ο) (code : List (Instr Λ ο)) :
    codeCost cost (i :: code) = i.cost cost + codeCost cost code := List.sum_cons

@[simp] theorem codeCost_append (code code' : List (Instr Λ ο)) :
    codeCost cost (code ++ code') = codeCost cost code + codeCost cost code' := by
  simp [codeCost]

end

/-- Only threads below `n` have instructions. -/
def State.Below (s : State Λ ο σ) (n : ℕ) : Prop := ∀ t, n ≤ t → s.todo t = []

/-- The work that is left to the threads below `n`. -/
def State.work (cost : ο → ℕ) (n : ℕ) (s : State Λ ο σ) : ℕ :=
  ∑ t ∈ Finset.range n, codeCost cost (s.todo t)

variable {s s' : State Λ ο σ}

theorem State.work_update {cost : ο → ℕ} {n t : ℕ} {code : List (Instr Λ ο)} (ht : t < n)
    (hs : s'.todo = Function.update s.todo t code)
    (hc : codeCost cost code < codeCost cost (s.todo t)) : s'.work cost n < s.work cost n := by
  refine Finset.sum_lt_sum (fun u _ => ?_) ⟨t, Finset.mem_range.mpr ht, by simpa [hs] using hc⟩
  by_cases hu : u = t
  · subst hu
    simpa [hs] using hc.le
  · simp [hs, hu]

theorem State.Below.lt {n t : ℕ} (h : s.Below n) (ht : s.todo t ≠ []) : t < n := by
  by_contra hn
  exact ht (h t (not_lt.mp hn))

theorem State.Below.update {n t : ℕ} {code : List (Instr Λ ο)} (h : s.Below n) (ht : t < n)
    (hs : s'.todo = Function.update s.todo t code) : s'.Below n := by
  intro u hu
  rw [hs, Function.update_of_ne (by omega)]
  exact h u hu

variable [DecidableEq Λ]

namespace Machine

/-- A step of a thread. -/
def threadStep (M : Machine Λ ο χ κ ε σ) (s : State Λ ο σ) : Event χ κ ε → Option (State Λ ο σ)
  | .start t call =>
      match s.todo t with
      | [] => some (s.goOn t (M.code call))
      | _ :: _ => none
  | .lock t =>
      match s.todo t with
      | .lock l :: rest =>
          if s.owner l = none then some ((s.goOn t rest).setOwner l (some t)) else none
      | _ => none
  | .unlock t =>
      match s.todo t with
      | .unlock l :: rest => some ((s.goOn t rest).setOwner l none)
      | _ => none
  | .act t choice =>
      match s.todo t with
      | .act o :: rest =>
          (M.act o choice s.data).map fun r => (s.goOn t (r.1 ++ rest)).setData r.2
      | _ => none
  | .env _ => none

def step (M : Machine Λ ο χ κ ε σ) (s : State Λ ο σ) : Event χ κ ε → Option (State Λ ο σ)
  | .env e => (M.env e s.data).map s.setData
  | e => if M.stopped s.data then none else M.threadStep s e

end Machine

/-- What a step does, and when it is possible. -/
inductive Step (M : Machine Λ ο χ κ ε σ) (s : State Λ ο σ) : Event χ κ ε → State Λ ο σ → Prop
  | start {t : ℕ} {call : κ} :
      M.stopped s.data = false → s.todo t = [] →
      Step M s (.start t call) (s.goOn t (M.code call))
  | lock {t : ℕ} {l : Λ} {rest : List (Instr Λ ο)} :
      M.stopped s.data = false → s.todo t = .lock l :: rest → s.owner l = none →
      Step M s (.lock t) ((s.goOn t rest).setOwner l (some t))
  | unlock {t : ℕ} {l : Λ} {rest : List (Instr Λ ο)} :
      M.stopped s.data = false → s.todo t = .unlock l :: rest →
      Step M s (.unlock t) ((s.goOn t rest).setOwner l none)
  | act {t : ℕ} {choice : χ} {o : ο} {rest code : List (Instr Λ ο)} {d : σ} :
      M.stopped s.data = false → s.todo t = .act o :: rest →
      M.act o choice s.data = some (code, d) →
      Step M s (.act t choice) ((s.goOn t (code ++ rest)).setData d)
  | env {e : ε} {d : σ} : M.env e s.data = some d → Step M s (.env e) (s.setData d)

variable {M : Machine Λ ο χ κ ε σ} {e : Event χ κ ε}

theorem step_sound (h : M.step s e = some s') : Step M s e s' := by
  cases e with
  | start t call =>
    obtain ⟨hl, h⟩ := Option.ite_none_left_eq_some.mp h
    simp only [Machine.threadStep] at h
    split at h
    · next ht =>
      cases h
      exact .start (by simpa using hl) ht
    · cases h
  | lock t =>
    obtain ⟨hl, h⟩ := Option.ite_none_left_eq_some.mp h
    simp only [Machine.threadStep] at h
    split at h
    · next ht =>
      obtain ⟨ho, h⟩ := Option.ite_none_right_eq_some.mp h
      cases h
      exact .lock (by simpa using hl) ht ho
    · cases h
  | unlock t =>
    obtain ⟨hl, h⟩ := Option.ite_none_left_eq_some.mp h
    simp only [Machine.threadStep] at h
    split at h
    · next ht =>
      cases h
      exact .unlock (by simpa using hl) ht
    · cases h
  | act t choice =>
    obtain ⟨hl, h⟩ := Option.ite_none_left_eq_some.mp h
    simp only [Machine.threadStep] at h
    split at h
    · next ht =>
      obtain ⟨⟨code, d⟩, hr, rfl⟩ := Option.map_eq_some_iff.mp h
      exact .act (by simpa using hl) ht hr
    · cases h
  | env e =>
    obtain ⟨d, hd, rfl⟩ := Option.map_eq_some_iff.mp h
    exact .env hd

section

variable {t : ℕ} {l : Λ} {o : ο} {choice : χ} {rest code : List (Instr Λ ο)} {d : σ}

theorem step_lock (hl : M.stopped s.data = false) (h : s.todo t = .lock l :: rest)
    (ho : s.owner l = none) : M.step s (.lock t) = some ((s.goOn t rest).setOwner l (some t)) := by
  simp [Machine.step, Machine.threadStep, h, ho, hl]

theorem step_unlock (hl : M.stopped s.data = false) (h : s.todo t = .unlock l :: rest) :
    M.step s (.unlock t) = some ((s.goOn t rest).setOwner l none) := by
  simp [Machine.step, Machine.threadStep, h, hl]

theorem step_act (hl : M.stopped s.data = false) (h : s.todo t = .act o :: rest)
    (ha : M.act o choice s.data = some (code, d)) :
    M.step s (.act t choice) = some ((s.goOn t (code ++ rest)).setData d) := by
  simp [Machine.step, Machine.threadStep, h, ha, hl]

end

theorem Step.not_stopped (h : Step M s e s') (he : e.OfCall) : M.stopped s.data = false := by
  cases h with
  | start | env => exact he.elim
  | lock hl | unlock hl | act hl => exact hl

theorem Step.below {n : ℕ} (h : Step M s e s') (hn : s.Below n)
    (hs : ∀ t call, e = .start t call → t < n) : s'.Below n := by
  have hlt : ∀ {t i rest}, s.todo t = i :: rest → t < n := fun ht => hn.lt (by simp [ht])
  cases h with
  | start => exact hn.update (hs _ _ rfl) rfl
  | lock _ ht => exact hn.update (hlt ht) rfl
  | unlock _ ht => exact hn.update (hlt ht) rfl
  | act _ ht => exact hn.update (hlt ht) rfl
  | env => exact hn

theorem Step.below_of_call {n : ℕ} (h : Step M s e s') (he : e.OfCall) (hn : s.Below n) :
    s'.Below n := by
  refine h.below hn ?_
  rintro t call rfl
  exact he.elim

theorem Step.work_lt {cost : ο → ℕ} {n : ℕ} (hb : M.Bounded cost) (h : Step M s e s')
    (he : e.OfCall) (hr : ¬ M.Repeats e) (hl : M.stopped s'.data = false) (hn : s.Below n) :
    s'.work cost n < s.work cost n := by
  cases h with
  | start | env => exact he.elim
  | @lock t l rest _ ht =>
    have hlt := hn.lt (t := t) (by simp [ht])
    exact State.work_update hlt rfl (by simp [ht, Instr.cost])
  | @unlock t l rest _ ht =>
    have hlt := hn.lt (t := t) (by simp [ht])
    exact State.work_update hlt rfl (by simp [ht, Instr.cost])
  | @act t choice o rest code d _ ht ha =>
    have hlt := hn.lt (t := t) (by simp [ht])
    refine State.work_update hlt rfl ?_
    have := hb _ _ _ _ _ ha (Bool.eq_false_iff.mpr hr) hl
    simp only [ht, codeCost_append, codeCost_cons, Instr.cost]
    omega

theorem below_of_reach {ok : State Λ ο σ → Event χ κ ε → Prop} {d : σ}
    (h : Reach M.step ok (.init d) s) : ∃ n, s.Below n := by
  refine h.invariant (I := fun s => ∃ n, s.Below n) ⟨0, fun _ _ => rfl⟩ ?_
  rintro s e s' ⟨n, hn⟩ - hs
  by_cases he : ∃ t call, e = .start t call
  · obtain ⟨t, call, rfl⟩ := he
    have hn' : s.Below (max n (t + 1)) := fun u hu => hn u (le_trans (le_max_left _ _) hu)
    refine ⟨_, (step_sound hs).below hn' ?_⟩
    rintro u call ⟨⟩
    omega
  · exact ⟨n, (step_sound hs).below hn fun t call ht => absurd ⟨t, call, ht⟩ he⟩

/-- The threads alone cannot go on for ever if only finitely many operations are made again. -/
theorem no_infinite_run {cost : ο → ℕ} (hb : M.Bounded cost) {n : ℕ} (hn : s.Below n)
    (f : ℕ → State Λ ο σ) (e : ℕ → Event χ κ ε) (hf : f 0 = s)
    (hr : {k | M.Repeats (e k)}.Finite) :
    ¬ ∀ k, (e k).OfCall ∧ M.step (f k) (e k) = some (f (k + 1)) := by
  intro h
  have hs : ∀ k, Step M (f k) (e k) (f (k + 1)) := fun k => step_sound (h k).2
  have hl : ∀ k, M.stopped (f k).data = false := fun k => (hs k).not_stopped (h k).1
  have hbelow : ∀ k, (f k).Below n := by
    intro k
    induction k with
    | zero => exact hf ▸ hn
    | succ k ih => exact (hs k).below_of_call (h k).1 ih
  -- From a certain step on nothing is made again.
  obtain ⟨m, hm⟩ := hr.bddAbove
  have hk : ∀ k, (f (m + 1 + k)).work cost n + k ≤ (f (m + 1)).work cost n := by
    intro k
    induction k with
    | zero => exact le_rfl
    | succ k ih =>
      have hnr : ¬ M.Repeats (e (m + 1 + k)) := fun hr => by
        have := hm hr
        omega
      have hw : (f (m + 1 + (k + 1))).work cost n < (f (m + 1 + k)).work cost n :=
        (hs (m + 1 + k)).work_lt hb (h _).1 hnr (hl _) (hbelow _)
      omega
  have := hk ((f (m + 1)).work cost n + 1)
  omega

/-- If the threads can always go on, they can complete their calls. -/
theorem completes {cost : ο → ℕ} (hb : M.Bounded cost) {I : State Λ ο σ → Prop}
    (hi : ∀ s e s', I s → e.OfCall → Step M s e s' → I s')
    (hl : ∀ s, I s → M.stopped s.data = false)
    (hp : ∀ s, I s → ¬ s.Idle → ∃ (e : Event χ κ ε) (s' : State Λ ο σ),
      e.OfCall ∧ ¬ M.Repeats e ∧ M.step s e = some s')
    {n : ℕ} (hn : s.Below n) (hs : I s) :
    ∃ s', Reach M.step (fun _ e => e.OfCall) s s' ∧ s'.Idle ∧ I s' := by
  induction hw : s.work cost n using Nat.strong_induction_on generalizing s with
  | _ w ih =>
    by_cases hd : s.Idle
    · exact ⟨s, .refl, hd, hs⟩
    · obtain ⟨e, t, he, hr, ht⟩ := hp s hs hd
      have hst := step_sound ht
      have hit := hi _ _ _ hs he hst
      have hlt := hst.work_lt hb he hr (hl t hit) hn
      obtain ⟨u, hu, hi'⟩ := ih _ (hw ▸ hlt) (hst.below_of_call he hn) hit rfl
      have hone : Reach M.step (fun _ e => e.OfCall) s t := .single he ht
      exact ⟨u, hone.trans hu, hi'⟩

end Threads
