import Mathlib.Logic.Function.Basic
import Voyeur.Server.Loop
import Voyeur.Transition.System

/-! # The descriptors of the server

The loop of `run_server` as far as it deals with descriptors: `select` reports what it
likes, `handle_message` returns what it likes, and other threads open and close
descriptors of their own. Each connection has a number of its own, so that a descriptor
that is used again refers to another connection.
-/

namespace Voyeur

/-- A call of the server on a descriptor, with what the descriptor refers to. -/
inductive Op
  | select (reported : List (ℕ × Report))
  /-- The new descriptor and its connection, unless the call fails. -/
  | accept (fd : ℕ) (object : Option Object) (result : Option (ℕ × ℕ))
  | read (fd : ℕ) (object : Option Object)
  | close (fd : ℕ) (object : Option Object)
  deriving DecidableEq

inductive Stage
  | head
  | scan (todo : List (ℕ × Report))
  | leave
  | stragglers (todo : List ℕ)
  | returned
  | undefined
  deriving DecidableEq

structure Ledger where
  table : ℕ → Option Object
  active : ℕ → Bool
  stage : Stage
  childExited : Bool
  /-- The connections that were accepted. -/
  accepted : List ℕ
  log : List Op

/-- A choice of the kernel or of another thread, or one step of the loop. -/
inductive Choice
  | hostOpens (fd : ℕ)
  | hostCloses (fd : ℕ)
  | select (reported : List (ℕ × Report))
  | selectInterrupted
  | selectFails
  | accept (fd i : ℕ)
  | acceptFails
  /-- `handle_message` returns `result`. -/
  | handleMessage (result : ℤ)
  | advance
  deriving DecidableEq

namespace Ledger

def note (w : Ledger) (op : Op) : Ledger := { w with log := w.log ++ [op] }

/-- `voyeur_close_socket`. -/
def close (w : Ledger) (fd : ℕ) : Ledger :=
  { w.note (.close fd (w.table fd)) with table := Function.update w.table fd none }

/-- `FD_CLR`. -/
def fdClr (w : Ledger) (fd : ℕ) : Ledger :=
  { w with active := Function.update w.active fd false }

def read (w : Ledger) (fd : ℕ) : Ledger := w.note (.read fd (w.table fd))

/-- `select` reports descriptors of the set, which the loop visits in ascending order. -/
def Selectable (w : Ledger) (reported : List (ℕ × Report)) : Prop :=
  (reported.map Prod.fst).Pairwise (· < ·) ∧
    ∀ r ∈ reported, r.1 < fdSetSize ∧ w.active r.1 = true

instance (w : Ledger) (reported : List (ℕ × Report)) : Decidable (w.Selectable reported) := by
  unfold Selectable; infer_instance

/-- `accept_connection`, and `FD_SET` on its result, which has no room for large descriptors. -/
def accept (S : Setup) (w : Ledger) (fd i : ℕ) : Option Ledger :=
  match w.stage with
  | .scan ((s, .readable) :: todo) =>
      if s = S.serverSock ∧ w.table s = some .listener ∧ w.table fd = none ∧ i ∉ w.accepted then
        some { w.note (.accept s (w.table s) (some (fd, i))) with
          table := Function.update w.table fd (some (.conn i))
          active := if fd < fdSetSize then Function.update w.active fd true else w.active
          stage := if fd < fdSetSize then .scan todo else .undefined
          accepted := i :: w.accepted }
      else none
  | _ => none

/-- One step of the loop itself. -/
def advance (S : Setup) (w : Ledger) : Option Ledger :=
  match w.stage with
  | .scan [] => some { w with stage := if w.childExited then .leave else .head }
  | .scan ((fd, .error) :: todo) => some { (w.close fd).fdClr fd with stage := .scan todo }
  | .scan ((fd, .readable) :: todo) =>
      if fd = S.serverSock then none   -- see `accept`
      else if fd = S.childPipe then
        some { ((w.read fd).close fd).fdClr fd with childExited := true, stage := .scan todo }
      else none   -- see `handleMessage`
  | .leave =>
      some { w.close S.serverSock with
        stage := .stragglers ((List.range fdSetSize).filter w.active) }
  | .stragglers [] => some { w with stage := .returned }
  | .stragglers (fd :: todo) => some { w.close fd with stage := .stragglers todo }
  | .head | .returned | .undefined => none

def step (S : Setup) (w : Ledger) : Choice → Option Ledger
  | .hostOpens fd =>
      if w.table fd = none then
        some { w with table := Function.update w.table fd (some .other) }
      else none
  | .hostCloses fd =>
      if w.table fd = some .other then some { w with table := Function.update w.table fd none }
      else none
  | .select reported =>
      match w.stage with
      | .head =>
          if w.Selectable reported then
            some { w.note (.select reported) with stage := .scan reported }
          else none
      | _ => none
  | .selectInterrupted =>
      match w.stage with
      | .head => some w
      | _ => none
  | .selectFails =>
      match w.stage with
      | .head => some { w with stage := .leave }
      | _ => none
  | .accept fd i => w.accept S fd i
  | .acceptFails =>
      match w.stage with
      | .scan ((s, .readable) :: todo) =>
          if s = S.serverSock then
            some { w.note (.accept s (w.table s) none) with stage := .scan todo }
          else none
      | _ => none
  | .handleMessage result =>
      match w.stage with
      | .scan ((fd, .readable) :: todo) =>
          if fd = S.serverSock ∨ fd = S.childPipe then none
          else if result < 0 then
            some { ((w.read fd).close fd).fdClr fd with stage := .scan todo }
          else some { w.read fd with stage := .scan todo }
      | _ => none
  | .advance => w.advance S

/-- At the entry of `run_server`. -/
def init (S : Setup) (host : ℕ → Bool) : Ledger where
  table := (Config.init S host).table
  active := (Config.init S host).active
  stage := .head
  childExited := false
  accepted := []
  log := []

end Ledger

/-- What a step does, and when it is possible. -/
inductive LedgerStep (S : Setup) (w : Ledger) : Choice → Ledger → Prop
  | hostOpens {fd : ℕ} :
      w.table fd = none →
      LedgerStep S w (.hostOpens fd) { w with table := Function.update w.table fd (some .other) }
  | hostCloses {fd : ℕ} :
      w.table fd = some .other →
      LedgerStep S w (.hostCloses fd) { w with table := Function.update w.table fd none }
  | select {reported : List (ℕ × Report)} :
      w.stage = .head → w.Selectable reported →
      LedgerStep S w (.select reported)
        { w.note (.select reported) with stage := .scan reported }
  | selectInterrupted : w.stage = .head → LedgerStep S w .selectInterrupted w
  | selectFails : w.stage = .head → LedgerStep S w .selectFails { w with stage := .leave }
  | accept {fd i : ℕ} {todo : List (ℕ × Report)} :
      w.stage = .scan ((S.serverSock, .readable) :: todo) →
      w.table S.serverSock = some .listener → w.table fd = none → i ∉ w.accepted →
      LedgerStep S w (.accept fd i)
        { w.note (.accept S.serverSock (w.table S.serverSock) (some (fd, i))) with
          table := Function.update w.table fd (some (.conn i))
          active := if fd < fdSetSize then Function.update w.active fd true else w.active
          stage := if fd < fdSetSize then .scan todo else .undefined
          accepted := i :: w.accepted }
  | acceptFails {todo : List (ℕ × Report)} :
      w.stage = .scan ((S.serverSock, .readable) :: todo) →
      LedgerStep S w .acceptFails
        { w.note (.accept S.serverSock (w.table S.serverSock) none) with stage := .scan todo }
  | failed {fd : ℕ} {result : ℤ} {todo : List (ℕ × Report)} :
      w.stage = .scan ((fd, .readable) :: todo) → fd ≠ S.serverSock → fd ≠ S.childPipe →
      LedgerStep S w (.handleMessage result)
        { ((w.read fd).close fd).fdClr fd with stage := .scan todo }
  | handled {fd : ℕ} {result : ℤ} {todo : List (ℕ × Report)} :
      w.stage = .scan ((fd, .readable) :: todo) → fd ≠ S.serverSock → fd ≠ S.childPipe →
      LedgerStep S w (.handleMessage result) { w.read fd with stage := .scan todo }
  | passEnd :
      w.stage = .scan [] →
      LedgerStep S w .advance { w with stage := if w.childExited then .leave else .head }
  | error {fd : ℕ} {todo : List (ℕ × Report)} :
      w.stage = .scan ((fd, .error) :: todo) →
      LedgerStep S w .advance { (w.close fd).fdClr fd with stage := .scan todo }
  | status {todo : List (ℕ × Report)} :
      w.stage = .scan ((S.childPipe, .readable) :: todo) →
      LedgerStep S w .advance
        { ((w.read S.childPipe).close S.childPipe).fdClr S.childPipe with
          childExited := true, stage := .scan todo }
  | leave :
      w.stage = .leave →
      LedgerStep S w .advance { w.close S.serverSock with
        stage := .stragglers ((List.range fdSetSize).filter w.active) }
  | returns : w.stage = .stragglers [] → LedgerStep S w .advance { w with stage := .returned }
  | straggler {fd : ℕ} {todo : List ℕ} :
      w.stage = .stragglers (fd :: todo) →
      LedgerStep S w .advance { w.close fd with stage := .stragglers todo }

variable {S : Setup} {w w' : Ledger} {a : Choice}

theorem ledger_advance_sound (h : w.advance S = some w') : LedgerStep S w .advance w' := by
  unfold Ledger.advance at h
  split at h
  · next hp => cases h; exact .passEnd hp
  · next fd todo hp => cases h; exact .error hp
  · next fd todo hp =>
    split at h
    · cases h
    · split at h
      · next hc => subst hc; cases h; exact .status hp
      · cases h
  · next hp => cases h; exact .leave hp
  · next hp => cases h; exact .returns hp
  · next fd todo hp => cases h; exact .straggler hp
  · cases h
  · cases h
  · cases h

/-- The step function makes these steps only. -/
theorem ledgerStep_sound (h : w.step S a = some w') : LedgerStep S w a w' := by
  cases a with
  | hostOpens fd =>
    obtain ⟨hf, h⟩ := Option.ite_none_right_eq_some.mp h
    cases h
    exact .hostOpens hf
  | hostCloses fd =>
    obtain ⟨hf, h⟩ := Option.ite_none_right_eq_some.mp h
    cases h
    exact .hostCloses hf
  | select reported =>
    simp only [Ledger.step] at h
    split at h
    · next hp =>
      obtain ⟨hr, h⟩ := Option.ite_none_right_eq_some.mp h
      cases h
      exact .select hp hr
    · cases h
  | selectInterrupted =>
    simp only [Ledger.step] at h
    split at h
    · next hp => cases h; exact .selectInterrupted hp
    · cases h
  | selectFails =>
    simp only [Ledger.step] at h
    split at h
    · next hp => cases h; exact .selectFails hp
    · cases h
  | accept fd i =>
    simp only [Ledger.step, Ledger.accept] at h
    split at h
    · next s todo hp =>
      obtain ⟨⟨rfl, hl, hf, hi⟩, h⟩ := Option.ite_none_right_eq_some.mp h
      cases h
      exact .accept hp hl hf hi
    · cases h
  | acceptFails =>
    simp only [Ledger.step] at h
    split at h
    · next s todo hp =>
      obtain ⟨rfl, h⟩ := Option.ite_none_right_eq_some.mp h
      cases h
      exact .acceptFails hp
    · cases h
  | handleMessage result =>
    simp only [Ledger.step] at h
    split at h
    · next fd todo hp =>
      split at h
      · cases h
      · next hn =>
        rw [not_or] at hn
        split at h
        · cases h
          exact .failed hp hn.1 hn.2
        · cases h
          exact .handled hp hn.1 hn.2
    · cases h
  | advance => exact ledger_advance_sound h

end Voyeur
