import Voyeur.Server.Descriptors

/-! # The exit status

The waitpid thread announces the child's status with `send`, which does not take
bytes for a pipe. So the server only sees that the pipe was closed, and returns the
value of its variable: the status of a child that exited with code 0.
-/

namespace Voyeur

open Transition (Reach)

/-- What is known about the status in every run: nothing was announced. -/
structure Unannounced (c : Config) : Prop where
  pipe : c.pipe.queue = []
  status : c.childStatus = 0
  result : ∀ result, c.phase.result = some result → result = 0

variable {S : Setup} {c c' : Config} {a : Action}

theorem waitpidThread_queue (status : CInt) : (waitpidThread status).queue = [] := rfl

theorem readStatus_empty (hp : c.pipe.queue = []) (ht : c.table S.childPipe = some .childPipe)
    (h : c.readStatus S.childPipe = some c') :
    c'.pipe.queue = [] ∧ c'.childStatus = c.childStatus := by
  simp only [Config.readStatus, ht, hp, Option.ite_none_right_eq_some] at h
  obtain ⟨-, h⟩ := h
  cases h
  exact ⟨rfl, rfl⟩

theorem Step.unannounced (h : Step S c a c') (hd : Descriptors S c) (hu : Unannounced c) :
    Unannounced c' := by
  cases h with
  | childTerminates => exact ⟨waitpidThread_queue _, hu.status, hu.result⟩
  | connect | send | hangUp | hostOpens | hostCloses | selectInterrupted =>
    exact ⟨hu.pipe, hu.status, hu.result⟩
  | select | selectFails | acceptFails | read | readEnd | readFails | error | start | next
  | finish | call | fault | leave | straggler =>
    exact ⟨hu.pipe, hu.status, by simp [Phase.result]⟩
  | passEnd | accept =>
    refine ⟨hu.pipe, hu.status, ?_⟩
    simp only
    split <;> simp [Phase.result]
  | @status c₁ todo hp hr =>
    have hv := hd.visit .readable
    rw [hp] at hv
    have ht := hd.pipe (hp ▸ trivial) (hv List.mem_cons_self).1
    obtain ⟨h1, h2⟩ := readStatus_empty hu.pipe ht hr
    exact ⟨h1, h2.trans hu.status, by simp [Phase.result]⟩
  | returns hp =>
    refine ⟨hu.pipe, hu.status, fun result hr => ?_⟩
    simp only [Phase.result, Option.some.injEq, hu.status] at hr
    exact hr.symm

variable {ok : Config → Action → Prop} {host : ℕ → Bool}

theorem reach_unannounced (h : Reach (Config.step S) ok (Config.init S host) c) :
    Descriptors S c ∧ Unannounced c := by
  refine h.invariant (I := fun c => Descriptors S c ∧ Unannounced c) ?_ ?_
  · exact ⟨init_descriptors S host, rfl, rfl, by simp [Config.init, Phase.result]⟩
  · rintro c a c' ⟨hd, hu⟩ - hs
    have hst := step_sound hs
    exact ⟨hst.descriptors hd, hst.unannounced hd hu⟩

/-- The server returns 0 in every run. -/
theorem returned_eq_zero (h : Reach (Config.step S) ok (Config.init S host) c) {result : ℤ}
    (hr : c.phase.result = some result) : result = 0 :=
  (reach_unannounced h).2.result result hr

theorem exitResult_eq_zero_iff (status : CInt) :
    exitResult status = 0 ↔ wifexited status = true ∧ wexitstatus status = 0 := by
  unfold exitResult
  split
  · next hw => simp [hw]
  · next hw => simp [hw]

theorem returned_status_iff (h : Reach (Config.step S) ok (Config.init S host) c)
    {result : ℤ} (hr : c.phase.result = some result) (status : CInt) :
    result = exitResult status ↔ wifexited status = true ∧ wexitstatus status = 0 := by
  rw [returned_eq_zero h hr, ← exitResult_eq_zero_iff, eq_comm]

/-- The next step of the loop takes the bytes of `status` out of the child's pipe. -/
def Config.ReadsStatus (S : Setup) (c : Config) (status : CInt) : Prop :=
  (∃ todo, c.phase = .scan ((S.childPipe, .readable) :: todo)) ∧
    c.table S.childPipe = some .childPipe ∧ c.pipe.queue.take 4 = (writeInt status).flatten

/--
What a run that returns `result` in `c` has to have done. The value is the one that the
child's status stands for, and a normal exit is reported only if the status was obtained,
sent and read, and if no `select` failed.
-/
structure ReportsExit (S : Setup) (host : ℕ → Bool) (run : List Action) (c : Config)
    (result : ℤ) : Prop where
  value : ∀ status, c.child = some status → result = exitResult status
  obtained : 0 ≤ result → ∃ status, c.child = some status ∧ .childTerminates status status ∈ run
  sent : 0 ≤ result → ∃ status, c.child = some status ∧
    doWriteTo .pipe (writeInt status).flatten = (writeInt status).flatten
  read : 0 ≤ result → ∃ before after c₁ status, run = before ++ .advance :: after ∧
    Transition.exec (Config.step S) (fun _ _ => True) (Config.init S host) before = some c₁ ∧
    c.child = some status ∧ c₁.ReadsStatus S status
  select : 0 ≤ result → .selectFails ∉ run

theorem not_readsStatus (h : Reach (Config.step S) ok (Config.init S host) c) (status : CInt) :
    ¬ c.ReadsStatus S status := by
  rintro ⟨-, -, hq⟩
  have hp : c.pipe.queue = [] := (reach_unannounced h).2.pipe
  have hl : ((writeInt status).flatten).length = 4 := by
    simp [writeInt, writeWord]
  rw [hp] at hq
  simp [← hq] at hl

/--
Every run that returns reports a normal exit whose status was neither sent nor read. Its
value is the right one exactly if the child exited normally with code 0.
-/
theorem reportsExit_never {run : List Action}
    (h : Transition.exec (Config.step S) (fun _ _ => True) (Config.init S host) run = some c)
    {result : ℤ} (hr : c.phase.result = some result) :
    ¬ ReportsExit S host run c result ∧ ∀ status, c.child = some status →
      (result = exitResult status ↔ wifexited status = true ∧ wexitstatus status = 0) := by
  have hreach := Transition.reach_of_exec h
  have hz : result = 0 := returned_eq_zero hreach hr
  refine ⟨fun hx => ?_, fun status _ => returned_status_iff hreach hr status⟩
  obtain ⟨before, after, c₁, status, -, hb, -, hs⟩ := hx.read hz.ge
  exact not_readsStatus (Transition.reach_of_exec hb) status hs

/-- The child exits, and the server finds its pipe closed. -/
def exitRun (status : CInt) : List Action :=
  [.childTerminates status status, .select [(4, .readable)], .advance, .advance, .advance,
    .advance, .advance]

/-- A test whether a run of the observer returns 0 after its child terminated with `status`. -/
def returnsZero (status : CInt) (run : List Action) : Bool :=
  (Transition.exec (Config.step observer) (fun _ _ => True)
    (Config.init observer fun _ => false) run).any fun c =>
      decide (c.phase.result = some 0 ∧ c.child = some status)

theorem exists_of_returnsZero {status : CInt} {run : List Action}
    (h : returnsZero status run = true) : ∃ c, Transition.exec (Config.step observer)
      (fun _ _ => True) (Config.init observer fun _ => false) run = some c ∧
      c.phase.result = some 0 ∧ c.child = some status := by
  unfold returnsZero at h
  cases hx : Transition.exec (Config.step observer) (fun _ _ => True)
      (Config.init observer fun _ => false) run with
  | none => simp [hx] at h
  | some c => exact ⟨c, rfl, of_decide_eq_true (by simpa [hx] using h)⟩

/-- A child that exits with code 1 is reported to have exited with code 0. -/
theorem not_reportsExit_failure :
    ¬ ∀ (run : List Action) (c : Config) (result : ℤ),
      Transition.exec (Config.step observer) (fun _ _ => True)
        (Config.init observer fun _ => false) run = some c →
      c.phase.result = some result →
      ReportsExit observer (fun _ => false) run c result := by
  intro h
  obtain ⟨c, hx, hr, hc⟩ := exists_of_returnsZero
    (by decide +kernel : returnsZero 256 (exitRun 256) = true)
  have he : (0 : ℤ) = exitResult 256 := (h _ c 0 hx hr).value 256 hc
  exact absurd he (by decide)

/-- The value is right for a child that exits with code 0, but nobody announced it. -/
theorem not_reportsExit_success : ∃ c : Config, c.phase.result = some 0 ∧ c.child = some 0 ∧
    0 = exitResult 0 ∧ ¬ ReportsExit observer (fun _ => false) (exitRun 0) c 0 := by
  obtain ⟨c, hx, hr, hc⟩ := exists_of_returnsZero
    (by decide +kernel : returnsZero 0 (exitRun 0) = true)
  exact ⟨c, hr, hc, by decide, (reportsExit_never hx hr).1⟩

end Voyeur
