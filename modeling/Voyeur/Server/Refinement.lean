import Voyeur.Server.ActiveSet
import Voyeur.Server.Projection

/-! # The server refines its ledger

The server that reads messages makes, step by step, the calls that the ledger records:
while a message is read the ledger waits in front of the descriptor, and the step that
ends the message is one call of `handle_message`. What holds of every ledger then holds of
the server: its set is what it holds, and a message is read from a connection only.
-/

namespace Voyeur

open Transition (Reach)

/--
Where the ledger is while the server is in a phase. A message may end in a fault, which the
ledger does not know of.
-/
def Phase.Shows (S : Setup) : Phase → Stage → Prop
  | .head, stage => stage = .head
  | .scan todo, stage => stage = .scan todo
  | .message fd _ _ todo, stage =>
      fd ≠ S.serverSock ∧ fd ≠ S.childPipe ∧ stage = .scan ((fd, .readable) :: todo)
  | .leave, stage => stage = .leave
  | .stragglers todo, stage => stage = .stragglers todo
  | .returned _, stage => stage = .returned
  | .undefined, _ => True

/-- The connection was accepted, and may have been closed since. -/
def Side.Taken : Side → Prop
  | .accepted _ | .closed _ => True
  | .absent | .queued => False

/-- The ledger records the descriptors of the server. -/
structure Refines (S : Setup) (c : Config) (w : Ledger) : Prop where
  table : w.table = c.table
  active : w.active = c.active
  childExited : w.childExited = c.childExited
  accepted : ∀ i ∈ w.accepted, (c.conns i).side.Taken
  stage : c.phase.Shows S w.stage

variable {S : Setup} {c c' : Config} {w w' : Ledger} {a : Action} {host : ℕ → Bool}

theorem taken_close {fd i : ℕ} (h : (c.conns i).side.Taken) (why : Cause) :
    ((c.close fd why).conns i).side.Taken := by
  by_cases ht : c.table fd = some (.conn i)
  · rw [Config.close_conns_self ht]
    trivial
  · rw [Config.close_conns_of_ne ht]
    exact h

namespace Refines

theorem silent (h : Refines S c w) (ht : c'.table = c.table) (ha : c'.active = c.active)
    (he : c'.childExited = c.childExited)
    (hs : ∀ i, (c.conns i).side.Taken → (c'.conns i).side.Taken)
    (hp : c'.phase.Shows S w.stage) : Refines S c' w where
  table := h.table.trans ht.symm
  active := h.active.trans ha.symm
  childExited := h.childExited.trans he.symm
  accepted i hi := hs i (h.accepted i hi)
  stage := hp

theorem close (h : Refines S c w) (fd : ℕ) (why : Cause) (ht : w'.table = (w.close fd).table)
    (hn : w'.accepted = w.accepted) (htable : c'.table = (c.close fd why).table)
    (hconns : c'.conns = (c.close fd why).conns) (ha : w'.active = c'.active)
    (he : w'.childExited = c'.childExited) (hp : c'.phase.Shows S w'.stage) :
    Refines S c' w' where
  table := by
    rw [ht, htable, Ledger.close, Config.close, h.table]
  active := ha
  childExited := he
  accepted i hi := by
    rw [hn] at hi
    rw [hconns]
    exact taken_close (h.accepted i hi) why
  stage := hp

end Refines

/-- Every step of the server is a step of the ledger, or none. -/
theorem Step.refines (h : Step S c a c') (hw : c.WellFormed) (hr : Refines S c w) :
    ∃ w', Reach (Ledger.step S) (fun _ _ => True) w w' ∧ Refines S c' w' := by
  have hstage := hr.stage
  have stays : ∀ {c' : Config}, Refines S c' w →
      ∃ w', Reach (Ledger.step S) (fun _ _ => True) w w' ∧ Refines S c' w' :=
    fun h' => ⟨w, .refl, h'⟩
  have moves : ∀ {c' : Config} {w' : Ledger} (choice : Choice), w.step S choice = some w' →
      Refines S c' w' →
      ∃ w', Reach (Ledger.step S) (fun _ _ => True) w w' ∧ Refines S c' w' :=
    fun _ hs h' => ⟨_, .single trivial hs, h'⟩
  cases h with
  | @connect i ha hl =>
    apply stays
    refine hr.silent rfl rfl rfl ?_ hstage
    intro j hj
    by_cases hji : j = i
    · subst hji
      rw [ha] at hj
      exact hj.elim
    · simpa [Config.setConn, hji] using hj
  | send _ _ | hangUp _ =>
    apply stays
    refine hr.silent rfl rfl rfl ?_ hstage
    intro j hj
    rwa [Config.setConn_side]
    rfl
  | childTerminates _ =>
    apply stays
    exact hr.silent rfl rfl rfl (fun _ hi => hi) hstage
  | @hostOpens fd hf =>
    rw [← hr.table] at hf
    refine moves (.hostOpens fd) (if_pos hf) ⟨?_, hr.active, hr.childExited, hr.accepted, hstage⟩
    rw [hr.table]
  | @hostCloses fd hf =>
    rw [← hr.table] at hf
    refine moves (.hostCloses fd) (if_pos hf) ⟨?_, hr.active, hr.childExited, hr.accepted, hstage⟩
    rw [hr.table]
  | @select reported hp hq =>
    rw [hp] at hstage
    have hs : w.Selectable reported := by
      refine ⟨hq.1, fun r hm => ?_⟩
      rw [hr.active]
      exact ⟨(hq.2 r hm).1, (hq.2 r hm).2.1⟩
    have hstep : w.step S (.select reported) =
        some { w.note (.select reported) with stage := .scan reported } := by
      have hst : w.stage = .head := hstage
      simp [Ledger.step, hst, hs]
    exact moves _ hstep ⟨hr.table, hr.active, hr.childExited, hr.accepted, rfl⟩
  | selectInterrupted hp =>
    apply stays
    exact hr
  | selectFails hp =>
    rw [hp] at hstage
    have hstep : w.step S .selectFails = some { w with stage := .leave } := by
      have hst : w.stage = .head := hstage
      simp [Ledger.step, hst]
    exact moves _ hstep ⟨hr.table, hr.active, hr.childExited, hr.accepted, rfl⟩
  | @accept fd i backlog todo hp hb hl hf =>
    rw [hp] at hstage
    have hst : w.stage = .scan ((S.serverSock, .readable) :: todo) := hstage
    have hi : i ∉ w.accepted := by
      intro hm
      have hq : (c.conns i).side = .queued := hw.queued i (by simp [hb])
      have ht := hr.accepted i hm
      rw [hq] at ht
      exact ht
    rw [← hr.table] at hl hf
    have hstep : w.step S (.accept fd i) =
        some { w.note (.accept S.serverSock (w.table S.serverSock) (some (fd, i))) with
          table := Function.update w.table fd (some (.conn i))
          active := if fd < fdSetSize then Function.update w.active fd true else w.active
          stage := if fd < fdSetSize then .scan todo else .undefined
          accepted := i :: w.accepted } := by
      simp only [Ledger.step, Ledger.accept, hst]
      exact if_pos ⟨trivial, hl, hf, hi⟩
    refine moves _ hstep ⟨?_, ?_, hr.childExited, ?_, ?_⟩
    · rw [hr.table]
    · rw [hr.active]
    · intro j hj
      by_cases hji : j = i
      · subst hji
        simp [Side.Taken]
      · have hj' := hr.accepted j ((List.mem_cons.mp hj).resolve_left hji)
        simpa [hji] using hj'
    · by_cases hfd : fd < fdSetSize
      · simp [hfd, Phase.Shows]
      · simp [hfd, Phase.Shows]
  | @acceptFails todo hp =>
    rw [hp] at hstage
    have hst : w.stage = .scan ((S.serverSock, .readable) :: todo) := hstage
    have hstep : w.step S .acceptFails =
        some { w.note (.accept S.serverSock (w.table S.serverSock) none) with
          stage := .scan todo } := by
      simp [Ledger.step, hst]
    exact moves _ hstep ⟨hr.table, hr.active, hr.childExited, hr.accepted, rfl⟩
  | @read n fd i prog acc todo hp _ _ _ _ =>
    rw [hp] at hstage
    apply stays
    refine hr.silent rfl rfl rfl ?_ hstage
    intro j hj
    rwa [Config.setConn_side]
    rfl
  | readEnd hp _ _ _ _ | readFails hp _ _ | call hp _ =>
    rw [hp] at hstage
    apply stays
    exact hr.silent rfl rfl rfl (fun _ hi => hi) hstage
  | fault hp =>
    apply stays
    exact hr.silent rfl rfl rfl (fun _ hi => hi) trivial
  | @start fd todo hp hs hc =>
    rw [hp] at hstage
    apply stays
    exact hr.silent rfl rfl rfl (fun _ hi => hi) ⟨hs, hc, hstage⟩
  | passEnd hp =>
    rw [hp] at hstage
    have hst : w.stage = .scan [] := hstage
    have hstep : w.step S .advance =
        some { w with stage := if w.childExited then .leave else .head } := by
      simp [Ledger.step, Ledger.advance, hst]
    refine moves _ hstep ⟨hr.table, hr.active, hr.childExited, hr.accepted, ?_⟩
    rw [hr.childExited]
    cases c.childExited <;> rfl
  | @error fd todo hp =>
    rw [hp] at hstage
    have hst : w.stage = .scan ((fd, .error) :: todo) := hstage
    have hstep : w.step S .advance =
        some { (w.close fd).fdClr fd with stage := .scan todo } := by
      simp [Ledger.step, Ledger.advance, hst]
    refine moves _ hstep (hr.close fd .error rfl rfl rfl rfl ?_ hr.childExited rfl)
    simp [Ledger.fdClr, Ledger.close, Ledger.note, Config.fdClr, Config.close, hr.active]
  | @status c₁ todo hp hs =>
    rw [hp] at hstage
    have hst : w.stage = .scan ((S.childPipe, .readable) :: todo) := hstage
    obtain ⟨h₁, -, -, h₂, -, h₃⟩ := Config.readStatus_frame hs
    have hstep : w.step S .advance =
        some { ((w.read S.childPipe).close S.childPipe).fdClr S.childPipe with
          childExited := true, stage := .scan todo } := by
      simp [Ledger.step, Ledger.advance, hst, S.serverSock_ne.symm]
    refine moves _ hstep (hr.close S.childPipe .exit rfl rfl ?_ ?_ ?_ rfl rfl)
    · simp [Config.fdClr, Config.close, h₁]
    · simp [Config.fdClr, Config.close, h₁, h₂]
    · simp [Ledger.fdClr, Ledger.close, Ledger.read, Ledger.note, Config.fdClr, Config.close,
        hr.active, h₃]
  | @next fd verdict acc todo hp hv =>
    rw [hp] at hstage
    obtain ⟨hs, hc, hst⟩ := hstage
    have hstep : w.step S (.handleMessage verdict.code) =
        some { w.read fd with stage := .scan todo } := by
      simp [Ledger.step, hst, hs, hc, Int.not_lt.mpr hv]
    exact moves _ hstep ⟨hr.table, hr.active, hr.childExited, hr.accepted, rfl⟩
  | @finish fd verdict acc todo hp hv =>
    rw [hp] at hstage
    obtain ⟨hs, hc, hst⟩ := hstage
    have hstep : w.step S (.handleMessage verdict.code) =
        some { ((w.read fd).close fd).fdClr fd with stage := .scan todo } := by
      simp [Ledger.step, hst, hs, hc, hv]
    refine moves _ hstep
      (hr.close fd (.message verdict) rfl rfl rfl rfl ?_ hr.childExited rfl)
    simp [Ledger.fdClr, Ledger.close, Ledger.read, Ledger.note, Config.fdClr, Config.close,
      hr.active]
  | leave hp =>
    rw [hp] at hstage
    have hst : w.stage = .leave := hstage
    have hstep : w.step S .advance = some { w.close S.serverSock with
        stage := .stragglers ((List.range fdSetSize).filter w.active) } := by
      simp [Ledger.step, Ledger.advance, hst]
    refine moves _ hstep
      (hr.close S.serverSock .exit rfl rfl rfl rfl hr.active hr.childExited ?_)
    rw [hr.active]
    rfl
  | returns hp =>
    rw [hp] at hstage
    have hst : w.stage = .stragglers [] := hstage
    have hstep : w.step S .advance = some { w with stage := .returned } := by
      simp [Ledger.step, Ledger.advance, hst]
    exact moves _ hstep ⟨hr.table, hr.active, hr.childExited, hr.accepted, rfl⟩
  | @straggler fd todo hp =>
    rw [hp] at hstage
    have hst : w.stage = .stragglers (fd :: todo) := hstage
    have hstep : w.step S .advance = some { w.close fd with stage := .stragglers todo } := by
      simp [Ledger.step, Ledger.advance, hst]
    exact moves _ hstep
      (hr.close fd .exit rfl rfl rfl rfl hr.active hr.childExited rfl)

theorem refines_init (S : Setup) (host : ℕ → Bool) :
    Refines S (Config.init S host) (Ledger.init S host) := by
  refine ⟨rfl, rfl, rfl, fun i hi => ?_, rfl⟩
  cases hi

section

variable {ok : Config → Action → Prop}

theorem refines_of_run (h : Reach (Config.step S) ok (Config.init S host) c) :
    ∃ w, LedgerRun S host w ∧ Refines S c w := by
  have hr : ∃ w, LedgerRun S host w ∧ c.WellFormed ∧ Refines S c w := by
    apply h.simulation (R := fun c w => c.WellFormed ∧ Refines S c w)
    · exact ⟨init_wellFormed S host, refines_init S host⟩
    · rintro t a u w ⟨hw, hr⟩ - hs
      obtain ⟨w', hw', hr'⟩ := (step_sound hs).refines hw hr
      exact ⟨w', hw', (step_sound hs).wellFormed hw, hr'⟩
  obtain ⟨w, hw, -, hr⟩ := hr
  exact ⟨w, hw, hr⟩

theorem active_of_run (h : Reach (Config.step S) ok (Config.init S host) c)
    (hp : c.phase = .head) (fd : ℕ) : c.active fd = held (c.table fd) := by
  obtain ⟨w, hw, hr⟩ := refines_of_run h
  have hstage := hr.stage
  rw [hp] at hstage
  have hst : w.stage = .head := hstage
  have hb := hw.inOrder.balanced
  simp only [Balanced, hst] at hb
  rw [← hr.active, ← hr.table]
  exact hb.active fd

/-- When the server has returned, it holds nothing. -/
theorem nothing_held_of_run (h : Reach (Config.step S) ok (Config.init S host) c) {result : ℤ}
    (hp : c.phase = .returned result) (fd : ℕ) : held (c.table fd) = false := by
  obtain ⟨w, hw, hr⟩ := refines_of_run h
  have hstage := hr.stage
  rw [hp] at hstage
  have hst : w.stage = .returned := hstage
  have hb := hw.inOrder.balanced
  simp only [Balanced, hst] at hb
  rw [← hr.table]
  exact hb fd

theorem conn_of_message (h : Reach (Config.step S) ok (Config.init S host) c) {fd : ℕ}
    {prog : Rd Verdict} {acc : Bytes} {todo : List (ℕ × Report)}
    (hp : c.phase = .message fd prog acc todo) : ∃ i, c.table fd = some (.conn i) := by
  obtain ⟨w, hw, hr⟩ := refines_of_run h
  have hstage := hr.stage
  rw [hp] at hstage
  obtain ⟨hs, hc, hst⟩ := hstage
  have hh := hw.inOrder.balanced.visits hst List.mem_cons_self
  rw [← hr.table]
  cases ht : w.table fd with
  | none =>
    rw [ht] at hh
    cases hh
  | some object =>
    rw [ht] at hh
    have hg := hw.inOrder.identities.given fd object hh ht
    cases object with
    | listener => exact absurd hg hs
    | childPipe => exact absurd hg hc
    | conn i => exact ⟨i, rfl⟩
    | other => cases hh

end

end Voyeur
