import Voyeur.Server.Passes
import Voyeur.Transition.Fairness

/-! # What is written is delivered

A kernel that reports what is ready, and clients that do not stop in the middle of a message,
let the loop come back to `select` again and again. Every client is then accepted, and each
of its events delivered, after some time, unless the loop is left before.
-/

namespace Voyeur

open Relation (ReflTransGen)
open Transition (Behavior Enabled Reach Unless)

/-- `select` reports everything that is ready, and no connection is refused. -/
def Attentive (c : Config) : Action → Prop
  | .select reported =>
      ∀ fd < fdSetSize, c.active fd = true → c.ready fd = true → (fd, Report.readable) ∈ reported
  | .acceptFails => False
  | _ => True

/-- The clients obey their scripts, and the kernel serves the loop. -/
def Attended (S : Setup) (scripts : ℕ → Script) (c : Config) (a : Action) : Prop :=
  Obeys S scripts c a ∧ a.Readable ∧ Attentive c a

variable {S : Setup} {scripts : ℕ → Script} {c c' : Config} {a : Action}

theorem Step.pass (h : Step S c a c') (hp : c.phase ≠ .head) :
    c'.phase = c.phase ∧ a.Turns = false ∨ PassStep S c.phase c'.phase := by
  by_cases ht : a.Turns = true
  · exact .inr (h.passStep ht)
  · have hs : a.Selects = false := eq_false_of_ne_true fun hs => hp (phase_eq_head h hs)
    exact .inl ⟨h.phase_eq (eq_false_of_ne_true ht) hs, eq_false_of_ne_true ht⟩

theorem Action.Own.turns (h : a.Own) : a.Turns = true ∨ a.Selects = true := by
  cases a with
  | select => exact .inr rfl
  | accept | acceptFails | read | readEnd | advance => exact .inl rfl
  | connect | send | hangUp | childTerminates | hostOpens | hostCloses | selectInterrupted
  | selectFails | readFails => exact h.elim

theorem Step.awaits_eq_none (h : Step S c a c') (ht : a.Turns = false) (hs : a.Selects = false)
    (hn : c.awaits = none) : c'.awaits = none := by
  rw [Option.eq_none_iff_forall_ne_some]
  intro i hw
  obtain ⟨fd, n, k, acc, todo, hp, hi, hq, hu⟩ := awaits_eq_some_iff.mp hw
  have hback : c.phase = .message fd (.read n k) acc todo → c.table fd = some (.conn i) →
      (c.conns i).queue = [] → (c.conns i).hungUp = false → False := by
    intro hp hi hq hu
    rw [awaits_eq_some_iff.mpr ⟨fd, n, k, acc, todo, hp, hi, hq, hu⟩] at hn
    cases hn
  cases h with
  | @connect j =>
    by_cases hj : i = j
    · subst hj
      exact hback hp hi (by simpa [Config.setConn] using hq) (by simpa [Config.setConn] using hu)
    · exact hback hp hi (by simpa [Config.setConn, hj] using hq)
        (by simpa [Config.setConn, hj] using hu)
  | @send j bytes =>
    by_cases hj : i = j
    · subst hj
      have hq' : (c.conns i).queue ++ bytes = [] := by simpa [Config.setConn] using hq
      exact hback hp hi (List.append_eq_nil_iff.mp hq').1 (by simpa [Config.setConn] using hu)
    · exact hback hp hi (by simpa [Config.setConn, hj] using hq)
        (by simpa [Config.setConn, hj] using hu)
  | @hangUp j =>
    by_cases hj : i = j
    · subst hj
      simp [Config.setConn] at hu
    · exact hback hp hi (by simpa [Config.setConn, hj] using hq)
        (by simpa [Config.setConn, hj] using hu)
  | childTerminates => exact hback hp hi hq hu
  | @hostOpens fd' | @hostCloses fd' =>
    have hf : fd ≠ fd' := by
      rintro rfl
      simp at hi
    exact hback hp (by simpa [Function.update_of_ne hf] using hi) hq hu
  | select | selectInterrupted | selectFails => cases hs
  | accept | acceptFails | read | readEnd | readFails | passEnd | error | status | start | next
  | finish | call | fault | leave | returns | straggler => cases ht

theorem Step.backlog (h : Step S c a c') :
    (∃ i fd, a = .accept fd ∧ c.backlog = i :: c'.backlog ∧ (c'.conns i).side = .accepted fd) ∨
      (∀ fd, a ≠ .accept fd) ∧ ∃ new, c'.backlog = c.backlog ++ new := by
  cases h with
  | @connect i => exact .inr ⟨by simp, [i], rfl⟩
  | @accept fd i backlog todo hp hb => exact .inl ⟨i, fd, rfl, hb, by simp⟩
  | @status c₁ todo hp hr =>
    exact .inr ⟨by simp, [], (Config.readStatus_frame hr).2.1.trans (List.append_nil _).symm⟩
  | send | hangUp | childTerminates | hostOpens | hostCloses | select | selectInterrupted
  | selectFails | acceptFails | read | readEnd | readFails | passEnd | error | start | next
  | finish | call | fault | leave | returns | straggler =>
    exact .inr ⟨by simp, [], (List.append_nil _).symm⟩

/-- Where a connection can be found. -/
structure Admitted (c : Config) : Prop where
  queued : ∀ i, (c.conns i).side = .queued → i ∈ c.backlog
  inRange : c.phase.Running → ∀ i fd, (c.conns i).side = .accepted fd → fd < fdSetSize

theorem Step.admitted (h : Step S c a c') (hw : c.WellFormed) (ha : Admitted c) : Admitted c' := by
  constructor
  · intro i hi
    by_cases hq : (c.conns i).side = .queued
    · rcases h.backlog with ⟨j, fd, -, hb, hj⟩ | ⟨-, new, hb⟩
      · have hm := ha.queued i hq
        rw [hb, List.mem_cons] at hm
        rcases hm with rfl | hm
        · rw [hj] at hi
          cases hi
        · exact hm
      · rw [hb]
        exact List.mem_append_left _ (ha.queued i hq)
    · rcases h.side hw i with hs | ⟨rfl, -⟩ | ⟨fd, -, hs, -⟩ | ⟨fd, why, -, hs⟩
      · exact absurd (hs.symm.trans hi) hq
      · cases h with
        | connect => exact List.mem_append_right _ (List.mem_singleton_self i)
      · exact absurd hs hq
      · rw [hs] at hi
        cases hi
  · intro hr i fd hi
    rcases h.side hw i with hs | ⟨rfl, -⟩ | ⟨fd', rfl, -, hs, -⟩ | ⟨fd', why, -, hs⟩
    · exact ha.inRange (h.running hr) i fd (hs.symm.trans hi)
    · cases h with
      | connect => simp [Config.setConn] at hi
    · obtain rfl := Side.accepted.inj (hs.symm.trans hi)
      cases h with
      | accept =>
        by_contra hn
        simp only [if_neg hn] at hr
        exact hr
    · rw [hs] at hi
      cases hi

theorem Step.listening (h : Step S c a c') (hr : c'.phase.Running) (hn : a ≠ .acceptFails)
    (ht : (S.serverSock, .readable) ∈ c.phase.todo) :
    (∃ fd, a = .accept fd) ∨ (S.serverSock, .readable) ∈ c'.phase.todo := by
  have htail : ∀ fd r todo, c.phase = .scan ((fd, r) :: todo) → fd ≠ S.serverSock ∨ r = .error →
      (S.serverSock, .readable) ∈ todo := by
    intro fd r todo hp hx
    rw [hp] at ht
    rcases List.mem_cons.mp ht with he | hm
    · cases he
      rcases hx with hx | hx
      · exact absurd rfl hx
      · cases hx
    · exact hm
  cases h with
  | connect | send | hangUp | childTerminates | hostOpens | hostCloses | selectInterrupted =>
    exact .inr ht
  | select hp | selectFails hp | passEnd hp =>
    rw [hp] at ht
    exact absurd ht List.not_mem_nil
  | accept => exact .inl ⟨_, rfl⟩
  | acceptFails => exact absurd rfl hn
  | read hp | readEnd hp | readFails hp | next hp | finish hp | call hp =>
    rw [hp] at ht
    exact .inr ht
  | error hp => exact .inr (htail _ _ _ hp (.inr rfl))
  | status hp => exact .inr (htail _ _ _ hp (.inl S.serverSock_ne.symm))
  | start hp hs => exact .inr (htail _ _ _ hp (.inl hs))
  | fault | leave | returns | straggler => exact hr.elim

/-- The loop has been left. -/
def Left (c : Config) : Prop := ¬ c.phase.Running

theorem Step.from_head (h : Step S c a c') (hp : c.phase = .head) :
    c'.phase = .head ∧ ¬ a.Own ∨ (∃ reported, a = .select reported ∧ c'.phase = .scan reported) ∨
      Left c' := by
  cases h with
  | connect | send | hangUp | childTerminates | hostOpens | hostCloses | selectInterrupted =>
    exact .inl ⟨hp, fun ho => ho⟩
  | select => exact .inr (.inl ⟨_, rfl, rfl⟩)
  | selectFails => exact .inr (.inr fun h => h)
  | accept hp' | acceptFails hp' | read hp' | readEnd hp' | readFails hp' | passEnd hp'
  | error hp' | status hp' | start hp' | next hp' | finish hp' | call hp' | fault hp' | leave hp'
  | returns hp' | straggler hp' =>
    rw [hp] at hp'
    cases hp'

variable {host : ℕ → Bool} {b : Behavior (Config.step S) (Attended S scripts) (Config.init S host)}

theorem unless_pass {p : Phase} (hp : p ≠ .head) :
    Unless (Config.step S) (Attended S scripts) (Config.init S host) (fun c => c.phase = p)
      fun c => PassStep S p c.phase := by
  rintro c a c' - - hs rfl
  exact ((step_sound hs).pass hp).imp_left And.left

theorem unless_pass_ready {p : Phase} (hp : p ≠ .head) :
    Unless (Config.step S) (Attended S scripts) (Config.init S host)
      (fun c => c.phase = p ∧ c.awaits = none) fun c => PassStep S p c.phase := by
  rintro c a c' - - hs ⟨rfl, hn⟩
  have hst := step_sound hs
  rcases hst.pass hp with ⟨he, ht⟩ | hd
  · have hsel : a.Selects = false := eq_false_of_ne_true fun hs => hp (phase_eq_head hst hs)
    exact .inl ⟨he, hst.awaits_eq_none ht hsel hn⟩
  · exact .inr hd

/-- What a fair kernel and clients that go on sending make of a pass. -/
structure Lively (b : Behavior (Config.step S) (Attended S scripts) (Config.init S host)) :
    Prop where
  loop : b.Fair Action.Own
  clients : ∀ k, ∃ n, k ≤ n ∧ (b.state n).awaits = none

theorem Lively.pass (hl : Lively b) {p : Phase} (hp : p ≠ .head) (hr : p.Running) :
    b.LeadsTo (fun c => c.phase = p) fun c => PassStep S p c.phase := by
  have hready : b.LeadsTo (fun c => c.phase = p ∧ c.awaits = none) fun c =>
      PassStep S p c.phase := by
    refine hl.loop.leadsTo (unless_pass_ready hp) ?_ ?_
    · rintro c a c' - ⟨rfl, -⟩ ho - hs
      have hst := step_sound hs
      rcases ho.turns with ht | ht
      · exact hst.passStep ht
      · exact absurd (phase_eq_head hst ht) hp
    · rintro c hc ⟨rfl, hn⟩
      refine (goes_iff_not_waits hc).mpr ?_
      rintro (⟨hh, -⟩ | hw | hw | hw)
      · exact hp hh
      · rw [hn] at hw
        cases hw
      · rw [hw] at hr
        exact hr
      · rw [hw] at hr
        exact hr
  have hawait : b.LeadsTo (fun _ => True) fun c => c.awaits = none := fun n _ => hl.clients n
  have hbeside : b.LeadsTo (fun c => c.phase = p) fun c =>
      c.phase = p ∧ c.awaits = none ∨ PassStep S p c.phase :=
    (hawait.beside (unless_pass hp)).mono (fun _ _ he => ⟨he, trivial⟩) fun _ _ h => h
  exact hbeside.trans_or hready

theorem Lively.head (hl : Lively b) :
    b.LeadsTo (fun _ => True) fun c => c.phase = .head ∨ Left c := by
  refine Behavior.leadsTo_of_wellFounded (wellFounded_passStep S) Config.phase fun p => ?_
  by_cases hp : p = .head
  · exact .of_imp fun c _ h => .inl (.inl (h.2.trans hp))
  by_cases hr : p.Running
  · exact (hl.pass hp hr).mono (fun _ _ h => h.2) fun _ _ h => .inr ⟨trivial, h⟩
  · refine .of_imp fun c _ h => .inl (.inr ?_)
    rw [Left, h.2]
    exact hr

theorem Lively.before_head (hl : Lively b) {P Q : Config → Prop}
    (hu : Unless (Config.step S) (Attended S scripts) (Config.init S host) P Q)
    (hp : ∀ c, P c → c.phase ≠ .head) : b.LeadsTo P fun c => Q c ∨ Left c := by
  refine (hl.head.beside hu).mono (fun _ _ h => ⟨h, trivial⟩) fun c _ h => ?_
  rcases h with ⟨hc, hh | hx⟩ | hq
  · exact absurd hh (hp c hc)
  · exact .inr hx
  · exact .inl hq

theorem Lively.reports (hl : Lively b) {P Q : Config → Prop} {fd : ℕ} (hfd : fd < fdSetSize)
    (hu : Unless (Config.step S) (Attended S scripts) (Config.init S host) P Q)
    (hr : ∀ c, Reach (Config.step S) (Attended S scripts) (Config.init S host) c → P c →
      c.phase = .head → c.active fd = true ∧ c.ready fd = true) :
    b.LeadsTo (fun c => P c ∧ c.phase = .head) fun c =>
      P c ∧ (fd, .readable) ∈ c.phase.todo ∨ Q c ∨ Left c := by
  have hselect : ∀ c a c', Reach (Config.step S) (Attended S scripts) (Config.init S host) c →
      Attended S scripts c a → c.step S a = some c' → P c → c.phase = .head →
      (P c' ∧ c'.phase = .head ∧ ¬ a.Own) ∨
        P c' ∧ (fd, .readable) ∈ c'.phase.todo ∨ Q c' ∨ Left c' := by
    intro c a c' hc ha hs hp hh
    rcases hu c a c' hc ha hs hp with hp' | hq
    · rcases (step_sound hs).from_head hh with ⟨hh', ho⟩ | ⟨reported, rfl, hrep⟩ | hx
      · exact .inl ⟨hp', hh', ho⟩
      · obtain ⟨hact, hready⟩ := hr c hc hp hh
        refine .inr (.inl ⟨hp', ?_⟩)
        rw [hrep]
        exact ha.2.2 fd hfd hact hready
      · exact .inr (.inr (.inr hx))
    · exact .inr (.inr (.inl hq))
  refine hl.loop.leadsTo ?_ ?_ ?_
  · rintro c a c' hc ha hs ⟨hp, hh⟩
    exact (hselect c a c' hc ha hs hp hh).imp_left fun h => ⟨h.1, h.2.1⟩
  · rintro c a c' hc ⟨hp, hh⟩ ho ha hs
    exact (hselect c a c' hc ha hs hp hh).resolve_left fun h => h.2.2 ho
  · rintro c hc ⟨hp, hh⟩
    obtain ⟨hact, hready⟩ := hr c hc hp hh
    exact goes_of_ready hh hfd hact hready

theorem reach_admitted (h : Reach (Config.step S) (Attended S scripts) (Config.init S host) c) :
    c.WellFormed ∧ Admitted c := by
  refine h.invariant (I := fun c => c.WellFormed ∧ Admitted c) ⟨init_wellFormed S host, ?_⟩ ?_
  · constructor
    · intro i hi
      cases hi
    · intro _ i fd hi
      cases hi
  · rintro c a c' ⟨hw, ha⟩ - hs
    exact ⟨(step_sound hs).wellFormed hw, (step_sound hs).admitted hw ha⟩

theorem attended_serving
    (h : Reach (Config.step S) (Attended S scripts) (Config.init S host) c) : Serving S c :=
  reach_serving (fun _ _ ha => ha.2.1) h

/-- In front of the client `i` there are `x` others. -/
def Queued (i x : ℕ) (c : Config) : Prop := i ∈ c.backlog ∧ c.backlog.idxOf i = x

/-- The client has been accepted, or fewer others are in front of it. -/
def Advanced (i x : ℕ) (c : Config) : Prop :=
  (∃ fd, (c.conns i).side = .accepted fd) ∨ i ∈ c.backlog ∧ c.backlog.idxOf i < x

theorem Step.queued (h : Step S c a c') {i x : ℕ} (hq : Queued i x c) :
    Advanced i x c' ∨ (∀ fd, a ≠ .accept fd) ∧ Queued i x c' := by
  obtain ⟨hm, rfl⟩ := hq
  rcases h.backlog with ⟨j, fd, -, hb, hj⟩ | ⟨hn, new, hb⟩
  · rw [hb, List.mem_cons] at hm
    by_cases hij : i = j
    · exact .inl (.inl ⟨fd, hij ▸ hj⟩)
    · refine .inl (.inr ⟨hm.resolve_left hij, ?_⟩)
      rw [hb, List.idxOf_cons_ne _ (Ne.symm hij)]
      exact Nat.lt_succ_self _
  · refine .inr ⟨hn, ?_, ?_⟩
    · rw [hb]
      exact List.mem_append_left _ hm
    · rw [hb, List.idxOf_append_of_mem hm]

theorem unless_queued (i x : ℕ) :
    Unless (Config.step S) (Attended S scripts) (Config.init S host) (Queued i x)
      (Advanced i x) := by
  rintro c a c' - - hs hq
  exact ((step_sound hs).queued hq).symm.imp_left And.right

theorem unless_listening (i x : ℕ) :
    Unless (Config.step S) (Attended S scripts) (Config.init S host)
      (fun c => Queued i x c ∧ (S.serverSock, .readable) ∈ c.phase.todo)
      fun c => Advanced i x c ∨ Left c := by
  rintro c a c' - ha hs ⟨hq, ht⟩
  have hst := step_sound hs
  by_cases hr : c'.phase.Running
  · rcases hst.queued hq with hd | ⟨hn, hq'⟩
    · exact .inr (.inl hd)
    · have hf : a ≠ .acceptFails := by
        rintro rfl
        exact ha.2.2
      rcases hst.listening hr hf ht with ⟨fd, rfl⟩ | ht'
      · exact absurd rfl (hn fd)
      · exact .inl ⟨hq', ht'⟩
  · exact .inr (.inr hr)

theorem Lively.accepted (hl : Lively b) (i : ℕ) :
    b.LeadsTo (fun c => i ∈ c.backlog) fun c =>
      (∃ fd, (c.conns i).side = .accepted fd) ∨ Left c := by
  refine Behavior.leadsTo_of_wellFounded Nat.lt_wfRel.wf (fun c => c.backlog.idxOf i) fun x => ?_
  have hhead : b.LeadsTo (Queued i x) fun c =>
      Queued i x c ∧ c.phase = .head ∨ Advanced i x c ∨ Left c := by
    refine (hl.head.beside (unless_queued i x)).mono (fun _ _ h => ⟨h, trivial⟩) ?_
    rintro c - (⟨hq, hh | hx⟩ | hd)
    · exact .inl ⟨hq, hh⟩
    · exact .inr (.inr hx)
    · exact .inr (.inl hd)
  have hreport : b.LeadsTo (fun c => Queued i x c ∧ c.phase = .head) fun c =>
      Queued i x c ∧ (S.serverSock, .readable) ∈ c.phase.todo ∨ Advanced i x c ∨ Left c := by
    refine hl.reports S.serverSock_lt (unless_queued i x) ?_
    rintro c hc ⟨hm, -⟩ hh
    have ht := (attended_serving hc).listener (hh ▸ trivial)
    refine ⟨by rw [active_of_run hc hh, ht]; rfl, ?_⟩
    simp [Config.ready, ht, List.ne_nil_of_mem hm]
  have haccept : b.LeadsTo
      (fun c => Queued i x c ∧ (S.serverSock, .readable) ∈ c.phase.todo) fun c =>
        Advanced i x c ∨ Left c := by
    refine (hl.before_head (unless_listening i x) ?_).mono (fun _ _ h => h) ?_
    · rintro c ⟨-, ht⟩ hh
      rw [hh] at ht
      exact absurd ht List.not_mem_nil
    · rintro c - (h | hx)
      · exact h
      · exact .inr hx
  refine (hhead.trans_or (hreport.trans_or haccept)).mono (fun _ _ h => h) ?_
  rintro c - ((hacc | hd) | hx)
  · exact .inl (.inl hacc)
  · exact .inr hd
  · exact .inl (.inr hx)

/-- The first `n` bytes are there, on a connection that was closed for no other reason. -/
structure Met (i n : ℕ) (c : Config) : Prop where
  written : n ≤ c.written i
  side : (∃ fd, (c.conns i).side = .accepted fd) ∨
    ∃ verdict, (c.conns i).side = .closed (.message verdict)

theorem Step.written_le (h : Step S c a c') (i : ℕ) : c.written i ≤ c'.written i := by
  unfold Config.written
  rcases h.sent_eq i with hs | ⟨bytes, -, hs⟩
  · rw [hs]
  · rw [hs, List.length_append]
    exact Nat.le_add_right _ _

theorem unless_met (i n : ℕ) :
    Unless (Config.step S) (Attended S scripts) (Config.init S host) (Met i n) Left := by
  rintro c a c' hc ha hs ⟨hn, hside⟩
  have hst := step_sound hs
  by_cases hr : c'.phase.Running
  · refine .inl ⟨hn.trans (hst.written_le i), ?_⟩
    have hclosed := (attended_serving (hc.tail ha hs)).closed hr i
    rcases hst.side (reach_admitted hc).1 i with he | ⟨-, he⟩ | ⟨fd, -, he, -⟩ | ⟨fd, why, -, he⟩
    · rw [he]
      exact hside
    · rcases hside with ⟨fd, hs⟩ | ⟨verdict, hs⟩ <;> simp [hs] at he
    · rcases hside with ⟨fd', hs⟩ | ⟨verdict, hs⟩ <;> simp [hs] at he
    · obtain ⟨verdict, rfl⟩ := hclosed why he
      exact .inr ⟨verdict, he⟩
  · exact .inr hr

/-- The first `k` events of the client have had their callbacks. -/
def CalledBack (S : Setup) (scripts : ℕ → Script) (i k : ℕ) (c : Config) : Prop :=
  S.context.callbacks ((scripts i).events.take k) <+: c.callsOf i

section

variable {i k n : ℕ}

theorem reach_obeys (h : Reach (Config.step S) (Attended S scripts) (Config.init S host) c) :
    Reach (Config.step S) (Obeys S scripts) (Config.init S host) c :=
  h.mono fun _ _ ha => ha.1

theorem attended_follows (h : Reach (Config.step S) (Attended S scripts) (Config.init S host) c)
    (i : ℕ) : Follows S (c.view i) :=
  (reach_follows (fun _ _ ha => ha.ne_readFails) (reach_obeys h)).2 i

/-- A connection that a message has closed had no event left. -/
theorem calledBack_of_closed (hm : ClientEvent.GrantsEvents S.malloc)
    (h : Reach (Config.step S) (Attended S scripts) (Config.init S host) c)
    (hk : Within S.context (scripts i) n k) (hn : n ≤ c.written i) {verdict : Verdict}
    (hs : (c.conns i).side = .closed (.message verdict)) : CalledBack S scripts i k c := by
  have hmode : (c.view i).mode = .closed (.message verdict) := by
    simp only [Config.view, hs, Phase.mode]
  obtain ⟨es, left, he, hc, -, hend⟩ :=
    (attended_follows h i).closed hm hmode (reach_sent (reach_obeys h) i)
  obtain ⟨rest, hr, hleft⟩ := (scripts i).split he
  have hprefix : (scripts i).events.take k <+: es := by
    rcases take_cases hr k with hp | ⟨e, rest', rfl, hp⟩
    · exact hp
    · rcases hend with ⟨more, hd, -⟩ | ⟨-, hlt⟩
      · rw [hleft] at hd
        simp at hd
      · -- The next event would be there as a whole.
        have hlen := (eventStream_length_le S.context hp).trans (hk.trans hn)
        have hshort := hlt _ _ hleft
        rw [eventStream_append, List.length_append, eventStream_cons, eventStream_nil,
          List.append_nil] at hlen
        exact absurd hlen (Nat.not_le.mpr hshort)
  obtain ⟨more, hmore⟩ := hprefix
  have hcalls : c.callsOf i = S.context.callbacks es := hc
  rw [CalledBack, hcalls, ← hmore, callbacks_append]
  exact List.prefix_append _ _

theorem calledBack_of_taken (hm : ClientEvent.GrantsEvents S.malloc)
    (h : Reach (Config.step S) (Attended S scripts) (Config.init S host) c)
    (hk : Within S.context (scripts i) n k) (hn : n ≤ (c.conns i).taken.length)
    (hh : c.phase = .head) {fd : ℕ} (hs : (c.conns i).side = .accepted fd) :
    CalledBack S scripts i k c := by
  have hmode : (c.view i).mode = .idle := by simp only [Config.view, hs, hh, Phase.mode]
  have hcaught := (attended_follows h i).caught hm (reach_sent (reach_obeys h) i)
    (by simp [hmode]) (by simp [hmode])
  exact hcaught.delivered (fun j hj hw => hw.trans hn) hk

/-- Of at least `n` bytes of a connection `t` are read. -/
structure ReadTo (i n fd t : ℕ) (c : Config) : Prop where
  written : n ≤ c.written i
  side : (c.conns i).side = .accepted fd
  taken : (c.conns i).taken.length = t

/-- A message of the connection has been begun, and nothing is read of it. -/
structure Begun (S : Setup) (i n t : ℕ) (c : Config) : Prop extends Met i n c where
  mode : (c.view i).mode = .handling (handleMessage S.malloc S.context) []
  taken : (c.conns i).taken.length = t

/-- The events have had their callbacks, or more than `t` bytes are read. -/
def Further (S : Setup) (scripts : ℕ → Script) (i k n t : ℕ) (c : Config) : Prop :=
  CalledBack S scripts i k c ∨ Left c ∨ Met i n c ∧ t < (c.conns i).taken.length

variable {fd t : ℕ}

theorem ReadTo.met (h : ReadTo i n fd t c) : Met i n c := ⟨h.written, .inl ⟨fd, h.side⟩⟩

theorem taken_le (h : Reach (Config.step S) (Attended S scripts) (Config.init S host) c)
    (ha : Attended S scripts c a) (hs : c.step S a = some c') (i : ℕ) :
    (c.conns i).taken.length ≤ (c'.conns i).taken.length :=
  Moves.taken_le_of_moves ((step_sound hs).moves (reach_admitted h).1 ha.1.ne_readFails i)

theorem unless_readTo (hm : ClientEvent.GrantsEvents S.malloc)
    (hk : Within S.context (scripts i) n k) :
    Unless (Config.step S) (Attended S scripts) (Config.init S host) (ReadTo i n fd t)
      (Further S scripts i k n t) := by
  rintro c a c' hc ha hs h
  rcases unless_met i n c a c' hc ha hs h.met with hmet | hx
  · have hle := taken_le hc ha hs i
    rw [h.taken] at hle
    rcases Nat.lt_or_eq_of_le hle with hlt | heq
    · exact .inr (.inr (.inr ⟨hmet, hlt⟩))
    · rcases (step_sound hs).side (reach_admitted hc).1 i with he | ⟨-, he⟩ | ⟨fd, -, he, -⟩ |
        ⟨fd, why, -, he⟩
      · exact .inl ⟨hmet.written, he.trans h.side, heq.symm⟩
      · rw [h.side] at he
        cases he
      · rw [h.side] at he
        cases he
      · rcases hmet.side with ⟨fd', hs'⟩ | ⟨verdict, hs'⟩
        · rw [hs'] at he
          cases he
        · exact .inr (.inl (calledBack_of_closed hm (hc.tail ha hs) hk hmet.written hs'))
  · exact .inr (.inr (.inl hx))

theorem unless_reported (hm : ClientEvent.GrantsEvents S.malloc)
    (hk : Within S.context (scripts i) n k) :
    Unless (Config.step S) (Attended S scripts) (Config.init S host)
      (fun c => ReadTo i n fd t c ∧ (fd, .readable) ∈ c.phase.todo)
      fun c => Begun S i n t c ∨ Further S scripts i k n t c := by
  rintro c a c' hc ha hs ⟨h, ht⟩
  rcases unless_readTo hm hk c a c' hc ha hs h with h' | hx
  · by_cases hr : c'.phase.Running
    · rcases (step_sound hs).reported (reach_descriptors hc) (reach_admitted hc).1 h.side ht hr with
        ⟨-, ht'⟩ | ⟨-, hv⟩
      · exact .inl ⟨h', ht'⟩
      · exact .inr (.inl ⟨h'.met, by rw [hv], h'.taken⟩)
    · exact .inr (.inr (.inr (.inl hr)))
  · exact .inr (.inr hx)

theorem Moves.begun {v v' : View} (h : Moves S v v')
    (hmode : v.mode = .handling (handleMessage S.malloc S.context) [])
    (hlt : v.taken.length < v.sent.length) :
    (v'.mode = .handling (handleMessage S.malloc S.context) [] ∧ v'.taken = v.taken ∧
      v.sent.length ≤ v'.sent.length) ∨ v.taken.length < v'.taken.length := by
  obtain ⟨f, hf⟩ : ∃ f, handleMessage S.malloc S.context = .read 4 f := ⟨_, rfl⟩
  cases h with
  | send bytes => exact .inl ⟨hmode, rfl, by simp [View.sent]⟩
  | hangUp => exact .inl ⟨hmode, rfl, le_rfl⟩
  | read m hm hpos hle =>
    refine .inr ?_
    simp only [List.length_append, List.length_take_of_le hle]
    omega
  | readEnd hm ha hq =>
    rw [View.sent, hq, List.append_nil] at hlt
    exact absurd hlt (lt_irrefl _)
  | accept hm | start hm | call hm | next hm | finish hm | fault hm | close why hm | stop hm =>
    rw [hmode, hf] at hm
    cases hm

theorem begun_of_moves {v v' : View} (h : ReflTransGen (Moves S) v v')
    (hmode : v.mode = .handling (handleMessage S.malloc S.context) [])
    (hlt : v.taken.length < v.sent.length) :
    (v'.mode = .handling (handleMessage S.malloc S.context) [] ∧ v'.taken = v.taken ∧
      v.sent.length ≤ v'.sent.length) ∨ v.taken.length < v'.taken.length := by
  induction h with
  | refl => exact .inl ⟨hmode, rfl, le_rfl⟩
  | @tail u w hu hm ih =>
    rcases ih with ⟨hu', ht, hs⟩ | hgrown
    · have hlt' : u.taken.length < u.sent.length := by
        rw [ht]
        exact lt_of_lt_of_le hlt hs
      rw [← ht]
      exact (hm.begun hu' hlt').imp_left fun h => ⟨h.1, h.2.1, hs.trans h.2.2⟩
    · exact .inr (lt_of_lt_of_le hgrown hm.taken_le)

theorem unless_begun (ht : t < n) :
    Unless (Config.step S) (Attended S scripts) (Config.init S host) (Begun S i n t)
      (Further S scripts i k n t) := by
  rintro c a c' hc ha hs h
  rcases unless_met i n c a c' hc ha hs h.toMet with hmet | hx
  · have hmoves := (step_sound hs).moves (reach_admitted hc).1 ha.1.ne_readFails i
    have hlt : (c.view i).taken.length < (c.view i).sent.length := by
      have hw := h.written
      have htaken := h.taken
      exact lt_of_le_of_lt htaken.le (lt_of_lt_of_le ht hw)
    rcases begun_of_moves hmoves h.mode hlt with ⟨hmode, htaken, -⟩ | hgrown
    · exact .inl ⟨hmet, hmode, (congrArg List.length htaken).trans h.taken⟩
    · exact .inr (.inr (.inr ⟨hmet, lt_of_eq_of_lt h.taken.symm hgrown⟩))
  · exact .inr (.inr (.inl hx))

theorem Lively.further (hm : ClientEvent.GrantsEvents S.malloc) (hl : Lively b)
    (hk : Within S.context (scripts i) n k) (ht : t < n) :
    b.LeadsTo (fun c => ReadTo i n fd t c ∧ c.phase = .head) (Further S scripts i k n t) := by
  have hreport : b.LeadsTo (fun c => ReadTo i n fd t c ∧ c.phase = .head) fun c =>
      ReadTo i n fd t c ∧ (fd, .readable) ∈ c.phase.todo ∨ Further S scripts i k n t c := by
    intro m h
    have hc := b.reach m
    have hfd := (reach_admitted hc).2.inRange (h.2 ▸ trivial) i fd h.1.side
    have hlead : b.LeadsTo (fun c => ReadTo i n fd t c ∧ c.phase = .head) fun c =>
        ReadTo i n fd t c ∧ (fd, .readable) ∈ c.phase.todo ∨
          Further S scripts i k n t c ∨ Left c := by
      refine hl.reports hfd (unless_readTo hm hk) ?_
      intro c hc h hh
      have htab := ((reach_admitted hc).1.conn_iff fd i).mpr h.side
      refine ⟨by rw [active_of_run hc hh, htab]; rfl, ?_⟩
      -- There is more on the connection than was read.
      have hq : (c.conns i).queue ≠ [] := by
        intro hq
        have hw := h.written
        rw [Config.written, Conn.sent, hq, List.append_nil, h.taken] at hw
        omega
      simp [Config.ready, htab, hq]
    obtain ⟨j, hj, h' | hx | hx⟩ := hlead m h
    · exact ⟨j, hj, .inl h'⟩
    · exact ⟨j, hj, .inr hx⟩
    · exact ⟨j, hj, .inr (.inr (.inl hx))⟩
  have hbegin : b.LeadsTo (fun c => ReadTo i n fd t c ∧ (fd, .readable) ∈ c.phase.todo) fun c =>
      Begun S i n t c ∨ Further S scripts i k n t c := by
    refine (hl.before_head (unless_reported hm hk) ?_).mono (fun _ _ h => h) ?_
    · rintro c ⟨-, hd⟩ hh
      rw [hh] at hd
      exact absurd hd List.not_mem_nil
    · rintro c - (h | hx)
      · exact h
      · exact .inr (.inr (.inl hx))
  have hread : b.LeadsTo (Begun S i n t) (Further S scripts i k n t) := by
    refine (hl.before_head (unless_begun (k := k) ht) ?_).mono (fun _ _ h => h) ?_
    · rintro c h hh
      have hmode := h.mode
      simp only [Config.view, hh] at hmode
      rcases h.side with ⟨fd', hs⟩ | ⟨verdict, hs⟩ <;> simp [hs, Phase.mode] at hmode
    · rintro c - (h | hx)
      · exact h
      · exact .inr (.inl hx)
  exact hreport.trans_or (hbegin.trans_or hread)

/-- What is written on a connection that has been accepted is delivered. -/
theorem Lively.calledBack (hm : ClientEvent.GrantsEvents S.malloc) (hl : Lively b)
    (hk : Within S.context (scripts i) n k) :
    b.LeadsTo (Met i n) fun c => CalledBack S scripts i k c ∨ Left c := by
  refine Behavior.leadsTo_of_wellFounded Nat.lt_wfRel.wf
    (fun c => n - (c.conns i).taken.length) fun x => ?_
  have hless : Unless (Config.step S) (Attended S scripts) (Config.init S host)
      (fun c => Met i n c ∧ n - (c.conns i).taken.length ≤ x) Left := by
    rintro c a c' hc ha hs ⟨hmet, hx⟩
    refine (unless_met i n c a c' hc ha hs hmet).imp_left fun h => ⟨h, ?_⟩
    exact (Nat.sub_le_sub_left (taken_le hc ha hs i) n).trans hx
  intro m h
  obtain ⟨j, hj, ⟨⟨hmet, hx⟩, hh | hleft⟩ | hleft⟩ :=
    hl.head.beside hless m ⟨⟨h.1, h.2.le⟩, trivial⟩
  · have hc := b.reach j
    rcases hmet.side with ⟨fd, hs⟩ | ⟨verdict, hs⟩
    · rcases Nat.lt_or_ge ((b.state j).conns i).taken.length n with hlt | hge
      · obtain ⟨l, hjl, hcalled | hleft | ⟨hmet', hgrown⟩⟩ :=
          hl.further hm hk hlt j ⟨⟨hmet.written, hs, rfl⟩, hh⟩
        · exact ⟨l, hj.trans hjl, .inl (.inl hcalled)⟩
        · exact ⟨l, hj.trans hjl, .inl (.inr hleft)⟩
        · refine ⟨l, hj.trans hjl, .inr ⟨hmet', ?_⟩⟩
          change n - _ < x
          omega
      · exact ⟨j, hj, .inl (.inl (calledBack_of_taken hm hc hk hge hh hs))⟩
    · exact ⟨j, hj, .inl (.inl (calledBack_of_closed hm hc hk hmet.written hs))⟩
  · exact ⟨j, hj, .inl (.inr hleft)⟩
  · exact ⟨j, hj, .inl (.inr hleft)⟩

end

/--
Every event that a client has written to its end gets its callback after some time, unless
the loop is left before: if the kernel answers the loop and reports what is ready, and no
client keeps the server waiting for the rest of a message for ever.
-/
theorem eventually_called_back (hm : ClientEvent.GrantsEvents S.malloc) (hl : Lively b) {n i k : ℕ}
    (hi : ((b.state n).conns i).side ≠ .absent)
    (hk : Within S.context (scripts i) ((b.state n).written i) k) :
    ∃ m, n ≤ m ∧ (S.context.callbacks ((scripts i).events.take k) <+: (b.state m).callsOf i ∨
      ¬ (b.state m).phase.Running) := by
  have hc := b.reach n
  by_cases hr : (b.state n).phase.Running
  · cases hs : ((b.state n).conns i).side with
    | absent => exact absurd hs hi
    | queued =>
      have hwritten : Unless (Config.step S) (Attended S scripts) (Config.init S host)
          (fun c => (b.state n).written i ≤ c.written i) fun _ => False :=
        fun c a c' _ _ ht hle => .inl (hle.trans ((step_sound ht).written_le i))
      obtain ⟨j, hj, ⟨hle, ⟨fd, hfd⟩ | hleft⟩ | hf⟩ :=
        (hl.accepted i).beside hwritten n ⟨le_rfl, (reach_admitted hc).2.queued i hs⟩
      · obtain ⟨m, hm', h⟩ := hl.calledBack hm hk j ⟨hle, .inl ⟨fd, hfd⟩⟩
        exact ⟨m, hj.trans hm', h⟩
      · exact ⟨j, hj, .inr hleft⟩
      · exact hf.elim
    | accepted fd => exact hl.calledBack hm hk n ⟨le_rfl, .inl ⟨fd, hs⟩⟩
    | closed why =>
      obtain ⟨verdict, rfl⟩ := (attended_serving hc).closed hr i why hs
      exact hl.calledBack hm hk n ⟨le_rfl, .inr ⟨verdict, hs⟩⟩
  · exact ⟨n, le_rfl, .inr hr⟩

-- The test for a report rests on one named fact about reports.
local instance : LawfulBEq (ℕ × Report) := inferInstance

instance (c : Config) (a : Action) : Decidable (Attentive c a) :=
  match a with
  | .select reported => Nat.decidableBallLT fdSetSize fun fd _ =>
      c.active fd = true → c.ready fd = true → (fd, Report.readable) ∈ reported
  | .acceptFails => instDecidableFalse
  | .connect _ | .send _ _ | .hangUp _ | .childTerminates _ _ | .hostOpens _ | .hostCloses _ |
      .selectInterrupted | .selectFails | .accept _ | .read _ | .readEnd | .readFails |
      .advance => instDecidableTrue

instance (c : Config) (a : Action) : Decidable (Attended S scripts c a) := instDecidableAnd

/-- Where everybody rests, and the loop waits in `select`, nothing is left to be done. -/
theorem lively_of_rest {k : ℕ} (h : ∀ n, (b.state (k + n)).phase = .head ∧
    ∀ fd < fdSetSize, (b.state (k + n)).active fd = true → (b.state (k + n)).ready fd = false) :
    Lively b := by
  constructor
  · intro n
    obtain ⟨hp, hr⟩ := h n
    refine ⟨k + n, Nat.le_add_left n k, .inr ?_⟩
    exact Config.Waits.not_goes (.select hp hr)
  · intro n
    exact ⟨k + n, Nat.le_add_left n k, by simp [Config.awaits, (h n).1]⟩

/-- A message that is reported is read, in a pass of its own. -/
def readEvent : List Action :=
  [.select [(5, .readable)], .advance] ++ readWords 5 ++ [.advance, .advance, .advance]

/-- A client writes two events at once, and then nothing more. -/
theorem eventually_called_back_twoEvents :
    ∃ (b : Behavior (Config.step observer)
        (Attended observer (oneClient [.close 5 0 12, .close 6 0 12]))
        (Config.init observer fun _ => false)) (n m : ℕ), (b.state n).written 0 = 40 ∧ n ≤ m ∧
      (observer.context.callbacks [.close 5 0 12, .close 6 0 12] <+: (b.state m).callsOf 0 ∨
        ¬ (b.state m).phase.Running) := by
  have hx : ((Transition.exec (Config.step observer)
      (Attended observer (oneClient [.close 5 0 12, .close 6 0 12]))
      (Config.init observer fun _ => false) (writeRun [.close 5 0 12, .close 6 0 12])).any fun c =>
        (Transition.exec (Config.step observer)
          (Attended observer (oneClient [.close 5 0 12, .close 6 0 12])) c
          (readEvent ++ readEvent)).any fun c' =>
            decide (c.written 0 = 40 ∧ (c.conns 0).side = .accepted 5 ∧ c'.phase = .head ∧
              ∀ fd < fdSetSize, c'.active fd = true → c'.ready fd = false)) = true := by
    decide +kernel
  obtain ⟨c, hc, hx⟩ := (Option.any_eq_true _ _).mp hx
  obtain ⟨c', hc', hx⟩ := (Option.any_eq_true _ _).mp hx
  obtain ⟨hw, hs, hrest⟩ := of_decide_eq_true hx
  obtain ⟨b₁, h₁⟩ := Behavior.exists_behavior_of_exec hc' (.rest _ _ c')
  obtain ⟨b, h⟩ := Behavior.exists_behavior_of_exec hc b₁
  have hlater : ∀ n, b.state (5 + n) = b₁.state n := fun n => (h n).1
  have hstart : b.state 5 = c := (hlater 0).trans b₁.start
  have hl : Lively b := by
    refine lively_of_rest (k := 5 + (readEvent ++ readEvent).length) fun n => ?_
    rw [Nat.add_assoc, hlater, (h₁ n).1]
    exact hrest
  have hside : ((b.state 5).conns 0).side ≠ .absent := by
    rw [hstart, hs]
    simp
  have hwithin : Within observer.context (oneClient [.close 5 0 12, .close 6 0 12] 0)
      ((b.state 5).written 0) 2 := by
    rw [hstart, hw]
    decide +kernel
  obtain ⟨m, hm, hcalls⟩ := eventually_called_back (fun _ _ => rfl) hl hside hwithin
  exact ⟨b, 5, m, by rw [hstart, hw], hm, hcalls⟩

end Voyeur
