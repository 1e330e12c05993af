import Voyeur.Server.Delivery
import Voyeur.Server.Descriptors
import Voyeur.Server.Refinement
import Voyeur.Wire.Demand

/-! # Where the server waits

The server waits in `select`, and inside of a message whose client has not sent the rest of
it. Nothing else stops it. While it waits for a client, though, it waits for that client
alone: no other event, not even the end of the child, gets it out of the read.
-/

namespace Voyeur

open StreamReader (Modest)
open Transition (Reach)

variable {S : Setup} {c c' : Config} {a : Action}

/-- What the loop is supplied with, wherever it does not wait. -/
structure Supplied (S : Setup) (c : Config) : Prop where
  prog : ∀ fd prog acc todo, c.phase = .message fd prog acc todo →
    prog.Modest 1 ∧ (acc = [] ∨ acc.length < prog.wants)
  pipe : c.pipe.queue = [] ∨ c.pipe.hungUp = true
  visit : (S.childPipe, .readable) ∈ c.phase.todo → c.pipe.hungUp = true

theorem Supplied.rest (h : Supplied S c) (hp : c'.pipe = c.pipe)
    (ht : ∀ r ∈ c'.phase.todo, r ∈ c.phase.todo)
    (hm : ∀ fd prog acc todo, c'.phase = .message fd prog acc todo →
      prog.Modest 1 ∧ (acc = [] ∨ acc.length < prog.wants)) : Supplied S c' := by
  refine ⟨hm, ?_, fun hv => ?_⟩
  · rw [hp]
    exact h.pipe
  · rw [hp]
    exact h.visit (ht _ hv)

theorem Config.readStatus_pipe {fd : ℕ} (h : c.readStatus fd = some c') :
    c'.pipe.hungUp = c.pipe.hungUp := by
  unfold Config.readStatus at h
  split at h
  · obtain ⟨-, h⟩ := Option.ite_none_right_eq_some.mp h
    cases h
    rfl
  · cases h

theorem Step.supplied (h : Step S c a c') (hd : Descriptors S c) (hs : Supplied S c) :
    Supplied S c' := by
  cases h with
  | connect | send | hangUp | hostOpens | hostCloses | selectInterrupted =>
    exact ⟨hs.prog, hs.pipe, hs.visit⟩
  | childTerminates => exact ⟨hs.prog, .inr rfl, fun _ => rfl⟩
  | select hp hr =>
    refine ⟨by simp, hs.pipe, fun hv => ?_⟩
    have ht := hd.pipe (hp ▸ trivial) (hd.head hp)
    have hready := (hr.2 _ hv).2.2.1 rfl
    rcases hs.pipe with hq | hu
    · simpa [Config.ready, ht, hq] using hready
    · exact hu
  | @accept fd i backlog todo hp =>
    by_cases hfd : fd < fdSetSize
    · simp only [if_pos hfd]
      refine hs.rest rfl (fun r hr => ?_) (by simp)
      rw [hp]
      exact List.mem_cons_of_mem _ hr
    · simp only [if_neg hfd]
      exact hs.rest rfl (fun r hr => (List.not_mem_nil hr).elim) (by simp)
  | acceptFails hp | error hp =>
    refine hs.rest rfl (fun r hr => ?_) (by simp)
    rw [hp]
    exact List.mem_cons_of_mem _ hr
  | start hp =>
    refine hs.rest rfl (fun r hr => ?_) ?_
    · rw [hp]
      exact List.mem_cons_of_mem _ hr
    · rintro fd' prog' acc' todo' he
      cases he
      exact ⟨modest_handleMessage S.malloc S.context, .inl rfl⟩
  | status hp hr =>
    have hpipe := Config.readStatus_pipe hr
    refine ⟨by simp, .inr ?_, fun _ => ?_⟩
    · exact hpipe.trans (hs.visit (hp ▸ List.mem_cons_self))
    · exact hpipe.trans (hs.visit (hp ▸ List.mem_cons_self))
  | read hp hi hn hq ha =>
    have hprog := (hs.prog _ _ _ _ hp).1
    refine hs.rest rfl (fun r hr => ?_) ?_
    · rw [hp]
      exact hr
    · rintro fd' prog' acc' todo' he
      cases he
      refine ⟨hprog.feed _, StreamReader.feed_acc ?_⟩
      rw [List.length_append, List.length_take_of_le hq]
      exact ha
  | readEnd hp | readFails hp =>
    have hprog := (hs.prog _ _ _ _ hp).1
    refine hs.rest rfl (fun r hr => ?_) ?_
    · rw [hp]
      exact hr
    · rintro fd' prog' acc' todo' he
      cases he
      cases hprog with
      | read _ hk => exact ⟨hk none, .inl rfl⟩
  | call hp =>
    have hprog := (hs.prog _ _ _ _ hp).1
    refine hs.rest rfl (fun r hr => ?_) ?_
    · rw [hp]
      exact hr
    · rintro fd' prog' acc' todo' he
      cases he
      cases hprog with
      | emit hk =>
        refine ⟨hk.mono (Nat.zero_le 1), .inl ?_⟩
        exact ((hs.prog _ _ _ _ hp).2.resolve_right (Nat.not_lt_zero _))
  | next hp | finish hp =>
    refine hs.rest rfl (fun r hr => ?_) (by simp)
    rw [hp]
    exact hr
  | passEnd =>
    by_cases hx : c.childExited = true
    · simp only [if_pos hx]
      exact hs.rest rfl (fun r hr => (List.not_mem_nil hr).elim) (by simp)
    · simp only [if_neg hx]
      exact hs.rest rfl (fun r hr => (List.not_mem_nil hr).elim) (by simp)
  | selectFails | fault | leave | returns | straggler =>
    exact hs.rest rfl (fun r hr => (List.not_mem_nil hr).elim) (by simp)

theorem init_supplied (S : Setup) (host : ℕ → Bool) : Supplied S (Config.init S host) :=
  ⟨by simp [Config.init], .inl rfl, by simp [Config.init, Phase.todo]⟩

variable {ok : Config → Action → Prop} {host : ℕ → Bool}

theorem reach_supplied (h : Reach (Config.step S) ok (Config.init S host) c) : Supplied S c := by
  have hi : Descriptors S c ∧ Supplied S c := by
    apply h.invariant (I := fun c => Descriptors S c ∧ Supplied S c)
    · exact ⟨init_descriptors S host, init_supplied S host⟩
    · rintro c a c' ⟨hd, hs⟩ - ht
      exact ⟨(step_sound ht).descriptors hd, (step_sound ht).supplied hd hs⟩
  exact hi.2

/-- The steps of the loop, and the answers of the kernel to its calls unless they fail. -/
def Action.Own : Action → Prop
  | .select reported => reported ≠ [] ∧ ∀ r ∈ reported, r.2 = .readable
  | .accept _ | .acceptFails | .read _ | .readEnd | .advance => True
  | .connect _ | .send _ _ | .hangUp _ | .childTerminates _ _ | .hostOpens _ | .hostCloses _ |
      .selectInterrupted | .selectFails | .readFails => False

/-- The client that has to send more, for the message that is read to go on. -/
def Config.awaits (c : Config) : Option ℕ :=
  match c.phase with
  | .message fd (.read _ _) _ _ =>
      match c.table fd with
      | some (.conn i) =>
          if (c.conns i).queue = [] ∧ (c.conns i).hungUp = false then some i else none
      | _ => none
  | _ => none

theorem awaits_eq_some_iff {i : ℕ} :
    c.awaits = some i ↔ ∃ fd n k acc todo, c.phase = .message fd (.read n k) acc todo ∧
      c.table fd = some (.conn i) ∧ (c.conns i).queue = [] ∧ (c.conns i).hungUp = false := by
  constructor
  · intro h
    unfold Config.awaits at h
    split at h
    · next fd n k acc todo hp =>
      split at h
      · next j hj =>
        obtain ⟨hq, hi⟩ := Option.ite_none_right_eq_some.mp h
        cases hi
        exact ⟨fd, n, k, acc, todo, hp, hj, hq⟩
      · cases h
    · cases h
  · rintro ⟨fd, n, k, acc, todo, hp, hi, hq, hu⟩
    simp [Config.awaits, hp, hi, hq, hu]

theorem Step.not_awaits (h : Step S c a c') (ha : a.Own) : c.awaits = none := by
  rw [Option.eq_none_iff_forall_ne_some]
  intro i hw
  obtain ⟨fd, n, k, acc, todo, hp, hi, hq, hu⟩ := awaits_eq_some_iff.mp hw
  cases h with
  | read hp' hi' hn hle =>
    rw [hp] at hp'
    cases hp'
    rw [hi] at hi'
    cases hi'
    rw [hq] at hle
    exact absurd hle (Nat.not_le.mpr hn)
  | readEnd hp' hi' _ _ hu' =>
    rw [hp] at hp'
    cases hp'
    rw [hi] at hi'
    cases hi'
    rw [hu] at hu'
    cases hu'
  | connect | send | hangUp | childTerminates | hostOpens | hostCloses | selectInterrupted
  | selectFails | readFails => exact ha
  | select hp' | accept hp' | acceptFails hp' | passEnd hp' | error hp' | status hp'
  | start hp' | next hp' | finish hp' | call hp' | fault hp' | leave hp' | returns hp'
  | straggler hp' =>
    rw [hp] at hp'
    cases hp'

/-- The loop waits: in `select`, or in a message for its client; or it has ended. -/
inductive Config.Waits (c : Config) : Prop
  | select : c.phase = .head →
      (∀ fd < fdSetSize, c.active fd = true → c.ready fd = false) → c.Waits
  | client {i : ℕ} : c.awaits = some i → c.Waits
  | returned {result : ℤ} : c.phase = .returned result → c.Waits
  | undefined : c.phase = .undefined → c.Waits

/-- Whether the loop can make a step, or the kernel can answer it. -/
def Config.Goes (S : Setup) (c : Config) : Prop := ∃ a, a.Own ∧ (c.step S a).isSome = true

theorem goes_of_advance (h : (c.advance S).isSome = true) : c.Goes S := ⟨.advance, trivial, h⟩

theorem goes_of_ready (hp : c.phase = .head) {fd : ℕ} (hfd : fd < fdSetSize)
    (ha : c.active fd = true) (hr : c.ready fd = true) : c.Goes S := by
  have hrep : c.Reportable [(fd, .readable)] := by
    refine ⟨List.pairwise_singleton _ _, fun r hm => ?_⟩
    rw [List.mem_singleton.mp hm]
    exact ⟨hfd, ha, fun _ => hr, by simp⟩
  refine ⟨.select [(fd, .readable)], ⟨by simp, by simp⟩, ?_⟩
  simp [Config.step, hp, hrep]

theorem goes_of_visit (hd : Descriptors S c) (hs : Supplied S c) {r : ℕ × Report}
    {todo : List (ℕ × Report)} (hp : c.phase = .scan (r :: todo)) : c.Goes S := by
  obtain ⟨fd, _ | _⟩ := r
  · by_cases hl : fd = S.serverSock
    · exact ⟨.acceptFails, trivial, by simp [Config.step, hp, hl]⟩
    · refine goes_of_advance ?_
      by_cases hc : fd = S.childPipe
      · subst hc
        have hm : (S.childPipe, .readable) ∈ c.phase.todo := hp ▸ List.mem_cons_self
        have ht := hd.pipe (hp ▸ trivial) (hd.visit _ hm).1
        simp [Config.advance, hp, hl, Config.readStatus, ht, hs.visit hm]
      · simp [Config.advance, hp, hl, hc]
  · exact goes_of_advance (by simp [Config.advance, hp])

theorem goes_or_waits (hs : Supplied S c) {fd i : ℕ} {prog : Rd Verdict} {acc : Bytes}
    {todo : List (ℕ × Report)} (hp : c.phase = .message fd prog acc todo)
    (hi : c.table fd = some (.conn i)) : c.Goes S ∨ c.Waits := by
  obtain ⟨hprog, hacc⟩ := hs.prog _ _ _ _ hp
  cases hprog with
  | done =>
    refine .inl (goes_of_advance ?_)
    rw [Config.advance, hp]
    dsimp only
    split <;> rfl
  | fault => exact .inl (goes_of_advance (by simp [Config.advance, hp]))
  | emit => exact .inl (goes_of_advance (by simp [Config.advance, hp, hi]))
  | @read _ n k hn =>
    have hlt : acc.length < n := by
      rcases hacc with rfl | hlt
      · exact hn
      · exact hlt
    cases hq : (c.conns i).queue with
    | cons b queue =>
      refine .inl ⟨.read 1, trivial, ?_⟩
      have hw : acc.length + 1 ≤ (StreamReader.read n k).wants := hlt
      simp [Config.step, Config.read, hp, hi, hq, hw]
    | nil =>
      cases hu : (c.conns i).hungUp with
      | true =>
        refine .inl ⟨.readEnd, trivial, ?_⟩
        simp [Config.step, Config.readNothing, hp, hi, hq, hu, hlt]
      | false => exact .inr (.client (awaits_eq_some_iff.mpr ⟨fd, n, k, acc, todo, hp, hi, hq, hu⟩))

theorem Config.Waits.not_goes (h : c.Waits) : ¬ c.Goes S := by
  rintro ⟨a, ha, hs⟩
  obtain ⟨c', hs⟩ := Option.isSome_iff_exists.mp hs
  have hst := step_sound hs
  cases h with
  | select hp hn =>
    cases hst with
    | @select reported hp' hr =>
      obtain ⟨r, hm⟩ := List.exists_mem_of_ne_nil reported ha.1
      obtain ⟨hlt, hact, hready, -⟩ := hr.2 r hm
      have hf := hn r.1 hlt hact
      rw [hready (ha.2 r hm)] at hf
      cases hf
    | connect | send | hangUp | childTerminates | hostOpens | hostCloses | selectInterrupted
    | selectFails | readFails => exact ha
    | accept hp' | acceptFails hp' | read hp' | readEnd hp' | passEnd hp' | error hp'
    | status hp' | start hp' | next hp' | finish hp' | call hp' | fault hp' | leave hp'
    | returns hp' | straggler hp' =>
      rw [hp] at hp'
      cases hp'
  | client hw =>
    rw [hst.not_awaits ha] at hw
    cases hw
  | returned hp | undefined hp =>
    cases hst with
    | connect | send | hangUp | childTerminates | hostOpens | hostCloses | selectInterrupted
    | selectFails | readFails => exact ha
    | select hp' | accept hp' | acceptFails hp' | read hp' | readEnd hp' | passEnd hp' | error hp'
    | status hp' | start hp' | next hp' | finish hp' | call hp' | fault hp' | leave hp'
    | returns hp' | straggler hp' =>
      rw [hp] at hp'
      cases hp'

/--
The server makes a step in every state that it can reach, unless nothing is there for
`select`, or for the message that it is reading, or the call has come to its end.
-/
theorem goes_iff_not_waits (h : Reach (Config.step S) ok (Config.init S host) c) :
    c.Goes S ↔ ¬ c.Waits := by
  have hd := reach_descriptors h
  have hs := reach_supplied h
  constructor
  · exact fun hg hw => hw.not_goes hg
  intro hn
  cases hp : c.phase with
  | head =>
    by_contra hg
    refine hn (.select hp fun fd hfd ha => ?_)
    by_contra hr
    exact hg (goes_of_ready hp hfd ha (by simpa using hr))
  | scan todo =>
    cases todo with
    | nil => exact goes_of_advance (by simp [Config.advance, hp])
    | cons r todo => exact goes_of_visit hd hs hp
  | message fd prog acc todo =>
    obtain ⟨i, hi⟩ := conn_of_message h hp
    exact (goes_or_waits hs hp hi).resolve_right hn
  | leave => exact goes_of_advance (by simp [Config.advance, hp])
  | stragglers todo =>
    cases todo with
    | nil => exact goes_of_advance (by simp [Config.advance, hp])
    | cons fd todo => exact goes_of_advance (by simp [Config.advance, hp])
  | returned result => exact absurd (.returned hp) hn
  | undefined => exact absurd (.undefined hp) hn

/-- A client stops after the first word of an event. -/
def stallRun : List Action :=
  [.connect 0, .select [(3, .readable)], .accept 5, .advance,
    .send 0 ((eventStream observer.context [.close 5 0 12]).take 4),
    .select [(5, .readable)], .advance, .read 4]

theorem goes_iff_not_waits_stallRun : ∃ c : Config, c.awaits = some 0 ∧ ¬ c.Goes observer := by
  have hx : ((Transition.exec (Config.step observer) (fun _ _ => True)
      (Config.init observer fun _ => false) stallRun).any fun c =>
        decide (c.awaits = some 0)) = true := by
    decide +kernel
  obtain ⟨c, hc, hw⟩ := Transition.exists_reach_of_exec _ hx
  have hw := of_decide_eq_true hw
  exact ⟨c, hw, fun hg => (goes_iff_not_waits hc).mp hg (.client hw)⟩

/-- What gets the loop out of a read from the client `i`. -/
def Action.Releases (i : ℕ) : Action → Bool
  | .send j _ | .hangUp j => j = i
  | .readFails => true
  | _ => false

theorem Step.awaits (h : Step S c a c') {i : ℕ} (hw : c.awaits = some i)
    (ha : a.Releases i = false) :
    c'.awaits = some i ∧ c'.phase = c.phase ∧ c'.log = c.log ∧ c'.active = c.active := by
  have hown : ¬ a.Own := by
    intro ho
    rw [h.not_awaits ho] at hw
    cases hw
  obtain ⟨fd, n, k, acc, todo, hp, hi, hq, hu⟩ := awaits_eq_some_iff.mp hw
  -- The connection and its descriptor are as they were.
  have hkeep : c'.phase = c.phase → c'.table fd = c.table fd →
      (c'.conns i).queue = (c.conns i).queue → (c'.conns i).hungUp = (c.conns i).hungUp →
      c'.awaits = some i := by
    intro hp' ht hq' hu'
    refine awaits_eq_some_iff.mpr ⟨fd, n, k, acc, todo, hp'.trans hp, ht.trans hi, ?_, ?_⟩
    · exact hq'.trans hq
    · exact hu'.trans hu
  have hset : ∀ j conn, (i = j → conn.queue = (c.conns i).queue ∧
      conn.hungUp = (c.conns i).hungUp) →
      ((c.setConn j conn).conns i).queue = (c.conns i).queue ∧
        ((c.setConn j conn).conns i).hungUp = (c.conns i).hungUp := by
    intro j conn hj
    by_cases hij : i = j
    · subst hij
      simpa [Config.setConn] using hj rfl
    · simp [Config.setConn, hij]
  cases h with
  | @connect j =>
    have hs := hset j { c.conns j with side := .queued } (by rintro rfl; exact ⟨rfl, rfl⟩)
    exact ⟨hkeep rfl rfl hs.1 hs.2, rfl, rfl, rfl⟩
  | @send j bytes =>
    have hs := hset j { c.conns j with queue := (c.conns j).queue ++ bytes } (by
      rintro rfl
      simp [Action.Releases] at ha)
    exact ⟨hkeep rfl rfl hs.1 hs.2, rfl, rfl, rfl⟩
  | @hangUp j =>
    have hs := hset j { c.conns j with hungUp := true } (by
      rintro rfl
      simp [Action.Releases] at ha)
    exact ⟨hkeep rfl rfl hs.1 hs.2, rfl, rfl, rfl⟩
  | childTerminates => exact ⟨hkeep rfl rfl rfl rfl, rfl, rfl, rfl⟩
  | @hostOpens fd' hf | @hostCloses fd' hf =>
    have hn : fd ≠ fd' := by
      rintro rfl
      rw [hi] at hf
      cases hf
    exact ⟨hkeep rfl (Function.update_of_ne hn _ _) rfl rfl, rfl, rfl, rfl⟩
  | readFails => cases ha
  | select hp' | selectInterrupted hp' | selectFails hp' =>
    rw [hp] at hp'
    cases hp'
  | accept | acceptFails | read | readEnd | passEnd | error | status | start | next | finish
  | call | fault | leave | returns | straggler => exact absurd trivial hown

/--
While the server waits for the rest of a message, no other client and not even the end of
the child gets through to it. The loop stands still until that client sends or hangs up.
-/
theorem stalled {i : ℕ} (hw : c.awaits = some i)
    (h : Reach (Config.step S) (fun _ a => a.Releases i = false) c c') :
    c'.awaits = some i ∧ c'.phase = c.phase ∧ c'.log = c.log ∧ c'.active = c.active := by
  refine h.invariant (I := fun t => t.awaits = some i ∧ t.phase = c.phase ∧ t.log = c.log ∧
    t.active = c.active) ⟨hw, rfl, rfl, rfl⟩ ?_
  rintro t a u ⟨hw, hp, hl, hact⟩ ha hs
  obtain ⟨hw', hp', hl', hact'⟩ := (step_sound hs).awaits hw ha
  exact ⟨hw', hp'.trans hp, hl'.trans hl, hact'.trans hact⟩

/-- A second client writes an event and the child ends, and nobody is told. -/
theorem stalled_stallRun : ∃ c c' : Config, c.awaits = some 0 ∧
    (c'.conns 1).queue = eventStream observer.context [.close 6 0 12] ∧ c'.child = some 0 ∧
    c'.log = c.log := by
  have hx : ((Transition.exec (Config.step observer) (fun _ _ => True)
      (Config.init observer fun _ => false) stallRun).any fun c =>
        (Transition.exec (Config.step observer) (fun _ a => a.Releases 0 = false) c
          [.connect 1, .send 1 (eventStream observer.context [.close 6 0 12]),
            .childTerminates 0 0]).any fun c' =>
          decide (c.awaits = some 0 ∧
            (c'.conns 1).queue = eventStream observer.context [.close 6 0 12] ∧
            c'.child = some 0)) = true := by
    decide +kernel
  obtain ⟨c, -, hx⟩ := Transition.exists_reach_of_exec _ hx
  obtain ⟨c', h, hx⟩ := Transition.exists_reach_of_exec _ hx
  obtain ⟨hw, hq, ht⟩ := of_decide_eq_true hx
  exact ⟨c, c', hw, hq, ht, (stalled hw h).2.2.1⟩

end Voyeur
