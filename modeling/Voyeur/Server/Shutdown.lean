import Voyeur.Server.Descriptors
import Voyeur.Server.Reading

/-! # The end of the server

The server leaves its loop behind the pass in which it learns of the child's end. In
that pass it reads one message at most from each connection, so an event that was
written before is lost if the connection has a second one, or is not yet accepted.
-/

namespace Voyeur

open Transition (Reach)

/-- The loop has been left. -/
def Phase.Outside : Phase → Prop
  | .leave | .stragglers _ | .returned _ => True
  | _ => False

/-- The number of bytes that were sent on a connection. -/
def Config.written (c : Config) (i : ℕ) : ℕ := (c.conns i).sent.length

section

variable (S : Setup) (scripts : ℕ → Script)

/-- The first `n` bytes of a connection lose no event if this is its last pass. -/
def Spared (c : Config) (reported : List (ℕ × Report)) (n i : ℕ) : Prop :=
  AllRead S.context (scripts i) n (c.conns i).taken.length ∨
    OneLeft S.context (scripts i) n (c.conns i).taken.length ∧
      match (c.conns i).side with
      | .accepted fd => (fd, .readable) ∈ reported
      | _ => False

/--
When `select` reports the child's pipe, all events of the connection that are due (those in
its first `n` bytes) were read, but for one if the connection is reported as well. When
`select` fails, all of them were read.
-/
def LosslessAt (n i : ℕ) (c : Config) : Action → Prop
  | .select reported => (S.childPipe, .readable) ∈ reported → Spared S scripts c reported n i
  | .selectFails => AllRead S.context (scripts i) n (c.conns i).taken.length
  | _ => True

/-- No connection loses an event that is due. -/
def Lossless (due : ℕ → ℕ) (c : Config) (a : Action) : Prop :=
  ∀ i, LosslessAt S scripts (due i) i c a

/-- The server has been told that the child has terminated, or will be in this pass. -/
def Told (c : Config) : Prop := c.childExited = true ∨ (S.childPipe, .readable) ∈ c.phase.todo

/-- What holds from the announcement on of the events that are due. -/
structure Ending (due : ℕ → ℕ) (c : Config) : Prop where
  bound : ∀ i, due i ≤ c.written i
  told : c.phase.Running → Told S c → ∀ i, Settled S (scripts i) (due i) (c.view i) ∨
    OneLeft S.context (scripts i) (due i) (c.conns i).taken.length ∧
      ∃ fd, (c.conns i).side = .accepted fd ∧ (fd, .readable) ∈ c.phase.todo
  outside : c.phase.Outside → ∀ i, AllRead S.context (scripts i) (due i) (c.conns i).taken.length

end

variable {S : Setup} {scripts : ℕ → Script} {c c' : Config} {a : Action} {due : ℕ → ℕ}

theorem Told.congr (h : Told S c') (he : c'.childExited = c.childExited)
    (ht : ∀ x ∈ c'.phase.todo, x ∈ c.phase.todo) : Told S c :=
  h.imp (fun hx => he ▸ hx) fun hx => ht _ hx

/-- The server is told in a call of `select`, and stays told. -/
theorem Step.told (h : Step S c a c') (hr : c'.phase.Running) (ht : Told S c') :
    (∃ reported, a = .select reported ∧ c'.conns = c.conns ∧ c'.phase.todo = reported ∧
      (S.childPipe, .readable) ∈ reported) ∨ c.phase.Running ∧ Told S c := by
  cases h with
  | connect | send | hangUp | childTerminates | hostOpens | hostCloses | selectInterrupted =>
    exact .inr ⟨hr, ht⟩
  | @select reported hp hx =>
    rcases ht with he | ht
    · exact .inr ⟨hp ▸ trivial, .inl he⟩
    · exact .inl ⟨reported, rfl, rfl, rfl, ht⟩
  | @accept fd j backlog todo hp hb hl hf =>
    refine .inr ⟨hp ▸ trivial, ht.congr rfl fun x hx => ?_⟩
    by_cases hfd : fd < fdSetSize
    · simp only [if_pos hfd] at hx
      rw [hp]
      exact List.mem_cons_of_mem _ hx
    · simp only [if_neg hfd] at hr
      exact hr.elim
  | acceptFails hp | error hp | start hp =>
    refine .inr ⟨hp ▸ trivial, ht.congr rfl fun x hx => ?_⟩
    rw [hp]
    exact List.mem_cons_of_mem _ hx
  | status hp => exact .inr ⟨hp ▸ trivial, .inr (hp ▸ List.mem_cons_self)⟩
  | read hp | readEnd hp | readFails hp | call hp | next hp | finish hp =>
    exact .inr ⟨hp ▸ trivial, ht.congr rfl fun x hx => by rw [hp]; exact hx⟩
  | passEnd hp =>
    by_cases hx : c.childExited = true
    · simp only [if_pos hx] at hr
      exact hr.elim
    · refine .inr ⟨hp ▸ trivial, ht.congr rfl fun x hx' => ?_⟩
      simp only [if_neg hx] at hx'
      exact (List.not_mem_nil hx').elim
  | selectFails | fault | leave | returns | straggler => exact hr.elim

theorem side_of_close (hw : c.WellFormed) {i fd fd' : ℕ} (hs : (c.conns i).side = .accepted fd)
    (hn : fd' ≠ fd) (why : Cause) : ((c.close fd' why).conns i).side = .accepted fd := by
  rw [Config.close_conns_of_ne, hs]
  rw [ne_eq, hw.conn_iff, hs, Side.accepted.injEq]
  exact hn.symm

theorem Step.reported (h : Step S c a c') (hd : Descriptors S c) (hw : c.WellFormed) {i fd : ℕ}
    (hs : (c.conns i).side = .accepted fd) (ht : (fd, .readable) ∈ c.phase.todo)
    (hr : c'.phase.Running) :
    ((c'.conns i).side = .accepted fd ∧ (fd, .readable) ∈ c'.phase.todo) ∨
      (c.view i).mode = .idle ∧
        c'.view i = { c.view i with mode := .handling (handleMessage S.malloc S.context) [] } := by
  have htab : c.table fd = some (.conn i) := (hw.conn_iff fd i).mpr hs
  have htail : ∀ fd' r todo, c.phase = .scan ((fd', r) :: todo) → fd ≠ fd' →
      (fd, .readable) ∈ todo := by
    rintro fd' r todo hp hn
    rw [hp] at ht
    simpa [Phase.todo, hn] using ht
  have hlisten : fd ≠ S.serverSock := by
    rintro rfl
    exact hd.listener i htab
  cases h with
  | @connect j hj hl =>
    have hi : i ≠ j := by
      rintro rfl
      rw [hs] at hj
      cases hj
    exact .inl ⟨by simpa [Config.setConn, hi] using hs, ht⟩
  | send | hangUp =>
    refine .inl ⟨(Config.setConn_side ?_ i).trans hs, ht⟩
    rfl
  | childTerminates | hostOpens | hostCloses | selectInterrupted => exact .inl ⟨hs, ht⟩
  | select hp | selectFails hp =>
    rw [hp] at ht
    exact (List.not_mem_nil ht).elim
  | @accept fd' j backlog todo hp hb hl hf =>
    have hi : i ≠ j := by
      rintro rfl
      rw [hw.queued i (by simp [hb])] at hs
      cases hs
    by_cases hfd : fd' < fdSetSize
    · refine .inl ⟨by simpa [hi] using hs, ?_⟩
      simp only [if_pos hfd]
      exact htail _ _ _ hp hlisten
    · simp only [if_neg hfd] at hr
      exact hr.elim
  | acceptFails hp => exact .inl ⟨hs, htail _ _ _ hp hlisten⟩
  | read hp =>
    rw [hp] at ht
    refine .inl ⟨(Config.setConn_side ?_ i).trans hs, ht⟩
    rfl
  | readEnd hp | readFails hp | call hp | next hp =>
    rw [hp] at ht
    exact .inl ⟨hs, ht⟩
  | passEnd hp =>
    rw [hp] at ht
    exact (List.not_mem_nil ht).elim
  | @error fd' todo hp =>
    have hn : fd ≠ fd' := by
      rintro rfl
      have hso := hd.sorted
      rw [hp] at hso ht
      have hlt := (List.pairwise_cons.mp hso).1 fd
      simp only [Phase.todo, List.mem_cons, Prod.mk.injEq, true_and, reduceCtorEq,
        false_or] at ht
      exact lt_irrefl _ (hlt (List.mem_map_of_mem ht))
    exact .inl ⟨side_of_close hw hs hn.symm .error, htail _ _ _ hp hn⟩
  | @status c₁ todo hp hx =>
    have hn : fd ≠ S.childPipe := by
      rintro rfl
      have hv := hd.visit .readable
      rw [hp] at hv
      rw [hd.pipe (hp ▸ trivial) (hv List.mem_cons_self).1] at htab
      cases htab
    obtain ⟨h1, h2, -, h4, -⟩ := Config.readStatus_frame hx
    refine .inl ⟨?_, htail _ _ _ hp hn⟩
    have hw' : c₁.WellFormed := hw.congr h1 h2 fun j => by rw [h4]
    exact side_of_close hw' (by rw [h4]; exact hs) hn.symm .exit
  | @start fd' todo hp hn hc =>
    by_cases hfd : fd = fd'
    · subst hfd
      refine .inr ⟨by simp [Config.view, hs, hp, Phase.mode], ?_⟩
      simp [Config.view, hs, Phase.mode, Config.callsOf]
    · exact .inl ⟨hs, htail _ _ _ hp hfd⟩
  | @finish fd' verdict acc todo hp hv =>
    have hn : fd' < fd := by
      rw [hp] at ht
      exact (hd.message _ _ _ _ hp).2 _ ht
    refine .inl ⟨side_of_close hw hs hn.ne (.message verdict), ?_⟩
    rw [hp] at ht
    exact ht
  | fault | leave | returns | straggler => exact hr.elim

/-- The loop is left when `select` fails, or behind a pass in which the server was told. -/
theorem Step.outside (h : Step S c a c') (ho : c'.phase.Outside) :
    c.phase.Outside ∨ a = .selectFails ∨ c.phase = .scan [] ∧ Told S c := by
  cases h with
  | connect | send | hangUp | childTerminates | hostOpens | hostCloses | selectInterrupted =>
    exact .inl ho
  | selectFails => exact .inr (.inl rfl)
  | accept hp =>
    simp only at ho
    split at ho <;> exact ho.elim
  | passEnd hp =>
    by_cases hx : c.childExited = true
    · exact .inr (.inr ⟨hp, .inl hx⟩)
    · simp only [if_neg hx] at ho
      exact ho.elim
  | leave hp | returns hp | straggler hp => exact .inl (hp ▸ trivial)
  | select | acceptFails | read | readEnd | readFails | error | status | start | next | finish
  | call | fault => exact ho.elim

theorem Step.ending (hm : ClientEvent.GrantsEvents S.malloc) (h : Step S c a c')
    (hd : Descriptors S c) (hw : c.WellFormed) (hf : ∀ i, Follows S (c.view i))
    (hs : ∀ i, (c.conns i).sent <+: stream S.context (scripts i).messages)
    (ho : Obeys S scripts c a) (hl : Lossless S scripts due c a) (he : Ending S scripts due c) :
    Ending S scripts due c' := by
  have hmoves := fun i => h.moves hw ho.ne_readFails i
  have htaken : ∀ i, (c.conns i).taken.length ≤ (c'.conns i).taken.length :=
    fun i => Moves.taken_le_of_moves (hmoves i)
  refine ⟨fun i => (he.bound i).trans ?_, fun hr ht i => ?_, fun hov i => ?_⟩
  · unfold Config.written
    rcases h.sent_eq i with hsent | ⟨bytes, -, hsent⟩
    · rw [hsent]
    · rw [hsent, List.length_append]
      exact Nat.le_add_right _ _
  · rcases h.told hr ht with ⟨reported, rfl, hc, hto, hrep⟩ | ⟨hr₀, ht₀⟩
    · rcases hl i hrep with ha | ⟨hone, hside⟩
      · refine .inl (.inl ?_)
        simpa only [Config.view, hc] using ha
      · refine .inr ⟨by rwa [hc], ?_⟩
        split at hside
        · next fd hfd => exact ⟨fd, by rwa [hc], by rwa [hto]⟩
        · exact hside.elim
    · rcases he.told hr₀ ht₀ i with hset | ⟨hone, fd, hside, hmem⟩
      · exact .inl (hset.moves (hmoves i))
      · rcases h.reported hd hw hside hmem hr with ⟨hside', hmem'⟩ | ⟨hidle, hview⟩
        · exact .inr ⟨hone.mono (htaken i), fd, hside', hmem'⟩
        · refine .inl (.inr (.inl ?_))
          rw [hview]
          exact finishing_start hm (hf i) (hs i) hidle hone (he.bound i)
  · rcases h.outside hov with hov₀ | rfl | ⟨hp, ht₀⟩
    · exact (he.outside hov₀ i).mono (htaken i)
    · exact (hl i).mono (htaken i)
    · rcases he.told (hp ▸ trivial) ht₀ i with (ha | ⟨prog, acc, hv, -⟩ | hv) | ⟨-, fd, -, hmem⟩
      · exact ha.mono (htaken i)
      · simp only [Config.view, hp] at hv
        cases hsd : (c.conns i).side <;> simp [hsd, Phase.mode] at hv
      · simp only [Config.view, hp] at hv
        cases hsd : (c.conns i).side <;> simp [hsd, Phase.mode] at hv
      · rw [hp] at hmem
        exact (List.not_mem_nil hmem).elim

/-- As long as the child runs, the server has no reason to leave its loop. -/
structure Waiting (S : Setup) (c : Config) : Prop where
  pipe : c.pipe = ⟨[], false⟩
  exited : c.childExited = false
  visit : ∀ r, (S.childPipe, r) ∉ c.phase.todo
  outside : ¬ c.phase.Outside

theorem Step.child_eq_none (h : Step S c a c') (hn : c'.child = none) : c.child = none := by
  cases h with
  | childTerminates => cases hn
  | status hp hr => exact (Config.readStatus_frame hr).2.2.2.2.1.symm.trans hn
  | _ => exact hn

theorem Waiting.rest (h : Waiting S c) (hp : c'.pipe = c.pipe)
    (he : c'.childExited = c.childExited) (ht : ∀ x ∈ c'.phase.todo, x ∈ c.phase.todo)
    (ho : ¬ c'.phase.Outside) : Waiting S c' :=
  ⟨hp.trans h.pipe, he.trans h.exited, fun r hr => h.visit r (ht _ hr), ho⟩

theorem Step.waiting (h : Step S c a c') (ha : a ≠ .selectFails) (hd : Descriptors S c)
    (hn : c'.child = none) (hw : Waiting S c) : Waiting S c' := by
  cases h with
  | childTerminates => cases hn
  | connect | send | hangUp | hostOpens | hostCloses | selectInterrupted =>
    exact ⟨hw.pipe, hw.exited, hw.visit, hw.outside⟩
  | @select reported hp hr =>
    refine ⟨hw.pipe, hw.exited, fun r hm => ?_, fun ho => ho⟩
    have ht := hd.pipe (hp ▸ trivial) (hd.head hp)
    obtain ⟨-, -, hready, herror⟩ := hr.2 _ hm
    cases r with
    | readable => simpa [Config.ready, ht, hw.pipe] using hready rfl
    | error => exact herror rfl ht
  | selectFails => exact absurd rfl ha
  | @accept fd j backlog todo hp =>
    by_cases hfd : fd < fdSetSize
    · simp only [if_pos hfd]
      refine hw.rest rfl rfl (fun x hx => ?_) fun ho => ho
      rw [hp]
      exact List.mem_cons_of_mem _ hx
    · simp only [if_neg hfd]
      exact hw.rest rfl rfl (fun x hx => (List.not_mem_nil hx).elim) fun ho => ho
  | acceptFails hp | error hp | start hp =>
    refine hw.rest rfl rfl (fun x hx => ?_) fun ho => ho
    rw [hp]
    exact List.mem_cons_of_mem _ hx
  | status hp =>
    have hv := hw.visit .readable
    rw [hp] at hv
    exact absurd List.mem_cons_self hv
  | read hp | readEnd hp | readFails hp | call hp | next hp | finish hp =>
    refine hw.rest rfl rfl (fun x hx => ?_) fun ho => ho
    rw [hp]
    exact hx
  | passEnd hp =>
    simp only [hw.exited, Bool.false_eq_true, if_false]
    exact ⟨hw.pipe, rfl, fun r hr => (List.not_mem_nil hr).elim, fun ho => ho⟩
  | fault => exact hw.rest rfl rfl (fun x hx => (List.not_mem_nil hx).elim) fun ho => ho
  | leave hp | returns hp | straggler hp => exact absurd (hp ▸ trivial) hw.outside

theorem reach_waiting {ok : Config → Action → Prop} (hok : ∀ c a, ok c a → a ≠ .selectFails)
    {host : ℕ → Bool} (h : Reach (Config.step S) ok (Config.init S host) c)
    (hn : c.child = none) : Waiting S c := by
  have hi : Descriptors S c ∧ (c.child = none → Waiting S c) := by
    refine h.invariant (I := fun c => Descriptors S c ∧ (c.child = none → Waiting S c)) ?_ ?_
    · refine ⟨init_descriptors S host, fun _ => ⟨rfl, rfl, ?_, fun ho => ho⟩⟩
      exact fun r hr => (List.not_mem_nil hr).elim
    · rintro c a c' ⟨hd, hw⟩ ho hs
      have hst := step_sound hs
      exact ⟨hst.descriptors hd, fun hn =>
        hst.waiting (hok c a ho) hd hn (hw (hst.child_eq_none hn))⟩
  exact hi.2 hn

theorem Waiting.ending {status seen : CInt} (hw : Waiting S c)
    (h : Step S c (.childTerminates status seen) c') : Ending S scripts c.written c' := by
  cases h with
  | childTerminates =>
    refine ⟨fun i => le_rfl, fun _ ht => ?_, fun ho => absurd ho hw.outside⟩
    rcases ht with ht | ht
    · rw [hw.exited] at ht
      cases ht
    · exact absurd ht (hw.visit _)

theorem reach_ending (hm : ClientEvent.GrantsEvents S.malloc) {host : ℕ → Bool}
    (hc : Reach (Config.step S) (Obeys S scripts) (Config.init S host) c)
    (h : Reach (Config.step S) (fun c a => Obeys S scripts c a ∧ Lossless S scripts due c a) c c')
    (he : Ending S scripts due c) :
    Reach (Config.step S) (Obeys S scripts) (Config.init S host) c' ∧ Ending S scripts due c' := by
  refine h.invariant (I := fun c =>
    Reach (Config.step S) (Obeys S scripts) (Config.init S host) c ∧ Ending S scripts due c)
    ⟨hc, he⟩ ?_
  rintro c a c' ⟨hc, he⟩ ⟨ho, hl⟩ hs
  obtain ⟨hw, hf⟩ := reach_follows (fun _ _ ho => ho.ne_readFails) hc
  exact ⟨hc.tail ho hs, (step_sound hs).ending hm (reach_descriptors hc) hw hf (reach_sent hc) ho hl
    he⟩

/--
Every event that was completely written before the child's termination was announced is
delivered before the server returns, in every run in which no connection loses such an
event in the last pass and `select` does not fail before.
-/
theorem delivered_before_return (hm : ClientEvent.GrantsEvents S.malloc) {host : ℕ → Bool}
    {c₁ c₂ : Config} {status seen : CInt}
    (h₁ : Reach (Config.step S) (fun c a => Obeys S scripts c a ∧ a ≠ .selectFails)
      (Config.init S host) c₁)
    (ht : c₁.step S (.childTerminates status seen) = some c₂)
    (h₂ : Reach (Config.step S) (fun c a => Obeys S scripts c a ∧
      Lossless S scripts c₁.written c a) c₂ c)
    {result : ℤ} (hr : c.phase.result = some result) (i k : ℕ)
    (hk : Within S.context (scripts i) (c₁.written i) k) :
    S.context.callbacks ((scripts i).events.take k) <+: c.callsOf i := by
  have hst := step_sound ht
  have hn : c₁.child = none := by
    cases hst with
    | childTerminates hn => exact hn
  have hc₁ : Reach (Config.step S) (Obeys S scripts) (Config.init S host) c₁ :=
    h₁.mono fun _ _ ho => ho.1
  have he : Ending S scripts c₁.written c₂ :=
    (reach_waiting (fun _ _ ho => ho.2) h₁ hn).ending hst
  have hok : Obeys S scripts c₁ (.childTerminates status seen) := trivial
  obtain ⟨hc, he⟩ := reach_ending hm (hc₁.tail hok ht) h₂ he
  obtain ⟨-, hf⟩ := reach_follows (fun _ _ ho => ho.ne_readFails) hc
  -- No message is being read when the server has returned.
  have hp : c.phase = .returned result := by
    cases hp : c.phase <;> simp_all [Phase.result]
  have hmode : (∀ prog acc, (c.view i).mode ≠ .handling prog acc) ∧ (c.view i).mode ≠ .stopped := by
    simp only [Config.view, hp]
    cases (c.conns i).side <;> simp [Phase.mode]
  have hcaught := (hf i).caught hm (reach_sent hc i) hmode.1 hmode.2
  exact hcaught.delivered (he.outside (hp ▸ trivial) i) hk

theorem exists_announcement {ok ok' : Config → Action → Prop} [∀ c a, Decidable (ok c a)]
    [∀ c a, Decidable (ok' c a)] {status seen : CInt} {P : Config → Config → Bool}
    (as bs : List Action)
    (h : ((Transition.exec (Config.step S) ok c as).any fun c₁ =>
      (c₁.step S (.childTerminates status seen)).any fun c₂ =>
        (Transition.exec (Config.step S) ok' c₂ bs).any fun c => P c₁ c) = true) :
    ∃ c₁ c₂ c', Reach (Config.step S) ok c c₁ ∧
      c₁.step S (.childTerminates status seen) = some c₂ ∧
      Reach (Config.step S) ok' c₂ c' ∧ P c₁ c' = true := by
  obtain ⟨c₁, h₁, h⟩ := Transition.exists_reach_of_exec _ h
  obtain ⟨c₂, hs, h⟩ := (Option.any_eq_true _ _).mp h
  obtain ⟨c', h₂, h⟩ := Transition.exists_reach_of_exec _ h
  exact ⟨c₁, c₂, c', h₁, hs, h₂, h⟩

/-- One client, which writes these events. -/
def oneClient (es : List ClientEvent) (i : ℕ) : Script := ⟨if i = 0 then es else [], false⟩

/-- A client connects and writes its events. -/
def writeRun (es : List ClientEvent) : List Action :=
  [.connect 0, .select [(3, .readable)], .accept 5, .advance,
    .send 0 (eventStream observer.context es)]

/-- One call of `select` reports the child's pipe and the client, and then the loop is left. -/
def lastRun : List Action :=
  [.select [(4, .readable), (5, .readable)], .advance, .advance] ++ readWords 5 ++
    List.replicate 7 .advance

instance (S : Setup) (scripts : ℕ → Script) (c : Config) (reported : List (ℕ × Report))
    (n i : ℕ) : Decidable (Spared S scripts c reported n i) :=
  @instDecidableOr _ _ _ <| @instDecidableAnd _ _ _ <|
    match (c.conns i).side with
    | .accepted _ => inferInstanceAs (Decidable (_ ∈ _))
    | .absent | .queued | .closed _ => instDecidableFalse

instance (S : Setup) (scripts : ℕ → Script) (n i : ℕ) (c : Config) (a : Action) :
    Decidable (LosslessAt S scripts n i c a) :=
  match a with
  | .connect _ | .send _ _ | .hangUp _ | .childTerminates _ _ | .hostOpens _ | .hostCloses _ |
      .select _ | .selectInterrupted | .selectFails | .accept _ | .acceptFails | .read _ |
      .readEnd | .readFails | .advance => by
    unfold LosslessAt
    infer_instance

theorem lossless_oneClient {es : List ClientEvent} {n : ℕ}
    (h : LosslessAt S (oneClient es) n 0 c a) (hn : due 0 = n) :
    Lossless S (oneClient es) due c a := by
  intro i
  by_cases hi : i = 0
  · subst hi
    rw [hn]
    exact h
  · have ha : ∀ n t, AllRead S.context (oneClient es i) n t := by
      intro n t k hk _
      simp [Within, oneClient, hi]
    cases a with
    | select reported => exact fun _ => .inl (ha _ _)
    | selectFails => exact ha _ _
    | _ => trivial

/-- The client's only event is read in the last pass. -/
theorem delivered_before_return_one : ∃ c₁ c : Config, c₁.written 0 = 20 ∧
    c.phase.result = some 0 ∧ observer.context.callbacks [.close 5 0 12] <+: c.callsOf 0 := by
  have hx : ((Transition.exec (Config.step observer)
      (fun c a => Obeys observer (oneClient [.close 5 0 12]) c a ∧ a ≠ .selectFails)
      (Config.init observer fun _ => false) (writeRun [.close 5 0 12])).any fun c₁ =>
        (c₁.step observer (.childTerminates 0 0)).any fun c₂ =>
          (Transition.exec (Config.step observer)
            (fun c a => Obeys observer (oneClient [.close 5 0 12]) c a ∧
              LosslessAt observer (oneClient [.close 5 0 12]) 20 0 c a) c₂ lastRun).any fun c =>
              decide (c₁.written 0 = 20 ∧ c.phase.result = some 0)) = true := by
    decide +kernel
  obtain ⟨c₁, c₂, c, h₁, ht, h₂, hc⟩ := exists_announcement _ _ hx
  obtain ⟨hw, hr⟩ := of_decide_eq_true hc
  have h₂' := h₂.mono fun c a ho => And.imp_right (fun hl => lossless_oneClient hl hw) ho
  refine ⟨c₁, c, hw, hr, ?_⟩
  refine delivered_before_return (fun _ _ => rfl) h₁ ht h₂' hr 0 1 ?_
  rw [hw]
  decide +kernel

/-- The second of two events on one connection is lost. -/
theorem not_delivered_before_return :
    ¬ ∀ c₁ c₂ c status seen result,
      Reach (Config.step observer) (Obeys observer (oneClient [.close 5 0 12, .close 6 0 12]))
        (Config.init observer fun _ => false) c₁ →
      c₁.step observer (.childTerminates status seen) = some c₂ →
      Reach (Config.step observer) (Obeys observer (oneClient [.close 5 0 12, .close 6 0 12]))
        c₂ c →
      c.phase.result = some result → ∀ i k,
        Within observer.context (oneClient [.close 5 0 12, .close 6 0 12] i) (c₁.written i) k →
        observer.context.callbacks
          ((oneClient [.close 5 0 12, .close 6 0 12] i).events.take k) <+: c.callsOf i := by
  have hx : ((Transition.exec (Config.step observer)
      (Obeys observer (oneClient [.close 5 0 12, .close 6 0 12]))
      (Config.init observer fun _ => false)
      (writeRun [.close 5 0 12, .close 6 0 12])).any fun c₁ =>
        (c₁.step observer (.childTerminates 0 0)).any fun c₂ =>
          (Transition.exec (Config.step observer)
            (Obeys observer (oneClient [.close 5 0 12, .close 6 0 12])) c₂ lastRun).any fun c =>
              decide (c₁.written 0 = 40 ∧ c.phase.result = some 0 ∧
                (c.callsOf 0).length = 1)) = true := by
    decide +kernel
  intro h
  obtain ⟨c₁, c₂, c, h₁, ht, h₂, hc⟩ := exists_announcement _ _ hx
  obtain ⟨hw, hr, hl⟩ := of_decide_eq_true hc
  have hp := h c₁ c₂ c 0 0 0 h₁ ht h₂ hr 0 2 (by rw [hw]; decide +kernel)
  have hle := hp.length_le
  rw [hl] at hle
  revert hle
  decide +kernel

end Voyeur
