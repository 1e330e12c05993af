import Voyeur.Fork.Streams
import Voyeur.Server.Reading

/-! # Destructors in forked processes

The destructor of a library writes that the client is done, and the server closes the
connection. This is harmless if no other process uses the connection: while the server
runs, every event that was written is delivered, or waits on an open connection.
-/

namespace Voyeur

open Transition (Reach)

/-- A library in this state may still write on its connection. -/
def Activity.Speaks : Activity → Prop
  | .stuck | .writing .done [] => False
  | _ => True

instance (activity : Activity) : Decidable activity.Speaks := by
  unfold Activity.Speaks
  split <;> infer_instance

/-- A process may still write on a connection. -/
def Tree.Speaks (t : Tree) (p : ℕ) (l : Lib) (i : ℕ) : Prop :=
  ∃ s ∈ t.lib p l, s.sock = some i ∧ s.activity.Speaks

instance (t : Tree) (p : ℕ) (l : Lib) (i : ℕ) : Decidable (t.Speaks p l i) := by
  unfold Tree.Speaks
  infer_instance

/-- Messages are not interrupted, reads do not fail and `select` reports no errors. -/
def Undisturbed (t : Tree) (d : Deed) : Prop :=
  Exclusive t d ∧ match d with
    | .server a => a.Readable
    | _ => True

/-- And a destructor finds nobody else who may write on its connection. -/
def Peaceful (t : Tree) (d : Deed) : Prop :=
  Undisturbed t d ∧ match d with
    | .local_ p l .cleanup =>
        ∀ i ∈ t.sock p l, ∀ q < t.next, ∀ l', (q, l') ≠ (p, l) → ¬ t.Speaks q l' i
    | _ => True

instance (t : Tree) (d : Deed) : Decidable (Undisturbed t d) := by
  unfold Undisturbed
  refine @instDecidableAnd _ _ _ ?_
  split <;> infer_instance

instance (t : Tree) (d : Deed) : Decidable (Peaceful t d) := by
  unfold Peaceful
  refine @instDecidableAnd _ _ _ ?_
  split <;> infer_instance

/-- What holds in every run in which destructors disturb nobody. -/
structure Peace (S : Setup) (t : Tree) : Prop where
  single : ∀ i p l s bufs, t.lib p l = some s → s.sock = some i → s.activity = .writing .done bufs →
    ∀ q l', (q, l') ≠ (p, l) → ¬ t.Speaks q l' i
  done : ∀ i, .done ∈ t.messages i → ∀ p l, ¬ t.Speaks p l i
  last : ∀ i ms rest, t.messages i = ms ++ .done :: rest → rest = []
  hungUp : ∀ i, (t.config.conns i).hungUp = true → ∀ p l, t.sock p l ≠ some i
  whole : t.config.phase.Running → ∀ i, ∃ m part, Consists S t i (t.messages i) m part

variable {S : Setup} {t t' : Tree} {d : Deed} {i p : ℕ} {l : Lib} {s : LibState}

theorem Tree.Speaks.sock (h : t.Speaks p l i) : t.sock p l = some i := by
  obtain ⟨s, hl, hi, -⟩ := h
  exact Tree.sock_eq_some_iff.mpr ⟨s, hl, hi⟩

theorem TreeStep.speaks (h : TreeStep S t d t') (hs : t'.Speaks p l i) :
    t.Speaks p l i ∨
      (∃ q s, d = .fork q ∧ t.lib q l = some s ∧ s.sock = some i ∧ s.activity = .free) ∨
      d = .connect p l i := by
  obtain ⟨s, hl, hi, ha⟩ := hs
  cases h.origin hl with
  | kept _ hl₀ => exact .inl ⟨s, hl₀, hi, ha⟩
  | loaded => cases hi
  | @forked q _ s₀ hl₀ =>
    rcases s₀.inherited_activity with ⟨-, hf⟩ | hf
    · exact .inr (.inl ⟨q, s₀, rfl, hl₀, hi, hf⟩)
    · rw [hf] at ha
      exact ha.elim
  | @acted _ _ _ s₀ _ hl₀ hact =>
    refine .inl ⟨s₀, hl₀, (act_sound hact).sock hi, ?_⟩
    cases act_sound hact with
    | noSocket | finish => cases hi
    | enter ha₀ | skip ha₀ | write ha₀ | leave ha₀ | cleanup ha₀ | unload ha₀ =>
      rw [ha₀]
      trivial
  | connected =>
    cases hi
    exact .inr (.inr rfl)
  | @sent _ _ _ s₀ m b bufs hl₀ ha₀ | @failed _ _ s₀ m b bufs hl₀ ha₀ =>
    refine .inl ⟨s₀, hl₀, hi, ?_⟩
    rw [ha₀]
    cases m <;> trivial

theorem Piece.speaks {m : Message} {b : Bytes} {bufs rest : List Bytes}
    (h : Piece S t d t' i p l s m b bufs rest) : t.Speaks p l i := by
  refine ⟨s, h.lib, h.sock, ?_⟩
  rw [h.activity]
  cases m <;> trivial

theorem TreeStep.connect_untouched (h : TreeStep S t (.connect p l i) t') (hv : Shaped t) :
    Untouched t i := hv.absent i h.connect_absent

theorem TreeStep.single (h : TreeStep S t d t') (hv : Shaped t) (hx : Peaceful t d)
    (hp : Peace S t) {bufs : List Bytes} (hl : t'.lib p l = some s) (hi : s.sock = some i)
    (ha : s.activity = .writing .done bufs) {q : ℕ} {l' : Lib} (hq : (q, l') ≠ (p, l)) :
    ¬ t'.Speaks q l' i := by
  intro hs
  -- The writer has written before, or has just begun.
  have hcase : (∃ s₀ bufs₀, t.lib p l = some s₀ ∧ s₀.sock = some i ∧
      s₀.activity = .writing .done bufs₀) ∨ (t.sock p l = some i ∧ d = .local_ p l .cleanup) := by
    cases h.origin hl with
    | kept _ hl₀ => exact .inl ⟨s, bufs, hl₀, hi, ha⟩
    | loaded => cases ha
    | @forked _ _ s₀ =>
      rcases s₀.inherited_activity with ⟨hf, -⟩ | hf <;> (rw [hf] at ha; cases ha)
    | @acted _ _ _ s₀ _ hl₀ hact =>
      have hsock := (act_sound hact).sock hi
      cases act_sound hact with
      | cleanup => exact .inr ⟨Tree.sock_eq_some_iff.mpr ⟨s₀, hl₀, hsock⟩, rfl⟩
      | noSocket ha₀ | unload ha₀ =>
        simp only at ha
        rw [ha₀] at ha
        cases ha
      | enter | skip | write | leave | finish => cases ha
    | connected _ he =>
      simp only at ha
      rw [he] at ha
      cases ha
    | sent hl₀ ha₀ | failed hl₀ ha₀ =>
      cases ha
      exact .inl ⟨_, _, hl₀, hi, ha₀⟩
  rcases hcase with ⟨s₀, bufs₀, hl₀, hi₀, ha₀⟩ | ⟨hi₀, rfl⟩
  · rcases h.speaks hs with hs₀ | ⟨q₀, s₁, rfl, hl₁, hi₁, ha₁⟩ | rfl
    · exact hp.single i p l s₀ bufs₀ hl₀ hi₀ ha₀ q l' hq hs₀
    · -- A fork of somebody who is not the writer
      have hne : (q₀, l') ≠ (p, l) := by
        rintro hc
        obtain ⟨rfl, rfl⟩ := Prod.mk.inj hc
        rw [hl₀, Option.some.injEq] at hl₁
        rw [← hl₁, ha₀] at ha₁
        cases ha₁
      refine hp.single i p l s₀ bufs₀ hl₀ hi₀ ha₀ q₀ l' hne ⟨s₁, hl₁, hi₁, ?_⟩
      rw [ha₁]
      trivial
    · exact (h.connect_untouched hv).sock p l (Tree.sock_eq_some_iff.mpr ⟨s₀, hl₀, hi₀⟩)
  · rcases h.speaks hs with hs₀ | ⟨q₀, s₁, hd, -⟩ | hd
    · obtain ⟨s₁, hl₁, hi₁⟩ := hs₀
      obtain ⟨libs, hlibs, -⟩ := Tree.lib_eq_some_iff.mp hl₁
      exact hx.2 i hi₀ q (hv.alive q libs hlibs) l' hq ⟨s₁, hl₁, hi₁⟩
    · cases hd
    · cases hd

theorem TreeStep.done (h : TreeStep S t d t') (hv : Shaped t) (hp : Peace S t)
    (hm : .done ∈ t'.messages i) : ¬ t'.Speaks p l i := by
  intro hs
  -- The mark is there already, or its last piece is sent.
  have hold : .done ∈ t.messages i → False := by
    intro hm
    rcases h.speaks hs with hs₀ | ⟨q, s₁, -, hl₁, hi₁, ha₁⟩ | rfl
    · exact hp.done i hm p l hs₀
    · refine hp.done i hm q l ⟨s₁, hl₁, hi₁, ?_⟩
      rw [ha₁]
      trivial
    · rw [Tree.messages, (h.connect_untouched hv).wrote] at hm
      exact List.not_mem_nil hm
  rcases h.piece i with ⟨hwr, -, -⟩ | ⟨q, l', s, m, b, bufs, rest, hpc⟩
  · rw [Tree.messages, hwr] at hm
    exact hold hm
  · rw [Tree.messages, hpc.wrote] at hm
    by_cases hr : rest = []
    · rw [if_pos hr, List.map_append, List.mem_append] at hm
      rcases hm with hm | hm
      · exact hold hm
      · simp only [List.map_cons, List.map_nil, List.mem_singleton] at hm
        subst hm
        by_cases hq : (p, l) = (q, l')
        · obtain ⟨rfl, rfl⟩ := Prod.mk.inj hq
          obtain ⟨s', hl', -, ha'⟩ := hs
          rw [Option.mem_def, hpc.after, Option.some.injEq] at hl'
          rw [← hl', hr] at ha'
          exact ha'
        · rcases h.speaks hs with hs₀ | ⟨q₀, s₁, rfl, -⟩ | rfl
          · exact hp.single i q l' s _ hpc.lib hpc.sock hpc.activity p l hq hs₀
          · cases hpc.sender
          · cases hpc.sender
    · rw [if_neg hr] at hm
      exact hold hm

theorem TreeStep.last (h : TreeStep S t d t') (hp : Peace S t) {ms rest : List Message}
    (hm : t'.messages i = ms ++ .done :: rest) : rest = [] := by
  rcases h.piece i with ⟨hwr, -, -⟩ | ⟨q, l', s, m, b, bufs, rest', hpc⟩
  · rw [Tree.messages, hwr] at hm
    exact hp.last i ms rest hm
  · rw [Tree.messages, hpc.wrote] at hm
    by_cases hr : rest' = []
    · rw [if_pos hr, List.map_append] at hm
      rcases List.eq_nil_or_concat rest with rfl | ⟨rest, m', rfl⟩
      · rfl
      · -- The writer would have written behind the mark.
        rw [List.concat_eq_append, ← List.cons_append, ← List.append_assoc] at hm
        have hm' := List.append_inj_left' hm (by simp)
        refine absurd hpc.speaks (hp.done i ?_ q l')
        rw [Tree.messages, hm']
        simp
    · rw [if_neg hr] at hm
      exact hp.last i ms rest hm

theorem TreeStep.hungUp (h : TreeStep S t d t') (hv : Shaped t) (hp : Peace S t)
    (hu : (t'.config.conns i).hungUp = true) : t'.sock p l ≠ some i := by
  intro hs
  have hcase : (t.config.conns i).hungUp = true ∨
      d = .hangUp i ∧ ∀ p < t.next, ∀ l, t.sock p l ≠ some i := by
    rcases h.config with hc | ⟨a, ha, hd⟩
    · exact .inl (hc ▸ hu)
    · rcases (step_sound ha).hungUp hu with hu₀ | rfl
      · exact .inl hu₀
      · exact .inr hd
  rcases hcase with hu₀ | ⟨rfl, hn⟩
  · rcases h.sock hs with ⟨q, hq⟩ | rfl
    · exact hp.hungUp i hu₀ q l hq
    · rw [(h.connect_untouched hv).conn.1] at hu₀
      cases hu₀
  · rcases h.sock hs with ⟨q, hq⟩ | hd
    · obtain ⟨s, hl, -⟩ := Tree.sock_eq_some_iff.mp hq
      obtain ⟨libs, hlibs, -⟩ := Tree.lib_eq_some_iff.mp hl
      exact hn q (hv.alive q libs hlibs) l hq
    · cases hd

theorem Consists.done_mem {ws rest : List Message} {m : Message} {part : Bytes}
    {es : List ClientEvent} (h : Consists S t i ws m part)
    (hs : ws ++ [m] = es.map .event ++ .done :: rest)
    (hp : eventStream S.context es ++ Message.done.bytes S.context.clientOpts <+:
      (t.config.conns i).sent) : ∃ rest, ws = es.map .event ++ .done :: rest := by
  rcases List.eq_nil_or_concat rest with rfl | ⟨rest, m', rfl⟩
  · obtain ⟨rfl, hm⟩ := List.append_inj' hs rfl
    obtain rfl := List.singleton_inj.mp hm
    -- Then the mark is the message that is not complete.
    have hlen := hp.length_le
    have hlt := h.lt
    rw [h.sent, eventStream] at hlen
    simp only [List.length_append] at hlen
    omega
  · rw [List.concat_eq_append, ← List.cons_append, ← List.append_assoc] at hs
    exact ⟨rest, List.append_inj_left' hs (by simp)⟩

theorem Peace.linked (hm : ClientEvent.GrantsEvents S.malloc) (hp : Peace S t) (hv : Shaped t)
    (hs : Serving S t.config) (hf : Follows S (t.config.view i)) (hr : t.config.phase.Running)
    (hi : t.Speaks p l i) : t.config.linked S i = true := by
  unfold Config.linked
  cases hside : (t.config.conns i).side with
  | absent => exact absurd hi.sock ((hv.absent i hside).sock p l)
  | queued => simpa using hs.listener hr
  | accepted => rfl
  | closed why =>
    obtain ⟨verdict, rfl⟩ := hs.closed hr i why hside
    obtain ⟨m, part, hc⟩ := hp.whole hr i
    have hmode : (t.config.view i).mode = .closed (.message verdict) := by
      simp only [Config.view, hside, Phase.mode]
    obtain ⟨es, left, he, -, -, ⟨rest, rfl, hpre⟩ | ⟨hu, -⟩⟩ :=
      hf.closed hm hmode hc.sent_prefix
    · obtain ⟨rest', hw⟩ := hc.done_mem he hpre
      exact absurd hi (hp.done i (by rw [hw]; simp) p l)
    · exact absurd hi.sock (hp.hungUp i hu p l)

theorem TreeStep.running (h : TreeStep S t d t') (hr : t'.config.phase.Running) :
    t.config.phase.Running := by
  rcases h.config with hc | ⟨a, ha, -⟩
  · exact hc ▸ hr
  · exact (step_sound ha).running hr

theorem TreeStep.consists (h : TreeStep S t d t') (hv : Shaped t) (hx : Exclusive t d)
    (ho : Orderly S t)
    (hlinked : ∀ {p l}, t.Speaks p l i → t.config.linked S i = true)
    (hc : ∃ m part, Consists S t i (t.messages i) m part) :
    ∃ m part, Consists S t' i (t'.messages i) m part := by
  rcases h.piece i with ⟨hwr, -, hn⟩ | ⟨p, l, s, m, b, bufs, rest, hpc⟩
  · obtain ⟨m, part, hc⟩ := hc
    refine ⟨m, part, ?_⟩
    rw [Tree.messages, hwr]
    refine hc.congr ?_
    rcases h.sent i with hs | ⟨p, l, n, rfl, hi⟩
    · exact hs
    · obtain ⟨s, hl, hi⟩ := Tree.sock_eq_some_iff.mp hi
      exact absurd hi (hn p l s rfl hl)
  · have hk := hlinked hpc.speaks
    rcases hpc.how with ⟨hkf, -⟩ | ⟨n, hd, -, hr, hs⟩
    · rw [hk] at hkf
      cases hkf
    · obtain ⟨m', part, hc', -⟩ := ho.send hv hpc hk (hpc.turn_of_exclusive hx hd) hr hs
      exact ⟨m', part, hc'⟩

theorem TreeStep.peace (hm : ClientEvent.GrantsEvents S.malloc) (h : TreeStep S t d t')
    (hv : Shaped t) (ho : Orderly S t) (hs : Serving S t.config)
    (hf : ∀ i, Follows S (t.config.view i)) (hx : Peaceful t d) (hp : Peace S t) :
    Peace S t' := by
  constructor
  · intro i p l s bufs hl hi ha q l' hq
    exact h.single hv hx hp hl hi ha hq
  · intro i hd p l
    exact h.done hv hp hd
  · intro i ms rest
    exact h.last hp
  · intro i hu p l
    exact h.hungUp hv hp hu
  · intro hr i
    have hr₀ := h.running hr
    exact h.consists hv hx.1.1 ho (fun hi => hp.linked hm hv hs (hf i) hr₀ hi) (hp.whole hr₀ i)

theorem init_peace (S : Setup) (host : ℕ → Bool) : Peace S (Tree.init S host) := by
  have hn : ∀ p l i, (Tree.init S host).sock p l ≠ some i := fun p l i =>
    ((init_shaped S host).absent i rfl).sock p l
  constructor
  · intro i p l s bufs hl hi
    exact absurd (Tree.sock_eq_some_iff.mpr ⟨s, hl, hi⟩) (hn p l i)
  · intro i hd
    exact absurd hd List.not_mem_nil
  · intro i ms rest hm
    have hlen := congrArg List.length hm
    simp [Tree.messages, Tree.init] at hlen
  · intro i _ p l
    exact hn p l i
  · intro _ i
    exact ⟨.done, [], rfl, List.nil_prefix, bytes_length_pos S.context .done⟩

theorem Undisturbed.action {a : Action} (h : Undisturbed t d) (hd : d.Is t a) :
    a ≠ .readFails ∧ a.Readable := by
  refine ⟨h.1.ne_readFails hd, ?_⟩
  cases a with
  | select reported =>
    obtain rfl : d = .server (.select reported) := hd
    exact h.2
  | _ => trivial

theorem reach_undisturbed {host : ℕ → Bool}
    (h : Reach (Tree.step S) Peaceful (Tree.init S host) t) :
    Shaped t ∧ Orderly S t ∧ Serving S t.config ∧ ∀ i, Follows S (t.config.view i) := by
  have hc : Reach (Config.step S) (fun _ a => a ≠ .readFails ∧ a.Readable) (Config.init S host)
      t.config := reach_config (fun _ _ _ hx hd => hx.1.action hd) h
  obtain ⟨hv, ho⟩ := reach_orderly (h.mono fun _ _ hx => hx.1.1)
  exact ⟨hv, ho, reach_serving (fun _ _ ha => ha.2) hc,
    (reach_follows (fun _ _ ha => ha.1) hc).2⟩

theorem reach_peace (hm : ClientEvent.GrantsEvents S.malloc) {host : ℕ → Bool}
    (h : Reach (Tree.step S) Peaceful (Tree.init S host) t) : Peace S t := by
  have hi : Reach (Tree.step S) Peaceful (Tree.init S host) t ∧ Peace S t := by
    refine h.invariant (I := fun t => Reach (Tree.step S) Peaceful (Tree.init S host) t ∧
      Peace S t) ⟨.refl, init_peace S host⟩ ?_
    rintro t d t' ⟨hr, hp⟩ hx hs
    obtain ⟨hv, ho, hserve, hf⟩ := reach_undisturbed hr
    exact ⟨hr.tail hx hs, (treeStep_sound hs).peace hm hv ho hserve hf hx hp⟩
  exact hi.2

/-- What was written on a connection is delivered, or waits on the open connection. -/
def Pending (S : Setup) (t : Tree) (i : ℕ) : Prop :=
  ∃ es rest, t.messages i = es.map .event ++ rest ∧
    t.config.callsOf i = S.context.callbacks es ∧
    (rest = [] ∨ rest = [.done] ∨ t.config.linked S i = true ∧
      ((t.config.conns i).queue ≠ [] ∨ ∃ prog acc, (t.config.view i).mode = .handling prog acc))

theorem Consists.all_read {ws left : List Message} {m : Message} {part : Bytes}
    {es : List ClientEvent} (h : Consists S t i ws m part)
    (hs : ws ++ [m] = es.map .event ++ left)
    (hp : eventStream S.context es <+: (t.config.conns i).sent)
    (hl : ∀ m' rest, left = m' :: rest → (t.config.conns i).sent.length <
      (eventStream S.context es).length + (m'.bytes S.context.clientOpts).length) :
    ws = es.map .event := by
  obtain ⟨rest, hw⟩ := h.complete hs hp
  cases rest with
  | nil => rw [hw, List.append_nil]
  | cons m' rest =>
    -- The stream would be longer.
    rw [hw, List.append_assoc, List.append_cancel_left_eq] at hs
    have hlt := hl m' (rest ++ [m]) hs.symm
    rw [h.sent, hw, stream_append, stream_cons, eventStream] at hlt
    simp only [List.length_append] at hlt
    omega

theorem pending_idle (hm : ClientEvent.GrantsEvents S.malloc) (hf : Follows S (t.config.view i))
    (hi : (t.config.view i).mode = .idle) (hk : t.config.linked S i = true) {m : Message}
    {part : Bytes} (hc : Consists S t i (t.messages i) m part) : Pending S t i := by
  obtain ⟨es, left, hcalls, hsplit, hh⟩ := (hf.idle hi).handled hm hc.sent_prefix
  have hpre : eventStream S.context es <+: (t.config.conns i).sent := by
    rcases hh with he | ⟨-, hpre, -⟩
    · exact ⟨_, he.symm⟩
    · exact hpre
  by_cases hq : (t.config.conns i).queue = []
  · have hw := hc.all_read hsplit hpre fun m' rest hl => by
      rcases hh with he | ⟨-, -, hlt⟩
      · have hv : (t.config.view i).queue = [] := hq
        have hs : (t.config.conns i).sent = (t.config.view i).sent := rfl
        have hpos := bytes_length_pos S.context m'
        rw [hs, he, hv, List.append_nil]
        omega
      · exact hlt m' rest hl
    exact ⟨es, [], by rw [hw, List.append_nil], hcalls, .inl rfl⟩
  · obtain ⟨rest, hw⟩ := hc.complete hsplit hpre
    exact ⟨es, rest, hw, hcalls, .inr (.inr ⟨hk, .inl hq⟩)⟩

theorem pending_closed (hm : ClientEvent.GrantsEvents S.malloc) (hp : Peace S t)
    (hf : Follows S (t.config.view i)) {verdict : Verdict}
    (hi : (t.config.view i).mode = .closed (.message verdict)) {m : Message} {part : Bytes}
    (hc : Consists S t i (t.messages i) m part) : Pending S t i := by
  obtain ⟨es, left, he, hcalls, hpre, ⟨rest, rfl, hd⟩ | ⟨-, hl⟩⟩ :=
    hf.closed hm hi hc.sent_prefix
  · obtain ⟨rest', hw⟩ := hc.done_mem he hd
    refine ⟨es, _, hw, hcalls, .inr (.inl ?_)⟩
    rw [hp.last i _ _ hw]
  · have hw := hc.all_read he hpre hl
    exact ⟨es, [], by rw [hw, List.append_nil], hcalls, .inl rfl⟩

theorem Consists.eq_nil {ws : List Message} {m : Message} {part : Bytes}
    (h : Consists S t i ws m part) (hs : (t.config.conns i).sent = []) : ws = [] := by
  cases ws with
  | nil => rfl
  | cons m' ws =>
    have hlen := congrArg List.length (h.sent.symm.trans hs)
    have hpos := bytes_length_pos S.context m'
    simp only [stream_cons, List.length_append, List.length_nil] at hlen
    omega

/--
If destructors write that a client is done only when nobody else may write on the
connection, then as long as the loop of the server runs, it listens to everyone who may
write, and every event that was written is delivered or waits on an open connection.
-/
theorem delivered_while_running (hm : ClientEvent.GrantsEvents S.malloc) {host : ℕ → Bool}
    (h : Reach (Tree.step S) Peaceful (Tree.init S host) t) (hr : t.config.phase.Running) :
    (∀ p l i, t.Speaks p l i → t.config.linked S i = true) ∧ ∀ i, Pending S t i := by
  obtain ⟨hv, ho, hs, hf⟩ := reach_undisturbed h
  have hp := reach_peace hm h
  refine ⟨fun p l i hi => hp.linked hm hv hs (hf i) hr hi, fun i => ?_⟩
  obtain ⟨m, part, hc⟩ := hp.whole hr i
  cases hside : (t.config.conns i).side with
  | absent =>
    have hu := hv.absent i hside
    have hfi := hf i
    simp only [Follows, Config.view, hside, Phase.mode] at hfi
    exact ⟨[], [], by rw [Tree.messages, hu.wrote]; rfl, hfi.2, .inl rfl⟩
  | queued =>
    have hfi := hf i
    simp only [Follows, Config.view, hside, Phase.mode] at hfi
    refine ⟨[], t.messages i, rfl, hfi.2, ?_⟩
    by_cases hq : (t.config.conns i).queue = []
    · refine .inl (hc.eq_nil ?_)
      rw [Conn.sent, hfi.1, hq, List.append_nil]
    · refine .inr (.inr ⟨?_, .inl hq⟩)
      simp [Config.linked, hside, hs.listener hr]
  | accepted fd =>
    have hk : t.config.linked S i = true := by simp [Config.linked, hside]
    cases hmode : (t.config.view i).mode with
    | idle => exact pending_idle hm (hf i) hmode hk hc
    | handling prog acc =>
      obtain ⟨es, left, he, hcalls, hpre, -⟩ := (hf i).delivered hm hc.sent_prefix
      obtain ⟨rest, hw⟩ := hc.complete he hpre
      exact ⟨es, rest, hw, hcalls, .inr (.inr ⟨hk, .inr ⟨prog, acc, hmode⟩⟩)⟩
    | fresh | closed | stopped =>
      simp only [Config.view, hside] at hmode
      cases hph : t.config.phase <;> simp [hph, Phase.mode, Phase.Running] at hmode hr
      split at hmode <;> cases hmode
  | closed why =>
    obtain ⟨verdict, rfl⟩ := hs.closed hr i why hside
    have hmode : (t.config.view i).mode = .closed (.message verdict) := by
      simp only [Config.view, hside, Phase.mode]
    exact pending_closed hm hp (hf i) hmode hc

/-- The destructor of a library with a connection. -/
def destructs (p : ℕ) : List Deed :=
  [.local_ p .close .cleanup, .send p .close 4, .local_ p .close .leave, .die p]

/-- The server accepts the connection and reads one event. -/
def acceptAndReadOne : List Deed :=
  [.server (.select [(3, .readable)]), .server (.accept 5), .server .advance,
    .server (.select [(5, .readable)]), .server .advance] ++
    (readWords 5).map .server ++ List.replicate 3 (.server .advance)

/-- The child is killed, so that its destructors do not run, and its parent goes on. -/
def peacefulRun : List Deed :=
  firstClose ++ [.fork 0, .die 1] ++ acceptAndReadOne ++
    [.local_ 0 .close (.enter (.close 6 0 12)), .local_ 0 .close (.write true)] ++
    List.replicate 5 (.send 0 .close 4)

theorem delivered_while_running_fork : ∃ t : Tree, t.config.phase.Running ∧
    t.messages 0 = [.event (.close 5 0 12), .event (.close 6 0 12)] ∧
    (∀ p l i, t.Speaks p l i → t.config.linked observer i = true) ∧ ∀ i, Pending observer t i := by
  have hx : (Transition.exec (Tree.step observer) Peaceful (Tree.init observer fun _ => false)
      peacefulRun).any (fun t => decide (t.config.phase.Running ∧
        t.messages 0 = [.event (.close 5 0 12), .event (.close 6 0 12)])) = true := by
    decide +kernel
  obtain ⟨t, hr, ht⟩ := Transition.exists_reach_of_exec _ hx
  obtain ⟨hp, hm⟩ := of_decide_eq_true ht
  exact ⟨t, hp, hm, delivered_while_running (fun _ _ => rfl) hr hp⟩

/-- The child terminates and takes the connection of its parent with it. -/
def silencedRun : List Deed :=
  firstClose ++ [.fork 0] ++ destructs 1 ++ acceptAndReadOne ++
    [.server (.select [(5, .readable)]), .server .advance, .server (.read 4),
      .server .advance, .server .advance,
      .local_ 0 .close (.enter (.close 6 0 12)), .local_ 0 .close (.write true)] ++
    List.replicate 5 (.sendFails 0 .close) ++ [.local_ 0 .close .leave]

/-- The second event of the parent is lost, although no two messages are interleaved. -/
theorem not_delivered_while_running :
    ¬ ∀ t, Reach (Tree.step observer) Undisturbed (Tree.init observer fun _ => false) t →
      t.config.phase.Running → ∀ i, Pending observer t i := by
  have hx : (Transition.exec (Tree.step observer) Undisturbed (Tree.init observer fun _ => false)
      silencedRun).any (fun t => decide (t.config.phase.Running ∧
        t.messages 0 = [.event (.close 5 0 12), .done, .event (.close 6 0 12)] ∧
        t.config.linked observer 0 = false)) = true := by
    decide +kernel
  intro h
  obtain ⟨t, hr, ht⟩ := Transition.exists_reach_of_exec _ hx
  obtain ⟨hp, hm, hl⟩ := of_decide_eq_true ht
  obtain ⟨es, rest, he, -, hrest⟩ := h t hr hp 0
  rw [hm] at he
  rw [hl] at hrest
  have hlast : Message.event (.close 6 0 12) ∈ rest := by
    rcases es with _ | ⟨e, _ | ⟨e', es⟩⟩ <;> simp at he <;> simp [← he]
  rcases hrest with rfl | rfl | ⟨hk, -⟩
  · exact List.not_mem_nil hlast
  · simp at hlast
  · cases hk

end Voyeur
