import Voyeur.Server.Projection
import Voyeur.Wire.Messages

/-! # Delivery

Each connection is written by a client with a script: some events, and possibly the
mark that it is done. Whatever the server, the clients and the kernel do in between,
the callbacks of a connection are those of the first events of its script.
-/

namespace Voyeur

open LittleEndian (encode)
open Transition (Reach)

section

variable {S : Setup} {v : View} {m p q : Bytes}
  {outcome : Bytes → List Call × Option (Verdict × Bytes)}

/-- The callbacks of a view are those of whole messages and `es`, which the next message ran. -/
def Served (S : Setup) (v : View) (r : Bytes) (es : List Call) : Prop :=
  ∃ k calls, serveConnection S.malloc S.context k v.sent = (calls, .more r) ∧
    v.calls = calls ++ es ∧ es <+: ((handleMessage S.malloc S.context).run r).1

theorem AtBoundary.served (h : AtBoundary S v p q) : Served S v q [] := by
  obtain ⟨he, k, hk⟩ := h
  have hx := hk [] fun _ => rfl
  rw [List.append_nil, ← he] at hx
  exact ⟨k, v.calls, hx, (List.append_nil _).symm, List.nil_prefix⟩

theorem InMessage.served (h : InMessage S v m q outcome) :
    ∃ es, Served S v (m ++ q) es ∧
      (handleMessage S.malloc S.context).run (m ++ q) = (es ++ (outcome q).1, (outcome q).2) := by
  obtain ⟨p, calls, es, k, he, hc, hk⟩ := h
  obtain ⟨h1, h2⟩ := hk [] fun _ => rfl
  rw [List.append_nil] at h1 h2
  rw [← he] at h1
  refine ⟨es, ⟨k, calls, h1, hc, ?_⟩, h2⟩
  rw [h2]
  exact List.prefix_append _ _

theorem Follows.served (h : Follows S v) : ∃ r es, Served S v r es ∧
    ∀ verdict, v.mode = .closed (.message verdict) →
      ∃ t, (handleMessage S.malloc S.context).run r = (es, some (verdict, t)) := by
  unfold Follows at h
  rcases hm : v.mode with _ | _ | ⟨prog, acc⟩ | ⟨verdict | _ | _⟩ | _ <;> simp only [hm] at h
  · refine ⟨v.sent, [], ⟨0, [], rfl, h.2, List.nil_prefix⟩, by simp⟩
  · exact ⟨_, _, h.served, by simp⟩
  · obtain ⟨-, m, h⟩ := h
    obtain ⟨es, hs, -⟩ := h.served
    exact ⟨_, es, hs, by simp⟩
  · obtain ⟨-, m, h⟩ := h
    obtain ⟨es, hs, hr⟩ := h.served
    rw [List.append_nil] at hr
    refine ⟨_, es, hs, fun verdict' hv => ?_⟩
    simp only [Mode.closed.injEq, Cause.message.injEq] at hv
    exact ⟨v.queue, hv ▸ hr⟩
  · exact ⟨_, _, h.served, by simp⟩
  · exact ⟨_, _, h.served, by simp⟩
  · rcases h with h | ⟨m, h⟩
    · exact ⟨_, _, h.served, by simp⟩
    · obtain ⟨es, hs, -⟩ := h.served
      exact ⟨_, es, hs, by simp⟩

theorem Follows.delivered (hm : ClientEvent.GrantsEvents S.malloc) (h : Follows S v)
    {ms : List Message} (hs : v.sent <+: stream S.context ms) :
    ∃ es left, ms = es.map .event ++ left ∧ v.calls = S.context.callbacks es ∧
      eventStream S.context es <+: v.sent ∧
      (v.mode = .closed (.message .done) → ∃ rest, left = .done :: rest) := by
  obtain ⟨r, add, ⟨k, calls, hk, hc, hadd⟩, hv⟩ := h.served
  obtain ⟨es, left, rfl, rfl, hh⟩ := serve_messages hm hs hk
  rcases hh with he | ⟨rfl, hp, -⟩
  · rw [he, stream_append, eventStream, List.prefix_append_right_inj] at hs
    rcases run_messages hm hs with ⟨e, left, t, rfl, rfl, -, hr⟩ | ⟨left, t, rfl, rfl, hr⟩ |
      ⟨-, hr⟩
    · have hd : v.mode ≠ .closed (.message .done) := by
        intro hd
        obtain ⟨t', ht⟩ := hv _ hd
        rw [hr] at ht
        simp at ht
      rw [hr] at hadd
      -- The event has run its callback, or not yet.
      by_cases ha : add = []
      · refine ⟨es, _, rfl, by rw [hc, ha, List.append_nil], ?_, fun hd' => absurd hd' hd⟩
        rw [he]
        exact List.prefix_append _ _
      · have hl := calls_length_le S.context (e.received (S.context.opts e.type))
        have hadd' := hadd.eq_of_length_le (hl.trans (List.length_pos_iff.mpr ha))
        refine ⟨es ++ [e], left, by simp, ?_, ?_, fun hd' => absurd hd' hd⟩
        · rw [hc, hadd', callbacks_append, callbacks_cons]
          simp [Context.callbacks]
        · rw [he, eventStream_append, List.prefix_append_right_inj, eventStream_cons]
          simp
    · rw [hr] at hadd
      obtain rfl := List.prefix_nil.mp hadd
      refine ⟨es, _, rfl, by rw [hc, List.append_nil], ?_, fun _ => ⟨left, rfl⟩⟩
      rw [he]
      exact List.prefix_append _ _
    · have hn : add = [] ∧ v.mode ≠ .closed (.message .done) := by
        rcases hr with hr | ⟨verdict, hd, hr⟩ <;> rw [hr] at hadd
        · refine ⟨List.prefix_nil.mp hadd, fun hd => ?_⟩
          obtain ⟨t, ht⟩ := hv _ hd
          rw [hr] at ht
          simp at ht
        · refine ⟨List.prefix_nil.mp hadd, fun hd' => ?_⟩
          obtain ⟨t, ht⟩ := hv _ hd'
          rw [hr] at ht
          simp only [Prod.mk.injEq, Option.some.injEq] at ht
          exact hd ht.2.1
      refine ⟨es, left, rfl, by rw [hc, hn.1, List.append_nil], ?_, fun hd => absurd hd hn.2⟩
      rw [he]
      exact List.prefix_append _ _
  · rw [handleMessage_nil] at hadd
    obtain rfl := List.prefix_nil.mp hadd
    refine ⟨es, left, rfl, by rw [hc, List.append_nil], hp, fun hd => ?_⟩
    obtain ⟨t, ht⟩ := hv _ hd
    rw [handleMessage_nil] at ht
    simp at ht

/--
When the server has closed a connection because of a message, it has read that the client
is done, or the client has hung up and the next message is not complete.
-/
theorem Follows.closed (hm : ClientEvent.GrantsEvents S.malloc) (h : Follows S v)
    {verdict : Verdict} (hv : v.mode = .closed (.message verdict)) {ms : List Message}
    (hs : v.sent <+: stream S.context ms) :
    ∃ es left, ms = es.map .event ++ left ∧ v.calls = S.context.callbacks es ∧
      eventStream S.context es <+: v.sent ∧ ((∃ rest, left = .done :: rest ∧
          eventStream S.context es ++ Message.done.bytes S.context.clientOpts <+: v.sent) ∨
        v.hungUp = true ∧ ∀ m rest, left = m :: rest →
          v.sent.length < (eventStream S.context es).length +
            (m.bytes S.context.clientOpts).length) := by
  have hh : verdict.code < 0 ∧ ∃ m, InMessage S v m v.queue fun s => ([], some (verdict, s)) := by
    simpa only [Follows, hv] using h
  obtain ⟨hcode, m, p, calls, add, k, hsent, hcalls, hX⟩ := hh
  obtain ⟨hk, hr⟩ := hX [] fun _ => rfl
  simp only [List.append_nil] at hk hr
  rw [← hsent] at hk
  -- Behind what was read the message would go on differently if the client had not hung up.
  have hup : ∀ m' : Message, ∀ X, m ++ (v.queue ++ X) = m'.bytes S.context.clientOpts →
      verdict ≠ .done → v.hungUp = true := by
    intro m' X hb hd
    by_contra hu
    obtain ⟨-, hrX⟩ := hX X fun ht => absurd ht hu
    rw [hb] at hrX
    cases m' with
    | event e =>
      have hcomplete : Complete S.malloc S.context _ _ _ := complete_event hm e []
      have hc := handleMessage_complete hcomplete
      rw [List.append_nil, hrX, Prod.mk.injEq, Option.some.injEq, Prod.mk.injEq] at hc
      rw [hc.2.1] at hcode
      exact absurd hcode (by decide)
    | done =>
      have hc : (handleMessage S.malloc S.context).run (Message.done.bytes S.context.clientOpts) =
          ([], some (.done, [])) := by
        rw [bytes_done, ← List.append_nil (encode 4 MsgType.done.number), handleMessage_msgType,
          if_pos rfl, StreamReader.run_pure]
      rw [hrX, Prod.mk.injEq, Option.some.injEq, Prod.mk.injEq] at hc
      exact hd hc.2.1
  obtain ⟨es, left, rfl, rfl, hh⟩ := serve_messages hm hs hk
  refine ⟨es, left, rfl, ?_⟩
  rcases hh with he | ⟨hn, hp, hl⟩
  · rw [he, stream_append, eventStream, List.prefix_append_right_inj] at hs
    rcases run_messages hm hs with ⟨e, left, t, rfl, -, -, hr'⟩ | ⟨left, t, rfl, hb, hr'⟩ |
      ⟨hl, hr' | ⟨w, hw, hr'⟩⟩
    · rw [hr, Prod.mk.injEq, Option.some.injEq, Prod.mk.injEq] at hr'
      rw [hr'.2.1] at hcode
      exact absurd hcode (by decide)
    · rw [hr, Prod.mk.injEq] at hr'
      refine ⟨by rw [hcalls, hr'.1, List.append_nil], ?_, .inl ⟨left, rfl, ?_⟩⟩
      · rw [he]
        exact List.prefix_append _ _
      · rw [he, hb, List.prefix_append_right_inj]
        exact List.prefix_append _ _
    · rw [hr] at hr'
      simp at hr'
    · rw [hr, Prod.mk.injEq, Option.some.injEq, Prod.mk.injEq] at hr'
      obtain ⟨rfl, rfl, -⟩ := hr'
      refine ⟨by rw [hcalls, List.append_nil], ?_, .inr ⟨?_, fun m' rest hm' => ?_⟩⟩
      · rw [he]
        exact List.prefix_append _ _
      · cases left with
        | nil =>
          obtain ⟨hm', hq⟩ := List.append_eq_nil_iff.mp (List.prefix_nil.mp hs)
          exact hup (.event (.close 0 0 0)) _ (by rw [hm', hq]; rfl) hw
        | cons m' rest =>
          have hb := List.prefix_of_prefix_length_le hs (List.prefix_append _ _) (hl m' rest rfl).le
          obtain ⟨X, hX'⟩ := hb
          exact hup m' X (by rw [← hX', List.append_assoc]) hw
      · have := hl m' rest hm'
        rw [he, List.length_append]
        omega
  · obtain ⟨rfl, hq⟩ := List.append_eq_nil_iff.mp hn
    rw [hq, List.append_nil, handleMessage_nil, Prod.mk.injEq, Option.some.injEq,
      Prod.mk.injEq] at hr
    refine ⟨by rw [hcalls, ← hr.1, List.append_nil], hp, .inr ⟨?_, hl⟩⟩
    refine hup (.event (.close 0 0 0)) _ (by rw [hq]; rfl) ?_
    rw [← hr.2.1]
    decide

end

/-- What a client writes on its connection. -/
structure Script where
  events : List ClientEvent
  /-- Whether `VOYEUR_MSG_DONE` follows. -/
  fin : Bool

def Script.messages (script : Script) : List Message :=
  script.events.map .event ++ if script.fin then [.done] else []

theorem Script.split (script : Script) {es : List ClientEvent} {left : List Message}
    (h : script.messages = es.map .event ++ left) :
    ∃ rest, script.events = es ++ rest ∧
      left = rest.map .event ++ if script.fin then [.done] else [] := by
  rw [messages] at h
  generalize script.events = events at h ⊢
  induction es generalizing events with
  | nil => exact ⟨events, rfl, h.symm⟩
  | cons e es ih =>
    cases events with
    | nil => cases hf : script.fin <;> simp [hf] at h
    | cons e' events =>
      simp only [List.map_cons, List.cons_append, List.cons.injEq, Message.event.injEq] at h
      obtain ⟨rest, rfl, hl⟩ := ih events h.2
      exact ⟨rest, by rw [h.1, List.cons_append], hl⟩

/--
The clients send what their scripts say, in pieces of any size, and hang up at any time.
A stream socket delivers what was sent, so that no `read` fails.
-/
def Obeys (S : Setup) (scripts : ℕ → Script) (c : Config) : Action → Prop
  | .send i bytes => (c.conns i).sent ++ bytes <+: stream S.context (scripts i).messages
  | .readFails => False
  | _ => True

instance (S : Setup) (scripts : ℕ → Script) (c : Config) (a : Action) :
    Decidable (Obeys S scripts c a) := by
  unfold Obeys
  split <;> infer_instance

variable {S : Setup} {scripts : ℕ → Script} {c c' : Config} {a : Action}

theorem Obeys.ne_readFails (h : Obeys S scripts c a) : a ≠ .readFails := by
  rintro rfl
  exact h

theorem setConn_sent {j : ℕ} {conn : Conn} (h : conn.sent = (c.conns j).sent) (i : ℕ) :
    ((c.setConn j conn).conns i).sent = (c.conns i).sent := by
  by_cases hi : i = j
  · subst hi
    simpa [Config.setConn] using h
  · simp [Config.setConn, hi]

theorem close_sent (fd : ℕ) (why : Cause) (i : ℕ) :
    ((c.close fd why).conns i).sent = (c.conns i).sent := by
  by_cases ht : c.table fd = some (.conn i)
  · rw [Config.close_conns_self ht]
    rfl
  · rw [Config.close_conns_of_ne ht]

theorem Step.sent_eq (h : Step S c a c') (i : ℕ) :
    (c'.conns i).sent = (c.conns i).sent ∨
      ∃ bytes, a = .send i bytes ∧ (c'.conns i).sent = (c.conns i).sent ++ bytes := by
  cases h with
  | @send j bytes hl hu =>
    by_cases hi : i = j
    · subst hi
      exact .inr ⟨bytes, rfl, by simp [Config.setConn, Conn.sent]⟩
    · exact .inl (by simp [Config.setConn, hi])
  | connect | hangUp =>
    refine .inl (setConn_sent ?_ i)
    rfl
  | read =>
    refine .inl (setConn_sent ?_ i)
    simp [Conn.sent]
  | @accept fd j =>
    refine .inl ?_
    by_cases hi : i = j
    · subst hi
      simp [Conn.sent]
    · simp [hi]
  | error | finish | leave | straggler => exact .inl (close_sent _ _ i)
  | @status c₁ todo hp hr =>
    refine .inl ((close_sent (c := c₁) _ .exit i).trans ?_)
    rw [(Config.readStatus_frame hr).2.2.2.1]
  | childTerminates | hostOpens | hostCloses | select | selectInterrupted | selectFails
  | acceptFails | readEnd | readFails | passEnd | start | next | call | fault | returns =>
    exact .inl rfl

theorem reach_sent {host : ℕ → Bool}
    (h : Reach (Config.step S) (Obeys S scripts) (Config.init S host) c) (i : ℕ) :
    (c.conns i).sent <+: stream S.context (scripts i).messages := by
  refine h.invariant (I := fun c => ∀ i, (c.conns i).sent <+: stream S.context (scripts i).messages)
    (fun i => List.nil_prefix) ?_ i
  intro c a c' hi ho hs i
  rcases (step_sound hs).sent_eq i with he | ⟨bytes, rfl, he⟩
  · rw [he]
    exact hi i
  · rw [he]
    exact ho

/--
In every reachable state the callbacks of a connection are those of the first events of
its script, each once and in order; and they are those of all its events if the server
closed the connection because it read that the client is done.
-/
theorem delivered_prefix (hm : ClientEvent.GrantsEvents S.malloc) {host : ℕ → Bool}
    (h : Reach (Config.step S) (Obeys S scripts) (Config.init S host) c) (i : ℕ) :
    ∃ es rest, (scripts i).events = es ++ rest ∧ c.callsOf i = S.context.callbacks es ∧
      eventStream S.context es <+: (c.conns i).sent ∧
      ((c.conns i).side = .closed (.message .done) → rest = []) := by
  obtain ⟨-, hf⟩ := reach_follows (fun _ _ ho => ho.ne_readFails) h
  obtain ⟨es, left, he, hc, hp, hd⟩ := (hf i).delivered hm (reach_sent h i)
  obtain ⟨rest, hr, hl⟩ := (scripts i).split he
  refine ⟨es, rest, hr, hc, hp, fun hs => ?_⟩
  obtain ⟨left', rfl⟩ := hd (by simp only [Config.view, hs, Phase.mode])
  cases rest with
  | nil => rfl
  | cons e rest => simp at hl

/-- The pieces of a message that is read word by word. -/
def readWords (n : ℕ) : List Action := List.replicate n (.read 4)

/-- A client's event arrives in two pieces, and then the mark that it is done. -/
def closeRun : List Action :=
  [.connect 0, .send 0 ((eventStream observer.context [.close 5 0 12]).take 10),
    .select [(3, .readable)], .accept 5, .advance, .select [(5, .readable)], .advance] ++
  readWords 2 ++ [.read 2, .send 0 ((eventStream observer.context [.close 5 0 12]).drop 10 ++
    encode 4 MsgType.done.number), .read 2] ++ readWords 2 ++
  [.advance, .advance, .advance, .select [(5, .readable)], .advance] ++ readWords 1 ++ [.advance]

theorem delivered_prefix_close :
    ∃ c : Config, (c.conns 0).side = .closed (.message .done) ∧ c.log.length = 1 ∧
      ∃ es rest, [ClientEvent.close 5 0 12] = es ++ rest ∧
        c.callsOf 0 = observer.context.callbacks es ∧
        eventStream observer.context es <+: (c.conns 0).sent ∧
        ((c.conns 0).side = .closed (.message .done) → rest = []) := by
  have hx : (Transition.exec (Config.step observer)
      (Obeys observer fun _ => ⟨[.close 5 0 12], true⟩)
      (Config.init observer fun _ => false) closeRun).any (fun c =>
        decide ((c.conns 0).side = .closed (.message .done) ∧ c.log.length = 1)) = true := by
    decide +kernel
  obtain ⟨c, hr, hc⟩ := Transition.exists_reach_of_exec _ hx
  obtain ⟨hd, hl⟩ := of_decide_eq_true hc
  exact ⟨c, hd, hl, delivered_prefix (fun _ _ => rfl) hr 0⟩

end Voyeur
