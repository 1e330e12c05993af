import Voyeur.Wire.Agreement
import Voyeur.Wire.Grammar

/-! # Streams of messages

What the observer does with a connection on which whole messages are written. The
stream may break off at any byte: the callbacks are those of the events that are
complete, up to the first mark that a client is done.
-/

namespace Voyeur

open LittleEndian (encode)

/-- The options of the clients, which they got through the environment. -/
def Context.clientOpts (context : Context) : EventType → Byte := fun t => carried (context.opts t)

/-- The bytes of a sequence of messages. -/
def stream (context : Context) (ms : List Message) : Bytes :=
  ms.flatMap (Message.bytes context.clientOpts)

/-- The bytes of a sequence of events. -/
def eventStream (context : Context) (es : List ClientEvent) : Bytes :=
  stream context (es.map .event)

/-- The callbacks that a sequence of events should run. -/
def Context.callbacks (context : Context) (es : List ClientEvent) : List Call :=
  es.flatMap fun e => context.calls (e.received (context.opts e.type))

section

variable {context : Context}

@[simp] theorem stream_nil : stream context [] = [] := rfl

@[simp] theorem stream_cons (m : Message) (ms : List Message) :
    stream context (m :: ms) = m.bytes context.clientOpts ++ stream context ms := rfl

@[simp] theorem stream_append (ms ms' : List Message) :
    stream context (ms ++ ms') = stream context ms ++ stream context ms' :=
  List.flatMap_append

@[simp] theorem eventStream_nil : eventStream context [] = [] := rfl

@[simp] theorem eventStream_cons (e : ClientEvent) (es : List ClientEvent) :
    eventStream context (e :: es) =
      (Message.event e).bytes context.clientOpts ++ eventStream context es := rfl

@[simp] theorem eventStream_append (es es' : List ClientEvent) :
    eventStream context (es ++ es') = eventStream context es ++ eventStream context es' := by
  simp [eventStream]

@[simp] theorem callbacks_cons (e : ClientEvent) (es : List ClientEvent) :
    context.callbacks (e :: es) =
      context.calls (e.received (context.opts e.type)) ++ context.callbacks es := rfl

@[simp] theorem callbacks_append (es es' : List ClientEvent) :
    context.callbacks (es ++ es') = context.callbacks es ++ context.callbacks es' :=
  List.flatMap_append

theorem calls_length_le (context : Context) (e : Event) : (context.calls e).length ≤ 1 := by
  unfold Context.calls
  split <;> simp

end

variable {malloc : ℕ → Bool} {context : Context}

theorem bytes_event (e : ClientEvent) :
    (Message.event e).bytes context.clientOpts = header e.type.number ++
      (payload context e.type).layout.bytes (e.args context) := by
  rw [← e.wire_fields (sameFields_carried (context.opts e.type))]
  simp [Message.bytes, ClientEvent.message, Context.clientOpts, header, writeMsgType,
    writeEventType, writeWord]

theorem bytes_done : Message.done.bytes context.clientOpts = encode 4 MsgType.done.number := by
  simp [Message.bytes, writeMsgType, writeWord]

theorem bytes_length_pos (context : Context) (m : Message) :
    0 < (m.bytes context.clientOpts).length := by
  cases m with
  | event e =>
    rw [bytes_event, List.length_append, length_header]
    omega
  | done => simp [bytes_done]

theorem complete_event (hm : ClientEvent.GrantsEvents malloc) (e : ClientEvent) (t : Bytes) :
    Complete malloc context ((Message.event e).bytes context.clientOpts ++ t)
      (e.received (context.opts e.type)) t := by
  refine ⟨e.type, e.args context, e.valid_args, e.granted_args hm, e.event_args.symm, ?_⟩
  rw [bytes_event, List.append_assoc]

theorem handleMessage_done {s t : Bytes} {es : List Call}
    (h : (handleMessage malloc context).run s = (es, some (.done, t))) :
    es = [] ∧ s = encode 4 MsgType.done.number ++ t := by
  rcases word_cases 4 s with hs | ⟨v, s, rfl⟩
  · rw [handleMessage_short hs] at h
    simp at h
  rw [handleMessage_msgType] at h
  by_cases hd : v = MsgType.done.number
  · rw [if_pos hd, StreamReader.run_pure] at h
    simp only [Prod.mk.injEq, Option.some.injEq, true_and] at h
    obtain ⟨rfl, rfl⟩ := h
    exact ⟨rfl, by rw [hd]⟩
  rw [if_neg hd] at h
  by_cases he : v = MsgType.event.number
  · rw [if_pos he] at h
    rcases word_cases 4 s with hs | ⟨type, s, rfl⟩
    · rw [readEventType, StreamReader.run_bind_of_value (readWord_short (by decide) hs)] at h
      simp at h
    · rw [StreamReader.run_bind_of_value (p := readEventType) (readInt_accepts type s)] at h
      simp only [StreamReader.run_bind] at h
      rcases hr : (handleEvent malloc context type).run s with ⟨es', _ | ⟨u, t'⟩⟩ <;>
        simp [hr] at h
  · rw [if_neg he, StreamReader.run_pure] at h
    simp at h

/-- A message that breaks off runs no callback, and takes all that is there of it. -/
theorem handleMessage_truncated {s s' t : Bytes} {e : Event}
    (h : Complete malloc context (s ++ s') e t) (hl : t.length < s'.length) :
    (handleMessage malloc context).run s = ([], none) ∨
      ∃ v, (handleMessage malloc context).run s = ([], some (v, [])) := by
  have hn : ∀ es v u, (handleMessage malloc context).run s = (es, some (v, u)) → u = [] := by
    intro es v u hr
    by_contra hu
    have ha := StreamReader.run_append hr hu s'
    rw [handleMessage_complete h, Prod.mk.injEq, Option.some.injEq, Prod.mk.injEq] at ha
    rw [ha.2.2, List.length_append] at hl
    omega
  rcases message_cases malloc context s with ⟨e', u, hc⟩ | ⟨u, hp⟩ | ho | ⟨v, u, hr, -⟩
  · obtain rfl := hn _ _ _ (handleMessage_complete hc)
    obtain ⟨type, args, hv, hg, rfl, rfl⟩ := hc
    have hc' : Complete malloc context (header type.number ++
        ((payload context type).layout.bytes args ++ []) ++ s') _ s' :=
      ⟨type, args, hv, hg, rfl, by simp⟩
    have ha := handleMessage_complete h
    rw [handleMessage_complete hc', Prod.mk.injEq, Option.some.injEq, Prod.mk.injEq] at ha
    rw [ha.2.2] at hl
    exact absurd hl (lt_irrefl _)
  · obtain rfl := hn _ _ _ (handleMessage_passes hp)
    exact .inr ⟨_, handleMessage_passes hp⟩
  · exact .inl (handleMessage_overruns ho)
  · obtain rfl := hn _ _ _ hr
    exact .inr ⟨v, hr⟩

/-- What the observer does with the beginning of a sequence of messages. -/
theorem run_messages (hm : ClientEvent.GrantsEvents malloc) {ms : List Message} {s : Bytes}
    (hs : s <+: stream context ms) :
    (∃ e ms' t, ms = .event e :: ms' ∧ s = (Message.event e).bytes context.clientOpts ++ t ∧
      t <+: stream context ms' ∧ (handleMessage malloc context).run s =
        (context.calls (e.received (context.opts e.type)), some (.handled, t))) ∨
    (∃ ms' t, ms = .done :: ms' ∧ s = Message.done.bytes context.clientOpts ++ t ∧
      (handleMessage malloc context).run s = ([], some (.done, t))) ∨
    (∀ m ms', ms = m :: ms' → s.length < (m.bytes context.clientOpts).length) ∧
      ((handleMessage malloc context).run s = ([], none) ∨
        ∃ v, v ≠ .done ∧ (handleMessage malloc context).run s = ([], some (v, []))) := by
  cases ms with
  | nil =>
    obtain rfl : s = [] := List.prefix_nil.mp hs
    exact .inr (.inr ⟨by simp, .inr ⟨.failed, by simp, handleMessage_nil⟩⟩)
  | cons m ms =>
    rw [stream_cons] at hs
    rcases Nat.lt_or_ge s.length (m.bytes context.clientOpts).length with hl | hl
    · refine .inr (.inr ⟨?_, ?_⟩)
      · rintro m' ms' hc
        rw [List.cons.injEq] at hc
        exact hc.1 ▸ hl
      obtain ⟨s', hs'⟩ := List.prefix_of_prefix_length_le hs (List.prefix_append _ _) hl.le
      cases m with
      | done =>
        rw [bytes_done] at hl
        exact .inr ⟨.failed, by simp, handleMessage_short (by simpa using hl)⟩
      | event e =>
        have hc : Complete malloc context _ _ _ := complete_event hm e []
        rw [List.append_nil, ← hs'] at hc
        have hl' : ([] : Bytes).length < s'.length := by
          rw [← hs', List.length_append] at hl
          rw [List.length_nil]
          omega
        rcases handleMessage_truncated hc hl' with hr | ⟨v, hr⟩
        · exact .inl hr
        · refine .inr ⟨v, ?_, hr⟩
          rintro rfl
          obtain ⟨-, rfl⟩ := handleMessage_done hr
          rw [bytes_event, header, List.append_nil, List.append_assoc] at hs'
          exact absurd (List.append_inj_left hs' (by simp)) (by decide)
    · obtain ⟨t, rfl⟩ := List.prefix_of_prefix_length_le (List.prefix_append _ _) hs hl
      rw [List.prefix_append_right_inj] at hs
      cases m with
      | event e =>
        exact .inl ⟨e, ms, t, rfl, rfl, hs, handleMessage_complete (complete_event hm e t)⟩
      | done =>
        refine .inr (.inl ⟨ms, t, rfl, rfl, ?_⟩)
        rw [bytes_done, handleMessage_msgType, if_pos rfl, StreamReader.run_pure]

/-- The first events of a stream, and what is left when the observer has handled them. -/
def Handled (context : Context) (ms : List Message) (s : Bytes) (es : List ClientEvent)
    (left : List Message) (r : Bytes) : Prop :=
  ms = es.map .event ++ left ∧ (s = eventStream context es ++ r ∨
    r = [] ∧ eventStream context es <+: s ∧ ∀ m rest, left = m :: rest →
      s.length < (eventStream context es).length + (m.bytes context.clientOpts).length)

theorem serve_messages (hm : ClientEvent.GrantsEvents malloc) {k : ℕ} {ms : List Message}
    {s r : Bytes} {calls : List Call} (hs : s <+: stream context ms)
    (h : serveConnection malloc context k s = (calls, .more r)) :
    ∃ es left, calls = context.callbacks es ∧ Handled context ms s es left r := by
  induction k generalizing ms s calls with
  | zero =>
    simp only [serveConnection, StreamReader.serve_zero, Prod.mk.injEq,
      StreamReader.Status.more.injEq] at h
    obtain ⟨rfl, rfl⟩ := h
    exact ⟨[], ms, rfl, rfl, .inl rfl⟩
  | succ k ih =>
    rcases run_messages hm hs with ⟨e, ms', t, rfl, rfl, ht, hr⟩ | ⟨ms', t, rfl, rfl, hr⟩ |
      ⟨hl, hr | ⟨v, -, hr⟩⟩
    · rw [serveConnection_run hr, Prod.mk.injEq] at h
      obtain ⟨es, left, hc, rfl, hh⟩ := ih ht (Prod.ext rfl h.2)
      refine ⟨e :: es, left, h.1.symm.trans (congrArg (_ ++ ·) hc), rfl, ?_⟩
      rcases hh with rfl | ⟨hr', hp, hl⟩
      · exact .inl (by simp)
      · refine .inr ⟨hr', ?_, fun m rest hm' => ?_⟩
        · rw [eventStream_cons, List.prefix_append_right_inj]
          exact hp
        · have := hl m rest hm'
          simp only [eventStream_cons, List.length_append]
          omega
    · rw [serveConnection, StreamReader.serve_close hr (by decide)] at h
      simp at h
    · rw [serveConnection, StreamReader.serve_fault hr] at h
      simp at h
    · by_cases hv : v = .handled
      · subst hv
        rw [serveConnection_run hr, Prod.mk.injEq] at h
        cases k with
        | zero =>
          simp only [serveConnection, StreamReader.serve_zero, List.append_nil,
            StreamReader.Status.more.injEq] at h
          obtain ⟨rfl, rfl⟩ := h
          exact ⟨[], ms, rfl, rfl, .inr ⟨rfl, List.nil_prefix, by simpa using hl⟩⟩
        | succ k =>
          rw [serveConnection, StreamReader.serve_close handleMessage_nil (by decide)] at h
          simp at h
      · have hk : decide (0 ≤ v.code) = false := by
          cases v <;> first | rfl | exact absurd rfl hv
        rw [serveConnection, StreamReader.serve_close hr hk] at h
        simp at h

end Voyeur
