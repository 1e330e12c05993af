import Mathlib.Logic.Relation
import Voyeur.Wire.Payload

/-! # The messages that the observer accepts

A well-formed message names a known event and has a complete payload, whose
buffers are all granted. The observer runs the callbacks of the longest sequence
of such messages. Behind it the observer stops, unless the next message is one
that it drops and passes over: then it may find further messages in what follows.
-/

namespace Voyeur

open LittleEndian (encode decode)
open StreamReader (Accepts Status)

/-- The two words in front of a payload. -/
def header (type : CInt) : Bytes := encode 4 MsgType.event.number ++ encode 4 type

@[simp] theorem length_header (type : CInt) : (header type).length = 8 := by
  simp [header]

section

variable (malloc : ℕ → Bool) (context : Context)

/-- The stream `s` starts with a well-formed message for the event `e`, and goes on with `t`. -/
def Complete (s : Bytes) (e : Event) (t : Bytes) : Prop :=
  ∃ (type : EventType) (args : (payload context type).Args),
    (payload context type).layout.Valid args ∧ (payload context type).layout.Granted malloc args ∧
    e = (payload context type).event args ∧
    s = header type.number ++ ((payload context type).layout.bytes args ++ t)

/-- The stream `s` is well-formed messages for the events `es`, as many as there are, and `r`. -/
inductive Longest : Bytes → List Event → Bytes → Prop
  | stop {r : Bytes} : (∀ e t, ¬ Complete malloc context r e t) → Longest r [] r
  | message {s t r : Bytes} {e : Event} {es : List Event} :
      Complete malloc context s e t → Longest t es r → Longest s (e :: es) r

/-- The observer passes over a message without a callback and goes on with `t`. -/
inductive Passes : Bytes → Bytes → Prop
  | unknown {type : CInt} {t : Bytes} : EventType.ofNumber type = none → Passes (header type ++ t) t
  | refused {type : EventType} {s t : Bytes} :
      (payload context type).layout.Refused malloc s t → Passes (header type.number ++ s) t
  | silent {s t : Bytes} {e : Event} :
      Complete malloc context s e t → context.calls e = [] → Passes s t

/-- The stream starts with a payload for which the observer has no defined behaviour. -/
def Overruns (s : Bytes) : Prop :=
  ∃ (type : EventType) (u : Bytes), s = header type.number ++ u ∧
    (payload context type).layout.Undefined malloc u

/-- Wherever passing over messages leads to, there is no message with a callback. -/
def Quiet (r : Bytes) : Prop :=
  ∀ t, Relation.ReflTransGen (Passes malloc context) r t →
    (∀ e u, Complete malloc context t e u → context.calls e = []) ∧ ¬ Overruns malloc context t

end

variable {malloc : ℕ → Bool} {context : Context}

theorem handleMessage_nil : (handleMessage malloc context).run [] = ([], some (.failed, [])) := by
  rw [handleMessage, readMsgType,
    StreamReader.run_bind_of_value (readWord_short (by decide) (by decide))]
  rfl

theorem handleMessage_short {s : Bytes} (h : s.length < 4) :
    (handleMessage malloc context).run s = ([], some (.failed, [])) := by
  rw [handleMessage, readMsgType, StreamReader.run_bind_of_value (readWord_short (by decide) h)]
  rfl

theorem handleMessage_msgType (v : CInt) (s : Bytes) :
    (handleMessage malloc context).run (encode 4 v ++ s) =
      StreamReader.run (if v = MsgType.done.number then pure .done
        else if v = MsgType.event.number then do
          match ← readEventType with
          | none => return .failed
          | some type =>
            handleEvent malloc context type
            return .handled
        else pure .unknown) s := by
  rw [handleMessage, StreamReader.run_bind_of_value (p := readMsgType) (readInt_accepts v s)]
  rfl

theorem handleMessage_header {type : CInt} {s u : Bytes} {es : List Call}
    (h : (handleEvent malloc context type).run s = (es, some ((), u))) :
    (handleMessage malloc context).run (header type ++ s) = (es, some (.handled, u)) := by
  rw [header, List.append_assoc, handleMessage_msgType, if_neg (by decide), if_pos rfl,
    StreamReader.run_bind_of_value (p := readEventType) (readInt_accepts type s)]
  simp only
  rw [StreamReader.run_bind_of_value h]
  simp

theorem handleMessage_complete {s t : Bytes} {e : Event} (h : Complete malloc context s e t) :
    (handleMessage malloc context).run s = (context.calls e, some (.handled, t)) := by
  obtain ⟨type, args, hv, hg, rfl, rfl⟩ := h
  exact handleMessage_header (handleEvent_accepts hv hg t)

theorem handleMessage_passes {s t : Bytes} (h : Passes malloc context s t) :
    (handleMessage malloc context).run s = ([], some (.handled, t)) := by
  cases h with
  | unknown h => exact handleMessage_header (by rw [handleEvent_unknown _ _ h]; rfl)
  | refused h => exact handleMessage_header (handleEvent_none (Layout.run_refused _ h))
  | silent h hc => rw [handleMessage_complete h, hc]

theorem handleMessage_overruns {s : Bytes} (h : Overruns malloc context s) :
    (handleMessage malloc context).run s = ([], none) := by
  obtain ⟨type, u, rfl, hu⟩ := h
  rw [header, List.append_assoc, handleMessage_msgType, if_neg (by decide), if_pos rfl,
    StreamReader.run_bind_of_value (p := readEventType) (readInt_accepts _ u)]
  simp only
  rw [StreamReader.run_bind_of_fault (handleEvent_undefined hu)]
  rfl

/-- The last message of a connection: the observer closes it, or finds nothing behind it. -/
def Last (malloc : ℕ → Bool) (context : Context) (s : Bytes) : Prop :=
  ∃ v t, (handleMessage malloc context).run s = ([], some (v, t)) ∧ (v.code < 0 ∨ t = [])

/-- What the observer does with a stream. -/
theorem message_cases (malloc : ℕ → Bool) (context : Context) (s : Bytes) :
    (∃ e t, Complete malloc context s e t) ∨ (∃ t, Passes malloc context s t) ∨
    Overruns malloc context s ∨ Last malloc context s := by
  rcases word_cases 4 s with h | ⟨v, s, rfl⟩
  · exact .inr (.inr (.inr ⟨_, _, handleMessage_short h, .inl (by decide)⟩))
  by_cases hd : v = MsgType.done.number
  · refine .inr (.inr (.inr ⟨.done, s, ?_, .inl (by decide)⟩))
    rw [handleMessage_msgType, if_pos hd, StreamReader.run_pure]
  by_cases he : v = MsgType.event.number
  · subst he
    rcases word_cases 4 s with h | ⟨type, s, rfl⟩
    · refine .inr (.inr (.inr ⟨.failed, [], ?_, .inl (by decide)⟩))
      rw [handleMessage_msgType, if_neg hd, if_pos rfl, readEventType,
        StreamReader.run_bind_of_value (readWord_short (by decide) h)]
      rfl
    rw [← List.append_assoc]
    cases ht : EventType.ofNumber type with
    | none => exact .inr (.inl ⟨s, .unknown ht⟩)
    | some type' =>
      obtain rfl := EventType.ofNumber_eq_some ht
      rcases Layout.run_cases malloc (payload context type').layout s with
        ⟨args, t, hv, hg, rfl⟩ | ⟨t, h⟩ | h | h
      · exact .inl ⟨_, t, type', args, hv, hg, rfl, rfl⟩
      · exact .inr (.inl ⟨t, .refused h⟩)
      · exact .inr (.inr (.inl ⟨type', s, rfl, h⟩))
      · exact .inr (.inr (.inr ⟨.handled, [], handleMessage_header (handleEvent_none h), .inr rfl⟩))
  · refine .inr (.inr (.inr ⟨.unknown, s, ?_, .inl (by decide)⟩))
    rw [handleMessage_msgType, if_neg hd, if_neg he, StreamReader.run_pure]

theorem Complete.length_lt {s t : Bytes} {e : Event} (h : Complete malloc context s e t) :
    t.length < s.length := by
  obtain ⟨type, args, -, -, -, rfl⟩ := h
  simp only [List.length_append, length_header]
  omega

theorem Passes.length_lt {s t : Bytes} (h : Passes malloc context s t) : t.length < s.length := by
  cases h with
  | unknown h => simp
  | refused h =>
    have := (StreamReader.run_suffix (Layout.run_refused _ h)).length_le
    simp only [List.length_append, length_header]
    omega
  | silent h => exact h.length_lt

theorem exists_longest (malloc : ℕ → Bool) (context : Context) (s : Bytes) :
    ∃ es r, Longest malloc context s es r := by
  by_cases h : ∃ e t, Complete malloc context s e t
  · obtain ⟨e, t, h⟩ := h
    obtain ⟨es, r, hl⟩ := exists_longest malloc context t
    exact ⟨e :: es, r, .message h hl⟩
  · push Not at h
    exact ⟨[], s, .stop h⟩
termination_by s.length
decreasing_by exact Complete.length_lt ‹_›

theorem serveConnection_run {s t : Bytes} {es : List Call}
    (h : (handleMessage malloc context).run s = (es, some (.handled, t))) (n : ℕ) :
    serveConnection malloc context (n + 1) s =
      (es ++ (serveConnection malloc context n t).1, (serveConnection malloc context n t).2) :=
  StreamReader.serve_keep h rfl n

/-- The callbacks of the longest sequence of well-formed messages are run first. -/
theorem Longest.serve {s r : Bytes} {es : List Event} (h : Longest malloc context s es r)
    (n : ℕ) :
    serveConnection malloc context (es.length + n) s =
      (es.flatMap context.calls ++ (serveConnection malloc context n r).1,
        (serveConnection malloc context n r).2) := by
  induction h with
  | stop => simp
  | message hc _ ih =>
    rw [List.length_cons, Nat.add_right_comm, serveConnection_run (handleMessage_complete hc), ih,
      List.flatMap_cons, List.append_assoc]

theorem Longest.length_le {s r : Bytes} {es : List Event} (h : Longest malloc context s es r) :
    es.length + r.length ≤ s.length := by
  induction h with
  | stop => simp
  | message hc _ ih =>
    have := hc.length_lt
    simp only [List.length_cons]
    omega

theorem serve_passes {r t : Bytes} (h : Relation.ReflTransGen (Passes malloc context) r t) :
    ∃ k, k + t.length ≤ r.length ∧ ∀ n,
      serveConnection malloc context (k + n) r = serveConnection malloc context n t := by
  induction h using Relation.ReflTransGen.head_induction_on with
  | refl => exact ⟨0, by simp, fun n => by rw [Nat.zero_add]⟩
  | head hp _ ih =>
    obtain ⟨k, hk, hs⟩ := ih
    refine ⟨k + 1, ?_, fun n => ?_⟩
    · have := hp.length_lt
      omega
    · rw [Nat.add_right_comm, serveConnection_run (handleMessage_passes hp), hs]
      simp

theorem Quiet.serve {r : Bytes} (h : Quiet malloc context r) {n : ℕ} (hn : r.length < n) :
    ∃ v, serveConnection malloc context n r = ([], .closed v) := by
  obtain ⟨n, rfl⟩ : ∃ m, n = m + 1 := ⟨n - 1, by omega⟩
  have hq : ∀ t, Passes malloc context r t →
      ∃ v, serveConnection malloc context (n + 1) r = ([], .closed v) := by
    intro t hp
    have hl := hp.length_lt
    obtain ⟨v, hv⟩ := Quiet.serve (r := t) (n := n) (fun u hu => h u (.head hp hu)) (by omega)
    exact ⟨v, by rw [serveConnection_run (handleMessage_passes hp), hv, List.nil_append]⟩
  rcases message_cases malloc context r with ⟨e, t, hc⟩ | ⟨t, hp⟩ | ho | ⟨v, t, hr, hv⟩
  · exact hq t (.silent hc ((h r .refl).1 e t hc))
  · exact hq t hp
  · exact absurd ho (h r .refl).2
  · by_cases hk : v.code < 0
    · exact ⟨v, StreamReader.serve_close hr (by simpa using hk) n⟩
    · obtain rfl := hv.resolve_left hk
      obtain rfl : v = .handled := by
        cases v <;> first | rfl | exact absurd (by decide) hk
      -- The stream ended inside the message, so one more call finds the end of the stream.
      have hl : r ≠ [] := by
        rintro rfl
        rw [handleMessage_nil] at hr
        simp at hr
      obtain ⟨m, rfl⟩ : ∃ m, n = m + 1 :=
        ⟨n - 1, by have := List.length_pos_iff.mpr hl; omega⟩
      refine ⟨.failed, ?_⟩
      rw [serveConnection_run hr]
      rw [serveConnection, StreamReader.serve_close handleMessage_nil (by decide)]
      rfl
termination_by r.length

theorem quiet_of_serve {r : Bytes} {n : ℕ} {v : Verdict} (hn : r.length < n)
    (h : serveConnection malloc context n r = ([], .closed v)) : Quiet malloc context r := by
  intro t ht
  obtain ⟨k, hk, hs⟩ := serve_passes ht
  obtain ⟨m, rfl⟩ : ∃ m, n = k + (m + 1) := ⟨n - k - 1, by omega⟩
  rw [hs] at h
  refine ⟨fun e u hc => ?_, fun ho => ?_⟩
  · rw [serveConnection_run (handleMessage_complete hc), Prod.mk.injEq, List.append_eq_nil_iff] at h
    exact h.1.1
  · rw [serveConnection, StreamReader.serve_fault (handleMessage_overruns ho)] at h
    simp at h

/--
The callbacks of a connection are those of its longest sequence of well-formed messages,
and it is closed behind them, exactly if what follows that sequence is quiet.
-/
theorem serveConnection_longest_iff (malloc : ℕ → Bool) (context : Context) (s : Bytes) :
    (∃ es r, Longest malloc context s es r ∧ ∀ n, s.length < n →
      ∃ v, serveConnection malloc context n s = (es.flatMap context.calls, .closed v)) ↔
    ∃ es r, Longest malloc context s es r ∧ Quiet malloc context r := by
  refine exists_congr fun es => exists_congr fun r => and_congr_right fun hl => ?_
  have hlen := hl.length_le
  constructor
  · intro h
    obtain ⟨v, hv⟩ := h (s.length + 1) (Nat.lt_succ_self _)
    obtain ⟨m, hm⟩ : ∃ m, s.length + 1 = es.length + m := ⟨s.length + 1 - es.length, by omega⟩
    rw [hm, hl.serve, Prod.mk.injEq] at hv
    refine quiet_of_serve (n := m) (v := v) (by omega) (Prod.ext ?_ hv.2)
    simpa using hv.1
  · intro hq n hn
    obtain ⟨m, rfl⟩ : ∃ m, n = es.length + m := ⟨n - es.length, by omega⟩
    obtain ⟨v, hv⟩ := hq.serve (n := m) (by omega)
    exact ⟨v, by rw [hl.serve, hv, List.append_nil]⟩

/-- A message with an unknown event type does not keep the next one from its callback. -/
theorem serveConnection_unknown_event :
    ¬ ∃ es r, Longest (fun _ => true) ⟨fun _ => ⟨0, some 7, 9⟩⟩
        (header 4 ++ header 3 ++ encode 4 5 ++ encode 4 0 ++ encode 4 12) es r ∧
      ∀ n, (header 4 ++ header 3 ++ encode 4 5 ++ encode 4 0 ++ encode 4 12).length < n →
        ∃ v, serveConnection (fun _ => true) ⟨fun _ => ⟨0, some 7, 9⟩⟩ n
          (header 4 ++ header 3 ++ encode 4 5 ++ encode 4 0 ++ encode 4 12) =
            (es.flatMap (Context.calls ⟨fun _ => ⟨0, some 7, 9⟩⟩), .closed v) := by
  rintro ⟨es, r, hl, h⟩
  have hn : ∀ e t, ¬ Complete (fun _ => true) ⟨fun _ => ⟨0, some 7, 9⟩⟩
      (header 4 ++ header 3 ++ encode 4 5 ++ encode 4 0 ++ encode 4 12) e t := by
    intro e t hc
    have hr := handleMessage_complete hc
    rw [List.append_assoc, List.append_assoc, List.append_assoc,
      handleMessage_passes (.unknown rfl)] at hr
    simp [Context.calls] at hr
  cases hl with
  | stop =>
    obtain ⟨v, hv⟩ := h 29 (by decide)
    have hc := (Prod.ext_iff.mp hv).1
    dsimp only at hc
    revert hc
    decide
  | message hc => exact hn _ _ hc

end Voyeur
