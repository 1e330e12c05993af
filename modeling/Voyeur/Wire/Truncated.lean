import Voyeur.Wire.Messages

/-! # Events that break off

An event that breaks off at any byte leaves its handler without a field, so that its
callback is not run. The stream has ended by then, and the next call of
`handle_message`, if not this one, fails.
-/

namespace Voyeur

section

variable {malloc : ℕ → Bool} {context : Context}

theorem StopsAt.append {Stop : Size → Prop} {slots : Buffer} {n i : ℕ} {s t : Bytes}
    (h : StopsAt Stop malloc slots n i s t) (s' : Bytes) :
    StopsAt Stop malloc slots n i (s ++ s') (t ++ s') := by
  obtain ⟨l, len, hn, hg, hf, hs, rfl⟩ := h
  exact ⟨l, len, hn, hg, hf, hs, by simp only [List.append_assoc]⟩

theorem ArrayUndefined.append {s : Bytes} (h : ArrayUndefined malloc s) (s' : Bytes) :
    ArrayUndefined malloc (s ++ s') := by
  obtain ⟨c, u, rfl, h⟩ := h
  refine ⟨c, u ++ s', List.append_assoc _ _ _, ?_⟩
  rcases h with h | ⟨hg, h | ⟨b, t, hb, rfl⟩⟩ | ⟨t, h⟩
  · exact .inl h
  · exact .inr (.inl ⟨hg, .inl h⟩)
  · exact .inr (.inl ⟨hg, .inr ⟨b, t ++ s', hb, List.append_assoc _ _ _⟩⟩)
  · exact .inr (.inr ⟨t ++ s', h.append s'⟩)

theorem Layout.Undefined.append {β : Type} {f : Layout β} {s : Bytes}
    (h : f.Undefined malloc s) (s' : Bytes) : f.Undefined malloc (s ++ s') := by
  induction f generalizing s with
  | word => exact h.elim
  | string =>
    obtain ⟨len, t, hu, rfl⟩ := h
    exact ⟨len, t ++ s', hu, List.append_assoc _ _ _⟩
  | array => exact ArrayUndefined.append h s'
  | opt asked f ih => exact ⟨h.1, ih h.2⟩
  | pair f g ihf ihg =>
    rcases h with h | ⟨b, u, hv, hg, rfl, h⟩
    · exact .inl (ihf h)
    · exact .inr ⟨b, u ++ s', hv, hg, List.append_assoc _ _ _, ihg h⟩

theorem Overruns.append {s : Bytes} (h : Overruns malloc context s) (s' : Bytes) :
    Overruns malloc context (s ++ s') := by
  obtain ⟨type, u, rfl, hu⟩ := h
  exact ⟨type, u ++ s', List.append_assoc _ _ _, hu.append s'⟩

theorem overruns_of_fault {s : Bytes} {calls : List Call}
    (h : (handleMessage malloc context).run s = (calls, none)) : Overruns malloc context s := by
  rcases message_cases malloc context s with ⟨e, t, hc⟩ | ⟨t, hp⟩ | ho | ⟨v, t, hr, -⟩
  · simp [handleMessage_complete hc] at h
  · simp [handleMessage_passes hp] at h
  · exact ho
  · simp [hr] at h

end

variable {malloc : ℕ → Bool} {context : Context}

theorem Complete.truncated {s s' t : Bytes} {e : Event}
    (h : Complete malloc context (s ++ s') e t) (hl : t.length < s'.length) :
    ∃ v, (handleMessage malloc context).run s = ([], some (v, [])) := by
  rcases handleMessage_truncated h hl with hf | hr
  · have ho := (overruns_of_fault hf).append s'
    have hc := handleMessage_complete h
    rw [handleMessage_overruns ho] at hc
    simp at hc
  · exact hr

theorem exists_run_prefix (hm : ClientEvent.GrantsEvents malloc) {e : ClientEvent} {s : Bytes}
    (hs : s <+: (Message.event e).bytes context.clientOpts)
    (hl : s ≠ (Message.event e).bytes context.clientOpts) :
    ∃ v, (handleMessage malloc context).run s = ([], some (v, [])) := by
  obtain ⟨s', hs'⟩ := hs
  have hc : Complete malloc context ((Message.event e).bytes context.clientOpts ++ [])
      (e.received (context.opts e.type)) [] := complete_event hm e []
  rw [List.append_nil, ← hs'] at hc
  have hn : s' ≠ [] := by
    rintro rfl
    rw [List.append_nil] at hs'
    exact hl hs'
  exact hc.truncated (List.length_pos_iff.mpr hn)

theorem serve_eventStream (hm : ClientEvent.GrantsEvents malloc) (es : List ClientEvent)
    (s : Bytes) (n : ℕ) :
    serveConnection malloc context (es.length + n) (eventStream context es ++ s) =
      (context.callbacks es ++ (serveConnection malloc context n s).1,
        (serveConnection malloc context n s).2) := by
  induction es with
  | nil => simp [Context.callbacks]
  | cons e es ih =>
    have hc : Complete malloc context ((Message.event e).bytes context.clientOpts ++
        (eventStream context es ++ s)) (e.received (context.opts e.type)) _ :=
      complete_event hm e _
    have hr := handleMessage_complete hc
    rw [List.length_cons, Nat.add_right_comm, eventStream_cons, List.append_assoc,
      serveConnection_run hr, ih, callbacks_cons, List.append_assoc]

theorem serve_of_run {s : Bytes} {v : Verdict}
    (h : (handleMessage malloc context).run s = ([], some (v, []))) (n : ℕ) :
    ∃ v', v'.code = -1 ∧ serveConnection malloc context (n + 2) s = ([], .closed v') := by
  by_cases hv : v = .handled
  · subst hv
    refine ⟨.failed, rfl, ?_⟩
    rw [serveConnection_run h, serveConnection,
      StreamReader.serve_close handleMessage_nil (by decide)]
    rfl
  · have hc : v.code = -1 := by
      cases v with
      | handled => exact absurd rfl hv
      | done | unknown | failed => rfl
    exact ⟨v, hc, StreamReader.serve_close h (by rw [hc]; decide) _⟩

/--
Behind complete events, an event that breaks off at any byte runs no callback. The connection
is closed by a call that returns -1, the one that read the event or the next one.
-/
theorem serve_truncated (hm : ClientEvent.GrantsEvents malloc) (context : Context)
    (es : List ClientEvent) (e : ClientEvent) {s : Bytes}
    (hs : s <+: (Message.event e).bytes context.clientOpts)
    (hl : s ≠ (Message.event e).bytes context.clientOpts) {n : ℕ} (hn : es.length + 2 ≤ n) :
    ∃ v, v.code = -1 ∧ serveConnection malloc context n (eventStream context es ++ s) =
      (context.callbacks es, .closed v) := by
  obtain ⟨m, rfl⟩ : ∃ m, n = es.length + (m + 2) := ⟨n - es.length - 2, by omega⟩
  obtain ⟨v, hr⟩ := exists_run_prefix hm hs hl
  obtain ⟨v', hc, hv⟩ := serve_of_run hr m
  refine ⟨v', hc, ?_⟩
  rw [serve_eventStream hm, hv, List.append_nil]

/-- A `close` event behind an `exit` event breaks off inside of its second number. -/
theorem serve_truncated_close :
    ∃ v, v.code = -1 ∧ serveConnection (fun _ => true) ⟨fun _ => ⟨0, some 7, 9⟩⟩ 3
      (eventStream ⟨fun _ => ⟨0, some 7, 9⟩⟩ [.exit 1 12 11] ++
        ((Message.event (.close 3 0 12)).bytes
          (Context.clientOpts ⟨fun _ => ⟨0, some 7, 9⟩⟩)).take 14) =
      (Context.callbacks ⟨fun _ => ⟨0, some 7, 9⟩⟩ [.exit 1 12 11], .closed v) :=
  serve_truncated (fun _ _ => rfl) ⟨fun _ => ⟨0, some 7, 9⟩⟩ [.exit 1 12 11] (.close 3 0 12)
    (List.take_prefix _ _) (by decide) (by decide)

end Voyeur
