import Voyeur.Server.Delivery

/-! # How far a connection was read

The bytes that the server has read from a connection tell which events it delivered:
between two messages these are the events that are complete in what was read. Each
message takes at least one event that was complete before it.
-/

namespace Voyeur

open Relation (ReflTransGen)

/-- The first `k` events of a script are complete in the first `n` bytes. -/
def Within (context : Context) (script : Script) (n k : ℕ) : Prop :=
  (eventStream context (script.events.take k)).length ≤ n

/-- Every event that is complete in `n` bytes is complete in `t` bytes. -/
def AllRead (context : Context) (script : Script) (n t : ℕ) : Prop :=
  ∀ k ≤ script.events.length, Within context script n k → Within context script t k

/-- The same with at most one exception, the last event. -/
def OneLeft (context : Context) (script : Script) (n t : ℕ) : Prop :=
  ∀ k < script.events.length, Within context script n (k + 1) → Within context script t k

section

variable {context : Context} {script : Script} {n t t' k : ℕ}

instance : Decidable (Within context script n k) := Nat.decLe _ _

instance : Decidable (AllRead context script n t) := Nat.decidableBallLE _ _

instance : Decidable (OneLeft context script n t) := Nat.decidableBallLT _ _

theorem AllRead.mono (h : AllRead context script n t) (ht : t ≤ t') :
    AllRead context script n t' := fun k hk hn => (h k hk hn).trans ht

theorem OneLeft.mono (h : OneLeft context script n t) (ht : t ≤ t') :
    OneLeft context script n t' := fun k hk hn => (h k hk hn).trans ht

theorem eventStream_length_le (context : Context) {es es' : List ClientEvent} (h : es <+: es') :
    (eventStream context es).length ≤ (eventStream context es').length := by
  obtain ⟨rest, rfl⟩ := h
  rw [eventStream_append, List.length_append]
  exact Nat.le_add_right _ _

theorem eventStream_length_lt (context : Context) (es : List ClientEvent) (e : ClientEvent) :
    (eventStream context es).length < (eventStream context (es ++ [e])).length := by
  have := bytes_length_pos context (.event e)
  simp only [eventStream_append, eventStream_cons, eventStream_nil, List.length_append,
    List.length_nil]
  omega

theorem take_cases {es rest : List ClientEvent} (h : script.events = es ++ rest) (k : ℕ) :
    script.events.take k <+: es ∨
      ∃ e rest', rest = e :: rest' ∧ es ++ [e] <+: script.events.take k := by
  rw [h]
  rcases Nat.lt_or_ge es.length k with hk | hk
  · cases rest with
    | nil => exact .inl (by simpa using List.take_prefix k es)
    | cons e rest =>
      refine .inr ⟨e, rest, rfl, ?_⟩
      obtain ⟨j, rfl⟩ : ∃ j, k = es.length + (j + 1) := ⟨k - es.length - 1, by omega⟩
      rw [List.take_length_add_append, List.take_succ_cons, List.prefix_append_right_inj]
      simp
  · rw [List.take_append_of_le_length hk]
    exact .inl (List.take_prefix k es)

end

variable {S : Setup} {v v' : View} {script : Script} {n : ℕ}

theorem AtBoundary.handled (hm : ClientEvent.GrantsEvents S.malloc) {p q : Bytes}
    (h : AtBoundary S v p q) {ms : List Message} (hs : v.sent <+: stream S.context ms) :
    ∃ es left, v.calls = S.context.callbacks es ∧ Handled S.context ms v.sent es left q := by
  obtain ⟨k, calls, hk, hc, -⟩ := h.served
  obtain ⟨es, left, rfl, hh⟩ := serve_messages hm hs hk
  exact ⟨es, left, by rw [hc, List.append_nil], hh⟩

theorem Handled.taken_lt {ms left : List Message} {es : List ClientEvent} {p q : Bytes}
    (h : Handled S.context ms (p ++ q) es left q) {e : ClientEvent} {rest : List Message}
    (hl : left = .event e :: rest) : p.length < (eventStream S.context (es ++ [e])).length := by
  have hlt := eventStream_length_lt S.context es e
  obtain ⟨-, he | ⟨-, -, ht⟩⟩ := h
  · rw [List.append_cancel_right he]
    exact hlt
  · have := ht _ _ hl
    simp only [eventStream_append, eventStream_cons, eventStream_nil, List.length_append,
      List.length_nil] at this ⊢
    omega

/-- The callbacks are those of `es`, and what was read does not reach the end of another event. -/
def Caught (S : Setup) (script : Script) (v : View) : Prop :=
  ∃ es rest, script.events = es ++ rest ∧ v.calls = S.context.callbacks es ∧
    ∀ e rest', rest = e :: rest' → v.taken.length < (eventStream S.context (es ++ [e])).length

theorem caught_of_split {es : List ClientEvent} {left : List Message}
    (h : script.messages = es.map .event ++ left) (hc : v.calls = S.context.callbacks es)
    (ht : ∀ e rest, left = .event e :: rest →
      v.taken.length < (eventStream S.context (es ++ [e])).length) : Caught S script v := by
  obtain ⟨rest, hr, hl⟩ := script.split h
  refine ⟨es, rest, hr, hc, ?_⟩
  rintro e rest' rfl
  exact ht e _ (by rw [hl, List.map_cons, List.cons_append])

theorem AtBoundary.caught (hm : ClientEvent.GrantsEvents S.malloc)
    (h : AtBoundary S v v.taken v.queue) (hs : v.sent <+: stream S.context script.messages) :
    Caught S script v := by
  obtain ⟨es, left, hc, hh⟩ := h.handled hm hs
  exact caught_of_split hh.1 hc fun e rest hl => Handled.taken_lt (h.1 ▸ hh) hl

theorem InMessage.caught (hm : ClientEvent.GrantsEvents S.malloc) {m : Bytes} {verdict : Verdict}
    (h : InMessage S v m v.queue fun s => ([], some (verdict, s)))
    (hs : v.sent <+: stream S.context script.messages) : Caught S script v := by
  obtain ⟨p, calls, add, k, he, hc, hk⟩ := h
  obtain ⟨hk, hr⟩ := hk [] fun _ => rfl
  simp only [List.append_nil] at hk hr
  have ht : v.taken = p ++ m := by
    rw [View.sent, ← List.append_assoc] at he
    exact List.append_cancel_right he
  rw [he] at hs
  obtain ⟨es, left, rfl, hsplit, hh⟩ := serve_messages hm hs hk
  have hlt : ∀ e rest, left = .event e :: rest →
      p.length < (eventStream S.context (es ++ [e])).length :=
    fun e rest hl => Handled.taken_lt ⟨hsplit, hh⟩ hl
  rcases hh with hp | ⟨hn, -⟩
  · obtain rfl := List.append_cancel_right hp
    rw [hsplit, stream_append, eventStream, List.prefix_append_right_inj] at hs
    rcases run_messages hm hs with ⟨e, left, t, rfl, hb, -, hr'⟩ | ⟨left, t, rfl, -, hr'⟩ |
      ⟨hl, hr' | ⟨w, -, hr'⟩⟩
    · -- It was an event, whose callback was run.
      rw [hr, Prod.mk.injEq, Option.some.injEq, Prod.mk.injEq] at hr'
      obtain ⟨rfl, -, rfl⟩ := hr'
      have hm' := List.append_cancel_right hb
      have hsplit' : script.messages = (es ++ [e]).map .event ++ left := by
        simp [hsplit]
      refine caught_of_split hsplit' ?_ ?_
      · rw [hc, callbacks_append, callbacks_cons]
        simp [Context.callbacks]
      · rintro e' rest -
        have h1 : v.taken = eventStream S.context (es ++ [e]) := by
          simp [ht, hm']
        rw [h1]
        exact eventStream_length_lt S.context _ _
    · rw [hr, Prod.mk.injEq] at hr'
      exact caught_of_split hsplit (by rw [hc, hr'.1, List.append_nil]) (by simp)
    · rw [hr] at hr'
      simp at hr'
    · rw [hr, Prod.mk.injEq] at hr'
      refine caught_of_split hsplit (by rw [hc, hr'.1, List.append_nil]) fun e rest hle => ?_
      have := hl _ _ hle
      rw [ht]
      simp only [eventStream_append, eventStream_cons, eventStream_nil, List.length_append,
        List.length_nil] at this ⊢
      omega
  · obtain ⟨rfl, hq⟩ := List.append_eq_nil_iff.mp hn
    rw [hq, List.append_nil, handleMessage_nil, Prod.mk.injEq] at hr
    refine caught_of_split hsplit (by rw [hc, ← hr.1, List.append_nil]) ?_
    simpa [ht] using hlt

theorem Follows.caught (hm : ClientEvent.GrantsEvents S.malloc) (h : Follows S v)
    (hs : v.sent <+: stream S.context script.messages)
    (hh : ∀ prog acc, v.mode ≠ .handling prog acc) (hst : v.mode ≠ .stopped) :
    Caught S script v := by
  unfold Follows at h
  rcases hv : v.mode with _ | _ | ⟨prog, acc⟩ | ⟨verdict | _ | _⟩ | _ <;> simp only [hv] at h
  · refine ⟨[], script.events, rfl, h.2, fun e rest' _ => ?_⟩
    have := eventStream_length_lt S.context [] e
    simpa [h.1] using this
  · exact h.caught hm hs
  · exact absurd hv (hh prog acc)
  · obtain ⟨-, m, h⟩ := h
    exact h.caught hm hs
  · exact h.caught hm hs
  · exact h.caught hm hs
  · exact absurd hv hst

/-- If everything that is due was read, then it was delivered. -/
theorem Caught.delivered (h : Caught S script v)
    (ha : AllRead S.context script n v.taken.length) {k : ℕ}
    (hk : Within S.context script n k) :
    S.context.callbacks (script.events.take k) <+: v.calls := by
  obtain ⟨es, rest, he, hc, hl⟩ := h
  have hp : script.events.take k <+: es := by
    rcases take_cases he k with hp | ⟨e, rest', rfl, hp⟩
    · exact hp
    · -- Then the next event would have been read.
      have ht : script.events.take (es.length + 1) = es ++ [e] := by
        rw [he, List.take_length_add_append, List.take_succ_cons, List.take_zero]
      have hr := ha (es.length + 1) (by simp [he]) (by
        rw [Within, ht]
        exact (eventStream_length_le S.context hp).trans hk)
      rw [Within, ht] at hr
      exact absurd (hl e rest' rfl) (Nat.not_lt.mpr hr)
  obtain ⟨more, hmore⟩ := hp
  rw [hc, ← hmore, callbacks_append]
  exact List.prefix_append _ _

/-- The message that is being read is the last one that takes an event of the first `n` bytes. -/
def Finishing (S : Setup) (script : Script) (n : ℕ) (v : View) : Prop :=
  ∃ prog acc, v.mode = .handling prog acc ∧ ∀ X, v.Future X → ∀ verdict t,
    (prog.run (acc ++ (v.queue ++ X))).2 = some (verdict, t) →
    ∀ k ≤ script.events.length, Within S.context script n k →
      (eventStream S.context (script.events.take k)).length + t.length ≤ (v.sent ++ X).length

/-- Everything that is due was read, or will be with the message that is being read. -/
def Settled (S : Setup) (script : Script) (n : ℕ) (v : View) : Prop :=
  AllRead S.context script n v.taken.length ∨ Finishing S script n v ∨ v.mode = .stopped

theorem Moves.taken_le (h : Moves S v v') : v.taken.length ≤ v'.taken.length := by
  cases h with
  | read n => simp
  | send | hangUp | accept | start | readEnd | call | next | finish | fault | close | stop =>
    exact le_rfl

theorem Moves.taken_le_of_moves (h : ReflTransGen (Moves S) v v') :
    v.taken.length ≤ v'.taken.length := by
  induction h with
  | refl => exact le_rfl
  | tail _ hm ih => exact ih.trans hm.taken_le

theorem finishing_start (hm : ClientEvent.GrantsEvents S.malloc) (h : Follows S v)
    (hs : v.sent <+: stream S.context script.messages) (hi : v.mode = .idle)
    (ho : OneLeft S.context script n v.taken.length) (hn : n ≤ v.sent.length) :
    Finishing S script n { v with mode := .handling (handleMessage S.malloc S.context) [] } := by
  refine ⟨_, _, rfl, fun X hX verdict t ht k hk hw => ?_⟩
  rw [List.nil_append] at ht
  have hb := h.idle hi
  obtain ⟨es, left, -, hsplit, hh⟩ := hb.handled hm hs
  obtain ⟨rest, he, hl⟩ := script.split hsplit
  have hsent : View.sent { v with mode := .handling (handleMessage S.malloc S.context) [] } =
      v.taken ++ v.queue := rfl
  -- What is left behind the message is an end of what was not yet read.
  have hr : (handleMessage S.malloc S.context).run (v.queue ++ X) =
      (((handleMessage S.malloc S.context).run (v.queue ++ X)).1, some (verdict, t)) :=
    Prod.ext rfl ht
  have hsuf : t.length ≤ (v.queue ++ X).length := (StreamReader.run_suffix hr).length_le
  have hlen : (v.sent ++ X).length = v.taken.length + (v.queue ++ X).length := by
    simp only [View.sent, List.length_append]
    omega
  have hend : (View.sent { v with mode := .handling (handleMessage S.malloc S.context) [] } ++
      X).length = (v.sent ++ X).length := rfl
  rw [hend]
  rcases hh with hh | ⟨hq, hp, hlt⟩
  · have htaken : v.taken = eventStream S.context es := List.append_cancel_right hh
    rcases take_cases he k with hp | ⟨e, rest', rfl, hp⟩
    · have := eventStream_length_le S.context hp
      rw [← htaken] at this
      omega
    · -- The event that is left is the next one, and it is there as a whole.
      have hle : es.length + 1 ≤ k := by
        have := hp.length_le
        simp only [List.length_append, List.length_singleton, List.length_take] at this
        omega
      obtain ⟨j, rfl⟩ : ∃ j, k = j + 1 := ⟨k - 1, by omega⟩
      have hj : j ≤ es.length := by
        rcases take_cases he j with hp' | ⟨e', rest'', hr, hp'⟩
        · have := hp'.length_le
          rw [List.length_take] at this
          omega
        · have h1 := (eventStream_length_le S.context hp').trans (ho j (by omega) hw)
          rw [htaken] at h1
          exact absurd h1 (Nat.not_le.mpr (eventStream_length_lt S.context es e'))
      obtain rfl : j = es.length := by omega
      have htk : script.events.take (es.length + 1) = es ++ [e] := by
        rw [he, List.take_length_add_append, List.take_succ_cons, List.take_zero]
      rw [Within, htk] at hw
      rw [htk]
      have hbytes : eventStream S.context (es ++ [e]) =
          eventStream S.context es ++ (Message.event e).bytes S.context.clientOpts := by
        simp
      rw [hbytes, List.length_append] at hw ⊢
      have hql : ((Message.event e).bytes S.context.clientOpts).length ≤ v.queue.length := by
        rw [hh, List.length_append] at hn
        omega
      rw [hh, hsplit, stream_append, eventStream, List.prefix_append_right_inj, hl, List.map_cons,
        List.cons_append, stream_cons] at hs
      obtain ⟨q, hq⟩ := List.prefix_of_prefix_length_le (List.prefix_append _ _) hs hql
      rw [← hq, List.append_assoc, handleMessage_complete (complete_event hm e _)] at ht
      simp only [Option.some.injEq, Prod.mk.injEq] at ht
      rw [hlen, htaken, ← hq, ← ht.2]
      simp only [List.length_append]
      omega
  · rcases take_cases he k with hp' | ⟨e, rest', rfl, hp'⟩
    · have h1 := eventStream_length_le S.context hp'
      have h2 := hp.length_le
      rw [View.sent, hq, List.append_nil] at h2
      omega
    · have h1 := (eventStream_length_le S.context hp').trans (hw.trans hn)
      have h2 := hlt _ _ hl
      simp only [eventStream_append, eventStream_cons, eventStream_nil, List.length_append,
        List.length_nil] at h1
      omega

theorem Moves.settled (h : Moves S v v') (hs : Settled S script n v) : Settled S script n v' := by
  rcases hs with ha | ⟨prog, acc, hv, hl⟩ | hv
  · exact .inl (ha.mono h.taken_le)
  · cases h with
    | send bytes hu =>
      refine .inr (.inl ⟨prog, acc, hv, fun X _ verdict t ht k hk hw => ?_⟩)
      have := hl (bytes ++ X) (fun hu' => by simp [hu] at hu') verdict t (by simpa using ht) k hk hw
      simpa [View.sent] using this
    | hangUp =>
      exact .inr (.inl ⟨prog, acc, hv, fun X hX => hl X fun _ => hX rfl⟩)
    | @read prog' acc' m hh h0 hq hw =>
      rw [hv, Mode.handling.injEq] at hh
      obtain ⟨rfl, rfl⟩ := hh
      refine .inr (.inl ⟨_, _, rfl, fun X hX verdict t ht k hk hw' => ?_⟩)
      have hacc : (acc ++ v.queue.take m).length ≤ prog.wants := by
        rw [List.length_append, List.length_take]
        omega
      rw [StreamReader.run_feed hacc, List.append_assoc, ← List.append_assoc (v.queue.take m),
        List.take_append_drop] at ht
      have := hl X hX verdict t ht k hk hw'
      simpa [View.sent] using this
    | @readEnd m k acc' hh ha hq hu =>
      rw [hv, Mode.handling.injEq] at hh
      obtain ⟨rfl, rfl⟩ := hh
      refine .inr (.inl ⟨_, _, rfl, fun X hX verdict t ht j hj hw => ?_⟩)
      refine hl X hX verdict t ?_ j hj hw
      obtain rfl : X = [] := hX hu
      rw [hq, List.append_nil, List.append_nil] at ht ⊢
      rw [StreamReader.run_read_of_lt ha]
      exact ht
    | @call c prog' acc' hh =>
      rw [hv, Mode.handling.injEq] at hh
      obtain ⟨rfl, rfl⟩ := hh
      exact .inr (.inl ⟨_, _, rfl, hl⟩)
    | @next verdict acc' hh _ | @finish verdict acc' hh _ =>
      rw [hv, Mode.handling.injEq] at hh
      obtain ⟨rfl, rfl⟩ := hh
      refine .inl fun k hk hw => ?_
      have := hl [] (fun _ => rfl) verdict _ rfl k hk hw
      simp only [View.sent, List.append_nil, List.length_append] at this
      exact Nat.le_of_add_le_add_right (this.trans' (by omega))
    | fault hh => exact .inr (.inr rfl)
    | accept hi | start hi | close why hi | stop hi =>
      rw [hv] at hi
      cases hi
  · cases h with
    | send | hangUp => exact .inr (.inr hv)
    | accept hi | start hi | read n hi | readEnd hi | call hi | next hi | finish hi | fault hi
    | close why hi | stop hi =>
      rw [hv] at hi
      cases hi

theorem Settled.moves (h : Settled S script n v) (hm : ReflTransGen (Moves S) v v') :
    Settled S script n v' := by
  induction hm with
  | refl => exact h
  | tail _ hm ih => exact hm.settled ih

end Voyeur
