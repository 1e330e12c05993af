import Voyeur.Server.Loop

/-! # One connection

What a run of the server looks like from one connection: bytes arrive, messages
are read in pieces, callbacks are run. Whatever the pieces are, the callbacks are
those of `serveConnection` on all that has been sent, and on all that may follow.
-/

namespace Voyeur

open StreamReader (Status)

/-- What the server is doing with a connection. -/
inductive Mode
  | fresh
  | idle
  | handling (prog : Rd Verdict) (acc : Bytes)
  | closed (why : Cause)
  | stopped

/-- A connection as the server sees it, with the callbacks that it ran for it. -/
structure View where
  taken : Bytes
  queue : Bytes
  hungUp : Bool
  calls : List Call
  mode : Mode

def View.sent (v : View) : Bytes := v.taken ++ v.queue

/-- The bytes that may still be sent. -/
def View.Future (v : View) (X : Bytes) : Prop := v.hungUp = true → X = []

section

variable (S : Setup)

/-- The changes of a connection, in a run without failing reads. -/
inductive Moves : View → View → Prop
  | send {v : View} (bytes : Bytes) :
      v.hungUp = false → Moves v { v with queue := v.queue ++ bytes }
  | hangUp {v : View} : Moves v { v with hungUp := true }
  | accept {v : View} : v.mode = .fresh → Moves v { v with mode := .idle }
  | start {v : View} :
      v.mode = .idle → Moves v { v with mode := .handling (handleMessage S.malloc S.context) [] }
  | read {v : View} {prog : Rd Verdict} {acc : Bytes} (n : ℕ) :
      v.mode = .handling prog acc → 0 < n → n ≤ v.queue.length → acc.length + n ≤ prog.wants →
      Moves v { v with
        taken := v.taken ++ v.queue.take n
        queue := v.queue.drop n
        mode := .handling (prog.feed (acc ++ v.queue.take n)).1
          (prog.feed (acc ++ v.queue.take n)).2 }
  | readEnd {v : View} {n : ℕ} {k : Option Bytes → Rd Verdict} {acc : Bytes} :
      v.mode = .handling (.read n k) acc → acc.length < n → v.queue = [] → v.hungUp = true →
      Moves v { v with mode := .handling (k none) [] }
  | call {v : View} {call : Call} {prog : Rd Verdict} {acc : Bytes} :
      v.mode = .handling (.emit call prog) acc →
      Moves v { v with calls := v.calls ++ [call], mode := .handling prog acc }
  | next {v : View} {verdict : Verdict} {acc : Bytes} :
      v.mode = .handling (.done verdict) acc → 0 ≤ verdict.code → Moves v { v with mode := .idle }
  | finish {v : View} {verdict : Verdict} {acc : Bytes} :
      v.mode = .handling (.done verdict) acc → verdict.code < 0 →
      Moves v { v with mode := .closed (.message verdict) }
  | fault {v : View} {acc : Bytes} :
      v.mode = .handling .fault acc → Moves v { v with mode := .stopped }
  | close {v : View} (why : Cause) :
      v.mode = .idle → (∀ verdict, why ≠ .message verdict) → Moves v { v with mode := .closed why }
  | stop {v : View} : v.mode = .idle → Moves v { v with mode := .stopped }

/-- After the first `k` messages the callbacks are `calls`, and `rest` of the stream is left. -/
def ServesTo (k : ℕ) (s : Bytes) (calls : List Call) (rest : Bytes) : Prop :=
  serveConnection S.malloc S.context k s = (calls, .more rest)

/-- The callbacks are those of whole messages, behind which the stream goes on with `q`. -/
def AtBoundary (v : View) (p q : Bytes) : Prop :=
  v.sent = p ++ q ∧ ∃ k, ∀ X, v.Future X → ServesTo S k (p ++ (q ++ X)) v.calls (q ++ X)

/-- The callbacks are those of whole messages and `es`, which the message `m` has run. -/
def InMessage (v : View) (m q : Bytes) (outcome : Bytes → List Call × Option (Verdict × Bytes)) :
    Prop :=
  ∃ p calls es k, v.sent = p ++ (m ++ q) ∧ v.calls = calls ++ es ∧ ∀ X, v.Future X →
    ServesTo S k (p ++ (m ++ (q ++ X))) calls (m ++ (q ++ X)) ∧
    (handleMessage S.malloc S.context).run (m ++ (q ++ X)) =
      (es ++ (outcome (q ++ X)).1, (outcome (q ++ X)).2)

/-- How the callbacks of a connection are related to its stream. -/
def Follows (v : View) : Prop :=
  match v.mode with
  | .fresh => v.taken = [] ∧ v.calls = []
  | .idle => AtBoundary S v v.taken v.queue
  | .handling prog acc => (acc = [] ∨ acc.length < prog.wants) ∧
      ∃ m, InMessage S v m v.queue fun s => prog.run (acc ++ s)
  | .closed (.message verdict) =>
      verdict.code < 0 ∧ ∃ m, InMessage S v m v.queue fun s => ([], some (verdict, s))
  | .closed _ => AtBoundary S v v.taken v.queue
  | .stopped => AtBoundary S v v.taken v.queue ∨ ∃ m, InMessage S v m v.queue fun _ => ([], none)

end

variable {S : Setup} {v : View}

section Steps

variable {v' : View} {m m' p q q' : Bytes}
  {outcome outcome' : Bytes → List Call × Option (Verdict × Bytes)}

theorem AtBoundary.extend {bytes : Bytes} (h : AtBoundary S v p q)
    (hs : v'.sent = v.sent ++ bytes) (hc : v'.calls = v.calls)
    (hf : ∀ X, v'.Future X → v.Future (bytes ++ X)) : AtBoundary S v' p (q ++ bytes) := by
  obtain ⟨he, k, hk⟩ := h
  refine ⟨by rw [hs, he, List.append_assoc], k, fun X hX => ?_⟩
  rw [hc, List.append_assoc]
  exact hk _ (hf X hX)

theorem InMessage.extend {bytes : Bytes} (h : InMessage S v m q outcome)
    (hs : v'.sent = v.sent ++ bytes) (hc : v'.calls = v.calls)
    (hf : ∀ X, v'.Future X → v.Future (bytes ++ X)) :
    InMessage S v' m (q ++ bytes) outcome := by
  obtain ⟨p, calls, es, k, he, hce, hk⟩ := h
  refine ⟨p, calls, es, k, by rw [hs, he]; simp, hc.trans hce, fun X hX => ?_⟩
  rw [List.append_assoc]
  exact hk _ (hf X hX)

theorem InMessage.progress (h : InMessage S v m q outcome) (add : List Call)
    (hs : v'.sent = v.sent) (hf : ∀ X, v'.Future X → v.Future X) (hc : v'.calls = v.calls ++ add)
    (hq : m' ++ q' = m ++ q)
    (ho : ∀ X, v'.Future X →
      outcome (q ++ X) = (add ++ (outcome' (q' ++ X)).1, (outcome' (q' ++ X)).2)) :
    InMessage S v' m' q' outcome' := by
  obtain ⟨p, calls, es, k, he, hce, hk⟩ := h
  refine ⟨p, calls, es ++ add, k, by rw [hs, he, hq], by rw [hc, hce, List.append_assoc],
    fun X hX => ?_⟩
  obtain ⟨h1, h2⟩ := hk X (hf X hX)
  have hm : m' ++ (q' ++ X) = m ++ (q ++ X) := by
    rw [← List.append_assoc, hq, List.append_assoc]
  rw [hm]
  refine ⟨h1, h2.trans ?_⟩
  rw [ho X hX, List.append_assoc]

theorem InMessage.boundary {verdict : Verdict} (h : InMessage S v m q outcome)
    (ho : ∀ X, v.Future X → outcome (q ++ X) = ([], some (verdict, q ++ X)))
    (hv : 0 ≤ verdict.code) : ∃ p, AtBoundary S v p q := by
  obtain ⟨p, calls, es, k, he, hce, hk⟩ := h
  refine ⟨p ++ m, by rw [he, List.append_assoc], k + 1, fun X hX => ?_⟩
  obtain ⟨h1, h2⟩ := hk X hX
  rw [ho X hX, List.append_nil] at h2
  rw [ServesTo, List.append_assoc, serveConnection, StreamReader.serve_add h1,
    StreamReader.serve_keep h2 (by simpa using hv), hce]
  simp

theorem AtBoundary.start (h : AtBoundary S v p q) :
    InMessage S v [] q fun s => (handleMessage S.malloc S.context).run s := by
  obtain ⟨he, k, hk⟩ := h
  refine ⟨p, v.calls, [], k, he, (List.append_nil _).symm, fun X hX => ⟨hk X hX, rfl⟩⟩

end Steps

theorem follows_extend (h : Follows S v) (bytes : Bytes) (hungUp : Bool)
    (hf : ∀ X, (hungUp = true → X = []) → v.Future (bytes ++ X)) :
    Follows S { v with queue := v.queue ++ bytes, hungUp := hungUp } := by
  have hs : View.sent { v with queue := v.queue ++ bytes, hungUp := hungUp } = v.sent ++ bytes := by
    simp [View.sent]
  unfold Follows at h ⊢
  rcases hm : v.mode with _ | _ | ⟨prog, acc⟩ | ⟨_ | _ | _⟩ | _ <;> simp only [hm] at h ⊢
  · exact h
  · exact h.extend hs rfl hf
  · obtain ⟨ha, m, h⟩ := h
    exact ⟨ha, m, h.extend hs rfl hf⟩
  · obtain ⟨hc, m, h⟩ := h
    exact ⟨hc, m, h.extend hs rfl hf⟩
  · exact h.extend hs rfl hf
  · exact h.extend hs rfl hf
  · rcases h with h | ⟨m, h⟩
    · exact .inl (h.extend hs rfl hf)
    · exact .inr ⟨m, h.extend hs rfl hf⟩

theorem Follows.idle (h : Follows S v) (hm : v.mode = .idle) :
    AtBoundary S v v.taken v.queue := by
  simpa only [Follows, hm] using h

theorem Follows.handling {prog : Rd Verdict} {acc : Bytes} (h : Follows S v)
    (hm : v.mode = .handling prog acc) :
    (acc = [] ∨ acc.length < prog.wants) ∧
      ∃ m, InMessage S v m v.queue fun s => prog.run (acc ++ s) := by
  simpa only [Follows, hm] using h

theorem Follows.acc_eq_nil {prog : Rd Verdict} {acc : Bytes} (h : Follows S v)
    (hm : v.mode = .handling prog acc) (hw : prog.wants = 0) : acc = [] := by
  rcases (h.handling hm).1 with ha | ha
  · exact ha
  · omega

/-- What holds of the callbacks before a move holds after it. -/
theorem Moves.follows {v' : View} (hm : Moves S v v') (h : Follows S v) : Follows S v' := by
  cases hm with
  | send bytes hu => exact follows_extend h bytes _ fun X _ ht => by simp [hu] at ht
  | hangUp =>
    have he := follows_extend h [] true fun X hX _ => hX rfl
    simpa using he
  | accept hf =>
    simp only [Follows, hf] at h
    obtain ⟨ht, hc⟩ := h
    refine ⟨rfl, 0, fun X _ => ?_⟩
    simp [ServesTo, ht, hc, serveConnection]
  | start hi => exact ⟨.inl rfl, [], (h.idle hi).start⟩
  | @read prog acc n hh hn hq ha =>
    obtain ⟨-, m, h⟩ := h.handling hh
    have hl : (acc ++ v.queue.take n).length ≤ prog.wants := by
      rw [List.length_append, List.length_take]
      omega
    refine ⟨StreamReader.feed_acc hl, m ++ v.queue.take n, ?_⟩
    refine h.progress [] (by simp [View.sent]) (fun X hX => hX) (by simp) (by simp) ?_
    intro X _
    have hr := StreamReader.run_feed hl (v.queue.drop n ++ X)
    rw [hr, List.append_assoc, ← List.append_assoc (v.queue.take n), List.take_append_drop]
    simp
  | @readEnd n k acc hh ha hq hu =>
    obtain ⟨-, m, h⟩ := h.handling hh
    refine ⟨.inl rfl, m, h.progress [] rfl (fun X hX => hX) (by simp) rfl ?_⟩
    intro X hX
    obtain rfl : X = [] := hX hu
    rw [hq, List.append_nil, List.append_nil, StreamReader.run_read_of_lt ha]
    simp
  | @call call prog acc hh =>
    obtain rfl := h.acc_eq_nil hh rfl
    obtain ⟨-, m, h⟩ := h.handling hh
    exact ⟨.inl rfl, m, h.progress [call] rfl (fun X hX => hX) rfl rfl fun X _ => rfl⟩
  | @next verdict acc hh hv =>
    obtain rfl := h.acc_eq_nil hh rfl
    obtain ⟨-, m, h⟩ := h.handling hh
    obtain ⟨p, hb⟩ := h.boundary (fun X _ => rfl) hv
    obtain rfl : v.taken = p := List.append_cancel_right hb.1
    exact hb
  | @finish verdict acc hh hv =>
    obtain rfl := h.acc_eq_nil hh rfl
    obtain ⟨-, m, h⟩ := h.handling hh
    exact ⟨hv, m, h⟩
  | @fault acc hh =>
    obtain ⟨-, m, h⟩ := h.handling hh
    exact .inr ⟨m, h⟩
  | close why hi hw =>
    cases why with
    | message verdict => exact absurd rfl (hw verdict)
    | error | exit => exact h.idle hi
  | stop hi => exact .inl (h.idle hi)

end Voyeur
