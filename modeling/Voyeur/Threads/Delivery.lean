import Voyeur.Server.Reading
import Voyeur.Threads.Progress

/-! # The events of many threads

The threads of a process share one connection for each library. In every interleaving the
callbacks of a connection are those of the real calls, in their order. When the calls are
completed and the server has read everything, none of them is missing.
-/

namespace Voyeur

namespace Threaded

open Transition (Reach)

variable {S : Setup} {pid : CInt} {host : ℕ → Bool} {preloadsClose : Bool} {vars : Variables}
  {d d' : Shared}
  {s s' : Threads.State Lib Op Shared}
  {ok : Threads.State Lib Op Shared → Threads.Event Choice ThreadCall Action → Prop}

/-- No read of the server fails. -/
def Readable (_ : Threads.State Lib Op Shared) (e : Threads.Event Choice ThreadCall Action) :
    Prop := e ≠ .env .readFails

instance (s : Threads.State Lib Op Shared) (e : Threads.Event Choice ThreadCall Action) :
    Decidable (Readable s e) := by unfold Readable; infer_instance

theorem hangUp_step (d : Shared) (own : Option Lib) :
    d.hangUp S own = d.config ∨ ∃ i, d.config.step S (.hangUp i) = some (d.hangUp S own) := by
  cases own with
  | none => exact .inl rfl
  | some l =>
    simp only [Shared.hangUp]
    cases d.conn l with
    | none => exact .inl rfl
    | some i =>
      cases hs : d.config.step S (.hangUp i) with
      | none => exact .inl (by simp [hs])
      | some c => exact .inr ⟨i, by simp [hs]⟩

theorem act_config {o : Op} {choice : Choice} {new : Code}
    (h : act S pid o choice d = some (new, d')) :
    d'.config = d.config ∨ ∃ a, a ≠ .readFails ∧ d.config.step S a = some d'.config := by
  have hang : ∀ own, d.hangUp S own = d.config ∨
      ∃ a, a ≠ .readFails ∧ d.config.step S a = some (d.hangUp S own) := fun own =>
    (hangUp_step d own).imp_right fun ⟨i, hi⟩ => ⟨_, by simp, hi⟩
  rcases act_cases h with ⟨-, -, -, rfl⟩ | ⟨-, hd⟩
  · exact .inl rfl
  cases hd with
  | real | forward => exact hang _
  | connect _ hc | piece _ _ hc => exact .inr ⟨_, by simp, hc⟩
  | ready | unconnected | noSocketVar | noPassedOn | silent | report | sent | giveUp | passOn
  | enter | noPointer | cleanup | unused | noSocket | unload | dropSocket | forget => exact .inl rfl

theorem reach_config
    (h : Reach (machine S pid).step Readable (start S host preloadsClose vars) s) :
    Reach (Config.step S) (fun _ a => a ≠ .readFails) (Config.init S host) s.data.config := by
  refine h.project (I := fun _ => True) (fun s => s.data.config) trivial ?_
  intro s e s' _ ho hs
  refine ⟨trivial, ?_⟩
  cases Threads.step_sound hs with
  | start | lock | unlock => exact .refl
  | act _ _ ha =>
    rcases act_config ha with hc | ⟨a, hn, ha⟩
    · exact hc ▸ .refl
    · exact .single hn ha
  | @env a d he =>
    obtain ⟨-, he⟩ := Option.ite_none_right_eq_some.mp he
    obtain ⟨c, hc, rfl⟩ := Option.map_eq_some_iff.mp he
    exact .single (fun hr => ho (congrArg _ hr)) hc

theorem Spoken.isPrefix {l : Lib} {i : ℕ} {es : List ClientEvent} {fin : List Message}
    (hs : Spoken S d l i es fin) (he : ∀ e ∈ d.callsOn i, e.type ≠ .exec) :
    es <+: d.callsOn i := by
  cases hc : d.callsOn i with
  | nil =>
    have ho := hs.ordered
    rw [hc, List.sublist_nil] at ho
    rw [ho]
  | cons e calls =>
    have hm : e ∈ d.callsOn i := hc ▸ List.mem_cons_self
    rw [← hc]
    refine hs.complete ?_
    rintro rfl
    exact he e hm (hs.type e hm)

/--
In every interleaving a connection holds the beginning of a sequence of whole messages: the
events of real calls in their order, of which only `posix_spawn` leaves out some, and then
perhaps the mark that the client is done.
-/
theorem messages_whole (h : Reach (machine S pid).step ok (start S host preloadsClose vars) s)
    (i : ℕ) : ∃ es fin, (fin = [] ∨ fin = [.done]) ∧ es.Sublist (s.data.callsOn i) ∧
      ((∀ e ∈ s.data.callsOn i, e.type ≠ .exec) → es <+: s.data.callsOn i) ∧
      (s.data.config.conns i).sent <+: stream S.context (es.map .event ++ fin) := by
  obtain ⟨l, es, fin, hs⟩ := (sound_of_reach h).always.spoken i
  exact ⟨es, fin, hs.mark, hs.ordered, hs.isPrefix, hs.sent⟩

/--
The callbacks of a connection are those of real calls, each once and in their order, and of
all of them up to some point if the connection is not that of `posix_spawn`.
-/
theorem callbacks_in_order (hm : ClientEvent.GrantsEvents S.malloc)
    (h : Reach (machine S pid).step Readable (start S host preloadsClose vars) s) (i : ℕ) :
    ∃ es, es.Sublist (s.data.callsOn i) ∧
      ((∀ e ∈ s.data.callsOn i, e.type ≠ .exec) → es <+: s.data.callsOn i) ∧
      s.data.config.callsOf i = S.context.callbacks es := by
  obtain ⟨-, hf⟩ := reach_follows (fun _ _ ho => ho) (reach_config h)
  obtain ⟨l, es, fin, hs⟩ := (sound_of_reach h).always.spoken i
  obtain ⟨es', left, he, hc, -, -⟩ := (hf i).delivered hm hs.sent
  have hp : es' <+: es := by
    rcases hs.mark with rfl | rfl
    · obtain ⟨rest, rfl, -⟩ := Script.split ⟨es, false⟩ (by simpa [Script.messages] using he)
      exact List.prefix_append _ _
    · obtain ⟨rest, rfl, -⟩ := Script.split ⟨es, true⟩ (by simpa [Script.messages] using he)
      exact List.prefix_append _ _
  exact ⟨es', hp.sublist.trans hs.ordered, fun ht => hp.trans (hs.isPrefix ht), hc⟩

/--
When no call is under way, a connection is untouched, or it is in use and holds the events of
all its calls, or it is given up and holds the mark that the client is done, too.
-/
theorem connection_of_idle
    (h : Reach (machine S pid).step ok (start S host preloadsClose vars) s)
    (hi : ∀ t, s.todo t = []) (i : ℕ) :
    (s.data.config.conns i).side = .absent ∨
      ∃ l es fin, Tells s.data l i es [] ∧ Wrote S s.data i (es.map .event ++ fin) [] ∧
        (s.data.conn l = some i ∧ fin = [] ∨
          (∀ k, s.data.conn k ≠ some i) ∧ fin = [.done] ∧
            (s.data.config.conns i).hungUp = true) := by
  have hs := sound_of_reach h
  by_cases hc : ∃ l, s.data.conn l = some i
  · obtain ⟨l, hc⟩ := hc
    obtain ⟨es, he⟩ := (hs.free l (hs.owner_of_idle hi l)).inUse i hc
    exact .inr ⟨l, es, [], he.tells, by simpa using he.wrote, .inl ⟨hc, rfl⟩⟩
  · rw [not_exists] at hc
    by_cases ha : (s.data.config.conns i).side = .absent
    · exact .inl ha
    · obtain ⟨l, es, he⟩ := hs.always.finished i ha hc
      exact .inr ⟨l, es, [.done], he.tells, he.wrote, .inr ⟨hc, rfl, he.hungUp⟩⟩

theorem all_handled (hm : ClientEvent.GrantsEvents S.malloc) {v : View} (hf : Follows S v)
    (hmode : v.mode = .idle) (hq : v.queue = []) {ms : List Message}
    (hs : v.sent = stream S.context ms) :
    ∃ es, ms = es.map .event ∧ v.calls = S.context.callbacks es := by
  have hp : v.sent <+: stream S.context ms := by rw [hs]
  obtain ⟨es, left, hc, rfl, hh⟩ := (hf.idle hmode).handled hm hp
  cases left with
  | nil => exact ⟨es, by simp, hc⟩
  | cons m left =>
    -- The stream would be longer.
    have hpos := bytes_length_pos S.context m
    have hl := congrArg List.length hs
    rw [stream_append, stream_cons, ← eventStream, List.length_append, List.length_append] at hl
    rcases hh with he | ⟨-, -, hlt⟩
    · rw [hq, List.append_nil] at he
      rw [he] at hl
      omega
    · have := hlt m left rfl
      omega

/--
When the calls are completed, and the server has read everything or has been told that the
client is done, the callbacks of a connection are those of all calls that report.
-/
theorem delivered_of_idle (hm : ClientEvent.GrantsEvents S.malloc)
    (h : Reach (machine S pid).step Readable (start S host preloadsClose vars) s)
    (hi : ∀ t, s.todo t = []) {i : ℕ}
    (hr : (s.data.config.view i).mode = .idle ∧ (s.data.config.conns i).queue = [] ∨
      (s.data.config.conns i).side = .closed (.message .done)) :
    ∃ l es, Tells s.data l i es [] ∧ s.data.config.callsOf i = S.context.callbacks es := by
  obtain ⟨-, hf⟩ := reach_follows (fun _ _ ho => ho) (reach_config h)
  rcases connection_of_idle h hi i with ha | ⟨l, es, fin, ht, hw, hfin⟩
  · rcases hr with ⟨hr, -⟩ | hr
    · simp [Config.view, ha, Phase.mode] at hr
    · rw [ha] at hr
      cases hr
  refine ⟨l, es, ht, ?_⟩
  rcases hr with ⟨hmode, hq⟩ | hr
  · have hsent : (s.data.config.view i).sent = stream S.context (es.map .event ++ fin) := by
      rcases hw with hw | ⟨hd, -⟩
      · rw [List.flatten_nil, List.append_nil] at hw
        exact hw
      · -- The server has not closed its end.
        refine absurd hd.2 ?_
        cases hside : (s.data.config.conns i).side with
        | accepted fd => simp [Config.linked, hside]
        | absent | queued | closed => simp [Config.view, hside, Phase.mode] at hmode
    obtain ⟨es', he, hc⟩ := all_handled hm (hf i) hmode hq hsent
    have hes : es = es' := by
      rcases hfin with ⟨-, rfl⟩ | ⟨-, rfl, -⟩
      · exact List.map_injective_iff.mpr (fun _ _ he => Message.event.inj he) (by simpa using he)
      · have hlast := congrArg List.getLast? he
        simp [List.getLast?_map] at hlast
    rw [hes]
    exact hc
  · obtain ⟨es', left, he, hc, -, hd⟩ := (hf i).delivered hm hw.sent_prefix
    obtain ⟨rest, rfl⟩ := hd (by simp only [Config.view, hr, Phase.mode])
    rcases hfin with ⟨-, rfl⟩ | ⟨-, rfl, -⟩
    · have hmem : Message.done ∈ es.map Message.event ++ [] := by rw [he]; simp
      simp at hmem
    · obtain ⟨rest', hes, hl⟩ := Script.split ⟨es, true⟩ (by simpa [Script.messages] using he)
      cases rest' with
      | nil =>
        rw [List.append_nil] at hes
        rw [show es = es' from hes]
        exact hc
      | cons e rest' => simp at hl

/-- The thread reports its call. -/
def reports (t : ℕ) : List ThreadEvent :=
  [.act t .plain, .act t (.accessible true)] ++ List.replicate 5 (.act t (.bytes 4)) ++ [.unlock t]

/-- The server accepts the first connection and reads two events of `close`. -/
def readsTwo : List Action :=
  [.select [(3, .readable)], .accept 5, .advance] ++
    (List.replicate 2 ([.select [(5, .readable)], .advance] ++ readWords 5 ++
      List.replicate 3 .advance)).flatten

/-- Two threads call `close` at the same time, and the server reads both events. -/
def twoThreads : List ThreadEvent :=
  contended ++ [.act 0 (.connect 0 7)] ++ reports 0 ++ [.lock 1, .act 1 .plain] ++ reports 1 ++
    readsTwo.map .env

def atHead : Phase → Bool
  | .head => true
  | _ => false

theorem exists_twoThreads : ∃ s, Reach (machine observer 12).step Readable
    (start observer (fun _ => false) true .all) s ∧ (∀ t, s.todo t = []) ∧
    (s.data.config.view 0).mode = .idle ∧ (s.data.config.conns 0).queue = [] ∧
    (s.data.callsOn 0).length = 2 ∧ (s.data.config.callsOf 0).length = 2 := by
  have hx : (Transition.exec (machine observer 12).step (fun s e => Readable s e ∧ OfTwo s e)
      (start observer (fun _ => false) true .all) twoThreads).any (fun s =>
        decide (s.todo 0 = [] ∧ s.todo 1 = [] ∧ (s.data.config.conns 0).queue = [] ∧
          (s.data.config.conns 0).side = .accepted 5 ∧
          (s.data.callsOn 0).length = 2 ∧ (s.data.config.callsOf 0).length = 2 ∧
          atHead s.data.config.phase = true)) = true := by
    decide +kernel
  obtain ⟨s, hr, hs⟩ := Transition.exists_reach_of_exec _ hx
  obtain ⟨h0, h1, hq, hside, hc, hl, hhead⟩ := of_decide_eq_true hs
  have hi := idle_of_two (fun _ _ ho => ho.2) hr h0 h1
  refine ⟨s, hr.mono fun _ _ ho => ho.1, hi, ?_, hq, hc, hl⟩
  cases hp : s.data.config.phase with
  | head => simp only [Config.view, hside, hp, Phase.mode]
  | scan | message | leave | stragglers | returned | undefined => simp [hp, atHead] at hhead

theorem messages_whole_twoThreads : ∃ s : Threads.State Lib Op Shared,
    (s.data.callsOn 0).length = 2 ∧
    ∃ es fin, (fin = [] ∨ fin = [.done]) ∧ es.Sublist (s.data.callsOn 0) ∧
      ((∀ e ∈ s.data.callsOn 0, e.type ≠ .exec) → es <+: s.data.callsOn 0) ∧
      (s.data.config.conns 0).sent <+: stream observer.context (es.map .event ++ fin) := by
  obtain ⟨s, hr, -, -, -, hc, -⟩ := exists_twoThreads
  exact ⟨s, hc, messages_whole hr 0⟩

theorem callbacks_in_order_twoThreads : ∃ s : Threads.State Lib Op Shared,
    (s.data.config.callsOf 0).length = 2 ∧ ∃ es, es.Sublist (s.data.callsOn 0) ∧
      ((∀ e ∈ s.data.callsOn 0, e.type ≠ .exec) → es <+: s.data.callsOn 0) ∧
      s.data.config.callsOf 0 = observer.context.callbacks es := by
  obtain ⟨s, hr, -, -, -, -, hl⟩ := exists_twoThreads
  exact ⟨s, hl, callbacks_in_order (fun _ _ => rfl) hr 0⟩

theorem delivered_of_idle_twoThreads : ∃ s : Threads.State Lib Op Shared,
    (s.data.callsOn 0).length = 2 ∧ ∃ l es, Tells s.data l 0 es [] ∧
      s.data.config.callsOf 0 = observer.context.callbacks es := by
  obtain ⟨s, hr, hi, hmode, hq, hc, -⟩ := exists_twoThreads
  exact ⟨s, hc, delivered_of_idle (fun _ _ => rfl) hr hi (.inl ⟨hmode, hq⟩)⟩

end Threaded

end Voyeur
