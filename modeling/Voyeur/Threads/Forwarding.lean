import Voyeur.Threads.Delivery

/-! # `close` after its destructor

When the destructor of `close` has begun and the calls that were under way then have ended,
every later call of `close` in any thread is only passed on: no event is written for it,
and the library never connects again. If `close` was called before its destructor, so that
its pointer is there, and no variable is missing, none of these calls makes the process crash.
-/

namespace Voyeur

namespace Threaded

open Transition (Reach)
open Threads (Instr)

/-- The instruction does not belong to a call of `close` that reports. -/
def Quiet : Instr Lib Op → Prop
  | .act (.initialize_ l) => l ≠ .close
  | .act (.real l _ e) => l ≠ .close ∧ e.type = l.type
  | _ => True

def QuietCode (code : Code) : Prop := ∀ x ∈ code, Quiet x

/-- The variables are set, and `voyeur_close_next` points to the real function. -/
structure Equipped (d : Shared) : Prop where
  alive : d.crashed = false
  vars : d.vars = .all
  closeNext : d.closeNext = true

variable {S : Setup} {pid : CInt} {d d' : Shared} {s s' : Threads.State Lib Op Shared}
  {ok : Threads.State Lib Op Shared → Threads.Event Choice ThreadCall Action → Prop}

theorem QuietCode.append {code code' : Code} (h : QuietCode code) (h' : QuietCode code') :
    QuietCode (code ++ code') := fun x hx => (List.mem_append.mp hx).elim (h x) (h' x)

theorem quiet_call (call : ThreadCall) : QuietCode call.code := by
  cases call with
  | call l e =>
    obtain ⟨e, he⟩ := e
    cases l with
    | close => simp [QuietCode, ThreadCall.code, Quiet]
    | open_ | posixSpawn => simp [QuietCode, ThreadCall.code, section_, Quiet, he]
  | destructor l => simp [QuietCode, ThreadCall.code, Quiet]

theorem quiet_sending (l : Lib) (bufs : List Bytes) : QuietCode (sending l bufs) := by
  unfold sending
  split <;> simp [QuietCode, Quiet]

/-- What has happened since the state `d`. -/
structure OnlyForwards (d d' : Shared) : Prop where
  finalized : d'.finalized = true
  conn : ∀ i, d'.conn .close = some i → d.conn .close = some i
  calls : ∃ new, d'.calls = d.calls ++ new ∧ ∀ c ∈ new, c.event.type = .close → c.conn = none

theorem OnlyForwards.refl (h : d.finalized = true) : OnlyForwards d d :=
  ⟨h, fun _ => id, [], by simp, by simp⟩

theorem OnlyForwards.trans {d₀ : Shared} (h : OnlyForwards d₀ d) (h' : OnlyForwards d d') :
    OnlyForwards d₀ d' := by
  obtain ⟨new, hn, hc⟩ := h.calls
  obtain ⟨new', hn', hc'⟩ := h'.calls
  refine ⟨h'.finalized, fun i hi => h.conn i (h'.conn i hi), new ++ new', ?_, fun c hm => ?_⟩
  · rw [hn', hn, List.append_assoc]
  · exact (List.mem_append.mp hm).elim (hc c) (hc' c)

theorem OnlyForwards.setUp {l : Lib} {sock : Option Socket} {c : Config}
    (hf : d.finalized = true) (hl : l ≠ .close) :
    OnlyForwards d { d.setUp l sock with config := c } := by
  have hst : (d.setUp l sock).statics .close = d.statics .close := setStatics_of_ne _ hl.symm
  have hconn : ({ d.setUp l sock with config := c } : Shared).conn .close = d.conn .close :=
    congrArg (fun st : Statics => st.sock.bind Socket.conn) hst
  exact ⟨hf, fun i hi => hconn ▸ hi, [], by simp [Shared.setUp, Shared.setStatics], by simp⟩

theorem OnlyForwards.setStatics {l : Lib} {st : Statics} (hf : d.finalized = true)
    (h : l = .close → ∀ i, st.sock.bind Socket.conn = some i → d.conn .close = some i) :
    OnlyForwards d (d.setStatics l st) := by
  refine ⟨hf, fun i hi => ?_, [], by simp [Shared.setStatics], by simp⟩
  by_cases hl : l = .close
  · subst hl
    exact h rfl i (by simpa [Shared.conn, Shared.setStatics] using hi)
  · rwa [Shared.conn, show Shared.statics _ .close = d.statics .close from
      setStatics_of_ne st (Ne.symm hl)] at hi

theorem Does.quiet {o : Op} {new : Code} (hq : Quiet (.act o)) (hf : d.finalized = true)
    (h : Does S pid d o new d') : QuietCode new ∧ OnlyForwards d d' := by
  have hnil : QuietCode [] := fun x hx => by cases hx
  have hsame : ∀ d', d'.finalized = true → (∀ i, d'.conn .close = some i → d.conn .close = some i) →
      d'.calls = d.calls → OnlyForwards d d' := fun d' h1 h2 h3 =>
    ⟨h1, h2, [], by rw [h3, List.append_nil], by simp⟩
  cases h with
  | ready | silent | sent | unused => exact ⟨hnil, .refl hf⟩
  | @connect l i fd c =>
    have hl : l ≠ .close := hq
    exact ⟨hnil, .setUp hf hl⟩
  | @unconnected l sock =>
    have hl : l ≠ .close := hq
    exact ⟨hnil, .setUp hf hl⟩
  | noSocketVar | noPassedOn =>
    exact ⟨by simpa [QuietCode] using hq, hsame _ hf (fun _ => id) rfl⟩
  | @real l own e =>
    obtain ⟨hl, he⟩ := hq
    refine ⟨hnil, hf, fun _ => id, [_], rfl, fun c hc ht => ?_⟩
    rw [List.mem_singleton.mp hc] at ht
    cases l <;> first | exact absurd rfl hl | exact absurd (he.symm.trans ht) (by decide)
  | forward =>
    refine ⟨hnil, hf, fun _ => id, [_], rfl, fun c hc _ => ?_⟩
    rw [List.mem_singleton.mp hc]
  | report | giveUp => exact ⟨quiet_sending _ _, .refl hf⟩
  | piece => exact ⟨quiet_sending _ _, hsame _ hf (fun _ => id) rfl⟩
  | passOn => exact ⟨by simp [QuietCode, Quiet], .refl hf⟩
  | enter hf' =>
    rw [hf] at hf'
    cases hf'
  | noPointer => exact ⟨by simp [QuietCode, Quiet], hsame _ hf (fun _ => id) rfl⟩
  | cleanup => exact ⟨by simp [QuietCode, Quiet], hsame _ (by simp [hf]) (fun _ => id) rfl⟩
  | noSocket => exact ⟨by simp [QuietCode, Quiet], .refl hf⟩
  | unload => exact ⟨(quiet_sending _ _).append (by simp [QuietCode, Quiet]), .refl hf⟩
  | dropSocket => exact ⟨hnil, .setStatics hf fun _ i hi => by cases hi⟩
  | forget =>
    refine ⟨hnil, .setStatics hf ?_⟩
    rintro rfl i hi
    exact hi

theorem act_quiet {o : Op} {choice : Choice} {new : Code} (hq : Quiet (.act o))
    (hf : d.finalized = true) (h : act S pid o choice d = some (new, d')) :
    QuietCode new ∧ OnlyForwards d d' := by
  rcases act_cases h with ⟨-, -, rfl, rfl⟩ | ⟨-, hd⟩
  · exact ⟨by simpa [QuietCode] using hq, .refl hf⟩
  · exact hd.quiet hq hf

theorem step_quiet (hq : ∀ t, QuietCode (s.todo t)) (hf : s.data.finalized = true)
    {e : Threads.Event Choice ThreadCall Action} (h : Threads.Step (machine S pid) s e s') :
    (∀ t, QuietCode (s'.todo t)) ∧ OnlyForwards s.data s'.data := by
  have hupdate : ∀ t code, QuietCode code → ∀ u, QuietCode (Function.update s.todo t code u) := by
    intro t code hc u
    by_cases hu : u = t
    · subst hu
      simpa using hc
    · simpa [hu] using hq u
  have htail : ∀ {t i rest}, s.todo t = i :: rest → QuietCode rest := fun ht x hx =>
    hq _ x (ht ▸ List.mem_cons_of_mem _ hx)
  cases h with
  | @start t call => exact ⟨hupdate t _ (quiet_call call), .refl hf⟩
  | @lock t l rest _ ht => exact ⟨hupdate t _ (htail ht), .refl hf⟩
  | @unlock t l rest _ ht => exact ⟨hupdate t _ (htail ht), .refl hf⟩
  | @act t choice o rest code d _ ht ha =>
    obtain ⟨hc, ho⟩ := act_quiet (hq t _ (ht ▸ List.mem_cons_self)) hf ha
    exact ⟨hupdate t _ (hc.append (htail ht)), ho⟩
  | env he =>
    obtain ⟨-, he⟩ := Option.ite_none_right_eq_some.mp he
    obtain ⟨c, -, rfl⟩ := Option.map_eq_some_iff.mp he
    exact ⟨hq, hf, fun _ => id, [], by simp, by simp⟩

/-- In a process with the variables and the pointer no step leads to a crash. -/
theorem Equipped.step {e : Threads.Event Choice ThreadCall Action}
    (h : Equipped s.data) (hs : Threads.Step (machine S pid) s e s') : Equipped s'.data := by
  cases hs with
  | start | lock | unlock => exact h
  | @act t choice o rest code d _ ht ha =>
    have hf := effect_of_act ha
    refine ⟨Bool.eq_false_iff.mpr fun hc => ?_, hf.vars.trans h.vars,
      hf.closeNext h.closeNext⟩
    rcases hf.crashes hc with hc | hv | ⟨own, e, -, hn⟩
    · exact Bool.false_ne_true (h.alive.symm.trans hc)
    · exact hv h.vars
    · exact Bool.false_ne_true (hn.symm.trans h.closeNext)
  | env he =>
    obtain ⟨-, he⟩ := Option.ite_none_right_eq_some.mp he
    obtain ⟨c, -, rfl⟩ := Option.map_eq_some_iff.mp he
    exact ⟨h.alive, h.vars, h.closeNext⟩

/--
From a state on in which the destructor of `close` has begun and no call is under way, no
interleaving reports a call of `close` or connects its library. If the variables are
set and `close` was called before its destructor, no call makes the process crash.
-/
theorem close_only_forwards (hf : s.data.finalized = true) (hi : ∀ t, s.todo t = [])
    (h : Reach (machine S pid).step ok s s') :
    (∃ new, s'.data.calls = s.data.calls ++ new ∧
        ∀ c ∈ new, c.event.type = .close → c.conn = none) ∧
      (∀ i, s'.data.conn .close = some i → s.data.conn .close = some i) ∧
      (Equipped s.data → s'.data.crashed = false) := by
  have hq : ∀ t, QuietCode (s.todo t) := fun t x hx => by
    rw [hi t] at hx
    cases hx
  have hr := h.invariant
    (I := fun u => (∀ t, QuietCode (u.todo t)) ∧ OnlyForwards s.data u.data) ⟨hq, .refl hf⟩ ?_
  · refine ⟨hr.2.calls, hr.2.conn, fun he => ?_⟩
    exact (h.invariant (I := fun u => Equipped u.data) he
      fun _ _ _ hu _ hs => hu.step (Threads.step_sound hs)).alive
  · rintro u e u' ⟨hq, ho⟩ - hs
    obtain ⟨hq', ho'⟩ := step_quiet hq ho.finalized (Threads.step_sound hs)
    exact ⟨hq', ho.trans ho'⟩

/-- A thread calls `close`, and then the destructor runs in it. -/
def unloading : List ThreadEvent :=
  [.start 0 (closing 5), .act 0 .plain, .lock 0, .act 0 (.connect 0 7)] ++ reports 0 ++
    [.start 0 (.destructor .close), .lock 0, .act 0 .plain, .act 0 (.retval 0),
      .act 0 (.bytes 4), .act 0 .plain, .act 0 .plain, .act 0 .plain, .act 0 .plain, .unlock 0]

/-- Another thread calls `close`. -/
def closingAgain : List ThreadEvent := [.start 1 (closing 6), .act 1 .plain, .act 1 .plain]

theorem exists_unloaded : ∃ s, Reach (machine observer 12).step OfTwo
    (start observer (fun _ => false) true .all) s ∧ (∀ t, s.todo t = []) ∧
    s.data.finalized = true ∧ Equipped s.data ∧
    ∃ s', Reach (machine observer 12).step OfTwo s s' ∧
      s'.data.calls.length = s.data.calls.length + 1 := by
  have hx : (Transition.exec (machine observer 12).step OfTwo
      (start observer (fun _ => false) true .all) unloading).any (fun s =>
        decide (s.todo 0 = [] ∧ s.todo 1 = [] ∧ s.data.finalized = true ∧
          s.data.crashed = false ∧ s.data.vars = .all ∧ s.data.closeNext = true) &&
        (Transition.exec (machine observer 12).step OfTwo s closingAgain).any fun s' =>
          decide (s'.data.calls.length = s.data.calls.length + 1)) = true := by
    decide +kernel
  obtain ⟨s, hr, hs⟩ := Transition.exists_reach_of_exec _ hx
  obtain ⟨hs, hx'⟩ := Bool.and_eq_true_iff.mp hs
  obtain ⟨h0, h1, hf, hc, hv, hn⟩ := of_decide_eq_true hs
  obtain ⟨s', hr', hl⟩ := Transition.exists_reach_of_exec _ hx'
  have hi := idle_of_two (fun _ _ ho => ho) hr h0 h1
  exact ⟨s, hr, hi, hf, ⟨hc, hv, hn⟩, s', hr', of_decide_eq_true hl⟩

theorem close_only_forwards_unloaded : ∃ s s' : Threads.State Lib Op Shared,
    Reach (machine observer 12).step OfTwo (start observer (fun _ => false) true .all) s ∧
    s'.data.calls.length = s.data.calls.length + 1 ∧
    (∃ new, s'.data.calls = s.data.calls ++ new ∧
        ∀ c ∈ new, c.event.type = .close → c.conn = none) ∧
      (∀ i, s'.data.conn .close = some i → s.data.conn .close = some i) ∧
      s'.data.crashed = false := by
  obtain ⟨s, hr, hi, hf, he, s', hr', hl⟩ := exists_unloaded
  obtain ⟨hcalls, hconn, hcrash⟩ := close_only_forwards hf hi hr'
  exact ⟨s, s', hr, hl, hcalls, hconn, hcrash he⟩

end Threaded

end Voyeur
