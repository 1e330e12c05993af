import Mathlib.Tactic.IntervalCases
import Voyeur.Threads.Verified

/-! # The calls of all threads end

There is no deadlock between the mutexes of the libraries, and no call takes for ever: in
every state of every interleaving the calls that are under way can go on, and they end
after finitely many steps if no new ones begin. A send may be split, may fail and may be
made again a finite number of times; what is left out is a send that waits for space. The
process does not crash if `LIBVOYEUR_SOCKET` is set, and `close` has been looked up or is not
finalized.
-/

namespace Voyeur

namespace Threaded

open Transition (Reach)
open Threads (Instr codeCost)

/-- The threads before the first call. -/
def start (S : Setup) (host : ℕ → Bool) (preloadsClose : Bool) (vars : Variables) :
    Threads.State Lib Op Shared := .init (.init S host preloadsClose vars)

variable {S : Setup} {pid : CInt} {host : ℕ → Bool} {preloadsClose : Bool} {vars : Variables}
  {s s' : Threads.State Lib Op Shared}
  {ok : Threads.State Lib Op Shared → Threads.Event Choice ThreadCall Action → Prop}

theorem always_init (S : Setup) (host : ℕ → Bool) (preloadsClose : Bool) (vars : Variables) :
    Always S (.init S host preloadsClose vars) where
  wellFormed := init_wellFormed S host
  single hi := by cases hi
  made hi := by cases hi
  untouched _ _ := ⟨rfl, rfl⟩
  spoken _ := ⟨.open_, [], [], .refl [], fun _ => List.nil_prefix, fun _ he => (by cases he),
    .inl rfl, List.nil_prefix⟩
  finished _ hi := absurd rfl hi

theorem resource_init (S : Setup) (host : ℕ → Bool) (preloadsClose : Bool) (vars : Variables)
    (l : Lib) : Resource S l (.init S host preloadsClose vars) :=
  ⟨fun _ => rfl, fun _ hi => by cases hi⟩

/-- Every interleaving keeps to the protocol. -/
theorem sound_of_reach (h : Reach (machine S pid).step ok (start S host preloadsClose vars) s) :
    (protocol S pid).Sound s :=
  Threads.Protocol.sound_of_reach (fun call d _ => call_verified call d)
    (always_init S host preloadsClose vars) (resource_init S host preloadsClose vars) h

/--
The static variables and the sockets of a library are used only by the owner of its mutex,
and by no other thread at the same time.
-/
theorem race_free (h : Reach (machine S pid).step ok (start S host preloadsClose vars) s)
    {t : ℕ} {o : Op} {rest : Code} (ht : s.todo t = .act o :: rest) {l : Lib} (ho : o.Uses l) :
    s.owner l = some t ∧
      ∀ u o' rest', s.todo u = .act o' :: rest' → o'.Uses l → u = t := by
  have hs := sound_of_reach h
  refine ⟨(hs.exclusive ht ht ho ho).2, fun u o' rest' hu ho' => ?_⟩
  exact (hs.exclusive hu ht ho' ho).1

/-- What it takes at most to send the buffers. -/
def sendCost (bufs : List Bytes) : ℕ := 1 + bufs.flatten.length + bufs.length

/-- What it takes at most to report an event. -/
def reportCost (S : Setup) (e : ClientEvent) : ℕ :=
  1 + sendCost (sends (e.write (S.context.clientOpts e.type) true)) +
    sendCost (sends (e.write (S.context.clientOpts e.type) false))

def cost (S : Setup) : Op → ℕ
  | .initialize_ _ | .real _ _ _ | .forward _ _ | .dropSocket _ | .forget _ => 1
  | .report _ e => reportCost S e
  | .send _ bufs => sendCost bufs
  | .check _ e => 5 + reportCost S e
  | .unload _ => 70 + sendCost (sends [writeMsgType .done])
  | .cleanup _ => 71 + sendCost (sends [writeMsgType .done])

theorem codeCost_sending (l : Lib) (bufs : List Bytes) :
    codeCost (cost S) (sending l bufs) ≤ sendCost bufs := by
  unfold sending
  split
  · exact Nat.zero_le _
  · simp [codeCost, Instr.cost, cost]

theorem sendCost_close (options : Byte) (answer : Bool) (fildes retval pid : CInt) :
    sendCost (sends ((ClientEvent.close fildes retval pid).write options answer)) ≤ 26 := by
  have hf : (sends ((ClientEvent.close fildes retval pid).write options answer)).flatten.length =
      20 := by
    rw [flatten_sends]
    simp [ClientEvent.write, ClientEvent.message, ClientEvent.fields, closeFields, wire,
      writeMsgType, writeEventType, writeInt, writePid, writeWord]
  have hl : (sends ((ClientEvent.close fildes retval pid).write options answer)).length ≤ 5 := by
    refine (List.length_filter_le _ _).trans ?_
    simp [ClientEvent.write, ClientEvent.message, ClientEvent.fields, closeFields,
      writeMsgType, writeEventType, writeInt, writePid, writeWord]
  unfold sendCost
  omega

theorem reportCost_close (fildes retval pid : CInt) :
    reportCost S (.close fildes retval pid) ≤ 53 := by
  have h := fun answer => sendCost_close
    (S.context.clientOpts (ClientEvent.close fildes retval pid).type) answer fildes retval pid
  have ht := h true
  have hf := h false
  unfold reportCost
  omega

/-- Every operation costs more than what it leaves to do. -/
theorem machine_bounded (S : Setup) (pid : CInt) : (machine S pid).Bounded (cost S) := by
  intro o choice d code d' h hagain hstopped
  have hn : choice ≠ .again := of_decide_eq_false hagain
  obtain ⟨hc, -⟩ | ⟨-, hd⟩ := act_cases h
  · exact absurd hc hn
  have hcrash : d.crash.crashed ≠ false := by simp [Shared.crash]
  cases hd with
  | ready | connect | unconnected | real | forward | dropSocket | forget => exact Nat.one_pos
  | noSocketVar | noPassedOn | noPointer => exact absurd hstopped hcrash
  | silent =>
    simp only [Threads.codeCost_nil, cost, reportCost]
    omega
  | @report l e answer =>
    refine (codeCost_sending l _).trans_lt ?_
    cases answer <;> simp only [cost, reportCost] <;> omega
  | sent => simp [cost, sendCost]
  | @piece l b bufs n i c h0 hn hc =>
    refine (codeCost_sending l _).trans_lt ?_
    have := afterSend_lt h0 hn bufs
    simp only [cost, sendCost]
    omega
  | @giveUp l b bufs =>
    refine (codeCost_sending l _).trans_lt ?_
    simp only [cost, sendCost, List.flatten_cons, List.length_append, List.length_cons]
    omega
  | passOn =>
    simp only [Threads.codeCost_cons, Threads.codeCost_nil, Instr.cost, cost, reportCost]
    omega
  | enter =>
    simp only [section_, Threads.codeCost_cons, Threads.codeCost_nil, Instr.cost, cost]
    omega
  | cleanup =>
    simp only [Threads.codeCost_cons, Threads.codeCost_nil, Instr.cost, cost]
    omega
  | unused =>
    simp only [Threads.codeCost_nil, cost]
    omega
  | noSocket =>
    simp only [Threads.codeCost_cons, Threads.codeCost_nil, Instr.cost, cost]
    omega
  | @unload l fildes value =>
    have h1 := codeCost_sending (S := S) l (sends [writeMsgType .done])
    have h2 := reportCost_close (S := S) fildes value pid
    simp only [Threads.codeCost_append, Threads.codeCost_cons, Threads.codeCost_nil,
      Instr.cost, cost] at h1 ⊢
    omega

/-- No call that is under way meets a variable or a pointer that is missing. -/
structure Safe (s : Threads.State Lib Op Shared) : Prop where
  alive : s.data.crashed = false
  vars : s.data.vars = .all
  close : s.data.closeNext = true ∨
    s.data.finalized = false ∧ ∀ t, .act (.cleanup .close) ∉ s.todo t

/-- A call of `close` is only passed on when the library is finalized. -/
def PassesFinalized (s : Threads.State Lib Op Shared) : Prop :=
  ∀ t own e, .act (.forward own e) ∈ s.todo t → s.data.finalized = true

/-- What an operation can do to the variables that decide about crashes. -/
structure Effect (d : Shared) (o : Op) (new : Code) (d' : Shared) : Prop where
  vars : d'.vars = d.vars
  closeNext : d.closeNext = true → d'.closeNext = true
  finalized : d.finalized = true → d'.finalized = true
  finalizes : o ≠ .cleanup .close → d'.finalized = d.finalized
  crashes : d'.crashed = true → d.crashed = true ∨ d.vars ≠ .all ∨
    ∃ own e, o = .forward own e ∧ d.closeNext = false
  cleanup : .act (.cleanup .close) ∉ new
  forward : ∀ own e, .act (.forward own e) ∈ new →
    d.finalized = true ∨ o = .forward own e

theorem not_mem_sending {x : Instr Lib Op} (hx : ∀ l bufs, x ≠ .act (.send l bufs)) (l : Lib)
    (bufs : List Bytes) : x ∉ sending l bufs := by
  unfold sending
  split
  · simp
  · exact fun h => hx l bufs (List.mem_singleton.mp h)

theorem Does.effect {d d' : Shared} {o : Op} {new : Code} (h : Does S pid d o new d') :
    Effect d o new d' := by
  have hsend : ∀ l bufs, Instr.act (.cleanup .close) ∉ sending l bufs ∧
      ∀ own e, Instr.act (.forward own e) ∉ sending l bufs := fun l bufs =>
    ⟨not_mem_sending (by simp) l bufs, fun own e => not_mem_sending (by simp) l bufs⟩
  cases h with
  | ready | real | silent | sent | forward | unused | dropSocket | forget =>
    exact ⟨rfl, id, id, fun _ => rfl, .inl, by simp, by simp⟩
  | connect | unconnected =>
    exact ⟨rfl, fun hn => by simp [Shared.setUp, hn], id, fun _ => rfl, .inl, by simp, by simp⟩
  | noSocketVar hv =>
    refine ⟨rfl, id, id, fun _ => rfl, fun _ => .inr (.inl fun ha => ?_), by simp, by simp⟩
    rw [ha] at hv
    cases hv
  | noPassedOn hv =>
    refine ⟨rfl, id, id, fun _ => rfl, fun _ => .inr (.inl fun ha => ?_), by simp, by simp⟩
    rw [ha] at hv
    cases hv
  | report | giveUp =>
    exact ⟨rfl, id, id, fun _ => rfl, .inl, (hsend _ _).1,
      fun own e hm => absurd hm ((hsend _ _).2 own e)⟩
  | piece =>
    exact ⟨rfl, id, id, fun _ => rfl, .inl, (hsend _ _).1,
      fun own e hm => absurd hm ((hsend _ _).2 own e)⟩
  | passOn hf => exact ⟨rfl, id, id, fun _ => rfl, .inl, by simp, fun _ _ _ => .inl hf⟩
  | enter => exact ⟨rfl, id, id, fun _ => rfl, .inl, by simp [section_], by simp [section_]⟩
  | @noPointer own e hn =>
    refine ⟨rfl, id, id, fun _ => rfl, fun _ => .inr (.inr ⟨own, e, rfl, hn⟩), by simp, ?_⟩
    intro own' e' hm
    simp only [List.mem_singleton, Instr.act.injEq] at hm
    exact .inr hm.symm
  | @cleanup l =>
    refine ⟨rfl, id, fun hf => by simp [hf], fun hl => ?_, .inl, by simp, by simp⟩
    have hl' : l ≠ .close := fun h => hl (h ▸ rfl)
    simp [hl']
  | noSocket => exact ⟨rfl, id, id, fun _ => rfl, .inl, by simp, by simp⟩
  | unload =>
    refine ⟨rfl, id, id, fun _ => rfl, .inl, ?_, fun own e hm => ?_⟩
    · simpa using (hsend _ _).1
    · simp [(hsend _ _).2 own e] at hm

theorem effect_of_act {d d' : Shared} {o : Op} {choice : Choice} {new : Code}
    (h : act S pid o choice d = some (new, d')) : Effect d o new d' := by
  rcases act_cases h with ⟨-, ⟨l, bufs, rfl⟩, rfl, rfl⟩ | ⟨-, hd⟩
  · exact ⟨rfl, id, id, fun _ => rfl, .inl, by simp, by simp⟩
  · exact hd.effect

theorem forward_not_mem_code (call : ThreadCall) (own : Option Lib) (e : ClientEvent) :
    .act (.forward own e) ∉ call.code := by
  cases call with
  | call l e' => cases l <;> simp [ThreadCall.code, section_]
  | destructor l => simp [ThreadCall.code]

theorem mem_update {x : Instr Lib Op} {t u : ℕ} {code : Code}
    (h : x ∈ Function.update s.todo t code u) : x ∈ s.todo u ∨ u = t ∧ x ∈ code := by
  by_cases hu : u = t
  · subst hu
    exact .inr ⟨rfl, by simpa using h⟩
  · exact .inl (by simpa [hu] using h)

theorem PassesFinalized.step {e : Threads.Event Choice ThreadCall Action}
    (h : PassesFinalized s) (hs : Threads.Step (machine S pid) s e s') : PassesFinalized s' := by
  intro u own e hm
  have hrest : ∀ {t i rest}, s.todo t = i :: rest →
      .act (.forward own e) ∈ Function.update s.todo t rest u → s.data.finalized = true := by
    intro t i rest ht hm
    rcases mem_update hm with hm | ⟨-, hm⟩
    · exact h u own e hm
    · exact h t own e (ht ▸ List.mem_cons_of_mem i hm)
  cases hs with
  | @start t call =>
    rcases mem_update hm with hm | ⟨-, hm⟩
    · exact h u own e hm
    · exact absurd hm (forward_not_mem_code call own e)
  | lock _ ht => exact hrest ht hm
  | unlock _ ht => exact hrest ht hm
  | @act t choice o rest code d _ ht ha =>
    have he := effect_of_act ha
    refine he.finalized ?_
    rcases mem_update hm with hm | ⟨-, hm⟩
    · exact h u own e hm
    · rcases List.mem_append.mp hm with hm | hm
      · rcases he.forward own e hm with hf | rfl
        · exact hf
        · exact h t own e (ht ▸ List.mem_cons_self)
      · exact h t own e (ht ▸ List.mem_cons_of_mem _ hm)
  | env he =>
    obtain ⟨-, he⟩ := Option.ite_none_right_eq_some.mp he
    obtain ⟨c, -, rfl⟩ := Option.map_eq_some_iff.mp he
    exact h u own e hm

theorem passesFinalized_of_reach
    (h : Reach (machine S pid).step ok (start S host preloadsClose vars) s) :
    PassesFinalized s :=
  h.invariant (fun _ _ _ hm => by cases hm) fun _ _ _ hi _ hs => hi.step (Threads.step_sound hs)

/-- A step of a call does not make the process crash, and later steps will not do it either. -/
theorem Safe.step {e : Threads.Event Choice ThreadCall Action} (h : Safe s)
    (hp : PassesFinalized s) (he : e.OfCall) (hs : Threads.Step (machine S pid) s e s') :
    Safe s' := by
  have hrest : ∀ {t i rest}, s.todo t = i :: rest → (∀ u, .act (.cleanup .close) ∉ s.todo u) →
      ∀ u, .act (.cleanup .close) ∉ Function.update s.todo t rest u := by
    intro t i rest ht hn u hm
    rcases mem_update hm with hm | ⟨-, hm⟩
    · exact hn u hm
    · exact hn t (ht ▸ List.mem_cons_of_mem i hm)
  cases hs with
  | start | env => exact he.elim
  | lock _ ht => exact ⟨h.alive, h.vars, h.close.imp_right (.imp_right (hrest ht))⟩
  | unlock _ ht => exact ⟨h.alive, h.vars, h.close.imp_right (.imp_right (hrest ht))⟩
  | @act t choice o rest code d _ ht ha =>
    have hf := effect_of_act ha
    refine ⟨Bool.eq_false_iff.mpr fun hc => ?_, hf.vars.trans h.vars, ?_⟩
    · rcases hf.crashes hc with hc | hv | ⟨own, e, rfl, hn⟩
      · exact Bool.false_ne_true (h.alive.symm.trans hc)
      · exact hv h.vars
      · -- The pointer is there, or the library is not finalized and nothing is passed on.
        rcases h.close with hn' | ⟨hfin, -⟩
        · exact Bool.false_ne_true (hn.symm.trans hn')
        · have := hp t own e (ht ▸ List.mem_cons_self)
          exact Bool.false_ne_true (hfin.symm.trans this)
    · rcases h.close with hn | ⟨hfin, hn⟩
      · exact .inl (hf.closeNext hn)
      · have ho : o ≠ .cleanup .close := fun ho => hn t (ht ▸ ho ▸ List.mem_cons_self)
        refine .inr ⟨(hf.finalizes ho).trans hfin, fun u hm => ?_⟩
        rcases mem_update hm with hm | ⟨-, hm⟩
        · exact hn u hm
        · rcases List.mem_append.mp hm with hm | hm
          · exact hf.cleanup hm
          · exact hn t (ht ▸ List.mem_cons_of_mem _ hm)

/-- As long as a call is under way in a process that has not crashed, a thread can go on. -/
theorem deadlock_free (h : Reach (machine S pid).step ok (start S host preloadsClose vars) s)
    (hc : s.data.crashed = false) (hn : ∃ t, s.todo t ≠ []) :
    ∃ (e : Threads.Event Choice ThreadCall Action) (s' : Threads.State Lib Op Shared),
      e.OfCall ∧ (machine S pid).step s e = some s' := by
  have hidle : ¬ s.Idle := fun hi => hn.elim fun t ht => ht (hi t)
  obtain ⟨e, s', he, -, hs⟩ := (sound_of_reach h).progress hc hidle
  exact ⟨e, s', he, hs⟩

/--
From every safe state of every interleaving all calls that are under way can be completed
without a crash. They cannot take for ever if no new ones begin and only finitely many sends
are made again.
-/
theorem calls_end (h : Reach (machine S pid).step ok (start S host preloadsClose vars) s) :
    (Safe s → ∃ s', Reach (machine S pid).step (fun _ e => e.OfCall) s s' ∧
        (∀ t, s'.todo t = []) ∧ s'.data.crashed = false) ∧
      ∀ (f : ℕ → Threads.State Lib Op Shared)
        (e : ℕ → Threads.Event Choice ThreadCall Action), f 0 = s →
        {k | (machine S pid).Repeats (e k)}.Finite →
        ¬ ∀ k, (e k).OfCall ∧ (machine S pid).step (f k) (e k) = some (f (k + 1)) := by
  obtain ⟨n, hn⟩ := Threads.below_of_reach h
  refine ⟨fun hsafe => ?_, fun f e hf hr => ?_⟩
  · obtain ⟨s', hs', hi, -, -, hsafe'⟩ := Threads.completes (machine_bounded S pid)
      (I := fun s => (protocol S pid).Sound s ∧ PassesFinalized s ∧ Safe s)
      (fun s e s' hs he h => ⟨hs.1.step (fun call d _ => call_verified call d) h,
        hs.2.1.step h, hs.2.2.step hs.2.1 he h⟩)
      (fun s hs => hs.2.2.alive) (fun s hs hn => hs.1.progress hs.2.2.alive hn) hn
      ⟨sound_of_reach h, passesFinalized_of_reach h, hsafe⟩
    exact ⟨s', hs', hi, hsafe'.alive⟩
  · exact Threads.no_infinite_run (machine_bounded S pid) hn f e hf hr

abbrev ThreadEvent := Threads.Event Choice ThreadCall Action

def closing (fildes : CInt) : ThreadCall := .call .close ⟨.close fildes 0 12, rfl⟩

/-- Both threads have passed the check, and one has the mutex. -/
def contended : List ThreadEvent :=
  [.start 0 (closing 5), .start 1 (closing 6), .act 0 .plain, .act 1 .plain, .lock 0]

/-- Only the first two threads make calls. -/
def OfTwo (_ : Threads.State Lib Op Shared) : ThreadEvent → Prop
  | .start t _ => t < 2
  | .lock _ | .unlock _ | .act _ _ | .env _ => True

instance (s : Threads.State Lib Op Shared) (e : ThreadEvent) : Decidable (OfTwo s e) := by
  cases e <;> unfold OfTwo <;> infer_instance

theorem below_of_two (ho : ∀ s e, ok s e → OfTwo s e)
    (h : Reach (machine S pid).step ok (start S host preloadsClose vars) s) : s.Below 2 := by
  refine h.invariant (I := fun s => s.Below 2) (fun _ _ => rfl) fun s e s' hn hok hs => ?_
  refine (Threads.step_sound hs).below hn ?_
  rintro t call rfl
  exact ho _ _ hok

theorem idle_of_two (ho : ∀ s e, ok s e → OfTwo s e)
    (h : Reach (machine S pid).step ok (start S host preloadsClose vars) s)
    (h0 : s.todo 0 = []) (h1 : s.todo 1 = []) (t : ℕ) : s.todo t = [] := by
  rcases Nat.lt_or_ge t 2 with ht | ht
  · interval_cases t
    · exact h0
    · exact h1
  · exact below_of_two ho h t ht

theorem exists_contended : ∃ s, Reach (machine observer 12).step (fun _ _ => True)
    (start observer (fun _ => false) true .all) s ∧
    (s.todo 0).head? = some (.act (.initialize_ .close)) ∧
    (s.todo 1).head? = some (.lock .close) ∧ Safe s := by
  have hx : (Transition.exec (machine observer 12).step OfTwo
      (start observer (fun _ => false) true .all) contended).any (fun s =>
        decide ((s.todo 0).head? = some (.act (.initialize_ .close)) ∧
          (s.todo 1).head? = some (.lock .close) ∧ .act (.cleanup .close) ∉ s.todo 0 ++ s.todo 1 ∧
          s.data.crashed = false ∧ s.data.vars = .all ∧ s.data.finalized = false)) =
        true := by
    decide +kernel
  obtain ⟨s, hr, hs⟩ := Transition.exists_reach_of_exec _ hx
  obtain ⟨h0, h1, hn, hc, hv, hf⟩ := of_decide_eq_true hs
  refine ⟨s, hr.mono fun _ _ _ => trivial, h0, h1, hc, hv, .inr ⟨hf, fun t hm => ?_⟩⟩
  rcases Nat.lt_or_ge t 2 with ht | ht
  · interval_cases t
    · exact hn (List.mem_append_left _ hm)
    · exact hn (List.mem_append_right _ hm)
  · rw [below_of_two (fun _ _ ho => ho) hr t ht] at hm
    cases hm

theorem race_free_contended : ∃ s : Threads.State Lib Op Shared,
    (s.todo 0).head? = some (.act (.initialize_ .close)) ∧
    (s.todo 1).head? = some (.lock .close) ∧ s.owner .close = some 0 := by
  obtain ⟨s, hr, h0, h1, -⟩ := exists_contended
  obtain ⟨rest, hrest⟩ := List.head?_eq_some_iff.mp h0
  exact ⟨s, h0, h1, (race_free hr hrest rfl).1⟩

theorem deadlock_free_contended : ∃ s : Threads.State Lib Op Shared,
    (s.todo 1).head? = some (.lock .close) ∧
    ∃ (e : ThreadEvent) (s' : Threads.State Lib Op Shared),
      e.OfCall ∧ (machine observer 12).step s e = some s' := by
  obtain ⟨s, hr, -, h1, hsafe⟩ := exists_contended
  exact ⟨s, h1, deadlock_free hr hsafe.alive ⟨1, fun hn => by simp [hn] at h1⟩⟩

theorem calls_end_contended : ∃ s : Threads.State Lib Op Shared,
    (s.todo 1).head? = some (.lock .close) ∧
    ∃ s', Reach (machine observer 12).step (fun _ e => e.OfCall) s s' ∧
      (∀ t, s'.todo t = []) ∧ s'.data.crashed = false := by
  obtain ⟨s, hr, -, h1, hsafe⟩ := exists_contended
  exact ⟨s, h1, (calls_end hr).1 hsafe⟩

end Threaded

end Voyeur
