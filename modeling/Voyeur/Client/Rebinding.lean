import Voyeur.Client.Runs

/-! # Numbers that are bound again

A library keeps the number of its socket, but the application may close that number, and
the system gives the lowest free number to the next descriptor. If that is a socket, the
events of the library go there. Nothing else can misdirect them: they reach the
library's own connection as long as no socket gets a number that a library still has.
-/

namespace Voyeur

open Program (From)
open Transition (Reach)

variable {w t : World} {l : Lib} {fd n : ℤ} {L : Preloaded}

/-- No library has the number in its variable. -/
def World.Fresh (w : World) (n : ℕ) : Prop := ∀ l, w.Cached l → (w.libs l).sock ≠ n

instance (w : World) (n : ℕ) : Decidable (w.Fresh n) := by
  unfold World.Fresh; infer_instance

/-- If `close` is called now and has to connect first, it gets a number of which this holds. -/
def ClosesFresh (L : Preloaded) (w : World) : Prop :=
  L.close = true → (w.libs .close).finalized = false → (w.libs .close).initialized = false →
    w.connects = true → w.Fresh w.free

instance (L : Preloaded) (w : World) : Decidable (ClosesFresh L w) := by
  unfold ClosesFresh; infer_instance

/--
No socket that is made during the call gets a number that a library has in its variable. The
connection for one event may: it is closed before anything else is sent.
-/
def Separate (L : Preloaded) (w : World) (d : Deal) : Prop :=
  match d with
  | .socket => w.answers.socket = true → w.Fresh w.free
  | .close _ => ClosesFresh L w
  | .cleanup l => L.has l = true → l ≠ .close → w.Cached l → ClosesFresh L w
  | d =>
      (∀ l, d.enters L = some l → (w.libs l).initialized = false → w.connects = true →
        w.Fresh w.free) ∧
      (d.single L w = true → w.connects = true → ClosesFresh L (w.allocate .file))

instance (L : Preloaded) (w : World) (d : Deal) : Decidable (Separate L w d) :=
  match d with
  | .open_ _ _ _ | .close _ | .socket | .setenv _ | .posixSpawn _ _ _ _ | .exec _ | .exit _ |
      .cleanup _ | .fork _ _ => by
    unfold Separate
    infer_instance

/-- Everything that was sent went to the connection that it was meant for. -/
def Delivered (w : World) : Prop := ∀ s ∈ w.sent, s.target = .connection s.own

/--
So far everything has reached its connection, and will: what a library has in its variable is the
number of its connection, or of nothing, or of a file. The number `fd` is about to be closed.
-/
structure OnTarget (fd : ℤ) (w : World) : Prop where
  sent : Delivered w
  target : ∀ l, w.Cached l → (w.libs l).sock ≠ fd → ∀ x, w.target (w.libs l).sock = some x →
    x = .file ∨ x = .connection (w.own l)

namespace OnTarget

theorem weaken (h : OnTarget (-1) w) (fd : ℤ) : OnTarget fd w := by
  refine ⟨h.sent, fun l hc _ => h.target l hc ?_⟩
  have hs := hc.2
  omega

theorem congr (h : OnTarget fd w) (ht : t.table = w.table) (hl : t.libs = w.libs)
    (ho : t.own = w.own) (hs : Delivered t) : OnTarget fd t := by
  refine ⟨hs, fun l hc => ?_⟩
  unfold World.Cached at hc
  rw [hl] at hc ⊢
  rw [World.target_congr ht, ho]
  exact h.target l hc

theorem same (h : OnTarget fd w) (hs : SameSockets w t) : OnTarget fd t := by
  apply h.congr hs.table hs.libs hs.own
  unfold Delivered
  rw [hs.sent]
  exact h.sent

theorem sends {own : ℕ} {bytes : Bytes} {last b : Bool} (h : OnTarget fd w)
    (hs : Sends own n bytes last w b t)
    (hn : ∀ x, w.target n = some x → x = .file ∨ x = .connection own) : OnTarget fd t := by
  apply h.congr hs.table_eq hs.libs_eq hs.own_eq
  cases hs with
  | nothing _ | failed _ => exact h.sent
  | socket ht => rcases hn _ ht with hx | hx <;> cases hx
  | @connection i ht _ =>
    intro s hm
    rcases List.mem_append.mp hm with hm | hm
    · exact h.sent s hm
    · rcases hn _ ht with hx | hx
      · cases hx
      · rw [List.mem_singleton.mp hm]
        exact hx

theorem allocate (h : OnTarget fd w) (x : Target) (hx : x = .file ∨ w.Fresh w.free) :
    OnTarget fd (w.allocate x) := by
  refine ⟨h.sent, fun l hc hn y hy => ?_⟩
  rw [World.target_allocate] at hy
  split at hy
  · next hf =>
    obtain rfl : x = y := by simpa using hy
    exact hx.elim .inl fun hx => absurd hf (hx l hc)
  · exact h.target l hc hn y hy

theorem connect (h : OnTarget fd w) (type : EventType) (opts : Byte)
    (hf : ∀ l, w.Cached l → (w.libs l).sock ≠ fd → (w.libs l).sock ≠ w.free) :
    OnTarget fd (w.connect type opts) := by
  refine ⟨h.sent, fun l hc hn y hy => ?_⟩
  have hy' : (w.allocate (.connection w.opened)).target (w.libs l).sock = some y := hy
  rw [World.target_allocate, if_neg (hf l hc hn)] at hy'
  exact h.target l hc hn y hy'

theorem initializes (h : OnTarget fd w) (hi : Initializes l w t)
    (hf : (w.libs l).initialized = false → w.connects = true → w.Fresh w.free) :
    OnTarget fd t := by
  cases hi with
  | skip _ => exact h
  | connected hn hw =>
    have hc := h.connect l.type (clientOptions w.vars l.type) fun l' hc _ => hf hn hw l' hc
    refine ⟨hc.sent, fun l' hc' hn' y hy => ?_⟩
    by_cases hl : l' = l
    · subst hl
      rw [World.withSocket_self] at hy
      rw [World.withSocket_own_self]
      have hy' : (w.allocate (.connection w.opened)).target w.free = some y := hy
      rw [World.target_allocate, if_pos rfl] at hy'
      exact .inr (by simpa using hy'.symm)
    · unfold World.Cached at hc'
      rw [World.withSocket_of_ne hl] at hc' hn' hy
      rw [World.withSocket_own_of_ne hl]
      exact hc.target l' hc' hn' y hy
  | failed _ _ =>
    refine ⟨h.sent, fun l' hc' hn' y hy => ?_⟩
    by_cases hl : l' = l
    · subst hl
      have hs := hc'.2
      rw [World.withSocket_self] at hs
      exact absurd hs (show ¬ (0 : ℤ) ≤ -1 by decide)
    · unfold World.Cached at hc'
      rw [World.withSocket_of_ne hl] at hc' hn' hy
      rw [World.withSocket_own_of_ne hl]
      exact h.target l' hc' hn' y hy

theorem realCloses {retval : CInt} (h : OnTarget fd w) (hc : RealCloses fd w retval t) :
    OnTarget (-1) t := by
  constructor
  · unfold Delivered
    rw [hc.sent_eq]
    exact h.sent
  · intro l hl _ x hx
    unfold World.Cached at hl
    rw [hc.libs_eq] at hl hx
    rw [hc.own_eq]
    rw [hc.target] at hx
    split at hx
    · cases hx
    · next hn => exact h.target l hl hn x hx

theorem reported {e : ClientEvent} {b : Bool} (h : OnTarget (-1) w)
    (hi : (w.libs l).initialized = true) (hr : Reports l e w b t) : OnTarget (-1) t := by
  cases hr with
  | skip _ => exact h
  | sends hs hr => exact h.sends hr (h.target l ⟨hi, hs⟩ (by omega))

theorem recorded (h : OnTarget fd w) (r : CloseRecord) : OnTarget fd (w.recorded r) :=
  h.congr rfl rfl rfl h.sent

theorem setLib (h : OnTarget fd w) (l : Lib) (lib : Library)
    (hl : lib.initialized = true → 0 ≤ lib.sock →
      (w.libs l).initialized = true ∧ lib.sock = (w.libs l).sock) :
    OnTarget fd (w.setLib l lib) := by
  refine ⟨h.sent, fun l' hc hn x hx => ?_⟩
  unfold World.Cached at hc
  by_cases he : l' = l
  · subst he
    rw [World.setLib_self] at hc hn hx
    obtain ⟨hi, hs⟩ := hl hc.1 hc.2
    rw [hs] at hc hn hx
    exact h.target l' ⟨hi, hc.2⟩ hn x hx
  · rw [World.setLib_of_ne he] at hc hn hx
    exact h.target l' hc hn x hx

theorem forget (h : OnTarget fd w) (l : Lib) : OnTarget fd (w.forget l) :=
  h.setLib l _ fun hi _ => by cases hi

theorem dropSocket (h : OnTarget fd w) (l : Lib) : OnTarget fd (w.dropSocket l) :=
  h.setLib l _ fun _ hs => absurd hs (show ¬ (0 : ℤ) ≤ -1 by decide)

theorem finalize (h : OnTarget fd w) : OnTarget fd w.finalize :=
  h.setLib .close _ fun hi _ => ⟨hi, rfl⟩

end OnTarget

theorem OnTarget.forked (h : OnTarget fd w) (child : CInt) (held : List Lib) :
    OnTarget fd (w.forked child held) := ⟨h.sent, h.target⟩

theorem kept_onTarget : Kept Delivered (OnTarget (-1)) where
  stop _ h := h.sent
  same _ _ h hs := h.same hs
  file _ h := h.allocate .file (.inl rfl)
  report _ _ _ _ _ h hi _ _ hr := h.reported hi hr

/-- The number `fd` can be closed. -/
structure Closable (L : Preloaded) (fd : ℤ) (w : World) : Prop where
  onTarget : OnTarget fd w
  fresh : ClosesFresh L w

theorem ClosesFresh.congr (h : ClosesFresh L w) (ht : t.table = w.table) (hl : t.libs = w.libs)
    (hc : t.connects = w.connects) : ClosesFresh L t := by
  unfold ClosesFresh World.Fresh World.Cached World.free
  rw [ht, hl, hc]
  exact h

theorem Closable.sends {own : ℕ} {bytes : Bytes} {last b : Bool}
    (h : Closable L n w ∧ w.target n = some (.connection own))
    (hs : Sends own n bytes last w b t) :
    Closable L n t ∧ t.target n = some (.connection own) := by
  obtain ⟨⟨ho, hf⟩, ht⟩ := h
  have ho' : OnTarget n t := by
    apply ho.sends hs
    intro x hx
    rw [ht] at hx
    exact .inr (by simpa using hx.symm)
  refine ⟨⟨ho', hf.congr hs.table_eq hs.libs_eq hs.connects_eq⟩, ?_⟩
  rw [World.target_congr hs.table_eq]
  exact ht

theorem Closable.weaken (h : Closable L (-1) w) : Closable L fd w := ⟨h.onTarget.weaken fd, h.fresh⟩

theorem Closable.closes {caller : Caller} (h : Closable L fd w) (hc : Closes L caller fd w t) :
    Closable L (-1) t := by
  cases hc with
  | plain hL hr =>
    refine ⟨h.onTarget.realCloses hr, fun hL' => ?_⟩
    rw [hL] at hL'
    cases hL'
  | forwarded _ hf hr =>
    refine ⟨(h.onTarget.realCloses hr).recorded _, fun _ hf' => ?_⟩
    rw [← hr.libs_eq] at hf
    exact absurd (hf'.symm.trans hf) Bool.false_ne_true
  | @reported _ _ t₁ t₂ t₃ hL hf hi hr he =>
    have h₁ := h.onTarget.initializes hi (h.fresh hL hf)
    have h₂ := h₁.realCloses hr
    have hi₂ : (t₂.libs .close).initialized = true := by
      rw [hr.libs_eq]
      exact hi.initialized
    have hi₃ : (t₃.libs .close).initialized = true := by rwa [he.libs_eq]
    refine ⟨(h₂.reported hi₂ he).recorded _, fun _ _ hn => ?_⟩
    exact absurd (hn.symm.trans hi₃) Bool.false_ne_true

namespace Observed

theorem from_closable (h : Closable L fd w) (caller : Caller) :
    From (fun _ => Delivered) w (anyClose L caller fd) fun _ => Closable L (-1) := by
  have hs := h.onTarget.sent
  exact (from_anyClose_of hs hs caller fd).conseq fun _ _ hc => h.closes hc

/-- The connection for one event may get a number that a library still has. -/
theorem from_single_onTarget (h : OnTarget (-1) w)
    (hf : w.connects = true → ClosesFresh L (w.allocate .file)) (type : EventType) (opts : Byte)
    (x : Writing) :
    From (fun _ => Delivered) w (oneConnection L type opts x) fun _ => OnTarget (-1) := by
  apply from_oneConnection
    (C := fun t => Closable L w.free t ∧ t.target w.free = some (.connection w.opened))
    (K := Closable L w.free) (D := Closable L (-1)) (fun _ => h.sent) (fun _ _ => h)
  · intro hc
    refine ⟨⟨(h.weaken w.free).connect _ _ fun l _ hn => hn, hf hc⟩, ?_⟩
    exact World.target_allocate_self (w := w) (.connection w.opened)
  · intro b t t' hc hs
    exact Closable.sends hc hs
  · intro _ t hc
    exact hc.1.onTarget.sent
  · intro b t t' hc hs
    exact (Closable.sends hc hs).1
  · intro t hc
    exact from_closable hc .library
  · intro t hc
    exact hc.weaken
  · intro t hc
    exact hc.onTarget

theorem from_unload_onTarget (h : OnTarget (-1) w) (hf : w.Cached l → ClosesFresh L w) :
    From (fun _ => Delivered) w (unload L l) fun _ => OnTarget (-1) := by
  apply from_unload (C := Closable L (w.libs l).sock) (D := Closable L (-1))
  · intro b t hc hs
    have ho : OnTarget (-1) t := by
      apply h.sends hs
      exact h.target l hc (by have hn := hc.2; omega)
    exact ⟨ho.weaken _, (hf hc).congr hs.table_eq hs.libs_eq hs.connects_eq⟩
  · intro t hc
    exact from_closable hc .library
  · intro t hc
    exact hc.weaken
  · intro t hc
    exact (hc.onTarget.dropSocket l).forget l
  · intro _
    exact h.forget l
  · intro _
    exact h

theorem from_step_onTarget {d : Deal} {answers : Answers} (h : OnTarget (-1) w)
    (hd : Separate L (w.answered answers) d) :
    From (fun _ => Delivered) (w.answered answers) (d.perform L) fun _ => OnTarget (-1) := by
  have hw : OnTarget (-1) (w.answered answers) := h.same ⟨rfl, rfl, rfl, rfl, rfl, rfl, rfl, rfl⟩
  apply from_perform kept_onTarget hw
  constructor
  · intro l t hl hi
    apply hw.initializes hi
    cases d with
    | open_ | posixSpawn => exact hd.1 l hl
    | close | socket | setenv | exec | exit | cleanup | fork => cases hl
  · rintro fd rfl
    have hc : Closable L fd (w.answered answers) := ⟨hw.weaken fd, hd⟩
    exact (from_closable hc .application).conseq fun _ _ ht => ht.onTarget
  · rintro rfl hs
    exact hw.allocate .socket (.inr (hd hs))
  · intro type opts x didExitAlready hs _ _
    have hw' : OnTarget (-1) { w.answered answers with didExitAlready := didExitAlready } :=
      hw.same ⟨rfl, rfl, rfl, rfl, rfl, rfl, rfl, rfl⟩
    apply from_single_onTarget hw'
    cases d with
    | exec | exit => exact hd.2 hs
    | open_ | posixSpawn | close | socket | setenv | cleanup | fork => cases hs
  · intro _ t u calls b ht hi hs hsend
    exact (ht.sends hsend (ht.target .posixSpawn ⟨hi, hs⟩ (by omega))).sent
  · rintro l rfl hl
    apply from_cleanup (from_lock fun _ => hw.sent)
    · intro hn
      exact from_unload_onTarget hw fun hc => hd hl hn hc
    · rintro rfl
      apply from_unload_onTarget hw.finalize
      intro _ _ hf
      have hf' : (w.finalize.libs .close).finalized = false := hf
      simp [World.finalize, World.setLib] at hf'
  · intro child held _
    exact hw.forked child held

end Observed

/--
In a process in which no socket gets a number that a library still has, all bytes reach the
connection that they are meant for.
-/
theorem delivered_of_separate {environ : StringArray} {pid ppid : CInt} {table : List ℕ}
    (h : Reach (World.step L) (fun w a => Separate L (w.answered a.2) a.1)
      (World.start environ pid ppid table) w) : Delivered w := by
  refine (run_invariant (fun _ hw => hw.sent) (fun _ hw => hw)
    (fun _ _ hw ha => Observed.from_step_onTarget hw ha) h ?_).1
  constructor
  · intro s hs
    cases hs
  · intro l hc
    cases hc.1

instance (w : World) : Decidable (Delivered w) := by
  unfold Delivered; infer_instance

/-- A daemon closes everything, also the sockets of the libraries, and opens files again. -/
def daemonRun : List (Deal × Answers) :=
  [(opensFile, granted), (.close 0, granted), (.close 1, granted), (.close 2, granted),
    (.close 3, granted), (.close 4, granted), (.close 5, granted), (opensFile, granted)]

theorem delivered_daemonRun : ∃ w : World, w.sent.length = 6 ∧ Delivered w := by
  have hx : (Transition.exec (World.step ⟨true, true, true⟩)
      (fun w a => Separate ⟨true, true, true⟩ (w.answered a.2) a.1)
      (World.start observedEnviron 7 1 [0, 1, 2]) daemonRun).any (fun w =>
        decide (w.sent.length = 6)) = true := by
    decide +kernel
  obtain ⟨w, hr, hw⟩ := Transition.exists_reach_of_exec _ hx
  exact ⟨w, of_decide_eq_true hw, delivered_of_separate hr⟩

/-- The application closes the socket of `close`, and its own socket gets the number. -/
def reboundRun : List (Deal × Answers) :=
  [(.close 5, granted), (.close 3, granted), (.socket, granted), (.close 9, granted)]

theorem not_delivered_reboundRun :
    ∃ w, Reach (World.step ⟨true, true, true⟩) (fun _ _ => True)
      (World.start observedEnviron 7 1 [0, 1, 2]) w ∧ ¬ Delivered w := by
  have hx : (Transition.exec (World.step ⟨true, true, true⟩) (fun _ _ => True)
      (World.start observedEnviron 7 1 [0, 1, 2]) reboundRun).any (fun w =>
        decide (¬ Delivered w)) = true := by
    decide +kernel
  obtain ⟨w, hr, hw⟩ := Transition.exists_reach_of_exec _ hx
  exact ⟨w, hr, of_decide_eq_true hw⟩

end Voyeur
