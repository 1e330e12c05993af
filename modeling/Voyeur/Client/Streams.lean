import Voyeur.Client.Links

/-! # Streams of a process

Every call of an interposed function and every destructor keeps the connections in order,
and so does every sequence of them: a connection carries whole events of one library and
at most one mark that the client is done, behind which nothing comes.
-/

namespace Voyeur

open Program (From)
open Transition (Reach)

variable {w t w₀ w₁ : World} {busy : Option Lib} {l : Lib} {fd : ℤ} {L : Preloaded}

theorem kept_tidy (w₀ : World) : Kept (Sound w₀) (Tidy w₀ none) where
  stop _ h := h.sound
  same _ _ h hs := h.same hs
  file _ h := h.allocate .file
  report _ _ _ _ _ h hi _ he hr := h.reported (by simp) hi he hr

namespace Observed

theorem from_ready (h : Ready L w₀ busy fd w) (caller : Caller) :
    From (fun _ => Sound w₀) w (anyClose L caller fd) fun _ => Ready L w₀ busy fd := by
  have hs := h.tidy.sound
  exact (from_anyClose_of hs ⟨hs.formed, hs.kept⟩ caller fd).conseq fun _ _ hc => h.closes hc

end Observed

/-- The connection that was made in `w` is in use, and nothing is finished on it. -/
structure Single (w₀ w : World) (type : EventType) (opts : Byte) (t : World) : Prop where
  tidy : Tidy w₀ none t
  target : t.target w.free = some (.connection w.opened)
  lt : w.opened < t.opened
  type : (t.links w.opened).type = type
  opts : (t.links w.opened).opts = opts
  unfinished : (t.links w.opened).finished = false
  apart : ∀ l, t.Cached l → t.own l ≠ w.opened

theorem Single.connect (h : Tidy w₀ none w) (type : EventType) (opts : Byte) :
    Single w₀ w type opts (w.connect type opts) := by
  have hk := World.connect_self (w := w) type opts
  constructor
  · exact h.connect type opts
  · exact World.target_allocate_self (w := w) (.connection w.opened)
  · exact Nat.lt_succ_self _
  · exact congrArg Link.type hk
  · exact congrArg Link.opts hk
  · exact congrArg Link.finished hk
  · intro l hc
    exact Nat.ne_of_lt (h.own l (by simp) hc).lt

theorem Single.sends {e : ClientEvent} {opts : Byte} {accessible b : Bool}
    (h : Single w₀ w e.type opts t) {t' : World}
    (hs : Sends w.opened w.free (wire (e.write opts accessible)) false t b t') :
    Single w₀ w e.type opts t' := by
  have ht : Tidy w₀ none t' := by
    have hs' := hs
    rw [← h.opts] at hs'
    apply h.tidy.sends h.target hs' h.lt h.unfinished
    · exact (h.tidy.formed w.opened).event h.unfinished h.type.symm accessible
    · intro hl
      cases hl
  have hk : (t'.links w.opened).type = (t.links w.opened).type ∧
      (t'.links w.opened).opts = (t.links w.opened).opts ∧
      (t'.links w.opened).finished = (t.links w.opened).finished := by
    cases hs with
    | nothing _ | socket _ | failed _ => exact ⟨rfl, rfl, rfl⟩
    | @connection i hi _ =>
      obtain rfl : w.opened = i := by simpa [h.target] using hi
      rw [World.sendTo_self]
      simp
  constructor
  · exact ht
  · rw [World.target_congr hs.table_eq]
    exact h.target
  · rw [hs.opened_eq]
    exact h.lt
  · exact hk.1.trans h.type
  · exact hk.2.1.trans h.opts
  · exact hk.2.2.trans h.unfinished
  · intro l hc
    unfold World.Cached at hc
    rw [hs.libs_eq] at hc
    rw [hs.own_eq]
    exact h.apart l hc

theorem Single.ready {type : EventType} {opts : Byte} {b : Bool} (h : Single w₀ w type opts t)
    {t' : World} (hs : Sends w.opened w.free (wire [writeMsgType .done]) true t b t') :
    Ready L w₀ none w.free t' := by
  have ht : Tidy w₀ none t' := by
    apply h.tidy.sends h.target hs h.lt h.unfinished
    · exact (h.tidy.formed _).done h.unfinished
    · intro _ l _ hc
      exact h.apart l hc
  have htarget : t'.target w.free = some (.connection w.opened) := by
    rw [World.target_congr hs.table_eq]
    exact h.target
  constructor
  · exact ht
  · intro l _ hc he
    have hl := (ht.own l (by simp) hc).target
    rw [he, htarget] at hl
    unfold World.Cached at hc
    rw [hs.libs_eq] at hc
    rw [hs.own_eq] at hl
    exact h.apart l hc (by simpa using hl.symm)
  · intro _
    exact .inr ⟨by simp, fun _ _ => World.ne_free (by simp [htarget])⟩

namespace Observed

theorem from_single (h : Tidy w₀ none w) (e : ClientEvent) (opts : Byte) (accessible : Bool) :
    From (fun _ => Sound w₀) w (oneConnection L e.type opts (e.writing opts accessible))
      fun _ => Tidy w₀ none := by
  apply from_oneConnection (C := Single w₀ w e.type opts) (K := Ready L w₀ none w.free)
    (D := Ready L w₀ none w.free) (fun _ => h.sound) (fun _ _ => h)
  · intro _
    exact Single.connect h e.type opts
  · intro b t t' ht hs
    exact ht.sends hs
  · intro hx
    cases hx
  · intro b t t' ht hs
    exact ht.ready hs
  · intro t ht
    exact from_ready ht .library
  · intro t ht
    exact ht
  · intro t ht
    exact ht.tidy

end Observed

theorem Owns.sock_ne {l' : Lib} (h : Owns w l) (h' : Owns w l') (hn : l' ≠ l) :
    (w.libs l').sock ≠ (w.libs l).sock := by
  intro he
  have ht := h'.target
  rw [he, h.target] at ht
  have hown : w.own l = w.own l' := by simpa using ht
  have htype := h'.type
  rw [← hown, h.type] at htype
  exact hn (Lib.type_injective htype).symm

theorem Tidy.except (h : Tidy w₀ none w) (l : Lib) : Tidy w₀ (some l) w :=
  ⟨fun l' _ hc => h.own l' (by simp) hc, h.formed, h.kept, h.finished_lt⟩

theorem Tidy.rebase (h : Tidy w₀ busy w) (hk : w₁.links = w.links) : Tidy w₁ busy w :=
  ⟨h.own, h.formed, fun i _ => congrFun hk.symm i, h.finished_lt⟩

theorem Tidy.sendsDone {b : Bool} (h : Tidy w₀ none w) (hc : w.Cached l)
    (hs : Sends (w.own l) (w.libs l).sock (wire [writeMsgType .done]) true w b t) :
    Tidy w₀ (some l) t := by
  have ho := h.own l (by simp) hc
  apply (h.except l).sends ho.target hs ho.lt ho.unfinished
  · exact (h.formed _).done ho.unfinished
  · intro _ l' hl hc' he
    have ht := (h.own l' (by simp) hc').type
    rw [he, ho.type] at ht
    exact hl (by rw [Lib.type_injective ht])

theorem Ready.own {b : Bool} (h : Tidy w₀ none w) (hc : w.Cached l)
    (hf : l = .close → (w.libs .close).finalized = true)
    (hs : Sends (w.own l) (w.libs l).sock (wire [writeMsgType .done]) true w b t)
    (ht : Tidy w₁ (some l) t) : Ready L w₁ (some l) (w.libs l).sock t := by
  have ho := h.own l (by simp) hc
  constructor
  · exact ht
  · intro l' hl hc'
    unfold World.Cached at hc'
    rw [hs.libs_eq] at hc' ⊢
    exact ho.sock_ne (h.own l' (by simp) hc') (fun he => hl (by rw [he]))
  · intro _
    by_cases hl : l = .close
    · rw [hs.libs_eq]
      exact .inl (hf hl)
    · refine .inr ⟨by simpa using hl, fun _ _ => World.ne_free ?_⟩
      rw [World.target_congr hs.table_eq, ho.target]
      simp

theorem World.not_cached_forget (w : World) (l : Lib) : ¬ (w.forget l).Cached l := by
  unfold World.Cached World.forget
  rw [World.setLib_self]
  rintro ⟨hi, -⟩
  cases hi

theorem Tidy.forget (h : Tidy w₀ busy w) (hb : ∀ l', busy = some l' → l' = l) :
    Tidy w₀ none (w.forget l) := by
  refine h.uncached (fun l' he => .inr (hb l' he)) rfl ?_ (w.not_cached_forget l) rfl rfl
  intro l' hn
  exact ⟨World.setLib_of_ne hn _, rfl⟩

theorem Tidy.dropSocket (h : Tidy w₀ (some l) w) : Tidy w₀ (some l) (w.dropSocket l) := by
  have hn : ¬ (w.dropSocket l).Cached l := by
    unfold World.Cached World.dropSocket
    rw [World.setLib_self]
    rintro ⟨-, hs⟩
    exact absurd hs (show ¬ (0 : ℤ) ≤ -1 by decide)
  refine h.uncached (fun l' he => .inl he) rfl ?_ hn rfl rfl
  intro l' hn
  exact ⟨World.setLib_of_ne hn _, rfl⟩

theorem World.finalize_finalized (w : World) : (w.finalize.libs .close).finalized = true := by
  unfold World.finalize
  rw [World.setLib_self]

theorem Tidy.finalize (h : Tidy w₀ busy w) : Tidy w₀ busy w.finalize := by
  refine h.congr rfl (fun l => ?_) rfl rfl rfl
  unfold World.finalize
  by_cases hl : l = .close
  · subst hl
    rw [World.setLib_self]
    exact ⟨rfl, rfl, rfl⟩
  · rw [World.setLib_of_ne hl]
    exact ⟨rfl, rfl, rfl⟩

namespace Observed

theorem from_unload_tidy (h : Tidy w₀ none w)
    (hf : l = .close → (w.libs .close).finalized = true)
    (hd : ∀ b t, w.Cached l →
      Sends (w.own l) (w.libs l).sock (wire [writeMsgType .done]) true w b t → Tidy w₁ (some l) t)
    (hn : ¬ w.Cached l → Tidy w₁ none w) :
    From (fun _ => Sound w₁) w (unload L l) fun _ t => Tidy w₁ none t ∧ ¬ t.Cached l := by
  apply from_unload (C := Ready L w₁ (some l) (w.libs l).sock)
    (D := Ready L w₁ (some l) (w.libs l).sock)
  · intro b t hc hs
    exact Ready.own h hc hf hs (hd b t hc hs)
  · intro t ht
    exact from_ready ht .library
  · intro t ht
    exact ht
  · intro t ht
    refine ⟨ht.tidy.dropSocket.forget fun l' he => ?_, World.not_cached_forget _ l⟩
    simpa using he.symm
  · intro hc
    exact ⟨(hn hc).forget fun l' he => by simp at he, World.not_cached_forget _ l⟩
  · intro hi
    have hc : ¬ w.Cached l := fun hc => by simp [hc.1] at hi
    exact ⟨hn hc, hc⟩

theorem from_cleanup_tidy (h : Tidy w₀ none w) (l : Lib) :
    From (fun _ => Sound w₀) w (cleanup L l) fun _ => Tidy w₀ none := by
  have hu : ∀ t, Tidy w₀ none t → (l = .close → (t.libs .close).finalized = true) →
      From (fun _ => Sound w₀) t (unload L l) fun _ => Tidy w₀ none := fun t ht hf =>
    (from_unload_tidy ht hf (fun _ _ hc hs => ht.sendsDone hc hs) fun _ => ht).conseq
      fun _ _ hp => hp.1
  apply from_cleanup (from_lock fun _ => h.sound)
  · intro hl
    exact hu w h fun he => absurd he hl
  · intro _
    exact hu w.finalize h.finalize fun _ => World.finalize_finalized w

theorem from_unload_done (h : Tidy w₀ none w)
    (hf : l = .close → (w.libs .close).finalized = true) (hc : w.Cached l)
    (hn : (w.links (w.own l)).connected = true)
    (hw : w₁.links = (w.sendTo (w.own l) (w.own l) (wire [writeMsgType .done]) true).links) :
    From (fun _ => Sound w₁) w (unload L l) fun _ t => Tidy w₁ none t ∧ ¬ t.Cached l := by
  have ho := h.own l (by simp) hc
  apply from_unload_tidy h hf
  · intro b t _ hs
    have hd := h.sendsDone hc hs
    cases hs with
    | nothing hw => exact absurd hw (by decide)
    | failed hu => simp [World.usable, ho.target, hn] at hu
    | socket ht => simp [ho.target] at ht
    | @connection i ht _ =>
      obtain rfl : w.own l = i := by simpa [ho.target] using ht
      exact hd.rebase hw
  · intro hc'
    exact absurd hc hc'

theorem from_cleanup_done (h : Tidy w₀ none w) (hk : w.Unlocked) (hc : w.Cached l)
    (hn : (w.links (w.own l)).connected = true)
    (hw : w₁.links = (w.sendTo (w.own l) (w.own l) (wire [writeMsgType .done]) true).links) :
    From (fun _ => Sound w₁) w (cleanup L l) fun _ t => Tidy w₁ none t ∧ ¬ t.Cached l := by
  apply from_cleanup (from_lock fun hl => absurd hl (hk.not_locked l))
  · intro hl
    exact from_unload_done h (fun he => absurd he hl) hc hn hw
  · rintro rfl
    have hc' : w.finalize.Cached .close := by
      unfold World.Cached World.finalize
      rw [World.setLib_self]
      exact hc
    exact from_unload_done h.finalize (fun _ => w.finalize_finalized) hc' hn hw

end Observed

/--
The application does not close the numbers that the libraries have in use, or that `close` gets
in the same call. It gives arrays where they are gone through, and does not fork.
-/
def LeavesAlone (L : Preloaded) (w : World) (a : Deal × Answers) : Prop :=
  match a.1 with
  | .close fd => Spare none fd w ∧ (L.close = true → (w.libs .close).finalized = false →
      (w.libs .close).initialized = false → (w.answered a.2).connects = true → fd ≠ w.free)
  | d => d.GivesArrays w ∧ d.forks = false

instance (busy : Option Lib) (fd : ℤ) (w : World) : Decidable (Spare busy fd w) := by
  unfold Spare; infer_instance

instance (L : Preloaded) (w : World) (a : Deal × Answers) : Decidable (LeavesAlone L w a) :=
  match a with
  | ⟨.open_ _ _ _, _⟩ | ⟨.close _, _⟩ | ⟨.socket, _⟩ | ⟨.setenv _, _⟩ | ⟨.posixSpawn _ _ _ _, _⟩ |
      ⟨.exec _, _⟩ | ⟨.exit _, _⟩ | ⟨.cleanup _, _⟩ | ⟨.fork _ _, _⟩ => by
    unfold LeavesAlone
    infer_instance

theorem LeavesAlone.givesArrays {a : Deal × Answers} (h : LeavesAlone L w a) :
    a.1.GivesArrays w := by
  obtain ⟨d, answers⟩ := a
  cases d with
  | close => trivial
  | open_ | socket | setenv | posixSpawn | exec | exit | cleanup | fork => exact h.1

theorem LeavesAlone.forks {a : Deal × Answers} (h : LeavesAlone L w a) : a.1.forks = false := by
  obtain ⟨d, answers⟩ := a
  cases d with
  | close => rfl
  | open_ | socket | setenv | posixSpawn | exec | exit | cleanup | fork => exact h.2

theorem Observed.from_step {d : Deal} {answers : Answers} (h : Tidy w₀ none w)
    (ha : LeavesAlone L w (d, answers)) :
    From (fun _ => Sound w₀) (w.answered answers) (d.perform L) fun _ => Tidy w₀ none := by
  have hw : Tidy w₀ none (w.answered answers) := h.same ⟨rfl, rfl, rfl, rfl, rfl, rfl, rfl, rfl⟩
  have harrays : d.GivesArrays (w.answered answers) := ha.givesArrays
  apply from_perform (kept_tidy w₀) hw
  constructor
  · intro l t _ hi
    exact hw.initializes hi
  · rintro fd rfl
    have hr : Ready L w₀ none fd (w.answered answers) := by
      refine ⟨hw, ha.1, fun hL => ?_⟩
      cases hf : (w.libs .close).finalized with
      | true => exact .inl hf
      | false => exact .inr ⟨by simp, ha.2 hL hf⟩
    exact (from_ready hr .application).conseq fun _ _ ht => ht.tidy
  · intro _ _
    exact hw.allocate .socket
  · intro type opts x didExitAlready _ _ hx
    have hw' : Tidy w₀ none { w.answered answers with didExitAlready := didExitAlready } :=
      hw.same ⟨rfl, rfl, rfl, rfl, rfl, rfl, rfl, rfl⟩
    obtain ⟨e, accessible, rfl, rfl⟩ := hx harrays
    exact from_single hw' e opts accessible
  · intro hn
    exact absurd harrays hn
  · intro l _ _
    exact from_cleanup_tidy hw l
  · rintro child held rfl
    cases ha.forks

/-- What holds in every state of a run, and what holds while the process goes on. -/
theorem tidy_of_run (h : Reach (World.step L) (LeavesAlone L) w₀ w) (h₀ : Tidy w₁ none w₀) :
    Sound w₁ w ∧ (w.halted = false → Tidy w₁ none w) :=
  run_invariant (fun _ ht => ht.sound) (fun _ hs => ⟨hs.formed, hs.kept⟩)
    (fun _ _ ht ha => Observed.from_step ht ha) h h₀

theorem tidy_start (environ : StringArray) (pid ppid : CInt) (table : List ℕ) :
    Tidy (World.start environ pid ppid table) none (World.start environ pid ppid table) := by
  constructor
  · intro l _ hc
    cases hc.1
  · intro i
    exact ⟨[], by simp, rfl⟩
  · intro _ _
    rfl
  · intro i hi
    cases hi

theorem Deal.perform_cleanup (hl : L.has l = true) :
    (Deal.cleanup l).perform L = Observed.cleanup L l := by
  cases l with
  | open_ | close => exact if_pos hl
  | posixSpawn => rfl

/-- A destructor that finds a connection writes the last mark on it, whatever comes then. -/
theorem done_of_cleanup {answers : Answers} (h : Tidy w₀ none w) (hk : w.Unlocked)
    (hl : L.has l = true) (hc : w.Cached l) (hn : (w.links (w.own l)).connected = true)
    (hs : w.step L (.cleanup l, answers) = some t) :
    t.links (w.own l) = { w.links (w.own l) with
      bytes := (w.links (w.own l)).bytes ++ wire [writeMsgType .done], finished := true } ∧
      (t.halted = false → ¬ t.Cached l) := by
  have hw : Tidy w₀ none (w.answered answers) := h.same ⟨rfl, rfl, rfl, rfl, rfl, rfl, rfl, rfl⟩
  have hu : (w.answered answers).Unlocked := hk
  have hp := Observed.from_cleanup_done (L := L) hw hu hc hn rfl
  have hd := World.sendTo_self (w := w.answered answers) (w.own l) (w.own l)
    (wire [writeMsgType .done]) true
  rw [Bool.or_true] at hd
  have hf := congrArg Link.finished hd
  obtain ⟨-, ⟨u, hx⟩ | ⟨e, u, hx, rfl⟩⟩ := World.step_some hs
  · rw [Deal.perform_cleanup hl] at hx
    obtain ⟨ht, hn'⟩ := hp.ok hx
    exact ⟨(ht.kept _ hf).trans hd, fun _ => hn'⟩
  · rw [Deal.perform_cleanup hl] at hx
    have ht : Sound _ u := hp.error hx
    exact ⟨(ht.kept _ hf).trans hd, fun hh => by cases hh⟩

/--
A process that leaves the libraries' descriptors alone writes whole events and at most one mark
on every connection; a library that has a connection can use it until its destructor finishes it,
and what is finished stays as it is.
-/
theorem streams_formed {environ : StringArray} {pid ppid : CInt} {table : List ℕ}
    (h : Reach (World.step L) (LeavesAlone L) (World.start environ pid ppid table) w) :
    (∀ i, Formed (w.links i)) ∧ (w.halted = false → ∀ l, w.Cached l → Owns w l) ∧
      (∀ l answers t, L.has l = true → w.Cached l → (w.links (w.own l)).connected = true →
        w.step L (.cleanup l, answers) = some t →
        t.links (w.own l) = { w.links (w.own l) with
          bytes := (w.links (w.own l)).bytes ++ wire [writeMsgType .done], finished := true } ∧
        (t.halted = false → ¬ t.Cached l)) ∧
      ∀ t, Reach (World.step L) (LeavesAlone L) w t →
        ∀ i, (w.links i).finished = true → t.links i = w.links i := by
  obtain ⟨hs, ht⟩ := tidy_of_run h (tidy_start environ pid ppid table)
  refine ⟨hs.formed, fun hh l hc => (ht hh).own l (by simp) hc, ?_, ?_⟩
  · intro l answers t hl hc hn hstep
    have hh := (World.step_some hstep).1
    exact done_of_cleanup (ht hh) (unlocked_of_run (fun _ _ ha => ha.forks) h) hl hc hn hstep
  · intro t hr i hf
    cases hh : w.halted with
    | false => exact (tidy_of_run hr ((ht hh).rebase rfl)).1.kept i hf
    | true => rw [eq_of_halted hr hh]

/-- Two events of `close` and one of `open`, then the destructor of `close`, and another `close`. -/
def closingRun : List (Deal × Answers) :=
  [(.close 0, granted), (opensFile, granted), (.close 1, granted),
    (.cleanup .close, granted), (.close 2, granted)]

theorem streams_formed_closingRun :
    ∃ w : World, (w.links 0).finished = true ∧ (w.links 1).bytes ≠ [] ∧
      ∀ i, Formed (w.links i) := by
  have hx : (Transition.exec (World.step ⟨true, true, true⟩) (LeavesAlone ⟨true, true, true⟩)
      (World.start observedEnviron 7 1 [0, 1, 2]) closingRun).any (fun w =>
        decide ((w.links 0).finished = true ∧ (w.links 1).bytes ≠ [])) = true := by
    decide +kernel
  obtain ⟨w, hr, hw⟩ := Transition.exists_reach_of_exec _ hx
  obtain ⟨hf, hb⟩ := of_decide_eq_true hw
  exact ⟨w, hf, hb, (streams_formed hr).1⟩

end Voyeur
