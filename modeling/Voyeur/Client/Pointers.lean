import Voyeur.Client.Runs

/-! # Pointers to the real functions

An interposed function calls the real one through a pointer, which its library looks up when
it is entered for the first time. The interposed `close` skips this once its destructor has
run. The process keeps a log of the lookups and of the calls.
-/

namespace Voyeur

open Program (From)
open Transition (Reach)

/-- Every call comes after a lookup of its pointer. -/
def Resolved (log : List PointerUse) : Prop :=
  ∀ earlier f later, log = earlier ++ .call f :: later → .lookup f ∈ earlier

/-- The calls and destructor runs in question, and what an application does besides. -/
def Deal.Interposed : Deal → Prop
  | .open_ _ _ _ | .close _ | .posixSpawn _ _ _ _ | .cleanup _ | .socket | .setenv _ => True
  | .exec _ | .exit _ | .fork _ _ => False

instance (d : Deal) : Decidable d.Interposed :=
  match d with
  | .open_ _ _ _ | .close _ | .socket | .setenv _ | .posixSpawn _ _ _ _ | .exec _ | .exit _ |
      .cleanup _ | .fork _ _ => by
    unfold Deal.Interposed
    infer_instance

/-- The call closes something through the interposed `close`. -/
def Deal.ClosesThrough (L : Preloaded) (w : World) : Deal → Prop
  | .close _ => True
  | .cleanup l => l ≠ .close ∧ L.has l = true ∧ w.Cached l
  | _ => False

instance (L : Preloaded) (w : World) (d : Deal) : Decidable (d.ClosesThrough L w) :=
  match d with
  | .open_ _ _ _ | .close _ | .socket | .setenv _ | .posixSpawn _ _ _ _ | .exec _ | .exit _ |
      .cleanup _ | .fork _ _ => by
    unfold Deal.ClosesThrough
    infer_instance

/-- The destructor of `close` has run, and its pointer was never looked up. -/
def NeverLookedUp (L : Preloaded) (w : World) : Prop :=
  L.close = true ∧ (w.libs .close).finalized = true ∧ (w.libs .close).next = false

instance (L : Preloaded) (w : World) : Decidable (NeverLookedUp L w) := by
  unfold NeverLookedUp; infer_instance

/-- Nothing is closed after the destructor of a `close` that was not called before. -/
def ClosesResolved (L : Preloaded) (w : World) (a : Deal × Answers) : Prop :=
  a.1.Interposed ∧ (NeverLookedUp L w → ¬ a.1.ClosesThrough L w)

instance (L : Preloaded) (w : World) (a : Deal × Answers) : Decidable (ClosesResolved L w a) := by
  unfold ClosesResolved; infer_instance

theorem resolved_concat_iff {log : List PointerUse} {x : PointerUse} :
    Resolved (log ++ [x]) ↔ Resolved log ∧ ∀ f, x = .call f → .lookup f ∈ log := by
  constructor
  · intro h
    refine ⟨fun earlier f later he => h earlier f (later ++ [x]) ?_, fun f hx => ?_⟩
    · rw [he, List.append_assoc, List.cons_append]
    · exact h log f [] (by rw [hx])
  · rintro ⟨h, hx⟩ earlier f later he
    rcases List.eq_nil_or_concat later with rfl | ⟨later, y, rfl⟩
    · obtain ⟨rfl, hl⟩ := List.append_inj' he rfl
      exact hx f (List.cons.inj hl).1
    · rw [List.concat_eq_append, ← List.cons_append, ← List.append_assoc] at he
      exact h earlier f later (List.append_inj' he rfl).1

theorem Resolved.append_lookups {log : List PointerUse} (h : Resolved log)
    (fs : List NextFunction) : Resolved (log ++ fs.map PointerUse.lookup) := by
  induction fs generalizing log with
  | nil =>
    rw [List.map_nil, List.append_nil]
    exact h
  | cons f fs ih =>
    rw [List.map_cons, List.append_cons]
    refine ih (resolved_concat_iff.mpr ⟨h, fun g hg => ?_⟩)
    cases hg

theorem resolved_nil : Resolved [] := by
  intro earlier f later h
  cases earlier <;> cases h

/-- The pointers are set if and only if they have been looked up, and none was used before. -/
structure PointersLogged (w : World) : Prop where
  resolved : Resolved w.uses
  next_iff : ∀ l, ∀ f ∈ l.functions, .lookup f ∈ w.uses ↔ (w.libs l).next = true

theorem Lib.functions_disjoint {l l' : Lib} {f : NextFunction} (h : f ∈ l.functions)
    (h' : f ∈ l'.functions) : l = l' := by
  cases l <;> cases l' <;> simp_all [Lib.functions]

/-- Neither the libraries change nor the log. -/
def SamePointers (w t : World) : Prop := t.libs = w.libs ∧ t.uses = w.uses

section

variable {w t u : World} {l : Lib} {f : NextFunction} {L : Preloaded}

theorem SamePointers.trans (h : SamePointers w t) (h' : SamePointers t u) : SamePointers w u :=
  ⟨h'.1.trans h.1, h'.2.trans h.2⟩

theorem Sends.samePointers {own : ℕ} {fd : ℤ} {bytes : Bytes} {last b : Bool}
    (h : Sends own fd bytes last w b t) : SamePointers w t := by
  cases h <;> exact ⟨rfl, rfl⟩

theorem Reports.samePointers {e : ClientEvent} {b : Bool} (h : Reports l e w b t) :
    SamePointers w t := by
  cases h with
  | skip _ => exact ⟨rfl, rfl⟩
  | sends _ hs => exact hs.samePointers

namespace PointersLogged

theorem congr (h : PointersLogged w) (hn : ∀ l, (t.libs l).next = (w.libs l).next)
    (hu : t.uses = w.uses) : PointersLogged t := by
  constructor
  · rw [hu]
    exact h.resolved
  · intro l f hf
    rw [hu, h.next_iff l f hf, hn l]

theorem same (h : PointersLogged w) (hs : SamePointers w t) : PointersLogged t :=
  h.congr (fun l => by rw [hs.1]) hs.2

theorem setLib (h : PointersLogged w) {lib : Library} (hn : lib.next = (w.libs l).next) :
    PointersLogged (w.setLib l lib) := by
  refine h.congr (fun l' => ?_) rfl
  by_cases hl : l' = l
  · subst hl
    rw [World.setLib_self, hn]
  · rw [World.setLib_of_ne hl]

theorem called (h : PointersLogged w) (hf : f ∈ l.functions) (hn : (w.libs l).next = true) :
    PointersLogged (w.used [.call f]) := by
  refine ⟨resolved_concat_iff.mpr ⟨h.resolved, fun g hg => ?_⟩, fun l' g hg => ?_⟩
  · cases hg
    exact (h.next_iff l f hf).mpr hn
  · have hm : .lookup g ∈ w.uses ++ [.call f] ↔ .lookup g ∈ w.uses := by simp
    exact hm.trans (h.next_iff l' g hg)

theorem initializes (h : PointersLogged w) (hi : Initializes l w t) : PointersLogged t := by
  have hset (w' : World) (sock : ℤ) (hs : SamePointers w w') :
      PointersLogged (w.withSocket w' l sock) := by
    constructor
    · change Resolved (w'.uses ++ _)
      rw [hs.2]
      exact h.resolved.append_lookups _
    · intro l' f hf
      change .lookup f ∈ w'.uses ++ _ ↔ _
      rw [hs.2, List.mem_append]
      by_cases hl : l' = l
      · subst hl
        rw [World.withSocket_self]
        exact iff_of_true (.inr (List.mem_map_of_mem hf)) rfl
      · rw [World.withSocket_of_ne hl, hs.1, ← h.next_iff l' f hf]
        refine or_iff_left fun hm => ?_
        obtain ⟨g, hg, he⟩ := List.mem_map.mp hm
        cases he
        exact hl (Lib.functions_disjoint hf hg)
  cases hi with
  | skip _ => exact h
  | connected _ _ => exact hset _ _ ⟨rfl, rfl⟩
  | failed _ _ => exact hset _ _ ⟨rfl, rfl⟩

end PointersLogged

/-- The pointers are as the log says, and a `close` whose destructor has run can be called. -/
structure ClosePointer (L : Preloaded) (w : World) : Prop where
  logged : PointersLogged w
  next : L.close = true → (w.libs .close).finalized = true → (w.libs .close).next = true

theorem ClosePointer.same (h : ClosePointer L w) (hs : SamePointers w t) : ClosePointer L t := by
  refine ⟨h.logged.same hs, ?_⟩
  rw [hs.1]
  exact h.next

namespace Observed

variable {E : Halt → World → Prop}

theorem from_realClose_pointers (fd : ℤ) :
    From E w (realClose fd) fun _ => SamePointers w := by
  unfold From realClose
  cases w.target fd with
  | none => exact ⟨rfl, rfl⟩
  | some x =>
    cases w.answers.closing with
    | nil => exact ⟨rfl, rfl⟩
    | cons o closing => cases o <;> exact ⟨rfl, rfl⟩

theorem from_realOpen_pointers (path : Option CStr) (oflag mode : CInt) :
    From E w (realOpen path oflag mode) fun _ => SamePointers w := by
  unfold From realOpen
  dsimp only [World.called]
  cases w.answers.real <;> exact ⟨rfl, rfl⟩

theorem from_realSpawn_pointers (function : SpawnFunction) (path : Option CStr)
    (argv : Option (List CStr)) (envp : List CStr) :
    From E w (realSpawn function path argv envp) fun _ => SamePointers w := by
  unfold From realSpawn
  dsimp only [World.called]
  cases w.answers.real <;> exact ⟨rfl, rfl⟩

theorem from_anyClose_pointers (h : ClosePointer L w) (caller : Caller) (fd : ℤ) :
    From (fun _ t => Resolved t.uses) w (anyClose L caller fd) fun _ => ClosePointer L := by
  unfold anyClose
  refine From.ite (fun hL => ?_) fun _ => ?_
  · unfold close
    apply From.get
    refine From.ite (fun hf => ?_) fun hf => ?_
    · have hn := h.next hL hf
      have hc : ClosePointer L (w.used [.call .close]) :=
        ⟨h.logged.called (List.mem_singleton_self _) hn, h.next⟩
      unfold forwardClose
      apply (from_callNext fun _ => hc.logged.resolved).bind
      rintro _ _ rfl
      apply (from_realClose_pointers fd).bind
      intro retval t ht
      apply From.bind (From.modify (Q := fun _ t' => t' = t.recorded _) rfl)
      rintro _ _ rfl
      have hs : SamePointers (w.used [.call .close]) (t.recorded ⟨caller, fd, retval, false⟩) := ht
      exact From.pure (hc.same hs)
    · unfold reportClose
      apply (from_lock fun _ => h.logged.resolved).skip
      intro _
      apply (from_initialization fun _ _ => h.logged.resolved).bind
      intro _ t₁ h₁
      have hn := (t₁.libs .close).next_of_initialized h₁.initialized
      have hc : ClosePointer L (t₁.used [.call .close]) := by
        refine ⟨(h.logged.initializes h₁).called (List.mem_singleton_self _) hn, fun _ hf' => ?_⟩
        exact absurd (h₁.finalized_eq.symm.trans hf') hf
      apply (from_callNext_of_initializes h₁ _).bind
      rintro _ _ rfl
      apply (from_realClose_pointers fd).bind
      intro retval t₂ h₂
      apply From.get
      apply (from_report .close _).bind
      intro b t₃ h₃
      apply From.bind (From.modify (Q := fun _ t' => t' = t₃.recorded _) rfl)
      rintro _ _ rfl
      have hs : SamePointers (t₁.used [.call .close]) (t₃.recorded ⟨caller, fd, retval, b⟩) :=
        h₂.trans h₃.samePointers
      exact From.pure (hc.same hs)
  · exact (from_realClose_pointers fd).conseq fun _ _ ht => h.same ht

theorem from_unload_pointers (h : PointersLogged w)
    (hc : L.close = true → w.Cached l → (w.libs .close).finalized = true →
      (w.libs .close).next = true) :
    From (fun _ t => Resolved t.uses) w (unload L l) fun _ => PointersLogged := by
  apply from_unload (C := ClosePointer L) (D := ClosePointer L)
  · intro b t hk hs
    have hp : ClosePointer L w := ⟨h, fun hL => hc hL hk⟩
    exact hp.same hs.samePointers
  · intro t ht
    exact from_anyClose_pointers ht .library _
  · intro t ht
    exact ht
  · intro t ht
    have hd : PointersLogged (t.dropSocket l) := ht.logged.setLib rfl
    exact hd.setLib rfl
  · intro _
    exact h.setLib rfl
  · intro _
    exact h

theorem from_cleanup_pointers (h : PointersLogged w)
    (hc : l ≠ .close → L.close = true → w.Cached l → (w.libs .close).finalized = true →
      (w.libs .close).next = true) :
    From (fun _ t => Resolved t.uses) w (cleanup L l) fun _ => PointersLogged := by
  apply from_cleanup (from_lock fun _ => h.resolved)
  · intro hl
    exact from_unload_pointers h (hc hl)
  · rintro rfl
    have hf : PointersLogged w.finalize := h.setLib rfl
    -- A `close` that has a socket of its own has been called before.
    exact from_unload_pointers hf fun _ hi _ => (w.finalize.libs .close).next_of_initialized hi.1

theorem from_open_pointers (h : PointersLogged w) (path : Option CStr) (oflag mode : CInt) :
    From (fun _ t => Resolved t.uses) w (open_ path oflag mode) fun _ => PointersLogged := by
  unfold open_
  apply (from_lock fun _ => h.resolved).skip
  intro _
  apply (from_initialization fun _ _ => h.resolved).bind
  intro _ t₁ h₁
  have hn := (t₁.libs .open_).next_of_initialized h₁.initialized
  have hc := (h.initializes h₁).called (List.mem_singleton_self _) hn
  apply (from_callNext_of_initializes h₁ _).bind
  rintro _ _ rfl
  apply (from_realOpen_pointers path oflag mode).bind
  intro retval t₂ h₂
  apply From.get
  apply (from_report .open_ _).bind
  intro b t₃ h₃
  exact From.pure (hc.same (h₂.trans h₃.samePointers))

theorem from_posixSpawn_pointers (h : PointersLogged w) (function : SpawnFunction) (pid : Bool)
    (path : Option CStr) (argv envp : ArrayPtr) :
    From (fun _ t => Resolved t.uses) w (posixSpawn function pid path argv envp)
      fun _ => PointersLogged := by
  unfold posixSpawn
  apply (from_lock fun _ => h.resolved).skip
  intro _
  apply (from_initialization fun _ _ => h.resolved).bind
  intro _ t₁ h₁
  have h₁' := h.initializes h₁
  have hn := (t₁.libs .posixSpawn).next_of_initialized h₁.initialized
  have hf : function.next ∈ Lib.posixSpawn.functions := by cases function <;> decide
  have hc := h₁'.called hf hn
  apply From.get
  apply (from_augment h₁'.resolved _ _ _ _).skip
  intro voyeurEnvp
  apply (from_callNext_of_initializes h₁ _).bind
  rintro _ _ rfl
  apply (from_realSpawn_pointers function path (strings argv) voyeurEnvp).bind
  intro retval t₂ h₂
  apply From.get
  apply (from_report_writing (fun _ _ => execWriting_of_not_crashes) fun _ _ _ _ hs =>
    (hc.same (h₂.trans hs.samePointers)).resolved).bind
  intro b t₃ h₃
  exact From.pure (hc.same (h₂.trans h₃.samePointers))

theorem unresolved_anyClose (h : PointersLogged w) (hn : NeverLookedUp L w) (caller : Caller)
    (fd : ℤ) :
    From (fun _ t => ¬ Resolved t.uses) w (anyClose L caller fd) fun _ _ => False := by
  obtain ⟨hL, hf, hp⟩ := hn
  have hlog : ¬ Resolved (w.used [.call .close]).uses := by
    intro hr
    have hm := (h.next_iff .close _ (List.mem_singleton_self _)).mp
      ((resolved_concat_iff.mp hr).2 _ rfl)
    rw [hp] at hm
    cases hm
  have hcall : From (fun _ t => ¬ Resolved t.uses) w (callNext .close .close)
      fun _ _ => False := by
    unfold callNext
    apply From.bind (From.modify (Q := fun _ t => t = w.used [.call .close]) rfl)
    rintro _ _ rfl
    apply From.get
    refine From.ite (fun _ => From.throw hlog) fun hc => ?_
    exact absurd (congrArg not hp) hc
  unfold anyClose
  rw [if_pos hL]
  unfold close
  apply From.get
  rw [if_pos hf]
  exact hcall.bind fun _ _ hx => hx.elim

theorem unresolved_cleanup (h : PointersLogged w) (hu : w.Unlocked) (hn : NeverLookedUp L w)
    (hl : l ≠ .close) (hc : w.Cached l) :
    From (fun _ t => ¬ Resolved t.uses) w (cleanup L l) fun _ _ => False := by
  apply from_cleanup (from_lock fun hk => absurd hk (hu.not_locked l)) _ fun he => absurd he hl
  intro _
  apply from_unload (C := fun t => PointersLogged t ∧ NeverLookedUp L t) (D := fun _ => False)
  · intro b t _ hs
    refine ⟨h.same hs.samePointers, ?_⟩
    unfold NeverLookedUp
    rw [hs.libs_eq]
    exact hn
  · rintro t ⟨ht, hnt⟩
    exact unresolved_anyClose ht hnt .library _
  · intro _ hf
    exact hf.elim
  · intro _ hf
    exact hf.elim
  · intro hn
    exact absurd hc hn
  · intro hi
    exact absurd hc.1 (by simp [hi])

/-- A call keeps the log in order if it closes nothing through an unresolved pointer. -/
theorem from_perform_pointers (h : PointersLogged w) (d : Deal) (hd : d.Interposed)
    (hc : NeverLookedUp L w → ¬ d.ClosesThrough L w) :
    From (fun _ t => Resolved t.uses) w (d.perform L) fun _ => PointersLogged := by
  have hnext (hd : d.ClosesThrough L w) (hL : L.close = true)
      (hf : (w.libs .close).finalized = true) : (w.libs .close).next = true := by
    by_contra hn
    exact hc ⟨hL, hf, Bool.not_eq_true _ ▸ hn⟩ hd
  cases d with
  | open_ path oflag mode =>
    refine From.ite (fun _ => (from_open_pointers h path oflag mode).discarded) fun _ => ?_
    exact ((from_realOpen_pointers path oflag mode).conseq fun _ _ ht => h.same ht).discarded
  | close fd =>
    have hp : ClosePointer L w := ⟨h, hnext trivial⟩
    exact ((from_anyClose_pointers hp .application fd).conseq fun _ _ ht => ht.logged).discarded
  | posixSpawn function path argv envp =>
    exact (from_posixSpawn_pointers h function false path argv envp).discarded
  | cleanup l =>
    have hcleanup (hL : L.has l = true) := from_cleanup_pointers (L := L) (l := l) h
      fun hl hLc hk hf => hnext ⟨hl, hL, hk⟩ hLc hf
    cases l with
    | open_ | close => exact From.ite hcleanup fun _ => From.pure h
    | posixSpawn => exact hcleanup rfl
  | socket =>
    refine From.modify ?_
    split
    · exact h.same ⟨rfl, rfl⟩
    · exact h
  | setenv environ => exact From.modify (h.same ⟨rfl, rfl⟩)
  | exec _ | exit _ | fork _ _ => exact hd.elim

theorem unresolved_perform (h : PointersLogged w) (hu : w.Unlocked) (d : Deal)
    (hn : NeverLookedUp L w) (hc : d.ClosesThrough L w) :
    From (fun _ t => ¬ Resolved t.uses) w (d.perform L) fun _ t => ¬ Resolved t.uses := by
  cases d with
  | close fd =>
    have hx := unresolved_anyClose h hn .application fd
    exact (hx.conseq fun _ _ hx => hx.elim).discarded
  | cleanup l =>
    obtain ⟨hl, hL, hk⟩ := hc
    have hx : From (fun _ t => ¬ Resolved t.uses) w (Observed.cleanup L l)
        fun _ t => ¬ Resolved t.uses :=
      (unresolved_cleanup h hu hn hl hk).conseq fun _ _ hx => hx.elim
    cases l with
    | open_ | close => exact From.ite (fun _ => hx) fun hL' => absurd hL hL'
    | posixSpawn => exact hx
  | open_ _ _ _ | posixSpawn _ _ _ _ | socket | setenv _ | exec _ | exit _ | fork _ _ =>
    exact hc.elim

end Observed

variable {a : Deal × Answers}

/-- A step that meets the condition keeps the log in order. -/
theorem pointersLogged_of_step (h : PointersLogged w) (hc : ClosesResolved L w a)
    (hs : World.step L w a = some t) :
    Resolved t.uses ∧ (t.halted = false → PointersLogged t) := by
  have ha : PointersLogged (w.answered a.2) := h.same ⟨rfl, rfl⟩
  have hp := Observed.from_perform_pointers (L := L) ha a.1 hc.1 hc.2
  obtain ⟨-, ⟨x, hx⟩ | ⟨e, u, hx, rfl⟩⟩ := World.step_some hs
  · have ht := hp.ok hx
    exact ⟨ht.resolved, fun _ => ht⟩
  · have hu : Resolved u.uses := hp.error hx
    exact ⟨hu, fun hn => by cases hn⟩

theorem unresolved_of_step (h : PointersLogged w) (hu : w.Unlocked) (hn : NeverLookedUp L w)
    (hc : a.1.ClosesThrough L w) (hs : World.step L w a = some t) : ¬ Resolved t.uses := by
  have ha : PointersLogged (w.answered a.2) := h.same ⟨rfl, rfl⟩
  have hp := Observed.unresolved_perform (L := L) ha hu a.1 hn hc
  obtain ⟨-, ⟨x, hx⟩ | ⟨e, u, hx, rfl⟩⟩ := World.step_some hs
  · exact hp.ok hx
  · have hu : ¬ Resolved u.uses := hp.error hx
    exact hu

theorem pointersLogged_start (environ : StringArray) (pid ppid : CInt) (table : List ℕ) :
    PointersLogged (World.start environ pid ppid table) :=
  ⟨resolved_nil, fun _ _ _ => iff_of_false List.not_mem_nil Bool.false_ne_true⟩

theorem Deal.Interposed.forks {d : Deal} (h : d.Interposed) : d.forks = false := by
  cases d with
  | fork child held => exact h.elim
  | open_ | close | socket | setenv | posixSpawn | exec | exit | cleanup => rfl

end

/--
As long as nothing is closed after the destructor of a `close` that was not called before, every
call of a real function comes after the lookup of its pointer; and the next step keeps it so if
and only if it closes nothing like that.
-/
theorem resolved_of_run {L : Preloaded} {environ : StringArray} {pid ppid : CInt}
    {table : List ℕ} {t : World}
    (h : Reach (World.step L) (ClosesResolved L) (World.start environ pid ppid table) t) :
    Resolved t.uses ∧ ∀ a u, a.1.Interposed → World.step L t a = some u →
      (Resolved u.uses ↔ ClosesResolved L t a) := by
  have hI : Resolved t.uses ∧ (t.halted = false → PointersLogged t) := by
    refine h.invariant (I := fun t => Resolved t.uses ∧ (t.halted = false → PointersLogged t))
      ⟨resolved_nil, fun _ => pointersLogged_start _ _ _ _⟩ ?_
    rintro s a u ⟨-, hs⟩ ha hu
    exact pointersLogged_of_step (hs (World.step_some hu).1) ha hu
  have hu : t.Unlocked := unlocked_of_run (fun _ _ ha => ha.1.forks) h
  refine ⟨hI.1, fun a u ha hs => ⟨fun hr => ⟨ha, fun hn hc => ?_⟩, fun hc => ?_⟩⟩
  · exact unresolved_of_step (hI.2 (World.step_some hs).1) hu hn hc hs hr
  · exact (pointersLogged_of_step (hI.2 (World.step_some hs).1) hc hs).1

/-- A process that closes something before its libraries are unloaded. -/
def resolvedRun : List (Deal × Answers) :=
  [(opensFile, granted), (.close 0, granted), (.cleanup .close, granted),
    (.cleanup .open_, granted), (.close 1, granted)]

theorem resolved_resolvedRun : ∃ t : World,
    Reach (World.step ⟨true, true, true⟩) (ClosesResolved ⟨true, true, true⟩)
      (World.start observedEnviron 7 1 [0, 1, 2]) t ∧ t.uses = [.lookup .open_, .call .open_,
        .lookup .close, .call .close, .call .close, .call .close, .call .close] ∧
      Resolved t.uses := by
  have hx : (Transition.exec (World.step ⟨true, true, true⟩)
      (ClosesResolved ⟨true, true, true⟩)
      (World.start observedEnviron 7 1 [0, 1, 2]) resolvedRun).any (fun t =>
        decide (t.uses = [.lookup .open_, .call .open_, .lookup .close, .call .close,
          .call .close, .call .close, .call .close])) = true := by
    decide +kernel
  obtain ⟨t, hr, ht⟩ := Transition.exists_reach_of_exec _ hx
  exact ⟨t, hr, of_decide_eq_true ht, (resolved_of_run hr).1⟩

/-- A process that closes nothing itself; `libvoyeur-open` is unloaded after `libvoyeur-close`. -/
def unresolvedRun : List (Deal × Answers) :=
  [(opensFile, granted), (.cleanup .close, granted), (.cleanup .open_, granted)]

theorem not_resolved_unresolvedRun : ∃ t : World,
    Reach (World.step ⟨true, true, true⟩) (fun _ a => a.1.Interposed)
      (World.start observedEnviron 7 1 [0, 1, 2]) t ∧ ¬ Resolved t.uses := by
  have hx : (Transition.exec (World.step ⟨true, true, true⟩) (fun _ a => a.1.Interposed)
      (World.start observedEnviron 7 1 [0, 1, 2]) unresolvedRun).any (fun t =>
        decide (t.uses = [.lookup .open_, .call .open_, .call .close])) = true := by
    decide +kernel
  obtain ⟨t, hr, ht⟩ := Transition.exists_reach_of_exec _ hx
  refine ⟨t, hr, fun h => ?_⟩
  rw [of_decide_eq_true ht] at h
  have hm := h [.lookup .open_, .call .open_] .close [] rfl
  simp at hm

end Voyeur
