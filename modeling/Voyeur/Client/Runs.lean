import Voyeur.Client.Calls

/-! # Runs of a process

An invariant is kept by every call of a process if it is kept where the call connects,
closes or unloads something; then it holds in every run. The first one is that no mutex
stays locked, in a process that does not fork.
-/

namespace Voyeur

open Program (From)
open Transition (Reach)

/-- The library is in the process. -/
def Preloaded.has (L : Preloaded) : Lib → Bool
  | .open_ => L.open_
  | .close => L.close
  | .posixSpawn => true

/-- The library whose function is called, `close` apart, if it keeps a connection. -/
def Deal.enters (L : Preloaded) : Deal → Option Lib
  | .open_ _ _ _ => if L.open_ then some .open_ else none
  | .posixSpawn _ _ _ _ => some .posixSpawn
  | _ => none

/-- Whether the call makes a connection for one event. -/
def Deal.single (L : Preloaded) (w : World) : Deal → Bool
  | .exec _ => true
  | .exit _ => L.exit && !w.didExitAlready
  | _ => false

/-- The arrays of strings that the call goes through are there. -/
def Deal.GivesArrays (w : World) : Deal → Prop
  | .posixSpawn _ _ argv envp => argv ≠ none ∧ envp ≠ none
  | .exec r => r.argv ≠ none ∧ r.envp w.environ ≠ none
  | _ => True

instance (w : World) (d : Deal) : Decidable (d.GivesArrays w) :=
  match d with
  | .posixSpawn _ _ _ _ | .exec _ => instDecidableAnd
  | .open_ _ _ _ | .close _ | .socket | .setenv _ | .exit _ | .cleanup _ | .fork _ _ =>
    instDecidableTrue

/-- The run goes on in another process. -/
def Deal.forks : Deal → Bool
  | .fork _ _ => true
  | _ => false

/-- What an invariant must be kept by, apart from the small operations, in the state `w`. -/
structure Deal.Kept (L : Preloaded) (E I : World → Prop) (w : World) (d : Deal) : Prop where
  enter : ∀ l t, d.enters L = some l → Initializes l w t → I t
  close : ∀ fd, d = .close fd → From (fun _ => E) w (Observed.anyClose L .application fd) fun _ => I
  socket : d = .socket → w.answers.socket = true → I (w.allocate .socket)
  single : ∀ type opts (x : Writing) didExitAlready, d.single L w = true → type ≠ .close →
    (d.GivesArrays w → ∃ (e : ClientEvent) (accessible : Bool),
      e.type = type ∧ x = e.writing opts accessible) →
    From (fun _ => E) { w with didExitAlready := didExitAlready }
      (Observed.oneConnection L type opts x) fun _ => I
  broken : ¬ d.GivesArrays w → ∀ t u calls b, I t → (t.libs .posixSpawn).initialized = true →
    0 ≤ (t.libs .posixSpawn).sock →
    Sends (t.own .posixSpawn) (t.libs .posixSpawn).sock (wire calls) false t b u → E u
  cleanup : ∀ l, d = .cleanup l → L.has l = true →
    From (fun _ => E) w (Observed.cleanup L l) fun _ => I
  fork : ∀ child held, d = .fork child held → I (w.forked child held)

theorem Observed.from_perform {L : Preloaded} {E I : World → Prop} {w : World} {d : Deal}
    (hk : Kept E I) (h : I w) (hd : d.Kept L E I w) :
    From (fun _ => E) w (d.perform L) fun _ => I := by
  cases d with
  | open_ path oflag mode =>
    apply From.ite
    · intro hL
      have hi := fun t => hd.enter .open_ t (if_pos hL)
      exact (from_open hk h hi path oflag mode).discarded
    · intro _
      exact ((from_realOpen hk h _ _ _).conseq fun _ _ ht => ht.1).discarded
  | close fd => exact (hd.close fd rfl).discarded
  | socket =>
    apply From.modify
    split
    · next hs => exact hd.socket rfl hs
    · exact h
  | setenv environ => exact From.modify (hk.same w _ h ⟨rfl, rfl, rfl, rfl, rfl, rfl, rfl, rfl⟩)
  | posixSpawn function path argv envp =>
    have hi := fun t => hd.enter .posixSpawn t rfl
    exact (from_posixSpawn hk h hi function false path argv envp hd.broken).discarded
  | exec r =>
    apply From.discarded
    unfold From
    rw [r.perform_eq]
    apply from_exec hk
    intro opts x hx
    exact hd.single .exec opts x w.didExitAlready rfl (by decide) hx
  | exit status =>
    apply From.ite
    · intro hL
      apply from_writeExitEvent h
      intro e opts ht hn
      apply hd.single .exit opts _ true (by simp [Deal.single, hL, hn]) (by decide)
      exact fun _ => ⟨e, false, ht, rfl⟩
    · intro _
      exact From.pure h
  | cleanup l =>
    cases l with
    | open_ | close =>
      apply From.ite
      · intro hL
        exact hd.cleanup _ rfl hL
      · intro _
        exact From.pure h
    | posixSpawn => exact hd.cleanup _ rfl rfl
  | fork child held => exact From.modify (hd.fork child held rfl)

section

variable {L : Preloaded} {E I : World → Prop} {ok : World → Deal × Answers → Prop} {w t : World}

/-- The state in which the system's answers to the next call are known. -/
def World.answered (w : World) (answers : Answers) : World := { w with answers := answers }

theorem World.step_some {a : Deal × Answers} (h : w.step L a = some t) :
    w.halted = false ∧ ((∃ u, a.1.perform L (w.answered a.2) = .ok u t) ∨
      ∃ e u, a.1.perform L (w.answered a.2) = .error e u ∧ t = { u with halted := true }) := by
  unfold World.step at h
  split at h
  · cases h
  · next hh =>
    refine ⟨by simpa using hh, ?_⟩
    split at h
    · next u v hp =>
      obtain rfl : v = t := by simpa using h
      exact .inl ⟨u, hp⟩
    · next e u hp =>
      obtain rfl : { u with halted := true } = t := by simpa using h
      exact .inr ⟨e, u, hp, rfl⟩

theorem eq_of_halted (h : Reach (World.step L) ok w t) (hh : w.halted = true) :
    t = w := by
  refine h.invariant (I := fun u => u = w) rfl ?_
  rintro u a v rfl _ hs
  have hn := (World.step_some hs).1
  rw [hh] at hn
  cases hn

/--
If every allowed call keeps `I`, or stops the process in a state with `E`, then `I` holds in a
run as long as the process goes on, and `E` holds always.
-/
theorem run_invariant (hE : ∀ w, I w → E w) (hh : ∀ w, E w → E { w with halted := true })
    (hp : ∀ w a, I w → ok w a → From (fun _ => E) (w.answered a.2) (a.1.perform L) fun _ => I)
    (h : Reach (World.step L) ok w t) (hw : I w) : E t ∧ (t.halted = false → I t) := by
  apply h.invariant ⟨hE w hw, fun _ => hw⟩
  rintro u a v ⟨-, hu⟩ ha hs
  obtain ⟨hn, ⟨x, hx⟩ | ⟨e, x, hx, rfl⟩⟩ := World.step_some hs
  · have hv : I v := (hp u a (hu hn) ha).ok hx
    exact ⟨hE v hv, fun _ => hv⟩
  · have hx' : E x := (hp u a (hu hn) ha).error hx
    exact ⟨hh x hx', fun hv => by cases hv⟩

end

/-- An invariant that every operation keeps, whichever call it belongs to. -/
structure Lasting (I : World → Prop) : Prop where
  same : ∀ w t, I w → SameSockets w t → I t
  allocate : ∀ w x, (∀ i, x ≠ .connection i) → I w → I (w.allocate x)
  connect : ∀ w type opts, I w → I (w.connect type opts)
  initializes : ∀ w t l, I w → Initializes l w t → I t
  sends : ∀ w t own fd bytes last b, I w → Sends own fd bytes last w b t → I t
  realCloses : ∀ w t fd retval, I w → RealCloses fd w retval t → I t
  recorded : ∀ w r, I w → I (w.recorded r)
  dropSocket : ∀ w l, I w → I (w.dropSocket l)
  forget : ∀ w l, I w → I (w.forget l)
  finalize : ∀ w, I w → I w.finalize

namespace Lasting

variable {L : Preloaded} {I : World → Prop} {w t : World}

theorem reports {l : Lib} {e : ClientEvent} {b : Bool} (hI : Lasting I) (h : I w)
    (hr : Reports l e w b t) : I t := by
  cases hr with
  | skip _ => exact h
  | sends _ hs => exact hI.sends _ _ _ _ _ _ _ h hs

theorem closes {caller : Caller} {fd : ℤ} (hI : Lasting I) (h : I w)
    (hc : Closes L caller fd w t) : I t := by
  cases hc with
  | plain _ hr => exact hI.realCloses _ _ _ _ h hr
  | forwarded _ _ hr => exact hI.recorded _ _ (hI.realCloses _ _ _ _ h hr)
  | reported _ _ hi hr he =>
    have hc := hI.realCloses _ _ _ _ (hI.initializes _ _ _ h hi) hr
    exact hI.recorded _ _ (hI.reports hc he)

theorem kept (hI : Lasting I) : Kept I I where
  stop _ h := h
  same := hI.same
  file w h := hI.allocate w .file (fun _ => by simp) h
  report _ _ _ _ _ h _ _ _ hr := hI.reports h hr

theorem from_anyClose (hI : Lasting I) (h : I w) (caller : Caller) (fd : ℤ) :
    From (fun _ => I) w (Observed.anyClose L caller fd) fun _ => I :=
  (Observed.from_anyClose_of h (hI.same _ _ h (.used _ _)) caller fd).conseq
    fun _ _ hc => hI.closes h hc

theorem from_oneConnection (hI : Lasting I) (h : I w) (type : EventType) (opts : Byte)
    (x : Writing) : From (fun _ => I) w (Observed.oneConnection L type opts x) fun _ => I := by
  apply Observed.from_oneConnection (C := I) (K := I) (D := I) (fun _ => h) (fun _ _ => h)
  · intro _
    exact hI.connect w type opts h
  · intro _ t t' ht hs
    exact hI.sends _ _ _ _ _ _ _ ht hs
  · intro _ t ht
    exact ht
  · intro _ t t' ht hs
    exact hI.sends _ _ _ _ _ _ _ ht hs
  · intro t ht
    exact hI.from_anyClose ht .library _
  · intro t ht
    exact ht
  · intro t ht
    exact ht

theorem from_unload (hI : Lasting I) (h : I w) (l : Lib) :
    From (fun _ => I) w (Observed.unload L l) fun _ => I := by
  apply Observed.from_unload (C := I) (D := I)
  · intro _ t _ hs
    exact hI.sends _ _ _ _ _ _ _ h hs
  · intro t ht
    exact hI.from_anyClose ht .library _
  · intro t ht
    exact ht
  · intro t ht
    exact hI.forget _ l (hI.dropSocket t l ht)
  · intro _
    exact hI.forget w l h
  · intro _
    exact h

theorem from_perform (hI : Lasting I) (h : I w) (d : Deal)
    (hf : ∀ child held, d = .fork child held → I (w.forked child held)) :
    From (fun _ => I) w (d.perform L) fun _ => I := by
  apply Observed.from_perform hI.kept h
  constructor
  · intro l t _ hi
    exact hI.initializes _ _ _ h hi
  · intro fd _
    exact hI.from_anyClose h .application fd
  · intro _ _
    exact hI.allocate w .socket (fun _ => by simp) h
  · intro type opts x didExitAlready _ _ _
    have h' : I { w with didExitAlready := didExitAlready } :=
      hI.same _ _ h ⟨rfl, rfl, rfl, rfl, rfl, rfl, rfl, rfl⟩
    exact hI.from_oneConnection h' type opts x
  · intro _ t u calls b ht _ _ hs
    exact hI.sends _ _ _ _ _ _ _ ht hs
  · intro l _ _
    apply Observed.from_cleanup (Observed.from_lock fun _ => h)
    · intro _
      exact hI.from_unload h l
    · intro _
      exact hI.from_unload (hI.finalize w h) l
  · exact hf

/-- It holds in every run in whose forks it is kept, and does not depend on the halt. -/
theorem of_run {ok : World → Deal × Answers → Prop} (hI : Lasting I)
    (hh : ∀ w, I w → I { w with halted := true })
    (hf : ∀ w a child held, I w → ok w a → a.1 = .fork child held → I (w.forked child held))
    (h : Reach (World.step L) ok w t) (hw : I w) : I t := by
  refine (run_invariant (I := I) (fun _ hw => hw) hh ?_ h hw).1
  intro u a hu ha
  have hs : ∀ u, SameSockets u (u.answered a.2) := fun _ => ⟨rfl, rfl, rfl, rfl, rfl, rfl, rfl, rfl⟩
  apply hI.from_perform (hI.same _ _ hu (hs u))
  intro child held hd
  exact hI.same _ _ (hf u a child held hu ha hd) (hs _)

end Lasting

/-- No mutex is held by anybody else: between the calls of one thread they are free. -/
def World.Unlocked (w : World) : Prop := ∀ l, (w.libs l).locked = false

section

variable {L : Preloaded} {caller : Caller} {ok : World → Deal × Answers → Prop} {w t : World}
  {l : Lib} {fd : ℤ}

theorem World.Unlocked.not_locked (h : w.Unlocked) (l : Lib) : ¬ (w.libs l).locked = true := by
  rw [h l]
  exact Bool.false_ne_true

theorem World.Unlocked.congr (h : w.Unlocked) (hl : t.libs = w.libs) : t.Unlocked := by
  unfold World.Unlocked
  rw [hl]
  exact h

theorem World.Unlocked.setLib (h : w.Unlocked) (l : Lib) (lib : Library)
    (hl : lib.locked = false) : (w.setLib l lib).Unlocked := by
  intro l'
  by_cases he : l' = l
  · subst he
    rw [World.setLib_self]
    exact hl
  · rw [World.setLib_of_ne he]
    exact h l'

theorem lasting_unlocked : Lasting World.Unlocked where
  same _ _ h hs := h.congr hs.libs
  allocate _ _ _ h := h.congr rfl
  connect _ _ _ h := h.congr rfl
  initializes w t l h hi := by
    cases hi with
    | skip _ => exact h
    | connected _ _ =>
      have hs := h.setLib l ((w.libs l).init (clientOptions w.vars l.type) w.free) (h l)
      exact hs.congr rfl
    | failed _ _ =>
      have hs := h.setLib l ((w.libs l).init (clientOptions w.vars l.type) (-1)) (h l)
      exact hs.congr rfl
  sends _ _ _ _ _ _ _ h hs := h.congr hs.libs_eq
  realCloses _ _ _ _ h hr := h.congr hr.libs_eq
  recorded _ _ h := h.congr rfl
  dropSocket _ l h := h.setLib l _ (h l)
  forget _ l h := h.setLib l _ (h l)
  finalize _ h := h.setLib .close _ (h .close)

theorem unlocked_of_run {environ : StringArray} {pid ppid : CInt} {table : List ℕ}
    (hf : ∀ w a, ok w a → a.1.forks = false)
    (h : Reach (World.step L) ok (World.start environ pid ppid table) w) : w.Unlocked := by
  apply lasting_unlocked.of_run (fun _ hw => hw) _ h
  · intro l
    rfl
  · intro u a child held _ ha hd
    have hn := hf u a ha
    rw [hd] at hn
    cases hn

end

/-- The environment of an observed process. -/
def observedEnviron : StringArray :=
  ⟨[varLibs ++ ascii ['l'], varOpts ++ ascii ['@', '@', '@', '@'], varSocket ++ ascii ['s']],
    by decide⟩

/-- The application opens a file. -/
def opensFile : Deal := .open_ (some (ascii ['f'])) 0 0

/-- The system grants what it is asked for. -/
def granted : Answers := ⟨true, true, true, none, .ok 0, 0, []⟩

end Voyeur
