import Voyeur.Client.Runs

/-! # Calls of `posix_spawn`

What a call of `posix_spawn` does in every state of a process. If its mutex is free and
everything is there that it reads, it returns what the real function returns and has written
an event. Otherwise it does not return.
-/

namespace Voyeur

open Program (From)

/-- None of the three pointers is `NULL`. -/
def SpawnCache.Complete (c : SpawnCache) : Prop :=
  c.libs ≠ none ∧ c.opts ≠ none ∧ c.sockpath ≠ none

instance (c : SpawnCache) : Decidable c.Complete := by
  unfold SpawnCache.Complete; infer_instance

/-- The value of the real function. -/
def Outcome.spawnRetval : Outcome → CInt
  | .ok _ => 0
  | .failed error => error

namespace World

/-- The values of the three variables that `posix_spawn` uses. -/
def spawnCache (w : World) : SpawnCache :=
  if (w.libs .posixSpawn).initialized then w.cache
  else ⟨getenv w.vars varLibs, getenv w.vars varOpts, getenv w.vars varSocket⟩

/-- `libvoyeur-exec` has a socket when it writes the event of the next call. -/
def spawnSocket (w : World) : Bool :=
  if (w.libs .posixSpawn).initialized then decide (0 ≤ (w.libs .posixSpawn).sock) else w.connects

/-- The options for that event. -/
def spawnOptions (w : World) : Byte :=
  if (w.libs .posixSpawn).initialized then (w.libs .posixSpawn).opts
  else clientOptions w.vars .exec

/-- The event is written: there is a socket, and neither an option nor `access` is against it. -/
def spawnWrites (w : World) : Bool :=
  w.spawnSocket && execBegins w.spawnOptions w.answers.accessible

def spawnEvent (w : World) (path : Option CStr) (argv envp : ArrayPtr) : ClientEvent :=
  execEvent path argv envp (getenv w.vars Observed.varPath) w.answers.cwd w.answers.child w.pid

/-- What comes out of the next call. -/
def spawnReturn (w : World) (pid : Bool) (path : Option CStr) (argv envp : ArrayPtr) :
    SpawnReturn where
  retval := w.answers.real.spawnRetval
  written :=
    if w.spawnSocket then
      (w.spawnEvent path argv envp).write w.spawnOptions w.answers.accessible
    else []
  stored := if pid then some w.answers.child else none

end World

/--
What `posix_spawn` reads is there: the variables, the environment to extend, and the arguments if
an event is written. Its mutex is free.
-/
def SpawnProvided (w : World) (argv envp : ArrayPtr) : Prop :=
  (w.libs .posixSpawn).locked = false ∧ w.spawnCache.Complete ∧ envp ≠ none ∧
    (w.spawnWrites = true → argv ≠ none)

instance (w : World) (argv envp : ArrayPtr) : Decidable (SpawnProvided w argv envp) := by
  unfold SpawnProvided; infer_instance

section

variable {w t : World}

theorem Initializes.answers_eq {l : Lib} (h : Initializes l w t) : t.answers = w.answers := by
  cases h <;> rfl

theorem Initializes.pid_eq {l : Lib} (h : Initializes l w t) : t.pid = w.pid := by
  cases h <;> rfl

theorem Initializes.vars_eq {l : Lib} (h : Initializes l w t) : t.vars = w.vars := by
  cases h <;> rfl

theorem Initializes.cache_eq (h : Initializes .posixSpawn w t) : t.cache = w.spawnCache := by
  unfold World.spawnCache
  cases h with
  | skip hi => rw [if_pos hi]
  | connected hi _ | failed hi _ =>
    rw [hi]
    rfl

theorem Initializes.spawnSocket_iff (h : Initializes .posixSpawn w t) :
    0 ≤ (t.libs .posixSpawn).sock ↔ w.spawnSocket = true := by
  unfold World.spawnSocket
  cases h with
  | skip hi => rw [if_pos hi, decide_eq_true_iff]
  | connected hi hc =>
    rw [World.withSocket_self, hi, hc]
    exact iff_of_true (Int.natCast_nonneg _) rfl
  | failed hi hc =>
    rw [World.withSocket_self, hi, hc]
    exact iff_of_false (by decide : ¬ (0 : ℤ) ≤ -1) (by simp)

theorem Initializes.opts_eq (h : Initializes .posixSpawn w t) :
    (t.libs .posixSpawn).opts = w.spawnOptions := by
  unfold World.spawnOptions
  cases h with
  | skip hi => rw [if_pos hi]
  | connected hi _ | failed hi _ =>
    rw [World.withSocket_self, hi]
    rfl

end

namespace Observed

variable {w : World} {E : Halt → World → Prop} {argv envp : ArrayPtr}

theorem from_augment_crashed {envp : Option (List CStr)} {libs opts sockpath : Option CStr}
    (h : envp = none ∨ libs = none ∨ opts = none ∨ sockpath = none) (he : E .crashed w) :
    From E w (augment envp libs opts sockpath) fun _ _ => False := by
  unfold augment
  split
  · rcases h with h | h | h | h <;> cases h
  · exact From.throw he

theorem from_augment_complete {envp : Option (List CStr)} {libs opts sockpath : Option CStr}
    (he : envp ≠ none) (hl : libs ≠ none) (ho : opts ≠ none) (hs : sockpath ≠ none) :
    From E w (augment envp libs opts sockpath) fun passed t => t = w ∧
      ∃ libs opts sockpath, passed = augmentEnvironment (envp.getD []) libs opts sockpath := by
  unfold augment
  split
  · exact From.pure ⟨rfl, _, _, _, rfl⟩
  · next hn =>
    obtain ⟨envp, rfl⟩ := Option.ne_none_iff_exists'.mp he
    obtain ⟨libs, rfl⟩ := Option.ne_none_iff_exists'.mp hl
    obtain ⟨opts, rfl⟩ := Option.ne_none_iff_exists'.mp ho
    obtain ⟨sockpath, rfl⟩ := Option.ne_none_iff_exists'.mp hs
    exact absurd rfl (hn envp libs opts sockpath rfl rfl rfl)

theorem from_realSpawn_called (function : SpawnFunction) (path : Option CStr)
    (argv : Option (List CStr)) (envp : List CStr) :
    From E w (realSpawn function path argv envp) fun retval t =>
      retval = w.answers.real.spawnRetval ∧ t = w.called (.spawn function path argv envp) := by
  unfold From realSpawn
  dsimp only [World.called]
  cases w.answers.real <;> exact ⟨rfl, rfl⟩

theorem from_initialization_complete (h : w.spawnCache.Complete) :
    From E w (initialize_ .posixSpawn) fun _ t => Initializes .posixSpawn w t := by
  apply from_initialization
  intro hi hn
  have hs := h.2.2
  unfold World.spawnCache at hs
  rw [hi] at hs
  exact absurd hn hs

/-- A call: the first one connects, the real function is called, and an event is written. -/
theorem from_posixSpawn_provided (h : SpawnProvided w argv envp) (function : SpawnFunction)
    (pid : Bool) (path : Option CStr) :
    From E w (posixSpawn function pid path argv envp) fun r t =>
      r = w.spawnReturn pid path argv envp ∧
        ∃ t₁ libs opts sockpath b, Initializes .posixSpawn w t₁ ∧
          Reports .posixSpawn (w.spawnEvent path argv envp)
            ((t₁.used [.call function.next]).called (.spawn function path (strings argv)
              (augmentEnvironment ((strings envp).getD []) libs opts sockpath))) b t := by
  obtain ⟨hk, hc, he, ha⟩ := h
  unfold posixSpawn
  apply (from_lock fun hl => absurd (hk.symm.trans hl) Bool.false_ne_true).skip
  intro _
  apply (from_initialization_complete hc).bind
  intro _ t₁ h₁
  rw [← h₁.cache_eq] at hc
  apply From.get
  apply (from_augment_complete (mt strings_eq_none_iff.mp he) hc.1 hc.2.1 hc.2.2).bind
  rintro _ t ⟨ht, libs, opts, sockpath, rfl⟩
  subst t
  apply (from_callNext_of_initializes h₁ _).bind
  rintro _ _ rfl
  apply (from_realSpawn_called function path (strings argv) _).bind
  rintro retval _ ⟨rfl, rfl⟩
  apply From.get
  generalize ht : (t₁.used [.call function.next]).called _ = t
  have hv : t.vars = w.vars := ht ▸ h₁.vars_eq
  have han : t.answers = w.answers := ht ▸ h₁.answers_eq
  have hp : t.pid = w.pid := ht ▸ h₁.pid_eq
  have hs : 0 ≤ (t.libs .posixSpawn).sock ↔ w.spawnSocket = true := ht ▸ h₁.spawnSocket_iff
  have ho : (t.libs .posixSpawn).opts = w.spawnOptions := ht ▸ h₁.opts_eq
  -- nothing that the event is about is missing
  have hn : w.spawnSocket = true → (execWriting w.spawnOptions w.answers.accessible path
      (strings argv) (strings envp) (getenv w.vars varPath) w.answers.cwd w.answers.child
      w.pid).crashes = false := by
    intro hw
    rw [← Bool.not_eq_true, execWriting_crashes_iff]
    rintro ⟨hb, hn | ⟨-, hn⟩⟩
    · exact ha (by rw [World.spawnWrites, hw, hb]; rfl) (strings_eq_none_iff.mp hn)
    · exact he (strings_eq_none_iff.mp hn)
  simp only [hv, han, hp, hs, ho]
  apply (from_report_writing (e := w.spawnEvent path argv envp)
    (fun _ _ => execWriting_of_not_crashes) fun hx hsock => ?_).bind
  · intro b t₃ h₃
    refine From.pure ⟨?_, t₁, libs, opts, sockpath, b, h₁, ht ▸ h₃⟩
    have hw : (if w.spawnSocket = true then (execWriting w.spawnOptions w.answers.accessible path
        (strings argv) (strings envp) (getenv w.vars varPath) w.answers.cwd w.answers.child
        w.pid).calls else []) = (w.spawnReturn pid path argv envp).written := by
      unfold World.spawnReturn
      refine ite_congr rfl (fun hw => ?_) fun _ => rfl
      rw [execWriting_of_not_crashes (hn hw)]
      rfl
    rw [hw]
    exact congrArg (fun o => SpawnReturn.mk (Outcome.spawnRetval o) _ _)
      (congrArg Answers.real h₁.answers_eq)
  · rw [ho, han, hn (hs.mp hsock)] at hx
    cases hx

/-- What holds when a call does not return: it waits, or crashes here or there. -/
theorem from_posixSpawn_stuck (h : ¬ SpawnProvided w argv envp) (function : SpawnFunction)
    (pid : Bool) (path : Option CStr) (hb : E .blocked w)
    (hs : getenv w.vars varSocket = none → E .crashed w)
    (hi : ∀ t, Initializes .posixSpawn w t → E .crashed t)
    (hx : ∀ t passed b u, Initializes .posixSpawn w t → argv = none →
      Sends (t.own .posixSpawn) (t.libs .posixSpawn).sock
        (wire [writeMsgType .event, writeEventType .exec, writeString path]) false
        ((t.used [.call function.next]).called (.spawn function path none passed)) b u →
      E .crashed u) :
    From E w (posixSpawn function pid path argv envp) fun _ _ => False := by
  unfold posixSpawn
  cases hk : (w.libs .posixSpawn).locked with
  | true =>
    apply From.bind (Q := fun _ _ => False) _ fun _ _ hf => hf.elim
    unfold lock
    apply From.get
    rw [hk]
    exact From.throw hb
  | false =>
    apply (from_lock fun hl => absurd (hk.symm.trans hl) Bool.false_ne_true).skip
    intro _
    apply (from_initialization fun _ hn => hs hn).bind
    intro _ t₁ h₁
    apply From.get
    by_cases hc : envp ≠ none ∧ w.spawnCache.Complete
    · obtain ⟨he, hc⟩ := hc
      have hw : w.spawnWrites = true ∧ argv = none := by
        by_contra hn
        rw [not_and] at hn
        exact h ⟨hk, hc, he, hn⟩
      obtain ⟨hw, rfl⟩ := hw
      obtain ⟨hsock, hbegins⟩ := Bool.and_eq_true_iff.mp hw
      rw [← h₁.cache_eq] at hc
      apply (from_augment_complete (mt strings_eq_none_iff.mp he) hc.1 hc.2.1 hc.2.2).bind
      rintro passed t ⟨ht, -⟩
      subst t
      apply (from_callNext_of_initializes h₁ _).bind
      rintro _ _ rfl
      apply (from_realSpawn_called function path (strings none) passed).bind
      rintro retval _ ⟨-, rfl⟩
      apply From.get
      generalize ht : (t₁.used [.call function.next]).called _ = t
      have hs' : 0 ≤ (t.libs .posixSpawn).sock := ht ▸ h₁.spawnSocket_iff.mpr hsock
      have hb' : execBegins (t.libs .posixSpawn).opts t.answers.accessible = true := by
        rw [← ht]
        change execBegins (t₁.libs .posixSpawn).opts t₁.answers.accessible = true
        rw [h₁.opts_eq, h₁.answers_eq]
        exact hbegins
      refine (from_report_crashes hs' ?_ fun b u hsend => ?_).bind fun _ _ hf => hf.elim
      · exact execWriting_crashes_iff.mpr ⟨hb', .inl rfl⟩
      · rw [execWriting_of_begins hb'] at hsend
        subst ht
        exact hx t₁ passed b u h₁ rfl hsend
    · refine (from_augment_crashed ?_ (hi t₁ h₁)).bind fun _ _ hf => hf.elim
      by_contra hn
      push Not at hn
      obtain ⟨he, hl, ho, hs⟩ := hn
      refine hc ⟨fun hn => he (strings_eq_none_iff.mpr hn), ?_⟩
      rw [← h₁.cache_eq]
      exact ⟨hl, ho, hs⟩

end Observed

end Voyeur
