import Voyeur.Client.Spawning

/-! # Calls in an incomplete environment

The functions that start a program read three variables of the environment and take it for
granted that they are there. A process whose environment lacks one of them crashes where the
value is read as a string, and so does one that has no array where one is gone through. If
no mutex is locked for ever, the real function is called exactly once otherwise.
-/

namespace Voyeur

open Program (From)
open Transition (Reach)

/-- The entries that do not define the preload variable. -/
def otherEntries (envp : List CStr) : List CStr :=
  envp.filter fun entry => (valueOf insertLibs entry).isNone

def NextCall.launches : NextCall → Bool
  | .exec _ _ _ _ => true
  | .spawn _ _ _ _ => true
  | .open_ _ _ _ => false
  | .close _ => false

/-- The real functions that have been called to start a program. -/
def World.launches (w : World) : List NextCall := w.calls.filter NextCall.launches

/-- A call that starts a program. -/
inductive Launch
  | exec (request : ExecRequest)
  | spawn (function : SpawnFunction) (path : Option CStr) (argv envp : ArrayPtr)
  deriving DecidableEq

/-- The arguments as the caller gives them. -/
def ExecRequest.arguments : ExecRequest → Option (List CStr)
  | .execve _ argv _ | .execvp _ argv | .execvpe _ argv _ | .execv _ argv => strings argv
  | .execlp _ start rest | .execl _ start rest | .execle _ start rest _ => some (start :: rest.val)

/-- The first of the arguments in a list is the path. -/
def ExecRequest.StartIsPath : ExecRequest → Prop
  | .execlp path start _ | .execl path start _ | .execle path start _ _ => start = path
  | .execve _ _ _ | .execvp _ _ | .execvpe _ _ _ | .execv _ _ => True

instance (r : ExecRequest) : Decidable r.StartIsPath := by
  cases r <;> unfold ExecRequest.StartIsPath <;> infer_instance

namespace Launch

def perform (L : Preloaded) : Launch → Observed PUnit
  | .exec request => discard (request.perform L)
  | .spawn function path argv envp => discard (Observed.posixSpawn function false path argv envp)

/-- The environment that the caller gives, or that of the process. -/
def envp (environ : ArrayPtr) : Launch → ArrayPtr
  | .exec request => request.envp environ
  | .spawn _ _ _ envp => envp

/-- The call of the real function, up to the environment that is passed. -/
def real : Launch → List CStr → NextCall
  | .exec request => .exec request.function request.path request.arguments
  | .spawn function path argv _ => .spawn function path (strings argv)

end Launch

/-- Between the states there was exactly one such call, and the entries of `envp` were passed. -/
def CalledOnce (call : List CStr → NextCall) (envp : Option (List CStr)) (w t : World) : Prop :=
  ∃ passed, t.launches = w.launches ++ [call passed] ∧
    otherEntries (envp.getD []) <+: otherEntries passed

/-- The real function was called once with what the caller gave. -/
def Launched (w : World) (l : Launch) (t : World) : Prop :=
  CalledOnce l.real (strings (l.envp w.environ)) w t

/-- The call calls the real function and does not crash, neither on a `NULL` pointer nor later. -/
def Survives (L : Preloaded) (w : World) (l : Launch) : Prop :=
  From (fun e t => e = .replaced ∧ Launched w l t) w (l.perform L) fun _ t => Launched w l t

/--
`close` can be called by the libraries: its mutex is free, or it takes none any more and its
pointer was looked up.
-/
def Closeable (L : Preloaded) (w : World) : Prop :=
  L.close = true →
    if (w.libs .close).finalized then (w.libs .close).next = true
    else (w.libs .close).locked = false

/--
A connection for one event can be made and closed: the name of the socket is there, and `close`
can be called if there is a socket.
-/
def Connectable (L : Preloaded) (w : World) : Prop :=
  getenv w.vars varSocket ≠ none ∧ (w.answers.socket = true → Closeable L w)

instance (L : Preloaded) (w : World) : Decidable (Closeable L w) := by
  unfold Closeable; infer_instance

instance (L : Preloaded) (w : World) : Decidable (Connectable L w) := by
  unfold Connectable; infer_instance

/--
What an exec function reads is there: the variables, the environment to extend, and the arguments
if an event is written.
-/
def ExecProvided (L : Preloaded) (w : World) (argv envp : ArrayPtr) : Prop :=
  getenv w.vars varLibs ≠ none ∧ getenv w.vars varOpts ≠ none ∧ Connectable L w ∧
    envp ≠ none ∧
    (w.answers.socket = true →
      execBegins (clientOptions w.vars .exec) w.answers.accessible = true → argv ≠ none)

instance (L : Preloaded) (w : World) (argv envp : ArrayPtr) :
    Decidable (ExecProvided L w argv envp) := by
  unfold ExecProvided; infer_instance

/-- What the call reads is there. -/
def Provided (L : Preloaded) (w : World) : Launch → Prop
  | .exec r => ExecProvided L w r.argv (r.envp w.environ) ∧ r.StartIsPath
  | .spawn _ _ argv envp => SpawnProvided w argv envp

instance (L : Preloaded) (w : World) (l : Launch) : Decidable (Provided L w l) := by
  cases l <;> unfold Provided <;> infer_instance

theorem otherEntries_append (envp envp' : List CStr) :
    otherEntries (envp ++ envp') = otherEntries envp ++ otherEntries envp' :=
  List.filter_append ..

theorem otherEntries_cons_of_prefix {entry : CStr} (h : insertLibs <+: entry)
    (envp : List CStr) : otherEntries (entry :: envp) = otherEntries envp := by
  obtain ⟨value, rfl⟩ := h
  simp [otherEntries]

/-- An augmented environment starts with the entries of the original one. -/
theorem otherEntries_prefix_augment (envp : List CStr) (libs opts sockpath : CStr) :
    otherEntries envp <+: otherEntries (augmentEnvironment envp libs opts sockpath) := by
  rcases preload_cases envp with hn | ⟨pre, value, post, rfl, hn⟩
  · rw [augment_of_none hn, List.append_assoc, otherEntries_append]
    exact List.prefix_append _ _
  · rw [augment_of_last hn]
    simp only [otherEntries_append,
      otherEntries_cons_of_prefix (insertLibs_prefix_insertEntry _ _),
      otherEntries_cons_of_prefix (List.prefix_append _ _)]
    exact List.prefix_append _ _

/-- Nothing was launched, and the environment is the same. -/
structure NoLaunch (w t : World) : Prop where
  launches : t.launches = w.launches
  environ : t.environ = w.environ

section

variable {w t u : World} {l : Lib} {L : Preloaded} {caller : Caller} {own : ℕ} {fd : ℤ}
  {bytes : Bytes} {last b : Bool} {e : ClientEvent} {retval : CInt}

theorem NoLaunch.trans (h : NoLaunch w t) (h' : NoLaunch t u) : NoLaunch w u :=
  ⟨h'.launches.trans h.launches, h'.environ.trans h.environ⟩

theorem NoLaunch.vars_eq (h : NoLaunch w t) : t.vars = w.vars :=
  congrArg (fun a => (strings a).getD []) h.environ

theorem Sends.noLaunch (h : Sends own fd bytes last w b t) : NoLaunch w t := by
  cases h <;> exact ⟨rfl, rfl⟩

theorem Initializes.noLaunch (h : Initializes l w t) : NoLaunch w t := by
  cases h <;> exact ⟨rfl, rfl⟩

theorem Reports.noLaunch (h : Reports l e w b t) : NoLaunch w t := by
  cases h with
  | skip _ => exact ⟨rfl, rfl⟩
  | sends _ hs => exact hs.noLaunch

theorem RealCloses.noLaunch (h : RealCloses fd w retval t) : NoLaunch w t := by
  have hc : (w.called (.close fd)).launches = w.launches := by
    simp [World.launches, World.called, NextCall.launches]
  cases h with
  | unknown _ => exact ⟨hc, rfl⟩
  | released _ => exact ⟨hc, rfl⟩

theorem Closes.noLaunch (h : Closes L caller fd w t) : NoLaunch w t := by
  cases h with
  | plain _ hr => exact hr.noLaunch
  | forwarded _ _ hr => exact hr.noLaunch.trans ⟨rfl, rfl⟩
  | reported _ _ hi hr he =>
    have hq := (hi.noLaunch.trans hr.noLaunch).trans he.noLaunch
    exact hq.trans ⟨rfl, rfl⟩

end

theorem Initializes.locked_eq {w t : World} {l : Lib} (h : Initializes l w t) :
    (t.libs l).locked = (w.libs l).locked := by
  cases h with
  | skip _ => rfl
  | connected _ _ | failed _ _ =>
    rw [World.withSocket_self]
    rfl

/-- In the middle of a call that began in `w`: `close` can be called. -/
structure Steady (L : Preloaded) (w t : World) : Prop extends NoLaunch w t where
  closeable : Closeable L t

section

variable {w t u : World} {L : Preloaded} {caller : Caller} {own : ℕ} {fd : ℤ}
  {bytes : Bytes} {last b : Bool}

theorem Closeable.congr (h : Closeable L w) (hl : t.libs = w.libs) : Closeable L t := by
  unfold Closeable
  rw [hl]
  exact h

theorem Steady.sends (h : Steady L w t) (hs : Sends own fd bytes last t b u) : Steady L w u :=
  ⟨h.toNoLaunch.trans hs.noLaunch, h.closeable.congr hs.libs_eq⟩

theorem Steady.closes (h : Steady L w t) (hc : Closes L caller fd t u) : Steady L w u := by
  refine ⟨h.toNoLaunch.trans hc.noLaunch, ?_⟩
  cases hc with
  | plain _ hr => exact h.closeable.congr hr.libs_eq
  | forwarded _ _ hr => exact h.closeable.congr hr.libs_eq
  | @reported _ _ t₁ t₂ _ hL hf hi hr he =>
    -- the destructor has not run, and nothing here runs it
    have h₁ : Closeable L t₁ := by
      intro _
      have hl := h.closeable hL
      rw [hf] at hl
      rw [hi.finalized_eq, hf, hi.locked_eq]
      exact hl
    exact h₁.congr (he.libs_eq.trans hr.libs_eq)

end

namespace Observed

variable {w t : World} {L : Preloaded} {E : Halt → World → Prop}

theorem from_anyClose_steady (h : Steady L w t) (hs : getenv w.vars varSocket ≠ none)
    (caller : Caller) (fd : ℤ) : From E t (anyClose L caller fd) fun _ => Steady L w := by
  rw [← h.vars_eq] at hs
  have hc : From E t (anyClose L caller fd) fun _ => Closes L caller fd t := by
    apply from_anyClose
    · intro hL hf hl
      have hk := h.closeable hL
      rw [hf, if_neg Bool.false_ne_true, hl] at hk
      cases hk
    · intro _ _ hn
      exact absurd hn hs
    · intro hL hf hn
      have hk := h.closeable hL
      rw [hf, if_pos rfl, hn] at hk
      cases hk
  exact hc.conseq fun _ _ hc => h.closes hc

theorem from_oneConnection_connectable (h : Connectable L w) (type : EventType) (opts : Byte)
    {x : Writing} (hx : w.connects = true → x.crashes = false) :
    From E w (oneConnection L type opts x) fun _ => NoLaunch w := by
  apply from_oneConnection (C := fun t => Steady L w t ∧ w.connects = true) (K := Steady L w)
    (D := Steady L w)
  · intro hs
    exact absurd hs h.1
  · intro _ _
    exact ⟨rfl, rfl⟩
  · intro hw
    have hk := h.2 (World.connects_iff.mp hw).2
    exact ⟨⟨⟨rfl, rfl⟩, hk.congr rfl⟩, hw⟩
  · rintro _ t t' ⟨ht, hw⟩ hs
    exact ⟨ht.sends hs, hw⟩
  · rintro hn t ⟨-, hw⟩
    rw [hx hw] at hn
    cases hn
  · rintro _ t t' ⟨ht, -⟩ hs
    exact ht.sends hs
  · intro t ht
    exact from_anyClose_steady ht h.1 .library _
  · intro t ht
    exact ht
  · intro t ht
    exact ht.toNoLaunch

theorem from_oneConnection_breaks {type : EventType} {opts : Byte} {x : Writing}
    (hw : w.connects = true) (hx : x.crashes = true)
    (h : ∀ b t, Sends w.opened w.free (wire x.calls) false (w.connect type opts) b t →
      E .crashed t) : From E w (oneConnection L type opts x) fun _ _ => False := by
  have hg := (World.connects_iff.mp hw).1
  unfold oneConnection
  apply From.get
  apply (from_createClientSocket (fun hn => absurd hn hg) type opts).bind
  rintro sock t ⟨-, ⟨-, rfl, rfl⟩ | ⟨hn, -⟩⟩
  · rw [if_pos (Int.natCast_nonneg _)]
    exact (from_emit_crashes hx h).bind fun _ _ hf => hf.elim
  · rw [hw] at hn
    cases hn

/--
The interposed `close` may wait for ever for its mutex, and after its destructor it calls the
real function through a pointer that may be `NULL`.
-/
theorem from_anyClose_stuck (h : ¬ Closeable L w) (caller : Caller) (fd : ℤ) :
    From (fun e _ => e ≠ .replaced) w (anyClose L caller fd) fun _ _ => False := by
  unfold Closeable at h
  push Not at h
  obtain ⟨hL, hk⟩ := h
  unfold anyClose close
  rw [if_pos hL]
  apply From.get
  cases hf : (w.libs .close).finalized with
  | true =>
    rw [hf, if_pos rfl, Bool.not_eq_true] at hk
    rw [if_pos rfl]
    unfold forwardClose callNext
    apply From.bind (Q := fun _ _ => False)
    · apply From.bind (From.modify (Q := fun _ t => t = w.used [.call .close]) rfl)
      rintro _ _ rfl
      apply From.get
      refine From.ite (fun _ => From.throw (by decide)) fun hc => ?_
      exact absurd (congrArg not hk) hc
    · intro _ _ hx
      exact hx.elim
  | false =>
    rw [hf, if_neg Bool.false_ne_true, Bool.not_eq_false] at hk
    rw [if_neg Bool.false_ne_true]
    unfold reportClose lock
    apply From.bind (Q := fun _ _ => False)
    · apply From.get
      rw [hk]
      exact From.throw (by decide)
    · intro _ _ hx
      exact hx.elim

theorem from_oneConnection_stuck (h : ¬ Connectable L w) (type : EventType) (opts : Byte)
    (x : Writing) :
    From (fun e _ => e ≠ .replaced) w (oneConnection L type opts x) fun _ _ => False := by
  have hk : w.connects = true → ¬ Closeable L w := by
    intro hw hc
    exact h ⟨(World.connects_iff.mp hw).1, fun _ => hc⟩
  apply from_oneConnection (C := fun t => w.connects = true ∧ t.libs = w.libs)
    (K := fun t => w.connects = true ∧ t.libs = w.libs) (D := fun _ => False)
  · intro _
    decide
  · intro hs hw
    apply h
    refine ⟨hs, fun ha => ?_⟩
    rw [World.connects_iff.mpr ⟨hs, ha⟩] at hw
    cases hw
  · intro hw
    exact ⟨hw, rfl⟩
  · rintro _ t t' ⟨hw, ht⟩ hs
    exact ⟨hw, hs.libs_eq.trans ht⟩
  · intro _ _ _
    decide
  · rintro _ t t' ⟨hw, ht⟩ hs
    exact ⟨hw, hs.libs_eq.trans ht⟩
  · rintro t ⟨hw, ht⟩
    exact from_anyClose_stuck (fun hc => hk hw (hc.congr ht.symm)) .library _
  · intro t ht
    exact ht.elim
  · intro t ht
    exact ht.elim

theorem calledOnce_called (call : List CStr → NextCall) {envp : Option (List CStr)}
    {passed : List CStr} (h : NoLaunch w t) (hc : (call passed).launches = true)
    (hp : otherEntries (envp.getD []) <+: otherEntries passed) :
    CalledOnce call envp w (t.called (call passed)) := by
  refine ⟨passed, ?_, hp⟩
  rw [← h.launches]
  simp [World.launches, World.called, hc]

theorem from_realExec_calledOnce {envp : Option (List CStr)} {passed : List CStr}
    (h : NoLaunch w t) (hp : otherEntries (envp.getD []) <+: otherEntries passed)
    (function : ExecFunction) (path : Option CStr) (argv : Option (List CStr)) :
    From (fun e u => e = .replaced ∧ CalledOnce (.exec function path argv) envp w u) t
      (realExec function path argv passed) fun _ =>
        CalledOnce (.exec function path argv) envp w := by
  have hc := calledOnce_called (.exec function path argv) h rfl hp
  unfold From realExec
  dsimp only [World.called]
  cases hr : t.answers.real with
  | ok n => exact ⟨rfl, hc⟩
  | failed e => exact hc

theorem from_exec_calledOnce {argv envp : ArrayPtr} (h : ExecProvided L w argv envp)
    (function : ExecFunction) (path : Option CStr) :
    From (fun e t => e = .replaced ∧
        CalledOnce (.exec function path (strings argv)) (strings envp) w t) w
      (exec L function path (strings argv) (strings envp)) fun _ =>
        CalledOnce (.exec function path (strings argv)) (strings envp) w := by
  obtain ⟨hl, ho, hc, he, ha⟩ := h
  have he' : strings envp ≠ none := mt strings_eq_none_iff.mp he
  unfold exec
  apply From.get
  apply (from_oneConnection_connectable hc _ _ fun hw => ?_).bind
  · intro _ t ht
    apply (from_augment_complete he' hl ho hc.1).bind
    rintro _ _ ⟨rfl, libs, opts, sockpath, rfl⟩
    have hp := otherEntries_prefix_augment ((strings envp).getD []) libs opts sockpath
    exact from_realExec_calledOnce ht hp function path (strings argv)
  · rw [← Bool.not_eq_true, execWriting_crashes_iff]
    rintro ⟨hb, hn | ⟨-, hn⟩⟩
    · exact ha (World.connects_iff.mp hw).2 hb (strings_eq_none_iff.mp hn)
    · exact he' hn

theorem from_exec_stuck {argv envp : ArrayPtr} (h : ¬ ExecProvided L w argv envp)
    (function : ExecFunction) (path : Option CStr) :
    From (fun e _ => e ≠ .replaced) w (exec L function path (strings argv) (strings envp))
      fun _ _ => False := by
  unfold exec
  apply From.get
  by_cases hc : Connectable L w
  · by_cases hx : w.connects = true ∧ (execWriting (clientOptions w.vars .exec)
        w.answers.accessible path (strings argv) (strings envp) (getenv w.vars varPath)
        w.answers.cwd w.pid w.ppid).crashes = true
    · refine (from_oneConnection_breaks hx.1 hx.2 fun _ _ _ => ?_).bind fun _ _ hf => hf.elim
      decide
    · apply (from_oneConnection_connectable hc _ _ fun hw => ?_).bind
      · intro _ t _
        refine (from_augment_crashed ?_ (by decide)).bind fun _ _ hf => hf.elim
        by_contra hn
        push Not at hn
        obtain ⟨he, hl, ho, hs⟩ := hn
        refine h ⟨hl, ho, hc, fun hn => he (strings_eq_none_iff.mpr hn), fun ha hb hn => hx ?_⟩
        have hw := World.connects_iff.mpr ⟨hs, ha⟩
        exact ⟨hw, execWriting_crashes_iff.mpr ⟨hb, .inl (strings_eq_none_iff.mpr hn)⟩⟩
      · rw [← Bool.not_eq_true]
        exact fun hn => hx ⟨hw, hn⟩
  · exact (from_oneConnection_stuck hc _ _ _).bind fun _ _ hf => hf.elim

theorem from_posixSpawn_calledOnce {argv envp : ArrayPtr} (h : SpawnProvided w argv envp)
    (function : SpawnFunction) (pid : Bool) (path : Option CStr) :
    From E w (posixSpawn function pid path argv envp) fun _ =>
      CalledOnce (.spawn function path (strings argv)) (strings envp) w := by
  apply (from_posixSpawn_provided h function pid path).conseq
  rintro _ t ⟨-, t₁, libs, opts, sockpath, b, h₁, h₃⟩
  have hp := otherEntries_prefix_augment ((strings envp).getD []) libs opts sockpath
  have hu : NoLaunch w (t₁.used [.call function.next]) := h₁.noLaunch.trans ⟨rfl, rfl⟩
  have hc := calledOnce_called (.spawn function path (strings argv)) hu rfl hp
  obtain ⟨passed, hl, hp'⟩ := hc
  exact ⟨passed, h₃.noLaunch.launches.trans hl, hp'⟩

theorem from_posixSpawn_ne_replaced {argv envp : ArrayPtr} (h : ¬ SpawnProvided w argv envp)
    (function : SpawnFunction) (pid : Bool) (path : Option CStr) :
    From (fun e _ => e ≠ .replaced) w (posixSpawn function pid path argv envp)
      fun _ _ => False := by
  apply from_posixSpawn_stuck h
  · decide
  · intro _
    decide
  · intro _ _
    decide
  · intro _ _ _ _ _ _ _
    decide

end Observed

section

variable {L : Preloaded} {w t : World}

theorem ExecRequest.argv_eq_iff (r : ExecRequest) :
    strings r.argv = r.arguments ↔ r.StartIsPath := by
  cases r <;> simp [ExecRequest.argv, ExecRequest.arguments, ExecRequest.StartIsPath,
    Observed.varargsToArgv, strings, eq_comm]

theorem CalledOnce.call_eq {call call' : List CStr → NextCall} {envp : Option (List CStr)}
    (h : CalledOnce call envp w t) (h' : CalledOnce call' envp w t) :
    ∃ passed passed', call passed = call' passed' := by
  obtain ⟨passed, hp, -⟩ := h
  obtain ⟨passed', hp', -⟩ := h'
  rw [hp] at hp'
  exact ⟨passed, passed', by simpa using hp'⟩

theorem not_survives_of_stuck {l : Launch}
    (h : From (fun e _ => e ≠ .replaced) w (l.perform L) fun _ _ => False) : ¬ Survives L w l := by
  intro hs
  apply h.contra hs
  · intro _ _ hf
    exact hf.elim
  · rintro _ _ hn ⟨he, -⟩
    exact hn he

theorem ExecRequest.from_perform {E : Halt → World → Prop} {Q : CInt → World → Prop}
    {r : ExecRequest}
    (h : From E w (Observed.exec L r.function r.path (strings r.argv)
      (strings (r.envp w.environ))) Q) :
    From E w (r.perform L) Q := by
  unfold From
  rw [r.perform_eq]
  exact h

theorem survives_exec_iff (r : ExecRequest) :
    Survives L w (.exec r) ↔ Provided L w (.exec r) := by
  by_cases hp : ExecProvided L w r.argv (r.envp w.environ)
  · have hr := ExecRequest.from_perform (Observed.from_exec_calledOnce hp r.function r.path)
    have hd : From (fun e t => e = .replaced ∧ CalledOnce (.exec r.function r.path
        (strings r.argv)) (strings (r.envp w.environ)) w t) w ((Launch.exec r).perform L)
        fun _ => CalledOnce (.exec r.function r.path (strings r.argv))
          (strings (r.envp w.environ)) w := hr.discarded
    constructor
    · intro hs
      refine ⟨hp, ?_⟩
      -- the arguments that were passed are those of the caller
      have ha : ∀ {u}, CalledOnce (.exec r.function r.path (strings r.argv))
          (strings (r.envp w.environ)) w u → Launched w (.exec r) u → r.StartIsPath := by
        intro u hu hl
        obtain ⟨passed, passed', he⟩ := hu.call_eq hl
        injection he with _ _ he
        exact r.argv_eq_iff.mp he
      by_contra hn
      apply hd.contra hs
      · intro _ u hu hl
        exact hn (ha hu hl)
      · rintro _ u ⟨-, hu⟩ ⟨-, hl⟩
        exact hn (ha hu hl)
    · rintro ⟨-, hn⟩
      rw [r.argv_eq_iff.mpr hn] at hd
      exact hd
  · apply iff_of_false
    · have hf := Observed.from_exec_stuck hp r.function r.path
      exact not_survives_of_stuck (ExecRequest.from_perform hf).discarded
    · exact fun h => hp h.1

theorem survives_spawn_iff (function : SpawnFunction) (path : Option CStr)
    (argv envp : ArrayPtr) :
    Survives L w (.spawn function path argv envp) ↔ SpawnProvided w argv envp := by
  constructor
  · intro hs
    by_contra hn
    have hf := Observed.from_posixSpawn_ne_replaced hn function false path
    exact not_survives_of_stuck hf.discarded hs
  · intro hp
    exact (Observed.from_posixSpawn_calledOnce hp function false path).discarded

/--
In every state a call reaches the real function exactly once, with everything that the caller
gave, exactly if what it reads is there and the mutexes that it takes are free.
-/
theorem survives_iff (L : Preloaded) (w : World) (l : Launch) :
    Survives L w l ↔ Provided L w l := by
  cases l with
  | exec r => exact survives_exec_iff r
  | spawn function path argv envp => exact survives_spawn_iff function path argv envp

/-- A call of `execve` on a program, in the environment that the process has at its start. -/
def lsCall : ExecRequest :=
  .execve (some (ascii ['/', 'b', 'i', 'n', '/', 'l', 's'])) (some ⟨[ascii ['l', 's']], by decide⟩)
    (some observedEnviron)

/-- The program has removed all variables. -/
theorem not_survives_cleared :
    ∃ w, Reach (World.step ⟨true, true, true⟩) (fun _ _ => True)
      (World.start observedEnviron 7 1 [0, 1, 2]) w ∧
      ¬ Survives ⟨true, true, true⟩ (w.answered granted) (.exec lsCall) := by
  have hr : Reach (World.step ⟨true, true, true⟩) (fun _ _ => True)
      (World.start observedEnviron 7 1 [0, 1, 2])
      { (World.start observedEnviron 7 1 [0, 1, 2]).answered granted with environ := none } :=
    .single (a := (.setenv none, granted)) trivial rfl
  refine ⟨_, hr, fun hs => ?_⟩
  obtain ⟨he, -⟩ := hs.error (e := .crashed) rfl
  cases he

end

end Voyeur
