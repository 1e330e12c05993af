import Voyeur.Client.Survival

/-! # The number of a spawned process

`posix_spawn` and `posix_spawnp` have the real function store the number of the child in a
variable, which goes into the event and to the caller. A failing call leaves the variable as
it was.
-/

namespace Voyeur

open Program (From)

/-- What the real function does. It sets its variable only if it succeeds. -/
inductive RealSpawn | success (child : CInt) | failure (error : CInt)
  deriving DecidableEq

namespace RealSpawn

def retval : RealSpawn → CInt
  | success _ => 0
  | failure error => error

/-- The variable after the call. A variable that is not set holds anything. -/
def variable_ (garbage : CInt) : RealSpawn → CInt
  | success child => child
  | failure _ => garbage

def outcome : RealSpawn → Outcome
  | success _ => .ok 0
  | failure error => .failed error

end RealSpawn

/-- The state before a call whose real call does this. -/
def World.spawning (w : World) (o : RealSpawn) (garbage : CInt) : World :=
  w.answered { w.answers with real := o.outcome, child := o.variable_ garbage }

/-- The writes of an event about a process with this number. -/
def Announces (child : CInt) (written : List WriteCall) : Prop :=
  ∃ fields ppid, written = fields ++ [writePid child, writePid ppid]

/-- Neither the event nor the caller gets a number that is not the child's. -/
structure RealPids (w : World) (o : RealSpawn) (function : SpawnFunction) (pid : Bool)
    (path : Option CStr) (argv envp : ArrayPtr) : Prop where
  /-- The value is that of the real call, and the number of its child is reported and stored. -/
  returned : ∀ garbage, From (fun _ _ => False) (w.spawning o garbage)
    (Observed.posixSpawn function pid path argv envp) fun r _ =>
      r.retval = o.retval ∧
        (r.written ≠ [] → ∃ child, o = .success child ∧ Announces child r.written) ∧
        ∀ child, o = .success child → r.stored = if pid then some child else none
  /-- Nothing depends on a variable that the real call has not set. -/
  independent : ∀ garbage garbage' r r' t t',
    Observed.posixSpawn function pid path argv envp (w.spawning o garbage) = .ok r t →
    Observed.posixSpawn function pid path argv envp (w.spawning o garbage') = .ok r' t' →
    r.written = r'.written ∧ r.stored = r'.stored

section

variable {w : World} {o : RealSpawn} {function : SpawnFunction} {pid : Bool}
  {path : Option CStr} {argv envp : ArrayPtr}

theorem announces_of_writeExecEvent {options : Byte} {accessible : Bool} {argv envp : List CStr}
    {pathVar cwd : Option CStr} {child ppid : CInt}
    (h : writeExecEvent options accessible path argv envp pathVar cwd child ppid ≠ []) :
    Announces child (writeExecEvent options accessible path argv envp pathVar cwd child ppid) := by
  cases hb : execBegins options accessible with
  | false => exact absurd (writeExecEvent_of_not_begins hb) h
  | true =>
    rw [writeExecEvent_of_begins hb]
    unfold execFields
    simp only [← List.cons_append]
    exact ⟨_, ppid, rfl⟩

theorem World.spawnWrites_eq_false_iff :
    w.spawnWrites = false ↔ (w.spawnReturn pid path argv envp).written = [] := by
  unfold World.spawnWrites World.spawnReturn
  cases w.spawnSocket with
  | false => simp
  | true =>
    dsimp only
    rw [if_pos rfl, Bool.true_and]
    constructor
    · intro hb
      exact writeExecEvent_of_not_begins hb
    · intro hw
      rw [← Bool.not_eq_true]
      intro hb
      have hc := (writeExecEvent_of_begins hb).symm.trans hw
      cases hc

theorem World.announces_spawnReturn (h : (w.spawnReturn pid path argv envp).written ≠ []) :
    Announces w.answers.child (w.spawnReturn pid path argv envp).written := by
  unfold World.spawnReturn at h ⊢
  dsimp only at h ⊢
  split at h
  · next hs =>
    rw [if_pos hs]
    exact announces_of_writeExecEvent h
  · exact absurd rfl h

theorem World.spawning_retval (garbage : CInt) :
    ((w.spawning o garbage).spawnReturn pid path argv envp).retval = o.retval := by
  cases o <;> rfl

theorem from_posixSpawn_spawning (h : SpawnProvided w argv envp) (garbage : CInt) :
    From (fun _ _ => False) (w.spawning o garbage)
      (Observed.posixSpawn function pid path argv envp) fun r _ =>
        r = (w.spawning o garbage).spawnReturn pid path argv envp := by
  have h' : SpawnProvided (w.spawning o garbage) argv envp := h
  exact (Observed.from_posixSpawn_provided h' function pid path).conseq fun _ _ hr => hr.1

theorem RealPids.provided (h : RealPids w o function pid path argv envp) :
    SpawnProvided w argv envp := by
  by_contra hn
  have hn' : ¬ SpawnProvided (w.spawning o 0) argv envp := hn
  exact (Observed.from_posixSpawn_ne_replaced hn' function pid path).contra (h.returned 0)
    (fun _ _ hf => hf.elim) fun _ _ _ hf => hf

theorem RealPids.of_failure {error : CInt}
    (h : RealPids w (.failure error) function pid path argv envp) :
    pid = false ∧ w.spawnWrites = false := by
  have hp := h.provided
  obtain ⟨r₀, t₀, hr₀, -, he, -⟩ := (h.returned 0).returns
  obtain ⟨r₁, t₁, hr₁, -⟩ := (h.returned 1).returns
  have h₀ := (from_posixSpawn_spawning hp 0).ok hr₀
  have h₁ := (from_posixSpawn_spawning hp 1).ok hr₁
  constructor
  · cases pid with
    | false => rfl
    | true =>
      -- the two calls differ in the variable alone, and store different numbers
      obtain ⟨-, hs⟩ := h.independent 0 1 r₀ r₁ t₀ t₁ hr₀ hr₁
      rw [h₀, h₁] at hs
      have h01 : (some 0 : Option CInt) = some 1 := hs
      exact absurd h01 (by decide)
  · apply (World.spawnWrites_eq_false_iff (w := w.spawning _ 0)).mpr
    rw [← h₀]
    by_contra hn
    obtain ⟨child, ho, -⟩ := he hn
    cases ho

theorem realPids_of_success (hp : SpawnProvided w argv envp) (child : CInt) :
    RealPids w (.success child) function pid path argv envp := by
  constructor
  · intro garbage
    apply (from_posixSpawn_spawning hp garbage).conseq
    rintro r _ rfl
    refine ⟨rfl, fun hw => ⟨child, rfl, World.announces_spawnReturn hw⟩, ?_⟩
    rintro child' ⟨⟩
    rfl
  · intro garbage garbage' r r' t t' h₁ h₂
    obtain rfl := (from_posixSpawn_spawning hp garbage).ok h₁
    obtain rfl := (from_posixSpawn_spawning hp garbage').ok h₂
    exact ⟨rfl, rfl⟩

/-- Without an event and without a place for the number its variable is not read. -/
theorem realPids_of_silent (hp : SpawnProvided w argv envp) (hn : w.spawnWrites = false) :
    RealPids w o function false path argv envp := by
  have hw : ∀ garbage, ((w.spawning o garbage).spawnReturn false path argv envp).written = [] :=
    fun garbage => (World.spawnWrites_eq_false_iff (w := w.spawning o garbage)).mp hn
  constructor
  · intro garbage
    apply (from_posixSpawn_spawning hp garbage).conseq
    rintro r _ rfl
    exact ⟨World.spawning_retval garbage, fun hne => absurd (hw garbage) hne, fun _ _ => rfl⟩
  · intro garbage garbage' r r' t t' h₁ h₂
    obtain rfl := (from_posixSpawn_spawning hp garbage).ok h₁
    obtain rfl := (from_posixSpawn_spawning hp garbage').ok h₂
    rw [hw garbage, hw garbage']
    exact ⟨rfl, rfl⟩

/--
In every state exactly the calls keep to real numbers that succeed, or that fail without an event
and without a place for a number; a call that misses something it reads does not return.
-/
theorem realPids_iff (w : World) (o : RealSpawn) (function : SpawnFunction) (pid : Bool)
    (path : Option CStr) (argv envp : ArrayPtr) :
    RealPids w o function pid path argv envp ↔ SpawnProvided w argv envp ∧
      ((∃ child, o = .success child) ∨ pid = false ∧ w.spawnWrites = false) := by
  constructor
  · intro h
    refine ⟨h.provided, ?_⟩
    cases o with
    | success child => exact .inl ⟨child, rfl⟩
    | failure error => exact .inr h.of_failure
  · rintro ⟨hp, ⟨child, rfl⟩ | ⟨rfl, hn⟩⟩
    · exact realPids_of_success hp child
    · exact realPids_of_silent hp hn

/-- The first call of a process fails with `ENOENT`, and `pid` is not `NULL`. -/
theorem not_realPids_failure :
    ¬ RealPids ((World.start observedEnviron 7 1 [0, 1, 2]).answered granted) (.failure 2)
      .posix_spawn true lsCall.path lsCall.argv (some observedEnviron) := by
  intro h
  obtain ⟨hp, -⟩ := h.of_failure
  cases hp

end

end Voyeur
