import Voyeur.Client.Runs
import Voyeur.Environment.Slots

/-! # The variadic exec functions

`execl`, `execle` and `execlp` collect their arguments in an array and go on as `execv`,
`execve` and `execvp` do. Here the lists and arrays have any length, and the arrays are those
in memory: `VARARGS_TO_ARGV` counts in an `unsigned`, and the events count in an `int`.
-/

namespace Voyeur

/-- An argument after the named ones of a variadic function. -/
inductive VaArg | string (s : CStr) | null | array (envp : List CStr)
  deriving DecidableEq

/-- What a call does, or `none` if that is undefined. -/
abbrev CallEffect := World → Option (EStateM.Result Halt World CInt)

namespace Variadic

/-- The loop that counts the arguments up to `NULL`. -/
def countArgs : (length : CUnsigned) → List VaArg → Option CUnsigned
  | length, .string _ :: args => countArgs (length + 1) args
  | length, .null :: _ => some length
  | _, _ => none

/-- `va_arg(args, char*)` of an argument. -/
def slot : VaArg → Option Slot
  | .string s => some (.entry s)
  | .null => some .null
  | .array _ => none

/-- The loop that copies the arguments, and the arguments that are left after it. -/
def copyArgs (length : CUnsigned) :
    (argv : List Slot) → (index : CUnsigned) → List VaArg → Option (List Slot × List VaArg)
  | argv, index, [] => if index < length then none else some (argv, [])
  | argv, index, arg :: args =>
      if index < length then do
        let s ← slot arg
        let argv ← setSlot argv index s
        copyArgs length argv (index + 1) args
      else some (argv, arg :: args)

/-- `va_arg(args, char**)`. Without such an argument the value is not a pointer to anything. -/
def envpArg : List VaArg → Option (List CStr)
  | .array envp :: _ => some envp
  | _ => none

def pathSlot : Option CStr → Slot
  | some path => .entry path
  | none => .null

/-- `VARARGS_TO_ARGV`, with the values of `_argv` and `_envp`; `malloc` is taken to succeed. -/
def varargsToArgv (path : Option CStr) (args : List VaArg) :
    Option (List Slot × Option (List CStr)) := do
  let length ← countArgs 0 args
  let length := length + 2
  let argv := List.replicate length.toNat Slot.uninit
  let argv ← setSlot argv 0 (pathSlot path)
  let (argv, args) ← copyArgs length argv 1 args
  return (argv, envpArg args)

/-- `write_exec_event` gets to its loops, which count in an `int`. -/
def Counts (w : World) : Prop :=
  w.connects = true ∧ execBegins (clientOptions w.vars .exec) w.answers.accessible = true

/-- None of the counters overflows, neither here nor in `voyeur_augment_environment`. -/
def Countable (w : World) (argv envp : List CStr) : Prop :=
  (Counts w → argv.length < 2 ^ 31 ∧
    (hasFlag (clientOptions w.vars .exec) observeExecEnv = true → envp.length < 2 ^ 31)) ∧
  envp.length + 5 < 2 ^ 32

instance (w : World) : Decidable (Counts w) := by
  unfold Counts; infer_instance

instance (w : World) (argv envp : List CStr) : Decidable (Countable w argv envp) := by
  unfold Countable; infer_instance

/-- What the exec functions have in common, on an array in memory. -/
def execSlots (L : Preloaded) (function : ExecFunction) (path : Option CStr)
    (argv : List Slot) (envp : Option (List CStr)) : CallEffect := fun w =>
  (terminated argv).bind fun argv =>
    if Countable w argv (envp.getD []) then some (Observed.exec L function path (some argv) envp w)
    else none

def execve (L : Preloaded) (path : Option CStr) (argv : List Slot) (envp : Option (List CStr)) :
    CallEffect :=
  execSlots L .execve path argv envp

def execv (L : Preloaded) (path : Option CStr) (argv : List Slot) : CallEffect := fun w =>
  execve L path argv (strings w.environ) w

def execvp (L : Preloaded) (path : Option CStr) (argv : List Slot) : CallEffect := fun w =>
  execSlots L .execvpe path argv (strings w.environ) w

def execl (L : Preloaded) (path : Option CStr) (_start : CStr) (args : List VaArg) : CallEffect :=
  fun w => do
    let (argv, _) ← varargsToArgv path args
    execve L path argv (strings w.environ) w

def execle (L : Preloaded) (path : Option CStr) (_start : CStr) (args : List VaArg) : CallEffect :=
  fun w => do
    let (argv, envp) ← varargsToArgv path args
    execve L path argv (some (← envp)) w

def execlp (L : Preloaded) (path : Option CStr) (_start : CStr) (args : List VaArg) : CallEffect :=
  fun w => do
    let (argv, _) ← varargsToArgv path args
    execSlots L .execvpe path argv (strings w.environ) w

end Variadic

/-- A variadic function, with the argument after `NULL` that `execle` has. -/
inductive VariadicFunction | execl | execle (envp : List CStr) | execlp
  deriving DecidableEq

/-- The array `[arg0, arg1, ..., argn, NULL]`. -/
def argvOf (start : CStr) (rest : List CStr) : List Slot :=
  (start :: rest).map .entry ++ [.null]

namespace VariadicFunction

/-- What the caller passes after `NULL`. -/
def trailing : VariadicFunction → List VaArg
  | .execl | .execlp => []
  | .execle envp => [.array envp]

/-- What the caller passes after `start`. -/
def args (rest : List CStr) (f : VariadicFunction) : List VaArg :=
  rest.map .string ++ .null :: f.trailing

/-- The call of the variadic function. -/
def call (L : Preloaded) (path : Option CStr) (start : CStr) (rest : List CStr)
    (f : VariadicFunction) : CallEffect :=
  match f with
  | .execl => Variadic.execl L path start (f.args rest)
  | .execle _ => Variadic.execle L path start (f.args rest)
  | .execlp => Variadic.execlp L path start (f.args rest)

/-- The call of the function that takes an array. -/
def arrayForm (L : Preloaded) (path : Option CStr) (argv : List Slot) :
    VariadicFunction → CallEffect
  | .execl => Variadic.execv L path argv
  | .execle envp => Variadic.execve L path argv (some envp)
  | .execlp => Variadic.execvp L path argv

/-- The environment is so long that a call with it is not defined. -/
def Overlong : VariadicFunction → Prop
  | .execle envp => 2 ^ 32 ≤ envp.length + 5
  | .execl | .execlp => False

/-- The real function that is called. -/
def function : VariadicFunction → ExecFunction
  | .execl | .execle _ => .execve
  | .execlp => .execvpe

/-- The environment of the call. -/
def envp (w : World) : VariadicFunction → Option (List CStr)
  | .execle envp => some envp
  | .execl | .execlp => strings w.environ

end VariadicFunction

/-- In every state of the process both calls do the same. -/
def MeansArrayForm (L : Preloaded) (f : VariadicFunction) (path : Option CStr) (start : CStr)
    (rest : List CStr) : Prop :=
  ∀ w, f.call L path start rest w = f.arrayForm L path (argvOf start rest) w

namespace Variadic

variable {path : Option CStr} {start : CStr} {rest : List CStr} {args : List VaArg}
  {argv argv' : List Slot} {index length : CUnsigned}

theorem countArgs_add (length : CUnsigned) (rest : List CStr) (args : List VaArg) :
    countArgs length (rest.map .string ++ .null :: args) =
      some (length + BitVec.ofNat 32 rest.length) := by
  induction rest generalizing length with
  | nil => simp [countArgs]
  | cons s rest ih =>
    simp only [List.map_cons, List.cons_append, countArgs, ih, List.length_cons, BitVec.ofNat_add]
    rw [BitVec.add_assoc, BitVec.add_comm (1 : CUnsigned)]
    rfl

theorem countArgs_rest (rest : List CStr) (args : List VaArg) :
    countArgs 0 (rest.map .string ++ .null :: args) = some (BitVec.ofNat 32 rest.length) := by
  rw [countArgs_add]
  exact congrArg some (BitVec.zero_add _)

theorem length_setSlot {slots : List Slot} {i : CUnsigned} {s : Slot}
    (h : setSlot slots i s = some argv) : argv.length = slots.length := by
  unfold setSlot at h
  split at h
  · obtain rfl := Option.some.inj h
    exact List.length_set
  · cases h

theorem copyArgs_frame {args' : List VaArg}
    (h : copyArgs length argv index args = some (argv', args')) (hi : 0 < index) :
    argv'.length = argv.length ∧ argv'[0]? = argv[0]? := by
  induction args generalizing argv index with
  | nil =>
    unfold copyArgs at h
    split at h
    · cases h
    · obtain ⟨rfl, -⟩ := Prod.mk.inj (Option.some.inj h)
      exact ⟨rfl, rfl⟩
  | cons arg args ih =>
    unfold copyArgs at h
    split at h
    · next hl =>
      obtain ⟨s, -, h⟩ := Option.bind_eq_some_iff.mp h
      obtain ⟨argv₁, hs, h⟩ := Option.bind_eq_some_iff.mp h
      have hn : 0 < index + 1 := by bv_omega
      obtain ⟨h₁, h₂⟩ := ih h hn
      refine ⟨h₁.trans (length_setSlot hs), h₂.trans ?_⟩
      unfold setSlot at hs
      split at hs
      · obtain rfl := Option.some.inj hs
        have h0 : index.toNat ≠ 0 := by bv_omega
        exact List.getElem?_set_ne h0
      · cases hs
    · obtain ⟨rfl, -⟩ := Prod.mk.inj (Option.some.inj h)
      exact ⟨rfl, rfl⟩

theorem copyArgs_suffix {args' : List VaArg}
    (h : copyArgs length argv index args = some (argv', args')) : args' <:+ args := by
  induction args generalizing argv index with
  | nil =>
    unfold copyArgs at h
    split at h
    · cases h
    · obtain ⟨-, rfl⟩ := Prod.mk.inj (Option.some.inj h)
      exact List.suffix_rfl
  | cons arg args ih =>
    unfold copyArgs at h
    split at h
    · obtain ⟨s, -, h⟩ := Option.bind_eq_some_iff.mp h
      obtain ⟨argv₁, -, h⟩ := Option.bind_eq_some_iff.mp h
      exact (ih h).trans (List.suffix_cons _ _)
    · obtain ⟨-, rfl⟩ := Prod.mk.inj (Option.some.inj h)
      exact List.suffix_rfl

theorem copyArgs_done (argv : List Slot) (args : List VaArg) (h : ¬ index < length) :
    copyArgs length argv index args = some (argv, args) := by
  cases args with
  | nil => rw [copyArgs, if_neg h]
  | cons arg args => rw [copyArgs, if_neg h]

theorem copyArgs_cons (pre post : List Slot) {arg : VaArg} {x : Slot} (args : List VaArg)
    (hi : index.toNat = pre.length) (hl : index < length) (hx : slot arg = some x) :
    copyArgs length (pre ++ .uninit :: post) index (arg :: args) =
      copyArgs length ((pre ++ [x]) ++ post) (index + 1) args := by
  rw [copyArgs, if_pos hl, hx]
  simp only [Option.bind_eq_bind, Option.bind_some]
  rw [setSlot_right (k := 0) (by simpa using hi) (by simp), Option.bind_some]
  simp

theorem copyArgs_rest (pre : List Slot) (rest : List CStr) (args : List VaArg)
    (hi : index.toNat = pre.length) (hl : length.toNat = pre.length + rest.length + 1) :
    copyArgs length (pre ++ List.replicate (rest.length + 1) .uninit) index
        (rest.map .string ++ .null :: args) =
      some (pre ++ rest.map .entry ++ [.null], args) := by
  have hlt : index < length := by
    rw [BitVec.lt_def]
    omega
  have hlen := length.isLt
  have hs : (index + 1).toNat = pre.length + 1 := by bv_omega
  induction rest generalizing pre index with
  | nil =>
    have hge : ¬ index + 1 < length := by
      simp only [List.length_nil] at hl
      rw [BitVec.lt_def]
      omega
    rw [List.length_nil, Nat.zero_add, List.replicate_one, List.map_nil, List.nil_append,
      copyArgs_cons pre [] args hi hlt rfl]
    rw [List.append_nil, copyArgs_done _ args hge, List.map_nil, List.append_nil]
  | cons s rest ih =>
    simp only [List.length_cons] at hl
    have hn : (pre ++ [Slot.entry s]).length = pre.length + 1 := by simp
    rw [List.length_cons, List.replicate_succ, List.map_cons, List.cons_append,
      copyArgs_cons pre _ _ hi hlt rfl]
    have hlt' : index + 1 < length := by
      rw [BitVec.lt_def]
      omega
    rw [ih (pre ++ [Slot.entry s]) (by omega) (by omega) hlt' (by bv_omega)]
    simp

theorem varargsToArgv_of_lt (h : rest.length + 2 < 2 ^ 32) (path : Option CStr)
    (args : List VaArg) :
    varargsToArgv path (rest.map .string ++ .null :: args) =
      some (pathSlot path :: rest.map .entry ++ [.null], envpArg args) := by
  have hl : (BitVec.ofNat 32 rest.length + 2 : CUnsigned).toNat = rest.length + 2 :=
    toNat_unsigned_add h
  have h0 : setSlot (List.replicate (rest.length + 2) Slot.uninit) 0 (pathSlot path) =
      some ([pathSlot path] ++ List.replicate (rest.length + 1) .uninit) := by
    rw [setSlot, if_pos (by simp), List.replicate_succ]
    rfl
  have hc : copyArgs (BitVec.ofNat 32 rest.length + 2)
      ([pathSlot path] ++ List.replicate (rest.length + 1) .uninit) 1
      (rest.map .string ++ .null :: args) =
      some ([pathSlot path] ++ rest.map .entry ++ [.null], args) := by
    apply copyArgs_rest [pathSlot path] rest args rfl
    rw [hl, List.length_singleton]
    omega
  simp only [varargsToArgv, countArgs_rest, Option.bind_eq_bind, Option.bind_some, hl, h0, hc]
  rfl

theorem length_lt_of_terminated {slots : List Slot} {envp : List CStr}
    (h : terminated slots = some envp) : envp.length < slots.length := by
  induction slots generalizing envp with
  | nil => cases h
  | cons x slots ih =>
    cases x with
    | uninit => cases h
    | null =>
      obtain rfl := Option.some.inj h
      simp
    | entry s =>
      obtain ⟨envp', h', rfl⟩ := Option.map_eq_some_iff.mp h
      simpa using ih h'

theorem of_varargsToArgv {envp : Option (List CStr)}
    (h : varargsToArgv path (rest.map .string ++ .null :: args) = some (argv, envp)) :
    argv[0]? = some (pathSlot path) ∧ argv.length = (rest.length + 2) % 2 ^ 32 := by
  simp only [varargsToArgv, countArgs_rest, Option.bind_eq_bind, Option.bind_some] at h
  obtain ⟨argv₁, h₁, h⟩ := Option.bind_eq_some_iff.mp h
  obtain ⟨⟨argv₂, args₂⟩, h₂, h⟩ := Option.bind_eq_some_iff.mp h
  obtain ⟨rfl, -⟩ := Prod.mk.inj (Option.some.inj h)
  obtain ⟨hl, h0⟩ := copyArgs_frame h₂ (by decide)
  have hn := length_setSlot h₁
  rw [List.length_replicate] at hn
  constructor
  · rw [h0]
    unfold setSlot at h₁
    split at h₁
    · next hp =>
      obtain rfl := Option.some.inj h₁
      exact List.getElem?_set_self hp
    · cases h₁
  · rw [hl, hn, BitVec.toNat_add, BitVec.toNat_ofNat, Nat.mod_add_mod]
    rfl

/-- The macro makes the array of the caller only if the path is the first of the arguments. -/
theorem of_terminated_varargsToArgv {envp : Option (List CStr)}
    (h : varargsToArgv path (rest.map .string ++ .null :: args) = some (argv, envp))
    (ht : terminated argv = some (start :: rest)) :
    path = some start ∧ rest.length + 2 < 2 ^ 32 := by
  obtain ⟨h0, hl⟩ := of_varargsToArgv h
  have hn := length_lt_of_terminated ht
  constructor
  · cases argv with
    | nil => cases h0
    | cons x argv =>
      obtain rfl := Option.some.inj h0
      cases path with
      | none => cases ht
      | some path =>
        obtain ⟨argv', -, he⟩ := Option.map_eq_some_iff.mp ht
        rw [(List.cons.inj he).1]
  · rw [List.length_cons] at hn
    omega

theorem envp_of_varargsToArgv {e envp : List CStr}
    (h : varargsToArgv path (rest.map .string ++ [.null, .array envp]) = some (argv, some e)) :
    e = envp := by
  simp only [varargsToArgv, Option.bind_eq_bind] at h
  obtain ⟨length, -, h⟩ := Option.bind_eq_some_iff.mp h
  obtain ⟨argv₁, -, h⟩ := Option.bind_eq_some_iff.mp h
  obtain ⟨⟨argv₂, args₂⟩, h₂, h⟩ := Option.bind_eq_some_iff.mp h
  obtain ⟨-, he⟩ := Prod.mk.inj (Option.some.inj h)
  have hs := copyArgs_suffix h₂
  cases args₂ with
  | nil => cases he
  | cons arg args₂ =>
    cases arg with
    | string s => cases he
    | null => cases he
    | array e' =>
      obtain rfl := Option.some.inj he
      have hm := hs.subset List.mem_cons_self
      simpa using hm

theorem countable_strings (w : World) (argv : StringArray) (envp : ArrayPtr) :
    Countable w argv.val ((strings envp).getD []) := by
  have hi : intMax.toNat = 2147483647 := rfl
  have ha := argv.property
  have he := (envp.getD ⟨[], by decide⟩).property
  rw [strings_getD]
  refine ⟨fun _ => ⟨?_, fun _ => ?_⟩, ?_⟩ <;> omega

theorem execSlots_of_terminated {L : Preloaded} {function : ExecFunction} {w : World}
    {array : StringArray} {envp : ArrayPtr} (h : terminated argv = some array.val) :
    execSlots L function path argv (strings envp) w =
      some (Observed.exec L function path (strings (some array)) (strings envp) w) := by
  rw [execSlots, h, Option.bind_some, if_pos (countable_strings w array envp)]
  rfl

end Variadic

namespace VariadicFunction

variable {L : Preloaded} {f : VariadicFunction} {path : Option CStr} {start : CStr}
  {rest : List CStr} {w : World}

theorem arrayForm_eq (argv : List Slot) :
    f.arrayForm L path argv w = Variadic.execSlots L f.function path argv (f.envp w) w := by
  cases f <;> rfl

theorem call_eq_some {r : EStateM.Result Halt World CInt}
    (h : f.call L path start rest w = some r) :
    ∃ argv envp, Variadic.varargsToArgv path (f.args rest) = some (argv, envp) ∧
      Variadic.execSlots L f.function path argv (f.envp w) w = some r := by
  cases f with
  | execl | execlp =>
    obtain ⟨⟨argv, envp⟩, hm, hr⟩ := Option.bind_eq_some_iff.mp h
    exact ⟨argv, envp, hm, hr⟩
  | execle e =>
    obtain ⟨⟨argv, envp⟩, hm, hr⟩ := Option.bind_eq_some_iff.mp h
    obtain ⟨e', rfl, hr⟩ := Option.bind_eq_some_iff.mp hr
    obtain rfl := Variadic.envp_of_varargsToArgv hm
    exact ⟨argv, _, hm, hr⟩

theorem call_of_lt (h : rest.length + 2 < 2 ^ 32) (path : Option CStr) (start : CStr) :
    f.call L path start rest w = Variadic.execSlots L f.function path
      (Variadic.pathSlot path :: rest.map .entry ++ [.null]) (f.envp w) w := by
  have hm := Variadic.varargsToArgv_of_lt h path f.trailing
  cases f with
  | execl | execlp => exact congrArg (Option.bind · _) hm
  | execle e => exact congrArg (Option.bind · _) hm

/-- On lists that can be counted in an `int` these are the functions of the other modules. -/
theorem call_varArgs (path start : CStr) (rest : Observed.VarArgs) (envp : ArrayPtr)
    (he : f.envp w = strings envp) :
    f.call L (some path) start rest.val w = some (Observed.exec L f.function (some path)
      (strings (some (Observed.varargsToArgv path start rest))) (strings envp) w) := by
  have hi : intMax.toNat = 2147483647 := rfl
  have hr := rest.property
  rw [call_of_lt (by omega), he]
  apply Variadic.execSlots_of_terminated
  exact terminated_map_entry (path :: rest.val) []

theorem call_execl (path start : CStr) (rest : Observed.VarArgs) :
    VariadicFunction.execl.call L (some path) start rest.val w =
      some (Observed.execl L path start rest w) :=
  call_varArgs path start rest w.environ rfl

theorem call_execle (path start : CStr) (rest : Observed.VarArgs) (envp : StringArray) :
    (VariadicFunction.execle envp.val).call L (some path) start rest.val w =
      some (Observed.execle L path start rest (some envp) w) :=
  call_varArgs path start rest (some envp) rfl

theorem call_execlp (path start : CStr) (rest : Observed.VarArgs) :
    VariadicFunction.execlp.call L (some path) start rest.val w =
      some (Observed.execlp L path start rest w) :=
  call_varArgs path start rest w.environ rfl

theorem execSlots_of_overlong (h : f.Overlong) (path : Option CStr) (argv : List Slot) :
    Variadic.execSlots L f.function path argv (f.envp w) w = none := by
  cases f with
  | execl | execlp => exact h.elim
  | execle envp =>
    have hc : ∀ argv, ¬ Variadic.Countable w argv envp := fun _ hc => Nat.not_lt.mpr h hc.2
    unfold Variadic.execSlots
    cases terminated argv with
    | none => rfl
    | some argv => exact if_neg (hc argv)

theorem arrayForm_of_overlong (h : f.Overlong) (argv : List Slot) :
    f.arrayForm L path argv w = none := by
  rw [arrayForm_eq, execSlots_of_overlong h]

theorem call_of_overlong (h : f.Overlong) : f.call L path start rest w = none := by
  cases hc : f.call L path start rest w with
  | none => rfl
  | some r =>
    obtain ⟨argv, envp, -, hr⟩ := call_eq_some hc
    rw [execSlots_of_overlong h] at hr
    cases hr

end VariadicFunction

/-- A process that gets no socket and whose exec fails. -/
def unconnected : World :=
  (World.start observedEnviron 7 1 [0, 1, 2]).answered
    { granted with socket := false, real := .failed 2 }

theorem exec_unconnected (L : Preloaded) (function : ExecFunction) (path : Option CStr)
    (argv envp : List CStr) :
    Observed.exec L function path (some argv) (some envp) unconnected =
      .ok (-1) { unconnected with
        calls := [.exec function path (some argv) (augmentEnvironment envp (ascii ['l'])
          (ascii ['@', '@', '@', '@']) (ascii ['s']))]
        errno := 2 } := rfl

theorem countable_unconnected (argv : List CStr) {envp : List CStr} (h : envp.length + 5 < 2 ^ 32) :
    Variadic.Countable unconnected argv envp :=
  ⟨fun hc => absurd hc.1 (by decide), h⟩

theorem VariadicFunction.envp_unconnected (f : VariadicFunction) (h : ¬ f.Overlong) :
    ∃ envp : List CStr, f.envp unconnected = some envp ∧ envp.length + 5 < 2 ^ 32 := by
  cases f with
  | execl | execlp => exact ⟨observedEnviron.val, rfl, by decide⟩
  | execle envp => exact ⟨envp, rfl, Nat.not_le.mp h⟩

theorem execSlots_unconnected {L : Preloaded} {function : ExecFunction} {path : Option CStr}
    {argv : List Slot} {envp : Option (List CStr)} {r : EStateM.Result Halt World CInt}
    (h : Variadic.execSlots L function path argv envp unconnected = some r) :
    ∃ args, terminated argv = some args ∧
      Observed.exec L function path (some args) envp unconnected = r := by
  obtain ⟨args, ht, h⟩ := Option.bind_eq_some_iff.mp h
  split at h
  · exact ⟨args, ht, Option.some.inj h⟩
  · cases h

/--
A variadic function means the same as the function on arrays exactly if the first argument is
the path and the arguments can be counted, or if neither of the two is defined.
-/
theorem meansArrayForm_iff (L : Preloaded) (f : VariadicFunction) (path : Option CStr)
    (start : CStr) (rest : List CStr) :
    MeansArrayForm L f path start rest ↔
      path = some start ∧ rest.length + 2 < 2 ^ 32 ∨ f.Overlong := by
  constructor
  · intro h
    by_cases ho : f.Overlong
    · exact .inr ho
    · obtain ⟨e, henv, hlen⟩ := f.envp_unconnected ho
      have hc : Variadic.Countable unconnected (start :: rest) ((f.envp unconnected).getD []) := by
        rw [henv]
        exact countable_unconnected (start :: rest) hlen
      have ha : f.arrayForm L path (argvOf start rest) unconnected =
          some (Observed.exec L f.function path (some (start :: rest)) (f.envp unconnected)
            unconnected) := by
        rw [VariadicFunction.arrayForm_eq, Variadic.execSlots, argvOf, terminated_map_entry,
          Option.bind_some, if_pos hc]
      obtain ⟨argv, envp, hm, hr⟩ := VariadicFunction.call_eq_some ((h unconnected).trans ha)
      obtain ⟨args, ht, he⟩ := execSlots_unconnected hr
      rw [henv, exec_unconnected, exec_unconnected] at he
      have hcalls := congrArg World.calls (EStateM.Result.ok.inj he).2
      have hargs : args = start :: rest := by
        obtain ⟨-, -, ha, -⟩ := NextCall.exec.inj (List.cons.inj hcalls).1
        exact Option.some.inj ha
      rw [hargs] at ht
      exact .inl (Variadic.of_terminated_varargsToArgv hm ht)
  · rintro (⟨rfl, hl⟩ | ho) w
    · rw [VariadicFunction.call_of_lt hl, VariadicFunction.arrayForm_eq]
      rfl
    · rw [VariadicFunction.call_of_overlong ho, VariadicFunction.arrayForm_of_overlong ho]

def lsPath : CStr := ascii ['/', 'b', 'i', 'n', '/', 'l', 's']

/-- `execl("/bin/ls", "ls", NULL)` does not do what `execv` does with `["ls", NULL]`. -/
theorem not_meansArrayForm_ls :
    ¬ MeansArrayForm ⟨true, true, true⟩ .execl (some lsPath) (ascii ['l', 's']) [] := by
  intro h
  have hc := congrArg (Option.map fun
    | .ok _ w => w.calls
    | .error _ w => w.calls) (h unconnected)
  revert hc
  decide

end Voyeur
