import Voyeur.Client.SpawnPid
import Voyeur.Files.Search

/-! # Programs that are started by their names

`execvp`, `execlp`, `execvpe` and `posix_spawnp` look a name up in the search path, but the
test before the event is for the name itself, which is a path from the current directory.
-/

namespace Voyeur

open Program (From)
open FileSearch (FileSystem)
open Transition (Reach)

variable {w t : World} {l : Lib} {L : Preloaded} {own i : ℕ} {fd : ℤ} {bytes sent : Bytes}
  {last b : Bool}

/-- A connection that has been made begins with these bytes. -/
structure Carries (i : ℕ) (bytes : Bytes) (w : World) : Prop where
  lt : i < w.opened
  begins : bytes <+: (w.links i).bytes

/-- A connection that is in use on a number, with all its bytes. -/
structure Speaks (i : ℕ) (fd : ℤ) (bytes : Bytes) (w : World) : Prop where
  lt : i < w.opened
  target : w.target fd = some (.connection i)
  connected : (w.links i).connected = true
  bytes : (w.links i).bytes = bytes

theorem Carries.of_prefix (h : Carries i bytes w) (hp : sent <+: bytes) : Carries i sent w :=
  ⟨h.lt, hp.trans h.begins⟩

theorem Carries.congr (h : Carries i bytes w) (hk : t.links = w.links) (ho : t.opened = w.opened) :
    Carries i bytes t := by
  refine ⟨h.lt.trans_eq ho.symm, ?_⟩
  rw [hk]
  exact h.begins

theorem Carries.connect (h : Carries i bytes w) (type : EventType) (opts : Byte) :
    Carries i bytes (w.connect type opts) := by
  refine ⟨Nat.lt_succ_of_lt h.lt, ?_⟩
  rw [World.connect_of_ne (Nat.ne_of_lt h.lt)]
  exact h.begins

theorem Carries.sends (h : Carries i bytes w) (hs : Sends own fd sent last w b t) :
    Carries i bytes t := by
  refine ⟨h.lt.trans_eq hs.opened_eq.symm, ?_⟩
  cases hs with
  | nothing _ | socket _ | failed _ => exact h.begins
  | @connection j _ _ =>
    by_cases hj : i = j
    · subst hj
      rw [World.sendTo_self]
      exact h.begins.trans (List.prefix_append _ _)
    · rw [World.sendTo_of_ne hj]
      exact h.begins

theorem lasting_carries (i : ℕ) (bytes : Bytes) : Lasting (Carries i bytes) where
  same _ _ h hs := h.congr hs.links hs.opened
  allocate _ _ _ h := h.congr rfl rfl
  connect _ type opts h := h.connect type opts
  initializes w _ l h hi := by
    cases hi with
    | skip _ => exact h
    | connected _ _ => exact (h.connect l.type (clientOptions w.vars l.type)).congr rfl rfl
    | failed _ _ => exact h.congr rfl rfl
  sends _ _ _ _ _ _ _ h hs := h.sends hs
  realCloses _ _ _ _ h hr := h.congr hr.links_eq hr.opened_eq
  recorded _ _ h := h.congr rfl rfl
  dropSocket _ _ h := h.congr rfl rfl
  forget _ _ h := h.congr rfl rfl
  finalize _ h := h.congr rfl rfl

theorem Speaks.carries (h : Speaks i fd bytes w) : Carries i bytes w := by
  refine ⟨h.lt, ?_⟩
  rw [h.bytes]

theorem Speaks.not_carries (h : Speaks i fd bytes w) (hl : bytes.length < sent.length) :
    ¬ Carries i sent w := by
  intro hc
  have hle := hc.begins.length_le
  rw [h.bytes] at hle
  omega

theorem Speaks.congr (h : Speaks i fd bytes w) (ht : t.table = w.table) (hk : t.links = w.links)
    (ho : t.opened = w.opened) : Speaks i fd bytes t := by
  refine ⟨h.lt.trans_eq ho.symm, ?_, ?_, ?_⟩
  · rw [World.target_congr ht]
    exact h.target
  · rw [hk]
    exact h.connected
  · rw [hk]
    exact h.bytes

theorem Speaks.sends (h : Speaks i fd bytes w) (hs : Sends own fd sent last w b t) :
    Speaks i fd (bytes ++ sent) t := by
  have hl : i < t.opened := h.lt.trans_eq hs.opened_eq.symm
  have ht : t.target fd = some (.connection i) := by
    rw [World.target_congr hs.table_eq]
    exact h.target
  cases hs with
  | nothing hn =>
    subst hn
    exact ⟨hl, ht, h.connected, h.bytes.trans (List.append_nil _).symm⟩
  | @connection j hj hc =>
    obtain rfl : i = j := by simpa [h.target] using hj
    refine ⟨hl, ht, ?_, ?_⟩
    · rw [World.sendTo_self]
      exact hc
    · rw [World.sendTo_self, h.bytes]
  | socket hj =>
    rw [h.target] at hj
    cases hj
  | failed hu =>
    simp [World.usable, h.target, h.connected] at hu

theorem Speaks.connect (hc : w.answers.connected = true) (type : EventType) (opts : Byte) :
    Speaks w.opened w.free [] (w.connect type opts) := by
  have hk := World.connect_self (w := w) type opts
  constructor
  · exact Nat.lt_succ_self _
  · exact World.target_allocate_self (w := w) (.connection w.opened)
  · exact (congrArg Link.connected hk).trans hc
  · exact congrArg Link.bytes hk

/-- What a number refers to has been made. -/
def World.Counted (w : World) : Prop := ∀ n i, w.target n = some (.connection i) → i < w.opened

theorem World.Counted.congr (h : w.Counted) (ht : t.table = w.table) (ho : t.opened = w.opened) :
    t.Counted := by
  intro n j hj
  rw [World.target_congr ht] at hj
  rw [ho]
  exact h n j hj

theorem World.Counted.connect (h : w.Counted) (type : EventType) (opts : Byte) :
    (w.connect type opts).Counted := by
  intro n j hj
  have hj' : (w.allocate (.connection w.opened)).target n = some (.connection j) := hj
  rw [World.target_allocate] at hj'
  split at hj'
  · obtain rfl : w.opened = j := by simpa using hj'
    exact Nat.lt_succ_self _
  · exact Nat.lt_succ_of_lt (h n j hj')

theorem lasting_counted : Lasting World.Counted where
  same _ _ h hs := h.congr hs.table hs.opened
  allocate w x hx h := by
    intro n j hj
    rw [World.target_allocate] at hj
    split at hj
    · exact absurd (Option.some.inj hj) (hx j)
    · exact h n j hj
  connect _ type opts h := h.connect type opts
  initializes w _ l h hi := by
    cases hi with
    | skip _ => exact h
    | connected _ _ => exact (h.connect l.type (clientOptions w.vars l.type)).congr rfl rfl
    | failed _ _ => exact h.congr rfl rfl
  sends _ _ _ _ _ _ _ h hs := h.congr hs.table_eq hs.opened_eq
  realCloses _ _ _ _ h hr := by
    intro n j hj
    rw [hr.target] at hj
    split at hj
    · cases hj
    · exact (h n j hj).trans_eq hr.opened_eq.symm
  recorded _ _ h := h.congr rfl rfl
  dropSocket _ _ h := h.congr rfl rfl
  forget _ _ h := h.congr rfl rfl
  finalize _ h := h.congr rfl rfl

theorem World.counted_start (environ : StringArray) (pid ppid : CInt) (table : List ℕ) :
    (World.start environ pid ppid table).Counted := by
  intro n j hj
  obtain ⟨l₁, l₂, hl, -⟩ := List.lookup_eq_some_iff.mp (World.target_eq_some hj).2
  have hm : (n.toNat, Target.connection j) ∈ (start environ pid ppid table).table := by
    rw [hl]
    simp
  obtain ⟨fd, -, he⟩ := List.mem_map.mp hm
  cases he

theorem counted_of_run {ok : World → Deal × Answers → Prop} {environ : StringArray}
    {pid ppid : CInt} {table : List ℕ}
    (h : Reach (World.step L) ok (World.start environ pid ppid table) w) : w.Counted := by
  apply lasting_counted.of_run (fun _ hw => hw) _ h (World.counted_start environ pid ppid table)
  intro w _ child held hw _ _
  exact hw.congr (t := w.forked child held) rfl rfl

section

variable {options : Byte} {accessible : Bool} {path pathVar cwd : Option CStr}
  {argv envp : ArrayPtr} {pid ppid : CInt}

theorem length_wire_lt (calls calls' : List WriteCall) (pid ppid : CInt) :
    (wire calls).length < (wire (calls ++ (calls' ++ [writePid pid, writePid ppid]))).length := by
  have hp : (wire [writePid pid, writePid ppid]).length = 8 := rfl
  simp only [wire_append, List.length_append, hp]
  omega

theorem message_execEvent (options : Byte) (path pathVar cwd : Option CStr)
    (argv envp : ArrayPtr) (pid ppid : CInt) : ∃ fields,
    (execEvent path argv envp pathVar cwd pid ppid).message options =
      writeMsgType .event :: writeEventType .exec :: writeString path ::
        writeStrings ((strings argv).getD []) ++ (fields ++ [writePid pid, writePid ppid]) := by
  refine ⟨(if hasFlag options observeExecEnv then writeStrings ((strings envp).getD []) else []) ++
    (if hasFlag options observeExecPath then [writeString pathVar] else []) ++
    (if hasFlag options observeExecCwd then [writeString cwd] else []), ?_⟩
  rw [strings_getD, strings_getD]
  simp only [execEvent, ClientEvent.message, ClientEvent.type, ClientEvent.fields, execFields,
    List.cons_append, List.nil_append, List.append_assoc]

theorem length_path_lt (options : Byte) (path pathVar cwd : Option CStr) (argv envp : ArrayPtr)
    (pid ppid : CInt) :
    (wire [writeMsgType .event, writeEventType .exec, writeString path]).length <
      (wire ((execEvent path argv envp pathVar cwd pid ppid).message options)).length := by
  obtain ⟨fields, he⟩ := message_execEvent options path pathVar cwd argv envp pid ppid
  have hl := length_wire_lt [writeMsgType .event, writeEventType .exec, writeString path]
    (writeStrings ((strings argv).getD []) ++ fields) pid ppid
  rw [List.append_assoc] at hl
  rw [he]
  exact hl

theorem length_execWriting_lt
    (h : (execWriting options accessible path (strings argv) (strings envp) pathVar cwd pid
      ppid).crashes = true) :
    (wire (execWriting options accessible path (strings argv) (strings envp) pathVar cwd pid
      ppid).calls).length <
      (wire ((execEvent path argv envp pathVar cwd pid ppid).message options)).length := by
  obtain ⟨hb, hn⟩ := execWriting_crashes_iff.mp h
  rw [execWriting_of_begins hb]
  cases argv with
  | none => exact length_path_lt ..
  | some argv =>
    obtain ⟨fields, he⟩ := message_execEvent options path pathVar cwd (some argv) envp pid ppid
    obtain hn | ⟨ho, hn⟩ := hn
    · cases hn
    · rw [he, hn, ho]
      exact length_wire_lt _ fields _ _

theorem execWriting_eq_message (hb : execBegins options accessible = true)
    (h : (execWriting options accessible path (strings argv) (strings envp) pathVar cwd pid
      ppid).crashes = false) :
    execWriting options accessible path (strings argv) (strings envp) pathVar cwd pid ppid =
      ⟨(execEvent path argv envp pathVar cwd pid ppid).message options, false⟩ := by
  rw [execWriting_of_not_crashes h]
  exact congrArg (Writing.mk · false) (writeExecEvent_of_begins hb)

end

namespace Observed

theorem from_oneConnection_carries (hw : w.connects = true) (hc : w.answers.connected = true)
    (type : EventType) (opts : Byte) {x : Writing} (hx : x.crashes = false) :
    From (fun _ => Carries w.opened (wire x.calls ++ wire [writeMsgType .done])) w
      (oneConnection L type opts x)
      fun _ => Carries w.opened (wire x.calls ++ wire [writeMsgType .done]) := by
  have hg := (World.connects_iff.mp hw).1
  apply from_oneConnection_stages (B := Speaks w.opened w.free [])
    (C := Speaks w.opened w.free (wire x.calls))
    (K := Carries w.opened (wire x.calls ++ wire [writeMsgType .done]))
    (D := Carries w.opened (wire x.calls ++ wire [writeMsgType .done]))
  · intro hn
    exact absurd hn hg
  · intro _ hn
    rw [hw] at hn
    cases hn
  · intro _
    exact Speaks.connect hc type opts
  · intro _ t t' ht hs
    exact ht.sends hs
  · intro hn
    rw [hx] at hn
    cases hn
  · intro _ t t' ht hs
    exact (ht.sends hs).carries
  · intro t ht
    exact (lasting_carries _ _).from_anyClose ht .library _
  · intro t ht
    exact ht
  · intro t ht
    exact ht

end Observed

/-- What an exec function writes about its call. -/
def World.execWriting (w : World) (r : ExecRequest) : Writing :=
  Voyeur.execWriting (clientOptions w.vars .exec) w.answers.accessible r.path (strings r.argv)
    (strings (r.envp w.environ)) (getenv w.vars Observed.varPath) w.answers.cwd w.pid w.ppid

theorem ExecRequest.from_perform_carries (r : ExecRequest) (hw : w.connects = true)
    (hc : w.answers.connected = true) (hx : (w.execWriting r).crashes = false) :
    From (fun _ => Carries w.opened (wire (w.execWriting r).calls ++ wire [writeMsgType .done])) w
      (r.perform L)
      fun _ => Carries w.opened (wire (w.execWriting r).calls ++ wire [writeMsgType .done]) := by
  apply ExecRequest.from_perform
  unfold Observed.exec
  apply From.get
  apply (Observed.from_oneConnection_carries hw hc _ _ hx).bind
  intro _ t ht
  apply (Observed.from_augment ht _ _ _ _).skip
  intro voyeurEnvp
  exact Observed.from_realExec (lasting_carries _ _).kept ht _ _ _ voyeurEnvp

theorem ExecRequest.from_perform_breaks (r : ExecRequest) (hw : w.connects = true)
    (hc : w.answers.connected = true) (hx : (w.execWriting r).crashes = true) :
    From (fun _ => Speaks w.opened w.free (wire (w.execWriting r).calls)) w (r.perform L)
      fun _ _ => False := by
  apply ExecRequest.from_perform
  unfold Observed.exec
  apply From.get
  apply From.bind (Q := fun _ _ => False)
  · apply Observed.from_oneConnection_breaks hw hx
    intro b t hs
    exact (Speaks.connect hc _ _).sends hs
  · intro _ _ hf
    exact hf.elim

/-- A call of a function that looks its program up in the search path. -/
inductive SearchCall
  | execvp (name : CStr) (argv : ArrayPtr)
  | execlp (name start : CStr) (rest : Observed.VarArgs)
  | execvpe (name : CStr) (argv envp : ArrayPtr)
  | posix_spawnp (name : CStr) (argv envp : ArrayPtr)
  deriving DecidableEq

namespace SearchCall

def name : SearchCall → CStr
  | .execvp name _ | .execlp name _ _ | .execvpe name _ _ | .posix_spawnp name _ _ => name

/-- The arguments that are passed to the real function. -/
def argv : SearchCall → ArrayPtr
  | .execvp _ argv | .execvpe _ argv _ | .posix_spawnp _ argv _ => argv
  | .execlp name start rest => some (Observed.varargsToArgv name start rest)

/-- The environment that the caller gives, or that of the process. -/
def envp (environ : ArrayPtr) : SearchCall → ArrayPtr
  | .execvpe _ _ envp | .posix_spawnp _ _ envp => envp
  | .execvp _ _ | .execlp _ _ _ => environ

def perform (L : Preloaded) : SearchCall → Observed PUnit
  | .execvp name argv => discard (Observed.execvp L (some name) argv)
  | .execlp name start rest => discard (Observed.execlp L name start rest)
  | .execvpe name argv envp => discard (Observed.execvpe L (some name) argv envp)
  | .posix_spawnp name argv envp =>
      discard (Observed.posixSpawn .posix_spawnp false (some name) argv envp)

/-- The connection that the event belongs on, and what is on it before the call. -/
def connection (w : World) : SearchCall → ℕ × Bytes
  | .posix_spawnp _ _ _ =>
      if (w.libs .posixSpawn).initialized then
        (w.own .posixSpawn, (w.links (w.own .posixSpawn)).bytes)
      else (w.opened, [])
  | .execvp _ _ | .execlp _ _ _ | .execvpe _ _ _ => (w.opened, [])

/-- The options for the event. -/
def options (w : World) : SearchCall → Byte
  | .posix_spawnp _ _ _ => w.spawnOptions
  | .execvp _ _ | .execlp _ _ _ | .execvpe _ _ _ => clientOptions w.vars .exec

/-- The process that the event is about, and its parent. -/
def pids (w : World) : SearchCall → CInt × CInt
  | .posix_spawnp _ _ _ => (w.answers.child, w.pid)
  | .execvp _ _ | .execlp _ _ _ | .execvpe _ _ _ => (w.pid, w.ppid)

/-- The event about the call. -/
def event (w : World) (c : SearchCall) : ClientEvent :=
  execEvent (some c.name) c.argv (c.envp w.environ) (getenv w.vars Observed.varPath)
    w.answers.cwd (c.pids w).1 (c.pids w).2

/-- All the bytes of the event. -/
def message (w : World) (c : SearchCall) : Bytes := wire ((c.event w).message (c.options w))

/-- The call has a connected socket: its library's own one, or one that it makes. -/
def Connected (w : World) : SearchCall → Prop
  | .posix_spawnp _ _ _ =>
      if (w.libs .posixSpawn).initialized then
        w.target (w.libs .posixSpawn).sock = some (.connection (w.own .posixSpawn)) ∧
          (w.links (w.own .posixSpawn)).connected = true
      else w.connects = true ∧ w.answers.connected = true
  | .execvp _ _ | .execlp _ _ _ | .execvpe _ _ _ =>
      w.connects = true ∧ w.answers.connected = true

/--
What the call reads up to the end of its event is there. An exec function reads the environment
for that only if it is part of the event.
-/
def Provided (w : World) (c : SearchCall) : Prop :=
  match c with
  | .posix_spawnp _ argv envp => SpawnProvided w argv envp
  | .execvp _ _ | .execlp _ _ _ | .execvpe _ _ _ =>
      c.argv ≠ none ∧
        (hasFlag (clientOptions w.vars .exec) observeExecEnv = true → c.envp w.environ ≠ none)

instance (w : World) (c : SearchCall) : Decidable (c.Connected w) := by
  cases c <;> unfold Connected <;> infer_instance

instance (w : World) (c : SearchCall) : Decidable (c.Provided w) := by
  cases c <;> unfold Provided <;> infer_instance

/-- Neither option is given that decides about the event without `access`. -/
def Tested (w : World) (c : SearchCall) : Prop :=
  hasFlag (c.options w) observeExecSilent = false ∧
    hasFlag (c.options w) observeExecNoaccess = false

instance (w : World) (c : SearchCall) : Decidable (c.Tested w) := by
  unfold Tested; infer_instance

/-- The call writes its event, before anything else on its connection. -/
def Reported (L : Preloaded) (c : SearchCall) (w : World) : Prop :=
  From (fun _ => Carries (c.connection w).1 ((c.connection w).2 ++ c.message w)) w
    (c.perform L) fun _ => Carries (c.connection w).1 ((c.connection w).2 ++ c.message w)

end SearchCall

section

variable {options : Byte} {accessible : Bool} {c : SearchCall}

theorem execBegins_of_tested (hs : hasFlag options observeExecSilent = false)
    (hn : hasFlag options observeExecNoaccess = false) (accessible : Bool) :
    execBegins options accessible = accessible := by
  unfold execBegins
  rw [hs, hn]
  rfl

theorem Carries.not_message {options : Byte} {e : ClientEvent}
    (h : Carries i (wire [writeMsgType .done]) w) : ¬ Carries i (wire (e.message options)) w := by
  intro he
  have hp : wire [writeMsgType .event] <+: (w.links i).bytes := by
    have ha := wire_append [writeMsgType .event] (writeEventType e.type :: e.fields options)
    exact (List.prefix_append _ _).trans (ha ▸ he.begins)
  have hq := List.prefix_of_prefix_length_le h.begins hp (by decide)
  revert hq
  decide

theorem reported_exec_iff (r : ExecRequest) (hw : w.connects = true)
    (hc : w.answers.connected = true)
    (hs : hasFlag (clientOptions w.vars .exec) observeExecSilent = false)
    (hn : hasFlag (clientOptions w.vars .exec) observeExecNoaccess = false)
    {message : Bytes} (hm : message = wire ((execEvent r.path r.argv (r.envp w.environ)
      (getenv w.vars Observed.varPath) w.answers.cwd w.pid w.ppid).message
      (clientOptions w.vars .exec))) :
    From (fun _ => Carries w.opened message) w (discard (r.perform L))
      (fun _ => Carries w.opened message) ↔
        (r.argv ≠ none ∧ (hasFlag (clientOptions w.vars .exec) observeExecEnv = true →
          r.envp w.environ ≠ none)) ∧ w.answers.accessible = true := by
  subst hm
  have hb := execBegins_of_tested hs hn w.answers.accessible
  have hx : (w.execWriting r).crashes = true ↔ _ := execWriting_crashes_iff
  rw [hb, strings_eq_none_iff, strings_eq_none_iff] at hx
  cases ha : w.answers.accessible with
  | false =>
    have hxf : w.execWriting r = ⟨[], false⟩ := execWriting_of_not_begins (hb.trans ha)
    have hr := r.from_perform_carries (L := L) hw hc (by rw [hxf])
    rw [hxf] at hr
    apply iff_of_false _ (by simp)
    exact From.not_ends (From.discarded (hr.ends_imp fun _ ht => ht.not_message))
  | true =>
    by_cases hcr : (w.execWriting r).crashes = true
    · have hr := r.from_perform_breaks (L := L) hw hc hcr
      have hd : From _ w (discard (r.perform L)) fun _ _ => False := hr.discarded
      apply iff_of_false
      · intro hf
        apply hd.contra hf
        · intro _ _ hn
          exact hn.elim
        · intro _ t ht
          exact ht.not_carries (length_execWriting_lt hcr)
      · rintro ⟨⟨hp, he⟩, -⟩
        obtain ⟨-, hn | ⟨ho, hn⟩⟩ := hx.mp hcr
        · exact hp hn
        · exact he ho hn
    · have hxf := execWriting_eq_message (hb.trans ha) (Bool.not_eq_true _ ▸ hcr)
      have hr := r.from_perform_carries (L := L) hw hc (Bool.not_eq_true _ ▸ hcr)
      have hl := congrArg (fun x => wire (Writing.calls x)) hxf
      apply iff_of_true
      · apply From.discarded
        apply hr.ends_imp
        intro t ht
        exact ht.of_prefix (hl ▸ List.prefix_append _ _)
      · refine ⟨⟨fun hn => hcr (hx.mpr ⟨ha, .inl hn⟩), fun ho hn => ?_⟩, rfl⟩
        exact hcr (hx.mpr ⟨ha, .inr ⟨ho, hn⟩⟩)

theorem Initializes.speaks {argv envp : ArrayPtr} {name : CStr} (hw : w.Counted)
    (hc : (SearchCall.posix_spawnp name argv envp).Connected w)
    (hi : Initializes .posixSpawn w t) :
    Speaks ((SearchCall.posix_spawnp name argv envp).connection w).1 (t.libs .posixSpawn).sock
      ((SearchCall.posix_spawnp name argv envp).connection w).2 t := by
  unfold SearchCall.Connected at hc
  unfold SearchCall.connection
  cases hi with
  | skip hi =>
    rw [if_pos hi] at hc
    simp only [hi, if_true]
    exact ⟨hw _ _ hc.1, hc.1, hc.2, rfl⟩
  | connected hi _ =>
    simp only [hi, Bool.false_eq_true, if_false] at hc ⊢
    have hs := Speaks.connect hc.2 Lib.posixSpawn.type (clientOptions w.vars Lib.posixSpawn.type)
    rw [World.withSocket_self]
    exact ⟨hs.lt, hs.target, hs.connected, hs.bytes⟩
  | failed hi hn =>
    simp only [hi, Bool.false_eq_true, if_false] at hc
    rw [hc.1] at hn
    cases hn

theorem from_posix_spawnp_speaks {E : Halt → World → Prop} {name : CStr} {argv envp : ArrayPtr}
    (hw : w.Counted) (hc : (SearchCall.posix_spawnp name argv envp).Connected w)
    (hp : SpawnProvided w argv envp) :
    From E w ((SearchCall.posix_spawnp name argv envp).perform L) fun _ t =>
      ∃ fd, Speaks ((SearchCall.posix_spawnp name argv envp).connection w).1 fd
        (((SearchCall.posix_spawnp name argv envp).connection w).2 ++
          wire ((w.spawnEvent (some name) argv envp).write w.spawnOptions w.answers.accessible))
        t := by
  apply From.discarded
  apply (Observed.from_posixSpawn_provided hp .posix_spawnp false (some name)).conseq
  rintro _ t ⟨-, t₁, libs, opts, sockpath, b, h₁, h₃⟩
  have hs := h₁.speaks hw hc
  have hn : 0 ≤ (t₁.libs .posixSpawn).sock := (World.target_eq_some hs.target).1
  have ha := h₁.answers_eq
  cases h₃ with
  | skip hlt => exact absurd hn (Int.not_le.mpr hlt)
  | sends _ hsend =>
    rw [← ha, ← h₁.opts_eq]
    exact ⟨_, Speaks.sends (w := (t₁.used _).called _) (hs.congr rfl rfl rfl) hsend⟩

/-- Without what it reads `posix_spawnp` does not get to the end of its event. -/
theorem from_posix_spawnp_stuck {name : CStr} {argv envp : ArrayPtr} (hw : w.Counted)
    (hc : (SearchCall.posix_spawnp name argv envp).Connected w)
    (hp : ¬ SpawnProvided w argv envp) (hcall : c = .posix_spawnp name argv envp) :
    From (fun _ t => ¬ Carries (c.connection w).1 ((c.connection w).2 ++ c.message w) t) w
      (c.perform L) fun _ _ => False := by
  subst hcall
  generalize hm : SearchCall.message w (.posix_spawnp name argv envp) = message
  have hpath : (wire [writeMsgType .event, writeEventType .exec, writeString name]).length <
      message.length := by
    rw [← hm]
    exact length_path_lt ..
  have hpos : 0 < message.length := Nat.zero_lt_of_lt hpath
  -- before the call its connection has less on it, or has not been made
  have hbefore : ¬ Carries ((SearchCall.posix_spawnp name argv envp).connection w).1
      (((SearchCall.posix_spawnp name argv envp).connection w).2 ++ message) w := by
    by_cases hi : (w.libs .posixSpawn).initialized = true
    · have hs := (Initializes.skip hi : Initializes .posixSpawn w w).speaks hw hc
      apply hs.not_carries
      rw [List.length_append]
      omega
    · intro hk
      have hlt := hk.lt
      unfold SearchCall.connection at hlt
      rw [if_neg hi] at hlt
      exact Nat.lt_irrefl _ hlt
  apply From.discarded
  apply Observed.from_posixSpawn_stuck hp .posix_spawnp false (some name) hbefore fun _ => hbefore
  · intro t hi
    apply (hi.speaks hw hc).not_carries
    rw [List.length_append]
    omega
  · intro t passed b u hi _ hs
    have hk := hi.speaks hw hc
    apply (Speaks.sends (w := (t.used _).called _) (hk.congr rfl rfl rfl) hs).not_carries
    rw [List.length_append, List.length_append]
    omega

theorem reported_spawn_iff {name : CStr} {argv envp : ArrayPtr} (hw : w.Counted)
    (hc : (SearchCall.posix_spawnp name argv envp).Connected w)
    (ht : (SearchCall.posix_spawnp name argv envp).Tested w) :
    SearchCall.Reported L (.posix_spawnp name argv envp) w ↔
      SpawnProvided w argv envp ∧ w.answers.accessible = true := by
  have hb := execBegins_of_tested ht.1 ht.2 w.answers.accessible
  by_cases hp : SpawnProvided w argv envp
  · obtain ⟨u, t, hm, fd, hk⟩ := (from_posix_spawnp_speaks (L := L) hw hc hp).returns
    cases ha : w.answers.accessible with
    | true =>
      have he : (w.spawnEvent (some name) argv envp).write w.spawnOptions w.answers.accessible =
          (w.spawnEvent (some name) argv envp).message w.spawnOptions :=
        writeExecEvent_of_begins (hb.trans ha)
      rw [he] at hk
      exact iff_of_true (From.of_ok hm hk.carries) ⟨hp, rfl⟩
    | false =>
      have he : (w.spawnEvent (some name) argv envp).write w.spawnOptions w.answers.accessible =
          [] := writeExecEvent_of_not_begins (hb.trans ha)
      rw [he] at hk
      apply iff_of_false _ (by simp)
      intro hr
      apply hk.not_carries _ (hr.ok hm)
      have hl := length_path_lt w.spawnOptions (some name) (getenv w.vars Observed.varPath)
        w.answers.cwd argv envp w.answers.child w.pid
      rw [List.length_append, List.length_append]
      exact Nat.add_lt_add_left (Nat.zero_lt_of_lt hl) _
  · apply iff_of_false _ fun h => hp h.1
    intro hr
    apply (from_posix_spawnp_stuck hw hc hp rfl).contra hr
    · intro _ _ hf
      exact hf.elim
    · intro _ t hn ht
      exact hn ht

/-- All functions report exactly what `access` lets pass, if nothing is missing. -/
theorem reported_iff (hw : w.Counted) (c : SearchCall) (hc : c.Connected w) (ht : c.Tested w) :
    c.Reported L w ↔ c.Provided w ∧ w.answers.accessible = true := by
  obtain ⟨hs, hn⟩ := ht
  cases c with
  | execvp name argv => exact reported_exec_iff (.execvp name argv) hc.1 hc.2 hs hn rfl
  | execlp name start rest => exact reported_exec_iff (.execlp name start rest) hc.1 hc.2 hs hn rfl
  | execvpe name argv envp => exact reported_exec_iff (.execvpe name argv envp) hc.1 hc.2 hs hn rfl
  | posix_spawnp name argv envp => exact reported_spawn_iff hw hc ⟨hs, hn⟩

/-- The value of `PATH`, or what the system takes in its place. -/
def World.searchPath (w : World) (unset : CStr) : CStr :=
  (getenv w.vars Observed.varPath).getD unset

/--
With a connected socket exactly those calls that find a program are reported, if `access` on
the name itself agrees with the search; a call that misses something it reads is not reported.
-/
theorem reported_iff_resolves_iff {environ : StringArray} {self parent : CInt} {table : List ℕ}
    {answers : Answers}
    (h : Reach (World.step L) (fun _ _ => True) (World.start environ self parent table) w)
    (fs : FileSystem) (unset : CStr) (ha : answers.accessible = fs.accessible c.name)
    (hc : c.Connected (w.answered answers)) (ht : c.Tested (w.answered answers)) :
    (c.Reported L (w.answered answers) ↔ fs.Resolves (w.searchPath unset) c.name) ↔
      c.Provided (w.answered answers) ∧ fs.Agrees (w.searchPath unset) c.name ∨
        ¬ c.Provided (w.answered answers) ∧ ¬ fs.Resolves (w.searchPath unset) c.name := by
  have hw : w.Counted := counted_of_run h
  have hw' : (w.answered answers).Counted := hw
  have hacc : (w.answered answers).answers.accessible = fs.accessible c.name := ha
  rw [reported_iff hw' c hc ht, hacc, ← FileSystem.accessible_iff_resolves_iff]
  by_cases hp : c.Provided (w.answered answers)
  · simp [hp]
  · simp [hp]

/-- A file system with one program, seen from a directory. -/
def binLs (cwd : CStr) : FileSystem where
  node name :=
    if name = ascii ['/', 'b', 'i', 'n', '/', 'l', 's'] then some ⟨true, true⟩
    else if name = ascii ['/', 'b', 'i', 'n'] then some ⟨false, true⟩
    else if name = ascii ['/', 't', 'm', 'p'] then some ⟨false, true⟩
    else none
  cwd := cwd

/-- The environment of an observed process that has a search path. -/
def searchEnviron : StringArray :=
  ⟨observedEnviron.val ++ [Observed.varPath ++ ascii ['/', 'b', 'i', 'n']], by decide⟩

/-- The program is called by its name alone. -/
def lsSearch : SearchCall := .execvp (ascii ['l', 's']) lsCall.argv

/-- The name is found in the search path, and is also in the current directory. -/
theorem reported_ls :
    lsSearch.Reported ⟨true, true, true⟩
        ((World.start searchEnviron 7 1 [0, 1, 2]).answered granted) ↔
      (binLs (ascii ['/', 'b', 'i', 'n'])).Resolves
        ((World.start searchEnviron 7 1 [0, 1, 2]).searchPath []) lsSearch.name := by
  have hg : (binLs (ascii ['/', 'b', 'i', 'n'])).Agrees
      ((World.start searchEnviron 7 1 [0, 1, 2]).searchPath []) lsSearch.name :=
    ⟨fun hs => absurd hs (by decide), fun _ _ => by decide⟩
  exact (reported_iff_resolves_iff .refl (binLs (ascii ['/', 'b', 'i', 'n'])) [] (by decide)
    (by decide) (by decide)).mpr (.inl ⟨by decide, hg⟩)

/-- The name is found in the search path, but is not in the current directory. -/
theorem not_reported_ls :
    ¬ (lsSearch.Reported ⟨true, true, true⟩
        ((World.start searchEnviron 7 1 [0, 1, 2]).answered { granted with
          accessible := (binLs (ascii ['/', 't', 'm', 'p'])).accessible lsSearch.name }) ↔
      (binLs (ascii ['/', 't', 'm', 'p'])).Resolves
        ((World.start searchEnviron 7 1 [0, 1, 2]).searchPath []) lsSearch.name) := by
  have hw : ((World.start searchEnviron 7 1 [0, 1, 2]).answered { granted with
      accessible := (binLs (ascii ['/', 't', 'm', 'p'])).accessible lsSearch.name }).Counted :=
    World.counted_start searchEnviron 7 1 [0, 1, 2]
  rw [reported_iff hw _ (by decide) (by decide)]
  intro h
  have hr : (binLs (ascii ['/', 't', 'm', 'p'])).Resolves
      ((World.start searchEnviron 7 1 [0, 1, 2]).searchPath []) lsSearch.name := by
    unfold FileSystem.Resolves
    decide
  exact absurd (h.mpr hr).2 (by decide)

end

end Voyeur
