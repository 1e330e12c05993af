import Voyeur.Environment.Options
import Voyeur.Wire.Payload
import Voyeur.Wire.Writers

/-! # Writers and readers agree

What a client writes for an event is the payload that the observer expects,
as soon as both sides see the same bits of the event's options. The options that
came through the environment have these bits.
-/

namespace Voyeur

open LittleEndian (encode decode)
open StreamReader (Accepts)

theorem length_cut_le (s : Option CStr) : (ClientEvent.cut s).length ≤ maxStrlen := by
  simp [ClientEvent.cut]

theorem flatten_writeString (s : Option CStr) :
    (writeString s).flatten = stringBytes (ClientEvent.cut s) := by
  cases s with
  | none => rfl
  | some val =>
    simp [writeString, writeSize, writeWord, stringBytes, ClientEvent.cut, strnlen, Nat.min_comm]

theorem wire_writeStrings (entries : List CStr) :
    wire (writeStrings entries) =
      arrayBytes (entries.map fun s => ClientEvent.cut (some s)) := by
  have he : wire (entries.map fun s => writeString (some s)) =
      entriesBytes (entries.map fun s => ClientEvent.cut (some s)) := by
    induction entries with
    | nil => rfl
    | cons s entries ih =>
      rw [List.map_cons, wire_cons, ih, flatten_writeString, List.map_cons, entriesBytes_cons]
  rw [writeStrings, wire_cons, he, arrayBytes, List.length_map]
  simp [writeInt, writeWord]

/-- The five bits of the options that select fields are the same on both sides. -/
def SameFields (options opts : Byte) : Prop :=
  ∀ flag ∈ [observeExecCwd, observeExecEnv, observeExecPath],
    hasFlag options flag = hasFlag opts flag

theorem sameFields_carried (opts : Byte) : SameFields (carried opts) opts := by
  intro flag hf
  apply hasFlag_carried
  simp only [List.mem_cons, List.not_mem_nil, or_false] at hf
  rcases hf with rfl | rfl | rfl <;> decide

namespace ClientEvent

/-- The values of an event's payload. -/
def args (context : Context) : (e : ClientEvent) → (payload context e.type).Args
  | .exec path argv envp pathVar cwd pid ppid =>
      (cut path, argv.val.map fun s => cut (some s),
        if hasFlag (context.opts .exec) observeExecEnv then some (envp.val.map fun s => cut (some s))
          else none,
        if hasFlag (context.opts .exec) observeExecPath then some (cut pathVar) else none,
        if hasFlag (context.opts .exec) observeExecCwd then some (cut cwd) else none, pid, ppid)
  | .exit status pid ppid => (status, pid, ppid)
  | .open_ path oflag mode retval cwd pid =>
      (cut path, oflag, writtenMode oflag mode, retval,
        if hasFlag (context.opts .open_) observeOpenCwd then some (cut cwd) else none, pid)
  | .close fildes retval pid => (fildes, retval, pid)

variable {context : Context}

theorem event_args (e : ClientEvent) :
    (payload context e.type).event (e.args context) = e.received (context.opts e.type) := by
  cases e <;> rfl

theorem wire_fields {options : Byte} (e : ClientEvent)
    (h : SameFields options (context.opts e.type)) :
    wire (e.fields options) = (payload context e.type).layout.bytes (e.args context) := by
  have hw : ∀ v, (writeInt v).flatten = encode 4 v := fun v => List.append_nil _
  have hp : ∀ v, (writePid v).flatten = encode 4 v := fun v => List.append_nil _
  cases e with
  | exec path argv envp pathVar cwd pid ppid =>
    have hs := h observeExecCwd (by simp)
    have he := h observeExecEnv (by simp)
    have hv := h observeExecPath (by simp)
    simp only [type] at hs he hv
    simp only [fields, execFields, hs, he, hv, args, payload, execPayload, type, Layout.bytes,
      wire_append, wire_cons, wire_nil, wire_writeStrings, flatten_writeString, hp,
      List.append_nil, List.append_assoc]
    split_ifs <;>
      simp only [Layout.bytes, wire_cons, wire_nil, wire_writeStrings, flatten_writeString,
        List.append_nil, List.nil_append]
  | exit status pid ppid =>
    simp only [fields, exitFields, args, payload, exitPayload, type, Layout.bytes, wire_cons,
      wire_nil, hw, hp, List.append_nil]
  | open_ path oflag mode retval cwd pid =>
    have hs := h observeOpenCwd (by simp [observeOpenCwd, observeExecCwd])
    simp only [type] at hs
    simp only [fields, openFields, hs, args, payload, openPayload, type, Layout.bytes,
      wire_append, wire_cons, wire_nil, flatten_writeString, hw, hp, List.append_nil,
      List.append_assoc]
    split_ifs <;>
      simp only [Layout.bytes, wire_cons, wire_nil, flatten_writeString, List.append_nil,
        List.nil_append]
  | close fildes retval pid =>
    simp only [fields, closeFields, args, payload, closePayload, type, Layout.bytes, wire_cons,
      wire_nil, hw, hp, List.append_nil]

/-- Every buffer that a client's event can need. -/
def GrantsEvents (malloc : ℕ → Bool) : Prop := ∀ n ≤ 8 * intMax.toNat, malloc n = true

theorem valid_cut (s : Option CStr) : (cut s).length + 1 < 2 ^ 63 := by
  have := length_cut_le s
  simp only [maxStrlen] at this
  omega

theorem valid_args (e : ClientEvent) :
    (payload context e.type).layout.Valid (e.args context) := by
  have ha : ∀ l : StringArray, Layout.array.Valid (l.val.map fun s => cut (some s)) := by
    intro l
    refine ⟨?_, ?_⟩
    · rw [List.length_map]
      have := l.property
      omega
    · intro b hb
      obtain ⟨s, -, rfl⟩ := List.mem_map.mp hb
      exact valid_cut _
  have ho : ∀ {β : Type} (asked : Bool) (f : Layout β) (b : β), f.Valid b →
      (Layout.opt asked f).Valid (if asked then some b else none) := by
    intro β asked f b hb
    cases asked
    · exact rfl
    · exact ⟨rfl, hb⟩
  cases e with
  | exec path argv envp pathVar cwd pid ppid =>
    exact ⟨valid_cut _, ha argv, ho _ _ _ (ha envp), ho _ _ _ (valid_cut _),
      ho _ _ _ (valid_cut _), trivial, trivial⟩
  | exit status pid ppid => exact ⟨trivial, trivial, trivial⟩
  | open_ path oflag mode retval cwd pid =>
    exact ⟨valid_cut _, trivial, trivial, trivial, ho _ _ _ (valid_cut _), trivial⟩
  | close fildes retval pid => exact ⟨trivial, trivial, trivial⟩

theorem granted_args {malloc : ℕ → Bool} (hm : GrantsEvents malloc) (e : ClientEvent) :
    (payload context e.type).layout.Granted malloc (e.args context) := by
  have hi : intMax.toNat = 2147483647 := rfl
  have hc : ∀ s, GrantsString malloc (cut s).length := by
    intro s
    have := length_cut_le s
    simp only [maxStrlen] at this
    exact ⟨valid_cut s, hm _ (by omega)⟩
  have ha : ∀ l : StringArray, Layout.array.Granted malloc (l.val.map fun s => cut (some s)) := by
    intro l
    refine ⟨?_, ?_⟩
    · have := l.property
      exact hm _ (by rw [List.length_map]; omega)
    · intro b hb
      obtain ⟨s, -, rfl⟩ := List.mem_map.mp hb
      exact hc _
  have ho : ∀ {β : Type} (asked : Bool) (f : Layout β) (b : β), f.Granted malloc b →
      (Layout.opt asked f).Granted malloc (if asked then some b else none) := by
    intro β asked f b hb
    cases asked
    · exact trivial
    · exact hb
  cases e with
  | exec path argv envp pathVar cwd pid ppid =>
    exact ⟨hc _, ha argv, ho _ _ _ (ha envp), ho _ _ _ (hc _), ho _ _ _ (hc _), trivial, trivial⟩
  | exit status pid ppid => exact ⟨trivial, trivial, trivial⟩
  | open_ path oflag mode retval cwd pid =>
    exact ⟨hc _, trivial, trivial, trivial, ho _ _ _ (hc _), trivial⟩
  | close fildes retval pid => exact ⟨trivial, trivial, trivial⟩

/-- The handler of an event accepts its fields, whatever follows. -/
theorem handleEvent_fields {malloc : ℕ → Bool} (hm : GrantsEvents malloc) {options : Byte}
    (e : ClientEvent) (h : SameFields options (context.opts e.type)) :
    Accepts (handleEvent malloc context e.type.number) (wire (e.fields options))
      (context.calls (e.received (context.opts e.type))) () := by
  rw [e.wire_fields h, ← e.event_args]
  exact handleEvent_accepts e.valid_args (e.granted_args hm)

end ClientEvent

/--
A client that got its options through the environment writes, behind the event type, what
the observer's handler needs to run the callback of the event once, and no byte more.
-/
theorem handleEvent_write (malloc : ℕ → Bool) (hm : ClientEvent.GrantsEvents malloc)
    (context : Context) (tail : Bytes) (envp : List CStr) (h : getenv envp varOpts = none)
    (libs sockpath : CStr) (e : ClientEvent) (accessible : Bool) (fields : List WriteCall)
    (hw : e.write (clientOptions (augmentEnvironment envp libs
        (cString ((requestedOpts context).2 ++ tail)) sockpath) e.type) accessible =
      writeMsgType .event :: writeEventType e.type :: fields) (rest : Bytes) :
    (handleEvent malloc (requestedOpts context).1 e.type.number).run (wire fields ++ rest) =
      ((requestedOpts context).1.calls (e.received ((requestedOpts context).1.opts e.type)),
        some ((), rest)) := by
  rw [clientOptions_augment h] at hw
  rcases e.write_cases (carried ((requestedOpts context).1.opts e.type)) accessible with h0 | h1
  · simp [h0] at hw
  · rw [h1, ClientEvent.message] at hw
    simp only [List.cons.injEq, true_and] at hw
    rw [← hw]
    exact e.handleEvent_fields hm (sameFields_carried _) rest

/-- An `exec` event with two arguments and the working directory, and without a `PATH`. -/
theorem handleEvent_write_exec :
    (handleEvent (fun _ => true) (requestedOpts ⟨fun _ => ⟨0x05, some 7, 9⟩⟩).1 0).run
      (wire (execFields 0x05 (some (ascii ['/', 'l', 's'])) [ascii ['l', 's'], ascii ['-', 'l']] []
        none (some (ascii ['/'])) 12 11) ++ [1, 2]) =
      ([⟨7, .exec (ascii ['/', 'l', 's']) [ascii ['l', 's'], ascii ['-', 'l']] none (some [])
        (some (ascii ['/'])) 12 11, 9⟩], some ((), [1, 2])) := by
  have h := handleEvent_write (fun _ => true) (fun _ _ => rfl) ⟨fun _ => ⟨0x05, some 7, 9⟩⟩ [0xaa]
    [ascii ['A', '=', 'b']] (by decide) (ascii ['l']) (ascii ['s'])
    (.exec (some (ascii ['/', 'l', 's'])) ⟨[ascii ['l', 's'], ascii ['-', 'l']], by decide⟩
      ⟨[], by decide⟩ none (some (ascii ['/'])) 12 11) true _
    (by rw [clientOptions_augment (by decide)]; rfl) [1, 2]
  exact h

end Voyeur
