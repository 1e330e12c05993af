import Mathlib.Data.List.GetD
import Voyeur.Environment.Lookup

/-! # Options in the environment

The options of every event type travel to the observed process as one printable
character each. The five bits that a character carries arrive unchanged.
-/

namespace Voyeur

/-- `voyeur_encode_options`: the five low bits, put behind `@`. -/
def encodeOptions (opts : Byte) : Byte := 0x40 ||| (opts &&& 0x1f)

/-- `voyeur_decode_options`. -/
def decodeOptions (opts : Option CStr) (offset : ℕ) : Byte :=
  match opts with
  | none => 0
  | some opts => if strnlen opts 8 < offset then 0 else opts.getD offset 0 &&& 0x1f

/-- Without a callback for `exec`, its options only keep the instrumentation going. -/
def Context.forceExec (context : Context) : Context where
  observer t :=
    if t = .exec ∧ (context.observer .exec).cb = none then
      { context.observer .exec with opts := observeExecSilent }
    else context.observer t

/-- `voyeur_requested_opts`: the changed context and the `VOYEUR_EVENT_MAX` allocated bytes. -/
def requestedOpts (context : Context) : Context × Bytes :=
  (context.forceExec, mapEvents.map fun t => encodeOptions (context.forceExec.opts t))

/-- The options of a client for an event type, from its environment. -/
def clientOptions (environ : List CStr) (t : EventType) : Byte :=
  decodeOptions (getenv environ varOpts) t.number.toNat

/-- The part of the options that reaches a client. -/
def carried (opts : Byte) : Byte := opts &&& 0x1f

theorem encodeOptions_ne_zero (opts : Byte) : encodeOptions opts ≠ 0 := by
  intro h
  have hb := congrArg (fun b : Byte => b &&& 0x40) h
  simp only [encodeOptions, BitVec.and_or_distrib_right, BitVec.and_assoc] at hb
  simp at hb

@[simp] theorem decode_encodeOptions (opts : Byte) :
    encodeOptions opts &&& 0x1f = carried opts := by
  rw [encodeOptions, carried, BitVec.and_or_distrib_right, BitVec.and_assoc]
  simp

theorem hasFlag_carried {flag : Byte} (h : (0x1f : Byte) &&& flag = flag) (opts : Byte) :
    hasFlag (carried opts) flag = hasFlag opts flag := by
  rw [hasFlag, hasFlag, carried, BitVec.and_assoc, h]

@[simp] theorem length_requestedOpts (context : Context) :
    (requestedOpts context).2.length = eventMax := rfl

theorem requestedOpts_getD (context : Context) (t : EventType) :
    (requestedOpts context).2.getD t.number.toNat 0 =
      encodeOptions ((requestedOpts context).1.opts t) := by
  cases t <;> rfl

theorem requestedOpts_ne_zero (context : Context) : ∀ b ∈ (requestedOpts context).2, b ≠ 0 := by
  intro b hb
  obtain ⟨t, -, rfl⟩ := List.mem_map.mp hb
  exact encodeOptions_ne_zero _

theorem cString_requestedOpts (context : Context) (tail : Bytes) :
    cString ((requestedOpts context).2 ++ tail) = (requestedOpts context).2 ++ cString tail := by
  apply List.takeWhile_append_of_pos
  simpa using requestedOpts_ne_zero context

/-- A client decodes the five low bits of the options that the observer encoded. -/
theorem clientOptions_augment {envp : List CStr} (h : getenv envp varOpts = none)
    (context : Context) (tail : Bytes) (libs sockpath : CStr) (t : EventType) :
    clientOptions (augmentEnvironment envp libs
      (cString ((requestedOpts context).2 ++ tail)) sockpath) t =
      carried ((requestedOpts context).1.opts t) := by
  have hn : t.number.toNat < eventMax := by cases t <;> decide
  have hl : eventMax ≤ envBuf - 1 - varOpts.length := by decide
  rw [clientOptions, getenv_augment distinct_opts_insert, h, Option.none_or, getenv_own_opts,
    cString_requestedOpts, List.take_append, List.take_of_length_le (by simpa using hl)]
  have hs : ¬ strnlen ((requestedOpts context).2 ++ (cString tail).take
      (envBuf - 1 - varOpts.length - (requestedOpts context).2.length)) 8 < t.number.toNat := by
    simp only [strnlen, List.length_append, length_requestedOpts]
    simp only [eventMax] at hn ⊢
    omega
  rw [decodeOptions, if_neg hs, List.getD_append _ _ _ _ (by simpa using hn), requestedOpts_getD,
    decode_encodeOptions]

end Voyeur
