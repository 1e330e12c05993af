import Voyeur.Environment.Frame
import Voyeur.Environment.Options

/-! # The options without a terminating NUL

The buffer of `voyeur_requested_opts` has one byte for every event type. The number of the
last event type is one less than their count, so that no byte is left for the NUL, and the
options are read on into the memory behind the buffer.
-/

namespace Voyeur

/-- The offsets that are read by a function that looks for the end of the string. -/
def scanned (memory : Bytes) : List ℕ := List.range ((cString memory).length + 1)

theorem mem_scanned {memory : Bytes} {i : ℕ} :
    i ∈ scanned memory ↔ i ≤ (cString memory).length := by
  rw [scanned, List.mem_range, Nat.lt_succ_iff]

/-- The string that `voyeur_augment_environment` finds at the buffer, with `tail` behind it. -/
def optsString (context : Context) (tail : Bytes) : CStr :=
  cString ((requestedOpts context).2 ++ tail)

/-- The new environment defines `LIBVOYEUR_OPTS` as one character for each event type. -/
def OptsExact (context : Context) (tail : Bytes) : Prop :=
  ∀ envp libs sockpath environ, Augments envp libs (optsString context tail) sockpath environ →
    environ[envp.length + 1]? = some (varOpts ++ (requestedOpts context).2)

/-- The buffer holds a whole string, and what is read of it stays inside. -/
structure OptsTerminated (context : Context) (tail : Bytes) : Prop where
  nul : 0 ∈ (requestedOpts context).2
  inside : ∀ i ∈ scanned ((requestedOpts context).2 ++ tail), i < eventMax
  exact_value : OptsExact context tail

theorem nul_not_mem_requestedOpts (context : Context) : 0 ∉ (requestedOpts context).2 := by
  intro h
  exact requestedOpts_ne_zero context 0 h rfl

theorem eventMax_mem_scanned (context : Context) (tail : Bytes) :
    eventMax ∈ scanned ((requestedOpts context).2 ++ tail) := by
  rw [mem_scanned, cString_requestedOpts, List.length_append, length_requestedOpts]
  exact Nat.le_add_right _ _

/-- The value is right exactly if the memory behind the buffer happens to start with a NUL. -/
theorem optsExact_iff (context : Context) (tail : Bytes) :
    OptsExact context tail ↔ cString tail = [] := by
  have hb : envBuf - 1 - varOpts.length = 2032 := rfl
  have hm : (requestedOpts context).2.length = 4 := rfl
  constructor
  · intro h
    have ha := h [] [] [] _ (augments_iff.mpr ⟨by decide, rfl⟩)
    rw [getElem?_augment_own [] [] _ [] (k := 1) (by decide)] at ha
    have he : envEntry varOpts (optsString context tail) =
        varOpts ++ (requestedOpts context).2 := Option.some.inj ha
    rw [envEntry_eq (by decide), hb, optsString, cString_requestedOpts] at he
    have hl := congrArg List.length (List.append_cancel_left he)
    rw [List.length_take, List.length_append, hm] at hl
    exact List.eq_nil_of_length_eq_zero (by omega)
  · intro h envp libs sockpath environ ha
    obtain ⟨-, rfl⟩ := augments_iff.mp ha
    rw [getElem?_augment_own envp libs _ sockpath (k := 1) (by decide), optsString,
      cString_requestedOpts, h, List.append_nil]
    have hf : varOpts.length + (requestedOpts context).2.length ≤ envBuf - 1 := by
      rw [hm]
      decide
    rw [← envEntry_of_fits hf]
    rfl

/-- No options buffer is terminated, whatever the context and the memory behind it. -/
theorem requestedOpts_unterminated (context : Context) (tail : Bytes) :
    ¬ OptsTerminated context tail ∧
      (¬ ∀ i ∈ scanned ((requestedOpts context).2 ++ tail), i < eventMax) ∧
      (OptsExact context tail ↔ cString tail = []) := by
  refine ⟨?_, ?_, optsExact_iff context tail⟩
  · intro h
    exact nul_not_mem_requestedOpts context h.nul
  · intro h
    exact lt_irrefl _ (h eventMax (eventMax_mem_scanned context tail))

/-- Without observers, the options with a letter behind them are a string of five characters. -/
theorem not_optsTerminated_letter :
    ¬ ∀ (context : Context) (tail : Bytes), OptsTerminated context tail := by
  intro h
  have hx := (h ⟨fun _ => ⟨0, none, 0⟩⟩ (ascii ['x'])).exact_value
  rw [optsExact_iff] at hx
  revert hx
  decide

end Voyeur
