import Voyeur.Stream.Reader

/-! # What a reader asks for

A modest reader never asks for an empty block, and announces at most so many events on
every stream. Both go through sequences of readers and through the chunks that they get.
-/

namespace StreamReader

variable {α ε β γ : Type}

/-- Every block that is asked for has elements, and at most `k` events are announced. -/
inductive Modest : ℕ → StreamReader α ε β → Prop
  | done {k : ℕ} {b : β} : Modest k (.done b)
  | fault {k : ℕ} : Modest k .fault
  | read {k n : ℕ} {f : Option (List α) → StreamReader α ε β} :
      0 < n → (∀ r, Modest k (f r)) → Modest k (.read n f)
  | emit {k : ℕ} {e : ε} {p : StreamReader α ε β} : Modest k p → Modest (k + 1) (.emit e p)

namespace Modest

variable {j k : ℕ} {p : StreamReader α ε β} {f : β → StreamReader α ε γ}

theorem pure (b : β) : Modest k (Pure.pure b : StreamReader α ε β) := .done

theorem mono (h : Modest j p) (hk : j ≤ k) : Modest k p := by
  induction h generalizing k with
  | done => exact .done
  | fault => exact .fault
  | read hn _ ih => exact .read hn fun r => ih r hk
  | @emit j e p _ ih =>
    obtain ⟨k, rfl⟩ : ∃ m, k = m + 1 := ⟨k - 1, by omega⟩
    exact .emit (ih (by omega))

theorem bind (h : Modest j p) (hf : ∀ b, Modest k (f b)) : Modest (j + k) (p >>= f) := by
  induction h with
  | done => exact (hf _).mono (Nat.le_add_left _ _)
  | fault => exact .fault
  | read hn _ ih => exact .read hn ih
  | @emit j e p _ ih =>
    rw [Nat.add_right_comm]
    exact .emit ih

theorem bind_zero (h : Modest 0 p) (hf : ∀ b, Modest k (f b)) : Modest k (p >>= f) := by
  have hb := h.bind hf
  rwa [Nat.zero_add] at hb

theorem feed (h : Modest k p) (acc : List α) : Modest k (p.feed acc).1 := by
  cases h with
  | done => exact .done
  | fault => exact .fault
  | @read _ n f hn hr =>
    rw [StreamReader.feed]
    split
    · exact hr _
    · exact .read hn hr
  | emit h => exact .emit h

end Modest

end StreamReader
