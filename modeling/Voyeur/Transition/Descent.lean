import Mathlib.Order.WellFounded
import Voyeur.Transition.System

/-! # Descending without an end

A system that goes on without an end, and whose measure only ever stays or descends in a
well-founded relation, descends finitely often.
-/

namespace Transition

variable {α : Type} {r : α → α → Prop}

theorem descends_finitely (hr : WellFounded r) (m : ℕ → α)
    (h : ∀ n, m (n + 1) = m n ∨ r (m (n + 1)) (m n)) :
    ∃ k, ∀ n, k ≤ n → ¬ r (m (n + 1)) (m n) := by
  obtain ⟨-, ⟨k, rfl⟩, hmin⟩ := hr.has_min (Set.range m) ⟨m 0, 0, rfl⟩
  -- Behind a minimum the measure stays.
  have hstay : ∀ n, k ≤ n → m n = m k := by
    intro n hn
    induction n, hn using Nat.le_induction with
    | base => rfl
    | succ n hn ih =>
      rcases h n with he | hd
      · exact he.trans ih
      · rw [ih] at hd
        exact absurd hd (hmin _ ⟨n + 1, rfl⟩)
  refine ⟨k, fun n hn hd => ?_⟩
  rw [hstay n hn] at hd
  exact hmin _ ⟨n + 1, rfl⟩ hd

/-- If the measure descends again and again, something else happens to it again and again. -/
theorem interrupted_infinitely {down up : ℕ → Prop} (hr : WellFounded r) (m : ℕ → α)
    (hd : ∀ n, down n → r (m (n + 1)) (m n))
    (hs : ∀ n, ¬ down n → ¬ up n → m (n + 1) = m n) (h : ∀ k, ∃ n, k ≤ n ∧ down n)
    (k : ℕ) : ∃ n, k ≤ n ∧ up n := by
  by_contra hn
  have hup : ∀ n, ¬ up (k + n) := fun n hu => hn ⟨k + n, Nat.le_add_right k n, hu⟩
  obtain ⟨j, hj⟩ := descends_finitely hr (fun n => m (k + n)) fun n => by
    by_cases hdn : down (k + n)
    · exact .inr (hd _ hdn)
    · exact .inl (hs _ hdn (hup n))
  obtain ⟨n, hle, hdn⟩ := h (k + j)
  obtain ⟨i, rfl⟩ : ∃ i, n = k + i := ⟨n - k, by omega⟩
  exact hj i (by omega) (hd _ hdn)

section

variable {σ : Type} {step : σ → α → Option σ} {ok : σ → α → Prop} {s t : σ}
  {run : ℕ → σ} {acts : ℕ → α}

theorem exists_run_of_exec [∀ s a, Decidable (ok s a)] {as : List α}
    (h : exec step ok s as = some (run 0)) (hr : ∀ n, step (run n) (acts n) = some (run (n + 1))) :
    ∃ (run' : ℕ → σ) (acts' : ℕ → α), run' 0 = s ∧
      (∀ n, step (run' n) (acts' n) = some (run' (n + 1))) ∧
      (∀ n, run' (as.length + n) = run n ∧ acts' (as.length + n) = acts n) ∧
      ∀ n (hn : n < as.length), acts' n = as[n] := by
  induction as generalizing s with
  | nil =>
    rw [exec, Option.some.injEq] at h
    exact ⟨run, acts, h.symm, hr, fun n => by simp, fun n hn => absurd hn (Nat.not_lt_zero n)⟩
  | cons a as ih =>
    rw [exec] at h
    split at h
    · obtain ⟨u, hu, h⟩ := Option.bind_eq_some_iff.mp h
      obtain ⟨run', acts', h₀, hr', hlater, hacts⟩ := ih h
      refine ⟨fun n => Nat.casesOn n s run', fun n => Nat.casesOn n a acts', rfl, ?_, ?_, ?_⟩
      · rintro (_ | n)
        · exact hu.trans (congrArg some h₀.symm)
        · exact hr' n
      · intro n
        rw [List.length_cons, Nat.add_right_comm]
        exact hlater n
      · rintro (_ | n) hn
        · rfl
        · exact hacts n (Nat.lt_of_succ_lt_succ hn)
    · cases h

end

end Transition
