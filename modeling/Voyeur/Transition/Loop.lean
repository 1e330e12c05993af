import Mathlib.Data.Set.Finite.Lattice

/-! # Loops over a schedule

A loop takes turns. Each turn knows its number, under which it may look up what a schedule
holds for it, and either goes on from another state or returns. An invariant is what every
turn preserves; a loop ends if its idle turns are finitely many and the others make a
measure smaller.
-/

namespace Loop

/-- What one turn does: it goes on from a state, or it returns. -/
inductive Turn (σ β : Type) where
  | next (s : σ)
  | done (b : β)

variable {σ β : Type}

/-- Turns that go on lead from turn `k` in the state `s` to another one. -/
inductive Steps (turn : ℕ → σ → Turn σ β) (k : ℕ) (s : σ) : ℕ → σ → Prop
  | refl : Steps turn k s k s
  | tail {j : ℕ} {t u : σ} :
      Steps turn k s j t → turn j t = .next u → Steps turn k s (j + 1) u

/-- From turn `k` in the state `s` on, the loop returns `b` in turn `j` in the state `t`. -/
def Ends (turn : ℕ → σ → Turn σ β) (k : ℕ) (s : σ) (j : ℕ) (t : σ) (b : β) : Prop :=
  Steps turn k s j t ∧ turn j t = .done b

variable {turn : ℕ → σ → Turn σ β} {k j : ℕ} {s t u : σ} {b : β}

theorem Steps.head (h : turn k s = .next t) (ht : Steps turn (k + 1) t j u) :
    Steps turn k s j u := by
  induction ht with
  | refl => exact .tail .refl h
  | tail _ hu ih => exact ih.tail hu

theorem Steps.invariant {I : ℕ → σ → Prop} (h : Steps turn k s j t) (hs : I k s)
    (hi : ∀ j t u, I j t → turn j t = .next u → I (j + 1) u) : I j t := by
  induction h with
  | refl => exact hs
  | tail _ hu ih => exact hi _ _ _ ih hu

theorem Ends.head (h : turn k s = .next t) (ht : Ends turn (k + 1) t j u b) :
    Ends turn k s j u b :=
  ⟨.head h ht.1, ht.2⟩

theorem ends_of_measure {I : ℕ → σ → Prop} (μ : ℕ → σ → ℕ)
    (hi : ∀ j t u, I j t → turn j t = .next u → I (j + 1) u ∧ μ (j + 1) u < μ j t)
    (hs : I k s) : ∃ j t b, Ends turn k s j t b := by
  induction hn : μ k s using Nat.strong_induction_on generalizing k s with
  | _ n ih =>
    cases ht : turn k s with
    | done b => exact ⟨k, s, b, .refl, ht⟩
    | next t =>
      obtain ⟨hI, hlt⟩ := hi k s t hs ht
      obtain ⟨j, u, b, hu⟩ := ih _ (hn ▸ hlt) hI rfl
      exact ⟨j, u, b, hu.head ht⟩

/-- A loop ends if all but finitely many of its turns make a measure smaller. -/
theorem ends_of_finite {I : ℕ → σ → Prop} {idle : Set ℕ} (hf : idle.Finite) (μ : σ → ℕ)
    (hi : ∀ j t u, I j t → turn j t = .next u →
      I (j + 1) u ∧ (μ u < μ t ∨ j ∈ idle ∧ μ u ≤ μ t))
    (hs : I k s) : ∃ j t b, Ends turn k s j t b := by
  obtain ⟨n, hn⟩ := hf.bddAbove
  -- An idle turn comes closer to the last of them.
  refine ends_of_measure (fun j t => μ t + (n + 1 - j)) ?_ hs
  intro j t u hI ht
  obtain ⟨hu, hm⟩ := hi j t u hI ht
  refine ⟨hu, ?_⟩
  rcases hm with hm | ⟨hj, hm⟩
  · omega
  · have hle : j ≤ n := hn hj
    omega

/-- Run a loop for at most so many turns. -/
def run (turn : ℕ → σ → Turn σ β) : (fuel k : ℕ) → σ → Option (ℕ × σ × β)
  | 0, _, _ => none
  | fuel + 1, k, s =>
    match turn k s with
    | .next t => run turn fuel (k + 1) t
    | .done b => some (k, s, b)

theorem ends_of_run {fuel : ℕ} (h : run turn fuel k s = some (j, t, b)) : Ends turn k s j t b := by
  induction fuel generalizing k s with
  | zero => cases h
  | succ fuel ih =>
    rw [run] at h
    cases ht : turn k s with
    | next u =>
      rw [ht] at h
      exact (ih h).head ht
    | done c =>
      rw [ht] at h
      cases h
      exact ⟨.refl, ht⟩

end Loop
