import Mathlib.Logic.Basic

/-! # Labelled transition systems

A system is a partial step function on states and actions. Runs may be restricted
to steps that are allowed in the state before them. An invariant is what every
allowed step preserves, and a projection or a simulation carries runs of one system to
another.
-/

namespace Transition

variable {σ τ α β : Type}

/-- The states that are reached from `s` by allowed steps. -/
inductive Reach (step : σ → α → Option σ) (ok : σ → α → Prop) (s : σ) : σ → Prop
  | refl : Reach step ok s s
  | tail {t u : σ} {a : α} :
      Reach step ok s t → ok t a → step t a = some u → Reach step ok s u

variable {step : σ → α → Option σ} {ok ok' : σ → α → Prop} {s t u : σ}

theorem Reach.single {a : α} (ho : ok s a) (h : step s a = some t) : Reach step ok s t :=
  .tail .refl ho h

theorem Reach.trans (h : Reach step ok s t) (h' : Reach step ok t u) : Reach step ok s u := by
  induction h' with
  | refl => exact h
  | tail _ ho hs ih => exact ih.tail ho hs

theorem Reach.mono (hok : ∀ s a, ok s a → ok' s a) (h : Reach step ok s t) :
    Reach step ok' s t := by
  induction h with
  | refl => exact .refl
  | tail _ ho hs ih => exact ih.tail (hok _ _ ho) hs

/-- What allowed steps preserve holds in every state of a run. -/
theorem Reach.invariant {I : σ → Prop} (h : Reach step ok s t) (hs : I s)
    (hi : ∀ t a u, I t → ok t a → step t a = some u → I u) : I t := by
  induction h with
  | refl => exact hs
  | tail _ ho hu ih => exact hi _ _ _ ih ho hu

theorem Reach.project {step' : τ → β → Option τ} {ok' : τ → β → Prop} (f : σ → τ)
    {I : σ → Prop} (h : Reach step ok s t) (hs : I s)
    (hi : ∀ t a u, I t → ok t a → step t a = some u → I u ∧ Reach step' ok' (f t) (f u)) :
    Reach step' ok' (f s) (f t) := by
  have hr : I t ∧ Reach step' ok' (f s) (f t) := by
    induction h with
    | refl => exact ⟨hs, .refl⟩
    | tail _ ho hu ih =>
      obtain ⟨hu', hr⟩ := hi _ _ _ ih.1 ho hu
      exact ⟨hu', ih.2.trans hr⟩
  exact hr.2

/-- A relation that every allowed step keeps by a run of the other system carries runs to runs. -/
theorem Reach.simulation {step' : τ → β → Option τ} {ok' : τ → β → Prop} {R : σ → τ → Prop}
    {s' : τ} (h : Reach step ok s t) (hs : R s s')
    (hr : ∀ t a u t', R t t' → ok t a → step t a = some u →
      ∃ u', Reach step' ok' t' u' ∧ R u u') : ∃ t', Reach step' ok' s' t' ∧ R t t' := by
  induction h with
  | refl => exact ⟨s', .refl, hs⟩
  | tail _ ho hu ih =>
    obtain ⟨t', ht, hR⟩ := ih
    obtain ⟨u', hu', hR'⟩ := hr _ _ _ t' hR ho hu
    exact ⟨u', ht.trans hu', hR'⟩

/-- Run the actions one after the other, if each is allowed and possible. -/
def exec (step : σ → α → Option σ) (ok : σ → α → Prop) [∀ s a, Decidable (ok s a)] :
    σ → List α → Option σ
  | s, [] => some s
  | s, a :: as => if ok s a then (step s a).bind fun t => exec step ok t as else none

theorem reach_of_exec [∀ s a, Decidable (ok s a)] {as : List α} (h : exec step ok s as = some t) :
    Reach step ok s t := by
  induction as generalizing s with
  | nil =>
    rw [exec, Option.some.injEq] at h
    exact h ▸ .refl
  | cons a as ih =>
    rw [exec] at h
    split at h
    · next ho =>
      obtain ⟨u, hu, ht⟩ := Option.bind_eq_some_iff.mp h
      exact (Reach.single ho hu).trans (ih ht)
    · cases h

theorem exists_reach_of_exec [∀ s a, Decidable (ok s a)] {P : σ → Bool} (as : List α)
    (h : (exec step ok s as).any P = true) : ∃ t, Reach step ok s t ∧ P t = true := by
  cases he : exec step ok s as with
  | none => simp [he] at h
  | some t => exact ⟨t, reach_of_exec he, by simpa [he] using h⟩

end Transition
