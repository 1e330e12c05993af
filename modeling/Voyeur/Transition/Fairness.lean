import Mathlib.Order.WellFounded
import Voyeur.Transition.System

/-! # Behaviours and fairness

A behaviour goes on without an end, and may rest at any time. What a property leads to is put
together from a few rules: a fair action is taken, a measure descends, and what a behaviour
keeps to is still there when something else has come about.
-/

namespace Transition

variable {σ α β : Type}

/-- A sequence of allowed steps from `s`, with rests in between. -/
structure Behavior (step : σ → α → Option σ) (ok : σ → α → Prop) (s : σ) where
  state : ℕ → σ
  action : ℕ → Option α
  start : state 0 = s
  next : ∀ n, action n = none ∧ state (n + 1) = state n ∨
    ∃ a, action n = some a ∧ ok (state n) a ∧ step (state n) a = some (state (n + 1))

section

variable (step : σ → α → Option σ) (ok : σ → α → Prop) (s : σ)

/-- In runs from `s` a step from a state with `P` leads to such a state, or to one with `Q`. -/
def Unless (P Q : σ → Prop) : Prop :=
  ∀ t a u, Reach step ok s t → ok t a → step t a = some u → P t → P u ∨ Q u

/-- One of the actions is possible. -/
def Enabled (own : α → Prop) : Prop := ∃ a, own a ∧ (step s a).isSome = true

end

variable {step : σ → α → Option σ} {ok : σ → α → Prop} {s t : σ} {P P' Q R U : σ → Prop}
  {own : α → Prop}

namespace Behavior

variable (b : Behavior step ok s)

theorem reach (n : ℕ) : Reach step ok s (b.state n) := by
  induction n with
  | zero =>
    rw [b.start]
    exact .refl
  | succ n ih =>
    rcases b.next n with ⟨-, hs⟩ | ⟨a, -, ho, hs⟩
    · rw [hs]
      exact ih
    · exact ih.tail ho hs

/-- After a state with `P` there is one with `Q`, or it is one itself. -/
def LeadsTo (P Q : σ → Prop) : Prop := ∀ n, P (b.state n) → ∃ m, n ≤ m ∧ Q (b.state m)

/-- Again and again one of the actions is taken, or none of them is possible. -/
def Fair (own : α → Prop) : Prop :=
  ∀ k, ∃ n, k ≤ n ∧ ((∃ a, b.action n = some a ∧ own a) ∨ ¬ Enabled step (b.state n) own)

variable {b}

theorem LeadsTo.of_imp (h : ∀ t, Reach step ok s t → P t → Q t) : b.LeadsTo P Q :=
  fun n hp => ⟨n, le_rfl, h _ (b.reach n) hp⟩

theorem LeadsTo.trans (h : b.LeadsTo P Q) (h' : b.LeadsTo Q R) : b.LeadsTo P R := by
  intro n hp
  obtain ⟨m, hm, hq⟩ := h n hp
  obtain ⟨j, hj, hr⟩ := h' m hq
  exact ⟨j, hm.trans hj, hr⟩

theorem LeadsTo.mono (h : b.LeadsTo P Q) (hp : ∀ t, Reach step ok s t → P' t → P t)
    (hq : ∀ t, Reach step ok s t → Q t → R t) : b.LeadsTo P' R :=
  ((LeadsTo.of_imp hp).trans h).trans (.of_imp hq)

theorem LeadsTo.or (h : b.LeadsTo P R) (h' : b.LeadsTo Q R) :
    b.LeadsTo (fun t => P t ∨ Q t) R := by
  rintro n (hp | hq)
  · exact h n hp
  · exact h' n hq

theorem LeadsTo.trans_or (h : b.LeadsTo P fun t => Q t ∨ R t) (h' : b.LeadsTo Q R) :
    b.LeadsTo P R :=
  h.trans (h'.or (.of_imp fun _ _ hr => hr))

theorem upto (hu : Unless step ok s P Q) {n m : ℕ} (hm : n ≤ m)
    (hp : P (b.state n)) : P (b.state m) ∨ ∃ j, n ≤ j ∧ Q (b.state j) := by
  induction m, hm using Nat.le_induction with
  | base => exact .inl hp
  | succ m hm ih =>
    rcases ih with hp | hq
    · rcases b.next m with ⟨-, hs⟩ | ⟨a, -, ho, hs⟩
      · rw [hs]
        exact .inl hp
      · exact (hu _ _ _ (b.reach m) ho hs hp).imp_right fun hq => ⟨m + 1, hm.trans m.le_succ, hq⟩
    · exact .inr hq

theorem LeadsTo.beside (h : b.LeadsTo U R) (hu : Unless step ok s P Q) :
    b.LeadsTo (fun t => P t ∧ U t) fun t => P t ∧ R t ∨ Q t := by
  rintro n ⟨hp, hn⟩
  obtain ⟨m, hm, hr⟩ := h n hn
  rcases upto hu hm hp with hp | ⟨j, hj, hq⟩
  · exact ⟨m, hm, .inl ⟨hp, hr⟩⟩
  · exact ⟨j, hj, .inr hq⟩

/-- A fair action that is possible as long as it is not taken is taken. -/
theorem Fair.leadsTo (hf : b.Fair own) (hu : Unless step ok s P Q)
    (hown : ∀ t a u, Reach step ok s t → P t → own a → ok t a → step t a = some u → Q u)
    (hgo : ∀ t, Reach step ok s t → P t → Enabled step t own) : b.LeadsTo P Q := by
  intro n hp
  obtain ⟨m, hm, hfair⟩ := hf n
  rcases upto hu hm hp with hp | hq
  · rcases hfair with ⟨a, ha, ho⟩ | hn
    · rcases b.next m with ⟨hnone, -⟩ | ⟨a', ha', hok, hs⟩
      · rw [ha] at hnone
        cases hnone
      · obtain rfl := Option.some.inj (ha.symm.trans ha')
        exact ⟨m + 1, hm.trans m.le_succ, hown _ _ _ (b.reach m) hp ho hok hs⟩
    · exact absurd (hgo _ (b.reach m) hp) hn
  · exact hq

/-- What leads to its goal or further down a well-founded relation leads to its goal. -/
theorem leadsTo_of_wellFounded {r : β → β → Prop} (hr : WellFounded r) (f : σ → β)
    (h : ∀ x, b.LeadsTo (fun t => P t ∧ f t = x) fun t => Q t ∨ P t ∧ r (f t) x) :
    b.LeadsTo P Q := by
  intro n hp
  generalize hx : f (b.state n) = x
  induction x using hr.induction generalizing n with
  | _ x ih =>
    obtain ⟨m, hm, hq | ⟨hp', hd⟩⟩ := h x n ⟨hp, hx⟩
    · exact ⟨m, hm, hq⟩
    · obtain ⟨j, hj, hq⟩ := ih _ hd m hp' rfl
      exact ⟨j, hm.trans hj, hq⟩

/-- The behaviour that rests from its beginning. -/
def rest (step : σ → α → Option σ) (ok : σ → α → Prop) (s : σ) : Behavior step ok s where
  state _ := s
  action _ := none
  start := rfl
  next _ := .inl ⟨rfl, rfl⟩

/-- A step in front of a behaviour. -/
def cons {a : α} (ho : ok s a) (hs : step s a = some t) (b : Behavior step ok t) :
    Behavior step ok s where
  state n := Nat.casesOn n s b.state
  action n := Nat.casesOn n (some a) b.action
  start := rfl
  next := by
    rintro (_ | n)
    · exact .inr ⟨a, rfl, ho, hs.trans (congrArg some b.start.symm)⟩
    · exact b.next n

theorem exists_behavior_of_exec [∀ s a, Decidable (ok s a)] {as : List α}
    (h : exec step ok s as = some t) (b : Behavior step ok t) :
    ∃ b' : Behavior step ok s, ∀ n, b'.state (as.length + n) = b.state n ∧
      b'.action (as.length + n) = b.action n := by
  induction as generalizing s with
  | nil =>
    rw [exec, Option.some.injEq] at h
    subst h
    exact ⟨b, fun n => by simp⟩
  | cons a as ih =>
    rw [exec] at h
    split at h
    · next ho =>
      obtain ⟨u, hu, h⟩ := Option.bind_eq_some_iff.mp h
      obtain ⟨b', hlater⟩ := ih h
      refine ⟨b'.cons ho hu, fun n => ?_⟩
      rw [List.length_cons, Nat.add_right_comm]
      exact hlater n
    · cases h

end Behavior

end Transition
