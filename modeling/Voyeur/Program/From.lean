import Mathlib.Logic.Basic

/-! # Programs with state and errors

What holds after a program that changes a state and may stop with an error. A judgement
starts in a given state and says what holds of the value and the state if the program
returns, and of the error and the state if it stops.
-/

namespace Program

variable {ε σ α β : Type}

/-- From the state `s` the program returns with `Q`, or stops with `E`. -/
def From (E : ε → σ → Prop) (s : σ) (m : EStateM ε σ α) (Q : α → σ → Prop) : Prop :=
  match m s with
  | .ok a t => Q a t
  | .error e t => E e t

variable {E E' : ε → σ → Prop} {s t : σ} {m : EStateM ε σ α} {f : α → EStateM ε σ β}
  {Q Q' : α → σ → Prop} {R : β → σ → Prop} {a : α} {e : ε}

namespace From

theorem ok (h : From E s m Q) (hm : m s = .ok a t) : Q a t := by
  unfold From at h
  rwa [hm] at h

theorem error (h : From E s m Q) (hm : m s = .error e t) : E e t := by
  unfold From at h
  rwa [hm] at h

theorem of_ok (hm : m s = .ok a t) (h : Q a t) : From E s m Q := by
  unfold From
  rwa [hm]

theorem of_error (hm : m s = .error e t) (h : E e t) : From E s m Q := by
  unfold From
  rwa [hm]

theorem of_result (ho : ∀ a t, m s = .ok a t → Q a t) (he : ∀ e t, m s = .error e t → E e t) :
    From E s m Q := by
  cases hm : m s with
  | ok a t => exact of_ok hm (ho a t hm)
  | error e t => exact of_error hm (he e t hm)

theorem returns (h : From (fun _ _ => False) s m Q) : ∃ a t, m s = .ok a t ∧ Q a t := by
  cases hm : m s with
  | ok a t => exact ⟨a, t, rfl, h.ok hm⟩
  | error e t => exact (h.error hm).elim

theorem conseq (h : From E s m Q) (hq : ∀ a t, Q a t → Q' a t) : From E s m Q' :=
  of_result (fun a t hm => hq a t (h.ok hm)) fun _ _ hm => h.error hm

/-- Of two judgements that exclude each other one is false. -/
theorem contra (h : From E s m Q) (h' : From E' s m Q') (hq : ∀ a t, Q a t → ¬ Q' a t)
    (he : ∀ e t, E e t → ¬ E' e t) : False := by
  cases hm : m s with
  | ok a t => exact hq a t (h.ok hm) (h'.ok hm)
  | error e t => exact he e t (h.error hm) (h'.error hm)

theorem ends_imp {P P' : σ → Prop} (h : From (fun _ => P) s m fun _ => P) (hp : ∀ t, P t → P' t) :
    From (fun _ => P') s m fun _ => P' :=
  of_result (fun _ t hm => hp t (h.ok hm)) fun _ t hm => hp t (h.error hm)

/-- What holds of no end does not hold of all of them. -/
theorem not_ends {P : σ → Prop} (h : From (fun _ t => ¬ P t) s m fun _ t => ¬ P t) :
    ¬ From (fun _ => P) s m fun _ => P :=
  fun h' => h.contra h' (fun _ _ hn hp => hn hp) fun _ _ hn hp => hn hp

theorem pure (h : Q a s) : From E s (pure a) Q := h

theorem throw (h : E e s) : From E s (throw e) Q := h

theorem bind (h : From E s m Q) (hf : ∀ a t, Q a t → From E t (f a) R) : From E s (m >>= f) R := by
  cases hm : m s with
  | ok a t =>
    have hb : (m >>= f) s = f a t := by
      change EStateM.bind m f s = _
      rw [EStateM.bind, hm]
    unfold From
    rw [hb]
    exact hf a t (h.ok hm)
  | error e t =>
    have hb : (m >>= f) s = .error e t := by
      change EStateM.bind m f s = _
      rw [EStateM.bind, hm]
    exact of_error hb (h.error hm)

theorem get {f : σ → EStateM ε σ β} (h : From E s (f s) R) : From E s (get >>= f) R := h

theorem modify {g : σ → σ} {Q : PUnit → σ → Prop} (h : Q ⟨⟩ (g s)) : From E s (modify g) Q := h

theorem skip (h : From E s m fun _ t => t = s) (hf : ∀ a, From E s (f a) R) :
    From E s (m >>= f) R := by
  apply h.bind
  rintro a _ rfl
  exact hf a

theorem ite {c : Prop} [Decidable c] {m' : EStateM ε σ α} (h : c → From E s m Q)
    (h' : ¬ c → From E s m' Q) : From E s (if c then m else m') Q := by
  split
  · next hc => exact h hc
  · next hc => exact h' hc

theorem discarded {Q : PUnit → σ → Prop} (h : From E s m fun _ => Q ⟨⟩) :
    From E s (discard m) Q := by
  cases hm : m s with
  | ok a t =>
    have hd : discard m s = .ok ⟨⟩ t := by
      change EStateM.map _ m s = _
      rw [EStateM.map, hm]
    exact of_ok hd (h.ok hm)
  | error e t =>
    have hd : discard m s = .error e t := by
      change EStateM.map _ m s = _
      rw [EStateM.map, hm]
    exact of_error hd (h.error hm)

end From

end Program
