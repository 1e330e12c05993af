import Mathlib.Order.WellFounded
import Voyeur.Concurrent.Threads

/-! # Rules for threads with mutexes

A mutex protects a resource, which is in order whenever the mutex is free. The code of a
call is verified on its own: between its steps the other threads may do everything that
keeps what is protected by the mutexes that it holds. If every call is verified, then the
resources are in order in every interleaving, and there is no deadlock.
-/

namespace Threads

open Transition (Reach)

variable {Λ ο χ κ ε σ : Type}

/-- What the mutexes protect, and in which order they are taken. -/
structure Protocol (M : Machine Λ ο χ κ ε σ) where
  before : Λ → Λ → Prop
  wf : WellFounded fun a b => before b a
  /-- The mutexes that an operation needs. -/
  uses : ο → Λ → Prop
  /-- What holds whenever the mutex is free. -/
  resource : Λ → σ → Prop
  /-- What holds in every state. -/
  always : σ → Prop
  /-- What every step does. -/
  grows : σ → σ → Prop
  /-- What every step does that is not made by the owner of the mutex. -/
  keeps : Λ → σ → σ → Prop
  grows_refl : ∀ d, grows d d
  grows_trans : ∀ {d d' d''}, grows d d' → grows d' d'' → grows d d''
  keeps_refl : ∀ l d, keeps l d d
  keeps_trans : ∀ {l d d' d''}, keeps l d d' → keeps l d' d'' → keeps l d d''
  resource_of_keeps : ∀ {l d d'}, resource l d → always d' → grows d d' → keeps l d d' →
    resource l d'
  env_sound : ∀ {e d d'}, M.env e d = some d' → always d →
    always d' ∧ grows d d' ∧ ∀ l, keeps l d d'
  stopped_of_grows : ∀ {d d'}, grows d d' → M.stopped d = true → M.stopped d' = true
  again_self : ∀ {o choice d r}, M.again choice = true → M.act o choice d = some r →
    r = ([.act o], d)

namespace Protocol

variable {M : Machine Λ ο χ κ ε σ} (P : Protocol M)

/-- What the other threads may have done to the owner of the mutexes `held`. -/
def Rely (held : List Λ) (d d' : σ) : Prop := P.grows d d' ∧ ∀ l ∈ held, P.keeps l d d'

/-- What the owner of the mutexes `held` may do. -/
def Guarantee (held : List Λ) (d d' : σ) : Prop :=
  P.always d' ∧ P.grows d d' ∧ ∀ l, l ∉ held → P.keeps l d d'

/-- The code can be run by an owner of the mutexes `held`, who releases them in the end. -/
inductive Verified : List Λ → List (Instr Λ ο) → σ → Prop
  | done {d : σ} : Verified [] [] d
  | lock {held : List Λ} {l : Λ} {code : List (Instr Λ ο)} {d : σ} :
      (∀ k ∈ held, P.before k l) →
      (∀ d', P.Rely held d d' → P.always d' → P.resource l d' → Verified (l :: held) code d') →
      Verified held (.lock l :: code) d
  | unlock {held : List Λ} {l : Λ} {code : List (Instr Λ ο)} {d : σ} :
      (∀ d', P.Rely (l :: held) d d' → P.always d' → P.resource l d') →
      (∀ d', P.Rely (l :: held) d d' → P.always d' → Verified held code d') →
      Verified (l :: held) (.unlock l :: code) d
  | act {held : List Λ} {o : ο} {code : List (Instr Λ ο)} {d : σ} :
      (∀ l, P.uses o l → l ∈ held) →
      (∀ d', P.Rely held d d' → P.always d' → M.stopped d' = false →
        ∃ choice r, M.again choice = false ∧ M.act o choice d' = some r) →
      (∀ d' choice new d'', P.Rely held d d' → P.always d' → M.stopped d' = false →
        M.again choice = false → M.act o choice d' = some (new, d'') →
        P.Guarantee held d' d'') →
      (∀ d' choice new d'', P.Rely held d d' → P.always d' → M.stopped d' = false →
        M.again choice = false → M.act o choice d' = some (new, d'') →
        Verified held (new ++ code) d'') →
      Verified held (.act o :: code) d

/-- Which mutexes each thread owns. -/
structure Owns (s : State Λ ο σ) (held : ℕ → List Λ) : Prop where
  verified : ∀ t, P.Verified (held t) (s.todo t) s.data
  nodup : ∀ t, (held t).Nodup
  owner : ∀ l t, s.owner l = some t ↔ l ∈ held t

structure Sound (s : State Λ ο σ) : Prop where
  owns : ∃ held, P.Owns s held
  always : P.always s.data
  free : ∀ l, s.owner l = none → P.resource l s.data

variable {P} {held : List Λ} {d d' d'' : σ} {code : List (Instr Λ ο)}

theorem Rely.refl (held : List Λ) (d : σ) : P.Rely held d d :=
  ⟨P.grows_refl d, fun l _ => P.keeps_refl l d⟩

theorem Rely.trans (h : P.Rely held d d') (h' : P.Rely held d' d'') : P.Rely held d d'' :=
  ⟨P.grows_trans h.1 h'.1, fun l hl => P.keeps_trans (h.2 l hl) (h'.2 l hl)⟩

theorem Rely.mono {held' : List Λ} (hs : ∀ l ∈ held', l ∈ held) (h : P.Rely held d d') :
    P.Rely held' d d' :=
  ⟨h.1, fun l hl => h.2 l (hs l hl)⟩

theorem Verified.stable (h : P.Verified held code d) (hr : P.Rely held d d') :
    P.Verified held code d' := by
  cases h with
  | done => exact .done
  | lock hb hv => exact .lock hb fun _ h ha hl => hv _ (hr.trans h) ha hl
  | unlock hl hv =>
    exact .unlock (fun _ h ha => hl _ (hr.trans h) ha) fun _ h ha => hv _ (hr.trans h) ha
  | act hu hp hg hv =>
    exact .act hu (fun _ h ha => hp _ (hr.trans h) ha)
      (fun _ _ _ _ h ha => hg _ _ _ _ (hr.trans h) ha)
      fun _ _ _ _ h ha => hv _ _ _ _ (hr.trans h) ha

/-- An operation that has brought the process to an end is left as it is. -/
theorem Verified.act_stopped {o : ο} (hu : ∀ l, P.uses o l → l ∈ held) (hs : M.stopped d = true) :
    P.Verified held (.act o :: code) d := by
  have hn : ∀ d', P.Rely held d d' → M.stopped d' = false → False := by
    intro d' hr hs'
    rw [P.stopped_of_grows hr.1 hs] at hs'
    cases hs'
  exact .act hu (fun d' hr _ hs' => (hn d' hr hs').elim)
    (fun d' _ _ _ hr _ hs' => (hn d' hr hs').elim)
    fun d' _ _ _ hr _ hs' => (hn d' hr hs').elim

section

variable {A : σ → Prop} {l : Λ} {o : ο}

theorem Verified.lock_of (hA : A d) (hst : ∀ d d', A d → P.Rely held d d' → A d')
    (hb : ∀ k ∈ held, P.before k l)
    (h : ∀ d', A d' → P.always d' → P.resource l d' → P.Verified (l :: held) code d') :
    P.Verified held (.lock l :: code) d :=
  .lock hb fun d' hr ha hl => h d' (hst d d' hA hr) ha hl

theorem Verified.unlock_of (hA : A d) (hst : ∀ d d', A d → P.Rely (l :: held) d d' → A d')
    (h : ∀ d', A d' → P.always d' → P.resource l d' ∧ P.Verified held code d') :
    P.Verified (l :: held) (.unlock l :: code) d :=
  .unlock (fun d' hr ha => (h d' (hst d d' hA hr) ha).1)
    fun d' hr ha => (h d' (hst d d' hA hr) ha).2

theorem Verified.act_of (hA : A d) (hst : ∀ d d', A d → P.Rely held d d' → A d')
    (hu : ∀ l, P.uses o l → l ∈ held)
    (hp : ∀ d', A d' → P.always d' → M.stopped d' = false →
      ∃ choice r, M.again choice = false ∧ M.act o choice d' = some r)
    (h : ∀ d' choice new d'', A d' → P.always d' → M.stopped d' = false →
      M.again choice = false → M.act o choice d' = some (new, d'') →
      P.Guarantee held d' d'' ∧ P.Verified held (new ++ code) d'') :
    P.Verified held (.act o :: code) d :=
  .act hu (fun d' hr ha => hp d' (hst d d' hA hr) ha)
    (fun d' _ _ _ hr ha hl hn hs => (h d' _ _ _ (hst d d' hA hr) ha hl hn hs).1)
    fun d' _ _ _ hr ha hl hn hs => (h d' _ _ _ (hst d d' hA hr) ha hl hn hs).2

end

theorem Verified.ne_nil {l : Λ} (h : P.Verified held code d) (hl : l ∈ held) : code ≠ [] := by
  rintro rfl
  cases h
  cases hl

theorem Verified.held_eq_nil (h : P.Verified held [] d) : held = [] := by
  cases h
  rfl

theorem before_irrefl (l : Λ) : ¬ P.before l l := fun h => P.wf.irrefl.irrefl l h

variable {s s' : State Λ ο σ} {e : Event χ κ ε}

theorem Owns.unique {held : ℕ → List Λ} (h : P.Owns s held) {l : Λ} {t u : ℕ} (ht : l ∈ held t)
    (hu : l ∈ held u) : t = u := by
  rw [← h.owner] at ht hu
  exact Option.some.inj (ht.symm.trans hu)

theorem verified_update {held : ℕ → List Λ} {t : ℕ} {new : List Λ}
    (ho : ∀ u, u ≠ t → P.Verified (held u) (s.todo u) d') (ht : P.Verified new code d') (u : ℕ) :
    P.Verified (Function.update held t new u) (Function.update s.todo t code u) d' := by
  by_cases hu : u = t
  · subst hu
    simpa using ht
  · simpa [hu] using ho u hu

theorem sound_init (ha : P.always d) (hr : ∀ l, P.resource l d) :
    P.Sound (State.init d : State Λ ο σ) :=
  ⟨⟨fun _ => [], fun _ => .done, fun _ => List.nodup_nil, fun _ _ => by simp [State.init]⟩, ha,
    fun l _ => hr l⟩

theorem Sound.exclusive (hi : P.Sound s) {t u : ℕ} {o o' : ο} {rest rest' : List (Instr Λ ο)}
    (ht : s.todo t = .act o :: rest) (hu : s.todo u = .act o' :: rest') {l : Λ}
    (ho : P.uses o l) (ho' : P.uses o' l) : t = u ∧ s.owner l = some t := by
  obtain ⟨⟨held, hh⟩, -, -⟩ := hi
  have hmem : ∀ {t o rest}, s.todo t = .act o :: rest → P.uses o l → l ∈ held t := by
    intro t o rest ht ho
    have hv := hh.verified t
    rw [ht] at hv
    generalize held t = locks at hv ⊢
    cases hv with
    | act hu => exact hu l ho
  exact ⟨hh.unique (hmem ht ho) (hmem hu ho'), (hh.owner l t).mpr (hmem ht ho)⟩

theorem Sound.owner_of_idle (hi : P.Sound s) (hs : s.Idle) (l : Λ) : s.owner l = none := by
  obtain ⟨⟨held, hh⟩, -, -⟩ := hi
  rw [Option.eq_none_iff_forall_not_mem]
  intro t ht
  have hm := (hh.owner l t).mp ht
  have hv := hh.verified t
  rw [hs t] at hv
  rw [hv.held_eq_nil] at hm
  cases hm

variable [DecidableEq Λ]

theorem Sound.step (hc : ∀ call d, P.always d → P.Verified [] (M.code call) d) (hi : P.Sound s)
    (h : Step M s e s') : P.Sound s' := by
  obtain ⟨⟨held, ho⟩, ha, hf⟩ := hi
  cases h with
  | @start t call _ ht =>
    have hn : held t = [] := (ht ▸ ho.verified t).held_eq_nil
    refine ⟨⟨held, fun u => ?_, ho.nodup, ho.owner⟩, ha, hf⟩
    have hv := verified_update (t := t) (fun u _ => ho.verified u) (hc call s.data ha) u
    rwa [← hn, Function.update_eq_self] at hv
  | @lock t l rest _ ht hl =>
    have hv := ho.verified t
    rw [ht] at hv
    generalize hh : held t = locks at hv
    cases hv with
    | lock hb hv =>
    have hnm : l ∉ locks := fun hm => before_irrefl l (hb l hm)
    refine ⟨⟨Function.update held t (l :: locks), ?_, ?_, ?_⟩, ha, ?_⟩
    · exact verified_update (fun u _ => ho.verified u) (hv _ (.refl _ _) ha (hf l hl))
    · intro u
      by_cases hu : u = t
      · subst hu
        simpa [hnm] using hh ▸ ho.nodup u
      · simpa [hu] using ho.nodup u
    · intro k u
      by_cases hu : u = t
      · subst hu
        by_cases hk : k = l
        · simp [hk]
        · simpa [hk, ← hh] using ho.owner k u
      · by_cases hk : k = l
        · subst hk
          simp [hu, ← ho.owner, hl, Ne.symm hu]
        · simpa [hk, hu] using ho.owner k u
    · intro k hk
      by_cases hkl : k = l
      · simp [hkl] at hk
      · exact hf k (by simpa [hkl] using hk)
  | @unlock t l rest _ ht =>
    have hv := ho.verified t
    rw [ht] at hv
    generalize hh : held t = locks at hv
    cases hv with
    | @unlock locks _ _ _ hr hv =>
    have hnd := ho.nodup t
    rw [hh, List.nodup_cons] at hnd
    refine ⟨⟨Function.update held t locks, ?_, ?_, ?_⟩, ha, ?_⟩
    · exact verified_update (fun u _ => ho.verified u) (hv _ (.refl _ _) ha)
    · intro u
      by_cases hu : u = t
      · subst hu
        simpa using hnd.2
      · simpa [hu] using ho.nodup u
    · intro k u
      have hk := ho.owner k u
      by_cases hu : u = t
      · subst hu
        by_cases hkl : k = l
        · subst hkl
          simpa using hnd.1
        · simpa [hkl, hh] using hk
      · by_cases hkl : k = l
        · subst hkl
          simpa [hu] using fun hm => hu (ho.unique hm (hh ▸ List.mem_cons_self))
        · simpa [hkl, hu] using hk
    · intro k hk
      by_cases hkl : k = l
      · exact hkl ▸ hr _ (.refl _ _) ha
      · exact hf k (by simpa [hkl] using hk)
  | @act t choice o rest code d hlive ht hs =>
    by_cases hagain : M.again choice = true
    · -- The operation is made again: nothing has changed.
      cases P.again_self hagain hs
      have he : Function.update s.todo t ([.act o] ++ rest) = s.todo :=
        Function.update_eq_self_iff.mpr ht.symm
      refine ⟨⟨held, fun u => ?_, ho.nodup, ho.owner⟩, ha, hf⟩
      change P.Verified (held u) (Function.update s.todo t ([.act o] ++ rest) u) s.data
      rw [he]
      exact ho.verified u
    have hv := ho.verified t
    rw [ht] at hv
    generalize hh : held t = locks at hv
    cases hv with
    | act _ hp hg hv =>
    have hnot := Bool.eq_false_iff.mpr hagain
    obtain ⟨had, hgr, hk⟩ := hg _ _ _ _ (.refl _ _) ha hlive hnot hs
    refine ⟨⟨held, fun u => ?_, ho.nodup, ho.owner⟩, had, fun l hl => ?_⟩
    · have ho' : ∀ u, u ≠ t → P.Verified (held u) (s.todo u) d := fun u hu =>
        (ho.verified u).stable ⟨hgr, fun l hl =>
          hk l fun hm => hu (ho.unique hl (hh ▸ hm))⟩
      have hv' := verified_update ho' (hv _ _ _ _ (.refl _ _) ha hlive hnot hs) u
      rwa [← hh, Function.update_eq_self] at hv'
    · refine P.resource_of_keeps (hf l hl) had hgr (hk l fun hm => ?_)
      have := (ho.owner l t).mpr (hh ▸ hm)
      rw [show s.owner l = none from hl] at this
      cases this
  | env he =>
    obtain ⟨had, hgr, hk⟩ := P.env_sound he ha
    exact ⟨⟨held, fun u => (ho.verified u).stable ⟨hgr, fun l _ => hk l⟩, ho.nodup, ho.owner⟩, had,
      fun l hl => P.resource_of_keeps (hf l hl) had hgr (hk l)⟩

/-- If every call is verified, then the resources are in order in every interleaving. -/
theorem sound_of_reach {ok : State Λ ο σ → Event χ κ ε → Prop}
    (hc : ∀ call d, P.always d → P.Verified [] (M.code call) d) (ha : P.always d)
    (hr : ∀ l, P.resource l d) (h : Reach M.step ok (.init d) s) : P.Sound s :=
  h.invariant (sound_init ha hr) fun _ _ _ hi _ hs => hi.step hc (step_sound hs)

theorem Sound.lock_progress (hi : P.Sound s) (hlive : M.stopped s.data = false) {t : ℕ} {l : Λ}
    {rest : List (Instr Λ ο)} (ht : s.todo t = .lock l :: rest) :
    ∃ (e : Event χ κ ε) (s' : State Λ ο σ),
      e.OfCall ∧ ¬ M.Repeats e ∧ M.step s e = some s' := by
  obtain ⟨⟨held, ho⟩, ha, -⟩ := hi
  -- The owner of the mutex waits for a later one, if it waits at all.
  induction l using P.wf.induction generalizing t rest with
  | _ l ih =>
    cases hl : s.owner l with
    | none => exact ⟨.lock t, _, trivial, id, step_lock hlive ht hl⟩
    | some u =>
      have hm : l ∈ held u := (ho.owner l u).mp hl
      have hv := ho.verified u
      rcases hu : s.todo u with _ | ⟨i, code⟩
      · exact absurd hu (hv.ne_nil hm)
      · rw [hu] at hv
        generalize hh : held u = locks at hv
        cases hv with
        | lock hb _ => exact ih _ (hb l (hh ▸ hm)) hu
        | unlock => exact ⟨.unlock u, _, trivial, id, step_unlock hlive hu⟩
        | act _ hp =>
          obtain ⟨choice, r, hn, hr⟩ := hp _ (.refl _ _) ha hlive
          exact ⟨.act u choice, _, trivial, Bool.eq_false_iff.mp hn, step_act hlive hu hr⟩

/-- As long as a call is under way, one of the threads can go on. -/
theorem Sound.progress (hi : P.Sound s) (hlive : M.stopped s.data = false) (hn : ¬ s.Idle) :
    ∃ (e : Event χ κ ε) (s' : State Λ ο σ),
      e.OfCall ∧ ¬ M.Repeats e ∧ M.step s e = some s' := by
  obtain ⟨t, ht⟩ := not_forall.mp hn
  obtain ⟨⟨held, ho⟩, ha, -⟩ := id hi
  have hv := ho.verified t
  rcases hc : s.todo t with _ | ⟨i, code⟩
  · exact absurd hc ht
  · rw [hc] at hv
    generalize held t = locks at hv
    cases hv with
    | lock => exact hi.lock_progress hlive hc
    | unlock => exact ⟨.unlock t, _, trivial, id, step_unlock hlive hc⟩
    | act _ hp =>
      obtain ⟨choice, r, hn, hr⟩ := hp _ (.refl _ _) ha hlive
      exact ⟨.act t choice, _, trivial, Bool.eq_false_iff.mp hn, step_act hlive hc hr⟩

end Protocol

end Threads
