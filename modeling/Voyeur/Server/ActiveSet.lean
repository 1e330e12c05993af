import Voyeur.Server.Ownership

/-! # The active set

At the head of the loop the set is what the server was given and has not closed. The
copies of the set that a pass walks through stay good until their last entry, because
`accept` never returns a number that the pass has still to visit.
-/

namespace Voyeur

open Transition (Reach)

variable {S : Setup} {w w' : Ledger} {a : Choice}

/-- The set is what the server holds. -/
structure Tracks (w : Ledger) : Prop where
  active : ∀ fd, w.active fd = held (w.table fd)
  range : ∀ fd, held (w.table fd) = true → fd < fdSetSize

theorem Tracks.congr (h : Tracks w) (ha : w'.active = w.active)
    (ht : ∀ fd, held (w'.table fd) = held (w.table fd)) : Tracks w' := by
  constructor
  · intro fd
    rw [ha, ht]
    exact h.active fd
  · intro fd hh
    rw [ht] at hh
    exact h.range fd hh

theorem Tracks.update (h : Tracks w) {fd : ℕ} {x : Option Object}
    (ha : w'.active = Function.update w.active fd (held x))
    (ht : w'.table = Function.update w.table fd x) (hr : held x = true → fd < fdSetSize) :
    Tracks w' := by
  constructor
  · intro fd'
    rw [ha, ht]
    by_cases hf : fd' = fd
    · subst hf
      rw [Function.update_self, Function.update_self]
    · rw [Function.update_of_ne hf, Function.update_of_ne hf]
      exact h.active fd'
  · intro fd' hh
    rw [ht] at hh
    by_cases hf : fd' = fd
    · subst hf
      rw [Function.update_self] at hh
      exact hr hh
    · rw [Function.update_of_ne hf] at hh
      exact h.range fd' hh

theorem held_update {table : ℕ → Option Object} {fd fd' : ℕ}
    (h : held (Function.update table fd none fd') = true) : fd' ≠ fd ∧ held (table fd') = true := by
  cases hc : Function.update table fd none fd' with
  | none => simp [hc] at h
  | some object =>
    rw [hc] at h
    obtain ⟨hn, ht⟩ := update_held rfl h hc
    exact ⟨hn, ht ▸ h⟩

/-- What is known of the table and the set, wherever the loop stands. -/
def Balanced (w : Ledger) : Prop :=
  match w.stage with
  | .head | .leave => Tracks w
  | .scan todo =>
      Tracks w ∧ (todo.map Prod.fst).Pairwise (· < ·) ∧ ∀ r ∈ todo, w.active r.1 = true
  | .stragglers todo => ∀ fd, held (w.table fd) = true → fd ∈ todo
  | .returned => ∀ fd, held (w.table fd) = false
  | .undefined => True

theorem Balanced.scan {todo : List (ℕ × Report)} (h : Balanced w) (hp : w.stage = .scan todo) :
    Tracks w ∧ (todo.map Prod.fst).Pairwise (· < ·) ∧ ∀ r ∈ todo, w.active r.1 = true := by
  simpa only [Balanced, hp] using h

/-- What `select` reports refers to an object of the server when the pass comes to it. -/
theorem Balanced.visits {fd : ℕ} {r : Report} {todo : List (ℕ × Report)} (h : Balanced w)
    (hp : w.stage = .scan todo) (hm : (fd, r) ∈ todo) : held (w.table fd) = true := by
  obtain ⟨ht, -, ha⟩ := h.scan hp
  rw [← ht.active]
  exact ha _ hm

theorem Balanced.host (h : Balanced w) (hp : w'.stage = w.stage) (ha : w'.active = w.active)
    {fd : ℕ} {x : Option Object} (hf : held (w.table fd) = false) (hx : held x = false)
    (ht : w'.table = Function.update w.table fd x) : Balanced w' := by
  have hheld : ∀ fd', held (w'.table fd') = held (w.table fd') := by
    intro fd'
    rw [ht]
    exact held_update_eq hf hx fd'
  unfold Balanced at h ⊢
  rw [hp]
  cases hs : w.stage with
  | head | leave =>
    simp only [hs] at h ⊢
    exact h.congr ha hheld
  | scan todo =>
    simp only [hs] at h ⊢
    obtain ⟨h, ho, hm⟩ := h
    rw [ha]
    exact ⟨h.congr ha hheld, ho, hm⟩
  | stragglers todo | returned =>
    simp only [hs] at h ⊢
    intro fd'
    rw [hheld]
    exact h fd'
  | undefined => trivial

theorem Balanced.rest {r : ℕ × Report} {todo : List (ℕ × Report)} (h : Balanced w)
    (hp : w.stage = .scan (r :: todo)) (hp' : w'.stage = .scan todo) (ht : Tracks w')
    (ha : ∀ r' ∈ todo, w'.active r'.1 = w.active r'.1) : Balanced w' := by
  obtain ⟨-, ho, hm⟩ := h.scan hp
  simp only [Balanced, hp']
  refine ⟨ht, (List.pairwise_cons.mp ho).2, fun r' hr' => ?_⟩
  rw [ha r' hr']
  exact hm r' (List.mem_cons_of_mem _ hr')

theorem Balanced.close {fd : ℕ} {r : Report} {todo : List (ℕ × Report)} (h : Balanced w)
    (hp : w.stage = .scan ((fd, r) :: todo)) (hp' : w'.stage = .scan todo)
    (ht : w'.table = Function.update w.table fd none)
    (ha : w'.active = Function.update w.active fd false) : Balanced w' := by
  obtain ⟨htr, ho, -⟩ := h.scan hp
  refine h.rest hp hp' (htr.update ha ht fun hx => by cases hx) fun r' hr' => ?_
  have hlt : fd < r'.1 := (List.pairwise_cons.mp ho).1 r'.1 (List.mem_map_of_mem hr')
  rw [ha, Function.update_of_ne hlt.ne']

theorem LedgerStep.balanced (h : LedgerStep S w a w') (hb : Balanced w) : Balanced w' := by
  cases h with
  | @hostOpens fd hf => exact hb.host rfl rfl (by rw [hf]; rfl) held_other rfl
  | @hostCloses fd hf => exact hb.host rfl rfl (by rw [hf]; rfl) held_none rfl
  | select hp hr =>
    have ht : Tracks w := by simpa only [Balanced, hp] using hb
    exact ⟨ht.congr rfl fun _ => rfl, hr.1, fun r hm => (hr.2 r hm).2⟩
  | selectInterrupted => exact hb
  | selectFails hp =>
    have ht : Tracks w := by simpa only [Balanced, hp] using hb
    exact ht.congr rfl fun _ => rfl
  | @accept fd i todo hp hl hf hi =>
    obtain ⟨ht, ho, hm⟩ := hb.scan hp
    by_cases hfd : fd < fdSetSize
    · simp only [hfd, if_true]
      refine hb.rest hp rfl (ht.update rfl rfl fun _ => hfd) fun r hr => ?_
      refine Function.update_of_ne ?_ _ _
      rintro rfl
      have hh := hb.visits hp (List.mem_cons_of_mem _ hr)
      rw [hf] at hh
      cases hh
    · simp [Balanced, hfd]
  | acceptFails hp =>
    obtain ⟨ht, -, -⟩ := hb.scan hp
    exact hb.rest hp rfl (ht.congr rfl fun _ => rfl) fun _ _ => rfl
  | handled hp =>
    obtain ⟨ht, -, -⟩ := hb.scan hp
    exact hb.rest hp rfl (ht.congr rfl fun _ => rfl) fun _ _ => rfl
  | failed hp | error hp | status hp => exact hb.close hp rfl rfl rfl
  | passEnd hp =>
    obtain ⟨ht, -, -⟩ := hb.scan hp
    unfold Balanced
    cases w.childExited with
    | false => exact ht.congr rfl fun _ => rfl
    | true => exact ht.congr rfl fun _ => rfl
  | leave hp =>
    have ht : Tracks w := by simpa only [Balanced, hp] using hb
    intro fd hc
    obtain ⟨-, hh⟩ := held_update hc
    rw [List.mem_filter, List.mem_range]
    exact ⟨ht.range fd hh, by rw [ht.active, hh]⟩
  | returns hp =>
    simp only [Balanced, hp] at hb
    intro fd
    cases hh : held (w.table fd) with
    | false => rfl
    | true => cases hb fd hh
  | @straggler fd todo hp =>
    simp only [Balanced, hp] at hb
    intro fd' hc
    obtain ⟨hn, hh⟩ := held_update hc
    exact (List.mem_cons.mp (hb fd' hh)).resolve_left hn

variable {host : ℕ → Bool}

theorem balanced_init : Balanced (Ledger.init S host) := by
  constructor
  · intro fd
    rw [init_table]
    simp only [Ledger.init, Config.init]
    split_ifs with hs hp ht
    · simp [hs, held]
    · simp [hp, held]
    · simp [hs, hp, held]
    · simp [hs, hp, held]
  · intro fd hh
    rw [init_table] at hh
    split_ifs at hh with hs hp ht
    · exact hs ▸ S.serverSock_lt
    · exact hp ▸ S.childPipe_lt
    · cases hh
    · cases hh

/-- The loop has not been left, and every call was made by it. -/
def Stage.InLoop : Stage → Prop
  | .head | .scan _ | .leave | .undefined => True
  | .stragglers _ | .returned => False

theorem LedgerStep.owned (h : LedgerStep S w a w') (hi : Identities S w) (hb : Balanced w)
    (ho : w.stage.InLoop → ∀ op ∈ w.log, op.Owned) :
    w'.stage.InLoop → ∀ op ∈ w'.log, op.Owned := by
  -- A call on the descriptor that the pass visits.
  have hcall : ∀ {r : ℕ × Report} {todo : List (ℕ × Report)} (ops : List Op),
      w.stage = .scan (r :: todo) → (held (w.table r.1) = true → ∀ op ∈ ops, op.Owned) →
      ∀ op ∈ w.log ++ ops, op.Owned := by
    intro r todo ops hp hops op hm
    rcases List.mem_append.mp hm with hm | hm
    · exact ho (by rw [hp]; trivial) op hm
    · exact hops (hb.visits hp List.mem_cons_self) op hm
  cases h with
  | hostOpens | hostCloses | selectInterrupted => exact ho
  | select hp hr =>
    rintro - op hm
    rcases List.mem_append.mp hm with hm | hm
    · exact ho (by rw [hp]; trivial) op hm
    · rw [List.mem_singleton.mp hm]
      trivial
  | selectFails hp =>
    rintro - op hm
    exact ho (by rw [hp]; trivial) op hm
  | accept hp hl =>
    rintro -
    refine hcall _ hp fun _ op hm => ?_
    rw [List.mem_singleton.mp hm]
    exact hl
  | acceptFails hp =>
    rintro -
    refine hcall _ hp fun hh op hm => ?_
    rw [List.mem_singleton.mp hm]
    exact hi.listener hh
  | @failed fd _ _ hp =>
    rintro -
    have := hcall [.read fd (w.table fd), .close fd (w.table fd)] hp fun hh op hm => ?_
    · simpa [Ledger.fdClr, Ledger.close, Ledger.read, Ledger.note] using this
    · rcases List.mem_pair.mp hm with rfl | rfl
      · exact hh
      · exact hh
  | handled hp =>
    rintro -
    refine hcall _ hp fun hh op hm => ?_
    rw [List.mem_singleton.mp hm]
    exact hh
  | error hp =>
    rintro -
    refine hcall _ hp fun hh op hm => ?_
    rw [List.mem_singleton.mp hm]
    exact hh
  | status hp =>
    rintro -
    have := hcall [.read S.childPipe (w.table S.childPipe),
      .close S.childPipe (w.table S.childPipe)] hp fun hh op hm => ?_
    · simpa [Ledger.fdClr, Ledger.close, Ledger.read, Ledger.note] using this
    · rcases List.mem_pair.mp hm with rfl | rfl
      · exact hh
      · exact hh
  | passEnd hp =>
    rintro - op hm
    exact ho (by rw [hp]; trivial) op hm
  | leave | returns | straggler => exact fun hl => hl.elim

/--
The last `select` of the log came after the connection was accepted under the number,
and reports the number as readable.
-/
def Reported (log : List Op) (fd i : ℕ) : Prop :=
  ∃ before reported after, log = before ++ .select reported :: after ∧
    (∀ other, Op.select other ∉ after) ∧
    (∃ s x, Op.accept s x (some (fd, i)) ∈ before) ∧ (fd, .readable) ∈ reported

theorem Reported.append {log ops : List Op} {fd i : ℕ} (h : Reported log fd i)
    (hn : ∀ other, Op.select other ∉ ops) : Reported (log ++ ops) fd i := by
  obtain ⟨before, reported, after, rfl, ha, hc, hr⟩ := h
  refine ⟨before, reported, after ++ ops, by simp, fun other hm => ?_, hc, hr⟩
  rcases List.mem_append.mp hm with hm | hm
  · exact ha other hm
  · exact hn other hm

/-- Every read of a connection, and every one that is due, has been reported. -/
structure Prompted (w : Ledger) : Prop where
  due : ∀ todo fd i, w.stage = .scan todo → (fd, .readable) ∈ todo →
    w.table fd = some (.conn i) → Reported w.log fd i
  reads : ∀ before after fd i, w.log = before ++ .read fd (some (.conn i)) :: after →
    Reported before fd i

theorem Prompted.rest {r : ℕ × Report} {todo : List (ℕ × Report)}
    (h : Prompted w) (ops : List Op) (hp : w.stage = .scan (r :: todo))
    (hp' : ∀ todo', w'.stage = .scan todo' → todo' = todo)
    (ht : ∀ fd i, (fd, .readable) ∈ todo → w'.table fd = some (.conn i) →
      w.table fd = some (.conn i))
    (hl : w'.log = w.log ++ ops) (hn : ∀ other, Op.select other ∉ ops)
    (hr : ∀ before after fd i, ops = before ++ .read fd (some (.conn i)) :: after →
      before = [] ∧ r = (fd, .readable) ∧ w.table fd = some (.conn i)) : Prompted w' := by
  constructor
  · intro todo' fd i hs hm hc
    obtain rfl := hp' todo' hs
    rw [hl]
    exact (h.due _ fd i hp (List.mem_cons_of_mem _ hm) (ht fd i hm hc)).append hn
  · intro before after fd i he
    rw [hl, List.append_eq_append_iff] at he
    rcases he with ⟨ops', rfl, he⟩ | ⟨after', he, ha⟩
    · obtain ⟨rfl, rfl, hc⟩ := hr ops' after fd i he
      rw [List.append_nil]
      exact h.due _ fd i hp List.mem_cons_self hc
    · cases after' with
      | nil =>
        obtain ⟨-, rfl, hc⟩ := hr [] after fd i ha.symm
        rw [List.append_nil] at he
        rw [← he]
        exact h.due _ fd i hp List.mem_cons_self hc
      | cons op after' =>
        obtain ⟨rfl, rfl⟩ := List.cons.inj ha
        exact h.reads before after' fd i he

theorem Prompted.apart (h : Prompted w) (ops : List Op) (hl : w'.log = w.log ++ ops)
    (hn : ∀ op ∈ ops, ¬ op.IsRead)
    (hd : ∀ todo fd i, w'.stage = .scan todo → (fd, .readable) ∈ todo →
      w'.table fd = some (.conn i) → Reported w'.log fd i) : Prompted w' := by
  constructor
  · exact hd
  · intro before after fd i he
    rw [hl, List.append_eq_append_iff] at he
    rcases he with ⟨ops', rfl, he⟩ | ⟨after', he, ha⟩
    · exact absurd ⟨fd, some (.conn i), rfl⟩ (hn (.read fd (some (.conn i))) (by simp [he]))
    · cases after' with
      | nil =>
        rw [List.nil_append] at ha
        exact absurd ⟨fd, some (.conn i), rfl⟩ (hn _ (ha ▸ List.mem_cons_self))
      | cons op after' =>
        obtain ⟨rfl, rfl⟩ := List.cons.inj ha
        exact h.reads before after' fd i he

theorem LedgerStep.prompted (h : LedgerStep S w a w') (hi : Identities S w) (hb : Balanced w)
    (hr : Prompted w) : Prompted w' := by
  cases h with
  | @hostOpens fd hf | @hostCloses fd hf =>
    refine hr.apart [] (by simp) (by simp) fun todo fd' i hp hm hc => ?_
    exact hr.due todo fd' i hp hm (update_held rfl rfl hc).2
  | @select reported hp hs =>
    refine hr.apart [.select reported] rfl (by simp [Op.IsRead]) ?_
    intro todo fd i ht hm hc
    cases ht
    exact ⟨w.log, reported, [], rfl, by simp, hi.given fd (.conn i) rfl hc, hm⟩
  | selectInterrupted => exact hr
  | selectFails hp => exact hr.apart [] (by simp) (by simp) (by simp)
  | @accept fd i todo hp hl hf hn =>
    refine hr.rest _ hp ?_ ?_ rfl (by simp) ?_
    · intro todo' ht
      by_cases hfd : fd < fdSetSize
      · simpa [hfd] using ht.symm
      · simp [hfd] at ht
    · intro fd' j hm hc
      have hne : fd' ≠ fd := by
        rintro rfl
        have hh := hb.visits hp (List.mem_cons_of_mem _ hm)
        rw [hf] at hh
        cases hh
      simpa [hne] using hc
    · intro before after fd' j he
      cases before <;> simp at he
  | acceptFails hp =>
    refine hr.rest _ hp (by simp) (fun _ _ _ hc => hc) rfl (by simp) ?_
    intro before after fd j he
    cases before <;> simp at he
  | @failed fd _ todo hp =>
    refine hr.rest [.read fd (w.table fd), .close fd (w.table fd)] hp (by simp) ?_
      (by simp [Ledger.fdClr, Ledger.close, Ledger.read, Ledger.note]) (by simp) ?_
    · exact fun _ _ _ hc => (update_held rfl rfl hc).2
    · intro before after fd' j he
      rcases before with _ | ⟨op, _ | ⟨op', before⟩⟩ <;> simp at he
      exact ⟨rfl, by rw [he.1.1], by rw [← he.1.1, he.1.2]⟩
  | @handled fd _ todo hp =>
    refine hr.rest [.read fd (w.table fd)] hp (by simp) (fun _ _ _ hc => hc) rfl
      (by simp) ?_
    intro before after fd' j he
    rcases before with _ | ⟨op, before⟩ <;> simp at he
    exact ⟨rfl, by rw [he.1.1], by rw [← he.1.1, he.1.2]⟩
  | passEnd hp =>
    refine hr.apart [] (by simp) (by simp) ?_
    cases w.childExited <;> simp
  | @error fd todo hp =>
    refine hr.rest [.close fd (w.table fd)] hp (by simp) ?_ rfl
      (by simp) ?_
    · exact fun _ _ _ hc => (update_held rfl rfl hc).2
    · intro before after fd' j he
      cases before <;> simp at he
  | status hp =>
    refine hr.rest [.read S.childPipe (w.table S.childPipe),
      .close S.childPipe (w.table S.childPipe)] hp (by simp) ?_
      (by simp [Ledger.fdClr, Ledger.close, Ledger.read, Ledger.note]) (by simp) ?_
    · exact fun _ _ _ hc => (update_held rfl rfl hc).2
    · intro before after fd' j he
      rcases before with _ | ⟨op, _ | ⟨op', before⟩⟩ <;> simp at he
      exact ⟨rfl, by rw [he.1.1], by rw [← he.1.1, he.1.2]⟩
  | leave hp =>
    exact hr.apart [.close S.serverSock (w.table S.serverSock)] rfl
      (by simp [Op.IsRead]) (by simp)
  | returns hp => exact hr.apart [] (by simp) (by simp) (by simp)
  | @straggler fd todo hp =>
    exact hr.apart [.close fd (w.table fd)] rfl (by simp [Op.IsRead]) (by simp)

theorem prompted_init : Prompted (Ledger.init S host) := by
  constructor
  · intro todo fd i hp
    cases hp
  · intro before after fd i he
    cases before <;> cases he

/-- What holds in every run of the server. -/
structure InOrder (S : Setup) (w : Ledger) : Prop where
  identities : Identities S w
  balanced : Balanced w
  owned : w.stage.InLoop → ∀ op ∈ w.log, op.Owned
  prompted : Prompted w

theorem LedgerStep.inOrder (h : LedgerStep S w a w') (ho : InOrder S w) : InOrder S w' := by
  constructor
  · exact h.effect.identities ho.identities
  · exact h.balanced ho.balanced
  · exact h.owned ho.identities ho.balanced ho.owned
  · exact h.prompted ho.identities ho.balanced ho.prompted

theorem LedgerRun.inOrder (h : LedgerRun S host w) : InOrder S w := by
  refine h.invariant ⟨identities_init, balanced_init, ?_, prompted_init⟩ ?_
  · intro _ op hm
    cases hm
  · intro t a u ho _ hs
    exact (ledgerStep_sound hs).inOrder ho

end Voyeur
