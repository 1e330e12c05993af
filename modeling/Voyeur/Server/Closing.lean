import Voyeur.Server.ActiveSet

/-! # What the server closes

Each object that the server was given is closed exactly once by the time it returns. The
listening socket stays in the set when it is closed after the loop, so that its number is
closed once more with the stragglers, whatever it refers to by then. Numbers from
`FD_SETSIZE` on fit into no set, and nothing keeps `accept` from returning one.
-/

namespace Voyeur

open Transition (Reach)

variable {S : Setup} {w w' : Ledger} {a : Choice}

/-- Every descriptor that the server closed was its own. -/
def ClosesOwn (w : Ledger) : Prop := ∀ fd object, Op.close fd object ∈ w.log → held object = true

/-- What is known once the loop has been left. -/
def Leaving (S : Setup) (w : Ledger) : Prop :=
  match w.stage with
  | .stragglers todo =>
      todo.Nodup ∧ (∀ fd ∈ todo, fd ≠ S.serverSock → held (w.table fd) = true) ∧
      held (w.table S.serverSock) = false ∧ (S.serverSock ∈ todo ∨ ¬ ClosesOwn w) ∧
      ∀ fd object, Op.close fd object ∈ w.log → held object = true ∨ fd = S.serverSock
  | .returned =>
      ¬ ClosesOwn w ∧
      ∀ fd object, Op.close fd object ∈ w.log → held object = true ∨ fd = S.serverSock
  | _ => True

theorem ClosesOwn.of_append {ops : List Op} (hl : w'.log = w.log ++ ops) (h : ClosesOwn w') :
    ClosesOwn w := by
  intro fd object hm
  refine h fd object ?_
  rw [hl]
  exact List.mem_append_left _ hm

theorem not_closesOwn {fd : ℕ} {object : Option Object} (ho : held object = false)
    (hl : w'.log = w.log ++ [.close fd object]) : ¬ ClosesOwn w' := by
  intro h
  have hm : Op.close fd object ∈ w'.log := by simp [hl]
  rw [h fd object hm] at ho
  cases ho

theorem Leaving.host (h : Leaving S w) (hp : w'.stage = w.stage) (hl : w'.log = w.log)
    {fd : ℕ} {x : Option Object} (hf : held (w.table fd) = false) (hx : held x = false)
    (ht : w'.table = Function.update w.table fd x) : Leaving S w' := by
  have hheld : ∀ fd', held (w'.table fd') = held (w.table fd') := by
    intro fd'
    rw [ht]
    exact held_update_eq hf hx fd'
  unfold Leaving ClosesOwn at h ⊢
  rw [hp, hl]
  cases hs : w.stage with
  | stragglers todo =>
    simp only [hs, hheld] at h ⊢
    exact h
  | returned =>
    simp only [hs] at h ⊢
    exact h
  | head | scan | leave | undefined => trivial

theorem LedgerStep.leaving (h : LedgerStep S w a w') (ho : InOrder S w) (hv : Leaving S w) :
    Leaving S w' := by
  cases h with
  | @hostOpens fd hf => exact hv.host rfl rfl (by rw [hf]; rfl) held_other rfl
  | @hostCloses fd hf => exact hv.host rfl rfl (by rw [hf]; rfl) held_none rfl
  | select | selectFails | acceptFails | failed | handled | error | status => trivial
  | selectInterrupted => exact hv
  | @accept fd => by_cases hfd : fd < fdSetSize <;> simp [Leaving, hfd]
  | passEnd => cases w.childExited <;> simp [Leaving]
  | leave hp =>
    have ht : Tracks w := by simpa only [Balanced, hp] using ho.balanced
    have howned := ho.owned (by rw [hp]; trivial)
    refine ⟨List.nodup_range.filter _, ?_, ?_, ?_, ?_⟩
    · intro fd hm hn
      have ha : w.active fd = true := (List.mem_filter.mp hm).2
      rw [ht.active] at ha
      simpa [Ledger.close, hn] using ha
    · simp [Ledger.close]
    · cases hh : held (w.table S.serverSock) with
      | true =>
        left
        rw [List.mem_filter, List.mem_range, ht.active, hh]
        exact ⟨S.serverSock_lt, rfl⟩
      | false => exact .inr (not_closesOwn (w := w) hh rfl)
    · intro fd object hm
      rcases List.mem_append.mp hm with hm | hm
      · exact .inl (howned _ hm)
      · cases List.mem_singleton.mp hm
        exact .inr rfl
  | returns hp =>
    simp only [Leaving, hp] at hv
    obtain ⟨-, -, -, hs, hc⟩ := hv
    exact ⟨hs.resolve_left List.not_mem_nil, hc⟩
  | @straggler fd todo hp =>
    simp only [Leaving, hp, List.nodup_cons] at hv
    obtain ⟨⟨hn, hd⟩, hheld, hs, hm, hc⟩ := hv
    refine ⟨hd, ?_, ?_, ?_, ?_⟩
    · intro fd' hm' hne
      have hf : fd' ≠ fd := by
        rintro rfl
        exact hn hm'
      simpa [Ledger.close, hf] using hheld fd' (List.mem_cons_of_mem _ hm') hne
    · by_cases hf : S.serverSock = fd
      · simp [Ledger.close, hf]
      · simpa [Ledger.close, hf] using hs
    · rcases hm with hm | hm
      · rcases List.mem_cons.mp hm with hf | hm
        · exact .inr (not_closesOwn (w := w) (hf ▸ hs) rfl)
        · exact .inl hm
      · exact .inr fun hown => hm (ClosesOwn.of_append (w := w) rfl hown)
    · intro fd' object hm'
      rcases List.mem_append.mp hm' with hm' | hm'
      · exact hc fd' object hm'
      · cases List.mem_singleton.mp hm'
        by_cases hf : fd = S.serverSock
        · exact .inr hf
        · exact .inl (hheld fd List.mem_cons_self hf)

variable {host : ℕ → Bool}

theorem LedgerRun.leaving (h : LedgerRun S host w) : Leaving S w := by
  have hall : InOrder S w ∧ Leaving S w := by
    have hi : InOrder S (Ledger.init S host) ∧ Leaving S (Ledger.init S host) :=
      ⟨LedgerRun.inOrder .refl, trivial⟩
    refine h.invariant (I := fun w => InOrder S w ∧ Leaving S w) hi ?_
    rintro t a u ⟨ho, hv⟩ - hs
    have hs := ledgerStep_sound hs
    exact ⟨hs.inOrder ho, hs.leaving ho hv⟩
  exact hall.2

theorem LedgerRun.open_iff (h : LedgerRun S host w) (fd : ℕ) :
    held (w.table fd) = true ↔
      ∃ object, Given S w.log fd object ∧ w.log.countP (Op.closes object) = 0 := by
  have hi := h.inOrder.identities
  constructor
  · intro hh
    cases ht : w.table fd with
    | none => simp [ht] at hh
    | some object =>
      rw [ht] at hh
      exact ⟨object, hi.given fd object hh ht, hi.opened fd object hh ht⟩
  · rintro ⟨object, hg, hc⟩
    by_cases ht : w.table fd = some object
    · rw [ht]
      exact hg.held
    · rw [hi.closed fd object hg ht] at hc
      cases hc

/--
In every run of the server: at the head of the loop the set is what the server was given
and has not closed; every call of the loop is on such a descriptor; a connection is read
only when the last `select`, after it was accepted, has reported it; and when the server
returns, everything that it was given has been closed exactly once.
-/
theorem active_set_of_run (h : LedgerRun S host w) :
    (w.stage = .head → ∀ fd, w.active fd = true ↔
      ∃ object, Given S w.log fd object ∧ w.log.countP (Op.closes object) = 0) ∧
    (w.stage.InLoop → ∀ op ∈ w.log, op.Owned) ∧
    (∀ before after fd i, w.log = before ++ .read fd (some (.conn i)) :: after →
      Reported before fd i) ∧
    (w.stage = .returned → ∀ fd object, Given S w.log fd object →
      w.log.countP (Op.closes object) = 1) := by
  have ho := h.inOrder
  refine ⟨fun hp fd => ?_, ho.owned, ho.prompted.reads, fun hp fd object hg => ?_⟩
  · have ht : Tracks w := by simpa only [Balanced, hp] using ho.balanced
    rw [ht.active, h.open_iff]
  · refine ho.identities.closed fd object hg fun ht => ?_
    have hb := ho.balanced
    simp only [Balanced, hp] at hb
    have hh := hb fd
    rw [ht, hg.held] at hh
    cases hh

/-- A client connects and is done while the child's pipe has an error. -/
def reusedRun : List Choice :=
  [.select [(3, .readable)], .accept 5 0, .advance, .select [(4, .error)], .advance, .advance,
    .select [(3, .readable), (5, .readable)], .accept 4 1, .handleMessage (-1), .advance,
    .select [(4, .readable)], .advance, .advance, .advance, .advance, .advance]

theorem active_set_of_reusedRun :
    ∃ w, LedgerRun observer (fun _ => false) w ∧ w.stage = .returned ∧
      Given observer w.log 4 (.conn 1) ∧ w.log.countP (Op.closes (.conn 1)) = 1 := by
  have hx : (Transition.exec (Ledger.step observer) (fun _ _ => True)
      (Ledger.init observer fun _ => false) reusedRun).any (fun w =>
        decide (w.stage = .returned ∧
          Op.accept 3 (some .listener) (some (4, 1)) ∈ w.log)) = true := by
    decide +kernel
  obtain ⟨w, hr, hw⟩ := Transition.exists_reach_of_exec _ hx
  obtain ⟨hs, hm⟩ := of_decide_eq_true hw
  have hg : Given observer w.log 4 (.conn 1) := ⟨3, some .listener, hm⟩
  exact ⟨w, hr, hs, hg, (active_set_of_run hr).2.2.2 hs 4 (.conn 1) hg⟩

/-- Only the number of the listening socket is closed when it is not the server's. -/
theorem close_owned_or_listener (h : LedgerRun S host w) (hp : w.stage = .returned) {fd : ℕ}
    {object : Option Object} (hm : .close fd object ∈ w.log) :
    held object = true ∨ fd = S.serverSock := by
  have hv := h.leaving
  simp only [Leaving, hp] at hv
  exact hv.2 fd object hm

/-- No run of the server returns without having closed a descriptor that it did not own. -/
theorem not_closesOwn_of_returned (h : LedgerRun S host w) (hp : w.stage = .returned) :
    ¬ ClosesOwn w := by
  have hv := h.leaving
  simp only [Leaving, hp] at hv
  exact hv.1

/-- Another thread opens a file between the two closes. -/
def stolenRun : List Choice :=
  [.select [(4, .readable)], .advance, .advance, .advance, .hostOpens 3, .advance, .advance]

theorem not_closesOwn_of_stolenRun :
    ∃ w, LedgerRun observer (fun _ => false) w ∧ w.stage = .returned ∧ ¬ ClosesOwn w := by
  have hx : (Transition.exec (Ledger.step observer) (fun _ _ => True)
      (Ledger.init observer fun _ => false) stolenRun).any (fun w =>
        decide (w.stage = .returned)) = true := by
    decide +kernel
  obtain ⟨w, hr, hw⟩ := Transition.exists_reach_of_exec _ hx
  have hs := of_decide_eq_true hw
  exact ⟨w, hr, hs, not_closesOwn_of_returned hr hs⟩

/-- There the server closes the other thread's file. -/
theorem closes_other_of_stolenRun :
    ∃ w, LedgerRun observer (fun _ => false) w ∧ w.stage = .returned ∧
      Op.close 3 (some .other) ∈ w.log ∧ ¬ ClosesOwn w := by
  have hx : (Transition.exec (Ledger.step observer) (fun _ _ => True)
      (Ledger.init observer fun _ => false) stolenRun).any (fun w =>
        decide (w.stage = .returned ∧ Op.close 3 (some .other) ∈ w.log)) = true := by
    decide +kernel
  obtain ⟨w, hr, hw⟩ := Transition.exists_reach_of_exec _ hx
  obtain ⟨hs, hm⟩ := of_decide_eq_true hw
  refine ⟨w, hr, hs, hm, fun hown => ?_⟩
  cases hown 3 (some .other) hm

/-- `accept` returns the lowest number that is free. -/
def AcceptsLowest (w : Ledger) : Choice → Prop
  | .accept fd _ => ∀ n < fd, w.table n ≠ none
  | _ => True

instance (w : Ledger) (a : Choice) : Decidable (AcceptsLowest w a) := by
  unfold AcceptsLowest; split <;> infer_instance

/-- When a connection is accepted, a number of the set is free. -/
def HasRoom (w : Ledger) : Choice → Prop
  | .accept _ _ => ∃ n < fdSetSize, w.table n = none
  | _ => True

instance (w : Ledger) (a : Choice) : Decidable (HasRoom w a) := by
  unfold HasRoom; split <;> infer_instance

/-- Every descriptor fits into the set, and no connection is forgotten. -/
structure Serves (S : Setup) (w : Ledger) : Prop where
  inRange : ∀ fd object, Given S w.log fd object → fd < fdSetSize
  defined : w.stage ≠ .undefined
  watched : w.stage = .head → ∀ fd object, Given S w.log fd object →
    w.log.countP (Op.closes object) = 0 → w.active fd = true
  cleaned : w.stage = .returned → ∀ fd object, Given S w.log fd object →
    w.log.countP (Op.closes object) = 1

theorem lt_fdSetSize_iff {fd i : ℕ} (hf : w.table fd = none) (hl : AcceptsLowest w (.accept fd i)) :
    fd < fdSetSize ↔ HasRoom w (.accept fd i) := by
  constructor
  · intro hlt
    exact ⟨fd, hlt, hf⟩
  · rintro ⟨n, hn, ht⟩
    by_contra hge
    exact hl n (hn.trans_le (not_lt.mp hge)) ht

/-- An `accept` without room sets a bit behind the set. -/
theorem accept_undefined_iff {fd i : ℕ} (h : w.step S (.accept fd i) = some w')
    (hl : AcceptsLowest w (.accept fd i)) :
    w'.stage = .undefined ↔ ¬ HasRoom w (.accept fd i) := by
  cases ledgerStep_sound h with
  | accept hp hs hf hi =>
    rw [← lt_fdSetSize_iff hf hl]
    by_cases hfd : fd < fdSetSize <;> simp [hfd]

theorem LedgerStep.defined (h : LedgerStep S w a w') (hd : w'.stage ≠ .undefined) :
    w.stage ≠ .undefined := by
  cases h with
  | hostOpens | hostCloses | selectInterrupted => exact hd
  | select hp | selectFails hp | accept hp | acceptFails hp | failed hp | handled hp | passEnd hp
    | error hp | status hp | leave hp | returns hp | straggler hp => simp [hp]

theorem LedgerStep.inRange (h : LedgerStep S w a w')
    (hr : w.stage ≠ .undefined → ∀ fd object, Given S w.log fd object → fd < fdSetSize)
    (hd : w'.stage ≠ .undefined) (fd : ℕ) (object : Object) (hg : Given S w'.log fd object) :
    fd < fdSetSize := by
  replace hr := hr (h.defined hd) fd object
  cases h.effect with
  | quiet _ _ hl | host _ _ _ _ _ _ hl =>
    rw [hl] at hg
    exact hr hg
  | call op _ hn _ _ hl =>
    rw [hl, given_append_iff fun s x y hm => hn s x y (List.mem_singleton.mp hm).symm] at hg
    exact hr hg
  | accept fd' i _ _ _ _ _ hl hlt =>
    rw [hl] at hg
    rcases given_accept hg with ⟨rfl, -⟩ | hg
    · exact hlt hd
    · exact hr hg
  | close fd' reads hrd _ _ hl =>
    rw [hl, given_close hrd] at hg
    exact hr hg

theorem LedgerRun.inRange (h : LedgerRun S host w) (hd : w.stage ≠ .undefined) :
    ∀ fd object, Given S w.log fd object → fd < fdSetSize := by
  have hr := h.invariant
    (I := fun w => w.stage ≠ .undefined → ∀ fd object, Given S w.log fd object → fd < fdSetSize)
    ?_ fun t a u hr _ hs => (ledgerStep_sound hs).inRange hr
  · exact hr hd
  · rintro - fd object hg
    cases object with
    | listener => exact hg ▸ S.serverSock_lt
    | childPipe => exact hg ▸ S.childPipe_lt
    | conn i =>
      obtain ⟨s, x, hm⟩ := hg
      cases hm
    | other => exact hg.elim

/--
As long as a number of the set is free whenever a connection is accepted, every descriptor
fits into the set, and no connection is left out of the loop or of the cleanup.
-/
theorem serves_of_room
    (h : Reach (Ledger.step S) (fun w a => AcceptsLowest w a ∧ HasRoom w a) (Ledger.init S host) w) :
    Serves S w := by
  have hrun : LedgerRun S host w := h.mono fun _ _ _ => trivial
  have hd : w.stage ≠ .undefined := by
    refine h.invariant (I := fun w => w.stage ≠ .undefined) (by simp [Ledger.init]) ?_
    rintro t a u hd ⟨hl, hroom⟩ hs hu
    cases ledgerStep_sound hs with
    | hostOpens | hostCloses | selectInterrupted => exact hd hu
    | @accept fd i _ _ _ hf =>
      have hlt := (lt_fdSetSize_iff hf hl).mpr hroom
      simp [hlt] at hu
    | passEnd => cases hx : t.childExited <;> simp [hx] at hu
    | select | selectFails | acceptFails | failed | handled | error | status | leave | returns
      | straggler => cases hu
  obtain ⟨hactive, -, -, hclosed⟩ := active_set_of_run hrun
  exact ⟨hrun.inRange hd, hd, fun hp fd object hg hc => (hactive hp fd).mpr ⟨object, hg, hc⟩,
    hclosed⟩

theorem serves_of_reusedRun :
    ∃ w, w.stage = .returned ∧ Op.accept 3 (some .listener) (some (4, 1)) ∈ w.log ∧
      Serves observer w := by
  have hx : (Transition.exec (Ledger.step observer) (fun w a => AcceptsLowest w a ∧ HasRoom w a)
      (Ledger.init observer fun fd => fd < 3) reusedRun).any (fun w =>
        decide (w.stage = .returned ∧
          Op.accept 3 (some .listener) (some (4, 1)) ∈ w.log)) = true := by
    decide +kernel
  obtain ⟨w, hr, hw⟩ := Transition.exists_reach_of_exec _ hx
  obtain ⟨hs, hm⟩ := of_decide_eq_true hw
  exact ⟨w, hs, hm, serves_of_room hr⟩

/-- A client connects to a server whose program has used up the numbers of the set. -/
def crowdedRun : List Choice := [.select [(3, .readable)], .accept 1024 0]

theorem not_serves_of_crowdedRun :
    ∃ w, Reach (Ledger.step observer) AcceptsLowest (Ledger.init observer fun fd => fd < 1024) w ∧
      ¬ Serves observer w := by
  have hx : (Transition.exec (Ledger.step observer) AcceptsLowest
      (Ledger.init observer fun fd => fd < 1024) crowdedRun).any (fun w =>
        decide (w.stage = .undefined)) = true := by
    decide +kernel
  obtain ⟨w, hr, hw⟩ := Transition.exists_reach_of_exec _ hx
  exact ⟨w, hr, fun hs => hs.defined (of_decide_eq_true hw)⟩

end Voyeur
