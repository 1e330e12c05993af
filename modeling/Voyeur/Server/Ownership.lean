import Voyeur.Server.Ledger

/-! # Who owns a descriptor

The kernel's table says what a number refers to at the time of a call. Inside the loop
the set `active_fd_set` is what the server holds, so that every call is made on an
object of the server, and what `select` reports is still there when the pass comes to it.
-/

namespace Voyeur

open Transition (Reach)

/-- The object belongs to the server. -/
def held : Option Object → Bool
  | some .listener | some .childPipe | some (.conn _) => true
  | some .other | none => false

@[simp] theorem held_none : held none = false := rfl

@[simp] theorem held_other : held (some .other) = false := rfl

/-- The call is made on an object of the server, and `accept` on the listening socket. -/
def Op.Owned : Op → Prop
  | .select _ => True
  | .accept _ object _ => object = some .listener
  | .read _ object | .close _ object => held object = true

instance (op : Op) : Decidable op.Owned := by
  unfold Op.Owned; split <;> infer_instance

/-- The call closes the object. -/
def Op.closes (object : Object) : Op → Bool
  | .close _ closed => closed = some object
  | _ => false

def Op.IsRead (op : Op) : Prop := ∃ fd object, op = .read fd object

/-- What a step does to the table and the log. -/
inductive Effect (S : Setup) (w w' : Ledger) : Prop
  | quiet : w'.table = w.table → w'.accepted = w.accepted → w'.log = w.log → Effect S w w'
  | host (fd : ℕ) (object : Option Object) :
      held (w.table fd) = false → held object = false →
      w'.table = Function.update w.table fd object →
      w'.accepted = w.accepted → w'.log = w.log → Effect S w w'
  | call (op : Op) :
      (∀ object, op.closes object = false) → (∀ s object x, op ≠ .accept s object (some x)) →
      w'.table = w.table → w'.accepted = w.accepted → w'.log = w.log ++ [op] → Effect S w w'
  | accept (fd i : ℕ) :
      w.table S.serverSock = some .listener → w.table fd = none → i ∉ w.accepted →
      w'.table = Function.update w.table fd (some (.conn i)) → w'.accepted = i :: w.accepted →
      w'.log = w.log ++ [.accept S.serverSock (w.table S.serverSock) (some (fd, i))] →
      (w'.stage ≠ .undefined → fd < fdSetSize) → Effect S w w'
  | close (fd : ℕ) (reads : List Op) :
      (∀ op ∈ reads, op.IsRead) → w'.table = Function.update w.table fd none →
      w'.accepted = w.accepted → w'.log = w.log ++ (reads ++ [.close fd (w.table fd)]) →
      Effect S w w'

variable {S : Setup} {w w' : Ledger} {a : Choice}

theorem LedgerStep.effect (h : LedgerStep S w a w') : Effect S w w' := by
  cases h with
  | @hostOpens fd hf => exact .host fd (some .other) (by rw [hf]; rfl) rfl rfl rfl rfl
  | @hostCloses fd hf => exact .host fd none (by rw [hf]; rfl) rfl rfl rfl rfl
  | @select reported => exact .call (.select reported) (fun _ => rfl) (by simp) rfl rfl rfl
  | selectInterrupted | selectFails | passEnd | returns => exact .quiet rfl rfl rfl
  | @accept fd i todo _ hl hf hi =>
    exact .accept fd i hl hf hi rfl rfl rfl fun hd => by_contra fun hn => hd (if_neg hn)
  | acceptFails =>
    exact .call (.accept S.serverSock (w.table S.serverSock) none) (fun _ => rfl) (by simp)
      rfl rfl rfl
  | @failed fd =>
    exact .close fd [.read fd (w.table fd)] (by simp [Op.IsRead]) rfl rfl
      (by simp [Ledger.fdClr, Ledger.close, Ledger.read, Ledger.note])
  | @handled fd => exact .call (.read fd (w.table fd)) (fun _ => rfl) (by simp) rfl rfl rfl
  | @error fd => exact .close fd [] (by simp) rfl rfl rfl
  | status =>
    exact .close S.childPipe [.read S.childPipe (w.table S.childPipe)] (by simp [Op.IsRead]) rfl
      rfl (by simp [Ledger.fdClr, Ledger.close, Ledger.read, Ledger.note])
  | leave => exact .close S.serverSock [] (by simp) rfl rfl rfl
  | @straggler fd => exact .close fd [] (by simp) rfl rfl rfl

/-- The server was given the descriptor for the object, at its entry or by `accept`. -/
def Given (S : Setup) (log : List Op) (fd : ℕ) : Object → Prop
  | .listener => fd = S.serverSock
  | .childPipe => fd = S.childPipe
  | .conn i => ∃ s object, Op.accept s object (some (fd, i)) ∈ log
  | .other => False

/-- How the descriptors, the objects and the calls on them belong together. -/
structure Identities (S : Setup) (w : Ledger) : Prop where
  given : ∀ fd object, held (some object) = true → w.table fd = some object → Given S w.log fd object
  unique : ∀ fd fd' object, Given S w.log fd object → Given S w.log fd' object → fd = fd'
  reserved : ∀ i, ¬ Given S w.log S.serverSock (.conn i)
  known : ∀ fd i, Given S w.log fd (.conn i) → i ∈ w.accepted
  fresh : ∀ i, i ∉ w.accepted → w.log.countP (Op.closes (.conn i)) = 0
  opened : ∀ fd object, held (some object) = true → w.table fd = some object →
    w.log.countP (Op.closes object) = 0
  closed : ∀ fd object, Given S w.log fd object → w.table fd ≠ some object →
    w.log.countP (Op.closes object) = 1

theorem Given.held {log : List Op} {fd : ℕ} {object : Object} (h : Given S log fd object) :
    held (some object) = true := by
  cases object with
  | listener | childPipe | conn => rfl
  | other => exact h.elim

theorem Given.append {log : List Op} {fd : ℕ} {object : Object} (h : Given S log fd object)
    (ops : List Op) : Given S (log ++ ops) fd object := by
  cases object with
  | listener | childPipe => exact h
  | conn i =>
    obtain ⟨s, x, hm⟩ := h
    exact ⟨s, x, List.mem_append_left _ hm⟩
  | other => exact h.elim

theorem given_append_iff {log ops : List Op} {fd : ℕ} {object : Object}
    (h : ∀ s x y, Op.accept s x (some y) ∉ ops) :
    Given S (log ++ ops) fd object ↔ Given S log fd object := by
  constructor
  · intro hg
    cases object with
    | listener | childPipe => exact hg
    | conn i =>
      obtain ⟨s, x, hm⟩ := hg
      rcases List.mem_append.mp hm with hm | hm
      · exact ⟨s, x, hm⟩
      · exact absurd hm (h s x (fd, i))
    | other => exact hg.elim
  · intro hg
    exact hg.append ops

theorem given_accept {log : List Op} {s fd fd' i : ℕ} {x : Option Object} {object : Object}
    (h : Given S (log ++ [.accept s x (some (fd, i))]) fd' object) :
    (fd' = fd ∧ object = .conn i) ∨ Given S log fd' object := by
  cases object with
  | listener | childPipe => exact .inr h
  | other => exact h.elim
  | conn j =>
    obtain ⟨s', x', hm⟩ := h
    rcases List.mem_append.mp hm with hm | hm
    · exact .inr ⟨s', x', hm⟩
    · cases List.mem_singleton.mp hm
      exact .inl ⟨rfl, rfl⟩

theorem given_close {log reads : List Op} {fd fd' : ℕ} {x : Option Object} {object : Object}
    (hr : ∀ op ∈ reads, op.IsRead) :
    Given S (log ++ (reads ++ [.close fd x])) fd' object ↔ Given S log fd' object := by
  refine given_append_iff fun s y z hm => ?_
  rcases List.mem_append.mp hm with hm | hm
  · obtain ⟨_, _, hm⟩ := hr _ hm
    cases hm
  · cases List.mem_singleton.mp hm

theorem Identities.single (hi : Identities S w) {fd fd' : ℕ} {object : Object}
    (ho : held (some object) = true) (h : w.table fd = some object)
    (h' : w.table fd' = some object) : fd = fd' :=
  hi.unique fd fd' object (hi.given fd object ho h) (hi.given fd' object ho h')

theorem Identities.listener (hi : Identities S w) (h : held (w.table S.serverSock) = true) :
    w.table S.serverSock = some .listener := by
  cases ht : w.table S.serverSock with
  | none => simp [ht] at h
  | some object =>
    rw [ht] at h
    have hg := hi.given _ object h ht
    cases object with
    | listener => rfl
    | childPipe => exact absurd hg S.serverSock_ne
    | conn i => exact absurd hg (hi.reserved i)
    | other => cases h

theorem update_held {table : ℕ → Option Object} {fd fd' : ℕ} {x : Option Object} {object : Object}
    (hx : held x = false) (ho : held (some object) = true)
    (h : Function.update table fd x fd' = some object) :
    fd' ≠ fd ∧ table fd' = some object := by
  by_cases hf : fd' = fd
  · subst hf
    rw [Function.update_self] at h
    rw [h, ho] at hx
    cases hx
  · rw [Function.update_of_ne hf] at h
    exact ⟨hf, h⟩

theorem held_update_eq {table : ℕ → Option Object} {fd : ℕ} {x : Option Object}
    (hf : held (table fd) = false) (hx : held x = false) (fd' : ℕ) :
    held (Function.update table fd x fd') = held (table fd') := by
  by_cases hn : fd' = fd
  · subst hn
    rw [Function.update_self, hf, hx]
  · rw [Function.update_of_ne hn]

theorem countP_reads {reads : List Op} (h : ∀ op ∈ reads, op.IsRead) (object : Object) :
    reads.countP (Op.closes object) = 0 := by
  rw [List.countP_eq_zero]
  intro op hop
  obtain ⟨fd, x, rfl⟩ := h op hop
  simp [Op.closes]

theorem Identities.host (hi : Identities S w) {fd : ℕ} {x : Option Object}
    (hf : held (w.table fd) = false) (hx : held x = false)
    (ht : w'.table = Function.update w.table fd x) (ha : w'.accepted = w.accepted)
    (hl : w'.log = w.log) : Identities S w' := by
  constructor
  · intro fd' object ho h
    rw [ht] at h
    rw [hl]
    exact hi.given fd' object ho (update_held hx ho h).2
  · rw [hl]
    exact hi.unique
  · rw [hl]
    exact hi.reserved
  · rw [hl, ha]
    exact hi.known
  · rw [hl, ha]
    exact hi.fresh
  · intro fd' object ho h
    rw [ht] at h
    rw [hl]
    exact hi.opened fd' object ho (update_held hx ho h).2
  · intro fd' object hg hn
    rw [hl] at hg ⊢
    refine hi.closed fd' object hg fun h => hn ?_
    have hne : fd' ≠ fd := by
      rintro rfl
      rw [h, hg.held] at hf
      cases hf
    rw [ht, Function.update_of_ne hne]
    exact h

theorem Identities.call (hi : Identities S w) {op : Op} (hc : ∀ object, op.closes object = false)
    (hn : ∀ s x y, op ≠ .accept s x (some y)) (ht : w'.table = w.table)
    (ha : w'.accepted = w.accepted) (hl : w'.log = w.log ++ [op]) : Identities S w' := by
  have hcount : ∀ object, w'.log.countP (Op.closes object) = w.log.countP (Op.closes object) := by
    intro object
    rw [hl, List.countP_append]
    simp [hc object]
  have hgiven : ∀ fd object, Given S w'.log fd object ↔ Given S w.log fd object := by
    intro fd object
    rw [hl]
    refine given_append_iff fun s x y hm => hn s x y ?_
    exact (List.mem_singleton.mp hm).symm
  constructor
  · intro fd object ho h
    rw [ht] at h
    exact (hgiven fd object).mpr (hi.given fd object ho h)
  · intro fd fd' object h h'
    exact hi.unique fd fd' object ((hgiven fd object).mp h) ((hgiven fd' object).mp h')
  · intro i h
    exact hi.reserved i ((hgiven _ _).mp h)
  · intro fd i h
    rw [ha]
    exact hi.known fd i ((hgiven _ _).mp h)
  · intro i hm
    rw [ha] at hm
    rw [hcount]
    exact hi.fresh i hm
  · intro fd object ho h
    rw [ht] at h
    rw [hcount]
    exact hi.opened fd object ho h
  · intro fd object hg h
    rw [ht] at h
    rw [hcount]
    exact hi.closed fd object ((hgiven fd object).mp hg) h

theorem Identities.accept (hi : Identities S w) {fd i : ℕ}
    (hs : w.table S.serverSock = some .listener) (hf : w.table fd = none) (hn : i ∉ w.accepted)
    (ht : w'.table = Function.update w.table fd (some (.conn i)))
    (ha : w'.accepted = i :: w.accepted)
    (hl : w'.log = w.log ++ [.accept S.serverSock (w.table S.serverSock) (some (fd, i))]) :
    Identities S w' := by
  have hcount : ∀ object, w'.log.countP (Op.closes object) = w.log.countP (Op.closes object) := by
    intro object
    rw [hl, List.countP_append]
    simp [Op.closes]
  have hgiven : ∀ fd' object, Given S w'.log fd' object →
      (fd' = fd ∧ object = .conn i) ∨ (object ≠ .conn i ∧ Given S w.log fd' object) := by
    intro fd' object hg
    rw [hl] at hg
    rcases given_accept hg with h | hg
    · exact .inl h
    · refine .inr ⟨?_, hg⟩
      rintro rfl
      exact hn (hi.known fd' i hg)
  have hself : w'.table fd = some (.conn i) := by rw [ht, Function.update_self]
  have hrest : ∀ fd', fd' ≠ fd → w'.table fd' = w.table fd' := by
    intro fd' hne
    rw [ht, Function.update_of_ne hne]
  constructor
  · intro fd' object ho h
    by_cases hne : fd' = fd
    · subst hne
      obtain rfl : Object.conn i = object := by rwa [hself, Option.some.injEq] at h
      rw [hl]
      exact ⟨_, _, List.mem_append_right _ (List.mem_singleton.mpr rfl)⟩
    · rw [hrest fd' hne] at h
      rw [hl]
      exact (hi.given fd' object ho h).append _
  · intro fd₁ fd₂ object h₁ h₂
    rcases hgiven fd₁ object h₁ with ⟨rfl, rfl⟩ | ⟨ho, h₁⟩
    · rcases hgiven fd₂ _ h₂ with ⟨rfl, -⟩ | ⟨ho, -⟩
      · rfl
      · exact absurd rfl ho
    · rcases hgiven fd₂ object h₂ with ⟨-, ho'⟩ | ⟨-, h₂⟩
      · exact absurd ho' ho
      · exact hi.unique fd₁ fd₂ object h₁ h₂
  · intro j h
    rcases hgiven _ _ h with ⟨he, -⟩ | ⟨-, h⟩
    · rw [← he, hs] at hf
      cases hf
    · exact hi.reserved j h
  · intro fd' j h
    rw [ha]
    rcases hgiven _ _ h with ⟨-, he⟩ | ⟨-, h⟩
    · cases he
      exact List.mem_cons_self
    · exact List.mem_cons_of_mem _ (hi.known fd' j h)
  · intro j hj
    rw [ha, List.mem_cons, not_or] at hj
    rw [hcount]
    exact hi.fresh j hj.2
  · intro fd' object ho h
    rw [hcount]
    by_cases hne : fd' = fd
    · subst hne
      obtain rfl : Object.conn i = object := by rwa [hself, Option.some.injEq] at h
      exact hi.fresh i hn
    · rw [hrest fd' hne] at h
      exact hi.opened fd' object ho h
  · intro fd' object hg h
    rw [hcount]
    rcases hgiven fd' object hg with ⟨rfl, rfl⟩ | ⟨-, hg⟩
    · exact absurd hself h
    · refine hi.closed fd' object hg fun h' => h ?_
      have hne : fd' ≠ fd := by
        rintro rfl
        rw [hf] at h'
        cases h'
      rw [hrest fd' hne]
      exact h'

theorem Identities.close (hi : Identities S w) {fd : ℕ} {reads : List Op}
    (hr : ∀ op ∈ reads, op.IsRead) (ht : w'.table = Function.update w.table fd none)
    (ha : w'.accepted = w.accepted)
    (hl : w'.log = w.log ++ (reads ++ [.close fd (w.table fd)])) : Identities S w' := by
  have hcount : ∀ object, w'.log.countP (Op.closes object) =
      w.log.countP (Op.closes object) + if w.table fd = some object then 1 else 0 := by
    intro object
    rw [hl, List.countP_append, List.countP_append, countP_reads hr]
    simp [Op.closes, List.countP_singleton]
  have hgiven : ∀ fd' object, Given S w'.log fd' object ↔ Given S w.log fd' object := by
    intro fd' object
    rw [hl]
    exact given_close hr
  constructor
  · intro fd' object ho h
    rw [ht] at h
    exact (hgiven fd' object).mpr (hi.given fd' object ho (update_held rfl ho h).2)
  · intro fd₁ fd₂ object h₁ h₂
    exact hi.unique fd₁ fd₂ object ((hgiven _ _).mp h₁) ((hgiven _ _).mp h₂)
  · intro i h
    exact hi.reserved i ((hgiven _ _).mp h)
  · intro fd' i h
    rw [ha]
    exact hi.known fd' i ((hgiven _ _).mp h)
  · intro i hm
    rw [ha] at hm
    rw [hcount, hi.fresh i hm, if_neg fun h => hm (hi.known fd i (hi.given fd _ rfl h))]
  · intro fd' object ho h
    rw [ht] at h
    obtain ⟨hne, h⟩ := update_held rfl ho h
    rw [hcount, hi.opened fd' object ho h, if_neg fun h' => hne (hi.single ho h h')]
  · intro fd' object hg h
    rw [hcount]
    replace hg := (hgiven fd' object).mp hg
    by_cases hf : w.table fd = some object
    · rw [hi.opened fd object hg.held hf, if_pos hf]
    · rw [if_neg hf]
      refine hi.closed fd' object hg fun h' => h ?_
      have hne : fd' ≠ fd := by
        rintro rfl
        exact hf h'
      rw [ht, Function.update_of_ne hne]
      exact h'

theorem Effect.identities (h : Effect S w w') (hi : Identities S w) : Identities S w' := by
  cases h with
  | quiet ht ha hl =>
    constructor
    · rw [ht, hl]
      exact hi.given
    · rw [hl]
      exact hi.unique
    · rw [hl]
      exact hi.reserved
    · rw [hl, ha]
      exact hi.known
    · rw [hl, ha]
      exact hi.fresh
    · rw [ht, hl]
      exact hi.opened
    · rw [ht, hl]
      exact hi.closed
  | host fd x hf hx ht ha hl => exact hi.host hf hx ht ha hl
  | call op hc hn ht ha hl => exact hi.call hc hn ht ha hl
  | accept fd i hs hf hn ht ha hl _ => exact hi.accept hs hf hn ht ha hl
  | close fd reads hr ht ha hl => exact hi.close hr ht ha hl

variable {host : ℕ → Bool}

theorem init_table (fd : ℕ) : (Ledger.init S host).table fd =
    if fd = S.serverSock then some .listener
    else if fd = S.childPipe then some .childPipe
    else if host fd then some .other
    else none := rfl

theorem identities_init : Identities S (Ledger.init S host) := by
  have hg : ∀ fd object, held (some object) = true → (Ledger.init S host).table fd = some object →
      Given S [] fd object := by
    intro fd object ho h
    rw [init_table] at h
    split_ifs at h with hs hp ht
    · cases h
      exact hs
    · cases h
      exact hp
    · cases h
      cases ho
  have hn : ∀ fd i, ¬ Given S [] fd (.conn i) := by
    rintro fd i ⟨s, x, hm⟩
    cases hm
  constructor
  · exact hg
  · intro fd fd' object h h'
    cases object with
    | listener | childPipe => exact h.trans h'.symm
    | conn i => exact absurd h (hn fd i)
    | other => exact h.elim
  · exact hn _
  · intro fd i h
    exact absurd h (hn fd i)
  · intro i _
    rfl
  · intro fd object _ _
    rfl
  · intro fd object h ht
    cases object with
    | listener =>
      obtain rfl : fd = S.serverSock := h
      exact absurd (by rw [init_table, if_pos rfl]) ht
    | childPipe =>
      obtain rfl : fd = S.childPipe := h
      exact absurd (by rw [init_table, if_neg S.serverSock_ne.symm, if_pos rfl]) ht
    | conn i => exact absurd h (hn fd i)
    | other => exact h.elim

/-- The runs of the server from the entry of `run_server`. -/
def LedgerRun (S : Setup) (host : ℕ → Bool) : Ledger → Prop :=
  Reach (Ledger.step S) (fun _ _ => True) (Ledger.init S host)

end Voyeur
