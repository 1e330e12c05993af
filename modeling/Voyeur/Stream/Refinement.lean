import Voyeur.Stream.Reader

/-! # Refinement of readers

A reader refines another one if it reads the same blocks, announces the same events and
faults where the other one does; only what they return may differ, as far as a relation
allows. Refinement goes through sequences of readers and through their runs. A reader
that keeps a state may refine one that knows nothing of it.
-/

namespace StreamReader

variable {α ε β β' γ γ' σ : Type}

/-- `p` does what `q` does, and returns a value that is related to the value of `q`. -/
inductive Refines (R : β → γ → Prop) : StreamReader α ε β → StreamReader α ε γ → Prop
  | done {b : β} {c : γ} : R b c → Refines R (.done b) (.done c)
  | fault : Refines R .fault .fault
  | read {n : ℕ} {k : Option (List α) → StreamReader α ε β}
      {k' : Option (List α) → StreamReader α ε γ} :
      (∀ r, (∀ w, r = some w → w.length = n) → Refines R (k r) (k' r)) →
      Refines R (.read n k) (.read n k')
  | emit {e : ε} {q : StreamReader α ε β} {p : StreamReader α ε γ} :
      Refines R q p → Refines R (.emit e q) (.emit e p)

namespace Refines

variable {R : β → γ → Prop} {R' : β' → γ' → Prop} {q : StreamReader α ε β}
  {p : StreamReader α ε γ}

theorem pure {b : β} {c : γ} (h : R b c) :
    Refines R (Pure.pure b : StreamReader α ε β) (Pure.pure c) := .done h

theorem mono {S : β → γ → Prop} (h : Refines R q p) (hs : ∀ b c, R b c → S b c) :
    Refines S q p := by
  induction h with
  | done h => exact .done (hs _ _ h)
  | fault => exact .fault
  | read _ ih => exact .read ih
  | emit _ ih => exact .emit ih

theorem bind {f : β → StreamReader α ε β'} {f' : γ → StreamReader α ε γ'} (h : Refines R q p)
    (hf : ∀ b c, R b c → Refines R' (f b) (f' c)) : Refines R' (q >>= f) (p >>= f') := by
  induction h with
  | done h => exact hf _ _ h
  | fault => exact .fault
  | read _ ih => exact .read ih
  | emit _ ih => exact .emit ih

theorem bind_pure {f : β → StreamReader α ε γ} {g : β → γ} (q : StreamReader α ε β)
    (hf : ∀ b, f b = Pure.pure (g b)) : Refines (fun b c => c = g b) q (q >>= f) := by
  induction q with
  | done b =>
    change Refines _ (.done b) (f b)
    rw [hf b]
    exact .done rfl
  | fault => exact .fault
  | read n k ih => exact .read fun r _ => ih r
  | emit e q ih => exact .emit ih

theorem map_left {g : β → β'} {S : β' → γ → Prop} (h : Refines (fun b c => S (g b) c) q p) :
    Refines S (q >>= fun b => Pure.pure (g b)) p := by
  induction h with
  | done h => exact .done h
  | fault => exact .fault
  | read _ ih => exact .read ih
  | emit _ ih => exact .emit ih

theorem refl (q : StreamReader α ε β) : Refines Eq q q := by
  induction q with
  | done b => exact .done rfl
  | fault => exact .fault
  | read n k ih => exact .read fun r _ => ih r
  | emit e q ih => exact .emit ih

/-- Both runs announce the same events, and end with related values in front of one rest. -/
theorem run (h : Refines R q p) (s : List α) :
    (p.run s).1 = (q.run s).1 ∧
      Option.Rel (fun x y => R x.1 y.1 ∧ x.2 = y.2) (q.run s).2 (p.run s).2 := by
  induction h generalizing s with
  | done h => exact ⟨rfl, .some ⟨h, rfl⟩⟩
  | fault => exact ⟨rfl, .none⟩
  | @read n k k' _ ih =>
    rcases Nat.lt_or_ge s.length n with hn | hn
    · rw [run_read_of_lt hn, run_read_of_lt hn]
      exact ih none (fun w hw => by cases hw) []
    · rw [run_read_of_le hn, run_read_of_le hn]
      refine ih (some (s.take n)) (fun w hw => ?_) _
      cases hw
      exact List.length_take_of_le hn
  | emit _ ih => exact ⟨congrArg _ (ih s).1, (ih s).2⟩

theorem run_value (h : Refines R q p) {s t : List α} {es : List ε} {b : β}
    (hq : q.run s = (es, some (b, t))) : ∃ c, R b c ∧ p.run s = (es, some (c, t)) := by
  obtain ⟨he, hr⟩ := h.run s
  rw [hq] at he hr
  rcases hp : (p.run s).2 with _ | ⟨c, t'⟩
  · rw [hp] at hr
    cases hr
  · rw [hp] at hr
    cases hr with
    | some hr =>
      obtain ⟨hr, rfl⟩ := hr
      exact ⟨c, hr, Prod.ext he hp⟩

theorem run_fault (h : Refines R q p) {s : List α} {es : List ε} (hq : q.run s = (es, none)) :
    p.run s = (es, none) := by
  obtain ⟨he, hr⟩ := h.run s
  rw [hq] at he hr
  rcases hp : (p.run s).2 with _ | x
  · exact Prod.ext he hp
  · rw [hp] at hr
    cases hr

end Refines

/--
Run the reader at most `n` times, as long as `keep` accepts its values, each time from the
state that the last run left. Where a run faults the state is the one in front of it.
-/
def serveFrom (p : σ → StreamReader α ε (β × σ)) (keep : β → Bool) :
    ℕ → σ → List α → List ε × Status α β × σ
  | 0, st, s => ([], .more s, st)
  | n + 1, st, s =>
      match (p st).run s with
      | (es, none) => (es, .undefined, st)
      | (es, some ((b, st'), t)) =>
          if keep b then (es ++ (serveFrom p keep n st' t).1, (serveFrom p keep n st' t).2)
          else (es, .closed b, st')

section

variable {τ : Type} {p : σ → StreamReader α ε (β × σ)} {keep : β → Bool} {st st' : σ}
  {s t : List α} {es : List ε} {b : β}

theorem serveFrom_keep (h : (p st).run s = (es, some ((b, st'), t))) (hb : keep b = true) (n : ℕ) :
    serveFrom p keep (n + 1) st s =
      (es ++ (serveFrom p keep n st' t).1, (serveFrom p keep n st' t).2) := by
  simp [serveFrom, h, hb]

theorem serveFrom_close (h : (p st).run s = (es, some ((b, st'), t))) (hb : keep b = false)
    (n : ℕ) : serveFrom p keep (n + 1) st s = (es, .closed b, st') := by
  simp [serveFrom, h, hb]

theorem serveFrom_fault (h : (p st).run s = (es, none)) (n : ℕ) :
    serveFrom p keep (n + 1) st s = (es, .undefined, st) := by
  simp [serveFrom, h]

/-- Readers that refine each other from related states are served alike, and stay related. -/
theorem serveFrom_refines {q : τ → StreamReader α ε (β × τ)} {I : τ → σ → Prop}
    (h : ∀ a c, I a c → Refines (fun x y => x.1 = y.1 ∧ I x.2 y.2) (q a) (p c)) (n : ℕ) {a : τ}
    (hi : I a st) (s : List α) :
    (serveFrom p keep n st s).1 = (serveFrom q keep n a s).1 ∧
      (serveFrom p keep n st s).2.1 = (serveFrom q keep n a s).2.1 ∧
      I (serveFrom q keep n a s).2.2 (serveFrom p keep n st s).2.2 := by
  induction n generalizing a st s with
  | zero => exact ⟨rfl, rfl, hi⟩
  | succ n ih =>
    rcases hq : (q a).run s with ⟨es, _ | ⟨⟨b, a'⟩, t⟩⟩
    · rw [serveFrom_fault hq, serveFrom_fault ((h a st hi).run_fault hq)]
      exact ⟨rfl, rfl, hi⟩
    · obtain ⟨⟨b', st'⟩, ⟨hb, hi'⟩, hp⟩ := (h a st hi).run_value hq
      obtain rfl : b = b' := hb
      cases hk : keep b with
      | true =>
        rw [serveFrom_keep hq hk, serveFrom_keep hp hk]
        obtain ⟨he, hs, hl⟩ := ih hi' t
        exact ⟨congrArg (es ++ ·) he, hs, hl⟩
      | false =>
        rw [serveFrom_close hq hk, serveFrom_close hp hk]
        exact ⟨rfl, rfl, hi'⟩

theorem serveFrom_serve {q : StreamReader α ε β} (h : ∀ st, Refines (fun b y => b = y.1) q (p st))
    (n : ℕ) (st : σ) (s : List α) :
    (serveFrom p keep n st s).1 = (q.serve keep n s).1 ∧
      (serveFrom p keep n st s).2.1 = (q.serve keep n s).2 := by
  induction n generalizing st s with
  | zero => exact ⟨rfl, rfl⟩
  | succ n ih =>
    rcases hq : q.run s with ⟨es, _ | ⟨b, t⟩⟩
    · rw [serve_fault hq, serveFrom_fault ((h st).run_fault hq)]
      exact ⟨rfl, rfl⟩
    · obtain ⟨⟨b', st'⟩, hb, hp⟩ := (h st).run_value hq
      obtain rfl : b = b' := hb
      cases hk : keep b with
      | true =>
        rw [serve_keep hq hk, serveFrom_keep hp hk]
        exact ⟨congrArg (es ++ ·) (ih st' t).1, (ih st' t).2⟩
      | false =>
        rw [serve_close hq hk, serveFrom_close hp hk]
        exact ⟨rfl, rfl⟩

end

end StreamReader
