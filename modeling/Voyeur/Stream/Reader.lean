import Mathlib.Data.List.Basic
import Mathlib.Data.List.Infix

/-! # Programs that read a stream in blocks

A reader asks for blocks of a stream, one after the other, and announces events
on the way. It runs either on a whole stream that ends somewhere, or on chunks
as they arrive. Both runs agree, whatever the chunks are.
-/

/--
A program over a stream of `α` that announces events `ε` and returns a `β`. A block
that the stream cannot fill is answered by `none`; a `fault` has no defined continuation.
-/
inductive StreamReader (α ε β : Type) where
  | done (b : β)
  | fault
  | read (n : ℕ) (k : Option (List α) → StreamReader α ε β)
  | emit (e : ε) (k : StreamReader α ε β)

namespace StreamReader

variable {α ε β γ : Type}

def bind : StreamReader α ε β → (β → StreamReader α ε γ) → StreamReader α ε γ
  | .done b, f => f b
  | .fault, _ => .fault
  | .read n k, f => .read n fun r => (k r).bind f
  | .emit e k, f => .emit e (k.bind f)

instance : Monad (StreamReader α ε) where
  pure := .done
  bind := bind

/--
Run a program on a stream that ends after its last element. The result is the list of
announced events, and the value with the unread part unless the program faults.
-/
def run : StreamReader α ε β → List α → List ε × Option (β × List α)
  | .done b, s => ([], some (b, s))
  | .fault, _ => ([], none)
  | .read n k, s =>
      if n ≤ s.length then (k (some (s.take n))).run (s.drop n) else (k none).run []
  | .emit e k, s => (e :: (k.run s).1, (k.run s).2)

@[simp] theorem run_pure (b : β) (s : List α) :
    (pure b : StreamReader α ε β).run s = ([], some (b, s)) := rfl

@[simp] theorem run_done (b : β) (s : List α) :
    (done b : StreamReader α ε β).run s = ([], some (b, s)) := rfl

@[simp] theorem run_fault (s : List α) :
    (fault : StreamReader α ε β).run s = ([], none) := rfl

@[simp] theorem run_emit (e : ε) (p : StreamReader α ε β) (s : List α) :
    (emit e p).run s = (e :: (p.run s).1, (p.run s).2) := rfl

theorem run_read_of_le {n : ℕ} {k : Option (List α) → StreamReader α ε β} {s : List α}
    (h : n ≤ s.length) : (read n k).run s = (k (some (s.take n))).run (s.drop n) := by
  simp [run, h]

theorem run_read_of_lt {n : ℕ} {k : Option (List α) → StreamReader α ε β} {s : List α}
    (h : s.length < n) : (read n k).run s = (k none).run [] := by
  simp [run, Nat.not_le.mpr h]

theorem run_read_append {n : ℕ} {k : Option (List α) → StreamReader α ε β} {w : List α}
    (h : w.length = n) (s : List α) : (read n k).run (w ++ s) = (k (some w)).run s := by
  rw [run_read_of_le (by simp [← h]), List.take_left' h, List.drop_left' h]

theorem run_bind (p : StreamReader α ε β) (f : β → StreamReader α ε γ) (s : List α) :
    (p >>= f).run s =
      match p.run s with
      | (es, none) => (es, none)
      | (es, some (b, t)) => (es ++ ((f b).run t).1, ((f b).run t).2) := by
  induction p generalizing s with
  | done b => simp [Bind.bind, bind]
  | fault => simp [Bind.bind, bind]
  | read n k ih =>
    rcases Nat.lt_or_ge s.length n with h | h
    · rw [run_read_of_lt h, ← ih]
      exact run_read_of_lt h
    · rw [run_read_of_le h, ← ih]
      exact run_read_of_le h
  | emit e p ih =>
    have hb : ((emit e p) >>= f).run s = (e :: ((p >>= f).run s).1, ((p >>= f).run s).2) := rfl
    rw [hb, ih, run_emit]
    rcases p.run s with ⟨es, _ | ⟨b, t⟩⟩ <;> rfl

theorem run_bind_of_value {p : StreamReader α ε β} {f : β → StreamReader α ε γ} {s t : List α}
    {es : List ε} {b : β} (h : p.run s = (es, some (b, t))) :
    (p >>= f).run s = (es ++ ((f b).run t).1, ((f b).run t).2) := by
  rw [run_bind, h]

theorem run_bind_of_fault {p : StreamReader α ε β} {f : β → StreamReader α ε γ} {s : List α}
    {es : List ε} (h : p.run s = (es, none)) : (p >>= f).run s = (es, none) := by
  rw [run_bind, h]

theorem bind_assoc {δ : Type} (p : StreamReader α ε β) (f : β → StreamReader α ε γ)
    (g : γ → StreamReader α ε δ) : (p >>= f) >>= g = p >>= fun b => f b >>= g := by
  induction p with
  | done b => rfl
  | fault => rfl
  | read n k ih => exact congrArg (read n) (funext ih)
  | emit e p ih => exact congrArg (emit e) ih

/-- What a program leaves unread is an end of its stream. -/
theorem run_suffix {p : StreamReader α ε β} {s t : List α} {es : List ε} {b : β}
    (h : p.run s = (es, some (b, t))) : t <:+ s := by
  induction p generalizing s es with
  | done b' =>
    simp only [run_done, Prod.mk.injEq, Option.some.injEq] at h
    rw [h.2.2]
  | fault => simp at h
  | read n k ih =>
    rcases Nat.lt_or_ge s.length n with hl | hl
    · rw [run_read_of_lt hl] at h
      rw [List.suffix_nil.mp (ih _ h)]
      exact List.nil_suffix
    · rw [run_read_of_le hl] at h
      exact (ih _ h).trans (List.drop_suffix n s)
  | emit e p ih =>
    rw [run_emit, Prod.mk.injEq] at h
    have hp : p.run s = ((p.run s).1, some (b, t)) := Prod.ext rfl h.2
    exact ih hp

theorem run_append {p : StreamReader α ε β} {s t : List α} {es : List ε} {b : β}
    (h : p.run s = (es, some (b, t))) (ht : t ≠ []) (s' : List α) :
    p.run (s ++ s') = (es, some (b, t ++ s')) := by
  induction p generalizing s es with
  | done b' =>
    simp only [run_done, Prod.mk.injEq, Option.some.injEq] at h ⊢
    obtain ⟨rfl, rfl, rfl⟩ := h
    exact ⟨rfl, rfl, rfl⟩
  | fault => simp at h
  | read n k ih =>
    rcases Nat.lt_or_ge s.length n with hl | hl
    · rw [run_read_of_lt hl] at h
      exact absurd (List.suffix_nil.mp (run_suffix h)) ht
    · rw [run_read_of_le hl] at h
      rw [run_read_of_le (by rw [List.length_append]; omega), List.take_append_of_le_length hl,
        List.drop_append_of_le_length hl]
      exact ih _ h
  | emit e p ih =>
    rw [run_emit, Prod.mk.injEq] at h
    have hp : p.run s = ((p.run s).1, some (b, t)) := Prod.ext rfl h.2
    rw [run_emit, ih hp, ← h.1]

/-- In front of any stream the program reads exactly `w`, announces `es` and returns `b`. -/
def Accepts (p : StreamReader α ε β) (w : List α) (es : List ε) (b : β) : Prop :=
  ∀ s, p.run (w ++ s) = (es, some (b, s))

theorem Accepts.pure (b : β) : Accepts (pure b : StreamReader α ε β) [] [] b := fun _ => rfl

/-- The size of the block the program waits for. -/
def wants : StreamReader α ε β → ℕ
  | .read n _ => n
  | _ => 0

/-- Go on with a block that has arrived, or keep what has arrived of it. -/
def feed : StreamReader α ε β → List α → StreamReader α ε β × List α
  | .read n k, acc => if n ≤ acc.length then (k (some acc), []) else (.read n k, acc)
  | p, acc => (p, acc)

/-- Going on with what has arrived of the block does not change the outcome. -/
theorem run_feed {p : StreamReader α ε β} {acc : List α} (h : acc.length ≤ p.wants) (s : List α) :
    (p.feed acc).1.run ((p.feed acc).2 ++ s) = p.run (acc ++ s) := by
  cases p with
  | read n k =>
    by_cases hn : n ≤ acc.length
    · have he : acc.length = n := Nat.le_antisymm h hn
      simp only [feed, if_pos hn, List.nil_append]
      exact (run_read_append he s).symm
    · simp only [feed, if_neg hn]
  | done b => rfl
  | fault => rfl
  | emit e p => rfl

theorem feed_acc {p : StreamReader α ε β} {acc : List α} (h : acc.length ≤ p.wants) :
    (p.feed acc).2 = [] ∨ (p.feed acc).2.length < (p.feed acc).1.wants := by
  cases p with
  | read n k =>
    by_cases hn : n ≤ acc.length
    · simp only [feed, if_pos hn, true_or]
    · simp only [feed, if_neg hn, wants]
      omega
  | done b | fault | emit e p => exact .inl (List.length_eq_zero_iff.mp (Nat.le_zero.mp h))

/-- How a program that is run again and again stands. -/
inductive Status (α β : Type) where
  | more (rest : List α)
  | closed (b : β)
  | undefined
  deriving DecidableEq

/-- Run the program at most `n` times, as long as `keep` accepts its values. -/
def serve (p : StreamReader α ε β) (keep : β → Bool) : ℕ → List α → List ε × Status α β
  | 0, s => ([], .more s)
  | n + 1, s =>
      match p.run s with
      | (es, none) => (es, .undefined)
      | (es, some (b, t)) =>
          if keep b then (es ++ (serve p keep n t).1, (serve p keep n t).2) else (es, .closed b)

variable {p : StreamReader α ε β} {keep : β → Bool}

@[simp] theorem serve_zero (s : List α) : p.serve keep 0 s = ([], .more s) := rfl

theorem serve_keep {s t : List α} {es : List ε} {b : β} (h : p.run s = (es, some (b, t)))
    (hb : keep b = true) (n : ℕ) :
    p.serve keep (n + 1) s = (es ++ (p.serve keep n t).1, (p.serve keep n t).2) := by
  simp [serve, h, hb]

theorem serve_close {s t : List α} {es : List ε} {b : β} (h : p.run s = (es, some (b, t)))
    (hb : keep b = false) (n : ℕ) : p.serve keep (n + 1) s = (es, .closed b) := by
  simp [serve, h, hb]

theorem serve_fault {s : List α} {es : List ε} (h : p.run s = (es, none)) (n : ℕ) :
    p.serve keep (n + 1) s = (es, .undefined) := by
  simp [serve, h]

theorem serve_add {n : ℕ} {s t : List α} {es : List ε} (h : p.serve keep n s = (es, .more t))
    (m : ℕ) : p.serve keep (n + m) s = (es ++ (p.serve keep m t).1, (p.serve keep m t).2) := by
  induction n generalizing s es with
  | zero =>
    simp only [serve_zero, Prod.mk.injEq, Status.more.injEq] at h
    obtain ⟨rfl, rfl⟩ := h
    simp
  | succ n ih =>
    rw [show n + 1 + m = n + m + 1 by omega]
    rcases hr : p.run s with ⟨es', _ | ⟨b, t'⟩⟩
    · simp [serve_fault hr] at h
    · cases hb : keep b with
      | false => simp [serve_close hr hb] at h
      | true =>
        rw [serve_keep hr hb, Prod.mk.injEq] at h
        have ht : p.serve keep n t' = ((p.serve keep n t').1, .more t) := Prod.ext rfl h.2
        rw [serve_keep hr hb, ih ht, ← h.1, List.append_assoc]

section

variable {ε' : Type}

/-- Every event that the program announces on a stream has a property. -/
def Announces (p : StreamReader α ε β) (s : List α) (P : ε → Prop) : Prop := ∀ e ∈ (p.run s).1, P e

theorem announces_bind_iff {f : β → StreamReader α ε γ} {s : List α} {P : ε → Prop} :
    (p >>= f).Announces s P ↔
      p.Announces s P ∧ ∀ b t, (p.run s).2 = some (b, t) → (f b).Announces t P := by
  unfold Announces
  rw [run_bind]
  rcases p.run s with ⟨es, _ | ⟨b, t⟩⟩
  · refine ⟨fun h => ⟨h, fun b t hr => by cases hr⟩, fun h => h.1⟩
  · constructor
    · intro h
      refine ⟨fun e he => h e (List.mem_append_left _ he), fun b' t' hr e he => ?_⟩
      cases hr
      exact h e (List.mem_append_right _ he)
    · rintro ⟨h, h'⟩ e he
      rcases List.mem_append.mp he with he | he
      · exact h e he
      · exact h' b t rfl e he

theorem announces_emit_iff {e : ε} {s : List α} {P : ε → Prop} :
    (emit e p).Announces s P ↔ P e ∧ p.Announces s P := List.forall_mem_cons

/-- The same program with other events. -/
def mapEmit (f : ε → ε') : StreamReader α ε β → StreamReader α ε' β
  | .done b => .done b
  | .fault => .fault
  | .read n k => .read n fun r => (k r).mapEmit f
  | .emit e k => .emit (f e) (k.mapEmit f)

theorem run_mapEmit (f : ε → ε') (p : StreamReader α ε β) (s : List α) :
    (p.mapEmit f).run s = ((p.run s).1.map f, (p.run s).2) := by
  induction p generalizing s with
  | done b => rfl
  | fault => rfl
  | read n k ih =>
    rcases Nat.lt_or_ge s.length n with h | h
    · rw [run_read_of_lt h, mapEmit, run_read_of_lt h]
      exact ih none []
    · rw [run_read_of_le h, mapEmit, run_read_of_le h]
      exact ih _ _
  | emit e p ih => rw [mapEmit, run_emit, run_emit, ih, List.map_cons]

/-- The program `q` is `p` without the events that `g` leaves out. -/
def Observes (g : ε' → Option ε) (p : StreamReader α ε' β) (q : StreamReader α ε β) : Prop :=
  ∀ s, q.run s = ((p.run s).1.filterMap g, (p.run s).2)

variable {g : ε' → Option ε} {p' : StreamReader α ε' β} {q : StreamReader α ε β}

theorem Observes.pure (b : β) : Observes g (pure b : StreamReader α ε' β) (pure b) := fun _ => rfl

theorem Observes.fault : Observes g (fault : StreamReader α ε' β) fault := fun _ => rfl

theorem Observes.emit {e : ε'} (he : g e = none) (h : Observes g p' q) :
    Observes g (emit e p') q := by
  intro s
  rw [run_emit, List.filterMap_cons_none he]
  exact h s

theorem Observes.mapEmit {f : ε → ε'} (hf : ∀ e, g (f e) = some e) (q : StreamReader α ε β) :
    Observes g (q.mapEmit f) q := by
  intro s
  rw [run_mapEmit, List.filterMap_map]
  have hg : g ∘ f = some := funext hf
  rw [hg, List.filterMap_some]

theorem Observes.bind {f' : β → StreamReader α ε' γ} {f : β → StreamReader α ε γ}
    (h : Observes g p' q) (hf : ∀ b, Observes g (f' b) (f b)) :
    Observes g (p' >>= f') (q >>= f) := by
  intro s
  rw [run_bind, run_bind, h s]
  rcases p'.run s with ⟨es, _ | ⟨b, t⟩⟩
  · rfl
  · simp only [hf b t, List.filterMap_append]

end

end StreamReader
