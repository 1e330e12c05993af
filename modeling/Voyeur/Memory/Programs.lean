import Voyeur.Memory.Heap
import Voyeur.Program.From

/-! # Programs on heaps

A program allocates, reads, writes and frees blocks. It stops at a block that is not live,
or not of the kind that it expects. A triple is about the blocks that a program is given:
the program does not stop, it says which blocks it leaves, and whatever else there is on
the heap stays as it is.
-/

namespace Allocator

open Heap (Adds)
open Program (From)

/-- A program, which stops where it would touch a dead block. -/
abbrev Prog (α β : Type) := EStateM Unit (Heap α) β

variable {α β γ : Type}

namespace Prog

def stop : Prog α β := fun h => .error () h

/-- A new block. -/
def alloc (x : α) : Prog α ℕ := fun h => .ok h.next (h.alloc x)

/-- What is read from a live block of the expected kind. -/
def load (f : α → Option β) (a : ℕ) : Prog α β := fun h =>
  match (h.block a).bind f with
  | some b => .ok b h
  | none => stop h

def update (f : Heap α → Option (Heap α)) : Prog α Unit := fun h =>
  match f h with
  | some h' => .ok () h'
  | none => stop h

def write (a : ℕ) (x : α) : Prog α Unit := update (·.write a x)

def free (a : ℕ) : Prog α Unit := update (·.free a)

end Prog

/-- Given the blocks `m`, the program leaves blocks in their place with `Q`. -/
def Triple (m : Multiset (ℕ × α)) (p : Prog α β) (Q : β → Multiset (ℕ × α) → Prop) : Prop :=
  ∀ h₀ h r, Adds h₀ (m + r) h →
    From (fun _ _ => False) h p fun b h' => ∃ m', Q b m' ∧ Adds h₀ (m' + r) h'

namespace Triple

variable {m m₀ r : Multiset (ℕ × α)} {p : Prog α β} {f : β → Prog α γ} {a : ℕ} {b : β} {x y : α}
  {Q Q' : β → Multiset (ℕ × α) → Prop} {R : γ → Multiset (ℕ × α) → Prop}

/-- A program that is given blocks of its own returns. -/
theorem run (h : Triple m p Q) {h₀ h₁ : Heap α} (ha : Adds h₀ (m + r) h₁) :
    ∃ b h₂ m', p h₁ = .ok b h₂ ∧ Q b m' ∧ Adds h₀ (m' + r) h₂ := by
  obtain ⟨b, h₂, hp, m', hq, ha'⟩ := (h h₀ h₁ r ha).returns
  exact ⟨b, h₂, m', hp, hq, ha'⟩

theorem congr (m₀ : Multiset (ℕ × α)) (hm : m = m₀) (h : Triple m₀ p Q) : Triple m p Q := hm ▸ h

theorem conseq (h : Triple m p Q) (hq : ∀ b m', Q b m' → Q' b m') : Triple m p Q' := by
  intro h₀ h₁ r ha
  apply (h h₀ h₁ r ha).conseq
  rintro b h₂ ⟨m', hb, ha'⟩
  exact ⟨m', hq b m' hb, ha'⟩

theorem pure (h : Q b m) : Triple m (pure b) Q := fun _ _ _ ha => From.pure ⟨m, h, ha⟩

theorem seq (h : Triple m p fun b m' => Triple m' (f b) R) : Triple m (p >>= f) R := by
  intro h₀ h₁ r ha
  apply (h h₀ h₁ r ha).bind
  rintro b h₂ ⟨m', hf, ha'⟩
  exact hf h₀ h₂ r ha'

/-- A program does not touch the blocks that it is not given. -/
theorem frame (h : Triple m p Q) (r : Multiset (ℕ × α)) :
    Triple (m + r) p fun b m' => ∃ m₁, Q b m₁ ∧ m' = m₁ + r := by
  intro h₀ h₁ r' ha
  rw [add_assoc] at ha
  apply (h h₀ h₁ (r + r') ha).conseq
  rintro b h₂ ⟨m', hq, ha'⟩
  refine ⟨m' + r, ⟨m', hq, rfl⟩, ?_⟩
  rwa [add_assoc]

theorem call (h : Triple m p Q) (hm : m₀ = m + r)
    (hf : ∀ b m', Q b m' → Triple (m' + r) (f b) R) : Triple m₀ (p >>= f) R := by
  refine .seq (.congr _ hm ((h.frame r).conseq ?_))
  rintro b _ ⟨m', hq, rfl⟩
  exact hf b m' hq

theorem alloc {Q : ℕ → Multiset (ℕ × α) → Prop} (h : ∀ a, Q a ({(a, x)} + m)) :
    Triple m (Prog.alloc x) Q := by
  intro h₀ h₁ r ha
  refine From.of_ok rfl ⟨_, h _, ?_⟩
  rw [add_assoc]
  exact ha.alloc x

theorem load {g : α → Option β} (hm : (a, x) ∈ m) (hg : g x = some b) (h : Q b m) :
    Triple m (Prog.load g a) Q := by
  intro h₀ h₁ r ha
  refine From.of_ok ?_ ⟨m, h, ha⟩
  rw [Prog.load, ha.block (Multiset.mem_add.mpr (.inl hm)), Option.bind_some, hg]

theorem write {Q : Unit → Multiset (ℕ × α) → Prop} (h : Q () ({(a, y)} + m)) :
    Triple ({(a, x)} + m) (Prog.write a y) Q := by
  intro h₀ h₁ r ha
  rw [add_assoc] at ha
  obtain ⟨h₂, hw, ha'⟩ := Adds.write ha y
  refine From.of_ok (t := h₂) ?_ ⟨_, h, ?_⟩
  · rw [Prog.write, Prog.update, hw]
  · rw [add_assoc]
    exact ha'

theorem free {Q : Unit → Multiset (ℕ × α) → Prop} (h : Q () m) :
    Triple ({(a, x)} + m) (Prog.free a) Q := by
  intro h₀ h₁ r ha
  rw [add_assoc] at ha
  obtain ⟨h₂, hf, ha'⟩ := Adds.free ha
  refine From.of_ok (t := h₂) ?_ ⟨m, h, ha'⟩
  rw [Prog.free, Prog.update, hf]

end Triple

end Allocator
