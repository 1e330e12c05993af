import Mathlib.Algebra.Order.Group.Multiset
import Mathlib.Data.Multiset.UnionInter

/-! # Heaps of blocks

A heap maps the addresses of the live blocks to their contents. Addresses are not used
again, so that a block which was freed stays dead. What a program owns is a collection
of blocks that the heap has beside an older one: allocation adds a block to it, `free`
takes one away, a write changes one, and the blocks of the older heap stay as they are.
-/

namespace Allocator

/-- The live blocks with their contents, all of them below the next address. -/
@[ext]
structure Heap (α : Type) where
  next : ℕ
  block : ℕ → Option α
  fresh : ∀ a, next ≤ a → block a = none

namespace Heap

variable {α : Type}

/-- Without any block. -/
def empty : Heap α := ⟨0, fun _ => none, fun _ _ => rfl⟩

instance : Inhabited (Heap α) := ⟨empty⟩

@[simp] theorem block_empty (a : ℕ) : (empty : Heap α).block a = none := rfl

theorem lt_next {h : Heap α} {a : ℕ} {x : α} (hb : h.block a = some x) : a < h.next := by
  by_contra hn
  rw [h.fresh a (Nat.not_lt.mp hn)] at hb
  cases hb

/-- A new block, at the next address. -/
def alloc (h : Heap α) (x : α) : Heap α where
  next := h.next + 1
  block := fun a => if a = h.next then some x else h.block a
  fresh := by
    intro a ha
    rw [if_neg (by omega)]
    exact h.fresh a (by omega)

/-- The heap without a block, which must be live. -/
def free (h : Heap α) (a : ℕ) : Option (Heap α) :=
  if (h.block a).isSome then
    some ⟨h.next, fun a' => if a' = a then none else h.block a', by
      intro a' ha
      split
      · rfl
      · exact h.fresh a' ha⟩
  else none

/-- New contents for a block, which must be live. -/
def write (h : Heap α) (a : ℕ) (x : α) : Option (Heap α) :=
  if hl : (h.block a).isSome then
    some ⟨h.next, fun a' => if a' = a then some x else h.block a', by
      intro a' ha
      obtain ⟨y, hy⟩ := Option.isSome_iff_exists.mp hl
      rw [if_neg (by have := lt_next hy; omega)]
      exact h.fresh a' ha⟩
  else none

/-- The live blocks of `h` are those of `h₀` and, in addition, the blocks `m`. -/
structure Adds (h₀ : Heap α) (m : Multiset (ℕ × α)) (h : Heap α) : Prop where
  le : h₀.next ≤ h.next
  new : ∀ b ∈ m, h₀.next ≤ b.1
  nodup : (m.map Prod.fst).Nodup
  block_iff : ∀ a x, h.block a = some x ↔ h₀.block a = some x ∨ (a, x) ∈ m

variable {h₀ h : Heap α} {m : Multiset (ℕ × α)} {a : ℕ} {x y : α}

theorem Adds.refl (h : Heap α) : Adds h 0 h where
  le := le_rfl
  new := by simp
  nodup := by simp
  block_iff := by simp

theorem Adds.block (ho : Adds h₀ m h) (hm : (a, x) ∈ m) : h.block a = some x :=
  (ho.block_iff a x).mpr (.inr hm)

theorem Adds.isSome (ho : Adds h₀ m h) (hm : (a, x) ∈ m) : (h.block a).isSome :=
  Option.isSome_iff_exists.mpr ⟨x, ho.block hm⟩

theorem Adds.old (ho : Adds h₀ m h) (hb : h₀.block a = some x) : h.block a = some x :=
  (ho.block_iff a x).mpr (.inl hb)

theorem Adds.only (ho : Adds h₀ ((a, x) ::ₘ m) h) :
    h₀.block a = none ∧ ∀ z, (a, z) ∉ m := by
  constructor
  · exact h₀.fresh a (ho.new (a, x) (Multiset.mem_cons_self _ _))
  · intro z hz
    have hn := ho.nodup
    rw [Multiset.map_cons, Multiset.nodup_cons] at hn
    exact hn.1 (Multiset.mem_map.mpr ⟨(a, z), hz, rfl⟩)

theorem Adds.trans {h₁ : Heap α} {m₁ m₂ : Multiset (ℕ × α)} (ho : Adds h₀ m₁ h₁)
    (ho' : Adds h₁ m₂ h) : Adds h₀ (m₂ + m₁) h where
  le := ho.le.trans ho'.le
  new := by
    intro b hb
    rcases Multiset.mem_add.mp hb with hb | hb
    · exact ho.le.trans (ho'.new b hb)
    · exact ho.new b hb
  nodup := by
    rw [Multiset.map_add, Multiset.nodup_add]
    refine ⟨ho'.nodup, ho.nodup, Multiset.disjoint_left.mpr ?_⟩
    intro a h₂ h₁
    obtain ⟨b, hb, rfl⟩ := Multiset.mem_map.mp h₂
    obtain ⟨b', hb', he⟩ := Multiset.mem_map.mp h₁
    have hlt := lt_next (ho.block (a := b'.1) (x := b'.2) hb')
    have hle := ho'.new b hb
    omega
  block_iff := by
    intro a x
    rw [ho'.block_iff, ho.block_iff, Multiset.mem_add, or_assoc, or_comm (a := (a, x) ∈ m₁)]

theorem Adds.alloc (ho : Adds h₀ m h) (x : α) : Adds h₀ ((h.next, x) ::ₘ m) (h.alloc x) where
  le := ho.le.trans (Nat.le_succ _)
  new := by
    rw [Multiset.forall_mem_cons]
    exact ⟨ho.le, ho.new⟩
  nodup := by
    rw [Multiset.map_cons, Multiset.nodup_cons]
    refine ⟨fun hm => ?_, ho.nodup⟩
    obtain ⟨b, hb, he⟩ := Multiset.mem_map.mp hm
    have hlt := lt_next (ho.block (a := b.1) (x := b.2) hb)
    omega
  block_iff := by
    intro a z
    rw [Multiset.mem_cons, Prod.mk.injEq]
    by_cases ha : a = h.next
    · subst ha
      have hn : ¬ (h₀.block h.next = some z ∨ (h.next, z) ∈ m) := by
        rw [← ho.block_iff, h.fresh _ le_rfl]
        exact nofun
      rw [not_or] at hn
      simp only [Heap.alloc, if_true, Option.some.injEq, true_and, hn, or_false, false_or]
      exact eq_comm
    · simp only [Heap.alloc, ha, if_false, ho.block_iff, false_and, false_or]

theorem Adds.free (ho : Adds h₀ ((a, x) ::ₘ m) h) : ∃ h', h.free a = some h' ∧ Adds h₀ m h' := by
  refine ⟨_, if_pos (ho.isSome (Multiset.mem_cons_self _ _)), ?_⟩
  obtain ⟨hold, hm⟩ := ho.only
  constructor
  case le => exact ho.le
  case new => exact fun b hb => ho.new b (Multiset.mem_cons_of_mem hb)
  case nodup =>
    have hn := ho.nodup
    rw [Multiset.map_cons, Multiset.nodup_cons] at hn
    exact hn.2
  case block_iff =>
    intro a' z
    by_cases ha : a' = a
    · subst ha
      simp [hold, hm z]
    · simp [ha, ho.block_iff, Multiset.mem_cons]

theorem Adds.write (ho : Adds h₀ ((a, x) ::ₘ m) h) (y : α) :
    ∃ h', h.write a y = some h' ∧ Adds h₀ ((a, y) ::ₘ m) h' := by
  refine ⟨_, dif_pos (ho.isSome (Multiset.mem_cons_self _ _)), ?_⟩
  obtain ⟨hold, hm⟩ := ho.only
  constructor
  case le => exact ho.le
  case new =>
    rw [Multiset.forall_mem_cons]
    exact ⟨ho.new (a, x) (Multiset.mem_cons_self _ _),
      fun b hb => ho.new b (Multiset.mem_cons_of_mem hb)⟩
  case nodup => simpa only [Multiset.map_cons] using ho.nodup
  case block_iff =>
    intro a' z
    by_cases ha : a' = a
    · subst ha
      simp [hold, hm z, eq_comm]
    · simp [ha, ho.block_iff, Multiset.mem_cons]

end Heap

end Allocator
