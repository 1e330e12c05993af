import Voyeur.Allocation.Handlers
import Voyeur.Allocation.Kept
import Voyeur.Wire.Fields

/-! # Strings and arrays on the heap

What the readers of fields do with a heap: either the field is there, in blocks of its
own, or the blocks that were read in front of the failure are left. Nothing else changes.
-/

namespace Voyeur.OnHeap

open Allocator (Heap)
open Allocator.Heap (Adds)
open StreamReader (Refines)

section

variable {β γ : Type} {h h' : State}

theorem lift_bind (p : Rd β) (f : β → Hd γ) (h : State) :
    (lift p >>= f) h = p >>= fun b => f b h := StreamReader.bind_assoc _ _ _

theorem bind_of_pure {p : Hd β} {f : β → Hd γ} {b : β} (hp : p h = pure (b, h')) :
    (p >>= f) h = f b h' := by
  change p h >>= (fun x => f x.1 x.2) = _
  rw [hp]
  rfl

theorem load_of_some {f : State → Option β} {b : β} (hb : f h = some b) :
    load f h = pure (b, h) := by
  rw [load, hb]

theorem update_of_some {f : State → Option State} (hf : f h = some h') :
    update f h = pure ((), h') := by
  rw [update, hf]

theorem bind_of_fault {p : Hd β} {f : β → Hd γ} (hp : p h = .fault) : (p >>= f) h = .fault := by
  change p h >>= (fun x => f x.1 x.2) = _
  rw [hp]
  rfl

theorem load_of_none {f : State → Option β} (hb : f h = none) : load f h = .fault := by
  rw [load, hb]

end

abbrev Blocks := Multiset (ℕ × Block)

/-- The bytes that were allocated for blocks. -/
def sizes (m : Blocks) : Multiset ℕ := m.map fun b => b.2.size

@[simp] theorem sizes_zero : sizes 0 = 0 := rfl

@[simp] theorem sizes_add (m m' : Blocks) : sizes (m + m') = sizes m + sizes m' :=
  Multiset.map_add _ _ _

@[simp] theorem sizes_cons (b : ℕ × Block) (m : Blocks) : sizes (b ::ₘ m) = b.2.size ::ₘ sizes m :=
  Multiset.map_cons _ _ _

@[simp] theorem sizes_singleton (b : ℕ × Block) : sizes {b} = {b.2.size} :=
  Multiset.map_singleton _ _

section

variable {h₀ h : State} {m : Blocks} {a : ℕ}

theorem chars?_of_block {size : ℕ} {bytes : Bytes} (hb : h.block a = some (.chars size bytes)) :
    h.chars? (some a) = some (size, bytes) := by
  rw [State.chars?, Option.bind_some, hb]

theorem slots?_of_block {pointers : List (Option Pointer)}
    (hb : h.block a = some (.slots pointers)) : h.slots? (some a) = some pointers := by
  rw [State.slots?, Option.bind_some, hb]

theorem free_owned {x : Block} (ho : Adds h₀ ((a, x) ::ₘ m) h) :
    ∃ h', free (some a) h = pure ((), h') ∧ Adds h₀ m h' := by
  obtain ⟨h', hf, ho'⟩ := ho.free
  exact ⟨h', update_of_some (f := (·.free a)) hf, ho'⟩

theorem write_owned {x : Block} (ho : Adds h₀ ((a, x) ::ₘ m) h) (y : Block) :
    ∃ h', write (some a) y h = pure ((), h') ∧ Adds h₀ ((a, y) ::ₘ m) h' := by
  obtain ⟨h', hf, ho'⟩ := ho.write y
  exact ⟨h', update_of_some (f := (·.write a y)) hf, ho'⟩

end

/--
A read from a heap with the blocks `m`: either the value is held by a reference, with
further blocks, or there is no reference, and blocks of the sizes that are left.
-/
inductive Reads {β ρ : Type} (Holds : β → ρ → Blocks → Prop) (h₀ : State) (m : Blocks) :
    Got β → Option ρ × State → Prop
  | ok {b : β} {r : ρ} {m' : Blocks} {h : State} :
      Holds b r m' → Adds h₀ (m' + m) h → Reads Holds h₀ m (.ok b) (some r, h)
  | error {kept : Multiset ℕ} {m' : Blocks} {h : State} :
      sizes m' = kept → Adds h₀ (m' + m) h → Reads Holds h₀ m (.error kept) (none, h)

/-- The block of a string. -/
def stringAt (e : ℕ × Bytes) : ℕ × Block := (e.1, .chars (stringBlock e.2) e.2)

/-- A number is its own reference. -/
def HoldsWord (v r : CInt) (m : Blocks) : Prop := v = r ∧ m = 0

def HoldsString (b : Bytes) (p : Pointer) (m : Blocks) : Prop :=
  ∃ a, p = some a ∧ m = {stringAt (a, b)}

section

variable {malloc : ℕ → Bool} {h₀ h : State} {m : Blocks}

theorem readWord_refines {p : Rd (Option CInt)} (ho : Adds h₀ m h) :
    Refines (Reads HoldsWord h₀ m) (keepNothing p) (lift p h) := by
  refine Refines.map_left (Refines.mono (Refines.bind_pure p fun _ => rfl) ?_)
  rintro b _ rfl
  have ho' : Adds h₀ (0 + m) h := by rwa [zero_add]
  cases b with
  | none => exact .error rfl ho'
  | some v => exact .ok ⟨rfl, rfl⟩ ho'

theorem size_of_allocate {size : Size} {n : ℕ} (ha : allocate malloc size = some n) :
    n = size.toNat ∧ n < 2 ^ 63 := by
  unfold allocate at ha
  split at ha
  · next hs =>
    obtain rfl := Option.some.inj ha
    exact ⟨rfl, hs.1⟩
  · cases ha

theorem doRead_owned {a size : ℕ} {len : Size} (ho : Adds h₀ ((a, .chars size []) ::ₘ m) h)
    (hlen : 0 < len.toInt) (hle : len.toNat ≤ size) :
    Refines (fun r y => (r = none ∧ y = (none, h)) ∨
        ∃ bytes h', r = some bytes ∧ bytes.length = len.toNat ∧ y = (some (), h') ∧
          Adds h₀ ((a, .chars size bytes) ::ₘ m) h')
      (.read len.toNat pure) (doRead (some a) len h) := by
  have hc : h.chars? (some a) = some (size, []) :=
    chars?_of_block (ho.block (Multiset.mem_cons_self _ _))
  rw [doRead, if_pos hlen]
  dsimp only
  rw [bind_of_pure (load_of_some hc)]
  dsimp only
  rw [if_pos hle, lift_bind]
  refine .read fun r hr => ?_
  cases r with
  | none => exact .pure (.inl ⟨rfl, rfl⟩)
  | some bytes =>
    obtain ⟨h', hw, ho'⟩ := write_owned ho (.chars size bytes)
    change Refines _ _ ((write (some a) (.chars size bytes) >>= fun _ => pure (some ())) h)
    rw [bind_of_pure hw]
    exact .pure (.inr ⟨bytes, h', rfl, hr bytes rfl, rfl, ho'⟩)

theorem readInto_null_refines (ho : Adds h₀ m h) (len : Size) :
    Refines (fun r => Reads HoldsString h₀ m (r.elim (.error 0) .ok))
      (do
        match ← Voyeur.doRead none len with
        | none => return none
        | some bytes =>
          store none len.toNat
          return some bytes)
      ((do
        match ← doRead none len with
        | none =>
          free none
          return none
        | some () =>
          storeNul none len.toNat
          return some none : Hd (Option Pointer)) h) := by
  by_cases hlen : 0 < len.toInt
  · rw [doRead_null hlen, doRead, if_pos hlen]
    exact .pure (.error sizes_zero (by rwa [zero_add]))
  · rw [doRead_nonpos _ hlen, doRead, if_neg hlen]
    exact .fault

theorem storeNul_owned {a size : ℕ} {bytes : Bytes}
    (ho : Adds h₀ ((a, .chars size bytes) ::ₘ m) h) (index : ℕ) :
    storeNul (some a) index h = if index < size then pure ((), h) else .fault := by
  have hc : h.chars? (some a) = some (size, bytes) :=
    chars?_of_block (ho.block (Multiset.mem_cons_self _ _))
  rw [storeNul, bind_of_pure (load_of_some hc)]
  dsimp only
  split <;> rfl

theorem store_some (size index : ℕ) :
    store (some size) index = if index < size then pure () else .fault := by
  rw [store]
  simp only [Int.natCast_nonneg, Nat.cast_lt, true_and]

theorem readInto_refines {a size : ℕ} {len : Size} (ha : allocate malloc (len + 1) = some size)
    (ho : Adds h₀ ((a, .chars size []) ::ₘ m) h) :
    Refines (fun r => Reads HoldsString h₀ m (r.elim (.error 0) .ok))
      (do
        match ← Voyeur.doRead (some size) len with
        | none => return none
        | some bytes =>
          store (some size) len.toNat
          return some bytes)
      ((do
        match ← doRead (some a) len with
        | none =>
          free (some a)
          return none
        | some () =>
          storeNul (some a) len.toNat
          return some (some a) : Hd (Option Pointer)) h) := by
  obtain ⟨hsize, hmax⟩ := size_of_allocate ha
  -- The buffer has room for the string and its NUL, unless the length is negative.
  have hdone {bytes : Bytes} {h' : State} (hb : len.toNat < size → size = bytes.length + 1)
      (ho' : Adds h₀ ((a, .chars size bytes) ::ₘ m) h') :
      Refines (fun r => Reads HoldsString h₀ m (r.elim (.error 0) .ok))
        (do
          store (some size) len.toNat
          return some bytes)
        ((do
          storeNul (some a) len.toNat
          return some (some a) : Hd (Option Pointer)) h') := by
    rw [store_some]
    by_cases hlt : len.toNat < size
    · have hn : storeNul (some a) len.toNat h' = pure ((), h') := by
        rw [storeNul_owned ho', if_pos hlt]
      rw [if_pos hlt, bind_of_pure hn]
      have hh : HoldsString bytes (some a) {stringAt (a, bytes)} := ⟨a, rfl, rfl⟩
      refine .pure (.ok hh ?_)
      rw [Multiset.singleton_add, stringAt, stringBlock, ← hb hlt]
      exact ho'
    · have hn : storeNul (some a) len.toNat h' = .fault := by
        rw [storeNul_owned ho', if_neg hlt]
      rw [if_neg hlt, bind_of_fault hn]
      exact .fault
  by_cases hlen : 0 < len.toInt
  · have hlt : len.toNat < 2 ^ 63 := by
      rw [BitVec.toInt_eq_toNat_cond] at hlen
      have := len.isLt
      split at hlen <;> omega
    rw [toNat_add_one hlt] at hsize
    rw [doRead_some _ hlen]
    refine (doRead_owned ho hlen (by omega)).bind ?_
    rintro r _ (⟨rfl, rfl⟩ | ⟨bytes, h', rfl, hl, rfl, ho'⟩)
    · obtain ⟨h', hf, ho'⟩ := free_owned ho
      change Refines _ _ ((free (some a) >>= fun _ => pure none) h)
      rw [bind_of_pure hf]
      exact .pure (.error sizes_zero (by rwa [zero_add]))
    · exact hdone (fun _ => by omega) ho'
  · rw [doRead_nonpos _ hlen, doRead, if_neg hlen]
    refine hdone (fun hlt => ?_) ho
    have hl : len.toNat = 0 := by
      rw [BitVec.toInt_eq_toNat_cond] at hlen
      have := len.isLt
      split at hlen <;> omega
    rw [hsize, toNat_add_one (by omega), hl, List.length_nil]

/-- `voyeur_read_string` leaves a string in a block of its own, or nothing. -/
theorem readString_refines (ho : Adds h₀ m h) :
    Refines (fun r => Reads HoldsString h₀ m (r.elim (.error 0) .ok)) (Voyeur.readString malloc 0)
      (readString malloc none 0 h) := by
  rw [readString_eq, readString, lift_bind]
  refine (Refines.refl readSize).bind ?_
  rintro (_ | len) _ rfl
  · exact .pure (.error sizes_zero (by rwa [zero_add]))
  · simp only [ne_eq, not_true_eq_false, false_and, if_false, if_true]
    cases ha : allocate malloc (len + 1) with
    | none => exact readInto_null_refines ho len
    | some size => exact readInto_refines ha (ho.alloc _)

theorem HoldsString.sizes {b : Bytes} {p : Pointer} (hh : HoldsString b p m) :
    sizes m = {stringBlock b} := by
  obtain ⟨a, -, rfl⟩ := hh
  exact sizes_singleton _

theorem HoldsString.free {b : Bytes} {p : Pointer} {m' : Blocks} (hh : HoldsString b p m')
    (ho : Adds h₀ (m' + m) h) : ∃ h', free p h = pure ((), h') ∧ Adds h₀ m h' := by
  obtain ⟨a, rfl, rfl⟩ := hh
  rw [Multiset.singleton_add] at ho
  exact free_owned ho

/-- All of these blocks are live. -/
def Live (m : Blocks) (h : State) : Prop := ∀ b ∈ m, h.block b.1 = some b.2

theorem live_of_adds (ho : Adds h₀ m h) : Live m h := fun _ hb => ho.block hb

theorem live_add {m' : Blocks} : Live (m + m') h ↔ Live m h ∧ Live m' h := by
  simp only [Live, Multiset.mem_add, or_imp, forall_and]

theorem HoldsString.string? {b : Bytes} {p : Pointer} (hh : HoldsString b p m) (hl : Live m h) :
    h.string? p = some b := by
  obtain ⟨a, rfl, rfl⟩ := hh
  have hb : h.block a = some (.chars (stringBlock b) b) :=
    hl (stringAt (a, b)) (Multiset.mem_singleton_self _)
  rw [State.string?, chars?_of_block hb]
  rfl

end

end Voyeur.OnHeap
