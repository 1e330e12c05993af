import Voyeur.Allocation.Strings

/-! # Arrays on the heap

`handle_exec` allocates the slots of an array, stores a pointer for each string that it
reads, and a `NULL` behind them. The slots are those of the array from then on: they lead
the callback to the strings, and the handler to what it has to free.
-/

namespace Voyeur.OnHeap

open Allocator (Heap)
open Allocator.Heap (Adds)
open StreamReader (Refines)

/-- Strings with the addresses of their blocks. -/
abbrev Entries := List (ℕ × Bytes)

namespace Entries

/-- The slots that hold the addresses of strings. -/
def slots (es : Entries) : List (Option Pointer) := es.map fun e => some (some e.1)

/-- The blocks of strings. -/
def blocks (es : Entries) : Blocks := (es.map stringAt : List (ℕ × Block))

/-- The first of `size` slots, and the others as `malloc` leaves them. -/
def filled (es : Entries) (size : ℕ) : List (Option Pointer) :=
  es.slots ++ List.replicate (size - es.length) none

@[simp] theorem length_slots (es : Entries) : es.slots.length = es.length := List.length_map _

@[simp] theorem slots_append (es es' : Entries) : slots (es ++ es') = es.slots ++ es'.slots :=
  List.map_append

@[simp] theorem blocks_nil : blocks [] = 0 := rfl

@[simp] theorem blocks_cons (e : ℕ × Bytes) (es : Entries) :
    blocks (e :: es) = stringAt e ::ₘ blocks es := rfl

theorem sizes_blocks (es : Entries) :
    sizes es.blocks = ((es.map Prod.snd).map stringBlock : List ℕ) := by
  rw [blocks, sizes, Multiset.map_coe, List.map_map, List.map_map]
  rfl

variable {es : Entries} {size : ℕ}

theorem length_filled (h : es.length ≤ size) : (es.filled size).length = size := by
  rw [filled, List.length_append, length_slots, List.length_replicate]
  omega

theorem filled_set (h : es.length < size) (e : ℕ × Bytes) :
    (es.filled size).set es.length (some (some e.1)) = filled (es ++ [e]) size := by
  obtain ⟨k, hk⟩ : ∃ k, size - es.length = k + 1 := ⟨size - es.length - 1, by omega⟩
  have hk' : size - (es ++ [e]).length = k := by
    rw [List.length_append, List.length_singleton]
    omega
  rw [filled, filled, hk, hk', List.set_append_right _ _ (by simp), length_slots, Nat.sub_self,
    List.replicate_succ, List.set_cons_zero, slots_append, List.append_assoc]
  rfl

theorem filled_set_null (h : size = es.length + 1) :
    (es.filled size).set es.length (some none) = es.slots ++ [some none] := by
  have hk : size - es.length = 1 := by omega
  rw [filled, hk, List.set_append_right _ _ (by simp), length_slots, Nat.sub_self]
  rfl

end Entries

/-- An array holds strings that its slots lead to, with a `NULL` behind them. -/
def HoldsStrings (l : List Bytes) (a : Strings) (m : Blocks) : Prop :=
  ∃ (array : ℕ) (es : Entries), a.array = some array ∧ a.count.toInt.toNat = es.length ∧
    l = es.map Prod.snd ∧ m = (array, .slots (es.slots ++ [some none])) ::ₘ es.blocks

section

variable {malloc : ℕ → Bool} {h₀ h : State} {m : Blocks} {array size : ℕ}

theorem storeSlot_refines {pointers : List (Option Pointer)} (hl : pointers.length = size)
    (ho : Adds h₀ ((array, .slots pointers) ::ₘ m) h) (index : ℤ) (q : Pointer) :
    Refines (fun _ y => (0 ≤ index ∧ index < size) ∧
        Adds h₀ ((array, .slots (pointers.set index.toNat (some q))) ::ₘ m) y.2)
      (store (some size) index) (storeSlot (some array) index q h) := by
  have hs : h.slots? (some array) = some pointers :=
    slots?_of_block (ho.block (Multiset.mem_cons_self _ _))
  rw [storeSlot, bind_of_pure (load_of_some hs), store, hl]
  split
  · next hi =>
    obtain ⟨h', hw, ho'⟩ := write_owned ho (.slots (pointers.set index.toNat (some q)))
    rw [hw]
    exact .pure ⟨hi, ho'⟩
  · exact .fault

theorem storeSlot_null (index : ℤ) (q : Pointer) : storeSlot none index q h = .fault :=
  bind_of_fault (load_of_none rfl)

/-- The loop either stores all of the strings, or leaves those that it got with the slots. -/
inductive EntriesRead (h₀ : State) (m : Blocks) (array size n : ℕ) (done : Entries) :
    Got (List Bytes) → Option Unit × State → Prop
  | ok {l : List Bytes} {es : Entries} {h : State} :
      l = es.map Prod.snd → es.length = n → done.length + n ≤ size →
      Adds h₀ ((array, .slots (Entries.filled (done ++ es) size)) ::ₘ (es.blocks + m)) h →
      EntriesRead h₀ m array size n done (.ok l) (some (), h)
  | error {kept : Multiset ℕ} {es : Entries} {pointers : List (Option Pointer)} {h : State} :
      sizes es.blocks = kept → pointers.length = size →
      Adds h₀ ((array, .slots pointers) ::ₘ (es.blocks + m)) h →
      EntriesRead h₀ m array size n done (.error kept) (none, h)

theorem EntriesRead.cons {n : ℕ} {done : Entries} {e : ℕ × Bytes} {x : Got (List Bytes)}
    {y : Option Unit × State}
    (hr : EntriesRead h₀ (stringAt e ::ₘ m) array size n (done ++ [e]) x y) :
    EntriesRead h₀ m array size (n + 1) done (Got.cons e.2 x) y := by
  cases hr with
  | @ok l es h hl hn hsize ho =>
    rw [List.length_append, List.length_singleton] at hsize
    rw [List.append_assoc] at ho
    have hcons : Got.cons e.2 (.ok l) = .ok (e.2 :: l) := rfl
    rw [hcons]
    have hmap : e.2 :: l = List.map Prod.snd (e :: es) := by
      rw [hl, List.map_cons]
    refine .ok hmap (by rw [List.length_cons, hn]) (by omega) ?_
    rwa [Entries.blocks_cons, Multiset.cons_add, ← Multiset.add_cons]
  | @error kept es pointers h hk hp ho =>
    have hcons : Got.cons e.2 (.error kept) = .error (stringBlock e.2 ::ₘ kept) := rfl
    rw [hcons]
    have hsizes : sizes (Entries.blocks (e :: es)) = stringBlock e.2 ::ₘ kept := by
      rw [Entries.blocks_cons, sizes_cons, hk]
      rfl
    refine .error hsizes hp ?_
    rwa [Entries.blocks_cons, Multiset.cons_add, ← Multiset.add_cons]

theorem readEntries_refines (n : ℕ) (done : Entries) (hd : done.length ≤ size)
    (ho : Adds h₀ ((array, .slots (done.filled size)) ::ₘ m) h) :
    Refines (EntriesRead h₀ m array size n done) (keepEntries malloc (some size) n done.length)
      (readEntries malloc (some array) n done.length h) := by
  induction n generalizing done m h with
  | zero =>
    have hmap : [] = List.map Prod.snd ([] : Entries) := rfl
    exact .pure (.ok hmap rfl hd (by simpa using ho))
  | succ n ih =>
    refine (readString_refines ho).bind ?_
    rintro (_ | b) _ hr
    · cases hr with
      | error hk ho' =>
        have hsizes : sizes (Entries.blocks []) = 0 := rfl
        refine .pure (.error hsizes (Entries.length_filled hd) ?_)
        rw [Multiset.map_eq_zero.mp hk, zero_add] at ho'
        rwa [Entries.blocks_nil, zero_add]
    · cases hr with
      | ok hh ho' =>
        obtain ⟨a, rfl, rfl⟩ := hh
        rw [Multiset.singleton_add, Multiset.cons_swap] at ho'
        refine (storeSlot_refines (Entries.length_filled hd) ho' done.length (some a)).bind ?_
        rintro - ⟨⟨⟩, h'⟩ ⟨⟨-, hlt⟩, ho''⟩
        have hlt' : done.length < size := by exact_mod_cast hlt
        rw [Int.toNat_natCast, Entries.filled_set hlt' (a, b)] at ho''
        have hlen : (done ++ [(a, b)]).length = done.length + 1 := List.length_append
        have hr := ih (done ++ [(a, b)]) (by rw [hlen]; omega) ho''
        rw [hlen] at hr
        exact Refines.map_left (hr.mono fun x y hxy => hxy.cons)

/-- Without slots the loop leaves nothing: it must not get a string. -/
theorem readEntries_null_refines (n i : ℕ) (ho : Adds h₀ m h) :
    Refines (fun x y => (∃ l, x = .ok l ∧ y = (some (), h)) ∨
        x = .error 0 ∧ y.1 = none ∧ Adds h₀ m y.2)
      (keepEntries malloc none n i) (readEntries malloc none n i h) := by
  cases n with
  | zero => exact .pure (.inl ⟨[], rfl, rfl⟩)
  | succ n =>
    refine (readString_refines ho).bind ?_
    rintro (_ | b) ⟨p, h'⟩ hr
    · cases hr with
      | error hk ho' =>
        rw [Multiset.map_eq_zero.mp hk, zero_add] at ho'
        exact .pure (.inr ⟨rfl, rfl, ho'⟩)
    · cases hr with
      | @ok _ r _ _ _ _ =>
        have hs : storeSlot none i r h' = .fault := storeSlot_null i r
        change Refines _ _ ((storeSlot none i r >>= fun _ => readEntries malloc none n (i + 1)) h')
        rw [bind_of_fault hs]
        exact .fault

theorem not_neg_cases {count : CInt} (h : 0 ≤ count.toInt) (hi : count ≠ intMax) :
    count.toNat < intMax.toNat := by
  have hn : count.toNat ≠ 2147483647 := fun he => hi (BitVec.eq_of_toNat_eq he)
  have hm : intMax.toNat = 2147483647 := rfl
  have hlt := count.isLt
  rw [BitVec.toInt_eq_toNat_cond] at h
  rw [hm]
  split at h <;> omega

theorem readStrings_refines (ho : Adds h₀ m h) (count : CInt) :
    Refines (Reads HoldsStrings h₀ m) (keepStrings malloc count) (readStrings malloc count h) := by
  unfold keepStrings readStrings
  by_cases hi : count = intMax
  · rw [if_pos hi, if_pos hi]
    exact .fault
  rw [if_neg hi, if_neg hi]
  dsimp only
  cases hs : (allocate malloc (8 * (count + 1).signExtend 64)).map (· / 8) with
  | none =>
    refine (readEntries_null_refines _ 0 ho).bind ?_
    rintro x ⟨y, h'⟩ (⟨l, rfl, hy⟩ | ⟨rfl, rfl, ho'⟩)
    · cases hy
      have hst : storeSlot none count.toInt none h = .fault := storeSlot_null _ _
      change Refines _ _
        ((storeSlot none count.toInt none >>= fun _ => pure (some ⟨count, none⟩)) h)
      rw [bind_of_fault hst]
      exact .fault
    · exact .pure (.error rfl (by rwa [zero_add]))
  | some size =>
    have ho' : Adds h₀ ((h.next, .slots (Entries.filled [] size)) ::ₘ m) (h.alloc _) := ho.alloc _
    refine (readEntries_refines _ [] (Nat.zero_le _) ho').bind ?_
    rintro x ⟨y, h'⟩ hr
    cases hr with
    | @error kept es pointers _ hk hp ho'' =>
      rw [← Multiset.cons_add] at ho''
      refine .pure (.error ?_ ho'')
      rw [sizes_cons, hk, Block.size, hp]
      rfl
    | @ok l es _ hl hn hsize ho'' =>
      rw [List.nil_append] at ho''
      rw [List.length_nil, Nat.zero_add, ← hn] at hsize
      refine (storeSlot_refines (Entries.length_filled hsize) ho'' count.toInt none).bind ?_
      rintro - ⟨⟨⟩, h''⟩ ⟨⟨h0, hlt⟩, ho₃⟩
      -- The count is in the range where the slots are one more than the strings.
      have hc := not_neg_cases h0 hi
      rw [slots_eq malloc hc] at hs
      have hes : count.toNat = es.length := by
        rw [hn, toInt_count hc, Int.toNat_natCast]
      have hs' : size = es.length + 1 := by
        split at hs
        · rw [← hes]
          exact (Option.some.inj hs).symm
        · cases hs
      rw [← hn, Entries.filled_set_null hs', ← Multiset.cons_add] at ho₃
      exact .pure (.ok ⟨h.next, es, rfl, hn.symm, hl, rfl⟩ ho₃)

theorem readArray_refines (ho : Adds h₀ m h) :
    Refines (Reads HoldsStrings h₀ m) (keepArray malloc) (readArray malloc h) := by
  rw [readArray, lift_bind]
  refine (Refines.refl readInt).bind ?_
  rintro (_ | count) _ rfl
  · exact .pure (.error sizes_zero (by rwa [zero_add]))
  · exact readStrings_refines ho count

theorem HoldsStrings.sizes {l : List Bytes} {a : Strings} (hh : HoldsStrings l a m) :
    sizes m = arrayBlocks l := by
  obtain ⟨array, es, -, -, rfl, rfl⟩ := hh
  rw [sizes_cons, Entries.sizes_blocks, arrayBlocks, Block.size, List.length_append,
    Entries.length_slots, List.length_map]
  rfl

theorem untilNull_slots (es : Entries) :
    State.untilNull (es.slots ++ [some none]) = some (es.map fun e => some e.1) := by
  induction es with
  | nil => rfl
  | cons e es ih =>
    change (State.untilNull (Entries.slots es ++ [some none])).map (some e.1 :: ·) = _
    rw [ih]
    rfl

theorem mapM_string? {es : Entries} (hl : Live es.blocks h) :
    (es.map fun e => some e.1).mapM h.string? = some (es.map Prod.snd) := by
  induction es with
  | nil => rfl
  | cons e es ih =>
    rw [Entries.blocks_cons] at hl
    have he : h.string? (some e.1) = some e.2 :=
      HoldsString.string? ⟨e.1, rfl, rfl⟩ fun b hb => by
        rw [Multiset.mem_singleton.mp hb]
        exact hl (stringAt e) (Multiset.mem_cons_self _ _)
    rw [List.map_cons, List.mapM_cons, he, ih fun b hb => hl b (Multiset.mem_cons_of_mem hb)]
    rfl

theorem HoldsStrings.strings? {l : List Bytes} {a : Strings} (hh : HoldsStrings l a m)
    (hl : Live m h) : h.strings? a.array = some l := by
  obtain ⟨array, es, ha, -, rfl, rfl⟩ := hh
  have hs : h.slots? (some array) = some (es.slots ++ [some none]) :=
    slots?_of_block (hl _ (Multiset.mem_cons_self _ _))
  rw [ha, State.strings?, hs, Option.bind_some, untilNull_slots, Option.bind_some]
  exact mapM_string? fun b hb => hl b (Multiset.mem_cons_of_mem hb)

theorem freeEntries_owned (done es : Entries) {rest : List (Option Pointer)}
    (ho : Adds h₀ ((array, .slots (Entries.slots (done ++ es) ++ rest)) ::ₘ (es.blocks + m)) h) :
    ∃ h', freeEntries (some array) es.length done.length h = pure ((), h') ∧
      Adds h₀ ((array, .slots (Entries.slots (done ++ es) ++ rest)) ::ₘ m) h' := by
  induction es generalizing done h with
  | nil => exact ⟨h, rfl, by simpa using ho⟩
  | cons e es ih =>
    have hs : h.slots? (some array) = some (Entries.slots (done ++ e :: es) ++ rest) :=
      slots?_of_block (ho.block (Multiset.mem_cons_self _ _))
    have hload : loadSlot (some array) done.length h = pure (some e.1, h) := by
      refine load_of_some ?_
      rw [hs, Option.bind_some, Entries.slots_append, List.append_assoc,
        List.getElem?_append_right (by simp), Entries.length_slots, Nat.sub_self]
      rfl
    rw [Entries.blocks_cons, Multiset.cons_add, Multiset.cons_swap] at ho
    obtain ⟨h', hf, ho'⟩ := free_owned ho
    have hd : done ++ e :: es = (done ++ [e]) ++ es := by simp
    rw [hd] at ho' ⊢
    obtain ⟨h'', hf', ho''⟩ := ih (done ++ [e]) ho'
    refine ⟨h'', ?_, ho''⟩
    rw [List.length_append, List.length_singleton] at hf'
    change (loadSlot (some array) done.length >>= fun p =>
      free p >>= fun _ => freeEntries (some array) es.length (done.length + 1)) h = _
    rw [bind_of_pure hload, bind_of_pure hf, hf']

theorem HoldsStrings.free {l : List Bytes} {a : Strings} {m' : Blocks} (hh : HoldsStrings l a m')
    (ho : Adds h₀ (m' + m) h) : ∃ h', a.free h = pure ((), h') ∧ Adds h₀ m h' := by
  obtain ⟨array, es, ha, hc, -, rfl⟩ := hh
  rw [Multiset.cons_add] at ho
  obtain ⟨h', hf, ho'⟩ := freeEntries_owned [] es ho
  rw [List.length_nil] at hf
  obtain ⟨h'', hf', ho''⟩ := free_owned ho'
  refine ⟨h'', ?_, ho''⟩
  rw [Strings.free, ha, hc, bind_of_pure hf, hf']

end

end Voyeur.OnHeap
