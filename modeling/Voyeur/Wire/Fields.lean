import Mathlib.Data.List.Flatten
import Voyeur.Wire.Handlers

/-! # What the field readers do on every stream

A word is read if four (or eight) bytes are left. A string is read if the
allocator grants its buffer and its bytes are there. A refused buffer ends the
handler right behind the length, and the lengths that no buffer has are undefined.
-/

namespace Voyeur

open LittleEndian (encode decode)
open StreamReader (Accepts)

/-- A string on the wire: its length and its bytes. -/
def stringBytes (b : Bytes) : Bytes := encode 8 (BitVec.ofNat 64 b.length) ++ b

/-- The strings of an array on the wire. -/
def entriesBytes (l : List Bytes) : Bytes := l.flatMap stringBytes

/-- An array on the wire: its count and its strings. -/
def arrayBytes (l : List Bytes) : Bytes :=
  encode 4 (BitVec.ofNat 32 l.length) ++ entriesBytes l

@[simp] theorem entriesBytes_nil : entriesBytes [] = [] := rfl

@[simp] theorem entriesBytes_cons (b : Bytes) (l : List Bytes) :
    entriesBytes (b :: l) = stringBytes b ++ entriesBytes l := by
  simp [entriesBytes]

theorem doRead_nonpos (buf : Buffer) {n : Size} (h : ¬ 0 < n.toInt) :
    doRead buf n = pure (some []) := if_neg h

theorem doRead_null {n : Size} (h : 0 < n.toInt) : doRead none n = pure none := if_pos h

theorem doRead_some (size : ℕ) {n : Size} (h : 0 < n.toInt) :
    doRead (some size) n = .read n.toNat pure := if_pos h

section Words

variable {k : ℕ}

theorem readWord_eq (h : 0 < k ∧ k < 2 ^ 63) :
    readWord k = .read k fun r => pure (r.map (decode k)) := by
  have hn : (BitVec.ofNat 64 k).toNat = k := by
    rw [BitVec.toNat_ofNat]; omega
  have hi : 0 < (BitVec.ofNat 64 k).toInt := by
    rw [BitVec.toInt_eq_toNat_of_lt (by rw [hn]; omega), hn]; omega
  rw [readWord, doRead_some k hi, hn]
  rfl

theorem readWord_accepts (h : 0 < k ∧ k < 2 ^ 63) (v : BitVec (8 * k)) :
    Accepts (readWord k) (encode k v) [] (some v) := by
  intro s
  rw [readWord_eq h, StreamReader.run_read_append (LittleEndian.length_encode v)]
  simp

theorem readWord_short (h : 0 < k ∧ k < 2 ^ 63) {s : Bytes} (hs : s.length < k) :
    (readWord k).run s = ([], some (none, [])) := by
  rw [readWord_eq h, StreamReader.run_read_of_lt hs]
  simp

theorem word_cases (k : ℕ) (s : Bytes) :
    s.length < k ∨ ∃ (v : BitVec (8 * k)) (t : Bytes), s = encode k v ++ t := by
  rcases Nat.lt_or_ge s.length k with h | h
  · exact .inl h
  · refine .inr ⟨decode k (s.take k), s.drop k, ?_⟩
    rw [LittleEndian.encode_decode (by simpa using h), List.take_append_drop]

theorem readInt_accepts (v : CInt) : Accepts readInt (encode 4 v) [] (some v) :=
  readWord_accepts (k := 4) (by decide) v

theorem readSize_accepts (v : Size) : Accepts readSize (encode 8 v) [] (some v) :=
  readWord_accepts (k := 8) (by decide) v

end Words

variable {malloc : ℕ → Bool}

/-- The allocator grants a buffer for `len` bytes and their terminating NUL. -/
def GrantsString (malloc : ℕ → Bool) (len : ℕ) : Prop := len + 1 < 2 ^ 63 ∧ malloc (len + 1) = true

/-- The allocator grants a buffer for `n` strings and their terminating `NULL`. -/
def GrantsArray (malloc : ℕ → Bool) (n : ℕ) : Prop := malloc (8 * (n + 1)) = true

instance (len : ℕ) : Decidable (GrantsString malloc len) := by unfold GrantsString; infer_instance
instance (n : ℕ) : Decidable (GrantsArray malloc n) := by unfold GrantsArray; infer_instance

/-- A length whose buffer is refused, so that the handler returns. -/
def RefusedLength (malloc : ℕ → Bool) (len : Size) : Prop :=
  0 < len.toNat ∧ len.toNat < 2 ^ 63 ∧ ¬ GrantsString malloc len.toNat

/-- A length for which the terminating NUL is stored outside any buffer. -/
def UndefinedLength (malloc : ℕ → Bool) (len : Size) : Prop :=
  2 ^ 63 ≤ len.toNat ∨ len.toNat = 0 ∧ ¬ GrantsString malloc 0

theorem length_cases (malloc : ℕ → Bool) (len : Size) :
    GrantsString malloc len.toNat ∨ RefusedLength malloc len ∨ UndefinedLength malloc len := by
  rcases Nat.lt_or_ge len.toNat (2 ^ 63) with hl | hl
  · by_cases hg : GrantsString malloc len.toNat
    · exact .inl hg
    · rcases Nat.eq_zero_or_pos len.toNat with h0 | h0
      · exact .inr (.inr (.inr ⟨h0, h0 ▸ hg⟩))
      · exact .inr (.inl ⟨h0, hl, hg⟩)
  · exact .inr (.inr (.inl hl))

theorem toNat_add_one {len : Size} (h : len.toNat < 2 ^ 63) : (len + 1).toNat = len.toNat + 1 := by
  rw [BitVec.toNat_add]
  simp
  omega

theorem allocate_of_grants {len : Size} (h : GrantsString malloc len.toNat) :
    allocate malloc (len + 1) = some (len.toNat + 1) := by
  have hn : (len + 1).toNat = len.toNat + 1 := toNat_add_one (by have := h.1; omega)
  rw [allocate, hn]
  exact if_pos h

theorem allocate_of_not_grants {len : Size} (hl : len.toNat < 2 ^ 63)
    (h : ¬ GrantsString malloc len.toNat) : allocate malloc (len + 1) = none := by
  rw [allocate, toNat_add_one hl]
  exact if_neg h

theorem store_of_lt {size : ℕ} {i : ℤ} (h : 0 ≤ i ∧ i < size) : store (some size) i = pure () :=
  if_pos h

theorem store_of_neg (buf : Buffer) {i : ℤ} (h : i < 0) : store buf i = .fault := by
  cases buf with
  | none => rfl
  | some size => exact if_neg (by omega)

theorem toInt_of_lt {len : Size} (h : len.toNat < 2 ^ 63) : len.toInt = len.toNat :=
  BitVec.toInt_eq_toNat_of_lt (by omega)

theorem readString_eq (malloc : ℕ → Bool) :
    readString malloc 0 = (do
      match ← readSize with
      | none => return none
      | some len =>
        match ← doRead (allocate malloc (len + 1)) len with
        | none => return none
        | some bytes =>
          store (allocate malloc (len + 1)) len.toNat
          return some bytes) := by
  unfold readString
  rfl

theorem readString_run {len : Size} (t : Bytes) :
    (readString malloc 0).run (encode 8 len ++ t) =
      StreamReader.run (do
        match ← doRead (allocate malloc (len + 1)) len with
        | none => return none
        | some bytes =>
          store (allocate malloc (len + 1)) len.toNat
          return some bytes) t := by
  rw [readString_eq, StreamReader.run_bind_of_value (readSize_accepts len t)]
  simp

theorem readString_short {s : Bytes} (h : s.length < 8) :
    (readString malloc 0).run s = ([], some (none, [])) := by
  rw [readString_eq, readSize, StreamReader.run_bind_of_value (readWord_short (by decide) h)]
  simp

theorem RefusedLength.toInt_pos {len : Size} (h : RefusedLength malloc len) : 0 < len.toInt := by
  rw [toInt_of_lt h.2.1]
  have := h.1
  omega

theorem UndefinedLength.not_toInt_pos {len : Size} (h : UndefinedLength malloc len) :
    ¬ 0 < len.toInt := by
  rcases h with h | ⟨h, -⟩
  · rw [BitVec.toInt_eq_toNat_cond]
    have := len.isLt
    split <;> omega
  · rw [toInt_of_lt (by omega)]
    omega

/-- The size of the buffer wraps to 0 or exceeds what an object can have, or it is refused. -/
theorem UndefinedLength.allocate_le {len : Size} (h : UndefinedLength malloc len) {size : ℕ}
    (ha : allocate malloc (len + 1) = some size) : size ≤ len.toNat := by
  rcases h with h | ⟨h, hg⟩
  · have hlt := len.isLt
    unfold allocate at ha
    split at ha
    · next hs =>
      obtain rfl := Option.some.inj ha
      rw [BitVec.toNat_add] at hs ⊢
      simp at hs ⊢
      omega
    · cases ha
  · rw [allocate_of_not_grants (by omega) (by rwa [h])] at ha
    cases ha

theorem readString_refused {len : Size} (h : RefusedLength malloc len) (t : Bytes) :
    (readString malloc 0).run (encode 8 len ++ t) = ([], some (none, t)) := by
  rw [readString_run, allocate_of_not_grants h.2.1 h.2.2, doRead_null h.toInt_pos]
  rfl

theorem readString_undefined {len : Size} (h : UndefinedLength malloc len) (t : Bytes) :
    (readString malloc 0).run (encode 8 len ++ t) = ([], none) := by
  have hs : store (allocate malloc (len + 1)) len.toNat = .fault := by
    cases ha : allocate malloc (len + 1) with
    | none => rfl
    | some size =>
      have hl := h.allocate_le ha
      exact if_neg (by omega)
  rw [readString_run, doRead_nonpos _ h.not_toInt_pos, hs]
  rfl

theorem readString_granted {len : Size} (h : GrantsString malloc len.toNat) (t : Bytes) :
    (readString malloc 0).run (encode 8 len ++ t) =
      if len.toNat ≤ t.length then ([], some (some (t.take len.toNat), t.drop len.toNat))
      else ([], some (none, [])) := by
  have hl : len.toNat < 2 ^ 63 := by have := h.1; omega
  have hs : store (allocate malloc (len + 1)) len.toNat = pure () := by
    rw [allocate_of_grants h]
    exact store_of_lt (by omega)
  rw [readString_run, hs, allocate_of_grants h]
  rcases Nat.eq_zero_or_pos len.toNat with h0 | h0
  · rw [doRead_nonpos _ (by rw [toInt_of_lt hl]; omega), if_pos (by omega), h0]
    rfl
  · rw [doRead_some _ (by rw [toInt_of_lt hl]; omega)]
    rcases Nat.lt_or_ge t.length len.toNat with ht | ht
    · rw [if_neg (by omega), StreamReader.run_bind_of_value (StreamReader.run_read_of_lt ht)]
      rfl
    · rw [if_pos ht, StreamReader.run_bind_of_value (StreamReader.run_read_of_le ht)]
      rfl

theorem toNat_ofNat_length {b : Bytes} (h : b.length + 1 < 2 ^ 63) :
    (BitVec.ofNat 64 b.length).toNat = b.length := by
  rw [BitVec.toNat_ofNat]; omega

theorem readString_accepts {b : Bytes} (h : GrantsString malloc b.length) :
    Accepts (readString malloc 0) (stringBytes b) [] (some b) := by
  intro t
  have hn := toNat_ofNat_length h.1
  rw [stringBytes, List.append_assoc, readString_granted (by rwa [hn]), hn, if_pos (by simp),
    List.take_left, List.drop_left]

/-- How a string is read from any stream. -/
theorem string_cases (malloc : ℕ → Bool) (s : Bytes) :
    (∃ b t, GrantsString malloc b.length ∧ s = stringBytes b ++ t) ∨
    (∃ len t, RefusedLength malloc len ∧ s = encode 8 len ++ t) ∨
    (∃ len t, UndefinedLength malloc len ∧ s = encode 8 len ++ t) ∨
    (readString malloc 0).run s = ([], some (none, [])) := by
  rcases word_cases 8 s with h | ⟨len, t, rfl⟩
  · exact .inr (.inr (.inr (readString_short h)))
  rcases length_cases malloc len with h | h | h
  · rcases Nat.lt_or_ge t.length len.toNat with ht | ht
    · right; right; right
      rw [readString_granted h, if_neg (by omega)]
    · have hb : (t.take len.toNat).length = len.toNat := by rw [List.length_take]; omega
      refine .inl ⟨t.take len.toNat, t.drop len.toNat, by rwa [hb], ?_⟩
      rw [stringBytes, hb, BitVec.ofNat_toNat, BitVec.setWidth_eq, List.append_assoc,
        List.take_append_drop]
  · exact .inr (.inl ⟨len, t, h, rfl⟩)
  · exact .inr (.inr (.inl ⟨len, t, h, rfl⟩))

theorem slots_eq (malloc : ℕ → Bool) {c : CInt} (h : c.toNat < intMax.toNat) :
    (allocate malloc (8 * (c + 1).signExtend 64)).map (· / 8) =
      if GrantsArray malloc c.toNat then some (c.toNat + 1) else none := by
  have hc : c.toNat < 2147483647 := h
  have h1 : (c + 1).toNat = c.toNat + 1 := by
    rw [BitVec.toNat_add]; simp; omega
  have hm : (c + 1).msb = false := by
    rw [BitVec.msb_eq_decide]; simp only [decide_eq_false_iff_not]; omega
  have hn : (8 * (c + 1).signExtend 64).toNat = 8 * (c.toNat + 1) := by
    rw [BitVec.toNat_mul, BitVec.toNat_signExtend, hm, BitVec.toNat_setWidth, h1]
    simp
    omega
  rw [allocate, hn]
  by_cases hg : GrantsArray malloc c.toNat
  · rw [if_pos ⟨by omega, hg⟩, if_pos hg]
    simp
  · rw [if_neg (fun ha => hg ha.2), if_neg hg]
    rfl

theorem toInt_count {c : CInt} (h : c.toNat < intMax.toNat) : c.toInt = c.toNat := by
  have hc : c.toNat < 2147483647 := h
  exact BitVec.toInt_eq_toNat_of_lt (by omega)

theorem ne_intMax {c : CInt} (h : c.toNat < intMax.toNat) : c ≠ intMax := by
  rintro rfl
  omega

/-- The strings `l` fit into the slots from `i` on. -/
def Fits (slots : Buffer) (i : ℕ) (l : List Bytes) : Prop :=
  l ≠ [] → ∃ size, slots = some size ∧ i + l.length ≤ size

theorem readEntries_append {slots : Buffer} {i : ℕ} {l : List Bytes} (m : ℕ)
    (hg : ∀ b ∈ l, GrantsString malloc b.length) (hs : Fits slots i l) (s : Bytes) :
    (readEntries malloc slots (l.length + m) i).run (entriesBytes l ++ s) =
      StreamReader.run
        (do return (← readEntries malloc slots m (i + l.length)).map (l ++ ·)) s := by
  induction l generalizing i with
  | nil =>
    simp only [List.length_nil, Nat.zero_add, entriesBytes_nil, List.nil_append, Nat.add_zero,
      StreamReader.run_bind]
    rcases (readEntries malloc slots m i).run s with ⟨es, _ | ⟨_ | l', t⟩⟩ <;> simp
  | cons b l ih =>
    obtain ⟨size, rfl, hi⟩ := hs (by simp)
    rw [List.length_cons] at hi
    have hb := readString_accepts (hg b List.mem_cons_self)
    have hl := ih (i := i + 1) (fun b' h => hg b' (List.mem_cons_of_mem _ h))
      (fun _ => ⟨size, rfl, by omega⟩)
    rw [List.length_cons, show l.length + 1 + m = l.length + m + 1 by omega, readEntries,
      entriesBytes_cons, List.append_assoc, StreamReader.run_bind_of_value (hb _)]
    simp only [store_of_lt (show (0 : ℤ) ≤ i ∧ (i : ℤ) < size by omega), List.nil_append]
    rw [StreamReader.run_bind_of_value (StreamReader.run_pure _ _), StreamReader.run_bind, hl,
      StreamReader.run_bind, StreamReader.run_bind,
      show i + 1 + l.length = i + (l.length + 1) by omega]
    rcases (readEntries malloc (some size) m (i + (l.length + 1))).run s with
      ⟨es, _ | ⟨_ | l', t⟩⟩ <;> simp

theorem readEntries_accepts {size i : ℕ} {l : List Bytes}
    (hg : ∀ b ∈ l, GrantsString malloc b.length) (hi : i + l.length ≤ size) :
    Accepts (readEntries malloc (some size) l.length i) (entriesBytes l) [] (some l) := by
  intro s
  have hf : Fits (some size) i l := fun _ => ⟨size, rfl, hi⟩
  have h := readEntries_append 0 hg hf s
  rw [Nat.add_zero] at h
  rw [h, readEntries, StreamReader.run_bind_of_value (StreamReader.run_pure _ _)]
  simp

/-- The stream starts with strings that fit, and the next length is a `Stop`. -/
def StopsAt (Stop : Size → Prop) (malloc : ℕ → Bool) (slots : Buffer) (n i : ℕ)
    (s t : Bytes) : Prop :=
  ∃ l len, l.length < n ∧ (∀ b ∈ l, GrantsString malloc b.length) ∧ Fits slots i l ∧
    Stop len ∧ s = entriesBytes l ++ (encode 8 len ++ t)

theorem readEntries_refused {slots : Buffer} {n i : ℕ} {s t : Bytes}
    (h : StopsAt (RefusedLength malloc) malloc slots n i s t) :
    (readEntries malloc slots n i).run s = ([], some (none, t)) := by
  obtain ⟨l, len, hn, hg, hs, hr, rfl⟩ := h
  obtain ⟨m, rfl⟩ : ∃ m, n = l.length + (m + 1) := ⟨n - l.length - 1, by omega⟩
  have hm : (readEntries malloc slots (m + 1) (i + l.length)).run (encode 8 len ++ t) =
      ([], some (none, t)) := by
    rw [readEntries, StreamReader.run_bind_of_value (readString_refused hr t)]
    simp
  rw [readEntries_append (m + 1) hg hs, StreamReader.run_bind_of_value hm]
  simp

theorem readEntries_undefined {slots : Buffer} {n i : ℕ} {s t : Bytes}
    (h : StopsAt (UndefinedLength malloc) malloc slots n i s t) :
    (readEntries malloc slots n i).run s = ([], none) := by
  obtain ⟨l, len, hn, hg, hs, hr, rfl⟩ := h
  obtain ⟨m, rfl⟩ : ∃ m, n = l.length + (m + 1) := ⟨n - l.length - 1, by omega⟩
  have hm : (readEntries malloc slots (m + 1) (i + l.length)).run (encode 8 len ++ t) =
      ([], none) := by
    rw [readEntries, StreamReader.run_bind_of_fault (readString_undefined hr t)]
  rw [readEntries_append (m + 1) hg hs, StreamReader.run_bind_of_fault hm]

theorem entries_cases (malloc : ℕ → Bool) (size n i : ℕ) (hi : i + n ≤ size) (s : Bytes) :
    (∃ l t, l.length = n ∧ (∀ b ∈ l, GrantsString malloc b.length) ∧ s = entriesBytes l ++ t) ∨
    (∃ t, StopsAt (RefusedLength malloc) malloc (some size) n i s t) ∨
    (∃ t, StopsAt (UndefinedLength malloc) malloc (some size) n i s t) ∨
    (readEntries malloc (some size) n i).run s = ([], some (none, [])) := by
  induction n generalizing i s with
  | zero => exact .inl ⟨[], s, rfl, by simp, rfl⟩
  | succ n ih =>
    rcases string_cases malloc s with ⟨b, u, hb, rfl⟩ | ⟨len, t, hr, rfl⟩ | ⟨len, t, hu, rfl⟩ | hc
    · have hcons : ∀ {Stop : Size → Prop} {t : Bytes},
          StopsAt Stop malloc (some size) n (i + 1) u t →
          StopsAt Stop malloc (some size) (n + 1) i (stringBytes b ++ u) t := by
        rintro Stop t ⟨l, len, hn, hg, hf, hs, rfl⟩
        refine ⟨b :: l, len, by simpa using hn, List.forall_mem_cons.mpr ⟨hb, hg⟩,
          fun _ => ⟨size, rfl, by rw [List.length_cons]; omega⟩, hs, by simp⟩
      rcases ih (i + 1) (by omega) u with ⟨l, t, rfl, hg, rfl⟩ | ⟨t, h⟩ | ⟨t, h⟩ | h
      · exact .inl ⟨b :: l, t, rfl, List.forall_mem_cons.mpr ⟨hb, hg⟩, by simp⟩
      · exact .inr (.inl ⟨t, hcons h⟩)
      · exact .inr (.inr (.inl ⟨t, hcons h⟩))
      · right; right; right
        rw [readEntries, StreamReader.run_bind_of_value (readString_accepts hb u)]
        simp only [store_of_lt (show (0 : ℤ) ≤ i ∧ (i : ℤ) < size by omega)]
        rw [StreamReader.run_bind_of_value (StreamReader.run_pure _ _),
          StreamReader.run_bind_of_value h]
        simp
    · exact .inr (.inl ⟨t, [], len, by simp, by simp, by simp [Fits], hr, rfl⟩)
    · exact .inr (.inr (.inl ⟨t, [], len, by simp, by simp, by simp [Fits], hu, rfl⟩))
    · right; right; right
      rw [readEntries, StreamReader.run_bind_of_value hc]
      simp

/-- The slots that `handle_exec` allocates for `n` strings. -/
def arraySlots (malloc : ℕ → Bool) (n : ℕ) : Buffer :=
  if GrantsArray malloc n then some (n + 1) else none

/-- An array that ends at a refused length: its handler returns and leaves `t`. -/
def ArrayRefused (malloc : ℕ → Bool) (s t : Bytes) : Prop :=
  ∃ (c : CInt) (u : Bytes), c.toNat < intMax.toNat ∧ s = encode 4 c ++ u ∧
    StopsAt (RefusedLength malloc) malloc (arraySlots malloc c.toNat) c.toNat 0 u t

/--
An array that leads to a store outside its buffers: its count is negative or `INT_MAX`, its
slots are refused, or one of its strings has a length without a buffer.
-/
def ArrayUndefined (malloc : ℕ → Bool) (s : Bytes) : Prop :=
  ∃ (c : CInt) (u : Bytes), s = encode 4 c ++ u ∧ (intMax.toNat ≤ c.toNat ∨
    (¬ GrantsArray malloc c.toNat ∧ (c.toNat = 0 ∨
      ∃ b t, GrantsString malloc b.length ∧ u = stringBytes b ++ t)) ∨
    ∃ t, StopsAt (UndefinedLength malloc) malloc (arraySlots malloc c.toNat) c.toNat 0 u t)

theorem readStrings_of_lt (malloc : ℕ → Bool) {c : CInt} (h : c.toNat < intMax.toNat) :
    readStrings malloc c = (do
      match ← readEntries malloc (arraySlots malloc c.toNat) c.toNat 0 with
      | none => return none
      | some entries =>
        store (arraySlots malloc c.toNat) c.toNat
        return some entries) := by
  rw [readStrings, if_neg (ne_intMax h), slots_eq malloc h, toInt_count h, Int.toNat_natCast]
  rfl

theorem readArray_run (malloc : ℕ → Bool) (c : CInt) (u : Bytes) :
    (readArray malloc).run (encode 4 c ++ u) = (readStrings malloc c).run u := by
  rw [readArray, StreamReader.run_bind_of_value (readInt_accepts c u)]
  simp

theorem toNat_ofNat_count {n : ℕ} (h : n < intMax.toNat) : (BitVec.ofNat 32 n).toNat = n := by
  have hn : n < 2147483647 := h
  rw [BitVec.toNat_ofNat]; omega

theorem readArray_accepts {l : List Bytes} (hl : l.length < intMax.toNat)
    (ha : GrantsArray malloc l.length) (hg : ∀ b ∈ l, GrantsString malloc b.length) :
    Accepts (readArray malloc) (arrayBytes l) [] (some l) := by
  intro t
  have hn := toNat_ofNat_count hl
  have he : (readEntries malloc (some (l.length + 1)) l.length 0).run (entriesBytes l ++ t) =
      ([], some (some l, t)) := readEntries_accepts hg (by omega) t
  rw [arrayBytes, List.append_assoc, readArray_run, readStrings_of_lt malloc (by rwa [hn]), hn,
    arraySlots, if_pos ha, StreamReader.run_bind_of_value he]
  simp only [store_of_lt (show (0 : ℤ) ≤ (l.length : ℤ) ∧ (l.length : ℤ) < (l.length + 1 : ℕ) by
    omega)]
  rfl

theorem readArray_refused {s t : Bytes} (h : ArrayRefused malloc s t) :
    (readArray malloc).run s = ([], some (none, t)) := by
  obtain ⟨c, u, hc, rfl, hs⟩ := h
  rw [readArray_run, readStrings_of_lt malloc hc,
    StreamReader.run_bind_of_value (readEntries_refused hs)]
  rfl

theorem readStrings_undefined {c : CInt} (h : intMax.toNat ≤ c.toNat) (s : Bytes) :
    (readStrings malloc c).run s = ([], none) := by
  by_cases hc : c = intMax
  · rw [readStrings, if_pos hc, StreamReader.run_fault]
  · have hlt : 2147483648 ≤ c.toNat := by
      have hne : c.toNat ≠ 2147483647 := fun h => hc (BitVec.eq_of_toNat_eq h)
      have hle : 2147483647 ≤ c.toNat := h
      omega
    have hneg : c.toInt < 0 := by
      rw [BitVec.toInt_eq_toNat_cond]; have := c.isLt; split <;> omega
    rw [readStrings, if_neg hc]
    simp only [store_of_neg _ hneg, Int.toNat_of_nonpos hneg.le, readEntries]
    rfl

theorem readArray_undefined {s : Bytes} (h : ArrayUndefined malloc s) :
    (readArray malloc).run s = ([], none) := by
  obtain ⟨c, u, rfl, hc⟩ := h
  rw [readArray_run]
  rcases Nat.lt_or_ge c.toNat intMax.toNat with hlt | hge
  · rw [readStrings_of_lt malloc hlt]
    rcases hc with hc | ⟨ha, h0 | ⟨b, t, hb, rfl⟩⟩ | ⟨t, hs⟩
    · omega
    · rw [arraySlots, if_neg ha, h0]
      rfl
    · rcases Nat.eq_zero_or_pos c.toNat with h0 | h0
      · rw [arraySlots, if_neg ha, h0]
        rfl
      · obtain ⟨m, hm⟩ : ∃ m, c.toNat = m + 1 := ⟨c.toNat - 1, by omega⟩
        have hf : (readEntries malloc none (m + 1) 0).run (stringBytes b ++ t) = ([], none) := by
          rw [readEntries, StreamReader.run_bind_of_value (readString_accepts hb t)]
          rfl
        rw [arraySlots, if_neg ha, hm, StreamReader.run_bind_of_fault hf]
    · rw [StreamReader.run_bind_of_fault (readEntries_undefined hs)]
  · exact readStrings_undefined hge u

theorem array_cases (malloc : ℕ → Bool) (s : Bytes) :
    (∃ l t, l.length < intMax.toNat ∧ GrantsArray malloc l.length ∧
      (∀ b ∈ l, GrantsString malloc b.length) ∧ s = arrayBytes l ++ t) ∨
    (∃ t, ArrayRefused malloc s t) ∨ ArrayUndefined malloc s ∨
    (readArray malloc).run s = ([], some (none, [])) := by
  rcases word_cases 4 s with h | ⟨c, u, rfl⟩
  · right; right; right
    rw [readArray, readInt, StreamReader.run_bind_of_value (readWord_short (by decide) h)]
    rfl
  rcases Nat.lt_or_ge c.toNat intMax.toNat with hlt | hge
  · by_cases ha : GrantsArray malloc c.toNat
    · have hslots : arraySlots malloc c.toNat = some (c.toNat + 1) := if_pos ha
      rcases entries_cases malloc (c.toNat + 1) c.toNat 0 (by omega) u with
        ⟨l, t, hl, hg, rfl⟩ | ⟨t, h⟩ | ⟨t, h⟩ | h
      · refine .inl ⟨l, t, by omega, by rwa [hl], hg, ?_⟩
        rw [arrayBytes, hl, BitVec.ofNat_toNat, BitVec.setWidth_eq, List.append_assoc]
      · exact .inr (.inl ⟨t, c, u, hlt, rfl, by rwa [hslots]⟩)
      · exact .inr (.inr (.inl ⟨c, u, rfl, .inr (.inr ⟨t, by rwa [hslots]⟩)⟩))
      · right; right; right
        rw [readArray_run, readStrings_of_lt malloc hlt, hslots, StreamReader.run_bind_of_value h]
        rfl
    · -- Without slots the first string that is complete is stored through `NULL`.
      have hslots : arraySlots malloc c.toNat = none := if_neg ha
      rcases Nat.eq_zero_or_pos c.toNat with h0 | h0
      · exact .inr (.inr (.inl ⟨c, u, rfl, .inr (.inl ⟨ha, .inl h0⟩)⟩))
      rcases string_cases malloc u with ⟨b, t, hb, rfl⟩ | ⟨len, t, hr, rfl⟩ | ⟨len, t, hu, rfl⟩ | h
      · exact .inr (.inr (.inl ⟨c, _, rfl, .inr (.inl ⟨ha, .inr ⟨b, t, hb, rfl⟩⟩)⟩))
      · exact .inr (.inl ⟨t, c, _, hlt, rfl, [], len, h0, by simp, by simp [Fits], hr, rfl⟩)
      · exact .inr (.inr (.inl
          ⟨c, _, rfl, .inr (.inr ⟨t, [], len, h0, by simp, by simp [Fits], hu, rfl⟩)⟩))
      · right; right; right
        obtain ⟨m, hm⟩ : ∃ m, c.toNat = m + 1 := ⟨c.toNat - 1, by omega⟩
        have hc : (readEntries malloc none (m + 1) 0).run u = ([], some (none, [])) := by
          rw [readEntries, StreamReader.run_bind_of_value h]
          rfl
        rw [readArray_run, readStrings_of_lt malloc hlt, hslots, hm,
          StreamReader.run_bind_of_value hc]
        rfl
  · exact .inr (.inr (.inl ⟨c, u, rfl, .inl hge⟩))

end Voyeur
