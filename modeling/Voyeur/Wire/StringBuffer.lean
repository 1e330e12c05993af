import Voyeur.Wire.Fields

/-! # The buffer of a string

`voyeur_read_string` with the contents of its buffer, and with a stream that arrives in
chunks. The buffer has one byte more than the length in front of the string, unless that
sum wraps or is refused; the loop that fills it compares the length as a signed number.
-/

namespace Voyeur

open LittleEndian (encode decode)

/-- A buffer with its bytes, some of which have not been written yet; `NULL` is `none`. -/
abbrev Block := Option (List (Option Byte))

/-- Bytes that have just been allocated. -/
def fresh (size : ℕ) : List (Option Byte) := List.replicate size none

/-- The cells after the bytes from `i` on have been replaced. -/
def written (cells : List (Option Byte)) (i : ℕ) (bytes : Bytes) : List (Option Byte) :=
  cells.take i ++ bytes.map some ++ cells.drop (i + bytes.length)

/-- Write bytes into a buffer. Nothing is defined for a write that is not inside of it. -/
def writeBlock (buf : Block) (i : ℕ) (bytes : Bytes) : Option Block :=
  match buf with
  | some cells =>
    if i + bytes.length ≤ cells.length then some (some (written cells i bytes)) else none
  | none => none

/-- How a call ends: with a value and the chunks that are left, or without a definition. -/
inductive Completion (β : Type) where
  | undefined
  | returned (b : β) (rest : List Bytes)
  deriving DecidableEq

/--
The loop of `do_read` on a stream that arrives in chunks and then ends. One `read` takes a
chunk, or what was asked for of it; an empty chunk is a call that is interrupted and repeated.
The value is the filled buffer, or `none` where the function returns -1.
-/
def readLoop (bufSize : Size) : Block → (totalIn : ℕ) → List Bytes → Completion (Option Block)
  | buf, totalIn, [] =>
      if (totalIn : ℤ) < bufSize.toInt then .returned none [] else .returned (some buf) []
  | none, totalIn, chunk :: chunks =>
      -- `read` into `NULL` fails with `EFAULT`.
      if (totalIn : ℤ) < bufSize.toInt then .returned none (chunk :: chunks)
      else .returned (some none) (chunk :: chunks)
  | some cells, totalIn, chunk :: chunks =>
      if (totalIn : ℤ) < bufSize.toInt then
        let asked := bufSize.toNat - totalIn
        match writeBlock (some cells) totalIn (chunk.take asked) with
        | none => .undefined
        | some buf =>
          if chunk.length ≤ asked then readLoop bufSize buf (totalIn + chunk.length) chunks
          else .returned (some buf) (chunk.drop asked :: chunks)
      else .returned (some (some cells)) (chunk :: chunks)

/-- `voyeur_read_size`, which fills a variable of eight bytes. -/
def readSizeBlock (chunks : List Bytes) : Completion (Option Size) :=
  match readLoop 8 (some (fresh 8)) 0 chunks with
  | .undefined => .undefined
  | .returned (some (some cells)) rest =>
      .returned (some (decode 8 (cells.map (·.getD 0)))) rest
  | .returned _ rest => .returned none rest

/-- A buffer of the caller, which has as many bytes as the caller says. -/
structure CallerBuffer (maxlen : Size) where
  cells : List (Option Byte)
  length_cells : cells.length = maxlen.toNat

/-- The second half of `voyeur_read_string`, once there is a buffer for the string. -/
def fillString (len : Size) (buf : Block) (chunks : List Bytes) : Completion (Option Block) :=
  match readLoop len buf 0 chunks with
  | .undefined => .undefined
  | .returned none rest => .returned none rest
  | .returned (some buf) rest =>
    match writeBlock buf len.toNat [0] with
    | none => .undefined
    | some buf => .returned (some buf) rest

/--
`voyeur_read_string`. The value is the string's buffer, or `none` where the function returns
-1; a buffer that was allocated has been freed then.
-/
def readStringBlock (malloc : ℕ → Bool) (maxlen : Size) (val : CallerBuffer maxlen)
    (chunks : List Bytes) : Completion (Option Block) :=
  match readSizeBlock chunks with
  | .undefined => .undefined
  | .returned none rest => .returned none rest
  | .returned (some len) rest =>
    if maxlen = 0 then fillString len ((allocate malloc (len + 1)).map fresh) rest
    else if maxlen ≤ len then .returned none rest
    else fillString len (some val.cells) rest

/-- The buffer starts with the string and its NUL, and has the size that belongs to it. -/
structure HoldsString (maxlen len : Size) (payload : Bytes) (cells : List (Option Byte)) :
    Prop where
  content : payload.map some ++ [some 0] <+: cells
  allocated : maxlen = 0 → cells.length = len.toNat + 1
  given : maxlen ≠ 0 → len.toNat < maxlen.toNat ∧ cells.length = maxlen.toNat

/--
The call returns -1, or it consumes a length and so many bytes and holds them in its buffer.
No write is outside of the buffer, for then the outcome would be undefined.
-/
def SafeRead (malloc : ℕ → Bool) (maxlen : Size) (val : CallerBuffer maxlen)
    (chunks : List Bytes) : Prop :=
  match readStringBlock malloc maxlen val chunks with
  | .undefined => False
  | .returned none _ => True
  | .returned (some buf) rest =>
      ∃ (len : Size) (payload : Bytes) (cells : List (Option Byte)),
        payload.length = len.toNat ∧ chunks.flatten = encode 8 len ++ (payload ++ rest.flatten) ∧
        buf = some cells ∧ HoldsString maxlen len payload cells

/--
The lengths for which the call is safe: the caller's buffer is too short, or the length is not
negative as a signed number, and a buffer for an empty string is granted.
-/
def SafeLength (malloc : ℕ → Bool) (maxlen len : Size) : Prop :=
  (maxlen ≠ 0 ∧ maxlen ≤ len) ∨
    (len.toNat < 2 ^ 63 ∧ (maxlen ≠ 0 ∨ 0 < len.toNat ∨ malloc 1 = true))

section

variable {cells : List (Option Byte)} {i n : ℕ} {bytes : Bytes}

theorem writeBlock_some (h : i + bytes.length ≤ cells.length) :
    writeBlock (some cells) i bytes = some (some (written cells i bytes)) := if_pos h

theorem length_written (h : i + bytes.length ≤ cells.length) :
    (written cells i bytes).length = cells.length := by
  simp only [written, List.length_append, List.length_take, List.length_map, List.length_drop]
  omega

theorem length_take_append_map (h : i + bytes.length ≤ cells.length) :
    (cells.take i ++ bytes.map some).length = i + bytes.length := by
  simp only [List.length_append, List.length_take, List.length_map]
  omega

theorem take_written (h : i + bytes.length ≤ cells.length) :
    (written cells i bytes).take (i + bytes.length) = cells.take i ++ bytes.map some :=
  List.take_left' (length_take_append_map h)

theorem drop_written (h : i + bytes.length ≤ cells.length) (hn : i + bytes.length ≤ n) :
    (written cells i bytes).drop n = cells.drop n := by
  have hl := length_take_append_map h
  rw [written, List.drop_append, List.drop_eq_nil_of_le (by omega), hl, List.drop_drop,
    List.nil_append, Nat.add_sub_cancel' hn]

end

theorem readLoop_end {bufSize : Size} {totalIn : ℕ} (h : ¬ (totalIn : ℤ) < bufSize.toInt)
    (buf : Block) (chunks : List Bytes) :
    readLoop bufSize buf totalIn chunks = .returned (some buf) chunks := by
  cases chunks with
  | nil => rw [readLoop, if_neg h]
  | cons chunk chunks =>
    cases buf with
    | none => rw [readLoop, if_neg h]
    | some cells => rw [readLoop, if_neg h]

/-- The result of the loop when the stream has enough bytes. -/
def Filled (bufSize : Size) (cells : List (Option Byte)) (totalIn : ℕ) (chunks : List Bytes) :
    Prop :=
  ∃ payload rest, payload.length = bufSize.toNat - totalIn ∧
    chunks.flatten = payload ++ rest.flatten ∧
    readLoop bufSize (some cells) totalIn chunks = .returned (some (some
      (cells.take totalIn ++ payload.map some ++ cells.drop bufSize.toNat))) rest

theorem filled_end {bufSize : Size} (hb : bufSize.toNat < 2 ^ 63) (cells : List (Option Byte))
    (chunks : List Bytes) : Filled bufSize cells bufSize.toNat chunks := by
  have hi : bufSize.toInt = bufSize.toNat := toInt_of_lt hb
  refine ⟨[], chunks, by simp, rfl, ?_⟩
  rw [readLoop_end (by omega)]
  simp

/-- A buffer that is large enough gets the next bytes of the stream, however they arrive. -/
theorem readLoop_some {bufSize : Size} (hb : bufSize.toNat < 2 ^ 63) {cells : List (Option Byte)}
    {totalIn : ℕ} (ht : totalIn ≤ bufSize.toNat) (hc : bufSize.toNat ≤ cells.length)
    (chunks : List Bytes) :
    (chunks.flatten.length < bufSize.toNat - totalIn ∧
      readLoop bufSize (some cells) totalIn chunks = .returned none []) ∨
    Filled bufSize cells totalIn chunks := by
  have hi : bufSize.toInt = bufSize.toNat := toInt_of_lt hb
  induction chunks generalizing cells totalIn with
  | nil =>
    rcases Nat.eq_or_lt_of_le ht with rfl | hl
    · exact .inr (filled_end hb cells [])
    · left
      rw [readLoop, if_pos (by omega)]
      exact ⟨by rw [List.flatten_nil, List.length_nil]; omega, rfl⟩
  | cons chunk chunks ih =>
    rcases Nat.eq_or_lt_of_le ht with rfl | hl
    · exact .inr (filled_end hb cells _)
    have hw : totalIn + (chunk.take (bufSize.toNat - totalIn)).length ≤ cells.length := by
      rw [List.length_take]
      omega
    have hr : readLoop bufSize (some cells) totalIn (chunk :: chunks) =
        if chunk.length ≤ bufSize.toNat - totalIn then
          readLoop bufSize
            (some (written cells totalIn (chunk.take (bufSize.toNat - totalIn))))
            (totalIn + chunk.length) chunks
        else .returned
          (some (some (written cells totalIn (chunk.take (bufSize.toNat - totalIn)))))
          (chunk.drop (bufSize.toNat - totalIn) :: chunks) := by
      rw [readLoop, if_pos (by omega)]
      simp only [writeBlock_some hw]
    by_cases hn : chunk.length ≤ bufSize.toNat - totalIn
    · -- The whole chunk is written, and the loop goes on.
      rw [if_pos hn, List.take_of_length_le hn] at hr
      rw [List.take_of_length_le hn] at hw
      have hcells := length_written hw
      have hrec : (chunks.flatten.length < bufSize.toNat - (totalIn + chunk.length) ∧
          readLoop bufSize (some (written cells totalIn chunk)) (totalIn + chunk.length) chunks =
            .returned none []) ∨
          Filled bufSize (written cells totalIn chunk) (totalIn + chunk.length) chunks :=
        ih (by omega) (by omega)
      rcases hrec with ⟨hs, he⟩ | ⟨payload, rest, hp, hf, he⟩
      · left
        rw [hr, he, List.flatten_cons, List.length_append]
        exact ⟨by omega, rfl⟩
      · right
        refine ⟨chunk ++ payload, rest, ?_, ?_, ?_⟩
        · rw [List.length_append]
          omega
        · rw [List.flatten_cons, hf, List.append_assoc]
        · rw [hr, he, take_written hw, drop_written hw (by omega), List.map_append]
          simp only [List.append_assoc]
    · -- What was asked for is the rest of the buffer, and the loop ends.
      have hl' : (chunk.take (bufSize.toNat - totalIn)).length = bufSize.toNat - totalIn := by
        rw [List.length_take]
        omega
      right
      refine ⟨chunk.take (bufSize.toNat - totalIn),
        chunk.drop (bufSize.toNat - totalIn) :: chunks, hl', ?_, ?_⟩
      · rw [List.flatten_cons, List.flatten_cons, ← List.append_assoc, List.take_append_drop]
      · rw [hr, if_neg hn, written, hl', Nat.add_sub_cancel' ht]

theorem readLoop_null {bufSize : Size} (h : 0 < bufSize.toInt) (chunks : List Bytes) :
    readLoop bufSize none 0 chunks = .returned none chunks := by
  cases chunks with
  | nil => rw [readLoop, if_pos (by simpa using h)]
  | cons chunk chunks => rw [readLoop, if_pos (by simpa using h)]

theorem readSizeBlock_cases (chunks : List Bytes) :
    (chunks.flatten.length < 8 ∧ readSizeBlock chunks = .returned none []) ∨
    ∃ len rest, chunks.flatten = encode 8 len ++ rest.flatten ∧
      readSizeBlock chunks = .returned (some len) rest := by
  have h8 : (8 : Size).toNat = 8 := rfl
  have hb : (8 : Size).toNat < 2 ^ 63 := by decide
  have hc : (8 : Size).toNat ≤ (fresh 8).length := by decide
  rcases readLoop_some hb (Nat.zero_le _) hc chunks with ⟨hs, he⟩ | ⟨payload, rest, hp, hf, he⟩
  · exact .inl ⟨hs, by rw [readSizeBlock, he]⟩
  · right
    rw [Nat.sub_zero, h8] at hp
    refine ⟨decode 8 payload, rest, ?_, ?_⟩
    · rw [LittleEndian.encode_decode hp, hf]
    · rw [readSizeBlock, he]
      simp [fresh, Function.comp_def]

theorem encode_append_inj {len len' : Size} {t t' : Bytes}
    (h : encode 8 len ++ t = encode 8 len' ++ t') : len = len' ∧ t = t' := by
  obtain ⟨he, ht⟩ := List.append_inj h (by simp)
  refine ⟨?_, ht⟩
  have hd := congrArg (decode 8) he
  simpa using hd

theorem fillString_some {len : Size} (hl : len.toNat < 2 ^ 63) {cells : List (Option Byte)}
    (hc : len.toNat + 1 ≤ cells.length) (chunks : List Bytes) :
    (chunks.flatten.length < len.toNat ∧ fillString len (some cells) chunks = .returned none []) ∨
    ∃ payload rest cells', payload.length = len.toNat ∧ chunks.flatten = payload ++ rest.flatten ∧
      fillString len (some cells) chunks = .returned (some (some cells')) rest ∧
      payload.map some ++ [some 0] <+: cells' ∧ cells'.length = cells.length := by
  rcases readLoop_some hl (Nat.zero_le _) (by omega : len.toNat ≤ cells.length) chunks with
    ⟨hs, he⟩ | ⟨payload, rest, hp, hf, he⟩
  · exact .inl ⟨hs, by rw [fillString, he]⟩
  · right
    rw [Nat.sub_zero] at hp
    rw [List.take_zero, List.nil_append] at he
    have hm : (payload.map some ++ cells.drop len.toNat).length = cells.length := by
      simp only [List.length_append, List.length_map, List.length_drop]
      omega
    have hw : len.toNat + ([0] : Bytes).length ≤
        (payload.map some ++ cells.drop len.toNat).length := by
      rw [hm, List.length_singleton]
      exact hc
    refine ⟨payload, rest, _, hp, hf, ?_, ?_, (length_written hw).trans hm⟩
    · rw [fillString, he]
      simp only [writeBlock_some hw]
    · rw [written, List.take_left' (by rw [List.length_map, hp])]
      exact List.prefix_append _ _

theorem fillString_null_of_pos {len : Size} (h : 0 < len.toInt) (chunks : List Bytes) :
    fillString len none chunks = .returned none chunks := by
  rw [fillString, readLoop_null h]

theorem fillString_null_of_nonpos {len : Size} (h : ¬ 0 < len.toInt) (chunks : List Bytes) :
    fillString len none chunks = .undefined := by
  rw [fillString, readLoop_end (by simpa using h)]
  rfl

theorem fillString_nonpos {len : Size} (h : ¬ 0 < len.toInt) (cells : List (Option Byte))
    (chunks : List Bytes) : fillString len (some cells) chunks =
      if len.toNat + 1 ≤ cells.length then
        .returned (some (some (written cells len.toNat [0]))) chunks
      else .undefined := by
  rw [fillString, readLoop_end (by simpa using h)]
  by_cases hc : len.toNat + 1 ≤ cells.length
  · rw [if_pos hc]
    simp [writeBlock, hc]
  · rw [if_neg hc]
    simp [writeBlock, hc]

theorem fillString_refused {malloc : ℕ → Bool} {len : Size} (h : RefusedLength malloc len)
    (chunks : List Bytes) :
    fillString len ((allocate malloc (len + 1)).map fresh) chunks = .returned none chunks := by
  rw [allocate_of_not_grants h.2.1 h.2.2, Option.map_none, fillString_null_of_pos h.toInt_pos]

/-- The NUL is stored outside of any buffer. -/
theorem fillString_undefined {malloc : ℕ → Bool} {len : Size} (h : UndefinedLength malloc len)
    (chunks : List Bytes) :
    fillString len ((allocate malloc (len + 1)).map fresh) chunks = .undefined := by
  cases ha : allocate malloc (len + 1) with
  | none => rw [Option.map_none, fillString_null_of_nonpos h.not_toInt_pos]
  | some size =>
    have hl := h.allocate_le ha
    have hs : (fresh size).length = size := List.length_replicate
    rw [Option.map_some, fillString_nonpos h.not_toInt_pos, if_neg (by omega)]

variable {malloc : ℕ → Bool} {maxlen len : Size} {val : CallerBuffer maxlen}
  {chunks rest : List Bytes}

/-- How a call ends that has read the length and has a buffer to fill. -/
def SafeFill (maxlen len : Size) (o : Completion (Option Block)) (chunks : List Bytes) : Prop :=
  match o with
  | .undefined => False
  | .returned none _ => True
  | .returned (some buf) rest => ∃ (payload : Bytes) (cells : List (Option Byte)),
      payload.length = len.toNat ∧ chunks.flatten = payload ++ rest.flatten ∧
      buf = some cells ∧ HoldsString maxlen len payload cells

theorem safeFill_some (hl : len.toNat < 2 ^ 63) {cells : List (Option Byte)}
    (hc : len.toNat + 1 ≤ cells.length) (h0 : maxlen = 0 → cells.length = len.toNat + 1)
    (hm : maxlen ≠ 0 → len.toNat < maxlen.toNat ∧ cells.length = maxlen.toNat)
    (chunks : List Bytes) : SafeFill maxlen len (fillString len (some cells) chunks) chunks := by
  rcases fillString_some hl hc chunks with ⟨-, he⟩ | ⟨payload, rest, cells', hp, hf, he, hx, hn⟩
  · rw [he]
    trivial
  · rw [he]
    refine ⟨payload, cells', hp, hf, rfl, hx, ?_, ?_⟩
    · intro h
      rw [hn, h0 h]
    · intro h
      rw [hn]
      exact hm h

theorem not_safeFill_negative (hl : 2 ^ 63 ≤ len.toNat) (cells : List (Option Byte))
    (chunks : List Bytes) : ¬ SafeFill maxlen len (fillString len (some cells) chunks) chunks := by
  have hu : UndefinedLength (fun _ => true) len := .inl hl
  rw [fillString_nonpos hu.not_toInt_pos]
  split
  · rintro ⟨payload, _, hp, hf, -, -⟩
    have hn := congrArg List.length hf
    rw [List.length_append] at hn
    omega
  · exact id

theorem safeFill_allocated (malloc : ℕ → Bool) (len : Size) (chunks : List Bytes) :
    SafeFill 0 len (fillString len ((allocate malloc (len + 1)).map fresh) chunks) chunks ↔
      len.toNat < 2 ^ 63 ∧ (0 < len.toNat ∨ malloc 1 = true) := by
  rcases length_cases malloc len with hg | hr | hu
  · have hl : len.toNat < 2 ^ 63 := by
      have := hg.1
      omega
    have hf : (fresh (len.toNat + 1)).length = len.toNat + 1 := List.length_replicate
    have hm : 0 < len.toNat ∨ malloc 1 = true := by
      rcases Nat.eq_zero_or_pos len.toNat with h0 | h0
      · right
        have := hg.2
        rwa [h0] at this
      · exact .inl h0
    rw [allocate_of_grants hg]
    apply iff_of_true _ ⟨hl, hm⟩
    exact safeFill_some hl hf.ge (fun _ => hf) (fun h => absurd rfl h) chunks
  · rw [fillString_refused hr]
    exact iff_of_true trivial ⟨hr.2.1, .inl hr.1⟩
  · rw [fillString_undefined hu]
    apply iff_of_false id
    rintro ⟨hl, hm⟩
    rcases hu with hn | ⟨h0, hg⟩
    · omega
    · rcases hm with hm | hm
      · omega
      · exact hg ⟨by decide, hm⟩

theorem safeFill_given (hm : ¬ maxlen = 0) (hl : ¬ maxlen ≤ len) (val : CallerBuffer maxlen)
    (chunks : List Bytes) :
    SafeFill maxlen len (fillString len (some val.cells) chunks) chunks ↔ len.toNat < 2 ^ 63 := by
  have hlt : len.toNat < maxlen.toNat := by
    rw [BitVec.le_def] at hl
    omega
  have hc := val.length_cells
  constructor
  · intro h
    by_contra hn
    exact not_safeFill_negative (by omega) _ _ h
  · intro h
    apply safeFill_some h
    · omega
    · intro h0
      exact absurd h0 hm
    · intro _
      exact ⟨hlt, hc⟩

theorem safeLength_iff (malloc : ℕ → Bool) (maxlen len : Size) :
    SafeLength malloc maxlen len ↔
      if maxlen = 0 then len.toNat < 2 ^ 63 ∧ (0 < len.toNat ∨ malloc 1 = true)
      else maxlen ≤ len ∨ len.toNat < 2 ^ 63 := by
  unfold SafeLength
  split
  · next h => simp [h]
  · next h => simp only [ne_eq, h, not_false_eq_true, true_and, true_or, and_true]

theorem safeRead_of_size (h : readSizeBlock chunks = .returned (some len) rest)
    (hf : chunks.flatten = encode 8 len ++ rest.flatten) :
    SafeRead malloc maxlen val chunks ↔ SafeLength malloc maxlen len := by
  have hs : ∀ o : Completion (Option Block), (match o with
      | .undefined => False
      | .returned none _ => True
      | .returned (some buf) rest =>
          ∃ (len : Size) (payload : Bytes) (cells : List (Option Byte)),
            payload.length = len.toNat ∧
            chunks.flatten = encode 8 len ++ (payload ++ rest.flatten) ∧
            buf = some cells ∧ HoldsString maxlen len payload cells) ↔
      SafeFill maxlen len o rest := by
    rintro (- | ⟨- | buf, rest'⟩)
    · exact Iff.rfl
    · exact Iff.rfl
    · constructor
      · rintro ⟨len', payload, cells, hp, hc, hb, hh⟩
        obtain ⟨rfl, hr⟩ := encode_append_inj (hf.symm.trans hc)
        exact ⟨payload, cells, hp, hr, hb, hh⟩
      · rintro ⟨payload, cells, hp, hr, hb, hh⟩
        exact ⟨len, payload, cells, hp, by rw [hf, hr], hb, hh⟩
  rw [SafeRead, readStringBlock, h, safeLength_iff]
  simp only
  rw [hs]
  split
  · next h0 =>
    subst h0
    exact safeFill_allocated malloc len rest
  · next h0 =>
    split
    · next hl =>
      constructor
      · intro _
        exact .inl hl
      · intro _
        trivial
    · next hl =>
      rw [safeFill_given h0 hl]
      simp [hl]

theorem safeRead_of_flatten {t : Bytes} (h : chunks.flatten = encode 8 len ++ t)
    (malloc : ℕ → Bool) (val : CallerBuffer maxlen) :
    SafeRead malloc maxlen val chunks ↔ SafeLength malloc maxlen len := by
  rcases readSizeBlock_cases chunks with ⟨hs, -⟩ | ⟨len', rest, hf, he⟩
  · rw [h, List.length_append, LittleEndian.length_encode] at hs
    omega
  · obtain ⟨rfl, -⟩ := encode_append_inj (h.symm.trans hf)
    exact safeRead_of_size he hf

/-- The call is safe exactly if the length that the stream starts with, if any, is safe. -/
theorem safeRead_iff (malloc : ℕ → Bool) (maxlen : Size) (val : CallerBuffer maxlen)
    (chunks : List Bytes) : SafeRead malloc maxlen val chunks ↔
      ∀ len t, chunks.flatten = encode 8 len ++ t → SafeLength malloc maxlen len := by
  constructor
  · intro h len t ht
    exact (safeRead_of_flatten ht malloc val).mp h
  · intro h
    rcases readSizeBlock_cases chunks with ⟨-, he⟩ | ⟨len, rest, hf, -⟩
    · rw [SafeRead, readStringBlock, he]
      trivial
    · exact (safeRead_of_flatten hf malloc val).mpr (h len _ hf)

/-- The largest length: no byte is allocated, none is read, and the NUL is written at index -1. -/
theorem not_safeRead_max : ¬ ∀ (malloc : ℕ → Bool) (maxlen : Size) (val : CallerBuffer maxlen)
    (chunks : List Bytes), SafeRead malloc maxlen val chunks := by
  intro h
  have hf : [encode 8 (-1 : Size)].flatten = encode 8 (-1) ++ [] := by simp
  have hs := (safeRead_of_flatten hf (fun _ => true) ⟨[], rfl⟩).mp (h _ 0 _ _)
  unfold SafeLength at hs
  revert hs
  decide

/-- The value and the rest of the stream are those of `readString`. -/
theorem readStringBlock_readString (malloc : ℕ → Bool) (val : CallerBuffer 0)
    (chunks : List Bytes) :
    match readStringBlock malloc 0 val chunks with
    | .undefined => (readString malloc 0).run chunks.flatten = ([], none)
    | .returned none rest =>
        (readString malloc 0).run chunks.flatten = ([], some (none, rest.flatten))
    | .returned (some buf) rest => ∃ payload cells, buf = some cells ∧
        payload.map some ++ [some 0] <+: cells ∧
        (readString malloc 0).run chunks.flatten = ([], some (some payload, rest.flatten)) := by
  rcases readSizeBlock_cases chunks with ⟨hs, he⟩ | ⟨len, rest, hf, he⟩
  · rw [readStringBlock, he]
    exact readString_short hs
  rw [readStringBlock, he]
  simp only [if_true, hf]
  rcases length_cases malloc len with hg | hr | hu
  · have hl : len.toNat < 2 ^ 63 := by
      have := hg.1
      omega
    have hc : len.toNat + 1 ≤ (fresh (len.toNat + 1)).length := List.length_replicate.ge
    rw [allocate_of_grants hg, Option.map_some, readString_granted hg]
    rcases fillString_some hl hc rest with ⟨hs, hx⟩ | ⟨payload, rest', cells, hp, hf', hx, hc', -⟩
    · rw [hx, if_neg (by omega)]
      rfl
    · rw [hx, hf', if_pos (by rw [List.length_append]; omega), List.take_left' hp,
        List.drop_left' hp]
      exact ⟨payload, cells, rfl, hc', rfl⟩
  · rw [fillString_refused hr]
    exact readString_refused hr _
  · rw [fillString_undefined hu]
    exact readString_undefined hu _

end Voyeur
