import Voyeur.Wire.Fields

/-! # Layouts of payloads

A payload is a sequence of words, strings and arrays, some of which are only
there when they were asked for. A layout says which streams start with a complete
payload, which ones end a handler early, and which ones are undefined. The
handlers read exactly the layouts of their events.
-/

namespace Voyeur

open LittleEndian (encode decode)
open StreamReader (Accepts)

/-- The layout of a payload with a value in `β`. -/
inductive Layout : Type → Type 1 where
  | word : Layout CInt
  | string : Layout Bytes
  | array : Layout (List Bytes)
  | opt {β : Type} (asked : Bool) (f : Layout β) : Layout (Option β)
  | pair {β γ : Type} (f : Layout β) (g : Layout γ) : Layout (β × γ)

/-- Go on with the value of a read, unless it fails. -/
def readPair {β γ : Type} (p : Rd (Option β)) (q : Rd (Option γ)) : Rd (Option (β × γ)) := do
  match ← p with
  | none => return none
  | some b => return (← q).map (b, ·)

namespace Layout

variable {β γ : Type} {malloc : ℕ → Bool}

/-- The bytes of a payload. -/
def bytes : {β : Type} → Layout β → β → Bytes
  | _, .word, v => encode 4 v
  | _, .string, b => stringBytes b
  | _, .array, l => arrayBytes l
  | _, .opt _ _, none => []
  | _, .opt _ f, some b => f.bytes b
  | _, .pair f g, (b, c) => f.bytes b ++ g.bytes c

/-- The values that a payload can carry: sizes and counts are in the range of their types. -/
def Valid : {β : Type} → Layout β → β → Prop
  | _, .word, _ => True
  | _, .string, b => b.length + 1 < 2 ^ 63
  | _, .array, l => l.length < intMax.toNat ∧ ∀ b ∈ l, b.length + 1 < 2 ^ 63
  | _, .opt asked _, none => asked = false
  | _, .opt asked f, some b => asked = true ∧ f.Valid b
  | _, .pair f g, (b, c) => f.Valid b ∧ g.Valid c

/-- The allocator grants every buffer that the payload needs. -/
def Granted (malloc : ℕ → Bool) : {β : Type} → Layout β → β → Prop
  | _, .word, _ => True
  | _, .string, b => GrantsString malloc b.length
  | _, .array, l => GrantsArray malloc l.length ∧ ∀ b ∈ l, GrantsString malloc b.length
  | _, .opt _ _, none => True
  | _, .opt _ f, some b => f.Granted malloc b
  | _, .pair f g, (b, c) => f.Granted malloc b ∧ g.Granted malloc c

/-- The payload breaks off at a length whose buffer the allocator refuses, in front of `t`. -/
def Refused (malloc : ℕ → Bool) : {β : Type} → Layout β → Bytes → Bytes → Prop
  | _, .word, _, _ => False
  | _, .string, s, t => ∃ len, RefusedLength malloc len ∧ s = encode 8 len ++ t
  | _, .array, s, t => ArrayRefused malloc s t
  | _, .opt asked f, s, t => asked = true ∧ f.Refused malloc s t
  | _, .pair f g, s, t => f.Refused malloc s t ∨
      ∃ b u, f.Valid b ∧ f.Granted malloc b ∧ s = f.bytes b ++ u ∧ g.Refused malloc u t

/-- The payload leads to a store outside a buffer or to a signed overflow. -/
def Undefined (malloc : ℕ → Bool) : {β : Type} → Layout β → Bytes → Prop
  | _, .word, _ => False
  | _, .string, s => ∃ len t, UndefinedLength malloc len ∧ s = encode 8 len ++ t
  | _, .array, s => ArrayUndefined malloc s
  | _, .opt asked f, s => asked = true ∧ f.Undefined malloc s
  | _, .pair f g, s => f.Undefined malloc s ∨
      ∃ b u, f.Valid b ∧ f.Granted malloc b ∧ s = f.bytes b ++ u ∧ g.Undefined malloc u

/-- The program that reads a payload. -/
def reader (malloc : ℕ → Bool) : {β : Type} → Layout β → Rd (Option β)
  | _, .word => readInt
  | _, .string => readString malloc 0
  | _, .array => readArray malloc
  | _, .opt asked f => readIf asked (f.reader malloc)
  | _, .pair f g => readPair (f.reader malloc) (g.reader malloc)

theorem accepts (f : Layout β) {b : β} (hv : f.Valid b) (hg : f.Granted malloc b) :
    Accepts (f.reader malloc) (f.bytes b) [] (some b) := by
  induction f with
  | word => exact readInt_accepts b
  | string => exact readString_accepts hg
  | array => exact readArray_accepts hv.1 hg.1 hg.2
  | opt asked f ih =>
    cases b with
    | none =>
      obtain rfl : asked = false := hv
      exact Accepts.pure (some none)
    | some b =>
      obtain rfl : asked = true := hv.1
      intro s
      rw [bytes, reader, readIf, if_pos rfl, StreamReader.run_bind_of_value (ih hv.2 hg s)]
      rfl
  | pair f g ihf ihg =>
    obtain ⟨b, c⟩ := b
    intro s
    rw [bytes, List.append_assoc, reader, readPair,
      StreamReader.run_bind_of_value (ihf hv.1 hg.1 _)]
    simp only
    rw [StreamReader.run_bind_of_value (ihg hv.2 hg.2 s)]
    rfl

theorem run_refused (f : Layout β) {s t : Bytes} (h : f.Refused malloc s t) :
    (f.reader malloc).run s = ([], some (none, t)) := by
  induction f generalizing s with
  | word => exact h.elim
  | string =>
    obtain ⟨len, hr, rfl⟩ := h
    exact readString_refused hr t
  | array => exact readArray_refused h
  | opt asked f ih =>
    rw [reader, readIf, if_pos h.1, StreamReader.run_bind_of_value (ih h.2)]
    rfl
  | pair f g ihf ihg =>
    rw [reader, readPair]
    rcases h with h | ⟨b, u, hv, hg, rfl, h⟩
    · rw [StreamReader.run_bind_of_value (ihf h)]
      rfl
    · rw [StreamReader.run_bind_of_value (f.accepts hv hg u)]
      simp only
      rw [StreamReader.run_bind_of_value (ihg h)]
      rfl

theorem run_undefined (f : Layout β) {s : Bytes} (h : f.Undefined malloc s) :
    (f.reader malloc).run s = ([], none) := by
  induction f generalizing s with
  | word => exact h.elim
  | string =>
    obtain ⟨len, t, hu, rfl⟩ := h
    exact readString_undefined hu t
  | array => exact readArray_undefined h
  | opt asked f ih => rw [reader, readIf, if_pos h.1, StreamReader.run_bind_of_fault (ih h.2)]
  | pair f g ihf ihg =>
    rw [reader, readPair]
    rcases h with h | ⟨b, u, hv, hg, rfl, h⟩
    · rw [StreamReader.run_bind_of_fault (ihf h)]
    · rw [StreamReader.run_bind_of_value (f.accepts hv hg u)]
      simp only
      rw [StreamReader.run_bind_of_fault (ihg h)]
      rfl

theorem run_cases (malloc : ℕ → Bool) (f : Layout β) (s : Bytes) :
    (∃ b t, f.Valid b ∧ f.Granted malloc b ∧ s = f.bytes b ++ t) ∨
    (∃ t, f.Refused malloc s t) ∨ f.Undefined malloc s ∨
    (f.reader malloc).run s = ([], some (none, [])) := by
  induction f generalizing s with
  | word =>
    rcases word_cases 4 s with h | ⟨v, t, rfl⟩
    · exact .inr (.inr (.inr (readWord_short (by decide) h)))
    · exact .inl ⟨v, t, trivial, trivial, rfl⟩
  | string =>
    rcases string_cases malloc s with ⟨b, t, hb, rfl⟩ | ⟨len, t, hr, rfl⟩ | ⟨len, t, hu, rfl⟩ | h
    · exact .inl ⟨b, t, hb.1, hb, rfl⟩
    · exact .inr (.inl ⟨t, len, hr, rfl⟩)
    · exact .inr (.inr (.inl ⟨len, t, hu, rfl⟩))
    · exact .inr (.inr (.inr h))
  | array =>
    rcases array_cases malloc s with ⟨l, t, hl, ha, hg, rfl⟩ | ⟨t, h⟩ | h | h
    · exact .inl ⟨l, t, ⟨hl, fun b hb => (hg b hb).1⟩, ⟨ha, hg⟩, rfl⟩
    · exact .inr (.inl ⟨t, h⟩)
    · exact .inr (.inr (.inl h))
    · exact .inr (.inr (.inr h))
  | opt asked f ih =>
    cases asked with
    | false => exact .inl ⟨none, s, rfl, trivial, rfl⟩
    | true =>
      rcases ih s with ⟨b, t, hv, hg, rfl⟩ | ⟨t, h⟩ | h | h
      · exact .inl ⟨some b, t, ⟨rfl, hv⟩, hg, rfl⟩
      · exact .inr (.inl ⟨t, rfl, h⟩)
      · exact .inr (.inr (.inl ⟨rfl, h⟩))
      · right; right; right
        rw [reader, readIf, if_pos rfl, StreamReader.run_bind_of_value h]
        rfl
  | pair f g ihf ihg =>
    rcases ihf s with ⟨b, u, hv, hg, rfl⟩ | ⟨t, h⟩ | h | h
    · rcases ihg u with ⟨c, t, hv', hg', rfl⟩ | ⟨t, h⟩ | h | h
      · exact .inl ⟨(b, c), t, ⟨hv, hv'⟩, ⟨hg, hg'⟩, by rw [bytes, List.append_assoc]⟩
      · exact .inr (.inl ⟨t, .inr ⟨b, u, hv, hg, rfl, h⟩⟩)
      · exact .inr (.inr (.inl (.inr ⟨b, u, hv, hg, rfl, h⟩)))
      · right; right; right
        rw [reader, readPair, StreamReader.run_bind_of_value (f.accepts hv hg u)]
        simp only
        rw [StreamReader.run_bind_of_value h]
        rfl
    · exact .inr (.inl ⟨t, .inl h⟩)
    · exact .inr (.inr (.inl (.inl h)))
    · right; right; right
      rw [reader, readPair, StreamReader.run_bind_of_value h]
      rfl

theorem Valid.granted {f : Layout β} {b : β} (h : f.Valid b) : f.Granted (fun _ => true) b := by
  induction f with
  | word => trivial
  | string => exact ⟨h, rfl⟩
  | array => exact ⟨rfl, fun b hb => ⟨h.2 b hb, rfl⟩⟩
  | opt asked f ih =>
    cases b with
    | none => trivial
    | some b => exact ih h.2
  | pair f g ihf ihg => exact ⟨ihf h.1, ihg h.2⟩

end Layout

end Voyeur
