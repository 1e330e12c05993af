import Mathlib.Algebra.Order.Group.Multiset
import Voyeur.Stream.Refinement
import Voyeur.Wire.Payload

/-! # What a handler leaves allocated

The readers of payloads with the blocks that they own, as a collection of sizes. A reader
that gives up leaves what it has read so far. A handler that got all of its payload leaves
the directory of an `open` event, if there is one.
-/

namespace Voyeur

open StreamReader (Refines)

/-- The block of a string, and its NUL. -/
def stringBlock (b : Bytes) : ℕ := b.length + 1

/-- The blocks of an array: its slots, its `NULL`, and its strings. -/
def arrayBlocks (l : List Bytes) : Multiset ℕ :=
  (8 * (l.length + 1)) ::ₘ (l.map stringBlock : List ℕ)

/-- What a callback's event has in blocks that the handler does not free. -/
def Event.kept : Event → Multiset ℕ
  | .open_ _ _ _ (some cwd) _ _ => {stringBlock cwd}
  | _ => 0

/-- What a reader got, or the sizes of the blocks that it leaves instead. -/
abbrev Got (β : Type) := Except (Multiset ℕ) β

section

variable (malloc : ℕ → Bool)

/-- The value of a field that owns no block as long as it is not complete. -/
def keepNothing {β : Type} (p : Rd (Option β)) : Rd (Got β) := do
  return (← p).elim (.error 0) .ok

/-- What a loop got, behind a string that it got before. -/
def Got.cons (b : Bytes) : Got (List Bytes) → Got (List Bytes)
  | .error kept => .error (stringBlock b ::ₘ kept)
  | .ok l => .ok (b :: l)

/-- `readEntries` with the strings that it leaves. -/
def keepEntries (slots : Buffer) : (n i : ℕ) → Rd (Got (List Bytes))
  | 0, _ => pure (.ok [])
  | n + 1, i => do
    match ← readString malloc 0 with
    | none => return .error 0
    | some entry =>
      store slots i
      return (← keepEntries slots n (i + 1)).cons entry

/-- `readStrings` with the slots and the strings that it leaves. -/
def keepStrings (count : CInt) : Rd (Got (List Bytes)) :=
  if count = intMax then .fault
  else do
    let slots := (allocate malloc (8 * (count + 1).signExtend 64)).map (· / 8)
    match ← keepEntries malloc slots count.toInt.toNat 0 with
    | .error kept => return .error ((slots.toList.map (8 * ·) : List ℕ) + kept)
    | .ok entries =>
      store slots count.toInt
      return .ok entries

def keepArray : Rd (Got (List Bytes)) := do
  match ← readInt with
  | none => return .error 0
  | some count => keepStrings malloc count

namespace Layout

/-- The blocks of a payload. -/
def blocks : {β : Type} → Layout β → β → Multiset ℕ
  | _, .word, _ => 0
  | _, .string, b => {stringBlock b}
  | _, .array, l => arrayBlocks l
  | _, .opt _ _, none => 0
  | _, .opt _ f, some b => f.blocks b
  | _, .pair f g, (b, c) => g.blocks c + f.blocks b

/-- The program that reads a payload, with what it leaves if the payload is not complete. -/
def keeping : {β : Type} → Layout β → Rd (Got β)
  | _, .word => keepNothing readInt
  | _, .string => keepNothing (readString malloc 0)
  | _, .array => keepArray malloc
  | _, .opt asked f => if asked then do return (← f.keeping).map some else pure (.ok none)
  | _, .pair f g => do
    match ← f.keeping with
    | .error kept => return .error kept
    | .ok b =>
      match ← g.keeping with
      | .error kept => return .error (kept + f.blocks b)
      | .ok c => return .ok (b, c)

end Layout

/-- Go on with a value while blocks of the sizes `held` are owned. -/
def holding {β : Type} (held : Multiset ℕ) (p : Rd (Got β)) (k : β → Rd (Multiset ℕ)) :
    Rd (Multiset ℕ) := do
  match ← p with
  | .error kept => return kept + held
  | .ok b => k b

variable (context : Context)

/-- A handler with the sizes of the blocks that it leaves. -/
def keepEvent (type : CInt) : Rd (Multiset ℕ) :=
  match EventType.ofNumber type with
  | some t =>
    holding 0 ((payload context t).layout.keeping malloc) fun args => do
      runCallback context ((payload context t).event args)
      return ((payload context t).event args).kept
  | none => return 0

/-- `handle_message`, and the sizes of all blocks that were left so far. -/
def keepMessage (kept : Multiset ℕ) : Rd (Verdict × Multiset ℕ) := do
  match ← readMsgType with
  | none => return (.failed, kept)
  | some msgtype =>
    if msgtype = MsgType.done.number then
      return (.done, kept)
    else if msgtype = MsgType.event.number then
      match ← readEventType with
      | none => return (.failed, kept)
      | some type =>
        let left ← keepEvent malloc context type
        return (.handled, left + kept)
    else
      return (.unknown, kept)

end

section

variable {malloc : ℕ → Bool} {β : Type}

/-- The value, or nothing at all. -/
def Got.Is (r : Option β) (x : Got β) : Prop := x.toOption = r

theorem keepNothing_refines (p : Rd (Option β)) : Refines Got.Is p (keepNothing p) := by
  have h := Refines.bind_pure (g := fun b => (b.elim (.error 0) .ok : Got β)) p fun _ => rfl
  refine h.mono ?_
  rintro b c rfl
  cases b <;> rfl

theorem keepEntries_refines (slots : Buffer) (n i : ℕ) :
    Refines Got.Is (readEntries malloc slots n i) (keepEntries malloc slots n i) := by
  induction n generalizing i with
  | zero => exact .pure rfl
  | succ n ih =>
    refine (Refines.refl (readString malloc 0)).bind ?_
    rintro (_ | entry) _ rfl
    · exact .pure rfl
    · refine (Refines.refl (store slots i)).bind ?_
      rintro - - -
      refine (ih (i + 1)).bind ?_
      rintro r (kept | entries) hr
      · obtain rfl : none = r := hr
        exact .pure rfl
      · obtain rfl : some entries = r := hr
        exact .pure rfl

theorem keepStrings_refines (count : CInt) :
    Refines Got.Is (readStrings malloc count) (keepStrings malloc count) := by
  unfold readStrings keepStrings
  split
  · exact .fault
  · refine (keepEntries_refines _ _ _).bind ?_
    rintro r (kept | entries) hr
    · obtain rfl : none = r := hr
      exact .pure rfl
    · obtain rfl : some entries = r := hr
      refine (Refines.refl (store _ _)).bind ?_
      rintro - - -
      exact .pure rfl

theorem keepArray_refines : Refines Got.Is (readArray malloc) (keepArray malloc) := by
  refine (Refines.refl readInt).bind ?_
  rintro (_ | count) _ rfl
  · exact .pure rfl
  · exact keepStrings_refines count

theorem Layout.keeping_refines (f : Layout β) :
    Refines Got.Is (f.reader malloc) (f.keeping malloc) := by
  induction f with
  | word => exact keepNothing_refines _
  | string => exact keepNothing_refines _
  | array => exact keepArray_refines
  | opt asked f ih =>
    cases asked with
    | false => exact .pure rfl
    | true =>
      refine ih.bind ?_
      rintro r (kept | b) hr
      · obtain rfl : none = r := hr
        exact .pure rfl
      · obtain rfl : some b = r := hr
        exact .pure rfl
  | pair f g ihf ihg =>
    refine ihf.bind ?_
    rintro r (kept | b) hr
    · obtain rfl : none = r := hr
      exact .pure rfl
    · obtain rfl : some b = r := hr
      refine ihg.bind ?_
      rintro r (kept | c) hr
      · obtain rfl : none = r := hr
        exact .pure rfl
      · obtain rfl : some c = r := hr
        exact .pure rfl

variable (malloc) (context : Context)

theorem keepEvent_refines (type : CInt) :
    Refines (fun _ _ => True) (handleEvent malloc context type)
      (keepEvent malloc context type) := by
  cases ht : EventType.ofNumber type with
  | none =>
    rw [handleEvent_unknown _ _ ht, keepEvent, ht]
    exact .pure trivial
  | some t =>
    obtain rfl := EventType.ofNumber_eq_some ht
    rw [handleEvent_eq, keepEvent, ht]
    refine (Layout.keeping_refines _).bind ?_
    rintro r (kept | args) hr
    · obtain rfl : none = r := hr
      exact .pure trivial
    · obtain rfl : some args = r := hr
      refine Refines.mono (Refines.bind_pure (runCallback context _) fun _ => rfl) ?_
      exact fun _ _ _ => trivial

/-- What is left behind makes no difference to what a message does. -/
theorem keepMessage_refines (kept : Multiset ℕ) :
    Refines (fun v y => v = y.1) (handleMessage malloc context)
      (keepMessage malloc context kept) := by
  refine (Refines.refl readMsgType).bind ?_
  rintro (_ | msgtype) _ rfl
  · exact .pure rfl
  · dsimp only
    split
    · exact .pure rfl
    split
    · refine (Refines.refl readEventType).bind ?_
      rintro (_ | type) _ rfl
      · exact .pure rfl
      · refine (keepEvent_refines malloc context type).bind ?_
        rintro - left -
        exact .pure rfl
    · exact .pure rfl

end

end Voyeur
