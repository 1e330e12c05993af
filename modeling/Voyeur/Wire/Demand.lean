import Voyeur.Stream.Demand
import Voyeur.Wire.Payload

/-! # What a message asks for

A message asks for at least one byte with every read, whatever the client announces, and
runs at most one callback.
-/

namespace Voyeur

open StreamReader (Modest)

variable (malloc : ℕ → Bool) (context : Context)

theorem modest_doRead (buf : Buffer) (bufSize : Size) : (doRead buf bufSize).Modest 0 := by
  unfold doRead
  split
  · next hpos =>
    cases buf with
    | none => exact .pure _
    | some size =>
      refine .read ?_ fun r => .pure _
      rw [BitVec.toInt_eq_toNat_cond] at hpos
      split at hpos <;> omega
  · exact .pure _

theorem modest_readWord (k : ℕ) : (readWord k).Modest 0 :=
  (modest_doRead _ _).bind_zero fun _ => .pure _

theorem modest_store (buf : Buffer) (index : ℤ) : (store buf index).Modest 0 := by
  cases buf with
  | none => exact .fault
  | some size =>
    rw [store]
    split
    · exact .pure _
    · exact .fault

theorem modest_readString (maxlen : Size) : (readString malloc maxlen).Modest 0 := by
  refine (modest_readWord 8).bind_zero fun len => ?_
  cases len with
  | none => exact .pure _
  | some len =>
    dsimp only
    split
    · exact .pure _
    · refine (modest_doRead _ _).bind_zero fun bytes => ?_
      cases bytes with
      | none => exact .pure _
      | some bytes => exact (modest_store _ _).bind_zero fun _ => .pure _

theorem modest_readEntries (slots : Buffer) (n i : ℕ) :
    (readEntries malloc slots n i).Modest 0 := by
  induction n generalizing i with
  | zero => exact .pure _
  | succ n ih =>
    refine (modest_readString malloc 0).bind_zero fun entry => ?_
    cases entry with
    | none => exact .pure _
    | some entry =>
      refine (modest_store slots i).bind_zero fun _ => ?_
      exact (ih (i + 1)).bind_zero fun _ => .pure _

theorem modest_readArray : (readArray malloc).Modest 0 := by
  refine (modest_readWord 4).bind_zero fun count => ?_
  cases count with
  | none => exact .pure _
  | some count =>
    dsimp only
    rw [readStrings]
    split
    · exact .fault
    · refine (modest_readEntries malloc _ _ 0).bind_zero fun entries => ?_
      cases entries with
      | none => exact .pure _
      | some entries => exact (modest_store _ _).bind_zero fun _ => .pure _

theorem modest_layout {β : Type} (f : Layout β) : (f.reader malloc).Modest 0 := by
  induction f with
  | word => exact modest_readWord 4
  | string => exact modest_readString malloc 0
  | array => exact modest_readArray malloc
  | opt asked f ih =>
    cases asked with
    | false => exact .pure _
    | true => exact ih.bind_zero fun _ => .pure _
  | pair f g ihf ihg =>
    refine ihf.bind_zero fun b => ?_
    cases b with
    | none => exact .pure _
    | some b => exact ihg.bind_zero fun _ => .pure _

theorem modest_handleEvent (type : CInt) : (handleEvent malloc context type).Modest 1 := by
  cases ht : EventType.ofNumber type with
  | none =>
    rw [handleEvent_unknown _ _ ht]
    exact .pure _
  | some t =>
    obtain rfl := EventType.ofNumber_eq_some ht
    rw [handleEvent_eq]
    refine (modest_layout malloc _).bind_zero fun args => ?_
    cases args with
    | none => exact .pure _
    | some args =>
      dsimp only
      rw [runCallback]
      split
      · exact .emit (.pure _)
      · exact .pure _

theorem modest_handleMessage : (handleMessage malloc context).Modest 1 := by
  refine (modest_readWord 4).bind_zero fun msgtype => ?_
  cases msgtype with
  | none => exact .pure _
  | some msgtype =>
    dsimp only
    split
    · exact .pure _
    split
    · refine (modest_readWord 4).bind_zero fun type => ?_
      cases type with
      | none => exact .pure _
      | some type =>
        have hb := (modest_handleEvent malloc context type).bind (k := 0)
          fun _ => Modest.pure Verdict.handled
        exact hb
    · exact .pure _

end Voyeur
