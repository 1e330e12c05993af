import Voyeur.Allocation.Arrays

/-! # The handlers keep to their own blocks

Each handler on a heap refines the handler that counts what it leaves: it runs the same
callbacks, never touches a block that it does not own, and frees each of its blocks at
most once. The blocks that it owns in the end have the sizes that were counted.
-/

namespace Voyeur.OnHeap

open Allocator (Heap)
open Allocator.Heap (Adds)
open StreamReader (Refines)

/-- A field that was asked for is held, and nothing stands for the others. -/
inductive HoldsIf {β ρ : Type} (Holds : β → ρ → Blocks → Prop) :
    Option β → Option ρ → Blocks → Prop
  | unasked : HoldsIf Holds none none 0
  | asked {b : β} {r : ρ} {m : Blocks} : Holds b r m → HoldsIf Holds (some b) (some r) m

section

variable {h₀ h : State} {m m' : Blocks}

theorem HoldsIf.string? {b : Option Bytes} {p : Option Pointer}
    (hh : HoldsIf HoldsString b p m) (hl : Live m h) : nullable h.string? p.join = some b := by
  cases hh with
  | unasked => rfl
  | asked hh =>
    have hs := hh.string? hl
    obtain ⟨a, rfl, -⟩ := hh
    exact congrArg (Option.map some) hs

theorem HoldsIf.strings? {l : Option (List Bytes)} {a : Option Strings}
    (hh : HoldsIf HoldsStrings l a m) (hl : Live m h) :
    nullable h.strings? (a.bind Strings.array) = some l := by
  cases hh with
  | unasked => rfl
  | @asked l a m hh =>
    have hs := hh.strings? hl
    obtain ⟨array, es, ha, -⟩ := hh
    rw [ha] at hs
    rw [Option.bind_some, ha]
    exact congrArg (Option.map some) hs

theorem HoldsIf.freeString {b : Option Bytes} {p : Option Pointer}
    (hh : HoldsIf HoldsString b p m') (ho : Adds h₀ (m' + m) h) :
    ∃ h', p.forM free h = pure ((), h') ∧ Adds h₀ m h' := by
  cases hh with
  | unasked => exact ⟨h, rfl, by rwa [zero_add] at ho⟩
  | asked hh => exact hh.free ho

theorem HoldsIf.freeStrings {l : Option (List Bytes)} {a : Option Strings}
    (hh : HoldsIf HoldsStrings l a m') (ho : Adds h₀ (m' + m) h) :
    ∃ h', a.forM Strings.free h = pure ((), h') ∧ Adds h₀ m h' := by
  cases hh with
  | unasked => exact ⟨h, rfl, by rwa [zero_add] at ho⟩
  | asked hh => exact hh.free ho

end

/-- A handler that leaves blocks of the sizes `kept` beside those of `h₀`. -/
def Leaves (h₀ : State) (kept : Multiset ℕ) (y : Unit × State) : Prop :=
  ∃ m, sizes m = kept ∧ Adds h₀ m y.2

theorem holding_pair (malloc : ℕ → Bool) {β γ : Type} (held : Multiset ℕ) (f : Layout β)
    (g : Layout γ) (k : β × γ → Rd (Multiset ℕ)) :
    holding held ((Layout.pair f g).keeping malloc) k =
      holding held (f.keeping malloc) fun b =>
        holding (f.blocks b + held) (g.keeping malloc) fun c => k (b, c) := by
  rw [holding, Layout.keeping, StreamReader.bind_assoc]
  refine congrArg (f.keeping malloc >>= ·) (funext fun x => ?_)
  cases x with
  | error kept => rfl
  | ok b =>
    dsimp only
    rw [holding, StreamReader.bind_assoc]
    refine congrArg (g.keeping malloc >>= ·) (funext fun y => ?_)
    cases y with
    | error kept => exact congrArg StreamReader.done (add_assoc _ _ _)
    | ok c => rfl

section

variable {malloc : ℕ → Bool} {context : Context} {h₀ h : State} {m : Blocks}

/-- A program on the heap that reads a field of a payload into blocks of its own. -/
structure Field (malloc : ℕ → Bool) {β ρ : Type} (f : Layout β) (Holds : β → ρ → Blocks → Prop)
    (p : Hd (Option ρ)) : Prop where
  reads : ∀ {h₀ h : State} {m : Blocks}, Adds h₀ m h →
    Refines (Reads Holds h₀ m) (f.keeping malloc) (p h)
  sizes : ∀ {b : β} {r : ρ} {m : Blocks}, Holds b r m → sizes m = f.blocks b

theorem intField : Field malloc .word HoldsWord (lift readInt) where
  reads := readWord_refines
  sizes := by
    rintro b r m ⟨-, rfl⟩
    rfl

theorem pidField : Field malloc .word HoldsWord (lift readPid) := intField

theorem stringField : Field malloc .string HoldsString (readString malloc none 0) where
  reads := fun ho => Refines.map_left (readString_refines ho)
  sizes := HoldsString.sizes

theorem arrayField : Field malloc .array HoldsStrings (readArray malloc) where
  reads := readArray_refines
  sizes := HoldsStrings.sizes

theorem Field.readIf {β ρ : Type} {f : Layout β} {Holds : β → ρ → Blocks → Prop}
    {p : Hd (Option ρ)} (hf : Field malloc f Holds p) (asked : Bool) :
    Field malloc (.opt asked f) (HoldsIf Holds) (readIf asked p) where
  reads := by
    intro h₀ h m ho
    cases asked with
    | false => exact .pure (.ok .unasked (by rwa [zero_add]))
    | true =>
      refine (hf.reads ho).bind ?_
      rintro x y hr
      cases hr with
      | ok hh ho' => exact .pure (.ok (.asked hh) ho')
      | error hk ho' => exact .pure (.error hk ho')
  sizes := by
    rintro b r m hh
    cases hh with
    | unasked => rfl
    | asked hh => exact hf.sizes hh

theorem Field.returnOnFail {β ρ : Type} {f : Layout β} {Holds : β → ρ → Blocks → Prop}
    {p : Hd (Option ρ)} (hf : Field malloc f Holds p) {k : ρ → Hd Unit}
    {k' : β → Rd (Multiset ℕ)} {held : Multiset ℕ} (ho : Adds h₀ m h) (hm : OnHeap.sizes m = held)
    (hk : ∀ b r m' h', Holds b r m' → Adds h₀ (m' + m) h' →
      OnHeap.sizes (m' + m) = f.blocks b + held → Refines (Leaves h₀) (k' b) (k r h')) :
    Refines (Leaves h₀) (holding held (f.keeping malloc) k') (OnHeap.returnOnFail p k h) := by
  refine (hf.reads ho).bind ?_
  rintro x y hr
  cases hr with
  | ok hh ho' => exact hk _ _ _ _ hh ho' (by rw [sizes_add, hf.sizes hh, hm])
  | @error kept m' h' hs ho' => exact .pure ⟨m' + m, by rw [sizes_add, hs, hm], ho'⟩

theorem returnOnFail_word {p : Hd (Option CInt)} (hf : Field malloc .word HoldsWord p)
    {k : CInt → Hd Unit} {k' : CInt → Rd (Multiset ℕ)} {held : Multiset ℕ} (ho : Adds h₀ m h)
    (hm : OnHeap.sizes m = held) (hk : ∀ v h', Adds h₀ m h' →
      OnHeap.sizes m = Layout.word.blocks v + held → Refines (Leaves h₀) (k' v) (k v h')) :
    Refines (Leaves h₀) (holding held (Layout.word.keeping malloc) k')
      (OnHeap.returnOnFail p k h) := by
  refine hf.returnOnFail ho hm fun v r m' h' hh ho' hs => ?_
  obtain ⟨rfl, rfl⟩ := hh
  rw [zero_add] at ho' hs
  exact hk v h' ho' hs

theorem runCallback_eq {args : State → Option Event} {e : Event} (ha : args h = some e) :
    runCallback context e.type args h = lift (Voyeur.runCallback context e) h := by
  rw [runCallback]
  cases hcb : (context.observer e.type).cb with
  | none =>
    rw [lift, Voyeur.runCallback, hcb]
    rfl
  | some cb => exact bind_of_pure (load_of_some ha)

theorem runCallback_refines {args : State → Option Event} {rest : Hd Unit} {e : Event}
    {kept : Multiset ℕ} (ha : args h = some e)
    (hr : ∃ h', rest h = pure ((), h') ∧ Leaves h₀ kept ((), h')) :
    Refines (Leaves h₀)
      (do
        Voyeur.runCallback context e
        return kept)
      ((do
        runCallback context e.type args
        rest : Hd Unit) h) := by
  obtain ⟨h', hrest, hl⟩ := hr
  have hb : (runCallback context e.type args >>= fun _ => rest) h =
      Voyeur.runCallback context e >>= fun _ => rest h := by
    change runCallback context e.type args h >>= _ = _
    rw [runCallback_eq ha]
    exact lift_bind (Voyeur.runCallback context e) (fun _ => rest) h
  rw [hb, hrest]
  refine (Refines.refl (Voyeur.runCallback context e)).bind ?_
  rintro - - -
  exact .pure hl

theorem handleExec_refines (h₀ : State) :
    Refines (Leaves h₀) (keepEvent malloc context EventType.exec.number)
      (handleExec malloc context h₀) := by
  rw [keepEvent, EventType.ofNumber_number]
  simp only [payload, execPayload, holding_pair]
  rw [handleExec]
  refine stringField.returnOnFail (.refl h₀) sizes_zero fun file pfile mfile h₁ hfile o₁ s₁ => ?_
  refine arrayField.returnOnFail o₁ s₁ fun argv pargv margv h₂ hargv o₂ s₂ => ?_
  refine (arrayField.readIf _).returnOnFail o₂ s₂ fun envp penvp menvp h₃ henvp o₃ s₃ => ?_
  refine (stringField.readIf _).returnOnFail o₃ s₃ fun path ppath mpath h₄ hpath o₄ s₄ => ?_
  refine (stringField.readIf _).returnOnFail o₄ s₄ fun cwd pcwd mcwd h₅ hcwd o₅ s₅ => ?_
  refine returnOnFail_word pidField o₅ s₅ fun pid h₆ o₆ s₆ => ?_
  refine returnOnFail_word pidField o₆ s₆ fun ppid h₇ o₇ _ => ?_
  have hl := live_of_adds o₇
  simp only [live_add] at hl
  obtain ⟨lcwd, lpath, lenvp, largv, lfile, -⟩ := hl
  have hargs : execArgs pfile pargv penvp ppath pcwd pid ppid h₇ =
      some (.exec file argv envp path cwd pid ppid) := by
    rw [execArgs, hfile.string? lfile, hargv.strings? largv, henvp.strings? lenvp,
      hpath.string? lpath, hcwd.string? lcwd]
    rfl
  refine runCallback_refines hargs ?_
  have hsum : mcwd + (mpath + (menvp + (margv + (mfile + 0)))) =
      mfile + (margv + (menvp + (mpath + (mcwd + 0)))) := by ac_rfl
  rw [hsum] at o₇
  obtain ⟨h₈, f₈, o₈⟩ := hfile.free o₇
  obtain ⟨h₉, f₉, o₉⟩ := hargv.free o₈
  obtain ⟨h₁₀, f₁₀, o₁₀⟩ := henvp.freeStrings o₉
  obtain ⟨h₁₁, f₁₁, o₁₁⟩ := hpath.freeString o₁₀
  obtain ⟨h₁₂, f₁₂, o₁₂⟩ := hcwd.freeString o₁₁
  refine ⟨h₁₂, ?_, 0, rfl, o₁₂⟩
  rw [bind_of_pure f₈, bind_of_pure f₉, bind_of_pure f₁₀, bind_of_pure f₁₁, f₁₂]

theorem handleOpen_refines (h₀ : State) :
    Refines (Leaves h₀) (keepEvent malloc context EventType.open_.number)
      (handleOpen malloc context h₀) := by
  rw [keepEvent, EventType.ofNumber_number]
  simp only [payload, openPayload, holding_pair]
  rw [handleOpen]
  refine stringField.returnOnFail (.refl h₀) sizes_zero fun path ppath mpath h₁ hpath o₁ s₁ => ?_
  refine returnOnFail_word intField o₁ s₁ fun oflag h₂ o₂ s₂ => ?_
  refine returnOnFail_word intField o₂ s₂ fun mode h₃ o₃ s₃ => ?_
  refine returnOnFail_word intField o₃ s₃ fun retval h₄ o₄ s₄ => ?_
  refine (stringField.readIf _).returnOnFail o₄ s₄ fun cwd pcwd mcwd h₅ hcwd o₅ s₅ => ?_
  refine returnOnFail_word pidField o₅ s₅ fun pid h₆ o₆ _ => ?_
  have hl := live_of_adds o₆
  simp only [live_add] at hl
  obtain ⟨lcwd, lpath, -⟩ := hl
  have hargs : openArgs ppath oflag mode pcwd retval pid h₆ =
      some (.open_ path oflag mode cwd retval pid) := by
    rw [openArgs, hpath.string? lpath, hcwd.string? lcwd]
    rfl
  refine runCallback_refines hargs ?_
  have hsum : mcwd + (mpath + 0) = mpath + mcwd := by rw [add_zero, add_comm]
  rw [hsum] at o₆
  obtain ⟨h₇, f₇, o₇⟩ := hpath.free o₆
  refine ⟨h₇, f₇, mcwd, ?_, o₇⟩
  cases hcwd with
  | unasked => rfl
  | asked hcwd => exact hcwd.sizes

theorem handleWords_refines (h₀ : State) {p₁ p₂ p₃ : Hd (Option CInt)}
    (f₁ : Field malloc .word HoldsWord p₁) (f₂ : Field malloc .word HoldsWord p₂)
    (f₃ : Field malloc .word HoldsWord p₃) {type : EventType} {e : CInt → CInt → CInt → Event}
    (he : ∀ u v w, (e u v w).kept = 0 ∧ (e u v w).type = type) :
    Refines (Leaves h₀)
      (holding 0 ((Layout.pair .word (.pair .word .word)).keeping malloc) fun (u, v, w) => do
        Voyeur.runCallback context (e u v w)
        return (e u v w).kept)
      ((returnOnFail p₁ fun u => returnOnFail p₂ fun v => returnOnFail p₃ fun w =>
        runCallback context type fun _ => some (e u v w)) h₀) := by
  rw [holding_pair]
  simp only [holding_pair]
  refine returnOnFail_word f₁ (.refl h₀) sizes_zero fun u h₁ o₁ s₁ => ?_
  refine returnOnFail_word f₂ o₁ s₁ fun v h₂ o₂ s₂ => ?_
  refine returnOnFail_word f₃ o₂ s₂ fun w h₃ o₃ _ => ?_
  obtain ⟨hk, rfl⟩ := he u v w
  rw [runCallback_eq rfl, hk]
  refine (Refines.refl (Voyeur.runCallback context (e u v w))).bind ?_
  rintro - - -
  exact .pure ⟨0, rfl, o₃⟩

theorem handleEvent_refines (h₀ : State) (type : CInt) :
    Refines (Leaves h₀) (keepEvent malloc context type) (handleEvent malloc context type h₀) := by
  cases ht : EventType.ofNumber type with
  | none =>
    rw [keepEvent, handleEvent, ht]
    exact .pure ⟨0, rfl, .refl h₀⟩
  | some t =>
    obtain rfl := EventType.ofNumber_eq_some ht
    rw [handleEvent, ht]
    cases t with
    | exec => exact handleExec_refines h₀
    | open_ => exact handleOpen_refines h₀
    | exit =>
      rw [keepEvent, ht]
      exact handleWords_refines h₀ intField pidField pidField fun _ _ _ => ⟨rfl, rfl⟩
    | close =>
      rw [keepEvent, ht]
      exact handleWords_refines h₀ intField intField pidField fun _ _ _ => ⟨rfl, rfl⟩

theorem handleMessage_refines {kept : Multiset ℕ} (hk : ∃ m, sizes m = kept ∧ Adds h₀ m h) :
    Refines (fun x y => x.1 = y.1 ∧ ∃ m, sizes m = x.2 ∧ Adds h₀ m y.2)
      (keepMessage malloc context kept) (handleMessage malloc context h) := by
  rw [handleMessage, lift_bind]
  refine (Refines.refl readMsgType).bind ?_
  rintro (_ | msgtype) _ rfl
  · exact .pure ⟨rfl, hk⟩
  dsimp only
  by_cases hd : msgtype = MsgType.done.number
  · rw [if_pos hd, if_pos hd]
    exact .pure ⟨rfl, hk⟩
  rw [if_neg hd, if_neg hd]
  by_cases he : msgtype = MsgType.event.number
  · rw [if_pos he, if_pos he, lift_bind]
    refine (Refines.refl readEventType).bind ?_
    rintro (_ | type) _ rfl
    · exact .pure ⟨rfl, hk⟩
    · obtain ⟨m, hm, ho⟩ := hk
      refine (handleEvent_refines h type).bind ?_
      rintro left ⟨⟨⟩, h'⟩ ⟨m', hm', ho'⟩
      exact .pure ⟨rfl, m' + m, by rw [sizes_add, hm, hm'], ho.trans ho'⟩
  · rw [if_neg he, if_neg he]
    exact .pure ⟨rfl, hk⟩

end

end Voyeur.OnHeap
