import Mathlib.Algebra.Ring.Nat
import Voyeur.Environment.Chain

/-! # The array of an augmented environment

`voyeur_augment_environment` counts the entries of `envp` in an `unsigned`, allocates
five slots more, and fills them in place. As long as the counter does not wrap, the
array holds the entries of `augmentEnvironment`, and every store hits an allocated slot.
So the function returns an environment with the given values exactly if no older entry
hides them and the counter has room.
-/

namespace Voyeur

/-- The 32-bit `unsigned`. -/
abbrev CUnsigned := BitVec 32

/-- One slot of an allocated array of pointers. -/
inductive Slot | uninit | null | entry (s : CStr)
  deriving DecidableEq, Repr

/-- The entries of an array up to its `NULL`; an array without one cannot be read. -/
def terminated : List Slot → Option (List CStr)
  | .entry s :: slots => (terminated slots).map (s :: ·)
  | .null :: _ => some []
  | .uninit :: _ => none
  | [] => none

/-- The assignment `newenvp[i] = slot`, which is undefined outside of the allocation. -/
def setSlot (slots : List Slot) (i : CUnsigned) (slot : Slot) : Option (List Slot) :=
  if i.toNat < slots.length then some (slots.set i.toNat slot) else none

/-- `memcpy(newenvp, envp, sizeof(char*) * count)`. -/
def copySlots (slots : List Slot) (envp : List CStr) (count : CUnsigned) : Option (List Slot) :=
  if count.toNat ≤ slots.length then
    some ((envp.take count.toNat).map .entry ++ slots.drop count.toNat)
  else none

/-- The variables of the scan; the value and the index of `existing_insert` are set together. -/
structure Scan where
  envlen : CUnsigned
  existingInsert : Option (CUnsigned × CStr)
  deriving DecidableEq, Repr

/-- One round of the scan, which ends at the `NULL` behind the last entry. -/
def scanStep (envp : List CStr) (s : Scan) : Option Scan :=
  match envp[s.envlen.toNat]? with
  | none => none
  | some entry => some
      { envlen := s.envlen + 1
        existingInsert := match valueOf insertLibs entry with
          | some value => some (s.envlen, value)
          | none => s.existingInsert }

/-- The scan, for at most `fuel` rounds. -/
def scanLoop (envp : List CStr) : (fuel : ℕ) → Scan → Option Scan
  | 0, _ => none
  | fuel + 1, s => match scanStep envp s with
      | none => some s
      | some s' => scanLoop envp fuel s'

/-- The second half of `voyeur_augment_environment`: the array is allocated and filled. -/
def fillSlots (envp : List CStr) (libs opts sockpath : CStr) (s : Scan) :
    Option (List Slot) := do
  let newenvp := List.replicate (s.envlen + 5).toNat Slot.uninit
  let newenvp ← copySlots newenvp envp s.envlen
  let newenvp ← setSlot newenvp (s.envlen + 0) (.entry (envEntry varLibs libs))
  let newenvp ← setSlot newenvp (s.envlen + 1) (.entry (envEntry varOpts opts))
  let newenvp ← setSlot newenvp (s.envlen + 2) (.entry (envEntry varSocket sockpath))
  match s.existingInsert with
  | some (i, value) =>
      let newenvp ← setSlot newenvp i (.entry (insertEntry (some value) libs))
      setSlot newenvp (s.envlen + 3) .null
  | none =>
      let newenvp ← setSlot newenvp (s.envlen + 3) (.entry (insertEntry none libs))
      setSlot newenvp (s.envlen + 4) .null

/--
`voyeur_augment_environment` with the array it returns. There is no result if the scan takes
more than `fuel` rounds, or if a store misses the array; `malloc` is taken to succeed.
-/
def augmentSlots (fuel : ℕ) (envp : List CStr) (libs opts sockpath : CStr) :
    Option (List Slot) :=
  (scanLoop envp fuel ⟨0, none⟩).bind (fillSlots envp libs opts sockpath)

/-- The function returns, and the array up to its `NULL` has these entries. -/
def Augments (envp : List CStr) (libs opts sockpath : CStr) (environ : List CStr) : Prop :=
  ∃ fuel slots, augmentSlots fuel envp libs opts sockpath = some slots ∧
    terminated slots = some environ

variable {envp : List CStr} {libs opts sockpath : CStr}

/-- An entry that the scan found, with its index in an `unsigned`. -/
def narrow (found : ℕ × CStr) : CUnsigned × CStr := (BitVec.ofNat 32 found.1, found.2)

theorem scanStep_cons {pre envp : List CStr} {entry : CStr} (h : pre.length < 2 ^ 32)
    (found : Option (ℕ × CStr)) :
    scanStep (pre ++ entry :: envp) ⟨BitVec.ofNat 32 pre.length, found.map narrow⟩ =
      some ⟨BitVec.ofNat 32 (pre.length + 1), (match valueOf insertLibs entry with
        | some value => some (pre.length, value)
        | none => found).map narrow⟩ := by
  have hi : (BitVec.ofNat 32 pre.length).toNat = pre.length := by simpa using h
  simp only [scanStep, hi, List.getElem?_append_right le_rfl, Nat.sub_self,
    List.getElem?_cons_zero]
  cases valueOf insertLibs entry with
  | none => simp [BitVec.ofNat_add]
  | some value => simp [narrow, BitVec.ofNat_add]

theorem scanLoop_of_lt (pre : List CStr) {envp : List CStr} (h : pre.length + envp.length < 2 ^ 32)
    {fuel : ℕ} (hf : envp.length < fuel) (found : Option (ℕ × CStr)) :
    scanLoop (pre ++ envp) fuel ⟨BitVec.ofNat 32 pre.length, found.map narrow⟩ =
      some ⟨BitVec.ofNat 32 (pre.length + envp.length),
        (scanInsert envp pre.length found).map narrow⟩ := by
  induction envp generalizing pre fuel found with
  | nil =>
    cases fuel with
    | zero => simp at hf
    | succ fuel =>
      have hi : (BitVec.ofNat 32 pre.length).toNat = pre.length := by simpa using h
      simp [scanLoop, scanStep, hi, scanInsert]
  | cons entry envp ih =>
    cases fuel with
    | zero => simp at hf
    | succ fuel =>
      simp only [List.length_cons] at h hf
      rw [scanLoop, scanStep_cons (by omega), scanInsert]
      have hl : (pre ++ [entry]).length = pre.length + 1 := by simp
      have he : pre ++ entry :: envp = (pre ++ [entry]) ++ envp := by simp
      have hr := ih (pre ++ [entry]) (by omega) (Nat.lt_of_succ_lt_succ hf)
        (match valueOf insertLibs entry with
          | some value => some (pre.length, value)
          | none => found)
      rw [hl, ← he] at hr
      simp only [hr, List.length_cons]
      congr 3
      omega

theorem length_le_of_scanLoop {fuel : ℕ} {s s' : Scan} (h : scanLoop envp fuel s = some s') :
    envp.length ≤ s'.envlen.toNat := by
  induction fuel generalizing s with
  | zero => simp [scanLoop] at h
  | succ fuel ih =>
    rw [scanLoop] at h
    cases hs : scanStep envp s with
    | none =>
      rw [hs] at h
      obtain rfl : s = s' := Option.some.inj h
      cases he : envp[s.envlen.toNat]? with
      | none => exact List.getElem?_eq_none_iff.mp he
      | some entry => simp [scanStep, he] at hs
    | some t =>
      rw [hs] at h
      exact ih h

theorem scanLoop_unique {fuel fuel' : ℕ} {s t t' : Scan} (h : scanLoop envp fuel s = some t)
    (h' : scanLoop envp fuel' s = some t') : t = t' := by
  induction fuel generalizing fuel' s with
  | zero => simp [scanLoop] at h
  | succ fuel ih =>
    cases fuel' with
    | zero => simp [scanLoop] at h'
    | succ fuel' =>
      rw [scanLoop] at h h'
      cases hs : scanStep envp s with
      | none =>
        rw [hs] at h h'
        exact Option.some.inj (h.symm.trans h')
      | some u =>
        rw [hs] at h h'
        exact ih h h'

theorem toNat_unsigned_add {n : ℕ} {k : CUnsigned} (h : n + k.toNat < 2 ^ 32) :
    (BitVec.ofNat 32 n + k).toNat = n + k.toNat := by
  rw [BitVec.toNat_add, BitVec.toNat_ofNat, Nat.mod_add_mod, Nat.mod_eq_of_lt h]

theorem setSlot_right {xs ys : List Slot} {i : CUnsigned} {k : ℕ} (hi : i.toNat = xs.length + k)
    (hk : k < ys.length) (slot : Slot) :
    setSlot (xs ++ ys) i slot = some (xs ++ ys.set k slot) := by
  have hl : i.toNat < (xs ++ ys).length := by simp only [List.length_append]; omega
  have hs : (xs ++ ys).set i.toNat slot = xs ++ ys.set k slot := by
    rw [hi, List.set_append_right _ _ (by omega), Nat.add_sub_cancel_left]
  rw [setSlot, if_pos hl, hs]

theorem setSlot_left {xs ys : List Slot} {i : CUnsigned} (hi : i.toNat < xs.length)
    (slot : Slot) : setSlot (xs ++ ys) i slot = some (xs.set i.toNat slot ++ ys) := by
  have hl : i.toNat < (xs ++ ys).length := by simp only [List.length_append]; omega
  rw [setSlot, if_pos hl, List.set_append_left _ _ hi]

theorem terminated_map_entry (environ : List CStr) (slots : List Slot) :
    terminated (environ.map Slot.entry ++ Slot.null :: slots) = some environ := by
  induction environ with
  | nil => rfl
  | cons entry environ ih => simp [terminated, ih]

theorem copySlots_of_lt (h : envp.length + 5 < 2 ^ 32) :
    copySlots (List.replicate (BitVec.ofNat 32 envp.length + 5).toNat Slot.uninit) envp
      (BitVec.ofNat 32 envp.length) =
      some (envp.map .entry ++ [.uninit, .uninit, .uninit, .uninit, .uninit]) := by
  have h5 : (BitVec.ofNat 32 envp.length + 5).toNat = envp.length + 5 := toNat_unsigned_add h
  have hn : (BitVec.ofNat 32 envp.length).toNat = envp.length :=
    Nat.mod_eq_of_lt (by omega)
  have hr : List.replicate 5 Slot.uninit = [.uninit, .uninit, .uninit, .uninit, .uninit] := rfl
  rw [copySlots, h5, hn, if_pos (by simp), List.take_length, List.drop_replicate,
    Nat.add_sub_cancel_left, hr]

theorem fillSlots_of_lt (h : envp.length + 5 < 2 ^ 32) (libs opts sockpath : CStr) :
    ∃ rest, fillSlots envp libs opts sockpath
        ⟨BitVec.ofNat 32 envp.length, (scanInsert envp 0 none).map narrow⟩ =
      some ((augmentEnvironment envp libs opts sockpath).map .entry ++ .null :: rest) ∧
      (augmentEnvironment envp libs opts sockpath).length + 1 + rest.length =
        envp.length + 5 := by
  have hx : ∀ k : CUnsigned, k.toNat < 5 →
      (BitVec.ofNat 32 envp.length + k).toNat = (envp.map Slot.entry).length + k.toNat := by
    intro k hk
    rw [List.length_map]
    exact toNat_unsigned_add (by omega)
  simp only [fillSlots, copySlots_of_lt h, Option.bind_eq_bind, Option.bind_some]
  rw [setSlot_right (hx 0 (by decide)) (by simp)]
  simp only [Option.bind_some]
  rw [setSlot_right (hx 1 (by decide)) (by simp)]
  simp only [Option.bind_some]
  rw [setSlot_right (hx 2 (by decide)) (by simp)]
  simp only [Option.bind_some]
  rcases scanInsert_cases envp 0 none with ⟨hs, hn⟩ | ⟨pre, value, post, he, hn, hs⟩
  · simp only [hs, Option.map_none]
    rw [setSlot_right (hx 3 (by decide)) (by simp)]
    simp only [Option.bind_some]
    rw [setSlot_right (hx 4 (by decide)) (by simp)]
    refine ⟨[], ?_, ?_⟩
    · simp [augmentEnvironment, hs, List.set]
    · simp [augmentEnvironment, hs]
  · have hp : pre.length < envp.length := by simp [he]
    have hi : (BitVec.ofNat 32 pre.length).toNat = pre.length := Nat.mod_eq_of_lt (by omega)
    have h3 : (BitVec.ofNat 32 envp.length + 3).toNat =
        ((envp.map Slot.entry).set pre.length
          (.entry (insertEntry (some value) libs))).length + 3 := by
      rw [List.length_set]
      exact hx 3 (by decide)
    simp only [hs, Option.map_some, narrow, Nat.zero_add]
    rw [setSlot_left (by simpa [hi] using hp), hi]
    simp only [Option.bind_some]
    rw [setSlot_right h3 (by simp)]
    refine ⟨[.uninit], ?_, ?_⟩
    · simp [augmentEnvironment, hs, List.set, List.map_set, List.set_append_left _ _ hp]
    · simp [augmentEnvironment, hs]

theorem augmentSlots_of_lt (h : envp.length + 5 < 2 ^ 32) (libs opts sockpath : CStr) :
    ∃ rest, augmentSlots (envp.length + 1) envp libs opts sockpath =
      some ((augmentEnvironment envp libs opts sockpath).map .entry ++ .null :: rest) ∧
      (augmentEnvironment envp libs opts sockpath).length + 1 + rest.length =
        envp.length + 5 := by
  have hs : scanLoop envp (envp.length + 1) ⟨0, none⟩ =
      some ⟨BitVec.ofNat 32 envp.length, (scanInsert envp 0 none).map narrow⟩ := by
    have hl : ([] : List CStr).length + envp.length < 2 ^ 32 := by
      rw [List.length_nil]
      omega
    simpa using scanLoop_of_lt [] hl (Nat.lt_succ_self _) none
  obtain ⟨rest, hf, hl⟩ := fillSlots_of_lt h libs opts sockpath
  exact ⟨rest, by rw [augmentSlots, hs, Option.bind_some, hf], hl⟩

/-- From the limit on the scan does not end, or the array is smaller than what is copied to it. -/
theorem augmentSlots_of_wraps (h : 2 ^ 32 ≤ envp.length + 5) (fuel : ℕ) :
    augmentSlots fuel envp libs opts sockpath = none := by
  rw [augmentSlots]
  cases hs : scanLoop envp fuel ⟨0, none⟩ with
  | none => rfl
  | some s =>
    have hl := length_le_of_scanLoop hs
    have hc : ¬ s.envlen.toNat ≤ (List.replicate (s.envlen + 5).toNat Slot.uninit).length := by
      have hlt := s.envlen.isLt
      have h5 : (5 : CUnsigned).toNat = 5 := rfl
      rw [List.length_replicate, BitVec.toNat_add, h5]
      omega
    simp only [Option.bind_some, fillSlots, copySlots, if_neg hc]
    rfl

/-- The function returns exactly below the limit, and exactly the augmented environment. -/
theorem augments_iff {environ : List CStr} :
    Augments envp libs opts sockpath environ ↔
      envp.length + 5 < 2 ^ 32 ∧ environ = augmentEnvironment envp libs opts sockpath := by
  constructor
  · rintro ⟨fuel, slots, ha, ht⟩
    have hn : envp.length + 5 < 2 ^ 32 := by
      by_contra hn
      rw [augmentSlots_of_wraps (by omega)] at ha
      cases ha
    refine ⟨hn, ?_⟩
    obtain ⟨rest, hr, -⟩ := augmentSlots_of_lt hn libs opts sockpath
    obtain ⟨s, hs, hf⟩ := Option.bind_eq_some_iff.mp ha
    obtain ⟨s', hs', hf'⟩ := Option.bind_eq_some_iff.mp hr
    obtain rfl := scanLoop_unique hs hs'
    rw [hf] at hf'
    rw [Option.some.inj hf', terminated_map_entry] at ht
    exact (Option.some.inj ht).symm
  · rintro ⟨h, rfl⟩
    obtain ⟨rest, hr, -⟩ := augmentSlots_of_lt h libs opts sockpath
    exact ⟨_, _, hr, terminated_map_entry _ _⟩

/-- The function returns, and a process with the returned environment finds the given values. -/
def ReturnsDefined (envp : List CStr) (libs opts sockpath : CStr) : Prop :=
  ∃ environ, Augments envp libs opts sockpath environ ∧ Defines environ libs opts sockpath

/--
The given values are found in the returned environment exactly if no older entry with
another value comes first, and the counter does not wrap.
-/
theorem returnsDefined_iff (h : FitsBuffers libs opts sockpath) (envp : List CStr) :
    ReturnsDefined envp libs opts sockpath ↔
      Agrees envp libs opts sockpath ∧ envp.length + 5 < 2 ^ 32 := by
  rw [← defines_augmentEnvironment_iff h]
  constructor
  · rintro ⟨environ, ha, hd⟩
    obtain ⟨hl, rfl⟩ := augments_iff.mp ha
    exact ⟨hd, hl⟩
  · rintro ⟨hd, hl⟩
    exact ⟨_, augments_iff.mpr ⟨hl, rfl⟩, hd⟩

/-- Inside of an outer observer with the same values the inner process finds them. -/
theorem returnsDefined_same : ReturnsDefined [ascii ['A', '=', 'b'], varSocket ++ ascii ['s']]
    (ascii ['l']) (ascii ['@']) (ascii ['s']) :=
  (returnsDefined_iff ⟨by decide, by decide, by decide⟩ _).mpr
    ⟨⟨by decide, by decide, by decide⟩, by decide⟩

/-- The socket of an outer observer hides the one of this observer. -/
theorem not_returnsDefined_nested :
    ¬ ∀ (envp : List CStr) (libs opts sockpath : CStr), FitsBuffers libs opts sockpath →
      ReturnsDefined envp libs opts sockpath := by
  intro h
  obtain ⟨environ, ha, hd⟩ := h [varSocket ++ ascii ['o', 'u', 't']] (ascii ['l']) (ascii ['@'])
    (ascii ['i', 'n']) ⟨by decide, by decide, by decide⟩
  obtain ⟨-, rfl⟩ := augments_iff.mp ha
  have hs := hd.socket
  revert hs
  decide

end Voyeur
