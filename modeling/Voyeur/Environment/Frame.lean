import Voyeur.Environment.Slots

/-! # What an augmented environment keeps and adds

Every entry but the last preload entry stays at its index, and the new entries stand
behind the original ones. A lookup of a variable that is not one of the four therefore
has the same result as before.
-/

namespace Voyeur

/-- The byte `=`. -/
def eqSign : Byte := 0x3d

/-- The name of a variable, which has no `=` in it. -/
structure VarName where
  name : CStr
  no_eq : eqSign ∉ name

/-- The name and `=`, with which the entry of a variable starts. -/
def VarName.var (x : VarName) : CStr := x.name ++ [eqSign]

theorem VarName.eq_of_prefix_var {x y : VarName} (h : x.var <+: y.var) : x.var = y.var := by
  obtain ⟨t, ht⟩ := h
  have hx : ∀ (z : VarName) (t : CStr), (z.var ++ t).takeWhile (· != eqSign) = z.name := by
    intro z t
    have hn : ∀ b ∈ z.name, (b != eqSign) = true := by
      intro b hb
      simpa using fun he : b = eqSign => z.no_eq (he ▸ hb)
    rw [var, List.append_assoc, List.takeWhile_append_of_pos hn]
    simp
  have hy := hx y []
  rw [List.append_nil, ← ht, hx x t] at hy
  rw [var, var, hy]

theorem VarName.distinct {x y : VarName} (h : x.var ≠ y.var) : Distinct x.var y.var := by
  constructor
  · intro hp
    exact h (eq_of_prefix_var hp)
  · intro hp
    exact h (eq_of_prefix_var hp).symm

def nameLibs : VarName := ⟨varLibs.dropLast, by decide⟩
def nameOpts : VarName := ⟨varOpts.dropLast, by decide⟩
def nameSocket : VarName := ⟨varSocket.dropLast, by decide⟩
def nameInsert : VarName := ⟨insertLibs.dropLast, by decide⟩

@[simp] theorem var_nameLibs : nameLibs.var = varLibs := rfl
@[simp] theorem var_nameOpts : nameOpts.var = varOpts := rfl
@[simp] theorem var_nameSocket : nameSocket.var = varSocket := rfl
@[simp] theorem var_nameInsert : nameInsert.var = insertLibs := rfl

/-- The variable is none of the four that libvoyeur sets. -/
def VarName.Foreign (x : VarName) : Prop :=
  x.name ≠ nameLibs.name ∧ x.name ≠ nameOpts.name ∧ x.name ≠ nameSocket.name ∧
    x.name ≠ nameInsert.name

theorem VarName.distinct_of_name {x y : VarName} (h : x.name ≠ y.name) :
    Distinct x.var y.var := by
  apply distinct
  intro he
  exact h (List.append_cancel_right he)

/-- There is no `INSERT_LIBS` entry. -/
def NoInsert (envp : List CStr) : Prop := ∀ e ∈ envp, valueOf insertLibs e = none

/-- The last `INSERT_LIBS` entry has this index and this value. -/
structure LastInsert (envp : List CStr) (i : ℕ) (value : CStr) : Prop where
  entry : envp[i]? = some (insertLibs ++ value)
  last : ∀ j e, i < j → envp[j]? = some e → valueOf insertLibs e = none

/-- The value of `INSERT_LIBS` with the libraries in it, if there is a value already. -/
def extendedInsert (value libs : CStr) : CStr :=
  if libs <:+: value.take (2 * envBuf) then value else libs ++ ascii [':'] ++ value

/-- The entries of an augmented environment, in terms of the original ones. -/
structure AugmentedEntries (envp : List CStr) (libs opts sockpath : CStr)
    (environ : List CStr) : Prop where
  length_appended : NoInsert envp → environ.length = envp.length + 4
  length_replaced : ∀ i value, LastInsert envp i value → environ.length = envp.length + 3
  unchanged : ∀ i < envp.length, (∀ value, ¬ LastInsert envp i value) → environ[i]? = envp[i]?
  lookup : ∀ x : VarName, x.Foreign → getenv environ x.var = getenv envp x.var
  own : FitsBuffers libs opts sockpath →
    environ[envp.length]? = some (varLibs ++ libs) ∧
    environ[envp.length + 1]? = some (varOpts ++ opts) ∧
    environ[envp.length + 2]? = some (varSocket ++ sockpath)
  insert_appended : NoInsert envp → insertLibs.length + libs.length ≤ envBuf - 1 →
    environ[envp.length + 3]? = some (insertLibs ++ libs)
  insert_replaced : ∀ i value, LastInsert envp i value →
    insertLibs.length + (extendedInsert value libs).length ≤ envBuf - 1 →
    environ[i]? = some (insertLibs ++ extendedInsert value libs)

variable {envp : List CStr} {libs opts sockpath : CStr}

theorem lastInsert_append {pre post : List CStr} {value : CStr} (h : NoInsert post) :
    LastInsert (pre ++ (insertLibs ++ value) :: post) pre.length value := by
  constructor
  · simp
  · intro j e hj he
    rw [List.getElem?_append_right hj.le] at he
    obtain ⟨k, hk⟩ : ∃ k, j - pre.length = k + 1 := ⟨j - pre.length - 1, by omega⟩
    rw [hk, List.getElem?_cons_succ] at he
    exact h e (List.mem_of_getElem? he)

theorem LastInsert.unique {i j : ℕ} {value value' : CStr} (h : LastInsert envp i value)
    (h' : LastInsert envp j value') : i = j ∧ value = value' := by
  rcases lt_trichotomy i j with hij | rfl | hij
  · simpa using h.last j _ hij h'.entry
  · have he := h.entry.symm.trans h'.entry
    simpa using he
  · simpa using h'.last i _ hij h.entry

theorem LastInsert.not_noInsert {i : ℕ} {value : CStr} (h : LastInsert envp i value) :
    ¬ NoInsert envp := by
  intro hn
  simpa using hn _ (List.mem_of_getElem? h.entry)

/-- Either there is no preload entry, or the last one has been found. -/
theorem insert_cases (envp : List CStr) :
    NoInsert envp ∨ ∃ pre value post, envp = pre ++ (insertLibs ++ value) :: post ∧
      NoInsert post ∧ LastInsert envp pre.length value := by
  rcases preload_cases envp with hn | ⟨pre, value, post, rfl, hn⟩
  · exact .inl hn
  · exact .inr ⟨pre, value, post, rfl, hn, lastInsert_append hn⟩

theorem insertEntry_of_extended {value : CStr}
    (h : insertLibs.length + (extendedInsert value libs).length ≤ envBuf - 1) :
    insertEntry (some value) libs = insertLibs ++ extendedInsert value libs := by
  have hv : value.take (2 * envBuf) = value := by
    apply List.take_of_length_le
    unfold extendedInsert at h
    split at h
    · omega
    · simp only [List.length_append] at h
      omega
  have he : extendedInsert value libs = newInsert (some value) libs := by
    rw [extendedInsert, hv, newInsert]
  rw [he] at h ⊢
  exact insertEntry_of_fits h

theorem getenv_ownEntries_of_foreign {x : VarName} (h : x.Foreign) :
    getenv (ownEntries libs opts sockpath) x.var = none := by
  have hl : Distinct x.var varLibs := VarName.distinct_of_name h.1
  have ho : Distinct x.var varOpts := VarName.distinct_of_name h.2.1
  have hs : Distinct x.var varSocket := VarName.distinct_of_name h.2.2.1
  rw [ownEntries, getenv_cons, getenv_cons, getenv_cons, valueOf_envEntry hl (by decide),
    valueOf_envEntry ho (by decide), valueOf_envEntry hs (by decide)]
  rfl

theorem ownEntries_of_fits (h : FitsBuffers libs opts sockpath) :
    ownEntries libs opts sockpath = [varLibs ++ libs, varOpts ++ opts, varSocket ++ sockpath] := by
  rw [ownEntries, envEntry_of_fits h.libs, envEntry_of_fits h.opts, envEntry_of_fits h.socket]

theorem getenv_augment_of_foreign {x : VarName} (h : x.Foreign) (envp : List CStr) :
    getenv (augmentEnvironment envp libs opts sockpath) x.var = getenv envp x.var := by
  have hi : Distinct x.var insertLibs := VarName.distinct_of_name h.2.2.2
  rw [getenv_augment hi, getenv_ownEntries_of_foreign h, Option.or_none]

theorem getElem?_augment_own (envp : List CStr) (libs opts sockpath : CStr) {k : ℕ} (hk : k < 3) :
    (augmentEnvironment envp libs opts sockpath)[envp.length + k]? =
      (ownEntries libs opts sockpath)[k]? := by
  have hl : (ownEntries libs opts sockpath).length = 3 := rfl
  rcases insert_cases envp with hn | ⟨pre, value, post, rfl, hn, -⟩
  · rw [augment_of_none hn, List.append_assoc, List.getElem?_append_right (by omega),
      Nat.add_sub_cancel_left, List.getElem?_append_left (by omega)]
  · have hp : (pre ++ (insertLibs ++ value) :: post).length =
        (pre ++ insertEntry (some value) libs :: post).length := by simp
    rw [augment_of_last hn, hp, List.getElem?_append_right (by omega), Nat.add_sub_cancel_left]

theorem getElem?_augment_of_fits (h : FitsBuffers libs opts sockpath) (envp : List CStr) :
    (augmentEnvironment envp libs opts sockpath)[envp.length]? = some (varLibs ++ libs) ∧
    (augmentEnvironment envp libs opts sockpath)[envp.length + 1]? = some (varOpts ++ opts) ∧
    (augmentEnvironment envp libs opts sockpath)[envp.length + 2]? =
      some (varSocket ++ sockpath) := by
  have hk := fun (k : ℕ) (hk : k < 3) => getElem?_augment_own envp libs opts sockpath hk
  have h0 := hk 0 (by decide)
  rw [Nat.add_zero] at h0
  rw [h0, hk 1 (by decide), hk 2 (by decide), ownEntries_of_fits h]
  exact ⟨rfl, rfl, rfl⟩

theorem augmentedEntries_of_none (hn : NoInsert envp) :
    AugmentedEntries envp libs opts sockpath
      (augmentEnvironment envp libs opts sockpath) := by
  have hx : ∀ i value, ¬ LastInsert envp i value := fun i value h => h.not_noInsert hn
  constructor
  · intro _
    simp [augment_of_none hn, ownEntries]
  · intro i value h
    exact absurd h (hx i value)
  · intro i hi _
    rw [augment_of_none hn, List.append_assoc, List.getElem?_append_left hi]
  · intro x h
    exact getenv_augment_of_foreign h envp
  · intro hf
    exact getElem?_augment_of_fits hf envp
  · intro _ hf
    have he : insertEntry none libs = insertLibs ++ libs := insertEntry_of_fits hf
    rw [augment_of_none hn, he, List.getElem?_append_right (by simp [ownEntries])]
    simp [ownEntries]
  · intro i value h
    exact absurd h (hx i value)

theorem augmentedEntries_of_last {pre post : List CStr} {value : CStr} (hn : NoInsert post)
    (hx : LastInsert (pre ++ (insertLibs ++ value) :: post) pre.length value) :
    AugmentedEntries (pre ++ (insertLibs ++ value) :: post) libs opts sockpath
      (augmentEnvironment (pre ++ (insertLibs ++ value) :: post) libs opts sockpath) := by
  have ha : augmentEnvironment (pre ++ (insertLibs ++ value) :: post) libs opts sockpath =
      pre ++ insertEntry (some value) libs :: post ++ ownEntries libs opts sockpath :=
    augment_of_last hn libs opts sockpath
  have hl : (pre ++ insertEntry (some value) libs :: post).length =
      (pre ++ (insertLibs ++ value) :: post).length := by simp
  constructor
  · intro h
    exact absurd h hx.not_noInsert
  · intro _ _ _
    rw [ha, List.length_append, hl]
    rfl
  · intro i hi h
    rw [ha, List.getElem?_append_left (by omega)]
    rcases lt_trichotomy i pre.length with hlt | rfl | hgt
    · rw [List.getElem?_append_left hlt, List.getElem?_append_left hlt]
    · exact absurd hx (h value)
    · rw [List.getElem?_append_right hgt.le, List.getElem?_append_right hgt.le]
      cases hd : i - pre.length with
      | zero => omega
      | succ k => rfl
  · intro x h
    exact getenv_augment_of_foreign h _
  · intro hf
    exact getElem?_augment_of_fits hf _
  · intro h
    exact absurd h hx.not_noInsert
  · intro i value' h hf
    obtain ⟨rfl, rfl⟩ := h.unique hx
    rw [ha, insertEntry_of_extended hf, List.getElem?_append_left (by simp)]
    simp

theorem augmentedEntries (envp : List CStr) (libs opts sockpath : CStr) :
    AugmentedEntries envp libs opts sockpath
      (augmentEnvironment envp libs opts sockpath) := by
  rcases insert_cases envp with hn | ⟨pre, value, post, rfl, hn, hx⟩
  · exact augmentedEntries_of_none hn
  · exact augmentedEntries_of_last hn hx

/--
The function returns an array of as many slots as the original entries need with five more,
which holds the expected entries and, behind them, a `NULL`.
-/
def ReturnsExact (envp : List CStr) (libs opts sockpath : CStr) : Prop :=
  ∃ fuel slots environ, augmentSlots fuel envp libs opts sockpath = some slots ∧
    slots.length = envp.length + 5 ∧ terminated slots = some environ ∧
    AugmentedEntries envp libs opts sockpath environ

/-- The array is as expected exactly if the `unsigned` counts all of its slots. -/
theorem returnsExact_iff (envp : List CStr) (libs opts sockpath : CStr) :
    ReturnsExact envp libs opts sockpath ↔ envp.length + 5 < 2 ^ 32 := by
  constructor
  · rintro ⟨fuel, slots, environ, hs, -, ht, -⟩
    exact (augments_iff.mp ⟨fuel, slots, hs, ht⟩).1
  · intro h
    obtain ⟨rest, hs, hl⟩ := augmentSlots_of_lt h libs opts sockpath
    refine ⟨_, _, _, hs, ?_, terminated_map_entry _ _, augmentedEntries envp libs opts sockpath⟩
    simp only [List.length_append, List.length_map, List.length_cons]
    omega

/-- An array of `2 ^ 32 - 5` entries gets an allocation without any slot. -/
theorem not_returnsExact_wraps :
    ¬ ∀ (envp : List CStr) (libs opts sockpath : CStr),
      ReturnsExact envp libs opts sockpath := by
  intro h
  obtain ⟨fuel, slots, environ, hs, -⟩ := h (List.replicate (2 ^ 32 - 5) (ascii ['A', '=']))
    (ascii ['l']) (ascii ['@']) (ascii ['s'])
  have hl : (List.replicate (2 ^ 32 - 5) (ascii ['A', '='])).length = 2 ^ 32 - 5 :=
    List.length_replicate
  rw [augmentSlots_of_wraps (by omega)] at hs
  cases hs

end Voyeur
