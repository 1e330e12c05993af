import Voyeur.Environment.Frame

/-! # The room for the preload variable

The check for enough room counts the libraries and the existing value, but neither the
name of the variable nor the separator and the terminating NUL. Values in between pass
the check and are cut by the bounded copies, and so is an existing value that does not fit.
-/

namespace Voyeur

/-- A bounded append to what earlier ones left cuts the whole string once. -/
theorem strlcat_take {size : ℕ} (h : 0 < size) (dst src : CStr) :
    strlcat (dst.take (size - 1)) src size = (dst ++ src).take (size - 1) := by
  have hn : ¬ size ≤ (dst.take (size - 1)).length := by
    rw [List.length_take]
    omega
  rw [strlcat, if_neg hn, List.take_append, List.length_take]
  congr 2
  omega

/-- The room for the value of `INSERT_LIBS` in its buffer. -/
def insertRoom : ℕ := envBuf - 1 - insertLibs.length

/-- The value of `INSERT_LIBS` in the new environment. -/
def insertValue (existing : Option CStr) (libs : CStr) : CStr :=
  if mustAddLibs existing libs then
    match existing with
    | some value => (libs ++ ascii [':'] ++ value).take insertRoom
    | none => libs.take insertRoom
  else (existing.getD []).take insertRoom

theorem take_insertLibs_append (value : CStr) :
    (insertLibs ++ value).take (envBuf - 1) = insertLibs ++ value.take insertRoom := by
  rw [List.take_append, List.take_of_length_le (by decide)]
  rfl

theorem insertEntry_eq (existing : Option CStr) (libs : CStr) :
    insertEntry existing libs = insertLibs ++ insertValue existing libs := by
  have h0 : 0 < envBuf := by decide
  have he : ∀ value, envEntry insertLibs value = (insertLibs ++ value).take (envBuf - 1) := by
    intro value
    rw [envEntry_eq length_insertLibs_lt, take_insertLibs_append]
    rfl
  unfold insertEntry insertValue
  split
  · cases existing with
    | some value =>
      simp only [he]
      rw [strlcat_take h0, strlcat_take h0, List.append_assoc, List.append_assoc,
        take_insertLibs_append, List.append_assoc]
    | none => rw [he, take_insertLibs_append]
  · cases existing with
    | some value =>
      simp only [Option.getD_some]
      rw [he, take_insertLibs_append]
    | none => simp [strlcpy, insertLibs, ascii, envBuf]

theorem preloads_ownEntries (libs opts sockpath : CStr) :
    preloads (ownEntries libs opts sockpath) = [] := by
  rw [preloads_eq_nil, ownEntries]
  simp only [List.mem_cons, List.not_mem_nil, or_false, forall_eq_or_imp, forall_eq]
  exact ⟨valueOf_envEntry distinct_libs_insert.symm (by decide) libs,
    valueOf_envEntry distinct_opts_insert.symm (by decide) opts,
    valueOf_envEntry distinct_socket_insert.symm (by decide) sockpath⟩

theorem preloads_augmentEnvironment (envp : List CStr) (libs opts sockpath : CStr) :
    preloads (augmentEnvironment envp libs opts sockpath) =
      (preloads envp).dropLast ++ [insertValue (preloads envp).getLast? libs] := by
  rcases preload_cases envp with hn | ⟨pre, value, post, rfl, hn⟩
  · rw [augment_of_none hn, preloads_append, preloads_append, preloads_ownEntries,
      preloads_eq_nil.mpr hn, insertEntry_eq, preloads_insert]
    rfl
  · have hp : preloads post = [] := preloads_eq_nil.mpr hn
    rw [augment_of_last hn, preloads_append, preloads_append, preloads_ownEntries,
      insertEntry_eq, preloads_insert, preloads_append, preloads_insert, hp,
      List.dropLast_concat, List.getLast?_concat, List.append_nil]

/-- The value is made of whole strings: the libraries, the existing value, or both. -/
def Whole (existing : Option CStr) (libs value : CStr) : Prop :=
  value = libs ∨ ∃ v, existing = some v ∧ (value = libs ++ ascii [':'] ++ v ∨ value = v)

/-- The function returns an environment with a whole value of the preload variable. -/
def InsertsWhole (envp : List CStr) (libs opts sockpath : CStr) : Prop :=
  ∃ environ value, Augments envp libs opts sockpath environ ∧
    (preloads environ).getLast? = some value ∧ Whole (preloads envp).getLast? libs value

/--
What is put together fits into the room. The libraries alone, or an existing value that
starts with them, may also be cut exactly behind the libraries.
-/
def FitsWhole (existing : Option CStr) (libs : CStr) : Prop :=
  match existing with
  | none => libs.length ≤ insertRoom
  | some v =>
    if libs <:+: v.take (2 * envBuf) ∨ envBuf < libs.length + v.length then
      v.length ≤ insertRoom ∨ v.take insertRoom = libs
    else libs.length + 1 + v.length ≤ insertRoom ∨ libs.length = insertRoom

variable {envp : List CStr} {libs opts sockpath : CStr}

theorem insertsWhole_iff_whole :
    InsertsWhole envp libs opts sockpath ↔ envp.length + 5 < 2 ^ 32 ∧
      Whole (preloads envp).getLast? libs (insertValue (preloads envp).getLast? libs) := by
  have hv : (preloads (augmentEnvironment envp libs opts sockpath)).getLast? =
      some (insertValue (preloads envp).getLast? libs) := by
    rw [preloads_augmentEnvironment, List.getLast?_concat]
  constructor
  · rintro ⟨environ, value, ha, hl, hw⟩
    obtain ⟨hn, rfl⟩ := augments_iff.mp ha
    obtain rfl := Option.some.inj (hv.symm.trans hl)
    exact ⟨hn, hw⟩
  · rintro ⟨hn, hw⟩
    exact ⟨_, _, augments_iff.mpr ⟨hn, rfl⟩, hv, hw⟩

theorem mustAddLibs_none (libs : CStr) :
    mustAddLibs none libs = true ↔ libs.length ≤ envBuf := by
  simp [mustAddLibs]

theorem mustAddLibs_some (value libs : CStr) : mustAddLibs (some value) libs = true ↔
    ¬ (libs <:+: value.take (2 * envBuf) ∨ envBuf < libs.length + value.length) := by
  rw [Nat.mul_comm]
  simp [mustAddLibs, strnstr]

theorem take_eq_self_iff {v : CStr} {n : ℕ} : v.take n = v ↔ v.length ≤ n := by
  simp

theorem whole_none : Whole none libs (insertValue none libs) ↔ libs.length ≤ insertRoom := by
  have hr : insertRoom = 2036 := rfl
  simp only [Whole, reduceCtorEq, false_and, exists_false, or_false, insertValue]
  split
  · exact take_eq_self_iff
  · next hm =>
    rw [mustAddLibs_none, envBuf] at hm
    constructor
    · rintro h
      rw [← h] at hm
      simp at hm
    · intro h
      omega

/-- An existing value that stays is whole if it fits, or if its cut leaves the libraries. -/
theorem whole_kept {v : CStr} :
    Whole (some v) libs (v.take insertRoom) ↔
      v.length ≤ insertRoom ∨ v.take insertRoom = libs := by
  constructor
  · rintro (h | ⟨v', hv, h | h⟩)
    · exact .inr h
    · obtain rfl := Option.some.inj hv
      have hl := congrArg List.length h
      simp only [List.length_take, List.length_append] at hl
      have hc : (ascii [':']).length = 1 := rfl
      omega
    · obtain rfl := Option.some.inj hv
      exact .inl (take_eq_self_iff.mp h)
  · rintro (h | h)
    · exact .inr ⟨v, rfl, .inr (take_eq_self_iff.mpr h)⟩
    · exact .inl h

theorem whole_added {v : CStr} (hn : ¬ libs <:+: v.take (2 * envBuf))
    (hl : libs.length + v.length ≤ envBuf) :
    Whole (some v) libs ((libs ++ ascii [':'] ++ v).take insertRoom) ↔
      libs.length + 1 + v.length ≤ insertRoom ∨ libs.length = insertRoom := by
  have hr : insertRoom = 2036 := rfl
  have hb : envBuf = 2048 := rfl
  have hc : (ascii [':']).length = 1 := rfl
  constructor
  · rintro (h | ⟨v', hv, h | h⟩)
    · have hx := congrArg List.length h
      simp only [List.length_take, List.length_append] at hx
      omega
    · obtain rfl := Option.some.inj hv
      have hx := congrArg List.length h
      simp only [List.length_take, List.length_append] at hx
      omega
    · obtain rfl := Option.some.inj hv
      have hx := congrArg List.length h
      simp only [List.length_take, List.length_append] at hx
      by_cases hs : libs.length ≤ insertRoom
      · -- The cut value starts with the libraries, so that they were found.
        have hp : libs <+: v := by
          rw [← h, List.append_assoc, List.take_append, List.take_of_length_le hs]
          exact List.prefix_append _ _
        have ht : v.take (2 * envBuf) = v := List.take_of_length_le (by omega)
        exact absurd (ht.symm ▸ hp.isInfix) hn
      · omega
  · rintro (h | h)
    · right
      refine ⟨v, rfl, .inl (take_eq_self_iff.mpr ?_)⟩
      simp only [List.length_append]
      omega
    · left
      rw [List.append_assoc, List.take_append_of_le_length h.ge, ← h, List.take_length]

theorem whole_iff (existing : Option CStr) (libs : CStr) :
    Whole existing libs (insertValue existing libs) ↔ FitsWhole existing libs := by
  cases existing with
  | none => exact whole_none
  | some v =>
    unfold FitsWhole insertValue
    by_cases hm : libs <:+: v.take (2 * envBuf) ∨ envBuf < libs.length + v.length
    · have hf : ¬ mustAddLibs (some v) libs = true := by
        rw [mustAddLibs_some]
        exact not_not.mpr hm
      simp only [if_neg hf, if_pos hm, Option.getD_some]
      exact whole_kept
    · have ht : mustAddLibs (some v) libs = true := (mustAddLibs_some v libs).mpr hm
      simp only [if_pos ht, if_neg hm]
      rw [not_or, not_lt] at hm
      exact whole_added hm.1 hm.2

/-- The preload variable is not cut exactly if what is put together fits. -/
theorem insertsWhole_iff (envp : List CStr) (libs opts sockpath : CStr) :
    InsertsWhole envp libs opts sockpath ↔
      envp.length + 5 < 2 ^ 32 ∧ FitsWhole (preloads envp).getLast? libs := by
  rw [insertsWhole_iff_whole, whole_iff]

/-- Libraries of 2040 bytes pass the check for enough room and lose their last four. -/
theorem not_insertsWhole_long :
    ¬ ∀ (envp : List CStr) (libs opts sockpath : CStr),
      InsertsWhole envp libs opts sockpath := by
  intro h
  have hw := insertsWhole_iff_whole.mp (h [] (List.replicate 2040 0x2f) (ascii ['@'])
    (ascii ['s']))
  have hl := whole_none.mp hw.2
  rw [List.length_replicate] at hl
  exact absurd hl (by decide)

end Voyeur
