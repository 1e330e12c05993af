import Voyeur.Environment.Augment

/-! # Lookups in an augmented environment

The three `LIBVOYEUR_*` entries stand behind the original ones, so that a lookup
finds an original entry first. The preload entry is found by its last match and
replaced in place, which no lookup of another variable notices.
-/

namespace Voyeur

/-- Neither of two variables can be mistaken for the other. -/
def Distinct (var var' : CStr) : Prop := ¬ var <+: var' ∧ ¬ var' <+: var

instance (var var' : CStr) : Decidable (Distinct var var') := by
  unfold Distinct; infer_instance

theorem valueOf_eq_some {var entry value : CStr} :
    valueOf var entry = some value ↔ entry = var ++ value := by
  unfold valueOf
  split
  · next h =>
    obtain ⟨v, rfl⟩ := List.isPrefixOf_iff_prefix.mp h
    simp
  · next h =>
    simp only [reduceCtorEq, false_iff]
    rintro rfl
    exact h (List.isPrefixOf_iff_prefix.mpr (List.prefix_append _ _))

@[simp] theorem valueOf_append (var value : CStr) : valueOf var (var ++ value) = some value :=
  valueOf_eq_some.mpr rfl

theorem valueOf_eq_none {var entry : CStr} : valueOf var entry = none ↔ ¬ var <+: entry := by
  simp [valueOf, List.isPrefixOf_iff_prefix]

theorem valueOf_distinct {var var' : CStr} (h : Distinct var var') (value : CStr) :
    valueOf var (var' ++ value) = none := by
  rw [valueOf_eq_none]
  intro hp
  rcases List.prefix_or_prefix_of_prefix hp (List.prefix_append var' value) with hp | hp
  · exact h.1 hp
  · exact h.2 hp

theorem distinct_libs_insert : Distinct varLibs insertLibs := by decide
theorem distinct_opts_insert : Distinct varOpts insertLibs := by decide
theorem distinct_socket_insert : Distinct varSocket insertLibs := by decide
theorem distinct_libs_opts : Distinct varLibs varOpts := by decide
theorem distinct_libs_socket : Distinct varLibs varSocket := by decide
theorem distinct_opts_socket : Distinct varOpts varSocket := by decide

theorem Distinct.symm {var var' : CStr} (h : Distinct var var') : Distinct var' var := ⟨h.2, h.1⟩

@[simp] theorem getenv_nil (var : CStr) : getenv [] var = none := rfl

theorem getenv_cons (entry : CStr) (environ : List CStr) (var : CStr) :
    getenv (entry :: environ) var = (valueOf var entry).or (getenv environ var) := by
  rw [getenv, List.findSome?_cons]
  cases valueOf var entry <;> rfl

theorem getenv_append (environ environ' : List CStr) (var : CStr) :
    getenv (environ ++ environ') var = (getenv environ var).or (getenv environ' var) :=
  List.findSome?_append

theorem strlcat_of_fits {dst src : CStr} {size : ℕ} (h : dst.length + src.length < size) :
    strlcat dst src size = dst ++ src := by
  rw [strlcat, if_neg (by omega), List.take_of_length_le (by omega)]

theorem strlcat_strlcpy {dst src : CStr} {size : ℕ} (h : dst.length < size) :
    strlcat (strlcpy dst size) src size = dst ++ src.take (size - 1 - dst.length) := by
  have hd : strlcpy dst size = dst := List.take_of_length_le (by omega)
  rw [strlcat, hd, if_neg (by omega)]

theorem envEntry_eq {var : CStr} (h : var.length < envBuf) (value : CStr) :
    envEntry var value = var ++ value.take (envBuf - 1 - var.length) :=
  strlcat_strlcpy h

theorem envEntry_of_fits {var value : CStr} (h : var.length + value.length ≤ envBuf - 1) :
    envEntry var value = var ++ value := by
  rw [envEntry_eq (by simp [envBuf] at h ⊢; omega), List.take_of_length_le (by omega)]

theorem length_insertLibs_lt : insertLibs.length < envBuf := by decide

theorem insertLibs_prefix_insertEntry (existing : Option CStr) (libs : CStr) :
    insertLibs <+: insertEntry existing libs := by
  have hc : ∀ dst src : CStr, insertLibs <+: dst → insertLibs <+: strlcat dst src envBuf := by
    intro dst src h
    unfold strlcat
    split
    · exact h
    · exact h.trans (List.prefix_append _ _)
  have he : ∀ value, insertLibs <+: envEntry insertLibs value := fun value => by
    rw [envEntry_eq length_insertLibs_lt]
    exact List.prefix_append _ _
  unfold insertEntry
  split
  · cases existing with
    | some value => exact hc _ _ (hc _ _ (he libs))
    | none => exact he libs
  · cases existing with
    | some value => exact he value
    | none => exact List.prefix_rfl

theorem valueOf_insertEntry {var : CStr} (h : Distinct var insertLibs)
    (existing : Option CStr) (libs : CStr) : valueOf var (insertEntry existing libs) = none := by
  obtain ⟨v, hv⟩ := insertLibs_prefix_insertEntry existing libs
  rw [← hv]
  exact valueOf_distinct h v

theorem scanInsert_cases (envp : List CStr) (i : ℕ) (found : Option (ℕ × CStr)) :
    (scanInsert envp i found = found ∧ ∀ e ∈ envp, valueOf insertLibs e = none) ∨
    (∃ pre value post, envp = pre ++ (insertLibs ++ value) :: post ∧
      (∀ e ∈ post, valueOf insertLibs e = none) ∧
      scanInsert envp i found = some (i + pre.length, value)) := by
  induction envp generalizing i found with
  | nil => exact .inl ⟨rfl, by simp⟩
  | cons e envp ih =>
    rw [scanInsert]
    cases he : valueOf insertLibs e with
    | none =>
      rcases ih (i + 1) found with ⟨h, hn⟩ | ⟨pre, value, post, rfl, hn, h⟩
      · exact .inl ⟨h, by simpa [he] using hn⟩
      · refine .inr ⟨e :: pre, value, post, rfl, hn, ?_⟩
        simp only [h, List.length_cons]
        congr 2; omega
    | some v =>
      obtain rfl := valueOf_eq_some.mp he
      rcases ih (i + 1) (some (i, v)) with ⟨h, hn⟩ | ⟨pre, value, post, rfl, hn, h⟩
      · exact .inr ⟨[], v, envp, rfl, hn, by simpa using h⟩
      · refine .inr ⟨(insertLibs ++ v) :: pre, value, post, rfl, hn, ?_⟩
        simp only [h, List.length_cons]
        congr 2; omega

/-- The three entries that are appended to every environment. -/
def ownEntries (libs opts sockpath : CStr) : List CStr :=
  [envEntry varLibs libs, envEntry varOpts opts, envEntry varSocket sockpath]

theorem augment_of_none {envp : List CStr} (h : ∀ e ∈ envp, valueOf insertLibs e = none)
    (libs opts sockpath : CStr) :
    augmentEnvironment envp libs opts sockpath =
      envp ++ ownEntries libs opts sockpath ++ [insertEntry none libs] := by
  rcases scanInsert_cases envp 0 none with ⟨hs, -⟩ | ⟨pre, value, post, rfl, -, -⟩
  · simp [augmentEnvironment, hs, ownEntries]
  · simpa using h (insertLibs ++ value) (by simp)

theorem augment_of_last {pre post : List CStr} {value : CStr}
    (h : ∀ e ∈ post, valueOf insertLibs e = none) (libs opts sockpath : CStr) :
    augmentEnvironment (pre ++ (insertLibs ++ value) :: post) libs opts sockpath =
      pre ++ insertEntry (some value) libs :: post ++ ownEntries libs opts sockpath := by
  have hs : scanInsert (pre ++ (insertLibs ++ value) :: post) 0 none =
      some (pre.length, value) := by
    rcases scanInsert_cases (pre ++ (insertLibs ++ value) :: post) 0 none with
      ⟨-, hn⟩ | ⟨pre', value', post', he, hn, hs⟩
    · simpa using hn (insertLibs ++ value) (by simp)
    · rw [hs, Nat.zero_add]
      rcases List.append_eq_append_iff.mp he with ⟨as, rfl, ha⟩ | ⟨as, rfl, ha⟩
      · cases as with
        | nil =>
          simp only [List.nil_append, List.cons.injEq, List.append_cancel_left_eq] at ha
          simp [ha.1]
        | cons a as =>
          simp only [List.cons_append, List.cons.injEq] at ha
          simpa using h (insertLibs ++ value') (by simp [ha.2])
      · cases as with
        | nil =>
          simp only [List.nil_append, List.cons.injEq, List.append_cancel_left_eq] at ha
          simp [ha.1]
        | cons a as =>
          simp only [List.cons_append, List.cons.injEq] at ha
          simpa using hn (insertLibs ++ value) (by simp [ha.2])
  simp [augmentEnvironment, hs, ownEntries]

/-- Every environment has no preload entry, or it has a last one. -/
theorem preload_cases (envp : List CStr) :
    (∀ e ∈ envp, valueOf insertLibs e = none) ∨
    ∃ pre value post, envp = pre ++ (insertLibs ++ value) :: post ∧
      ∀ e ∈ post, valueOf insertLibs e = none := by
  rcases scanInsert_cases envp 0 none with ⟨-, h⟩ | ⟨pre, value, post, he, h, -⟩
  · exact .inl h
  · exact .inr ⟨pre, value, post, he, h⟩

theorem getenv_augment {var : CStr} (h : Distinct var insertLibs) (envp : List CStr)
    (libs opts sockpath : CStr) :
    getenv (augmentEnvironment envp libs opts sockpath) var =
      (getenv envp var).or (getenv (ownEntries libs opts sockpath) var) := by
  rcases preload_cases envp with hn | ⟨pre, value, post, rfl, hn⟩
  · rw [augment_of_none hn, getenv_append, getenv_append, getenv_cons, valueOf_insertEntry h]
    simp
  · rw [augment_of_last hn, getenv_append, getenv_append, getenv_append, getenv_cons, getenv_cons,
      valueOf_insertEntry h, valueOf_distinct h]

theorem valueOf_envEntry {var var' : CStr} (h : Distinct var var') (hl : var'.length < envBuf)
    (value : CStr) : valueOf var (envEntry var' value) = none := by
  rw [envEntry_eq hl, valueOf_distinct h]

theorem valueOf_envEntry_self {var : CStr} (hl : var.length < envBuf) (value : CStr) :
    valueOf var (envEntry var value) = some (value.take (envBuf - 1 - var.length)) := by
  rw [envEntry_eq hl, valueOf_append]

theorem getenv_own_libs (libs opts sockpath : CStr) :
    getenv (ownEntries libs opts sockpath) varLibs =
      some (libs.take (envBuf - 1 - varLibs.length)) := by
  rw [ownEntries, getenv_cons, valueOf_envEntry_self (by decide), Option.some_or]

theorem getenv_own_opts (libs opts sockpath : CStr) :
    getenv (ownEntries libs opts sockpath) varOpts =
      some (opts.take (envBuf - 1 - varOpts.length)) := by
  rw [ownEntries, getenv_cons, getenv_cons, valueOf_envEntry distinct_libs_opts.symm (by decide),
    valueOf_envEntry_self (by decide), Option.none_or, Option.some_or]

theorem getenv_own_socket (libs opts sockpath : CStr) :
    getenv (ownEntries libs opts sockpath) varSocket =
      some (sockpath.take (envBuf - 1 - varSocket.length)) := by
  rw [ownEntries, getenv_cons, getenv_cons, getenv_cons,
    valueOf_envEntry distinct_libs_socket.symm (by decide),
    valueOf_envEntry distinct_opts_socket.symm (by decide), valueOf_envEntry_self (by decide),
    Option.none_or, Option.none_or, Option.some_or]

end Voyeur
