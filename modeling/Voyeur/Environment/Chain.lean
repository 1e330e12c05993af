import Voyeur.Environment.Lookup

/-! # Environments along a chain of exec calls

An older entry of the original environment hides a new one, except for the
preload variable. Where the older entries agree with the new ones, every process
of a chain of calls finds the values that the first one was given, and the
libraries are preloaded exactly once.
-/

namespace Voyeur

/-- The three values fit into their buffers. -/
structure FitsBuffers (libs opts sockpath : CStr) : Prop where
  libs : varLibs.length + libs.length ≤ envBuf - 1
  opts : varOpts.length + opts.length ≤ envBuf - 1
  socket : varSocket.length + sockpath.length ≤ envBuf - 1

/-- A process with this environment finds these three values. -/
structure Defines (environ : List CStr) (libs opts sockpath : CStr) : Prop where
  libs : getenv environ varLibs = some libs
  opts : getenv environ varOpts = some opts
  socket : getenv environ varSocket = some sockpath

/-- The first entry for each variable, if there is one, has the given value already. -/
structure Agrees (envp : List CStr) (libs opts sockpath : CStr) : Prop where
  libs : getenv envp varLibs = none ∨ getenv envp varLibs = some libs
  opts : getenv envp varOpts = none ∨ getenv envp varOpts = some opts
  socket : getenv envp varSocket = none ∨ getenv envp varSocket = some sockpath

variable {envp environ : List CStr} {libs opts sockpath : CStr}

theorem FitsBuffers.defines_own (h : FitsBuffers libs opts sockpath) :
    Defines (ownEntries libs opts sockpath) libs opts sockpath where
  libs := by rw [getenv_own_libs, List.take_of_length_le (by have := h.libs; omega)]
  opts := by rw [getenv_own_opts, List.take_of_length_le (by have := h.opts; omega)]
  socket := by rw [getenv_own_socket, List.take_of_length_le (by have := h.socket; omega)]

theorem getenv_augment_eq_iff {var value : CStr} (hd : Distinct var insertLibs)
    (h : getenv (ownEntries libs opts sockpath) var = some value) (envp : List CStr) :
    getenv (augmentEnvironment envp libs opts sockpath) var = some value ↔
      getenv envp var = none ∨ getenv envp var = some value := by
  rw [getenv_augment hd, h]
  cases getenv envp var with
  | none => simp
  | some v => simp

/--
The process finds the given values in its augmented environment exactly if no older entry
with another value comes first.
-/
theorem defines_augmentEnvironment_iff (h : FitsBuffers libs opts sockpath) (envp : List CStr) :
    Defines (augmentEnvironment envp libs opts sockpath) libs opts sockpath ↔
      Agrees envp libs opts sockpath := by
  have ho := h.defines_own
  have hl := getenv_augment_eq_iff distinct_libs_insert ho.libs envp
  have hp := getenv_augment_eq_iff distinct_opts_insert ho.opts envp
  have hs := getenv_augment_eq_iff distinct_socket_insert ho.socket envp
  constructor
  · rintro ⟨h1, h2, h3⟩
    exact ⟨hl.mp h1, hp.mp h2, hs.mp h3⟩
  · rintro ⟨h1, h2, h3⟩
    exact ⟨hl.mpr h1, hp.mpr h2, hs.mpr h3⟩

/-- The values of all `INSERT_LIBS` entries. -/
def preloads (environ : List CStr) : List CStr := environ.filterMap (valueOf insertLibs)

/-- The new value of `INSERT_LIBS`: the existing one, if it contains the libraries. -/
def newInsert (existing : Option CStr) (libs : CStr) : CStr :=
  match existing with
  | none => libs
  | some value => if libs <:+: value then value else libs ++ ascii [':'] ++ value

theorem libs_infix_newInsert (existing : Option CStr) (libs : CStr) :
    libs <:+: newInsert existing libs := by
  unfold newInsert
  cases existing with
  | none => exact List.infix_rfl
  | some value =>
    simp only
    split
    · next h => exact h
    · exact ⟨[], ascii [':'] ++ value, by simp⟩

theorem preloads_eq_nil : preloads envp = [] ↔ ∀ e ∈ envp, valueOf insertLibs e = none := by
  simp [preloads]

theorem preloads_append (environ environ' : List CStr) :
    preloads (environ ++ environ') = preloads environ ++ preloads environ' :=
  List.filterMap_append

@[simp] theorem preloads_insert (value : CStr) (environ : List CStr) :
    preloads ((insertLibs ++ value) :: environ) = value :: preloads environ := by
  simp [preloads]

theorem preloads_own (h : FitsBuffers libs opts sockpath) :
    preloads (ownEntries libs opts sockpath) = [] := by
  rw [preloads_eq_nil, ownEntries, envEntry_of_fits h.libs, envEntry_of_fits h.opts,
    envEntry_of_fits h.socket]
  simp only [List.mem_cons, List.not_mem_nil, or_false, forall_eq_or_imp, forall_eq]
  exact ⟨valueOf_distinct distinct_libs_insert.symm _, valueOf_distinct distinct_opts_insert.symm _,
    valueOf_distinct distinct_socket_insert.symm _⟩

theorem insertEntry_of_fits {existing : Option CStr}
    (h : insertLibs.length + (newInsert existing libs).length ≤ envBuf - 1) :
    insertEntry existing libs = insertLibs ++ newInsert existing libs := by
  have hi : insertLibs.length = 11 := rfl
  simp only [envBuf] at h
  cases existing with
  | none =>
    have hm : mustAddLibs none libs = true := by
      simp only [mustAddLibs, Option.getD_none, List.length_nil, newInsert, envBuf] at h ⊢
      simp
      omega
    simp only [insertEntry, hm, if_true]
    exact envEntry_of_fits (by simp only [envBuf]; exact h)
  | some value =>
    simp only [newInsert] at h ⊢
    by_cases hv : libs <:+: value
    · rw [if_pos hv] at h ⊢
      have hm : mustAddLibs (some value) libs = false := by
        have ht : value.take (2048 * 2) = value := List.take_of_length_le (by omega)
        simp [mustAddLibs, strnstr, envBuf, ht, hv]
      simp only [insertEntry, hm, Bool.false_eq_true, if_false]
      exact envEntry_of_fits (by simp only [envBuf]; exact h)
    · rw [if_neg hv] at h ⊢
      have hc : (ascii [':']).length = 1 := rfl
      simp only [List.length_append, hc] at h
      have hm : mustAddLibs (some value) libs = true := by
        have ht : ¬ libs <:+: value.take (2048 * 2) := fun hn =>
          hv (hn.trans (List.take_prefix _ _).isInfix)
        simp only [mustAddLibs, strnstr, envBuf, ht, Option.getD_some]
        simp
        omega
      simp only [insertEntry, hm, if_true]
      have hl : strlcat (insertLibs ++ libs) (ascii [':']) envBuf =
          insertLibs ++ libs ++ ascii [':'] :=
        strlcat_of_fits (by simp only [List.length_append, hc, envBuf]; omega)
      rw [envEntry_of_fits (by simp only [envBuf]; omega), hl,
        strlcat_of_fits (by simp only [List.length_append, hc, envBuf]; omega)]
      simp only [List.append_assoc]

theorem preloads_augment (h : FitsBuffers libs opts sockpath) (h1 : (preloads envp).length ≤ 1)
    (hf : insertLibs.length + (newInsert (preloads envp).head? libs).length ≤ envBuf - 1) :
    preloads (augmentEnvironment envp libs opts sockpath) =
      [newInsert (preloads envp).head? libs] := by
  rcases preload_cases envp with hn | ⟨pre, value, post, rfl, hn⟩
  · have h0 := preloads_eq_nil.mpr hn
    rw [h0] at hf ⊢
    have he : insertEntry none libs = insertLibs ++ newInsert none libs := insertEntry_of_fits hf
    rw [augment_of_none hn, preloads_append, preloads_append, h0, preloads_own h, he,
      preloads_insert]
    rfl
  · have hp : preloads post = [] := preloads_eq_nil.mpr hn
    rw [preloads_append, preloads_insert, hp] at h1 hf ⊢
    have h0 : preloads pre = [] := by
      simpa using h1
    rw [h0] at hf ⊢
    have he : insertEntry (some value) libs = insertLibs ++ newInsert (some value) libs :=
      insertEntry_of_fits hf
    rw [augment_of_last hn, preloads_append, preloads_append, preloads_own h, he, preloads_insert,
      h0, hp]
    rfl

/--
The environment that an interposed exec or spawn call passes on. A process that lacks one
of the variables hands `NULL` to `strlcat`, for which nothing is defined.
-/
def execEnvironment (environ envp : List CStr) : Option (List CStr) := do
  let libs ← getenv environ varLibs
  let opts ← getenv environ varOpts
  let sockpath ← getenv environ varSocket
  return augmentEnvironment envp libs opts sockpath

/-- What the environments of a chain are asked for, next to the values that were inherited. -/
structure Conforms (libs opts sockpath : CStr) (envp : List CStr) : Prop where
  one_insert : (preloads envp).length ≤ 1
  inherits_libs : ∀ e ∈ envp, ∀ v, valueOf varLibs e = some v → v = libs
  inherits_opts : ∀ e ∈ envp, ∀ v, valueOf varOpts e = some v → v = opts
  inherits_socket : ∀ e ∈ envp, ∀ v, valueOf varSocket e = some v → v = sockpath
  fits : FitsBuffers libs opts sockpath
  fits_insert : insertLibs.length + (newInsert (preloads envp).head? libs).length ≤ envBuf - 1

/--
A chain of processes: the environments that were asked for, and the one that the last
process got. Each process calls exec while its own environment still has what it inherited.
-/
inductive Chain (libs opts sockpath : CStr) : List (List CStr) → List CStr → Prop
  | prepare {envp : List CStr} : Conforms libs opts sockpath envp →
      Chain libs opts sockpath [envp] (augmentEnvironment envp libs opts sockpath)
  | exec {envps : List (List CStr)} {env environ envp env' : List CStr} {l o s : CStr} :
      Chain libs opts sockpath envps env → Defines env l o s → Defines environ l o s →
      Conforms l o s envp → execEnvironment environ envp = some env' →
      Chain libs opts sockpath (envps ++ [envp]) env'

theorem getenv_of_forall {var value : CStr}
    (h : ∀ e ∈ envp, ∀ v, valueOf var e = some v → v = value) :
    getenv envp var = none ∨ getenv envp var = some value := by
  cases hg : getenv envp var with
  | none => exact .inl rfl
  | some v =>
    obtain ⟨e, he, hv⟩ := List.exists_of_findSome?_eq_some hg
    rw [h e he v hv]
    exact .inr rfl

theorem Conforms.agrees (h : Conforms libs opts sockpath envp) :
    Agrees envp libs opts sockpath :=
  ⟨getenv_of_forall h.inherits_libs, getenv_of_forall h.inherits_opts,
    getenv_of_forall h.inherits_socket⟩

theorem Defines.execEnvironment (h : Defines environ libs opts sockpath) (envp : List CStr) :
    execEnvironment environ envp = some (augmentEnvironment envp libs opts sockpath) := by
  simp [Voyeur.execEnvironment, h.libs, h.opts, h.socket]

/-- A process of a chain: it finds the values, and preloads the libraries once. -/
structure Instrumented (libs opts sockpath : CStr) (env : List CStr) : Prop where
  fits : FitsBuffers libs opts sockpath
  defines : Defines env libs opts sockpath
  preload : ∃ value, preloads env = [value] ∧ libs <:+: value ∧
    insertLibs.length + value.length ≤ envBuf - 1

theorem Conforms.instrumented (h : Conforms libs opts sockpath envp) :
    Instrumented libs opts sockpath (augmentEnvironment envp libs opts sockpath) where
  fits := h.fits
  defines := (defines_augmentEnvironment_iff h.fits envp).mpr h.agrees
  preload := ⟨_, preloads_augment h.fits h.one_insert h.fits_insert, libs_infix_newInsert _ _,
    h.fits_insert⟩

theorem Defines.unique {l o s : CStr} (h : Defines environ libs opts sockpath)
    (h' : Defines environ l o s) : l = libs ∧ o = opts ∧ s = sockpath :=
  ⟨Option.some.inj (h'.libs.symm.trans h.libs), Option.some.inj (h'.opts.symm.trans h.opts),
    Option.some.inj (h'.socket.symm.trans h.socket)⟩

/-- Every process of a chain is instrumented with the values of the first one. -/
theorem Chain.instrumented {envps : List (List CStr)} {env : List CStr}
    (h : Chain libs opts sockpath envps env) : Instrumented libs opts sockpath env := by
  induction h with
  | prepare hc => exact hc.instrumented
  | exec _ hd he hc hx ih =>
    obtain ⟨rfl, rfl, rfl⟩ := ih.defines.unique hd
    rw [he.execEnvironment, Option.some.injEq] at hx
    exact hx ▸ hc.instrumented

theorem Instrumented.preloads_step {env environ envp env' : List CStr}
    (h : Instrumented libs opts sockpath env) (he : Defines environ libs opts sockpath)
    (hp : preloads envp = preloads env) (hx : Voyeur.execEnvironment environ envp = some env') :
    preloads env' = preloads env := by
  obtain ⟨value, hv, hi, hf⟩ := h.preload
  rw [he.execEnvironment, Option.some.injEq] at hx
  have hn : newInsert (preloads envp).head? libs = value := by
    rw [hp, hv]
    exact if_pos hi
  rw [← hx, preloads_augment h.fits (by rw [hp, hv]; rfl) (by rw [hn]; exact hf), hn, hv]

/--
Along a chain of any length every process finds the original libraries, options and socket.
It has one preload entry, which contains the libraries and is kept by a further call that
passes it on.
-/
theorem chain_propagates (libs opts sockpath : CStr) (envps : List (List CStr)) (env : List CStr)
    (h : Chain libs opts sockpath envps env) :
    Defines env libs opts sockpath ∧
    ∃ value, preloads env = [value] ∧ libs <:+: value ∧
      ∀ environ envp env', Defines environ libs opts sockpath → preloads envp = [value] →
        execEnvironment environ envp = some env' → preloads env' = [value] := by
  have hi := h.instrumented
  obtain ⟨value, hv, hl, -⟩ := hi.preload
  refine ⟨hi.defines, value, hv, hl, fun environ envp env' he hp hx => ?_⟩
  rw [hi.preloads_step he (hp.trans hv.symm) hx, hv]

/-- Two calls: the first process had its own preload entry, the second passes nothing on. -/
theorem chain_propagates_two :
    Defines (augmentEnvironment [] (ascii ['l']) (ascii ['@']) (ascii ['s']))
      (ascii ['l']) (ascii ['@']) (ascii ['s']) ∧
    ∃ value, preloads (augmentEnvironment [] (ascii ['l']) (ascii ['@']) (ascii ['s'])) = [value] ∧
      ascii ['l'] <:+: value ∧
      ∀ environ envp env', Defines environ (ascii ['l']) (ascii ['@']) (ascii ['s']) →
        preloads envp = [value] → execEnvironment environ envp = some env' →
        preloads env' = [value] := by
  have h1 : Conforms (ascii ['l']) (ascii ['@']) (ascii ['s']) [insertLibs ++ ascii ['m']] :=
    ⟨by decide, by decide, by decide, by decide, ⟨by decide, by decide, by decide⟩, by decide⟩
  have h2 : Conforms (ascii ['l']) (ascii ['@']) (ascii ['s']) [] :=
    ⟨by decide, by decide, by decide, by decide, ⟨by decide, by decide, by decide⟩, by decide⟩
  have hd := h1.instrumented.defines
  exact chain_propagates _ _ _ _ _ (.exec (.prepare h1) hd hd h2 (hd.execEnvironment _))

end Voyeur
