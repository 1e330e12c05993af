import Voyeur.Environment.Libs

/-! # The libraries that are preloaded

Libraries count as present when their list occurs anywhere in the existing value. The
occurrence may begin or end inside of a longer path, so that the first or the last
library is not preloaded at all.
-/

namespace Voyeur

/-- The paths in a value of the preload variable. -/
def components (value : CStr) : List CStr := value.splitOn colon

/-- The function returns an environment in which every library is one of the preloaded paths. -/
def PreloadsRequested (envp : List CStr) (libs opts sockpath : CStr) : Prop :=
  ∃ environ value, Augments envp libs opts sockpath environ ∧ preloads environ = [value] ∧
    ∀ c ∈ components libs, c ∈ components value

/-- A present list of libraries begins and ends with components of the existing value. -/
def EndsPresent (envp : List CStr) (libs : CStr) : Prop :=
  ∀ value, preloads envp = [value] → libs <:+: value →
    Separated.first colon libs ∈ components value ∧ Separated.last colon libs ∈ components value

variable {envp : List CStr} {libs opts sockpath : CStr}

theorem insertValue_of_fits {existing : Option CStr}
    (h : insertLibs.length + (newInsert existing libs).length ≤ envBuf - 1) :
    insertValue existing libs = newInsert existing libs :=
  List.append_cancel_left ((insertEntry_eq existing libs).symm.trans (insertEntry_of_fits h))

theorem preloads_augment_of_fits (h1 : (preloads envp).length ≤ 1)
    (h : insertLibs.length + (newInsert (preloads envp).head? libs).length ≤ envBuf - 1)
    (opts sockpath : CStr) : preloads (augmentEnvironment envp libs opts sockpath) =
      [newInsert (preloads envp).head? libs] := by
  have hl : (preloads envp).dropLast = [] ∧
      (preloads envp).getLast? = (preloads envp).head? := by
    rcases hp : preloads envp with - | ⟨v, - | ⟨v', vs⟩⟩
    · exact ⟨rfl, rfl⟩
    · exact ⟨rfl, rfl⟩
    · simp [hp] at h1
  rw [preloads_augmentEnvironment, hl.1, hl.2, insertValue_of_fits h]
  rfl

theorem components_append (libs value : CStr) :
    components (libs ++ ascii [':'] ++ value) = components libs ++ components value := by
  have hc : libs ++ ascii [':'] ++ value = libs ++ colon :: value := by
    rw [List.append_assoc]
    rfl
  rw [components, hc]
  exact List.splitOn_append_cons_self _ _

/-- All libraries are preloaded exactly if a list that is present already has whole ends. -/
theorem preloadsRequested_iff_endsPresent (h1 : (preloads envp).length ≤ 1)
    (h : insertLibs.length + (newInsert (preloads envp).head? libs).length ≤ envBuf - 1) :
    PreloadsRequested envp libs opts sockpath ↔
      envp.length + 5 < 2 ^ 32 ∧ EndsPresent envp libs := by
  have hp := preloads_augment_of_fits h1 h opts sockpath
  have hr : PreloadsRequested envp libs opts sockpath ↔ envp.length + 5 < 2 ^ 32 ∧
      ∀ c ∈ components libs, c ∈ components (newInsert (preloads envp).head? libs) := by
    constructor
    · rintro ⟨environ, value, ha, hv, hc⟩
      obtain ⟨hn, rfl⟩ := augments_iff.mp ha
      rw [hp, List.singleton_inj] at hv
      rw [hv]
      exact ⟨hn, hc⟩
    · rintro ⟨hn, hc⟩
      exact ⟨_, _, augments_iff.mpr ⟨hn, rfl⟩, hp, hc⟩
  rw [hr]
  apply and_congr_right'
  rcases he : preloads envp with - | ⟨v, - | ⟨v', vs⟩⟩
  · simp [EndsPresent, he, newInsert]
  · simp only [EndsPresent, he, List.singleton_inj, forall_eq', List.head?_cons, newInsert]
    by_cases hi : libs <:+: v
    · rw [if_pos hi]
      have hs : (∀ c ∈ components libs, c ∈ components v) ↔ _ :=
        Separated.forall_mem_splitOn_iff hi
      rw [hs]
      exact ⟨fun hc _ => hc, fun hc => hc hi⟩
    · rw [if_neg hi, components_append]
      constructor
      · intro _ hn
        exact absurd hn hi
      · intro _ c hc
        exact List.mem_append_left _ hc
  · simp [he] at h1

/--
The libraries of a context are preloaded exactly if their list is not there yet, or its first
and its last path are components of the existing value.
-/
theorem preloadsRequested_requestedLibs (dummy : ℕ) (dlinfo : Option (Option CStr))
    (context : LibContext) (envp : List CStr) (opts sockpath : CStr)
    (h1 : (preloads envp).length ≤ 1)
    (h : insertLibs.length + (newInsert (preloads envp).head?
      (requestedLibs dummy dlinfo context).2.2.libs).length ≤ envBuf - 1) :
    PreloadsRequested envp (requestedLibs dummy dlinfo context).2.2.libs opts sockpath ↔
      envp.length + 5 < 2 ^ 32 ∧ EndsPresent envp (requestedLibs dummy dlinfo context).2.2.libs :=
  preloadsRequested_iff_endsPresent h1 h

/-- A context without callbacks whose libraries are in `/a/`. -/
def plainContext : LibContext := ⟨⟨fun _ => ⟨0, none, 0⟩⟩, some (ascii ['/', 'a', '/'])⟩

/-- The library for `exec` in `/a/`, which is all that `plainContext` asks for. -/
def plainLibs : CStr := ascii ['/', 'a', '/'] ++ libName .exec

theorem requestedLibs_plain : (requestedLibs 1 none plainContext).2.2.libs = plainLibs := by
  decide +kernel

/-- The environment of a process that preloads another library and this one. -/
def preloadingEnviron : List CStr :=
  [insertLibs ++ (ascii ['/', 'x', '.', 's', 'o', ':'] ++ plainLibs)]

theorem preloadsRequested_preloadingEnviron :
    PreloadsRequested preloadingEnviron (requestedLibs 1 none plainContext).2.2.libs
        (ascii ['@']) (ascii ['s']) ↔
      preloadingEnviron.length + 5 < 2 ^ 32 ∧
        EndsPresent preloadingEnviron (requestedLibs 1 none plainContext).2.2.libs := by
  have hp : preloads preloadingEnviron = [ascii ['/', 'x', '.', 's', 'o', ':'] ++ plainLibs] := by
    rw [preloadingEnviron, preloads_insert]
    rfl
  apply preloadsRequested_requestedLibs
  · rw [hp]
    rfl
  · rw [hp, requestedLibs_plain]
    decide

/-- A copy of the library with a longer name hides that the library is not preloaded. -/
theorem not_preloadsRequested_copy :
    ¬ ∀ (dummy : ℕ) (dlinfo : Option (Option CStr)) (context : LibContext) (envp : List CStr)
      (opts sockpath : CStr), (preloads envp).length ≤ 1 →
      FitsBuffers (requestedLibs dummy dlinfo context).2.2.libs opts sockpath →
      insertLibs.length + (newInsert (preloads envp).head?
        (requestedLibs dummy dlinfo context).2.2.libs).length ≤ envBuf - 1 →
      PreloadsRequested envp (requestedLibs dummy dlinfo context).2.2.libs opts sockpath := by
  intro h
  have hp : preloads [insertLibs ++ (plainLibs ++ ascii ['.', 'b', 'a', 'k'])] =
      [plainLibs ++ ascii ['.', 'b', 'a', 'k']] := by rw [preloads_insert]; rfl
  have hf : insertLibs.length + (newInsert (some (plainLibs ++ ascii ['.', 'b', 'a', 'k']))
      plainLibs).length ≤ envBuf - 1 := by decide
  have hr := h 1 none plainContext [insertLibs ++ (plainLibs ++ ascii ['.', 'b', 'a', 'k'])]
    (ascii ['@']) (ascii ['s'])
  rw [requestedLibs_plain, hp] at hr
  have hc := hr le_rfl ⟨by decide, by decide, by decide⟩ hf
  rw [preloadsRequested_iff_endsPresent (by rw [hp]; rfl) (by rw [hp]; exact hf)] at hc
  have he := (hc.2 _ hp (List.prefix_append _ _).isInfix).1
  revert he
  decide

end Voyeur
