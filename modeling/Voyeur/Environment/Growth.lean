import Voyeur.Environment.Chain

/-! # Environments that are passed on unchanged

Most programs hand their own environment to exec. Each such call appends the three
variables once more, and nothing else: no lookup ever changes, and the environment grows
by three entries with every process, without a bound.
-/

namespace Voyeur

variable {env : List CStr} {libs opts sockpath : CStr}

/-- The environment of the last of `n` processes, each of which passes its own one on. -/
def inherited : ℕ → List CStr → Option (List CStr)
  | 0, env => some env
  | n + 1, env => (inherited n env).bind fun environ => execEnvironment environ environ

theorem mem_of_getenv {var value : CStr} (h : getenv env var = some value) :
    var ++ value ∈ env := by
  obtain ⟨e, he, hv⟩ := List.exists_of_findSome?_eq_some h
  rwa [valueOf_eq_some.mp hv] at he

theorem Instrumented.own_subset (h : Instrumented libs opts sockpath env) :
    ∀ e ∈ ownEntries libs opts sockpath, e ∈ env := by
  intro e he
  rw [ownEntries, envEntry_of_fits h.fits.libs, envEntry_of_fits h.fits.opts,
    envEntry_of_fits h.fits.socket] at he
  simp only [List.mem_cons, List.not_mem_nil, or_false] at he
  rcases he with rfl | rfl | rfl
  · exact mem_of_getenv h.defines.libs
  · exact mem_of_getenv h.defines.opts
  · exact mem_of_getenv h.defines.socket

theorem getenv_append_of_subset {environ : List CStr} (h : ∀ e ∈ environ, e ∈ env) (var : CStr) :
    getenv (env ++ environ) var = getenv env var := by
  rw [getenv_append]
  cases hg : getenv env var with
  | some value => rfl
  | none =>
    rw [getenv, List.findSome?_eq_none_iff] at hg
    rw [Option.none_or, getenv, List.findSome?_eq_none_iff]
    exact fun e he => hg e (h e he)

theorem Instrumented.exec_self (h : Instrumented libs opts sockpath env) :
    execEnvironment env env = some (env ++ ownEntries libs opts sockpath) := by
  obtain ⟨value, hv, hi, hf⟩ := h.preload
  rw [h.defines.execEnvironment]
  rcases preload_cases env with hn | ⟨pre, value', post, rfl, hn⟩
  · rw [preloads_eq_nil.mpr hn] at hv
    cases hv
  · have hp : preloads post = [] := preloads_eq_nil.mpr hn
    rw [preloads_append, preloads_insert, hp] at hv
    have hl := congrArg List.getLast? hv
    obtain rfl : value' = value := by simpa using hl
    have hnew : newInsert (some value') libs = value' := if_pos hi
    rw [augment_of_last hn, insertEntry_of_fits (by rw [hnew]; exact hf), hnew]

theorem Instrumented.append (h : Instrumented libs opts sockpath env) :
    Instrumented libs opts sockpath (env ++ ownEntries libs opts sockpath) := by
  have hg := getenv_append_of_subset h.own_subset
  refine ⟨h.fits, ⟨?_, ?_, ?_⟩, ?_⟩
  · rw [hg, h.defines.libs]
  · rw [hg, h.defines.opts]
  · rw [hg, h.defines.socket]
  · rw [preloads_append, preloads_own h.fits, List.append_nil]
    exact h.preload

theorem Instrumented.inherited (h : Instrumented libs opts sockpath env) (n : ℕ) :
    inherited n env = some (env ++ (List.replicate n (ownEntries libs opts sockpath)).flatten) ∧
      Instrumented libs opts sockpath
        (env ++ (List.replicate n (ownEntries libs opts sockpath)).flatten) := by
  induction n with
  | zero => simpa [Voyeur.inherited] using h
  | succ n ih =>
    have hx := ih.2.exec_self
    have ha := ih.2.append
    rw [List.append_assoc, ← List.flatten_concat, ← List.replicate_succ'] at hx ha
    refine ⟨?_, ha⟩
    rw [Voyeur.inherited, ih.1]
    exact hx

/--
In a chain of processes that pass their own environments on, each finds what the first one
found, whatever it looks up, in an environment that is longer by three entries.
-/
theorem inherited_of_chain {envps : List (List CStr)} (h : Chain libs opts sockpath envps env)
    (n : ℕ) : ∃ environ, inherited n env = some environ ∧
      environ = env ++ (List.replicate n (ownEntries libs opts sockpath)).flatten ∧
      environ.length = env.length + 3 * n ∧ ∀ var, getenv environ var = getenv env var := by
  have hi := h.instrumented
  have hsub : ∀ e ∈ (List.replicate n (ownEntries libs opts sockpath)).flatten, e ∈ env := by
    intro e he
    obtain ⟨own, ho, he⟩ := List.mem_flatten.mp he
    rw [List.eq_of_mem_replicate ho] at he
    exact hi.own_subset e he
  refine ⟨_, (hi.inherited n).1, rfl, ?_, getenv_append_of_subset hsub⟩
  rw [List.length_append, List.length_flatten, List.map_replicate, List.sum_replicate_nat,
    Nat.mul_comm n]
  rfl

/-- Ten processes behind one that was started in an empty environment. -/
theorem inherited_of_chain_ten : ∃ environ : List CStr,
    inherited 10 (augmentEnvironment [] (ascii ['l']) (ascii ['@']) (ascii ['s'])) =
      some environ ∧ environ.length = 34 := by
  have hc : Conforms (ascii ['l']) (ascii ['@']) (ascii ['s']) [] :=
    ⟨by decide, by decide, by decide, by decide, ⟨by decide, by decide, by decide⟩, by decide⟩
  obtain ⟨environ, he, -, hl, -⟩ := inherited_of_chain (.prepare hc) 10
  exact ⟨environ, he, hl.trans (by decide)⟩

end Voyeur
