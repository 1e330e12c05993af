import Voyeur.Start.Prepare

/-! # What an observation leaves behind

`voyeur_start` removes the socket's file and its directory in calls that are arguments of
`WARN_ON_FAIL`, which expands to nothing without `DEBUG`. What is gone afterwards is
compared with what was there when the loop of the server ended.
-/

namespace Voyeur

open FileTree

inductive Build | release | debug
  deriving DecidableEq

/-- `WARN_ON_FAIL`, for a call on the file system. -/
def warnOnFail (build : Build) (call : Files → Option Files) (s : System) : System :=
  match build with
  | .debug => { s with files := attempt call s.files }
  | .release => s

/-- The end of `voyeur_start`. -/
def cleanup (build : Build) (server : ServerState) (s : System) : System :=
  let s := warnOnFail build (FileTree.unlink server.sunPath) s
  let path := match strrchr server.sunPath slash with
    | some lastSlash => server.sunPath.take lastSlash
    | none => server.sunPath
  warnOnFail build (rmdir path) s

/--
`voyeur_start`. What the server, the observed processes and others do until the loop ends is
`serve`, which gives no result if the loop does not return.
-/
def voyeurStart (build : Build) (server : ServerState) (serve : System → Option (System × ℤ))
    (s : System) : Option (System × ℤ) :=
  (serve s).map fun (s, res) => (cleanup build server s, res)

variable {build : Build} {g : Grants} {s s₁ s₂ s' : System} {libs opts : CStr} {envp : List CStr}
  {context context' : ContextBlocks}

/-- The socket's file and the directory that were made in `s₁` are gone in `s₂`. -/
def Removed (s₁ s₂ : System) : Prop :=
  ∀ x ∈ s₁.created, match x with
    | .directory p | .socketFile p => s₂.files.lookup p = none
    | .descriptor _ => True

/-- What `voyeur_start` finds at the end of the loop is what it can remove, or is gone. -/
def Removable (build : Build) (suffix : Suffix) (made : Bool) (files : Files) : Prop :=
  match build with
  | .release =>
      files.lookup (sunPath suffix) = none ∧
      (made = true → files.lookup (sockdir suffix) = none)
  | .debug =>
      files.lookup (sunPath suffix) ≠ some .directory ∧
      (made = true → files.lookup (sockdir suffix) = none ∨
        files.lookup (sockdir suffix) = some .directory ∧
          ∀ e ∈ files, Below (sockdir suffix) e.1 → e.1 = sunPath suffix)

theorem cleanup_eq {server : ServerState} (hp : server.sunPath = sunPath g.suffix) :
    cleanup build server s = warnOnFail build (rmdir (sockdir g.suffix))
      (warnOnFail build (FileTree.unlink (sunPath g.suffix)) s) := by
  have hd : cleanup build server s = warnOnFail build (rmdir (dirname server.sunPath))
      (warnOnFail build (FileTree.unlink server.sunPath) s) := rfl
  rw [hd, hp, dirname_sunPath]

theorem lookup_cleanup_debug {files : Files} (made : Bool) :
    (attempt (rmdir (sockdir g.suffix)) (attempt (FileTree.unlink (sunPath g.suffix)) files)).lookup
        (sunPath g.suffix) = none ∧
      (made = true →
        (attempt (rmdir (sockdir g.suffix))
          (attempt (FileTree.unlink (sunPath g.suffix)) files)).lookup (sockdir g.suffix) = none) ↔
    Removable .debug g.suffix made files := by
  have hne := sockdir_ne_sunPath g.suffix
  rw [lookup_rmdir_of_ne hne.symm, lookup_unlink_self, lookup_rmdir_self, lookup_unlink_of_ne hne]
  unfold Removable
  refine and_congr_right fun hp => ?_
  have hb : (∀ e ∈ attempt (FileTree.unlink (sunPath g.suffix)) files,
      ¬ Below (sockdir g.suffix) e.1) ↔
      ∀ e ∈ files, Below (sockdir g.suffix) e.1 → e.1 = sunPath g.suffix := by
    rw [attempt_unlink, if_neg hp]
    constructor
    · intro h e he hb
      by_contra hn
      exact h e (mem_remove.mpr ⟨he, hn⟩) hb
    · intro h e he hb
      obtain ⟨he, hn⟩ := mem_remove.mp he
      exact hn (h e he hb)
  rw [hb]

theorem prepare_eq_some {env : List CStr × ℕ}
    (h : prepare g libs opts envp context s.begin = (context', s₁, some env)) :
    (∃ block server, context'.serverState = some (block, server) ∧
      server.sunPath = sunPath g.suffix) ∧
    s₁.created = (if (s.newDirectory g).isSome then [.directory (sockdir g.suffix)] else []) ++
      [.descriptor (lowestFree s.descriptors), .socketFile (sunPath g.suffix)] := by
  have hc := created_createServerSocket (g := g) (s := s.begin.calloc.1) rfl
  have hp := createServerSocket_path (g := g) (s := s.begin.calloc.1)
  unfold prepare at h
  dsimp only at h
  split at h
  · cases h
  · next hlt =>
    cases h
    exact ⟨⟨_, _, rfl, hp⟩, hc (Int.not_lt.mp hlt)⟩

/--
After `voyeur_start` the socket's file and the directory are gone if and only if, at the end
of the loop, they were gone already (in a release build) or could be removed (with `DEBUG`).
-/
theorem removed_iff {serve : System → Option (System × ℤ)} {res : ℤ} {env : List CStr × ℕ}
    {block : ℕ} {server : ServerState}
    (hp : prepare g libs opts envp context s.begin = (context', s₁, some env))
    (hc : context'.serverState = some (block, server)) (hs : serve s₁ = some (s', res)) :
    ∃ s₂, voyeurStart build server serve s₁ = some (s₂, res) ∧
      (Removed s₁ s₂ ↔ Removable build g.suffix (s.newDirectory g).isSome s'.files) := by
  obtain ⟨⟨block', server', hc', hpath⟩, hmade⟩ := prepare_eq_some hp
  obtain ⟨rfl, rfl⟩ : block' = block ∧ server' = server := by simpa [hc] using hc'.symm
  refine ⟨cleanup build server' s', by simp [voyeurStart, hs], ?_⟩
  have hr : ∀ s₂ : System, Removed s₁ s₂ ↔ s₂.files.lookup (sunPath g.suffix) = none ∧
      ((s.newDirectory g).isSome = true → s₂.files.lookup (sockdir g.suffix) = none) := by
    intro s₂
    unfold Removed
    rw [hmade]
    cases (s.newDirectory g).isSome <;> simp [and_comm]
  rw [hr, cleanup_eq hpath]
  cases build with
  | release => rfl
  | debug => exact lookup_cleanup_debug _

theorem mem_createServerSocket {e : Path × Node}
    (h : e ∈ (createServerSocket g s).1.files) :
    e.1 = sunPath g.suffix ∨ e.1 = sockdir g.suffix ∨ e ∈ s.files := by
  have hm : ∀ e ∈ (s.mkdtemp g).files, e.1 = sockdir g.suffix ∨ e ∈ s.files := by
    intro e he
    unfold System.mkdtemp at he
    cases hn : s.newDirectory g with
    | none =>
      rw [hn] at he
      exact .inr he
    | some files =>
      rw [hn] at he
      obtain ⟨-, hc⟩ := Option.ite_none_right_eq_some.mp hn
      obtain ⟨-, rfl⟩ := create_eq_some hc
      rcases List.mem_cons.mp he with rfl | he
      · exact .inl rfl
      · exact .inr he
  have hb : ∀ e ∈ (beforeBind g s).files, e.1 = sockdir g.suffix ∨ e ∈ s.files := by
    intro e he
    have he' : e ∈ ((s.mkdtemp g).unlink (sunPath g.suffix)).files := by
      unfold beforeBind System.socket at he
      split at he <;> exact he
    simp only [System.unlink, attempt_unlink] at he'
    split at he'
    · exact hm e he'
    · exact hm e (mem_remove.mp he').1
  unfold createServerSocket at h
  cases hs : (beforeBind g s).bind g (((s.mkdtemp g).unlink (sunPath g.suffix)).socket g).2
      (sunPath g.suffix) with
  | none =>
    rw [beforeBind] at hs
    simp only [hs] at h
    exact .inr (hb e h)
  | some s' =>
    have he : e ∈ s'.files := by
      rw [beforeBind] at hs
      simp only [hs] at h
      split at h <;> exact h
    obtain ⟨-, hs⟩ := Option.ite_none_right_eq_some.mp hs
    obtain ⟨files, hc, rfl⟩ := Option.map_eq_some_iff.mp hs
    obtain ⟨-, rfl⟩ := create_eq_some hc
    rcases List.mem_cons.mp he with rfl | he
    · exact .inl rfl
    · exact .inr (hb e he)

theorem files_of_prepare {env : List CStr × ℕ}
    (h : prepare g libs opts envp context s.begin = (context', s₁, some env)) :
    Intact s₁ ∧ ∀ e ∈ s₁.files,
      e.1 = sunPath g.suffix ∨ e.1 = sockdir g.suffix ∨ e ∈ s.files := by
  obtain ⟨hi, -, -⟩ := createServerSocket_spec (g := g) (s := s.begin.calloc.1) rfl
  unfold prepare at h
  dsimp only at h
  split at h
  · cases h
  · cases h
    exact ⟨hi, fun e he => mem_createServerSocket (s := s.begin.calloc.1) he⟩

theorem removable_undisturbed {env : List CStr × ℕ}
    (hp : prepare g libs opts envp context s.begin = (context', s₁, some env))
    (hf : ∀ e ∈ s.files, ¬ Below (sockdir g.suffix) e.1) :
    Removable .debug g.suffix (s.newDirectory g).isSome s₁.files := by
  obtain ⟨hi, hm⟩ := files_of_prepare hp
  obtain ⟨-, hc⟩ := prepare_eq_some hp
  have hsock : s₁.files.lookup (sunPath g.suffix) = some .socket :=
    hi (.socketFile (sunPath g.suffix)) (by rw [hc]; simp)
  constructor
  · rw [hsock]
    simp
  · intro hmade
    have hdir : s₁.files.lookup (sockdir g.suffix) = some .directory :=
      hi (.directory (sockdir g.suffix)) (by rw [hc, if_pos hmade]; simp)
    refine .inr ⟨hdir, fun e he hb => ?_⟩
    rcases hm e he with h | h | h
    · exact h
    · have hl := hb.length_le
      rw [h, List.length_append, List.length_singleton] at hl
      omega
    · exact absurd hb (hf e h)

theorem not_removable_undisturbed {env : List CStr × ℕ} (made : Bool)
    (hp : prepare g libs opts envp context s.begin = (context', s₁, some env)) :
    ¬ Removable .release g.suffix made s₁.files := by
  obtain ⟨hi, -⟩ := files_of_prepare hp
  obtain ⟨-, hc⟩ := prepare_eq_some hp
  have hsock : s₁.files.lookup (sunPath g.suffix) = some .socket :=
    hi (.socketFile (sunPath g.suffix)) (by rw [hc]; simp)
  rintro ⟨hn, -⟩
  rw [hsock] at hn
  cases hn

theorem noProgram_prepares : ∃ context' s₁ env block server,
    prepare noProgram [] [] [] ⟨0, none, none⟩ emptyTmp.begin = (context', s₁, some env) ∧
      context'.serverState = some (block, server) := by
  cases hp : prepare noProgram [] [] [] ⟨0, none, none⟩ emptyTmp.begin with
  | mk context' rest =>
    obtain ⟨s₁, result⟩ := rest
    have hx : (prepare noProgram [] [] [] ⟨0, none, none⟩ emptyTmp.begin).2.2.isSome = true := by
      decide +kernel
    cases result with
    | none => simp [hp] at hx
    | some env =>
      obtain ⟨⟨block, server, hc, -⟩, -⟩ := prepare_eq_some hp
      exact ⟨context', s₁, env, block, server, rfl, hc⟩

/-- The child exits at once, in a `DEBUG` build. -/
theorem removed_iff_debug : ∃ context' s₁ env block server s₂,
    prepare noProgram [] [] [] ⟨0, none, none⟩ emptyTmp.begin = (context', s₁, some env) ∧
      voyeurStart .debug server (fun s => some (s, 0)) s₁ = some (s₂, 0) ∧
      context'.serverState = some (block, server) ∧ Removed s₁ s₂ := by
  obtain ⟨context', s₁, env, block, server, hp, hc⟩ := noProgram_prepares
  obtain ⟨s₂, hv, hr⟩ : ∃ s₂, voyeurStart .debug server (fun s => some (s, 0)) s₁ = some (s₂, 0) ∧
      (Removed s₁ s₂ ↔ Removable .debug noProgram.suffix (emptyTmp.newDirectory noProgram).isSome
        s₁.files) :=
    removed_iff hp hc rfl
  refine ⟨context', s₁, env, block, server, s₂, hp, hv, hc, hr.mpr ?_⟩
  refine removable_undisturbed hp ?_
  decide +kernel

/-- The child exits at once, in a release build. -/
theorem not_removed_release : ∃ context' s₁ env block server s₂,
    prepare noProgram [] [] [] ⟨0, none, none⟩ emptyTmp.begin = (context', s₁, some env) ∧
      context'.serverState = some (block, server) ∧
      voyeurStart .release server (fun s => some (s, 0)) s₁ = some (s₂, 0) ∧
      ¬ Removed s₁ s₂ := by
  obtain ⟨context', s₁, env, block, server, hp, hc⟩ := noProgram_prepares
  refine ⟨context', s₁, env, block, server, s₁, hp, hc, rfl, fun hr => ?_⟩
  obtain ⟨hi, -⟩ := files_of_prepare hp
  obtain ⟨-, hm⟩ := prepare_eq_some hp
  have hx : .socketFile (sunPath noProgram.suffix) ∈ s₁.created := by rw [hm]; simp
  have hgone : s₁.files.lookup (sunPath noProgram.suffix) = none := hr _ hx
  have hthere : s₁.files.lookup (sunPath noProgram.suffix) = some .socket := hi _ hx
  rw [hthere] at hgone
  cases hgone

end Voyeur
