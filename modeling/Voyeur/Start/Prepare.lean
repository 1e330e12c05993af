import Voyeur.Environment.Augment
import Voyeur.Files.Tree

/-! # Starting an observation

`voyeur_prepare` makes a directory, a socket and the socket's file, and `voyeur_exec`
starts the child. None of the failures on the way undoes what was made before it, and
`voyeur_context_destroy` gives back memory only.
-/

namespace Voyeur

open FileTree

/-- The characters that `mkdtemp` puts in place of the last six. -/
structure Suffix where
  chars : CStr
  length_chars : chars.length = 6
  noSlash : slash ∉ chars

/-- What the kernel grants during a start. -/
structure Grants where
  suffix : Suffix
  mkdtemp : Bool
  socket : Bool
  bind : Bool
  listen : Bool
  /-- The child of `posix_spawnp`. -/
  child : Option ℤ

inductive Thing
  | directory (p : Path)
  | descriptor (fd : ℕ)
  | socketFile (p : Path)
  deriving DecidableEq

/-- The part of the world that a start changes. -/
structure System where
  files : Files
  descriptors : List ℕ
  /-- The allocated blocks. -/
  heap : List ℕ
  /-- What has been made since the start was called. -/
  created : List Thing

namespace System

def Has (s : System) : Thing → Prop
  | .directory p => s.files.lookup p = some .directory
  | .descriptor fd => fd ∈ s.descriptors
  | .socketFile p => s.files.lookup p = some .socket

instance (s : System) (x : Thing) : Decidable (s.Has x) := by
  unfold Has; split <;> infer_instance

def calloc (s : System) : System × ℕ :=
  ({ s with heap := lowestFree s.heap :: s.heap }, lowestFree s.heap)

def free (s : System) (block : Option ℕ) : System :=
  match block with
  | some block => { s with heap := s.heap.erase block }
  | none => s

end System

/-- The directory's name, once `mkdtemp` has filled it in. -/
def sockdir (suffix : Suffix) : CStr :=
  ascii ['/', 't', 'm', 'p', '/', 'l', 'i', 'b', 'v', 'o', 'y', 'e', 'u', 'r', '-', 'X', 'X', 'X'] ++
    suffix.chars

/-- `sizeof(sockinfo->sun_path)`. -/
def sunPathSize : ℕ := 108

def sunPath (suffix : Suffix) : CStr :=
  strlcat (strlcpy (sockdir suffix) sunPathSize)
    (ascii ['/', 's', 'o', 'c', 'k', 'e', 't']) sunPathSize

namespace System

/-- Whether `mkdtemp` makes the directory. -/
def newDirectory (g : Grants) (s : System) : Option Files :=
  if g.mkdtemp then create s.files (sockdir g.suffix) .directory else none

/-- `mkdtemp`, whose result is ignored. -/
def mkdtemp (g : Grants) (s : System) : System :=
  match s.newDirectory g with
  | some files =>
      { s with files := files, created := s.created ++ [.directory (sockdir g.suffix)] }
  | none => s

def unlink (p : Path) (s : System) : System :=
  { s with files := attempt (FileTree.unlink p) s.files }

def socket (g : Grants) (s : System) : System × ℤ :=
  if g.socket then
    ({ s with
        descriptors := lowestFree s.descriptors :: s.descriptors
        created := s.created ++ [.descriptor (lowestFree s.descriptors)] },
      lowestFree s.descriptors)
  else (s, -1)

def bind (g : Grants) (sock : ℤ) (p : Path) (s : System) : Option System :=
  if g.bind ∧ 0 ≤ sock then
    (create s.files p .socket).map fun files =>
      { s with files := files, created := s.created ++ [.socketFile p] }
  else none

end System

/-- `voyeur_create_server_socket`: the path in `sockinfo`, and the result. -/
def createServerSocket (g : Grants) (s : System) : System × CStr × ℤ :=
  let path := sunPath g.suffix
  let (s, serverSock) := ((s.mkdtemp g).unlink path).socket g
  match s.bind g serverSock path with
  | none => (s, path, -1)
  | some s => if g.listen then (s, path, serverSock) else (s, path, -1)

/-- `server_state`. -/
structure ServerState where
  sunPath : CStr
  serverSock : ℤ
  envBuf : Option ℕ

/-- The blocks that a `voyeur_context` owns. -/
structure ContextBlocks where
  self : ℕ
  resourcePath : Option ℕ
  serverState : Option (ℕ × ServerState)

/-- `voyeur_prepare`, with the results of `voyeur_requested_libs` and `voyeur_requested_opts`. -/
def prepare (g : Grants) (libs opts : CStr) (envp : List CStr) (context : ContextBlocks)
    (s : System) : ContextBlocks × System × Option (List CStr × ℕ) :=
  let (s, state) := s.calloc
  let (s, path, serverSock) := createServerSocket g s
  if serverSock < 0 then
    ({ context with serverState := some (state, ⟨path, serverSock, none⟩) }, s, none)
  else
    let (s, _) := s.calloc   -- the libraries, which nobody frees
    let (s, _) := s.calloc   -- the options
    let (s, envBuf) := s.calloc
    let (s, newenvp) := s.calloc
    ({ context with serverState := some (state, ⟨path, serverSock, some envBuf⟩) }, s,
      some (augmentEnvironment envp libs opts path, newenvp))

inductive Started
  | failed (context : ContextBlocks) (s : System)
  | running (context : ContextBlocks) (s : System) (child : ℤ) (newenvp : ℕ)

/-- The context and the world after a failure. -/
def Started.failure : Started → Option (ContextBlocks × System)
  | .failed context s => some (context, s)
  | .running .. => none

/-- `voyeur_exec` up to `voyeur_start`. -/
def exec (g : Grants) (libs opts : CStr) (envp : List CStr) (context : ContextBlocks)
    (s : System) : Started :=
  match prepare g libs opts envp context s with
  | (context, s, none) => .failed context s
  | (context, s, some (_, newenvp)) =>
      match g.child with
      | none => .failed context (s.free (some newenvp))
      | some child => .running context s child newenvp

/-- `voyeur_context_destroy`. -/
def contextDestroy (context : ContextBlocks) (s : System) : System :=
  let s := s.free context.resourcePath
  let s := match context.serverState with
    | some (state, server) => (s.free server.envBuf).free (some state)
    | none => s
  s.free (some context.self)

theorem length_sockdir (suffix : Suffix) : (sockdir suffix).length = 24 := by
  simp [sockdir, ascii, suffix.length_chars]

theorem sunPath_eq (suffix : Suffix) :
    sunPath suffix = sockdir suffix ++ slash :: ascii ['s', 'o', 'c', 'k', 'e', 't'] := by
  have hl := length_sockdir suffix
  have hcpy : strlcpy (sockdir suffix) sunPathSize = sockdir suffix := by
    rw [strlcpy, List.take_of_length_le]
    rw [hl]
    decide
  rw [sunPath, hcpy, strlcat, if_neg (by rw [hl]; decide), hl]
  rfl

theorem dirname_sunPath (suffix : Suffix) : dirname (sunPath suffix) = sockdir suffix := by
  rw [sunPath_eq]
  exact dirname_append (by decide)

theorem sockdir_ne_sunPath (suffix : Suffix) : sockdir suffix ≠ sunPath suffix := by
  rw [sunPath_eq]
  exact ne_append _

/-- All that was made is still there. -/
def Intact (s : System) : Prop := ∀ x ∈ s.created, s.Has x

/-- Nothing of what was made is still there. -/
def Undone (s : System) : Prop := ∀ x ∈ s.created, ¬ s.Has x

instance (s : System) : Decidable (Undone s) := by
  unfold Undone; infer_instance

variable {g : Grants} {s s' : System} {libs opts : CStr} {envp : List CStr}
  {context context' : ContextBlocks}

/-- Neither the directory nor the socket can be made. -/
def MakesNothing (g : Grants) (s : System) : Prop := s.newDirectory g = none ∧ g.socket = false

instance (g : Grants) (s : System) : Decidable (MakesNothing g s) := by
  unfold MakesNothing; infer_instance

theorem Intact.undone_iff_created (h : Intact s) : Undone s ↔ s.created = [] := by
  constructor
  · intro hu
    rw [List.eq_nil_iff_forall_not_mem]
    exact fun x hx => hu x hx (h x hx)
  · intro he x hx
    rw [he] at hx
    cases hx

theorem lookup_cons_of_some {files : Files} {p q : Path} {node node' : Node}
    (hp : files.lookup p = none) (h : files.lookup q = some node) :
    List.lookup q ((p, node') :: files) = some node := by
  have hne : (q == p) = false := by
    rw [beq_eq_false_iff_ne]
    rintro rfl
    rw [hp] at h
    cases h
  rw [List.lookup_cons, hne]
  exact h

theorem Intact.create {files : Files} {p : Path} {node : Node} {x : Thing} (h : Intact s)
    (hc : create s.files p node = some files)
    (hx : System.Has { s with files := files, created := s.created ++ [x] } x) :
    Intact { s with files := files, created := s.created ++ [x] } := by
  obtain ⟨hp, rfl⟩ := create_eq_some hc
  intro y hy
  rcases List.mem_append.mp hy with hy | hy
  · have hh := h y hy
    cases y with
    | directory q | socketFile q => exact lookup_cons_of_some hp hh
    | descriptor fd => exact hh
  · rw [List.mem_singleton.mp hy]
    exact hx

theorem Intact.mkdtemp (h : Intact s) : Intact (s.mkdtemp g) := by
  unfold System.mkdtemp
  cases hn : s.newDirectory g with
  | none => exact h
  | some files =>
    obtain ⟨-, hc⟩ := Option.ite_none_right_eq_some.mp hn
    refine h.create hc ?_
    obtain ⟨-, rfl⟩ := create_eq_some hc
    simp [System.Has]

theorem Intact.unlink {p : Path} (h : Intact s) (hn : ∀ q, .socketFile q ∉ s.created) :
    Intact (s.unlink p) := by
  intro x hx
  have hh := h x hx
  cases x with
  | directory q =>
    simp only [System.Has, System.unlink] at hh ⊢
    by_cases hq : q = p
    · subst hq
      rw [attempt_unlink, if_pos hh]
      exact hh
    · rw [lookup_unlink_of_ne hq]
      exact hh
  | descriptor fd => exact hh
  | socketFile q => exact absurd hx (hn q)

theorem Intact.socket (h : Intact s) : Intact (s.socket g).1 := by
  unfold System.socket
  split
  · intro x hx
    rcases List.mem_append.mp hx with hx | hx
    · have hh := h x hx
      cases x with
      | directory | socketFile => exact hh
      | descriptor fd => exact List.mem_cons_of_mem _ hh
    · rw [List.mem_singleton.mp hx]
      exact List.mem_cons_self
  · exact h

theorem Intact.bind {sock : ℤ} {p : Path} (h : Intact s) (hb : s.bind g sock p = some s') :
    Intact s' := by
  obtain ⟨-, hb⟩ := Option.ite_none_right_eq_some.mp hb
  obtain ⟨files, hc, rfl⟩ := Option.map_eq_some_iff.mp hb
  refine h.create hc ?_
  obtain ⟨-, rfl⟩ := create_eq_some hc
  simp [System.Has]

theorem created_mkdtemp : (s.mkdtemp g).created =
    s.created ++ if (s.newDirectory g).isSome then [.directory (sockdir g.suffix)] else [] := by
  unfold System.mkdtemp
  cases s.newDirectory g <;> simp

theorem created_socket : (s.socket g).1.created =
    s.created ++ if g.socket then [.descriptor (lowestFree s.descriptors)] else [] := by
  unfold System.socket
  split <;> simp

theorem socket_nonneg : 0 ≤ (s.socket g).2 ↔ g.socket = true := by
  unfold System.socket
  split
  · next hs => simp [hs]
  · next hs => simp [hs]

theorem bind_eq_some {sock : ℤ} {p : Path} (h : s.bind g sock p = some s') :
    0 ≤ sock ∧ s'.created = s.created ++ [.socketFile p] := by
  obtain ⟨⟨-, hs⟩, h⟩ := Option.ite_none_right_eq_some.mp h
  obtain ⟨files, -, rfl⟩ := Option.map_eq_some_iff.mp h
  exact ⟨hs, rfl⟩

/-- The world before `bind`. -/
def beforeBind (g : Grants) (s : System) : System :=
  (((s.mkdtemp g).unlink (sunPath g.suffix)).socket g).1

theorem created_beforeBind (h : s.created = []) : (beforeBind g s).created = [] ↔
    MakesNothing g s := by
  unfold beforeBind MakesNothing
  rw [created_socket]
  simp only [System.unlink, created_mkdtemp, h]
  cases s.newDirectory g <;> cases g.socket <;> simp

theorem intact_beforeBind (h : s.created = []) : Intact (beforeBind g s) := by
  have hi : Intact s := by
    intro x hx
    rw [h] at hx
    cases hx
  refine ((hi.mkdtemp (g := g)).unlink fun q hq => ?_).socket
  rw [created_mkdtemp, h, List.nil_append] at hq
  split at hq
  · cases List.mem_singleton.mp hq
  · cases hq

/-- What `voyeur_create_server_socket` has made is still there, also when it fails. -/
theorem createServerSocket_spec (h : s.created = []) :
    Intact (createServerSocket g s).1 ∧
    ((createServerSocket g s).1.created = [] ↔ MakesNothing g s) ∧
    (0 ≤ (createServerSocket g s).2.2 → ¬ MakesNothing g s) := by
  have hi := intact_beforeBind (g := g) h
  have hc := created_beforeBind (g := g) h
  unfold createServerSocket
  cases hb : (beforeBind g s).bind g (((s.mkdtemp g).unlink (sunPath g.suffix)).socket g).2
      (sunPath g.suffix) with
  | none =>
    rw [beforeBind] at hb
    simp only [hb]
    exact ⟨hi, hc, fun hn => absurd hn (by decide)⟩
  | some s' =>
    obtain ⟨hs, hs'⟩ := bind_eq_some hb
    have hn : ¬ MakesNothing g s := by
      rintro ⟨-, hf⟩
      rw [socket_nonneg.mp hs] at hf
      cases hf
    have hne : s'.created ≠ [] := by simp [hs']
    have hi' := hi.bind hb
    rw [beforeBind] at hb
    simp only [hb]
    cases g.listen <;> simp [hi', hne, hn]

theorem createServerSocket_path : (createServerSocket g s).2.1 = sunPath g.suffix := by
  unfold createServerSocket
  cases hb : (((s.mkdtemp g).unlink (sunPath g.suffix)).socket g).1.bind g
      (((s.mkdtemp g).unlink (sunPath g.suffix)).socket g).2 (sunPath g.suffix) with
  | none => simp only [hb]
  | some s' =>
    simp only [hb]
    split <;> rfl

theorem descriptors_mkdtemp : (s.mkdtemp g).descriptors = s.descriptors := by
  unfold System.mkdtemp
  split <;> rfl

theorem created_createServerSocket (h : s.created = [])
    (hs : 0 ≤ (createServerSocket g s).2.2) : (createServerSocket g s).1.created =
      (if (s.newDirectory g).isSome then [.directory (sockdir g.suffix)] else []) ++
        [.descriptor (lowestFree s.descriptors), .socketFile (sunPath g.suffix)] := by
  unfold createServerSocket at hs ⊢
  cases hb : (((s.mkdtemp g).unlink (sunPath g.suffix)).socket g).1.bind g
      (((s.mkdtemp g).unlink (sunPath g.suffix)).socket g).2 (sunPath g.suffix) with
  | none =>
    simp only [hb] at hs
    exact absurd hs (by decide)
  | some s' =>
    simp only [hb] at hs ⊢
    obtain ⟨hn, hc⟩ := bind_eq_some hb
    have hg : g.socket = true := socket_nonneg.mp hn
    have hc' : s'.created =
        (if (s.newDirectory g).isSome then [.directory (sockdir g.suffix)] else []) ++
          [.descriptor (lowestFree s.descriptors), .socketFile (sunPath g.suffix)] := by
      rw [hc, created_socket, if_pos hg]
      simp only [System.unlink, created_mkdtemp, descriptors_mkdtemp, h]
      simp
    cases hl : g.listen with
    | false =>
      simp [hl] at hs
    | true => exact hc'

/-- The start of a call, after which nothing has been made yet. -/
def System.begin (s : System) : System := { s with created := [] }

/-- The calls that report a failure before the server runs. -/
inductive Fails (g : Grants) (libs opts : CStr) (envp : List CStr) (context : ContextBlocks)
    (s : System) : ContextBlocks → System → Prop
  | prepare {context' : ContextBlocks} {s' : System} :
      prepare g libs opts envp context s.begin = (context', s', none) →
      Fails g libs opts envp context s context' s'
  | exec {context' : ContextBlocks} {s' : System} :
      exec g libs opts envp context s.begin = .failed context' s' →
      Fails g libs opts envp context s context' s'

theorem undone_free {block : Option ℕ} : Undone (s.free block) ↔ Undone s := by
  cases block <;> rfl

theorem undone_contextDestroy : Undone (contextDestroy context s) ↔ Undone s := by
  unfold contextDestroy
  rw [undone_free]
  cases context.serverState with
  | none => exact undone_free
  | some state => exact undone_free.trans (undone_free.trans undone_free)

theorem prepare_spec {result : Option (List CStr × ℕ)}
    (h : prepare g libs opts envp context s.begin = (context', s', result)) :
    (Undone s' ↔ MakesNothing g s) ∧ (result.isSome → ¬ MakesNothing g s) := by
  obtain ⟨hi, hc, hn⟩ := createServerSocket_spec (g := g) (s := s.begin.calloc.1) rfl
  have hu := hi.undone_iff_created.trans hc
  unfold prepare at h
  dsimp only at h
  split at h
  · cases h
    exact ⟨hu, fun hr => by cases hr⟩
  · next hlt =>
    cases h
    exact ⟨hu, fun _ => hn (Int.not_lt.mp hlt)⟩

/--
A start that fails leaves nothing of what it made if and only if it could make neither the
directory nor the socket.
-/
theorem undone_iff (h : Fails g libs opts envp context s context' s') :
    Undone (contextDestroy context' s') ↔ MakesNothing g s := by
  rw [undone_contextDestroy]
  cases h with
  | prepare hp => exact (prepare_spec hp).1
  | exec he =>
    unfold exec at he
    split at he
    · next hp =>
      cases he
      exact (prepare_spec hp).1
    · next hp =>
      split at he
      · cases he
        exact undone_free.trans (prepare_spec hp).1
      · cases he

/-- The directory is the program's, and `/tmp` is empty. -/
def emptyTmp : System where
  files := [(ascii ['/', 't', 'm', 'p'], .directory)]
  descriptors := [0, 1, 2]
  heap := []
  created := []

/-- Everything is granted, but there is no program to run. -/
def noProgram : Grants where
  suffix := ⟨ascii ['a', 'b', 'c', 'd', 'e', 'f'], rfl, by decide⟩
  mkdtemp := true
  socket := true
  bind := true
  listen := true
  child := none

theorem failure_eq_some {started : Started} (h : started.failure = some (context, s)) :
    started = .failed context s := by
  cases started with
  | failed context' s' =>
    cases h
    rfl
  | running => cases h

theorem noProgram_fails : ∃ context' s',
    exec noProgram [] [] [] ⟨0, none, none⟩ emptyTmp.begin = .failed context' s' ∧
      s'.created.length = 3 ∧ ¬ Undone (contextDestroy context' s') := by
  have hx : (exec noProgram [] [] [] ⟨0, none, none⟩ emptyTmp.begin).failure.any (fun x =>
      decide (x.2.created.length = 3 ∧ ¬ Undone (contextDestroy x.1 x.2))) = true := by
    decide +kernel
  cases hf : (exec noProgram [] [] [] ⟨0, none, none⟩ emptyTmp.begin).failure with
  | none => simp [hf] at hx
  | some x =>
    rw [hf] at hx
    exact ⟨x.1, x.2, failure_eq_some hf, of_decide_eq_true hx⟩

theorem undone_iff_noProgram :
    ∃ context' s', Fails noProgram [] [] [] ⟨0, none, none⟩ emptyTmp context' s' ∧
      (Undone (contextDestroy context' s') ↔ MakesNothing noProgram emptyTmp) := by
  obtain ⟨context', s', he, -⟩ := noProgram_fails
  exact ⟨context', s', .exec he, undone_iff (.exec he)⟩

/-- The directory, the socket and its file are still there when the child cannot be started. -/
theorem not_undone_noProgram :
    ∃ context' s', Fails noProgram [] [] [] ⟨0, none, none⟩ emptyTmp context' s' ∧
      ¬ Undone (contextDestroy context' s') := by
  obtain ⟨context', s', he, -, hu⟩ := noProgram_fails
  exact ⟨context', s', .exec he, hu⟩

end Voyeur
