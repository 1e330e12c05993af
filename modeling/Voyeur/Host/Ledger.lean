import Mathlib.Tactic.Abel
import Voyeur.Host.Session
import Voyeur.Environment.OptsMemory

/-! # Who has which block

For every call it is said which blocks it is given and which it leaves. In a session every
block of the library is then on the books: with a context that points to it, as the array of an
environment, as the argument of a thread, or as lost.
-/

namespace Voyeur.Host

open Allocator (Heap Prog Triple)
open Allocator.Heap (Adds)
open FileTree (strrchr slash)

abbrev Blocks := Multiset (ℕ × Cell)

/-- The state of a server. -/
structure ServerBook where
  state : ℕ
  sunPath : CStr
  serverSock : ℤ
  envBuf : Option (ℕ × List CStr)

/-- A context with the blocks that it points to. -/
structure Book where
  context : ℕ
  observed : Context
  path : Option (ℕ × ℕ × CStr)
  server : Option ServerBook

/-- The array of an environment with the variables that were made for it. -/
structure Given where
  array : ℕ
  context : Option ℕ
  envp : List CStr
  buf : ℕ
  libs : CStr
  opts : CStr
  sockpath : CStr

namespace ServerBook

def bufBlocks (v : ServerBook) : Blocks := v.envBuf.elim 0 fun b => {(b.1, .envBuf b.2)}

def cell (v : ServerBook) : Cell := .serverState v.sunPath v.serverSock (v.envBuf.map Prod.fst)

def blocks (v : ServerBook) : Blocks := {(v.state, v.cell)} + v.bufBlocks

end ServerBook

namespace Book

def cell (b : Book) : Cell :=
  .context b.observed (b.path.map Prod.fst) (b.server.map ServerBook.state)

def pathBlocks (b : Book) : Blocks := b.path.elim 0 fun p => {(p.1, .chars p.2.1 p.2.2)}

def serverBlocks (b : Book) : Blocks := b.server.elim 0 ServerBook.blocks

def blocks (b : Book) : Blocks := {(b.context, b.cell)} + (b.pathBlocks + b.serverBlocks)

end Book

namespace Given

def vars (g : Given) : List CStr := newVars g.envp g.libs g.opts g.sockpath

def block (g : Given) : ℕ × Cell := (g.array, .environ (newEntries g.envp g.buf))

def environ (g : Given) : Environ := ⟨g.array, g.context, g.envp⟩

def forget (context : ℕ) (g : Given) : Given :=
  if g.context = some context then { g with context := none } else g

end Given

section

variable {b : Book} {v : ServerBook}

theorem Book.cell_mem (b : Book) : (b.context, b.cell) ∈ b.blocks :=
  Multiset.mem_add.mpr (.inl (Multiset.mem_singleton_self _))

theorem ServerBook.cell_mem (v : ServerBook) : (v.state, v.cell) ∈ v.blocks :=
  Multiset.mem_add.mpr (.inl (Multiset.mem_singleton_self _))

theorem Book.server_subset (hv : b.server = some v) {x : ℕ × Cell} (hx : x ∈ v.blocks) :
    x ∈ b.blocks := by
  refine Multiset.mem_add.mpr (.inr (Multiset.mem_add.mpr (.inr ?_)))
  rwa [serverBlocks, hv]

theorem Book.blocks_of_server (hv : b.server = some v) :
    b.blocks = {(v.state, v.cell)} + ({(b.context, b.cell)} + (b.pathBlocks + v.bufBlocks)) := by
  rw [blocks, serverBlocks, hv, Option.elim, ServerBook.blocks]
  abel

theorem observe_spec (b : Book) (t : EventType) (o : Observer) :
    Triple b.blocks (observe t b.context o) fun _ m =>
      m = { b with observed := register b.observed t o }.blocks := by
  refine .seq (.load b.cell_mem rfl ?_)
  exact .write rfl

theorem setResourcePath_spec (b : Book) (path : CStr) :
    Triple b.blocks (setResourcePath b.context path) fun _ m =>
      ∃ q, m = { b with path := some q }.blocks + b.pathBlocks := by
  refine .seq (.alloc fun buffer => ?_)
  refine .seq (.load (Multiset.mem_add.mpr (.inr b.cell_mem)) rfl ?_)
  refine .seq (.congr _ (add_left_comm _ _ _) (.write ?_))
  refine .congr _ (add_left_comm _ _ _) (.write ?_)
  refine ⟨(buffer, strnlen path 4096, strlcat [] path 4096), ?_⟩
  simp only [Book.blocks, Book.cell, Book.pathBlocks, Book.serverBlocks, Option.elim,
    Option.map_some]
  abel

theorem forM_free {γ : Type} (x : Option γ) (address : γ → ℕ) (cell : γ → Cell) :
    Triple (x.elim 0 fun c => {(address c, cell c)}) ((x.map address).forM Prog.free)
      fun _ m => m = 0 := by
  cases x with
  | none => exact .pure rfl
  | some c =>
    refine .congr _ (add_zero _).symm ?_
    exact .free rfl

theorem freeServerState_spec (v : ServerBook) :
    Triple v.blocks (freeServerState v.state) fun _ m => m = 0 := by
  refine .seq (.load v.cell_mem rfl ?_)
  refine .call (forM_free v.envBuf Prod.fst fun b => .envBuf b.2) (add_comm _ _) ?_
  rintro - _ rfl
  exact .congr _ (add_comm _ _) (.free rfl)

theorem forM_freeServerState (x : Option ServerBook) :
    Triple (x.elim 0 ServerBook.blocks) ((x.map ServerBook.state).forM freeServerState)
      fun _ m => m = 0 := by
  cases x with
  | none => exact .pure rfl
  | some v => exact freeServerState_spec v

theorem contextDestroy_spec (b : Book) :
    Triple b.blocks (contextDestroy b.context) fun _ m => m = 0 := by
  refine .seq (.load b.cell_mem rfl ?_)
  refine .call (forM_free b.path Prod.fst fun p => .chars p.2.1 p.2.2) (add_left_comm _ _ _) ?_
  rintro - _ rfl
  rw [zero_add]
  refine .call (forM_freeServerState b.server) (add_comm _ _) ?_
  rintro - _ rfl
  exact .congr _ (add_comm _ _) (.free rfl)

theorem libdir_spec (o : Outcome) (b : Book) :
    Triple b.blocks (libdir o (b.path.map Prod.fst)) fun r m =>
      ∃ x : Option (ℕ × ℕ × CStr), r.2 = x.map Prod.fst ∧
        m = (x.elim 0 fun p => {(p.1, .chars p.2.1 p.2.2)}) + b.blocks := by
  cases hp : b.path with
  | some p =>
    have hm : (p.1, Cell.chars p.2.1 p.2.2) ∈ b.blocks := by
      simp [Book.blocks, Book.pathBlocks, hp]
    refine .seq (.load hm rfl ?_)
    exact .pure ⟨none, rfl, (zero_add _).symm⟩
  | none =>
    change Triple _ (defaultResourcePath o.dlinfo) _
    unfold defaultResourcePath
    split
    · next i _ =>
      refine .seq (.alloc fun q => ?_)
      exact .pure ⟨some (q, i + 2, getDefaultResourcePath o.dlinfo), rfl, rfl⟩
    · exact .pure ⟨none, rfl, (zero_add _).symm⟩

theorem requestedLibs_fst (dummy : ℕ) (dlinfo : Option (Option CStr)) (context : LibContext) :
    (Voyeur.requestedLibs dummy dlinfo context).1 = context := by
  unfold Voyeur.requestedLibs
  cases h : (context.observer .exec).cb with
  | none => simp [setExecCb_restore h]
  | some cb => simp

theorem requestedLibs_spec (o : Outcome) (b : Book) :
    Triple b.blocks (requestedLibs o b.context) fun libs m =>
      ∃ size s, m = {(libs, .chars size s)} + b.blocks := by
  refine .seq (.load b.cell_mem rfl ?_)
  refine .seq ((libdir_spec o b).conseq ?_)
  rintro ⟨dir, allocated⟩ _ ⟨x, rfl, rfl⟩
  have hfst := requestedLibs_fst o.dummy o.dlinfo
    { toContext := b.observed, resourcePath := some dir }
  dsimp only
  generalize Voyeur.requestedLibs o.dummy o.dlinfo _ = r at hfst ⊢
  obtain ⟨context, size, l⟩ := r
  obtain rfl := hfst
  refine .seq (.alloc fun libs => ?_)
  refine .seq (.congr ({(b.context, b.cell)} + ({(libs, .chars size l.libs)} +
    ((x.elim 0 fun p => {(p.1, .chars p.2.1 p.2.2)}) + (b.pathBlocks + b.serverBlocks)))) ?_
    (.write ?_))
  · rw [Book.blocks]
    abel
  refine .call (forM_free x Prod.fst fun p => .chars p.2.1 p.2.2)
    (r := {(b.context, b.cell)} + ({(libs, .chars size l.libs)} +
      (b.pathBlocks + b.serverBlocks))) ?_ ?_
  · rw [Book.cell]
    abel
  · rintro - _ rfl
    refine .pure ⟨size, l.libs, ?_⟩
    rw [zero_add, Book.blocks]
    exact add_left_comm _ _ _

theorem requestedOpts_spec (b : Book) :
    Triple b.blocks (requestedOpts b.context) fun opts m =>
      m = {(opts, .chars eventMax (Voyeur.requestedOpts b.observed).2)} +
        { b with observed := b.observed.forceExec }.blocks := by
  refine .seq (.alloc fun opts => ?_)
  refine .seq (.load (Multiset.mem_add.mpr (.inr b.cell_mem)) rfl ?_)
  refine .seq (.congr _ (add_left_comm _ _ _) (.write ?_))
  refine .seq (.congr _ (add_left_comm _ _ _) (.write ?_))
  exact .pure rfl

theorem augmentEnvironment_spec (o : Outcome) (envp : List CStr) {libs opts state : ℕ}
    {r : Blocks} {n n' : ℕ} {l p path : CStr} {sock : ℤ} {buf : Option ℕ}
    (hl : (libs, .chars n l) ∈ r) (hp : (opts, .chars n' p) ∈ r) :
    Triple ({(state, .serverState path sock buf)} + r)
      (augmentEnvironment o envp libs opts state) fun array m =>
      ∃ buf, m = {(array, .environ (newEntries envp buf))} +
        ({(buf, .envBuf (newVars envp (if l.length < n then l else cString (l ++ o.behind libs))
          (if p.length < n' then p else cString (p ++ o.behind opts)) path))} +
        ({(state, .serverState path sock (some buf))} + r)) := by
  refine .seq (.load (Multiset.mem_add.mpr (.inr hl)) rfl ?_)
  refine .seq (.load (Multiset.mem_add.mpr (.inr hp)) rfl ?_)
  refine .seq (.load (Multiset.mem_add.mpr (.inl (Multiset.mem_singleton_self _))) rfl ?_)
  refine .seq (.alloc fun buf => ?_)
  refine .seq (.congr _ (add_left_comm _ _ _) (.write ?_))
  refine .seq (.congr _ (add_left_comm _ _ _) (.write ?_))
  exact .alloc fun array => ⟨buf, rfl⟩

theorem newServerState_spec (b : Book) :
    Triple b.blocks (newServerState b.context) fun state m =>
      m = {(state, .serverState [] 0 none)} +
        ({(b.context, .context b.observed (b.path.map Prod.fst) (some state))} +
          (b.pathBlocks + b.serverBlocks)) := by
  refine .seq (.alloc fun state => ?_)
  refine .seq (.load (Multiset.mem_add.mpr (.inr b.cell_mem)) rfl ?_)
  refine .seq (.congr _ (add_left_comm _ _ _) (.write ?_))
  exact .pure (add_left_comm _ _ _)

/-- What was made for an environment: its array, and the variables in the server's state. -/
structure Makes (envp : List CStr) (b : Book) (r : Prepared) (v : ServerBook) (g : Given) :
    Prop where
  environ : g.environ = ⟨r.newenvp, some b.context, envp⟩
  buf : v.envBuf = some (g.buf, g.vars)
  opts : ∃ tail, g.opts = optsString b.observed tail

/-- The context after `voyeur_prepare` has made an environment. -/
def Book.prepared (b : Book) (v : ServerBook) : Book :=
  { b with observed := b.observed.forceExec, server := some v }

/-- What `voyeur_prepare` leaves, with the blocks that nothing points to any more behind. -/
def Prepares (envp : List CStr) (b : Book) : Option Prepared → Blocks → Prop
  | none, m => ∃ v, m = { b with server := some v }.blocks + b.serverBlocks
  | some r, m => ∃ v g x y, Makes envp b r v g ∧
      m = {g.block} + ((b.prepared v).blocks +
        (b.serverBlocks + ({(r.libs, x)} + {(r.opts, y)})))

theorem prepare_spec (o : Outcome) (envp : List CStr) (b : Book) :
    Triple b.blocks (prepare o envp b.context) (Prepares envp b) := by
  refine .seq ((newServerState_spec b).conseq ?_)
  rintro state _ rfl
  refine .seq (.write ?_)
  -- From here on the context has a new state, and nothing points to the old one.
  obtain ⟨v, hv⟩ : ∃ v : ServerBook, v = ⟨state, o.sunPath, o.serverSock, none⟩ := ⟨_, rfl⟩
  obtain ⟨b', hb'⟩ : ∃ b' : Book, b' = { b with server := some v } := ⟨_, rfl⟩
  refine .congr (b'.blocks + b.serverBlocks) ?_ ?_
  · subst hb' hv
    simp only [Book.blocks, Book.cell, Book.pathBlocks, Book.serverBlocks, ServerBook.blocks,
      ServerBook.bufBlocks, ServerBook.cell, Option.elim, Option.map_some, Option.map_none]
    abel
  have hc : b'.context = b.context := by rw [hb']
  rw [← hc]
  split
  · exact .pure ⟨v, by rw [hb']⟩
  refine .call (requestedLibs_spec o b') rfl ?_
  rintro libs _ ⟨size, s, rfl⟩
  refine .call (requestedOpts_spec b') (r := {(libs, .chars size s)} + b.serverBlocks) ?_ ?_
  · abel
  rintro opts _ rfl
  obtain ⟨r, hr⟩ : ∃ r : Blocks, r = {(libs, .chars size s)} +
    ({(opts, .chars eventMax (Voyeur.requestedOpts b.observed).2)} +
      ({(b.context, (b.prepared v).cell)} + (b.pathBlocks + b.serverBlocks))) := ⟨_, rfl⟩
  have hlibs : (libs, Cell.chars size s) ∈ r := by simp [hr]
  have hopts : (opts, Cell.chars eventMax (Voyeur.requestedOpts b.observed).2) ∈ r := by simp [hr]
  refine .seq (.congr ({(state, .serverState o.sunPath o.serverSock none)} + r) ?_
    ((augmentEnvironment_spec o envp hlibs hopts).conseq ?_))
  · subst hb' hv hr
    simp only [Book.prepared, Book.blocks, Book.cell, Book.pathBlocks, Book.serverBlocks,
      ServerBook.blocks, ServerBook.bufBlocks, ServerBook.cell, Option.elim, Option.map_some,
      Option.map_none]
    abel
  rintro array _ ⟨buf, rfl⟩
  obtain ⟨l, hl⟩ : ∃ l, l = if s.length < size then s else cString (s ++ o.behind libs) := ⟨_, rfl⟩
  have hfull : ¬ (Voyeur.requestedOpts b.observed).2.length < eventMax := by simp
  rw [if_neg hfull, ← hl]
  refine .pure ⟨{ v with envBuf := some (buf, newVars envp l
    (optsString b.observed (o.behind opts)) o.sunPath) },
    ⟨array, some b.context, envp, buf, l, optsString b.observed (o.behind opts), o.sunPath⟩,
    .chars size s, .chars eventMax (Voyeur.requestedOpts b.observed).2,
    ⟨rfl, rfl, o.behind opts, rfl⟩, ?_⟩
  subst hv hr
  simp only [Given.block, Book.prepared, Book.blocks, Book.cell, Book.pathBlocks,
    Book.serverBlocks, ServerBook.blocks, ServerBook.bufBlocks, ServerBook.cell, Option.elim,
    Option.map_some, optsString]
  abel

theorem start_spec {b : Book} {v : ServerBook} (hv : b.server = some v) (child pipe : ℤ) :
    Triple b.blocks (start b.context child pipe) fun r m =>
      r.1 = v.state ∧ m = {(r.2, .waitpidArg child pipe)} + b.blocks := by
  have hm := b.server_subset hv v.cell_mem
  refine .seq (.load b.cell_mem rfl ?_)
  simp only [hv, Option.map_some]
  refine .seq (.alloc fun arg => ?_)
  refine .seq (.load (Multiset.mem_add.mpr (.inr hm)) rfl ?_)
  exact .pure ⟨rfl, rfl⟩

theorem startReturns_spec {b : Book} {v : ServerBook} (hv : b.server = some v) :
    Triple b.blocks (startReturns v.state) fun _ m =>
      ∃ p, m = { b with server := some { v with sunPath := p } }.blocks := by
  refine .seq (.load (b.server_subset hv v.cell_mem) rfl ?_)
  have hb : b = { b with server := some v } := by rw [← hv]
  dsimp only
  split
  · next lastSlash _ =>
    refine .congr _ (b.blocks_of_server hv) (.write ⟨v.sunPath.take lastSlash, ?_⟩)
    rw [Book.blocks_of_server (b := { b with server := some { v with sunPath := _ } }) rfl,
      Book.cell, hv]
    rfl
  · exact .pure ⟨v.sunPath, congrArg Book.blocks hb⟩

theorem execReturns_spec {b : Book} {v : ServerBook} (hv : b.server = some v) (g : Given) :
    Triple (b.blocks + {g.block}) (execReturns v.state g.array) fun _ m =>
      ∃ p, m = { b with server := some { v with sunPath := p } }.blocks := by
  refine .call (startReturns_spec hv) rfl ?_
  rintro - _ ⟨p, rfl⟩
  exact .congr _ (add_comm _ _) (.free ⟨p, rfl⟩)

/-- What `voyeur_exec` leaves when it fails, or when the server starts. -/
inductive Executes (envp : List CStr) (b : Book) : Option Prepared × Option (ℕ × ℕ) → Blocks → Prop
  | unprepared {m : Blocks} : Prepares envp b none m → Executes envp b (none, none) m
  | unspawned {r : Prepared} {v : ServerBook} {g : Given} {x y : Cell} : Makes envp b r v g →
      Executes envp b (some r, none) ((b.prepared v).blocks +
        (b.serverBlocks + ({(r.libs, x)} + {(r.opts, y)})))
  | running {r : Prepared} {v : ServerBook} {g : Given} {x y : Cell} {arg : ℕ} {child pipe : ℤ} :
      Makes envp b r v g → Executes envp b (some r, some (v.state, arg))
        ({(arg, .waitpidArg child pipe)} + ({g.block} + ((b.prepared v).blocks +
          (b.serverBlocks + ({(r.libs, x)} + {(r.opts, y)})))))

theorem exec_spec (o : Outcome) (envp : List CStr) (b : Book) (child : Option (ℤ × ℤ)) :
    Triple b.blocks (exec o envp b.context child) (Executes envp b) := by
  refine .seq ((prepare_spec o envp b).conseq ?_)
  rintro (- | r) m hm
  · exact .pure (.unprepared hm)
  · obtain ⟨v, g, x, y, hg, rfl⟩ := hm
    have ha : r.newenvp = g.array := congrArg Environ.array hg.environ.symm
    cases child with
    | none =>
      dsimp only
      rw [ha]
      exact .seq (.free (.pure (.unspawned hg)))
    | some child =>
      have hs : (b.prepared v).server = some v := rfl
      refine .call (start_spec hs child.1 child.2) (add_left_comm _ _ _) ?_
      rintro ⟨state, arg⟩ _ ⟨rfl, rfl⟩
      refine .pure ?_
      have hm : Executes envp b (some r, some (v.state, arg))
          ({(arg, .waitpidArg child.1 child.2)} + ({g.block} + ((b.prepared v).blocks +
            (b.serverBlocks + ({(r.libs, x)} + {(r.opts, y)}))))) := .running hg
      refine cast (congrArg (Executes envp b (some r, some (v.state, arg))) ?_) hm
      abel

theorem waitpidThread_spec {a : ℕ} (child pipe : ℤ) :
    Triple {(a, .waitpidArg child pipe)} (waitpidThread a) fun _ m => m = 0 := by
  refine .seq (.load (Multiset.mem_singleton_self _) rfl ?_)
  exact .congr _ (add_zero _).symm (.free rfl)

end

end Voyeur.Host
