import Mathlib.Algebra.BigOperators.Group.Multiset.Basic
import Mathlib.Data.Multiset.Bind
import Voyeur.Host.Ledger

/-! # The books of a session

In every session that a host may have with the library, each of its blocks is on the books.
No call touches a dead block, and what is lost are the two strings of every prepared
environment, and the resource paths and states of servers that others took the place of.
-/

namespace Voyeur.Host

open Allocator (Heap Prog Triple)
open Allocator.Heap (Adds)
open Transition (Reach)

/-- All blocks of the library. -/
structure Accounts where
  books : Multiset Book
  given : Multiset Given
  args : Blocks
  lost : Blocks

/-- The blocks that no context points to. -/
def Accounts.rest (A : Accounts) : Blocks := A.given.map Given.block + (A.args + A.lost)

def Accounts.blocks (A : Accounts) : Blocks := (A.books.map Book.blocks).sum + A.rest

/-- The variables of an environment are those that its context asks for, and are still there. -/
structure Backed (lost : Blocks) (g : Given) (b : Book) : Prop where
  prepared : b.server ≠ none
  forced : b.observed.forceExec = b.observed
  opts : ∃ tail, g.opts = optsString b.observed tail
  buf : (g.buf, .envBuf g.vars) ∈ b.serverBlocks + lost

/-- The server of the call runs for a context on the books. -/
def Serves (books : Multiset Book) (f : Frame) : Prop :=
  ∃ b ∈ books, b.context = f.context ∧ b.server.map ServerBook.state = some f.state

/-- The books of a session, with the blocks in hand that are on none of them. -/
structure Accounted (h₀ : Heap Cell) (E : Blocks) (s : Session) (A : Accounts) : Prop where
  adds : Adds h₀ (A.blocks + E) s.heap
  contexts : A.books.map Book.context = s.contexts
  given : A.given.map Given.environ = s.arrays
  args : A.args.map Prod.fst = s.threads
  argCells : ∀ x ∈ A.args, ∃ child pipe, x.2 = .waitpidArg child pipe
  lost : A.lost.map Prod.fst = s.lost.map Prod.snd
  frames : ∀ f ∈ s.frames, Serves A.books f
  own : ∀ f ∈ s.frames, ∀ e, f.newenvp = some e → e.context = some f.context
  backed : ∀ g ∈ A.given, ∀ a, g.context = some a → ∃ b ∈ A.books, b.context = a ∧ Backed A.lost g b

section

variable {h₀ h₁ : Heap Cell} {s s' : Session} {A : Accounts} {b b' : Book} {rest : Multiset Book}
  {E L : Blocks} {β : Type}

theorem Accounted.adds_blocks (h : Accounted h₀ 0 s A) : Adds h₀ A.blocks s.heap := by
  have ha := h.adds
  rwa [add_zero] at ha

theorem Accounted.exists_book {a : ℕ} (h : Accounted h₀ E s A) (ha : a ∈ s.contexts) :
    ∃ b rest, A.books = b ::ₘ rest ∧ b.context = a := by
  rw [← Multiset.mem_coe, ← h.contexts, Multiset.mem_map] at ha
  obtain ⟨b, hb, hc⟩ := ha
  obtain ⟨rest, hr⟩ := Multiset.exists_cons_of_mem hb
  exact ⟨b, rest, hr, hc⟩

theorem Accounts.blocks_cons (hb : A.books = b ::ₘ rest) :
    A.blocks = b.blocks + ((rest.map Book.blocks).sum + A.rest) := by
  rw [blocks, hb, Multiset.map_cons, Multiset.sum_cons, add_assoc]

/-- A program that is given the blocks of one context and those in hand. -/
theorem Accounted.run_book (h : Accounted h₀ E s A) (hb : A.books = b ::ₘ rest)
    {p : Prog Cell β} {Q : β → Blocks → Prop} (hp : Triple (b.blocks + E) p Q) :
    ∃ r h₁ m, p s.heap = .ok r h₁ ∧ Q r m ∧
      Adds h₀ (m + ((rest.map Book.blocks).sum + A.rest)) h₁ := by
  refine hp.run ?_
  have ha := h.adds
  rw [Accounts.blocks_cons hb] at ha
  rwa [add_right_comm] at ha

theorem Session.stepped {c : Call} {p : Prog Cell β} {k : β → Session → Session} {r : β}
    (hc : s.step c = s.run p k) (hp : p s.heap = .ok r h₁)
    (hA : ∃ A', Accounted h₀ 0 (k r { s with heap := h₁ }) A') :
    ∃ s' A', s.step c = some s' ∧ Accounted h₀ 0 s' A' := by
  obtain ⟨A', hA⟩ := hA
  refine ⟨_, A', ?_, hA⟩
  rw [hc, Session.run, hp]

theorem Accounted.block (h : Accounted h₀ E s A) (hb : b ∈ A.books) {x : ℕ × Cell}
    (hx : x ∈ b.blocks) : s.heap.block x.1 = some x.2 := by
  obtain ⟨rest, hr⟩ := Multiset.exists_cons_of_mem hb
  refine h.adds.block (a := x.1) (x := x.2) ?_
  rw [Accounts.blocks_cons hr]
  exact Multiset.mem_add.mpr (.inl (Multiset.mem_add.mpr (.inl hx)))

theorem Accounted.context? (h : Accounted h₀ E s A) (hb : b ∈ A.books) :
    s.context? b.context =
      some (b.observed, b.path.map Prod.fst, b.server.map ServerBook.state) := by
  rw [Session.context?, h.block hb b.cell_mem]
  rfl

theorem Accounted.serverState? {v : ServerBook} (h : Accounted h₀ E s A) (hb : b ∈ A.books)
    (hv : b.server = some v) :
    s.serverState? v.state = some (v.sunPath, v.serverSock, v.envBuf.map Prod.fst) := by
  rw [Session.serverState?, h.block hb (b.server_subset hv v.cell_mem)]
  rfl

theorem Accounted.pathBlocks (h : Accounted h₀ E s A) (hb : b ∈ A.books) :
    b.pathBlocks.map Prod.fst = ((s.pathBlocks b.context).map Prod.snd : Multiset ℕ) := by
  rw [Session.pathBlocks, h.context? hb, Book.pathBlocks]
  cases b.path with
  | none => rfl
  | some p => rfl

theorem Accounted.serverBlocks (h : Accounted h₀ E s A) (hb : b ∈ A.books) :
    b.serverBlocks.map Prod.fst = ((s.serverBlocks b.context).map Prod.snd : Multiset ℕ) := by
  rw [Session.serverBlocks, h.context? hb, Book.serverBlocks]
  cases hv : b.server with
  | none => rfl
  | some v =>
    simp only [Option.map_some, h.serverState? hb hv, Option.elim, ServerBook.blocks,
      ServerBook.bufBlocks]
    cases v.envBuf with
    | none => rfl
    | some p => rfl

theorem Accounted.exists_server {f : Frame} (h : Accounted h₀ E s A) (hf : f ∈ s.frames) :
    ∃ b rest v, A.books = b ::ₘ rest ∧ b.context = f.context ∧ b.server = some v ∧
      v.state = f.state := by
  obtain ⟨b, hb, hc, hs⟩ := h.frames f hf
  obtain ⟨rest, hr⟩ := Multiset.exists_cons_of_mem hb
  obtain ⟨v, hv, hvs⟩ := Option.map_eq_some_iff.mp hs
  exact ⟨b, rest, v, hr, hc, hv, hvs⟩

theorem Serves.replace {f : Frame} (h : Serves (b ::ₘ rest) f) (hc : b'.context = b.context)
    (hs : b.context = f.context →
      b'.server.map ServerBook.state = b.server.map ServerBook.state) :
    Serves (b' ::ₘ rest) f := by
  obtain ⟨x, hx, hf, hstate⟩ := h
  rcases Multiset.mem_cons.mp hx with rfl | hx
  · exact ⟨b', Multiset.mem_cons_self _ _, hc.trans hf, (hs hf).trans hstate⟩
  · exact ⟨x, Multiset.mem_cons_of_mem hx, hf, hstate⟩

theorem Backed.mono {lost lost' : Blocks} {g : Given} (h : Backed lost g b)
    (hl : ∀ x ∈ lost, x ∈ lost') : Backed lost' g b where
  prepared := h.prepared
  forced := h.forced
  opts := h.opts
  buf := by
    rcases Multiset.mem_add.mp h.buf with hx | hx
    · exact Multiset.mem_add.mpr (.inl hx)
    · exact Multiset.mem_add.mpr (.inr (hl _ hx))

theorem Accounted.replace {E' : Blocks} (h : Accounted h₀ E' s A) (b' : Book) (L : Blocks)
    (ls : List (Lost × ℕ)) (hb : A.books = b ::ₘ rest) (hc : b'.context = b.context)
    (ha : Adds h₀ (b'.blocks + L + E + ((rest.map Book.blocks).sum + A.rest)) h₁)
    (hl : L.map Prod.fst = (ls.map Prod.snd : Multiset ℕ))
    (hs : ∀ f ∈ s.frames, b.context = f.context →
      b'.server.map ServerBook.state = b.server.map ServerBook.state)
    (hg : ∀ g ∈ A.given, Backed A.lost g b → Backed (L + A.lost) g b') :
    Accounted h₀ E { s with heap := h₁, lost := ls ++ s.lost }
      { A with books := b' ::ₘ rest, lost := L + A.lost } := by
  constructor
  case adds =>
    refine cast (congrArg (Adds h₀ · h₁) ?_) ha
    simp only [Accounts.blocks, Accounts.rest, Multiset.map_cons, Multiset.sum_cons]
    abel
  case contexts =>
    have hx := h.contexts
    rw [hb, Multiset.map_cons] at hx
    rw [Multiset.map_cons, hc, hx]
  case given => exact h.given
  case args => exact h.args
  case argCells => exact h.argCells
  case lost => rw [Multiset.map_add, hl, h.lost, List.map_append, Multiset.coe_add]
  case frames =>
    intro f hf
    have hx := h.frames f hf
    rw [hb] at hx
    exact hx.replace hc (hs f hf)
  case own => exact h.own
  case backed =>
    intro g hgm a hga
    obtain ⟨x, hx, hxa, hgx⟩ := h.backed g hgm a hga
    rw [hb] at hx
    rcases Multiset.mem_cons.mp hx with rfl | hx
    · exact ⟨b', Multiset.mem_cons_self _ _, hc.trans hxa, hg g hgm hgx⟩
    · exact ⟨x, Multiset.mem_cons_of_mem hx, hxa,
        hgx.mono fun y hy => Multiset.mem_add.mpr (.inr hy)⟩

theorem Accounted.give {g : Given} (h : Accounted h₀ ({g.block} + E) s A)
    (hg : ∀ a, g.context = some a → ∃ b ∈ A.books, b.context = a ∧ Backed A.lost g b) :
    Accounted h₀ E (s.addEnviron g.environ) { A with given := g ::ₘ A.given } := by
  constructor
  case adds =>
    refine cast (congrArg (Adds h₀ · s.heap) ?_) h.adds
    simp only [Accounts.blocks, Accounts.rest, Multiset.map_cons]
    rw [← Multiset.singleton_add]
    abel
  case contexts => exact h.contexts
  case given =>
    rw [Multiset.map_cons, h.given]
    rfl
  case args => exact h.args
  case argCells => exact h.argCells
  case lost => exact h.lost
  case frames => exact h.frames
  case own => exact h.own
  case backed =>
    intro g' hg'
    rcases Multiset.mem_cons.mp hg' with rfl | hg'
    · exact hg
    · exact h.backed g' hg'

theorem Accounted.started {x : Option Given} {context state arg : ℕ} {child pipe : ℤ}
    (h : Accounted h₀ ({(arg, .waitpidArg child pipe)} + ((x.elim 0 fun g => {g.block}) + E)) s A)
    (hf : ∃ b ∈ A.books, b.context = context ∧ b.server.map ServerBook.state = some state)
    (hx : ∀ g, x = some g → g.context = some context ∧
      ∃ b ∈ A.books, b.context = context ∧ Backed A.lost g b) :
    Accounted h₀ E (s.started context (x.map Given.environ) (state, arg))
      { A with
        given := x.elim 0 (fun g => {g}) + A.given
        args := {(arg, .waitpidArg child pipe)} + A.args } := by
  constructor
  case adds =>
    refine cast (congrArg (Adds h₀ · s.heap) ?_) h.adds
    cases x <;>
      simp only [Accounts.blocks, Accounts.rest, Multiset.map_add, Option.elim,
        Multiset.map_singleton, Multiset.map_zero] <;>
      abel
  case contexts => exact h.contexts
  case given =>
    rw [Multiset.map_add, h.given]
    simp only [Session.arrays, Session.started]
    cases x with
    | none => simp
    | some g =>
      simp only [Option.elim, Multiset.map_singleton, Option.map_some, List.filterMap_cons]
      rw [← Multiset.coe_singleton, Multiset.coe_add]
      exact Multiset.coe_eq_coe.mpr (@List.perm_middle _ g.environ s.environs _).symm
  case args =>
    rw [Multiset.map_add, h.args]
    rfl
  case argCells =>
    intro y hy
    rcases Multiset.mem_add.mp hy with hy | hy
    · rw [Multiset.mem_singleton.mp hy]
      exact ⟨child, pipe, rfl⟩
    · exact h.argCells y hy
  case lost => exact h.lost
  case frames =>
    intro f hm
    rcases List.mem_cons.mp hm with rfl | hm
    · exact hf
    · exact h.frames f hm
  case own =>
    intro f hm e he
    rcases List.mem_cons.mp hm with rfl | hm
    · obtain ⟨g, hg, rfl⟩ := Option.map_eq_some_iff.mp he
      exact (hx g hg).1
    · exact h.own f hm e he
  case backed =>
    intro g hg a ha
    rcases Multiset.mem_add.mp hg with hg | hg
    · cases x with
      | none => cases hg
      | some g' =>
        obtain rfl := Multiset.mem_singleton.mp hg
        obtain ⟨hc, b, hb, hbc, hB⟩ := hx g rfl
        obtain rfl := Option.some.inj (hc.symm.trans ha)
        exact ⟨b, hb, hbc, hB⟩
    · exact h.backed g hg a ha

theorem Accounted.take {e : Environ} (h : Accounted h₀ 0 s A) (s' : Session) (he : e ∈ s.arrays)
    (hs : s'.heap = s.heap ∧ s'.contexts = s.contexts ∧ s'.threads = s.threads ∧
      s'.lost = s.lost) (hf : ∀ f ∈ s'.frames, f ∈ s.frames)
    (ha : (s'.arrays : Multiset Environ) = (s.arrays.erase e : List Environ)) :
    ∃ g given, A.given = g ::ₘ given ∧ g.environ = e ∧
      Accounted h₀ {g.block} s' { A with given := given } := by
  rw [← Multiset.mem_coe, ← h.given, Multiset.mem_map] at he
  obtain ⟨g, hg, rfl⟩ := he
  obtain ⟨given, hgiven⟩ := Multiset.exists_cons_of_mem hg
  obtain ⟨hheap, hcontexts, hthreads, hlost⟩ := hs
  refine ⟨g, given, hgiven, rfl, ?_⟩
  constructor
  case adds =>
    rw [hheap]
    refine cast (congrArg (Adds h₀ · s.heap) ?_) h.adds
    simp only [Accounts.blocks, Accounts.rest, hgiven, Multiset.map_cons]
    rw [← Multiset.singleton_add]
    abel
  case contexts => rw [hcontexts, h.contexts]
  case given =>
    rw [ha, ← Multiset.coe_erase, ← h.given, hgiven, Multiset.map_cons, Multiset.erase_cons_head]
  case args => rw [hthreads, h.args]
  case argCells => exact h.argCells
  case lost => rw [hlost, h.lost]
  case frames => exact fun f hm => h.frames f (hf f hm)
  case own => exact fun f hm => h.own f (hf f hm)
  case backed =>
    intro g' hg'
    exact h.backed g' (hgiven ▸ Multiset.mem_cons_of_mem hg')

theorem forceExec_forceExec (c : Context) : c.forceExec.forceExec = c.forceExec := by
  unfold Context.forceExec
  congr 1
  funext t
  by_cases hn : (c.observer .exec).cb = none
  · by_cases ht : t = .exec
    · simp [hn, ht]
    · simp [ht]
  · simp [hn]

theorem Makes.backed {envp : List CStr} {r : Prepared} {v : ServerBook} {g : Given}
    (h : Makes envp b r v g) (lost : Blocks) : Backed lost g (b.prepared v) where
  prepared := nofun
  forced := forceExec_forceExec _
  opts := by
    obtain ⟨tail, ht⟩ := h.opts
    refine ⟨tail, ht.trans ?_⟩
    simp only [optsString, Voyeur.requestedOpts, Book.prepared, forceExec_forceExec]
  buf := by
    refine Multiset.mem_add.mpr (.inl ?_)
    simp [Book.prepared, Book.serverBlocks, ServerBook.blocks, ServerBook.bufBlocks, h.buf]

theorem Backed.prepare {lost L : Blocks} {g : Given} (h : Backed lost g b) (v : ServerBook)
    (c : Context) (hc : c = b.observed ∨ c = b.observed.forceExec)
    (hL : ∀ x ∈ b.serverBlocks, x ∈ L) :
    Backed (L + lost) g { b with observed := c, server := some v } := by
  have he : c = b.observed := hc.elim id fun hc => hc.trans h.forced
  subst he
  exact {
    prepared := nofun
    forced := h.forced
    opts := h.opts
    buf := by
      refine Multiset.mem_add.mpr (.inr ?_)
      rcases Multiset.mem_add.mp h.buf with hx | hx
      · exact Multiset.mem_add.mpr (.inl (hL _ hx))
      · exact Multiset.mem_add.mpr (.inr hx) }

theorem Accounted.create (h : Accounted h₀ 0 s A) :
    ∃ s' A', s.step .create = some s' ∧ Accounted h₀ 0 s' A' := by
  obtain ⟨b, hb⟩ : ∃ b : ℕ → Book, b = fun a => ⟨a, ⟨fun _ => ⟨0, none, 0⟩⟩, none, none⟩ :=
    ⟨_, rfl⟩
  have hp : Triple (0 : Blocks) contextCreate fun a m => m = (b a).blocks := by
    subst hb
    exact .alloc fun a => rfl
  have ha := h.adds
  rw [add_comm] at ha
  obtain ⟨a, h₁, m, hr, rfl, ha⟩ := hp.run ha
  refine Session.stepped (by rw [Session.step]) hr ⟨{ A with books := b a ::ₘ A.books }, ?_⟩
  constructor
  case adds =>
    refine cast (congrArg (Adds h₀ · h₁) ?_) ha
    simp only [Accounts.blocks, Accounts.rest, Multiset.map_cons, Multiset.sum_cons]
    abel
  case contexts =>
    rw [Multiset.map_cons, h.contexts, hb]
    rfl
  case given => exact h.given
  case args => exact h.args
  case argCells => exact h.argCells
  case lost => exact h.lost
  case frames =>
    intro f hf
    obtain ⟨x, hx, hfx⟩ := h.frames f hf
    exact ⟨x, Multiset.mem_cons_of_mem hx, hfx⟩
  case own => exact h.own
  case backed =>
    intro g hg c hc
    obtain ⟨x, hx, hgx⟩ := h.backed g hg c hc
    exact ⟨x, Multiset.mem_cons_of_mem hx, hgx⟩

theorem Accounted.observe (h : Accounted h₀ 0 s A) {context : ℕ} {t : EventType} {o : Observer}
    (hi : s.Idle context) (hu : s.Unprepared context) :
    ∃ s' A', s.step (.observe context t o) = some s' ∧ Accounted h₀ 0 s' A' := by
  obtain ⟨b, rest, hb, rfl⟩ := h.exists_book hi.1
  have hm : b ∈ A.books := hb ▸ Multiset.mem_cons_self _ _
  have hv : b.server = none := by
    rw [Session.Unprepared, h.context? hm] at hu
    simpa using hu
  obtain ⟨⟨⟩, h₁, _, hr, rfl, ha⟩ := h.run_book hb (.congr _ (add_zero _) (observe_spec b t o))
  refine Session.stepped (by rw [Session.step]) hr ⟨_, h.replace
    { b with observed := register b.observed t o } 0 [] hb rfl ?_ rfl (fun _ _ _ => rfl)
    fun g _ hg => absurd hv hg.prepared⟩
  rwa [add_zero, add_zero]

theorem Accounted.setResourcePath (h : Accounted h₀ 0 s A) {context : ℕ} {path : CStr}
    (hi : s.Idle context) :
    ∃ s' A', s.step (.setResourcePath context path) = some s' ∧ Accounted h₀ 0 s' A' := by
  obtain ⟨b, rest, hb, rfl⟩ := h.exists_book hi.1
  have hm : b ∈ A.books := hb ▸ Multiset.mem_cons_self _ _
  obtain ⟨⟨⟩, h₁, _, hr, ⟨q, rfl⟩, ha⟩ :=
    h.run_book hb (.congr _ (add_zero _) (setResourcePath_spec b path))
  refine Session.stepped (by rw [Session.step]) hr ⟨_, h.replace { b with path := some q }
    b.pathBlocks _ hb rfl ?_ (h.pathBlocks hm) (fun _ _ _ => rfl) fun g _ hg => ?_⟩
  · rwa [add_zero]
  · have hg' : Backed (b.pathBlocks + A.lost) g b :=
      hg.mono fun x hx => Multiset.mem_add.mpr (.inr hx)
    exact ⟨hg'.prepared, hg'.forced, hg'.opts, hg'.buf⟩

theorem Accounted.unprepared (h : Accounted h₀ 0 s A) (hi : s.Idle b.context)
    (hb : A.books = b ::ₘ rest) {envp : List CStr} {m : Blocks} (hm : Prepares envp b none m)
    (ha : Adds h₀ (m + ((rest.map Book.blocks).sum + A.rest)) h₁) :
    ∃ A', Accounted h₀ 0 (({ s with heap := h₁ } : Session).prepared (s.serverBlocks b.context)
      none) A' := by
  obtain ⟨v, rfl⟩ := hm
  have hB : b ∈ A.books := hb ▸ Multiset.mem_cons_self _ _
  refine ⟨_, h.replace { b with server := some v } b.serverBlocks
    (s.serverBlocks b.context ++ []) hb rfl ?_ ?_ ?_ ?_⟩
  · rwa [add_zero]
  · rw [List.append_nil, h.serverBlocks hB]
  · exact fun f hf hc => absurd hc.symm (hi.2 f hf)
  · exact fun g _ hg => hg.prepare v _ (.inl rfl) fun x hx => hx

theorem Accounted.makes (h : Accounted h₀ 0 s A) (hi : s.Idle b.context)
    (hb : A.books = b ::ₘ rest) {envp : List CStr} {r : Prepared} {v : ServerBook} {g : Given}
    {x y : Cell} (hg : Makes envp b r v g)
    (ha : Adds h₀ (E + ((b.prepared v).blocks +
      (b.serverBlocks + ({(r.libs, x)} + {(r.opts, y)}))) +
        ((rest.map Book.blocks).sum + A.rest)) h₁) :
    ∃ A', Accounted h₀ E (({ s with heap := h₁ } : Session).prepared
        (s.serverBlocks b.context) (some r)) A' ∧
      b.prepared v ∈ A'.books ∧ Backed A'.lost g (b.prepared v) := by
  have hB : b ∈ A.books := hb ▸ Multiset.mem_cons_self _ _
  refine ⟨_, h.replace (b.prepared v) (b.serverBlocks + ({(r.libs, x)} + {(r.opts, y)}))
    (s.serverBlocks b.context ++ [(.libs, r.libs), (.opts, r.opts)]) hb rfl ?_ ?_ ?_ ?_,
    Multiset.mem_cons_self _ _, hg.backed _⟩
  · refine cast (congrArg (Adds h₀ · h₁) ?_) ha
    abel
  · rw [Multiset.map_add, h.serverBlocks hB, List.map_append, ← Multiset.coe_add]
    rfl
  · exact fun f hf hc => absurd hc.symm (hi.2 f hf)
  · exact fun g _ hg => hg.prepare v _ (.inr rfl) fun x hx => Multiset.mem_add.mpr (.inl hx)

theorem Accounted.prepare (h : Accounted h₀ 0 s A) {context : ℕ} {envp : List CStr} {o : Outcome}
    (hi : s.Idle context) :
    ∃ s' A', s.step (.prepare context envp o) = some s' ∧ Accounted h₀ 0 s' A' := by
  obtain ⟨b, rest, hb, rfl⟩ := h.exists_book hi.1
  obtain ⟨r, h₁, m, hr, hm, ha⟩ := h.run_book hb (.congr _ (add_zero _) (prepare_spec o envp b))
  cases r with
  | none =>
    exact Session.stepped (by rw [Session.step]) hr (h.unprepared hi hb hm ha)
  | some r =>
    obtain ⟨v, g, x, y, hg, rfl⟩ := hm
    obtain ⟨A', hA, hv, hB⟩ := h.makes hi hb hg ha
    rw [← add_zero ({g.block} : Blocks)] at hA
    have hgive := hA.give fun a hc =>
      ⟨_, hv, Option.some.inj ((congrArg Environ.context hg.environ).symm.trans hc), hB⟩
    rw [hg.environ] at hgive
    exact Session.stepped (by rw [Session.step]) hr ⟨_, hgive⟩

theorem Accounted.start (h : Accounted h₀ 0 s A) {context : ℕ} {child pipe : ℤ}
    (hi : s.Idle context) (hl : s.Listens context) :
    ∃ s' A', s.step (.start context child pipe) = some s' ∧ Accounted h₀ 0 s' A' := by
  obtain ⟨b, rest, hb, rfl⟩ := h.exists_book hi.1
  have hm : b ∈ A.books := hb ▸ Multiset.mem_cons_self _ _
  obtain ⟨v, hv⟩ : ∃ v, b.server = some v := by
    rw [Session.Listens, h.context? hm] at hl
    cases hs : b.server with
    | none => simp [hs] at hl
    | some v => exact ⟨v, rfl⟩
  obtain ⟨⟨state, arg⟩, h₁, _, hr, ⟨rfl, rfl⟩, ha⟩ :=
    h.run_book hb (.congr _ (add_zero _) (start_spec hv child pipe))
  have ha' : Adds h₀ (b.blocks + 0 + ({(arg, .waitpidArg child pipe)} + (0 + 0)) +
      ((rest.map Book.blocks).sum + A.rest)) h₁ := by
    refine cast (congrArg (Adds h₀ · h₁) ?_) ha
    abel
  have hx := h.replace b 0 [] hb rfl ha' rfl (fun _ _ _ => rfl) fun g _ hg =>
    hg.mono fun x hx => Multiset.mem_add.mpr (.inr hx)
  exact Session.stepped (by rw [Session.step]) hr ⟨_, hx.started (x := none)
    ⟨b, Multiset.mem_cons_self _ _, rfl, by rw [hv]; rfl⟩ nofun⟩

theorem Accounted.exec (h : Accounted h₀ 0 s A) {context : ℕ} {envp : List CStr} {o : Outcome}
    {child : Option (ℤ × ℤ)} (hi : s.Idle context) :
    ∃ s' A', s.step (.exec context envp o child) = some s' ∧ Accounted h₀ 0 s' A' := by
  obtain ⟨b, rest, hb, rfl⟩ := h.exists_book hi.1
  obtain ⟨r, h₁, m, hr, hm, ha⟩ := h.run_book hb (.congr _ (add_zero _) (exec_spec o envp b child))
  cases hm with
  | unprepared hm =>
    exact Session.stepped (by rw [Session.step]) hr (h.unprepared hi hb hm ha)
  | unspawned hg =>
    rw [← zero_add (Book.blocks _)] at ha
    rw [add_assoc 0] at ha
    obtain ⟨A', hA, -⟩ := h.makes hi hb hg ha
    exact Session.stepped (by rw [Session.step]) hr ⟨A', hA⟩
  | @running r v g x y arg child pipe hg =>
    have ha' : Adds h₀ ({(arg, .waitpidArg child pipe)} + ({g.block} + 0) +
        ((b.prepared v).blocks + (b.serverBlocks + ({(r.libs, x)} + {(r.opts, y)}))) +
          ((rest.map Book.blocks).sum + A.rest)) h₁ := by
      refine cast (congrArg (Adds h₀ · h₁) ?_) ha
      abel
    obtain ⟨A', hA, hv, hB⟩ := h.makes hi hb hg ha'
    have hc : g.context = some b.context := congrArg Environ.context hg.environ
    have hrun := hA.started (x := some g) ⟨_, hv, rfl, rfl⟩ fun g' hg' => by
      obtain rfl := Option.some.inj hg'
      exact ⟨hc, _, hv, rfl, hB⟩
    rw [Option.map_some, hg.environ] at hrun
    exact Session.stepped (by rw [Session.step]) hr ⟨_, hrun⟩

theorem Accounted.dispatch (h : Accounted h₀ 0 s A) {context : ℕ}
    (hf : ∃ f ∈ s.frames, f.context = context) :
    ∃ s' A', s.step (.dispatch context) = some s' ∧ Accounted h₀ 0 s' A' := by
  obtain ⟨f, hf, rfl⟩ := hf
  obtain ⟨b, rest, v, hb, hc, -, -⟩ := h.exists_server hf
  have hm : b ∈ A.books := hb ▸ Multiset.mem_cons_self _ _
  have hr : Prog.load Cell.context? f.context s.heap =
      .ok (b.observed, b.path.map Prod.fst, b.server.map ServerBook.state) s.heap := by
    rw [Prog.load, ← hc, h.block hm b.cell_mem]
    rfl
  exact Session.stepped (by rw [Session.step]) hr ⟨A, h⟩

theorem Accounted.threadEnds (h : Accounted h₀ 0 s A) {arg : ℕ} (ht : arg ∈ s.threads) :
    ∃ s' A', s.step (.threadEnds arg) = some s' ∧ Accounted h₀ 0 s' A' := by
  rw [← Multiset.mem_coe, ← h.args, Multiset.mem_map] at ht
  obtain ⟨⟨a, cell⟩, hx, rfl⟩ := ht
  obtain ⟨child, pipe, rfl⟩ := h.argCells _ hx
  obtain ⟨args, hargs⟩ := Multiset.exists_cons_of_mem hx
  have ha : Adds h₀ ({(a, .waitpidArg child pipe)} + ({ A with args := args } : Accounts).blocks)
      s.heap := by
    refine cast (congrArg (Adds h₀ · s.heap) ?_) h.adds
    simp only [Accounts.blocks, Accounts.rest, hargs]
    rw [← Multiset.singleton_add]
    abel
  obtain ⟨⟨⟩, h₁, _, hr, rfl, ha⟩ := (waitpidThread_spec child pipe).run ha
  refine Session.stepped (by rw [Session.step]) hr ⟨{ A with args := args }, ?_⟩
  constructor
  case adds => rwa [add_comm]
  case contexts => exact h.contexts
  case given => exact h.given
  case args =>
    rw [← Multiset.coe_erase, ← h.args, hargs, Multiset.map_cons, Multiset.erase_cons_head]
  case argCells => exact fun y hy => h.argCells y (hargs ▸ Multiset.mem_cons_of_mem hy)
  case lost => exact h.lost
  case frames => exact h.frames
  case own => exact h.own
  case backed => exact h.backed

theorem Accounted.freeEnviron (h : Accounted h₀ 0 s A) {array : ℕ}
    (he : ∃ e ∈ s.environs, e.array = array) :
    ∃ s' A', s.step (.freeEnviron array) = some s' ∧ Accounted h₀ 0 s' A' := by
  obtain ⟨e, hfind⟩ : ∃ e, s.environs.find? (·.array = array) = some e :=
    Option.isSome_iff_exists.mp (List.find?_isSome.mpr (by simpa using he))
  have hm : e ∈ s.environs := List.mem_of_find?_eq_some hfind
  have ha : e.array = array := by simpa using List.find?_some hfind
  obtain ⟨g, given, hgiven, rfl, hA⟩ := h.take
    { s with environs := s.environs.erase e } (List.mem_append_left _ hm)
    ⟨rfl, rfl, rfl, rfl⟩ (fun f hf => hf) (by
      rw [Session.arrays, Session.arrays, List.erase_append_left _ hm])
  have hadds := hA.adds
  rw [add_comm] at hadds
  have hp : Triple ({g.block} : Blocks) (Prog.free g.array) fun _ m => m = 0 :=
    .congr _ (add_zero _).symm (.free rfl)
  obtain ⟨⟨⟩, h₁, _, hr, rfl, ha'⟩ := hp.run hadds
  subst ha
  refine Session.stepped (by simp only [Session.step, hfind]; rfl) hr
    ⟨{ A with given := given }, ?_⟩
  exact { hA with adds := by rwa [add_comm] at ha' }

theorem Session.perm_arrays {f : Frame} (hf : f ∈ s.frames) :
    s.arrays.Perm
      (f.newenvp.toList ++ ({ s with frames := s.frames.erase f } : Session).arrays) := by
  have hp := (List.perm_cons_erase hf).filterMap Frame.newenvp
  refine (hp.append_left s.environs).trans ?_
  rw [Session.arrays]
  cases hn : f.newenvp with
  | none =>
    rw [List.filterMap_cons_none hn]
    rfl
  | some e =>
    rw [List.filterMap_cons_some hn]
    exact List.perm_middle

theorem Accounted.cut {E' : Blocks} {v : ServerBook} (h : Accounted h₀ E' s A)
    (hb : A.books = b ::ₘ rest) (hv : b.server = some v) (p : CStr)
    (ha : Adds h₀ (({ b with server := some { v with sunPath := p } } : Book).blocks + E +
      ((rest.map Book.blocks).sum + A.rest)) h₁) :
    ∃ A', Accounted h₀ E { s with heap := h₁ } A' := by
  refine ⟨_, h.replace { b with server := some { v with sunPath := p } } 0 [] hb rfl ?_ rfl
    ?_ ?_⟩
  · rwa [add_zero]
  · intro f _ _
    rw [hv]
    rfl
  · rintro g - hg
    refine ⟨nofun, hg.forced, hg.opts, ?_⟩
    have hx := hg.buf
    rw [zero_add]
    simp only [Book.serverBlocks, hv, Option.elim, ServerBook.blocks, ServerBook.cell,
      Multiset.mem_add, Multiset.mem_singleton, Prod.mk.injEq, reduceCtorEq, and_false,
      false_or] at hx ⊢
    exact hx

theorem Accounted.returns (h : Accounted h₀ 0 s A) {context : ℕ}
    (hf : ∃ f ∈ s.frames, f.context = context) :
    ∃ s' A', s.step (.returns context) = some s' ∧ Accounted h₀ 0 s' A' := by
  obtain ⟨f, hfind⟩ : ∃ f, s.frames.find? (·.context = context) = some f :=
    Option.isSome_iff_exists.mp (List.find?_isSome.mpr (by simpa using hf))
  have hm : f ∈ s.frames := List.mem_of_find?_eq_some hfind
  obtain ⟨b, rest, v, hb, hbc, hv, hvs⟩ := h.exists_server hm
  have hp := Session.perm_arrays hm
  have hsub : ∀ f' ∈ s.frames.erase f, f' ∈ s.frames := fun f' hf' => List.mem_of_mem_erase hf'
  cases hn : f.newenvp with
  | none =>
    have hA : Accounted h₀ 0 { s with frames := s.frames.erase f } A := {
      h with
      given := by
        rw [h.given]
        rw [hn] at hp
        exact Multiset.coe_eq_coe.mpr hp
      frames := fun f' hf' => h.frames f' (hsub f' hf')
      own := fun f' hf' => h.own f' (hsub f' hf') }
    obtain ⟨⟨⟩, h₁, _, hr, ⟨p, rfl⟩, ha⟩ :=
      hA.run_book hb (.congr _ (add_zero _) (startReturns_spec hv))
    rw [hvs] at hr
    rw [← add_zero (Book.blocks _)] at ha
    exact Session.stepped (by simp only [Session.step, hfind, hn]; rfl) hr (hA.cut hb hv p ha)
  | some e =>
    rw [hn] at hp
    have he : e ∈ s.arrays := hp.mem_iff.mpr (List.mem_append_left _ (List.mem_singleton_self e))
    obtain ⟨g, given, hgiven, rfl, hA⟩ := h.take { s with frames := s.frames.erase f } he
      ⟨rfl, rfl, rfl, rfl⟩ hsub (by
        have hq := hp.erase e
        rw [Option.toList_some, List.singleton_append, List.erase_cons_head] at hq
        exact (Multiset.coe_eq_coe.mpr hq).symm)
    obtain ⟨⟨⟩, h₁, _, hr, ⟨p, rfl⟩, ha⟩ := hA.run_book hb (execReturns_spec hv g)
    rw [hvs] at hr
    rw [← add_zero (Book.blocks _)] at ha
    exact Session.stepped (by simp only [Session.step, hfind, hn]; rfl) hr (hA.cut hb hv p ha)

theorem Given.environ_forget (context : ℕ) (g : Given) :
    (g.forget context).environ = g.environ.forget context := by
  change (if g.context = some context then { g with context := none } else g).environ =
    if g.context = some context then { g.environ with context := none } else g.environ
  split <;> rfl

theorem Given.block_forget (context : ℕ) (g : Given) : (g.forget context).block = g.block := by
  unfold Given.forget
  split <;> rfl

theorem Accounted.destroy (h : Accounted h₀ 0 s A) {context : ℕ} (hi : s.Idle context) :
    ∃ s' A', s.step (.destroy context) = some s' ∧ Accounted h₀ 0 s' A' := by
  obtain ⟨b, rest, hb, rfl⟩ := h.exists_book hi.1
  obtain ⟨⟨⟩, h₁, _, hr, rfl, ha⟩ := h.run_book hb (.congr _ (add_zero _) (contextDestroy_spec b))
  refine Session.stepped (by rw [Session.step]) hr
    ⟨{ A with books := rest, given := A.given.map (Given.forget b.context) }, ?_⟩
  constructor
  case adds =>
    refine cast (congrArg (Adds h₀ · h₁) ?_) ha
    simp only [Accounts.blocks, Accounts.rest, Multiset.map_map, Function.comp_def,
      Given.block_forget]
    abel
  case contexts =>
    change _ = ((s.contexts.erase b.context : List ℕ) : Multiset ℕ)
    rw [← Multiset.coe_erase, ← h.contexts, hb, Multiset.map_cons, Multiset.erase_cons_head]
  case given =>
    have hframes : (s.frames.filterMap Frame.newenvp).map (Environ.forget b.context) =
        s.frames.filterMap Frame.newenvp := by
      refine (List.map_congr_left fun e he => ?_).trans (List.map_id _)
      obtain ⟨f, hf, hfe⟩ := List.mem_filterMap.mp he
      have hc : e.context ≠ some b.context := by
        rw [h.own f hf e hfe]
        exact fun hx => hi.2 f hf (Option.some.inj hx)
      rw [Environ.forget, if_neg hc]
      rfl
    have hx := congrArg (Multiset.map (Environ.forget b.context)) h.given
    rw [Multiset.map_map, Multiset.map_coe, Session.arrays, List.map_append, hframes] at hx
    rw [Multiset.map_map, Function.comp_def]
    simp only [Given.environ_forget]
    exact hx
  case args => exact h.args
  case argCells => exact h.argCells
  case lost => exact h.lost
  case frames =>
    intro f hf
    obtain ⟨x, hx, hxc, hxs⟩ := h.frames f hf
    rw [hb] at hx
    rcases Multiset.mem_cons.mp hx with rfl | hx
    · exact absurd hxc.symm (hi.2 f hf)
    · exact ⟨x, hx, hxc, hxs⟩
  case own => exact h.own
  case backed =>
    intro g' hg' a ha'
    obtain ⟨g, hg, rfl⟩ := Multiset.mem_map.mp hg'
    unfold Given.forget at ha' ⊢
    split at ha'
    · cases ha'
    · next hne =>
      rw [if_neg hne]
      obtain ⟨x, hx, hxc, hB⟩ := h.backed g hg a ha'
      rw [hb] at hx
      rcases Multiset.mem_cons.mp hx with rfl | hx
      · exact absurd (ha'.trans (congrArg some hxc.symm)) hne
      · exact ⟨x, hx, hxc, hB⟩

/-- No permitted call touches a dead block, and all blocks stay on the books. -/
theorem Accounted.step {c : Call} (h : Accounted h₀ 0 s A) (hp : s.Permitted c) :
    ∃ s' A', s.step c = some s' ∧ Accounted h₀ 0 s' A' := by
  cases c with
  | create => exact h.create
  | observe => exact h.observe hp.1 hp.2
  | setResourcePath => exact h.setResourcePath hp
  | prepare => exact h.prepare hp
  | start => exact h.start hp.1 hp.2
  | exec => exact h.exec hp
  | dispatch => exact h.dispatch hp
  | returns => exact h.returns hp
  | threadEnds => exact h.threadEnds hp
  | freeEnviron => exact h.freeEnviron hp
  | destroy => exact h.destroy hp

theorem accounted_start (h₀ : Heap Cell) : Accounted h₀ 0 (Session.start h₀) ⟨0, 0, 0, 0⟩ where
  adds := Adds.refl h₀
  contexts := rfl
  given := rfl
  args := rfl
  argCells := by simp
  lost := rfl
  frames := by simp [Session.start]
  own := by simp [Session.start]
  backed := by simp

theorem accounted_of_run (h : Reach Session.step Session.Permitted (Session.start h₀) s) :
    ∃ A, Accounted h₀ 0 s A := by
  refine h.invariant (I := fun s => ∃ A, Accounted h₀ 0 s A) ⟨_, accounted_start h₀⟩ ?_
  rintro t c u ⟨A, hA⟩ hp hu
  obtain ⟨s', A', hs, hA'⟩ := hA.step hp
  obtain rfl := Option.some.inj (hs.symm.trans hu)
  exact ⟨A', hA'⟩

theorem Accounted.map_blocks (h : Accounted h₀ 0 s A) :
    A.blocks.map Prod.fst = (s.blocks : Multiset ℕ) := by
  have hcontexts : (A.books.map Book.blocks).sum.map Prod.fst =
      (s.contexts.flatMap s.contextBlocks : List ℕ) := by
    have hb : A.books.bind Book.blocks = (A.books.map Book.blocks).sum := rfl
    rw [← hb, Multiset.map_bind, ← Multiset.coe_bind, ← h.contexts, Multiset.bind_map]
    refine Multiset.bind_congr fun b hb => ?_
    rw [Book.blocks, Multiset.map_add, Multiset.map_add, h.pathBlocks hb, h.serverBlocks hb,
      Session.contextBlocks, List.map_append, ← Multiset.cons_coe, ← Multiset.coe_add]
    rfl
  have hgiven : (A.given.map Given.block).map Prod.fst = (s.arrays.map Environ.array : List ℕ) := by
    rw [Multiset.map_map, ← Multiset.map_coe, ← h.given, Multiset.map_map]
    rfl
  rw [Accounts.blocks, Accounts.rest, Multiset.map_add, Multiset.map_add, Multiset.map_add,
    hcontexts, hgiven, h.args, h.lost]
  simp only [Multiset.coe_add, Session.blocks, List.append_assoc]

/--
Whatever permitted calls a host makes, in any order and for any number of contexts at once, none
of them touches a block that is dead.
-/
theorem defined_of_permitted {c : Call}
    (h : Reach Session.step Session.Permitted (Session.start h₀) s) (hp : s.Permitted c) :
    ∃ s', s.step c = some s' := by
  obtain ⟨A, hA⟩ := accounted_of_run h
  obtain ⟨s', -, hs, -⟩ := hA.step hp
  exact ⟨s', hs⟩

/-- A socket is made, and nothing stands behind the blocks. -/
def listening : Outcome := ⟨ascii ['/', 's'], 3, 0, none, fun _ => []⟩

/--
A context is made and observes `open`, its resource path is set twice, and two children are
observed; one of them in an environment that the host asked for.
-/
def hostRun : List Call :=
  [.create, .observe 0 .open_ ⟨1, some 7, 9⟩, .setResourcePath 0 (ascii ['/']),
    .setResourcePath 0 (ascii ['.', '/']), .prepare 0 [] listening, .start 0 5 4, .dispatch 0,
    .returns 0, .threadEnds 8, .freeEnviron 7, .exec 0 [] listening (some (6, 4)), .create,
    .returns 0, .threadEnds 14]

theorem defined_of_permitted_hostRun : ∃ s s' : Session, s.contexts = [15, 0] ∧
    s.step (.destroy 0) = some s' := by
  have hx : (Transition.exec Session.step Session.Permitted (Session.start .empty) hostRun).any
      (fun s => decide (s.contexts = [15, 0]) && decide (s.Permitted (.destroy 0))) = true := by
    decide +kernel
  obtain ⟨s, hr, hs⟩ := Transition.exists_reach_of_exec hostRun hx
  rw [Bool.and_eq_true, decide_eq_true_eq, decide_eq_true_eq] at hs
  obtain ⟨s', hs'⟩ := defined_of_permitted hr hs.2
  exact ⟨s, s', hs.1, hs'⟩

/--
The live blocks of the library are, at any moment, those that the contexts, the environments
and the threads have, and the lost ones, each of them once. No other block has changed.
-/
theorem live_iff (h : Reach Session.step Session.Permitted (Session.start h₀) s) :
    s.blocks.Nodup ∧ (∀ a ∈ s.blocks, h₀.block a = none) ∧
      (∀ a x, h₀.block a = some x → s.heap.block a = some x) ∧
      ∀ a, (s.heap.block a).isSome ↔ (h₀.block a).isSome ∨ a ∈ s.blocks := by
  obtain ⟨A, hA⟩ := accounted_of_run h
  have ha := hA.adds_blocks
  have hm : ∀ a, a ∈ s.blocks ↔ ∃ x, (a, x) ∈ A.blocks := by
    intro a
    rw [← Multiset.mem_coe, ← hA.map_blocks, Multiset.mem_map]
    simp
  refine ⟨?_, fun a has => ?_, fun a x hx => ha.old hx, fun a => ?_⟩
  · rw [← Multiset.coe_nodup, ← hA.map_blocks]
    exact ha.nodup
  · obtain ⟨x, hx⟩ := (hm a).mp has
    exact h₀.fresh a (ha.new (a, x) hx)
  · rw [hm, Option.isSome_iff_exists, Option.isSome_iff_exists]
    constructor
    · rintro ⟨x, hx⟩
      exact ((ha.block_iff a x).mp hx).imp (⟨x, ·⟩) (⟨x, ·⟩)
    · rintro (⟨x, hx⟩ | ⟨x, hx⟩)
      · exact ⟨x, (ha.block_iff a x).mpr (.inl hx)⟩
      · exact ⟨x, (ha.block_iff a x).mpr (.inr hx)⟩

/-- When everything is given back, the lost blocks are left. -/
theorem live_iff_hostRun : ∃ s : Session, s.contexts = [] ∧ s.arrays = [] ∧
    s.lost.map Prod.fst = [.serverState, .envBuf, .libs, .opts, .libs, .opts, .resourcePath] ∧
    ∀ a, (s.heap.block a).isSome ↔ a ∈ s.lost.map Prod.snd := by
  have hx : (Transition.exec Session.step Session.Permitted (Session.start .empty)
      (hostRun ++ [.destroy 0, .destroy 15])).any (fun s =>
        decide (s.contexts = [] ∧ s.arrays = [] ∧ s.lost.map Prod.fst =
          [.serverState, .envBuf, .libs, .opts, .libs, .opts, .resourcePath] ∧
            s.blocks = s.lost.map Prod.snd)) = true := by
    decide +kernel
  obtain ⟨s, hr, hs⟩ := Transition.exists_reach_of_exec _ hx
  obtain ⟨hc, ha, hl, hb⟩ := of_decide_eq_true hs
  obtain ⟨-, -, -, hlive⟩ := live_iff hr
  refine ⟨s, hc, ha, hl, fun a => ?_⟩
  rw [hlive a, hb]
  simp

end

end Voyeur.Host
