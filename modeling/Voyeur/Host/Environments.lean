import Voyeur.Client.Served
import Voyeur.Host.Books

/-! # Environments of a session

An environment that the host got from the library can be read as long as its context is
not destroyed, and it asks for the events that the server of this context handles. A process that
runs in it is understood by that server, whatever the host does in the meantime.
-/

namespace Voyeur.Host

open Allocator (Heap)
open Transition (Reach)

namespace Session

/-- What an entry of an array points to. -/
def entry? (s : Session) : Entry → Option CStr
  | .host value => some value
  | .buf a i => ((s.heap.block a).bind Cell.vars?).bind (·[i]?)

/-- The strings of an array. -/
def environ? (s : Session) (array : ℕ) : Option (List CStr) :=
  ((s.heap.block array).bind Cell.entries?).bind (·.mapM s.entry?)

end Session

/-- An entry with the variables in the `env_buf`. -/
def Entry.resolve (vars : List CStr) : Entry → CStr
  | .host value => value
  | .buf _ i => vars.getD i []

theorem mapM_eq_map {α β : Type} {f : α → Option β} {g : α → β} {l : List α}
    (h : ∀ x ∈ l, f x = some (g x)) : l.mapM f = some (l.map g) := by
  induction l with
  | nil => rfl
  | cons x l ih =>
    rw [List.mapM_cons, h x List.mem_cons_self, ih fun y hy => h y (List.mem_cons_of_mem _ hy)]
    rfl

theorem map_resolve (envp : List CStr) (libs opts sockpath : CStr) (buf : ℕ) :
    (newEntries envp buf).map (Entry.resolve (newVars envp libs opts sockpath)) =
      Voyeur.augmentEnvironment envp libs opts sockpath := by
  unfold newEntries Voyeur.augmentEnvironment newVars
  cases scanInsert envp 0 none with
  | none => simp [Entry.resolve, Function.comp_def]
  | some found => simp [Entry.resolve, Function.comp_def, List.map_set]

theorem mem_newEntries {envp : List CStr} {buf : ℕ} {e : Entry} (h : e ∈ newEntries envp buf) :
    (∃ value, e = .host value) ∨ ∃ i < 4, e = .buf buf i := by
  have hown : ∀ e ∈ envp.map Entry.host ++ [Entry.buf buf 0, .buf buf 1, .buf buf 2],
      (∃ value, e = .host value) ∨ ∃ i < 4, e = .buf buf i := by
    intro e he
    rcases List.mem_append.mp he with he | he
    · obtain ⟨value, -, rfl⟩ := List.mem_map.mp he
      exact .inl ⟨value, rfl⟩
    · simp only [List.mem_cons, List.not_mem_nil, or_false] at he
      rcases he with rfl | rfl | rfl
      · exact .inr ⟨0, by decide, rfl⟩
      · exact .inr ⟨1, by decide, rfl⟩
      · exact .inr ⟨2, by decide, rfl⟩
  unfold newEntries at h
  cases hs : scanInsert envp 0 none with
  | none =>
    rw [hs] at h
    rcases List.mem_append.mp h with h | h
    · exact hown e h
    · exact .inr ⟨3, by decide, List.mem_singleton.mp h⟩
  | some found =>
    rw [hs] at h
    rcases List.mem_or_eq_of_mem_set h with h | rfl
    · exact hown e h
    · exact .inr ⟨3, by decide, rfl⟩

theorem environ?_eq {s : Session} {g : Given}
    (ha : s.heap.block g.array = some (.environ (newEntries g.envp g.buf)))
    (hb : s.heap.block g.buf = some (.envBuf g.vars)) :
    s.environ? g.array =
      some (Voyeur.augmentEnvironment g.envp g.libs g.opts g.sockpath) := by
  rw [Session.environ?, ha, ← map_resolve g.envp g.libs g.opts g.sockpath g.buf]
  refine mapM_eq_map fun e he => ?_
  rcases mem_newEntries he with ⟨value, rfl⟩ | ⟨i, hi, rfl⟩
  · rfl
  · have hl : i < (newVars g.envp g.libs g.opts g.sockpath).length := hi
    rw [Session.entry?, hb]
    change (newVars g.envp g.libs g.opts g.sockpath)[i]? = _
    rw [Entry.resolve, List.getElem?_eq_getElem hl, List.getD_eq_getElem _ _ hl]

variable {h₀ : Heap Cell} {s : Session}

/-- The environment asks for what the context on the heap is to observe, as it is now. -/
theorem environ_of_run (h : Reach Session.step Session.Permitted (Session.start h₀) s)
    {e : Environ} (he : e ∈ s.arrays) {context : ℕ} (hc : e.context = some context) :
    ∃ observed path state libs tail sockpath,
      s.context? context = some (observed, path, state) ∧ observed.forceExec = observed ∧
      s.environ? e.array =
        some (Voyeur.augmentEnvironment e.envp libs (optsString observed tail) sockpath) := by
  obtain ⟨A, hA⟩ := accounted_of_run h
  rw [← Multiset.mem_coe, ← hA.given, Multiset.mem_map] at he
  obtain ⟨g, hg, rfl⟩ := he
  obtain ⟨b, hb, rfl, hB⟩ := hA.backed g hg context hc
  obtain ⟨tail, ht⟩ := hB.opts
  have hadds := hA.adds_blocks
  have harray : g.block ∈ A.blocks :=
    Multiset.mem_add.mpr (.inr (Multiset.mem_add.mpr (.inl (Multiset.mem_map_of_mem _ hg))))
  have hbuf : s.heap.block g.buf = some (.envBuf g.vars) := by
    rcases Multiset.mem_add.mp hB.buf with hx | hx
    · have hm : (g.buf, Cell.envBuf g.vars) ∈ b.blocks :=
        Multiset.mem_add.mpr (.inr (Multiset.mem_add.mpr (.inr hx)))
      exact hA.block hb hm
    · refine hadds.block (Multiset.mem_add.mpr (.inr (Multiset.mem_add.mpr (.inr ?_))))
      exact Multiset.mem_add.mpr (.inr hx)
  refine ⟨b.observed, _, _, g.libs, tail, g.sockpath, hA.context? hb, hB.forced, ?_⟩
  rw [← ht]
  exact environ?_eq (hadds.block harray) hbuf

/--
In every session, a process that is started in an environment of the library, and keeps the
options in it, is understood by the server of the context as it is on the heap: the callbacks are
those of the events that were written, whatever calls the host made since `voyeur_prepare`.
-/
theorem served_of_session {malloc : ℕ → Bool} (hm : ClientEvent.GrantsEvents malloc)
    (h : Reach Session.step Session.Permitted (Session.start h₀) s) {e : Environ}
    (he : e ∈ s.arrays) {context : ℕ} (hc : e.context = some context)
    (hn : getenv e.envp varOpts = none) {environ : StringArray}
    (hr : s.environ? e.array = some environ.val) {L : Preloaded} {pid ppid : CInt}
    {table : List ℕ} {w : World}
    (hw : Reach (World.step L) (fun w a => LeavesAlone L w a ∧
      getenv w.vars varOpts = getenv environ.val varOpts)
      (World.start environ pid ppid table) w) (i : ℕ) :
    ∃ observed path state, s.context? context = some (observed, path, state) ∧
      ∃ es : List ClientEvent, (∀ e ∈ es, e.type = (w.links i).type) ∧
        (w.links i).bytes = eventStream observed es ++
          (if (w.links i).finished then wire [writeMsgType .done] else []) ∧
        ∀ n, es.length < n → serveConnection malloc observed n (w.links i).bytes =
          (observed.callbacks es, .closed (if (w.links i).finished then .done else .failed)) := by
  obtain ⟨observed, path, state, libs, tail, sockpath, hctx, hforced, henv⟩ :=
    environ_of_run h he hc
  refine ⟨observed, path, state, hctx, ?_⟩
  have hv : environ.val = Voyeur.augmentEnvironment e.envp libs
      (cString ((Voyeur.requestedOpts observed).2 ++ tail)) sockpath :=
    Option.some.inj (hr.symm.trans henv)
  have hf : (Voyeur.requestedOpts observed).1 = observed := hforced
  refine served_of_options hm observed (fun type => ?_) hw i
  rw [hv, clientOptions_augment hn, hf]
  rfl

/-- A host that observes every event, and prepares an environment. -/
def curiousRun : List Call :=
  [.create, .observe 0 .exec ⟨1, some 7, 9⟩, .observe 0 .exit ⟨1, some 7, 9⟩,
    .observe 0 .open_ ⟨1, some 7, 9⟩, .observe 0 .close ⟨1, some 7, 9⟩, .prepare 0 [] listening]

/-- The environment that it gets. -/
def curiousEnviron : StringArray :=
  ⟨Voyeur.augmentEnvironment [] (libsList (ascii ['.', '/']) curious)
    (optsString curious []) (ascii ['/', 's']), by decide +kernel⟩

theorem served_of_session_curiousRun : ∃ (w : World) (observed : Context) (es : List ClientEvent),
    (w.links 1).bytes ≠ [] ∧ serveConnection (fun _ => true) observed (es.length + 1)
      (w.links 1).bytes = (observed.callbacks es,
        .closed (if (w.links 1).finished then .done else .failed)) := by
  have hs : (Transition.exec Session.step Session.Permitted (Session.start .empty)
      curiousRun).any (fun s => decide (⟨5, some 0, []⟩ ∈ s.arrays ∧
        s.environ? 5 = some curiousEnviron.val)) = true := by
    decide +kernel
  have hx : (Transition.exec (World.step ⟨true, true, true⟩)
      (fun w a => LeavesAlone ⟨true, true, true⟩ w a ∧
        getenv w.vars varOpts = getenv curiousEnviron.val varOpts)
      (World.start curiousEnviron 7 1 [0, 1, 2]) closingRun).any (fun w =>
        decide ((w.links 1).bytes ≠ [])) = true := by
    decide +kernel
  obtain ⟨s, hr, hs⟩ := Transition.exists_reach_of_exec _ hs
  obtain ⟨he, henv⟩ := of_decide_eq_true hs
  obtain ⟨w, hw, hb⟩ := Transition.exists_reach_of_exec _ hx
  have hm : ClientEvent.GrantsEvents fun _ => true := fun _ _ => rfl
  have hn : getenv [] varOpts = none := rfl
  obtain ⟨observed, -, -, -, es, -, -, hserve⟩ := served_of_session hm hr he rfl hn henv hw 1
  exact ⟨w, observed, es, of_decide_eq_true hb, hserve _ (Nat.lt_succ_self _)⟩

end Voyeur.Host
