import Voyeur.Client.World
import Voyeur.Program.From

/-! # What the calls of a process do

The operations that concern descriptors and connections are described by relations on
states: connecting for the first time, sending, closing. For each function of the
libraries there is a rule that says what an invariant of the process has to be kept by.
-/

namespace Voyeur

open Program (From)

/-- The state after a library has put a socket into its variable, the first call being in `w`. -/
def World.withSocket (w w' : World) (l : Lib) (sock : ℤ) : World :=
  { w'.setLib l ((w'.libs l).init (clientOptions w.vars l.type) sock) with
    own := Function.update w'.own l w.opened
    cache :=
      if l = .posixSpawn then
        ⟨getenv w.vars varLibs, getenv w.vars varOpts, getenv w.vars varSocket⟩
      else w'.cache
    uses := w'.uses ++ l.functions.map .lookup }

section

variable {w w' : World} {l l' : Lib} {sock : ℤ}

theorem World.connects_iff :
    w.connects = true ↔ getenv w.vars varSocket ≠ none ∧ w.answers.socket = true := by
  unfold World.connects
  rw [Bool.and_eq_true, Option.isSome_iff_ne_none]

theorem World.withSocket_self :
    (w.withSocket w' l sock).libs l =
      (w'.libs l).init (clientOptions w.vars l.type) sock :=
  Function.update_self _ _ _

theorem World.withSocket_of_ne (h : l' ≠ l) : (w.withSocket w' l sock).libs l' = w'.libs l' :=
  Function.update_of_ne h _ _

theorem World.withSocket_own_self : (w.withSocket w' l sock).own l = w.opened :=
  Function.update_self _ _ _

theorem World.withSocket_own_of_ne (h : l' ≠ l) :
    (w.withSocket w' l sock).own l' = w'.own l' :=
  Function.update_of_ne h _ _

end

/-- The first call of a library's function gives it a socket, or `-1`. -/
inductive Initializes (l : Lib) (w : World) : World → Prop
  | skip : (w.libs l).initialized = true → Initializes l w w
  | connected :
      (w.libs l).initialized = false → w.connects = true →
      Initializes l w
        (w.withSocket (w.connect l.type (clientOptions w.vars l.type)) l w.free)
  | failed :
      (w.libs l).initialized = false → w.connects = false →
      Initializes l w (w.withSocket w l (-1))

/-- Bytes that are meant for the connection `own` go out on the number `fd`, or not. -/
inductive Sends (own : ℕ) (fd : ℤ) (bytes : Bytes) (last : Bool) (w : World) :
    Bool → World → Prop
  | nothing : bytes = [] → Sends own fd bytes last w false w
  | connection {i : ℕ} :
      w.target fd = some (.connection i) → (w.links i).connected = true →
      Sends own fd bytes last w true (w.sendTo own i bytes last)
  | socket :
      w.target fd = some .socket →
      Sends own fd bytes last w true { w with sent := w.sent ++ [⟨own, .socket⟩] }
  | failed {errno : CInt} :
      w.usable fd = false → Sends own fd bytes last w false { w with errno := errno }

/-- A library writes an event, if it has a socket. -/
inductive Reports (l : Lib) (e : ClientEvent) (w : World) : Bool → World → Prop
  | skip : (w.libs l).sock < 0 → Reports l e w false w
  | sends {b : Bool} {t : World} :
      0 ≤ (w.libs l).sock →
      Sends (w.own l) (w.libs l).sock (wire (e.write (w.libs l).opts w.answers.accessible)) false
        w b t →
      Reports l e w b t

/-- The real `close`, called through a pointer or not. -/
inductive RealCloses (fd : ℤ) (w : World) : CInt → World → Prop
  | unknown {uses : List PointerUse} :
      w.target fd = none →
      RealCloses fd w (-1) { w.called (.close fd) with errno := Observed.ebadf, uses := uses }
  | released {x : Target} {retval errno : CInt} {closing : List Outcome}
      {uses : List PointerUse} :
      w.target fd = some x →
      RealCloses fd w retval { (w.called (.close fd)).release fd with
        errno := errno, answers := { w.answers with closing := closing }, uses := uses }

/-- What the name `close` does. -/
inductive Closes (L : Preloaded) (caller : Caller) (fd : ℤ) (w : World) : World → Prop
  | plain {retval : CInt} {t : World} :
      L.close = false → RealCloses fd w retval t → Closes L caller fd w t
  | forwarded {retval : CInt} {t : World} :
      L.close = true → (w.libs .close).finalized = true → RealCloses fd w retval t →
      Closes L caller fd w (t.recorded ⟨caller, fd, retval, false⟩)
  | reported {retval : CInt} {b : Bool} {t₁ t₂ t₃ : World} :
      L.close = true → (w.libs .close).finalized = false →
      Initializes .close w t₁ → RealCloses fd t₁ retval t₂ →
      Reports .close (.close (BitVec.ofInt 32 fd) retval t₂.pid) t₂ b t₃ →
      Closes L caller fd w (t₃.recorded ⟨caller, fd, retval, b⟩)

section

variable {own : ℕ} {fd : ℤ} {bytes : Bytes} {last b : Bool} {l : Lib} {e : ClientEvent}
  {retval : CInt} {w t : World}

theorem Sends.table_eq (h : Sends own fd bytes last w b t) : t.table = w.table := by
  cases h <;> rfl

theorem Sends.libs_eq (h : Sends own fd bytes last w b t) : t.libs = w.libs := by
  cases h <;> rfl

theorem Sends.own_eq (h : Sends own fd bytes last w b t) : t.own = w.own := by
  cases h <;> rfl

theorem Sends.opened_eq (h : Sends own fd bytes last w b t) : t.opened = w.opened := by
  cases h <;> rfl

theorem Sends.connects_eq (h : Sends own fd bytes last w b t) : t.connects = w.connects := by
  cases h <;> rfl

theorem Sends.answers_eq (h : Sends own fd bytes last w b t) : t.answers = w.answers := by
  cases h <;> rfl

theorem Sends.closes_eq (h : Sends own fd bytes last w b t) : t.closes = w.closes := by
  cases h <;> rfl

theorem Sends.pid_eq (h : Sends own fd bytes last w b t) : t.pid = w.pid := by
  cases h <;> rfl

theorem Reports.libs_eq (h : Reports l e w b t) : t.libs = w.libs := by
  cases h with
  | skip _ => rfl
  | sends _ hs => exact hs.libs_eq

theorem Initializes.initialized (h : Initializes l w t) : (t.libs l).initialized = true := by
  cases h with
  | skip hi => exact hi
  | connected | failed =>
    rw [World.withSocket_self]
    rfl

theorem Initializes.finalized_eq (h : Initializes l w t) :
    (t.libs l).finalized = (w.libs l).finalized := by
  cases h with
  | skip _ => rfl
  | connected _ _ | failed _ _ =>
    rw [World.withSocket_self]
    rfl

theorem RealCloses.of_used {uses : List PointerUse} (h : RealCloses fd (w.used uses) retval t) :
    RealCloses fd w retval t := by
  cases h with
  | unknown ht => exact .unknown ht
  | released ht => exact .released ht

theorem RealCloses.libs_eq (h : RealCloses fd w retval t) : t.libs = w.libs := by
  cases h <;> rfl

theorem RealCloses.own_eq (h : RealCloses fd w retval t) : t.own = w.own := by
  cases h <;> rfl

theorem RealCloses.links_eq (h : RealCloses fd w retval t) : t.links = w.links := by
  cases h <;> rfl

theorem RealCloses.opened_eq (h : RealCloses fd w retval t) : t.opened = w.opened := by
  cases h <;> rfl

theorem RealCloses.sent_eq (h : RealCloses fd w retval t) : t.sent = w.sent := by
  cases h <;> rfl

theorem RealCloses.closes_eq (h : RealCloses fd w retval t) : t.closes = w.closes := by
  cases h <;> rfl

theorem RealCloses.pid_eq (h : RealCloses fd w retval t) : t.pid = w.pid := by
  cases h <;> rfl

theorem RealCloses.target (h : RealCloses fd w retval t) (n : ℤ) :
    t.target n = if n = fd then none else w.target n := by
  cases h with
  | unknown ht =>
    split
    · next hn => exact hn ▸ ht
    · rfl
  | released ht =>
    obtain ⟨hn, -⟩ := World.target_eq_some ht
    exact World.target_release hn n

end

/-- Neither descriptors nor connections nor static variables change. -/
structure SameSockets (w t : World) : Prop where
  table : t.table = w.table
  libs : t.libs = w.libs
  own : t.own = w.own
  links : t.links = w.links
  opened : t.opened = w.opened
  sent : t.sent = w.sent
  closes : t.closes = w.closes
  pid : t.pid = w.pid

theorem SameSockets.used (w : World) (uses : List PointerUse) : SameSockets w (w.used uses) :=
  ⟨rfl, rfl, rfl, rfl, rfl, rfl, rfl, rfl⟩

namespace Observed

variable {w : World} {l : Lib} {fd : ℤ} {L : Preloaded} {E : Halt → World → Prop}
  {I C D : World → Prop}

theorem from_createClientSocket (h : getenv w.vars varSocket = none → E .crashed w)
    (type : EventType) (opts : Byte) :
    From E w (createClientSocket type opts) fun sock t =>
      getenv w.vars varSocket ≠ none ∧
        (w.connects = true ∧ sock = w.free ∧ t = w.connect type opts ∨
          w.connects = false ∧ sock = -1 ∧ t = w) := by
  cases hg : getenv w.vars varSocket with
  | none => simpa [From, createClientSocket, hg] using h hg
  | some _ =>
    cases hs : w.answers.socket <;> simp [From, createClientSocket, World.connects, hg, hs]

theorem from_lock (h : (w.libs l).locked = true → E .blocked w) :
    From E w (lock l) fun _ t => t = w := by
  unfold lock
  apply From.get
  apply From.ite
  · intro hl
    exact From.throw (h hl)
  · intro _
    exact From.pure rfl

theorem from_callNext {f : NextFunction}
    (h : (w.libs l).next = false → E .crashed (w.used [.call f])) :
    From E w (callNext l f) fun _ t => t = w.used [.call f] := by
  unfold callNext
  apply From.bind (From.modify (Q := fun _ t => t = w.used [.call f]) rfl)
  rintro _ _ rfl
  apply From.get
  apply From.ite
  · intro hn
    rw [Bool.not_eq_true'] at hn
    exact From.throw (h hn)
  · intro _
    exact From.pure rfl

theorem from_initialization (h : (w.libs l).initialized = false →
      getenv w.vars varSocket = none → E .crashed w) :
    From E w (initialize_ l) fun _ t => Initializes l w t := by
  unfold initialize_
  apply From.get
  apply From.ite
  · intro hi
    rw [Bool.not_eq_true'] at hi
    apply (from_createClientSocket (h hi) l.type _).bind
    rintro sock t ⟨-, ⟨hw, rfl, rfl⟩ | ⟨hw, rfl, rfl⟩⟩
    · exact From.modify (.connected hi hw)
    · exact From.modify (.failed hi hw)
  · intro hi
    rw [Bool.not_eq_true', Bool.not_eq_false] at hi
    exact From.pure (.skip hi)

theorem from_callNext_of_initializes {t : World} (h : Initializes l w t) (f : NextFunction) :
    From E t (callNext l f) fun _ t' => t' = t.used [.call f] := by
  apply from_callNext
  intro hn
  rw [(t.libs l).next_of_initialized h.initialized] at hn
  cases hn

theorem from_sendOn (own : ℕ) (fd : ℤ) (calls : List WriteCall) (last : Bool) :
    From E w (sendOn own fd calls last) (Sends own fd (wire calls) last w) := by
  unfold From sendOn
  by_cases hn : wire calls = []
  · rw [if_pos hn]
    exact .nothing hn
  · rw [if_neg hn]
    cases ht : w.target fd with
    | none => exact .failed (by simp [World.usable, ht])
    | some x =>
      cases x with
      | file => exact .failed (by simp [World.usable, ht])
      | socket => exact .socket ht
      | connection i =>
        cases hc : (w.links i).connected with
        | false =>
          have hu : w.usable fd = false := by simp [World.usable, ht, hc]
          simpa [hc] using Sends.failed hu
        | true => simpa [hc] using Sends.connection ht hc

theorem from_emit {own : ℕ} {x : Writing}
    (h : x.crashes = true → ∀ b t, Sends own fd (wire x.calls) false w b t → E .crashed t) :
    From E w (emit own fd x) fun b t =>
      x.crashes = false ∧ Sends own fd (wire x.calls) false w b t := by
  unfold emit
  apply (from_sendOn _ _ _ _).bind
  intro b t ht
  by_cases hx : x.crashes = true
  · rw [if_pos hx]
    apply From.bind (Q := fun _ _ => False) (From.throw (h hx b t ht))
    intro _ _ hf
    exact hf.elim
  · rw [if_neg hx]
    exact From.pure ⟨by simpa using hx, ht⟩

theorem from_emit_crashes {own : ℕ} {x : Writing} (hx : x.crashes = true)
    (h : ∀ b t, Sends own fd (wire x.calls) false w b t → E .crashed t) :
    From E w (emit own fd x) fun _ _ => False := by
  apply (from_emit fun _ => h).conseq
  rintro _ _ ⟨hn, -⟩
  rw [hx] at hn
  cases hn

theorem from_report_writing {x : Byte → Bool → Writing} {e : ClientEvent}
    (hx : ∀ options accessible, (x options accessible).crashes = false →
      x options accessible = e.writing options accessible)
    (h : (x (w.libs l).opts w.answers.accessible).crashes = true → 0 ≤ (w.libs l).sock →
      ∀ b t, Sends (w.own l) (w.libs l).sock
        (wire (x (w.libs l).opts w.answers.accessible).calls) false w b t → E .crashed t) :
    From E w (report l x) (Reports l e w) := by
  unfold report
  apply From.get
  apply From.ite
  · intro hs
    apply (from_emit fun hc => h hc hs).conseq
    rintro b t ⟨hc, ht⟩
    rw [hx _ _ hc] at ht
    exact .sends hs ht
  · intro hs
    exact From.pure (.skip (Int.not_le.mp hs))

theorem from_report_crashes {x : Byte → Bool → Writing} (hs : 0 ≤ (w.libs l).sock)
    (hx : (x (w.libs l).opts w.answers.accessible).crashes = true)
    (h : ∀ b t, Sends (w.own l) (w.libs l).sock
      (wire (x (w.libs l).opts w.answers.accessible).calls) false w b t → E .crashed t) :
    From E w (report l x) fun _ _ => False := by
  unfold report
  apply From.get
  rw [if_pos hs]
  exact from_emit_crashes hx h

theorem from_report (l : Lib) (e : ClientEvent) :
    From E w (report l e.writing) (Reports l e w) :=
  from_report_writing (fun _ _ _ => rfl) fun hn => by cases hn

theorem from_realClose (fd : ℤ) : From E w (realClose fd) (RealCloses fd w) := by
  unfold From realClose
  cases ht : w.target fd with
  | none => exact .unknown ht
  | some x =>
    cases hc : w.answers.closing with
    | nil =>
      have hr : RealCloses fd w 0 { (w.called (.close fd)).release fd with
          errno := w.errno, answers := { w.answers with closing := [] } } := .released ht
      rwa [← hc] at hr
    | cons o closing => cases o <;> exact .released ht

theorem from_anyClose
    (hl : L.close = true → (w.libs .close).finalized = false → (w.libs .close).locked = true →
      E .blocked w)
    (hs : (w.libs .close).finalized = false → (w.libs .close).initialized = false →
      getenv w.vars varSocket = none → E .crashed w)
    (hn : L.close = true → (w.libs .close).finalized = true → (w.libs .close).next = false →
      E .crashed (w.used [.call .close]))
    (caller : Caller) (fd : ℤ) :
    From E w (anyClose L caller fd) fun _ t => Closes L caller fd w t := by
  unfold anyClose
  apply From.ite
  · intro hL
    unfold close
    apply From.get
    apply From.ite
    · intro hf
      unfold forwardClose
      apply (from_callNext (hn hL hf)).bind
      rintro _ _ rfl
      apply (from_realClose fd).bind
      intro retval t ht
      apply From.bind (From.modify (Q := fun _ t' => t' = t.recorded _) rfl)
      rintro _ _ rfl
      exact From.pure (.forwarded hL hf ht.of_used)
    · intro hf
      rw [Bool.not_eq_true] at hf
      unfold reportClose
      apply (from_lock (hl hL hf)).skip
      intro _
      apply (from_initialization (hs hf)).bind
      intro _ t₁ h₁
      apply (from_callNext_of_initializes h₁ _).bind
      rintro _ _ rfl
      apply (from_realClose fd).bind
      intro retval t₂ h₂
      apply From.get
      apply (from_report .close _).bind
      intro b t₃ h₃
      apply From.bind (From.modify (Q := fun _ t' => t' = t₃.recorded _) rfl)
      rintro _ _ rfl
      exact From.pure (.reported hL hf h₁ h₂.of_used h₃)
  · intro hL
    rw [Bool.not_eq_true] at hL
    exact (from_realClose fd).conseq fun _ _ h => .plain hL h

theorem from_anyClose_of {E : World → Prop} (h : E w) (hu : E (w.used [.call .close]))
    (caller : Caller) (fd : ℤ) :
    From (fun _ => E) w (anyClose L caller fd) fun _ t => Closes L caller fd w t :=
  from_anyClose (fun _ _ _ => h) (fun _ _ _ => h) (fun _ _ _ => hu) caller fd

/--
Every call of `close` leads from `C` to `D`, which is stronger; then so do all the calls of
`voyeur_close_socket`.
-/
theorem from_closeLoop (hc : ∀ t, C t → From E t (anyClose L .library fd) fun _ => D)
    (hd : ∀ t, D t → C t) (n : ℕ) (h : C w) :
    From E w (closeLoop L fd (n + 1)) fun _ => D := by
  induction n generalizing w with
  | zero =>
    unfold closeLoop
    apply (hc w h).bind
    intro retval t ht
    apply From.get
    apply From.ite
    · intro _
      exact From.pure ht
    · intro _
      exact From.pure ht
  | succ n ih =>
    unfold closeLoop
    apply (hc w h).bind
    intro retval t ht
    apply From.get
    apply From.ite
    · intro _
      exact ih (hd t ht)
    · intro _
      exact From.pure ht

theorem from_closeSocket (hc : ∀ t, C t → From E t (anyClose L .library fd) fun _ => D)
    (hd : ∀ t, D t → C t) (h : C w) : From E w (closeSocket L fd) fun _ => D :=
  From.get (from_closeLoop hc hd _ h)

theorem from_unload
    (hs : ∀ b t, w.Cached l → Sends (w.own l) (w.libs l).sock (wire [writeMsgType .done]) true
      w b t → C t)
    (hc : ∀ t, C t → From E t (anyClose L .library (w.libs l).sock) fun _ => D)
    (hd : ∀ t, D t → C t) (hu : ∀ t, D t → I ((t.dropSocket l).forget l))
    (hn : ¬ w.Cached l → I (w.forget l)) (hi : (w.libs l).initialized = false → I w) :
    From E w (unload L l) fun _ => I := by
  unfold unload
  apply From.get
  apply From.ite
  · intro hi'
    by_cases hk : 0 ≤ (w.libs l).sock
    · rw [if_pos hk]
      apply (from_sendOn _ _ _ _).bind
      intro b t ht
      apply (from_closeSocket hc hd (hs b t ⟨hi', hk⟩ ht)).bind
      intro _ t' ht'
      apply From.bind (From.modify (Q := fun _ t'' => t'' = t'.dropSocket l) rfl)
      rintro _ _ rfl
      exact From.modify (hu t' ht')
    · rw [if_neg hk]
      exact From.modify (hn fun h => hk h.2)
  · intro hi'
    exact From.pure (hi (by simpa using hi'))

theorem from_cleanup (hk : From E w (lock l) fun _ t => t = w)
    (h : l ≠ .close → From E w (unload L l) fun _ => I)
    (h' : l = .close → From E w.finalize (unload L l) fun _ => I) :
    From E w (cleanup L l) fun _ => I := by
  unfold cleanup
  apply hk.skip
  intro _
  by_cases hl : l = .close
  · rw [if_pos hl]
    apply From.bind (From.modify (Q := fun _ t => t = w.finalize) rfl)
    rintro _ _ rfl
    exact h' hl
  · rw [if_neg hl]
    exact h hl

/-- A connection for one event, with a condition for each of its states. -/
theorem from_oneConnection_stages {B K : World → Prop} {type : EventType} {opts : Byte}
    {x : Writing} (h : getenv w.vars varSocket = none → E .crashed w)
    (hI : getenv w.vars varSocket ≠ none → w.connects = false → I w)
    (hw : w.connects = true → B (w.connect type opts))
    (he : ∀ b t t', B t → Sends w.opened w.free (wire x.calls) false t b t' → C t')
    (hx : x.crashes = true → ∀ t, C t → E .crashed t)
    (hs : ∀ b t t', C t → Sends w.opened w.free (wire [writeMsgType .done]) true t b t' → K t')
    (hc : ∀ t, K t → From E t (anyClose L .library w.free) fun _ => D)
    (hd : ∀ t, D t → K t) (hu : ∀ t, D t → I t) :
    From E w (oneConnection L type opts x) fun _ => I := by
  unfold oneConnection
  apply From.get
  apply (from_createClientSocket h type opts).bind
  rintro sock t ⟨hg, ⟨hr, rfl, rfl⟩ | ⟨hr, rfl, rfl⟩⟩
  · rw [if_pos (Int.natCast_nonneg _)]
    apply (from_emit fun hn b t ht => hx hn t (he b _ t (hw hr) ht)).bind
    rintro b t₁ ⟨-, h₁⟩
    apply (from_sendOn _ _ _ _).bind
    intro b' t₂ h₂
    exact (from_closeSocket hc hd (hs _ _ _ (he _ _ _ (hw hr) h₁) h₂)).conseq fun _ => hu
  · exact From.pure (hI hg hr)

theorem from_oneConnection {K : World → Prop} {type : EventType} {opts : Byte}
    {x : Writing} (h : getenv w.vars varSocket = none → E .crashed w)
    (hI : getenv w.vars varSocket ≠ none → w.connects = false → I w)
    (hw : w.connects = true → C (w.connect type opts))
    (he : ∀ b t t', C t → Sends w.opened w.free (wire x.calls) false t b t' → C t')
    (hx : x.crashes = true → ∀ t, C t → E .crashed t)
    (hs : ∀ b t t', C t → Sends w.opened w.free (wire [writeMsgType .done]) true t b t' → K t')
    (hc : ∀ t, K t → From E t (anyClose L .library w.free) fun _ => D)
    (hd : ∀ t, D t → K t) (hu : ∀ t, D t → I t) :
    From E w (oneConnection L type opts x) fun _ => I :=
  from_oneConnection_stages h hI hw he hx hs hc hd hu

end Observed

/-- An invariant that does not depend on what the files and the events are. -/
structure Kept (E I : World → Prop) : Prop where
  stop : ∀ w, I w → E w
  same : ∀ w t, I w → SameSockets w t → I t
  file : ∀ w, I w → I (w.allocate .file)
  report : ∀ w t l e b, I w → (w.libs l).initialized = true → l ≠ .close → e.type = l.type →
    Reports l e w b t → I t

namespace Observed

variable {w : World} {L : Preloaded} {E I : World → Prop}

theorem from_realOpen (hk : Kept E I) (h : I w) (path : Option CStr) (oflag mode : CInt) :
    From (fun _ => E) w (realOpen path oflag mode) fun _ t => I t ∧ t.libs = w.libs := by
  unfold From realOpen
  dsimp only [World.called]
  cases hr : w.answers.real with
  | ok n =>
    have hc : I (w.called (.open_ path oflag (if creates oflag then some mode else none))) :=
      hk.same w _ h ⟨rfl, rfl, rfl, rfl, rfl, rfl, rfl, rfl⟩
    exact ⟨hk.file _ hc, rfl⟩
  | failed e => exact ⟨hk.same w _ h ⟨rfl, rfl, rfl, rfl, rfl, rfl, rfl, rfl⟩, rfl⟩

theorem from_open (hk : Kept E I) (h : I w) (hi : ∀ t, Initializes .open_ w t → I t)
    (path : Option CStr) (oflag mode : CInt) :
    From (fun _ => E) w (open_ path oflag mode) fun _ => I := by
  unfold open_
  apply (from_lock fun _ => hk.stop w h).skip
  intro _
  apply (from_initialization fun _ _ => hk.stop w h).bind
  intro _ t₁ h₁
  apply (from_callNext_of_initializes h₁ _).bind
  rintro _ _ rfl
  have hI := hk.same _ (t₁.used [.call .open_]) (hi t₁ h₁) (.used _ _)
  apply (from_realOpen hk hI path oflag mode).bind
  rintro retval t₂ ⟨h₂, hl⟩
  apply From.get
  apply (from_report .open_ _).bind
  intro b t₃ h₃
  apply From.pure
  apply hk.report t₂ t₃ .open_ _ b h₂ _ (by decide) rfl h₃
  rw [hl]
  exact h₁.initialized

theorem from_realSpawn (hk : Kept E I) (h : I w) (function : SpawnFunction) (path : Option CStr)
    (argv : Option (List CStr)) (envp : List CStr) :
    From (fun _ => E) w (realSpawn function path argv envp) fun _ t => I t ∧ t.libs = w.libs := by
  unfold From realSpawn
  dsimp only [World.called]
  cases hr : w.answers.real <;>
    exact ⟨hk.same w _ h ⟨rfl, rfl, rfl, rfl, rfl, rfl, rfl, rfl⟩, rfl⟩

theorem from_augment (h : E w) (envp : Option (List CStr)) (libs opts sockpath : Option CStr) :
    From (fun _ => E) w (augment envp libs opts sockpath) fun _ t => t = w := by
  unfold augment
  split
  · exact From.pure rfl
  · exact From.throw h

/-- An array that is missing may be noticed only after something was written of an event. -/
theorem from_posixSpawn (hk : Kept E I) (h : I w) (hi : ∀ t, Initializes .posixSpawn w t → I t)
    (function : SpawnFunction) (pid : Bool) (path : Option CStr) (argv envp : ArrayPtr)
    (hb : ¬ (argv ≠ none ∧ envp ≠ none) → ∀ t u calls b, I t →
      (t.libs .posixSpawn).initialized = true → 0 ≤ (t.libs .posixSpawn).sock →
      Sends (t.own .posixSpawn) (t.libs .posixSpawn).sock (wire calls) false t b u → E u) :
    From (fun _ => E) w (posixSpawn function pid path argv envp) fun _ => I := by
  unfold posixSpawn
  apply (from_lock fun _ => hk.stop w h).skip
  intro _
  apply (from_initialization fun _ _ => hk.stop w h).bind
  intro _ t₁ h₁
  have hI := hi t₁ h₁
  apply From.get
  apply (from_augment (hk.stop _ hI) _ _ _ _).skip
  intro voyeurEnvp
  apply (from_callNext_of_initializes h₁ _).bind
  rintro _ _ rfl
  have hI' := hk.same _ (t₁.used [.call function.next]) hI (.used _ _)
  apply (from_realSpawn hk hI' function path (strings argv) voyeurEnvp).bind
  rintro retval t₂ ⟨h₂, hl⟩
  have hi₂ : (t₂.libs .posixSpawn).initialized = true := by
    rw [hl]
    exact h₁.initialized
  apply From.get
  have hr := from_report_writing (E := fun _ => E) (w := t₂) (l := .posixSpawn)
    (e := execEvent path argv envp (getenv t₂.vars varPath) t₂.answers.cwd t₂.answers.child t₂.pid)
    (x := fun options accessible => execWriting options accessible path (strings argv)
      (strings envp) (getenv t₂.vars varPath) t₂.answers.cwd t₂.answers.child t₂.pid)
    (fun _ _ => execWriting_of_not_crashes) (fun hc hs b t ht => by
      apply hb _ t₂ t _ b h₂ hi₂ hs ht
      rintro ⟨ha, he⟩
      rw [execWriting_of_arrays ha he] at hc
      cases hc)
  apply hr.bind
  intro b t₃ h₃
  exact From.pure (hk.report t₂ t₃ .posixSpawn _ b h₂ hi₂ (by decide) rfl h₃)

theorem from_realExec (hk : Kept E I) (h : I w) (function : ExecFunction) (path : Option CStr)
    (argv : Option (List CStr)) (envp : List CStr) :
    From (fun _ => E) w (realExec function path argv envp) fun _ => I := by
  have hc : I (w.called (.exec function path argv envp)) :=
    hk.same w _ h ⟨rfl, rfl, rfl, rfl, rfl, rfl, rfl, rfl⟩
  unfold From realExec
  dsimp only [World.called]
  cases hr : w.answers.real with
  | ok n => exact hk.stop _ hc
  | failed e => exact hk.same _ _ hc ⟨rfl, rfl, rfl, rfl, rfl, rfl, rfl, rfl⟩

theorem from_exec (hk : Kept E I) (function : ExecFunction) (path : Option CStr)
    (argv envp : ArrayPtr)
    (hone : ∀ opts (x : Writing), (argv ≠ none ∧ envp ≠ none → ∃ (e : ClientEvent) (accessible : _),
      e.type = .exec ∧ x = e.writing opts accessible) →
      From (fun _ => E) w (oneConnection L .exec opts x) fun _ => I) :
    From (fun _ => E) w (exec L function path (strings argv) (strings envp)) fun _ => I := by
  unfold exec
  apply From.get
  have hx := hone (clientOptions w.vars .exec) (execWriting (clientOptions w.vars .exec)
    w.answers.accessible path (strings argv) (strings envp) (getenv w.vars varPath) w.answers.cwd
    w.pid w.ppid) fun ⟨ha, he⟩ => ⟨_, _, rfl, execWriting_of_arrays ha he⟩
  apply hx.bind
  intro _ t ht
  apply (from_augment (hk.stop t ht) _ _ _ _).skip
  intro voyeurEnvp
  exact from_realExec hk ht function path (strings argv) voyeurEnvp

end Observed

namespace ExecRequest

/-- The real function that is called. -/
def function : ExecRequest → ExecFunction
  | .execve _ _ _ | .execv _ _ | .execl _ _ _ | .execle _ _ _ _ => .execve
  | .execvp _ _ | .execvpe _ _ _ | .execlp _ _ _ => .execvpe

def path : ExecRequest → Option CStr
  | .execve path _ _ | .execvp path _ | .execvpe path _ _ | .execv path _ => path
  | .execlp path _ _ | .execl path _ _ | .execle path _ _ _ => some path

/-- The arguments that are passed to the real function. -/
def argv : ExecRequest → ArrayPtr
  | .execve _ argv _ | .execvp _ argv | .execvpe _ argv _ | .execv _ argv => argv
  | .execlp path start rest | .execl path start rest | .execle path start rest _ =>
      some (Observed.varargsToArgv path start rest)

/-- The environment that the caller gives, or that of the process. -/
def envp (environ : ArrayPtr) : ExecRequest → ArrayPtr
  | .execve _ _ envp | .execvpe _ _ envp | .execle _ _ _ envp => envp
  | .execvp _ _ | .execlp _ _ _ | .execv _ _ | .execl _ _ _ => environ

/-- All functions of the family come down to one. -/
theorem perform_eq (L : Preloaded) (r : ExecRequest) (w : World) :
    r.perform L w =
      Observed.exec L r.function r.path (strings r.argv) (strings (r.envp w.environ)) w := by
  cases r <;> rfl

end ExecRequest

namespace Observed

variable {w : World} {L : Preloaded} {E I : World → Prop}

theorem from_writeExitEvent (h : I w)
    (hone : ∀ (e : ClientEvent) opts, e.type = .exit → w.didExitAlready = false →
      From (fun _ => E) { w with didExitAlready := true }
        (oneConnection L .exit opts (e.writing opts false)) fun _ => I)
    (status : CInt) : From (fun _ => E) w (writeExitEvent L status) fun _ => I := by
  unfold writeExitEvent
  apply From.get
  apply From.ite
  · intro hd
    apply From.bind (From.modify (Q := fun _ t => t = { w with didExitAlready := true }) rfl)
    rintro _ _ rfl
    exact hone (.exit status w.pid w.ppid) _ rfl (by simpa using hd)
  · intro _
    exact From.pure h

end Observed

end Voyeur
