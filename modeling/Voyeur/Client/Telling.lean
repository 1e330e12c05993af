import Voyeur.Client.Runs

/-! # What the observer is told of closes

When `close` sends an event for a call, and what the process keeps as long as the events
of `close` are the calls of the application: they are the stream of its only
connection, which nobody else can reach.
-/

namespace Voyeur

variable {w t : World} {l : Lib} {fd n : ℤ} {L : Preloaded} {caller : Caller}

/-- Whether `close` has, or gets, a socket on which it can send an event. -/
def World.hears (w : World) : Bool :=
  !(w.libs .close).finalized &&
    if (w.libs .close).initialized then
      decide (0 ≤ (w.libs .close).sock) && w.usable (w.libs .close).sock
    else w.connects && w.answers.connected

/-- The number of the socket of `close`, or the one that it gets. -/
def World.closeNumber (w : World) : ℤ :=
  if (w.libs .close).initialized then (w.libs .close).sock else w.free

theorem Sends.eq_usable {own : ℕ} {bytes : Bytes} {last b : Bool} (hb : bytes ≠ [])
    (h : Sends own fd bytes last w b t) : b = w.usable fd := by
  cases h with
  | nothing hn => exact absurd hn hb
  | connection ht hc => simp [World.usable, ht, hc]
  | socket ht => simp [World.usable, ht]
  | failed hu => exact hu.symm

theorem wire_message_ne_nil (opts : Byte) (e : ClientEvent) : wire (e.message opts) ≠ [] := by
  rw [ClientEvent.message, wire_cons]
  intro h
  exact absurd (List.append_eq_nil_iff.mp h).1 (by decide)

theorem Reports.eq_usable {fildes retval pid : CInt} {b : Bool}
    (h : Reports l (.close fildes retval pid) w b t) :
    b = (decide (0 ≤ (w.libs l).sock) && w.usable (w.libs l).sock) := by
  cases h with
  | skip hs => simp [Int.not_le.mpr hs]
  | sends hs h =>
    rw [h.eq_usable (wire_message_ne_nil _ _)]
    simp [hs]

theorem RealCloses.usable {retval : CInt} (h : RealCloses fd w retval t) (n : ℤ) :
    t.usable n = if n = fd then false else w.usable n := by
  unfold World.usable
  rw [h.target, h.links_eq]
  by_cases hn : n = fd
  · rw [if_pos hn, if_pos hn]
  · rw [if_neg hn, if_neg hn]

theorem Initializes.sock_eq (h : Initializes .close w t) (hc : t.Cached .close) :
    (t.libs .close).sock = w.closeNumber := by
  unfold World.closeNumber
  cases h with
  | skip hi => rw [if_pos hi]
  | connected hi _ =>
    rw [hi, if_neg Bool.false_ne_true, World.withSocket_self]
    rfl
  | failed hi _ =>
    have hs := hc.2
    rw [World.withSocket_self] at hs
    exact absurd hs (show ¬ (0 : ℤ) ≤ -1 by decide)

theorem World.usable_of_connection {fd : ℤ} {i : ℕ} (h : w.target fd = some (.connection i)) :
    w.usable fd = (w.links i).connected := by
  rw [World.usable, h]

theorem Initializes.hears (h : Initializes .close w t) (hf : (w.libs .close).finalized = false) :
    w.hears = (decide (0 ≤ (t.libs .close).sock) && t.usable (t.libs .close).sock) := by
  unfold World.hears
  rw [hf]
  cases h with
  | skip hi => simp [hi]
  | connected hi hc =>
    have ht : (w.allocate (.connection w.opened)).target w.free = some (.connection w.opened) :=
      World.target_allocate_self (.connection w.opened)
    have hu : World.usable (w.withSocket (w.connect Lib.close.type
        (clientOptions w.vars Lib.close.type)) .close w.free) w.free =
        w.answers.connected := by
      have hk := World.connect_self (w := w) Lib.close.type
        (clientOptions w.vars Lib.close.type)
      have ht' : World.target (w.withSocket (w.connect Lib.close.type
          (clientOptions w.vars Lib.close.type)) .close w.free) w.free =
          some (.connection w.opened) := ht
      rw [World.usable_of_connection ht']
      exact congrArg Link.connected hk
    rw [World.withSocket_self, hi]
    change _ = (decide (0 ≤ (w.free : ℤ)) && World.usable _ w.free)
    rw [hu]
    simp [hc]
  | failed hi hc =>
    rw [World.withSocket_self]
    simp [hi, hc, Library.init]

/-- An event is sent for a call just if `close` has a socket that the call does not close. -/
theorem Reports.heard {retval pid : CInt} {b : Bool} {t₁ t₂ t₃ : World}
    (hf : (w.libs .close).finalized = false) (hi : Initializes .close w t₁)
    (hr : RealCloses fd t₁ retval t₂)
    (he : Reports .close (.close (BitVec.ofInt 32 fd) retval pid) t₂ b t₃) :
    b = decide (w.hears = true ∧ fd ≠ w.closeNumber) := by
  have hh := hi.hears hf
  rw [he.eq_usable, hr.libs_eq, hr.usable]
  cases hw : w.hears with
  | true =>
    rw [hw] at hh
    obtain ⟨hs, hu⟩ := (Bool.and_eq_true _ _).mp hh.symm
    rw [hs, hu, hi.sock_eq ⟨hi.initialized, of_decide_eq_true hs⟩]
    by_cases hfd : w.closeNumber = fd
    · simp [hfd]
    · simp [hfd, Ne.symm hfd]
  | false =>
    rw [hw] at hh
    split <;> simp [← hh]

/-- The event that is sent for a call of `close`. -/
def CloseRecord.bytes (r : CloseRecord) (pid : CInt) : Bytes :=
  wire ((ClientEvent.close (BitVec.ofInt 32 r.fildes) r.retval pid).message 0)

theorem CloseRecord.wire_write (r : CloseRecord) (pid : CInt) (opts : Byte) (accessible : Bool) :
    wire ((ClientEvent.close (BitVec.ofInt 32 r.fildes) r.retval pid).write opts accessible) =
      r.bytes pid := rfl

/-- The events for the calls that were reported. -/
def World.reportedBytes (w : World) : Bytes :=
  (w.closes.filter (·.reported)).flatMap (·.bytes w.pid)

/-- The calls of the application are reported, and nothing else is on the stream of `close`. -/
structure Honest (w : World) : Prop where
  records : ∀ r ∈ w.closes, (r.reported = true ↔ r.caller = .application)
  stream : ∀ i, (w.links i).type = .close →
    (w.links i).bytes = w.reportedBytes ++
      if (w.links i).finished then wire [writeMsgType .done] else []

/-- What a process keeps in which only the closes of the application are reported. -/
structure Telling (w : World) : Prop extends Honest w where
  unique : ∀ i, (w.links i).type = .close → i = w.own .close ∧ i < w.opened
  below : ∀ n i, w.target n = some (.connection i) → i < w.opened
  unfinished : (w.libs .close).finalized = false → ∀ i, (w.links i).type = .close →
    (w.links i).finished = false
  own : w.Cached .close → w.target (w.libs .close).sock = some (.connection (w.own .close)) ∧
    (w.links (w.own .close)).type = .close
  reach : ∀ n i, w.target n = some (.connection i) → (w.links i).type = .close →
    w.Cached .close ∧ n = (w.libs .close).sock
  apart : w.Cached .close → ∀ l, l ≠ .close → w.Cached l →
    (w.libs l).sock ≠ (w.libs .close).sock
  /-- Before the first call of `close` nothing was closed. -/
  fresh : (w.libs .close).initialized = false → (w.libs .close).finalized = false →
    w.closes = [] ∧ (∀ i, (w.links i).type ≠ .close) ∧
      ∀ l, w.Cached l → w.target (w.libs l).sock ≠ none
  done : (w.libs .close).finalized = true → (w.libs .close).initialized = false

theorem World.reportedBytes_congr (hc : t.closes = w.closes) (hp : t.pid = w.pid) :
    t.reportedBytes = w.reportedBytes := by
  unfold World.reportedBytes
  rw [hc, hp]

theorem Honest.congr (h : Honest w) (hc : t.closes = w.closes) (hp : t.pid = w.pid)
    (hk : ∀ i, (t.links i).type = .close → t.links i = w.links i) : Honest t := by
  constructor
  · rw [hc]
    exact h.records
  · intro i hi
    have hi' := hk i hi
    rw [hi'] at hi ⊢
    rw [World.reportedBytes_congr hc hp]
    exact h.stream i hi

namespace Telling

/--
An operation that leaves the variables alone, and what the number of `close` refers to. A number
that refers to its connection afterwards did so before.
-/
theorem congr (h : Telling w) (hl : t.libs = w.libs) (ho : t.own .close = w.own .close)
    (hc : t.closes = w.closes) (hp : t.pid = w.pid) (hn : w.opened ≤ t.opened)
    (hk : ∀ i, (t.links i).type = .close ∨ (w.links i).type = .close → t.links i = w.links i)
    (hb : ∀ n i, t.target n = some (.connection i) → i < t.opened)
    (ht : w.Cached .close → t.target (w.libs .close).sock = w.target (w.libs .close).sock)
    (hr : ∀ n i, t.target n = some (.connection i) → (w.links i).type = .close →
      w.target n = some (.connection i))
    (hf : (w.libs .close).initialized = false → (w.libs .close).finalized = false →
      ∀ l, w.Cached l → w.target (w.libs l).sock ≠ none → t.target (w.libs l).sock ≠ none) :
    Telling t := by
  have hcached : ∀ l, t.Cached l ↔ w.Cached l := by
    intro l
    unfold World.Cached
    rw [hl]
  refine ⟨h.toHonest.congr hc hp fun i hi => hk i (.inl hi), ?_, hb, ?_, ?_, ?_, ?_, ?_, ?_⟩
  · intro i hi
    rw [hk i (.inl hi)] at hi
    obtain ⟨hi, hlt⟩ := h.unique i hi
    rw [ho]
    exact ⟨hi, hlt.trans_le hn⟩
  · intro hfin i hi
    rw [hl] at hfin
    have he := hk i (.inl hi)
    rw [he] at hi ⊢
    exact h.unfinished hfin i hi
  · intro hcl
    have hcl' := (hcached .close).mp hcl
    obtain ⟨htarget, htype⟩ := h.own hcl'
    rw [hl, ho, ht hcl', hk _ (.inr htype)]
    exact ⟨htarget, htype⟩
  · intro n i hn' hi
    rw [hk i (.inl hi)] at hi
    rw [hcached, hl]
    exact h.reach n i (hr n i hn' hi) hi
  · intro hcl l hne hcl'
    rw [hl]
    exact h.apart ((hcached _).mp hcl) l hne ((hcached _).mp hcl')
  · intro hi hfin
    rw [hl] at hi hfin
    obtain ⟨hnil, htypes, htargets⟩ := h.fresh hi hfin
    refine ⟨hc.trans hnil, ?_, ?_⟩
    · intro i hi'
      rw [hk i (.inl hi')] at hi'
      exact htypes i hi'
    · intro l hcl
      have hcl' := (hcached l).mp hcl
      rw [hl]
      exact hf hi hfin l hcl' (htargets l hcl')
  · rw [hl]
    exact h.done

theorem same (h : Telling w) (hs : SameSockets w t) : Telling t := by
  have ht : ∀ n, t.target n = w.target n := World.target_congr hs.table
  apply h.congr hs.libs (congrFun hs.own _) hs.closes hs.pid (Nat.le_of_eq hs.opened.symm)
  · intro i _
    rw [hs.links]
  · intro n i hn
    rw [ht] at hn
    rw [hs.opened]
    exact h.below n i hn
  · intro _
    exact ht _
  · intro n i hn _
    rwa [ht] at hn
  · intro _ _ l _ hn
    rwa [ht]

theorem sock_ne_free (h : Telling w) (hc : w.Cached .close) : (w.libs .close).sock ≠ w.free :=
  World.ne_free (by simp [(h.own hc).1])

theorem allocate (h : Telling w) {x : Target} (hx : ∀ i, x ≠ .connection i) :
    Telling (w.allocate x) := by
  refine h.congr rfl rfl rfl rfl (Nat.le_refl _) ?_ ?_ ?_ ?_ ?_
  · intro _ _
    rfl
  · intro n i hn
    rw [World.target_allocate] at hn
    split at hn
    · exact absurd (by simpa using hn) (hx i)
    · exact h.below n i hn
  · intro hc
    rw [World.target_allocate, if_neg (h.sock_ne_free hc)]
  · intro n i hn _
    rw [World.target_allocate] at hn
    split at hn
    · exact absurd (by simpa using hn) (hx i)
    · exact hn
  · intro _ _ l _ hn
    rw [World.target_allocate]
    split
    · simp
    · exact hn

theorem connect (h : Telling w) {type : EventType} (hn : type ≠ .close) (opts : Byte) :
    Telling (w.connect type opts) := by
  have ht : ∀ n, (w.connect type opts).target n =
      if n = w.free then some (.connection w.opened) else w.target n :=
    World.target_allocate w (.connection w.opened)
  refine h.congr rfl rfl rfl rfl (Nat.le_succ _) ?_ ?_ ?_ ?_ ?_
  · intro i hi
    apply World.connect_of_ne
    rintro rfl
    rcases hi with hi | hi
    · rw [World.connect_self] at hi
      exact hn hi
    · exact Nat.lt_irrefl _ (h.unique _ hi).2
  · intro n i hn'
    rw [ht] at hn'
    split at hn'
    · obtain rfl : w.opened = i := by simpa using hn'
      exact Nat.lt_succ_self _
    · exact Nat.lt_succ_of_lt (h.below n i hn')
  · intro hc
    rw [ht, if_neg (h.sock_ne_free hc)]
  · intro n i hn' hi
    rw [ht] at hn'
    split at hn'
    · obtain rfl : w.opened = i := by simpa using hn'
      exact absurd (h.unique _ hi).2 (Nat.lt_irrefl _)
    · exact hn'
  · intro _ _ l _ hn'
    rw [ht]
    split
    · simp
    · exact hn'

theorem sends {own : ℕ} {bytes : Bytes} {last b : Bool} (h : Telling w)
    (hs : Sends own n bytes last w b t)
    (hn : ∀ i, w.target n = some (.connection i) → (w.links i).type ≠ .close) : Telling t := by
  have ht : ∀ n, t.target n = w.target n := World.target_congr hs.table_eq
  apply h.congr hs.libs_eq (congrFun hs.own_eq _) hs.closes_eq hs.pid_eq
    (Nat.le_of_eq hs.opened_eq.symm)
  · intro i hi
    cases hs with
    | nothing _ | socket _ | failed _ => rfl
    | @connection j hj _ =>
      apply World.sendTo_of_ne
      rintro rfl
      rw [World.sendTo_self] at hi
      exact hn _ hj (hi.elim id id)
  · intro m i hm
    rw [ht] at hm
    rw [hs.opened_eq]
    exact h.below m i hm
  · intro _
    exact ht _
  · intro m i hm _
    rwa [ht] at hm
  · intro _ _ l _ hm
    rwa [ht]

theorem realCloses {retval : CInt} (h : Telling w) (hc : RealCloses fd w retval t)
    (hfd : w.Cached .close → fd ≠ (w.libs .close).sock)
    (hi : (w.libs .close).initialized = true ∨ (w.libs .close).finalized = true) :
    Telling t := by
  apply h.congr hc.libs_eq (congrFun hc.own_eq _) hc.closes_eq hc.pid_eq
    (Nat.le_of_eq hc.opened_eq.symm)
  · intro i _
    rw [hc.links_eq]
  · intro n i hn
    rw [hc.target] at hn
    split at hn
    · cases hn
    · rw [hc.opened_eq]
      exact h.below n i hn
  · intro hcl
    rw [hc.target, if_neg (hfd hcl).symm]
  · intro n i hn _
    rw [hc.target] at hn
    split at hn
    · cases hn
    · exact hn
  · intro hi' hf
    rw [hi', hf] at hi
    simp at hi

theorem setLib (h : Telling w) (hl : l ≠ .close) (lib : Library)
    (hc : lib.initialized = true → 0 ≤ lib.sock →
      (w.Cached .close → lib.sock ≠ (w.libs .close).sock) ∧
        ((w.libs .close).initialized = false → (w.libs .close).finalized = false →
          w.target lib.sock ≠ none)) :
    Telling (w.setLib l lib) := by
  have he : (w.setLib l lib).libs .close = w.libs .close := World.setLib_of_ne hl.symm lib
  refine ⟨h.toHonest.congr rfl rfl fun _ _ => rfl, h.unique, h.below, ?_, ?_, ?_, ?_, ?_, ?_⟩
  · rw [he]
    exact h.unfinished
  · unfold World.Cached
    rw [he]
    exact h.own
  · unfold World.Cached
    rw [he]
    exact h.reach
  · intro hcl l' hne hcl'
    unfold World.Cached at hcl hcl'
    rw [he] at hcl ⊢
    by_cases hl' : l' = l
    · subst hl'
      rw [World.setLib_self] at hcl' ⊢
      exact (hc hcl'.1 hcl'.2).1 hcl
    · rw [World.setLib_of_ne hl'] at hcl' ⊢
      exact h.apart hcl l' hne hcl'
  · intro hi hf
    rw [he] at hi hf
    obtain ⟨hnil, htypes, htargets⟩ := h.fresh hi hf
    refine ⟨hnil, htypes, fun l' hcl => ?_⟩
    unfold World.Cached at hcl
    by_cases hl' : l' = l
    · subst hl'
      rw [World.setLib_self] at hcl ⊢
      exact (hc hcl.1 hcl.2).2 hi hf
    · rw [World.setLib_of_ne hl'] at hcl ⊢
      exact htargets l' hcl
  · rw [he]
    exact h.done

theorem unset (h : Telling w) (hl : l ≠ .close) : Telling ((w.dropSocket l).forget l) := by
  have hd : Telling (w.dropSocket l) :=
    h.setLib hl _ fun _ hs => absurd hs (show ¬ (0 : ℤ) ≤ -1 by decide)
  exact hd.setLib hl _ fun hi _ => by cases hi

theorem type_ne_close (hl : l ≠ .close) : l.type ≠ .close := by
  cases l with
  | close => exact absurd rfl hl
  | open_ | posixSpawn => simp [Lib.type]

theorem initializes_other (h : Telling w) (hl : l ≠ .close) (hi : Initializes l w t) :
    Telling t := by
  cases hi with
  | skip _ => exact h
  | connected hn hc =>
    have hw := h.connect (type_ne_close hl) (clientOptions w.vars l.type)
    have hs : Telling ((w.connect l.type (clientOptions w.vars l.type)).setLib l
        ((w.libs l).init (clientOptions w.vars l.type) w.free)) := by
      apply hw.setLib hl
      intro _ _
      refine ⟨fun hcl => (h.sock_ne_free hcl).symm, fun _ _ => ?_⟩
      have ht := World.target_allocate_self (w := w) (.connection w.opened)
      exact fun hn => by cases ht.symm.trans hn
    refine hs.congr rfl (World.withSocket_own_of_ne hl.symm) rfl rfl (Nat.le_refl _)
      (fun _ _ => rfl) hs.below (fun _ => rfl) (fun _ _ hn _ => hn) fun _ _ _ _ hn => hn
  | failed hn hc =>
    have hs : Telling (w.setLib l
        ((w.libs l).init (clientOptions w.vars l.type) (-1))) :=
      h.setLib hl _ fun _ hs => absurd hs (show ¬ (0 : ℤ) ≤ -1 by decide)
    refine hs.congr rfl (World.withSocket_own_of_ne hl.symm) rfl rfl (Nat.le_refl _)
      (fun _ _ => rfl) hs.below (fun _ => rfl) (fun _ _ hn _ => hn) fun _ _ _ _ hn => hn

theorem connect_close (h : Telling w) (hn : (w.libs .close).initialized = false)
    (hf : (w.libs .close).finalized = false) (opts : Byte) :
    Telling (w.withSocket (w.connect .close opts) .close w.free) := by
  obtain ⟨hnil, htypes, htargets⟩ := h.fresh hn hf
  have ht : ∀ n, (w.withSocket (w.connect .close opts) .close w.free).target n =
      if n = w.free then some (.connection w.opened) else w.target n :=
    World.target_allocate w (.connection w.opened)
  have hlink : (w.withSocket (w.connect .close opts) .close w.free).links w.opened =
      ⟨.close, opts, w.answers.connected, [], false⟩ := World.connect_self .close opts
  have honly : ∀ i, ((w.withSocket (w.connect .close opts) .close w.free).links i).type =
      .close → i = w.opened := by
    intro i hi
    by_contra hne
    have hi' : ((w.connect .close opts).links i).type = .close := hi
    rw [World.connect_of_ne hne] at hi'
    exact htypes i hi'
  refine ⟨⟨?_, ?_⟩, ?_, ?_, ?_, ?_, ?_, ?_, ?_, ?_⟩
  · intro r hr
    have hr' : r ∈ w.closes := hr
    rw [hnil] at hr'
    cases hr'
  · intro i hi
    obtain rfl := honly i hi
    have hr : (w.withSocket (w.connect .close opts) .close w.free).reportedBytes = [] := by
      change (w.closes.filter _).flatMap _ = []
      rw [hnil]
      rfl
    rw [hlink, hr]
    rfl
  · intro i hi
    obtain rfl := honly i hi
    exact ⟨World.withSocket_own_self.symm, Nat.lt_succ_self _⟩
  · intro n i hi
    rw [ht] at hi
    split at hi
    · obtain rfl : w.opened = i := by simpa using hi
      exact Nat.lt_succ_self _
    · exact Nat.lt_succ_of_lt (h.below n i hi)
  · intro _ i hi
    obtain rfl := honly i hi
    rw [hlink]
  · intro _
    rw [World.withSocket_self, World.withSocket_own_self, hlink]
    exact ⟨(ht _).trans (if_pos rfl), rfl⟩
  · intro n i hi htype
    obtain rfl := honly i htype
    rw [ht] at hi
    unfold World.Cached
    rw [World.withSocket_self]
    split at hi
    · next hfree => exact ⟨⟨rfl, Int.natCast_nonneg _⟩, hfree⟩
    · exact absurd (h.below n _ hi) (Nat.lt_irrefl _)
  · intro _ l hl hcl
    unfold World.Cached at hcl
    rw [World.withSocket_self]
    rw [World.withSocket_of_ne hl] at hcl ⊢
    exact World.ne_free (htargets l hcl)
  · intro hi _
    rw [World.withSocket_self] at hi
    cases hi
  · intro hfin
    rw [World.withSocket_self] at hfin
    exact absurd (hf.symm.trans hfin) Bool.false_ne_true

theorem no_socket_close (h : Telling w) (hn : (w.libs .close).initialized = false)
    (hf : (w.libs .close).finalized = false) : Telling (w.withSocket w .close (-1)) := by
  obtain ⟨hnil, htypes, htargets⟩ := h.fresh hn hf
  have hcl : ¬ (w.withSocket w .close (-1)).Cached .close := by
    unfold World.Cached
    rw [World.withSocket_self]
    rintro ⟨-, hs⟩
    exact absurd hs (show ¬ (0 : ℤ) ≤ -1 by decide)
  refine ⟨h.toHonest.congr rfl rfl fun _ _ => rfl, ?_, h.below, ?_, ?_, ?_, ?_, ?_, ?_⟩
  · intro i hi
    exact absurd hi (htypes i)
  · intro _ i hi
    exact absurd hi (htypes i)
  · intro hc
    exact absurd hc hcl
  · intro _ i _ hi
    exact absurd hi (htypes i)
  · intro hc
    exact absurd hc hcl
  · intro hi _
    rw [World.withSocket_self] at hi
    cases hi
  · intro hfin
    rw [World.withSocket_self] at hfin
    exact absurd (hf.symm.trans hfin) Bool.false_ne_true

theorem initializes_close (h : Telling w) (hf : (w.libs .close).finalized = false)
    (hi : Initializes .close w t) : Telling t := by
  cases hi with
  | skip _ => exact h
  | connected hn _ => exact h.connect_close hn hf _
  | failed hn _ => exact h.no_socket_close hn hf

theorem recorded (h : Telling w) {fildes : ℤ} {retval : CInt}
    (hi : (w.libs .close).initialized = true ∨ (w.libs .close).finalized = true) :
    Telling (w.recorded ⟨.library, fildes, retval, false⟩) := by
  have hb : (w.recorded ⟨.library, fildes, retval, false⟩).reportedBytes = w.reportedBytes := by
    unfold World.reportedBytes World.recorded
    simp
  refine ⟨⟨?_, ?_⟩, h.unique, h.below, h.unfinished, h.own, h.reach, h.apart, ?_, h.done⟩
  · intro r hr
    rcases List.mem_append.mp hr with hr | hr
    · exact h.records r hr
    · rw [List.mem_singleton.mp hr]
      simp
  · intro i hi'
    rw [hb]
    exact h.stream i hi'
  · intro hn hf
    have hn' : (w.libs .close).initialized = false := hn
    have hf' : (w.libs .close).finalized = false := hf
    rw [hn', hf'] at hi
    simp at hi

theorem sent (h : Telling w) {r : CloseRecord} (hr : r.reported = true)
    (hr' : r.caller = .application) (hc : w.Cached .close)
    (hf : (w.libs .close).finalized = false) (own : ℕ) :
    Telling ((w.sendTo own (w.own .close) (r.bytes w.pid) false).recorded r) := by
  have htype := (h.own hc).2
  have hself := World.sendTo_self (w := w) own (w.own .close) (r.bytes w.pid) false
  rw [Bool.or_false] at hself
  have hlinks : ∀ i, ((w.sendTo own (w.own .close) (r.bytes w.pid) false).links i).type =
      (w.links i).type := by
    intro i
    by_cases he : i = w.own .close
    · rw [he, hself]
    · rw [World.sendTo_of_ne he]
  refine ⟨⟨?_, ?_⟩, ?_, h.below, ?_, ?_, ?_, h.apart, ?_, h.done⟩
  · intro r' hm
    rcases List.mem_append.mp hm with hm | hm
    · exact h.records r' hm
    · rw [List.mem_singleton.mp hm, hr, hr']
      simp
  · intro i hi
    obtain ⟨rfl, -⟩ := h.unique i ((hlinks i).symm.trans hi)
    have hb : ((w.sendTo own (w.own .close) (r.bytes w.pid) false).recorded r).reportedBytes =
        w.reportedBytes ++ r.bytes w.pid := by
      unfold World.reportedBytes World.recorded World.sendTo
      simp [hr]
    have hs := h.stream _ htype
    rw [h.unfinished hf _ htype, if_neg Bool.false_ne_true, List.append_nil] at hs
    rw [hb]
    change ((w.sendTo own (w.own .close) (r.bytes w.pid) false).links _).bytes = _ ++
      if ((w.sendTo own (w.own .close) (r.bytes w.pid) false).links _).finished then _ else []
    rw [hself, h.unfinished hf _ htype, if_neg Bool.false_ne_true, List.append_nil, ← hs]
  · intro i hi
    exact h.unique i ((hlinks i).symm.trans hi)
  · intro hf' i hi
    obtain ⟨rfl, -⟩ := h.unique i ((hlinks i).symm.trans hi)
    change ((w.sendTo own (w.own .close) (r.bytes w.pid) false).links _).finished = _
    rw [hself]
    exact h.unfinished hf _ htype
  · intro hc'
    exact ⟨(h.own hc').1, (hlinks _).trans htype⟩
  · intro n i hn hi
    exact h.reach n i hn ((hlinks i).symm.trans hi)
  · intro hi _
    exact absurd (hi.symm.trans hc.1) Bool.false_ne_true

theorem reported (h : Telling w) {retval : CInt} {b : Bool}
    (hi : (w.libs .close).initialized = true) (hf : (w.libs .close).finalized = false)
    (hr : Reports .close (.close (BitVec.ofInt 32 fd) retval w.pid) w b t)
    (hb : b = true ↔ caller = .application) : Telling (t.recorded ⟨caller, fd, retval, b⟩) := by
  have hlib : b = false → caller = .library := by
    intro hn
    cases caller with
    | library => rfl
    | application => exact absurd (hb.mpr rfl) (by simp [hn])
  cases hr with
  | skip _ =>
    rw [hlib rfl]
    exact h.recorded (.inl hi)
  | sends hs hr =>
    obtain ⟨ht, -⟩ := h.own ⟨hi, hs⟩
    cases hr with
    | nothing _ =>
      rw [hlib rfl]
      exact h.recorded (.inl hi)
    | @failed errno _ =>
      rw [hlib rfl]
      have hw : Telling { w with errno := errno } := h.same ⟨rfl, rfl, rfl, rfl, rfl, rfl, rfl, rfl⟩
      exact hw.recorded (.inl hi)
    | socket ht' => simp [ht] at ht'
    | @connection i ht' _ =>
      obtain rfl : w.own .close = i := by simpa [ht] using ht'
      have ho := hb.mp rfl
      have hr := h.sent (r := ⟨caller, fd, retval, true⟩) rfl ho ⟨hi, hs⟩ hf (w.own .close)
      rwa [← CloseRecord.wire_write _ _ (w.libs .close).opts w.answers.accessible] at hr

theorem closes (h : Telling w) (hL : L.close = true) (hc : Closes L caller fd w t)
    (ho : (w.hears = true ∧ fd ≠ w.closeNumber) ↔ caller = .application)
    (hn : (w.libs .close).finalized = false → fd ≠ w.closeNumber) : Telling t := by
  cases hc with
  | plain hL' _ =>
    rw [hL] at hL'
    cases hL'
  | forwarded _ hf hr =>
    have hlib : caller = .library := by
      cases caller with
      | library => rfl
      | application =>
        have hh := (ho.mpr rfl).1
        simp [World.hears, hf] at hh
    have ht := h.realCloses hr (fun hcl => absurd hcl.1 (by simp [h.done hf])) (.inr hf)
    rw [hlib]
    apply ht.recorded
    rw [hr.libs_eq]
    exact .inr hf
  | @reported retval b t₁ t₂ t₃ _ hf hi hr he =>
    have hb : b = true ↔ caller = .application := by
      rw [he.heard hf hi hr, decide_eq_true_eq]
      exact ho
    have h₁ := h.initializes_close hf hi
    have hf₁ : (t₁.libs .close).finalized = false := hi.finalized_eq.trans hf
    have h₂ : Telling t₂ := by
      apply h₁.realCloses hr _ (.inl hi.initialized)
      intro hcl
      rw [hi.sock_eq hcl]
      exact hn hf
    apply h₂.reported _ _ he hb
    · rw [hr.libs_eq]
      exact hi.initialized
    · rw [hr.libs_eq]
      exact hf₁

end Telling

theorem kept_telling : Kept Honest Telling where
  stop _ h := h.toHonest
  same _ _ h hs := h.same hs
  file _ h := h.allocate (by simp)
  report w t l e b h hi hl _ hr := by
    cases hr with
    | skip _ => exact h
    | sends hs hr =>
      apply h.sends hr
      intro i hn htype
      obtain ⟨hc, he⟩ := h.reach _ i hn htype
      exact h.apart hc l hl ⟨hi, hs⟩ he

end Voyeur
