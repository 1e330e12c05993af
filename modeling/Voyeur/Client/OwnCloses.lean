import Voyeur.Client.Telling

/-! # Whose closes are reported

The libraries close their sockets through the interposed `close`, which sends an event for
such a call as for any other one. The events of `close` are the calls of the application as
long as `close` can send an event whenever the application calls it, and can send none
when a library does.
-/

namespace Voyeur

open Program (From)
open Transition (Reach)

variable {w t : World} {l : Lib} {fd n : ℤ} {L : Preloaded} {caller : Caller}

theorem Sends.usable_eq {own : ℕ} {bytes : Bytes} {last b : Bool}
    (h : Sends own fd bytes last w b t) (n : ℤ) : t.usable n = w.usable n := by
  have hk : ∀ i, (t.links i).connected = (w.links i).connected := by
    intro i
    cases h with
    | nothing _ | socket _ | failed _ => rfl
    | @connection j _ _ =>
      by_cases hj : i = j
      · rw [hj, World.sendTo_self]
      · rw [World.sendTo_of_ne hj]
  unfold World.usable
  rw [World.target_congr h.table_eq]
  split
  · exact hk _
  · rfl
  · rfl
  · rfl

theorem Reports.usable_eq {e : ClientEvent} {b : Bool} (h : Reports l e w b t) (n : ℤ) :
    t.usable n = w.usable n := by
  cases h with
  | skip _ => rfl
  | sends _ h => exact h.usable_eq n

theorem World.hears_of_initialized (hi : (w.libs .close).initialized = true)
    (hf : (w.libs .close).finalized = false) :
    w.hears = (decide (0 ≤ (w.libs .close).sock) && w.usable (w.libs .close).sock) := by
  simp [World.hears, hi, hf]

/-- A library can close the number without an event. -/
structure Unheard (fd : ℤ) (w : World) : Prop where
  telling : Telling w
  deaf : w.hears = false
  nonneg : 0 ≤ fd
  other : (w.libs .close).finalized = false → fd ≠ w.closeNumber

theorem Unheard.closes (h : Unheard fd w) (hL : L.close = true) (hc : Closes L .library fd w t) :
    Unheard fd t := by
  have ht : Telling t := by
    apply h.telling.closes hL hc _ h.other
    simp [h.deaf]
  cases hc with
  | plain hL' _ =>
    rw [hL] at hL'
    cases hL'
  | @forwarded retval u _ hf hr =>
    have hf' : (u.libs .close).finalized = true := by rwa [hr.libs_eq]
    have hd : u.hears = false := by simp [World.hears, hf']
    exact ⟨ht, hd, h.nonneg, fun hn => absurd (hn.symm.trans hf') Bool.false_ne_true⟩
  | @reported retval b t₁ t₂ t₃ _ hf hi hr he =>
    have hl : t₃.libs = t₁.libs := he.libs_eq.trans hr.libs_eq
    have hi₃ : (t₃.libs .close).initialized = true := by
      rw [hl]
      exact hi.initialized
    have hf₃ : (t₃.libs .close).finalized = false := by
      rw [hl]
      exact hi.finalized_eq.trans hf
    have hd : t₃.hears = false := by
      have hh := hi.hears hf
      rw [h.deaf] at hh
      rw [World.hears_of_initialized hi₃ hf₃, he.usable_eq, hr.usable, hl]
      split <;> simp [← hh]
    refine ⟨ht, hd, h.nonneg, fun _ => ?_⟩
    change fd ≠ t₃.closeNumber
    rw [World.closeNumber, if_pos hi₃, hl]
    rintro rfl
    exact h.other hf (hi.sock_eq ⟨hi.initialized, h.nonneg⟩)

theorem Telling.other (h : Telling w) {x : Target} (ht : w.target fd = some x)
    (hx : ∀ i, x = .connection i → (w.links i).type ≠ .close) : fd ≠ w.closeNumber := by
  obtain ⟨hn, -⟩ := World.target_eq_some ht
  unfold World.closeNumber
  split
  · next hi =>
    rintro rfl
    obtain ⟨ho, htype⟩ := h.own ⟨hi, hn⟩
    exact hx _ (by simpa [ht] using ho) htype
  · exact World.ne_free (by simp [ht])

theorem World.hears_congr (hl : t.libs = w.libs) (hc : t.connects = w.connects)
    (ha : t.answers = w.answers)
    (hu : w.Cached .close → t.usable (w.libs .close).sock = w.usable (w.libs .close).sock) :
    t.hears = w.hears := by
  unfold World.hears
  rw [hl, hc, ha]
  by_cases hi : (w.libs .close).initialized = true
  · by_cases hs : 0 ≤ (w.libs .close).sock
    · rw [hu ⟨hi, hs⟩]
    · simp [hs]
  · simp [hi]

/-- The connection that was made in `w` is in use, and `close` can send no event. -/
structure Aside (w t : World) : Prop where
  telling : Telling t
  deaf : t.hears = false
  target : t.target w.free = some (.connection w.opened)
  type : (t.links w.opened).type ≠ .close

theorem Telling.aside (h : Telling w) (hd : w.hears = false) {type : EventType}
    (hn : type ≠ .close) (opts : Byte) : Aside w (w.connect type opts) := by
  have ht := World.target_allocate w (.connection w.opened)
  constructor
  · exact h.connect hn opts
  · rw [← hd]
    refine World.hears_congr rfl rfl rfl fun hc => ?_
    obtain ⟨ho, htype⟩ := h.own hc
    have ho' : (w.connect type opts).target (w.libs .close).sock =
        some (.connection (w.own .close)) := by
      rw [← ho]
      exact (ht _).trans (if_neg (h.sock_ne_free hc))
    unfold World.usable
    rw [ho, ho']
    exact congrArg Link.connected (World.connect_of_ne (Nat.ne_of_lt (h.unique _ htype).2) _ _)
  · exact (ht w.free).trans (if_pos rfl)
  · rw [World.connect_self]
    exact hn

theorem Aside.sends {bytes : Bytes} {last b : Bool} (h : Aside w t) {t' : World}
    (hs : Sends w.opened w.free bytes last t b t') : Aside w t' := by
  constructor
  · apply h.telling.sends hs
    intro i hi
    obtain rfl : w.opened = i := by simpa [h.target] using hi
    exact h.type
  · rw [World.hears_congr hs.libs_eq hs.connects_eq hs.answers_eq fun _ => hs.usable_eq _]
    exact h.deaf
  · rw [World.target_congr hs.table_eq]
    exact h.target
  · cases hs with
    | nothing _ | socket _ | failed _ => exact h.type
    | @connection i hi _ =>
      obtain rfl : w.opened = i := by simpa [h.target] using hi
      rw [World.sendTo_self]
      exact h.type

theorem Aside.unheard (h : Aside w t) : Unheard w.free t := by
  refine ⟨h.telling, h.deaf, Int.natCast_nonneg _, fun _ => h.telling.other h.target ?_⟩
  intro i hi
  obtain rfl : w.opened = i := by simpa using hi
  exact h.type

namespace Observed

theorem from_unheard (hL : L.close = true) (h : Unheard fd w) :
    From (fun _ => Honest) w (anyClose L .library fd) fun _ => Unheard fd := by
  have ht := h.telling.toHonest
  exact (from_anyClose_of ht ⟨ht.records, ht.stream⟩ .library fd).conseq
    fun _ _ hc => h.closes hL hc

theorem from_single_telling (hL : L.close = true) (h : Telling w)
    (hd : w.connects = true → w.hears = false) {type : EventType} (hn : type ≠ .close)
    (opts : Byte) (x : Writing) :
    From (fun _ => Honest) w (oneConnection L type opts x) fun _ => Telling := by
  apply from_oneConnection (C := Aside w) (K := Unheard w.free) (D := Unheard w.free)
    (fun _ => h.toHonest) (fun _ _ => h)
  · intro hc
    exact h.aside (hd hc) hn opts
  · intro b t t' ht hs
    exact ht.sends hs
  · intro _ t ht
    exact ht.telling.toHonest
  · intro b t t' ht hs
    exact (ht.sends hs).unheard
  · intro t ht
    exact from_unheard hL ht
  · intro t ht
    exact ht
  · intro t ht
    exact ht.telling

theorem from_unload_telling (hL : L.close = true) (h : Telling w) (hl : l ≠ .close)
    (hd : w.Cached l → w.hears = false) :
    From (fun _ => Honest) w (unload L l) fun _ => Telling := by
  apply from_unload (C := Unheard (w.libs l).sock) (D := Unheard (w.libs l).sock)
  · intro b t hc hs
    have ht : Telling t := by
      apply h.sends hs
      intro i hi htype
      obtain ⟨hcl, he⟩ := h.reach _ i hi htype
      exact h.apart hcl l hl hc he
    have hd' : t.hears = false := by
      rw [World.hears_congr hs.libs_eq hs.connects_eq hs.answers_eq fun _ => hs.usable_eq _]
      exact hd hc
    refine ⟨ht, hd', hc.2, fun hf => ?_⟩
    unfold World.closeNumber World.free
    rw [hs.libs_eq] at hf ⊢
    rw [hs.table_eq]
    split
    · next hi =>
      intro he
      exact h.apart ⟨hi, he ▸ hc.2⟩ l hl hc he
    · next hi =>
      rw [Bool.not_eq_true] at hi
      exact World.ne_free ((h.fresh hi hf).2.2 l hc)
  · intro t ht
    exact from_unheard hL ht
  · intro t ht
    exact ht
  · intro t ht
    exact ht.telling.unset hl
  · intro hc
    exact h.setLib hl _ fun hi _ => by cases hi
  · intro _
    exact h

end Observed

/-- The destructor of `close` has begun, and only the number `fd` is that of its connection. -/
structure Departing (fd : ℤ) (w : World) : Prop extends Honest w where
  unique : ∀ i, (w.links i).type = .close → i = w.own .close ∧ i < w.opened
  below : ∀ n i, w.target n = some (.connection i) → i < w.opened
  finalized : (w.libs .close).finalized = true
  only : ∀ n i, w.target n = some (.connection i) → (w.links i).type = .close → n = fd

namespace Departing

theorem setLib (h : Departing fd w) (lib : Library) (hf : lib.finalized = true) :
    Departing fd (w.setLib .close lib) := by
  refine ⟨h.toHonest.congr rfl rfl fun _ _ => rfl, h.unique, h.below, ?_, h.only⟩
  rw [World.setLib_self]
  exact hf

theorem unset (h : Departing fd w) : Departing fd ((w.dropSocket .close).forget .close) := by
  have hd : Departing fd (w.dropSocket .close) := h.setLib _ h.finalized
  exact hd.setLib _ hd.finalized

theorem telling (h : Departing (-1) w) (hi : (w.libs .close).initialized = false) :
    Telling w := by
  have hc : ¬ w.Cached .close := fun hc => absurd hc.1 (by simp [hi])
  have hf := h.finalized
  refine ⟨h.toHonest, h.unique, h.below, ?_, ?_, ?_, ?_, ?_, fun _ => hi⟩
  · intro hf'
    exact absurd (hf'.symm.trans hf) Bool.false_ne_true
  · intro hc'
    exact absurd hc' hc
  · intro n i hn htype
    have he := h.only n i hn htype
    have hpos := (World.target_eq_some hn).1
    omega
  · intro hc'
    exact absurd hc' hc
  · intro _ hf'
    exact absurd (hf'.symm.trans hf) Bool.false_ne_true

theorem closes (h : Departing fd w) (hL : L.close = true) (hc : Closes L .library fd w t) :
    Departing (-1) t := by
  cases hc with
  | plain hL' _ =>
    rw [hL] at hL'
    cases hL'
  | reported _ hf => exact absurd (hf.symm.trans h.finalized) Bool.false_ne_true
  | @forwarded retval u _ hf hr =>
    have hb : (u.recorded ⟨.library, fd, retval, false⟩).reportedBytes = w.reportedBytes := by
      unfold World.reportedBytes World.recorded
      rw [hr.closes_eq, hr.pid_eq]
      simp
    have hk : (u.recorded ⟨.library, fd, retval, false⟩).links = w.links := hr.links_eq
    refine ⟨⟨?_, ?_⟩, ?_, ?_, ?_, ?_⟩
    · intro r hm
      rcases List.mem_append.mp hm with hm | hm
      · rw [hr.closes_eq] at hm
        exact h.records r hm
      · rw [List.mem_singleton.mp hm]
        simp
    · rw [hk, hb]
      exact h.stream
    · rw [hk]
      intro i hi
      obtain ⟨hi, hlt⟩ := h.unique i hi
      exact ⟨hi.trans (congrFun hr.own_eq .close).symm, hlt.trans_eq hr.opened_eq.symm⟩
    · intro n i hn
      have hn' : u.target n = some (.connection i) := hn
      rw [hr.target] at hn'
      split at hn'
      · cases hn'
      · exact (h.below n i hn').trans_eq hr.opened_eq.symm
    · change (u.libs .close).finalized = true
      rw [hr.libs_eq]
      exact hf
    · rw [hk]
      intro n i hn htype
      have hn' : u.target n = some (.connection i) := hn
      rw [hr.target] at hn'
      split at hn'
      · cases hn'
      · next hne => exact absurd (h.only n i hn' htype) hne

theorem weaken (h : Departing (-1) w) (fd : ℤ) : Departing fd w := by
  refine ⟨h.toHonest, h.unique, h.below, h.finalized, fun n i hn htype => ?_⟩
  have he := h.only n i hn htype
  have hpos := (World.target_eq_some hn).1
  omega

end Departing

/-- The connection of `close` is the only one of its type. -/
theorem Telling.departing (h : Telling w) (hfd : w.Cached .close → (w.libs .close).sock = fd) :
    Departing fd w.finalize := by
  refine ⟨h.toHonest.congr rfl rfl fun _ _ => rfl, h.unique, h.below, ?_, ?_⟩
  · exact congrArg Library.finalized (World.setLib_self .close _)
  · intro n i hn htype
    obtain ⟨hc, hs⟩ := h.reach n i hn htype
    exact hs.trans (hfd hc)

theorem Departing.sends {b : Bool} {i : ℕ} (h : Departing fd w)
    (hs : Sends i fd (wire [writeMsgType .done]) true w b t)
    (ht : w.target fd = some (.connection i)) (hi : (w.links i).finished = false) :
    Departing fd t := by
  cases hs with
  | nothing _ => exact h
  | socket ht' => simp [ht] at ht'
  | failed _ =>
    exact ⟨h.toHonest.congr rfl rfl fun _ _ => rfl, h.unique, h.below, h.finalized, h.only⟩
  | @connection j ht' _ =>
    obtain rfl : i = j := by simpa [ht] using ht'
    have hself := World.sendTo_self (w := w) i i (wire [writeMsgType .done]) true
    rw [Bool.or_true] at hself
    have htypes : ∀ j, ((w.sendTo i i (wire [writeMsgType .done]) true).links j).type =
        (w.links j).type := by
      intro j
      by_cases hj : j = i
      · rw [hj, hself]
      · rw [World.sendTo_of_ne hj]
    refine ⟨⟨h.records, ?_⟩, ?_, h.below, h.finalized, ?_⟩
    · intro j htype
      rw [htypes] at htype
      have hstream := h.stream j htype
      by_cases hj : j = i
      · subst hj
        rw [hi, if_neg Bool.false_ne_true, List.append_nil] at hstream
        rw [hself, if_pos rfl]
        change (w.links j).bytes ++ _ = w.reportedBytes ++ _
        rw [hstream]
      · rw [World.sendTo_of_ne hj]
        exact hstream
    · intro j htype
      rw [htypes] at htype
      exact h.unique j htype
    · intro n j hn htype
      rw [htypes] at htype
      exact h.only n j hn htype

namespace Observed

theorem from_unload_close (hL : L.close = true) (h : Telling w) :
    From (fun _ => Honest) w.finalize (unload L .close) fun _ => Telling := by
  have hlib : w.finalize.libs .close = { w.libs .close with finalized := true } :=
    World.setLib_self .close _
  have hs : (w.finalize.libs .close).sock = (w.libs .close).sock := by rw [hlib]
  have hi : (w.finalize.libs .close).initialized = (w.libs .close).initialized := by rw [hlib]
  have hcached : w.finalize.Cached .close ↔ w.Cached .close := by
    unfold World.Cached
    rw [hi, hs]
  apply from_unload (C := Departing (w.libs .close).sock) (D := Departing (-1))
  · intro b t hc hsends
    have hc' := hcached.mp hc
    obtain ⟨ht, htype⟩ := h.own hc'
    have hfin : (w.libs .close).finalized = false := by
      cases hf : (w.libs .close).finalized with
      | false => rfl
      | true => exact absurd hc'.1 (by simp [h.done hf])
    rw [hs] at hsends
    exact (h.departing fun _ => rfl).sends hsends ht (h.unfinished hfin _ htype)
  · intro t ht
    rw [hs]
    have ht' : Honest t := ht.toHonest
    exact (from_anyClose_of ht' ⟨ht'.records, ht'.stream⟩ .library _).conseq
      fun _ _ hc => ht.closes hL hc
  · intro t ht
    exact ht.weaken _
  · intro t ht
    exact ht.unset.telling (congrArg Library.initialized (World.setLib_self .close _))
  · intro hc
    have hn : Departing (-1) w.finalize := h.departing fun hc' => absurd (hcached.mpr hc') hc
    have hf : Departing (-1) (w.finalize.forget .close) := hn.setLib _ hn.finalized
    exact hf.telling (congrArg Library.initialized (World.setLib_self .close _))
  · intro hi'
    have hn : Departing (-1) w.finalize := h.departing fun hc' => by
      rw [hi, hc'.1] at hi'
      cases hi'
    exact hn.telling hi'

end Observed

/--
`close` can send an event when the application calls it, on a socket that the call does not
close, and can send none when a library closes a socket, be it in its destructor or after the one
event of `exec` or `exit`. The run stays in one process.
-/
def Discreet (L : Preloaded) (w : World) (d : Deal) : Prop :=
  match d with
  | .close fd => w.hears = true ∧ fd ≠ w.closeNumber
  | .cleanup l => L.has l = true → l ≠ .close → w.Cached l → w.hears = false
  | d => (d.single L w = true → w.connects = true → w.hears = false) ∧ d.forks = false

instance (L : Preloaded) (w : World) (d : Deal) : Decidable (Discreet L w d) :=
  match d with
  | .open_ _ _ _ | .close _ | .socket | .setenv _ | .posixSpawn _ _ _ _ | .exec _ | .exit _ |
      .cleanup _ | .fork _ _ => by
    unfold Discreet
    infer_instance

theorem Observed.from_step_telling {d : Deal} {answers : Answers} (hL : L.close = true)
    (h : Telling w) (hd : Discreet L (w.answered answers) d) :
    From (fun _ => Honest) (w.answered answers) (d.perform L) fun _ => Telling := by
  have hw : Telling (w.answered answers) :=
    h.same ⟨rfl, rfl, rfl, rfl, rfl, rfl, rfl, rfl⟩
  apply from_perform kept_telling hw
  constructor
  · intro l t hl hi
    apply hw.initializes_other _ hi
    rintro rfl
    cases d with
    | open_ => simp [Deal.enters] at hl
    | posixSpawn | close | socket | setenv | exec | exit | cleanup | fork =>
      simp [Deal.enters] at hl
  · rintro fd rfl
    have ht := hw.toHonest
    apply (from_anyClose_of ht ⟨ht.records, ht.stream⟩ .application fd).conseq
    intro _ t hc
    exact hw.closes hL hc (iff_of_true hd rfl) fun _ => hd.2
  · intro _ _
    exact hw.allocate (by simp)
  · intro type opts x didExitAlready hs hn _
    have hw' : Telling { w.answered answers with didExitAlready := didExitAlready } :=
      hw.same ⟨rfl, rfl, rfl, rfl, rfl, rfl, rfl, rfl⟩
    apply from_single_telling hL hw' _ hn
    cases d with
    | exec | exit => exact hd.1 hs
    | open_ | posixSpawn | close | socket | setenv | cleanup | fork => cases hs
  · intro _ t u calls b ht hi hs hsend
    have hu : Telling u := by
      apply ht.sends hsend
      intro i hn htype
      obtain ⟨hc, he⟩ := ht.reach _ i hn htype
      exact ht.apart hc .posixSpawn (by decide) ⟨hi, hs⟩ he
    exact hu.toHonest
  · rintro l rfl hl
    apply from_cleanup (from_lock fun _ => hw.toHonest)
    · intro hn
      exact from_unload_telling hL hw hn fun hc => hd hl hn hc
    · rintro rfl
      exact from_unload_close hL hw
  · rintro child held rfl
    cases hd.2

theorem telling_start (environ : StringArray) (pid ppid : CInt) (table : List ℕ) :
    Telling (World.start environ pid ppid table) := by
  have hfile : ∀ n x, (World.start environ pid ppid table).target n = some x → x = .file := by
    intro n x hx
    obtain ⟨-, hx⟩ := World.target_eq_some hx
    obtain ⟨l₁, l₂, hl, -⟩ := List.lookup_eq_some_iff.mp hx
    have hm : (n.toNat, x) ∈ table.map fun fd => (fd, Target.file) := by
      change (n.toNat, x) ∈ (World.start environ pid ppid table).table
      rw [hl]
      exact List.mem_append_right _ List.mem_cons_self
    obtain ⟨fd, -, he⟩ := List.mem_map.mp hm
    exact (Prod.ext_iff.mp he).2.symm
  have htype : ∀ i, ((World.start environ pid ppid table).links i).type ≠ .close :=
    fun _ ht => by cases ht
  have hc : ∀ l, ¬ (World.start environ pid ppid table).Cached l := fun _ hc => by cases hc.1
  refine ⟨⟨?_, fun i hi => absurd hi (htype i)⟩, ?_, ?_, ?_, ?_, ?_, ?_, ?_, ?_⟩
  · intro r hr
    cases hr
  · intro i hi
    exact absurd hi (htype i)
  · intro n i hn
    cases hfile n _ hn
  · intro _ i hi
    exact absurd hi (htype i)
  · intro h
    exact absurd h (hc .close)
  · intro _ i _ hi
    exact absurd hi (htype i)
  · intro h
    exact absurd h (hc .close)
  · intro _ _
    exact ⟨rfl, htype, fun l h => absurd h (hc l)⟩
  · intro hf
    cases hf

/--
In a process whose `close` hears the application and not the libraries, the calls that are
reported are those of the application, in their order, and the stream of `close` is their events.
-/
theorem honest_of_discreet {environ : StringArray} {pid ppid : CInt} {table : List ℕ}
    (hL : L.close = true)
    (h : Reach (World.step L) (fun w a => Discreet L (w.answered a.2) a.1)
      (World.start environ pid ppid table) w) :
    (∀ r ∈ w.closes, (r.reported = true ↔ r.caller = .application)) ∧
      ∀ i, (w.links i).type = .close → (w.links i).bytes =
        (w.closes.filter (·.caller = .application)).flatMap (·.bytes w.pid) ++
          if (w.links i).finished then wire [writeMsgType .done] else [] := by
  have ht : Honest w := by
    exact (run_invariant (I := Telling) (fun _ hw => hw.toHonest)
      (fun _ hw => hw.congr rfl rfl fun _ _ => rfl)
      (fun _ _ hw ha => Observed.from_step_telling hL hw ha) h
      (telling_start environ pid ppid table)).1
  refine ⟨ht.records, fun i hi => ?_⟩
  have hf : w.closes.filter (·.reported) = w.closes.filter (·.caller = .application) := by
    apply List.filter_congr
    intro r hr
    rw [Bool.eq_iff_iff, decide_eq_true_eq]
    exact ht.records r hr
  rw [← hf]
  exact ht.stream i hi

/-- Two calls of the application, and the destructors, that of `close` first. -/
def discreetRun : List (Deal × Answers) :=
  [(opensFile, granted), (.close 0, granted), (.close 7, granted), (.cleanup .close, granted),
    (.cleanup .open_, granted)]

theorem honest_discreetRun :
    ∃ w : World, w.closes.map (·.caller) = [.application, .application, .library, .library] ∧
      ∀ r ∈ w.closes, (r.reported = true ↔ r.caller = .application) := by
  have hx : (Transition.exec (World.step ⟨true, true, true⟩)
      (fun w a => Discreet ⟨true, true, true⟩ (w.answered a.2) a.1)
      (World.start observedEnviron 7 1 [0, 1, 2]) discreetRun).any (fun w =>
        decide (w.closes.map (·.caller) =
          [.application, .application, .library, .library])) = true := by
    decide +kernel
  obtain ⟨w, hr, hw⟩ := Transition.exists_reach_of_exec _ hx
  exact ⟨w, of_decide_eq_true hw, (honest_of_discreet rfl hr).1⟩

/-- A program tries to execute a file that is not there. -/
def failedExecRun : List (Deal × Answers) :=
  [(.exec (.execve (some (ascii ['x'])) (some ⟨[ascii ['x']], by decide⟩) (some observedEnviron)),
    { granted with real := .failed 2 })]

theorem not_honest_failedExecRun :
    ∃ w, Reach (World.step ⟨true, true, true⟩) (fun _ _ => True)
      (World.start observedEnviron 7 1 [0, 1, 2]) w ∧
      ¬ ∀ r ∈ w.closes, (r.reported = true ↔ r.caller = .application) := by
  have hx : (Transition.exec (World.step ⟨true, true, true⟩) (fun _ _ => True)
      (World.start observedEnviron 7 1 [0, 1, 2]) failedExecRun).any (fun w =>
        decide (¬ ∀ r ∈ w.closes, (r.reported = true ↔ r.caller = .application))) = true := by
    decide +kernel
  obtain ⟨w, hr, hw⟩ := Transition.exists_reach_of_exec _ hx
  exact ⟨w, hr, of_decide_eq_true hw⟩

end Voyeur
