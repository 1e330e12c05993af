import Voyeur.Client.Runs

/-! # What is written on the connections

Whatever the process calls, each connection carries whole events of one library, and at
most one mark that the client is done, at its end. A library that is in use has a socket
of a connection of its own, as long as the application leaves its number alone.
-/

namespace Voyeur

variable {w w' w₀ : World} {busy : Option Lib} {l l' : Lib} {fd fd' : ℤ} {L : Preloaded}

/-- Whole events of one type, and at most one mark behind them. -/
def Formed (link : Link) : Prop :=
  ∃ es : List ClientEvent, (∀ e ∈ es, e.type = link.type) ∧
    link.bytes = es.flatMap (fun e => wire (e.message link.opts)) ++
      if link.finished then wire [writeMsgType .done] else []

/-- The number in a library's variable is that of its own connection, which it can still use. -/
structure Owns (w : World) (l : Lib) : Prop where
  target : w.target (w.libs l).sock = some (.connection (w.own l))
  lt : w.own l < w.opened
  type : (w.links (w.own l)).type = l.type
  opts : (w.links (w.own l)).opts = (w.libs l).opts
  unfinished : (w.links (w.own l)).finished = false

/-- Since `w₀` all connections are in order, and every library but a busy one owns its own. -/
structure Tidy (w₀ : World) (busy : Option Lib) (w : World) : Prop where
  own : ∀ l, busy ≠ some l → w.Cached l → Owns w l
  formed : ∀ i, Formed (w.links i)
  kept : ∀ i, (w₀.links i).finished = true → w.links i = w₀.links i
  finished_lt : ∀ i, (w.links i).finished = true → i < w.opened

/-- No library but a busy one has the number in its variable. -/
def Spare (busy : Option Lib) (fd : ℤ) (w : World) : Prop :=
  ∀ l, busy ≠ some l → w.Cached l → (w.libs l).sock ≠ fd

theorem Lib.type_injective (h : l.type = l'.type) : l = l' := by
  cases l <;> cases l' <;> first | rfl | cases h

/-- The static variables say the same about the socket. -/
def SameSocket (lib lib' : Library) : Prop :=
  lib'.initialized = lib.initialized ∧ lib'.sock = lib.sock ∧ lib'.opts = lib.opts

theorem SameSocket.of_eq {lib lib' : Library} (h : lib' = lib) : SameSocket lib lib' := by
  rw [h]
  exact ⟨rfl, rfl, rfl⟩

theorem Tidy.congr (h : Tidy w₀ busy w) (ht : w'.table = w.table)
    (hl : ∀ l, SameSocket (w.libs l) (w'.libs l)) (ho : w'.own = w.own)
    (hk : w'.links = w.links) (hn : w'.opened = w.opened) : Tidy w₀ busy w' := by
  constructor
  · intro l hb hc
    obtain ⟨hi, hs, hopts⟩ := hl l
    have hc' : w.Cached l := by
      unfold World.Cached at hc ⊢
      rwa [hi, hs] at hc
    have hown := h.own l hb hc'
    constructor
    · rw [World.target_congr ht, hs, ho]
      exact hown.target
    · rw [ho, hn]
      exact hown.lt
    · rw [hk, ho]
      exact hown.type
    · rw [hk, ho, hopts]
      exact hown.opts
    · rw [hk, ho]
      exact hown.unfinished
  · rw [hk]
    exact h.formed
  · rw [hk]
    exact h.kept
  · rw [hk, hn]
    exact h.finished_lt

theorem Tidy.same (h : Tidy w₀ busy w) (hs : SameSockets w w') : Tidy w₀ busy w' :=
  h.congr hs.table (fun l => .of_eq (by rw [hs.libs])) hs.own hs.links hs.opened

theorem Spare.congr (h : Spare busy fd w) (hl : w'.libs = w.libs) : Spare busy fd w' := by
  unfold Spare World.Cached at h ⊢
  rw [hl]
  exact h

theorem Tidy.allocate (h : Tidy w₀ busy w) (t : Target) : Tidy w₀ busy (w.allocate t) := by
  constructor
  · intro l hb hc
    have ho := h.own l hb hc
    refine ⟨?_, ho.lt, ho.type, ho.opts, ho.unfinished⟩
    have hn : (w.libs l).sock ≠ w.free := World.ne_free (by rw [ho.target]; simp)
    rw [World.target_allocate]
    exact (if_neg hn).trans ho.target
  · exact h.formed
  · exact h.kept
  · exact h.finished_lt

theorem Tidy.release (h : Tidy w₀ busy w) (hn : 0 ≤ fd) (hs : Spare busy fd w) :
    Tidy w₀ busy (w.release fd) := by
  constructor
  · intro l hb hc
    have ho := h.own l hb hc
    refine ⟨?_, ho.lt, ho.type, ho.opts, ho.unfinished⟩
    rw [World.target_release hn]
    exact (if_neg (hs l hb hc)).trans ho.target
  · exact h.formed
  · exact h.kept
  · exact h.finished_lt

theorem Tidy.connect (h : Tidy w₀ busy w) (type : EventType) (opts : Byte) :
    Tidy w₀ busy (w.connect type opts) := by
  have ha := h.allocate (.connection w.opened)
  constructor
  · intro l hb hc
    have ho := ha.own l hb hc
    have hl := World.connect_of_ne (w := w) (Nat.ne_of_lt ho.lt) type opts
    constructor
    · exact ho.target
    · exact Nat.lt_succ_of_lt ho.lt
    · exact (congrArg Link.type hl).trans ho.type
    · exact (congrArg Link.opts hl).trans ho.opts
    · exact (congrArg Link.finished hl).trans ho.unfinished
  · intro i
    by_cases hi : i = w.opened
    · subst hi
      rw [World.connect_self]
      exact ⟨[], by simp, rfl⟩
    · rw [World.connect_of_ne hi]
      exact h.formed i
  · intro i hf
    have hk := h.kept i hf
    have hi : i ≠ w.opened := Nat.ne_of_lt (h.finished_lt i (hk ▸ hf))
    rw [World.connect_of_ne hi]
    exact hk
  · intro i hf
    by_cases hi : i = w.opened
    · subst hi
      exact Nat.lt_succ_self _
    · rw [World.connect_of_ne hi] at hf
      exact Nat.lt_succ_of_lt (h.finished_lt i hf)

theorem Tidy.send (h : Tidy w₀ busy w) (own : ℕ) {i : ℕ} {bytes : Bytes} {last : Bool}
    (hi : i < w.opened) (hf : (w.links i).finished = false)
    (hb : Formed { w.links i with
      bytes := (w.links i).bytes ++ bytes, finished := (w.links i).finished || last })
    (ho : last = true → ∀ l, busy ≠ some l → w.Cached l → w.own l ≠ i) :
    Tidy w₀ busy (w.sendTo own i bytes last) := by
  constructor
  · intro l hl hc
    have hown := h.own l hl hc
    by_cases hj : w.own l = i
    · have hs := World.sendTo_self (w := w) own i bytes last
      have hlast : last = false := by
        cases last with
        | false => rfl
        | true => exact absurd hj (ho rfl l hl hc)
      subst hj
      refine ⟨hown.target, hown.lt, ?_, ?_, ?_⟩
      · exact (congrArg Link.type hs).trans hown.type
      · exact (congrArg Link.opts hs).trans hown.opts
      · exact (congrArg Link.finished hs).trans (by rw [hf, hlast]; rfl)
    · have hs := @World.sendTo_of_ne w own _ _ hj bytes last
      refine ⟨hown.target, hown.lt, ?_, ?_, ?_⟩
      · exact (congrArg Link.type hs).trans hown.type
      · exact (congrArg Link.opts hs).trans hown.opts
      · exact (congrArg Link.finished hs).trans hown.unfinished
  · intro j
    by_cases hj : j = i
    · subst hj
      rw [World.sendTo_self]
      exact hb
    · rw [World.sendTo_of_ne hj]
      exact h.formed j
  · intro j hk
    have hkept := h.kept j hk
    have hj : j ≠ i := by
      rintro rfl
      rw [hkept, hk] at hf
      cases hf
    rw [World.sendTo_of_ne hj]
    exact hkept
  · intro j hfin
    by_cases hj : j = i
    · subst hj
      exact hi
    · rw [World.sendTo_of_ne hj] at hfin
      exact h.finished_lt j hfin

theorem Formed.event {link : Link} (h : Formed link) (hf : link.finished = false)
    {e : ClientEvent} (he : e.type = link.type) (accessible : Bool) :
    Formed { link with
      bytes := link.bytes ++ wire (e.write link.opts accessible)
      finished := link.finished || false } := by
  obtain ⟨es, ht, hb⟩ := h
  rw [hf, if_neg (by simp), List.append_nil] at hb
  rcases e.write_cases link.opts accessible with hw | hw
  · refine ⟨es, ht, ?_⟩
    simp [hw, hb, hf]
  · refine ⟨es ++ [e], ?_, ?_⟩
    · intro e' he'
      rcases List.mem_append.mp he' with he' | he'
      · exact ht e' he'
      · rw [List.mem_singleton.mp he']
        exact he
    · simp [hw, hb, hf]

theorem Formed.done {link : Link} (h : Formed link) (hf : link.finished = false) :
    Formed { link with
      bytes := link.bytes ++ wire [writeMsgType .done], finished := link.finished || true } := by
  obtain ⟨es, ht, hb⟩ := h
  rw [hf, if_neg (by simp), List.append_nil] at hb
  exact ⟨es, ht, by simp [hb]⟩

/-- A library that has no socket afterwards, and need not be in order before. -/
theorem Tidy.uncached {busy' : Option Lib} (h : Tidy w₀ busy w)
    (hb : ∀ l', busy = some l' → busy' = some l' ∨ l' = l) (ht : w'.table = w.table)
    (hl : ∀ l', l' ≠ l → w'.libs l' = w.libs l' ∧ w'.own l' = w.own l') (hn : ¬ w'.Cached l)
    (hk : w'.links = w.links) (ho : w'.opened = w.opened) : Tidy w₀ busy' w' := by
  constructor
  · intro l' hb' hc
    have hne : l' ≠ l := by
      rintro rfl
      exact hn hc
    obtain ⟨hlib, hown⟩ := hl l' hne
    unfold World.Cached at hc
    rw [hlib] at hc
    have hnb : busy ≠ some l' := by
      intro he
      rcases hb l' he with he | he
      · exact hb' he
      · exact hne he
    have hold := h.own l' hnb hc
    constructor
    · rw [World.target_congr ht, hlib, hown]
      exact hold.target
    · rw [hown, ho]
      exact hold.lt
    · rw [hk, hown]
      exact hold.type
    · rw [hk, hown, hlib]
      exact hold.opts
    · rw [hk, hown]
      exact hold.unfinished
  · rw [hk]
    exact h.formed
  · rw [hk]
    exact h.kept
  · rw [hk, ho]
    exact h.finished_lt

/-- What is known of the connections of a process that has stopped. -/
structure Sound (w₀ w : World) : Prop where
  formed : ∀ i, Formed (w.links i)
  kept : ∀ i, (w₀.links i).finished = true → w.links i = w₀.links i

theorem Tidy.sound (h : Tidy w₀ busy w) : Sound w₀ w := ⟨h.formed, h.kept⟩

theorem Tidy.withSocket (h : Tidy w₀ busy w) :
    Tidy w₀ busy (w.withSocket (w.connect l.type (clientOptions w.vars l.type)) l
      w.free) := by
  have hc := h.connect l.type (clientOptions w.vars l.type)
  constructor
  · intro l' hb hc'
    by_cases hl : l' = l
    · subst hl
      have hk := World.connect_self (w := w) l'.type (clientOptions w.vars l'.type)
      constructor
      · rw [World.withSocket_self, World.withSocket_own_self]
        exact World.target_allocate_self (w := w) (.connection w.opened)
      · rw [World.withSocket_own_self]
        exact Nat.lt_succ_self _
      · rw [World.withSocket_own_self]
        exact congrArg Link.type hk
      · rw [World.withSocket_own_self, World.withSocket_self]
        exact congrArg Link.opts hk
      · rw [World.withSocket_own_self]
        exact congrArg Link.finished hk
    · unfold World.Cached at hc'
      rw [World.withSocket_of_ne hl] at hc'
      have ho := hc.own l' hb hc'
      constructor
      · rw [World.withSocket_of_ne hl, World.withSocket_own_of_ne hl]
        exact ho.target
      · rw [World.withSocket_own_of_ne hl]
        exact ho.lt
      · rw [World.withSocket_own_of_ne hl]
        exact ho.type
      · rw [World.withSocket_own_of_ne hl, World.withSocket_of_ne hl]
        exact ho.opts
      · rw [World.withSocket_own_of_ne hl]
        exact ho.unfinished
  · exact hc.formed
  · exact hc.kept
  · exact hc.finished_lt

theorem World.not_cached_withSocket : ¬ (w.withSocket w' l (-1)).Cached l := by
  unfold World.Cached
  rw [World.withSocket_self]
  rintro ⟨-, hs⟩
  exact absurd hs (show ¬ (0 : ℤ) ≤ -1 by decide)

theorem Tidy.withoutSocket (h : Tidy w₀ busy w) : Tidy w₀ busy (w.withSocket w l (-1)) := by
  refine h.uncached (fun _ he => .inl he) rfl ?_ World.not_cached_withSocket rfl rfl
  intro l' hn
  exact ⟨World.withSocket_of_ne hn, World.withSocket_own_of_ne hn⟩

theorem Tidy.initializes (h : Tidy w₀ busy w) (hi : Initializes l w w') : Tidy w₀ busy w' := by
  cases hi with
  | skip _ => exact h
  | connected _ _ => exact h.withSocket
  | failed _ _ => exact h.withoutSocket

theorem Spare.initializes (h : Spare busy fd w) (hi : Initializes l w w')
    (hf : (w.libs l).initialized = false → w.connects = true → fd ≠ w.free) :
    Spare busy fd w' := by
  cases hi with
  | skip _ => exact h
  | connected hn hw =>
    intro l' hb hc
    by_cases hl : l' = l
    · subst hl
      rw [World.withSocket_self]
      exact (hf hn hw).symm
    · unfold World.Cached at hc
      rw [World.withSocket_of_ne hl] at hc ⊢
      exact h l' hb hc
  | failed _ _ =>
    intro l' hb hc
    by_cases hl : l' = l
    · subst hl
      exact absurd hc World.not_cached_withSocket
    · unfold World.Cached at hc
      rw [World.withSocket_of_ne hl] at hc ⊢
      exact h l' hb hc

theorem Tidy.sends {i own : ℕ} {bytes : Bytes} {last b : Bool} (h : Tidy w₀ busy w)
    (ht : w.target fd = some (.connection i)) (hs : Sends own fd bytes last w b w')
    (hi : i < w.opened) (hf : (w.links i).finished = false)
    (hb : Formed { w.links i with
      bytes := (w.links i).bytes ++ bytes, finished := (w.links i).finished || last })
    (ho : last = true → ∀ l, busy ≠ some l → w.Cached l → w.own l ≠ i) : Tidy w₀ busy w' := by
  cases hs with
  | nothing _ => exact h
  | failed _ => exact h.same ⟨rfl, rfl, rfl, rfl, rfl, rfl, rfl, rfl⟩
  | socket ht' =>
    rw [ht] at ht'
    cases ht'
  | @connection j ht' _ =>
    obtain rfl : i = j := by
      rw [ht] at ht'
      simpa using ht'
    exact h.send own hi hf hb ho

theorem Tidy.reported {e : ClientEvent} {b : Bool} (h : Tidy w₀ busy w) (hb : busy ≠ some l)
    (hi : (w.libs l).initialized = true) (he : e.type = l.type) (hr : Reports l e w b w') :
    Tidy w₀ busy w' := by
  cases hr with
  | skip _ => exact h
  | sends hs hr =>
    have ho := h.own l hb ⟨hi, hs⟩
    apply h.sends ho.target hr ho.lt ho.unfinished
    · rw [← ho.opts]
      exact (h.formed _).event ho.unfinished (he.trans ho.type.symm) _
    · intro hl
      cases hl

theorem Tidy.realCloses {retval : CInt} (h : Tidy w₀ busy w) (hs : Spare busy fd w)
    (hc : RealCloses fd w retval w') : Tidy w₀ busy w' := by
  cases hc with
  | unknown _ => exact h.same ⟨rfl, rfl, rfl, rfl, rfl, rfl, rfl, rfl⟩
  | released ht =>
    obtain ⟨hn, -⟩ := World.target_eq_some ht
    have hk : Tidy w₀ busy (w.called (.close fd)) :=
      h.same ⟨rfl, rfl, rfl, rfl, rfl, rfl, rfl, rfl⟩
    have hr : Tidy w₀ busy ((w.called (.close fd)).release fd) := hk.release hn hs
    exact hr.same ⟨rfl, rfl, rfl, rfl, rfl, rfl, rfl, rfl⟩

theorem Tidy.recorded (h : Tidy w₀ busy w) (r : CloseRecord) : Tidy w₀ busy (w.recorded r) :=
  h.congr rfl (fun _ => .of_eq rfl) rfl rfl rfl

/-- The process can close the number `fd`, which no library but a busy one has in use. -/
structure Ready (L : Preloaded) (w₀ : World) (busy : Option Lib) (fd : ℤ) (w : World) : Prop where
  tidy : Tidy w₀ busy w
  spare : Spare busy fd w
  /-- The interposed `close` has its connection, or gets one with another number, or needs none. -/
  closable : L.close = true → (w.libs .close).finalized = true ∨
    busy ≠ some .close ∧
      ((w.libs .close).initialized = false → w.connects = true → fd ≠ w.free)

theorem Ready.closes {caller : Caller} (h : Ready L w₀ busy fd w) (hc : Closes L caller fd w w') :
    Ready L w₀ busy fd w' := by
  cases hc with
  | plain hL hr =>
    refine ⟨h.tidy.realCloses h.spare hr, h.spare.congr hr.libs_eq, fun hL' => ?_⟩
    rw [hL] at hL'
    cases hL'
  | forwarded _ hf hr =>
    have hf' := hf
    rw [← hr.libs_eq] at hf'
    exact ⟨(h.tidy.realCloses h.spare hr).recorded _, h.spare.congr hr.libs_eq,
      fun _ => .inl hf'⟩
  | @reported _ _ t₁ t₂ t₃ hL hf hi hr he =>
    obtain ⟨hb, hfd⟩ := (h.closable hL).resolve_left (by simp [hf])
    have h₁ := h.tidy.initializes hi
    have hs₁ := h.spare.initializes hi hfd
    have h₂ := h₁.realCloses hs₁ hr
    have hi₂ : (t₂.libs .close).initialized = true := by
      rw [hr.libs_eq]
      exact hi.initialized
    have h₃ := h₂.reported hb hi₂ rfl he
    have hi₃ : (t₃.libs .close).initialized = true := by rwa [he.libs_eq]
    refine ⟨h₃.recorded _, hs₁.congr (he.libs_eq.trans hr.libs_eq), fun _ => ?_⟩
    refine .inr ⟨hb, fun hn _ => ?_⟩
    exact absurd (hn.symm.trans hi₃) Bool.false_ne_true

end Voyeur
