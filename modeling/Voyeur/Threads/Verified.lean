import Voyeur.Threads.Operations

/-! # The calls keep to the protocol

Each function is verified on its own, with whatever the other threads do between its
steps. The mutex of `close` is the only one that is taken by a thread that has another
one: a destructor that closes its socket calls the interposed `close`.
-/

namespace Voyeur

namespace Threaded

open Threads (Instr)

/-- The order in which the mutexes are taken. -/
def before (k l : Lib) : Prop := k ≠ .close ∧ l = .close

theorem before_wf : WellFounded fun k l => before l k := by
  have hs : ∀ k l, before l k →
      (measure fun l : Lib => if l = .close then 0 else 1).rel k l := by
    rintro k l ⟨hl, rfl⟩
    simp [InvImage, WellFoundedRelation.rel, hl]
  exact Subrelation.wf (hs _ _) (measure _).wf

/-- What the mutexes of the libraries protect. -/
def protocol (S : Setup) (pid : CInt) : Threads.Protocol (machine S pid) where
  before := before
  wf := before_wf
  uses := Op.Uses
  resource := Resource S
  always := Always S
  grows := Grows S
  keeps := Keeps
  grows_refl := .refl
  grows_trans := .trans
  keeps_refl := .refl
  keeps_trans := .trans
  resource_of_keeps h _ hg hk := h.stable hk hg
  env_sound h ha := by
    have ho := only_server ha h
    exact ⟨ho.always ha (by simp) (by simp), ho.grows, fun l => ho.keeps ha (by simp) (by simp)⟩
  stopped_of_grows hg hs := hg.crashed hs
  again_self {o choice d r} hn hs := by
    change act S pid o choice d = some r at hs
    rw [act, if_pos (of_decide_eq_true hn)] at hs
    unfold sendAgain at hs
    split at hs
    · exact (Option.some.inj hs).symm
    · cases hs

variable {S : Setup} {pid : CInt} {d d' d'' d₀ : Shared} {own l' : Option Lib} {k l : Lib}
  {held : List Lib} {rest new : Code} {e : ClientEvent} {fin : List Message} {bufs : List Bytes}
  {choice : Choice}

theorem Only.guarantee (h : Only S own l' d d') (ha : Always S d) (ha' : Always S d')
    (hl : ∀ k, l' = some k → k ∈ held) (ho : ∀ k, own = some k → k ∈ held) :
    (protocol S pid).Guarantee held d d' :=
  ⟨ha', h.grows, fun k hk => h.keeps ha (fun hc => hk (hl k hc)) fun hc => hk (ho k hc)⟩

theorem mem_of_uses (hk : k = l) (hl : l ∈ held) : k ∈ held := hk ▸ hl

theorem mem_of_uses_own (hk : own = some k) : k ∈ own.toList := by simp [hk]

theorem act_verified {A : Shared → Prop} {o : Op} (hA : A d)
    (hst : ∀ d d', A d → (protocol S pid).Rely held d d' → A d') (hu : ∀ k, o.Uses k → k ∈ held)
    (hp : ∀ d, A d → ∃ choice r, choice ≠ .again ∧ operate S pid o choice d = some r)
    (h : ∀ d choice new d', A d → Always S d → operate S pid o choice d = some (new, d') →
      (protocol S pid).Guarantee held d d' ∧ (protocol S pid).Verified held (new ++ rest) d') :
    (protocol S pid).Verified held (.act o :: rest) d := by
  refine .act_of hA hst hu (fun d hA _ _ => ?_) fun d choice new d' hA ha _ hn hs => ?_
  · obtain ⟨choice, r, hn, hr⟩ := hp d hA
    refine ⟨choice, r, decide_eq_false hn, ?_⟩
    change act S pid o choice d = some r
    rw [act, if_neg hn, hr]
  · refine h d choice new d' hA ha ?_
    change act S pid o choice d = some (new, d') at hs
    rwa [act, if_neg (of_decide_eq_false hn)] at hs

theorem crash_verified {o : Op} (hu : ∀ k, o.Uses k → k ∈ held) (ha : Always S d) :
    (protocol S pid).Guarantee held d d.crash ∧
      (protocol S pid).Verified held ([.act o] ++ rest) d.crash := by
  have ho : Only S none none d d.crash := only_crash ha none
  exact ⟨ho.guarantee ha (ho.always ha (by simp) (by simp)) (by simp) (by simp),
    .act_stopped hu rfl⟩

variable (S) in
/-- The library writes messages; the buffers `bufs` are left. -/
structure Sending (l : Lib) (fin : List Message) (bufs : List Bytes) (d : Shared) : Prop where
  initialized : (d.statics l).initialized = true
  inUse : ∀ i, d.conn l = some i → ∃ es, InUse S d l i es [] (es.map .event ++ fin) bufs

theorem Sending.stable (h : Sending S l fin bufs d) (hk : Keeps l d d') (hg : Grows S d d') :
    Sending S l fin bufs d' := by
  refine ⟨hk.statics ▸ h.initialized, fun i hi => ?_⟩
  rw [hk.conn] at hi
  obtain ⟨es, he⟩ := h.inUse i hi
  exact ⟨es, he.stable hk hg hi⟩

theorem Sending.resource (h : Sending S l [] [] d) : Resource S l d := by
  refine ⟨fun hi => ?_, fun i hi => ?_⟩
  · rw [h.initialized] at hi
    cases hi
  · obtain ⟨es, he⟩ := h.inUse i hi
    exact ⟨es, by simpa using he⟩

theorem exists_sendPiece {b : Bytes} (hb : b ≠ []) (d : Shared) :
    ∃ choice r, choice ≠ .again ∧ sendPiece S l b bufs choice d = some r := by
  cases hi : d.conn l with
  | none =>
    refine ⟨.fails, (sending l bufs, d), by simp, ?_⟩
    simp only [sendPiece, hi]
  | some i =>
    by_cases ht : d.takes S i = true
    · have hl : d.config.linked S i = true ∧ (d.config.conns i).hungUp = false := by
        simpa [Shared.takes] using ht
      have hn : 0 < 1 ∧ 1 ≤ b.length := ⟨Nat.one_pos, List.length_pos_iff.mpr hb⟩
      refine ⟨.bytes 1, ?_⟩
      simp only [sendPiece, hi, if_pos hn, Config.step, if_pos hl, Option.map_some]
      exact ⟨_, by simp, rfl⟩
    · refine ⟨.fails, (sending l bufs, d), by simp, ?_⟩
      simp only [sendPiece, hi, if_neg ht]

theorem InUse.send {i n : ℕ} {b : Bytes} {es : List ClientEvent} {ms : List Message} {c : Config}
    (h : InUse S d l i es [] ms (b :: bufs)) (hc : d.config.step S (.send i (b.take n)) = some c) :
    InUse S { d with config := c } l i es [] ms (Tree.afterSend b n bufs) := by
  obtain ⟨⟨hl, hu⟩, hc⟩ := Option.ite_none_right_eq_some.mp hc
  cases hc
  have hsent : ((d.config.setConn i { d.config.conns i with
      queue := (d.config.conns i).queue ++ b.take n }).conns i).sent =
      (d.config.conns i).sent ++ b.take n := by
    simp [Config.setConn, Conn.sent]
  refine ⟨⟨h.tells.calls, h.tells.type⟩, ?_, .inl ?_⟩
  · simpa [Config.setConn] using h.open_
  · rcases h.wrote with hw | ⟨hd, -⟩
    · rw [hsent, List.append_assoc, Tree.flatten_afterSend]
      exact hw
    · rw [hd.2] at hl
      cases hl

theorem InUse.giveUp {i : ℕ} {b : Bytes} {es : List ClientEvent} {ms : List Message}
    (h : InUse S d l i es [] ms (b :: bufs)) (ha : (d.config.conns i).side ≠ .absent)
    (ht : d.takes S i = false) : InUse S d l i es [] ms bufs := by
  refine ⟨h.tells, h.open_, .inr ⟨⟨ha, ?_⟩, h.wrote.sent_prefix⟩⟩
  simpa [Shared.takes, h.open_] using ht

theorem afterSend_lt {b : Bytes} {n : ℕ} (hn : 0 < n) (hb : n ≤ b.length) (bufs : List Bytes) :
    (Tree.afterSend b n bufs).flatten.length + (Tree.afterSend b n bufs).length <
      (b :: bufs).flatten.length + (b :: bufs).length := by
  unfold Tree.afterSend
  split <;> simp <;> omega

theorem nil_notMem_afterSend {b : Bytes} {n : ℕ} (h : [] ∉ bufs) :
    [] ∉ Tree.afterSend b n bufs := by
  unfold Tree.afterSend
  split
  · exact h
  · next hb => simpa [h] using hb

/-- The loops of `do_write` under a mutex, for one message. -/
theorem send_verified {A : Shared → Prop} (hl : l ∈ held)
    (hst : ∀ d d', A d → (protocol S pid).Rely held d d' → A d')
    (hsend : ∀ d d', A d → Always S d → Only S none (some l) d d' → A d')
    (hf : fin = [] ∨ fin = [.done]) (hn : [] ∉ bufs) (ha : Always S d) (hA : A d)
    (hs : Sending S l fin bufs d)
    (hrest : ∀ d', Always S d' → A d' → Sending S l fin [] d' →
      (protocol S pid).Verified held rest d') :
    (protocol S pid).Verified held (sending l bufs ++ rest) d := by
  induction hm : bufs.flatten.length + bufs.length using Nat.strong_induction_on
    generalizing bufs d with
  | _ m ih =>
  cases bufs with
  | nil => exact hrest d ha hA hs
  | cons b bufs =>
    have hn' : [] ∉ bufs := fun hc => hn (List.mem_cons_of_mem b hc)
    have hc : sending l (b :: bufs) ++ rest = .act (.send l (b :: bufs)) :: rest := by
      simp [sending]
    rw [hc]
    refine act_verified (A := fun d => A d ∧ Sending S l fin (b :: bufs) d) ⟨hA, hs⟩
      (fun d d' h hr => ⟨hst d d' h.1 hr, h.2.stable (hr.2 l hl) hr.1⟩)
      (fun _ hk => mem_of_uses hk hl) ?_ ?_
    · exact fun d _ => exists_sendPiece (fun hb => hn (by simp [hb])) d
    · rintro d choice new d'' ⟨hA, hs⟩ ha h
      rcases sendPiece_cases h with ⟨n, i, c, hi, h0, hnb, hc, rfl, rfl⟩ | ⟨rfl, rfl, ht⟩
      · have ho := only_send ha hi hc
        have hs' : Sending S l fin (Tree.afterSend b n bufs) { d with config := c } := by
          refine ⟨hs.initialized, fun j hj => ?_⟩
          obtain rfl : i = j := Option.some.inj (hi.symm.trans hj)
          obtain ⟨es, he⟩ := hs.inUse i hi
          exact ⟨es, he.send hc⟩
        have ha' : Always S { d with config := c } := by
          refine ho.always ha (fun k j hk hj => ?_) fun k j _ hj hn => absurd hj hn
          cases hk
          obtain ⟨es, he⟩ := hs'.inUse j hj
          exact ⟨l, es, fin, he.spoken hf⟩
        exact ⟨ho.guarantee ha ha' (by simpa using hl) (by simp),
          ih _ (hm ▸ afterSend_lt h0 hnb bufs) (nil_notMem_afterSend hn') ha' (hsend _ _ hA ha ho)
            hs' rfl⟩
      · have hs' : Sending S l fin bufs d'' := by
          refine ⟨hs.initialized, fun i hi => ?_⟩
          obtain ⟨es, he⟩ := hs.inUse i hi
          exact ⟨es, he.giveUp (ha.made hi) (ht i hi)⟩
        refine ⟨(only_refl ha none).guarantee ha ha (by simp) (by simp),
          ih _ ?_ hn' ha hA hs' rfl⟩
        rw [← hm]
        simp
        omega

variable (S) in
/-- The socket of a library is closed, and nothing else has happened to it. -/
structure Shut (k : Lib) (d d' : Shared) : Prop where
  statics : d'.statics k = d.statics k
  grows : Grows S d d'
  same : ∀ i, d.conn k = some i → Same d d' i
  hungUp : ∀ i, d.conn k = some i → (d'.config.conns i).hungUp = true

theorem Shut.stable (h : Shut S k d₀ d) (hk : Keeps k d d') (hg : Grows S d d') :
    Shut S k d₀ d' := by
  have hc : d.conn k = d₀.conn k := by rw [Shared.conn, h.statics, Shared.conn]
  refine ⟨hk.statics.trans h.statics, h.grows.trans hg, fun i hi => ?_, fun i hi => ?_⟩
  · exact (h.same i hi).trans (hk.same i (hc ▸ hi))
  · exact (hk.hungUp i (hc ▸ hi)).trans (h.hungUp i hi)

/-- What the caller of `close` still knows of its own library, before and after the call. -/
def Kept (own : Option Lib) (d₀ d : Shared) : Prop := ∀ k, own = some k → Keeps k d₀ d

variable (S) in
def Closed (own : Option Lib) (d₀ d : Shared) : Prop := ∀ k, own = some k → Shut S k d₀ d

variable (S) in
/-- The real call is made, and its event is not yet written. -/
structure Called (l : Lib) (e : ClientEvent) (d : Shared) : Prop where
  initialized : (d.statics l).initialized = true
  inUse : ∀ i, d.conn l = some i → ∃ es, InUse S d l i es [e] (es.map .event) []

theorem Called.stable (h : Called S l e d) (hk : Keeps l d d') (hg : Grows S d d') :
    Called S l e d' := by
  refine ⟨hk.statics ▸ h.initialized, fun i hi => ?_⟩
  rw [hk.conn] at hi
  obtain ⟨es, he⟩ := h.inUse i hi
  exact ⟨es, he.stable hk hg hi⟩

section

variable (held) in
/-- The mutexes of a thread that makes a call for the caller `own`. -/
def underMutex (l : Lib) (own : Option Lib) : List Lib := l :: own.toList

theorem Kept.stable (h : Kept own d₀ d)
    (hr : (protocol S pid).Rely (underMutex l own) d d') : Kept own d₀ d' :=
  fun k hk => (h k hk).trans (hr.2 k (by simp [underMutex, hk]))

theorem Closed.stable (h : Closed S own d₀ d)
    (hr : (protocol S pid).Rely (underMutex l own) d d') : Closed S own d₀ d' :=
  fun k hk => (h k hk).stable (hr.2 k (by simp [underMutex, hk])) hr.1

theorem keeps_of_rely (hr : (protocol S pid).Rely (underMutex l own) d d') : Keeps l d d' :=
  hr.2 l List.mem_cons_self

variable (hl : ∀ k, own = some k → before k l)
  (hrest : ∀ d', Always S d' → Closed S own d₀ d' →
    (protocol S pid).Verified own.toList rest d')

include hrest in
theorem unlock_verified (hc : Closed S own d₀ d) (hr : Resource S l d) :
    (protocol S pid).Verified (underMutex l own) (.unlock l :: rest) d :=
  .unlock_of (A := fun d => Closed S own d₀ d ∧ Resource S l d) ⟨hc, hr⟩
    (fun _ _ h hr => ⟨h.1.stable hr, h.2.stable (keeps_of_rely hr) hr.1⟩)
    fun d' h ha => ⟨h.2, hrest d' ha h.1⟩

include hl in
theorem Closed.only (h : Closed S own d₀ d) (ha : Always S d) (ho : Only S none (some l) d d') :
    Closed S own d₀ d' := by
  intro k hk
  refine (h k hk).stable (ho.keeps ha ?_ (by simp)) ho.grows
  rintro ⟨⟩
  exact (hl l hk).1 (hl l hk).2

theorem sends_write_ne_nil (he : e.type = l.type) (hl : l ≠ .posixSpawn) (answer : Bool) :
    sends (e.write (S.context.clientOpts e.type) answer) ≠ [] := by
  have hw : e.write (S.context.clientOpts e.type) answer =
      e.message (S.context.clientOpts e.type) := by
    cases e with
    | exec =>
      cases l with
      | posixSpawn => exact absurd rfl hl
      | open_ | close => cases he
    | exit => cases l <;> cases he
    | open_ | close => rfl
  intro hs
  have hp := bytes_length_pos S.context (.event e)
  have hb : (Message.event e).bytes S.context.clientOpts = [] := by
    rw [Message.bytes, ← hw, ← flatten_sends, hs]
    rfl
  rw [hb] at hp
  cases hp

theorem Called.sending (h : Called S l e d) (he : e.type = l.type) (answer : Bool) :
    Sending S l [] (sends (e.write (S.context.clientOpts e.type) answer)) d := by
  refine ⟨h.initialized, fun i hi => ?_⟩
  obtain ⟨es, ⟨⟨cs, hc, hs, hcs⟩, ht⟩, hu, hw⟩ := h.inUse i hi
  by_cases hb : sends (e.write (S.context.clientOpts e.type) answer) = []
  · refine ⟨es, ⟨⟨cs ++ [e], by simpa using hc, hs.trans (List.sublist_append_left _ _),
      fun hl => absurd hb (sends_write_ne_nil he hl _)⟩, ht⟩, hu, ?_⟩
    simpa [hb] using hw
  · have hf := flatten_sends_write hb
    refine ⟨es ++ [e], ⟨⟨cs ++ [e], by simpa using hc, hs.append_right [e],
      fun hl => by rw [hcs hl]⟩, ht⟩, hu, ?_⟩
    rcases hw with hw | ⟨hd, hp⟩
    · refine .inl ?_
      rw [hf]
      simpa using hw
    · refine .inr ⟨hd, hp.trans ?_⟩
      simp

include hl hrest in
theorem report_verified (he : e.type = l.type) (hc : Closed S own d₀ d) (h : Called S l e d) :
    (protocol S pid).Verified (underMutex l own) (.act (.report l e) :: .unlock l :: rest) d := by
  refine act_verified (A := fun d => Closed S own d₀ d ∧ Called S l e d) ⟨hc, h⟩
    (fun _ _ h hr => ⟨h.1.stable hr, h.2.stable (keeps_of_rely hr) hr.1⟩)
    (fun _ hk => mem_of_uses hk List.mem_cons_self) ?_ ?_
  · rintro d -
    refine ⟨.accessible true, ?_⟩
    change ∃ r, _ ∧ reportEvent S l e (.accessible true) d = some r
    unfold reportEvent
    cases (d.statics l).sock with
    | none => exact ⟨_, by simp, rfl⟩
    | some s => exact ⟨_, by simp, rfl⟩
  · rintro d choice new d' ⟨hc, h⟩ ha hs
    change reportEvent S l e choice d = _ at hs
    have hg : (protocol S pid).Guarantee (underMutex l own) d d :=
      (only_refl ha none).guarantee ha ha (by simp) (by simp)
    unfold reportEvent at hs
    split at hs
    · next answer =>
      split at hs
      · next hn =>
        cases hs
        refine ⟨hg, unlock_verified hrest hc ⟨fun hi => ?_, fun i hi => ?_⟩⟩
        · rw [h.initialized] at hi
          cases hi
        · simp [Shared.conn, hn] at hi
      · cases hs
        refine ⟨hg, send_verified (A := Closed S own d₀) List.mem_cons_self
          (fun _ _ h hr => h.stable hr) (fun _ _ h ha ho => h.only hl ha ho) (.inl rfl)
          (nil_notMem_sends _) ha hc (h.sending he answer) fun d' ha hc hs => ?_⟩
        exact unlock_verified hrest hc hs.resource
    · cases hs

theorem Resource.called {config : Config} (h : Resource S l d)
    (hi : (d.statics l).initialized = true) (he : e.type = l.type)
    (ho : Only S own (some l) d { d with calls := d.calls ++ [⟨e, d.conn l⟩], config := config })
    (ha : Always S d) (hne : ∀ k, own = some k → k ≠ l)
    (hs : ∀ i, d.conn l = some i → (config.conns i).sent = (d.config.conns i).sent) :
    Called S l e { d with calls := d.calls ++ [⟨e, d.conn l⟩], config := config } := by
  refine ⟨hi, fun i hc => ?_⟩
  replace hc : d.conn l = some i := hc
  obtain ⟨es, ⟨⟨cs, hcs, hsub, heq⟩, ht⟩, hu, hw⟩ := h.inUse i hc
  rw [List.append_nil] at hcs
  have hcalls := callsOn_append d ⟨e, d.conn l⟩ config i
  rw [if_pos hc, hcs] at hcalls
  refine ⟨es, ⟨⟨cs, hcalls, hsub, heq⟩, ?_⟩, ?_, ?_⟩
  · rw [hcalls]
    intro e' he'
    rcases List.mem_append.mp he' with he' | he'
    · exact ht e' (hcs ▸ he')
    · rw [List.mem_singleton.mp he']
      exact he
  · refine (ho.hungUp i fun hb => ?_).trans hu
    obtain ⟨k, hk, hb⟩ := Option.bind_eq_some_iff.mp hb
    exact hne k hk (ha.single hb hc)
  · rcases hw with hw | ⟨hd, hp⟩
    · exact .inl ((congrArg (· ++ _) (hs i hc)).trans hw)
    · exact .inr ⟨ho.grows.dead i hd, (hs i hc) ▸ hp⟩

theorem hangUp_sent (ha : Always S d) (own : Option Lib) (i : ℕ) :
    ((d.hangUp S own).conns i).sent = (d.config.conns i).sent := by
  refine (hangUp_frame ha own).sent i fun bytes hb => ?_
  cases ho : own.bind d.conn <;> simp [ho] at hb

theorem Kept.closed {l' : Option Lib} {d' : Shared} (h : Kept own d₀ d) (hg : Grows S d₀ d)
    (ha : Always S d) (ho : Only S own l' d d') (hl : ∀ k, own = some k → l' ≠ some k)
    (hc : d'.config = d.hangUp S own) : Closed S own d₀ d' := by
  intro k hk
  have hkept := h k hk
  refine ⟨(ho.statics k (hl k hk)).trans hkept.statics, hg.trans ho.grows,
    fun i hi => ?_, fun i hi => ?_⟩
  · exact (hkept.same i hi).trans (ho.apart ha (hl k hk) (hkept.conn ▸ hi))
  · rw [hc]
    refine (hangUp_frame ha own).hangsUp i ?_
    rw [hk, Option.bind_some, hkept.conn, hi]
    rfl

include hl hrest in
theorem real_verified (he : e.type = l.type) (hk : Kept own d₀ d) (hg : Grows S d₀ d)
    (hi : (d.statics l).initialized = true) (hr : Resource S l d) :
    (protocol S pid).Verified (underMutex l own)
      (.act (.real l own e) :: .act (.report l e) :: .unlock l :: rest) d := by
  have hne : ∀ k, own = some k → k ≠ l := fun k hk hkl => (hl k hk).1 (hkl ▸ (hl k hk).2)
  have huses : ∀ k, (Op.real l own e).Uses k → k ∈ underMutex l own := by
    rintro k (hk | hk)
    · exact mem_of_uses hk List.mem_cons_self
    · exact List.mem_cons_of_mem l (mem_of_uses_own hk)
  refine act_verified (A := fun d => Kept own d₀ d ∧ Grows S d₀ d ∧
    (d.statics l).initialized = true ∧ Resource S l d) ⟨hk, hg, hi, hr⟩ ?_ ?_ ?_ ?_
  · rintro d d' ⟨hk, hg, hi, hr⟩ hrely
    have hkl := keeps_of_rely hrely
    exact ⟨hk.stable hrely, hg.trans hrely.1, hkl.statics ▸ hi, hr.stable hkl hrely.1⟩
  · exact huses
  · exact fun d _ => ⟨.plain, _, by simp, rfl⟩
  · rintro d choice new d' ⟨hk, hg, hi, hr⟩ ha hs
    change some (callReal S l own e d) = _ at hs
    unfold callReal at hs
    split at hs
    · cases hs
      exact crash_verified huses ha
    cases hs
    have ho := only_call ha own (e := e) fun i hi => ⟨l, rfl, hi⟩
    have hcalled := hr.called hi he ho ha hne fun i _ => hangUp_sent ha own i
    refine ⟨ho.guarantee ha (ho.always ha (fun k i hk hc => ?_) fun k i _ hc hn => absurd hc hn)
      (by simp [underMutex]) (by simp +contextual [underMutex]), report_verified hl hrest he
      (hk.closed hg ha ho (fun k hk hc => hne k hk (Option.some.inj hc).symm) rfl) hcalled⟩
    cases hk
    obtain ⟨es, hu⟩ := hcalled.inUse i hc
    exact ⟨l, es, [], InUse.spoken (by simpa using hu) (.inl rfl)⟩

/-- The state after the setup. -/
structure SetUp (S : Setup) (l : Lib) (d d' : Shared) : Prop where
  only : Only S none (some l) d d'
  always : Always S d'
  initialized : (d'.statics l).initialized = true
  resource : Resource S l d'

theorem setUp_unconnected (ha : Always S d) (hn : d.conn l = none) {sock : Option Socket}
    (hs : sock.bind Socket.conn = none) : SetUp S l d (d.setUp l sock) := by
  have ho : Only S none (some l) d (d.setUp l sock) := only_unconnected ha hs
  have hc : ∀ i, (d.setUp l sock).conn l ≠ some i := by simp [hs]
  refine ⟨ho, ho.always ha (fun k i hk hi => ?_) (fun k i hk hi _ => ?_), by simp, by simp,
    fun i hi => absurd hi (hc i)⟩
  · cases hk
    exact absurd hi (hc i)
  · cases hk
    rw [hn] at hi
    cases hi

theorem setUp_connect (ha : Always S d) (hn : d.conn l = none) {i : ℕ} {fd : CInt} {c : Config}
    (hs : d.config.step S (.connect i) = some c) :
    SetUp S l d { d.setUp l (some ⟨fd, some i⟩) with config := c } := by
  have ho := only_connect (l := l) ha fd hs
  have hf := ConfigFrame.of_step hs ha.wellFormed
  obtain ⟨hu, hcalls⟩ := ha.untouched i (hf.fresh i rfl)
  generalize hd : { d.setUp l (some ⟨fd, some i⟩) with config := c } = d' at ho ⊢
  have hl : d'.statics l = ⟨true, some ⟨fd, some i⟩⟩ := by
    simp [← hd, Shared.setUp, Shared.setStatics]
  have hconfig : d'.config = c := by rw [← hd]
  have hcalls' : d'.callsOn i = [] := hcalls ▸ hd ▸ rfl
  have huse : InUse S d' l i [] [] [] [] := by
    refine ⟨⟨⟨[], hcalls', .refl [], fun _ => rfl⟩, by simp [hcalls']⟩, ?_, .inl ?_⟩
    · rw [hconfig, hf.hungUp i (by simp), hu]
    · rw [hconfig, hf.sent i (by simp), hu]
      rfl
  have hconn : ∀ j, d'.conn l = some j → i = j := by
    intro j hj
    simpa [Shared.conn, hl] using hj
  refine ⟨ho, ho.always ha (fun k j hk hj => ?_) (fun k j hk hj _ => ?_), by rw [hl],
    by simp [hl], fun j hj => ?_⟩
  · cases hk
    obtain rfl := hconn j hj
    exact ⟨l, [], [], InUse.spoken huse (.inl rfl)⟩
  · cases hk
    rw [hn] at hj
    cases hj
  · obtain rfl := hconn j hj
    exact ⟨[], huse⟩

theorem setUp_cases (ha : Always S d) (hr : Resource S l d)
    (h : setUp S l choice d = some (new, d')) :
    (new = [] ∧ SetUp S l d d') ∨ (new = [.act (.initialize_ l)] ∧ d' = d.crash) := by
  have hn : (d.statics l).initialized = false → d.conn l = none := fun hi => by
    simp [Shared.conn, hr.unused hi]
  cases (does_of_setUp h : Does S 0 d (.initialize_ l) new d') with
  | ready hi => exact .inl ⟨rfl, only_refl ha _, ha, hi, hr⟩
  | connect hi hc => exact .inl ⟨rfl, setUp_connect ha (hn hi) hc⟩
  | unconnected hi hs => exact .inl ⟨rfl, setUp_unconnected ha (hn hi) hs⟩
  | noSocketVar => exact .inr ⟨rfl, rfl⟩

include hl hrest in
theorem initialize_verified (he : e.type = l.type) (hk : Kept own d₀ d) (hg : Grows S d₀ d)
    (hr : Resource S l d) :
    (protocol S pid).Verified (underMutex l own)
      (.act (.initialize_ l) :: .act (.real l own e) :: .act (.report l e) :: .unlock l :: rest)
      d := by
  refine act_verified (A := fun d => Kept own d₀ d ∧ Grows S d₀ d ∧ Resource S l d) ⟨hk, hg, hr⟩ ?_
    (fun _ hk => mem_of_uses hk List.mem_cons_self) ?_ ?_
  · rintro d d' ⟨hk, hg, hr⟩ hrely
    exact ⟨hk.stable hrely, hg.trans hrely.1, hr.stable (keeps_of_rely hrely) hrely.1⟩
  · rintro d -
    refine ⟨.noSocket, ?_⟩
    change ∃ r, _ ∧ setUp S l .noSocket d = some r
    unfold setUp
    split
    · exact ⟨_, by simp, rfl⟩
    · split <;> exact ⟨_, by simp, rfl⟩
  · rintro d choice new d' ⟨hk, hg, hr⟩ ha hs
    rcases setUp_cases ha hr hs with ⟨rfl, ⟨ho, ha', hi, hr'⟩⟩ | ⟨rfl, rfl⟩
    on_goal 2 => exact crash_verified (fun _ hk => mem_of_uses hk List.mem_cons_self) ha
    refine ⟨ho.guarantee ha ha' (by simp [underMutex]) (by simp),
      real_verified hl hrest he (fun k hk' => ?_) (hg.trans ho.grows) hi hr'⟩
    have hkl : k ≠ l := fun hkl => (hl k hk').1 (hkl ▸ (hl k hk').2)
    exact (hk k hk').trans (ho.keeps ha (fun hc => hkl (Option.some.inj hc).symm) (by simp))

end

theorem section_verified (hl : ∀ k, own = some k → before k l) (he : e.type = l.type)
    (hrest : ∀ d', Always S d' → Closed S own d d' →
      (protocol S pid).Verified own.toList rest d') :
    (protocol S pid).Verified own.toList (section_ l own e ++ rest) d := by
  refine .lock_of (A := fun d' => Kept own d d' ∧ Grows S d d')
    ⟨fun k _ => .refl k d, .refl d⟩ ?_ (fun k hk => hl k (by simpa using hk)) ?_
  · rintro d' d'' ⟨hk, hg⟩ hr
    exact ⟨fun k hk' => (hk k hk').trans (hr.2 k (by simp [hk'])), hg.trans hr.1⟩
  · rintro d' ⟨hk, hg⟩ ha hr
    exact initialize_verified hl hrest he hk hg hr

theorem check_verified (hl : ∀ k, own = some k → k = .close → d.finalized = true)
    (he : e.type = Lib.close.type)
    (hrest : ∀ d', Always S d' → Closed S own d d' →
      (protocol S pid).Verified own.toList rest d') :
    (protocol S pid).Verified own.toList (.act (.check own e) :: rest) d := by
  have hst : ∀ d' d'', Kept own d d' ∧ Grows S d d' → (protocol S pid).Rely own.toList d' d'' →
      Kept own d d'' ∧ Grows S d d'' := by
    rintro d' d'' ⟨hk, hg⟩ hr
    exact ⟨fun k hk' => (hk k hk').trans (hr.2 k (by simp [hk'])), hg.trans hr.1⟩
  refine act_verified (A := fun d' => Kept own d d' ∧ Grows S d d')
    ⟨fun k _ => .refl k d, .refl d⟩ hst
    (fun _ hk => mem_of_uses_own hk) (fun _ _ => ⟨.plain, _, by simp, rfl⟩) ?_
  rintro d' choice new d'' ⟨hk, hg⟩ ha hs
  cases hs
  refine ⟨(only_refl ha none).guarantee ha ha (by simp) (by simp), ?_⟩
  split
  · refine act_verified (A := fun d' => Kept own d d' ∧ Grows S d d') ⟨hk, hg⟩ hst
      (fun _ hk => mem_of_uses_own hk) (fun _ _ => ⟨.plain, _, by simp, rfl⟩) ?_
    rintro d' choice new d'' ⟨hk, hg⟩ ha hs
    change some (forwardClose S own e d') = _ at hs
    unfold forwardClose at hs
    split at hs
    on_goal 2 =>
      cases hs
      exact crash_verified (fun _ hk => mem_of_uses_own hk) ha
    cases hs
    have ho : Only S own none d'
        { d' with calls := d'.calls ++ [⟨e, none⟩], config := d'.hangUp S own } :=
      only_call ha own (by simp)
    have ha' := ho.always ha (by simp) (by simp)
    exact ⟨ho.guarantee ha ha' (by simp) (by simp +contextual),
      hrest _ ha' (hk.closed hg ha ho (by simp) rfl)⟩
  · next hf =>
    refine section_verified (fun k hk' => ⟨fun hkc => hf ?_, rfl⟩) he fun d'' ha hc =>
      hrest d'' ha fun k hk' => ?_
    · exact hg.finalized (hl k hk' hkc)
    · have hs := hc k hk'
      have hkd := hk k hk'
      exact ⟨hs.statics.trans hkd.statics, hg.trans hs.grows,
        fun i hi => (hkd.same i hi).trans (hs.same i (hkd.conn ▸ hi)),
        fun i hi => hs.hungUp i (hkd.conn ▸ hi)⟩

variable (S) in
/-- The library has told everything to its connection and closed it. -/
def Over (l : Lib) (d : Shared) : Prop :=
  ∀ i, d.conn l = some i → ∃ es, Finished S d l i es

theorem Over.stable (h : Over S l d) (hk : Keeps l d d') (hg : Grows S d d') : Over S l d' := by
  intro i hi
  rw [hk.conn] at hi
  obtain ⟨es, he⟩ := h i hi
  exact ⟨es, he.tells.stable (hk.same i hi), (hk.hungUp i hi).trans he.hungUp,
    he.wrote.stable (hk.same i hi) hg⟩

theorem Sending.over (h : Sending S l [.done] [] d) (hs : Shut S l d d') : Over S l d' := by
  intro i hi
  rw [Shared.conn, hs.statics, ← Shared.conn] at hi
  obtain ⟨es, he⟩ := h.inUse i hi
  exact ⟨es, he.tells.stable (hs.same i hi), hs.hungUp i hi,
    he.wrote.stable (hs.same i hi) hs.grows⟩

theorem Resource.sending (h : Resource S l d) (hi : (d.statics l).initialized = true) :
    Sending S l [.done] (sends [writeMsgType .done]) d := by
  refine ⟨hi, fun i hc => ?_⟩
  obtain ⟨es, ht, hu, hw⟩ := h.inUse i hc
  refine ⟨es, ht, hu, ?_⟩
  rcases hw with hw | ⟨hd, hp⟩
  · rw [List.flatten_nil, List.append_nil] at hw
    refine .inl ?_
    rw [flatten_sends, hw, stream_append]
    rfl
  · refine .inr ⟨hd, hp.trans ?_⟩
    simp

theorem unloaded_verified (hr : Resource S l d) :
    (protocol S pid).Verified [l] [.unlock l] d :=
  .unlock_of (A := Resource S l) hr (fun _ _ h hr => h.stable (hr.2 l List.mem_cons_self) hr.1)
    fun _ h _ => ⟨h, .done⟩

theorem forget_verified (hn : (d.statics l).sock = none) :
    (protocol S pid).Verified [l] [.act (.forget l), .unlock l] d := by
  refine act_verified (A := fun d => (d.statics l).sock = none) hn
    (fun _ _ h hr => (congrArg Statics.sock (hr.2 l List.mem_cons_self).statics).trans h)
    (fun _ hk => mem_of_uses hk List.mem_cons_self) (fun _ _ => ⟨.plain, _, by simp, rfl⟩) ?_
  rintro d choice new d' hn ha hs
  cases hs
  have ho : Only S none (some l) d (d.setStatics l ⟨false, (d.statics l).sock⟩) :=
    only_setStatics ha fun i hi => by simp [hn] at hi
  have hr : Resource S l (d.setStatics l ⟨false, (d.statics l).sock⟩) :=
    ⟨fun _ => by simp [hn], fun i hi => by simp [hn] at hi⟩
  refine ⟨ho.guarantee ha (ho.always ha (fun k i hk hi => ?_) fun k i hk hi _ => ?_) (by simp)
    (by simp), unloaded_verified hr⟩
  · cases hk
    simp [hn] at hi
  · cases hk
    simp [Shared.conn, hn] at hi

theorem dropSocket_verified (h : Over S l d) :
    (protocol S pid).Verified [l] [.act (.dropSocket l), .act (.forget l), .unlock l] d := by
  refine act_verified (A := Over S l) h (fun _ _ h hr => h.stable (hr.2 l List.mem_cons_self) hr.1)
    (fun _ hk => mem_of_uses hk List.mem_cons_self) (fun _ _ => ⟨.plain, _, by simp, rfl⟩) ?_
  rintro d choice new d' h ha hs
  cases hs
  have ho : Only S none (some l) d (d.setStatics l ⟨(d.statics l).initialized, none⟩) :=
    only_setStatics ha fun i hi => by cases hi
  refine ⟨ho.guarantee ha (ho.always ha (fun k i hk hi => ?_) fun k i hk hi _ => ?_) (by simp)
    (by simp), forget_verified (by simp)⟩
  · cases hk
    simp at hi
  · cases hk
    obtain ⟨es, he⟩ := h i hi
    -- The connection itself is left as it is.
    exact ⟨l, es, ⟨he.tells.calls, he.tells.type⟩, he.hungUp, he.wrote⟩

theorem unload_verified (hr : Resource S l d) (hf : l = .close → d.finalized = true) :
    (protocol S pid).Verified [l] [.act (.unload l), .unlock l] d := by
  refine act_verified (A := fun d => Resource S l d ∧ (l = .close → d.finalized = true)) ⟨hr, hf⟩
    (fun _ _ h hr => ⟨h.1.stable (hr.2 l List.mem_cons_self) hr.1,
      fun hl => hr.1.finalized (h.2 hl)⟩) (fun _ hk => mem_of_uses hk List.mem_cons_self) ?_ ?_
  · rintro d -
    refine ⟨.retval 0, ?_⟩
    change ∃ r, _ ∧ unloadLib pid l (.retval 0) d = some r
    by_cases hi : (d.statics l).initialized = true
    · cases hs : (d.statics l).sock with
      | none => exact ⟨_, by simp, by simp only [unloadLib, if_pos hi, hs]; rfl⟩
      | some s => exact ⟨_, by simp, by simp only [unloadLib, if_pos hi, hs]; rfl⟩
    · exact ⟨_, by simp, by simp only [unloadLib, if_neg hi]; rfl⟩
  · rintro d choice new d' ⟨hr, hf⟩ ha hs
    change unloadLib pid l choice d = _ at hs
    have hg : (protocol S pid).Guarantee [l] d d :=
      (only_refl ha none).guarantee ha ha (by simp) (by simp)
    unfold unloadLib at hs
    cases choice with
    | plain | connect | unconnected | noSocket | accessible | bytes | fails | again => cases hs
    | retval value =>
    simp only at hs
    split at hs
    · next hi =>
      split at hs
      · next hn =>
        cases hs
        exact ⟨hg, forget_verified hn⟩
      · next s hsock =>
        cases hs
        refine ⟨hg, ?_⟩
        rw [List.append_assoc]
        refine send_verified (A := fun d => l = .close → d.finalized = true) List.mem_cons_self
          (fun _ _ h hr hl => hr.1.finalized (h hl))
          (fun _ _ h _ ho hl => ho.grows.finalized (h hl)) (.inr rfl) (nil_notMem_sends _) ha hf
          (hr.sending hi) fun d' ha hf hs => ?_
        change (protocol S pid).Verified (some l).toList _ d'
        refine check_verified ?_ rfl fun d'' _ hc => ?_
        · rintro k ⟨⟩ hl
          exact hf hl
        · exact dropSocket_verified (hs.over (hc l rfl))
    · cases hs
      exact ⟨hg, unloaded_verified hr⟩

theorem cleanup_verified (l : Lib) :
    (protocol S pid).Verified [] [.lock l, .act (.cleanup l), .unlock l] d := by
  refine .lock_of (A := fun _ => True) trivial (fun _ _ _ _ => trivial) (fun k hk => by cases hk) ?_
  rintro d - - hr
  refine act_verified (A := Resource S l) hr
    (fun _ _ h hr => h.stable (hr.2 l List.mem_cons_self) hr.1)
    (fun _ hk => mem_of_uses hk List.mem_cons_self) (fun _ _ => ⟨.plain, _, by simp, rfl⟩) ?_
  rintro d choice new d' hr ha hs
  cases hs
  have ho := only_cleanup ha l
  have hk := ho.keeps ha (k := l) (by simp) (by simp)
  exact ⟨ho.guarantee ha (ho.always ha (by simp) (by simp)) (by simp) (by simp),
    unload_verified (hr.stable hk ho.grows) fun hl => by simp [hl]⟩

/-- Every call of the program keeps to the protocol. -/
theorem call_verified (call : ThreadCall) (d : Shared) :
    (protocol S pid).Verified [] call.code d := by
  have hn : ∀ l k, none = some k → before k l := fun _ _ hk => by cases hk
  cases call with
  | call l e =>
    obtain ⟨e, he⟩ := e
    have hs : (protocol S pid).Verified (none : Option Lib).toList (section_ l none e ++ []) d :=
      section_verified (hn l) he fun _ _ _ => .done
    cases l with
    | close =>
      change (protocol S pid).Verified (none : Option Lib).toList _ d
      exact check_verified (fun k hk => by cases hk) he fun _ _ _ => .done
    | open_ | posixSpawn => exact hs
  | destructor l => exact cleanup_verified l

end Threaded

end Voyeur
