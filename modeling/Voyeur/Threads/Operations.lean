import Voyeur.Fork.Streams
import Voyeur.Threads.Connections

/-! # What the operations of a thread change

The outcomes of an operation, one by one. Every operation changes the static variables and
the connection of one library only, and leaves the other connections as they are.
-/

namespace Voyeur

namespace Threaded

variable {S : Setup} {d d' : Shared} {own l' : Option Lib} {l : Lib} {c c' : Config}

open Threads (Instr)

/-- What an operation that is not made again leaves to do, and what it makes of the data. -/
inductive Does (S : Setup) (pid : CInt) (d : Shared) : Op → Code → Shared → Prop
  | ready {l : Lib} : (d.statics l).initialized = true → Does S pid d (.initialize_ l) [] d
  | connect {l : Lib} {i : ℕ} {fd : CInt} {c : Config} : (d.statics l).initialized = false →
      d.config.step S (.connect i) = some c →
      Does S pid d (.initialize_ l) [] { d.setUp l (some ⟨fd, some i⟩) with config := c }
  | unconnected {l : Lib} {sock : Option Socket} : (d.statics l).initialized = false →
      sock.bind Socket.conn = none → Does S pid d (.initialize_ l) [] (d.setUp l sock)
  | noSocketVar {l : Lib} : d.vars.socket = false →
      Does S pid d (.initialize_ l) [.act (.initialize_ l)] d.crash
  | real {l : Lib} {own : Option Lib} {e : ClientEvent} :
      Does S pid d (.real l own e) []
        { d with calls := d.calls ++ [⟨e, d.conn l⟩], config := d.hangUp S own }
  | noPassedOn {l : Lib} {own : Option Lib} {e : ClientEvent} : d.vars.passedOn = false →
      Does S pid d (.real l own e) [.act (.real l own e)] d.crash
  | silent {l : Lib} {e : ClientEvent} : Does S pid d (.report l e) [] d
  | report {l : Lib} {e : ClientEvent} (answer : Bool) :
      Does S pid d (.report l e)
        (sending l (sends (e.write (S.context.clientOpts e.type) answer))) d
  | sent {l : Lib} : Does S pid d (.send l []) [] d
  | piece {l : Lib} {b : Bytes} {bufs : List Bytes} {n i : ℕ} {c : Config} : 0 < n →
      n ≤ b.length → d.config.step S (.send i (b.take n)) = some c →
      Does S pid d (.send l (b :: bufs)) (sending l (Tree.afterSend b n bufs))
        { d with config := c }
  | giveUp {l : Lib} {b : Bytes} {bufs : List Bytes} :
      Does S pid d (.send l (b :: bufs)) (sending l bufs) d
  | passOn {own : Option Lib} {e : ClientEvent} : d.finalized = true →
      Does S pid d (.check own e) [.act (.forward own e)] d
  | enter {own : Option Lib} {e : ClientEvent} : d.finalized = false →
      Does S pid d (.check own e) (section_ .close own e) d
  | forward {own : Option Lib} {e : ClientEvent} : d.closeNext = true →
      Does S pid d (.forward own e) []
        { d with calls := d.calls ++ [⟨e, none⟩], config := d.hangUp S own }
  | noPointer {own : Option Lib} {e : ClientEvent} : d.closeNext = false →
      Does S pid d (.forward own e) [.act (.forward own e)] d.crash
  | cleanup {l : Lib} : Does S pid d (.cleanup l) [.act (.unload l)]
      { d with finalized := d.finalized || l = .close }
  | unused {l : Lib} : Does S pid d (.unload l) [] d
  | noSocket {l : Lib} : Does S pid d (.unload l) [.act (.forget l)] d
  | unload {l : Lib} (fildes value : CInt) :
      Does S pid d (.unload l) (sending l (sends [writeMsgType .done]) ++
        [.act (.check (some l) (.close fildes value pid)), .act (.dropSocket l),
          .act (.forget l)]) d
  | dropSocket {l : Lib} :
      Does S pid d (.dropSocket l) [] (d.setStatics l { d.statics l with sock := none })
  | forget {l : Lib} :
      Does S pid d (.forget l) [] (d.setStatics l { d.statics l with initialized := false })

theorem sendPiece_cases {b : Bytes} {bufs : List Bytes} {choice : Choice} {new : Code}
    (h : sendPiece S l b bufs choice d = some (new, d')) :
    (∃ n i c, d.conn l = some i ∧ 0 < n ∧ n ≤ b.length ∧
      d.config.step S (.send i (b.take n)) = some c ∧
      new = sending l (Tree.afterSend b n bufs) ∧ d' = { d with config := c }) ∨
    new = sending l bufs ∧ d' = d ∧ ∀ i, d.conn l = some i → d.takes S i = false := by
  unfold sendPiece at h
  split at h
  · next n =>
    split at h
    · next i hi =>
      obtain ⟨hn, h⟩ := Option.ite_none_right_eq_some.mp h
      obtain ⟨c, hc, h⟩ := Option.map_eq_some_iff.mp h
      cases h
      exact .inl ⟨n, i, c, hi, hn.1, hn.2, hc, rfl, rfl⟩
    · cases h
  · split at h
    · next i hi =>
      obtain ⟨ht, h⟩ := Option.ite_none_left_eq_some.mp h
      cases h
      refine .inr ⟨rfl, rfl, fun j hj => ?_⟩
      obtain rfl : i = j := Option.some.inj (hi.symm.trans hj)
      simpa using ht
    · next hi =>
      cases h
      refine .inr ⟨rfl, rfl, fun j hj => ?_⟩
      rw [hi] at hj
      cases hj
  · cases h

theorem does_of_setUp {pid : CInt} {choice : Choice} {new : Code}
    (h : setUp S l choice d = some (new, d')) : Does S pid d (.initialize_ l) new d' := by
  unfold setUp at h
  split at h
  · next hi =>
    cases h
    exact .ready hi
  · next hi =>
    have hi := Bool.eq_false_iff.mpr hi
    split at h
    · cases choice with
      | connect i fd =>
        obtain ⟨c, hc, h⟩ := Option.map_eq_some_iff.mp h
        cases h
        exact .connect hi hc
      | unconnected | noSocket =>
        cases h
        exact .unconnected hi rfl
      | plain | accessible | bytes | fails | again | retval => cases h
    · next hv =>
      cases h
      exact .noSocketVar (Bool.eq_false_iff.mpr hv)

theorem does_of_operate {pid : CInt} {o : Op} {choice : Choice} {new : Code}
    (h : operate S pid o choice d = some (new, d')) : Does S pid d o new d' := by
  cases o with
  | initialize_ l => exact does_of_setUp h
  | dropSocket | forget | cleanup =>
    cases h
    constructor
  | real l own e =>
    change some (callReal S l own e d) = _ at h
    unfold callReal at h
    split at h
    · next hv =>
      cases h
      exact .noPassedOn (by simpa using (Bool.and_eq_true_iff.mp hv).2)
    · cases h
      exact .real
  | report l e =>
    change reportEvent S l e choice d = _ at h
    cases choice with
    | accessible answer =>
      unfold reportEvent at h
      simp only at h
      split at h
      · cases h
        exact .silent
      · cases h
        exact .report answer
    | plain | connect | unconnected | noSocket | bytes | fails | again | retval => cases h
  | send l bufs =>
    cases bufs with
    | nil =>
      cases h
      exact .sent
    | cons b bufs =>
      rcases sendPiece_cases h with ⟨n, i, c, -, h0, hn, hc, rfl, rfl⟩ | ⟨rfl, rfl, -⟩
      · exact .piece h0 hn hc
      · exact .giveUp
  | check own e =>
    cases h
    split
    · next hf => exact .passOn hf
    · next hf => exact .enter (Bool.eq_false_iff.mpr hf)
  | forward own e =>
    change some (forwardClose S own e d) = _ at h
    unfold forwardClose at h
    split at h
    · next hn =>
      cases h
      exact .forward hn
    · next hn =>
      cases h
      exact .noPointer (Bool.eq_false_iff.mpr hn)
  | unload l =>
    change unloadLib pid l choice d = _ at h
    unfold unloadLib at h
    cases choice with
    | retval value =>
      simp only at h
      split at h
      · split at h
        · cases h
          exact .noSocket
        · next s _ =>
          cases h
          exact .unload s.fd value
      · cases h
        exact .unused
    | plain | connect | unconnected | noSocket | accessible | bytes | fails | again => cases h

/-- An operation is made again, or it has one of its outcomes. -/
theorem act_cases {pid : CInt} {o : Op} {choice : Choice} {new : Code}
    (h : act S pid o choice d = some (new, d')) :
    (choice = .again ∧ (∃ l bufs, o = .send l bufs) ∧ new = [.act o] ∧ d' = d) ∨
      (choice ≠ .again ∧ Does S pid d o new d') := by
  unfold act at h
  split at h
  · next hc =>
    unfold sendAgain at h
    split at h
    · next l b bufs =>
      cases h
      exact .inl ⟨hc, ⟨l, _, rfl⟩, rfl, rfl⟩
    · cases h
  · next hc => exact .inr ⟨hc, does_of_operate h⟩

variable (S) in
/-- What a step of the server changes for the connections, if there is one. -/
structure ConfigFrame (a : Option Action) (c c' : Config) : Prop where
  wellFormed : c'.WellFormed
  linked : ∀ i, c'.linked S i = true → c.linked S i = true ∨ a = some (.connect i)
  absent : ∀ i, (c'.conns i).side = .absent → c'.conns i = c.conns i ∧ a ≠ some (.connect i)
  present : ∀ i, (c.conns i).side = .absent → a ≠ some (.connect i) →
    (c'.conns i).side = .absent
  fresh : ∀ i, a = some (.connect i) → (c.conns i).side = .absent
  sent : ∀ i, (∀ bytes, a ≠ some (.send i bytes)) → (c'.conns i).sent = (c.conns i).sent
  hungUp : ∀ i, a ≠ some (.hangUp i) → (c'.conns i).hungUp = (c.conns i).hungUp
  hangsUp : ∀ i, a = some (.hangUp i) → (c'.conns i).hungUp = true

theorem ConfigFrame.refl (hw : c.WellFormed) : ConfigFrame S none c c :=
  ⟨hw, fun _ => .inl, fun _ _ => ⟨rfl, by simp⟩, fun _ h _ => h, by simp, fun _ _ => rfl,
    fun _ _ => rfl, by simp⟩

theorem ConfigFrame.of_step {a : Action} (hs : c.step S a = some c') (hw : c.WellFormed) :
    ConfigFrame S (some a) c c' := by
  have h := step_sound hs
  refine ⟨h.wellFormed hw, fun i hl => (h.linked hw hl).imp_right (congrArg some), ?_, ?_, ?_, ?_,
    fun i ha => h.hungUp_eq fun he => ha (he ▸ rfl), ?_⟩
  · refine fun i hc => ⟨h.absent hw hc, ?_⟩
    rintro ⟨⟩
    cases h with
    | connect => simp [Config.setConn] at hc
  · intro i hc ha
    rcases h.side hw i with hs | ⟨rfl, -⟩ | ⟨fd, -, hq, -⟩ | ⟨fd, why, hq, -⟩
    · exact hs.trans hc
    · exact absurd rfl ha
    · rw [hc] at hq
      cases hq
    · rw [hc] at hq
      cases hq
  · rintro i ⟨⟩
    cases h with
    | connect hc => exact hc
  · intro i ha
    rcases h.sent_eq i with he | ⟨bytes, rfl, -⟩
    · exact he
    · exact absurd rfl (ha bytes)
  · rintro i ⟨⟩
    cases h with
    | hangUp => simp [Config.setConn]

theorem ConfigFrame.grows {a : Option Action} (h : ConfigFrame S a d.config d'.config)
    (hf : d.finalized = true → d'.finalized = true)
    (hx : d.crashed = true → d'.crashed = true) : Grows S d d' := by
  refine ⟨hf, hx, fun i ⟨hc, hl⟩ => ⟨fun hc' => ?_, ?_⟩⟩
  · obtain ⟨he, -⟩ := h.absent i hc'
    rw [he] at hc'
    exact hc hc'
  · by_contra hl'
    rcases h.linked i (by simpa using hl') with hl' | ha
    · rw [hl] at hl'
      cases hl'
    · exact hc (h.fresh i ha)

theorem ConfigFrame.only {a : Option Action} (h : ConfigFrame S a d.config d'.config)
    (ha : Always S d) (hf : d.finalized = true → d'.finalized = true)
    (hx : d.crashed = true → d'.crashed = true)
    (hst : ∀ k, l' ≠ some k → d'.statics k = d.statics k)
    (hcalls : ∀ i, (∀ k, l' = some k → d.conn k ≠ some i) → d'.callsOn i = d.callsOn i)
    (hsend : ∀ i bytes, a = some (.send i bytes) → ∃ k, l' = some k ∧ d.conn k = some i)
    (hnew : ∀ k i, l' = some k → d'.conn k = some i →
      d.conn k = some i ∨ a = some (.connect i))
    (hconnect : ∀ i, a = some (.connect i) → ∃ k, l' = some k ∧ d'.conn k = some i)
    (hhang : ∀ i, a = some (.hangUp i) → own.bind d.conn = some i) : Only S own l' d d' := by
  refine ⟨h.wellFormed, h.grows hf hx, hst, fun k i hk hi => (hnew k i hk hi).imp_right (h.fresh i),
    fun i => ⟨fun hc => ?_, fun hc => ?_⟩, fun i hc => (h.absent i hc).1, fun i hi => ⟨?_, ?_⟩,
    fun i ho => h.hungUp i fun hi => ho (hhang i hi), fun i hu => ?_⟩
  · obtain ⟨he, hn⟩ := h.absent i hc
    rw [he] at hc
    refine ⟨hc, fun k hk hi => ?_⟩
    rcases hnew k i hk hi with hi | hi
    · exact ha.made hi hc
    · exact hn hi
  · refine h.present i hc.1 fun hi => ?_
    obtain ⟨k, hk, hi⟩ := hconnect i hi
    exact hc.2 k hk hi
  · refine h.sent i fun bytes hb => ?_
    obtain ⟨k, hk, hc⟩ := hsend i bytes hb
    exact (hi k hk).1 hc
  · exact hcalls i fun k hk => (hi k hk).1
  · by_cases hi : a = some (.hangUp i)
    · exact h.hangsUp i hi
    · rw [h.hungUp i hi]
      exact hu

@[simp] theorem setStatics_self (d : Shared) (l : Lib) (s : Statics) :
    (d.setStatics l s).statics l = s := by simp [Shared.setStatics]

theorem setStatics_of_ne {k : Lib} (s : Statics) (h : k ≠ l) :
    (d.setStatics l s).statics k = d.statics k := by simp [Shared.setStatics, h]

@[simp] theorem setStatics_conn (d : Shared) (l : Lib) (s : Statics) :
    (d.setStatics l s).conn l = s.sock.bind Socket.conn := by simp [Shared.conn]

theorem callsOn_append (d : Shared) (c : Made) (config : Config) (i : ℕ) :
    { d with calls := d.calls ++ [c], config := config : Shared }.callsOn i =
      d.callsOn i ++ if c.conn = some i then [c.event] else [] := by
  by_cases h : c.conn = some i <;> simp [Shared.callsOn, List.filterMap_append, h]

theorem only_setStatics (ha : Always S d) {s : Statics}
    (hs : ∀ i, s.sock.bind Socket.conn = some i → d.conn l = some i) :
    Only S none (some l) d (d.setStatics l s) := by
  have h : ConfigFrame S none d.config (d.setStatics l s).config := .refl ha.wellFormed
  refine h.only ha id id (fun k hk => ?_) (fun _ _ => rfl) (by simp) (fun k i hk hi => .inl ?_)
    (by simp) (by simp)
  · exact setStatics_of_ne s fun hkl => hk (hkl ▸ rfl)
  · cases hk
    exact hs i (by simpa using hi)

@[simp] theorem setUp_self (d : Shared) (l : Lib) (sock : Option Socket) :
    (d.setUp l sock).statics l = ⟨true, sock⟩ := setStatics_self d l _

@[simp] theorem setUp_conn (d : Shared) (l : Lib) (sock : Option Socket) :
    (d.setUp l sock).conn l = sock.bind Socket.conn := by simp [Shared.conn]

theorem only_unconnected (ha : Always S d) {sock : Option Socket}
    (hs : sock.bind Socket.conn = none) : Only S none (some l) d (d.setUp l sock) := by
  have h : ConfigFrame S none d.config (d.setUp l sock).config := .refl ha.wellFormed
  refine h.only ha id id (fun k hk => ?_) (fun _ _ => rfl) (by simp) (fun k i hk hi => .inl ?_)
    (by simp) (by simp)
  · exact setStatics_of_ne _ fun hkl => hk (hkl ▸ rfl)
  · cases hk
    rw [setUp_conn, hs] at hi
    cases hi

theorem only_connect (ha : Always S d) {i : ℕ} (fd : CInt)
    (hs : d.config.step S (.connect i) = some c) :
    Only S none (some l) d { d.setUp l (some ⟨fd, some i⟩) with config := c } := by
  refine (ConfigFrame.of_step hs ha.wellFormed).only ha id id (fun k hk => ?_) (fun _ _ => rfl)
    (by simp) (fun k j hk hj => .inr ?_) (fun j hj => ⟨l, rfl, ?_⟩) (by simp)
  · exact setStatics_of_ne _ fun hkl => hk (hkl ▸ rfl)
  · cases hk
    simpa [Shared.conn, Shared.setUp, Shared.setStatics] using hj
  · simpa [Shared.conn, Shared.setUp, Shared.setStatics] using hj

theorem only_send (ha : Always S d) {i : ℕ} {bytes : Bytes} (hi : d.conn l = some i)
    (hs : d.config.step S (.send i bytes) = some c) :
    Only S none (some l) d { d with config := c } := by
  refine (ConfigFrame.of_step hs ha.wellFormed).only ha id id (fun _ _ => rfl) (fun _ _ => rfl)
    (fun j b hj => ⟨l, rfl, ?_⟩) (fun _ _ _ hk => .inl hk) (by simp) (by simp)
  simp only [Option.some.injEq, Action.send.injEq] at hj
  exact hj.1 ▸ hi

theorem only_refl (ha : Always S d) (l' : Option Lib) : Only S none l' d d :=
  (ConfigFrame.refl ha.wellFormed).only ha id id (fun _ _ => rfl) (fun _ _ => rfl) (by simp)
    (fun _ _ _ hk => .inl hk) (by simp) (by simp)

theorem hangUp_frame (ha : Always S d) (own : Option Lib) :
    ConfigFrame S ((own.bind d.conn).map .hangUp) d.config (d.hangUp S own) := by
  cases own with
  | none => exact .refl ha.wellFormed
  | some k =>
    cases hk : d.conn k with
    | none =>
      simp only [Option.bind_some, hk, Option.map_none, Shared.hangUp]
      exact .refl ha.wellFormed
    | some i =>
      simp only [Option.bind_some, hk, Option.map_some, Shared.hangUp]
      have hs : d.config.step S (.hangUp i) =
          some (d.config.setConn i { d.config.conns i with hungUp := true }) :=
        if_pos (ha.made hk)
      rw [hs]
      exact .of_step hs ha.wellFormed

theorem only_call (ha : Always S d) (own : Option Lib) {e : ClientEvent} {conn : Option ℕ}
    (hc : ∀ i, conn = some i → ∃ k, l' = some k ∧ d.conn k = some i) :
    Only S own l' d { d with calls := d.calls ++ [⟨e, conn⟩], config := d.hangUp S own } := by
  refine (hangUp_frame ha own).only ha id id (fun _ _ => rfl) (fun i hi => ?_) ?_
    (fun _ _ _ hk => .inl hk) ?_ ?_
  · rw [callsOn_append]
    have hn : conn ≠ some i := by
      intro hn
      obtain ⟨k, hk, hki⟩ := hc i hn
      exact hi k hk hki
    simp [hn]
  · intro i bytes hb
    cases ho : own.bind d.conn <;> simp [ho] at hb
  · intro i hb
    cases ho : own.bind d.conn <;> simp [ho] at hb
  · intro i hb
    cases ho : own.bind d.conn <;> simp [ho] at hb
    rw [hb]

theorem only_cleanup (ha : Always S d) (l : Lib) :
    Only S none none d { d with finalized := d.finalized || l = .close } := by
  have h : ConfigFrame S none d.config
      { d with finalized := d.finalized || l = .close : Shared }.config := .refl ha.wellFormed
  exact h.only ha (fun hf => by simp [hf]) id (fun _ _ => rfl) (fun _ _ => rfl) (by simp)
    (fun _ _ _ hk => .inl hk) (by simp) (by simp)

theorem only_crash (ha : Always S d) (l' : Option Lib) : Only S none l' d d.crash := by
  have h : ConfigFrame S none d.config d.crash.config := .refl ha.wellFormed
  exact h.only ha id (fun _ => rfl) (fun _ _ => rfl) (fun _ _ => rfl) (by simp)
    (fun _ _ _ hk => .inl hk) (by simp) (by simp)

theorem only_server (ha : Always S d) {a : Action} (h : serverStep S a d = some d') :
    Only S none none d d' := by
  obtain ⟨hb, h⟩ := Option.ite_none_right_eq_some.mp h
  obtain ⟨c, hc, rfl⟩ := Option.map_eq_some_iff.mp h
  refine (ConfigFrame.of_step hc ha.wellFormed).only ha id id (fun _ _ => rfl) (fun _ _ => rfl)
    ?_ (fun _ _ _ hk => .inl hk) ?_ ?_
  · rintro i bytes ⟨⟩
    cases hb
  · rintro i ⟨⟩
    cases hb
  · rintro i ⟨⟩
    cases hb

end Threaded

end Voyeur
