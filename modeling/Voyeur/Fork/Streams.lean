import Voyeur.Fork.Tree
import Voyeur.Server.Descriptors

/-! # Streams that processes share

A forked process sends on the connection of its parent. As long as nobody sends within
the message of another one, the stream of a connection consists of the messages that
were written on it, and each callback is that of an event that one process wrote.
-/

namespace Voyeur

open Transition (Reach)

/-- Nobody sends within the message of another one, and no `read` of the server fails. -/
def Exclusive (t : Tree) : Deed → Prop
  | .send p l _ => ∀ i ∈ t.sock p l, t.turn i = none ∨ t.turn i = some (p, l)
  | .server a => a ≠ .readFails
  | _ => True

instance (t : Tree) (d : Deed) : Decidable (Exclusive t d) :=
  match d with
  | .fork _ | .spawn | .exec _ | .die _ | .local_ _ _ _ | .connect _ _ _ | .send _ _ _ |
      .sendFails _ _ | .hangUp _ | .server _ => by
    unfold Exclusive
    infer_instance

section

variable (S : Setup) (t : Tree)

/-- The messages that were written on a connection. -/
def Tree.messages (i : ℕ) : List Message := (t.wrote i).map Prod.snd

/-- A connection that is absent has not been used. -/
structure Untouched (i : ℕ) : Prop where
  conn : (t.config.conns i).hungUp = false ∧ (t.config.conns i).sent = []
  wrote : t.wrote i = []
  turn : t.turn i = none
  sock : ∀ p l, t.sock p l ≠ some i

/-- What holds of the processes and their connections in every run. -/
structure Shaped : Prop where
  alive : ∀ p libs, t.procs p = some libs → p < t.next
  owner : ∀ i p l, t.turn i = some (p, l) → p < t.next
  absent : ∀ i, (t.config.conns i).side = .absent → Untouched t i
  pieces : ∀ p l s m bufs, t.lib p l = some s → s.activity = .writing m bufs → [] ∉ bufs

/-- The stream consists of messages `ws` and a part of the message `m`. -/
structure Consists (i : ℕ) (ws : List Message) (m : Message) (part : Bytes) : Prop where
  sent : (t.config.conns i).sent = stream S.context ws ++ part
  begins : part <+: m.bytes S.context.clientOpts
  lt : part.length < (m.bytes S.context.clientOpts).length

/-- What is missing of the message `m` is in the buffers of the library that writes it. -/
structure Continues (i : ℕ) (m : Message) (part : Bytes) : Prop where
  vacant : t.turn i = none → part = []
  held : ∀ p l s, t.turn i = some (p, l) → t.lib p l = some s → s.sock = some i →
    ∃ bufs, s.activity = .writing m bufs ∧ part ++ bufs.flatten = m.bytes S.context.clientOpts

/-- What holds in every run in which nobody sends within the message of another one. -/
structure Orderly : Prop where
  whole : ∀ p l s m bufs i, t.lib p l = some s → s.activity = .writing m bufs →
    s.sock = some i → t.config.linked S i = true → t.turn i ≠ some (p, l) →
    bufs = [] ∨ bufs.flatten = m.bytes S.context.clientOpts
  linked : ∀ i, t.config.linked S i = true → ∃ m part,
    Consists S t i (t.messages i) m part ∧ Continues S t i m part
  consists : ∀ i, ∃ ws m part, ws <+: t.messages i ∧ Consists S t i ws m part

end

variable {S : Setup} {t t' : Tree} {d : Deed} {i p : ℕ} {l : Lib} {s : LibState}

theorem LibState.inherited_activity (s : LibState) :
    s.inherited.activity = .free ∧ s.activity = .free ∨ s.inherited.activity = .stuck := by
  unfold inherited
  by_cases h : s.activity = .free <;> simp [h]

theorem Origin.sock (h : Origin S t d p l s) (hi : s.sock = some i) :
    (∃ q, t.sock q l = some i) ∨ d = .connect p l i := by
  cases h with
  | kept _ hl => exact .inl ⟨p, Tree.sock_eq_some_iff.mpr ⟨s, hl, hi⟩⟩
  | loaded => cases hi
  | forked hl => exact .inl ⟨_, Tree.sock_eq_some_iff.mpr ⟨_, hl, hi⟩⟩
  | acted hl ha => exact .inl ⟨p, Tree.sock_eq_some_iff.mpr ⟨_, hl, (act_sound ha).sock hi⟩⟩
  | connected =>
    cases hi
    exact .inr rfl
  | sent hl | failed hl => exact .inl ⟨p, Tree.sock_eq_some_iff.mpr ⟨_, hl, hi⟩⟩

theorem TreeStep.sock (h : TreeStep S t d t') (hi : t'.sock p l = some i) :
    (∃ q, t.sock q l = some i) ∨ d = .connect p l i := by
  obtain ⟨s, hs, hi⟩ := Tree.sock_eq_some_iff.mp hi
  exact (h.origin hs).sock hi

theorem Origin.pieces (h : Origin S t d p l s) (hv : Shaped t) {m : Message} {bufs : List Bytes}
    (hw : s.activity = .writing m bufs) : [] ∉ bufs := by
  cases h with
  | kept _ hl => exact hv.pieces _ _ _ _ _ hl hw
  | loaded => cases hw
  | @forked q l s₀ hl =>
    rcases s₀.inherited_activity with ⟨ha, -⟩ | ha <;> (rw [ha] at hw; cases hw)
  | acted hl ha => exact ((act_sound ha).begins hw).1
  | connected hl he =>
    simp only at hw
    rw [he] at hw
    cases hw
  | sent hl ha =>
    cases hw
    have hn := hv.pieces _ _ _ _ _ hl ha
    unfold Tree.afterSend
    split
    · exact fun hb => hn (List.mem_cons_of_mem _ hb)
    · next hb =>
      rintro hc
      rcases List.mem_cons.mp hc with hc | hc
      · exact hb hc.symm
      · exact hn (List.mem_cons_of_mem _ hc)
  | failed hl ha =>
    cases hw
    exact fun hb => hv.pieces _ _ _ _ _ hl ha (List.mem_cons_of_mem _ hb)

theorem TreeStep.alive (h : TreeStep S t d t') {libs : Lib → LibState}
    (hp : t'.procs p = some libs) :
    (∃ libs, t.procs p = some libs) ∨ p = t.next ∧ t'.next = t.next + 1 := by
  have hset : ∀ q l s, (t.setLib q l s).procs p = some libs →
      ∃ libs, t.procs p = some libs := by
    intro q l s hp
    by_cases hq : p = q
    · subst hq
      simp only [Tree.setLib, Function.update_self, Option.map_eq_some_iff] at hp
      exact ⟨_, hp.choose_spec.1⟩
    · simp only [Tree.setLib, Function.update_of_ne hq] at hp
      exact ⟨libs, hp⟩
  cases h with
  | fork | spawn =>
    by_cases hq : p = t.next
    · exact .inr ⟨hq, rfl⟩
    · simp only [Function.update_of_ne hq] at hp
      exact .inl ⟨libs, hp⟩
  | @exec q _ hq | @die q _ hq =>
    by_cases hq' : p = q
    · exact .inl ⟨_, hq' ▸ hq⟩
    · simp only [Function.update_of_ne hq'] at hp
      exact .inl ⟨libs, hp⟩
  | local_ | connect => exact .inl (hset _ _ _ hp)
  | send | sendFails =>
    simp only [Tree.note_procs] at hp
    exact .inl (hset _ _ _ hp)
  | hangUp | server => exact .inl ⟨libs, hp⟩

theorem TreeStep.next_le (h : TreeStep S t d t') : t.next ≤ t'.next := by
  cases h with
  | fork | spawn => exact Nat.le_succ _
  | exec | die | local_ | connect | hangUp | server => exact le_rfl
  | send | sendFails =>
    simp only [Tree.note_next]
    exact le_rfl

/-- The library that sends, or tries to. -/
def Deed.sender : Deed → Option (ℕ × Lib)
  | .send p l _ | .sendFails p l => some (p, l)
  | _ => none

/-- A library gets rid of a piece of the message that it writes on a connection. -/
structure Piece (S : Setup) (t : Tree) (d : Deed) (t' : Tree) (i p : ℕ) (l : Lib) (s : LibState)
    (m : Message) (b : Bytes) (bufs rest : List Bytes) : Prop where
  sender : d.sender = some (p, l)
  lib : t.lib p l = some s
  activity : s.activity = .writing m (b :: bufs)
  sock : s.sock = some i
  after : t'.lib p l = some { s with activity := .writing m rest }
  wrote : t'.wrote i = if rest = [] then t.wrote i ++ [(p, m)] else t.wrote i
  turn : t'.turn i = if rest = [] then none else some (p, l)
  how : (t.config.linked S i = false ∧ rest = bufs ∧ t'.config = t.config) ∨
    ∃ n, d = .send p l n ∧ t.config.linked S i = true ∧ rest = Tree.afterSend b n bufs ∧
      (t'.config.conns i).sent = (t.config.conns i).sent ++ b.take n

theorem TreeStep.piece (h : TreeStep S t d t') (i : ℕ) :
    (t'.wrote i = t.wrote i ∧ t'.turn i = t.turn i ∧
      ∀ p l s, d.sender = some (p, l) → t.lib p l = some s → s.sock ≠ some i) ∨
      ∃ p l s m b bufs rest, Piece S t d t' i p l s m b bufs rest := by
  have hother : ∀ {d : Deed} {p : ℕ} {l : Lib} {s : LibState} {j : ℕ}, d.sender = some (p, l) →
      t.lib p l = some s → s.sock = some j → i ≠ j →
      ∀ p' l' s', d.sender = some (p', l') → t.lib p' l' = some s' → s'.sock ≠ some i := by
    intro d p l s j hd hl hj hi p' l' s' hd' hl' hi'
    rw [hd, Option.some.injEq, Prod.mk.injEq] at hd'
    obtain ⟨rfl, rfl⟩ := hd'
    rw [hl, Option.some.injEq] at hl'
    rw [← hl', hj, Option.some.injEq] at hi'
    exact hi hi'.symm
  cases h with
  | @send p l n j s m b bufs c hl ha hi h0 hn hc =>
    by_cases hj : i = j
    · subst hj
      refine .inr ⟨p, l, s, m, b, bufs, Tree.afterSend b n bufs, rfl, hl, ha, hi, ?_, ?_, ?_, ?_⟩
      · refine Eq.trans ?_ (Tree.lib_setLib_self hl)
        exact Tree.note_lib
      · exact Tree.note_wrote
      · exact Tree.note_turn
      · cases step_sound hc with
        | send hk =>
          exact .inr ⟨n, rfl, hk, rfl, by simp [Config.setConn, Conn.sent]⟩
    · refine .inl ⟨?_, ?_, hother rfl hl hi hj⟩
      · exact Tree.note_wrote_of_ne hj
      · exact Tree.note_turn_of_ne hj
  | @sendFails p l j s m b bufs hl ha hi hk =>
    by_cases hj : i = j
    · subst hj
      refine .inr ⟨p, l, s, m, b, bufs, bufs, rfl, hl, ha, hi, ?_, ?_, ?_, .inl ⟨hk, rfl, ?_⟩⟩
      · refine Eq.trans ?_ (Tree.lib_setLib_self hl)
        exact Tree.note_lib
      · exact Tree.note_wrote
      · exact Tree.note_turn
      · exact Tree.note_config
    · refine .inl ⟨?_, ?_, hother rfl hl hi hj⟩
      · exact Tree.note_wrote_of_ne hj
      · exact Tree.note_turn_of_ne hj
  | fork | spawn | exec | die | local_ | connect | hangUp | server =>
    exact .inl ⟨rfl, rfl, fun p l s hd => by cases hd⟩

theorem TreeStep.linked (h : TreeStep S t d t') (hw : t.config.WellFormed)
    (hl : t'.config.linked S i = true) :
    t.config.linked S i = true ∨ ∃ p l, d = .connect p l i := by
  rcases h.config with hc | ⟨a, hs, hd⟩
  · rw [hc] at hl
    exact .inl hl
  · rcases (step_sound hs).linked hw hl with hl | rfl
    · exact .inl hl
    · exact .inr hd

theorem TreeStep.connect_absent (h : TreeStep S t (.connect p l i) t') :
    (t.config.conns i).side = .absent := by
  cases h with
  | connect hl he hi hc =>
    cases step_sound hc with
    | connect hs => exact hs

theorem TreeStep.sent (h : TreeStep S t d t') (i : ℕ) :
    (t'.config.conns i).sent = (t.config.conns i).sent ∨
      ∃ p l n, d = .send p l n ∧ t.sock p l = some i := by
  rcases h.config with hc | ⟨a, hs, hd⟩
  · rw [hc]
    exact .inl rfl
  · rcases (step_sound hs).sent_eq i with he | ⟨bytes, rfl, -⟩
    · exact .inl he
    · exact .inr hd

theorem TreeStep.absent (h : TreeStep S t d t') (hw : t.config.WellFormed)
    (hs : (t'.config.conns i).side = .absent) :
    t'.config.conns i = t.config.conns i ∧ ∀ p l, d ≠ .connect p l i := by
  have hn : ∀ p l, d ≠ .connect p l i := by
    rintro p l rfl
    cases h with
    | connect hl he hi hc =>
      cases step_sound hc with
      | connect => simp [Config.setConn] at hs
  refine ⟨?_, hn⟩
  rcases h.config with hc | ⟨a, ha, -⟩
  · rw [hc]
  · exact (step_sound ha).absent hw hs

theorem TreeStep.untouched (h : TreeStep S t d t') (hw : t.config.WellFormed) (hv : Shaped t)
    (hs : (t'.config.conns i).side = .absent) : Untouched t' i := by
  obtain ⟨hc, hn⟩ := h.absent hw hs
  have hu := hv.absent i (hc ▸ hs)
  have hg : t'.wrote i = t.wrote i ∧ t'.turn i = t.turn i := by
    rcases h.piece i with ⟨hg, hg', -⟩ | ⟨p, l, s, m, b, bufs, rest, hpc⟩
    · exact ⟨hg, hg'⟩
    · exact absurd (Tree.sock_eq_some_iff.mpr ⟨s, hpc.lib, hpc.sock⟩) (hu.sock p l)
  constructor
  · rw [hc]
    exact hu.conn
  · rw [hg.1]
    exact hu.wrote
  · rw [hg.2]
    exact hu.turn
  · intro p l hi
    rcases h.sock hi with ⟨q, hq⟩ | rfl
    · exact hu.sock q l hq
    · exact hn p l rfl

theorem TreeStep.shaped (h : TreeStep S t d t') (hw : t.config.WellFormed) (hv : Shaped t) :
    Shaped t' := by
  constructor
  · intro p libs hp
    rcases h.alive hp with ⟨libs', hp'⟩ | ⟨rfl, hn⟩
    · exact (hv.alive p libs' hp').trans_le h.next_le
    · rw [hn]
      exact Nat.lt_succ_self _
  · intro i p l ht
    refine Nat.lt_of_lt_of_le ?_ h.next_le
    rcases h.piece i with ⟨-, hg, -⟩ | ⟨q, l', s, m, b, bufs, rest, hpc⟩
    · rw [hg] at ht
      exact hv.owner i p l ht
    · rw [hpc.turn] at ht
      obtain ⟨libs, hq, -⟩ := Tree.lib_eq_some_iff.mp hpc.lib
      split at ht
      · cases ht
      · cases ht
        exact hv.alive _ libs hq
  · intro i hs
    exact h.untouched hw hv hs
  · intro p l s m bufs hl hs
    exact (h.origin hl).pieces hv hs

theorem init_shaped (S : Setup) (host : ℕ → Bool) : Shaped (Tree.init S host) := by
  constructor
  · intro p libs hp
    by_cases h0 : p = 0
    · subst h0
      exact Nat.one_pos
    · simp [Tree.init, h0] at hp
  · intro i p l ht
    cases ht
  · intro i hs
    refine ⟨⟨rfl, rfl⟩, rfl, rfl, fun p l => ?_⟩
    by_cases h0 : p = 0 <;> simp [Tree.sock, Tree.lib, Tree.init, h0, LibState.fresh]
  · intro p l s m bufs hl
    obtain ⟨libs, hp, rfl⟩ := Tree.lib_eq_some_iff.mp hl
    by_cases h0 : p = 0 <;> simp [Tree.init, h0] at hp
    simp [← hp, LibState.fresh]

theorem Tree.flatten_afterSend (b : Bytes) (n : ℕ) (bufs : List Bytes) :
    b.take n ++ (afterSend b n bufs).flatten = b ++ bufs.flatten := by
  have h : (afterSend b n bufs).flatten = b.drop n ++ bufs.flatten := by
    unfold afterSend
    split
    · next hb => rw [hb, List.nil_append]
    · rfl
  rw [h, ← List.append_assoc, List.take_append_drop]

theorem Consists.congr {ws : List Message} {m : Message} {part : Bytes}
    (h : Consists S t i ws m part)
    (hs : (t'.config.conns i).sent = (t.config.conns i).sent) : Consists S t' i ws m part :=
  ⟨hs.trans h.sent, h.begins, h.lt⟩

theorem Orderly.missing (ho : Orderly S t) {m : Message} {b : Bytes} {bufs : List Bytes}
    (hl : t.lib p l = some s) (ha : s.activity = .writing m (b :: bufs)) (hi : s.sock = some i)
    (hk : t.config.linked S i = true) (ht : t.turn i = none ∨ t.turn i = some (p, l)) :
    ∃ part, (t.config.conns i).sent = stream S.context (t.messages i) ++ part ∧
      part ++ (b :: bufs).flatten = m.bytes S.context.clientOpts := by
  obtain ⟨m', part, hc, hn⟩ := ho.linked i hk
  refine ⟨part, hc.sent, ?_⟩
  rcases ht with ht | ht
  · have hne : t.turn i ≠ some (p, l) := by simp [ht]
    have hw := ho.whole p l s m _ i hl ha hi hk hne
    rw [hn.vacant ht, List.nil_append]
    exact hw.resolve_left (by simp)
  · obtain ⟨bufs', hb, he⟩ := hn.held p l s ht hl hi
    rw [ha, Activity.writing.injEq] at hb
    obtain ⟨rfl, rfl⟩ := hb
    exact he

theorem Orderly.send (ho : Orderly S t) (hv : Shaped t) {m : Message} {b : Bytes}
    {bufs rest : List Bytes} {n : ℕ} (h : Piece S t d t' i p l s m b bufs rest)
    (hk : t.config.linked S i = true) (ht : t.turn i = none ∨ t.turn i = some (p, l))
    (hr : rest = Tree.afterSend b n bufs)
    (hs : (t'.config.conns i).sent = (t.config.conns i).sent ++ b.take n) :
    ∃ m part, Consists S t' i (t'.messages i) m part ∧ Continues S t' i m part := by
  have hwrote := h.wrote
  have hturn := h.turn
  obtain ⟨part, hsent, hm⟩ := ho.missing h.lib h.activity h.sock hk ht
  rw [List.flatten_cons, ← Tree.flatten_afterSend b n bufs, ← hr, ← List.append_assoc] at hm
  rw [hsent, List.append_assoc] at hs
  by_cases hnil : rest = []
  · -- The message is complete.
    rw [if_pos hnil] at hwrote hturn
    rw [hnil, List.flatten_nil, List.append_nil] at hm
    refine ⟨.done, [], ⟨?_, List.nil_prefix, bytes_length_pos S.context .done⟩, fun _ => rfl, ?_⟩
    · rw [hs, hm, List.append_nil]
      simp [Tree.messages, hwrote]
    · intro p' l' s' ht'
      rw [hturn] at ht'
      cases ht'
  · rw [if_neg hnil] at hwrote hturn
    have hpieces := (Origin.sent (S := S) (n := n) h.lib h.activity).pieces hv rfl
    rw [← hr] at hpieces
    have hpos : 0 < rest.flatten.length := by
      obtain ⟨b', rest', rfl⟩ := List.exists_cons_of_ne_nil hnil
      have hb' : b' ≠ [] := fun hn => hpieces (hn ▸ List.mem_cons_self)
      rw [List.flatten_cons, List.length_append]
      exact Nat.add_pos_left (List.length_pos_iff.mpr hb') _
    refine ⟨m, part ++ b.take n, ⟨?_, ?_, ?_⟩, fun hn => ?_, fun p' l' s' ht' hp hj => ?_⟩
    · rw [hs]
      simp [Tree.messages, hwrote]
    · rw [← hm]
      exact List.prefix_append _ _
    · have hlen : (part ++ b.take n ++ rest.flatten).length =
          (part ++ b.take n).length + rest.flatten.length := List.length_append
      rw [← hm, hlen]
      exact Nat.lt_add_of_pos_right hpos
    · rw [hturn] at hn
      cases hn
    · rw [hturn, Option.some.injEq, Prod.mk.injEq] at ht'
      obtain ⟨rfl, rfl⟩ := ht'
      rw [h.after, Option.some.injEq] at hp
      exact ⟨rest, by rw [← hp], hm⟩

theorem Continues.rest {m : Message} {part : Bytes} (h : TreeStep S t d t') (hv : Shaped t)
    (hc : Continues S t i m part) (hlt : part.length < (m.bytes S.context.clientOpts).length)
    (ht : t'.turn i = t.turn i) (hside : (t.config.conns i).side ≠ .absent)
    (hn : ∀ p l s, d.sender = some (p, l) → t.lib p l = some s → s.sock ≠ some i) :
    Continues S t' i m part := by
  refine ⟨fun h0 => hc.vacant (ht ▸ h0), fun p l s hp hl hi => ?_⟩
  rw [ht] at hp
  have ho := h.origin hl
  cases ho with
  | kept _ hl₀ => exact hc.held p l s hp hl₀ hi
  | loaded => cases hi
  | forked => exact absurd (hv.owner i _ l hp) (lt_irrefl _)
  | acted hl₀ ha =>
    obtain ⟨bufs, hw, he⟩ := hc.held p l _ hp hl₀ ((act_sound ha).sock hi)
    cases bufs with
    | nil =>
      rw [List.flatten_nil, List.append_nil] at he
      rw [he] at hlt
      exact absurd hlt (lt_irrefl _)
    | cons b bufs => exact absurd hw (act_sound ha).between
  | connected =>
    cases hi
    exact absurd h.connect_absent hside
  | sent hl₀ => exact (hn p l _ rfl hl₀ hi).elim
  | failed hl₀ => exact (hn p l _ rfl hl₀ hi).elim

theorem linked_not_absent {c : Config} (hl : c.linked S i = true) :
    (c.conns i).side ≠ .absent := by
  intro hs
  simp [Config.linked, hs] at hl

theorem TreeStep.whole (h : TreeStep S t d t') (hw : t.config.WellFormed) (hv : Shaped t)
    (hx : Exclusive t d) (ho : Orderly S t) {m : Message} {bufs : List Bytes}
    (hl : t'.lib p l = some s) (ha : s.activity = .writing m bufs) (hi : s.sock = some i)
    (hk : t'.config.linked S i = true) (ht : t'.turn i ≠ some (p, l)) :
    bufs = [] ∨ bufs.flatten = m.bytes S.context.clientOpts := by
  have hor := h.origin hl
  cases hor with
  | @kept _ _ _ _ hd hl₀ =>
    have hk₀ : t.config.linked S i = true := by
      rcases h.linked hw hk with hk₀ | ⟨q, l', rfl⟩
      · exact hk₀
      · exact absurd (Tree.sock_eq_some_iff.mpr ⟨s, hl₀, hi⟩)
          ((hv.absent i h.connect_absent).sock p l)
    refine ho.whole p l s m bufs i hl₀ ha hi hk₀ fun ht₀ => ?_
    rcases h.piece i with ⟨-, hg, -⟩ | ⟨q, l', s', m', b, bufs', rest, hpc⟩
    · exact ht (hg ▸ ht₀)
    · rcases hpc.how with ⟨hkf, -⟩ | ⟨n, rfl, -⟩
      · rw [hk₀] at hkf
        cases hkf
      · -- It is somebody else's turn.
        have hturn := hx i (Tree.sock_eq_some_iff.mpr ⟨s', hpc.lib, hpc.sock⟩)
        rw [ht₀] at hturn
        exact hd (hturn.resolve_left (by simp)).symm
  | loaded => cases ha
  | @forked q _ s₀ hl₀ =>
    rcases s₀.inherited_activity with ⟨hf, -⟩ | hf <;> (rw [hf] at ha; cases ha)
  | acted hl₀ hs => exact .inr ((act_sound hs).begins ha).2
  | connected hl₀ he =>
    simp only at ha
    rw [he] at ha
    cases ha
  | sent hl₀ ha₀ | failed hl₀ ha₀ =>
    rcases h.piece i with ⟨-, -, hn⟩ | ⟨q, l', s', m', b, bufs', rest, hpc⟩
    · exact (hn p l _ rfl hl₀ hi).elim
    · have hq := hpc.sender
      cases hq
      rw [hpc.after, Option.some.injEq] at hl
      rw [← hl, Activity.writing.injEq] at ha
      have hturn := hpc.turn
      by_cases hr : rest = []
      · exact .inl (ha.2 ▸ hr)
      · rw [if_neg hr] at hturn
        exact absurd hturn ht

/-- Where it matters, the sender is the one whose turn it is. -/
theorem Piece.turn_of_exclusive {m : Message} {b : Bytes} {bufs rest : List Bytes} {n : ℕ}
    (h : Piece S t d t' i p l s m b bufs rest) (hx : Exclusive t d) (hd : d = .send p l n) :
    t.turn i = none ∨ t.turn i = some (p, l) := by
  subst hd
  exact hx i (Tree.sock_eq_some_iff.mpr ⟨s, h.lib, h.sock⟩)

theorem TreeStep.orderly (h : TreeStep S t d t') (hw : t.config.WellFormed) (hv : Shaped t)
    (hx : Exclusive t d) (ho : Orderly S t) : Orderly S t' := by
  have hsame : ∀ i, (∀ p l s, d.sender = some (p, l) → t.lib p l = some s → s.sock ≠ some i) →
      (t'.config.conns i).sent = (t.config.conns i).sent := by
    intro i hn
    rcases h.sent i with hs | ⟨p, l, n, rfl, hi⟩
    · exact hs
    · obtain ⟨s, hl, hi⟩ := Tree.sock_eq_some_iff.mp hi
      exact absurd hi (hn p l s rfl hl)
  constructor
  · intro p l s m bufs i
    exact h.whole hw hv hx ho
  · intro i hk
    rcases h.linked hw hk with hk₀ | ⟨q, l', rfl⟩
    · rcases h.piece i with ⟨hwr, ht, hn⟩ | ⟨p, l, s, m, b, bufs, rest, hpc⟩
      · obtain ⟨m, part, hc, hco⟩ := ho.linked i hk₀
        refine ⟨m, part, ?_, hco.rest h hv hc.lt ht (linked_not_absent hk₀) hn⟩
        rw [Tree.messages, hwr]
        exact hc.congr (hsame i hn)
      · rcases hpc.how with ⟨hkf, -⟩ | ⟨n, hd, -, hr, hs⟩
        · rw [hk₀] at hkf
          cases hkf
        · exact ho.send hv hpc hk₀ (hpc.turn_of_exclusive hx hd) hr hs
    · -- A new connection
      have hu := hv.absent i h.connect_absent
      have hg : t'.wrote i = t.wrote i ∧ t'.turn i = t.turn i := by
        cases h
        exact ⟨rfl, rfl⟩
      have hs := hsame i fun p l s hd => by cases hd
      refine ⟨.done, [], ⟨?_, List.nil_prefix, bytes_length_pos S.context .done⟩,
        fun _ => rfl, fun p l s ht => ?_⟩
      · rw [hs, hu.conn.2, Tree.messages, hg.1, hu.wrote]
        rfl
      · rw [hg.2, hu.turn] at ht
        cases ht
  · intro i
    rcases h.piece i with ⟨hwr, -, hn⟩ | ⟨p, l, s, m, b, bufs, rest, hpc⟩
    · obtain ⟨ws, m, part, hp, hc⟩ := ho.consists i
      refine ⟨ws, m, part, ?_, hc.congr (hsame i hn)⟩
      rw [Tree.messages, hwr]
      exact hp
    · rcases hpc.how with ⟨-, -, hcf⟩ | ⟨n, hd, hk, hr, hs⟩
      · obtain ⟨ws, m', part, hp, hc⟩ := ho.consists i
        refine ⟨ws, m', part, hp.trans ?_, hc.congr (by rw [hcf])⟩
        rw [Tree.messages, Tree.messages, hpc.wrote]
        split
        · simp
        · exact List.prefix_rfl
      · obtain ⟨m', part, hc, -⟩ := ho.send hv hpc hk (hpc.turn_of_exclusive hx hd) hr hs
        exact ⟨_, m', part, List.prefix_rfl, hc⟩

theorem init_orderly (S : Setup) (host : ℕ → Bool) : Orderly S (Tree.init S host) := by
  have hside : ∀ i, ((Tree.init S host).config.conns i).side = .absent := fun _ => rfl
  constructor
  · intro p l s m bufs i _ _ _ hk
    exact absurd (hside i) (linked_not_absent hk)
  · intro i hk
    exact absurd (hside i) (linked_not_absent hk)
  · intro i
    exact ⟨[], .done, [], List.nil_prefix, rfl, List.nil_prefix,
      bytes_length_pos S.context .done⟩

theorem Exclusive.ne_readFails {a : Action} (h : Exclusive t d) (hd : d.Is t a) :
    a ≠ .readFails := by
  rintro rfl
  obtain rfl : d = .server .readFails := hd
  exact h rfl

theorem reach_orderly {host : ℕ → Bool}
    (h : Reach (Tree.step S) Exclusive (Tree.init S host) t) : Shaped t ∧ Orderly S t := by
  have hi : Reach (Tree.step S) Exclusive (Tree.init S host) t ∧ Shaped t ∧ Orderly S t := by
    refine h.invariant (I := fun t => Reach (Tree.step S) Exclusive (Tree.init S host) t ∧
      Shaped t ∧ Orderly S t) ⟨.refl, init_shaped S host, init_orderly S host⟩ ?_
    rintro t d t' ⟨hr, hv, ho⟩ hx hs
    obtain ⟨hw, -⟩ := reach_follows (fun _ _ ha => ha)
      (reach_config (fun _ _ _ hx hd => Exclusive.ne_readFails hx hd) hr)
    have hst := treeStep_sound hs
    exact ⟨hr.tail hx hs, hst.shaped hw hv, hst.orderly hw hv hx ho⟩
  exact hi.2

theorem Consists.sent_prefix {ws : List Message} {m : Message} {part : Bytes}
    (h : Consists S t i ws m part) :
    (t.config.conns i).sent <+: stream S.context (ws ++ [m]) := by
  rw [h.sent, stream_append, List.prefix_append_right_inj, stream_cons, stream_nil,
    List.append_nil]
  exact h.begins

theorem Consists.complete {ws left : List Message} {m : Message} {part : Bytes}
    {es : List ClientEvent} (h : Consists S t i ws m part)
    (hs : ws ++ [m] = es.map .event ++ left)
    (hp : eventStream S.context es <+: (t.config.conns i).sent) :
    ∃ rest, ws = es.map .event ++ rest := by
  rcases List.append_eq_append_iff.mp hs with ⟨more, hm, hl⟩ | ⟨rest, hw, -⟩
  · cases more with
    | nil => exact ⟨[], by simpa using hm.symm⟩
    | cons m' more =>
      -- Otherwise the message that is not complete would be complete.
      rw [List.cons_append, List.cons.injEq] at hl
      obtain ⟨rfl, -⟩ := hl
      have hlen := hp.length_le
      have hlt := h.lt
      rw [h.sent, eventStream, hm, stream_append, stream_cons] at hlen
      simp only [List.length_append] at hlen
      omega
  · exact ⟨rest, hw⟩

/-- The callbacks of a connection are those of the first messages that were written on it. -/
theorem reach_callbacks (hm : ClientEvent.GrantsEvents S.malloc) {host : ℕ → Bool}
    (h : Reach (Tree.step S) Exclusive (Tree.init S host) t) (i : ℕ) :
    ∃ es rest, t.messages i = es.map .event ++ rest ∧
      t.config.callsOf i = S.context.callbacks es := by
  obtain ⟨-, ho⟩ := reach_orderly h
  obtain ⟨-, hf⟩ := reach_follows (fun _ _ ha => ha)
    (reach_config (fun _ _ _ hx hd => Exclusive.ne_readFails hx hd) h)
  obtain ⟨ws, m, part, ⟨more, hmore⟩, hc⟩ := ho.consists i
  obtain ⟨es, left, he, hcalls, hp, -⟩ := (hf i).delivered hm hc.sent_prefix
  obtain ⟨rest, rfl⟩ := hc.complete he hp
  exact ⟨es, rest ++ more, by rw [← hmore, List.append_assoc], hcalls⟩

/--
As long as nobody sends within the message of another one, every callback is that of an
event that one process wrote on the connection.
-/
theorem callback_of_event (hm : ClientEvent.GrantsEvents S.malloc) {host : ℕ → Bool}
    (h : Reach (Tree.step S) Exclusive (Tree.init S host) t) (i : ℕ) (call : Call)
    (hc : (i, call) ∈ t.config.log) :
    ∃ p e, (p, .event e) ∈ t.wrote i ∧
      call ∈ S.context.calls (e.received (S.context.opts e.type)) := by
  obtain ⟨es, rest, hms, hcalls⟩ := reach_callbacks hm h i
  have hmem : call ∈ t.config.callsOf i :=
    List.mem_filterMap.mpr ⟨(i, call), hc, if_pos rfl⟩
  rw [hcalls, Context.callbacks, List.mem_flatMap] at hmem
  obtain ⟨e, he, hcall⟩ := hmem
  have hw : Message.event e ∈ t.messages i := by
    rw [hms]
    exact List.mem_append_left _ (List.mem_map_of_mem he)
  obtain ⟨⟨p, m⟩, hp, rfl⟩ := List.mem_map.mp hw
  exact ⟨p, e, hp, hcall⟩

/-- A process with a connection calls `close` and sends the event. -/
def closes (p : ℕ) (e : ClientEvent) : List Deed :=
  [.local_ p .close (.enter e), .local_ p .close (.write true)] ++
    List.replicate 5 (.send p .close 4) ++ [.local_ p .close .leave]

/-- The first event of the child that the host program has started. -/
def firstClose : List Deed :=
  [.local_ 0 .close (.enter (.close 5 0 12)), .connect 0 .close 0,
    .local_ 0 .close (.write true)] ++
    List.replicate 5 (.send 0 .close 4) ++ [.local_ 0 .close .leave]

/-- The server accepts the first connection and reads two events. -/
def acceptAndRead : List Deed :=
  [.server (.select [(3, .readable)]), .server (.accept 5), .server .advance] ++
    (List.replicate 2 ([.server (.select [(5, .readable)]), .server .advance] ++
      (readWords 5).map .server ++ List.replicate 3 (.server .advance))).flatten

/-- Parent and child write one event each. -/
def sharedRun : List Deed :=
  firstClose ++ [.fork 0] ++ closes 1 (.close 6 0 13) ++ acceptAndRead

theorem callback_of_event_fork : ∃ t : Tree, (0, ⟨7, .close 6 0 13, 9⟩) ∈ t.config.log ∧
    ∃ p e, (p, .event e) ∈ t.wrote 0 ∧
      ⟨7, .close 6 0 13, 9⟩ ∈
        observer.context.calls (e.received (observer.context.opts e.type)) := by
  have hx : (Transition.exec (Tree.step observer) Exclusive (Tree.init observer fun _ => false)
      sharedRun).any (fun t => decide ((0, ⟨7, .close 6 0 13, 9⟩) ∈ t.config.log)) = true := by
    decide +kernel
  obtain ⟨t, hr, ht⟩ := Transition.exists_reach_of_exec _ hx
  have hl := of_decide_eq_true ht
  exact ⟨t, hl, callback_of_event (fun _ _ => rfl) hr 0 _ hl⟩

/-- Parent and child write one event each, the child in the middle of that of the parent. -/
def mixedRun : List Deed :=
  firstClose ++ [.fork 0,
    .local_ 0 .close (.enter (.close 6 0 12)), .local_ 0 .close (.write true),
    .local_ 1 .close (.enter (.close 7 0 13)), .local_ 1 .close (.write true),
    .send 0 .close 4, .send 0 .close 4, .send 1 .close 4] ++
    List.replicate 3 (.send 0 .close 4) ++ List.replicate 4 (.send 1 .close 4) ++ acceptAndRead

/-- The fields of two processes are mixed in one callback. -/
theorem not_callback_of_event :
    ¬ ∀ t, Reach (Tree.step observer) (fun _ d => d ≠ .server .readFails)
        (Tree.init observer fun _ => false) t →
      ∀ i call, (i, call) ∈ t.config.log → ∃ p e, (p, .event e) ∈ t.wrote i ∧
        call ∈ observer.context.calls (e.received (observer.context.opts e.type)) := by
  have hx : (Transition.exec (Tree.step observer) (fun _ d => d ≠ .server .readFails)
      (Tree.init observer fun _ => false) mixedRun).any (fun t => decide (t.wrote 0 =
        [(0, .event (.close 5 0 12)), (0, .event (.close 6 0 12)), (1, .event (.close 7 0 13))] ∧
        (0, ⟨7, .close 0 6 0, 9⟩) ∈ t.config.log)) = true := by
    decide +kernel
  intro h
  obtain ⟨t, hr, ht⟩ := Transition.exists_reach_of_exec _ hx
  obtain ⟨hw, hl⟩ := of_decide_eq_true ht
  obtain ⟨p, e, he, hc⟩ := h t hr 0 _ hl
  rw [hw] at he
  simp only [List.mem_cons, Prod.mk.injEq, Message.event.injEq, List.not_mem_nil, or_false] at he
  rcases he with ⟨-, rfl⟩ | ⟨-, rfl⟩ | ⟨-, rfl⟩ <;> revert hc <;> decide

end Voyeur
