import Voyeur.Fork.Library
import Voyeur.Server.Delivery

/-! # Processes that fork

The observed processes with the static state of their interposing libraries, together
with the server. A forked process inherits this state and the sockets. Between the sends
of one message other libraries and other processes may send. The programs leave the
sockets of the libraries alone.
-/

namespace Voyeur

open Transition (Reach)

/-- The processes and the server. -/
structure Tree where
  procs : ℕ → Option (Lib → LibState)
  /-- The number of the next process. -/
  next : ℕ
  config : Config
  /-- The messages that were written on each connection, and by whom. -/
  wrote : ℕ → List (ℕ × Message)
  /-- Whose message on a connection is not complete. -/
  turn : ℕ → Option (ℕ × Lib)

inductive Deed
  | fork (p : ℕ)
  /-- A new process that does not inherit anything, as after `posix_spawn`. -/
  | spawn
  | exec (p : ℕ)
  | die (p : ℕ)
  | local_ (p : ℕ) (l : Lib) (d : Local)
  | connect (p : ℕ) (l : Lib) (i : ℕ)
  | send (p : ℕ) (l : Lib) (n : ℕ)
  | sendFails (p : ℕ) (l : Lib)
  | hangUp (i : ℕ)
  | server (a : Action)
  deriving DecidableEq

namespace Tree

def lib (t : Tree) (p : ℕ) (l : Lib) : Option LibState := (t.procs p).map (· l)

def setLib (t : Tree) (p : ℕ) (l : Lib) (s : LibState) : Tree :=
  { t with
    procs := Function.update t.procs p ((t.procs p).map fun libs => Function.update libs l s) }

/-- The connection of which a library of a process has a socket. -/
def sock (t : Tree) (p : ℕ) (l : Lib) : Option ℕ := (t.lib p l).bind LibState.sock

/-- The buffers of a message that are left after a piece of the first one was sent. -/
def afterSend (b : Bytes) (n : ℕ) (bufs : List Bytes) : List Bytes :=
  if b.drop n = [] then bufs else b.drop n :: bufs

/-- Note that a send has left the buffers `bufs` of a message. -/
def note (t : Tree) (p : ℕ) (l : Lib) (i : ℕ) (m : Message) (bufs : List Bytes) : Tree :=
  if bufs = [] then
    { t with
      wrote := Function.update t.wrote i (t.wrote i ++ [(p, m)])
      turn := Function.update t.turn i none }
  else { t with turn := Function.update t.turn i (some (p, l)) }

/-- The steps of the server's own process. -/
def byServer : Action → Bool
  | .connect _ | .send _ _ | .hangUp _ => false
  | _ => true

def step (S : Setup) (t : Tree) : Deed → Option Tree
  | .fork p => (t.procs p).map fun libs => { t with
      procs := Function.update t.procs t.next (some fun l => (libs l).inherited)
      next := t.next + 1 }
  | .spawn => some { t with
      procs := Function.update t.procs t.next (some fun _ => .fresh)
      next := t.next + 1 }
  -- The sockets are closed on `exec`.
  | .exec p => (t.procs p).map fun _ => { t with
      procs := Function.update t.procs p (some fun _ => .fresh) }
  | .die p => (t.procs p).map fun _ => { t with procs := Function.update t.procs p none }
  | .local_ p l d =>
      (t.lib p l).bind fun s => (s.act S.context l d).map fun s' => t.setLib p l s'
  | .connect p l i =>
      (t.lib p l).bind fun s =>
        match s.activity with
        | .entered _ =>
            if s.initialized then none
            else (t.config.step S (.connect i)).map fun c =>
              { t.setLib p l { s with initialized := true, sock := some i } with config := c }
        | _ => none
  | .send p l n =>
      (t.lib p l).bind fun s =>
        match s.activity, s.sock with
        | .writing m (b :: bufs), some i =>
            if 0 < n ∧ n ≤ b.length then
              (t.config.step S (.send i (b.take n))).map fun c =>
                { (t.setLib p l { s with activity := .writing m (afterSend b n bufs) }).note
                    p l i m (afterSend b n bufs) with config := c }
            else none
        | _, _ => none
  -- A send fails when the server's end of the connection is closed.
  | .sendFails p l =>
      (t.lib p l).bind fun s =>
        match s.activity, s.sock with
        | .writing m (_ :: bufs), some i =>
            if t.config.linked S i then none
            else some ((t.setLib p l { s with activity := .writing m bufs }).note p l i m bufs)
        | _, _ => none
  | .hangUp i =>
      if ∀ p < t.next, ∀ l, t.sock p l ≠ some i then
        (t.config.step S (.hangUp i)).map fun c => { t with config := c }
      else none
  | .server a =>
      if byServer a then (t.config.step S a).map fun c => { t with config := c } else none

/-- The child that the host program has started, and the server. -/
def init (S : Setup) (host : ℕ → Bool) : Tree where
  procs p := if p = 0 then some fun _ => .fresh else none
  next := 1
  config := Config.init S host
  wrote _ := []
  turn _ := none

end Tree

/-- What a step does, and when it is possible. -/
inductive TreeStep (S : Setup) (t : Tree) : Deed → Tree → Prop
  | fork {p : ℕ} {libs : Lib → LibState} :
      t.procs p = some libs →
      TreeStep S t (.fork p) { t with
        procs := Function.update t.procs t.next (some fun l => (libs l).inherited)
        next := t.next + 1 }
  | spawn : TreeStep S t .spawn { t with
      procs := Function.update t.procs t.next (some fun _ => .fresh)
      next := t.next + 1 }
  | exec {p : ℕ} {libs : Lib → LibState} :
      t.procs p = some libs →
      TreeStep S t (.exec p) { t with procs := Function.update t.procs p (some fun _ => .fresh) }
  | die {p : ℕ} {libs : Lib → LibState} :
      t.procs p = some libs →
      TreeStep S t (.die p) { t with procs := Function.update t.procs p none }
  | local_ {p : ℕ} {l : Lib} {d : Local} {s s' : LibState} :
      t.lib p l = some s → s.act S.context l d = some s' →
      TreeStep S t (.local_ p l d) (t.setLib p l s')
  | connect {p : ℕ} {l : Lib} {i : ℕ} {s : LibState} {e : ClientEvent} {c : Config} :
      t.lib p l = some s → s.activity = .entered e → s.initialized = false →
      t.config.step S (.connect i) = some c →
      TreeStep S t (.connect p l i)
        { t.setLib p l { s with initialized := true, sock := some i } with config := c }
  | send {p : ℕ} {l : Lib} {n i : ℕ} {s : LibState} {m : Message} {b : Bytes}
      {bufs : List Bytes} {c : Config} :
      t.lib p l = some s → s.activity = .writing m (b :: bufs) → s.sock = some i →
      0 < n → n ≤ b.length → t.config.step S (.send i (b.take n)) = some c →
      TreeStep S t (.send p l n)
        { (t.setLib p l { s with activity := .writing m (Tree.afterSend b n bufs) }).note
            p l i m (Tree.afterSend b n bufs) with config := c }
  | sendFails {p : ℕ} {l : Lib} {i : ℕ} {s : LibState} {m : Message} {b : Bytes}
      {bufs : List Bytes} :
      t.lib p l = some s → s.activity = .writing m (b :: bufs) → s.sock = some i →
      t.config.linked S i = false →
      TreeStep S t (.sendFails p l)
        ((t.setLib p l { s with activity := .writing m bufs }).note p l i m bufs)
  | hangUp {i : ℕ} {c : Config} :
      (∀ p < t.next, ∀ l, t.sock p l ≠ some i) → t.config.step S (.hangUp i) = some c →
      TreeStep S t (.hangUp i) { t with config := c }
  | server {a : Action} {c : Config} :
      Tree.byServer a = true → t.config.step S a = some c →
      TreeStep S t (.server a) { t with config := c }

/-- The step function makes these steps only. -/
theorem treeStep_sound {S : Setup} {t t' : Tree} {d : Deed} (h : t.step S d = some t') :
    TreeStep S t d t' := by
  cases d with
  | fork p =>
    obtain ⟨libs, hp, rfl⟩ := Option.map_eq_some_iff.mp h
    exact .fork hp
  | spawn =>
    cases h
    exact .spawn
  | exec p =>
    obtain ⟨libs, hp, rfl⟩ := Option.map_eq_some_iff.mp h
    exact .exec hp
  | die p =>
    obtain ⟨libs, hp, rfl⟩ := Option.map_eq_some_iff.mp h
    exact .die hp
  | local_ p l d =>
    obtain ⟨s, hs, h⟩ := Option.bind_eq_some_iff.mp h
    obtain ⟨s', hs', rfl⟩ := Option.map_eq_some_iff.mp h
    exact .local_ hs hs'
  | connect p l i =>
    obtain ⟨s, hs, h⟩ := Option.bind_eq_some_iff.mp h
    simp only at h
    split at h
    · next e he =>
      split at h
      · cases h
      · next hi =>
        obtain ⟨c, hc, rfl⟩ := Option.map_eq_some_iff.mp h
        exact .connect hs he (eq_false_of_ne_true hi) hc
    · cases h
  | send p l n =>
    obtain ⟨s, hs, h⟩ := Option.bind_eq_some_iff.mp h
    simp only at h
    split at h
    · next m b bufs i ha hi =>
      obtain ⟨hn, h⟩ := Option.ite_none_right_eq_some.mp h
      obtain ⟨c, hc, rfl⟩ := Option.map_eq_some_iff.mp h
      exact .send hs ha hi hn.1 hn.2 hc
    · cases h
  | sendFails p l =>
    obtain ⟨s, hs, h⟩ := Option.bind_eq_some_iff.mp h
    split at h
    · next m b bufs i ha hi =>
      split at h
      · cases h
      · next hl =>
        cases h
        exact .sendFails hs ha hi (eq_false_of_ne_true hl)
    · cases h
  | hangUp i =>
    obtain ⟨hn, h⟩ := Option.ite_none_right_eq_some.mp h
    obtain ⟨c, hc, rfl⟩ := Option.map_eq_some_iff.mp h
    exact .hangUp hn hc
  | server a =>
    obtain ⟨ha, h⟩ := Option.ite_none_right_eq_some.mp h
    obtain ⟨c, hc, rfl⟩ := Option.map_eq_some_iff.mp h
    exact .server ha hc

namespace Tree

variable {t : Tree} {p p' : ℕ} {l l' : Lib} {s s' : LibState}

theorem lib_eq_some_iff : t.lib p l = some s ↔ ∃ libs, t.procs p = some libs ∧ libs l = s :=
  Option.map_eq_some_iff

theorem sock_eq_some_iff {i : ℕ} :
    t.sock p l = some i ↔ ∃ s, t.lib p l = some s ∧ s.sock = some i := Option.bind_eq_some_iff

theorem lib_setLib_self (h : t.lib p l = some s) : (t.setLib p l s').lib p l = some s' := by
  obtain ⟨libs, hp, -⟩ := lib_eq_some_iff.mp h
  simp [lib, setLib, hp]

theorem lib_setLib_of_ne (h : (p', l') ≠ (p, l)) : (t.setLib p l s').lib p' l' = t.lib p' l' := by
  by_cases hp : p' = p
  · subst hp
    have hl : l' ≠ l := by
      rintro rfl
      exact h rfl
    simp [lib, setLib, Option.map_map, Function.comp_def, hl]
  · simp [lib, setLib, hp]

section

variable {i j : ℕ} {m : Message} {bufs : List Bytes}

theorem note_procs : (t.note p l i m bufs).procs = t.procs := by
  unfold note
  split <;> rfl

theorem note_next : (t.note p l i m bufs).next = t.next := by
  unfold note
  split <;> rfl

theorem note_config : (t.note p l i m bufs).config = t.config := by
  unfold note
  split <;> rfl

theorem note_wrote : (t.note p l i m bufs).wrote i =
    if bufs = [] then t.wrote i ++ [(p, m)] else t.wrote i := by
  unfold note
  split <;> simp

theorem note_turn : (t.note p l i m bufs).turn i =
    if bufs = [] then none else some (p, l) := by
  unfold note
  split <;> simp

theorem note_wrote_of_ne (h : j ≠ i) : (t.note p l i m bufs).wrote j = t.wrote j := by
  unfold note
  split <;> simp [h]

theorem note_turn_of_ne (h : j ≠ i) : (t.note p l i m bufs).turn j = t.turn j := by
  unfold note
  split <;> simp [h]

theorem note_lib : (t.note p l i m bufs).lib p' l' = t.lib p' l' := by
  rw [lib, note_procs, lib]

end

end Tree

/-- The library whose state a deed changes. -/
def Deed.actor : Deed → Option (ℕ × Lib)
  | .local_ p l _ | .connect p l _ | .send p l _ | .sendFails p l => some (p, l)
  | _ => none

/-- How a library in a process came by its state. -/
inductive Origin (S : Setup) (t : Tree) : Deed → ℕ → Lib → LibState → Prop
  | kept {d : Deed} {p : ℕ} {l : Lib} {s : LibState} :
      d.actor ≠ some (p, l) → t.lib p l = some s → Origin S t d p l s
  | loaded {d : Deed} {p : ℕ} {l : Lib} : Origin S t d p l .fresh
  | forked {p : ℕ} {l : Lib} {s : LibState} :
      t.lib p l = some s → Origin S t (.fork p) t.next l s.inherited
  | acted {p : ℕ} {l : Lib} {d : Local} {s s' : LibState} :
      t.lib p l = some s → s.act S.context l d = some s' → Origin S t (.local_ p l d) p l s'
  | connected {p : ℕ} {l : Lib} {i : ℕ} {s : LibState} {e : ClientEvent} :
      t.lib p l = some s → s.activity = .entered e →
      Origin S t (.connect p l i) p l { s with initialized := true, sock := some i }
  | sent {p : ℕ} {l : Lib} {n : ℕ} {s : LibState} {m : Message} {b : Bytes} {bufs : List Bytes} :
      t.lib p l = some s → s.activity = .writing m (b :: bufs) →
      Origin S t (.send p l n) p l { s with activity := .writing m (Tree.afterSend b n bufs) }
  | failed {p : ℕ} {l : Lib} {s : LibState} {m : Message} {b : Bytes} {bufs : List Bytes} :
      t.lib p l = some s → s.activity = .writing m (b :: bufs) →
      Origin S t (.sendFails p l) p l { s with activity := .writing m bufs }

variable {S : Setup} {t t' : Tree} {d : Deed} {p i : ℕ} {l : Lib} {s s' : LibState}

theorem Origin.of_setLib {p' : ℕ} {l' : Lib} {u : LibState} (hd : d.actor = some (p, l))
    (hs : t.lib p l = some s) (ho : Origin S t d p l s')
    (h : (t.setLib p l s').lib p' l' = some u) : Origin S t d p' l' u := by
  by_cases hp : (p', l') = (p, l)
  · obtain ⟨rfl, rfl⟩ := Prod.mk.inj hp
    rw [Tree.lib_setLib_self hs, Option.some.injEq] at h
    exact h ▸ ho
  · rw [Tree.lib_setLib_of_ne hp] at h
    refine .kept ?_ h
    rw [hd]
    exact fun hc => hp (Option.some.inj hc).symm

theorem Origin.of_update {t₁ : Tree} {p' : ℕ} {libs : Option (Lib → LibState)}
    (hd : d.actor = none) (ht : t₁.procs = Function.update t.procs p libs)
    (ho : ∀ f, libs = some f → Origin S t d p l (f l)) (h : t₁.lib p' l = some s) :
    Origin S t d p' l s := by
  obtain ⟨f, hf, rfl⟩ := Tree.lib_eq_some_iff.mp h
  rw [ht] at hf
  by_cases hp : p' = p
  · subst hp
    rw [Function.update_self] at hf
    exact ho f hf
  · rw [Function.update_of_ne hp] at hf
    exact .kept (by simp [hd]) (Tree.lib_eq_some_iff.mpr ⟨f, hf, rfl⟩)

theorem TreeStep.origin (h : TreeStep S t d t') (hs : t'.lib p l = some s) :
    Origin S t d p l s := by
  cases h with
  | @fork q libs hq =>
    refine .of_update rfl rfl (fun f hf => ?_) hs
    cases hf
    exact .forked (Tree.lib_eq_some_iff.mpr ⟨libs, hq, rfl⟩)
  | spawn =>
    refine .of_update rfl rfl (fun f hf => ?_) hs
    cases hf
    exact .loaded
  | exec =>
    refine .of_update rfl rfl (fun f hf => ?_) hs
    cases hf
    exact .loaded
  | die =>
    refine .of_update rfl rfl (fun f hf => ?_) hs
    cases hf
  | local_ hl ha => exact .of_setLib rfl hl (.acted hl ha) hs
  | connect hl he => exact .of_setLib rfl hl (.connected hl he) hs
  | send hl ha hi =>
    refine .of_setLib rfl hl (.sent hl ha) (Eq.trans ?_ hs)
    exact Tree.note_lib.symm
  | sendFails hl ha =>
    refine .of_setLib rfl hl (.failed hl ha) (Eq.trans ?_ hs)
    exact Tree.note_lib.symm
  | hangUp | server => exact .kept (by simp [Deed.actor]) hs

/-- The action of a client or of the server that a deed is. -/
def Deed.Is (t : Tree) (d : Deed) : Action → Prop
  | .connect i => ∃ p l, d = .connect p l i
  | .send i _ => ∃ p l n, d = .send p l n ∧ t.sock p l = some i
  | .hangUp i => d = .hangUp i ∧ ∀ p < t.next, ∀ l, t.sock p l ≠ some i
  | a => d = .server a

theorem TreeStep.config (h : TreeStep S t d t') :
    t'.config = t.config ∨ ∃ a, t.config.step S a = some t'.config ∧ d.Is t a := by
  cases h with
  | connect hl he hi hc => exact .inr ⟨_, hc, _, _, rfl⟩
  | send hl ha hi h0 hn hc =>
    exact .inr ⟨_, hc, _, _, _, rfl, Tree.sock_eq_some_iff.mpr ⟨_, hl, hi⟩⟩
  | hangUp hn hc => exact .inr ⟨_, hc, rfl, hn⟩
  | @server a c ha hc =>
    refine .inr ⟨a, hc, ?_⟩
    cases a <;> first | rfl | cases ha
  | sendFails =>
    left
    unfold Tree.note
    split <;> rfl
  | fork | spawn | exec | die | local_ => exact .inl rfl

theorem reach_config {ok : Tree → Deed → Prop} {ok' : Config → Action → Prop} {host : ℕ → Bool}
    (hok : ∀ t d a, ok t d → d.Is t a → ok' t.config a)
    (h : Reach (Tree.step S) ok (Tree.init S host) t) :
    Reach (Config.step S) ok' (Config.init S host) t.config := by
  refine h.project (I := fun _ => True) Tree.config trivial ?_
  intro t d t' _ ho hs
  refine ⟨trivial, ?_⟩
  rcases (treeStep_sound hs).config with hc | ⟨a, hc, hd⟩
  · rw [hc]
    exact .refl
  · exact .single (hok t d a ho hd) hc

end Voyeur
