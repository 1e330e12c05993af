import Voyeur.Threads.Shared

/-! # What the mutexes of the libraries protect

The mutex of a library protects its static variables and its connection. Between two
calls the connection holds the events of all calls so far. At any time every connection
holds the beginning of a sequence of events in the order of the real calls; one that its
library has given up holds all of them, and the mark that the client is done.
-/

namespace Voyeur

theorem Step.hungUp_eq {S : Setup} {c c' : Config} {a : Action} (h : Step S c a c') {i : ℕ}
    (ha : a ≠ .hangUp i) : (c'.conns i).hungUp = (c.conns i).hungUp := by
  have hset : ∀ j conn, (j = i → conn.hungUp = (c.conns j).hungUp) →
      ((c.setConn j conn).conns i).hungUp = (c.conns i).hungUp := by
    intro j conn hc
    by_cases hi : i = j
    · subst hi
      simpa [Config.setConn] using hc rfl
    · simp [Config.setConn, hi]
  have hclose : ∀ fd why, ((c.close fd why).conns i).hungUp = (c.conns i).hungUp := by
    intro fd why
    by_cases ht : c.table fd = some (.conn i)
    · rw [Config.close_conns_self ht]
    · rw [Config.close_conns_of_ne ht]
  cases h with
  | @connect j | @send j | @read n fd j => exact hset j _ fun _ => rfl
  | @hangUp j => exact hset j _ fun hj => absurd (hj ▸ rfl) ha
  | @accept fd j =>
    by_cases hi : i = j
    · subst hi
      simp
    · simp [hi]
  | error | finish | leave | straggler => exact hclose _ _
  | @status c₁ todo hp hr =>
    obtain ⟨h1, -, -, h4, -⟩ := Config.readStatus_frame hr
    have hc : (c₁.close S.childPipe .exit).conns = (c.close S.childPipe .exit).conns := by
      simp only [Config.close, h1, h4]
    exact (congrArg (fun conns => (conns i).hungUp) hc).trans (hclose _ _)
  | childTerminates | hostOpens | hostCloses | select | selectInterrupted | selectFails
  | acceptFails | readEnd | readFails | passEnd | start | next | call | fault | returns => rfl

namespace Threaded

variable (S : Setup)

/-- The server has closed its end of a connection. -/
def Dead (d : Shared) (i : ℕ) : Prop :=
  (d.config.conns i).side ≠ .absent ∧ d.config.linked S i = false

/-- The buffers `bufs` are what is left of the messages `ms`, as long as the server takes them. -/
def Wrote (d : Shared) (i : ℕ) (ms : List Message) (bufs : List Bytes) : Prop :=
  (d.config.conns i).sent ++ bufs.flatten = stream S.context ms ∨
    Dead S d i ∧ (d.config.conns i).sent <+: stream S.context ms

/--
The events `es` are those of the real calls for a connection, apart from the calls `pending`.
Only `posix_spawn` leaves out some.
-/
structure Tells (d : Shared) (l : Lib) (i : ℕ) (es pending : List ClientEvent) : Prop where
  calls : ∃ cs, d.callsOn i = cs ++ pending ∧ es.Sublist cs ∧ (l ≠ .posixSpawn → es = cs)
  type : ∀ e ∈ d.callsOn i, e.type = l.type

/-- A connection that is in use. -/
structure InUse (d : Shared) (l : Lib) (i : ℕ) (es pending : List ClientEvent)
    (ms : List Message) (bufs : List Bytes) : Prop where
  tells : Tells d l i es pending
  open_ : (d.config.conns i).hungUp = false
  wrote : Wrote S d i ms bufs

/-- What a connection holds, at any time. -/
structure Spoken (d : Shared) (l : Lib) (i : ℕ) (es : List ClientEvent) (fin : List Message) :
    Prop where
  ordered : es.Sublist (d.callsOn i)
  complete : l ≠ .posixSpawn → es <+: d.callsOn i
  type : ∀ e ∈ d.callsOn i, e.type = l.type
  mark : fin = [] ∨ fin = [.done]
  sent : (d.config.conns i).sent <+: stream S.context (es.map .event ++ fin)

/-- What a connection holds that its library has given up. -/
structure Finished (d : Shared) (l : Lib) (i : ℕ) (es : List ClientEvent) : Prop where
  tells : Tells d l i es []
  hungUp : (d.config.conns i).hungUp = true
  wrote : Wrote S d i (es.map .event ++ [.done]) []

structure Always (d : Shared) : Prop where
  wellFormed : d.config.WellFormed
  single : ∀ {i k l}, d.conn k = some i → d.conn l = some i → k = l
  made : ∀ {i l}, d.conn l = some i → (d.config.conns i).side ≠ .absent
  untouched : ∀ i, (d.config.conns i).side = .absent →
    d.config.conns i = ⟨[], [], false, .absent⟩ ∧ d.callsOn i = []
  spoken : ∀ i, ∃ l es fin, Spoken S d l i es fin
  finished : ∀ i, (d.config.conns i).side ≠ .absent → (∀ l, d.conn l ≠ some i) →
    ∃ l es, Finished S d l i es

/-- The static variables and the connection of a library between two calls. -/
structure Resource (l : Lib) (d : Shared) : Prop where
  unused : (d.statics l).initialized = false → (d.statics l).sock = none
  inUse : ∀ i, d.conn l = some i → ∃ es, InUse S d l i es [] (es.map .event) []

/-- What every step does. -/
structure Grows (d d' : Shared) : Prop where
  finalized : d.finalized = true → d'.finalized = true
  crashed : d.crashed = true → d'.crashed = true
  dead : ∀ i, Dead S d i → Dead S d' i

/-- The bytes and the calls of a connection are the same. -/
structure Same (d d' : Shared) (i : ℕ) : Prop where
  sent : (d'.config.conns i).sent = (d.config.conns i).sent
  calls : d'.callsOn i = d.callsOn i

/-- What is protected by the mutex of a library is the same. -/
structure Keeps (l : Lib) (d d' : Shared) : Prop where
  statics : d'.statics l = d.statics l
  same : ∀ i, d.conn l = some i → Same d d' i
  hungUp : ∀ i, d.conn l = some i → (d'.config.conns i).hungUp = (d.config.conns i).hungUp

variable {S} {d d' d'' : Shared} {l k : Lib} {i : ℕ} {es pending : List ClientEvent}
  {ms fin : List Message} {bufs : List Bytes}

theorem Same.refl (d : Shared) (i : ℕ) : Same d d i := ⟨rfl, rfl⟩

theorem Same.trans (h : Same d d' i) (h' : Same d' d'' i) : Same d d'' i :=
  ⟨h'.sent.trans h.sent, h'.calls.trans h.calls⟩

theorem Grows.refl (d : Shared) : Grows S d d := ⟨id, id, fun _ => id⟩

theorem Grows.trans (h : Grows S d d') (h' : Grows S d' d'') : Grows S d d'' :=
  ⟨fun hf => h'.finalized (h.finalized hf), fun hc => h'.crashed (h.crashed hc),
    fun i hi => h'.dead i (h.dead i hi)⟩

theorem Keeps.refl (l : Lib) (d : Shared) : Keeps l d d :=
  ⟨rfl, fun i _ => .refl d i, fun _ _ => rfl⟩

theorem Keeps.conn (h : Keeps l d d') : d'.conn l = d.conn l := by
  rw [Shared.conn, h.statics, Shared.conn]

theorem Keeps.trans (h : Keeps l d d') (h' : Keeps l d' d'') : Keeps l d d'' := by
  refine ⟨h'.statics.trans h.statics, fun i hi => ?_, fun i hi => ?_⟩
  · exact (h.same i hi).trans (h'.same i (h.conn ▸ hi))
  · exact (h'.hungUp i (h.conn ▸ hi)).trans (h.hungUp i hi)

theorem Wrote.stable (h : Wrote S d i ms bufs) (hs : Same d d' i) (hg : Grows S d d') :
    Wrote S d' i ms bufs := by
  rcases h with h | ⟨hd, h⟩
  · exact .inl (hs.sent ▸ h)
  · exact .inr ⟨hg.dead i hd, hs.sent ▸ h⟩

theorem Wrote.sent_prefix (h : Wrote S d i ms bufs) :
    (d.config.conns i).sent <+: stream S.context ms := by
  rcases h with h | ⟨-, h⟩
  · exact ⟨_, h⟩
  · exact h

theorem Tells.stable (h : Tells d l i es pending) (hs : Same d d' i) :
    Tells d' l i es pending := by
  obtain ⟨hc, ht⟩ := h
  exact ⟨hs.calls ▸ hc, hs.calls ▸ ht⟩

theorem InUse.stable (h : InUse S d l i es pending ms bufs) (hk : Keeps l d d')
    (hg : Grows S d d') (hi : d.conn l = some i) : InUse S d' l i es pending ms bufs :=
  ⟨h.tells.stable (hk.same i hi), (hk.hungUp i hi).trans h.open_,
    h.wrote.stable (hk.same i hi) hg⟩

theorem Spoken.stable (h : Spoken S d l i es fin) (hs : Same d d' i) : Spoken S d' l i es fin := by
  obtain ⟨ho, hc, ht, hf, hp⟩ := h
  exact ⟨hs.calls ▸ ho, hs.calls ▸ hc, hs.calls ▸ ht, hf, hs.sent ▸ hp⟩

theorem Resource.stable (h : Resource S l d) (hk : Keeps l d d') (hg : Grows S d d') :
    Resource S l d' := by
  refine ⟨fun hi => ?_, fun i hi => ?_⟩
  · rw [hk.statics] at hi ⊢
    exact h.unused hi
  · rw [hk.conn] at hi
    obtain ⟨es, he⟩ := h.inUse i hi
    exact ⟨es, he.stable hk hg hi⟩

theorem InUse.spoken (h : InUse S d l i es pending (es.map .event ++ fin) bufs)
    (hf : fin = [] ∨ fin = [.done]) : Spoken S d l i es fin := by
  obtain ⟨cs, hc, hs, he⟩ := h.tells.calls
  refine ⟨hc ▸ hs.trans (List.sublist_append_left _ _), fun hl => ?_, h.tells.type, hf,
    h.wrote.sent_prefix⟩
  rw [hc, he hl]
  exact List.prefix_append _ _

variable (S) in
/--
What an operation changes under the mutex of a library: its static variables, and its
connection, which may be a new one. A connection of the library `own` may be hung up.
-/
structure Only (own l : Option Lib) (d d' : Shared) : Prop where
  wellFormed : d'.config.WellFormed
  grows : Grows S d d'
  statics : ∀ k, l ≠ some k → d'.statics k = d.statics k
  conn : ∀ k i, l = some k → d'.conn k = some i →
    d.conn k = some i ∨ (d.config.conns i).side = .absent
  side : ∀ i, (d'.config.conns i).side = .absent ↔
    (d.config.conns i).side = .absent ∧ ∀ k, l = some k → d'.conn k ≠ some i
  untouched : ∀ i, (d'.config.conns i).side = .absent → d'.config.conns i = d.config.conns i
  same : ∀ i, (∀ k, l = some k → d.conn k ≠ some i ∧ d'.conn k ≠ some i) → Same d d' i
  hungUp : ∀ i, own.bind d.conn ≠ some i →
    (d'.config.conns i).hungUp = (d.config.conns i).hungUp
  hangsUp : ∀ i, (d.config.conns i).hungUp = true → (d'.config.conns i).hungUp = true

variable {own l' : Option Lib}

theorem Only.conn_eq (h : Only S own l' d d') (hk : l' ≠ some k) : d'.conn k = d.conn k := by
  rw [Shared.conn, h.statics k hk, Shared.conn]

theorem Only.apart (h : Only S own l' d d') (ha : Always S d) (hk : l' ≠ some k)
    (hi : d.conn k = some i) : Same d d' i := by
  refine h.same i fun j hj => ?_
  have hjk : j ≠ k := fun hjk => hk (hjk ▸ hj)
  refine ⟨fun hc => hjk (ha.single hc hi), fun hc => ?_⟩
  rcases h.conn j i hj hc with hc | hc
  · exact hjk (ha.single hc hi)
  · exact ha.made hi hc

theorem Only.keeps (h : Only S own l' d d') (ha : Always S d) (hk : l' ≠ some k)
    (ho : own ≠ some k) : Keeps k d d' := by
  refine ⟨h.statics k hk, fun i hi => h.apart ha hk hi, fun i hi => h.hungUp i ?_⟩
  intro hc
  obtain ⟨j, hj, hc⟩ := Option.bind_eq_some_iff.mp hc
  exact ho (ha.single hc hi ▸ hj)

theorem Only.always (h : Only S own l' d d') (ha : Always S d)
    (hs : ∀ k i, l' = some k → d'.conn k = some i → ∃ l es fin, Spoken S d' l i es fin)
    (hf : ∀ k i, l' = some k → d.conn k = some i → d'.conn k ≠ some i →
      ∃ l es, Finished S d' l i es) : Always S d' := by
  have hold : ∀ k i, d'.conn k = some i →
      d.conn k = some i ∨ l' = some k ∧ (d.config.conns i).side = .absent := by
    intro k i hi
    by_cases hk : l' = some k
    · exact (h.conn k i hk hi).imp_right fun hc => ⟨hk, hc⟩
    · exact .inl (h.conn_eq hk ▸ hi)
  refine ⟨h.wellFormed, ?_, ?_, ?_, ?_, ?_⟩
  · intro i k l hk hl
    rcases hold k i hk with hk | ⟨hk', hk⟩
    · rcases hold l i hl with hl | ⟨-, hl⟩
      · exact ha.single hk hl
      · exact absurd hl (ha.made hk)
    · rcases hold l i hl with hl | ⟨hl', -⟩
      · exact absurd hk (ha.made hl)
      · exact Option.some.inj (hk'.symm.trans hl')
  · intro i l hi hc
    obtain ⟨hc, hn⟩ := (h.side i).mp hc
    rcases hold l i hi with hi' | ⟨hl, -⟩
    · exact ha.made hi' hc
    · exact hn l hl hi
  · intro i hc
    obtain ⟨hc', hn⟩ := (h.side i).mp hc
    obtain ⟨h1, h2⟩ := ha.untouched i hc'
    refine ⟨(h.untouched i hc).trans h1, ?_⟩
    rw [(h.same i fun k hk => ⟨fun hi => ha.made hi hc', hn k hk⟩).calls]
    exact h2
  · intro i
    by_cases hi : ∃ k, l' = some k ∧ d'.conn k = some i
    · obtain ⟨k, hk, hi⟩ := hi
      exact hs k i hk hi
    by_cases hi' : ∃ k, l' = some k ∧ d.conn k = some i
    · obtain ⟨k, hk, hi'⟩ := hi'
      obtain ⟨l, es, he⟩ := hf k i hk hi' fun hc => hi ⟨k, hk, hc⟩
      obtain ⟨cs, hc, hsub, heq⟩ := he.tells.calls
      rw [List.append_nil] at hc
      exact ⟨l, es, [.done], hc ▸ hsub, fun hl => by rw [heq hl, hc], he.tells.type, .inr rfl,
        he.wrote.sent_prefix⟩
    · obtain ⟨l, es, fin, hsp⟩ := ha.spoken i
      exact ⟨l, es, fin, hsp.stable
        (h.same i fun k hk => ⟨fun hc => hi' ⟨k, hk, hc⟩, fun hc => hi ⟨k, hk, hc⟩⟩)⟩
  · intro i hc hn
    by_cases hi' : ∃ k, l' = some k ∧ d.conn k = some i
    · obtain ⟨k, hk, hi'⟩ := hi'
      exact hf k i hk hi' (hn k)
    have hn' : ∀ k, d.conn k ≠ some i := by
      intro k hk
      by_cases hl : l' = some k
      · exact hi' ⟨k, hl, hk⟩
      · exact hn k (h.conn_eq hl ▸ hk)
    have hc' : (d.config.conns i).side ≠ .absent :=
      fun hc' => hc ((h.side i).mpr ⟨hc', fun k _ => hn k⟩)
    obtain ⟨l, es, he⟩ := ha.finished i hc' hn'
    have hsame := h.same i fun k _ => ⟨hn' k, hn k⟩
    exact ⟨l, es, he.tells.stable hsame, h.hangsUp i he.hungUp, he.wrote.stable hsame h.grows⟩

end Threaded

end Voyeur
