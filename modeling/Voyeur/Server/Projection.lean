import Mathlib.Data.List.Nodup
import Mathlib.Logic.Relation
import Voyeur.Server.Steps
import Voyeur.Transition.System

/-! # From the server to its connections

Every step of the server moves each connection by the rules of one connection.
In every run without failing reads the callbacks of each connection are therefore
those of `serveConnection` on its stream.
-/

namespace Voyeur

open Transition (Reach)

/-- What the server is doing with a connection. -/
def Phase.mode (phase : Phase) : Side → Mode
  | .absent | .queued => .fresh
  | .closed why => .closed why
  | .accepted fd =>
      match phase with
      | .message fd' prog acc _ => if fd' = fd then .handling prog acc else .idle
      | .undefined => .stopped
      | _ => .idle

/-- The phases in which no message is being read. -/
def Phase.Between (phase : Phase) : Prop := ∀ fd, phase.mode (.accepted fd) = .idle

namespace Config

def view (c : Config) (i : ℕ) : View where
  taken := (c.conns i).taken
  queue := (c.conns i).queue
  hungUp := (c.conns i).hungUp
  calls := c.callsOf i
  mode := c.phase.mode (c.conns i).side

/-- The descriptors of connections are those under which they were accepted. -/
structure WellFormed (c : Config) : Prop where
  conn_iff : ∀ fd i, c.table fd = some (.conn i) ↔ (c.conns i).side = .accepted fd
  queued : ∀ i ∈ c.backlog, (c.conns i).side = .queued
  nodup : c.backlog.Nodup

theorem WellFormed.congr {c c' : Config} (h : c.WellFormed) (ht : c'.table = c.table)
    (hb : c'.backlog = c.backlog) (hs : ∀ i, (c'.conns i).side = (c.conns i).side) :
    c'.WellFormed := by
  refine ⟨fun fd i => ?_, fun i hi => ?_, hb ▸ h.nodup⟩
  · rw [ht, hs]
    exact h.conn_iff fd i
  · rw [hs]
    exact h.queued i (hb ▸ hi)

theorem setConn_side {c : Config} {i : ℕ} {conn : Conn} (h : conn.side = (c.conns i).side)
    (j : ℕ) : ((c.setConn i conn).conns j).side = (c.conns j).side := by
  by_cases hj : j = i
  · subst hj
    simpa [setConn] using h
  · simp [setConn, hj]

theorem close_conns_of_ne {c : Config} {fd i : ℕ} (h : c.table fd ≠ some (.conn i))
    (why : Cause) : (c.close fd why).conns i = c.conns i := by
  rcases ht : c.table fd with _ | _ | _ | j | _ <;> simp only [close, ht]
  have hi : i ≠ j := by
    rintro rfl
    exact h ht
  simp [hi]

theorem close_conns_self {c : Config} {fd i : ℕ} (h : c.table fd = some (.conn i))
    (why : Cause) : (c.close fd why).conns i = { c.conns i with side := .closed why } := by
  simp [close, h]

theorem WellFormed.side_ne {c : Config} (hw : c.WellFormed) {fd i j : ℕ}
    (ht : c.table fd = some (.conn i)) (hj : j ≠ i) : (c.conns j).side ≠ .accepted fd := by
  rw [ne_eq, ← hw.conn_iff, ht]
  simpa using hj.symm

theorem WellFormed.close {c : Config} (h : c.WellFormed) (fd : ℕ) (why : Cause) :
    (c.close fd why).WellFormed := by
  refine ⟨fun fd' i => ?_, fun i hi => ?_, h.nodup⟩
  · by_cases hc : c.table fd = some (.conn i)
    · -- The connection loses its only descriptor.
      rw [close_conns_self hc]
      simp only [reduceCtorEq, iff_false]
      intro ht
      by_cases hf : fd' = fd
      · simp [Config.close, hf] at ht
      · have hi : (c.conns i).side = .accepted fd' := by
          rw [← h.conn_iff]
          simpa [Config.close, hf] using ht
        rw [(h.conn_iff fd i).mp hc, Side.accepted.injEq] at hi
        exact hf hi.symm
    · rw [close_conns_of_ne hc, ← h.conn_iff]
      by_cases hf : fd' = fd
      · subst hf
        simp [Config.close, hc]
      · simp [Config.close, hf]
  · have hc : c.table fd ≠ some (.conn i) := by
      intro hc
      have hs := h.queued i hi
      rw [(h.conn_iff fd i).mp hc] at hs
      cases hs
    rw [close_conns_of_ne hc]
    exact h.queued i hi

theorem WellFormed.setTable {c : Config} (h : c.WellFormed) {fd : ℕ} {o : Option Object}
    (hc : ∀ i, c.table fd ≠ some (.conn i)) (ho : ∀ i, o ≠ some (.conn i)) :
    WellFormed { c with table := Function.update c.table fd o } := by
  refine ⟨fun fd' i => ?_, h.queued, h.nodup⟩
  rw [← h.conn_iff]
  by_cases hf : fd' = fd
  · subst hf
    simp [hc, ho]
  · simp [hf]

theorem readStatus_frame {c c' : Config} {fd : ℕ} (h : c.readStatus fd = some c') :
    c'.table = c.table ∧ c'.backlog = c.backlog ∧ c'.log = c.log ∧ c'.conns = c.conns ∧
      c'.child = c.child ∧ c'.active = c.active := by
  unfold readStatus at h
  split at h
  · obtain ⟨-, h⟩ := Option.ite_none_right_eq_some.mp h
    cases h
    simp only [setStatus]
    split <;> exact ⟨rfl, rfl, rfl, rfl, rfl, rfl⟩
  · cases h

end Config

open Config

variable {S : Setup} {c c' : Config} {a : Action}

theorem Step.wellFormed (h : Step S c a c') (hw : c.WellFormed) : c'.WellFormed := by
  cases h with
  | @connect i hi hl =>
    refine ⟨fun fd j => ?_, fun j hj => ?_, ?_⟩
    · by_cases hji : j = i
      · subst hji
        have hn : c.table fd ≠ some (.conn j) := by
          intro ht
          rw [hw.conn_iff, hi] at ht
          cases ht
        simpa [setConn] using hn
      · simpa [setConn, hji] using hw.conn_iff fd j
    · by_cases hji : j = i
      · subst hji
        simp [setConn]
      · have hb : j ∈ c.backlog := by simpa [setConn, hji] using hj
        simpa [setConn, hji] using hw.queued j hb
    · have hb : i ∉ c.backlog := by
        intro hb
        rw [hw.queued i hb] at hi
        cases hi
      have hn : (c.backlog.concat i).Nodup := List.Nodup.concat hb hw.nodup
      simpa [List.concat_eq_append] using hn
  | @accept fd i backlog todo hp hb hl hf =>
    have hi : (c.conns i).side = .queued := hw.queued i (by simp [hb])
    have hn := hw.nodup
    rw [hb, List.nodup_cons] at hn
    refine ⟨fun fd' j => ?_, fun j hj => ?_, hn.2⟩
    · by_cases hji : j = i
      · subst hji
        by_cases hfd : fd' = fd
        · simp [hfd]
        · have ht : c.table fd' ≠ some (.conn j) := by
            intro ht
            rw [hw.conn_iff, hi] at ht
            cases ht
          simp [hfd, ht, Ne.symm hfd]
      · by_cases hfd : fd' = fd
        · subst hfd
          have hs : (c.conns j).side ≠ .accepted fd' := by
            rw [ne_eq, ← hw.conn_iff, hf]
            simp
          simp [hji, hs, Ne.symm hji]
        · simpa [hji, hfd] using hw.conn_iff fd' j
    · have hji : j ≠ i := by
        rintro rfl
        exact hn.1 hj
      simpa [hji] using hw.queued j (by simp [hb, hj])
  | send | hangUp =>
    exact hw.congr rfl rfl (setConn_side rfl)
  | read =>
    exact hw.congr rfl rfl (setConn_side rfl)
  | hostOpens hf => exact hw.setTable (by simp [hf]) (by simp)
  | hostCloses hf => exact hw.setTable (by simp [hf]) (by simp)
  | childTerminates | select | selectInterrupted | selectFails | acceptFails | readEnd | readFails
  | passEnd | start | next | call | fault | returns => exact ⟨hw.conn_iff, hw.queued, hw.nodup⟩
  | error => exact (hw.close _ _).congr rfl rfl fun _ => rfl
  | finish => exact (hw.close _ _).congr rfl rfl fun _ => rfl
  | leave => exact (hw.close _ _).congr rfl rfl fun _ => rfl
  | straggler => exact (hw.close _ _).congr rfl rfl fun _ => rfl
  | @status c₁ todo hp hr =>
    obtain ⟨h1, h2, -, h4, -⟩ := readStatus_frame hr
    exact ((hw.congr h1 h2 fun i => by rw [h4]).close _ _).congr rfl rfl fun _ => rfl

open Relation (ReflTransGen)

/-- The phases in which no message is read, or none from another descriptor than `fd`. -/
def Phase.Apart (phase : Phase) (fd : ℕ) : Prop :=
  ∀ fd', fd' ≠ fd → phase.mode (.accepted fd') = .idle

theorem Phase.Between.apart {phase : Phase} (h : phase.Between) (fd : ℕ) : phase.Apart fd :=
  fun fd' _ => h fd'

theorem between_head : Phase.head.Between := fun _ => rfl
theorem between_scan (todo : List (ℕ × Report)) : (Phase.scan todo).Between := fun _ => rfl
theorem between_leave : Phase.leave.Between := fun _ => rfl
theorem between_stragglers (todo : List ℕ) : (Phase.stragglers todo).Between := fun _ => rfl
theorem between_returned (result : ℤ) : (Phase.returned result).Between := fun _ => rfl

theorem apart_message (fd : ℕ) (prog : Rd Verdict) (acc : Bytes) (todo : List (ℕ × Report)) :
    (Phase.message fd prog acc todo).Apart fd := fun _ hf => if_neg (Ne.symm hf)

theorem Phase.Apart.mode_eq {phase phase' : Phase} {fd : ℕ} (h : phase.Apart fd)
    (h' : phase'.Apart fd) {side : Side} (hs : side ≠ .accepted fd) :
    phase.mode side = phase'.mode side := by
  cases side with
  | accepted fd' =>
    have hf : fd' ≠ fd := by
      rintro rfl
      exact hs rfl
    rw [h fd' hf, h' fd' hf]
  | absent | queued | closed => rfl

theorem moves_of_eq {v v' : View} (h : v' = v) : ReflTransGen (Moves S) v v' := by
  rw [h]

theorem moves_apart {fd i : ℕ} (hs : (c.conns i).side ≠ .accepted fd) (hp : c.phase.Apart fd)
    (hp' : c'.phase.Apart fd) (hc : c'.conns i = c.conns i) (hl : c'.callsOf i = c.callsOf i) :
    ReflTransGen (Moves S) (c.view i) (c'.view i) :=
  moves_of_eq (by simp only [view, hc, hl, hp.mode_eq hp' hs])

theorem moves_between {i : ℕ} (hp : c.phase.Between) (hp' : c'.phase.Between)
    (hc : c'.conns i = c.conns i) (hl : c'.log = c.log) :
    ReflTransGen (Moves S) (c.view i) (c'.view i) := by
  have hm : c'.phase.mode (c.conns i).side = c.phase.mode (c.conns i).side := by
    cases (c.conns i).side with
    | accepted fd => rw [hp fd, hp' fd]
    | absent | queued | closed => rfl
  exact moves_of_eq (by simp only [view, hc, callsOf, hl, hm])

theorem moves_stopped {i : ℕ}
    (hp : ∀ fd, (c.conns i).side = .accepted fd → c.phase.mode (.accepted fd) = .idle)
    (hp' : c'.phase = .undefined) (hc : c'.conns i = c.conns i) (hl : c'.log = c.log) :
    ReflTransGen (Moves S) (c.view i) (c'.view i) := by
  cases hi : (c.conns i).side with
  | accepted fd =>
    have hm : (c.view i).mode = .idle := by
      simp only [view, hi, hp fd hi]
    refine .trans (.single (.stop hm)) (moves_of_eq ?_)
    simp [view, hc, hi, hp', Phase.mode, callsOf, hl]
  | absent | queued | closed =>
    refine moves_of_eq ?_
    simp [view, hc, hi, Phase.mode, callsOf, hl]

theorem moves_close (hw : c.WellFormed) (hp : c.phase.Between) (hp' : c'.phase.Between) (fd : ℕ)
    (why : Cause) (hy : ∀ verdict, why ≠ .message verdict)
    (hc : c'.conns = (c.close fd why).conns) (hl : c'.log = c.log) (i : ℕ) :
    ReflTransGen (Moves S) (c.view i) (c'.view i) := by
  by_cases ht : c.table fd = some (.conn i)
  · have hs := (hw.conn_iff fd i).mp ht
    have hm : (c.view i).mode = .idle := by
      simp only [view, hs, hp fd]
    have hv : c'.view i = { c.view i with mode := .closed why } := by
      simp only [view, hc, close_conns_self ht, callsOf, hl]
      rfl
    rw [hv]
    exact .single (.close why hm hy)
  · exact moves_between hp hp' (by rw [hc, close_conns_of_ne ht]) hl

/-- Every step of the server moves each connection by the rules of one connection. -/
theorem Step.moves (h : Step S c a c') (hw : c.WellFormed) (ha : a ≠ .readFails) (i : ℕ) :
    ReflTransGen (Moves S) (c.view i) (c'.view i) := by
  cases h with
  | readFails => exact absurd rfl ha
  | childTerminates | hostOpens | hostCloses | selectInterrupted => exact .refl
  | select hp => exact moves_between (hp ▸ between_head) (between_scan _) rfl rfl
  | selectFails hp => exact moves_between (hp ▸ between_head) between_leave rfl rfl
  | acceptFails hp => exact moves_between (hp ▸ between_scan _) (between_scan _) rfl rfl
  | passEnd hp =>
    refine moves_between (hp ▸ between_scan _) ?_ rfl rfl
    cases c.childExited
    · exact between_head
    · exact between_leave
  | returns hp => exact moves_between (hp ▸ between_stragglers _) (between_returned _) rfl rfl
  | @error fd todo hp =>
    refine moves_close hw (hp ▸ between_scan _) ?_ fd .error (by simp) ?_ ?_ i
    · exact between_scan _
    · rfl
    · rfl
  | leave hp =>
    refine moves_close hw (hp ▸ between_leave) ?_ S.serverSock .exit (by simp) ?_ ?_ i
    · exact between_stragglers _
    · rfl
    · rfl
  | @straggler fd todo hp =>
    refine moves_close hw (hp ▸ between_stragglers _) ?_ fd .exit (by simp) ?_ ?_ i
    · exact between_stragglers _
    · rfl
    · rfl
  | @connect j hj hl =>
    by_cases hi : i = j
    · subst hi
      refine moves_of_eq ?_
      simp [view, setConn, hj, Phase.mode, callsOf]
    · refine moves_of_eq ?_
      simp [view, setConn, hi, callsOf]
  | @send j bytes hj hu =>
    by_cases hi : i = j
    · subst hi
      have hv : (c.setConn i { c.conns i with queue := (c.conns i).queue ++ bytes }).view i =
          { c.view i with queue := (c.view i).queue ++ bytes } := by
        simp [view, setConn, callsOf]
      rw [hv]
      exact .single (.send bytes hu)
    · refine moves_of_eq ?_
      simp [view, setConn, hi, callsOf]
  | @hangUp j hj =>
    by_cases hi : i = j
    · subst hi
      have hv : (c.setConn i { c.conns i with hungUp := true }).view i =
          { c.view i with hungUp := true } := by
        simp [view, setConn, callsOf]
      rw [hv]
      exact .single .hangUp
    · refine moves_of_eq ?_
      simp [view, setConn, hi, callsOf]
  | @accept fd j backlog todo hp hb hl hf =>
    have hj : (c.conns j).side = .queued := hw.queued j (by simp [hb])
    by_cases hi : i = j
    · subst hi
      have hm : (c.view i).mode = .fresh := by
        simp only [view, hj, Phase.mode]
      have ht : (c.view i).taken = (c.conns i).taken := rfl
      refine .trans (.single (.accept hm)) ?_
      by_cases hfd : fd < fdSetSize
      · refine moves_of_eq ?_
        simp [view, hfd, Phase.mode, callsOf]
      · refine .trans (.single (.stop rfl)) (moves_of_eq ?_)
        simp [view, hfd, Phase.mode, callsOf]
    · by_cases hfd : fd < fdSetSize
      · refine moves_between (hp ▸ between_scan _) ?_ ?_ rfl
        · simpa only [hfd, if_true] using between_scan todo
        · simp [hi]
      · refine moves_stopped (fun fd' _ => by rw [hp]; rfl) (by simp [hfd]) (by simp [hi]) rfl
  | @read n fd j prog acc todo hp hj h0 hq hn =>
    by_cases hi : i = j
    · subst hi
      have hs := (hw.conn_iff fd i).mp hj
      have hm : (c.view i).mode = .handling prog acc := by
        simp [view, hs, hp, Phase.mode]
      refine .trans (.single (.read n hm h0 hq hn)) (moves_of_eq ?_)
      simp [view, setConn, hs, Phase.mode, callsOf]
    · refine moves_apart (hw.side_ne hj hi) (hp ▸ apart_message _ _ _ _) ?_ ?_ rfl
      · exact apart_message _ _ _ _
      · simp [setConn, hi]
  | @readEnd n fd j k acc todo hp hj hn hq hu =>
    by_cases hi : i = j
    · subst hi
      have hs := (hw.conn_iff fd i).mp hj
      have hm : (c.view i).mode = .handling (.read n k) acc := by
        simp [view, hs, hp, Phase.mode]
      refine .trans (.single (.readEnd hm hn hq hu)) (moves_of_eq ?_)
      simp [view, hs, Phase.mode, callsOf]
    · refine moves_apart (hw.side_ne hj hi) (hp ▸ apart_message _ _ _ _) ?_ rfl rfl
      exact apart_message _ _ _ _
  | @status c₁ todo hp hr =>
    obtain ⟨h1, -, h3, h4, -⟩ := readStatus_frame hr
    refine moves_close hw (hp ▸ between_scan _) ?_ S.childPipe .exit (by simp) ?_ ?_ i
    · exact between_scan _
    · simp only [close, fdClr, h1, h4]
    · exact h3
  | @start fd todo hp hs hc =>
    by_cases hi : (c.conns i).side = .accepted fd
    · have hm : (c.view i).mode = .idle := by
        simp [view, hi, hp, Phase.mode]
      refine .trans (.single (.start hm)) (moves_of_eq ?_)
      simp [view, hi, Phase.mode, callsOf]
    · exact moves_apart hi (hp ▸ (between_scan _).apart fd) (apart_message _ _ _ _) rfl rfl
  | @next fd verdict acc todo hp hv =>
    by_cases hi : (c.conns i).side = .accepted fd
    · have hm : (c.view i).mode = .handling (.done verdict) acc := by
        simp [view, hi, hp, Phase.mode]
      refine .trans (.single (.next hm hv)) (moves_of_eq ?_)
      simp [view, hi, Phase.mode, callsOf]
    · exact moves_apart hi (hp ▸ apart_message _ _ _ _) ((between_scan _).apart fd) rfl rfl
  | @finish fd verdict acc todo hp hv =>
    by_cases hi : (c.conns i).side = .accepted fd
    · have ht := (hw.conn_iff fd i).mpr hi
      have hm : (c.view i).mode = .handling (.done verdict) acc := by
        simp [view, hi, hp, Phase.mode]
      refine .trans (.single (.finish hm hv)) (moves_of_eq ?_)
      simp [view, close, ht, Phase.mode, callsOf, fdClr]
    · refine moves_apart hi (hp ▸ apart_message _ _ _ _) ((between_scan _).apart fd) ?_ rfl
      exact close_conns_of_ne (fun ht => hi ((hw.conn_iff fd i).mp ht)) _
  | @call fd j call prog acc todo hp hj =>
    by_cases hi : i = j
    · subst hi
      have hs := (hw.conn_iff fd i).mp hj
      have hm : (c.view i).mode = .handling (.emit call prog) acc := by
        simp [view, hs, hp, Phase.mode]
      refine .trans (.single (.call hm)) (moves_of_eq ?_)
      simp [view, hs, Phase.mode, callsOf]
    · refine moves_apart (hw.side_ne hj hi) (hp ▸ apart_message _ _ _ _) ?_ rfl ?_
      · exact apart_message _ _ _ _
      · simp [callsOf, Ne.symm hi]
  | @fault fd acc todo hp =>
    by_cases hi : (c.conns i).side = .accepted fd
    · have hm : (c.view i).mode = .handling .fault acc := by
        simp [view, hi, hp, Phase.mode]
      refine .trans (.single (.fault hm)) (moves_of_eq ?_)
      simp [view, hi, Phase.mode, callsOf]
    · refine moves_stopped (fun fd' hi' => ?_) rfl rfl rfl
      rw [hp]
      refine apart_message _ _ _ _ fd' ?_
      rintro rfl
      exact hi hi'

theorem Follows.moves {v v' : View} (h : Follows S v) (hm : ReflTransGen (Moves S) v v') :
    Follows S v' := by
  induction hm with
  | refl => exact h
  | tail _ hm ih => exact hm.follows ih

theorem init_wellFormed (S : Setup) (host : ℕ → Bool) : (init S host).WellFormed := by
  refine ⟨fun fd i => ?_, fun i hi => (List.not_mem_nil hi).elim, List.nodup_nil⟩
  simp only [init, reduceCtorEq, iff_false]
  split_ifs <;> simp

/-- In a run without failing reads the callbacks of each connection follow its stream. -/
theorem reach_follows {ok : Config → Action → Prop} (hok : ∀ c a, ok c a → a ≠ .readFails)
    {host : ℕ → Bool} (h : Reach (step S) ok (init S host) c) :
    c.WellFormed ∧ ∀ i, Follows S (c.view i) := by
  refine h.invariant (I := fun c => c.WellFormed ∧ ∀ i, Follows S (c.view i)) ?_ ?_
  · exact ⟨init_wellFormed S host, fun i => ⟨rfl, rfl⟩⟩
  · rintro c a c' ⟨hw, hf⟩ ho hs
    have hst := step_sound hs
    exact ⟨hst.wellFormed hw, fun i => (hf i).moves (hst.moves hw (hok c a ho) i)⟩

end Voyeur
