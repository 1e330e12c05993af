import Voyeur.Server.Connection

/-! # The steps of the server

Everything that one step of the server can do, one case for each branch of the
loop and for each choice of its environment. Each descriptor that refers to a
connection is the one under which the server accepted it.
-/

namespace Voyeur

variable (S : Setup)

/-- What a step does, and when it is possible. -/
inductive Step (c : Config) : Action → Config → Prop
  | connect {i : ℕ} :
      (c.conns i).side = .absent → c.table S.serverSock = some .listener →
      Step c (.connect i)
        { c.setConn i { c.conns i with side := .queued } with backlog := c.backlog ++ [i] }
  | send {i : ℕ} {bytes : Bytes} :
      c.linked S i = true → (c.conns i).hungUp = false →
      Step c (.send i bytes) (c.setConn i { c.conns i with queue := (c.conns i).queue ++ bytes })
  | hangUp {i : ℕ} :
      (c.conns i).side ≠ .absent →
      Step c (.hangUp i) (c.setConn i { c.conns i with hungUp := true })
  | childTerminates {status seen : CInt} :
      c.child = none →
      Step c (.childTerminates status seen)
        { c with child := some status, pipe := waitpidThread seen }
  | hostOpens {fd : ℕ} :
      c.table fd = none →
      Step c (.hostOpens fd) { c with table := Function.update c.table fd (some .other) }
  | hostCloses {fd : ℕ} :
      c.table fd = some .other →
      Step c (.hostCloses fd) { c with table := Function.update c.table fd none }
  | select {reported : List (ℕ × Report)} :
      c.phase = .head → c.Reportable reported →
      Step c (.select reported) { c with phase := .scan reported }
  | selectInterrupted : c.phase = .head → Step c .selectInterrupted c
  | selectFails : c.phase = .head → Step c .selectFails { c with phase := .leave }
  | accept {fd i : ℕ} {backlog : List ℕ} {todo : List (ℕ × Report)} :
      c.phase = .scan ((S.serverSock, .readable) :: todo) → c.backlog = i :: backlog →
      c.table S.serverSock = some .listener → c.table fd = none →
      Step c (.accept fd)
        { c with
          backlog := backlog
          table := Function.update c.table fd (some (.conn i))
          conns := Function.update c.conns i { c.conns i with side := .accepted fd }
          active := if fd < fdSetSize then Function.update c.active fd true else c.active
          phase := if fd < fdSetSize then .scan todo else .undefined }
  | acceptFails {todo : List (ℕ × Report)} :
      c.phase = .scan ((S.serverSock, .readable) :: todo) →
      Step c .acceptFails { c with phase := .scan todo }
  | read {n fd i : ℕ} {prog : Rd Verdict} {acc : Bytes} {todo : List (ℕ × Report)} :
      c.phase = .message fd prog acc todo → c.table fd = some (.conn i) →
      0 < n → n ≤ (c.conns i).queue.length → acc.length + n ≤ prog.wants →
      Step c (.read n)
        { c.setConn i { c.conns i with
            taken := (c.conns i).taken ++ (c.conns i).queue.take n
            queue := (c.conns i).queue.drop n } with
          phase := .message fd (prog.feed (acc ++ (c.conns i).queue.take n)).1
            (prog.feed (acc ++ (c.conns i).queue.take n)).2 todo }
  | readEnd {n fd i : ℕ} {k : Option Bytes → Rd Verdict} {acc : Bytes}
      {todo : List (ℕ × Report)} :
      c.phase = .message fd (.read n k) acc todo → c.table fd = some (.conn i) →
      acc.length < n → (c.conns i).queue = [] → (c.conns i).hungUp = true →
      Step c .readEnd { c with phase := .message fd (k none) [] todo }
  | readFails {n fd i : ℕ} {k : Option Bytes → Rd Verdict} {acc : Bytes}
      {todo : List (ℕ × Report)} :
      c.phase = .message fd (.read n k) acc todo → c.table fd = some (.conn i) →
      acc.length < n →
      Step c .readFails { c with phase := .message fd (k none) [] todo }
  | passEnd :
      c.phase = .scan [] →
      Step c .advance { c with phase := if c.childExited then .leave else .head }
  | error {fd : ℕ} {todo : List (ℕ × Report)} :
      c.phase = .scan ((fd, .error) :: todo) →
      Step c .advance { (c.close fd .error).fdClr fd with phase := .scan todo }
  | status {c' : Config} {todo : List (ℕ × Report)} :
      c.phase = .scan ((S.childPipe, .readable) :: todo) → c.readStatus S.childPipe = some c' →
      Step c .advance
        { (c'.close S.childPipe .exit).fdClr S.childPipe with
          childExited := true, phase := .scan todo }
  | start {fd : ℕ} {todo : List (ℕ × Report)} :
      c.phase = .scan ((fd, .readable) :: todo) → fd ≠ S.serverSock → fd ≠ S.childPipe →
      Step c .advance { c with phase := .message fd (handleMessage S.malloc S.context) [] todo }
  | next {fd : ℕ} {verdict : Verdict} {acc : Bytes} {todo : List (ℕ × Report)} :
      c.phase = .message fd (.done verdict) acc todo → 0 ≤ verdict.code →
      Step c .advance { c with phase := .scan todo }
  | finish {fd : ℕ} {verdict : Verdict} {acc : Bytes} {todo : List (ℕ × Report)} :
      c.phase = .message fd (.done verdict) acc todo → verdict.code < 0 →
      Step c .advance { (c.close fd (.message verdict)).fdClr fd with phase := .scan todo }
  | call {fd i : ℕ} {call : Call} {prog : Rd Verdict} {acc : Bytes}
      {todo : List (ℕ × Report)} :
      c.phase = .message fd (.emit call prog) acc todo → c.table fd = some (.conn i) →
      Step c .advance { c with log := c.log ++ [(i, call)], phase := .message fd prog acc todo }
  | fault {fd : ℕ} {acc : Bytes} {todo : List (ℕ × Report)} :
      c.phase = .message fd .fault acc todo → Step c .advance { c with phase := .undefined }
  | leave :
      c.phase = .leave →
      Step c .advance { c.close S.serverSock .exit with
        phase := .stragglers ((List.range fdSetSize).filter c.active) }
  | returns :
      c.phase = .stragglers [] →
      Step c .advance { c with phase := .returned (exitResult c.childStatus) }
  | straggler {fd : ℕ} {todo : List ℕ} :
      c.phase = .stragglers (fd :: todo) →
      Step c .advance { c.close fd .exit with phase := .stragglers todo }

variable {S} {c c' : Config} {a : Action}

theorem advance_sound (h : c.advance S = some c') : Step S c .advance c' := by
  unfold Config.advance at h
  split at h
  · next hp => cases h; exact .passEnd hp
  · next fd todo hp => cases h; exact .error hp
  · next fd todo hp =>
    split at h
    · cases h
    · next hs =>
      split at h
      · next hc =>
        subst hc
        obtain ⟨c₁, h₁, rfl⟩ := Option.map_eq_some_iff.mp h
        exact .status hp h₁
      · next hc => cases h; exact .start hp hs hc
  · next fd v acc todo hp =>
    split at h
    · next hv => cases h; exact .next hp hv
    · next hv => cases h; exact .finish hp (by omega)
  · next fd call prog acc todo hp =>
    split at h
    · next i hi => cases h; exact .call hp hi
    · cases h
  · next hp => cases h; exact .fault hp
  · cases h
  · next hp => cases h; exact .leave hp
  · next hp => cases h; exact .returns hp
  · next fd todo hp => cases h; exact .straggler hp
  · cases h
  · cases h
  · cases h

theorem accept_sound {fd : ℕ} (h : c.accept S fd = some c') : Step S c (.accept fd) c' := by
  unfold Config.accept at h
  split at h
  · next s todo i backlog hp hb =>
    split at h
    · next hs =>
      obtain ⟨rfl, hl, hf⟩ := hs
      cases h
      exact .accept hp hb hl hf
    · cases h
  · cases h

theorem read_sound {n : ℕ} (h : c.read n = some c') : Step S c (.read n) c' := by
  unfold Config.read at h
  split at h
  · next fd prog acc todo hp =>
    split at h
    · next i hi =>
      simp only at h
      split at h
      · next hn => cases h; exact .read hp hi hn.1 hn.2.1 hn.2.2
      · cases h
    · cases h
  · cases h

theorem readNothing_sound {possible : Conn → Bool} (h : c.readNothing possible = some c') :
    ∃ n k fd i acc todo, c.phase = .message fd (.read n k) acc todo ∧
      c.table fd = some (.conn i) ∧ acc.length < n ∧ possible (c.conns i) = true ∧
      c' = { c with phase := .message fd (k none) [] todo } := by
  unfold Config.readNothing at h
  split at h
  · next fd n k acc todo hp =>
    split at h
    · next i hi =>
      split at h
      · next hn => cases h; exact ⟨n, k, fd, i, acc, todo, hp, hi, hn.1, hn.2, rfl⟩
      · cases h
    · cases h
  · cases h

/-- The step function makes these steps only. -/
theorem step_sound (h : c.step S a = some c') : Step S c a c' := by
  cases a with
  | accept fd => exact accept_sound h
  | read n => exact read_sound h
  | readEnd =>
    rw [Config.step] at h
    obtain ⟨n, k, fd, i, acc, todo, hp, hi, ha, hq, rfl⟩ := readNothing_sound h
    simp only [Bool.and_eq_true, decide_eq_true_eq] at hq
    exact .readEnd hp hi ha hq.1 hq.2
  | readFails =>
    rw [Config.step] at h
    obtain ⟨n, k, fd, i, acc, todo, hp, hi, ha, -, rfl⟩ := readNothing_sound h
    exact .readFails hp hi ha
  | advance => exact advance_sound h
  | connect i =>
    obtain ⟨hi, h⟩ := Option.ite_none_right_eq_some.mp h
    cases h
    exact .connect hi.1 hi.2
  | send i bytes =>
    obtain ⟨hi, h⟩ := Option.ite_none_right_eq_some.mp h
    cases h
    exact .send hi.1 hi.2
  | hangUp i =>
    obtain ⟨hi, h⟩ := Option.ite_none_right_eq_some.mp h
    cases h
    exact .hangUp hi
  | childTerminates status seen =>
    obtain ⟨hc, h⟩ := Option.ite_none_right_eq_some.mp h
    cases h
    exact .childTerminates hc
  | hostOpens fd =>
    obtain ⟨hf, h⟩ := Option.ite_none_right_eq_some.mp h
    cases h
    exact .hostOpens hf
  | hostCloses fd =>
    obtain ⟨hf, h⟩ := Option.ite_none_right_eq_some.mp h
    cases h
    exact .hostCloses hf
  | select reported =>
    simp only [Config.step] at h
    split at h
    · next hp =>
      split at h
      · next hr => cases h; exact .select hp hr
      · cases h
    · cases h
  | selectInterrupted =>
    simp only [Config.step] at h
    split at h
    · next hp => cases h; exact .selectInterrupted hp
    · cases h
  | selectFails =>
    simp only [Config.step] at h
    split at h
    · next hp => cases h; exact .selectFails hp
    · cases h
  | acceptFails =>
    simp only [Config.step] at h
    split at h
    · next s todo hp =>
      split at h
      · next hs => subst hs; cases h; exact .acceptFails hp
      · cases h
    · cases h

end Voyeur
