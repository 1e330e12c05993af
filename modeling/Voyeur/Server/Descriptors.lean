import Voyeur.Server.Projection

/-! # The descriptors of the loop

Which descriptors a pass of the loop may still visit, and what they refer to. The
child's pipe keeps its descriptor until its status is read, and the listening socket
never shares its descriptor with a connection.
-/

namespace Voyeur

open Transition (Reach)

/-- The reports that the pass has still to visit. -/
def Phase.todo : Phase → List (ℕ × Report)
  | .scan todo | .message _ _ _ todo => todo
  | _ => []

/-- The loop has not been left. -/
def Phase.Running : Phase → Prop
  | .head | .scan _ | .message .. => True
  | _ => False

instance (phase : Phase) : Decidable phase.Running := by
  unfold Phase.Running
  split <;> infer_instance

/-- The value that `run_server` has returned. -/
def Phase.result : Phase → Option ℤ
  | .returned result => some result
  | _ => none

structure Descriptors (S : Setup) (c : Config) : Prop where
  sorted : (c.phase.todo.map Prod.fst).Pairwise (· < ·)
  head : c.phase = .head → c.childExited = false
  pipe : c.phase.Running → c.childExited = false → c.table S.childPipe = some .childPipe
  visit : ∀ r, (S.childPipe, r) ∈ c.phase.todo → c.childExited = false ∧ r = .readable
  message : ∀ fd prog acc todo, c.phase = .message fd prog acc todo →
    fd ≠ S.childPipe ∧ ∀ r ∈ todo, fd < r.1
  listener : ∀ i, c.table S.serverSock ≠ some (.conn i)

variable {S : Setup} {c c' : Config} {a : Action}

theorem Descriptors.congr (h : Descriptors S c) (hp : c'.phase = c.phase)
    (he : c'.childExited = c.childExited)
    (ht : c.phase.Running → c.table S.childPipe = some .childPipe →
      c'.table S.childPipe = some .childPipe)
    (hl : ∀ i, c'.table S.serverSock ≠ some (.conn i)) : Descriptors S c' := by
  refine ⟨hp ▸ h.sorted, ?_, ?_, ?_, hp ▸ h.message, hl⟩
  · rw [hp, he]
    exact h.head
  · rw [hp, he]
    exact fun hr hx => ht hr (h.pipe hr hx)
  · rw [hp, he]
    exact h.visit

theorem close_table_ne {fd fd' : ℕ} (h : fd' ≠ fd) (why : Cause) :
    (c.close fd why).table fd' = c.table fd' := by
  simp [Config.close, h]

theorem close_listener (h : ∀ i, c.table S.serverSock ≠ some (.conn i)) (fd : ℕ) (why : Cause)
    (i : ℕ) : (c.close fd why).table S.serverSock ≠ some (.conn i) := by
  by_cases hf : S.serverSock = fd
  · simp [Config.close, hf]
  · rw [close_table_ne hf]
    exact h i

theorem Descriptors.rest {r : ℕ × Report} {todo : List (ℕ × Report)} (h : Descriptors S c)
    (hp : c.phase = .scan (r :: todo)) (hp' : c'.phase.todo = todo)
    (hn : c'.phase ≠ .head) (he : c'.childExited = c.childExited)
    (ht : c.childExited = false → c'.table S.childPipe = some .childPipe)
    (hm : ∀ fd prog acc todo, c'.phase = .message fd prog acc todo →
      fd ≠ S.childPipe ∧ ∀ r ∈ todo, fd < r.1)
    (hl : ∀ i, c'.table S.serverSock ≠ some (.conn i)) : Descriptors S c' := by
  have hs := h.sorted
  rw [hp] at hs
  refine ⟨?_, fun hh => absurd hh hn, fun _ hx => ht (he ▸ hx), fun s hs' => ?_, hm, hl⟩
  · rw [hp']
    exact (List.pairwise_cons.mp hs).2
  · rw [he]
    refine h.visit s ?_
    rw [hp]
    exact List.mem_cons_of_mem _ (hp' ▸ hs')

theorem Step.descriptors (h : Step S c a c') (hd : Descriptors S c) : Descriptors S c' := by
  cases h with
  | connect | send | hangUp | childTerminates | selectInterrupted =>
    exact hd.congr rfl rfl (fun _ ht => ht) hd.listener
  | @hostOpens fd hf =>
    refine hd.congr rfl rfl (fun _ ht => ?_) fun i => ?_
    · have hn : S.childPipe ≠ fd := by
        rintro rfl
        rw [hf] at ht
        cases ht
      simpa [hn] using ht
    · by_cases hn : S.serverSock = fd
      · simp [hn]
      · simpa [hn] using hd.listener i
  | @hostCloses fd hf =>
    refine hd.congr rfl rfl (fun _ ht => ?_) fun i => ?_
    · have hn : S.childPipe ≠ fd := by
        rintro rfl
        rw [hf] at ht
        cases ht
      simpa [hn] using ht
    · by_cases hn : S.serverSock = fd
      · simp [hn]
      · simpa [hn] using hd.listener i
  | select hp hr =>
    have hx := hd.head hp
    have ht := hd.pipe (hp ▸ trivial) hx
    refine ⟨hr.1, by simp, fun _ _ => ht, fun r hr' => ⟨hx, ?_⟩, by simp, hd.listener⟩
    cases r with
    | readable => rfl
    | error => exact absurd ht ((hr.2 _ hr').2.2.2 rfl)
  | selectFails hp =>
    exact ⟨.nil, by simp, fun hr => hr.elim, by simp [Phase.todo], by simp, hd.listener⟩
  | @accept fd i backlog todo hp hb hl hf =>
    have hn : S.serverSock ≠ fd := by
      rintro rfl
      rw [hf] at hl
      cases hl
    have hl' : ∀ j, Function.update c.table fd (some (.conn i)) S.serverSock ≠ some (.conn j) := by
      intro j
      simpa [hn] using hd.listener j
    by_cases hfd : fd < fdSetSize
    · simp only [hfd, if_true]
      refine hd.rest hp rfl (by simp) rfl (fun hx => ?_) (by simp) hl'
      have ht := hd.pipe (hp ▸ trivial) hx
      have hc : S.childPipe ≠ fd := by
        rintro rfl
        rw [hf] at ht
        cases ht
      simpa [hc] using ht
    · simp only [hfd, if_false]
      exact ⟨.nil, by simp, fun hr => hr.elim, by simp [Phase.todo], by simp, hl'⟩
  | acceptFails hp =>
    exact hd.rest hp rfl (by simp) rfl (hd.pipe (hp ▸ trivial)) (by simp) hd.listener
  | read hp hi | readEnd hp hi | readFails hp hi | call hp hi =>
    have hm := hd.message _ _ _ _ hp
    have hs := hd.sorted
    have hv := hd.visit
    have ht := hd.pipe (hp ▸ trivial)
    rw [hp] at hs hv
    refine ⟨hs, by simp, fun _ => ht, hv, ?_, hd.listener⟩
    rintro fd' prog' acc' todo' he
    rw [Phase.message.injEq] at he
    obtain ⟨rfl, -, -, rfl⟩ := he
    exact hm
  | passEnd hp =>
    have ht := hd.pipe (hp ▸ trivial)
    by_cases hx : c.childExited = true
    · simp only [if_pos hx]
      exact ⟨.nil, by simp, fun hr => hr.elim, by simp [Phase.todo], by simp, hd.listener⟩
    · simp only [if_neg hx]
      exact ⟨.nil, fun _ => eq_false_of_ne_true hx, fun _ => ht, by simp [Phase.todo], by simp,
        hd.listener⟩
  | @error fd todo hp =>
    have hn : S.childPipe ≠ fd := by
      rintro rfl
      have hv := hd.visit .error
      rw [hp] at hv
      cases (hv (List.mem_cons_self)).2
    refine hd.rest hp rfl (by simp) rfl (fun hx => ?_) (by simp)
      (close_listener hd.listener fd .error)
    exact (close_table_ne hn .error).trans (hd.pipe (hp ▸ trivial) hx)
  | @status c₁ todo hp hr =>
    have hs := hd.sorted
    rw [hp] at hs
    obtain ⟨hlt, hs⟩ := List.pairwise_cons.mp hs
    refine ⟨hs, by simp, by simp, fun r hr' => ?_, by simp, ?_⟩
    · exact absurd (hlt S.childPipe (List.mem_map_of_mem hr')) (lt_irrefl _)
    · refine close_listener (c := c₁) ?_ S.childPipe .exit
      rw [(Config.readStatus_frame hr).1]
      exact hd.listener
  | @start fd todo hp hn hc =>
    refine hd.rest hp rfl (by simp) rfl (hd.pipe (hp ▸ trivial)) ?_ hd.listener
    have hs := hd.sorted
    rw [hp] at hs
    rintro fd' prog' acc' todo' he
    rw [Phase.message.injEq] at he
    obtain ⟨rfl, -, -, rfl⟩ := he
    exact ⟨hc, fun r hr => (List.pairwise_cons.mp hs).1 _ (List.mem_map_of_mem hr)⟩
  | next hp hv =>
    have hs := hd.sorted
    have hi := hd.visit
    rw [hp] at hs hi
    exact ⟨hs, by simp, fun _ => hd.pipe (hp ▸ trivial), hi, by simp, hd.listener⟩
  | @finish fd verdict acc todo hp hv =>
    have hn := (hd.message _ _ _ _ hp).1.symm
    have hs := hd.sorted
    have hi := hd.visit
    rw [hp] at hs hi
    refine ⟨hs, by simp, fun _ hx => ?_, hi, by simp, ?_⟩
    · exact (close_table_ne hn (.message verdict)).trans (hd.pipe (hp ▸ trivial) hx)
    · exact close_listener hd.listener fd (.message verdict)
  | fault hp | returns hp =>
    exact ⟨.nil, by simp, fun hr => hr.elim, by simp [Phase.todo], by simp, hd.listener⟩
  | leave hp =>
    exact ⟨.nil, by simp, fun hr => hr.elim, by simp [Phase.todo], by simp,
      close_listener hd.listener S.serverSock .exit⟩
  | @straggler fd todo hp =>
    exact ⟨.nil, by simp, fun hr => hr.elim, by simp [Phase.todo], by simp,
      close_listener hd.listener fd .exit⟩

theorem init_descriptors (S : Setup) (host : ℕ → Bool) : Descriptors S (Config.init S host) := by
  refine ⟨.nil, fun _ => rfl, fun _ _ => ?_, by simp [Config.init, Phase.todo], ?_, fun i => ?_⟩
  · simp [Config.init, S.serverSock_ne.symm]
  · simp [Config.init]
  · simp [Config.init]

theorem reach_descriptors {ok : Config → Action → Prop} {host : ℕ → Bool}
    (h : Reach (Config.step S) ok (Config.init S host) c) : Descriptors S c :=
  h.invariant (init_descriptors S host) fun _ _ _ hd _ hs => (step_sound hs).descriptors hd

theorem Step.side (h : Step S c a c') (hw : c.WellFormed) (i : ℕ) :
    (c'.conns i).side = (c.conns i).side ∨
    (a = .connect i ∧ (c.conns i).side = .absent) ∨
    (∃ fd, a = .accept fd ∧ (c.conns i).side = .queued ∧ (c'.conns i).side = .accepted fd ∧
      c.table S.serverSock = some .listener) ∨
    ∃ fd why, (c.conns i).side = .accepted fd ∧ (c'.conns i).side = .closed why := by
  have hclose : ∀ fd why, ((c.close fd why).conns i).side = (c.conns i).side ∨
      ∃ fd' why', (c.conns i).side = .accepted fd' ∧
        ((c.close fd why).conns i).side = .closed why' := by
    intro fd why
    by_cases ht : c.table fd = some (.conn i)
    · refine .inr ⟨fd, why, (hw.conn_iff fd i).mp ht, ?_⟩
      rw [Config.close_conns_self ht]
    · exact .inl (by rw [Config.close_conns_of_ne ht])
  cases h with
  | @connect j hj =>
    by_cases hi : i = j
    · subst hi
      exact .inr (.inl ⟨rfl, hj⟩)
    · exact .inl (by simp [Config.setConn, hi])
  | send | hangUp | read =>
    refine .inl (Config.setConn_side ?_ i)
    rfl
  | @accept fd j backlog todo hp hb hl hf =>
    by_cases hi : i = j
    · subst hi
      exact .inr (.inr (.inl ⟨fd, rfl, hw.queued i (by simp [hb]), by simp, hl⟩))
    · exact .inl (by simp [hi])
  | @error fd =>
    rcases hclose fd .error with hs | ⟨fd', why, hs⟩
    · exact .inl hs
    · exact .inr (.inr (.inr ⟨fd', why, hs⟩))
  | @finish fd verdict =>
    rcases hclose fd (.message verdict) with hs | ⟨fd', why, hs⟩
    · exact .inl hs
    · exact .inr (.inr (.inr ⟨fd', why, hs⟩))
  | leave =>
    rcases hclose S.serverSock .exit with hs | ⟨fd', why, hs⟩
    · exact .inl hs
    · exact .inr (.inr (.inr ⟨fd', why, hs⟩))
  | @straggler fd =>
    rcases hclose fd .exit with hs | ⟨fd', why, hs⟩
    · exact .inl hs
    · exact .inr (.inr (.inr ⟨fd', why, hs⟩))
  | @status c₁ todo hp hr =>
    obtain ⟨h1, -, -, h4, -⟩ := Config.readStatus_frame hr
    have hc : (c₁.close S.childPipe .exit).conns = (c.close S.childPipe .exit).conns := by
      simp only [Config.close, h1, h4]
    rcases hclose S.childPipe .exit with hs | ⟨fd, why, hs⟩
    · exact .inl ((congrArg (fun conns => (conns i).side) hc).trans hs)
    · refine .inr (.inr (.inr ⟨fd, why, hs.1, ?_⟩))
      exact (congrArg (fun conns => (conns i).side) hc).trans hs.2
  | childTerminates | hostOpens | hostCloses | select | selectInterrupted | selectFails
  | acceptFails | readEnd | readFails | passEnd | start | next | call | fault | returns =>
    exact .inl rfl

theorem Step.listens (h : Step S c a c') (hl : c'.table S.serverSock = some .listener) :
    c.table S.serverSock = some .listener := by
  have hupdate : ∀ fd o, o ≠ some .listener →
      Function.update c.table fd o S.serverSock = some .listener →
      c.table S.serverSock = some .listener := by
    intro fd o ho hu
    by_cases hf : S.serverSock = fd
    · rw [hf, Function.update_self] at hu
      exact absurd hu ho
    · rwa [Function.update_of_ne hf] at hu
  cases h with
  | @hostOpens fd => exact hupdate fd (some .other) (by simp) hl
  | accept hp hb hs => exact hs
  | @hostCloses fd | @error fd | @finish fd | @straggler fd => exact hupdate fd none (by simp) hl
  | leave => exact hupdate S.serverSock none (by simp) hl
  | @status c₁ todo hp hr =>
    refine hupdate S.childPipe none (by simp) ?_
    rw [← (Config.readStatus_frame hr).1]
    exact hl
  | connect | send | hangUp | childTerminates | select | selectInterrupted | selectFails
  | acceptFails | read | readEnd | readFails | passEnd | start | next | call | fault | returns =>
    exact hl

theorem Step.linked (h : Step S c a c') (hw : c.WellFormed) {i : ℕ}
    (hl : c'.linked S i = true) : c.linked S i = true ∨ a = .connect i := by
  have hlisten := h.listens
  unfold Config.linked at hl ⊢
  rcases h.side hw i with hs | ⟨rfl, -⟩ | ⟨fd, -, hq, -, ht⟩ | ⟨fd, why, -, hs⟩
  · rw [hs] at hl
    refine .inl ?_
    cases hc : (c.conns i).side <;> simp [hc] at hl ⊢
    exact hlisten hl
  · exact .inr rfl
  · exact .inl (by simp [hq, ht])
  · simp [hs] at hl

theorem Step.absent (h : Step S c a c') (hw : c.WellFormed) {i : ℕ}
    (hs : (c'.conns i).side = .absent) : c'.conns i = c.conns i := by
  have hset : ∀ j conn, conn.side ≠ .absent → ((c.setConn j conn).conns i).side = .absent →
      (c.setConn j conn).conns i = c.conns i := by
    intro j conn hn hs
    by_cases hi : i = j
    · subst hi
      exact absurd (by simpa [Config.setConn] using hs) hn
    · simp [Config.setConn, hi]
  have hclose : ∀ fd why, ((c.close fd why).conns i).side = .absent →
      (c.close fd why).conns i = c.conns i := by
    intro fd why hs
    by_cases ht : c.table fd = some (.conn i)
    · rw [Config.close_conns_self ht] at hs
      cases hs
    · exact Config.close_conns_of_ne ht why
  cases h with
  | @connect j => exact hset j _ (by simp) hs
  | @send j bytes hl =>
    refine hset j _ (fun hj => ?_) hs
    simp only at hj
    simp [Config.linked, hj] at hl
  | @hangUp j hj => exact hset j _ hj hs
  | @read n fd j prog acc todo hp ht =>
    refine hset j _ (fun hj => ?_) hs
    have ha := (hw.conn_iff fd j).mp ht
    simp only at hj
    rw [ha] at hj
    cases hj
  | @accept fd j =>
    by_cases hi : i = j
    · simp [hi] at hs
    · simp [hi]
  | @error fd => exact hclose fd .error hs
  | @finish fd verdict => exact hclose fd (.message verdict) hs
  | leave => exact hclose S.serverSock .exit hs
  | @straggler fd => exact hclose fd .exit hs
  | @status c₁ todo hp hr =>
    obtain ⟨h1, -, -, h4, -⟩ := Config.readStatus_frame hr
    have hc : (c₁.close S.childPipe .exit).conns = (c.close S.childPipe .exit).conns := by
      simp only [Config.close, h1, h4]
    refine (congrFun hc i).trans (hclose S.childPipe .exit ?_)
    rw [← hc]
    exact hs
  | childTerminates | hostOpens | hostCloses | select | selectInterrupted | selectFails
  | acceptFails | readEnd | readFails | passEnd | start | next | call | fault | returns =>
    rfl

theorem Step.hungUp (h : Step S c a c') {i : ℕ} (hu : (c'.conns i).hungUp = true) :
    (c.conns i).hungUp = true ∨ a = .hangUp i := by
  have hset : ∀ j conn, conn.hungUp = (c.conns j).hungUp →
      ((c.setConn j conn).conns i).hungUp = true → (c.conns i).hungUp = true := by
    intro j conn hc hu
    by_cases hi : i = j
    · subst hi
      simpa [Config.setConn, hc] using hu
    · simpa [Config.setConn, hi] using hu
  have hclose : ∀ fd why, ((c.close fd why).conns i).hungUp = true →
      (c.conns i).hungUp = true := by
    intro fd why hu
    by_cases ht : c.table fd = some (.conn i)
    · rwa [Config.close_conns_self ht] at hu
    · rwa [Config.close_conns_of_ne ht] at hu
  cases h with
  | @connect j | @send j | @read n fd j =>
    refine .inl (hset j _ ?_ hu)
    rfl
  | @hangUp j =>
    by_cases hi : i = j
    · exact .inr (hi ▸ rfl)
    · exact .inl (by simpa [Config.setConn, hi] using hu)
  | @accept fd j =>
    by_cases hi : i = j
    · subst hi
      exact .inl (by simpa using hu)
    · exact .inl (by simpa [hi] using hu)
  | @error fd => exact .inl (hclose fd .error hu)
  | @finish fd verdict => exact .inl (hclose fd (.message verdict) hu)
  | leave => exact .inl (hclose S.serverSock .exit hu)
  | @straggler fd => exact .inl (hclose fd .exit hu)
  | @status c₁ todo hp hr =>
    obtain ⟨h1, -, -, h4, -⟩ := Config.readStatus_frame hr
    have hc : (c₁.close S.childPipe .exit).conns = (c.close S.childPipe .exit).conns := by
      simp only [Config.close, h1, h4]
    refine .inl (hclose S.childPipe .exit ?_)
    rw [← hc]
    exact hu
  | childTerminates | hostOpens | hostCloses | select | selectInterrupted | selectFails
  | acceptFails | readEnd | readFails | passEnd | start | next | call | fault | returns =>
    exact .inl hu

theorem Step.running (h : Step S c a c') (hr : c'.phase.Running) : c.phase.Running := by
  cases h with
  | connect | send | hangUp | childTerminates | hostOpens | hostCloses | selectInterrupted =>
    exact hr
  | select hp | accept hp | acceptFails hp | read hp | readEnd hp | readFails hp | passEnd hp
  | error hp | status hp | start hp | next hp | finish hp | call hp =>
    rw [hp]
    trivial
  | selectFails | fault | leave | returns | straggler => exact hr.elim

/-- `select` reports descriptors as readable only. -/
def Action.Readable : Action → Prop
  | .select reported => ∀ r ∈ reported, r.2 = .readable
  | _ => True

instance (a : Action) : Decidable a.Readable :=
  match a with
  | .connect _ | .send _ _ | .hangUp _ | .childTerminates _ _ | .hostOpens _ | .hostCloses _ |
      .select _ | .selectInterrupted | .selectFails | .accept _ | .acceptFails | .read _ |
      .readEnd | .readFails | .advance => by
    unfold Action.Readable
    infer_instance

/-- In the loop only messages make the server close a connection. -/
structure Serving (S : Setup) (c : Config) : Prop where
  listener : c.phase.Running → c.table S.serverSock = some .listener
  readable : ∀ r ∈ c.phase.todo, r.2 = .readable
  message : ∀ fd prog acc todo, c.phase = .message fd prog acc todo → fd ≠ S.serverSock
  closed : c.phase.Running → ∀ i why, (c.conns i).side = .closed why →
    ∃ verdict, why = .message verdict

theorem Step.keeps_listener (h : Step S c a c') (hs : Serving S c) (hr : c'.phase.Running) :
    c'.table S.serverSock = some .listener := by
  have hl := hs.listener (h.running hr)
  have hupdate : ∀ fd o, S.serverSock ≠ fd →
      Function.update c.table fd o S.serverSock = some .listener := by
    intro fd o hf
    rwa [Function.update_of_ne hf]
  cases h with
  | connect | send | hangUp | childTerminates | select | selectInterrupted | selectFails
  | acceptFails | read | readEnd | readFails | passEnd | start | next | call | fault | returns =>
    exact hl
  | @hostOpens fd hf | @hostCloses fd hf | @accept fd _ _ _ _ _ _ hf =>
    refine hupdate fd _ ?_
    rintro rfl
    rw [hl] at hf
    cases hf
  | error hp =>
    have he := hs.readable
    rw [hp] at he
    cases he _ List.mem_cons_self
  | @status c₁ todo hp hx =>
    refine Eq.trans ?_ (hupdate S.childPipe none S.serverSock_ne)
    simp [Config.close, Config.fdClr, (Config.readStatus_frame hx).1]
  | @finish fd verdict acc todo hp => exact hupdate fd none (hs.message _ _ _ _ hp).symm
  | leave | straggler => exact hr.elim

/-- In the loop no connection is closed for another reason than a message. -/
theorem Step.keeps_closed (h : Step S c a c') (hd : Descriptors S c) (hs : Serving S c)
    (hr : c'.phase.Running) {i : ℕ} {why : Cause} (hc : (c'.conns i).side = .closed why) :
    ∃ verdict, why = .message verdict := by
  have hold := hs.closed (h.running hr) i why
  have hset : ∀ j conn, conn.side = (c.conns j).side →
      ((c.setConn j conn).conns i).side = .closed why → ∃ verdict, why = .message verdict := by
    intro j conn hj hc
    rw [Config.setConn_side hj] at hc
    exact hold hc
  cases h with
  | @connect j =>
    by_cases hi : i = j
    · simp [Config.setConn, hi] at hc
    · exact hold (by simpa [Config.setConn, hi] using hc)
  | @send j | @hangUp j | @read n fd j =>
    refine hset j _ ?_ hc
    rfl
  | @accept fd j =>
    by_cases hi : i = j
    · simp [hi] at hc
    · exact hold (by simpa [hi] using hc)
  | error hp =>
    have he := hs.readable
    rw [hp] at he
    cases he _ List.mem_cons_self
  | @status c₁ todo hp hx =>
    have hv := hd.visit .readable
    rw [hp] at hv
    have ht := hd.pipe (hp ▸ trivial) (hv List.mem_cons_self).1
    obtain ⟨h1, -, -, h4, -⟩ := Config.readStatus_frame hx
    refine hold ?_
    have hconns : (c₁.close S.childPipe .exit).conns = c.conns := by
      simp [Config.close, h1, ht, h4]
    rw [← hconns]
    exact hc
  | @finish fd verdict acc todo hp =>
    by_cases ht : c.table fd = some (.conn i)
    · refine ⟨verdict, ?_⟩
      have hc' : ((c.close fd (.message verdict)).conns i).side = .closed why := hc
      rw [Config.close_conns_self ht] at hc'
      exact (Side.closed.inj hc').symm
    · refine hold ?_
      rw [← Config.close_conns_of_ne ht (.message verdict)]
      exact hc
  | childTerminates | hostOpens | hostCloses | select | selectInterrupted | selectFails
  | acceptFails | readEnd | readFails | passEnd | start | next | call | fault | returns =>
    exact hold hc
  | leave | straggler => exact hr.elim

theorem Step.serving (h : Step S c a c') (ha : a.Readable) (hd : Descriptors S c)
    (hs : Serving S c) : Serving S c' := by
  have hrest : ∀ {p : Phase} {todo : List (ℕ × Report)}, c.phase.todo = todo →
      (∀ r ∈ p.todo, r ∈ todo) → ∀ r ∈ p.todo, r.2 = .readable :=
    fun ht hm r hr => hs.readable r (ht ▸ hm r hr)
  refine ⟨h.keeps_listener hs, ?_, ?_, fun hr i why => h.keeps_closed hd hs hr⟩
  · cases h with
    | connect | send | hangUp | childTerminates | hostOpens | hostCloses | selectInterrupted =>
      exact hs.readable
    | select => exact ha
    | @accept fd i backlog todo hp =>
      refine hrest (congrArg Phase.todo hp) fun r hr => ?_
      by_cases hfd : fd < fdSetSize
      · simp only [if_pos hfd] at hr
        exact List.mem_cons_of_mem _ hr
      · simp only [if_neg hfd] at hr
        exact (List.not_mem_nil hr).elim
    | acceptFails hp | error hp | status hp | start hp =>
      exact hrest (congrArg Phase.todo hp) fun r hr => List.mem_cons_of_mem _ hr
    | read hp | readEnd hp | readFails hp | call hp | next hp | finish hp =>
      exact hrest (congrArg Phase.todo hp) fun r hr => hr
    | passEnd hp =>
      refine hrest (congrArg Phase.todo hp) fun r hr => ?_
      cases hx : c.childExited <;> simp [hx, Phase.todo] at hr
    | selectFails | fault | leave | returns | straggler =>
      exact fun r hr => (List.not_mem_nil hr).elim
  · intro fd prog acc todo hp'
    cases h with
    | connect | send | hangUp | childTerminates | hostOpens | hostCloses | selectInterrupted =>
      exact hs.message fd prog acc todo hp'
    | @accept fd' =>
      simp only at hp'
      split at hp' <;> cases hp'
    | passEnd =>
      simp only at hp'
      split at hp' <;> cases hp'
    | read hp | readEnd hp | readFails hp | call hp =>
      cases hp'
      exact hs.message _ _ _ _ hp
    | start hp hn =>
      cases hp'
      exact hn
    | select | selectFails | acceptFails | error | status | next | finish | fault | leave | returns
    | straggler => cases hp'

theorem init_serving (S : Setup) (host : ℕ → Bool) : Serving S (Config.init S host) := by
  constructor
  · intro _
    simp [Config.init]
  · exact fun r hr => (List.not_mem_nil hr).elim
  · rintro fd prog acc todo ⟨⟩
  · rintro _ i why ⟨⟩

theorem reach_serving {ok : Config → Action → Prop} (hok : ∀ c a, ok c a → a.Readable)
    {host : ℕ → Bool} (h : Reach (Config.step S) ok (Config.init S host) c) : Serving S c := by
  have hi : Descriptors S c ∧ Serving S c := by
    refine h.invariant (I := fun c => Descriptors S c ∧ Serving S c)
      ⟨init_descriptors S host, init_serving S host⟩ ?_
    rintro c a c' ⟨hd, hv⟩ ho hs
    exact ⟨(step_sound hs).descriptors hd, (step_sound hs).serving (hok c a ho) hd hv⟩
  exact hi.2

end Voyeur
