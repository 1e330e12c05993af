import Voyeur.Server.Blocking
import Voyeur.Server.Shutdown
import Voyeur.Transition.Descent

/-! # The passes of the loop

A pass is what the loop does between two calls of `select`. It visits the descriptors that
were reported, each of them once. No client gets more than one event into a pass, however
much it has sent, and no client keeps a pass going forever.
-/

namespace Voyeur

open StreamReader (Modest)
open Transition (Reach)

variable {S : Setup} {c c' c'' : Config} {a : Action} {reported : List (ℕ × Report)}

/-- What a pass from `c` has still to visit keeps its meaning until it is visited. -/
structure InPass (c : Config) (reported : List (ℕ × Report)) (c' : Config) : Prop where
  todo : ∀ r ∈ c'.phase.todo, r ∈ reported ∧ c'.table r.1 = c.table r.1
  message : ∀ fd prog acc todo, c'.phase = .message fd prog acc todo →
    (fd, .readable) ∈ reported ∧ c'.table fd = c.table fd

theorem InPass.rest (h : InPass c reported c') (ht : ∀ r ∈ c''.phase.todo,
      r ∈ c'.phase.todo ∧ c''.table r.1 = c'.table r.1)
    (hm : ∀ fd prog acc todo, c''.phase = .message fd prog acc todo →
      (fd, .readable) ∈ reported ∧ c''.table fd = c.table fd) : InPass c reported c'' := by
  refine ⟨fun r hr => ?_, hm⟩
  obtain ⟨hr', he⟩ := ht r hr
  obtain ⟨hrep, hc⟩ := h.todo r hr'
  exact ⟨hrep, he.trans hc⟩

theorem Descriptors.lt_of_scan (hd : Descriptors S c) {r : ℕ × Report} {todo : List (ℕ × Report)}
    (hp : c.phase = .scan (r :: todo)) : ∀ s ∈ todo, r.1 < s.1 := by
  have hs := hd.sorted
  rw [hp] at hs
  exact fun s hm => (List.pairwise_cons.mp hs).1 _ (List.mem_map_of_mem hm)

theorem Step.inPass (h : Step S c' a c'') (hd : Descriptors S c') (hp : c'.phase ≠ .head)
    (hh : ∀ r ∈ reported, held (c.table r.1) = true) (hi : InPass c reported c') :
    InPass c reported c'' := by
  -- The program of the host touches only what the server does not hold.
  have hhost : ∀ fd o, held (c'.table fd) = false → c''.phase = c'.phase →
      c''.table = Function.update c'.table fd o → InPass c reported c'' := by
    intro fd o hf hp' ht
    have hkeep : ∀ fd', c'.table fd' = c.table fd' → held (c.table fd') = true →
        c''.table fd' = c'.table fd' := by
      intro fd' hc hb
      rw [ht, Function.update_of_ne]
      rintro rfl
      rw [hc, hb] at hf
      cases hf
    refine hi.rest (fun r hr => ?_) fun fd' prog acc todo hm => ?_
    · rw [hp'] at hr
      exact ⟨hr, hkeep r.1 (hi.todo r hr).2 (hh r (hi.todo r hr).1)⟩
    · rw [hp'] at hm
      obtain ⟨hrep, hc⟩ := hi.message _ _ _ _ hm
      exact ⟨hrep, (hkeep fd' hc (hh _ hrep)).trans hc⟩
  -- A close touches the descriptor that was visited, and those behind it are greater.
  have hclose : ∀ {fd todo}, c''.phase = .scan todo → (∀ r ∈ todo, r ∈ c'.phase.todo) →
      (∀ r ∈ todo, fd < r.1) → c''.table = Function.update c'.table fd none →
      InPass c reported c'' := by
    intro fd todo hp' hsub hlt ht
    refine hi.rest (fun r hr => ?_) fun fd' prog acc todo hm => ?_
    · rw [hp'] at hr
      exact ⟨hsub r hr, by rw [ht, Function.update_of_ne (hlt r hr).ne']⟩
    · rw [hp'] at hm
      cases hm
  cases h with
  | connect | send | hangUp | childTerminates => exact ⟨hi.todo, hi.message⟩
  | @hostOpens fd hf => exact hhost fd (some .other) (by simp [hf]) rfl rfl
  | @hostCloses fd hf => exact hhost fd none (by simp [hf]) rfl rfl
  | select hp' | selectInterrupted hp' | selectFails hp' => exact absurd hp' hp
  | @accept fd i backlog todo hp' hb hl hf =>
    have hn : ∀ r ∈ todo, r.1 ≠ fd := by
      rintro r hr rfl
      obtain ⟨hrep, hc⟩ := hi.todo r (hp' ▸ List.mem_cons_of_mem _ hr)
      rw [hf] at hc
      have hb := hh r hrep
      rw [← hc] at hb
      cases hb
    by_cases hfd : fd < fdSetSize
    · simp only [if_pos hfd]
      refine hi.rest (fun r hr => ⟨?_, Function.update_of_ne (hn r hr) _ _⟩) (by simp)
      rw [hp']
      exact List.mem_cons_of_mem _ hr
    · simp only [if_neg hfd]
      exact hi.rest (fun r hr => (List.not_mem_nil hr).elim) (by simp)
  | acceptFails hp' =>
    refine hi.rest (fun r hr => ⟨?_, rfl⟩) (by simp)
    rw [hp']
    exact List.mem_cons_of_mem _ hr
  | start hp' =>
    refine hi.rest (fun r hr => ⟨?_, rfl⟩) ?_
    · rw [hp']
      exact List.mem_cons_of_mem _ hr
    · rintro fd' prog acc todo' he
      cases he
      exact hi.todo _ (hp' ▸ List.mem_cons_self)
  | read hp' | readEnd hp' | readFails hp' | call hp' =>
    refine hi.rest (fun r hr => ⟨?_, rfl⟩) ?_
    · rw [hp']
      exact hr
    · rintro fd' prog acc todo' he
      cases he
      exact hi.message _ _ _ _ hp'
  | next hp' =>
    refine hi.rest (fun r hr => ⟨?_, rfl⟩) (by simp)
    rw [hp']
    exact hr
  | @error fd todo hp' =>
    refine hclose rfl (fun r hr => ?_) (hd.lt_of_scan hp') rfl
    rw [hp']
    exact List.mem_cons_of_mem _ hr
  | @status c₁ todo hp' hr =>
    refine hclose rfl (fun r hr => ?_) (hd.lt_of_scan hp') ?_
    · rw [hp']
      exact List.mem_cons_of_mem _ hr
    · exact congrArg (Function.update · S.childPipe none) (Config.readStatus_frame hr).1
  | @finish fd verdict acc todo hp' hv =>
    refine hclose rfl (fun r hr => ?_) (hd.message _ _ _ _ hp').2 rfl
    rw [hp']
    exact hr
  | passEnd hp' =>
    by_cases hx : c'.childExited = true
    · simp only [if_pos hx]
      exact hi.rest (fun r hr => (List.not_mem_nil hr).elim) (by simp)
    · simp only [if_neg hx]
      exact hi.rest (fun r hr => (List.not_mem_nil hr).elim) (by simp)
  | fault | leave | returns | straggler =>
    exact hi.rest (fun r hr => (List.not_mem_nil hr).elim) (by simp)

/-- In a pass from `c` the client `i` has had the callbacks `calls`, and may have `k` more. -/
structure Spent (c : Config) (i : ℕ) (calls : List Call) (k : ℕ) (c' : Config) : Prop where
  calls : c'.callsOf i = c.callsOf i ++ calls
  todo : ∀ fd, (fd, .readable) ∈ c'.phase.todo → c.table fd = some (.conn i) → 1 ≤ k
  message : ∀ fd prog acc todo, c'.phase = .message fd prog acc todo →
    c.table fd = some (.conn i) → prog.Modest k

theorem Spent.rest {i k : ℕ} {calls : List Call} (h : Spent c i calls k c')
    (hl : c''.log = c'.log) (ht : ∀ r ∈ c''.phase.todo, r ∈ c'.phase.todo)
    (hm : ∀ fd prog acc todo, c''.phase = .message fd prog acc todo →
      c.table fd = some (.conn i) → prog.Modest k) : Spent c i calls k c'' := by
  refine ⟨?_, fun fd hr => h.todo fd (ht _ hr), hm⟩
  rw [Config.callsOf, hl]
  exact h.calls

theorem Spent.call (hw : c.WellFormed) {i k j fd : ℕ} {calls : List Call} {call : Call}
    {prog : Rd Verdict} {acc : Bytes} {todo : List (ℕ × Report)} (h : Spent c i calls k c')
    (hp : c'.phase = .message fd (.emit call prog) acc todo) (hj : c.table fd = some (.conn j))
    (hlt : ∀ r ∈ todo, fd < r.1) :
    ∃ calls' k', calls'.length + k' = calls.length + k ∧ Spent c i calls' k'
      { c' with log := c'.log ++ [(j, call)], phase := .message fd prog acc todo } := by
  by_cases hij : j = i
  · subst hij
    cases h.message _ _ _ _ hp hj with
    | @emit k _ _ hprog =>
      refine ⟨calls ++ [call], k, by simp; omega, ?_, ?_, ?_⟩
      · have hc := h.calls
        unfold Config.callsOf at hc ⊢
        simp [hc]
      · rintro fd' hr ht
        -- No other descriptor refers to the same connection.
        have hs := (hw.conn_iff fd j).mp hj
        rw [(hw.conn_iff fd' j).mp ht, Side.accepted.injEq] at hs
        exact absurd (hlt _ hr) (by simp [hs])
      · rintro fd' prog' acc' todo' he -
        cases he
        exact hprog
  · refine ⟨calls, k, rfl, ?_, ?_, ?_⟩
    · have hc := h.calls
      unfold Config.callsOf at hc ⊢
      simp [hc, hij]
    · rintro fd' hr
      exact h.todo fd' (hp ▸ hr)
    · rintro fd' prog' acc' todo' he ht
      cases he
      rw [ht] at hj
      cases hj
      exact absurd rfl hij

theorem Step.spent (h : Step S c' a c'') (hd : Descriptors S c') (hp : c'.phase ≠ .head)
    (hi : InPass c reported c') (hw : c.WellFormed) {i k : ℕ} {calls : List Call}
    (hs : Spent c i calls k c') :
    ∃ calls' k', calls'.length + k' = calls.length + k ∧ Spent c i calls' k' c'' := by
  cases h with
  | connect | send | hangUp | childTerminates | hostOpens | hostCloses =>
    exact ⟨calls, k, rfl, hs.rest rfl (fun _ hr => hr) hs.message⟩
  | select hp' | selectInterrupted hp' | selectFails hp' => exact absurd hp' hp
  | @accept fd j backlog todo hp' =>
    refine ⟨calls, k, rfl, ?_⟩
    by_cases hfd : fd < fdSetSize
    · simp only [if_pos hfd]
      refine hs.rest rfl (fun r hr => ?_) (by simp)
      rw [hp']
      exact List.mem_cons_of_mem _ hr
    · simp only [if_neg hfd]
      exact hs.rest rfl (fun r hr => (List.not_mem_nil hr).elim) (by simp)
  | acceptFails hp' | error hp' =>
    refine ⟨calls, k, rfl, hs.rest rfl (fun r hr => ?_) (by simp)⟩
    rw [hp']
    exact List.mem_cons_of_mem _ hr
  | @status c₁ todo hp' hr =>
    refine ⟨calls, k, rfl, hs.rest (Config.readStatus_frame hr).2.2.1 (fun r hr => ?_) (by simp)⟩
    rw [hp']
    exact List.mem_cons_of_mem _ hr
  | @start fd todo hp' =>
    refine ⟨calls, k, rfl, hs.rest rfl (fun r hr => ?_) ?_⟩
    · rw [hp']
      exact List.mem_cons_of_mem _ hr
    · rintro fd' prog acc todo' he ht
      cases he
      have hk := hs.todo fd (hp' ▸ List.mem_cons_self) ht
      exact (modest_handleMessage S.malloc S.context).mono hk
  | read hp' =>
    refine ⟨calls, k, rfl, hs.rest rfl (fun r hr => hp' ▸ hr) ?_⟩
    rintro fd' prog' acc' todo' he ht
    cases he
    exact (hs.message _ _ _ _ hp' ht).feed _
  | readEnd hp' | readFails hp' =>
    refine ⟨calls, k, rfl, hs.rest rfl (fun r hr => hp' ▸ hr) ?_⟩
    rintro fd' prog' acc' todo' he ht
    cases he
    cases hs.message _ _ _ _ hp' ht with
    | read _ hk => exact hk none
  | next hp' | finish hp' =>
    exact ⟨calls, k, rfl, hs.rest rfl (fun r hr => hp' ▸ hr) (by simp)⟩
  | call hp' hj =>
    have hj' := (hi.message _ _ _ _ hp').2.symm.trans hj
    exact hs.call hw hp' hj' (hd.message _ _ _ _ hp').2
  | passEnd =>
    refine ⟨calls, k, rfl, ?_⟩
    by_cases hx : c'.childExited = true
    · simp only [if_pos hx]
      exact hs.rest rfl (fun r hr => (List.not_mem_nil hr).elim) (by simp)
    · simp only [if_neg hx]
      exact hs.rest rfl (fun r hr => (List.not_mem_nil hr).elim) (by simp)
  | fault | leave | returns | straggler =>
    exact ⟨calls, k, rfl, hs.rest rfl (fun r hr => (List.not_mem_nil hr).elim) (by simp)⟩

variable {ok : Config → Action → Prop} {host : ℕ → Bool}

theorem reach_wellFormed (h : Reach (Config.step S) ok (Config.init S host) c) : c.WellFormed :=
  h.invariant (init_wellFormed S host) fun _ _ _ hw _ hs => (step_sound hs).wellFormed hw

/-- A whole pass, of which every connection may use up `k` at most. -/
theorem spent_of_pass {i k : ℕ} (hw : c.WellFormed) (hd : Descriptors S c')
    (hh : ∀ r ∈ reported, held (c.table r.1) = true) (hi : InPass c reported c')
    (hs : Spent c i [] k c') (h : Reach (Config.step S) (fun c _ => c.phase ≠ .head) c' c'') :
    ∃ calls k', calls.length + k' = k ∧ Spent c i calls k' c'' := by
  have hinv : Descriptors S c'' ∧ InPass c reported c'' ∧
      ∃ calls k', calls.length + k' = k ∧ Spent c i calls k' c'' := by
    apply h.invariant (I := fun t => Descriptors S t ∧ InPass c reported t ∧
      ∃ calls k', calls.length + k' = k ∧ Spent c i calls k' t)
    · exact ⟨hd, hi, [], k, by simp, hs⟩
    · rintro t a u ⟨hd, hi, calls, k', hk, hs⟩ hp ht
      have hst := step_sound ht
      obtain ⟨calls', k'', hk', hs'⟩ := hst.spent hd hp hi hw hs
      exact ⟨hst.descriptors hd, hst.inPass hd hp hh hi, calls', k'', hk'.trans hk, hs'⟩
  exact hinv.2.2

/--
Between two calls of `select` a connection gets at most one callback, and only if the first
of them reported it as readable, however much its client and the others have sent.
-/
theorem one_call_per_pass (h : Reach (Config.step S) ok (Config.init S host) c)
    (hs : c.step S (.select reported) = some c')
    (h' : Reach (Config.step S) (fun c _ => c.phase ≠ .head) c' c'') (i : ℕ) :
    ∃ calls, c''.callsOf i = c.callsOf i ++ calls ∧ calls.length ≤ 1 ∧
      (calls ≠ [] → ∃ fd, (fd, .readable) ∈ reported ∧ c.table fd = some (.conn i)) := by
  have hst := step_sound hs
  have hd := hst.descriptors (reach_descriptors h)
  have hw := reach_wellFormed h
  cases hst with
  | select hp hr =>
    have hh : ∀ r ∈ reported, held (c.table r.1) = true := by
      intro r hm
      rw [← active_of_run h hp]
      exact (hr.2 r hm).2.1
    have hi : InPass c reported { c with phase := .scan reported } :=
      ⟨fun r hm => ⟨hm, rfl⟩, by simp⟩
    by_cases hx : ∃ fd, (fd, .readable) ∈ reported ∧ c.table fd = some (.conn i)
    · have hs : Spent c i [] 1 { c with phase := .scan reported } :=
        ⟨(List.append_nil _).symm, fun _ _ _ => le_rfl, by simp⟩
      obtain ⟨calls, k, hk, hs⟩ := spent_of_pass hw hd hh hi hs h'
      exact ⟨calls, hs.calls, by omega, fun _ => hx⟩
    · have hs : Spent c i [] 0 { c with phase := .scan reported } :=
        ⟨(List.append_nil _).symm, fun fd hm ht => absurd ⟨fd, hm, ht⟩ hx, by simp⟩
      obtain ⟨calls, k, hk, hs⟩ := spent_of_pass hw hd hh hi hs h'
      exact ⟨calls, hs.calls, by omega, fun hn => absurd (List.length_eq_zero_iff.mp (by omega)) hn⟩

instance (phase : Phase) : Decidable (phase = .head) :=
  match phase with
  | .head => isTrue rfl
  | .scan _ | .message _ _ _ _ | .leave | .stragglers _ | .returned _ | .undefined =>
    isFalse (by simp)

/-- The client has sent two events, and one of them is left for the next pass. -/
theorem one_call_per_pass_flood : ∃ c c' : Config, (c'.conns 0).queue.length = 20 ∧
    c'.log ≠ [] ∧ ∃ calls, c'.callsOf 0 = c.callsOf 0 ++ calls ∧ calls.length ≤ 1 := by
  have hx : ((Transition.exec (Config.step observer) (fun _ _ => True)
      (Config.init observer fun _ => false)
      (writeRun [.close 5 0 12, .close 6 0 12])).any fun c =>
        (c.step observer (.select [(5, .readable)])).any fun c₁ =>
          (Transition.exec (Config.step observer) (fun c _ => c.phase ≠ .head) c₁
            (.advance :: readWords 5 ++ [.advance, .advance, .advance])).any fun c' =>
            decide ((c'.conns 0).queue.length = 20 ∧ c'.log ≠ [])) = true := by
    decide +kernel
  obtain ⟨c, hc, hx⟩ := Transition.exists_reach_of_exec _ hx
  obtain ⟨c₁, hs, hx⟩ := (Option.any_eq_true _ _).mp hx
  obtain ⟨c', h, hx⟩ := Transition.exists_reach_of_exec _ hx
  obtain ⟨hq, hl⟩ := of_decide_eq_true hx
  obtain ⟨calls, hcalls, hlen, -⟩ := one_call_per_pass hc hs h 0
  exact ⟨c, c', hq, hl, calls, hcalls, hlen⟩

/-- The steps of the loop between two calls of `select`. -/
def Action.Turns : Action → Bool
  | .accept _ | .acceptFails | .read _ | .readEnd | .readFails | .advance => true
  | _ => false

def Action.Selects : Action → Bool
  | .select _ | .selectInterrupted | .selectFails => true
  | _ => false

/-- What such a step makes of the phase. -/
inductive PassStep (S : Setup) : Phase → Phase → Prop
  | visited {r : ℕ × Report} {todo : List (ℕ × Report)} :
      PassStep S (.scan (r :: todo)) (.scan todo)
  | crowded {r : ℕ × Report} {todo : List (ℕ × Report)} :
      PassStep S (.scan (r :: todo)) .undefined
  | start {fd : ℕ} {r : ℕ × Report} {todo : List (ℕ × Report)} :
      PassStep S (.scan (r :: todo)) (.message fd (handleMessage S.malloc S.context) [] todo)
  | arrived {fd n : ℕ} {k : Option Bytes → Rd Verdict} {acc acc' : Bytes}
      {todo : List (ℕ × Report)} : acc.length < acc'.length → acc'.length < n →
      PassStep S (.message fd (.read n k) acc todo) (.message fd (.read n k) acc' todo)
  | answered {fd n : ℕ} {k : Option Bytes → Rd Verdict} {acc : Bytes} {r : Option Bytes}
      {todo : List (ℕ × Report)} :
      PassStep S (.message fd (.read n k) acc todo) (.message fd (k r) [] todo)
  | call {fd : ℕ} {call : Call} {prog : Rd Verdict} {acc : Bytes} {todo : List (ℕ × Report)} :
      PassStep S (.message fd (.emit call prog) acc todo) (.message fd prog acc todo)
  | fault {fd : ℕ} {acc : Bytes} {todo : List (ℕ × Report)} :
      PassStep S (.message fd .fault acc todo) .undefined
  | handled {fd : ℕ} {verdict : Verdict} {acc : Bytes} {todo : List (ℕ × Report)} :
      PassStep S (.message fd (.done verdict) acc todo) (.scan todo)
  | again : PassStep S (.scan []) .head
  | leave : PassStep S (.scan []) .leave
  | stragglers {todo : List ℕ} : PassStep S .leave (.stragglers todo)
  | straggler {fd : ℕ} {todo : List ℕ} : PassStep S (.stragglers (fd :: todo)) (.stragglers todo)
  | returned {result : ℤ} : PassStep S (.stragglers []) (.returned result)

theorem Step.passStep (h : Step S c a c') (ha : a.Turns = true) : PassStep S c.phase c'.phase := by
  cases h with
  | connect | send | hangUp | childTerminates | hostOpens | hostCloses | select
  | selectInterrupted | selectFails => cases ha
  | @accept fd i backlog todo hp =>
    rw [hp]
    dsimp only
    split
    · exact .visited
    · exact .crowded
  | acceptFails hp | error hp | status hp =>
    rw [hp]
    exact .visited
  | start hp =>
    rw [hp]
    exact .start
  | @read n fd i prog acc todo hp hi hn hq hle =>
    rw [hp]
    have hlen : (acc ++ (c.conns i).queue.take n).length = acc.length + n := by
      rw [List.length_append, List.length_take_of_le hq]
    cases prog with
    | read m k =>
      dsimp only [StreamReader.feed]
      split
      · exact .answered
      · next hm =>
        refine .arrived ?_ (Nat.not_le.mp hm)
        exact lt_of_lt_of_eq (Nat.lt_add_of_pos_right hn) hlen.symm
    | done | fault | emit =>
      have hw : acc.length + n ≤ 0 := hle
      omega
  | readEnd hp | readFails hp =>
    rw [hp]
    exact .answered
  | call hp =>
    rw [hp]
    exact .call
  | fault hp =>
    rw [hp]
    exact .fault
  | next hp | finish hp =>
    rw [hp]
    exact .handled
  | passEnd hp =>
    rw [hp]
    dsimp only
    split
    · exact .leave
    · exact .again
  | leave hp =>
    rw [hp]
    exact .stragglers
  | straggler hp =>
    rw [hp]
    exact .straggler
  | returns hp =>
    rw [hp]
    exact .returned

-- Each of these steps leads down, as the rest of the pass gets shorter or the message goes on.

theorem acc_message {fd : ℕ} {todo : List (ℕ × Report)}
    (hu : Acc (Function.swap (PassStep S)) .undefined)
    (ht : Acc (Function.swap (PassStep S)) (.scan todo)) (prog : Rd Verdict) (acc : Bytes) :
    Acc (Function.swap (PassStep S)) (.message fd prog acc todo) := by
  induction prog generalizing acc with
  | done verdict =>
    refine .intro _ fun p hp => ?_
    cases hp with
    | handled => exact ht
  | fault =>
    refine .intro _ fun p hp => ?_
    cases hp with
    | fault => exact hu
  | emit call prog ih =>
    refine .intro _ fun p hp => ?_
    cases hp with
    | call => exact ih acc
  | read n k ih =>
    induction hm : n - acc.length using Nat.strong_induction_on generalizing acc with
    | _ m ihm =>
      refine .intro _ fun p hp => ?_
      cases hp with
      | @arrived _ _ _ _ acc' _ hlt hle => exact ihm (n - acc'.length) (by omega) acc' rfl
      | answered => exact ih _ []

theorem wellFounded_passStep (S : Setup) : WellFounded (Function.swap (PassStep S)) := by
  have hu : Acc (Function.swap (PassStep S)) .undefined := .intro _ fun p hp => by cases hp
  have hr : ∀ result, Acc (Function.swap (PassStep S)) (.returned result) :=
    fun result => .intro _ fun p hp => by cases hp
  have hh : Acc (Function.swap (PassStep S)) .head := .intro _ fun p hp => by cases hp
  have hs : ∀ todo, Acc (Function.swap (PassStep S)) (.stragglers todo) := by
    intro todo
    induction todo with
    | nil =>
      refine .intro _ fun p hp => ?_
      cases hp with
      | returned => exact hr _
    | cons fd todo ih =>
      refine .intro _ fun p hp => ?_
      cases hp with
      | straggler => exact ih
  have hl : Acc (Function.swap (PassStep S)) .leave := by
    refine .intro _ fun p hp => ?_
    cases hp with
    | stragglers => exact hs _
  have ht : ∀ todo, Acc (Function.swap (PassStep S)) (.scan todo) := by
    intro todo
    induction todo with
    | nil =>
      refine .intro _ fun p hp => ?_
      cases hp with
      | again => exact hh
      | leave => exact hl
    | cons r todo ih =>
      refine .intro _ fun p hp => ?_
      cases hp with
      | visited => exact ih
      | crowded => exact hu
      | start => exact acc_message hu ih _ []
  refine ⟨fun phase => ?_⟩
  cases phase with
  | head => exact hh
  | scan todo => exact ht todo
  | message fd prog acc todo => exact acc_message hu (ht todo) prog acc
  | leave => exact hl
  | stragglers todo => exact hs todo
  | returned result => exact hr result
  | undefined => exact hu

theorem Step.phase_eq (h : Step S c a c') (ht : a.Turns = false) (hs : a.Selects = false) :
    c'.phase = c.phase := by
  cases h with
  | connect | send | hangUp | childTerminates | hostOpens | hostCloses => rfl
  | select | selectInterrupted | selectFails => cases hs
  | accept | acceptFails | read | readEnd | readFails | passEnd | error | status | start | next
  | finish | call | fault | leave | returns | straggler => cases ht

/--
Every pass ends: in a run without an end in which the loop is never stuck for good,
`select` is called again and again, whatever the clients send in between.
-/
theorem pass_ends {run : ℕ → Config} {acts : ℕ → Action}
    (h : ∀ n, (run n).step S (acts n) = some (run (n + 1)))
    (ht : ∀ k, ∃ n, k ≤ n ∧ (acts n).Turns = true) (k : ℕ) :
    ∃ n, k ≤ n ∧ (acts n).Selects = true := by
  refine Transition.interrupted_infinitely (wellFounded_passStep S) (fun n => (run n).phase)
    (fun n hn => (step_sound (h n)).passStep hn) (fun n hn hs => ?_) ht k
  exact (step_sound (h n)).phase_eq (eq_false_of_ne_true hn) (eq_false_of_ne_true hs)

section

variable {run : ℕ → Config} {acts : ℕ → Action}

theorem phase_eq_head (h : Step S c a c') (hs : a.Selects = true) : c.phase = .head := by
  cases h with
  | select hp | selectInterrupted hp | selectFails hp => exact hp
  | connect | send | hangUp | childTerminates | hostOpens | hostCloses | accept | acceptFails
  | read | readEnd | readFails | passEnd | error | status | start | next | finish | call | fault
  | leave | returns | straggler => cases hs

theorem running_of_turns (h : ∀ n, (run n).step S (acts n) = some (run (n + 1)))
    (ht : ∀ k, ∃ n, k ≤ n ∧ (acts n).Turns = true) (n : ℕ) : (run n).phase.Running := by
  by_contra hn
  have hleft : ∀ m, n ≤ m → ¬ (run m).phase.Running := by
    intro m hm
    induction m, hm using Nat.le_induction with
    | base => exact hn
    | succ m _ ih => exact fun hr => ih ((step_sound (h m)).running hr)
  obtain ⟨m, hm, hs⟩ := pass_ends h ht n
  have hp := phase_eq_head (step_sound (h m)) hs
  exact hleft m hm (hp ▸ trivial)

/--
A connection that `select` reports as readable gets a message read before the next call of
`select`, in every run in which the loop goes on without an end.
-/
theorem served_in_pass {host : ℕ → Bool} (h₀ : run 0 = Config.init S host)
    (h : ∀ n, (run n).step S (acts n) = some (run (n + 1)))
    (ht : ∀ k, ∃ n, k ≤ n ∧ (acts n).Turns = true) {n fd i : ℕ}
    {reported : List (ℕ × Report)} (hs : acts n = .select reported)
    (hr : (fd, .readable) ∈ reported) (hi : ((run n).conns i).side = .accepted fd) :
    ∃ m, n < m ∧ (∀ j, n < j → j < m → (acts j).Selects = false) ∧
      ((run m).view i).mode = .handling (handleMessage S.malloc S.context) [] := by
  have hreach : ∀ m, Reach (Config.step S) (fun _ _ => True) (Config.init S host) (run m) := by
    intro m
    induction m with
    | zero => exact h₀ ▸ .refl
    | succ m ih => exact ih.tail trivial (h m)
  -- As long as no message of it is read, the connection is still to be visited.
  have hdue : ∀ m, n < m → (∃ k, n < k ∧ (∀ j, n < j → j < k → (acts j).Selects = false) ∧
      ((run k).view i).mode = .handling (handleMessage S.malloc S.context) []) ∨
      ((run m).conns i).side = .accepted fd ∧ (fd, .readable) ∈ (run m).phase.todo ∧
        ∀ j, n < j → j < m → (acts j).Selects = false := by
    intro m hm
    induction m, hm using Nat.le_induction with
    | base =>
      have hst := h n
      rw [hs] at hst
      have hp := phase_eq_head (step_sound hst) rfl
      rw [Config.step, hp] at hst
      obtain ⟨-, he⟩ := Option.ite_none_right_eq_some.mp hst
      refine .inr ⟨?_, ?_, fun j hj hj' => absurd hj (by omega)⟩
      · rw [← Option.some.inj he]
        exact hi
      · rw [← Option.some.inj he]
        exact hr
    | succ m hm ih =>
      rcases ih with hx | ⟨hside, hmem, hsel⟩
      · exact .inl hx
      have hst := step_sound (h m)
      have hsel' : ∀ j, n < j → j < m + 1 → (acts j).Selects = false := by
        intro j hj hj'
        rcases Nat.lt_succ_iff_lt_or_eq.mp hj' with hlt | rfl
        · exact hsel j hj hlt
        · refine eq_false_of_ne_true fun ha => ?_
          rw [phase_eq_head hst ha] at hmem
          exact List.not_mem_nil hmem
      rcases hst.reported (reach_descriptors (hreach m)) (reach_wellFormed (hreach m)) hside hmem
        (running_of_turns h ht (m + 1)) with ⟨hside', hmem'⟩ | ⟨-, hv⟩
      · exact .inr ⟨hside', hmem', hsel'⟩
      · exact .inl ⟨m + 1, by omega, hsel', by rw [hv]⟩
  obtain ⟨m, hm, hsel⟩ := pass_ends h ht (n + 1)
  rcases hdue m hm with hx | ⟨-, hmem, -⟩
  · exact hx
  · rw [phase_eq_head (step_sound (h m)) hsel] at hmem
    exact (List.not_mem_nil hmem).elim

end

/-- A client waits to be accepted, and every `accept` fails. -/
def spinning (c : Config) (n : ℕ) : Config :=
  { c with phase := match n % 3 with
      | 0 => .head
      | 1 => .scan [(3, .readable)]
      | _ => .scan [] }

def spinningActs (n : ℕ) : Action :=
  match n % 3 with
  | 0 => .select [(3, .readable)]
  | 1 => .acceptFails
  | _ => .advance

theorem spinning_step (hr : c.Reportable [(3, .readable)]) (hx : c.childExited = false) (n : ℕ) :
    (spinning c n).step observer (spinningActs n) = some (spinning c (n + 1)) := by
  have hcases : n % 3 = 0 ∨ n % 3 = 1 ∨ n % 3 = 2 := by omega
  rcases hcases with h | h | h
  · have h' : (n + 1) % 3 = 1 := by omega
    have hp : (spinning c n).phase = .head := by simp [spinning, h]
    have hr' : (spinning c n).Reportable [(3, .readable)] := hr
    simp only [spinningActs, h, Config.step, hp, if_pos hr']
    simp [spinning, h']
  · have h' : (n + 1) % 3 = 2 := by omega
    simp [spinning, spinningActs, h, h', Config.step, observer]
  · have h' : (n + 1) % 3 = 0 := by omega
    simp [spinning, spinningActs, h, h', Config.step, Config.advance, hx]

theorem spinningActs_turns (k : ℕ) : ∃ n, k ≤ n ∧ (spinningActs n).Turns = true := by
  refine ⟨3 * k + 1, by omega, ?_⟩
  have h : (3 * k + 1) % 3 = 1 := by omega
  rw [spinningActs, h]
  rfl

theorem pass_ends_spinning : ∃ n, 100 ≤ n ∧ (spinningActs n).Selects = true := by
  have hx : ((Transition.exec (Config.step observer) (fun _ _ => True)
      (Config.init observer fun _ => false) [.connect 0]).any fun c =>
        decide (c.Reportable [(3, .readable)] ∧ c.childExited = false)) = true := by
    decide +kernel
  obtain ⟨c, -, hc⟩ := Transition.exists_reach_of_exec _ hx
  obtain ⟨hr, hx⟩ := of_decide_eq_true hc
  exact pass_ends (spinning_step hr hx) spinningActs_turns 100

/-- A client sends an event, and another one waits to be accepted. -/
def sendRun : List Action :=
  [.connect 0, .select [(3, .readable)], .accept 5, .advance,
    .send 0 (eventStream observer.context [.close 5 0 12]), .connect 1]

/-- The second client is not accepted, and the event of the first one is read. -/
def passRun : List Action :=
  .select [(3, .readable), (5, .readable)] ::
    ([.acceptFails, .advance] ++ readWords 5 ++ [.advance, .advance, .advance])

theorem served_in_pass_spinning : ∃ (run : ℕ → Config) (m : ℕ), 6 < m ∧
    ((run m).view 0).mode = .handling (handleMessage observer.malloc observer.context) [] := by
  have hx : ((Transition.exec (Config.step observer) (fun _ _ => True)
      (Config.init observer fun _ => false) sendRun).any fun c =>
        (Transition.exec (Config.step observer) (fun _ _ => True) c passRun).any fun t =>
          decide ((c.conns 0).side = .accepted 5 ∧ t.phase = .head ∧
            t.Reportable [(3, .readable)] ∧ t.childExited = false)) = true := by
    decide +kernel
  obtain ⟨c, hc, hx⟩ := (Option.any_eq_true _ _).mp hx
  obtain ⟨t, ht, hx⟩ := (Option.any_eq_true _ _).mp hx
  obtain ⟨hside, hp, hr, hx⟩ := of_decide_eq_true hx
  have hspin : spinning t 0 = t := by simp [spinning, ← hp]
  obtain ⟨run, acts, rfl, hs, hlater, hacts⟩ :=
    Transition.exists_run_of_exec (hspin.symm ▸ ht) (spinning_step hr hx)
  obtain ⟨run', acts', h₀, hs', hlater', -⟩ := Transition.exists_run_of_exec hc hs
  have hturns : ∀ k, ∃ n, k ≤ n ∧ (acts' n).Turns = true := by
    intro k
    obtain ⟨n, hn, hturn⟩ := spinningActs_turns k
    refine ⟨sendRun.length + (passRun.length + n), by omega, ?_⟩
    rw [(hlater' _).2, (hlater _).2]
    exact hturn
  have hselect : acts' 6 = .select [(3, .readable), (5, .readable)] :=
    (hlater' 0).2.trans (hacts 0 (by decide))
  have hside' : ((run' 6).conns 0).side = .accepted 5 := by
    rw [← hside, ← (hlater' 0).1]
    rfl
  obtain ⟨m, hm, -, hmode⟩ := served_in_pass h₀ hs' hturns hselect (by decide) hside'
  exact ⟨run', m, hm, hmode⟩

end Voyeur
