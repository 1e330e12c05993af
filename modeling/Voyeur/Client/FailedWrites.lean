import Voyeur.Client.Interpose
import Voyeur.Wire.Transport

/-! # Failed writes

The messages of a connection as the writers send them: every `voyeur_write_*` call ends at
its first `do_write` that fails, and nobody looks at its result, so that the next call is
made. Nothing follows a failure on the wire only if the first send of every later call fails
for good as well.
-/

namespace Voyeur

open LittleEndian (encode decode length_encode decode_encode)
open Transport (Attempt)

/-- The calls that write a message. -/
def Message.calls (options : EventType → Byte) : Message → List WriteCall
  | .event e => e.message (options e.type)
  | .done => [writeMsgType .done]

theorem Message.wire_calls (options : EventType → Byte) (m : Message) :
    wire (m.calls options) = m.bytes options := by
  cases m <;> rfl

/-- A `do_write`: the results of its sends, what it has sent, and whether it returned -1. -/
structure Written where
  used : List Attempt
  put : Bytes
  failed : Bool

/--
`do_write`, with the results of the sends that have come back so far and with those that it
leaves over. It leaves none (not even an empty list) if it is still in a send.
-/
def sendBuffer : List Attempt → Bytes → Written × Option (List Attempt)
  | results, [] => (⟨[], [], false⟩, some results)
  | [], _ :: _ => (⟨[], [], false⟩, none)
  | .moves n :: results, b :: buf =>
    let (w, rest) := sendBuffer results ((b :: buf).drop n)
    ({ w with used := .moves n :: w.used, put := (b :: buf).take n ++ w.put }, rest)
  | .failed errno :: results, b :: buf =>
    if temporary errno then
      let (w, rest) := sendBuffer results (b :: buf)
      ({ w with used := .failed errno :: w.used }, rest)
    else (⟨[.failed errno], [], true⟩, some results)

/-- A `voyeur_write_*` call, which returns -1 as soon as a `do_write` does. -/
def sendCall (results : List Attempt) : WriteCall → List Written × Option (List Attempt)
  | [] => ([], some results)
  | buf :: call =>
    match sendBuffer results buf with
    | (w, none) => ([w], none)
    | (w, some rest) =>
      if w.failed then ([w], some rest)
      else
        let (ws, rest) := sendCall rest call
        (w :: ws, rest)

/-- Calls one after the other. The value of a call is not looked at. -/
def sendCalls (results : List Attempt) : List WriteCall → List Written × Option (List Attempt)
  | [] => ([], some results)
  | call :: calls =>
    match sendCall results call with
    | (ws, none) => (ws, none)
    | (ws, some rest) =>
      let (ws', rest) := sendCalls rest calls
      (ws ++ ws', rest)

/-- All calls of `do_write` for the messages of a connection. -/
def sendMessages (options : EventType → Byte) (ms : List Message) (results : List Attempt) :
    List Written × Option (List Attempt) :=
  sendCalls results (ms.flatMap (Message.calls options))

/-- The bytes on the connection. -/
def onWire (ws : List Written) : Bytes := ws.flatMap Written.put

/-- After a `do_write` that fails nothing is put on the connection, and no message is broken. -/
structure EndsAtFailure (options : EventType → Byte) (ms : List Message)
    (results : List Attempt) : Prop where
  silent : (sendMessages options ms results).1.Pairwise fun w w' => w.failed → w'.put = []
  whole : onWire (sendMessages options ms results).1 <+: ms.flatMap (Message.bytes options)

/-- The send is not made again. -/
def Transport.Attempt.settled : Attempt → Bool
  | .moves _ => true
  | .failed errno => !temporary errno

/-- The sizes of the buffers of a call that are not empty, with the number of calls behind it. -/
def callPieces (call : WriteCall) (left : ℕ) : List (ℕ × ℕ) :=
  ((call.map List.length).filter (· ≠ 0)).map (·, left)

/-- What some calls have to send, one buffer after the other. -/
def pieces : List WriteCall → List (ℕ × ℕ)
  | [] => []
  | call :: calls => callPieces call calls.length ++ pieces calls

/--
How many calls are left at the first result that is a failure for good while there is still
something to send, and the results behind it.
-/
def firstFailure : List Attempt → List (ℕ × ℕ) → Option (ℕ × List Attempt)
  | [], _ => none
  | _, [] => none
  | .moves n :: results, (size, left) :: rest =>
    firstFailure results (if n < size then (size - n, left) :: rest else rest)
  | .failed errno :: results, (size, left) :: rest =>
    if temporary errno then firstFailure results ((size, left) :: rest) else some (left, results)

/--
The first failure for good repeats: as many of the results behind it as there are calls left,
not counting those of sends that are made again, are failures for good as well.
-/
def StaysFailed (calls : List WriteCall) (results : List Attempt) : Prop :=
  ∀ left later, firstFailure results (pieces calls) = some (left, later) →
    ∀ a ∈ (later.filter Attempt.settled).take left, a.Fatal

theorem take_pnat_ne_nil (n : ℕ+) (b : Byte) (buf : Bytes) : (b :: buf).take n ≠ [] := by
  obtain ⟨m, hm⟩ := Nat.exists_eq_succ_of_ne_zero n.ne_zero
  rw [hm, List.take_succ_cons]
  exact List.cons_ne_nil _ _

/--
With something to send, `do_write` looks at the results up to the first one that is no reason
to send again. It is still waiting for it, puts something on the connection, or fails with it.
-/
theorem sendBuffer_cons (results : List Attempt) (b : Byte) (buf : Bytes) :
    (results.filter Attempt.settled = [] ∧ (sendBuffer results (b :: buf)).2 = none ∧
      (sendBuffer results (b :: buf)).1.put = []) ∨
    (∃ n later, results.filter Attempt.settled = .moves n :: later ∧
      (sendBuffer results (b :: buf)).1.put ≠ []) ∨
    (∃ a w rest, results.filter Attempt.settled = a :: rest.filter Attempt.settled ∧ a.Fatal ∧
      sendBuffer results (b :: buf) = (w, some rest) ∧ w.put = [] ∧ w.failed = true) := by
  induction results with
  | nil => exact .inl ⟨rfl, rfl, rfl⟩
  | cons a results ih =>
    cases a with
    | moves n =>
      refine .inr (.inl ⟨n, results.filter Attempt.settled, rfl, ?_⟩)
      rw [sendBuffer]
      exact fun h => take_pnat_ne_nil n b buf (List.append_eq_nil_iff.mp h).1
    | failed errno =>
      rw [sendBuffer]
      split
      · next ht =>
        -- The send is made again, with the same buffer.
        have hf : (Attempt.failed errno :: results).filter Attempt.settled =
            results.filter Attempt.settled :=
          List.filter_cons_of_neg (by simp [Attempt.settled, ht])
        rw [hf]
        rcases ih with ⟨h0, hn, hp⟩ | ⟨n, later, hl, hp⟩ | ⟨a, w, rest, hl, ha, hs, hp, hw⟩
        · exact .inl ⟨h0, hn, hp⟩
        · exact .inr (.inl ⟨n, later, hl, hp⟩)
        · refine .inr (.inr
            ⟨a, { w with used := .failed errno :: w.used }, rest, hl, ha, ?_, hp, hw⟩)
          rw [hs]
      · next ht =>
        have ht' : temporary errno = false := Bool.eq_false_iff.mpr ht
        exact .inr (.inr ⟨.failed errno, _, results,
          List.filter_cons_of_pos (by simp [Attempt.settled, ht']), ht', rfl, rfl, rfl⟩)

theorem firstFailure_sendBuffer (results : List Attempt) (buf : Bytes) (left : ℕ)
    (rest : List (ℕ × ℕ)) :
    firstFailure results (if buf.length = 0 then rest else (buf.length, left) :: rest) =
      (sendBuffer results buf).2.bind fun later =>
        if (sendBuffer results buf).1.failed then some (left, later)
        else firstFailure later rest := by
  induction results, buf using sendBuffer.induct with
  | case1 results =>
    rw [sendBuffer]
    rfl
  | case2 b buf =>
    rw [sendBuffer]
    rfl
  | case3 n results b buf w later h ih =>
    rw [h] at ih
    rw [sendBuffer, h, if_neg (by simp), firstFailure]
    refine Eq.trans (congrArg (firstFailure results) ?_) ih
    rw [List.length_drop]
    split <;> split <;> first | rfl | omega
  | case4 errno results b buf ht w later h ih =>
    rw [h] at ih
    rw [sendBuffer, if_pos ht, h, if_neg (by simp), firstFailure, if_pos ht]
    rw [if_neg (by simp)] at ih
    exact ih
  | case5 errno results b buf ht =>
    rw [sendBuffer, if_neg ht, if_neg (by simp), firstFailure, if_neg ht]
    rfl

theorem put_sendBuffer (results : List Attempt) (buf : Bytes) :
    (sendBuffer results buf).1.put <+: buf ∧
      (∀ rest, (sendBuffer results buf).2 = some rest → (sendBuffer results buf).1.failed = false →
        (sendBuffer results buf).1.put = buf) := by
  induction results, buf using sendBuffer.induct with
  | case1 results =>
    rw [sendBuffer]
    exact ⟨List.nil_prefix, fun _ _ _ => rfl⟩
  | case2 b buf =>
    rw [sendBuffer]
    exact ⟨List.nil_prefix, fun _ h => by cases h⟩
  | case3 n results b buf w rest h ih =>
    rw [h] at ih
    rw [sendBuffer, h]
    refine ⟨?_, ?_⟩
    · conv_rhs => rw [← List.take_append_drop n (b :: buf)]
      exact (List.prefix_append_right_inj _).mpr ih.1
    · intro rest hr hf
      change (b :: buf).take n ++ _ = _
      rw [ih.2 rest hr hf, List.take_append_drop]
  | case4 errno results b buf ht w rest h ih =>
    rw [h] at ih
    rw [sendBuffer, if_pos ht, h]
    exact ih
  | case5 errno results b buf ht =>
    rw [sendBuffer, if_neg ht]
    exact ⟨List.nil_prefix, fun _ _ h => by cases h⟩

@[simp] theorem onWire_append (ws ws' : List Written) :
    onWire (ws ++ ws') = onWire ws ++ onWire ws' := List.flatMap_append

theorem mem_sendCall (results : List Attempt) (buf : Bytes) (call : WriteCall) :
    (sendBuffer results buf).1 ∈ (sendCall results (buf :: call)).1 := by
  rw [sendCall]
  rcases sendBuffer results buf with ⟨w, _ | rest⟩
  · exact List.mem_cons_self
  · simp only
    split <;> exact List.mem_cons_self

theorem subset_sendCalls (results : List Attempt) (call : WriteCall) (calls : List WriteCall) :
    (sendCall results call).1 ⊆ (sendCalls results (call :: calls)).1 := by
  rw [sendCalls]
  rcases sendCall results call with ⟨ws, _ | rest⟩
  · exact List.Subset.refl _
  · exact List.subset_append_left _ _

theorem pairwise_sendCall (results : List Attempt) (call : WriteCall) :
    (sendCall results call).1.Pairwise fun w _ => w.failed = false := by
  induction call generalizing results with
  | nil => exact .nil
  | cons buf call ih =>
    rw [sendCall]
    rcases h : sendBuffer results buf with ⟨w, _ | rest⟩
    · exact List.pairwise_singleton _ _
    · simp only
      split
      · exact List.pairwise_singleton _ _
      · next hf => exact List.pairwise_cons.mpr ⟨fun _ _ => Bool.eq_false_iff.mpr hf, ih rest⟩

theorem callPieces_cons (buf : Bytes) (call : WriteCall) (left : ℕ) :
    callPieces (buf :: call) left =
      if buf.length = 0 then callPieces call left
      else (buf.length, left) :: callPieces call left := by
  unfold callPieces
  rw [List.map_cons, List.filter_cons]
  by_cases h : buf.length = 0
  · rw [if_neg (by simp [h]), if_pos h]
  · rw [if_pos (by simp [h]), if_neg h, List.map_cons]

theorem firstFailure_sendCall (results : List Attempt) (call : WriteCall) (left : ℕ)
    (rest : List (ℕ × ℕ)) :
    firstFailure results (callPieces call left ++ rest) =
      (sendCall results call).2.bind fun later =>
        if (sendCall results call).1.any Written.failed then some (left, later)
        else firstFailure later rest := by
  induction call generalizing results with
  | nil => rfl
  | cons buf call ih =>
    have hp : callPieces (buf :: call) left ++ rest =
        if buf.length = 0 then callPieces call left ++ rest
        else (buf.length, left) :: (callPieces call left ++ rest) := by
      rw [callPieces_cons]
      split <;> rfl
    rw [hp, firstFailure_sendBuffer, sendCall]
    rcases sendBuffer results buf with ⟨w, _ | later⟩
    · rfl
    · simp only [Option.bind_some]
      split
      · next hf => rw [List.any_cons, hf, Bool.true_or, Option.bind_some, if_pos rfl]
      · next hf => simp only [ih later, List.any_cons, Bool.eq_false_iff.mpr hf, Bool.false_or]

/-- Every call has something to send first. -/
def Starts (calls : List WriteCall) : Prop :=
  ∀ call ∈ calls, ∃ b buf rest, call = (b :: buf) :: rest

theorem Starts.append {calls calls' : List WriteCall} (h : Starts calls) (h' : Starts calls') :
    Starts (calls ++ calls') := List.forall_mem_append.mpr ⟨h, h'⟩

theorem Starts.ite {calls : List WriteCall} (h : Starts calls) (b : Bool) :
    Starts (if b then calls else []) := by
  cases b with
  | true => exact h
  | false => exact fun _ hc => by cases hc

theorem starts_word {k : ℕ} (val : BitVec (8 * (k + 1))) (rest : WriteCall)
    {calls : List WriteCall} (h : Starts calls) :
    Starts ((writeWord (k + 1) val ++ rest) :: calls) :=
  List.forall_mem_cons.mpr ⟨⟨_, _, rest, rfl⟩, h⟩

theorem starts_int (val : CInt) {calls : List WriteCall} (h : Starts calls) :
    Starts (writeInt val :: calls) := starts_word (k := 3) val [] h

theorem starts_nil : Starts [] := fun _ hc => by cases hc

theorem starts_writeString (s : Option CStr) {calls : List WriteCall} (h : Starts calls) :
    Starts (writeString s :: calls) := by
  cases s with
  | none => exact starts_word (k := 7) _ _ h
  | some s => exact starts_word (k := 7) _ _ h

theorem starts_writeStrings (entries : List CStr) : Starts (writeStrings entries) := by
  refine starts_int _ ?_
  intro call hc
  obtain ⟨s, -, rfl⟩ := List.mem_map.mp hc
  exact starts_writeString (some s) starts_nil _ List.mem_cons_self

theorem onWire_sendCall (results : List Attempt) (call : WriteCall) :
    onWire (sendCall results call).1 <+: call.flatten ∧
      (∀ rest, (sendCall results call).2 = some rest →
        (∀ w ∈ (sendCall results call).1, w.failed = false) →
          onWire (sendCall results call).1 = call.flatten) := by
  induction call generalizing results with
  | nil => exact ⟨List.nil_prefix, fun _ _ _ => rfl⟩
  | cons buf call ih =>
    obtain ⟨hp, he⟩ := put_sendBuffer results buf
    rw [sendCall, List.flatten_cons]
    rcases h : sendBuffer results buf with ⟨v, _ | rest⟩
    · rw [h] at hp
      have hv : onWire [v] = v.put := by simp [onWire]
      refine ⟨?_, fun _ hr => by cases hr⟩
      change onWire [v] <+: _
      rw [hv]
      exact hp.trans (List.prefix_append _ _)
    · rw [h] at hp he
      have hv : onWire [v] = v.put := by simp [onWire]
      simp only
      split
      · next hf =>
        refine ⟨?_, fun _ _ hn => ?_⟩
        · change onWire [v] <+: _
          rw [hv]
          exact hp.trans (List.prefix_append _ _)
        · exact absurd hf (Bool.eq_false_iff.mp (hn v List.mem_cons_self))
      · next hf =>
        have hb : v.put = buf := he rest rfl (Bool.eq_false_iff.mpr hf)
        have hc : onWire (v :: (sendCall rest call).1) =
            buf ++ onWire (sendCall rest call).1 := by
          rw [onWire, List.flatMap_cons, hb]
          rfl
        simp only [hc]
        refine ⟨(List.prefix_append_right_inj _).mpr (ih rest).1, fun r hr hn => ?_⟩
        rw [(ih rest).2 r hr fun w hw => hn w (List.mem_cons_of_mem _ hw)]

theorem onWire_sendCalls {results : List Attempt} {calls : List WriteCall}
    (h : (sendCalls results calls).1.Pairwise fun w w' => w.failed → w'.put = []) :
    onWire (sendCalls results calls).1 <+: wire calls := by
  induction calls generalizing results with
  | nil => exact List.nil_prefix
  | cons call calls ih =>
    obtain ⟨hp, he⟩ := onWire_sendCall results call
    rw [sendCalls] at h ⊢
    rw [wire_cons]
    rcases hc : sendCall results call with ⟨ws, _ | rest⟩
    · rw [hc] at hp
      exact hp.trans (List.prefix_append _ _)
    · rw [hc] at h hp he
      obtain ⟨-, hr, hx⟩ := List.pairwise_append.mp h
      simp only [onWire_append]
      by_cases hf : ∃ w ∈ ws, w.failed = true
      · -- All that comes after this call is empty.
        obtain ⟨w, hw, hf⟩ := hf
        have hnil : onWire (sendCalls rest calls).1 = [] :=
          List.flatMap_eq_nil_iff.mpr fun w' hw' => hx w hw w' hw' hf
        rw [hnil, List.append_nil]
        exact hp.trans (List.prefix_append _ _)
      · have hn : ∀ w ∈ ws, w.failed = false := fun w hw =>
          Bool.eq_false_iff.mpr fun hf' => hf ⟨w, hw, hf'⟩
        rw [he rest rfl hn]
        exact (List.prefix_append_right_inj _).mpr (ih hr)

/--
After a failure, nothing is put on the connection just if the first send of every later call
that is not made again fails for good.
-/
theorem silent_sendCalls_iff {calls : List WriteCall} (h : Starts calls)
    (results : List Attempt) :
    (∀ w ∈ (sendCalls results calls).1, w.put = []) ↔
      ∀ a ∈ (results.filter Attempt.settled).take calls.length, a.Fatal := by
  induction calls generalizing results with
  | nil => simp [sendCalls]
  | cons call calls ih =>
    obtain ⟨⟨b, buf, call, rfl⟩, ht⟩ := List.forall_mem_cons.mp h
    rw [List.length_cons]
    rcases sendBuffer_cons results b buf with ⟨h0, hn, hp⟩ | ⟨n, later, hl, hp⟩ |
      ⟨a, w, rest, hl, ha, hs, hp, hw⟩
    · rw [sendCalls, sendCall]
      rcases hs : sendBuffer results (b :: buf) with ⟨w, r⟩
      rw [hs] at hn hp
      obtain rfl : r = none := hn
      simpa [h0] using hp
    · -- The next send that is not made again puts bytes on the connection.
      rw [hl, List.take_succ_cons, List.forall_mem_cons]
      refine iff_of_false (fun hx => hp (hx _ ?_)) fun hx => hx.1
      exact subset_sendCalls _ _ _ (mem_sendCall _ _ _)
    · -- The call ends with this failure, and the next one is made.
      rw [sendCalls, sendCall, hs, hl, List.take_succ_cons, List.forall_mem_cons,
        and_iff_right ha, ← ih ht rest]
      simp only [hw, if_true, List.singleton_append, List.forall_mem_cons, and_iff_right hp]

/-- Whether nothing is put behind a failure can be seen from the results and the sizes. -/
theorem pairwise_sendCalls_iff {calls : List WriteCall} (h : Starts calls)
    (results : List Attempt) :
    (sendCalls results calls).1.Pairwise (fun w w' => w.failed → w'.put = []) ↔
      StaysFailed calls results := by
  induction calls generalizing results with
  | nil =>
    refine iff_of_true .nil ?_
    intro left later hl
    cases results with
    | nil => cases hl
    | cons a results => cases a <;> cases hl
  | cons call calls ih =>
    have ht := (List.forall_mem_cons.mp h).2
    have hw := pairwise_sendCall results call
    have hf := firstFailure_sendCall results call calls.length (pieces calls)
    have hin : (sendCall results call).1.Pairwise fun w w' => w.failed → w'.put = [] :=
      hw.imp fun {w w'} hn hy => absurd hy (Bool.eq_false_iff.mp hn)
    rw [StaysFailed, pieces, hf, sendCalls]
    rcases hc : sendCall results call with ⟨ws, _ | rest⟩
    · rw [hc] at hin
      exact iff_of_true hin (by simp)
    · rw [hc] at hin
      simp only [Option.bind_some, List.pairwise_append, and_iff_right hin]
      by_cases hx : ∃ w ∈ ws, w.failed = true
      · -- Here is the first failure: the later calls have to be silent.
        have ha : ws.any Written.failed = true := List.any_eq_true.mpr hx
        obtain ⟨w, hm, hy⟩ := hx
        rw [if_pos ha]
        have hsil := silent_sendCalls_iff ht rest
        constructor
        · rintro ⟨-, hall⟩ left later hl
          cases hl
          exact hsil.mp fun w' hw' => hall w hm w' hw' hy
        · intro hl
          have hall := hsil.mpr (hl _ _ rfl)
          exact ⟨List.pairwise_iff_forall_sublist.mpr fun hsub _ =>
            hall _ (hsub.subset (by simp)), fun _ _ w' hw' _ => hall w' hw'⟩
      · have ha : ¬ ws.any Written.failed = true := fun ha => hx (List.any_eq_true.mp ha)
        rw [if_neg ha]
        refine Iff.trans ?_ (ih ht rest)
        exact and_iff_left fun w hm w' _ hy => absurd ⟨w, hm, hy⟩ hx

theorem wire_flatMap_calls (options : EventType → Byte) (ms : List Message) :
    wire (ms.flatMap (Message.calls options)) = ms.flatMap (Message.bytes options) := by
  induction ms with
  | nil => rfl
  | cons m ms ih => rw [List.flatMap_cons, List.flatMap_cons, wire_append, m.wire_calls, ih]

theorem starts_fields (options : Byte) (e : ClientEvent) : Starts (e.fields options) := by
  cases e with
  | exec path argv envp pathVar cwd pid ppid =>
    have hpids := starts_int pid (starts_int ppid starts_nil)
    have hpath := starts_writeString path starts_nil
    have henv := (starts_writeStrings envp.val).ite (hasFlag options observeExecEnv)
    have hvar := (starts_writeString pathVar starts_nil).ite (hasFlag options observeExecPath)
    have hcwd := (starts_writeString cwd starts_nil).ite (hasFlag options observeExecCwd)
    exact ((((hpath.append (starts_writeStrings argv.val)).append henv).append hvar).append
      hcwd).append hpids
  | exit status pid ppid =>
    exact starts_int _ (starts_int _ (starts_int _ starts_nil))
  | open_ path oflag mode retval cwd pid =>
    have hhead := starts_writeString path
      (starts_int oflag (starts_int (writtenMode oflag mode) (starts_int retval starts_nil)))
    have hcwd := (starts_writeString cwd starts_nil).ite (hasFlag options observeOpenCwd)
    exact (hhead.append hcwd).append (starts_int pid starts_nil)
  | close fildes retval pid =>
    exact starts_int _ (starts_int _ (starts_int _ starts_nil))

theorem starts_calls (options : EventType → Byte) (m : Message) : Starts (m.calls options) := by
  cases m with
  | event e => exact starts_int _ (starts_int _ (starts_fields _ e))
  | done => exact starts_int _ starts_nil

/-- A failed write ends what is put on a connection just if the failure repeats. -/
theorem endsAtFailure_iff (options : EventType → Byte) (ms : List Message)
    (results : List Attempt) :
    EndsAtFailure options ms results ↔
      StaysFailed (ms.flatMap (Message.calls options)) results := by
  have hs : Starts (ms.flatMap (Message.calls options)) := by
    intro call hc
    obtain ⟨m, -, hm⟩ := List.mem_flatMap.mp hc
    exact starts_calls options m call hm
  rw [← pairwise_sendCalls_iff hs]
  constructor
  · exact fun he => he.silent
  · intro hp
    refine ⟨hp, ?_⟩
    rw [← wire_flatMap_calls]
    exact onWire_sendCalls hp

/-- A `close` of descriptor 99 whose second send fails with `ENOBUFS`, the later ones not. -/
def noBuffers : List Attempt := [.moves 4, .failed 105, .moves 4, .moves 4, .moves 4]

theorem onWire_noBuffers :
    onWire (sendMessages (fun _ => 0) [.event (.close 99 0 7)] noBuffers).1 =
      encode 4 MsgType.event.number ++ (encode 4 (99 : CInt) ++
        (encode 4 (0 : CInt) ++ encode 4 (7 : CInt))) := by decide

theorem number_of_prefix {options : EventType → Byte} {ms : List Message} {n : CInt} {s : Bytes}
    (h : encode 4 MsgType.event.number ++ (encode 4 n ++ s) <+:
      ms.flatMap (Message.bytes options)) : ∃ t : EventType, n = t.number := by
  obtain ⟨s', h⟩ := h
  have word {v v' : CInt} {u u' : Bytes} (hw : encode 4 v ++ u = encode 4 v' ++ u') :
      v = v' ∧ u = u' := by
    obtain ⟨he, hu⟩ := List.append_inj hw (by rw [length_encode, length_encode])
    have hd := congrArg (decode 4) he
    rw [decode_encode, decode_encode] at hd
    exact ⟨hd, hu⟩
  cases ms with
  | nil =>
    have hl := congrArg List.length h
    simp at hl
  | cons m ms =>
    rw [List.flatMap_cons, List.append_assoc] at h
    cases m with
    | done =>
      have hb : Message.done.bytes options = encode 4 MsgType.done.number := by
        simp [Message.bytes, writeMsgType, writeWord]
      rw [hb] at h
      exact absurd (word h).1 (by decide)
    | event e =>
      have hb : (Message.event e).bytes options = encode 4 MsgType.event.number ++
          (encode 4 e.type.number ++ wire (e.fields (options e.type))) := by
        simp [Message.bytes, ClientEvent.message, writeMsgType, writeEventType, writeWord]
      rw [hb, List.append_assoc, List.append_assoc] at h
      have h' := (word h).2
      rw [List.append_assoc] at h'
      exact ⟨e.type, (word h').1⟩

/-- The event type is missing, and what follows is part of no message at all. -/
theorem not_endsAtFailure_close :
    ¬ EndsAtFailure (fun _ => 0) [.event (.close 99 0 7)] noBuffers ∧
      ∀ (options : EventType → Byte) (ms : List Message),
        ¬ onWire (sendMessages (fun _ => 0) [.event (.close 99 0 7)] noBuffers).1 <+:
          ms.flatMap (Message.bytes options) := by
  have hn : ∀ (options : EventType → Byte) (ms : List Message),
      ¬ onWire (sendMessages (fun _ => 0) [.event (.close 99 0 7)] noBuffers).1 <+:
        ms.flatMap (Message.bytes options) := by
    intro options ms h
    rw [onWire_noBuffers] at h
    obtain ⟨t, ht⟩ := number_of_prefix h
    cases t <;> cases ht
  exact ⟨fun h => hn _ _ h.whole, hn⟩

section

variable {schedule : Transport.Schedule} {buf sock : Bytes} {k n : ℕ}

theorem writeTurn_sent (hb : buf.length < 2 ^ 63) (hn : buf.length ≤ n) :
    Transport.writeTurn schedule buf (BitVec.ofNat 64 buf.length) k ⟨n, sock⟩ = .done 0 := by
  rw [Transport.writeTurn, Transport.toInt_ofNat hb, if_neg (by dsimp only; omega)]

theorem writeTurn_moves (hb : buf.length < 2 ^ 63) (hn : n < buf.length) {m : ℕ+}
    (h : schedule k = .moves m) :
    Transport.writeTurn schedule buf (BitVec.ofNat 64 buf.length) k ⟨n, sock⟩ =
      .next ⟨n + min (m : ℕ) (buf.length - n), sock ++ (buf.drop n).take m⟩ := by
  have htake : (buf.drop n).take (min (m : ℕ) (buf.length - n)) = (buf.drop n).take m := by
    rw [← List.length_drop, ← List.take_eq_take_min]
  rw [Transport.writeTurn, Transport.toInt_ofNat hb, Transport.toNat_ofNat hb,
    if_pos (by dsimp only; omega), h]
  dsimp only
  rw [htake]

theorem writeTurn_failed (hb : buf.length < 2 ^ 63) (hn : n < buf.length) {errno : CInt}
    (h : schedule k = .failed errno) :
    Transport.writeTurn schedule buf (BitVec.ofNat 64 buf.length) k ⟨n, sock⟩ =
      if temporary errno then .next ⟨n, sock⟩ else .done (-1) := by
  rw [Transport.writeTurn, Transport.toInt_ofNat hb, if_pos (by dsimp only; omega), h]

theorem lt_of_drop {b : Byte} {left : Bytes} (h : buf.drop n = b :: left) : n < buf.length := by
  rw [← not_le, ← List.drop_eq_nil_iff, h]
  exact List.cons_ne_nil b left

theorem results_cons {a : Attempt} {used : List Attempt}
    (hs : ∀ i a', (a :: used)[i]? = some a' → schedule (k + i) = a') :
    schedule k = a ∧ ∀ i a', used[i]? = some a' → schedule (k + 1 + i) = a' := by
  refine ⟨hs 0 a rfl, fun i a' ha => ?_⟩
  rw [Nat.add_assoc, Nat.add_comm 1 i]
  exact hs (i + 1) a' ha

theorem ends_writeTurn (hb : buf.length < 2 ^ 63) {results rest : List Attempt} {w : Written}
    (hn : n ≤ buf.length) (h : sendBuffer results (buf.drop n) = (w, some rest))
    (hs : ∀ i a, w.used[i]? = some a → schedule (k + i) = a) (sock : Bytes) :
    ∃ last s, Loop.Ends (Transport.writeTurn schedule buf (BitVec.ofNat 64 buf.length)) k
      ⟨n, sock⟩ last s (if w.failed then -1 else 0) ∧ s.sock = sock ++ w.put := by
  generalize hd : buf.drop n = left at h
  induction results, left using sendBuffer.induct generalizing w k n sock with
  | case1 results =>
    rw [sendBuffer] at h
    cases h
    have hle := List.drop_eq_nil_iff.mp hd
    exact ⟨k, ⟨n, sock⟩, ⟨.refl, writeTurn_sent hb hle⟩, (List.append_nil _).symm⟩
  | case2 b left => cases h
  | case3 m results b left v rest' hv ih =>
    rw [sendBuffer, hv] at h
    cases h
    obtain ⟨h0, hlater⟩ := results_cons hs
    have hcut : buf.drop (n + min (m : ℕ) (buf.length - n)) = (b :: left).drop m := by
      rw [← hd, List.drop_drop, List.drop_eq_drop_iff]
      omega
    obtain ⟨last, s, he, hw⟩ := ih (by omega) hlater _ hcut hv
    refine ⟨last, s, he.head (writeTurn_moves hb (lt_of_drop hd) h0), ?_⟩
    rw [hw, hd, List.append_assoc]
  | case4 errno results b left ht v rest' hv ih =>
    rw [sendBuffer, if_pos ht, hv] at h
    cases h
    obtain ⟨h0, hlater⟩ := results_cons hs
    obtain ⟨last, s, he, hw⟩ := ih hn hlater sock hd hv
    refine ⟨last, s, he.head ?_, hw⟩
    rw [writeTurn_failed hb (lt_of_drop hd) h0, if_pos ht]
  | case5 errno results b left ht =>
    rw [sendBuffer, if_neg ht] at h
    cases h
    obtain ⟨h0, -⟩ := results_cons hs
    refine ⟨k, ⟨n, sock⟩, ⟨.refl, ?_⟩, (List.append_nil _).symm⟩
    rw [writeTurn_failed hb (lt_of_drop hd) h0, if_neg ht]
    rfl

/-- `do_write` returns what `sendBuffer` says, if its calls have these results. -/
theorem doWrite_sendBuffer (hb : buf.length < 2 ^ 63) {results rest : List Attempt} {w : Written}
    (h : sendBuffer results buf = (w, some rest))
    (hs : ∀ i a, w.used[i]? = some a → schedule i = a) (sock : Bytes) :
    ∃ last s, Transport.DoWrite schedule buf sock last s (if w.failed then -1 else 0) ∧
      s.sock = sock ++ w.put := by
  refine ends_writeTurn hb (Nat.zero_le _) h ?_ sock
  intro i a ha
  rw [Nat.zero_add]
  exact hs i a ha

end

/-- The result of a send, as a process gets it. -/
def Transport.Attempt.outcome : Attempt → Outcome
  | .moves n => .ok n
  | .failed errno => .failed errno

theorem sendLoop_eq {results rest : List Attempt} {buf : Bytes} {w : Written}
    (h : sendBuffer results buf = (w, some rest)) {s : Proc}
    (hs : s.event = results.map Attempt.outcome) :
    ∃ errno, sendLoop buf s.event s =
      (!w.failed, { s with
        event := rest.map Attempt.outcome, errno := errno, stream := s.stream ++ w.put }) := by
  induction results, buf using sendBuffer.induct generalizing s w with
  | case1 results =>
    rw [sendBuffer] at h
    cases h
    refine ⟨s.errno, ?_⟩
    obtain ⟨environ, lib, errno, pid, cwd, setup, real, event, calls, stream⟩ := s
    obtain rfl : event = rest.map Attempt.outcome := hs
    rcases rest with _ | ⟨_ | _, rest⟩
    · rfl
    · simp [sendLoop, Attempt.outcome]
    · simp [sendLoop, Attempt.outcome]
  | case2 b buf => cases h
  | case3 n results b buf v rest' hv ih =>
    rw [sendBuffer, hv] at h
    cases h
    obtain ⟨errno, he⟩ := ih hv
      (s := { s with
        event := results.map Attempt.outcome, stream := s.stream ++ (b :: buf).take n }) rfl
    refine ⟨errno, ?_⟩
    rw [hs, List.map_cons, Attempt.outcome, sendLoop, if_neg (List.cons_ne_nil _ _)]
    rw [he]
    simp only [List.append_assoc]
  | case4 errno results b buf ht v rest' hv ih =>
    rw [sendBuffer, if_pos ht, hv] at h
    cases h
    obtain ⟨errno', he⟩ := ih hv
      (s := { s with event := results.map Attempt.outcome, errno := errno }) rfl
    refine ⟨errno', ?_⟩
    rw [hs, List.map_cons, Attempt.outcome, sendLoop, if_neg (List.cons_ne_nil _ _), if_pos ht]
    exact he
  | case5 errno results b buf ht =>
    rw [sendBuffer, if_neg ht] at h
    cases h
    refine ⟨errno, ?_⟩
    rw [hs, List.map_cons, Attempt.outcome, sendLoop, if_neg (List.cons_ne_nil _ _), if_neg ht]
    simp

theorem write_eq {results rest : List Attempt} {call : WriteCall} {ws : List Written}
    (h : sendCall results call = (ws, some rest)) {s : Proc}
    (hs : s.event = results.map Attempt.outcome) :
    ∃ errno, write call s = .ok () { s with
      event := rest.map Attempt.outcome, errno := errno, stream := s.stream ++ onWire ws } := by
  induction call generalizing results ws s with
  | nil =>
    cases h
    refine ⟨s.errno, ?_⟩
    obtain ⟨environ, lib, errno, pid, cwd, setup, real, event, calls, stream⟩ := s
    obtain rfl : event = rest.map Attempt.outcome := hs
    simp [write, onWire, pure, EStateM.pure]
  | cons buf call ih =>
    rw [sendCall] at h
    rcases hb : sendBuffer results buf with ⟨w, _ | rest'⟩
    · rw [hb] at h
      cases h
    · rw [hb] at h
      obtain ⟨errno, he⟩ := sendLoop_eq hb hs
      have hw : doWrite buf s = .ok (!w.failed) { s with
          event := rest'.map Attempt.outcome, errno := errno, stream := s.stream ++ w.put } := by
        rw [doWrite, he]
      rw [write, bind_of_ok hw]
      simp only at h
      split at h
      · next hf =>
        cases h
        refine ⟨errno, ?_⟩
        rw [hf]
        simp [onWire, pure, EStateM.pure]
      · next hf =>
        rcases hc : sendCall rest' call with ⟨ws', r⟩
        rw [hc] at h
        cases h
        obtain ⟨errno', he'⟩ := ih hc (s := { s with
          event := rest'.map Attempt.outcome, errno := errno, stream := s.stream ++ w.put }) rfl
        have hcons : onWire (w :: ws') = w.put ++ onWire ws' := List.flatMap_cons
        refine ⟨errno', ?_⟩
        rw [Bool.eq_false_iff.mpr hf, Bool.not_false, if_pos rfl, he']
        simp only [hcons, List.append_assoc]

end Voyeur
