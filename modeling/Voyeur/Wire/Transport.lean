import Voyeur.Client.Process
import Voyeur.Transition.Loop
import Voyeur.Wire.StringBuffer
import Mathlib.Data.PNat.Basic

/-! # The transport

`do_write` and `do_read` under a schedule of the results of `send` and `read`. A call moves
some of the bytes that it is asked for, or it fails, for the moment or for good. What the
loops have moved at any time is a beginning of the block in its order, and so the sizes of
the pieces do not show.
-/

namespace Voyeur

namespace Transport

open Loop (Turn Steps Ends)

/-- The result of a `send` or a `read`: so many bytes at most, and at least one, or a failure. -/
inductive Attempt where
  | moves (n : ℕ+)
  | failed (errno : CInt)
  deriving DecidableEq

/-- A call that moves something. -/
def Attempt.Moves : Attempt → Prop
  | .moves _ => True
  | .failed _ => False

/-- A failure after which the loops make the same call again. -/
def Attempt.Retried : Attempt → Prop
  | .moves _ => False
  | .failed errno => temporary errno = true

/-- Any other failure. -/
def Attempt.Fatal : Attempt → Prop
  | .moves _ => False
  | .failed errno => temporary errno = false

/-- The results of the calls, in the order in which a loop makes them. -/
abbrev Schedule := ℕ → Attempt

/-- Only finitely many calls fail for the moment. -/
def Schedule.FinitelyRetried (schedule : Schedule) : Prop :=
  {call | (schedule call).Retried}.Finite

/-- The variable of `do_write`, and the bytes that the socket has taken so far. -/
structure Writing where
  totalOut : ℕ
  sock : Bytes
  deriving DecidableEq

/-- One turn of the loop of `do_write`. -/
def writeTurn (schedule : Schedule) (buf : Bytes) (bufSize : Size) (call : ℕ) (s : Writing) :
    Turn Writing CInt :=
  if (s.totalOut : ℤ) < bufSize.toInt then
    match schedule call with
    | .failed errno => if temporary errno then .next s else .done (-1)
    | .moves n =>
      let out := min (n : ℕ) (bufSize.toNat - s.totalOut)
      .next { totalOut := s.totalOut + out, sock := s.sock ++ (buf.drop s.totalOut).take out }
  else .done 0

/-- The variable of `do_read`, the buffer, and the bytes that are still to come. -/
structure Reading where
  totalIn : ℕ
  buf : List (Option Byte)
  stream : Bytes
  deriving DecidableEq

/-- One turn of the loop of `do_read`. A `read` gives nothing at the end of the stream only. -/
def readTurn (schedule : Schedule) (bufSize : Size) (call : ℕ) (s : Reading) :
    Turn Reading CInt :=
  if (s.totalIn : ℤ) < bufSize.toInt then
    match schedule call with
    | .failed errno => if temporary errno then .next s else .done (-1)
    | .moves n =>
      let bytes := s.stream.take (min (n : ℕ) (bufSize.toNat - s.totalIn))
      if bytes.length = 0 then .done (-1)
      else .next { totalIn := s.totalIn + bytes.length, buf := written s.buf s.totalIn bytes,
                   stream := s.stream.drop bytes.length }
  else .done 0

/-- `do_write` on a whole buffer returns `r` after the call `last`, and leaves the socket so. -/
def DoWrite (schedule : Schedule) (buf sock : Bytes) (last : ℕ) (s : Writing) (r : CInt) : Prop :=
  Ends (writeTurn schedule buf (BitVec.ofNat 64 buf.length)) 0 ⟨0, sock⟩ last s r

/-- `do_read` into a whole buffer returns `r` after the call `last`. -/
def DoRead (schedule : Schedule) (cells : List (Option Byte)) (stream : Bytes) (last : ℕ)
    (s : Reading) (r : CInt) : Prop :=
  Ends (readTurn schedule (BitVec.ofNat 64 cells.length)) 0 ⟨0, cells, stream⟩ last s r

theorem toInt_ofNat {n : ℕ} (h : n < 2 ^ 63) : (BitVec.ofNat 64 n).toInt = n := by
  have hn : (BitVec.ofNat 64 n).toNat = n := by
    rw [BitVec.toNat_ofNat, Nat.mod_eq_of_lt (by omega)]
  rw [toInt_of_lt (by omega), hn]

theorem toNat_ofNat {n : ℕ} (h : n < 2 ^ 63) : (BitVec.ofNat 64 n).toNat = n := by
  rw [BitVec.toNat_ofNat, Nat.mod_eq_of_lt (by omega)]

/-- The socket has taken the bytes in front of `totalOut`. -/
structure Writing.Invariant (buf sock : Bytes) (s : Writing) : Prop where
  le : s.totalOut ≤ buf.length
  sent : s.sock = sock ++ buf.take s.totalOut

section

variable {schedule : Schedule} {buf sock : Bytes} {call : ℕ} {s t : Writing} {r : CInt}

theorem writeTurn_next (hb : buf.length < 2 ^ 63)
    (h : writeTurn schedule buf (BitVec.ofNat 64 buf.length) call s = .next t) :
    (∃ out, 0 < out ∧ s.totalOut + out ≤ buf.length ∧
      t = ⟨s.totalOut + out, s.sock ++ (buf.drop s.totalOut).take out⟩) ∨
    (schedule call).Retried ∧ t = s := by
  rw [writeTurn, toInt_ofNat hb, toNat_ofNat hb] at h
  split at h
  · next hlt =>
    cases ha : schedule call with
    | failed errno =>
      simp only [ha] at h
      split at h
      · next ht => exact .inr ⟨ht, by cases h; rfl⟩
      · cases h
    | moves n =>
      simp only [ha, Turn.next.injEq] at h
      have hn := n.pos
      exact .inl ⟨min (n : ℕ) (buf.length - s.totalOut), by omega, by omega, h.symm⟩
  · cases h

theorem writeTurn_done (hb : buf.length < 2 ^ 63)
    (h : writeTurn schedule buf (BitVec.ofNat 64 buf.length) call s = .done r) :
    (r = 0 ∧ buf.length ≤ s.totalOut) ∨
    (r = -1 ∧ s.totalOut < buf.length ∧ (schedule call).Fatal) := by
  rw [writeTurn, toInt_ofNat hb] at h
  split at h
  · next hlt =>
    right
    cases ha : schedule call with
    | failed errno =>
      simp only [ha] at h
      split at h
      · cases h
      · next ht =>
        cases h
        exact ⟨rfl, by omega, Bool.eq_false_iff.mpr ht⟩
    | moves n =>
      simp only [ha] at h
      cases h
  · next hge =>
    cases h
    exact .inl ⟨rfl, by omega⟩

theorem writeTurn_invariant (hb : buf.length < 2 ^ 63) (hs : s.Invariant buf sock)
    (h : writeTurn schedule buf (BitVec.ofNat 64 buf.length) call s = .next t) :
    t.Invariant buf sock := by
  rcases writeTurn_next hb h with ⟨out, -, hle, rfl⟩ | ⟨-, rfl⟩
  · refine ⟨hle, ?_⟩
    rw [hs.sent, List.append_assoc, ← List.take_add]
  · exact hs

theorem Writing.Invariant.start (buf sock : Bytes) : Writing.Invariant buf sock ⟨0, sock⟩ :=
  ⟨Nat.zero_le _, by rw [List.take_zero, List.append_nil]⟩

theorem DoWrite.sent {last : ℕ} (hb : buf.length < 2 ^ 63)
    (h : DoWrite schedule buf sock last s r) :
    (r = 0 ∧ s.sock = sock ++ buf) ∨
    (r = -1 ∧ (schedule last).Fatal ∧
      ∃ n < buf.length, s.sock = sock ++ buf.take n) := by
  obtain ⟨hsteps, hdone⟩ := h
  have hi : s.Invariant buf sock :=
    hsteps.invariant (I := fun _ s => s.Invariant buf sock) (.start buf sock)
      fun _ _ _ hs ht => writeTurn_invariant hb hs ht
  rcases writeTurn_done hb hdone with ⟨rfl, hle⟩ | ⟨rfl, hlt, hf⟩
  · exact .inl ⟨rfl, by rw [hi.sent, List.take_of_length_le hle]⟩
  · exact .inr ⟨rfl, hf, s.totalOut, hlt, hi.sent⟩

/-- `do_write` returns, for the calls that are not repeated leave less to send. -/
theorem doWrite_returns (hb : buf.length < 2 ^ 63) (hf : schedule.FinitelyRetried) (sock : Bytes) :
    ∃ last s r, DoWrite schedule buf sock last s r := by
  refine Loop.ends_of_finite (I := fun _ s => s.Invariant buf sock) hf
    (fun s => buf.length - s.totalOut) ?_ (.start buf sock)
  intro call s t hs h
  refine ⟨writeTurn_invariant hb hs h, ?_⟩
  rcases writeTurn_next hb h with ⟨out, hpos, hle, rfl⟩ | ⟨hr, rfl⟩
  · left
    dsimp only
    omega
  · exact .inr ⟨hr, le_rfl⟩

end

/-- The buffer starts with the bytes that have been read. -/
structure Reading.Invariant (cells : List (Option Byte)) (stream : Bytes) (s : Reading) :
    Prop where
  le : s.totalIn ≤ cells.length
  consumed : stream = stream.take s.totalIn ++ s.stream
  length : (stream.take s.totalIn).length = s.totalIn
  filled : s.buf = (stream.take s.totalIn).map some ++ cells.drop s.totalIn

section

variable {schedule : Schedule} {cells : List (Option Byte)} {stream : Bytes} {call : ℕ}
  {s t : Reading} {r : CInt}

theorem readTurn_next (hb : cells.length < 2 ^ 63)
    (h : readTurn schedule (BitVec.ofNat 64 cells.length) call s = .next t) :
    (∃ bytes, 0 < bytes.length ∧ s.totalIn + bytes.length ≤ cells.length ∧
      s.stream = bytes ++ t.stream ∧ t.totalIn = s.totalIn + bytes.length ∧
      t.buf = written s.buf s.totalIn bytes) ∨
    (schedule call).Retried ∧ t = s := by
  rw [readTurn, toInt_ofNat hb, toNat_ofNat hb] at h
  split at h
  · next hlt =>
    cases ha : schedule call with
    | failed errno =>
      simp only [ha] at h
      split at h
      · next ht => exact .inr ⟨ht, by cases h; rfl⟩
      · cases h
    | moves n =>
      simp only [ha] at h
      split at h
      · cases h
      · next hne =>
        cases h
        left
        refine ⟨_, Nat.pos_of_ne_zero hne, ?_, ?_, rfl, rfl⟩
        · rw [List.length_take]
          omega
        · rw [List.length_take, List.take_eq_take_min, List.take_append_drop]
  · cases h

theorem readTurn_done (hb : cells.length < 2 ^ 63)
    (h : readTurn schedule (BitVec.ofNat 64 cells.length) call s = .done r) :
    (r = 0 ∧ cells.length ≤ s.totalIn) ∨
    (r = -1 ∧ s.totalIn < cells.length ∧ (s.stream = [] ∨ (schedule call).Fatal)) := by
  rw [readTurn, toInt_ofNat hb, toNat_ofNat hb] at h
  split at h
  · next hlt =>
    right
    cases ha : schedule call with
    | failed errno =>
      simp only [ha] at h
      split at h
      · cases h
      · next ht =>
        cases h
        exact ⟨rfl, by omega, .inr (Bool.eq_false_iff.mpr ht)⟩
    | moves n =>
      simp only [ha] at h
      split at h
      · next he =>
        cases h
        have hn := n.pos
        rw [List.length_take] at he
        exact ⟨rfl, by omega, .inl (List.length_eq_zero_iff.mp (by omega))⟩
      · cases h
  · next hge =>
    cases h
    exact .inl ⟨rfl, by omega⟩

theorem readTurn_invariant (hb : cells.length < 2 ^ 63) (hs : s.Invariant cells stream)
    (h : readTurn schedule (BitVec.ofNat 64 cells.length) call s = .next t) :
    t.Invariant cells stream := by
  rcases readTurn_next hb h with ⟨bytes, -, hle, hstream, hin, hbuf⟩ | ⟨-, rfl⟩
  · have hlen : (stream.take s.totalIn).length = s.totalIn := hs.length
    have htake : stream.take t.totalIn = stream.take s.totalIn ++ bytes := by
      conv_lhs => rw [hs.consumed, hstream, ← List.append_assoc, hin]
      exact List.take_left' (by rw [List.length_append, hlen])
    refine ⟨hin ▸ hle, ?_, ?_, ?_⟩
    · rw [htake, List.append_assoc, ← hstream]
      exact hs.consumed
    · rw [htake, List.length_append, hlen, hin]
    · have hcut : ((stream.take s.totalIn).map some).length = s.totalIn := by
        rw [List.length_map, hlen]
      rw [hbuf, written, hs.filled, List.take_left' hcut, List.drop_append, hcut, htake,
        List.map_append, hin, List.drop_eq_nil_of_le (by omega), List.nil_append,
        Nat.add_sub_cancel_left, List.drop_drop]
  · exact hs

theorem Reading.Invariant.start (cells : List (Option Byte)) (stream : Bytes) :
    Reading.Invariant cells stream ⟨0, cells, stream⟩ :=
  ⟨Nat.zero_le _, rfl, rfl, rfl⟩

theorem DoRead.received {last : ℕ} (hb : cells.length < 2 ^ 63)
    (h : DoRead schedule cells stream last s r) :
    (r = 0 ∧ ∃ payload, payload.length = cells.length ∧ stream = payload ++ s.stream ∧
      s.buf = payload.map some) ∨
    (r = -1 ∧ (s.stream = [] ∨ (schedule last).Fatal) ∧
      ∃ taken, taken.length < cells.length ∧ stream = taken ++ s.stream) := by
  obtain ⟨hsteps, hdone⟩ := h
  have hi : s.Invariant cells stream :=
    hsteps.invariant (I := fun _ s => s.Invariant cells stream) (.start cells stream)
      fun _ _ _ hs ht => readTurn_invariant hb hs ht
  have hlen : (stream.take s.totalIn).length = s.totalIn := hi.length
  rcases readTurn_done hb hdone with ⟨rfl, hle⟩ | ⟨rfl, hlt, hf⟩
  · have he : s.totalIn = cells.length := le_antisymm hi.le hle
    refine .inl ⟨rfl, _, hlen.trans he, hi.consumed, ?_⟩
    rw [hi.filled, he, List.drop_length, List.append_nil]
  · exact .inr ⟨rfl, hf, _, hlen.trans_lt hlt, hi.consumed⟩

theorem doRead_returns (hb : cells.length < 2 ^ 63) (hf : schedule.FinitelyRetried)
    (stream : Bytes) : ∃ last s r, DoRead schedule cells stream last s r := by
  refine Loop.ends_of_finite (I := fun _ s => s.Invariant cells stream) hf
    (fun s => cells.length - s.totalIn) ?_ (.start cells stream)
  intro call s t hs h
  refine ⟨readTurn_invariant hb hs h, ?_⟩
  rcases readTurn_next hb h with ⟨bytes, hpos, hle, -, hin, -⟩ | ⟨hr, rfl⟩
  · left
    omega
  · exact .inr ⟨hr, le_rfl⟩

theorem DoRead.run_doRead {last : ℕ} (hb : cells.length < 2 ^ 63)
    (h : DoRead schedule cells stream last s r) (hn : ¬ (schedule last).Fatal) :
    (r = 0 ∧ ∃ payload, s.buf = payload.map some ∧
      (doRead (some cells.length) (BitVec.ofNat 64 cells.length)).run stream =
        ([], some (some payload, s.stream))) ∨
    (r = -1 ∧ (doRead (some cells.length) (BitVec.ofNat 64 cells.length)).run stream =
      ([], some (none, []))) := by
  rcases h.received hb with ⟨rfl, payload, hl, rfl, hbuf⟩ | ⟨rfl, hf, taken, hl, rfl⟩
  · refine .inl ⟨rfl, payload, hbuf, ?_⟩
    rcases Nat.eq_zero_or_pos cells.length with h0 | h0
    · rw [doRead_nonpos _ (by rw [toInt_ofNat hb]; omega),
        List.length_eq_zero_iff.mp (hl.trans h0)]
      rfl
    · rw [doRead_some _ (by rw [toInt_ofNat hb]; omega), toNat_ofNat hb]
      exact StreamReader.run_read_append hl s.stream
  · rcases hf with he | hf
    · refine .inr ⟨rfl, ?_⟩
      rw [doRead_some _ (by rw [toInt_ofNat hb]; omega), toNat_ofNat hb, he, List.append_nil]
      exact StreamReader.run_read_of_lt hl
    · exact (hn hf).elim

end

/-- `do_write` returns, and if it returns 0 the socket has got the buffer's bytes in their order. -/
structure WritesExactly (schedule : Schedule) (buf sock : Bytes) : Prop where
  sent : ∀ last s, DoWrite schedule buf sock last s 0 → s.sock = sock ++ buf
  failed : ∀ last s r, DoWrite schedule buf sock last s r → r ≠ 0 →
    r = -1 ∧ (schedule last).Fatal
  ends : schedule.FinitelyRetried → ∃ last s r, DoWrite schedule buf sock last s r

/--
The buffer gets the next bytes of the stream in their order if `do_read` returns 0, and nothing
beyond them is gone. It returns, and with -1 only if the stream ended or a call failed for good
while fewer bytes than asked for had come.
-/
structure ReadsExactly (schedule : Schedule) (cells : List (Option Byte)) (stream : Bytes) :
    Prop where
  received : ∀ last s, DoRead schedule cells stream last s 0 →
    ∃ payload, payload.length = cells.length ∧ stream = payload ++ s.stream ∧
      s.buf = payload.map some
  failed : ∀ last s r, DoRead schedule cells stream last s r → r ≠ 0 →
    r = -1 ∧ (s.stream = [] ∨ (schedule last).Fatal) ∧
      ∃ taken, taken.length < cells.length ∧ stream = taken ++ s.stream
  ends : schedule.FinitelyRetried → ∃ last s r, DoRead schedule cells stream last s r

theorem chunking_invisible {buf : Bytes} {cells : List (Option Byte)}
    (hb : buf.length < 2 ^ 63) (hc : cells.length < 2 ^ 63) (sends reads : Schedule)
    (sock stream : Bytes) :
    WritesExactly sends buf sock ∧ ReadsExactly reads cells stream := by
  have h0 : (0 : CInt) ≠ -1 := by decide
  refine ⟨⟨?_, ?_, ?_⟩, ⟨?_, ?_, ?_⟩⟩
  · intro last s h
    rcases h.sent hb with ⟨-, hs⟩ | ⟨hr, -⟩
    · exact hs
    · exact (h0 hr).elim
  · intro last s r h hr
    rcases h.sent hb with ⟨h0, -⟩ | ⟨hr', hf, -⟩
    · exact (hr h0).elim
    · exact ⟨hr', hf⟩
  · exact fun hf => doWrite_returns hb hf sock
  · intro last s h
    rcases h.received hc with ⟨-, hs⟩ | ⟨hr, -⟩
    · exact hs
    · exact (h0 hr).elim
  · intro last s r h hr
    rcases h.received hc with ⟨h0, -⟩ | h'
    · exact (hr h0).elim
    · exact h'
  · exact fun hf => doRead_returns hc hf stream

/-- A block of three bytes, with a piece of one byte, an interrupted call and a larger piece. -/
theorem chunking_invisible_three :
    WritesExactly (fun call => if call = 1 then .failed eintr else .moves (call + 1).toPNat')
      [1, 2, 3] [] ∧
    ReadsExactly (fun call => if call = 1 then .failed eagain else .moves (call + 1).toPNat')
      (fresh 3) [1, 2, 3, 4] :=
  chunking_invisible (by decide) (by decide) _ _ _ _

example :
    DoRead (fun call => if call = 1 then .failed eagain else .moves (call + 1).toPNat')
      (fresh 3) [1, 2, 3, 4] 3 ⟨3, [some 1, some 2, some 3], [4]⟩ 0 :=
  Loop.ends_of_run (by decide : Loop.run (readTurn _ _) 9 0 _ = _)

end Transport

end Voyeur
