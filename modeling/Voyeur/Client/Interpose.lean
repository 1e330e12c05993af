import Voyeur.Client.Process

/-! # Interposed `open` and `close`

Both functions call the real one once and write an event afterwards. The writes
are system calls of their own, so that the caller sees the error number of the
last one that failed instead of the one of the real call.
-/

namespace Voyeur

/-- `O_TMPFILE`, which includes `O_DIRECTORY`. -/
def oTmpfile : CInt := 0x410000

/-- The flags for which `open` takes a mode. -/
def takesMode (oflag : CInt) : Bool := creates oflag || oflag &&& oTmpfile = oTmpfile

/-- The part of the interposed `open` that writes the event. -/
def writeOpenEvent (path : CPath) (oflag mode retval : CInt) : Client Unit := do
  write (writeMsgType .event)
  write (writeEventType .open_)
  writePath path
  write (writeInt oflag)
  write (writeInt (writtenMode oflag mode))
  write (writeInt retval)
  if hasFlag (← get).lib.opts observeOpenCwd then
    let cwd ← getcwd
    write (writeString cwd)
  write (writePid (← getpid))

/-- The interposed `open`. The mode is only there if it takes one. -/
def interposedOpen (path : CPath) (oflag mode : CInt) : Client CInt := do
  lock
  initialize_ .open_
  let retval ← callNext (.open_ path oflag (if creates oflag then some mode else none))
  if 0 ≤ (← get).lib.sock then
    writeOpenEvent path oflag mode retval
  return retval

/-- The part of the interposed `close` that writes the event. -/
def writeCloseEvent (fildes retval : CInt) : Client Unit := do
  write (writeMsgType .event)
  write (writeEventType .close)
  write (writeInt fildes)
  write (writeInt retval)
  write (writePid (← getpid))

/-- The interposed `close`. -/
def interposedClose (fildes : CInt) : Client CInt := do
  if (← get).lib.finalized then
    callNext (.close fildes)
  else
    lock
    initialize_ .close
    let retval ← callNext (.close fildes)
    if 0 ≤ (← get).lib.sock then
      writeCloseEvent fildes retval
    return retval

/-- A call of the program, with all arguments that it passes. -/
inductive Request where
  | open_ (path : CPath) (oflag mode : CInt)
  | close (fildes : CInt)
  deriving DecidableEq

/-- The interposed function. -/
def Request.interposed : Request → Client CInt
  | .open_ path oflag mode => interposedOpen path oflag mode
  | .close fildes => interposedClose fildes

/-- The real call with the same arguments. -/
def Request.real : Request → RealCall
  | .open_ path oflag mode => .open_ path oflag (if takesMode oflag then some mode else none)
  | .close fildes => .close fildes

/-- The value that a real call returns. -/
def Outcome.retval : Outcome → CInt
  | .ok n => BitVec.ofNat 32 n
  | .failed _ => -1

/-- The caller sees one real call with its arguments, its value and, if it failed, its error. -/
def Transparent (r : Request) (s : Proc) : Prop :=
  ∃ s', r.interposed s = .ok s.real.retval s' ∧ s'.calls = s.calls ++ [r.real] ∧
    ∀ e, s.real = .failed e → s'.errno = e

/-- The results in `s.event` are those of the calls that are made: none is left over. -/
def Answered (r : Request) (s : Proc) : Prop :=
  ∀ v s', r.interposed s = .ok v s' → s'.event = []

/-- A step that only uses up results, changes the error number and puts bytes on the stream. -/
structure Writes (s s' : Proc) : Prop where
  uses : ∃ used, s.event = used ++ s'.event ∧ s'.errno = lastErrno used s.errno
  lib : s'.lib = s.lib
  real : s'.real = s.real
  calls : s'.calls = s.calls

theorem Writes.refl (s : Proc) : Writes s s := ⟨⟨[], rfl, rfl⟩, rfl, rfl, rfl⟩

theorem Writes.trans {s t u : Proc} (h : Writes s t) (h' : Writes t u) : Writes s u := by
  obtain ⟨a, ha, hea⟩ := h.uses
  obtain ⟨b, hb, heb⟩ := h'.uses
  exact ⟨⟨a ++ b, by rw [ha, hb, List.append_assoc], by rw [heb, hea, lastErrno_append]⟩,
    h'.lib.trans h.lib, h'.real.trans h.real, h'.calls.trans h.calls⟩

theorem Writes.one {s : Proc} {o : Outcome} {event : List Outcome} (h : s.event = o :: event)
    (stream : Bytes) :
    Writes s { s with event := event, errno := lastErrno [o] s.errno, stream := stream } :=
  ⟨⟨[o], h, rfl⟩, rfl, rfl, rfl⟩

/-- A program that always returns, after writes. -/
def OnlyWrites {α : Type} (p : Client α) : Prop := ∀ s, ∃ a s', p s = .ok a s' ∧ Writes s s'

theorem OnlyWrites.pure {α : Type} (a : α) : OnlyWrites (pure a : Client α) :=
  fun s => ⟨a, s, rfl, .refl s⟩

theorem bind_of_ok {α β : Type} {p : Client α} {f : α → Client β} {s s' : Proc} {a : α}
    (h : p s = .ok a s') : (p >>= f) s = f a s' := by
  change EStateM.bind p f s = _
  rw [EStateM.bind, h]

theorem get_bind {α : Type} (f : Proc → Client α) (s : Proc) : (get >>= f) s = f s s := rfl

theorem bind_of_error {α β : Type} {p : Client α} {f : α → Client β} {s s' : Proc} {e : Stop}
    (h : p s = .error e s') : (p >>= f) s = .error e s' := by
  change EStateM.bind p f s = _
  rw [EStateM.bind, h]

theorem OnlyWrites.bind {α β : Type} {p : Client α} {f : α → Client β} (hp : OnlyWrites p)
    (hf : ∀ a, OnlyWrites (f a)) : OnlyWrites (p >>= f) := by
  intro s
  obtain ⟨a, t, ha, ht⟩ := hp s
  obtain ⟨b, u, hb, hu⟩ := hf a t
  exact ⟨b, u, (bind_of_ok ha).trans hb, ht.trans hu⟩

theorem onlyWrites_get : OnlyWrites (get : Client Proc) := fun s => ⟨s, s, rfl, .refl s⟩

theorem writes_sendLoop (buf : Bytes) (event : List Outcome) (s : Proc) (h : s.event = event) :
    Writes s (sendLoop buf event s).2 := by
  induction event generalizing buf s with
  | nil => exact ⟨⟨[], rfl, rfl⟩, rfl, rfl, rfl⟩
  | cons o event ih =>
    cases o with
    | ok n =>
      rw [sendLoop]
      split
      · exact .refl s
      · exact (Writes.one h _).trans (ih _ _ rfl)
    | failed e =>
      rw [sendLoop]
      split
      · exact .refl s
      · split
        · exact (Writes.one h s.stream).trans (ih _ _ rfl)
        · exact Writes.one h s.stream

theorem onlyWrites_doWrite (buf : Bytes) : OnlyWrites (doWrite buf) :=
  fun s => ⟨_, _, rfl, writes_sendLoop buf s.event s rfl⟩

theorem onlyWrites_write (call : WriteCall) : OnlyWrites (write call) := by
  induction call with
  | nil => exact .pure ()
  | cons buf call ih =>
    refine (onlyWrites_doWrite buf).bind fun done => ?_
    cases done
    · exact .pure ()
    · exact ih

theorem onlyWrites_getcwd : OnlyWrites getcwd := by
  intro s
  unfold getcwd
  split
  · exact ⟨_, _, rfl, .refl s⟩
  · next h => exact ⟨_, _, rfl, .one h s.stream⟩
  · next h => exact ⟨_, _, rfl, .one h s.stream⟩

theorem onlyWrites_getpid : OnlyWrites getpid := onlyWrites_get.bind fun s => .pure s.pid

theorem onlyWrites_writePath {path : CPath} (h : path ≠ .invalid) :
    OnlyWrites (writePath path) := by
  cases path with
  | null => exact onlyWrites_write _
  | string s => exact onlyWrites_write _
  | invalid => exact absurd rfl h

theorem onlyWrites_writeOpenEvent {path : CPath} (h : path ≠ .invalid) (oflag mode retval : CInt) :
    OnlyWrites (writeOpenEvent path oflag mode retval) := by
  refine (onlyWrites_write _).bind fun _ => (onlyWrites_write _).bind fun _ =>
    (onlyWrites_writePath h).bind fun _ => (onlyWrites_write _).bind fun _ =>
    (onlyWrites_write _).bind fun _ => (onlyWrites_write _).bind fun _ =>
    onlyWrites_get.bind fun s => ?_
  have hp : OnlyWrites (do write (writePid (← getpid))) :=
    onlyWrites_getpid.bind fun _ => onlyWrites_write _
  by_cases hc : hasFlag s.lib.opts observeOpenCwd = true
  · simp only [if_pos hc]
    exact onlyWrites_getcwd.bind fun _ => (onlyWrites_write _).bind fun _ => hp
  · simp only [if_neg hc]
    exact hp

theorem onlyWrites_writeCloseEvent (fildes retval : CInt) :
    OnlyWrites (writeCloseEvent fildes retval) :=
  (onlyWrites_write _).bind fun _ => (onlyWrites_write _).bind fun _ =>
    (onlyWrites_write _).bind fun _ => (onlyWrites_write _).bind fun _ =>
    onlyWrites_getpid.bind fun _ => onlyWrites_write _

theorem writeOpenEvent_invalid (oflag mode retval : CInt) (s : Proc) :
    ∃ s', writeOpenEvent .invalid oflag mode retval s = .error .crashed s' := by
  obtain ⟨_, t, ht, -⟩ := onlyWrites_write (writeMsgType .event) s
  obtain ⟨_, u, hu, -⟩ := onlyWrites_write (writeEventType .open_) t
  refine ⟨u, ?_⟩
  rw [writeOpenEvent, bind_of_ok ht, bind_of_ok hu]
  exact bind_of_error rfl

/-- The setup crashes if the socket variable is missing and a connection is needed. -/
def CanSetUp (s : Proc) : Prop :=
  s.lib.initialized = true ∨ getenv s.environ varSocket ≠ none

/-- The socket of the library after the setup. -/
def Proc.socket (s : Proc) : ℤ :=
  if s.lib.initialized then s.lib.sock
  else match s.setup.head? with
    | some (.ok n) => n
    | some (.failed _) => -1
    | none => 0

/-- A program that only makes system calls of the setup. -/
def OnlySetsUp {α : Type} (p : Client α) : Prop :=
  ∀ s, ∃ a setup errno, p s = .ok a { s with setup := setup, errno := errno }

theorem OnlySetsUp.bind {α β : Type} {p : Client α} {f : α → Client β} (hp : OnlySetsUp p)
    (hf : ∀ a, OnlySetsUp (f a)) : OnlySetsUp (p >>= f) := by
  intro s
  obtain ⟨a, setup, errno, ha⟩ := hp s
  obtain ⟨b, setup', errno', hb⟩ := hf a { s with setup := setup, errno := errno }
  exact ⟨b, setup', errno', (bind_of_ok ha).trans hb⟩

theorem onlySetsUp_setupCall : OnlySetsUp setupCall := by
  intro s
  unfold setupCall
  split
  · exact ⟨_, _, _, rfl⟩
  · exact ⟨_, _, _, rfl⟩
  · exact ⟨_, _, _, rfl⟩

theorem onlySetsUp_connectLoop (tries : ℕ) : OnlySetsUp (connectLoop tries) := by
  induction tries with
  | zero => exact fun s => ⟨_, _, _, rfl⟩
  | succ tries ih =>
    refine onlySetsUp_setupCall.bind fun status => ?_
    by_cases h : status < 0
    · rw [if_pos h]
      exact ih
    · rw [if_neg h]
      exact fun s => ⟨_, _, _, rfl⟩

theorem setupCall_socket {s : Proc} (h : s.lib.initialized = false) :
    ∃ setup errno, setupCall s = .ok s.socket { s with setup := setup, errno := errno } := by
  unfold setupCall Proc.socket
  rcases hs : s.setup with _ | ⟨_ | e, setup⟩
  · refine ⟨[], s.errno, ?_⟩
    simp only [h, Bool.false_eq_true, if_false, List.head?_nil]
    rw [← hs]
  · exact ⟨setup, s.errno, by simp [h]⟩
  · exact ⟨setup, e, by simp [h]⟩

theorem createClientSocket_run {s : Proc} (h : s.lib.initialized = false) (sockpath : CStr) :
    ∃ setup errno, createClientSocket (some sockpath) s =
      .ok s.socket { s with setup := setup, errno := errno } := by
  obtain ⟨setup, errno, hs⟩ := setupCall_socket h
  obtain ⟨_, setup', errno', hc⟩ :=
    onlySetsUp_connectLoop connectRetries { s with setup := setup, errno := errno }
  obtain ⟨_, setup'', errno'', hf⟩ :=
    onlySetsUp_setupCall { s with setup := setup', errno := errno' }
  refine ⟨setup'', errno'', ?_⟩
  rw [createClientSocket, bind_of_ok hs, bind_of_ok hc, bind_of_ok hf]
  rfl

/-- The state after the setup, as far as the real call and the event depend on it. -/
structure SetUp (s s' : Proc) : Prop where
  next : s'.lib.next = true
  sock : s'.lib.sock = s.socket
  real : s'.real = s.real
  event : s'.event = s.event
  calls : s'.calls = s.calls

theorem initialize_run {s : Proc} (h : CanSetUp s) (t : EventType) :
    ∃ s', initialize_ t s = .ok () s' ∧ SetUp s s' := by
  cases hi : s.lib.initialized with
  | true =>
    refine ⟨s, ?_, ⟨s.lib.next_of_initialized hi, by simp [Proc.socket, hi], rfl, rfl, rfl⟩⟩
    rw [initialize_, get_bind, hi]
    rfl
  | false =>
    obtain ⟨sockpath, hp⟩ := Option.ne_none_iff_exists'.mp (h.resolve_left (by simp [hi]))
    obtain ⟨setup, errno, hs⟩ := createClientSocket_run hi sockpath
    refine ⟨{ s with
      setup := setup, errno := errno,
      lib := s.lib.init (clientOptions s.environ t) s.socket }, ?_, ⟨rfl, rfl, rfl, rfl, rfl⟩⟩
    rw [initialize_, get_bind, hi]
    simp only [Bool.not_false, if_true]
    rw [get_bind, hp, bind_of_ok hs]
    rfl

theorem initialize_crash {s : Proc} (h : ¬ CanSetUp s) (t : EventType) :
    initialize_ t s = .error .crashed s := by
  simp only [CanSetUp, not_or, not_not, Bool.not_eq_true] at h
  rw [initialize_, get_bind, h.1]
  simp only [Bool.not_false, if_true]
  rw [get_bind, h.2]
  exact bind_of_error rfl

theorem lock_run {s : Proc} (h : s.lib.locked = false) : lock s = .ok () s := by
  rw [lock, get_bind, h]
  rfl

theorem lock_blocked {s : Proc} (h : s.lib.locked = true) : lock s = .error .blocked s := by
  rw [lock, get_bind, h]
  rfl

theorem callNext_run {s : Proc} (h : s.lib.next = true) (call : RealCall) :
    callNext call s = .ok s.real.retval
      { s with calls := s.calls ++ [call], errno := lastErrno [s.real] s.errno } := by
  rw [callNext, if_pos h]
  cases s.real <;> rfl

theorem callNext_crash {s : Proc} (h : s.lib.next = false) (call : RealCall) :
    callNext call s = .error .crashed s := by
  rw [callNext, h]
  rfl

/-- The real call, and then the event if there is a socket. -/
def observed (call : RealCall) (writeEvent : CInt → Client Unit) : Client CInt := do
  let retval ← callNext call
  if 0 ≤ (← get).lib.sock then
    writeEvent retval
  return retval

theorem observed_run {s : Proc} {call : RealCall} {writeEvent : CInt → Client Unit}
    (hn : s.lib.next = true) (hw : 0 ≤ s.lib.sock → ∀ v, OnlyWrites (writeEvent v)) :
    ∃ s' used, observed call writeEvent s = .ok s.real.retval s' ∧
      s'.calls = s.calls ++ [call] ∧ s.event = used ++ s'.event ∧
      s'.errno = lastErrno used (lastErrno [s.real] s.errno) := by
  rw [observed, bind_of_ok (callNext_run hn call), get_bind]
  by_cases h : 0 ≤ s.lib.sock
  · obtain ⟨_, t, ht, hwt⟩ := hw h s.real.retval
      { s with calls := s.calls ++ [call], errno := lastErrno [s.real] s.errno }
    obtain ⟨used, hu, he⟩ := hwt.uses
    refine ⟨t, used, ?_, hwt.calls, hu, he⟩
    simp only [if_pos h]
    rw [bind_of_ok ht]
    rfl
  · refine ⟨{ s with calls := s.calls ++ [call], errno := lastErrno [s.real] s.errno }, [], ?_,
      rfl, rfl, rfl⟩
    simp only [if_neg h]
    rfl

/-- The last failing call of the event, if there is one, failed with the real call's error. -/
def KeepsErrno (s : Proc) : Prop :=
  match s.real with
  | .ok _ => True
  | .failed e => lastErrno s.event e = e

/--
The condition for transparency: the call can be made at all, `open` passes its mode on, a path
that has to be written can be read, and the event leaves the error number alone.
-/
def TransparentWhen (s : Proc) : Request → Prop
  | .open_ path oflag _ =>
      s.lib.locked = false ∧ CanSetUp s ∧ (takesMode oflag = true → creates oflag = true) ∧
        (0 ≤ s.socket → path ≠ .invalid) ∧ KeepsErrno s
  | .close _ =>
      if s.lib.finalized then s.lib.next = true
      else s.lib.locked = false ∧ CanSetUp s ∧ KeepsErrno s

theorem not_transparent_of_error {r : Request} {s t : Proc} {e : Stop}
    (h : r.interposed s = .error e t) : ¬ Transparent r s := by
  rintro ⟨u, hu, -⟩
  rw [h] at hu
  cases hu

theorem keepsErrno_iff {s : Proc} {errno errno' : CInt}
    (h : errno = lastErrno s.event (lastErrno [s.real] errno')) :
    (∀ e, s.real = .failed e → errno = e) ↔ KeepsErrno s := by
  rw [KeepsErrno]
  cases hr : s.real with
  | ok n => simp
  | failed e => simp [h, hr, lastErrno]

theorem transparent_iff_of_observed {r : Request} {s t : Proc} {call : RealCall}
    {writeEvent : CInt → Client Unit} (hr : r.interposed s = observed call writeEvent t)
    (ht : SetUp s t) (hw : 0 ≤ s.socket → ∀ v, OnlyWrites (writeEvent v)) (ha : Answered r s) :
    Transparent r s ↔ call = r.real ∧ KeepsErrno s := by
  obtain ⟨s', used, hs, hc, hu, he⟩ := observed_run ht.next (ht.sock ▸ hw)
  rw [ht.real] at hs he
  rw [ht.calls] at hc
  have hv : r.interposed s = .ok s.real.retval s' := hr.trans hs
  rw [ht.event, ha _ _ hv, List.append_nil] at hu
  have hk := keepsErrno_iff (hu ▸ he)
  constructor
  · rintro ⟨u, huv, huc, hue⟩
    obtain rfl : s' = u := by
      rw [hv] at huv
      injection huv
    rw [hc] at huc
    exact ⟨by simpa using huc, hk.mp hue⟩
  · rintro ⟨rfl, hke⟩
    exact ⟨s', hv, hc, hk.mpr hke⟩

theorem realCall_open_iff (path : CPath) (oflag mode : CInt) :
    RealCall.open_ path oflag (if creates oflag then some mode else none) =
        (Request.open_ path oflag mode).real ↔
      (takesMode oflag = true → creates oflag = true) := by
  by_cases hc : creates oflag = true
  · simp [Request.real, takesMode, hc]
  · by_cases ht : oflag &&& oTmpfile = oTmpfile
    · simp [Request.real, takesMode, hc, ht]
    · simp [Request.real, takesMode, hc, ht]

theorem interposedOpen_transparent_iff (path : CPath) (oflag mode : CInt) {s : Proc}
    (ha : Answered (.open_ path oflag mode) s) :
    Transparent (.open_ path oflag mode) s ↔ TransparentWhen s (.open_ path oflag mode) := by
  rw [TransparentWhen]
  cases hl : s.lib.locked with
  | true =>
    refine iff_of_false (not_transparent_of_error (t := s) (e := .blocked) ?_) (by simp)
    exact bind_of_error (lock_blocked hl)
  | false =>
  by_cases hc : CanSetUp s
  · obtain ⟨t, ht, hst⟩ := initialize_run hc .open_
    have hr : (Request.open_ path oflag mode).interposed s =
        observed (.open_ path oflag (if creates oflag then some mode else none))
          (writeOpenEvent path oflag mode) t := by
      rw [Request.interposed, interposedOpen, bind_of_ok (lock_run hl), bind_of_ok ht]
      rfl
    by_cases hp : 0 ≤ s.socket → path ≠ .invalid
    · rw [transparent_iff_of_observed hr hst
        (fun h v => onlyWrites_writeOpenEvent (hp h) oflag mode v) ha, realCall_open_iff]
      exact ⟨fun h => ⟨rfl, hc, h.1, hp, h.2⟩, fun h => ⟨h.2.2.1, h.2.2.2.2⟩⟩
    · simp only [Classical.not_imp, ne_eq, not_not] at hp
      obtain ⟨h0, rfl⟩ := hp
      have hx : ∃ u, (Request.open_ .invalid oflag mode).interposed s = .error .crashed u := by
        obtain ⟨u, hu⟩ := writeOpenEvent_invalid oflag mode t.real.retval
          { t with
            calls := t.calls ++ [.open_ .invalid oflag (if creates oflag then some mode else none)],
            errno := lastErrno [t.real] t.errno }
        refine ⟨u, ?_⟩
        rw [hr, observed, bind_of_ok (callNext_run hst.next _), get_bind]
        simp only [hst.sock, if_pos h0]
        exact bind_of_error hu
      obtain ⟨u, hu⟩ := hx
      exact iff_of_false (not_transparent_of_error hu) (by simp [h0])
  · refine iff_of_false (not_transparent_of_error (t := s) (e := .crashed) ?_) (by simp [hc])
    rw [Request.interposed, interposedOpen, bind_of_ok (lock_run hl)]
    exact bind_of_error (initialize_crash hc _)

theorem interposedClose_transparent_iff (fildes : CInt) {s : Proc}
    (ha : Answered (.close fildes) s) :
    Transparent (.close fildes) s ↔ TransparentWhen s (.close fildes) := by
  rw [TransparentWhen]
  cases hf : s.lib.finalized with
  | true =>
    have hr : (Request.close fildes).interposed s = callNext (.close fildes) s := by
      rw [Request.interposed, interposedClose, get_bind, hf]
      rfl
    cases hn : s.lib.next with
    | true =>
      refine iff_of_true ⟨_, hr.trans (callNext_run hn _), rfl, fun e he => ?_⟩ rfl
      simp [he, lastErrno]
    | false =>
      exact iff_of_false (not_transparent_of_error (hr.trans (callNext_crash hn _))) (by simp)
  | false =>
  have hi : (Request.close fildes).interposed s = (lock >>= fun _ => initialize_ .close >>= fun _ =>
      observed (.close fildes) (writeCloseEvent fildes)) s := by
    rw [Request.interposed, interposedClose, get_bind, hf]
    rfl
  simp only [Bool.false_eq_true, if_false]
  cases hl : s.lib.locked with
  | true =>
    refine iff_of_false (not_transparent_of_error (t := s) (e := .blocked) ?_) (by simp)
    exact hi.trans (bind_of_error (lock_blocked hl))
  | false =>
  by_cases hc : CanSetUp s
  · obtain ⟨t, ht, hst⟩ := initialize_run hc .close
    have hr : (Request.close fildes).interposed s =
        observed (.close fildes) (writeCloseEvent fildes) t := by
      rw [hi, bind_of_ok (lock_run hl), bind_of_ok ht]
    rw [transparent_iff_of_observed hr hst (fun _ v => onlyWrites_writeCloseEvent fildes v) ha]
    simp [hc, Request.real]
  · refine iff_of_false (not_transparent_of_error (t := s) (e := .crashed) ?_) (by simp [hc])
    rw [hi, bind_of_ok (lock_run hl)]
    exact bind_of_error (initialize_crash hc _)

/--
An interposed call shows its caller exactly the real call if and only if the call can be
made, passes all arguments on, and no failing write of the event replaces its error number.
-/
theorem interposed_transparent_iff (r : Request) (s : Proc) (h : Answered r s) :
    Transparent r s ↔ TransparentWhen s r := by
  cases r with
  | open_ path oflag mode => exact interposedOpen_transparent_iff path oflag mode h
  | close fildes => exact interposedClose_transparent_iff fildes h

/-- A process that is connected already, and has no options. -/
def connectedProc (real : Outcome) (event : List Outcome) : Proc where
  environ := []
  lib := ⟨false, true, false, 0, 3, true, fun _ => rfl⟩
  errno := 0
  pid := 12
  cwd := []
  setup := []
  real := real
  event := event
  calls := []
  stream := []

/-- Closing a descriptor that is not open, when the writes succeed after an interruption. -/
theorem interposed_transparent_close :
    Transparent (.close 5) (connectedProc (.failed 9) [.failed eintr, .ok 4]) ↔
      TransparentWhen (connectedProc (.failed 9) [.failed eintr, .ok 4]) (.close 5) := by
  refine interposed_transparent_iff _ _ fun v s' h => ?_
  have h0 : (match (Request.close 5).interposed
      (connectedProc (.failed 9) [.failed eintr, .ok 4]) with
      | .ok _ s' => s'.event
      | .error _ s' => s'.event) = [] := by rfl
  rw [h] at h0
  exact h0

/-- The observer is gone, and a failed `open` reports the broken pipe. -/
theorem open_not_transparent :
    ¬ ∀ (r : Request) (s : Proc), Answered r s → Transparent r s := by
  intro h
  have ha : Answered (.open_ (.string [0x78]) 0 0)
      (connectedProc (.failed 2) (List.replicate 7 (.failed 32))) := by
    intro v s' hv
    have h0 : (match (Request.open_ (.string [0x78]) 0 0).interposed
        (connectedProc (.failed 2) (List.replicate 7 (.failed 32))) with
        | .ok _ s' => s'.event
        | .error _ s' => s'.event) = [] := by rfl
    rw [hv] at h0
    exact h0
  have hk := ((interposedOpen_transparent_iff _ _ _ ha).mp (h _ _ ha)).2.2.2.2
  revert hk
  change ¬ (32 : CInt) = 2
  decide

end Voyeur
