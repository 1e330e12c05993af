import Voyeur.Client.OwnCloses
import Voyeur.Client.Streams
import Voyeur.Client.Survival
import Voyeur.Environment.Options
import Voyeur.Wire.Truncated

/-! # What the observer makes of a process

The observer puts its options into the environment, the libraries find them there and write
their events with them, and the handlers read the events with the options that the observer
kept. Every connection of a process is therefore understood, up to its last byte.
-/

namespace Voyeur

open Program (From)
open Transition (Reach)

variable {w t u : World} {l : Lib} {fd : ℤ} {L : Preloaded} {o : EventType → Byte}

/-- On connections that can be used, events are written with the options `o`. -/
structure Encoded (o : EventType → Byte) (w : World) : Prop where
  opts : ∀ i, (w.links i).connected = true → (w.links i).opts = o (w.links i).type
  silent : ∀ i, (w.links i).connected = false → (w.links i).bytes = []

namespace Encoded

theorem congr (h : Encoded o w) (hl : t.links = w.links) : Encoded o t := by
  constructor
  · rw [hl]
    exact h.opts
  · rw [hl]
    exact h.silent

theorem connect (h : Encoded o w) {type : EventType} {opts : Byte} (ho : opts = o type) :
    Encoded o (w.connect type opts) := by
  constructor
  · intro i
    by_cases hi : i = w.opened
    · rw [hi, World.connect_self]
      exact fun _ => ho
    · rw [World.connect_of_ne hi]
      exact h.opts i
  · intro i
    by_cases hi : i = w.opened
    · rw [hi, World.connect_self]
      exact fun _ => rfl
    · rw [World.connect_of_ne hi]
      exact h.silent i

theorem sends {own : ℕ} {bytes : Bytes} {last b : Bool} (h : Encoded o w)
    (hs : Sends own fd bytes last w b t) : Encoded o t := by
  cases hs with
  | nothing _ => exact h
  | socket _ => exact h.congr rfl
  | failed _ => exact h.congr rfl
  | @connection i _ hc =>
    constructor
    · intro j hj
      by_cases hi : j = i
      · subst hi
        rw [World.sendTo_self]
        exact h.opts j hc
      · rw [World.sendTo_of_ne hi] at hj ⊢
        exact h.opts j hj
    · intro j hj
      by_cases hi : j = i
      · subst hi
        rw [World.sendTo_self, hc] at hj
        cases hj
      · rw [World.sendTo_of_ne hi] at hj ⊢
        exact h.silent j hj

theorem reports {e : ClientEvent} {b : Bool} (h : Encoded o w) (hr : Reports l e w b t) :
    Encoded o t := by
  cases hr with
  | skip _ => exact h
  | sends _ hs => exact h.sends hs

theorem initializes (h : Encoded o w) (ho : ∀ type, clientOptions w.vars type = o type)
    (hi : Initializes l w t) : Encoded o t := by
  cases hi with
  | skip _ => exact h
  | connected _ _ => exact (h.connect (ho l.type)).congr rfl
  | failed _ _ => exact h.congr rfl

theorem closes {caller : Caller} (h : Encoded o w)
    (ho : ∀ type, clientOptions w.vars type = o type) (hc : Closes L caller fd w t) :
    Encoded o t := by
  cases hc with
  | plain _ hr => exact h.congr hr.links_eq
  | forwarded _ _ hr => exact (h.congr hr.links_eq).congr rfl
  | reported _ _ hi hr he =>
    exact (((h.initializes ho hi).congr hr.links_eq).reports he).congr rfl

end Encoded

theorem kept_encoded (o : EventType → Byte) : Kept (Encoded o) (Encoded o) where
  stop _ h := h
  same _ _ h hs := h.congr hs.links
  file _ h := h.congr rfl
  report _ _ _ _ _ h _ _ _ hr := h.reports hr

/-- In the middle of a call that began in an environment with the options `o`. -/
structure Encoding (o : EventType → Byte) (w : World) : Prop extends Encoded o w where
  environ : ∀ type, clientOptions w.vars type = o type

theorem Encoding.sends {own : ℕ} {bytes : Bytes} {last b : Bool} (h : Encoding o w)
    (hs : Sends own fd bytes last w b t) : Encoding o t := by
  refine ⟨h.toEncoded.sends hs, ?_⟩
  rw [hs.noLaunch.vars_eq]
  exact h.environ

theorem Encoding.closes {caller : Caller} (h : Encoding o w) (hc : Closes L caller fd w t) :
    Encoding o t := by
  refine ⟨h.toEncoded.closes h.environ hc, ?_⟩
  rw [hc.noLaunch.vars_eq]
  exact h.environ

namespace Observed

theorem from_anyClose_encoding (h : Encoding o w) (caller : Caller) (fd : ℤ) :
    From (fun _ => Encoded o) w (anyClose L caller fd) fun _ => Encoding o :=
  (from_anyClose_of h.toEncoded (h.toEncoded.congr rfl) caller fd).conseq
    fun _ _ hc => h.closes hc

theorem from_oneConnection_encoding (h : Encoding o w) {type : EventType} (x : Writing) :
    From (fun _ => Encoded o) w
      (oneConnection L type (clientOptions w.vars type) x) fun _ => Encoded o := by
  apply from_oneConnection (C := Encoding o) (K := Encoding o) (D := Encoding o)
    (fun _ => h.toEncoded) (fun _ _ => h.toEncoded)
  · intro _
    exact ⟨h.toEncoded.connect (h.environ type), h.environ⟩
  · intro _ t t' ht hs
    exact ht.sends hs
  · intro _ t ht
    exact ht.toEncoded
  · intro _ t t' ht hs
    exact ht.sends hs
  · intro t ht
    exact from_anyClose_encoding ht .library _
  · intro t ht
    exact ht
  · intro t ht
    exact ht.toEncoded

theorem from_exec_encoding (h : Encoding o w) (function : ExecFunction) (path : Option CStr)
    (argv envp : Option (List CStr)) :
    From (fun _ => Encoded o) w (exec L function path argv envp) fun _ => Encoded o := by
  unfold exec
  apply From.get
  apply (from_oneConnection_encoding h _).bind
  intro _ t ht
  apply (from_augment ht _ _ _ _).skip
  intro voyeurEnvp
  exact from_realExec (kept_encoded o) ht function path argv voyeurEnvp

theorem from_writeExitEvent_encoding (h : Encoding o w) (status : CInt) :
    From (fun _ => Encoded o) w (writeExitEvent L status) fun _ => Encoded o := by
  unfold writeExitEvent
  apply From.get
  apply From.ite
  · intro _
    apply From.bind (From.modify (Q := fun _ t => t = { w with didExitAlready := true }) rfl)
    rintro _ _ rfl
    have h' : Encoding o { w with didExitAlready := true } := ⟨h.toEncoded.congr rfl, h.environ⟩
    exact from_oneConnection_encoding h' _
  · intro _
    exact From.pure h.toEncoded

theorem from_unload_encoding (h : Encoding o w) (l : Lib) :
    From (fun _ => Encoded o) w (unload L l) fun _ => Encoded o := by
  apply from_unload (C := Encoding o) (D := Encoding o)
  · intro _ t _ hs
    exact h.sends hs
  · intro t ht
    exact from_anyClose_encoding ht .library _
  · intro t ht
    exact ht
  · intro t ht
    exact ht.toEncoded.congr rfl
  · intro _
    exact h.toEncoded.congr rfl
  · intro _
    exact h.toEncoded

theorem from_perform_encoded (h : Encoding o w) (d : Deal) :
    From (fun _ => Encoded o) w (d.perform L) fun _ => Encoded o := by
  have hother : d.single L w = false →
      From (fun _ => Encoded o) w (d.perform L) fun _ => Encoded o := by
    intro hn
    apply from_perform (kept_encoded o) h.toEncoded
    constructor
    · intro l t _ hi
      exact h.toEncoded.initializes h.environ hi
    · intro fd _
      exact (from_anyClose_encoding h .application fd).conseq fun _ _ ht => ht.toEncoded
    · intro _ _
      exact h.toEncoded.congr rfl
    · intro _ _ _ _ hd _
      rw [hn] at hd
      cases hd
    · intro _ t u calls b ht _ _ hs
      exact ht.sends hs
    · intro l _ _
      apply from_cleanup (from_lock fun _ => h.toEncoded)
      · intro _
        exact from_unload_encoding h l
      · intro _
        have hf : Encoding o w.finalize := ⟨h.toEncoded.congr rfl, h.environ⟩
        exact from_unload_encoding hf l
    · intro child held _
      exact h.toEncoded.congr rfl
  cases d with
  | exec r =>
    apply From.discarded
    unfold From
    rw [r.perform_eq]
    exact from_exec_encoding h _ _ _ _
  | exit status =>
    apply From.ite
    · intro _
      exact from_writeExitEvent_encoding h status
    · intro _
      exact From.pure h.toEncoded
  | open_ | close | socket | setenv | posixSpawn | cleanup | fork => exact hother rfl

end Observed

/-- In every state in which the process makes a call, it still finds the options `o`. -/
def KeepsOptions (o : EventType → Byte) (w : World) : Prop :=
  ∀ type, clientOptions w.vars type = o type

theorem encoded_of_run {ok : World → Deal × Answers → Prop} (hok : ∀ w a, ok w a → KeepsOptions o w)
    {environ : StringArray} {pid ppid : CInt} {table : List ℕ}
    (h : Reach (World.step L) ok (World.start environ pid ppid table) w) : Encoded o w := by
  refine (run_invariant (I := Encoded o) (fun _ hw => hw) (fun _ hw => hw.congr rfl) ?_ h ?_).1
  · intro w a hw ha
    have hc : Encoding o (w.answered a.2) := ⟨hw.congr rfl, hok w a ha⟩
    exact Observed.from_perform_encoded hc a.1
  · constructor
    · intro i hi
      cases hi
    · intro i _
      rfl

section

variable {malloc : ℕ → Bool} {context : Context}

theorem link_bytes {link : Link} {es : List ClientEvent} (ht : ∀ e ∈ es, e.type = link.type)
    (ho : link.opts = context.clientOpts link.type) :
    es.flatMap (fun e => wire (e.message link.opts)) = eventStream context es := by
  rw [eventStream, stream, List.flatMap_map]
  apply List.flatMap_congr
  intro e he
  rw [ho, ← ht e he]
  rfl

theorem Encoded.stream (h : Encoded context.clientOpts w) {i : ℕ} (hf : Formed (w.links i)) :
    ∃ es : List ClientEvent, (∀ e ∈ es, e.type = (w.links i).type) ∧
      (w.links i).bytes = eventStream context es ++
        if (w.links i).finished then wire [writeMsgType .done] else [] := by
  cases hc : (w.links i).connected with
  | true =>
    obtain ⟨es, ht, hb⟩ := hf
    exact ⟨es, ht, hb.trans (by rw [link_bytes ht (h.opts i hc)])⟩
  | false =>
    refine ⟨[], by simp, ?_⟩
    obtain ⟨es, -, hb⟩ := hf
    have hs := h.silent i hc
    rw [hs] at hb ⊢
    exact ((List.append_eq_nil_iff.mp hb.symm).2).symm

theorem serve_finished (finished : Bool) (n : ℕ) :
    serveConnection malloc context (n + 1)
        (if finished then wire [writeMsgType .done] else []) =
      ([], .closed (if finished then .done else .failed)) := by
  cases finished with
  | true =>
    have hr : (handleMessage malloc context).run (wire [writeMsgType .done]) =
        ([], some (.done, [])) := by
      have hm : (handleMessage malloc context).run
          (LittleEndian.encode 4 MsgType.done.number ++ []) = _ := handleMessage_msgType _ []
      rw [if_pos rfl, StreamReader.run_pure] at hm
      exact hm
    exact StreamReader.serve_close hr rfl n
  | false => exact StreamReader.serve_close handleMessage_nil rfl n

end

/--
A process that starts with the options of a context, and keeps them, is understood by the
handlers for this context on every connection.
-/
theorem served_of_options {malloc : ℕ → Bool} (hm : ClientEvent.GrantsEvents malloc)
    (context : Context) {environ : StringArray}
    (ho : ∀ type, clientOptions environ.val type = context.clientOpts type)
    {pid ppid : CInt} {table : List ℕ}
    (h : Reach (World.step L) (fun w a => LeavesAlone L w a ∧
      getenv w.vars varOpts = getenv environ.val varOpts)
      (World.start environ pid ppid table) w) (i : ℕ) :
    ∃ es : List ClientEvent, (∀ e ∈ es, e.type = (w.links i).type) ∧
      (w.links i).bytes = eventStream context es ++
        (if (w.links i).finished then wire [writeMsgType .done] else []) ∧
      ∀ n, es.length < n → serveConnection malloc context n (w.links i).bytes =
        (context.callbacks es, .closed (if (w.links i).finished then .done else .failed)) := by
  have hkeeps : ∀ (w : World) (a : Deal × Answers), LeavesAlone L w a ∧
      getenv w.vars varOpts = getenv environ.val varOpts →
      KeepsOptions context.clientOpts w := by
    rintro w a ⟨-, hw⟩ type
    rw [clientOptions, hw, ← clientOptions, ho]
  have hc := encoded_of_run hkeeps h
  have hf := (tidy_of_run (h.mono fun _ _ ha => ha.1) (tidy_start environ pid ppid table)).1.formed
  obtain ⟨es, ht, hb⟩ := hc.stream (hf i)
  refine ⟨es, ht, hb, fun n hlt => ?_⟩
  obtain ⟨m, rfl⟩ : ∃ m, n = es.length + (m + 1) := ⟨n - es.length - 1, by omega⟩
  rw [hb, serve_eventStream hm, serve_finished, List.append_nil]

/--
A process that the observer has given its environment, and that keeps the options in it, is
understood on every connection: the handlers run the callbacks of the events that were written,
in their order, and find nothing else up to the mark that the client is done, or the end.
-/
theorem served_of_run {malloc : ℕ → Bool} (hm : ClientEvent.GrantsEvents malloc)
    (context : Context) (tail : Bytes) {envp : List CStr} (hn : getenv envp varOpts = none)
    {libs sockpath : CStr} {environ : StringArray}
    (he : environ.val = augmentEnvironment envp libs
      (cString ((requestedOpts context).2 ++ tail)) sockpath)
    {pid ppid : CInt} {table : List ℕ}
    (h : Reach (World.step L) (fun w a => LeavesAlone L w a ∧
      getenv w.vars varOpts = getenv environ.val varOpts)
      (World.start environ pid ppid table) w) (i : ℕ) :
    ∃ es : List ClientEvent, (∀ e ∈ es, e.type = (w.links i).type) ∧
      (w.links i).bytes = eventStream (requestedOpts context).1 es ++
        (if (w.links i).finished then wire [writeMsgType .done] else []) ∧
      ∀ n, es.length < n → serveConnection malloc (requestedOpts context).1 n (w.links i).bytes =
        ((requestedOpts context).1.callbacks es,
          .closed (if (w.links i).finished then .done else .failed)) := by
  refine served_of_options hm (requestedOpts context).1 (fun type => ?_) h i
  rw [he, clientOptions_augment hn]
  rfl

/-- An observer of every event, with an option for each of them. -/
def curious : Context := ⟨fun _ => ⟨1, some 7, 9⟩⟩

/-- The environment that it makes out of an empty one. -/
def preparedEnviron : StringArray :=
  ⟨augmentEnvironment [] (ascii ['l']) (cString ((requestedOpts curious).2 ++ []))
    (ascii ['s']), by decide⟩

theorem served_of_run_closingRun : ∃ (w : World) (es : List ClientEvent),
    (w.links 1).bytes ≠ [] ∧ serveConnection (fun _ => true) (requestedOpts curious).1
      (es.length + 1) (w.links 1).bytes =
        ((requestedOpts curious).1.callbacks es,
          .closed (if (w.links 1).finished then .done else .failed)) := by
  have hx : (Transition.exec (World.step ⟨true, true, true⟩)
      (fun w a => LeavesAlone ⟨true, true, true⟩ w a ∧
        getenv w.vars varOpts = getenv preparedEnviron.val varOpts)
      (World.start preparedEnviron 7 1 [0, 1, 2]) closingRun).any (fun w =>
        decide ((w.links 1).bytes ≠ [])) = true := by
    decide +kernel
  obtain ⟨w, hr, hw⟩ := Transition.exists_reach_of_exec _ hx
  have hm : ClientEvent.GrantsEvents fun _ => true := fun _ _ => rfl
  have hn : getenv [] varOpts = none := rfl
  obtain ⟨es, -, -, hs⟩ := served_of_run hm curious [] hn rfl hr 1
  exact ⟨w, es, of_decide_eq_true hw, hs _ (Nat.lt_succ_self _)⟩

/-- The event of a call of `close`. -/
def CloseRecord.event (r : CloseRecord) (pid : CInt) : ClientEvent :=
  .close (BitVec.ofInt 32 r.fildes) r.retval pid

theorem flatMap_bytes (context : Context) (pid : CInt) (rs : List CloseRecord) :
    rs.flatMap (·.bytes pid) = eventStream context (rs.map (·.event pid)) := by
  rw [eventStream, stream, List.map_map, List.flatMap_map]
  rfl

/--
In a process whose `close` hears the application and not the libraries, the observer's callbacks
are run for the calls of `close` that the application made, with their results and in their order.
-/
theorem closes_called_back {malloc : ℕ → Bool} (hm : ClientEvent.GrantsEvents malloc)
    (context : Context) (hL : L.close = true) {environ : StringArray} {pid ppid : CInt}
    {table : List ℕ}
    (h : Reach (World.step L) (fun w a => Discreet L (w.answered a.2) a.1)
      (World.start environ pid ppid table) w) {i : ℕ} (hi : (w.links i).type = .close) {n : ℕ}
    (hn : (w.closes.filter (·.caller = .application)).length < n) :
    serveConnection malloc context n (w.links i).bytes =
      (context.callbacks ((w.closes.filter (·.caller = .application)).map (·.event w.pid)),
        .closed (if (w.links i).finished then .done else .failed)) := by
  have ht : Honest w :=
    (run_invariant (I := Telling) (fun _ hw => hw.toHonest)
      (fun _ hw => hw.congr rfl rfl fun _ _ => rfl)
      (fun _ _ hw ha => Observed.from_step_telling hL hw ha) h
      (telling_start environ pid ppid table)).1
  have hf : w.closes.filter (·.reported) = w.closes.filter (·.caller = .application) := by
    apply List.filter_congr
    intro r hr
    rw [Bool.eq_iff_iff, decide_eq_true_eq]
    exact ht.records r hr
  obtain ⟨m, hm'⟩ : ∃ m, n = ((w.closes.filter (·.caller = .application)).map
      (·.event w.pid)).length + (m + 1) := by
    rw [List.length_map]
    exact ⟨n - (w.closes.filter (·.caller = .application)).length - 1, by omega⟩
  rw [ht.stream i hi, World.reportedBytes, hf, flatMap_bytes context, hm', serve_eventStream hm,
    serve_finished, List.append_nil]

theorem closes_called_back_discreetRun : ∃ w : World, (w.links 1).type = .close ∧
    (w.closes.filter (·.caller = .application)).length = 2 ∧
    serveConnection (fun _ => true) ⟨fun _ => ⟨0, some 7, 9⟩⟩ 3 (w.links 1).bytes =
      (Context.callbacks ⟨fun _ => ⟨0, some 7, 9⟩⟩
        ((w.closes.filter (·.caller = .application)).map (·.event w.pid)),
        .closed (if (w.links 1).finished then .done else .failed)) := by
  have hx : (Transition.exec (World.step ⟨true, true, true⟩)
      (fun w a => Discreet ⟨true, true, true⟩ (w.answered a.2) a.1)
      (World.start observedEnviron 7 1 [0, 1, 2]) discreetRun).any (fun w =>
        decide ((w.links 1).type = .close ∧
          (w.closes.filter (·.caller = .application)).length = 2)) = true := by
    decide +kernel
  obtain ⟨w, hr, hw⟩ := Transition.exists_reach_of_exec _ hx
  obtain ⟨hi, hl⟩ := of_decide_eq_true hw
  exact ⟨w, hi, hl, closes_called_back (fun _ _ => rfl) _ rfl hr hi (by omega)⟩

end Voyeur
