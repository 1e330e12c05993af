import Voyeur.Allocation.Events
import Voyeur.Wire.Truncated

/-! # What a connection leaves on the heap

A connection leaves a block for the directory of each `open` event that brought one. If it
breaks off inside an event, it leaves what was complete of that event as well: its strings,
and the slots of its arrays.
-/

namespace Voyeur

open LittleEndian (encode)
open Allocator.Heap (Adds)
open StreamReader (serveFrom)

/-- The blocks of the strings of an array that are complete after `k` bytes. -/
def entriesLeft : List Bytes → ℕ → Multiset ℕ
  | [], _ => 0
  | b :: l, k =>
      if k < (stringBytes b).length then 0
      else stringBlock b ::ₘ entriesLeft l (k - (stringBytes b).length)

namespace Layout

/-- The blocks of a payload that breaks off after `k` bytes. -/
def left : {β : Type} → Layout β → β → ℕ → Multiset ℕ
  | _, .word, _, _ | _, .string, _, _ | _, .opt _ _, none, _ => 0
  | _, .array, l, k => if k < 4 then 0 else (8 * (l.length + 1)) ::ₘ entriesLeft l (k - 4)
  | _, .opt _ f, some b, k => f.left b k
  | _, .pair f g, (b, c), k =>
      if k < (f.bytes b).length then f.left b k
      else g.left c (k - (f.bytes b).length) + f.blocks b

end Layout

section

variable {malloc : ℕ → Bool}

theorem readString_take {b : Bytes} (hb : GrantsString malloc b.length) {k : ℕ}
    (hk : k < (stringBytes b).length) :
    (readString malloc 0).run ((stringBytes b).take k) = ([], some (none, [])) := by
  have hl : (stringBytes b).length = 8 + b.length := by
    rw [stringBytes, List.length_append, LittleEndian.length_encode]
  rcases Nat.lt_or_ge k 8 with h8 | h8
  · exact readString_short (by rw [List.length_take]; omega)
  · have ht : (stringBytes b).take k =
        encode 8 (BitVec.ofNat 64 b.length) ++ b.take (k - 8) := by
      rw [stringBytes, List.take_append, LittleEndian.length_encode, List.take_of_length_le]
      rw [LittleEndian.length_encode]
      exact h8
    have hn := toNat_ofNat_length hb.1
    rw [ht, readString_granted (by rwa [hn]), hn, if_neg]
    rw [List.length_take]
    omega

theorem keepEntries_take (size i : ℕ) {l : List Bytes}
    (hg : ∀ b ∈ l, GrantsString malloc b.length) (hi : i + l.length ≤ size) {k : ℕ}
    (hk : k < (entriesBytes l).length) :
    (keepEntries malloc (some size) l.length i).run ((entriesBytes l).take k) =
      ([], some (.error (entriesLeft l k), [])) := by
  induction l generalizing i k with
  | nil => cases hk
  | cons b l ih =>
    obtain ⟨hb, hg⟩ := List.forall_mem_cons.mp hg
    rw [List.length_cons] at hi ⊢
    rw [entriesBytes_cons] at hk ⊢
    rw [keepEntries, entriesLeft]
    split
    · next hlt =>
      rw [List.take_append_of_le_length hlt.le,
        StreamReader.run_bind_of_value (readString_take hb hlt)]
      rfl
    · next hge =>
      have hst : store (some size) i = pure () := store_of_lt (by omega)
      rw [List.length_append] at hk
      have hrec := ih (i + 1) hg (by omega)
        (k := k - (stringBytes b).length) (by omega)
      rw [List.take_append, List.take_of_length_le (by omega),
        StreamReader.run_bind_of_value (readString_accepts hb _)]
      dsimp only
      rw [hst, StreamReader.run_bind_of_value (StreamReader.run_pure _ _),
        StreamReader.run_bind_of_value hrec]
      rfl

theorem keepArray_take {l : List Bytes} (hl : l.length < intMax.toNat)
    (ha : GrantsArray malloc l.length) (hg : ∀ b ∈ l, GrantsString malloc b.length) {k : ℕ}
    (hk : k < (arrayBytes l).length) :
    (keepArray malloc).run ((arrayBytes l).take k) =
      ([], some (.error (Layout.array.left l k), [])) := by
  have hlen : (arrayBytes l).length = 4 + (entriesBytes l).length := by
    rw [arrayBytes, List.length_append, LittleEndian.length_encode]
  rw [Layout.left]
  split
  · next h4 =>
    have hs : ((arrayBytes l).take k).length < 4 := by
      rw [List.length_take]
      omega
    rw [keepArray, readInt, StreamReader.run_bind_of_value (readWord_short (by decide) hs)]
    rfl
  · next h4 =>
    have ht : (arrayBytes l).take k =
        encode 4 (BitVec.ofNat 32 l.length) ++ (entriesBytes l).take (k - 4) := by
      rw [arrayBytes, List.take_append, LittleEndian.length_encode,
        List.take_of_length_le (by rw [LittleEndian.length_encode]; omega)]
    have hn := toNat_ofNat_count hl
    have he := keepEntries_take (l.length + 1) 0 hg (by omega) (k := k - 4) (by omega)
    have hc : (BitVec.ofNat 32 l.length).toNat < intMax.toNat := by rwa [hn]
    rw [keepArray, ht, StreamReader.run_bind_of_value (readInt_accepts _ _)]
    dsimp only
    rw [keepStrings, if_neg (ne_intMax hc), slots_eq malloc hc, toInt_count hc,
      Int.toNat_natCast, hn, if_pos ha]
    dsimp only
    rw [StreamReader.run_bind_of_value he]
    rfl

namespace Layout

theorem keeping_accepts {β : Type} (f : Layout β) {b : β} (hv : f.Valid b)
    (hg : f.Granted malloc b) (t : Bytes) :
    (f.keeping malloc).run (f.bytes b ++ t) = ([], some (.ok b, t)) := by
  obtain ⟨x, hx, hr⟩ := f.keeping_refines.run_value (f.accepts hv hg t)
  cases x with
  | error kept => cases hx
  | ok b' =>
    obtain rfl : b' = b := Option.some.inj hx
    exact hr

theorem keeping_take {β : Type} (f : Layout β) {b : β} (hv : f.Valid b)
    (hg : f.Granted malloc b) {k : ℕ} (hk : k < (f.bytes b).length) :
    (f.keeping malloc).run ((f.bytes b).take k) = ([], some (.error (f.left b k), [])) := by
  induction f generalizing k with
  | word =>
    have hs : ((Layout.word.bytes b).take k).length < 4 := by
      rw [bytes, LittleEndian.length_encode] at hk
      rw [List.length_take]
      omega
    rw [keeping, keepNothing, readInt,
      StreamReader.run_bind_of_value (readWord_short (by decide) hs)]
    rfl
  | string =>
    rw [keeping, keepNothing, bytes, StreamReader.run_bind_of_value (readString_take hg hk)]
    rfl
  | array => exact keepArray_take hv.1 hg.1 hg.2 hk
  | opt asked f ih =>
    cases b with
    | none => cases hk
    | some b =>
      obtain ⟨rfl, hv⟩ := hv
      have hr := ih hv hg hk
      rw [keeping, if_pos rfl]
      change StreamReader.run _ ((f.bytes b).take k) = _
      rw [StreamReader.run_bind_of_value hr]
      rfl
  | pair f g ihf ihg =>
    obtain ⟨b, c⟩ := b
    rw [bytes, List.length_append] at hk
    rw [keeping, bytes, left]
    split
    · next hlt =>
      rw [List.take_append_of_le_length hlt.le,
        StreamReader.run_bind_of_value (ihf hv.1 hg.1 hlt)]
      rfl
    · next hge =>
      rw [List.take_append, List.take_of_length_le (by omega),
        StreamReader.run_bind_of_value (f.keeping_accepts hv.1 hg.1 _)]
      dsimp only
      rw [StreamReader.run_bind_of_value (ihg hv.2 hg.2 (by omega))]
      rfl

end Layout

end

/-- What the handlers of complete events leave. -/
def Context.kept (context : Context) : List ClientEvent → Multiset ℕ
  | [] => 0
  | e :: es => (e.received (context.opts e.type)).kept + context.kept es

/-- What an event leaves that breaks off after `k` bytes of its message. -/
def ClientEvent.left (context : Context) (e : ClientEvent) (k : ℕ) : Multiset ℕ :=
  if k < 8 then 0 else (payload context e.type).layout.left (e.args context) (k - 8)

section

variable {malloc : ℕ → Bool} (context : Context)

theorem keepMessage_header {kept left : Multiset ℕ} {type : CInt} {s u : Bytes} {es : List Call}
    (h : (keepEvent malloc context type).run s = (es, some (left, u))) :
    (keepMessage malloc context kept).run (header type ++ s) =
      (es, some ((.handled, left + kept), u)) := by
  rw [header, List.append_assoc, keepMessage,
    StreamReader.run_bind_of_value (p := readMsgType) (readInt_accepts _ _)]
  dsimp only
  rw [if_neg (by decide), if_pos rfl,
    StreamReader.run_bind_of_value (p := readEventType) (readInt_accepts type s)]
  dsimp only
  rw [StreamReader.run_bind_of_value h]
  simp

theorem keepMessage_event (hm : ClientEvent.GrantsEvents malloc) (kept : Multiset ℕ)
    (e : ClientEvent) (t : Bytes) :
    (keepMessage malloc context kept).run ((Message.event e).bytes context.clientOpts ++ t) =
      (context.calls (e.received (context.opts e.type)),
        some ((.handled, (e.received (context.opts e.type)).kept + kept), t)) := by
  rw [bytes_event, List.append_assoc]
  refine keepMessage_header context ?_
  have hg : (payload context e.type).layout.Granted malloc (e.args context) := e.granted_args hm
  have hr := Layout.keeping_accepts _ e.valid_args hg t
  rw [keepEvent, EventType.ofNumber_number]
  dsimp only
  rw [holding, StreamReader.run_bind_of_value hr, ← e.event_args]
  dsimp only
  rw [StreamReader.run_bind_of_value (runCallback_run _ _ t)]
  simp

theorem keepMessage_short {s : Bytes} (hs : s.length < 4) (kept : Multiset ℕ) :
    (keepMessage malloc context kept).run s = ([], some ((.failed, kept), [])) := by
  rw [keepMessage, readMsgType, StreamReader.run_bind_of_value (readWord_short (by decide) hs)]
  rfl

theorem keepMessage_short_type {s : Bytes} (hs : s.length < 4) (kept : Multiset ℕ) :
    (keepMessage malloc context kept).run (encode 4 MsgType.event.number ++ s) =
      ([], some ((.failed, kept), [])) := by
  rw [keepMessage, StreamReader.run_bind_of_value (p := readMsgType) (readInt_accepts _ _)]
  dsimp only
  rw [if_neg (by decide), if_pos rfl, readEventType,
    StreamReader.run_bind_of_value (readWord_short (by decide) hs)]
  rfl

theorem keepMessage_take (hm : ClientEvent.GrantsEvents malloc) (kept : Multiset ℕ)
    (e : ClientEvent) {k : ℕ} (hk : k < ((Message.event e).bytes context.clientOpts).length) :
    ∃ v, (keepMessage malloc context kept).run
        (((Message.event e).bytes context.clientOpts).take k) =
      ([], some ((v, e.left context k + kept), [])) := by
  rw [bytes_event, List.length_append, length_header] at hk
  rw [bytes_event, ClientEvent.left]
  split
  · next h8 =>
    refine ⟨.failed, ?_⟩
    rw [zero_add, List.take_append_of_le_length (by rw [length_header]; omega)]
    rcases Nat.lt_or_ge k 4 with h4 | h4
    · exact keepMessage_short context (by rw [List.length_take]; omega) kept
    · rw [header, List.take_append, LittleEndian.length_encode,
        List.take_of_length_le (by rw [LittleEndian.length_encode]; exact h4)]
      exact keepMessage_short_type context (by rw [List.length_take]; omega) kept
  · next h8 =>
    refine ⟨.handled, ?_⟩
    rw [List.take_append, length_header,
      List.take_of_length_le (by rw [length_header]; omega)]
    refine keepMessage_header context ?_
    have hg : (payload context e.type).layout.Granted malloc (e.args context) := e.granted_args hm
    have hr := Layout.keeping_take _ e.valid_args hg (k := k - 8) (by omega)
    rw [keepEvent, EventType.ofNumber_number]
    dsimp only
    rw [holding, StreamReader.run_bind_of_value hr]
    simp

theorem keep_eventStream (hm : ClientEvent.GrantsEvents malloc) (es : List ClientEvent)
    (s : Bytes) (n : ℕ) (kept : Multiset ℕ) :
    serveFrom (keepMessage malloc context) (fun v => 0 ≤ v.code) (es.length + n) kept
        (eventStream context es ++ s) =
      (context.callbacks es ++ (serveFrom (keepMessage malloc context) (fun v => 0 ≤ v.code) n
          (context.kept es + kept) s).1,
        (serveFrom (keepMessage malloc context) (fun v => 0 ≤ v.code) n
          (context.kept es + kept) s).2) := by
  induction es generalizing kept with
  | nil => simp [Context.callbacks, Context.kept]
  | cons e es ih =>
    have hr := keepMessage_event context hm kept e (eventStream context es ++ s)
    have hsum : context.kept es + ((e.received (context.opts e.type)).kept + kept) =
        context.kept (e :: es) + kept := by
      rw [Context.kept, add_left_comm, ← add_assoc]
    rw [List.length_cons, Nat.add_right_comm, eventStream_cons, List.append_assoc,
      StreamReader.serveFrom_keep hr rfl, ih, hsum, callbacks_cons, List.append_assoc]

theorem keep_of_run {s : Bytes} {kept kept' : Multiset ℕ} {v : Verdict}
    (h : (keepMessage malloc context kept).run s = ([], some ((v, kept'), []))) (n : ℕ) :
    ∃ v', serveFrom (keepMessage malloc context) (fun v => 0 ≤ v.code) (n + 2) kept s =
      ([], .closed v', kept') := by
  by_cases hv : 0 ≤ v.code
  · refine ⟨.failed, ?_⟩
    rw [StreamReader.serveFrom_keep h (by simpa using hv),
      StreamReader.serveFrom_close (keepMessage_short context (by decide) kept') (by decide)]
    rfl
  · exact ⟨v, StreamReader.serveFrom_close h (by simpa using hv) _⟩

/-- Serving a connection on a heap counts what is left of it. -/
theorem serveConnection_counts (malloc : ℕ → Bool) (n : ℕ) (h : OnHeap.State) (s : Bytes) :
    (OnHeap.serveConnection malloc context n h s).1 =
      (serveFrom (keepMessage malloc context) (fun v => 0 ≤ v.code) n 0 s).1 ∧
    (OnHeap.serveConnection malloc context n h s).2.1 =
      (serveFrom (keepMessage malloc context) (fun v => 0 ≤ v.code) n 0 s).2.1 ∧
    ∃ m, OnHeap.sizes m =
        (serveFrom (keepMessage malloc context) (fun v => 0 ≤ v.code) n 0 s).2.2 ∧
      Adds h m (OnHeap.serveConnection malloc context n h s).2.2 :=
  StreamReader.serveFrom_refines
    (I := fun kept h' => ∃ m, OnHeap.sizes m = kept ∧ Adds h m h')
    (fun _ _ hk => OnHeap.handleMessage_refines hk) n ⟨0, rfl, .refl h⟩ s

end

/--
On every stream, from every heap, the handlers with their pointers do what they do without
them: the same callbacks run on the same arguments, the connection is closed where it was,
and whatever is undefined was so without a heap. No block is used or freed that is not
live, and the blocks of the heap in front of the connection stay as they were.
-/
theorem serveConnection_onHeap (malloc : ℕ → Bool) (context : Context) (n : ℕ) (h : OnHeap.State)
    (s : Bytes) :
    (OnHeap.serveConnection malloc context n h s).1 = (serveConnection malloc context n s).1 ∧
    (OnHeap.serveConnection malloc context n h s).2.1 = (serveConnection malloc context n s).2 ∧
    ∀ a x, h.block a = some x →
      (OnHeap.serveConnection malloc context n h s).2.2.block a = some x := by
  obtain ⟨hc, hs, m, -, ho⟩ := serveConnection_counts context malloc n h s
  obtain ⟨hc', hs'⟩ := StreamReader.serveFrom_serve
    (keepMessage_refines malloc context) n 0 s
  exact ⟨hc.trans hc', hs.trans hs', fun a x hb => ho.old hb⟩

/--
A connection with complete events, and one that breaks off after `k` bytes, leaves the
directories of the `open` events, and of the last event what was complete, each of them in
a block that nothing will free.
-/
theorem serve_leaves {malloc : ℕ → Bool} (hm : ClientEvent.GrantsEvents malloc)
    (context : Context) (h : OnHeap.State) (es : List ClientEvent) (e : ClientEvent) {k : ℕ}
    (hk : k < ((Message.event e).bytes context.clientOpts).length) {n : ℕ}
    (hn : es.length + 2 ≤ n) :
    ∃ v h' m, OnHeap.serveConnection malloc context n h
        (eventStream context es ++ ((Message.event e).bytes context.clientOpts).take k) =
        (context.callbacks es, .closed v, h') ∧
      Adds h m h' ∧ OnHeap.sizes m = e.left context k + context.kept es := by
  obtain ⟨j, rfl⟩ : ∃ j, n = es.length + (j + 2) := ⟨n - es.length - 2, by omega⟩
  obtain ⟨hc, hs, m, hsz, ho⟩ := serveConnection_counts context malloc
    (es.length + (j + 2)) h
    (eventStream context es ++ ((Message.event e).bytes context.clientOpts).take k)
  obtain ⟨v, hr⟩ := keepMessage_take context hm (context.kept es + 0) e hk
  obtain ⟨v', hv⟩ := keep_of_run context hr j
  rw [keep_eventStream context hm, hv] at hc hs hsz
  refine ⟨v', _, m, Prod.ext ?_ (Prod.ext hs rfl), ho, ?_⟩
  · rw [hc, List.append_nil]
  · rw [hsz, add_zero]

/-- An `open` event with a directory, and one that breaks off behind its path. -/
theorem serve_leaves_open :
    ∃ v h' m, OnHeap.serveConnection (fun _ => true) ⟨fun _ => ⟨observeOpenCwd, some 7, 9⟩⟩ 3
        Allocator.Heap.empty
        (eventStream ⟨fun _ => ⟨observeOpenCwd, some 7, 9⟩⟩
            [.open_ (some [97]) 0 0 3 (some [47]) 12] ++
          ((Message.event (.open_ (some [98, 99]) 0 0 4 (some [47]) 12)).bytes
            (Context.clientOpts ⟨fun _ => ⟨observeOpenCwd, some 7, 9⟩⟩)).take 18) =
        (Context.callbacks ⟨fun _ => ⟨observeOpenCwd, some 7, 9⟩⟩
          [.open_ (some [97]) 0 0 3 (some [47]) 12], .closed v, h') ∧
      Adds Allocator.Heap.empty m h' ∧ OnHeap.sizes m = {3, 2} :=
  serve_leaves (fun _ _ => rfl) ⟨fun _ => ⟨observeOpenCwd, some 7, 9⟩⟩ Allocator.Heap.empty
    [.open_ (some [97]) 0 0 3 (some [47]) 12] (.open_ (some [98, 99]) 0 0 4 (some [47]) 12)
    (by decide) (by decide)

end Voyeur
