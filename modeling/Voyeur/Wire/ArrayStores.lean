import Voyeur.Wire.Fields

/-! # The arrays of `handle_exec`

`handle_exec` with every store that it makes into the slots of `argv` and `envp`, and with
the sums that size them. The counts come from the stream as they are: a negative one, the
largest one and one whose slots are refused each break another use.
-/

namespace Voyeur

open LittleEndian (encode)
open StreamReader (Announces Observes announces_bind_iff announces_emit_iff)

/-- What `handle_exec` does with its arrays, and the callback that it runs. -/
inductive Access where
  /-- The signed sum `count + 1`. -/
  | sum (count : CInt)
  /-- The store of an element into an array of so many slots, or into `NULL`. -/
  | store (slots : Buffer) (index : ℤ)
  | callback (call : Call)
  deriving DecidableEq

/-- The callback, if it is one. -/
def Access.callback? : Access → Option Call
  | .callback call => some call
  | .sum _ | .store _ _ => none

/-- A sum that does not overflow, and a store into a slot that was allocated. -/
def Access.InBounds : Access → Prop
  | .sum count => count ≠ intMax
  | .store slots index => ∃ size, slots = some size ∧ 0 ≤ index ∧ index < size
  | .callback _ => True

/-- The observer's programs with what they do with arrays. -/
abbrev Watched := StreamReader Byte Access

/-- A program that has nothing to do with arrays. -/
def watch {β : Type} (p : Rd β) : Watched β := p.mapEmit .callback

def storeWatched (slots : Buffer) (index : ℤ) : Watched Unit :=
  .emit (.store slots index) (watch (store slots index))

def returnOnFailWatched {β : Type} (p : Watched (Option β)) (k : β → Watched Unit) :
    Watched Unit := do
  match ← p with
  | some b => k b
  | none => return ()

section

variable (malloc : ℕ → Bool)

/-- `readEntries` with its stores. -/
def readEntriesWatched (slots : Buffer) : (n i : ℕ) → Watched (Option (List Bytes))
  | 0, _ => pure (some [])
  | n + 1, i => do
    match ← watch (readString malloc 0) with
    | none => return none
    | some entry =>
      storeWatched slots i
      return (← readEntriesWatched slots n (i + 1)).map (entry :: ·)

/-- `readStrings` with its sum and its stores. -/
def readStringsWatched (count : CInt) : Watched (Option (List Bytes)) :=
  .emit (.sum count)
    (if count = intMax then .fault
    else do
      let slots := (allocate malloc (8 * (count + 1).signExtend 64)).map (· / 8)
      match ← readEntriesWatched malloc slots count.toInt.toNat 0 with
      | none => return none
      | some entries =>
        storeWatched slots count.toInt
        return some entries)

def readArrayWatched : Watched (Option (List Bytes)) := do
  match ← watch readInt with
  | none => return none
  | some count => readStringsWatched malloc count

def readIfWatched {β : Type} (asked : Bool) (p : Watched (Option β)) :
    Watched (Option (Option β)) :=
  if asked then do return (← p).map some else pure (some none)

/-- `handle_exec` behind the environment. -/
def finishExecWatched (context : Context) (file : Bytes) (argv : List Bytes)
    (envp : Option (List Bytes)) : Watched Unit :=
  returnOnFailWatched (watch (readIf (hasFlag (context.opts .exec) observeExecPath)
    (readString malloc 0))) fun path =>
  returnOnFailWatched (watch (readIf (hasFlag (context.opts .exec) observeExecCwd)
    (readString malloc 0))) fun cwd =>
  returnOnFailWatched (watch readPid) fun pid =>
  returnOnFailWatched (watch readPid) fun ppid =>
  watch (runCallback context (.exec file argv envp path cwd pid ppid))

/-- `handle_exec`, where everything but the arrays is as in `handleExec`. -/
def handleExecWatched (context : Context) : Watched Unit :=
  returnOnFailWatched (watch (readString malloc 0)) fun file =>
  returnOnFailWatched (readArrayWatched malloc) fun argv =>
  returnOnFailWatched (readIfWatched (hasFlag (context.opts .exec) observeExecEnv)
    (readArrayWatched malloc)) fun envp =>
  finishExecWatched malloc context file argv envp

/-- Every element of `argv` and `envp` has a slot, and the sums that size them are defined. -/
def StoresInBounds (context : Context) (s : Bytes) : Prop :=
  (handleExecWatched malloc context).Announces s Access.InBounds

/--
An array that is misused: its count is negative or `INT_MAX`, or it has no slots and its `NULL`
or a first string to store.
-/
def ArrayMisused (s : Bytes) : Prop :=
  ∃ (c : CInt) (u : Bytes), s = encode 4 c ++ u ∧ (intMax.toNat ≤ c.toNat ∨
    ¬ GrantsArray malloc c.toNat ∧ (c.toNat = 0 ∨
      ∃ b t, GrantsString malloc b.length ∧ u = stringBytes b ++ t))

/-- The arrays that `handle_exec` gets to on a stream are not misused. -/
structure ArraysUsable (options : Byte) (s : Bytes) : Prop where
  argv : ∀ file t, GrantsString malloc file.length → s = stringBytes file ++ t →
    ¬ ArrayMisused malloc t
  envp : hasFlag options observeExecEnv = true → ∀ file argv t,
    GrantsString malloc file.length → argv.length < intMax.toNat →
    GrantsArray malloc argv.length → (∀ b ∈ argv, GrantsString malloc b.length) →
    s = stringBytes file ++ (arrayBytes argv ++ t) → ¬ ArrayMisused malloc t

end

section

variable {malloc : ℕ → Bool}

theorem observes_watch {β : Type} (p : Rd β) : Observes Access.callback? (watch p) p :=
  Observes.mapEmit (f := Access.callback) (fun _ => rfl) p

theorem observes_storeWatched (slots : Buffer) (index : ℤ) :
    Observes Access.callback? (storeWatched slots index) (store slots index) :=
  .emit rfl (observes_watch _)

theorem observes_returnOnFail {β : Type} {p : Watched (Option β)} {q : Rd (Option β)}
    {k : β → Watched Unit} {k' : β → Rd Unit} (h : Observes Access.callback? p q)
    (hk : ∀ b, Observes Access.callback? (k b) (k' b)) :
    Observes Access.callback? (returnOnFailWatched p k) (Voyeur.returnOnFail q k') := by
  refine h.bind fun r => ?_
  cases r with
  | none => exact .pure ()
  | some b => exact hk b

theorem observes_readEntries (slots : Buffer) (n i : ℕ) :
    Observes Access.callback? (readEntriesWatched malloc slots n i)
      (readEntries malloc slots n i) := by
  induction n generalizing i with
  | zero => exact .pure _
  | succ n ih =>
    refine (observes_watch _).bind fun r => ?_
    cases r with
    | none => exact .pure none
    | some entry =>
      refine (observes_storeWatched slots i).bind fun _ => ?_
      exact (ih (i + 1)).bind fun r => .pure _

theorem observes_readStrings (count : CInt) :
    Observes Access.callback? (readStringsWatched malloc count) (readStrings malloc count) := by
  refine .emit rfl ?_
  rw [readStrings]
  split
  · exact .fault
  · refine (observes_readEntries _ _ _).bind fun r => ?_
    cases r with
    | none => exact .pure none
    | some entries => exact (observes_storeWatched _ _).bind fun _ => .pure _

theorem observes_readArray :
    Observes Access.callback? (readArrayWatched malloc) (readArray malloc) := by
  refine (observes_watch readInt).bind fun r => ?_
  cases r with
  | none => exact .pure none
  | some count => exact observes_readStrings count

theorem observes_readIf {β : Type} {p : Watched (Option β)} {q : Rd (Option β)} (asked : Bool)
    (h : Observes Access.callback? p q) :
    Observes Access.callback? (readIfWatched asked p) (readIf asked q) := by
  cases asked with
  | true => exact h.bind fun r => .pure _
  | false => exact .pure _

/-- Without its stores and sums the handler is `handleExec`. -/
theorem observes_handleExec (context : Context) :
    Observes Access.callback? (handleExecWatched malloc context) (handleExec malloc context) := by
  refine observes_returnOnFail (observes_watch _) fun file => ?_
  refine observes_returnOnFail observes_readArray fun argv => ?_
  refine observes_returnOnFail (observes_readIf _ observes_readArray) fun envp => ?_
  rw [finishExecWatched]
  refine observes_returnOnFail (observes_watch _) fun path => ?_
  refine observes_returnOnFail (observes_watch _) fun cwd => ?_
  refine observes_returnOnFail (observes_watch _) fun pid => ?_
  exact observes_returnOnFail (observes_watch _) fun ppid => observes_watch _

end

section

variable {malloc : ℕ → Bool} {s : Bytes}

theorem readString_value_iff {b t : Bytes} :
    ((readString malloc 0).run s).2 = some (some b, t) ↔
      GrantsString malloc b.length ∧ s = stringBytes b ++ t := by
  constructor
  · intro h
    rcases string_cases malloc s with ⟨b', t', hb, rfl⟩ | ⟨len, t', hr, rfl⟩ | ⟨len, t', hu, rfl⟩ |
      hc
    · rw [readString_accepts hb] at h
      cases h
      exact ⟨hb, rfl⟩
    · rw [readString_refused hr] at h
      cases h
    · rw [readString_undefined hu] at h
      cases h
    · rw [hc] at h
      cases h
  · rintro ⟨hb, rfl⟩
    rw [readString_accepts hb]

theorem readArray_value_iff {l : List Bytes} {t : Bytes} :
    ((readArray malloc).run s).2 = some (some l, t) ↔
      l.length < intMax.toNat ∧ GrantsArray malloc l.length ∧
        (∀ b ∈ l, GrantsString malloc b.length) ∧ s = arrayBytes l ++ t := by
  constructor
  · intro h
    rcases array_cases malloc s with ⟨l', t', hl, ha, hg, rfl⟩ | ⟨t', hr⟩ | hu | hc
    · rw [readArray_accepts hl ha hg] at h
      cases h
      exact ⟨hl, ha, hg, rfl⟩
    · rw [readArray_refused hr] at h
      cases h
    · rw [readArray_undefined hu] at h
      cases h
    · rw [hc] at h
      cases h
  · rintro ⟨hl, ha, hg, rfl⟩
    rw [readArray_accepts hl ha hg]

theorem value_readArrayWatched :
    ((readArrayWatched malloc).run s).2 = ((readArray malloc).run s).2 :=
  (congrArg Prod.snd (observes_readArray s)).symm

theorem value_watch {β : Type} (p : Rd β) : ((watch p).run s).2 = (p.run s).2 :=
  (congrArg Prod.snd (observes_watch p s)).symm

theorem announces_pure {β : Type} (b : β) :
    (pure b : Watched β).Announces s Access.InBounds := by
  intro a ha
  cases ha

theorem announces_watch {β : Type} (p : Rd β) : (watch p).Announces s Access.InBounds := by
  intro a ha
  rw [watch, StreamReader.run_mapEmit] at ha
  obtain ⟨call, -, rfl⟩ := List.mem_map.mp ha
  trivial

theorem announces_storeWatched_iff {slots : Buffer} {index : ℤ} :
    (storeWatched slots index).Announces s Access.InBounds ↔
      ∃ size, slots = some size ∧ 0 ≤ index ∧ index < size :=
  announces_emit_iff.trans (and_iff_left (announces_watch _))

theorem announces_readEntries {size n i : ℕ} (h : i + n ≤ size) :
    (readEntriesWatched malloc (some size) n i).Announces s Access.InBounds := by
  induction n generalizing i s with
  | zero => exact announces_pure _
  | succ n ih =>
    refine announces_bind_iff.mpr ⟨announces_watch _, fun r t _ => ?_⟩
    cases r with
    | none => exact announces_pure _
    | some entry =>
      refine announces_bind_iff.mpr ⟨?_, fun _ t' _ => ?_⟩
      · exact announces_storeWatched_iff.mpr ⟨size, rfl, by omega, by omega⟩
      · exact announces_bind_iff.mpr ⟨ih (by omega), fun r t'' _ => announces_pure _⟩

/-- Without slots the first entry must not be read. -/
theorem announces_readEntries_null_iff {n i : ℕ} :
    (readEntriesWatched malloc none (n + 1) i).Announces s Access.InBounds ↔
      ¬ ∃ b t, GrantsString malloc b.length ∧ s = stringBytes b ++ t := by
  rw [readEntriesWatched, announces_bind_iff, and_iff_right (announces_watch _), value_watch]
  constructor
  · rintro h ⟨b, t, hb, hs⟩
    have hst := (announces_bind_iff.mp (h _ _ (readString_value_iff.mpr ⟨hb, hs⟩))).1
    obtain ⟨size, hn, -⟩ := announces_storeWatched_iff.mp hst
    cases hn
  · intro h r t hr
    cases r with
    | none => exact announces_pure _
    | some b => exact (h ⟨b, t, readString_value_iff.mp hr⟩).elim

theorem not_announces_readStrings {c : CInt} (h : intMax.toNat ≤ c.toNat) :
    ¬ (readStringsWatched malloc c).Announces s Access.InBounds := by
  intro ha
  rw [readStringsWatched, announces_emit_iff] at ha
  obtain ⟨hne, ha⟩ := ha
  change c ≠ intMax at hne
  have hneg : c.toInt < 0 := by
    have hn : c.toNat ≠ 2147483647 := fun he => hne (BitVec.eq_of_toNat_eq he)
    have hle : 2147483647 ≤ c.toNat := h
    have hlt := c.isLt
    rw [BitVec.toInt_eq_toNat_cond]
    split <;> omega
  rw [if_neg hne, Int.toNat_of_nonpos hneg.le] at ha
  have hst := (announces_bind_iff.mp ((announces_bind_iff.mp ha).2 (some []) s rfl)).1
  obtain ⟨size, -, h0, -⟩ := announces_storeWatched_iff.mp hst
  omega

theorem announces_readStrings_of_lt {c : CInt} (h : c.toNat < intMax.toNat) :
    (readStringsWatched malloc c).Announces s Access.InBounds ↔
      (readEntriesWatched malloc (arraySlots malloc c.toNat) c.toNat 0).Announces s
        Access.InBounds ∧
      ∀ entries t,
        ((readEntriesWatched malloc (arraySlots malloc c.toNat) c.toNat 0).run s).2 =
          some (some entries, t) →
        ∃ size, arraySlots malloc c.toNat = some size ∧ c.toNat < size := by
  have hsum : Access.InBounds (.sum c) := ne_intMax h
  have hslots : (allocate malloc (8 * (c + 1).signExtend 64)).map (· / 8) =
      arraySlots malloc c.toNat := slots_eq malloc h
  rw [readStringsWatched, announces_emit_iff, and_iff_right hsum, if_neg (ne_intMax h),
    announces_bind_iff, hslots, toInt_count h, Int.toNat_natCast]
  refine and_congr_right fun _ => ⟨fun ha entries t hr => ?_, fun ha r t hr => ?_⟩
  · have hst := (announces_bind_iff.mp (ha (some entries) t hr)).1
    obtain ⟨size, hs, -, hlt⟩ := announces_storeWatched_iff.mp hst
    exact ⟨size, hs, by omega⟩
  · cases r with
    | none => exact announces_pure _
    | some entries =>
      obtain ⟨size, hs, hlt⟩ := ha entries t hr
      refine announces_bind_iff.mpr ⟨?_, fun _ _ _ => announces_pure _⟩
      exact announces_storeWatched_iff.mpr ⟨size, hs, by omega, by omega⟩

theorem readEntries_null_value {m : ℕ} {entries : List Bytes} {t : Bytes}
    (h : ((readEntriesWatched malloc none (m + 1) 0).run s).2 = some (some entries, t)) :
    ∃ b u, GrantsString malloc b.length ∧ s = stringBytes b ++ u := by
  have ho : Observes Access.callback? (readEntriesWatched malloc none (m + 1) 0)
      (readEntries malloc none (m + 1) 0) := observes_readEntries none (m + 1) 0
  have hv := congrArg Prod.snd (ho s)
  rw [← hv, readEntries, StreamReader.run_bind] at h
  rcases hs : (readString malloc 0).run s with ⟨es, _ | ⟨_ | b, u⟩⟩
  · rw [hs] at h
    cases h
  · rw [hs] at h
    cases h
  · exact ⟨b, u, readString_value_iff.mp (by rw [hs])⟩

theorem announces_readStrings_iff {c : CInt} (h : c.toNat < intMax.toNat) :
    (readStringsWatched malloc c).Announces s Access.InBounds ↔
      ¬ (¬ GrantsArray malloc c.toNat ∧ (c.toNat = 0 ∨
        ∃ b t, GrantsString malloc b.length ∧ s = stringBytes b ++ t)) := by
  rw [announces_readStrings_of_lt h, arraySlots]
  by_cases hg : GrantsArray malloc c.toNat
  · refine iff_of_true ?_ fun hm => hm.1 hg
    rw [if_pos hg]
    exact ⟨announces_readEntries (by omega), fun _ _ _ => ⟨_, rfl, Nat.lt_succ_self _⟩⟩
  · rw [if_neg hg, not_and, imp_iff_right hg]
    rcases Nat.eq_zero_or_pos c.toNat with h0 | h0
    · -- The `NULL` of an empty array goes to `NULL`.
      refine iff_of_false ?_ fun hn => hn (.inl h0)
      rintro ⟨-, ha⟩
      obtain ⟨size, hn, -⟩ := ha [] s (by rw [h0]; rfl)
      cases hn
    · obtain ⟨m, hm⟩ : ∃ m, c.toNat = m + 1 := ⟨c.toNat - 1, by omega⟩
      rw [hm, announces_readEntries_null_iff, not_or, and_iff_right (Nat.succ_ne_zero m)]
      exact and_iff_left_of_imp fun hn entries t hr => (hn (readEntries_null_value hr)).elim

theorem announces_readArray_iff :
    (readArrayWatched malloc).Announces s Access.InBounds ↔ ¬ ArrayMisused malloc s := by
  rw [readArrayWatched, announces_bind_iff, and_iff_right (announces_watch _), value_watch]
  constructor
  · rintro h ⟨c, u, rfl, hc⟩
    have ha : (readStringsWatched malloc c).Announces u Access.InBounds :=
      h (some c) u (by rw [readInt_accepts c u])
    rcases Nat.lt_or_ge c.toNat intMax.toNat with hlt | hge
    · exact (announces_readStrings_iff hlt).mp ha (hc.resolve_left (by omega))
    · exact not_announces_readStrings hge ha
  · intro h r t hr
    rcases word_cases 4 s with hs | ⟨c, u, rfl⟩
    · rw [readInt, readWord_short (by decide) hs] at hr
      cases hr
      exact announces_pure _
    · rw [readInt_accepts c u] at hr
      cases hr
      have hlt : c.toNat < intMax.toNat := not_le.mp fun hge => h ⟨c, t, rfl, .inl hge⟩
      exact (announces_readStrings_iff hlt).mpr fun hm => h ⟨c, t, rfl, .inr hm⟩

theorem announces_returnOnFail_iff {β : Type} {p : Watched (Option β)} {k : β → Watched Unit} :
    (returnOnFailWatched p k).Announces s Access.InBounds ↔
      p.Announces s Access.InBounds ∧
        ∀ b t, (p.run s).2 = some (some b, t) → (k b).Announces t Access.InBounds := by
  rw [returnOnFailWatched, announces_bind_iff]
  refine and_congr_right fun _ => ⟨fun h b t hb => h (some b) t hb, fun h r t hr => ?_⟩
  cases r with
  | none => exact announces_pure ()
  | some b => exact h b t hr

theorem announces_finishExec (context : Context) (file : Bytes) (argv : List Bytes)
    (envp : Option (List Bytes)) :
    (finishExecWatched malloc context file argv envp).Announces s Access.InBounds := by
  refine announces_returnOnFail_iff.mpr ⟨announces_watch _, fun path t _ => ?_⟩
  refine announces_returnOnFail_iff.mpr ⟨announces_watch _, fun cwd t _ => ?_⟩
  refine announces_returnOnFail_iff.mpr ⟨announces_watch _, fun pid t _ => ?_⟩
  exact announces_returnOnFail_iff.mpr ⟨announces_watch _, fun ppid t _ => announces_watch _⟩

theorem announces_readIf_iff (asked : Bool) :
    (readIfWatched asked (readArrayWatched malloc)).Announces s Access.InBounds ↔
      (asked = true → ¬ ArrayMisused malloc s) := by
  cases asked with
  | false =>
    refine iff_of_true (announces_pure _) fun h => ?_
    cases h
  | true =>
    rw [readIfWatched, if_pos rfl, announces_bind_iff,
      and_iff_left fun r t _ => announces_pure _, announces_readArray_iff, imp_iff_right rfl]

end

/-- Everything is stored in bounds just if the arrays on the stream are not misused. -/
theorem storesInBounds_iff (malloc : ℕ → Bool) (context : Context) (s : Bytes) :
    StoresInBounds malloc context s ↔ ArraysUsable malloc (context.opts .exec) s := by
  have harrays (file : Bytes) (t : Bytes) :
      (returnOnFailWatched (readArrayWatched malloc) fun argv =>
        returnOnFailWatched (readIfWatched (hasFlag (context.opts .exec) observeExecEnv)
          (readArrayWatched malloc)) fun envp =>
        finishExecWatched malloc context file argv envp).Announces t Access.InBounds ↔
      ¬ ArrayMisused malloc t ∧ ∀ argv t', ((readArray malloc).run t).2 = some (some argv, t') →
        hasFlag (context.opts .exec) observeExecEnv = true → ¬ ArrayMisused malloc t' := by
    rw [announces_returnOnFail_iff, announces_readArray_iff, value_readArrayWatched]
    refine and_congr_right fun _ => forall_congr' fun argv => forall_congr' fun t' => ?_
    refine imp_congr_right fun _ => ?_
    rw [announces_returnOnFail_iff, announces_readIf_iff,
      and_iff_left fun envp t _ => announces_finishExec context file argv envp]
  rw [StoresInBounds, handleExecWatched, announces_returnOnFail_iff,
    and_iff_right (announces_watch _), value_watch]
  constructor
  · intro h
    have hfile (file t : Bytes) (hf : GrantsString malloc file.length)
        (hs : s = stringBytes file ++ t) :=
      (harrays file t).mp (h file t (readString_value_iff.mpr ⟨hf, hs⟩))
    refine ⟨fun file t hf hs => (hfile file t hf hs).1, ?_⟩
    intro he file argv t hf hl ha hg hs
    exact (hfile file _ hf hs).2 argv t (readArray_value_iff.mpr ⟨hl, ha, hg, rfl⟩) he
  · intro h file t hr
    obtain ⟨hf, hs⟩ := readString_value_iff.mp hr
    refine (harrays file t).mpr ⟨h.argv file t hf hs, fun argv t' hr' he => ?_⟩
    obtain ⟨hl, ha, hg, ht⟩ := readArray_value_iff.mp hr'
    exact h.envp he file argv t' hf hl ha hg (by rw [hs, ht])

/-- A path without bytes and the count -1, for which `malloc(0)` is granted. -/
theorem not_storesInBounds_negative :
    ¬ StoresInBounds (fun _ => true) ⟨fun _ => ⟨0, none, 0⟩⟩
      (stringBytes [] ++ encode 4 (-1 : CInt)) := by
  intro h
  obtain ⟨size, -, h0, -⟩ := h (.store (some 0) (-1)) (by decide +kernel)
  omega

end Voyeur
