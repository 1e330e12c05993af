import Voyeur.Environment.Truncation
import Voyeur.Files.Tree
import Voyeur.Text.Separated

/-! # The requested libraries

`voyeur_requested_libs` appends one library for every observed event to a buffer whose
size is computed beforehand. The size counts every library once with a separator behind
it, which is enough for every selection, so that no append is cut.
-/

namespace Voyeur

open FileTree (slash strrchr)

/-- The name of an event type in `MAP_EVENTS`. -/
def EventType.name : EventType → CStr
  | .exec => ascii ['e', 'x', 'e', 'c']
  | .exit => ascii ['e', 'x', 'i', 't']
  | .open_ => ascii ['o', 'p', 'e', 'n']
  | .close => ascii ['c', 'l', 'o', 's', 'e']

/-- `LIB_SUFFIX`. -/
def libSuffix : CStr := ascii ['.', 's', 'o']

/-- The file name of the library for an event type. -/
def libName (t : EventType) : CStr :=
  ascii ['l', 'i', 'b', 'v', 'o', 'y', 'e', 'u', 'r', '-'] ++ t.name ++ libSuffix

/-- The separator of libraries. -/
def colon : Byte := 0x3a

/-- The context with the path that `voyeur_set_resource_path` sets. -/
structure LibContext extends Context where
  resourcePath : Option CStr

/-- The assignment to `context->exec_cb`. -/
def LibContext.setExecCb (context : LibContext) (cb : Option ℕ) : LibContext where
  observer t :=
    if t = .exec then { context.observer .exec with cb := cb } else context.observer t
  resourcePath := context.resourcePath

/-- `compute_libs_size`, where `all_libs` has a terminating NUL. -/
def computeLibsSize (libdirSize : ℕ) : ℕ :=
  (mapEvents.flatMap fun t => libName t ++ [colon]).length + 1 + eventMax * libdirSize

/--
`get_default_resource_path`: without a value `dladdr` failed, and the name of the file may be
`NULL`. The difference of the two pointers is stored in an `int`.
-/
def getDefaultResourcePath (dlinfo : Option (Option CStr)) : CStr :=
  match dlinfo with
  | some (some fname) =>
    match strrchr fname slash with
    | some i =>
      let lenWithSlashAndNull : CInt := BitVec.ofNat 32 (i + 2)
      strlcpy fname (lenWithSlashAndNull.signExtend 64).toNat
    | none => ascii ['.', '/']
  | _ => ascii ['.', '/']

/-- The buffer during the loop, and the lengths that `strlcat` returned, which nobody looks at. -/
structure LibsBuffer where
  libs : CStr
  prev : Bool
  returned : List ℕ

/-- `strlcat(libs, src, libs_size)`. -/
def LibsBuffer.append (size : ℕ) (src : CStr) (b : LibsBuffer) : LibsBuffer :=
  { b with
    libs := strlcat b.libs src size
    returned := b.returned ++ [min size b.libs.length + src.length] }

/-- The body of the loop, which `ON_EVENT` repeats for every event type. -/
def LibsBuffer.onEvent (context : Context) (libdir : CStr) (size : ℕ) (b : LibsBuffer)
    (t : EventType) : LibsBuffer :=
  match (context.observer t).cb with
  | none => b
  | some _ =>
    let b := if b.prev then b.append size (ascii [':']) else b
    let b := b.append size libdir
    let b := b.append size (libName t)
    { b with prev := true }

/--
`voyeur_requested_libs`: the context afterwards, the size of the buffer and what is in it.
The address of `did_force_exec` is the dummy value for the callback; `calloc` is taken to
succeed.
-/
def requestedLibs (dummy : ℕ) (dlinfo : Option (Option CStr)) (context : LibContext) :
    LibContext × ℕ × LibsBuffer :=
  let libdir := context.resourcePath.getD (getDefaultResourcePath dlinfo)
  let size := computeLibsSize (strnlen libdir 4096)
  let didForceExec := (context.observer .exec).cb.isNone
  let context := if didForceExec then context.setExecCb (some dummy) else context
  let b := mapEvents.foldl (LibsBuffer.onEvent context.toContext libdir size) ⟨[], false, []⟩
  let context := if didForceExec then context.setExecCb none else context
  (context, size, b)

/-- The path of the file up to and including its last slash. -/
def directoryOf (fname : CStr) : CStr := fname.rdropWhile (· != slash)

-- The test for a slash rests on one named fact about bytes.
local instance : LawfulBEq Byte := inferInstance

/-- The directory of the libraries. -/
def libraryDirectory (dlinfo : Option (Option CStr)) (context : LibContext) : CStr :=
  match context.resourcePath, dlinfo with
  | some path, _ => path
  | none, some (some fname) =>
    if slash ∈ fname then directoryOf fname else ascii ['.', '/']
  | none, _ => ascii ['.', '/']

/-- The observed events, in order, together with `exec`. -/
def requestedEvents (context : Context) : List EventType :=
  mapEvents.filter fun t => t = .exec || (context.observer t).cb.isSome

/-- The requested libraries in a directory. -/
def requestedPaths (libdir : CStr) (context : Context) : List CStr :=
  (requestedEvents context).map fun t => libdir ++ libName t

/-- The list that the observed process is to preload. -/
def libsList (libdir : CStr) (context : Context) : CStr :=
  [colon].intercalate (requestedPaths libdir context)

theorem directoryOf_append {s t : CStr} (h : slash ∉ t) :
    directoryOf (s ++ slash :: t) = s ++ [slash] := by
  have ht : ∀ b ∈ t.reverse, (b != slash) = true := by
    intro b hb
    simpa using fun he : b = slash => h (he ▸ List.mem_reverse.mp hb)
  rw [directoryOf, List.rdropWhile, List.reverse_append, List.reverse_cons, List.append_assoc,
    List.dropWhile_append_of_pos ht]
  simp

theorem getDefaultResourcePath_eq {s t : CStr} (h : slash ∉ t) (hl : s.length + 2 < 2 ^ 31) :
    getDefaultResourcePath (some (some (s ++ slash :: t))) = s ++ [slash] := by
  have hi : ((BitVec.ofNat 32 (s.length + 2)).signExtend 64).toNat = s.length + 2 := by
    have hn : (BitVec.ofNat 32 (s.length + 2)).toNat = s.length + 2 :=
      Nat.mod_eq_of_lt (by omega)
    have hm : (BitVec.ofNat 32 (s.length + 2)).msb = false := by
      rw [BitVec.msb_eq_decide, hn]
      exact decide_eq_false (by omega)
    rw [BitVec.signExtend_eq_setWidth_of_msb_false hm, BitVec.toNat_setWidth, hn]
    omega
  simp only [getDefaultResourcePath, FileTree.strrchr_append h, hi, strlcpy]
  rw [List.take_append, List.take_of_length_le (by omega)]
  simp

theorem libdir_eq {dlinfo : Option (Option CStr)} {context : LibContext}
    (h : (libraryDirectory dlinfo context).length ≤ 4096) :
    context.resourcePath.getD (getDefaultResourcePath dlinfo) =
      libraryDirectory dlinfo context := by
  cases hr : context.resourcePath with
  | some path => simp [libraryDirectory, hr]
  | none =>
    rcases dlinfo with - | - | fname
    · simp [libraryDirectory, hr, getDefaultResourcePath]
    · simp [libraryDirectory, hr, getDefaultResourcePath]
    · simp only [libraryDirectory, hr, Option.getD_none] at h ⊢
      by_cases hs : slash ∈ fname
      · obtain ⟨s, t, rfl, ht⟩ := Separated.exists_last_append hs
        rw [if_pos hs, directoryOf_append ht] at h ⊢
        rw [List.length_append, List.length_singleton] at h
        exact getDefaultResourcePath_eq ht (by omega)
      · simp [if_neg hs, getDefaultResourcePath, FileTree.strrchr_eq_none hs]

/-- The bytes that an event may need. -/
def need (libdir : CStr) (t : EventType) : ℕ := 1 + libdir.length + (libName t).length

/-- Nothing has been cut so far. -/
def LibsBuffer.Uncut (size : ℕ) (b : LibsBuffer) : Prop := ∀ n ∈ b.returned, n < size

theorem LibsBuffer.append_of_fits {size : ℕ} {src : CStr} {b : LibsBuffer} (hu : b.Uncut size)
    (h : b.libs.length + src.length < size) :
    (b.append size src).libs = b.libs ++ src ∧ (b.append size src).prev = b.prev ∧
      (b.append size src).Uncut size := by
  refine ⟨strlcat_of_fits h, rfl, ?_⟩
  intro n hn
  rcases List.mem_append.mp hn with hn | hn
  · exact hu n hn
  · rw [List.mem_singleton.mp hn]
    omega

theorem LibsBuffer.onEvent_of_fits (context : Context) {libdir : CStr} {size : ℕ}
    {b : LibsBuffer} {t : EventType} (hu : b.Uncut size)
    (h : b.libs.length + need libdir t < size) :
    (b.onEvent context libdir size t).Uncut size ∧
      ((context.observer t).cb = none → b.onEvent context libdir size t = b) ∧
      ((context.observer t).cb ≠ none → (b.onEvent context libdir size t).prev = true ∧
        (b.onEvent context libdir size t).libs =
          b.libs ++ ((if b.prev then [colon] else []) ++ (libdir ++ libName t))) := by
  cases hc : (context.observer t).cb with
  | none => simpa [onEvent, hc] using hu
  | some cb =>
    unfold need at h
    have hs : ∃ b', (if b.prev then b.append size (ascii [':']) else b) = b' ∧ b'.Uncut size ∧
        b'.libs = b.libs ++ if b.prev then [colon] else [] := by
      refine ⟨_, rfl, ?_⟩
      cases b.prev with
      | true =>
        have hf : b.libs.length + (ascii [':']).length < size := by
          have : (ascii [':']).length = 1 := rfl
          omega
        obtain ⟨hl, -, hu'⟩ := append_of_fits hu hf
        exact ⟨hu', hl⟩
      | false => exact ⟨hu, by simp⟩
    obtain ⟨b', hb, hu', hl'⟩ := hs
    have hn : b'.libs.length ≤ b.libs.length + 1 := by
      rw [hl', List.length_append]
      split <;> simp
    have hf1 : b'.libs.length + libdir.length < size := by omega
    obtain ⟨hl1, -, hu1⟩ := append_of_fits hu' hf1
    have hf2 : (b'.append size libdir).libs.length + (libName t).length < size := by
      rw [hl1, List.length_append]
      omega
    obtain ⟨hl2, -, hu2⟩ := append_of_fits hu1 hf2
    simp only [onEvent, hc, hb]
    refine ⟨hu2, by simp, fun _ => ⟨trivial, ?_⟩⟩
    rw [hl2, hl1, hl']
    simp only [List.append_assoc]

theorem LibsBuffer.foldl_onEvent (context : Context) {libdir : CStr} {size : ℕ}
    (ts : List EventType) {b : LibsBuffer} (hu : b.Uncut size)
    (h : b.libs.length + (ts.map (need libdir)).sum < size) :
    (ts.foldl (onEvent context libdir size) b).Uncut size ∧
      (ts.foldl (onEvent context libdir size) b).libs = b.libs ++ Separated.join colon b.prev
        ((ts.filter fun t => (context.observer t).cb.isSome).map (libdir ++ libName ·)) := by
  induction ts generalizing b with
  | nil => simpa [Separated.join] using hu
  | cons t ts ih =>
    rw [List.map_cons, List.sum_cons] at h
    have hf : b.libs.length + need libdir t < size := by omega
    obtain ⟨hu', hskip, hadd⟩ := onEvent_of_fits context hu hf
    rw [List.foldl_cons]
    cases hc : (context.observer t).cb with
    | none =>
      rw [hskip hc, List.filter_cons_of_neg (by simp [hc])]
      exact ih hu (by omega)
    | some cb =>
      obtain ⟨hp, hl⟩ := hadd (by simp [hc])
      have hn : (b.onEvent context libdir size t).libs.length ≤
          b.libs.length + need libdir t := by
        rw [hl]
        simp only [List.length_append, need]
        split
        · simp only [List.length_singleton]
          omega
        · simp only [List.length_nil]
          omega
      obtain ⟨hu'', hl''⟩ := ih hu' (by omega)
      refine ⟨hu'', ?_⟩
      rw [hl'', hp, hl, List.filter_cons_of_pos (by simp [hc]), List.map_cons, Separated.join]
      simp only [List.append_assoc]

theorem sum_need_lt (libdir : CStr) :
    (mapEvents.map (need libdir)).sum < computeLibsSize libdir.length := by
  have hs : (mapEvents.flatMap fun t => libName t ++ [colon]).length = 73 := by decide
  have hl : (mapEvents.map (need libdir)).sum =
      4 + 4 * libdir.length + (mapEvents.map fun t => (libName t).length).sum := by
    simp only [mapEvents, List.map_cons, List.map_nil, List.sum_cons, List.sum_nil, need]
    omega
  have hm : (mapEvents.map fun t => (libName t).length).sum = 69 := by decide
  rw [hl, hm, computeLibsSize, hs, eventMax]
  omega

/-- The result is exact, and no append was cut. -/
structure ExactLibs (libdir : CStr) (context : LibContext)
    (r : LibContext × ℕ × LibsBuffer) : Prop where
  content : r.2.2.libs = libsList libdir context.toContext
  /-- There is no separator in front of the first directory. -/
  first : libdir ++ libName .exec <+: r.2.2.libs
  /-- There is no separator behind the last library. -/
  last : libSuffix <:+ r.2.2.libs
  uncut : r.2.2.Uncut r.2.1
  size : r.2.1 = computeLibsSize libdir.length
  context : r.1 = context

theorem setExecCb_restore {context : LibContext} (h : (context.observer .exec).cb = none)
    (dummy : ℕ) : (context.setExecCb (some dummy)).setExecCb none = context := by
  obtain ⟨⟨observer⟩, resourcePath⟩ := context
  simp only [LibContext.setExecCb]
  congr 2
  ext1 t
  by_cases ht : t = .exec
  · have hx : (observer .exec).cb = none := h
    simp only [ht, if_true]
    rw [← hx]
  · rw [if_neg ht, if_neg ht]

theorem filter_setExecCb (dummy : ℕ) (context : LibContext) :
    (mapEvents.filter fun t =>
      ((context.setExecCb (some dummy)).observer t).cb.isSome) =
      requestedEvents context.toContext := by
  apply List.filter_congr
  intro t _
  by_cases ht : t = .exec
  · simp [LibContext.setExecCb, ht]
  · simp [LibContext.setExecCb, ht]

theorem filter_of_exec {context : LibContext} {cb : ℕ}
    (h : (context.observer .exec).cb = some cb) :
    (mapEvents.filter fun t => (context.observer t).cb.isSome) =
      requestedEvents context.toContext := by
  apply List.filter_congr
  intro t _
  by_cases ht : t = .exec
  · simp [ht, h]
  · simp [ht]

theorem exec_mem_requestedPaths (libdir : CStr) (context : Context) :
    ∃ paths, requestedPaths libdir context = (libdir ++ libName .exec) :: paths := by
  simp [requestedPaths, requestedEvents, mapEvents]

theorem prefix_libsList (libdir : CStr) (context : Context) :
    libdir ++ libName .exec <+: libsList libdir context := by
  obtain ⟨paths, h⟩ := exec_mem_requestedPaths libdir context
  rw [libsList, h]
  exact Separated.prefix_intercalate _ _

theorem suffix_libsList (libdir : CStr) (context : Context) :
    libSuffix <:+ libsList libdir context := by
  apply Separated.suffix_intercalate
  · obtain ⟨paths, h⟩ := exec_mem_requestedPaths libdir context
    simp [h]
  · intro path hp
    obtain ⟨t, -, rfl⟩ := List.mem_map.mp hp
    exact (List.suffix_append _ _).trans (List.suffix_append _ _)

/-- The loop fills the buffer with the libraries of the given selection. -/
theorem foldl_mapEvents (context : Context) (libdir : CStr) :
    (mapEvents.foldl (LibsBuffer.onEvent context libdir (computeLibsSize libdir.length))
      ⟨[], false, []⟩).Uncut (computeLibsSize libdir.length) ∧
    (mapEvents.foldl (LibsBuffer.onEvent context libdir (computeLibsSize libdir.length))
      ⟨[], false, []⟩).libs = [colon].intercalate
        ((mapEvents.filter fun t => (context.observer t).cb.isSome).map (libdir ++ libName ·)) := by
  have hu : LibsBuffer.Uncut (computeLibsSize libdir.length) ⟨[], false, []⟩ := by
    intro n hn
    cases hn
  obtain ⟨hf, hl⟩ := LibsBuffer.foldl_onEvent context mapEvents hu
    (by simpa using sum_need_lt libdir)
  refine ⟨hf, ?_⟩
  rw [hl, Separated.join_eq_intercalate, List.nil_append]

/--
For every directory of at most 4096 bytes and every selection of callbacks, the requested
libraries are the expected list, and the context is as it was.
-/
theorem requestedLibs_exact (dummy : ℕ) (dlinfo : Option (Option CStr)) (context : LibContext)
    (h : (libraryDirectory dlinfo context).length ≤ 4096) :
    ExactLibs (libraryDirectory dlinfo context) context (requestedLibs dummy dlinfo context) := by
  have hs : strnlen (libraryDirectory dlinfo context) 4096 =
      (libraryDirectory dlinfo context).length := Nat.min_eq_left h
  have hc : (requestedLibs dummy dlinfo context).2.2.libs =
      libsList (libraryDirectory dlinfo context) context.toContext ∧
      (requestedLibs dummy dlinfo context).2.2.Uncut
        (computeLibsSize (libraryDirectory dlinfo context).length) := by
    unfold requestedLibs
    simp only [libdir_eq h, hs]
    cases hx : (context.observer .exec).cb with
    | none =>
      obtain ⟨hu, hl⟩ := foldl_mapEvents (context.setExecCb (some dummy)).toContext
        (libraryDirectory dlinfo context)
      rw [filter_setExecCb] at hl
      exact ⟨hl, hu⟩
    | some cb =>
      obtain ⟨hu, hl⟩ := foldl_mapEvents context.toContext (libraryDirectory dlinfo context)
      rw [filter_of_exec hx] at hl
      exact ⟨hl, hu⟩
  have hz : (requestedLibs dummy dlinfo context).2.1 =
      computeLibsSize (libraryDirectory dlinfo context).length := by
    simp only [requestedLibs, libdir_eq h, hs]
  constructor
  · exact hc.1
  · rw [hc.1]
    exact prefix_libsList _ _
  · rw [hc.1]
    exact suffix_libsList _ _
  · rw [hz]
    exact hc.2
  · exact hz
  · unfold requestedLibs
    cases hx : (context.observer .exec).cb with
    | none => exact setExecCb_restore hx dummy
    | some cb => rfl

/-- A context with callbacks for everything but `exec`. -/
def severalContext : LibContext :=
  ⟨⟨fun t => ⟨0, if t = .exec then none else some 7, 9⟩⟩, some (ascii ['/', 'a', '/'])⟩

theorem requestedLibs_exact_several :
    (libraryDirectory none severalContext).length ≤ 4096 ∧
      ExactLibs (libraryDirectory none severalContext) severalContext
        (requestedLibs 1 none severalContext) :=
  ⟨by decide, requestedLibs_exact 1 none severalContext (by decide)⟩

end Voyeur
