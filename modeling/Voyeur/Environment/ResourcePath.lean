import Voyeur.Environment.Libs
import Mathlib.Logic.Function.Basic

/-! # The resource path

`voyeur_set_resource_path` with the memory that it writes to. The buffer is as long as the
path, up to a limit, and `strlcat` may write as many bytes as the limit says; where the path
is shorter there is no byte for the NUL.
-/

namespace Voyeur

/-- The bytes from the start of a buffer on, those behind its end included. -/
abbrev Memory := ℕ → Byte

/-- The stores of one function, in order. -/
def Memory.store (m : Memory) (stores : List (ℕ × Byte)) : Memory :=
  stores.foldl (fun m w => Function.update m w.1 w.2) m

/-- A string with its NUL stands at the start of the buffer. -/
structure Memory.Holds (m : Memory) (s : CStr) : Prop where
  nul_not_mem : 0 ∉ s
  content : ∀ i ≤ s.length, (s ++ [0])[i]? = some (m i)

/-- The first loop of `strlcat`, which looks for the end of the string. -/
def endOfString (m : Memory) : (n dst : ℕ) → ℕ
  | 0, dst => dst
  | n + 1, dst => if m dst = 0 then dst else endOfString m n (dst + 1)

/-- The second loop of `strlcat`, and the NUL behind what it copies. -/
def copyStores : (dst n : ℕ) → CStr → List (ℕ × Byte)
  | dst, _, [] => [(dst, 0)]
  | dst, 0, _ :: src => copyStores dst 0 src
  | dst, n + 1, c :: src => (dst, c) :: copyStores (dst + 1) n src

/-- The stores of `strlcat(buf, src, size)`. -/
def strlcatStores (m : Memory) (src : CStr) (size : ℕ) : List (ℕ × Byte) :=
  let dlen := endOfString m size 0
  if size - dlen = 0 then [] else copyStores dlen (size - dlen - 1) src

/-- The buffer after `calloc(1, size)`, with the memory of others behind it. -/
def zeroed (size : ℕ) (heap : Memory) : Memory := fun i => if i < size then 0 else heap i

/-- The buffer that becomes the resource path, with what is written to it. -/
structure ResourceBuffer where
  size : ℕ
  stores : List (ℕ × Byte)
  memory : Memory

/--
`voyeur_set_resource_path`, where `calloc` grants a buffer of `n` bytes if `granted n`. Otherwise
`strlcat` reads from `NULL`.
-/
def setResourcePath (granted : ℕ → Bool) (heap : Memory) (path : CStr) : Option ResourceBuffer :=
  let size := strnlen path 4096
  if granted size then
    let resourcePath := zeroed size heap
    let stores := strlcatStores resourcePath path 4096
    some { size := size, stores := stores, memory := resourcePath.store stores }
  else none

/-- The path is stored in bounds, and if it is shorter than the limit it is stored intact. -/
def ResourcePathStored (granted : ℕ → Bool) (heap : Memory) (path : CStr) : Prop :=
  ∃ b, setResourcePath granted heap path = some b ∧ (∀ w ∈ b.stores, w.1 < b.size) ∧
    (path.length < 4096 → b.memory.Holds path)

section

variable {dst n i : ℕ} {src : CStr}

theorem le_of_mem_copyStores {w : ℕ × Byte} (h : w ∈ copyStores dst n src) :
    w.1 ≤ dst + min n src.length := by
  induction dst, n, src using copyStores.induct with
  | case1 dst n =>
    rw [copyStores, List.mem_singleton] at h
    rw [h]
    exact Nat.le_add_right _ _
  | case2 dst c src ih =>
    rw [copyStores] at h
    have hi := ih h
    omega
  | case3 dst n c src ih =>
    rw [copyStores] at h
    rw [List.length_cons]
    rcases List.mem_cons.mp h with rfl | h
    · exact Nat.le_add_right _ _
    · have hi := ih h
      omega

theorem nul_mem_copyStores (dst n : ℕ) (src : CStr) :
    (dst + min n src.length, 0) ∈ copyStores dst n src := by
  induction dst, n, src using copyStores.induct with
  | case1 dst n =>
    rw [copyStores, List.mem_singleton, List.length_nil, Nat.min_zero, Nat.add_zero]
  | case2 dst c src ih =>
    rw [copyStores]
    rwa [Nat.zero_min] at ih ⊢
  | case3 dst n c src ih =>
    rw [copyStores, List.length_cons]
    have he : dst + min (n + 1) (src.length + 1) = dst + 1 + min n src.length := by omega
    rw [he]
    exact List.mem_cons_of_mem _ ih

theorem store_cons (m : Memory) (w : ℕ × Byte) (stores : List (ℕ × Byte)) :
    m.store (w :: stores) = Memory.store (Function.update m w.1 w.2) stores := rfl

theorem store_copyStores (m : Memory) (dst n : ℕ) (src : CStr) (i : ℕ) :
    m.store (copyStores dst n src) i =
      if dst ≤ i then ((src.take n ++ [0])[i - dst]?).getD (m i) else m i := by
  induction dst, n, src using copyStores.induct generalizing m with
  | case1 n dst =>
    have hs : m.store (copyStores dst n []) i = Function.update m dst 0 i := by
      rw [copyStores]
      rfl
    rw [hs, List.take_nil, List.nil_append]
    rcases Nat.lt_trichotomy i dst with hi | rfl | hi
    · rw [if_neg (by omega), Function.update_of_ne (by omega)]
    · rw [if_pos le_rfl, Function.update_self, Nat.sub_self]
      rfl
    · rw [if_pos hi.le, Function.update_of_ne (by omega), List.getElem?_eq_none (by simp; omega)]
      rfl
  | case2 dst c src ih =>
    rw [copyStores, ih]
    rfl
  | case3 dst n c src ih =>
    rw [copyStores, store_cons, ih, List.take_succ_cons, List.cons_append]
    rcases Nat.lt_trichotomy i dst with hi | rfl | hi
    · rw [if_neg (by omega), if_neg (by omega), Function.update_of_ne (by omega)]
    · rw [if_neg (by omega), if_pos le_rfl, Function.update_self, Nat.sub_self]
      rfl
    · have he : i - dst = i - (dst + 1) + 1 := by omega
      rw [if_pos (by omega), if_pos hi.le, Function.update_of_ne (by omega), he,
        List.getElem?_cons_succ]

end

section

variable {granted : ℕ → Bool} {heap : Memory} {path : CStr}

theorem strlcatStores_zeroed (heap : Memory) {size : ℕ} (h : 0 < size) (path : CStr) :
    strlcatStores (zeroed size heap) path 4096 = copyStores 0 4095 path := by
  have h0 : zeroed size heap 0 = 0 := if_pos h
  have he : endOfString (zeroed size heap) 4096 0 = 0 := by rw [endOfString, if_pos h0]
  rw [strlcatStores, he]
  rfl

theorem holds_zeroed (heap : Memory) (h : 0 < path.length) (hl : path.length < 4096)
    (hn : 0 ∉ path) :
    ((zeroed path.length heap).store (strlcatStores (zeroed path.length heap) path 4096)).Holds
      path := by
  refine ⟨hn, ?_⟩
  intro i hi
  have hlt : i < (path ++ [0]).length := by
    rw [List.length_append, List.length_singleton]
    omega
  rw [strlcatStores_zeroed heap h, store_copyStores, if_pos (Nat.zero_le _),
    List.take_of_length_le (by omega), Nat.sub_zero, List.getElem?_eq_getElem hlt, Option.getD_some]

theorem not_stored_nil : ¬ ResourcePathStored granted heap [] := by
  rintro ⟨b, hb, hin, hheld⟩
  have hh := hheld (by decide)
  rw [setResourcePath] at hb
  split at hb
  · cases hb
    have hnil : strlcatStores (zeroed 0 heap) [] 4096 = [] :=
      List.eq_nil_iff_forall_not_mem.mpr fun w hw => Nat.not_lt_zero _ (hin w hw)
    have h0 : zeroed 0 heap 0 = 0 := by
      have hc := hh.content 0 le_rfl
      rw [show strnlen [] 4096 = 0 from rfl, hnil] at hc
      exact (Option.some.inj hc).symm
    have he : endOfString (zeroed 0 heap) 4096 0 = 0 := by rw [endOfString, if_pos h0]
    rw [strlcatStores, he] at hnil
    cases hnil
  · cases hb

/-- The path is stored as it should be just if it reaches the limit, and there is a buffer. -/
theorem resourcePathStored_iff (granted : ℕ → Bool) (heap : Memory) (path : CStr) :
    ResourcePathStored granted heap path ↔ 4096 ≤ path.length ∧ granted 4096 = true := by
  constructor
  · intro h
    have hne : path ≠ [] := by
      rintro rfl
      exact not_stored_nil h
    obtain ⟨b, hb, hin, -⟩ := h
    rw [setResourcePath] at hb
    split at hb
    · next hg =>
      cases hb
      rcases Nat.lt_or_ge path.length 4096 with hl | hl
      · -- The NUL is stored behind the buffer.
        have hs : strnlen path 4096 = path.length := Nat.min_eq_left hl.le
        have hpos : 0 < path.length := List.length_pos_iff.mpr hne
        have hnul := hin (0 + min 4095 path.length, 0) (by
          rw [hs, strlcatStores_zeroed heap hpos]
          exact nul_mem_copyStores 0 4095 path)
        change 0 + min 4095 path.length < strnlen path 4096 at hnul
        omega
      · exact ⟨hl, (Nat.min_eq_right hl : strnlen path 4096 = 4096) ▸ hg⟩
    · cases hb
  · rintro ⟨hl, hg⟩
    have hs : strnlen path 4096 = 4096 := Nat.min_eq_right hl
    refine ⟨_, by rw [setResourcePath, hs, if_pos hg], ?_, ?_⟩
    · intro w hw
      rw [strlcatStores_zeroed heap (by decide)] at hw
      have hle := le_of_mem_copyStores hw
      change w.1 < 4096
      omega
    · exact fun hlt => absurd hl (by omega)

/-- The path `/a/` has three bytes, of which none is left for the NUL. -/
theorem not_resourcePathStored_short :
    ¬ ResourcePathStored (fun _ => true) (fun _ => 0) (ascii ['/', 'a', '/']) := by
  rintro ⟨b, hb, hin, -⟩
  cases hb
  exact absurd (hin (3, 0) (by decide)) (by decide)

/--
If the byte behind the buffer is free, a path that is shorter than the limit is what
`voyeur_requested_libs` finds.
-/
theorem requestedLibs_stored (dummy : ℕ) (dlinfo : Option (Option CStr)) (context : LibContext)
    (hg : granted path.length = true) (h : 0 < path.length) (hl : path.length < 4096)
    (hn : 0 ∉ path) :
    ∃ b, setResourcePath granted heap path = some b ∧ b.memory.Holds path ∧
      ExactLibs path { context with resourcePath := some path }
        (requestedLibs dummy dlinfo { context with resourcePath := some path }) := by
  have hs : strnlen path 4096 = path.length := Nat.min_eq_left hl.le
  refine ⟨_, by rw [setResourcePath, hs, if_pos hg], holds_zeroed heap h hl hn, ?_⟩
  exact requestedLibs_exact dummy dlinfo { context with resourcePath := some path } hl.le

end

end Voyeur
