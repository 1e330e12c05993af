import Mathlib.Data.List.DropRight

/-! # Lists with separators

A list is cut into components at every separator, and components are put together with
a separator between any two. A part of a list has the same components, except that its
first and its last one may continue outside of the part.
-/

namespace Separated

variable {α : Type*} {sep : α} {l v : List α}

/-- The components, each behind a separator; only the first has none, unless `prev` holds. -/
def join (sep : α) : (prev : Bool) → List (List α) → List α
  | _, [] => []
  | prev, c :: cs => (if prev then [sep] else []) ++ c ++ join sep true cs

theorem join_eq_intercalate (cs : List (List α)) : join sep false cs = [sep].intercalate cs := by
  induction cs with
  | nil => rfl
  | cons c cs ih =>
    cases cs with
    | nil => simp [join]
    | cons c' cs =>
      rw [List.intercalate_cons_cons, ← ih]
      simp [join]

theorem prefix_intercalate (c : List α) (cs : List (List α)) :
    c <+: [sep].intercalate (c :: cs) := by
  cases cs with
  | nil => simp
  | cons c' cs =>
    rw [List.intercalate_cons_cons, List.append_assoc]
    exact List.prefix_append _ _

theorem suffix_intercalate {s : List α} {cs : List (List α)} (hn : cs ≠ [])
    (h : ∀ c ∈ cs, s <:+ c) : s <:+ [sep].intercalate cs := by
  induction cs with
  | nil => exact absurd rfl hn
  | cons c cs ih =>
    cases cs with
    | nil => simpa using h c
    | cons c' cs =>
      have hs : s <:+ [sep].intercalate (c' :: cs) := by
        apply ih (by simp)
        intro d hd
        exact h d (List.mem_cons_of_mem _ hd)
      rw [List.intercalate_cons_cons]
      exact hs.trans (List.suffix_append _ _)

theorem exists_last_append (h : sep ∈ l) : ∃ c d, l = c ++ sep :: d ∧ sep ∉ d := by
  obtain ⟨d, c, hd, hn⟩ := List.eq_append_cons_of_mem (List.mem_reverse.mpr h)
  refine ⟨c.reverse, d.reverse, ?_, by simpa using hn⟩
  simpa using congrArg List.reverse hd

variable [DecidableEq α]

/-- The component in front of the first separator. -/
def first (sep : α) (l : List α) : List α := l.takeWhile (· != sep)

/-- The component behind the last separator. -/
def last (sep : α) (l : List α) : List α := l.rtakeWhile (· != sep)

theorem first_append (h : sep ∉ l) (v : List α) : first sep (l ++ sep :: v) = l := by
  have hl : ∀ a ∈ l, (a != sep) = true := by
    intro a ha
    simpa using fun he : a = sep => h (he ▸ ha)
  rw [first, List.takeWhile_append_of_pos hl]
  simp

theorem last_append (h : sep ∉ l) (v : List α) : last sep (v ++ sep :: l) = l := by
  have hr : sep ∉ l.reverse := by simpa using h
  have hf := first_append hr v.reverse
  rw [last, List.rtakeWhile, List.reverse_append, List.reverse_cons, List.append_assoc]
  simpa [first] using congrArg List.reverse hf

theorem first_of_not_mem (h : sep ∉ l) : first sep l = l := by
  rw [first, List.takeWhile_eq_self_iff]
  intro a ha
  simpa using fun he : a = sep => h (he ▸ ha)

theorem last_of_not_mem (h : sep ∉ l) : last sep l = l := by
  rw [last, List.rtakeWhile_eq_self_iff]
  intro a ha
  simpa using fun he : a = sep => h (he ▸ ha)

/--
A list is one component, or its components between the first and the last one are components
of every list around it.
-/
theorem splitOn_cases (sep : α) (l : List α) :
    (l.splitOn sep = [l] ∧ first sep l = l ∧ last sep l = l) ∨
    ∃ mid, l.splitOn sep = first sep l :: mid ++ [last sep l] ∧
      ∀ pre post : List α, ∃ cs ds, (pre ++ l ++ post).splitOn sep = cs ++ mid ++ ds := by
  by_cases h : sep ∈ l
  · right
    obtain ⟨c, r, rfl, hc⟩ := List.eq_append_cons_of_mem h
    by_cases hr : sep ∈ r
    · obtain ⟨m, d, rfl, hd⟩ := exists_last_append hr
      have hl : last sep (c ++ sep :: (m ++ sep :: d)) = d := by
        rw [← List.cons_append, ← List.append_assoc, last_append hd]
      refine ⟨m.splitOn sep, ?_, ?_⟩
      · rw [first_append hc, hl, List.splitOn_append_cons_self, List.splitOn_append_cons_self,
          List.splitOn_eq_singleton hc, List.splitOn_eq_singleton hd]
        rfl
      · intro pre post
        refine ⟨(pre ++ c).splitOn sep, (d ++ post).splitOn sep, ?_⟩
        have he : pre ++ (c ++ sep :: (m ++ sep :: d)) ++ post =
            (pre ++ c) ++ sep :: (m ++ sep :: (d ++ post)) := by simp
        rw [he, List.splitOn_append_cons_self, List.splitOn_append_cons_self, List.append_assoc]
    · refine ⟨[], ?_, ?_⟩
      · rw [first_append hc, last_append hr, List.splitOn_append_cons_self,
          List.splitOn_eq_singleton hc, List.splitOn_eq_singleton hr]
      · intro pre post
        exact ⟨_, [], by rw [List.append_nil, List.append_nil]⟩
  · left
    exact ⟨List.splitOn_eq_singleton h, first_of_not_mem h, last_of_not_mem h⟩

/-- The components of a part are components of the whole if its first and its last one are. -/
theorem forall_mem_splitOn_iff (h : l <:+: v) :
    (∀ c ∈ l.splitOn sep, c ∈ v.splitOn sep) ↔
      first sep l ∈ v.splitOn sep ∧ last sep l ∈ v.splitOn sep := by
  rcases splitOn_cases sep l with ⟨hs, hf, hl⟩ | ⟨mid, hs, hm⟩
  · rw [hs, hf, hl]
    simp
  · rw [hs]
    constructor
    · intro hc
      exact ⟨hc _ (by simp), hc _ (by simp)⟩
    · rintro ⟨hf, hl⟩ c hc
      simp only [List.cons_append, List.mem_cons, List.mem_append, List.not_mem_nil,
        or_false] at hc
      rcases hc with rfl | hc | rfl
      · exact hf
      · obtain ⟨pre, post, rfl⟩ := h
        obtain ⟨cs, ds, he⟩ := hm pre post
        rw [he]
        simp [hc]
      · exact hl

end Separated
