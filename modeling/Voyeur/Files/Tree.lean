import Mathlib.Data.List.Infix
import Mathlib.Data.List.Perm.Subperm

/-! # Names and numbers of files

A file system as the list of its names, without links. A name is a path from the root,
and a directory can be removed when no other name is below it. An open file gets the
lowest number that is free.
-/

namespace FileTree

abbrev Path := List (BitVec 8)

def slash : BitVec 8 := 0x2f

inductive Node | directory | file | socket
  deriving DecidableEq

abbrev Files := List (Path × Node)

variable {files files' : Files} {p q dir : Path} {node : Node}

/-- `strrchr`: the position of the last occurrence. -/
def strrchr : Path → BitVec 8 → Option ℕ
  | [], _ => none
  | b :: s, c =>
      match strrchr s c with
      | some i => some (i + 1)
      | none => if b = c then some 0 else none

theorem strrchr_eq_none {s : Path} {c : BitVec 8} (h : c ∉ s) : strrchr s c = none := by
  induction s with
  | nil => rfl
  | cons b s ih =>
    rw [List.mem_cons, not_or] at h
    simp [strrchr, ih h.2, Ne.symm h.1]

theorem strrchr_append {s t : Path} {c : BitVec 8} (h : c ∉ t) :
    strrchr (s ++ c :: t) c = some s.length := by
  induction s with
  | nil => simp [strrchr, strrchr_eq_none h]
  | cons b s ih => simp [strrchr, ih]

/-- The path up to its last slash. -/
def dirname (p : Path) : Path :=
  match strrchr p slash with
  | some i => p.take i
  | none => p

theorem dirname_append {name : Path} (h : slash ∉ name) :
    dirname (dir ++ slash :: name) = dir := by
  simp [dirname, strrchr_append h]

/-- The name is in the directory, or in one of its directories. -/
def Below (dir p : Path) : Prop := dir ++ [slash] <+: p

instance (dir p : Path) : Decidable (Below dir p) := by
  unfold Below; infer_instance

theorem ne_append (name : Path) : dir ≠ dir ++ slash :: name := by simp

/-- Remove a key from an association list. -/
def remove {κ ν : Type} [BEq κ] (entries : List (κ × ν)) (k : κ) : List (κ × ν) :=
  entries.filter fun e => e.1 != k

/-- Make a new name, in a directory that exists. -/
def create (files : Files) (p : Path) (node : Node) : Option Files :=
  if files.lookup p = none ∧ files.lookup (dirname p) = some .directory then
    some ((p, node) :: files)
  else none

def unlink (p : Path) (files : Files) : Option Files :=
  match files.lookup p with
  | some .file | some .socket => some (remove files p)
  | some .directory | none => none

def rmdir (p : Path) (files : Files) : Option Files :=
  if files.lookup p = some .directory ∧ ∀ e ∈ files, ¬ Below p e.1 then some (remove files p)
  else none

section

variable {κ ν : Type} [BEq κ] [LawfulBEq κ] {entries : List (κ × ν)} {k k' : κ}

@[simp] theorem lookup_remove_self : (remove entries k).lookup k = none := by
  rw [List.lookup_eq_none_iff]
  intro e he
  have hn : e.1 ≠ k := by simpa using (List.mem_filter.mp he).2
  simpa using hn.symm

theorem lookup_remove_of_ne (h : k' ≠ k) : (remove entries k).lookup k' = entries.lookup k' := by
  induction entries with
  | nil => rfl
  | cons e entries ih =>
    obtain ⟨r, v⟩ := e
    by_cases hr : r = k
    · subst hr
      have hq : (k' == r) = false := by simpa using h
      simpa [remove, List.lookup_cons, hq] using ih
    · by_cases hq : k' = r
      · subst hq
        simp [remove, hr]
      · have hq' : (k' == r) = false := by simpa using hq
        simpa [remove, hr, List.lookup_cons, hq'] using ih

theorem mem_remove {e : κ × ν} : e ∈ remove entries k ↔ e ∈ entries ∧ e.1 ≠ k := by
  simp [remove]

theorem remove_of_lookup_eq_none (h : entries.lookup k = none) : remove entries k = entries := by
  rw [remove, List.filter_eq_self]
  intro e he
  have hn : k ≠ e.1 := by simpa using List.lookup_eq_none_iff.mp h e he
  simpa using hn.symm

end

theorem create_eq_some (h : create files p node = some files') :
    files.lookup p = none ∧ files' = (p, node) :: files := by
  unfold create at h
  split at h
  · next hc => exact ⟨hc.1, (Option.some.inj h).symm⟩
  · cases h

/-- The names after a call whose failure is ignored. -/
def attempt (call : Files → Option Files) (files : Files) : Files := (call files).getD files

theorem attempt_unlink (p : Path) (files : Files) :
    attempt (unlink p) files =
      if files.lookup p = some .directory then files else remove files p := by
  unfold attempt unlink
  cases hp : files.lookup p with
  | none => simp [remove_of_lookup_eq_none hp]
  | some node => cases node <;> simp

theorem attempt_rmdir (p : Path) (files : Files) :
    attempt (rmdir p) files =
      if files.lookup p = some .directory ∧ ∀ e ∈ files, ¬ Below p e.1 then remove files p
      else files := by
  unfold attempt rmdir
  split <;> rfl

theorem lookup_unlink_of_ne (h : q ≠ p) :
    (attempt (unlink p) files).lookup q = files.lookup q := by
  rw [attempt_unlink]
  split
  · rfl
  · exact lookup_remove_of_ne h

theorem lookup_unlink_self :
    (attempt (unlink p) files).lookup p = none ↔ files.lookup p ≠ some .directory := by
  rw [attempt_unlink]
  split
  · next hp => simp [hp]
  · next hp => simp [hp]

theorem lookup_rmdir_of_ne (h : q ≠ p) :
    (attempt (rmdir p) files).lookup q = files.lookup q := by
  rw [attempt_rmdir]
  split
  · exact lookup_remove_of_ne h
  · rfl

theorem lookup_rmdir_self :
    (attempt (rmdir p) files).lookup p = none ↔
      files.lookup p = none ∨
        files.lookup p = some .directory ∧ ∀ e ∈ files, ¬ Below p e.1 := by
  rw [attempt_rmdir]
  split
  · next hp => exact ⟨fun _ => .inr hp, fun _ => lookup_remove_self⟩
  · next hp =>
    constructor
    · exact Or.inl
    · rintro (h | h)
      · exact h
      · exact absurd h hp

def lowestFree (used : List ℕ) : ℕ := ((List.range (used.length + 1)).find? (· ∉ used)).getD 0

theorem exists_find_free (used : List ℕ) :
    ∃ n, (List.range (used.length + 1)).find? (· ∉ used) = some n := by
  by_contra hn
  have hsub : List.range (used.length + 1) ⊆ used := by
    intro n hm
    by_contra hu
    cases hf : (List.range (used.length + 1)).find? (· ∉ used) with
    | some m => exact hn ⟨m, hf⟩
    | none => simpa [hu] using List.find?_eq_none.mp hf n hm
  have hle := (List.subperm_of_subset List.nodup_range hsub).length_le
  rw [List.length_range] at hle
  omega

theorem lowestFree_notMem (used : List ℕ) : lowestFree used ∉ used := by
  obtain ⟨n, hn⟩ := exists_find_free used
  rw [lowestFree, hn]
  simpa using List.find?_some hn

end FileTree
