import Mathlib.Logic.Basic

/-! # Programs in a search path

The file that a name stands for when a program is started by its name. A name with a slash
is a path; any other name is looked up in the directories of a search path, one after the
other, until there is a file that can be executed.
-/

namespace FileSearch

abbrev Name := List (BitVec 8)

def slash : BitVec 8 := 0x2f

def colon : BitVec 8 := 0x3a

/-- A file or a directory, with what the process may do with it. -/
structure Node where
  /-- It is a regular file. -/
  regular : Bool
  /-- It may be executed, or searched. -/
  executable : Bool
  deriving DecidableEq

/-- A file system, as a process in one of its directories sees it. -/
structure FileSystem where
  /-- What an absolute path leads to. -/
  node : Name → Option Node
  /-- The current directory. -/
  cwd : Name

namespace FileSystem

variable {fs : FileSystem} {path name : Name}

/-- What a path leads to, relative ones from the current directory. -/
def lookup (fs : FileSystem) (name : Name) : Option Node :=
  if name = [] then none
  else if name.head? = some slash then fs.node name
  else fs.node (fs.cwd ++ slash :: name)

/-- `access` with `X_OK` succeeds, also for a directory that may be searched. -/
def accessible (fs : FileSystem) (name : Name) : Bool :=
  (fs.lookup name).any fun n => n.executable

/-- The path leads to a regular file that may be executed. -/
def runnable (fs : FileSystem) (name : Name) : Bool :=
  (fs.lookup name).any fun n => n.regular && n.executable

/-- A directory that may be searched, or something else that is no program. -/
def obstructs (fs : FileSystem) (name : Name) : Bool :=
  (fs.lookup name).any fun n => !n.regular && n.executable

/-- A name in a directory of the search path; the empty one is the current directory. -/
def inDirectory (name dir : Name) : Name := if dir = [] then name else dir ++ slash :: name

/-- The files that are tried for a name without a slash. -/
def candidates (path name : Name) : List Name := (path.splitOn colon).map (inDirectory name)

/-- The file that is executed for a name. -/
def resolve (fs : FileSystem) (path name : Name) : Option Name :=
  if name = [] then none
  else if slash ∈ name then if fs.runnable name then some name else none
  else (candidates path name).find? fs.runnable

/-- There is a file that is executed. -/
def Resolves (fs : FileSystem) (path name : Name) : Prop := fs.resolve path name ≠ none

/-- `access` answers for the file that is executed, and not for another one. -/
structure Agrees (fs : FileSystem) (path name : Name) : Prop where
  /-- A path does not lead to a directory that may be searched. -/
  direct : slash ∈ name → fs.obstructs name = false
  /-- The name is in the current directory exactly if it is a program in the search path. -/
  searched : slash ∉ name → name ≠ [] →
    (fs.accessible name = true ↔ ∃ file ∈ candidates path name, fs.runnable file = true)

theorem accessible_nil : fs.accessible [] = false := rfl

theorem accessible_iff :
    fs.accessible name = true ↔ fs.runnable name = true ∨ fs.obstructs name = true := by
  unfold accessible runnable obstructs
  cases fs.lookup name with
  | none => simp
  | some n =>
    simp only [Option.any_some, Bool.and_eq_true, Bool.not_eq_true']
    cases n.regular <;> simp

theorem not_obstructs_of_runnable (h : fs.runnable name = true) : fs.obstructs name = false := by
  unfold runnable at h
  unfold obstructs
  cases hn : fs.lookup name with
  | none => rfl
  | some n =>
    rw [hn, Option.any_some, Bool.and_eq_true] at h
    rw [Option.any_some, h.1]
    rfl

theorem resolves_nil : ¬ fs.Resolves path [] := by
  intro h
  exact h rfl

theorem resolves_of_slash (h : slash ∈ name) :
    fs.Resolves path name ↔ fs.runnable name = true := by
  have hn : name ≠ [] := List.ne_nil_of_mem h
  unfold Resolves resolve
  rw [if_neg hn, if_pos h]
  simp

theorem resolves_of_search (h : slash ∉ name) (hn : name ≠ []) :
    fs.Resolves path name ↔ ∃ file ∈ candidates path name, fs.runnable file = true := by
  unfold Resolves resolve
  rw [if_neg hn, if_neg h, ne_eq, List.find?_eq_none]
  simp

/-- When `access` gives the right answer. -/
theorem accessible_iff_resolves_iff :
    (fs.accessible name = true ↔ fs.Resolves path name) ↔ fs.Agrees path name := by
  constructor
  · intro h
    constructor
    · intro hs
      rw [resolves_of_slash hs] at h
      cases ho : fs.obstructs name with
      | false => rfl
      | true =>
        have hr := h.mp (accessible_iff.mpr (.inr ho))
        rw [not_obstructs_of_runnable hr] at ho
        cases ho
    · intro hs hn
      rw [← resolves_of_search hs hn]
      exact h
  · rintro ⟨hd, hp⟩
    by_cases hs : slash ∈ name
    · rw [resolves_of_slash hs, accessible_iff, hd hs]
      simp
    · by_cases hn : name = []
      · subst hn
        rw [accessible_nil]
        simpa using resolves_nil
      · rw [resolves_of_search hs hn]
        exact hp hs hn

end FileSystem

end FileSearch
