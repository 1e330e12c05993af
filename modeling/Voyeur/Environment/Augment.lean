import Mathlib.Data.List.Infix
import Voyeur.Wire.Basic

/-! # The environment of an observed process

`voyeur_augment_environment` adds three variables for the libraries, the options
and the socket, and puts the libraries into the preload variable. A process
looks a variable up by the first entry that defines it.
-/

namespace Voyeur

/-- Write a string of ASCII characters as bytes. -/
def ascii (s : List Char) : Bytes := s.map fun c => BitVec.ofNat 8 c.toNat

/-- The C string at the start of a piece of memory. -/
def cString (memory : Bytes) : CStr := memory.takeWhile (· != 0)

/-- The string in a buffer of `size` bytes after `strlcpy(buf, src, size)`. -/
def strlcpy (src : CStr) (size : ℕ) : CStr := src.take (size - 1)

/-- The string in a buffer of `size` bytes, with `dst` in it, after `strlcat(buf, src, size)`. -/
def strlcat (dst src : CStr) (size : ℕ) : CStr :=
  if size ≤ dst.length then dst else dst ++ src.take (size - 1 - dst.length)

/-- Whether `strnstr` finds `needle` within the first `len` bytes of `haystack`. -/
def strnstr (haystack needle : CStr) (len : ℕ) : Bool := decide (needle <:+: haystack.take len)

/-- The value of an entry that starts with `var`, which is a name and `=`. -/
def valueOf (var entry : CStr) : Option CStr :=
  if var.isPrefixOf entry then some (entry.drop var.length) else none

/-- `getenv`, for a variable that is given by its name and `=`. -/
def getenv (environ : List CStr) (var : CStr) : Option CStr := environ.findSome? (valueOf var)

def varLibs : CStr := ascii
  ['L', 'I', 'B', 'V', 'O', 'Y', 'E', 'U', 'R', '_', 'L', 'I', 'B', 'S', '=']

def varOpts : CStr := ascii
  ['L', 'I', 'B', 'V', 'O', 'Y', 'E', 'U', 'R', '_', 'O', 'P', 'T', 'S', '=']

def varSocket : CStr := ascii
  ['L', 'I', 'B', 'V', 'O', 'Y', 'E', 'U', 'R', '_', 'S', 'O', 'C', 'K', 'E', 'T', '=']

/-- `INSERT_LIBS`. -/
def insertLibs : CStr := ascii ['L', 'D', '_', 'P', 'R', 'E', 'L', 'O', 'A', 'D', '=']

/-- `sizeof(env_buf)`. -/
def envBuf : ℕ := 2048

/-- The scan of `envp`: the index and the value of the last `INSERT_LIBS` entry. -/
def scanInsert : (envp : List CStr) → (i : ℕ) → (found : Option (ℕ × CStr)) → Option (ℕ × CStr)
  | [], _, found => found
  | entry :: envp, i, found =>
      scanInsert envp (i + 1) <| match valueOf insertLibs entry with
        | some value => some (i, value)
        | none => found

/-- `must_add_voyeur_libs`: the libraries are not there yet, and there is room for them. -/
def mustAddLibs (existing : Option CStr) (libs : CStr) : Bool :=
  !(match existing with
    | some value => strnstr value libs (envBuf * 2)
    | none => false) &&
  !decide (libs.length + (existing.getD []).length > envBuf)

/-- The buffer of one of the `LIBVOYEUR_*` variables. -/
def envEntry (var value : CStr) : CStr := strlcat (strlcpy var envBuf) value envBuf

/-- The buffer of the `INSERT_LIBS` variable. -/
def insertEntry (existing : Option CStr) (libs : CStr) : CStr :=
  if mustAddLibs existing libs then
    match existing with
    | some value => strlcat (strlcat (envEntry insertLibs libs) (ascii [':']) envBuf) value envBuf
    | none => envEntry insertLibs libs
  else
    match existing with
    | some value => envEntry insertLibs value
    | none => strlcpy insertLibs envBuf

/-- `voyeur_augment_environment`, without the terminating `NULL` of either array. -/
def augmentEnvironment (envp : List CStr) (libs opts sockpath : CStr) : List CStr :=
  let existing := scanInsert envp 0 none
  let newenvp := envp ++ [envEntry varLibs libs, envEntry varOpts opts, envEntry varSocket sockpath]
  match existing with
  | some (i, value) => newenvp.set i (insertEntry (some value) libs)
  | none => newenvp ++ [insertEntry none libs]

end Voyeur
