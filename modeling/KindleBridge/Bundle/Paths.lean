import KindleBridge.Foundations.Links
import KindleBridge.Foundations.Op
import KindleBridge.Schema.Protocol
import KindleBridge.Bundle.Cbor

/-! # Paths and symbolic links of a bundle

The checks that a verified bundle makes on the paths of its tree and, as text, on the targets
of its links; and the tree of files that is made from the entries when it is installed.
Unicode normalization is left to its library.
-/

namespace KindleBridge.Bundle

open Schema (splitPath isControl)

inductive FileType
  | regular
  | directory
  | symlinkRelative
deriving DecidableEq, Repr

structure FileEntry where
  path : String
  fileType : FileType
  target : Option String
deriving DecidableEq, Repr

def pathError {α : Type} (message : String) : Except Error α := .error ⟨.path, message⟩

/-- `parts.join("/")` -/
def joinPath (parts : List String) : String :=
  String.ofList (['/'].intercalate (parts.map String.toList))

/-! ## Texts -/

def isNumberedDevice (upper : List Char) : Bool :=
  upper.length = 4 && (upper.take 3 = ['C', 'O', 'M'] || upper.take 3 = ['L', 'P', 'T']) &&
    (upper.drop 3).all fun c => '1' ≤ c && c ≤ '9'

def validateComponent (component : String) (allowDot : Bool) : Except Error Unit :=
  let dots := component = "." ∨ component = ".."
  if component = "" ∨ (¬ allowDot ∧ dots) ∨ component.utf8ByteSize > 255 ∨
      component.toList.getLast? = some ' ' ∨
      (component.toList.getLast? = some '.' ∧ ¬ allowDot) ∨ component.toList.any isControl then
    pathError "invalid path component"
  else if allowDot ∧ dots then
    .ok ()
  else
    let basename := (component.toList.splitOn '.').headD []
    let upper := basename.map Char.toUpper
    if String.ofList upper ∈ ["CON", "PRN", "AUX", "NUL"] ∨ isNumberedDevice upper then
      pathError "Windows device basename is forbidden"
    else
      .ok ()

def validateComponents (allowDot : Bool) : List String → Except Error Unit
  | [] => .ok ()
  | component :: rest => do
    validateComponent component allowDot
    validateComponents allowDot rest

def validateNfcText (nfc : String → String) (value : String) (min max : ℕ) (label : String) :
    Except Error Unit :=
  if ¬ (min ≤ value.utf8ByteSize ∧ value.utf8ByteSize ≤ max) then
    pathError s!"{label} length is outside {min}..={max} bytes"
  else if nfc value ≠ value then
    pathError s!"{label} is not NFC-normalized"
  else
    .ok ()

def validateBundlePath (nfc : String → String) (path : String) : Except Error Unit := do
  validateNfcText nfc path 1 1024 "path"
  if path.toList.head? = some '/' ∨ path.toList.getLast? = some '/' ∨ '\\' ∈ path.toList then
    pathError "path must be relative, slash-separated, and have no trailing slash"
  else
    validateComponents false (splitPath path)

def validateSymlinkTarget (nfc : String → String) (target : String) : Except Error Unit := do
  validateNfcText nfc target 1 1024 "symlink target"
  if target.toList.head? = some '/' ∨ target.toList.getLast? = some '/' ∨
      '\\' ∈ target.toList then
    pathError "symlink target must be relative and slash-separated"
  else
    validateComponents true (splitPath target)

/-! ## The tree of a bundle -/

/-- What the loop over the entries has seen so far. -/
structure TreeScan where
  previous : Option String
  folded : List String
  types : List (String × FileType)

def byteOrder (path : String) : List ℕ := (Cbor.textBytes path).map UInt8.toNat

def resolveComponents : List String → List String → Except Error (List String)
  | parts, [] => .ok parts
  | parts, component :: rest =>
    if component = "." then resolveComponents parts rest
    else if component = ".." then
      if parts = [] then pathError "symlink target escapes the bundle root"
      else resolveComponents parts.dropLast rest
    else resolveComponents (parts ++ [component]) rest

def resolveTarget (linkPath target : String) : Except Error String := do
  let parts ← resolveComponents (splitPath linkPath).dropLast (splitPath target)
  if parts = [] then
    pathError "symlink may not resolve to the implicit root"
  else
    return joinPath parts

def byPath (entries : List FileEntry) (path : String) : Option FileEntry :=
  entries.reverse.find? (·.path = path)

/-- The loop over a chain of links, with the iterations that are left and the links seen. -/
def followChain (nfc : String → String) (entries : List FileEntry) :
    ℕ → List String → FileEntry → Except Error FileEntry
  | 0, _, current => .ok current
  | iterations + 1, seen, current =>
    if current.fileType ≠ .symlinkRelative then .ok current
    else if current.path ∈ seen then pathError "symlink loop"
    else if seen.length + 1 > 16 then pathError "symlink chain exceeds 16 hops"
    else
      match current.target with
      | none => .error ⟨.tree, "symlink entry has no target"⟩
      | some target => do
        validateSymlinkTarget nfc target
        let resolved ← resolveTarget current.path target
        match byPath entries resolved with
        | none => pathError "dangling symlink"
        | some next => followChain nfc entries iterations (current.path :: seen) next

/-- The entry at which the textual chain of an entry ends. -/
def chainEnd (nfc : String → String) (entries : List FileEntry) (entry : FileEntry) :
    Except Error FileEntry :=
  followChain nfc entries 17 [] entry

/-- The components of a text as the system reads them. -/
def toStep (component : String) : PathStep String :=
  if component = "." ∨ component = "" then .here
  else if component = ".." then .up
  else .name component

/-- What an entry becomes. A text that begins with a slash has an empty first component. -/
def FileEntry.node (entry : FileEntry) : TreeEntry String :=
  match entry.fileType with
  | .directory => .dir
  | .regular => .file
  | .symlinkRelative =>
    let target := entry.target.getD ""
    .link (target.toList.head? = some '/') ((splitPath target).map toStep)

end KindleBridge.Bundle
