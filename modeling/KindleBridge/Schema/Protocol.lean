import Mathlib.Tactic.Common

/-! # Messages of the device link

The errors, requests and replies that host and device exchange. They travel as JSON
documents, which a library encodes and decodes.
-/

namespace KindleBridge.Schema

def maxHostToDevicePayload : ℕ := 1024 * 1024
def maxSyncBlockSize : ℕ := maxHostToDevicePayload
def defaultStreamWindow : ℕ := 8 * 1024 * 1024

/-- An error of a remote call, with the fields of its data object. -/
structure RpcError where
  code : Int
  message : String
  data : List (String × String) := []
  deriving DecidableEq, Repr

namespace RpcError

def invalidParamsCode : Int := -32602
def internalErrorCode : Int := -32603
def invalidStateCode : Int := -32010
def checksumMismatchCode : Int := -32011
def transferNotFoundCode : Int := -32012
def fileNotFoundCode : Int := -32013
def transferCancelledCode : Int := -32014
def execOutputLimitCode : Int := -32051

def invalidParams (detail : String) : RpcError :=
  ⟨invalidParamsCode, "Invalid params", [("detail", detail)]⟩

def internalError : RpcError := ⟨internalErrorCode, "Internal error", []⟩

end RpcError

inductive TransferDirection
  | push
  | pull
  deriving DecidableEq, Repr

inductive TransferState
  | inProgress
  | complete
  deriving DecidableEq, Repr

/-- The metadata that opens a sync stream. The bytes of the file follow in DATA frames. -/
inductive SyncRequest
  | push (transferId : Option String) (remotePath : String) (totalSize : ℕ) (fileHash : String)
      (blockSize : ℕ)
  | pull (transferId : Option String) (remotePath : String) (offset blockSize : ℕ)
  deriving DecidableEq, Repr

def SyncRequest.blockSize : SyncRequest → ℕ
  | .push _ _ _ _ blockSize | .pull _ _ _ blockSize => blockSize

inductive SyncReply
  | ready (transferId : String) (offset totalSize : ℕ) (fileHash : String)
  | complete (transferId : String) (nextOffset totalSize : ℕ)
  | failure (error : RpcError)
  deriving DecidableEq, Repr

structure SyncStatus where
  transferId : String
  direction : TransferDirection
  remotePath : String
  nextOffset : ℕ
  totalSize : ℕ
  state : TransferState
  deriving DecidableEq, Repr

/-- One to 128 ASCII letters, digits, hyphens and underscores. -/
def isValidTransferId (value : String) : Bool :=
  value ≠ "" ∧ value.utf8ByteSize ≤ 128 ∧
    value.toList.all fun c => c.isAlphanum || c = '-' || c = '_'

/-! ## Logical paths below the sync root

A path comes as a string. Only its parsed form names components, and none of them leads
out of the directory in which it stands. Unicode normalization is left to its library.
-/

def maxPathBytes : ℕ := 1024
def maxComponentBytes : ℕ := 255

inductive LogicalSyncPathError
  | notRelative
  | tooLong
  | componentTooLong
  | invalidComponent
  | controlCharacter
  | notNfc
  deriving DecidableEq, Repr

def LogicalSyncPathError.text : LogicalSyncPathError → String
  | .notRelative => "path must be non-empty, relative, and use forward slashes"
  | .tooLong => "path exceeds 1024 UTF-8 bytes"
  | .componentTooLong => "path component exceeds 255 UTF-8 bytes"
  | .invalidComponent => "path contains an empty, dot, or dot-dot component"
  | .controlCharacter => "path contains a control character"
  | .notNfc => "path is not Unicode NFC"

/-- The general category Cc. -/
def isControl (c : Char) : Bool := c.toNat < 0x20 || 0x7f ≤ c.toNat && c.toNat < 0xa0

def splitPath (value : String) : List String := (value.toList.splitOn '/').map String.ofList

variable {value : String} {nfc : String → String}

theorem splitPath_of_notMem (h : '/' ∉ value.toList) : splitPath value = [value] := by
  unfold splitPath
  rw [List.splitOn, List.splitOnP_eq_singleton]
  · simp
  · intro c hc
    exact beq_false_of_ne fun hslash => h (hslash ▸ hc)

theorem splitPath_append (parent : String) {name : String} (h : '/' ∉ name.toList) :
    splitPath (parent ++ "/" ++ name) = splitPath parent ++ [name] := by
  have hslash : (parent ++ "/" ++ name).toList = parent.toList ++ '/' :: name.toList := by simp
  rw [splitPath, hslash, List.splitOn_append_cons_self, List.map_append]
  exact congrArg (splitPath parent ++ ·) (splitPath_of_notMem h)

/-- A component that names an entry of the directory in which it stands. -/
def Proper (component : String) : Prop := component ≠ "" ∧ component ≠ "." ∧ component ≠ ".."

instance : DecidablePred Proper := fun _ => inferInstanceAs (Decidable (_ ∧ _ ∧ _))

def checkComponents : List String → Except LogicalSyncPathError Unit
  | [] => .ok ()
  | component :: rest =>
    if ¬ Proper component then .error .invalidComponent
    else if component.utf8ByteSize > maxComponentBytes then .error .componentTooLong
    else checkComponents rest

theorem proper_of_checkComponents {components : List String}
    (h : checkComponents components = .ok ()) : ∀ c ∈ components, Proper c := by
  induction components with
  | nil => simp
  | cons c rest ih =>
    rw [checkComponents] at h
    split_ifs at h with hc hlen
    rintro d (_ | ⟨_, hd⟩)
    · exact hc
    · exact ih h d hd

/-- A validated location below the sync root. -/
structure LogicalSyncPath where
  value : String
  proper : ∀ c ∈ splitPath value, Proper c

namespace LogicalSyncPath

def components (path : LogicalSyncPath) : List String := splitPath path.value

theorem components_ne_nil (path : LogicalSyncPath) : path.components ≠ [] := by
  simp [components, splitPath, List.splitOn_ne_nil]

def checkValue (nfc : String → String) (value : String) : Except LogicalSyncPathError Unit :=
  if value = "" ∨ value.toList.head? = some '/' ∨ '\\' ∈ value.toList then .error .notRelative
  else if value.utf8ByteSize > maxPathBytes then .error .tooLong
  else if value.toList.any isControl then .error .controlCharacter
  else if nfc value ≠ value then .error .notNfc
  else .ok ()

def parse (nfc : String → String) (value : String) :
    Except LogicalSyncPathError LogicalSyncPath :=
  match checkValue nfc value with
  | .error e => .error e
  | .ok _ =>
    match h : checkComponents (splitPath value) with
    | .error e => .error e
    | .ok _ => .ok ⟨value, proper_of_checkComponents h⟩

theorem parse_of_checks (hvalue : checkValue nfc value = .ok ())
    (hcomponents : checkComponents (splitPath value) = .ok ()) :
    parse nfc value = .ok ⟨value, proper_of_checkComponents hcomponents⟩ := by
  unfold parse
  rw [hvalue]
  dsimp only
  split
  · rename_i e he
    simp [hcomponents] at he
  · rfl

theorem value_of_parse {path : LogicalSyncPath}
    (h : parse nfc value = .ok path) : path.value = value := by
  unfold parse at h
  split at h
  · simp at h
  · split at h
    · simp at h
    · rw [← Except.ok.inj h]

end LogicalSyncPath

end KindleBridge.Schema
