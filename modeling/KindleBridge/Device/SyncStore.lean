import KindleBridge.Device.Serving
import KindleBridge.Foundations.FileEffects
import KindleBridge.Foundations.Script

/-! # The sync store

Files arrive in a staging directory beside the tree that they belong to, and are renamed
into place. The functions are scripts of file system calls. What the hash and JSON
libraries compute is left open; the state of a hasher is the list of the bytes it has seen.
-/

namespace KindleBridge.Device

open Schema Script

def checkpointInterval : ℕ := 256 * 1024 * 1024
def metadataVersion : ℕ := 1
def maxDirectoryEntries : ℕ := 65536
def hashBufferSize : ℕ := 64 * 1024

/-- Sizes are 64-bit integers. -/
def maxU64 : ℕ := 2 ^ 64 - 1

def saturatingAdd (a b : ℕ) : ℕ := min (a + b) maxU64

/-- What a call is made for: the directories of the store, a transfer, or a remote path. -/
inductive Purpose
  | layout
  | transfer
  | target
  deriving DecidableEq, Repr

structure StoreCall where
  purpose : Purpose
  op : FsOp String
  deriving DecidableEq

abbrev StoreCall.Answer (call : StoreCall) : Type := call.op.Answer

def StoreCall.serve (call : StoreCall) (fs : FileSystem String) :
    call.Answer × FileSystem String := call.op.serve fs

abbrev StoreM := Script StoreCall StoreCall.Answer StoreError

abbrev layout (op : FsOp String) : StoreM op.Answer := perform (⟨.layout, op⟩ : StoreCall)
abbrev transfer (op : FsOp String) : StoreM op.Answer := perform (⟨.transfer, op⟩ : StoreCall)
abbrev target (op : FsOp String) : StoreM op.Answer := perform (⟨.target, op⟩ : StoreCall)

def StoreError.ofIo (e : IoError) : StoreError := .io e.text

def io {α : Type} (r : Except IoError α) : StoreM α := ofExcept (r.mapError .ofIo)

@[simp] theorem io_ok {α : Type} (a : α) : io (.ok a) = pure a := rfl

structure TransferMetadata where
  version : ℕ
  transferId : String
  direction : TransferDirection
  remotePath : String
  totalSize : ℕ
  fileHash : String
  nextOffset : ℕ
  state : TransferState
  deriving DecidableEq

def TransferMetadata.status (m : TransferMetadata) : SyncStatus :=
  ⟨m.transferId, m.direction, m.remotePath, m.nextOffset, m.totalSize, m.state⟩

/-- The root of a store, and what it takes from libraries. -/
structure SyncStore where
  root : List String
  nfc : String → String
  /-- The hexadecimal digest of some bytes. -/
  hash : List UInt8 → String
  isDigest : String → Bool
  encodeMetadata : TransferMetadata → List UInt8
  decodeMetadata : List UInt8 → Except String TransferMetadata

structure OpenFile where
  inode : ℕ
  position : ℕ
  deriving DecidableEq

structure PushTransfer where
  metadata : TransferMetadata
  file : Option OpenFile
  hasher : List UInt8
  nextCheckpoint : ℕ
  deriving DecidableEq

structure PullTransfer where
  metadata : TransferMetadata
  file : OpenFile
  nextCheckpoint : ℕ
  deriving DecidableEq

structure SyncMkdirResult where
  remotePath : String
  created : Bool
  deriving DecidableEq

structure SyncEntry where
  name : String
  isDirectory : Bool
  size : ℕ
  deriving DecidableEq

structure SyncListResult where
  remotePath : String
  entries : List SyncEntry
  nextCursor : Option String
  deriving DecidableEq

/-- Accept a directory where none could be made because there is one. -/
def acceptDir (path : List String) (e : IoError) : StoreM Unit := do
  match ← layout (.metadata path) with
  | .ok m => if m.kind = .dir then return () else Script.fail (.ofIo e)
  | .error _ => Script.fail (.ofIo e)

/-- Make a directory and those above it, given the components from the last to the first. -/
def createDirAll : List String → StoreM Unit
  | [] => return ()
  | c :: parents => do
    match ← layout (.createDir (c :: parents).reverse) with
    | .ok _ => return ()
    | .error .notFound => do
      createDirAll parents
      match ← layout (.createDir (c :: parents).reverse) with
      | .ok _ => return ()
      | .error e => acceptDir (c :: parents).reverse e
    | .error e => acceptDir (c :: parents).reverse e

def validateTransferId (value : String) : StoreM Unit :=
  if isValidTransferId value then return () else Script.fail .invalidTransferId

def validateMetadata (metadata : TransferMetadata) (direction : TransferDirection)
    (remotePath : String) (totalSize : ℕ) (fileHash : String) : StoreM Unit :=
  if metadata.direction = direction ∧ metadata.remotePath = remotePath ∧
    metadata.totalSize = totalSize ∧ metadata.fileHash = fileHash then return ()
  else Script.fail .metadataMismatch

/--
Hash the next bytes of an open file. Every read shortens what remains, so the fuel does not
run out.
-/
def hashPrefixLoop (purpose : Purpose) (inode : ℕ) : ℕ → ℕ → ℕ → List UInt8 → StoreM (List UInt8)
  | 0, _, _, hasher => return hasher
  | fuel + 1, position, remaining, hasher =>
    if remaining = 0 then return hasher
    else do
      let bytes ← perform (⟨purpose, .read inode position (min remaining hashBufferSize)⟩ : StoreCall)
      if bytes = [] then Script.fail (.invalidState "staging file was truncated")
      else
        hashPrefixLoop purpose inode fuel (position + bytes.length) (remaining - bytes.length)
          (hasher ++ bytes)

def hashPrefix (purpose : Purpose) (inode length : ℕ) : StoreM (List UInt8) :=
  hashPrefixLoop purpose inode length 0 length []

namespace SyncStore

variable (store : SyncStore)

def stageName : String := ".kindlebridge-sync"
def stageRoot : List String := store.root ++ [stageName]
def partPath (transferId : String) : List String := store.stageRoot ++ [transferId ++ ".part"]
def metadataPath (transferId : String) : List String := store.stageRoot ++ [transferId ++ ".json"]

/-- The metadata path with the extension `json.tmp`. -/
def temporaryPath (transferId : String) : List String :=
  store.stageRoot ++ [transferId ++ ".json.tmp"]

def targetPath (logical : LogicalSyncPath) : List String := store.root ++ logical.components

def parsePath (value : String) : StoreM LogicalSyncPath :=
  ofExcept ((LogicalSyncPath.parse store.nfc value).mapError fun e => .path e.text)

def parseHash (value : String) : StoreM Unit :=
  if store.isDigest value then return () else Script.fail .invalidHash

def ensureLayout : StoreM Unit := do
  createDirAll store.root.reverse
  createDirAll store.stageRoot.reverse

def checkIdentity (transferId : String) (metadata : TransferMetadata) : StoreM TransferMetadata :=
  if metadata.version ≠ metadataVersion ∨ metadata.transferId ≠ transferId then
    Script.fail (.invalidState "invalid transfer metadata")
  else return metadata

def parseMetadata (transferId : String) (bytes : List UInt8) : StoreM TransferMetadata := do
  let metadata ← ofExcept ((store.decodeMetadata bytes).mapError .json)
  checkIdentity transferId metadata

def readMetadata (transferId : String) : StoreM TransferMetadata := do
  match ← transfer (.openFile (store.metadataPath transferId)) with
  | .error .notFound => Script.fail (.transferNotFound transferId)
  | .error e => Script.fail (.ofIo e)
  | .ok inode => do
    let size ← transfer (.size inode)
    let bytes ← transfer (.read inode 0 size)
    store.parseMetadata transferId bytes

def writeMetadata (metadata : TransferMetadata) : StoreM Unit := do
  let inode ← io (← transfer (.create (store.temporaryPath metadata.transferId)))
  transfer (.write inode 0 (store.encodeMetadata metadata))
  transfer (.sync inode)
  io (← transfer (.rename (store.temporaryPath metadata.transferId)
    (store.metadataPath metadata.transferId)))

/-- Go down one component, which has to be a directory. Makes one where there is nothing. -/
def enterOrCreate (path : List String) : StoreM Bool := do
  match ← target (.symlinkMetadata path) with
  | .ok m => if m.kind = .dir then return false else Script.fail .unsafePath
  | .error .notFound => do
    io (← target (.createDir path))
    return true
  | .error e => Script.fail (.ofIo e)

/-- Make the directories of a path below one that exists. Returns whether any was made. -/
def createBelow : List String → List String → StoreM Bool
  | _, [] => return false
  | current, component :: rest => do
    let created ← enterOrCreate (current ++ [component])
    let more ← createBelow (current ++ [component]) rest
    return created || more

def prepareTarget (logical : LogicalSyncPath) : StoreM (List String) := do
  let _ ← createBelow store.root logical.components.dropLast
  return store.targetPath logical

/-- What stands at the target may be replaced. -/
def checkReplaceable (path : List String) : StoreM Unit := do
  if ← target (.pathExists path) then
    let m ← io (← target (.symlinkMetadata path))
    if m.kind = .file then return () else Script.fail .unsafePath
  else return ()

def commitTarget (logical : LogicalSyncPath) (staging : List String) : StoreM Unit := do
  let path ← store.prepareTarget logical
  checkReplaceable path
  io (← target (.rename staging path))

/-- Go down the components of a path, none of which may be a link. -/
def openBelow (remotePath : String) (accepts : FileKind → Bool) :
    List String → List String → StoreM (List String)
  | current, [] => return current
  | current, component :: rest => do
    match ← target (.symlinkMetadata (current ++ [component])) with
    | .error .notFound => Script.fail (.fileNotFound remotePath)
    | .error e => Script.fail (.ofIo e)
    | .ok m =>
      if accepts m.kind then openBelow remotePath accepts (current ++ [component]) rest
      else Script.fail .unsafePath

def openExistingTarget (logical : LogicalSyncPath) : StoreM (List String) := do
  let path ← openBelow logical.value (· ≠ .symlink) store.root logical.components
  let m ← io (← target (.metadata path))
  if m.kind = .file then return path else Script.fail (.fileNotFound logical.value)

def openExistingDirectory (logical : LogicalSyncPath) : StoreM (List String) :=
  openBelow logical.value (· = .dir) store.root logical.components

def status (transferId : String) : StoreM SyncStatus := do
  validateTransferId transferId
  let metadata ← store.readMetadata transferId
  return metadata.status

def resumeMetadata (direction : TransferDirection) (transferId remotePath : String)
    (totalSize : ℕ) (fileHash : String) : StoreM TransferMetadata := do
  validateTransferId transferId
  let metadata ← store.readMetadata transferId
  validateMetadata metadata direction remotePath totalSize fileHash
  return metadata

def newMetadata (direction : TransferDirection) (allocated remotePath : String) (totalSize : ℕ)
    (fileHash : String) (nextOffset : ℕ) : TransferMetadata :=
  ⟨metadataVersion, allocated, direction, remotePath, totalSize, fileHash, nextOffset, .inProgress⟩

def newPush (allocated remotePath : String) (totalSize : ℕ) (fileHash : String) :
    StoreM TransferMetadata := do
  let metadata := newMetadata .push allocated remotePath totalSize fileHash 0
  let _ ← io (← transfer (.create (store.partPath metadata.transferId)))
  store.writeMetadata metadata
  return metadata

/-- Open the staging file, hash what is in it and go to its end. -/
def openStaging (metadata : TransferMetadata) (totalSize : ℕ) : StoreM PushTransfer := do
  let inode ← io (← transfer (.openFile (store.partPath metadata.transferId)))
  let actualSize ← transfer (.size inode)
  if actualSize > totalSize then Script.fail (.invalidState "staging file exceeds total_size")
  else
    let hasher ← hashPrefix .transfer inode actualSize
    let position ← transfer (.size inode)
    store.writeMetadata { metadata with nextOffset := actualSize }
    return ⟨{ metadata with nextOffset := actualSize }, some ⟨inode, position⟩, hasher,
      min (saturatingAdd actualSize checkpointInterval) totalSize⟩

def pushMetadata (allocated : String) (transferId : Option String) (remotePath : String)
    (totalSize : ℕ) (fileHash : String) : StoreM TransferMetadata :=
  match transferId with
  | some id => store.resumeMetadata .push id remotePath totalSize fileHash
  | none => store.newPush allocated remotePath totalSize fileHash

def openPush (metadata : TransferMetadata) (totalSize : ℕ) : StoreM PushTransfer :=
  if metadata.state = .complete then return ⟨metadata, none, [], maxU64⟩
  else store.openStaging metadata totalSize

/-- Begin or resume a push. A new one gets the id that has been allocated. -/
def beginPush (allocated : String) (transferId : Option String) (remotePath : String)
    (totalSize : ℕ) (fileHash : String) : StoreM PushTransfer := do
  let logical ← store.parsePath remotePath
  store.parseHash fileHash
  store.ensureLayout
  let metadata ← store.pushMetadata allocated transferId logical.value totalSize fileHash
  store.openPush metadata totalSize

def pullMetadata (allocated : String) (transferId : Option String) (remotePath : String)
    (totalSize : ℕ) (fileHash : String) (offset : ℕ) : StoreM TransferMetadata :=
  match transferId with
  | some id => do
    let metadata ← store.resumeMetadata .pull id remotePath totalSize fileHash
    return { metadata with nextOffset := offset }
  | none => return newMetadata .pull allocated remotePath totalSize fileHash offset

def openPull (allocated : String) (transferId : Option String) (logical : LogicalSyncPath)
    (offset inode totalSize : ℕ) : StoreM PullTransfer :=
  if offset > totalSize then Script.fail (.invalidState "resume offset exceeds file size")
  else do
    let length ← target (.size inode)
    let hasher ← hashPrefix .target inode length
    let metadata ← store.pullMetadata allocated transferId logical.value totalSize
      (store.hash hasher) offset
    let metadata := { metadata with
      state := if offset = totalSize then .complete else .inProgress }
    store.writeMetadata metadata
    return ⟨metadata, ⟨inode, offset⟩, saturatingAdd offset checkpointInterval⟩

def beginPull (allocated : String) (transferId : Option String) (remotePath : String)
    (offset : ℕ) : StoreM PullTransfer := do
  let logical ← store.parsePath remotePath
  store.ensureLayout
  let path ← store.openExistingTarget logical
  let inode ← io (← target (.openFile path))
  let totalSize ← target (.size inode)
  store.openPull allocated transferId logical offset inode totalSize

/-- Open a file that has been committed, and return its handle. -/
def openCommitted (remotePath : String) : StoreM ℕ := do
  let logical ← store.parsePath remotePath
  store.ensureLayout
  let path ← store.openExistingTarget logical
  io (← target (.openFile path))

def createDirectory (remotePath : String) : StoreM SyncMkdirResult := do
  let logical ← store.parsePath remotePath
  store.ensureLayout
  let created ← createBelow store.root logical.components
  return ⟨logical.value, created⟩

def parseCursor (value : String) : StoreM String := do
  let parsed ← store.parsePath value
  if '/' ∈ parsed.value.toList then Script.fail (.path LogicalSyncPathError.invalidComponent.text)
  else return parsed.value

def entryOf (name : String) (m : Metadata) : StoreM SyncEntry :=
  match m.kind with
  | .file => return ⟨name, false, m.len⟩
  | .dir => return ⟨name, true, 0⟩
  | .symlink | .special => Script.fail .unsafePath

/-- The entries of a directory behind the cursor, in the order in which they are listed. -/
def readEntries (directory : List String) (cursor : Option String) :
    List SyncEntry → List String → StoreM (List SyncEntry)
  | entries, [] => return entries
  | entries, listed :: rest =>
    if entries.length ≥ maxDirectoryEntries then Script.fail .directoryTooLarge
    else do
      let name ← store.parsePath listed
      let m ← io (← target (.symlinkMetadata (directory ++ [listed])))
      let entry ← entryOf name.value m
      if cursor.all (· < entry.name) then
        readEntries directory cursor (entries ++ [entry]) rest
      else readEntries directory cursor entries rest

def page (remotePath : String) (entries : List SyncEntry) (limit : ℕ) : SyncListResult :=
  let sorted := entries.mergeSort fun a b => a.name ≤ b.name
  ⟨remotePath, sorted.take limit,
    if sorted.length > limit then (sorted[limit - 1]?).map (·.name) else none⟩

def listDirectory (remotePath : String) (cursor : Option String) (limit : ℕ) :
    StoreM SyncListResult :=
  if limit = 0 ∨ limit > 1024 then Script.fail .invalidListLimit
  else do
    let logical ← store.parsePath remotePath
    let cursor ← match cursor with
      | none => pure none
      | some value => some <$> store.parseCursor value
    store.ensureLayout
    let directory ← store.openExistingDirectory logical
    let listed ← io (← target (.readDir directory))
    let entries ← store.readEntries directory cursor [] listed
    return page logical.value entries limit

end SyncStore

namespace PushTransfer

variable (store : SyncStore)

def isComplete (t : PushTransfer) : Bool := t.metadata.state = .complete

def advanced (t : PushTransfer) (file : OpenFile) (bytes : List UInt8) : PushTransfer :=
  { t with
    metadata := { t.metadata with nextOffset := t.metadata.nextOffset + bytes.length }
    file := some { file with position := file.position + bytes.length } }

def checkpoint (t : PushTransfer) : StoreM Unit :=
  match t.file with
  | none => return ()
  | some file => do
    transfer (.sync file.inode)
    store.writeMetadata t.metadata

/-- Write a checkpoint if one is due. The transfer goes on even if that fails. -/
def checkpointIfDue (t : PushTransfer) : StoreM (PushTransfer × Except StoreError Unit) :=
  if t.metadata.nextOffset ≥ t.nextCheckpoint ∧ t.metadata.nextOffset < t.metadata.totalSize then do
    match ← (t.checkpoint store).attempt with
    | .ok _ => return ({ t with
        nextCheckpoint := saturatingAdd t.metadata.nextOffset checkpointInterval }, .ok ())
    | .error e => return (t, .error e)
  else return (t, .ok ())

/-- Write the next bytes. The transfer is returned with the outcome, as it stays in use. -/
def writeChunkWithoutHash (t : PushTransfer) (bytes : List UInt8) :
    StoreM (PushTransfer × Except StoreError Unit) :=
  if t.metadata.nextOffset + bytes.length > maxU64 then return (t, .error .sizeOverflow)
  else
    match t.file with
    | none => return (t, .error (.invalidState "push exceeds declared size"))
    | some file =>
      if t.metadata.nextOffset + bytes.length > t.metadata.totalSize then
        return (t, .error (.invalidState "push exceeds declared size"))
      else do
        transfer (.write file.inode file.position bytes)
        (t.advanced file bytes).checkpointIfDue store

def rollbackForResume (t : PushTransfer) (offset : ℕ) : StoreM Unit :=
  if offset > t.metadata.nextOffset then
    Script.fail (.invalidState "rollback offset exceeds the received data")
  else
    match t.file with
    | none => Script.fail (.invalidState "completed push has no staging file")
    | some file => do
      transfer (.setLen file.inode offset)
      transfer (.sync file.inode)
      store.writeMetadata { t.metadata with nextOffset := offset }

/-- Empty a staging file whose bytes are not those that were declared. -/
def discard (t : PushTransfer) (file : OpenFile) : StoreM SyncStatus := do
  transfer (.setLen file.inode 0)
  transfer (.sync file.inode)
  store.writeMetadata { t.metadata with nextOffset := 0 }
  Script.fail .checksumMismatch

def publish (t : PushTransfer) : StoreM SyncStatus := do
  let logical ← store.parsePath t.metadata.remotePath
  store.commitTarget logical (store.partPath t.metadata.transferId)
  store.writeMetadata { t.metadata with state := .complete }
  store.status t.metadata.transferId

def finishWithDigest (t : PushTransfer) (digest : String) : StoreM SyncStatus :=
  if t.isComplete then store.status t.metadata.transferId
  else if t.metadata.nextOffset ≠ t.metadata.totalSize then do
    t.checkpoint store
    Script.fail (.invalidState "push ended before total_size")
  else
    match t.file with
    | none => Script.fail (.invalidState "completed push has no staging file")
    | some file => do
      transfer (.sync file.inode)
      if digest ≠ t.metadata.fileHash then t.discard store file else t.publish store

def finish (t : PushTransfer) : StoreM SyncStatus := t.finishWithDigest store (store.hash t.hasher)

end PushTransfer

end KindleBridge.Device
