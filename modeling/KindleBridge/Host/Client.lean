import KindleBridge.Schema.Protocol
import KindleBridge.Transport.Handle

/-! # Host operations on a device stream

A push, a pull and a remote call, from the moment their stream is open. Local files are
reached through operations whose outcome is left open, and so is what a transfer is told
when it asks whether it has been cancelled. The thread that cancelling starts is not here.
-/

namespace KindleBridge.Host

open Wire Transport Schema

def u64Max : ℕ := 2 ^ 64 - 1

inductive LinkError
  | connection (error : ConnectionError)
  | io (message : String)
  | json (message : String)
  | invalidPayload (label source : String)
  | unexpectedFrame (message : String)
  | sequenceExhausted
  | remote (error : RpcError)
  /-- No error of the code: the operation has not returned yet. -/
  | suspended
  deriving DecidableEq

/-- An operation on a stream, with the local files `τ` it works on. -/
structure Operation (τ : Type) where
  stream : Handle
  files : τ
  /-- What the operation is told each time it asks whether it has been cancelled. -/
  cancels : ℕ → Bool := fun _ => false
  asked : ℕ := 0
  running : Bool := false

abbrev LinkM (τ : Type) := Op (Operation τ) LinkError

namespace Operation

variable {τ α : Type}

/-- The operation has returned only if its stream has ended or the connection is down. -/
def Settled (o : Operation τ) : Prop := o.running ∨ o.stream.Ends

instance (o : Operation τ) : Decidable o.Settled := inferInstanceAs (Decidable (_ ∨ _))

def isCancelled : LinkM τ Bool := do
  let o ← Op.get
  Op.modify fun o => { o with asked := o.asked + 1 }
  return o.cancels o.asked

def onStream (m : Op Handle ConnectionError α) : LinkM τ α :=
  Op.zoom stream (fun h o => { o with stream := h }) .connection m

def onFiles (m : Op τ LinkError α) : LinkM τ α :=
  Op.zoom files (fun t o => { o with files := t }) id m

def reset (reason : String) : LinkM τ Unit :=
  Op.modify fun o => { o with stream :=
    ((Handle.reset reason.toUTF8.toList).run o.stream).2 }

def suspend : LinkM τ α := do
  Op.modify fun o => { o with running := true }
  Op.fail .suspended

def actorData : LinkM τ Frame := do
  let frame ← onStream Handle.recv
  if frame.1.header.command ≠ .data then
    Op.fail (.unexpectedFrame "unexpected command or stream identifier")
  return frame.1

def actorClose : LinkM τ Unit := do
  let frame ← onStream Handle.recv
  if frame.1.header.command ≠ .close then
    Op.fail (.unexpectedFrame "unexpected command or stream identifier")

end Operation

open Operation

variable {τ η κ ρ : Type}

def encode (r : Except String (List UInt8)) : LinkM τ (List UInt8) :=
  Op.ofExcept (r.mapError .json)

def decode {α : Type} (r : Except String α) (label : String) : LinkM τ α :=
  Op.ofExcept (r.mapError (.invalidPayload label))

def syncCancelledError : LinkError :=
  .remote ⟨RpcError.transferCancelledCode, "Transfer cancelled", []⟩

structure SyncParams where
  transferId : Option String
  remotePath : String
  blockSize : ℕ

/-- The encoding of messages and the file that is pushed. -/
structure PushWorld (τ : Type) where
  encodeRequest : SyncRequest → Except String (List UInt8)
  decodeReply : List UInt8 → Except String SyncReply
  seek : ℕ → Op τ LinkError Unit
  read : ℕ → Op τ LinkError (List UInt8)

structure SyncPushResult where
  transferId : String
  acceptedOffset : ℕ
  state : TransferState
  deriving DecidableEq

/-- The transfer and the offset from which the device wants the file. -/
def pushReady (params : SyncParams) (totalSize : ℕ) (fileHash : String) :
    SyncReply → Except LinkError (String × ℕ)
  | .ready transferId offset remoteSize remoteHash =>
    if remoteSize = totalSize ∧ remoteHash = fileHash then
      if !isValidTransferId transferId ∨ params.transferId.any (· ≠ transferId) ∨
          offset > totalSize then
        .error (.unexpectedFrame "sync push resume mismatch")
      else .ok (transferId, offset)
    else .error (.unexpectedFrame "invalid sync push READY")
  | .failure error => .error (.remote error)
  | .complete .. => .error (.unexpectedFrame "invalid sync push READY")

def pushCompletion (transferId : String) (totalSize : ℕ) : SyncReply → Except LinkError SyncPushResult
  | .complete completedId nextOffset completedSize =>
    if completedId = transferId ∧ nextOffset = totalSize ∧ completedSize = totalSize then
      .ok ⟨transferId, nextOffset, .complete⟩
    else .error (.unexpectedFrame "invalid sync push completion")
  | .failure error => .error (.remote error)
  | .ready .. => .error (.unexpectedFrame "invalid sync push completion")

/-- Send the file from where the reading stands, with at most the given number of reads. -/
def sendFile (w : PushWorld τ) (blockSize totalSize : ℕ) : ℕ → ℕ → LinkM τ Unit
  | 0, _ => suspend
  | n + 1, sent => do
    if ← isCancelled then
      Operation.reset "sync cancelled"
      Op.fail syncCancelledError
    else
      let chunk ← onFiles (w.read blockSize)
      if chunk = [] then
        Op.fail (.unexpectedFrame "local file ended before its declared size")
      else if sent + chunk.length > u64Max then Op.fail .sequenceExhausted
      else if sent + chunk.length > totalSize then
        Op.fail (.unexpectedFrame "local file grew during sync")
      else
        onStream (Handle.sendData chunk (sent + chunk.length = totalSize))
        if sent + chunk.length = totalSize then return ()
        else sendFile w blockSize totalSize n (sent + chunk.length)

/-- What is sent once the device is ready. -/
def sendRest (w : PushWorld τ) (blockSize totalSize reads offset : ℕ) : LinkM τ Unit := do
  onFiles (w.seek offset)
  if offset = totalSize then onStream (Handle.sendData [] true)
  else sendFile w blockSize totalSize reads offset

def pushOpenFile (w : PushWorld τ) (params : SyncParams) (totalSize : ℕ) (fileHash : String)
    (reads : ℕ) : LinkM τ SyncPushResult := do
  if ← isCancelled then Op.fail syncCancelledError
  else
    let request ← encode (w.encodeRequest
      (.push params.transferId params.remotePath totalSize fileHash params.blockSize))
    onStream (Handle.sendData request false)
    let frame ← actorData
    let ready ← decode (w.decodeReply frame.payload) "sync reply"
    let (transferId, offset) ← Op.ofExcept (pushReady params totalSize fileHash ready)
    sendRest w params.blockSize totalSize reads offset
    let frame ← actorData
    let completion ← decode (w.decodeReply frame.payload) "sync completion"
    let result ← Op.ofExcept (pushCompletion transferId totalSize completion)
    actorClose
    return result

/-- The encoding of messages, and the file that a pull writes, with hash states `η`. -/
structure PullWorld (τ η : Type) where
  encodeRequest : SyncRequest → Except String (List UInt8)
  decodeReply : List UInt8 → Except String SyncReply
  /-- The length of the staging file of a transfer, zero if there is none. -/
  stagingLength : String → τ → ℕ
  openStaging : String → ℕ → Op τ LinkError Unit
  hashPrefix : ℕ → Op τ LinkError η
  seek : ℕ → Op τ LinkError Unit
  writeAll : List UInt8 → Op τ LinkError Unit
  update : η → List UInt8 → η
  finalize : η → String
  setLen : ℕ → Op τ LinkError Unit
  flush : Op τ LinkError Unit
  syncAll : Op τ LinkError Unit
  commitHostFile : String → Op τ LinkError Unit

structure SyncPullResult where
  transferId : String
  totalSize : ℕ
  receivedSize : ℕ
  state : TransferState
  deriving DecidableEq

structure PullStart where
  transferId : String
  offset : ℕ
  totalSize : ℕ
  fileHash : String

/-- What the device announces. -/
def pullReady (params : SyncParams) (offset : ℕ) : SyncReply → Except LinkError PullStart
  | .ready transferId remoteOffset totalSize fileHash =>
    if !isValidTransferId transferId ∨ params.transferId.any (· ≠ transferId) ∨
        remoteOffset ≠ offset ∨ remoteOffset > totalSize then
      .error (.unexpectedFrame "sync pull resume mismatch")
    else .ok ⟨transferId, remoteOffset, totalSize, fileHash⟩
  | .failure error => .error (.remote error)
  | .complete .. => .error (.unexpectedFrame "invalid sync pull READY")

/-- The offset from which an earlier pull is resumed. -/
def resumeOffset (w : PullWorld τ η) (params : SyncParams) (files : τ) : Except LinkError ℕ :=
  match params.transferId with
  | none => .ok 0
  | some transferId =>
    if isValidTransferId transferId then .ok (w.stagingLength transferId files)
    else .error (.unexpectedFrame "invalid sync transfer ID")

def prepareStaging (w : PullWorld τ η) (start : PullStart) : Op τ LinkError η := do
  w.openStaging start.transferId start.offset
  let hasher ← w.hashPrefix start.offset
  w.seek start.offset
  return hasher

/-- Write what comes until the device ends the stream: the bytes received and their hash. -/
def receiveFile (w : PullWorld τ η) (totalSize : ℕ) :
    List StreamFrame → ℕ → η → LinkM τ (ℕ × η)
  | [], _, _ => do
    if ← isCancelled then
      Operation.reset "sync cancelled"
      Op.fail syncCancelledError
    else
      let _ ← actorData
      suspend
  | _ :: rest, received, hasher => do
    if ← isCancelled then
      Operation.reset "sync cancelled"
      Op.fail syncCancelledError
    else
      let data ← actorData
      onFiles (w.writeAll data.payload)
      if received + data.payload.length > u64Max then Op.fail .sequenceExhausted
      else if received + data.payload.length > totalSize then
        Op.fail (.unexpectedFrame "sync pull exceeded declared size")
      else if data.header.endStream then
        return (received + data.payload.length, w.update hasher data.payload)
      else
        receiveFile w totalSize rest (received + data.payload.length)
          (w.update hasher data.payload)

def commitPull (w : PullWorld τ η) (start : PullStart) (received : ℕ) (hasher : η) :
    Op τ LinkError Unit :=
  if received ≠ start.totalSize ∨ w.finalize hasher ≠ start.fileHash then do
    w.setLen 0
    w.syncAll
    Op.fail (.remote ⟨RpcError.checksumMismatchCode, "Checksum mismatch", []⟩)
  else do
    w.flush
    w.syncAll
    w.commitHostFile start.transferId

def pullStream (w : PullWorld τ η) (params : SyncParams) : LinkM τ SyncPullResult := do
  if ← isCancelled then Op.fail syncCancelledError
  else
    let o ← Op.get
    let offset ← Op.ofExcept (resumeOffset w params o.files)
    let request ← encode (w.encodeRequest
      (.pull params.transferId params.remotePath offset params.blockSize))
    onStream (Handle.sendData request true)
    let frame ← actorData
    let ready ← decode (w.decodeReply frame.payload) "sync reply"
    let start ← Op.ofExcept (pullReady params offset ready)
    let hasher ← onFiles (prepareStaging w start)
    let o ← Op.get
    let (received, hasher) ← receiveFile w start.totalSize o.stream.inbox start.offset hasher
    onFiles (commitPull w start received hasher)
    actorClose
    return ⟨start.transferId, start.totalSize, received, .complete⟩

/-- The encoding of calls `κ` and what replies `ρ` stand for. -/
structure CallWorld (κ ρ : Type) where
  encodeCall : κ → Except String (List UInt8)
  decodeReply : List UInt8 → Except String (Except RpcError ρ)

def call (w : CallWorld κ ρ) (request : κ) : LinkM τ ρ := do
  let payload ← encode (w.encodeCall request)
  onStream (Handle.sendData payload true)
  let response ← actorData
  if !response.header.endStream then
    Op.fail (.unexpectedFrame "device reply did not end the stream")
  else
    actorClose
    let reply ← decode (w.decodeReply response.payload) "device reply"
    Op.ofExcept (reply.mapError .remote)

end KindleBridge.Host
