import KindleBridge.Device.Pipeline
import KindleBridge.Device.Serving

/-! # The RPC and sync services

Both services run on a stream that has just been accepted. What JSON libraries, remote
procedures and the storage answer is left open.
-/

namespace KindleBridge.Device

open Wire Transport Schema Serving

variable {τ κ ρ η : Type}

/-- The procedures of a device and the encoding of their calls `κ` and replies `ρ`. -/
structure RpcWorld (τ κ ρ : Type) where
  decodeCall : List UInt8 → Except String κ
  encodeReply : ρ → Except String (List UInt8)
  dispatch : κ → τ → ρ × τ
  failure : RpcError → ρ
  streamWindow : ℕ

def encode {σ : Type} (r : Except String (List UInt8)) : Op σ ServerError (List UInt8) :=
  Op.ofExcept (r.mapError .json)

def decode {σ α : Type} (r : Except String α) (label : String) : Op σ ServerError α :=
  Op.ofExcept (r.mapError (.invalidPayload label))

/-- A response beyond the window of the stream is replaced by a failure. -/
def limitResponse (rpc : RpcWorld τ κ ρ) (response : List UInt8) : ServiceM τ (List UInt8) :=
  if response.length > rpc.streamWindow then
    encode (rpc.encodeReply (rpc.failure
      ⟨RpcError.execOutputLimitCode, "Command output exceeds the device link limit", []⟩))
  else pure response

def serveActorRpc (rpc : RpcWorld τ κ ρ) : ServiceM τ Unit := do
  let request ← actorData
  if !request.header.endStream then
    onStream (Handle.reset "device calls must end their request".toUTF8.toList)
  else
    let call ← decode (rpc.decodeCall request.payload) "device call"
    let s ← Op.get
    Op.modify fun s => { s with store := (rpc.dispatch call s.store).2 }
    let response ← encode (rpc.encodeReply (rpc.dispatch call s.store).1)
    let response ← limitResponse rpc response
    onStream (Handle.sendData response true)
    onStream Handle.close

structure TransferView where
  transferId : String
  offset : ℕ
  totalSize : ℕ
  fileHash : String
  complete : Bool

def TransferView.ready (v : TransferView) : SyncReply :=
  .ready v.transferId v.offset v.totalSize v.fileHash

/-- The storage below the sync service, with hash states `η`. The transfer is part of `τ`. -/
structure SyncBackend (τ η : Type) where
  decodeRequest : List UInt8 → Except String SyncRequest
  encodeReply : SyncReply → Except String (List UInt8)
  beginPush : Option String → String → ℕ → String → Op τ StoreError Unit
  beginPull : Option String → String → ℕ → Op τ StoreError Unit
  view : τ → TransferView
  hashState : τ → η
  update : η → List UInt8 → η
  writeChunkWithoutHash : List UInt8 → Op τ StoreError Unit
  checkpoint : Op τ StoreError Unit
  rollbackForResume : ℕ → Op τ StoreError Unit
  finish : Op τ StoreError SyncStatus
  finishWithDigest : η → Op τ StoreError SyncStatus
  readChunk : ℕ → Op τ StoreError (List UInt8)
  checkpointIfDue : Op τ StoreError Unit
  finishPull : Op τ StoreError SyncStatus

variable (backend : SyncBackend τ η)

def fail (error : RpcError) : ServiceM τ Unit := do
  let payload ← encode (backend.encodeReply (.failure error))
  onStream (Handle.sendData payload true)
  onStream Handle.close

structure ReceiveContext where
  stream : Handle
  blockSize : ℕ
  endStreamReceived : Bool

def ReceiveContext.data : Op ReceiveContext ServerError Frame :=
  Op.zoom (fun c => { stream := c.stream, store := () }) (fun s c => { c with stream := s.stream })
    id (actorData : ServiceM Unit Frame)

/-- The stages of a push: the stream is read, the payloads are hashed and written. -/
def pushStages : Stages ReceiveContext (τ × η) (List UInt8) ℕ ServerError where
  read := do
    let c ← Op.get
    if c.endStreamReceived then return none
    else
      let data ← ReceiveContext.data
      if data.payload.length > c.blockSize then
        Op.fail (.unexpectedFrame "sync DATA exceeds negotiated block size")
      else
        Op.modify fun c => { c with endStreamReceived := data.header.endStream }
        return some data.payload
  write payload := do
    let w ← Op.get
    Op.modify fun w => (w.1, backend.update w.2 payload)
    Op.zoom Prod.fst (fun t w => (t, w.2)) .sync (backend.writeChunkWithoutHash payload)
    return (backend.view w.1).offset
  stored _ := return ()
  mustDrain _ := false

def PipelineFailure.serverError : PipelineFailure ServerError → ServerError
  | .stage e => e
  | .workerStopped => .unexpectedFrame "sync storage worker stopped before the transfer completed"

def pushPipeline (blockSize : ℕ) (s : Serving τ) :
    Pipeline ReceiveContext (τ × η) (List UInt8) ℕ ServerError where
  context := ⟨s.stream, blockSize, false⟩
  sink := (s.store, backend.hashState s.store)

/-- Make an interrupted push ready to be resumed: the last frame written is dropped. -/
def retreat (lastWritten : Option ℕ) : Op τ StoreError Unit :=
  match lastWritten with
  | some offset => backend.rollbackForResume offset
  | none => backend.checkpoint

/-- How a push goes on when its pipeline has returned. -/
def conclude (p : Pipeline ReceiveContext (τ × η) (List UInt8) ℕ ServerError) : ServiceM τ η :=
  match p.producer, p.writer with
  | .done (.ok _), .stopped => return p.sink.2
  | .done (.error f), .stopped => do
    onStore (retreat backend p.lastWritten)
    Op.fail f.serverError
  | _, _ => suspend

/-- Receive the bytes of a push through the pipeline, and return the hash of all of them. -/
def receive (schedule : List Thread) (blockSize : ℕ) : ServiceM τ η := do
  let s ← Op.get
  let p := (pushPipeline backend blockSize s).exec (pushStages backend) schedule
  Op.modify fun s => { s with stream := p.context.stream, store := p.sink.1 }
  conclude backend p

/-- A push that is complete already takes one empty last DATA. Returns whether it came. -/
def drain (blockSize : ℕ) : List StreamFrame → ServiceM τ Bool
  | [] => do
    let _ ← actorData
    suspend
  | _ :: rest => do
    let data ← actorData
    if data.payload.length > blockSize then
      onStream (Handle.reset "sync DATA exceeds negotiated block size".toUTF8.toList)
      return false
    else if data.payload ≠ [] then
      onStream (Handle.reset "completed sync push accepts only an empty final DATA".toUTF8.toList)
      return false
    else if data.header.endStream then return true
    else drain blockSize rest

def complete (status : Except StoreError SyncStatus) : ServiceM τ Unit :=
  match status with
  | .error e => fail backend e.intoRpc
  | .ok status => do
    let payload ←
      encode (backend.encodeReply (.complete status.transferId status.nextOffset status.totalSize))
    onStream (Handle.sendData payload true)
    onStream Handle.close

/-- Run a storage operation and keep its outcome. -/
def attemptStore {α : Type} (m : Op τ StoreError α) : ServiceM τ (Except StoreError α) :=
  Op.zoom store (fun t s => { s with store := t }) .sync m.attempt

def push (schedule : List Thread) (blockSize : ℕ) : ServiceM τ Unit := do
  let s ← Op.get
  let ready ← encode (backend.encodeReply (backend.view s.store).ready)
  onStream (Handle.sendData ready false)
  if (backend.view s.store).complete then
    let s ← Op.get
    if ← drain blockSize s.stream.inbox then
      complete backend (← attemptStore backend.finish)
  else
    let digest ← receive backend schedule blockSize
    complete backend (← attemptStore (backend.finishWithDigest digest))

def noteChunk (last : Bool) : Op τ StoreError Unit :=
  if last then do
    let _ ← backend.finishPull
    return ()
  else backend.checkpointIfDue

/--
Send the rest of a file. Chunks reach the stream in the order in which the reader thread
reads them, so the reads are taken one by one.
-/
def sendChunks (blockSize : ℕ) : ℕ → ServiceM τ Unit
  | 0 => suspend
  | n + 1 => do
    let payload ← onStore (backend.readChunk blockSize)
    if payload = [] then
      Op.fail (.unexpectedFrame "sync source ended before declared size")
    else
      let s ← Op.get
      let last : Bool := (backend.view s.store).offset = (backend.view s.store).totalSize
      onStore (noteChunk backend last)
      onStream (Handle.sendData payload last)
      if last then return () else sendChunks blockSize n

def sendFile (reads blockSize : ℕ) : ServiceM τ Unit := do
  let s ← Op.get
  if (backend.view s.store).offset = (backend.view s.store).totalSize then
    onStore (noteChunk backend true)
    onStream (Handle.sendData [] true)
  else sendChunks backend blockSize reads

def pull (reads blockSize : ℕ) : ServiceM τ Unit := do
  let s ← Op.get
  let ready ← encode (backend.encodeReply (backend.view s.store).ready)
  onStream (Handle.sendData ready false)
  sendFile backend reads blockSize
  onStream Handle.close

/-- Answer the start of a transfer: go on with it, or say why there is none. -/
def begin (start : Op τ StoreError Unit) (transfer : ServiceM τ Unit) : ServiceM τ Unit := do
  match ← attemptStore start with
  | .ok _ => transfer
  | .error e => fail backend e.intoRpc

/-- Serve a request, with the schedule of the pipeline and the number of reads that are made. -/
def serveRequest (schedule : List Thread) (reads : ℕ) (endStream : Bool) :
    SyncRequest → ServiceM τ Unit
  | .push transferId remotePath totalSize fileHash blockSize =>
    if endStream then
      fail backend (.invalidParams "push metadata must not end the stream")
    else
      begin backend (backend.beginPush transferId remotePath totalSize fileHash)
        (push backend schedule blockSize)
  | .pull transferId remotePath offset blockSize =>
    if !endStream then
      fail backend (.invalidParams "pull metadata must end the stream")
    else begin backend (backend.beginPull transferId remotePath offset) (pull backend reads blockSize)

def serve (schedule : List Thread) (reads : ℕ) : ServiceM τ Unit := do
  let frame ← actorData
  let request ← decode (backend.decodeRequest frame.payload) "sync request"
  if request.blockSize = 0 ∨ request.blockSize > maxSyncBlockSize then
    fail backend (.invalidParams "block_size must be between 1 and 1048576")
  else serveRequest backend schedule reads frame.header.endStream request

end KindleBridge.Device
