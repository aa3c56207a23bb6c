import Mathlib.Data.List.AList
import KindleBridge.Transport.Scheduler
import KindleBridge.Wire.Session

/-! # The connection actor

The single owner of a connection: it validates every frame with its session state,
keeps an inbox and the waiting workers of each stream, and queues what it sends. A
response channel is a number, and an answer on it is an entry of the trace.
-/

namespace KindleBridge.Transport

open Wire

def maxPendingPings : ℕ := 64
def maxScheduledBytes : ℕ := 16 * 1024 * 1024
def u64Max : ℕ := 18446744073709551615

inductive ConnectionError
  | disconnected
  | rejected (reason : List UInt8)
  | protocol (message : String)
  | transport (message : String)
  | unknownStream (streamId : ℕ)
  | receivePending (streamId : ℕ)
  | sendPending (streamId : ℕ)
  | queueFull
  | pingTimedOut
  | invalidService (message : String)
  deriving DecidableEq, Repr

inductive Reply
  | done
  | opened (streamId : ℕ)
  | frame (frame : Frame)
  | error (error : ConnectionError)
  deriving DecidableEq

def Reply.ofResult : Except ConnectionError Unit → Reply
  | .ok _ => done
  | .error e => error e

/-- A stream that the peer has opened, as it is handed to the service. -/
structure IncomingStream where
  service : String
  streamId : ℕ
  generation : ℕ
  deriving DecidableEq

/-- The requests of the connection and stream handles, with their response channels. -/
inductive ActorCommand
  | ping (generation timeout response : ℕ)
  | open (generation : ℕ) (service : String) (receiveWindow : ℕ) (trafficClass : TrafficClass)
      (response : ℕ)
  | accept (generation streamId receiveWindow : ℕ) (trafficClass : TrafficClass) (response : ℕ)
  | reject (generation streamId : ℕ) (reason : String) (response : ℕ)
  | sendData (generation streamId : ℕ) (payload : List UInt8) (endStream : Bool) (response : ℕ)
  | receive (generation streamId response : ℕ)
  | close (generation streamId response : ℕ)
  | reset (generation streamId : ℕ) (reason : List UInt8) (response : ℕ)
  | cancelReceive (generation streamId response : ℕ)
  | goAway (generation response : ℕ)
  | shutdown
  deriving DecidableEq

namespace ActorCommand

def generation : ActorCommand → Option ℕ
  | ping g .. | .open g .. | accept g .. | reject g .. | sendData g .. | receive g ..
  | close g .. | reset g .. | cancelReceive g .. | goAway g .. => some g
  | shutdown => none

def response : ActorCommand → Option ℕ
  | ping _ _ r | .open _ _ _ _ r | accept _ _ _ _ r | reject _ _ _ r | sendData _ _ _ _ r
  | receive _ _ r | close _ _ r | reset _ _ _ r | cancelReceive _ _ r | goAway _ r => some r
  | shutdown => none

end ActorCommand

structure PendingSend where
  payload : List UInt8
  endStream : Bool
  response : ℕ
  deriving DecidableEq

structure PendingPing where
  deadline : ℕ
  response : ℕ
  deriving DecidableEq

structure StreamEntry where
  trafficClass : TrafficClass
  receiveWindow : ℕ
  inbox : List Frame
  inboxBytes : ℕ
  receiver : Option ℕ
  opener : Option ℕ
  pendingSend : Option PendingSend
  deriving DecidableEq

namespace StreamEntry

def new (trafficClass : TrafficClass) (receiveWindow : ℕ) : StreamEntry :=
  ⟨trafficClass, receiveWindow, [], 0, none, none, none⟩

/-- The response channels that wait in an entry. -/
def waiting (e : StreamEntry) : List ℕ :=
  e.opener.toList ++ e.receiver.toList ++ (e.pendingSend.map (·.response)).toList

/-- The entry after its waiting channels have been answered. -/
def silenced (e : StreamEntry) : StreamEntry :=
  { e with opener := none, receiver := none, pendingSend := none }

end StreamEntry

/-- What an outside observer sees of an actor, oldest first. -/
structure Trace where
  replies : List (ℕ × Reply) := []
  queued : List (ℕ × Frame) := []
  written : List (ℕ × Frame) := []
  incoming : List (Except ConnectionError IncomingStream) := []

/--
The state of a negotiated session before its first frame: both HELLOs have been
exchanged, so stream 0 continues at 1 in both directions, and the windows are whole.
-/
structure Negotiated (s : SessionState) : Prop where
  regular : s.config.pairingSession = false
  phase : s.phase = .online
  localHello : s.localHello = true
  peerHello : s.peerHello = true
  inbound : ∀ id, s.expected .inbound id = if id = 0 then 1 else 0
  outbound : ∀ id, s.expected .outbound id = if id = 0 then 1 else 0
  streams : ∀ id, s.streams id = none
  receiveCredit : s.connectionReceiveCredit = s.connectionReceiveLimit
  sendCredit : s.connectionSendCredit = s.connectionSendLimit
  receiveLimit : s.connectionReceiveLimit ≤ s.config.limits.maxWindow
  sendLimit : s.connectionSendLimit ≤ s.config.limits.maxWindow

/-- A fresh, fully negotiated session and the HELLO that answers the peer's. -/
structure RestartedSession where
  state : SessionState
  helloResponse : Frame
  negotiated : Negotiated state
  hello : helloResponse.header.command = .hello
  control : helloResponse.header.streamId = 0
  first : helloResponse.header.sequence = 0

/-- The service payloads of OPEN and ACCEPT, which a JSON library encodes and decodes. -/
structure ServiceCodec where
  encodeOpen : String → Except String (List UInt8)
  decodeOpen : List UInt8 → Except String String
  encodeAccept : ℕ → Except String (List UInt8)
  decodeAccept : List UInt8 → Except String ℕ

/-- What the surroundings of the actor answer during one step. -/
structure World where
  now : ℕ
  instantMax : ℕ
  connectionAlive : Bool
  incomingAlive : Bool
  incomingRoom : Bool
  /-- The order in which the table of streams is walked. -/
  order : List ℕ → List ℕ
  order_perm : ∀ ids, (order ids).Perm ids
  sink : Except String Unit
  restart : Frame → Except ConnectionError RestartedSession

def terminal (frame : Frame) : Bool :=
  frame.header.command = .close || frame.header.command = .reset

structure Actor where
  state : SessionState
  streams : AList fun _ : ℕ => StreamEntry
  sequences : ℕ → Option ℕ
  writeWaiters : AList fun _ : ℕ × ℕ => ℕ
  pendingPings : AList fun _ : List UInt8 => PendingPing
  pendingGoaway : Option ℕ
  nextPingId : ℕ
  controlSequence : ℕ
  scheduler : FrameScheduler
  restartable : Bool
  awaitingRestart : Bool
  generation : ℕ
  running : Bool
  terminalError : Option ConnectionError
  trace : Trace

abbrev ActorM := Op Actor ConnectionError

namespace Actor

def new (state : SessionState) (restartable : Bool) : Actor where
  state := state
  streams := ∅
  sequences _ := none
  writeWaiters := ∅
  pendingPings := ∅
  pendingGoaway := none
  nextPingId := 0
  controlSequence := 1
  scheduler := .new maxScheduledBytes
  restartable := restartable
  awaitingRestart := false
  generation := 0
  running := true
  terminalError := none
  trace := {}

def reply (response : ℕ) (r : Reply) (a : Actor) : Actor :=
  { a with trace := { a.trace with replies := a.trace.replies ++ [(response, r)] } }

def replyAll (responses : List ℕ) (r : Reply) (a : Actor) : Actor :=
  { a with trace := { a.trace with replies := a.trace.replies ++ responses.map (·, r) } }

def setEntry (id : ℕ) (e : StreamEntry) (a : Actor) : Actor :=
  { a with streams := a.streams.insert id e }

def nextSequenceFor (a : Actor) (id : ℕ) : ℕ :=
  if id = 0 then a.controlSequence else (a.sequences id).getD 0

def setSequence (id sequence : ℕ) (a : Actor) : Actor :=
  { a with
    controlSequence := if id = 0 then sequence else a.controlSequence
    sequences := if id = 0 then a.sequences else Function.update a.sequences id (some sequence) }

def takeSequence (id : ℕ) : ActorM ℕ := do
  let a ← Op.get
  let current := a.nextSequenceFor id
  if current + 1 > u32Max then Op.fail (.protocol "sequence exhausted")
  Op.modify (setSequence id (current + 1))
  return current

/-- Validate a frame with the session state and put it into the writer queue. -/
def submit (trafficClass : TrafficClass) (context : FrameContext) (frame : Frame)
    (name : String) : ActorM Unit := do
  Op.zoom state (fun s a => { a with state := s })
    (fun e => .protocol s!"outbound {name} on stream {frame.header.streamId}: {e.text}")
    (SessionState.processOutbound frame.header context)
  Op.zoom scheduler (fun s a => { a with scheduler := s }) (fun _ => .queueFull)
    (FrameScheduler.enqueue ⟨trafficClass, frame⟩)
  Op.modify fun a =>
    { a with trace := { a.trace with queued := a.trace.queued ++ [(a.generation, frame)] } }

def queueCredit (id delta : ℕ) : ActorM Unit := do
  let sequence ← takeSequence id
  let header := { Header.new .credit id sequence with creditDelta := delta }
  let frame ← Op.ofExcept ((Frame.new header []).mapError fun e => .protocol e.text)
  submit .control {} frame "CREDIT"

def queueFrame (command : Command) (id : ℕ) (payload : List UInt8) (endStream : Bool)
    (trafficClass : TrafficClass) (context : FrameContext) : ActorM Unit := do
  let sequence ← takeSequence id
  let header := { Header.new command id sequence with
    flags := if endStream then flagEndStream else 0 }
  let frame ← Op.ofExcept ((Frame.new header payload).mapError fun e => .protocol e.text)
  let trafficClass :=
    if TrafficClass.forCommand command = .control then .control else trafficClass
  submit trafficClass context frame command.name

def hasSendCredit (a : Actor) (id needed : ℕ) : Bool :=
  (a.state.streams id).any (needed ≤ ·.sendCredit) && needed ≤ a.state.connectionSendCredit

/-- Forget a stream and answer everyone who waits for it. -/
def retireStream (id : ℕ) (error : ConnectionError) (a : Actor) : Actor :=
  let waiting := ((a.streams.lookup id).map StreamEntry.waiting).getD []
  let keys := a.writeWaiters.keys.filter (·.1 = id)
  let writers := keys.filterMap a.writeWaiters.lookup
  { a.replyAll (waiting ++ writers) (.error error) with
    streams := a.streams.erase id
    writeWaiters := keys.foldl (fun waiters key => waiters.erase key) a.writeWaiters }

def restoreConsumedCredit (frame : Frame) : ActorM Unit := do
  if frame.header.command ≠ .data ∨ frame.header.payloadLength = 0 then return ()
  let a ← Op.get
  -- After END_STREAM the stream's own credit is of no use, the connection's is.
  if !frame.header.endStream ∧
      (a.state.streams frame.header.streamId).any (·.phase = .accepted) then
    queueCredit frame.header.streamId frame.header.payloadLength
  queueCredit 0 frame.header.payloadLength

/-- Queue DATA, whose worker waits until the frame is written. -/
def queueData (id : ℕ) (payload : List UInt8) (endStream : Bool) (trafficClass : TrafficClass)
    (response : ℕ) : ActorM Unit := do
  let a ← Op.get
  let sequence := a.nextSequenceFor id
  match ← (queueFrame .data id payload endStream trafficClass {}).attempt with
  | .ok _ =>
    Op.modify fun a => { a with writeWaiters := a.writeWaiters.insert (id, sequence) response }
  | .error e =>
    Op.modify (reply response (.error e))
    Op.fail e

def sendOrWait (id : ℕ) (payload : List UInt8) (endStream : Bool) (response : ℕ) :
    ActorM Unit := do
  let a ← Op.get
  match a.streams.lookup id with
  | none => Op.fail (.unknownStream id)
  | some entry =>
    if entry.pendingSend.isSome ∨ a.writeWaiters.keys.any (·.1 = id) then
      Op.modify (reply response (.error (.sendPending id)))
      Op.fail (.sendPending id)
    if payload.length > u32Max then Op.fail (.protocol "DATA payload is too large")
    if a.hasSendCredit id payload.length then
      queueData id payload endStream entry.trafficClass response
    else
      Op.modify (setEntry id { entry with pendingSend := some ⟨payload, endStream, response⟩ })

/-- Send what waits for credit on one stream, if the credit suffices now. -/
def flushStream (id : ℕ) : ActorM Unit := do
  let a ← Op.get
  match a.streams.lookup id with
  | none => return ()
  | some entry =>
    match entry.pendingSend with
    | none => return ()
    | some pending =>
      Op.modify (setEntry id { entry with pendingSend := none })
      if pending.payload.length > u32Max then Op.fail (.protocol "DATA payload is too large")
      if !a.hasSendCredit id pending.payload.length then
        Op.modify (setEntry id entry)
      else
        queueData id pending.payload pending.endStream entry.trafficClass pending.response

def flushStreams : List ℕ → ActorM Unit
  | [] => return ()
  | id :: ids => do
    flushStream id
    flushStreams ids

/-- Stream 0 stands for the connection, whose credit may help every stream. -/
def flushPending (w : World) (id : ℕ) : ActorM Unit := do
  let a ← Op.get
  if id = 0 then flushStreams (w.order a.streams.keys) else flushStream id

def receiveOrWait (id response : ℕ) : ActorM Unit := do
  let a ← Op.get
  match a.streams.lookup id with
  | none => Op.fail (.unknownStream id)
  | some entry =>
    if entry.receiver.isSome then
      Op.modify (reply response (.error (.receivePending id)))
      Op.fail (.receivePending id)
    match entry.inbox with
    | [] => Op.modify (setEntry id { entry with receiver := some response })
    | frame :: rest =>
      Op.modify (setEntry id { entry with
        inbox := rest, inboxBytes := entry.inboxBytes - frame.payload.length })
      restoreConsumedCredit frame
      Op.modify (reply response (.frame frame))
      if terminal frame then Op.modify (retireStream id .disconnected)

def deliver (frame : Frame) : ActorM Unit := do
  let id := frame.header.streamId
  let a ← Op.get
  match a.streams.lookup id with
  | none => Op.fail (.unknownStream id)
  | some entry =>
    match entry.receiver with
    | some receiver =>
      Op.modify (setEntry id { entry with receiver := none })
      restoreConsumedCredit frame
      Op.modify (reply receiver (.frame frame))
      if terminal frame then Op.modify (retireStream id .disconnected)
    | none =>
      let bytes := entry.inboxBytes + frame.payload.length
      Op.modify (setEntry id { entry with inboxBytes := bytes })
      if bytes > entry.receiveWindow then Op.fail .queueFull
      Op.modify (setEntry id { entry with inboxBytes := bytes, inbox := entry.inbox ++ [frame] })

def leBytes (n : ℕ) : List UInt8 := (List.range 8).map fun i => UInt8.ofNat (n / 256 ^ i)

def queueAndReply (command : Command) (id : ℕ) (payload : List UInt8) (context : FrameContext)
    (response : ℕ) : ActorM Unit := do
  let result ← (queueFrame command id payload false .control context).attempt
  Op.modify (reply response (.ofResult result))
  Op.ofExcept result

/-- Run a request on the entry of a stream, or answer that the stream is gone. -/
def onStream (id response : ℕ) (request : StreamEntry → ActorM Unit) : ActorM Unit := do
  let a ← Op.get
  match a.streams.lookup id with
  | none => Op.modify (reply response (.error .disconnected))
  | some entry => request entry

variable (codec : ServiceCodec)

def handlePing (w : World) (generation timeout response : ℕ) : ActorM Unit := do
  let a ← Op.get
  if a.pendingPings.keys.length ≥ maxPendingPings then
    Op.modify (reply response (.error .queueFull))
  else
    if a.nextPingId + 1 > u64Max then Op.fail (.protocol "ping id exhausted")
    Op.modify fun a => { a with nextPingId := a.nextPingId + 1 }
    let payload := leBytes generation ++ leBytes a.nextPingId
    if w.now + timeout > w.instantMax then
      Op.modify (reply response (.error (.protocol "ping timeout is too large")))
    else
      match ← (queueFrame .ping 0 payload false .control {}).attempt with
      | .error e =>
        Op.modify (reply response (.error e))
        Op.fail e
      | .ok _ =>
        Op.modify fun a =>
          { a with pendingPings := a.pendingPings.insert payload ⟨w.now + timeout, response⟩ }

def handleOpen (service : String) (receiveWindow : ℕ) (trafficClass : TrafficClass)
    (response : ℕ) : ActorM Unit := do
  let id ← Op.zoom state (fun s a => { a with state := s }) (fun e => .protocol e.text)
    SessionState.allocateStreamId
  Op.modify (setEntry id { StreamEntry.new trafficClass receiveWindow with opener := some response })
  let payload ← Op.ofExcept ((codec.encodeOpen service).mapError .invalidService)
  queueFrame .open id payload false trafficClass {}

def handleAccept (id receiveWindow : ℕ) (trafficClass : TrafficClass) (response : ℕ)
    (entry : StreamEntry) : ActorM Unit := do
  Op.modify (setEntry id { entry with trafficClass := trafficClass, receiveWindow := receiveWindow })
  let payload ← Op.ofExcept ((codec.encodeAccept receiveWindow).mapError .invalidService)
  queueAndReply .accept id payload (.accept receiveWindow) response

def handleCommand (w : World) : ActorCommand → ActorM Unit
  | .ping generation timeout response => handlePing w generation timeout response
  | .open _ service receiveWindow trafficClass response =>
    handleOpen codec service receiveWindow trafficClass response
  | .accept _ id receiveWindow trafficClass response =>
    onStream id response (handleAccept codec id receiveWindow trafficClass response)
  | .reject _ id reason response =>
    onStream id response fun _ => queueAndReply .reject id reason.toUTF8.toList {} response
  | .sendData _ id payload endStream response =>
    onStream id response fun _ => sendOrWait id payload endStream response
  | .receive _ id response => onStream id response fun _ => receiveOrWait id response
  | .close _ id response => onStream id response fun _ => queueAndReply .close id [] {} response
  | .reset _ id reason response =>
    onStream id response fun _ => queueAndReply .reset id reason {} response
  | .cancelReceive _ id response =>
    onStream id response fun entry => do
      Op.modify (setEntry id { entry with receiver := none })
      Op.modify (replyAll entry.receiver.toList (.error .disconnected))
      Op.modify (reply response .done)
  | .goAway _ response => do
    let a ← Op.get
    if a.pendingGoaway.isSome then Op.modify (reply response (.error .queueFull))
    else
      queueFrame .goAway 0 [] false .control {}
      Op.modify fun a => { a with pendingGoaway := some response }
  | .shutdown => return ()

/-- Answer a request that is not for this session. -/
def respondError (command : ActorCommand) (e : ConnectionError) (a : Actor) : Actor :=
  a.replyAll command.response.toList (.error e)

def handleCurrentCommand (w : World) (command : ActorCommand) : ActorM Unit := do
  let a ← Op.get
  if a.awaitingRestart ∧ command ≠ .shutdown then Op.modify (respondError command .disconnected)
  else if command.generation.any (· ≠ a.generation) then
    Op.modify (respondError command .disconnected)
  else handleCommand codec w command

def streamWaiting (a : Actor) : List ℕ := a.streams.entries.flatMap fun x => x.2.waiting

def failStreams (error : ConnectionError) (a : Actor) : Actor :=
  { a.replyAll (a.streamWaiting ++ a.writeWaiters.entries.map (·.2) ++
      a.pendingPings.entries.map (·.2.response)) (.error error) with
    streams := ∅
    sequences := fun _ => none
    writeWaiters := ∅
    pendingPings := ∅
    controlSequence := 1
    nextPingId := 0
    scheduler := .new maxScheduledBytes }

/-- Write a frame of the current session. -/
def write (frame : Frame) (a : Actor) : Actor :=
  { a with trace := { a.trace with written := a.trace.written ++ [(a.generation, frame)] } }

def restartSession (w : World) (hello : Frame) : ActorM Unit := do
  let restarted ← Op.ofExcept (w.restart hello)
  let a ← Op.get
  if a.generation + 1 > u64Max then Op.fail (.protocol "session generation exhausted")
  Op.modify fun a => { a with generation := a.generation + 1 }
  Op.modify (failStreams .disconnected)
  Op.modify fun a => { a with state := restarted.state, awaitingRestart := false }
  match w.sink with
  | .ok _ => Op.modify (write restarted.helloResponse)
  | .error message =>
    Op.modify fun a => { a with awaitingRestart := true }
    Op.modify (failStreams (.transport message))

def acceptIncomingOpen (w : World) (frame : Frame) : ActorM Unit := do
  let service ← Op.ofExcept ((codec.decodeOpen frame.payload).mapError .invalidService)
  let id := frame.header.streamId
  Op.modify (setEntry id (.new .bulk 0))
  if !w.connectionAlive then Op.fail .disconnected
  if !w.incomingAlive then Op.fail .disconnected
  Op.modify fun a => { a with trace := { a.trace with
    incoming := a.trace.incoming ++ [.ok ⟨service, id, a.generation⟩] } }

def completeOpen (id : ℕ) : ActorM Unit := do
  let a ← Op.get
  match a.streams.lookup id with
  | none => Op.fail (.unknownStream id)
  | some entry =>
    queueCredit id entry.receiveWindow
    Op.modify (setEntry id { entry with opener := none })
    Op.modify (replyAll entry.opener.toList (.opened id))

def rejectOpen (frame : Frame) (a : Actor) : Actor :=
  let id := frame.header.streamId
  let opener := (a.streams.lookup id).bind StreamEntry.opener
  { a.replyAll opener.toList (.error (.rejected frame.payload)) with
    streams := a.streams.erase id }

def handlePong (frame : Frame) (a : Actor) : Actor :=
  let pending := a.pendingPings.lookup frame.payload
  { a.replyAll (pending.map (·.response)).toList .done with
    pendingPings := a.pendingPings.erase frame.payload }

def handleGoAway : ActorM Unit := do
  let a ← Op.get
  match a.pendingGoaway with
  | some response =>
    Op.modify fun a => { a with pendingGoaway := none }
    Op.modify (reply response .done)
    Op.fail .disconnected
  | none =>
    if a.restartable then
      Op.modify (failStreams .disconnected)
      Op.modify fun b => { b with controlSequence := a.controlSequence, awaitingRestart := true }
      queueFrame .goAway 0 [] false .control {}
    else Op.fail .disconnected

/-- The context of an inbound frame: the window that an ACCEPT carries. -/
def inboundContext (frame : Frame) : Except ConnectionError FrameContext :=
  if frame.header.command = .accept then
    ((codec.decodeAccept frame.payload).mapError .invalidService).map FrameContext.accept
  else .ok {}

/-- What the actor does with a frame that its session state has accepted. -/
def dispatch (w : World) (frame : Frame) : ActorM Unit :=
  match frame.header.command with
  | .open => acceptIncomingOpen codec w frame
  | .accept => completeOpen frame.header.streamId
  | .reject => Op.modify (rejectOpen frame)
  | .credit => flushPending w frame.header.streamId
  | .data | .close | .reset => deliver frame
  | .ping => queueFrame .pong 0 frame.payload false .control {}
  | .pong => Op.modify (handlePong frame)
  | .goAway => handleGoAway
  | .error => Op.fail .disconnected
  | command => Op.fail (.protocol s!"unexpected {command.name} after handshake")

def handleInbound (w : World) (frame : Frame) : ActorM Unit := do
  let a ← Op.get
  let hello := frame.header.command = .hello ∧ frame.header.streamId = 0
  if hello ∧ a.restartable then restartSession w frame
  else if ¬ hello ∧ a.awaitingRestart then return ()
  else
    let discard := frame.header.command = .data ∧
      (a.state.streams frame.header.streamId).any (·.phase.Terminal)
    let context ← Op.ofExcept (inboundContext codec frame)
    Op.zoom state (fun s a => { a with state := s })
      (fun e => .protocol
        s!"inbound {frame.header.command.name} on stream {frame.header.streamId}: {e.text}")
      (SessionState.processInbound frame.header context)
    if discard then restoreConsumedCredit frame else dispatch codec w frame

def writeNext (w : World) : ActorM Unit := do
  let a ← Op.get
  Op.modify fun a => { a with scheduler := a.scheduler.dequeue.2 }
  match a.scheduler.dequeue.1 with
  | none => return ()
  | some item =>
    match w.sink with
    | .error message => Op.fail (.transport message)
    | .ok _ =>
      let key := (item.frame.header.streamId, item.frame.header.sequence)
      Op.modify (write item.frame)
      Op.modify (replyAll (a.writeWaiters.lookup key).toList .done)
      Op.modify fun a => { a with writeWaiters := a.writeWaiters.erase key }
      if terminal item.frame then
        Op.modify (retireStream item.frame.header.streamId .disconnected)

def expirePings (now : ℕ) (a : Actor) : Actor :=
  let expired := a.pendingPings.entries.filter (·.2.deadline ≤ now)
  { a.replyAll (expired.map (·.2.response)) (.error .pingTimedOut) with
    pendingPings := expired.foldl (fun pings x => pings.erase x.1) a.pendingPings }

def failAll (w : World) (error : ConnectionError) (a : Actor) : Actor :=
  let pending := a.streamWaiting ++ a.writeWaiters.entries.map (·.2) ++
    a.pendingPings.entries.map (·.2.response) ++ a.pendingGoaway.toList
  let b := a.replyAll pending (.error error)
  { b with
    streams := ⟨a.streams.entries.map fun x => ⟨x.1, x.2.silenced⟩, by
      simpa [List.NodupKeys, List.keys, Function.comp_def] using a.streams.nodupKeys⟩
    writeWaiters := ∅
    pendingPings := ∅
    pendingGoaway := none
    terminalError := if w.connectionAlive then a.terminalError.or (some error) else a.terminalError
    trace := { b.trace with incoming :=
      if w.incomingAlive ∧ w.incomingRoom then b.trace.incoming ++ [.error error]
      else b.trace.incoming } }

def finish (w : World) (a : Actor) : Actor := { a.failAll w .disconnected with running := false }

def beginRestart (error : ConnectionError) (a : Actor) : Actor :=
  { a.failStreams error with awaitingRestart := true }

inductive Event
  | command (command : ActorCommand)
  | commandsClosed
  | inbound (frame : Frame)
  | inboundFailed (message : String)
  | inboundClosed
  | dequeue
  | expire

/-- The part of the loop that may fail with a connection error. -/
def handle (w : World) : Event → ActorM Unit
  | .command command => handleCurrentCommand codec w command
  | .inbound frame => handleInbound codec w frame
  | .dequeue => writeNext w
  | .expire => Op.modify (expirePings w.now)
  | .commandsClosed | .inboundFailed _ | .inboundClosed => return ()

/-- A connection error starts the wait for a fresh HELLO, or ends the loop. -/
def recover (w : World) : Except ConnectionError Unit × Actor → Actor
  | (.ok _, a) => a
  | (.error e, a) => if a.restartable then a.beginRestart e else (a.failAll w e).finish w

def step (a : Actor) (input : World × Event) : Actor :=
  if !a.running then a
  else match input.2 with
    | .command .shutdown | .commandsClosed => a.finish input.1
    | .inboundFailed message => (a.failAll input.1 (.transport message)).finish input.1
    | .inboundClosed => (a.failAll input.1 .disconnected).finish input.1
    | event => recover input.1 ((handle codec input.1 event).run a)

def exec (a : Actor) (inputs : List (World × Event)) : Actor := inputs.foldl (step codec) a

end Actor

end KindleBridge.Transport
