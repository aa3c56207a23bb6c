import KindleBridge.Foundations.Op
import KindleBridge.Wire.Frame

/-! # One endpoint of a connection

The validating state machine that an endpoint runs over every frame it sends
and receives: the HELLO exchange, stream life cycles, sequence numbers and the
two levels of credit.
-/

namespace KindleBridge.Wire

inductive EndpointRole
  | host | device
  deriving DecidableEq, Repr

def EndpointRole.localStreamsAreOdd : EndpointRole → Bool
  | .host => true
  | .device => false

inductive Direction
  | inbound | outbound
  deriving DecidableEq, Repr

def Direction.senderIsLocal : Direction → Bool
  | .inbound => false
  | .outbound => true

inductive SessionPhase
  | helloExchange | online | goingAway | closed
  deriving DecidableEq, Repr

def SessionPhase.name : SessionPhase → String
  | .helloExchange => "HELLO_EXCHANGE"
  | .online => "ONLINE"
  | .goingAway => "GOAWAY"
  | .closed => "CLOSED"

inductive StreamPhase
  | opening | accepted | rejected | closed | reset
  deriving DecidableEq, Repr

/-- The phases that a CLOSE or a RESET leads to. -/
def StreamPhase.Terminal (p : StreamPhase) : Prop := p = .closed ∨ p = .reset

instance : DecidablePred StreamPhase.Terminal := fun _ => inferInstanceAs (Decidable (_ ∨ _))

/-- The windows that a decoded HELLO or ACCEPT payload advertises. -/
structure FrameContext where
  initialConnectionWindow : Option ℕ := none
  initialStreamWindow : Option ℕ := none
  deriving DecidableEq, Repr

def FrameContext.hello (window : ℕ) : FrameContext := ⟨some window, none⟩
def FrameContext.accept (window : ℕ) : FrameContext := ⟨none, some window⟩

structure SessionConfig where
  role : EndpointRole
  pairingSession : Bool
  limits : DecodeLimits
  deriving DecidableEq

def SessionConfig.new (role : EndpointRole) (limits : DecodeLimits) : SessionConfig :=
  ⟨role, false, limits⟩

structure StreamState where
  phase : StreamPhase
  initiatedByLocal : Bool
  localEndStream : Bool
  peerEndStream : Bool
  sendCredit : ℕ
  sendLimit : ℕ
  receiveCredit : ℕ
  receiveLimit : ℕ
  deriving DecidableEq, Repr

def StreamState.opening (initiatedByLocal : Bool) : StreamState where
  phase := .opening
  initiatedByLocal := initiatedByLocal
  localEndStream := false
  peerEndStream := false
  sendCredit := 0
  sendLimit := 0
  receiveCredit := 0
  receiveLimit := 0

inductive ProtocolError
  | wire (error : WireError)
  | unexpectedCommand (phase : SessionPhase) (command : Command) (streamId : ℕ)
  | sequence (streamId expected actual : ℕ)
  | sequenceExhausted (streamId : ℕ)
  | wrongStreamParity (streamId : ℕ) (expectedOdd : Bool)
  | streamAlreadyUsed (streamId : ℕ)
  | unknownStream (streamId : ℕ)
  | streamNotOpening (streamId : ℕ)
  | streamNotAccepted (streamId : ℕ)
  | wrongOpeningResponder (streamId : ℕ)
  | closeByInitiator (streamId : ℕ)
  | dataAfterEnd (streamId : ℕ)
  | sendCreditExceeded (streamId needed available : ℕ)
  | receiveCreditExceeded (streamId needed available : ℕ)
  | connectionSendCreditExceeded (needed available : ℕ)
  | connectionReceiveCreditExceeded (needed available : ℕ)
  | creditOverflow (streamId current delta maximum : ℕ)
  | missingConnectionWindow
  | missingStreamWindow (streamId : ℕ)
  | unexpectedConnectionWindow (command : Command)
  | unexpectedStreamWindow (command : Command)
  | invalidWindow (window maximum : ℕ)
  | pairingFinishOnRegularSession
  | duplicateHello
  | duplicatePairingFinish
  | streamIdExhausted
  deriving DecidableEq, Repr

def ProtocolError.text : ProtocolError → String
  | .wire error => error.text
  | .unexpectedCommand phase command id =>
    s!"unexpected {command.name} on stream {id} during {phase.name}"
  | .sequence id expected actual =>
    s!"sequence error on stream {id}: expected {expected}, got {actual}"
  | .sequenceExhausted id => s!"sequence exhausted on stream {id}"
  | .wrongStreamParity id expectedOdd =>
    let parity := if expectedOdd then "odd" else "even"
    s!"stream {id} has wrong parity; expected {parity}"
  | .streamAlreadyUsed id => s!"stream {id} was already used"
  | .unknownStream id => s!"unknown stream {id}"
  | .streamNotOpening id => s!"stream {id} is not opening"
  | .streamNotAccepted id => s!"stream {id} is not accepted"
  | .wrongOpeningResponder id => s!"wrong endpoint responded to opening stream {id}"
  | .closeByInitiator id => s!"stream initiator cannot CLOSE stream {id}"
  | .dataAfterEnd id => s!"DATA after END_STREAM on stream {id}"
  | .sendCreditExceeded id needed available =>
    s!"stream {id} send credit exhausted: need {needed}, have {available}"
  | .receiveCreditExceeded id needed available =>
    s!"stream {id} receive credit exhausted: need {needed}, have {available}"
  | .connectionSendCreditExceeded needed available =>
    s!"connection send credit exhausted: need {needed}, have {available}"
  | .connectionReceiveCreditExceeded needed available =>
    s!"connection receive credit exhausted: need {needed}, have {available}"
  | .creditOverflow id current delta maximum =>
    s!"credit overflow on stream {id}: {current} + {delta} exceeds {maximum}"
  | .missingConnectionWindow => "HELLO window metadata is missing"
  | .missingStreamWindow id => s!"ACCEPT window metadata is missing for stream {id}"
  | .unexpectedConnectionWindow command =>
    s!"unexpected connection window metadata on {command.name}"
  | .unexpectedStreamWindow command => s!"unexpected stream window metadata on {command.name}"
  | .invalidWindow window maximum => s!"window {window} is outside 1..={maximum}"
  | .pairingFinishOnRegularSession => "PAIRING_FINISH is forbidden on a regular session"
  | .duplicateHello => "duplicate HELLO"
  | .duplicatePairingFinish => "duplicate PAIRING_FINISH"
  | .streamIdExhausted => "stream ID space exhausted"

/--
The state of one endpoint. Stream records and the next expected sequence numbers are
partial maps from stream identifiers.
-/
structure SessionState where
  config : SessionConfig
  phase : SessionPhase
  localHello : Bool
  peerHello : Bool
  localPairingFinish : Bool
  peerPairingFinish : Bool
  nextLocalStreamId : Option ℕ
  inboundSequences : ℕ → Option ℕ
  outboundSequences : ℕ → Option ℕ
  streams : ℕ → Option StreamState
  connectionSendCredit : ℕ
  connectionSendLimit : ℕ
  connectionReceiveCredit : ℕ
  connectionReceiveLimit : ℕ

/-- 32-bit addition that fails instead of wrapping. -/
def checkedAdd (a b : ℕ) : Option ℕ := if a + b ≤ u32Max then some (a + b) else none

def checkedCredit (streamId current delta maximum : ℕ) : Except ProtocolError ℕ :=
  match (checkedAdd current delta).filter (· ≤ maximum) with
  | some value => .ok value
  | none => .error (.creditOverflow streamId current delta maximum)

namespace SessionState

open Function

def new (config : SessionConfig) : SessionState where
  config := config
  phase := .helloExchange
  localHello := false
  peerHello := false
  localPairingFinish := false
  peerPairingFinish := false
  nextLocalStreamId := some (if config.role.localStreamsAreOdd then 1 else 2)
  inboundSequences := fun _ => none
  outboundSequences := fun _ => none
  streams := fun _ => none
  connectionSendCredit := 0
  connectionSendLimit := 0
  connectionReceiveCredit := 0
  connectionReceiveLimit := 0

/-- The sequence number that the next frame of a direction and stream has to carry. -/
def expected (s : SessionState) (d : Direction) (id : ℕ) : ℕ :=
  match d with
  | .inbound => (s.inboundSequences id).getD 0
  | .outbound => (s.outboundSequences id).getD 0

def unexpected (s : SessionState) (h : Header) : ProtocolError :=
  .unexpectedCommand s.phase h.command h.streamId

def setStream (s : SessionState) (id : ℕ) (st : StreamState) : SessionState :=
  { s with streams := update s.streams id (some st) }

abbrev SessionM := Op SessionState ProtocolError

def allocateStreamId : SessionM ℕ := do
  let s ← Op.get
  match s.nextLocalStreamId with
  | none => Op.fail .streamIdExhausted
  | some id =>
    Op.modify fun s => { s with nextLocalStreamId := checkedAdd id 2 }
    return id

def validateWindow (s : SessionState) (window : ℕ) : Except ProtocolError Unit :=
  if window = 0 ∨ window > s.config.limits.maxWindow then
    .error (.invalidWindow window s.config.limits.maxWindow)
  else .ok ()

/-- HELLO and ACCEPT come with exactly their own window, other commands with none. -/
def validateContext (s : SessionState) (h : Header) (c : FrameContext) :
    Except ProtocolError Unit :=
  match h.command with
  | .hello =>
    if c.initialStreamWindow.isSome then .error (.unexpectedStreamWindow h.command)
    else match c.initialConnectionWindow with
      | none => .error .missingConnectionWindow
      | some window => s.validateWindow window
  | .accept =>
    if c.initialConnectionWindow.isSome then .error (.unexpectedConnectionWindow h.command)
    else match c.initialStreamWindow with
      | none => .error (.missingStreamWindow h.streamId)
      | some window => s.validateWindow window
  | command =>
    if c.initialConnectionWindow.isSome then .error (.unexpectedConnectionWindow command)
    else if c.initialStreamWindow.isSome then .error (.unexpectedStreamWindow command)
    else .ok ()

def validateSequence (s : SessionState) (d : Direction) (h : Header) :
    Except ProtocolError Unit :=
  if h.sequence ≠ s.expected d h.streamId then
    .error (.sequence h.streamId (s.expected d h.streamId) h.sequence)
  else if h.sequence = u32Max ∧ h.command ≠ .reset then .error (.sequenceExhausted h.streamId)
  else .ok ()

/-- Count an accepted frame. The last sequence number is not advanced past. -/
def advanceSequence (d : Direction) (h : Header) (s : SessionState) : SessionState :=
  if h.sequence = u32Max then s
  else match d with
    | .inbound =>
      { s with inboundSequences := update s.inboundSequences h.streamId (some (h.sequence + 1)) }
    | .outbound =>
      { s with outboundSequences := update s.outboundSequences h.streamId (some (h.sequence + 1)) }

def requireOnlineOrGoing (h : Header) : SessionM Unit := do
  let s ← Op.get
  if s.phase = .online ∨ s.phase = .goingAway then return () else Op.fail (s.unexpected h)

def applyHello (d : Direction) (c : FrameContext) : SessionM Unit := do
  let s ← Op.get
  if s.phase ≠ .helloExchange then Op.fail .duplicateHello
  match c.initialConnectionWindow with
  | none => Op.fail .missingConnectionWindow
  | some window =>
    match d with
    | .outbound =>
      if s.localHello then Op.fail .duplicateHello
      Op.modify fun s => { s with
        localHello := true
        connectionReceiveCredit := window
        connectionReceiveLimit := window }
    | .inbound =>
      if s.peerHello then Op.fail .duplicateHello
      Op.modify fun s => { s with
        peerHello := true
        connectionSendCredit := window
        connectionSendLimit := window }
    Op.modify fun s => if s.localHello ∧ s.peerHello then { s with phase := .online } else s

def applyPairingFinish (d : Direction) : SessionM Unit := do
  let s ← Op.get
  if !s.config.pairingSession then Op.fail .pairingFinishOnRegularSession
  if s.phase ≠ .helloExchange then Op.fail .duplicatePairingFinish
  match d with
  | .outbound =>
    if s.localPairingFinish then Op.fail .duplicatePairingFinish
    Op.modify fun s => { s with localPairingFinish := true }
  | .inbound =>
    if s.peerPairingFinish then Op.fail .duplicatePairingFinish
    Op.modify fun s => { s with peerPairingFinish := true }

def applyControl (d : Direction) (h : Header) (c : FrameContext) : SessionM Unit := do
  match h.command with
  | .hello => applyHello d c
  | .pairingFinish => applyPairingFinish d
  | .credit =>
    requireOnlineOrGoing h
    let s ← Op.get
    match d with
    | .inbound =>
      let value ← Op.ofExcept
        (checkedCredit 0 s.connectionSendCredit h.creditDelta s.connectionSendLimit)
      Op.modify fun s => { s with connectionSendCredit := value }
    | .outbound =>
      let value ← Op.ofExcept
        (checkedCredit 0 s.connectionReceiveCredit h.creditDelta s.connectionReceiveLimit)
      Op.modify fun s => { s with connectionReceiveCredit := value }
  | .ping | .pong => requireOnlineOrGoing h
  | .goAway =>
    requireOnlineOrGoing h
    Op.modify fun s => { s with phase := .goingAway }
  | .error => Op.modify fun s => { s with phase := .closed }
  | _ => do
    let s ← Op.get
    Op.fail (s.unexpected h)

/-- Whether the streams that the sender of a direction opens have odd identifiers. -/
def expectedOdd (s : SessionState) (d : Direction) : Bool :=
  match d with
  | .outbound => s.config.role.localStreamsAreOdd
  | .inbound => !s.config.role.localStreamsAreOdd

def applyOpen (d : Direction) (h : Header) : SessionM Unit := do
  let s ← Op.get
  if s.phase ≠ .online then Op.fail (s.unexpected h)
  if decide (h.streamId % 2 = 1) ≠ s.expectedOdd d then
    Op.fail (.wrongStreamParity h.streamId (s.expectedOdd d))
  if (s.streams h.streamId).isSome then Op.fail (.streamAlreadyUsed h.streamId)
  Op.modify (·.setStream h.streamId (.opening d.senderIsLocal))
  if d = .outbound ∧ s.nextLocalStreamId.any (· ≤ h.streamId) then
    Op.modify fun s => { s with nextLocalStreamId := checkedAdd h.streamId 2 }

def applyOpenResponse (d : Direction) (h : Header) (c : FrameContext) (st : StreamState) :
    SessionM Unit := do
  if d.senderIsLocal ≠ !st.initiatedByLocal then Op.fail (.wrongOpeningResponder h.streamId)
  if h.command = .reject then
    Op.modify (·.setStream h.streamId { st with phase := .rejected })
  else
    match c.initialStreamWindow with
    | none => Op.fail (.missingStreamWindow h.streamId)
    | some window =>
      -- ACCEPT grants its window to the initiator only; both limits come from it.
      match d with
      | .inbound =>
        Op.modify (·.setStream h.streamId { st with
          phase := .accepted, sendLimit := window, receiveLimit := window, sendCredit := window })
      | .outbound =>
        Op.modify (·.setStream h.streamId { st with
          phase := .accepted, sendLimit := window, receiveLimit := window,
          receiveCredit := window })

def applyData (d : Direction) (h : Header) (st : StreamState) : SessionM Unit := do
  let s ← Op.get
  let length := h.payloadLength
  match d with
  | .outbound =>
    if st.localEndStream then Op.fail (.dataAfterEnd h.streamId)
    if length > st.sendCredit then
      Op.fail (.sendCreditExceeded h.streamId length st.sendCredit)
    if length > s.connectionSendCredit then
      Op.fail (.connectionSendCreditExceeded length s.connectionSendCredit)
    Op.modify (·.setStream h.streamId { st with
      sendCredit := st.sendCredit - length, localEndStream := st.localEndStream || h.endStream })
    Op.modify fun s => { s with connectionSendCredit := s.connectionSendCredit - length }
  | .inbound =>
    if st.peerEndStream then Op.fail (.dataAfterEnd h.streamId)
    if length > st.receiveCredit then
      Op.fail (.receiveCreditExceeded h.streamId length st.receiveCredit)
    if length > s.connectionReceiveCredit then
      Op.fail (.connectionReceiveCreditExceeded length s.connectionReceiveCredit)
    Op.modify (·.setStream h.streamId { st with
      receiveCredit := st.receiveCredit - length
      peerEndStream := st.peerEndStream || h.endStream })
    Op.modify fun s => { s with connectionReceiveCredit := s.connectionReceiveCredit - length }

def applyDiscardedInboundData (h : Header) (st : StreamState) : SessionM Unit := do
  let s ← Op.get
  let length := h.payloadLength
  if length > st.receiveCredit then
    Op.fail (.receiveCreditExceeded h.streamId length st.receiveCredit)
  if length > s.connectionReceiveCredit then
    Op.fail (.connectionReceiveCreditExceeded length s.connectionReceiveCredit)
  Op.modify (·.setStream h.streamId { st with receiveCredit := st.receiveCredit - length })
  Op.modify fun s => { s with connectionReceiveCredit := s.connectionReceiveCredit - length }

def applyStreamCredit (d : Direction) (h : Header) (st : StreamState) : SessionM Unit := do
  match d with
  | .inbound =>
    let value ← Op.ofExcept (checkedCredit h.streamId st.sendCredit h.creditDelta st.sendLimit)
    Op.modify (·.setStream h.streamId { st with sendCredit := value })
  | .outbound =>
    let value ← Op.ofExcept
      (checkedCredit h.streamId st.receiveCredit h.creditDelta st.receiveLimit)
    Op.modify (·.setStream h.streamId { st with receiveCredit := value })

def applyClose (d : Direction) (h : Header) (st : StreamState) : SessionM Unit := do
  if d.senderIsLocal ≠ !st.initiatedByLocal then Op.fail (.closeByInitiator h.streamId)
  Op.modify (·.setStream h.streamId { st with
    localEndStream := true, peerEndStream := true, phase := .closed })

/-- A DATA, CREDIT, CLOSE or RESET that the terminal phases do not absorb. -/
def applyAccepted (d : Direction) (h : Header) (st : StreamState) : SessionM Unit := do
  if st.phase ≠ .accepted then Op.fail (.streamNotAccepted h.streamId)
  match h.command with
  | .data => applyData d h st
  | .credit => applyStreamCredit d h st
  | .close => applyClose d h st
  | _ => Op.modify (·.setStream h.streamId { st with phase := .reset })

def applyStream (d : Direction) (h : Header) (c : FrameContext) : SessionM Unit := do
  let s ← Op.get
  match s.streams h.streamId with
  | none => Op.fail (.unknownStream h.streamId)
  | some st =>
    match h.command with
    | .accept | .reject =>
      if st.phase ≠ .opening then Op.fail (.streamNotOpening h.streamId)
      applyOpenResponse d h c st
    | .credit | .reset =>
      -- Late credit and resets of a finished stream are accepted without effect.
      if st.phase.Terminal then return () else applyAccepted d h st
    | .data =>
      if d = .inbound ∧ st.phase.Terminal then applyDiscardedInboundData h st
      else applyAccepted d h st
    | .close => applyAccepted d h st
    | _ => Op.fail (s.unexpected h)

/-- Check and apply one frame of a direction. -/
def process (d : Direction) (h : Header) (c : FrameContext) : SessionM Unit := do
  let s ← Op.get
  Op.ofExcept ((h.validate s.config.limits).mapError .wire)
  Op.ofExcept (s.validateContext h c)
  if s.phase = .closed then Op.fail (s.unexpected h)
  Op.ofExcept (s.validateSequence d h)
  if h.streamId = 0 then applyControl d h c
  else if h.command = .open then applyOpen d h
  else applyStream d h c
  Op.modify (advanceSequence d h)

def processInbound (h : Header) (c : FrameContext) : SessionM Unit := process .inbound h c
def processOutbound (h : Header) (c : FrameContext) : SessionM Unit := process .outbound h c

end SessionState

end KindleBridge.Wire
