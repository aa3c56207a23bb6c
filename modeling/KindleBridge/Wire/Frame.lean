import Mathlib.Data.Nat.Digits.Defs

/-! # KBP frames

Commands, the logical header fields and the stateless checks that both ends of
a connection apply to every header. Machine integers are natural numbers; every
place where the code depends on their width is written out.
-/

namespace KindleBridge.Wire

def u32Max : ℕ := 4294967295

def headerLen : ℕ := 40
def protocolMajor : ℕ := 1
def protocolMinor : ℕ := 0
def flagEndStream : ℕ := 0x00000001
def criticalFlagMask : ℕ := 0x0000ffff

/-- The complement of the known critical flags, as a 32-bit mask. -/
def notKnownCriticalFlags : ℕ := 0xfffffffe

/-- The v1 commands in the order of their numbers. -/
inductive Command
  | hello | pairingFinish | open | accept | reject | data | credit | close | reset
  | ping | pong | goAway | error
  deriving DecidableEq, Repr

namespace Command

def allowsStreamZero : Command → Bool
  | hello | pairingFinish | credit | ping | pong | goAway | error => true
  | _ => false

def allowsNonzeroStream : Command → Bool
  | .open | accept | reject | data | credit | close | reset => true
  | _ => false

def name : Command → String
  | hello => "Hello" | pairingFinish => "PairingFinish" | .open => "Open"
  | accept => "Accept" | reject => "Reject" | data => "Data" | credit => "Credit"
  | close => "Close" | reset => "Reset" | ping => "Ping" | pong => "Pong"
  | goAway => "GoAway" | error => "Error"

end Command

/-- Upper bounds applied before a frame is allocated or accepted, both of them 32-bit. -/
structure DecodeLimits where
  maxPayload : ℕ
  maxWindow : ℕ
  maxPayload_le : maxPayload ≤ u32Max
  maxWindow_le : maxWindow ≤ u32Max
  deriving DecidableEq

def DecodeLimits.default : DecodeLimits :=
  ⟨16 * 1024 * 1024, 16 * 1024 * 1024, by decide, by decide⟩

structure Header where
  major : ℕ
  minor : ℕ
  command : Command
  flags : ℕ
  streamId : ℕ
  sequence : ℕ
  payloadLength : ℕ
  creditDelta : ℕ
  reserved : ℕ
  deriving DecidableEq, Repr

/-- A stateless frame encoding or decoding failure. -/
inductive WireError
  | headerTooShort (actual : ℕ)
  | frameLengthMismatch (expected actual : ℕ)
  | invalidMagic (magic : List ℕ)
  | invalidHeaderSize (size : ℕ)
  | unsupportedMajor (major : ℕ)
  | unknownCommand (command : ℕ)
  | headerCrcMismatch (expected actual : ℕ)
  | payloadTooLarge (length maximum : ℕ)
  | creditTooLarge (delta maximum : ℕ)
  | creditPayloadNotEmpty (length : ℕ)
  | invalidCreditDelta (delta : ℕ)
  | unexpectedCreditDelta (command : Command) (delta : ℕ)
  | unknownCriticalFlags (flags : ℕ)
  | endStreamOnNonData (command : Command)
  | invalidStreamForCommand (command : Command) (streamId : ℕ)
  | reservedNotZero (value : ℕ)
  | payloadLengthOverflow (length : ℕ)
  deriving DecidableEq, Repr

/-- Eight lower-case hexadecimal digits after `0x`, or more when the value needs them. -/
def hex (value : ℕ) : String :=
  let digits := Nat.toDigits 16 value
  "0x" ++ String.ofList (List.replicate (8 - digits.length) '0' ++ digits)

def WireError.text : WireError → String
  | .headerTooShort actual => s!"KBP header needs 40 bytes, got {actual}"
  | .frameLengthMismatch expected actual => s!"KBP frame length is {actual}, expected {expected}"
  | .invalidMagic magic => s!"invalid KBP magic {magic}"
  | .invalidHeaderSize size => s!"invalid KBP header size {size}"
  | .unsupportedMajor major => s!"unsupported KBP protocol major {major}"
  | .unknownCommand command => s!"unknown KBP command {command}"
  | .headerCrcMismatch expected actual =>
    s!"KBP header CRC mismatch: expected {hex expected}, got {hex actual}"
  | .payloadTooLarge length maximum => s!"payload length {length} exceeds maximum {maximum}"
  | .creditTooLarge delta maximum => s!"credit delta {delta} exceeds maximum {maximum}"
  | .creditPayloadNotEmpty length => s!"CREDIT payload must be empty, got {length} bytes"
  | .invalidCreditDelta delta => s!"CREDIT delta must be non-zero, got {delta}"
  | .unexpectedCreditDelta command delta =>
    s!"{command.name} must have zero credit delta, got {delta}"
  | .unknownCriticalFlags flags => s!"unknown critical flags {hex flags}"
  | .endStreamOnNonData command => s!"END_STREAM is invalid on {command.name}"
  | .invalidStreamForCommand command streamId =>
    s!"{command.name} is invalid on stream {streamId}"
  | .reservedNotZero value => s!"reserved header field must be zero, got {value}"
  | .payloadLengthOverflow length => s!"payload length {length} does not fit in u32"

namespace Header

def new (command : Command) (streamId sequence : ℕ) : Header where
  major := protocolMajor
  minor := protocolMinor
  command := command
  flags := 0
  streamId := streamId
  sequence := sequence
  payloadLength := 0
  creditDelta := 0
  reserved := 0

def endStream (h : Header) : Bool := h.flags &&& flagEndStream ≠ 0

def unknownCritical (h : Header) : ℕ := h.flags &&& criticalFlagMask &&& notKnownCriticalFlags

def streamIsValid (h : Header) : Bool :=
  if h.streamId = 0 then h.command.allowsStreamZero else h.command.allowsNonzeroStream

/-- The stateless checks of a header, in the order in which their errors take precedence. -/
def validate (h : Header) (limits : DecodeLimits) : Except WireError Unit := do
  if h.major ≠ protocolMajor then throw (.unsupportedMajor h.major)
  if h.payloadLength > limits.maxPayload then
    throw (.payloadTooLarge h.payloadLength limits.maxPayload)
  if h.reserved ≠ 0 then throw (.reservedNotZero h.reserved)
  if h.unknownCritical ≠ 0 then throw (.unknownCriticalFlags h.unknownCritical)
  if h.endStream ∧ h.command ≠ .data then throw (.endStreamOnNonData h.command)
  if h.command = .credit then
    if h.payloadLength ≠ 0 then throw (.creditPayloadNotEmpty h.payloadLength)
    if h.creditDelta = 0 then throw (.invalidCreditDelta 0)
    if h.creditDelta > limits.maxWindow then
      throw (.creditTooLarge h.creditDelta limits.maxWindow)
  else if h.creditDelta ≠ 0 then throw (.unexpectedCreditDelta h.command h.creditDelta)
  if !h.streamIsValid then throw (.invalidStreamForCommand h.command h.streamId)

structure Valid (h : Header) (limits : DecodeLimits) : Prop where
  major : h.major = protocolMajor
  payload : h.payloadLength ≤ limits.maxPayload
  reserved : h.reserved = 0
  critical : h.unknownCritical = 0
  endStream : h.endStream → h.command = .data
  creditPayload : h.command = .credit → h.payloadLength = 0
  creditDelta : h.command = .credit → 0 < h.creditDelta ∧ h.creditDelta ≤ limits.maxWindow
  noDelta : h.command ≠ .credit → h.creditDelta = 0
  stream : h.streamIsValid

variable {limits : DecodeLimits}

theorem validate_eq_ok_iff {h : Header} : h.validate limits = .ok () ↔ h.Valid limits := by
  constructor
  · intro hv
    unfold validate at hv
    simp only [bind, Except.bind, pure, Except.pure, throw, throwThe, MonadExceptOf.throw] at hv
    constructor <;> grind
  · rintro ⟨h1, h2, h3, h4, h5, h6, h7, h8, h9⟩
    unfold validate
    simp only [bind, Except.bind, pure, Except.pure, throw, throwThe, MonadExceptOf.throw]
    grind

theorem Valid.streamZero {h : Header} (hv : h.Valid limits)
    (hz : h.streamId = 0) : h.command.allowsStreamZero := by
  simpa [streamIsValid, hz] using hv.stream

end Header

/--
A complete frame. Every constructor of the code makes the header declare the length of
the payload, so the equation is part of the type.
-/
structure Frame where
  header : Header
  payload : List UInt8
  length_eq : header.payloadLength = payload.length
  deriving DecidableEq

/-- Complete a header with its payload, whose length has to fit 32 bits. -/
def Frame.new (header : Header) (payload : List UInt8) : Except WireError Frame :=
  if payload.length ≤ u32Max then
    .ok ⟨{ header with payloadLength := payload.length }, payload, rfl⟩
  else .error (.payloadLengthOverflow payload.length)

end KindleBridge.Wire
