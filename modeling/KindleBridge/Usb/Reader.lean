import KindleBridge.Wire.Codec

/-! # Reading frames from a USB endpoint

Bytes come in chunks of any size. After a protocol error the reader looks for the next
frame magic and reads on from there.
-/

namespace KindleBridge.Usb

open Wire

def maxResynchronizeBytes : ℕ := 16 * 1024 * 1024
def hardMaxPayload : ℕ := 64 * 1024 * 1024

inductive IoErrorKind
  | unexpectedEof | invalidData | timedOut | wouldBlock | connectionAborted | other
  deriving DecidableEq, Repr

inductive TransportError
  | endOfStream
  | truncatedHeader (received : ℕ)
  | truncatedPayload (expected received : ℕ)
  | wire (error : WireError)
  | payloadExceedsHardLimit (length hardLimit : ℕ)
  | io (kind : IoErrorKind) (message : String)
  deriving DecidableEq

inductive ErrorClass
  | cleanEof | truncated | resourceLimit | protocol | timeout | io
  deriving DecidableEq, Repr

namespace TransportError

/-- Errors that are not mended by looking for the next frame, among those of the wire. -/
def isResourceLimit : WireError → Bool
  | .payloadTooLarge .. | .creditTooLarge .. => true
  | _ => false

def errorClass : TransportError → ErrorClass
  | .endOfStream => .cleanEof
  | .truncatedHeader _ | .truncatedPayload .. => .truncated
  | .wire e => if isResourceLimit e then .resourceLimit else .protocol
  | .payloadExceedsHardLimit .. => .resourceLimit
  | .io .timedOut _ | .io .wouldBlock _ => .timeout
  | .io _ _ => .io

def allowsInPlaceRestart (e : TransportError) : Bool :=
  match e with
  | .io .connectionAborted _ => false
  | e => e.errorClass = .timeout || e.errorClass = .io || e.errorClass = .truncated ||
      e.errorClass = .protocol

end TransportError

/-- The limits of a transport, below the hard limit for payloads. -/
structure TransportConfig where
  limits : DecodeLimits
  le_hardMaxPayload : limits.maxPayload ≤ hardMaxPayload

/-- What still comes from an endpoint, and how many bytes each call gets at most. -/
structure Endpoint where
  bytes : List UInt8
  sizes : ℕ → ℕ
  calls : ℕ := 0

namespace Endpoint

/-- A call gets at least one byte where there is one. -/
def size (e : Endpoint) : ℕ := max 1 (e.sizes e.calls)

def read (e : Endpoint) (n : ℕ) : List UInt8 × Endpoint :=
  (e.bytes.take (min n e.size),
    { e with bytes := e.bytes.drop (min n e.size), calls := e.calls + 1 })

def fillBuf (e : Endpoint) : List UInt8 := e.bytes.take e.size

def consume (e : Endpoint) (n : ℕ) : Endpoint :=
  { e with bytes := e.bytes.drop n, calls := e.calls + 1 }

end Endpoint

structure ResynchronizingReader where
  inner : Endpoint
  /-- How much of the magic has been handed out since it was found. -/
  magicOffset : ℕ := 4

/-- How many letters of the magic are matched after one more byte. -/
def matchByte (matched : ℕ) (byte : UInt8) : ℕ :=
  if magic[matched]? = some byte then matched + 1 else if byte = 75 then 1 else 0

/-- Look for the magic: the bytes looked at, the letters matched, and whether it was found. -/
def scanChunk : ℕ → List UInt8 → ℕ × ℕ × Bool
  | matched, [] => (0, matched, false)
  | matched, byte :: rest =>
    if matchByte matched byte = 4 then (1, 4, true)
    else
      let (consumed, matched, found) := scanChunk (matchByte matched byte) rest
      (consumed + 1, matched, found)

namespace ResynchronizingReader

def resynchronizeLoop : ℕ → ℕ → ℕ → ResynchronizingReader →
    Except TransportError Unit × ResynchronizingReader
  | fuel + 1, matched, scanned, r =>
    if scanned < maxResynchronizeBytes then
      let available := r.inner.fillBuf
      if available = [] then
        (.error (.io .unexpectedEof "FunctionFS endpoint ended during KBP resynchronization"), r)
      else
        let length := min available.length (maxResynchronizeBytes - scanned)
        let (consumed, matched, found) := scanChunk matched (available.take length)
        let r := { r with inner := r.inner.consume consumed }
        if found then (.ok (), { r with magicOffset := 0 })
        else resynchronizeLoop fuel matched (scanned + consumed) r
    else
      (.error (.io .invalidData
        "KBP frame boundary was not found within the USB recovery limit"), r)
  | 0, _, _, r =>
    (.error (.io .invalidData
      "KBP frame boundary was not found within the USB recovery limit"), r)

/-- Every turn of the loop looks at a byte at least, so it ends within the limit. -/
def resynchronize (r : ResynchronizingReader) : Except TransportError Unit × ResynchronizingReader :=
  resynchronizeLoop maxResynchronizeBytes 0 0 { r with magicOffset := 4 }

def read (r : ResynchronizingReader) (n : ℕ) : List UInt8 × ResynchronizingReader :=
  if n = 0 then ([], r)
  else if r.magicOffset < 4 then
    let length := min n (4 - r.magicOffset)
    ((magic.drop r.magicOffset).take length, { r with magicOffset := r.magicOffset + length })
  else ((r.inner.read n).1, { r with inner := (r.inner.read n).2 })

/-- Read until there is enough or nothing comes. Every turn gets a byte at least. -/
def readExactLoop : ℕ → ℕ → ResynchronizingReader → List UInt8 × ResynchronizingReader
  | fuel + 1, n, r =>
    if n = 0 then ([], r)
    else if (r.read n).1 = [] then ([], (r.read n).2)
    else
      let rest := readExactLoop fuel (n - (r.read n).1.length) (r.read n).2
      ((r.read n).1 ++ rest.1, rest.2)
  | 0, _, r => ([], r)

def readExactCounted (r : ResynchronizingReader) (n : ℕ) : List UInt8 × ResynchronizingReader :=
  readExactLoop n n r

def readPayload (header : Header) (r : ResynchronizingReader) :
    Except TransportError Frame × ResynchronizingReader :=
  let (payload, r) := r.readExactCounted header.payloadLength
  if h : header.payloadLength = payload.length then (.ok ⟨header, payload, h⟩, r)
  else (.error (.truncatedPayload header.payloadLength payload.length), r)

def readFrameFrom (config : TransportConfig) (r : ResynchronizingReader) :
    Except TransportError Frame × ResynchronizingReader :=
  let (headerBytes, r) := r.readExactCounted headerLen
  if headerBytes.length = 0 then (.error .endOfStream, r)
  else if headerBytes.length ≠ headerLen then (.error (.truncatedHeader headerBytes.length), r)
  else match Header.decode headerBytes config.limits with
    | .error e => (.error (.wire e), r)
    | .ok header =>
      if header.payloadLength > hardMaxPayload then
        (.error (.payloadExceedsHardLimit header.payloadLength hardMaxPayload), r)
      else r.readPayload header

end ResynchronizingReader

/-- Find a frame boundary, with at most the given number of attempts. -/
def recover : ℕ → ResynchronizingReader →
    Option (Except TransportError Unit × ResynchronizingReader)
  | 0, _ => none
  | n + 1, r =>
    match r.resynchronize with
    | (.ok _, r) => some (.ok (), r)
    | (.error e, r) => if e.allowsInPlaceRestart then recover n r else some (.error e, r)

/-- The next frame of the device's source, with at most the given number of attempts. -/
def readFrame (config : TransportConfig) : ℕ → ResynchronizingReader →
    Option (Except TransportError Frame × ResynchronizingReader)
  | 0, _ => none
  | n + 1, r =>
    match r.readFrameFrom config with
    | (.ok frame, r) => some (.ok frame, r)
    | (.error e, r) =>
      if e.allowsInPlaceRestart then
        match recover n r with
        | some (.ok _, r) => readFrame config n r
        | some (.error e, r) => some (.error e, r)
        | none => none
      else some (.error e, r)

/-- The frames that a number of calls return, up to the first that does not return one. -/
def readFrames (config : TransportConfig) (attempts : ℕ) :
    ℕ → ResynchronizingReader → List Frame × ResynchronizingReader
  | 0, r => ([], r)
  | n + 1, r =>
    match readFrame config attempts r with
    | some (.ok frame, r) =>
      let rest := readFrames config attempts n r
      (frame :: rest.1, rest.2)
    | some (.error _, r) => ([], r)
    | none => ([], r)

end KindleBridge.Usb
