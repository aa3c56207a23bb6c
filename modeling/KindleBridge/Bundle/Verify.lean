import KindleBridge.Bundle.Paths
import KindleBridge.Wire.Codec

/-! # Verification of bundles

The verifier reads a bundle section by section: the header, the envelope whose digest the
header holds, the signatures, and the blocks that the envelope describes. What lies between
must be zero. The libraries are left open, and so are the checks that only read the envelope
and the signatures.
-/

namespace KindleBridge.Bundle.Format

open Wire (getLe crc32c drop_eq_toLe)

/-! ## The header of a bundle

A bundle starts with 128 bytes: fixed fields in little-endian order, the digest of the
envelope, and a checksum over the header in which the checksum itself is zero. The offsets
of the sections are redundant: they follow from the lengths.
-/

def headerSize : ℕ := 128

/-- The letters `KBB1` and four bytes that text conversions would damage. -/
def magic : List UInt8 := [75, 66, 66, 49, 13, 10, 26, 10]

def formatMajor : ℕ := 1
def formatMinor : ℕ := 0
def maxEnvelopeLength : ℕ := 16 * 1024 * 1024
def maxSignatureLength : ℕ := 1024 * 1024
def maxPayloadLength : ℕ := 8 * 1024 * 1024 * 1024

structure Digest where
  bytes : List UInt8
  length_eq : bytes.length = 32
deriving DecidableEq

structure Header where
  envelopeLength : ℕ
  signatureOffset : ℕ
  signatureLength : ℕ
  payloadOffset : ℕ
  payloadLength : ℕ
  bundleRoot : Digest
deriving DecidableEq

abbrev HeaderBytes := { bytes : List UInt8 // bytes.length = headerSize }

def checkedAdd (a b : ℕ) (message : String) : Except Error ℕ :=
  if a + b < 2 ^ 64 then .ok (a + b) else .error ⟨.bounds, message⟩

def align8 (value : ℕ) : Except Error ℕ := do
  let rounded ← checkedAdd value 7 "8-byte alignment overflow"
  return rounded / 8 * 8

def headerError (message : String) : Error := ⟨.header, message⟩

namespace Header

def front (h : Header) : List UInt8 :=
  magic ++ toLe 2 formatMajor ++ toLe 2 formatMinor ++ toLe 2 headerSize ++ toLe 2 0 ++
    toLe 8 headerSize ++ toLe 8 h.envelopeLength ++ toLe 8 h.signatureOffset ++
    toLe 8 h.signatureLength ++ toLe 8 h.payloadOffset ++ toLe 8 h.payloadLength ++
    h.bundleRoot.bytes

def bytes (h : Header) (checksum : ℕ) : List UInt8 :=
  h.front ++ toLe 4 checksum ++ List.replicate 28 0

@[simp] theorem length_front (h : Header) : h.front.length = 96 := by
  simp [front, magic, h.bundleRoot.length_eq]

def encode (h : Header) : HeaderBytes :=
  ⟨h.bytes (crc32c (h.bytes 0)), by simp [bytes, headerSize]⟩

/-- A header without its checksum. -/
def crcInput (bytes : List UInt8) : List UInt8 :=
  bytes.take 96 ++ toLe 4 0 ++ bytes.drop 100

/-- The fields that the bytes of a header hold. -/
def read (bytes : HeaderBytes) : Header where
  envelopeLength := getLe 8 bytes.1 24
  signatureOffset := getLe 8 bytes.1 32
  signatureLength := getLe 8 bytes.1 40
  payloadOffset := getLe 8 bytes.1 48
  payloadLength := getLe 8 bytes.1 56
  bundleRoot := ⟨(bytes.1.drop 64).take 32, by simp [bytes.2, headerSize]⟩

/-- The offsets and the file length that follow from the lengths. -/
def checkLayout (h : Header) (fileLength : ℕ) : Except Error Unit := do
  let envelopeEnd ← checkedAdd headerSize h.envelopeLength "envelope end overflow"
  let canonicalSignature ← align8 envelopeEnd
  let signatureEnd ← checkedAdd h.signatureOffset h.signatureLength "signature end overflow"
  let canonicalPayload ← align8 signatureEnd
  let canonicalFileLength ← checkedAdd h.payloadOffset h.payloadLength "payload end overflow"
  if h.signatureOffset ≠ canonicalSignature ∨ h.payloadOffset ≠ canonicalPayload ∨
      fileLength ≠ canonicalFileLength then
    throw (headerError "non-canonical section offsets or file length")

def decode (bytes : HeaderBytes) (fileLength : ℕ) : Except Error Header := do
  if bytes.1.take 8 ≠ magic then throw (headerError "bad KBB magic")
  if getLe 2 bytes.1 8 ≠ formatMajor ∨ getLe 2 bytes.1 10 ≠ formatMinor ∨
      getLe 2 bytes.1 12 ≠ headerSize ∨ getLe 2 bytes.1 14 ≠ 0 ∨
      getLe 8 bytes.1 16 ≠ headerSize then
    throw (headerError "unsupported version, header size, flags, or envelope offset")
  if ∃ b ∈ bytes.1.drop 100, b ≠ 0 then
    throw (headerError "reserved header bytes are non-zero")
  let h := read bytes
  if ¬ (1 ≤ h.envelopeLength ∧ h.envelopeLength ≤ maxEnvelopeLength) ∨
      ¬ (1 ≤ h.signatureLength ∧ h.signatureLength ≤ maxSignatureLength) ∨
      h.payloadLength > maxPayloadLength then
    throw ⟨.bounds, "KBB section exceeds a static limit"⟩
  h.checkLayout fileLength
  if crc32c (crcInput bytes.1) ≠ getLe 4 bytes.1 96 then
    throw (headerError "header CRC32C mismatch")
  return h

/-- What the decoder checks. -/
structure Decodes (bytes : HeaderBytes) (fileLength : ℕ) (h : Header) : Prop where
  magic_eq : bytes.1.take 8 = magic
  major : getLe 2 bytes.1 8 = formatMajor
  minor : getLe 2 bytes.1 10 = formatMinor
  size : getLe 2 bytes.1 12 = headerSize
  flags : getLe 2 bytes.1 14 = 0
  envelopeOffset : getLe 8 bytes.1 16 = headerSize
  reserved : ∀ b ∈ bytes.1.drop 100, b = 0
  fields : h = read bytes
  layout : h.checkLayout fileLength = .ok ()
  checksum : crc32c (crcInput bytes.1) = getLe 4 bytes.1 96

variable {bytes : HeaderBytes} {fileLength : ℕ} {h : Header}

theorem decodes_of_decode (hd : decode bytes fileLength = .ok h) : Decodes bytes fileLength h := by
  dsimp only [decode] at hd
  simp only [unless_eq_ok, bind_eq_ok, not_or, not_not, not_exists, not_and] at hd
  obtain ⟨hmagic, ⟨hmajor, hminor, hsize, hflags, hoffset⟩, hreserved, -, ⟨⟩, hlayout, hcrc,
    hread⟩ := hd
  obtain rfl := Except.ok.inj hread
  exact ⟨hmagic, hmajor, hminor, hsize, hflags, hoffset, hreserved, rfl, hlayout, hcrc⟩

theorem Decodes.bytes_eq (hd : Decodes bytes fileLength h) :
    bytes.1 = h.bytes (getLe 4 bytes.1 96) := by
  have hlength : bytes.1.length = 128 := bytes.2
  have hreserved : bytes.1.drop 100 = List.replicate 28 0 := by
    rw [List.eq_replicate_iff]
    exact ⟨by simp [hlength], hd.reserved⟩
  have hroot : bytes.1.drop 64 = (read bytes).bundleRoot.bytes ++ bytes.1.drop 96 := by
    rw [read, show (96 : ℕ) = 64 + 32 from rfl, ← List.drop_drop, List.take_append_drop]
  have hfield (offset width : ℕ) (hl : offset + width ≤ 128) :
      bytes.1.drop offset =
        toLe width (getLe width bytes.1 offset) ++ bytes.1.drop (offset + width) :=
    drop_eq_toLe (by rwa [hlength])
  obtain rfl := hd.fields
  calc bytes.1 = bytes.1.take 8 ++ bytes.1.drop 8 := (List.take_append_drop 8 _).symm
    _ = (read bytes).bytes (getLe 4 bytes.1 96) := by
      rw [hd.magic_eq, hfield 8 2 (by decide), hd.major, hfield 10 2 (by decide), hd.minor,
        hfield 12 2 (by decide), hd.size, hfield 14 2 (by decide), hd.flags,
        hfield 16 8 (by decide), hd.envelopeOffset, hfield 24 8 (by decide),
        hfield 32 8 (by decide), hfield 40 8 (by decide), hfield 48 8 (by decide),
        hfield 56 8 (by decide), hroot, hfield 96 4 (by decide), hreserved]
      simp only [Header.bytes, front, read, List.append_assoc]

theorem Decodes.encode_eq (hd : Decodes bytes fileLength h) : h.encode = bytes := by
  have hbytes := hd.bytes_eq
  have hcrc : crcInput bytes.1 = h.bytes 0 := by
    rw [hbytes, crcInput, Header.bytes, Header.bytes]
    simp [List.drop_append]
  apply Subtype.ext
  change h.bytes (crc32c (h.bytes 0)) = bytes.1
  rw [← hcrc, hd.checksum]
  exact hbytes.symm

end Header

/-! ## The sections -/

def blockSize : ℕ := 65536
def maxBlocks : ℕ := 65535

structure BlockDescriptor where
  digest : Digest
  rawSize : ℕ
  codec : ℕ
  storedSize : ℕ
  storedDigest : Digest
  payloadOffset : ℕ
deriving DecidableEq

abbrev BlockRef := Digest × ℕ

def BlockRef.Before (a b : BlockRef) : Prop :=
  a.1.bytes < b.1.bytes ∨ a.1 = b.1 ∧ a.2 < b.2

instance (a b : BlockRef) : Decidable (a.Before b) :=
  inferInstanceAs (Decidable (_ ∨ _ ∧ _))

structure FileContent where
  fileType : FileType
  fileDigest : Option Digest
  blockRefs : Option (List BlockRef)
deriving DecidableEq

structure Envelope (ρ : Type) where
  blocks : List BlockDescriptor
  entries : List FileContent
  rest : ρ
deriving DecidableEq

/-- The libraries, and the checks that read only the envelope and the signatures. -/
structure Verifier (ρ σ ο : Type) where
  usizeMax : ℕ
  digestOf : List UInt8 → Digest
  envelopeFromSlice : List UInt8 → Except String (Envelope ρ)
  envelopeToValue : Envelope ρ → Except String Cbor.Value
  signaturesFromSlice : List UInt8 → Except String σ
  signaturesToValue : σ → Except String Cbor.Value
  findFrameCompressedSize : List UInt8 → Except String ℕ
  getFrameContentSize : List UInt8 → Except String (Option ℕ)
  getDictId : List UInt8 → Option ℕ
  decompress : List UInt8 → ℕ → Except String (List UInt8)
  /-- The checks of the metadata that come before those of the blocks. -/
  validateFirst : Envelope ρ → σ → Except Error Unit
  /-- The checks of the metadata that come after those of the blocks. -/
  validateLast : Envelope ρ → σ → Except Error Unit
  /-- The target, the firmware, the publisher and the rotation of its keys. -/
  checkOptions : ο → Header → Envelope ρ → σ → Except Error Unit

structure Inspection (ρ σ : Type) where
  header : Header
  envelope : Envelope ρ
  signatures : σ
  fileLength : ℕ
deriving DecidableEq

def blockError (message : String) : Error := ⟨.block, message⟩

def ioError (message : String) : Error := ⟨.io, message⟩

/-- An error of a library in the words of the verifier. -/
def context {α : Type} (r : Except String α) (code : ErrorCode) (message : String) :
    Except Error α :=
  r.mapError fun e => ⟨code, message ++ ": " ++ e⟩

def readExact (file : List UInt8) (offset length : ℕ) : Except String (List UInt8) :=
  if length = 0 ∨ offset + length ≤ file.length then .ok ((file.drop offset).take length)
  else .error "failed to fill whole buffer"

def readSection (usizeMax : ℕ) (file : List UInt8) (offset length : ℕ) :
    Except Error (List UInt8) :=
  if length > usizeMax then .error ⟨.bounds, "section length exceeds host usize"⟩
  else (readExact file offset length).mapError ioError

/-- Every turn shortens what remains, so the fuel does not run out. -/
def checkZeroLoop (file : List UInt8) : ℕ → ℕ → ℕ → Except Error Unit
  | 0, _, _ => .ok ()
  | fuel + 1, position, remaining =>
    if remaining = 0 then .ok ()
    else do
      let buffer ← (readExact file position (min remaining 4096)).mapError ioError
      if ∃ b ∈ buffer, b ≠ 0 then throw (headerError "alignment padding is non-zero")
      checkZeroLoop file fuel (position + min remaining 4096) (remaining - min remaining 4096)

def checkZeroRange (file : List UInt8) (start stop : ℕ) : Except Error Unit :=
  if stop < start then .error ⟨.bounds, "padding range is reversed"⟩
  else checkZeroLoop file (stop - start) start (stop - start)

/-- The end of the last block. -/
def validateBlocksLoop : Option BlockRef → ℕ → List BlockDescriptor → Except Error ℕ
  | _, expected, [] => .ok expected
  | previous, expected, d :: ds => do
    if previous.any fun p => ¬ p.Before (d.digest, d.rawSize) then
      throw (blockError "block descriptors are not strictly sorted")
    if ¬ (1 ≤ d.rawSize ∧ d.rawSize ≤ blockSize) ∨ d.storedSize = 0 ∨
        d.storedSize > blockSize ∨ ¬ (d.codec = 0 ∨ d.codec = 1) then
      throw (blockError "invalid block size or codec")
    if d.codec = 0 ∧ (d.storedSize ≠ d.rawSize ∨ d.storedDigest ≠ d.digest) then
      throw (blockError "none codec descriptor is inconsistent")
    if d.codec = 1 ∧ d.storedSize ≥ d.rawSize then
      throw (blockError "zstd block is not smaller than its raw block")
    let offset ← align8 expected
    if d.payloadOffset ≠ offset then throw (blockError "non-canonical block payload offset")
    let stop ← checkedAdd offset d.storedSize "block payload end overflow"
    validateBlocksLoop (some (d.digest, d.rawSize)) stop ds

section

variable {ρ σ ο : Type}

def Envelope.referenced (envelope : Envelope ρ) : List BlockRef :=
  envelope.entries.flatMap fun e => e.blockRefs.getD []

def Envelope.descriptorKeys (envelope : Envelope ρ) : List BlockRef :=
  envelope.blocks.map fun d => (d.digest, d.rawSize)

def validateBlocks (envelope : Envelope ρ) (header : Header) : Except Error Unit := do
  if envelope.blocks.length > maxBlocks then throw ⟨.bounds, "block count exceeds 65,535"⟩
  let stop ← validateBlocksLoop none 0 envelope.blocks
  let expectedPayloadLength ← if envelope.blocks = [] then pure 0 else align8 stop
  if header.payloadLength ≠ expectedPayloadLength then
    throw (blockError "payload length is not canonical for its block table")
  if ¬ ((∀ k ∈ envelope.descriptorKeys, k ∈ envelope.referenced) ∧
      ∀ k ∈ envelope.referenced, k ∈ envelope.descriptorKeys) then
    throw (blockError "block table has a missing or unused descriptor")

namespace Verifier

variable (v : Verifier ρ σ ο) (file : List UInt8)

def readHeader : Except Error HeaderBytes :=
  match h : readExact file 0 headerSize with
  | .error e => .error (headerError ("cannot read fixed KBB header: " ++ e))
  | .ok bytes => .ok ⟨bytes, by
      unfold readExact headerSize at h
      split at h
      · obtain rfl := Except.ok.inj h
        simp only [List.drop_zero, List.length_take, headerSize]
        omega
      · cases h⟩

def validateMetadata (envelope : Envelope ρ) (signatures : σ) (header : Header) :
    Except Error Unit := do
  v.validateFirst envelope signatures
  validateBlocks envelope header
  v.validateLast envelope signatures

def inspect : Except Error (Inspection ρ σ) := do
  let headerBytes ← readHeader file
  let header ← Header.decode headerBytes file.length
  let envelopeBytes ← readSection v.usizeMax file headerSize header.envelopeLength
  if v.digestOf envelopeBytes ≠ header.bundleRoot then
    throw (headerError "envelope BLAKE3 root mismatch")
  checkZeroRange file (headerSize + header.envelopeLength) header.signatureOffset
  let signatureBytes ←
    readSection v.usizeMax file header.signatureOffset header.signatureLength
  checkZeroRange file (header.signatureOffset + header.signatureLength) header.payloadOffset
  let envelope ←
    Cbor.fromCanonicalSlice v.envelopeToValue v.envelopeFromSlice v.usizeMax envelopeBytes
  let signatures ←
    Cbor.fromCanonicalSlice v.signaturesToValue v.signaturesFromSlice v.usizeMax signatureBytes
  v.validateMetadata envelope signatures header
  return ⟨header, envelope, signatures, file.length⟩

def decompressBlock (stored : List UInt8) (d : BlockDescriptor) : Except Error (List UInt8) := do
  let frameSize ← context (v.findFrameCompressedSize stored) .block "invalid zstd frame"
  if frameSize ≠ stored.length then
    throw (blockError "zstd block contains trailing data or multiple frames")
  let contentSize ←
    context (v.getFrameContentSize stored) .block "cannot read zstd frame content size"
  if contentSize ≠ some d.rawSize then
    throw (blockError "zstd frame omits or misstates content size")
  if (v.getDictId stored).isSome then throw (blockError "zstd dictionaries are forbidden")
  if d.rawSize > v.usizeMax then throw ⟨.bounds, "raw block exceeds host usize"⟩
  context (v.decompress stored d.rawSize) .block "zstd block decompression failed"

def readRawBlock (payloadSectionOffset : ℕ) (d : BlockDescriptor) :
    Except Error (List UInt8) := do
  let offset ← checkedAdd payloadSectionOffset d.payloadOffset "absolute block offset overflow"
  let stored ← readSection v.usizeMax file offset d.storedSize
  if v.digestOf stored ≠ d.storedDigest then throw (blockError "stored block digest mismatch")
  if d.codec = 0 then return stored else v.decompressBlock stored d

def verifyBlocks (payload : ℕ) : ℕ → List BlockDescriptor → Except Error ℕ
  | previousEnd, [] => .ok previousEnd
  | previousEnd, d :: ds => do
    checkZeroRange file (payload + previousEnd) (payload + d.payloadOffset)
    let raw ← v.readRawBlock file payload d
    if v.digestOf raw ≠ d.digest then throw (blockError "raw block digest mismatch")
    verifyBlocks payload (d.payloadOffset + d.storedSize) ds

/-- The bytes of a file. A missing descriptor would be a panic. -/
def readRefs (payload : ℕ) (blocks : List BlockDescriptor) :
    List BlockRef → Except Error (List UInt8)
  | [] => .ok []
  | key :: keys => do
    match blocks.reverse.find? fun d => (d.digest, d.rawSize) = key with
    | none => throw (blockError "metadata validated block reference")
    | some d =>
      let raw ← v.readRawBlock file payload d
      let rest ← readRefs payload blocks keys
      return raw ++ rest

/-- The digest of a regular file. Blocks that are not listed would be a panic. -/
def verifyFile (payload : ℕ) (blocks : List BlockDescriptor) (entry : FileContent) :
    Except Error Unit := do
  if entry.fileType = .regular then
    match entry.blockRefs with
    | none => throw ⟨.tree, "metadata validated"⟩
    | some refs =>
      let content ← v.readRefs file payload blocks refs
      if some (v.digestOf content) ≠ entry.fileDigest then
        throw ⟨.tree, "regular file digest mismatch"⟩

def verifyFiles (payload : ℕ) (blocks : List BlockDescriptor) :
    List FileContent → Except Error Unit
  | [] => .ok ()
  | entry :: entries => do
    v.verifyFile file payload blocks entry
    verifyFiles payload blocks entries

def verifyPayload (inspection : Inspection ρ σ) : Except Error Unit := do
  let payload := inspection.header.payloadOffset
  let previousEnd ← v.verifyBlocks file payload 0 inspection.envelope.blocks
  checkZeroRange file (payload + previousEnd) (payload + inspection.header.payloadLength)
  v.verifyFiles file payload inspection.envelope.blocks inspection.envelope.entries

def verify (options : ο) : Except Error (Inspection ρ σ) := do
  let inspection ← v.inspect file
  v.checkOptions options inspection.header inspection.envelope inspection.signatures
  v.verifyPayload file inspection
  return inspection

end Verifier
end

end KindleBridge.Bundle.Format
