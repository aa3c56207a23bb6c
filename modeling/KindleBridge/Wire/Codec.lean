import KindleBridge.Foundations.Bytes
import KindleBridge.Foundations.Op
import KindleBridge.Wire.Frame

/-! # Frames as bytes

A header has forty bytes: fixed fields in little-endian order, with a checksum over the
header in which the checksum itself is zero. The payload follows it.
-/

namespace KindleBridge.Wire

open List

def magic : List UInt8 := [75, 66, 80, 49]

namespace Command

def code : Command → ℕ
  | hello => 1 | pairingFinish => 2 | .open => 3 | accept => 4 | reject => 5 | data => 6
  | credit => 7 | close => 8 | reset => 9 | ping => 10 | pong => 11 | goAway => 12 | error => 13

def ofCode : ℕ → Except WireError Command
  | 1 => .ok hello | 2 => .ok pairingFinish | 3 => .ok .open | 4 => .ok accept | 5 => .ok reject
  | 6 => .ok data | 7 => .ok credit | 8 => .ok close | 9 => .ok reset | 10 => .ok ping
  | 11 => .ok pong | 12 => .ok goAway | 13 => .ok error
  | other => .error (.unknownCommand other)

@[simp] theorem ofCode_code (c : Command) : ofCode c.code = .ok c := by
  cases c <;> rfl

theorem code_lt (c : Command) : c.code < 256 := by
  cases c <;> decide

end Command

/-- One bit of the reflected CRC-32C. -/
def crcBit (crc : ℕ) : ℕ :=
  let mask := if crc &&& 1 = 0 then 0 else u32Max
  (crc >>> 1) ^^^ (0x82f63b78 &&& mask)

def crcByte (crc : ℕ) (byte : UInt8) : ℕ :=
  crcBit (crcBit (crcBit (crcBit (crcBit (crcBit (crcBit (crcBit (crc ^^^ byte.toNat))))))))

/-- CRC-32C with the usual initial value and final complement. -/
def crc32c (bytes : List UInt8) : ℕ := bytes.foldl crcByte u32Max ^^^ u32Max

def getLe (width : ℕ) (bytes : List UInt8) (offset : ℕ) : ℕ := ofLe ((bytes.drop offset).take width)

def getU16 : List UInt8 → ℕ → ℕ := getLe 2
def getU32 : List UInt8 → ℕ → ℕ := getLe 4

theorem getLe_append_of_le {width offset : ℕ} {front rest : List UInt8}
    (h : front.length ≤ offset) :
    getLe width (front ++ rest) offset = getLe width rest (offset - front.length) := by
  rw [getLe, getLe, drop_append, drop_eq_nil_of_le h, nil_append]

theorem getLe_append {width offset : ℕ} {bytes rest : List UInt8}
    (h : offset + width ≤ bytes.length) :
    getLe width (bytes ++ rest) offset = getLe width bytes offset := by
  rw [getLe, getLe, drop_append_of_le_length (by omega), take_append_of_le_length]
  rw [length_drop]
  omega

theorem getLe_toLe {width x : ℕ} {rest : List UInt8} (h : x < 256 ^ width) :
    getLe width (toLe width x ++ rest) 0 = x := by
  rw [getLe, drop_zero, take_left' (length_toLe width x), ofLe_toLe h]

theorem drop_eq_toLe {bytes : List UInt8} {offset width : ℕ} (h : offset + width ≤ bytes.length) :
    bytes.drop offset = toLe width (getLe width bytes offset) ++ bytes.drop (offset + width) := by
  have hlength : ((bytes.drop offset).take width).length = width := by
    rw [length_take, length_drop]
    omega
  have hfield := toLe_ofLe ((bytes.drop offset).take width)
  rw [hlength] at hfield
  rw [getLe, hfield, ← drop_drop, take_append_drop]

namespace Header

def bytes (h : Header) (checksum : ℕ) : List UInt8 :=
  magic ++ toLe 2 h.major ++ toLe 2 h.minor ++ toLe 2 headerLen ++ toLe 2 h.command.code ++
    toLe 4 h.flags ++ toLe 4 h.streamId ++ toLe 4 h.sequence ++ toLe 4 h.payloadLength ++
    toLe 4 h.creditDelta ++ toLe 4 checksum ++ toLe 4 h.reserved

def encode (h : Header) (limits : DecodeLimits) : Except WireError (List UInt8) := do
  h.validate limits
  return h.bytes (crc32c (h.bytes 0))

def canonical (bytes : List UInt8) : List UInt8 :=
  bytes.take 32 ++ toLe 4 0 ++ (bytes.drop 36).take 4

def decode (bytes : List UInt8) (limits : DecodeLimits) : Except WireError Header := do
  if bytes.length < headerLen then throw (.headerTooShort bytes.length)
  if bytes.take 4 ≠ magic then throw (.invalidMagic ((bytes.take 4).map UInt8.toNat))
  if getU16 bytes 8 ≠ headerLen then throw (.invalidHeaderSize (getU16 bytes 8))
  if getU32 bytes 32 ≠ crc32c (canonical bytes) then
    throw (.headerCrcMismatch (crc32c (canonical bytes)) (getU32 bytes 32))
  let command ← Command.ofCode (getU16 bytes 10)
  let header : Header :=
    { major := getU16 bytes 4
      minor := getU16 bytes 6
      command := command
      flags := getU32 bytes 12
      streamId := getU32 bytes 16
      sequence := getU32 bytes 20
      payloadLength := getU32 bytes 24
      creditDelta := getU32 bytes 28
      reserved := getU32 bytes 36 }
  header.validate limits
  return header

structure Fits (h : Header) : Prop where
  major : h.major < 256 ^ 2
  minor : h.minor < 256 ^ 2
  flags : h.flags < 256 ^ 4
  streamId : h.streamId < 256 ^ 4
  sequence : h.sequence < 256 ^ 4
  payloadLength : h.payloadLength < 256 ^ 4
  creditDelta : h.creditDelta < 256 ^ 4
  reserved : h.reserved < 256 ^ 4

@[simp] theorem length_bytes (h : Header) (checksum : ℕ) :
    (h.bytes checksum).length = headerLen := by
  simp [bytes, magic, headerLen]

end Header

theorem crcBit_lt {crc : ℕ} (h : crc < 2 ^ 32) : crcBit crc < 2 ^ 32 := by
  apply Nat.xor_lt_two_pow
  · rw [Nat.shiftRight_eq_div_pow]
    omega
  · exact Nat.and_lt_two_pow _ (by split_ifs <;> decide)

theorem crcByte_lt {crc : ℕ} (h : crc < 2 ^ 32) (byte : UInt8) : crcByte crc byte < 2 ^ 32 := by
  have hbyte : byte.toNat < 2 ^ 32 := byte.toNat_lt.trans (by decide)
  unfold crcByte
  iterate 8 apply crcBit_lt
  exact Nat.xor_lt_two_pow h hbyte

theorem crc32c_lt (bytes : List UInt8) : crc32c bytes < 256 ^ 4 := by
  have hfold : ∀ crc < 2 ^ 32, bytes.foldl crcByte crc < 2 ^ 32 := by
    induction bytes with
    | nil => exact fun _ h => h
    | cons b bs ih => exact fun crc h => ih _ (crcByte_lt h b)
  exact Nat.xor_lt_two_pow (hfold u32Max (by decide)) (by decide)

namespace Header

variable {h : Header} {limits : DecodeLimits}

theorem get_bytes (hf : h.Fits) {c : ℕ} (hc : c < 256 ^ 4) :
    getU16 (h.bytes c) 4 = h.major ∧ getU16 (h.bytes c) 6 = h.minor ∧
    getU16 (h.bytes c) 8 = headerLen ∧ getU16 (h.bytes c) 10 = h.command.code ∧
    getU32 (h.bytes c) 12 = h.flags ∧ getU32 (h.bytes c) 16 = h.streamId ∧
    getU32 (h.bytes c) 20 = h.sequence ∧ getU32 (h.bytes c) 24 = h.payloadLength ∧
    getU32 (h.bytes c) 28 = h.creditDelta ∧ getU32 (h.bytes c) 32 = c ∧
    getU32 (h.bytes c) 36 = h.reserved := by
  have hcode : h.command.code < 256 ^ 2 := h.command.code_lt.trans (by decide)
  have hsize : headerLen < 256 ^ 2 := by decide
  have hlast {x : ℕ} (hx : x < 256 ^ 4) : getLe 4 (toLe 4 x) 0 = x := by
    rw [← append_nil (toLe 4 x), getLe_toLe hx]
  have hmagic : magic.length = 4 := rfl
  simp (disch := simp [hmagic]) only [getU16, getU32, bytes, append_assoc,
    getLe_append_of_le, length_toLe, hmagic, Nat.reduceSub]
  exact ⟨getLe_toLe hf.major, getLe_toLe hf.minor, getLe_toLe hsize, getLe_toLe hcode,
    getLe_toLe hf.flags, getLe_toLe hf.streamId, getLe_toLe hf.sequence,
    getLe_toLe hf.payloadLength, getLe_toLe hf.creditDelta, getLe_toLe hc, hlast hf.reserved⟩

theorem decode_append {bytes rest : List UInt8} (hlength : bytes.length = headerLen) :
    decode (bytes ++ rest) limits = decode bytes limits := by
  have hget {width offset : ℕ} (hle : offset + width ≤ headerLen) :
      getLe width (bytes ++ rest) offset = getLe width bytes offset := getLe_append (hlength ▸ hle)
  have hbytes : bytes.length = 40 := hlength
  have hcanonical : canonical (bytes ++ rest) = canonical bytes := by
    rw [canonical, canonical, take_append_of_le_length (by omega),
      drop_append_of_le_length (by omega),
      take_append_of_le_length (by rw [length_drop]; omega)]
  have hmagic : (bytes ++ rest).take 4 = bytes.take 4 := take_append_of_le_length (by omega)
  have hshort : ¬ (bytes ++ rest).length < headerLen := by
    rw [length_append, hlength]
    omega
  unfold decode
  rw [hcanonical, hmagic, if_neg hshort, if_neg (by omega : ¬ bytes.length < headerLen)]
  simp (disch := decide) only [getU16, getU32, hget]
  rfl

theorem decode_bytes (hf : h.Fits) (hv : h.Valid limits) :
    decode (h.bytes (crc32c (h.bytes 0))) limits = .ok h := by
  obtain ⟨h4, h6, h8, h10, h12, h16, h20, h24, h28, h32, h36⟩ :=
    get_bytes hf (crc32c_lt (h.bytes 0))
  have hcanonical : canonical (h.bytes (crc32c (h.bytes 0))) = h.bytes 0 := rfl
  have hmagic : (h.bytes (crc32c (h.bytes 0))).take 4 = magic := rfl
  have hvalid := validate_eq_ok_iff.mpr hv
  simp only [decode, length_bytes, lt_irrefl, if_false, hmagic, ne_eq, not_true_eq_false, h4, h6,
    h8, h10, h12, h16, h20, h24, h28, h32, h36, hcanonical, Command.ofCode_code]
  change (h.validate limits >>= fun _ => pure h) = _
  rw [hvalid]
  rfl

end Header

namespace Frame

def encode (f : Frame) (limits : DecodeLimits) : Except WireError (List UInt8) := do
  if f.payload.length > u32Max then throw (.payloadLengthOverflow f.payload.length)
  if f.payload.length ≠ f.header.payloadLength then
    throw (.frameLengthMismatch (headerLen + f.header.payloadLength) (headerLen + f.payload.length))
  let header ← f.header.encode limits
  return header ++ f.payload

def decode (bytes : List UInt8) (limits : DecodeLimits) : Except WireError Frame := do
  let header ← Header.decode bytes limits
  if h : bytes.length = headerLen + header.payloadLength then
    return ⟨header, bytes.drop headerLen, by simp [h]⟩
  else throw (.frameLengthMismatch (headerLen + header.payloadLength) bytes.length)

/-- The bytes of a frame that can be sent. -/
def bytes (f : Frame) : List UInt8 := f.header.bytes (crc32c (f.header.bytes 0)) ++ f.payload

structure Sendable (f : Frame) (limits : DecodeLimits) : Prop where
  fits : f.header.Fits
  valid : f.header.Valid limits

theorem encode_eq_ok {f : Frame} {limits : DecodeLimits} (h : f.Sendable limits) :
    f.encode limits = .ok f.bytes := by
  have hlength := f.length_eq
  have hle : f.payload.length ≤ u32Max := by
    have hfits := h.fits.payloadLength
    simp only [u32Max]
    omega
  have hvalid := Header.validate_eq_ok_iff.mpr h.valid
  simp only [encode, Header.encode, hlength, if_neg (not_lt.mpr hle), ne_eq, not_true_eq_false,
    if_false, hvalid]
  rfl

end Frame

/-! ## Encoding and decoding are inverse

The forty bytes of a header leave no room: whatever is accepted is what would be sent.
-/

open Header

theorem getLe_lt (width : ℕ) (bytes : List UInt8) (offset : ℕ) :
    getLe width bytes offset < 256 ^ width := by
  refine (ofLe_lt _).trans_le (Nat.pow_le_pow_right (by decide) ?_)
  rw [length_take]
  exact Nat.min_le_left _ _

theorem Command.code_of_ofCode {n : ℕ} {c : Command} (h : ofCode n = .ok c) : n = c.code := by
  unfold ofCode at h
  split at h <;> cases h <;> rfl

namespace Header

variable {bytes : List UInt8} {limits : DecodeLimits} {h : Header}

/-- The fields that some bytes hold, with the given command. -/
def read (bytes : List UInt8) (command : Command) : Header where
  major := getU16 bytes 4
  minor := getU16 bytes 6
  command := command
  flags := getU32 bytes 12
  streamId := getU32 bytes 16
  sequence := getU32 bytes 20
  payloadLength := getU32 bytes 24
  creditDelta := getU32 bytes 28
  reserved := getU32 bytes 36

theorem fits_read (bytes : List UInt8) (command : Command) : (read bytes command).Fits where
  major := getLe_lt 2 bytes 4
  minor := getLe_lt 2 bytes 6
  flags := getLe_lt 4 bytes 12
  streamId := getLe_lt 4 bytes 16
  sequence := getLe_lt 4 bytes 20
  payloadLength := getLe_lt 4 bytes 24
  creditDelta := getLe_lt 4 bytes 28
  reserved := getLe_lt 4 bytes 36

structure Decoded (bytes : List UInt8) (limits : DecodeLimits) (h : Header) : Prop where
  length : headerLen ≤ bytes.length
  magic : bytes.take 4 = Wire.magic
  size : getU16 bytes 8 = headerLen
  checksum : getU32 bytes 32 = crc32c (canonical bytes)
  command : getU16 bytes 10 = h.command.code
  fields : h = read bytes h.command
  valid : h.Valid limits

theorem decoded_of_decode (hd : decode bytes limits = .ok h) : Decoded bytes limits h := by
  simp only [decode, unless_eq_ok, bind_eq_ok, not_lt, not_not] at hd
  obtain ⟨hlength, hmagic, hsize, hcrc, command, hcommand, _, hvalid, hd⟩ := hd
  cases hd
  exact ⟨hlength, hmagic, hsize, hcrc, Command.code_of_ofCode hcommand, rfl,
    validate_eq_ok_iff.mp hvalid⟩

theorem Decoded.fits (hd : Decoded bytes limits h) : h.Fits := by
  rw [hd.fields]
  exact fits_read _ _

theorem Decoded.bytes_eq (hd : Decoded bytes limits h) (hlength : bytes.length = headerLen) :
    bytes = h.bytes (getU32 bytes 32) := by
  have hfield (offset width : ℕ) (hle : offset + width ≤ headerLen) :
      bytes.drop offset = toLe width (getLe width bytes offset) ++ bytes.drop (offset + width) :=
    drop_eq_toLe (by rwa [hlength])
  have hend : bytes.drop 40 = [] := drop_eq_nil_of_le hlength.le
  have hfields := hd.fields
  calc bytes = bytes.take 4 ++ bytes.drop 4 := (take_append_drop 4 _).symm
    _ = Wire.magic ++ toLe 2 (getU16 bytes 4) ++ toLe 2 (getU16 bytes 6) ++
        toLe 2 (getU16 bytes 8) ++ toLe 2 (getU16 bytes 10) ++ toLe 4 (getU32 bytes 12) ++
        toLe 4 (getU32 bytes 16) ++ toLe 4 (getU32 bytes 20) ++ toLe 4 (getU32 bytes 24) ++
        toLe 4 (getU32 bytes 28) ++ toLe 4 (getU32 bytes 32) ++ toLe 4 (getU32 bytes 36) := by
      rw [hd.magic, hfield 4 2 (by decide), hfield 6 2 (by decide), hfield 8 2 (by decide),
        hfield 10 2 (by decide), hfield 12 4 (by decide), hfield 16 4 (by decide),
        hfield 20 4 (by decide), hfield 24 4 (by decide), hfield 28 4 (by decide),
        hfield 32 4 (by decide), hfield 36 4 (by decide), hend]
      simp only [getU16, getU32, append_assoc, append_nil]
    _ = h.bytes (getU32 bytes 32) := by
      rw [hd.size, hd.command]
      conv_rhs => rw [hfields]
      rfl

theorem Decoded.encode_eq (hd : Decoded bytes limits h) (hlength : bytes.length = headerLen) :
    h.encode limits = .ok bytes := by
  have hbytes := hd.bytes_eq hlength
  have hcanonical : canonical bytes = h.bytes 0 := by
    rw [hbytes]
    rfl
  have hcrc := hd.checksum
  rw [hcanonical] at hcrc
  rw [hcrc] at hbytes
  rw [encode, validate_eq_ok_iff.mpr hd.valid]
  exact congrArg Except.ok hbytes.symm

theorem encode_eq_ok_iff (hf : h.Fits) : h.encode limits = .ok bytes ↔
    bytes.length = headerLen ∧ decode bytes limits = .ok h := by
  constructor
  · intro he
    obtain ⟨_, hv, he⟩ := bind_eq_ok.mp he
    obtain rfl : h.bytes (crc32c (h.bytes 0)) = bytes := Except.ok.inj he
    exact ⟨length_bytes h _, decode_bytes hf (validate_eq_ok_iff.mp hv)⟩
  · rintro ⟨hlength, hd⟩
    exact (decoded_of_decode hd).encode_eq hlength

end Header

namespace Frame

variable {bytes : List UInt8} {limits : DecodeLimits} {f : Frame}

theorem encode_ok_iff : f.encode limits = .ok bytes ↔
    f.payload.length ≤ u32Max ∧ ∃ header, f.header.encode limits = .ok header ∧
      header ++ f.payload = bytes := by
  unfold encode
  by_cases hle : f.payload.length > u32Max
  · rw [if_pos hle]
    refine iff_of_false ?_ fun h => absurd h.1 (not_le.mpr hle)
    intro h
    cases h
  · rw [if_neg hle, if_neg (not_not.mpr f.length_eq.symm)]
    simp only [not_lt.mp hle, true_and]
    cases f.header.encode limits with
    | error e => simp [bind, Except.bind]
    | ok header => simp [bind, Except.bind, pure, Except.pure]

theorem decode_ok_iff : decode bytes limits = .ok f ↔
    f.header.Fits ∧ f.encode limits = .ok bytes := by
  rw [encode_ok_iff]
  unfold decode
  constructor
  · intro hd
    obtain ⟨header, hheader, hd⟩ := bind_eq_ok.mp hd
    split_ifs at hd with hlength
    obtain rfl := Except.ok.inj hd
    have hdecoded := decoded_of_decode hheader
    have htake : (bytes.take headerLen).length = headerLen := by
      rw [length_take]
      omega
    have hfits := hdecoded.fits.payloadLength
    refine ⟨hdecoded.fits, ?_, bytes.take headerLen, ?_, take_append_drop _ _⟩
    · rw [length_drop, hlength, u32Max]
      omega
    · rw [← take_append_drop headerLen bytes, decode_append htake] at hheader
      exact (decoded_of_decode hheader).encode_eq htake
  · rintro ⟨hfits, -, header, hheader, rfl⟩
    obtain ⟨hlength, hd⟩ := (encode_eq_ok_iff hfits).mp hheader
    have htotal : (header ++ f.payload).length = headerLen + f.header.payloadLength := by
      rw [length_append, hlength, f.length_eq]
    simp only [decode_append hlength, hd, bind, Except.bind, pure, Except.pure, dif_pos htotal]
    congr
    exact drop_left' hlength

end Frame

end KindleBridge.Wire
