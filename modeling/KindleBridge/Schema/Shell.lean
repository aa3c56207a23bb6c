import KindleBridge.Foundations.Bytes

/-! # Shell packets

Each DATA frame of a shell stream carries one packet: its kind, the length of its
payload and the payload.
-/

namespace KindleBridge.Schema

def maxShellPacketPayload : ℕ := 16 * 1024
def shellHeaderLength : ℕ := 5

/-- A packet of this payload and the frame header around it fill one USB request. -/
def usbAlignedShellPacketPayload : ℕ := 16 * 1024 - 40 - shellHeaderLength

inductive PacketSource
  | host
  | device
  deriving DecidableEq, Repr

inductive ShellMode
  | pty
  | raw
  deriving DecidableEq, Repr

structure TerminalSize where
  rows : UInt16
  columns : UInt16
  pixelWidth : UInt16
  pixelHeight : UInt16
  deriving DecidableEq, Repr

def TerminalSize.isValid (size : TerminalSize) : Bool := size.rows ≠ 0 ∧ size.columns ≠ 0

structure ShellOpen where
  mode : ShellMode
  argv : List String
  terminalSize : Option TerminalSize := none
  cwd : String
  term : String
  deriving DecidableEq, Repr

structure ShellExit where
  exitCode : Int32
  signal : UInt32
  deriving DecidableEq, Repr

inductive ShellPacket
  | stdin (data : List UInt8)
  | stdout (data : List UInt8)
  | stderr (data : List UInt8)
  | exit (status : ShellExit)
  | closeStdin
  | resize (size : TerminalSize)
  deriving DecidableEq, Repr

inductive ShellPacketError
  | headerTooShort (actual : ℕ)
  | unknownKind (kind : ℕ)
  | invalidDirection (kind : ℕ)
  | lengthMismatch (declared actual : ℕ)
  | payloadTooLarge (length maximum : ℕ)
  | invalidPayloadLength (kind expected actual : ℕ)
  | invalidTerminalSize
  deriving DecidableEq, Repr

def ShellPacketError.text : ShellPacketError → String
  | .headerTooShort actual => s!"shell packet header is truncated: got {actual} bytes"
  | .unknownKind kind => s!"unknown shell packet kind {kind}"
  | .invalidDirection kind => s!"shell packet kind {kind} is invalid in this direction"
  | .lengthMismatch declared actual =>
    s!"shell packet declares {declared} bytes but carries {actual}"
  | .payloadTooLarge length maximum =>
    s!"shell packet payload is {length} bytes; maximum is {maximum}"
  | .invalidPayloadLength kind expected actual =>
    s!"shell packet kind {kind} requires {expected} payload bytes, got {actual}"
  | .invalidTerminalSize => "terminal rows and columns must both be non-zero"

def validateDirection (kind : ℕ) (source : PacketSource) : Except ShellPacketError Unit :=
  let valid : Bool := match source with
    | .host => kind = 0 ∨ kind = 4 ∨ kind = 5
    | .device => 1 ≤ kind ∧ kind ≤ 3
  if valid then .ok () else .error (.invalidDirection kind)

def validatePayloadLength (length : ℕ) : Except ShellPacketError Unit :=
  if length ≤ maxShellPacketPayload then .ok ()
  else .error (.payloadTooLarge length maxShellPacketPayload)

def requireLength (kind : ℕ) (payload : List UInt8) (expected : ℕ) :
    Except ShellPacketError Unit :=
  if payload.length = expected then .ok ()
  else .error (.invalidPayloadLength kind expected payload.length)

def validateTerminalSize (size : TerminalSize) : Except ShellPacketError Unit :=
  if size.isValid then .ok () else .error .invalidTerminalSize

namespace ShellPacket

def parts : ShellPacket → ℕ × List UInt8
  | .stdin data => (0, data)
  | .stdout data => (1, data)
  | .stderr data => (2, data)
  | .exit status => (3, toLe 4 status.exitCode.toUInt32.toNat ++ toLe 4 status.signal.toNat)
  | .closeStdin => (4, [])
  | .resize size => (5, toLe 2 size.rows.toNat ++ toLe 2 size.columns.toNat ++
      toLe 2 size.pixelWidth.toNat ++ toLe 2 size.pixelHeight.toNat)

def encode (packet : ShellPacket) : Except ShellPacketError (List UInt8) := do
  if let .resize size := packet then validateTerminalSize size
  validatePayloadLength packet.parts.2.length
  return UInt8.ofNat packet.parts.1 :: toLe 4 packet.parts.2.length ++ packet.parts.2

def decode (encoded : List UInt8) (source : PacketSource) :
    Except ShellPacketError ShellPacket := do
  match encoded with
  | k :: b0 :: b1 :: b2 :: b3 :: payload =>
    let kind := k.toNat
    if kind > 5 then throw (.unknownKind kind)
    validateDirection kind source
    let declared := ofLe [b0, b1, b2, b3]
    validatePayloadLength declared
    if declared ≠ payload.length then throw (.lengthMismatch declared payload.length)
    match kind with
    | 0 => return .stdin payload
    | 1 => return .stdout payload
    | 2 => return .stderr payload
    | 3 =>
      requireLength kind payload 8
      return .exit ⟨(UInt32.ofNat (ofLe (payload.take 4))).toInt32,
        UInt32.ofNat (ofLe (payload.drop 4))⟩
    | 4 =>
      requireLength kind payload 0
      return .closeStdin
    | _ =>
      requireLength kind payload 8
      let size : TerminalSize := ⟨UInt16.ofNat (ofLe (payload.take 2)),
        UInt16.ofNat (ofLe ((payload.drop 2).take 2)),
        UInt16.ofNat (ofLe ((payload.drop 4).take 2)),
        UInt16.ofNat (ofLe (payload.drop 6))⟩
      validateTerminalSize size
      return .resize size
  | _ => throw (.headerTooShort encoded.length)

/-- The end of a stream that sends such packets. -/
def source : ShellPacket → PacketSource
  | .stdin _ | .closeStdin | .resize _ => .host
  | .stdout _ | .stderr _ | .exit _ => .device

open List

variable {packet : ShellPacket} {bytes : List UInt8} {src : PacketSource} {payload : List UInt8}
  {bs : List UInt8}

theorem encode_ok_iff : packet.encode = .ok bytes ↔ (∀ size, packet = .resize size → size.isValid) ∧
      packet.parts.2.length ≤ maxShellPacketPayload ∧
      UInt8.ofNat packet.parts.1 :: (toLe 4 packet.parts.2.length ++ packet.parts.2) = bytes := by
  cases packet <;> simp only [encode, validateTerminalSize, validatePayloadLength, bind,
    Except.bind, pure, Except.pure] <;> split_ifs <;> simp_all

theorem encode_ok (hsize : ∀ size, packet ≠ .resize size)
    (h : packet.parts.2.length ≤ maxShellPacketPayload) : ∃ bytes, packet.encode = .ok bytes :=
  ⟨_, encode_ok_iff.mpr ⟨fun size heq => absurd heq (hsize size), h, rfl⟩⟩

theorem ofNat_eq_iff {n : ℕ} {x : ℕ} (h : bs.length = n) (hx : x < 256 ^ n) :
    ofLe bs % 256 ^ n = x ↔ bs = toLe n x := by
  rw [← h, Nat.mod_eq_of_lt (ofLe_lt bs)]
  constructor
  · rintro rfl
    exact (toLe_ofLe bs).symm
  · intro hbs
    rw [hbs, h, ofLe_toLe hx]

theorem ofNat32_eq_iff {x : UInt32} (h : bs.length = 4) :
    UInt32.ofNat (ofLe bs) = x ↔ bs = toLe 4 x.toNat := by
  rw [← UInt32.toNat_inj, UInt32.toNat_ofNat']
  exact ofNat_eq_iff h x.toNat_lt

theorem ofNat16_eq_iff {x : UInt16} (h : bs.length = 2) :
    UInt16.ofNat (ofLe bs) = x ↔ bs = toLe 2 x.toNat := by
  rw [← UInt16.toNat_inj, UInt16.toNat_ofNat']
  exact ofNat_eq_iff h x.toNat_lt

theorem eq_append_iff {n : ℕ} {bs front rest : List UInt8} (h : front.length = n) :
    bs = front ++ rest ↔ bs.take n = front ∧ bs.drop n = rest := by
  constructor
  · rintro rfl
    exact ⟨take_left' h, drop_left' h⟩
  · rintro ⟨rfl, rfl⟩
    exact (take_append_drop n bs).symm

theorem exit_eq_iff {status : ShellExit} (h : payload.length = 8) :
    (⟨(UInt32.ofNat (ofLe (payload.take 4))).toInt32, UInt32.ofNat (ofLe (payload.drop 4))⟩ :
      ShellExit) = status ↔ payload = (exit status).parts.2 := by
  obtain ⟨code, signal⟩ := status
  have hcode {x : UInt32} : x.toInt32 = code ↔ x = code.toUInt32 :=
    ⟨fun h => by simp [← h], fun h => by simp [h]⟩
  have hfront : (payload.take 4).length = 4 := by simp [h]
  have hrest : (payload.drop 4).length = 4 := by simp [h]
  simp only [parts, ShellExit.mk.injEq, hcode, ofNat32_eq_iff hfront, ofNat32_eq_iff hrest,
    eq_append_iff (length_toLe 4 _)]

theorem size_eq_iff {size : TerminalSize} (h : payload.length = 8) :
    (⟨UInt16.ofNat (ofLe (payload.take 2)), UInt16.ofNat (ofLe ((payload.drop 2).take 2)),
      UInt16.ofNat (ofLe ((payload.drop 4).take 2)), UInt16.ofNat (ofLe (payload.drop 6))⟩ :
      TerminalSize) = size ↔ payload = (resize size).parts.2 := by
  obtain ⟨rows, columns, width, height⟩ := size
  simp [parts, ofNat16_eq_iff, h, eq_append_iff (length_toLe 2 _)]

theorem validateDirection_ok_iff :
    validateDirection packet.parts.1 src = .ok () ↔ packet.source = src := by
  cases packet <;> cases src <;> simp [validateDirection, parts, source]

theorem guards_of_decode (h : decode bytes src = .ok packet) : ∃ k payload,
    bytes = k :: (toLe 4 payload.length ++ payload) ∧ k.toNat ≤ 5 ∧
      validateDirection k.toNat src = .ok () ∧ payload.length ≤ maxShellPacketPayload := by
  unfold decode at h
  split at h
  · rename_i k b0 b1 b2 b3 payload
    have hdeclared : toLe 4 (ofLe [b0, b1, b2, b3]) = [b0, b1, b2, b3] := toLe_ofLe [b0, b1, b2, b3]
    simp only [bind, Except.bind, throw, throwThe, MonadExceptOf.throw, validatePayloadLength] at h
    refine ⟨k, payload, ?_⟩
    cases hdirection : validateDirection k.toNat src <;> grind
  · simp [throw, throwThe, MonadExceptOf.throw] at h

theorem decode_iff_parts {k : UInt8} (hkind : k.toNat ≤ 5)
    (hdirection : validateDirection k.toNat src = .ok ())
    (hmax : payload.length ≤ maxShellPacketPayload) :
    decode (k :: (toLe 4 payload.length ++ payload)) src = .ok packet ↔
      (k.toNat, payload) = packet.parts ∧ ∀ size, packet = .resize size → size.isValid := by
  have hdeclared : ofLe (toLe 4 payload.length) = payload.length :=
    ofLe_toLe (hmax.trans_lt (by decide))
  have hbytes : toLe 4 payload.length = [_, _, _, _] := rfl
  rw [hbytes] at hdeclared ⊢
  simp only [decode, cons_append, nil_append, hdirection, hdeclared, validatePayloadLength, hmax,
    Nat.not_lt.mpr hkind, if_true, if_false, bind, Except.bind, ne_eq, not_true_eq_false, pure,
    Except.pure]
  obtain h | h | h | h | h | h : k.toNat = 0 ∨ k.toNat = 1 ∨ k.toNat = 2 ∨ k.toNat = 3 ∨
      k.toNat = 4 ∨ k.toNat = 5 := by omega
  all_goals simp only [h]
  · cases packet <;> simp [parts]
  · cases packet <;> simp [parts]
  · cases packet <;> simp [parts]
  · by_cases h8 : payload.length = 8
    · simp only [requireLength, h8, if_true]
      cases packet with
      | exit status =>
        rw [show ((3, payload) = (exit status).parts) ↔ _ from Prod.ext_iff, ← exit_eq_iff h8]
        simp [parts]
      | _ => simp [parts]
    · cases packet <;> simp [parts, requireLength, h8]
      rintro rfl
      simp at h8
  · by_cases h0 : payload = [] <;> cases packet <;> simp [parts, requireLength, h0]
  · by_cases h8 : payload.length = 8
    · simp only [requireLength, h8, if_true, validateTerminalSize]
      cases packet with
      | resize size =>
        rw [show ((5, payload) = (resize size).parts) ↔ _ from Prod.ext_iff, ← size_eq_iff h8]
        split_ifs <;> simp [parts] <;> grind
      | _ => split_ifs <;> simp [parts]
    · cases packet <;> simp [parts, requireLength, h8]
      rintro rfl
      simp at h8

theorem decode_ok_iff : decode bytes src = .ok packet ↔
    packet.encode = .ok bytes ∧ packet.source = src := by
  have hkind : packet.parts.1 ≤ 5 := by cases packet <;> simp [parts]
  have htoNat : (UInt8.ofNat packet.parts.1).toNat = packet.parts.1 := by
    rw [UInt8.toNat_ofNat', Nat.mod_eq_of_lt (by omega)]
  rw [encode_ok_iff]
  constructor
  · intro h
    obtain ⟨k, payload, rfl, hk, hdirection, hmax⟩ := guards_of_decode h
    obtain ⟨hparts, hsize⟩ := (decode_iff_parts hk hdirection hmax).mp h
    rw [← validateDirection_ok_iff, ← hparts]
    exact ⟨⟨hsize, hmax, by rw [UInt8.ofNat_toNat]⟩, hdirection⟩
  · rintro ⟨⟨hsize, hmax, rfl⟩, hsource⟩
    have hdirection := validateDirection_ok_iff.mpr hsource
    refine (decode_iff_parts (by rwa [htoNat]) (by rwa [htoNat]) hmax).mpr ⟨?_, hsize⟩
    rw [htoNat]

theorem decode_host (h : decode bytes .host = .ok packet) :
    (∃ data, packet = .stdin data ∧ data.length ≤ maxShellPacketPayload) ∨
      packet = .closeStdin ∨ ∃ size, packet = .resize size := by
  obtain ⟨he, hs⟩ := decode_ok_iff.mp h
  obtain ⟨-, hmax, -⟩ := encode_ok_iff.mp he
  cases packet <;> simp_all [source, parts]

/-- Encoding and decoding are inverse, and no bytes make sense in both directions. -/
theorem packets_unambiguous : (∀ packet bytes, encode packet = .ok bytes → ∀ src,
      if packet.source = src then decode bytes src = .ok packet
      else ∃ e, decode bytes src = .error e) ∧
    ∀ bytes src packet, decode bytes src = .ok packet → packet.encode = .ok bytes := by
  refine ⟨fun packet bytes he src => ?_, fun _ _ _ h => (decode_ok_iff.mp h).1⟩
  split_ifs with hsource
  · exact decode_ok_iff.mpr ⟨he, hsource⟩
  · cases hd : decode bytes src with
    | error e => exact ⟨e, rfl⟩
    | ok packet' =>
      obtain ⟨he', rfl⟩ := decode_ok_iff.mp hd
      -- Both packets have the kind that the bytes start with.
      obtain ⟨-, -, rfl⟩ := encode_ok_iff.mp he
      obtain ⟨-, -, hbytes⟩ := encode_ok_iff.mp he'
      have hhead := (cons.inj hbytes).1
      cases packet <;> cases packet' <;> simp_all [source, parts]

end ShellPacket

inductive ShellOrderError
  | inputClosed
  | afterExit
  | stderrForPty
  | resizeForRaw
  deriving DecidableEq, Repr

def ShellOrderError.text : ShellOrderError → String
  | .inputClosed => "shell input is already closed"
  | .afterExit => "shell packet arrived after the exit packet"
  | .stderrForPty => "stderr is merged into stdout for a PTY shell"
  | .resizeForRaw => "terminal resize is only valid for a PTY shell"

/-- The ordering rules of one shell stream, in either direction. -/
structure ShellStreamState where
  mode : ShellMode
  inputOpen : Bool := true
  exit : Option ShellExit := none
  deriving DecidableEq, Repr

def ShellStreamState.accept (s : ShellStreamState) (packet : ShellPacket) :
    Except ShellOrderError ShellStreamState :=
  if s.exit.isSome then .error .afterExit
  else match packet with
    | .stdin _ => if s.inputOpen then .ok s else .error .inputClosed
    | .closeStdin => if s.inputOpen then .ok { s with inputOpen := false } else .error .inputClosed
    | .stderr _ => if s.mode = .pty then .error .stderrForPty else .ok s
    | .resize _ => if s.mode = .raw then .error .resizeForRaw else .ok s
    | .exit status => .ok { s with exit := some status }
    | .stdout _ => .ok s

end KindleBridge.Schema
