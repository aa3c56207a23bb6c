import KindleBridge.Usb.Chunks
import KindleBridge.Usb.Zeroed

/-! # Recovery of the frame boundary

A host that takes over the endpoint cannot know where the host before it stopped. It sends
as many zeros as a payload can have and a PING, and then its HELLO. The device reads the
HELLO, unless the zeros complete a header and the payload is longer than what is left of
them.
-/

namespace KindleBridge.Usb

open Wire TransportError List Header

def maxHostToDevicePayload : ℕ := 1024 * 1024
def usbTransferSize : ℕ := 16 * 1024

def marker : Frame := ⟨Header.new .ping 0 0, [], rfl⟩

/-- Zeros, at most a transfer at a time. Every turn writes one at least. -/
def zeroFill : ℕ → ℕ → List UInt8
  | fuel + 1, remaining =>
    if remaining > 0 then
      let length := min remaining usbTransferSize
      List.replicate length 0 ++ zeroFill fuel (remaining - length)
    else []
  | 0, _ => []

def writeUsbResynchronizationBurst (limits : DecodeLimits) : Except WireError (List UInt8) := do
  let zeros := zeroFill maxHostToDevicePayload maxHostToDevicePayload
  return zeros ++ (← marker.encode limits)

/-- The complete frames among the first bytes of some frames, and the bytes behind them. -/
def cutFrames : List Frame → ℕ → List Frame × List UInt8
  | [], _ => ([], [])
  | f :: fs, cut =>
    if f.bytes.length ≤ cut then
      let (frames, part) := cutFrames fs (cut - f.bytes.length)
      (f :: frames, part)
    else ([], f.bytes.take cut)

/-- The reader returns these frames one after the other, and then stands at another place. -/
def Returns (config : TransportConfig) (r : ResynchronizingReader) (frames : List Frame)
    (r' : ResynchronizingReader) : Prop :=
  ∀ attempts, 2 ≤ attempts → readFrames config attempts frames.length r = (frames, r')

theorem magic_bytes (f : Frame) : ∃ tail, f.bytes = magic ++ tail :=
  ⟨f.bytes.drop 4, (take_append_drop 4 f.bytes).symm⟩

section Returns

variable {config : TransportConfig} {r r' r'' : ResynchronizingReader} {f : Frame}
  {fs gs : List Frame} {front payload gap rest : List UInt8} {h : Header} {e : WireError}

theorem Returns.nil : Returns config r [] r := fun _ _ => rfl

theorem readFrames_cons {attempts n : ℕ} : readFrames config attempts (n + 1) r = (f :: fs, r') ↔
      ∃ r1, readFrame config attempts r = some (.ok f, r1) ∧
        readFrames config attempts n r1 = (fs, r') := by
  rw [readFrames]
  constructor
  · intro h
    split at h
    · rename_i r1 hread
      obtain ⟨hfs, rfl⟩ := Prod.mk.inj h
      obtain ⟨rfl, rfl⟩ := List.cons.inj hfs
      exact ⟨r1, hread, rfl⟩
    · cases congrArg Prod.fst h
    · cases congrArg Prod.fst h
  · rintro ⟨r1, hread, hrest⟩
    rw [hread]
    dsimp only
    rw [hrest]

theorem readFrames_append {attempts : ℕ} (n : ℕ)
    (h : readFrames config attempts fs.length r = (fs, r')) :
    readFrames config attempts (fs.length + n) r =
      (fs ++ (readFrames config attempts n r').1, (readFrames config attempts n r').2) := by
  induction fs generalizing r with
  | nil =>
    obtain ⟨-, rfl⟩ := Prod.mk.inj h
    simp
  | cons f fs ih =>
    obtain ⟨r1, hread, hrest⟩ := readFrames_cons.mp h
    rw [length_cons, Nat.add_right_comm]
    exact readFrames_cons.mpr ⟨r1, hread, ih hrest⟩

theorem Returns.append (h : Returns config r fs r') (h' : Returns config r' gs r'') :
    Returns config r (fs ++ gs) r'' := by
  intro attempts ha
  rw [length_append, readFrames_append _ (h attempts ha), h' attempts ha]

theorem Returns.of_append (h : Returns config r fs r') (h' : Returns config r (fs ++ gs) r'') :
    Returns config r' gs r'' := by
  intro attempts ha
  have happ := h' attempts ha
  rw [length_append, readFrames_append _ (h attempts ha)] at happ
  obtain ⟨hfs, hr⟩ := Prod.mk.inj happ
  exact Prod.ext (append_cancel_left hfs) hr

theorem Returns.head (h : Returns config r [f] r') (h' : Returns config r gs r'')
    (hgs : gs ≠ []) : ∃ hs, gs = f :: hs ∧ Returns config r' hs r'' := by
  cases gs with
  | nil => exact absurd rfl hgs
  | cons g hs =>
    suffices hg : g = f by
      subst hg
      exact ⟨hs, rfl, h.of_append h'⟩
    obtain ⟨_, hf, -⟩ := readFrames_cons.mp (h 2 le_rfl)
    obtain ⟨_, hg, -⟩ := readFrames_cons.mp (h' 2 le_rfl)
    rw [hf] at hg
    cases hg
    rfl

theorem Returns.of_readFrame
    (h : ∀ attempts, 2 ≤ attempts → readFrame config attempts r = some (.ok f, r')) :
    Returns config r [f] r' := by
  intro attempts ha
  exact readFrames_cons.mpr ⟨r', h attempts ha, rfl⟩

namespace ResynchronizingReader

theorem readFrameFrom_ok (hp : r.pending = front ++ (payload ++ rest))
    (hfront : front.length = headerLen) (hd : decode front config.limits = .ok h)
    (hl : h.payloadLength = payload.length) :
    ∃ r', r.readFrameFrom config = (.ok ⟨h, payload, hl⟩, r') ∧ r'.pending = rest := by
  obtain ⟨r1, hread, hp1, -⟩ := readExactCounted_eq hp hfront
  obtain ⟨r2, hread', hp2, -⟩ := readExactCounted_eq hp1 hl.symm
  have hhard : ¬ h.payloadLength > hardMaxPayload :=
    not_lt.mpr ((decode_ok hd).2.2.payload.trans config.le_hardMaxPayload)
  refine ⟨r2, ?_, hp2⟩
  rw [readFrameFrom, hread]
  dsimp only
  rw [hfront, if_neg (by decide), if_neg (by simp), hd]
  dsimp only
  rw [if_neg hhard, readPayload, hread']
  exact dif_pos hl

theorem readFrameFrom_error (hp : r.pending = front ++ rest) (hfront : front.length = headerLen)
    (hd : decode front config.limits = .error e) :
    ∃ r', r.readFrameFrom config = (.error (.wire e), r') ∧ r'.inner.bytes = rest := by
  obtain ⟨r1, hread, -, hbytes⟩ := readExactCounted_eq hp hfront
  refine ⟨r1, ?_, hbytes (by decide)⟩
  rw [readFrameFrom, hread]
  dsimp only
  rw [hfront, if_neg (by decide), if_neg (by simp), hd]

end ResynchronizingReader

open ResynchronizingReader

theorem returns_payload (hp : r.pending = front ++ (payload ++ rest))
    (hfront : front.length = headerLen) (hd : decode front config.limits = .ok h)
    (hl : h.payloadLength = payload.length) :
    ∃ r', Returns config r [⟨h, payload, hl⟩] r' ∧ r'.pending = rest := by
  obtain ⟨r', hread, hp'⟩ := readFrameFrom_ok hp hfront hd hl
  refine ⟨r', .of_readFrame fun attempts ha => ?_, hp'⟩
  obtain ⟨n, rfl⟩ := Nat.exists_eq_add_of_le' ha
  rw [readFrame, hread]

theorem returns_frame (hf : f.Sendable config.limits) (hp : r.pending = f.bytes ++ rest) :
    ∃ r', Returns config r [f] r' ∧ r'.pending = rest := by
  rw [Frame.bytes, append_assoc] at hp
  exact returns_payload hp (length_bytes _ _) (decode_bytes hf.fits hf.valid) f.length_eq

theorem returns_frames (hfs : ∀ f ∈ fs, f.Sendable config.limits)
    (hp : r.pending = fs.flatMap Frame.bytes ++ rest) :
    ∃ r', Returns config r fs r' ∧ r'.pending = rest := by
  induction fs generalizing r with
  | nil => exact ⟨r, .nil, hp⟩
  | cons f fs ih =>
    rw [flatMap_cons, append_assoc] at hp
    obtain ⟨r1, h1, hp1⟩ := returns_frame (hfs f (.head _)) hp
    obtain ⟨r2, h2, hp2⟩ := ih (fun g hg => hfs g (.tail _ hg)) hp1
    exact ⟨r2, h1.append h2, hp2⟩

theorem returns_behind (hf : f.Sendable config.limits)
    (hp : r.pending = front ++ (gap ++ (f.bytes ++ rest))) (hfront : front.length = headerLen)
    (hd : ∃ e, decode front config.limits = .error e ∧ isResourceLimit e = false)
    (hgap : 75 ∉ gap) (hle : gap.length + 4 ≤ maxResynchronizeBytes) :
    ∃ r', Returns config r [f] r' ∧ r'.pending = rest := by
  obtain ⟨e, hd, he⟩ := hd
  obtain ⟨r1, hread, hbytes⟩ := readFrameFrom_error hp hfront hd
  obtain ⟨tail, htail⟩ := magic_bytes f
  rw [htail, append_assoc, ← append_assoc] at hbytes
  obtain ⟨r2, hfound, hp2⟩ := resynchronize_magic hgap hbytes hle
  rw [← append_assoc, ← htail, Frame.bytes, append_assoc] at hp2
  obtain ⟨r3, hread', hp3⟩ := readFrameFrom_ok hp2 (length_bytes _ _)
    (decode_bytes hf.fits hf.valid) f.length_eq
  refine ⟨r3, .of_readFrame fun attempts ha => ?_, hp3⟩
  obtain ⟨n, rfl⟩ := Nat.exists_eq_add_of_le' ha
  have hrestart : (TransportError.wire e).allowsInPlaceRestart := by
    simp [allowsInPlaceRestart, errorClass, he]
  rw [readFrame, hread]
  dsimp only
  rw [if_pos hrestart, recover, hfound]
  dsimp only
  rw [readFrame, hread']

end Returns

section Marker

theorem marker_sendable (limits : DecodeLimits) : marker.Sendable limits where
  fits := by constructor <;> decide
  valid := by constructor <;> simp [marker, new, unknownCritical, endStream,
    streamIsValid, Command.allowsStreamZero]

theorem length_marker : marker.bytes.length = headerLen := rfl

theorem not_mem_drop_marker {n : ℕ} (hn : 1 ≤ n) : 75 ∉ marker.bytes.drop n := by
  have htail : 75 ∉ marker.bytes.drop 1 := by decide +kernel
  intro hmem
  obtain ⟨k, rfl⟩ := Nat.exists_eq_add_of_le hn
  rw [← drop_drop] at hmem
  exact htail (mem_of_mem_drop hmem)

theorem writeUsbResynchronizationBurst_eq (limits : DecodeLimits) :
    writeUsbResynchronizationBurst limits =
      .ok (replicate maxHostToDevicePayload 0 ++ marker.bytes) := by
  have hfill : ∀ fuel n, n ≤ fuel → zeroFill fuel n = replicate n 0 := by
    intro fuel
    induction fuel with
    | zero =>
      rintro n hn
      obtain rfl : n = 0 := by omega
      rfl
    | succ fuel ih =>
      rintro n hn
      have hsize : 0 < usbTransferSize := by decide
      rw [zeroFill]
      split_ifs with hpos
      · dsimp only
        rw [ih _ (by omega), ← replicate_add]
        congr 1
        omega
      · obtain rfl : n = 0 := by omega
        rfl
  rw [writeUsbResynchronizationBurst, Frame.encode_eq_ok (marker_sendable limits)]
  rw [hfill _ _ le_rfl]
  rfl

end Marker

section Recovery

variable {config : TransportConfig} {r : ResynchronizingReader} {hello : Frame} {fill : ℕ}
  {part front payload : List UInt8} {h : Header} {limits : DecodeLimits} {f : Frame} {m : ℕ}

/-- A frame whose missing bytes are zeros of the fill. -/
def CompletedByFill (fill : ℕ) (limits : DecodeLimits) (part : List UInt8) (f : Frame) : Prop :=
  ∃ n ≤ fill, Frame.decode (part ++ List.replicate n 0) limits = .ok f

/-- Zeros complete a header that was cut, and its payload does not fit into the others. -/
def Overruns (fill : ℕ) (limits : DecodeLimits) (part : List UInt8) : Prop :=
  0 < part.length ∧ part.length < headerLen ∧
    ∃ h, Header.decode (part ++ List.replicate (headerLen - part.length) 0) limits = .ok h ∧
      fill < headerLen - part.length + h.payloadLength

theorem decode_frame (hfront : front.length = headerLen)
    (hd : decode front limits = .ok h) (hl : h.payloadLength = payload.length) :
    Frame.decode (front ++ payload) limits = .ok ⟨h, payload, hl⟩ := by
  have hlength : (front ++ payload).length = headerLen + h.payloadLength := by
    rw [length_append, hfront, hl]
  have hdrop : (front ++ payload).drop headerLen = payload := drop_left' hfront
  simp only [Frame.decode, decode_append hfront, hd, bind, Except.bind, dif_pos hlength,
    pure, Except.pure, hdrop]

theorem decode_frame_length {bytes : List UInt8} (hd : Frame.decode bytes limits = .ok f) :
    bytes.length = headerLen + f.header.payloadLength := by
  obtain ⟨h, -, hd⟩ := bind_eq_ok.mp hd
  split_ifs at hd with hlength
  cases hd
  exact hlength

theorem decode_zero {xs : List UInt8} (hlength : headerLen ≤ (0 :: xs).length) :
    ∃ e, decode (0 :: xs) limits = .error e ∧ isResourceLimit e = false :=
  decode_no_magic hlength (by simp [magic])

/-- The reader gets over what is left of the zeros, with or without the marker. -/
theorem returns_tail {z : ℕ} (hz : z + 4 ≤ maxResynchronizeBytes)
    (hhello : hello.Sendable config.limits)
    (hp : r.pending = replicate z 0 ++ (marker.bytes ++ (hello.bytes ++ []))) :
    ∃ ping r', (ping = [] ∨ ping = [marker]) ∧ Returns config r (ping ++ [hello]) r' ∧
      r'.pending = [] := by
  have hmarker := marker_sendable config.limits
  rcases z with - | z
  · obtain ⟨r1, h1, hp1⟩ := returns_frame hmarker hp
    obtain ⟨r2, h2, hp2⟩ := returns_frame hhello hp1
    exact ⟨[marker], r2, .inr rfl, h1.append h2, hp2⟩
  · rcases lt_or_ge (z + 1) headerLen with hlt | hge
    · -- The marker is taken for the rest of the header.
      have hsplit := take_append_drop (headerLen - (z + 1)) marker.bytes
      rw [← hsplit, append_assoc, ← append_assoc] at hp
      have hfront : (replicate (z + 1) 0 ++
          marker.bytes.take (headerLen - (z + 1))).length = headerLen := by
        rw [length_append, length_replicate, length_take, length_marker]
        omega
      have hgap : (marker.bytes.drop (headerLen - (z + 1))).length + 4 ≤ maxResynchronizeBytes := by
        rw [length_drop, length_marker]
        omega
      obtain ⟨r1, h1, hp1⟩ := returns_behind hhello hp hfront (decode_zero hfront.ge)
        (not_mem_drop_marker (by omega)) hgap
      exact ⟨[], r1, .inl rfl, h1, hp1⟩
    · obtain ⟨k, hk⟩ := Nat.exists_eq_add_of_le hge
      rw [hk, replicate_add, append_assoc] at hp
      obtain ⟨r1, h1, hp1⟩ := returns_behind hmarker hp length_replicate
        (decode_zero (by simp [headerLen]))
        (by simp) (by rw [length_replicate]; omega)
      obtain ⟨r2, h2, hp2⟩ := returns_frame hhello hp1
      exact ⟨[marker], r2, .inr rfl, h1.append h2, hp2⟩

/-- At most one frame that the zeros complete, the marker or not, and the HELLO follow, and
nothing is left. -/
def Recovers (config : TransportConfig) (fill : ℕ) (part : List UInt8) (hello : Frame)
    (r : ResynchronizingReader) (frames : List Frame) : Prop :=
  ∃ extra ping r', extra.length ≤ 1 ∧ (∀ f ∈ extra, CompletedByFill fill config.limits part f) ∧
    (ping = [] ∨ ping = [marker]) ∧ Returns config r (frames ++ (extra ++ (ping ++ [hello]))) r' ∧
      r'.pending = []

/-- The part is completed to a frame with zeros, and some of them are left. -/
theorem recovers_payload {n z : ℕ} (hz : z + 4 ≤ maxResynchronizeBytes)
    (hhello : hello.Sendable config.limits) (hn : n ≤ fill)
    (hpart : part ++ replicate n 0 = front ++ payload) (hfront : front.length = headerLen)
    (hd : decode front config.limits = .ok h) (hl : h.payloadLength = payload.length)
    (hp : r.pending = part ++ (replicate (n + z) 0 ++ (marker.bytes ++ (hello.bytes ++ [])))) :
    Recovers config fill part hello r [] := by
  rw [replicate_add, append_assoc, ← append_assoc, hpart, append_assoc] at hp
  obtain ⟨r1, h1, hp1⟩ := returns_payload hp hfront hd hl
  obtain ⟨ping, r2, hping, h2, hp2⟩ := returns_tail hz hhello hp1
  refine ⟨[⟨h, payload, hl⟩], ping, r2, le_rfl, ?_, hping, h1.append h2, hp2⟩
  intro f hf
  obtain rfl := mem_singleton.mp hf
  exact ⟨n, hn, hpart ▸ decode_frame hfront hd hl⟩

theorem decode_cut (hf : f.Sendable limits) (hm : m ≤ headerLen) :
    (∃ e, decode (f.bytes.take m ++ replicate (headerLen - m) 0) limits = .error e ∧
        isResourceLimit e = false) ∨
      ∃ h, decode (f.bytes.take m ++ replicate (headerLen - m) 0) limits = .ok h ∧
        h.payloadLength ≤ f.payload.length := by
  have hpart : f.bytes.take m = (f.header.bytes (crc32c (f.header.bytes 0))).take m :=
    take_append_of_le_length (by rwa [length_bytes])
  have hzeroed := Zeroed.take (f.header.bytes (crc32c (f.header.bytes 0))) m
  rw [length_bytes, ← hpart] at hzeroed
  rw [← f.length_eq]
  exact decode_zeroed hf.fits hf.valid (crc32c_lt _) hzeroed

theorem recovers_part (hfill : fill + 4 ≤ maxResynchronizeBytes)
    (h40 : headerLen ≤ fill) (hhello : hello.Sendable config.limits)
    (hf : f.Sendable config.limits) (hle : f.payload.length ≤ fill) (hm : m < f.bytes.length)
    (hno : ¬ Overruns fill config.limits (f.bytes.take m)) (hp : r.pending = f.bytes.take m ++
      (replicate fill 0 ++ (marker.bytes ++ (hello.bytes ++ [])))) :
    Recovers config fill (f.bytes.take m) hello r [] := by
  have hmarker := marker_sendable config.limits
  have hlength : f.bytes.length = headerLen + f.payload.length := by
    rw [Frame.bytes, length_append, length_bytes]
  have htake : (f.bytes.take m).length = m := by
    rw [length_take]
    omega
  rcases lt_or_ge m headerLen with hlt | hge
  · rcases Nat.eq_zero_or_pos m with rfl | hpos
    · obtain ⟨ping, r1, hping, h1, hp1⟩ := returns_tail hfill hhello hp
      exact ⟨[], ping, r1, Nat.zero_le _, by simp, hping, h1, hp1⟩
    have hfront : (f.bytes.take m ++ replicate (headerLen - m) 0).length = headerLen := by
      rw [length_append, htake, length_replicate]
      omega
    obtain herror | ⟨h, hd, hlow⟩ := decode_cut hf hlt.le
    · -- What the zeros complete is no header, and the marker is the next frame.
      obtain ⟨k, hk⟩ := Nat.exists_eq_add_of_le (show headerLen - m ≤ fill by omega)
      rw [hk, replicate_add, append_assoc, ← append_assoc] at hp
      obtain ⟨r1, h1, hp1⟩ := returns_behind hmarker hp hfront herror
        (by simp) (by rw [length_replicate]; omega)
      obtain ⟨r2, h2, hp2⟩ := returns_frame hhello hp1
      exact ⟨[], [marker], r2, Nat.zero_le _, by simp, .inr rfl, h1.append h2, hp2⟩
    · have hroom : headerLen - m + h.payloadLength ≤ fill := by
        by_contra hc
        refine hno ⟨by omega, by omega, h, ?_, ?_⟩
        · rwa [htake]
        · rw [htake]
          exact not_le.mp hc
      obtain ⟨z, hz⟩ := Nat.exists_eq_add_of_le hroom
      rw [hz] at hp
      refine recovers_payload (by omega) hhello hroom ?_ hfront hd
        (length_replicate (n := h.payloadLength) (a := 0)).symm hp
      rw [replicate_add, append_assoc]
  · -- The header is there, and zeros are taken for the rest of the payload.
    have hpayload := f.length_eq
    have hpart : f.bytes.take m =
        f.header.bytes (crc32c (f.header.bytes 0)) ++ f.payload.take (m - headerLen) := by
      rw [Frame.bytes, take_append, length_bytes,
        take_of_length_le (by rw [length_bytes]; exact hge)]
    obtain ⟨z, hz⟩ := Nat.exists_eq_add_of_le (show f.bytes.length - m ≤ fill by omega)
    rw [hz] at hp
    have hrest : f.header.payloadLength =
        (f.payload.take (m - headerLen) ++ replicate (f.bytes.length - m) 0).length := by
      rw [length_append, length_take, length_replicate]
      omega
    refine recovers_payload (by omega) hhello (by omega) ?_ (length_bytes _ _)
      (decode_bytes hf.fits hf.valid) hrest hp
    rw [hpart, append_assoc]

section
variable (h40 : headerLen ≤ fill)
  (hf : f.Sendable config.limits) (hle : f.payload.length ≤ fill) (hm : m < f.bytes.length)
  (hover : Overruns fill config.limits (f.bytes.take m)) (hp : r.pending = f.bytes.take m ++
    (replicate fill 0 ++ (marker.bytes ++ (hello.bytes ++ []))))

include h40 hf hle hm hover hp

theorem overruns_returns : ∃ g r', Returns config r [g] r' ∧ r'.pending ≠ [] ∧
      fill < headerLen - (f.bytes.take m).length + g.header.payloadLength := by
  have htake : (f.bytes.take m).length = m := by
    rw [length_take]
    omega
  unfold Overruns at hover
  rw [htake] at hover ⊢
  obtain ⟨hpos, hlt, h, hd, hover⟩ := hover
  have hlow : h.payloadLength ≤ f.payload.length := by
    obtain ⟨e, herror, -⟩ | ⟨h', hd', hlow⟩ := decode_cut hf hlt.le
    · rw [hd] at herror
      cases herror
    · rw [hd] at hd'
      exact Except.ok.inj hd' ▸ hlow
  obtain ⟨k, rfl⟩ := Nat.exists_eq_add_of_le (show headerLen - m ≤ fill by omega)
  -- The payload is what is left of the zeros and the start of the marker.
  have hbytes : r.pending = f.bytes.take m ++ replicate (headerLen - m) 0 ++
      (replicate k 0 ++ marker.bytes.take (h.payloadLength - k) ++
        (marker.bytes.drop (h.payloadLength - k) ++ (hello.bytes ++ []))) := by
    rw [hp, replicate_add]
    nth_rewrite 1 [← take_append_drop (h.payloadLength - k) marker.bytes]
    simp only [append_assoc]
  have hl : h.payloadLength =
      (replicate k 0 ++ marker.bytes.take (h.payloadLength - k)).length := by
    rw [length_append, length_replicate, length_take, length_marker]
    omega
  have hfront : (f.bytes.take m ++ replicate (headerLen - m) 0).length = headerLen := by
    rw [length_append, htake, length_replicate]
    omega
  obtain ⟨r1, h1, hp1⟩ := returns_payload hbytes hfront hd hl
  refine ⟨_, r1, h1, ?_, hover⟩
  intro hnil
  have hlength := congrArg List.length (hp1.symm.trans hnil)
  rw [length_append, length_drop, length_marker, length_nil] at hlength
  omega

theorem not_recovers : ¬ Recovers config fill (f.bytes.take m) hello r [] := by
  rintro ⟨extra, ping, r', -, hextra, hping, hreturns, hend⟩
  obtain ⟨g, r1, hg, hleft, hlong⟩ := overruns_returns h40 hf hle hm hover hp
  obtain ⟨rest, hrest, hreturns⟩ := hg.head hreturns (by simp)
  cases extra with
  | cons x xs =>
    obtain ⟨rfl, -⟩ := List.cons.inj hrest
    obtain ⟨n, hn, hd⟩ := hextra x (.head _)
    have hlength := decode_frame_length hd
    have hshort := hover.2.1
    rw [length_append, length_replicate] at hlength
    omega
  | nil =>
    obtain rfl | rfl := hping
    · obtain ⟨-, rfl⟩ := List.cons.inj hrest
      have hr : ([], r1) = ([], r') := hreturns 2 le_rfl
      obtain rfl := (Prod.mk.inj hr).2
      exact hleft hend
    · obtain ⟨rfl, -⟩ := List.cons.inj hrest
      have hempty : marker.header.payloadLength = 0 := rfl
      have hpos := hover.1
      omega

end

theorem recovers_iff {frames : List Frame}
    (hfill : fill + 4 ≤ maxResynchronizeBytes) (h40 : headerLen ≤ fill)
    (hhello : hello.Sendable config.limits)
    (hframes : ∀ f ∈ frames, f.Sendable config.limits) (hf : f.Sendable config.limits)
    (hle : f.payload.length ≤ fill) (hm : m < f.bytes.length)
    (hp : r.pending = frames.flatMap Frame.bytes ++ (f.bytes.take m ++
      (replicate fill 0 ++ (marker.bytes ++ (hello.bytes ++ []))))) :
    Recovers config fill (f.bytes.take m) hello r frames ↔
      ¬ Overruns fill config.limits (f.bytes.take m) := by
  obtain ⟨r1, hdone, hp1⟩ := returns_frames hframes hp
  constructor
  · rintro ⟨extra, ping, r', hone, hextra, hping, hreturns, hend⟩ hover
    exact not_recovers h40 hf hle hm hover hp1
      ⟨extra, ping, r', hone, hextra, hping, hdone.of_append hreturns, hend⟩
  · intro hno
    obtain ⟨extra, ping, r', hone, hextra, hping, hreturns, hend⟩ :=
      recovers_part hfill h40 hhello hf hle hm hno hp1
    exact ⟨extra, ping, r', hone, hextra, hping, hdone.append hreturns, hend⟩

end Recovery

section Cut

theorem cutFrames_spec (frames : List Frame) (cut : ℕ) : (frames.flatMap Frame.bytes).take cut =
        (cutFrames frames cut).1.flatMap Frame.bytes ++ (cutFrames frames cut).2 ∧
      (∀ f ∈ (cutFrames frames cut).1, f ∈ frames) ∧ ((cutFrames frames cut).2 = [] ∨
        ∃ f ∈ frames, ∃ m < f.bytes.length, (cutFrames frames cut).2 = f.bytes.take m) := by
  induction frames generalizing cut with
  | nil => simp [cutFrames]
  | cons f fs ih =>
    rw [cutFrames, flatMap_cons]
    split_ifs with hle
    · obtain ⟨htake, hmem, hpart⟩ := ih (cut - f.bytes.length)
      refine ⟨?_, ?_, ?_⟩
      · rw [take_append, take_of_length_le hle, htake, flatMap_cons, append_assoc]
      · rintro g hg
        obtain rfl | hg := mem_cons.mp hg
        · exact .head _
        · exact .tail _ (hmem g hg)
      · obtain hnil | ⟨g, hg, m, hm, heq⟩ := hpart
        · exact .inl hnil
        · exact .inr ⟨g, .tail _ hg, m, hm, heq⟩
    · have hlt := not_le.mp hle
      refine ⟨?_, by simp, .inr ⟨f, .head _, cut, hlt, rfl⟩⟩
      rw [take_append_of_le_length hlt.le]
      rfl

/-- The reader recovers from a cut in what the host before sent. -/
def ReachesHello (config : TransportConfig) (frames : List Frame) (cut : ℕ) (hello : Frame)
    (sizes : ℕ → ℕ) : Prop :=
  ∃ burst, writeUsbResynchronizationBurst config.limits = .ok burst ∧
    Recovers config maxHostToDevicePayload (cutFrames frames cut).2 hello
      { inner := { bytes := (frames.flatMap Frame.bytes).take cut ++ burst ++ hello.bytes, sizes } }
      (cutFrames frames cut).1

theorem recovery_reaches_hello_iff (config : TransportConfig) (frames : List Frame) (cut : ℕ)
    (hello : Frame) (sizes : ℕ → ℕ) (hframes : ∀ f ∈ frames, f.Sendable config.limits ∧
      f.payload.length ≤ maxHostToDevicePayload) (hhello : hello.Sendable config.limits) :
    ReachesHello config frames cut hello sizes ↔
      ¬ Overruns maxHostToDevicePayload config.limits (cutFrames frames cut).2 := by
  have hfill : maxHostToDevicePayload + 4 ≤ maxResynchronizeBytes := by decide
  have h40 : headerLen ≤ maxHostToDevicePayload := by decide
  rw [ReachesHello, writeUsbResynchronizationBurst_eq]
  -- The zeros are never written out.
  generalize maxHostToDevicePayload = fill at *
  obtain ⟨htake, hmem, hpart⟩ := cutFrames_spec frames cut
  generalize cutFrames frames cut = done at *
  obtain ⟨complete, part⟩ := done
  obtain ⟨f, ⟨hf, hle⟩, m, hm, rfl⟩ : ∃ f : Frame, (f.Sendable config.limits ∧
      f.payload.length ≤ fill) ∧ ∃ m < f.bytes.length, part = f.bytes.take m := by
    obtain rfl | ⟨f, hf, m, hm, rfl⟩ := hpart
    · exact ⟨marker, ⟨marker_sendable _, Nat.zero_le _⟩, 0, by decide, rfl⟩
    · exact ⟨f, hframes f hf, m, hm, rfl⟩
  dsimp only at htake hmem ⊢
  rw [htake]
  constructor
  · rintro ⟨burst, hburst, hrecovers⟩
    cases hburst
    refine (recovers_iff hfill h40 hhello (fun g hg => (hframes g (hmem g hg)).1) hf hle hm ?_).mp
      hrecovers
    simp [ResynchronizingReader.pending, magic]
  · intro hno
    refine ⟨_, rfl,
      (recovers_iff hfill h40 hhello (fun g hg => (hframes g (hmem g hg)).1) hf hle hm ?_).mpr hno⟩
    simp [ResynchronizingReader.pending, magic]

def defaultConfig : TransportConfig := ⟨.default, by decide⟩

def dataOf (payload : List UInt8) : Frame :=
  ⟨{ Header.new .data 1 0 with payloadLength := payload.length }, payload, rfl⟩

def shortHello : Frame := ⟨{ Header.new .hello 0 0 with payloadLength := 2 }, [123, 125], rfl⟩

theorem shortHello_sendable : shortHello.Sendable defaultConfig.limits where
  fits := by constructor <;> decide
  valid := by
    rw [← validate_eq_ok_iff]
    decide

theorem dataOf_sendable {payload : List UInt8} (h : payload.length ≤ maxHostToDevicePayload) :
    (dataOf payload).Sendable defaultConfig.limits where
  fits := by
    have hlt : payload.length < 256 ^ 4 := h.trans_lt (by decide)
    constructor <;> simp [dataOf, new, protocolMajor, protocolMinor]
    exact hlt
  valid := by
    have hle : payload.length ≤ defaultConfig.limits.maxPayload := h.trans (by decide)
    constructor <;> simp [dataOf, new, unknownCritical, endStream,
      streamIsValid, Command.allowsNonzeroStream, hle]

theorem recovery_reaches_hello_behind_data :
    ReachesHello defaultConfig [dataOf [1, 2, 3]] 38 shortHello fun _ => 512 := by
  refine (recovery_reaches_hello_iff defaultConfig [dataOf [1, 2, 3]] 38 shortHello _ ?_
    shortHello_sendable).mpr ?_
  · intro f hf
    obtain rfl := mem_singleton.mp hf
    exact ⟨dataOf_sendable (by decide), by decide⟩
  · rintro ⟨-, -, h, hd, hlong⟩
    have hheader : decode ((cutFrames [dataOf [1, 2, 3]] 38).2 ++ replicate 2 0)
        defaultConfig.limits = .ok (dataOf [1, 2, 3]).header := by decide +kernel
    have hpart : (cutFrames [dataOf [1, 2, 3]] 38).2.length = 38 := by decide +kernel
    rw [hpart] at hd hlong
    obtain rfl := Except.ok.inj (hheader.symm.trans hd)
    exact absurd hlong (by decide)

/-- A payload of a whole fill, cut behind the checksum: the header is completed with zeros,
and the payload ends inside the marker. -/
theorem overruns_dataOf {payload : List UInt8} (h : payload.length = maxHostToDevicePayload) :
    Overruns maxHostToDevicePayload defaultConfig.limits ((dataOf payload).bytes.take 36) := by
  have htake : (dataOf payload).bytes.take 36 = ((dataOf payload).header.bytes
      (crc32c ((dataOf payload).header.bytes 0))).take 36 :=
    take_append_of_le_length (by rw [length_bytes]; decide)
  have hheader : (dataOf payload).header =
      { new .data 1 0 with payloadLength := maxHostToDevicePayload } := by
    rw [← h]
    rfl
  rw [htake, hheader]
  exact ⟨by decide +kernel, by decide +kernel,
    { new .data 1 0 with payloadLength := maxHostToDevicePayload }, by decide +kernel,
    by decide +kernel⟩

theorem long_payload_loses_hello : (∀ f ∈ [dataOf (List.replicate maxHostToDevicePayload 0)],
      f.Sendable defaultConfig.limits ∧ f.payload.length ≤ maxHostToDevicePayload) ∧
    ¬ ReachesHello defaultConfig [dataOf (List.replicate maxHostToDevicePayload 0)] 36 shortHello
      fun _ => 512 := by
  have hlength := length_replicate (n := maxHostToDevicePayload) (a := (0 : UInt8))
  generalize replicate maxHostToDevicePayload (0 : UInt8) = payload at hlength ⊢
  have hsendable := dataOf_sendable hlength.le
  have hcut : ¬ (dataOf payload).bytes.length ≤ 36 := by
    rw [Frame.bytes, length_append, length_bytes]
    exact not_le.mpr (Nat.lt_add_right _ (by decide))
  refine ⟨?_, ?_⟩
  · rintro f hf
    obtain rfl := mem_singleton.mp hf
    exact ⟨hsendable, hlength.le⟩
  · rw [ReachesHello, writeUsbResynchronizationBurst_eq]
    rintro ⟨burst, hburst, hrecovers⟩
    obtain rfl := Except.ok.inj hburst
    rw [cutFrames, if_neg hcut, flatMap_singleton] at hrecovers
    refine not_recovers (by decide) hsendable hlength.le (not_le.mp hcut)
      (overruns_dataOf hlength) ?_ hrecovers
    simp only [ResynchronizingReader.pending, magic, drop_succ_cons, drop_nil,
      nil_append, append_nil, append_assoc]

end Cut

end KindleBridge.Usb
