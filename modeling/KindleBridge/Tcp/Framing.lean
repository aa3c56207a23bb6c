import KindleBridge.Usb.Reader

/-! # Frames over a byte stream

A reader gives its bytes in pieces of any size and may be interrupted between them. What
is written frame by frame is read back frame by frame, and a stream that is cut gives the
frames before the cut and then an error.
-/

namespace KindleBridge.Tcp

open Wire List Header
open Usb (TransportConfig hardMaxPayload)

inductive TransportError
  | endOfStream
  | truncatedHeader (received : ℕ)
  | truncatedPayload (expected received : ℕ)
  | wire (error : WireError)
  | payloadExceedsHardLimit (length hardLimit : ℕ)
  | frameLengthMismatch (declared actual : ℕ)
  | io (message : String)
  deriving DecidableEq

inductive Answer
  | interrupted
  /-- At least one byte, and at most so many more, as far as there are any. -/
  | gives (more : ℕ)
  | fails (message : String)
  deriving DecidableEq

/-- A byte stream, with the answers to all calls. -/
structure Source where
  bytes : List UInt8
  answers : ℕ → Answer
  calls : ℕ

/-- The stream after a call that has given some bytes. -/
def Source.skip (s : Source) (count : ℕ) : Source :=
  { s with bytes := s.bytes.drop count, calls := s.calls + 1 }

/-- Read until there is enough or nothing comes. `none` if the fuel runs out. -/
def readExactCounted : ℕ → ℕ → Source → Option (Except TransportError (List UInt8) × Source)
  | 0, _, _ => none
  | fuel + 1, n, s =>
    if n = 0 then some (.ok [], s)
    else
      match s.answers s.calls with
      | .interrupted => readExactCounted fuel n (s.skip 0)
      | .fails message => some (.error (.io message), s.skip 0)
      | .gives more =>
        let chunk := s.bytes.take (min n (more + 1))
        if chunk = [] then some (.ok [], s.skip 0)
        else
          match readExactCounted fuel (n - chunk.length) (s.skip chunk.length) with
          | some (.ok rest, s) => some (.ok (chunk ++ rest), s)
          | r => r

def readPayload (fuel : ℕ) (header : Header) (s : Source) :
    Option (Except TransportError Frame × Source) :=
  match readExactCounted fuel header.payloadLength s with
  | none => none
  | some (.error e, s) => some (.error e, s)
  | some (.ok payload, s) =>
    if h : header.payloadLength = payload.length then some (.ok ⟨header, payload, h⟩, s)
    else some (.error (.truncatedPayload header.payloadLength payload.length), s)

def readFrameFrom (config : TransportConfig) (fuel : ℕ) (s : Source) :
    Option (Except TransportError Frame × Source) :=
  match readExactCounted fuel headerLen s with
  | none => none
  | some (.error e, s) => some (.error e, s)
  | some (.ok headerBytes, s) =>
    if headerBytes.length = 0 then some (.error .endOfStream, s)
    else if headerBytes.length ≠ headerLen then
      some (.error (.truncatedHeader headerBytes.length), s)
    else
      match Header.decode headerBytes config.limits with
      | .error e => some (.error (.wire e), s)
      | .ok header =>
        if header.payloadLength > hardMaxPayload then
          some (.error (.payloadExceedsHardLimit header.payloadLength hardMaxPayload), s)
        else readPayload fuel header s

/-- The frames that are read one after the other, and the error that ends them. -/
def readFrames (config : TransportConfig) : ℕ → Source → Option (List Frame × TransportError)
  | 0, _ => none
  | fuel + 1, s =>
    match readFrameFrom config fuel s with
    | none => none
    | some (.error e, _) => some ([], e)
    | some (.ok frame, s) => (readFrames config fuel s).map fun r => (frame :: r.1, r.2)

/-- The bytes that are written for a frame, if it is accepted. -/
def writeFrameTo (config : TransportConfig) (f : Frame) : Except TransportError (List UInt8) :=
  if f.header.payloadLength > hardMaxPayload then
    .error (.payloadExceedsHardLimit f.header.payloadLength hardMaxPayload)
  else if f.header.payloadLength ≠ f.payload.length then
    .error (.frameLengthMismatch f.header.payloadLength f.payload.length)
  else
    match f.header.encode config.limits with
    | .error e => .error (.wire e)
    | .ok header => .ok (header ++ f.payload)

def writeFrames (config : TransportConfig) : List Frame → Except TransportError (List UInt8)
  | [] => .ok []
  | f :: fs =>
    match writeFrameTo config f with
    | .error e => .error e
    | .ok bytes => (writeFrames config fs).map (bytes ++ ·)

/-! ## Reading -/

/-- The stream never fails, and is never interrupted for ever. -/
structure Source.Regular (s : Source) : Prop where
  sound : ∀ n message, s.answers n ≠ .fails message
  fair : ∀ n, ∃ d, s.answers (n + d) ≠ .interrupted

/-- With enough fuel, the result is this one. -/
def Returns {α : Type} (f : ℕ → Option α) (r : α) : Prop := ∃ n, ∀ m ≥ n, f m = some r

section Reading

variable {config : TransportConfig} {s t : Source} {n : ℕ} {rest : List UInt8}

theorem Source.Regular.congr (h : s.Regular) (ht : t.answers = s.answers) : t.Regular :=
  ⟨ht ▸ h.sound, ht ▸ h.fair⟩

theorem readExactCounted_interrupted (hn : n ≠ 0) (d fuel : ℕ)
    (h : ∀ i < d, s.answers (s.calls + i) = .interrupted) :
    readExactCounted (fuel + d) n s = readExactCounted fuel n { s with calls := s.calls + d } := by
  induction d generalizing s with
  | zero => rfl
  | succ d ih =>
    have hfirst : s.answers s.calls = .interrupted := h 0 (Nat.succ_pos d)
    have hrest := ih (s := s.skip 0) fun i hi => by
      rw [← h (i + 1) (by omega)]
      exact congrArg s.answers (Nat.add_right_comm s.calls 1 i)
    rw [← Nat.add_assoc, readExactCounted, if_neg hn, hfirst]
    have hcalls : s.calls + 1 + d = s.calls + (d + 1) := by omega
    refine hrest.trans ?_
    simp only [Source.skip, drop_zero, hcalls]

theorem Source.Regular.next (h : s.Regular) : ∃ d more,
    (∀ i < d, s.answers (s.calls + i) = .interrupted) ∧ s.answers (s.calls + d) = .gives more := by
  classical
  have hfair := h.fair s.calls
  have hd := Nat.find_spec hfair
  refine ⟨Nat.find hfair, ?_⟩
  cases hanswer : s.answers (s.calls + Nat.find hfair) with
  | interrupted => exact absurd hanswer hd
  | fails message => exact absurd hanswer (h.sound _ _)
  | gives more => exact ⟨more, fun i hi => not_not.mp (Nat.find_min hfair hi), rfl⟩

theorem readExactCounted_empty {more : ℕ} (hn : n ≠ 0) (fuel : ℕ)
    (hgives : s.answers s.calls = .gives more) (hbytes : s.bytes = []) :
    readExactCounted (fuel + 1) n s = some (.ok [], s.skip 0) := by
  rw [readExactCounted, if_neg hn, hgives]
  simp [hbytes]

theorem readExactCounted_gives {more fuel c : ℕ} (hn : n ≠ 0)
    (hgives : s.answers s.calls = .gives more) (hbytes : s.bytes ≠ [])
    (hc : c = min (min n (more + 1)) s.bytes.length)
    (hrest : readExactCounted fuel (n - c) (s.skip c) = some (.ok rest, t)) :
    readExactCounted (fuel + 1) n s = some (.ok (s.bytes.take c ++ rest), t) := by
  have hpos := length_pos_iff.mpr hbytes
  have hchunk : s.bytes.take (min n (more + 1)) = s.bytes.take c := by
    rw [hc, ← take_eq_take_min]
  have hlength : (s.bytes.take c).length = c := by
    rw [length_take]
    omega
  have hne : s.bytes.take c ≠ [] := by
    apply ne_nil_of_length_pos
    omega
  rw [readExactCounted, if_neg hn, hgives]
  simp only [hchunk, hne, if_false, hlength, hrest]

/-- However the bytes come, the first `n` are read, or as many as there are. -/
theorem readExactCounted_returns (hs : s.Regular) (n : ℕ) : ∃ t : Source,
    Returns (readExactCounted · n s) (.ok (s.bytes.take n), t) ∧
      t.bytes = s.bytes.drop n ∧ t.Regular := by
  induction n using Nat.strong_induction_on generalizing s with
  | _ n ih =>
    by_cases hn : n = 0
    · subst hn
      refine ⟨s, ⟨1, ?_⟩, rfl, hs⟩
      intro m hm
      obtain ⟨m, rfl⟩ := Nat.exists_eq_add_of_le' hm
      rfl
    obtain ⟨d, more, hbefore, hgives⟩ := hs.next
    have hskip (fuel : ℕ) := readExactCounted_interrupted hn d fuel hbefore
    generalize hu : ({ s with calls := s.calls + d } : Source) = u at hskip
    obtain ⟨hub, hua, huc⟩ : u.bytes = s.bytes ∧ u.answers = s.answers ∧ u.calls = s.calls + d := by
      subst hu
      exact ⟨rfl, rfl, rfl⟩
    rw [← hua, ← huc] at hgives
    rw [← hub]
    by_cases hbytes : u.bytes = []
    · refine ⟨u.skip 0, ⟨1 + d, ?_⟩, by simp [Source.skip, hbytes], hs.congr hua⟩
      intro m hm
      obtain ⟨fuel, rfl⟩ := Nat.exists_eq_add_of_le hm
      have hsum : 1 + d + fuel = fuel + 1 + d := by omega
      dsimp only
      rw [hsum, hskip, readExactCounted_empty hn fuel hgives hbytes, hbytes, take_nil]
    · obtain ⟨c, hc⟩ : ∃ c, c = min (min n (more + 1)) u.bytes.length := ⟨_, rfl⟩
      have hpos := length_pos_iff.mpr hbytes
      obtain ⟨t, ⟨least, hfuel⟩, htbytes, ht⟩ := ih (n - c) (by omega) (s := u.skip c)
        (hs.congr hua)
      refine ⟨t, ⟨least + 1 + d, ?_⟩, ?_, ht⟩
      · intro m hm
        obtain ⟨fuel, rfl⟩ := Nat.exists_eq_add_of_le hm
        have hrest := hfuel (least + fuel) (Nat.le_add_right _ _)
        have hsum : least + 1 + d + fuel = least + fuel + 1 + d := by omega
        dsimp only
        rw [hsum, hskip, readExactCounted_gives hn hgives hbytes hc hrest]
        have htake := take_add (l := u.bytes) (i := c) (j := n - c)
        rw [show c + (n - c) = n by omega] at htake
        rw [htake]
        rfl
      · rw [htbytes]
        simp only [Source.skip, drop_drop]
        congr 1
        omega

variable {f : Frame} {bytes : List UInt8} {k : ℕ} {fs : List Frame}

theorem writeFrameTo_ok (hf : f.header.Fits) (hw : writeFrameTo config f = .ok bytes) :
    ∃ header, bytes = header ++ f.payload ∧ header.length = headerLen ∧
      decode header config.limits = .ok f.header ∧ ¬ f.header.payloadLength > hardMaxPayload := by
  unfold writeFrameTo at hw
  split_ifs at hw with hhard hlength
  split at hw
  · cases hw
  rename_i header hheader
  obtain ⟨hlen, hdecode⟩ := (encode_eq_ok_iff hf).mp hheader
  exact ⟨header, (Except.ok.inj hw).symm, hlen, hdecode, hhard⟩

theorem writeFrames_cons (hw : writeFrames config (f :: fs) = .ok bytes) :
    ∃ first rest, writeFrameTo config f = .ok first ∧ writeFrames config fs = .ok rest ∧
      bytes = first ++ rest := by
  rw [writeFrames] at hw
  cases hone : writeFrameTo config f with
  | error e => simp [hone] at hw
  | ok first =>
    cases hrest : writeFrames config fs with
    | error e => simp [hone, hrest, Except.map] at hw
    | ok rest =>
      simp only [hone, hrest, Except.map, Except.ok.injEq] at hw
      exact ⟨first, rest, rfl, rfl, hw.symm⟩

theorem readPayload_returns (hs : s.Regular) (hbytes : s.bytes = f.payload ++ rest) : ∃ t : Source,
      Returns (readPayload · f.header s) (.ok f, t) ∧ t.bytes = rest ∧ t.Regular := by
  obtain ⟨t, ⟨least, hread⟩, htbytes, ht⟩ := readExactCounted_returns hs f.header.payloadLength
  rw [hbytes, take_left' f.length_eq.symm] at hread
  rw [hbytes, drop_left' f.length_eq.symm] at htbytes
  refine ⟨t, ⟨least, fun m hm => ?_⟩, htbytes, ht⟩
  dsimp only at hread ⊢
  simp only [readPayload, hread m hm, dif_pos f.length_eq]

theorem readPayload_cut {header : Header} (hs : s.Regular)
    (hlt : s.bytes.length < header.payloadLength) : ∃ t, Returns (readPayload · header s)
      (.error (.truncatedPayload header.payloadLength s.bytes.length), t) := by
  obtain ⟨t, ⟨least, hread⟩, -, -⟩ := readExactCounted_returns hs header.payloadLength
  rw [take_of_length_le hlt.le] at hread
  refine ⟨t, least, fun m hm => ?_⟩
  dsimp only at hread ⊢
  simp only [readPayload, hread m hm, dif_neg hlt.ne']

theorem readFrameFrom_of_header {header rest : List UInt8} {h : Header} (hs : s.Regular)
    (hbytes : s.bytes = header ++ rest) (hlength : header.length = headerLen)
    (hdecode : decode header config.limits = .ok h)
    (hhard : ¬ h.payloadLength > hardMaxPayload) : ∃ t : Source, t.bytes = rest ∧ t.Regular ∧
      ∀ r, Returns (readPayload · h t) r → Returns (readFrameFrom config · s) r := by
  obtain ⟨t, ⟨least, hread⟩, htbytes, ht⟩ := readExactCounted_returns hs headerLen
  rw [hbytes, take_left' hlength] at hread
  rw [hbytes, drop_left' hlength] at htbytes
  refine ⟨t, htbytes, ht, ?_⟩
  rintro r ⟨least', hpayload⟩
  refine ⟨max least least', fun m hm => ?_⟩
  have hne : headerLen ≠ 0 := by decide
  dsimp only at hread hpayload ⊢
  simp only [readFrameFrom, hread m (le_of_max_le_left hm), hlength, hne, if_false, ne_eq,
    not_true_eq_false, hdecode, if_neg hhard, hpayload m (le_of_max_le_right hm)]

theorem readFrameFrom_returns (hs : s.Regular) (hf : f.header.Fits)
    (hw : writeFrameTo config f = .ok bytes) (hbytes : s.bytes = bytes ++ rest) :
    ∃ t : Source, Returns (readFrameFrom config · s) (.ok f, t) ∧ t.bytes = rest ∧ t.Regular := by
  obtain ⟨header, rfl, hlength, hdecode, hhard⟩ := writeFrameTo_ok hf hw
  rw [append_assoc] at hbytes
  obtain ⟨t, htbytes, ht, hreturns⟩ := readFrameFrom_of_header hs hbytes hlength hdecode hhard
  obtain ⟨u, hpayload, hubytes, hu⟩ := readPayload_returns ht htbytes
  exact ⟨u, hreturns _ hpayload, hubytes, hu⟩

/-- The error for a frame of which only the first `k` bytes come. -/
def cutError (f : Frame) (k : ℕ) : TransportError :=
  if k = 0 then .endOfStream
  else if k < headerLen then .truncatedHeader k
  else .truncatedPayload f.header.payloadLength (k - headerLen)

theorem readFrameFrom_cut (hs : s.Regular) (hf : f.header.Fits)
    (hw : writeFrameTo config f = .ok bytes) (hk : k < bytes.length)
    (hbytes : s.bytes = bytes.take k) :
    ∃ t, Returns (readFrameFrom config · s) (.error (cutError f k), t) := by
  obtain ⟨header, rfl, hlength, hdecode, hhard⟩ := writeFrameTo_ok hf hw
  unfold cutError
  by_cases hshort : k < headerLen
  · obtain ⟨t, ⟨least, hread⟩, -, -⟩ := readExactCounted_returns hs headerLen
    have hlen : s.bytes.length = k := by
      rw [hbytes, length_take]
      omega
    rw [take_of_length_le (hlen.le.trans hshort.le)] at hread
    refine ⟨t, least, fun m hm => ?_⟩
    dsimp only at hread ⊢
    simp only [readFrameFrom, hread m hm, hlen, hshort, if_true]
    split_ifs with hzero hwhole
    · rfl
    · rfl
    · exact absurd hshort.ne hwhole
  · have hbytes' : s.bytes = header ++ f.payload.take (k - headerLen) := by
      rw [hbytes, take_append, take_of_length_le (by omega), hlength]
    obtain ⟨t, htbytes, ht, hreturns⟩ := readFrameFrom_of_header hs hbytes' hlength hdecode hhard
    have hlen : t.bytes.length = k - headerLen := by
      rw [length_append, hlength] at hk
      rw [htbytes, length_take]
      omega
    have hlt : t.bytes.length < f.header.payloadLength := by
      rw [length_append, hlength] at hk
      rw [hlen, f.length_eq]
      omega
    obtain ⟨u, hpayload⟩ := readPayload_cut ht hlt
    rw [hlen] at hpayload
    have hzero : k ≠ 0 := by
      rintro rfl
      exact hshort (by decide)
    rw [if_neg hzero, if_neg hshort]
    exact ⟨u, hreturns _ hpayload⟩

/-- What is read from the first `k` bytes of some frames. -/
def cutAt : List Frame → ℕ → List Frame × TransportError
  | [], _ => ([], .endOfStream)
  | f :: fs, k =>
    if k < headerLen + f.payload.length then ([], cutError f k)
    else
      (f :: (cutAt fs (k - (headerLen + f.payload.length))).1,
        (cutAt fs (k - (headerLen + f.payload.length))).2)

theorem readFrames_returns (hs : s.Regular) (hfs : ∀ f ∈ fs, f.header.Fits)
    (hw : writeFrames config fs = .ok bytes) (hbytes : s.bytes = bytes.take k) :
    Returns (readFrames config · s) (cutAt fs k) := by
  induction fs generalizing s bytes k with
  | nil =>
    obtain rfl := Except.ok.inj hw
    obtain ⟨t, ⟨least, hread⟩, -, -⟩ := readExactCounted_returns hs headerLen
    rw [hbytes, take_nil, take_nil] at hread
    refine ⟨least + 1, fun m hm => ?_⟩
    obtain ⟨m, rfl⟩ := Nat.exists_eq_add_of_le' (Nat.le_of_add_left_le hm)
    dsimp only at hread ⊢
    simp only [readFrames, readFrameFrom, hread m (by omega)]
    rfl
  | cons f fs ih =>
    obtain ⟨first, rest, hone, hrest, rfl⟩ := writeFrames_cons hw
    have hf := hfs f mem_cons_self
    obtain ⟨header, hfirst, hlength, -, -⟩ := writeFrameTo_ok hf hone
    have hlen : first.length = headerLen + f.payload.length := by
      rw [hfirst, length_append, hlength]
    rw [cutAt, ← hlen]
    split_ifs with hk
    · rw [take_append_of_le_length hk.le] at hbytes
      obtain ⟨t, least, hread⟩ := readFrameFrom_cut hs hf hone hk hbytes
      refine ⟨least + 1, fun m hm => ?_⟩
      obtain ⟨m, rfl⟩ := Nat.exists_eq_add_of_le' (Nat.le_of_add_left_le hm)
      dsimp only at hread ⊢
      simp only [readFrames, hread m (by omega)]
    · rw [take_append, take_of_length_le (by omega)] at hbytes
      obtain ⟨t, ⟨least, hread⟩, htbytes, ht⟩ := readFrameFrom_returns hs hf hone hbytes
      obtain ⟨least', hothers⟩ := ih ht (fun g hg => hfs g (.tail _ hg)) hrest htbytes
      refine ⟨max least least' + 1, fun m hm => ?_⟩
      obtain ⟨m, rfl⟩ := Nat.exists_eq_add_of_le' (Nat.le_of_add_left_le hm)
      dsimp only at hread hothers ⊢
      simp only [readFrames, hread m (by omega), hothers m (by omega), Option.map_some]

def wireSize (fs : List Frame) : ℕ := (fs.map fun f => headerLen + f.payload.length).sum

@[simp] theorem wireSize_nil : wireSize [] = 0 := rfl

@[simp] theorem wireSize_cons (f : Frame) (fs : List Frame) :
    wireSize (f :: fs) = headerLen + f.payload.length + wireSize fs := by
  simp [wireSize]

theorem length_of_writeFrames (hfs : ∀ f ∈ fs, f.header.Fits)
    (hw : writeFrames config fs = .ok bytes) : bytes.length = wireSize fs := by
  induction fs generalizing bytes with
  | nil =>
    obtain rfl := Except.ok.inj hw
    rfl
  | cons f fs ih =>
    obtain ⟨first, rest, hone, hrest, rfl⟩ := writeFrames_cons hw
    obtain ⟨header, rfl, hlength, -, -⟩ := writeFrameTo_ok (hfs f mem_cons_self) hone
    rw [length_append, length_append, hlength, wireSize_cons,
      ih (fun g hg => hfs g (.tail _ hg)) hrest]

theorem cutAt_wireSize (fs : List Frame) : cutAt fs (wireSize fs) = (fs, .endOfStream) := by
  induction fs with
  | nil => rfl
  | cons f fs ih =>
    rw [cutAt, wireSize_cons, if_neg (by omega), Nat.add_sub_cancel_left, ih]

theorem cutAt_of_lt (hk : k < wireSize fs) : ∃ before f after,
    fs = before ++ f :: after ∧ wireSize before ≤ k ∧ k < wireSize (before ++ [f]) ∧
      cutAt fs k = (before, cutError f (k - wireSize before)) := by
  induction fs generalizing k with
  | nil => cases hk
  | cons f fs ih =>
    rw [cutAt]
    split_ifs with hfirst
    · exact ⟨[], f, fs, rfl, Nat.zero_le k, by simpa using hfirst, rfl⟩
    · rw [wireSize_cons] at hk
      obtain ⟨before, g, after, rfl, hle, hlt, hcut⟩ :=
        ih (k := k - (headerLen + f.payload.length)) (by omega)
      refine ⟨f :: before, g, after, rfl, ?_, ?_, ?_⟩
      · rw [wireSize_cons]
        omega
      · rw [cons_append, wireSize_cons]
        omega
      · rw [hcut, wireSize_cons, Nat.sub_sub]

/--
Headers and frames are encoded and decoded without loss in both directions. However a
stream comes, the frames written to it are read back and then its end; a stream that is cut
gives the frames before the cut and an error that tells where in a frame it was cut.
-/
theorem framing_is_bijective (config : TransportConfig) :
    (∀ h : Header, h.Fits → h.validate config.limits = .ok () → ∃ bytes,
      h.encode config.limits = .ok bytes ∧ bytes.length = 40 ∧
        Header.decode bytes config.limits = .ok h) ∧
    (∀ bytes h, bytes.length = 40 → Header.decode bytes config.limits = .ok h →
      h.Fits ∧ h.encode config.limits = .ok bytes) ∧
    (∀ bytes f, Frame.decode bytes config.limits = .ok f ↔
      f.header.Fits ∧ f.encode config.limits = .ok bytes) ∧
    ∀ fs bytes, (∀ f ∈ fs, f.header.Fits) → writeFrames config fs = .ok bytes →
      ∀ s : Source, s.Regular →
        (s.bytes = bytes → Returns (readFrames config · s) (fs, .endOfStream)) ∧
        ∀ k < bytes.length, s.bytes = bytes.take k → ∃ before f after,
          fs = before ++ f :: after ∧ wireSize before ≤ k ∧ k < wireSize (before ++ [f]) ∧
            Returns (readFrames config · s) (before, cutError f (k - wireSize before)) := by
  refine ⟨?_, ?_, fun _ _ => Frame.decode_ok_iff, ?_⟩
  · intro h hfits hvalid
    refine ⟨h.bytes (crc32c (h.bytes 0)), ?_, length_bytes h _,
      decode_bytes hfits (validate_eq_ok_iff.mp hvalid)⟩
    rw [encode, hvalid]
    rfl
  · intro bytes h hlength hdecode
    have hdecoded := decoded_of_decode hdecode
    exact ⟨hdecoded.fits, hdecoded.encode_eq hlength⟩
  · intro fs bytes hfs hw s hs
    have hlength := length_of_writeFrames hfs hw
    constructor
    · intro hbytes
      rw [← cutAt_wireSize]
      exact readFrames_returns hs hfs hw (by rw [← hlength, take_length, hbytes])
    · intro k hk hbytes
      obtain ⟨before, f, after, hsplit, hle, hlt, hcut⟩ := cutAt_of_lt (hlength ▸ hk)
      refine ⟨before, f, after, hsplit, hle, hlt, ?_⟩
      rw [← hcut]
      exact readFrames_returns hs hfs hw hbytes

end Reading

end KindleBridge.Tcp
