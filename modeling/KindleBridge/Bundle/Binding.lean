import KindleBridge.Bundle.Verify

/-! # What the root of a bundle determines

The header names the digest of the envelope, the envelope names the digests and the places
of the blocks, and everything between the sections is zero. So the root and the signatures
determine every byte of an accepted bundle.
-/

namespace KindleBridge.Bundle.Format

open List Verifier Except Header

def ZeroOn (file : List UInt8) (start stop : ℕ) : Prop :=
  ∀ i, start ≤ i → i < stop → file[i]? = some 0

def AgreeOn (a b : List UInt8) (start stop : ℕ) : Prop :=
  ∀ i, start ≤ i → i < stop → a[i]? = b[i]?

variable {file a b s : List UInt8} {x y z : ℕ} {ds : List BlockDescriptor}

theorem ZeroOn.agree (ha : ZeroOn a x y) (hb : ZeroOn b x y) : AgreeOn a b x y :=
  fun i hx hy => (ha i hx hy).trans (hb i hx hy).symm

theorem AgreeOn.append (h : AgreeOn a b x y) (h' : AgreeOn a b y z) : AgreeOn a b x z := by
  intro i hx hz
  rcases lt_or_ge i y with hy | hy
  · exact h i hx hy
  · exact h' i hy hz

theorem agreeOn_of_slice (h : (a.drop x).take z = (b.drop x).take z) : AgreeOn a b x (x + z) := by
  intro i hx hz
  have hi := congrArg (fun l : List UInt8 => l[i - x]?) h
  simpa [List.getElem?_take, List.getElem?_drop, show i - x < z by omega,
    show x + (i - x) = i by omega] using hi

theorem readExact_ok (h : readExact file x y = .ok s) :
    s = (file.drop x).take y ∧ s.length = y := by
  unfold readExact at h
  split at h
  · obtain rfl := ok.inj h
    refine ⟨rfl, ?_⟩
    simp only [length_take, length_drop]
    omega
  · cases h

theorem readSection_ok {usizeMax : ℕ} (h : readSection usizeMax file x y = .ok s) :
    s = (file.drop x).take y ∧ s.length = y := by
  unfold readSection at h
  split at h
  · cases h
  · exact readExact_ok (Op.mapError_eq_ok_iff.mp h)

theorem zeroOn_of_checkZeroLoop {fuel : ℕ} (hfuel : y ≤ fuel)
    (h : checkZeroLoop file fuel x y = .ok ()) : ZeroOn file x (x + y) := by
  induction fuel generalizing x y with
  | zero =>
    intro i hx hy
    omega
  | succ fuel ih =>
    rw [checkZeroLoop] at h
    split at h
    · intro i hx hy
      omega
    · simp only [unless_eq_ok, bind_eq_ok, not_exists, not_and, not_not] at h
      obtain ⟨buffer, hread, hzero, hrest⟩ := h
      obtain ⟨hslice, hlength⟩ := readExact_ok (Op.mapError_eq_ok_iff.mp hread)
      have hrest := ih (by omega) hrest
      intro i hx hy
      rcases lt_or_ge i (x + min y 4096) with hi | hi
      · have hmem : i - x < buffer.length := by omega
        have hbyte := hzero buffer[i - x] (getElem_mem hmem)
        have hget : buffer[i - x]? = file[i]? := by
          rw [hslice, List.getElem?_take, if_pos (by omega), List.getElem?_drop]
          congr 1
          omega
        rw [← hget, List.getElem?_eq_getElem hmem, hbyte]
      · exact hrest i hi (by omega)

theorem checkZeroRange_ok (h : checkZeroRange file x y = .ok ()) : x ≤ y ∧ ZeroOn file x y := by
  unfold checkZeroRange at h
  split at h
  · cases h
  · have hle : x ≤ y := by omega
    refine ⟨hle, ?_⟩
    have hzero := zeroOn_of_checkZeroLoop le_rfl h
    rwa [Nat.add_sub_cancel' hle] at hzero

theorem checkedAdd_ok {m : String} (h : checkedAdd x y m = .ok z) : z = x + y := by
  unfold checkedAdd at h
  split at h
  · exact (ok.inj h).symm
  · cases h

theorem align8_ok (h : align8 x = .ok y) : y = (x + 7) / 8 * 8 := by
  obtain ⟨r, hr, hy⟩ := bind_eq_ok.mp h
  rw [← ok.inj hy, checkedAdd_ok hr]

/-- Blocks lie one after the other, each at the next multiple of eight. -/
inductive Laid : ℕ → List BlockDescriptor → ℕ → Prop
  | nil (stop : ℕ) : Laid stop [] stop
  | cons {start stop : ℕ} {d : BlockDescriptor} {ds : List BlockDescriptor} :
      d.payloadOffset = (start + 7) / 8 * 8 → Laid (d.payloadOffset + d.storedSize) ds stop →
      Laid start (d :: ds) stop

theorem laid_of_validateBlocksLoop {previous : Option BlockRef}
    (h : validateBlocksLoop previous x ds = .ok y) : Laid x ds y := by
  induction ds generalizing previous x with
  | nil =>
    obtain rfl := ok.inj h
    exact .nil x
  | cons d ds ih =>
    rw [validateBlocksLoop] at h
    simp only [unless_eq_ok, bind_eq_ok, not_not] at h
    obtain ⟨-, -, -, -, offset, halign, hoffset, stop, hstop, hrest⟩ := h
    have hrest := ih hrest
    rw [checkedAdd_ok hstop, ← hoffset] at hrest
    exact .cons (hoffset.trans (align8_ok halign)) hrest

/-- The blocks and the zeros around them make up the payload. -/
structure Layout (file : List UInt8) (header : Header) (blocks : List BlockDescriptor) :
    Prop where
  aligned : ∀ d ∈ blocks, d.payloadOffset % 8 = 0
  inside : ∀ d ∈ blocks, d.payloadOffset + d.storedSize ≤ header.payloadLength
  disjoint : blocks.Pairwise fun d d' => d.payloadOffset + d.storedSize ≤ d'.payloadOffset
  padding : ∀ i < header.payloadLength,
    (∃ d ∈ blocks, d.payloadOffset ≤ i ∧ i < d.payloadOffset + d.storedSize) ∨
      file[header.payloadOffset + i]? = some 0
  total : file.length = header.payloadOffset + header.payloadLength

theorem Laid.le (h : Laid x ds y) : x ≤ y := by
  induction h with
  | nil stop => exact le_rfl
  | cons hoffset _ ih => omega

theorem Laid.mem (h : Laid x ds y) : ∀ d ∈ ds, d.payloadOffset % 8 = 0 ∧ x ≤ d.payloadOffset ∧
      d.payloadOffset + d.storedSize ≤ y := by
  induction h with
  | nil stop => simp
  | @cons start stop d ds hoffset hrest ih =>
    intro d' hd'
    rcases mem_cons.mp hd' with rfl | hd'
    · have := hrest.le
      omega
    · obtain ⟨haligned, hstart, hstop⟩ := ih d' hd'
      refine ⟨haligned, ?_, hstop⟩
      omega

theorem Laid.pairwise (h : Laid x ds y) :
    ds.Pairwise fun d d' => d.payloadOffset + d.storedSize ≤ d'.payloadOffset := by
  induction h with
  | nil stop => exact .nil
  | cons hoffset hrest ih => exact .cons (fun d' hd' => (hrest.mem d' hd').2.1) ih

/-! ## Accepted bundles -/

section

variable {ρ σ ο : Type} {v : Verifier ρ σ ο} {p e : ℕ}
  {d : BlockDescriptor} {r : Inspection ρ σ}

def slice (file : List UInt8) (offset length : ℕ) : List UInt8 := (file.drop offset).take length

theorem readRawBlock_ok (h : v.readRawBlock file p d = .ok s) :
    v.digestOf (slice file (p + d.payloadOffset) d.storedSize) = d.storedDigest := by
  simp only [readRawBlock, unless_eq_ok, bind_eq_ok, not_not] at h
  obtain ⟨offset, hoffset, stored, hstored, hdigest, -⟩ := h
  rw [← hdigest, (readSection_ok hstored).1, checkedAdd_ok hoffset, slice]

theorem verifyBlocks_cons (h : v.verifyBlocks file p x (d :: ds) = .ok e) :
    ZeroOn file (p + x) (p + d.payloadOffset) ∧
      v.digestOf (slice file (p + d.payloadOffset) d.storedSize) = d.storedDigest ∧
      v.verifyBlocks file p (d.payloadOffset + d.storedSize) ds = .ok e := by
  rw [verifyBlocks] at h
  simp only [unless_eq_ok, bind_eq_ok] at h
  obtain ⟨⟨⟩, hzero, raw, hraw, -, hrest⟩ := h
  exact ⟨(checkZeroRange_ok hzero).2, readRawBlock_ok hraw, hrest⟩

theorem Laid.verifyBlocks_eq (hl : Laid x ds y) (h : v.verifyBlocks file p x ds = .ok e) :
    e = y := by
  induction hl with
  | nil stop => exact (ok.inj h).symm
  | cons _ _ ih => exact ih (verifyBlocks_cons h).2.2

/-- Two files whose blocks have the same digests agree on the blocks and between them. -/
theorem Laid.agree (hl : Laid x ds y) (ha : v.verifyBlocks a p x ds = .ok y)
    (hb : v.verifyBlocks b p x ds = .ok y)
    (hinj : ∀ d ∈ ds, v.digestOf (slice a (p + d.payloadOffset) d.storedSize) =
        v.digestOf (slice b (p + d.payloadOffset) d.storedSize) →
      slice a (p + d.payloadOffset) d.storedSize = slice b (p + d.payloadOffset) d.storedSize) :
    AgreeOn a b (p + x) (p + y) := by
  induction hl with
  | nil stop =>
    intro i hx hy
    omega
  | @cons start stop d ds hoffset _ ih =>
    obtain ⟨hzeroA, hdigestA, hrestA⟩ := verifyBlocks_cons ha
    obtain ⟨hzeroB, hdigestB, hrestB⟩ := verifyBlocks_cons hb
    have hslice := hinj d mem_cons_self (hdigestA.trans hdigestB.symm)
    have hstored := agreeOn_of_slice hslice
    rw [Nat.add_assoc] at hstored
    refine ((hzeroA.agree hzeroB).append hstored).append ?_
    exact ih hrestA hrestB fun d' hd' => hinj d' (mem_cons_of_mem d hd')

theorem Laid.covers (hl : Laid x ds y) (h : v.verifyBlocks file p x ds = .ok y) :
    ∀ i, x ≤ i → i < y → (∃ d ∈ ds, d.payloadOffset ≤ i ∧ i < d.payloadOffset + d.storedSize) ∨
        file[p + i]? = some 0 := by
  induction hl with
  | nil stop =>
    intro i hx hy
    omega
  | @cons start stop d ds hoffset _ ih =>
    obtain ⟨hzero, -, hrest⟩ := verifyBlocks_cons h
    intro i hx hy
    rcases lt_or_ge i d.payloadOffset with hi | hi
    · exact .inr (hzero (p + i) (by omega) (by omega))
    · rcases lt_or_ge i (d.payloadOffset + d.storedSize) with hend | hend
      · exact .inl ⟨d, mem_cons_self, hi, hend⟩
      · rcases ih hrest i hend hy with ⟨d', hd', hin⟩ | hz
        · exact .inl ⟨d', mem_cons_of_mem d hd', hin⟩
        · exact .inr hz

theorem checkLayout_ok {h : Header} (hl : h.checkLayout x = .ok ()) :
    h.signatureOffset = (headerSize + h.envelopeLength + 7) / 8 * 8 ∧
      h.payloadOffset = (h.signatureOffset + h.signatureLength + 7) / 8 * 8 ∧
      x = h.payloadOffset + h.payloadLength := by
  simp only [checkLayout, bind_eq_ok] at hl
  obtain ⟨e₁, h₁, s₁, h₂, e₂, h₃, s₂, h₄, e₃, h₅, hl⟩ := hl
  split at hl
  · cases hl
  · rename_i hsame
    simp only [not_or, not_not] at hsame
    rw [hsame.1, hsame.2.1, hsame.2.2, align8_ok h₂, align8_ok h₄, checkedAdd_ok h₁,
      checkedAdd_ok h₃, checkedAdd_ok h₅]
    simp only [hsame.1, hsame.2.1, align8_ok h₂, align8_ok h₄, checkedAdd_ok h₁, checkedAdd_ok h₃]
    trivial

/-- What is known about an accepted bundle. -/
structure Accepted (v : Verifier ρ σ ο) (file : List UInt8) (r : Inspection ρ σ) : Prop where
  header : ∃ bytes : HeaderBytes, bytes.1 = slice file 0 headerSize ∧
    Header.decode bytes file.length = .ok r.header
  envelope : v.digestOf (slice file headerSize r.header.envelopeLength) = r.header.bundleRoot
  contents : Cbor.fromCanonicalSlice v.envelopeToValue v.envelopeFromSlice v.usizeMax
    (slice file headerSize r.header.envelopeLength) = .ok r.envelope
  envelope_length :
    (slice file headerSize r.header.envelopeLength).length = r.header.envelopeLength
  signature_length :
    (slice file r.header.signatureOffset r.header.signatureLength).length =
      r.header.signatureLength
  afterEnvelope :
    ZeroOn file (headerSize + r.header.envelopeLength) r.header.signatureOffset
  afterSignatures :
    ZeroOn file (r.header.signatureOffset + r.header.signatureLength) r.header.payloadOffset
  blocks : ∃ stop, Laid 0 r.envelope.blocks stop ∧
    r.header.payloadLength = (stop + 7) / 8 * 8 ∧
    v.verifyBlocks file r.header.payloadOffset 0 r.envelope.blocks = .ok stop ∧
    ZeroOn file (r.header.payloadOffset + stop) (r.header.payloadOffset + r.header.payloadLength)

theorem readHeader_ok {bytes : HeaderBytes} (h : readHeader file = .ok bytes) :
    bytes.1 = slice file 0 headerSize := by
  unfold readHeader at h
  split at h
  · cases h
  · rename_i l hl
    obtain rfl := ok.inj h
    exact (readExact_ok hl).1

theorem validateBlocks_ok {envelope : Envelope ρ} {header : Header}
    (h : validateBlocks envelope header = .ok ()) :
    ∃ stop, Laid 0 envelope.blocks stop ∧ header.payloadLength = (stop + 7) / 8 * 8 := by
  simp only [validateBlocks, unless_eq_ok, bind_eq_ok] at h
  obtain ⟨-, stop, hloop, h⟩ := h
  have hlaid := laid_of_validateBlocksLoop hloop
  refine ⟨stop, hlaid, ?_⟩
  split at h
  · rename_i hnone
    rw [hnone] at hlaid
    cases hlaid
    obtain ⟨length, hlength, h⟩ := bind_eq_ok.mp h
    rw [unless_eq_ok, not_not] at h
    exact h.1.trans (ok.inj hlength).symm
  · obtain ⟨length, hlength, h⟩ := bind_eq_ok.mp h
    rw [unless_eq_ok, not_not] at h
    exact h.1.trans (align8_ok hlength)

theorem accepted_of_verify {options : ο}
    (h : v.verify file options = .ok r) : Accepted v file r := by
  simp only [verify, inspect, validateMetadata, verifyPayload,
    unless_eq_ok, bind_eq_ok, not_not] at h
  obtain ⟨_, ⟨bytes, hbytes, header, hheader, env, henv, hroot, ⟨⟩, hzero₁, sig, hsig, ⟨⟩, hzero₂,
    envelope, henvelope, signatures, -, ⟨⟩, ⟨⟨⟩, -, ⟨⟩, hblocks, -⟩, hinspection⟩, ⟨⟩, -, ⟨⟩,
    ⟨stop, hverify, ⟨⟩, hzero₃, -⟩, hr⟩ := h
  obtain rfl := ok.inj hinspection
  obtain rfl := ok.inj hr
  obtain ⟨rfl, henvLength⟩ := readSection_ok henv
  obtain ⟨rfl, hsigLength⟩ := readSection_ok hsig
  obtain ⟨stop', hlaid, hpayload⟩ := validateBlocks_ok hblocks
  obtain rfl := hlaid.verifyBlocks_eq hverify
  exact ⟨⟨bytes, readHeader_ok hbytes, hheader⟩, hroot, henvelope, henvLength, hsigLength,
    (checkZeroRange_ok hzero₁).2, (checkZeroRange_ok hzero₂).2,
    _, hlaid, hpayload, hverify, (checkZeroRange_ok hzero₃).2⟩

theorem Accepted.layout (h : Accepted v file r) : Layout file r.header r.envelope.blocks := by
  obtain ⟨stop, hlaid, hpayload, hverify, hzero⟩ := h.blocks
  obtain ⟨bytes, -, hdecode⟩ := h.header
  obtain ⟨-, -, htotal⟩ := checkLayout_ok (decodes_of_decode hdecode).layout
  refine ⟨fun d hd => (hlaid.mem d hd).1, fun d hd => ?_, hlaid.pairwise, fun i hi => ?_, htotal⟩
  · have hstop := (hlaid.mem d hd).2.2
    omega
  · rcases lt_or_ge i stop with hs | hs
    · exact hlaid.covers hverify i (Nat.zero_le i) hs
    · exact .inr (hzero _ (by omega) (by omega))

/-- The byte strings of a bundle whose digests the verifier compares with stored ones. -/
def digested (file : List UInt8) (r : Inspection ρ σ) : List (List UInt8) :=
  slice file headerSize r.header.envelopeLength ::
    r.envelope.blocks.map fun d =>
      slice file (r.header.payloadOffset + d.payloadOffset) d.storedSize

section

variable {r' : Inspection ρ σ} (ha : Accepted v a r) (hb : Accepted v b r')
  (hinj : ∀ s ∈ digested a r, ∀ t ∈ digested b r', v.digestOf s = v.digestOf t → s = t)
  (hroot : r.header.bundleRoot = r'.header.bundleRoot)
  (hsig : slice a r.header.signatureOffset r.header.signatureLength =
    slice b r'.header.signatureOffset r'.header.signatureLength)

include ha hb hinj hroot

theorem Accepted.envelope_slice_eq : slice a headerSize r.header.envelopeLength =
    slice b headerSize r'.header.envelopeLength :=
  hinj _ mem_cons_self _ mem_cons_self (ha.envelope.trans (hroot.trans hb.envelope.symm))

theorem Accepted.envelope_eq : r.envelope = r'.envelope := by
  have hcontents := ha.contents
  rw [ha.envelope_slice_eq hb hinj hroot, hb.contents] at hcontents
  exact (ok.inj hcontents).symm

include hsig

theorem Accepted.header_eq : r.header = r'.header := by
  have henvelope : r.header.envelopeLength = r'.header.envelopeLength := by
    rw [← ha.envelope_length, ← hb.envelope_length, ha.envelope_slice_eq hb hinj hroot]
  have hsignature : r.header.signatureLength = r'.header.signatureLength := by
    rw [← ha.signature_length, ← hb.signature_length, hsig]
  obtain ⟨bytes, -, hdecode⟩ := ha.header
  obtain ⟨bytes', -, hdecode'⟩ := hb.header
  obtain ⟨hoffset, hpayload, -⟩ := checkLayout_ok (decodes_of_decode hdecode).layout
  obtain ⟨hoffset', hpayload', -⟩ := checkLayout_ok (decodes_of_decode hdecode').layout
  obtain ⟨stop, hlaid, hlength, hverify, -⟩ := ha.blocks
  obtain ⟨stop', hlaid', hlength', -⟩ := hb.blocks
  rw [← ha.envelope_eq hb hinj hroot] at hlaid'
  have hstop : stop = stop' := hlaid'.verifyBlocks_eq hverify
  rcases hr : r.header with ⟨⟩
  rcases hr' : r'.header with ⟨⟩
  simp only [hr, hr'] at *
  subst henvelope hsignature hstop hroot
  simp only [Header.mk.injEq, true_and, and_true]
  omega

theorem Accepted.file_eq : a = b := by
  have hheader := ha.header_eq hb hinj hroot hsig
  have henvelope := ha.envelope_eq hb hinj hroot
  have hslice := ha.envelope_slice_eq hb hinj hroot
  obtain ⟨bytes, hbytes, hdecode⟩ := ha.header
  obtain ⟨bytes', hbytes', hdecode'⟩ := hb.header
  have hfirst : slice a 0 headerSize = slice b 0 headerSize := by
    rw [← hbytes, ← hbytes', ← (decodes_of_decode hdecode).encode_eq,
      ← (decodes_of_decode hdecode').encode_eq, hheader]
  obtain ⟨stop, hlaid, -, hverify, hzero⟩ := ha.blocks
  obtain ⟨stop', hlaid', -, hverify', hzero'⟩ := hb.blocks
  have hafter := hb.afterEnvelope
  have hafter' := hb.afterSignatures
  have htotal' := hb.layout.total
  rw [← hheader] at hslice hsig hverify' hzero' hafter hafter' htotal'
  rw [← henvelope] at hlaid' hverify'
  obtain rfl := hlaid'.verifyBlocks_eq hverify
  have hblocks := hlaid.agree hverify hverify' fun d hd =>
    hinj _ (mem_cons_of_mem _ (mem_map_of_mem hd)) _
      (by rw [digested, ← hheader, ← henvelope]
          exact mem_cons_of_mem _ (mem_map_of_mem hd))
  have hagree : AgreeOn a b 0 (r.header.payloadOffset + r.header.payloadLength) :=
    (agreeOn_of_slice hfirst |>.append <| by
      rw [Nat.zero_add]
      exact agreeOn_of_slice hslice).append (ha.afterEnvelope.agree hafter) |>.append
        (agreeOn_of_slice hsig) |>.append (ha.afterSignatures.agree hafter') |>.append hblocks
        |>.append (hzero.agree hzero')
  apply ext_getElem?
  intro i
  rcases lt_or_ge i (r.header.payloadOffset + r.header.payloadLength) with hi | hi
  · exact hagree i (Nat.zero_le i) hi
  · rw [List.getElem?_eq_none (ha.layout.total ▸ hi), List.getElem?_eq_none (htotal' ▸ hi)]

end

/--
Two accepted bundles with the same root and the same signature section are the same bytes,
unless two of the sections whose digests are compared collide. The blocks are aligned,
disjoint and padded with zeros, and the header is the encoding of its fields.
-/
theorem bundle_not_malleable (v : Verifier ρ σ ο) (options options' : ο) (a b : List UInt8)
    (r r' : Inspection ρ σ) (ha : v.verify a options = .ok r) (hb : v.verify b options' = .ok r')
    (hinj : ∀ s ∈ digested a r, ∀ t ∈ digested b r', v.digestOf s = v.digestOf t → s = t)
    (hroot : r.header.bundleRoot = r'.header.bundleRoot)
    (hsig : slice a r.header.signatureOffset r.header.signatureLength =
      slice b r'.header.signatureOffset r'.header.signatureLength) :
    a = b ∧ Layout a r.header r.envelope.blocks ∧ slice a 0 headerSize = r.header.encode.1 ∧
      Header.decode r.header.encode a.length = .ok r.header := by
  have haccepted := accepted_of_verify ha
  obtain ⟨bytes, hbytes, hdecode⟩ := haccepted.header
  have hencode := (decodes_of_decode hdecode).encode_eq
  refine ⟨haccepted.file_eq (accepted_of_verify hb) hinj hroot hsig, haccepted.layout, ?_, ?_⟩
  · rw [hencode, hbytes]
  · rw [hencode, hdecode]

end

/-! ### A bundle with one block -/

/-- The first bytes stand for the digest, and every section decodes to the same envelope. -/
def sampleVerifier : Verifier Unit Unit Unit where
  usizeMax := 2 ^ 64 - 1
  digestOf bytes := ⟨(bytes ++ List.replicate 32 0).take 32, by simp⟩
  envelopeFromSlice _ := .ok
    { blocks := [⟨⟨7 :: List.replicate 31 0, rfl⟩, 1, 0, 1, ⟨7 :: List.replicate 31 0, rfl⟩, 0⟩]
      entries := [⟨.regular, some ⟨7 :: List.replicate 31 0, rfl⟩,
        some [(⟨7 :: List.replicate 31 0, rfl⟩, 1)]⟩]
      rest := () }
  envelopeToValue _ := .ok .null
  signaturesFromSlice _ := .ok ()
  signaturesToValue _ := .ok .null
  findFrameCompressedSize _ := .error "no frame"
  getFrameContentSize _ := .error "no frame"
  getDictId _ := none
  decompress _ _ := .error "no frame"
  validateFirst _ _ := .ok ()
  validateLast _ _ := .ok ()
  checkOptions _ _ _ _ := .ok ()

def sampleHeader : Header := ⟨1, 136, 1, 144, 8, sampleVerifier.digestOf [0xf6]⟩

def sampleFile : List UInt8 :=
  sampleHeader.encode.1 ++ (0xf6 :: List.replicate 7 0) ++ (0xf6 :: List.replicate 7 0) ++
    (7 :: List.replicate 7 0)

theorem bundle_not_malleable_sample :
    ∃ r, sampleVerifier.verify sampleFile () = .ok r ∧ r.envelope.blocks.length = 1 ∧
      Layout sampleFile r.header r.envelope.blocks := by
  obtain ⟨r, hr, hblocks, hdigested⟩ : ∃ r, sampleVerifier.verify sampleFile () = .ok r ∧
      r.envelope.blocks.length = 1 ∧ digested sampleFile r = [[0xf6], [7]] :=
    ⟨⟨sampleHeader, ⟨[⟨⟨7 :: replicate 31 0, rfl⟩, 1, 0, 1,
        ⟨7 :: replicate 31 0, rfl⟩, 0⟩],
      [⟨.regular, some ⟨7 :: replicate 31 0, rfl⟩,
        some [(⟨7 :: replicate 31 0, rfl⟩, 1)]⟩], ()⟩, (), 152⟩,
      by decide +kernel, rfl, by decide +kernel⟩
  refine ⟨r, hr, hblocks, ?_⟩
  have hinj : ∀ s ∈ digested sampleFile r, ∀ t ∈ digested sampleFile r,
      sampleVerifier.digestOf s = sampleVerifier.digestOf t → s = t := by
    rw [hdigested]
    decide +kernel
  exact (bundle_not_malleable sampleVerifier () () sampleFile sampleFile r r hr hr hinj rfl rfl).2.1

end KindleBridge.Bundle.Format
