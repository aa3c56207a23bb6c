import KindleBridge.Bundle.Verify

/-! # Rotation of the publisher's key

An envelope may carry proofs that one key hands over to the next. The loop over them keeps
the last key, the last digest, the last release and the keys seen; it accepts exactly the
chains that lead to the key of the publisher.
-/

namespace KindleBridge.Bundle.Format

open List

structure RotationProofSignedData where
  schema : ℕ
  appId : String
  channel : String
  fromAlgorithm : ℕ
  fromPublicKey : List UInt8
  toAlgorithm : ℕ
  toPublicKey : List UInt8
  validFromRelease : ℕ
  previousProofDigest : Digest
  flags : ℕ
deriving DecidableEq

structure RotationProof where
  signed : RotationProofSignedData
  signature : List UInt8
deriving DecidableEq

/-- What the check of the rotation reads of an envelope. -/
structure RotationEnvelope where
  id : String
  channel : String
  release : ℕ
  publicKey : List UInt8
  rotation : List RotationProof

/-- The libraries: the encoding, the hash, and the signatures with their keys. -/
structure RotationLibrary (κ σ : Type) where
  toCanonicalVec : RotationProofSignedData → Except Error (List UInt8)
  hash : List UInt8 → Digest
  keyFromBytes : List UInt8 → Except String κ
  signatureFromSlice : List UInt8 → Except String σ
  verify : κ → List UInt8 → σ → Except String Unit

structure RotationState where
  previousProofDigest : Option Digest
  previousToKey : Option (List UInt8)
  previousRelease : ℕ
  seenKeys : List (List UInt8)

def publisherError {α : Type} (message : String) : Except Error α := .error ⟨.publisher, message⟩

def RotationProof.HasFields (envelope : RotationEnvelope) (proof : RotationProof) : Prop :=
  proof.signed.schema = 1 ∧ proof.signed.appId = envelope.id ∧
    proof.signed.channel = envelope.channel ∧ proof.signed.fromAlgorithm = 1 ∧
    proof.signed.toAlgorithm = 1 ∧ proof.signed.fromPublicKey.length = 32 ∧
    proof.signed.toPublicKey.length = 32 ∧ proof.signed.flags = 0 ∧ proof.signature.length = 64

instance (envelope : RotationEnvelope) (proof : RotationProof) :
    Decidable (proof.HasFields envelope) := inferInstanceAs (Decidable (_ ∧ _))

def validateRotationFields (proof : RotationProof) (envelope : RotationEnvelope) :
    Except Error Unit :=
  if ¬ proof.HasFields envelope then publisherError "rotation proof fields violate KBB v1"
  else .ok ()

def asciiBytes (text : String) : List UInt8 := text.toList.map fun c => c.toNat.toUInt8

namespace RotationLibrary
variable {κ σ : Type} (lib : RotationLibrary κ σ)

def rotationProofDigest (proof : RotationProof) : Except Error Digest := do
  let signed ← lib.toCanonicalVec proof.signed
  return lib.hash (asciiBytes "KBB-ROTATION-PROOF-V1\x00" ++ signed ++ proof.signature)

def verifySignature (proof : RotationProof) : Except Error Unit := do
  let key ← context (lib.keyFromBytes proof.signed.fromPublicKey) .publisher
    "invalid rotation Ed25519 key"
  let signed ← lib.toCanonicalVec proof.signed
  let signature ← context (lib.signatureFromSlice proof.signature) .signature
    "invalid rotation signature encoding"
  context (lib.verify key (asciiBytes "KBB-ROTATION-V1\x00" ++ signed) signature) .signature
    "rotation signature verification failed"

/-- The keys that the next one must differ from, if the proof continues the chain. -/
def comparedKeys (index : ℕ) (s : RotationState) (proof : RotationProof) :
    Except Error (List (List UInt8)) :=
  if index = 0 then .ok (proof.signed.fromPublicKey :: s.seenKeys)
  else if s.previousToKey ≠ some proof.signed.fromPublicKey ∨
      s.previousProofDigest ≠ some proof.signed.previousProofDigest then
    publisherError "rotation proof chain is discontinuous"
  else .ok s.seenKeys

def verifyProof (envelope : RotationEnvelope) (index : ℕ) (s : RotationState)
    (proof : RotationProof) : Except Error RotationState := do
  validateRotationFields proof envelope
  let seenKeys ← comparedKeys index s proof
  if proof.signed.validFromRelease ≤ s.previousRelease ∨
      proof.signed.validFromRelease > envelope.release ∨ proof.signed.toPublicKey ∈ seenKeys then
    publisherError "rotation release order or key lineage is invalid"
  else do
    lib.verifySignature proof
    let digest ← lib.rotationProofDigest proof
    return ⟨some digest, some proof.signed.toPublicKey, proof.signed.validFromRelease,
      proof.signed.toPublicKey :: seenKeys⟩

def verifyLoop (envelope : RotationEnvelope) : ℕ → RotationState → List RotationProof →
    Except Error RotationState
  | _, s, [] => .ok s
  | index, s, proof :: rest => do
    let s ← lib.verifyProof envelope index s proof
    verifyLoop envelope (index + 1) s rest

def verifyRotation (envelope : RotationEnvelope) : Except Error Unit := do
  let s ← lib.verifyLoop envelope 0 ⟨none, none, 0, []⟩ envelope.rotation
  match s.previousToKey with
  | some terminalKey =>
    if terminalKey ≠ envelope.publicKey then
      publisherError "rotation terminal key is not the bundle publisher"
    else pure ()
  | none => pure ()

/-! ## Chains of proofs -/

def Signed (proof : RotationProof) : Prop :=
  ∃ key signed signature, lib.keyFromBytes proof.signed.fromPublicKey = .ok key ∧
    lib.toCanonicalVec proof.signed = .ok signed ∧
    lib.signatureFromSlice proof.signature = .ok signature ∧
    lib.verify key (asciiBytes "KBB-ROTATION-V1\x00" ++ signed) signature = .ok ()

structure Proper (envelope : RotationEnvelope) (proof : RotationProof) : Prop where
  fields : proof.HasFields envelope
  signed : lib.Signed proof
  release : 1 ≤ proof.signed.validFromRelease ∧ proof.signed.validFromRelease ≤ envelope.release

/-- The second proof continues the first. -/
structure Follows (p q : RotationProof) : Prop where
  key : q.signed.fromPublicKey = p.signed.toPublicKey
  digest : lib.rotationProofDigest p = .ok q.signed.previousProofDigest
  release : p.signed.validFromRelease < q.signed.validFromRelease

end RotationLibrary

/-- The keys along a chain: the one that hands over first, and those that take over. -/
def chainKeys : List RotationProof → List (List UInt8)
  | [] => []
  | p :: rest => p.signed.fromPublicKey :: (p :: rest).map (·.signed.toPublicKey)

namespace RotationLibrary
variable {κ σ : Type} (lib : RotationLibrary κ σ)

structure IsRotation (envelope : RotationEnvelope) : Prop where
  proper : ∀ p ∈ envelope.rotation, lib.Proper envelope p
  chain : envelope.rotation.IsChain lib.Follows
  distinct : (chainKeys envelope.rotation).Nodup
  terminal : ∀ p ∈ envelope.rotation.getLast?, p.signed.toPublicKey = envelope.publicKey

variable {lib} {envelope : RotationEnvelope} {p q : RotationProof} {s s' : RotationState}
  {keys : List (List UInt8)}

theorem context_eq_ok {α : Type} {r : Except String α} {code : ErrorCode} {message : String}
    {a : α} : context r code message = .ok a ↔ r = .ok a := by
  cases r <;> simp [context, Except.mapError]

theorem ite_error_eq_ok {α : Type} {c : Prop} [Decidable c] {e : Error} {r : Except Error α}
    {a : α} : (if c then .error e else r) = .ok a ↔ ¬ c ∧ r = .ok a := by
  split_ifs with h <;> simp [h]

theorem verifySignature_ok_iff : lib.verifySignature p = .ok () ↔ lib.Signed p := by
  simp only [verifySignature, Signed, bind_eq_ok, context_eq_ok, exists_and_left]

theorem validateRotationFields_ok_iff :
    validateRotationFields q envelope = .ok () ↔ q.HasFields envelope := by
  simp [validateRotationFields, publisherError]

theorem comparedKeys_succ {index : ℕ} :
    comparedKeys (index + 1) s q = .ok keys ↔ s.previousToKey = some q.signed.fromPublicKey ∧
        s.previousProofDigest = some q.signed.previousProofDigest ∧ s.seenKeys = keys := by
  simp [comparedKeys, publisherError, ite_error_eq_ok, and_assoc]

def after (q : RotationProof) (digest : Digest) (keys : List (List UInt8)) : RotationState :=
  ⟨some digest, some q.signed.toPublicKey, q.signed.validFromRelease,
    q.signed.toPublicKey :: keys⟩

theorem verifyProof_ok_iff {index : ℕ} : lib.verifyProof envelope index s q = .ok s' ↔
    q.HasFields envelope ∧ ∃ keys, comparedKeys index s q = .ok keys ∧
      (s.previousRelease < q.signed.validFromRelease ∧
        q.signed.validFromRelease ≤ envelope.release ∧ q.signed.toPublicKey ∉ keys) ∧
      lib.Signed q ∧ ∃ digest, lib.rotationProofDigest q = .ok digest ∧
        after q digest keys = s' := by
  simp only [verifyProof, bind_eq_ok, publisherError, ite_error_eq_ok, not_or, not_le, not_lt,
    gt_iff_lt, pure, Except.pure, Except.ok.injEq, after, Unique.exists_iff,
    PUnit.default_eq_unit, validateRotationFields_ok_iff, verifySignature_ok_iff]

theorem exists_digest (h : lib.Signed p) : ∃ digest, lib.rotationProofDigest p = .ok digest := by
  obtain ⟨_, signed, _, -, hsigned, -⟩ := h
  exact ⟨_, by rw [rotationProofDigest, hsigned]; rfl⟩

/--
The proofs that are still to come are accepted if they continue the chain behind the last one
with keys that have not been seen.
-/
theorem verifyLoop_iff {digest : Digest} (hdigest : lib.rotationProofDigest p = .ok digest)
    (hkeys : (p.signed.toPublicKey :: keys).Nodup) (index : ℕ)
    (rest : List RotationProof) (key : List UInt8) :
    (∃ s, lib.verifyLoop envelope (index + 1) (after p digest keys) rest = .ok s ∧
      ∀ terminalKey ∈ s.previousToKey, terminalKey = key) ↔
    (∀ q ∈ rest, lib.Proper envelope q) ∧ (p :: rest).IsChain lib.Follows ∧
      ((rest.map (·.signed.toPublicKey)).reverse ++ p.signed.toPublicKey :: keys).Nodup ∧
      ((p :: rest).getLast (by simp)).signed.toPublicKey = key := by
  induction rest generalizing p digest keys index with
  | nil => simp [verifyLoop, after, hkeys]
  | cons q rest ih =>
    rw [map_cons, reverse_cons, append_assoc, singleton_append,
      isChain_cons_cons, forall_mem_cons, getLast_cons_cons]
    constructor
    · rintro ⟨s, hs, hkey⟩
      obtain ⟨s₁, hproof, hloop⟩ := bind_eq_ok.mp hs
      obtain ⟨hfields, _, hcompared, ⟨hlt, hle, hnew⟩, hsigned, digest', hdigest', rfl⟩ :=
        verifyProof_ok_iff.mp hproof
      obtain ⟨hto, hprevious, rfl⟩ := comparedKeys_succ.mp hcompared
      obtain ⟨hproper, hchain, hnodup, hlast⟩ :=
        (ih hdigest' (nodup_cons.mpr ⟨hnew, hkeys⟩) (index + 1)).mp ⟨s, hloop, hkey⟩
      have hfollows : lib.Follows p q :=
        ⟨(Option.some.inj hto).symm, Option.some.inj hprevious ▸ hdigest, hlt⟩
      exact ⟨⟨⟨hfields, hsigned, Nat.one_le_of_lt hlt, hle⟩, hproper⟩, ⟨hfollows, hchain⟩,
        hnodup, hlast⟩
    · rintro ⟨⟨hq, hproper⟩, ⟨hfollows, hchain⟩, hnodup, hlast⟩
      obtain ⟨digest', hdigest'⟩ := exists_digest hq.signed
      have hseen := (nodup_append.mp hnodup).2.1
      obtain ⟨s, hloop, hkey⟩ := (ih hdigest' hseen (index + 1)).mpr ⟨hproper, hchain, hnodup, hlast⟩
      refine ⟨s, bind_eq_ok.mpr ⟨_, verifyProof_ok_iff.mpr ⟨hq.fields, _,
        comparedKeys_succ.mpr ⟨?_, ?_, rfl⟩, ⟨hfollows.release, hq.release.2,
        (nodup_cons.mp hseen).1⟩, hq.signed, digest', hdigest', rfl⟩, hloop⟩, hkey⟩
      · exact congrArg some hfollows.key.symm
      · exact congrArg some (Except.ok.inj (hdigest.symm.trans hfollows.digest))

theorem chainKeys_reverse (p : RotationProof) (rest : List RotationProof) :
    (chainKeys (p :: rest)).reverse = (rest.map (·.signed.toPublicKey)).reverse ++
      [p.signed.toPublicKey, p.signed.fromPublicKey] := by
  simp [chainKeys]

/-- A rotation is accepted if and only if its proofs form a chain to the publisher's key. -/
theorem verifyRotation_ok_iff (lib : RotationLibrary κ σ) (envelope : RotationEnvelope) :
    lib.verifyRotation envelope = .ok () ↔ lib.IsRotation envelope := by
  have hverify : lib.verifyRotation envelope = .ok () ↔
      ∃ s, lib.verifyLoop envelope 0 ⟨none, none, 0, []⟩ envelope.rotation = .ok s ∧
        ∀ terminalKey ∈ s.previousToKey, terminalKey = envelope.publicKey := by
    rw [verifyRotation, bind_eq_ok]
    refine exists_congr fun s => and_congr_right fun _ => ?_
    cases s.previousToKey with
    | none => simp [pure, Except.pure]
    | some terminalKey => simp [publisherError, pure, Except.pure, -ite_not]
  rw [hverify]
  cases hrotation : envelope.rotation with
  | nil =>
    refine iff_of_true ⟨_, rfl, by simp⟩ ⟨?_, ?_, ?_, ?_⟩ <;> simp [hrotation, chainKeys]
  | cons p rest =>
    constructor
    · rintro ⟨s, hs, hkey⟩
      obtain ⟨s₁, hproof, hloop⟩ := bind_eq_ok.mp hs
      obtain ⟨hfields, _, ⟨⟩, ⟨hlt, hle, hnew⟩, hsigned, digest, hdigest, rfl⟩ :=
        verifyProof_ok_iff.mp hproof
      obtain ⟨hproper, hchain, hnodup, hlast⟩ := (verifyLoop_iff hdigest
        (by simpa using hnew) 0 rest envelope.publicKey).mp ⟨s, hloop, hkey⟩
      refine ⟨?_, ?_, ?_, ?_⟩ <;> rw [hrotation]
      · exact forall_mem_cons.mpr ⟨⟨hfields, hsigned, hlt, hle⟩, hproper⟩
      · exact hchain
      · rw [← nodup_reverse, chainKeys_reverse]
        exact hnodup
      · simpa [getLast?_eq_some_getLast] using hlast
    · rintro ⟨hproper, hchain, hdistinct, hterminal⟩
      rw [hrotation] at hproper hchain hdistinct hterminal
      obtain ⟨hp, hproper⟩ := forall_mem_cons.mp hproper
      obtain ⟨digest, hdigest⟩ := exists_digest hp.signed
      rw [← nodup_reverse, chainKeys_reverse] at hdistinct
      have hseen := (nodup_append.mp hdistinct).2.1
      obtain ⟨s, hloop, hkey⟩ := (verifyLoop_iff hdigest hseen 0 rest envelope.publicKey).mpr
        ⟨hproper, hchain, hdistinct, by simpa [getLast?_eq_some_getLast] using hterminal⟩
      exact ⟨s, bind_eq_ok.mpr ⟨_, verifyProof_ok_iff.mpr ⟨hp.fields, _, rfl, ⟨hp.release.1,
        hp.release.2, (nodup_cons.mp hseen).1⟩, hp.signed, digest, hdigest, rfl⟩, hloop⟩, hkey⟩

end RotationLibrary
end KindleBridge.Bundle.Format
