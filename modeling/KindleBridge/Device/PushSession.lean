import KindleBridge.Device.PushStore

/-! # Sessions of a push

A session begins or resumes a transfer, writes what arrives, and then either publishes the
file or retreats to the last frame that may be trusted. As a script it is what the writer
of the pipeline and the function around it do to the store.
-/

namespace KindleBridge.Device

open Schema Script FileSystem PushTransfer List

namespace PushTransfer

variable (store : SyncStore)

/-- Write the frames in turn, up to the first failure. Notes where the last one starts. -/
def writeFrames : PushTransfer → Option ℕ → List (List UInt8) →
    StoreM (PushTransfer × Option ℕ × Except StoreError Unit)
  | t, last, [] => return (t, last, .ok ())
  | t, last, payload :: rest => do
    let written ← t.writeChunkWithoutHash store payload
    match written.2 with
    | .ok _ => writeFrames written.1 (some t.metadata.nextOffset) rest
    | .error e => return (written.1, last, .error e)

/-- Make an interrupted push ready to be resumed. -/
def retreat (t : PushTransfer) (last : Option ℕ) : StoreM Unit :=
  match last with
  | some offset => t.rollbackForResume store offset
  | none => t.checkpoint store

end PushTransfer

def PushRequest.begin (store : SyncStore) (r : PushRequest) : StoreM PushTransfer :=
  store.beginPush r.allocated r.transferId r.remotePath r.totalSize r.fileHash

/-- A session, with the frames that reach the writer once the offset has been told. -/
structure PushSession where
  request : PushRequest
  /-- Whether the reply that tells the offset could be sent. -/
  ready : Bool
  payloads : ℕ → List (List UInt8)
  /-- Whether the stream has ended in order. -/
  ended : Bool

namespace PushSession

variable (store : SyncStore)

/-- How a session goes on when its frames have been written. -/
def conclude (x : PushSession) (digest : String) (t : PushTransfer) (last : Option ℕ)
    (result : Except StoreError Unit) : StoreM (Option SyncStatus) :=
  if result.isOk ∧ x.ended then do
    let status ← t.finishWithDigest store digest
    return some status
  else do
    t.retreat store last
    return none

/-- Serve a push that has begun. Returns the status that is reported to the host, if any. -/
def serve (x : PushSession) (t : PushTransfer) : StoreM (Option SyncStatus) :=
  if t.isComplete then
    if x.ended then do
      let status ← t.finish store
      return some status
    else return none
  else do
    let written ← t.writeFrames store none (x.payloads t.metadata.nextOffset)
    x.conclude store (store.hash (t.hasher ++ (x.payloads t.metadata.nextOffset).flatten))
      written.1 written.2.1 written.2.2

def script (x : PushSession) : StoreM (Option SyncStatus) := do
  let t ← x.request.begin store
  if x.ready then x.serve store t else return none

end PushSession

namespace SyncStore

variable {store : SyncStore} {r : PushRequest} {good : List UInt8 → Prop}
  {s u : FileSystem String} {t : PushTransfer} {bytes payload : List UInt8}
  {done : List (List UInt8)} {last : Option ℕ}

/-- The transfer tracks its staging file, and the staging directory is there. -/
structure AtWork (store : SyncStore) (r : PushRequest) (good : List UInt8 → Prop)
    (t : PushTransfer) (bytes : List UInt8) (s : FileSystem String) : Prop
    extends store.Tracks r good t bytes s where
  ready : store.Ready s

theorem AtWork.rely (h : store.AtWork r good t bytes s) (hr : store.Rely r.id s u) :
    store.AtWork r good t bytes u := ⟨h.toTracks.rely hr, hr.ready h.ready⟩

/-- What a session leaves behind if it has not published its file. -/
structure Rests (store : SyncStore) (r : PushRequest) (good : List UInt8 → Prop)
    (bytes : List UInt8) (s : FileSystem String) : Prop where
  ready : store.Ready s
  content : s.content (store.partPath r.id) = some bytes
  le : bytes.length ≤ r.totalSize
  good : good bytes
  recorded : ∃ m, s.content (store.metadataPath r.id) = some (store.encodeMetadata m) ∧
    r.Matches m ∧ m.state = .inProgress ∧ m.nextOffset = bytes.length

theorem Rests.rely (h : store.Rests r good bytes s) (hr : store.Rely r.id s u) :
    store.Rests r good bytes u := by
  obtain ⟨m, hm, hrest⟩ := h.recorded
  exact ⟨hr.ready h.ready, hr.content_part.trans h.content, h.le, h.good, m,
    hr.content_metadata.trans hm, hrest⟩

section
variable (h : store.AtWork r good t bytes s)
include h

theorem checkpoint_meets :
    (t.checkpoint store).Meets (store.terms r good) (fun res u => res = .ok () ∧
      store.AtWork r good t bytes u ∧
      u.content (store.metadataPath r.id) = some (store.encodeMetadata t.metadata)) s := by
  obtain ⟨i, hfile, -⟩ := h.file
  unfold checkpoint
  rw [hfile]
  refine meets_look rfl fun s₁ h₁ => ?_
  have h' := h.rely h₁
  refine (writeMetadata_meets h'.ready h'.matched (fun _ => h'.staged) (by simp [h'.state])).mono ?_
  rintro res u ⟨hres, hready, hrec, hkeeps⟩
  exact ⟨hres, ⟨h'.toTracks.keeps hkeeps, hready⟩, hrec⟩

theorem checkpointIfDue_meets : (t.checkpointIfDue store).Meets (store.terms r good) (fun res u =>
      ∃ t', res = .ok (t', .ok ()) ∧ store.AtWork r good t' bytes u ∧ t'.hasher = t.hasher) s := by
  unfold checkpointIfDue
  split_ifs with hdue
  · refine (checkpoint_meets h).attempt_bind ?_
    rintro res u ⟨hres, hu, -⟩
    rw [hres]
    have hu' : store.AtWork r good { t with
        nextCheckpoint := saturatingAdd t.metadata.nextOffset checkpointInterval } bytes u :=
      ⟨⟨hu.matched, hu.state, hu.offset, hu.le, hu.good, hu.file⟩, hu.ready⟩
    exact fun v hv => ⟨_, rfl, hu'.rely hv, rfl⟩
  · exact fun u hu => ⟨t, rfl, h.rely hu, rfl⟩

theorem AtWork.rests
    (hrec : s.content (store.metadataPath r.id) = some (store.encodeMetadata t.metadata)) :
    store.Rests r good bytes s :=
  ⟨h.ready, h.content, h.le, h.good, _, hrec, h.matched, h.state, h.offset⟩

theorem shorten_meets {i n : ℕ} (hfile : t.file = some ⟨i, bytes.length⟩) (hn : n ≤ bytes.length)
    (hgood : good (bytes.take n)) :
    (do
      transfer (.setLen i n)
      transfer (.sync i)
      store.writeMetadata { t.metadata with nextOffset := n } : StoreM Unit).Meets
        (store.terms r good) (fun res u => res = .ok () ∧
          store.Rests r good (bytes.take n) u) s := by
  have hlen : (bytes.take n).length = n := length_take_of_le hn
  refine meets_call_bind fun s₁ h₁ => ?_
  have hw := h.rely h₁
  obtain ⟨j, hfile', hj, hdata⟩ := hw.file
  obtain rfl : i = j := by simpa [hfile] using hfile'
  refine ⟨.cuts hj (by rwa [hdata]), ?_⟩
  dsimp only [FsOp.serve]
  rw [hdata, takeD_eq_take _ hn]
  refine meets_look rfl fun s₂ h₂ => ?_
  have hrw : Rewrites (· = store.partPath r.id) s₁ (s₁.setData i (bytes.take n)) :=
    rewrites_setData hj
  have hready : store.Ready s₂ := h₂.ready (hw.ready.of_rewrites hrw (own_ne_stage (own_part r.id)))
  have hcontent : s₂.content (store.partPath r.id) = some (bytes.take n) :=
    h₂.content_part.trans (content_eq_some.mpr ⟨i, hj, by simp⟩)
  have hle : (bytes.take n).length ≤ r.totalSize := hlen.trans_le (hn.trans h.le)
  refine (writeMetadata_meets hready (h.matched.with_offset n)
    (fun _ => ⟨_, hcontent, hle, hgood⟩) (by simp [h.state])).mono ?_
  rintro res u ⟨hres, hu, hrec, hkeeps⟩
  exact ⟨hres, hu, (hkeeps.content rfl).trans hcontent, hle, hgood, _, hrec,
    h.matched.with_offset n, h.state, hlen.symm⟩

theorem rollback_meets {n : ℕ} (hn : n ≤ bytes.length) (hgood : good (bytes.take n)) :
    (t.rollbackForResume store n).Meets (store.terms r good) (fun res u => res = .ok () ∧
      store.Rests r good (bytes.take n) u) s := by
  obtain ⟨i, hfile, -⟩ := h.file
  unfold rollbackForResume
  rw [if_neg (by rw [h.offset]; omega), hfile]
  exact shorten_meets h hfile hn hgood

theorem discard_meets {i : ℕ} (hfile : t.file = some ⟨i, bytes.length⟩) (hgood : good []) :
    (t.discard store ⟨i, bytes.length⟩).Meets (store.terms r good) (fun res u =>
      res = .error .checksumMismatch ∧ store.Rests r good [] u) s := by
  refine (shorten_meets h hfile (Nat.zero_le _) (by simpa using hgood)).bind ?_ ?_
  · rintro _ u ⟨-, hu⟩ v hv
    exact ⟨rfl, hu.rely hv⟩
  · rintro e u ⟨he, -⟩
    cases he

theorem writeChunk_meets
    (hgood : (bytes ++ payload).length ≤ r.totalSize → good (bytes ++ payload)) :
    (t.writeChunkWithoutHash store payload).Meets (store.terms r good) (fun res u =>
      (∃ t', res = .ok (t', .ok ()) ∧ store.AtWork r good t' (bytes ++ payload) u ∧
        t'.hasher = t.hasher) ∨ ∃ e, res = .ok (t, .error e) ∧ store.AtWork r good t bytes u ∧
        min r.totalSize maxU64 < (bytes ++ payload).length) s := by
  obtain ⟨i, hfile, -⟩ := h.file
  have hlen : t.metadata.nextOffset + payload.length = (bytes ++ payload).length := by
    rw [h.offset, length_append]
  unfold writeChunkWithoutHash
  rw [hlen, hfile, h.matched.totalSize]
  split_ifs with hmax hsize
  · exact fun u hu => .inr ⟨_, rfl, h.rely hu, by omega⟩
  · exact fun u hu => .inr ⟨_, rfl, h.rely hu, by omega⟩
  have hfits : (bytes ++ payload).length ≤ r.totalSize := Nat.le_of_not_lt hsize
  refine meets_call_bind fun s₁ h₁ => ?_
  have hw := h.rely h₁
  obtain ⟨j, hfile', hj, hdata⟩ := hw.file
  obtain rfl : i = j := by
    rw [hfile] at hfile'
    simpa using hfile'
  have happends : store.Quiet r good ⟨.transfer, .write i bytes.length payload⟩ s₁ := by
    rw [← hdata] at hfits hgood ⊢
    exact .appends hj hfits (hgood hfits)
  refine ⟨happends, ?_⟩
  dsimp only [FsOp.serve]
  rw [hdata, overwrite_length]
  have hadvanced : store.AtWork r good (t.advanced ⟨i, bytes.length⟩ payload) (bytes ++ payload)
      (s₁.setData i (bytes ++ payload)) :=
    ⟨⟨hw.matched.with_offset _, hw.state, hlen, hfits, hgood hfits, i,
      by simp [advanced], hj, by simp⟩,
      hw.ready.of_rewrites (rewrites_setData hj) (own_ne_stage (own_part r.id))⟩
  refine (checkpointIfDue_meets hadvanced).mono fun res u hu => .inl ?_
  exact hu

end

/-- Where the last of the frames starts that have been written from the offset on. -/
def lastStart (offset : ℕ) (last : Option ℕ) (done : List (List UInt8)) : Option ℕ :=
  if done = [] then last else some (offset + done.dropLast.flatten.length)

theorem lastStart_cons {offset : ℕ} (done : List (List UInt8)) :
    lastStart (offset + payload.length) (some offset) done = lastStart offset last (payload :: done) := by
  cases done with
  | nil => simp [lastStart]
  | cons q done => simp [lastStart, Nat.add_assoc]

theorem writeFrames_meets {payloads : List (List UInt8)} (h : store.AtWork r good t bytes s)
    (hgood : ∀ n, (bytes ++ (payloads.take n).flatten).length ≤ r.totalSize →
      good (bytes ++ (payloads.take n).flatten)) :
    (t.writeFrames store last payloads).Meets (store.terms r good) (fun res u =>
      ∃ t' done rest result, res = .ok (t', lastStart bytes.length last done, result) ∧
        payloads = done ++ rest ∧ store.AtWork r good t' (bytes ++ done.flatten) u ∧
        t'.hasher = t.hasher ∧ (result = .ok () ∧ rest = [] ∨
          result ≠ .ok () ∧ min r.totalSize maxU64 < (bytes ++ payloads.flatten).length)) s := by
  induction payloads generalizing s t bytes last with
  | nil => exact fun u hu => ⟨t, [], [], .ok (), rfl, rfl, by simpa using h.rely hu, rfl, .inl ⟨rfl, rfl⟩⟩
  | cons payload payloads ih =>
    rw [writeFrames]
    refine (writeChunk_meets h (by simpa using hgood 1)).bind ?_ ?_
    · rintro _ u (⟨t', hres, hu, hhasher⟩ | ⟨e, hres, hu, hlarge⟩)
      · obtain rfl := Except.ok.inj hres
        dsimp only
        rw [h.offset]
        refine (ih hu fun n hn => ?_).mono ?_
        · simpa using hgood (n + 1) (by simpa using hn)
        · rintro res v ⟨t'', done, rest, result, hres, hsplit, hv, hh, hor⟩
          refine ⟨t'', payload :: done, rest, result, ?_, by simp [hsplit], by simpa using hv,
            hh.trans hhasher, by simpa using hor⟩
          rw [hres, length_append, lastStart_cons]
      · obtain rfl := Except.ok.inj hres
        refine fun v hv => ⟨t, [], payload :: payloads, .error e, rfl, rfl, by simpa using hu.rely hv,
          rfl, .inr ⟨by simp, ?_⟩⟩
        simp only [flatten_cons, length_append] at hlarge ⊢
        omega
    · rintro e u (⟨t', hres, -⟩ | ⟨e', hres, -⟩) <;> cases hres

theorem take_before_last :
    (bytes ++ done.flatten).take (bytes.length + done.dropLast.flatten.length) =
      bytes ++ done.dropLast.flatten := by
  rcases eq_nil_or_concat done with rfl | ⟨front, last, rfl⟩
  · simp
  · simp [take_append]

theorem retreat_meets (h : store.AtWork r good t (bytes ++ done.flatten) s)
    (hgood : good (bytes ++ done.dropLast.flatten)) :
    (t.retreat store (lastStart bytes.length none done)).Meets (store.terms r good)
      (fun res u => res = .ok () ∧ store.Rests r good (bytes ++ done.dropLast.flatten) u) s := by
  unfold lastStart
  split_ifs with hdone
  · subst hdone
    refine (checkpoint_meets h).mono ?_
    rintro res u ⟨hres, hu, hrec⟩
    exact ⟨hres, hu.rests hrec⟩
  · have hshort : done.dropLast.flatten.length ≤ done.flatten.length := by
      rcases eq_nil_or_concat done with rfl | ⟨front, last, rfl⟩ <;> simp
    rw [← take_before_last] at hgood ⊢
    exact rollback_meets h (by simpa using hshort) hgood

end SyncStore

end KindleBridge.Device
