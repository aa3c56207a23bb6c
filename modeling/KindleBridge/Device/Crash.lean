import KindleBridge.Device.Interleaving

/-! # Crashes during a push

A crash cuts a session after any of its calls. The transfer can be resumed afterwards,
unless the crash falls between the rename of the file and that of the metadata which say
that it is complete.
-/

namespace KindleBridge.Device

open Schema Script FileSystem StoreCall PushSessions List SyncStore

namespace PushRequest

def resumed (r : PushRequest) : PushRequest := { r with transferId := some r.id }

theorem matches_resumed_iff {r : PushRequest} {m : TransferMetadata} :
    r.resumed.Matches m ↔ r.Matches m := by
  constructor
  all_goals
    rintro ⟨hversion, hid, hdirection, hpath, hsize, hhash⟩
    exact ⟨hversion, hid, hdirection, hpath, hsize, hhash⟩

end PushRequest

/-- The frames carry the bytes of the content behind the offset that was told. -/
def PushSession.Carries (x : PushSession) (content : List UInt8) : Prop :=
  ∀ offset, (x.payloads offset).flatten <+: content.drop offset

namespace SyncStore

variable (store : SyncStore) (r : PushRequest)

/-- The call that publishes the file, and the one that puts new metadata in place. -/
def publishCall : StoreCall := ⟨.target, .rename (store.partPath r.id) (store.finalPath r)⟩
def recordCall : StoreCall :=
  ⟨.transfer, .rename (store.temporaryPath r.id) (store.metadataPath r.id)⟩

/-- The file has been published, and no metadata have been put in place since. -/
def Torn (calls : List (StoreCall × FileSystem String)) : Prop :=
  ∃ before s after, calls = before ++ (store.publishCall r, s) :: after ∧
    (s.rename (store.partPath r.id) (store.finalPath r)).1 = .ok () ∧
    ∀ c ∈ after, c.1 ≠ store.recordCall r

variable {store r} {good : List UInt8 → Prop} {s t : FileSystem String} {call : StoreCall}
  {calls : List (StoreCall × FileSystem String)} {bytes : List UInt8} {x : PushTransfer}

theorem Torn.append (h : store.Torn r calls) (hcall : call ≠ store.recordCall r) :
    store.Torn r (calls ++ [(call, s)]) := by
  obtain ⟨before, s', after, rfl, hok, hafter⟩ := h
  exact ⟨before, s', after ++ [(call, s)], by simp, hok,
    forall_mem_append.mpr ⟨hafter, forall_mem_singleton.mpr hcall⟩⟩

theorem Held.rely (h : store.Held r good s) (hr : store.Rely r.id s t) : store.Held r good t := by
  obtain ⟨m, hm, hmatch, hor⟩ := h
  exact ⟨m, hr.recorded hm, hmatch, hor.imp_right hr.staged⟩

theorem Held.of_rewrites {P : List String → Prop} (h : store.Held r good s) (hrw : Rewrites P s t)
    (hmeta : ¬ P (store.metadataPath r.id))
    (hpart : store.Staged r good s → store.Staged r good t) : store.Held r good t := by
  obtain ⟨m, ⟨bytes, hb, hrest⟩, hmatch, hor⟩ := h
  exact ⟨m, ⟨bytes, (hrw.keeps.content hmeta).trans hb, hrest⟩, hmatch, hor.imp_right hpart⟩

theorem Held.of_rewrites_temporary (h : store.Held r good s)
    (hrw : Rewrites (· = store.temporaryPath r.id) s t) : store.Held r good t :=
  h.of_rewrites hrw metadataPath_ne_temporaryPath
    (staged_of_keeps (keeps_part_of_rewrites hrw partPath_ne_temporaryPath))

theorem Faithful.of_resumed (h : store.Faithful r) : store.Faithful r.resumed :=
  fun m hm => h m (PushRequest.matches_resumed_iff.mp hm)

theorem Opened.of_resumed
    (h : store.Opened r good x bytes s) : store.Opened r.resumed good x bytes s :=
  ⟨⟨PushRequest.matches_resumed_iff.mpr h.tracks.matched, h.tracks.state, h.tracks.offset,
    h.tracks.le, h.tracks.good, h.tracks.file⟩, h.hasher, h.ready, h.recorded⟩

theorem Opened.held (h : store.Opened r good x bytes s)
    (hf : store.Faithful r) : store.Held r good s :=
  ⟨_, ⟨_, h.recorded, hf _ h.tracks.matched, h.tracks.matched.version, h.tracks.matched.transferId⟩,
    h.tracks.matched, .inr h.tracks.staged⟩

theorem Held.of_setData {i : ℕ} (h : store.Held r good s)
    (hi : s.node (store.partPath r.id) = some (.file i))
    (hnew : (s.data i).length ≤ r.totalSize → good (s.data i) →
      bytes.length ≤ r.totalSize ∧ good bytes) : store.Held r good (s.setData i bytes) := by
  refine h.of_rewrites (rewrites_setData hi) partPath_ne_metadataPath.symm ?_
  rintro ⟨old, hold, hlen, hgood⟩
  rw [content_of_file hi, Option.some_inj] at hold
  obtain ⟨hlen', hgood'⟩ := hnew (hold ▸ hlen) (hold ▸ hgood)
  exact ⟨bytes, content_eq_some.mpr ⟨i, hi, by simp⟩, hlen', hgood'⟩

theorem record_serve (hc : store.Clean s)
    (htmp : s.content (store.temporaryPath r.id) = some bytes) :
    ((store.recordCall r).serve s).2.content (store.metadataPath r.id) = some bytes ∧
      Keeps (· = store.partPath r.id) s ((store.recordCall r).serve s).2 := by
  obtain ⟨i, hi, hdata⟩ := content_eq_some.mp htmp
  have hready : store.Ready s := ⟨hc, s.node_parent (c := r.id ++ ".json.tmp") (by
    rw [← temporaryPath, hi]
    simp)⟩
  obtain ⟨t, hrename, hnode, hdata', hrw⟩ := hready.rename (own_metadata r.id)
    metadataPath_ne_temporaryPath.symm hi
  have hserve : ((store.recordCall r).serve s).2 = t := by
    change (s.rename _ _).2 = t
    rw [hrename]
  rw [hserve]
  exact ⟨content_eq_some.mpr ⟨i, hnode, by rw [hdata', hdata]⟩,
    keeps_part_of_rewrites hrw (by simp)⟩

theorem held_of_records {m : TransferMetadata} (hf : store.Faithful r) (hm : r.Matches m)
    (hc : store.Clean s)
    (htmp : s.content (store.temporaryPath r.id) = some (store.encodeMetadata m))
    (hpart : m.state = .inProgress → store.Staged r good s) :
    store.Held r good ((store.recordCall r).serve s).2 := by
  obtain ⟨hcontent, hkeeps⟩ := record_serve hc htmp
  refine ⟨m, ⟨_, hcontent, hf m hm, hm.version, hm.transferId⟩, hm, ?_⟩
  by_cases hstate : m.state = .complete
  · exact .inl hstate
  · exact .inr (staged_of_keeps hkeeps (hpart (state_ne_complete hstate)))

theorem Quiet.held (h : store.Quiet r good call s) (hf : store.Faithful r)
    (hclosed : ∀ bytes n, good bytes → good (bytes.take n)) (hid : r.transferId ≠ none)
    (hc : store.Clean s) (hs : store.Held r good s) : store.Held r good (call.serve s).2 := by
  cases h with
  | looks hl =>
    rw [show (call.serve s).2 = s from FsOp.serve_of_looks hl s]
    exact hs
  | lays hp => exact hs.rely (rely_createDir (fun q hq _ => hc.way (hq.trans hp)) (.inl hp))
  | enters hp hw => exact hs.rely (rely_createDir hw (.inr hp))
  | drafts =>
    change store.Held r good (s.create (store.temporaryPath r.id)).2
    rcases create_cases (p := store.temporaryPath r.id) hc.way_child hc.not_isLink with
      ⟨e, he⟩ | ⟨i, hi, he⟩ | ⟨h, he⟩
    · rwa [he]
    · rw [he]
      exact hs.of_rewrites_temporary (rewrites_setData hi)
    · rw [he]
      exact hs.of_rewrites_temporary (rewrites_addFile (h := h))
  | fills hi => exact hs.of_rewrites_temporary (rewrites_setData hi)
  | records hm htmp hpart _ => exact held_of_records hf hm hc htmp hpart
  | opens hnone => exact absurd hnone hid
  | appends hi hlen hgood =>
    change store.Held r good (s.setData _ (overwrite _ _ _))
    rw [overwrite_length]
    exact hs.of_setData hi fun _ _ => ⟨hlen, hgood⟩
  | cuts hi hlen =>
    change store.Held r good (s.setData _ (takeD _ _ _))
    rw [takeD_eq_take _ hlen]
    refine hs.of_setData hi fun hle hgood => ⟨?_, hclosed _ _ hgood⟩
    exact (length_take_le' _ _).trans hle

theorem Does.held (h : store.Does r good call s) (hf : store.Faithful r)
    (hclosed : ∀ bytes n, good bytes → good (bytes.take n)) (hid : r.transferId ≠ none)
    (hs : store.Clean s ∧ (store.Torn r calls ∨ store.Held r good s)) :
    store.Clean (call.serve s).2 ∧
      (store.Torn r (calls ++ [(call, s)]) ∨ store.Held r good (call.serve s).2) := by
  obtain ⟨hc, hor⟩ := hs
  refine ⟨clean_of_does h hc, ?_⟩
  rcases h with hquiet | hpublishes
  · rcases hor with htorn | hheld
    · by_cases hcall : call = store.recordCall r
      · cases hquiet with
        | records hm htmp hpart _ => exact .inr (held_of_records hf hm hc htmp hpart)
        | looks hl =>
          rw [hcall] at hl
          cases hl
        | _ => simp [recordCall] at hcall
      · exact .inl (htorn.append hcall)
    · exact .inr (hquiet.held hf hclosed hid hc hheld)
  · obtain rfl : call = store.publishCall r := hpublishes.1
    rcases hpublishes.rename with ⟨e, he⟩ | ⟨t, ht, -⟩
    · have hserve : ((store.publishCall r).serve s).2 = s := by
        change (s.rename _ _).2 = s
        rw [he]
      rw [hserve]
      exact hor.imp_left fun htorn => htorn.append (by simp [publishCall, recordCall])
    · exact .inl ⟨calls, s, [], rfl, by rw [ht], by simp⟩

theorem wellFormed_of_begin (h : (r.begin store).run StoreCall.serve s = (.ok x, t)) :
    (∃ path, LogicalSyncPath.parse store.nfc r.remotePath = .ok path) ∧ store.isDigest r.fileHash := by
  unfold PushRequest.begin beginPush parseHash at h
  rcases parsePath_cases store r.remotePath with ⟨path, hparse, -, hp⟩ | ⟨e, hp, -⟩
  · rw [hp, pure_bind_eq] at h
    split_ifs at h with hdigest
    · exact ⟨⟨path, hparse⟩, hdigest⟩
    · simp at h
  · rw [hp] at h
    simp at h

end SyncStore

/-- A session and the number of calls after which the device crashes. -/
structure Attempt where
  session : PushSession
  calls : ℕ

namespace Attempt

variable (store : SyncStore) (r : PushRequest) (content : List UInt8)

def step (s : FileSystem String) (a : Attempt) : FileSystem String :=
  (a.session.script store).cut StoreCall.serve a.calls s

/--
The session resumes the transfer and receives bytes of the content, and the crash does not
fall between the publication and the metadata that follow it.
-/
structure Whole (s : FileSystem String) (a : Attempt) : Prop where
  request : a.session.request = r.resumed
  carries : a.session.Carries content
  whole : ¬ store.Torn r (((a.session.script store).calls StoreCall.serve s).take a.calls)

variable {store r content} {s t : FileSystem String} {x : PushSession} {bytes : List UInt8}

theorem sends_of_carries (h : x.Carries content) (hb : bytes <+: content) :
    SyncStore.Sends x (· <+: content) bytes := by
  intro n _
  obtain ⟨rest, rfl⟩ := hb
  rw [prefix_append_right_inj]
  have hcarries := h bytes.length
  rw [drop_left] at hcarries
  refine List.IsPrefix.trans ?_ hcarries
  exact ⟨((x.payloads bytes.length).drop n).flatten, by rw [← flatten_append, take_append_drop]⟩

theorem take_closed (bytes : List UInt8) (n : ℕ) (h : bytes <+: content) :
    bytes.take n <+: content := ( take_prefix n bytes).trans h

theorem held_of_cut {α : Type} {m : StoreM α} {post : Except StoreError α → FileSystem String → Prop}
    (hf : store.Faithful r) (hm : m.Meets (store.sessionTerms r.resumed (· <+: content)) post s)
    (hc : store.Clean s) (hs : store.Held r.resumed (· <+: content) s) {n : ℕ}
    (hwhole : ¬ store.Torn r ((m.calls StoreCall.serve s).take n)) :
    store.Clean (m.cut StoreCall.serve n s) ∧
      store.Held r.resumed (· <+: content) (m.cut StoreCall.serve n s) := by
  let P (calls : List (StoreCall × FileSystem String)) (u : FileSystem String) : Prop :=
    store.Clean u ∧ (store.Torn r.resumed calls ∨ store.Held r.resumed (· <+: content) u)
  have hcut : P ([] ++ (m.calls StoreCall.serve s).take n) (m.cut StoreCall.serve n s) :=
    hm.cut (P := P) ⟨hc, .inr hs⟩
      (fun _ _ _ hu hdoes => hdoes.held hf.of_resumed take_closed (by simp [PushRequest.resumed]) hu) n
  exact ⟨hcut.1, hcut.2.resolve_left hwhole⟩

theorem inherits_good (hs : store.Held r.resumed (· <+: content) s)
    (hb : store.Inherits r.resumed bytes s) : bytes <+: content := by
  rcases hb with ⟨hnone, -⟩ | ⟨-, hb, -, m, hrec, -, hstate⟩
  · simp [PushRequest.resumed] at hnone
  · obtain ⟨m', hrec', -, hor⟩ := hs
    obtain rfl := hrec.inj hrec'
    rcases hor with hcomplete | ⟨bytes', hb', -, hgood⟩
    · simp [hstate] at hcomplete
    · obtain rfl := Option.some.inj (hb.symm.trans hb')
      exact hgood

theorem held_step (hf : store.Faithful r) (ho : r.Outside) {a : Attempt}
    (ha : a.Whole store r content s) (hs : store.Clean s ∧ store.Held r.resumed (· <+: content) s) :
    store.Clean (step store s a) ∧ store.Held r.resumed (· <+: content) (step store s a) := by
  obtain ⟨hrequest, hcarries, hwhole⟩ := ha
  have hgood : ∀ bytes, store.Inherits a.session.request bytes s → bytes <+: content :=
    fun bytes hb => inherits_good hs.2 (hrequest ▸ hb)
  have hmeets : (a.session.script store).Meets
      (store.sessionTerms a.session.request (· <+: content))
      (fun res u => SyncStore.Ended store a.session (· <+: content) s u res) s :=
    script_meets (hrequest ▸ ho) hs.1 nil_prefix hgood
      fun bytes hb => sends_of_carries hcarries (hgood bytes hb)
  rw [hrequest] at hmeets
  exact held_of_cut hf hmeets hs.1 hs.2 hwhole

/-- The transfer is complete, or it goes on behind a prefix of the content. -/
def GoesOn (store : SyncStore) (r : PushRequest) (content : List UInt8) (x : PushTransfer)
    (s : FileSystem String) : Prop :=
  x.isComplete ∨ ∃ bytes, bytes <+: content ∧ s.content (store.partPath r.id) = some bytes ∧
    x.metadata.nextOffset = bytes.length

theorem begin_of_held (hc : store.Clean s) (hs : store.Resumable r.resumed (· <+: content) s) :
    ∃ x u, (r.resumed.begin store).run StoreCall.serve s = (.ok x, u) ∧
      GoesOn store r content x u := by
  have hrun := (beginPush_meets (r := r.resumed) hc fun bytes hb => inherits_good hs.held hb).run
  rcases hrun with ⟨x, hres, hbegun⟩ | ⟨e, -, -, hnot⟩
  · refine ⟨x, _, Prod.ext hres rfl, ?_⟩
    cases hbegun with
    | complete _ _ _ _ hstate => exact .inl (by simp [PushTransfer.isComplete, hstate])
    | opened hopened hinherits =>
      exact .inr ⟨_, hopened.tracks.good, hopened.tracks.content, hopened.tracks.offset⟩
  · exact absurd hs (hnot rfl)

/--
Once a transfer has been reported as ready, its session and any number of later ones may be
cut by crashes. As long as none of them is torn, the transfer begins again.
-/
theorem resumes_after_crashes {x : PushSession} {transfer : PushTransfer}
    {s₀ s₁ : FileSystem String} (hf : store.Faithful x.request) (ho : x.request.Outside)
    (hvalid : isValidTransferId x.request.id) (hc : store.Clean s₀)
    (hstart : ∀ bytes, store.Inherits x.request bytes s₀ → bytes <+: content)
    (hready : (x.request.begin store).run StoreCall.serve s₀ = (.ok transfer, s₁))
    (hcarries : x.Carries content) {n : ℕ}
    (hwhole : ¬ store.Torn x.request (((x.serve store transfer).calls StoreCall.serve s₁).take n))
    {later : List Attempt}
    (hlater : Along (step store) (fun s a => a.Whole store x.request content s)
      ((x.serve store transfer).cut StoreCall.serve n s₁) later) :
    ∃ y u, (x.request.resumed.begin store).run StoreCall.serve
      (later.foldl (step store) ((x.serve store transfer).cut StoreCall.serve n s₁)) = (.ok y, u) ∧
        GoesOn store x.request content y u := by
  obtain ⟨hparses, hdigest⟩ := wellFormed_of_begin hready
  have hheld : store.Clean ((x.serve store transfer).cut StoreCall.serve n s₁) ∧
      store.Held x.request.resumed (· <+: content)
        ((x.serve store transfer).cut StoreCall.serve n s₁) := by
    -- What is left of the first session is that of a session which resumes the transfer.
    have hbegun := (beginPush_meets hc hstart).run
    have hrun : (store.beginPush x.request.allocated x.request.transferId x.request.remotePath
        x.request.totalSize x.request.fileHash).run
          (store.terms x.request (· <+: content)).serve s₀ = (.ok transfer, s₁) := hready
    rw [hrun] at hbegun
    rcases hbegun with ⟨_, hres, hbegun⟩ | ⟨e, he, -⟩
    swap
    · cases he
    obtain rfl := Except.ok.inj hres
    let y : PushSession := { x with request := x.request.resumed }
    cases hbegun with
    | complete _ ht hrec hmatch hstate =>
      have hm : y.request.Matches _ := PushRequest.matches_resumed_iff.mpr hmatch
      exact held_of_cut hf (serve_complete_meets (x := y) (ht.clean hc) hm hstate)
        (ht.clean hc) ⟨_, ht.recorded hrec, hm, .inl hstate⟩ hwhole
    | opened hopened hinherits =>
      have hopened' := hopened.of_resumed
      have hsends := sends_of_carries (x := y) hcarries hopened.tracks.good
      have hempty : (fun bytes : List UInt8 => bytes <+: content) [] := nil_prefix
      have hmeets := serve_meets (x := y) ho hempty hsends hopened'
      exact held_of_cut hf hmeets hopened.ready.toClean (hopened'.held hf.of_resumed) hwhole
  obtain ⟨hc', hh⟩ := hlater.foldl hheld fun s a hs ha => held_step hf ho ha hs
  exact begin_of_held hc' ⟨hparses, hdigest, hvalid, hh⟩

def wholePush : PushSession :=
  ⟨fresh, true, fun offset => [[65, 66].drop offset], true⟩

theorem wholePush_carries : wholePush.Carries [65, 66] := by
  intro offset
  simp [wholePush]

theorem faithful_sample : (sampleStore [fresh]).Faithful fresh := by
  rintro ⟨version, id, direction, path, size, hash, offset, state⟩ ⟨h1, h2, h3, h4, h5, h6⟩
  dsimp only at h1 h2 h3 h4 h5 h6
  subst h1 h2 h3 h4 h5 h6
  cases state <;> simp [sampleStore, fresh, PushRequest.id]

theorem not_torn_of_forall {calls : List (StoreCall × FileSystem String)}
    (h : ∀ c ∈ calls, c.1 ≠ store.publishCall r) : ¬ store.Torn r calls := by
  rintro ⟨before, s, after, rfl, -⟩
  exact h (store.publishCall r, s) (by simp) rfl

/-- The transfer when the session has begun. -/
def begunPush : PushTransfer :=
  ⟨⟨1, "t", .push, "f", 2, "AB", 0, .inProgress⟩, some ⟨1, 0⟩, [], 2⟩

/-- What is there when the session has begun. -/
def begunTree : FileSystem String :=
  ((fresh.begin (sampleStore [fresh])).run StoreCall.serve .empty).2

/-- A second session resumes the transfer and is cut, too. -/
def secondAttempt : Attempt := ⟨{ wholePush with request := fresh.resumed }, 14⟩

/-- The first session is cut when the frame has been written. -/
theorem resumes_after_second_crash :
    ∃ y u, (fresh.resumed.begin (sampleStore [fresh])).run StoreCall.serve
      (step (sampleStore [fresh])
        ((wholePush.serve (sampleStore [fresh]) begunPush).cut StoreCall.serve 1 begunTree)
        secondAttempt) = (.ok y, u) ∧ GoesOn (sampleStore [fresh]) fresh [65, 66] y u := by
  have hbegun : ((fresh.begin (sampleStore [fresh])).run StoreCall.serve .empty).1 =
      .ok begunPush := by decide +kernel
  have hstart : ∀ bytes, (sampleStore [fresh]).Inherits fresh bytes .empty →
      bytes <+: [65, 66] := by
    rintro bytes (⟨-, rfl⟩ | ⟨hnone, -⟩)
    · exact nil_prefix
    · cases hnone
  have hready : (wholePush.request.begin (sampleStore [fresh])).run StoreCall.serve .empty =
      (.ok begunPush, begunTree) := Prod.ext hbegun rfl
  have hwhole : ¬ (sampleStore [fresh]).Torn fresh
      (((wholePush.serve (sampleStore [fresh]) begunPush).calls StoreCall.serve
        begunTree).take 1) := not_torn_of_forall (by decide +kernel)
  have hlater : Along (step (sampleStore [fresh]))
      (fun s a => a.Whole (sampleStore [fresh]) fresh [65, 66] s)
      ((wholePush.serve (sampleStore [fresh]) begunPush).cut StoreCall.serve 1 begunTree)
      [secondAttempt] :=
    ⟨⟨rfl, wholePush_carries, not_torn_of_forall (by decide +kernel)⟩, trivial⟩
  exact resumes_after_crashes (x := wholePush) faithful_sample (by decide) (by decide +kernel)
    clean_empty hstart hready wholePush_carries hwhole hlater

/-- The session is cut when the file has been published. -/
theorem torn_push_is_lost :
    ∃ x ∈ ((fresh.begin (sampleStore [fresh])).run StoreCall.serve .empty).1.toOption,
      ((fresh.resumed.begin (sampleStore [fresh])).run StoreCall.serve
        ((wholePush.serve (sampleStore [fresh]) x).cut StoreCall.serve 4
          ((fresh.begin (sampleStore [fresh])).run StoreCall.serve .empty).2)).1 =
        .error (.ofIo .notFound) := by
  decide +kernel

end Attempt

end KindleBridge.Device
