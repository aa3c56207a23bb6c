import KindleBridge.Device.PushSession

/-! # Publishing a file

A session that has received its file renames it into place. The rename is the only call
of a push that others can see, and it is made only for a file with the declared bytes.
-/

namespace KindleBridge.Device

open Schema Script FileSystem PushTransfer List

variable {m : TransferMetadata} {x : PushSession}

namespace SyncStore

variable {store : SyncStore} {r : PushRequest} {good : List UInt8 → Prop}
  {s t u : FileSystem String} {call : StoreCall} {bytes : List UInt8} {p : List String}
  {id : String} {transfer : PushTransfer} {path : LogicalSyncPath}

/-! ## What a published file leaves alone -/

inductive Delivers (store : SyncStore) (r : PushRequest) (s : FileSystem String) :
    FileSystem String → Prop
  | moved {i : ℕ} (hm : s.Movable (store.partPath r.id) (store.finalPath r)) :
      store.Aside (store.finalPath r) → s.node (store.partPath r.id) = some (.file i) →
      store.Declared r (s.data i) → Delivers store r s (s.move _ _ hm)

namespace Delivers

section
variable (h : Delivers store r s t)
include h

theorem keeps : Keeps (fun q => q ≠ store.partPath r.id ∧ q ≠ store.finalPath r) s t := by
  obtain ⟨hm, -, hi, -⟩ := h
  exact keeps_move_file hi (by simp) (by simp)

theorem aside : store.Aside (store.finalPath r) := by
  obtain ⟨-, ha, -⟩ := h
  exact ha

theorem links : NoNewLinks s t := by
  obtain ⟨hm, -, hi, -⟩ := h
  exact noNewLinks_move_file hi

theorem part : t.node (store.partPath r.id) = none := by
  obtain ⟨hm, ha, hi, -⟩ := h
  have hne : store.partPath r.id ≠ store.finalPath r := by
    intro he
    exact ha.not_own (he ▸ own_part r.id)
  simp [node_move_file hi, hne]

theorem content : ∃ bytes, t.content (store.finalPath r) = some bytes ∧ store.Declared r bytes := by
  obtain ⟨hm, -, hi, hd⟩ := h
  exact ⟨_, content_of_file (by simp [node_move_file hi]), hd⟩

theorem clean (hc : store.Clean s) : store.Clean t where
  way hq hl := hc.way hq (h.links _ hl)
  flat {q} hq hne := by
    by_cases hp : q = store.partPath r.id
    · rw [hp]
      exact .inl h.part
    · have hf : q ≠ store.finalPath r := by
        rintro rfl
        exact h.aside.not_stage hq
      rw [h.keeps.node ⟨hp, hf⟩]
      exact hc.flat hq hne

theorem ready (hs : store.Ready s) : store.Ready t where
  toClean := h.clean hs.toClean
  stage := (h.keeps.node ⟨own_ne_stage (own_part r.id), h.aside.ne_stage.symm⟩).trans hs.stage

theorem rely (hid : r.id ≠ id) : store.Rely id s t where
  own := h.keeps.mono fun q hq => by
    constructor
    · rintro rfl
      exact not_own hid (own_part r.id) hq
    · rintro rfl
      exact h.aside.not_own hq
  clean := h.clean
  stage hstage := (h.keeps.node ⟨own_ne_stage (own_part r.id), h.aside.ne_stage.symm⟩).trans hstage
  links := h.links

end

end Delivers

theorem Publishes.rename (h : store.Publishes r call s) :
    (∃ e, s.rename (store.partPath r.id) (store.finalPath r) = (.error e, s)) ∨
      ∃ t, s.rename (store.partPath r.id) (store.finalPath r) = (.ok (), t) ∧
        Delivers store r s t := by
  obtain ⟨-, ha, hw, bytes, hb, hd⟩ := h
  obtain ⟨i, hi, rfl⟩ := content_eq_some.mp hb
  have hwp : s.Way (store.partPath r.id) := way_of_node (by simp [hi])
  rcases rename_cases hwp hw with he | ⟨-, ⟨heq, -⟩ | ⟨hm, he⟩⟩
  · exact .inl he
  · exact absurd (heq ▸ own_part r.id) ha.not_own
  · exact .inr ⟨_, he, .moved hm ha hi hd⟩

theorem Publishes.effect (h : store.Publishes r call s) :
    (call.serve s).2 = s ∨ Delivers store r s (call.serve s).2 := by
  obtain rfl := h.1
  have hserve : (StoreCall.serve ⟨.target, .rename (store.partPath r.id) (store.finalPath r)⟩ s).2 =
    (s.rename (store.partPath r.id) (store.finalPath r)).2 := rfl
  rw [hserve]
  rcases h.rename with ⟨e, he⟩ | ⟨t, ht, hd⟩
  · exact .inl (by rw [he])
  · exact .inr (by rwa [ht])

theorem Effect.rely {id' : String} (h : Effect store id s t) (hid : id ≠ id')
    (hc : store.Clean s) : store.Rely id' s t := by
  cases h with
  | nothing => exact .refl s
  | directory h hp => exact Effect.rely_of_directory h hp
  | own hrw =>
    exact ⟨hrw.keeps.mono fun q hq hown => not_own hid hown hq, fun _ => hc.of_rewrites hrw,
      fun hs => (hrw.keeps.node fun hown => own_ne_stage hown rfl).trans hs, hrw.noNewLinks⟩

theorem Effect.clean (h : Effect store id s t) (hc : store.Clean s) : store.Clean t := by
  cases h with
  | nothing => exact hc
  | directory h hp =>
    have hr : store.Rely id s _ := Effect.rely_of_directory h hp
    exact hr.clean hc
  | own hrw => exact hc.of_rewrites hrw

/-! ## The way to the target -/

theorem enterOrCreate_meets (hp : store.Aside p) (hw : s.Way p) :
    (enterOrCreate p).Meets (store.terms r good) (fun res u => store.Rely r.id s u ∧
      ∀ created, res = .ok created → ¬ u.IsLink p) s := by
  unfold enterOrCreate
  refine meets_look rfl fun t₁ h₁ => ?_
  dsimp only [FsOp.serve]
  have hw₁ := hw.of_noNewLinks h₁.links
  cases hm : t₁.metadata false p with
  | ok m =>
    obtain ⟨n, hn, hkind⟩ := metadata_ok hw₁ (by simp) hm
    dsimp only
    split_ifs with hdir
    · have hlink : ¬ t₁.IsLink p := by
        rintro ⟨a, l, hl⟩
        obtain rfl : n = .symlink a l := Option.some.inj (hn.symm.trans hl)
        simp [hkind, Node.kind] at hdir
      exact fun u hu => ⟨h₁.trans hu, fun _ _ h => hlink (hu.links p h)⟩
    · exact fun u hu => ⟨h₁.trans hu, by simp⟩
  | error e =>
    cases e with
    | notFound =>
      refine meets_call_bind fun t₂ h₂ => ⟨.enters hp (hw₁.of_noNewLinks h₂.links), ?_⟩
      dsimp only [FsOp.serve]
      have h₀₂ := h₁.trans h₂
      rcases createDir_cases (hw₁.of_noNewLinks h₂.links) with ⟨e, he⟩ | ⟨h, he⟩
      · rw [he]
        exact fun u hu => ⟨h₀₂.trans hu, by simp⟩
      · rw [he]
        have hmade : store.Rely r.id t₂ (t₂.addDir p h) := Effect.rely_of_directory h (.inr hp)
        refine fun u hu => ⟨(h₀₂.trans hmade).trans hu, fun _ _ hl => ?_⟩
        exact not_isLink_of_dir (by simp) (hu.links p hl)
    | _ => exact fun u hu => ⟨h₁.trans hu, by simp⟩

theorem createBelow_meets {current components : List String}
    (hp : ∀ q, q <+: components → q ≠ [] → store.Aside (current ++ q))
    (hw : ∀ c, s.Way (current ++ [c])) :
    (createBelow current components).Meets (store.terms r good) (fun res u =>
      store.Rely r.id s u ∧ ∀ created, res = .ok created →
        ∀ c, u.Way (current ++ components ++ [c])) s := by
  induction components generalizing current s with
  | nil =>
    refine fun u hu => ⟨hu, fun _ _ c => ?_⟩
    simpa using (hw c).of_noNewLinks hu.links
  | cons component rest ih =>
    rw [createBelow]
    refine (enterOrCreate_meets (hp [component] (by simp) (by simp)) (hw component)).bind ?_ ?_
    · rintro created t ⟨ht, hlink⟩
      have hw' : ∀ c, t.Way (current ++ [component] ++ [c]) := fun c =>
        ((hw component).of_noNewLinks ht.links).extend (hlink created rfl)
      refine (ih (aside_below hp) hw').bind ?_ ?_
      · rintro more u ⟨hu, hway⟩ v hv
        refine ⟨(ht.trans hu).trans hv, fun _ _ c => ?_⟩
        simpa using (hway more rfl c).of_noNewLinks hv.links
      · rintro e u ⟨hu, -⟩
        exact ⟨ht.trans hu, by simp⟩
    · rintro e t ⟨ht, -⟩
      exact ⟨ht, by simp⟩

theorem Clean.way_root (h : store.Clean s) (c : String) : s.Way (store.root ++ [c]) := by
  intro q hq hne
  rcases prefix_concat_iff.mp hq with hq | hq
  · exact absurd hq hne
  · exact h.way (hq.trans (prefix_append _ _))

theorem prepareTarget_meets (hvalue : path.value = r.remotePath)
    (ho : r.Outside) (hc : store.Clean s) :
    (store.prepareTarget path).Meets (store.terms r good) (fun res u => store.Rely r.id s u ∧
      ∀ q, res = .ok q → q = store.finalPath r ∧ u.Way q) s := by
  have hsplit := dropLast_append_getLast path.components_ne_nil
  have hpath : store.targetPath path = store.finalPath r := by
    rw [targetPath, finalPath, LogicalSyncPath.components, hvalue]
  unfold prepareTarget
  refine (createBelow_meets (fun q hq hne => ?_) hc.way_root).bind ?_ ?_
  · exact aside_of_outside ho hvalue (hq.trans ( dropLast_prefix _)) hne
  · rintro created t ⟨ht, hway⟩ u hu
    refine ⟨ht.trans hu, ?_⟩
    rintro _ ⟨⟩
    refine ⟨hpath, ?_⟩
    have hw := hway created rfl (path.components.getLast path.components_ne_nil)
    rw [append_assoc, hsplit] at hw
    exact hw.of_noNewLinks hu.links
  · rintro e t ⟨ht, -⟩
    exact ⟨ht, by simp⟩

theorem checkReplaceable_meets : (checkReplaceable p).Meets (store.terms r good)
    (fun _ u => store.Rely r.id s u) s := by
  unfold checkReplaceable
  refine meets_look rfl fun t₁ h₁ => ?_
  split_ifs
  · refine meets_look rfl fun t₂ h₂ => ?_
    dsimp only [FsOp.serve]
    cases t₂.metadata false p with
    | error e => exact fun u hu => (h₁.trans h₂).trans hu
    | ok m =>
      rw [io_ok, pure_bind_eq]
      split_ifs <;> exact fun u hu => (h₁.trans h₂).trans hu
  · exact fun u hu => h₁.trans hu

/-! ## Sessions -/

/-- The terms of a session: it may publish its file as well. -/
def sessionTerms (store : SyncStore) (r : PushRequest) (good : List UInt8 → Prop) :
    Terms StoreCall StoreCall.Answer (FileSystem String) where
  serve := StoreCall.serve
  rely := store.Rely r.id
  allowed := store.Does r good
  refl := rely_refl store r
  trans := @rely_trans store r

theorem sessionTerms_eases : (store.terms r good).Eases (store.sessionTerms r good) :=
  ⟨rfl, fun h => h, .inl⟩

theorem session_sync {β : Type} {purpose : Purpose} {i : ℕ} {f : Unit → StoreM β}
    {post : Except StoreError β → FileSystem String → Prop}
    (h : ∀ t, store.Rely r.id s t → (f ()).Meets (store.sessionTerms r good) post t) :
    (perform (⟨purpose, .sync i⟩ : StoreCall) >>= f).Meets (store.sessionTerms r good) post s :=
  fun t ht => ⟨.inl (.looks rfl), h t ht⟩

theorem commitTarget_meets (hvalue : path.value = r.remotePath)
    (ho : r.Outside) (hs : store.Ready s) (hb : s.content (store.partPath r.id) = some bytes)
    (hd : store.Declared r bytes) :
    (store.commitTarget path (store.partPath r.id)).Meets (store.sessionTerms r good)
      (fun res u => store.Ready u ∧ (res = .ok () ∧ u.node (store.partPath r.id) = none ∨
        ∃ e, res = .error e ∧ store.Rely r.id s u)) s := by
  unfold commitTarget
  refine ((prepareTarget_meets hvalue ho hs.toClean).ease sessionTerms_eases).bind ?_ ?_
  · rintro q t₁ ⟨h₁, hq⟩
    obtain ⟨rfl, hway₁⟩ := hq q rfl
    have hclear : (checkReplaceable (store.finalPath r)).Meets (store.sessionTerms r good)
      (fun _ u => store.Rely r.id t₁ u) t₁ := checkReplaceable_meets.ease sessionTerms_eases
    refine hclear.bind ?_ ?_
    · intro _ t₂ h₂ t₃ h₃
      have h₀₃ := (h₁.trans h₂).trans h₃
      have hpublishes : store.Publishes r
          ⟨.target, .rename (store.partPath r.id) (store.finalPath r)⟩ t₃ := by
        refine ⟨rfl, ?_, hway₁.of_noNewLinks (h₂.trans h₃).links, bytes,
          h₀₃.content_part.trans hb, hd⟩
        rw [finalPath, ← hvalue]
        exact aside_of_outside ho hvalue (prefix_refl _) path.components_ne_nil
      refine ⟨.inr hpublishes, ?_⟩
      change (io (t₃.rename _ _).1).Meets _ _ (t₃.rename _ _).2
      rcases hpublishes.rename with ⟨e, he⟩ | ⟨t, ht, hdelivers⟩
      · rw [he]
        exact fun u hu => ⟨(h₀₃.trans hu).ready hs, .inr ⟨_, rfl, h₀₃.trans hu⟩⟩
      · rw [ht]
        refine fun u hu => ⟨hu.ready (hdelivers.ready (h₀₃.ready hs)), .inl ⟨rfl, ?_⟩⟩
        exact (hu.own.node (own_part _)).trans hdelivers.part
    · intro e u hu
      exact ⟨(h₁.trans hu).ready hs, .inr ⟨e, rfl, h₁.trans hu⟩⟩
  · rintro e t ⟨ht, -⟩
    exact ⟨ht.ready hs, .inr ⟨e, rfl, ht⟩⟩

/-- The store after a session has published its file, with the metadata of the transfer. -/
structure Published (store : SyncStore) (r : PushRequest) (m : TransferMetadata)
    (s : FileSystem String) : Prop where
  ready : store.Ready s
  part : s.node (store.partPath r.id) = none
  recorded : s.content (store.metadataPath r.id) = some (store.encodeMetadata m)
  matched : r.Matches m
  state : m.state = .complete
  offset : m.nextOffset = r.totalSize

theorem Published.rely (h : store.Published r m s)
    (hr : store.Rely r.id s u) : store.Published r m u :=
  ⟨hr.ready h.ready, (hr.own.node (own_part _)).trans h.part,
    hr.content_metadata.trans h.recorded, h.matched, h.state, h.offset⟩

/-- Metadata of the request that have been written are read back. -/
def Faithful (store : SyncStore) (r : PushRequest) : Prop :=
  ∀ m, r.Matches m → store.decodeMetadata (store.encodeMetadata m) = .ok m

theorem Published.recorded_of_faithful (h : store.Published r m s)
    (hf : store.Faithful r) : store.Recorded r.id m s :=
  ⟨_, h.recorded, hf m h.matched, h.matched.version, h.matched.transferId⟩

theorem publish_meets {x : PushTransfer} (ho : r.Outside) (h : store.AtWork r good x bytes s)
    (hd : store.Declared r bytes) :
    (x.publish store).Meets (store.sessionTerms r good) (fun res u => (∃ m, store.Published r m u ∧
        (store.Faithful r → isValidTransferId r.id → res = .ok m.status)) ∨
      ∃ e, res = .error e ∧ store.AtWork r good x bytes u) s := by
  unfold publish
  rw [h.matched.remotePath, h.matched.transferId]
  rcases parsePath_cases store r.remotePath with ⟨path, -, hvalue, hp⟩ | ⟨e, hp, -⟩
  swap
  · rw [hp, fail_bind]
    exact fun u hu => .inr ⟨e, rfl, h.rely hu⟩
  rw [hp, pure_bind_eq]
  refine (commitTarget_meets hvalue ho h.ready h.content hd).bind ?_ ?_
  · rintro _ t₁ ⟨hready, ⟨-, hpart⟩ | ⟨e, he, -⟩⟩
    swap
    · cases he
    have hm : r.Matches { x.metadata with state := .complete } := h.matched.with_state _
    refine ((writeMetadata_meets hready hm (by simp) fun _ => hpart).ease
      sessionTerms_eases).bind ?_ ?_
    · rintro _ t₂ ⟨-, hready₂, hrec, hkeeps⟩
      have hpublished : store.Published r { x.metadata with state := .complete } t₂ :=
        ⟨hready₂, (hkeeps.node rfl).trans hpart, hrec, hm, rfl, h.offset.trans hd.1⟩
      refine ((status_meets hready₂.toClean).ease sessionTerms_eases).mono ?_
      rintro res u ⟨hu, hres⟩
      exact .inl ⟨_, hpublished.rely hu,
        fun hf hv => hres _ hv (hpublished.recorded_of_faithful hf)⟩
    · rintro e t ⟨he, -⟩
      cases he
  · rintro e u ⟨-, ⟨he, -⟩ | ⟨e', -, hu⟩⟩
    · cases he
    · exact .inr ⟨e, rfl, h.rely hu⟩

/-- How a session ends that has received the given bytes and has tried to finish. -/
inductive Finished (store : SyncStore) (r : PushRequest) (good : List UInt8 → Prop)
    (bytes : List UInt8) (u : FileSystem String) : Except StoreError SyncStatus → Prop
  | published {m : TransferMetadata} {res : Except StoreError SyncStatus} :
      store.Published r m u → store.Declared r bytes →
      (store.Faithful r → isValidTransferId r.id → res = .ok m.status) →
      Finished store r good bytes u res
  | refused {e : StoreError} : store.Ready u →
      u.content (store.partPath r.id) = some bytes → store.Declared r bytes →
      Finished store r good bytes u (.error e)
  | mismatched : bytes.length = r.totalSize → store.hash bytes ≠ r.fileHash →
      store.Rests r good [] u → Finished store r good bytes u (.error .checksumMismatch)
  | short : bytes.length ≠ r.totalSize → store.Rests r good bytes u →
      Finished store r good bytes u (.error (.invalidState "push ended before total_size"))

theorem finishWithDigest_meets {x : PushTransfer} (ho : r.Outside) (hempty : good [])
    (h : store.AtWork r good x bytes s) :
    (x.finishWithDigest store (store.hash bytes)).Meets (store.sessionTerms r good)
      (fun res u => Finished store r good bytes u res) s := by
  obtain ⟨i, hfile, -⟩ := h.file
  unfold finishWithDigest isComplete
  rw [h.state, h.offset, h.matched.totalSize, h.matched.fileHash, hfile]
  rw [if_neg (by simp)]
  split_ifs with hsize hdigest
  · refine ((checkpoint_meets h).ease sessionTerms_eases).bind ?_ ?_
    · rintro _ t ⟨-, ht, hrec⟩ u hu
      exact .short hsize ((ht.rests hrec).rely hu)
    · rintro e t ⟨he, -⟩
      cases he
  · refine session_sync fun t ht => ?_
    refine ((discard_meets (h.rely ht) hfile hempty).ease sessionTerms_eases).mono ?_
    rintro res u ⟨rfl, hu⟩
    exact .mismatched (not_not.mp hsize) hdigest hu
  · refine session_sync fun t ht => ?_
    have hd : store.Declared r bytes := ⟨not_not.mp hsize, not_not.mp hdigest⟩
    refine (publish_meets ho (h.rely ht) hd).mono ?_
    rintro res u (⟨m, hm, hres⟩ | ⟨e, rfl, hu⟩)
    · exact .published hm hd hres
    · exact .refused hu.ready hu.content hd

/-- How a session ends whose transfer had received the given bytes before. -/
inductive Served (store : SyncStore) (x : PushSession) (good : List UInt8 → Prop)
    (bytes : List UInt8) (u : FileSystem String) : Except StoreError (Option SyncStatus) → Prop
  | finished {res : Except StoreError SyncStatus} : x.ended →
      Finished store x.request good (bytes ++ (x.payloads bytes.length).flatten) u res →
      Served store x good bytes u (res.map some)
  | retreated {done rest : List (List UInt8)} : x.payloads bytes.length = done ++ rest →
      store.Rests x.request good (bytes ++ done.dropLast.flatten) u →
      rest = [] ∧ x.ended = false ∨ min x.request.totalSize maxU64 <
        (bytes ++ (x.payloads bytes.length).flatten).length →
      Served store x good bytes u (.ok none)

/-- The frames of a session, as far as they are within the declared size, are good. -/
def Sends (x : PushSession) (good : List UInt8 → Prop) (bytes : List UInt8) : Prop :=
  ∀ n, (bytes ++ ((x.payloads bytes.length).take n).flatten).length ≤ x.request.totalSize →
    good (bytes ++ ((x.payloads bytes.length).take n).flatten)

theorem Sends.dropLast (h : Sends x good bytes) {done rest : List (List UInt8)}
    (hsplit : x.payloads bytes.length = done ++ rest)
    (hle : (bytes ++ done.flatten).length ≤ x.request.totalSize) :
    good (bytes ++ done.dropLast.flatten) := by
  have htake : (x.payloads bytes.length).take (done.length - 1) = done.dropLast := by
    rw [hsplit, take_append_of_le_length (by omega), dropLast_eq_take]
  have hgood := h (done.length - 1)
  rw [htake] at hgood
  apply hgood
  have hshort : done.dropLast.flatten.length ≤ done.flatten.length := by
    rcases eq_nil_or_concat done with rfl | ⟨front, last, rfl⟩ <;> simp
  simp only [length_append] at hle ⊢
  omega

theorem serve_meets (ho : x.request.Outside) (hempty : good []) (hsends : Sends x good bytes)
    (h : store.Opened x.request good transfer bytes s) :
    (x.serve store transfer).Meets (store.sessionTerms x.request good)
      (fun res u => Served store x good bytes u res) s := by
  have hwork : store.AtWork x.request good transfer bytes s := ⟨h.tracks, h.ready⟩
  unfold PushSession.serve isComplete
  rw [hwork.state, hwork.offset, h.hasher, if_neg (by simp)]
  refine ((writeFrames_meets hwork hsends).ease sessionTerms_eases).bind ?_ ?_
  · rintro _ t ⟨transfer', done, rest, result, hres, hsplit, ht, -, hor⟩
    obtain rfl := Except.ok.inj hres
    unfold PushSession.conclude
    dsimp only
    split_ifs with hend
    · -- Everything has been written, so what has been hashed is what is in the file.
      obtain ⟨hok, hended⟩ := hend
      rcases hor with ⟨-, rfl⟩ | ⟨hne, -⟩
      · rw [append_nil] at hsplit
        rw [← hsplit] at ht
        exact ((finishWithDigest_meets ho hempty ht).mono fun _ _ => .finished hended).map
      · cases result with
        | ok _ => exact absurd rfl hne
        | error e => cases hok
    · have hkept : rest = [] ∧ x.ended = false ∨ min x.request.totalSize maxU64 <
          (bytes ++ (x.payloads bytes.length).flatten).length := by
        rcases hor with ⟨rfl, hrest⟩ | ⟨-, hlarge⟩
        · exact .inl ⟨hrest, by simpa [Except.isOk, Except.toBool] using hend⟩
        · exact .inr hlarge
      have hgood := hsends.dropLast hsplit ht.le
      refine ((retreat_meets ht hgood).mono fun res u hu => ?_).ease sessionTerms_eases |>.map
      rw [hu.1]
      exact .retreated hsplit hu.2 hkept
  · rintro e t ⟨transfer', done, rest, result, hres, -⟩
    cases hres

theorem serve_complete_meets (hc : store.Clean s)
    (hm : x.request.Matches m) (hstate : m.state = .complete) :
    (x.serve store ⟨m, none, [], maxU64⟩).Meets (store.sessionTerms x.request good)
      (fun res u => store.Rely x.request.id s u ∧ ∀ status, res = .ok (some status) →
        ∀ m', isValidTransferId x.request.id → store.Recorded x.request.id m' s →
          status = m'.status) s := by
  unfold PushSession.serve finish finishWithDigest isComplete
  simp only [hstate, decide_true, if_true]
  split_ifs with hended
  · rw [hm.transferId]
    refine (((status_meets hc).mono ?_).ease sessionTerms_eases).map
    rintro res u ⟨hu, hres⟩
    refine ⟨hu, fun status hstatus m' hvalid hrec => ?_⟩
    rw [hres m' hvalid hrec] at hstatus
    exact (Option.some.inj (Except.ok.inj hstatus)).symm
  · exact fun u hu => ⟨hu, by simp⟩

/-- How a session ends, from the state in which it begins. -/
inductive Ended (store : SyncStore) (x : PushSession) (good : List UInt8 → Prop)
    (s u : FileSystem String) : Except StoreError (Option SyncStatus) → Prop
  | denied {e : StoreError} : (x.request.transferId = some x.request.id →
      ¬ store.Resumable x.request good s) → Ended store x good s u (.error e)
  | known {m : TransferMetadata} {res : Except StoreError (Option SyncStatus)} :
      store.Rely x.request.id s u → store.Recorded x.request.id m s → x.request.Matches m →
      m.state = .complete → (∀ status, res = .ok (some status) → status = m.status) →
      Ended store x good s u res
  | unready {bytes : List UInt8} : x.ready = false → store.Inherits x.request bytes s →
      store.Rests x.request good bytes u → Ended store x good s u (.ok none)
  | served {bytes : List UInt8} {res : Except StoreError (Option SyncStatus)} : x.ready →
      store.Inherits x.request bytes s → Served store x good bytes u res →
      Ended store x good s u res

theorem Opened.rests (h : store.Opened r good transfer bytes s) : store.Rests r good bytes s :=
  AtWork.rests ⟨h.tracks, h.ready⟩ h.recorded

/-- A session makes only the calls of a push, and ends as described. -/
theorem script_meets (ho : x.request.Outside) (hc : store.Clean s)
    (hempty : good []) (hgood : ∀ bytes, store.Inherits x.request bytes s → good bytes)
    (hsends : ∀ bytes, store.Inherits x.request bytes s → Sends x good bytes) :
    (x.script store).Meets (store.sessionTerms x.request good)
      (fun res u => Ended store x good s u res) s := by
  unfold PushSession.script PushRequest.begin
  refine ((beginPush_meets hc hgood).ease sessionTerms_eases).bind ?_ ?_
  · rintro transfer t (⟨transfer', htransfer, hbegun⟩ | ⟨e, he, -⟩)
    swap
    · cases he
    obtain rfl := Except.ok.inj htransfer
    cases hbegun with
    | @complete m hid ht hrec hmatch hstate hvalid =>
      split_ifs with hready
      · refine (serve_complete_meets (ht.clean hc) hmatch hstate).mono ?_
        rintro res u ⟨hu, hres⟩
        exact .known (ht.trans hu) hrec hmatch hstate
          fun status hs => hres status hs m hvalid (ht.recorded hrec)
      · exact fun u hu => .known (ht.trans hu) hrec hmatch hstate (by simp)
    | opened hopened hinherits =>
      split_ifs with hready
      · exact (serve_meets ho hempty (hsends _ hinherits) hopened).mono
          fun res u hu => .served hready hinherits hu
      · exact fun u hu => .unready (by simpa using hready) hinherits (hopened.rests.rely hu)
  · rintro e t (⟨transfer, he, -⟩ | ⟨e', -, -, hnot⟩)
    · cases he
    · exact .denied hnot

end SyncStore

end KindleBridge.Device
