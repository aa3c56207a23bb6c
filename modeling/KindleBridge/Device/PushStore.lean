import KindleBridge.Device.PushCalls

/-! # What the store does for a push

One lemma for each function of the store: it makes only quiet calls, whatever other
transfers do in between, and leaves the files of its transfer as described.
-/

namespace KindleBridge.Device

open Schema Script FileSystem List LogicalSyncPath Option

namespace PushRequest

variable {r : PushRequest} {m : TransferMetadata}

theorem Matches.with_offset (h : r.Matches m) (n : ℕ) : r.Matches { m with nextOffset := n } :=
  ⟨h.version, h.transferId, h.direction, h.remotePath, h.totalSize, h.fileHash⟩

theorem Matches.with_state (h : r.Matches m) (state : TransferState) :
    r.Matches { m with state := state } :=
  ⟨h.version, h.transferId, h.direction, h.remotePath, h.totalSize, h.fileHash⟩

end PushRequest

namespace SyncStore

variable (store : SyncStore) (r : PushRequest) (good : List UInt8 → Prop)

theorem rely_refl (s : FileSystem String) : store.Rely r.id s s := Rely.refl s

theorem rely_trans {s t u : FileSystem String} (h : store.Rely r.id s t)
    (h' : store.Rely r.id t u) : store.Rely r.id s u := h.trans h'

/-- The terms of a push: others leave its files alone, and it makes only quiet calls. -/
def terms : Terms StoreCall StoreCall.Answer (FileSystem String) where
  serve := StoreCall.serve
  rely := store.Rely r.id
  allowed := store.Quiet r good
  refl := rely_refl store r
  trans := @rely_trans store r

variable {store r good} {α β : Type} {s t : FileSystem String} {op : FsOp String}
  {post : Except StoreError β → FileSystem String → Prop} {bytes : List UInt8} {i : ℕ}
  {m : TransferMetadata} {transfer : PushTransfer} {p : List String} {f : Unit → StoreM β}
  {id : String}

theorem meets_call_bind {purpose : Purpose} {f : op.Answer → StoreM β}
    (h : ∀ t, store.Rely r.id s t → store.Quiet r good ⟨purpose, op⟩ t ∧
      (f (op.serve t).1).Meets (store.terms r good) post (op.serve t).2) :
    (perform (⟨purpose, op⟩ : StoreCall) >>= f).Meets (store.terms r good) post s := h

theorem meets_look {purpose : Purpose} {f : op.Answer → StoreM β} (hop : op.looks)
    (h : ∀ t, store.Rely r.id s t → (f (op.serve t).1).Meets (store.terms r good) post t) :
    (perform (⟨purpose, op⟩ : StoreCall) >>= f).Meets (store.terms r good) post s :=
  meets_call_bind fun t ht => ⟨.looks hop, (FsOp.serve_of_looks hop t).symm ▸ h t ht⟩

theorem Rely.staged (h : store.Rely r.id s t) (hs : store.Staged r good s) :
    store.Staged r good t := by
  obtain ⟨bytes, hb, hlen, hgood⟩ := hs
  exact ⟨bytes, h.content_part.trans hb, hlen, hgood⟩

theorem staged_of_keeps (h : Keeps (· = store.partPath r.id) s t) (hs : store.Staged r good s) :
    store.Staged r good t := by
  obtain ⟨bytes, hb, hlen, hgood⟩ := hs
  exact ⟨bytes, (h.content rfl).trans hb, hlen, hgood⟩

theorem Rely.keeps_part (h : store.Rely r.id s t) : Keeps (· = store.partPath r.id) s t :=
  h.own.mono fun _ hq => hq ▸ (own_part _)

theorem keeps_part_of_rewrites {P : List String → Prop} (h : Rewrites P s t)
    (hP : ¬ P (store.partPath r.id)) : Keeps (· = store.partPath r.id) s t :=
  h.keeps.mono fun _ hq => hq ▸ hP

theorem writeMetadata_meets (hs : store.Ready s) (hm : r.Matches m)
    (hpart : m.state = .inProgress → store.Staged r good s)
    (hgone : m.state = .complete → s.node (store.partPath r.id) = none) :
    (store.writeMetadata m).Meets (store.terms r good) (fun res t => res = .ok () ∧
      store.Ready t ∧ t.content (store.metadataPath r.id) = some (store.encodeMetadata m) ∧
      Keeps (· = store.partPath r.id) s t) s := by
  unfold writeMetadata
  rw [hm.transferId]
  refine meets_call_bind fun t₁ h₁ => ⟨.drafts, ?_⟩
  obtain ⟨i, t₂, hcreate, hnode, hdata, hrw⟩ := (h₁.ready hs).create (own_temporary r.id)
  have hready₂ : store.Ready t₂ := (h₁.ready hs).of_rewrites hrw (own_ne_stage (own_temporary r.id))
  have hkeeps₂ : Keeps (· = store.partPath r.id) s t₂ :=
    h₁.keeps_part.trans (keeps_part_of_rewrites hrw partPath_ne_temporaryPath)
  simp only [FsOp.serve, hcreate, io_ok, pure_bind_eq]
  refine meets_call_bind fun t₃ h₃ => ?_
  have hnode₃ : t₃.node (store.temporaryPath r.id) = some (.file i) :=
    (h₃.own.node (own_temporary _)).trans hnode
  have hdata₃ : t₃.data i = [] := (h₃.own.data (own_temporary _) hnode).trans hdata
  refine ⟨.fills hnode₃, ?_⟩
  dsimp only [FsOp.serve]
  rw [hdata₃, overwrite_nil]
  have hrw₄ : Rewrites (· = store.temporaryPath r.id) t₃
    (t₃.setData i (store.encodeMetadata m)) := rewrites_setData hnode₃
  refine meets_look rfl fun t₅ h₅ => meets_call_bind fun t₆ h₆ => ?_
  have h₄₆ := h₅.trans h₆
  have hready₆ : store.Ready t₆ :=
    h₄₆.ready ((h₃.ready hready₂).of_rewrites hrw₄ (own_ne_stage (own_temporary r.id)))
  have hkeeps₆ : Keeps (· = store.partPath r.id) s t₆ :=
    ((hkeeps₂.trans h₃.keeps_part).trans (keeps_part_of_rewrites hrw₄ partPath_ne_temporaryPath)).trans
      h₄₆.keeps_part
  have hnode₆ : t₆.node (store.temporaryPath r.id) = some (.file i) :=
    (h₄₆.own.node (own_temporary _)).trans hnode₃
  have hdata₆ : t₆.data i = store.encodeMetadata m := by
    rw [h₄₆.own.data (own_temporary _) hnode₃]
    simp
  have hcontent : t₆.content (store.temporaryPath r.id) = some (store.encodeMetadata m) :=
    content_eq_some.mpr ⟨i, hnode₆, hdata₆⟩
  refine ⟨.records hm hcontent (fun hp => staged_of_keeps hkeeps₆ (hpart hp))
    fun hp => (hkeeps₆.node rfl).trans (hgone hp), ?_⟩
  obtain ⟨t₇, hrename, hnode₇, hdata₇, hrw₇⟩ := hready₆.rename (own_metadata r.id)
    metadataPath_ne_temporaryPath.symm hnode₆
  simp only [FsOp.serve, hrename, io_ok]
  intro t₈ h₈
  have hready₇ : store.Ready t₇ := hready₆.of_rewrites hrw₇
    (by simp [own_ne_stage (own_temporary r.id), own_ne_stage (own_metadata r.id)])
  have hkeeps₇ : Keeps (· = store.partPath r.id) t₆ t₇ := keeps_part_of_rewrites hrw₇ (by simp)
  refine ⟨rfl, h₈.ready hready₇, ?_, (hkeeps₆.trans hkeeps₇).trans h₈.keeps_part⟩
  rw [h₈.content_metadata]
  exact content_eq_some.mpr ⟨i, hnode₇, by rw [hdata₇, hdata₆]⟩

def Recorded (store : SyncStore) (id : String) (m : TransferMetadata)
    (s : FileSystem String) : Prop :=
  ∃ bytes, s.content (store.metadataPath id) = some bytes ∧ store.decodeMetadata bytes = .ok m ∧
    m.version = metadataVersion ∧ m.transferId = id

theorem Recorded.inj {m m' : TransferMetadata} (h : store.Recorded id m s)
    (h' : store.Recorded id m' s) : m = m' := by
  obtain ⟨bytes, hb, hm, -⟩ := h
  obtain ⟨bytes', hb', hm', -⟩ := h'
  rw [hb, some_inj] at hb'
  rw [← hb', hm] at hm'
  exact Except.ok.inj hm'

theorem Rely.recorded (h : store.Rely r.id s t) (hm : store.Recorded r.id m s) :
    store.Recorded r.id m t := by
  obtain ⟨bytes, hb, hrest⟩ := hm
  exact ⟨bytes, h.content_metadata.trans hb, hrest⟩

theorem parseMetadata_cases (store : SyncStore) (id : String) (bytes : List UInt8) :
    (∃ m, store.parseMetadata id bytes = pure m ∧ store.decodeMetadata bytes = .ok m ∧
      m.version = metadataVersion ∧ m.transferId = id) ∨
    ∃ e, store.parseMetadata id bytes = Script.fail e ∧ ∀ m, store.decodeMetadata bytes = .ok m →
      ¬ (m.version = metadataVersion ∧ m.transferId = id) := by
  unfold parseMetadata
  cases hd : store.decodeMetadata bytes with
  | error e => exact .inr ⟨_, rfl, by simp⟩
  | ok m =>
    by_cases h : m.version = metadataVersion ∧ m.transferId = id
    · exact .inl ⟨m, by simp [Except.mapError, checkIdentity, h], rfl, h⟩
    · refine .inr ⟨.invalidState "invalid transfer metadata", ?_, by simpa using h⟩
      have h' : m.version ≠ metadataVersion ∨ m.transferId ≠ id := by
        by_contra hne
        exact h (by simpa using hne)
      simp [Except.mapError, checkIdentity, h']

theorem readMetadata_meets (hc : store.Clean s) :
    (store.readMetadata r.id).Meets (store.terms r good) (fun res t => store.Rely r.id s t ∧
      ((∃ m, res = .ok m ∧ store.Recorded r.id m s) ∨
        ∃ e, res = .error e ∧ ∀ m, ¬ store.Recorded r.id m s)) s := by
  unfold readMetadata
  refine meets_look rfl fun t₁ h₁ => ?_
  dsimp only [FsOp.serve]
  have hc₁ := h₁.clean hc
  cases hopen : t₁.openFile (store.metadataPath r.id) with
  | error e =>
    have hnot : ∀ m, ¬ store.Recorded r.id m s := by
      rintro m ⟨bytes, hb, -⟩
      obtain ⟨i, hi, -⟩ := content_eq_some.mp (h₁.content_metadata.trans hb)
      simp [openFile_of_file hi] at hopen
    cases e <;> exact fun t ht => ⟨h₁.trans ht, .inr ⟨_, rfl, hnot⟩⟩
  | ok i =>
    have hi := openFile_ok hc₁.way_child hc₁.not_isLink hopen
    refine meets_look rfl fun t₂ h₂ => meets_look rfl fun t₃ h₃ => ?_
    dsimp only [FsOp.serve]
    have h₁₃ := h₂.trans h₃
    have hcontent : s.content (store.metadataPath r.id) = some (t₃.data i) := by
      rw [← (h₁.trans h₁₃).content_metadata]
      exact content_of_file ((h₁₃.own.node (own_metadata _)).trans hi)
    have hdata : t₃.data i = t₂.data i := by
      rw [h₁₃.own.data (own_metadata _) hi, h₂.own.data (own_metadata _) hi]
    rw [drop_zero, ← hdata, take_length]
    rcases parseMetadata_cases store r.id (t₃.data i) with
      ⟨m, hparse, hm⟩ | ⟨e, hparse, hm⟩
    · rw [hparse]
      exact fun t ht => ⟨(h₁.trans h₁₃).trans ht, .inl ⟨m, rfl, _, hcontent, hm⟩⟩
    · rw [hparse]
      refine fun t ht => ⟨(h₁.trans h₁₃).trans ht, .inr ⟨e, rfl, ?_⟩⟩
      rintro m ⟨bytes, hb, hd, hv⟩
      rw [hcontent, some_inj] at hb
      exact hm m (hb ▸ hd) hv

theorem status_meets (hc : store.Clean s) :
    (store.status r.id).Meets (store.terms r good) (fun res t => store.Rely r.id s t ∧
      ∀ m, isValidTransferId r.id → store.Recorded r.id m s → res = .ok m.status) s := by
  unfold status validateTransferId
  split_ifs with hid
  · rw [pure_bind_eq]
    refine (readMetadata_meets hc).bind ?_ ?_
    · rintro m' t ⟨ht, ⟨m'', hm'', hrec⟩ | ⟨e, he, -⟩⟩ u hu
      · obtain rfl := Except.ok.inj hm''
        exact ⟨ht.trans hu, fun m _ hm => by rw [hrec.inj hm]⟩
      · cases he
    · rintro e t ⟨ht, ⟨m'', hm'', -⟩ | ⟨e', -, hnot⟩⟩
      · cases hm''
      · exact ⟨ht, fun m _ hm => absurd hm (hnot m)⟩
  · exact fun t ht => ⟨ht, fun _ h => absurd h hid⟩

theorem resumeMetadata_meets (hc : store.Clean s) :
    (store.resumeMetadata .push r.id r.remotePath r.totalSize r.fileHash).Meets
      (store.terms r good) (fun res t => store.Rely r.id s t ∧
      ((∃ m, res = .ok m ∧ store.Recorded r.id m s ∧ r.Matches m ∧ isValidTransferId r.id) ∨
        ∃ e, res = .error e ∧ ∀ m, store.Recorded r.id m s → r.Matches m →
          ¬ isValidTransferId r.id)) s := by
  unfold resumeMetadata validateTransferId
  by_cases hid : isValidTransferId r.id
  · rw [if_pos hid, pure_bind_eq]
    refine (readMetadata_meets hc).bind ?_ ?_
    · rintro m t ⟨ht, ⟨m', hm', hrec⟩ | ⟨e, he, -⟩⟩
      · obtain rfl := Except.ok.inj hm'
        unfold validateMetadata
        split_ifs with hv
        · obtain ⟨hdir, hpath, hsize, hhash⟩ := hv
          have hmatch : r.Matches m := ⟨hrec.choose_spec.2.2.1, hrec.choose_spec.2.2.2, hdir,
            hpath, hsize, hhash⟩
          exact fun u hu => ⟨ht.trans hu, .inl ⟨m, rfl, hrec, hmatch, hid⟩⟩
        · refine fun u hu => ⟨ht.trans hu, .inr ⟨_, rfl, fun m' hrec' hmatch _ => hv ?_⟩⟩
          obtain rfl := hrec.inj hrec'
          exact ⟨hmatch.direction, hmatch.remotePath, hmatch.totalSize, hmatch.fileHash⟩
      · cases he
    · rintro e t ⟨ht, ⟨m', hm', -⟩ | ⟨e', -, hnot⟩⟩
      · cases hm'
      · exact ⟨ht, .inr ⟨e, rfl, fun m hm _ _ => hnot m hm⟩⟩
  · rw [if_neg hid, fail_bind]
    exact fun t ht => ⟨ht, .inr ⟨_, rfl, fun _ _ _ => hid⟩⟩

/-! ## Layout -/

theorem Effect.rely_of_directory (h : s.Slot p)
    (hp : p <+: store.stageRoot ∨ store.Aside p) : store.Rely id s (s.addDir p h) where
  own := keeps_addDir fun hown => by
    rcases hp with hp | hp
    · obtain ⟨name, rfl⟩ := exists_name_of_own hown
      have hlen := hp.length_le
      simp at hlen
    · exact hp.not_own hown
  clean hc := by
    refine ⟨fun hq hl => hc.way hq (noNewLinks_add (by simp) _ hl), fun {q} hq hne => ?_⟩
    have hqp : q ≠ p := by
      rintro rfl
      rcases hp with hp | hp
      · exact hne (hp.eq_of_length_le hq.length_le)
      · exact hp.not_stage hq
    simpa [hqp] using hc.flat hq hne
  stage hstage := by
    have hne : store.stageRoot ≠ p := by
      rintro rfl
      simp [h.2.2] at hstage
    simp [hne, hstage]
  links := noNewLinks_add (by simp)

theorem rely_createDir (hw : s.Way p)
    (hp : p <+: store.stageRoot ∨ store.Aside p) : store.Rely id s (s.createDir p).2 := by
  rcases createDir_cases hw with ⟨e, he⟩ | ⟨h, he⟩
  · rw [he]
    exact .refl s
  · rw [he]
    exact Effect.rely_of_directory h hp

/-- What making a directory above the staging files comes to. -/
structure Laid (store : SyncStore) (id : String) (p : List String) (s : FileSystem String)
    (res : Except StoreError Unit) (t : FileSystem String) : Prop where
  rely : store.Rely id s t
  stage : p = store.stageRoot → res = .ok () → t.node store.stageRoot = some .dir
  success : s.node store.stageRoot = some .dir → res = .ok ()

theorem Laid.of_rely {u : FileSystem String}
    {res : Except StoreError Unit} (h : store.Laid id p t res u) (hr : store.Rely id s t) :
    store.Laid id p s res u :=
  ⟨hr.trans h.rely, h.stage, fun hs => h.success (hr.stage hs)⟩

theorem acceptDir_meets {e : IoError} (hc : store.Clean s) (hp : p <+: store.stageRoot) :
    (acceptDir p e).Meets (store.terms r good) (store.Laid r.id p s) s := by
  unfold acceptDir
  refine meets_look rfl fun t₁ h₁ => ?_
  dsimp only [FsOp.serve]
  have hway : t₁.Way p := fun q hq _ => (h₁.clean hc).way (hq.trans hp)
  have hlink : ¬ t₁.IsLink p := (h₁.clean hc).way hp
  have hsuccess : s.node store.stageRoot = some .dir →
      t₁.metadata true p = .ok ⟨.dir, ((t₁.content p).getD []).length⟩ := fun hs =>
    metadata_of_node (node_above_dir (h₁.stage hs) hp) fun _ => hlink
  cases hm : t₁.metadata true p with
  | error e' =>
    refine fun t ht => ⟨h₁.trans ht, fun _ => by simp, fun hs => ?_⟩
    simp [hsuccess hs] at hm
  | ok m =>
    obtain ⟨n, hn, hkind⟩ := metadata_ok hway (fun _ => hlink) hm
    dsimp only
    split_ifs with hdir
    · refine fun t ht => ⟨h₁.trans ht, fun hstage _ => ?_, fun _ => rfl⟩
      subst hstage
      apply ht.stage
      rw [hn]
      cases n <;> simp_all [Node.kind]
    · refine fun t ht => ⟨h₁.trans ht, fun _ => by simp, fun hs => ?_⟩
      rw [hsuccess hs] at hm
      cases hm
      exact absurd rfl hdir

theorem laid_addDir (hp : p <+: store.stageRoot) (h : s.Slot p) :
    (pure () : StoreM Unit).Meets (store.terms r good) (store.Laid r.id p s) (s.addDir p h) := by
  refine fun t ht => ⟨(Effect.rely_of_directory h (.inl hp)).trans ht, fun hstage _ => ?_,
    fun _ => rfl⟩
  subst hstage
  exact ht.stage (by simp)

theorem createDirAll_meets {path : List String} (hc : store.Clean s)
    (hp : path.reverse <+: store.stageRoot) :
    (createDirAll path).Meets (store.terms r good) (store.Laid r.id path.reverse s) s := by
  induction path generalizing s with
  | nil =>
    refine fun t ht => ⟨ht, fun h _ => ?_, fun _ => rfl⟩
    simp [stageRoot] at h
  | cons c parents ih =>
    have hparents : parents.reverse <+: store.stageRoot := by
      rw [reverse_cons] at hp
      exact (prefix_append _ _).trans hp
    have hway {t : FileSystem String} (ht : store.Clean t) : t.Way (c :: parents).reverse :=
      fun q hq _ => ht.way (hq.trans hp)
    rw [createDirAll]
    refine meets_call_bind fun t₁ h₁ => ⟨.lays hp, ?_⟩
    dsimp only [FsOp.serve]
    have hc₁ := h₁.clean hc
    have hsuccess : s.node store.stageRoot = some .dir →
        t₁.createDir (c :: parents).reverse = (.error .alreadyExists, t₁) := fun hs =>
      createDir_of_node (by rw [node_above_dir (h₁.stage hs) hp]; simp)
    rcases createDir_cases (hway hc₁) with ⟨e, he⟩ | ⟨h, he⟩
    · rw [he]
      have haccept : (acceptDir (c :: parents).reverse e).Meets (store.terms r good)
          (store.Laid r.id (c :: parents).reverse s) t₁ :=
        (acceptDir_meets hc₁ hp).mono fun res t h => h.of_rely h₁
      cases e with
      | notFound =>
        -- The directory above is missing, so the staging directory is not there.
        refine (ih hc₁ hparents).bind (fun _ t₂ h₂ => ?_) fun e t h => ⟨h₁.trans h.rely,
          fun _ => by simp, fun hs => ?_⟩
        · have hc₂ := h₂.rely.clean hc₁
          refine meets_call_bind fun t₃ h₃ => ⟨.lays hp, ?_⟩
          dsimp only [FsOp.serve]
          have h₀₃ := (h₁.trans h₂.rely).trans h₃
          rcases createDir_cases (hway (h₃.clean hc₂)) with ⟨e, he⟩ | ⟨h, he⟩
          · rw [he]
            exact (acceptDir_meets (h₃.clean hc₂) hp).mono fun res t h => h.of_rely h₀₃
          · rw [he]
            exact (laid_addDir hp h).mono fun res t h => h.of_rely h₀₃
        · rw [hsuccess hs] at he
          simp at he
      | _ => exact haccept
    · rw [he]
      exact (laid_addDir hp h).mono fun res t h => h.of_rely h₁

theorem ensureLayout_meets (hc : store.Clean s) :
    store.ensureLayout.Meets (store.terms r good) (store.Laid r.id store.stageRoot s) s := by
  unfold ensureLayout
  refine (createDirAll_meets hc (by simp [stageRoot])).bind (fun _ t h => ?_) fun e t h => ?_
  · have hlaid : (createDirAll store.stageRoot.reverse).Meets (store.terms r good)
        (store.Laid r.id store.stageRoot.reverse.reverse t) t :=
      createDirAll_meets (h.rely.clean hc) (by simp)
    rw [reverse_reverse] at hlaid
    exact hlaid.mono fun res u hu => hu.of_rely h.rely
  · exact ⟨h.rely, fun _ => by simp, fun hs => absurd (h.success hs) (by simp)⟩

/-! ## Beginning a push -/

theorem hashPrefixLoop_meets {fuel position remaining : ℕ}
    (hi : s.node (store.partPath r.id) = some (.file i)) (hb : s.data i = bytes)
    (hlen : position + remaining = bytes.length) (hfuel : remaining ≤ fuel) :
    (hashPrefixLoop .transfer i fuel position remaining (bytes.take position)).Meets
      (store.terms r good) (fun res t => store.Rely r.id s t ∧ res = .ok bytes) s := by
  induction fuel generalizing s position remaining with
  | zero =>
    have hpos : position = bytes.length := by omega
    rw [hashPrefixLoop, hpos, take_length]
    exact fun t ht => ⟨ht, rfl⟩
  | succ fuel ih =>
    rw [hashPrefixLoop]
    split_ifs with hzero
    · have hpos : position = bytes.length := by omega
      rw [hpos, take_length]
      exact fun t ht => ⟨ht, rfl⟩
    · refine meets_look rfl fun t₁ h₁ => ?_
      dsimp only [FsOp.serve]
      have hi₁ := (h₁.own.node (own_part _)).trans hi
      have hb₁ := (h₁.own.data (own_part _) hi).trans hb
      rw [hb₁]
      set n := min remaining hashBufferSize with hn
      have hbuffer : 0 < hashBufferSize := by decide
      have hread : ((bytes.drop position).take n).length = n := by
        rw [length_take, length_drop]
        omega
      have hne : (bytes.drop position).take n ≠ [] := by
        rw [← length_pos_iff, hread]
        omega
      rw [if_neg hne, hread, ← take_add]
      exact (ih hi₁ hb₁ (by omega) (by omega)).mono fun res t h => ⟨h₁.trans h.1, h.2⟩

/-- The transfer is at the end of its staging file, which holds the bytes. -/
structure Tracks (store : SyncStore) (r : PushRequest) (good : List UInt8 → Prop)
    (transfer : PushTransfer) (bytes : List UInt8) (s : FileSystem String) : Prop where
  matched : r.Matches transfer.metadata
  state : transfer.metadata.state = .inProgress
  offset : transfer.metadata.nextOffset = bytes.length
  le : bytes.length ≤ r.totalSize
  good : good bytes
  file : ∃ i, transfer.file = some ⟨i, bytes.length⟩ ∧
    s.node (store.partPath r.id) = some (.file i) ∧ s.data i = bytes

theorem Tracks.keeps (h : store.Tracks r good transfer bytes s)
    (hk : Keeps (· = store.partPath r.id) s t) : store.Tracks r good transfer bytes t := by
  obtain ⟨i, hfile, hi, hb⟩ := h.file
  exact ⟨h.matched, h.state, h.offset, h.le, h.good, i, hfile, (hk.node rfl).trans hi,
    (hk.data rfl hi).trans hb⟩

theorem Tracks.rely (h : store.Tracks r good transfer bytes s)
    (hr : store.Rely r.id s t) : store.Tracks r good transfer bytes t := h.keeps hr.keeps_part

theorem Tracks.content (h : store.Tracks r good transfer bytes s) :
    s.content (store.partPath r.id) = some bytes := by
  obtain ⟨i, -, hi, hb⟩ := h.file
  exact content_eq_some.mpr ⟨i, hi, hb⟩

theorem Tracks.staged (h : store.Tracks r good transfer bytes s) :
    store.Staged r good s := ⟨bytes, h.content, h.le, h.good⟩

/-- A transfer that goes on, with what it has received so far. -/
structure Opened (store : SyncStore) (r : PushRequest) (good : List UInt8 → Prop)
    (transfer : PushTransfer) (bytes : List UInt8) (s : FileSystem String) : Prop where
  tracks : store.Tracks r good transfer bytes s
  hasher : transfer.hasher = bytes
  ready : store.Ready s
  recorded : s.content (store.metadataPath r.id) = some (store.encodeMetadata transfer.metadata)

theorem openStaging_meets (hs : store.Ready s) (hm : r.Matches m) (hstate : m.state = .inProgress)
    (hgood : ∀ bytes, s.content (store.partPath r.id) = some bytes → good bytes) :
    (store.openStaging m r.totalSize).Meets (store.terms r good) (fun res t =>
      (∃ bytes transfer, s.content (store.partPath r.id) = some bytes ∧ res = .ok transfer ∧
        store.Opened r good transfer bytes t) ∨ ∃ e, res = .error e ∧ store.Rely r.id s t ∧
        ∀ bytes, s.content (store.partPath r.id) = some bytes → r.totalSize < bytes.length) s := by
  unfold openStaging
  rw [show store.partPath m.transferId = store.partPath r.id by rw [hm.transferId]]
  refine meets_look rfl fun t₁ h₁ => ?_
  dsimp only [FsOp.serve]
  have hs₁ := h₁.ready hs
  cases hopen : t₁.openFile (store.partPath r.id) with
  | error e =>
    refine fun t ht => .inr ⟨_, rfl, h₁.trans ht, fun bytes hb => ?_⟩
    obtain ⟨i, hi, -⟩ := content_eq_some.mp (h₁.content_part.trans hb)
    simp [openFile_of_file hi] at hopen
  | ok i =>
    have hi₁ := openFile_ok hs₁.way_child hs₁.not_isLink hopen
    simp only [io_ok, pure_bind_eq]
    refine meets_look rfl fun t₂ h₂ => ?_
    dsimp only [FsOp.serve]
    have hi₂ := (h₂.own.node (own_part _)).trans hi₁
    have hcontent : s.content (store.partPath r.id) = some (t₂.data i) := by
      rw [← (h₁.trans h₂).content_part]
      exact content_of_file hi₂
    split_ifs with hsize
    · refine fun t ht => .inr ⟨_, rfl, (h₁.trans h₂).trans ht, fun bytes hb => ?_⟩
      rw [hcontent, some_inj] at hb
      rwa [← hb]
    · have hle : (t₂.data i).length ≤ r.totalSize := Nat.le_of_not_lt hsize
      set bytes := t₂.data i with hbytes
      have hhash : (hashPrefix .transfer i bytes.length).Meets (store.terms r good)
          (fun res t => store.Rely r.id t₂ t ∧ res = .ok bytes) t₂ :=
        hashPrefixLoop_meets hi₂ rfl (Nat.zero_add _) le_rfl
      refine hhash.bind ?_ (by simp)
      rintro hasher t₃ ⟨h₃, hhasher⟩
      obtain rfl := Except.ok.inj hhasher
      refine meets_look rfl fun t₄ h₄ => ?_
      dsimp only [FsOp.serve]
      have h₂₄ := h₃.trans h₄
      have hi₄ := (h₂₄.own.node (own_part _)).trans hi₂
      have hb₄ : t₄.data i = bytes := h₂₄.own.data (own_part _) hi₂
      have hstaged : store.Staged r good t₄ :=
        ⟨bytes, content_eq_some.mpr ⟨i, hi₄, hb₄⟩, hle, hgood _ hcontent⟩
      rw [hb₄]
      refine (writeMetadata_meets (h₂₄.ready (h₂.ready hs₁)) (hm.with_offset _)
        (fun _ => hstaged) (by simp [hstate])).bind ?_ ?_
      · rintro _ t₅ ⟨-, hready, hrecorded, hkeeps⟩ t ht
        refine .inl ⟨bytes, _, hcontent, rfl, ?_, rfl, ht.ready hready,
          ht.content_metadata.trans hrecorded⟩
        refine Tracks.rely ?_ ht
        exact ⟨hm.with_offset _, hstate, rfl, hle, hgood _ hcontent, i, rfl,
          (hkeeps.node rfl).trans hi₄, (hkeeps.data rfl hi₄).trans hb₄⟩
      · rintro e t ⟨he, -⟩
        cases he

theorem newPush_meets (hs : store.Ready s) (hr : r.transferId = none) (hgood : good []) :
    (store.newPush r.allocated r.remotePath r.totalSize r.fileHash).Meets (store.terms r good)
      (fun res t => ∃ m, res = .ok m ∧ r.Matches m ∧ m.state = .inProgress ∧ store.Ready t ∧
        t.content (store.partPath r.id) = some []) s := by
  have hid : r.allocated = r.id := by simp [PushRequest.id, hr]
  unfold newPush
  rw [hid]
  refine meets_call_bind fun t₁ h₁ => ⟨.opens hr, ?_⟩
  obtain ⟨i, t₂, hcreate, hnode, hdata, hrw⟩ := (h₁.ready hs).create (own_part r.id)
  have hready₂ : store.Ready t₂ := (h₁.ready hs).of_rewrites hrw (own_ne_stage (own_part r.id))
  have hcontent : t₂.content (store.partPath r.id) = some [] :=
    content_eq_some.mpr ⟨i, hnode, hdata⟩
  have hm : r.Matches (newMetadata .push r.id r.remotePath r.totalSize r.fileHash 0) :=
    ⟨rfl, rfl, rfl, rfl, rfl, rfl⟩
  simp only [newMetadata, FsOp.serve, hcreate, io_ok, pure_bind_eq]
  refine (writeMetadata_meets hready₂ hm (fun _ => ⟨[], hcontent, by simp, hgood⟩)
    (by simp [newMetadata])).bind ?_ ?_
  · rintro _ t₃ ⟨-, hready, -, hkeeps⟩ t ht
    exact ⟨_, rfl, hm, rfl, ht.ready hready,
      ht.content_part.trans ((hkeeps.content rfl).trans hcontent)⟩
  · rintro e t ⟨he, -⟩
    cases he

/-- The transfer of a request is recorded. Unless it is complete, its staging file is there. -/
def Held (store : SyncStore) (r : PushRequest) (good : List UInt8 → Prop)
    (s : FileSystem String) : Prop :=
  ∃ m, store.Recorded r.id m s ∧ r.Matches m ∧ (m.state = .complete ∨ store.Staged r good s)

/-- What a push finds that can be resumed. -/
structure Resumable (store : SyncStore) (r : PushRequest) (good : List UInt8 → Prop)
    (s : FileSystem String) : Prop where
  parses : ∃ path, LogicalSyncPath.parse store.nfc r.remotePath = .ok path
  digest : store.isDigest r.fileHash
  valid : isValidTransferId r.id
  held : store.Held r good s

/-- What a push has received when it begins. -/
def Inherits (store : SyncStore) (r : PushRequest) (bytes : List UInt8)
    (s : FileSystem String) : Prop :=
  r.transferId = none ∧ bytes = [] ∨ r.transferId = some r.id ∧
    s.content (store.partPath r.id) = some bytes ∧ isValidTransferId r.id ∧
    ∃ m, store.Recorded r.id m s ∧ r.Matches m ∧ m.state = .inProgress

/-- What a push is when it has begun. -/
inductive Begun (store : SyncStore) (r : PushRequest) (good : List UInt8 → Prop)
    (s : FileSystem String) (t : FileSystem String) : PushTransfer → Prop
  | complete {m : TransferMetadata} : r.transferId = some r.id → store.Rely r.id s t →
      store.Recorded r.id m s → r.Matches m → m.state = .complete → isValidTransferId r.id →
      Begun store r good s t ⟨m, none, [], maxU64⟩
  | opened {transfer : PushTransfer} {bytes : List UInt8} :
      store.Opened r good transfer bytes t → store.Inherits r bytes s →
      Begun store r good s t transfer

theorem state_ne_complete {state : TransferState} (h : state ≠ .complete) :
    state = .inProgress := by
  cases state with
  | inProgress => rfl
  | complete => exact absurd rfl h

theorem openPush_meets (hs : store.Ready s) (hm : r.Matches m) (hgood : m.state = .inProgress →
      ∀ bytes, s.content (store.partPath r.id) = some bytes → good bytes) :
    (store.openPush m r.totalSize).Meets (store.terms r good) (fun res t =>
      (m.state = .complete ∧ res = .ok ⟨m, none, [], maxU64⟩ ∧ store.Rely r.id s t) ∨
      (∃ bytes transfer, m.state = .inProgress ∧ s.content (store.partPath r.id) = some bytes ∧
        res = .ok transfer ∧ store.Opened r good transfer bytes t) ∨
      ∃ e, res = .error e ∧ m.state = .inProgress ∧ store.Rely r.id s t ∧
        ∀ bytes, s.content (store.partPath r.id) = some bytes → r.totalSize < bytes.length) s := by
  unfold openPush
  split_ifs with hstate
  · exact fun t ht => .inl ⟨hstate, rfl, ht⟩
  · have hprogress := state_ne_complete hstate
    refine (openStaging_meets hs hm hprogress (hgood hprogress)).mono fun res t h => .inr ?_
    rcases h with ⟨bytes, transfer, hb, hres, hopened⟩ | ⟨e, he, ht, hlarge⟩
    · exact .inl ⟨bytes, transfer, hprogress, hb, hres, hopened⟩
    · exact .inr ⟨e, he, hprogress, ht, hlarge⟩

theorem parsePath_cases (store : SyncStore) (value : String) :
    (∃ path, parse store.nfc value = .ok path ∧ path.value = value ∧
      store.parsePath value = pure path) ∨ ∃ e, store.parsePath value = Script.fail e ∧
      ∀ path, parse store.nfc value ≠ .ok path := by
  unfold parsePath
  cases h : parse store.nfc value with
  | ok path => exact .inl ⟨path, rfl, value_of_parse h, rfl⟩
  | error e => exact .inr ⟨_, rfl, by simp⟩

/-- A push begins with what is there, and it does begin where it can be resumed. -/
theorem beginPush_meets (hc : store.Clean s)
    (hgood : ∀ bytes, store.Inherits r bytes s → good bytes) :
    (store.beginPush r.allocated r.transferId r.remotePath r.totalSize r.fileHash).Meets
      (store.terms r good) (fun res t => (∃ transfer, res = .ok transfer ∧
        Begun store r good s t transfer) ∨ ∃ e, res = .error e ∧ store.Rely r.id s t ∧
        (r.transferId = some r.id → ¬ store.Resumable r good s)) s := by
  unfold beginPush
  rcases parsePath_cases store r.remotePath with
    ⟨path, hparse, hvalue, hp⟩ | ⟨e, hp, hparse⟩
  swap
  · rw [hp, fail_bind]
    exact fun t ht => .inr ⟨e, rfl, ht, fun _ h => hparse _ h.parses.choose_spec⟩
  rw [hp, pure_bind_eq, hvalue]
  unfold parseHash
  split_ifs with hdigest
  swap
  · exact fun t ht => .inr ⟨_, rfl, ht, fun _ h => hdigest h.digest⟩
  rw [pure_bind_eq]
  refine (ensureLayout_meets hc).bind (fun _ t₁ h₁ => ?_)
    fun e t h => .inr ⟨e, rfl, h.rely, fun _ hres => ?_⟩
  swap
  · -- The metadata file stands in the staging directory.
    obtain ⟨m, ⟨bytes, hb, -⟩, -⟩ := hres.held
    obtain ⟨i, hi, -⟩ := content_eq_some.mp hb
    have hstage : s.node store.stageRoot = some .dir :=
      s.node_parent (p := store.stageRoot) (c := r.id ++ ".json") (by
        rw [← metadataPath, hi]
        simp)
    exact absurd (h.success hstage) (by simp)
  have hready₁ : store.Ready t₁ := ⟨h₁.rely.clean hc, h₁.stage rfl rfl⟩
  cases hr : r.transferId with
  | none =>
    have hempty : good [] := hgood [] (.inl ⟨hr, rfl⟩)
    refine (newPush_meets hready₁ hr hempty).bind ?_ ?_
    · rintro m t₂ ⟨m', hm', hmatch, hstate, hready, hcontent⟩
      obtain rfl := Except.ok.inj hm'
      refine (openPush_meets hready hmatch ?_).mono fun res t h => ?_
      · intro _ bytes hb
        rw [hcontent, some_inj] at hb
        exact hb ▸ hempty
      · rcases h with ⟨hcomplete, -⟩ | ⟨bytes, transfer, -, hb, hres, hopened⟩ |
          ⟨e, -, -, -, hlarge⟩
        · simp [hstate] at hcomplete
        · rw [hcontent, some_inj] at hb
          exact .inl ⟨transfer, hres, .opened hopened (.inl ⟨hr, hb.symm⟩)⟩
        · exact absurd (hlarge [] hcontent) (by simp)
    · rintro e t ⟨m, hm, -⟩
      cases hm
  | some id =>
    have hid : r.id = id := by simp [PushRequest.id, hr]
    rw [hid.symm] at hr ⊢
    refine (resumeMetadata_meets hready₁.toClean).bind ?_ ?_
    · rintro m t₂ ⟨h₂, ⟨m', hm', hrec, hmatch, hvalid⟩ | ⟨e, he, -⟩⟩
      · obtain rfl := Except.ok.inj hm'
        have h₀₂ := h₁.rely.trans h₂
        have hrec₀ : store.Recorded r.id m s := by
          obtain ⟨bytes, hb, hrest⟩ := hrec
          exact ⟨bytes, h₁.rely.content_metadata.symm.trans hb, hrest⟩
        refine (openPush_meets (h₂.ready hready₁) hmatch ?_).mono fun res t h => ?_
        · intro hstate bytes hb
          exact hgood bytes (.inr ⟨hr, h₀₂.content_part.symm.trans hb, hvalid, m, hrec₀, hmatch,
            hstate⟩)
        · rcases h with ⟨hcomplete, hres, ht⟩ | ⟨bytes, transfer, hstate, hb, hres, hopened⟩ |
            ⟨e, he, hstate, ht, hlarge⟩
          · exact .inl ⟨_, hres, .complete hr (h₀₂.trans ht) hrec₀ hmatch hcomplete hvalid⟩
          · exact .inl ⟨transfer, hres, .opened hopened
              (.inr ⟨hr, h₀₂.content_part.symm.trans hb, hvalid, m, hrec₀, hmatch, hstate⟩)⟩
          · refine .inr ⟨e, he, h₀₂.trans ht, fun _ hres => ?_⟩
            obtain ⟨m', hrec', -, hor⟩ := hres.held
            obtain rfl := hrec₀.inj hrec'
            rcases hor with hcomplete | ⟨bytes, hb, hle, -⟩
            · simp [hstate] at hcomplete
            · exact absurd hle (Nat.not_le_of_lt (hlarge bytes (h₀₂.content_part.trans hb)))
      · cases he
    · rintro e t ⟨h₂, ⟨m', hm', -⟩ | ⟨e', -, hnot⟩⟩
      · cases hm'
      · refine .inr ⟨e, rfl, h₁.rely.trans h₂, fun _ hres => ?_⟩
        obtain ⟨m, hrec, hmatch, -⟩ := hres.held
        exact hnot m (h₁.rely.recorded hrec) hmatch hres.valid

end SyncStore

end KindleBridge.Device
