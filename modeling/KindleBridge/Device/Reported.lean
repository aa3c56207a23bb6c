import KindleBridge.Device.Crash

/-! # Files that are reported as complete

Push sessions follow one another on a store, without crashes. A session that answers
Complete has put its file in place, or has found its transfer recorded as complete. In the
second case nothing looks at the target, where a push of other content may have left its
file in the meantime.
-/

namespace KindleBridge.Device

open Schema Script FileSystem StoreCall

/-- The request that the metadata of a transfer belong to. -/
def TransferMetadata.request (m : TransferMetadata) : PushRequest :=
  ⟨some m.transferId, m.transferId, m.remotePath, m.totalSize, m.fileHash⟩

variable {o : FileSystem String} {x : PushSession}

namespace SyncStore

variable (store : SyncStore)

def serveSession (s : FileSystem String) (x : PushSession) : FileSystem String :=
  ((x.script store).run StoreCall.serve s).2

/-- The status with which a session answers Complete. -/
def answer (s : FileSystem String) (x : PushSession) : Option SyncStatus :=
  ((x.script store).run StoreCall.serve s).1.toOption.join

/-- The target of a request holds a regular file with the declared size and hash. -/
def InPlace (r : PushRequest) (s : FileSystem String) : Prop :=
  ∃ bytes ∈ s.content (store.finalPath r), store.Declared r bytes

instance (r : PushRequest) (s : FileSystem String) : Decidable (store.InPlace r s) :=
  inferInstanceAs (Decidable (∃ bytes ∈ s.content (store.finalPath r), _))

/-- If a session answers Complete, the file is in place at that moment. -/
def AnswersTruly (s : FileSystem String) (x : PushSession) : Prop :=
  ∀ _status ∈ store.answer s x, store.InPlace x.request (store.serveSession s x)

instance (s : FileSystem String) (x : PushSession) : Decidable (store.AnswersTruly s x) :=
  inferInstanceAs (Decidable (∀ _status ∈ store.answer s x, _))

def Completed (id : String) (m : TransferMetadata) (s : FileSystem String) : Prop :=
  store.Recorded id m s ∧ m.state = .complete

/--
The path does not lead into the staging directory, a new transfer has an id that is not in
use, and where the transfer is complete already, all complete ones with its target have
declared the same content.
-/
structure Current (s : FileSystem String) (x : PushSession) : Prop where
  outside : x.request.Outside
  fresh : x.request.transferId = none → s.content (store.metadataPath x.request.id) = none
  agrees : ∀ m id' m', store.Completed x.request.id m s → store.Completed id' m' s →
    store.finalPath m'.request = store.finalPath m.request →
    m'.totalSize = m.totalSize ∧ m'.fileHash = m.fileHash

variable {store} {r : PushRequest} {m m' : TransferMetadata} {good : List UInt8 → Prop}
  {s t u : FileSystem String} {call : StoreCall} {p : List String} {id : String}
  {bytes : List UInt8}

/-! ## What a call does to files in place -/

/-- A file is in place, beside the staging directory. -/
def Stands (store : SyncStore) (r : PushRequest) (s : FileSystem String) : Prop :=
  store.Aside (store.finalPath r) ∧ store.InPlace r s

/-- A file at the path stays as it is, if the path is not in the staging directory. -/
def Stays (store : SyncStore) (p : List String) (s t : FileSystem String) : Prop :=
  store.Aside p → ∀ bytes, s.content p = some bytes → t.content p = some bytes

theorem Stays.trans (h : store.Stays p s t) (h' : store.Stays p t u) : store.Stays p s u :=
  fun hp bytes hb => h' hp bytes (h hp bytes hb)

theorem Stays.stands (h : store.Stays (store.finalPath r) s t) (hs : store.Stands r s) :
    store.Stands r t := by
  obtain ⟨ha, bytes, hb, hd⟩ := hs
  exact ⟨ha, bytes, h ha bytes hb, hd⟩

theorem Effect.stays (h : Effect store id s t) : store.Stays p s t := by
  intro hp bytes hb
  cases h with
  | nothing => exact hb
  | @directory q h _ =>
    obtain ⟨i, hi, -⟩ := content_eq_some.mp hb
    have hne : q ≠ p := by
      rintro rfl
      simp [h.2.2] at hi
    have hkeeps : Keeps (· = p) s (s.addDir q h) := keeps_addDir hne
    exact (hkeeps.content rfl).trans hb
  | own hrw => exact (hrw.keeps.content hp.not_own).trans hb

theorem Quiet.stays (h : store.Quiet r good call s) (hc : store.Clean s) :
    store.Stays p s (call.serve s).2 :=
  (h.effect hc).stays

theorem Delivers.stays (h : Delivers store r s t) (hp : p ≠ store.finalPath r) :
    store.Stays p s t := by
  intro ha bytes hb
  refine (h.keeps.content ⟨?_, hp⟩).trans hb
  rintro rfl
  exact ha.not_own (own_part r.id)

theorem Delivers.stands (h : Delivers store r s t) : store.Stands r t := by
  obtain ⟨bytes, hb, hd⟩ := h.content
  exact ⟨h.aside, bytes, hb, hd⟩

/-- What a session does to the rest of the store. -/
structure Spares (store : SyncStore) (r : PushRequest) (s t : FileSystem String) : Prop where
  clean : store.Clean t
  others : ∀ id, r.id ≠ id → store.Rely id s t
  files : ∀ p, p ≠ store.finalPath r → store.Stays p s t
  stands : store.Stands r s → store.Stands r t

theorem Spares.refl (hc : store.Clean s) : store.Spares r s s :=
  ⟨hc, fun _ _ => .refl s, fun _ _ _ _ hb => hb, fun h => h⟩

theorem Spares.trans (h : store.Spares r s t) (h' : store.Spares r t u) : store.Spares r s u :=
  ⟨h'.clean, fun id hid => (h.others id hid).trans (h'.others id hid),
    fun p hp => (h.files p hp).trans (h'.files p hp), fun hs => h'.stands (h.stands hs)⟩

theorem Does.spares (h : store.Does r good call s) (hc : store.Clean s) :
    store.Spares r s (call.serve s).2 where
  clean := PushSessions.clean_of_does h hc
  others id hid := PushSessions.rely_of_does h hc hid
  files p hp := by
    rcases h with h | h
    · exact h.stays hc
    · rcases h.effect with he | hd
      · rw [he]
        exact fun _ _ hb => hb
      · exact hd.stays hp
  stands hs := by
    rcases h with h | h
    · exact (h.stays hc).stands hs
    · rcases h.effect with he | hd
      · rwa [he]
      · exact hd.stands

/-! ## What a transfer records -/

/-- The metadata file of the request holds these metadata of it. -/
def Notes (store : SyncStore) (r : PushRequest) (m : TransferMetadata)
    (s : FileSystem String) : Prop :=
  s.content (store.metadataPath r.id) = some (store.encodeMetadata m) ∧ r.Matches m

theorem Notes.completed (h : store.Notes r m s) (hf : store.Faithful r)
    (hstate : m.state = .complete) : store.Completed r.id m s :=
  ⟨⟨_, h.1, hf m h.2, h.2.version, h.2.transferId⟩, hstate⟩

theorem Notes.eq_of_recorded (h : store.Notes r m s) (hf : store.Faithful r)
    (hrec : store.Recorded r.id m' s) : m' = m :=
  hrec.inj ⟨_, h.1, hf m h.2, h.2.version, h.2.transferId⟩

/--
How a call treats the staging file and the metadata of a transfer: the file stays where it
is, and new metadata say complete only when it is gone.
-/
def Annotates (store : SyncStore) (r : PushRequest) (s t : FileSystem String) : Prop :=
  t.node (store.partPath r.id) = s.node (store.partPath r.id) ∧
    (t.content (store.metadataPath r.id) = s.content (store.metadataPath r.id) ∨
      ∃ m, store.Notes r m t ∧ (m.state = .complete → s.node (store.partPath r.id) = none))

theorem annotates_of_rely (h : store.Rely r.id s t) : store.Annotates r s t :=
  ⟨h.own.node (own_part _), .inl h.content_metadata⟩

theorem annotates_of_rewrites (h : Rewrites (· = store.temporaryPath r.id) s t) :
    store.Annotates r s t :=
  ⟨h.keeps.node partPath_ne_temporaryPath, .inl (h.keeps.content metadataPath_ne_temporaryPath)⟩

theorem annotates_setData {i : ℕ} (hi : s.node (store.partPath r.id) = some (.file i)) :
    store.Annotates r s (s.setData i bytes) := by
  have hrw : Rewrites (· = store.partPath r.id) s (s.setData i bytes) := rewrites_setData hi
  exact ⟨rfl, .inl (hrw.keeps.content partPath_ne_metadataPath.symm)⟩

theorem annotates_record (hc : store.Clean s) (hm : r.Matches m)
    (htmp : s.content (store.temporaryPath r.id) = some (store.encodeMetadata m))
    (hgone : m.state = .complete → s.node (store.partPath r.id) = none) :
    store.Annotates r s ((store.recordCall r).serve s).2 := by
  obtain ⟨hcontent, hkeeps⟩ := record_serve hc htmp
  exact ⟨hkeeps.node rfl, .inr ⟨m, ⟨hcontent, hm⟩, hgone⟩⟩

theorem Quiet.annotates (h : store.Quiet r good call s) (hid : r.transferId ≠ none)
    (hc : store.Clean s) : store.Annotates r s (call.serve s).2 := by
  cases h with
  | looks hl =>
    rw [show (call.serve s).2 = s from FsOp.serve_of_looks hl s]
    exact annotates_of_rely (.refl s)
  | lays hp =>
    exact annotates_of_rely (rely_createDir (fun q hq _ => hc.way (hq.trans hp)) (.inl hp))
  | enters hp hw => exact annotates_of_rely (rely_createDir hw (.inr hp))
  | drafts =>
    change store.Annotates r s (s.create (store.temporaryPath r.id)).2
    rcases create_cases (p := store.temporaryPath r.id) hc.way_child hc.not_isLink with
      ⟨e, he⟩ | ⟨i, hi, he⟩ | ⟨h, he⟩
    · rw [he]
      exact annotates_of_rely (.refl s)
    · rw [he]
      exact annotates_of_rewrites (rewrites_setData hi)
    · rw [he]
      exact annotates_of_rewrites (rewrites_addFile (h := h))
  | fills hi => exact annotates_of_rewrites (rewrites_setData hi)
  | records hm htmp _ hgone => exact annotates_record hc hm htmp hgone
  | opens hnone => exact absurd hnone hid
  | appends hi | cuts hi => exact annotates_setData hi

/-- What holds of a transfer from the time on when its staging file has been opened. -/
structure Tends (store : SyncStore) (r : PushRequest) (o t : FileSystem String) : Prop where
  clean : store.Clean t
  notes : ∃ m, store.Notes r m t ∧ (m.state = .complete → store.Stands r t)
  gone : t.node (store.partPath r.id) = none → store.Stands r t
  stays : t.node (store.partPath r.id) ≠ none → store.Stays (store.finalPath r) o t

theorem Does.tends (h : store.Does r good call s)
    (hid : r.transferId ≠ none) (hs : store.Tends r o s) : store.Tends r o (call.serve s).2 := by
  have hclean := PushSessions.clean_of_does h hs.clean
  obtain ⟨m, hm, hstate⟩ := hs.notes
  rcases h with h | h
  · obtain ⟨hpart, hnotes⟩ := h.annotates hid hs.clean
    have hstays : store.Stays (store.finalPath r) s (call.serve s).2 := h.stays hs.clean
    refine ⟨hclean, ?_, fun hn => ?_, fun hn => ?_⟩
    · rcases hnotes with hsame | ⟨m', hm', hgone⟩
      · exact ⟨m, ⟨hsame.trans hm.1, hm.2⟩, fun hc => hstays.stands (hstate hc)⟩
      · exact ⟨m', hm', fun hc => hstays.stands (hs.gone (hgone hc))⟩
    · exact hstays.stands (hs.gone (hpart.symm.trans hn))
    · rw [hpart] at hn
      exact (hs.stays hn).trans hstays
  · rcases h.effect with he | hd
    · rwa [he]
    · refine ⟨hclean, ⟨m, ⟨?_, hm.2⟩, fun _ => hd.stands⟩, fun _ => hd.stands,
        fun hn => absurd hd.part hn⟩
      refine (hd.keeps.content ⟨partPath_ne_metadataPath.symm, ?_⟩).trans hm.1
      intro he
      exact hd.aside.not_own (he ▸ own_metadata r.id)

/-! ## One session -/

theorem sessionTerms_alone : (store.sessionTerms r good).Eases
    (.alone StoreCall.serve (store.Does r good)) where
  serve := rfl
  rely := by
    rintro s _ rfl
    exact .refl s
  allowed h := h

theorem terms_alone : (store.terms r good).Eases (.alone StoreCall.serve (store.Quiet r good)) where
  serve := rfl
  rely := by
    rintro s _ rfl
    exact .refl s
  allowed h := h

theorem across_spares : Across (.alone StoreCall.serve (store.Does r good))
    fun s t => store.Clean s → store.Spares r s t where
  rely := by
    rintro s _ rfl hc
    exact .refl hc
  call h hc := h.spares hc
  trans h h' hc := (h hc).trans (h' (h hc).clean)

theorem across_tends (hid : r.transferId ≠ none) :
    Across (.alone StoreCall.serve (store.Does r good))
      fun s t => store.Tends r o s → store.Tends r o t where
  rely := by
    rintro s _ rfl h
    exact h
  call h hs := h.tends hid hs
  trans h h' hs := h' (h hs)

theorem across_stays : Across (.alone StoreCall.serve (store.Quiet r good))
    fun s t => store.Clean s → store.Clean t ∧ store.Stays p s t where
  rely := by
    rintro s _ rfl hc
    exact ⟨hc, fun _ _ hb => hb⟩
  call h hc := ⟨(h.effect hc).clean hc, h.stays hc⟩
  trans h h' hc := ⟨(h' (h hc).1).1, (h hc).2.trans (h' (h hc).1).2⟩

theorem session_spares (ho : x.request.Outside) (hc : store.Clean s) :
    store.Spares x.request s (store.serveSession s x) := by
  have hmeets : (x.script store).Meets (store.sessionTerms x.request fun _ => True) _ s :=
    script_meets ho hc trivial (fun _ _ => trivial) fun _ _ _ _ => trivial
  exact ((hmeets.ease sessionTerms_alone).across across_spares).run.2 hc

theorem Served.cases
    {res : Except StoreError (Option SyncStatus)} (h : Served store x good bytes u res) :
    (∃ m, store.Published x.request m u) ∨
      u.node (store.partPath x.request.id) ≠ none ∧ res.toOption.join = none := by
  have hnode : ∀ {bytes}, u.content (store.partPath x.request.id) = some bytes →
      u.node (store.partPath x.request.id) ≠ none := by
    intro bytes hb
    obtain ⟨i, hi, -⟩ := content_eq_some.mp hb
    simp [hi]
  cases h with
  | finished _ h =>
    cases h with
    | published hm => exact .inl ⟨_, hm⟩
    | refused _ hb => exact .inr ⟨hnode hb, rfl⟩
    | mismatched _ _ hr | short _ hr => exact .inr ⟨hnode hr.content, rfl⟩
  | retreated _ hr => exact .inr ⟨hnode hr.content, rfl⟩

/-- What a session has made of its transfer, with its answer. -/
inductive Outcome (store : SyncStore) (r : PushRequest) (s u : FileSystem String) :
    Option SyncStatus → Prop
  | denied : store.Rely r.id s u → store.Stays (store.finalPath r) s u → Outcome store r s u none
  | known {m : TransferMetadata} {a : Option SyncStatus} : store.Rely r.id s u →
      store.Completed r.id m s → r.Matches m → Outcome store r s u a
  | published {m : TransferMetadata} {bytes : List UInt8} {a : Option SyncStatus} :
      store.Inherits r bytes s → store.Notes r m u → m.state = .complete →
      store.Stands r u → Outcome store r s u a
  | unfinished {m : TransferMetadata} {bytes : List UInt8} : store.Inherits r bytes s →
      store.Notes r m u → m.state = .inProgress → store.Stays (store.finalPath r) s u →
      Outcome store r s u none

theorem Opened.tends {x : PushTransfer}
    (h : store.Opened r good x bytes s) : store.Tends r s s where
  clean := h.ready.toClean
  notes := ⟨_, ⟨h.recorded, h.tracks.matched⟩, by simp [h.tracks.state]⟩
  gone hn := by
    obtain ⟨i, hi, -⟩ := content_eq_some.mp h.tracks.content
    simp [hi] at hn
  stays _ _ _ hb := hb

theorem serve_outcome {transfer : PushTransfer} (ho : x.request.Outside) (hstays : store.Stays
      (store.finalPath x.request) s o) (hinherits : store.Inherits x.request bytes s)
    (h : store.Opened x.request (fun _ => True) transfer bytes o) :
    Outcome store x.request s ((x.serve store transfer).run StoreCall.serve o).2
      ((x.serve store transfer).run StoreCall.serve o).1.toOption.join := by
  -- As a session that resumes its transfer it does not open the staging file again.
  let y : PushSession := { x with request := x.request.resumed }
  have hmeets : (y.serve store transfer).Meets (store.sessionTerms y.request fun _ => True) _ o :=
    serve_meets (x := y) ho trivial (fun _ _ => trivial) h.of_resumed
  obtain ⟨hserved, htends⟩ := ((hmeets.ease sessionTerms_alone).across
    (across_tends (o := o) (by simp [y, PushRequest.resumed]))).run
  have ht := htends h.of_resumed.tends
  obtain ⟨m, ⟨hm, hmatch⟩, hstate⟩ := ht.notes
  have hmatch' : x.request.Matches m := PushRequest.matches_resumed_iff.mp hmatch
  by_cases hcomplete : m.state = .complete
  · exact .published hinherits ⟨hm, hmatch'⟩ hcomplete (hstate hcomplete)
  rcases hserved.cases with ⟨m', hp⟩ | ⟨hpart, hnone⟩
  · exact .published hinherits ⟨hp.recorded, PushRequest.matches_resumed_iff.mp hp.matched⟩
      hp.state (ht.gone hp.part)
  · have hanswer : ((x.serve store transfer).run StoreCall.serve o).1.toOption.join = none := hnone
    rw [hanswer]
    exact .unfinished hinherits ⟨hm, hmatch'⟩ (state_ne_complete hcomplete)
      (hstays.trans (ht.stays hpart))

theorem session_outcome (ho : x.request.Outside) (hc : store.Clean s) :
    Outcome store x.request s (store.serveSession s x) (store.answer s x) := by
  have hmeets : (x.request.begin store).Meets (store.terms x.request fun _ => True) _ s :=
    beginPush_meets hc fun _ _ => trivial
  obtain ⟨hbegun, hacross⟩ := ((hmeets.ease terms_alone).across
    (across_stays (p := store.finalPath x.request))).run
  obtain ⟨hclean, hstays⟩ := hacross hc
  dsimp only [Terms.alone] at hbegun hclean hstays
  unfold serveSession answer PushSession.script
  rcases hb : (x.request.begin store).run StoreCall.serve s with ⟨e | transfer, o⟩
  · rw [hb] at hbegun hclean hstays
    rcases hbegun with ⟨_, he, -⟩ | ⟨_, -, ht, -⟩
    · cases he
    · rw [run_bind_of_error hb]
      exact .denied ht hstays
  · rw [hb] at hbegun hclean hstays
    rw [run_bind_of_ok hb]
    rcases hbegun with ⟨_, hres, hbegun⟩ | ⟨_, he, -⟩
    swap
    · cases he
    obtain rfl := Except.ok.inj hres
    cases hbegun with
    | @complete m hid ht hrec hmatch hstate hvalid =>
      split_ifs with hready
      · have hserve : (x.serve store ⟨m, none, [], maxU64⟩).Meets
          (store.sessionTerms x.request fun _ => True) _ o :=
          serve_complete_meets hclean hmatch hstate
        exact .known (ht.trans (hserve.ease sessionTerms_alone).run.1) ⟨hrec, hstate⟩ hmatch
      · exact .known ht ⟨hrec, hstate⟩ hmatch
    | opened hopened hinherits =>
      split_ifs with hready
      · exact serve_outcome ho hstays hinherits hopened
      · exact .unfinished hinherits ⟨hopened.recorded, hopened.tracks.matched⟩
          hopened.tracks.state hstays

/-! ## Sessions in sequence -/

theorem stands_iff_of_matches (h : r.Matches m) : store.Stands m.request s ↔ store.Stands r s := by
  simp [Stands, InPlace, Declared, finalPath, TransferMetadata.request, h.remotePath, h.totalSize,
    h.fileHash]

theorem stands_of_agrees (hpath : store.finalPath m'.request = store.finalPath m.request)
    (hsize : m'.totalSize = m.totalSize) (hhash : m'.fileHash = m.fileHash)
    (h : store.Stands m'.request s) : store.Stands m.request s := by
  obtain ⟨ha, bytes, hb, hlen, hd⟩ := h
  exact ⟨hpath ▸ ha, bytes, hpath ▸ hb, hlen.trans hsize, hd.trans hhash⟩

/--
Wherever a transfer is complete, some complete transfer with the same target has its file
in place.
-/
structure Kept (store : SyncStore) (s : FileSystem String) : Prop where
  clean : store.Clean s
  held : ∀ id m, store.Completed id m s → ∃ id' m', store.Completed id' m' s ∧
    store.finalPath m'.request = store.finalPath m.request ∧ store.Stands m'.request s

theorem Rely.completed_iff (h : store.Rely id s t) :
    store.Completed id m t ↔ store.Completed id m s := by
  simp only [Completed, Recorded, h.content_metadata]

theorem Kept.of_completed_iff (hk : store.Kept s) (hu : store.Clean u)
    (hiff : ∀ id m, store.Completed id m u ↔ store.Completed id m s)
    (hstands : ∀ id m, store.Completed id m s → store.Stands m.request s →
      store.Stands m.request u) : store.Kept u := by
  refine ⟨hu, fun id m hm => ?_⟩
  obtain ⟨id', m', hm', hpath, hs⟩ := hk.held id m ((hiff id m).mp hm)
  exact ⟨id', m', (hiff id' m').mpr hm', hpath, hstands id' m' hm' hs⟩

theorem Inherits.not_completed (h : store.Inherits r bytes s)
    (hfresh : r.transferId = none → s.content (store.metadataPath r.id) = none) :
    ¬ store.Completed r.id m s := by
  rintro ⟨hrec, hstate⟩
  rcases h with ⟨hnone, -⟩ | ⟨-, -, -, m', hrec', -, hstate'⟩
  · obtain ⟨bytes, hb, -⟩ := hrec
    simp [hfresh hnone] at hb
  · rw [hrec.inj hrec', hstate'] at hstate
    cases hstate

/-- A file of another target stays, and so does one of this target unless it is replaced. -/
theorem Spares.stands_of_stays (h : store.Spares r s u)
    (hstays : store.Stays (store.finalPath r) s u) (hs : store.Stands m.request s) :
    store.Stands m.request u := by
  by_cases hp : store.finalPath m.request = store.finalPath r
  · rw [← hp] at hstays
    exact hstays.stands hs
  · exact (h.files _ hp).stands hs

theorem Spares.completed_iff (h : store.Spares r s u)
    (hown : ∀ m, store.Completed r.id m u ↔ store.Completed r.id m s) (id : String)
    (m : TransferMetadata) : store.Completed id m u ↔ store.Completed id m s := by
  by_cases hid : r.id = id
  · subst hid
    exact hown m
  · exact (h.others id hid).completed_iff

theorem kept_of_published (hk : store.Kept s) (hf : store.Faithful r)
    (hu : store.Spares r s u) (hnew : ∀ m, ¬ store.Completed r.id m s) (hm : store.Notes r m u)
    (hstate : m.state = .complete) (hs : store.Stands r u) : store.Kept u := by
  have hcompleted := hm.completed hf hstate
  have hstands : store.Stands m.request u := (stands_iff_of_matches hm.2).mpr hs
  refine ⟨hu.clean, fun id m₀ h₀ => ?_⟩
  by_cases hid : r.id = id
  · subst hid
    obtain rfl := hm.eq_of_recorded hf h₀.1
    exact ⟨r.id, m₀, hcompleted, rfl, hstands⟩
  · obtain ⟨id', m', hm', hpath, hs'⟩ := hk.held id m₀ ((hu.others id hid).completed_iff.mp h₀)
    -- The transfer that had its file in place is another one, and its file may be replaced.
    have hid' : r.id ≠ id' := by
      rintro rfl
      exact hnew m' hm'
    have hfinal : store.finalPath m.request = store.finalPath r := by
      simp [finalPath, TransferMetadata.request, hm.2.remotePath]
    by_cases hp : store.finalPath m'.request = store.finalPath r
    · exact ⟨r.id, m, hcompleted, hfinal.trans (hp.symm.trans hpath), hstands⟩
    · exact ⟨id', m', (hu.others id' hid').completed_iff.mpr hm', hpath, (hu.files _ hp).stands hs'⟩

theorem stands_of_known (hk : store.Kept s) (h : store.Current s x)
    (hm : store.Completed x.request.id m s) (hmatch : x.request.Matches m) :
    store.Stands x.request s := by
  obtain ⟨id', m', hm', hpath, hs⟩ := hk.held _ m hm
  obtain ⟨hsize, hhash⟩ := h.agrees m id' m' hm hm' hpath
  exact (stands_iff_of_matches hmatch).mp (stands_of_agrees hpath hsize hhash hs)

theorem answersTruly_of_current (hk : store.Kept s) (h : store.Current s x) :
    store.AnswersTruly s x := by
  intro status hstatus
  have hu := session_spares h.outside hk.clean
  have houtcome := session_outcome h.outside hk.clean
  generalize store.answer s x = a at hstatus houtcome
  cases houtcome with
  | denied | unfinished => cases hstatus
  | known _ hm hmatch => exact (hu.stands (stands_of_known hk h hm hmatch)).2
  | published _ _ _ hs => exact hs.2

theorem kept_serveSession (hk : store.Kept s) (h : store.Current s x)
    (hf : store.Faithful x.request) : store.Kept (store.serveSession s x) := by
  have hu := session_spares h.outside hk.clean
  have houtcome := session_outcome h.outside hk.clean
  generalize store.answer s x = a at houtcome
  cases houtcome with
  | denied hrely hstays =>
    exact hk.of_completed_iff hu.clean (hu.completed_iff fun m => hrely.completed_iff)
      fun _ _ _ hs => hu.stands_of_stays hstays hs
  | @known m _ hrely hm hmatch =>
    refine hk.of_completed_iff hu.clean (hu.completed_iff fun m => hrely.completed_iff) ?_
    intro id' m' hm' hs
    by_cases hp : store.finalPath m'.request = store.finalPath x.request
    · have hfinal : store.finalPath m.request = store.finalPath x.request := by
        simp [finalPath, TransferMetadata.request, hmatch.remotePath]
      have hpath := hp.trans hfinal.symm
      obtain ⟨hsize, hhash⟩ := h.agrees m id' m' hm hm' hpath
      have hstands := hu.stands (stands_of_known hk h hm hmatch)
      exact stands_of_agrees hpath.symm hsize.symm hhash.symm
        ((stands_iff_of_matches hmatch).mpr hstands)
    · exact (hu.files _ hp).stands hs
  | published hinherits hm hstate hs =>
    exact kept_of_published hk hf hu (fun _ => hinherits.not_completed h.fresh) hm hstate hs
  | unfinished hinherits hm hstate hstays =>
    refine hk.of_completed_iff hu.clean (hu.completed_iff fun m' => ?_)
      fun _ _ _ hs => hu.stands_of_stays hstays hs
    refine iff_of_false (fun hm' => ?_) (hinherits.not_completed h.fresh)
    have heq := hm.eq_of_recorded hf hm'.1
    rw [← heq, hm'.2] at hstate
    cases hstate

/--
In every sequence of sessions on a store that starts without transfers, whenever a session
answers Complete, the target holds a file with the declared size and hash, as long as a
complete transfer is resumed only while nothing else has been pushed to its target.
-/
theorem complete_answers_hold (store : SyncStore) {fs : FileSystem String}
    (hc : store.Clean fs) (hempty : ∀ id, fs.content (store.metadataPath id) = none)
    {sessions : List PushSession} (hf : ∀ x ∈ sessions, store.Faithful x.request)
    (h : Along store.serveSession store.Current fs sessions) :
    Along store.serveSession store.AnswersTruly fs sessions := by
  have hk : store.Kept fs := by
    refine ⟨hc, fun id m hm => ?_⟩
    obtain ⟨⟨bytes, hb, -⟩, -⟩ := hm
    simp [hempty id] at hb
  have hfaithful : Along store.serveSession (fun _ x => store.Faithful x.request) fs sessions :=
    .of_forall fun _ x hx => hf x hx
  exact (h.and hfaithful).of_invariant hk fun s x hs hx =>
    ⟨answersTruly_of_current hs hx.1, kept_serveSession hs hx.1 hx.2⟩

theorem content_empty (p : List String) : (empty : FileSystem String).content p = none := by
  cases p <;> rfl

theorem current_of_fresh (ho : x.request.Outside)
    (hfresh : s.content (store.metadataPath x.request.id) = none) : store.Current s x := by
  refine ⟨ho, fun _ => hfresh, fun m _ _ hm _ _ => ?_⟩
  obtain ⟨⟨bytes, hb, -⟩, -⟩ := hm
  simp [hfresh] at hb

/-- Two files for one path, and the session that resumes the transfer of the first. -/
def firstPush : PushSession :=
  ⟨⟨none, "a", "f", 1, "A"⟩, true, fun offset => [[65].drop offset], true⟩
def secondPush : PushSession :=
  ⟨⟨none, "b", "f", 1, "B"⟩, true, fun offset => [[66].drop offset], true⟩
def firstAgain : PushSession := ⟨firstPush.request.resumed, true, fun _ => [], true⟩

def twoPushes : SyncStore := sampleStore [firstPush.request, secondPush.request]

theorem faithful_twoPushes (hr : r ∈ [firstPush.request, secondPush.request]) :
    twoPushes.Faithful r := by
  rintro ⟨version, id, direction, path, size, hash, offset, state⟩ ⟨h1, h2, h3, h4, h5, h6⟩
  dsimp only at h1 h2 h3 h4 h5 h6
  subst h1 h2 h3 h4 h5 h6
  simp only [List.mem_cons, List.not_mem_nil, or_false] at hr
  rcases hr with rfl | rfl <;> cases state <;>
    simp [twoPushes, sampleStore, firstPush, secondPush, PushRequest.id, List.findIdx_cons]

theorem firstAgain_current :
    twoPushes.Current (twoPushes.serveSession .empty firstPush) firstAgain := by
  have hspares : twoPushes.Spares firstPush.request .empty _ :=
    session_spares (x := firstPush) (by decide) clean_empty
  refine ⟨by decide, by decide, fun m id' m' hm hm' _ => ?_⟩
  by_cases hid : firstPush.request.id = id'
  · subst hid
    obtain rfl := hm.1.inj hm'.1
    exact ⟨rfl, rfl⟩
  · obtain ⟨⟨bytes, hb, -⟩, -⟩ := (hspares.others id' hid).completed_iff.mp hm'
    simp [content_empty] at hb

theorem complete_answers_hold_in_turn : Along twoPushes.serveSession twoPushes.AnswersTruly .empty
      [firstPush, firstAgain, secondPush] := by
  have hcurrent : Along twoPushes.serveSession twoPushes.Current .empty
      [firstPush, firstAgain, secondPush] :=
    ⟨current_of_fresh (by decide) (by decide +kernel), firstAgain_current,
      current_of_fresh (by decide) (by decide +kernel), trivial⟩
  apply complete_answers_hold twoPushes clean_empty (fun _ => content_empty _) ?_ hcurrent
  simp only [List.forall_mem_cons]
  exact ⟨faithful_twoPushes (by simp), (faithful_twoPushes (by simp)).of_resumed,
    faithful_twoPushes (by simp), by simp⟩

/-- The target holds the second file when the first transfer is reported as complete again. -/
theorem replaced_file_reported : ¬ Along twoPushes.serveSession twoPushes.AnswersTruly .empty
    [firstPush, secondPush, firstAgain] := by
  decide +kernel

end SyncStore

end KindleBridge.Device
