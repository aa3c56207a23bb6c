import KindleBridge.Device.SyncStore

/-! # The calls of a push

A push inspects the store, makes directories, and writes to its own files. `Quiet` lists
these calls with what each of them finds. Only the rename that publishes a file goes
beyond them.
-/

namespace KindleBridge.Device

open Schema Script FileSystem

/-! ## The staging directory

Every transfer has three files in the staging directory. What one transfer does to its
files leaves those of the others alone.
-/

namespace SyncStore

variable {p : List String} (store : SyncStore) {s t u : FileSystem String} {id id' name : String}
  {i : ℕ} {bytes : List UInt8}

def Own (id : String) (p : List String) : Prop :=
  p = store.partPath id ∨ p = store.metadataPath id ∨ p = store.temporaryPath id

/-- No link leads to the staging directory, and there are only regular files in it. -/
structure Clean (s : FileSystem String) : Prop where
  way : ∀ {q}, q <+: store.stageRoot → ¬ s.IsLink q
  flat : ∀ {p}, store.stageRoot <+: p → p ≠ store.stageRoot →
    s.node p = none ∨ ∃ i, s.node p = some (.file i)

structure Ready (s : FileSystem String) : Prop extends store.Clean s where
  stage : s.node store.stageRoot = some .dir

/-- What a transfer relies on while others are at work. -/
structure Rely (id : String) (s t : FileSystem String) : Prop where
  own : Keeps (store.Own id) s t
  clean : store.Clean s → store.Clean t
  stage : s.node store.stageRoot = some .dir → t.node store.stageRoot = some .dir
  links : NoNewLinks s t

variable {store} {P : List String → Prop}

theorem Rely.refl (s : FileSystem String) : store.Rely id s s :=
  ⟨Keeps.refl s, fun h => h, fun h => h, fun _ h => h⟩

theorem Rely.trans (h : store.Rely id s t) (h' : store.Rely id t u) : store.Rely id s u :=
  ⟨h.own.trans h'.own, fun hc => h'.clean (h.clean hc), fun hs => h'.stage (h.stage hs),
    fun p hp => h.links p (h'.links p hp)⟩

theorem Rely.ready (h : store.Rely id s t) (hs : store.Ready s) : store.Ready t :=
  ⟨h.clean hs.toClean, h.stage hs.stage⟩

theorem Rely.content_part (h : store.Rely id s t) :
    t.content (store.partPath id) = s.content (store.partPath id) :=
  h.own.content (.inl rfl)

theorem Rely.content_metadata (h : store.Rely id s t) :
    t.content (store.metadataPath id) = s.content (store.metadataPath id) :=
  h.own.content (.inr (.inl rfl))

/-! ## Names -/

theorem part_ne_json (a b : String) : a ++ ".part" ≠ b ++ ".json" := by
  intro h
  have hlast := congrArg (fun s => s.toList.getLast?) h
  simp [String.toList_append] at hlast

theorem part_ne_tmp (a b : String) : a ++ ".part" ≠ b ++ ".json.tmp" := by
  intro h
  have hlast := congrArg (fun s => s.toList.getLast?) h
  simp [String.toList_append] at hlast

theorem json_ne_tmp (a b : String) : a ++ ".json" ≠ b ++ ".json.tmp" := by
  intro h
  have hlast := congrArg (fun s => s.toList.getLast?) h
  simp [String.toList_append] at hlast

@[simp] theorem partPath_ne_metadataPath : store.partPath id ≠ store.metadataPath id' := by
  simp [partPath, metadataPath, part_ne_json]

@[simp] theorem partPath_ne_temporaryPath : store.partPath id ≠ store.temporaryPath id' := by
  simp [partPath, temporaryPath, part_ne_tmp]

@[simp] theorem metadataPath_ne_temporaryPath :
    store.metadataPath id ≠ store.temporaryPath id' := by
  simp [metadataPath, temporaryPath, json_ne_tmp]

theorem own_part (id : String) : store.Own id (store.partPath id) := .inl rfl

theorem own_metadata (id : String) : store.Own id (store.metadataPath id) := .inr (.inl rfl)

theorem own_temporary (id : String) : store.Own id (store.temporaryPath id) := .inr (.inr rfl)

theorem not_own (h : id ≠ id') (hp : store.Own id p) : ¬ store.Own id' p := by
  rintro (hp' | hp' | hp') <;> rcases hp with rfl | rfl | rfl
  · exact h (by simpa [partPath] using hp')
  · exact partPath_ne_metadataPath hp'.symm
  · exact partPath_ne_temporaryPath hp'.symm
  · exact partPath_ne_metadataPath hp'
  · exact h (by simpa [metadataPath] using hp')
  · exact metadataPath_ne_temporaryPath hp'.symm
  · exact partPath_ne_temporaryPath hp'
  · exact metadataPath_ne_temporaryPath hp'
  · exact h (by simpa [temporaryPath] using hp')

theorem exists_name_of_own (hp : store.Own id p) : ∃ name, p = store.stageRoot ++ [name] := by
  rcases hp with rfl | rfl | rfl <;> exact ⟨_, rfl⟩

theorem own_ne_stage (hp : store.Own id p) : store.stageRoot ≠ p := by
  obtain ⟨name, rfl⟩ := exists_name_of_own hp
  simp

theorem below_of_own (hp : store.Own id p) : store.stageRoot <+: p ∧ p ≠ store.stageRoot := by
  obtain ⟨name, rfl⟩ := exists_name_of_own hp
  simp

/-! ## Files in the staging directory -/

theorem Clean.of_rewrites (h : store.Clean s) (hr : Rewrites P s t) : store.Clean t where
  way hq hl := h.way hq (hr.noNewLinks _ hl)
  flat {p} hp hne := by
    by_cases hP : P p
    · exact hr.files hP
    · rw [hr.keeps.node hP]
      exact h.flat hp hne

theorem Ready.of_rewrites (h : store.Ready s) (hr : Rewrites P s t)
    (hP : ¬ P store.stageRoot) : store.Ready t :=
  ⟨h.toClean.of_rewrites hr, (hr.keeps.node hP).trans h.stage⟩

theorem clean_empty : store.Clean .empty where
  way {q} _ := by
    rintro ⟨a, l, hl⟩
    cases q <;> simp [FileSystem.empty] at hl
  flat {p} hp hne := by
    cases p with
    | nil => simp [stageRoot] at hp
    | cons c rest => exact .inl rfl

theorem Clean.way_child (h : store.Clean s) : s.Way (store.stageRoot ++ [name]) := by
  intro q hq hne
  rcases List.prefix_concat_iff.mp hq with hq | hq
  · exact absurd hq hne
  · exact h.way hq

theorem Clean.not_isLink (h : store.Clean s) : ¬ s.IsLink (store.stageRoot ++ [name]) := by
  rcases h.flat (List.prefix_append store.stageRoot [name]) (by simp) with hn | ⟨i, hi⟩
  · exact not_isLink_of_none hn
  · exact not_isLink_of_file hi

theorem Ready.slot_or_file (h : store.Ready s) (hp : store.Own id p) :
    s.Slot p ∨ ∃ i, s.node p = some (.file i) := by
  obtain ⟨name, rfl⟩ := exists_name_of_own hp
  rcases h.flat (List.prefix_append store.stageRoot [name]) (by simp) with hn | hi
  · exact .inl ⟨by simp, by simpa using h.stage, hn⟩
  · exact .inr hi

theorem Ready.create (h : store.Ready s) (hp : store.Own id p) :
    ∃ i t, s.create p = (.ok i, t) ∧ t.node p = some (.file i) ∧ t.data i = [] ∧
      Rewrites (· = p) s t := by
  rcases h.slot_or_file hp with hslot | ⟨i, hi⟩
  · exact ⟨_, _, create_of_slot hslot, by simp, by simp, rewrites_addFile⟩
  · exact ⟨_, _, create_of_file hi, by simp [hi], by simp, rewrites_setData hi⟩

theorem Ready.rename (h : store.Ready s) {q : List String} (hq : store.Own id q) (hne : p ≠ q)
    (hi : s.node p = some (.file i)) :
    ∃ t, s.rename p q = (.ok (), t) ∧ t.node q = some (.file i) ∧ t.data = s.data ∧
      Rewrites (fun o => o = p ∨ o = q) s t := by
  obtain ⟨hm, hrename⟩ := rename_of_file hi hne (h.slot_or_file hq)
  exact ⟨_, hrename, by simp [node_move_file hi], rfl, rewrites_move hi⟩

end SyncStore

/-! ## The requests and their calls -/

/-- A request to push a file, with the id that is allocated if it is a new one. -/
structure PushRequest where
  transferId : Option String
  allocated : String
  remotePath : String
  totalSize : ℕ
  fileHash : String
  deriving DecidableEq

namespace PushRequest

def id (r : PushRequest) : String := r.transferId.getD r.allocated

/-- The metadata belong to the request. -/
structure Matches (r : PushRequest) (m : TransferMetadata) : Prop where
  version : m.version = metadataVersion
  transferId : m.transferId = r.id
  direction : m.direction = .push
  remotePath : m.remotePath = r.remotePath
  totalSize : m.totalSize = r.totalSize
  fileHash : m.fileHash = r.fileHash

/-- The path of the request does not start in the staging directory. -/
def Outside (r : PushRequest) : Prop :=
  (splitPath r.remotePath).head? ≠ some SyncStore.stageName

instance (r : PushRequest) : Decidable r.Outside := inferInstanceAs (Decidable (_ ≠ _))

end PushRequest

namespace SyncStore

variable (store : SyncStore) (r : PushRequest) (good : List UInt8 → Prop)
  {s t : FileSystem String} {call : StoreCall} {p : List String}

/-- A path below the root that does not start in the staging directory. -/
def Aside (p : List String) : Prop := ∃ c rest, p = store.root ++ c :: rest ∧ c ≠ stageName

/-- The staging file is within the declared size, and what is in it is good. -/
def Staged (s : FileSystem String) : Prop := ∃ bytes,
  s.content (store.partPath r.id) = some bytes ∧ bytes.length ≤ r.totalSize ∧ good bytes

/-- The calls of a push, each with what it finds. Publishing is not among them. -/
inductive Quiet : StoreCall → FileSystem String → Prop
  | looks {call : StoreCall} {s : FileSystem String} : call.op.looks → Quiet call s
  | lays {p : List String} {s : FileSystem String} : p <+: store.stageRoot →
      Quiet ⟨.layout, .createDir p⟩ s
  | enters {p : List String} {s : FileSystem String} : store.Aside p → s.Way p →
      Quiet ⟨.target, .createDir p⟩ s
  | drafts {s : FileSystem String} : Quiet ⟨.transfer, .create (store.temporaryPath r.id)⟩ s
  | fills {i position : ℕ} {bytes : List UInt8} {s : FileSystem String} :
      s.node (store.temporaryPath r.id) = some (.file i) →
      Quiet ⟨.transfer, .write i position bytes⟩ s
  | records {m : TransferMetadata} {s : FileSystem String} : r.Matches m →
      s.content (store.temporaryPath r.id) = some (store.encodeMetadata m) →
      (m.state = .inProgress → store.Staged r good s) →
      (m.state = .complete → s.node (store.partPath r.id) = none) →
      Quiet ⟨.transfer, .rename (store.temporaryPath r.id) (store.metadataPath r.id)⟩ s
  | opens {s : FileSystem String} : r.transferId = none →
      Quiet ⟨.transfer, .create (store.partPath r.id)⟩ s
  | appends {i : ℕ} {bytes : List UInt8} {s : FileSystem String} :
      s.node (store.partPath r.id) = some (.file i) →
      (s.data i ++ bytes).length ≤ r.totalSize → good (s.data i ++ bytes) →
      Quiet ⟨.transfer, .write i (s.data i).length bytes⟩ s
  | cuts {i len : ℕ} {s : FileSystem String} : s.node (store.partPath r.id) = some (.file i) →
      len ≤ (s.data i).length → Quiet ⟨.transfer, .setLen i len⟩ s

def finalPath : List String := store.root ++ splitPath r.remotePath

def Declared (bytes : List UInt8) : Prop :=
  bytes.length = r.totalSize ∧ store.hash bytes = r.fileHash

/-- The rename that publishes the staging file, whose bytes are the declared ones. -/
def Publishes (call : StoreCall) (s : FileSystem String) : Prop :=
  call = ⟨.target, .rename (store.partPath r.id) (store.finalPath r)⟩ ∧
    store.Aside (store.finalPath r) ∧ s.Way (store.finalPath r) ∧
    ∃ bytes, s.content (store.partPath r.id) = some bytes ∧ store.Declared r bytes

def Does (call : StoreCall) (s : FileSystem String) : Prop :=
  store.Quiet r good call s ∨ store.Publishes r call s

variable {store r good} {id : String} {q : List String}

section Aside

theorem Aside.not_stage (h : store.Aside p) : ¬ store.stageRoot <+: p := by
  obtain ⟨c, rest, rfl, hc⟩ := h
  simp [stageRoot, hc.symm]

theorem Aside.not_own (h : store.Aside p) : ¬ store.Own id p :=
  fun hp => h.not_stage (below_of_own hp).1

theorem Aside.ne_stage (h : store.Aside p) : p ≠ store.stageRoot := by
  rintro rfl
  exact h.not_stage (List.prefix_refl _)

theorem aside_of_outside (h : r.Outside) {path : LogicalSyncPath}
    (hpath : path.value = r.remotePath) (hp : p <+: path.components) (hne : p ≠ []) :
    store.Aside (store.root ++ p) := by
  cases p with
  | nil => exact absurd rfl hne
  | cons c rest =>
    refine ⟨c, rest, rfl, fun hc => h ?_⟩
    obtain ⟨tail, htail⟩ := hp
    rw [LogicalSyncPath.components, hpath] at htail
    simp [← htail, hc]

theorem aside_below {current rest : List String} {component : String}
    (h : ∀ q, q <+: component :: rest → q ≠ [] → store.Aside (current ++ q)) :
    ∀ q, q <+: rest → q ≠ [] → store.Aside (current ++ [component] ++ q) := by
  intro q hq _
  rw [List.append_assoc]
  exact h (component :: q) (by simpa using hq) (by simp)

end Aside

/-- What a quiet call does to the file system. -/
inductive Effect (store : SyncStore) (id : String) (s : FileSystem String) :
    FileSystem String → Prop
  | nothing : Effect store id s s
  | directory {p : List String} (h : s.Slot p) : p <+: store.stageRoot ∨ store.Aside p →
      Effect store id s (s.addDir p h)
  | own {t : FileSystem String} : Rewrites (store.Own id) s t → Effect store id s t

theorem Clean.own_file (hc : store.Clean s)
    (hq : store.Own id q) : s.node q = none ∨ ∃ i, s.node q = some (.file i) :=
  hc.flat (below_of_own hq).1 (below_of_own hq).2

theorem Effect.of_rewrites {P : List String → Prop} (hc : store.Clean s)
    (h : Rewrites P s t) (hP : ∀ q, P q → store.Own id q) : Effect store id s t :=
  .own (h.mono hP fun _ hq => hc.own_file hq)

theorem Effect.createDir (id : String) (hw : s.Way p) (hp : p <+: store.stageRoot ∨ store.Aside p) :
    Effect store id s (s.createDir p).2 := by
  rcases createDir_cases hw with ⟨e, he⟩ | ⟨h, he⟩
  · rw [he]
    exact .nothing
  · rw [he]
    exact .directory h hp

theorem Effect.create (hc : store.Clean s) (hp : store.Own id p) :
    Effect store id s (s.create p).2 := by
  obtain ⟨name, rfl⟩ := exists_name_of_own hp
  rcases create_cases hc.way_child hc.not_isLink with ⟨e, he⟩ | ⟨i, hi, he⟩ | ⟨h, he⟩
  · rw [he]
    exact .nothing
  · rw [he]
    exact .of_rewrites hc (rewrites_setData hi) (by rintro _ rfl; exact hp)
  · rw [he]
    exact .of_rewrites hc (rewrites_addFile (h := h)) (by rintro _ rfl; exact hp)

theorem Effect.rename {i : ℕ} (hc : store.Clean s)
    (hi : s.node p = some (.file i)) (hp : store.Own id p) (hq : store.Own id q) (hne : p ≠ q) :
    Effect store id s (s.rename p q).2 := by
  have hwp : s.Way p := way_of_node (by simp [hi])
  have hwq : s.Way q := by
    obtain ⟨name, rfl⟩ := exists_name_of_own hq
    exact hc.way_child
  rcases rename_cases hwp hwq with ⟨e, he⟩ | ⟨-, ⟨heq, -⟩ | ⟨hm, he⟩⟩
  · rw [he]
    exact .nothing
  · exact absurd heq hne
  · rw [he]
    have hrw : Rewrites (fun o => o = p ∨ o = q) s (s.move p q hm) := rewrites_move hi
    refine .of_rewrites hc hrw ?_
    rintro _ (rfl | rfl)
    · exact hp
    · exact hq

theorem Quiet.effect (h : store.Quiet r good call s) (hc : store.Clean s) :
    Effect store r.id s (call.serve s).2 := by
  cases h with
  | looks hl =>
    rw [show (call.serve s).2 = s from FsOp.serve_of_looks hl s]
    exact .nothing
  | lays hp => exact .createDir r.id (fun q hq _ => hc.way (hq.trans hp)) (.inl hp)
  | enters hp hw => exact .createDir r.id hw (.inr hp)
  | drafts => exact .create hc (own_temporary _)
  | opens => exact .create hc (own_part _)
  | fills hi =>
    exact .of_rewrites hc (rewrites_setData hi) (by rintro _ rfl; exact own_temporary _)
  | appends hi | cuts hi =>
    exact .of_rewrites hc (rewrites_setData hi) (by rintro _ rfl; exact own_part _)
  | records _ htmp _ _ =>
    obtain ⟨i, hi, -⟩ := content_eq_some.mp htmp
    exact .rename hc hi (own_temporary _) (own_metadata _) metadataPath_ne_temporaryPath.symm

end SyncStore

end KindleBridge.Device
