import KindleBridge.Host.SyncWalk

/-! # Where a recursive pull writes

The names that a device returns are joined to a local directory by the rules of the host.
Under the rules of POSIX the result lies below that directory. Under those of Windows a
name may begin with a drive letter, and the join then leaves the directory.
-/

namespace KindleBridge.Host

open Schema List

inductive Platform
  | posix
  | windows
  deriving DecidableEq, Repr

/-- A path of the host, cut into its parts. -/
structure LocalPath where
  drive : Option Char
  rooted : Bool
  names : List String
  deriving DecidableEq, Repr

namespace Platform

def separates : Platform → Char → Bool
  | .posix, c => c = '/'
  | .windows, c => c = '/' || c = '\\'

/-- A text without the drive letter at its start, and that letter. -/
def splitDrive : Platform → List Char → Option Char × List Char
  | .windows, letter :: ':' :: rest =>
    if letter.isAlpha then (some letter, rest) else (none, letter :: ':' :: rest)
  | _, text => (none, text)

def parse (p : Platform) (text : String) : LocalPath where
  drive := (p.splitDrive text.toList).1
  rooted := (p.splitDrive text.toList).2.head?.any p.separates
  names := (((p.splitDrive text.toList).2.splitOnP p.separates).map String.ofList).filter (· ≠ "")

/-- A component with a drive or a root takes the place of what it is joined to. -/
def join (p : Platform) (base : LocalPath) (component : String) : LocalPath :=
  let parsed := p.parse component
  if parsed.drive.isSome then parsed
  else if parsed.rooted then { parsed with drive := base.drive }
  else { base with names := base.names ++ parsed.names }

/-- The component begins with a drive letter. -/
def HasDrive (p : Platform) (component : String) : Prop :=
  (p.splitDrive component.toList).1.isSome

end Platform

def localTreePath (p : Platform) (root : LocalPath) (relative : String) : LocalPath :=
  (splitPath relative).foldl p.join root

/-- The paths that a pull makes for the entries of a manifest, in their order. -/
def entryPaths (p : Platform) (localRoot : LocalPath) (m : RemoteTreeManifest) : List LocalPath :=
  (m.directories.filter (·.relativePath ≠ "")).map (localTreePath p localRoot ·.relativePath) ++
    m.files.map (localTreePath p localRoot ·.relativePath)

/-- What is tried, up to the first that fails. -/
def tried (fails : ℕ → Bool) : ℕ → List LocalPath → List LocalPath
  | _, [] => []
  | n, path :: rest => if fails n then [path] else path :: tried fails (n + 1) rest

/-- What the host answers during a pull. -/
structure PullAnswers where
  /-- The destination is there already. -/
  exists' : Bool
  /-- The destination cannot be created. -/
  rootFails : Bool
  /-- Which directory or file below the destination cannot be created or pulled. -/
  fails : ℕ → Bool

/-- The local paths that a pull creates, or passes to a pull of one file, for the listed entries. -/
def pulledPaths (nfc : String → String) (p : Platform) (root : LogicalSyncPath)
    (replies : ℕ → Reply) (localRoot : LocalPath) (answers : PullAnswers) : List LocalPath :=
  if answers.exists' then []
  else if localRoot.names = [] then []
  else
    match collectRemoteTree nfc root replies with
    | some (.ok m, _) =>
      if answers.rootFails then [] else tried answers.fails 0 (entryPaths p localRoot m)
    | _ => []

/-- The path is reached from the directory by at least one name, and none leads back. -/
def LocalPath.Below (dir path : LocalPath) : Prop :=
  path.drive = dir.drive ∧ path.rooted = dir.rooted ∧
    ∃ names, names ≠ [] ∧ (∀ name ∈ names, EntryName name) ∧ path.names = dir.names ++ names

variable {localRoot place : LocalPath} {replies : ℕ → Reply}

section Joins

variable {p : Platform} {base : LocalPath} {name : String} {names : List String}

theorem not_separates (hname : EntryName name) {c : Char} (hc : c ∈ name.toList) :
    p.separates c = false := by
  have hslash : c ≠ '/' := fun h => hname.slash (h ▸ hc)
  have hback : c ≠ '\\' := fun h => hname.backslash (h ▸ hc)
  cases p <;> simp [Platform.separates, hslash, hback]

theorem mem_of_mem_splitDrive {text : List Char} {c : Char} (hc : c ∈ (p.splitDrive text).2) :
    c ∈ text := by
  unfold Platform.splitDrive at hc
  split at hc
  · split_ifs at hc
    · exact .tail _ (.tail _ hc)
    · exact hc
  · exact hc

theorem splitDrive_of_not_hasDrive (h : ¬ p.HasDrive name) :
    p.splitDrive name.toList = (none, name.toList) := by
  unfold Platform.HasDrive Platform.splitDrive at *
  split at h
  · rename_i letter rest htext
    split_ifs at h with halpha
    · simp at h
    · simp [htext, halpha]
  · simp_all

theorem parse_names (p : Platform) (hname : EntryName name) :
    (p.parse name).rooted = false ∧ (p.parse name).names =
      [String.ofList (p.splitDrive name.toList).2].filter (· ≠ "") := by
  have hnone : ∀ c ∈ (p.splitDrive name.toList).2, p.separates c = false :=
    fun c hc => not_separates hname (mem_of_mem_splitDrive hc)
  constructor
  · unfold Platform.parse
    cases hrest : (p.splitDrive name.toList).2 with
    | nil => rfl
    | cons c rest => simpa using hnone c (by simp [hrest])
  · unfold Platform.parse
    rw [splitOnP_eq_singleton hnone]
    rfl

theorem join_of_not_hasDrive (base : LocalPath) (hname : EntryName name)
    (h : ¬ p.HasDrive name) : p.join base name = { base with names := base.names ++ [name] } := by
  obtain ⟨hrooted, hnames⟩ := parse_names p hname
  have hdrive : (p.parse name).drive = none := by
    rw [Platform.parse, splitDrive_of_not_hasDrive h]
  rw [splitDrive_of_not_hasDrive h] at hnames
  have hproper := hname.proper.1
  unfold Platform.join
  simp [hdrive, hrooted, hnames, hproper]

theorem join_of_hasDrive (base : LocalPath) (h : p.HasDrive name) :
    p.join base name = p.parse name := by
  unfold Platform.join
  exact if_pos h

theorem foldl_join (base : LocalPath) (hnames : ∀ name ∈ names, EntryName name)
    (h : ∀ name ∈ names, ¬ p.HasDrive name) :
    names.foldl p.join base = { base with names := base.names ++ names } := by
  induction names generalizing base with
  | nil => simp
  | cons name rest ih =>
    rw [foldl_cons, join_of_not_hasDrive base (hnames name mem_cons_self) (h name mem_cons_self),
      ih _ (fun n hn => hnames n (.tail _ hn)) fun n hn => h n (.tail _ hn)]
    simp

theorem below_of_not_hasDrive {relative : String} (localRoot : LocalPath)
    (hnames : ∀ name ∈ splitPath relative, EntryName name)
    (h : ∀ name ∈ splitPath relative, ¬ p.HasDrive name) :
    localRoot.Below (localTreePath p localRoot relative) := by
  unfold localTreePath
  rw [foldl_join localRoot hnames h]
  exact ⟨rfl, rfl, splitPath relative, by simp [splitPath, splitOn_ne_nil], hnames, rfl⟩

/-- A path whose last name has a drive letter is not below a directory that has a name. -/
theorem not_below_of_hasDrive (parent : String) (hname : EntryName name)
    (h : p.HasDrive name) (hroot : localRoot.names ≠ []) :
    ¬ localRoot.Below (localTreePath p localRoot (joinRelativePath parent name)) := by
  unfold localTreePath
  rw [splitPath_join parent hname, foldl_append, foldl_cons, foldl_nil, join_of_hasDrive _ h]
  rintro ⟨-, -, names, hne, -, happend⟩
  rw [(parse_names p hname).2] at happend
  have hlength := congrArg List.length happend
  have hle := length_filter_le (fun n => decide (n ≠ ""))
    [String.ofList (p.splitDrive name.toList).2]
  have hpos := length_pos_iff.mpr hroot
  have hpos' := length_pos_iff.mpr hne
  rw [length_append] at hlength
  rw [length_singleton] at hle
  omega

end Joins

section Pulls

variable {nfc : String → String} {root : LogicalSyncPath} {w : Walk} {path : String} {p : Platform}
  {answers : PullAnswers}

theorem tried_subset (fails : ℕ → Bool) (n : ℕ) (paths : List LocalPath) :
    tried fails n paths ⊆ paths := by
  induction paths generalizing n with
  | nil => exact List.Subset.refl _
  | cons path rest ih =>
    rw [tried]
    split_ifs
    · exact cons_subset_cons _ (nil_subset _)
    · exact cons_subset_cons _ (ih (n + 1))

theorem tried_of_calm (n : ℕ) (paths : List LocalPath) :
    tried (fun _ => false) n paths = paths := by
  induction paths generalizing n with
  | nil => rfl
  | cons path rest ih => simp [tried, ih]

theorem Walk.Sound.entryNames (h : w.Sound root) (hpath : path ∈ w.manifest.creationOrder)
    (hne : path ≠ "") : ∀ name ∈ splitPath path, EntryName name := by
  obtain ⟨place, hplace, rfl⟩ := mem_map.mp (w.creationOrder_perm.mem_iff.mp hpath)
  exact (h.names place hplace).resolve_left hne

theorem Walk.Sound.exists_parent (h : w.Sound root) (hpath : path ∈ w.manifest.creationOrder)
    (hne : path ≠ "") : ∃ parent ∈ w.manifest.creationOrder, IsParent parent path := by
  obtain ⟨before, after, hsplit⟩ := append_of_mem hpath
  obtain ⟨d, -, hmem, hparent⟩ := (h.parentsFirst before path after hsplit).resolve_left hne
  exact ⟨d.relativePath, by rw [hsplit]; exact mem_append_left _ hmem, hparent⟩

theorem Walk.Sound.mem_entryPaths (h : w.Sound root) : place ∈ entryPaths p localRoot w.manifest ↔
      ∃ path ∈ w.manifest.creationOrder, path ≠ "" ∧ localTreePath p localRoot path = place := by
  unfold entryPaths RemoteTreeManifest.creationOrder
  constructor
  · intro hmem
    rcases mem_append.mp hmem with hmem | hmem
    · obtain ⟨d, hd, rfl⟩ := mem_map.mp hmem
      obtain ⟨hd, hne⟩ := mem_filter.mp hd
      exact ⟨d.relativePath, mem_append_left _ (mem_map_of_mem hd), by simpa using hne, rfl⟩
    · obtain ⟨f, hf, rfl⟩ := mem_map.mp hmem
      refine ⟨f.relativePath, mem_append_right _ (mem_map_of_mem hf), ?_, rfl⟩
      -- The root directory has the empty path.
      obtain ⟨d, hd, hempty⟩ := h.rooted
      have := (h.apart ((mem_insertionSort _).mpr hd) hf).2
      rwa [hempty, ne_comm] at this
  · rintro ⟨path, hmem, hne, rfl⟩
    rcases mem_append.mp hmem with hmem | hmem
    · obtain ⟨d, hd, rfl⟩ := mem_map.mp hmem
      exact mem_append_left _ (mem_map.mpr ⟨d, by simp [hd, hne], rfl⟩)
    · obtain ⟨f, hf, rfl⟩ := mem_map.mp hmem
      exact mem_append_right _ (mem_map.mpr ⟨f, hf, rfl⟩)

theorem Walk.Sound.exists_drive_last (h : w.Sound root) {component : String}
    (hpath : path ∈ w.manifest.creationOrder) (hne : path ≠ "")
    (hmem : component ∈ splitPath path) (hdrive : p.HasDrive component) :
    ∃ parent name, EntryName name ∧ p.HasDrive name ∧
      joinRelativePath parent name ∈ w.manifest.creationOrder := by
  induction hn : (splitPath path).length using Nat.strong_induction_on generalizing path with
  | _ n ih =>
    obtain ⟨parent, hparent, name, hname, rfl⟩ := h.exists_parent hpath hne
    have hsplit := splitPath_join parent hname
    rw [hsplit] at hmem hn
    rcases mem_append.mp hmem with hmem | hmem
    · split_ifs at hmem hn with hempty
      · cases hmem
      · rw [length_append, length_singleton] at hn
        exact ih _ (by omega) hparent hempty hmem rfl
    · obtain rfl := mem_singleton.mp hmem
      exact ⟨parent, component, hname, hdrive, hpath⟩

/-- No name of a manifest begins with a drive letter. -/
def DriveFree (nfc : String → String) (root : LogicalSyncPath) (replies : ℕ → Reply) : Prop :=
  ∀ m last, collectRemoteTree nfc root replies = some (.ok m, last) →
    ∀ path ∈ m.creationOrder, ∀ component ∈ splitPath path, ¬ Platform.windows.HasDrive component

theorem pulledPaths_cases (h : place ∈ pulledPaths nfc p root replies localRoot answers) :
    localRoot.names ≠ [] ∧ ∃ m last, collectRemoteTree nfc root replies = some (.ok m, last) ∧
      place ∈ entryPaths p localRoot m := by
  unfold pulledPaths at h
  split at h
  · cases h
  split at h
  · cases h
  rename_i hnames
  split at h
  · rename_i m last hcollect
    split at h
    · cases h
    · exact ⟨hnames, m, last, hcollect, tried_subset _ _ _ h⟩
  · cases h

theorem sound_of_collect {m : RemoteTreeManifest} {last : Crawl}
    (h : collectRemoteTree nfc root replies = some (.ok m, last)) :
    ∃ w : Walk, w.Sound root ∧ w.manifest = m := by
  obtain ⟨result, last', hcollect, -, hsound⟩ := collectRemoteTree_ends nfc root replies
  obtain ⟨rfl, -⟩ := Prod.mk.inj (Option.some.inj (hcollect.symm.trans h))
  exact hsound m rfl

theorem pulled_below (h : place ∈ pulledPaths nfc p root replies localRoot answers)
    (hdrive : ∀ m last, collectRemoteTree nfc root replies = some (.ok m, last) →
      ∀ path ∈ m.creationOrder, ∀ component ∈ splitPath path, ¬ p.HasDrive component) :
    localRoot.Below place := by
  obtain ⟨-, m, last, hcollect, hplace⟩ := pulledPaths_cases h
  obtain ⟨w, hw, rfl⟩ := sound_of_collect hcollect
  obtain ⟨path, hpath, hne, rfl⟩ := hw.mem_entryPaths.mp hplace
  exact below_of_not_hasDrive localRoot (hw.entryNames hpath hne) (hdrive _ _ hcollect path hpath)

/--
A recursive pull writes only below its destination by the rules of POSIX. By those of
Windows it does so exactly when no name that the device has listed begins with a drive letter.
-/
theorem pull_writes_below (nfc : String → String) (root : LogicalSyncPath)
    (replies : ℕ → Reply) (localRoot : LocalPath) :
    (∀ answers, ∀ place ∈ pulledPaths nfc .posix root replies localRoot answers,
      localRoot.Below place) ∧
    ((∀ answers, ∀ place ∈ pulledPaths nfc .windows root replies localRoot answers,
      localRoot.Below place) ↔ localRoot.names = [] ∨ DriveFree nfc root replies) := by
  refine ⟨fun answers place h => pulled_below h ?_, ?_, ?_⟩
  · intro m last _ path _ component _ hdrive
    simp [Platform.HasDrive, Platform.splitDrive] at hdrive
  · intro hbelow
    refine or_iff_not_imp_left.mpr fun hnames m last hcollect path hpath component hmem hdrive => ?_
    obtain ⟨w, hw, rfl⟩ := sound_of_collect hcollect
    have hne : path ≠ "" := by
      rintro rfl
      have : component = "" := by simpa [splitPath] using hmem
      simp [this, Platform.HasDrive, Platform.splitDrive] at hdrive
    obtain ⟨parent, name, hname, hlast, hjoin⟩ := hw.exists_drive_last hpath hne hmem hdrive
    have hjoinne : joinRelativePath parent name ≠ "" := by
      intro hempty
      have hparent : IsParent parent (joinRelativePath parent name) := ⟨name, hname, rfl⟩
      have hlt := hparent.lt
      rw [hempty, String.lt_iff_toList_lt] at hlt
      exact not_lt_nil _ hlt
    refine not_below_of_hasDrive parent hname hlast hnames
      (hbelow ⟨false, false, fun _ => false⟩ _ ?_)
    unfold pulledPaths
    rw [hcollect]
    simp only [Bool.false_eq_true, if_false, if_neg hnames, tried_of_calm]
    exact hw.mem_entryPaths.mpr ⟨_, hjoin, hjoinne, rfl⟩
  · rintro (hnames | hfree) answers place h
    · exact absurd hnames (pulledPaths_cases h).1
    · exact pulled_below h hfree

/-- A device that lists one file below its root. -/
def oneFile (root name : String) : ℕ → Reply := fun _ => .ok ⟨root, [⟨name, .file, 1⟩], none⟩

/-- A file with a drive letter in its name is pulled to the current directory of that drive. -/
theorem drive_letter_leaves_destination :
    let root : LogicalSyncPath := ⟨"documents", by decide +kernel⟩
    let destination : LocalPath := ⟨some 'D', true, ["backup"]⟩
    let place : LocalPath := ⟨some 'C', false, ["autoexec.bat"]⟩
    place ∈ pulledPaths id .windows root (oneFile "documents" "C:autoexec.bat") destination
      ⟨false, false, fun _ => false⟩ ∧ ¬ destination.Below place := by
  intro root destination place
  constructor
  · decide +kernel
  · rintro ⟨hdrive, -⟩
    cases hdrive

end Pulls

end KindleBridge.Host
