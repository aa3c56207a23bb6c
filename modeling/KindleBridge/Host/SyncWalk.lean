import Mathlib.Data.List.Sort
import Mathlib.Data.String.Basic
import KindleBridge.Schema.Protocol

/-! # Recursive pulls

A directory of the device is listed page by page, and the directories found in it are
listed in turn. The device answers as it likes: the checks on a page bound the work, and
the table of folded paths keeps the entries apart.
-/

namespace KindleBridge.Host

open Schema Function

def maxSyncTreeEntries : ℕ := 100000
def syncListLimit : ℕ := 256

inductive CliError
  | rpc (message : String)
  | invalidResult (kind : String)
  | invalidDeviceSyncPath (path reason : String)
  | devicePathCollision (first second : String)
  | remoteTreeChanged (path : String)
  | remoteTreeTooLarge (path : String)
  | localTree (message : String)
  deriving DecidableEq, Repr

inductive SyncEntryKind
  | file
  | directory
  deriving DecidableEq, Repr

structure SyncEntry where
  name : String
  kind : SyncEntryKind
  size : ℕ
  deriving DecidableEq, Repr

structure SyncListResult where
  remotePath : String
  entries : List SyncEntry
  nextCursor : Option String
  deriving DecidableEq, Repr

structure RemoteDirectory where
  remotePath : LogicalSyncPath
  relativePath : String

structure RemoteFile where
  remotePath : LogicalSyncPath
  relativePath : String
  size : ℕ

structure RemoteTreeManifest where
  directories : List RemoteDirectory
  files : List RemoteFile

def foldCase (value : String) : String := String.ofList (value.toList.map Char.toLower)

/-- The first path that was registered under a folded path. -/
abbrev FoldedPaths := String → Option String

variable (nfc : String → String)

def parseDeviceEntryName (name : String) : Except CliError LogicalSyncPath :=
  match LogicalSyncPath.parse nfc name with
  | .error e => .error (.invalidDeviceSyncPath name e.text)
  | .ok path =>
    if '/' ∈ path.value.toList then
      .error (.invalidDeviceSyncPath name "directory entry names must contain one component")
    else .ok path

def joinDeviceLogicalPath (root : LogicalSyncPath) (name : String) :
    Except CliError LogicalSyncPath :=
  match LogicalSyncPath.parse nfc (root.value ++ "/" ++ name) with
  | .error e => .error (.invalidDeviceSyncPath (root.value ++ "/" ++ name) e.text)
  | .ok path => .ok path

def registerDevicePath (path : LogicalSyncPath) (folded : FoldedPaths) :
    Except CliError FoldedPaths :=
  match folded (foldCase path.value) with
  | some first => .error (.devicePathCollision first path.value)
  | none => .ok (update folded (foldCase path.value) (some path.value))

def joinRelativePath (root name : String) : String :=
  if root = "" then name else root ++ "/" ++ name

/-- What has been found. The directory listed next stands first in `pending`. -/
structure Walk where
  folded : FoldedPaths
  directories : List RemoteDirectory
  files : List RemoteFile
  pending : List RemoteDirectory

def Walk.entries (w : Walk) : ℕ := w.directories.length - 1 + w.files.length

/-- Note an entry that has passed the checks on its name. -/
def Walk.add (w : Walk) (folded : FoldedPaths) (remotePath : LogicalSyncPath)
    (relativePath : String) (entry : SyncEntry) : Except CliError Walk :=
  match entry.kind with
  | .directory =>
    if entry.size ≠ 0 then .error (.invalidResult "sync directory entry size")
    else .ok { w with
      folded := folded
      directories := w.directories ++ [⟨remotePath, relativePath⟩]
      pending := ⟨remotePath, relativePath⟩ :: w.pending }
  | .file =>
    .ok { w with folded := folded, files := w.files ++ [⟨remotePath, relativePath, entry.size⟩] }

variable (root : LogicalSyncPath) (directory : RemoteDirectory)

/-- Check an entry against the name before it, and note it. -/
def addEntry (w : Walk) (previous : Option String) (entry : SyncEntry) :
    Except CliError (Walk × String) :=
  if w.entries ≥ maxSyncTreeEntries then .error (.remoteTreeTooLarge root.value)
  else
    match parseDeviceEntryName nfc entry.name with
    | .error e => .error e
    | .ok name =>
      if previous.any (name.value ≤ ·) then .error (.invalidResult "sync directory list ordering")
      else
        match joinDeviceLogicalPath nfc directory.remotePath name.value with
        | .error e => .error e
        | .ok remotePath =>
          match registerDevicePath remotePath w.folded with
          | .error e => .error e
          | .ok folded =>
            (w.add folded remotePath (joinRelativePath directory.relativePath name.value) entry).map
              (·, name.value)

def addEntries (w : Walk) (previous last : Option String) :
    List SyncEntry → Except CliError (Walk × Option String)
  | [] => .ok (w, last)
  | entry :: rest =>
    match addEntry nfc root directory w previous entry with
    | .error e => .error e
    | .ok (w, name) => addEntries w (some name) (some name) rest

/-- The cursor of a page has to be the last name on it. -/
def checkCursor (last : Option String) : Option String → Except CliError (Option String)
  | none => .ok none
  | some cursor =>
    match parseDeviceEntryName nfc cursor with
    | .error e => .error e
    | .ok name =>
      if last ≠ some name.value then .error (.invalidResult "sync directory list cursor")
      else .ok (some name.value)

def takePage (w : Walk) (cursor : Option String) (page : SyncListResult) :
    Except CliError (Walk × Option String) :=
  if page.remotePath ≠ directory.remotePath.value then
    .error (.invalidResult "sync directory list path")
  else if page.entries.length > syncListLimit ∨
      page.nextCursor.isSome ∧ page.entries.length ≠ syncListLimit then
    .error (.invalidResult "sync directory list page")
  else
    match addEntries nfc root directory w cursor none page.entries with
    | .error e => .error e
    | .ok (w, last) =>
      match checkCursor nfc last page.nextCursor with
      | .error e => .error e
      | .ok cursor => .ok (w, cursor)

/-- A walk that is about to list a directory from a cursor, after some calls. -/
structure Crawl where
  walk : Walk
  directory : RemoteDirectory
  cursor : Option String
  calls : ℕ

abbrev Reply := Except CliError SyncListResult

/-- One list call. The walk goes on, or it ends. -/
def Crawl.step (c : Crawl) (reply : Reply) : Crawl ⊕ Except CliError Walk :=
  match reply with
  | .error e => .inr (.error e)
  | .ok page =>
    match takePage nfc root c.directory c.walk c.cursor page with
    | .error e => .inr (.error e)
    | .ok (w, some cursor) => .inl ⟨w, c.directory, some cursor, c.calls + 1⟩
    | .ok (w, none) =>
      match w.pending with
      | [] => .inr (.ok w)
      | next :: rest => .inl ⟨{ w with pending := rest }, next, none, c.calls + 1⟩

/-- The outcome of a walk, and the walk at its last call; `none` if the fuel runs out first. -/
def Crawl.run (replies : ℕ → Reply) : ℕ → Crawl → Option (Except CliError Walk × Crawl)
  | 0, _ => none
  | fuel + 1, c =>
    match c.step nfc root (replies c.calls) with
    | .inl c => c.run replies fuel
    | .inr result => some (result, c)

/-- The root directory is registered first, and nothing is in its way. -/
def Crawl.start : Crawl where
  walk := ⟨update (fun _ => none) (foldCase root.value) (some root.value), [⟨root, ""⟩], [], []⟩
  directory := ⟨root, ""⟩
  cursor := none
  calls := 0

def Walk.manifest (w : Walk) : RemoteTreeManifest where
  directories := w.directories.insertionSort (·.relativePath ≤ ·.relativePath)
  files := w.files.insertionSort (·.relativePath ≤ ·.relativePath)

def listFuel : ℕ := maxSyncTreeEntries / syncListLimit + maxSyncTreeEntries + 1

def collectRemoteTree (replies : ℕ → Reply) : Option (Except CliError RemoteTreeManifest × Crawl) :=
  (Crawl.start root).run nfc root replies listFuel |>.map fun r => (r.1.map Walk.manifest, r.2)

/-! ## What a walk finds

Every entry that a walk notes has a name of its own and a directory that was noted before.
-/

open List Crawl LogicalSyncPath Except RemoteTreeManifest

/-- A name of one component, which cannot lead out of the directory in which it stands. -/
structure EntryName (name : String) : Prop where
  proper : Proper name
  slash : '/' ∉ name.toList
  backslash : '\\' ∉ name.toList

def IsParent (parent path : String) : Prop :=
  ∃ name, EntryName name ∧ path = joinRelativePath parent name

section Names

variable {nfc : String → String} {root path : LogicalSyncPath} {value name : String}

theorem backslash_of_parse (h : parse nfc value = .ok path) : '\\' ∉ value.toList := by
  unfold parse checkValue at h
  split at h
  · simp at h
  · rename_i hcheck
    split_ifs at hcheck with hrelative
    simp only [not_or] at hrelative
    exact hrelative.2.2

theorem entryName_of_parse (h : parseDeviceEntryName nfc name = .ok path) :
    EntryName path.value ∧ path.value = name := by
  unfold parseDeviceEntryName at h
  split at h
  · simp at h
  · rename_i parsed hparse
    split_ifs at h with hslash
    obtain rfl := ok.inj h
    have hvalue := value_of_parse hparse
    refine ⟨⟨?_, hslash, ?_⟩, hvalue⟩
    · exact parsed.proper _ (by simp [splitPath_of_notMem hslash])
    · rw [hvalue]
      exact backslash_of_parse hparse

theorem value_of_join (h : joinDeviceLogicalPath nfc root name = .ok path) :
    path.value = root.value ++ "/" ++ name := by
  unfold joinDeviceLogicalPath at h
  split at h
  · simp at h
  · rename_i hparse
    obtain rfl := ok.inj h
    exact value_of_parse hparse

theorem foldCase_append (a b : String) : foldCase (a ++ b) = foldCase a ++ foldCase b := by
  simp [foldCase]

theorem foldCase_eq_empty_iff (a : String) : foldCase a = "" ↔ a = "" := by
  rw [← String.toList_inj, ← String.toList_inj]
  simp [foldCase]

end Names

section Entries

variable {nfc : String → String} {root : LogicalSyncPath} {directory : RemoteDirectory}
  {w w' : Walk} {entry : SyncEntry} {previous last last' : Option String} {name : String}
  {remotePath : LogicalSyncPath}

/-- The entries of a walk: where they are on the device, and below the root. -/
def Walk.places (w : Walk) : List (LogicalSyncPath × String) :=
  w.directories.map (fun d => (d.remotePath, d.relativePath)) ++
    w.files.map fun f => (f.remotePath, f.relativePath)

/-- An entry has been noted, as a directory or as a file. -/
structure Noted (directory : RemoteDirectory) (w w' : Walk) (remotePath : LogicalSyncPath)
    (name : String) : Prop where
  room : w.entries < maxSyncTreeEntries
  entryName : EntryName name
  value : remotePath.value = directory.remotePath.value ++ "/" ++ name
  fresh : w.folded (foldCase remotePath.value) = none
  folded : w'.folded = update w.folded (foldCase remotePath.value) (some remotePath.value)
  kept : (∃ d : RemoteDirectory, d.remotePath = remotePath ∧
      d.relativePath = joinRelativePath directory.relativePath name ∧
      w'.directories = w.directories ++ [d] ∧ w'.pending = d :: w.pending ∧ w'.files = w.files) ∨
    ∃ f : RemoteFile, f.remotePath = remotePath ∧
      f.relativePath = joinRelativePath directory.relativePath name ∧
      w'.directories = w.directories ∧ w'.pending = w.pending ∧ w'.files = w.files ++ [f]

theorem addEntry_noted (h : addEntry nfc root directory w previous entry = .ok (w', name)) :
    ∃ remotePath, Noted directory w w' remotePath name := by
  unfold addEntry at h
  split_ifs at h with hroom
  split at h
  · cases h
  rename_i parsed hname
  split_ifs at h
  split at h
  · cases h
  rename_i remotePath hjoin
  unfold registerDevicePath at h
  split at h
  · cases h
  rename_i folded hfolded
  split at hfolded
  · cases hfolded
  rename_i hfresh
  obtain rfl := ok.inj hfolded
  obtain ⟨hentry, -⟩ := entryName_of_parse hname
  unfold Walk.add at h
  cases hkind : entry.kind with
  | directory =>
    simp only [hkind] at h
    split_ifs at h
    · cases h
    obtain ⟨rfl, rfl⟩ := Prod.mk.inj (ok.inj h)
    exact ⟨remotePath, not_le.mp hroom, hentry, value_of_join hjoin, hfresh, rfl,
      .inl ⟨⟨remotePath, _⟩, rfl, rfl, rfl, rfl, rfl⟩⟩
  | file =>
    simp only [hkind] at h
    obtain ⟨rfl, rfl⟩ := Prod.mk.inj (ok.inj h)
    exact ⟨remotePath, not_le.mp hroom, hentry, value_of_join hjoin, hfresh, rfl,
      .inr ⟨⟨remotePath, _, _⟩, rfl, rfl, rfl, rfl, rfl⟩⟩

namespace Noted

section
variable (h : Noted directory w w' remotePath name)
include h

theorem places :
    w'.places.Perm ((remotePath, joinRelativePath directory.relativePath name) :: w.places) := by
  unfold Walk.places
  obtain ⟨d, rfl, hrel, hd, -, hf⟩ | ⟨f, rfl, hrel, hd, -, hf⟩ := h.kept
  · rw [hd, hf, map_append, append_assoc, ← hrel]
    exact perm_middle
  · rw [hd, hf, map_append, ← append_assoc, ← hrel]
    exact perm_append_singleton _ _

theorem directories : w.directories ⊆ w'.directories := by
  obtain ⟨d, -, -, hd, -, -⟩ | ⟨f, -, -, hd, -, -⟩ := h.kept
  · rw [hd]
    exact subset_append_left _ _
  · rw [hd]
    exact List.Subset.refl _

theorem entries (hw : w.directories ≠ []) : w'.entries = w.entries + 1 := by
  have := length_pos_iff.mpr hw
  unfold Walk.entries
  obtain ⟨d, -, -, hd, -, hf⟩ | ⟨f, -, -, hd, -, hf⟩ := h.kept
  all_goals
    rw [hd, hf, length_append, length_singleton]
    omega

theorem pending :
    w'.directories.length + w.pending.length = w.directories.length + w'.pending.length := by
  obtain ⟨d, -, -, hd, hp, -⟩ | ⟨f, -, -, hd, hp, -⟩ := h.kept
  · rw [hd, hp, length_append, length_singleton, length_cons]
    omega
  · rw [hd, hp]

end

end Noted

/-- Where an entry is on the device, given where it is below the root. -/
def Located (root : LogicalSyncPath) (place : LogicalSyncPath × String) : Prop :=
  place.2 = "" ∧ place.1.value = root.value ∨
    place.2 ≠ "" ∧ place.1.value = root.value ++ "/" ++ place.2

structure Walk.Sound (root : LogicalSyncPath) (w : Walk) : Prop where
  rooted : ∃ d ∈ w.directories, d.relativePath = ""
  registered : ∀ p ∈ w.places, (w.folded (foldCase p.1.value)).isSome
  distinct : (w.places.map fun p => foldCase p.1.value).Nodup
  located : ∀ p ∈ w.places, Located root p
  parents : ∀ p ∈ w.places, p.2 = "" ∨ ∃ d ∈ w.directories, IsParent d.relativePath p.2
  names : ∀ p ∈ w.places, p.2 = "" ∨ ∀ component ∈ splitPath p.2, EntryName component
  pending : ∀ d ∈ w.pending, d ∈ w.directories
  bounded : w.entries ≤ maxSyncTreeEntries

theorem located_join {d : RemoteDirectory}
    (hd : Located root (d.remotePath, d.relativePath)) (hname : EntryName name)
    (hvalue : remotePath.value = d.remotePath.value ++ "/" ++ name) :
    Located root (remotePath, joinRelativePath d.relativePath name) := by
  unfold joinRelativePath
  rcases hd with ⟨hempty, hroot⟩ | ⟨hne, hroot⟩ <;> dsimp only at *
  · refine .inr ⟨?_, ?_⟩
    · simpa only [if_pos hempty] using hname.proper.1
    · rw [if_pos hempty, hvalue, hroot]
  · refine .inr ⟨?_, ?_⟩
    · simp only [if_neg hne]
      intro h
      have := congrArg String.length h
      simp at this
    · rw [if_neg hne, hvalue, hroot]
      simp only [String.append_assoc]

theorem splitPath_join (parent : String) (hname : EntryName name) :
    splitPath (joinRelativePath parent name) =
      (if parent = "" then [] else splitPath parent) ++ [name] := by
  unfold joinRelativePath
  split_ifs
  · exact splitPath_of_notMem hname.slash
  · exact splitPath_append parent hname.slash

theorem Walk.Sound.noted (h : w.Sound root)
    (hd : directory ∈ w.directories) (hn : Noted directory w w' remotePath name) :
    w'.Sound root := by
  have hplaces := hn.places
  have hdplace : (directory.remotePath, directory.relativePath) ∈ w.places :=
    mem_append_left _ (mem_map_of_mem hd)
  refine ⟨?_, ?_, ?_, ?_, ?_, ?_, ?_, ?_⟩
  · obtain ⟨d, hmem, hrel⟩ := h.rooted
    exact ⟨d, hn.directories hmem, hrel⟩
  · intro p hp
    rw [hn.folded]
    by_cases hkey : foldCase p.1.value = foldCase remotePath.value
    · simp [hkey]
    · rw [update_of_ne hkey]
      rcases mem_cons.mp (hplaces.mem_iff.mp hp) with rfl | hp
      · exact absurd rfl hkey
      · exact h.registered p hp
  · refine ((hplaces.map _).nodup_iff).mpr (nodup_cons.mpr ⟨?_, h.distinct⟩)
    intro hmem
    obtain ⟨p, hp, hkey⟩ := mem_map.mp hmem
    have := h.registered p hp
    rw [hkey, hn.fresh] at this
    cases this
  · intro p hp
    rcases mem_cons.mp (hplaces.mem_iff.mp hp) with rfl | hp
    · exact located_join (h.located _ hdplace) hn.entryName hn.value
    · exact h.located p hp
  · intro p hp
    rcases mem_cons.mp (hplaces.mem_iff.mp hp) with rfl | hp
    · exact .inr ⟨directory, hn.directories hd, name, hn.entryName, rfl⟩
    · rcases h.parents p hp with hempty | ⟨d, hmem, hparent⟩
      · exact .inl hempty
      · exact .inr ⟨d, hn.directories hmem, hparent⟩
  · intro p hp
    rcases mem_cons.mp (hplaces.mem_iff.mp hp) with rfl | hp
    · refine .inr fun component hcomponent => ?_
      rw [splitPath_join _ hn.entryName] at hcomponent
      rcases mem_append.mp hcomponent with hmem | hmem
      · split_ifs at hmem with hempty
        · cases hmem
        · exact (h.names _ hdplace).resolve_left hempty component hmem
      · rw [mem_singleton.mp hmem]
        exact hn.entryName
    · exact h.names p hp
  · obtain ⟨d, -, -, hdirs, hpending, -⟩ | ⟨f, -, -, hdirs, hpending, -⟩ := hn.kept
    · rw [hpending, hdirs]
      simpa using fun d hd => .inl (h.pending d hd)
    · rw [hpending, hdirs]
      exact h.pending
  · rw [hn.entries (ne_nil_of_mem hd)]
    exact hn.room

/-- A walk has gone on by so many entries of one directory. -/
structure Grows (root : LogicalSyncPath) (w w' : Walk) (n : ℕ) : Prop where
  sound : w'.Sound root
  directories : w.directories ⊆ w'.directories
  entries : w'.entries = w.entries + n
  pending : w'.directories.length + w.pending.length = w.directories.length + w'.pending.length

theorem addEntries_grows {entries : List SyncEntry} (h : w.Sound root)
    (hd : directory ∈ w.directories)
    (hadd : addEntries nfc root directory w previous last entries = .ok (w', last')) :
    Grows root w w' entries.length := by
  induction entries generalizing w previous last with
  | nil =>
    obtain ⟨rfl, -⟩ := Prod.mk.inj (ok.inj hadd)
    exact ⟨h, List.Subset.refl _, rfl, rfl⟩
  | cons entry rest ih =>
    rw [addEntries] at hadd
    split at hadd
    · cases hadd
    rename_i w₁ name hentry
    obtain ⟨remotePath, hn⟩ := addEntry_noted hentry
    have hgrows := ih (h.noted hd hn) (hn.directories hd) hadd
    refine ⟨hgrows.sound, List.Subset.trans hn.directories hgrows.directories, ?_, ?_⟩
    · rw [hgrows.entries, hn.entries (ne_nil_of_mem hd), length_cons]
      omega
    · have := hn.pending
      have := hgrows.pending
      omega

theorem takePage_grows {page : SyncListResult} {cursor next : Option String} (h : w.Sound root)
    (hd : directory ∈ w.directories)
    (hpage : takePage nfc root directory w cursor page = .ok (w', next)) :
    ∃ n, Grows root w w' n ∧ (next.isSome → n = syncListLimit) := by
  unfold takePage at hpage
  split_ifs at hpage with hpath hsize
  split at hpage
  · cases hpage
  rename_i w₁ last hadd
  split at hpage
  · cases hpage
  rename_i cursor' hcursor
  obtain ⟨rfl, rfl⟩ := Prod.mk.inj (ok.inj hpage)
  refine ⟨page.entries.length, addEntries_grows h hd hadd, fun hnext => ?_⟩
  by_contra hlen
  have hsome : page.nextCursor.isSome := by
    cases hc : page.nextCursor with
    | none =>
      rw [hc] at hcursor
      obtain rfl := ok.inj hcursor
      cases hnext
    | some c => rfl
  exact hsize (.inr ⟨hsome, hlen⟩)

end Entries

/-! ## Whole walks -/

section Walks

variable {nfc : String → String} {root : LogicalSyncPath} {c c' : Crawl} {reply : Reply}

structure Crawl.Sound (root : LogicalSyncPath) (c : Crawl) : Prop where
  walk : c.walk.Sound root
  directory : c.directory ∈ c.walk.directories
  /-- Each call has filled a page or finished a directory. -/
  calls : syncListLimit * (c.calls + c.walk.pending.length + 1) ≤
    c.walk.entries + syncListLimit * c.walk.directories.length

theorem Crawl.Sound.calls_le (h : c.Sound root) :
    c.calls + 1 ≤ c.walk.entries / syncListLimit + c.walk.directories.length := by
  have hcalls := h.calls
  unfold syncListLimit at *
  omega

theorem Crawl.Sound.calls_lt (h : c.Sound root) : c.calls < listFuel := by
  have hcalls := h.calls_le
  have hbound := h.walk.bounded
  have hentries : c.walk.directories.length ≤ c.walk.entries + 1 := by
    unfold Walk.entries
    omega
  have hdiv : c.walk.entries / syncListLimit ≤ maxSyncTreeEntries / syncListLimit :=
    Nat.div_le_div_right hbound
  unfold listFuel
  omega

theorem Crawl.Sound.step (h : c.Sound root)
    (hstep : c.step nfc root reply = .inl c') : c'.Sound root ∧ c'.calls = c.calls + 1 := by
  unfold Crawl.step at hstep
  split at hstep
  · cases hstep
  split at hstep
  · cases hstep
  · rename_i w cursor hpage
    obtain rfl := Sum.inl.inj hstep
    obtain ⟨n, hgrows, hfull⟩ := takePage_grows h.walk h.directory hpage
    refine ⟨⟨hgrows.sound, hgrows.directories h.directory, ?_⟩, rfl⟩
    have hentries := hgrows.entries
    have hpending := hgrows.pending
    have hcalls := h.calls
    rw [hfull rfl] at hentries
    unfold syncListLimit at *
    dsimp only at *
    omega
  · rename_i w hpage
    split at hstep
    · cases hstep
    rename_i next rest hrest
    obtain rfl := Sum.inl.inj hstep
    obtain ⟨n, hgrows, -⟩ := takePage_grows h.walk h.directory hpage
    have hsound := hgrows.sound
    refine ⟨⟨⟨hsound.rooted, hsound.registered, hsound.distinct, hsound.located, hsound.parents,
      hsound.names, ?_, hsound.bounded⟩, hsound.pending next (by simp [hrest]), ?_⟩, rfl⟩
    · intro d hd
      exact hsound.pending d (by simp [hrest, hd])
    · have hentries := hgrows.entries
      have hpending := hgrows.pending
      have hcalls := h.calls
      have hlen : w.pending.length = rest.length + 1 := by rw [hrest, length_cons]
      change syncListLimit * (c.calls + 1 + rest.length + 1) ≤
        w.entries + syncListLimit * w.directories.length
      unfold syncListLimit at *
      omega

theorem Crawl.Sound.ends {w : Walk} (h : c.Sound root)
    (hstep : c.step nfc root reply = .inr (.ok w)) : w.Sound root := by
  unfold Crawl.step at hstep
  split at hstep
  · cases hstep
  split at hstep
  · cases hstep
  · cases hstep
  · rename_i w' hpage
    split at hstep
    · obtain rfl := ok.inj (Sum.inr.inj hstep)
      obtain ⟨n, hgrows, -⟩ := takePage_grows h.walk h.directory hpage
      exact hgrows.sound
    · cases hstep

theorem Crawl.Sound.run (nfc : String → String) (replies : ℕ → Reply) (fuel : ℕ)
    (h : c.Sound root) (hfuel : listFuel ≤ c.calls + fuel) : ∃ result last,
      c.run nfc root replies fuel = some (result, last) ∧ last.Sound root ∧
        ∀ w, result = .ok w → w.Sound root := by
  induction fuel generalizing c with
  | zero =>
    have := h.calls_lt
    omega
  | succ fuel ih =>
    rw [run]
    cases hstep : c.step nfc root (replies c.calls) with
    | inl c' =>
      obtain ⟨hsound, hcalls⟩ := h.step hstep
      exact ih hsound (by omega)
    | inr result =>
      refine ⟨result, c, rfl, h, ?_⟩
      rintro w rfl
      exact h.ends hstep

theorem Crawl.sound_start (root : LogicalSyncPath) : (start root).Sound root where
  walk := by
    refine ⟨⟨_, mem_singleton_self _, rfl⟩, ?_, ?_, ?_, ?_, ?_, ?_, ?_⟩
    · simp [start, Walk.places]
    · simp [start, Walk.places]
    · simp [start, Walk.places, Located]
    · simp [start, Walk.places]
    · simp [start, Walk.places]
    · simp [start]
    · simp [start, Walk.entries]
  directory := by simp [start]
  calls := by simp [start]

end Walks

/-! ## The manifest -/

namespace RemoteTreeManifest

/-- The paths below the root, in the order in which they are created. -/
def creationOrder (m : RemoteTreeManifest) : List String :=
  m.directories.map RemoteDirectory.relativePath ++ m.files.map RemoteFile.relativePath

def remotePaths (m : RemoteTreeManifest) : List LogicalSyncPath :=
  m.directories.map RemoteDirectory.remotePath ++ m.files.map RemoteFile.remotePath

end RemoteTreeManifest

/-- Every entry but the root comes behind the directory that it is in. -/
def ParentsFirst (m : RemoteTreeManifest) : Prop :=
  ∀ before path after, m.creationOrder = before ++ path :: after → path = "" ∨
    ∃ d ∈ m.directories, d.relativePath ∈ before ∧ IsParent d.relativePath path

section Manifest

variable {nfc : String → String} {root : LogicalSyncPath} {w : Walk} {parent path : String}

theorem lt_append_of_ne_nil {a b : String} (h : b ≠ "") : a < a ++ b := by
  rw [String.lt_iff_toList_lt, String.toList_append]
  have hb : b.toList ≠ [] := by simpa using h
  induction a.toList with
  | nil =>
    obtain ⟨x, t, ht⟩ := exists_cons_of_ne_nil hb
    rw [nil_append, ht]
    exact nil_lt_cons x t
  | cons x t ih => exact cons_lt_cons_self.mpr ih

theorem IsParent.lt (h : IsParent parent path) : parent < path := by
  obtain ⟨name, hname, rfl⟩ := h
  unfold joinRelativePath
  split_ifs with hempty
  · subst hempty
    simpa using lt_append_of_ne_nil (a := "") hname.proper.1
  · rw [String.append_assoc]
    apply lt_append_of_ne_nil
    intro h
    have := congrArg String.length h
    simp at this

theorem mem_before_of_lt {l before after : List String} (hl : l.Pairwise (· ≤ ·))
    (hsplit : l = before ++ path :: after) (hmem : parent ∈ l) (hlt : parent < path) :
    parent ∈ before := by
  subst hsplit
  have hafter := (pairwise_cons.mp (pairwise_append.mp hl).2.1).1
  rcases mem_append.mp hmem with hbefore | hrest
  · exact hbefore
  · rcases mem_cons.mp hrest with rfl | hlast
    · exact absurd hlt (lt_irrefl _)
    · exact absurd hlt (not_lt.mpr (hafter parent hlast))

theorem Walk.sorted_directories (w : Walk) :
    (w.manifest.directories.map RemoteDirectory.relativePath).Pairwise (· ≤ ·) := by
  rw [pairwise_map]
  exact pairwise_insertionSort _ _

theorem Walk.creationOrder_perm (w : Walk) :
    w.manifest.creationOrder.Perm (w.places.map Prod.snd) := by
  unfold creationOrder Walk.places Walk.manifest
  rw [map_append, map_map, map_map]
  exact ((perm_insertionSort _ _).map _).append ((perm_insertionSort _ _).map _)

theorem Walk.remotePaths_perm (w : Walk) : w.manifest.remotePaths.Perm (w.places.map Prod.fst) := by
  unfold remotePaths Walk.places Walk.manifest
  rw [map_append, map_map, map_map]
  exact ((perm_insertionSort _ _).map _).append ((perm_insertionSort _ _).map _)

theorem Located.foldCase_eq {p q : LogicalSyncPath × String} (hp : Located root p)
    (hq : Located root q) (h : foldCase p.2 = foldCase q.2) :
    foldCase p.1.value = foldCase q.1.value := by
  rcases hp with ⟨hp2, hp1⟩ | ⟨hp2, hp1⟩ <;> rcases hq with ⟨hq2, hq1⟩ | ⟨hq2, hq1⟩
  · rw [hp1, hq1]
  · rw [hp2] at h
    have hempty := h.symm.trans ((foldCase_eq_empty_iff _).mpr rfl)
    exact absurd ((foldCase_eq_empty_iff _).mp hempty) hq2
  · rw [hq2] at h
    have hempty := h.trans ((foldCase_eq_empty_iff _).mpr rfl)
    exact absurd ((foldCase_eq_empty_iff _).mp hempty) hp2
  · rw [hp1, hq1, foldCase_append, foldCase_append, foldCase_append, foldCase_append, h]

theorem Walk.Sound.nodup_remote (h : w.Sound root) :
    (w.manifest.remotePaths.map fun p => foldCase p.value).Nodup := by
  refine ((w.remotePaths_perm.map _).nodup_iff).mpr ?_
  rw [map_map]
  exact h.distinct

theorem Walk.Sound.nodup_relative (h : w.Sound root) :
    (w.manifest.creationOrder.map foldCase).Nodup := by
  refine ((w.creationOrder_perm.map _).nodup_iff).mpr ?_
  rw [map_map, nodup_iff_pairwise_ne, pairwise_map]
  have hdistinct := h.distinct
  rw [nodup_iff_pairwise_ne, pairwise_map] at hdistinct
  refine hdistinct.imp_of_mem ?_
  intro p q hp hq hne heq
  exact hne ((h.located p hp).foldCase_eq (h.located q hq) heq)

theorem Walk.Sound.parentsFirst (h : w.Sound root) : ParentsFirst w.manifest := by
  intro before path after hsplit
  have hmem : path ∈ w.places.map Prod.snd := w.creationOrder_perm.mem_iff.mp (by rw [hsplit]; simp)
  obtain ⟨place, hplace, rfl⟩ := mem_map.mp hmem
  rcases h.parents place hplace with hempty | ⟨d, hd, hparent⟩
  · exact .inl hempty
  refine .inr ⟨d, mem_insertionSort _ |>.mpr hd, ?_, hparent⟩
  have hdir : d.relativePath ∈ w.manifest.directories.map RemoteDirectory.relativePath :=
    mem_map_of_mem (mem_insertionSort _ |>.mpr hd)
  rcases append_eq_append_iff.mp hsplit with ⟨files, hbefore, -⟩ | ⟨rest, hdirs, hrest⟩
  · -- A file comes after all directories.
    rw [hbefore]
    exact mem_append_left _ hdir
  · cases rest with
    | nil =>
      rw [append_nil] at hdirs
      rw [← hdirs]
      exact hdir
    | cons first rest =>
      obtain ⟨rfl, -⟩ := List.cons.inj hrest
      exact mem_before_of_lt w.sorted_directories hdirs hdir hparent.lt

theorem Walk.entries_manifest (w : Walk) :
    w.manifest.directories.length - 1 + w.manifest.files.length = w.entries := by
  simp [Walk.manifest, Walk.entries]

theorem Walk.Sound.apart (h : w.Sound root) {d : RemoteDirectory} {f : RemoteFile}
    (hd : d ∈ w.manifest.directories) (hf : f ∈ w.manifest.files) :
    d.remotePath.value ≠ f.remotePath.value ∧ d.relativePath ≠ f.relativePath := by
  have hremote := h.nodup_remote
  have hrelative := h.nodup_relative
  unfold remotePaths at hremote
  unfold creationOrder at hrelative
  rw [map_append, map_map, map_map] at hremote hrelative
  constructor
  · intro heq
    exact (nodup_append.mp hremote).2.2 _ (mem_map_of_mem hd) _
      (mem_map_of_mem hf) (congrArg foldCase heq)
  · intro heq
    exact (nodup_append.mp hrelative).2.2 _ (mem_map_of_mem hd) _
      (mem_map_of_mem hf) (congrArg foldCase heq)

theorem collectRemoteTree_ends (nfc : String → String) (root : LogicalSyncPath)
    (replies : ℕ → Reply) : ∃ result last,
    collectRemoteTree nfc root replies = some (result, last) ∧ last.Sound root ∧
      ∀ m, result = .ok m → ∃ w : Walk, w.Sound root ∧ w.manifest = m := by
  obtain ⟨result, last, hrun, hlast, hsound⟩ :=
    (sound_start root).run nfc replies listFuel (Nat.le_add_left _ _)
  refine ⟨result.map Walk.manifest, last, ?_, hlast, ?_⟩
  · rw [collectRemoteTree, hrun]
    rfl
  · intro m hm
    cases result with
    | error e => cases hm
    | ok w => exact ⟨w, hsound w rfl, ok.inj hm⟩

/--
Whatever the device answers, a walk ends. Each list call has filled a page or finished a
directory, the root included. A manifest has no two paths that differ only in case, no path
that is both a file and a directory, and every directory before its entries.
-/
theorem recursive_pull_is_bounded (nfc : String → String) (root : LogicalSyncPath)
    (replies : ℕ → Reply) : ∃ result last,
    collectRemoteTree nfc root replies = some (result, last) ∧
      last.calls + 1 ≤ last.walk.entries / 256 + last.walk.directories.length ∧
      last.walk.entries ≤ 100000 ∧ ∀ m, result = .ok m →
        m.directories.length - 1 + m.files.length ≤ 100000 ∧
        (m.remotePaths.map fun p => foldCase p.value).Nodup ∧ (m.creationOrder.map foldCase).Nodup ∧
        ParentsFirst m ∧ ∀ d ∈ m.directories, ∀ f ∈ m.files,
          d.remotePath.value ≠ f.remotePath.value ∧ d.relativePath ≠ f.relativePath := by
  obtain ⟨result, last, hcollect, hlast, hsound⟩ := collectRemoteTree_ends nfc root replies
  refine ⟨result, last, hcollect, hlast.calls_le, hlast.walk.bounded, ?_⟩
  intro m hm
  obtain ⟨w, hw, rfl⟩ := hsound m hm
  exact ⟨w.entries_manifest.trans_le hw.bounded, hw.nodup_remote, hw.nodup_relative,
    hw.parentsFirst, fun d hd f hf => hw.apart hd hf⟩

end Manifest

end KindleBridge.Host
