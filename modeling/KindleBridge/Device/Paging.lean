import KindleBridge.Device.Interleaving
import Mathlib.Data.String.Basic

/-! # Paging through a directory

Every page is cut from a scan of its own.
-/

namespace KindleBridge.Device.SyncStore

open Schema LogicalSyncPath Script List Option

variable (store : SyncStore) (remotePath : String)

/-- A valid name in a directory, and what a scan makes of it. -/
structure Scans (fs : FileSystem String) (directory : List String) (name : String)
    (entry : SyncEntry) : Prop where
  valid : ∃ path, parse store.nfc name = .ok path
  plain : '/' ∉ name.toList
  made : ∃ m, fs.metadata false (directory ++ [name]) = .ok m ∧ entryOf name m = pure entry

/-- A directory with these entries, in whatever order it is listed. -/
def Shows (entries : List SyncEntry) (s : FileSystem String) : Prop :=
  ∃ logical directory listed found t, parse store.nfc remotePath = .ok logical ∧
    store.ensureLayout.run StoreCall.serve s = (.ok (), t) ∧
    (store.openExistingDirectory logical).run StoreCall.serve t = (.ok directory, t) ∧
    t.readDir directory = .ok listed ∧ Forall₂ (store.Scans t directory) listed found ∧
    found ~ entries

/-- The pages that at most so many calls return, up to one without a next cursor. -/
def follow : ℕ → Option String → (ℕ → FileSystem String × ℕ) → Option (List SyncListResult)
  | 0, _, _ => none
  | n + 1, cursor, calls =>
    let (s, limit) := calls 0
    match ((store.listDirectory remotePath cursor limit).run StoreCall.serve s).1 with
    | .error _ => none
    | .ok page =>
      if page.nextCursor = none then some [page]
      else (follow n page.nextCursor fun i => calls (i + 1)).map (page :: ·)

variable {store remotePath} {s t : FileSystem String} {directory listed : List String}
  {name : String} {entry : SyncEntry} {entries found done left : List SyncEntry} {limit : ℕ}

theorem Scans.name_eq (h : store.Scans t directory name entry) : entry.name = name := by
  obtain ⟨⟨kind, len⟩, -, hentry⟩ := h.made
  cases kind <;> cases hentry <;> rfl

theorem map_name_of_scans (h : Forall₂ (store.Scans t directory) listed found) :
    found.map (·.name) = listed := by
  induction h with
  | nil => rfl
  | cons hscan _ ih => rw [map_cons, ih, hscan.name_eq]

theorem nodup_readDir (h : t.readDir directory = .ok listed) : listed.Nodup := by
  unfold FileSystem.readDir at h
  split at h
  · cases h
  · split at h <;> cases h
    exact nodup_dedup _

theorem parsePath_of_valid {path : LogicalSyncPath} {value : String}
    (h : parse store.nfc value = .ok path) : store.parsePath value = pure path := by
  rw [parsePath, h]
  rfl

theorem readEntries_run {cursor : Option String} {acc : List SyncEntry}
    (h : Forall₂ (store.Scans t directory) listed found)
    (hmax : acc.length + listed.length ≤ maxDirectoryEntries) :
    (store.readEntries directory cursor acc listed).run StoreCall.serve t =
      (.ok (acc ++ found.filter fun e => cursor.all (· < e.name)), t) := by
  induction h generalizing acc with
  | nil => simp [readEntries]
  | @cons name entry listed found hscan _ ih =>
    obtain ⟨path, hpath⟩ := hscan.valid
    obtain ⟨m, hm, hentry⟩ := hscan.made
    rw [length_cons] at hmax
    have hserve : StoreCall.serve ⟨.target, .symlinkMetadata (directory ++ [name])⟩ t =
        (.ok m, t) := congrArg (·, t) hm
    rw [readEntries, if_neg (by omega), parsePath_of_valid hpath, pure_bind_eq, run_perform_bind,
      hserve, io_ok, pure_bind_eq, value_of_parse hpath, hentry, pure_bind_eq,
      filter_cons]
    split_ifs with hbehind
    · rw [ih (by simp; omega), append_assoc, singleton_append]
    · exact ih (by omega)

theorem filter_behind (h : (done ++ left).Pairwise (·.name < ·.name)) :
    ((done ++ left).filter fun e => (done.getLast?.map (·.name)).all (· < e.name)) = left := by
  obtain ⟨hdone, -, hacross⟩ := pairwise_append.mp h
  rw [filter_append, filter_eq_nil_iff.mpr, filter_eq_self.mpr, nil_append]
  · intro e he
    cases hlast : done.getLast? with
    | none => rfl
    | some x => simpa using hacross x (mem_of_getLast? hlast) e he
  · intro e he
    obtain ⟨before, x, rfl⟩ := eq_nil_or_concat done |>.resolve_left (ne_nil_of_mem he)
    simp only [concat_eq_append, getLast?_append, getLast?_singleton, some_or,
      map_some, all_some, decide_eq_true_eq, not_lt]
    rw [concat_eq_append] at hdone he
    rcases mem_append.mp he with he | he
    · exact ((pairwise_append.mp hdone).2.2 e he x (by simp)).le
    · rw [mem_singleton.mp he]

/-! Names are compared by their characters, which is the order of their bytes. -/

theorem utf8EncodeChar_lt {c d : Char} (h : c < d) (r r' : List UInt8) :
    String.utf8EncodeChar c ++ r < String.utf8EncodeChar d ++ r' := by
  have h : c.val.toNat < d.val.toNat := h
  have hd : d.val.toNat < 0x110000 := by
    rcases d.valid with hd | hd <;> simp only [UInt32.toNat] at * <;> omega
  have hlast (n : ℕ) : (n % 64 + 128) % 256 = n % 64 + 128 := by omega
  have hfirst (n : ℕ) : (n % 8 + 240) % 256 = n % 8 + 240 := by omega
  have htwo (n : ℕ) : n / 4096 = n / 64 / 64 := by omega
  have hthree (n : ℕ) : n / 262144 = n / 64 / 64 / 64 := by omega
  unfold String.utf8EncodeChar
  dsimp only
  split_ifs <;> simp only [cons_append, nil_append, cons_lt_cons_iff, UInt8.lt_iff_toNat_lt,
    ← UInt8.toNat_inj, UInt8.toNat_ofNat', Nat.reducePow, hlast, hfirst, htwo, hthree] <;> omega

theorem bytes_lt {a b : String} (h : a < b) :
    a.toByteArray.data.toList < b.toByteArray.data.toList := by
  have hchars {a b : List Char} (h : a < b) :
      a.flatMap String.utf8EncodeChar < b.flatMap String.utf8EncodeChar := by
    induction h with
    | @nil c =>
      cases hc : String.utf8EncodeChar c with
      | nil => simp at hc
      | cons => simp [hc]
    | rel h => exact utf8EncodeChar_lt h _ _
    | cons _ ih => exact append_left_lt ih
  rw [← String.utf8Encode_toList, ← String.utf8Encode_toList]
  simpa [utf8Encode] using hchars (String.lt_iff_toList_lt.mp h)

theorem pairwise_names (entries : List SyncEntry) :
    (entries.mergeSort fun a b => a.name ≤ b.name).Pairwise (·.name ≤ ·.name) :=
  (pairwise_mergeSort (by simpa using fun a b c => le_trans)
    (by simpa using fun a b => le_total _ _) entries).imp of_decide_eq_true

theorem mergeSort_eq (h : found ~ left) (hsorted : left.Pairwise (·.name < ·.name)) :
    (found.mergeSort fun a b => a.name ≤ b.name) = left := by
  have hnames : (left.map (·.name)).Nodup := pairwise_map.mpr (hsorted.imp ne_of_lt)
  have hperm := (mergeSort_perm found fun a b => a.name ≤ b.name).trans h
  refine hperm.eq_of_pairwise (fun a b ha hb hab hba => ?_) (pairwise_names found)
    (hsorted.imp le_of_lt)
  exact inj_on_of_nodup_map hnames (hperm.subset ha) hb (le_antisymm hab hba)

theorem scans_of_mem (h : Forall₂ (store.Scans t directory) listed found) (he : entry ∈ found) :
    store.Scans t directory entry.name entry := by
  induction h with
  | nil => cases he
  | cons hscan _ ih =>
    rcases mem_cons.mp he with rfl | he
    · rw [hscan.name_eq]
      exact hscan
    · exact ih he

theorem parseCursor_of_scans (h : store.Scans t directory name entry) :
    store.parseCursor name = pure name := by
  obtain ⟨path, hpath⟩ := h.valid
  rw [parseCursor, parsePath_of_valid hpath, pure_bind_eq, value_of_parse hpath, if_neg h.plain]

/-- One call returns the next entries, and the name of the last of them if there are more. -/
theorem listDirectory_page (h : store.Shows remotePath entries s)
    (hlimit : 1 ≤ limit ∧ limit ≤ 1024) (hmax : entries.length ≤ maxDirectoryEntries)
    (hall : done ++ left ~ entries) (hsorted : (done ++ left).Pairwise (·.name < ·.name)) :
    ∃ page, ((store.listDirectory remotePath (done.getLast?.map (·.name)) limit).run
      StoreCall.serve s).1 = .ok page ∧ page.entries = left.take limit ∧ page.nextCursor =
        if left.length > limit then (left[limit - 1]?).map (·.name) else none := by
  obtain ⟨logical, directory, listed, found, t, hpath, hlayout, hopen, hlisted, hscans, hfound⟩ := h
  have hleft := (hfound.trans hall.symm).filter fun e =>
    (done.getLast?.map (·.name)).all (· < e.name)
  rw [filter_behind hsorted] at hleft
  have hread : StoreCall.serve ⟨.target, .readDir directory⟩ t = (.ok listed, t) :=
    congrArg (·, t) hlisted
  have hlength : listed.length ≤ maxDirectoryEntries := by
    rwa [← map_name_of_scans hscans, length_map, hfound.length_eq]
  have hrest := (pairwise_append.mp hsorted).2.1
  have hscan : (do
      store.ensureLayout
      let directory ← store.openExistingDirectory logical
      let listed ← io (← target (.readDir directory))
      let entries ← store.readEntries directory (done.getLast?.map (·.name)) [] listed
      return page logical.value entries limit : StoreM SyncListResult).run StoreCall.serve s =
        (.ok (page logical.value left limit), t) := by
    rw [run_bind_of_ok hlayout, run_bind_of_ok hopen, run_perform_bind, hread, io_ok, pure_bind_eq,
      run_bind_of_ok (readEntries_run hscans (by simpa using hlength)), nil_append, run_pure, page,
      page, mergeSort_eq hleft hrest, mergeSort_eq (.refl _) hrest]
  refine ⟨page logical.value left limit, ?_, by simp [page, mergeSort_eq (.refl _) hrest]⟩
  rw [listDirectory, if_neg (by omega), parsePath_of_valid hpath, pure_bind_eq]
  cases hlast : done.getLast? with
  | none =>
    rw [hlast] at hscan
    exact congrArg Prod.fst hscan
  | some e =>
    have he : e ∈ found := hfound.symm.subset (hall.subset (by simp [mem_of_getLast? hlast]))
    dsimp only [map_some]
    rw [parseCursor_of_scans (scans_of_mem hscans he)]
    rw [hlast] at hscan
    exact congrArg Prod.fst hscan

theorem follow_left (hmax : entries.length ≤ maxDirectoryEntries)
    (calls : ℕ → FileSystem String × ℕ) (hcalls : ∀ i, store.Shows remotePath entries (calls i).1 ∧
      1 ≤ (calls i).2 ∧ (calls i).2 ≤ 1024)
    (hall : done ++ left ~ entries) (hsorted : (done ++ left).Pairwise (·.name < ·.name)) :
    ∃ n pages, store.follow remotePath n (done.getLast?.map (·.name)) calls = some pages ∧
      pages.flatMap (·.entries) = left ∧
      ∀ page ∈ pages, page.nextCursor.isSome → page.entries ≠ [] := by
  induction hn : left.length using Nat.strong_induction_on generalizing done left calls with
  | _ n ih =>
    obtain ⟨hshows, hlimit⟩ := hcalls 0
    obtain ⟨page, hcall, hentries, hnext⟩ := listDirectory_page hshows hlimit hmax hall hsorted
    generalize hlimit' : (calls 0).2 = limit at *
    by_cases hmore : left.length > limit
    · rw [if_pos hmore, getElem?_eq_getElem (by omega)] at hnext
      -- The next call goes on behind the last entry of this page.
      have hsplit : done ++ left.take limit ++ left.drop limit = done ++ left := by
        rw [append_assoc, take_append_drop]
      have hcursor : (done ++ left.take limit).getLast?.map (·.name) = page.nextCursor := by
        rw [hnext, getLast?_append, getLast?_take, if_neg (by omega), getElem?_eq_getElem]
        rfl
      obtain ⟨n, pages, hpages, hflat, hfull⟩ := ih (left.drop limit).length (by simp; omega)
        (fun i => calls (i + 1)) (fun i => hcalls (i + 1)) (hsplit ▸ hall) (hsplit ▸ hsorted) rfl
      refine ⟨n + 1, page :: pages, ?_, ?_, forall_mem_cons.mpr ⟨fun _ => ?_, hfull⟩⟩
      · rw [hcursor, hnext] at hpages
        simpa [follow, hlimit', hcall, hnext] using hpages
      · rw [flatMap_cons, hflat, hentries, take_append_drop]
      · rw [hentries, ← length_pos_iff, length_take]
        omega
    · rw [if_neg hmore] at hnext
      refine ⟨1, [page], ?_, ?_, by simp [hnext]⟩
      · simp [follow, hlimit', hcall, hnext]
      · rw [flatMap_singleton, hentries, take_of_length_le (by omega)]

/-- Following the cursors gives every entry once, in the order of the bytes of the names. -/
theorem directory_paging_complete (store : SyncStore) (remotePath : String)
    (entries : List SyncEntry) (hmax : entries.length ≤ maxDirectoryEntries)
    (calls : ℕ → FileSystem String × ℕ) (hcalls : ∀ i, store.Shows remotePath entries (calls i).1 ∧
      1 ≤ (calls i).2 ∧ (calls i).2 ≤ 1024) :
    ∃ n pages, store.follow remotePath n none calls = some pages ∧
      pages.flatMap (·.entries) ~ entries ∧ (pages.flatMap (·.entries)).Pairwise (fun a b =>
        a.name.toByteArray.data.toList < b.name.toByteArray.data.toList) ∧
      ∀ page ∈ pages, page.nextCursor.isSome → page.entries ≠ [] := by
  obtain ⟨_, directory, listed, found, t, -, -, -, hlisted, hscans, hfound⟩ := (hcalls 0).1
  have hnames : (entries.map (·.name)).Nodup := by
    rw [← (hfound.map _).nodup_iff, map_name_of_scans hscans]
    exact nodup_readDir hlisted
  have hperm := mergeSort_perm entries fun a b => a.name ≤ b.name
  have hne := pairwise_map.mp ((hperm.map (·.name)).nodup_iff.mpr hnames)
  have hsorted := ((pairwise_names entries).and hne).imp fun h => lt_of_le_of_ne h.1 h.2
  have hall : [] ++ _ ~ entries := hperm
  obtain ⟨n, pages, hpages, hflat, hfull⟩ := follow_left hmax calls hcalls hall hsorted
  exact ⟨n, pages, hpages, hflat ▸ hperm, hflat ▸ hsorted.imp bytes_lt, hfull⟩

/-- A directory with two entries, which it lists in the wrong order. -/
def twoBooks : FileSystem String :=
  (FileSystem.spine ["books", "a"]).addFile ["books", "b"] (by decide)

/-- Read one by one. -/
theorem directory_paging_complete_twoBooks : let calls : ℕ → FileSystem String × ℕ := fun _ =>
      (twoBooks, 1)
    twoBooks.readDir ["books"] = .ok ["b", "a"] ∧
      ∃ n pages, (sampleStore []).follow "books" n none calls = some pages ∧
        pages.flatMap (·.entries) ~ [⟨"a", true, 0⟩, ⟨"b", false, 0⟩] ∧
        (pages.flatMap (·.entries)).Pairwise fun a b =>
          a.name.toByteArray.data.toList < b.name.toByteArray.data.toList := by
  intro calls
  have hlisted : twoBooks.readDir ["books"] = .ok ["b", "a"] := by decide +kernel
  obtain ⟨n, pages, hpages, hperm, hsorted, -⟩ := directory_paging_complete (sampleStore []) "books"
    [⟨"a", true, 0⟩, ⟨"b", false, 0⟩] (by decide) calls fun _ => ⟨⟨_, ["books"], _, _, _,
      parse_of_checks (by decide +kernel) (by decide +kernel),
      Prod.ext (by decide +kernel) rfl, Prod.ext (by decide +kernel) rfl, hlisted,
      .cons ⟨⟨_, parse_of_checks (by decide +kernel) (by decide +kernel)⟩, by decide, _, rfl, rfl⟩
        (.cons
          ⟨⟨_, parse_of_checks (by decide +kernel) (by decide +kernel)⟩, by decide, _, rfl, rfl⟩
          .nil), .swap ..⟩, by decide⟩
  exact ⟨hlisted, n, pages, hpages, hperm, hsorted⟩

end KindleBridge.Device.SyncStore
