import KindleBridge.Bundle.Paths

/-! # Links stay in the image

The validator resolves the targets of links as text, the system through the tree. The two
agree where the components of a target, with every link on the way taken for what it leads to,
name the same entry as its text.
-/

namespace KindleBridge.Bundle

open LinkTree List FileEntry Function
open Schema (splitPath Proper)

/-! ## Paths and their components -/

section
variable {c value : String} {parts : List String}

end

/-! ## What the checks leave -/

def FileEntry.parts (entry : FileEntry) : List String := splitPath entry.path

variable {nfc : String → String} {entries : List FileEntry} {parts : List String} {e : FileEntry}

def IsDirectory (entries : List FileEntry) (parts : List String) : Prop :=
  parts = [] ∨ ∃ e ∈ entries, e.fileType = .directory ∧ e.parts = parts

/-- Everything above the entries is a directory among them. -/
def Closed (entries : List FileEntry) : Prop :=
  ∀ e ∈ entries, ∀ q, q <+: e.parts → q ≠ e.parts → IsDirectory entries q

theorem IsDirectory.mono {entries' : List FileEntry}
    (h : IsDirectory entries parts) (hsub : entries ⊆ entries') : IsDirectory entries' parts :=
  h.imp_right fun ⟨e, he, hdir⟩ => ⟨e, hsub he, hdir⟩

theorem prefix_dropLast {α : Type*} {q p : List α} (h : q <+: p) (hne : q ≠ p) :
    q <+: p.dropLast := by
  cases p using reverseRecOn with
  | nil => exact absurd (prefix_nil.mp h) hne
  | append_singleton p c =>
    rw [dropLast_concat]
    exact (prefix_concat_iff.mp h).resolve_left hne

/-- The loop has recorded the entries so far. -/
def Recorded (scan : TreeScan) (earlier : List FileEntry) : Prop :=
  ∀ path type, scan.types.lookup path = some type →
    ∃ e ∈ earlier, e.path = path ∧ e.fileType = type

variable {earlier : List FileEntry} {scan : TreeScan} {seen : List String} {scan' : TreeScan}

theorem closed_append (h : Closed earlier)
    (hparent : IsDirectory earlier e.parts.dropLast) : Closed (earlier ++ [e]) := by
  intro f hf q hq hne
  suffices hdir : IsDirectory earlier q from hdir.mono (subset_append_left _ _)
  rcases mem_append.mp hf with hf | hf
  · exact h f hf q hq hne
  · obtain rfl := mem_singleton.mp hf
    have hq' := prefix_dropLast hq hne
    by_cases heq : q = f.parts.dropLast
    · rwa [heq]
    · rcases hparent with hnil | ⟨g, hg, -, hparts⟩
      · rw [hnil] at hq' heq
        exact absurd (prefix_nil.mp hq') heq
      · rw [← hparts] at hq' heq
        exact h g hg q hq' heq

/-- Each entry stands in a directory that comes before it. -/
def Ordered : List FileEntry → List FileEntry → Prop
  | _, [] => True
  | earlier, e :: rest => IsDirectory earlier e.parts.dropLast ∧ Ordered (earlier ++ [e]) rest

theorem Ordered.closed (h : Ordered earlier entries)
    (hc : Closed earlier) : Closed (earlier ++ entries) := by
  induction entries generalizing earlier with
  | nil => simpa using hc
  | cons e entries ih =>
    have hrest := ih h.2 (closed_append hc h.1)
    rwa [append_assoc, singleton_append] at hrest

/-! ## The tree that is made -/

section
variable {root : List String} {tree tree' : LinkTree String} {made : List FileEntry}

/-- The entries stand at their paths below the root, and nothing else does. -/
structure Made (root : List String) (tree : LinkTree String) (made : List FileEntry) : Prop where
  top : tree root = some .dir
  entry : ∀ e ∈ made, tree (root ++ e.parts) = some e.node
  only : ∀ q node, tree (root ++ q) = some node → q = [] ∨ ∃ e ∈ made, e.parts = q ∧ e.node = node

theorem Made.dir (h : Made root tree made) (hdir : IsDirectory made parts) :
    tree (root ++ parts) = some .dir := by
  rcases hdir with rfl | ⟨e, he, htype, rfl⟩
  · simpa using h.top
  · rw [h.entry e he, node, htype]

theorem Made.create (h : Made root tree made)
    (hdirs : ∀ q, q <+: e.parts → q ≠ e.parts → IsDirectory made q)
    (hcreate : tree.create root (splitPath e.path) e.node = .ok tree') :
    Made root tree' (made ++ [e]) := by
  obtain ⟨hfree, rfl⟩ := create_eq (fun q hq hne _ => h.dir (hdirs q hq hne)) hcreate
  have hstays {q : List String} {node : TreeEntry String} (hq : tree q = some node) :
      update tree (root ++ e.parts) (some e.node) q = some node := by
    rw [update_of_ne, hq]
    rintro rfl
    exact Option.some_ne_none _ (hq.symm.trans hfree)
  refine ⟨hstays h.top, fun f hf => ?_, fun q node hq => ?_⟩
  · rcases mem_append.mp hf with hf | hf
    · exact hstays (h.entry f hf)
    · obtain rfl := mem_singleton.mp hf
      exact update_self ..
  · by_cases heq : q = e.parts
    · rw [heq, update_self] at hq
      exact .inr ⟨e, by simp, heq.symm, Option.some.inj hq⟩
    · rw [update_of_ne (by simpa using heq)] at hq
      exact (h.only q node hq).imp_right fun ⟨f, hf, hnode⟩ => ⟨f, mem_append_left _ hf, hnode⟩

end

/-! ## Text and tree -/

/--
Where the components of a target lead among the entries, and how many links are followed on the
way. Each step is taken from a directory of the bundle. A link stands for what its own target
leads to, and nothing is above the root.
-/
inductive Leads (entries : List FileEntry) :
    List String → List (PathStep String) → ℕ → List String → Prop
  | done (d : List String) : Leads entries d [] 0 d
  | here {d p : List String} {rest : List (PathStep String)} {n : ℕ} :
      IsDirectory entries d → Leads entries d rest n p → Leads entries d (.here :: rest) n p
  | up {d p : List String} {c : String} {rest : List (PathStep String)} {n : ℕ} :
      IsDirectory entries (d ++ [c]) → Leads entries d rest n p →
      Leads entries (d ++ [c]) (.up :: rest) n p
  | dir {d p : List String} {c : String} {rest : List (PathStep String)} {n : ℕ} :
      IsDirectory entries (d ++ [c]) → Leads entries (d ++ [c]) rest n p →
      Leads entries d (.name c :: rest) n p
  | file {d : List String} {c : String} {e : FileEntry} : e ∈ entries → e.fileType = .regular →
      e.parts = d ++ [c] → Leads entries d [.name c] 0 (d ++ [c])
  | link {d via p : List String} {c target : String} {rest : List (PathStep String)} {m n : ℕ}
      {e : FileEntry} : e ∈ entries → e.fileType = .symlinkRelative → e.parts = d ++ [c] →
      e.target = some target → Leads entries d ((splitPath target).map toStep) m via →
      Leads entries via rest n p → Leads entries d (.name c :: rest) (m + n + 1) p

/-- Every link leads, within the limit of the system, to the entry at which its text ends. -/
def Faithful (nfc : String → String) (entries : List FileEntry) : Prop :=
  ∀ e ∈ entries, e.fileType = .symlinkRelative → ∃ target last n, e.target = some target ∧
    chainEnd nfc entries e = .ok last ∧ n < maxLinks ∧
    Leads entries e.parts.dropLast ((splitPath target).map toStep) n last.parts

def Relative (entries : List FileEntry) : Prop :=
  ∀ e ∈ entries, e.fileType = .symlinkRelative → ∃ target, e.target = some target ∧
    e.node = .link false ((splitPath target).map toStep)

section
variable {d p : List String} {path rest : List (PathStep String)} {n : ℕ}

theorem Leads.isDirectory (hclosed : Closed entries) (h : Leads entries d path n p)
    (hne : path ≠ []) : IsDirectory entries d := by
  have habove (e : FileEntry) (he : e ∈ entries) {c : String} (hparts : e.parts = d ++ [c]) :
      IsDirectory entries d := by
    refine hclosed e he d (hparts ▸ prefix_append _ _) fun heq => ?_
    simp [hparts] at heq
  cases h with
  | done => exact absurd rfl hne
  | here hd | up hd => exact hd
  | dir hd =>
    rcases hd with hd | ⟨e, he, -, hparts⟩
    · simp at hd
    · exact habove e he hparts
  | file he _ hparts | link he _ hparts => exact habove _ he hparts

variable {root : List String} {tree : LinkTree String}

theorem Made.link (hmade : Made root tree entries) (hrel : Relative entries) (he : e ∈ entries)
    (htype : e.fileType = .symlinkRelative) {c target : String} (hparts : e.parts = d ++ [c])
    (htarget : e.target = some target) :
    tree (root ++ d ++ [c]) = some (.link false ((splitPath target).map toStep)) := by
  obtain ⟨target', htarget', hnode⟩ := hrel e he htype
  obtain rfl := Option.some.inj (htarget.symm.trans htarget')
  rw [append_assoc, ← hparts, hmade.entry e he, hnode]

/-- What the components lead to is where the system goes on from. -/
theorem Leads.stays (hclosed : Closed entries) (hmade : Made root tree entries)
    (hrel : Relative entries) {links : ℕ} {q : List String} (h : Leads entries d path n p)
    (hrest : rest = [] ∨ IsDirectory entries p) (hs : tree.Stays root links (root ++ p) rest q) :
    tree.Stays root (links + n) (root ++ d) (path ++ rest) q := by
  induction h generalizing links rest with
  | done => exact hs
  | here _ _ ih => exact (ih hrest hs).of_walks fun _ => walks_here
  | @up d p c _ _ _ _ ih =>
    have hup : (root ++ (d ++ [c])).dropLast = root ++ d := by simp [← append_assoc]
    refine (ih hrest hs).of_walks fun _ hw => walks_up ?_ ?_
    · rw [hup]
      exact prefix_append _ _
    · rwa [hup]
  | dir hd _ ih =>
    refine (ih hrest hs).of_walks fun _ hw => walks_dir (prefix_append _ _) ?_ ?_
    · rw [append_assoc]
      exact hmade.dir hd
    · rwa [append_assoc]
  | @file d c e he htype hparts =>
    have hfile : tree (root ++ (d ++ [c])) = some .file := by
      rw [← hparts, hmade.entry e he, node, htype]
    rcases hrest with rfl | hdir
    · rcases hs.cases with ⟨-, hq⟩ | ⟨_, _, _, -, ⟨-, hq⟩, -⟩
      · obtain rfl := Lookup.reached.inj hq
        rw [append_nil, ← append_assoc]
        exact (walks_file (prefix_append _ _) (by rwa [append_assoc])).stays links
      · cases hq
    · rw [hmade.dir hdir] at hfile
      cases hfile
  | @link d via p c target steps m n e he htype hparts htarget hvia h ih ih' =>
    have hnext := ih' hrest hs
    have hdir : steps ++ rest = [] ∨ IsDirectory entries via := by
      by_cases hsteps : steps = []
      · subst hsteps
        cases h
        simpa using hrest
      · exact .inr (h.isDirectory hclosed hsteps)
    have hwalk : tree.Walks root (root ++ d) (.name c :: (steps ++ rest))
        (.follow (root ++ d) ((splitPath target).map toStep ++ (steps ++ rest))) :=
      walks_link (hmade.link hrel he htype hparts htarget)
    rw [show links + (m + n + 1) = links + n + m + 1 by omega]
    exact hwalk.follow (ih hdir hnext)

/-- The first link that a walk meets, or the entry at which it ends, is one of the bundle. -/
def Meets (entries : List FileEntry) (root d : List String) (path : List (PathStep String)) :
    Lookup String → Prop
  | .reached q => ∃ p, q = root ++ p ∧ Leads entries d path 0 p
  | .follow directory steps => ∃ d' c e target rest, directory = root ++ d' ∧ e ∈ entries ∧
      e.fileType = .symlinkRelative ∧ e.parts = d' ++ [c] ∧ e.target = some target ∧
      steps = (splitPath target).map toStep ++ rest ∧
      ∀ n p, Leads entries d' (.name c :: rest) n p → Leads entries d path n p
  | .failed _ => True

theorem Meets.step {d' : List String} {step : PathStep String} {lookup : Lookup String}
    (h : Meets entries root d' path lookup)
    (hstep : ∀ n p, Leads entries d' path n p → Leads entries d (step :: path) n p) :
    Meets entries root d (step :: path) lookup := by
  cases lookup with
  | reached q =>
    obtain ⟨p, rfl, h⟩ := h
    exact ⟨p, rfl, hstep _ _ h⟩
  | follow directory steps =>
    obtain ⟨d'', c, e, target, rest, hd, he, htype, hparts, htarget, hsteps, h⟩ := h
    exact ⟨d'', c, e, target, rest, hd, he, htype, hparts, htarget, hsteps,
      fun n p hl => hstep n p (h n p hl)⟩
  | failed _ => trivial

end

end KindleBridge.Bundle
