import KindleBridge.Foundations.FileSystem

/-! # Paths through symbolic links

How a system resolves a path in a tree with symbolic links: link targets take the place of
the link in the path, and the parent directory is that of the directory really reached.
-/

namespace KindleBridge

open List

variable {κ : Type}

inductive PathStep (κ : Type)
  | name (c : κ)
  | here
  | up
deriving DecidableEq, Repr

/-- What a directory holds under a name. -/
inductive TreeEntry (κ : Type)
  | dir
  | file
  | link (absolute : Bool) (target : List (PathStep κ))
deriving DecidableEq, Repr

/-- The entries of a tree by their own paths. -/
abbrev LinkTree (κ : Type) := List κ → Option (TreeEntry κ)

/-- Where a walk ends, or the link that it has to follow next. -/
inductive Lookup (κ : Type)
  | reached (path : List κ)
  | follow (directory : List κ) (rest : List (PathStep κ))
  | failed (error : IoError)
deriving DecidableEq, Repr

namespace LinkTree

/-- Walk from a directory up to the next link; the entries that the walk enters are listed. -/
def walk (tree : LinkTree κ) : List κ → List (PathStep κ) → List (List κ) × Lookup κ
  | d, [] => ([], .reached d)
  | d, .here :: rest => tree.walk d rest
  | d, .up :: rest =>
    let (trail, lookup) := tree.walk d.dropLast rest
    (d.dropLast :: trail, lookup)
  | d, .name c :: rest =>
    match tree (d ++ [c]) with
    | none => ([], .failed .notFound)
    | some .dir =>
      let (trail, lookup) := tree.walk (d ++ [c]) rest
      ((d ++ [c]) :: trail, lookup)
    | some .file =>
      if rest.isEmpty then ([d ++ [c]], .reached (d ++ [c])) else ([], .failed .notADirectory)
    | some (.link absolute target) =>
      ([], .follow (if absolute then [] else d) (target ++ rest))

/-- Resolve a path from a directory; at most so many links are followed. -/
def resolve (tree : LinkTree κ) (links : ℕ) (d : List κ) (path : List (PathStep κ)) :
    List (List κ) × Except IoError (List κ) :=
  match tree.walk d path with
  | (trail, .reached p) => (trail, .ok p)
  | (trail, .failed e) => (trail, .error e)
  | (trail, .follow directory rest) =>
    match links with
    | 0 => (trail, .error .filesystemLoop)
    | links + 1 =>
      let (more, outcome) := tree.resolve links directory rest
      (trail ++ more, outcome)

def maxLinks : ℕ := 40

variable {tree : LinkTree κ} {base d p : List κ} {rest : List (PathStep κ)}

/-- The walk from here stays below `base` and ends so. -/
def Walks (tree : LinkTree κ) (base d : List κ) (path : List (PathStep κ)) (lookup : Lookup κ) :
    Prop :=
  (∀ q ∈ (tree.walk d path).1, base <+: q) ∧ (tree.walk d path).2 = lookup

/-- The path resolves to the entry and no directory on the way is outside of `base`. -/
def Stays (tree : LinkTree κ) (base : List κ) (links : ℕ) (d : List κ) (path : List (PathStep κ))
    (p : List κ) : Prop :=
  (∀ q ∈ (tree.resolve links d path).1, base <+: q) ∧ (tree.resolve links d path).2 = .ok p

variable {lookup : Lookup κ} {target : List (PathStep κ)} {names : List κ} {c : κ}

theorem walks_nil : tree.Walks base d [] (.reached d) := ⟨by simp [walk], rfl⟩

theorem walks_here (h : tree.Walks base d rest lookup) :
    tree.Walks base d (.here :: rest) lookup := h

theorem walks_up (hd : base <+: d.dropLast) (h : tree.Walks base d.dropLast rest lookup) :
    tree.Walks base d (.up :: rest) lookup := by
  constructor
  · simp only [walk, forall_mem_cons]
    exact ⟨hd, h.1⟩
  · exact h.2

theorem walks_dir (hd : base <+: d) (hc : tree (d ++ [c]) = some .dir)
    (h : tree.Walks base (d ++ [c]) rest lookup) : tree.Walks base d (.name c :: rest) lookup := by
  constructor
  · simp only [walk, hc, forall_mem_cons]
    exact ⟨hd.trans (prefix_append _ _), h.1⟩
  · simp only [walk, hc]
    exact h.2

theorem walks_file (hd : base <+: d) (hc : tree (d ++ [c]) = some .file) :
    tree.Walks base d [.name c] (.reached (d ++ [c])) := by
  constructor
  · simp only [walk, hc, isEmpty_nil, if_true, mem_singleton, forall_eq]
    exact hd.trans (prefix_append _ _)
  · simp [walk, hc]

theorem walks_link (hc : tree (d ++ [c]) = some (.link false target)) :
    tree.Walks base d (.name c :: rest) (.follow d (target ++ rest)) := by
  constructor <;> simp [walk, hc]

theorem walks_names (hd : base <+: d)
    (hdirs : ∀ q, q <+: names → q ≠ [] → tree (d ++ q) = some .dir)
    (h : tree.Walks base (d ++ names) rest lookup) :
    tree.Walks base d (names.map .name ++ rest) lookup := by
  induction names generalizing d with
  | nil => simpa using h
  | cons c names ih =>
    have hc : tree (d ++ [c]) = some .dir := hdirs [c] (by simp) (by simp)
    apply walks_dir hd hc
    apply ih (hd.trans (prefix_append _ _))
    · intro q hq hne
      simpa using hdirs (c :: q) (by simpa using hq) (by simp)
    · simpa using h

theorem Walks.stays (links : ℕ) (h : tree.Walks base d rest (.reached p)) :
    tree.Stays base links d rest p := by
  obtain ⟨htrail, hlookup⟩ := h
  cases hwalk : tree.walk d rest with
  | mk trail lookup =>
    rw [hwalk] at htrail hlookup
    obtain rfl : lookup = .reached p := hlookup
    have hresolve : tree.resolve links d rest = (trail, .ok p) := by rw [resolve.eq_def, hwalk]
    rw [Stays, hresolve]
    exact ⟨htrail, rfl⟩

theorem Walks.follow {links : ℕ} {directory : List κ}
    (h : tree.Walks base d rest (.follow directory target))
    (hnext : tree.Stays base links directory target p) : tree.Stays base (links + 1) d rest p := by
  obtain ⟨htrail, hlookup⟩ := h
  cases hwalk : tree.walk d rest with
  | mk trail lookup =>
    rw [hwalk] at htrail hlookup
    obtain rfl : lookup = .follow directory target := hlookup
    have hresolve : tree.resolve (links + 1) d rest =
        (trail ++ (tree.resolve links directory target).1,
          (tree.resolve links directory target).2) := by
      rw [resolve.eq_def, hwalk]
    rw [Stays, hresolve]
    exact ⟨forall_mem_append.mpr ⟨htrail, hnext.1⟩, hnext.2⟩

theorem Stays.cases {links : ℕ} (h : tree.Stays base links d rest p) :
    tree.Walks base d rest (.reached p) ∨ ∃ n directory target, links = n + 1 ∧
      tree.Walks base d rest (.follow directory target) ∧ tree.Stays base n directory target p := by
  unfold Stays Walks at *
  rw [resolve.eq_def] at h
  generalize tree.walk d rest = walked at h ⊢
  rcases walked with ⟨trail, reached | ⟨directory, target⟩ | error⟩
  · exact .inl ⟨h.1, congrArg Lookup.reached (Except.ok.inj h.2)⟩
  · cases links with
    | zero => cases h.2
    | succ n =>
      obtain ⟨htrail, hmore⟩ := forall_mem_append.mp h.1
      exact .inr ⟨n, directory, target, rfl, ⟨htrail, rfl⟩, hmore, h.2⟩
  · cases h.2

/-- A path that is walked like another one resolves like it. -/
theorem Stays.of_walks {links : ℕ} {d' : List κ} {rest' : List (PathStep κ)}
    (h : tree.Stays base links d rest p)
    (hw : ∀ lookup, tree.Walks base d rest lookup → tree.Walks base d' rest' lookup) :
    tree.Stays base links d' rest' p := by
  rcases h.cases with h | ⟨n, directory, target, rfl, h, hnext⟩
  · exact (hw _ h).stays links
  · exact (hw _ h).follow hnext

/-! ## New entries -/

/-- Make an entry at a path below a directory; the way to it follows links. -/
def create [DecidableEq κ] (tree : LinkTree κ) (base names : List κ) (entry : TreeEntry κ) :
    Except IoError (LinkTree κ) :=
  match names.getLast?, (tree.resolve maxLinks base (names.dropLast.map .name)).2 with
  | none, _ => .error .alreadyExists
  | some _, .error e => .error e
  | some c, .ok directory =>
    if tree directory ≠ some .dir then .error .notADirectory
    else if tree (directory ++ [c]) ≠ none then .error .alreadyExists
    else .ok (Function.update tree (directory ++ [c]) (some entry))

theorem create_eq [DecidableEq κ] {entry : TreeEntry κ} {tree' : LinkTree κ}
    (hdirs : ∀ q, q <+: names → q ≠ names → q ≠ [] → tree (base ++ q) = some .dir)
    (h : tree.create base names entry = .ok tree') : tree (base ++ names) = none ∧
      tree' = Function.update tree (base ++ names) (some entry) := by
  cases names using reverseRecOn with
  | nil => simp [create] at h
  | append_singleton names c =>
    have hwalk : tree.Walks base base (names.map .name ++ []) (.reached (base ++ names)) := by
      refine walks_names (prefix_refl _) (fun q hq hne => ?_) walks_nil
      refine hdirs q (hq.trans (prefix_append _ _)) ?_ hne
      rintro rfl
      have hlength := hq.length_le
      rw [length_append, length_singleton] at hlength
      omega
    have hresolve := (hwalk.stays maxLinks).2
    simp only [append_nil] at hresolve
    simp only [create, getLast?_append, getLast?_singleton, Option.some_or,
      dropLast_concat, hresolve] at h
    split_ifs at h with hdir hfree
    rw [append_assoc, not_not] at hfree
    rw [← Except.ok.inj h, append_assoc]
    exact ⟨hfree, rfl⟩

end LinkTree
end KindleBridge
