import Mathlib.Data.List.Dedup
import Mathlib.Data.List.Infix

/-! # A file system

Directories, regular files and symbolic links under names `κ`. A file is an inode, which
an open handle names directly, so that a handle outlives a rename of its path. Each
operation is one atomic step.
-/

namespace KindleBridge

open List Option

inductive IoError
  | notFound
  | alreadyExists
  | notADirectory
  | isADirectory
  | directoryNotEmpty
  | filesystemLoop
  | invalidInput
  | unsupported
  deriving DecidableEq, Repr

def IoError.text : IoError → String
  | .notFound => "No such file or directory (os error 2)"
  | .alreadyExists => "File exists (os error 17)"
  | .notADirectory => "Not a directory (os error 20)"
  | .isADirectory => "Is a directory (os error 21)"
  | .directoryNotEmpty => "Directory not empty (os error 39)"
  | .filesystemLoop => "Too many levels of symbolic links (os error 40)"
  | .invalidInput => "Invalid argument (os error 22)"
  | .unsupported => "No such device or address (os error 6)"

/-- What stands at a path. In the target of a link, `none` is the parent directory. -/
inductive Node (κ : Type)
  | file (inode : ℕ)
  | dir
  | symlink (absolute : Bool) (target : List (Option κ))
  | special
  deriving DecidableEq

inductive FileKind
  | file
  | dir
  | symlink
  | special
  deriving DecidableEq, Repr

def Node.kind {κ : Type} : Node κ → FileKind
  | .file _ => .file
  | .dir => .dir
  | .symlink _ _ => .symlink
  | .special => .special

structure Metadata where
  kind : FileKind
  len : ℕ
  deriving DecidableEq, Repr

/-- A tree of files. Every entry stands in a directory, and no inode has two names. -/
structure FileSystem (κ : Type) where
  node : List κ → Option (Node κ)
  data : ℕ → List UInt8
  /-- Inodes from here on are free. -/
  next : ℕ
  /-- All paths that may be in use. -/
  paths : List (List κ)
  node_nil : node [] = some .dir
  node_parent : ∀ {p c}, node (p ++ [c]) ≠ none → node p = some .dir
  inode_lt : ∀ {p i}, node p = some (.file i) → i < next
  inode_inj : ∀ {p q i}, node p = some (.file i) → node q = some (.file i) → p = q
  mem_paths : ∀ {p}, node p ≠ none → p ∈ paths

namespace FileSystem

variable {κ : Type}

def empty : FileSystem κ where
  node
    | [] => some .dir
    | _ :: _ => none
  data _ := []
  next := 0
  paths := [[]]
  node_nil := rfl
  node_parent {p c} h := by cases p <;> simp at h
  inode_lt {p i} h := by cases p <;> simp at h
  inode_inj {p q i} h := by cases p <;> simp at h
  mem_paths {p} h := by cases p <;> simp_all

/-- A file system with one directory in another, down to the given one. -/
def spine [DecidableEq κ] (d : List κ) : FileSystem κ where
  node p := if p <+: d then some .dir else none
  data _ := []
  next := 0
  paths := d.inits
  node_nil := by simp
  node_parent {p c} h := by
    split_ifs at h with hp
    · rw [if_pos ((List.prefix_append p [c]).trans hp)]
    · exact absurd rfl h
  inode_lt {p i} h := by simp at h
  inode_inj {p q i} h := by simp at h
  mem_paths {p} h := by
    split_ifs at h with hp
    · exact (List.mem_inits p d).mpr hp
    · exact absurd rfl h

def IsLink (fs : FileSystem κ) (p : List κ) : Prop :=
  ∃ absolute target, fs.node p = some (.symlink absolute target)

def content (fs : FileSystem κ) (p : List κ) : Option (List UInt8) :=
  match fs.node p with
  | some (.file i) => some (fs.data i)
  | _ => none

section Entries

variable {fs : FileSystem κ} {p q : List κ} {i : ℕ} {bytes : List UInt8}

theorem content_eq_some : fs.content p = some bytes ↔
    ∃ i, fs.node p = some (.file i) ∧ fs.data i = bytes := by
  unfold content
  split <;> simp_all

theorem content_of_file (h : fs.node p = some (.file i)) : fs.content p = some (fs.data i) := by
  simp [content, h]

theorem not_isLink_of_dir (h : fs.node p = some .dir) : ¬ fs.IsLink p := by
  rintro ⟨_, _, hl⟩
  simp [h] at hl

theorem not_isLink_of_file (h : fs.node p = some (.file i)) : ¬ fs.IsLink p := by
  rintro ⟨_, _, hl⟩
  simp [h] at hl

theorem not_isLink_of_none (h : fs.node p = none) : ¬ fs.IsLink p := by
  rintro ⟨_, _, hl⟩
  simp [h] at hl

theorem node_above (h : fs.node p ≠ none) (hq : q <+: p) (hne : q ≠ p) : fs.node q = some .dir := by
  induction p using reverseRecOn with
  | nil => exact absurd (prefix_nil.mp hq) hne
  | append_singleton p c ih =>
    rcases prefix_concat_iff.mp hq with hq | hq
    · exact absurd hq hne
    · have hp := fs.node_parent h
      by_cases hqp : q = p
      · rw [hqp, hp]
      · exact ih (by simp [hp]) hq hqp

theorem node_above_dir (h : fs.node p = some .dir) (hq : q <+: p) : fs.node q = some .dir := by
  by_cases hqp : q = p
  · rw [hqp, h]
  · exact node_above (by simp [h]) hq hqp

theorem node_below_file (h : fs.node p ≠ some .dir) (hq : p <+: q) (hne : q ≠ p) :
    fs.node q = none := by
  by_contra hn
  exact h (node_above hn hq (Ne.symm hne))

end Entries

/-! ## Paths -/

inductive Walk (κ : Type)
  | reached (path : List κ)
  | link (directory : List κ) (rest : List (Option κ))
  | failed (error : IoError)

/-- Walk down from a directory, up to the next link that has to be followed. -/
def walk (fs : FileSystem κ) (follow : Bool) : List κ → List (Option κ) → Walk κ
  | d, [] => .reached d
  | d, none :: rest => fs.walk follow d.dropLast rest
  | d, some c :: rest =>
    match fs.node (d ++ [c]) with
    | some .dir => fs.walk follow (d ++ [c]) rest
    | some (.symlink absolute target) =>
      if rest = [] ∧ follow = false then .reached (d ++ [c])
      else .link (if absolute then [] else d) (target ++ rest)
    | some _ => if rest = [] then .reached (d ++ [c]) else .failed .notADirectory
    | none => if rest = [] then .reached (d ++ [c]) else .failed .notFound

def resolve (fs : FileSystem κ) (follow : Bool) :
    ℕ → List κ → List (Option κ) → Except IoError (List κ)
  | 0, d, rest =>
    match fs.walk follow d rest with
    | .reached p => .ok p
    | .failed e => .error e
    | .link _ _ => .error .filesystemLoop
  | links + 1, d, rest =>
    match fs.walk follow d rest with
    | .reached p => .ok p
    | .failed e => .error e
    | .link directory rest => fs.resolve follow links directory rest

/-- The entry that a path names. A link at its end is followed or not. -/
def locate (fs : FileSystem κ) (follow : Bool) (p : List κ) : Except IoError (List κ) :=
  fs.resolve follow 40 [] (p.map some)

section Locate

variable {fs : FileSystem κ} {follow : Bool} {p q d : List κ}

theorem locate_of_walk (h : fs.walk follow [] (p.map some) = .reached p) :
    fs.locate follow p = .ok p := by
  simp [locate, resolve, h]

theorem walk_of_dirs (hdirs : ∀ q, q <+: p → q ≠ p → fs.node (d ++ q) = some .dir)
    (hlink : follow = true → ¬ fs.IsLink (d ++ p)) :
    fs.walk follow d (p.map some) = .reached (d ++ p) := by
  induction p generalizing d with
  | nil => simp [walk]
  | cons c rest ih =>
    rw [map_cons, walk]
    cases rest with
    | nil =>
      split
      · simp [walk]
      · rename_i a t hnode
        have hfollow : follow = false := by
          by_contra hf
          exact hlink (by simpa using hf) ⟨a, t, hnode⟩
        simp [hfollow]
      · simp
      · simp
    | cons c' rest =>
      have hc : fs.node (d ++ [c]) = some .dir := hdirs [c] (by simp) (by simp)
      rw [hc]
      have hwalk := ih (d := d ++ [c])
        (fun q hq hne => by simpa using hdirs (c :: q) (by simpa using hq) (by simpa using hne))
        (by simpa using hlink)
      simpa using hwalk

theorem locate_eq_ok (hdirs : ∀ q, q <+: p → q ≠ p → fs.node q = some .dir)
    (hlink : follow = true → ¬ fs.IsLink p) : fs.locate follow p = .ok p :=
  locate_of_walk (walk_of_dirs (d := []) hdirs hlink)

theorem locate_of_node (h : fs.node p ≠ none) (hlink : follow = true → ¬ fs.IsLink p) :
    fs.locate follow p = .ok p :=
  locate_eq_ok (fun _ hq hne => node_above h hq hne) hlink

theorem locate_of_parent {c : κ} (h : fs.node p = some .dir)
    (hlink : follow = true → ¬ fs.IsLink (p ++ [c])) :
    fs.locate follow (p ++ [c]) = .ok (p ++ [c]) := by
  refine locate_eq_ok (fun q hq hne => ?_) hlink
  rcases prefix_concat_iff.mp hq with hq | hq
  · exact absurd hq hne
  · exact node_above_dir h hq

theorem walk_of_no_link (hlink : ∀ q, q <+: p → q ≠ [] → q ≠ p ∨ follow = true →
    ¬ fs.IsLink (d ++ q)) : fs.walk follow d (p.map some) = .reached (d ++ p) ∨
      ∃ e, fs.walk follow d (p.map some) = .failed e := by
  induction p generalizing d with
  | nil => simp [walk]
  | cons c rest ih =>
    rw [map_cons, walk]
    split
    · have hwalk := ih (d := d ++ [c]) fun q hq hne hor => by
        simpa using hlink (c :: q) (by simpa using hq) (by simp) (by simpa using hor)
      simpa using hwalk
    · rename_i a t hnode
      cases rest with
      | nil =>
        have hfollow : follow = false := by
          by_contra hf
          exact hlink [c] (by simp) (by simp) (.inr (by simpa using hf)) ⟨a, t, hnode⟩
        simp [hfollow]
      | cons c' rest => exact absurd ⟨a, t, hnode⟩ (hlink [c] (by simp) (by simp) (.inl (by simp)))
    · cases rest <;> simp
    · cases rest <;> simp

theorem locate_of_no_link (hlink : ∀ q, q <+: p → q ≠ p ∨ follow = true → ¬ fs.IsLink q) :
    fs.locate follow p = .ok p ∨ ∃ e, fs.locate follow p = .error e := by
  have hlink' : ∀ q, q <+: p → q ≠ [] → q ≠ p ∨ follow = true → ¬ fs.IsLink ([] ++ q) :=
    fun q hq _ hor => by simpa using hlink q hq hor
  rcases walk_of_no_link hlink' with h | ⟨e, h⟩
  · exact .inl (locate_of_walk (by simpa using h))
  · exact .inr ⟨e, by simp [locate, resolve, h]⟩

end Locate

/-! ## Changes -/

variable [DecidableEq κ]

/-- A free place in a directory. -/
def Slot (fs : FileSystem κ) (p : List κ) : Prop :=
  p ≠ [] ∧ fs.node p.dropLast = some .dir ∧ fs.node p = none

instance (fs : FileSystem κ) (p : List κ) : Decidable (fs.Slot p) :=
  inferInstanceAs (Decidable (_ ∧ _ ∧ _))

def children (fs : FileSystem κ) (p : List κ) : List κ :=
  (fs.paths.filterMap fun q =>
    if q.dropLast = p ∧ fs.node q ≠ none then q.getLast? else none).dedup

theorem mem_children {fs : FileSystem κ} {p : List κ} {c : κ} :
    c ∈ fs.children p ↔ fs.node (p ++ [c]) ≠ none := by
  rw [children, mem_dedup, mem_filterMap]
  constructor
  · rintro ⟨q, -, hq⟩
    split_ifs at hq with h
    obtain ⟨rfl, hn⟩ := h
    have hqc : q.dropLast ++ [c] = q := by
      rw [dropLast_append_getLast? c (by simpa using hq)]
    rwa [hqc]
  · intro h
    exact ⟨p ++ [c], fs.mem_paths h, by simp [h]⟩

/-- Put a new entry into a free place. -/
def add (fs : FileSystem κ) (p : List κ) (n : Node κ) (h : fs.Slot p)
    (hn : ∀ i, n = .file i → i = fs.next) : FileSystem κ where
  node q := if q = p then some n else fs.node q
  data i := if i = fs.next then [] else fs.data i
  next := fs.next + 1
  paths := p :: fs.paths
  node_nil := by simp [h.1.symm, fs.node_nil]
  node_parent {q c} hq := by
    by_cases hqc : q ++ [c] = p
    · subst hqc
      have hdir : fs.node q = some .dir := by simpa using h.2.1
      simp [hdir]
    · rw [if_neg hqc] at hq
      have hdir := fs.node_parent hq
      have hne : q ≠ p := by
        rintro rfl
        simp [h.2.2] at hdir
      rw [if_neg hne, hdir]
  inode_lt {q i} hq := by
    split_ifs at hq
    · rw [hn i (Option.some.inj hq)]
      exact Nat.lt_succ_self _
    · exact Nat.lt_succ_of_lt (fs.inode_lt hq)
  inode_inj {q r i} hq hr := by
    split_ifs at hq hr with h1 h2 h2
    · rw [h1, h2]
    · have hi := hn i (Option.some.inj hq)
      exact absurd (fs.inode_lt hr) (by omega)
    · have hi := hn i (Option.some.inj hr)
      exact absurd (fs.inode_lt hq) (by omega)
    · exact fs.inode_inj hq hr
  mem_paths {q} hq := by
    split_ifs at hq with h1
    · simp [h1]
    · exact .tail _ (fs.mem_paths hq)

def addDir (fs : FileSystem κ) (p : List κ) (h : fs.Slot p) : FileSystem κ :=
  fs.add p .dir h (by simp)

def addFile (fs : FileSystem κ) (p : List κ) (h : fs.Slot p) : FileSystem κ :=
  fs.add p (.file fs.next) h (by rintro i ⟨⟩; rfl)

def setData (fs : FileSystem κ) (i : ℕ) (bytes : List UInt8) : FileSystem κ :=
  { fs with data := fun j => if j = i then bytes else fs.data j }

/-- An entry below the root that has nothing in it. -/
def Bare (fs : FileSystem κ) (p : List κ) : Prop := p ≠ [] ∧ fs.children p = []

instance (fs : FileSystem κ) (p : List κ) : Decidable (fs.Bare p) :=
  inferInstanceAs (Decidable (_ ∧ _))

def erase (fs : FileSystem κ) (p : List κ) (h : fs.Bare p) : FileSystem κ where
  node q := if q = p then none else fs.node q
  data := fs.data
  next := fs.next
  paths := fs.paths
  node_nil := by simp [h.1.symm, fs.node_nil]
  node_parent {q c} hq := by
    split_ifs at hq
    · simp at hq
    · have hne : q ≠ p := by
        rintro rfl
        have hc := mem_children.mpr hq
        simp [h.2] at hc
      rw [if_neg hne, fs.node_parent hq]
  inode_lt {q i} hq := by
    split_ifs at hq
    exact fs.inode_lt hq
  inode_inj {q r i} hq hr := by
    split_ifs at hq hr
    exact fs.inode_inj hq hr
  mem_paths {q} hq := by
    split_ifs at hq
    · simp at hq
    · exact fs.mem_paths hq

/-- The entry at `p` and everything below it may be moved to `q`. -/
def Movable (fs : FileSystem κ) (p q : List κ) : Prop :=
  p ≠ [] ∧ fs.Bare q ∧ fs.node q.dropLast = some .dir ∧ ¬ p <+: q

instance (fs : FileSystem κ) (p q : List κ) : Decidable (fs.Movable p q) :=
  inferInstanceAs (Decidable (_ ∧ _ ∧ _ ∧ _))

/-- Where an entry at `r` comes from when `p` has been moved to `q`. -/
def origin (p q r : List κ) : Option (List κ) :=
  if q <+: r then some (p ++ r.drop q.length) else if p <+: r then none else some r

theorem origin_below {p q : List κ} (r : List κ) : origin p q (q ++ r) = some (p ++ r) := by
  simp [origin]

theorem origin_elsewhere {p q r : List κ} (hp : ¬ p <+: r) (hq : ¬ q <+: r) :
    origin p q r = some r := by
  simp [origin, hp, hq]

theorem origin_inj {p q r r' o : List κ} (h : origin p q r = some o)
    (h' : origin p q r' = some o) : r = r' := by
  unfold origin at h h'
  by_cases hq : q <+: r <;> by_cases hq' : q <+: r' <;>
    simp only [hq, hq', if_true, if_false] at h h'
  · obtain ⟨u, rfl⟩ := hq
    obtain ⟨v, rfl⟩ := hq'
    rw [← h'] at h
    simpa using h
  · split_ifs at h' with hp
    obtain rfl := Option.some.inj h'
    obtain rfl := Option.some.inj h
    exact absurd (prefix_append _ _) hp
  · split_ifs at h with hp
    obtain rfl := Option.some.inj h
    obtain rfl := Option.some.inj h'
    exact absurd (prefix_append _ _) hp
  · split_ifs at h h'
    exact (Option.some.inj h).trans (Option.some.inj h').symm

def move (fs : FileSystem κ) (p q : List κ) (h : fs.Movable p q) : FileSystem κ where
  node r := (origin p q r).bind fs.node
  data := fs.data
  next := fs.next
  paths := fs.paths ++ fs.paths.map fun r => q ++ r.drop p.length
  node_nil := by
    rw [origin_elsewhere (by simp [h.1]) (by simp [h.2.1.1])]
    exact fs.node_nil
  node_parent {r c} hr := by
    obtain ⟨hp, ⟨hq, -⟩, hdir, hpq⟩ := h
    by_cases hqr : q <+: r
    · obtain ⟨u, rfl⟩ := hqr
      rw [List.append_assoc, origin_below, ← List.append_assoc] at hr
      rw [origin_below]
      exact fs.node_parent hr
    · by_cases hqc : q = r ++ [c]
      · -- The directory that takes the entry is not moved itself.
        subst hqc
        have hpr : ¬ p <+: r := fun hpr => hpq (hpr.trans (List.prefix_append _ _))
        rw [origin_elsewhere hpr hqr]
        simpa using hdir
      · have hqrc : ¬ q <+: r ++ [c] := by
          rw [List.prefix_concat_iff]
          simp [hqc, hqr]
        have hprc : ¬ p <+: r ++ [c] := by
          intro hprc
          simp [origin, hqrc, hprc] at hr
        have hpr : ¬ p <+: r := fun hpr => hprc (hpr.trans (List.prefix_append _ _))
        rw [origin_elsewhere hprc hqrc] at hr
        rw [origin_elsewhere hpr hqr]
        exact fs.node_parent hr
  inode_lt {r i} hr := by
    obtain ⟨o, -, ho⟩ := bind_eq_some_iff.mp hr
    exact fs.inode_lt ho
  inode_inj {r r' i} hr hr' := by
    obtain ⟨o, ho, hi⟩ := bind_eq_some_iff.mp hr
    obtain ⟨o', ho', hi'⟩ := bind_eq_some_iff.mp hr'
    obtain rfl := fs.inode_inj hi hi'
    exact origin_inj ho ho'
  mem_paths {r} hr := by
    obtain ⟨n, hn⟩ := ne_none_iff_exists'.mp hr
    obtain ⟨o, ho, hi⟩ := bind_eq_some_iff.mp hn
    have ho' := fs.mem_paths (show fs.node o ≠ none by simp [hi])
    unfold origin at ho
    split_ifs at ho with h1 h2
    · obtain ⟨u, rfl⟩ := h1
      obtain rfl := Option.some.inj ho
      exact List.mem_append_right _ (List.mem_map.mpr ⟨_, ho', by simp⟩)
    · obtain rfl := Option.some.inj ho
      exact List.mem_append_left _ ho'

/-- Overwrite bytes from a position on; a gap before it is filled with zeros. -/
def overwrite (old : List UInt8) (position : ℕ) (bytes : List UInt8) : List UInt8 :=
  if bytes = [] then old
  else old.takeD position 0 ++ bytes ++ old.drop (position + bytes.length)

theorem overwrite_nil (bytes : List UInt8) : overwrite [] 0 bytes = bytes := by
  simp [overwrite]

theorem overwrite_length (old bytes : List UInt8) :
    overwrite old old.length bytes = old ++ bytes := by
  have hdrop : old.drop (old.length + bytes.length) = [] := drop_eq_nil_of_le (by omega)
  have htake : old.takeD old.length 0 = old := by
    rw [takeD_eq_take _ le_rfl, take_length]
  rw [overwrite, htake, hdrop, append_nil]
  split_ifs with h
  · rw [h, append_nil]
  · rfl

/-! ## Operations -/

def metadata (fs : FileSystem κ) (follow : Bool) (p : List κ) : Except IoError Metadata :=
  match fs.locate follow p with
  | .error e => .error e
  | .ok q =>
    match fs.node q with
    | none => .error .notFound
    | some (.file i) => .ok ⟨.file, (fs.data i).length⟩
    | some n => .ok ⟨n.kind, 0⟩

def createDir (fs : FileSystem κ) (p : List κ) : Except IoError Unit × FileSystem κ :=
  match fs.locate false p with
  | .error e => (.error e, fs)
  | .ok q => if h : fs.Slot q then (.ok (), fs.addDir q h) else (.error .alreadyExists, fs)

/-- Open a file for writing. It is emptied, or made if there is none. -/
def create (fs : FileSystem κ) (p : List κ) : Except IoError ℕ × FileSystem κ :=
  match fs.locate true p with
  | .error e => (.error e, fs)
  | .ok q =>
    match fs.node q with
    | some (.file i) => (.ok i, fs.setData i [])
    | some .dir => (.error .isADirectory, fs)
    | some _ => (.error .unsupported, fs)
    | none => if h : fs.Slot q then (.ok fs.next, fs.addFile q h) else (.error .notFound, fs)

def createNew (fs : FileSystem κ) (p : List κ) : Except IoError ℕ × FileSystem κ :=
  match fs.locate false p with
  | .error e => (.error e, fs)
  | .ok q =>
    if h : fs.Slot q then (.ok fs.next, fs.addFile q h) else (.error .alreadyExists, fs)

def openFile (fs : FileSystem κ) (p : List κ) : Except IoError ℕ :=
  match fs.locate true p with
  | .error e => .error e
  | .ok q =>
    match fs.node q with
    | some (.file i) => .ok i
    | some .dir => .error .isADirectory
    | some _ => .error .unsupported
    | none => .error .notFound

/-- Whether the entry at `p` may take the place of the one at `q`. -/
def replaces (fs : FileSystem κ) (p q : List κ) : Except IoError Unit :=
  match fs.node p, fs.node q with
  | none, _ => .error .notFound
  | some _, none => .ok ()
  | some .dir, some .dir => if fs.children q = [] then .ok () else .error .directoryNotEmpty
  | some .dir, some _ => .error .notADirectory
  | some _, some .dir => .error .isADirectory
  | some _, some _ => .ok ()

def rename (fs : FileSystem κ) (a b : List κ) : Except IoError Unit × FileSystem κ :=
  match fs.locate false a, fs.locate false b with
  | .error e, _ | _, .error e => (.error e, fs)
  | .ok p, .ok q =>
    if p = q ∧ fs.node p ≠ none then (.ok (), fs)
    else
      match fs.replaces p q with
      | .error e => (.error e, fs)
      | .ok _ =>
        if h : fs.Movable p q then (.ok (), fs.move p q h) else (.error .invalidInput, fs)

def removeFile (fs : FileSystem κ) (p : List κ) : Except IoError Unit × FileSystem κ :=
  match fs.locate false p with
  | .error e => (.error e, fs)
  | .ok q =>
    match fs.node q with
    | none => (.error .notFound, fs)
    | some .dir => (.error .isADirectory, fs)
    | some _ => if h : fs.Bare q then (.ok (), fs.erase q h) else (.error .isADirectory, fs)

def removeDir (fs : FileSystem κ) (p : List κ) : Except IoError Unit × FileSystem κ :=
  match fs.locate false p with
  | .error e => (.error e, fs)
  | .ok q =>
    match fs.node q with
    | none => (.error .notFound, fs)
    | some .dir =>
      if h : fs.Bare q then (.ok (), fs.erase q h) else (.error .directoryNotEmpty, fs)
    | some _ => (.error .notADirectory, fs)

def readDir (fs : FileSystem κ) (p : List κ) : Except IoError (List κ) :=
  match fs.locate true p with
  | .error e => .error e
  | .ok q =>
    match fs.node q with
    | none => .error .notFound
    | some .dir => .ok (fs.children q)
    | some _ => .error .notADirectory

end FileSystem

/-- The calls to a file system. Handles of open files are inodes. -/
inductive FsOp (κ : Type)
  | createDir (path : List κ)
  | metadata (path : List κ)
  | symlinkMetadata (path : List κ)
  | pathExists (path : List κ)
  | create (path : List κ)
  | createNew (path : List κ)
  | openFile (path : List κ)
  | size (inode : ℕ)
  | read (inode position limit : ℕ)
  | write (inode position : ℕ) (bytes : List UInt8)
  | setLen (inode len : ℕ)
  | sync (inode : ℕ)
  | syncDir (path : List κ)
  | rename (source target : List κ)
  | removeFile (path : List κ)
  | removeDir (path : List κ)
  | readDir (path : List κ)
  deriving DecidableEq

namespace FsOp

variable {κ : Type}

abbrev Answer : FsOp κ → Type
  | .createDir _ | .rename _ _ | .removeFile _ | .removeDir _ | .syncDir _ => Except IoError Unit
  | .metadata _ | .symlinkMetadata _ => Except IoError Metadata
  | .pathExists _ => Bool
  | .create _ | .createNew _ | .openFile _ => Except IoError ℕ
  | .size _ => ℕ
  | .read _ _ _ => List UInt8
  | .write _ _ _ | .setLen _ _ | .sync _ => Unit
  | .readDir _ => Except IoError (List κ)

def serve [DecidableEq κ] : (op : FsOp κ) → FileSystem κ → op.Answer × FileSystem κ
  | .createDir p, fs => fs.createDir p
  | .metadata p, fs => (fs.metadata true p, fs)
  | .symlinkMetadata p, fs => (fs.metadata false p, fs)
  | .pathExists p, fs => ((fs.metadata true p).isOk, fs)
  | .create p, fs => fs.create p
  | .createNew p, fs => fs.createNew p
  | .openFile p, fs => (fs.openFile p, fs)
  | .size i, fs => ((fs.data i).length, fs)
  | .read i position limit, fs => (((fs.data i).drop position).take limit, fs)
  | .write i position bytes, fs =>
    ((), fs.setData i (FileSystem.overwrite (fs.data i) position bytes))
  | .setLen i len, fs => ((), fs.setData i ((fs.data i).takeD len 0))
  | .sync _, fs => ((), fs)
  | .syncDir p, fs => ((fs.metadata true p).map fun _ => (), fs)
  | .rename a b, fs => fs.rename a b
  | .removeFile p, fs => fs.removeFile p
  | .removeDir p, fs => fs.removeDir p
  | .readDir p, fs => (fs.readDir p, fs)

/-- The call looks at the file system and changes nothing. -/
def looks : FsOp κ → Bool
  | .metadata _ | .symlinkMetadata _ | .pathExists _ | .openFile _ | .size _ | .read _ _ _
  | .sync _ | .syncDir _ | .readDir _ => true
  | _ => false

theorem serve_of_looks [DecidableEq κ] {op : FsOp κ} (h : op.looks) (fs : FileSystem κ) :
    (op.serve fs).2 = fs := by
  cases op <;> first | rfl | cases h

end FsOp

end KindleBridge
