import KindleBridge.Bundle.Paths

/-! # The builder of a bundle

An entry is added behind its missing parents. A call that is refused leaves the entries as
they were, except that a path which is added twice has the later entry.
-/

namespace KindleBridge.Bundle

open Schema (splitPath)
open List Op Option

inductive InputEntry
  | directory
  | regular (bytes : List UInt8) (executable : Bool)
  | symlink (target : String)
deriving DecidableEq, Repr

/--
The entries added so far, by the components of their paths: a valid path is its components,
joined with slashes. No configuration is read before the build.
-/
structure BundleBuilder where
  entries : List String → Option InputEntry

namespace BundleBuilder

def new : BundleBuilder := ⟨fun _ => none⟩

def set (b : BundleBuilder) (path : List String) (entry : InputEntry) : BundleBuilder :=
  ⟨Function.update b.entries path (some entry)⟩

/-- The values of `parent` in the loop over the components. -/
def parents (path : List String) : List (List String) := path.dropLast.inits.tail

def ensureParent (parent : List String) : Op BundleBuilder Error Unit := do
  match (← get).entries parent with
  | some .directory => pure ()
  | some _ => fail ⟨.path, "a parent path is already a non-directory entry"⟩
  | none => modify (·.set parent .directory)

def ensureAll : List (List String) → Op BundleBuilder Error Unit
  | [] => pure ()
  | parent :: rest => do
    ensureParent parent
    ensureAll rest

def ensureParents (path : String) : Op BundleBuilder Error Unit :=
  ensureAll (parents (splitPath path))

def insert (path : String) (entry : InputEntry) : Op BundleBuilder Error Unit := do
  let before ← get
  modify (·.set (splitPath path) entry)
  if (before.entries (splitPath path)).isSome then
    fail ⟨.path, s!"duplicate builder path {path}"⟩
  else pure ()

variable (nfc : String → String)

/-- A call checks its arguments, adds the missing parents and inserts the entry. -/
def add (check : Except Error Unit) (path : String) (entry : InputEntry) :
    Op BundleBuilder Error Unit := do
  ofExcept check
  ensureParents path
  insert path entry

def addDirectory (path : String) : Op BundleBuilder Error Unit :=
  add (validateBundlePath nfc path) path .directory

def addFile (path : String) (bytes : List UInt8) (executable : Bool) :
    Op BundleBuilder Error Unit :=
  add (validateBundlePath nfc path) path (.regular bytes executable)

def addSymlink (path target : String) : Op BundleBuilder Error Unit :=
  add (do validateBundlePath nfc path; validateSymlinkTarget nfc target) path (.symlink target)

end BundleBuilder

inductive BuilderCall
  | addDirectory (path : String)
  | addFile (path : String) (bytes : List UInt8) (executable : Bool)
  | addSymlink (path target : String)
deriving DecidableEq, Repr

namespace BuilderCall
variable (nfc : String → String)

def run : BuilderCall → Op BundleBuilder Error Unit
  | .addDirectory path => BundleBuilder.addDirectory nfc path
  | .addFile path bytes executable => BundleBuilder.addFile nfc path bytes executable
  | .addSymlink path target => BundleBuilder.addSymlink nfc path target

def path : BuilderCall → String
  | .addDirectory path | .addFile path _ _ | .addSymlink path _ => path

def entry : BuilderCall → InputEntry
  | .addDirectory _ => .directory
  | .addFile _ bytes executable => .regular bytes executable
  | .addSymlink _ target => .symlink target

def check : BuilderCall → Except Error Unit
  | .addDirectory path | .addFile path _ _ => validateBundlePath nfc path
  | .addSymlink path target => do validateBundlePath nfc path; validateSymlinkTarget nfc target

theorem run_eq (call : BuilderCall) :
    call.run nfc = BundleBuilder.add (call.check nfc) call.path call.entry := by
  cases call <;> rfl

end BuilderCall

namespace BundleBuilder

variable {b b' : BundleBuilder} {p q path : List String} {ps : List (List String)}

/-! ## The parents of a path -/

theorem pairwise_inits {α : Type} (l : List α) : l.inits.Pairwise fun p q => p <+: q ∧ p ≠ q := by
  induction l with
  | nil => simp
  | cons a l ih => simpa [pairwise_map, prefix_cons_inj] using ih

theorem mem_parents : p ∈ parents path ↔ p ≠ [] ∧ p <+: path.dropLast := by
  have hinits : path.dropLast.inits = [] :: parents path := by
    cases hpath : path.dropLast <;> simp [parents, hpath]
  have hpairs := hinits ▸ pairwise_inits path.dropLast
  rw [← mem_inits, hinits, mem_cons]
  constructor
  · intro hp
    exact ⟨((pairwise_cons.mp hpairs).1 p hp).2.symm, .inr hp⟩
  · rintro ⟨hne, hp⟩
    exact hp.resolve_left hne

theorem prefix_iff (hpath : path ≠ []) (hp : p ≠ []) : p <+: path ↔ p = path ∨ p ∈ parents path := by
  have hconcat : p <+: path.dropLast ++ [path.getLast hpath] ↔ _ := prefix_concat_iff
  rw [dropLast_append_getLast] at hconcat
  simp [hconcat, mem_parents, hp]

theorem notMem_parents (hpath : path ≠ []) : path ∉ parents path := by
  intro hmem
  have hlength := (mem_parents.mp hmem).2.length_le
  have hpos := length_pos_of_ne_nil hpath
  rw [length_dropLast] at hlength
  omega

/-! ## The loop over the parents -/

@[simp] theorem set_entries (b : BundleBuilder) (path : List String) (entry : InputEntry)
    (x : List String) :
    (b.set path entry).entries x = if x = path then some entry else b.entries x :=
  Function.update_apply ..

theorem set_eq_self {entry : InputEntry} (h : b.entries path = some entry) :
    b.set path entry = b := congrArg mk (Function.update_eq_self_iff.mpr h.symm)

def Closed (b : BundleBuilder) : Prop :=
  ∀ p path, (b.entries path).isSome → p <+: path → p ≠ [] → (b.entries p).isSome

/-- All these paths are directories now, and nothing else has been touched. -/
structure Ensured (ps : List (List String)) (b b' : BundleBuilder) : Prop where
  after : ∀ p ∈ ps, b'.entries p = some .directory
  before : ∀ p ∈ ps, (b.entries p).isSome → b.entries p = some .directory
  other : ∀ x, x ∉ ps → b'.entries x = b.entries x

theorem ensureAll_cases
    (hps : ps.Pairwise fun p q => ((b.entries q).isSome → (b.entries p).isSome) ∧ p ≠ q) :
    (∃ error, (ensureAll ps).run b = (.error error, b) ∧
      ∃ p ∈ ps, (b.entries p).isSome ∧ b.entries p ≠ some .directory) ∨
    ∃ b', (ensureAll ps).run b = (.ok (), b') ∧ Ensured ps b b' := by
  induction ps generalizing b with
  | nil => exact .inr ⟨b, rfl, nofun, nofun, fun _ _ => rfl⟩
  | cons p rest ih =>
    obtain ⟨hp, hrest⟩ := pairwise_cons.mp hps
    have hsame : ∀ q ∈ rest, (b.set p .directory).entries q = b.entries q := fun q hq => by
      rw [set_entries, if_neg (hp q hq).2.symm]
    have hrest' := ih (b := b.set p .directory)
      (hrest.imp_of_mem fun {q r} hq hr h => by rwa [hsame q hq, hsame r hr])
    rw [ensureAll]
    by_cases hstays : (b.entries p).isSome ∧ b.entries p ≠ some .directory
    · have hstep : ∃ error, (ensureParent p).run b = (.error error, b) := by
        rcases hentry : b.entries p with _ | (_ | _ | _) <;> simp_all [ensureParent]
      obtain ⟨error, hstep⟩ := hstep
      exact .inl ⟨error, run_bind_of_error hstep, p, mem_cons_self, hstays⟩
    · have hfree : b.entries p = none ∨ b.entries p = some .directory := by
        simpa [isSome_iff_ne_none, or_iff_not_imp_left] using hstays
      have hstep : (ensureParent p).run b = (.ok (), b.set p .directory) := by
        rcases hfree with hnone | hdirectory
        · simp [ensureParent, hnone]
        · simp [ensureParent, hdirectory, set_eq_self hdirectory]
      rw [run_bind_of_ok hstep]
      rcases hrest' with ⟨error, herror, q, hq, hsome, hne⟩ | ⟨b', hok, h⟩
      · -- A later parent that is there has this one above it, so that this one is not new.
        rw [hsame q hq] at hsome hne
        have hdirectory := hfree.resolve_left (isSome_iff_ne_none.mp ((hp q hq).1 hsome))
        rw [set_eq_self hdirectory] at herror ⊢
        exact .inl ⟨error, herror, q, mem_cons_of_mem _ hq, hsome, hne⟩
      · have hp' : p ∉ rest := fun hmem => (hp p hmem).2 rfl
        refine .inr ⟨b', hok, forall_mem_cons.mpr ⟨?_, h.after⟩,
          forall_mem_cons.mpr ⟨?_, fun q hq => hsame q hq ▸ h.before q hq⟩, fun x hx => ?_⟩
        · rw [h.other p hp', set_entries, if_pos rfl]
        · exact fun hsome => hfree.resolve_left (isSome_iff_ne_none.mp hsome)
        · rw [mem_cons, not_or] at hx
          rw [h.other x hx.2, set_entries, if_neg hx.1]

/-! ## One call -/

theorem run_insert (path : String) (entry : InputEntry) (b : BundleBuilder) :
    (insert path entry).run b = (if (b.entries (splitPath path)).isSome then
      .error ⟨.path, s!"duplicate builder path {path}"⟩ else .ok (),
      b.set (splitPath path) entry) := by
  simp only [insert, run_get_bind, run_modify_bind, run_ite]
  split <;> rfl

variable (nfc : String → String)

theorem run_cases (hclosed : Closed b) (call : BuilderCall) :
    (∃ error, (call.run nfc).run b = (.error error, b) ∧ (call.check nfc = .ok () →
      ∃ p ∈ parents (splitPath call.path), b.entries p ≠ some .directory)) ∨
    call.check nfc = .ok () ∧ ∃ b₁, Ensured (parents (splitPath call.path)) b b₁ ∧
      (call.run nfc).run b = (insert call.path call.entry).run b₁ := by
  rw [BuilderCall.run_eq, add, run_ofExcept_bind]
  cases call.check nfc with
  | error error => exact .inl ⟨error, rfl, nofun⟩
  | ok _ =>
    have hpairs : (parents (splitPath call.path)).Pairwise fun p q =>
        ((b.entries q).isSome → (b.entries p).isSome) ∧ p ≠ q := by
      refine (pairwise_inits _).tail.imp_of_mem fun {p q} hp _ h => ⟨fun hq => ?_, h.2⟩
      exact hclosed p q hq h.1 (mem_parents.mp hp).1
    rcases ensureAll_cases hpairs with ⟨error, herror, p, hp, -, hne⟩ | ⟨b₁, hok, hensured⟩
    · exact .inl ⟨error, run_bind_of_error herror, fun _ => ⟨p, hp, hne⟩⟩
    · exact .inr ⟨rfl, b₁, hensured, run_bind_of_ok hok⟩

theorem closed_run (hclosed : Closed b) (call : BuilderCall) : Closed ((call.run nfc).run b).2 := by
  rcases run_cases nfc hclosed call with ⟨error, hsame, -⟩ | ⟨-, b₁, hensured, hinsert⟩
  · rw [hsame]
    exact hclosed
  · have hpresent : ∀ x, ((b₁.set (splitPath call.path) call.entry).entries x).isSome ↔
        (x = splitPath call.path ∨ x ∈ parents (splitPath call.path)) ∨ (b.entries x).isSome := by
      intro x
      rw [set_entries]
      by_cases hx : x ∈ parents (splitPath call.path)
      · by_cases hpath : x = splitPath call.path <;> simp [hx, hpath, hensured.after x hx]
      · by_cases hpath : x = splitPath call.path <;> simp [hx, hpath, hensured.other x hx]
    rw [hinsert, run_insert]
    intro p x hx hp hne
    rw [hpresent] at hx ⊢
    have hroot : splitPath call.path ≠ [] := by simp [splitPath]
    rcases hx with hx | hx
    · left
      rw [← prefix_iff hroot hne]
      refine hp.trans ?_
      rcases hx with rfl | hx
      · exact prefix_refl _
      · exact (mem_parents.mp hx).2.trans ( dropLast_prefix _)
    · exact .inr (hclosed p x hx hp hne)

theorem Ensured.eq (h : Ensured ps b b') (hpresent : ∀ p ∈ ps, (b.entries p).isSome) : b' = b := by
  suffices hentries : b'.entries = b.entries from congrArg BundleBuilder.mk hentries
  funext x
  by_cases hx : x ∈ ps
  · rw [h.after x hx, h.before x hx (hpresent x hx)]
  · exact h.other x hx

/-- The call names an entry that is there, with something else. -/
def Overwrites (b : BundleBuilder) (call : BuilderCall) : Prop :=
  call.check nfc = .ok () ∧
    (∀ p ∈ parents (splitPath call.path), b.entries p = some .directory) ∧
    ∃ old, b.entries (splitPath call.path) = some old ∧ old ≠ call.entry

/-- A refused call leaves the builder as it was unless it overwrites an entry. -/
theorem refused_call_unchanged_iff (calls : List BuilderCall) (call : BuilderCall) :
    let b := calls.foldl (fun b call => ((call.run nfc).run b).2) new
    ((∃ error, ((call.run nfc).run b).1 = .error error) → ((call.run nfc).run b).2 = b) ↔
      ¬ Overwrites nfc b call := by
  intro b
  have hclosed : Closed b := foldlRecOn calls _ (motive := Closed) (by simp [Closed, new])
    fun b hclosed call _ => closed_run nfc hclosed call
  have hroot : splitPath call.path ≠ [] := by simp [splitPath]
  rcases run_cases nfc hclosed call with ⟨error, hsame, hstays⟩ | ⟨hcheck, b₁, hensured, hinsert⟩
  · refine iff_of_true (fun _ => by rw [hsame]) ?_
    rintro ⟨hcheck, hdirectories, -⟩
    obtain ⟨p, hp, hne⟩ := hstays hcheck
    exact hne (hdirectories p hp)
  · rw [hinsert, run_insert, hensured.other _ (notMem_parents hroot)]
    cases hold : b.entries (splitPath call.path) with
    | none => simp [Overwrites, hold]
    | some old =>
      obtain rfl : b₁ = b := hensured.eq fun p hp => hclosed p _ (by rw [hold]; rfl)
        ((prefix_iff hroot (mem_parents.mp hp).1).mpr (.inr hp)) (mem_parents.mp hp).1
      constructor
      · rintro h ⟨-, -, old', hold', hne⟩
        have hset := congrArg (·.entries (splitPath call.path)) (h ⟨_, rfl⟩)
        simp only [set_entries, if_pos, hold'] at hset
        exact hne (some.inj hset).symm
      · intro h _
        by_contra hne
        refine h ⟨hcheck, hensured.after, old, hold, ?_⟩
        rintro rfl
        exact hne (set_eq_self hold)

/-- The second file is refused and takes the place of the first. -/
theorem duplicate_file_replaces :
    let first := ((BuilderCall.addFile "a" [1] false).run id).run new
    let second := ((BuilderCall.addFile "a" [2] false).run id).run first.2
    first.2.entries ["a"] = some (.regular [1] false) ∧
      second.1 = .error ⟨.path, "duplicate builder path a"⟩ ∧
      second.2.entries ["a"] = some (.regular [2] false) := by
  decide +kernel

end BundleBuilder

end KindleBridge.Bundle
