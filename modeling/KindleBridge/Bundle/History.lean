import KindleBridge.Bundle.Activation
import Mathlib.Logic.Equiv.List

/-! # Application rollback is a stack

The generations form one line of history that all applications share. For each application
the generations that its rollback would visit carry a stack of versions: an installation
pushes, a rollback pops, and everything else leaves the stack as it is.
-/

namespace KindleBridge.Bundle

open ActivationStore List Option Nat Function

/-! ## Stacks -/

section
variable {α : Type*} [DecidableEq α]

/-- Put a version on top, unless it is there already. -/
def push (x : α) (stack : List α) : List α := if stack.head? = some x then stack else x :: stack

theorem head?_push (x : α) (stack : List α) : (push x stack).head? = some x := by
  rw [push]
  split_ifs with h
  · exact h
  · rfl

theorem push_of_head {x : α} {stack : List α} (h : stack.head? = some x) :
    push x stack = stack := if_pos h

theorem foldr_push_same {x : α} {same stack : List α} (h : ∀ y ∈ same, y = x)
    (hhead : stack.head? ≠ some x) (hne : same ≠ []) : same.foldr push stack = x :: stack := by
  induction same with
  | nil => exact absurd rfl hne
  | cons y same ih =>
    obtain ⟨rfl, hsame⟩ := forall_mem_cons.mp h
    rw [foldr_cons]
    by_cases hnil : same = []
    · rw [hnil, foldr_nil, push, if_neg hhead]
    · rw [ih hsame hnil]
      exact push_of_head rfl

end

/-- The versions of an application, the newest on top, and whether one is installed. -/
structure AppStack where
  versions : List ActivationEntry
  installed : Bool

/-- What the changes of the applications are for. -/
def AppOp.onStacks (op : AppOp) (held : String → AppStack) : String → AppStack :=
  match op with
  | .install bundle =>
    Function.update held bundle.id ⟨push bundle.entry (held bundle.id).versions, true⟩
  | .rollback appId => Function.update held appId ⟨(held appId).versions.tail, true⟩
  | .uninstall appId => Function.update held appId ⟨(held appId).versions, false⟩

/-! ## Entries of one application -/

section
variable {entries entries' : List ActivationEntry} {appId other : String}
  {e : ActivationEntry}

def Unique (entries : List ActivationEntry) : Prop :=
  ∀ appId, (entries.filter (IsApp appId ·)).length ≤ 1

/-- The entry names nothing beyond the bundle. -/
def Bare (e : ActivationEntry) : Prop := e.dataGeneration = none ∧ e.dependencyRoots = []

theorem mem_of_appEntry (h : appEntry entries appId = some e) : e ∈ entries ∧ IsApp appId e :=
  ⟨List.mem_of_find?_eq_some h, by simpa using List.find?_some h⟩

theorem Unique.filter_cases (h : Unique entries) (appId : String) :
    entries.filter (IsApp appId ·) = [] ∨ ∃ e, entries.filter (IsApp appId ·) = [e] :=
  (le_one_iff_eq_zero_or_eq_one.mp (h appId)).imp length_eq_zero_iff.mp length_eq_one_iff.mp

theorem find?_other (h : Unique entries) (current : ActivationEntry) :
    (entries.find? fun e => IsApp appId e ∧ e ≠ current) =
      (appEntry entries appId).filter (· ≠ current) := by
  have hfilter : (entries.filter fun e => IsApp appId e ∧ e ≠ current) =
      (entries.filter (IsApp appId ·)).filter (· ≠ current) := by
    rw [List.filter_filter]
    apply filter_congr
    intro e _
    simp [and_comm]
  rw [appEntry, ← List.head?_filter, ← List.head?_filter, hfilter]
  rcases h.filter_cases appId with hnil | ⟨x, hone⟩
  · rw [hnil]
    rfl
  · rw [hone]
    by_cases hx : x = current <;> simp [hx, Option.filter]

theorem appEntry_eq (entries : List ActivationEntry) (appId : String) :
    appEntry entries appId = (entries.filter (IsApp appId ·)).head? := by
  rw [appEntry, List.head?_filter]

theorem sortEntries_perm (entries : List ActivationEntry) : (sortEntries entries).Perm entries :=
  perm_insertionSort _ _

theorem filter_sortEntries (h : Unique entries) (appId : String) :
    (sortEntries entries).filter (IsApp appId ·) = entries.filter (IsApp appId ·) := by
  have hperm := (sortEntries_perm entries).filter (IsApp appId ·)
  rcases h.filter_cases appId with hnil | ⟨x, hone⟩
  · rw [hnil] at hperm ⊢
    exact hperm.eq_nil
  · rw [hone] at hperm ⊢
    exact perm_singleton.mp hperm

theorem appEntry_sortEntries (h : Unique entries) (appId : String) :
    appEntry (sortEntries entries) appId = appEntry entries appId := by
  rw [appEntry_eq, appEntry_eq, filter_sortEntries h]

theorem IsApp.eq (h : IsApp appId e) (h' : IsApp other e) : appId = other := h.2.symm.trans h'.2

theorem filter_without (entries : List ActivationEntry) (appId other : String) :
    (entries.filter (¬ IsApp appId ·)).filter (IsApp other ·) =
      if other = appId then [] else entries.filter (IsApp other ·) := by
  rw [List.filter_filter]
  split_ifs with h
  · subst h
    simp
  · apply filter_congr
    intro e _
    by_cases he : IsApp other e
    · have hne : ¬ IsApp appId e := fun h' => h (he.eq h')
      simp [he, hne]
    · simp [he]

theorem filter_replaceApp {replacement : ActivationEntry} (hr : IsApp appId replacement)
    (h : (entries.filter (IsApp appId ·)).length = 1) (other : String) :
    (replaceApp appId replacement entries).filter (IsApp other ·) =
      if other = appId then [replacement] else entries.filter (IsApp other ·) := by
  induction entries with
  | nil => simp at h
  | cons e entries ih =>
    rw [replaceApp]
    by_cases he : IsApp appId e
    · rw [if_pos he]
      rw [filter_cons_of_pos (by simpa using he), length_cons] at h
      have hnone : entries.filter (IsApp appId ·) = [] := by
        apply eq_nil_of_length_eq_zero
        omega
      split_ifs with hother
      · subst hother
        rw [filter_cons_of_pos (by simpa using hr), hnone]
      · have hne : ∀ {x}, IsApp appId x → ¬ IsApp other x := fun hx hx' => hother (hx'.eq hx)
        rw [filter_cons_of_neg (by simpa using hne hr), filter_cons_of_neg (by simpa using hne he)]
    · rw [if_neg he]
      rw [filter_cons_of_neg (by simpa using he)] at h
      have hrest := ih h
      by_cases hother : IsApp other e
      · have hne : other ≠ appId := fun heq => he (heq ▸ hother)
        rw [if_neg hne] at hrest ⊢
        rw [filter_cons_of_pos (by simpa using hother), hrest,
          filter_cons_of_pos (by simpa using hother)]
      · rw [filter_cons_of_neg (by simpa using hother), hrest,
          filter_cons_of_neg (by simpa using hother)]

end

/-! ## The line of history -/

variable {summary : AppSummary} {op : AppOp} {ops : List AppOp}

section
variable {γ : Type} {identify : GenerationIdentity γ → γ}
  {gens rest : List (ActivationGeneration γ)} {g : ActivationGeneration γ}

def ids (gens : List (ActivationGeneration γ)) : List γ := gens.map (·.generationId)

/-- Each generation follows the one below it, and its rollback leads further down. -/
def Line (identify : GenerationIdentity γ → γ) : List (ActivationGeneration γ) → Prop
  | [] => True
  | g :: rest =>
    (g.generationId = identify g.toGenerationIdentity ∧
      g.previousGeneration = (ids rest).head? ∧ (Unique g.entries ∧ ∀ e ∈ g.entries, Bare e) ∧
      ∀ appId next, g.action = some (.rollback appId (some next)) → next ∈ ids rest) ∧
    Line identify rest

theorem previous_of_mem (h : Line identify gens) (hg : g ∈ gens) :
    g.previousGeneration = none ∨ ∃ id ∈ (ids gens).tail, g.previousGeneration = some id := by
  induction gens with
  | nil => cases hg
  | cons f gens ih =>
    rcases mem_cons.mp hg with rfl | hg
    · rw [h.1.2.1]
      cases gens with
      | nil => exact .inl rfl
      | cons f' gens => exact .inr ⟨f'.generationId, by simp [ids], rfl⟩
    · refine (ih h.2 hg).imp_right fun ⟨id, hid, heq⟩ => ⟨id, ?_, heq⟩
      exact mem_of_mem_tail hid

theorem Line.nodup (hinj : Function.Injective identify) (h : Line identify gens) :
    (ids gens).Nodup := by
  induction gens with
  | nil => simp [ids]
  | cons g rest ih =>
    have hrest := ih h.2
    refine nodup_cons.mpr ⟨?_, hrest⟩
    intro hmem
    obtain ⟨f, hf, hid⟩ := mem_map.mp hmem
    -- The one below has the same contents, so it follows the newest one below both.
    have hsame : f.previousGeneration = g.previousGeneration := by
      have hidentity : ∀ {gens : List (ActivationGeneration γ)}, Line identify gens →
          ∀ f ∈ gens, f.generationId = identify f.toGenerationIdentity := by
        intro gens hline
        induction gens with
        | nil => simp
        | cons f gens ih => exact forall_mem_cons.mpr ⟨hline.1.1, ih hline.2⟩
      rw [hidentity h.2 f hf] at hid
      exact congrArg GenerationIdentity.previousGeneration (hinj (hid.trans h.1.1))
    rw [h.1.2.1] at hsame
    obtain ⟨f', rest', rfl⟩ := exists_cons_of_ne_nil (ne_nil_of_mem hf)
    rcases previous_of_mem h.2 hf with hnone | ⟨id, hmem, hsome⟩
    · rw [hnone] at hsame
      cases hsame
    · rw [hsome] at hsame
      have heq : id = f'.generationId := some.inj hsame
      rw [heq] at hmem
      exact (nodup_cons.mp hrest).1 hmem

/-- A pointer into some generations, or to nothing. -/
def Into (target : Option γ) (gens : List (ActivationGeneration γ)) : Prop :=
  ∀ id ∈ target, id ∈ ids gens

theorem Line.predecessor_into (h : Line identify (g :: rest)) (appId : String) :
    Into (historyPredecessor g appId) rest := by
  have hprevious : Into g.previousGeneration rest := by
    intro id hid
    rw [h.1.2.1] at hid
    exact List.mem_of_mem_head? hid
  rw [historyPredecessor]
  split
  next rolledBack next haction =>
    split_ifs
    · intro id hid
      rw [mem_def] at hid
      rw [hid] at haction
      exact h.1.2.2.2 _ _ haction
    · exact hprevious
  next => exact hprevious

theorem into_tail {id : γ} (h : Into (some id) (g :: rest)) (hne : g.generationId ≠ id) :
    Into (some id) rest := by
  rintro _ ⟨⟩
  exact (mem_cons.mp (h id rfl)).resolve_left (Ne.symm hne)

variable [DecidableEq γ] {target : Option γ} {found : Option (RollbackCandidate γ)}
  {store : ActivationStore γ} {appId : String}

/-- The entries of an application that a walk over the history meets, the newest first. -/
def trail (appId : String) : Option γ → List (ActivationGeneration γ) → List ActivationEntry
  | none, _ | some _, [] => []
  | some id, g :: rest =>
    if g.generationId = id then
      (appEntry g.entries appId).toList ++ trail appId (historyPredecessor g appId) rest
    else trail appId (some id) rest

/-- The walk of `find_rollback_entry` along the line. -/
def findAlong (current : ActivationEntry) :
    Option γ → List (ActivationGeneration γ) → Option (RollbackCandidate γ)
  | none, _ | some _, [] => none
  | some id, g :: rest =>
    if g.generationId = id then
      match g.entries.find? fun e => IsApp current.id e ∧ e ≠ current with
      | some candidate => some ⟨candidate, historyPredecessor g current.id⟩
      | none => findAlong current (historyPredecessor g current.id) rest
    else findAlong current (some id) rest

theorem trail_none (appId : String) : trail appId none gens = [] := by cases gens <;> rfl

theorem trail_cons_of_into (hn : (ids (g :: rest)).Nodup)
    (h : Into target rest) : trail appId target (g :: rest) = trail appId target rest := by
  cases target with
  | none => rw [trail_none, trail_none]
  | some id =>
    have hne : g.generationId ≠ id := by
      rintro rfl
      exact (nodup_cons.mp hn).1 (h _ rfl)
    rw [trail, if_neg hne]

theorem loadGeneration_eq (before : List (ActivationGeneration γ))
    (hall : store.generations = before ++ g :: rest) (hn : (ids store.generations).Nodup) :
    store.loadGeneration g.generationId = .ok g := by
  have hbefore : before.find? (·.generationId = g.generationId) = none := by
    rw [List.find?_eq_none]
    intro f hf heq
    rw [hall, ids, map_append, map_cons] at hn
    exact (nodup_append.mp hn).2.2 _ (mem_map_of_mem hf) _ mem_cons_self (of_decide_eq_true heq)
  rw [loadGeneration, hall, List.find?_append, hbefore]
  simp

/-- The loop of the source walks along the line: no cycle, no missing generation. -/
theorem findLoop_eq {current : ActivationEntry} {iterations : ℕ}
    {visited : List γ} (before : List (ActivationGeneration γ))
    (hall : store.generations = before ++ gens) (hn : (ids store.generations).Nodup)
    (hline : Line identify gens) (htarget : Into target gens)
    (hvisited : ∀ id ∈ visited, id ∈ ids before) (hlen : gens.length < iterations) :
    store.findLoop current iterations visited target = .ok (findAlong current target gens) := by
  induction gens generalizing before iterations visited target with
  | nil =>
    obtain ⟨iterations, rfl⟩ := exists_eq_succ_of_ne_zero (ne_zero_of_lt hlen)
    cases target with
    | none => rfl
    | some id => exact absurd (htarget id rfl) (by simp [ids])
  | cons g rest ih =>
    have hall' : store.generations = (before ++ [g]) ++ rest := by simpa using hall
    cases target with
    | none =>
      obtain ⟨iterations, rfl⟩ := exists_eq_succ_of_ne_zero (ne_zero_of_lt hlen)
      rfl
    | some id =>
      by_cases hid : g.generationId = id
      · subst hid
        obtain ⟨iterations, rfl⟩ := exists_eq_succ_of_ne_zero (ne_zero_of_lt hlen)
        have hnew : g.generationId ∉ visited := by
          intro hmem
          have hdup := hn
          rw [hall, ids, map_append] at hdup
          exact (nodup_append.mp hdup).2.2 _ (hvisited _ hmem) _ (by simp) rfl
        rw [findLoop, if_neg hnew, loadGeneration_eq before hall hn, findAlong, if_pos rfl]
        simp only [bind, Except.bind]
        cases hfind : g.entries.find? fun e => IsApp current.id e ∧ e ≠ current with
        | some candidate => rfl
        | none =>
          refine ih (before ++ [g]) hall' hline.2 (hline.predecessor_into current.id) ?_
            (by simpa using hlen)
          intro id hmem
          rw [ids, map_append]
          rcases mem_cons.mp hmem with rfl | hmem
          · simp
          · exact mem_append_left _ (hvisited id hmem)
      · rw [findAlong, if_neg hid]
        refine ih (before ++ [g]) hall' hline.2 (into_tail htarget hid) ?_ (lt_of_succ_lt hlen)
        intro id hmem
        rw [ids, map_append]
        exact mem_append_left _ (hvisited id hmem)

/-- What the walk finds is the first other version on the trail. -/
def Found (current : ActivationEntry) (target : Option γ) (gens : List (ActivationGeneration γ)) :
    Option (RollbackCandidate γ) → Prop
  | none => ∀ e ∈ trail current.id target gens, e = current
  | some candidate => candidate.entry ≠ current ∧ IsApp current.id candidate.entry ∧
      Bare candidate.entry ∧ Into candidate.nextGeneration gens ∧
      ∃ same, (∀ e ∈ same, e = current) ∧ trail current.id target gens =
        same ++ candidate.entry :: trail current.id candidate.nextGeneration gens

theorem Found.cons {current : ActivationEntry} (hn : (ids (g :: rest)).Nodup)
    (ht : Into target rest) (h : Found current target rest found) :
    Found current target (g :: rest) found := by
  cases found with
  | none =>
    rw [Found, trail_cons_of_into hn ht]
    exact h
  | some candidate =>
    obtain ⟨hne, happ, hbare, hinto, same, hsame, htrail⟩ := h
    refine ⟨hne, happ, hbare, fun id hid => mem_cons_of_mem _ (hinto id hid), same, hsame, ?_⟩
    rw [trail_cons_of_into hn ht, trail_cons_of_into hn hinto, htrail]

theorem Found.of_trail {current : ActivationEntry} {target' : Option γ}
    {same : List ActivationEntry} (hsame : ∀ e ∈ same, e = current)
    (htrail : trail current.id target' gens = same ++ trail current.id target gens)
    (h : Found current target gens found) : Found current target' gens found := by
  cases found with
  | none =>
    rw [Found, htrail]
    exact forall_mem_append.mpr ⟨hsame, h⟩
  | some candidate =>
    obtain ⟨hne, happ, hbare, hinto, same', hsame', heq⟩ := h
    refine ⟨hne, happ, hbare, hinto, same ++ same', forall_mem_append.mpr ⟨hsame, hsame'⟩, ?_⟩
    rw [htrail, heq, append_assoc]

theorem findAlong_found {current : ActivationEntry}
    (hline : Line identify gens) (hn : (ids gens).Nodup) (ht : Into target gens) :
    Found current target gens (findAlong current target gens) := by
  induction gens generalizing target with
  | nil =>
    cases target with
    | none => exact fun e he => by simp [trail] at he
    | some id => exact absurd (ht id rfl) (by simp [ids])
  | cons g rest ih =>
    have hn' := (nodup_cons.mp hn).2
    cases target with
    | none => exact fun e he => by simp [trail] at he
    | some id =>
      by_cases hid : g.generationId = id
      · have hpred := hline.predecessor_into current.id
        have hnext := ih hline.2 hn' hpred
        have htrail : trail current.id (some id) (g :: rest) =
            (appEntry g.entries current.id).toList ++
              trail current.id (historyPredecessor g current.id) (g :: rest) := by
          rw [trail, if_pos hid, trail_cons_of_into hn hpred]
        rw [findAlong, if_pos hid, find?_other hline.1.2.2.1.1]
        have hfound h := (hnext.cons hn hpred).of_trail h htrail
        cases hentry : appEntry g.entries current.id with
        | none => exact hfound (by simp [hentry])
        | some e =>
          obtain ⟨hmem, happ⟩ := mem_of_appEntry hentry
          by_cases hcurrent : e = current
          · simp only [filter_some, hcurrent, ne_eq, not_true_eq_false, decide_false,
              Bool.false_eq_true, if_false]
            exact hfound (by simp [hentry, hcurrent])
          · simp only [filter_some, ne_eq, hcurrent, not_false_eq_true, decide_true, if_true]
            rw [hentry] at htrail
            refine ⟨hcurrent, happ, hline.1.2.2.1.2 e hmem, ?_, [], by simp, htrail⟩
            exact fun id hid => mem_cons_of_mem _ (hpred id hid)
      · have hinto := into_tail ht hid
        rw [findAlong, if_neg hid]
        exact (ih hline.2 hn' hinto).cons hn hinto

/-! ## The store -/

variable {store' : ActivationStore γ} {e : ActivationEntry}
  {identity : GenerationIdentity γ} {candidate : RollbackCandidate γ}
  {entries : List ActivationEntry} {stack : AppStack}

/-- The newest generation of a line is active. -/
def Sound (identify : GenerationIdentity γ → γ) (store : ActivationStore γ) : Prop :=
  Line identify store.generations ∧ store.active = (ids store.generations).head?

def current (store : ActivationStore γ) (appId : String) : Option ActivationEntry :=
  store.generations.head?.bind fun g => appEntry g.entries appId

/-- The versions of an application that the history keeps, the active one on top. -/
def versions (store : ActivationStore γ) (appId : String) : List ActivationEntry :=
  (trail appId store.active store.generations).foldr push []

/-- The stacks of the applications as the history holds them. -/
def stackOf (store : ActivationStore γ) : String → AppStack := fun appId =>
  ⟨versions store appId, (current store appId).isSome⟩

theorem trail_active (hs : Sound identify store) (hgens : store.generations = g :: rest) :
    trail appId store.active store.generations =
      (appEntry g.entries appId).toList ++ trail appId (historyPredecessor g appId) rest := by
  have hactive : store.active = some g.generationId := by rw [hs.2, hgens]; rfl
  rw [hactive, hgens, trail, if_pos rfl]

theorem head?_versions (hs : Sound identify store) (h : current store appId = some e) :
    (versions store appId).head? = some e := by
  cases hgens : store.generations with
  | nil => simp [current, hgens] at h
  | cons g rest =>
    have hentry : appEntry g.entries appId = some e := by simpa [current, hgens] using h
    rw [versions, trail_active hs hgens, hentry]
    exact head?_push _ _

section
omit [DecidableEq γ]

theorem Sound.commit (hs : Sound identify store)
    (hprevious : identity.previousGeneration = store.active) (hunique : Unique identity.entries)
    (hbare : ∀ e ∈ identity.entries, Bare e)
    (haction : ∀ appId next, identity.action = some (.rollback appId (some next)) →
      next ∈ ids store.generations) : Sound identify (store.commit identify identity) :=
  ⟨⟨⟨rfl, hprevious.trans hs.2, ⟨hunique, hbare⟩, haction⟩, hs.1⟩, rfl⟩

theorem current_commit (identity : GenerationIdentity γ) :
    current (store.commit identify identity) appId = appEntry identity.entries appId := rfl

theorem current_eq (hgens : store.generations = g :: rest) :
    current store appId = appEntry g.entries appId := by rw [current, hgens]; rfl

theorem exists_current (h : (current store appId).isSome) :
    ∃ g rest e, store.generations = g :: rest ∧ appEntry g.entries appId = some e := by
  cases hgens : store.generations with
  | nil => simp [current, hgens] at h
  | cons g rest =>
    rw [current_eq hgens] at h
    obtain ⟨e, he⟩ := isSome_iff_exists.mp h
    exact ⟨g, rest, e, rfl, he⟩

end

theorem versions_commit (identity : GenerationIdentity γ) :
    versions (store.commit identify identity) appId =
      (appEntry identity.entries appId).toList.foldr push
        ((trail appId (historyPredecessor ⟨identity, identify identity⟩ appId)
          store.generations).foldr push []) := by
  rw [versions, commit, trail, if_pos rfl, foldr_append]

theorem stackOf_commit_other (hs : Sound identify store)
    (hpred : historyPredecessor ⟨identity, identify identity⟩ appId = store.active)
    (hentry : appEntry identity.entries appId = current store appId) :
    stackOf (store.commit identify identity) appId = stackOf store appId := by
  have hversions : versions (store.commit identify identity) appId = versions store appId := by
    rw [versions_commit, hpred, hentry]
    cases hcurrent : current store appId with
    | none => rfl
    | some e => exact push_of_head (head?_versions hs hcurrent)
  rw [stackOf, stackOf, hversions, current_commit, hentry]

/-! ## One change -/

theorem filter_of_mem (hu : Unique entries) (he : e ∈ entries) (happ : IsApp appId e) :
    entries.filter (IsApp appId ·) = [e] := by
  have hmem : e ∈ entries.filter (IsApp appId ·) := mem_filter.mpr ⟨he, decide_eq_true happ⟩
  rcases hu.filter_cases appId with hnil | ⟨x, hone⟩
  · rw [hnil] at hmem
    cases hmem
  · rw [hone] at hmem ⊢
    rw [mem_singleton.mp hmem]

theorem Unique.change (now : Option ActivationEntry) (h : Unique entries)
    (hfilter : ∀ other, entries'.filter (IsApp other ·) =
      if other = appId then now.toList else entries.filter (IsApp other ·)) :
    Unique entries' := fun other => by
  rw [hfilter]
  split_ifs
  · cases now <;> simp
  · exact h other

theorem mem_replaceApp {replacement x : ActivationEntry}
    (h : x ∈ replaceApp appId replacement entries) : x = replacement ∨ x ∈ entries := by
  induction entries with
  | nil => cases h
  | cons y entries ih =>
    rw [replaceApp] at h
    split_ifs at h
    · rcases mem_cons.mp h with rfl | h
      · exact .inl rfl
      · exact .inr (mem_cons_of_mem _ h)
    · rcases mem_cons.mp h with rfl | h
      · exact .inr mem_cons_self
      · exact (ih h).imp_right (mem_cons_of_mem _)

theorem versions_of_found (hs : Sound identify store) (hgens : store.generations = g :: rest)
    (hentry : appEntry g.entries appId = some e)
    (h : Found e (historyPredecessor g e.id) rest found) :
    versions store appId = e :: (found.elim [] fun candidate => push candidate.entry
      ((trail appId candidate.nextGeneration rest).foldr push [])) := by
  obtain rfl : e.id = appId := (mem_of_appEntry hentry).2.2
  rw [versions, trail_active hs hgens, hentry, toList_some, singleton_append]
  cases found with
  | none =>
    exact foldr_push_same (forall_mem_cons.mpr ⟨rfl, h⟩) (by simp) (by simp)
  | some candidate =>
    obtain ⟨hne, -, -, -, same, hsame, htrail⟩ := h
    rw [htrail, ← cons_append, foldr_append]
    refine foldr_push_same (forall_mem_cons.mpr ⟨rfl, hsame⟩) ?_ (by simp)
    rw [foldr_cons, head?_push]
    simpa using hne

theorem onStacks_eq {held held' : String → AppStack}
    (hself : held' appId = stack) (hother : ∀ other, other ≠ appId → held' other = held other) :
    held' = Function.update held appId stack := by
  funext other
  by_cases h : other = appId
  · rw [h, update_self, hself]
  · rw [update_of_ne h, hother other h]

/-- A commit that gives one application a new entry, or none, and follows the active one. -/
theorem commit_step {before : List ActivationEntry} (now : Option ActivationEntry)
    (hs : Sound identify store) (hprevious : identity.previousGeneration = store.active)
    (hunique : Unique before) (hcurrent : ∀ other, appEntry before other = current store other)
    (hfilter : ∀ other, identity.entries.filter (IsApp other ·) =
      if other = appId then now.toList else before.filter (IsApp other ·))
    (hbare : ∀ e ∈ identity.entries, Bare e)
    (haction : ∀ id next, identity.action = some (.rollback id next) →
      id = appId ∧ Into next store.generations)
    (hstack : ⟨now.toList.foldr push ((trail appId (historyPredecessor
      ⟨identity, identify identity⟩ appId) store.generations).foldr push []), now.isSome⟩ = stack) :
    Sound identify (store.commit identify identity) ∧
      stackOf (store.commit identify identity) = Function.update (stackOf store) appId stack := by
  constructor
  · exact hs.commit hprevious (hunique.change now hfilter) hbare
      fun id next h => (haction id _ h).2 next rfl
  · refine onStacks_eq ?_ fun other hother => stackOf_commit_other hs ?_ (by
      rw [appEntry_eq, hfilter, if_neg hother, ← appEntry_eq, hcurrent])
    · have hself : appEntry identity.entries appId = now := by
        rw [appEntry_eq, hfilter, if_pos rfl]
        cases now <;> rfl
      rw [stackOf, current_commit, versions_commit, hself, hstack]
    · rw [historyPredecessor]
      cases haction' : identity.action with
      | none => exact hprevious
      | some action =>
        cases action with
        | rollback id next =>
          have hid := (haction id next haction').1
          rw [← hid] at hother
          exact (if_neg (Ne.symm hother)).trans hprevious

def rollbackIdentity (active : ActivationGeneration γ) (appId : String)
    (candidate : RollbackCandidate γ) : GenerationIdentity γ :=
  ⟨some active.generationId, active.profileId, active.profileDigest,
    sortEntries (replaceApp appId candidate.entry active.entries),
    some (.rollback appId candidate.nextGeneration)⟩

section Intact

variable (hinj : Function.Injective identify) (hs : Sound identify store)

include hinj hs

theorem activeGeneration_eq : store.activeGeneration = .ok store.generations.head? := by
  rw [activeGeneration, hs.2]
  cases hgens : store.generations with
  | nil => rfl
  | cons g rest =>
    have hload := loadGeneration_eq [] hgens (hs.1.nodup hinj)
    simp [ids, hload, bind, Except.bind, pure, Except.pure]

theorem currentEntry_eq {active : ActivationGeneration γ}
    (h : store.currentEntry appId = .ok (active, e)) :
    (∃ rest, store.generations = active :: rest) ∧ appEntry active.entries appId = some e := by
  rw [currentEntry, activeGeneration_eq hinj hs] at h
  simp only [bind, Except.bind] at h
  cases hgens : store.generations with
  | nil => simp [hgens, throw, throwThe, MonadExceptOf.throw] at h
  | cons g rest =>
    simp only [hgens, List.head?_cons] at h
    cases hentry : appEntry g.entries appId with
    | none => simp [hentry, throw, throwThe, MonadExceptOf.throw] at h
    | some e' =>
      simp only [hentry, pure, Except.pure, Except.ok.injEq, Prod.mk.injEq] at h
      obtain ⟨rfl, rfl⟩ := h
      exact ⟨⟨rest, rfl⟩, hentry⟩

theorem findRollbackEntry_eq (hlen : store.generations.length ≤ maxActivationHistory)
    (hgens : store.generations = g :: rest) (cur : ActivationEntry) :
    store.findRollbackEntry g cur = .ok (findAlong cur (historyPredecessor g cur.id) rest) := by
  have hline : Line identify (g :: rest) := hgens ▸ hs.1
  rw [findRollbackEntry]
  refine findLoop_eq [g] hgens (hs.1.nodup hinj) hline.2
    (hline.predecessor_into cur.id) (by simp) ?_
  rw [hgens, length_cons] at hlen
  exact hlen

theorem rollback_commit (hgens : store.generations = g :: rest)
    (hentry : appEntry g.entries appId = some e)
    (hfound : Found e (historyPredecessor g e.id) rest (some candidate)) :
    appEntry (rollbackIdentity g appId candidate).entries appId = some candidate.entry ∧
      Sound identify (store.commit identify (rollbackIdentity g appId candidate)) ∧
      stackOf (store.commit identify (rollbackIdentity g appId candidate)) =
        (AppOp.rollback appId).onStacks (stackOf store) := by
  have hline : Line identify (g :: rest) := hgens ▸ hs.1
  have hn : (ids (g :: rest)).Nodup := hline.nodup hinj
  obtain rfl : e.id = appId := (mem_of_appEntry hentry).2.2
  obtain ⟨hne, happ, hbare, hinto, -⟩ := id hfound
  have hunique := hline.1.2.2.1.1
  obtain ⟨hmem, hown⟩ := mem_of_appEntry hentry
  have hfilter := filter_replaceApp happ (by rw [filter_of_mem hunique hmem hown]; rfl)
  have hunique' := hunique.change (some candidate.entry) hfilter
  have hself : appEntry (rollbackIdentity g e.id candidate).entries e.id =
      some candidate.entry := by
    rw [rollbackIdentity, appEntry_sortEntries hunique', appEntry_eq, hfilter, if_pos rfl]
    rfl
  refine ⟨hself, commit_step (some candidate.entry) hs ?_ hunique
    (fun _ => (current_eq hgens).symm) ?_ ?_ ?_ ?_⟩
  · rw [hs.2, hgens]
    rfl
  · exact fun other => (filter_sortEntries hunique' other).trans (hfilter other)
  · intro x hx
    rcases mem_replaceApp ((sortEntries_perm _).mem_iff.mp hx) with rfl | hx
    · exact hbare
    · exact hline.1.2.2.1.2 x hx
  · rintro id next ⟨⟩
    exact ⟨rfl, hgens ▸ fun id hid => mem_cons_of_mem _ (hinto id hid)⟩
  · rw [stackOf, versions_of_found hs hgens hentry hfound]
    simp only [historyPredecessor, rollbackIdentity, if_true]
    rw [hgens, trail_cons_of_into hn hinto]
    rfl

theorem findAlong_active (hgens : store.generations = g :: rest) (cur : ActivationEntry) :
    Found cur (historyPredecessor g cur.id) rest
      (findAlong cur (historyPredecessor g cur.id) rest) := by
  have hline : Line identify (g :: rest) := hgens ▸ hs.1
  exact findAlong_found hline.2 (nodup_cons.mp (hline.nodup hinj)).2 (hline.predecessor_into cur.id)

theorem appRollback_step (hlen : store.generations.length ≤ maxActivationHistory)
    (h : store.appRollback identify appId = .ok (store', summary)) :
    Sound identify store' ∧ stackOf store' = (AppOp.rollback appId).onStacks (stackOf store) := by
  obtain ⟨⟨active, cur⟩, hpair, h⟩ := bind_eq_ok.mp h
  obtain ⟨⟨rest, hgens⟩, hentry⟩ := currentEntry_eq hinj hs hpair
  obtain ⟨found, hfind, h⟩ := bind_eq_ok.mp h
  have hfound := findAlong_active hinj hs hgens cur
  rw [findRollbackEntry_eq hinj hs hlen hgens cur] at hfind
  rw [Except.ok.inj hfind] at hfound
  cases found with
  | none => cases h
  | some candidate =>
    obtain ⟨_, -, h⟩ := bind_eq_ok.mp h
    cases h
    exact (rollback_commit hinj hs hgens hentry hfound).2

theorem appUninstall_step (h : store.appUninstall identify appId = .ok (store', summary)) :
    Sound identify store' ∧ stackOf store' = (AppOp.uninstall appId).onStacks (stackOf store) := by
  obtain ⟨⟨active, cur⟩, hpair, h⟩ := bind_eq_ok.mp h
  obtain ⟨⟨rest, hgens⟩, -⟩ := currentEntry_eq hinj hs hpair
  have hline : Line identify (active :: rest) := hgens ▸ hs.1
  cases h
  refine commit_step none hs ?_ hline.1.2.2.1.1 (fun _ => (current_eq hgens).symm)
    (filter_without active.entries appId) ?_ ?_ ?_
  · rw [hs.2, hgens]
    rfl
  · exact fun x hx => hline.1.2.2.1.2 x (mem_of_mem_filter hx)
  · rintro id next ⟨⟩
  · have hactive : some active.generationId = store.active := by rw [hs.2, hgens]; rfl
    simp only [historyPredecessor, hactive]
    rfl

theorem appInstall_step {bundle : AppBundle}
    (h : store.appInstall identify bundle = .ok (store', summary)) :
    Sound identify store' ∧ stackOf store' = (AppOp.install bundle).onStacks (stackOf store) := by
  obtain ⟨active, hactive, h⟩ := bind_eq_ok.mp h
  obtain rfl := Except.ok.inj ((activeGeneration_eq hinj hs).symm.trans hactive)
  split at h
  next g hactive =>
    -- The entry is the active one already: nothing changes.
    obtain ⟨_, -, h⟩ := bind_eq_ok.mp h
    cases h
    refine ⟨hs, ?_⟩
    obtain ⟨hhead, hany⟩ := filter_eq_some_iff.mp hactive
    obtain ⟨rest, hgens⟩ : ∃ rest, store.generations = g :: rest := by
      cases hgens : store.generations with
      | nil => simp [hgens] at hhead
      | cons f rest =>
        rw [hgens] at hhead
        exact ⟨rest, by rw [some.inj hhead]⟩
    have hline : Line identify (g :: rest) := hgens ▸ hs.1
    obtain ⟨e, he, hsame⟩ := any_eq_true.mp hany
    obtain ⟨hkind, hid, hchannel, hversion, hroot⟩ := of_decide_eq_true hsame
    obtain ⟨hdata, hdeps⟩ := hline.1.2.2.1.2 e he
    obtain rfl : e = bundle.entry := by
      cases e
      simp_all [AppBundle.entry]
    have hcurrent : current store bundle.id = some bundle.entry := by
      have happ : IsApp bundle.id bundle.entry := ⟨rfl, rfl⟩
      rw [current_eq hgens, appEntry_eq, filter_of_mem hline.1.2.2.1.1 he happ]
      rfl
    refine onStacks_eq ?_ fun _ _ => rfl
    rw [stackOf, hcurrent]
    simp only
    rw [push_of_head (head?_versions hs hcurrent)]
    rfl
  next =>
    obtain ⟨_, -, h⟩ := bind_eq_ok.mp h
    cases h
    set before := (store.generations.head?.map (·.entries)).getD [] with hbefore
    have hold : Unique before ∧ (∀ e ∈ before, Bare e) ∧
        ∀ other, appEntry before other = current store other := by
      cases hgens : store.generations with
      | nil => simp [hbefore, hgens, Unique, current, appEntry]
      | cons g rest =>
        have hline : Line identify (g :: rest) := hgens ▸ hs.1
        have heq : before = g.entries := by rw [hbefore, hgens]; rfl
        rw [heq]
        exact ⟨hline.1.2.2.1.1, hline.1.2.2.1.2, fun other => (current_eq hgens).symm⟩
    have happ : IsApp bundle.id bundle.entry := ⟨rfl, rfl⟩
    have hfilter : ∀ other, (before.filter (¬ IsApp bundle.id ·) ++ [bundle.entry]).filter
        (IsApp other ·) = if other = bundle.id then [bundle.entry]
          else before.filter (IsApp other ·) := by
      intro other
      rw [filter_append, filter_without]
      split_ifs with hother
      · subst hother
        simp [happ]
      · have hne : ¬ IsApp other bundle.entry := fun h' => hother (h'.eq happ)
        simp [hne]
    have hunique := hold.1.change (some bundle.entry) hfilter
    refine commit_step (some bundle.entry) hs rfl hold.1 hold.2.2
      (fun other => (filter_sortEntries hunique other).trans (hfilter other)) ?_ ?_ rfl
    · intro x hx
      rcases mem_append.mp ((sortEntries_perm _).mem_iff.mp hx) with hx | hx
      · exact hold.2.1 x (mem_of_mem_filter hx)
      · rw [mem_singleton.mp hx]
        exact ⟨rfl, rfl⟩
    · rintro id next ⟨⟩

theorem apply_step (hlen : store.generations.length ≤ maxActivationHistory)
    (h : store.apply identify op = .ok (store', summary)) :
    Sound identify store' ∧ stackOf store' = op.onStacks (stackOf store) := by
  cases op with
  | install bundle => exact appInstall_step hinj hs h
  | rollback appId => exact appRollback_step hinj hs hlen h
  | uninstall appId => exact appUninstall_step hinj hs h

theorem findRollbackEntry_isSome (hlen : store.generations.length ≤ maxActivationHistory)
    (hgens : store.generations = g :: rest) (hentry : appEntry g.entries appId = some e) :
    ∃ found, store.findRollbackEntry g e = .ok found ∧
      (found.isSome ↔ 2 ≤ (versions store appId).length) := by
  have hfound := findAlong_active hinj hs hgens e
  refine ⟨_, findRollbackEntry_eq hinj hs hlen hgens e, ?_⟩
  rw [versions_of_found hs hgens hentry hfound]
  cases hfind : findAlong e (historyPredecessor g e.id) rest with
  | none => simp
  | some candidate =>
    have hpos := length_pos_of_mem (List.mem_of_mem_head? (head?_push candidate.entry
      ((trail appId candidate.nextGeneration rest).foldr push [])))
    simp only [isSome_some, elim_some, length_cons, true_iff]
    omega

theorem currentEntry_ok (hgens : store.generations = g :: rest)
    (hentry : appEntry g.entries appId = some e) : store.currentEntry appId = .ok (g, e) := by
  rw [currentEntry, activeGeneration_eq hinj hs, hgens]
  simp [bind, Except.bind, hentry, pure, Except.pure]

theorem appRollback_ok (hlen : store.generations.length < maxActivationHistory)
    (hgens : store.generations = g :: rest) (hentry : appEntry g.entries appId = some e)
    (hfind : findAlong e (historyPredecessor g e.id) rest = some candidate) :
    ∃ summary, store.appRollback identify appId =
      .ok (store.commit identify (rollbackIdentity g appId candidate), summary) := by
  have hfound := findAlong_active hinj hs hgens e
  rw [hfind] at hfound
  obtain ⟨hself, hsound, -⟩ := rollback_commit hinj hs hgens hentry hfound
  have hsearch := findRollbackEntry_eq hinj hsound hlen rfl candidate.entry
  obtain ⟨summary, hsummary⟩ : ∃ summary,
      (store.commit identify (rollbackIdentity g appId candidate)).appSummary
        ⟨rollbackIdentity g appId candidate, identify (rollbackIdentity g appId candidate)⟩ appId =
        .ok summary := by
    rw [appSummary, hself]
    simp only [bind, Except.bind, hsearch]
    exact ⟨_, rfl⟩
  refine ⟨summary, ?_⟩
  rw [appRollback, currentEntry_ok hinj hs hgens hentry]
  simp only [bind, Except.bind, findRollbackEntry_eq hinj hs hlen.le hgens e, hfind]
  simp only [rollbackIdentity] at hsummary ⊢
  rw [hsummary]
  rfl

theorem appRollback_refused (hlen : store.generations.length ≤ maxActivationHistory)
    (hgens : store.generations = g :: rest) (hentry : appEntry g.entries appId = some e)
    (hfind : findAlong e (historyPredecessor g e.id) rest = none) :
    store.appRollback identify appId = .error (noRollback appId) := by
  rw [appRollback, currentEntry_ok hinj hs hgens hentry]
  simp only [bind, Except.bind, findRollbackEntry_eq hinj hs hlen hgens e, hfind]
  rfl

end Intact

theorem apply_store (h : store.apply identify op = .ok (store', summary)) :
    store' = store ∨ ∃ identity, store' = store.commit identify identity := by
  cases op with
  | install bundle =>
    obtain ⟨active, -, h⟩ := bind_eq_ok.mp h
    split at h
    all_goals
      obtain ⟨_, -, h⟩ := bind_eq_ok.mp h
      cases h
    · exact .inl rfl
    · exact .inr ⟨_, rfl⟩
  | rollback appId =>
    obtain ⟨_, -, h⟩ := bind_eq_ok.mp h
    obtain ⟨found, -, h⟩ := bind_eq_ok.mp h
    cases found with
    | none => cases h
    | some candidate =>
      obtain ⟨_, -, h⟩ := bind_eq_ok.mp h
      cases h
      exact .inr ⟨_, rfl⟩
  | uninstall appId =>
    obtain ⟨_, -, h⟩ := bind_eq_ok.mp h
    cases h
    exact .inr ⟨_, rfl⟩

/-! ## Every run -/

def stacksAfter (ops : List AppOp) (held : String → AppStack) : String → AppStack :=
  ops.foldl (fun held op => op.onStacks held) held

theorem applyAll_cons (h : store.applyAll identify (op :: ops) = .ok store') :
    ∃ next summary, store.apply identify op = .ok (next, summary) ∧
      next.applyAll identify ops = .ok store' := by
  obtain ⟨⟨next, summary⟩, hop, h⟩ := bind_eq_ok.mp h
  exact ⟨next, summary, hop, h⟩

theorem length_le_of_applyAll (h : store.applyAll identify ops = .ok store') :
    store.generations.length ≤ store'.generations.length := by
  induction ops generalizing store with
  | nil =>
    cases h
    exact le_rfl
  | cons op ops ih =>
    obtain ⟨next, summary, hop, hrest⟩ := applyAll_cons h
    have hnext := ih hrest
    rcases apply_store hop with rfl | ⟨identity, rfl⟩
    · exact hnext
    · exact le_of_succ_le hnext

theorem applyAll_stacks (hinj : Function.Injective identify)
    (hs : Sound identify store) (h : store.applyAll identify ops = .ok store')
    (hlen : store'.generations.length ≤ maxActivationHistory) :
    Sound identify store' ∧ stackOf store' = stacksAfter ops (stackOf store) := by
  induction ops generalizing store with
  | nil =>
    cases h
    exact ⟨hs, rfl⟩
  | cons op ops ih =>
    have hbound := (length_le_of_applyAll h).trans hlen
    obtain ⟨next, summary, hop, hrest⟩ := applyAll_cons h
    obtain ⟨hnext, hstacks⟩ := apply_step hinj hs hbound hop
    obtain ⟨hfinal, heq⟩ := ih hnext hrest
    exact ⟨hfinal, by rw [heq, hstacks]; rfl⟩

theorem current_of_stackOf (hs : Sound identify store) (appId : String) : current store appId =
      if (stackOf store appId).installed then (stackOf store appId).versions.head? else none := by
  rw [stackOf]
  cases hcurrent : current store appId with
  | none => rfl
  | some e => exact (head?_versions hs hcurrent).symm

/--
The applications of a store behave like stacks, one for each of them: an installation of an
entry other than the last one pushes, a rollback pops, and an uninstallation keeps the stack.
After any run of successful changes the active entry of an installed application is the top
of its stack. The search for a rollback never meets a cycle or its limit and finds something
exactly if there is a version below the top; a rollback then makes that version the active
one, leaves every other application as it is, and is refused otherwise.
-/
theorem rollback_is_a_stack (identify : GenerationIdentity γ → γ)
    (hinj : Function.Injective identify) (ops : List AppOp) (store : ActivationStore γ)
    (hrun : (⟨[], none⟩ : ActivationStore γ).applyAll identify ops = .ok store)
    (hlen : store.generations.length ≤ maxActivationHistory) (appId : String) :
    let stack := stacksAfter ops (fun _ => ⟨[], false⟩) appId
    current store appId = (if stack.installed then stack.versions.head? else none) ∧
      (stack.installed → ∃ active entry, store.currentEntry appId = .ok (active, entry) ∧
        (∃ found, store.findRollbackEntry active entry = .ok found ∧
          (found.isSome ↔ 2 ≤ stack.versions.length)) ∧
        (stack.versions.length < 2 →
          store.appRollback identify appId = .error (noRollback appId)) ∧
        (2 ≤ stack.versions.length → store.generations.length < maxActivationHistory →
          ∃ store' summary, store.appRollback identify appId = .ok (store', summary) ∧
            current store' appId = stack.versions[1]? ∧
            ∀ other, other ≠ appId → current store' other = current store other)) := by
  intro stack
  have hinit : Sound identify (⟨[], none⟩ : ActivationStore γ) := ⟨trivial, rfl⟩
  obtain ⟨hs, hstacks⟩ := applyAll_stacks hinj hinit hrun hlen
  have hstack : stack = stackOf store appId := (congrFun hstacks appId).symm
  rw [hstack]
  refine ⟨?_, fun hinstalled => ?_⟩
  · exact current_of_stackOf hs appId
  · obtain ⟨g, rest, e, hgens, hentry⟩ := exists_current hinstalled
    have hsearch := findRollbackEntry_isSome hinj hs hlen hgens hentry
    refine ⟨g, e, currentEntry_ok hinj hs hgens hentry, hsearch, ?_, ?_⟩
    all_goals
      obtain ⟨found, hfound, hsome⟩ := hsearch
      rw [findRollbackEntry_eq hinj hs hlen hgens e] at hfound
      obtain rfl := Except.ok.inj hfound
      intro hlength
    · apply appRollback_refused hinj hs hlen hgens hentry
      rw [← not_isSome_iff_eq_none, hsome]
      exact not_le.mpr hlength
    · intro hroom
      obtain ⟨candidate, hfind⟩ := isSome_iff_exists.mp (hsome.mpr hlength)
      obtain ⟨summary, hok⟩ := appRollback_ok hinj hs hroom hgens hentry hfind
      obtain ⟨hs', hstacks'⟩ := appRollback_step hinj hs hlen hok
      refine ⟨_, summary, hok, ?_, ?_⟩
      · rw [current_of_stackOf hs', hstacks', AppOp.onStacks, update_self, if_pos rfl,
          List.head?_tail]
      · intro other hother
        rw [current_of_stackOf hs', current_of_stackOf hs, hstacks', AppOp.onStacks,
          update_of_ne hother]

end

/-! ## A sample -/

/-- Identifiers of generations that are their contents. -/
inductive SampleId
  | none
  | some (id : SampleId)
  | mk (previous : SampleId) (profileId : String) (profileDigest : Digest)
    (entries : List ActivationEntry) (appId : Option String) (next : SampleId)
  deriving DecidableEq

namespace SampleId

def ofOption : Option SampleId → SampleId
  | .none => none
  | .some id => some id

def identify (i : GenerationIdentity SampleId) : SampleId :=
  mk (ofOption i.previousGeneration) i.profileId i.profileDigest i.entries
    (i.action.map fun | .rollback appId _ => appId)
    (ofOption (i.action.bind fun | .rollback _ next => next))

theorem ofOption_injective : Injective ofOption := by
  rintro (_ | _) (_ | _) h <;> simp_all [ofOption]

theorem identify_injective : Injective identify := by
  rintro ⟨_, _, _, _, _ | ⟨_, _⟩⟩ ⟨_, _, _, _, _ | ⟨_, _⟩⟩ h <;>
    simp_all [identify, ofOption_injective.eq_iff]

end SampleId

/-- The first version of one application, another application, and the second version. -/
def sampleOps : List AppOp :=
  [.install ⟨"org.example.reader", "dev", "1", [1], "kt6", [0]⟩,
    .install ⟨"org.example.clock", "dev", "1", [2], "kt6", [0]⟩,
    .install ⟨"org.example.reader", "dev", "2", [3], "kt6", [0]⟩]

/-- The reader goes back to its first version, and the clock stays. -/
theorem rollback_is_a_stack_reader : ∃ store store' summary,
    (⟨[], none⟩ : ActivationStore SampleId).applyAll SampleId.identify sampleOps = .ok store ∧
      (current store "org.example.reader").map (·.codeVersion) = some "2" ∧
      store.appRollback SampleId.identify "org.example.reader" = .ok (store', summary) ∧
      (current store' "org.example.reader").map (·.codeVersion) = some "1" ∧
      (current store' "org.example.clock").map (·.bundleRoot) = some [2] := by
  have hlen : ((⟨[], none⟩ : ActivationStore SampleId).applyAll SampleId.identify
      sampleOps).toOption.map (·.generations.length) = some 3 := by decide +kernel
  cases hrun : (⟨[], none⟩ : ActivationStore SampleId).applyAll SampleId.identify sampleOps with
  | error e => simp [hrun, Except.toOption] at hlen
  | ok store =>
    simp only [hrun, Except.toOption, Option.map_some, Option.some.injEq] at hlen
    have hstack := rollback_is_a_stack _ SampleId.identify_injective sampleOps store hrun
      (hlen.trans_le (by decide))
    obtain ⟨hreader, hrollback⟩ := hstack "org.example.reader"
    obtain ⟨active, entry, -, -, -, hpops⟩ := hrollback (by decide +kernel)
    obtain ⟨store', summary, hok, hfirst, hothers⟩ := hpops (by decide +kernel)
      (hlen.trans_lt (by decide))
    refine ⟨store, store', summary, rfl, ?_, hok, ?_, ?_⟩
    · rw [hreader]
      decide +kernel
    · rw [hfirst]
      decide +kernel
    · rw [hothers _ (by decide), (hstack "org.example.clock").1]
      decide +kernel

end KindleBridge.Bundle
