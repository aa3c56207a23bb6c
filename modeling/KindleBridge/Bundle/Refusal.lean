import KindleBridge.Foundations.Runs
import KindleBridge.Bundle.Install

/-! # Refused commits

A commit whose base is no longer active is refused, but its journal stays behind in a phase
that recovery completes once the base is active again. As long as the pointer is not moved
back onto the base of a refused transaction that is unfinished, a refusal is final.
-/

namespace KindleBridge.Bundle

open InstallStore Option Function List Transaction

variable {γ : Type} [DecidableEq γ]

/-- The generation of a refused transaction and its base. -/
structure Refusal (γ : Type) where
  generation : γ
  base : Option γ
deriving DecidableEq, Repr

/-- The store, with the commits that it has refused so far. -/
structure Ledger (γ : Type) where
  store : InstallStore γ
  refused : List (Refusal γ)

/-- The refusal that a commit would give, if it would. -/
def refusalOf (store : InstallStore γ) (id : String) : Option (Refusal γ) :=
  match (store.commitGeneration id).1, store.transactions id with
  | .error error, some ⟨some journal, _⟩ =>
    if error = baseChanged then some ⟨journal.generationId, journal.baseGeneration⟩ else none
  | _, _ => none

def Ledger.step (validate : ActivationGeneration γ → Except Error Unit) (l : Ledger γ) :
    StoreOp γ → Ledger γ
  | .stage id generation => ⟨(l.store.stageGeneration validate id generation).2, l.refused⟩
  | .commit id =>
    ⟨(l.store.commitGeneration id).2, (refusalOf l.store id).toList ++ l.refused⟩
  | .activateExisting target expectedCurrent =>
    ⟨(l.store.activateExisting target expectedCurrent).2, l.refused⟩
  | .recover => ⟨l.store.recover.2, l.refused⟩

/-- The generation that a transaction may still make active. -/
def unfinished (store : InstallStore γ) (id : String) : Option γ :=
  match store.transactions id with
  | some ⟨some journal, _⟩ =>
    if journal.phase = .committed then none else some journal.generationId
  | _ => none

/-- The base of a refused commit whose transaction is still unfinished. -/
def IsRefusedBase (store : InstallStore γ) (refused : List (Refusal γ)) (generation : γ) : Prop :=
  ∃ r ∈ refused, r.base = some generation ∧
    ∃ id ∈ store.names, unfinished store id = some r.generation

instance (store : InstallStore γ) (refused : List (Refusal γ)) :
    DecidablePred (IsRefusedBase store refused) := fun generation =>
  inferInstanceAs (Decidable (∃ r ∈ refused, r.base = some generation ∧ _))

/-- None of the transactions would move the pointer onto the base of a refused one. -/
def Clear (store : InstallStore γ) (refused : List (Refusal γ)) : Prop :=
  ∀ id ∈ store.names, ∀ generation ∈ unfinished store id, ¬ IsRefusedBase store refused generation

/-- No operation moves the pointer onto the base of a refused transaction. -/
def Ledger.Onward (l : Ledger γ) : StoreOp γ → Prop
  | .stage _ _ => True
  | .commit id => (l.store.commitGeneration id).1 = .ok .committed →
      ∀ generation ∈ unfinished l.store id, ¬ IsRefusedBase l.store l.refused generation
  | .activateExisting target expectedCurrent =>
      (l.store.activateExisting target expectedCurrent).1 = .ok () →
        ¬ IsRefusedBase l.store l.refused target
  | .recover => Clear l.store l.refused

instance (l : Ledger γ) : DecidablePred l.Onward
  | .stage _ _ => inferInstanceAs (Decidable True)
  | .commit id => inferInstanceAs (Decidable (_ → ∀ generation ∈ unfinished l.store id,
      ¬ IsRefusedBase l.store l.refused generation))
  | .activateExisting target _ => inferInstanceAs
      (Decidable (_ → ¬ IsRefusedBase l.store l.refused target))
  | .recover => inferInstanceAs (Decidable (∀ id ∈ l.store.names,
      ∀ generation ∈ unfinished l.store id, ¬ IsRefusedBase l.store l.refused generation))

/-- A recovery makes no generation of a refused transaction active. -/
def Ledger.Final (validate : ActivationGeneration γ → Except Error Unit) (l : Ledger γ)
    (op : StoreOp γ) : Prop :=
  op = .recover → ∀ r ∈ l.refused, (l.step validate op).store.active = some r.generation →
    l.store.active = some r.generation

/-! ## What the store keeps -/

/--
A transaction that is not committed and has nothing staged has a durable generation of its
base; refused generations are durable, and while they are unfinished their bases are not
active.
-/
structure Good (store : InstallStore γ) (refused : List (Refusal γ)) : Prop where
  durable : ∀ {id journal}, store.transactions id = some ⟨some journal, none⟩ →
    journal.phase ≠ .committed → ∃ g, store.generations journal.generationId = some g ∧
      g.previousGeneration = journal.baseGeneration
  kept : ∀ r ∈ refused, ∃ g, store.generations r.generation = some g ∧
    g.previousGeneration = r.base
  away : ∀ r ∈ refused, ∀ id ∈ store.names, unfinished store id = some r.generation →
    store.active ≠ r.base

section
variable {store store' : InstallStore γ} {refused : List (Refusal γ)} {id : String}
  {journal : TransactionJournal γ} {staged : Option (ActivationGeneration γ)}
  {transaction : Option (Transaction γ)} {generation : γ}

section
omit [DecidableEq γ]

@[simp] theorem setTransaction_self (store : InstallStore γ) (id : String)
    (transaction : Option (Transaction γ)) :
    (store.setTransaction id transaction).transactions id = transaction := update_self ..

theorem setTransaction_of_ne (store : InstallStore γ) {id id' : String} (h : id' ≠ id)
    (transaction : Option (Transaction γ)) :
    (store.setTransaction id transaction).transactions id' = store.transactions id' :=
  update_of_ne h ..

theorem unfinished_eq (htransaction : store.transactions id = some ⟨some journal, staged⟩)
    (hphase : journal.phase ≠ .committed) : unfinished store id = some journal.generationId := by
  rw [unfinished, htransaction]
  exact if_neg hphase

theorem unfinished_setTransaction {other : String} {g : γ}
    (hrest : ∀ g, unfinished (store.setTransaction id transaction) id = some g →
      unfinished store id = some g)
    (hg : unfinished (store.setTransaction id transaction) other = some g) :
    unfinished store other = some g := by
  by_cases hid : other = id
  · subst hid
    exact hrest g hg
  · rwa [unfinished, setTransaction_of_ne store hid] at hg

theorem IsRefusedBase.mono (h : IsRefusedBase store' refused generation)
    (hnames : store'.names = store.names)
    (hrest : ∀ id g, unfinished store' id = some g → unfinished store id = some g) :
    IsRefusedBase store refused generation := by
  obtain ⟨r, hr, hbase, id, hid, hg⟩ := h
  exact ⟨r, hr, hbase, id, hnames ▸ hid, hrest id _ hg⟩

theorem Good.setTransaction (h : Good store refused)
    (hnew : ∀ journal, transaction = some ⟨some journal, none⟩ → journal.phase ≠ .committed →
      ∃ g, store.generations journal.generationId = some g ∧
        g.previousGeneration = journal.baseGeneration)
    (hrest : ∀ g, unfinished (store.setTransaction id transaction) id = some g →
      unfinished store id = some g) : Good (store.setTransaction id transaction) refused := by
  refine ⟨?_, h.kept, fun r hr other hother hg => ?_⟩
  · intro id' journal htransaction hphase
    by_cases hid : id' = id
    · subst hid
      rw [setTransaction_self] at htransaction
      exact hnew journal htransaction hphase
    · rw [setTransaction_of_ne store hid] at htransaction
      exact h.durable htransaction hphase
  · exact h.away r hr other hother (unfinished_setTransaction hrest hg)

theorem Good.setJournal (h : Good store refused) (hdurable : journal.phase ≠ .committed →
      unfinished store id = some journal.generationId ∧
      ∃ g, store.generations journal.generationId = some g ∧
        g.previousGeneration = journal.baseGeneration) :
    Good (store.setTransaction id (some ⟨some journal, staged⟩)) refused := by
  apply h.setTransaction
  · intro journal' heq hphase
    obtain ⟨hjournal, -⟩ := mk.inj (some.inj heq)
    obtain rfl := some.inj hjournal
    exact (hdurable hphase).2
  · intro g hg
    rw [unfinished, setTransaction_self] at hg
    dsimp only at hg
    split_ifs at hg with hphase
    rw [(hdurable hphase).1, hg]

theorem Good.committed (h : Good store refused) (id : String) (journal : TransactionJournal γ) :
    Good (store.writeJournal id { journal with phase := .committed }) refused :=
  h.setJournal (absurd rfl)

theorem Good.point (h : Good store refused) (hbase : ¬ IsRefusedBase store refused generation) :
    Good { store with active := some generation } refused :=
  ⟨h.durable, h.kept, fun r hr id hid hg heq => hbase ⟨r, hr, heq.symm, id, hid, hg⟩⟩

end

theorem Good.addGeneration (h : Good store refused)
    (hfree : store.generations generation = none) (g : ActivationGeneration γ) :
    Good { store with generations := Function.update store.generations generation (some g) }
      refused := by
  have hother : ∀ {x y}, store.generations x = some y →
      Function.update store.generations generation (some g) x = some y := by
    intro x y hx
    have hne : x ≠ generation := by
      rintro rfl
      rw [hfree] at hx
      cases hx
    rw [update_of_ne hne, hx]
  refine ⟨?_, ?_, h.away⟩
  · intro id journal htransaction hphase
    obtain ⟨y, hy, hprevious⟩ := h.durable htransaction hphase
    exact ⟨y, hother hy, hprevious⟩
  · intro r hr
    obtain ⟨y, hy, hprevious⟩ := h.kept r hr
    exact ⟨y, hother hy, hprevious⟩

theorem loadGeneration_ok {g : ActivationGeneration γ}
    (h : store.loadGeneration generation = .ok g) : store.generations generation = some g := by
  rw [loadGeneration] at h
  split at h
  · cases h
  next hsome =>
    split_ifs at h
    rw [hsome, Except.ok.inj h]

/-! ## One operation -/

omit [DecidableEq γ] in
/-- A transaction is staged under a generation that is not durable, hence not refused. -/
theorem staged_good {g : ActivationGeneration γ} {names : List String} (h : Good store refused)
    (hfree : store.generations g.generationId = none)
    (hnames : ∀ other ∈ names, other = id ∨ other ∈ store.names) :
    Good { store.setTransaction id (some ⟨some ⟨g.generationId, g.previousGeneration, .staged⟩,
      some g⟩) with names } refused := by
  refine ⟨?_, h.kept, fun r hr other hother hg => ?_⟩
  · intro other journal htransaction hphase
    by_cases hid : other = id
    · subst hid
      exact absurd ((setTransaction_self store other _).symm.trans htransaction) (by simp)
    · exact h.durable ((setTransaction_of_ne store hid _).symm.trans htransaction) hphase
  · by_cases hid : other = id
    · subst hid
      have hnew : some g.generationId = some r.generation :=
        (unfinished_eq (setTransaction_self store other _) (by simp)).symm.trans hg
      obtain ⟨durable, hdurable, -⟩ := h.kept r hr
      rw [← some.inj hnew, hfree] at hdurable
      cases hdurable
    · refine h.away r hr other ((hnames other hother).resolve_left hid) ?_
      rwa [unfinished, show _ = _ from setTransaction_of_ne store hid _] at hg

theorem stageGeneration_good (h : Good store refused)
    (validate : ActivationGeneration γ → Except Error Unit) (id : String)
    (generation : ActivationGeneration γ) :
    Good (store.stageGeneration validate id generation).2 refused := by
  rw [stageGeneration]
  split
  · exact h
  · split
    · exact h
    · split
      · exact h
      · split
        · exact h
        · split
          · exact h
          next hdurable =>
            refine staged_good h (not_isSome_iff_eq_none.mp hdurable) fun other hother => ?_
            split_ifs at hother
            · exact .inr hother
            · exact (mem_append.mp hother).symm.imp_left mem_singleton.mp

theorem publish_good (h : Good store refused)
    (htransaction : store.transactions id = some ⟨some journal, staged⟩)
    (hphase : journal.phase ≠ .committed)
    (hpublish : store.publish id journal staged = .ok store') :
    Good store' refused ∧ unfinished store' id = some journal.generationId ∧
      ∃ g, store'.generations journal.generationId = some g ∧
        g.previousGeneration = journal.baseGeneration := by
  have hopen := unfinished_eq htransaction hphase
  have hsame (store : InstallStore γ) :
      unfinished (store.setTransaction id (some ⟨some journal, none⟩)) id =
        some journal.generationId := unfinished_eq (setTransaction_self ..) hphase
  unfold publish at hpublish
  split at hpublish
  · simp only [bind, Except.bind] at hpublish
    split at hpublish
    · cases hpublish
    next durable hload =>
      have hdurable := loadGeneration_ok hload
      split at hpublish
      · cases hpublish
        exact ⟨h, hopen, h.durable htransaction hphase⟩
      next generation =>
        split_ifs at hpublish with hagrees
        · cases hpublish
          obtain ⟨rfl, -, hprevious⟩ := hagrees
          exact ⟨h.setJournal fun _ => ⟨hopen, _, hdurable, hprevious⟩, hsame _, _, hdurable,
            hprevious⟩
  next hfree =>
    split at hpublish
    · cases hpublish
    next generation =>
      split_ifs at hpublish with hmatches
      cases hpublish
      rw [not_or, not_not, not_not] at hmatches
      have hadded := h.addGeneration hfree generation
      have hself : Function.update store.generations journal.generationId (some generation)
          journal.generationId = some generation := update_self ..
      have hset : Good (setTransaction _ id (some ⟨some journal, none⟩)) refused :=
        hadded.setJournal fun _ => ⟨hopen, generation, hself, hmatches.2⟩
      exact ⟨⟨hset.durable, hset.kept, hset.away⟩, hsame _, generation, hself, hmatches.2⟩

theorem publish_unfinished (htransaction : store.transactions id = some ⟨some journal, staged⟩)
    (hphase : journal.phase ≠ .committed)
    (hpublish : store.publish id journal staged = .ok store') : store'.names = store.names ∧
      ∀ other g, unfinished store' other = some g → unfinished store other = some g := by
  have hset {other : String} {g : γ}
      (hg : unfinished (store.setTransaction id (some ⟨some journal, none⟩)) other = some g) :
      unfinished store other = some g := by
    refine unfinished_setTransaction (fun g hg => ?_) hg
    rw [unfinished_eq (setTransaction_self ..) hphase] at hg
    rw [unfinished_eq htransaction hphase, hg]
  unfold publish at hpublish
  simp only [bind, Except.bind] at hpublish
  repeat' split at hpublish
  all_goals cases hpublish
  · exact ⟨rfl, fun _ _ hg => hg⟩
  · exact ⟨rfl, fun _ _ => hset⟩
  · exact ⟨rfl, fun _ _ => hset⟩

/-- A commit that is not refused keeps the refusals; one that is adds its own. -/
theorem activate_good (h : Good store refused)
    (hopen : unfinished store id = some journal.generationId)
    (hdurable : ∃ g, store.generations journal.generationId = some g ∧
      g.previousGeneration = journal.baseGeneration)
    (hbase : (store.activate id journal).1 = .ok .committed →
      ¬ IsRefusedBase store refused journal.generationId) :
    Good (store.activate id journal).2 refused ∧ ∀ error,
      (store.activate id journal).1 = .error error → Good (store.activate id journal).2
          (⟨journal.generationId, journal.baseGeneration⟩ :: refused) := by
  have hwrite : Good (store.writeJournal id { journal with phase := .generationDurable })
      refused := h.setJournal fun _ => ⟨hopen, hdurable⟩
  rw [activate] at hbase ⊢
  split
  · exact ⟨hwrite.committed id journal, fun error herror => by cases herror⟩
  next hother =>
    rw [if_neg hother] at hbase
    split
    next hmoved =>
      refine ⟨hwrite, fun error _ => ⟨hwrite.durable, ?_, ?_⟩⟩
      · exact forall_mem_cons.mpr ⟨hdurable, hwrite.kept⟩
      · exact forall_mem_cons.mpr ⟨fun _ _ _ => hmoved, hwrite.away⟩
    next hmoved =>
      rw [if_neg hmoved] at hbase
      refine ⟨(hwrite.point fun hrefused => hbase rfl ?_).committed id journal,
        fun error herror => by cases herror⟩
      refine hrefused.mono rfl fun other g => unfinished_setTransaction fun g hg => ?_
      rw [unfinished, setTransaction_self] at hg
      rw [hopen, ← hg]
      rfl

theorem publish_error {error : Error} (h : store.publish id journal staged = .error error) :
    error ≠ baseChanged := by
  have hload (he : store.loadGeneration journal.generationId = .error error) :
      error ≠ baseChanged := by
    rw [loadGeneration] at he
    split at he
    on_goal 2 => split_ifs at he
    all_goals
      cases he
      decide
  simp only [publish, bind, Except.bind] at h
  repeat' split at h
  all_goals cases h
  all_goals first | decide | exact hload ‹_›

theorem commitGeneration_cases (store : InstallStore γ) (id : String) :
    ((store.commitGeneration id).2 = store ∧ refusalOf store id = none) ∨
      ∃ journal staged published, store.transactions id = some ⟨some journal, staged⟩ ∧
        journal.phase ≠ .committed ∧ store.publish id journal staged = .ok published ∧
        store.commitGeneration id = published.activate id journal := by
  rw [refusalOf, commitGeneration]
  split
  · refine .inl ⟨rfl, ?_⟩
    split
    next error journal staged herror htransaction =>
      cases herror
      exact if_neg (by decide)
    · rfl
  · split
    next journal staged htransaction =>
      split
      next hphase =>
        refine .inl ⟨rfl, ?_⟩
        split
        next herror _ => cases herror
        · rfl
      next hphase =>
        split
        next error hpublish =>
          refine .inl ⟨rfl, ?_⟩
          split
          next herror htransaction' =>
            cases herror
            exact if_neg (publish_error hpublish)
          · rfl
        next published hpublish =>
          exact .inr ⟨journal, staged, published, htransaction, hphase, hpublish, rfl⟩
    next hnone =>
      refine .inl ⟨rfl, ?_⟩
      split
      next herror htransaction => exact absurd htransaction (hnone _ _)
      · rfl

theorem commitGeneration_good (h : Good store refused)
    (hbase : (store.commitGeneration id).1 = .ok .committed →
      ∀ generation ∈ unfinished store id, ¬ IsRefusedBase store refused generation) :
    Good (store.commitGeneration id).2 ((refusalOf store id).toList ++ refused) := by
  rcases commitGeneration_cases store id with ⟨hsame, hnone⟩ |
    ⟨journal, staged, published, htransaction, hphase, hpublish, hcommit⟩
  · rw [hsame, hnone]
    exact h
  · obtain ⟨hgood, hopen, hdurable⟩ := publish_good h htransaction hphase hpublish
    obtain ⟨hnames, hrest⟩ := publish_unfinished htransaction hphase hpublish
    obtain ⟨hkept, hrefused⟩ := activate_good hgood hopen hdurable fun hok hrefused =>
      hbase (hcommit ▸ hok) _ (unfinished_eq htransaction hphase) (hrefused.mono hnames hrest)
    rw [refusalOf, htransaction, hcommit]
    cases hresult : (published.activate id journal).1 with
    | ok outcome => exact hkept
    | error error =>
      simp only
      split_ifs
      · exact hrefused error hresult
      · exact hkept

/-! ## Recovery -/

/-- What a recovery keeps while it goes over the transactions. -/
def Recovers (refused : List (Refusal γ)) (store store' : InstallStore γ) : Prop :=
  Good store' refused ∧ Clear store' refused ∧ store'.names = store.names ∧
    ∀ r ∈ refused, store'.active = some r.generation → store.active = some r.generation

section
omit [DecidableEq γ]

theorem recovers_refl (h : Good store refused) (hc : Clear store refused) :
    Recovers refused store store := ⟨h, hc, rfl, fun _ _ hactive => hactive⟩

theorem recovers_set (h : Good store refused) (hc : Clear store refused) (id : String)
    (hnew : ∀ t journal, transaction = some t → t.journal = some journal →
      journal.phase = .committed) :
    Recovers refused store (store.setTransaction id transaction) := by
  have hrest : ∀ g, unfinished (store.setTransaction id transaction) id = some g →
      unfinished store id = some g := by
    intro g hg
    rw [unfinished, setTransaction_self] at hg
    split at hg
    · rw [if_pos (hnew _ _ rfl rfl)] at hg
      cases hg
    · cases hg
  refine ⟨h.setTransaction ?_ hrest, ?_, rfl, fun r _ hactive => hactive⟩
  · rintro journal rfl hphase
    exact absurd (hnew _ journal rfl rfl) hphase
  · intro other hother generation hgeneration hrefused
    exact hc other hother generation (unfinished_setTransaction hrest hgeneration)
      (hrefused.mono rfl fun _ _ => unfinished_setTransaction hrest)

end

theorem recoverDurable_recovers (h : Good store refused) (hc : Clear store refused)
    (hid : id ∈ store.names) (htransaction : store.transactions id = some ⟨some journal, staged⟩)
    (hphase : journal.phase ≠ .committed) :
    Recovers refused store (store.recoverDurable id journal staged).2 := by
  have hbase := hc id hid _ (unfinished_eq htransaction hphase)
  have hsettled : ∀ t journal', some (mk (some { journal with phase := .committed })
      ((store.transactions id).bind (·.staged))) = some t → t.journal = some journal' →
      journal'.phase = .committed := by
    rintro _ _ ⟨⟩ ⟨⟩
    rfl
  rw [recoverDurable]
  split
  · exact recovers_refl h hc
  next durable hload =>
    split
    · exact recovers_refl h hc
    next hagrees =>
      split
      · exact recovers_set h hc id hsettled
      · split
        next hactive =>
          -- The completed generation follows the active one, which no refused base is.
          have hprevious : durable.previousGeneration = journal.baseGeneration := by
            cases staged with
            | none =>
              obtain ⟨g, hg, hprevious⟩ := h.durable htransaction hphase
              rw [loadGeneration_ok hload] at hg
              rw [some.inj hg, hprevious]
            | some generation =>
              have hsame : InstallStore.Agrees generation durable journal := by
                simpa using hagrees
              rw [← hsame.1, hsame.2.2]
          obtain ⟨hgood, hclear, hnames, -⟩ := recovers_set (h.point hbase) hc id hsettled
          refine ⟨hgood, hclear, hnames, ?_⟩
          intro r hr hsome
          have hgeneration : journal.generationId = r.generation := some.inj hsome
          obtain ⟨g, hg, hbase'⟩ := h.kept r hr
          rw [← hgeneration, loadGeneration_ok hload] at hg
          rw [← some.inj hg, hprevious, ← hactive] at hbase'
          exact absurd hbase' (h.away r hr id hid
            ((unfinished_eq htransaction hphase).trans (congrArg some hgeneration)))
        · exact recovers_set h hc id fun t journal ht => by cases ht

theorem recoverTransaction_recovers (h : Good store refused) (hc : Clear store refused)
    (hid : id ∈ store.names) {transaction : Transaction γ}
    (htransaction : store.transactions id = some transaction) :
    Recovers refused store (store.recoverTransaction id transaction).2 := by
  obtain ⟨journal, staged⟩ := transaction
  cases journal with
  | none => exact recovers_set h hc id fun t journal ht => by cases ht
  | some journal =>
    simp only [recoverTransaction]
    split
    next hphase =>
      apply recovers_set h hc
      rintro _ _ ⟨⟩ ⟨⟩
      exact hphase
    next hphase =>
      split
      · exact recovers_set h hc id fun t journal ht => by cases ht
      · exact recovers_set h hc id fun t journal ht => by cases ht
      · exact recoverDurable_recovers h hc hid htransaction hphase

theorem recoverAll_recovers {visited : List String} (hsub : visited ⊆ store.names)
    (h : Good store refused) (hc : Clear store refused) :
    Recovers refused store (recoverAll visited store).2 := by
  induction visited generalizing store with
  | nil => exact recovers_refl h hc
  | cons id visited ih =>
    obtain ⟨hid, hsub⟩ := cons_subset.mp hsub
    rw [recoverAll]
    split
    · exact ih hsub h hc
    next transaction htransaction =>
      have hone := recoverTransaction_recovers h hc hid htransaction
      split
      next hresult =>
        rw [hresult] at hone
        exact hone
      next hresult =>
        rw [hresult] at hone
        obtain ⟨hgood, hclear, hnames, hfinal⟩ := hone
        obtain ⟨hgood', hclear', hnames', hfinal'⟩ := ih (hnames ▸ hsub) hgood hclear
        exact ⟨hgood', hclear', hnames'.trans hnames,
          fun r hr hactive => hfinal r hr (hfinal' r hr hactive)⟩

theorem recover_recovers (h : Good store refused) (hc : Clear store refused) :
    Recovers refused store store.recover.2 := by
  refine recoverAll_recovers ?_ h hc
  intro id hid
  exact mem_of_mem_filter ((perm_insertionSort _ _).mem_iff.mp hid)

end

/-! ## Every run -/

theorem step_final (validate : ActivationGeneration γ → Except Error Unit) {l : Ledger γ}
    {op : StoreOp γ} (h : Good l.store l.refused) (ho : l.Onward op) :
    l.Final validate op ∧ Good (l.step validate op).store (l.step validate op).refused := by
  cases op with
  | stage id generation => exact ⟨nofun, stageGeneration_good h validate id generation⟩
  | commit id => exact ⟨nofun, commitGeneration_good h ho⟩
  | activateExisting target expectedCurrent =>
    refine ⟨nofun, ?_⟩
    rw [Ledger.Onward, activateExisting] at ho
    rw [Ledger.step, activateExisting]
    split at ho
    · exact h
    · split_ifs at ho ⊢
      · exact h
      · exact h.point (ho rfl)
  | recover =>
    have hrecovers := recover_recovers h ho
    exact ⟨fun _ => hrecovers.2.2.2, hrecovers.1⟩

/--
In every run in which no operation moves the pointer onto the base of a refused transaction
that is unfinished, no recovery makes the generation of a refused transaction active.
-/
theorem refused_commit_stays_refused (validate : ActivationGeneration γ → Except Error Unit)
    (ops : List (StoreOp γ))
    (h : Along (Ledger.step validate) Ledger.Onward ⟨InstallStore.empty, []⟩ ops) :
    Along (Ledger.step validate) (Ledger.Final validate) ⟨InstallStore.empty, []⟩ ops := by
  refine h.of_invariant (I := fun l => Good l.store l.refused) ⟨?_, ?_, ?_⟩
    fun l op hgood ho => step_final validate hgood ho
  · intro id journal htransaction
    cases htransaction
  · simp
  · simp

/-- Two transactions on one base, of which the second comes too late. -/
def contendedRun : List (StoreOp ℕ) :=
  let generation (id : ℕ) (previous : Option ℕ) : ActivationGeneration ℕ :=
    ⟨⟨previous, "kt6", [], [], none⟩, id⟩
  [.stage "t0" (generation 1 none), .commit "t0", .stage "t1" (generation 2 (some 1)),
    .stage "t2" (generation 3 (some 1)), .commit "t1", .commit "t2"]

/-- The first recovery discards the refused transaction, so its base may be activated again. -/
theorem refused_commit_stays_refused_contended :
    Along (Ledger.step fun _ => .ok ()) (Ledger.Final fun _ => .ok ())
      (⟨InstallStore.empty, []⟩ : Ledger ℕ)
      (contendedRun ++ [.recover, .activateExisting 1 2, .recover]) :=
  refused_commit_stays_refused (fun _ => .ok ()) _ (by decide +kernel)

/-- The base becomes active again, and recovery completes the refused commit. -/
theorem refused_commit_is_completed :
    let l := (contendedRun ++ [StoreOp.activateExisting 1 2]).foldl (Ledger.step fun _ => .ok ())
      (⟨InstallStore.empty, []⟩ : Ledger ℕ)
    l.refused = [⟨3, some 1⟩] ∧ ¬ l.Final (fun _ => .ok ()) .recover := by
  intro l
  have hrefused : l.refused = [⟨3, some 1⟩] := by decide +kernel
  have hbefore : l.store.active = some 1 := by decide +kernel
  have hafter : l.store.recover.2.active = some 3 := by decide +kernel
  refine ⟨hrefused, fun h => ?_⟩
  have hactive := h rfl ⟨3, some 1⟩ (by rw [hrefused]; exact mem_cons_self) hafter
  rw [hbefore] at hactive
  cases hactive

end KindleBridge.Bundle
