import KindleBridge.Bundle.Refusal

/-! # Recovering again

A recovery that succeeds leaves no transaction half done: each one is removed or has a
committed journal. A further recovery has nothing left to decide.
-/

namespace KindleBridge.Bundle

open InstallStore List

variable {γ : Type} {actions : List RecoveryAction}

def Transaction.IsCommitted (transaction : Transaction γ) : Prop :=
  ∃ journal, transaction.journal = some journal ∧ journal.phase = .committed

/-- The directory of the transaction is gone, or its journal says that it is committed. -/
def Settled (store : InstallStore γ) (id : String) : Prop :=
  ∀ transaction, store.transactions id = some transaction → transaction.IsCommitted

section
variable {store store' : InstallStore γ} {id id' : String}

theorem Settled.set {result : Option (Transaction γ)}
    (hresult : ∀ transaction, result = some transaction → transaction.IsCommitted)
    (h : id' = id ∨ Settled store id') : Settled (store.setTransaction id result) id' := by
  intro transaction htransaction
  by_cases hid : id' = id
  · rw [hid, setTransaction_self] at htransaction
    exact hresult transaction htransaction
  · rw [setTransaction_of_ne store hid] at htransaction
    exact h.resolve_left hid transaction htransaction

variable [DecidableEq γ]

/-- A transaction that is recovered is settled, whatever the pointer says by then. -/
theorem recoverTransaction_settles {transaction : Transaction γ} {action : RecoveryAction}
    (h : store.recoverTransaction id transaction = (.ok action, store'))
    (hid : id' = id ∨ Settled store id') : Settled store' id' := by
  have hremoved : ∀ t : Transaction γ, none = some t → t.IsCommitted := nofun
  have hcommitted : ∀ (journal : TransactionJournal γ) staged, journal.phase = .committed →
      ∀ t, some (Transaction.mk (some journal) staged) = some t → t.IsCommitted := by
    rintro journal staged hphase _ ⟨⟩
    exact ⟨journal, rfl, hphase⟩
  unfold recoverTransaction at h
  split at h
  · cases h
    exact .set hremoved hid
  next journal staged =>
    split_ifs at h with hphase
    · cases h
      exact .set (hcommitted _ _ hphase) hid
    · split at h
      · cases h
        exact .set hremoved hid
      · cases h
        exact .set hremoved hid
      · unfold recoverDurable at h
        split at h
        · cases h
        · split_ifs at h <;> cases h
          · exact .set (hcommitted _ _ rfl) hid
          · exact .set (hcommitted _ _ rfl) hid
          · exact .set hremoved hid

theorem recoverAll_settles (ids : List String)
    (h : (recoverAll ids store).1 = .ok actions) (hid : id ∈ ids ∨ Settled store id) :
    Settled (recoverAll ids store).2 id := by
  induction ids generalizing store actions with
  | nil => exact hid.resolve_left not_mem_nil
  | cons first rest ih =>
    rw [mem_cons, or_right_comm] at hid
    unfold recoverAll at h ⊢
    cases htransaction : store.transactions first with
    | none =>
      simp only [htransaction] at h ⊢
      refine ih h (hid.symm.imp_right fun hid => ?_)
      rcases hid with rfl | hid
      · exact fun transaction hsome => by cases htransaction.symm.trans hsome
      · exact hid
    | some transaction =>
      simp only [htransaction] at h ⊢
      rcases hrecover : store.recoverTransaction first transaction with ⟨_ | action, next⟩
      · rw [hrecover] at h
        cases h
      · rw [hrecover] at h
        cases hrest : (recoverAll rest next).1 with
        | error error => simp [hrest, Except.map] at h
        | ok actions' => exact ih hrest (hid.symm.imp_right (recoverTransaction_settles hrecover))

/-- What a recovery does to a store in which every transaction is settled. -/
structure Confirms (store : InstallStore γ)
    (r : Except Error (List RecoveryAction) × InstallStore γ) : Prop where
  reports : ∃ actions, r.1 = .ok actions ∧ ∀ action ∈ actions, action = .alreadyCommitted
  active : r.2.active = store.active
  generations : r.2.generations = store.generations
  settled : ∀ id, Settled r.2 id

theorem recoverAll_confirms (ids : List String) (h : ∀ id, Settled store id) :
    Confirms store (recoverAll ids store) := by
  induction ids generalizing store with
  | nil => exact ⟨⟨[], rfl, by simp⟩, rfl, rfl, h⟩
  | cons first rest ih =>
    unfold recoverAll
    cases htransaction : store.transactions first with
    | none => exact ih h
    | some transaction =>
      obtain ⟨journal, staged⟩ := transaction
      obtain ⟨journal, rfl, hphase⟩ := h first _ htransaction
      have hrecover : store.recoverTransaction first ⟨some journal, staged⟩ =
          (.ok .alreadyCommitted, store.setTransaction first (some ⟨some journal, none⟩)) := by
        simp [recoverTransaction, hphase]
      have hrest := ih fun id => recoverTransaction_settles hrecover (.inr (h id))
      obtain ⟨actions, hok, hactions⟩ := hrest.reports
      simp only [hrecover]
      refine ⟨⟨.alreadyCommitted :: actions, ?_, ?_⟩, hrest.active, hrest.generations,
        hrest.settled⟩
      · rw [hok]
        rfl
      · exact forall_mem_cons.mpr ⟨rfl, hactions⟩

end

variable [DecidableEq γ]

theorem recover_settles {store : InstallStore γ}
    (hlisted : ∀ id, (store.transactions id).isSome → id ∈ store.names)
    (hok : store.recover.1 = .ok actions) (id : String) : Settled store.recover.2 id := by
  apply recoverAll_settles _ hok
  rw [mem_insertionSort, mem_filter]
  cases hsome : store.transactions id with
  | none => exact .inr fun transaction h => by cases hsome.symm.trans h
  | some transaction => exact .inl ⟨hlisted id (by rw [hsome]; rfl), rfl⟩

/--
After a successful recovery every transaction that remains is committed, and each of any
number of further recoveries succeeds, reports only committed transactions, and leaves the
pointer and the generations as they are.
-/
theorem recover_idempotent {store : InstallStore γ} {actions : List RecoveryAction}
    (hlisted : ∀ id, (store.transactions id).isSome → id ∈ store.names)
    (hok : store.recover.1 = .ok actions) : (∀ id, Settled store.recover.2 id) ∧ ∀ n,
      let again := (fun store : InstallStore γ => store.recover.2)^[n] store.recover.2
      (∃ actions, again.recover.1 = .ok actions ∧
        ∀ action ∈ actions, action = .alreadyCommitted) ∧
      again.recover.2.active = store.recover.2.active ∧
      again.recover.2.generations = store.recover.2.generations := by
  have hsettled := recover_settles hlisted hok
  refine ⟨hsettled, fun n => ?_⟩
  generalize store.recover.2 = first at hsettled
  induction n generalizing first with
  | zero =>
    have h : Confirms first first.recover := recoverAll_confirms _ hsettled
    exact ⟨h.reports, h.active, h.generations⟩
  | succ n ih =>
    have h : Confirms first first.recover := recoverAll_confirms _ hsettled
    obtain ⟨hreports, hactive, hgenerations⟩ := ih _ h.settled
    exact ⟨hreports, hactive.trans h.active, hgenerations.trans h.generations⟩

/-- Two transactions whose generations were made durable, the second on top of the first. -/
theorem recover_idempotent_durable : let store : InstallStore ℕ :=
      ⟨none, fun id => some ⟨⟨if id = 2 then some 1 else none, "kt6", [], [], none⟩, id⟩,
        fun id =>
          if id = "a" then some ⟨some ⟨1, none, .generationDurable⟩, none⟩
          else if id = "b" then some ⟨some ⟨2, some 1, .generationDurable⟩, none⟩ else none,
        ["a", "b"]⟩
    store.recover.2.recover.2.active = some 2 := by
  intro store
  have hlisted : ∀ id, (store.transactions id).isSome → id ∈ store.names := by
    intro id h
    by_cases ha : id = "a"
    · simp [store, ha]
    · by_cases hb : id = "b"
      · simp [store, hb]
      · simp [store, ha, hb] at h
  have hok : store.recover.1 = .ok [.completedCommit, .completedCommit] := by decide +kernel
  obtain ⟨-, hactive, -⟩ := (recover_idempotent hlisted hok).2 0
  exact hactive.trans (by decide +kernel)

end KindleBridge.Bundle
