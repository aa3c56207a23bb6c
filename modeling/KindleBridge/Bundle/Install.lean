import KindleBridge.Bundle.Activation

/-! # The install store

Generations are staged under a transaction, made durable, and then activated by moving the
active pointer. A journal for each transaction records how far it came, and `recover`
completes or discards what was left behind. Files are kept as the values that they hold, and
every operation is one step; `validate` is the check of a generation's texts.
-/

namespace KindleBridge.Bundle

inductive TransactionPhase
  | staged
  | generationDurable
  | committed
deriving DecidableEq, Repr

structure TransactionJournal (γ : Type) where
  generationId : γ
  baseGeneration : Option γ
  phase : TransactionPhase
deriving DecidableEq, Repr

structure Transaction (γ : Type) where
  journal : Option (TransactionJournal γ)
  staged : Option (ActivationGeneration γ)
deriving DecidableEq, Repr

structure InstallStore (γ : Type) where
  active : Option γ
  generations : γ → Option (ActivationGeneration γ)
  transactions : String → Option (Transaction γ)
  /-- All transactions that may be there. -/
  names : List String

inductive CommitOutcome
  | committed
  | alreadyActive
  | alreadyCommitted
deriving DecidableEq, Repr

inductive RecoveryAction
  | removedOrphan
  | alreadyCommitted
  | abortedStaging
  | recordedCommit
  | completedCommit
  | discardedConflict
deriving DecidableEq, Repr

def isTransactionId (value : String) : Bool :=
  value ≠ "" && value.utf8ByteSize ≤ 64 &&
    value.toList.all fun c => c.isAlphanum || c = '-' || c = '_'

def invalidTransactionId : Error := ⟨.path, "invalid transaction ID"⟩

def baseChanged : Error := ⟨.conflict, "active generation changed during transaction"⟩

def missingFile : Error := ⟨.io, IoError.notFound.text⟩

namespace InstallStore
variable {γ : Type} [DecidableEq γ] (store : InstallStore γ)

def empty : InstallStore γ := ⟨none, fun _ => none, fun _ => none, []⟩

def loadGeneration (id : γ) : Except Error (ActivationGeneration γ) :=
  match store.generations id with
  | none => .error missingFile
  | some generation =>
    if generation.generationId ≠ id then
      .error ⟨.activation, "generation directory does not match activation content"⟩
    else .ok generation

def setTransaction (id : String) (transaction : Option (Transaction γ)) : InstallStore γ :=
  { store with transactions := Function.update store.transactions id transaction }

def writeJournal (id : String) (journal : TransactionJournal γ) : InstallStore γ :=
  store.setTransaction id (some ⟨some journal, (store.transactions id).bind (·.staged)⟩)

/-- The staged generation is the durable one and the one of the journal. -/
def Agrees (staged durable : ActivationGeneration γ) (journal : TransactionJournal γ) : Prop :=
  staged = durable ∧ staged.generationId = journal.generationId ∧
    staged.previousGeneration = journal.baseGeneration

instance (staged durable : ActivationGeneration γ) (journal : TransactionJournal γ) :
    Decidable (Agrees staged durable journal) := inferInstanceAs (Decidable (_ ∧ _ ∧ _))

/-- A staging again under the same transaction. -/
def restage (transaction : Transaction γ) (generation : ActivationGeneration γ) :
    Except Error Unit :=
  match transaction.journal with
  | none => .error missingFile
  | some journal =>
    if journal.generationId = generation.generationId ∧
        journal.baseGeneration = generation.previousGeneration then do
      let existing ← match transaction.staged with
        | some staged => .ok staged
        | none => store.loadGeneration generation.generationId
      if existing ≠ generation then
        .error ⟨.conflict, "transaction retry changed immutable generation content"⟩
      else .ok ()
    else .error ⟨.conflict, "transaction ID already stages different content"⟩

def stageGeneration (validate : ActivationGeneration γ → Except Error Unit) (id : String)
    (generation : ActivationGeneration γ) : Except Error Unit × InstallStore γ :=
  if ¬ isTransactionId id then (.error invalidTransactionId, store)
  else
    match validate generation with
    | .error error => (.error error, store)
    | .ok () =>
      if store.active ≠ generation.previousGeneration then
        (.error ⟨.conflict, "activation base changed before generation staging"⟩, store)
      else
        match store.transactions id with
        | some transaction => (store.restage transaction generation, store)
        | none =>
          if (store.generations generation.generationId).isSome then
            (.error ⟨.conflict, "generation ID already names immutable content"⟩, store)
          else
            let journal : TransactionJournal γ :=
              ⟨generation.generationId, generation.previousGeneration, .staged⟩
            (.ok (), { store.setTransaction id (some ⟨some journal, some generation⟩) with
              names := if id ∈ store.names then store.names else store.names ++ [id] })

/-- The generation of a transaction becomes durable. -/
def publish (id : String) (journal : TransactionJournal γ)
    (staged : Option (ActivationGeneration γ)) : Except Error (InstallStore γ) :=
  match store.generations journal.generationId with
  | some _ => do
    let durable ← store.loadGeneration journal.generationId
    match staged with
    | none => return store
    | some staged =>
      if Agrees staged durable journal then
        return store.setTransaction id (some ⟨some journal, none⟩)
      else
        throw ⟨.conflict, "generation ID collision with different immutable content"⟩
  | none =>
    match staged with
    | none => .error ⟨.recovery, "transaction has neither staged nor durable generation"⟩
    | some staged =>
      if staged.generationId ≠ journal.generationId ∨
          staged.previousGeneration ≠ journal.baseGeneration then
        .error ⟨.recovery, "staged generation does not match its journal"⟩
      else
        .ok { store.setTransaction id (some ⟨some journal, none⟩) with
          generations := Function.update store.generations journal.generationId (some staged) }

/-- The pointer moves if it still stands on the base. -/
def activate (id : String) (journal : TransactionJournal γ) :
    Except Error CommitOutcome × InstallStore γ :=
  let durable := store.writeJournal id { journal with phase := .generationDurable }
  if durable.active = some journal.generationId then
    (.ok .alreadyActive, durable.writeJournal id { journal with phase := .committed })
  else if durable.active ≠ journal.baseGeneration then
    (.error baseChanged, durable)
  else
    (.ok .committed, { durable with active := some journal.generationId }.writeJournal id
      { journal with phase := .committed })

def commitGeneration (id : String) : Except Error CommitOutcome × InstallStore γ :=
  if ¬ isTransactionId id then (.error invalidTransactionId, store)
  else
    match store.transactions id with
    | some ⟨some journal, staged⟩ =>
      if journal.phase = .committed then (.ok .alreadyCommitted, store)
      else
        match store.publish id journal staged with
        | .error error => (.error error, store)
        | .ok published => published.activate id journal
    | _ => (.error missingFile, store)

def activateExisting (target expectedCurrent : γ) : Except Error Unit × InstallStore γ :=
  match store.loadGeneration target with
  | .error error => (.error error, store)
  | .ok _ =>
    if store.active ≠ some expectedCurrent then
      (.error ⟨.conflict, "active generation changed before rollback"⟩, store)
    else (.ok (), { store with active := some target })

/-- A transaction whose generation is durable is completed, recorded or discarded. -/
def recoverDurable (id : String) (journal : TransactionJournal γ)
    (staged : Option (ActivationGeneration γ)) : Except Error RecoveryAction × InstallStore γ :=
  match store.loadGeneration journal.generationId with
  | .error error => (.error error, store)
  | .ok durable =>
    if staged.any fun staged => ¬ Agrees staged durable journal then
      (.error ⟨.recovery, "staged and durable generations disagree"⟩, store)
    else if store.active = some journal.generationId then
      (.ok .recordedCommit, store.writeJournal id { journal with phase := .committed })
    else if store.active = journal.baseGeneration then
      (.ok .completedCommit, { store with active := some journal.generationId }.writeJournal id
        { journal with phase := .committed })
    else (.ok .discardedConflict, store.setTransaction id none)

def recoverTransaction (id : String) (transaction : Transaction γ) :
    Except Error RecoveryAction × InstallStore γ :=
  match transaction with
  | ⟨none, _⟩ => (.ok .removedOrphan, store.setTransaction id none)
  | ⟨some journal, staged⟩ =>
    if journal.phase = .committed then
      (.ok .alreadyCommitted, store.setTransaction id (some ⟨some journal, none⟩))
    else
      match store.generations journal.generationId, staged with
      | none, some _ => (.ok .abortedStaging, store.setTransaction id none)
      | none, none => (.ok .removedOrphan, store.setTransaction id none)
      | some _, _ => store.recoverDurable id journal staged

/-- The transactions one after the other; the first failure ends the recovery. -/
def recoverAll : List String → InstallStore γ → Except Error (List RecoveryAction) × InstallStore γ
  | [], store => (.ok [], store)
  | id :: rest, store =>
    match store.transactions id with
    | none => recoverAll rest store
    | some transaction =>
      match store.recoverTransaction id transaction with
      | (.error error, store') => (.error error, store')
      | (.ok action, store') =>
        let (result, final) := recoverAll rest store'
        (result.map (action :: ·), final)

def recover : Except Error (List RecoveryAction) × InstallStore γ :=
  let ids := store.names.filter fun id => (store.transactions id).isSome
  recoverAll (ids.insertionSort fun left right => byteOrder left ≤ byteOrder right) store

end InstallStore

inductive StoreOp (γ : Type)
  | stage (id : String) (generation : ActivationGeneration γ)
  | commit (id : String)
  | activateExisting (target expectedCurrent : γ)
  | recover

end KindleBridge.Bundle
