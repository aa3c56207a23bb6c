import KindleBridge.Bundle.Paths

/-! # Activation generations and application changes

The record of what is active, generation by generation, and the changes that applications
make to it. The identifier of a generation is computed from all its contents by `identify`.
Images, processes and the transactions of the store are those of successful calls.
-/

namespace KindleBridge.Bundle

open Schema (RpcError)

inductive BundleKind
  | application
  | runtime
  | agent
  | tool
  | daemon
  | deviceProfile
deriving DecidableEq, Repr

def BundleKind.asStr : BundleKind → String
  | .application => "application"
  | .runtime => "runtime"
  | .agent => "agent"
  | .tool => "tool"
  | .daemon => "daemon"
  | .deviceProfile => "device-profile"

abbrev Digest := List UInt8

structure ActivationEntry where
  id : String
  channel : String
  kind : BundleKind
  bundleRoot : Digest
  codeVersion : String
  dataGeneration : Option String
  dependencyRoots : List Digest
deriving DecidableEq, Repr

inductive ActivationAction (γ : Type)
  | rollback (appId : String) (nextGeneration : Option γ)
deriving DecidableEq, Repr

/-- All that the identifier of a generation is computed from. -/
structure GenerationIdentity (γ : Type) where
  previousGeneration : Option γ
  profileId : String
  profileDigest : Digest
  entries : List ActivationEntry
  action : Option (ActivationAction γ)
deriving DecidableEq, Repr

structure ActivationGeneration (γ : Type) extends GenerationIdentity γ where
  generationId : γ
deriving DecidableEq, Repr

/-- The generations that have been committed, the newest first, and the active one. -/
structure ActivationStore (γ : Type) where
  generations : List (ActivationGeneration γ)
  active : Option γ
deriving DecidableEq, Repr

structure AppSummary where
  appId : String
  version : String
  rollbackAvailable : Bool
deriving DecidableEq, Repr

/-- What an application bundle brings to its installation, with the device's profile. -/
structure AppBundle where
  id : String
  channel : String
  version : String
  bundleRoot : Digest
  target : String
  profileDigest : Digest
deriving DecidableEq, Repr

def AppBundle.entry (bundle : AppBundle) : ActivationEntry :=
  ⟨bundle.id, bundle.channel, .application, bundle.bundleRoot, bundle.version, none, []⟩

def maxActivationHistory : ℕ := 4096

/-! ## Errors -/

def appNotFound (appId : String) : RpcError :=
  ⟨-32020, "App not found", [("app_id", appId)]⟩

def noRollback (appId : String) : RpcError :=
  ⟨-32021, "No rollback available", [("app_id", appId)]⟩

def appInstallFailure (stage reason detail : String) : RpcError :=
  ⟨-32022, "Application install failed",
    [("stage", stage), ("reason", reason), ("detail", detail)]⟩

def invalidDeviceState (detail : String) : RpcError :=
  ⟨RpcError.invalidStateCode, "Invalid device state", [("detail", detail)]⟩

/-! ## Entries -/

def IsApp (appId : String) (entry : ActivationEntry) : Prop :=
  entry.kind = .application ∧ entry.id = appId

instance (appId : String) : DecidablePred (IsApp appId) := fun _ =>
  inferInstanceAs (Decidable (_ ∧ _))

def appEntry (entries : List ActivationEntry) (appId : String) : Option ActivationEntry :=
  entries.find? (IsApp appId ·)

def entryRank (entry : ActivationEntry) : List ℕ ×ₗ List ℕ ×ₗ List ℕ :=
  toLex (byteOrder entry.id, toLex (byteOrder entry.channel, byteOrder entry.kind.asStr))

def sortEntries (entries : List ActivationEntry) : List ActivationEntry :=
  entries.insertionSort fun left right => entryRank left ≤ entryRank right

/-- Put an entry in the place of the first one that is the application's. -/
def replaceApp (appId : String) (replacement : ActivationEntry) :
    List ActivationEntry → List ActivationEntry
  | [] => []
  | entry :: rest =>
    if IsApp appId entry then replacement :: rest
    else entry :: replaceApp appId replacement rest

section
variable {γ : Type} [DecidableEq γ]

/-! ## The history -/

def historyPredecessor (generation : ActivationGeneration γ) (appId : String) : Option γ :=
  match generation.action with
  | some (.rollback rolledBack nextGeneration) =>
    if rolledBack = appId then nextGeneration else generation.previousGeneration
  | none => generation.previousGeneration

structure RollbackCandidate (γ : Type) where
  entry : ActivationEntry
  nextGeneration : Option γ
deriving DecidableEq, Repr

namespace ActivationStore

def loadGeneration (store : ActivationStore γ) (id : γ) :
    Except RpcError (ActivationGeneration γ) :=
  match store.generations.find? (·.generationId = id) with
  | some generation => .ok generation
  | none => .error (invalidDeviceState "activation generation is missing")

/-- The loop of `find_rollback_entry`, with the iterations that are left. -/
def findLoop (store : ActivationStore γ) (current : ActivationEntry) :
    ℕ → List γ → Option γ → Except RpcError (Option (RollbackCandidate γ))
  | 0, _, _ =>
    .error (invalidDeviceState "activation history exceeds the device traversal limit")
  | _ + 1, _, none => .ok none
  | iterations + 1, visited, some id =>
    if id ∈ visited then .error (invalidDeviceState "activation history contains a cycle")
    else do
      let generation ← store.loadGeneration id
      let nextGeneration := historyPredecessor generation current.id
      match generation.entries.find? fun e => IsApp current.id e ∧ e ≠ current with
      | some candidate => return some ⟨candidate, nextGeneration⟩
      | none => store.findLoop current iterations (id :: visited) nextGeneration

def findRollbackEntry (store : ActivationStore γ) (active : ActivationGeneration γ)
    (current : ActivationEntry) : Except RpcError (Option (RollbackCandidate γ)) :=
  store.findLoop current maxActivationHistory [] (historyPredecessor active current.id)

def appSummary (store : ActivationStore γ) (generation : ActivationGeneration γ)
    (appId : String) : Except RpcError AppSummary :=
  match appEntry generation.entries appId with
  | none =>
    .error (appInstallFailure "commit_activation" "internal_state"
      "committed activation does not contain the installed app")
  | some entry => do
    let candidate ← store.findRollbackEntry generation entry
    return ⟨entry.id, entry.codeVersion, candidate.isSome⟩

def activeGeneration (store : ActivationStore γ) :
    Except RpcError (Option (ActivationGeneration γ)) :=
  match store.active with
  | none => .ok none
  | some id => do
    let generation ← store.loadGeneration id
    return some generation

variable (identify : GenerationIdentity γ → γ)

def commit (store : ActivationStore γ) (identity : GenerationIdentity γ) : ActivationStore γ :=
  ⟨⟨identity, identify identity⟩ :: store.generations, some (identify identity)⟩

def appInstall (store : ActivationStore γ) (bundle : AppBundle) :
    Except RpcError (ActivationStore γ × AppSummary) := do
  let active ← store.activeGeneration
  match active.filter fun g => g.entries.any fun e => e.kind = .application ∧ e.id = bundle.id ∧
      e.channel = bundle.channel ∧ e.codeVersion = bundle.version ∧
      e.bundleRoot = bundle.bundleRoot with
  | some generation =>
    let summary ← store.appSummary generation bundle.id
    return (store, summary)
  | none =>
    let before := (active.map (·.entries)).getD []
    let kept := before.filter (¬ IsApp bundle.id ·)
    let identity : GenerationIdentity γ :=
      ⟨store.active, bundle.target, bundle.profileDigest, sortEntries (kept ++ [bundle.entry]),
        none⟩
    let store' := store.commit identify identity
    let summary ← store'.appSummary ⟨identity, identify identity⟩ bundle.id
    return (store', summary)

def currentEntry (store : ActivationStore γ) (appId : String) :
    Except RpcError (ActivationGeneration γ × ActivationEntry) := do
  match ← store.activeGeneration with
  | none => throw (appNotFound appId)
  | some active =>
    match appEntry active.entries appId with
    | none => throw (appNotFound appId)
    | some current => return (active, current)

def appRollback (store : ActivationStore γ) (appId : String) :
    Except RpcError (ActivationStore γ × AppSummary) := do
  let (active, current) ← store.currentEntry appId
  match ← store.findRollbackEntry active current with
  | none => throw (noRollback appId)
  | some rollback =>
    let entries := sortEntries (replaceApp appId rollback.entry active.entries)
    let identity : GenerationIdentity γ :=
      ⟨some active.generationId, active.profileId, active.profileDigest, entries,
        some (.rollback appId rollback.nextGeneration)⟩
    let store' := store.commit identify identity
    let summary ← store'.appSummary ⟨identity, identify identity⟩ appId
    return (store', summary)

def appUninstall (store : ActivationStore γ) (appId : String) :
    Except RpcError (ActivationStore γ × AppSummary) := do
  let (active, removed) ← store.currentEntry appId
  let entries := active.entries.filter (¬ IsApp appId ·)
  let identity : GenerationIdentity γ :=
    ⟨some active.generationId, active.profileId, active.profileDigest, entries, none⟩
  return (store.commit identify identity, ⟨removed.id, removed.codeVersion, false⟩)

end ActivationStore

inductive AppOp
  | install (bundle : AppBundle)
  | rollback (appId : String)
  | uninstall (appId : String)
deriving DecidableEq, Repr

namespace ActivationStore

def apply (identify : GenerationIdentity γ → γ) (store : ActivationStore γ) :
    AppOp → Except RpcError (ActivationStore γ × AppSummary)
  | .install bundle => store.appInstall identify bundle
  | .rollback appId => store.appRollback identify appId
  | .uninstall appId => store.appUninstall identify appId

def applyAll (identify : GenerationIdentity γ → γ) (store : ActivationStore γ) :
    List AppOp → Except RpcError (ActivationStore γ)
  | [] => .ok store
  | op :: ops => do
    let (store', _) ← store.apply identify op
    store'.applyAll identify ops

end ActivationStore

end

end KindleBridge.Bundle
