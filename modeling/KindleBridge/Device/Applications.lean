import KindleBridge.Foundations.Op
import KindleBridge.Foundations.Runs
import Mathlib.Data.Finset.Basic
import Mathlib.Data.List.AList

/-! # The supervisor of applications

The supervisor keeps a record of the process of each application. A stop takes the record out
before it terminates the process, and does not put it back when that fails.
-/

namespace KindleBridge.Device

open Op

variable {δ ε : Type}

inductive RuntimeError (ε : Type)
  | differentGenerationRunning
  | filesystem (e : ε)
  | spawn (e : ε)
  | status (e : ε)
  | stop (e : ε)
  deriving DecidableEq

structure ManagedApplication (δ : Type) where
  bundleRoot : δ
  /-- The process id. The system does not reuse it before the process has been waited for. -/
  child : ℕ

structure TerminalApplication (δ : Type) where
  bundleRoot : δ
  failed : Bool

/-- `live` are the processes that have been spawned and not been observed as exited. -/
structure SupervisorState (δ : Type) where
  children : AList fun _ : String => ManagedApplication δ := ∅
  terminal : AList fun _ : String => TerminalApplication δ := ∅
  live : Finset (String × ℕ) := ∅

/-- What `killpg` answers. -/
inductive SignalAnswer (ε : Type)
  | sent
  | noSuchProcess
  | failed (e : ε)

/-- What the system answers during one request. An exit status says whether it is a success. -/
structure ProcessWorld (ε : Type) where
  tryWait : String → Except ε (Option Bool)
  /-- The directories, the logs and the identifier of the run. -/
  setUp : Except ε Unit
  spawn : Except ε ℕ
  sigterm : SignalAnswer ε
  /-- The answers of `try_wait` before the deadline. -/
  polls : List (Except ε (Option Bool))
  sigkill : SignalAnswer ε
  wait : Except ε Bool

inductive SupervisorRequest (δ : Type)
  | start (appId : String) (bundleRoot : δ)
  | status (appId : String) (bundleRoot : δ)
  | managedProcesses
  | stop (appId : String)

inductive RuntimeStatus
  | stopped
  | running (pid : ℕ)
  | failed

abbrev ApplicationM (δ ε : Type) := Op (SupervisorState δ) (RuntimeError ε)

section Requests

variable [DecidableEq δ] (w : ProcessWorld ε)

def reapOne (appId : String) : ApplicationM δ ε Unit := do
  match (← get).children.lookup appId with
  | none => return ()
  | some managed =>
    match w.tryWait appId with
    | .error e => fail (.status e)
    | .ok none => return ()
    | .ok (some success) => modify fun s => { s with
        children := s.children.erase appId
        terminal := s.terminal.insert appId ⟨managed.bundleRoot, !success⟩
        live := s.live.erase (appId, managed.child) }

def startApplication (appId : String) (bundleRoot : δ) : ApplicationM δ ε ℕ := do
  reapOne w appId
  match (← get).children.lookup appId with
  | some managed =>
    if managed.bundleRoot = bundleRoot then return managed.child
    else fail .differentGenerationRunning
  | none =>
    modify fun s => { s with terminal := s.terminal.erase appId }
    ofExcept (w.setUp.mapError .filesystem)
    match w.spawn with
    | .error e => fail (.spawn e)
    | .ok pid =>
      modify fun s => { s with
        children := s.children.insert appId ⟨bundleRoot, pid⟩
        live := insert (appId, pid) s.live }
      return pid

def applicationStatus (appId : String) (bundleRoot : δ) : ApplicationM δ ε RuntimeStatus := do
  reapOne w appId
  let s ← get
  match s.children.lookup appId with
  | some managed =>
    if managed.bundleRoot = bundleRoot then return .running managed.child
    else fail .differentGenerationRunning
  | none =>
    match s.terminal.lookup appId with
    | some terminal =>
      return if terminal.bundleRoot = bundleRoot ∧ terminal.failed then .failed else .stopped
    | none => return .stopped

def reapAll : List String → ApplicationM δ ε Unit
  | [] => return ()
  | appId :: appIds => do
    reapOne w appId
    reapAll appIds

/-- The applications by the ids of their processes. -/
def managedProcesses : ApplicationM δ ε (List (ℕ × String)) := do
  reapAll w ((← get).children.keys.mergeSort (· ≤ ·))
  let s ← get
  return (s.children.entries.map fun entry => (entry.2.child, entry.1)).mergeSort (·.1 ≤ ·.1)

/-- The loop before the deadline: whether the process has exited. -/
def pollExit : List (Except ε (Option Bool)) → Except (RuntimeError ε) Bool
  | [] => .ok false
  | .error e :: _ => .error (.status e)
  | .ok none :: polls => pollExit polls
  | .ok (some _) :: _ => .ok true

def signalProcessGroup : SignalAnswer ε → Except (RuntimeError ε) Unit
  | .sent | .noSuchProcess => .ok ()
  | .failed e => .error (.stop e)

/-- Where it succeeds, the process has been observed as exited. -/
def terminate (appId : String) : Except (RuntimeError ε) Unit := do
  if (← (w.tryWait appId).mapError .status).isSome then return ()
  signalProcessGroup w.sigterm
  if ← pollExit w.polls then return ()
  signalProcessGroup w.sigkill
  discard (w.wait.mapError .stop)

def stopApplication (appId : String) : ApplicationM δ ε Unit := do
  modify fun s => { s with terminal := s.terminal.erase appId }
  match (← get).children.lookup appId with
  | none => return ()
  | some managed =>
    modify fun s => { s with children := s.children.erase appId }
    ofExcept (terminate w appId)
    modify fun s => { s with live := s.live.erase (appId, managed.child) }

end Requests

namespace SupervisorState

def step [DecidableEq δ] (s : SupervisorState δ) :
    SupervisorRequest δ × ProcessWorld ε → SupervisorState δ
  | (.start appId bundleRoot, w) => ((startApplication w appId bundleRoot).run s).2
  | (.status appId bundleRoot, w) => ((applicationStatus w appId bundleRoot).run s).2
  | (.managedProcesses, w) => ((managedProcesses w).run s).2
  | (.stop appId, w) => ((stopApplication w appId).run s).2

/-- The live processes are those on record, so that there is at most one of an application. -/
def Supervised (s : SupervisorState δ) : Prop := ∀ appId pid,
  (appId, pid) ∈ s.live ↔ (s.children.lookup appId).map (·.child) = some pid

variable {s : SupervisorState δ} {w : ProcessWorld ε} {appId : String}
  {managed : ManagedApplication δ}

theorem Supervised.erase (h : s.Supervised) (hl : s.children.lookup appId = some managed) :
    Supervised { s with
      children := s.children.erase appId, live := s.live.erase (appId, managed.child) } := by
  intro other pid
  by_cases hother : other = appId
  · subst hother
    have hpid : (other, pid) ∈ s.live ↔ managed.child = pid := by simp [h other pid, hl]
    simp [hpid, eq_comm (a := pid)]
  · simpa [hother, AList.lookup_erase_ne hother] using h other pid

theorem Supervised.insert (managed : ManagedApplication δ) (h : s.Supervised) (hl : s.children.lookup appId = none) :
    Supervised { s with
      children := s.children.insert appId managed
      live := insert (appId, managed.child) s.live } := by
  intro other pid
  by_cases hother : other = appId
  · subst hother
    have hpid : (other, pid) ∉ s.live := by simp [h other pid, hl]
    simp [hpid, eq_comm]
  · simpa [hother, AList.lookup_insert_ne hother] using h other pid

end SupervisorState

end KindleBridge.Device
