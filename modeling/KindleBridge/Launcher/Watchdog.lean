import KindleBridge.Foundations.Script
import Mathlib.Algebra.Order.Ring.Nat

/-! # The launcher

Two slots hold the daemon. The launcher runs the one that the pointer names, and a switch
to the other one is pending until the new daemon has been healthy for a while. Every file
is replaced by a rename, so a write is one step. What clock, child process and heartbeat
file answer during a step is left open.
-/

namespace KindleBridge.Launcher

open Script

inductive ErrorKind
  | io
  | unsafePath
  | invalidManifest
  | invalidState
  | child
  deriving DecidableEq, Repr

structure Error where
  kind : ErrorKind
  message : String
  deriving DecidableEq, Repr

inductive Slot
  | a
  | b
  deriving DecidableEq, Repr

namespace Slot

def other : Slot → Slot
  | .a => .b
  | .b => .a

@[simp] theorem other_ne (s : Slot) : s.other ≠ s := by cases s <;> decide

@[simp] theorem ne_other (s : Slot) : s ≠ s.other := s.other_ne.symm

theorem eq_other_of_ne {s t : Slot} (h : s ≠ t) : s = t.other := by
  cases s <;> cases t <;> first | rfl | exact absurd rfl h

end Slot

/-- The policy of a slot. A manifest that breaks one of the rules is not accepted. -/
structure SlotManifest where
  startupTimeoutMs : ℕ
  heartbeatTimeoutMs : ℕ
  healthyAfterMs : ℕ
  maxCrashes : ℕ
  backoffInitialMs : ℕ
  backoffMaxMs : ℕ
  startup : 0 < startupTimeoutMs ∧ startupTimeoutMs ≤ 10000
  timing : 0 < heartbeatTimeoutMs ∧ heartbeatTimeoutMs ≤ 300000 ∧
    heartbeatTimeoutMs ≤ healthyAfterMs ∧ healthyAfterMs ≤ 600000
  policy : 0 < maxCrashes ∧ maxCrashes ≤ 16 ∧ 0 < backoffInitialMs ∧
    backoffInitialMs ≤ backoffMaxMs ∧ backoffMaxMs ≤ 300000

def slotManifest : SlotManifest where
  startupTimeoutMs := 10000
  heartbeatTimeoutMs := 10000
  healthyAfterMs := 10000
  maxCrashes := 3
  backoffInitialMs := 100
  backoffMaxMs := 1000
  startup := by decide
  timing := by decide
  policy := by decide

structure PendingSwitch where
  previous : Slot
  target : Slot
  differ : previous ≠ target
  deriving DecidableEq

theorem PendingSwitch.previous_eq (p : PendingSwitch) : p.previous = p.target.other :=
  Slot.eq_other_of_ne p.differ

structure WatchdogState where
  slot : Slot
  crashes : ℕ
  nextStartMs : ℕ
  halted : Bool
  deriving DecidableEq

/-- The record of a slot that has not been tried yet. -/
def WatchdogState.fresh (slot : Slot) : WatchdogState := ⟨slot, 0, 0, false⟩

structure Heartbeat where
  instance' : String
  timestampMs : ℕ
  deriving DecidableEq

/-- The files of the launcher. A manifest that cannot be loaded is `none`. -/
structure Disk where
  current : Slot
  pending : Option PendingSwitch
  previous : Option Slot
  state : Option WatchdogState
  next : Option Slot
  manifest : Slot → Option SlotManifest
  executable : Slot → Option (List UInt8)
  daemonPid : Bool

inductive FileOp
  | readCurrent
  | writeCurrent (slot : Slot)
  | readPending
  | writePending (pending : PendingSwitch)
  | removePending
  | readPrevious
  | writePrevious (slot : Slot)
  | removePrevious
  | readState
  | writeState (state : WatchdogState)
  | readNext
  | writeNext (slot : Slot)
  | removeNext
  | loadManifest (slot : Slot)
  | statExecutable (slot : Slot)
  | writeExecutable (slot : Slot) (bytes : List UInt8)
  | writeManifest (slot : Slot)
  | removeHeartbeat
  | statDaemonPid
  | writeDaemonPid
  | removeDaemonPid
  deriving DecidableEq

namespace FileOp

abbrev Answer : FileOp → Type
  | .readCurrent => Slot
  | .readPending => Option PendingSwitch
  | .readPrevious | .readNext => Option Slot
  | .readState => Option WatchdogState
  | .loadManifest _ => Option SlotManifest
  | .statExecutable _ | .statDaemonPid => Bool
  | _ => Unit

def serve : (op : FileOp) → Disk → op.Answer × Disk
  | .readCurrent, d => (d.current, d)
  | .writeCurrent slot, d => ((), { d with current := slot })
  | .readPending, d => (d.pending, d)
  | .writePending pending, d => ((), { d with pending := some pending })
  | .removePending, d => ((), { d with pending := none })
  | .readPrevious, d => (d.previous, d)
  | .writePrevious slot, d => ((), { d with previous := some slot })
  | .removePrevious, d => ((), { d with previous := none })
  | .readState, d => (d.state, d)
  | .writeState state, d => ((), { d with state := some state })
  | .readNext, d => (d.next, d)
  | .writeNext slot, d => ((), { d with next := some slot })
  | .removeNext, d => ((), { d with next := none })
  | .loadManifest slot, d => (d.manifest slot, d)
  | .statExecutable slot, d => ((d.executable slot).isSome, d)
  | .writeExecutable slot bytes, d =>
    ((), { d with executable := fun s => if s = slot then some bytes else d.executable s })
  | .writeManifest slot, d =>
    ((), { d with manifest := fun s => if s = slot then some slotManifest else d.manifest s })
  | .removeHeartbeat, d => ((), d)
  | .statDaemonPid, d => (d.daemonPid, d)
  | .writeDaemonPid, d => ((), { d with daemonPid := true })
  | .removeDaemonPid, d => ((), { d with daemonPid := false })

end FileOp

abbrev LauncherM := Script FileOp FileOp.Answer Error

def file (op : FileOp) : LauncherM op.Answer := perform op

def invalidState {α : Type} (message : String) : LauncherM α := fail ⟨.invalidState, message⟩

structure RunningChild where
  id : ℕ
  slot : Slot
  startedMs : ℕ
  lastPollMs : ℕ
  instance' : String
  lastHeartbeatTimestampMs : Option ℕ
  firstHeartbeatMs : Option ℕ
  lastValidHeartbeatMs : Option ℕ
  healthy : Bool
  deriving DecidableEq

structure Memory where
  state : WatchdogState
  running : Option RunningChild
  deriving DecidableEq

inductive ChildStatus
  | running
  | exited
  deriving DecidableEq, Repr

inductive StepOutcome
  | started (slot : Slot) (child : ℕ)
  | running (slot : Slot) (child : ℕ)
  | healthy (slot : Slot) (child : ℕ)
  | backingOff (slot : Slot) (untilMs : ℕ)
  | rolledBack (failed restored : Slot)
  | disabled
  | halted (slot : Slot) (crashes : ℕ)
  deriving DecidableEq, Repr

/-- What the surroundings answer during one step. The clock may be read twice. -/
structure Tick where
  disabled : Except Error Bool
  nowMs : ℕ
  laterMs : ℕ
  spawn : Except Error ℕ
  poll : Except Error ChildStatus
  terminate : Except Error Unit
  heartbeat : Except Error (Option Heartbeat)
  newInstance : String

def maxU64 : ℕ := 2 ^ 64 - 1
def maxU32 : ℕ := 2 ^ 32 - 1

/-! ## Health of a running child -/

inductive Verdict
  /-- The heartbeat has advanced for long enough. -/
  | beats
  | waits
  | timedOut
  deriving DecidableEq, Repr

namespace RunningChild

def clockDiscontinuity (m : SlotManifest) (now : ℕ) (r : RunningChild) : Bool :=
  now < r.lastPollMs || r.healthy && now - r.lastPollMs > m.heartbeatTimeoutMs

/-- Note a poll. After a jump of the clock, the child gets time to show a heartbeat. -/
def resync (m : SlotManifest) (now : ℕ) (r : RunningChild) : RunningChild :=
  let polled := { r with lastPollMs := now }
  if r.clockDiscontinuity m now then
    if r.healthy then { polled with lastValidHeartbeatMs := some now }
    else { polled with
      startedMs := now
      lastHeartbeatTimestampMs := none
      firstHeartbeatMs := none
      lastValidHeartbeatMs := none }
  else polled

/-- The heartbeat is one of this child and differs from the last one seen. -/
def advances (r : RunningChild) (h : Heartbeat) : Bool :=
  h.instance' = r.instance' ∧ r.lastHeartbeatTimestampMs ≠ some h.timestampMs

def beat (now : ℕ) (h : Heartbeat) (r : RunningChild) : RunningChild :=
  { r with
    lastHeartbeatTimestampMs := some h.timestampMs
    lastValidHeartbeatMs := some now
    firstHeartbeatMs := some (r.firstHeartbeatMs.getD now) }

def timedOut (m : SlotManifest) (now : ℕ) (r : RunningChild) : Bool :=
  match r.lastValidHeartbeatMs with
  | some lastValid => now - lastValid > m.heartbeatTimeoutMs
  | none => now - r.startedMs ≥ m.startupTimeoutMs

/-- What a poll that finds the child running comes to. -/
def observe (m : SlotManifest) (now : ℕ) (heartbeat : Option Heartbeat) (r : RunningChild) :
    RunningChild × Verdict :=
  let r := r.resync m now
  match heartbeat.filter r.advances with
  | some h =>
    if now - r.firstHeartbeatMs.getD now ≥ m.healthyAfterMs then (r.beat now h, .beats)
    else (r.beat now h, .waits)
  | none => if r.timedOut m now then (r, .timedOut) else (r, .waits)

end RunningChild

/-! ## Slots -/

def validateSlot (slot : Slot) : LauncherM SlotManifest := do
  match ← file (.loadManifest slot) with
  | none => fail ⟨.invalidManifest, "slot manifest is missing or invalid"⟩
  | some manifest =>
    if ← file (.statExecutable slot) then return manifest
    else fail ⟨.invalidManifest, "slot executable is missing or not a regular file"⟩

def recoverPendingPointer : LauncherM Unit := do
  match ← file .readPending with
  | none => return ()
  | some pending =>
    let active ← file .readCurrent
    if active = pending.previous then file (.writeCurrent pending.target)
    else if active = pending.target then return ()
    else invalidState "active pointer is inconsistent with pending switch"

def openLauncher : LauncherM Memory := do
  recoverPendingPointer
  let slot ← file .readCurrent
  let state ← file .readState
  return ⟨state.getD (.fresh slot), none⟩

def requestSlot (target : Slot) (mem : Memory) : LauncherM Memory := do
  let current ← file .readCurrent
  if h : current = target then return mem
  else
    match ← file .readPending with
    | some pending =>
      if pending.target = target then return mem
      else invalidState "another slot switch is still pending"
    | none =>
      let _ ← validateSlot target
      file (.writePending ⟨current, target, h⟩)
      file (.writeCurrent target)
      file (.writeState (.fresh target))
      return { mem with state := .fresh target }

/-! ## Steps -/

variable (t : Tick)

def rollback (pending : PendingSwitch) : LauncherM (StepOutcome × Memory) := do
  file (.writeCurrent pending.previous)
  file .removePending
  let state : WatchdogState := ⟨pending.previous, 0, t.laterMs, false⟩
  file (.writeState state)
  return (.rolledBack pending.target pending.previous, ⟨state, none⟩)

def backoff (m : SlotManifest) (crashes : ℕ) : ℕ :=
  min (min (m.backoffInitialMs * 2 ^ min (crashes - 1) 31) maxU64) m.backoffMaxMs

def recordCrash (m : SlotManifest) (state : WatchdogState) :
    LauncherM (StepOutcome × Memory) :=
  if state.crashes ≥ m.maxCrashes then do
    let state := { state with halted := true }
    file (.writeState state)
    return (.halted state.slot state.crashes, ⟨state, none⟩)
  else do
    let state := { state with
      nextStartMs := min (t.laterMs + backoff m state.crashes) maxU64 }
    file (.writeState state)
    return (.backingOff state.slot state.nextStartMs, ⟨state, none⟩)

def recordFailure (m : SlotManifest) (slot : Slot) (state : WatchdogState) :
    LauncherM (StepOutcome × Memory) := do
  let state := { state with slot := slot, crashes := min (state.crashes + 1) maxU32 }
  match ← file .readPending with
  | some pending =>
    if pending.target = slot ∧ state.crashes ≥ m.maxCrashes then rollback t pending
    else recordCrash t m state
  | none => recordCrash t m state

def confirmHealthy (slot : Slot) : LauncherM WatchdogState := do
  file (.writeState (.fresh slot))
  match ← file .readPending with
  | some pending =>
    if pending.target = slot then
      file (.writePrevious pending.previous)
      file .removePending
    else pure ()
  | none => pure ()
  return .fresh slot

def stopChild : LauncherM Unit := do
  ofExcept t.terminate
  file .removeDaemonPid

def judge (m : SlotManifest) (state : WatchdogState) (r : RunningChild) :
    Verdict → LauncherM (StepOutcome × Memory)
  | .beats =>
    if r.healthy then return (.healthy r.slot r.id, ⟨state, some r⟩)
    else do
      let state ← confirmHealthy r.slot
      return (.healthy r.slot r.id, ⟨state, some { r with healthy := true }⟩)
  | .waits =>
    if r.healthy then return (.healthy r.slot r.id, ⟨state, some r⟩)
    else return (.running r.slot r.id, ⟨state, some r⟩)
  | .timedOut => do
    stopChild t
    recordFailure t m r.slot state

def stepRunning (state : WatchdogState) (r : RunningChild) : LauncherM (StepOutcome × Memory) := do
  match ← file (.loadManifest r.slot) with
  | none => fail ⟨.invalidManifest, "slot manifest is missing or invalid"⟩
  | some m =>
    match ← ofExcept t.poll with
    | .exited => do
      file .removeDaemonPid
      recordFailure t m r.slot state
    | .running => do
      let heartbeat ← ofExcept t.heartbeat
      let (r, verdict) := r.observe m t.nowMs heartbeat
      judge t m state r verdict

/-- A slot that cannot be started is given up at once if it is pending. -/
def refuse (active : Slot) (e : Error) : LauncherM (StepOutcome × Memory) := do
  match ← file .readPending with
  | some pending => if pending.target = active then rollback t pending else fail e
  | none => fail e

def start (active : Slot) (state : WatchdogState) : LauncherM (StepOutcome × Memory) := do
  file .removeHeartbeat
  let child ← ofExcept t.spawn
  file .writeDaemonPid
  return (.started active child, ⟨state,
    some ⟨child, active, t.nowMs, t.nowMs, t.newInstance, none, none, none, false⟩⟩)

/-- Start the active slot, unless it has been given up or has to wait. -/
def stepStopped (active : Slot) (state : WatchdogState) : LauncherM (StepOutcome × Memory) :=
  if state.halted then return (.halted state.slot state.crashes, ⟨state, none⟩)
  else if t.nowMs < state.nextStartMs then
    return (.backingOff state.slot state.nextStartMs, ⟨state, none⟩)
  else do
    match ← (validateSlot active).attempt with
    | .ok _ => start t active state
    | .error e => refuse t active e

def adopt (active : Slot) (state : WatchdogState) : LauncherM WatchdogState :=
  if state.slot = active then return state
  else do
    file (.writeState (.fresh active))
    return .fresh active

def step (mem : Memory) : LauncherM (StepOutcome × Memory) := do
  if ← ofExcept t.disabled then
    match mem.running with
    | some _ => stopChild t
    | none => pure ()
    return (.disabled, { mem with running := none })
  else
    let active ← file .readCurrent
    match mem.running with
    | some r =>
      if r.slot = active then stepRunning t mem.state r
      else do
        stopChild t
        file (.writeState (.fresh active))
        stepStopped t active (.fresh active)
    | none => do
      let state ← adopt active mem.state
      stepStopped t active state

/-! ## Updates of the daemon

A new daemon is staged in the inactive slot, selected while no daemon runs, and tried by
the launcher.
-/

def maxDaemonSize : ℕ := 32 * 1024 * 1024

def validateArmElf (bytes : List UInt8) : Bool :=
  20 ≤ bytes.length ∧ bytes.take 4 = [0x7f, 0x45, 0x4c, 0x46] ∧ bytes[4]? = some 1 ∧
    bytes[5]? = some 1 ∧ (bytes.drop 18).take 2 = [40, 0]

def checkSource (hash : List UInt8 → String) (source : Option (List UInt8))
    (expectedDigest : String) : Except Error (List UInt8) :=
  match source with
  | none => .error ⟨.invalidState, "update source must be an existing absolute path"⟩
  | some bytes =>
    if bytes = [] ∨ bytes.length > maxDaemonSize then
      .error ⟨.invalidState, "update source size is invalid"⟩
    else if ¬ validateArmElf bytes then
      .error ⟨.invalidState, "update is not an ELF32 little-endian ARM binary"⟩
    else if hash bytes ≠ expectedDigest then
      .error ⟨.invalidState, "update digest does not match"⟩
    else .ok bytes

/-- Replace the inactive slot. The rollback point goes first, as it names that slot. -/
def stageDaemon (hash : List UInt8 → String) (source : Option (List UInt8))
    (expectedDigest : String) : LauncherM Slot := do
  let bytes ← ofExcept (checkSource hash source expectedDigest)
  let current ← file .readCurrent
  file .removePrevious
  file (.writeExecutable current.other bytes)
  file (.writeManifest current.other)
  file (.writeNext current.other)
  return current.other

def rollbackDaemon : LauncherM Slot := do
  if ← file .statDaemonPid then invalidState "refusing to roll back while a daemon PID exists"
  else if (← file .readPending).isSome then invalidState "daemon slot switch is still pending"
  else
    match ← file .readPrevious with
    | none => invalidState "no confirmed daemon update to roll back"
    | some previous =>
      let current ← file .readCurrent
      if previous ≠ current then
        let _ ← validateSlot previous
        file (.writeCurrent previous)
      else pure ()
      file .removeNext
      file .removePrevious
      return previous

/-- Select the staged slot, as a launcher of its own. -/
def selectStaged : LauncherM Slot := do
  if ← file .statDaemonPid then
    invalidState "refusing to select a staged slot while a daemon PID exists"
  else
    match ← file .readNext with
    | none => fail ⟨.io, "could not read staged slot"⟩
    | some slot =>
      let mem ← openLauncher
      let _ ← requestSlot slot mem
      file .removeNext
      return slot

/-! ## Samples -/

/-- Both slots hold a daemon, and slot A is active. -/
def sampleDisk : Disk :=
  ⟨.a, none, none, none, none, fun _ => some slotManifest, fun _ => some [], false⟩

def sampleTick (nowMs : ℕ) (heartbeat : Option ℕ) : Tick :=
  ⟨.ok false, nowMs, nowMs, .ok 1, .ok .running, .ok (), .ok (heartbeat.map (⟨"x", ·⟩)), "x"⟩

end KindleBridge.Launcher
