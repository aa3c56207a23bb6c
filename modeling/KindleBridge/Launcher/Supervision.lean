import KindleBridge.Foundations.Op
import KindleBridge.Launcher.Deeds

/-! # Supervision of the child

The launcher with the memory that a failed call leaves behind. A step takes the record of
its child out and puts it back only on some paths. It loses a live child exactly when a
call fails between the two.
-/

namespace KindleBridge.Launcher

open Op FileOp

structure Fault where
  error : Error
  /-- The change has been made all the same. -/
  done : Bool

/--
The launcher and its files. `live` are the children that it has started and that it has
neither seen to have exited nor terminated; `calls` counts the file calls of one operation.
-/
structure Supervisor where
  disk : Disk
  state : WatchdogState
  running : Option RunningChild
  live : List ℕ
  calls : ℕ

abbrev SupervisorM := Op Supervisor Error

namespace Supervisor

/-- Which file calls fail, by their place in the operation. -/
abbrev Faults := ℕ → FileOp → Option Fault

variable (faults : Faults) (t : Tick) {op : FileOp}

def call (op : FileOp) : SupervisorM op.Answer := fun s =>
  match faults s.calls op with
  | none =>
    (.ok (op.serve s.disk).1, { s with disk := (op.serve s.disk).2, calls := s.calls + 1 })
  | some f =>
    (.error f.error,
      { s with disk := if f.done then (op.serve s.disk).2 else s.disk, calls := s.calls + 1 })

/-- Make the calls of a script, up to the first that fails. -/
def script {α : Type} : LauncherM α → SupervisorM α
  | .done r => Op.ofExcept r
  | .call op next => call faults op >>= fun a => script (next a)

def setState (state : WatchdogState) : SupervisorM Unit :=
  Op.modify fun s => { s with state := state }

def setRunning (running : Option RunningChild) : SupervisorM Unit :=
  Op.modify fun s => { s with running := running }

def bury (child : ℕ) : SupervisorM Unit :=
  Op.modify fun s =>
    { s with live := s.live.erase child, disk := { s.disk with daemonPid := false } }

def terminate (child : ℕ) : SupervisorM Unit := do
  Op.ofExcept t.terminate
  bury child

def poll (child : ℕ) : SupervisorM ChildStatus := do
  match ← Op.ofExcept t.poll with
  | .exited => do
    bury child
    return .exited
  | .running => return .running

def spawn : SupervisorM ℕ := do
  let child ← Op.ofExcept t.spawn
  Op.modify fun s =>
    { s with live := s.live ++ [child], disk := { s.disk with daemonPid := true } }
  return child

def requestSlot (target : Slot) : SupervisorM Unit := do
  let current ← call faults .readCurrent
  if h : current = target then return ()
  else
    match ← call faults .readPending with
    | some pending =>
      if pending.target = target then return ()
      else Op.fail ⟨.invalidState, "another slot switch is still pending"⟩
    | none =>
      let _ ← script faults (validateSlot target)
      call faults (.writePending ⟨current, target, h⟩)
      call faults (.writeCurrent target)
      setState (.fresh target)
      call faults (.writeState (.fresh target))

def rollback (pending : PendingSwitch) : SupervisorM StepOutcome := do
  call faults (.writeCurrent pending.previous)
  call faults .removePending
  let state : WatchdogState := ⟨pending.previous, 0, t.laterMs, false⟩
  setState state
  call faults (.writeState state)
  return .rolledBack pending.target pending.previous

def recordCrash (m : SlotManifest) (state : WatchdogState) : SupervisorM StepOutcome :=
  if state.crashes ≥ m.maxCrashes then do
    let state := { state with halted := true }
    setState state
    call faults (.writeState state)
    return .halted state.slot state.crashes
  else do
    let state := { state with
      nextStartMs := min (t.laterMs + backoff m state.crashes) maxU64 }
    setState state
    call faults (.writeState state)
    return .backingOff state.slot state.nextStartMs

def recordFailure (m : SlotManifest) (slot : Slot) : SupervisorM StepOutcome := do
  let s ← Op.get
  let state := { s.state with slot := slot, crashes := min (s.state.crashes + 1) maxU32 }
  setState state
  match ← call faults .readPending with
  | some pending =>
    if pending.target = slot ∧ state.crashes ≥ m.maxCrashes then rollback faults t pending
    else recordCrash faults t m state
  | none => recordCrash faults t m state

def confirmHealthy (slot : Slot) : SupervisorM Unit := do
  setState (.fresh slot)
  call faults (.writeState (.fresh slot))
  match ← call faults .readPending with
  | some pending =>
    if pending.target = slot then do
      call faults (.writePrevious pending.previous)
      call faults .removePending
    else return ()
  | none => return ()

def judge (m : SlotManifest) (r : RunningChild) : Verdict → SupervisorM StepOutcome
  | .beats =>
    if r.healthy then do
      setRunning (some r)
      return .healthy r.slot r.id
    else do
      confirmHealthy faults r.slot
      setRunning (some { r with healthy := true })
      return .healthy r.slot r.id
  | .waits => do
    setRunning (some r)
    return if r.healthy then .healthy r.slot r.id else .running r.slot r.id
  | .timedOut => do
    terminate t r.id
    recordFailure faults t m r.slot

/-- Look after a child whose record has been taken out. -/
def stepRunning (r : RunningChild) : SupervisorM StepOutcome := do
  match ← call faults (.loadManifest r.slot) with
  | none => Op.fail ⟨.invalidManifest, "slot manifest is missing or invalid"⟩
  | some m =>
    match ← poll t r.id with
    | .exited => recordFailure faults t m r.slot
    | .running => do
      let heartbeat ← Op.ofExcept t.heartbeat
      judge faults t m (r.observe m t.nowMs heartbeat).1 (r.observe m t.nowMs heartbeat).2

def refuse (active : Slot) (e : Error) : SupervisorM StepOutcome := do
  match ← call faults .readPending with
  | some pending => if pending.target = active then rollback faults t pending else Op.fail e
  | none => Op.fail e

def start (active : Slot) : SupervisorM StepOutcome := do
  call faults .removeHeartbeat
  let child ← spawn t
  setRunning (some ⟨child, active, t.nowMs, t.nowMs, t.newInstance, none, none, none, false⟩)
  return .started active child

def stepStopped (active : Slot) : SupervisorM StepOutcome := do
  let s ← Op.get
  if s.state.halted then return .halted s.state.slot s.state.crashes
  else if t.nowMs < s.state.nextStartMs then
    return .backingOff s.state.slot s.state.nextStartMs
  else
    match ← (script faults (validateSlot active)).attempt with
    | .ok _ => start faults t active
    | .error e => refuse faults t active e

/-- Forget what is known of another slot. -/
def adopt (active : Slot) : SupervisorM Unit := do
  setState (.fresh active)
  call faults (.writeState (.fresh active))

def step : SupervisorM StepOutcome := do
  if ← Op.ofExcept t.disabled then
    let s ← Op.get
    match s.running with
    | some r => do
      setRunning none
      terminate t r.id
      return .disabled
    | none => return .disabled
  else
    let active ← call faults .readCurrent
    let s ← Op.get
    match s.running with
    | some r => do
      setRunning none
      if r.slot = active then stepRunning faults t r
      else do
        terminate t r.id
        adopt faults active
        stepStopped faults t active
    | none =>
      if s.state.slot = active then stepStopped faults t active
      else do
        adopt faults active
        stepStopped faults t active

/-! ## Who touches the children -/

section Children

variable {α : Type} {faults t} {s u : Supervisor}

/-- The same children, in the memory of the launcher and outside. -/
def SameChildren (s u : Supervisor) : Prop := u.running = s.running ∧ u.live = s.live

instance : IsPreorder Supervisor SameChildren where
  refl _ := ⟨rfl, rfl⟩
  trans _ _ _ h h' := ⟨h'.1.trans h.1, h'.2.trans h.2⟩

theorem run_call_of_none (h : faults s.calls op = none) : (call faults op).run s =
      (.ok (op.serve s.disk).1, { s with disk := (op.serve s.disk).2, calls := s.calls + 1 }) := by
  simp only [run, call, h]

theorem run_call_of_some {f : Fault} (h : faults s.calls op = some f) :
    (call faults op).run s = (.error f.error,
      { s with disk := if f.done then (op.serve s.disk).2 else s.disk, calls := s.calls + 1 }) := by
  simp only [run, call, h]

theorem call_same (op : FileOp) : (call faults op).Respects SameChildren := by
  intro s
  cases h : faults s.calls op with
  | none =>
    rw [run_call_of_none h]
    exact ⟨rfl, rfl⟩
  | some f =>
    rw [run_call_of_some h]
    exact ⟨rfl, rfl⟩

theorem setState_same (state : WatchdogState) : (setState state).Respects SameChildren :=
  fun _ => ⟨rfl, rfl⟩

theorem script_same (m : LauncherM α) : (script faults m).Respects SameChildren := by
  induction m with
  | done r => exact respects_ofExcept r
  | call op next ih => exact respects_bind (call_same op) ih

theorem requestSlot_same (target : Slot) : (requestSlot faults target).Respects SameChildren := by
  refine respects_bind (call_same _) fun current => ?_
  split_ifs with h
  · exact respects_pure ()
  · refine respects_bind (call_same _) fun pending => ?_
    cases pending with
    | some pending => exact respects_ite (respects_pure ()) (respects_fail _)
    | none =>
      refine respects_bind (script_same _) fun _ => ?_
      refine respects_bind (call_same _) fun _ => ?_
      refine respects_bind (call_same _) fun _ => ?_
      exact respects_bind (setState_same _) fun _ => call_same _

theorem rollback_same (pending : PendingSwitch) :
    (rollback faults t pending).Respects SameChildren := by
  refine respects_bind (call_same _) fun _ => ?_
  refine respects_bind (call_same _) fun _ => ?_
  refine respects_bind (setState_same _) fun _ => ?_
  exact respects_bind (call_same _) fun _ => respects_pure _

theorem recordCrash_same (m : SlotManifest) (state : WatchdogState) :
    (recordCrash faults t m state).Respects SameChildren := by
  have hwrite (state : WatchdogState) (outcome : StepOutcome) : (do
      setState state
      call faults (.writeState state)
      return outcome : SupervisorM StepOutcome).Respects SameChildren := by
    refine respects_bind (setState_same _) fun _ => ?_
    exact respects_bind (call_same _) fun _ => respects_pure _
  exact respects_ite (hwrite _ _) (hwrite _ _)

theorem recordFailure_same (m : SlotManifest) (slot : Slot) :
    (recordFailure faults t m slot).Respects SameChildren := by
  refine respects_get_bind fun s => ?_
  refine respects_bind (setState_same _) fun _ => ?_
  refine respects_bind (call_same _) fun pending => ?_
  cases pending with
  | some pending => exact respects_ite (rollback_same _) (recordCrash_same _ _)
  | none => exact recordCrash_same _ _

theorem confirmHealthy_same (slot : Slot) : (confirmHealthy faults slot).Respects SameChildren := by
  refine respects_bind (setState_same _) fun _ => ?_
  refine respects_bind (call_same _) fun _ => ?_
  refine respects_bind (call_same _) fun pending => ?_
  cases pending with
  | some pending =>
    exact respects_ite (respects_bind (call_same _) fun _ => call_same _) (respects_pure _)
  | none => exact respects_pure _

theorem refuse_same (active : Slot) (e : Error) :
    (refuse faults t active e).Respects SameChildren := by
  refine respects_bind (call_same _) fun pending => ?_
  cases pending with
  | some pending => exact respects_ite (rollback_same _) (respects_fail _)
  | none => exact respects_fail _

theorem adopt_same (active : Slot) : (adopt faults active).Respects SameChildren :=
  respects_bind (setState_same _) fun _ => call_same _

/-- The children are recorded: the one that runs is the one that lives. -/
def Recorded (s : Supervisor) : Prop := s.live = (s.running.map RunningChild.id).toList

def Vacant (s : Supervisor) : Prop := s.running = none ∧ s.live = []

/-- The record of the only child has been taken out. -/
def Taken (s : Supervisor) (child : ℕ) : Prop := s.running = none ∧ s.live = [child]

theorem Vacant.recorded (h : s.Vacant) : s.Recorded := by
  rw [Recorded, h.1, h.2]
  rfl

/-- A live child is left without a record. -/
def Lost (s : Supervisor) : Prop := s.running = none ∧ s.live ≠ []

theorem Taken.lost {child : ℕ} (h : s.Taken child) : s.Lost := ⟨h.1, by simp [h.2]⟩

theorem Vacant.same (h : s.Vacant) (hs : SameChildren s u) : u.Vacant :=
  ⟨hs.1.trans h.1, hs.2.trans h.2⟩

theorem Taken.same {child : ℕ} (h : s.Taken child) (hs : SameChildren s u) : u.Taken child :=
  ⟨hs.1.trans h.1, hs.2.trans h.2⟩

theorem start_recorded (active : Slot) (h : s.Vacant) :
    ((start faults t active).run s).2.Recorded := by
  unfold start
  refine bind_induction (fun e u hu => ?_) fun _ u hu => ?_
  · exact (h.same ((call_same _).of_run hu)).recorded
  · have hvacant := h.same ((call_same _).of_run hu)
    unfold spawn setRunning
    cases t.spawn with
    | error e => exact hvacant.recorded
    | ok child => simp [Recorded, hvacant.2]

theorem stepStopped_recorded (active : Slot) (h : s.Vacant) :
    ((stepStopped faults t active).run s).2.Recorded := by
  unfold stepStopped
  rw [run_get_bind]
  split_ifs
  · exact h.recorded
  · exact h.recorded
  · rw [run_attempt_bind]
    have hsame : SameChildren s ((script faults (validateSlot active)).run s).2 := script_same _ s
    have hvacant := h.same hsame
    cases ((script faults (validateSlot active)).run s).1 with
    | ok m => exact start_recorded active hvacant
    | error e => exact (hvacant.same (refuse_same active e _)).recorded

end Children

/-! ## Which steps keep the child -/

/-- All files of a confirmation can be read and written. -/
def Confirmable (d : Disk) (slot : Slot) : Prop :=
  faults 2 (.writeState (.fresh slot)) = none ∧ faults 3 .readPending = none ∧
    ∀ pending ∈ d.pending, pending.target = slot →
      faults 4 (.writePrevious pending.previous) = none ∧ faults 5 .removePending = none

/-- What has to succeed after the verdict on a child. -/
def Upheld (d : Disk) (r : RunningChild) : Verdict → Prop
  | .beats => r.healthy ∨ Confirmable faults d r.slot
  | .waits => True
  | .timedOut => t.terminate = .ok ()

/-- What has to succeed between taking the record of a child out and putting it back. -/
def LookedAfter (d : Disk) (r : RunningChild) : Prop :=
  faults 1 (.loadManifest r.slot) = none ∧ ∃ m, d.manifest r.slot = some m ∧
    (t.poll = .ok .exited ∨
      t.poll = .ok .running ∧ ∃ heartbeat, t.heartbeat = .ok heartbeat ∧
        Upheld faults t d (r.observe m t.nowMs heartbeat).1 (r.observe m t.nowMs heartbeat).2)

/-- The step accounts for the child that it takes over. -/
def Accounted (d : Disk) (r : RunningChild) : Prop :=
  match t.disabled with
  | .error _ => True
  | .ok true => t.terminate = .ok ()
  | .ok false => faults 0 .readCurrent = none →
    if r.slot = d.current then LookedAfter faults t d r else t.terminate = .ok ()

section Steps

variable {faults t} {s : Supervisor} {r : RunningChild} {m : SlotManifest}

theorem call_bind_ok_iff {α : Type} {n : ℕ} {next : op.Answer → SupervisorM α} {a : α}
    (hcalls : s.calls = n) : ((call faults op >>= next).run s).1 = .ok a ↔
      faults n op = none ∧ ((next (op.serve s.disk).1).run
        { s with disk := (op.serve s.disk).2, calls := n + 1 }).1 = .ok a := by
  subst hcalls
  cases h : faults s.calls op with
  | none =>
    rw [run_bind_of_ok (run_call_of_none h)]
    simp
  | some f =>
    rw [run_bind_of_error (run_call_of_some h)]
    simp

theorem removePending_ok_iff {n : ℕ} (hcalls : s.calls = n) :
    ((call faults .removePending).run s).1 = .ok () ↔ faults n .removePending = none := by
  subst hcalls
  cases h : faults s.calls .removePending with
  | none =>
    rw [run_call_of_none h]
    exact iff_of_true rfl rfl
  | some f =>
    rw [run_call_of_some h]
    simp

theorem confirmHealthy_ok_iff {slot : Slot} (hcalls : s.calls = 2) :
    ((confirmHealthy faults slot).run s).1 = .ok () ↔ Confirmable faults s.disk slot := by
  obtain ⟨disk, state, running, live, calls⟩ := s
  obtain rfl : calls = 2 := hcalls
  unfold confirmHealthy Confirmable setState
  rw [run_modify_bind, call_bind_ok_iff (n := 2) rfl, call_bind_ok_iff (n := 3) rfl]
  refine and_congr_right fun _ => and_congr_right fun _ => ?_
  simp only [serve]
  cases disk.pending with
  | none => simp
  | some pending =>
    simp only [run_ite, Option.mem_some_iff, forall_eq']
    split_ifs with h
    · rw [call_bind_ok_iff (n := 4) rfl, removePending_ok_iff (n := 5) rfl]
      simp [h]
    · simp [h]

/-- The child is recorded if the condition holds, and lost otherwise. -/
def Settles (p : Prop) (s : Supervisor) : Prop := p ∧ s.Recorded ∨ ¬ p ∧ s.Lost

theorem Recorded.settles {p : Prop} (h : s.Recorded) (hp : p) : Settles p s := .inl ⟨hp, h⟩

theorem Lost.settles {p : Prop} (h : s.Lost) (hp : ¬ p) : Settles p s := .inr ⟨hp, h⟩

theorem settles_congr {p q : Prop} (h : p ↔ q) : Settles p s ↔ Settles q s := by
  rw [Settles, h, Settles]

theorem terminate_settles (h : s.Taken r.id) {next : SupervisorM StepOutcome}
    (hnext : ∀ u, u.Vacant → (next.run u).2.Recorded) :
    Settles (t.terminate = .ok ()) ((terminate t r.id >>= fun _ => next).run s).2 := by
  unfold terminate
  cases t.terminate with
  | error e => exact h.lost.settles (by simp)
  | ok u =>
    have hvacant : ((bury r.id).run s).2.Vacant := ⟨h.1, by simp [bury, h.2]⟩
    exact (hnext _ hvacant).settles rfl

theorem judge_settles (faults : Faults) (t : Tick) (m : SlotManifest) (h : s.Taken r.id)
    (hcalls : s.calls = 2) (v : Verdict) :
    Settles (Upheld faults t s.disk r v) ((judge faults t m r v).run s).2 := by
  cases v with
  | beats =>
    unfold judge Upheld
    by_cases hh : r.healthy
    · rw [run_ite, if_pos hh]
      exact Recorded.settles (by simp [setRunning, Recorded, h.2]) (.inl hh)
    · rw [run_ite, if_neg hh, ← confirmHealthy_ok_iff hcalls]
      rcases hc : (confirmHealthy faults r.slot).run s with ⟨e | _, u⟩
      · have htaken := h.same ((confirmHealthy_same _).of_run hc)
        rw [run_bind_of_error hc]
        exact htaken.lost.settles (by simp [hh])
      · have htaken := h.same ((confirmHealthy_same _).of_run hc)
        rw [run_bind_of_ok hc]
        exact Recorded.settles (by simp [setRunning, Recorded, htaken.2]) (.inr rfl)
  | waits => exact Recorded.settles (by simp [judge, setRunning, Recorded, h.2]) trivial
  | timedOut =>
    exact terminate_settles h fun u hu => (hu.same (recordFailure_same _ _ u)).recorded

theorem stepRunning_settles (h : s.Taken r.id) (hcalls : s.calls = 1) :
    Settles (LookedAfter faults t s.disk r) ((stepRunning faults t r).run s).2 := by
  unfold stepRunning LookedAfter
  cases hload : faults 1 (.loadManifest r.slot) with
  | some f =>
    have hcall := run_call_of_some (hcalls ▸ hload)
    rw [run_bind_of_error hcall]
    exact (h.same ((call_same _).of_run hcall)).lost.settles (by simp)
  | none =>
    have hcall := run_call_of_none (hcalls ▸ hload)
    have htaken := h.same ((call_same _).of_run hcall)
    rw [run_bind_of_ok hcall]
    simp only [serve, true_and] at htaken ⊢
    cases s.disk.manifest r.slot with
    | none => exact htaken.lost.settles (by simp)
    | some m =>
      simp only [poll, run_bind_bind, Option.some.injEq, exists_eq_left']
      rcases hpoll : t.poll with e | _ | _
      · exact htaken.lost.settles (by simp)
      · cases hbeat : t.heartbeat with
        | error e => exact htaken.lost.settles (by simp)
        | ok heartbeat =>
          obtain ⟨-, -, hid, -⟩ := observe_keeps (r := r) (m := m) t.nowMs heartbeat
          have hjudge := judge_settles faults t m (hid ▸ htaken)
            (congrArg (· + 1) hcalls) (r.observe m t.nowMs heartbeat).2
          refine (settles_congr ?_).mp hjudge
          simp
      · have hvacant : Vacant { s with
            disk := { s.disk with daemonPid := false }, live := s.live.erase r.id,
            calls := s.calls + 1 } := ⟨h.1, by simp [h.2]⟩
        exact (hvacant.same (recordFailure_same m r.slot _)).recorded.settles (.inl rfl)

theorem adopt_recorded (active : Slot) (h : s.Vacant) :
    ((adopt faults active >>= fun _ => stepStopped faults t active).run s).2.Recorded := by
  refine bind_induction (fun e u hu => ?_) fun _ u hu => ?_
  · exact (h.same ((adopt_same _).of_run hu)).recorded
  · exact stepStopped_recorded active (h.same ((adopt_same _).of_run hu))

theorem step_recorded (h : s.Vacant) : ((step faults t).run s).2.Recorded := by
  unfold step
  rw [run_ofExcept_bind]
  rcases t.disabled with e | _ | _
  · exact h.recorded
  · refine bind_induction (fun e u hu => ?_) fun active u hu => ?_
    · exact (h.same ((call_same _).of_run hu)).recorded
    · have hvacant := h.same ((call_same _).of_run hu)
      rw [run_get_bind, hvacant.1]
      simp only [run_ite]
      split_ifs
      · exact stepStopped_recorded active hvacant
      · exact adopt_recorded active hvacant
  · simp [h.1, h.recorded]

theorem step_settles (faults : Faults) (t : Tick) (hrunning : s.running = some r)
    (h : s.Recorded) (hcalls : s.calls = 0) :
    Settles (Accounted faults t s.disk r) ((step faults t).run s).2 := by
  have hlive : s.live = [r.id] := by simpa [Recorded, hrunning] using h
  unfold step Accounted
  rw [run_ofExcept_bind]
  rcases t.disabled with e | _ | _
  · exact h.settles trivial
  · cases hpointer : faults 0 .readCurrent with
    | some f =>
      have hcall := run_call_of_some (hcalls ▸ hpointer)
      simp only [Bool.false_eq_true, if_false]
      rw [run_bind_of_error hcall]
      exact Recorded.settles h (by simp)
    | none =>
      have hcall := run_call_of_none (hcalls ▸ hpointer)
      simp only [Bool.false_eq_true, if_false, forall_const]
      rw [run_bind_of_ok hcall]
      simp only [run_get_bind, hrunning, setRunning, run_modify_bind, run_ite]
      have hactive : (serve .readCurrent s.disk).1 = s.disk.current := rfl
      have htaken : Taken { s with running := none, calls := s.calls + 1 } r.id := ⟨rfl, hlive⟩
      by_cases hslot : r.slot = s.disk.current
      · rw [if_pos (hslot.trans hactive.symm), if_pos hslot]
        exact stepRunning_settles htaken (congrArg (· + 1) hcalls)
      · rw [if_neg hslot, if_neg (hactive ▸ hslot)]
        exact terminate_settles htaken fun u hu => adopt_recorded _ hu
  · simp only [if_true, run_get_bind, hrunning, setRunning, run_modify_bind]
    have htaken : Taken { s with running := none } r.id := ⟨rfl, hlive⟩
    exact terminate_settles htaken fun u hu => hu.recorded

end Steps

/-! ## Runs -/

inductive Operation
  | request (target : Slot) (faults : Faults)
  | tick (t : Tick) (faults : Faults)

/-- The launcher after an operation, whether it has succeeded or failed. -/
def perform (s : Supervisor) : Operation → Supervisor
  | .request target faults => ((requestSlot faults target).run { s with calls := 0 }).2
  | .tick t faults => ((step faults t).run { s with calls := 0 }).2

def opened (disk : Disk) (state : WatchdogState) : Supervisor := ⟨disk, state, none, [], 0⟩

/-- A step accounts for the child of the launcher, if it has one. -/
def Cares (s : Supervisor) : Operation → Prop
  | .request _ _ => True
  | .tick t faults => ∀ r ∈ s.running, Accounted faults t s.disk r

/-- Every live child is recorded, and there is at most one. -/
def Supervised (s : Supervisor) : Prop :=
  (∀ child ∈ s.live, ∃ r ∈ s.running, r.id = child) ∧ s.live.length ≤ 1

variable {s : Supervisor}

theorem Recorded.supervised (h : s.Recorded) : s.Supervised := by
  unfold Supervised
  rw [h]
  cases s.running <;> simp

theorem Lost.not_supervised (h : s.Lost) : ¬ s.Supervised := by
  rintro ⟨hall, -⟩
  obtain ⟨child, hchild⟩ := List.exists_mem_of_ne_nil _ h.2
  obtain ⟨r, hr, -⟩ := hall child hchild
  rw [h.1] at hr
  cases hr

theorem perform_settles (h : s.Recorded) (a : Operation) : Settles (s.Cares a) (s.perform a) := by
  cases a with
  | request target faults =>
    have hsame : SameChildren s (s.perform (.request target faults)) := requestSlot_same target _
    refine Recorded.settles ?_ trivial
    unfold Recorded
    rw [hsame.1, hsame.2]
    exact h
  | tick t faults =>
    cases hrunning : s.running with
    | none =>
      have hvacant : Vacant { s with calls := 0 } :=
        ⟨hrunning, by simpa [Recorded, hrunning] using h⟩
      exact (step_recorded hvacant).settles (by simp [Cares, hrunning])
    | some r =>
      have hstep := step_settles faults t (s := { s with calls := 0 }) hrunning h rfl
      exact (settles_congr (by simp [Cares, hrunning])).mp hstep

/--
No live child is ever without a record, and there is never more than one, exactly when in
every step of the launcher all goes well between taking the record out and putting it back.
-/
theorem child_never_lost (disk : Disk) (state : WatchdogState) (run : List Operation) :
    (∀ n, ((run.take n).foldl perform (opened disk state)).Supervised) ↔
      Along perform Cares (opened disk state) run := by
  refine (Along.of_forall (P := fun _ _ => True) fun _ _ _ => trivial).forall_take_iff
    (I := fun s => s.Supervised → s.Recorded) (fun _ => rfl) (Recorded.supervised rfl) ?_
  intro s a hi hb _
  obtain ⟨hcares, hrecorded⟩ | ⟨hcares, hlost⟩ := perform_settles (hi hb) a
  · exact ⟨fun _ => hrecorded, iff_of_true hrecorded.supervised hcares⟩
  · exact ⟨fun h => absurd h hlost.not_supervised, iff_of_false hlost.not_supervised hcares⟩

def sure : Faults := fun _ _ => none

/-- A daemon is started, a poll of it fails, and the next step starts a second one. -/
theorem failed_poll_loses_child :
    let blind : Tick := { sampleTick 200 none with poll := .error ⟨.child, "poll failed"⟩ }
    let s := [Operation.tick (sampleTick 100 none) sure, .tick blind sure,
      .tick { sampleTick 300 none with spawn := .ok 2 } sure].foldl perform
        (opened sampleDisk (.fresh .a))
    s.live = [1, 2] ∧ s.running.map RunningChild.id = some 2 ∧ ¬ s.Supervised := by
  intro blind s
  have hlive : s.live = [1, 2] := by decide +kernel
  refine ⟨hlive, by decide +kernel, ?_⟩
  rintro ⟨-, hlength⟩
  rw [hlive] at hlength
  simp at hlength

/-! ## Without failing file calls -/

section Agreement

variable {t} {state : WatchdogState} {r : RunningChild} {m : SlotManifest}

/-- The launcher does what the script does, and remembers what the script returns. -/
def Agrees {α : Type} (op : SupervisorM α) (script : LauncherM (α × Memory))
    (s : Supervisor) : Prop :=
  match script.run FileOp.serve s.disk with
  | (.ok (outcome, mem), d) =>
    (op.run s).1 = .ok outcome ∧ (op.run s).2.disk = d ∧ (op.run s).2.state = mem.state ∧
      (op.run s).2.running = mem.running
  | (.error e, d) => (op.run s).1 = .error e ∧ (op.run s).2.disk = d

theorem Agrees.call {f : op.Answer → SupervisorM StepOutcome}
    {g : op.Answer → LauncherM (StepOutcome × Memory)}
    (h : Agrees (f (op.serve s.disk).1) (g (op.serve s.disk).1)
      { s with disk := (op.serve s.disk).2, calls := s.calls + 1 }) :
    Agrees (Supervisor.call sure op >>= f) (file op >>= g) s := h

theorem Agrees.get_bind {f : Supervisor → SupervisorM StepOutcome}
    {script : LauncherM (StepOutcome × Memory)} (h : Agrees (f s) script s) :
    Agrees (get >>= f) script s := h

theorem Agrees.setState_bind {f : Unit → SupervisorM StepOutcome}
    {script : LauncherM (StepOutcome × Memory)}
    (h : Agrees (f ()) script { s with state := state }) :
    Agrees (setState state >>= f) script s := h

theorem rollback_agrees (pending : PendingSwitch) (hrunning : s.running = none) :
    Agrees (rollback sure t pending) (Launcher.rollback t pending) s :=
  ⟨rfl, rfl, rfl, hrunning⟩

theorem recordCrash_agrees (hrunning : s.running = none) :
    Agrees (recordCrash sure t m state) (Launcher.recordCrash t m state) s := by
  unfold recordCrash Launcher.recordCrash
  split_ifs <;> exact ⟨rfl, rfl, rfl, hrunning⟩

theorem recordFailure_agrees (slot : Slot) (hrunning : s.running = none) :
    Agrees (recordFailure sure t m slot) (Launcher.recordFailure t m slot s.state) s := by
  unfold recordFailure Launcher.recordFailure
  refine .get_bind (.setState_bind (.call ?_))
  simp only [serve]
  cases s.disk.pending with
  | none => exact recordCrash_agrees hrunning
  | some pending =>
    dsimp only
    split_ifs
    · exact rollback_agrees pending hrunning
    · exact recordCrash_agrees hrunning

theorem script_agrees {α : Type} (m : LauncherM α) (s : Supervisor) :
    ((script sure m).run s).2.state = s.state ∧ m.run serve s.disk =
        (((script sure m).run s).1, ((script sure m).run s).2.disk) := by
  induction m generalizing s with
  | done r => exact ⟨rfl, rfl⟩
  | call op next ih => exact ih _ { s with disk := (op.serve s.disk).2, calls := s.calls + 1 }

theorem confirmHealthy_agrees (slot : Slot) (s : Supervisor) :
    ((confirmHealthy sure slot).run s).1 = .ok () ∧
      ((confirmHealthy sure slot).run s).2.state = .fresh slot ∧
      (Launcher.confirmHealthy slot).run serve s.disk =
        (.ok (.fresh slot), ((confirmHealthy sure slot).run s).2.disk) := by
  obtain ⟨⟨current, pending, previous, saved, next, manifest, executable, pid⟩, state⟩ := s
  cases pending with
  | none => exact ⟨rfl, rfl, rfl⟩
  | some pending =>
    obtain ⟨previous, target, hdiffer⟩ := pending
    cases slot <;> cases target <;> exact ⟨rfl, rfl, rfl⟩

theorem judge_agrees (hrunning : s.running = none) (v : Verdict) :
    Agrees (judge sure t m r v) (Launcher.judge t m s.state r v) s := by
  cases v with
  | beats =>
    unfold judge Launcher.judge
    split_ifs with hh
    · exact ⟨rfl, rfl, rfl, rfl⟩
    · obtain ⟨hok, hstate, hscript⟩ := confirmHealthy_agrees r.slot s
      obtain ⟨u, hrun⟩ := ok_iff_exists.mp hok
      rw [hrun] at hstate hscript
      unfold Agrees
      rw [run_bind_of_ok hrun, Script.run_bind_of_ok hscript]
      exact ⟨rfl, rfl, hstate, rfl⟩
  | waits =>
    unfold judge Launcher.judge
    split_ifs <;> exact ⟨rfl, rfl, rfl, rfl⟩
  | timedOut =>
    unfold judge Launcher.judge terminate stopChild
    cases t.terminate with
    | error e => exact ⟨rfl, rfl⟩
    | ok u =>
      exact recordFailure_agrees (s := { s with
        live := s.live.erase r.id, disk := { s.disk with daemonPid := false } }) r.slot hrunning

theorem stepRunning_agrees (hrunning : s.running = none) :
    Agrees (stepRunning sure t r) (Launcher.stepRunning t s.state r) s := by
  unfold stepRunning Launcher.stepRunning
  refine .call ?_
  simp only [serve]
  cases s.disk.manifest r.slot with
  | none => exact ⟨rfl, rfl⟩
  | some m =>
    unfold poll
    rcases t.poll with e | _ | _
    · exact ⟨rfl, rfl⟩
    · cases t.heartbeat with
      | error e => exact ⟨rfl, rfl⟩
      | ok heartbeat =>
        exact judge_agrees (s := { s with calls := s.calls + 1 }) hrunning _
    · exact recordFailure_agrees (s := { s with
        live := s.live.erase r.id, disk := { s.disk with daemonPid := false },
        calls := s.calls + 1 }) r.slot hrunning

theorem refuse_agrees (active : Slot) (e : Error) (hrunning : s.running = none) :
    Agrees (refuse sure t active e) (Launcher.refuse t active e) s := by
  unfold refuse Launcher.refuse
  refine .call ?_
  simp only [serve]
  cases s.disk.pending with
  | none => exact ⟨rfl, rfl⟩
  | some pending =>
    dsimp only
    split_ifs
    · exact rollback_agrees pending hrunning
    · exact ⟨rfl, rfl⟩

theorem start_agrees (active : Slot) :
    Agrees (start sure t active) (Launcher.start t active s.state) s := by
  unfold start Launcher.start spawn
  cases t.spawn with
  | error e => exact ⟨rfl, rfl⟩
  | ok child => exact ⟨rfl, rfl, rfl, rfl⟩

theorem stepStopped_agrees (active : Slot) (hrunning : s.running = none) :
    Agrees (stepStopped sure t active) (Launcher.stepStopped t active s.state) s := by
  unfold stepStopped Launcher.stepStopped
  refine .get_bind ?_
  split_ifs
  · exact ⟨rfl, rfl, rfl, hrunning⟩
  · exact ⟨rfl, rfl, rfl, hrunning⟩
  · obtain ⟨hstate, hscript⟩ := script_agrees (validateSlot active) s
    have hsame : SameChildren s ((script sure (validateSlot active)).run s).2 := script_same _ s
    have hnone := hsame.1.trans hrunning
    unfold Agrees
    rw [run_attempt_bind, Script.run_bind_of_ok (Script.run_attempt ..), hscript, ← hstate]
    cases ((script sure (validateSlot active)).run s).1 with
    | ok m => exact start_agrees active
    | error e => exact refuse_agrees active e hnone

/-- Without failing file calls, a step is the script that the other results are about. -/
theorem step_agrees (s : Supervisor) :
    Agrees (step sure t) (Launcher.step t ⟨s.state, s.running⟩) s := by
  obtain ⟨⟨current, pending, previous, saved, next, manifest, executable, pid⟩,
    ⟨slot, crashes, nextStartMs, halted⟩, running, live, calls⟩ := s
  unfold step Launcher.step
  rcases t.disabled with e | _ | _
  · exact ⟨rfl, rfl⟩
  · cases running with
    | none =>
      -- The comparison of two slots computes in each of the four cases.
      cases slot <;> cases current <;>
        exact stepStopped_agrees (s := ⟨⟨_, pending, previous, _, next, manifest, executable, pid⟩,
          ⟨_, _, _, _⟩, none, live, _⟩) _ rfl
    | some r =>
      obtain ⟨id, slot', startedMs, lastPollMs, instance', stamp, first, last, healthy⟩ := r
      have hother (current : Slot) :
          Agrees (do
            terminate t id
            adopt sure current
            stepStopped sure t current) (do
            stopChild t
            file (.writeState (.fresh current))
            Launcher.stepStopped t current (.fresh current))
          ⟨⟨current, pending, previous, saved, next, manifest, executable, pid⟩,
            ⟨slot, crashes, nextStartMs, halted⟩, none, live, calls + 1⟩ := by
        unfold terminate stopChild
        cases t.terminate with
        | error e => exact ⟨rfl, rfl⟩
        | ok u => exact stepStopped_agrees (s := ⟨⟨_, _, _, _, _, _, _, _⟩, _, none, _, _⟩) _ rfl
      cases slot' <;> cases current
      · exact stepRunning_agrees (s := ⟨_, _, none, _, _⟩) rfl
      · exact hother .b
      · exact hother .a
      · exact stepRunning_agrees (s := ⟨_, _, none, _, _⟩) rfl
  · cases running with
    | none => exact ⟨rfl, rfl, rfl, rfl⟩
    | some r =>
      unfold terminate stopChild
      cases t.terminate with
      | error e => exact ⟨rfl, rfl⟩
      | ok u => exact ⟨rfl, rfl, rfl, rfl⟩

theorem switch_agrees {current target : Slot} (hne : current ≠ target) (s : Supervisor) :
    Agrees (do
      let _ ← script sure (validateSlot target)
      call sure (.writePending ⟨current, target, hne⟩)
      call sure (.writeCurrent target)
      setState (.fresh target)
      call sure (.writeState (.fresh target))) ((do
      let _ ← validateSlot target
      file (.writePending ⟨current, target, hne⟩)
      file (.writeCurrent target)
      file (.writeState (.fresh target))
      return ⟨.fresh target, s.running⟩) >>= fun mem => pure ((), mem)) s := by
  obtain ⟨-, hscript⟩ := script_agrees (validateSlot target) s
  have hsame : SameChildren s ((script sure (validateSlot target)).run s).2 := script_same _ s
  unfold Agrees
  rcases hrun : (script sure (validateSlot target)).run s with ⟨e | m, u⟩
  · rw [hrun] at hscript
    rw [Script.run_bind_of_error (Script.run_bind_of_error hscript), run_bind_of_error hrun]
    exact ⟨rfl, rfl⟩
  · rw [hrun] at hscript hsame
    rw [Script.run_bind, Script.run_bind_of_ok hscript, run_bind_of_ok hrun]
    exact ⟨rfl, rfl, rfl, hsame.1⟩

theorem requestSlot_agrees (target : Slot) (s : Supervisor) :
    Agrees (requestSlot sure target)
      (Launcher.requestSlot target ⟨s.state, s.running⟩ >>= fun mem => pure ((), mem)) s := by
  obtain ⟨⟨current, pending, previous, saved, next, manifest, executable, pid⟩,
    state, running, live, calls⟩ := s
  cases pending with
  | some pending =>
    obtain ⟨_, pendingTarget, _⟩ := pending
    cases current <;> cases target <;> cases pendingTarget <;>
      first | exact ⟨rfl, rfl, rfl, rfl⟩ | exact ⟨rfl, rfl⟩
  | none =>
    cases current <;> cases target
    · exact ⟨rfl, rfl, rfl, rfl⟩
    · exact switch_agrees (show Slot.a ≠ .b by decide)
        ⟨⟨.a, none, previous, saved, next, manifest, executable, pid⟩, state, running, live,
          calls + 2⟩
    · exact switch_agrees (show Slot.b ≠ .a by decide)
        ⟨⟨.b, none, previous, saved, next, manifest, executable, pid⟩, state, running, live,
          calls + 2⟩
    · exact ⟨rfl, rfl, rfl, rfl⟩

end Agreement

end Supervisor

end KindleBridge.Launcher
