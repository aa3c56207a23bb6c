import KindleBridge.Foundations.Changes
import KindleBridge.Launcher.Watchdog

/-! # What a step of the launcher does

Each function of the launcher changes a few files in a fixed order. The relations of this
module list these changes with the cases in which they are made, so that nothing else has
to look into the functions again.
-/

namespace KindleBridge.Launcher

open Script FileOp List

def FileOp.reads : FileOp → Bool
  | .readCurrent | .readPending | .readPrevious | .readState | .readNext => true
  | .loadManifest _ | .statExecutable _ | .statDaemonPid => true
  | _ => false

theorem FileOp.serve_of_reads (op : FileOp) (d : Disk) (h : op.reads) : (op.serve d).2 = d := by
  cases op <;> first | rfl | cases h

abbrev changed {α : Type} (m : LauncherM α) (d : Disk) : List FileOp :=
  m.changes FileOp.serve FileOp.reads d

abbrev returned {α : Type} (m : LauncherM α) (d : Disk) : Except Error α :=
  (m.run FileOp.serve d).1

/-- The slot can be started. -/
def Disk.Valid (d : Disk) (slot : Slot) : Prop :=
  (d.manifest slot).isSome ∧ (d.executable slot).isSome

/-- The switch that is pending leads to the slot. -/
def Disk.Tries (d : Disk) (slot : Slot) (pending : PendingSwitch) : Prop :=
  d.pending = some pending ∧ pending.target = slot

def rollbackChanges (t : Tick) (pending : PendingSwitch) : List FileOp :=
  [.writeCurrent pending.previous, .removePending,
    .writeState ⟨pending.previous, 0, t.laterMs, false⟩]

def rolledBack (t : Tick) (pending : PendingSwitch) : StepOutcome × Memory :=
  (.rolledBack pending.target pending.previous, ⟨⟨pending.previous, 0, t.laterMs, false⟩, none⟩)

def WatchdogState.crashed (slot : Slot) (state : WatchdogState) : WatchdogState :=
  { state with slot := slot, crashes := min (state.crashes + 1) maxU32 }

/-- What is done about a failure of the slot. -/
inductive Failure (t : Tick) (m : SlotManifest) (slot : Slot) (state : WatchdogState) (d : Disk) :
    List FileOp → Except Error (StepOutcome × Memory) → Prop
  | rollsBack {pending : PendingSwitch} (tries : d.Tries slot pending)
      (many : m.maxCrashes ≤ (state.crashed slot).crashes) :
      Failure t m slot state d (rollbackChanges t pending) (.ok (rolledBack t pending))
  | halts (rests : ∀ pending, ¬ d.Tries slot pending)
      (many : m.maxCrashes ≤ (state.crashed slot).crashes) :
      Failure t m slot state d [.writeState { state.crashed slot with halted := true }]
        (.ok (.halted slot (state.crashed slot).crashes,
          ⟨{ state.crashed slot with halted := true }, none⟩))
  | waits (nextStartMs : ℕ) (few : (state.crashed slot).crashes < m.maxCrashes) :
      Failure t m slot state d [.writeState { state.crashed slot with nextStartMs := nextStartMs }]
        (.ok (.backingOff slot nextStartMs,
          ⟨{ state.crashed slot with nextStartMs := nextStartMs }, none⟩))

inductive Stopped (t : Tick) (active : Slot) (state : WatchdogState) (d : Disk) :
    List FileOp → Except Error (StepOutcome × Memory) → Prop
  | halted (halted : state.halted) :
      Stopped t active state d [] (.ok (.halted state.slot state.crashes, ⟨state, none⟩))
  | waits : Stopped t active state d []
      (.ok (.backingOff state.slot state.nextStartMs, ⟨state, none⟩))
  | starts {child : ℕ} (spawn : t.spawn = .ok child) (valid : d.Valid active) :
      Stopped t active state d [.removeHeartbeat, .writeDaemonPid] (.ok (.started active child,
        ⟨state, some ⟨child, active, t.nowMs, t.nowMs, t.newInstance, none, none, none, false⟩⟩))
  | unborn {e : Error} (spawn : t.spawn = .error e) (awake : ¬ state.halted)
      (due : state.nextStartMs ≤ t.nowMs) (valid : d.Valid active) :
      Stopped t active state d [.removeHeartbeat] (.error e)
  | rollsBack {pending : PendingSwitch} (tries : d.Tries active pending) :
      Stopped t active state d (rollbackChanges t pending) (.ok (rolledBack t pending))
  | fails {e : Error} (invalid : ¬ d.Valid active) : Stopped t active state d [] (.error e)

/-- What is done about a child that runs the active slot. -/
inductive Watched (t : Tick) (state : WatchdogState) (r : RunningChild) (d : Disk) :
    List FileOp → Except Error (StepOutcome × Memory) → Prop
  | blind {e : Error} (reason : d.manifest r.slot = none ∨ ¬ t.poll.isOk ∨
        t.poll = .ok .running ∧ ¬ t.heartbeat.isOk ∨ ¬ t.terminate.isOk) :
      Watched t state r d [] (.error e)
  | exits {m : SlotManifest} {ops : List FileOp} {result : Except Error (StepOutcome × Memory)}
      (manifest : d.manifest r.slot = some m) (exited : t.poll = .ok .exited)
      (failure : Failure t m r.slot state d ops result) :
      Watched t state r d (.removeDaemonPid :: ops) result
  | silent {m : SlotManifest} {heartbeat : Option Heartbeat} {ops : List FileOp}
      {result : Except Error (StepOutcome × Memory)}
      (manifest : d.manifest r.slot = some m) (running : t.poll = .ok .running)
      (seen : t.heartbeat = .ok heartbeat)
      (verdict : (r.observe m t.nowMs heartbeat).2 = .timedOut)
      (failure : Failure t m r.slot state d ops result) :
      Watched t state r d (.removeDaemonPid :: ops) result
  | runs {m : SlotManifest} {heartbeat : Option Heartbeat} {outcome : StepOutcome}
      (manifest : d.manifest r.slot = some m) (running : t.poll = .ok .running)
      (seen : t.heartbeat = .ok heartbeat)
      (verdict : (r.observe m t.nowMs heartbeat).2 = .waits ∨
        (r.observe m t.nowMs heartbeat).2 = .beats ∧ r.healthy)
      (outcomes : ∀ slot crashes, outcome ≠ .halted slot crashes)
      (older : ∀ slot child, outcome ≠ .started slot child) :
      Watched t state r d [] (.ok (outcome, ⟨state, some (r.observe m t.nowMs heartbeat).1⟩))
  | confirms {m : SlotManifest} {heartbeat : Option Heartbeat} {ops : List FileOp}
      (manifest : d.manifest r.slot = some m) (running : t.poll = .ok .running)
      (seen : t.heartbeat = .ok heartbeat)
      (verdict : (r.observe m t.nowMs heartbeat).2 = .beats) (young : ¬ r.healthy)
      (changes : (ops = [.writeState (.fresh r.slot)] ∧ ∀ pending, ¬ d.Tries r.slot pending) ∨
        ∃ pending, d.Tries r.slot pending ∧
          ops = [.writeState (.fresh r.slot), .writePrevious pending.previous, .removePending]) :
      Watched t state r d ops (.ok (.healthy r.slot r.id,
        ⟨.fresh r.slot, some { (r.observe m t.nowMs heartbeat).1 with healthy := true }⟩))

inductive Deed (t : Tick) (mem : Memory) (d : Disk) :
    List FileOp → Except Error (StepOutcome × Memory) → Prop
  | blind {e : Error} (reason : ¬ t.disabled.isOk ∨ ¬ t.terminate.isOk) :
      Deed t mem d [] (.error e)
  | disabled {ops : List FileOp} (disabled : t.disabled = .ok true)
      (quiet : ops = [] ∨ ops = [.removeDaemonPid]) :
      Deed t mem d ops (.ok (.disabled, { mem with running := none }))
  | watched {r : RunningChild} {ops : List FileOp}
      {result : Except Error (StepOutcome × Memory)} (enabled : t.disabled = .ok false)
      (running : mem.running = some r) (active : r.slot = d.current)
      (watched : Watched t mem.state r d ops result) :
      Deed t mem d ops result
  | replaces {r : RunningChild} {ops : List FileOp}
      {result : Except Error (StepOutcome × Memory)} (running : mem.running = some r)
      (inactive : r.slot ≠ d.current)
      (stopped : Stopped t d.current (.fresh d.current) d ops result) :
      Deed t mem d (.removeDaemonPid :: .writeState (.fresh d.current) :: ops) result
  | adopts {ops : List FileOp} {result : Except Error (StepOutcome × Memory)}
      (idle : mem.running = none) (foreign : mem.state.slot ≠ d.current)
      (stopped : Stopped t d.current (.fresh d.current) d ops result) :
      Deed t mem d (.writeState (.fresh d.current) :: ops) result
  | goesOn {ops : List FileOp} {result : Except Error (StepOutcome × Memory)}
      (idle : mem.running = none) (own : mem.state.slot = d.current)
      (stopped : Stopped t d.current mem.state d ops result) : Deed t mem d ops result

/-! ## The functions do what the relations say -/

section Cases

variable {t : Tick} {m : SlotManifest} {slot active : Slot} {state : WatchdogState}
  {r : RunningChild} {mem : Memory} {d d' : Disk} {ops : List FileOp}
  {result : Except Error (StepOutcome × Memory)} {op : FileOp}

theorem Failure.of_pending_eq (h : Failure t m slot state d' ops result)
    (hp : d'.pending = d.pending) : Failure t m slot state d ops result := by
  cases h with
  | rollsBack tries many => exact .rollsBack ⟨hp ▸ tries.1, tries.2⟩ many
  | halts rests many => exact .halts (fun q hq => rests q ⟨hp ▸ hq.1, hq.2⟩) many
  | waits nextStartMs few => exact .waits nextStartMs few

theorem Stopped.of_slots_eq (h : Stopped t active state d' ops result)
    (hp : d'.pending = d.pending) (hm : d'.manifest = d.manifest)
    (he : d'.executable = d.executable) : Stopped t active state d ops result := by
  have hvalid : d'.Valid active ↔ d.Valid active := by rw [Disk.Valid, Disk.Valid, hm, he]
  cases h with
  | halted halted => exact .halted halted
  | waits => exact .waits
  | starts spawn valid => exact .starts spawn (hvalid.mp valid)
  | unborn spawn awake due valid => exact .unborn spawn awake due (hvalid.mp valid)
  | rollsBack tries => exact .rollsBack ⟨hp ▸ tries.1, tries.2⟩
  | fails invalid => exact .fails (mt hvalid.mpr invalid)

theorem recordCrash_halts (h : m.maxCrashes ≤ state.crashes) :
    changed (recordCrash t m state) d = [.writeState { state with halted := true }] ∧
      returned (recordCrash t m state) d =
        .ok (.halted state.slot state.crashes, ⟨{ state with halted := true }, none⟩) := by
  rw [recordCrash, if_pos h]
  exact ⟨rfl, rfl⟩

theorem recordCrash_waits (h : state.crashes < m.maxCrashes) : ∃ nextStartMs,
    changed (recordCrash t m state) d = [.writeState { state with nextStartMs := nextStartMs }] ∧
      returned (recordCrash t m state) d = .ok (.backingOff state.slot nextStartMs,
        ⟨{ state with nextStartMs := nextStartMs }, none⟩) := by
  rw [recordCrash, if_neg (Nat.not_le.mpr h)]
  exact ⟨_, rfl, rfl⟩

theorem recordFailure_eq : recordFailure t m slot state = (do
    match ← file .readPending with
    | some pending =>
      if pending.target = slot ∧ (state.crashed slot).crashes ≥ m.maxCrashes then
        rollback t pending
      else recordCrash t m (state.crashed slot)
    | none => recordCrash t m (state.crashed slot)) := rfl

theorem recordFailure_cases : Failure t m slot state d
    (changed (recordFailure t m slot state) d) (returned (recordFailure t m slot state) d) := by
  have hcrash (hrests : m.maxCrashes ≤ (state.crashed slot).crashes →
      ∀ pending, ¬ d.Tries slot pending) : Failure t m slot state d
        (changed (recordCrash t m (state.crashed slot)) d)
        (returned (recordCrash t m (state.crashed slot)) d) := by
    rcases Nat.lt_or_ge (state.crashed slot).crashes m.maxCrashes with hfew | hmany
    · obtain ⟨nextStartMs, hops, hresult⟩ := recordCrash_waits (t := t) (d := d) hfew
      rw [hops, hresult]
      exact .waits nextStartMs hfew
    · obtain ⟨hops, hresult⟩ := recordCrash_halts (t := t) (d := d) hmany
      rw [hops, hresult]
      exact .halts (hrests hmany) hmany
  rw [recordFailure_eq]
  cases hp : d.pending with
  | none =>
    simp only [changed, returned, file, changes_perform_bind, run_perform_bind, serve,
      reads, hp, if_true]
    exact hcrash fun _ q hq => by simp [Disk.Tries, hp] at hq
  | some pending =>
    simp only [changed, returned, file, changes_perform_bind, run_perform_bind, serve,
      reads, hp, if_true]
    split_ifs with h
    · exact .rollsBack ⟨hp, h.1⟩ h.2
    · refine hcrash fun hmany q hq => h ⟨?_, hmany⟩
      obtain rfl : pending = q := Option.some.inj (hp.symm.trans hq.1)
      exact hq.2

theorem validateSlot_cases (slot : Slot) (d : Disk) : changed (validateSlot slot) d = [] ∧
    ((∃ m, returned (validateSlot slot) d = .ok m ∧ d.manifest slot = some m ∧ d.Valid slot) ∨
      ∃ e, returned (validateSlot slot) d = .error e ∧ ¬ d.Valid slot) := by
  cases hm : d.manifest slot with
  | none =>
    simp [changed, returned, validateSlot, file, serve, reads, Disk.Valid, hm]
  | some m =>
    cases he : d.executable slot <;>
      simp [changed, returned, validateSlot, file, serve, reads, Disk.Valid, hm, he]

theorem run_eq_of_changed_nil {α : Type} {script : LauncherM α} (h : changed script d = []) :
    script.run serve d = (returned script d, d) := by
  have hafter := run_eq_after (m := script) (s := d) serve_of_reads
  rw [show script.changes serve reads d = [] from h] at hafter
  exact Prod.ext rfl hafter

theorem stepStopped_cases (t : Tick) (active : Slot) (state : WatchdogState) (d : Disk) :
    Stopped t active state d (changed (stepStopped t active state) d)
      (returned (stepStopped t active state) d) := by
  unfold stepStopped
  split_ifs with hhalted hwaits
  · exact .halted hhalted
  · exact .waits
  · obtain ⟨hnone, hvalid⟩ := validateSlot_cases active d
    have hrun : ((validateSlot active).attempt : LauncherM _).run serve d =
        (.ok (returned (validateSlot active) d), d) := by
      rw [run_attempt, run_eq_of_changed_nil hnone]
    have hchanged : changed ((validateSlot active).attempt : LauncherM _) d = [] :=
      changes_attempt.trans hnone
    simp only [changed, returned, changes_bind_of_ok hrun, run_bind_of_ok hrun]
    rw [show (validateSlot active).attempt.changes serve reads d = [] from hchanged, nil_append]
    rcases hvalid with ⟨m, hok, -, hvalid⟩ | ⟨e, herror, hinvalid⟩
    · simp only [returned] at hok
      simp only [hok]
      cases hspawn : t.spawn with
      | ok child => simpa [start, file, hspawn, reads] using Stopped.starts hspawn hvalid
      | error e =>
        simpa [start, file, hspawn, reads] using
          Stopped.unborn hspawn hhalted (Nat.not_lt.mp hwaits) hvalid
    · simp only [returned] at herror
      simp only [herror, refuse, file, changes_perform_bind, run_perform_bind, serve,
        reads, if_true]
      cases hp : d.pending with
      | none => exact .fails hinvalid
      | some pending =>
        simp only
        split_ifs with htarget
        · exact .rollsBack ⟨hp, htarget⟩
        · exact .fails hinvalid

theorem confirmHealthy_cases (slot : Slot) (d : Disk) : ∃ ops,
    changed (confirmHealthy slot) d = ops ∧ returned (confirmHealthy slot) d = .ok (.fresh slot) ∧
      ((ops = [.writeState (.fresh slot)] ∧ ∀ pending, ¬ d.Tries slot pending) ∨
        ∃ pending, d.Tries slot pending ∧
          ops = [.writeState (.fresh slot), .writePrevious pending.previous, .removePending]) := by
  refine ⟨_, rfl, ?_⟩
  simp only [changed, returned, confirmHealthy, file, changes_perform_bind, run_perform_bind,
    serve, reads, if_true, Bool.false_eq_true, if_false]
  cases hp : d.pending with
  | none => exact ⟨rfl, .inl ⟨rfl, fun q hq => by simp [Disk.Tries, hp] at hq⟩⟩
  | some pending =>
    simp only
    split_ifs with htarget
    · exact ⟨rfl, .inr ⟨pending, ⟨hp, htarget⟩, rfl⟩⟩
    · refine ⟨rfl, .inl ⟨rfl, fun q hq => htarget ?_⟩⟩
      obtain rfl : pending = q := Option.some.inj (hp.symm.trans hq.1)
      exact hq.2

theorem resync_keeps (now : ℕ) : (r.resync m now).healthy = r.healthy ∧
    (r.resync m now).slot = r.slot ∧ (r.resync m now).id = r.id ∧
      (r.resync m now).instance' = r.instance' := by
  unfold RunningChild.resync
  split_ifs <;> simp

theorem observe_keeps (now : ℕ) (heartbeat : Option Heartbeat) :
    (r.observe m now heartbeat).1.healthy = r.healthy ∧
      (r.observe m now heartbeat).1.slot = r.slot ∧ (r.observe m now heartbeat).1.id = r.id ∧
        (r.observe m now heartbeat).1.instance' = r.instance' := by
  have hkeeps := resync_keeps (r := r) (m := m) now
  simp only [RunningChild.observe]
  split
  all_goals
    split_ifs <;> exact hkeeps

theorem stepRunning_cases : Watched t state r d
    (changed (stepRunning t state r) d) (returned (stepRunning t state r) d) := by
  simp only [changed, returned, stepRunning, file, changes_perform_bind, run_perform_bind,
    serve, reads, if_true]
  cases hm : d.manifest r.slot with
  | none => exact .blind (.inl hm)
  | some m =>
    cases hpoll : t.poll with
    | error e => exact .blind (.inr (.inl (by simp [hpoll, Except.isOk, Except.toBool])))
    | ok status =>
      cases status with
      | exited => exact .exits hm hpoll (recordFailure_cases.of_pending_eq rfl)
      | running =>
        cases hseen : t.heartbeat with
        | error e =>
          have hunseen : ¬ t.heartbeat.isOk := by simp [hseen, Except.isOk, Except.toBool]
          exact .blind (.inr (.inr (.inl ⟨hpoll, hunseen⟩)))
        | ok heartbeat =>
          obtain ⟨hhealthy, hslot, hid, -⟩ := observe_keeps (r := r) (m := m) t.nowMs heartbeat
          simp only [ofExcept_ok, pure_bind_eq]
          cases hverdict : (r.observe m t.nowMs heartbeat).2 with
          | beats =>
            simp only [judge, hhealthy, hslot, hid]
            split_ifs with hold
            · exact .runs hm hpoll hseen (.inr ⟨hverdict, hold⟩) (by simp) (by simp)
            · obtain ⟨ops, hops, hresult, hcases⟩ := confirmHealthy_cases r.slot d
              have hrun : (confirmHealthy r.slot).run serve d =
                (.ok (.fresh r.slot), ((confirmHealthy r.slot).run serve d).2) :=
                Prod.ext hresult rfl
              simp only [changed] at hops
              rw [changes_bind_of_ok hrun, run_bind_of_ok hrun, hops]
              simpa [hslot, hid] using Watched.confirms hm hpoll hseen hverdict hold hcases
          | waits =>
            simp only [judge]
            split_ifs <;> exact .runs hm hpoll hseen (.inl hverdict) (by simp) (by simp)
          | timedOut =>
            simp only [judge, stopChild, hslot]
            cases hterminate : t.terminate with
            | error e =>
              exact .blind (.inr (.inr (.inr (by simp [hterminate, Except.isOk, Except.toBool]))))
            | ok _ =>
              exact .silent hm hpoll hseen hverdict (recordFailure_cases.of_pending_eq rfl)

theorem step_cases (t : Tick) (mem : Memory) (d : Disk) :
    Deed t mem d (changed (step t mem) d) (returned (step t mem) d) := by
  obtain ⟨state, running⟩ := mem
  simp only [changed, returned, step]
  cases hdisabled : t.disabled with
  | error e => exact .blind (.inl (by simp [hdisabled, Except.isOk, Except.toBool]))
  | ok disabled =>
    cases disabled with
    | true =>
      cases running with
      | none => exact .disabled hdisabled (.inl rfl)
      | some r =>
        cases hterminate : t.terminate with
        | error e =>
          have hstuck : ¬ t.terminate.isOk := by simp [hterminate, Except.isOk, Except.toBool]
          simpa [stopChild, hterminate] using Deed.blind (.inr hstuck)
        | ok _ =>
          simpa [stopChild, hterminate, file, reads] using Deed.disabled hdisabled (.inr rfl)
    | false =>
      cases running with
      | none =>
        by_cases hslot : state.slot = d.current
        · refine .goesOn rfl hslot ?_
          simpa [adopt, hslot, file, serve, reads] using stepStopped_cases t d.current state d
        · have hstopped := stepStopped_cases t d.current (.fresh d.current)
            { d with state := some (.fresh d.current) }
          simp only [adopt, hslot, file, ofExcept_ok, pure_bind_eq, changes_perform_bind,
            run_perform_bind, serve, reads, if_true, if_false, Bool.false_eq_true]
          exact .adopts rfl hslot (hstopped.of_slots_eq rfl rfl rfl)
      | some r =>
        by_cases hslot : r.slot = d.current
        · refine .watched hdisabled rfl hslot ?_
          simpa [hslot, file, serve, reads] using stepRunning_cases
        · cases hterminate : t.terminate with
          | error e =>
            have hstuck : ¬ t.terminate.isOk := by simp [hterminate, Except.isOk, Except.toBool]
            simpa [hslot, stopChild, hterminate, file, serve, reads] using Deed.blind (.inr hstuck)
          | ok _ =>
            have hstopped := stepStopped_cases t d.current (.fresh d.current)
              { d with daemonPid := false, state := some (.fresh d.current) }
            simp only [hslot, stopChild, hterminate, file, ofExcept_ok, pure_bind_eq,
              changes_perform_bind, run_perform_bind, serve, reads, if_true,
              if_false, Bool.false_eq_true]
            exact .replaces rfl hslot (hstopped.of_slots_eq rfl rfl rfl)

/-! ## What a step leaves alone -/

/-- The changes that a step may make: none to the slots or to what is staged. -/
def FileOp.supervises : FileOp → Bool
  | .writeExecutable _ _ | .writeManifest _ | .writeNext _ | .removeNext | .writePending _ => false
  | _ => true

theorem after_of_supervises {d : Disk} (h : ∀ op ∈ ops, op.supervises) :
    (after serve d ops).manifest = d.manifest ∧ (after serve d ops).executable = d.executable ∧
        (after serve d ops).next = d.next := by
  induction ops generalizing d with
  | nil => exact ⟨rfl, rfl, rfl⟩
  | cons op ops ih =>
    obtain ⟨hm, he, hn⟩ := ih (d := (op.serve d).2) fun op hop => h op (.tail _ hop)
    have hop := h op (.head _)
    rw [after_cons, hm, he, hn]
    cases op <;> first | exact ⟨rfl, rfl, rfl⟩ | cases hop

theorem Failure.supervises (h : Failure t m slot state d ops result) :
    ∀ op ∈ ops, op.supervises := by
  cases h <;> simp [rollbackChanges, supervises]

theorem Stopped.supervises (h : Stopped t active state d ops result) :
    ∀ op ∈ ops, op.supervises := by
  cases h <;> simp [rollbackChanges, supervises]

theorem Watched.supervises (h : Watched t state r d ops result) : ∀ op ∈ ops, op.supervises := by
  cases h with
  | blind | runs => simp
  | exits _ _ failure | silent _ _ _ _ failure =>
    exact forall_mem_cons.mpr ⟨rfl, failure.supervises⟩
  | confirms _ _ _ _ _ changes =>
    rcases changes with ⟨rfl, -⟩ | ⟨pending, -, rfl⟩ <;> simp [supervises]

theorem Deed.supervises (h : Deed t mem d ops result) : ∀ op ∈ ops, op.supervises := by
  cases h with
  | blind => simp
  | disabled _ quiet => rcases quiet with rfl | rfl <;> simp [supervises]
  | watched _ _ _ watched => exact watched.supervises
  | replaces _ _ stopped =>
    exact forall_mem_cons.mpr ⟨rfl, forall_mem_cons.mpr ⟨rfl, stopped.supervises⟩⟩
  | adopts _ _ stopped => exact forall_mem_cons.mpr ⟨rfl, stopped.supervises⟩
  | goesOn _ _ stopped => exact stopped.supervises

/-! ## What a step does to a switch -/

/-- The change concerns neither the pointer nor the pending switch. -/
def FileOp.keepsSwitch : FileOp → Bool
  | .writeCurrent _ | .writePending _ | .removePending => false
  | _ => true

theorem after_of_keepsSwitch {d : Disk} (h : ∀ op ∈ ops, op.keepsSwitch) :
    (after serve d ops).current = d.current ∧ (after serve d ops).pending = d.pending := by
  induction ops generalizing d with
  | nil => exact ⟨rfl, rfl⟩
  | cons op ops ih =>
    obtain ⟨hc, hp⟩ := ih (d := (op.serve d).2) fun op hop => h op (.tail _ hop)
    have hop := h op (.head _)
    rw [after_cons, hc, hp]
    cases op <;> first | exact ⟨rfl, rfl⟩ | cases hop

/-- A step leaves a switch alone, or it resolves one at its end: by a rollback or for good. -/
inductive Resolves (t : Tick) (d : Disk) (ops : List FileOp) : Prop
  | keeps (keeps : ∀ op ∈ ops, op.keepsSwitch)
  | rollsBack {pending : PendingSwitch} {before : List FileOp} (tries : d.Tries d.current pending)
      (keeps : ∀ op ∈ before, op.keepsSwitch) (ops_eq : ops = before ++ rollbackChanges t pending)
  | confirms {pending : PendingSwitch} {before : List FileOp} (tries : d.Tries d.current pending)
      (keeps : ∀ op ∈ before, op.keepsSwitch) (ops_eq : ops = before ++ [.removePending])

theorem Resolves.cons (h : Resolves t d ops) (hop : op.keepsSwitch) : Resolves t d (op :: ops) := by
  cases h with
  | keeps keeps => exact .keeps (forall_mem_cons.mpr ⟨hop, keeps⟩)
  | rollsBack tries keeps ops_eq =>
    exact .rollsBack tries (forall_mem_cons.mpr ⟨hop, keeps⟩) (by rw [ops_eq]; rfl)
  | confirms tries keeps ops_eq =>
    exact .confirms tries (forall_mem_cons.mpr ⟨hop, keeps⟩) (by rw [ops_eq]; rfl)

theorem Failure.resolves (h : Failure t m d.current state d ops result) : Resolves t d ops := by
  cases h with
  | rollsBack tries _ => exact .rollsBack tries (by simp) (nil_append _).symm
  | halts _ _ | waits _ _ => exact .keeps (by simp [keepsSwitch])

theorem Stopped.resolves (h : Stopped t d.current state d ops result) : Resolves t d ops := by
  cases h with
  | rollsBack tries => exact .rollsBack tries (by simp) (nil_append _).symm
  | halted | waits | starts | unborn | fails => exact .keeps (by simp [keepsSwitch])

theorem Watched.resolves (h : Watched t state r d ops result) (hr : r.slot = d.current) :
    Resolves t d ops := by
  cases h with
  | blind | runs => exact .keeps (by simp)
  | exits _ _ failure | silent _ _ _ _ failure =>
    rw [hr] at failure
    exact failure.resolves.cons rfl
  | confirms _ _ _ _ _ changes =>
    rw [hr] at changes
    rcases changes with ⟨rfl, -⟩ | ⟨pending, tries, rfl⟩
    · exact .keeps (by simp [keepsSwitch])
    · have hkeeps : ∀ op ∈ [writeState (.fresh d.current),
          .writePrevious pending.previous], op.keepsSwitch := by simp [keepsSwitch]
      exact .confirms tries hkeeps rfl

theorem Deed.resolves (h : Deed t mem d ops result) : Resolves t d ops := by
  cases h with
  | blind => exact .keeps (by simp)
  | disabled _ quiet => rcases quiet with rfl | rfl <;> exact .keeps (by simp [keepsSwitch])
  | watched _ _ active watched => exact watched.resolves active
  | replaces _ _ stopped => exact (stopped.resolves.cons rfl).cons rfl
  | adopts _ _ stopped => exact stopped.resolves.cons rfl
  | goesOn _ _ stopped => exact stopped.resolves

/-- The slot to which the pointer has been moved. -/
def movedTo (ops : List FileOp) : Option Slot :=
  ops.findSome? fun
    | .writeCurrent slot => some slot
    | _ => none

theorem movedTo_of_keepsSwitch (h : ∀ op ∈ ops, op.keepsSwitch) : movedTo ops = none := by
  rw [movedTo, List.findSome?_eq_none_iff]
  intro op hop
  have hkeeps := h op hop
  cases op <;> first | rfl | cases hkeeps

/-- What the first changes of a step have done to the switch. -/
inductive Moves (d : Disk) (done : List FileOp) (d' : Disk) : Prop
  | keeps (current : d'.current = d.current) (pending : d'.pending = d.pending)
      (still : movedTo done = none)
  | torn {pending : PendingSwitch} (tries : d.Tries d.current pending)
      (current : d'.current = pending.previous) (moved : movedTo done = some pending.previous)
      (unfinished : .removePending ∉ done)
  | rolledBack {pending : PendingSwitch} (tries : d.Tries d.current pending)
      (current : d'.current = pending.previous) (resolved : d'.pending = none)
      (moved : movedTo done = some pending.previous)
  | confirmed {pending : PendingSwitch} (tries : d.Tries d.current pending)
      (current : d'.current = d.current) (resolved : d'.pending = none)
      (still : movedTo done = none)

theorem moves_of_keepsSwitch (h : ∀ op ∈ ops, op.keepsSwitch) : Moves d ops (after serve d ops) :=
  .keeps (after_of_keepsSwitch h).1 (after_of_keepsSwitch h).2 (movedTo_of_keepsSwitch h)

theorem movedTo_append {before ops : List FileOp} (h : ∀ op ∈ before, op.keepsSwitch) :
    movedTo (before ++ ops) = movedTo ops := by
  have hnone := movedTo_of_keepsSwitch h
  rw [movedTo] at hnone ⊢
  rw [List.findSome?_append, hnone]
  rfl

theorem not_mem_of_keepsSwitch (h : ∀ op ∈ ops, op.keepsSwitch)
    (hop : op.keepsSwitch = false) : op ∉ ops :=
  fun hmem => by simp [h op hmem] at hop

theorem moves_take {before rest : List FileOp} (keeps : ∀ op ∈ before, op.keepsSwitch)
    (hrest : ∀ j, Moves d (before ++ rest.take (j + 1))
      (after serve (after serve d before) (rest.take (j + 1)))) (k : ℕ) :
    Moves d ((before ++ rest).take k) (after serve d ((before ++ rest).take k)) := by
  rcases Nat.lt_or_ge before.length k with hlt | hle
  · obtain ⟨j, rfl⟩ := Nat.exists_eq_add_of_lt hlt
    rw [Nat.add_assoc, take_length_add_append, after_append]
    exact hrest j
  · rw [take_append_of_le_length hle]
    exact moves_of_keepsSwitch fun op hop => keeps op (mem_of_mem_take hop)

theorem Resolves.take (h : Resolves t d ops) (k : ℕ) :
    Moves d (ops.take k) (after serve d (ops.take k)) := by
  cases h with
  | keeps keeps => exact moves_of_keepsSwitch fun op hop => keeps op (mem_of_mem_take hop)
  | @rollsBack pending before tries keeps ops_eq =>
    rw [ops_eq, rollbackChanges]
    apply moves_take keeps
    rintro (_ | j)
    · refine .torn tries rfl ?_ ?_
      · rw [movedTo_append keeps]
        rfl
      · simpa using not_mem_of_keepsSwitch keeps rfl
    · refine .rolledBack tries ?_ ?_ ?_
      · cases j <;> simp [serve]
      · cases j <;> simp [serve]
      · rw [movedTo_append keeps]
        rfl
  | @confirms pending before tries keeps ops_eq =>
    rw [ops_eq]
    refine moves_take keeps (fun j => .confirmed tries ?_ ?_ ?_) k
    · simpa [serve] using (after_of_keepsSwitch keeps).1
    · simp [serve]
    · rw [movedTo_append keeps]
      simp [movedTo]

end Cases

end KindleBridge.Launcher
