import KindleBridge.Launcher.Health

/-! # A pending switch is resolved

While a switch is pending, the record on disk counts the failed attempts to start its
target, over crashes and restarts. The launcher never gives up on such a slot, and after
as many failures as the manifest allows it goes back to the previous one. This needs that
every failure is recorded: a daemon that cannot be spawned is not, and neither is a
failure that a crash overtakes.
-/

namespace KindleBridge.Launcher

open Script FileOp Option Machine

/-- A start is due and the child cannot be spawned. -/
def unborn (t : Tick) (state : WatchdogState) (d : Disk) : Bool :=
  !state.halted && decide (state.nextStartMs ≤ t.nowMs) && (d.manifest d.current).isSome &&
    (d.executable d.current).isSome && !t.spawn.isOk

/-- The tick sees an attempt to run the active slot fail. -/
def failedAttempt (t : Tick) (mem : Memory) (d : Disk) : Bool :=
  match t.disabled, mem.running with
  | .ok false, some r =>
    if r.slot = d.current then
      match d.manifest r.slot, t.poll, t.heartbeat with
      | some _, .ok .exited, _ => true
      | some m, .ok .running, .ok heartbeat => (r.observe m t.nowMs heartbeat).2 = .timedOut
      | _, _, _ => false
    else t.terminate.isOk && unborn t (.fresh d.current) d
  | .ok false, none => unborn t (if mem.state.slot = d.current then mem.state
      else .fresh d.current) d
  | _, _ => false

section Failures

variable {t : Tick} {mem : Memory} {d : Disk} {r : RunningChild} {m : SlotManifest}

/-- Unless the child could not be spawned, it has exited or been silent. -/
inductive Fails (t : Tick) (mem : Memory) (d : Disk) : Prop
  | exits {r : RunningChild} {m : SlotManifest} (enabled : t.disabled = .ok false)
      (running : mem.running = some r) (active : r.slot = d.current)
      (manifest : d.manifest r.slot = some m) (exited : t.poll = .ok .exited)
  | silent {r : RunningChild} {m : SlotManifest} {heartbeat : Option Heartbeat}
      (enabled : t.disabled = .ok false) (running : mem.running = some r)
      (active : r.slot = d.current) (manifest : d.manifest r.slot = some m)
      (polled : t.poll = .ok .running) (seen : t.heartbeat = .ok heartbeat)
      (verdict : (r.observe m t.nowMs heartbeat).2 = .timedOut)

theorem failedAttempt_iff (hspawn : t.spawn.isOk) : failedAttempt t mem d ↔ Fails t mem d := by
  constructor
  · intro h
    unfold failedAttempt at h
    split at h
    · split_ifs at h with hslot
      · split at h
        · exact .exits ‹_› ‹_› hslot ‹_› ‹_›
        · exact .silent ‹_› ‹_› hslot ‹_› ‹_› ‹_› (of_decide_eq_true h)
        · cases h
      · simp [unborn, hspawn] at h
    · simp [unborn, hspawn] at h
    · cases h
  · intro h
    cases h with
    | exits enabled running active manifest exited =>
      rw [active] at manifest
      simp [failedAttempt, enabled, running, active, manifest, exited]
    | silent enabled running active manifest polled seen verdict =>
      rw [active] at manifest
      simp [failedAttempt, enabled, running, active, manifest, polled, seen, verdict]

theorem Deed.failure {ops : List FileOp} {result : Except Error (StepOutcome × Memory)}
    (h : Deed t mem d ops result) (hfails : Fails t mem d) (hterminate : t.terminate.isOk) :
    ∃ r m ops', mem.running = some r ∧ r.slot = d.current ∧ d.manifest r.slot = some m ∧
      ops = .removeDaemonPid :: ops' ∧ Failure t m r.slot mem.state d ops' result := by
  obtain ⟨r, m, hrunning, hactive, henabled, hm, hcause⟩ : ∃ r m, mem.running = some r ∧
      r.slot = d.current ∧ t.disabled = .ok false ∧ d.manifest r.slot = some m ∧
        (t.poll = .ok .exited ∨ t.poll = .ok .running ∧
          ∃ heartbeat, t.heartbeat = .ok heartbeat ∧
            (r.observe m t.nowMs heartbeat).2 = .timedOut) := by
    cases hfails with
    | exits enabled running active manifest exited =>
      exact ⟨_, _, running, active, enabled, manifest, .inl exited⟩
    | silent enabled running active manifest polled seen verdict =>
      exact ⟨_, _, running, active, enabled, manifest, .inr ⟨polled, _, seen, verdict⟩⟩
  -- A verdict other than a timeout contradicts the failure.
  have hverdict {m' : SlotManifest} {heartbeat : Option Heartbeat}
      (manifest : d.manifest r.slot = some m') (polled : t.poll = .ok .running)
      (seen : t.heartbeat = .ok heartbeat) : (r.observe m' t.nowMs heartbeat).2 = .timedOut := by
    obtain rfl := some.inj (hm.symm.trans manifest)
    rcases hcause with hexited | ⟨-, heartbeat', hseen, hout⟩
    · simp [hexited] at polled
    · obtain rfl := Except.ok.inj (hseen.symm.trans seen)
      exact hout
  cases h with
  | blind reason =>
    rcases reason with hblind | hstuck
    · simp [henabled, Except.isOk, Except.toBool] at hblind
    · exact absurd hterminate hstuck
  | disabled disabled => simp [henabled] at disabled
  | replaces running inactive =>
    obtain rfl := some.inj (hrunning.symm.trans running)
    exact absurd hactive inactive
  | adopts idle | goesOn idle => simp [hrunning] at idle
  | watched _ running _ watched =>
    obtain rfl := some.inj (hrunning.symm.trans running)
    cases watched with
    | exits manifest _ failure | silent manifest _ _ _ failure =>
      exact ⟨r, _, _, hrunning, hactive, manifest, rfl, failure⟩
    | blind reason =>
      rcases reason with hnone | hpoll | ⟨hpoll, hseen⟩ | hstuck
      · simp [hm] at hnone
      · rcases hcause with hexited | ⟨hpolled, -⟩ <;> simp [*, Except.isOk, Except.toBool] at hpoll
      · rcases hcause with hexited | ⟨-, heartbeat, hok, -⟩
        · simp [hexited] at hpoll
        · simp [hok, Except.isOk, Except.toBool] at hseen
      · exact absurd hterminate hstuck
    | runs manifest polled seen verdict | confirms manifest polled seen verdict =>
      simp [hverdict manifest polled seen] at verdict

end Failures

/-- The previous slot is active again and starts without a record of crashes. -/
structure Restored (pending : PendingSwitch) (d : Disk) : Prop where
  current : d.current = pending.previous
  resolved : d.pending = none
  clean : ∀ state, d.state = some state → state.slot = pending.previous → state.crashes = 0

/-- A change that makes a failure durable. -/
def FileOp.settles : FileOp → Bool
  | .writeState _ | .removePending => true
  | _ => false

/-- The launcher, with the failures of the pending target so far. -/
structure Trial where
  machine : Machine
  failures : ℕ

variable {d' : Disk} {state : WatchdogState} {slot : Slot} {mem' : Memory}

namespace Trial

variable (hash : List UInt8 → String)

def failed (v : Trial) : Action → ℕ
  | .launcher (.tick t _) =>
    match v.machine.launcher with
    | some mem => if failedAttempt t mem v.machine.disk then 1 else 0
    | none => 0
  | _ => 0

/-- Failures are counted as long as the same switch is pending. -/
def recount (d : Disk) (failures : ℕ) (d' : Disk) (failed : ℕ) : ℕ :=
  if d'.pending.isSome ∧ d'.pending = d.pending then failures + failed else 0

def step (v : Trial) (a : Action) : Trial where
  machine := v.machine.act hash a
  failures := recount v.machine.disk v.failures (v.machine.act hash a).disk (v.failed a)

/-- The launcher does not give up on a pending slot, and too many failures resolve the switch. -/
def Resolved (v : Trial) (a : Action) : Prop :=
  ∀ t cut mem pending, a = .launcher (.tick t cut) → v.machine.launcher = some mem →
    v.machine.disk.Tries v.machine.disk.current pending →
      (∀ slot crashes mem', returned (Launcher.step t mem) v.machine.disk ≠
        .ok (.halted slot crashes, mem')) ∧
      ∀ m, v.machine.disk.manifest pending.target = some m →
        failedAttempt t mem v.machine.disk → m.maxCrashes ≤ v.failures + 1 →
          Restored pending (v.step hash a).machine.disk

/-- A switch that is cut before its record is written finds no record of its target. -/
def Unmarked (d : Disk) (done : List FileOp) : Prop :=
  ∀ pending, .writePending pending ∈ done → (∀ state, .writeState state ∉ done) →
    ∀ state, d.state = some state → state.slot ≠ pending.target

/--
While a switch is pending, processes can be spawned and stopped, and no crash loses a
failure.
-/
def Counted (v : Trial) : Action → Prop
  | .launcher (.tick t cut) => ∀ mem, v.machine.launcher = some mem →
      v.machine.disk.pending ≠ none → t.spawn.isOk ∧ t.terminate.isOk ∧
        (failedAttempt t mem v.machine.disk →
          ∃ op ∈ made cut (Launcher.step t mem) v.machine.disk, op.settles) ∧
        (movedTo (made cut (Launcher.step t mem) v.machine.disk) ≠ none →
          .removePending ∈ made cut (Launcher.step t mem) v.machine.disk) ∧
        ∀ r m, ConfirmsHealthy t mem v.machine.disk r m →
          made cut (Launcher.step t mem) v.machine.disk ≠ [] →
            .removePending ∈ made cut (Launcher.step t mem) v.machine.disk
  | .launcher (.restart cut) => Unmarked v.machine.disk (made cut bringUp v.machine.disk)
  | .launcher (.request target cut) => ∀ mem, v.machine.launcher = some mem →
      Unmarked v.machine.disk (made cut (requestSlot target mem) v.machine.disk)
  | _ => True

/-- The record on disk counts the failures. -/
structure Ledger (d : Disk) (failures : ℕ) : Prop where
  idle : d.pending = none → failures = 0
  record : ∀ pending state, d.pending = some pending → d.state = some state →
    state.slot = pending.target → state.crashes = failures ∧ state.halted = false
  unmarked : ∀ pending, d.pending = some pending →
    (∀ state, d.state = some state → state.slot ≠ pending.target) → failures = 0
  tried : ∀ pending, d.pending = some pending → 0 < failures → pending.target = d.current
  few : ∀ pending m, d.pending = some pending → d.manifest pending.target = some m →
    failures < m.maxCrashes

structure Aware (d : Disk) (failures : ℕ) (mem : Memory) : Prop where
  memory : d.state = some mem.state ∨ d.state = none ∧ ∃ slot, mem.state = .fresh slot
  active : ∀ pending, d.pending = some pending → pending.target = d.current
  child : ∀ r, mem.running = some r →
    mem.state.slot = r.slot ∨ d.pending ≠ none ∧ mem.state.slot = d.current
  runs : ∀ r pending, mem.running = some r → d.pending = some pending → 0 < failures →
    r.slot = pending.target

structure Counts (v : Trial) : Prop where
  ledger : Ledger v.machine.disk v.failures
  aware : ∀ mem, v.machine.launcher = some mem → Aware v.machine.disk v.failures mem

variable {hash} {v : Trial} {t : Tick} {mem : Memory} {d : Disk} {failures k : ℕ}
  {pending : PendingSwitch} {ops : List FileOp} {result : Except Error (StepOutcome × Memory)}
  {cut : Option ℕ} {outcome : StepOutcome} {active : Slot}

theorem Aware.counts (ha : Aware d failures mem) (hl : Ledger d failures)
    (hp : d.pending = some pending) :
    (mem.state.slot = pending.target → mem.state.crashes = failures ∧ mem.state.halted = false) ∧
      (mem.state.slot ≠ pending.target → failures = 0) := by
  rcases ha.memory with hstate | ⟨hnone, slot, hfresh⟩
  · refine ⟨hl.record pending _ hp hstate, fun hne => hl.unmarked pending hp fun state hs => ?_⟩
    obtain rfl := some.inj (hstate.symm.trans hs)
    exact hne
  · have hzero : failures = 0 := hl.unmarked pending hp (by simp [hnone])
    exact ⟨fun _ => by simp [hfresh, WatchdogState.fresh, hzero], fun _ => hzero⟩

theorem Aware.of_eq (h : Aware d failures mem) (hs : d'.state = d.state)
    (hp : d'.pending = d.pending) (hc : d'.current = d.current) : Aware d' failures mem := by
  refine ⟨?_, ?_, ?_, ?_⟩
  · rw [hs]; exact h.memory
  · rw [hp, hc]; exact h.active
  · rw [hp, hc]; exact h.child
  · rw [hp]; exact h.runs

/-- What the changes of a tick so far mean for a pending switch. -/
inductive Marks (t : Tick) (mem : Memory) (d : Disk) (failures : ℕ) (pending : PendingSwitch)
    (d' : Disk) : Prop
  | same (held : failedAttempt t mem d = false) (state : d'.state = d.state)
      (current : d'.current = d.current) (switch : d'.pending = d.pending)
  | fresh (held : failedAttempt t mem d = false) (zero : failures = 0)
      (state : d'.state = some (.fresh pending.target)) (current : d'.current = d.current)
      (switch : d'.pending = d.pending)
  | counted (nextStartMs : ℕ) (failed : failedAttempt t mem d = true)
      (few : ∀ m, d.manifest pending.target = some m → failures + 1 < m.maxCrashes)
      (state : d'.state = some ⟨pending.target, failures + 1, nextStartMs, false⟩)
      (current : d'.current = d.current) (switch : d'.pending = d.pending)
  | resolved (switch : d'.pending = none)
      (restored : failedAttempt t mem d = true → Restored pending d')

theorem stopped_take (h : Stopped t active state d ops result) (hspawn : t.spawn.isOk) (d₁ : Disk)
    (hwhole : movedTo (ops.take k) ≠ none → .removePending ∈ ops.take k) :
    ((after serve d₁ (ops.take k)).state = d₁.state ∧
      (after serve d₁ (ops.take k)).current = d₁.current ∧
      (after serve d₁ (ops.take k)).pending = d₁.pending) ∨
    (after serve d₁ (ops.take k)).pending = none := by
  cases h with
  | halted | waits | fails => exact .inl (by simp)
  | starts =>
    left
    rcases k with _ | _ | k <;> simp [serve]
  | unborn spawn => simp [spawn, Except.isOk, Except.toBool] at hspawn
  | rollsBack =>
    rcases k with _ | _ | _ | k
    · exact .inl ⟨rfl, rfl, rfl⟩
    · simp [rollbackChanges, movedTo] at hwhole
    · exact .inr rfl
    · exact .inr (by simp [rollbackChanges, serve])

theorem marks_of_failed (hl : Ledger d failures) (ha : Aware d failures mem)
    (hp : d.pending = some pending) (hdeed : Deed t mem d ops result) (hspawn : t.spawn.isOk)
    (hterminate : t.terminate.isOk) (hfailed : failedAttempt t mem d = true)
    (hsettled : ∃ op ∈ ops.take k, op.settles) :
    Marks t mem d failures pending (after serve d (ops.take k)) := by
  obtain ⟨r, m, ops', hrunning, hactive, hm, rfl, hfailure⟩ :=
    hdeed.failure ((failedAttempt_iff hspawn).mp hfailed) hterminate
  have htarget : pending.target = r.slot := (ha.active pending hp).trans hactive.symm
  have hslot : mem.state.slot = r.slot :=
    (ha.child r hrunning).elim id fun h => h.2.trans hactive.symm
  obtain ⟨hcrashes, hhalted⟩ := (ha.counts hl hp).1 (hslot.trans htarget.symm)
  have hfew := hl.few pending m hp (htarget ▸ hm)
  have hcrashed : (mem.state.crashed r.slot).crashes = failures + 1 := by
    have := m.policy
    simp only [WatchdogState.crashed, hcrashes, maxU32]
    omega
  cases k with
  | zero => simp at hsettled
  | succ k =>
    cases hfailure with
    | halts rests _ => exact absurd ⟨hp, htarget⟩ (rests pending)
    | waits nextStartMs few =>
      cases k with
      | zero => simp [settles] at hsettled
      | succ k =>
        refine .counted nextStartMs hfailed ?_ ?_ ?_ ?_
        · intro m' hm'
          obtain rfl := some.inj (hm.symm.trans (htarget ▸ hm'))
          rw [hcrashed] at few
          exact few
        · simp only [List.take_succ_cons, List.take_nil, after_cons, after_nil, serve]
          simp [WatchdogState.crashed, htarget, hhalted, ← hcrashed]
        · simp [serve]
        · simp [serve]
    | @rollsBack pending' tries many =>
      obtain rfl := some.inj (hp.symm.trans tries.1)
      rcases k with _ | _ | _ | k
      · simp [rollbackChanges, settles] at hsettled
      · simp [rollbackChanges, settles] at hsettled
      · -- The record still names the failed slot, so the restored one starts without.
        refine .resolved rfl fun _ => ⟨rfl, rfl, fun state hstate hprevious => ?_⟩
        rcases ha.memory with hmem | ⟨hnone, -⟩
        · obtain rfl := some.inj (hmem.symm.trans hstate)
          exact absurd (hprevious.symm.trans (hslot.trans htarget.symm)) pending.differ
        · simp [show d.state = some state from hstate] at hnone
      · refine .resolved (by simp [rollbackChanges, serve]) fun _ => ⟨?_, ?_, ?_⟩
        all_goals simp [rollbackChanges, serve]

/-- A tick that sees no failure keeps the record or starts it, or it resolves the switch. -/
theorem marks_of_held (hl : Ledger d failures) (ha : Aware d failures mem)
    (hp : d.pending = some pending) (hdeed : Deed t mem d ops result) (hspawn : t.spawn.isOk)
    (hheld : failedAttempt t mem d = false)
    (hwhole : movedTo (ops.take k) ≠ none → .removePending ∈ ops.take k)
    (hconfirm : ∀ r m, ConfirmsHealthy t mem d r m → ops.take k ≠ [] →
      .removePending ∈ ops.take k) :
    Marks t mem d failures pending (after serve d (ops.take k)) := by
  have htarget := ha.active pending hp
  have hfails : ¬ Fails t mem d := fun h => by
    simp [(failedAttempt_iff hspawn).mpr h] at hheld
  have hsame : Marks t mem d failures pending d := .same hheld rfl rfl rfl
  have hresolved {d' : Disk} (h : d'.pending = none) : Marks t mem d failures pending d' :=
    .resolved h (by simp [hheld])
  cases hdeed with
  | blind => simpa using hsame
  | disabled _ quiet =>
    rcases quiet with rfl | rfl
    · simpa using hsame
    · cases k with
      | zero => exact hsame
      | succ k =>
        refine .same hheld ?_ ?_ ?_ <;> simp [serve]
  | watched enabled running active watched =>
    cases watched with
    | blind | runs => simpa using hsame
    | exits manifest exited => exact absurd (.exits enabled running active manifest exited) hfails
    | silent manifest polled seen verdict =>
      exact absurd (.silent enabled running active manifest polled seen verdict) hfails
    | confirms manifest polled seen verdict young changes =>
      have hconfirms := hconfirm _ _ ⟨enabled, running, active, manifest, polled,
        by simpa using young, _, seen, verdict⟩
      rcases changes with ⟨-, rests⟩ | ⟨pending', -, rfl⟩
      · exact absurd ⟨hp, htarget.trans active.symm⟩ (rests pending)
      · rcases k with _ | _ | _ | k
        · exact hsame
        · simp at hconfirms
        · simp at hconfirms
        · exact hresolved (by simp [serve])
  | @replaces r _ _ running inactive stopped =>
    have hzero : failures = 0 := Nat.eq_zero_of_not_pos fun hpos =>
      inactive ((ha.runs r pending running hp hpos).trans htarget)
    rcases k with _ | _ | k
    · exact hsame
    · exact .same hheld rfl rfl rfl
    · rcases stopped_take (k := k) stopped hspawn
        { d with daemonPid := false, state := some (.fresh d.current) }
        (by simpa [movedTo] using hwhole) with ⟨hstate, hcurrent, hswitch⟩ | hnone
      · exact .fresh hheld hzero (hstate.trans (by rw [htarget])) hcurrent hswitch
      · exact hresolved hnone
  | adopts idle foreign stopped =>
    have hzero : failures = 0 := (ha.counts hl hp).2 (htarget ▸ foreign)
    cases k with
    | zero => exact hsame
    | succ k =>
      rcases stopped_take (k := k) stopped hspawn { d with state := some (.fresh d.current) }
        (by simpa [movedTo] using hwhole) with ⟨hstate, hcurrent, hswitch⟩ | hnone
      · exact .fresh hheld hzero (hstate.trans (by rw [htarget])) hcurrent hswitch
      · exact hresolved hnone
  | goesOn idle own stopped =>
    rcases stopped_take stopped hspawn d hwhole with ⟨hstate, hcurrent, hswitch⟩ | hnone
    · exact .same hheld hstate hcurrent hswitch
    · exact hresolved hnone

theorem not_halted_of_aware (hl : Ledger d failures) (ha : Aware d failures mem)
    (hp : d.pending = some pending) {crashes : ℕ} :
    ¬ Deed t mem d ops (.ok (.halted slot crashes, mem')) := by
  have htarget := ha.active pending hp
  have hfailure {m : SlotManifest} {r : RunningChild} (hr : r.slot = d.current) {ops' : List FileOp}
      (h : Failure t m r.slot mem.state d ops' (.ok (.halted slot crashes, mem'))) : False := by
    cases h with
    | halts rests _ => exact rests pending ⟨hp, htarget.trans hr.symm⟩
  have hstopped {state : WatchdogState} (hawake : state.halted = false) {ops' : List FileOp}
      (h : Stopped t d.current state d ops' (.ok (.halted slot crashes, mem'))) : False := by
    cases h with
    | halted halted => simp [hawake] at halted
  intro hdeed
  cases hdeed with
  | watched _ _ active watched =>
    cases watched with
    | exits _ _ failure | silent _ _ _ _ failure => exact hfailure active failure
    | runs _ _ _ _ outcomes => exact outcomes _ _ rfl
  | replaces _ _ stopped | adopts _ _ stopped => exact hstopped rfl stopped
  | goesOn _ own stopped =>
    exact hstopped ((ha.counts hl hp).1 (own.trans htarget.symm)).2 stopped

theorem recount_of_none (h : d'.pending = none) (failed : ℕ) :
    recount d failures d' failed = 0 := by
  simp [recount, h]

theorem recount_of_eq (h : d'.pending = d.pending) (hp : d.pending = some pending)
    (failed : ℕ) : recount d failures d' failed = failures + failed := by
  simp [recount, h, hp]

theorem ledger_of_none (h : d'.pending = none) : Ledger d' 0 :=
  ⟨fun _ => rfl, by simp [h], by simp [h], by simp [h], by simp [h]⟩

theorem ledger_recount_of_none (h : d'.pending = none) {failed : ℕ} :
    Ledger d' (recount d failures d' failed) := by
  rw [recount_of_none h]
  exact ledger_of_none h

theorem Ledger.of_eq (h : Ledger d failures) (hs : d'.state = d.state)
    (hp : d'.pending = d.pending) (hc : d'.current = d.current)
    (hm : d'.manifest d.current = d.manifest d.current) : Ledger d' failures := by
  refine ⟨?_, ?_, ?_, ?_, fun pending m hpending hmanifest => ?_⟩
  · rw [hp]; exact h.idle
  · rw [hp, hs]; exact h.record
  · rw [hp, hs]; exact h.unmarked
  · rw [hp, hc]; exact h.tried
  · rw [hp] at hpending
    rcases Nat.eq_zero_or_pos failures with hzero | hpos
    · simpa only [hzero] using m.policy.1
    · have htarget := h.tried pending hpending hpos
      rw [htarget, hm, ← htarget] at hmanifest
      exact h.few pending m hpending hmanifest

theorem Ledger.recount_zero (h : Ledger d failures) (hp : d'.pending = d.pending) :
    recount d failures d' 0 = failures := by
  cases hq : d.pending with
  | none => rw [recount_of_none (hp.trans hq), h.idle hq]
  | some pending => rw [recount_of_eq hp hq, Nat.add_zero]

theorem ledger_of_unmarked (h : ∀ pending state, d'.pending = some pending →
    d'.state = some state → state.slot = pending.target →
      state.crashes = 0 ∧ state.halted = false) : Ledger d' 0 :=
  ⟨fun _ => rfl, h, fun _ _ _ => rfl, fun _ _ hpos => absurd hpos (by simp),
    fun _ m _ _ => m.policy.1⟩

theorem Ledger.of_marks (hl : Ledger d failures) (ha : Aware d failures mem)
    (hp : d.pending = some pending) (hm : d'.manifest = d.manifest)
    (h : Marks t mem d failures pending d') :
    Ledger d' (recount d failures d' (if failedAttempt t mem d then 1 else 0)) := by
  have htarget := ha.active pending hp
  cases h with
  | same held state current switch =>
    rw [recount_of_eq switch hp, held]
    exact hl.of_eq state switch current (congrFun hm _)
  | fresh held zero state current switch =>
    subst zero
    rw [recount_of_eq switch hp, held]
    refine ⟨fun _ => rfl, ?_, fun _ _ _ => rfl, ?_, ?_⟩
    · rintro q s - hs -
      obtain rfl := some.inj (state.symm.trans hs)
      exact ⟨rfl, rfl⟩
    · rintro q - hpos
      exact absurd hpos (by simp)
    · rw [switch, hm]
      exact hl.few
  | counted nextStartMs failed few state current switch =>
    rw [recount_of_eq switch hp, failed]
    have hpending {q : PendingSwitch} (hq : d'.pending = some q) : q = pending :=
      some.inj (hq.symm.trans (switch.trans hp))
    refine ⟨?_, ?_, ?_, ?_, ?_⟩
    · simp [switch, hp]
    · rintro q s - hs -
      obtain rfl := some.inj (state.symm.trans hs)
      exact ⟨rfl, rfl⟩
    · rintro q hq hnone
      exact absurd (hpending hq ▸ rfl) (hnone _ state)
    · rintro q hq -
      rw [hpending hq, current, htarget]
    · rintro q m hq hmq
      rw [hpending hq, hm] at hmq
      exact few m hmq
  | resolved switch restored => exact ledger_recount_of_none switch

/-! ### What the launcher remembers -/

/-- The memory of the launcher agrees with a record. -/
def Remembers (d : Disk) (state : WatchdogState) : Prop :=
  d.state = some state ∨ d.state = none ∧ ∃ slot, state = .fresh slot

theorem stopped_remembers (h : Stopped t active state d ops (.ok (outcome, mem'))) {d₁ : Disk}
    (hb : Remembers d₁ state) : Remembers (after serve d₁ ops) mem'.state := by
  cases h with
  | halted | waits | starts => exact hb
  | rollsBack => exact .inl rfl

theorem failure_remembers {m : SlotManifest}
    (h : Failure t m slot state d ops (.ok (outcome, mem'))) (d₁ : Disk) :
    Remembers (after serve d₁ ops) mem'.state := by
  cases h <;> exact .inl rfl

theorem deed_remembers (h : Deed t mem d ops (.ok (outcome, mem'))) (hb : Remembers d mem.state) :
    Remembers (after serve d ops) mem'.state := by
  cases h with
  | disabled _ quiet => rcases quiet with rfl | rfl <;> exact hb
  | watched _ _ _ watched =>
    cases watched with
    | exits _ _ failure | silent _ _ _ _ failure => exact failure_remembers failure _
    | runs => exact hb
    | confirms _ _ _ _ _ changes =>
      rcases changes with ⟨rfl, -⟩ | ⟨pending, -, rfl⟩ <;> exact .inl rfl
  | replaces _ _ stopped | adopts _ _ stopped => exact stopped_remembers stopped (.inl rfl)
  | goesOn _ _ stopped => exact stopped_remembers stopped hb

theorem deed_child {r' : RunningChild}
    (h : Deed t mem d ops (.ok (outcome, mem'))) (hr : mem'.running = some r')
    (hown : ∀ r, mem.running = some r → r.slot = d.current → mem.state.slot = r.slot) :
    r'.slot = d.current ∧ mem'.state.slot = r'.slot := by
  have hstopped {state : WatchdogState} (hs : state.slot = d.current) {ops' : List FileOp}
      (h : Stopped t d.current state d ops' (.ok (outcome, mem'))) :
      r'.slot = d.current ∧ mem'.state.slot = r'.slot := by
    cases h with
    | halted | waits | rollsBack => cases hr
    | starts => cases hr; exact ⟨rfl, hs⟩
  cases h with
  | disabled => cases hr
  | @watched r _ _ _ running active watched =>
    cases watched with
    | exits _ _ failure | silent _ _ _ _ failure => simp [failure.no_child] at hr
    | @runs m heartbeat =>
      cases hr
      have hslot := (observe_keeps (r := r) (m := m) t.nowMs heartbeat).2.1
      exact ⟨hslot.trans active, (hown _ running active).trans hslot.symm⟩
    | @confirms m heartbeat =>
      cases hr
      have hslot := (observe_keeps (r := r) (m := m) t.nowMs heartbeat).2.1
      exact ⟨hslot.trans active, hslot.symm⟩
  | replaces _ _ stopped | adopts _ _ stopped => exact hstopped rfl stopped
  | goesOn _ own stopped => exact hstopped own stopped

/-! ### Steps -/

theorem marks_of_counted (h : v.Counts)
    (hc : v.Counted (.launcher (.tick t cut))) (hmem : v.machine.launcher = some mem)
    (hp : v.machine.disk.pending = some pending) : Marks t mem v.machine.disk v.failures pending
      (left cut (Launcher.step t mem) v.machine.disk) := by
  obtain ⟨hspawn, hterminate, hsettled, hwhole, hconfirm⟩ := hc mem hmem (by simp [hp])
  obtain ⟨⟨k, htake⟩, hleft⟩ := made_eq_take cut (Launcher.step t mem) v.machine.disk
  have hdeed := step_cases t mem v.machine.disk
  have ha := h.aware mem hmem
  rw [htake] at hsettled hwhole hconfirm hleft
  rw [hleft]
  cases hfailed : failedAttempt t mem v.machine.disk with
  | true =>
    exact marks_of_failed h.ledger ha hp hdeed hspawn hterminate hfailed (hsettled hfailed)
  | false => exact marks_of_held h.ledger ha hp hdeed hspawn hfailed hwhole hconfirm

theorem resolved_of_counts {a : Action} (h : v.Counts) (hc : v.Counted a) : v.Resolved hash a := by
  rintro t cut mem pending rfl hmem ⟨hp, -⟩
  have ha := h.aware mem hmem
  refine ⟨?_, ?_⟩
  · intro slot crashes mem' hreturned
    have hdeed := step_cases t mem v.machine.disk
    rw [hreturned] at hdeed
    exact not_halted_of_aware h.ledger ha hp hdeed
  · intro m hm hfailed hmany
    obtain ⟨⟨pid, hdisk⟩, -⟩ := step_tick t cut hmem
    simp only [step, act, hdisk]
    cases marks_of_counted h hc hmem hp with
    | same held | fresh held => simp [hfailed] at held
    | counted _ _ few => exact absurd (few m hm) (Nat.not_lt.mpr hmany)
    | resolved _ restored =>
      obtain ⟨hcurrent, hresolved, hclean⟩ := restored hfailed
      exact ⟨hcurrent, hresolved, hclean⟩

theorem Counts.of_eq {w : Machine} (h : v.Counts) (hs : w.disk.state = v.machine.disk.state)
    (hp : w.disk.pending = v.machine.disk.pending) (hc : w.disk.current = v.machine.disk.current)
    (hm : w.disk.manifest v.machine.disk.current = v.machine.disk.manifest v.machine.disk.current)
    (hup : ∀ mem, w.launcher = some mem → v.machine.launcher = some mem) :
    (⟨w, recount v.machine.disk v.failures w.disk 0⟩ : Trial).Counts := by
  rw [h.ledger.recount_zero hp]
  exact ⟨h.ledger.of_eq hs hp hc hm, fun mem hmem => (h.aware mem (hup mem hmem)).of_eq hs hp hc⟩

theorem Counts.tick (h : v.Counts) (hc : v.Counted (.launcher (.tick t cut))) :
    (v.step hash (.launcher (.tick t cut))).Counts := by
  cases hmem : v.machine.launcher with
  | none =>
    have hstep : v.machine.step (.tick t cut) = v.machine := by simp [Machine.step, hmem]
    simp only [step, act, hstep, failed, hmem]
    exact h.of_eq rfl rfl rfl rfl fun _ => id
  | some mem =>
    obtain ⟨⟨pid, hdisk⟩, hup⟩ := step_tick t cut hmem
    obtain ⟨⟨k, htake⟩, hleft⟩ := made_eq_take cut (Launcher.step t mem) v.machine.disk
    have hdeed := step_cases t mem v.machine.disk
    have hmanifest := (after_of_supervises (d := v.machine.disk) fun op hop =>
      hdeed.supervises op (List.mem_of_mem_take (i := k) hop)).1
    rw [← htake, ← hleft] at hmanifest
    have ha := h.aware mem hmem
    -- A switch that is still pending has not been touched, and the pointer neither.
    have hkept {q : PendingSwitch}
        (hq : (left cut (Launcher.step t mem) v.machine.disk).pending = some q) :
        v.machine.disk.pending = some q ∧
          (left cut (Launcher.step t mem) v.machine.disk).current = v.machine.disk.current := by
      have hmoves := hdeed.resolves.take k
      rw [← htake, ← hleft] at hmoves
      cases hmoves with
      | keeps current switch => exact ⟨switch ▸ hq, current⟩
      | torn tries _ moved unfinished =>
        have hwhole := (hc mem hmem (by simp [tries.1])).2.2.2.1
        exact absurd (hwhole (by simp [moved])) unfinished
      | rolledBack _ _ resolved | confirmed _ _ resolved => simp [resolved] at hq
    constructor
    · simp only [step, act, hdisk, failed, hmem]
      cases hp : v.machine.disk.pending with
      | none =>
        refine ledger_recount_of_none (Option.eq_none_iff_forall_ne_some.mpr fun q hq => ?_)
        exact absurd (hkept hq).1 (by simp [hp])
      | some pending =>
        have hmarks := marks_of_counted h hc hmem hp
        exact (h.ledger.of_marks ha hp hmanifest hmarks).of_eq rfl rfl rfl rfl
    · intro mem' hmem'
      simp only [step, act] at hmem' ⊢
      obtain ⟨rfl, outcome, hreturned⟩ := hup mem' hmem'
      rw [hreturned] at hdeed
      have hown (r : RunningChild) (hr : mem.running = some r)
          (hactive : r.slot = v.machine.disk.current) : mem.state.slot = r.slot :=
        (ha.child r hr).elim id fun h => h.2.trans hactive.symm
      rw [hdisk]
      refine ⟨?_, ?_, ?_, ?_⟩
      · simp only [hleft]
        exact deed_remembers hdeed ha.memory
      · intro q hq
        obtain ⟨hpending, hcurrent⟩ := hkept hq
        exact (ha.active q hpending).trans hcurrent.symm
      · intro r hr
        exact .inl (deed_child hdeed hr hown).2
      · intro r q hr hq _
        obtain ⟨hpending, -⟩ := hkept hq
        exact (deed_child hdeed hr hown).1.trans (ha.active q hpending).symm

theorem recount_of_ne (h : d'.pending ≠ d.pending) (failed : ℕ) :
    recount d failures d' failed = 0 := by
  simp [recount, h]

theorem ledger_of_switch {hne : d.current ≠ slot} {rest : List FileOp}
    (hp : d.pending = none) (hrest : rest = [] ∨ rest = [.removeNext])
    (hops : ops = [.writePending ⟨d.current, slot, hne⟩, .writeCurrent slot,
      .writeState (.fresh slot)] ++ rest) (hunmarked : Unmarked d (ops.take k)) :
    Ledger (after serve d (ops.take k)) (recount d failures (after serve d (ops.take k)) 0) := by
  subst hops
  -- Before the record is written, the old one must not name the target.
  have hbefore {d' : Disk} (hpending : d'.pending = some ⟨d.current, slot, hne⟩)
      (hstate : d'.state = d.state) (hforeign : ∀ state, d.state = some state → state.slot ≠ slot) :
      Ledger d' (recount d failures d' 0) := by
    rw [recount_of_ne (by simp [hpending, hp])]
    refine ledger_of_unmarked fun q state hq hs hslot => ?_
    obtain rfl := some.inj (hpending.symm.trans hq)
    exact absurd hslot (hforeign state (hstate ▸ hs))
  have hafter {d' : Disk} (hpending : d'.pending = some ⟨d.current, slot, hne⟩)
      (hstate : d'.state = some (.fresh slot)) : Ledger d' (recount d failures d' 0) := by
    rw [recount_of_ne (by simp [hpending, hp])]
    refine ledger_of_unmarked fun q state hq hs _ => ?_
    obtain rfl := some.inj (hstate.symm.trans hs)
    exact ⟨rfl, rfl⟩
  rcases k with _ | _ | _ | k
  · exact ledger_recount_of_none hp
  · exact hbefore rfl rfl (hunmarked ⟨d.current, slot, hne⟩ (by simp) (by simp))
  · exact hbefore rfl rfl (hunmarked ⟨d.current, slot, hne⟩ (by simp) (by simp))
  · rcases hrest with rfl | rfl <;> cases k <;> exact hafter (by simp [serve]) (by simp [serve])

theorem Ledger.complete (h : Ledger d failures) (hp : d.pending = some pending)
    (hops : ∀ op ∈ ops, op = .writeCurrent pending.target ∨ op = .removeNext) :
    Ledger (after serve d ops) failures ∧ (after serve d ops).pending = d.pending := by
  induction ops generalizing d with
  | nil => exact ⟨h, rfl⟩
  | cons op ops ih =>
    have hrest := fun op hop => hops op (.tail _ hop)
    rcases hops op (.head _) with rfl | rfl
    · refine ih ⟨h.idle, h.record, h.unmarked, ?_, h.few⟩ hp hrest
      intro q hq _
      exact congrArg _ (some.inj (hq.symm.trans hp))
    · exact ih ⟨h.idle, h.record, h.unmarked, h.tried, h.few⟩ hp hrest

theorem Counts.restart (h : v.Counts) (hc : v.Counted (.launcher (.restart cut))) :
    (v.step hash (.launcher (.restart cut))).Counts := by
  obtain ⟨hdisk, hup⟩ := step_restart v.machine cut
  obtain ⟨⟨k, htake⟩, hleft⟩ := made_eq_take cut bringUp v.machine.disk
  have hraised := bringUp_cases v.machine.disk
  constructor
  · simp only [step, act, hdisk, failed]
    have hunmarked : Unmarked v.machine.disk (made cut bringUp v.machine.disk) := hc
    rw [htake] at hunmarked hleft
    rw [hleft]
    cases hp : v.machine.disk.pending with
    | none =>
      rcases hraised.changes_of_none hp with hops | hops | ⟨slot, hne, -, hops⟩
      · rw [hops]
        simpa [h.ledger.recount_zero] using h.ledger
      · rw [hops]
        refine ledger_recount_of_none ?_
        cases k <;> simpa [serve] using hp
      · exact ledger_of_switch hp (.inr rfl) hops hunmarked
    | some pending =>
      obtain ⟨hledger, hsame⟩ := h.ledger.complete hp fun op hop =>
        hraised.changes_of_pending hp op (List.mem_of_mem_take (i := k) hop)
      rw [h.ledger.recount_zero hsame]
      exact hledger
  · intro mem hmem
    simp only [step, act] at hmem ⊢
    obtain ⟨rfl, hreturned⟩ := hup mem hmem
    rw [hreturned] at hraised
    obtain ⟨d₀, ops₀, hopened, -, hmemory⟩ := hraised.opened
    rw [hdisk, hleft, made]
    refine ⟨?_, fun _ => hopened.active, by simp [hmemory], by simp [hmemory]⟩
    rw [hmemory]
    cases hstate : (after serve v.machine.disk (changed bringUp v.machine.disk)).state with
    | none => exact .inr ⟨rfl, _, rfl⟩
    | some state => exact .inl rfl

theorem Counts.request {target : Slot} (h : v.Counts)
    (hc : v.Counted (.launcher (.request target cut))) :
    (v.step hash (.launcher (.request target cut))).Counts := by
  cases hmem : v.machine.launcher with
  | none =>
    have hstep : v.machine.step (.request target cut) = v.machine := by
      simp [Machine.step, hmem]
    simp only [step, act, hstep, failed]
    exact h.of_eq rfl rfl rfl rfl fun _ => id
  | some mem =>
    obtain ⟨hdisk, hup⟩ := step_request target cut hmem
    obtain ⟨⟨k, htake⟩, hleft⟩ := made_eq_take cut (requestSlot target mem) v.machine.disk
    have hrequested := requestSlot_cases target mem v.machine.disk
    have hunmarked := hc mem hmem
    have ha := h.aware mem hmem
    rw [htake] at hunmarked
    constructor
    · simp only [step, act, failed, hdisk, hleft, htake]
      generalize changed (requestSlot target mem) v.machine.disk = ops at *
      generalize returned (requestSlot target mem) v.machine.disk = result at *
      cases hrequested with
      | active | waits | fails => simpa [h.ledger.recount_zero] using h.ledger
      | switches inactive rests valid => exact ledger_of_switch rests (.inl rfl) rfl hunmarked
    · intro mem' hmem'
      simp only [step, act, failed] at hmem' ⊢
      obtain ⟨rfl, hreturned⟩ := hup mem' hmem'
      rw [hdisk, hleft, made]
      generalize changed (requestSlot target mem) v.machine.disk = ops at *
      generalize returned (requestSlot target mem) v.machine.disk = result at *
      cases hrequested with
      | active | waits =>
        obtain rfl : mem = mem' := by simpa using hreturned
        simpa [h.ledger.recount_zero] using ha
      | fails =>
        obtain rfl : mem' = mem := by simpa using hreturned
        simpa [h.ledger.recount_zero] using ha
      | switches inactive rests valid =>
        obtain rfl : { mem with state := .fresh target } = mem' := by simpa using hreturned
        rw [recount_of_ne (by simp [serve, rests])]
        refine ⟨.inl rfl, ?_, ?_, ?_⟩
        · intro q hq
          obtain rfl := some.inj hq
          rfl
        · intro r _
          exact .inr ⟨by simp [serve], rfl⟩
        · intro _ _ _ _ hpos
          exact absurd hpos (by simp)

theorem Counts.stage {source : Option (List UInt8)} {digest : String}
    (h : v.Counts) : (v.step hash (.stage source digest cut)).Counts := by
  obtain ⟨⟨k, htake⟩, hleft⟩ := made_eq_take cut (stageDaemon hash source digest) v.machine.disk
  -- Only the manifest of the inactive slot may change.
  obtain ⟨hs, hp, hc, hm⟩ : let d := left cut (stageDaemon hash source digest) v.machine.disk
      d.state = v.machine.disk.state ∧ d.pending = v.machine.disk.pending ∧
        d.current = v.machine.disk.current ∧
        d.manifest v.machine.disk.current = v.machine.disk.manifest v.machine.disk.current := by
    rw [hleft, htake]
    rcases stageDaemon_cases hash source digest v.machine.disk with hops | ⟨bytes, hops⟩
    · simp [hops]
    · rw [hops]
      rcases k with _ | _ | _ | _ | k <;> simp [serve]
  exact h.of_eq hs hp hc hm fun _ => id

theorem Counts.rollBack (h : v.Counts) : (v.step hash (.rollBack cut)).Counts := by
  obtain ⟨⟨k, htake⟩, hleft⟩ := made_eq_take cut rollbackDaemon v.machine.disk
  simp only [step, act, failed]
  rcases rollbackDaemon_cases v.machine.disk with ⟨hops, -⟩ | ⟨slot, -, -, hp, -, hops⟩
  · have hsame : left cut rollbackDaemon v.machine.disk = v.machine.disk := by
      rw [hleft, htake, hops]
      simp
    rw [hsame]
    exact h.of_eq rfl rfl rfl rfl fun _ => id
  · obtain ⟨hs, hnone⟩ : (left cut rollbackDaemon v.machine.disk).state = v.machine.disk.state ∧
        (left cut rollbackDaemon v.machine.disk).pending = none := by
      rw [hleft, htake]
      split_ifs at hops <;> rw [hops]
      · rcases k with _ | _ | k <;> simpa [serve] using hp
      · rcases k with _ | _ | _ | k <;> simpa [serve] using hp
    refine ⟨ledger_recount_of_none hnone, fun mem hmem => ?_⟩
    have ha := h.aware mem hmem
    refine ⟨?_, by simp [hnone], fun r hr => ?_, by simp [hnone]⟩
    · rw [hs]
      exact ha.memory
    · exact .inl ((ha.child r hr).resolve_right fun hpending => hpending.1 hp)

theorem Counts.step {a : Action} (h : v.Counts) (hc : v.Counted a) : (v.step hash a).Counts := by
  match a with
  | .launcher (.restart _) => exact h.restart hc
  | .launcher (.tick _ _) => exact h.tick hc
  | .launcher (.request _ _) => exact h.request hc
  | .launcher .crash => exact h.of_eq rfl rfl rfl rfl (by simp [act, Machine.step])
  | .launcher .clearPid => exact h.of_eq rfl rfl rfl rfl fun _ => id
  | .stage _ _ _ => exact h.stage
  | .rollBack _ => exact h.rollBack

/--
In every run without lost failures, the launcher never gives up on a pending slot, and as
many failures as the manifest allows bring the previous slot back.
-/
theorem pending_switch_resolves (hash : List UInt8 → String) (d : Disk) (hp : d.pending = none)
    (run : List Action) (hc : Along (Trial.step hash) Trial.Counted ⟨⟨d, none⟩, 0⟩ run) :
    Along (Trial.step hash) (Trial.Resolved hash) ⟨⟨d, none⟩, 0⟩ run :=
  hc.of_invariant (I := Counts) ⟨ledger_of_none hp, by simp⟩ fun _ _ h hc =>
    ⟨resolved_of_counts h hc, h.step hc⟩

/-- Two failures bring slot A back. -/
def twoTries : Disk := { failingDisk with
  manifest := fun _ => some { slotManifest with maxCrashes := 2, policy := by decide } }

/-- The daemon exits, the launcher is restarted, and the daemon exits again. -/
def exitsTwice : List Action :=
  [.launcher (.restart none), .launcher (.tick (sampleTick 0 none) none),
    .launcher (.tick exitTick none), .launcher .crash, .launcher (.restart none),
    .launcher (.tick (sampleTick 500 none) none),
    .launcher (.tick { exitTick with nowMs := 600, laterMs := 600 } none)]

theorem pending_switch_resolves_exitsTwice :
    Along (Trial.step fun _ => "") (Trial.Resolved fun _ => "") ⟨⟨twoTries, none⟩, 0⟩ exitsTwice ∧
      ((exitsTwice.take 6).foldl (Trial.step fun _ => "") ⟨⟨twoTries, none⟩, 0⟩).failures = 1 := by
  refine ⟨pending_switch_resolves _ _ rfl _ ⟨?_, ?_, ?_, trivial, ?_, ?_, ?_, trivial⟩, by decide⟩
  · intro pending _ hnone
    exact absurd (by decide) (hnone (.fresh .b))
  · rintro mem hmem -
    cases hmem
    refine ⟨rfl, rfl, fun hfailed => absurd hfailed (by decide), fun hmoved => ?_, ?_⟩
    · exact absurd rfl hmoved
    · rintro r m ⟨-, hrunning, -⟩
      cases hrunning
  · rintro mem hmem -
    cases hmem
    refine ⟨rfl, rfl, fun _ => ⟨.writeState ⟨.b, 1, 200, false⟩, by decide, rfl⟩, fun hmoved => ?_, ?_⟩
    · exact absurd rfl hmoved
    · rintro r m ⟨-, -, -, -, hpoll, -⟩
      cases hpoll
  · intro pending hmem
    cases hmem
  · rintro mem hmem -
    cases hmem
    refine ⟨rfl, rfl, fun hfailed => absurd hfailed (by decide), fun hmoved => ?_, ?_⟩
    · exact absurd rfl hmoved
    · rintro r m ⟨-, hrunning, -⟩
      cases hrunning
  · rintro mem hmem -
    cases hmem
    refine ⟨rfl, rfl, fun _ => ⟨.removePending, by decide, rfl⟩, fun _ => by decide, ?_⟩
    rintro r m ⟨-, -, -, -, hpoll, -⟩
    cases hpoll

def spawnlessTick : Tick := { sampleTick 0 none with spawn := .error ⟨.child, "spawn failed"⟩ }

/-- A daemon that cannot be spawned stays selected. -/
theorem spawn_error_is_not_counted :
    ¬ Along (Trial.step fun _ => "") (Trial.Resolved fun _ => "") ⟨⟨failingDisk, none⟩, 0⟩
      [.launcher (.restart none), .launcher (.tick spawnlessTick none)] := by
  rintro ⟨-, hresolved, -⟩
  have hrestored := (hresolved _ _ _ ⟨.a, .b, by decide⟩ rfl rfl ⟨rfl, rfl⟩).2 _ rfl rfl
    (Nat.le_refl 1)
  cases hrestored.resolved

end Trial

end KindleBridge.Launcher
