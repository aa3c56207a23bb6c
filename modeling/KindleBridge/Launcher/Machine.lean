import KindleBridge.Launcher.Deeds

/-! # Runs of the launcher

The launcher is started again and again, each time after the staged slot has been
selected. A crash may cut it after any step. Beside it, a daemon may be staged and a
confirmed update rolled back.
-/

namespace KindleBridge.Launcher

open Script FileOp List

/-- The files, and the launcher if it is up. -/
structure Machine where
  disk : Disk
  launcher : Option Memory

/-- Select the slot that is staged, if there is one, and open the launcher. -/
def bringUp : LauncherM Memory := do
  match ← file .readNext with
  | some _ => let _ ← selectStaged
  | none => pure ()
  openLauncher

/-- What happens to the launcher. A number of calls says where a crash cuts it. -/
inductive Event
  | restart (cut : Option ℕ)
  | tick (t : Tick) (cut : Option ℕ)
  | request (target : Slot) (cut : Option ℕ)
  | crash
  /-- Somebody removes the PID of a daemon that is gone. -/
  | clearPid

namespace Machine

/-- A launcher that fails takes its child with it. -/
def fail (d : Disk) : Machine := ⟨{ d with daemonPid := false }, none⟩

def step (w : Machine) : Event → Machine
  | .restart (some n) => ⟨bringUp.cut FileOp.serve n w.disk, none⟩
  | .restart none =>
    match bringUp.run FileOp.serve w.disk with
    | (.ok mem, d) => ⟨d, some mem⟩
    | (.error _, d) => ⟨d, none⟩
  | .tick t cut =>
    match w.launcher, cut with
    | none, _ => w
    | some mem, some n => ⟨(Launcher.step t mem).cut FileOp.serve n w.disk, none⟩
    | some mem, none =>
      match (Launcher.step t mem).run FileOp.serve w.disk with
      | (.ok (_, mem), d) => ⟨d, some mem⟩
      | (.error _, d) => fail d
  | .request target cut =>
    match w.launcher, cut with
    | none, _ => w
    | some mem, some n => ⟨(requestSlot target mem).cut FileOp.serve n w.disk, none⟩
    | some mem, none =>
      match (requestSlot target mem).run FileOp.serve w.disk with
      | (.ok mem, d) => ⟨d, some mem⟩
      | (.error _, d) => ⟨d, some mem⟩
  | .crash => { w with launcher := none }
  | .clearPid => { w with disk := { w.disk with daemonPid := false } }

end Machine

/-! ## What a script leaves behind -/

section Cuts

variable {α : Type}

/-- The files when a script has ended or has been cut. -/
def left (cut : Option ℕ) (script : LauncherM α) (d : Disk) : Disk :=
  match cut with
  | some n => script.cut FileOp.serve n d
  | none => (script.run FileOp.serve d).2

/-- The changes made by a script that has ended or has been cut. -/
def made (cut : Option ℕ) (script : LauncherM α) (d : Disk) : List FileOp :=
  match cut with
  | some n => ((script.calls FileOp.serve d).take n).map Prod.fst |>.filter (!·.reads)
  | none => changed script d

theorem made_eq_take (cut : Option ℕ) (script : LauncherM α) (d : Disk) :
    (∃ k, made cut script d = (changed script d).take k) ∧
      left cut script d = after serve d (made cut script d) := by
  cases cut with
  | none =>
    exact ⟨⟨(changed script d).length, by simp [made]⟩, run_eq_after serve_of_reads⟩
  | some n =>
    obtain ⟨k, hcut, hcalls⟩ := cut_eq_after (m := script) (s := d) serve_of_reads n
    refine ⟨⟨k, hcalls⟩, ?_⟩
    rw [made, hcalls]
    exact hcut

end Cuts

namespace Machine

variable {w : Machine} {mem : Memory}

theorem step_restart (w : Machine) (cut : Option ℕ) :
    (w.step (.restart cut)).disk = left cut bringUp w.disk ∧
    ∀ mem, (w.step (.restart cut)).launcher = some mem →
      cut = none ∧ returned bringUp w.disk = .ok mem := by
  cases cut with
  | some n => exact ⟨rfl, by simp [step]⟩
  | none =>
    rcases hrun : bringUp.run serve w.disk with ⟨_ | mem, d⟩ <;> simp [step, left, returned, hrun]

theorem step_tick (t : Tick) (cut : Option ℕ) (hmem : w.launcher = some mem) :
    (∃ pid, (w.step (.tick t cut)).disk =
      { left cut (Launcher.step t mem) w.disk with daemonPid := pid }) ∧
    ∀ mem', (w.step (.tick t cut)).launcher = some mem' →
      cut = none ∧ ∃ outcome, returned (Launcher.step t mem) w.disk = .ok (outcome, mem') := by
  cases cut with
  | some n => exact ⟨⟨_, by simp only [step, hmem]; rfl⟩, by simp [step, hmem]⟩
  | none =>
    rcases hrun : (Launcher.step t mem).run serve w.disk with ⟨_ | ⟨outcome, mem'⟩, d⟩
    · exact ⟨⟨false, by simp [step, hmem, left, hrun, fail]⟩, by simp [step, hmem, hrun, fail]⟩
    · refine ⟨⟨d.daemonPid, by simp [step, hmem, left, hrun]⟩, ?_⟩
      simp [step, hmem, hrun, returned]

theorem step_request (target : Slot) (cut : Option ℕ) (hmem : w.launcher = some mem) :
    (w.step (.request target cut)).disk = left cut (requestSlot target mem) w.disk ∧
    ∀ mem', (w.step (.request target cut)).launcher = some mem' →
      cut = none ∧ (returned (requestSlot target mem) w.disk = .ok mem' ∨
        (∃ e, returned (requestSlot target mem) w.disk = .error e) ∧ mem' = mem) := by
  cases cut with
  | some n => exact ⟨by simp [step, hmem, left], by simp [step, hmem]⟩
  | none =>
    rcases hrun : (requestSlot target mem).run serve w.disk with ⟨e | mem', d⟩ <;>
      simp [step, hmem, left, hrun, returned, eq_comm]

end Machine

/-! ## Opening and requests -/

variable {d' : Disk} {ops : List FileOp}

section Cases

variable {target : Slot} {mem : Memory} {d : Disk} {result : Except Error Memory}
  {pending : PendingSwitch} {slot : Slot}

/-- What is done at the start about a switch that was cut. -/
inductive Opened (d : Disk) : List FileOp → Disk → Prop
  | rests (active : ∀ pending, d.pending = some pending → pending.target = d.current) :
      Opened d [] d
  | recovers {pending : PendingSwitch} (switch : d.pending = some pending)
      (active : d.current = pending.previous) :
      Opened d [.writeCurrent pending.target] { d with current := pending.target }

inductive Requested (target : Slot) (mem : Memory) (d : Disk) :
    List FileOp → Except Error Memory → Prop
  | active (active : d.current = target) : Requested target mem d [] (.ok mem)
  | waits {pending : PendingSwitch} (switch : d.pending = some pending)
      (same : pending.target = target) : Requested target mem d [] (.ok mem)
  | fails {e : Error} : Requested target mem d [] (.error e)
  | switches (inactive : d.current ≠ target) (rests : d.pending = none) (valid : d.Valid target) :
      Requested target mem d [.writePending ⟨d.current, target, inactive⟩, .writeCurrent target,
        .writeState (.fresh target)] (.ok { mem with state := .fresh target })

inductive Raised (d : Disk) : List FileOp → Except Error Memory → Prop
  | opens {ops : List FileOp} {d' : Disk} (unstaged : d.next = none) (opened : Opened d ops d') :
      Raised d ops (.ok ⟨d'.state.getD (.fresh d'.current), none⟩)
  | refuses {e : Error} (pid : d.daemonPid) : Raised d [] (.error e)
  | fails {ops : List FileOp} {d' : Disk} {e : Error} (opened : Opened d ops d') :
      Raised d ops (.error e)
  | selects {slot : Slot} {mem mem' : Memory} {ops ops' ops'' : List FileOp} {d' d'' : Disk}
      (staged : d.next = some slot) (opened : Opened d ops d')
      (requested : Requested slot mem d' ops' (.ok mem'))
      (reopened : Opened { after FileOp.serve d' ops' with next := none } ops'' d'') :
      Raised d (ops ++ (ops' ++ .removeNext :: ops''))
        (.ok ⟨d''.state.getD (.fresh d''.current), none⟩)

theorem recoverPendingPointer_cases (d : Disk) : ∃ d',
    Opened d (changed recoverPendingPointer d) d' ∧
      recoverPendingPointer.run serve d = (.ok (), d') := by
  simp only [changed, recoverPendingPointer, file, changes_perform_bind, run_perform_bind,
    serve, reads, if_true]
  cases hp : d.pending with
  | none => exact ⟨d, .rests (by simp [hp]), rfl⟩
  | some pending =>
    simp only [changes_perform_bind, run_perform_bind, reads, if_true]
    have hcurrent : (serve .readCurrent d).1 = d.current := rfl
    by_cases hprevious : d.current = pending.previous
    · simp only [if_pos (hcurrent.trans hprevious)]
      exact ⟨_, .recovers hp hprevious, rfl⟩
    · -- There are two slots, so the pointer names the target.
      have htarget : d.current = pending.target := by
        rw [Slot.eq_other_of_ne hprevious, pending.previous_eq]
        cases pending.target <;> rfl
      simp only [if_neg (hcurrent ▸ hprevious), if_pos (hcurrent.trans htarget)]
      refine ⟨d, .rests fun q hq => ?_, rfl⟩
      obtain rfl : pending = q := Option.some.inj (hp.symm.trans hq)
      exact htarget.symm

theorem openLauncher_cases (d : Disk) : ∃ d', Opened d (changed openLauncher d) d' ∧
    openLauncher.run serve d = (.ok ⟨d'.state.getD (.fresh d'.current), none⟩, d') := by
  obtain ⟨d', hopened, hrun⟩ := recoverPendingPointer_cases d
  refine ⟨d', ?_, ?_⟩
  · rw [changed, openLauncher, changes_bind_of_ok hrun]
    simpa [file, serve, reads] using hopened
  · rw [openLauncher, run_bind_of_ok hrun]
    rfl

theorem requestSlot_cases (target : Slot) (mem : Memory) (d : Disk) :
    Requested target mem d (changed (requestSlot target mem) d)
      (returned (requestSlot target mem) d) := by
  simp only [changed, returned, requestSlot, file, changes_perform_bind, run_perform_bind,
    reads, if_true]
  have hcurrent : (serve .readCurrent d).1 = d.current := rfl
  by_cases hactive : d.current = target
  · simp only [dif_pos (hcurrent.trans hactive)]
    exact .active hactive
  · have hinactive : (serve .readCurrent d).1 ≠ target := hactive
    simp only [dif_neg hinactive, changes_perform_bind, run_perform_bind, reads, if_true]
    simp only [serve]
    cases hp : d.pending with
    | some pending =>
      simp only
      split_ifs with hsame
      · exact .waits hp hsame
      · exact .fails
    | none =>
      obtain ⟨hnone, ⟨m, hok, -, hvalid⟩ | ⟨e, herror, -⟩⟩ := validateSlot_cases target d
      · have hrun : (validateSlot target).run serve d = (.ok m, d) := by
          rw [run_eq_of_changed_nil hnone, hok]
        rw [changed] at hnone
        simp only [changes_bind_of_ok hrun, run_bind_of_ok hrun, hnone]
        exact .switches hactive hp hvalid
      · have hrun : (validateSlot target).run serve d = (.error e, d) := by
          rw [run_eq_of_changed_nil hnone, herror]
        rw [changed] at hnone
        simp only [changes_bind_of_error hrun, run_bind_of_error hrun, hnone]
        exact .fails

inductive Selected (d : Disk) : List FileOp → Except Error Slot × Disk → Prop
  | refuses {e : Error} (pid : d.daemonPid) : Selected d [] (.error e, d)
  | fails {ops : List FileOp} {d' : Disk} {e : Error} (opened : Opened d ops d') :
      Selected d ops (.error e, d')
  | selects {slot : Slot} {mem mem' : Memory} {ops ops' : List FileOp} {d' : Disk}
      (staged : d.next = some slot) (opened : Opened d ops d')
      (requested : Requested slot mem d' ops' (.ok mem')) :
      Selected d (ops ++ (ops' ++ [.removeNext]))
        (.ok slot, { after FileOp.serve d' ops' with next := none })

theorem selectStaged_cases (hn : d.next = some slot) :
    Selected d (changed selectStaged d) (selectStaged.run serve d) := by
  by_cases hpid : d.daemonPid
  · simpa [changed, selectStaged, file, serve, reads, hpid, invalidState] using
      Selected.refuses hpid
  · obtain ⟨d', hopened, hrun⟩ := openLauncher_cases d
    have hrequested := requestSlot_cases slot ⟨d'.state.getD (.fresh d'.current), none⟩ d'
    have hafter := run_eq_after (s := d')
      (m := requestSlot slot ⟨d'.state.getD (.fresh d'.current), none⟩) serve_of_reads
    have hselect : changed selectStaged d = changed openLauncher d ++
        changed (do
          let _ ← requestSlot slot ⟨d'.state.getD (.fresh d'.current), none⟩
          file .removeNext
          return slot : LauncherM Slot) d' ∧
        selectStaged.run serve d = (do
          let _ ← requestSlot slot ⟨d'.state.getD (.fresh d'.current), none⟩
          file .removeNext
          return slot : LauncherM Slot).run serve d' := by
      simp [changed, selectStaged, file, serve, reads, hpid, hn,
        changes_bind_of_ok hrun, run_bind_of_ok hrun]
    rw [hselect.1, hselect.2]
    obtain ⟨result, d'', hrun'⟩ : ∃ result d'',
        (requestSlot slot ⟨d'.state.getD (.fresh d'.current), none⟩).run serve d' =
          (result, d'') := ⟨_, _, rfl⟩
    rw [returned, hrun'] at hrequested
    rw [hrun'] at hafter
    simp only [changed] at hrequested hopened ⊢
    cases result with
    | error e =>
      -- A request that fails has changed nothing.
      rw [changes_bind_of_error hrun', run_bind_of_error hrun']
      generalize changes serve reads (requestSlot _ _) d' = ops' at *
      cases hrequested
      simpa [show d'' = d' from hafter] using Selected.fails hopened
    | ok mem' =>
      rw [changes_bind_of_ok hrun', run_bind_of_ok hrun', show d'' = _ from hafter]
      exact .selects hn hopened hrequested

theorem bringUp_cases (d : Disk) : Raised d (changed bringUp d) (returned bringUp d) := by
  cases hn : d.next with
  | none =>
    have hscript : changed bringUp d = changed openLauncher d ∧
        returned bringUp d = returned openLauncher d := by
      simp [changed, returned, bringUp, file, serve, reads, hn]
    obtain ⟨d', hopened, hrun⟩ := openLauncher_cases d
    rw [hscript.1, hscript.2, returned, hrun]
    exact .opens hn hopened
  | some slot =>
    have hscript : changed bringUp d = changed (do let _ ← selectStaged; openLauncher) d ∧
        returned bringUp d = returned (do let _ ← selectStaged; openLauncher) d := by
      simp [changed, returned, bringUp, file, serve, reads, hn]
    rw [hscript.1, hscript.2]
    have hselected := selectStaged_cases hn
    obtain ⟨result, d', hrun⟩ : ∃ result d', selectStaged.run serve d = (result, d') := ⟨_, _, rfl⟩
    rw [hrun] at hselected
    simp only [changed, returned] at hselected ⊢
    cases result with
    | error e =>
      rw [changes_bind_of_error hrun, run_bind_of_error hrun]
      generalize changes serve reads selectStaged d = ops at *
      cases hselected with
      | refuses pid => exact .refuses pid
      | fails opened => exact .fails opened
    | ok selected =>
      obtain ⟨d'', hopened, hrun'⟩ := openLauncher_cases d'
      rw [changes_bind_of_ok hrun, run_bind_of_ok hrun, hrun']
      generalize changes serve reads selectStaged d = ops at *
      cases hselected with
      | selects staged opened requested =>
        rw [append_assoc, append_assoc]
        exact .selects staged opened requested hopened

theorem Opened.eq_of_pending_none (h : Opened d ops d')
    (hp : d.pending = none) : ops = [] ∧ d' = d := by
  cases h with
  | rests => exact ⟨rfl, rfl⟩
  | recovers switch => simp [hp] at switch

theorem Opened.active (h : Opened d ops d') (hp : d'.pending = some pending) :
    pending.target = d'.current := by
  cases h with
  | rests active => exact active pending hp
  | recovers switch =>
    obtain rfl := Option.some.inj (switch.symm.trans hp)
    rfl

theorem Opened.changes_of_pending (h : Opened d ops d') (hp : d.pending = some pending) :
    (∀ op ∈ ops, op = .writeCurrent pending.target) ∧ d'.pending = some pending := by
  cases h with
  | rests => exact ⟨by simp, hp⟩
  | recovers switch =>
    obtain rfl := Option.some.inj (switch.symm.trans hp)
    exact ⟨by simp, hp⟩

theorem Raised.changes_of_pending (h : Raised d ops result) (hp : d.pending = some pending) :
    ∀ op ∈ ops, op = .writeCurrent pending.target ∨ op = .removeNext := by
  cases h with
  | opens _ opened | fails opened =>
    exact fun op hop => .inl ((opened.changes_of_pending hp).1 op hop)
  | refuses => simp
  | @selects staged _ _ _ _ _ d' _ hstaged opened requested reopened =>
    obtain ⟨hopened, hp'⟩ := opened.changes_of_pending hp
    cases requested with
    | switches _ rests => simp [hp'] at rests
    | active | waits =>
      have hp'' : ({ after serve d' [] with next := none } : Disk).pending = some pending := hp'
      have hreopened := (reopened.changes_of_pending hp'').1
      intro op hop
      simp only [nil_append, mem_append, mem_cons] at hop
      rcases hop with hop | rfl | hop
      · exact .inl (hopened op hop)
      · exact .inr rfl
      · exact .inl (hreopened op hop)

/-- While nothing is pending, a start may begin a switch, and then it does nothing else before. -/
theorem Raised.changes_of_none (h : Raised d ops result) (hp : d.pending = none) :
    ops = [] ∨ ops = [.removeNext] ∨ ∃ slot, ∃ hne : d.current ≠ slot, d.next = some slot ∧
      ops = [.writePending ⟨d.current, slot, hne⟩, .writeCurrent slot,
        .writeState (.fresh slot), .removeNext] := by
  cases h with
  | opens _ opened | fails opened => exact .inl (opened.eq_of_pending_none hp).1
  | refuses => exact .inl rfl
  | @selects staged _ _ _ _ _ d' _ hstaged opened requested reopened =>
    obtain ⟨rfl, hd⟩ := opened.eq_of_pending_none hp
    rw [hd] at requested reopened
    cases requested with
    | active | waits =>
      obtain ⟨rfl, -⟩ := reopened.eq_of_pending_none hp
      exact .inr (.inl rfl)
    | switches inactive =>
      cases reopened with
      | rests => exact .inr (.inr ⟨staged, inactive, hstaged, rfl⟩)
      | recovers switch active =>
        -- The switch that has just begun is complete.
        obtain rfl := Option.some.inj switch
        exact absurd active.symm inactive

theorem Raised.changes_of_banned (h : Raised d ops result) (hp : d.pending = none)
    (hc : d.current ≠ slot)
    (hn : d.next ≠ some slot) : ops = [] ∨ ops = [.removeNext] := by
  rcases h.changes_of_none hp with hops | hops | ⟨staged, hne, hstaged, -⟩
  · exact .inl hops
  · exact .inr hops
  · have hother : staged ≠ slot := fun heq => hn (heq ▸ hstaged)
    exact absurd (by rw [Slot.eq_other_of_ne hc, Slot.eq_other_of_ne hother]) hne

theorem Opened.after_eq (h : Opened d ops d') : after serve d ops = d' ∧ d'.next = d.next := by
  cases h <;> exact ⟨rfl, rfl⟩

theorem Raised.opened {mem : Memory} (h : Raised d ops (.ok mem)) :
    ∃ d₀ ops₀, Opened d₀ ops₀ (after serve d ops) ∧ d₀.next = none ∧
      mem = ⟨(after serve d ops).state.getD (.fresh (after serve d ops).current), none⟩ := by
  cases h with
  | opens unstaged opened =>
    rw [opened.after_eq.1]
    exact ⟨d, ops, opened, unstaged, rfl⟩
  | selects staged opened requested reopened =>
    rw [after_append, opened.after_eq.1, after_append, after_cons]
    have hafter := reopened.after_eq.1
    exact ⟨_, _, hafter ▸ reopened, rfl, by rw [← hafter]; rfl⟩

end Cases

/-! ## Staging and rolling back -/

inductive Action
  | launcher (event : Event)
  | stage (source : Option (List UInt8)) (digest : String) (cut : Option ℕ)
  | rollBack (cut : Option ℕ)

def Machine.act (hash : List UInt8 → String) (w : Machine) : Action → Machine
  | .launcher event => w.step event
  | .stage source digest cut => { w with disk := left cut (stageDaemon hash source digest) w.disk }
  | .rollBack cut => { w with disk := left cut rollbackDaemon w.disk }

theorem stageDaemon_cases (hash : List UInt8 → String) (source : Option (List UInt8))
    (digest : String) (d : Disk) : changed (stageDaemon hash source digest) d = [] ∨
      ∃ bytes, changed (stageDaemon hash source digest) d =
        [.removePrevious, .writeExecutable d.current.other bytes, .writeManifest d.current.other,
          .writeNext d.current.other] := by
  cases hsource : checkSource hash source digest with
  | error e => exact .inl (by simp [changed, stageDaemon, hsource])
  | ok bytes =>
    exact .inr ⟨bytes, by simp [changed, stageDaemon, hsource, file, reads, serve]⟩

theorem rollbackDaemon_cases (d : Disk) :
    (changed rollbackDaemon d = [] ∧ ∃ e, returned rollbackDaemon d = .error e) ∨
    ∃ slot, returned rollbackDaemon d = .ok slot ∧ d.daemonPid = false ∧ d.pending = none ∧
      d.previous = some slot ∧ changed rollbackDaemon d =
        (if slot = d.current then [] else [.writeCurrent slot]) ++
          [.removeNext, .removePrevious] := by
  unfold changed returned rollbackDaemon file invalidState
  by_cases hpid : d.daemonPid
  · simp [serve, reads, hpid]
  cases hp : d.pending with
  | some pending => simp [serve, reads, hpid, hp]
  | none =>
    cases hprevious : d.previous with
    | none => simp [serve, reads, hpid, hp, hprevious]
    | some previous =>
      by_cases hsame : previous = d.current
      · simp [serve, reads, hpid, hp, hprevious, hsame]
      · obtain ⟨hnone, ⟨m, hok, -, -⟩ | ⟨e, herror, -⟩⟩ := validateSlot_cases previous d
        · have hrun : (validateSlot previous).run serve d = (.ok m, d) := by
            rw [run_eq_of_changed_nil hnone, hok]
          rw [changed] at hnone
          simp [serve, reads, hpid, hp, hprevious, hsame, changes_bind_of_ok hrun,
            run_bind_of_ok hrun, hnone]
        · have hrun : (validateSlot previous).run serve d = (.error e, d) := by
            rw [run_eq_of_changed_nil hnone, herror]
          rw [changed] at hnone
          simp [serve, reads, hpid, hp, hprevious, hsame, changes_bind_of_error hrun,
            run_bind_of_error hrun, hnone]

/-! ## Samples -/

/-- A daemon is staged in slot B and may be tried once. -/
def failingDisk : Disk :=
  { sampleDisk with
    next := some .b
    manifest := fun _ => some { slotManifest with maxCrashes := 1, policy := by decide } }

def exitTick : Tick := { sampleTick 100 none with poll := .ok .exited }

end KindleBridge.Launcher
