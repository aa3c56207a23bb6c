import KindleBridge.Launcher.Health

/-! # A failed candidate is not tried again

Once the launcher has gone back to the previous slot, the pointer does not return to the
failed one by itself. A crash between the two changes that make up the rollback breaks
this: the recovery at the next start takes a rollback that was cut for a switch that was
cut, and completes the switch.
-/

namespace KindleBridge.Launcher

open Script Machine List

/-- The launcher, with the slot that it has given up. -/
structure Retry where
  machine : Machine
  banned : Option Slot

namespace Retry

variable (hash : List UInt8 → String)

/-- A rollback bans its target, until somebody asks for a new attempt. -/
def ban (v : Retry) : Action → Option Slot
  | .launcher (.tick t cut) =>
    match v.machine.launcher with
    | some mem => ((movedTo (made cut (Launcher.step t mem) v.machine.disk)).map Slot.other).or
        v.banned
    | none => v.banned
  | .launcher (.request _ _) | .stage _ _ _ | .rollBack _ => none
  | .launcher _ => v.banned

def step (v : Retry) (a : Action) : Retry where
  machine := v.machine.act hash a
  banned := v.ban a

def Obeys (v : Retry) : Prop :=
  ∀ slot, v.banned = some slot → v.machine.disk.current ≠ slot

/--
No rollback is cut between its two changes, and no slot is requested that is still staged.
-/
def Careful (v : Retry) : Action → Prop
  | .launcher (.tick t cut) => ∀ mem, v.machine.launcher = some mem →
      movedTo (made cut (Launcher.step t mem) v.machine.disk) ≠ none →
        .removePending ∈ made cut (Launcher.step t mem) v.machine.disk
  | .launcher (.request target _) => v.machine.disk.next ≠ some target
  | _ => True

/-- What is not pending and not staged cannot come back. -/
structure Calm (v : Retry) : Prop where
  active : ∀ mem pending, v.machine.launcher = some mem → v.machine.disk.pending = some pending →
    pending.target = v.machine.disk.current ∧ v.machine.disk.next ≠ some pending.target
  banned : ∀ slot, v.banned = some slot → v.machine.disk.pending = none ∧
    v.machine.disk.current ≠ slot ∧ v.machine.disk.next ≠ some slot

variable {hash} {v : Retry} {cut : Option ℕ}

theorem Calm.tick {t : Tick} (h : v.Calm)
    (hc : v.Careful (.launcher (.tick t cut))) : (v.step hash (.launcher (.tick t cut))).Calm := by
  cases hmem : v.machine.launcher with
  | none =>
    have hstep : v.machine.step (.tick t cut) = v.machine := by simp [Machine.step, hmem]
    refine ⟨?_, ?_⟩
    · simpa only [step, act, hstep] using h.active
    · simpa only [step, act, hstep, ban, hmem] using h.banned
  | some mem =>
    obtain ⟨⟨pid, hdisk⟩, hup⟩ := step_tick t cut hmem
    obtain ⟨⟨k, htake⟩, hleft⟩ := made_eq_take cut (Launcher.step t mem) v.machine.disk
    have hdeed := step_cases t mem v.machine.disk
    have hmoves := hdeed.resolves.take k
    have hnext := (after_of_supervises (d := v.machine.disk) fun op hop =>
      hdeed.supervises op (mem_of_mem_take (i := k) hop)).2.2
    rw [← htake, ← hleft] at hmoves hnext
    have hcareful := hc mem hmem
    refine ⟨?_, ?_⟩
    · intro mem' pending hmem' hpending
      simp only [step, act, hdisk] at hpending ⊢
      cases hmoves with
      | keeps hcurrent hsame _ =>
        rw [hcurrent, hnext]
        exact h.active mem pending hmem (hsame ▸ hpending)
      | torn _ _ hmoved hunfinished => exact absurd (hcareful (by simp [hmoved])) hunfinished
      | rolledBack _ _ hresolved _ | confirmed _ _ hresolved _ => simp [hresolved] at hpending
    · intro slot hslot
      simp only [step, act, hdisk, ban, hmem] at hslot ⊢
      cases hmoves with
      | keeps hcurrent hsame hstill =>
        rw [hcurrent, hsame, hnext]
        exact h.banned slot (by simpa [hstill] using hslot)
      | torn _ _ hmoved hunfinished => exact absurd (hcareful (by simp [hmoved])) hunfinished
      | @rolledBack pending htries hcurrent hresolved hmoved =>
        -- The target of the switch is not staged, so only somebody else can ask for it.
        obtain rfl : pending.previous.other = slot := by simpa [hmoved] using hslot
        have htarget : pending.previous.other = pending.target := by
          rw [pending.previous_eq]
          cases pending.target <;> rfl
        rw [hcurrent, hnext]
        refine ⟨hresolved, Slot.ne_other _, ?_⟩
        rw [htarget]
        exact (h.active mem pending hmem htries.1).2
      | confirmed htries _ _ hstill =>
        have hnone := (h.banned slot (by simpa [hstill] using hslot)).1
        simp [hnone, Disk.Tries] at htries

theorem Calm.restart (h : v.Calm) : (v.step hash (.launcher (.restart cut))).Calm := by
  obtain ⟨hdisk, hup⟩ := step_restart v.machine cut
  obtain ⟨⟨k, htake⟩, hleft⟩ := made_eq_take cut bringUp v.machine.disk
  have hraised := bringUp_cases v.machine.disk
  refine ⟨?_, ?_⟩
  · intro mem pending hmem hpending
    simp only [step, act, hdisk] at hpending ⊢
    obtain ⟨rfl, hreturned⟩ := hup mem hmem
    rw [hreturned] at hraised
    rw [hleft, show made none bringUp v.machine.disk = changed bringUp v.machine.disk from rfl] at *
    obtain ⟨d₀, ops₀, hopened, hnext, -⟩ := hraised.opened
    refine ⟨hopened.active hpending, ?_⟩
    rw [hopened.after_eq.2, hnext]
    simp
  · intro slot hslot
    obtain ⟨hp, hc, hn⟩ := h.banned slot hslot
    simp only [step, act, hdisk, hleft, htake]
    rcases hraised.changes_of_banned hp hc hn with hops | hops
    · rw [hops]
      simpa using h.banned slot hslot
    · rw [hops]
      cases k with
      | zero => exact h.banned slot hslot
      | succ k => simpa [FileOp.serve, hp] using hc

theorem Calm.request {target : Slot} (h : v.Calm)
    (hc : v.Careful (.launcher (.request target cut))) :
    (v.step hash (.launcher (.request target cut))).Calm := by
  refine ⟨?_, by simp [step, ban]⟩
  intro mem' pending hmem' hpending
  cases hmem : v.machine.launcher with
  | none => simp [step, act, Machine.step, hmem] at hmem'
  | some mem =>
    obtain ⟨hdisk, hup⟩ := step_request target cut hmem
    simp only [step, act, hdisk] at hmem' hpending ⊢
    obtain ⟨rfl, -⟩ := hup mem' hmem'
    have hrequested := requestSlot_cases target mem v.machine.disk
    rw [(made_eq_take none (requestSlot target mem) v.machine.disk).2, made] at hpending ⊢
    generalize changed (requestSlot target mem) v.machine.disk = ops at *
    generalize returned (requestSlot target mem) v.machine.disk = result at *
    cases hrequested with
    | active | waits | fails => exact h.active mem pending hmem hpending
    | switches inactive rests valid =>
      obtain rfl := Option.some.inj hpending
      exact ⟨rfl, hc⟩

theorem Calm.stage {source : Option (List UInt8)} {digest : String}
    (h : v.Calm) : (v.step hash (.stage source digest cut)).Calm := by
  refine ⟨?_, by simp [step, ban]⟩
  intro mem pending hmem hpending
  obtain ⟨⟨k, htake⟩, hleft⟩ := made_eq_take cut (stageDaemon hash source digest) v.machine.disk
  simp only [step, act, hleft, htake] at hmem hpending ⊢
  rcases stageDaemon_cases hash source digest v.machine.disk with hops | ⟨bytes, hops⟩
  · rw [hops] at hpending ⊢
    simp only [take_nil, after_nil] at hpending ⊢
    exact h.active mem pending hmem hpending
  · rw [hops] at hpending ⊢
    -- Only the last change touches what the invariant is about: the other slot is staged.
    rcases k with _ | _ | _ | _ | k
    iterate 4 exact h.active mem pending hmem hpending
    · simp only [take_succ_cons, take_nil, after_cons, after_nil, FileOp.serve] at hpending ⊢
      have htarget := (h.active mem pending hmem hpending).1
      exact ⟨htarget, by simp [htarget]⟩

theorem Calm.rollBack (h : v.Calm) : (v.step hash (.rollBack cut)).Calm := by
  refine ⟨?_, by simp [step, ban]⟩
  intro mem pending hmem hpending
  obtain ⟨⟨k, htake⟩, hleft⟩ := made_eq_take cut rollbackDaemon v.machine.disk
  simp only [step, act, hleft, htake] at hmem hpending ⊢
  rcases rollbackDaemon_cases v.machine.disk with ⟨hops, -⟩ | ⟨slot, -, -, hp, -, hops⟩
  · rw [hops] at hpending ⊢
    simp only [take_nil, after_nil] at hpending ⊢
    exact h.active mem pending hmem hpending
  · -- Nothing is pending, and nothing becomes so.
    split_ifs at hops <;> rw [hops] at hpending
    · rcases k with _ | _ | k <;> simp [FileOp.serve, hp] at hpending
    · rcases k with _ | _ | _ | k <;> simp [FileOp.serve, hp] at hpending

theorem Calm.step {a : Action} (h : v.Calm) (hc : v.Careful a) : (v.step hash a).Calm := by
  match a with
  | .launcher (.restart _) => exact h.restart
  | .launcher (.tick _ _) => exact h.tick hc
  | .launcher (.request _ _) => exact h.request hc
  | .launcher .crash => exact ⟨by simp [Retry.step, act, Machine.step], h.banned⟩
  | .launcher .clearPid => exact ⟨h.active, h.banned⟩
  | .stage _ _ _ => exact h.stage
  | .rollBack _ => exact h.rollBack

/-- In every careful run from a stopped launcher, a slot that was given up stays so. -/
theorem banned_slot_stays_inactive (hash : List UInt8 → String) (d : Disk) (run : List Action)
    (hc : Along (Retry.step hash) Retry.Careful ⟨⟨d, none⟩, none⟩ run) :
    (run.foldl (Retry.step hash) ⟨⟨d, none⟩, none⟩).Obeys := by
  have hcalm := hc.foldl (I := Calm) ⟨by simp, by simp⟩ fun _ _ h hc => h.step hc
  exact fun slot hslot => (hcalm.banned slot hslot).2.1

/-! ### A rollback that is cut -/

/-- The daemon is selected, started, and given up. -/
def givesUp (cut : Option ℕ) : List Action :=
  [.launcher (.restart none), .launcher (.tick (sampleTick 0 none) none),
    .launcher (.tick exitTick cut), .launcher (.restart none)]

/-- After a whole rollback, the failed slot stays inactive. -/
theorem banned_slot_stays_inactive_whole :
    ((givesUp none).foldl (Retry.step fun _ => "") ⟨⟨failingDisk, none⟩, none⟩).Obeys ∧
      ((givesUp none).foldl (Retry.step fun _ => "") ⟨⟨failingDisk, none⟩, none⟩).banned =
        some .b := by
  refine ⟨banned_slot_stays_inactive _ _ _ ?_, rfl⟩
  refine ⟨trivial, ?_, ?_, trivial, trivial⟩
  · rintro mem hmem hmoved
    cases hmem
    exact absurd rfl hmoved
  · rintro mem hmem -
    cases hmem
    decide

/-- A crash behind the first change of the rollback brings the failed slot back. -/
theorem cut_rollback_is_undone :
    ¬ ((givesUp (some 5)).foldl (Retry.step fun _ => "") ⟨⟨failingDisk, none⟩, none⟩).Obeys := by
  intro hobeys
  exact hobeys .b rfl rfl

end Retry

end KindleBridge.Launcher
