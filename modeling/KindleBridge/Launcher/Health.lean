import KindleBridge.Launcher.Machine

/-! # When a daemon is confirmed

The launcher infers elapsed time from a clock that may jump. As long as the clock goes on
with real time or visibly back, and a poll notices every silence, a daemon is confirmed
only after its heartbeat has kept changing for the time that its manifest asks for.
-/

namespace KindleBridge.Launcher

open RunningChild Option FileOp

/-- A look at a child, with the time that has really passed. -/
structure Poll where
  realMs : ℕ
  nowMs : ℕ
  heartbeat : Option Heartbeat
  deriving DecidableEq

namespace Poll

/-- The poll shows a heartbeat of the instance with this timestamp. -/
def Shows (inst : String) (p : Poll) (timestamp : ℕ) : Prop :=
  p.heartbeat = some ⟨inst, timestamp⟩

/-- From the first poll to the second, the clock has gone on with real time. -/
def InStep (p q : Poll) : Prop :=
  p.realMs ≤ q.realMs ∧ p.nowMs + (q.realMs - p.realMs) = q.nowMs

instance (p q : Poll) : Decidable (InStep p q) := inferInstanceAs (Decidable (_ ∧ _))

/-- From one poll to the next, the clock goes on with real time, or visibly back. -/
def Honest (p q : Poll) : Prop :=
  InStep p q ∨ q.nowMs < p.nowMs

instance (p q : Poll) : Decidable (Honest p q) := inferInstanceAs (Decidable (_ ∨ _))

/--
Before the last poll shows a new heartbeat too late after the one before it, another poll
has missed it.
-/
def Noticed (m : SlotManifest) (inst : String) (polls : List Poll) : Prop :=
  ∀ before mid p q a b, polls = before ++ p :: mid ++ [q] → p.Shows inst a → q.Shows inst b →
    a ≠ b → (∀ s ∈ mid, ∀ c, s.Shows inst c → c = a) →
    q.realMs ≤ p.realMs + m.heartbeatTimeoutMs ∨
      ∃ s ∈ mid, p.realMs + m.heartbeatTimeoutMs < s.realMs

/-- Heartbeats that differ from one to the next, with no gap beyond the timeout. -/
inductive Streak (m : SlotManifest) (inst : String) : Poll → Poll → List Poll → Prop
  | one {p : Poll} {a : ℕ} (shows' : p.Shows inst a) : Streak m inst p p [p]
  | more {first last p : Poll} {beats : List Poll} {a : ℕ} (streak : Streak m inst first last beats)
      (shows' : p.Shows inst a) (differs : last.heartbeat ≠ p.heartbeat)
      (near : p.realMs ≤ last.realMs + m.heartbeatTimeoutMs) :
      Streak m inst first p (beats ++ [p])

/-- Among the polls is a streak that has lasted long enough. -/
def Sustained (m : SlotManifest) (inst : String) (polls : List Poll) : Prop :=
  ∃ first last beats, Streak m inst first last beats ∧ beats.Sublist polls ∧
    first.realMs + m.healthyAfterMs ≤ last.realMs

theorem Streak.last_mem {m : SlotManifest} {inst : String} {first last : Poll} {beats : List Poll}
    (h : Streak m inst first last beats) : last ∈ beats := by
  cases h <;> simp

theorem InStep.trans {p q s : Poll} (h : InStep p q) (h' : InStep q s) : InStep p s := by
  obtain ⟨hle, heq⟩ := h
  obtain ⟨hle', heq'⟩ := h'
  exact ⟨by omega, by omega⟩

end Poll

open Poll

variable {m : SlotManifest} {r : RunningChild} {now : ℕ} {heartbeat : Option Heartbeat}
  {polls : List Poll} {z p : Poll}

theorem RunningChild.observe_cases (m : SlotManifest) (r : RunningChild) (now : ℕ)
    (heartbeat : Option Heartbeat) :
    (∃ a, heartbeat = some ⟨r.instance', a⟩ ∧ (r.resync m now).lastHeartbeatTimestampMs ≠ some a ∧
      (r.observe m now heartbeat).1 = (r.resync m now).beat now ⟨r.instance', a⟩ ∧
      (r.observe m now heartbeat).2 ≠ .timedOut ∧ ((r.observe m now heartbeat).2 = .beats →
        m.healthyAfterMs ≤ now - (r.resync m now).firstHeartbeatMs.getD now)) ∨
    (∀ a, heartbeat = some ⟨r.instance', a⟩ → (r.resync m now).lastHeartbeatTimestampMs = some a) ∧
      (r.observe m now heartbeat).1 = r.resync m now ∧ (r.observe m now heartbeat).2 ≠ .beats ∧
      ((r.observe m now heartbeat).2 = .timedOut ↔ (r.resync m now).timedOut m now) := by
  obtain ⟨-, -, -, hinst⟩ := resync_keeps (r := r) (m := m) now
  simp only [observe]
  cases hf : heartbeat.filter (r.resync m now).advances with
  | some h =>
    left
    obtain ⟨rfl, hadv⟩ := filter_eq_some_iff.mp hf
    simp only [advances, hinst, decide_eq_true_eq] at hadv
    obtain ⟨inst, a⟩ := h
    obtain ⟨rfl, hne⟩ := hadv
    refine ⟨a, rfl, hne, ?_⟩
    dsimp only
    split_ifs with hlong <;> simp [hlong]
  | none =>
    right
    refine ⟨?_, ?_⟩
    · rintro a rfl
      simpa [advances, hinst, Option.filter] using hf
    · dsimp only
      split_ifs with hout <;> simp [hout]

/-- What is known about a child that is not confirmed yet from the polls since its start. -/
def Tracks (m : SlotManifest) (r : RunningChild) (polls : List Poll) (z : Poll) : Prop :=
  r.lastPollMs = z.nowMs ∧
    (r.lastHeartbeatTimestampMs = none ∧ r.firstHeartbeatMs = none ∧
        r.lastValidHeartbeatMs = none ∨
      ∃ first last beats a before mid, Streak m r.instance' first last beats ∧
        beats.Sublist polls ∧ polls = before ++ last :: mid ∧ last.Shows r.instance' a ∧
        r.lastHeartbeatTimestampMs = some a ∧ r.firstHeartbeatMs = some first.nowMs ∧
        r.lastValidHeartbeatMs = some last.nowMs ∧ InStep first z ∧ InStep last z ∧
        ∀ s ∈ mid, s.realMs ≤ last.realMs + m.heartbeatTimeoutMs ∧
          ∀ c, s.Shows r.instance' c → c = a)

theorem resync_of_jump (hyoung : r.healthy = false) (hjump : now < r.lastPollMs) :
    r.resync m now = { r with
      lastPollMs := now, startedMs := now, lastHeartbeatTimestampMs := none,
      firstHeartbeatMs := none, lastValidHeartbeatMs := none } := by
  simp [resync, clockDiscontinuity, hyoung, hjump]

theorem resync_of_le (hyoung : r.healthy = false) (hle : r.lastPollMs ≤ now) :
    r.resync m now = { r with lastPollMs := now } := by
  simp [resync, clockDiscontinuity, hyoung, Nat.not_lt.mpr hle]

variable {r' : RunningChild} {t : Tick} {d : Disk} {ops : List FileOp} {mem' : Memory}
  {outcome : StepOutcome} {mem : Memory} {state : WatchdogState}

theorem Tracks.first {a : ℕ} (hp : p.Shows r'.instance' a)
    (hpoll : r'.lastPollMs = p.nowMs) (hnone : r'.firstHeartbeatMs = none) :
    Tracks m (r'.beat p.nowMs ⟨r'.instance', a⟩) (polls ++ [p]) p := by
  refine ⟨hpoll, .inr ⟨p, p, [p], a, polls, [], .one hp, List.sublist_append_right _ _, by simp,
    hp, rfl, by simp [beat, hnone], rfl, ?_, ?_, by simp⟩⟩ <;>
    exact ⟨Nat.le_refl _, by simp⟩

/-- A poll that does not end the child keeps track of it, and confirms it only after a streak. -/
theorem Tracks.observe (h : Tracks m r polls z) (hyoung : r.healthy = false)
    (hhonest : z.Honest p) (hnoticed : Noticed m r.instance' (polls ++ [p]))
    (hon : (r.observe m p.nowMs p.heartbeat).2 ≠ .timedOut) :
    Tracks m (r.observe m p.nowMs p.heartbeat).1 (polls ++ [p]) p ∧
      ((r.observe m p.nowMs p.heartbeat).2 = .beats → Sustained m r.instance' (polls ++ [p])) := by
  have htiming := m.timing
  obtain ⟨hpoll, htrack⟩ := h
  have hcases := r.observe_cases m p.nowMs p.heartbeat
  rcases Nat.lt_or_ge p.nowMs r.lastPollMs with hjump | hle
  · -- The clock has jumped back: the child has to start over.
    rw [resync_of_jump hyoung hjump] at hcases
    rcases hcases with ⟨a, hshows, -, heq, -, hbeats⟩ | ⟨-, heq, hno, -⟩
    · rw [heq]
      refine ⟨Tracks.first hshows rfl rfl, fun hb => ?_⟩
      have := hbeats hb
      simp only [getD_none] at this
      omega
    · rw [heq]
      exact ⟨⟨rfl, .inl ⟨rfl, rfl, rfl⟩⟩, fun hb => absurd hb hno⟩
  · have hstep : InStep z p := hhonest.resolve_right (by omega)
    rw [resync_of_le hyoung hle] at hcases
    rcases hcases with ⟨a, hshows, hne, heq, -, hbeats⟩ | ⟨hsame, heq, hno, hout⟩
    · rw [heq]
      rcases htrack with ⟨-, hfirst, -⟩ |
        ⟨first, last, beats, b, before, mid, hstreak, hsub, hsplit, hlast, hts, hfirst, hvalid,
          hzf, hzl, hmid⟩
      · refine ⟨Tracks.first hshows rfl hfirst, fun hb => ?_⟩
        have := hbeats hb
        simp only [hfirst, getD_none] at this
        omega
      · -- The heartbeat goes on with the streak, as a gap would have been noticed.
        have hab : b ≠ a := fun hab => hne (by rw [← hab]; exact hts)
        have hnear : p.realMs ≤ last.realMs + m.heartbeatTimeoutMs := by
          rcases hnoticed before mid last p b a (by rw [hsplit]) hlast hshows hab
            (fun s hs => (hmid s hs).2) with hnear | ⟨s, hs, hfar⟩
          · exact hnear
          · have := (hmid s hs).1
            omega
        have hdiffers : last.heartbeat ≠ p.heartbeat := by
          rw [hlast, hshows]
          simpa using hab
        have hmore := hstreak.more hshows hdiffers hnear
        have hsub' : (beats ++ [p]).Sublist (polls ++ [p]) := hsub.append_right _
        refine ⟨⟨rfl, .inr ⟨first, p, beats ++ [p], a, polls, [], hmore, hsub', rfl, hshows, rfl,
          ?_, rfl, hzf.trans hstep, ⟨Nat.le_refl _, by simp⟩, by simp⟩⟩, fun hb => ?_⟩
        · simp [beat, hfirst]
        · refine ⟨first, p, _, hmore, hsub', ?_⟩
          have hlong := hbeats hb
          obtain ⟨hreal, hnow⟩ := hzf.trans hstep
          simp only [hfirst, getD_some] at hlong
          omega
    · rw [heq]
      refine ⟨⟨rfl, ?_⟩, fun hb => absurd hb hno⟩
      rcases htrack with hnone |
        ⟨first, last, beats, b, before, mid, hstreak, hsub, hsplit, hlast, hts, hfirst, hvalid,
          hzf, hzl, hmid⟩
      · exact .inl hnone
      · -- The child is silent, but not for too long.
        have hnear : ¬ p.nowMs - last.nowMs > m.heartbeatTimeoutMs := by
          have := mt hout.mpr hon
          simpa [timedOut, hvalid] using this
        obtain ⟨hreal, hnow⟩ := hzl.trans hstep
        refine .inr ⟨first, last, beats, b, before, mid ++ [p], hstreak,
          hsub.trans (List.sublist_append_left _ _), by simp [hsplit], hlast, hts, hfirst, hvalid,
          hzf.trans hstep, hzl.trans hstep, ?_⟩
        refine List.forall_mem_append.mpr ⟨hmid, List.forall_mem_singleton.mpr ?_⟩
        exact ⟨by omega, fun c hc => some.inj ((hsame c hc).symm.trans hts)⟩

/-! ## Runs -/

open Script

/-- A child that runs after a step has been started by it or has been polled by it. -/
inductive Child (t : Tick) (mem : Memory) (d : Disk) (outcome : StepOutcome) :
    RunningChild → Prop
  | fresh {child : ℕ} {slot : Slot} (born : outcome = .started slot child) :
      Child t mem d outcome ⟨child, slot, t.nowMs, t.nowMs, t.newInstance, none, none, none, false⟩
  | polled {r r' : RunningChild} {m : SlotManifest} {heartbeat : Option Heartbeat}
      (running : mem.running = some r) (manifest : d.manifest r.slot = some m)
      (seen : t.heartbeat = .ok heartbeat) (older : ∀ slot child, outcome ≠ .started slot child)
      (verdict : (r.observe m t.nowMs heartbeat).2 ≠ .timedOut)
      (next : r' = (r.observe m t.nowMs heartbeat).1 ∨ r'.healthy = true) :
      Child t mem d outcome r'

theorem Stopped.child {active : Slot}
    (h : Stopped t active state d ops (.ok (outcome, mem'))) (hr : mem'.running = some r') :
    Child t mem d outcome r' := by
  cases h with
  | halted | waits | rollsBack => cases hr
  | starts => cases hr; exact .fresh rfl

theorem Failure.no_child {slot : Slot}
    (h : Failure t m slot state d ops (.ok (outcome, mem'))) : mem'.running = none := by
  cases h <;> rfl

theorem Deed.child (h : Deed t mem d ops (.ok (outcome, mem')))
    (hr : mem'.running = some r') : Child t mem d outcome r' := by
  cases h with
  | disabled => cases hr
  | watched _ running active watched =>
    cases watched with
    | exits _ _ failure | silent _ _ _ _ failure => simp [failure.no_child] at hr
    | runs manifest _ seen verdict _ older =>
      cases hr
      refine .polled running manifest seen older ?_ (.inl rfl)
      rcases verdict with hv | ⟨hv, -⟩ <;> simp [hv]
    | confirms manifest _ seen verdict _ _ =>
      cases hr
      exact .polled running manifest seen (by simp) (by simp [verdict]) (.inr rfl)
  | replaces _ _ stopped | adopts _ _ stopped | goesOn _ _ stopped => exact stopped.child hr

def ConfirmsHealthy (t : Tick) (mem : Memory) (d : Disk) (r : RunningChild) (m : SlotManifest) :
    Prop :=
  t.disabled = .ok false ∧ mem.running = some r ∧ r.slot = d.current ∧
    d.manifest r.slot = some m ∧ t.poll = .ok .running ∧ r.healthy = false ∧
      ∃ heartbeat, t.heartbeat = .ok heartbeat ∧ (r.observe m t.nowMs heartbeat).2 = .beats

/-- The launcher, with the start of its child and all polls of it since. -/
structure PolledMachine where
  machine : Machine
  polls : List Poll

namespace PolledMachine

/-- What a tick sees of the child at a time. -/
def look (realMs : ℕ) (t : Tick) : Poll :=
  ⟨realMs, t.nowMs, t.heartbeat.toOption.join⟩

def record (polls : List Poll) (realMs : ℕ) (t : Tick) :
    Except Error (StepOutcome × Memory) → List Poll
  | .ok (.started _ _, _) => [⟨realMs, t.nowMs, none⟩]
  | .ok _ => polls ++ [look realMs t]
  | .error _ => []

def step (v : PolledMachine) (e : ℕ × Event) : PolledMachine where
  machine := v.machine.step e.2
  polls :=
    match e.2, v.machine.launcher with
    | .tick t _, some mem =>
      record v.polls e.1 t (returned (Launcher.step t mem) v.machine.disk)
    | _, _ => v.polls

/-- Between polls of a child, the clock is honest and a silence is noticed. -/
def Fair (v : PolledMachine) (e : ℕ × Event) : Prop :=
  ∀ t cut mem r m z, e.2 = .tick t cut → v.machine.launcher = some mem → mem.running = some r →
    v.machine.disk.manifest r.slot = some m → v.polls.getLast? = some z →
      z.Honest (look e.1 t) ∧ Noticed m r.instance' (v.polls ++ [look e.1 t])

def ConfirmsSustained (v : PolledMachine) (e : ℕ × Event) : Prop :=
  ∀ t cut mem r m, e.2 = .tick t cut → v.machine.launcher = some mem →
    ConfirmsHealthy t mem v.machine.disk r m →
      Sustained m r.instance' (v.polls ++ [look e.1 t])

def Tracked (v : PolledMachine) : Prop :=
  ∀ mem r m, v.machine.launcher = some mem → mem.running = some r → r.healthy = false →
    v.machine.disk.manifest r.slot = some m →
      ∃ z, v.polls.getLast? = some z ∧ Tracks m r v.polls z

variable {v : PolledMachine} {e : ℕ × Event}

theorem tracked_of_idle (h : ∀ mem, v.machine.launcher = some mem → mem.running = none) :
    v.Tracked := by
  intro mem r m hmem hr
  simp [h mem hmem] at hr

theorem ConfirmsSustained.of_tracked (h : v.Tracked) (hf : v.Fair e) : v.ConfirmsSustained e := by
  rintro t cut mem r m he hmem ⟨-, hr, -, hm, -, hyoung, heartbeat, hseen, hbeats⟩
  obtain ⟨z, hz, htracks⟩ := h mem r m hmem hr hyoung hm
  obtain ⟨hhonest, hnoticed⟩ := hf t cut mem r m z he hmem hr hm hz
  have hlook : (look e.1 t).heartbeat = heartbeat := by simp [look, hseen, Except.toOption]
  have hseen' : (r.observe m (look e.1 t).nowMs (look e.1 t).heartbeat).2 = .beats := by
    rw [hlook]
    exact hbeats
  exact (htracks.observe hyoung hhonest hnoticed (by simp [hseen'])).2 hseen'

theorem tracked_tick {d' : Disk}
    (h : v.Tracked) (hf : v.Fair e) (he : e.2 = .tick t none) (hmem : v.machine.launcher = some mem)
    (hrun : (Launcher.step t mem).run serve v.machine.disk = (.ok (outcome, mem'), d')) :
    (⟨⟨d', some mem'⟩, record v.polls e.1 t (.ok (outcome, mem'))⟩ : PolledMachine).Tracked := by
  have hdeed := step_cases t mem v.machine.disk
  have hd' : d'.manifest = v.machine.disk.manifest := by
    have hafter := run_eq_after (m := Launcher.step t mem) (s := v.machine.disk) serve_of_reads
    rw [hrun] at hafter
    simp only at hafter
    rw [hafter]
    exact (after_of_supervises hdeed.supervises).1
  rw [returned, hrun] at hdeed
  simp only at hdeed
  rintro mem'' r' m hmem'' hr' hyoung hm
  obtain rfl : mem' = mem'' := some.inj hmem''
  simp only [hd'] at hm
  cases hdeed.child hr' with
  | fresh houtcome =>
    subst houtcome
    exact ⟨_, rfl, rfl, .inl ⟨rfl, rfl, rfl⟩⟩
  | @polled r _ m₀ heartbeat hr hm₀ hseen holder hverdict hnext =>
    obtain rfl : r' = (r.observe m₀ t.nowMs heartbeat).1 := hnext.resolve_right (by simp [hyoung])
    obtain ⟨hhealthy, hslot, -, -⟩ := observe_keeps (r := r) (m := m₀) t.nowMs heartbeat
    rw [hhealthy] at hyoung
    obtain rfl : m₀ = m := some.inj (hm₀.symm.trans (hslot ▸ hm))
    obtain ⟨z, hz, htracks⟩ := h mem r m₀ hmem hr hyoung hm₀
    obtain ⟨hhonest, hnoticed⟩ := hf t none mem r m₀ z he hmem hr hm₀ hz
    have hlook : (look e.1 t).heartbeat = heartbeat := by simp [look, hseen, Except.toOption]
    have htracks' := (htracks.observe hyoung hhonest hnoticed (by rw [hlook]; exact hverdict)).1
    rw [hlook] at htracks'
    have hrecord : record v.polls e.1 t (.ok (outcome, mem')) = v.polls ++ [look e.1 t] := by
      cases outcome with
      | started slot child => exact absurd rfl (holder slot child)
      | _ => rfl
    exact ⟨look e.1 t, by simp [hrecord], by rw [hrecord]; exact htracks'⟩

theorem Tracked.step (h : v.Tracked) (hf : v.Fair e) : (v.step e).Tracked := by
  obtain ⟨real, event⟩ := e
  cases event with
  | restart cut =>
    refine tracked_of_idle fun mem hmem => ?_
    cases cut with
    | some n => simp [PolledMachine.step, Machine.step] at hmem
    | none =>
      have hraised := bringUp_cases v.machine.disk
      simp only [returned] at hraised
      rcases hrun : bringUp.run serve v.machine.disk with ⟨_ | raised, d'⟩
      · simp [PolledMachine.step, Machine.step, hrun] at hmem
      · simp only [PolledMachine.step, Machine.step, hrun, some.injEq] at hmem
        subst hmem
        rw [hrun] at hraised
        generalize changed bringUp v.machine.disk = ops at hraised
        cases hraised <;> rfl
  | tick t cut =>
    cases hmem : v.machine.launcher with
    | none => exact tracked_of_idle (by simp [PolledMachine.step, Machine.step, hmem])
    | some mem =>
      cases cut with
      | some n => exact tracked_of_idle (by simp [PolledMachine.step, Machine.step, hmem])
      | none =>
        obtain ⟨result, d', hrun⟩ : ∃ result d',
            (Launcher.step t mem).run serve v.machine.disk = (result, d') := ⟨_, _, rfl⟩
        cases result with
        | error error =>
          exact tracked_of_idle
            (by simp [PolledMachine.step, Machine.step, hmem, hrun, Machine.fail])
        | ok value =>
          have hnext := tracked_tick h hf rfl hmem hrun
          simpa [PolledMachine.step, Machine.step, hmem, hrun, returned] using hnext
  | request target cut =>
    cases hmem : v.machine.launcher with
    | none => exact tracked_of_idle (by simp [PolledMachine.step, Machine.step, hmem])
    | some mem =>
      cases cut with
      | some n => exact tracked_of_idle (by simp [PolledMachine.step, Machine.step, hmem])
      | none =>
        have hrequested := requestSlot_cases target mem v.machine.disk
        have hafter := run_eq_after (m := requestSlot target mem) (s := v.machine.disk)
          serve_of_reads
        simp only [returned, changed] at hrequested
        rcases hrun : (requestSlot target mem).run serve v.machine.disk with
          ⟨_ | mem', d'⟩
        all_goals
          rw [hrun] at hrequested hafter
          generalize changes serve reads (requestSlot target mem)
            v.machine.disk = ops at hrequested hafter
          simp only [PolledMachine.step, Machine.step, hmem, hrun]
          intro mem'' r m hmem'' hr hyoung hm
          obtain rfl := some.inj hmem''
          simp only at hafter hm
          subst hafter
          cases hrequested <;> exact h mem r m hmem hr hyoung hm
  | crash => exact tracked_of_idle (by simp [PolledMachine.step, Machine.step])
  | clearPid => exact h

/--
In every run with an honest clock in which silences are noticed, a child is confirmed only
after its heartbeat has kept changing for long enough in real time.
-/
theorem confirms_after_streak (w : Machine)
    (hidle : ∀ mem, w.launcher = some mem → mem.running = none) (run : List (ℕ × Event))
    (hfair : Along PolledMachine.step PolledMachine.Fair ⟨w, []⟩ run) :
    Along PolledMachine.step PolledMachine.ConfirmsSustained ⟨w, []⟩ run :=
  hfair.of_invariant (tracked_of_idle hidle) fun _ _ htracked hf =>
    ⟨.of_tracked htracked hf, htracked.step hf⟩

/-! ### A steady clock and one that jumps -/

/-- The child is started at time 0 and polled at the given real times and clock readings. -/
def sampleRun (polls : List (ℕ × ℕ × ℕ)) : List (ℕ × Event) :=
  (0, .restart none) :: (0, .tick (sampleTick 0 none) none) ::
    polls.map fun p => (p.1, .tick (sampleTick p.2.1 (some p.2.2)) none)

theorem noticed_of_near {m : SlotManifest} {inst : String} {polls : List Poll}
    (h : ∀ p ∈ polls, p.heartbeat.isSome → ∀ q ∈ polls,
      q.realMs ≤ p.realMs + m.heartbeatTimeoutMs) : Noticed m inst polls := by
  rintro before mid p q a b rfl hp - - -
  exact .inl (h p (by simp) (by rw [hp]; rfl) q (by simp))

/-- With a steady clock, the child is confirmed after ten seconds of heartbeats. -/
theorem confirms_after_streak_steady :
    Along PolledMachine.step PolledMachine.ConfirmsSustained ⟨⟨sampleDisk, none⟩, []⟩
      (sampleRun [(1000, 1000, 1), (6000, 6000, 2), (11000, 11000, 3)]) := by
  refine confirms_after_streak _ (by simp) _ ?_
  simp only [sampleRun, List.map, Along.cons, Along.nil, and_true]
  refine ⟨?_, ?_, ?_, ?_, ?_⟩
  all_goals
    rintro t cut mem r m z he hmem hr hm hz
    cases he <;> cases hmem <;> cases hr <;> cases hm <;> cases hz
  all_goals exact ⟨by decide, noticed_of_near (by decide)⟩

/-- A clock that jumps ahead by 20 seconds confirms a child after 0.1 seconds of heartbeats. -/
theorem jump_confirms_early : ¬ Along PolledMachine.step PolledMachine.ConfirmsSustained
    ⟨⟨sampleDisk, none⟩, []⟩ (sampleRun [(100, 100, 1), (200, 20200, 2)]) := by
  simp only [sampleRun, List.map, Along.cons, Along.nil, and_true, not_and]
  intro _ _ _ hlast
  obtain ⟨first, last, beats, hstreak, hsub, hlong⟩ := hlast _ _ _ _ _ rfl rfl
    ⟨rfl, rfl, rfl, rfl, rfl, rfl, _, rfl, by decide⟩
  have hlate : last.realMs ≤ 200 := by
    have hmem := hsub.subset hstreak.last_mem
    revert hmem
    exact (by decide : ∀ p ∈ [(⟨0, 0, none⟩ : Poll), ⟨100, 100, some ⟨"x", 1⟩⟩,
      ⟨200, 20200, some ⟨"x", 2⟩⟩], p.realMs ≤ 200) last
  have hhealthy : slotManifest.healthyAfterMs = 10000 := rfl
  omega

end PolledMachine

end KindleBridge.Launcher
