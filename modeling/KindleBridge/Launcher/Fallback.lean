import KindleBridge.Launcher.Machine

/-! # The fallback slot

Staging, rolling back, requests and the steps of the launcher may run side by side, call
by call, and a crash may end all of them. As long as nothing is staged while a switch is
pending or about to begin, the slot to go back to is not touched, and the file that names
the previous slot names one that is still as it was.
-/

namespace KindleBridge.Launcher

open Script

abbrev Contents := Option SlotManifest × Option (List UInt8)

def Disk.contents (d : Disk) (slot : Slot) : Contents := (d.manifest slot, d.executable slot)

/--
The files, with the contents of each slot when the last switch away from it began, and
those of the slot that the last confirmed switch has left.
-/
structure Depot where
  disk : Disk
  base : Slot → Contents
  confirmed : Contents

namespace Depot

def init (d : Disk) : Depot := ⟨d, d.contents, d.contents (d.previous.getD d.current)⟩

def serve (op : FileOp) (s : Depot) : op.Answer × Depot :=
  ((op.serve s.disk).1,
    { disk := (op.serve s.disk).2
      base := match op with
        | .writePending pending => fun slot =>
          if slot = pending.previous then s.disk.contents slot else s.base slot
        | _ => s.base
      confirmed := match op with
        | .writePrevious slot => s.base slot
        | _ => s.confirmed })

/-- The previous slot is as it was before the last confirmed switch. -/
def Kept (s : Depot) : Prop :=
  ∀ slot, s.disk.previous = some slot → s.disk.contents slot = s.confirmed

/-- The slot that a pending switch leaves is as it was. -/
structure Safe (s : Depot) : Prop where
  kept : s.Kept
  pending : ∀ pending, s.disk.pending = some pending →
    s.disk.contents pending.previous = s.base pending.previous

end Depot

inductive Job
  | stage (source : Option (List UInt8)) (digest : String)
  | rollBack
  | request (target : Slot) (mem : Memory)
  | select
  | openLauncher
  | tick (t : Tick) (mem : Memory)

/-- Kinds of jobs by what they may do to a switch and to the slots. -/
inductive Role
  | stages
  | switches
  | restores
  | supervises
  deriving DecidableEq

namespace Job

def role : Job → Role
  | .stage _ _ => .stages
  | .request _ _ | .select => .switches
  | .rollBack | .openLauncher => .restores
  | .tick _ _ => .supervises

def script (hash : List UInt8 → String) : Job → LauncherM Unit
  | .stage source digest => stageDaemon hash source digest >>= fun _ => pure ()
  | .rollBack => rollbackDaemon >>= fun _ => pure ()
  | .request target mem => requestSlot target mem >>= fun _ => pure ()
  | .select => selectStaged >>= fun _ => pure ()
  | .openLauncher => Launcher.openLauncher >>= fun _ => pure ()
  | .tick t mem => step t mem >>= fun _ => pure ()

end Job

/-- The jobs at work and the files that they share. -/
abbrev LauncherJobs := Workshop Role FileOp FileOp.Answer Depot Error Unit

inductive JobTurn
  | start (job : Job)
  | move (index : ℕ)
  | crash

namespace LauncherJobs

variable (hash : List UInt8 → String) {role : Role} {op : FileOp}

def Busy (w : LauncherJobs) (role : Role) : Prop :=
  ∃ p ∈ w.processes, p.tag = role ∧ p.script.pending.isSome

instance (w : LauncherJobs) (role : Role) : Decidable (w.Busy role) :=
  inferInstanceAs (Decidable (∃ p ∈ w.processes, _))

/-- The launcher makes one step at a time. -/
def step (w : LauncherJobs) : JobTurn → LauncherJobs
  | .start job =>
    if job.role = .supervises ∧ w.Busy .supervises then w
    else Workshop.step Depot.serve w (.start ⟨job.role, job.script hash⟩)
  | .move k => Workshop.step Depot.serve w (.move k)
  | .crash => Workshop.step Depot.serve w .crash

/-- The slot to whose files a call writes. -/
def slotWritten : FileOp → Option Slot
  | .writeExecutable slot _ | .writeManifest slot => some slot
  | _ => none

def Untouched (w : LauncherJobs) : JobTurn → Prop
  | .move k => ∀ p op, w.processes[k]? = some p → p.script.pending = some op →
      ∀ pending, w.state.disk.pending = some pending → slotWritten op ≠ some pending.previous
  | _ => True

/--
Nothing is staged while a switch is pending or being requested, and no switch is requested
while something is being staged.
-/
def Orderly (w : LauncherJobs) : JobTurn → Prop
  | .start job =>
    (job.role = .stages → w.state.disk.pending = none ∧ ¬ w.Busy .switches) ∧
      (job.role = .switches → ¬ w.Busy .stages)
  | _ => True

instance (w : LauncherJobs) : ∀ turn, Decidable (w.Orderly turn)
  | .start _ => inferInstanceAs (Decidable (_ ∧ _))
  | .move _ | .crash => inferInstanceAs (Decidable True)

/-! ## What each role may do -/

def Allowed : Role → FileOp → Depot → Prop
  | .stages, .writeExecutable _ _, s | .stages, .writeManifest _, s =>
    s.disk.pending = none ∧ s.disk.previous = none
  | _, .writeExecutable _ _, _ | _, .writeManifest _, _ => False
  | .supervises, .writePrevious slot, s =>
    s.disk.pending ≠ none ∧ s.disk.contents slot = s.base slot
  | _, .writePrevious _, _ => False
  | .switches, .writePending _, _ => True
  | _, .writePending _, _ => False
  | .supervises, .removePending, _ => True
  | _, .removePending, _ => False
  | _, _, _ => True

/-- What a role takes for granted about the others. -/
def Relies : Role → Depot → Depot → Prop
  | .stages, s, t => s.disk.pending = none →
      t.disk.pending = none ∧ (s.disk.previous = none → t.disk.previous = none)
  | .supervises, s, t => (s.Safe → t.Safe) ∧ (s.disk.pending ≠ none → t.disk.pending ≠ none ∧
      ∀ slot, s.disk.contents slot = s.base slot → t.disk.contents slot = t.base slot)
  | .switches, _, _ | .restores, _, _ => True

def terms (role : Role) : Terms FileOp FileOp.Answer Depot where
  serve := Depot.serve
  rely := Relies role
  allowed := Allowed role
  refl s := by
    cases role <;> first | trivial | exact fun h => ⟨h, id⟩ | exact ⟨id, fun h => ⟨h, fun _ => id⟩⟩
  trans {s t u} h h' := by
    cases role with
    | stages =>
      intro hs
      obtain ⟨ht, hprevious⟩ := h hs
      exact ⟨(h' ht).1, fun hp => (h' ht).2 (hprevious hp)⟩
    | supervises =>
      refine ⟨fun hs => h'.1 (h.1 hs), fun hs => ?_⟩
      obtain ⟨ht, hcontents⟩ := h.2 hs
      exact ⟨(h'.2 ht).1, fun slot hslot => (h'.2 ht).2 slot (hcontents slot hslot)⟩
    | switches | restores => trivial

/-- Roles that may be at work at the same time. -/
def Together : Role → Role → Prop
  | .stages, .switches | .switches, .stages | .supervises, .supervises => False
  | _, _ => True

theorem Together.symm {i j : Role} (h : Together i j) : Together j i := by
  cases i <;> cases j <;> exact h

theorem safe_of_allowed {s : Depot} (h : s.Safe)
    (ha : Allowed role op s) : (Depot.serve op s).2.Safe := by
  cases op with
  | writeExecutable slot bytes | writeManifest slot =>
    -- Only staging writes to a slot, and then neither file names one.
    cases role with
    | stages => exact ⟨by simp [Depot.Kept, Depot.serve, FileOp.serve, ha.2],
        by simp [Depot.serve, FileOp.serve, ha.1]⟩
    | switches | restores | supervises => cases ha
  | writePending pending =>
    refine ⟨h.kept, fun q hq => ?_⟩
    obtain rfl := Option.some.inj hq
    simp [Depot.serve, FileOp.serve, Disk.contents]
  | removePending => exact ⟨h.kept, by simp [Depot.serve, FileOp.serve]⟩
  | writePrevious slot =>
    cases role with
    | supervises =>
      refine ⟨fun slot' hslot => ?_, h.pending⟩
      obtain rfl := Option.some.inj hslot
      exact ha.2
    | stages | switches | restores => cases ha
  | removePrevious => exact ⟨by simp [Depot.Kept, Depot.serve, FileOp.serve], h.pending⟩
  | _ => exact ⟨h.kept, h.pending⟩

theorem relies_of_allowed {i j : Role} {s : Depot} (hij : Together i j) (h : s.Safe)
    (ha : Allowed i op s) : Relies j s (Depot.serve op s).2 := by
  cases j with
  | switches | restores => trivial
  | stages =>
    intro hp
    cases op with
    | writePending pending =>
      cases i with
      | switches => cases hij
      | _ => cases ha
    | writePrevious slot =>
      cases i with
      | supervises => exact absurd hp ha.1
      | _ => cases ha
    | removePending => exact ⟨rfl, id⟩
    | removePrevious => exact ⟨hp, fun _ => rfl⟩
    | _ => exact ⟨hp, id⟩
  | supervises =>
    refine ⟨fun _ => safe_of_allowed h ha, fun hp => ?_⟩
    cases op with
    | writeExecutable slot bytes | writeManifest slot =>
      cases i with
      | stages => exact absurd ha.1 hp
      | _ => cases ha
    | removePending =>
      cases i with
      | supervises => cases hij
      | _ => cases ha
    | writePending pending =>
      refine ⟨by simp [Depot.serve, FileOp.serve], fun slot hslot => ?_⟩
      simp only [Depot.serve]
      split_ifs
      · rfl
      · exact hslot
    | _ => exact ⟨hp, fun _ => id⟩

theorem fits : Workshop.Fits terms Together Depot.Safe Depot.serve :=
  ⟨fun _ => rfl, relies_of_allowed, safe_of_allowed⟩

/-! ## The jobs keep to their roles -/

variable {hash} {s : Depot}

theorem stage_meets (source : Option (List UInt8)) (digest : String) (hp : s.disk.pending = none) :
    (stageDaemon hash source digest).Meets (terms .stages) (fun _ _ => True) s := by
  unfold stageDaemon
  cases checkSource hash source digest with
  | error e => exact fun _ _ => trivial
  | ok bytes =>
    -- The switch is not pending before each call, nor is a previous slot named once it is removed.
    intro t ht
    have hpt := (ht hp).1
    refine ⟨trivial, fun t₁ ht₁ => ⟨trivial, ?_⟩⟩
    have hp₁ := (ht₁ hpt).1
    intro t₂ ht₂
    obtain ⟨hp₂, hprev₂⟩ := ht₂ hp₁
    refine ⟨⟨hp₂, hprev₂ rfl⟩, fun t₃ ht₃ => ?_⟩
    obtain ⟨hp₃, hprev₃⟩ := ht₃ hp₂
    exact ⟨⟨hp₃, hprev₃ (hprev₂ rfl)⟩, fun t₄ _ => ⟨trivial, fun _ _ => trivial⟩⟩

/-- A call that a role may make at any time. -/
def Always (role : Role) (op : FileOp) : Prop := ∀ s, Allowed role op s

theorem always_of_reads (h : op.reads) : Always role op := by
  intro s
  cases op <;> cases role <;> trivial

theorem only_read (role : Role) (op : FileOp) (h : op.reads) : (file op).Only (Always role) :=
  only_perform (always_of_reads h)

theorem only_validateSlot (role : Role) (slot : Slot) : (validateSlot slot).Only (Always role) := by
  apply (only_read role _ rfl).bind
  rintro (_ | manifest)
  · exact only_fail _
  · apply (only_read role _ rfl).bind
    intro found
    split
    · exact only_pure _
    · exact only_fail _

theorem only_openLauncher (h : ∀ slot, Always role (.writeCurrent slot)) :
    openLauncher.Only (Always role) := by
  refine Only.bind ?_ fun _ => ?_
  · apply (only_read role _ rfl).bind
    rintro (_ | pending)
    · exact only_pure _
    · apply (only_read role _ rfl).bind
      exact fun _ => only_ite (only_perform (h _)) (only_ite (only_pure _) (only_fail _))
  · exact (only_read role _ rfl).bind fun _ => (only_read role _ rfl).bind fun _ => only_pure _

theorem only_requestSlot (target : Slot) (mem : Memory) :
    (requestSlot target mem).Only (Always .switches) := by
  apply (only_read _ _ rfl).bind
  intro current
  split_ifs
  · exact only_pure _
  · apply (only_read _ _ rfl).bind
    rintro (_ | pending)
    · refine (only_validateSlot _ _).bind fun _ => ?_
      refine (only_perform fun _ => trivial).bind fun _ => ?_
      refine (only_perform fun _ => trivial).bind fun _ => ?_
      exact (only_perform fun _ => trivial).bind fun _ => only_pure _
    · exact only_ite (only_pure _) (only_fail _)

theorem only_selectStaged : selectStaged.Only (Always .switches) := by
  apply (only_read _ _ rfl).bind
  refine fun pid => only_ite (only_fail _) ?_
  apply (only_read _ _ rfl).bind
  rintro (_ | slot)
  · exact only_fail _
  · have hopen : openLauncher.Only (Always .switches) := only_openLauncher fun _ _ => trivial
    refine hopen.bind fun mem => ?_
    refine (only_requestSlot slot mem).bind fun _ => ?_
    exact (only_perform fun _ => trivial).bind fun _ => only_pure _

theorem only_rollbackDaemon : rollbackDaemon.Only (Always .restores) := by
  have hrest (previous : Slot) : (do
      file .removeNext
      file .removePrevious
      return previous : LauncherM Slot).Only (Always .restores) := by
    refine (only_perform fun _ => trivial).bind fun _ => ?_
    exact (only_perform fun _ => trivial).bind fun _ => only_pure _
  apply (only_read _ _ rfl).bind
  refine fun pid => only_ite (only_fail _) ?_
  apply (only_read _ _ rfl).bind
  refine fun pending => only_ite (only_fail _) ?_
  apply (only_read _ _ rfl).bind
  rintro (_ | previous)
  · exact only_fail _
  · apply (only_read _ _ rfl).bind
    refine fun current => only_ite ?_ (hrest previous)
    refine (only_validateSlot _ _).bind fun _ => ?_
    exact (only_perform fun _ => trivial).bind fun _ => hrest previous

/-! ## The steps of the launcher -/

theorem only_rollback (t : Tick) (pending : PendingSwitch) :
    (rollback t pending).Only (Always .supervises) := by
  refine (only_perform fun _ => trivial).bind fun _ => ?_
  refine (only_perform fun _ => trivial).bind fun _ => ?_
  exact (only_perform fun _ => trivial).bind fun _ => only_pure _

theorem only_recordFailure (t : Tick) (m : SlotManifest) (slot : Slot) (state : WatchdogState) :
    (recordFailure t m slot state).Only (Always .supervises) := by
  have hcrash (state : WatchdogState) : (recordCrash t m state).Only (Always .supervises) := by
    unfold recordCrash
    split_ifs <;> exact (only_perform fun _ => trivial).bind fun _ => only_pure _
  apply (only_read _ _ rfl).bind
  rintro (_ | pending)
  · exact hcrash _
  · exact only_ite (only_rollback t pending) (hcrash _)

theorem only_stopChild (t : Tick) : (stopChild t).Only (Always .supervises) :=
  (only_ofExcept _).bind fun _ => only_perform fun _ => trivial

theorem only_stepStopped (t : Tick) (active : Slot) (state : WatchdogState) :
    (stepStopped t active state).Only (Always .supervises) := by
  unfold stepStopped
  split_ifs
  · exact only_pure _
  · exact only_pure _
  · apply (only_validateSlot _ _).attempt.bind
    rintro (e | m)
    · apply (only_read _ _ rfl).bind
      rintro (_ | pending)
      · exact only_fail _
      · exact only_ite (only_rollback t pending) (only_fail _)
    · refine (only_perform fun _ => trivial).bind fun _ => ?_
      refine (only_ofExcept _).bind fun _ => ?_
      exact (only_perform fun _ => trivial).bind fun _ => only_pure _

theorem meets_of_only {α : Type} {script : LauncherM α}
    (h : script.Only (Always role)) (s : Depot) :
    script.Meets (terms role) (fun _ _ => True) s := by
  have hallowed : ∀ op, Always role op → ∀ s, (terms role).allowed op s := fun _ hop => hop
  exact h.meets hallowed s

theorem confirm_meets {slot : Slot} {pending : Option PendingSwitch}
    (hp : s.disk.pending = pending) (h : s.Safe) : (do
      match pending with
      | some pending =>
        if pending.target = slot then
          file (.writePrevious pending.previous)
          file .removePending
        else pure ()
      | none => pure ()
      return .fresh slot : LauncherM WatchdogState).Meets (terms .supervises)
        (fun _ _ => True) s := by
  cases pending with
  | none => exact fun _ _ => trivial
  | some pending =>
    dsimp only
    split_ifs
    · intro t ht
      obtain ⟨hpending, hcontents⟩ := ht.2 (by simp [hp])
      exact ⟨⟨hpending, hcontents _ (h.pending pending hp)⟩, fun _ _ =>
        ⟨trivial, fun _ _ => trivial⟩⟩
    · exact fun _ _ => trivial

theorem confirmHealthy_meets (slot : Slot) (h : s.Safe) :
    (confirmHealthy slot).Meets (terms .supervises) (fun _ _ => True) s := by
  intro t ht
  have hwritten : (Depot.serve (.writeState (.fresh slot)) t).2.Safe :=
    ⟨(ht.1 h).kept, (ht.1 h).pending⟩
  exact ⟨trivial, fun t₁ ht₁ => ⟨trivial, confirm_meets rfl (ht₁.1 hwritten)⟩⟩

theorem safe_of_only {α : Type} {script : LauncherM α} (h : s.Safe)
    (ho : script.Only (Always .supervises)) :
    script.Meets (terms .supervises) (fun _ t => t.Safe) s := by
  have hacross : Across (terms .supervises) fun s t => s.Safe → t.Safe :=
    ⟨fun hrely => hrely.1, fun hallowed hs => safe_of_allowed hs hallowed,
      fun hst htu hs => htu (hst hs)⟩
  exact ((meets_of_only ho s).across hacross).mono fun _ _ hpost => hpost.2 h

theorem judge_meets (t : Tick) (m : SlotManifest) (state : WatchdogState) (r : RunningChild)
    (verdict : Verdict) (h : s.Safe) :
    (judge t m state r verdict).Meets (terms .supervises) (fun _ _ => True) s := by
  cases verdict with
  | beats =>
    unfold judge
    split_ifs
    · exact fun _ _ => trivial
    · exact (confirmHealthy_meets r.slot h).bind (fun _ _ _ _ _ => trivial) fun _ _ _ => trivial
  | waits =>
    unfold judge
    split_ifs <;> exact fun _ _ => trivial
  | timedOut =>
    exact meets_of_only ((only_stopChild t).bind fun _ => only_recordFailure t m r.slot state) s

theorem stepRunning_meets (t : Tick) (state : WatchdogState) (r : RunningChild) (h : s.Safe) :
    (stepRunning t state r).Meets (terms .supervises) (fun _ _ => True) s := by
  refine (safe_of_only h (only_read _ _ rfl)).bind ?_ fun _ _ _ => trivial
  rintro (_ | m) s₁ hs₁
  · exact fun _ _ => trivial
  · refine (safe_of_only hs₁ (only_ofExcept t.poll)).bind ?_ fun _ _ _ => trivial
    rintro (_ | _) s₂ hs₂
    · refine (safe_of_only hs₂ (only_ofExcept t.heartbeat)).bind ?_ fun _ _ _ => trivial
      intro heartbeat s₃ hs₃
      exact judge_meets t m state _ _ hs₃
    · have hremove : (file .removeDaemonPid).Only (Always .supervises) :=
        only_perform fun _ => trivial
      exact meets_of_only (hremove.bind fun _ => only_recordFailure t m r.slot state) s₂

theorem step_meets (t : Tick) (mem : Memory) (h : s.Safe) :
    (Launcher.step t mem).Meets (terms .supervises) (fun _ _ => True) s := by
  refine (safe_of_only h (only_ofExcept t.disabled)).bind ?_ fun _ _ _ => trivial
  intro disabled s₁ hs₁
  dsimp only
  split_ifs
  · refine meets_of_only ?_ s₁
    cases mem.running with
    | none => exact only_pure _
    | some r => exact (only_stopChild t).bind fun _ => only_pure _
  · refine (safe_of_only hs₁ (only_read _ _ rfl)).bind ?_ fun _ _ _ => trivial
    intro active s₂ hs₂
    cases mem.running with
    | none =>
      refine meets_of_only (Only.bind ?_ fun state => only_stepStopped t active state) s₂
      unfold adopt
      split_ifs
      · exact only_pure _
      · exact (only_perform fun _ => trivial).bind fun _ => only_pure _
    | some r =>
      dsimp only
      split_ifs
      · exact stepRunning_meets t mem.state r hs₂
      · refine meets_of_only ((only_stopChild t).bind fun _ => ?_) s₂
        exact (only_perform fun _ => trivial).bind fun _ => only_stepStopped t active _

/-! ## Runs -/

theorem job_meets (job : Job) (h : s.Safe) (hp : job.role = .stages → s.disk.pending = none) :
    (job.script hash).Meets (terms job.role) (fun _ _ => True) s := by
  have hend {α : Type} {role : Role} {script : LauncherM α}
      (hscript : script.Meets (terms role) (fun _ _ => True) s) :
      (script >>= fun _ => pure ()).Meets (terms role) (fun _ _ => True) s :=
    hscript.bind (fun _ _ _ _ _ => trivial) fun _ _ _ => trivial
  cases job with
  | stage source digest => exact hend (stage_meets source digest (hp rfl))
  | rollBack => exact hend (meets_of_only only_rollbackDaemon s)
  | request target mem => exact hend (meets_of_only (only_requestSlot target mem) s)
  | select => exact hend (meets_of_only only_selectStaged s)
  | openLauncher =>
    have hopen : openLauncher.Only (Always .restores) := only_openLauncher fun _ _ => trivial
    exact hend (meets_of_only hopen s)
  | tick t mem => exact hend (step_meets t mem h)

variable {w : LauncherJobs}

theorem sound_start {job : Job} (h : w.Sound terms Together Depot.Safe)
    (ho : w.Orderly (.start job)) (hone : ¬ (job.role = .supervises ∧ w.Busy .supervises)) :
    (Workshop.step Depot.serve w (.start ⟨job.role, job.script hash⟩)).Sound terms Together
      Depot.Safe := by
  refine h.start (job_meets job h.state fun hrole => (ho.1 hrole).1) ?_
  intro p hp hlive _
  have hbusy : w.Busy p.tag := ⟨p, hp, rfl, Option.isSome_iff_ne_none.mpr hlive⟩
  have htogether : Together p.tag job.role := by
    cases hrole : job.role <;> cases htag : p.tag <;> try trivial
    all_goals rw [htag] at hbusy
    · exact absurd hbusy (ho.1 hrole).2
    · exact absurd hbusy (ho.2 hrole)
    · exact absurd ⟨hrole, hbusy⟩ hone
  exact ⟨htogether, htogether.symm⟩

theorem sound_step {turn : JobTurn} (h : w.Sound terms Together Depot.Safe)
    (ho : w.Orderly turn) : (w.step hash turn).Sound terms Together Depot.Safe := by
  cases turn with
  | start job =>
    simp only [step]
    split_ifs with hbusy
    · exact h
    · exact sound_start h ho hbusy
  | move k =>
    have hstarts : Workshop.Starts terms Together Depot.Safe w (.move k) := trivial
    exact h.step fits hstarts
  | crash =>
    have hstarts : Workshop.Starts terms Together Depot.Safe w .crash := trivial
    exact h.step fits hstarts

theorem untouched_of_sound (h : w.Sound terms Together Depot.Safe) (turn : JobTurn) :
    w.Untouched turn := by
  cases turn with
  | start | crash => trivial
  | move k =>
    intro p op hp hop pending hpending hslot
    have hallowed : Allowed p.tag op w.state := h.permitted (.move k) p op hp hop
    cases op with
    | writeExecutable slot bytes | writeManifest slot =>
      cases htag : p.tag with
      | stages => simp [htag, Allowed, hpending] at hallowed
      | _ => simp [htag, Allowed] at hallowed
    | _ => cases hslot

/--
In every orderly interleaving, with crashes at any time, no slot is written to that a
pending switch has left, and the previous slot is as it was before the last confirmed
switch.
-/
theorem fallback_kept (hash : List UInt8 → String) (d : Disk) (run : List JobTurn)
    (ho : Along (LauncherJobs.step hash) LauncherJobs.Orderly ⟨[], .init d⟩ run) :
    Along (LauncherJobs.step hash) (fun w turn => w.Untouched turn ∧ (w.step hash turn).state.Kept)
      ⟨[], .init d⟩ run := by
  have hinit : (⟨[], .init d⟩ : LauncherJobs).Sound terms Together Depot.Safe := by
    refine ⟨⟨?_, fun _ _ => rfl⟩, by simp, by simp⟩
    intro slot hslot
    have hprevious : d.previous = some slot := hslot
    simp [Depot.init, hprevious]
  refine ho.of_invariant (I := fun w => w.Sound terms Together Depot.Safe) hinit ?_
  intro w turn hw ho
  exact ⟨⟨untouched_of_sound hw turn, (sound_step hw ho).state.kept⟩, sound_step hw ho⟩

def sampleUpdate : List UInt8 :=
  [0x7f, 0x45, 0x4c, 0x46, 1, 1, 0, 0, 0, 0, 0, 0, 0, 0, 0, 0, 0, 0, 40, 0]

/-- A slot is staged, and then it is selected. -/
theorem fallback_kept_in_order :
    Along (LauncherJobs.step fun _ => "") (fun w turn => w.Untouched turn ∧
      (w.step (fun _ => "") turn).state.Kept) ⟨[], .init sampleDisk⟩
      (.start (.stage (some sampleUpdate) "") :: List.replicate 5 (.move 0) ++
        .start .select :: List.replicate 13 (.move 1)) :=
  fallback_kept _ _ _ (by decide +kernel)

/-- While slot B is on trial, staging overwrites slot A. -/
theorem staging_overwrites_fallback :
    ¬ Along (LauncherJobs.step fun _ => "") (fun w turn => w.Untouched turn ∧
      (w.step (fun _ => "") turn).state.Kept) ⟨[], .init failingDisk⟩
      (.start .select :: List.replicate 13 (.move 0) ++
        .start (.stage (some sampleUpdate) "") :: List.replicate 2 (.move 1) ++ [.move 1]) := by
  intro h
  have huntouched := (Along.append.mp h).2.1.1
  exact huntouched _ (.writeExecutable .a sampleUpdate) rfl rfl ⟨.a, .b, by decide⟩ rfl rfl

end LauncherJobs

end KindleBridge.Launcher
