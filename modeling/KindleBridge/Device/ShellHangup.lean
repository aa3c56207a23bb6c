import KindleBridge.Device.ShellWorker

/-! # Hanging up a shell

After a hangup every step of the worker that does not wait for the process brings it nearer to
killing the process group. The worker does not wait as long as the input in front of the hangup
fits into the pipe, and if it does not fit, a process that does not read holds the worker up
for good.
-/

namespace KindleBridge.Device

open WorkerPoint List Option ProcessMove

namespace ShellProcess

variable {x y : ShellProcess} {m : ProcessMove}

/-! ## Within the bound -/

theorem owedBy_append {commands : List ShellCommand} (h : .shutdown ∈ commands)
    (c : ShellCommand) : owedBy (commands ++ [c]) = owedBy commands := by
  induction commands with
  | nil => cases h
  | cons c' commands ih =>
    cases c' with
    | write bytes | resize =>
      have hmem : .shutdown ∈ commands := by simpa using h
      simp only [cons_append, owedBy, ih hmem]
    | closeInput | shutdown => rfl

theorem owedBy_append_shutdown (commands : List ShellCommand) :
    owedBy (commands ++ [.shutdown]) = owedBy commands := by
  induction commands with
  | nil => rfl
  | cons c commands ih =>
    cases c with
    | write bytes | resize => simp only [cons_append, owedBy, ih]
    | closeInput | shutdown => rfl

/-- The hangup is queued, or the grace period has begun. -/
def HungUp (x : ShellProcess) : Prop :=
  .shutdown ∈ x.commands ∨ x.shutdownDeadline.isSome ∧ x.input = false

theorem mem_tail_of_ne {c : ShellCommand} {cs : List ShellCommand} (hc : x.commands = c :: cs)
    (hne : c ≠ .shutdown) (h : .shutdown ∈ x.commands) : .shutdown ∈ cs := by
  rw [hc] at h
  exact (mem_cons.mp h).resolve_left hne.symm

theorem Works.hungUp (hw : x.Works y) (h : x.HungUp) : y.HungUp := by
  cases hw with
  | begins _ hc => exact h.imp_left (mem_tail_of_ne hc (by simp))
  | skips _ hc _ hne => exact h.imp_left (mem_tail_of_ne hc hne)
  | closesInput _ hc => exact h.imp (mem_tail_of_ne hc (by simp)) fun hd => ⟨hd.1, rfl⟩
  | hangsUp => exact .inr ⟨rfl, rfl⟩
  | breaks => exact h.imp_right fun hd => ⟨hd.1, rfl⟩
  | idles | writes | fills | kills | passes | ends | polls | sleeps | rests => exact h

theorem Sound.not_waits (hx : x.Sound) (hfits : x.InputFits) : ¬ x.Waits := by
  rintro ⟨b, rest, hpoint, hreading, hroom⟩
  have hinput := (hx.writing _ hpoint).1
  have hle := hfits hreading
  simp only [owed, hinput, if_true, hpoint, WorkerPoint.rest, length_cons] at hle
  omega

theorem inputFits_of_closed (h : x.input = false) : x.InputFits := by
  intro _
  simp [owed, h]

theorem InputFits.congr (h : x.InputFits) (hreading : y.reading = x.reading)
    (howed : y.owed + x.room ≤ x.owed + y.room) : y.InputFits := by
  intro hr
  have hle := h (hreading ▸ hr)
  omega

theorem Works.inputFits (hw : x.Works y) (hx : x.Sound) (h : x.InputFits) : y.InputFits := by
  cases hw with
  | begins hpoint hc =>
    refine h.congr rfl ?_
    simp [owed, hpoint, hc, owedBy, WorkerPoint.rest]
  | @skips command _ hpoint hc =>
    refine h.congr rfl ?_
    cases command with
    | write | resize | closeInput | shutdown =>
      simp only [owed, hpoint, hc, owedBy, WorkerPoint.rest]
      split_ifs <;> simp_all
  | closesInput | hangsUp | breaks => exact inputFits_of_closed rfl
  | writes hpoint _ hle | fills hpoint _ hle =>
    refine h.congr rfl ?_
    simp only [owed, hpoint, (hx.writing _ hpoint).1, if_true, WorkerPoint.rest, length_drop]
    omega
  | idles hpoint | kills hpoint | passes hpoint | ends hpoint | polls hpoint | sleeps hpoint =>
    exact h.congr rfl (by simp [owed, hpoint, WorkerPoint.rest])
  | rests => exact h

theorem cost_pos (c : ShellCommand) : 0 < c.cost := by
  cases c <;> simp [ShellCommand.cost]

theorem Works.bound_lt (hw : x.Works y) (hx : x.Sound) (hup : x.HungUp) (hwaits : ¬ x.Waits)
    (hdone : ¬ y.Done) : y.bound + 1 ≤ x.bound := by
  have hopen : x.commands = [] → x.shutdownDeadline.isSome := by
    intro hc
    exact (hup.resolve_left (by simp [hc])).1
  cases hd : x.shutdownDeadline with
  | none | some deadline =>
    cases hw with
    | kills => exact absurd (.inl (by simp)) hdone
    | ends => exact absurd (.inr rfl) hdone
    | rests hpoint => exact absurd (.inr hpoint) hdone
    | idles hpoint hc =>
      obtain ⟨deadline', hd'⟩ := isSome_iff_exists.mp (hopen hc)
      simp only [bound, rounds, hpoint, hc, hd', cost]
      omega
    | begins hpoint hc | closesInput hpoint hc =>
      simp only [bound, rounds, hpoint, hc, hd, map_cons, sum_cons, ShellCommand.cost, cost]
      omega
    | @skips c _ hpoint hc =>
      have hpos := cost_pos c
      simp only [bound, rounds, hpoint, hc, hd, map_cons, sum_cons]
      omega
    | hangsUp hpoint hp =>
      rcases hp with ⟨hc, rfl⟩ | ⟨hc, rfl, -, rfl⟩
      · simp only [bound, rounds, hpoint, hc, hd, map_cons, sum_cons, ShellCommand.cost,
          cost, getD_some, getD_none]
        omega
      · obtain ⟨deadline', hd'⟩ := isSome_iff_exists.mp (hopen hc)
        simp only [bound, rounds, hpoint, hc, hd', cost, getD_some]
        omega
    | writes hpoint | breaks hpoint =>
      simp only [bound, rounds, hpoint, hd, cost]
      omega
    | @fills rest hpoint hr hlt =>
      have hroom : x.room ≠ 0 := by
        intro h0
        obtain ⟨b, rest', rfl⟩ := exists_cons_of_ne_nil (hx.writing rest hpoint).2
        exact hwaits ⟨b, rest', hpoint, hr, h0⟩
      simp only [bound, rounds, hpoint, hd, cost, length_drop]
      omega
    | passes hpoint hnow =>
      simp only [bound, rounds, hpoint, hd, cost, mem_def, some.injEq, forall_eq'] at hnow ⊢
      omega
    | polls hpoint | sleeps hpoint =>
      simp only [bound, rounds, hpoint, hd, cost, processPollInterval]
      omega

theorem bound_now (elapsed : ℕ) : bound { x with now := x.now + elapsed } ≤ x.bound := by
  have hrounds : rounds { x with now := x.now + elapsed } ≤ x.rounds := by
    unfold rounds
    cases x.shutdownDeadline with
    | none | some deadline =>
      cases x.point with
      | polling | sleeping | receiving | checking | writing rest | ended =>
        dsimp only
        omega
  simp only [bound]
  omega

theorem Works.signals (hw : x.Works y) : x.signals ⊆ y.signals := by
  cases hw with
  | hangsUp =>
    dsimp only
    split_ifs <;> simp
  | kills => exact subset_append_left _ _
  | _ => exact List.Subset.refl _

theorem Done.step (h : x.Done) (hx : x.Sound) (m : ProcessMove) : (x.step m).Done := by
  cases m with
  | worker elapsed =>
    rcases h with hkill | hended
    · exact .inl ((hx.tick elapsed).works.signals hkill)
    · refine .inr ?_
      simp only [ShellProcess.step, stepWorker, hended]
  | send | disconnect | reads | closes | exits | loses => exact h

theorem Done.exec (h : x.Done) (hx : x.Sound) (moves : List ProcessMove) : (x.exec moves).Done := by
  induction moves generalizing x with
  | nil => exact h
  | cons m moves ih => exact ih (h.step hx m) (hx.step m)

/-- After a hangup, with input that fits. -/
structure Hanging (x : ShellProcess) : Prop where
  sound : x.Sound
  up : x.HungUp
  fits : x.InputFits

theorem Hanging.step (h : x.Hanging) (m : ProcessMove) : (x.step m).Hanging := by
  refine ⟨h.sound.step m, ?_, ?_⟩
  · cases m with
    | worker elapsed =>
      exact (h.sound.tick elapsed).works.hungUp h.up
    | send c => exact h.up.imp_left (mem_append_left _)
    | disconnect | reads | closes | exits | loses => exact h.up
  · cases m with
    | worker elapsed =>
      exact (h.sound.tick elapsed).works.inputFits (h.sound.tick elapsed) h.fits
    | send c =>
      rcases h.up with hmem | ⟨-, hinput⟩
      · intro hr
        simpa only [ShellProcess.step, owed, owedBy_append hmem] using h.fits hr
      · exact inputFits_of_closed hinput
    | reads count =>
      intro hr
      exact Nat.le_trans (h.fits hr) (Nat.le_add_right _ _)
    | closes => exact fun hr => absurd hr (by simp [ShellProcess.step])
    | disconnect | exits | loses => exact h.fits

theorem Hanging.bound_step (h : x.Hanging) (m : ProcessMove) (hdone : ¬ (x.step m).Done) :
    (x.step m).bound + m.workerSteps ≤ x.bound + m.arriving := by
  cases m with
  | worker elapsed =>
    have hlt := (h.sound.tick elapsed).works.bound_lt (h.sound.tick elapsed) h.up
      (h.sound.not_waits h.fits) hdone
    have hle := x.bound_now elapsed
    simp only [workerSteps, arriving, ShellProcess.step]
    omega
  | send c =>
    simp only [ShellProcess.step, bound, rounds, workerSteps, arriving,
      map_append, sum_append, map_cons, map_nil, sum_cons, sum_nil]
    omega
  | disconnect | reads | closes | exits | loses => exact Nat.le_refl _

theorem Hanging.effective (h : x.Hanging) : x.Effective := by
  intro moves
  suffices hall : (x.exec moves).Hanging ∧ ((x.exec moves).Done ∨
      (x.exec moves).bound + (moves.map workerSteps).sum ≤ x.bound + (moves.map arriving).sum) by
    refine hall.2.imp_right fun hle => ⟨hall.1.sound.not_waits hall.1.fits, by omega⟩
  induction moves generalizing x with
  | nil => exact ⟨h, .inr (Nat.le_refl _)⟩
  | cons m moves ih =>
    obtain ⟨hend, hrest⟩ := ih (h.step m)
    refine ⟨hend, ?_⟩
    by_cases hdone : (x.step m).Done
    · exact .inl (hdone.exec (h.sound.step m) moves)
    · have hstep := h.bound_step m hdone
      refine hrest.imp_right fun hle => ?_
      simp only [exec, foldl_cons, map_cons, sum_cons] at hle ⊢
      omega

/-! ## A process that does nothing -/

/-- There is more input than fits into the pipe, and the process runs. -/
structure Overfull (x : ShellProcess) : Prop where
  sound : x.Sound
  running : x.Running
  shutdown : .shutdown ∈ x.commands
  reading : x.reading
  room : x.room < x.owed

theorem Overfull.not_done (h : x.Overfull) : ¬ x.Done := by
  rintro (hkill | hended)
  · exact h.sound.signals h.running.deadline hkill
  · simpa [h.running.exited, h.running.lost] using h.sound.ended hended

theorem Overfull.congr (h : x.Overfull) (hy : y.Sound)
    (hrunning : y.Running) (hmem : .shutdown ∈ y.commands)
    (hreading : y.reading = x.reading) (howed : x.owed + y.room ≤ y.owed + x.room) :
    y.Overfull := by
  refine ⟨hy, hrunning, hmem, hreading ▸ h.reading, ?_⟩
  have := h.room
  omega

theorem Works.overfull (hw : x.Works y) (h : x.Overfull) : y.Overfull := by
  have hsound := hw.sound h.sound
  have hroom := h.room
  obtain ⟨hconnected, hdeadline, hexited, hlost⟩ := h.running
  have hinput : x.input = true := by
    by_contra hc
    simp [owed, hc] at hroom
  cases hw with
  | begins hpoint hc =>
    refine h.congr hsound ⟨hconnected, hdeadline, hexited, hlost⟩
      (mem_tail_of_ne hc (by simp) h.shutdown) rfl ?_
    simp [owed, hpoint, hc, owedBy, WorkerPoint.rest]
  | @skips c _ hpoint hc hclose hshut hempty =>
    refine h.congr hsound ⟨hconnected, hdeadline, hexited, hlost⟩
      (mem_tail_of_ne hc hshut h.shutdown) rfl ?_
    cases c with
    | write bytes => simp [owed, hpoint, hc, owedBy, WorkerPoint.rest, hempty bytes rfl hinput]
    | resize => simp [owed, hpoint, hc, owedBy, WorkerPoint.rest]
    | closeInput => exact absurd rfl hclose
    | shutdown => exact absurd rfl hshut
  | closesInput hpoint hc => simp [owed, hpoint, hc, owedBy, WorkerPoint.rest] at hroom
  | hangsUp hpoint hp =>
    rcases hp with ⟨hc, -⟩ | ⟨hc, -⟩ <;> simp [owed, hpoint, hc, owedBy, WorkerPoint.rest] at hroom
  | writes hpoint _ hle | fills hpoint _ hle =>
    refine h.congr hsound ⟨hconnected, hdeadline, hexited, hlost⟩ h.shutdown rfl ?_
    simp only [owed, hpoint, hinput, if_true, WorkerPoint.rest, length_drop]
    omega
  | breaks _ hreading => simp [h.reading] at hreading
  | kills _ hd => simp [hdeadline] at hd
  | ends _ he => simp [hexited, hlost] at he
  | idles hpoint | passes hpoint | polls hpoint | sleeps hpoint =>
    refine h.congr hsound ⟨hconnected, hdeadline, hexited, hlost⟩ h.shutdown rfl ?_
    simp [owed, hpoint, WorkerPoint.rest]
  | rests => exact h

theorem Overfull.waits (h : x.Overfull) : ∃ n, (x.exec (replicate n (.worker 0))).Overfull ∧
      (x.exec (replicate n (.worker 0))).Waits := by
  induction hb : x.bound using Nat.strongRecOn generalizing x with
  | ind bound ih =>
    by_cases hwaits : x.Waits
    · exact ⟨0, h, hwaits⟩
    · have hstep := h.sound.works.overfull h
      have hlt := h.sound.works.bound_lt h.sound (.inl h.shutdown) hwaits hstep.not_done
      obtain ⟨n, hn⟩ := ih _ (by omega) hstep rfl
      exact ⟨n + 1, hn⟩

/-- Hanging up a shell that runs is effective exactly if the input that is queued fits into the
pipe of the process. -/
theorem hangup_effective_iff (pid : Fin (2 ^ 31)) (room : ℕ) (history : List ProcessMove)
    (h : ((start pid room).exec history).Running) :
    ((start pid room).exec history).hangup.Effective ↔
      ((start pid room).exec history).InputFits := by
  have hx := (sound_start pid room).exec history
  generalize (start pid room).exec history = x at h hx ⊢
  have howed : x.hangup.owed = x.owed := by
    simp only [hangup, step, owed, owedBy_append_shutdown]
  have hmem : .shutdown ∈ x.hangup.commands := mem_append_right _ (mem_singleton_self _)
  constructor
  · intro heffective hreading
    by_contra hroom
    have hover : x.hangup.Overfull :=
      ⟨hx.step _, ⟨h.connected, h.deadline, h.exited, h.lost⟩, hmem, hreading,
        by rw [howed]; exact Nat.lt_of_not_le hroom⟩
    obtain ⟨n, hn, hwaits⟩ := hover.waits
    rcases heffective (replicate n (.worker 0)) with hdone | ⟨hfree, -⟩
    · exact hn.not_done hdone
    · exact hfree hwaits
  · intro hfits
    have hhanging : x.hangup.Hanging :=
      ⟨hx.step _, .inl hmem, fun hr => howed ▸ hfits hr⟩
    exact hhanging.effective

/-- A shell whose queued input fits into the pipe is hung up. -/
theorem fitting_input_hangup_effective :
    ((start 7 3).exec [.send (.write [1, 2, 3])]).hangup.Effective :=
  (hangup_effective_iff 7 3 [.send (.write [1, 2, 3])] ⟨rfl, rfl, rfl, rfl⟩).mpr (by
    intro _
    decide)

theorem Waits.exec (h : x.Waits) (n : ℕ) : (x.exec (replicate n (.worker 0))).Waits ∧
      (x.exec (replicate n (.worker 0))).signals = x.signals := by
  induction n generalizing x with
  | zero => exact ⟨h, rfl⟩
  | succ n ih =>
    obtain ⟨b, rest, hpoint, hreading, hroom⟩ := h
    have hstep : x.step (.worker 0) = x := by
      simp only [step, stepWorker, hpoint, writeSome, hreading, hroom]
      cases x
      simp_all
    have hwaits : (x.step (.worker 0)).Waits := by
      rw [hstep]
      exact ⟨b, rest, hpoint, hreading, hroom⟩
    obtain ⟨hend, hsignals⟩ := ih hwaits
    exact ⟨hend, hsignals.trans (congrArg signals hstep)⟩

/-- A pipe that takes three bytes, and four bytes for a process that does not read: the worker
waits in the middle of its write, and does not come to the hangup behind it. -/
theorem unread_input_hangup_waits : ((start 7 3).exec [.send (.write [1, 2, 3, 4])]).Running ∧
      ∀ n, (((start 7 3).exec [.send (.write [1, 2, 3, 4])]).hangup.exec
        (.worker 0 :: .worker 0 :: List.replicate n (.worker 0))).Waits ∧
        .kill ∉ (((start 7 3).exec [.send (.write [1, 2, 3, 4])]).hangup.exec
          (.worker 0 :: .worker 0 :: List.replicate n (.worker 0))).signals := by
  refine ⟨⟨rfl, rfl, rfl, rfl⟩, fun n => ?_⟩
  have hwaits : (((start 7 3).exec [.send (.write [1, 2, 3, 4])]).hangup.exec
      [.worker 0, .worker 0]).Waits := ⟨4, [], rfl, rfl, rfl⟩
  obtain ⟨hend, hsignals⟩ := hwaits.exec n
  refine ⟨hend, fun hkill => ?_⟩
  have : .kill ∈ (((start 7 3).exec [.send (.write [1, 2, 3, 4])]).hangup.exec
      [.worker 0, .worker 0]).signals := hsignals ▸ hkill
  exact absurd this (by decide)

end ShellProcess

end KindleBridge.Device
