import KindleBridge.Launcher.Machine

/-! # A rollback that is cut

A rollback moves the pointer, forgets what is staged and then the rollback point itself. A cut
one is completed by the next. In between, the pointer may already be back while another slot
is still staged, and a start then switches to that slot.
-/

namespace KindleBridge.Launcher

open Script FileOp List

variable {c d : Disk} {slot staged : Slot}

/-- The files after a rollback to the slot. -/
def Disk.restored (d : Disk) (slot : Slot) : Disk :=
  { d with current := slot, next := none, previous := none }

/-- What a rollback leaves behind when it is cut. -/
inductive Cut (d : Disk) (slot : Slot) : Disk → Prop
  | before : Cut d slot d
  | moved {next : Option Slot} (kept : next = d.next ∨ next = none) :
      Cut d slot { d with current := slot, next := next }
  | restored : Cut d slot (d.restored slot)

/-- A start of the launcher switches to another slot. -/
def Disk.Switches (d : Disk) : Prop := (bringUp.run serve d).2.current ≠ d.current

theorem Cut.current (h : Cut d slot c) (hd : d.current = slot) : c.current = slot := by
  cases h <;> first | exact hd | rfl

theorem rollbackDaemon_run (h : returned rollbackDaemon d = .ok slot) :
    d.daemonPid = false ∧ d.pending = none ∧ d.previous = some slot ∧
      (rollbackDaemon.run serve d).2 = d.restored slot ∧
      (∀ n, Cut d slot (rollbackDaemon.cut serve n d)) ∧
      ∃ n, rollbackDaemon.cut serve n d = { d with current := slot } := by
  obtain ⟨-, e, herror⟩ | ⟨slot', hok, hpid, hp, hprevious, hops⟩ := rollbackDaemon_cases d
  · rw [h] at herror
    cases herror
  obtain rfl := Except.ok.inj (h.symm.trans hok)
  refine ⟨hpid, hp, hprevious, ?_⟩
  have hcut (n : ℕ) := cut_eq_after (m := rollbackDaemon) (s := d) serve_of_reads n
  have hmoved := exists_cut (m := rollbackDaemon) (s := d) serve_of_reads 1
  rw [run_eq_after (m := rollbackDaemon) (s := d) serve_of_reads]
  simp only [changed] at hops
  simp only [hops] at hcut hmoved ⊢
  by_cases hsame : slot = d.current
  · subst hsame
    simp only [if_true, nil_append] at hcut ⊢
    refine ⟨rfl, fun n => ?_, 0, rfl⟩
    obtain ⟨k, hk, -⟩ := hcut n
    rw [hk]
    rcases k with _ | _ | k
    · exact .before
    · exact .moved (.inr rfl)
    · rw [take_of_length_le (by simp)]
      exact .restored
  · simp only [if_neg hsame, singleton_append] at hcut hmoved ⊢
    refine ⟨rfl, fun n => ?_, hmoved⟩
    obtain ⟨k, hk, -⟩ := hcut n
    rw [hk]
    rcases k with _ | _ | _ | k
    · exact .before
    · exact .moved (.inl rfl)
    · exact .moved (.inr rfl)
    · rw [take_of_length_le (by simp)]
      exact .restored

theorem rollbackDaemon_again (hpid : c.daemonPid = false) (hp : c.pending = none)
    (hprevious : c.previous = some c.current) : returned rollbackDaemon c = .ok c.current := by
  simp [returned, rollbackDaemon, file, serve, hpid, hp, hprevious]

theorem switches_iff (hpid : c.daemonPid = false) (hp : c.pending = none) : c.Switches ↔
    ∃ staged, c.next = some staged ∧ c.current ≠ staged ∧ c.Valid staged := by
  unfold Disk.Switches bringUp selectStaged openLauncher recoverPendingPointer requestSlot
    validateSlot file Disk.Valid
  cases hn : c.next with
  | none => simp [run_bind, serve, hp, hn]
  | some staged =>
    by_cases hs : c.current = staged
    · simp [run_bind, serve, hpid, hp, hn, hs]
    · cases hm : c.manifest staged <;> cases he : c.executable staged <;>
        simp [run_bind, serve, hpid, hp, hn, hs, hm, he, Ne.symm hs]

theorem Cut.again (h : returned rollbackDaemon d = .ok slot) (hc : Cut d slot c) :
    (rollbackDaemon.run serve c).2 = d.restored slot ∧
      (c.current = slot → ∀ k, (rollbackDaemon.cut serve k c).current = slot) := by
  obtain ⟨hpid, hp, hprevious, hrun, hcut, -⟩ := rollbackDaemon_run h
  cases hc with
  | before => exact ⟨hrun, fun hd k => (hcut k).current hd⟩
  | @moved next =>
    obtain ⟨-, -, -, hrun, hcut, -⟩ := rollbackDaemon_run
      (rollbackDaemon_again (c := { d with current := slot, next := next }) hpid hp hprevious)
    exact ⟨hrun, fun hd k => (hcut k).current hd⟩
  | restored =>
    obtain ⟨hnone, -⟩ | ⟨_, -, -, -, hprevious, -⟩ := rollbackDaemon_cases (d.restored slot)
    · refine ⟨by rw [run_eq_of_changed_nil hnone], fun _ k => ?_⟩
      obtain ⟨k', hk, -⟩ := cut_eq_after (m := rollbackDaemon) (s := d.restored slot)
        serve_of_reads k
      rw [hk, show changes serve reads rollbackDaemon _ = [] from hnone, take_nil]
      rfl
    · cases hprevious

/--
A rollback that is cut anywhere is completed by another one, which never moves the pointer
away again. A start in between stays with the restored slot exactly if no other slot that
could be started is staged.
-/
theorem cut_rollback_completed (h : returned rollbackDaemon d = .ok slot) :
    (∀ n, (rollbackDaemon.run serve (rollbackDaemon.cut serve n d)).2 =
        (rollbackDaemon.run serve d).2 ∧ ((rollbackDaemon.cut serve n d).current = slot → ∀ k,
        (rollbackDaemon.cut serve k (rollbackDaemon.cut serve n d)).current = slot)) ∧
    ((∀ n, (rollbackDaemon.cut serve n d).current = slot →
        ¬ (rollbackDaemon.cut serve n d).Switches) ↔
      ∀ staged, d.next = some staged → staged ≠ slot → ¬ d.Valid staged) := by
  obtain ⟨hpid, hp, -, hrun, hcut, n, hn⟩ := rollbackDaemon_run h
  refine ⟨fun n => hrun ▸ (hcut n).again h, fun hkept staged hs hne hvalid => ?_, ?_⟩
  · refine hkept n (by rw [hn]) ?_
    rw [hn, switches_iff (c := { d with current := slot }) hpid hp]
    exact ⟨staged, hs, hne.symm, hvalid⟩
  · intro hrests n hcurrent
    have hc := hcut n
    generalize rollbackDaemon.cut serve n d = c at hc hcurrent
    cases hc with
    | before =>
      rw [switches_iff hpid hp]
      rintro ⟨staged, hs, hne, hvalid⟩
      exact hrests staged hs (hcurrent ▸ hne.symm) hvalid
    | moved kept =>
      rw [switches_iff (c := { d with current := slot, next := _ }) hpid hp]
      rintro ⟨staged, rfl, hne, hvalid⟩
      exact hrests staged (kept.resolve_right (by simp)).symm hne.symm hvalid
    | restored =>
      rw [switches_iff (c := d.restored slot) hpid hp]
      exact fun ⟨_, hs, _⟩ => by cases hs

/-- Slot B is active and its update confirmed, but it is still staged. -/
def stagedDisk : Disk := { sampleDisk with current := .b, previous := some .a, next := some .b }

theorem cut_rollback_completed_unstaged :
    (rollbackDaemon.run serve (rollbackDaemon.cut serve 7 { stagedDisk with next := none })).2 =
      (rollbackDaemon.run serve { stagedDisk with next := none }).2 :=
  ((@cut_rollback_completed { stagedDisk with next := none } .a rfl).1 7).1

/-- A crash behind the first change leaves the old daemon active and the other one staged. -/
theorem cut_rollback_switches : returned rollbackDaemon stagedDisk = .ok .a ∧
    ∃ n, (rollbackDaemon.cut serve n stagedDisk).current = .a ∧
      (bringUp.run serve (rollbackDaemon.cut serve n stagedDisk)).2.current = .b :=
  ⟨rfl, 7, rfl, rfl⟩

end KindleBridge.Launcher
