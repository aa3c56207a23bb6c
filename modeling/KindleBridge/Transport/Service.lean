import KindleBridge.Foundations.Runs
import KindleBridge.Transport.Actor

/-! # Service of the queues

The scheduler refines one queue for each stream. It serves a frame exactly when a class can
pay for its first eligible frame within the visits of one call; a frame that is too large
for that waits although the line is idle.
-/

namespace KindleBridge.Transport

open Function List

/-- A scheduler, with the frames that it has taken in and handed out, oldest first. -/
structure Traffic where
  scheduler : FrameScheduler
  accepted : List ScheduledFrame
  dequeued : List ScheduledFrame

inductive SchedulerCall
  | enqueue (item : ScheduledFrame)
  | dequeue

namespace Traffic

def new (maxQueuedBytes : ℕ) : Traffic := ⟨.new maxQueuedBytes, [], []⟩

def step (r : Traffic) : SchedulerCall → Traffic
  | .enqueue item =>
    match (FrameScheduler.enqueue item).run r.scheduler with
    | (.ok _, scheduler) => { r with scheduler := scheduler, accepted := r.accepted ++ [item] }
    | (.error _, scheduler) => { r with scheduler := scheduler }
  | .dequeue =>
    { r with
      scheduler := r.scheduler.dequeue.2
      dequeued := r.dequeued ++ r.scheduler.dequeue.1.toList }

/-- What has come in and not yet gone out is held, and every stream is a queue. -/
structure Refines (r : Traffic) (log : List ScheduledFrame) : Prop where
  holds : r.scheduler.Holds log
  bound : r.scheduler.queuedBytes ≤ r.scheduler.maxQueuedBytes
  quanta : r.scheduler.quanta = TrafficClass.defaultQuantum
  perm : (r.dequeued ++ log).Perm r.accepted
  lanes : ∀ id, lane ScheduledFrame.streamId id r.accepted =
    lane ScheduledFrame.streamId id r.dequeued ++ lane ScheduledFrame.streamId id log

variable {r : Traffic} {log : List ScheduledFrame}

theorem step_enqueue (r : Traffic) (item : ScheduledFrame) : r.step (.enqueue item) =
    if r.scheduler.queuedBytes + item.wireLen ≤ r.scheduler.maxQueuedBytes then
      { r with scheduler := r.scheduler.push item, accepted := r.accepted ++ [item] }
    else r := by
  rw [step, FrameScheduler.run_enqueue]
  split_ifs <;> rfl

theorem refines_new (maxQueuedBytes : ℕ) : (new maxQueuedBytes).Refines [] :=
  ⟨FrameScheduler.holds_new _, Nat.zero_le _, rfl, .nil, fun _ => rfl⟩

theorem Refines.enqueue (h : r.Refines log) (item : ScheduledFrame) :
    ∃ log', (r.step (.enqueue item)).Refines log' := by
  rw [step_enqueue]
  split_ifs with hle
  · refine ⟨log ++ [item], h.holds.push, hle, h.quanta, ?_, fun id => ?_⟩
    · rw [← append_assoc]
      exact h.perm.append_right [item]
    · simp [h.lanes id]
  · exact ⟨log, h⟩

theorem Refines.dequeue (h : r.Refines log) : ∃ log', (r.step .dequeue).Refines log' := by
  have hserves := h.holds.dequeue
  have hle := h.holds.dequeue_le
  obtain ⟨hquanta, hmax⟩ := r.scheduler.dequeue_fixed
  unfold step
  rcases hd : r.scheduler.dequeue with ⟨_ | item, t⟩
  · rw [hd] at hserves hle hmax hquanta
    refine ⟨log, hserves, ?_, hquanta.trans h.quanta, ?_, ?_⟩
    · exact (hle.trans h.bound).trans hmax.ge
    · simpa using h.perm
    · simpa using h.lanes
  · rw [hd] at hserves hle hmax hquanta
    obtain ⟨log', htakes, hholds⟩ := hserves
    refine ⟨log', hholds, ?_, hquanta.trans h.quanta, ?_, fun id => ?_⟩
    · exact (hle.trans h.bound).trans hmax.ge
    · simp only [Option.toList_some, append_assoc, singleton_append]
      exact ((htakes.perm.symm).append_left r.dequeued).trans h.perm
    · simp only [Option.toList_some, lane_append, h.lanes id, append_assoc]
      by_cases hid : item.streamId = id
      · subst hid
        rw [htakes.lane_self]
        simp [lane_cons_self]
      · rw [htakes.lane_of_ne hid]
        simp [lane_cons_of_ne hid]

theorem Refines.step (h : ∃ log, r.Refines log) (a : SchedulerCall) :
    ∃ log, (r.step a).Refines log := by
  obtain ⟨log, h⟩ := h
  cases a with
  | enqueue item => exact h.enqueue item
  | dequeue => exact h.dequeue

theorem refines_run (maxQueuedBytes : ℕ) (run : List SchedulerCall) :
    ∃ log, (run.foldl step (new maxQueuedBytes)).Refines log := by
  have hall : Along step (fun _ _ => True) (new maxQueuedBytes) run :=
    Along.of_forall fun _ _ _ => trivial
  exact hall.foldl (I := fun r => ∃ log, r.Refines log) ⟨[], refines_new _⟩
    fun _ a h _ => Refines.step h a

theorem step_maxQueuedBytes (r : Traffic) (a : SchedulerCall) :
    (r.step a).scheduler.maxQueuedBytes = r.scheduler.maxQueuedBytes := by
  cases a with
  | dequeue => exact r.scheduler.dequeue_fixed.2
  | enqueue item =>
    rw [step_enqueue]
    split_ifs <;> rfl

theorem run_maxQueuedBytes (r : Traffic) (run : List SchedulerCall) :
    (run.foldl step r).scheduler.maxQueuedBytes = r.scheduler.maxQueuedBytes := by
  induction run generalizing r with
  | nil => rfl
  | cons a run ih => exact (ih (r.step a)).trans (step_maxQueuedBytes r a)

/--
After any calls, the scheduler counts the bytes that it holds, within its bound; a refused
frame changes nothing; nothing is lost or doubled; and each stream leaves in the order in
which it came.
-/
theorem scheduler_refines_queues (maxQueuedBytes : ℕ) (run : List SchedulerCall) :
    let r := run.foldl step (new maxQueuedBytes)
    r.scheduler.queuedBytes = (r.scheduler.items.map ScheduledFrame.wireLen).sum ∧
      r.scheduler.queuedBytes ≤ maxQueuedBytes ∧
      (∀ item e, ((FrameScheduler.enqueue item).run r.scheduler).1 = .error e →
        ((FrameScheduler.enqueue item).run r.scheduler).2 = r.scheduler) ∧
      (r.dequeued ++ r.scheduler.items).Perm r.accepted ∧
      ∀ id, lane ScheduledFrame.streamId id r.dequeued <+:
        lane ScheduledFrame.streamId id r.accepted := by
  intro r
  obtain ⟨log, h⟩ := refines_run maxQueuedBytes run
  have hperm := h.holds.items_perm
  refine ⟨?_, ?_, ?_, ?_, ?_⟩
  · rw [(hperm.map _).sum_eq]
    exact h.holds.bytes
  · exact h.bound.trans (run_maxQueuedBytes (new maxQueuedBytes) run).le
  · intro item e he
    rw [FrameScheduler.run_enqueue] at he ⊢
    split_ifs at he ⊢
    rfl
  · exact (hperm.append_left r.dequeued).trans h.perm
  · intro id
    exact ⟨_, (h.lanes id).symm⟩

end Traffic

/-! ## Progress -/

namespace FrameScheduler

variable {s t : FrameScheduler} {log : List ScheduledFrame} {item : ScheduledFrame}
  {c : TrafficClass}

/-- The frame that a class would serve next. -/
def first (s : FrameScheduler) (c : TrafficClass) : Option ScheduledFrame :=
  (s.queues c).find? fun item => (s.streamClasses item.streamId).head? = some c

/-- So many visits do not let the class pay for its next frame. -/
def Unpaid (s : FrameScheduler) (c : TrafficClass) (visits : ℕ) : Prop :=
  ∀ item ∈ s.first c, s.deficits c + visits * s.quanta c < item.wireLen

/-- How often a class is visited in so many attempts. -/
def visits (cursor c : TrafficClass) : ℕ → ℕ
  | 0 => 0
  | attempts + 1 => visits cursor.next c attempts + if c = cursor then 1 else 0

theorem visits_round (cursor c : TrafficClass) (n : ℕ) :
    visits cursor c (n + classCount) = visits cursor c n + 1 := by
  induction n generalizing cursor with
  | zero => cases cursor <;> cases c <;> rfl
  | succ n ih =>
    rw [Nat.add_right_comm, visits, visits, ih]
    omega

theorem visits_rounds (cursor c : TrafficClass) (n : ℕ) : visits cursor c (classCount * n) = n := by
  induction n with
  | zero => rfl
  | succ n ih => rw [Nat.mul_succ, visits_round, ih]

theorem find_eligible (s : FrameScheduler) :
    (s.queues s.cursor).find? s.eligible = s.first s.cursor := rfl

theorem visit_none_iff : s.visit.1 = none ↔ s.Unpaid s.cursor 1 := by
  unfold visit Unpaid
  rw [find_eligible]
  cases hf : s.first s.cursor with
  | none => simp
  | some item =>
    unfold paid addQuantum
    by_cases hd : s.deficits s.cursor < item.wireLen
    · by_cases hp : s.deficits s.cursor + s.quanta s.cursor < item.wireLen <;> simp [hd, hp]
    · have hp : ¬ s.deficits s.cursor + s.quanta s.cursor < item.wireLen := by omega
      simp [hd, hp]

/-- What a visit without service leaves behind. -/
structure Passed (s t : FrameScheduler) : Prop where
  first : ∀ c, t.first c = s.first c
  quanta : t.quanta = s.quanta
  cursor : t.cursor = s.cursor.next
  others : ∀ c ≠ s.cursor, t.deficits c = s.deficits c
  saved : ∀ item ∈ s.first s.cursor, t.deficits s.cursor = s.deficits s.cursor + s.quanta s.cursor

theorem passed_of_visit_none (h : s.visit.1 = none) : Passed s s.visit.2 := by
  have hunpaid := visit_none_iff.mp h
  unfold Unpaid at hunpaid
  unfold visit
  rw [find_eligible]
  cases hf : s.first s.cursor with
  | none =>
    refine ⟨fun _ => rfl, rfl, rfl, ?_, by simp [hf]⟩
    intro c hc
    simp [advance, hc]
  | some item =>
    have hless := hunpaid item hf
    have hpaid : s.paid item = s.addQuantum := if_pos (by omega)
    have hshort : s.addQuantum.deficits s.cursor < item.wireLen := by
      simpa [addQuantum] using hless
    simp only [hpaid, hshort, if_true]
    refine ⟨fun _ => rfl, rfl, rfl, ?_, ?_⟩
    · intro c hc
      simp [advance, addQuantum, hc]
    · intro item' _
      simp [advance, addQuantum]

theorem Passed.unpaid_iff (h : Passed s t) (n : ℕ) :
    t.Unpaid c n ↔ s.Unpaid c (n + if c = s.cursor then 1 else 0) := by
  unfold Unpaid
  rw [h.first c, h.quanta]
  refine forall₂_congr fun item hitem => ?_
  split_ifs with hc
  · subst hc
    rw [h.saved item hitem, Nat.add_mul, Nat.one_mul]
    omega
  · rw [h.others c hc, Nat.add_zero]

theorem Unpaid.mono {n m : ℕ} (h : s.Unpaid c n) (hm : m ≤ n) : s.Unpaid c m := by
  intro item hitem
  have hmul := Nat.mul_le_mul_right (s.quanta c) hm
  have := h item hitem
  omega

theorem dequeueLoop_none_iff (attempts : ℕ) : (s.dequeueLoop attempts).1 = none ↔
    ∀ c, 0 < visits s.cursor c attempts → s.Unpaid c (visits s.cursor c attempts) := by
  induction attempts generalizing s with
  | zero => simp [dequeueLoop, visits]
  | succ attempts ih =>
    rcases hv : s.visit with ⟨_ | item, t⟩
    · have hnone : s.visit.1 = none := by rw [hv]
      have hpassed := passed_of_visit_none hnone
      rw [hv] at hpassed
      rw [dequeueLoop, hv]
      refine ih.trans (forall_congr' fun c => ?_)
      rw [hpassed.cursor, hpassed.unpaid_iff, visits]
      split_ifs with hc
      · subst hc
        constructor
        · intro h _
          rcases Nat.eq_zero_or_pos (visits s.cursor.next s.cursor attempts) with h0 | h0
          · rw [h0]
            exact visit_none_iff.mp hnone
          · exact h h0
        · intro h _
          exact h (Nat.succ_pos _)
      · exact Iff.rfl
    · rw [dequeueLoop, hv]
      constructor
      · intro h
        cases h
      · intro h
        have hone : 1 ≤ visits s.cursor s.cursor (attempts + 1) := by simp [visits]
        have hnone := visit_none_iff.mpr ((h s.cursor hone).mono hone)
        rw [hv] at hnone
        cases hnone

/-- A call of the scheduler visits every class so often. -/
def rounds : ℕ := 512

/-- Some class can pay for its next frame within one call. -/
def Payable (s : FrameScheduler) : Prop :=
  ∃ c, ∃ item ∈ s.first c, item.wireLen ≤ s.deficits c + rounds * s.quanta c

theorem dequeue_none_iff : s.dequeue.1 = none ↔ s.isEmpty ∨ ¬ s.Payable := by
  unfold dequeue isEmpty
  split_ifs with hbytes
  · simp [hbytes]
  · rw [dequeueLoop_none_iff]
    simp only [visits_rounds, hbytes, Payable, Unpaid, rounds]
    simp

theorem Holds.first (h : s.Holds (item :: log)) : s.first item.trafficClass = some item := by
  unfold FrameScheduler.first
  rw [h.queues]
  simp [h.classes, lane_cons_self]

theorem Holds.eq_nil_iff (h : s.Holds log) : s.isEmpty ↔ log = [] := by
  unfold isEmpty
  rw [h.bytes]
  cases log with
  | nil => simp
  | cons item log => simp [ScheduledFrame.wireLen, Wire.headerLen]

theorem Holds.mem_of_first (h : s.Holds log) (hf : s.first c = some item) :
    item ∈ log ∧ item.trafficClass = c := by
  have hmem := mem_of_find?_eq_some hf
  rw [h.queues] at hmem
  simpa using hmem

theorem Holds.payable (h : s.Holds (item :: log))
    (hcost : item.wireLen ≤ rounds * s.quanta item.trafficClass) : s.Payable :=
  ⟨item.trafficClass, item, h.first, hcost.trans (Nat.le_add_left _ _)⟩

end FrameScheduler

namespace Traffic

open FrameScheduler

/--
A call leaves a frame in the queues exactly when no class can pay for its next frame
with what it has saved and the quanta of all rounds; there is always such a next frame.
-/
theorem dequeue_progress (maxQueuedBytes : ℕ) (run : List SchedulerCall) :
    let s := (run.foldl step (new maxQueuedBytes)).scheduler
    (s.isEmpty ∨ ∃ c, (s.first c).isSome) ∧
      ((∀ item ∈ s.items, item.wireLen ≤ rounds * item.trafficClass.defaultQuantum) →
        s.isEmpty ∨ s.Payable) ∧
      ((s.dequeue.1 = none ↔ s.isEmpty) ↔ s.isEmpty ∨ s.Payable) := by
  intro s
  obtain ⟨log, h⟩ := refines_run maxQueuedBytes run
  have hempty := h.holds.eq_nil_iff
  refine ⟨?_, ?_, ?_⟩
  · cases log with
    | nil => exact .inl (hempty.mpr rfl)
    | cons item log => exact .inr ⟨item.trafficClass, by rw [h.holds.first]; rfl⟩
  · intro hcost
    cases log with
    | nil => exact .inl (hempty.mpr rfl)
    | cons item log =>
      have hmem : item ∈ s.items := h.holds.items_perm.mem_iff.mpr mem_cons_self
      exact .inr (h.holds.payable (by rw [h.quanta]; exact hcost item hmem))
  · rw [dequeue_none_iff]
    tauto

theorem waits_alone {maxQueuedBytes : ℕ} {item : ScheduledFrame}
    (hle : item.wireLen ≤ maxQueuedBytes)
    (hcost : rounds * item.trafficClass.defaultQuantum < item.wireLen) :
    let s := ([SchedulerCall.enqueue item].foldl step (new maxQueuedBytes)).scheduler
    s.dequeue.1 = none ∧ s.isEmpty = false := by
  have hrun : ([SchedulerCall.enqueue item].foldl step (new maxQueuedBytes)).scheduler =
      (FrameScheduler.new maxQueuedBytes).push item := by
    rw [foldl_cons, foldl_nil, step_enqueue]
    simp [new, FrameScheduler.new, hle]
  have hholds : ((FrameScheduler.new maxQueuedBytes).push item).Holds [item] :=
    (holds_new maxQueuedBytes).push
  intro s
  change s = _ at hrun
  rw [hrun]
  constructor
  · refine dequeue_none_iff.mpr (.inr ?_)
    rintro ⟨c, other, hfirst, hpays⟩
    obtain ⟨hmem, rfl⟩ := hholds.mem_of_first hfirst
    obtain rfl := mem_singleton.mp hmem
    have hzero : ((FrameScheduler.new maxQueuedBytes).push other).deficits other.trafficClass +
        rounds * other.trafficClass.defaultQuantum =
          rounds * other.trafficClass.defaultQuantum := Nat.zero_add _
    have : other.wireLen ≤ rounds * other.trafficClass.defaultQuantum := hpays.trans_eq hzero
    omega
  · have := hholds.eq_nil_iff
    simpa using this

def bulkFrame (length : ℕ) : ScheduledFrame where
  trafficClass := .bulk
  frame :=
    ⟨⟨1, 0, .data, 0, 1, 0, length, 0, 0⟩, List.replicate length 0, length_replicate.symm⟩

theorem bulkFrame_wireLen (length : ℕ) : (bulkFrame length).wireLen = Wire.headerLen + length := by
  simp [bulkFrame, ScheduledFrame.wireLen]

/--
The queue of the writer takes a bulk frame of two mebibytes in, and the next call does not
hand it out.
-/
theorem large_frame_waits : let s := ([SchedulerCall.enqueue (bulkFrame 2097152)].foldl step
      (new maxScheduledBytes)).scheduler
    s.dequeue.1 = none ∧ s.isEmpty = false := by
  have hwire := bulkFrame_wireLen 2097152
  apply waits_alone
  · rw [hwire]
    decide
  · rw [hwire]
    change rounds * TrafficClass.bulk.defaultQuantum < _
    decide

end Traffic

end KindleBridge.Transport
