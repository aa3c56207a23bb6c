import Mathlib.Algebra.Order.Floor.Div
import KindleBridge.Transport.Service

/-! # No class is starved

A class with an eligible frame keeps it, and keeps its deficit, while other classes are
served. So each visit brings it one quantum nearer to its next frame, however many frames
the others enqueue.
-/

namespace KindleBridge.Transport

open Function List

namespace FrameScheduler

variable {s t : FrameScheduler} {log : List ScheduledFrame} {item : ScheduledFrame}
  {c : TrafficClass} {M n : ℕ}

/--
Within so many visits the class is served: it has an eligible frame, and the quanta of its
share of the visits pay for any frame up to the given length.
-/
structure Owes (s : FrameScheduler) (c : TrafficClass) (M n : ℕ) : Prop where
  waiting : (s.first c).isSome
  bounded : ∀ item ∈ s.queues c, item.wireLen ≤ M
  visited : 0 < visits s.cursor c n
  paid : M ≤ s.deficits c + visits s.cursor c n * s.quanta c

theorem first_isSome_iff : (s.first c).isSome ↔
    ∃ item ∈ s.queues c, (s.streamClasses item.streamId).head? = some c := by
  simp [first, List.find?_isSome]

section
variable (h : s.visit = (some item, t))
include h

theorem visit_eq_some : s.first s.cursor = some item ∧ t = ((s.paid item).remove item).advance := by
  unfold visit at h
  rw [find_eligible] at h
  cases hf : s.first s.cursor with
  | none =>
    rw [hf] at h
    cases h
  | some item' =>
    rw [hf] at h
    dsimp only at h
    split_ifs at h
    · cases h
    · obtain ⟨hitem, rfl⟩ := Prod.mk.inj h
      obtain rfl := Option.some.inj hitem
      exact ⟨rfl, rfl⟩

theorem visit_other (hc : c ≠ s.cursor) :
    t.queues c = s.queues c ∧ t.deficits c = s.deficits c ∧ t.cursor = s.cursor.next := by
  obtain ⟨-, rfl⟩ := visit_eq_some h
  unfold paid
  split_ifs <;> simp [advance, remove, addQuantum, hc]

theorem visit_streamClasses {id : ℕ} (hid : id ≠ item.streamId) :
    t.streamClasses id = s.streamClasses id := by
  obtain ⟨-, rfl⟩ := visit_eq_some h
  unfold paid
  split_ifs <;> simp [advance, remove, addQuantum, hid]

theorem first_of_visit_other (hc : c ≠ s.cursor)
    (hs : (s.first c).isSome) : (t.first c).isSome := by
  obtain ⟨other, hmem, hhead⟩ := first_isSome_iff.mp hs
  have hfirst : (s.streamClasses item.streamId).head? = some s.cursor := by
    simpa using List.find?_some (visit_eq_some h).1
  have hid : other.streamId ≠ item.streamId := by
    intro he
    rw [he, hfirst, Option.some_inj] at hhead
    exact hc hhead.symm
  refine first_isSome_iff.mpr ⟨other, ?_, ?_⟩
  · rwa [(visit_other h hc).1]
  · rwa [visit_streamClasses h hid]

end

theorem visit_queues_of_none (h : s.visit.1 = none) : s.visit.2.queues = s.queues := by
  unfold visit at h ⊢
  cases hf : (s.queues s.cursor).find? s.eligible with
  | none => rfl
  | some item =>
    rw [hf] at h
    dsimp only at h ⊢
    split_ifs at h ⊢
    unfold paid
    split_ifs <;> rfl

theorem Owes.visit_none (h : s.Owes c M (n + 1)) (hv : s.visit.1 = none) :
    s.visit.2.Owes c M n := by
  have hpassed := passed_of_visit_none hv
  have hwaiting : (s.visit.2.first c).isSome := by
    rw [hpassed.first]
    exact h.waiting
  have hbounded : ∀ item ∈ s.visit.2.queues c, item.wireLen ≤ M := by
    rw [visit_queues_of_none hv]
    exact h.bounded
  have hpaid := h.paid
  have hvisited := h.visited
  rw [visits] at hpaid hvisited
  by_cases hc : c = s.cursor
  · subst hc
    obtain ⟨item, hfirst⟩ := Option.isSome_iff_exists.mp h.waiting
    have hsaved := hpassed.saved item hfirst
    have hunpaid := visit_none_iff.mp hv item hfirst
    have hcost := h.bounded item (mem_of_find?_eq_some hfirst)
    rw [if_pos rfl, Nat.add_mul, Nat.one_mul] at hpaid
    refine ⟨hwaiting, hbounded, ?_, ?_⟩
    · -- A single quantum would have paid for the frame.
      rw [hpassed.cursor]
      by_contra hzero
      rw [Nat.eq_zero_of_not_pos hzero] at hpaid
      omega
    · rw [hpassed.cursor, hpassed.quanta, hsaved]
      omega
  · rw [if_neg hc, Nat.add_zero] at hpaid hvisited
    refine ⟨hwaiting, hbounded, ?_, ?_⟩
    · rwa [hpassed.cursor]
    · rwa [hpassed.cursor, hpassed.quanta, hpassed.others c hc]

theorem Owes.visit_other (h : s.Owes c M (n + 1)) (hv : s.visit = (some item, t))
    (hc : c ≠ s.cursor) : t.Owes c M n := by
  obtain ⟨hqueues, hdeficit, hcursor⟩ := FrameScheduler.visit_other hv hc
  have hquanta : t.quanta = s.quanta := by
    have := s.visit_fixed.1
    rwa [hv] at this
  have hpaid := h.paid
  have hvisited := h.visited
  rw [visits, if_neg hc, Nat.add_zero] at hpaid hvisited
  refine ⟨first_of_visit_other hv hc h.waiting, ?_, ?_, ?_⟩
  · rw [hqueues]
    exact h.bounded
  · rwa [hcursor]
  · rwa [hcursor, hdeficit, hquanta]

/-- What comes of a class to which a service is owed: a frame of it, or fewer visits to go. -/
def Settles (c : TrafficClass) (M n : ℕ) : Option ScheduledFrame × FrameScheduler → Prop
  | (none, t) => ∃ m ≤ n, t.Owes c M m
  | (some item, t) => item.trafficClass = c ∨ ∃ m < n, t.Owes c M m

theorem Owes.dequeueLoop (h : s.Owes c M n) (hs : s.Holds log) (attempts : ℕ) :
    Settles c M n (s.dequeueLoop attempts) := by
  induction attempts generalizing s n with
  | zero => exact ⟨n, le_rfl, h⟩
  | succ attempts ih =>
    obtain _ | n := n
    · exact absurd h.visited (by simp [visits])
    unfold dequeueLoop
    have hserves := hs.visit
    rcases hv : s.visit with ⟨_ | item, t⟩
    · rw [hv] at hserves
      have hnone : s.visit.1 = none := by rw [hv]
      have hnext := h.visit_none hnone
      rw [hv] at hnext
      have hrest := ih hnext hserves
      dsimp only
      generalize t.dequeueLoop attempts = r at hrest
      rcases r with ⟨_ | item, u⟩
      · obtain ⟨m, hm, hu⟩ := hrest
        exact ⟨m, by omega, hu⟩
      · rcases hrest with hclass | ⟨m, hm, hu⟩
        · exact .inl hclass
        · exact .inr ⟨m, by omega, hu⟩
    · by_cases hc : c = s.cursor
      · have hfirst := (visit_eq_some hv).1
        exact .inl ((hs.mem_of_first hfirst).2.trans hc.symm)
      · exact .inr ⟨n, Nat.lt_succ_self n, h.visit_other hv hc⟩

theorem Owes.dequeue (h : s.Owes c M n) (hs : s.Holds log) : Settles c M n s.dequeue := by
  unfold FrameScheduler.dequeue
  split_ifs
  · exact ⟨n, le_rfl, h⟩
  · exact h.dequeueLoop hs _

theorem Owes.push (h : s.Owes c M n) (hitem : item.trafficClass = c → item.wireLen ≤ M) :
    (s.push item).Owes c M n := by
  refine ⟨?_, ?_, h.visited, h.paid⟩
  · obtain ⟨other, hmem, hhead⟩ := first_isSome_iff.mp h.waiting
    refine first_isSome_iff.mpr ⟨other, ?_, ?_⟩
    · by_cases hc : c = item.trafficClass
      · subst hc
        simp [FrameScheduler.push, hmem]
      · simpa [FrameScheduler.push, hc] using hmem
    · by_cases hid : other.streamId = item.streamId
      · rw [hid] at hhead
        simp [FrameScheduler.push, hid, List.head?_append, hhead]
      · simpa [FrameScheduler.push, hid] using hhead
  · intro other hmem
    by_cases hc : c = item.trafficClass
    · subst hc
      simp only [FrameScheduler.push, update_self, mem_append, mem_singleton] at hmem
      rcases hmem with hmem | rfl
      · exact h.bounded other hmem
      · exact hitem rfl
    · simp only [FrameScheduler.push, update_of_ne hc] at hmem
      exact h.bounded other hmem

end FrameScheduler

namespace Traffic

open FrameScheduler

variable {r : Traffic} {log : List ScheduledFrame} {c : TrafficClass} {M n : ℕ}

theorem dequeued_prefix_step (r : Traffic) (a : SchedulerCall) :
    r.dequeued <+: (r.step a).dequeued := by
  cases a with
  | dequeue => exact prefix_append _ _
  | enqueue item =>
    rw [step_enqueue]
    split_ifs <;> exact prefix_refl _

theorem dequeued_prefix_run (r : Traffic) (later : List SchedulerCall) :
    r.dequeued <+: (later.foldl step r).dequeued := by
  induction later generalizing r with
  | nil => exact prefix_refl _
  | cons a later ih => exact (dequeued_prefix_step r a).trans (ih (r.step a))

/-- In a run, a class is served before so many other frames have gone out. -/
theorem served_of_owes (h : r.Refines log) (ho : r.scheduler.Owes c M n)
    {later : List SchedulerCall}
    (hM : ∀ item, .enqueue item ∈ later → item.trafficClass = c → item.wireLen ≤ M) :
    ∃ out, (later.foldl step r).dequeued = r.dequeued ++ out ∧
      (n ≤ out.length → ∃ f ∈ out.take n, f.trafficClass = c) := by
  induction later generalizing r log n with
  | nil =>
    refine ⟨[], by simp, fun hn => ?_⟩
    have hvisited := ho.visited
    simp [Nat.le_zero.mp hn, visits] at hvisited
  | cons a later ih =>
    have hM' : ∀ item, .enqueue item ∈ later → item.trafficClass = c → item.wireLen ≤ M :=
      fun item hitem => hM item (.tail _ hitem)
    obtain ⟨log', h'⟩ := Refines.step ⟨log, h⟩ a
    rw [foldl_cons]
    cases a with
    | enqueue item =>
      rw [step_enqueue] at h' ⊢
      split_ifs at h' ⊢
      · exact ih h' (ho.push (hM item (.head _))) hM'
      · exact ih h ho hM'
    | dequeue =>
      have hsettles := ho.dequeue h.holds
      rcases hd : r.scheduler.dequeue with ⟨result, t⟩
      have hstep : r.step .dequeue = ⟨t, r.accepted, r.dequeued ++ result.toList⟩ := by
        rw [step, hd]
      rw [hd] at hsettles
      rw [hstep] at h' ⊢
      cases result with
      | none =>
        obtain ⟨m, hm, ht⟩ := hsettles
        obtain ⟨out, hout, hserved⟩ := ih h' ht hM'
        refine ⟨out, by simpa using hout, fun hn => ?_⟩
        obtain ⟨f, hf, hclass⟩ := hserved (hm.trans hn)
        exact ⟨f, take_subset_take_left _ hm hf, hclass⟩
      | some item =>
        have hpos : 0 < n := by
          by_contra hzero
          have hvisited := ho.visited
          simp [Nat.eq_zero_of_not_pos hzero, visits] at hvisited
        rcases hsettles with hclass | ⟨m, hm, ht⟩
        · obtain ⟨out, hout⟩ := dequeued_prefix_run ⟨t, r.accepted, r.dequeued ++ [item]⟩ later
          refine ⟨item :: out, by simpa using hout.symm, fun _ => ⟨item, ?_, hclass⟩⟩
          obtain ⟨k, rfl⟩ := Nat.exists_eq_succ_of_ne_zero hpos.ne'
          exact .head _
        · obtain ⟨out, hout, hserved⟩ := ih h' ht hM'
          refine ⟨item :: out, by simpa using hout, fun hn => ?_⟩
          obtain ⟨f, hf, hclass⟩ := hserved (by simp only [length_cons] at hn; omega)
          obtain ⟨k, rfl⟩ := Nat.exists_eq_succ_of_ne_zero hpos.ne'
          exact ⟨f, .tail _ (take_subset_take_left _ (Nat.le_of_lt_succ hm) hf), hclass⟩

/-- The frames that later calls hand out. -/
def returned (r : Traffic) (later : List SchedulerCall) : List ScheduledFrame :=
  (later.foldl step r).dequeued.drop r.dequeued.length

/--
A class with an eligible frame, all of whose frames are within a length, is among the next
frames that are handed out, five for each quantum of that length, whatever is enqueued.
-/
theorem class_not_starved (maxQueuedBytes : ℕ) (run later : List SchedulerCall)
    (c : TrafficClass) (M : ℕ) : let r := run.foldl step (new maxQueuedBytes)
    (r.scheduler.first c).isSome →
    (∀ item ∈ r.scheduler.queues c, item.wireLen ≤ M) →
    (∀ item, .enqueue item ∈ later → item.trafficClass = c → item.wireLen ≤ M) →
    5 * (M ⌈/⌉ c.defaultQuantum) ≤ (r.returned later).length →
    ∃ f ∈ (r.returned later).take (5 * (M ⌈/⌉ c.defaultQuantum)), f.trafficClass = c := by
  intro r hwaiting hbounded hM hlength
  obtain ⟨log, h⟩ := refines_run maxQueuedBytes run
  change r.Refines log at h
  obtain ⟨item, hfirst⟩ := Option.isSome_iff_exists.mp hwaiting
  have hquantum : 0 < c.defaultQuantum := by cases c <;> decide
  have hpays : M ≤ (M ⌈/⌉ c.defaultQuantum) * c.defaultQuantum := by
    have := le_smul_ceilDiv (b := M) hquantum
    rwa [smul_eq_mul, Nat.mul_comm] at this
  have hrounds : visits r.scheduler.cursor c (5 * (M ⌈/⌉ c.defaultQuantum)) =
      M ⌈/⌉ c.defaultQuantum := visits_rounds _ _ _
  have howes : r.scheduler.Owes c M (5 * (M ⌈/⌉ c.defaultQuantum)) := by
    refine ⟨hwaiting, hbounded, ?_, ?_⟩
    · rw [hrounds]
      have hcost := hbounded item (mem_of_find?_eq_some hfirst)
      have hheader : 0 < item.wireLen := Nat.add_pos_left (by decide) _
      by_contra hzero
      rw [Nat.eq_zero_of_not_pos hzero] at hpays
      omega
    · rw [hrounds, h.quanta]
      exact hpays.trans (Nat.le_add_left _ _)
  obtain ⟨out, hout, hserved⟩ := served_of_owes h howes hM
  have hreturned : r.returned later = out := by
    rw [returned, hout, drop_left]
  rw [hreturned] at hlength ⊢
  exact hserved hlength

def controlFrame : ScheduledFrame where
  trafficClass := .control
  frame := ⟨⟨1, 0, .credit, 0, 3, 0, 0, 0, 0⟩, [], rfl⟩

/-- A bulk frame goes out among control frames that were there before it or come later. -/
theorem bulk_not_starved :
    let r := (.enqueue (bulkFrame 0) :: List.replicate 4 (.enqueue controlFrame)).foldl step
      (new 4096)
    let later := .enqueue controlFrame :: List.replicate 5 .dequeue
    ∃ f ∈ (r.returned later).take 5, f.trafficClass = .bulk :=
  class_not_starved 4096 (.enqueue (bulkFrame 0) :: List.replicate 4 (.enqueue controlFrame))
    (.enqueue controlFrame :: List.replicate 5 .dequeue) .bulk 40 (by decide +kernel)
    (by decide +kernel) (by simp [controlFrame]) (by decide +kernel)

end Traffic

end KindleBridge.Transport
