import KindleBridge.Foundations.Lanes
import KindleBridge.Foundations.Op
import KindleBridge.Wire.Frame

/-! # The frame scheduler

A bounded writer queue with five traffic classes, served by deficit round robin. A
frame waits until it is the oldest of its stream, so the streams stay in order whatever
the classes of their frames are.
-/

namespace KindleBridge.Transport

open Wire Function List

inductive TrafficClass
  | control | interactive | events | forwarding | bulk
  deriving DecidableEq, Repr

namespace TrafficClass

def forCommand : Command → TrafficClass
  | .open | .data => bulk
  | _ => control

def next : TrafficClass → TrafficClass
  | control => interactive
  | interactive => events
  | events => forwarding
  | forwarding => bulk
  | bulk => control

def defaultQuantum : TrafficClass → ℕ
  | control => 65536
  | interactive => 32768
  | events => 16384
  | forwarding => 8192
  | bulk => 4096

end TrafficClass

def classCount : ℕ := 5

structure ScheduledFrame where
  trafficClass : TrafficClass
  frame : Frame
  deriving DecidableEq

namespace ScheduledFrame

def streamId (item : ScheduledFrame) : ℕ := item.frame.header.streamId
def wireLen (item : ScheduledFrame) : ℕ := headerLen + item.frame.payload.length

end ScheduledFrame

inductive SchedulerError
  | queueFull
  deriving DecidableEq, Repr

/-- The queues of the classes, and for each stream the classes of its frames, oldest first. -/
structure FrameScheduler where
  queues : TrafficClass → List ScheduledFrame
  streamClasses : ℕ → List TrafficClass
  deficits : TrafficClass → ℕ
  quanta : TrafficClass → ℕ
  cursor : TrafficClass
  queuedBytes : ℕ
  maxQueuedBytes : ℕ

namespace FrameScheduler

def new (maxQueuedBytes : ℕ) : FrameScheduler where
  queues _ := []
  streamClasses _ := []
  deficits _ := 0
  quanta := TrafficClass.defaultQuantum
  cursor := .control
  queuedBytes := 0
  maxQueuedBytes := maxQueuedBytes

/-- The scheduler with one frame more. -/
def push (s : FrameScheduler) (item : ScheduledFrame) : FrameScheduler :=
  { s with
    streamClasses := update s.streamClasses item.streamId
      (s.streamClasses item.streamId ++ [item.trafficClass])
    queues := update s.queues item.trafficClass (s.queues item.trafficClass ++ [item])
    queuedBytes := s.queuedBytes + item.wireLen }

def enqueue (item : ScheduledFrame) : Op FrameScheduler SchedulerError Unit := do
  let next := (← Op.get).queuedBytes + item.wireLen
  if next > (← Op.get).maxQueuedBytes then Op.fail .queueFull
  Op.modify fun s => { s with
    streamClasses := update s.streamClasses item.streamId
      (s.streamClasses item.streamId ++ [item.trafficClass]) }
  Op.modify fun s => { s with
    queues := update s.queues item.trafficClass (s.queues item.trafficClass ++ [item]) }
  Op.modify fun s => { s with queuedBytes := next }

def advance (s : FrameScheduler) : FrameScheduler := { s with cursor := s.cursor.next }

/-- Whether the oldest frame of the item's stream belongs to the class that is served. -/
def eligible (s : FrameScheduler) (item : ScheduledFrame) : Bool :=
  (s.streamClasses item.streamId).head? = some s.cursor

/-- The scheduler without a frame that the class under the cursor has paid for. -/
def remove (s : FrameScheduler) (item : ScheduledFrame) : FrameScheduler :=
  { s with
    deficits := update s.deficits s.cursor (s.deficits s.cursor - item.wireLen)
    queues := update s.queues s.cursor ((s.queues s.cursor).eraseP s.eligible)
    streamClasses := update s.streamClasses item.streamId (s.streamClasses item.streamId).tail
    queuedBytes := s.queuedBytes - item.wireLen }

def addQuantum (s : FrameScheduler) : FrameScheduler :=
  { s with deficits := update s.deficits s.cursor (s.deficits s.cursor + s.quanta s.cursor) }

/-- The scheduler after the class under the cursor has drawn its quantum, if it needs it. -/
def paid (s : FrameScheduler) (item : ScheduledFrame) : FrameScheduler :=
  if s.deficits s.cursor < item.wireLen then s.addQuantum else s

/-- One visit of the round robin: the first eligible frame of the class, if its deficit pays. -/
def visit (s : FrameScheduler) : Option ScheduledFrame × FrameScheduler :=
  match (s.queues s.cursor).find? s.eligible with
  | none => (none, advance { s with deficits := update s.deficits s.cursor 0 })
  | some item =>
    if (s.paid item).deficits s.cursor < item.wireLen then (none, (s.paid item).advance)
    else (some item, ((s.paid item).remove item).advance)

def dequeueLoop (s : FrameScheduler) : ℕ → Option ScheduledFrame × FrameScheduler
  | 0 => (none, s)
  | attempts + 1 =>
    match s.visit with
    | (some item, t) => (some item, t)
    | (none, t) => dequeueLoop t attempts

def dequeue (s : FrameScheduler) : Option ScheduledFrame × FrameScheduler :=
  if s.queuedBytes = 0 then (none, s) else s.dequeueLoop (classCount * 512)

def isEmpty (s : FrameScheduler) : Bool := s.queuedBytes = 0

def items (s : FrameScheduler) : List ScheduledFrame :=
  s.queues .control ++ s.queues .interactive ++ s.queues .events ++ s.queues .forwarding ++
    s.queues .bulk

/-- What the queues hold, as one list in the order of arrival. -/
structure Holds (s : FrameScheduler) (log : List ScheduledFrame) : Prop where
  queues : ∀ c, s.queues c = log.filter (·.trafficClass = c)
  classes : ∀ id, s.streamClasses id =
    (lane ScheduledFrame.streamId id log).map ScheduledFrame.trafficClass
  bytes : s.queuedBytes = (log.map ScheduledFrame.wireLen).sum

variable {s t : FrameScheduler} {log : List ScheduledFrame} {item : ScheduledFrame}

theorem holds_new (maxQueuedBytes : ℕ) : (new maxQueuedBytes).Holds [] :=
  ⟨fun _ => rfl, fun _ => rfl, rfl⟩

theorem Holds.push (h : s.Holds log) : (s.push item).Holds (log ++ [item]) where
  queues c := by
    by_cases hc : c = item.trafficClass
    · subst hc
      simp [FrameScheduler.push, h.queues]
    · simp [FrameScheduler.push, h.queues, hc, Ne.symm hc]
  classes id := by
    by_cases hid : id = item.streamId
    · subst hid
      simp [FrameScheduler.push, h.classes, lane_cons_self]
    · simp [FrameScheduler.push, h.classes, hid, lane_cons_of_ne (Ne.symm hid)]
  bytes := by simp [FrameScheduler.push, h.bytes]

theorem Holds.items_perm (h : s.Holds log) : s.items.Perm log := by
  refine perm_iff_count.mpr fun x => ?_
  have hcount (c : TrafficClass) : (s.queues c).count x =
      if x.trafficClass = c then log.count x else 0 := by
    rw [h.queues]
    split_ifs with hc
    · exact count_filter (by simpa using hc)
    · exact count_eq_zero.mpr (by simp [hc])
  simp only [items, count_append, hcount]
  cases x.trafficClass <;> simp

theorem sum_items_push (f : ScheduledFrame → ℕ) :
    ((s.push item).items.map f).sum = (s.items.map f).sum + f item := by
  unfold items FrameScheduler.push
  cases item.trafficClass <;> simp [Nat.add_assoc, Nat.add_left_comm, Nat.add_comm]

theorem Holds.congr (h : s.Holds log) (hq : t.queues = s.queues)
    (hc : t.streamClasses = s.streamClasses) (hb : t.queuedBytes = s.queuedBytes) : t.Holds log :=
  ⟨hq ▸ h.queues, hc ▸ h.classes, hb ▸ h.bytes⟩

theorem Holds.find (h : s.Holds log) (hf : (s.queues s.cursor).find? s.eligible = some item) :
    ∃ pre post, log = pre ++ item :: post ∧ (∀ y ∈ pre, y.streamId ≠ item.streamId) ∧
      item.trafficClass = s.cursor ∧
      (s.queues s.cursor).eraseP s.eligible = (pre ++ post).filter (·.trafficClass = s.cursor) := by
  obtain ⟨helig, front, back, hsplit, hfront⟩ := List.find?_eq_some_iff_append.mp hf
  have hlog := h.queues s.cursor
  rw [hsplit] at hlog
  obtain ⟨pre, rest, rfl, hpre, hrest⟩ := filter_eq_append_iff.mp hlog.symm
  obtain ⟨mid, post, rfl, hmid, hclass, hpost⟩ := filter_eq_cons_iff.mp hrest
  have hclass : item.trafficClass = s.cursor := by simpa using hclass
  have hmid' : mid.filter (·.trafficClass = s.cursor) = [] := filter_eq_nil_iff.mpr hmid
  refine ⟨pre ++ mid, post, by simp, ?_, hclass, ?_⟩
  · -- An older frame of the stream would be eligible too, and stand in front.
    by_contra! hold
    obtain ⟨y, hy, hid⟩ := hold
    obtain ⟨z, zs, hz⟩ : ∃ z zs,
        lane ScheduledFrame.streamId item.streamId (pre ++ mid) = z :: zs := by
      refine exists_cons_of_ne_nil (ne_nil_of_mem (a := y) ?_)
      simpa [lane, hid] using hy
    have hzmem : z ∈ lane ScheduledFrame.streamId item.streamId (pre ++ mid) := by simp [hz]
    obtain ⟨hzlog, hzid⟩ : z ∈ pre ++ mid ∧ z.streamId = item.streamId := by
      simpa only [lane, mem_filter, decide_eq_true_eq] using hzmem
    have hhead : (s.streamClasses item.streamId).head? = some z.trafficClass := by
      rw [h.classes, ← append_assoc, lane_append, hz]
      simp
    have hzclass : z.trafficClass = s.cursor := by
      unfold eligible at helig
      rw [hhead] at helig
      simpa using helig
    have hzfront : z ∈ front := by
      rw [← hpre]
      have hz' : z ∈ (pre ++ mid).filter (·.trafficClass = s.cursor) := by
        simpa [hzclass] using hzlog
      rwa [filter_append, hmid', append_nil] at hz'
    have := hfront z hzfront
    unfold eligible at this helig
    rw [hzid, helig] at this
    simp at this
  · rw [hsplit, eraseP_append_right _ (by simpa using hfront),
      eraseP_cons_of_pos helig, filter_append, filter_append, hmid', hpre, hpost,
      append_nil]

theorem Holds.remove (h : s.Holds log) (hf : (s.queues s.cursor).find? s.eligible = some item) :
    ∃ log', Takes ScheduledFrame.streamId log item log' ∧ (s.remove item).Holds log' := by
  obtain ⟨pre, post, rfl, hpre, hclass, herase⟩ := h.find hf
  have htakes : Takes ScheduledFrame.streamId (pre ++ item :: post) item (pre ++ post) :=
    ⟨pre, post, rfl, rfl, hpre⟩
  refine ⟨pre ++ post, htakes, fun c => ?_, fun id => ?_, ?_⟩
  · by_cases hc : c = s.cursor
    · subst hc
      simp [FrameScheduler.remove, herase]
    · have hne : item.trafficClass ≠ c := fun he => hc (he ▸ hclass)
      simp [FrameScheduler.remove, hc, h.queues, hne]
  · by_cases hid : id = item.streamId
    · subst hid
      simp only [FrameScheduler.remove, update_self, h.classes, htakes.lane_self, map_cons,
        tail_cons]
    · simp only [FrameScheduler.remove, update_of_ne hid, h.classes,
        htakes.lane_of_ne (Ne.symm hid)]
  · have := htakes.sum_map ScheduledFrame.wireLen
    simp only [FrameScheduler.remove, h.bytes]
    omega

/-- The outcome of an attempt to serve a frame: nothing, or the oldest frame of its stream. -/
def Serves (log : List ScheduledFrame) : Option ScheduledFrame × FrameScheduler → Prop
  | (none, t) => t.Holds log
  | (some item, t) => ∃ log', Takes ScheduledFrame.streamId log item log' ∧ t.Holds log'

theorem Holds.paid (h : s.Holds log) : (s.paid item).Holds log := by
  unfold FrameScheduler.paid
  split_ifs
  · exact h.congr rfl rfl rfl
  · exact h

theorem paid_find : ((s.paid item).queues (s.paid item).cursor).find? (s.paid item).eligible =
      (s.queues s.cursor).find? s.eligible := by
  unfold paid
  split_ifs <;> rfl

theorem Holds.visit (h : s.Holds log) : Serves log s.visit := by
  unfold FrameScheduler.visit
  split
  · exact h.congr rfl rfl rfl
  · rename_i item hf
    split_ifs
    · exact h.paid.congr rfl rfl rfl
    · obtain ⟨log', ht, hr⟩ := h.paid.remove (paid_find.trans hf)
      exact ⟨log', ht, hr.congr rfl rfl rfl⟩

theorem Holds.dequeueLoop (h : s.Holds log) (attempts : ℕ) :
    Serves log (s.dequeueLoop attempts) := by
  induction attempts generalizing s with
  | zero => exact h
  | succ attempts ih =>
    unfold FrameScheduler.dequeueLoop
    have hv := h.visit
    generalize s.visit = r at hv ⊢
    rcases r with ⟨_ | item, t⟩
    · exact ih hv
    · exact hv

theorem Holds.dequeue (h : s.Holds log) : Serves log s.dequeue := by
  unfold FrameScheduler.dequeue
  split_ifs
  · exact h
  · exact h.dequeueLoop _

theorem Holds.sum_items_dequeue (h : s.Holds log) (f : ScheduledFrame → ℕ) :
    (s.dequeue.2.items.map f).sum ≤ (s.items.map f).sum := by
  have hserves := h.dequeue
  rw [(h.items_perm.map f).sum_eq]
  generalize s.dequeue = r at hserves
  obtain ⟨_ | item, t⟩ := r
  · exact (((Holds.items_perm hserves).map f).sum_eq).le
  · obtain ⟨log', htakes, hlog'⟩ := hserves
    have := htakes.sum_map f
    rw [(hlog'.items_perm.map f).sum_eq]
    omega

theorem Holds.dequeue_le (h : s.Holds log) : s.dequeue.2.queuedBytes ≤ s.queuedBytes := by
  have hserves := h.dequeue
  generalize s.dequeue = r at hserves
  obtain ⟨_ | item, t⟩ := r
  · exact (Holds.bytes hserves).le.trans h.bytes.ge
  · obtain ⟨log', htakes, hlog'⟩ := hserves
    have := htakes.sum_map ScheduledFrame.wireLen
    rw [h.bytes, hlog'.bytes]
    omega

theorem visit_fixed :
    s.visit.2.quanta = s.quanta ∧ s.visit.2.maxQueuedBytes = s.maxQueuedBytes := by
  unfold visit paid
  split
  · exact ⟨rfl, rfl⟩
  · split_ifs <;> exact ⟨rfl, rfl⟩

theorem dequeueLoop_fixed (attempts : ℕ) : (s.dequeueLoop attempts).2.quanta = s.quanta ∧
    (s.dequeueLoop attempts).2.maxQueuedBytes = s.maxQueuedBytes := by
  induction attempts generalizing s with
  | zero => exact ⟨rfl, rfl⟩
  | succ attempts ih =>
    unfold dequeueLoop
    have hv := s.visit_fixed
    generalize s.visit = r at hv ⊢
    rcases r with ⟨_ | item, t⟩
    · exact ⟨ih.1.trans hv.1, ih.2.trans hv.2⟩
    · exact hv

theorem dequeue_fixed :
    s.dequeue.2.quanta = s.quanta ∧ s.dequeue.2.maxQueuedBytes = s.maxQueuedBytes := by
  unfold dequeue
  split_ifs
  · exact ⟨rfl, rfl⟩
  · exact dequeueLoop_fixed _

theorem run_enqueue (item : ScheduledFrame) (s : FrameScheduler) : (enqueue item).run s =
    if s.queuedBytes + item.wireLen ≤ s.maxQueuedBytes then (.ok (), s.push item)
    else (.error .queueFull, s) := by
  simp only [enqueue, Op.run_get_bind, ← Nat.not_lt]
  split_ifs <;> rfl

theorem enqueue_ok_iff : (enqueue item).run s = (.ok (), t) ↔
    s.queuedBytes + item.wireLen ≤ s.maxQueuedBytes ∧ t = s.push item := by
  rw [run_enqueue]
  split_ifs with h <;> simp [h, eq_comm]

end FrameScheduler

end KindleBridge.Transport
