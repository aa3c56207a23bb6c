import KindleBridge.Foundations.Runs
import KindleBridge.Transport.Frames
import KindleBridge.Transport.Negotiation
import KindleBridge.Transport.Output
import KindleBridge.Wire.Errors

/-! # The numbers of the written frames

A frame gets its number when it is queued, and the streams stay in order on their way
through the scheduler. So the numbers that a session has written and those still in the
writer queue continue each other, unless a GOAWAY drops numbered frames of stream 0.
-/

namespace KindleBridge.Transport

open Wire SessionState List FrameScheduler

def frameNumbers : Numbering Frame ℕ where
  key frame := frame.header.streamId
  num frame := frame.header.sequence
  cap := u32Max

/-- The first number that an actor writes: its own HELLO opens every session but the first. -/
def firstSequence (generation id : ℕ) : ℕ := if generation = 0 ∧ id = 0 then 1 else 0

/-- A peer takes in frames one after the other, up to the first that it refuses. -/
def replay (context : Frame → FrameContext) : List Frame → SessionM Unit
  | [] => return ()
  | frame :: frames => do
    processInbound frame.header (context frame)
    replay context frames

section Replay

variable {s : SessionState} {id expected actual : ℕ}

theorem replay_ne_sequence (context : Frame → FrameContext) {frames : List Frame} {f : ℕ → ℕ}
    (h : frameNumbers.Continues (s.expected .inbound) frames f) :
    ((replay context frames).run s).1 ≠ .error (.sequence id expected actual) := by
  induction frames generalizing s with
  | nil => simp [replay]
  | cons frame frames ih =>
    unfold replay
    rcases hr : (processInbound frame.header (context frame)).run s with ⟨e | _, t⟩
    · rw [Op.run_bind_of_error hr]
      intro he
      obtain rfl := Except.error.inj he
      exact sequence_of_refused (process_error hr).2 h.1
    · rw [Op.run_bind_of_ok hr]
      obtain ⟨-, u, ha, rfl⟩ := process_ok_iff.mp hr
      apply ih
      rw [expected_advanceSequence ⟨frame.header, context frame⟩, expected_of_applies ha]
      exact h.2

end Replay

namespace Actor

def writtenIn (a : Actor) (generation : ℕ) : List Frame :=
  (a.trace.written.filter (·.1 = generation)).map (·.2)

/-- The frames that a session has written continue its first numbers. -/
def Serial (a : Actor) (generation : ℕ) : Prop :=
  (∃ f, frameNumbers.Continues (firstSequence generation) (a.writtenIn generation) f) ∧
    ∀ frame ∈ a.writtenIn generation, frame.header.sequence < u32Max

/-- The frames in the writer queue continue those that the current session has written. -/
def Counted (a : Actor) (next : ℕ → ℕ) : Prop :=
  ∃ log e, a.scheduler.Holds log ∧
    frameNumbers.Continues (firstSequence a.generation) (a.writtenIn a.generation) e ∧
    frameNumbers.Continues e (log.map (·.frame)) next ∧
    ∀ item ∈ log, item.frame.header.sequence < u32Max

/-- The invariant of the numbers of all sessions up to the current one. -/
structure Ordered (a : Actor) : Prop where
  serial : ∀ generation, a.Serial generation
  later : ∀ generation, a.generation < generation → a.writtenIn generation = []
  queue : a.running → ∃ next, a.Counted next ∧
    (a.awaitingRestart = false → next = a.nextSequenceFor)

variable {codec : ServiceCodec} {w : World} {a b : Actor} {item : ScheduledFrame}
  {context : FrameContext} {frame : Frame} {event : Event} {next : ℕ → ℕ}

theorem writtenIn_of_eq (h : b.trace.written = a.trace.written) (generation : ℕ) :
    b.writtenIn generation = a.writtenIn generation := by
  rw [writtenIn, writtenIn, h]

theorem writtenIn_of_append {generation : ℕ}
    (h : b.trace.written = a.trace.written ++ [(generation, frame)]) :
    b.writtenIn generation = a.writtenIn generation ++ [frame] ∧
      ∀ g, g ≠ generation → b.writtenIn g = a.writtenIn g := by
  refine ⟨by simp [writtenIn, h], fun g hg => ?_⟩
  simp [writtenIn, h, Ne.symm hg]

theorem Counted.submits (h : a.Counted a.nextSequenceFor) (hs : a.Submits item context b) :
    b.Counted b.nextSequenceFor := by
  obtain ⟨log, e, hlog, hwritten, hqueued, hlt⟩ := h
  obtain ⟨t, hseq, hcap, -, -, -⟩ := hs
  have hnext : (a.submitted item t).nextSequenceFor =
      frameNumbers.bump a.nextSequenceFor item.frame := by
    have hne : frameNumbers.num item.frame ≠ frameNumbers.cap := Nat.ne_of_lt hcap
    rw [Numbering.bump, if_neg hne]
    exact nextSequenceFor_setSequence
  refine ⟨log ++ [item], e, hlog.push, hwritten, ?_,
    forall_mem_append.mpr ⟨hlt, forall_mem_singleton.mpr hcap⟩⟩
  rw [hnext, map_append]
  exact hqueued.snoc _ hseq

theorem Counted.congr (h : a.Counted next) (hq : b.scheduler = a.scheduler)
    (hw : b.trace.written = a.trace.written) (hg : b.generation = a.generation) :
    b.Counted next := by
  unfold Counted at h ⊢
  rwa [hq, hg, writtenIn_of_eq hw]

theorem Queues.counted (h : Queues a b) (ha : a.Counted a.nextSequenceFor) :
    b.Counted b.nextSequenceFor ∧ b.trace.written = a.trace.written ∧
      b.generation = a.generation := by
  refine h.preserves (I := fun b => b.Counted b.nextSequenceFor ∧
    b.trace.written = a.trace.written ∧ b.generation = a.generation) ⟨ha, rfl, rfl⟩ ?_ ?_
  · rintro b c item context ⟨hb, hw, hg⟩ hs
    refine ⟨hb.submits hs, ?_⟩
    obtain ⟨t, -⟩ := hs
    exact ⟨hw, hg⟩
  · rintro b c ⟨hb, hw, hg⟩ hs
    rw [hs.nextSequenceFor]
    exact ⟨hb.congr hs.scheduler hs.written hs.generation, hs.written.trans hw,
      hs.generation.trans hg⟩

section
variable (h : a.Ordered)
include h

theorem Ordered.unwritten (hw : b.trace.written = a.trace.written)
    (hg : b.generation = a.generation) (hq : b.running → ∃ next, b.Counted next ∧
      (b.awaitingRestart = false → next = b.nextSequenceFor)) : b.Ordered where
  serial g := by
    unfold Serial
    rw [writtenIn_of_eq hw]
    exact h.serial g
  later g hlt := by
    rw [writtenIn_of_eq hw]
    exact h.later g (hg ▸ hlt)
  queue := hq

theorem Ordered.live (hrun : a.running) (hlive : a.awaitingRestart = false) :
    a.Counted a.nextSequenceFor := by
  obtain ⟨next, hcounted, hnext⟩ := h.queue hrun
  rwa [hnext hlive] at hcounted

theorem Ordered.cleared (hq : b.scheduler = .new maxScheduledBytes)
    (hw : b.trace.written = a.trace.written) (hg : b.generation = a.generation)
    (hwait : b.awaitingRestart) : b.Ordered := by
  refine h.unwritten hw hg fun _ => ?_
  obtain ⟨e, he⟩ := (h.serial a.generation).1
  refine ⟨e, ⟨[], e, hq ▸ holds_new _, ?_, rfl, by simp⟩, by simp [hwait]⟩
  rwa [hg, writtenIn_of_eq hw]

theorem Ordered.queues (hrun : a.running) (hlive : a.awaitingRestart = false)
    (hq : Queues a b) : b.Ordered := by
  obtain ⟨hcounted, hw, hg⟩ := hq.counted (h.live hrun hlive)
  exact h.unwritten hw hg fun _ => ⟨_, hcounted, fun _ => rfl⟩

theorem Ordered.dequeues (hrun : a.running)
    (hd : a.scheduler.dequeue.1 = some item) (hq : b.scheduler = a.scheduler.dequeue.2)
    (hw : b.trace.written = a.trace.written ++ [(a.generation, item.frame)])
    (hg : b.generation = a.generation) (hwait : b.awaitingRestart = a.awaitingRestart)
    (hn : b.nextSequenceFor = a.nextSequenceFor) : b.Ordered := by
  obtain ⟨next, ⟨log, e, hlog, hwritten, hqueued, hlt⟩, hnext⟩ := h.queue hrun
  obtain ⟨hsame, hother⟩ := writtenIn_of_append hw
  have hserves := hlog.dequeue
  rcases hs : a.scheduler.dequeue with ⟨x, t⟩
  rw [hs] at hserves hd hq
  obtain rfl : x = some item := hd
  obtain ⟨log', htakes, hlog'⟩ := hserves
  have hmem (x : ScheduledFrame) : x ∈ log ↔ x = item ∨ x ∈ log' := by
    rw [htakes.perm.mem_iff, mem_cons]
  have hframes : Takes frameNumbers.key (log.map (·.frame)) item.frame (log'.map (·.frame)) :=
    htakes.map fun _ => rfl
  obtain ⟨hnum, hrest⟩ := hqueued.takes hframes
  have hnew := hwritten.snoc _ hnum
  rw [← hsame] at hnew
  refine ⟨fun g => ?_, fun g hlater => ?_, fun _ => ⟨next, ?_, ?_⟩⟩
  · by_cases hgen : g = a.generation
    · subst hgen
      refine ⟨⟨_, hnew⟩, ?_⟩
      rw [hsame]
      refine forall_mem_append.mpr ⟨(h.serial a.generation).2, forall_mem_singleton.mpr ?_⟩
      exact hlt item ((hmem item).mpr (.inl rfl))
    · unfold Serial
      rw [hother g hgen]
      exact h.serial g
  · rw [hg] at hlater
    rw [hother g (Nat.ne_of_gt hlater)]
    exact h.later g hlater
  · refine ⟨log', _, hq ▸ hlog', ?_, hrest, fun x hx => hlt x ((hmem x).mpr (.inr hx))⟩
    rw [hg]
    exact hnew
  · rw [hwait, hn]
    exact hnext

theorem Ordered.idles (hrun : a.running) (hd : a.scheduler.dequeue.1 = none) :
    { a with scheduler := a.scheduler.dequeue.2 }.Ordered := by
  obtain ⟨next, ⟨log, e, hlog, hwritten, hqueued, hlt⟩, hnext⟩ := h.queue hrun
  have hserves := hlog.dequeue
  refine h.unwritten rfl rfl fun _ => ⟨next, ⟨log, e, ?_, hwritten, hqueued, hlt⟩, hnext⟩
  generalize a.scheduler.dequeue = r at hserves hd
  obtain ⟨x, t⟩ := r
  obtain rfl : x = none := hd
  exact hserves

theorem Ordered.writes (hrun : a.running)
    (hd : a.scheduler.dequeue.1 = some item) : (a.wrote item).Ordered := by
  refine h.dequeues hrun hd ?_ ?_ ?_ ?_ ?_
  all_goals
    unfold wrote
    split_ifs <;> rfl

/-- The queue has been cleared for a GOAWAY when it held no frame of stream 0. -/
theorem Ordered.goesAway (hrun : a.running) (hlive : a.awaitingRestart = false)
    (hempty : a.scheduler.streamClasses 0 = []) {c : Actor}
    (hs : c.Submits ⟨.control, frameOf .goAway 0 a.controlSequence [] false⟩ context b)
    (hclear : c.scheduler = .new maxScheduledBytes) (hw : c.trace.written = a.trace.written)
    (hg : c.generation = a.generation) (hwait : c.awaitingRestart) : b.Ordered := by
  obtain ⟨log, e, hlog, hwritten, hqueued, -⟩ := h.live hrun hlive
  have hzero : a.nextSequenceFor 0 = e 0 := by
    refine hqueued.eq_of_forall_ne fun f hf => ?_
    obtain ⟨x, hx, rfl⟩ := mem_map.mp hf
    have hlane := hlog.classes 0
    rw [hempty, eq_comm, map_eq_nil_iff] at hlane
    intro hkey
    have hmem : x ∈ lane ScheduledFrame.streamId 0 log := mem_filter.mpr ⟨hx, decide_eq_true hkey⟩
    simp [hlane] at hmem
  obtain ⟨t, -, hcap, -⟩ := hs
  refine h.unwritten hw hg fun _ =>
    ⟨frameNumbers.bump e (frameOf .goAway 0 a.controlSequence [] false),
    ⟨[⟨.control, frameOf .goAway 0 a.controlSequence [] false⟩], e, ?_, ?_, ⟨hzero, rfl⟩, ?_⟩, ?_⟩
  · change (c.scheduler.push _).Holds [_]
    rw [hclear]
    exact (holds_new _).push
  · change frameNumbers.Continues (firstSequence c.generation) (writtenIn c c.generation) e
    rwa [hg, writtenIn_of_eq hw]
  · intro x hx
    obtain rfl := mem_singleton.mp hx
    exact hcap
  · intro hlive'
    exact absurd (hwait.symm.trans hlive') (by simp)

end

theorem firstSequence_succ (generation id : ℕ) : firstSequence (generation + 1) id = 0 := by
  simp [firstSequence]

theorem Ordered.restarts (h : a.Ordered) {r : RestartedSession}
    (hq : b.scheduler = .new maxScheduledBytes) (hg : b.generation = a.generation + 1)
    (hw : b.trace.written = a.trace.written ++ [(a.generation + 1, r.helloResponse)])
    (hnext : b.nextSequenceFor = Function.update (fun _ => 0) 0 1) : b.Ordered := by
  obtain ⟨hsame, hother⟩ := writtenIn_of_append hw
  rw [h.later _ (Nat.lt_succ_self _), nil_append] at hsame
  have hcontinues : frameNumbers.Continues (firstSequence (a.generation + 1))
      [r.helloResponse] b.nextSequenceFor := by
    have hne : frameNumbers.num r.helloResponse ≠ frameNumbers.cap := by
      simp [frameNumbers, r.first, u32Max]
    refine ⟨by simp [frameNumbers, r.first, firstSequence_succ], ?_⟩
    rw [Numbering.bump, if_neg hne, hnext]
    simp only [Numbering.continues_nil, frameNumbers, r.first, r.control]
    rw [funext (firstSequence_succ a.generation)]
  refine ⟨fun g => ?_, fun g hlater => ?_, fun _ => ⟨b.nextSequenceFor,
    ⟨[], b.nextSequenceFor, ?_, ?_, rfl, by simp⟩, fun _ => rfl⟩⟩
  · by_cases hgen : g = a.generation + 1
    · subst hgen
      rw [Serial, hsame]
      exact ⟨⟨_, hcontinues⟩, by simp [r.first, u32Max]⟩
    · unfold Serial
      rw [hother g hgen]
      exact h.serial g
  · rw [hg] at hlater
    rw [hother g (Nat.ne_of_gt hlater)]
    exact h.later g (by omega)
  · exact hq ▸ holds_new _
  · rw [hg, hsame]
    exact hcontinues

theorem Ordered.restarts_unwritten (h : a.Ordered) (hq : b.scheduler = .new maxScheduledBytes)
    (hg : b.generation = a.generation + 1) (hw : b.trace.written = a.trace.written)
    (hwait : b.awaitingRestart) : b.Ordered := by
  refine ⟨fun g => ?_, fun g hlater => ?_, fun _ => ⟨firstSequence (a.generation + 1),
    ⟨[], firstSequence (a.generation + 1), ?_, ?_, rfl, by simp⟩, ?_⟩⟩
  · unfold Serial
    rw [writtenIn_of_eq hw]
    exact h.serial g
  · rw [writtenIn_of_eq hw]
    exact h.later g (by omega)
  · exact hq ▸ holds_new _
  · rw [hg, writtenIn_of_eq hw, h.later _ (Nat.lt_succ_self _)]
    rfl
  · simp [hwait]

/--
When a GOAWAY of the peer restarts a live session, no frame of stream 0 waits in the
writer queue.
-/
def Settled (a : Actor) : World × Event → Prop
  | (_, .inbound frame) => a.running → a.awaitingRestart = false →
      frame.header.command = .goAway → a.restartable → a.pendingGoaway = none →
      a.scheduler.streamClasses 0 = []
  | _ => True

instance (a : Actor) (input : World × Event) : Decidable (a.Settled input) :=
  match input with
  | (_, .inbound _) => inferInstanceAs (Decidable (_ → _))
  | (_, .command _) | (_, .commandsClosed) | (_, .inboundFailed _) | (_, .inboundClosed)
  | (_, .dequeue) | (_, .expire) => inferInstanceAs (Decidable True)

theorem Ordered.handles (h : a.Ordered) (hrun : a.running) (hsettled : a.Settled (w, event))
    (hh : Handles codec w a event b) : b.Ordered := by
  cases hh with
  | refused | expired => exact h.unwritten rfl rfl h.queue
  | @obeyed command _ hlive _ ho =>
    rcases hlive with hlive | rfl
    · exact h.queues hrun hlive (.obeys ho)
    · cases ho with
      | gone hid => simp [ActorCommand.streamId] at hid
      | shutdown => exact h
  | restarted =>
    refine h.restarts rfl rfl rfl ?_
    funext id
    by_cases hid : id = 0 <;> simp [nextSequenceFor, write, restarted, failStreams, hid]
  | unwritten => exact h.restarts_unwritten rfl rfl rfl rfl
  | ignored | closed => exact h
  | @discarded frame s _ _ hlive _ _ hrestores =>
    have h' : { a with state := s }.Ordered := h.unwritten rfl rfl h.queue
    exact h'.queues hrun hlive (.restores hrestores)
  | @dispatched frame s _ _ hlive _ _ hdispatch =>
    have h' : { a with state := s }.Ordered := h.unwritten rfl rfl h.queue
    rcases hdispatch.goAway_or with hc | ⟨hc, hpending, hrestartable, hs⟩
    · exact h'.queues hrun hlive (.dispatches hdispatch hc)
    · have hempty := hsettled hrun hlive hc hrestartable hpending
      exact h'.goesAway hrun hlive hempty hs rfl rfl rfl rfl
  | idle hn => exact h.idles hrun hn
  | wrote hi => exact h.writes hrun hi

theorem Ordered.step (h : a.Ordered) {input : World × Event} (hsettled : a.Settled input) :
    (step codec a input).Ordered := by
  refine step_induction codec a input fun b hsteps => ?_
  cases hsteps with
  | stopped => exact h
  | finished _ _ hsame =>
    rcases hsame with rfl | ⟨e, rfl⟩ <;> exact h.unwritten rfl rfl (by simp [finish])
  | handled hrun _ hr => exact h.handles hrun hsettled (handle_ok hr)
  | restarting _ _ hr =>
    have hfails := handle_fails hr
    exact h.cleared rfl hfails.written hfails.generation rfl
  | failed _ _ hr =>
    have hfails := handle_fails hr
    exact h.unwritten hfails.written hfails.generation (by simp [finish])

theorem ordered_new (s : SessionState) (restartable : Bool) : (new s restartable).Ordered where
  serial _ := ⟨⟨_, rfl⟩, by simp [writtenIn, new]⟩
  later _ _ := rfl
  queue _ := by
    refine ⟨_, ⟨[], _, holds_new _, rfl, rfl, by simp⟩, fun _ => ?_⟩
    funext id
    by_cases hid : id = 0 <;> simp [firstSequence, nextSequenceFor, new, hid]

/--
The numbers of each session are consecutive on every stream, from its first number on,
and a peer that replays its frames refuses none for its number.
-/
def Gapless (a : Actor) : Prop :=
  ∀ generation,
    (∀ id, ∃ n, (lane frameNumbers.key id (a.writtenIn generation)).map (·.header.sequence) =
      List.range' (firstSequence generation id) n) ∧
    ∀ (peer : SessionState) (context : Frame → FrameContext),
      (∀ id, peer.expected .inbound id = firstSequence generation id) →
      ∀ id expected actual, ((replay context (a.writtenIn generation)).run peer).1 ≠
        .error (.sequence id expected actual)

theorem Ordered.gapless (h : a.Ordered) : a.Gapless := by
  intro generation
  obtain ⟨⟨f, hf⟩, hlt⟩ := h.serial generation
  refine ⟨fun id => ⟨_, hf.lane_eq_range hlt id⟩, fun peer context hpeer id expected actual => ?_⟩
  apply replay_ne_sequence context (f := f)
  rwa [funext hpeer]

/--
In every run in which no frame of stream 0 is queued whenever a GOAWAY of the peer
restarts a live session, the written frames of every session are numbered without a gap.
-/
theorem written_frames_gapless (codec : ServiceCodec) (s : SessionState) (restartable : Bool)
    (inputs : List (World × Event))
    (hsettled : Along (step codec) Settled (new s restartable) inputs) :
    (exec codec (new s restartable) inputs).Gapless :=
  (hsettled.foldl (ordered_new s restartable) fun _ _ ha hs => ha.step hs).gapless

/-- A PING is answered and the answer written before the peer goes away and greets again. -/
theorem written_frames_gapless_restartRun : let inputs : List (World × Event) :=
      [(calm, .inbound (frameOf .ping 0 1 [] false)), (calm, .dequeue),
        (calm, .inbound (frameOf .goAway 0 2 [] false)), (calm, .dequeue),
        (renewing, .inbound (frameOf .hello 0 0 [] false)),
        (renewing, .inbound (frameOf .ping 0 1 [] false)), (renewing, .dequeue)]
    let a := exec plainCodec (new deviceSession true) inputs
    Along (step plainCodec) Settled (new deviceSession true) inputs ∧
      (a.writtenIn 0).map (·.header.sequence) = [1, 2] ∧
      (a.writtenIn 1).map (·.header.sequence) = [0, 1] ∧ a.Gapless := by
  intro inputs a
  have hsettled : Along (step plainCodec) Settled (new deviceSession true) inputs := by
    decide +kernel
  exact ⟨hsettled, by decide +kernel, by decide +kernel,
    written_frames_gapless plainCodec deviceSession true inputs hsettled⟩

/--
A PING of each end is handled in one turn of the loop, which writes one frame. The PONG
is still queued when the peer goes away, and its number is never written.
-/
theorem goaway_skips_queued_number : let inputs : List (World × Event) :=
      [(calm, .command (.ping 0 5 1)), (calm, .inbound (frameOf .ping 0 1 [] false)),
        (calm, .dequeue), (calm, .inbound (frameOf .goAway 0 2 [] false)), (calm, .dequeue)]
    let a := exec plainCodec (new deviceSession true) inputs
    a.running ∧ (a.writtenIn 0).map (·.header.command) = [.ping, .goAway] ∧
      ((replay (fun _ => {}) (a.writtenIn 0)).run hostSession).1 = .error (.sequence 0 2 3) ∧
      ¬ a.Gapless := by
  intro inputs a
  refine ⟨by decide +kernel, by decide +kernel, by decide +kernel, fun hgapless => ?_⟩
  obtain ⟨n, hn⟩ := (hgapless 0).1 0
  have hskips : (lane frameNumbers.key 0 (a.writtenIn 0)).map (·.header.sequence) = [1, 3] := by
    decide +kernel
  rw [hskips] at hn
  match n with
  | 0 | 1 | n + 2 => simp [firstSequence, range'_succ] at hn

end Actor

end KindleBridge.Transport
