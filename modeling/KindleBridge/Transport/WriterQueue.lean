import KindleBridge.Foundations.Runs
import KindleBridge.Transport.Demand
import KindleBridge.Transport.Output

/-! # The bound on the writer queue

DATA is limited by the connection credit, whose limit is as large as the writer queue.
Headers and the frames that need no credit come on top, so credit alone does not keep an
event from meeting a full queue.
-/

namespace KindleBridge.Transport

open Wire SessionState List Op

namespace Actor

def queuedData (a : Actor) : ℕ := (a.scheduler.items.map fun item => dataBytes item.frame).sum

/-- The other bytes in the writer queue: the headers, and the payloads that need no credit. -/
def overhead (a : Actor) : ℕ :=
  (a.scheduler.items.map fun item => item.wireLen - dataBytes item.frame).sum

/-- The connection credit that is unspent, or spent on DATA that is still queued. -/
def exposure (a : Actor) : ℕ := a.state.connectionSendCredit + a.queuedData

def granted (frame : Frame) : ℕ :=
  if frame.header.command = .credit ∧ frame.header.streamId = 0 then frame.header.creditDelta else 0

def Event.granted : Event → ℕ
  | .inbound frame => Actor.granted frame
  | _ => 0

/-- The peer gives credit only for DATA that has been written. -/
def Honest (a : Actor) (input : World × Event) : Prop :=
  a.running → a.awaitingRestart = false →
    input.2.granted = 0 ∨ a.exposure + input.2.granted ≤ a.state.connectionSendLimit

/-- The queue has room for its overhead and for what the event queues beside the queued DATA. -/
def Covered (codec : ServiceCodec) (a : Actor) (input : World × Event) : Prop :=
  a.running → a.awaitingRestart = false →
    a.overhead + demand codec input.1 a input.2 + a.queuedData ≤ maxScheduledBytes

instance (a : Actor) (input : World × Event) : Decidable (a.Honest input) :=
  inferInstanceAs (Decidable (_ → _))

instance (codec : ServiceCodec) (a : Actor) (input : World × Event) :
    Decidable (a.Covered codec input) := inferInstanceAs (Decidable (_ → _))

/-- The event meets no full writer queue: only an inbox, or the answer to a HELLO, may be at fault. -/
def NeverOverflows (codec : ServiceCodec) (a : Actor) (input : World × Event) : Prop :=
  a.running → ((handle codec input.1 input.2).run a).1 = .error .queueFull →
    ∃ frame, input.2 = .inbound frame ∧
      (a.InboxFull frame ∧ ¬ a.Discards frame ∨ a.Restarts frame)

/-- What is queued fits, and what may be charged to the peer is within its limit. -/
def Solvent (a : Actor) : Prop :=
  a.running → a.awaitingRestart = false →
    a.scheduler.queuedBytes ≤ maxScheduledBytes ∧ a.exposure ≤ a.state.connectionSendLimit

variable {codec : ServiceCodec} {w : World} {a b : Actor} {item : ScheduledFrame}
  {context : FrameContext} {frame : Frame} {s : SessionState} {event : Event}
  {trafficClass : TrafficClass} {input : World × Event} {payload : List UInt8} {st : StreamState}
  {endStream : Bool} {e : StreamEntry}

theorem dataBytes_le_wireLen (item : ScheduledFrame) : dataBytes item.frame ≤ item.wireLen := by
  unfold dataBytes ScheduledFrame.wireLen
  split_ifs <;> omega

theorem Sound.queuedBytes_eq (h : a.Sound) : a.scheduler.queuedBytes = a.overhead + a.queuedData := by
  obtain ⟨log, hlog, -⟩ := h.queue
  rw [hlog.bytes, ← (hlog.items_perm.map _).sum_eq, overhead, queuedData, ← sum_map_add]
  congr 1
  refine map_congr_left fun item _ => ?_
  have := dataBytes_le_wireLen item
  omega

/-- Queued DATA moves from the unspent credit into the queue. -/
theorem Submits.exposure (hs : a.Submits item context b) : b.exposure = a.exposure ∧
    b.state.connectionSendLimit = a.state.connectionSendLimit := by
  obtain ⟨t, -, -, -, ha, -⟩ := hs
  obtain ⟨hcharge, hlimit, -⟩ := sends_charge (p := ⟨item.frame.header, context⟩) ha
  have hbytes : dataBytes item.frame = (Packet.mk item.frame.header context).dataLength := by
    simp only [dataBytes, Packet.dataLength, item.frame.length_eq]
  constructor
  · change (advanceSequence .outbound item.frame.header t).connectionSendCredit +
      ((a.scheduler.push item).items.map _).sum = a.state.connectionSendCredit + a.queuedData
    rw [advanceSequence_credit.1, FrameScheduler.sum_items_push, hbytes, queuedData]
    omega
  · exact advanceSequence_credit.2.1.trans hlimit

theorem Queues.exposure (h : Queues a b) : b.exposure = a.exposure ∧
    b.state.connectionSendLimit = a.state.connectionSendLimit := by
  refine h.preserves (I := fun b => b.exposure = a.exposure ∧
    b.state.connectionSendLimit = a.state.connectionSendLimit) ⟨rfl, rfl⟩ ?_ ?_
  · intro b c item context hb hs
    exact ⟨hs.exposure.1.trans hb.1, hs.exposure.2.trans hb.2⟩
  · intro b c hb hs
    exact ⟨by rw [Actor.exposure, queuedData, hs.sendCredit, hs.scheduler, ← hb.1, Actor.exposure,
      queuedData], hs.sendLimit.trans hb.2⟩

theorem exposure_accepts (hacc : Accepts codec a frame s) (hc : frame.header.command ≠ .hello) :
    { a with state := s }.exposure = a.exposure + granted frame ∧
      s.connectionSendLimit = a.state.connectionSendLimit := by
  obtain ⟨context, t, -, -, ha, rfl⟩ := hacc
  obtain ⟨hgrant, -, hlimit, -⟩ := receives_grant (p := ⟨frame.header, context⟩) ha hc
  have hgranted : (Packet.mk frame.header context).grant = granted frame := by
    unfold Packet.grant Packet.creditDelta granted
    split_ifs <;> simp_all
  constructor
  · change (advanceSequence .inbound frame.header t).connectionSendCredit + a.queuedData =
      a.state.connectionSendCredit + a.queuedData + granted frame
    rw [advanceSequence_credit.1, hgrant, hgranted]
    omega
  · exact advanceSequence_credit.2.1.trans hlimit

theorem Fresh.exposure (h : a.Fresh) : a.exposure = a.state.connectionSendLimit := by
  rw [Actor.exposure, queuedData, h.scheduler, h.negotiated.sendCredit]
  rfl

theorem Sound.exposure_dequeue (h : a.Sound) :
    { a with scheduler := a.scheduler.dequeue.2 }.exposure ≤ a.exposure := by
  obtain ⟨log, hlog, -⟩ := h.queue
  exact Nat.add_le_add_left (hlog.sum_items_dequeue _) _

theorem wrote_exposure :
    (a.wrote item).exposure = { a with scheduler := a.scheduler.dequeue.2 }.exposure := by
  unfold wrote
  split_ifs <;> rfl

/-- Only CREDIT from the peer raises the exposure, as far as the peer may. -/
theorem Solvent.handles (h : a.Solvent) (hinv : a.Inv) (hrun : a.running)
    (hhonest : a.Honest (w, event)) (hr : (handle codec w event).run a = (.ok (), b))
    (hlive' : b.awaitingRestart = false) : b.exposure ≤ b.state.connectionSendLimit := by
  cases handle_ok hr with
  | refused | ignored | expired | closed => exact (h hrun hlive').2
  | obeyed _ _ ho =>
    obtain ⟨hexposure, hlimit⟩ := (Queues.obeys ho).exposure
    rw [hexposure, hlimit]
    exact (h hrun ((awaitingRestart_of_command hr).symm.trans hlive')).2
  | @restarted _ r =>
    exact (Fresh.exposure (a := (a.restarted r).write r.helloResponse)
      ⟨r.negotiated, rfl, fun _ => rfl, rfl, rfl⟩).le
  | unwritten => cases show true = false from hlive'
  | @discarded frame s _ _ hlive hd hacc hrestores =>
    obtain ⟨hexposure, hlimit⟩ := exposure_accepts hacc (by simp [hd.1])
    obtain ⟨hexposure', hlimit'⟩ := (Queues.restores hrestores).exposure
    have hnothing : granted frame = 0 := by simp [granted, hd.1]
    rw [hexposure', hlimit', hexposure, hlimit, hnothing]
    exact (h hrun hlive).2
  | @dispatched frame s _ _ hlive hd hacc hdispatch =>
    rcases hdispatch.goAway_or with hc | ⟨-, -, -, hs⟩
    swap
    · simp [hs.awaitingRestart] at hlive'
    · obtain ⟨hexposure, hlimit⟩ := exposure_accepts hacc hdispatch.ne_hello
      obtain ⟨hexposure', hlimit'⟩ := (Queues.dispatches hdispatch hc).exposure
      rw [hexposure', hlimit', hexposure, hlimit]
      rcases hhonest hrun hlive with hnothing | hle
      · have hnothing : granted frame = 0 := hnothing
        rw [hnothing]
        exact (h hrun hlive).2
      · exact hle
  | idle => exact (hinv.live hrun hlive').exposure_dequeue.trans (h hrun hlive').2
  | wrote =>
    have hlive : a.awaitingRestart = false := wrote_awaitingRestart.symm.trans hlive'
    rw [wrote_exposure, wrote_state]
    exact (hinv.live hrun hlive).exposure_dequeue.trans (h hrun hlive).2

theorem Inv.solvent_of_exposure (h : a.Inv)
    (he : a.awaitingRestart = false → a.exposure ≤ a.state.connectionSendLimit) : a.Solvent := by
  intro hrun hlive
  obtain ⟨hle, hmax⟩ := (h.live hrun hlive).capacity
  exact ⟨hmax ▸ hle, he hlive⟩

theorem Solvent.step (h : a.Solvent) (hinv : a.Inv)
    (hhonest : a.Honest input) : (step codec a input).Solvent := by
  have hinv' : (Actor.step codec a input).Inv := hinv.step input
  revert hinv'
  refine step_induction codec a input fun b hsteps hinv' => ?_
  cases hsteps with
  | stopped => exact h
  | finished | failed => simp [Solvent, finish]
  | handled hrun _ hr => exact hinv'.solvent_of_exposure (h.handles hinv hrun hhonest hr)
  | restarting => simp [Solvent, beginRestart]

theorem waiting_not_full (hwait : a.awaitingRestart)
    (hr : ((handle codec w event).run a).1 = .error .queueFull) :
    ∃ frame, event = .inbound frame ∧ a.Restarts frame := by
  cases event with
  | command command =>
    exfalso
    simp only [handle, handleCurrentCommand, run_get_bind] at hr
    by_cases hc : command = .shutdown
    · subst hc
      simp [ActorCommand.generation, handleCommand] at hr
    · simp [hwait, hc] at hr
  | inbound frame =>
    refine ⟨frame, rfl, ?_⟩
    by_contra hn
    simp only [handle, handleInbound, run_get_bind] at hr
    rw [if_neg (by simpa [Restarts, and_assoc] using hn)] at hr
    split at hr
    · simp at hr
    · rename_i hignored
      obtain ⟨hc, -⟩ : frame.header.command = .hello ∧ frame.header.streamId = 0 := by
        simpa [hwait] using hignored
      simp only [inboundContext, hc, dispatch] at hr
      rcases hp : (processInbound frame.header {}).run a.state with ⟨_ | _, s⟩ <;>
        simp [run_bind, hp, Except.mapError] at hr
  | dequeue => exact absurd hr writeNext_not_full
  | expire | commandsClosed | inboundFailed | inboundClosed => simp [handle] at hr

theorem Inv.neverOverflows (hinv : a.Inv) (hcovered : a.Covered codec input) :
    NeverOverflows codec a input := by
  intro hrun hr
  cases hwait : a.awaitingRestart with
  | true =>
    obtain ⟨frame, hevent, hrestarts⟩ := waiting_not_full hwait hr
    exact ⟨frame, hevent, .inr hrestarts⟩
  | false =>
    have hsound := hinv.live hrun hwait
    refine handle_not_full ?_ hsound.capacity.2 hr
    have hbytes := hsound.queuedBytes_eq
    have hcovers := hcovered hrun hwait
    unfold HasRoom
    rw [hsound.capacity.2, hbytes]
    omega

/--
In every run in which the peer gives connection credit only for DATA that has been
written, the writer queue stays within its bound. Where what an event queues fits beside
the DATA, the headers and the frames that need no credit, nothing meets a full queue.
-/
theorem writer_queue_never_overflows (codec : ServiceCodec) {s : SessionState} (hs : Negotiated s)
    (restartable : Bool) (inputs : List (World × Event))
    (hhonest : Along (step codec) Honest (new s restartable) inputs)
    (hcovered : Along (step codec) (Covered codec) (new s restartable) inputs) :
    (∀ n, (exec codec (new s restartable) (inputs.take n)).Solvent) ∧
      Along (step codec) (NeverOverflows codec) (new s restartable) inputs := by
  have hinv := inv_new hs restartable
  have hsolvent : (new s restartable).Solvent := hinv.solvent_of_exposure fun _ =>
    (Fresh.exposure ⟨hs, rfl, fun _ => rfl, rfl, rfl⟩).le
  constructor
  · intro n
    exact ((hhonest.take n).foldl (I := fun a => a.Inv ∧ a.Solvent) ⟨hinv, hsolvent⟩
      fun a input ha hh => ⟨ha.1.step input, ha.2.step ha.1 hh⟩).2
  · exact hcovered.of_invariant hinv fun a input ha hc => ⟨ha.neverOverflows hc, ha.step input⟩

/-- Three bytes are sent on a stream, written, and given back by the peer. -/
theorem writer_queue_never_overflows_sendRun : let inputs : List (World × Event) :=
      [(calm, .inbound (frameOf .open 1 0 [] false)), (calm, .command (.accept 0 1 1024 .bulk 1)),
        (calm, .dequeue), (calm, .inbound (creditOf 1 1 1024)),
        (calm, .command (.sendData 0 1 [1, 2, 3] false 2)), (calm, .dequeue),
        (calm, .inbound (creditOf 0 1 3))]
    (Along (step plainCodec) Honest (new deviceSession false) inputs ∧
      Along (step plainCodec) (Covered plainCodec) (new deviceSession false) inputs) ∧
      (∀ n, (exec plainCodec (new deviceSession false) (inputs.take n)).Solvent) ∧
      Along (step plainCodec) (NeverOverflows plainCodec) (new deviceSession false) inputs := by
  intro inputs
  have hconforms : Along (step plainCodec) Honest (new deviceSession false) inputs ∧
      Along (step plainCodec) (Covered plainCodec) (new deviceSession false) inputs := by
    decide +kernel
  exact ⟨hconforms, writer_queue_never_overflows plainCodec deviceSession_negotiated false inputs
    hconforms.1 hconforms.2⟩

theorem submit_full (frame : Frame) {name : String} {t : SessionState}
    (hadm : a.state.Admitted .outbound frame.header context)
    (ha : a.state.Applies frame.header context .outbound t)
    (hfull : ¬ a.HasRoom (headerLen + frame.payload.length)) :
    ((submit trafficClass context frame name).run a).1 = .error .queueFull := by
  have henqueue : (FrameScheduler.enqueue ⟨trafficClass, frame⟩).run a.scheduler =
      (.error .queueFull, a.scheduler) :=
    (FrameScheduler.run_enqueue _ _).trans (if_neg hfull)
  have hp : (processOutbound frame.header context).run a.state =
      (.ok (), advanceSequence .outbound frame.header t) := process_ok_iff.mpr ⟨hadm, t, ha, rfl⟩
  unfold submit
  rw [run_bind_of_ok (zoom_ok_iff.mpr ⟨_, hp, rfl⟩)]
  simp [run_bind, henqueue, Except.mapError]

theorem Sound.queueFrame_full {id : ℕ} (h : a.Sound) (hid : id ≠ 0)
    (hcredit : a.hasSendCredit id payload.length) (hsend : a.Sendable id payload.length)
    (hfull : ¬ a.HasRoom (headerLen + payload.length)) :
    ((queueFrame .data id payload endStream trafficClass {}).run a).1 = .error .queueFull := by
  obtain ⟨st, hst, hp, he, hmax, hnumber⟩ := hsend
  obtain ⟨t, ht⟩ := (dataOut_iff (s := a.state) (c := {})
    (h := (frameOf .data id (a.nextSequenceFor id) payload endStream).header) rfl hid).mpr
    ⟨st, hst, hp, he, (hasSendCredit_iff hst).mp hcredit⟩
  have hadm : a.state.Admitted .outbound
      (frameOf .data id (a.nextSequenceFor id) payload endStream).header {} :=
    h.admitted rfl (frameOf_valid (by decide) (by simp) hid rfl hmax) rfl hnumber
  have hlen := hmax.trans a.state.config.limits.maxPayload_le
  unfold queueFrame
  rw [run_bind_of_ok (takeSequence_ok_iff.mpr ⟨rfl, hnumber, rfl⟩),
    run_bind_of_ok (ofExcept_ok_iff.mpr ⟨frame_new_eq_ok.mpr ⟨hlen, rfl⟩, rfl⟩)]
  exact submit_full (a := a.setSequence id _) (frameOf .data id _ payload endStream) hadm ht hfull

theorem Sound.exists_accepts_credit {id delta : ℕ} (h : a.Sound) (hid : id ≠ 0)
    (hst : a.state.streams id = some st) (hopen : st.phase = .accepted) (hpos : delta ≠ 0)
    (hmax : delta ≤ a.state.config.limits.maxWindow) (hu32 : st.sendCredit + delta ≤ u32Max)
    (hlimit : st.sendCredit + delta ≤ st.sendLimit) (hlast : a.state.expected .inbound id < u32Max) :
    ∃ s, Accepts codec a (creditOf id (a.state.expected .inbound id) delta) s := by
  refine ⟨_, {}, _, rfl, ⟨creditOf_valid hpos hmax, rfl, ?_, rfl, fun hn => ?_⟩,
    .creditIn st hid rfl hst hopen hu32 hlimit, rfl⟩
  · rcases h.phase with hp | hp <;> simp [hp]
  · simp only [creditOf, Header.new] at hn
    omega

/-- A CREDIT makes a waiting send affordable that finds no room in the queue. -/
theorem Sound.flush_full {pending : PendingSend} (h : a.Sound)
    (hlive : a.awaitingRestart = false) (hacc : Accepts codec a frame s)
    (hc : frame.header.command = .credit) (he : a.streams.lookup frame.header.streamId = some e)
    (hp : e.pendingSend = some pending) (hst : a.state.streams frame.header.streamId = some st)
    (hsend : a.Sendable frame.header.streamId pending.payload.length)
    (hcredit : pending.payload.length ≤ creditAfter st frame.header.creditDelta)
    (hconnection : pending.payload.length ≤ a.state.connectionSendCredit)
    (hfull : ¬ a.HasRoom (headerLen + pending.payload.length)) :
    ((handleInbound codec w frame).run a).1 = .error .queueFull := by
  have hid := h.ne_zero he
  obtain ⟨st', X, hst', hX, hphase, hend, hX', hconnection', hconfig⟩ := accepts_credit hacc hc hid
  obtain rfl : st = st' := Option.some.inj (hst.symm.trans hst')
  obtain ⟨_, -, hfits⟩ := h.entries _ e he
  have hs := h.accepts hacc (by simp [hc])
  have hcredit' : { a with state := s }.hasSendCredit frame.header.streamId
      pending.payload.length := by
    simp [hasSendCredit, hX, hX', hcredit, hconnection', hconnection]
  have hsend' : { a with state := s }.Sendable frame.header.streamId pending.payload.length := by
    obtain ⟨st', hst', hopen, hlocal, hmax, hnumber⟩ := hsend
    obtain rfl : st = st' := Option.some.inj (hst.symm.trans hst')
    exact ⟨X, hX, hphase.trans hopen, hend.trans hlocal, hconfig ▸ hmax, hnumber⟩
  have hq : ((queueFrame .data frame.header.streamId pending.payload pending.endStream
      e.trafficClass {}).run _).1 = .error .queueFull :=
    (hs.release he).sound.queueFrame_full hid hcredit' hsend' hfull
  rw [handleInbound_run (by simp [hc]) hlive hacc, if_neg (by simp [Discards, hc])]
  simp only [dispatch, hc, flushPending, run_get_bind, if_neg hid, flushStream, he, hp]
  simp [Nat.not_lt.mpr (hfits.pending pending hp), hcredit', queueData, hq]

theorem sendData_run {id response : ℕ}
    (hlive : a.awaitingRestart = false) (he : a.streams.lookup id = some e)
    (hs : a.Sends id payload endStream response b) :
    (handle codec w (.command (.sendData a.generation id payload endStream response))).run a =
      (.ok (), b) := by
  simp [handle, handleCurrentCommand, hlive, ActorCommand.generation, handleCommand, onStream, he,
    sendOrWait_ok_iff.mpr hs]

/-- The peer has opened two streams with the default window, and given credit for the first. -/
def twoStreams : List (World × Event) :=
  [(calm, .inbound (frameOf .open 1 0 [] false)),
    (calm, .command (.accept 0 1 (8 * 1024 * 1024) .bulk 1)), (calm, .dequeue),
    (calm, .inbound (creditOf 1 1 (8 * 1024 * 1024))),
    (calm, .inbound (frameOf .open 3 0 [] false)),
    (calm, .command (.accept 0 3 (8 * 1024 * 1024) .bulk 2)), (calm, .dequeue)]

/-- The record of a stream that both ends have opened with the default window. -/
def openStream (sendCredit : ℕ) : StreamState :=
  ⟨.accepted, false, false, false, sendCredit, 8 * 1024 * 1024, 8 * 1024 * 1024, 8 * 1024 * 1024⟩

theorem twoStreams_exec : let a := exec plainCodec (new deviceSession false) twoStreams
    (a.running ∧ a.awaitingRestart = false ∧ a.generation = 0 ∧ a.writeWaiters.keys = []) ∧
      (a.streams.lookup 1 = some (.new .bulk (8 * 1024 * 1024)) ∧
        a.streams.lookup 3 = some (.new .bulk (8 * 1024 * 1024))) ∧
      (a.state.streams 1 = some (openStream (8 * 1024 * 1024)) ∧
        a.state.streams 3 = some (openStream 0)) ∧
      a.state.connectionSendCredit = 16 * 1024 * 1024 ∧ a.scheduler.queuedBytes = 0 ∧
      a.state.config.limits = .default ∧ a.nextSequenceFor 1 = 1 ∧ a.nextSequenceFor 3 = 1 ∧
      a.state.expected .inbound 3 = 1 ∧ a.restartable = false := by
  decide +kernel

def waitingEntry (payload : List UInt8) : StreamEntry :=
  { StreamEntry.new .bulk (8 * 1024 * 1024) with pendingSend := some ⟨payload, false, 3⟩ }

theorem twoStreams_sends (window : List UInt8) (hlen : window.length = 8 * 1024 * 1024) :
    ∃ b, ((exec plainCodec (new deviceSession false) twoStreams).setEntry 3
        (waitingEntry window)).Submits ⟨.bulk, frameOf .data 1 1 window false⟩ {} b ∧
      exec plainCodec (new deviceSession false) (twoStreams ++
        [(calm, .command (.sendData 0 3 window false 3)),
          (calm, .command (.sendData 0 1 window false 4))]) =
        { b with writeWaiters := b.writeWaiters.insert (1, 1) 4 } := by
  obtain ⟨⟨hrun, hlive, hgeneration, hkeys⟩, ⟨h1, h3⟩, ⟨hst1, hst3⟩, hconnection, hbytes, hlimits,
    hnumber, -⟩ := twoStreams_exec
  have hinv : (exec plainCodec (new deviceSession false) twoStreams).Inv :=
    (inv_new deviceSession_negotiated false).exec twoStreams
  have hexec (a : Actor) (x y : World × Event) : exec plainCodec a (twoStreams ++ [x, y]) =
      step plainCodec (step plainCodec (exec plainCodec a twoStreams) x) y := foldl_append
  rw [hexec]
  generalize exec plainCodec (new deviceSession false) twoStreams = a at *
  have hwaits : a.Sends 3 window false 3 (a.setEntry 3 (waitingEntry window)) := by
    refine .waits h3 rfl (by simp [hkeys]) (by rw [hlen]; decide) ?_
    simp [hasSendCredit, hst3, openStream, hlen]
  have hfirst : step plainCodec a (calm, .command (.sendData a.generation 3 window false 3)) = _ :=
    step_of_ok hrun (by simp [Event.Final]) (sendData_run hlive h3 hwaits)
  rw [hgeneration] at hfirst
  have hinv' : (step plainCodec a (calm, .command (.sendData 0 3 window false 3))).Inv :=
    hinv.step _
  rw [hfirst] at hinv'
  rw [hfirst]
  have hentry : (a.setEntry 3 (waitingEntry window)).streams.lookup 1 =
      some (.new .bulk (8 * 1024 * 1024)) := (lookup_setEntry_ne (by decide)).trans h1
  have hsound := hinv'.live hrun hlive
  have hmax := hsound.capacity.2
  -- From here on only the entry of stream 3 differs from the state after the first events.
  have hstate : (a.setEntry 3 (waitingEntry window)).state = a.state := rfl
  have hscheduler : (a.setEntry 3 (waitingEntry window)).scheduler = a.scheduler := rfl
  have hwriters : (a.setEntry 3 (waitingEntry window)).writeWaiters = a.writeWaiters := rfl
  have hnumber' : (a.setEntry 3 (waitingEntry window)).nextSequenceFor 1 = 1 := hnumber
  have hlive' : (a.setEntry 3 (waitingEntry window)).awaitingRestart = false := hlive
  have hrun' : (a.setEntry 3 (waitingEntry window)).running := hrun
  have hgeneration' : (a.setEntry 3 (waitingEntry window)).generation = 0 := hgeneration
  generalize a.setEntry 3 (waitingEntry window) = c at *
  have hcredit : c.hasSendCredit 1 window.length := by
    simp [hasSendCredit, hstate, hst1, openStream, hconnection, hlen]
  have hcan : c.CanSend 1 window.length := by
    refine ⟨⟨openStream (8 * 1024 * 1024), hstate ▸ hst1, rfl, rfl, ?_, ?_⟩, ?_⟩
    · rw [hlen, hstate, hlimits]
      decide
    · rw [HasNumber, hnumber']
      decide
    · rw [HasRoom, hmax, hlen, hscheduler, hbytes]
      decide
  obtain ⟨b, hb⟩ := (hsound.submits_data_iff (by decide) hcredit).mpr hcan
  have hsends : c.Sends 1 window false 4 _ :=
    .queued hentry rfl (by simp [hwriters, hkeys]) hcredit hb
  have hsecond : step plainCodec c (calm, .command (.sendData c.generation 1 window false 4)) = _ :=
    step_of_ok hrun' (by simp [Event.Final]) (sendData_run hlive' hentry hsends)
  rw [hnumber'] at hb hsecond
  rw [hgeneration'] at hsecond
  exact ⟨b, hb, hsecond⟩

/-- Stream 3 waits for credit with a whole window, and a whole window of stream 1 is queued. -/
structure Crowded (window : List UInt8) (a : Actor) : Prop where
  running : a.running
  restartable : a.restartable = false
  live : a.awaitingRestart = false
  record : a.state.streams 3 = some (openStream 0)
  limits : a.state.config.limits = .default
  expected : a.state.expected .inbound 3 = 1
  number : a.nextSequenceFor 3 = 1
  connection : a.state.connectionSendCredit = 8 * 1024 * 1024
  queued : a.scheduler.queuedBytes = headerLen + 8 * 1024 * 1024
  entry : a.streams.lookup 3 = some (waitingEntry window)

theorem twoStreams_crowded {window : List UInt8} (hlen : window.length = 8 * 1024 * 1024) :
    Crowded window (exec plainCodec (new deviceSession false) (twoStreams ++
      [(calm, .command (.sendData 0 3 window false 3)),
        (calm, .command (.sendData 0 1 window false 4))])) := by
  obtain ⟨⟨hrun, hlive, -, -⟩, ⟨-, -⟩, ⟨-, hst⟩, hconnection, hbytes, hlimits, -, hnumber,
    hexpected, hrestartable⟩ := twoStreams_exec
  obtain ⟨b, hb, ha⟩ := twoStreams_sends window hlen
  rw [ha]
  obtain ⟨hconfig, hinbound, hrecords⟩ := hb.leaves_state
  obtain ⟨hqueued, -, hnumbers⟩ := hb.leaves
  have hother : 3 ≠ (frameOf .data 1 1 window false).header.streamId := show 3 ≠ 1 by decide
  have hsteady : b.running ∧ b.restartable = false := by
    cases hb
    exact ⟨hrun, hrestartable⟩
  refine ⟨hsteady.1, hsteady.2, hb.awaitingRestart.trans hlive, (hrecords 3 hother).trans hst,
    (congrArg _ hconfig).trans hlimits, (congrFun hinbound 3).trans hexpected,
    (hnumbers 3 hother).trans hnumber, hb.data_charge.trans ?_, hqueued.trans ?_,
    (congrArg (AList.lookup 3) hb.streams).trans lookup_setEntry⟩
  · change (exec plainCodec (new deviceSession false) twoStreams).state.connectionSendCredit - _ = _
    rw [hconnection, hlen]
  · change (exec plainCodec (new deviceSession false) twoStreams).scheduler.queuedBytes +
      (headerLen + window.length) = _
    rw [hbytes, Nat.zero_add, hlen]

section Crowded

variable {window : List UInt8} {a : Actor} (h : Crowded window a) (hinv : a.Inv)
  (hlen : window.length = 8 * 1024 * 1024)
include h hinv

theorem Crowded.accepts : ∃ s, Accepts plainCodec a (creditOf 3 1 (8 * 1024 * 1024)) s := by
  have hsound := hinv.live h.running h.live
  rw [← h.expected]
  exact hsound.exists_accepts_credit (by decide) h.record rfl (by decide)
    (by rw [h.limits]; decide) (by decide) (by decide) (by rw [h.expected]; decide)

include hlen

theorem Crowded.queueFull :
    ((handleInbound plainCodec calm (creditOf 3 1 (8 * 1024 * 1024))).run a).1 =
      .error .queueFull := by
  have hsound := hinv.live h.running h.live
  obtain ⟨s, hacc⟩ := h.accepts hinv
  refine hsound.flush_full h.live hacc rfl h.entry rfl h.record ?_ hlen.le
    (hlen.le.trans h.connection.ge) ?_
  · refine ⟨openStream 0, h.record, rfl, rfl, ?_, ?_⟩
    · rw [h.limits]
      exact hlen.le.trans (by decide)
    · rw [HasNumber]
      exact h.number.trans_lt (by decide)
  · rw [HasRoom, hsound.capacity.2, h.queued]
    simp only [hlen]
    decide

end Crowded

/--
The worker of stream 3 waits for credit with a whole window and that of stream 1 has just
queued one when the CREDIT for stream 3 comes in.
-/
theorem waiting_window_overflows (window : List UInt8) (hlen : window.length = 8 * 1024 * 1024) :
    let inputs : List (World × Event) := twoStreams ++
      [(calm, .command (.sendData 0 3 window false 3)),
        (calm, .command (.sendData 0 1 window false 4))]
    let a := exec plainCodec (new deviceSession false) inputs
    let frame := creditOf 3 1 (8 * 1024 * 1024)
    Along (step plainCodec) Honest (new deviceSession false) (inputs ++ [(calm, .inbound frame)]) ∧
      a.running ∧ ((processInbound frame.header {}).run a.state).1 = .ok () ∧
      ((handleInbound plainCodec calm frame).run a).1 = .error .queueFull ∧
      (step plainCodec a (calm, .inbound frame)).running = false := by
  intro inputs a frame
  have hcrowded : Crowded window a := twoStreams_crowded hlen
  have hinv : a.Inv := (inv_new deviceSession_negotiated false).exec inputs
  clear_value a
  have hfull := hcrowded.queueFull hinv hlen
  have hsteady : a.Steady ((handleInbound plainCodec calm frame).run a).2 :=
    handleInbound_steady (by decide) (by decide) a
  have hstep : step plainCodec a (calm, .inbound frame) = _ :=
    step_of_error hcrowded.running not_false (Prod.ext hfull rfl)
      (hsteady.restartable.trans hcrowded.restartable)
  refine ⟨Along.of_forall fun b input hmem _ _ => .inl ?_, hcrowded.running, ?_, hfull, ?_⟩
  · simp only [inputs, frame, twoStreams, cons_append, nil_append, mem_cons,
      not_mem_nil, or_false] at hmem
    rcases hmem with rfl | rfl | rfl | rfl | rfl | rfl | rfl | rfl | rfl | rfl <;> rfl
  · obtain ⟨s, context, t, hcontext, hadm, happ, -⟩ := hcrowded.accepts hinv
    obtain rfl : {} = context := Except.ok.inj hcontext
    exact congrArg Prod.fst (process_ok_iff.mpr ⟨hadm, t, happ, rfl⟩)
  · rw [hstep]
    rfl

/-- A conforming peer, two streams within the default windows, and the connection ends. -/
theorem window_on_two_streams_overflows_queue : let inputs : List (World × Event) := twoStreams ++
      [(calm, .command (.sendData 0 3 (.replicate (8 * 1024 * 1024) 0) false 3)),
        (calm, .command (.sendData 0 1 (.replicate (8 * 1024 * 1024) 0) false 4))]
    let a := exec plainCodec (new deviceSession false) inputs
    let frame := creditOf 3 1 (8 * 1024 * 1024)
    Along (step plainCodec) Honest (new deviceSession false) (inputs ++ [(calm, .inbound frame)]) ∧
      a.running ∧ ((processInbound frame.header {}).run a.state).1 = .ok () ∧
      ((handleInbound plainCodec calm frame).run a).1 = .error .queueFull ∧
      (step plainCodec a (calm, .inbound frame)).running = false :=
  waiting_window_overflows _ length_replicate

end Actor

end KindleBridge.Transport
