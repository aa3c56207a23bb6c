import KindleBridge.Foundations.Budget
import KindleBridge.Transport.LateFrames

/-! # The room that an event needs

How many bytes an event puts into the writer queue at most, read off the state before it.
With that much room no handler reports a full queue, unless an inbox is full.
-/

namespace KindleBridge.Transport

open Wire SessionState Op Option Nat

namespace Actor

/-- The writer queue, as a gauge. -/
def writer : Gauge Actor ConnectionError where
  level a := a.scheduler.queuedBytes
  ceiling a := a.scheduler.maxQueuedBytes
  full := .queueFull

/-- The CREDIT frames for the bytes of a consumed frame. -/
def refund (a : Actor) (frame : Frame) : ℕ :=
  if frame.header.command ≠ .data ∨ frame.header.payloadLength = 0 then 0
  else if a.RefundsStream frame then headerLen + headerLen else headerLen

/-- DATA of the given length, if the credit suffices. -/
def sendDemand (a : Actor) (id length : ℕ) : ℕ :=
  if a.hasSendCredit id length then headerLen + length else 0

/-- The waiting sends of the streams, visited in order, that the connection credit reaches. -/
def flushDemand (a : Actor) : List ℕ → ℕ → ℕ
  | [], _ => 0
  | id :: ids, credit =>
    match a.waitingSend id with
    | none => a.flushDemand ids credit
    | some pending =>
      let length := pending.payload.length
      if (a.state.streams id).any (length ≤ ·.sendCredit) ∧ length ≤ credit then
        headerLen + length + a.flushDemand ids (credit - length)
      else a.flushDemand ids credit

def nextFrame (a : Actor) (id : ℕ) : Option Frame :=
  (a.streams.lookup id).bind fun e => e.inbox.head?

def Awaited (a : Actor) (id : ℕ) : Prop := ((a.streams.lookup id).bind StreamEntry.receiver).isSome

instance {a : Actor} {id : ℕ} : Decidable (a.Awaited id) := inferInstanceAs (Decidable (_ = _))

/-- The inbox has no room for a frame that no worker waits for. -/
def InboxFull (a : Actor) (frame : Frame) : Prop :=
  (a.streams.lookup frame.header.streamId).any fun e =>
    e.receiver = none ∧ e.receiveWindow < e.inboxBytes + frame.payload.length

instance {a : Actor} {frame : Frame} : Decidable (a.InboxFull frame) :=
  inferInstanceAs (Decidable (_ = _))

/-- The demand of a frame for a worker: its bytes are given back if the worker waits for it. -/
def deliverDemand (a : Actor) (frame : Frame) : ℕ :=
  if a.Awaited frame.header.streamId then a.refund frame else 0

def encodedLength : Except String (List UInt8) → ℕ
  | .ok payload => payload.length
  | .error _ => 0

def commandDemand (codec : ServiceCodec) (a : Actor) : ActorCommand → ℕ
  | .ping .. => headerLen + 16
  | .open _ service _ _ _ => headerLen + encodedLength (codec.encodeOpen service)
  | .accept _ _ receiveWindow _ _ => headerLen + encodedLength (codec.encodeAccept receiveWindow)
  | .reject _ _ reason _ => headerLen + reason.toUTF8.toList.length
  | .sendData _ id payload _ _ => a.sendDemand id payload.length
  | .receive _ id _ => ((a.nextFrame id).map a.refund).getD 0
  | .close .. | .goAway .. => headerLen
  | .reset _ _ reason _ => headerLen + reason.length
  | .cancelReceive .. | .shutdown => 0

/-- The demand of a CREDIT: the waiting sends that it makes affordable. -/
def creditDemand (w : World) (a : Actor) (frame : Frame) : ℕ :=
  if frame.header.streamId = 0 then
    a.flushDemand (w.order a.streams.keys)
      (a.state.connectionSendCredit + frame.header.creditDelta)
  else ((a.waitingSend frame.header.streamId).map fun pending =>
    if (a.state.streams frame.header.streamId).any
        (pending.payload.length ≤ creditAfter · frame.header.creditDelta) ∧
      pending.payload.length ≤ a.state.connectionSendCredit
    then headerLen + pending.payload.length else 0).getD 0

def frameDemand (w : World) (a : Actor) (frame : Frame) : ℕ :=
  match frame.header.command with
  | .accept | .goAway => headerLen
  | .credit => creditDemand w a frame
  | .data => if a.Discards frame then a.refund frame else a.deliverDemand frame
  | .ping => headerLen + frame.payload.length
  | _ => 0

variable {codec : ServiceCodec} {w : World} {a b : Actor} {id response : ℕ} {frame : Frame}
  {payload : List UInt8} {endStream : Bool} {trafficClass : TrafficClass} {context : FrameContext}
  {command : ActorCommand} {receiveWindow : ℕ} {ids : List ℕ}

theorem takeSequence_spends : (takeSequence id).Spends writer 0 a := by
  unfold takeSequence
  refine spends_get_bind (spends_ite (fun _ => spends_fail_bind (by simp [writer])) ?_)
  exact fun _ => spends_modify_bind le_rfl rfl (spends_pure _)

theorem submit_spends {name : String} : (submit trafficClass context frame name).Spends writer
    (headerLen + frame.payload.length) a := by
  unfold submit
  rw [← zero_add (headerLen + _)]
  refine spends_bind (spends_zoom (by simp [writer]) (fun _ _ => rfl) fun _ _ => rfl) ?_
  intro _ b _ hroom
  have henqueue : (FrameScheduler.enqueue ⟨trafficClass, frame⟩).run b.scheduler =
      (.ok (), b.scheduler.push ⟨trafficClass, frame⟩) :=
    FrameScheduler.enqueue_ok_iff.mpr ⟨hroom, rfl⟩
  rw [run_bind_of_ok (zoom_ok_iff.mpr ⟨_, henqueue, rfl⟩)]
  exact ⟨by simp, le_rfl, rfl⟩

theorem frame_new_spends {header : Header} :
    (Op.ofExcept ((Frame.new header payload).mapError fun e => .protocol e.text) :
      ActorM Frame).Spends writer 0 a := by
  refine spends_ofExcept ?_
  cases Frame.new header payload <;> simp [Except.mapError, writer]

theorem queueCredit_spends {delta : ℕ} : (queueCredit id delta).Spends writer headerLen a := by
  unfold queueCredit
  rw [← zero_add headerLen]
  refine spends_bind takeSequence_spends fun sequence b _ => ?_
  rw [← zero_add headerLen]
  refine spends_bind frame_new_spends fun frame c hf => ?_
  obtain ⟨hn, -⟩ := ofExcept_ok_iff.mp hf
  obtain ⟨-, rfl⟩ := frame_new_eq_ok.mp hn
  exact submit_spends.mono (by simp)

theorem queueFrame_spends {command : Command} :
    (queueFrame command id payload endStream trafficClass context).Spends writer
      (headerLen + payload.length) a := by
  unfold queueFrame
  rw [← zero_add (headerLen + _)]
  refine spends_bind takeSequence_spends fun sequence b _ => ?_
  rw [← zero_add (headerLen + _)]
  refine spends_bind frame_new_spends fun frame c hf => ?_
  obtain ⟨hn, -⟩ := ofExcept_ok_iff.mp hf
  obtain ⟨-, rfl⟩ := frame_new_eq_ok.mp hn
  exact submit_spends.mono (le_refl (headerLen + payload.length))

theorem restoreConsumedCredit_spends :
    (restoreConsumedCredit frame).Spends writer (a.refund frame) a := by
  unfold restoreConsumedCredit refund
  split_ifs with hnothing hboth
  · exact spends_pure _
  · refine spends_get_bind ?_
    rw [if_pos (by simpa [RefundsStream] using hboth)]
    exact spends_bind queueCredit_spends fun _ _ _ => queueCredit_spends
  · refine spends_get_bind ?_
    rw [if_neg (by simpa [RefundsStream] using hboth)]
    exact queueCredit_spends

theorem queueData_spends : (queueData id payload endStream trafficClass response).Spends writer
    (headerLen + payload.length) a := by
  unfold queueData
  rw [← add_zero (headerLen + _)]
  refine spends_get_bind (spends_attempt_bind queueFrame_spends fun r t _ hr => ?_)
  cases r with
  | ok => exact spends_modify le_rfl rfl
  | error e => exact spends_modify_bind le_rfl rfl (spends_fail (by simpa using hr))

theorem sendOrWait_spends : (sendOrWait id payload endStream response).Spends writer
    (a.sendDemand id payload.length) a := by
  unfold sendOrWait
  refine spends_get_bind ?_
  split
  · exact (spends_fail (by simp [writer])).mono (zero_le _)
  · refine spends_ite (fun _ => ?_) fun _ => ?_
    · exact spends_modify_bind le_rfl rfl (spends_fail_bind (by simp [writer]))
    · refine spends_ite (fun _ => spends_fail_bind (by simp [writer])) fun _ => ?_
      unfold sendDemand
      split_ifs
      · exact queueData_spends
      · exact spends_modify le_rfl rfl

theorem flushStream_spends : (flushStream id).Spends writer
    (((a.waitingSend id).map fun pending => a.sendDemand id pending.payload.length).getD 0) a := by
  unfold flushStream waitingSend
  refine spends_get_bind ?_
  cases he : a.streams.lookup id with
  | none => exact spends_pure _
  | some e =>
    cases hp : e.pendingSend with
    | none => simpa [hp] using spends_pure ()
    | some pending =>
      simp only [hp, bind_some, map_some, getD_some]
      refine spends_modify_bind le_rfl rfl ?_
      refine spends_ite (fun _ => spends_fail_bind (by simp [writer])) fun _ => ?_
      unfold sendDemand
      cases a.hasSendCredit id pending.payload.length with
      | false => simpa using spends_modify le_rfl rfl
      | true => simpa using queueData_spends

theorem Agrees.flushDemand_eq (h : Agrees a b ids) (credit : ℕ) :
    b.flushDemand ids credit = a.flushDemand ids credit := by
  induction ids generalizing credit with
  | nil => rfl
  | cons id ids ih =>
    simp only [flushDemand, h.waiting id (.head _), h.records id (.head _), ih h.tail]

theorem flushStreams_spends (hids : ids.Nodup) : (flushStreams ids).Spends writer
    (a.flushDemand ids a.state.connectionSendCredit) a := by
  induction ids generalizing a with
  | nil => exact spends_pure _
  | cons id ids ih =>
    obtain ⟨hid, hids⟩ := List.nodup_cons.mp hids
    have hfirst : (flushStream id).Spends writer _ a := flushStream_spends
    rw [flushStreams, flushDemand]
    cases hw : a.waitingSend id with
    | none =>
      rw [hw] at hfirst
      rw [← zero_add (a.flushDemand ..)]
      refine spends_bind hfirst fun _ b hb => ?_
      obtain rfl := (flushes_iff_of_idle (idle_of_waitingSend hw)).mp (flushStream_ok_iff.mp hb)
      exact ih hids
    | some pending =>
      rw [hw] at hfirst
      obtain ⟨e, he, hp⟩ := bind_eq_some_iff.mp hw
      simp only [map_some, getD_some, sendDemand] at hfirst
      dsimp only
      by_cases haffords : a.hasSendCredit id pending.payload.length
      · rw [if_pos haffords] at hfirst
        rw [if_pos (hasSendCredit_iff_any.mp haffords)]
        refine spends_bind hfirst fun _ b hb => ?_
        have hf := flushStream_ok_iff.mp hb
        obtain ⟨hshort, -⟩ | ⟨-, c, hs, hc⟩ := hf.of_waiting he hp
        · simp [hshort] at haffords
        · have hcharge : b.state.connectionSendCredit =
              a.state.connectionSendCredit - pending.payload.length := hc ▸ hs.data_charge
          rw [← (hf.agrees hid).flushDemand_eq, ← hcharge]
          exact ih hids
      · rw [if_neg haffords] at hfirst
        rw [if_neg (mt hasSendCredit_iff_any.mpr haffords), ← zero_add (a.flushDemand ..)]
        refine spends_bind hfirst fun _ b hb => ?_
        have hf := flushStream_ok_iff.mp hb
        obtain ⟨-, rfl⟩ | ⟨hc, -⟩ := hf.of_waiting he hp
        · rw [← (hf.agrees hid).flushDemand_eq]
          exact ih hids
        · exact absurd hc haffords

theorem hand_spends : (do
    modify (reply response (.frame frame))
    if terminal frame then modify (retireStream id .disconnected) : ActorM Unit).Spends
      writer 0 a := by
  refine spends_modify_bind le_rfl rfl ?_
  exact spends_ite (fun _ => spends_modify le_rfl rfl) fun _ => spends_pure _

theorem receiveOrWait_spends : (receiveOrWait id response).Spends writer
    (((a.nextFrame id).map a.refund).getD 0) a := by
  unfold receiveOrWait nextFrame
  refine spends_get_bind ?_
  cases he : a.streams.lookup id with
  | none => exact spends_fail (by simp [writer])
  | some e =>
    refine spends_ite (fun _ => ?_) fun _ => ?_
    · exact spends_modify_bind le_rfl rfl (spends_fail_bind (by simp [writer]))
    · cases hinbox : e.inbox with
      | nil => simpa [hinbox] using spends_modify le_rfl rfl
      | cons frame rest =>
        simp only [hinbox, bind_some, List.head?_cons, map_some, getD_some]
        refine spends_modify_bind le_rfl rfl ?_
        exact spends_bind restoreConsumedCredit_spends fun _ _ _ => hand_spends

theorem deliver_spends (hfull : ¬ a.InboxFull frame) :
    (deliver frame).Spends writer (a.deliverDemand frame) a := by
  unfold deliver
  refine spends_get_bind ?_
  split
  · exact (spends_fail (by simp [writer])).mono (zero_le _)
  · rename_i e he
    split
    · rename_i receiver hr
      rw [deliverDemand, if_pos (by simp [Awaited, he, hr])]
      refine spends_modify_bind le_rfl rfl ?_
      exact spends_bind restoreConsumedCredit_spends fun _ _ _ => hand_spends
    · rename_i hr
      rw [deliverDemand, if_neg (by simp [Awaited, he, hr])]
      refine spends_modify_bind le_rfl rfl (spends_ite (fun hover => ?_) fun _ => ?_)
      · exact absurd (by simpa [InboxFull, he, hr] using hover) hfull
      · exact spends_modify le_rfl rfl

theorem queueAndReply_spends {command : Command} :
    (queueAndReply command id payload context response).Spends writer
      (headerLen + payload.length) a := by
  unfold queueAndReply
  rw [← add_zero (headerLen + _)]
  refine spends_attempt_bind queueFrame_spends fun r t _ hr => ?_
  exact spends_modify_bind le_rfl rfl (spends_ofExcept hr)

theorem onStream_spends {request : StreamEntry → ActorM Unit} {n : ℕ}
    (h : ∀ e, (request e).Spends writer n a) : (onStream id response request).Spends writer n a := by
  unfold onStream
  refine spends_get_bind ?_
  split
  · exact (spends_modify le_rfl rfl).mono (zero_le _)
  · exact h _

theorem handlePing_spends {generation timeout : ℕ} :
    (handlePing w generation timeout response).Spends writer (headerLen + 16) a := by
  unfold handlePing
  refine spends_get_bind (spends_ite (fun _ => ?_) fun _ => ?_)
  · exact (spends_modify le_rfl rfl).mono (zero_le _)
  · refine spends_ite (fun _ => spends_fail_bind (by simp [writer])) fun _ => ?_
    refine spends_modify_bind le_rfl rfl (spends_ite (fun _ => ?_) fun _ => ?_)
    · exact (spends_modify le_rfl rfl).mono (zero_le _)
    · rw [← add_zero (headerLen + 16)]
      refine spends_attempt_bind (queueFrame_spends.mono ?_) fun r t _ hr => ?_
      · simp [leBytes]
      · cases r with
        | ok => exact spends_modify le_rfl rfl
        | error e => exact spends_modify_bind le_rfl rfl (spends_fail (by simpa using hr))

theorem encode_bind_spends {r : Except String (List UInt8)} {f : List UInt8 → ActorM Unit}
    (h : ∀ payload, (f payload).Spends writer (headerLen + payload.length) a) :
    (Op.ofExcept (r.mapError .invalidService) >>= f).Spends writer
      (headerLen + encodedLength r) a := by
  cases r with
  | ok payload => exact h payload
  | error e => exact spends_fail_bind (by simp [writer])

theorem handleOpen_spends {service : String} :
    (handleOpen codec service receiveWindow trafficClass response).Spends writer
      (headerLen + encodedLength (codec.encodeOpen service)) a := by
  unfold handleOpen
  rw [← zero_add (headerLen + _)]
  refine spends_bind (spends_zoom (by simp [writer]) (fun _ _ => rfl) fun _ _ => rfl) ?_
  intro id b _
  exact spends_modify_bind le_rfl rfl (encode_bind_spends fun _ => queueFrame_spends)

theorem handleAccept_spends {e : StreamEntry} :
    (handleAccept codec id receiveWindow trafficClass response e).Spends writer
      (headerLen + encodedLength (codec.encodeAccept receiveWindow)) a := by
  unfold handleAccept
  exact spends_modify_bind le_rfl rfl (encode_bind_spends fun _ => queueAndReply_spends)

theorem handleCommand_spends :
    (handleCommand codec w command).Spends writer (commandDemand codec a command) a := by
  cases command with
  | ping => exact handlePing_spends
  | «open» => exact handleOpen_spends
  | accept => exact onStream_spends fun _ => handleAccept_spends
  | reject | reset => exact onStream_spends fun _ => queueAndReply_spends
  | sendData => exact onStream_spends fun _ => sendOrWait_spends
  | receive => exact onStream_spends fun _ => receiveOrWait_spends
  | close => exact onStream_spends fun _ => queueAndReply_spends.mono (by simp [commandDemand])
  | cancelReceive =>
    exact onStream_spends fun _ => spends_modify_bind le_rfl rfl
      (spends_modify_bind le_rfl rfl (spends_modify le_rfl rfl))
  | goAway =>
    refine spends_get_bind (spends_ite (fun _ => ?_) fun _ => ?_)
    · exact (spends_modify le_rfl rfl).mono (zero_le _)
    · change Op.Spends writer (headerLen + ([] : List UInt8).length + 0) _ a
      exact spends_bind queueFrame_spends fun _ _ _ => spends_modify le_rfl rfl
  | shutdown => exact spends_pure _

theorem handleCurrentCommand_spends :
    (handleCurrentCommand codec w command).Spends writer (commandDemand codec a command) a := by
  unfold handleCurrentCommand
  refine spends_get_bind (spends_ite (fun _ => ?_) fun _ => ?_)
  · exact (spends_modify le_rfl rfl).mono (zero_le _)
  · refine spends_ite (fun _ => ?_) fun _ => handleCommand_spends
    exact (spends_modify le_rfl rfl).mono (zero_le _)

theorem acceptIncomingOpen_spends : (acceptIncomingOpen codec w frame).Spends writer 0 a := by
  unfold acceptIncomingOpen
  refine spends_bind (n := 0) (k := 0) (spends_ofExcept ?_) fun service b _ => ?_
  · cases codec.decodeOpen frame.payload <;> simp [Except.mapError, writer]
  · refine spends_modify_bind le_rfl rfl ?_
    refine spends_ite (fun _ => spends_fail_bind (by simp [writer])) fun _ => ?_
    refine spends_ite (fun _ => spends_fail_bind (by simp [writer])) fun _ => ?_
    exact spends_modify le_rfl rfl

theorem completeOpen_spends : (completeOpen id).Spends writer headerLen a := by
  unfold completeOpen
  refine spends_get_bind ?_
  split
  · exact (spends_fail (by simp [writer])).mono (zero_le _)
  · refine spends_bind (k := 0) queueCredit_spends fun _ b _ => ?_
    refine spends_modify_bind le_rfl rfl ?_
    exact spends_modify le_rfl rfl

theorem handleGoAway_spends (hmax : a.scheduler.maxQueuedBytes = maxScheduledBytes) :
    handleGoAway.Spends writer headerLen a := by
  unfold handleGoAway
  refine spends_get_bind ?_
  split
  · refine spends_modify_bind le_rfl rfl (spends_modify_bind le_rfl rfl ?_)
    exact (spends_fail (by simp [writer])).mono (zero_le _)
  · refine spends_ite (fun _ => ?_) fun _ =>
      (spends_fail (by simp [writer])).mono (zero_le _)
    refine spends_modify_bind (zero_le _) hmax.symm ?_
    exact spends_modify_bind le_rfl rfl (queueFrame_spends.mono (by simp))

section Inbound

variable {s : SessionState}

section
variable (hacc : Accepts codec a frame s)
include hacc

theorem refund_accepts : { a with state := s }.refund frame = a.refund frame := by
  unfold refund
  by_cases hc : frame.header.command = .data
  · simp only [refundsStream_accepts hacc hc]
  · simp [hc]

theorem deliverDemand_accepts :
    { a with state := s }.deliverDemand frame = a.deliverDemand frame := by
  unfold deliverDemand
  rw [refund_accepts hacc]
  rfl

theorem flushPending_spends (hc : frame.header.command = .credit) :
    (flushPending w frame.header.streamId).Spends writer (creditDemand w a frame)
      { a with state := s } := by
  unfold flushPending creditDemand
  refine spends_get_bind ?_
  split_ifs with hz
  · obtain ⟨hagrees, hconnection⟩ := agrees_of_connectionCredit hacc hc hz
    rw [← hconnection, ← hagrees.flushDemand_eq]
    exact flushStreams_spends ((w.order_perm _).nodup_iff.mpr a.streams.keys_nodup)
  · obtain ⟨st, X, hst, hX, -, -, hcredit, hconnection, -⟩ := accepts_credit hacc hc hz
    refine flushStream_spends.mono ?_
    have hwaiting : { a with state := s }.waitingSend frame.header.streamId =
        a.waitingSend frame.header.streamId := rfl
    rw [hwaiting]
    cases a.waitingSend frame.header.streamId with
    | none => simp
    | some pending => simp [sendDemand, hasSendCredit, hX, hst, hcredit, hconnection]

theorem dispatch_spends (hd : ¬ a.Discards frame)
    (hmax : a.scheduler.maxQueuedBytes = maxScheduledBytes) (hfull : ¬ a.InboxFull frame) :
    (dispatch codec w frame).Spends writer (frameDemand w a frame) { a with state := s } := by
  unfold dispatch frameDemand
  cases hc : frame.header.command <;> simp only []
  case «open» => exact acceptIncomingOpen_spends
  case accept => exact completeOpen_spends
  case reject | pong => exact spends_modify le_rfl rfl
  case credit => exact flushPending_spends hacc hc
  case data =>
    rw [if_neg hd, ← deliverDemand_accepts hacc]
    exact deliver_spends hfull
  case close | reset =>
    refine Op.Spends.mono (deliver_spends hfull) ?_
    simp [deliverDemand, refund, hc]
  case ping => exact queueFrame_spends
  case goAway => exact handleGoAway_spends hmax
  all_goals exact spends_fail (by simp [writer])

end

theorem handleInbound_spends (hrestart : ¬ a.Restarts frame)
    (hmax : a.scheduler.maxQueuedBytes = maxScheduledBytes)
    (hfull : ¬ a.Discards frame → ¬ a.InboxFull frame) :
    (handleInbound codec w frame).Spends writer (frameDemand w a frame) a := by
  unfold handleInbound
  refine spends_get_bind ?_
  rw [if_neg (by simpa [Restarts, and_assoc] using hrestart)]
  refine spends_ite (fun _ => (spends_pure _).mono (zero_le _)) fun _ => ?_
  rw [← zero_add (frameDemand w a frame)]
  refine spends_bind (spends_ofExcept ?_) fun context b hlift => ?_
  · unfold inboundContext
    split_ifs
    · cases codec.decodeAccept frame.payload <;> simp [Except.mapError, Except.map, writer]
    · simp
  obtain ⟨hcontext, rfl⟩ := ofExcept_ok_iff.mp hlift
  rw [← zero_add (frameDemand w b frame)]
  refine spends_bind (spends_zoom (by simp [writer]) (fun _ _ => rfl) fun _ _ => rfl) ?_
  intro _ c hzoom
  obtain ⟨s, hp, rfl⟩ := zoom_ok_iff.mp hzoom
  obtain ⟨hadm, t, ha, hadvance⟩ := process_ok_iff.mp hp
  have hacc : Accepts codec b frame s := ⟨context, t, hcontext, hadm, ha, hadvance⟩
  refine spends_ite (fun hd => ?_) fun hd => dispatch_spends hacc hd hmax (hfull hd)
  have hdiscards : b.Discards frame := hd
  rw [frameDemand, hd.1]
  simp only [if_pos hdiscards, ← refund_accepts hacc]
  exact restoreConsumedCredit_spends

end Inbound

def demand (codec : ServiceCodec) (w : World) (a : Actor) : Event → ℕ
  | .command command => commandDemand codec a command
  | .inbound frame => frameDemand w a frame
  | _ => 0

theorem writeNext_not_full : ((writeNext w).run a).1 ≠ .error .queueFull := by
  intro hr
  simp only [writeNext, run_get_bind, run_modify_bind] at hr
  split at hr
  · simp at hr
  · split at hr
    · simp at hr
    · simp only [run_modify_bind, run_ite] at hr
      split_ifs at hr <;> simp at hr

theorem handle_not_full {event : Event} (hroom : a.HasRoom (demand codec w a event))
    (hmax : a.scheduler.maxQueuedBytes = maxScheduledBytes)
    (hr : ((handle codec w event).run a).1 = .error .queueFull) :
    ∃ frame, event = .inbound frame ∧
      (a.InboxFull frame ∧ ¬ a.Discards frame ∨ a.Restarts frame) := by
  cases event with
  | command command =>
    have hspends : (handleCurrentCommand codec w command).Spends writer _ a :=
      handleCurrentCommand_spends
    exact absurd hr (hspends hroom).result
  | inbound frame =>
    refine ⟨frame, rfl, ?_⟩
    rw [or_iff_not_imp_right]
    refine fun hrestart => by_contra fun hn => ?_
    have hspends : (handleInbound codec w frame).Spends writer _ a :=
      handleInbound_spends hrestart hmax fun hd hfull => hn ⟨hfull, hd⟩
    exact absurd hr (hspends hroom).result
  | dequeue => exact absurd hr writeNext_not_full
  | expire | commandsClosed | inboundFailed | inboundClosed => simp [handle] at hr

end Actor

end KindleBridge.Transport
