import KindleBridge.Transport.Actor
import KindleBridge.Wire.Effects

/-! # What the handlers of a stream do

One relation for each handler, read off the code once: the cases in which it succeeds,
with the actor that it leads to.
-/

namespace KindleBridge.Transport

open Wire SessionState Op Option

/-! ## Queueing a frame

Queueing succeeds exactly when a number is left, the session state allows the frame and
the writer queue has room, and then the actor is known in closed form. The handlers that
return credit or flush pending sends are sequences of such submissions.
-/

/-- The frame that `queueFrame` builds. -/
def frameOf (command : Command) (id sequence : ℕ) (payload : List UInt8) (endStream : Bool) :
    Frame :=
  ⟨{ Header.new command id sequence with
      flags := if endStream then flagEndStream else 0, payloadLength := payload.length },
    payload, rfl⟩

/-- The frame that `queueCredit` builds. -/
def creditOf (id sequence delta : ℕ) : Frame :=
  ⟨{ Header.new .credit id sequence with creditDelta := delta, payloadLength := 0 }, [], rfl⟩

namespace Actor

/-- The actor with a frame queued whose effect on the session state is known. -/
def submitted (a : Actor) (item : ScheduledFrame) (t : SessionState) : Actor :=
  { a.setSequence item.streamId (item.frame.header.sequence + 1) with
    state := advanceSequence .outbound item.frame.header t
    scheduler := a.scheduler.push item
    trace := { a.trace with queued := a.trace.queued ++ [(a.generation, item.frame)] } }

/-- A frame is numbered, allowed by the session state and put into the writer queue. -/
inductive Submits (a : Actor) (item : ScheduledFrame) (context : FrameContext) : Actor → Prop
  | intro (t : SessionState) :
      item.frame.header.sequence = a.nextSequenceFor item.streamId →
      item.frame.header.sequence < u32Max →
      a.state.Admitted .outbound item.frame.header context →
      a.state.Applies item.frame.header context .outbound t →
      a.scheduler.queuedBytes + item.wireLen ≤ a.scheduler.maxQueuedBytes →
      Submits a item context (a.submitted item t)

variable {a b : Actor} {trafficClass : TrafficClass} {context : FrameContext} {payload : List UInt8}
  {name : String} {frame : Frame}

theorem nextSequenceFor_setSequence {id n : ℕ} :
    (a.setSequence id n).nextSequenceFor = Function.update a.nextSequenceFor id n := by
  funext id'
  by_cases hid : id' = id
  · subst hid
    by_cases hz : id' = 0 <;> simp [nextSequenceFor, setSequence, hz]
  · by_cases hz : id' = 0 <;> by_cases hz' : id = 0 <;> simp_all [nextSequenceFor, setSequence]

theorem takeSequence_ok_iff {id n : ℕ} : (takeSequence id).run a = (.ok n, b) ↔
    n = a.nextSequenceFor id ∧ n < u32Max ∧ b = a.setSequence id (n + 1) := by
  unfold takeSequence
  simp
  split_ifs with h
  · simp
    omega
  · simp
    constructor
    · rintro ⟨rfl, rfl⟩
      exact ⟨rfl, by omega, rfl⟩
    · rintro ⟨rfl, -, rfl⟩
      exact ⟨rfl, rfl⟩

theorem submit_ok_iff : (submit trafficClass context frame name).run a = (.ok (), b) ↔
    a.state.Admitted .outbound frame.header context ∧
      ∃ t, a.state.Applies frame.header context .outbound t ∧
        a.scheduler.queuedBytes + (ScheduledFrame.mk trafficClass frame).wireLen ≤
          a.scheduler.maxQueuedBytes ∧ b = { a with
          state := advanceSequence .outbound frame.header t
          scheduler := a.scheduler.push ⟨trafficClass, frame⟩
          trace := { a.trace with queued := a.trace.queued ++ [(a.generation, frame)] } } := by
  unfold submit
  rw [bind_ok_iff]
  constructor
  · rintro ⟨_, a', hz, hr⟩
    obtain ⟨s, hp, rfl⟩ := zoom_ok_iff.mp hz
    obtain ⟨hadm, t, ha, rfl⟩ := process_ok_iff.mp hp
    obtain ⟨_, _, hz, hr⟩ := bind_ok_iff.mp hr
    obtain ⟨s, hq, rfl⟩ := zoom_ok_iff.mp hz
    obtain ⟨hroom, rfl⟩ := FrameScheduler.enqueue_ok_iff.mp hq
    simp only [run_modify, Prod.mk.injEq, true_and] at hr
    exact ⟨hadm, t, ha, hroom, hr.symm⟩
  · rintro ⟨hadm, t, ha, hroom, rfl⟩
    refine ⟨(), _, zoom_ok_iff.mpr ⟨_, process_ok_iff.mpr ⟨hadm, t, ha, rfl⟩, rfl⟩, ?_⟩
    refine bind_ok_iff.mpr ⟨(), _, zoom_ok_iff.mpr ⟨_, ?_, rfl⟩, rfl⟩
    exact FrameScheduler.enqueue_ok_iff.mpr ⟨hroom, rfl⟩

theorem submits_iff (frame : Frame)
    (hn : frame.header.sequence = a.nextSequenceFor frame.header.streamId)
    (hlt : frame.header.sequence < u32Max) : (submit trafficClass context frame name).run
        (a.setSequence frame.header.streamId (frame.header.sequence + 1)) = (.ok (), b) ↔
      a.Submits ⟨trafficClass, frame⟩ context b := by
  rw [submit_ok_iff]
  constructor
  · rintro ⟨hadm, t, ha, hroom, rfl⟩
    exact .intro t hn hlt hadm ha hroom
  · rintro ⟨t, -, -, hadm, ha, hroom⟩
    exact ⟨hadm, t, ha, hroom, rfl⟩

theorem frame_new_eq_ok {header : Header} :
    (Frame.new header payload).mapError (fun e => ConnectionError.protocol e.text) = .ok frame ↔
      payload.length ≤ u32Max ∧
        frame = ⟨{ header with payloadLength := payload.length }, payload, rfl⟩ := by
  rw [mapError_eq_ok_iff, Frame.new]
  split_ifs with h
  · simp [h, eq_comm]
  · simp [h]

theorem numbered_ok_iff (h : Header) (id : ℕ) : (do
      let sequence ← takeSequence id
      let header := { h with streamId := id, sequence }
      let frame ← ofExcept ((Frame.new header payload).mapError fun e => .protocol e.text)
      submit trafficClass context frame name : ActorM Unit).run a = (.ok (), b) ↔
    a.Submits ⟨trafficClass, { h with
      streamId := id, sequence := a.nextSequenceFor id, payloadLength := payload.length },
      payload, rfl⟩ context b := by
  rw [bind_ok_iff]
  constructor
  · rintro ⟨n, a', hs, hr⟩
    obtain ⟨rfl, hlt, rfl⟩ := takeSequence_ok_iff.mp hs
    obtain ⟨frame, a', hf, hr⟩ := bind_ok_iff.mp hr
    obtain ⟨hn, rfl⟩ := ofExcept_ok_iff.mp hf
    obtain ⟨-, rfl⟩ := frame_new_eq_ok.mp hn
    exact (submits_iff ⟨_, payload, rfl⟩ rfl hlt).mp hr
  · intro hsub
    have hlt : a.nextSequenceFor id < u32Max := by
      cases hsub
      assumption
    have hlen : payload.length ≤ u32Max := by
      obtain ⟨_, _, _, hadm, _, _⟩ := hsub
      exact hadm.valid.payload.trans a.state.config.limits.maxPayload_le
    exact ⟨_, _, takeSequence_ok_iff.mpr ⟨rfl, hlt, rfl⟩, bind_ok_iff.mpr ⟨_, _,
      ofExcept_ok_iff.mpr ⟨frame_new_eq_ok.mpr ⟨hlen, rfl⟩, rfl⟩,
      (submits_iff ⟨_, payload, rfl⟩ rfl hlt).mpr hsub⟩⟩

def queueClass (command : Command) (trafficClass : TrafficClass) : TrafficClass :=
  if TrafficClass.forCommand command = .control then .control else trafficClass

theorem queueFrame_ok_iff {command : Command} {id : ℕ} {endStream : Bool} :
    (queueFrame command id payload endStream trafficClass context).run a = (.ok (), b) ↔
      a.Submits ⟨queueClass command trafficClass,
        frameOf command id (a.nextSequenceFor id) payload endStream⟩ context b :=
  numbered_ok_iff { Header.new command id 0 with
    flags := if endStream then flagEndStream else 0 } id

theorem queueCredit_ok_iff {id delta : ℕ} : (queueCredit id delta).run a = (.ok (), b) ↔
    a.Submits ⟨.control, creditOf id (a.nextSequenceFor id) delta⟩ {} b :=
  numbered_ok_iff { Header.new .credit id 0 with creditDelta := delta } id

end Actor

/-! ## The handlers -/

namespace Actor

/-- Hand a frame to the worker that waits for it. The last frame of a stream retires it. -/
def hand (id response : ℕ) (frame : Frame) (a : Actor) : Actor :=
  if terminal frame then (a.reply response (.frame frame)).retireStream id .disconnected
  else a.reply response (.frame frame)

/-- The consumed bytes of a frame are also returned to its stream. -/
def RefundsStream (a : Actor) (frame : Frame) : Prop :=
  frame.header.endStream = false ∧
    (a.state.streams frame.header.streamId).any (·.phase = .accepted)

instance {a : Actor} {frame : Frame} : Decidable (a.RefundsStream frame) :=
  inferInstanceAs (Decidable (_ ∧ _))

def waitingSend (a : Actor) (id : ℕ) : Option PendingSend :=
  (a.streams.lookup id).bind StreamEntry.pendingSend

/-- Credit for consumed DATA goes back to the peer. -/
inductive Restores (a : Actor) (frame : Frame) : Actor → Prop
  | nothing : frame.header.command ≠ .data ∨ frame.header.payloadLength = 0 →
      Restores a frame a
  | connection {b : Actor} : frame.header.command = .data → frame.header.payloadLength ≠ 0 →
      ¬ a.RefundsStream frame →
      a.Submits ⟨.control, creditOf 0 (a.nextSequenceFor 0) frame.header.payloadLength⟩ {} b →
      Restores a frame b
  | both {b c : Actor} : frame.header.command = .data → frame.header.payloadLength ≠ 0 →
      a.RefundsStream frame →
      a.Submits ⟨.control, creditOf frame.header.streamId
        (a.nextSequenceFor frame.header.streamId) frame.header.payloadLength⟩ {} b →
      b.Submits ⟨.control, creditOf 0 (b.nextSequenceFor 0) frame.header.payloadLength⟩ {} c →
      Restores a frame c

inductive Delivers (a : Actor) (frame : Frame) : Actor → Prop
  | handed {e : StreamEntry} {response : ℕ} {b : Actor} :
      a.streams.lookup frame.header.streamId = some e → e.receiver = some response →
      (a.setEntry frame.header.streamId { e with receiver := none }).Restores frame b →
      Delivers a frame (b.hand frame.header.streamId response frame)
  | stored {e : StreamEntry} : a.streams.lookup frame.header.streamId = some e →
      e.receiver = none → e.inboxBytes + frame.payload.length ≤ e.receiveWindow →
      Delivers a frame (a.setEntry frame.header.streamId { e with
        inboxBytes := e.inboxBytes + frame.payload.length, inbox := e.inbox ++ [frame] })

/-- A worker takes the oldest frame of the inbox, or waits. -/
inductive Receives (a : Actor) (id response : ℕ) : Actor → Prop
  | waits {e : StreamEntry} : a.streams.lookup id = some e → e.receiver = none → e.inbox = [] →
      Receives a id response (a.setEntry id { e with receiver := some response })
  | takes {e : StreamEntry} {frame : Frame} {rest : List Frame} {b : Actor} :
      a.streams.lookup id = some e → e.receiver = none → e.inbox = frame :: rest →
      (a.setEntry id { e with
        inbox := rest, inboxBytes := e.inboxBytes - frame.payload.length }).Restores frame b →
      Receives a id response (b.hand id response frame)

inductive Sends (a : Actor) (id : ℕ) (payload : List UInt8) (endStream : Bool) (response : ℕ) :
    Actor → Prop
  | queued {e : StreamEntry} {b : Actor} : a.streams.lookup id = some e → e.pendingSend = none →
      (∀ n, (id, n) ∉ a.writeWaiters.keys) → a.hasSendCredit id payload.length →
      a.Submits ⟨e.trafficClass, frameOf .data id (a.nextSequenceFor id) payload endStream⟩ {} b →
      Sends a id payload endStream response
        { b with writeWaiters := b.writeWaiters.insert (id, a.nextSequenceFor id) response }
  | waits {e : StreamEntry} : a.streams.lookup id = some e → e.pendingSend = none →
      (∀ n, (id, n) ∉ a.writeWaiters.keys) → payload.length ≤ u32Max →
      a.hasSendCredit id payload.length = false →
      Sends a id payload endStream response
        (a.setEntry id { e with pendingSend := some ⟨payload, endStream, response⟩ })

/-- The pending send of one stream is queued if the credit suffices. -/
inductive Flushes (a : Actor) (id : ℕ) : Actor → Prop
  | nothing : (∀ e, a.streams.lookup id = some e → e.pendingSend = none) → Flushes a id a
  | short {e : StreamEntry} {pending : PendingSend} : a.streams.lookup id = some e →
      e.pendingSend = some pending → pending.payload.length ≤ u32Max →
      a.hasSendCredit id pending.payload.length = false → Flushes a id (a.setEntry id e)
  | queued {e : StreamEntry} {pending : PendingSend} {b : Actor} :
      a.streams.lookup id = some e → e.pendingSend = some pending →
      a.hasSendCredit id pending.payload.length →
      (a.setEntry id { e with pendingSend := none }).Submits ⟨e.trafficClass,
        frameOf .data id (a.nextSequenceFor id) pending.payload pending.endStream⟩ {} b →
      Flushes a id
        { b with writeWaiters := b.writeWaiters.insert (id, a.nextSequenceFor id) pending.response }

inductive FlushesAll : List ℕ → Actor → Actor → Prop
  | nil {a : Actor} : FlushesAll [] a a
  | cons {id : ℕ} {ids : List ℕ} {a b c : Actor} : a.Flushes id b → FlushesAll ids b c →
      FlushesAll (id :: ids) a c

section Streams

variable {a b : Actor} {frame : Frame} {id response : ℕ} {payload : List UInt8} {endStream : Bool}
  {trafficClass : TrafficClass} {context : FrameContext} {command : Command}

theorem restoreConsumedCredit_ok_iff :
    (restoreConsumedCredit frame).run a = (.ok (), b) ↔ a.Restores frame b := by
  unfold restoreConsumedCredit
  by_cases h : frame.header.command ≠ .data ∨ frame.header.payloadLength = 0
  · simp only [h, if_true, run_pure, Prod.mk.injEq, true_and]
    constructor
    · rintro rfl
      exact .nothing h
    · intro hr
      cases hr with
      | nothing => rfl
      | connection hc hl | both hc hl => simp [hc, hl] at h
  · have hc : frame.header.command = .data := by simpa using fun hn => h (.inl hn)
    have hl : frame.header.payloadLength ≠ 0 := fun hz => h (.inr hz)
    simp only [h, if_false, run_get_bind, Bool.not_eq_true']
    by_cases hboth : a.RefundsStream frame
    · rw [if_pos (show _ ∧ _ from hboth), bind_ok_iff]
      constructor
      · rintro ⟨_, c, hs, hr⟩
        exact .both hc hl hboth (queueCredit_ok_iff.mp hs) (queueCredit_ok_iff.mp hr)
      · intro hr
        cases hr with
        | nothing hn => exact absurd hn h
        | connection _ _ hn => exact absurd hboth hn
        | both _ _ _ hs hr =>
          exact ⟨(), _, queueCredit_ok_iff.mpr hs, queueCredit_ok_iff.mpr hr⟩
    · rw [if_neg (show ¬ (_ ∧ _) from hboth), queueCredit_ok_iff]
      constructor
      · exact .connection hc hl hboth
      · intro hr
        cases hr with
        | nothing hn => exact absurd hn h
        | connection _ _ _ hs => exact hs
        | both _ _ hb => exact absurd hb hboth

theorem hand_ok_iff : (do
      modify (reply response (.frame frame))
      if terminal frame then modify (retireStream id .disconnected) : ActorM Unit).run a =
        (.ok (), b) ↔ b = a.hand id response frame := by
  unfold hand
  by_cases ht : terminal frame <;> simp [ht, eq_comm]

theorem deliver_ok_iff : (deliver frame).run a = (.ok (), b) ↔ a.Delivers frame b := by
  unfold deliver
  simp only [run_get_bind]
  constructor
  · intro hr
    split at hr
    · simp at hr
    · rename_i e he
      split at hr
      · rename_i receiver hreceiver
        simp only [run_modify_bind] at hr
        obtain ⟨_, c, hs, hr⟩ := bind_ok_iff.mp hr
        obtain rfl := hand_ok_iff.mp hr
        exact .handed he hreceiver (restoreConsumedCredit_ok_iff.mp hs)
      · rename_i hreceiver
        simp only [run_modify_bind] at hr
        split_ifs at hr with hfull
        · simp at hr
        · simp only [run_modify, Prod.mk.injEq, true_and] at hr
          subst hr
          simpa [setEntry] using Delivers.stored he hreceiver (by omega)
  · intro hd
    cases hd with
    | handed he hreceiver hs =>
      simp only [he, hreceiver, run_modify_bind]
      exact bind_ok_iff.mpr ⟨(), _, restoreConsumedCredit_ok_iff.mpr hs, hand_ok_iff.mpr rfl⟩
    | stored he hreceiver hroom =>
      simp [he, hreceiver, hroom, setEntry]

theorem receiveOrWait_ok_iff :
    (receiveOrWait id response).run a = (.ok (), b) ↔ a.Receives id response b := by
  unfold receiveOrWait
  simp only [run_get_bind]
  constructor
  · intro hr
    split at hr
    · simp at hr
    · rename_i e he
      split_ifs at hr with hreceiver
      · simp at hr
      · have hreceiver : e.receiver = none := by simpa using hreceiver
        split at hr
        · rename_i hinbox
          simp only [run_modify, Prod.mk.injEq, true_and] at hr
          subst hr
          exact .waits he hreceiver hinbox
        · rename_i frame rest hinbox
          simp only [run_modify_bind] at hr
          obtain ⟨_, c, hs, hr⟩ := bind_ok_iff.mp hr
          obtain rfl := hand_ok_iff.mp hr
          exact .takes he hreceiver hinbox (restoreConsumedCredit_ok_iff.mp hs)
  · intro hr
    cases hr with
    | waits he hreceiver hinbox => simp [he, hreceiver, hinbox]
    | @takes e _ _ _ he hreceiver hinbox hs =>
      have hfree : ¬ e.receiver.isSome := by simp [hreceiver]
      simp only [he, hinbox, if_neg hfree, run_modify_bind]
      exact bind_ok_iff.mpr ⟨(), _, restoreConsumedCredit_ok_iff.mpr hs, hand_ok_iff.mpr rfl⟩

theorem queueData_ok_iff :
    (queueData id payload endStream trafficClass response).run a = (.ok (), b) ↔
      ∃ c, a.Submits ⟨trafficClass, frameOf .data id (a.nextSequenceFor id) payload endStream⟩ {} c ∧
        b = { c with
          writeWaiters := c.writeWaiters.insert (id, a.nextSequenceFor id) response } := by
  unfold queueData
  simp only [run_get_bind, run_attempt_bind]
  constructor
  · intro hr
    rcases hq : (queueFrame .data id payload endStream trafficClass {}).run a with ⟨_ | _, c⟩
    · simp [hq] at hr
    · simp only [hq, run_modify, Prod.mk.injEq, true_and] at hr
      exact ⟨c, queueFrame_ok_iff.mp hq, hr.symm⟩
  · rintro ⟨c, hs, rfl⟩
    have hq : (queueFrame .data id payload endStream trafficClass {}).run a = (.ok (), c) :=
      queueFrame_ok_iff.mpr hs
    simp [hq]

theorem Submits.payload_le {n : ℕ}
    (hs : a.Submits ⟨trafficClass, frameOf command id n payload endStream⟩ context b) :
    payload.length ≤ u32Max := by
  cases hs with
  | intro _ _ _ hadm => exact hadm.valid.payload.trans a.state.config.limits.maxPayload_le

theorem sendOrWait_ok_iff : (sendOrWait id payload endStream response).run a = (.ok (), b) ↔
      a.Sends id payload endStream response b := by
  unfold sendOrWait
  simp only [run_get_bind]
  constructor
  · intro hr
    split at hr
    · simp at hr
    · rename_i e he
      by_cases hbusy : e.pendingSend.isSome ∨ a.writeWaiters.keys.any (·.1 = id)
      · simp [if_pos hbusy] at hr
      have hfree : e.pendingSend = none ∧ ∀ n, (id, n) ∉ a.writeWaiters.keys := by
        simpa using hbusy
      rw [if_neg hbusy] at hr
      split_ifs at hr with hlong hcredit hcredit
      · simp at hr
      · simp at hr
      · obtain ⟨c, hs, rfl⟩ := queueData_ok_iff.mp hr
        exact .queued he hfree.1 hfree.2 hcredit hs
      · simp only [run_modify, Prod.mk.injEq, true_and] at hr
        subst hr
        exact .waits he hfree.1 hfree.2 (by omega) (by simpa using hcredit)
  · intro hs
    cases hs with
    | queued he hidle hfree hcredit hs =>
      have hlong := not_lt.mpr hs.payload_le
      simpa [he, hidle, hfree, hlong, hcredit] using queueData_ok_iff.mpr ⟨_, hs, rfl⟩
    | waits he hidle hfree hle hcredit =>
      simp [he, hidle, hfree, not_lt.mpr hle, hcredit]

theorem flushes_iff_of_idle (h : ∀ e, a.streams.lookup id = some e → e.pendingSend = none) :
    a.Flushes id b ↔ b = a := by
  constructor
  · intro hf
    cases hf with
    | nothing => rfl
    | short he hp | queued he hp => simp [h _ he] at hp
  · rintro rfl
    exact .nothing h

/-- A send that waits is put back, or it is queued. -/
abbrev Retries (a : Actor) (id : ℕ) (e : StreamEntry) (pending : PendingSend) (b : Actor) : Prop :=
  (a.hasSendCredit id pending.payload.length = false ∧ b = a.setEntry id e) ∨
    (a.hasSendCredit id pending.payload.length ∧
      ∃ c, (a.setEntry id { e with pendingSend := none }).Submits ⟨e.trafficClass,
          frameOf .data id (a.nextSequenceFor id) pending.payload pending.endStream⟩ {} c ∧
        b = { c with writeWaiters :=
          c.writeWaiters.insert (id, a.nextSequenceFor id) pending.response })

variable {e : StreamEntry} {pending : PendingSend}

theorem flushes_iff (he : a.streams.lookup id = some e) (hp : e.pendingSend = some pending) :
    a.Flushes id b ↔ pending.payload.length ≤ u32Max ∧ a.Retries id e pending b := by
  constructor
  · intro hf
    cases hf with
    | nothing hn => simp [hn e he] at hp
    | short he' hp' hle hshort =>
      obtain rfl : _ = e := some.inj (he'.symm.trans he)
      obtain rfl : _ = pending := some.inj (hp'.symm.trans hp)
      exact ⟨hle, .inl ⟨hshort, rfl⟩⟩
    | queued he' hp' hcredit hs =>
      obtain rfl : _ = e := some.inj (he'.symm.trans he)
      obtain rfl : _ = pending := some.inj (hp'.symm.trans hp)
      exact ⟨hs.payload_le, .inr ⟨hcredit, _, hs, rfl⟩⟩
  · rintro ⟨hle, ⟨hshort, rfl⟩ | ⟨hcredit, c, hs, rfl⟩⟩
    · exact .short he hp hle hshort
    · exact .queued he hp hcredit hs

theorem Flushes.of_waiting (hf : a.Flushes id b)
    (he : a.streams.lookup id = some e) (hp : e.pendingSend = some pending) :
    a.Retries id e pending b := ((flushes_iff he hp).mp hf).2

theorem flushes_iff_of_waiting (he : a.streams.lookup id = some e)
    (hp : e.pendingSend = some pending) (hle : pending.payload.length ≤ u32Max) :
    a.Flushes id b ↔ a.Retries id e pending b := by
  rw [flushes_iff he hp, and_iff_right hle]

theorem flushStream_ok_iff : (flushStream id).run a = (.ok (), b) ↔ a.Flushes id b := by
  unfold flushStream
  simp only [run_get_bind]
  cases he : a.streams.lookup id with
  | none =>
    rw [flushes_iff_of_idle (by simp [he])]
    simp [eq_comm]
  | some e =>
    cases hp : e.pendingSend with
    | none =>
      rw [flushes_iff_of_idle (by simp [he, hp])]
      simp [hp, eq_comm]
    | some pending =>
      rw [flushes_iff he hp]
      simp only [hp, run_modify_bind]
      by_cases hlong : pending.payload.length > u32Max
      · simp [hlong, not_le.mpr hlong]
      · by_cases hcredit : a.hasSendCredit id pending.payload.length
        · simp only [hlong, hcredit, Bool.not_true, Bool.false_eq_true, if_false]
          rw [and_iff_right (not_lt.mp hlong), Retries, or_iff_right (by simp [hcredit]),
            and_iff_right hcredit]
          exact queueData_ok_iff
        · have hset : ((a.setEntry id { e with pendingSend := none }).setEntry id e) =
              a.setEntry id e := by simp [setEntry]
          simp [Retries, hlong, hcredit, hset, not_lt.mp hlong, eq_comm]

theorem flushStreams_ok_iff {ids : List ℕ} :
    (flushStreams ids).run a = (.ok (), b) ↔ FlushesAll ids a b := by
  induction ids generalizing a with
  | nil =>
    simp only [flushStreams, run_pure, Prod.mk.injEq, true_and]
    constructor
    · rintro rfl
      exact .nil
    · intro hf
      cases hf
      rfl
  | cons id ids ih =>
    rw [flushStreams, bind_ok_iff]
    constructor
    · rintro ⟨_, c, hs, hr⟩
      exact .cons (flushStream_ok_iff.mp hs) (ih.mp hr)
    · intro hf
      cases hf with
      | cons hs hr => exact ⟨(), _, flushStream_ok_iff.mpr hs, ih.mpr hr⟩

theorem queueAndReply_ok_iff :
    (queueAndReply command id payload context response).run a = (.ok (), b) ↔
      ∃ c, a.Submits ⟨queueClass command .control,
          frameOf command id (a.nextSequenceFor id) payload false⟩ context c ∧
        b = c.reply response .done := by
  unfold queueAndReply
  simp only [run_attempt_bind, run_modify_bind, ofExcept_ok_iff]
  constructor
  · rintro ⟨hr, rfl⟩
    refine ⟨_, queueFrame_ok_iff.mp (Prod.ext hr rfl), ?_⟩
    rw [hr]
    rfl
  · rintro ⟨c, hs, rfl⟩
    rw [queueFrame_ok_iff.mpr hs]
    exact ⟨rfl, rfl⟩

end Streams

end Actor

end KindleBridge.Transport
