import KindleBridge.Transport.Capacity
import KindleBridge.Transport.Negotiation

/-! # Late frames

The session state remembers a finished stream for ever, the actor forgets it as soon as
the last frame is written or read. A frame that the first still accepts is dispatched
against the second; `Absorbable` says when that does no harm.
-/

namespace KindleBridge.Transport

open Wire SessionState Op

namespace Actor

def OfStream (frame : Frame) : Prop :=
  frame.header.streamId ≠ 0 ∧ (frame.header.command = .data ∨ frame.header.command = .credit ∨
    frame.header.command = .close ∨ frame.header.command = .reset)

/-- The send credit of a stream after a CREDIT, which a finished stream ignores. -/
def creditAfter (st : StreamState) (delta : ℕ) : ℕ :=
  if st.phase = .accepted then st.sendCredit + delta else st.sendCredit

/--
An accepted frame does no harm: bytes that are given back at once find a number and room,
a send that becomes affordable is one of an open stream, and a CLOSE or RESET finds its
stream in the table, with a waiting worker or room in the inbox.
-/
def Absorbable (a : Actor) (frame : Frame) : Prop :=
  match frame.header.command with
  | .data =>
    a.Discards frame ∨ (∃ e, a.streams.lookup frame.header.streamId = some e ∧
      e.receiver.isSome) → a.CanRefund frame
  | .credit => ∀ e pending st, a.streams.lookup frame.header.streamId = some e →
      e.pendingSend = some pending → a.state.streams frame.header.streamId = some st →
      pending.payload.length ≤ creditAfter st frame.header.creditDelta →
      pending.payload.length ≤ a.state.connectionSendCredit →
      a.CanSend frame.header.streamId pending.payload.length
  | _ => ∃ e, a.streams.lookup frame.header.streamId = some e ∧
      (e.receiver.isSome ∨ e.inboxBytes + frame.payload.length ≤ e.receiveWindow)

variable {codec : ServiceCodec} {w : World} {a : Actor} {frame : Frame} {s : SessionState}

theorem handleInbound_run (hc : frame.header.command ≠ .hello) (hlive : a.awaitingRestart = false)
    (hacc : Accepts codec a frame s) :
    (handleInbound codec w frame).run a = (if a.Discards frame then restoreConsumedCredit frame
      else dispatch codec w frame).run { a with state := s } := by
  obtain ⟨context, t, hcontext, hadm, ha, rfl⟩ := hacc
  have hp : (processInbound frame.header context).run a.state =
      (.ok (), advanceSequence .inbound frame.header t) := process_ok_iff.mpr ⟨hadm, t, ha, rfl⟩
  unfold handleInbound
  rw [run_get_bind, if_neg (by simp [hc]), if_neg (by simp [hlive]), hcontext]
  exact run_bind_of_ok (zoom_ok_iff.mpr ⟨_, hp, rfl⟩)

/-- Accepting DATA changes no phase, so it does not change what is given back. -/
theorem refundsStream_accepts (hacc : Accepts codec a frame s) (hc : frame.header.command = .data) :
    { a with state := s }.RefundsStream frame ↔ a.RefundsStream frame := by
  obtain ⟨context, t, -, -, ha, rfl⟩ := hacc
  obtain ⟨st, X, hst, hX, hphase, -⟩ := data_of_applies ha hc
  simp [RefundsStream, hst, hX, hphase]

theorem canRefund_accepts (hacc : Accepts codec a frame s) :
    { a with state := s }.CanRefund frame ↔ a.CanRefund frame := by
  unfold CanRefund
  refine forall_congr' fun hc => forall_congr' fun _ => and_congr_right fun _ => ?_
  simp only [refundsStream_accepts hacc hc]
  rfl

theorem Sound.data_iff (h : a.Sound) (hlive : a.awaitingRestart = false)
    (hacc : Accepts codec a frame s) (hc : frame.header.command = .data) :
    ((handleInbound codec w frame).run a).1 = .ok () ↔ a.Absorbable frame := by
  have hs := h.accepts hacc (by simp [hc])
  have howes := h.owes hacc
  rw [handleInbound_run (by simp [hc]) hlive hacc]
  simp only [Absorbable, hc]
  by_cases hd : a.Discards frame
  · rw [if_pos hd, ok_iff_exists]
    simp only [restoreConsumedCredit_ok_iff, hs.restores_iff howes, canRefund_accepts hacc, hd,
      true_or, forall_const]
  · rw [if_neg hd, ok_iff_exists]
    simp only [dispatch, hc, deliver_ok_iff, hs.delivers_iff howes, hd, false_or]
    obtain ⟨-, st, hst, hp⟩ | ⟨ht, -⟩ := arrives_of_accepts hacc hd (.inl hc)
    · obtain ⟨e, he⟩ := hs.present _ st hst (.inl hp)
      have hroom := (howes.stream st e hst hp he).1
      rw [dataBytes_of_data hc, frame.length_eq] at hroom
      constructor
      · rintro ⟨e', he', hcan⟩ ⟨e'', he'', hwaits⟩
        obtain rfl : e' = e'' := Option.some.inj (he'.symm.trans he'')
        rw [if_pos hwaits] at hcan
        exact (canRefund_accepts hacc).mp hcan
      · intro hcan
        refine ⟨e, he, ?_⟩
        split_ifs with hwaits
        · exact (canRefund_accepts hacc).mpr (hcan ⟨e, he, hwaits⟩)
        · omega
    · simp [terminal, hc] at ht

theorem accepts_credit (hacc : Accepts codec a frame s) (hc : frame.header.command = .credit)
    (hid : frame.header.streamId ≠ 0) : ∃ st X, a.state.streams frame.header.streamId = some st ∧
      s.streams frame.header.streamId = some X ∧ X.phase = st.phase ∧
      X.localEndStream = st.localEndStream ∧
      X.sendCredit = creditAfter st frame.header.creditDelta ∧
      s.connectionSendCredit = a.state.connectionSendCredit ∧ s.config = a.state.config := by
  obtain ⟨context, t, -, -, ha, rfl⟩ := hacc
  obtain ⟨st, X, hst, hX, hphase, hend, hcredit⟩ := creditIn_of_applies ha hc hid
  have hconnection := (receives_grant (p := ⟨frame.header, context⟩) ha (by simp [hc])).1
  refine ⟨st, X, hst, by simpa using hX, hphase, hend, hcredit, ?_, by simp [config_of_applies ha]⟩
  simpa [Packet.grant, hc, hid] using hconnection

theorem agrees_of_connectionCredit {ids : List ℕ} (hacc : Accepts codec a frame s)
    (hc : frame.header.command = .credit) (hz : frame.header.streamId = 0) :
    Agrees a { a with state := s } ids ∧
      s.connectionSendCredit = a.state.connectionSendCredit + frame.header.creditDelta := by
  obtain ⟨context, t, -, -, ha, rfl⟩ := hacc
  have hconnection := (receives_grant (p := ⟨frame.header, context⟩) ha (by simp [hc])).1
  refine ⟨⟨fun _ _ => rfl, fun id _ => ?_, fun _ _ => rfl, by simp [config_of_applies ha], rfl⟩, ?_⟩
  · dsimp only
    rw [advanceSequence_streams]
    rcases eq_or_ne id 0 with rfl | hid
    · exact streams_zero_of_applies ha
    · exact streams_of_ne (p := ⟨frame.header, context⟩) ha (by simpa [hz] using hid.symm)
  · simpa [Packet.grant, Packet.creditDelta, hc, hz] using hconnection

theorem Sound.credit_iff (h : a.Sound) (hlive : a.awaitingRestart = false)
    (hacc : Accepts codec a frame s) (hc : frame.header.command = .credit)
    (hid : frame.header.streamId ≠ 0) :
    ((handleInbound codec w frame).run a).1 = .ok () ↔ a.Absorbable frame := by
  have hs := h.accepts hacc (by simp [hc])
  have hd : ¬ a.Discards frame := by simp [Discards, hc]
  rw [handleInbound_run (by simp [hc]) hlive hacc, if_neg hd, ok_iff_exists]
  simp only [dispatch, hc, flushPending, run_get_bind, if_neg hid, flushStream_ok_iff,
    hs.flushes_iff, Absorbable]
  obtain ⟨st, X, hst, hX, hphase, hend, hcredit, hconnection, hconfig⟩ := accepts_credit hacc hc hid
  have hsame (length : ℕ) : { a with state := s }.CanSend frame.header.streamId length ↔
      a.CanSend frame.header.streamId length := by
    simp only [CanSend, Sendable, hX, hst, hconfig, Option.some.injEq, exists_eq_left', hphase, hend]
    rfl
  have hcredits (length : ℕ) :
      { a with state := s }.hasSendCredit frame.header.streamId length ↔
        length ≤ creditAfter st frame.header.creditDelta ∧
          length ≤ a.state.connectionSendCredit := by
    simp [hasSendCredit, hX, hcredit, hconnection]
  simp only [CanFlush, hsame, hcredits, and_imp]
  constructor
  · intro hcan e pending st' he hp hst'
    obtain rfl : st = st' := Option.some.inj (hst.symm.trans hst')
    exact hcan e pending he hp
  · intro hcan e pending he hp
    exact hcan e pending st he hp hst

theorem Sound.end_iff (h : a.Sound) (hlive : a.awaitingRestart = false)
    (hacc : Accepts codec a frame s)
    (hc : frame.header.command = .close ∨ frame.header.command = .reset) :
    ((handleInbound codec w frame).run a).1 = .ok () ↔ a.Absorbable frame := by
  have hs := h.accepts hacc (by rcases hc with hc | hc <;> simp [hc])
  have hd : ¬ a.Discards frame := by rcases hc with hc | hc <;> simp [Discards, hc]
  have hdispatch : dispatch codec w frame = deliver frame := by
    rcases hc with hc | hc <;> simp [dispatch, hc]
  have hrefund : { a with state := s }.CanRefund frame := by
    intro hn
    rcases hc with hc | hc <;> simp [hc] at hn
  have habsorb : a.Absorbable frame ↔ ∃ e, a.streams.lookup frame.header.streamId = some e ∧
      (e.receiver.isSome ∨ e.inboxBytes + frame.payload.length ≤ e.receiveWindow) := by
    rcases hc with hc | hc <;> simp only [Absorbable, hc]
  rw [handleInbound_run (by rcases hc with hc | hc <;> simp [hc]) hlive hacc, if_neg hd, hdispatch,
    ok_iff_exists, habsorb]
  simp only [deliver_ok_iff, hs.delivers_iff (h.owes hacc), CanDeliver]
  refine exists_congr fun e => and_congr_right fun _ => ?_
  split_ifs with hwaits
  · simp [hwaits, hrefund]
  · simp [hwaits]

theorem accepts_of_run {frame : Frame} (hc : frame.header.command ≠ .accept)
    (hr : ((processInbound frame.header {}).run a.state).1 = .ok ()) :
    ∃ s, Accepts codec a frame s := by
  obtain ⟨s, hs⟩ := ok_iff_exists.mp hr
  obtain ⟨hadm, t, ha, rfl⟩ := process_ok_iff.mp hs
  exact ⟨_, {}, t, by simp [inboundContext, hc], hadm, ha, rfl⟩

/--
A frame of a stream that the session state accepts is handled without a connection error
exactly if it is absorbable.
-/
theorem accepted_frame_handled_iff (codec : ServiceCodec) {s : SessionState} (hs : Negotiated s)
    (restartable : Bool) (inputs : List (World × Event)) (w : World) (frame : Frame)
    (hrun : (exec codec (new s restartable) inputs).running) (hf : OfStream frame)
    (hr : ((processInbound frame.header {}).run
      (exec codec (new s restartable) inputs).state).1 = .ok ()) :
    ((handleInbound codec w frame).run (exec codec (new s restartable) inputs)).1 = .ok () ↔
      (exec codec (new s restartable) inputs).awaitingRestart ∨
        (exec codec (new s restartable) inputs).Absorbable frame := by
  have hinv : (exec codec (new s restartable) inputs).Inv := (inv_new hs restartable).exec inputs
  generalize exec codec (new s restartable) inputs = a at hrun hr hinv
  obtain ⟨hid, hc⟩ := hf
  cases hwait : a.awaitingRestart with
  | true =>
    have hhello : frame.header.command ≠ .hello := by
      rcases hc with hc | hc | hc | hc <;> simp [hc]
    simp [handleInbound, hhello, hwait]
  | false =>
    have h := hinv.live hrun hwait
    obtain ⟨s', hacc⟩ : ∃ s', Accepts codec a frame s' :=
      accepts_of_run (by rcases hc with hc | hc | hc | hc <;> simp [hc]) hr
    simp only [Bool.false_eq_true, false_or]
    rcases hc with hc | hc | hc
    · exact h.data_iff hwait hacc hc
    · exact h.credit_iff hwait hacc hc hid
    · exact h.end_iff hwait hacc hc

/-- Late DATA on a stream that the worker has reset is given back and does no harm. -/
theorem accepted_frame_handled_resetRun : let inputs : List (World × Event) :=
      [(calm, .inbound (frameOf .open 1 0 [] false)), (calm, .command (.accept 0 1 1024 .bulk 1)),
        (calm, .dequeue), (calm, .command (.reset 0 1 [] 2)), (calm, .dequeue)]
    let frame := frameOf .data 1 1 [1, 2, 3] false
    let a := exec plainCodec (new deviceSession false) inputs
    a.running ∧ OfStream frame ∧ ((processInbound frame.header {}).run a.state).1 = .ok () ∧
      ((handleInbound plainCodec calm frame).run a).1 = .ok () := by
  intro inputs frame a
  have hrun : a.running := by decide +kernel
  have hf : OfStream frame := ⟨by decide, .inl rfl⟩
  have hr : ((processInbound frame.header {}).run a.state).1 = .ok () := by decide +kernel
  have hroom : a.HasNumber 0 ∧ ¬ a.RefundsStream frame ∧ a.HasRoom headerLen := by
    decide +kernel
  refine ⟨hrun, hf, hr, (accepted_frame_handled_iff plainCodec deviceSession_negotiated false inputs
    calm frame hrun hf hr).mpr (.inr fun _ _ _ => ⟨hroom.1, ?_⟩)⟩
  rw [if_neg hroom.2.1]
  exact hroom.2.2

/-- The RESETs of both ends cross: the actor has forgotten the stream and gives up the connection. -/
theorem crossing_reset_ends_connection : let inputs : List (World × Event) :=
      [(calm, .inbound (frameOf .open 1 0 [] false)), (calm, .command (.accept 0 1 1024 .bulk 1)),
        (calm, .dequeue), (calm, .command (.reset 0 1 [] 2)), (calm, .dequeue)]
    let frame := frameOf .reset 1 1 [] false
    let a := exec plainCodec (new deviceSession false) inputs
    a.running ∧ ((processInbound frame.header {}).run a.state).1 = .ok () ∧
      ((handleInbound plainCodec calm frame).run a).1 = .error (.unknownStream 1) ∧
      (step plainCodec a (calm, .inbound frame)).running = false := by
  decide +kernel

end Actor

end KindleBridge.Transport
