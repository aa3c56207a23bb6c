import KindleBridge.Foundations.Runs
import KindleBridge.Transport.Negotiation
import KindleBridge.Transport.Preservation

/-! # Connection receive credit

As long as no event fails, the connection's receive credit and the unread bytes make up
the whole window, except for the bytes that are dropped when a stream is forgotten with
DATA in its inbox.
-/

namespace KindleBridge.Transport

open Wire

namespace Actor

/-- The receive credit and the unread bytes make up the window of the connection. -/
def Balanced (a : Actor) : Prop := a.ledger = a.state.connectionReceiveLimit

def Smooth (codec : ServiceCodec) (a : Actor) (input : World × Event) : Prop :=
  a.running → ((handle codec input.1 input.2).run a).1 = .ok ()

/-- No stream is forgotten whose worker has not read all of its DATA. -/
def Lossless (a : Actor) (input : World × Event) : Prop := a.running → a.lost input.2 = 0

instance {a : Actor} : Decidable a.Balanced := inferInstanceAs (Decidable (_ = _))
instance {codec : ServiceCodec} {a : Actor} {input : World × Event} :
    Decidable (Smooth codec a input) := inferInstanceAs (Decidable (_ → _))
instance {a : Actor} {input : World × Event} : Decidable (a.Lossless input) :=
  inferInstanceAs (Decidable (_ → _))

variable {a : Actor}

theorem ledger_failAll {w : World} {e : ConnectionError} : (a.failAll w e).ledger = a.ledger := by
  simp [ledger, unread, failAll, total, Function.comp_def, StreamEntry.unread,
    StreamEntry.silenced, replyAll]

theorem ledger_finish {w : World} : (a.finish w).ledger = a.ledger :=
  ledger_failAll (w := w) (e := .disconnected)

theorem lost_of_final {event : Event} (h : event.Final) : a.lost event = 0 := by
  unfold Event.Final at h
  split at h <;> first | rfl | contradiction

theorem Balanced.step_iff {codec : ServiceCodec} {input : World × Event} (h : a.Inv)
    (hb : a.Balanced) (hs : Smooth codec a input) :
    (step codec a input).Balanced ↔ a.Lossless input := by
  obtain ⟨w, event⟩ := input
  refine step_induction codec a (w, event) fun b hsteps => ?_
  unfold Balanced at hb
  cases hsteps with
  | stopped hrun => exact ⟨fun _ hr => absurd hr (by simp [hrun]), fun _ => hb⟩
  | finished hrun hfinal hsame =>
    refine ⟨fun _ _ => lost_of_final hfinal, fun _ => ?_⟩
    rcases hsame with rfl | ⟨e, rfl⟩
    · exact ledger_finish.trans hb
    · exact ledger_finish.trans (ledger_failAll.trans hb)
  | handled hrun _ hr =>
    have houtcome : Outcome a event b := h.outcome hrun hr
    unfold Balanced Lossless
    cases houtcome with
    | continues _ _ hledger hlimit | pauses _ _ hledger hlimit =>
      constructor
      · intro hb' _
        dsimp only
        omega
      · intro hl
        have := hl hrun
        dsimp only at this
        omega
    | restarts hfresh hl => exact ⟨fun _ _ => hl, fun _ => hfresh.ledger⟩
  | restarting hrun _ hr | failed hrun _ hr => exact absurd (hs hrun) (by simp [hr])

/--
In a run without connection errors the receive credit of the connection and the unread
bytes always make up its window, exactly if no step drops unread bytes.
-/
theorem receive_credit_balanced_iff (codec : ServiceCodec) {s : SessionState} (hs : Negotiated s)
    (restartable : Bool) (inputs : List (World × Event))
    (hsmooth : Along (step codec) (Smooth codec) (new s restartable) inputs) :
    (∀ n, (exec codec (new s restartable) (inputs.take n)).Balanced) ↔
      Along (step codec) Lossless (new s restartable) inputs := by
  refine hsmooth.forall_take_iff (I := Inv) (inv_new hs restartable) ?_ ?_
  · exact hs.receiveCredit
  · intro a input ha hb hsm
    exact ⟨ha.step input, hb.step_iff ha hsm⟩

/-- The worker reads its DATA before it resets the stream. -/
theorem receive_credit_balanced_readRun : let inputs : List (World × Event) :=
      [(calm, .inbound (frameOf .open 1 0 [] false)), (calm, .command (.accept 0 1 1024 .bulk 1)),
        (calm, .dequeue), (calm, .inbound (frameOf .data 1 1 [1, 2, 3] false)),
        (calm, .command (.receive 0 1 2)), (calm, .dequeue), (calm, .dequeue),
        (calm, .command (.reset 0 1 [] 3)), (calm, .dequeue)]
    Along (step plainCodec) (Smooth plainCodec) (new deviceSession false) inputs ∧
      Along (step plainCodec) Lossless (new deviceSession false) inputs ∧
      ∀ n, (exec plainCodec (new deviceSession false) (inputs.take n)).Balanced := by
  intro inputs
  have hsmooth : Along (step plainCodec) (Smooth plainCodec) (new deviceSession false) inputs := by
    decide +kernel
  have hlossless : Along (step plainCodec) Lossless (new deviceSession false) inputs := by
    decide +kernel
  exact ⟨hsmooth, hlossless, (receive_credit_balanced_iff plainCodec deviceSession_negotiated false
    inputs hsmooth).mpr hlossless⟩

/-- The worker resets its stream with three bytes unread: they are never given back. -/
theorem unread_bytes_not_returned : let inputs : List (World × Event) :=
      [(calm, .inbound (frameOf .open 1 0 [] false)), (calm, .command (.accept 0 1 1024 .bulk 1)),
        (calm, .dequeue), (calm, .inbound (frameOf .data 1 1 [1, 2, 3] false)),
        (calm, .command (.reset 0 1 [] 2)), (calm, .dequeue)]
    let a := exec plainCodec (new deviceSession false) inputs
    Along (step plainCodec) (Smooth plainCodec) (new deviceSession false) inputs ∧
      a.unread = 0 ∧ a.state.connectionReceiveCredit + 3 = a.state.connectionReceiveLimit ∧
      ¬ a.Balanced := by
  decide +kernel

end Actor

end KindleBridge.Transport
