import KindleBridge.Transport.Demand
import KindleBridge.Transport.ReceiveCredit

/-! # The bound on an inbox

DATA is covered by the credit of its stream, so it always fits into the inbox. The payload
of a CLOSE or RESET is not, and may overflow it.
-/

namespace KindleBridge.Transport

open Wire SessionState

namespace Actor

/-- Every inbox of a live session is within its window, and so is what may still come in. -/
def Bounded (a : Actor) : Prop :=
  a.running → a.awaitingRestart = false → ∀ id e, a.streams.lookup id = some e →
    e.inboxBytes ≤ e.receiveWindow ∧ ∀ st, a.state.streams id = some st → st.phase = .accepted →
      st.receiveCredit + e.unread ≤ e.receiveWindow

/-- The payload of a CLOSE or RESET fits, and so does the credit for DATA that is handed out. -/
def Roomy (a : Actor) : World × Event → Prop
  | (_, .inbound frame) => a.running → a.awaitingRestart = false →
      (terminal frame → ¬ a.InboxFull frame) ∧
      (frame.header.command = .data → a.Awaited frame.header.streamId →
        a.HasRoom (a.refund frame))
  | _ => True

instance (a : Actor) (input : World × Event) : Decidable (a.Roomy input) :=
  match input with
  | (_, .inbound _) => inferInstanceAs (Decidable (_ → _))
  | (_, .command _) | (_, .commandsClosed) | (_, .inboundFailed _) | (_, .inboundClosed)
  | (_, .dequeue) | (_, .expire) => inferInstanceAs (Decidable True)

/-- An accepted frame is delivered without overflow. -/
def NeverFull (codec : ServiceCodec) (a : Actor) (input : World × Event) : Prop :=
  ∀ frame s, input.2 = .inbound frame → a.running → a.awaitingRestart = false →
    Accepts codec a frame s → ¬ a.Discards frame →
    frame.header.command = .data ∨ frame.header.command = .close ∨
      frame.header.command = .reset →
    ((deliver frame).run { a with state := s }).1 ≠ .error .queueFull

variable {codec : ServiceCodec} {a : Actor} {frame : Frame} {s : SessionState}

theorem Inv.bounded (h : a.Inv) : a.Bounded := by
  intro hrun hlive id e he
  obtain ⟨st, hst, hfits⟩ := (h.live hrun hlive).entries id e he
  refine ⟨hfits.window, fun st' hst' hp => ?_⟩
  obtain rfl : st = st' := Option.some.inj (hst.symm.trans hst')
  exact (Nat.add_le_add_left hfits.unread_le _).trans (hfits.unread hp)

theorem Sound.data_fits (h : a.Sound) (hacc : Accepts codec a frame s) (hd : ¬ a.Discards frame)
    (hc : frame.header.command = .data) : ¬ a.InboxFull frame := by
  intro hfull
  obtain ⟨e, he, hover⟩ := (Option.any_eq_true ..).mp hfull
  simp only [decide_eq_true_eq] at hover
  obtain ⟨-, st, hst, hp⟩ | ⟨ht, -⟩ := arrives_of_accepts hacc hd (.inl hc)
  · have hroom := ((h.owes hacc).stream st e hst hp he).1
    rw [dataBytes_of_data hc, frame.length_eq] at hroom
    omega
  · simp [terminal, hc] at ht

theorem Inv.neverFull {input : World × Event} (h : a.Inv) (hroomy : a.Roomy input) :
    NeverFull codec a input := by
  intro frame s hevent hrun hlive hacc hd hc
  obtain ⟨w, event⟩ := input
  obtain rfl : event = .inbound frame := hevent
  obtain ⟨hterminal, hdata⟩ := hroomy hrun hlive
  have hsound := h.live hrun hlive
  have hfull : ¬ a.InboxFull frame := by
    rcases hc with hc | hc
    · exact hsound.data_fits hacc hd hc
    · exact hterminal (by simpa [terminal] using hc)
  have hspends : (deliver frame).Spends writer _ { a with state := s } := deliver_spends hfull
  have hroom : a.HasRoom (a.deliverDemand frame) := by
    unfold deliverDemand
    split_ifs with hawaited
    · rcases hc with hc | hc
      · exact hdata hc hawaited
      · have hnothing : a.refund frame = 0 := by rcases hc with hc | hc <;> simp [refund, hc]
        rw [hnothing]
        exact hsound.capacity.1
    · exact hsound.capacity.1
  refine (hspends ?_).result
  rw [deliverDemand_accepts hacc]
  exact hroom

/--
In every run in which the payload of each CLOSE or RESET fits into what is left of the
inbox, and the credit for DATA that is handed out at once fits into the writer queue, the
inboxes stay within their windows and no delivery overflows.
-/
theorem inbox_never_full (codec : ServiceCodec) {s : SessionState} (hs : Negotiated s)
    (restartable : Bool) (inputs : List (World × Event))
    (hroomy : Along (step codec) Roomy (new s restartable) inputs) :
    (∀ n, (exec codec (new s restartable) (inputs.take n)).Bounded) ∧
      Along (step codec) (NeverFull codec) (new s restartable) inputs := by
  have hinv := inv_new hs restartable
  refine ⟨fun n => (hinv.exec _).bounded, hroomy.of_invariant hinv fun a input ha hr => ?_⟩
  exact ⟨ha.neverFull hr, ha.step input⟩

/-- A RESET with a reason of one byte finds three bytes unread in a window of eight. -/
theorem inbox_never_full_resetRun : let inputs : List (World × Event) :=
      [(calm, .inbound (frameOf .open 1 0 [] false)), (calm, .command (.accept 0 1 8 .bulk 1)),
        (calm, .dequeue), (calm, .inbound (frameOf .data 1 1 [1, 2, 3] false)),
        (calm, .inbound (frameOf .reset 1 2 [4] false))]
    Along (step plainCodec) Roomy (new deviceSession false) inputs ∧
      (∀ n, (exec plainCodec (new deviceSession false) (inputs.take n)).Bounded) ∧
      Along (step plainCodec) (NeverFull plainCodec) (new deviceSession false) inputs := by
  intro inputs
  have hroomy : Along (step plainCodec) Roomy (new deviceSession false) inputs := by
    decide +kernel
  exact ⟨hroomy, inbox_never_full plainCodec deviceSession_negotiated false inputs hroomy⟩

/-- The worker has read nothing of a whole window when the RESET with its reason arrives. -/
theorem reset_reason_overflows_inbox : let inputs : List (World × Event) :=
      [(calm, .inbound (frameOf .open 1 0 [] false)), (calm, .command (.accept 0 1 8 .bulk 1)),
        (calm, .dequeue), (calm, .inbound (frameOf .data 1 1 [1, 2, 3, 4, 5, 6, 7, 8] false))]
    let a := exec plainCodec (new deviceSession false) inputs
    let frame := frameOf .reset 1 2 [9] false
    Along (step plainCodec) (Smooth plainCodec) (new deviceSession false) inputs ∧ a.running ∧
      ((processInbound frame.header {}).run a.state).1 = .ok () ∧
      ((handleInbound plainCodec calm frame).run a).1 = .error .queueFull ∧
      (step plainCodec a (calm, .inbound frame)).running = false := by
  decide +kernel

/-- In every live state a reader waits only at an empty inbox, where DATA is before the end. -/
theorem reader_never_missed (codec : ServiceCodec) (session : RestartedSession)
    (restartable : Bool) (inputs : List (World × Event)) (id : ℕ) :
    let a := exec codec (new session.state restartable) inputs
    a.running = false ∨ (a.streams.lookup id).all fun e => (e.receiver.isSome → e.inbox = []) ∧
      (∀ f ∈ e.inbox, f.header.streamId = id) ∧ e.inbox.Pairwise (terminal · → terminal ·) := by
  intro a
  have hinv : a.Inv := (inv_new session.negotiated restartable).exec inputs
  cases hr : a.running with
  | false => exact .inl rfl
  | true =>
    right
    rw [Option.all_eq_true]
    intro e he
    cases hw : a.awaitingRestart with
    | true => simp [hinv.waiting hr hw] at he
    | false =>
      obtain ⟨st, -, hfits⟩ := (hinv.live hr hw).entries id e he
      exact decide_eq_true ⟨hfits.idle, hfits.streamId, hfits.ordered⟩

end Actor

end KindleBridge.Transport
