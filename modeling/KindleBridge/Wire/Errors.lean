import KindleBridge.Wire.Applies

/-! # Why a frame is refused

Two kinds of refusals matter to a peer that has done nothing wrong: its number is not the
expected one, or it has overrun its credit. Each is traced back to the part of the state
that the frame does not fit.
-/

namespace KindleBridge.Wire

open SessionState

/-- The errors by which a receiver reports that the peer overran its credit. -/
def CreditError : ProtocolError → Prop
  | .receiveCreditExceeded .. | .connectionReceiveCreditExceeded .. | .creditOverflow .. => True
  | _ => False

inductive Short (h : Header) (s : SessionState) : Prop
  | stream (st : StreamState) : h.command = .data → s.streams h.streamId = some st →
      (st.phase = .accepted ∨ st.phase.Terminal) → st.receiveCredit < h.payloadLength → Short h s
  | connection : h.command = .data → s.connectionReceiveCredit < h.payloadLength → Short h s
  | connectionCredit : h.streamId = 0 → h.command = .credit →
      (s.phase = .online ∨ s.phase = .goingAway) →
      (u32Max < s.connectionSendCredit + h.creditDelta ∨
        s.connectionSendLimit < s.connectionSendCredit + h.creditDelta) → Short h s
  | streamCredit (st : StreamState) : h.command = .credit → s.streams h.streamId = some st →
      st.phase = .accepted →
      (u32Max < st.sendCredit + h.creditDelta ∨ st.sendLimit < st.sendCredit + h.creditDelta) →
      Short h s

/-- What the effect of a frame refuses: never its number, and a credit only where it is short. -/
structure EffectError (h : Header) (s : SessionState) (e : ProtocolError) : Prop where
  short : CreditError e → Short h s
  number : ∀ id expected actual, e ≠ .sequence id expected actual

variable {h : Header} {c : FrameContext} {s : SessionState} {e : ProtocolError}

theorem checkedCredit_error {id current delta maximum : ℕ}
    (hr : checkedCredit id current delta maximum = .error e) :
    e = .creditOverflow id current delta maximum ∧
      (u32Max < current + delta ∨ maximum < current + delta) := by
  have hover : u32Max < current + delta ∨ maximum < current + delta := by
    by_contra! hle
    rw [checkedCredit_eq_ok_iff.mpr ⟨hle.1, hle.2, rfl⟩] at hr
    cases hr
  unfold checkedCredit at hr
  split at hr
  · simp at hr
  · exact ⟨(Except.error.inj hr).symm, hover⟩

theorem validateContext_error (hr : s.validateContext h c = .error e) : EffectError h s e := by
  unfold validateContext validateWindow at hr
  constructor
  · grind [CreditError]
  · grind

theorem applyOpen_error (hr : ((applyOpen .inbound h).run s).1 = .error e) : EffectError h s e := by
  unfold applyOpen at hr
  simp [unexpected] at hr
  constructor
  · grind [CreditError]
  · grind

theorem applyControl_error (hz : h.streamId = 0)
    (hr : ((applyControl .inbound h c).run s).1 = .error e) : EffectError h s e := by
  unfold applyControl applyHello applyPairingFinish requireOnlineOrGoing at hr
  cases hc : h.command <;> cases hw : c.initialConnectionWindow <;> simp [hc, hw, unexpected] at hr
  all_goals
    constructor
    · grind [CreditError, Short, → checkedCredit_error]
    · grind [→ checkedCredit_error]

theorem applyStream_error (hr : ((applyStream .inbound h c).run s).1 = .error e) :
    EffectError h s e := by
  unfold applyStream applyOpenResponse applyAccepted applyDiscardedInboundData applyData
    applyStreamCredit applyClose at hr
  cases hs : s.streams h.streamId <;> cases hc : h.command <;>
    cases hw : c.initialStreamWindow <;> simp [hs, hc, hw, unexpected] at hr
  all_goals
    constructor
    · grind [CreditError, Short, → checkedCredit_error]
    · grind [→ checkedCredit_error]

theorem apply_error (hr : ((apply .inbound h c).run s).1 = .error e) : EffectError h s e := by
  unfold apply at hr
  split_ifs at hr with hz ho
  · exact applyControl_error hz hr
  · exact applyOpen_error hr
  · exact applyStream_error hr

theorem short_of_creditError (hr : ((processInbound h c).run s).1 = .error e)
    (he : CreditError e) : Short h s := by
  obtain ⟨-, hrefused⟩ := process_error (Prod.ext hr rfl)
  cases hrefused with
  | header | closed => simp [CreditError, unexpected] at he
  | context hv => exact (validateContext_error hv).short he
  | sequence hq =>
    unfold validateSequence at hq
    grind [CreditError]
  | effect ha => exact (apply_error ha).short he

theorem sequence_of_refused {id expected actual : ℕ}
    (hr : s.Refused .inbound h c (.sequence id expected actual)) :
    h.sequence ≠ s.expected .inbound h.streamId := by
  generalize he : ProtocolError.sequence id expected actual = e at hr
  cases hr with
  | header | closed => simp [unexpected] at he
  | context hv => exact absurd he.symm ((validateContext_error hv).number _ _ _)
  | sequence hq =>
    intro hs
    unfold validateSequence at hq
    grind
  | effect ha => exact absurd he.symm ((apply_error ha).number _ _ _)

/-- A frame that is refused costs nothing: no check comes after a change. -/
theorem refused_frame_is_free (s t : SessionState) (h : Header) (c : FrameContext)
    (e : ProtocolError) (hr : (processInbound h c).run s = (.error e, t) ∨
      (processOutbound h c).run s = (.error e, t)) : t = s := by
  rcases hr with hr | hr <;> exact (process_error hr).1

/-- DATA for an accepted stream, beyond the window of 4 bytes. -/
theorem refused_frame_is_free_data : let s := ((do
      processOutbound (.new .hello 0 0) (.hello 1024)
      processInbound (.new .hello 0 0) (.hello 1024)
      processOutbound (.new .open 1 0) {}
      processInbound (.new .accept 1 0) (.accept 4) : SessionM Unit).run
        (SessionState.new (.new .host .default))).2
    let r := (processOutbound { Header.new .data 1 1 with payloadLength := 5 } {}).run s
    r.1 = .error (.sendCreditExceeded 1 5 4) ∧ r.2 = s := by
  intro s r
  have hrefused : r.1 = .error (.sendCreditExceeded 1 5 4) := by decide +kernel
  exact ⟨hrefused, refused_frame_is_free s r.2 _ _ _ (.inr (Prod.ext hrefused rfl))⟩

end KindleBridge.Wire
