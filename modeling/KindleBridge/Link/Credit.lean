import KindleBridge.Link.Invariant
import KindleBridge.Wire.Errors

/-! # Credit is conserved across the link

The credit equations of the two levels in every state that accepted deliveries lead to,
and their consequence: a frame that its sender's state machine allowed never meets a
credit error at its receiver.
-/

namespace KindleBridge.Link

open Wire SessionState List

/-- The stream credit that a frame grants to its receiver, the window of an ACCEPT included. -/
def streamGrant (p : Packet) : ℕ :=
  if p.header.command = .accept then p.context.initialStreamWindow.getD 0 else p.creditDelta

/-- Both ends have accepted the stream, or one has and its ACCEPT is on the way to the other. -/
def Established (X Y : StreamState) : Prop :=
  X.phase = .accepted ∧ Y.phase = .accepted ∨ X.phase = .opening ∧ Y.phase = .accepted ∨
    X.phase = .accepted ∧ Y.phase = .opening

def streamGrants (q : List Packet) : ℕ := (q.map streamGrant).sum

theorem streamGrants_eq {q : List Packet} (hk : ∀ p ∈ q, p.Live ∨ p.Ends)
    (hq : ∀ p ∈ q, ¬ p.Ends) : streamGrants q = liveCredit q := by
  rw [liveCredit_eq_sum hq, streamGrants]
  congr 1
  refine map_congr_left fun p hp => ?_
  rcases (hk p hp).resolve_right (hq p hp) with hc | hc <;> simp [streamGrant, hc]

variable {X Y : StreamState} {q q' : List Packet}

theorem Coupled.credit (h : Coupled X Y q q')
    (hx : X.phase = .accepted) (hq' : ∀ p ∈ q', ¬ p.Ends) :
    X.sendCredit + dataBytes q + streamGrants q' = Y.receiveCredit := by
  rw [streamGrants_eq h.back.kinds hq']
  exact h.there.credit hx

theorem Joint.credit (h : Joint (some X) (some Y) q q')
    (he : Established X Y) (hq : ∀ p ∈ q, ¬ p.Ends) (hq' : ∀ p ∈ q', ¬ p.Ends) :
    X.sendCredit + dataBytes q + streamGrants q' = Y.receiveCredit ∧
      Y.sendCredit + dataBytes q' + streamGrants q = X.receiveCredit := by
  cases h with
  | waiting | rejecting | rejected => simp [Established, StreamState.opening] at he
  | @accepting p w _ q hc hw _ hco =>
    have hy : Y.phase = .accepted := by simpa [Established, StreamState.opening] using he
    have hp : streamGrant p = w := by simp [streamGrant, hc, hw]
    have hthere := hco.credit rfl (forall_mem_cons.mp hq').2
    have hback := hco.symm.credit hy hq
    simp only [acceptedInitiator, StreamState.opening] at hthere hback
    simp only [streamGrants, map_cons, sum_cons, dataBytes_cons, hp, StreamState.opening,
      Packet.dataLength, hc, if_false, reduceCtorEq] at hthere hback ⊢
    omega
  | live _ _ hco =>
    have hphase : X.phase = .accepted ∧ Y.phase = .accepted := by
      have hx := hco.there.sender
      have hy := hco.back.sender
      unfold Established at he
      grind [StreamPhase.Terminal]
    exact ⟨hco.credit hphase.1 hq', hco.symm.credit hphase.2 hq⟩

namespace Inv

variable {limits : DecodeLimits} {l : State} {r : EndpointRole} {p : Packet}

theorem coupled_of_mem (hi : Inv limits l) (hp : p ∈ l.channel (peer r)) {Y : StreamState}
    (hs : (l.endpoint r).streams p.header.streamId = some Y)
    (hy : Y.phase = .accepted ∨ Y.phase.Terminal) :
    ∃ X, (l.endpoint (peer r)).streams p.header.streamId = some X ∧
      X.initiatedByLocal = !Y.initiatedByLocal ∧
      Coupled X Y (framesOf p.header.streamId (l.channel (peer r)))
        (framesOf p.header.streamId (l.channel r)) := by
  have hz : p.header.streamId ≠ 0 := by
    intro h0
    rw [h0, hi.control r] at hs
    cases hs
  have hj := hi.joint _ hz
  have hmem : p ∈ framesOf p.header.streamId (l.channel (peer r)) := by simp [framesOf, hp]
  generalize p.header.streamId = id at *
  rcases eq_or_eq_peer (opener id) r with rfl | rfl
  · rw [hs] at hj
    obtain ⟨X, hX, hx, hco⟩ := hj.initiator_coupled hy
    exact ⟨X, hX, by simp [hx, hj.initiator_local], hco.symm⟩
  · rw [hs] at hj
    rw [peer_peer] at hmem ⊢
    obtain ⟨X, hX, hx, hco⟩ := hj.responder_coupled (ne_nil_of_mem hmem)
    exact ⟨X, hX, by simp [hx, hj.responder_remote], hco⟩

theorem coupled_of_responder (hi : Inv limits l) {id : ℕ}
    (hY : (l.endpoint r).streams id = some Y) (hrem : Y.initiatedByLocal = false)
    (hX : (l.endpoint (peer r)).streams id = some X) (hx : X.phase = .accepted ∨ X.phase.Terminal) :
    X.initiatedByLocal = true ∧
      Coupled X Y (framesOf id (l.channel (peer r))) (framesOf id (l.channel r)) := by
  have hz : id ≠ 0 := by
    rintro rfl
    rw [hi.control r] at hY
    cases hY
  have hj := hi.joint id hz
  rcases eq_or_eq_peer (opener id) r with rfl | rfl
  · rw [hY] at hj
    simp [hj.initiator_local] at hrem
  · rw [peer_peer] at hX ⊢
    rw [hX, hY] at hj
    obtain ⟨Y', hY', -, hco⟩ := hj.initiator_coupled hx
    obtain rfl := Option.some.inj hY'
    exact ⟨hj.initiator_local, hco⟩

theorem not_short (hi : Inv limits l) (hq : l.channel (peer r) = p :: q) :
    ¬ Short p.header (l.endpoint r) := by
  have hp : p ∈ l.channel (peer r) := by simp [hq]
  rintro (⟨st, hc, hs, ha, hlt⟩ | ⟨hc, hlt⟩ | ⟨h0, hc, ho, hlt⟩ | ⟨st, hc, hs, ha, hlt⟩)
  · obtain ⟨X, -, -, hco⟩ := hi.coupled_of_mem hp hs ha
    have := hco.there.spent
    simp only [hq, framesOf_cons, if_true, dataBytes_cons, Packet.dataLength, hc, if_true] at this
    omega
  · have := (hi.grant (peer r)).credit
    rw [peer_peer, hq] at this
    simp only [dataBytes_cons, Packet.dataLength, hc, if_true] at this
    omega
  · have hg := hi.grant r
    have hlimit := hg.limit (hi.greeted r ho).2
    have hcredit := hg.credit
    have hbound := hg.bound
    have hsmall := hg.small
    rw [hq] at hcredit
    simp only [grants_cons, Packet.grant, Packet.creditDelta, hc, h0, if_true, if_false,
      reduceCtorEq] at hcredit
    omega
  · obtain ⟨X, -, -, hco⟩ := hi.coupled_of_mem hp hs (.inl ha)
    have hcredit := hco.back.credit ha
    have hbound := hco.back.bound
    have hlimit := hco.limit_back
    have hsmall := hco.small
    rw [hq, framesOf_cons, if_pos rfl, liveCredit_cons_of_live (.inr hc)] at hcredit
    simp only [Packet.creditDelta, hc, if_true] at hcredit
    omega

end Inv

/--
Credit is conserved in every state that accepted deliveries lead to: for the connection,
and for every established stream with no CLOSE or RESET on the way. No frame on the way
meets a credit error, whatever its receiver did in the meantime.
-/
theorem credit_conserved (limits : DecodeLimits) (actions : List Action)
    (h : Along step Accepted (start limits) actions) (r : EndpointRole) :
    let l := exec (start limits) actions
    (l.endpoint r).connectionSendCredit + dataBytes (l.channel r) + grants (l.channel (peer r)) =
        (l.endpoint (peer r)).connectionReceiveCredit ∧
      (∀ id X Y, (l.endpoint r).streams id = some X → (l.endpoint (peer r)).streams id = some Y →
        Established X Y →
        (∀ r', ∀ p ∈ framesOf id (l.channel r'), ¬ p.Ends) →
        X.sendCredit + dataBytes (framesOf id (l.channel r)) +
          streamGrants (framesOf id (l.channel (peer r))) = Y.receiveCredit) ∧
      ∀ e, outcome l (.deliver r) = .error e → ¬ CreditError e := by
  intro l
  have hi : Inv limits l := Inv.exec h
  refine ⟨(hi.grant r).credit, fun id X Y hX hY he hends => ?_, fun e hr hce => ?_⟩
  · have hz : id ≠ 0 := by
      rintro rfl
      rw [hi.control r] at hX
      cases hX
    have hj := hi.joint id hz
    rcases eq_or_eq_peer (opener id) r with rfl | rfl
    · rw [hX, hY] at hj
      exact (hj.credit he (hends _) (hends _)).1
    · rw [peer_peer] at hY ⊢
      rw [hX, hY] at hj
      have he' : Established Y X := by unfold Established at *; tauto
      exact (hj.credit he' (hends _) (hends _)).2
  · cases hq : l.channel (peer r) with
    | nil => simp [outcome, hq] at hr
    | cons p q =>
      rw [outcome_deliver_cons hq] at hr
      exact hi.not_short hq (short_of_creditError hr hce)

/-- With ten bytes on the way to the device. -/
theorem credit_conserved_openingRun : let actions := openingRun ++
      [.send .host ⟨{ Header.new .data 1 1 with payloadLength := 10 }, {}⟩]
    let l := exec (start .default) actions
    Along step Accepted (start .default) actions ∧ dataBytes (l.channel .host) = 10 ∧
      (l.endpoint .host).connectionSendCredit + dataBytes (l.channel .host) +
        grants (l.channel .device) = (l.endpoint .device).connectionReceiveCredit :=
  have h : Along step Accepted (start .default) (openingRun ++
      [.send .host ⟨{ Header.new .data 1 1 with payloadLength := 10 }, {}⟩]) := by
    decide +kernel
  ⟨h, by decide +kernel, (credit_conserved .default _ h .host).1⟩

end KindleBridge.Link
