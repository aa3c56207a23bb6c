import KindleBridge.Wire.Session

/-! # What an accepted frame does

Processing a frame succeeds exactly when the frame is admitted by the checks that
all commands share and one case of `Applies` holds. A rejected frame leaves the
state as it was.
-/

namespace KindleBridge.Wire

open Op Nat

theorem checkedCredit_eq_ok_iff {id current delta maximum value : ℕ} :
    checkedCredit id current delta maximum = .ok value ↔
      current + delta ≤ u32Max ∧ current + delta ≤ maximum ∧ value = current + delta := by
  unfold checkedCredit checkedAdd
  by_cases h : current + delta ≤ u32Max <;> by_cases h' : current + delta ≤ maximum <;>
    simp [h, h', Option.filter, eq_comm]

namespace SessionState

open Function

/-- The checks that precede the command's own. -/
structure Admitted (d : Direction) (h : Header) (c : FrameContext) (s : SessionState) : Prop where
  valid : h.Valid s.config.limits
  context : s.validateContext h c = .ok ()
  notClosed : s.phase ≠ .closed
  sequence : h.sequence = s.expected d h.streamId
  last : h.sequence = u32Max → h.command = .reset

/-- The allocator after an OPEN of the given direction. -/
def nextAfterOpen (d : Direction) (id : ℕ) (s : SessionState) : Option ℕ :=
  if d = .outbound ∧ s.nextLocalStreamId.any (· ≤ id) then checkedAdd id 2
  else s.nextLocalStreamId

/-- The effect of an admitted frame before it is counted, one case for each kind of frame. -/
inductive Applies (h : Header) (c : FrameContext) (s : SessionState) :
    Direction → SessionState → Prop
  | helloOut (w : ℕ) : h.streamId = 0 → h.command = .hello → s.phase = .helloExchange →
      c.initialConnectionWindow = some w → s.localHello = false →
      Applies h c s .outbound { s with
        localHello := true, connectionReceiveCredit := w, connectionReceiveLimit := w,
        phase := if s.peerHello then .online else .helloExchange }
  | helloIn (w : ℕ) : h.streamId = 0 → h.command = .hello → s.phase = .helloExchange →
      c.initialConnectionWindow = some w → s.peerHello = false →
      Applies h c s .inbound { s with
        peerHello := true, connectionSendCredit := w, connectionSendLimit := w,
        phase := if s.localHello then .online else .helloExchange }
  | pairingOut : h.streamId = 0 → h.command = .pairingFinish → s.config.pairingSession = true →
      s.phase = .helloExchange → s.localPairingFinish = false →
      Applies h c s .outbound { s with localPairingFinish := true }
  | pairingIn : h.streamId = 0 → h.command = .pairingFinish → s.config.pairingSession = true →
      s.phase = .helloExchange → s.peerPairingFinish = false →
      Applies h c s .inbound { s with peerPairingFinish := true }
  | connectionCreditOut : h.streamId = 0 → h.command = .credit →
      (s.phase = .online ∨ s.phase = .goingAway) →
      s.connectionReceiveCredit + h.creditDelta ≤ u32Max →
      s.connectionReceiveCredit + h.creditDelta ≤ s.connectionReceiveLimit →
      Applies h c s .outbound
        { s with connectionReceiveCredit := s.connectionReceiveCredit + h.creditDelta }
  | connectionCreditIn : h.streamId = 0 → h.command = .credit →
      (s.phase = .online ∨ s.phase = .goingAway) →
      s.connectionSendCredit + h.creditDelta ≤ u32Max →
      s.connectionSendCredit + h.creditDelta ≤ s.connectionSendLimit →
      Applies h c s .inbound
        { s with connectionSendCredit := s.connectionSendCredit + h.creditDelta }
  | ping (d : Direction) : h.streamId = 0 → (h.command = .ping ∨ h.command = .pong) →
      (s.phase = .online ∨ s.phase = .goingAway) → Applies h c s d s
  | goAway (d : Direction) : h.streamId = 0 → h.command = .goAway →
      (s.phase = .online ∨ s.phase = .goingAway) → Applies h c s d { s with phase := .goingAway }
  | error (d : Direction) : h.streamId = 0 → h.command = .error →
      Applies h c s d { s with phase := .closed }
  | open (d : Direction) : h.streamId ≠ 0 → h.command = .open → s.phase = .online →
      decide (h.streamId % 2 = 1) = s.expectedOdd d → s.streams h.streamId = none →
      Applies h c s d { s.setStream h.streamId (.opening d.senderIsLocal) with
        nextLocalStreamId := s.nextAfterOpen d h.streamId }
  | reject (d : Direction) (st : StreamState) : h.streamId ≠ 0 → h.command = .reject →
      s.streams h.streamId = some st → st.phase = .opening →
      d.senderIsLocal = !st.initiatedByLocal →
      Applies h c s d (s.setStream h.streamId { st with phase := .rejected })
  | acceptOut (st : StreamState) (w : ℕ) : h.streamId ≠ 0 → h.command = .accept →
      s.streams h.streamId = some st → st.phase = .opening → st.initiatedByLocal = false →
      c.initialStreamWindow = some w →
      Applies h c s .outbound (s.setStream h.streamId { st with
        phase := .accepted, sendLimit := w, receiveLimit := w, receiveCredit := w })
  | acceptIn (st : StreamState) (w : ℕ) : h.streamId ≠ 0 → h.command = .accept →
      s.streams h.streamId = some st → st.phase = .opening → st.initiatedByLocal = true →
      c.initialStreamWindow = some w →
      Applies h c s .inbound (s.setStream h.streamId { st with
        phase := .accepted, sendLimit := w, receiveLimit := w, sendCredit := w })
  | late (d : Direction) (st : StreamState) : h.streamId ≠ 0 →
      (h.command = .credit ∨ h.command = .reset) → s.streams h.streamId = some st →
      st.phase.Terminal → Applies h c s d s
  | discard (st : StreamState) : h.streamId ≠ 0 → h.command = .data →
      s.streams h.streamId = some st → st.phase.Terminal →
      h.payloadLength ≤ st.receiveCredit → h.payloadLength ≤ s.connectionReceiveCredit →
      Applies h c s .inbound { s.setStream h.streamId
          { st with receiveCredit := st.receiveCredit - h.payloadLength } with
        connectionReceiveCredit := s.connectionReceiveCredit - h.payloadLength }
  | dataOut (st : StreamState) : h.streamId ≠ 0 → h.command = .data →
      s.streams h.streamId = some st → st.phase = .accepted → st.localEndStream = false →
      h.payloadLength ≤ st.sendCredit → h.payloadLength ≤ s.connectionSendCredit →
      Applies h c s .outbound { s.setStream h.streamId { st with
          sendCredit := st.sendCredit - h.payloadLength, localEndStream := h.endStream } with
        connectionSendCredit := s.connectionSendCredit - h.payloadLength }
  | dataIn (st : StreamState) : h.streamId ≠ 0 → h.command = .data →
      s.streams h.streamId = some st → st.phase = .accepted → st.peerEndStream = false →
      h.payloadLength ≤ st.receiveCredit → h.payloadLength ≤ s.connectionReceiveCredit →
      Applies h c s .inbound { s.setStream h.streamId { st with
          receiveCredit := st.receiveCredit - h.payloadLength, peerEndStream := h.endStream } with
        connectionReceiveCredit := s.connectionReceiveCredit - h.payloadLength }
  | creditOut (st : StreamState) : h.streamId ≠ 0 → h.command = .credit →
      s.streams h.streamId = some st → st.phase = .accepted →
      st.receiveCredit + h.creditDelta ≤ u32Max →
      st.receiveCredit + h.creditDelta ≤ st.receiveLimit →
      Applies h c s .outbound (s.setStream h.streamId
        { st with receiveCredit := st.receiveCredit + h.creditDelta })
  | creditIn (st : StreamState) : h.streamId ≠ 0 → h.command = .credit →
      s.streams h.streamId = some st → st.phase = .accepted →
      st.sendCredit + h.creditDelta ≤ u32Max → st.sendCredit + h.creditDelta ≤ st.sendLimit →
      Applies h c s .inbound (s.setStream h.streamId
        { st with sendCredit := st.sendCredit + h.creditDelta })
  | close (d : Direction) (st : StreamState) : h.streamId ≠ 0 → h.command = .close →
      s.streams h.streamId = some st → st.phase = .accepted →
      d.senderIsLocal = !st.initiatedByLocal →
      Applies h c s d (s.setStream h.streamId { st with
        localEndStream := true, peerEndStream := true, phase := .closed })
  | reset (d : Direction) (st : StreamState) : h.streamId ≠ 0 → h.command = .reset →
      s.streams h.streamId = some st → st.phase = .accepted →
      Applies h c s d (s.setStream h.streamId { st with phase := .reset })

/-- The part of `process` that depends on the command. -/
def apply (d : Direction) (h : Header) (c : FrameContext) : SessionM Unit :=
  if h.streamId = 0 then applyControl d h c
  else if h.command = .open then applyOpen d h
  else applyStream d h c

variable {d : Direction} {h : Header} {c : FrameContext} {s t : SessionState} {st : StreamState}
  {e : ProtocolError}

theorem applyHello_ok (hz : h.streamId = 0) (hc : h.command = .hello)
    (hr : (applyHello d c).run s = (.ok (), t)) : Applies h c s d t := by
  unfold applyHello at hr
  cases hw : c.initialConnectionWindow with
  | none => simp [hw] at hr; split_ifs at hr <;> simp at hr
  | some w =>
    cases d <;> simp [hw] at hr <;> split_ifs at hr with h1 h2 h3 <;> simp at hr <;> subst hr
    · simpa [h1, h3] using Applies.helloIn w hz hc h1 hw (by simpa using h2)
    · simpa [h1, h3] using Applies.helloIn w hz hc h1 hw (by simpa using h2)
    · simpa [h1, h3] using Applies.helloOut w hz hc h1 hw (by simpa using h2)
    · simpa [h1, h3] using Applies.helloOut w hz hc h1 hw (by simpa using h2)

theorem applyPairingFinish_ok (hz : h.streamId = 0) (hc : h.command = .pairingFinish)
    (hr : (applyPairingFinish d).run s = (.ok (), t)) : Applies h c s d t := by
  unfold applyPairingFinish at hr
  cases d <;> simp at hr <;> split_ifs at hr with h1 h2 h3 <;> simp at hr <;> subst hr
  · exact .pairingIn hz hc (by simpa using h1) h2 (by simpa using h3)
  · exact .pairingOut hz hc (by simpa using h1) h2 (by simpa using h3)

theorem applyControl_ok (hz : h.streamId = 0) (hr : (applyControl d h c).run s = (.ok (), t)) :
    Applies h c s d t := by
  unfold applyControl requireOnlineOrGoing at hr
  cases hc : h.command <;> simp only [hc] at hr
  case hello => exact applyHello_ok hz hc hr
  case pairingFinish => exact applyPairingFinish_ok hz hc hr
  case credit =>
    cases d <;> simp at hr <;> split_ifs at hr with hp <;> try simp at hr
    · split at hr <;> simp at hr
      next hv =>
        obtain ⟨hu, hl, rfl⟩ := checkedCredit_eq_ok_iff.mp hv
        subst hr; exact .connectionCreditIn hz hc hp hu hl
    · split at hr <;> simp at hr
      next hv =>
        obtain ⟨hu, hl, rfl⟩ := checkedCredit_eq_ok_iff.mp hv
        subst hr; exact .connectionCreditOut hz hc hp hu hl
  case ping =>
    simp at hr; split_ifs at hr with hp <;> simp at hr
    subst hr; exact .ping d hz (.inl hc) hp
  case pong =>
    simp at hr; split_ifs at hr with hp <;> simp at hr
    subst hr; exact .ping d hz (.inr hc) hp
  case goAway =>
    simp at hr; split_ifs at hr with hp <;> simp at hr
    subst hr; exact .goAway d hz hc hp
  case error =>
    simp at hr
    subst hr; exact .error d hz hc
  all_goals simp at hr

section
variable (hz : h.streamId ≠ 0)
include hz

theorem applyOpen_ok (hc : h.command = .open)
    (hr : (applyOpen d h).run s = (.ok (), t)) : Applies h c s d t := by
  unfold applyOpen at hr
  simp only [run_get_bind, run_fail_bind, run_modify_bind, run_ite, run_modify, run_pure] at hr
  split_ifs at hr with h1 h2 h3 h4 <;> simp at hr <;> subst hr
  all_goals
    have := Applies.open (c := c) d hz hc (by simpa using h1) (s := s)
      (by simpa using h2) (by simpa using h3)
    simpa [nextAfterOpen, h4, setStream] using this

theorem applyOpenResponse_ok
    (hc : h.command = .accept ∨ h.command = .reject) (hs : s.streams h.streamId = some st)
    (ho : st.phase = .opening) (hr : (applyOpenResponse d h c st).run s = (.ok (), t)) :
    Applies h c s d t := by
  unfold applyOpenResponse at hr
  rcases hc with hc | hc
  · cases hw : c.initialStreamWindow with
    | none => simp [hc, hw] at hr; split_ifs at hr <;> simp at hr
    | some w =>
      cases d <;> simp [hc, hw, Direction.senderIsLocal] at hr <;>
        split_ifs at hr with hi <;> simp at hr <;> subst hr
      · exact .acceptIn st w hz hc hs ho (by simpa using hi) hw
      · exact .acceptOut st w hz hc hs ho (by simpa using hi) hw
  · simp [hc] at hr
    split_ifs at hr with hi <;> simp at hr
    subst hr
    exact .reject d st hz hc hs ho (Bool.eq_not_iff.mpr hi)

theorem applyData_ok (hc : h.command = .data)
    (hs : s.streams h.streamId = some st) (ha : st.phase = .accepted)
    (hr : (applyData d h st).run s = (.ok (), t)) : Applies h c s d t := by
  unfold applyData at hr
  cases d <;> simp at hr <;> split_ifs at hr with h1 h2 h3 <;> simp at hr <;> subst hr
  · have := Applies.dataIn (c := c) st hz hc hs ha (by simpa using h1) (by omega) (by omega)
    simpa [h1, setStream] using this
  · have := Applies.dataOut (c := c) st hz hc hs ha (by simpa using h1) (by omega) (by omega)
    simpa [h1, setStream] using this

theorem applyAccepted_ok
    (hc : h.command = .data ∨ h.command = .credit ∨ h.command = .close ∨ h.command = .reset)
    (hs : s.streams h.streamId = some st)
    (hr : (applyAccepted d h st).run s = (.ok (), t)) : Applies h c s d t := by
  unfold applyAccepted at hr
  split_ifs at hr with ha
  · simp at hr
  have ha : st.phase = .accepted := by simpa using ha
  rcases hc with hc | hc | hc | hc <;> simp only [hc] at hr
  · exact applyData_ok hz hc hs ha hr
  · unfold applyStreamCredit at hr
    cases d <;> simp at hr <;> split at hr <;> simp at hr <;> subst hr
    · rename_i hv
      obtain ⟨hu, hl, rfl⟩ := checkedCredit_eq_ok_iff.mp hv
      exact .creditIn st hz hc hs ha hu hl
    · rename_i hv
      obtain ⟨hu, hl, rfl⟩ := checkedCredit_eq_ok_iff.mp hv
      exact .creditOut st hz hc hs ha hu hl
  · unfold applyClose at hr
    simp at hr
    split_ifs at hr with hi <;> simp at hr
    subst hr
    exact .close d st hz hc hs ha (Bool.eq_not_iff.mpr hi)
  · simp at hr
    subst hr
    exact .reset d st hz hc hs ha

theorem applyStream_ok (hr : (applyStream d h c).run s = (.ok (), t)) : Applies h c s d t := by
  unfold applyStream at hr
  simp only [run_get_bind] at hr
  cases hs : s.streams h.streamId with
  | none => simp [hs] at hr
  | some st =>
    cases hc : h.command <;> simp only [hs, hc] at hr
    case accept =>
      simp at hr; split_ifs at hr with ho
      · exact applyOpenResponse_ok hz (.inl hc) hs ho hr
      · simp at hr
    case reject =>
      simp at hr; split_ifs at hr with ho
      · exact applyOpenResponse_ok hz (.inr hc) hs ho hr
      · simp at hr
    case credit =>
      simp at hr; split_ifs at hr with ht
      · simp at hr; subst hr; exact .late d st hz (.inl hc) hs ht
      · exact applyAccepted_ok hz (by simp [hc]) hs hr
    case reset =>
      simp at hr; split_ifs at hr with ht
      · simp at hr; subst hr; exact .late d st hz (.inr hc) hs ht
      · exact applyAccepted_ok hz (by simp [hc]) hs hr
    case data =>
      simp at hr; split_ifs at hr with ht
      · obtain ⟨rfl, ht⟩ := ht
        unfold applyDiscardedInboundData at hr
        simp at hr; split_ifs at hr with h1 h2 <;> simp at hr
        subst hr
        exact .discard st hz hc hs ht (by omega) (by omega)
      · exact applyAccepted_ok hz (by simp [hc]) hs hr
    case close => exact applyAccepted_ok hz (by simp [hc]) hs hr
    all_goals simp at hr

end

theorem apply_ok (hr : (apply d h c).run s = (.ok (), t)) : Applies h c s d t := by
  unfold apply at hr
  split_ifs at hr with hz ho
  · exact applyControl_ok hz hr
  · exact applyOpen_ok hz ho hr
  · exact applyStream_ok hz hr

theorem apply_of_applies (ha : Applies h c s d t) : (apply d h c).run s = (.ok (), t) := by
  cases ha with
  | helloOut w hz hc hp hw hl =>
    cases hq : s.peerHello <;> simp [apply, applyControl, applyHello, hz, hc, hp, hw, hl, hq]
  | helloIn w hz hc hp hw hl =>
    cases hq : s.localHello <;> simp [apply, applyControl, applyHello, hz, hc, hp, hw, hl, hq]
  | pairingOut hz hc hs hp hl | pairingIn hz hc hs hp hl =>
    simp [apply, applyControl, applyPairingFinish, hz, hc, hs, hp, hl]
  | connectionCreditOut hz hc hp hu hl | connectionCreditIn hz hc hp hu hl =>
    simp [apply, applyControl, requireOnlineOrGoing, hz, hc, hp,
      checkedCredit_eq_ok_iff.mpr ⟨hu, hl, rfl⟩]
  | ping d hz hc hp =>
    rcases hc with hc | hc <;> simp [apply, applyControl, requireOnlineOrGoing, hz, hc, hp]
  | goAway d hz hc hp => simp [apply, applyControl, requireOnlineOrGoing, hz, hc, hp]
  | error d hz hc => simp [apply, applyControl, hz, hc]
  | «open» d hz hc hp ho hs =>
    by_cases hn : d = .outbound ∧ s.nextLocalStreamId.any (· ≤ h.streamId)
    · simp [apply, applyOpen, hz, hc, hp, ho, hs, nextAfterOpen, hn]
    · simp [apply, applyOpen, hz, hc, hp, ho, hs, nextAfterOpen, hn]; rfl
  | reject d st hz hc hs ho hi =>
    simp [apply, applyStream, applyOpenResponse, hz, hc, hs, ho, hi]
  | acceptOut st w hz hc hs ho hi hw | acceptIn st w hz hc hs ho hi hw =>
    simp [apply, applyStream, applyOpenResponse, Direction.senderIsLocal, hz, hc, hs, ho, hi, hw]
  | late d st hz hc hs ht =>
    rcases hc with hc | hc <;> simp [apply, applyStream, hz, hc, hs, ht]
  | discard st hz hc hs ht h1 h2 =>
    simp [apply, applyStream, applyDiscardedInboundData, hz, hc, hs, ht, not_lt.mpr h1,
      not_lt.mpr h2, setStream]
  | dataOut st hz hc hs ha he h1 h2 =>
    simp [apply, applyStream, applyAccepted, applyData, hz, hc, hs, ha, he, not_lt.mpr h1,
      not_lt.mpr h2, setStream]
  | dataIn st hz hc hs ha he h1 h2 =>
    simp [apply, applyStream, applyAccepted, applyData, hz, hc, hs, ha, he, not_lt.mpr h1,
      not_lt.mpr h2, setStream, StreamPhase.Terminal]
  | creditOut st hz hc hs ha hu hl | creditIn st hz hc hs ha hu hl =>
    simp [apply, applyStream, applyAccepted, applyStreamCredit, hz, hc, hs, ha,
      StreamPhase.Terminal, checkedCredit_eq_ok_iff.mpr ⟨hu, hl, rfl⟩]
  | close d st hz hc hs ha hi =>
    simp [apply, applyStream, applyAccepted, applyClose, hz, hc, hs, ha, hi]
  | reset d st hz hc hs ha =>
    simp [apply, applyStream, applyAccepted, hz, hc, hs, ha, StreamPhase.Terminal]

theorem process_eq (d : Direction) (h : Header) (c : FrameContext) :
    process d h c = (do
      let s ← get
      ofExcept ((h.validate s.config.limits).mapError .wire)
      ofExcept (s.validateContext h c)
      if s.phase = .closed then fail (s.unexpected h)
      ofExcept (s.validateSequence d h)
      apply d h c
      modify (advanceSequence d h)) := by
  unfold process apply
  split_ifs <;> rfl

theorem validateSequence_eq_ok_iff : s.validateSequence d h = .ok () ↔
      h.sequence = s.expected d h.streamId ∧ (h.sequence = u32Max → h.command = .reset) := by
  unfold validateSequence
  split_ifs with h1 h2
  · simp [h1]
  · simp only [false_iff]
    tauto
  · simp only [true_iff]
    tauto

theorem process_ok_iff {s' : SessionState} : (process d h c).run s = (.ok (), s') ↔
      s.Admitted d h c ∧ ∃ t, s.Applies h c d t ∧ s' = advanceSequence d h t := by
  rw [process_eq]
  simp only [run_get_bind, run_ofExcept_bind]
  constructor
  · intro hr
    split at hr <;> try (simp at hr; done)
    next _ hv =>
    split at hr <;> try (simp at hr; done)
    next _ hc =>
    split_ifs at hr with hp
    · simp at hr
    simp only [run_ofExcept_bind] at hr
    split at hr <;> try simp at hr
    next _ hq =>
    obtain ⟨_, t, ha, ht⟩ := bind_ok_iff.mp hr
    simp only [run_modify, Prod.mk.injEq, true_and] at ht
    obtain ⟨h1, h2⟩ := validateSequence_eq_ok_iff.mp hq
    have hv := Header.validate_eq_ok_iff.mp (mapError_eq_ok_iff.mp hv)
    exact ⟨⟨hv, hc, hp, h1, h2⟩, t, apply_ok ha, ht.symm⟩
  · rintro ⟨⟨hv, hc, hp, h1, h2⟩, t, ha, rfl⟩
    have hq := validateSequence_eq_ok_iff.mpr ⟨h1, h2⟩
    simp only [Header.validate_eq_ok_iff.mpr hv, hc, hp, hq, Except.mapError, if_false,
      run_ofExcept_bind]
    rw [run_bind_of_ok (apply_of_applies ha), run_modify]

theorem applyControl_atomic (d : Direction) (h : Header) (c : FrameContext) :
    (applyControl d h c).Atomic := by
  intro s e t hr
  unfold applyControl applyHello applyPairingFinish requireOnlineOrGoing at hr
  cases hc : h.command <;> cases d <;> cases hw : c.initialConnectionWindow <;>
    simp only [hc, hw, run_get_bind, run_fail, run_modify] at hr
  all_goals simp at hr
  all_goals grind

theorem applyOpen_atomic (d : Direction) (h : Header) : (applyOpen d h).Atomic := by
  intro s e t hr
  unfold applyOpen at hr
  simp at hr
  grind

theorem applyAccepted_atomic (d : Direction) (h : Header) (st : StreamState) :
    (applyAccepted d h st).Atomic := by
  intro s e t hr
  unfold applyAccepted applyData applyStreamCredit applyClose at hr
  cases hc : h.command <;> cases d <;> simp [hc] at hr
  all_goals grind

theorem applyOpenResponse_atomic (d : Direction) (h : Header) (c : FrameContext)
    (st : StreamState) : (applyOpenResponse d h c st).Atomic := by
  intro s e t hr
  unfold applyOpenResponse at hr
  cases hw : c.initialStreamWindow <;> cases d <;> simp [hw] at hr
  all_goals grind

theorem applyStream_atomic (d : Direction) (h : Header) (c : FrameContext) :
    (applyStream d h c).Atomic := by
  intro s e t hr
  have hopen := applyOpenResponse_atomic d h c
  have hacc := applyAccepted_atomic d h
  unfold Op.Atomic at hopen hacc
  unfold applyStream applyDiscardedInboundData at hr
  cases hs : s.streams h.streamId <;> cases hc : h.command <;> simp [hs, hc] at hr
  all_goals grind

theorem apply_atomic (d : Direction) (h : Header) (c : FrameContext) : (apply d h c).Atomic := by
  intro s e t hr
  unfold apply at hr
  split_ifs at hr
  · exact applyControl_atomic d h c s e t hr
  · exact applyOpen_atomic d h s e t hr
  · exact applyStream_atomic d h c s e t hr

/-- The checks that may refuse a frame, in their order. -/
inductive Refused (d : Direction) (h : Header) (c : FrameContext) (s : SessionState) :
    ProtocolError → Prop
  | header (error : WireError) : Refused d h c s (.wire error)
  | context {e : ProtocolError} : s.validateContext h c = .error e → Refused d h c s e
  | closed : Refused d h c s (s.unexpected h)
  | sequence {e : ProtocolError} : s.validateSequence d h = .error e → Refused d h c s e
  | effect {e : ProtocolError} : ((apply d h c).run s).1 = .error e → Refused d h c s e

theorem process_error (hr : (process d h c).run s = (.error e, t)) : t = s ∧ s.Refused d h c e := by
  rw [process_eq] at hr
  simp only [run_get_bind, run_ofExcept_bind] at hr
  split at hr
  · split at hr
    · split_ifs at hr
      · obtain ⟨he, rfl⟩ := Prod.mk.inj hr
        exact ⟨rfl, Except.error.inj he ▸ .closed⟩
      · rw [run_ofExcept_bind] at hr
        split at hr
        · rcases ha : (apply d h c).run s with ⟨_ | _, u⟩
          · rw [run_bind_of_error ha] at hr
            obtain ⟨he, rfl⟩ := Prod.mk.inj hr
            rw [he] at ha
            exact ⟨apply_atomic d h c s _ u ha, .effect (congrArg Prod.fst ha)⟩
          · rw [run_bind_of_ok ha] at hr
            simp at hr
        · rename_i hq
          obtain ⟨he, rfl⟩ := Prod.mk.inj hr
          exact ⟨rfl, .sequence (hq.trans he)⟩
    · rename_i hv
      obtain ⟨he, rfl⟩ := Prod.mk.inj hr
      exact ⟨rfl, .context (hv.trans he)⟩
  · rename_i hv
    obtain ⟨he, rfl⟩ := Prod.mk.inj hr
    cases hw : h.validate s.config.limits with
    | ok => simp [hw, Except.mapError] at hv
    | error w =>
      rw [hw] at hv
      exact ⟨rfl, Except.error.inj (hv.trans he) ▸ .header w⟩

end SessionState

end KindleBridge.Wire
