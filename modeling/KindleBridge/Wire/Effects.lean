import KindleBridge.Foundations.Lanes
import KindleBridge.Wire.Applies

/-! # The effects of a frame

What an accepted frame does to the record of its stream, to the connection credit and
to the numbering of its direction, read off `Applies` once.
-/

namespace KindleBridge.Wire

open SessionState Function

/-- A frame in flight: its header and the windows decoded from its payload. -/
structure Packet where
  header : Header
  context : FrameContext
  deriving DecidableEq

namespace Packet

def Live (p : Packet) : Prop := p.header.command = .data ∨ p.header.command = .credit
def Ends (p : Packet) : Prop := p.header.command = .close ∨ p.header.command = .reset

instance : DecidablePred Ends := fun _ => inferInstanceAs (Decidable (_ ∨ _))

/-- The frames that the terminal phases absorb without effect. -/
def Late (p : Packet) : Prop := p.header.command = .credit ∨ p.header.command = .reset

def dataLength (p : Packet) : ℕ :=
  if p.header.command = .data then p.header.payloadLength else 0

def creditDelta (p : Packet) : ℕ :=
  if p.header.command = .credit then p.header.creditDelta else 0

variable {p : Packet}

theorem Live.not_ends (h : p.Live) : ¬ p.Ends := by
  rcases h with h | h <;> simp [Ends, h]

theorem Ends.dataLength (h : p.Ends) : p.dataLength = 0 := by
  rcases h with h | h <;> simp [Packet.dataLength, h]

theorem Late.dataLength (h : p.Late) : p.dataLength = 0 := by
  rcases h with h | h <;> simp [Packet.dataLength, h]

end Packet

/-- DATA that carries END_STREAM. -/
def Packet.Finishes (p : Packet) : Prop := p.header.command = .data ∧ p.header.endStream

/-- The connection credit that a frame grants to its receiver. -/
def Packet.grant (p : Packet) : ℕ :=
  if p.header.command = .hello then p.context.initialConnectionWindow.getD 0
  else if p.header.streamId = 0 then p.creditDelta
  else 0

variable {p : Packet} {d d' : Direction} {s t : SessionState} {h : Header} {c : FrameContext}
  {id : ℕ}

theorem not_terminal_of_accepted {p : StreamPhase} (h : p = .accepted) : ¬ p.Terminal := by
  subst h; decide

/-- What sending a frame of an accepted stream does to the record of its sender. -/
inductive Emits (X : StreamState) (p : Packet) : StreamState → Prop
  | data : p.header.command = .data → X.phase = .accepted → X.localEndStream = false →
      p.header.payloadLength ≤ X.sendCredit →
      Emits X p { X with
        sendCredit := X.sendCredit - p.header.payloadLength, localEndStream := p.header.endStream }
  | credit : p.header.command = .credit → X.phase = .accepted →
      X.receiveCredit + p.header.creditDelta ≤ X.receiveLimit →
      Emits X p { X with receiveCredit := X.receiveCredit + p.header.creditDelta }
  | late : p.Late → X.phase.Terminal → Emits X p X
  | close : p.header.command = .close → X.phase = .accepted → X.initiatedByLocal = false →
      Emits X p { X with localEndStream := true, peerEndStream := true, phase := .closed }
  | reset : p.header.command = .reset → X.phase = .accepted → Emits X p { X with phase := .reset }

/-- What receiving a frame of an accepted stream does to the record of its receiver. -/
inductive Absorbs (Y : StreamState) (p : Packet) : StreamState → Prop
  | data : p.header.command = .data → Y.phase = .accepted → Y.peerEndStream = false →
      p.header.payloadLength ≤ Y.receiveCredit →
      Absorbs Y p { Y with
        receiveCredit := Y.receiveCredit - p.header.payloadLength,
        peerEndStream := p.header.endStream }
  | discard : p.header.command = .data → Y.phase.Terminal →
      p.header.payloadLength ≤ Y.receiveCredit →
      Absorbs Y p { Y with receiveCredit := Y.receiveCredit - p.header.payloadLength }
  | credit : p.header.command = .credit → Y.phase = .accepted →
      Y.sendCredit + p.header.creditDelta ≤ Y.sendLimit →
      Absorbs Y p { Y with sendCredit := Y.sendCredit + p.header.creditDelta }
  | late : p.Late → Y.phase.Terminal → Absorbs Y p Y
  | close : p.header.command = .close → Y.phase = .accepted → Y.initiatedByLocal = true →
      Absorbs Y p { Y with localEndStream := true, peerEndStream := true, phase := .closed }
  | reset : p.header.command = .reset → Y.phase = .accepted →
      Absorbs Y p { Y with phase := .reset }

/-- The effect of a frame on the record of its stream at the end that sends or receives it. -/
inductive Moves (p : Packet) : Direction → Option StreamState → StreamState → Prop
  | open (d : Direction) : p.header.command = .open → Moves p d none (.opening d.senderIsLocal)
  | reject (d : Direction) (st : StreamState) : p.header.command = .reject →
      st.phase = .opening → d.senderIsLocal = !st.initiatedByLocal →
      Moves p d (some st) { st with phase := .rejected }
  | acceptOut (st : StreamState) (w : ℕ) : p.header.command = .accept → st.phase = .opening →
      st.initiatedByLocal = false → p.context.initialStreamWindow = some w →
      Moves p .outbound (some st)
        { st with phase := .accepted, sendLimit := w, receiveLimit := w, receiveCredit := w }
  | acceptIn (st : StreamState) (w : ℕ) : p.header.command = .accept → st.phase = .opening →
      st.initiatedByLocal = true → p.context.initialStreamWindow = some w →
      Moves p .inbound (some st)
        { st with phase := .accepted, sendLimit := w, receiveLimit := w, sendCredit := w }
  | emits {X X' : StreamState} : Emits X p X' → Moves p .outbound (some X) X'
  | absorbs {Y Y' : StreamState} : Absorbs Y p Y' → Moves p .inbound (some Y) Y'

theorem moves_of_applies (ha : s.Applies p.header p.context d t) (hz : p.header.streamId ≠ 0) :
    ∃ X, Moves p d (s.streams p.header.streamId) X ∧
      t.streams = Function.update s.streams p.header.streamId (some X) := by
  cases ha with
  | «open» d _ hc _ _ hs => exact ⟨_, hs ▸ .open d hc, rfl⟩
  | reject d st _ hc hs ho hi => exact ⟨_, hs ▸ .reject d st hc ho hi, rfl⟩
  | acceptOut st w _ hc hs ho hi hw => exact ⟨_, hs ▸ .acceptOut st w hc ho hi hw, rfl⟩
  | acceptIn st w _ hc hs ho hi hw => exact ⟨_, hs ▸ .acceptIn st w hc ho hi hw, rfl⟩
  | late d st _ hc hs ht =>
    refine ⟨st, hs ▸ ?_, by rw [← hs, update_eq_self]⟩
    cases d with
    | inbound => exact .absorbs (.late hc ht)
    | outbound => exact .emits (.late hc ht)
  | discard st _ hc hs ht h1 _ => exact ⟨_, hs ▸ .absorbs (.discard hc ht h1), rfl⟩
  | dataOut st _ hc hs ha he h1 _ => exact ⟨_, hs ▸ .emits (.data hc ha he h1), rfl⟩
  | dataIn st _ hc hs ha he h1 _ => exact ⟨_, hs ▸ .absorbs (.data hc ha he h1), rfl⟩
  | creditOut st _ hc hs ha _ hl => exact ⟨_, hs ▸ .emits (.credit hc ha hl), rfl⟩
  | creditIn st _ hc hs ha _ hl => exact ⟨_, hs ▸ .absorbs (.credit hc ha hl), rfl⟩
  | close d st _ hc hs ha hi =>
    refine ⟨_, hs ▸ ?_, rfl⟩
    cases d with
    | inbound => exact .absorbs (.close hc ha (by simpa [Direction.senderIsLocal] using hi))
    | outbound => exact .emits (.close hc ha (by simpa [Direction.senderIsLocal] using hi))
  | reset d st _ hc hs ha =>
    refine ⟨_, hs ▸ ?_, rfl⟩
    cases d with
    | inbound => exact .absorbs (.reset hc ha)
    | outbound => exact .emits (.reset hc ha)
  | _ => contradiction

theorem Emits.phase {X X' : StreamState} (h : Emits X p X') :
    X.phase = .accepted ∨ X.phase.Terminal := by
  cases h <;> simp_all

theorem Absorbs.phase {Y Y' : StreamState} (h : Absorbs Y p Y') :
    Y.phase = .accepted ∨ Y.phase.Terminal := by
  cases h <;> simp_all

open Packet

theorem sends_charge (ha : s.Applies p.header p.context .outbound t) :
    t.connectionSendCredit + p.dataLength = s.connectionSendCredit ∧
      t.connectionSendLimit = s.connectionSendLimit ∧ t.peerHello = s.peerHello := by
  cases ha with
  | dataOut _ _ hc _ _ _ _ hle =>
    simp only [dataLength, hc, if_true, setStream, and_true]
    omega
  | late _ _ _ hc | ping _ _ hc => rcases hc with hc | hc <;> simp [dataLength, hc]
  | _ => simp_all [dataLength, setStream]

theorem receives_charge (ha : s.Applies p.header p.context .inbound t) :
    t.connectionReceiveCredit + p.dataLength = s.connectionReceiveCredit ∧
      t.connectionReceiveLimit = s.connectionReceiveLimit ∧ t.localHello = s.localHello := by
  cases ha with
  | dataIn _ _ hc _ _ _ _ hle | discard _ _ hc _ _ _ hle =>
    simp only [dataLength, hc, if_true, setStream, and_true]
    omega
  | late _ _ _ hc | ping _ _ hc => rcases hc with hc | hc <;> simp [dataLength, hc]
  | _ => simp_all [dataLength, setStream]

theorem sends_grant (ha : s.Applies p.header p.context .outbound t) (hc : p.header.command ≠ .hello) :
    t.connectionReceiveCredit = s.connectionReceiveCredit + p.grant ∧
      (p.grant = 0 ∨ t.connectionReceiveCredit ≤ s.connectionReceiveLimit) ∧
      t.connectionReceiveLimit = s.connectionReceiveLimit ∧ t.localHello = s.localHello := by
  cases ha with
  | connectionCreditOut hz hc' _ _ hle =>
    simp only [grant, creditDelta, hz, hc', if_true, and_true]
    exact ⟨by simp, .inr hle⟩
  | ping _ _ hc => rcases hc with hc | hc <;> simp [grant, creditDelta, hc]
  | _ => simp_all [grant, creditDelta, setStream]

theorem receives_grant (ha : s.Applies p.header p.context .inbound t)
    (hc : p.header.command ≠ .hello) : t.connectionSendCredit = s.connectionSendCredit + p.grant ∧
      (p.grant = 0 ∨ t.connectionSendCredit ≤ s.connectionSendLimit) ∧
      t.connectionSendLimit = s.connectionSendLimit ∧ t.peerHello = s.peerHello := by
  cases ha with
  | connectionCreditIn hz hc' _ _ hle =>
    simp only [grant, creditDelta, hz, hc', if_true, and_true]
    exact ⟨by simp, .inr hle⟩
  | ping _ _ hc => rcases hc with hc | hc <;> simp [grant, creditDelta, hc]
  | _ => simp_all [grant, creditDelta, setStream]

theorem sends_hello (ha : s.Applies p.header p.context .outbound t) (hc : p.header.command = .hello) :
    s.localHello = false ∧ t.localHello = true ∧
      p.context.initialConnectionWindow = some t.connectionReceiveLimit ∧
      t.connectionReceiveCredit = t.connectionReceiveLimit := by
  cases ha <;> simp_all

theorem receives_hello (ha : s.Applies p.header p.context .inbound t)
    (hc : p.header.command = .hello) : s.peerHello = false ∧ t.peerHello = true ∧
      p.context.initialConnectionWindow = some t.connectionSendLimit ∧
      t.connectionSendCredit = t.connectionSendLimit := by
  cases ha <;> simp_all

/-- Frames are numbered stream by stream; the last number is not advanced past. -/
def numbering : Numbering Packet ℕ where
  key p := p.header.streamId
  num p := p.header.sequence
  cap := u32Max

@[simp] theorem advanceSequence_config : (advanceSequence d h s).config = s.config := by
  unfold advanceSequence; split_ifs <;> cases d <;> rfl

@[simp] theorem advanceSequence_streams : (advanceSequence d h s).streams = s.streams := by
  unfold advanceSequence; split_ifs <;> cases d <;> rfl

theorem expected_advanceSequence_ne (hd : d' ≠ d) :
    (advanceSequence d h s).expected d' = s.expected d' := by
  unfold advanceSequence
  split_ifs
  · rfl
  · cases d <;> cases d' <;> first | contradiction | rfl

theorem expected_advanceSequence (p : Packet) :
    (advanceSequence d p.header s).expected d = numbering.bump (s.expected d) p := by
  unfold advanceSequence Numbering.bump
  by_cases hn : p.header.sequence = u32Max
  · simp [numbering, hn]
  · rw [if_neg hn, if_neg (show numbering.num p ≠ numbering.cap from hn)]
    funext id
    cases d <;> by_cases hid : id = p.header.streamId <;>
      simp [expected, numbering, update_apply, hid]

theorem expected_of_applies (ha : s.Applies h c d t) : t.expected d' = s.expected d' := by
  cases ha <;> rfl

theorem config_of_applies (ha : s.Applies h c d t) : t.config = s.config := by
  cases ha <;> rfl

theorem validateContext_congr (hl : s.config.limits = t.config.limits) :
    s.validateContext h c = t.validateContext h c := by
  unfold validateContext validateWindow
  rw [hl]

theorem windows_le (hv : s.validateContext h c = .ok ()) :
    (∀ w, c.initialConnectionWindow = some w → w ≤ u32Max) ∧
      ∀ w, c.initialStreamWindow = some w → w ≤ u32Max := by
  have hmax := s.config.limits.maxWindow_le
  unfold validateContext validateWindow at hv
  constructor <;> intro w hw <;> split at hv <;> simp [hw] at hv <;> grind

theorem streams_of_ne (ha : s.Applies p.header p.context d t)
    (hs : p.header.streamId ≠ id) : t.streams id = s.streams id := by
  by_cases hz : p.header.streamId = 0
  · cases ha <;> first | rfl | contradiction
  · obtain ⟨X, -, hst⟩ := moves_of_applies ha hz
    rw [hst, update_of_ne (Ne.symm hs)]

theorem streams_zero_of_applies (ha : s.Applies h c d t) : t.streams 0 = s.streams 0 := by
  cases ha <;> first | rfl | simp_all [setStream, update_of_ne, Ne.symm]

theorem streams_of_applies (ha : s.Applies p.header p.context d t) (id : ℕ) :
    t.streams id = s.streams id ∨
      p.header.streamId = id ∧ ∃ X, t.streams id = some X ∧ Moves p d (s.streams id) X := by
  by_cases hid : p.header.streamId = id
  · subst hid
    by_cases hz : p.header.streamId = 0
    · rw [hz]
      exact .inl (streams_zero_of_applies ha)
    · obtain ⟨X, hm, hX⟩ := moves_of_applies ha hz
      exact .inr ⟨rfl, X, by rw [hX, update_self], hm⟩
  · exact .inl (streams_of_ne ha hid)

theorem hellos_of_applies (ha : s.Applies p.header p.context d t) :
    (s.localHello → t.localHello) ∧ (s.peerHello → t.peerHello) := by
  cases ha <;> simp_all [setStream]

@[simp] theorem advanceSequence_localHello : (advanceSequence d h s).localHello = s.localHello := by
  unfold advanceSequence; split_ifs <;> cases d <;> rfl

@[simp] theorem advanceSequence_peerHello : (advanceSequence d h s).peerHello = s.peerHello := by
  unfold advanceSequence; split_ifs <;> cases d <;> rfl

@[simp] theorem advanceSequence_phase : (advanceSequence d h s).phase = s.phase := by
  unfold advanceSequence; split_ifs <;> cases d <;> rfl

@[simp] theorem advanceSequence_credit :
    (advanceSequence d h s).connectionSendCredit = s.connectionSendCredit ∧
      (advanceSequence d h s).connectionSendLimit = s.connectionSendLimit ∧
      (advanceSequence d h s).connectionReceiveCredit = s.connectionReceiveCredit ∧
      (advanceSequence d h s).connectionReceiveLimit = s.connectionReceiveLimit := by
  unfold advanceSequence; split_ifs <;> cases d <;> simp

theorem phase_of_applies (ha : s.Applies h c d t) (hp : s.phase = .online ∨ s.phase = .goingAway)
    (hc : h.command ≠ .error) : t.phase = .online ∨ t.phase = .goingAway := by
  cases ha <;> simp_all [setStream]

theorem ne_hello_of_applies
    (ha : s.Applies h c d t) (hp : s.phase = .online ∨ s.phase = .goingAway) :
    h.command ≠ .hello := by
  intro hc
  cases ha <;> simp_all

theorem open_of_applies (ha : s.Applies h c d t) (hc : h.command = .open) :
    s.phase = .online ∧ h.streamId ≠ 0 ∧ s.streams h.streamId = none ∧
      t.streams = Function.update s.streams h.streamId (some (.opening d.senderIsLocal)) := by
  cases ha with
  | «open» d hz _ hp _ hs => exact ⟨hp, hz, hs, rfl⟩
  | _ => simp_all

theorem accept_of_applies (ha : s.Applies h c d t) (hc : h.command = .accept) :
    ∃ st, s.streams h.streamId = some st ∧ st.phase = .opening := by
  cases ha with
  | acceptOut st w _ _ hs ho | acceptIn st w _ _ hs ho => exact ⟨st, hs, ho⟩
  | _ => simp_all

theorem acceptIn_of_applies (ha : s.Applies h c .inbound t) (hc : h.command = .accept) :
    ∃ st X, s.streams h.streamId = some st ∧ st.phase = .opening ∧
      t.streams h.streamId = some X ∧ X.receiveCredit = st.receiveCredit := by
  cases ha with
  | acceptIn st w _ _ hs ho => exact ⟨st, _, hs, ho, update_self .., rfl⟩
  | _ => simp_all

theorem creditOut_of_applies
    {st : StreamState} (ha : s.Applies h c .outbound t) (hc : h.command = .credit)
    (hz : h.streamId ≠ 0) (hst : s.streams h.streamId = some st) (hp : st.phase = .accepted) :
    st.receiveCredit + h.creditDelta ≤ st.receiveLimit := by
  cases ha with
  | creditOut st' _ _ hst' _ _ hle =>
    obtain rfl : st' = st := Option.some.inj (hst'.symm.trans hst)
    exact hle
  | late _ st' _ _ hst' ht =>
    obtain rfl : st' = st := Option.some.inj (hst'.symm.trans hst)
    exact absurd (hp ▸ ht) (by decide)
  | _ => simp_all

theorem dataOut_iff (hc : h.command = .data)
    (hz : h.streamId ≠ 0) : (∃ t, s.Applies h c .outbound t) ↔
      ∃ st, s.streams h.streamId = some st ∧ st.phase = .accepted ∧ st.localEndStream = false ∧
        h.payloadLength ≤ st.sendCredit ∧ h.payloadLength ≤ s.connectionSendCredit := by
  constructor
  · rintro ⟨t, ha⟩
    cases ha with
    | dataOut st _ _ hs hp he h1 h2 => exact ⟨st, hs, hp, he, h1, h2⟩
    | _ => simp_all
  · rintro ⟨st, hs, hp, he, h1, h2⟩
    exact ⟨_, .dataOut st hz hc hs hp he h1 h2⟩

theorem closeOut_iff (hc : h.command = .close)
    (hz : h.streamId ≠ 0) : (∃ t, s.Applies h c .outbound t) ↔
      ∃ st, s.streams h.streamId = some st ∧ st.phase = .accepted ∧
        st.initiatedByLocal = false := by
  constructor
  · rintro ⟨t, ha⟩
    cases ha with
    | close _ st _ _ hs hp hi => exact ⟨st, hs, hp, by simpa [Direction.senderIsLocal] using hi⟩
    | _ => simp_all
  · rintro ⟨st, hs, hp, hi⟩
    exact ⟨_, .close .outbound st hz hc hs hp (by simp [Direction.senderIsLocal, hi])⟩

theorem resetOut_iff (hc : h.command = .reset)
    (hz : h.streamId ≠ 0) : (∃ t, s.Applies h c .outbound t) ↔
      ∃ st, s.streams h.streamId = some st ∧ (st.phase = .accepted ∨ st.phase.Terminal) := by
  constructor
  · rintro ⟨t, ha⟩
    cases ha with
    | reset _ st _ _ hs hp => exact ⟨st, hs, .inl hp⟩
    | late _ st _ _ hs ht => exact ⟨st, hs, .inr ht⟩
    | _ => simp_all
  · rintro ⟨st, hs, hp | ht⟩
    · exact ⟨_, .reset .outbound st hz hc hs hp⟩
    · exact ⟨_, .late .outbound st hz (.inr hc) hs ht⟩

theorem reject_of_applies (ha : s.Applies h c d t) (hc : h.command = .reject) :
    ∃ X, t.streams h.streamId = some X ∧ X.phase = .rejected := by
  cases ha with
  | reject _ st => exact ⟨_, update_self .., rfl⟩
  | _ => simp_all

theorem data_of_applies (ha : s.Applies h c .inbound t) (hc : h.command = .data) :
    ∃ st X, s.streams h.streamId = some st ∧ t.streams h.streamId = some X ∧
      X.phase = st.phase ∧ (st.phase = .accepted ∨ st.phase.Terminal) ∧
      X.receiveCredit + h.payloadLength = st.receiveCredit ∧ X.receiveLimit = st.receiveLimit := by
  cases ha with
  | dataIn st _ _ hs hp _ hle =>
    exact ⟨st, _, hs, update_self .., rfl, .inl hp, by dsimp only; omega, rfl⟩
  | discard st _ _ hs ht hle =>
    exact ⟨st, _, hs, update_self .., rfl, .inr ht, by dsimp only; omega, rfl⟩
  | _ => simp_all

theorem creditIn_of_applies
    (ha : s.Applies h c .inbound t) (hc : h.command = .credit) (hz : h.streamId ≠ 0) :
    ∃ st X, s.streams h.streamId = some st ∧ t.streams h.streamId = some X ∧
      X.phase = st.phase ∧ X.localEndStream = st.localEndStream ∧
      X.sendCredit = (if st.phase = .accepted then st.sendCredit + h.creditDelta
        else st.sendCredit) := by
  cases ha with
  | creditIn st _ _ hs hp => exact ⟨st, _, hs, update_self .., rfl, rfl, by simp [hp]⟩
  | late _ st _ _ hs ht =>
    exact ⟨st, st, hs, hs, rfl, rfl, by rw [if_neg fun hp => absurd (hp ▸ ht) (by decide)]⟩
  | _ => simp_all

theorem Moves.receiveLimit_le {r : Option StreamState}
    {X : StreamState} {bound : ℕ} (hm : Moves p d r X)
    (hr : ∀ st, r = some st → st.receiveLimit ≤ bound)
    (hw : ∀ w, p.context.initialStreamWindow = some w → w ≤ bound) : X.receiveLimit ≤ bound := by
  cases hm with
  | «open» => exact Nat.zero_le _
  | reject _ st => exact hr st rfl
  | acceptOut _ w _ _ _ hc | acceptIn _ w _ _ _ hc => exact hw w hc
  | emits he | absorbs he =>
    have hle := hr _ rfl
    cases he <;> exact hle

theorem Moves.terminal {st X : StreamState}
    (hm : Moves p d (some st) X) (ht : st.phase.Terminal) : X.phase.Terminal := by
  cases hm with
  | reject _ _ _ ho | acceptOut _ _ _ ho | acceptIn _ _ _ ho =>
    exact absurd (ho ▸ ht) (by decide)
  | emits he | absorbs he => cases he <;> simp_all [StreamPhase.Terminal]

/-- The stream has been ended by a CLOSE or a RESET. -/
def SessionState.Finished (s : SessionState) (id : ℕ) : Prop :=
  ∃ st, s.streams id = some st ∧ st.phase.Terminal

theorem finished_of_applies
    (ha : s.Applies p.header p.context d t) (ht : s.Finished id) : t.Finished id := by
  obtain ⟨st, hst, hp⟩ := ht
  rcases streams_of_applies ha id with hsame | ⟨-, X, hX, hm⟩
  · exact ⟨st, hsame.trans hst, hp⟩
  · rw [hst] at hm
    exact ⟨X, hX, hm.terminal hp⟩

@[simp] theorem finished_advanceSequence : (advanceSequence d h s).Finished id ↔ s.Finished id := by
  rw [SessionState.Finished, SessionState.Finished, advanceSequence_streams]

theorem finished_of_ends
    (ha : s.Applies p.header p.context d t) (he : p.Ends) : t.Finished p.header.streamId := by
  cases ha with
  | close => exact ⟨_, update_self .., .inl rfl⟩
  | reset => exact ⟨_, update_self .., .inr rfl⟩
  | late _ st _ _ hst ht => exact ⟨st, hst, ht⟩
  | ping _ _ hc => rcases he with he | he <;> rcases hc with hc | hc <;> simp [hc] at he
  | _ => simp_all [Packet.Ends]

theorem acceptWindow_le {w : ℕ}
    (hv : s.validateContext h c = .ok ()) (hw : c.initialStreamWindow = some w) :
    w ≤ s.config.limits.maxWindow := by
  unfold validateContext validateWindow at hv
  split at hv <;> simp [hw] at hv <;> grind

end KindleBridge.Wire
