import KindleBridge.Transport.Preservation

/-! # When a frame can be queued

In a sound state the checks of the session state come down to the phase of the stream and
its credit. What remains is the last sequence number and the room in the writer queue.
-/

namespace KindleBridge.Transport

open Wire SessionState

namespace Actor

def HasNumber (a : Actor) (id : ℕ) : Prop := a.nextSequenceFor id < u32Max

def HasRoom (a : Actor) (bytes : ℕ) : Prop :=
  a.scheduler.queuedBytes + bytes ≤ a.scheduler.maxQueuedBytes

instance {a : Actor} {id : ℕ} : Decidable (a.HasNumber id) := inferInstanceAs (Decidable (_ < _))
instance {a : Actor} {bytes : ℕ} : Decidable (a.HasRoom bytes) := inferInstanceAs (Decidable (_ ≤ _))

/-- The stream is open for DATA of the given length, if the credit and the room suffice. -/
def Sendable (a : Actor) (id length : ℕ) : Prop :=
  ∃ st, a.state.streams id = some st ∧ st.phase = .accepted ∧ st.localEndStream = false ∧
    length ≤ a.state.config.limits.maxPayload ∧ a.HasNumber id

/-- DATA of the given length would be queued, if the credit suffices. -/
def CanSend (a : Actor) (id length : ℕ) : Prop :=
  a.Sendable id length ∧ a.HasRoom (headerLen + length)

def CanClose (a : Actor) (id : ℕ) : Prop :=
  ∃ st, a.state.streams id = some st ∧ st.phase = .accepted ∧ st.initiatedByLocal = false ∧
    a.HasNumber id ∧ a.HasRoom headerLen

def CanReset (a : Actor) (id length : ℕ) : Prop :=
  ∃ st, a.state.streams id = some st ∧ (st.phase = .accepted ∨ st.phase.Terminal) ∧
    length ≤ a.state.config.limits.maxPayload ∧ a.HasNumber id ∧ a.HasRoom (headerLen + length)

/-- The credit for a consumed frame would be queued. -/
def CanRefund (a : Actor) (frame : Frame) : Prop :=
  frame.header.command = .data → frame.header.payloadLength ≠ 0 → a.HasNumber 0 ∧
    if a.RefundsStream frame then
      a.HasNumber frame.header.streamId ∧ a.HasRoom (headerLen + headerLen)
    else a.HasRoom headerLen

/-- What waits on a stream would be queued, if the credit suffices. -/
def CanFlush (a : Actor) (id : ℕ) : Prop :=
  ∀ e pending, a.streams.lookup id = some e → e.pendingSend = some pending →
    a.hasSendCredit id pending.payload.length → a.CanSend id pending.payload.length

/-- A frame would reach its worker or the inbox. -/
def CanDeliver (a : Actor) (frame : Frame) : Prop :=
  ∃ e, a.streams.lookup frame.header.streamId = some e ∧
    if e.receiver.isSome then a.CanRefund frame
    else e.inboxBytes + frame.payload.length ≤ e.receiveWindow

variable {a b : Actor} {id sequence : ℕ} {payload : List UInt8} {endStream : Bool}
  {trafficClass : TrafficClass} {frame : Frame} {context : FrameContext} {item : ScheduledFrame}
  {e : StreamEntry} {pending : PendingSend} {limits : DecodeLimits} {delta : ℕ} {command : Command}
  {st : StreamState} {ids : List ℕ}

theorem frameOf_endStream :
    (frameOf command id sequence payload endStream).header.endStream = endStream := by
  cases endStream <;> simp [frameOf, Header.endStream, Header.new, flagEndStream]

theorem frameOf_valid (hc : command ≠ .credit)
    (he : endStream → command = .data) (hid : id ≠ 0) (hs : command.allowsNonzeroStream)
    (hp : payload.length ≤ limits.maxPayload) :
    (frameOf command id sequence payload endStream).header.Valid limits where
  major := rfl
  payload := hp
  reserved := rfl
  critical := by
    cases endStream <;> simp [frameOf, Header.unknownCritical, Header.new, flagEndStream,
      criticalFlagMask, notKnownCriticalFlags]
  endStream h := he (by rwa [frameOf_endStream] at h)
  creditPayload h := absurd h hc
  creditDelta h := absurd h hc
  noDelta _ := rfl
  stream := by simpa [Header.streamIsValid, frameOf, Header.new, hid] using hs

theorem Sound.admitted (h : a.Sound)
    (hseq : frame.header.sequence = a.nextSequenceFor frame.header.streamId)
    (hvalid : frame.header.Valid a.state.config.limits)
    (hcontext : a.state.validateContext frame.header context = .ok ())
    (hnumber : a.HasNumber frame.header.streamId) :
    a.state.Admitted .outbound frame.header context := by
  have hlt : frame.header.sequence < u32Max := hseq ▸ hnumber
  refine ⟨hvalid, hcontext, ?_, ?_, ?_⟩
  · rcases h.phase with hp | hp <;> simp [hp]
  · rw [hseq]
    exact h.numbers frame.header.streamId
  · intro hn
    omega

theorem Sound.exists_submits (h : a.Sound)
    (hseq : item.frame.header.sequence = a.nextSequenceFor item.streamId)
    (hvalid : item.frame.header.Valid a.state.config.limits)
    (hcontext : a.state.validateContext item.frame.header context = .ok ())
    (hnumber : a.HasNumber item.streamId)
    (hroom : a.HasRoom (headerLen + item.frame.payload.length))
    (happlies : ∃ t, a.state.Applies item.frame.header context .outbound t) :
    ∃ b, a.Submits item context b := by
  obtain ⟨t, ht⟩ := happlies
  exact ⟨_, .intro t hseq (hseq ▸ hnumber) (h.admitted hseq hvalid hcontext hnumber) ht hroom⟩

theorem hasSendCredit_iff {length : ℕ} (hst : a.state.streams id = some st) :
    a.hasSendCredit id length ↔ length ≤ st.sendCredit ∧ length ≤ a.state.connectionSendCredit := by
  simp [hasSendCredit, hst]

theorem Sound.submits_data_iff (h : a.Sound) (hid : id ≠ 0)
    (hcredit : a.hasSendCredit id payload.length) :
    (∃ b, a.Submits ⟨trafficClass, frameOf .data id (a.nextSequenceFor id) payload endStream⟩ {} b)
      ↔ a.CanSend id payload.length := by
  constructor
  · rintro ⟨b, t, -, hlt, hadm, ha, hroom⟩
    obtain ⟨st, hst, hp, he, -⟩ := (dataOut_iff rfl hid).mp ⟨t, ha⟩
    exact ⟨⟨st, hst, hp, he, hadm.valid.payload, hlt⟩, hroom⟩
  · rintro ⟨⟨st, hst, hp, he, hmax, hnumber⟩, hroom⟩
    exact h.exists_submits rfl (frameOf_valid (by decide) (by simp) hid rfl hmax) rfl hnumber hroom
      ((dataOut_iff rfl hid).mpr ⟨st, hst, hp, he, (hasSendCredit_iff hst).mp hcredit⟩)

theorem Sound.submits_close_iff (h : a.Sound) (hid : id ≠ 0) :
    (∃ b, a.Submits ⟨trafficClass, frameOf .close id (a.nextSequenceFor id) [] false⟩ {} b) ↔
      a.CanClose id := by
  constructor
  · rintro ⟨b, t, -, hlt, hadm, ha, hroom⟩
    obtain ⟨st, hst, hp, hi⟩ := (closeOut_iff rfl hid).mp ⟨t, ha⟩
    exact ⟨st, hst, hp, hi, hlt, hroom⟩
  · rintro ⟨st, hst, hp, hi, hnumber, hroom⟩
    exact h.exists_submits rfl (frameOf_valid (by decide) (by simp) hid rfl (by simp)) rfl hnumber
      hroom ((closeOut_iff rfl hid).mpr ⟨st, hst, hp, hi⟩)

theorem Sound.submits_reset_iff (h : a.Sound) (hid : id ≠ 0) :
    (∃ b, a.Submits ⟨trafficClass, frameOf .reset id (a.nextSequenceFor id) payload false⟩ {} b) ↔
      a.CanReset id payload.length := by
  constructor
  · rintro ⟨b, t, -, hlt, hadm, ha, hroom⟩
    obtain ⟨st, hst, hp⟩ := (resetOut_iff rfl hid).mp ⟨t, ha⟩
    exact ⟨st, hst, hp, hadm.valid.payload, hlt, hroom⟩
  · rintro ⟨st, hst, hp, hmax, hnumber, hroom⟩
    exact h.exists_submits rfl (frameOf_valid (by decide) (by simp) hid rfl hmax) rfl hnumber hroom
      ((resetOut_iff rfl hid).mpr ⟨st, hst, hp⟩)

theorem creditOf_valid (hpos : delta ≠ 0)
    (hmax : delta ≤ limits.maxWindow) : (creditOf id sequence delta).header.Valid limits where
  major := rfl
  payload := Nat.zero_le _
  reserved := rfl
  critical := by simp [creditOf, Header.unknownCritical, Header.new]
  endStream h := by simp [creditOf, Header.endStream, Header.new] at h
  creditPayload _ := rfl
  creditDelta _ := ⟨Nat.pos_of_ne_zero hpos, hmax⟩
  noDelta h := absurd rfl h
  stream := by
    by_cases hid : id = 0 <;> simp [Header.streamIsValid, creditOf, Header.new, hid,
      Command.allowsStreamZero, Command.allowsNonzeroStream]

theorem Sound.submits_connectionCredit_iff (h : a.Sound) (hpos : delta ≠ 0)
    (hl : a.ledger + delta ≤ a.state.connectionReceiveLimit) :
    (∃ b, a.Submits ⟨.control, creditOf 0 (a.nextSequenceFor 0) delta⟩ {} b) ↔
      a.HasNumber 0 ∧ a.HasRoom headerLen := by
  constructor
  · rintro ⟨b, t, -, hlt, -, -, hroom⟩
    exact ⟨hlt, hroom⟩
  · rintro ⟨hnumber, hroom⟩
    have hmax := h.connectionLimit
    have hwide := a.state.config.limits.maxWindow_le
    have hledger : a.state.connectionReceiveCredit ≤ a.ledger := Nat.le_add_right ..
    exact h.exists_submits rfl (creditOf_valid hpos (by omega)) rfl hnumber hroom
      ⟨_, .connectionCreditOut rfl rfl h.phase (by simp only [creditOf]; omega)
        (by simp only [creditOf]; omega)⟩

theorem Sound.submits_streamCredit_iff (h : a.Sound)
    (hid : id ≠ 0) (hpos : delta ≠ 0) (hst : a.state.streams id = some st)
    (hp : st.phase = .accepted) (hl : st.receiveCredit + delta ≤ st.receiveLimit) :
    (∃ b, a.Submits ⟨.control, creditOf id (a.nextSequenceFor id) delta⟩ {} b) ↔
      a.HasNumber id ∧ a.HasRoom headerLen := by
  constructor
  · rintro ⟨b, t, -, hlt, -, -, hroom⟩
    exact ⟨hlt, hroom⟩
  · rintro ⟨hnumber, hroom⟩
    have hmax := h.limits id st hst
    have hwide := a.state.config.limits.maxWindow_le
    exact h.exists_submits rfl (creditOf_valid hpos (by omega)) rfl hnumber hroom
      ⟨_, .creditOut st hid rfl hst hp (by simp only [creditOf]; omega)
        (by simp only [creditOf]; omega)⟩

theorem Submits.leaves (hs : a.Submits item context b) :
    b.scheduler.queuedBytes = a.scheduler.queuedBytes + item.wireLen ∧
      b.scheduler.maxQueuedBytes = a.scheduler.maxQueuedBytes ∧
      ∀ id, id ≠ item.streamId → b.nextSequenceFor id = a.nextSequenceFor id := by
  obtain ⟨t, -⟩ := hs
  refine ⟨rfl, rfl, fun id hid => ?_⟩
  have hnext : (a.submitted item t).nextSequenceFor =
      Function.update a.nextSequenceFor item.streamId (item.frame.header.sequence + 1) :=
    nextSequenceFor_setSequence
  rw [hnext, Function.update_of_ne hid]

theorem Submits.leaves_state (hs : a.Submits item context b) :
    b.state.config = a.state.config ∧ b.state.expected .inbound = a.state.expected .inbound ∧
      ∀ id, id ≠ item.streamId → b.state.streams id = a.state.streams id := by
  obtain ⟨t, -, -, -, ha, -⟩ := hs
  refine ⟨advanceSequence_config.trans (config_of_applies ha), ?_, fun id hid => ?_⟩
  · have hne : Direction.inbound ≠ .outbound := by decide
    exact (expected_advanceSequence_ne hne).trans (expected_of_applies ha)
  · change (advanceSequence .outbound _ t).streams id = _
    rw [advanceSequence_streams]
    exact streams_of_ne (p := ⟨_, context⟩) ha (Ne.symm hid)

theorem Sound.restores_iff (h : a.Sound) (ho : a.Owes frame) :
    (∃ b, a.Restores frame b) ↔ a.CanRefund frame := by
  unfold CanRefund
  by_cases hnothing : frame.header.command ≠ .data ∨ frame.header.payloadLength = 0
  · refine ⟨fun _ hc hl => ?_, fun _ => ⟨a, .nothing hnothing⟩⟩
    simp [hc, hl] at hnothing
  have hc : frame.header.command = .data := by simpa using fun hn => hnothing (.inl hn)
  have hl : frame.header.payloadLength ≠ 0 := fun hz => hnothing (.inr hz)
  simp only [hc, hl, ne_eq, not_false_eq_true, forall_const]
  have hconnection := ho.connection
  rw [dataBytes_of_data hc] at hconnection
  by_cases hboth : a.RefundsStream frame
  · rw [if_pos hboth]
    obtain ⟨st, hst, hp⟩ := (Option.any_eq_true ..).mp hboth.2
    have hp : st.phase = .accepted := by simpa using hp
    obtain ⟨e, he⟩ := h.present _ st hst (.inl hp)
    have hid : frame.header.streamId ≠ 0 := by
      intro hz
      simp [hz, h.zero] at hst
    have hstream := ho.stream
    rw [dataBytes_of_data hc] at hstream
    have hfirst := h.submits_streamCredit_iff hid hl hst hp
      (Nat.le_of_add_right_le (hstream st e hst hp he).2)
    have hsecond {b : Actor} (hs : a.Submits ⟨.control, creditOf frame.header.streamId
        (a.nextSequenceFor frame.header.streamId) frame.header.payloadLength⟩ {} b) :
        (∃ c, b.Submits ⟨.control,
          creditOf 0 (b.nextSequenceFor 0) frame.header.payloadLength⟩ {} c) ↔
        a.HasNumber 0 ∧ a.HasRoom (headerLen + headerLen) := by
      obtain ⟨hb, hledger, hlimit⟩ := h.streamCredit hid hs hstream
      obtain ⟨hbytes, hmax, hnext⟩ := hs.leaves
      rw [hb.submits_connectionCredit_iff hl (by rw [hledger, hlimit]; exact hconnection),
        HasNumber, HasRoom, hbytes, hmax, hnext 0 (Ne.symm hid)]
      exact and_congr_right fun _ => by rw [HasRoom, ← Nat.add_assoc]; rfl
    constructor
    · rintro ⟨c, hr⟩
      cases hr with
      | nothing hn => exact absurd hn hnothing
      | connection _ _ hn => exact absurd hboth hn
      | both _ _ _ hs hs' =>
        obtain ⟨hnumber, hroom⟩ := (hsecond hs).mp ⟨c, hs'⟩
        exact ⟨hnumber, (hfirst.mp ⟨_, hs⟩).1, hroom⟩
    · rintro ⟨hnumber, hstreamNumber, hroom⟩
      obtain ⟨b, hs⟩ := hfirst.mpr ⟨hstreamNumber, Nat.le_trans (by simp) hroom⟩
      obtain ⟨c, hs'⟩ := (hsecond hs).mpr ⟨hnumber, hroom⟩
      exact ⟨c, .both hc hl hboth hs hs'⟩
  · rw [if_neg hboth, ← h.submits_connectionCredit_iff hl hconnection]
    constructor
    · rintro ⟨b, hr⟩
      cases hr with
      | nothing hn => exact absurd hn hnothing
      | connection _ _ _ hs => exact ⟨b, hs⟩
      | both _ _ hb => exact absurd hb hboth
    · rintro ⟨b, hs⟩
      exact ⟨b, .connection hc hl hboth hs⟩

theorem Submits.data_charge
    (hs : a.Submits ⟨trafficClass, frameOf .data id sequence payload endStream⟩ context b) :
    b.state.connectionSendCredit = a.state.connectionSendCredit - payload.length := by
  obtain ⟨t, -, -, -, ha, -⟩ := hs
  have hcharge := (sends_charge (p := ⟨_, context⟩) ha).1
  change (advanceSequence .outbound _ t).connectionSendCredit = _
  rw [advanceSequence_credit.1]
  simp only [Packet.dataLength, frameOf, Header.new, if_true] at hcharge
  omega

theorem Sound.ne_zero (h : a.Sound) (he : a.streams.lookup id = some e) : id ≠ 0 := by
  rintro rfl
  obtain ⟨st, hst, -⟩ := h.entries 0 e he
  simp [h.zero] at hst

theorem Sound.flushes_affordable (h : a.Sound)
    (he : a.streams.lookup id = some e) (hp : e.pendingSend = some pending)
    (hcredit : a.hasSendCredit id pending.payload.length) (P : ℕ → ℕ → Prop) :
    (∃ b, a.Flushes id b ∧ P b.state.connectionSendCredit b.scheduler.queuedBytes) ↔
      a.CanSend id pending.payload.length ∧
        P (a.state.connectionSendCredit - pending.payload.length)
          (a.scheduler.queuedBytes + (headerLen + pending.payload.length)) := by
  obtain ⟨st, hst, hfits⟩ := h.entries id e he
  simp only [flushes_iff_of_waiting he hp (hfits.pending pending hp), Retries, hcredit, true_and,
    Bool.true_eq_false, false_and, false_or]
  have hsound := (h.release he).sound
  have hid := h.ne_zero he
  constructor
  · rintro ⟨_, ⟨c, hs, rfl⟩, hP⟩
    refine ⟨(hsound.submits_data_iff hid hcredit).mp ⟨c, hs⟩, ?_⟩
    have hcharge : c.state.connectionSendCredit = a.state.connectionSendCredit - _ := hs.data_charge
    have hbytes : c.scheduler.queuedBytes = a.scheduler.queuedBytes + _ := hs.leaves.1
    rw [hcharge, hbytes] at hP
    exact hP
  · rintro ⟨hcan, hP⟩
    obtain ⟨c, hs⟩ := (hsound.submits_data_iff hid hcredit).mpr hcan
    refine ⟨_, ⟨c, hs, rfl⟩, ?_⟩
    have hcharge : c.state.connectionSendCredit = a.state.connectionSendCredit - _ := hs.data_charge
    have hbytes : c.scheduler.queuedBytes = a.scheduler.queuedBytes + _ := hs.leaves.1
    rw [hcharge, hbytes]
    exact hP

theorem Sound.flushes_waiting (h : a.Sound)
    (he : a.streams.lookup id = some e) (hp : e.pendingSend = some pending)
    (hcredit : a.hasSendCredit id pending.payload.length = false) :
    a.Flushes id b ↔ b = a.setEntry id e := by
  obtain ⟨st, hst, hfits⟩ := h.entries id e he
  simp [flushes_iff_of_waiting he hp (hfits.pending pending hp), Retries, hcredit]

theorem Sound.flushes_iff (h : a.Sound) : (∃ b, a.Flushes id b) ↔ a.CanFlush id := by
  by_cases hidle : ∀ e, a.streams.lookup id = some e → e.pendingSend = none
  · refine ⟨fun _ e pending he hp => ?_, fun _ => ⟨a, .nothing hidle⟩⟩
    simp [hidle e he] at hp
  · push Not at hidle
    obtain ⟨e, he, hp⟩ := hidle
    obtain ⟨pending, hp⟩ := Option.ne_none_iff_exists'.mp hp
    have hcan : a.CanFlush id ↔ (a.hasSendCredit id pending.payload.length →
        a.CanSend id pending.payload.length) := by
      refine ⟨fun hcan => hcan e pending he hp, fun hcan e' pending' he' hp' => ?_⟩
      obtain rfl : e = e' := Option.some.inj (he.symm.trans he')
      obtain rfl : pending = pending' := Option.some.inj (hp.symm.trans hp')
      exact hcan
    rw [hcan]
    cases hcredit : a.hasSendCredit id pending.payload.length with
    | false => simp [h.flushes_waiting he hp hcredit]
    | true => simpa using h.flushes_affordable he hp hcredit fun _ _ => True

theorem Sound.delivers_iff (h : a.Sound) (ho : a.Owes frame) :
    (∃ b, a.Delivers frame b) ↔ a.CanDeliver frame := by
  constructor
  · rintro ⟨b, hd⟩
    cases hd with
    | @handed e _ _ he hr hs =>
      obtain ⟨hset, howes⟩ := h.wakes ho he
      refine ⟨e, he, ?_⟩
      rw [if_pos (by simp [hr])]
      exact (hset.sound.restores_iff howes).mp ⟨_, hs⟩
    | @stored e he hr hroom => exact ⟨e, he, by simpa [hr] using hroom⟩
  · rintro ⟨e, he, hcan⟩
    cases hr : e.receiver with
    | none => exact ⟨_, .stored he hr (by simpa [hr] using hcan)⟩
    | some response =>
      obtain ⟨hset, howes⟩ := h.wakes ho he
      rw [if_pos (by simp [hr])] at hcan
      obtain ⟨b, hs⟩ := (hset.sound.restores_iff howes).mpr hcan
      exact ⟨_, .handed he hr hs⟩

/-- What the walk over the waiting sends reads of the given streams is the same. -/
structure Agrees (a b : Actor) (ids : List ℕ) : Prop where
  waiting : ∀ id ∈ ids, b.waitingSend id = a.waitingSend id
  records : ∀ id ∈ ids, b.state.streams id = a.state.streams id
  numbers : ∀ id ∈ ids, b.nextSequenceFor id = a.nextSequenceFor id
  config : b.state.config = a.state.config
  room : b.scheduler.maxQueuedBytes = a.scheduler.maxQueuedBytes

theorem hasSendCredit_iff_any {n : ℕ} : a.hasSendCredit id n ↔
    ((a.state.streams id).any (n ≤ ·.sendCredit) ∧ n ≤ a.state.connectionSendCredit) := by
  simp [hasSendCredit]

theorem idle_of_waitingSend (hw : a.waitingSend id = none) :
    ∀ e, a.streams.lookup id = some e → e.pendingSend = none := by
  intro e he
  simpa [waitingSend, he] using hw

theorem Agrees.tail (h : Agrees a b (id :: ids)) : Agrees a b ids :=
  ⟨fun id hid => h.waiting id (.tail _ hid), fun id hid => h.records id (.tail _ hid),
    fun id hid => h.numbers id (.tail _ hid), h.config, h.room⟩

theorem Flushes.agrees (hf : a.Flushes id b) (hid : id ∉ ids) : Agrees a b ids := by
  have hne (id' : ℕ) (hmem : id' ∈ ids) : id' ≠ id := fun heq => hid (heq ▸ hmem)
  cases hf with
  | nothing => exact ⟨fun _ _ => rfl, fun _ _ => rfl, fun _ _ => rfl, rfl, rfl⟩
  | short =>
    refine ⟨fun id' hmem => ?_, fun _ _ => rfl, fun _ _ => rfl, rfl, rfl⟩
    rw [waitingSend, lookup_setEntry_ne (hne id' hmem)]
    rfl
  | @queued e pending c he hp _ hs =>
    obtain ⟨hconfig, -, hrecords⟩ := hs.leaves_state
    refine ⟨fun id' hmem => ?_, fun id' hmem => hrecords id' (hne id' hmem),
      fun id' hmem => hs.leaves.2.2 id' (hne id' hmem), hconfig, hs.leaves.2.1⟩
    rw [waitingSend, waitingSend]
    change (AList.lookup id' c.streams).bind _ = _
    rw [hs.streams, lookup_setEntry_ne (hne id' hmem)]

end Actor

end KindleBridge.Transport
