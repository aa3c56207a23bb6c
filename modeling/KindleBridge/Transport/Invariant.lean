import Mathlib.Algebra.Order.BigOperators.Group.List
import KindleBridge.Foundations.Table
import KindleBridge.Transport.Events

/-! # The tables of a live session

The session state and the actor keep a table of streams each. `Sound` says how the two
agree while a session is live: which entries exist, what their inboxes may hold, and that
unread bytes are covered by the windows of their stream and of the connection.
-/

namespace KindleBridge.Transport

open Wire SessionState List

def dataBytes (frame : Frame) : ℕ := if frame.header.command = .data then frame.payload.length else 0

def StreamEntry.unread (e : StreamEntry) : ℕ := (e.inbox.map dataBytes).sum

variable {frame : Frame}

theorem dataBytes_of_terminal (h : terminal frame) : dataBytes frame = 0 := by
  have hc : frame.header.command ≠ .data := by
    intro hc
    simp [terminal, hc] at h
  simp [dataBytes, hc]

/-- An entry agrees with the record that the session state keeps of its stream. -/
structure Fits (id : ℕ) (st : StreamState) (e : StreamEntry) : Prop where
  bytes : e.inboxBytes = (e.inbox.map (·.payload.length)).sum
  streamId : ∀ f ∈ e.inbox, f.header.streamId = id
  command : ∀ f ∈ e.inbox, f.header.command = .data ∨ terminal f
  idle : e.receiver.isSome → e.inbox = []
  ordered : e.inbox.Pairwise fun f g => terminal f → terminal g
  window : e.inboxBytes ≤ e.receiveWindow
  empty : st.phase = .opening ∨ st.phase = .rejected → e.inbox = []
  closed : st.phase = .opening → st.receiveCredit = 0
  dataOnly : st.phase = .accepted → ∀ f ∈ e.inbox, ¬ terminal f
  unread : st.phase = .accepted → st.receiveCredit + e.inboxBytes ≤ e.receiveWindow
  limit : st.phase = .accepted → st.receiveCredit + e.inboxBytes ≤ st.receiveLimit
  pending : ∀ p, e.pendingSend = some p → p.payload.length ≤ u32Max

namespace Fits

variable {id : ℕ} {st X : StreamState} {e : StreamEntry} {p : Packet}

section
variable (h : Fits id st e)
include h

theorem unread_le : e.unread ≤ e.inboxBytes := by
  rw [h.bytes, StreamEntry.unread]
  refine sum_le_sum fun f _ => ?_
  unfold dataBytes
  split_ifs <;> omega

/-- A stream that is not open has no credit to answer for. -/
theorem ended (ho : X.phase ≠ .opening) (ha : X.phase ≠ .accepted)
    (hr : X.phase = .rejected → e.inbox = []) : Fits id X e :=
  { h with
    empty := fun hx => hr (hx.resolve_left ho)
    closed := (absurd · ho)
    dataOnly := (absurd · ha)
    unread := (absurd · ha)
    limit := (absurd · ha) }

theorem accepted (ho : st.phase = .opening) (hx : X.phase = .accepted)
    (hw : X.receiveCredit ≤ e.receiveWindow) (hl : X.receiveCredit ≤ X.receiveLimit) :
    Fits id X e := by
  have hinbox := h.empty (.inl ho)
  have hbytes : e.inboxBytes = 0 := by simp [h.bytes, hinbox]
  exact { h with
    empty := fun _ => hinbox
    closed := by simp [hx]
    dataOnly := fun _ f hf => by simp [hinbox] at hf
    unread := fun _ => by omega
    limit := fun _ => by omega }

theorem emits (he : Emits st p X) (hcredit : p.header.command = .credit → st.phase = .accepted →
      st.receiveCredit + p.header.creditDelta + e.inboxBytes ≤ e.receiveWindow ∧
        st.receiveCredit + p.header.creditDelta + e.inboxBytes ≤ st.receiveLimit) :
    Fits id X e := by
  cases he with
  | data _ hp => exact { h with }
  | credit hc hp =>
    exact { h with
      closed := fun ho => absurd (hp.symm.trans ho) (by decide)
      unread := fun _ => (hcredit hc hp).1
      limit := fun _ => (hcredit hc hp).2 }
  | late => exact h
  | close | reset => exact h.ended (by simp) (by simp) (by simp)

theorem absorbs (he : Absorbs st p X) : Fits id X e := by
  cases he with
  | data _ hp _ hle =>
    have hu := h.unread hp
    have hl := h.limit hp
    exact { h with
      closed := fun ho => absurd (hp.symm.trans ho) (by decide)
      unread := fun _ => by dsimp only; omega
      limit := fun _ => by dsimp only; omega }
  | discard _ ht =>
    rcases ht with ht | ht <;> exact h.ended (by simp [ht]) (by simp [ht]) (by simp [ht])
  | credit => exact { h with }
  | late => exact h
  | close | reset => exact h.ended (by simp) (by simp) (by simp)

theorem receives (hm : Moves p .inbound (some st) X) : Fits id X e := by
  cases hm with
  | reject _ _ _ ho => exact h.ended (by simp) (by simp) fun _ => h.empty (.inl ho)
  | acceptIn _ w _ ho => exact h.accepted ho rfl (by simp [h.closed ho]) (by simp [h.closed ho])
  | absorbs hab => exact h.absorbs hab

/-- A frame is put behind the others: DATA of an open stream, or what ended the stream. -/
theorem store (hid : frame.header.streamId = id)
    (hr : e.receiver = none) (hroom : e.inboxBytes + frame.payload.length ≤ e.receiveWindow)
    (hf : (frame.header.command = .data ∧ st.phase = .accepted ∧
        st.receiveCredit + dataBytes frame + e.inboxBytes ≤ st.receiveLimit ∧
        st.receiveCredit + dataBytes frame + e.inboxBytes ≤ e.receiveWindow) ∨
      (terminal frame ∧ st.phase.Terminal)) : Fits id st { e with
      inboxBytes := e.inboxBytes + frame.payload.length, inbox := e.inbox ++ [frame] } := by
  have hphase : ¬ (st.phase = .opening ∨ st.phase = .rejected) := by
    rcases hf with ⟨-, ha, -⟩ | ⟨-, ht | ht⟩ <;> simp [*]
  refine
    { bytes := by simp [h.bytes]
      streamId := forall_mem_append.mpr ⟨h.streamId, forall_mem_singleton.mpr hid⟩
      command := forall_mem_append.mpr ⟨h.command, forall_mem_singleton.mpr (hf.imp (·.1) (·.1))⟩
      idle := by simp [hr], ordered := ?_
      window := hroom, empty := fun hn => absurd hn hphase
      closed := fun hn => absurd (.inl hn) hphase, dataOnly := ?_, unread := ?_, limit := ?_
      pending := h.pending }
  · refine pairwise_append.mpr ⟨h.ordered, pairwise_singleton .., ?_⟩
    intro f hmem g hg ht
    obtain rfl : g = frame := by simpa using hg
    rcases hf with ⟨-, ha, -⟩ | ⟨ht', -⟩
    · exact absurd ht (h.dataOnly ha f hmem)
    · exact ht'
  · intro ha
    rcases hf with ⟨hc, -, -⟩ | ⟨-, ht⟩
    · refine forall_mem_append.mpr ⟨h.dataOnly ha, forall_mem_singleton.mpr ?_⟩
      simp [terminal, hc]
    · exact absurd (ha ▸ ht) (by decide)
  · intro ha
    rcases hf with ⟨hc, -, -, hle⟩ | ⟨-, ht⟩
    · simp only [dataBytes, hc, if_true] at hle
      dsimp only
      omega
    · exact absurd (ha ▸ ht) (by decide)
  · intro ha
    rcases hf with ⟨hc, -, hle, -⟩ | ⟨-, ht⟩
    · simp only [dataBytes, hc, if_true] at hle
      dsimp only
      omega
    · exact absurd (ha ▸ ht) (by decide)

theorem take {rest : List Frame} (hi : e.inbox = frame :: rest) : Fits id st { e with
      inbox := rest, inboxBytes := e.inboxBytes - frame.payload.length } := by
  have hmem (f : Frame) (hf : f ∈ rest) : f ∈ e.inbox := hi ▸ mem_cons_of_mem _ hf
  have hbytes : e.inboxBytes = frame.payload.length + (rest.map (·.payload.length)).sum := by
    simp [h.bytes, hi]
  refine
    { bytes := by simp [hbytes], streamId := fun f hf => h.streamId f (hmem f hf)
      command := fun f hf => h.command f (hmem f hf), idle := ?_, ordered := ?_
      window := (Nat.sub_le ..).trans h.window, empty := ?_, closed := h.closed
      dataOnly := fun ha f hf => h.dataOnly ha f (hmem f hf), unread := ?_, limit := ?_
      pending := h.pending }
  · intro hr
    exact absurd (hi.symm.trans (h.idle hr)) (by simp)
  · have := h.ordered
    rw [hi] at this
    exact this.tail
  · intro hn
    exact absurd (hi.symm.trans (h.empty hn)) (by simp)
  · intro ha
    have := h.unread ha
    dsimp only
    omega
  · intro ha
    have := h.limit ha
    dsimp only
    omega

end

end Fits

namespace Actor

def unread (a : Actor) : ℕ := total StreamEntry.unread a.streams

/-- The connection's receive credit and the unread bytes. -/
def ledger (a : Actor) : ℕ := a.state.connectionReceiveCredit + a.unread

structure Sound (a : Actor) : Prop where
  numbers : ∀ id, a.nextSequenceFor id = a.state.expected .outbound id
  phase : a.state.phase = .online ∨ a.state.phase = .goingAway
  zero : a.state.streams 0 = none
  entries : ∀ id e, a.streams.lookup id = some e → ∃ st, a.state.streams id = some st ∧ Fits id st e
  present : ∀ id st, a.state.streams id = some st →
    st.phase = .accepted ∨ (st.phase = .opening ∧ st.initiatedByLocal) →
    ∃ e, a.streams.lookup id = some e
  limits : ∀ id st, a.state.streams id = some st → st.receiveLimit ≤ a.state.config.limits.maxWindow
  connectionLimit : a.state.connectionReceiveLimit ≤ a.state.config.limits.maxWindow
  ledger : a.ledger ≤ a.state.connectionReceiveLimit
  queue : ∃ log, a.scheduler.Holds log ∧
    ∀ item ∈ log, terminal item.frame → a.state.Finished item.streamId
  capacity : a.scheduler.queuedBytes ≤ a.scheduler.maxQueuedBytes ∧
    a.scheduler.maxQueuedBytes = maxScheduledBytes

variable {a b : Actor} {item : ScheduledFrame} {context : FrameContext} {id : ℕ}
  {e : StreamEntry} {t : SessionState} {st : StreamState} {error : ConnectionError}
  {sequence delta : ℕ}

/-- The part of an actor that its frames are accounted for in. -/
def books (a : Actor) := (a.state, a.streams, a.sequences, a.controlSequence, a.scheduler)

theorem Sound.congr (h : a.Sound) (hbooks : b.books = a.books) : b.Sound := by
  simp only [books, Prod.mk.injEq] at hbooks
  obtain ⟨hs, ht, hn, hc, hq⟩ := hbooks
  obtain ⟨h1, h2, h3, h4, h5, h6, h7, h8, h9, h10⟩ := h
  constructor
  · intro id
    rw [nextSequenceFor, hn, hc, hs]
    exact h1 id
  all_goals first
    | rwa [hs]
    | simpa only [hs, ht, hq, Actor.ledger, Actor.unread]

@[simp] theorem lookup_setEntry :
    (a.setEntry id e).streams.lookup id = some e := AList.lookup_insert ..

theorem lookup_setEntry_ne {id' : ℕ} (h : id' ≠ id) :
    (a.setEntry id e).streams.lookup id' = a.streams.lookup id' := AList.lookup_insert_ne h

theorem Sound.fits (h : a.Sound)
    (he : a.streams.lookup id = some e) (hst : a.state.streams id = some st) : Fits id st e := by
  obtain ⟨st', hst', hf⟩ := h.entries id e he
  obtain rfl : st' = st := Option.some.inj (hst'.symm.trans hst)
  exact hf

theorem ledger_setEntry (a : Actor) (id : ℕ) (e : StreamEntry) : (a.setEntry id e).ledger +
    weightAt StreamEntry.unread a.streams id = e.unread + a.ledger := by
  have := total_insert_add (f := StreamEntry.unread) (t := a.streams) (k := id) (v := e)
  simp only [ledger, unread, setEntry]
  omega

theorem Sound.setEntry (h : a.Sound) (hst : a.state.streams id = some st) (hf : Fits id st e)
    (hl : (a.setEntry id e).ledger ≤ a.state.connectionReceiveLimit) : (a.setEntry id e).Sound :=
  { h with
    entries := by
      intro id' e' he
      by_cases hid : id' = id
      · subst hid
        obtain rfl : e = e' := by simpa using he
        exact ⟨st, hst, hf⟩
      · rw [lookup_setEntry_ne hid] at he
        exact h.entries id' e' he
    present := by
      intro id' st' hst' hp
      by_cases hid : id' = id
      · subst hid
        exact ⟨e, lookup_setEntry⟩
      · rw [lookup_setEntry_ne hid]
        exact h.present id' st' hst' hp
    ledger := hl }

/-- What a frame must satisfy beyond what the session state checks. -/
structure Covers (a : Actor) (item : ScheduledFrame) (context : FrameContext) : Prop where
  command : item.frame.header.command ≠ .open ∧ item.frame.header.command ≠ .error
  accepts : item.frame.header.command = .accept →
    ∃ e, a.streams.lookup item.streamId = some e ∧
      context.initialStreamWindow = some e.receiveWindow
  connection : item.frame.header.command = .credit → item.streamId = 0 →
    a.ledger + item.frame.header.creditDelta ≤ a.state.connectionReceiveLimit
  stream : item.frame.header.command = .credit → ∀ st e,
    a.state.streams item.streamId = some st → st.phase = .accepted →
    a.streams.lookup item.streamId = some e →
    st.receiveCredit + item.frame.header.creditDelta + e.inboxBytes ≤ e.receiveWindow ∧
      st.receiveCredit + item.frame.header.creditDelta + e.inboxBytes ≤ st.receiveLimit

theorem numbers_submitted (hn : ∀ id, a.nextSequenceFor id = a.state.expected .outbound id)
    (hlt : item.frame.header.sequence < u32Max)
    (ha : a.state.Applies item.frame.header context .outbound t) :
    (a.submitted item t).nextSequenceFor = (a.submitted item t).state.expected .outbound := by
  have hexp := expected_advanceSequence (d := .outbound) (s := t) ⟨item.frame.header, context⟩
  have hnext : (a.submitted item t).nextSequenceFor =
      Function.update a.nextSequenceFor item.streamId (item.frame.header.sequence + 1) :=
    nextSequenceFor_setSequence
  rw [hnext, submitted]
  dsimp only at hexp ⊢
  have hcap : numbering.num ⟨item.frame.header, context⟩ ≠ numbering.cap := Nat.ne_of_lt hlt
  rw [hexp, expected_of_applies ha, Numbering.bump, if_neg hcap, funext hn]
  rfl

theorem fits_sends {st X : StreamState} (h : Fits item.streamId st e)
    (hm : Moves ⟨item.frame.header, context⟩ .outbound (some st) X)
    (hst : a.state.streams item.streamId = some st) (he : a.streams.lookup item.streamId = some e)
    (hc : a.Covers item context) : Fits item.streamId X e := by
  cases hm with
  | reject _ _ _ ho => exact h.ended (by simp) (by simp) fun _ => h.empty (.inl ho)
  | acceptOut _ w hcommand ho _ hw =>
    obtain ⟨e', he', hw'⟩ := hc.accepts hcommand
    obtain rfl : e = e' := Option.some.inj (he.symm.trans he')
    have hwindow : w = e.receiveWindow := Option.some.inj (hw.symm.trans hw')
    exact h.accepted ho rfl hwindow.le le_rfl
  | emits hem =>
    refine h.emits hem fun hcredit hp => ?_
    exact hc.stream hcredit st e hst hp he

/-- The tables after a frame of either direction, where its own stream is accounted for. -/
theorem Sound.tables {p : Packet} {d : Direction} (h : a.Sound)
    (hadm : a.state.Admitted d p.header p.context) (ha : a.state.Applies p.header p.context d t)
    (hfits : ∀ st X e, a.state.streams p.header.streamId = some st → Moves p d (some st) X →
      a.streams.lookup p.header.streamId = some e → Fits p.header.streamId X e)
    (hpresent : ∀ X, Moves p d (a.state.streams p.header.streamId) X →
      X.phase = .accepted ∨ (X.phase = .opening ∧ X.initiatedByLocal) →
      ∃ e, a.streams.lookup p.header.streamId = some e) :
    (∀ id e, a.streams.lookup id = some e → ∃ st, t.streams id = some st ∧ Fits id st e) ∧
      (∀ id st, t.streams id = some st →
        st.phase = .accepted ∨ (st.phase = .opening ∧ st.initiatedByLocal) →
        ∃ e, a.streams.lookup id = some e) ∧
      ∀ id st, t.streams id = some st → st.receiveLimit ≤ t.config.limits.maxWindow := by
  rw [config_of_applies ha]
  refine ⟨fun id e he => ?_, fun id st hst hp => ?_, fun id st hst => ?_⟩
  · obtain ⟨st, hst, hf⟩ := h.entries id e he
    rcases streams_of_applies ha id with hsame | ⟨rfl, X, hX, hm⟩
    · exact ⟨st, hsame.trans hst, hf⟩
    · exact ⟨X, hX, hfits st X e hst (hst ▸ hm) he⟩
  · rcases streams_of_applies ha id with hsame | ⟨rfl, X, hX, hm⟩
    · exact h.present id st (hsame.symm.trans hst) hp
    · obtain rfl := Option.some.inj (hX.symm.trans hst)
      exact hpresent X hm hp
  · rcases streams_of_applies ha id with hsame | ⟨rfl, X, hX, hm⟩
    · exact h.limits id st (hsame.symm.trans hst)
    · obtain rfl := Option.some.inj (hX.symm.trans hst)
      exact hm.receiveLimit_le (h.limits _) fun w => acceptWindow_le hadm.context

theorem ledger_submits (hs : a.Submits item context b) (hc : item.frame.header.command ≠ .hello) :
    b.ledger = a.ledger + (Packet.mk item.frame.header context).grant ∧
      b.state.connectionReceiveLimit = a.state.connectionReceiveLimit := by
  obtain ⟨t, -, -, -, ha, -⟩ := hs
  obtain ⟨hgrant, -, hlimit, -⟩ := sends_grant (p := ⟨item.frame.header, context⟩) ha hc
  constructor
  · change (advanceSequence .outbound item.frame.header t).connectionReceiveCredit + a.unread =
      a.state.connectionReceiveCredit + a.unread + _
    rw [advanceSequence_credit.2.2.1, hgrant]
    omega
  · exact advanceSequence_credit.2.2.2.trans hlimit

theorem Covers.grant_le (hc : a.Covers item context) (h : a.Sound)
    (hne : item.frame.header.command ≠ .hello) :
    a.ledger + (Packet.mk item.frame.header context).grant ≤ a.state.connectionReceiveLimit := by
  unfold Packet.grant Packet.creditDelta
  rw [if_neg hne]
  split_ifs with hz hcredit
  · exact hc.connection hcredit hz
  · exact h.ledger
  · exact h.ledger

theorem Sound.sends_present {X : StreamState} (h : a.Sound) (hc : a.Covers item context)
    (hm : Moves ⟨item.frame.header, context⟩ .outbound (a.state.streams item.streamId) X)
    (hp : X.phase = .accepted ∨ (X.phase = .opening ∧ X.initiatedByLocal)) :
    ∃ e, a.streams.lookup item.streamId = some e := by
  generalize hst : a.state.streams item.streamId = r at hm
  cases hm with
  | «open» _ ho => exact absurd ho hc.command.1
  | reject => simp at hp
  | acceptOut _ _ hcommand =>
    obtain ⟨e, he, -⟩ := hc.accepts hcommand
    exact ⟨e, he⟩
  | emits hem =>
    refine h.present _ _ hst ?_
    cases hem <;> simp_all

theorem sound_submitted (hnumbers : ∀ id, a.nextSequenceFor id = a.state.expected .outbound id)
    (hphase : a.state.phase = .online ∨ a.state.phase = .goingAway)
    (hzero : a.state.streams 0 = none)
    (hconnection : a.state.connectionReceiveLimit ≤ a.state.config.limits.maxWindow)
    (hqueue : ∃ log, a.scheduler.Holds log ∧
      ∀ item ∈ log, terminal item.frame → a.state.Finished item.streamId)
    (hmax : a.scheduler.maxQueuedBytes = maxScheduledBytes)
    (hroom : a.scheduler.queuedBytes + item.wireLen ≤ a.scheduler.maxQueuedBytes)
    (hlt : item.frame.header.sequence < u32Max)
    (ha : a.state.Applies item.frame.header context .outbound t)
    (hc : item.frame.header.command ≠ .error) (hentries : ∀ id e, a.streams.lookup id = some e →
      ∃ st, t.streams id = some st ∧ Fits id st e) (hpresent : ∀ id st, t.streams id = some st →
      st.phase = .accepted ∨ (st.phase = .opening ∧ st.initiatedByLocal) →
      ∃ e, a.streams.lookup id = some e)
    (hlimits : ∀ id st, t.streams id = some st → st.receiveLimit ≤ t.config.limits.maxWindow)
    (hlimit : (a.submitted item t).state.connectionReceiveLimit = a.state.connectionReceiveLimit)
    (hledger : (a.submitted item t).ledger ≤ a.state.connectionReceiveLimit) :
    (a.submitted item t).Sound := by
  obtain ⟨log, hlog, hterminal⟩ := hqueue
  have hclosing (ht : terminal item.frame) : t.Finished item.streamId :=
    finished_of_ends (p := ⟨item.frame.header, context⟩) ha
      (by simpa [terminal, Packet.Ends] using ht)
  refine
    { numbers := fun id => congrFun (numbers_submitted hnumbers hlt ha) id
      phase := ?_, zero := ?_, entries := ?_, present := ?_, limits := ?_
      connectionLimit := ?_, ledger := hlimit ▸ hledger
      queue := ⟨log ++ [item], hlog.push, ?_⟩
      capacity := ⟨hroom, hmax⟩ }
  · rw [submitted, advanceSequence_phase]
    exact phase_of_applies ha hphase hc
  · rw [submitted, advanceSequence_streams, streams_zero_of_applies ha]
    exact hzero
  · rw [submitted, advanceSequence_streams]
    exact hentries
  · rw [submitted, advanceSequence_streams]
    exact hpresent
  · rw [submitted, advanceSequence_streams, advanceSequence_config]
    exact hlimits
  · rw [hlimit, submitted, advanceSequence_config, config_of_applies ha]
    exact hconnection
  · intro x hx ht
    rw [submitted, finished_advanceSequence]
    rcases mem_append.mp hx with hx | hx
    · exact finished_of_applies (p := ⟨item.frame.header, context⟩) ha (hterminal x hx ht)
    · obtain rfl : x = item := by simpa using hx
      exact hclosing ht

theorem Sound.submits (h : a.Sound) (hs : a.Submits item context b) (hc : a.Covers item context) :
    b.Sound := by
  have hledger := ledger_submits hs
  obtain ⟨t, hseq, hlt, hadm, ha, hroom⟩ := hs
  have hne : item.frame.header.command ≠ .hello := ne_hello_of_applies ha h.phase
  obtain ⟨hbalance, hlimit⟩ := hledger hne
  obtain ⟨hentries, hpresent, hlimits⟩ := h.tables (p := ⟨item.frame.header, context⟩) hadm ha
    (fun st X e hst hm he => fits_sends (h.fits he hst) hm hst he hc)
    (fun X hm => h.sends_present hc hm)
  exact sound_submitted h.numbers h.phase h.zero h.connectionLimit h.queue h.capacity.2 hroom hlt ha
    hc.command.2 hentries hpresent hlimits hlimit (hbalance ▸ hc.grant_le h hne)

section Inbound

variable {codec : ServiceCodec} {s : SessionState}

theorem ledger_accepts (hacc : Accepts codec a frame s) :
    { a with state := s }.ledger + dataBytes frame = a.ledger ∧
      s.connectionReceiveLimit = a.state.connectionReceiveLimit := by
  obtain ⟨context, t, -, -, ha, rfl⟩ := hacc
  obtain ⟨hcharge, hlimit, -⟩ := receives_charge (p := ⟨frame.header, context⟩) ha
  have hbytes : dataBytes frame = (Packet.mk frame.header context).dataLength := by
    simp only [dataBytes, Packet.dataLength, frame.length_eq]
  constructor
  · change (advanceSequence .inbound frame.header t).connectionReceiveCredit + a.unread + _ =
      a.state.connectionReceiveCredit + a.unread
    rw [advanceSequence_credit.2.2.1, hbytes]
    omega
  · exact advanceSequence_credit.2.2.2.trans hlimit

theorem Sound.accepts (h : a.Sound) (hacc : Accepts codec a frame s)
    (hc : frame.header.command ≠ .error) : { a with state := s }.Sound := by
  obtain ⟨hledger, hlimit⟩ := ledger_accepts hacc
  obtain ⟨context, t, -, hadm, ha, rfl⟩ := hacc
  obtain ⟨hentries, hpresent, hlimits⟩ := h.tables (p := ⟨frame.header, context⟩) hadm ha
    (fun st X e hst hm he => (h.fits he hst).receives hm)
    (by
      intro X hm hp
      generalize hst : a.state.streams frame.header.streamId = r at hm
      cases hm with
      | «open» => simp [StreamState.opening, Direction.senderIsLocal] at hp
      | reject => simp at hp
      | acceptIn _ _ _ ho hi => exact h.present _ _ hst (.inr ⟨ho, hi⟩)
      | absorbs hab =>
        refine h.present _ _ hst ?_
        cases hab <;> simp_all)
  obtain ⟨log, hlog, hterminal⟩ := h.queue
  refine
    { numbers := fun id => ?_, phase := ?_, zero := ?_, entries := ?_, present := ?_, limits := ?_
      connectionLimit := ?_, ledger := ?_, queue := ⟨log, hlog, fun item hi ht => ?_⟩
      capacity := h.capacity }
  · rw [expected_advanceSequence_ne (by decide), expected_of_applies ha]
    exact h.numbers id
  · rw [advanceSequence_phase]
    exact phase_of_applies ha h.phase hc
  · rw [advanceSequence_streams, streams_zero_of_applies ha]
    exact h.zero
  · rw [advanceSequence_streams]
    exact hentries
  · rw [advanceSequence_streams]
    exact hpresent
  · rw [advanceSequence_streams, advanceSequence_config]
    exact hlimits
  · rw [hlimit, advanceSequence_config, config_of_applies ha]
    exact h.connectionLimit
  · have := h.ledger
    rw [hlimit]
    omega
  · rw [finished_advanceSequence]
    exact finished_of_applies (p := ⟨frame.header, context⟩) ha (hterminal item hi ht)

end Inbound

/-- The bytes of a frame have been received and not given back yet. -/
structure Owes (a : Actor) (frame : Frame) : Prop where
  connection : a.ledger + dataBytes frame ≤ a.state.connectionReceiveLimit
  stream : ∀ st e, a.state.streams frame.header.streamId = some st → st.phase = .accepted →
    a.streams.lookup frame.header.streamId = some e →
    st.receiveCredit + dataBytes frame + e.inboxBytes ≤ e.receiveWindow ∧
      st.receiveCredit + dataBytes frame + e.inboxBytes ≤ st.receiveLimit

theorem Submits.streams (hs : a.Submits item context b) : b.streams = a.streams := by
  cases hs
  rfl

theorem Sound.connectionCredit (h : a.Sound)
    (hs : a.Submits ⟨.control, creditOf 0 sequence delta⟩ {} b)
    (hl : a.ledger + delta ≤ a.state.connectionReceiveLimit) :
    b.Sound ∧ b.ledger = a.ledger + delta ∧
      b.state.connectionReceiveLimit = a.state.connectionReceiveLimit := by
  have hcover : a.Covers ⟨.control, creditOf 0 sequence delta⟩ {} :=
    { command := by simp [creditOf, Header.new]
      accepts := by simp [creditOf, Header.new]
      connection := fun _ _ => hl
      stream := fun _ st e hst => absurd (h.zero.symm.trans hst) (by simp) }
  obtain ⟨hledger, hlimit⟩ := ledger_submits hs (by simp [creditOf, Header.new])
  exact ⟨h.submits hs hcover, by simpa [creditOf, Header.new, Packet.grant, Packet.creditDelta]
    using hledger, hlimit⟩

theorem Sound.streamCredit (h : a.Sound) (hid : id ≠ 0)
    (hs : a.Submits ⟨.control, creditOf id sequence delta⟩ {} b)
    (hl : ∀ st e, a.state.streams id = some st → st.phase = .accepted →
      a.streams.lookup id = some e → st.receiveCredit + delta + e.inboxBytes ≤ e.receiveWindow ∧
        st.receiveCredit + delta + e.inboxBytes ≤ st.receiveLimit) : b.Sound ∧ b.ledger = a.ledger ∧
      b.state.connectionReceiveLimit = a.state.connectionReceiveLimit := by
  have hcover : a.Covers ⟨.control, creditOf id sequence delta⟩ {} :=
    { command := by simp [creditOf, Header.new]
      accepts := by simp [creditOf, Header.new]
      connection := fun _ hz => absurd hz hid
      stream := fun _ => hl }
  obtain ⟨hledger, hlimit⟩ := ledger_submits hs (by simp [creditOf, Header.new])
  exact ⟨h.submits hs hcover, by simpa [creditOf, Header.new, Packet.grant, hid] using hledger,
    hlimit⟩

theorem dataBytes_of_data (hc : frame.header.command = .data) :
    dataBytes frame = frame.header.payloadLength := by
  simp [dataBytes, hc, frame.length_eq]

theorem Sound.restores (h : a.Sound) (ho : a.Owes frame) (hr : a.Restores frame b) :
    b.Sound ∧ b.ledger = a.ledger + dataBytes frame ∧
      b.state.connectionReceiveLimit = a.state.connectionReceiveLimit ∧ b.streams = a.streams := by
  cases hr with
  | nothing hn =>
    have hzero : dataBytes frame = 0 := by
      rcases hn with hn | hn
      · simp [dataBytes, hn]
      · simp [dataBytes, ← frame.length_eq, hn]
    exact ⟨h, by omega, rfl, rfl⟩
  | connection hc _ _ hs =>
    rw [dataBytes_of_data hc]
    obtain ⟨hb, hledger, hlimit⟩ := h.connectionCredit hs (dataBytes_of_data hc ▸ ho.connection)
    exact ⟨hb, hledger, hlimit, hs.streams⟩
  | both hc _ hboth hs hs' =>
    have hid : frame.header.streamId ≠ 0 := by
      intro hz
      simp [RefundsStream, hz, h.zero] at hboth
    rw [dataBytes_of_data hc]
    obtain ⟨hb, hledger, hlimit⟩ := h.streamCredit hid hs (dataBytes_of_data hc ▸ ho.stream)
    obtain ⟨hc', hledger', hlimit'⟩ := hb.connectionCredit hs'
      (by rw [hledger, hlimit]; exact dataBytes_of_data hc ▸ ho.connection)
    exact ⟨hc', by omega, hlimit'.trans hlimit, hs'.streams.trans hs.streams⟩

theorem ledger_retireStream : (a.retireStream id error).ledger +
    weightAt StreamEntry.unread a.streams id = a.ledger := by
  have := total_erase (f := StreamEntry.unread) (t := a.streams) (k := id)
  change a.state.connectionReceiveCredit + total StreamEntry.unread (a.streams.erase id) + _ =
    a.state.connectionReceiveCredit + total StreamEntry.unread a.streams
  omega

theorem Sound.erase (h : a.Sound) (hid : ∀ st, a.state.streams id = some st →
    ¬ (st.phase = .accepted ∨ (st.phase = .opening ∧ st.initiatedByLocal))) :
    { a with streams := a.streams.erase id }.Sound :=
  { h with
    entries := fun id' e he => by
      by_cases hne : id' = id
      · subst hne
        simp at he
      · rw [AList.lookup_erase_ne hne] at he
        exact h.entries id' e he
    present := fun id' st hst hp => by
      by_cases hne : id' = id
      · subst hne
        exact absurd hp (hid st hst)
      · rw [AList.lookup_erase_ne hne]
        exact h.present id' st hst hp
    ledger := by
      have := total_erase (f := StreamEntry.unread) (t := a.streams) (k := id)
      have := h.ledger
      simp only [Actor.ledger, Actor.unread] at this ⊢
      omega }

theorem not_open_of_finished (hf : a.state.Finished id) (hst : a.state.streams id = some st) :
    ¬ (st.phase = .accepted ∨ (st.phase = .opening ∧ st.initiatedByLocal)) := by
  obtain ⟨st', hst', ht⟩ := hf
  obtain rfl : st' = st := Option.some.inj (hst'.symm.trans hst)
  rcases ht with ht | ht <;> simp [ht]

theorem Sound.retireStream (h : a.Sound) (hf : a.state.Finished id) :
    (a.retireStream id error).Sound :=
  (h.erase fun _ => not_open_of_finished hf).congr rfl

end Actor

end KindleBridge.Transport
