import KindleBridge.Link.Joint
import KindleBridge.Transport.LateFrames

/-! # Opening a stream

The accepter's window reaches the opener in ACCEPT, the opener's window reaches the
accepter in the CREDIT that answers it. Both limits of the stream come from ACCEPT alone,
so the opener can grant its own window only up to the other.
-/

namespace KindleBridge.Transport

open Wire SessionState Link

namespace Actor

/-- An actor of a live session that has sent OPEN on a stream, and nothing else. -/
structure Opener (a : Actor) (id window : ℕ) : Prop where
  sound : a.Sound
  live : a.awaitingRestart = false
  record : a.state.streams id = some (.opening true)
  window : ∃ e, a.streams.lookup id = some e ∧ e.receiveWindow = window
  received : a.state.expected .inbound id = 0
  sent : a.nextSequenceFor id = 1

/-- An actor of a live session that has answered OPEN with ACCEPT, and sent nothing else. -/
structure Accepter (b : Actor) (id window : ℕ) : Prop where
  sound : b.Sound
  live : b.awaitingRestart = false
  record : b.state.streams id = some (acceptedResponder window)
  received : b.state.expected .inbound id = 1
  sent : b.nextSequenceFor id = 1

structure AcceptOf (codec : ServiceCodec) (limits : DecodeLimits) (frame : Frame)
    (id window : ℕ) : Prop where
  command : frame.header.command = .accept
  streamId : frame.header.streamId = id
  sequence : frame.header.sequence = 0
  valid : frame.header.Valid limits
  window : codec.decodeAccept frame.payload = .ok window

/-- On an open stream the sender may send exactly so many bytes, and the receiver takes them. -/
def Granted (sender receiver : SessionState) (id n : ℕ) : Prop :=
  ∃ X Y, sender.streams id = some X ∧ receiver.streams id = some Y ∧ X.phase = .accepted ∧
    Y.phase = .accepted ∧ X.localEndStream = false ∧ Y.peerEndStream = false ∧
    X.sendCredit = n ∧ Y.receiveCredit = n

/-- ACCEPT is handled, the CREDIT that answers it is handled by the peer, and after it each
end may send what the other end's window is. -/
def Completes (codec : ServiceCodec) (u v : World) (a b : Actor) (accept : Frame)
    (id r w : ℕ) : Prop :=
  ∃ a' b' credit s, (handleInbound codec u accept).run a = (.ok (), a') ∧
    a'.trace.queued = a.trace.queued ++ [(a.generation, credit)] ∧
    (processInbound credit.header {}).run b.state = (.ok (), s) ∧
    Granted a'.state s id w ∧ Granted s a'.state id r ∧
    (handleInbound codec v credit).run b = (.ok (), b')

variable {codec : ServiceCodec} {u v : World} {a b a' : Actor} {frame : Frame} {id r w : ℕ}
  {st : StreamState}

theorem Sound.ne_zero_of_record (h : a.Sound) (hst : a.state.streams id = some st) : id ≠ 0 := by
  rintro rfl
  simp [h.zero] at hst

/-- The opener's session with an ACCEPT on the stream. -/
def established (a : Actor) (accept : Frame) (id w : ℕ) : SessionState :=
  advanceSequence .inbound accept.header (a.state.setStream id (acceptedInitiator w))

theorem established_record : (a.established frame id w).streams id = some (acceptedInitiator w) := by
  simp [established, setStream]

theorem Opener.accepts (ha : a.Opener id r) (hf : AcceptOf codec a.state.config.limits frame id w)
    (hw : 0 < w) (hmax : w ≤ a.state.config.limits.maxWindow) :
    Accepts codec a frame (a.established frame id w) := by
  obtain ⟨hc, rfl, hseq, hvalid, hwindow⟩ := hf
  have hwindowOk : a.state.validateWindow w = .ok () := by
    rw [validateWindow, if_neg (by omega)]
  refine ⟨.accept w, _, ?_, ⟨hvalid, ?_, ?_, ?_, ?_⟩,
    .acceptIn (.opening true) w (ha.sound.ne_zero_of_record ha.record) hc ha.record rfl rfl rfl,
    rfl⟩
  · simp [inboundContext, hc, hwindow, Except.mapError, Except.map]
  · simp [validateContext, hc, FrameContext.accept, hwindowOk]
  · rcases ha.sound.phase with hp | hp <;> simp [hp]
  · rw [hseq, ha.received]
  · rw [hseq]
    exact fun h => absurd h (by decide)

theorem completeOpen_ok_iff {e : StreamEntry} (he : a.streams.lookup id = some e) :
    (completeOpen id).run a = (.ok (), b) ↔
      ∃ c, a.Submits ⟨.control, creditOf id (a.nextSequenceFor id) e.receiveWindow⟩ {} c ∧
        b = (c.setEntry id { e with opener := none }).replyAll e.opener.toList (.opened id) := by
  unfold completeOpen
  simp only [Op.run_get_bind, he]
  rw [Op.bind_ok_iff]
  constructor
  · rintro ⟨_, c, hs, hr⟩
    exact ⟨c, queueCredit_ok_iff.mp hs, (Prod.mk.inj hr).2.symm⟩
  · rintro ⟨c, hs, rfl⟩
    exact ⟨(), c, queueCredit_ok_iff.mpr hs, rfl⟩

theorem Submits.of_credit {n delta : ℕ} (hid : id ≠ 0)
    (hst : a.state.streams id = some st) (hp : st.phase = .accepted)
    (hs : a.Submits ⟨.control, creditOf id n delta⟩ {} b) :
    st.receiveCredit + delta ≤ st.receiveLimit ∧ a.HasRoom headerLen ∧
      b.trace.queued = a.trace.queued ++ [(a.generation, creditOf id n delta)] ∧
      b.state.streams id = some { st with receiveCredit := st.receiveCredit + delta } := by
  obtain ⟨t, -, -, -, happlies, hroom⟩ := hs
  refine ⟨creditOut_of_applies happlies rfl hid hst hp, hroom, rfl, ?_⟩
  change (advanceSequence .outbound _ t).streams id = _
  rw [advanceSequence_streams]
  cases happlies with
  | creditOut st' _ _ hst' =>
    obtain rfl : st' = st := Option.some.inj (hst'.symm.trans hst)
    exact Function.update_self ..
  | late _ st' _ _ hst' ht =>
    obtain rfl : st' = st := Option.some.inj (hst'.symm.trans hst)
    exact absurd (hp ▸ ht) (by decide)
  | _ => simp_all [creditOf, Header.new]

section Opener

variable (ha : a.Opener id r) (hf : AcceptOf codec a.state.config.limits frame id w) (hw : 0 < w)
  (hmax : w ≤ a.state.config.limits.maxWindow)

include ha hf hw hmax

/-- What becomes of ACCEPT at the opener: the credit for its own window. -/
theorem Opener.handleInbound_ok_iff :
    (handleInbound codec u frame).run a = (.ok (), a') ↔ ∃ e c, a.streams.lookup id = some e ∧
      { a with state := a.established frame id w }.Submits ⟨.control, creditOf id 1 r⟩ {} c ∧
      a' = (c.setEntry id { e with opener := none }).replyAll e.opener.toList (.opened id) := by
  obtain ⟨e, he, rfl⟩ := ha.window
  have hc := hf.command
  have hid := hf.streamId
  have hd : ¬ a.Discards frame := by simp [Discards, hc]
  rw [handleInbound_run (by simp [hc]) ha.live (ha.accepts hf hw hmax), if_neg hd]
  simp only [dispatch, hc, hid]
  have he' : ({ a with state := a.established frame id w } : Actor).streams.lookup id = some e := he
  rw [completeOpen_ok_iff he']
  have hnext : ({ a with state := a.established frame id w } : Actor).nextSequenceFor id = 1 :=
    ha.sent
  rw [hnext]
  constructor
  · rintro ⟨c, hs, rfl⟩
    exact ⟨e, c, he, hs, rfl⟩
  · rintro ⟨e', c, hlookup, hs, rfl⟩
    obtain rfl : e = e' := Option.some.inj (he.symm.trans hlookup)
    exact ⟨c, hs, rfl⟩

theorem Opener.of_handled (hr : (handleInbound codec u frame).run a = (.ok (), a')) :
    r ≤ w ∧ a.HasRoom headerLen ∧
      a'.trace.queued = a.trace.queued ++ [(a.generation, creditOf id 1 r)] ∧
      a'.state.streams id = some { acceptedInitiator w with receiveCredit := r } := by
  obtain ⟨e, c, he, hs, rfl⟩ := (ha.handleInbound_ok_iff hf hw hmax).mp hr
  have hid := ha.sound.ne_zero_of_record ha.record
  obtain ⟨hle, hroom, hqueued, hrecord⟩ := hs.of_credit hid established_record rfl
  have hzero : (acceptedInitiator w).receiveCredit = 0 := rfl
  rw [hzero, Nat.zero_add] at hle hrecord
  exact ⟨hle, hroom, hqueued, hrecord⟩

theorem Opener.handled (hr : 0 < r) (hle : r ≤ w)
    (hroom : a.HasRoom headerLen) : ∃ a', (handleInbound codec u frame).run a = (.ok (), a') := by
  obtain ⟨e, he, hwindow⟩ := ha.window
  have hid := ha.sound.ne_zero_of_record ha.record
  have hsound := ha.sound.accepts (ha.accepts hf hw hmax) (by simp [hf.command])
  have hnext : ({ a with state := a.established frame id w } : Actor).nextSequenceFor id = 1 :=
    ha.sent
  have hnumber : ({ a with state := a.established frame id w } : Actor).HasNumber id := by
    rw [HasNumber, hnext]
    decide
  obtain ⟨c, hs⟩ := (hsound.submits_streamCredit_iff hid hr.ne' established_record rfl
    (by simpa [acceptedInitiator, StreamState.opening] using hle)).mpr ⟨hnumber, hroom⟩
  rw [hnext] at hs
  exact ⟨_, (ha.handleInbound_ok_iff hf hw hmax).mpr ⟨e, c, he, hs, rfl⟩⟩

end Opener

theorem Accepter.accepts (hb : b.Accepter id w) (hr : 0 < r)
    (hrmax : r ≤ b.state.config.limits.maxWindow) (hle : r ≤ w) :
    Accepts codec b (creditOf id 1 r) (advanceSequence .inbound (creditOf id 1 r).header
      (b.state.setStream id { acceptedResponder w with sendCredit := r })) := by
  have hwide := b.state.config.limits.maxWindow_le
  have happlies := Applies.creditIn (h := (creditOf id 1 r).header) (c := {}) (s := b.state)
    (acceptedResponder w) (hb.sound.ne_zero_of_record hb.record) rfl hb.record rfl
    (by simp only [acceptedResponder, StreamState.opening, creditOf]; omega)
    (by simpa [acceptedResponder, StreamState.opening, creditOf] using hle)
  have hzero : (acceptedResponder w).sendCredit + (creditOf id 1 r).header.creditDelta = r :=
    Nat.zero_add r
  rw [hzero] at happlies
  refine ⟨{}, _, rfl, ⟨creditOf_valid hr.ne' hrmax, rfl, ?_, ?_, ?_⟩, happlies, rfl⟩
  · rcases hb.sound.phase with hp | hp <;> simp [hp]
  · exact hb.received.symm
  · exact fun h => absurd h (show 1 ≠ u32Max by decide)

theorem open_completes_iff (codec : ServiceCodec) (u v : World) (ha : a.Opener id r)
    (hb : b.Accepter id w) (hl : b.state.config.limits = a.state.config.limits)
    (hf : AcceptOf codec a.state.config.limits frame id w)
    (hr : 0 < r) (hrmax : r ≤ a.state.config.limits.maxWindow)
    (hw : 0 < w) (hwmax : w ≤ a.state.config.limits.maxWindow) :
    Completes codec u v a b frame id r w ↔
      r ≤ w ∧ a.HasRoom headerLen ∧ b.Absorbable (creditOf id 1 r) := by
  have hid := ha.sound.ne_zero_of_record ha.record
  constructor
  · rintro ⟨a', b', credit, s, hrun, hqueued, -, -, -, hpeer⟩
    obtain ⟨hle, hroom, hqueued', -⟩ := ha.of_handled hf hw hwmax hrun
    obtain rfl : credit = creditOf id 1 r := by
      simpa using List.append_cancel_left (hqueued.symm.trans hqueued')
    refine ⟨hle, hroom, ?_⟩
    rw [← hb.sound.credit_iff hb.live (hb.accepts hr (hl ▸ hrmax) hle) rfl hid, hpeer]
  · rintro ⟨hle, hroom, habsorbs⟩
    obtain ⟨a', hrun⟩ := ha.handled (u := u) hf hw hwmax hr hle hroom
    obtain ⟨-, -, hqueued, hrecord⟩ := ha.of_handled hf hw hwmax hrun
    have haccepts : Accepts codec b (creditOf id 1 r) _ := hb.accepts hr (hl ▸ hrmax) hle
    obtain ⟨b', hpeer⟩ :=
      Op.ok_iff_exists.mp ((hb.sound.credit_iff (w := v) hb.live haccepts rfl hid).mpr habsorbs)
    obtain ⟨context, t, hcontext, hadm, happlies, hs⟩ := haccepts
    obtain rfl : {} = context := Except.ok.inj hcontext
    have hpeerRecord : (advanceSequence .inbound (creditOf id 1 r).header t).streams id =
        some { acceptedResponder w with sendCredit := r } := by
      rw [← hs]
      simp [setStream]
    exact ⟨a', b', _, _, hrun, hqueued, process_ok_iff.mpr ⟨hadm, t, happlies, rfl⟩,
      ⟨_, _, hrecord, hpeerRecord, rfl, rfl, rfl, rfl, rfl, rfl⟩,
      ⟨_, _, hpeerRecord, hrecord, rfl, rfl, rfl, rfl, rfl, rfl⟩, hpeer⟩

def askingHost (window : ℕ) : Actor :=
  exec plainCodec (new hostSession false)
    [(calm, .command (.open 0 "shell" window .bulk 1)), (calm, .dequeue)]

def acceptingDevice (window : ℕ) : Actor :=
  exec plainCodec (new deviceSession false)
    [(calm, .inbound (frameOf .open 1 0 [] false)), (calm, .command (.accept 0 1 window .bulk 1)),
      (calm, .dequeue)]

/-- The opener asks for less than it is granted. -/
theorem open_completes_smaller :
    Completes plainCodec calm calm (askingHost 512) (acceptingDevice 1024)
      (frameOf .accept 1 0 (acceptText 1024) false) 1 512 1024 := by
  have hopener : (askingHost 512).Opener 1 512 := by
    refine ⟨?_, ?_, ?_, ?_, ?_, ?_⟩
    · exact ((inv_new hostSession_negotiated false).exec _).live (by decide +kernel)
        (by decide +kernel)
    · decide +kernel
    · decide +kernel
    · exact ⟨{ StreamEntry.new .bulk 512 with opener := some 1 }, by decide +kernel, rfl⟩
    · decide +kernel
    · decide +kernel
  have haccepter : (acceptingDevice 1024).Accepter 1 1024 := by
    refine ⟨?_, ?_, ?_, ?_, ?_⟩
    · exact ((inv_new deviceSession_negotiated false).exec _).live (by decide +kernel)
        (by decide +kernel)
    · decide +kernel
    · decide +kernel
    · decide +kernel
    · decide +kernel
  refine (open_completes_iff plainCodec calm calm hopener haccepter (by decide +kernel)
    ⟨rfl, rfl, rfl, ?_, ?_⟩ (by decide) (by decide +kernel) (by decide) (by decide +kernel)).mpr
    ⟨by decide, by decide +kernel, ?_⟩
  · exact Header.validate_eq_ok_iff.mp (by decide +kernel)
  · decide +kernel
  · rintro e pending st he hp
    have hentry : (acceptingDevice 1024).streams.lookup 1 = some (.new .bulk 1024) := by
      decide +kernel
    obtain rfl : e = .new .bulk 1024 := Option.some.inj (he.symm.trans hentry)
    simp [StreamEntry.new] at hp

/-- The opener asks for more than it is granted, and loses the connection. -/
theorem larger_window_fails_open :
    ((handleInbound plainCodec calm (frameOf .accept 1 0 (acceptText 512) false)).run
      (askingHost 1024)).1 = .error (.protocol
        "outbound CREDIT on stream 1: credit overflow on stream 1: 0 + 1024 exceeds 512") ∧
    ¬ Completes plainCodec calm calm (askingHost 1024) (acceptingDevice 512)
      (frameOf .accept 1 0 (acceptText 512) false) 1 1024 512 := by
  have herror : ((handleInbound plainCodec calm (frameOf .accept 1 0 (acceptText 512) false)).run
      (askingHost 1024)).1 = .error (.protocol
        "outbound CREDIT on stream 1: credit overflow on stream 1: 0 + 1024 exceeds 512") := by
    decide +kernel
  refine ⟨herror, ?_⟩
  rintro ⟨a', b', credit, s, hrun, -⟩
  rw [hrun] at herror
  cases herror

end Actor

end KindleBridge.Transport
