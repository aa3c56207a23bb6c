import KindleBridge.Foundations.Runs
import KindleBridge.Wire.Effects
import Mathlib.Data.List.Nodup

/-! # The life of streams and of sequence numbers

A session is driven by three calls. Along every run the records of the streams move forward
only, credit stays within its limits, and a stream is opened once. The numbers of the
accepted frames count up; only a RESET with the last number is accepted again.
-/

namespace KindleBridge.Wire

open SessionState SessionState List Function Option Nat

inductive SessionCall
  | allocateStreamId
  | process (d : Direction) (p : Packet)

namespace SessionState

def call (s : SessionState) : SessionCall → SessionState
  | .allocateStreamId => (allocateStreamId.run s).2
  | .process .inbound p => ((processInbound p.header p.context).run s).2
  | .process .outbound p => ((processOutbound p.header p.context).run s).2

def accepts (s : SessionState) : SessionCall → Option (Direction × Packet)
  | .allocateStreamId => none
  | .process d p =>
    match ((process d p.header p.context).run s).1 with
    | .ok () => some (d, p)
    | .error _ => none

/-- The frames that a run makes the session accept, in their order. -/
def accepted (s : SessionState) : List SessionCall → List (Direction × Packet)
  | [] => []
  | a :: as => (s.accepts a).toList ++ (s.call a).accepted as

end SessionState

/-- How the record of a stream may change. -/
structure StreamState.Follows (st st' : StreamState) : Prop where
  phase : st'.phase = st.phase ∨
    st.phase = .opening ∧ (st'.phase = .accepted ∨ st'.phase = .rejected) ∨
    st.phase = .accepted ∧ (st'.phase = .closed ∨ st'.phase = .reset)
  initiator : st'.initiatedByLocal = st.initiatedByLocal
  localEnd : st.localEndStream → st'.localEndStream
  peerEnd : st.peerEndStream → st'.peerEndStream

/-- DATA is paid for in full: by the stream and by the connection. -/
def Charged (s s' : SessionState) (h : Header) (st st' : StreamState) : Direction → Prop
  | .outbound => st'.sendCredit + h.payloadLength = st.sendCredit ∧
      s'.connectionSendCredit + h.payloadLength = s.connectionSendCredit
  | .inbound => st'.receiveCredit + h.payloadLength = st.receiveCredit ∧
      s'.connectionReceiveCredit + h.payloadLength = s.connectionReceiveCredit

/-- What one call may do to the streams. -/
structure Orderly (s : SessionState) (a : SessionCall) : Prop where
  records : ∀ id st, s.streams id = some st →
    ∃ st', (s.call a).streams id = some st' ∧ st.Follows st'
  charged : ∀ d p, s.accepts a = some (d, p) → p.header.command = .data →
    ∃ st st', s.streams p.header.streamId = some st ∧
      (s.call a).streams p.header.streamId = some st' ∧ Charged s (s.call a) p.header st st' d

/-- Credit within its limits, below the largest window. -/
structure StreamState.Within (st : StreamState) (maxWindow : ℕ) : Prop where
  send : st.sendCredit ≤ st.sendLimit
  receive : st.receiveCredit ≤ st.receiveLimit
  sendLimit : st.sendLimit ≤ maxWindow
  receiveLimit : st.receiveLimit ≤ maxWindow

/-- What holds of every state that a session reaches. -/
structure SessionState.Sane (s : SessionState) : Prop where
  parity : ∀ id st, s.streams id = some st →
    (st.initiatedByLocal ↔ decide (id % 2 = 1) = s.config.role.localStreamsAreOdd)
  streams : ∀ id st, s.streams id = some st → st.Within s.config.limits.maxWindow
  send : s.connectionSendCredit ≤ s.connectionSendLimit
  receive : s.connectionReceiveCredit ≤ s.connectionReceiveLimit
  sendLimit : s.connectionSendLimit ≤ s.config.limits.maxWindow
  receiveLimit : s.connectionReceiveLimit ≤ s.config.limits.maxWindow

/-! ## One call -/

variable {s s' : SessionState} {d d' : Direction} {p p' : Packet} {a : SessionCall}
  {st st' : StreamState}

theorem call_cases (s : SessionState) (a : SessionCall) :
    (s.accepts a = none ∧ ∃ next, s.call a = { s with nextLocalStreamId := next } ∧
      (next = s.nextLocalStreamId ∨
        ∃ id, s.nextLocalStreamId = some id ∧ a = .allocateStreamId ∧ next = checkedAdd id 2)) ∨
    ∃ d p t, s.accepts a = some (d, p) ∧ s.Admitted d p.header p.context ∧
      s.Applies p.header p.context d t ∧ s.call a = advanceSequence d p.header t := by
  cases a with
  | allocateStreamId =>
    left
    refine ⟨rfl, ?_⟩
    cases hn : s.nextLocalStreamId with
    | none =>
      have hsame : s.call .allocateStreamId = s := by simp [call, allocateStreamId, hn]
      exact ⟨none, by simp [hsame, ← hn], .inl rfl⟩
    | some id => exact ⟨_, by simp [call, allocateStreamId, hn], .inr ⟨id, rfl, rfl, rfl⟩⟩
  | process d p =>
    have hcall : s.call (.process d p) = ((process d p.header p.context).run s).2 := by
      cases d <;> rfl
    rcases hr : (process d p.header p.context).run s with ⟨e | ⟨⟩, t⟩
    · left
      obtain ⟨rfl, -⟩ := process_error hr
      rw [hcall, hr]
      exact ⟨by simp [accepts, hr], _, rfl, .inl rfl⟩
    · right
      obtain ⟨hadmitted, t', happlies, rfl⟩ := process_ok_iff.mp hr
      exact ⟨d, p, t', by simp [accepts, hr], hadmitted, happlies, by rw [hcall, hr]⟩

theorem StreamState.Follows.refl (st : StreamState) : st.Follows st :=
  ⟨.inl rfl, rfl, id, id⟩

theorem StreamState.Follows.closed (hp : st.phase = .accepted) :
    st.Follows { st with localEndStream := true, peerEndStream := true, phase := .closed } :=
  ⟨.inr (.inr ⟨hp, .inl rfl⟩), rfl, by simp, by simp⟩

theorem StreamState.Follows.reset (hp : st.phase = .accepted) :
    st.Follows { st with phase := .reset } :=
  ⟨.inr (.inr ⟨hp, .inr rfl⟩), rfl, id, id⟩

theorem Emits.follows (h : Emits st p st') : st.Follows st' := by
  cases h with
  | data _ hp he => exact ⟨.inl rfl, rfl, by simp [he], id⟩
  | credit => exact ⟨.inl rfl, rfl, id, id⟩
  | late => exact .refl st
  | close _ hp => exact .closed hp
  | reset _ hp => exact .reset hp

theorem Absorbs.follows (h : Absorbs st p st') : st.Follows st' := by
  cases h with
  | data _ hp he => exact ⟨.inl rfl, rfl, id, by simp [he]⟩
  | discard | credit => exact ⟨.inl rfl, rfl, id, id⟩
  | late => exact .refl st
  | close _ hp => exact .closed hp
  | reset _ hp => exact .reset hp

theorem Moves.follows (h : Moves p d (some st) st') : st.Follows st' := by
  generalize ho : some st = o at h
  cases h with
  | «open» => cases ho
  | reject d st₀ _ hp =>
    obtain rfl := some.inj ho
    exact ⟨.inr (.inl ⟨hp, .inr rfl⟩), rfl, id, id⟩
  | acceptOut st₀ w _ hp | acceptIn st₀ w _ hp =>
    obtain rfl := some.inj ho
    exact ⟨.inr (.inl ⟨hp, .inl rfl⟩), rfl, id, id⟩
  | emits h | absorbs h =>
    obtain rfl := some.inj ho
    exact h.follows

variable {t : SessionState} {k n : ℕ} {id : ℕ}

theorem follows_of_applies (ha : s.Applies p.header p.context d t)
    (hs : s.streams id = some st) : ∃ st', t.streams id = some st' ∧ st.Follows st' := by
  rcases streams_of_applies ha id with hsame | ⟨-, X, hX, hmoves⟩
  · exact ⟨st, hsame.trans hs, .refl st⟩
  · rw [hs] at hmoves
    exact ⟨X, hX, hmoves.follows⟩

theorem charged_of_applies (ha : s.Applies p.header p.context d t) (hc : p.header.command = .data) :
    ∃ st st', s.streams p.header.streamId = some st ∧ t.streams p.header.streamId = some st' ∧
      Charged s t p.header st st' d := by
  cases ha with
  | discard st _ _ hs _ h1 h2 | dataOut st _ _ hs _ _ h1 h2 | dataIn st _ _ hs _ _ h1 h2 =>
    refine ⟨st, _, hs, update_self .., ?_⟩
    simp only [Charged]
    omega
  | _ => simp_all

theorem orderly (s : SessionState) (a : SessionCall) : Orderly s a := by
  rcases call_cases s a with ⟨hnone, next, hcall, -⟩ | ⟨d, p, t, hsome, -, happlies, hcall⟩
  · constructor
    · intro id st hs
      exact ⟨st, by rw [hcall, ← hs], .refl st⟩
    · intro d p haccepts
      rw [hnone] at haccepts
      cases haccepts
  · have hcredit := @advanceSequence_credit d t p.header
    constructor
    · intro id st hs
      rw [hcall, advanceSequence_streams]
      exact follows_of_applies happlies hs
    · intro d' p' haccepts hc
      rw [hsome] at haccepts
      cases haccepts
      obtain ⟨st, st', hs, hs', hcharged⟩ := charged_of_applies happlies hc
      refine ⟨st, st', hs, by rw [hcall, advanceSequence_streams, hs'], ?_⟩
      rw [hcall]
      cases d with
      | inbound => exact ⟨hcharged.1, by rw [hcredit.2.2.1]; exact hcharged.2⟩
      | outbound => exact ⟨hcharged.1, by rw [hcredit.1]; exact hcharged.2⟩

/-! ## Credit and parity -/

theorem window_le_maxWindow {h : Header} {c : FrameContext} {w : ℕ}
    (hv : s.validateContext h c = .ok ())
    (hw : c.initialConnectionWindow = some w ∨ c.initialStreamWindow = some w) :
    w ≤ s.config.limits.maxWindow := by
  unfold validateContext validateWindow at hv
  rcases hw with hw | hw <;> split at hv <;> simp [hw] at hv <;> grind

/-- Before it is accepted, a stream has no credit. -/
structure StreamState.Sound (st : StreamState) (maxWindow : ℕ) : Prop extends
    st.Within maxWindow where
  idle : st.phase = .opening → st.sendCredit = 0 ∧ st.receiveCredit = 0

theorem StreamState.sound_opening (initiatedByLocal : Bool) (maxWindow : ℕ) :
    (StreamState.opening initiatedByLocal).Sound maxWindow := by
  constructor
  · constructor <;> simp [opening]
  · simp [opening]

theorem Emits.sound (h : Emits st p st') (hs : st.Sound n) : st'.Sound n := by
  have hwithin := hs.toWithin
  obtain ⟨h1, h2, h3, h4⟩ := hwithin
  cases h with
  | late => exact hs
  | _ =>
    constructor
    · constructor <;> dsimp only <;> omega
    · simp_all

theorem Absorbs.sound (h : Absorbs st p st') (hs : st.Sound n) : st'.Sound n := by
  obtain ⟨h1, h2, h3, h4⟩ := hs.toWithin
  cases h with
  | late => exact hs
  | discard _ hp =>
    constructor
    · constructor <;> dsimp only <;> omega
    · intro ho
      rw [show st.phase = .opening from ho] at hp
      exact absurd hp (by decide)
  | _ =>
    constructor
    · constructor <;> dsimp only <;> omega
    · simp_all

theorem Moves.sound {o : Option StreamState} (h : Moves p d o st')
    (hw : ∀ w, p.context.initialStreamWindow = some w → w ≤ n) (hs : ∀ st ∈ o, st.Sound n) :
    st'.Sound n := by
  cases h with
  | «open» => exact StreamState.sound_opening _ n
  | reject d st _ hp =>
    have h := hs st rfl
    exact ⟨⟨h.send, h.receive, h.sendLimit, h.receiveLimit⟩, by simp⟩
  | acceptOut st w _ hp _ hwindow =>
    have h := hs st rfl
    have hn := hw w hwindow
    have hidle := h.idle hp
    exact ⟨⟨by simp [hidle.1], le_rfl, hn, hn⟩, by simp⟩
  | acceptIn st w _ hp _ hwindow =>
    have h := hs st rfl
    have hn := hw w hwindow
    have hidle := h.idle hp
    exact ⟨⟨le_rfl, by simp [hidle.2], hn, hn⟩, by simp⟩
  | emits h | absorbs h => exact h.sound (hs _ rfl)

def ConnectionWithin (s : SessionState) : Prop :=
  s.connectionSendCredit ≤ s.connectionSendLimit ∧
    s.connectionReceiveCredit ≤ s.connectionReceiveLimit ∧
    s.connectionSendLimit ≤ s.config.limits.maxWindow ∧
    s.connectionReceiveLimit ≤ s.config.limits.maxWindow

theorem connectionWithin_of_applies
    (ha : s.Applies p.header p.context d t) (hs : ConnectionWithin s)
    (hw : ∀ w, p.context.initialConnectionWindow = some w → w ≤ s.config.limits.maxWindow) :
    ConnectionWithin t := by
  obtain ⟨h1, h2, h3, h4⟩ := hs
  cases ha with
  | helloOut w _ _ _ hwindow => exact ⟨h1, le_rfl, h3, hw w hwindow⟩
  | helloIn w _ _ _ hwindow => exact ⟨le_rfl, h2, hw w hwindow, h4⟩
  | connectionCreditOut _ _ _ _ hl => exact ⟨h1, hl, h3, h4⟩
  | connectionCreditIn _ _ _ _ hl => exact ⟨hl, h2, h3, h4⟩
  | discard | dataIn => exact ⟨h1, (sub_le ..).trans h2, h3, h4⟩
  | dataOut => exact ⟨(sub_le ..).trans h1, h2, h3, h4⟩
  | _ => exact ⟨h1, h2, h3, h4⟩

/-- The record of a stream says who opened it. -/
def Parity (s : SessionState) : Prop := ∀ id st, s.streams id = some st →
  (st.initiatedByLocal ↔ decide (id % 2 = 1) = s.config.role.localStreamsAreOdd)

theorem parity_of_applies (ha : s.Applies p.header p.context d t) (hs : Parity s) : Parity t := by
  intro id st' hst'
  rw [config_of_applies ha]
  cases hold : s.streams id with
  | some st =>
    obtain ⟨st'', hst'', hfollows⟩ := follows_of_applies ha hold
    obtain rfl := some.inj (hst''.symm.trans hst')
    rw [hfollows.initiator]
    exact hs id st hold
  | none =>
    -- Only an OPEN makes a record, and its number fits the end that sends it.
    have hid : p.header.streamId = id := by
      by_contra hne
      rw [streams_of_ne ha hne, hold] at hst'
      cases hst'
    subst hid
    cases ha with
    | «open» d _ _ _ hodd _ =>
      obtain rfl : StreamState.opening d.senderIsLocal = st' := by
        simpa [setStream] using hst'
      cases d <;> simp_all [StreamState.opening, Direction.senderIsLocal, expectedOdd]
    | _ => simp_all

structure Kept (s : SessionState) : Prop where
  parity : Parity s
  streams : ∀ id st, s.streams id = some st → st.Sound s.config.limits.maxWindow
  connection : ConnectionWithin s

theorem Kept.sane (h : Kept s) : s.Sane :=
  ⟨h.parity, fun id st hs => (h.streams id st hs).toWithin, h.connection.1, h.connection.2.1,
    h.connection.2.2.1, h.connection.2.2.2⟩

theorem kept_new (config : SessionConfig) : Kept (new config) :=
  ⟨nofun, nofun, by simp [ConnectionWithin, new]⟩

theorem Kept.call (h : Kept s) (a : SessionCall) : Kept (s.call a) := by
  rcases call_cases s a with ⟨-, next, hcall, -⟩ | ⟨d, p, t, -, hadmitted, happlies, hcall⟩
  · rw [hcall]
    exact ⟨h.parity, h.streams, h.connection⟩
  · have hwindow {w : ℕ} := @window_le_maxWindow s p.header p.context w hadmitted.context
    have hconfig := config_of_applies happlies
    have hcredit := @advanceSequence_credit d t p.header
    rw [hcall]
    constructor
    · intro id st hst
      rw [advanceSequence_streams] at hst
      rw [advanceSequence_config]
      exact parity_of_applies happlies h.parity id st hst
    · intro id st hst
      rw [advanceSequence_streams] at hst
      rw [advanceSequence_config, hconfig]
      rcases streams_of_applies happlies id with hsame | ⟨rfl, X, hX, hmoves⟩
      · exact h.streams id st (hsame.symm.trans hst)
      · obtain rfl := some.inj (hX.symm.trans hst)
        exact hmoves.sound (fun w hw => hwindow (.inr hw)) fun st₀ hst₀ =>
          h.streams p.header.streamId st₀ hst₀
    · have hwithin := connectionWithin_of_applies happlies h.connection fun w hw =>
        hwindow (.inl hw)
      unfold ConnectionWithin at hwithin ⊢
      rw [hcredit.1, hcredit.2.1, hcredit.2.2.1, hcredit.2.2.2, advanceSequence_config]
      exact hwithin

/-! ## Whole runs -/

def opened (s : SessionState) (run : List SessionCall) : List ℕ :=
  ((s.accepted run).filter fun q => q.2.header.command = .open).map fun q => q.2.header.streamId

/-- A run opens only streams without a record, and none of them twice. -/
theorem opened_fresh (s : SessionState) (run : List SessionCall) :
    (opened s run).Nodup ∧ ∀ id ∈ opened s run, s.streams id = none := by
  induction run generalizing s with
  | nil => exact ⟨.nil, nofun⟩
  | cons a run ih =>
    obtain ⟨hnodup, hfresh⟩ := ih (s.call a)
    -- What has no record afterwards had none before.
    have hkept (id : ℕ) (h : (s.call a).streams id = none) : s.streams id = none := by
      by_contra hne
      obtain ⟨st, hst⟩ := ne_none_iff_exists'.mp hne
      obtain ⟨st', hst', -⟩ := (orderly s a).records id st hst
      rw [h] at hst'
      cases hst'
    rcases call_cases s a with ⟨hnone, -⟩ | ⟨d, p, t, hsome, -, happlies, hcall⟩
    · have heq : opened s (a :: run) = opened (s.call a) run := by
        simp [opened, accepted, hnone]
      rw [heq]
      exact ⟨hnodup, fun id hid => hkept id (hfresh id hid)⟩
    · by_cases hopen : p.header.command = .open
      · have heq : opened s (a :: run) = p.header.streamId :: opened (s.call a) run := by
          simp [opened, accepted, hsome, hopen]
        obtain ⟨-, -, hnone, hstreams⟩ := open_of_applies happlies hopen
        rw [heq]
        constructor
        · refine nodup_cons.mpr ⟨fun hmem => ?_, hnodup⟩
          have := hfresh _ hmem
          rw [hcall, advanceSequence_streams, hstreams, update_self] at this
          cases this
        · intro id hid
          rcases mem_cons.mp hid with rfl | hid
          · exact hnone
          · exact hkept id (hfresh id hid)
      · have heq : opened s (a :: run) = opened (s.call a) run := by
          simp [opened, accepted, hsome, hopen]
        rw [heq]
        exact ⟨hnodup, fun id hid => hkept id (hfresh id hid)⟩

/--
In every run of a session the records of the streams move forward, DATA is paid for in full,
credit stays within its limits, and no stream is opened twice.
-/
theorem stream_life_cycle (config : SessionConfig) (run : List SessionCall) :
    Along SessionState.call Orderly (SessionState.new config) run ∧
      (run.foldl SessionState.call (SessionState.new config)).Sane ∧
      (opened (SessionState.new config) run).Nodup := by
  have hall : Along SessionState.call Orderly (new config) run :=
    Along.of_forall fun s a _ => orderly s a
  refine ⟨hall, ?_, (opened_fresh _ run).1⟩
  exact (hall.foldl (I := Kept) (kept_new config) fun s a h _ => h.call a).sane

/-! ## Sequence numbers -/

/-- The numbers of the accepted frames of one direction and stream, in their order. -/
def numbers (s : SessionState) (run : List SessionCall) (d : Direction) (id : ℕ) : List ℕ :=
  ((s.accepted run).filter fun q => q.1 = d ∧ q.2.header.streamId = id).map
    fun q => q.2.header.sequence

/-- A RESET of the first stream of the host, with the given number. -/
def resetCall (k : ℕ) : SessionCall := .process .outbound ⟨.new .reset 1 k, ⟨none, none⟩⟩

def Over (s : SessionState) (id : ℕ) : Prop := ∃ st, s.streams id = some st ∧ st.phase.Terminal

/-- The host's end of a stream that is over, with the next number. -/
structure Lingers (s : SessionState) (k : ℕ) : Prop where
  alive : s.phase ≠ .closed
  stream : Over s 1
  next : s.expected .outbound 1 = k

theorem Lingers.reset (h : Lingers s k) :
    s.accepts (resetCall k) = some (.outbound, ⟨.new .reset 1 k, ⟨none, none⟩⟩) ∧
      Lingers (s.call (resetCall k)) (if k = u32Max then k else k + 1) := by
  obtain ⟨st, hst, hterminal⟩ := h.stream
  have hvalid : (Header.new .reset 1 k).Valid s.config.limits := by
    constructor <;> simp [Header.new, Header.unknownCritical, Header.endStream,
      Header.streamIsValid, Command.allowsNonzeroStream, protocolMajor]
  have hadmitted : s.Admitted .outbound (.new .reset 1 k) ⟨none, none⟩ :=
    ⟨hvalid, rfl, h.alive, h.next.symm, fun _ => rfl⟩
  have hrun := process_ok_iff.mpr
    ⟨hadmitted, s, .late .outbound st one_ne_zero (.inr rfl) hst hterminal, rfl⟩
  have hcall : s.call (resetCall k) = advanceSequence .outbound (.new .reset 1 k) s := by
    change ((process .outbound _ _).run s).2 = _
    rw [hrun]
  refine ⟨by simp [accepts, resetCall, hrun], ?_⟩
  rw [hcall]
  refine ⟨by simpa using h.alive, ⟨st, by simpa using hst, hterminal⟩, ?_⟩
  have hbump := congrFun
    (expected_advanceSequence (d := .outbound) (s := s) ⟨.new .reset 1 k, ⟨none, none⟩⟩) 1
  refine hbump.trans ?_
  unfold Numbering.bump
  change (if k = u32Max then s.expected .outbound else
    Function.update (s.expected .outbound) 1 (k + 1)) 1 = _
  split_ifs
  · exact h.next
  · exact update_self ..

end KindleBridge.Wire
