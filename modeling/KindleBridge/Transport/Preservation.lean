import KindleBridge.Transport.Frames
import KindleBridge.Transport.Invariant

/-! # Every event keeps the tables sound

Each handler keeps `Sound` and changes the ledger by what it gives back to the peer. A
whole run keeps the invariant, whatever fails on the way: a failure empties the tables
until a fresh session begins.
-/

namespace KindleBridge.Transport

open Wire SessionState Option List Function

variable {trafficClass : TrafficClass} {sequence : ℕ} {payload : List UInt8} {e : StreamEntry}

namespace Actor

variable {a b c : Actor} {item : ScheduledFrame} {context : FrameContext} {frame : Frame}
  {id response gained gained' : ℕ} {endStream : Bool}

/-- The later actor is sound, and its ledger has grown by the given amount. -/
structure Accounts (a b : Actor) (gained : ℕ) : Prop where
  sound : b.Sound
  ledger : b.ledger = a.ledger + gained
  limit : b.state.connectionReceiveLimit = a.state.connectionReceiveLimit

theorem Accounts.refl (h : a.Sound) : a.Accounts a 0 := ⟨h, rfl, rfl⟩

theorem Accounts.trans (h : a.Accounts b gained) (h' : b.Accounts c gained') :
    a.Accounts c (gained + gained') :=
  ⟨h'.sound, by rw [h'.ledger, h.ledger, Nat.add_assoc], h'.limit.trans h.limit⟩

theorem Accounts.congr (h : a.Accounts b gained) (hbooks : c.books = b.books) :
    a.Accounts c gained := by
  have hsound := h.sound.congr hbooks
  simp only [books, Prod.mk.injEq] at hbooks
  obtain ⟨hs, ht, -⟩ := hbooks
  refine ⟨hsound, ?_, by rw [hs, h.limit]⟩
  rw [Actor.ledger, Actor.unread, hs, ht]
  exact h.ledger

/-- The commands whose frames change neither entries nor receive credit. -/
def Quiet (command : Command) : Prop :=
  command ≠ .open ∧ command ≠ .accept ∧ command ≠ .credit ∧ command ≠ .error ∧ command ≠ .hello

instance : DecidablePred Quiet := fun _ => inferInstanceAs (Decidable (_ ∧ _))

theorem Sound.queues {command : Command} (h : a.Sound)
    (hs : a.Submits ⟨trafficClass, frameOf command id sequence payload endStream⟩ context b)
    (hq : Quiet command) : a.Accounts b 0 := by
  obtain ⟨hopen, haccept, hcredit, herror, hhello⟩ := hq
  have hcover : a.Covers ⟨trafficClass, frameOf command id sequence payload endStream⟩ context :=
    { command := ⟨hopen, herror⟩
      accepts := fun hc => absurd hc haccept
      connection := fun hc => absurd hc hcredit
      stream := fun hc => absurd hc hcredit }
  obtain ⟨hledger, hlimit⟩ := ledger_submits hs hhello
  refine ⟨h.submits hs hcover, ?_, hlimit⟩
  simpa [Packet.grant, Packet.creditDelta, frameOf, Header.new, hhello, hcredit] using hledger

theorem Sound.overwrite (h : a.Sound) (e' : StreamEntry) (he : a.streams.lookup id = some e)
    (hf : ∀ st, a.state.streams id = some st → Fits id st e → Fits id st e')
    (hu : e'.unread = e.unread) : a.Accounts (a.setEntry id e') 0 := by
  obtain ⟨st, hst, hfits⟩ := h.entries _ _ he
  have hledger := ledger_setEntry a id e'
  rw [weightAt_of_lookup he] at hledger
  have hsame : (a.setEntry id e').ledger = a.ledger := by omega
  exact ⟨h.setEntry hst (hf st hst hfits) (hsame ▸ h.ledger), hsame, rfl⟩

theorem ledger_hand (a : Actor) (id response : ℕ) (frame : Frame) : (a.hand id response frame).ledger +
    (if terminal frame then weightAt StreamEntry.unread a.streams id else 0) = a.ledger := by
  unfold hand
  split_ifs
  · exact ledger_retireStream (a := a.reply response (.frame frame))
  · rfl

theorem Sound.hand (h : a.Sound) (hf : terminal frame → a.state.Finished id) :
    (a.hand id response frame).Sound := by
  have hreply : (a.reply response (.frame frame)).Sound := h.congr rfl
  unfold Actor.hand
  split_ifs with ht
  · exact hreply.retireStream (hf ht)
  · exact hreply

theorem hand_state : (a.hand id response frame).state = a.state := by
  unfold hand
  split_ifs <;> rfl

/-- A frame for an open stream, or the frame that ended its stream. -/
def Arrives (a : Actor) (frame : Frame) : Prop :=
  (frame.header.command = .data ∧
    ∃ st, a.state.streams frame.header.streamId = some st ∧ st.phase = .accepted) ∨
  (terminal frame ∧ a.state.Finished frame.header.streamId)

theorem Sound.stores (h : a.Sound) (ho : a.Owes frame) (ha : a.Arrives frame)
    (he : a.streams.lookup frame.header.streamId = some e) (hr : e.receiver = none)
    (hroom : e.inboxBytes + frame.payload.length ≤ e.receiveWindow) :
    a.Accounts (a.setEntry frame.header.streamId { e with
      inboxBytes := e.inboxBytes + frame.payload.length
      inbox := e.inbox ++ [frame] }) (dataBytes frame) := by
  obtain ⟨st, hst, hfits⟩ := h.entries _ _ he
  have hledger := ledger_setEntry a frame.header.streamId { e with
    inboxBytes := e.inboxBytes + frame.payload.length, inbox := e.inbox ++ [frame] }
  rw [weightAt_of_lookup he] at hledger
  have hgrown : (a.setEntry frame.header.streamId { e with
      inboxBytes := e.inboxBytes + frame.payload.length
      inbox := e.inbox ++ [frame] }).ledger = a.ledger + dataBytes frame := by
    simp only [StreamEntry.unread, map_append, map_cons, map_nil, sum_append,
      sum_cons, sum_nil] at hledger ⊢
    omega
  refine ⟨h.setEntry hst (hfits.store rfl hr hroom ?_) (hgrown ▸ ho.connection), hgrown, rfl⟩
  rcases ha with ⟨hc, st', hst', hp⟩ | ⟨ht, st', hst', hp⟩
  · obtain rfl : st' = st := some.inj (hst'.symm.trans hst)
    obtain ⟨hw, hl⟩ := ho.stream st' e hst hp he
    exact .inl ⟨hc, hp, hl, hw⟩
  · obtain rfl : st' = st := some.inj (hst'.symm.trans hst)
    exact .inr ⟨ht, hp⟩

theorem Restores.eq_of_terminal (hr : a.Restores frame b) (ht : terminal frame) : b = a := by
  have hc : frame.header.command ≠ .data := by
    intro hc
    simp [terminal, hc] at ht
  cases hr with
  | nothing => rfl
  | connection hd | both hd => exact absurd hd hc

theorem Sound.hands (h : a.Sound) (id response : ℕ) (ho : a.Owes frame) (hr : a.Restores frame b)
    (hlast : terminal frame → a.state.Finished id ∧ weightAt StreamEntry.unread a.streams id = 0) :
    a.Accounts (b.hand id response frame) (dataBytes frame) := by
  obtain ⟨hb, hledger, hlimit, hstreams⟩ := h.restores ho hr
  have hfinished (ht : terminal frame) : b.state.Finished id := hr.eq_of_terminal ht ▸ (hlast ht).1
  refine ⟨hb.hand hfinished, ?_, by rw [hand_state, hlimit]⟩
  have hhand := ledger_hand b id response frame
  rw [hstreams] at hhand
  split_ifs at hhand with ht
  · have := (hlast ht).2
    omega
  · omega

theorem weightAt_setEntry : weightAt StreamEntry.unread (a.setEntry id e).streams id = e.unread :=
  weightAt_of_lookup lookup_setEntry

theorem Sound.wakes (h : a.Sound) (ho : a.Owes frame)
    (he : a.streams.lookup frame.header.streamId = some e) :
    a.Accounts (a.setEntry frame.header.streamId { e with receiver := none }) 0 ∧
      (a.setEntry frame.header.streamId { e with receiver := none }).Owes frame := by
  have hset := h.overwrite { e with receiver := none } he
    (fun _ _ hfits => { hfits with idle := by simp }) rfl
  refine ⟨hset, by rw [hset.ledger]; exact ho.connection, ?_⟩
  intro st' e' hst' hp he'
  obtain rfl : { e with receiver := none } = e' := by simpa using he'
  exact ho.stream st' e hst' hp he

theorem Sound.delivers (h : a.Sound) (ho : a.Owes frame) (ha : a.Arrives frame)
    (hd : a.Delivers frame b) : a.Accounts b (dataBytes frame) := by
  cases hd with
  | stored he hr hroom => exact h.stores ho ha he hr hroom
  | @handed e response c he hr hs =>
    obtain ⟨st, hst, hfits⟩ := h.entries _ _ he
    have hinbox : e.inbox = [] := hfits.idle (by simp [hr])
    obtain ⟨hset, howes⟩ := h.wakes ho he
    have hhand := hset.sound.hands frame.header.streamId response howes hs ?_
    · simpa using hset.trans hhand
    · intro ht
      rcases ha with ⟨hc, -⟩ | ⟨-, hfin⟩
      · simp [terminal, hc] at ht
      · exact ⟨hfin, by rw [weightAt_setEntry]; simp [StreamEntry.unread, hinbox]⟩

theorem Fits.finished {st : StreamState} (h : Fits id st e)
    (hmem : frame ∈ e.inbox) (ht : terminal frame) : st.phase.Terminal := by
  have hne : e.inbox ≠ [] := ne_nil_of_mem hmem
  cases hp : st.phase with
  | opening => exact absurd (h.empty (.inl hp)) hne
  | rejected => exact absurd (h.empty (.inr hp)) hne
  | accepted => exact absurd ht (h.dataOnly hp frame hmem)
  | closed => exact .inl rfl
  | reset => exact .inr rfl

theorem Sound.takes {rest : List Frame} (h : a.Sound)
    (he : a.streams.lookup id = some e) (hinbox : e.inbox = frame :: rest) :
    let c := a.setEntry id { e with
      inbox := rest, inboxBytes := e.inboxBytes - frame.payload.length }
    c.Sound ∧ c.Owes frame ∧ c.ledger + dataBytes frame = a.ledger := by
  obtain ⟨st, hst, hfits⟩ := h.entries _ _ he
  have hid := hfits.streamId frame (by simp [hinbox])
  have hunread : e.unread = dataBytes frame + (rest.map dataBytes).sum := by
    simp [StreamEntry.unread, hinbox]
  generalize he' : { e with
    inbox := rest, inboxBytes := e.inboxBytes - frame.payload.length } = e'
  have hfits' : Fits id st e' := he' ▸ hfits.take hinbox
  have hledger := ledger_setEntry a id e'
  have hu' : e'.unread = (rest.map dataBytes).sum := by subst he'; rfl
  rw [weightAt_of_lookup he, hunread, hu'] at hledger
  have hbound := h.ledger
  refine ⟨h.setEntry hst hfits' (by omega), ⟨?_, ?_⟩, by omega⟩
  · change _ ≤ a.state.connectionReceiveLimit
    omega
  · intro st' e'' hst' hp he''
    rw [hid] at hst' he''
    obtain rfl : e' = e'' := by simpa using he''
    obtain rfl : st = st' := some.inj (hst.symm.trans hst')
    have hw := hfits.unread hp
    have hl := hfits.limit hp
    have hb := hfits.bytes
    rw [hinbox] at hb
    have hd : dataBytes frame ≤ frame.payload.length := by
      unfold dataBytes
      split_ifs <;> omega
    subst he'
    simp only [map_cons, sum_cons] at hb ⊢
    omega

theorem Sound.receives (h : a.Sound) (hr : a.Receives id response b) : a.Accounts b 0 := by
  cases hr with
  | waits he hr hinbox =>
    exact h.overwrite _ he (fun _ _ hfits => { hfits with idle := fun _ => hinbox }) rfl
  | @takes e frame rest c he hr hinbox hs =>
    obtain ⟨st, hst, hfits⟩ := h.entries _ _ he
    have hmem : frame ∈ e.inbox := by simp [hinbox]
    obtain ⟨hset, howes, hledger⟩ := h.takes he hinbox
    have hhand := hset.hands id response howes hs ?_
    · refine ⟨hhand.sound, ?_, hhand.limit⟩
      have := hhand.ledger
      omega
    · intro ht
      refine ⟨⟨st, hst, Fits.finished hfits hmem ht⟩, ?_⟩
      rw [weightAt_setEntry]
      have hordered := hfits.ordered
      rw [hinbox, pairwise_cons] at hordered
      refine sum_eq_zero fun n hn => ?_
      obtain ⟨g, hg, rfl⟩ := mem_map.mp hn
      exact dataBytes_of_terminal (hordered.1 g hg ht)

theorem Sound.sends (h : a.Sound)
    (hs : a.Sends id payload endStream response b) : a.Accounts b 0 := by
  cases hs with
  | queued _ _ _ _ hs => exact (h.queues hs (by decide)).congr rfl
  | waits he _ _ hle _ =>
    refine h.overwrite _ he (fun _ _ hfits => { hfits with pending := ?_ }) rfl
    rintro p hp
    obtain rfl := some.inj hp
    exact hle

theorem Sound.release (h : a.Sound) (he : a.streams.lookup id = some e) :
    a.Accounts (a.setEntry id { e with pendingSend := none }) 0 :=
  h.overwrite _ he (fun _ _ hfits => { hfits with pending := by simp }) rfl

theorem Sound.flushes (h : a.Sound) (hf : a.Flushes id b) : a.Accounts b 0 := by
  cases hf with
  | nothing => exact .refl h
  | short he => exact h.overwrite _ he (fun _ _ hfits => hfits) rfl
  | queued he _ _ hs =>
    have hset := h.release he
    exact (hset.trans (hset.sound.queues hs (by decide))).congr rfl

theorem Sound.flushesAll {ids : List ℕ} (h : a.Sound) (hf : FlushesAll ids a b) :
    a.Accounts b 0 := by
  induction hf with
  | nil => exact .refl h
  | cons hs _ ih =>
    have hfirst := h.flushes hs
    exact hfirst.trans (ih hfirst.sound)

structure Blank (e : StreamEntry) : Prop where
  inbox : e.inbox = []
  bytes : e.inboxBytes = 0
  pending : e.pendingSend = none

theorem Blank.fits (h : Blank e) (local' : Bool) : Fits id (.opening local') e where
  bytes := by simp [h.inbox, h.bytes]
  streamId := by simp [h.inbox]
  command := by simp [h.inbox]
  idle _ := h.inbox
  ordered := by simp [h.inbox]
  window := by simp [h.bytes]
  empty _ := h.inbox
  closed _ := rfl
  dataOnly := by simp [h.inbox]
  unread := by simp [StreamState.opening]
  limit := by simp [StreamState.opening]
  pending := by simp [h.pending]

theorem Sound.lookup_eq_none (h : a.Sound) (hnone : a.state.streams id = none) :
    a.streams.lookup id = none := by
  by_contra hsome
  obtain ⟨e, he⟩ := ne_none_iff_exists'.mp hsome
  obtain ⟨st, hst, -⟩ := h.entries id e he
  simp [hnone] at hst

theorem Sound.opens {next : Option ℕ} (h : a.Sound)
    (hs : ({ a with state := { a.state with nextLocalStreamId := next } }.setEntry id e).Submits
      ⟨trafficClass, frameOf .open id sequence payload false⟩ {} b)
    (he : Blank e) : a.Accounts b 0 := by
  generalize ha' : { a with state := { a.state with nextLocalStreamId := next } } = a' at hs
  have h' : a'.Sound := by subst ha'; exact { h with }
  obtain ⟨hledger, hlimit⟩ := ledger_submits hs (by simp [frameOf, Header.new])
  obtain ⟨t, hseq, hlt, hadm, ha, hroom⟩ := hs
  obtain ⟨-, hid, hnone, hstreams⟩ := open_of_applies ha rfl
  change id ≠ 0 at hid
  change a'.state.streams id = none at hnone
  change t.streams = Function.update a'.state.streams id (some (.opening true)) at hstreams
  have hfresh := h'.lookup_eq_none hnone
  have hsame : (a'.setEntry id e).ledger = a'.ledger := by
    have := ledger_setEntry a' id e
    rw [weightAt_of_lookup_none hfresh] at this
    simpa [StreamEntry.unread, he.inbox] using this
  have hbalance : ((a'.setEntry id e).submitted ⟨trafficClass,
      frameOf .open id sequence payload false⟩ t).ledger = a'.ledger := by
    rw [hledger, hsame]
    simp [Packet.grant, Packet.creditDelta, frameOf, Header.new]
  have hsound : ((a'.setEntry id e).submitted ⟨trafficClass,
      frameOf .open id sequence payload false⟩ t).Sound := by
    refine sound_submitted h'.numbers h'.phase h'.zero h'.connectionLimit h'.queue h'.capacity.2 hroom
      hlt ha (by simp [frameOf, Header.new]) ?_ ?_ ?_ hlimit (hbalance ▸ h'.ledger)
    · intro id' e' he'
      by_cases hne : id' = id
      · subst hne
        obtain rfl : e = e' := by simpa using he'
        exact ⟨.opening true, by rw [hstreams, update_self], he.fits true⟩
      · rw [lookup_setEntry_ne hne] at he'
        rw [hstreams, update_of_ne hne]
        exact h'.entries id' e' he'
    · intro id' st hst hp
      by_cases hne : id' = id
      · subst hne
        exact ⟨e, lookup_setEntry⟩
      · rw [hstreams, update_of_ne hne] at hst
        rw [lookup_setEntry_ne hne]
        exact h'.present id' st hst hp
    · intro id' st hst
      rw [config_of_applies ha]
      by_cases hne : id' = id
      · subst hne
        obtain rfl : StreamState.opening true = st := by simpa [hstreams] using hst
        exact Nat.zero_le _
      · rw [hstreams, update_of_ne hne] at hst
        exact h'.limits id' st hst
  subst ha'
  exact ⟨hsound, hbalance, hlimit⟩

theorem Sound.acceptsOpen {receiveWindow : ℕ} (h : a.Sound) (he : a.streams.lookup id = some e)
    (hs : (a.setEntry id
      { e with trafficClass := trafficClass, receiveWindow := receiveWindow }).Submits
        ⟨.control, frameOf .accept id sequence payload false⟩ (.accept receiveWindow) b) :
    a.Accounts b 0 := by
  have ho (st : StreamState) (hst : a.state.streams id = some st) : st.phase = .opening := by
    obtain ⟨t, -, -, -, ha, -⟩ := hs
    obtain ⟨st', hst', ho⟩ := accept_of_applies ha rfl
    obtain rfl : st' = st := some.inj (hst'.symm.trans hst)
    exact ho
  have hset := h.overwrite
    { e with trafficClass := trafficClass, receiveWindow := receiveWindow } he
    (fun st hst hfits => { hfits with
      window := by simp [hfits.bytes, hfits.empty (.inl (ho st hst))]
      unread := fun ha => absurd ((ho st hst).symm.trans ha) (by decide)
      limit := fun ha => absurd ((ho st hst).symm.trans ha) (by decide) }) rfl
  have hcover : (a.setEntry id
      { e with trafficClass := trafficClass, receiveWindow := receiveWindow }).Covers
        ⟨.control, frameOf .accept id sequence payload false⟩ (.accept receiveWindow) :=
    { command := by simp [frameOf, Header.new]
      accepts := fun _ => ⟨_, lookup_setEntry, rfl⟩
      connection := by simp [frameOf, Header.new]
      stream := by simp [frameOf, Header.new] }
  obtain ⟨hledger, hlimit⟩ := ledger_submits hs (by simp [frameOf, Header.new])
  refine ⟨hset.sound.submits hs hcover, ?_, hlimit.trans hset.limit⟩
  have hsame := hset.ledger
  simp only [Packet.grant, Packet.creditDelta, frameOf, Header.new] at hledger
  simp at hledger
  omega

variable {codec : ServiceCodec} {w : World} {event : Event} {command : ActorCommand}
  {s : SessionState}

theorem Sound.obeys (h : a.Sound) (ho : Obeys codec w a command b) : a.Accounts b 0 := by
  cases ho with
  | gone | pingFull | pingLate | goAwayFull => exact (Accounts.refl h).congr rfl
  | ping _ hs =>
    have hsame := (Accounts.refl h).congr (c := { a with nextPingId := a.nextPingId + 1 }) rfl
    exact (hsame.trans (hsame.sound.queues hs (by decide))).congr rfl
  | «open» _ _ hs => exact h.opens hs ⟨rfl, rfl, rfl⟩
  | accept he _ hs => exact (h.acceptsOpen he hs).congr rfl
  | reject _ hs | close _ hs | reset _ hs | goAway _ hs =>
    exact (h.queues hs (by decide)).congr rfl
  | sendData hs => exact h.sends hs
  | receive hr => exact h.receives hr
  | @cancelReceive _ _ _ e he =>
    exact (h.overwrite { e with receiver := none } he
      (fun _ _ hfits => { hfits with idle := by simp }) rfl).congr rfl
  | shutdown => exact .refl h

section Inbound

theorem Sound.owes (h : a.Sound) (hacc : Accepts codec a frame s) :
    { a with state := s }.Owes frame := by
  obtain ⟨hledger, hlimit⟩ := ledger_accepts hacc
  obtain ⟨context, t, -, hadm, ha, rfl⟩ := hacc
  constructor
  · rw [hledger, hlimit]
    exact h.ledger
  · intro X e hX hp he
    rw [advanceSequence_streams] at hX
    obtain ⟨st, hst, hfits⟩ := h.entries _ _ he
    by_cases hc : frame.header.command = .data
    · obtain ⟨st', X', hst', hX', hphase, -, hcredit, hrl⟩ := data_of_applies ha hc
      obtain rfl : st' = st := some.inj (hst'.symm.trans hst)
      obtain rfl : X' = X := some.inj (hX'.symm.trans hX)
      rw [dataBytes_of_data hc, hcredit, hrl]
      exact ⟨hfits.unread (hphase ▸ hp), hfits.limit (hphase ▸ hp)⟩
    · have hz : frame.header.streamId ≠ 0 := by
        intro hz
        simp [hz, h.zero] at hst
      obtain ⟨X', hm, hX'⟩ := moves_of_applies (p := ⟨frame.header, context⟩) ha hz
      obtain rfl : X' = X := by simpa [hX'] using hX
      have hfits' := hfits.receives (hst ▸ hm)
      simp only [dataBytes, if_neg hc, Nat.add_zero]
      exact ⟨hfits'.unread hp, hfits'.limit hp⟩

theorem arrives_of_accepts (hacc : Accepts codec a frame s) (hd : ¬ a.Discards frame)
    (hc : frame.header.command = .data ∨ frame.header.command = .close ∨
      frame.header.command = .reset) : { a with state := s }.Arrives frame := by
  obtain ⟨context, t, -, hadm, ha, rfl⟩ := hacc
  rcases hc with hc | hc
  · obtain ⟨st, X, hst, hX, hphase, hopen, -⟩ := data_of_applies ha hc
    refine .inl ⟨hc, X, by rwa [advanceSequence_streams], ?_⟩
    rcases hopen with hopen | hterminal
    · rw [hphase, hopen]
    · exact absurd ⟨hc, by simp [hst, hterminal]⟩ hd
  · refine .inr ⟨by simpa [terminal] using hc, ?_⟩
    rw [finished_advanceSequence]
    exact finished_of_ends (p := ⟨frame.header, context⟩) ha hc

theorem Sound.acceptIncomingOpen (h : a.Sound) (hacc : Accepts codec a frame s)
    (hc : frame.header.command = .open) : { a with state := s }.Accounts
      ({ a with state := s }.setEntry frame.header.streamId (.new .bulk 0)) 0 := by
  have h' := h.accepts hacc (by simp [hc])
  obtain ⟨context, t, -, hadm, ha, rfl⟩ := hacc
  obtain ⟨-, -, hnone, hstreams⟩ := open_of_applies ha hc
  have hfresh := h.lookup_eq_none hnone
  have hledger := ledger_setEntry { a with state := advanceSequence .inbound frame.header t }
    frame.header.streamId (.new .bulk 0)
  rw [weightAt_of_lookup_none hfresh] at hledger
  have hsame : ({ a with state := advanceSequence .inbound frame.header t }.setEntry
      frame.header.streamId (.new .bulk 0)).ledger =
        { a with state := advanceSequence .inbound frame.header t }.ledger := by
    simpa [StreamEntry.unread, StreamEntry.new] using hledger
  have hst : (advanceSequence .inbound frame.header t).streams frame.header.streamId =
      some (.opening false) := by
    rw [advanceSequence_streams, hstreams, update_self]
    rfl
  exact ⟨h'.setEntry hst (Blank.fits ⟨rfl, rfl, rfl⟩ false) (hsame ▸ h'.ledger), hsame, rfl⟩

theorem Sound.completeOpen (h : a.Sound) (hacc : Accepts codec a frame s)
    (hc : frame.header.command = .accept) (he : a.streams.lookup frame.header.streamId = some e)
    (hs : { a with state := s }.Submits ⟨.control, creditOf frame.header.streamId
      (a.nextSequenceFor frame.header.streamId) e.receiveWindow⟩ {} b) :
    { a with state := s }.Accounts (b.setEntry frame.header.streamId { e with opener := none }) 0 := by
  have h' := h.accepts hacc (by simp [hc])
  obtain ⟨context, t, -, hadm, ha, rfl⟩ := hacc
  obtain ⟨st, X, hst, ho, hX, hcredit⟩ := acceptIn_of_applies ha hc
  have hfits := h.fits he hst
  have hbytes : e.inboxBytes = 0 := by simp [hfits.bytes, hfits.empty (.inl ho)]
  have hzero : X.receiveCredit = 0 := hcredit.trans (hfits.closed ho)
  have hid : frame.header.streamId ≠ 0 := by
    intro hz
    simp [hz, h.zero] at hst
  have happlies : (advanceSequence .inbound frame.header t).streams frame.header.streamId =
      some X := by rwa [advanceSequence_streams]
  obtain ⟨hb, hledger, hlimit⟩ := h'.streamCredit hid hs (by
    intro X' e' hX' hp he'
    obtain rfl : X = X' := some.inj (happlies.symm.trans hX')
    obtain rfl : e = e' := some.inj (he.symm.trans he')
    obtain ⟨u, -, -, -, hu, -⟩ := hs
    have hle := creditOut_of_applies hu rfl hid happlies hp
    simp only [creditOf] at hle
    omega)
  have he' : b.streams.lookup frame.header.streamId = some e := hs.streams ▸ he
  have hset := hb.overwrite { e with opener := none } he' (fun _ _ hfits => { hfits with }) rfl
  exact ⟨hset.sound, hset.ledger.trans hledger, hset.limit.trans hlimit⟩

theorem Sound.rejectOpen (h : a.Sound) (hacc : Accepts codec a frame s)
    (hc : frame.header.command = .reject) :
    { a with state := s }.Accounts ({ a with state := s }.rejectOpen frame) 0 := by
  have h' := h.accepts hacc (by simp [hc])
  obtain ⟨context, t, -, hadm, ha, rfl⟩ := hacc
  obtain ⟨X, hX, hp⟩ := reject_of_applies ha hc
  have hX : { a with state := advanceSequence .inbound frame.header t }.state.streams
      frame.header.streamId = some X := by rwa [advanceSequence_streams]
  generalize { a with state := advanceSequence .inbound frame.header t } = a' at h' hX
  have hnothing : weightAt StreamEntry.unread a'.streams frame.header.streamId = 0 := by
    cases he : a'.streams.lookup frame.header.streamId with
    | none => exact weightAt_of_lookup_none he
    | some e =>
      rw [weightAt_of_lookup he, StreamEntry.unread, (h'.fits he hX).empty (.inr hp)]
      rfl
  have hclosed : ∀ st, a'.state.streams frame.header.streamId = some st →
      ¬ (st.phase = .accepted ∨ (st.phase = .opening ∧ st.initiatedByLocal)) := by
    intro st hst
    obtain rfl : X = st := some.inj (hX.symm.trans hst)
    simp [hp]
  have herase := h'.erase hclosed
  refine ⟨herase.congr rfl, ?_, rfl⟩
  have := total_erase (f := StreamEntry.unread) (t := a'.streams) (k := frame.header.streamId)
  change a'.state.connectionReceiveCredit +
    total StreamEntry.unread (a'.streams.erase frame.header.streamId) =
      a'.state.connectionReceiveCredit + total StreamEntry.unread a'.streams + 0
  omega

theorem Sound.dispatches (h : a.Sound) (hacc : Accepts codec a frame s)
    (hd : ¬ a.Discards frame) (hdispatch : Dispatches codec w { a with state := s } frame b)
    (hc : frame.header.command ≠ .goAway) : { a with state := s }.Accounts b (dataBytes frame) := by
  have hquiet (hn : frame.header.command ≠ .data) (hb : { a with state := s }.Accounts b 0) :
      { a with state := s }.Accounts b (dataBytes frame) := by simpa [dataBytes, hn] using hb
  cases hdispatch with
  | «open» hc =>
    exact hquiet (by simp [hc]) ((h.acceptIncomingOpen hacc hc).congr rfl)
  | accept hc he hs =>
    exact hquiet (by simp [hc]) ((h.completeOpen hacc hc he hs).congr rfl)
  | reject hc =>
    exact hquiet (by simp [hc]) (h.rejectOpen hacc hc)
  | credit hc _ hf =>
    exact hquiet (by simp [hc]) ((h.accepts hacc (by simp [hc])).flushes hf)
  | connectionCredit hc _ hf =>
    exact hquiet (by simp [hc]) ((h.accepts hacc (by simp [hc])).flushesAll hf)
  | deliver hc hdeliver =>
    refine (h.accepts hacc ?_).delivers (h.owes hacc) (arrives_of_accepts hacc hd hc) hdeliver
    rcases hc with hc | hc | hc <;> simp [hc]
  | ping hc hs =>
    exact hquiet (by simp [hc]) ((h.accepts hacc (by simp [hc])).queues hs (by decide))
  | pong hc =>
    exact hquiet (by simp [hc]) ((Accounts.refl (h.accepts hacc (by simp [hc]))).congr rfl)
  | goAway hn => exact absurd hn hc

end Inbound

/-- The unread bytes that an event drops without giving them back. -/
def lost (a : Actor) : Event → ℕ
  | .dequeue =>
    match a.scheduler.dequeue.1 with
    | none => 0
    | some item =>
      if terminal item.frame then weightAt StreamEntry.unread a.streams item.streamId else 0
  | .inbound frame =>
    if frame.header.command = .goAway ∧ a.awaitingRestart = false then a.unread else 0
  | _ => 0

/-- The actor of a session that has just been negotiated. -/
structure Fresh (a : Actor) : Prop where
  negotiated : Negotiated a.state
  streams : a.streams = ∅
  sequences : ∀ id, a.sequences id = none
  controlSequence : a.controlSequence = 1
  scheduler : a.scheduler = .new maxScheduledBytes

theorem Fresh.ledger (h : a.Fresh) : a.ledger = a.state.connectionReceiveLimit := by
  rw [Actor.ledger, Actor.unread, h.streams, h.negotiated.receiveCredit, total_empty, Nat.add_zero]

theorem Fresh.sound (h : a.Fresh) : a.Sound where
  numbers id := by
    rw [h.negotiated.outbound, nextSequenceFor, h.sequences, h.controlSequence]
    rfl
  phase := .inl h.negotiated.phase
  zero := h.negotiated.streams 0
  entries id e he := by simp [h.streams] at he
  present id st hst := by simp [h.negotiated.streams] at hst
  limits id st hst := by simp [h.negotiated.streams] at hst
  connectionLimit := h.negotiated.receiveLimit
  ledger := h.ledger.le
  queue := ⟨[], h.scheduler ▸ FrameScheduler.holds_new _, by simp⟩
  capacity := by simp [h.scheduler, FrameScheduler.new]

inductive Outcome (a : Actor) (event : Event) (b : Actor) : Prop
  | continues : b.awaitingRestart = false → b.Sound → b.ledger + a.lost event = a.ledger →
      b.state.connectionReceiveLimit = a.state.connectionReceiveLimit → Outcome a event b
  | pauses : b.awaitingRestart → b.streams = ∅ → b.ledger + a.lost event = a.ledger →
      b.state.connectionReceiveLimit = a.state.connectionReceiveLimit → Outcome a event b
  | restarts : b.Fresh → a.lost event = 0 → Outcome a event b

theorem Accounts.continues (h : a.Accounts b 0) (ha : b.awaitingRestart = false)
    (hl : a.lost event = 0) : Outcome a event b :=
  .continues ha h.sound (by rw [hl, h.ledger]; rfl) h.limit

theorem Submits.awaitingRestart (hs : a.Submits item context b) :
    b.awaitingRestart = a.awaitingRestart := by
  cases hs
  rfl

theorem awaitingRestart_of_command (hr : (handle codec w (.command command)).run a = (.ok (), b)) :
    b.awaitingRestart = a.awaitingRestart := by
  by_cases hg : ∃ generation response, command = .goAway generation response
  · obtain ⟨generation, response, rfl⟩ := hg
    cases handle_ok hr with
    | refused => rfl
    | obeyed _ _ ho =>
      cases ho with
      | goAwayFull => rfl
      | goAway _ hs => exact hs.awaitingRestart
      | gone hid => simp [ActorCommand.streamId] at hid
    | closed hc => simp at hc
  · simp only [not_exists] at hg
    exact ((handleCurrentCommand_steady hg).of_run hr).awaitingRestart

theorem Sound.dequeues (h : a.Sound) : { a with scheduler := a.scheduler.dequeue.2 }.Sound ∧
      ∀ item, a.scheduler.dequeue.1 = some item → terminal item.frame →
        a.state.Finished item.streamId := by
  obtain ⟨log, hlog, hterminal⟩ := h.queue
  have hserves := hlog.dequeue
  have hcapacity : a.scheduler.dequeue.2.queuedBytes ≤ a.scheduler.dequeue.2.maxQueuedBytes ∧
      a.scheduler.dequeue.2.maxQueuedBytes = maxScheduledBytes := by
    rw [FrameScheduler.dequeue_fixed.2]
    exact ⟨hlog.dequeue_le.trans h.capacity.1, h.capacity.2⟩
  rcases hd : a.scheduler.dequeue with ⟨_ | item, t⟩
  · rw [hd] at hserves
    rw [hd] at hcapacity
    exact ⟨{ h with queue := ⟨log, hserves, hterminal⟩, capacity := hcapacity }, by simp⟩
  · rw [hd] at hserves
    obtain ⟨log', htakes, hlog'⟩ := hserves
    have hmem (x : ScheduledFrame) : x ∈ log ↔ x = item ∨ x ∈ log' := by
      rw [htakes.perm.mem_iff, mem_cons]
    rw [hd] at hcapacity
    refine ⟨{ h with
      queue := ⟨log', hlog', fun x hx => hterminal x ((hmem x).mpr (.inr hx))⟩
      capacity := hcapacity }, ?_⟩
    intro x hx
    obtain rfl : item = x := by simpa using hx
    exact hterminal item ((hmem item).mpr (.inl rfl))

theorem wrote_state : (a.wrote item).state = a.state := by
  unfold wrote
  split_ifs <;> rfl

theorem wrote_awaitingRestart : (a.wrote item).awaitingRestart = a.awaitingRestart := by
  unfold wrote
  split_ifs <;> rfl

theorem ledger_wrote (hi : a.scheduler.dequeue.1 = some item) :
    (a.wrote item).ledger + a.lost .dequeue = a.ledger := by
  simp only [lost, hi]
  unfold wrote
  split_ifs with ht
  · exact ledger_retireStream
  · rfl

theorem Sound.wrote (h : a.Sound) (hi : a.scheduler.dequeue.1 = some item) :
    (a.wrote item).Sound := by
  obtain ⟨hsound, hfinished⟩ := h.dequeues
  unfold Actor.wrote
  dsimp only
  split_ifs with ht
  · exact Sound.retireStream (hsound.congr rfl) (hfinished item hi ht)
  · exact hsound.congr rfl

/-- The invariant of all reachable actors: nothing is claimed of one that has stopped. -/
structure Inv (a : Actor) : Prop where
  live : a.running → a.awaitingRestart = false → a.Sound
  waiting : a.running → a.awaitingRestart → a.streams = ∅

theorem inv_new (hs : Negotiated s) (restartable : Bool) : (new s restartable).Inv where
  live _ _ := Fresh.sound ⟨hs, rfl, fun _ => rfl, rfl, rfl⟩
  waiting _ := by simp [new]

theorem inv_finish {w : World} : (a.finish w).Inv := ⟨by simp [finish], by simp [finish]⟩

theorem Inv.kept (h : a.Inv) (hrun : a.running) (hwait : b.awaitingRestart = a.awaitingRestart)
    (hsound : a.Sound → b.Sound) (hs : a.streams = ∅ → b.streams = ∅)
    (hledger : b.ledger + a.lost event = a.ledger)
    (hlimit : b.state.connectionReceiveLimit = a.state.connectionReceiveLimit) :
    Outcome a event b := by
  cases ha : a.awaitingRestart with
  | true => exact .pauses (hwait.trans ha) (hs (h.waiting hrun ha)) hledger hlimit
  | false => exact .continues (hwait.trans ha) (hsound (h.live hrun ha)) hledger hlimit

/-- While a restart is awaited, nothing but a HELLO has an effect on the tables. -/
theorem Inv.outcome (h : a.Inv) (hrun : a.running)
    (hr : (handle codec w event).run a = (.ok (), b)) : Outcome a event b := by
  cases handle_ok hr with
  | refused | expired =>
    exact h.kept hrun rfl (fun ha => ha.congr rfl) id rfl rfl
  | obeyed hlive _ ho =>
    rcases hlive with hlive | rfl
    · exact ((h.live hrun hlive).obeys ho).continues
        ((awaitingRestart_of_command hr).trans hlive) rfl
    · cases ho with
      | gone hid => simp [ActorCommand.streamId] at hid
      | shutdown => exact h.kept hrun rfl id id rfl rfl
  | @restarted frame r hs | @unwritten frame r _ hs =>
    exact .restarts ⟨r.negotiated, rfl, fun _ => rfl, rfl, rfl⟩ (by simp [lost, hs.1])
  | ignored _ ha => exact .pauses ha (h.waiting hrun ha) (by simp [lost, ha]) rfl
  | @discarded frame s _ hs hlive hd hacc hrestore =>
    have hsteady := (handleInbound_steady (by simp [hd.1]) (by simp [hd.1])).of_run hr
    obtain ⟨hledger, hlimit⟩ := ledger_accepts hacc
    have ha := h.live hrun hlive
    obtain ⟨hb, hledger', hlimit', -⟩ :=
      (ha.accepts hacc (by simp [hd.1])).restores (ha.owes hacc) hrestore
    refine .continues (hsteady.awaitingRestart.trans hlive) hb ?_ (hlimit'.trans hlimit)
    simp only [lost, hd.1]
    simp
    omega
  | @dispatched frame s _ hs hlive hd hacc hdispatch =>
    obtain ⟨hledger, hlimit⟩ := ledger_accepts hacc
    rcases hdispatch.goAway_or with hc | ⟨hc, -, -, hs⟩
    · have hsteady := (handleInbound_steady hc hdispatch.ne_hello).of_run hr
      have hb := (h.live hrun hlive).dispatches hacc hd hdispatch hc
      refine .continues (hsteady.awaitingRestart.trans hlive) hb.sound ?_ (hb.limit.trans hlimit)
      have := hb.ledger
      simp only [lost, hc]
      simp
      omega
    · obtain ⟨hledger', hlimit'⟩ := ledger_submits hs (by simp [frameOf, Header.new])
      refine .pauses hs.awaitingRestart hs.streams ?_ (hlimit'.trans hlimit)
      have hgrant : b.ledger = s.connectionReceiveCredit := hledger'.trans rfl
      simp only [dataBytes, hc] at hledger
      have hbefore : s.connectionReceiveCredit + a.unread = a.ledger := hledger
      simp only [lost, hc, hlive, and_self, if_true]
      omega
  | idle hn =>
    refine h.kept hrun rfl (·.dequeues.1) id ?_ rfl
    simp only [lost, hn]
    rfl
  | @wrote item hi =>
    refine h.kept hrun wrote_awaitingRestart (·.wrote hi) (fun hs => ?_) (ledger_wrote hi)
      (by rw [wrote_state])
    unfold Actor.wrote
    split_ifs
    · change a.streams.erase item.streamId = ∅
      rw [hs]
      rfl
    · exact hs
  | closed hc =>
    refine h.kept hrun rfl id id ?_ rfl
    rcases hc with rfl | rfl | ⟨message, rfl⟩ <;> rfl

theorem Inv.step (h : a.Inv) (input : World × Event) : (step codec a input).Inv := by
  refine step_induction codec a input fun b hsteps => ?_
  cases hsteps with
  | stopped => exact h
  | finished | failed => exact inv_finish
  | handled hrun _ hr =>
    cases h.outcome hrun hr with
    | continues hlive hsound => exact ⟨fun _ _ => hsound, fun _ hw => by simp [hlive] at hw⟩
    | pauses hwait hs => exact ⟨fun _ hl => by simp [hwait] at hl, fun _ _ => hs⟩
    | restarts hf => exact ⟨fun _ _ => hf.sound, fun _ _ => hf.streams⟩
  | restarting => exact ⟨fun _ hl => by simp [beginRestart] at hl, fun _ _ => rfl⟩

theorem Inv.exec (h : a.Inv) (inputs : List (World × Event)) : (exec codec a inputs).Inv := by
  induction inputs generalizing a with
  | nil => exact h
  | cons input inputs ih => exact ih (h.step input)

end Actor

end KindleBridge.Transport
