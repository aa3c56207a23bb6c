import KindleBridge.Transport.LateFrames

/-! # Workers that lose a race

A worker may send on its stream after the stream has been ended behind its back. The
actor decides from the credit alone and leaves the rest to the session state, whose
refusal is a connection error. `Safe` says when a request does not run into one.
-/

namespace KindleBridge.Transport

open Wire SessionState Option Op

variable {e : StreamEntry} {payload : List UInt8} {command : ActorCommand}

namespace Actor

/-- The stream has been accepted, and may have ended since. -/
def WasAccepted (a : Actor) (id : ℕ) : Prop :=
  ∃ st, a.state.streams id = some st ∧ (st.phase = .accepted ∨ st.phase.Terminal)

/-- The requests that a worker may make on its own stream. -/
def Contract (a : Actor) : ActorCommand → Prop
  | .sendData _ id _ _ _ => a.WasAccepted id ∧
      (∀ e, a.streams.lookup id = some e → e.pendingSend = none) ∧
      (∀ n, (id, n) ∉ a.writeWaiters.keys) ∧
      ∀ st, a.state.streams id = some st → st.phase = .accepted → st.localEndStream = false
  | .receive _ id _ => a.WasAccepted id ∧
      ∀ e, a.streams.lookup id = some e → e.receiver = none
  | .close _ id _ => a.WasAccepted id ∧
      ∀ st, a.state.streams id = some st → st.initiatedByLocal = false
  | .reset _ id _ _ => a.WasAccepted id
  | _ => False

/-- A request on a stream of the table does not run into a refusal. -/
def Safe (a : Actor) : ActorCommand → Prop
  | .sendData _ id payload _ _ => payload.length ≤ u32Max ∧
      (a.hasSendCredit id payload.length → a.CanSend id payload.length)
  | .receive _ id _ => ∀ e frame rest, a.streams.lookup id = some e → e.inbox = frame :: rest →
      a.CanRefund frame
  | .close _ id _ => a.CanClose id
  | .reset _ id reason _ => a.CanReset id reason.length
  | _ => True

/-- The streams, visited in order, whose sends the connection credit reaches can all send. -/
def CanFlushFrom (a : Actor) : List ℕ → ℕ → ℕ → Prop
  | [], _, _ => True
  | id :: ids, credit, bytes =>
    match a.waitingSend id with
    | none => a.CanFlushFrom ids credit bytes
    | some pending =>
      let length := pending.payload.length
      if (a.state.streams id).any (length ≤ ·.sendCredit) ∧ length ≤ credit then
        (a.Sendable id length ∧ bytes + (headerLen + length) ≤ a.scheduler.maxQueuedBytes) ∧
          a.CanFlushFrom ids (credit - length) (bytes + (headerLen + length))
      else a.CanFlushFrom ids credit bytes

/-- The entries and the waiting writers of all other streams are the same. -/
def Untouched (id : ℕ) (a b : Actor) : Prop :=
  ∀ id', id' ≠ id → b.streams.lookup id' = a.streams.lookup id' ∧
    ∀ n, b.writeWaiters.lookup (id', n) = a.writeWaiters.lookup (id', n)

variable {codec : ServiceCodec} {w : World} {a b c : Actor} {id response : ℕ} {frame : Frame}
  {item : ScheduledFrame} {context : FrameContext} {endStream : Bool} {ids : List ℕ}

namespace Untouched

theorem of_eq (hs : b.streams = a.streams) (hw : b.writeWaiters = a.writeWaiters) :
    Untouched id a b := by
  intro id' _
  rw [hs, hw]
  exact ⟨rfl, fun _ => rfl⟩

theorem trans (h : Untouched id a b) (h' : Untouched id b c) : Untouched id a c := by
  intro id' hid
  obtain ⟨h1, h2⟩ := h id' hid
  obtain ⟨h3, h4⟩ := h' id' hid
  exact ⟨h3.trans h1, fun n => (h4 n).trans (h2 n)⟩

theorem setEntry : Untouched id a (a.setEntry id e) :=
  fun _ hid => ⟨lookup_setEntry_ne hid, fun _ => rfl⟩

theorem submits (hs : a.Submits item context b) : Untouched id a b := by
  cases hs
  exact of_eq rfl rfl

theorem restores (hr : a.Restores frame b) : Untouched id a b := by
  cases hr with
  | nothing => exact of_eq rfl rfl
  | connection _ _ _ hs => exact submits hs
  | both _ _ _ hs hs' => exact (submits hs).trans (submits hs')

theorem retireStream {error : ConnectionError} : Untouched id a (a.retireStream id error) := by
  intro id' hid
  refine ⟨AList.lookup_erase_ne hid, fun n => ?_⟩
  refine lookup_foldl_erase ?_
  simp [hid]

theorem hand : Untouched id a (a.hand id response frame) := by
  unfold Actor.hand
  split_ifs
  · exact (of_eq (b := a.reply response (.frame frame)) rfl rfl).trans retireStream
  · exact of_eq rfl rfl

theorem sends (hs : a.Sends id payload endStream response b) : Untouched id a b := by
  cases hs with
  | queued _ _ _ _ hs =>
    refine (submits hs).trans fun id' hid => ⟨rfl, fun n => ?_⟩
    exact AList.lookup_insert_ne (by simp [hid])
  | waits => exact setEntry

theorem receives (hr : a.Receives id response b) : Untouched id a b := by
  cases hr with
  | waits => exact setEntry
  | takes _ _ _ hs => exact setEntry.trans ((restores hs).trans hand)

theorem obeys (hid : command.streamId = some id)
    (hc : a.Contract command) (ho : Obeys codec w a command b) : Untouched id a b := by
  cases ho with
  | gone => exact of_eq rfl rfl
  | sendData hs =>
    obtain rfl := some.inj hid
    exact sends hs
  | receive hr =>
    obtain rfl := some.inj hid
    exact receives hr
  | close _ hs | reset _ hs => exact (submits hs).trans (of_eq rfl rfl)
  | _ => exact absurd hc (by simp [Contract])

end Untouched

theorem onStream_ok_iff {request : StreamEntry → ActorM Unit} :
    ((onStream id response request).run a).1 = .ok () ↔
      ∀ e, a.streams.lookup id = some e → ((request e).run a).1 = .ok () := by
  unfold onStream
  rw [run_get_bind]
  cases a.streams.lookup id <;> simp

theorem Sound.sends_iff (h : a.Sound)
    (he : a.streams.lookup id = some e) (hp : e.pendingSend = none)
    (hw : ∀ n, (id, n) ∉ a.writeWaiters.keys) :
    (∃ b, a.Sends id payload endStream response b) ↔ payload.length ≤ u32Max ∧
      (a.hasSendCredit id payload.length → a.CanSend id payload.length) := by
  have hmax := a.state.config.limits.maxPayload_le
  by_cases hcredit : a.hasSendCredit id payload.length
  · simp only [hcredit, forall_const]
    constructor
    · rintro ⟨b, hs⟩
      cases hs with
      | queued _ _ _ _ hs =>
        have hcan := (h.submits_data_iff (h.ne_zero he) hcredit).mp ⟨_, hs⟩
        obtain ⟨st, -, -, -, hle, -⟩ := hcan.1
        exact ⟨hle.trans hmax, hcan⟩
      | waits _ _ _ _ hshort => simp [hshort] at hcredit
    · rintro ⟨-, hcan⟩
      obtain ⟨b, hs⟩ := (h.submits_data_iff (h.ne_zero he) hcredit).mpr hcan
      exact ⟨_, .queued he hp hw hcredit hs⟩
  · simp only [hcredit, Bool.false_eq_true, false_imp_iff, and_true]
    constructor
    · rintro ⟨b, hs⟩
      cases hs with
      | queued _ _ _ hc => exact absurd hc hcredit
      | waits _ _ _ hle => exact hle
    · intro hle
      exact ⟨_, .waits he hp hw hle (by simpa using hcredit)⟩

theorem Sound.receives_iff (h : a.Sound) (he : a.streams.lookup id = some e)
    (hr : e.receiver = none) : (∃ b, a.Receives id response b) ↔
      ∀ frame rest, e.inbox = frame :: rest → a.CanRefund frame := by
  constructor
  · rintro ⟨b, hb⟩ frame rest hinbox
    obtain ⟨hset, howes, -⟩ := h.takes he hinbox
    cases hb with
    | waits he' _ hempty =>
      obtain rfl : _ = e := some.inj (he'.symm.trans he)
      simp [hempty] at hinbox
    | takes he' _ hinbox' hs =>
      obtain rfl : _ = e := some.inj (he'.symm.trans he)
      obtain ⟨rfl, rfl⟩ := List.cons.inj (hinbox'.symm.trans hinbox)
      exact (hset.restores_iff howes).mp ⟨_, hs⟩
  · intro hcan
    cases hinbox : e.inbox with
    | nil => exact ⟨_, .waits he hr hinbox⟩
    | cons frame rest =>
      obtain ⟨hset, howes, -⟩ := h.takes he hinbox
      obtain ⟨b, hs⟩ := (hset.restores_iff howes).mpr (hcan frame rest hinbox)
      exact ⟨_, .takes he hr hinbox hs⟩

theorem queueAndReply_iff {command : Command} :
    ((queueAndReply command id payload context response).run a).1 = .ok () ↔
      ∃ b, a.Submits ⟨queueClass command .control,
        frameOf command id (a.nextSequenceFor id) payload false⟩ context b := by
  rw [ok_iff_exists]
  simp only [queueAndReply_ok_iff]
  constructor
  · rintro ⟨_, b, hs, -⟩
    exact ⟨b, hs⟩
  · rintro ⟨b, hs⟩
    exact ⟨_, b, hs, rfl⟩

/-- A request that respects the contract succeeds on a live session exactly if it is safe. -/
theorem Sound.handleCommand_iff (h : a.Sound)
    (hid : command.streamId = some id) (hc : a.Contract command) :
    ((handleCommand codec w command).run a).1 = .ok () ↔
      a.streams.lookup id = none ∨ a.Safe command := by
  -- Each of the four requests first looks up its stream.
  have hlookup {P Q : Prop} (hP : P ↔ ∀ e, a.streams.lookup id = some e → Q) :
      P ↔ a.streams.lookup id = none ∨ Q := by
    rw [hP]
    cases a.streams.lookup id <;> simp
  cases command with
  | sendData g id' payload endStream r =>
    obtain rfl := some.inj hid
    refine hlookup (onStream_ok_iff.trans (forall_congr' fun e => forall_congr' fun he => ?_))
    rw [ok_iff_exists]
    simp only [sendOrWait_ok_iff]
    exact h.sends_iff he (hc.2.1 e he) hc.2.2.1
  | receive g id' r =>
    obtain rfl := some.inj hid
    refine hlookup (onStream_ok_iff.trans (forall_congr' fun e => forall_congr' fun he => ?_))
    rw [ok_iff_exists]
    simp only [receiveOrWait_ok_iff, h.receives_iff he (hc.2 e he), Safe, he, some.injEq]
    constructor
    · rintro hcan e' frame rest rfl hinbox
      exact hcan frame rest hinbox
    · intro hcan frame rest hinbox
      exact hcan e frame rest rfl hinbox
  | close g id' r =>
    obtain rfl := some.inj hid
    refine hlookup (onStream_ok_iff.trans (forall_congr' fun e => forall_congr' fun he => ?_))
    exact queueAndReply_iff.trans (h.submits_close_iff (h.ne_zero he))
  | reset g id' reason r =>
    obtain rfl := some.inj hid
    refine hlookup (onStream_ok_iff.trans (forall_congr' fun e => forall_congr' fun he => ?_))
    exact queueAndReply_iff.trans (h.submits_reset_iff (h.ne_zero he))
  | _ => exact absurd hc (by simp [Contract])

section Flush

theorem Agrees.canFlushFrom_iff (h : Agrees a b ids) (credit bytes : ℕ) :
    b.CanFlushFrom ids credit bytes ↔ a.CanFlushFrom ids credit bytes := by
  induction ids generalizing credit bytes with
  | nil => rfl
  | cons id ids ih =>
    simp only [CanFlushFrom, Sendable, HasNumber, h.waiting id (.head _), h.records id (.head _),
      h.numbers id (.head _), h.config, h.room, ih h.tail]

theorem Sound.flushesAll_iff (h : a.Sound) (hids : ids.Nodup) : (∃ b, FlushesAll ids a b) ↔
      a.CanFlushFrom ids a.state.connectionSendCredit a.scheduler.queuedBytes := by
  induction ids generalizing a with
  | nil => exact ⟨fun _ => trivial, fun _ => ⟨a, .nil⟩⟩
  | cons id ids ih =>
    obtain ⟨hid, hids⟩ := List.nodup_cons.mp hids
    have hsplit : (∃ b, FlushesAll (id :: ids) a b) ↔ ∃ c, a.Flushes id c ∧
        a.CanFlushFrom ids c.state.connectionSendCredit c.scheduler.queuedBytes := by
      constructor
      · rintro ⟨b, hf⟩
        cases hf with
        | cons hfirst hrest =>
          have hc := (h.flushes hfirst).sound
          exact ⟨_, hfirst, ((hfirst.agrees hid).canFlushFrom_iff ..).mp ((ih hc hids).mp ⟨b, hrest⟩)⟩
      · rintro ⟨c, hfirst, hrest⟩
        have hc := (h.flushes hfirst).sound
        obtain ⟨b, hb⟩ := (ih hc hids).mpr (((hfirst.agrees hid).canFlushFrom_iff ..).mpr hrest)
        exact ⟨b, .cons hfirst hb⟩
    rw [hsplit, CanFlushFrom]
    cases hw : a.waitingSend id with
    | none =>
      simp only [flushes_iff_of_idle (idle_of_waitingSend hw), exists_eq_left]
    | some pending =>
      obtain ⟨e, he, hp⟩ := bind_eq_some_iff.mp hw
      dsimp only
      by_cases haffords : a.hasSendCredit id pending.payload.length
      · rw [if_pos (hasSendCredit_iff_any.mp haffords)]
        exact h.flushes_affordable he hp haffords (a.CanFlushFrom ids)
      · rw [if_neg (mt hasSendCredit_iff_any.mpr haffords)]
        simp only [h.flushes_waiting he hp (by simpa using haffords), exists_eq_left]
        rfl

theorem Sound.connectionCredit_iff {s : SessionState} (h : a.Sound)
    (hlive : a.awaitingRestart = false) (hacc : Accepts codec a frame s)
    (hc : frame.header.command = .credit) (hz : frame.header.streamId = 0) :
    ((handleInbound codec w frame).run a).1 = .ok () ↔ a.CanFlushFrom (w.order a.streams.keys)
        (a.state.connectionSendCredit + frame.header.creditDelta) a.scheduler.queuedBytes := by
  have hs := h.accepts hacc (by simp [hc])
  have hd : ¬ a.Discards frame := by simp [Discards, hc]
  have hnodup : (w.order a.streams.keys).Nodup :=
    (w.order_perm _).nodup_iff.mpr a.streams.keys_nodup
  rw [handleInbound_run (by simp [hc]) hlive hacc, if_neg hd, ok_iff_exists]
  simp only [dispatch, hc, flushPending, run_get_bind, if_pos hz, flushStreams_ok_iff,
    hs.flushesAll_iff hnodup]
  obtain ⟨hagrees, hconnection⟩ := agrees_of_connectionCredit hacc hc hz
  rw [hconnection]
  exact hagrees.canFlushFrom_iff ..

end Flush

theorem handleCurrentCommand_iff (hid : command.streamId = some id) :
    ((handleCurrentCommand codec w command).run a).1 = .ok () ↔
      a.awaitingRestart ∨ command.generation ≠ some a.generation ∨
        ((handleCommand codec w command).run a).1 = .ok () := by
  have hshutdown : command ≠ .shutdown := by
    rintro rfl
    simp [ActorCommand.streamId] at hid
  obtain ⟨g, hg⟩ : ∃ g, command.generation = some g := by
    cases command <;> simp_all [ActorCommand.generation]
  unfold handleCurrentCommand
  simp only [run_get_bind, run_ite, run_modify, hg, any_some, decide_eq_true_eq, some.injEq, ne_eq]
  split_ifs <;> simp_all

/--
In every reachable state a request of a worker that respects its contract succeeds and
leaves the other streams alone exactly if the actor only answers it, its stream is gone,
or it is safe; and credit of the connection is absorbed exactly if the sends that it
reaches are ones of open streams, with numbers and room for all of them.
-/
theorem worker_request_handled_iff (codec : ServiceCodec) {s : SessionState} (hs : Negotiated s)
    (restartable : Bool) (inputs : List (World × Event)) (w : World)
    (hrun : (exec codec (new s restartable) inputs).running) :
    let a := exec codec (new s restartable) inputs
    (∀ command id, command.streamId = some id → a.Contract command →
      ((∃ b, (handleCurrentCommand codec w command).run a = (.ok (), b) ∧ Untouched id a b) ↔
        a.awaitingRestart ∨ command.generation ≠ some a.generation ∨
          a.streams.lookup id = none ∨ a.Safe command)) ∧
      ∀ frame : Frame, frame.header.command = .credit → frame.header.streamId = 0 →
        ((processInbound frame.header {}).run a.state).1 = .ok () →
        (((handleInbound codec w frame).run a).1 = .ok () ↔
          a.awaitingRestart ∨ a.CanFlushFrom (w.order a.streams.keys)
            (a.state.connectionSendCredit + frame.header.creditDelta) a.scheduler.queuedBytes) := by
  intro a
  have hinv : a.Inv := (inv_new hs restartable).exec inputs
  refine ⟨fun command id hid hc => ?_, fun frame hc hz hr => ?_⟩
  · have huntouched {b : Actor} (hr : (handleCurrentCommand codec w command).run a = (.ok (), b)) :
        Untouched id a b := by
      cases handleCurrentCommand_ok hr with
      | refused => exact .of_eq rfl rfl
      | obeyed _ _ ho => exact .obeys hid hc ho
      | closed hn => simp at hn
    have hok : (∃ b, (handleCurrentCommand codec w command).run a = (.ok (), b) ∧
        Untouched id a b) ↔ ((handleCurrentCommand codec w command).run a).1 = .ok () := by
      rw [ok_iff_exists]
      exact exists_congr fun b => ⟨And.left, fun hr => ⟨hr, huntouched hr⟩⟩
    rw [hok, handleCurrentCommand_iff hid]
    cases hwait : a.awaitingRestart with
    | true => simp
    | false => rw [(hinv.live hrun hwait).handleCommand_iff hid hc]
  · cases hwait : a.awaitingRestart with
    | true => simp [handleInbound, hc, hwait]
    | false =>
      obtain ⟨s', hacc⟩ : ∃ s', Accepts codec a frame s' := accepts_of_run (by simp [hc]) hr
      simpa using (hinv.live hrun hwait).connectionCredit_iff hwait hacc hc hz

/-- A worker sends on its open stream, and credit of the connection comes back. -/
theorem worker_request_handled_sendRun : let inputs : List (World × Event) :=
      [(calm, .inbound (frameOf .open 1 0 [] false)), (calm, .command (.accept 0 1 1024 .bulk 1)),
        (calm, .dequeue), (calm, .inbound (creditOf 1 1 1024)),
        (calm, .command (.sendData 0 1 [1, 2, 3] false 2)), (calm, .dequeue)]
    let a := exec plainCodec (new deviceSession false) inputs
    let command := ActorCommand.sendData 0 1 [4] true 3
    let frame := creditOf 0 1 3
    a.running ∧ a.Contract command ∧ ((processInbound frame.header {}).run a.state).1 = .ok () ∧
      (∃ b, (handleCurrentCommand plainCodec calm command).run a = (.ok (), b) ∧ Untouched 1 a b) ∧
      ((handleInbound plainCodec calm frame).run a).1 = .ok () := by
  intro inputs a command frame
  have hrun : a.running := by decide +kernel
  have hrecord : (a.state.streams 1).any
      (fun st => st.phase = .accepted ∧ st.localEndStream = false) := by decide +kernel
  have hidle : (a.streams.lookup 1).all (fun e => e.pendingSend = none) := by decide +kernel
  have hwaiters : a.writeWaiters.keys = [] := by decide +kernel
  have hnumber : a.HasNumber 1 ∧ a.HasRoom (headerLen + 1) ∧
      1 ≤ a.state.config.limits.maxPayload := by
    decide +kernel
  have hr : ((processInbound frame.header {}).run a.state).1 = .ok () := by decide +kernel
  have hkeys : a.streams.keys = [1] := by decide +kernel
  obtain ⟨st, hst, hopen⟩ := (any_eq_true ..).mp hrecord
  simp only [decide_eq_true_eq] at hopen
  have hidle (e : StreamEntry) (he : a.streams.lookup 1 = some e) : e.pendingSend = none := by
    simpa using (all_eq_true ..).mp hidle e he
  have hc : a.Contract command := by
    refine ⟨⟨st, hst, .inl hopen.1⟩, hidle, by simp [hwaiters], fun st' hst' _ => ?_⟩
    obtain rfl : st = st' := some.inj (hst.symm.trans hst')
    exact hopen.2
  obtain ⟨hcommand, hcredit⟩ := worker_request_handled_iff plainCodec deviceSession_negotiated false
    inputs calm hrun
  refine ⟨hrun, hc, hr, (hcommand command 1 rfl hc).mpr ?_, (hcredit frame rfl rfl hr).mpr ?_⟩
  · exact .inr (.inr (.inr ⟨by decide, fun _ =>
      ⟨⟨st, hst, hopen.1, hopen.2, hnumber.2.2, hnumber.1⟩, hnumber.2.1⟩⟩))
  · have hnone : a.waitingSend 1 = none := by
      cases he : a.streams.lookup 1 with
      | none => simp [waitingSend, he]
      | some e => simp [waitingSend, he, hidle e he]
    refine .inr ?_
    change a.CanFlushFrom a.streams.keys _ _
    simp only [hkeys, CanFlushFrom, hnone]

/-- The session of a device whose peer has a window of four bytes. -/
def narrowSession : SessionState :=
  ((greet (.new .hello 0 0) (.new .hello 0 0) 4 1024).run (.new (.new .device .default))).2

/--
The peer resets stream 1 while its worker is about to send: the refused DATA ends the
connection, and with it stream 3. The same happens to a send that waits until credit of
the connection arrives.
-/
theorem send_after_reset_ends_connection :
    (let a := exec plainCodec (new deviceSession false)
        [(calm, .inbound (frameOf .open 1 0 [] false)), (calm, .command (.accept 0 1 1024 .bulk 1)),
          (calm, .inbound (frameOf .open 3 0 [] false)), (calm, .command (.accept 0 3 1024 .bulk 2)),
          (calm, .dequeue), (calm, .dequeue), (calm, .command (.receive 0 3 3)),
          (calm, .inbound (creditOf 1 1 1024)), (calm, .inbound (frameOf .reset 1 2 [] false))]
      let command := ActorCommand.sendData 0 1 [7] false 4
      let b := step plainCodec a (calm, .command command)
      a.Contract command ∧ a.running ∧
        ((handleCurrentCommand plainCodec calm command).run a).1 =
          .error (.protocol "outbound Data on stream 1: stream 1 is not accepted") ∧
        b.running = false ∧
        (3, .error (.protocol "outbound Data on stream 1: stream 1 is not accepted")) ∈
          b.trace.replies) ∧
    (let a := exec plainCodec (new narrowSession false)
        [(calm, .inbound (frameOf .open 1 0 [] false)), (calm, .command (.accept 0 1 1024 .bulk 1)),
          (calm, .dequeue), (calm, .inbound (creditOf 1 1 1024)),
          (calm, .command (.sendData 0 1 [1, 2, 3, 4] false 2)), (calm, .dequeue),
          (calm, .command (.sendData 0 1 [5] false 3)),
          (calm, .inbound (frameOf .reset 1 2 [] false))]
      let frame := creditOf 0 1 4
      a.running ∧ ((processInbound frame.header {}).run a.state).1 = .ok () ∧
        ((handleInbound plainCodec calm frame).run a).1 ≠ .ok () ∧
        (step plainCodec a (calm, .inbound frame)).running = false) := by
  refine ⟨⟨?_, by decide +kernel⟩, by decide +kernel⟩
  generalize ha : exec plainCodec (new deviceSession false) _ = a
  have hrecord : (a.state.streams 1).any (fun st => st.phase = .reset) := by
    subst ha
    decide +kernel
  have hidle : (a.streams.lookup 1).all (fun e => e.pendingSend = none) := by
    subst ha
    decide +kernel
  have hwaiters : a.writeWaiters.keys = [] := by
    subst ha
    decide +kernel
  obtain ⟨st, hst, hreset⟩ := (any_eq_true ..).mp hrecord
  have hreset : st.phase = .reset := by simpa using hreset
  refine ⟨⟨st, hst, .inr (.inr hreset)⟩, fun e he => ?_, by simp [hwaiters], fun st' hst' hp => ?_⟩
  · simpa using (all_eq_true ..).mp hidle e he
  · obtain rfl : st = st' := some.inj (hst.symm.trans hst')
    simp [hreset] at hp

end Actor

end KindleBridge.Transport
