import KindleBridge.Transport.Streams

/-! # What an event does

Every way in which the actor handles an event without a connection error, with the
actor that it leads to. Later proofs about whole runs are case analyses of `Handles`.
-/

namespace KindleBridge.Transport

open Wire SessionState Op

def ActorCommand.streamId : ActorCommand → Option ℕ
  | .accept _ id .. | .reject _ id .. | .sendData _ id .. | .receive _ id .. | .close _ id ..
  | .reset _ id .. | .cancelReceive _ id .. => some id
  | .ping .. | .open .. | .goAway .. | .shutdown => none

variable {frame : Frame} {event : Event} {codec : ServiceCodec} {a b : Actor}

namespace Actor

/-- A request of the current session, one case for each way in which it succeeds. -/
inductive Obeys (codec : ServiceCodec) (w : World) (a : Actor) : ActorCommand → Actor → Prop
  | gone {command : ActorCommand} {id response : ℕ} : command.streamId = some id →
      command.response = some response → a.streams.lookup id = none →
      Obeys codec w a command (a.reply response (.error .disconnected))
  | pingFull {generation timeout response : ℕ} :
      a.pendingPings.keys.length ≥ maxPendingPings →
      Obeys codec w a (.ping generation timeout response) (a.reply response (.error .queueFull))
  | pingLate {generation timeout response : ℕ} : w.now + timeout > w.instantMax →
      Obeys codec w a (.ping generation timeout response)
        ({ a with nextPingId := a.nextPingId + 1 }.reply response
          (.error (.protocol "ping timeout is too large")))
  | ping {generation timeout response : ℕ} {payload : List UInt8} {b : Actor} :
      payload = leBytes generation ++ leBytes a.nextPingId →
      { a with nextPingId := a.nextPingId + 1 }.Submits
        ⟨.control, frameOf .ping 0 (a.nextSequenceFor 0) payload false⟩ {} b →
      Obeys codec w a (.ping generation timeout response) { b with
        pendingPings := b.pendingPings.insert payload ⟨w.now + timeout, response⟩ }
  | open {generation : ℕ} {service : String} {receiveWindow : ℕ} {trafficClass : TrafficClass}
      {response id : ℕ} {payload : List UInt8} {b : Actor} :
      a.state.nextLocalStreamId = some id → codec.encodeOpen service = .ok payload →
      ({ a with state := { a.state with nextLocalStreamId := checkedAdd id 2 } }.setEntry id
          { StreamEntry.new trafficClass receiveWindow with opener := some response }).Submits
        ⟨trafficClass, frameOf .open id (a.nextSequenceFor id) payload false⟩ {} b →
      Obeys codec w a (.open generation service receiveWindow trafficClass response) b
  | accept {generation id receiveWindow : ℕ} {trafficClass : TrafficClass} {response : ℕ}
      {e : StreamEntry} {payload : List UInt8} {b : Actor} : a.streams.lookup id = some e →
      codec.encodeAccept receiveWindow = .ok payload →
      (a.setEntry id { e with trafficClass := trafficClass, receiveWindow := receiveWindow }).Submits
        ⟨.control, frameOf .accept id (a.nextSequenceFor id) payload false⟩
        (.accept receiveWindow) b →
      Obeys codec w a (.accept generation id receiveWindow trafficClass response)
        (b.reply response .done)
  | reject {generation id : ℕ} {reason : String} {response : ℕ} {e : StreamEntry} {b : Actor} :
      a.streams.lookup id = some e →
      a.Submits ⟨.control, frameOf .reject id (a.nextSequenceFor id) reason.toUTF8.toList false⟩
        {} b →
      Obeys codec w a (.reject generation id reason response) (b.reply response .done)
  | sendData {generation id : ℕ} {payload : List UInt8} {endStream : Bool} {response : ℕ}
      {b : Actor} : a.Sends id payload endStream response b →
      Obeys codec w a (.sendData generation id payload endStream response) b
  | receive {generation id response : ℕ} {b : Actor} : a.Receives id response b →
      Obeys codec w a (.receive generation id response) b
  | close {generation id response : ℕ} {e : StreamEntry} {b : Actor} :
      a.streams.lookup id = some e →
      a.Submits ⟨.control, frameOf .close id (a.nextSequenceFor id) [] false⟩ {} b →
      Obeys codec w a (.close generation id response) (b.reply response .done)
  | reset {generation id : ℕ} {reason : List UInt8} {response : ℕ} {e : StreamEntry} {b : Actor} :
      a.streams.lookup id = some e →
      a.Submits ⟨.control, frameOf .reset id (a.nextSequenceFor id) reason false⟩ {} b →
      Obeys codec w a (.reset generation id reason response) (b.reply response .done)
  | cancelReceive {generation id response : ℕ} {e : StreamEntry} : a.streams.lookup id = some e →
      Obeys codec w a (.cancelReceive generation id response)
        (((a.setEntry id { e with receiver := none }).replyAll e.receiver.toList
          (.error .disconnected)).reply response .done)
  | goAwayFull {generation response : ℕ} : a.pendingGoaway.isSome →
      Obeys codec w a (.goAway generation response) (a.reply response (.error .queueFull))
  | goAway {generation response : ℕ} {b : Actor} : a.pendingGoaway = none →
      a.Submits ⟨.control, frameOf .goAway 0 (a.nextSequenceFor 0) [] false⟩ {} b →
      Obeys codec w a (.goAway generation response) { b with pendingGoaway := some response }
  | shutdown : Obeys codec w a .shutdown a

/-- What happens to a frame that the session state has accepted, where nothing fails. -/
inductive Dispatches (codec : ServiceCodec) (w : World) (a : Actor) (frame : Frame) : Actor → Prop
  | open {service : String} : frame.header.command = .open →
      codec.decodeOpen frame.payload = .ok service → w.connectionAlive → w.incomingAlive →
      Dispatches codec w a frame { a.setEntry frame.header.streamId (.new .bulk 0) with
        trace := { a.trace with incoming := a.trace.incoming ++
          [.ok ⟨service, frame.header.streamId, a.generation⟩] } }
  | accept {e : StreamEntry} {b : Actor} : frame.header.command = .accept →
      a.streams.lookup frame.header.streamId = some e →
      a.Submits ⟨.control, creditOf frame.header.streamId
        (a.nextSequenceFor frame.header.streamId) e.receiveWindow⟩ {} b →
      Dispatches codec w a frame ((b.setEntry frame.header.streamId
        { e with opener := none }).replyAll e.opener.toList (.opened frame.header.streamId))
  | reject : frame.header.command = .reject → Dispatches codec w a frame (a.rejectOpen frame)
  | credit {b : Actor} : frame.header.command = .credit → frame.header.streamId ≠ 0 →
      a.Flushes frame.header.streamId b → Dispatches codec w a frame b
  | connectionCredit {b : Actor} : frame.header.command = .credit → frame.header.streamId = 0 →
      FlushesAll (w.order a.streams.keys) a b → Dispatches codec w a frame b
  | deliver {b : Actor} : frame.header.command = .data ∨ frame.header.command = .close ∨
      frame.header.command = .reset → a.Delivers frame b → Dispatches codec w a frame b
  | ping {b : Actor} : frame.header.command = .ping →
      a.Submits ⟨.control, frameOf .pong 0 (a.nextSequenceFor 0) frame.payload false⟩ {} b →
      Dispatches codec w a frame b
  | pong : frame.header.command = .pong → Dispatches codec w a frame (a.handlePong frame)
  | goAway {b : Actor} : frame.header.command = .goAway → a.pendingGoaway = none →
      a.restartable → { a.failStreams .disconnected with
        controlSequence := a.controlSequence, awaitingRestart := true }.Submits
          ⟨.control, frameOf .goAway 0 a.controlSequence [] false⟩ {} b →
      Dispatches codec w a frame b

/-- A HELLO on stream 0 of an actor that can be restarted. -/
def Restarts (a : Actor) (frame : Frame) : Prop :=
  frame.header.command = .hello ∧ frame.header.streamId = 0 ∧ a.restartable

/-- DATA for a finished stream, whose bytes are given back unread. -/
def Discards (a : Actor) (frame : Frame) : Prop :=
  frame.header.command = .data ∧ (a.state.streams frame.header.streamId).any (·.phase.Terminal)

instance {a : Actor} {frame : Frame} : Decidable (a.Discards frame) :=
  inferInstanceAs (Decidable (_ ∧ _))

/-- The session state accepts a frame and becomes `s`. -/
def Accepts (codec : ServiceCodec) (a : Actor) (frame : Frame) (s : SessionState) : Prop :=
  ∃ context t, inboundContext codec frame = .ok context ∧
    a.state.Admitted .inbound frame.header context ∧
    a.state.Applies frame.header context .inbound t ∧ s = advanceSequence .inbound frame.header t

/-- The actor of a fresh session, before its HELLO is written. -/
def restarted (r : RestartedSession) (a : Actor) : Actor :=
  { { a with generation := a.generation + 1 }.failStreams .disconnected with
    state := r.state, awaitingRestart := false }

/-- The actor after a frame has been taken from the writer queue and written. -/
def wrote (item : ScheduledFrame) (a : Actor) : Actor :=
  let key := (item.frame.header.streamId, item.frame.header.sequence)
  let b := { (a.write item.frame).replyAll (a.writeWaiters.lookup key).toList .done with
    scheduler := a.scheduler.dequeue.2
    writeWaiters := a.writeWaiters.erase key }
  if terminal item.frame then b.retireStream item.streamId .disconnected else b

inductive Handles (codec : ServiceCodec) (w : World) (a : Actor) : Event → Actor → Prop
  | refused {command : ActorCommand} : command ≠ .shutdown →
      a.awaitingRestart ∨ command.generation ≠ some a.generation →
      Handles codec w a (.command command) (a.respondError command .disconnected)
  | obeyed {command : ActorCommand} {b : Actor} :
      a.awaitingRestart = false ∨ command = .shutdown →
      command.generation = some a.generation ∨ command = .shutdown →
      Obeys codec w a command b → Handles codec w a (.command command) b
  | restarted {frame : Frame} {r : RestartedSession} : a.Restarts frame →
      w.restart frame = .ok r → a.generation < u64Max → w.sink = .ok () →
      Handles codec w a (.inbound frame) ((a.restarted r).write r.helloResponse)
  | unwritten {frame : Frame} {r : RestartedSession} {message : String} : a.Restarts frame →
      w.restart frame = .ok r → a.generation < u64Max → w.sink = .error message →
      Handles codec w a (.inbound frame)
        ({ a.restarted r with awaitingRestart := true }.failStreams (.transport message))
  | ignored {frame : Frame} : ¬ a.Restarts frame → a.awaitingRestart →
      Handles codec w a (.inbound frame) a
  | discarded {frame : Frame} {s : SessionState} {b : Actor} : ¬ a.Restarts frame →
      a.awaitingRestart = false → a.Discards frame → Accepts codec a frame s →
      { a with state := s }.Restores frame b → Handles codec w a (.inbound frame) b
  | dispatched {frame : Frame} {s : SessionState} {b : Actor} : ¬ a.Restarts frame →
      a.awaitingRestart = false → ¬ a.Discards frame → Accepts codec a frame s →
      Dispatches codec w { a with state := s } frame b → Handles codec w a (.inbound frame) b
  | idle : a.scheduler.dequeue.1 = none →
      Handles codec w a .dequeue { a with scheduler := a.scheduler.dequeue.2 }
  | wrote {item : ScheduledFrame} : a.scheduler.dequeue.1 = some item → w.sink = .ok () →
      Handles codec w a .dequeue (a.wrote item)
  | expired : Handles codec w a .expire (a.expirePings w.now)
  | closed {event : Event} : event = .commandsClosed ∨ event = .inboundClosed ∨
      (∃ message, event = .inboundFailed message) → Handles codec w a event a

section Inversion

variable {w : World} {trafficClass : TrafficClass}
  {command : ActorCommand} {response : ℕ}

theorem onStream_ok (command : ActorCommand) {id response : ℕ}
    {request : StreamEntry → ActorM Unit} (hid : command.streamId = some id)
    (hresponse : command.response = some response)
    (hr : (onStream id response request).run a = (.ok (), b)) : Obeys codec w a command b ∨
      ∃ e, a.streams.lookup id = some e ∧ (request e).run a = (.ok (), b) := by
  unfold onStream at hr
  simp only [run_get_bind] at hr
  cases he : a.streams.lookup id with
  | none =>
    simp only [he, run_modify, Prod.mk.injEq, true_and] at hr
    subst hr
    exact .inl (.gone hid hresponse he)
  | some e =>
    simp only [he] at hr
    exact .inr ⟨e, rfl, hr⟩

theorem handlePing_ok {generation timeout response : ℕ}
    (hr : (handlePing w generation timeout response).run a = (.ok (), b)) :
    Obeys codec w a (.ping generation timeout response) b := by
  unfold handlePing at hr
  simp only [run_get_bind, run_ite, run_modify, run_fail_bind, run_modify_bind,
    run_attempt_bind] at hr
  split_ifs at hr with hfull hlast hlate
  · obtain rfl := (Prod.mk.inj hr).2
    exact .pingFull hfull
  · simp at hr
  · obtain rfl := (Prod.mk.inj hr).2
    exact .pingLate hlate
  · generalize hq : (queueFrame .ping 0 (leBytes generation ++ leBytes a.nextPingId) false .control
      {}).run { a with nextPingId := a.nextPingId + 1 } = r at hr
    rcases r with ⟨_ | _, c⟩
    · simp at hr
    · obtain rfl := (Prod.mk.inj hr).2
      exact .ping rfl (queueFrame_ok_iff.mp hq)

theorem handleOpen_ok {generation : ℕ} {service : String} {receiveWindow : ℕ}
    (hr : (handleOpen codec service receiveWindow trafficClass response).run a = (.ok (), b)) :
    Obeys codec w a (.open generation service receiveWindow trafficClass response) b := by
  unfold handleOpen at hr
  obtain ⟨id, c, hz, hr⟩ := bind_ok_iff.mp hr
  obtain ⟨s, hs, rfl⟩ := zoom_ok_iff.mp hz
  simp only [allocateStreamId, run_get_bind] at hs
  split at hs
  · simp at hs
  · rename_i n hn
    simp only [run_modify_bind, run_pure, Prod.mk.injEq, Except.ok.injEq] at hs
    obtain ⟨rfl, rfl⟩ := hs
    simp only [run_modify_bind] at hr
    obtain ⟨payload, c, hencode, hr⟩ := bind_ok_iff.mp hr
    obtain ⟨hp, rfl⟩ := ofExcept_ok_iff.mp hencode
    exact .open hn (mapError_eq_ok_iff.mp hp) (queueFrame_ok_iff.mp hr)

theorem handleAccept_ok {generation id receiveWindow : ℕ} {e : StreamEntry}
    (he : a.streams.lookup id = some e)
    (hr : (handleAccept codec id receiveWindow trafficClass response e).run a = (.ok (), b)) :
    Obeys codec w a (.accept generation id receiveWindow trafficClass response) b := by
  unfold handleAccept at hr
  simp only [run_modify_bind] at hr
  obtain ⟨payload, c, hencode, hr⟩ := bind_ok_iff.mp hr
  obtain ⟨hp, rfl⟩ := ofExcept_ok_iff.mp hencode
  obtain ⟨c, hs, rfl⟩ := queueAndReply_ok_iff.mp hr
  exact .accept he (mapError_eq_ok_iff.mp hp) hs

theorem handleCommand_ok
    (hr : (handleCommand codec w command).run a = (.ok (), b)) : Obeys codec w a command b := by
  unfold handleCommand at hr
  cases command with
  | ping => exact handlePing_ok hr
  | «open» => exact handleOpen_ok hr
  | accept g id receiveWindow trafficClass response =>
    obtain h | ⟨e, he, hr⟩ := onStream_ok (.accept g id receiveWindow trafficClass response) rfl rfl hr
    · exact h
    · exact handleAccept_ok he hr
  | reject g id reason response =>
    obtain h | ⟨e, he, hr⟩ := onStream_ok (.reject g id reason response) rfl rfl hr
    · exact h
    · obtain ⟨c, hs, rfl⟩ := queueAndReply_ok_iff.mp hr
      exact .reject he hs
  | sendData g id payload endStream response =>
    obtain h | ⟨e, he, hr⟩ := onStream_ok (.sendData g id payload endStream response) rfl rfl hr
    · exact h
    · exact .sendData (sendOrWait_ok_iff.mp hr)
  | receive g id response =>
    obtain h | ⟨e, he, hr⟩ := onStream_ok (.receive g id response) rfl rfl hr
    · exact h
    · exact .receive (receiveOrWait_ok_iff.mp hr)
  | close g id response =>
    obtain h | ⟨e, he, hr⟩ := onStream_ok (.close g id response) rfl rfl hr
    · exact h
    · obtain ⟨c, hs, rfl⟩ := queueAndReply_ok_iff.mp hr
      exact .close he hs
  | reset g id reason response =>
    obtain h | ⟨e, he, hr⟩ := onStream_ok (.reset g id reason response) rfl rfl hr
    · exact h
    · obtain ⟨c, hs, rfl⟩ := queueAndReply_ok_iff.mp hr
      exact .reset he hs
  | cancelReceive g id response =>
    obtain h | ⟨e, he, hr⟩ := onStream_ok (.cancelReceive g id response) rfl rfl hr
    · exact h
    · simp only [run_modify_bind, run_modify, Prod.mk.injEq, true_and] at hr
      subst hr
      exact .cancelReceive he
  | goAway _ response =>
    simp only [run_get_bind, run_ite, run_modify] at hr
    split_ifs at hr with hpending
    · obtain rfl := (Prod.mk.inj hr).2
      exact .goAwayFull hpending
    · obtain ⟨_, c, hs, hr⟩ := bind_ok_iff.mp hr
      obtain rfl := (Prod.mk.inj hr).2
      exact .goAway (by simpa using hpending) (queueFrame_ok_iff.mp hs)
  | shutdown =>
    obtain rfl := (Prod.mk.inj hr).2
    exact .shutdown

theorem handleCurrentCommand_ok (hr : (handleCurrentCommand codec w command).run a = (.ok (), b)) :
    Handles codec w a (.command command) b := by
  unfold handleCurrentCommand at hr
  simp only [run_get_bind, run_ite, run_modify] at hr
  split_ifs at hr with hawait hstale
  · obtain rfl := (Prod.mk.inj hr).2
    exact .refused hawait.2 (.inl hawait.1)
  · obtain rfl := (Prod.mk.inj hr).2
    obtain ⟨g, hg, hne⟩ := (Option.any_eq_true _ _).mp hstale
    refine .refused ?_ (.inr ?_)
    · rintro rfl
      simp [ActorCommand.generation] at hg
    · simpa [hg] using hne
  · refine .obeyed ?_ ?_ (handleCommand_ok hr)
    · by_cases hs : command = .shutdown
      · exact .inr hs
      · exact .inl (by simpa [hs] using hawait)
    · cases command <;> simp_all [ActorCommand.generation]

theorem acceptIncomingOpen_ok (hc : frame.header.command = .open)
    (hr : (acceptIncomingOpen codec w frame).run a = (.ok (), b)) :
    Dispatches codec w a frame b := by
  unfold acceptIncomingOpen at hr
  obtain ⟨service, c, hdecode, hrest⟩ := bind_ok_iff.mp hr
  obtain ⟨hs, rfl⟩ := ofExcept_ok_iff.mp hdecode
  simp only [run_modify_bind, run_ite, run_fail_bind, run_modify] at hrest
  split_ifs at hrest with halive hincoming
  · simp at hrest
  · simp at hrest
  · obtain rfl := (Prod.mk.inj hrest).2
    exact .open hc (mapError_eq_ok_iff.mp hs) (by simpa using halive) (by simpa using hincoming)

theorem completeOpen_ok (hc : frame.header.command = .accept)
    (hr : (completeOpen frame.header.streamId).run a = (.ok (), b)) :
    Dispatches codec w a frame b := by
  unfold completeOpen at hr
  simp only [run_get_bind] at hr
  split at hr
  · simp at hr
  · rename_i e he
    obtain ⟨_, c, hs, hr⟩ := bind_ok_iff.mp hr
    simp only [run_modify_bind, run_modify] at hr
    obtain rfl := (Prod.mk.inj hr).2
    exact .accept hc he (queueCredit_ok_iff.mp hs)

theorem handleGoAway_ok (hc : frame.header.command = .goAway)
    (hr : handleGoAway.run a = (.ok (), b)) : Dispatches codec w a frame b := by
  unfold handleGoAway at hr
  simp only [run_get_bind] at hr
  split at hr
  · simp at hr
  · rename_i hpending
    split_ifs at hr with hrestart
    · simp only [run_modify_bind] at hr
      exact .goAway hc hpending hrestart (queueFrame_ok_iff.mp hr)
    · simp at hr

theorem dispatch_ok (hr : (dispatch codec w frame).run a = (.ok (), b)) :
    Dispatches codec w a frame b := by
  unfold dispatch at hr
  cases hc : frame.header.command <;> simp only [hc] at hr
  case «open» => exact acceptIncomingOpen_ok hc hr
  case accept => exact completeOpen_ok hc hr
  case reject =>
    obtain rfl := (Prod.mk.inj hr).2
    exact .reject hc
  case credit =>
    simp only [flushPending, run_get_bind, run_ite] at hr
    split_ifs at hr with hz
    · exact .connectionCredit hc hz (flushStreams_ok_iff.mp hr)
    · exact .credit hc hz (flushStream_ok_iff.mp hr)
  case data => exact .deliver (.inl hc) (deliver_ok_iff.mp hr)
  case close => exact .deliver (.inr (.inl hc)) (deliver_ok_iff.mp hr)
  case reset => exact .deliver (.inr (.inr hc)) (deliver_ok_iff.mp hr)
  case ping => exact .ping hc (queueFrame_ok_iff.mp hr)
  case pong =>
    obtain rfl := (Prod.mk.inj hr).2
    exact .pong hc
  case goAway => exact handleGoAway_ok hc hr
  all_goals simp at hr

theorem restartSession_ok (hrestart : a.Restarts frame)
    (hr : (restartSession w frame).run a = (.ok (), b)) : Handles codec w a (.inbound frame) b := by
  unfold restartSession at hr
  obtain ⟨r, c, hlift, hrest⟩ := bind_ok_iff.mp hr
  obtain ⟨hw, rfl⟩ := ofExcept_ok_iff.mp hlift
  simp only [run_get_bind, run_ite, run_fail_bind, run_modify_bind] at hrest
  split_ifs at hrest with hlast
  · simp at hrest
  · split at hrest
    · rename_i hsink
      obtain rfl := (Prod.mk.inj hrest).2
      exact .restarted hrestart hw (by omega) hsink
    · rename_i message hsink
      obtain rfl := (Prod.mk.inj hrest).2
      exact .unwritten hrestart hw (by omega) hsink

theorem Dispatches.ne_hello (h : Dispatches codec w a frame b) : frame.header.command ≠ .hello := by
  intro hc
  cases h <;> simp_all

theorem Dispatches.goAway_or (h : Dispatches codec w a frame b) :
    frame.header.command ≠ .goAway ∨ frame.header.command = .goAway ∧ a.pendingGoaway = none ∧
      a.restartable ∧ { a.failStreams .disconnected with
        controlSequence := a.controlSequence, awaitingRestart := true }.Submits
          ⟨.control, frameOf .goAway 0 a.controlSequence [] false⟩ {} b := by
  cases h with
  | goAway hc hpending hrestartable hs => exact .inr ⟨hc, hpending, hrestartable, hs⟩
  | deliver hc => exact .inl (by rcases hc with hc | hc | hc <;> simp [hc])
  | _ hc => exact .inl (by simp [hc])

theorem handleInbound_ok (hr : (handleInbound codec w frame).run a = (.ok (), b)) :
    Handles codec w a (.inbound frame) b := by
  unfold handleInbound at hr
  simp only [run_get_bind] at hr
  split at hr
  · rename_i hhello
    exact restartSession_ok ⟨hhello.1.1, hhello.1.2, hhello.2⟩ hr
  rename_i hhello
  have hno : ¬ a.Restarts frame := fun h => hhello ⟨⟨h.1, h.2.1⟩, h.2.2⟩
  split at hr
  · rename_i hignored
    obtain rfl := (Prod.mk.inj hr).2
    exact .ignored hno hignored.2
  rename_i hignored
  have hlive (hc : frame.header.command ≠ .hello) : a.awaitingRestart = false := by
    simpa [hc] using hignored
  obtain ⟨context, c, hlift, hrest⟩ := bind_ok_iff.mp hr
  obtain ⟨hcontext, rfl⟩ := ofExcept_ok_iff.mp hlift
  obtain ⟨_, c, hzoom, hlast⟩ := bind_ok_iff.mp hrest
  obtain ⟨s, hp, rfl⟩ := zoom_ok_iff.mp hzoom
  obtain ⟨hadm, t, ha, rfl⟩ := process_ok_iff.mp hp
  have haccepts : Accepts codec _ frame _ := ⟨context, t, hcontext, hadm, ha, rfl⟩
  split at hlast
  · rename_i hdiscard
    exact .discarded hno (hlive (by simp [hdiscard.1])) hdiscard haccepts
      (restoreConsumedCredit_ok_iff.mp hlast)
  · rename_i hdiscard
    have hd := dispatch_ok hlast
    exact .dispatched hno (hlive hd.ne_hello) hdiscard haccepts hd

theorem writeNext_ok (hr : (writeNext w).run a = (.ok (), b)) : Handles codec w a .dequeue b := by
  unfold writeNext at hr
  simp only [run_get_bind, run_modify_bind] at hr
  split at hr
  · rename_i hnone
    obtain rfl := (Prod.mk.inj hr).2
    exact .idle hnone
  · rename_i item hsome
    split at hr
    · simp at hr
    · rename_i hsink
      suffices hb : b = a.wrote item from hb ▸ .wrote hsome hsink
      unfold wrote
      simp only [run_modify_bind] at hr
      split_ifs at hr ⊢ with ht <;> exact (Prod.mk.inj hr).2.symm

theorem handle_ok (hr : (handle codec w event).run a = (.ok (), b)) :
    Handles codec w a event b := by
  cases event with
  | command command => exact handleCurrentCommand_ok hr
  | inbound frame => exact handleInbound_ok hr
  | dequeue => exact writeNext_ok hr
  | expire =>
    obtain rfl := (Prod.mk.inj hr).2
    exact .expired
  | commandsClosed =>
    obtain rfl := (Prod.mk.inj hr).2
    exact .closed (.inl rfl)
  | inboundFailed message =>
    obtain rfl := (Prod.mk.inj hr).2
    exact .closed (.inr (.inr ⟨message, rfl⟩))
  | inboundClosed =>
    obtain rfl := (Prod.mk.inj hr).2
    exact .closed (.inr (.inl rfl))

end Inversion

/-- The events after which the loop ends. -/
def Event.Final : Event → Prop
  | .command .shutdown | .commandsClosed | .inboundFailed _ | .inboundClosed => True
  | _ => False

/-- One turn of the loop, split by what becomes of the event. -/
inductive Steps (codec : ServiceCodec) (w : World) (a : Actor) (event : Event) : Actor → Prop
  | stopped : a.running = false → Steps codec w a event a
  | finished {b : Actor} : a.running → event.Final → b = a ∨ (∃ e, b = a.failAll w e) →
      Steps codec w a event (b.finish w)
  | handled {b : Actor} : a.running → ¬ event.Final →
      (handle codec w event).run a = (.ok (), b) → Steps codec w a event b
  | restarting {b : Actor} {e : ConnectionError} : a.running → ¬ event.Final →
      (handle codec w event).run a = (.error e, b) → b.restartable →
      Steps codec w a event (b.beginRestart e)
  | failed {b : Actor} {e : ConnectionError} : a.running → ¬ event.Final →
      (handle codec w event).run a = (.error e, b) → b.restartable = false →
      Steps codec w a event ((b.failAll w e).finish w)

theorem step_steps (codec : ServiceCodec) (a : Actor) (w : World) (event : Event) :
    Steps codec w a event (step codec a (w, event)) := by
  have hhandle (hrun : a.running) (hf : ¬ event.Final) :
      Steps codec w a event (recover w ((handle codec w event).run a)) := by
    rcases hr : (handle codec w event).run a with ⟨e | _, b⟩
    · unfold recover
      dsimp only
      split_ifs with hb
      · exact .restarting hrun hf hr hb
      · exact .failed hrun hf hr (by simpa using hb)
    · exact .handled hrun hf hr
  cases hrun : a.running with
  | false =>
    unfold step
    simp only [hrun, Bool.not_false, if_true]
    exact .stopped hrun
  | true =>
    unfold step
    simp only [hrun, Bool.not_true, Bool.false_eq_true, if_false]
    split
    · exact .finished hrun trivial (.inl rfl)
    · exact .finished hrun trivial (.inl rfl)
    · exact .finished hrun trivial (.inr ⟨_, rfl⟩)
    · exact .finished hrun trivial (.inr ⟨_, rfl⟩)
    · refine hhandle hrun ?_
      intro hf
      unfold Event.Final at hf
      split at hf <;> simp_all

@[elab_as_elim]
theorem step_induction {motive : Actor → Prop} (codec : ServiceCodec) (a : Actor)
    (input : World × Event) (h : ∀ b, Steps codec input.1 a input.2 b → motive b) :
    motive (step codec a input) :=
  h _ (step_steps codec a input.1 input.2)

theorem step_of_ok {w : World}
    (hrun : a.running) (hf : ¬ event.Final) (hr : (handle codec w event).run a = (.ok (), b)) :
    step codec a (w, event) = b := by
  refine step_induction codec a (w, event) fun c hsteps => ?_
  cases hsteps with
  | stopped hstop => simp [hrun] at hstop
  | finished _ hf' => exact absurd hf' hf
  | handled _ _ hr' => exact (Prod.mk.inj (hr'.symm.trans hr)).2
  | restarting _ _ hr' | failed _ _ hr' => simp [hr] at hr'

theorem step_of_error {w : World} {e : ConnectionError} (hrun : a.running) (hf : ¬ event.Final)
    (hr : (handle codec w event).run a = (.error e, b)) (hb : b.restartable = false) :
    step codec a (w, event) = (b.failAll w e).finish w := by
  refine step_induction codec a (w, event) fun c hsteps => ?_
  cases hsteps with
  | stopped hstop => simp [hrun] at hstop
  | finished _ hf' => exact absurd hf' hf
  | handled _ _ hr' => simp [hr] at hr'
  | restarting _ _ hr' hb' =>
    obtain ⟨-, rfl⟩ := Prod.mk.inj (hr'.symm.trans hr)
    simp [hb] at hb'
  | failed _ _ hr' =>
    obtain ⟨he, rfl⟩ := Prod.mk.inj (hr'.symm.trans hr)
    rw [Except.error.inj he]

end Actor

end KindleBridge.Transport
