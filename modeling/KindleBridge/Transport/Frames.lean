import KindleBridge.Transport.Actor

/-! # What the handlers leave alone

Handlers of commands and frames do not touch the generation, the wait for a restart or
what has been written, whether they succeed or fail. What they queue is queued under the
current generation.
-/

namespace KindleBridge.Transport

open Wire Op

namespace Actor

/-- The session goes on: only tables, credit and queues may have changed. -/
structure Steady (a b : Actor) : Prop where
  awaitingRestart : b.awaitingRestart = a.awaitingRestart
  restartable : b.restartable = a.restartable
  running : b.running = a.running
  generation : b.generation = a.generation
  pendingGoaway : b.pendingGoaway = a.pendingGoaway
  written : b.trace.written = a.trace.written
  queued : ∃ frames : List Frame,
    b.trace.queued = a.trace.queued ++ frames.map (a.generation, ·)

instance : IsPreorder Actor Steady where
  refl _ := ⟨rfl, rfl, rfl, rfl, rfl, rfl, [], by simp⟩
  trans a b c h h' := by
    obtain ⟨frames, hq⟩ := h.queued
    obtain ⟨frames', hq'⟩ := h'.queued
    refine ⟨h'.awaitingRestart.trans h.awaitingRestart, h'.restartable.trans h.restartable,
      h'.running.trans h.running, h'.generation.trans h.generation,
      h'.pendingGoaway.trans h.pendingGoaway, h'.written.trans h.written, frames ++ frames', ?_⟩
    rw [hq', hq, h.generation]
    simp

/-- The parts of an actor that only events of the session itself change. -/
def session (a : Actor) : Bool × Bool × Bool × ℕ × Option ℕ × List (ℕ × Frame) × List (ℕ × Frame) :=
  (a.awaitingRestart, a.restartable, a.running, a.generation, a.pendingGoaway, a.trace.written,
    a.trace.queued)

theorem steady_of_session {a b : Actor} (h : b.session = a.session) : a.Steady b := by
  simp only [session, Prod.mk.injEq] at h
  obtain ⟨h1, h2, h3, h4, h5, h6, h7⟩ := h
  exact ⟨h1, h2, h3, h4, h5, h6, [], by simpa using h7⟩

theorem steady_modify {f : Actor → Actor} (h : ∀ a, (f a).session = a.session) :
    (modify f : ActorM Unit).Respects Steady := fun a => steady_of_session (h a)

variable {id response : ℕ} {payload : List UInt8} {endStream : Bool} {trafficClass : TrafficClass}
  {context : FrameContext} {frame : Frame} {command : Command}

theorem takeSequence_steady : (takeSequence id).Respects Steady := by
  unfold takeSequence
  refine respects_get_bind fun a => ?_
  refine respects_ite ?_ ?_
  · exact respects_bind (respects_fail _) fun _ =>
      respects_bind (steady_modify fun _ => rfl) fun _ => respects_pure _
  · exact respects_bind (steady_modify fun _ => rfl) fun _ => respects_pure _

theorem submit_steady {name : String} :
    (submit trafficClass context frame name).Respects Steady := by
  unfold submit
  refine respects_bind (fun a => steady_of_session rfl) fun _ => ?_
  refine respects_bind (fun a => steady_of_session rfl) fun _ a => ?_
  exact ⟨rfl, rfl, rfl, rfl, rfl, rfl, [frame], rfl⟩

theorem queueCredit_steady {delta : ℕ} : (queueCredit id delta).Respects Steady := by
  unfold queueCredit
  exact respects_bind takeSequence_steady fun _ =>
    respects_bind (respects_ofExcept _) fun _ => submit_steady

theorem queueFrame_steady :
    (queueFrame command id payload endStream trafficClass context).Respects Steady := by
  unfold queueFrame
  exact respects_bind takeSequence_steady fun _ =>
    respects_bind (respects_ofExcept _) fun _ => submit_steady

theorem restoreConsumedCredit_steady : (restoreConsumedCredit frame).Respects Steady := by
  unfold restoreConsumedCredit
  refine respects_ite (respects_pure _) ?_
  refine respects_get_bind fun a => respects_ite ?_ queueCredit_steady
  exact respects_bind queueCredit_steady fun _ => queueCredit_steady

theorem queueData_steady :
    (queueData id payload endStream trafficClass response).Respects Steady := by
  unfold queueData
  refine respects_get_bind fun a => ?_
  refine respects_bind (respects_attempt queueFrame_steady) fun r => ?_
  cases r with
  | ok => exact steady_modify fun _ => rfl
  | error => exact respects_bind (steady_modify fun _ => rfl) fun _ => respects_fail _

theorem sendOrWait_steady : (sendOrWait id payload endStream response).Respects Steady := by
  unfold sendOrWait
  refine respects_get_bind fun a => ?_
  split
  · exact respects_fail _
  · refine respects_ite ?_ (respects_ite (respects_fail_bind _) ?_)
    · exact respects_bind (steady_modify fun _ => rfl) fun _ => respects_fail_bind _
    · exact respects_ite queueData_steady (steady_modify fun _ => rfl)

theorem flushStream_steady : (flushStream id).Respects Steady := by
  unfold flushStream
  refine respects_get_bind fun a => ?_
  split
  · exact respects_pure _
  · split
    · exact respects_pure _
    · refine respects_bind (steady_modify fun _ => rfl) fun _ => ?_
      refine respects_ite (respects_fail_bind _) ?_
      exact respects_ite (steady_modify fun _ => rfl) queueData_steady

theorem flushStreams_steady (ids : List ℕ) : (flushStreams ids).Respects Steady := by
  induction ids with
  | nil => exact respects_pure _
  | cons id ids ih => exact respects_bind flushStream_steady fun _ => ih

theorem flushPending_steady {w : World} : (flushPending w id).Respects Steady := by
  unfold flushPending
  exact respects_get_bind fun a => respects_ite (flushStreams_steady _) flushStream_steady

theorem hand_steady : (do
    modify (reply response (.frame frame))
    if terminal frame then modify (retireStream id .disconnected) : ActorM Unit).Respects
      Steady := by
  refine respects_bind (steady_modify fun _ => rfl) fun _ => ?_
  exact respects_ite (steady_modify fun _ => rfl) (respects_pure _)

theorem receiveOrWait_steady : (receiveOrWait id response).Respects Steady := by
  unfold receiveOrWait
  refine respects_get_bind fun a => ?_
  split
  · exact respects_fail _
  · refine respects_ite ?_ ?_
    · exact respects_bind (steady_modify fun _ => rfl) fun _ => respects_fail_bind _
    · split
      · exact steady_modify fun _ => rfl
      · exact respects_bind (steady_modify fun _ => rfl) fun _ =>
          respects_bind restoreConsumedCredit_steady fun _ => hand_steady

theorem deliver_steady : (deliver frame).Respects Steady := by
  unfold deliver
  refine respects_get_bind fun a => ?_
  split
  · exact respects_fail _
  · split
    · exact respects_bind (steady_modify fun _ => rfl) fun _ =>
        respects_bind restoreConsumedCredit_steady fun _ => hand_steady
    · refine respects_bind (steady_modify fun _ => rfl) fun _ => ?_
      exact respects_ite (respects_fail_bind _) (steady_modify fun _ => rfl)

theorem queueAndReply_steady :
    (queueAndReply command id payload context response).Respects Steady := by
  unfold queueAndReply
  exact respects_bind (respects_attempt queueFrame_steady) fun _ =>
    respects_bind (steady_modify fun _ => rfl) fun _ => respects_ofExcept _

theorem onStream_steady {request : StreamEntry → ActorM Unit}
    (h : ∀ e, (request e).Respects Steady) : (onStream id response request).Respects Steady := by
  unfold onStream
  refine respects_get_bind fun a => ?_
  split
  · exact steady_modify fun _ => rfl
  · exact h _

variable {codec : ServiceCodec} {w : World} {command : ActorCommand} {receiveWindow : ℕ}

theorem handlePing_steady {generation timeout : ℕ} :
    (handlePing w generation timeout response).Respects Steady := by
  unfold handlePing
  refine respects_get_bind fun a => respects_ite (steady_modify fun _ => rfl) ?_
  refine respects_ite (respects_fail_bind _) ?_
  refine respects_bind (steady_modify fun _ => rfl) fun _ => ?_
  refine respects_ite (steady_modify fun _ => rfl) ?_
  refine respects_bind (respects_attempt queueFrame_steady) fun r => ?_
  cases r with
  | ok => exact steady_modify fun _ => rfl
  | error => exact respects_bind (steady_modify fun _ => rfl) fun _ => respects_fail _

theorem handleOpen_steady {service : String} :
    (handleOpen codec service receiveWindow trafficClass response).Respects Steady := by
  unfold handleOpen
  refine respects_bind (fun a => steady_of_session rfl) fun _ => ?_
  exact respects_bind (steady_modify fun _ => rfl) fun _ =>
    respects_bind (respects_ofExcept _) fun _ => queueFrame_steady

theorem handleAccept_steady {e : StreamEntry} :
    (handleAccept codec id receiveWindow trafficClass response e).Respects Steady := by
  unfold handleAccept
  exact respects_bind (steady_modify fun _ => rfl) fun _ =>
    respects_bind (respects_ofExcept _) fun _ => queueAndReply_steady

theorem handleCommand_steady (h : ∀ generation response, command ≠ .goAway generation response) :
    (handleCommand codec w command).Respects Steady := by
  cases command with
  | ping => exact handlePing_steady
  | «open» => exact handleOpen_steady
  | accept => exact onStream_steady fun _ => handleAccept_steady
  | reject | close | reset => exact onStream_steady fun _ => queueAndReply_steady
  | sendData => exact onStream_steady fun _ => sendOrWait_steady
  | receive => exact onStream_steady fun _ => receiveOrWait_steady
  | cancelReceive =>
    exact onStream_steady fun _ => respects_bind (steady_modify fun _ => rfl) fun _ =>
      respects_bind (steady_modify fun _ => rfl) fun _ => steady_modify fun _ => rfl
  | goAway g r => exact absurd rfl (h g r)
  | shutdown => exact respects_pure _

theorem acceptIncomingOpen_steady : (acceptIncomingOpen codec w frame).Respects Steady := by
  unfold acceptIncomingOpen
  refine respects_bind (respects_ofExcept _) fun _ => ?_
  refine respects_bind (steady_modify fun _ => rfl) fun _ => ?_
  refine respects_ite (respects_fail_bind _) ?_
  exact respects_ite (respects_fail_bind _) (steady_modify fun _ => rfl)

theorem completeOpen_steady : (completeOpen id).Respects Steady := by
  unfold completeOpen
  refine respects_get_bind fun a => ?_
  split
  · exact respects_fail _
  · exact respects_bind queueCredit_steady fun _ =>
      respects_bind (steady_modify fun _ => rfl) fun _ => steady_modify fun _ => rfl

theorem dispatch_steady (h : frame.header.command ≠ .goAway) :
    (dispatch codec w frame).Respects Steady := by
  unfold dispatch
  split
  · exact acceptIncomingOpen_steady
  · exact completeOpen_steady
  · exact steady_modify fun _ => rfl
  · exact flushPending_steady
  · exact deliver_steady
  · exact deliver_steady
  · exact deliver_steady
  · exact queueFrame_steady
  · exact steady_modify fun _ => rfl
  · contradiction
  · exact respects_fail _
  · exact respects_fail _

theorem handleCurrentCommand_steady
    (h : ∀ generation response, command ≠ .goAway generation response) :
    (handleCurrentCommand codec w command).Respects Steady := by
  unfold handleCurrentCommand
  refine respects_get_bind fun a => ?_
  refine respects_ite (steady_modify fun _ => rfl) ?_
  exact respects_ite (steady_modify fun _ => rfl) (handleCommand_steady h)

theorem handleInbound_steady (h : frame.header.command ≠ .goAway)
    (hello : frame.header.command ≠ .hello) : (handleInbound codec w frame).Respects Steady := by
  unfold handleInbound
  refine respects_get_bind fun a => ?_
  rw [if_neg (by simp [hello])]
  refine respects_ite (respects_pure _) ?_
  refine respects_bind (respects_ofExcept _) fun _ => ?_
  refine respects_bind (fun a => steady_of_session rfl) fun _ => ?_
  exact respects_ite restoreConsumedCredit_steady (dispatch_steady h)

/-- What an event that ends in a connection error leaves as it was. -/
structure Fails (a b : Actor) : Prop where
  restartable : b.restartable = a.restartable
  generation : b.generation = a.generation
  written : b.trace.written = a.trace.written
  pendingGoaway : b.pendingGoaway = a.pendingGoaway ∨ b.pendingGoaway = none
  queued : ∃ frames : List Frame,
    b.trace.queued = a.trace.queued ++ frames.map (a.generation, ·)

section Fails

variable {a b : Actor} {e : ConnectionError}

theorem Fails.refl : a.Fails a := ⟨rfl, rfl, rfl, .inl rfl, [], by simp⟩

theorem Steady.fails (h : a.Steady b) : a.Fails b :=
  ⟨h.restartable, h.generation, h.written, .inl h.pendingGoaway, h.queued⟩

theorem handleGoAway_fails (hr : handleGoAway.run a = (.error e, b)) : a.Fails b := by
  unfold handleGoAway at hr
  simp only [run_get_bind] at hr
  split at hr
  · obtain ⟨-, rfl⟩ := Prod.mk.inj hr
    exact ⟨rfl, rfl, rfl, .inr rfl, [], by simp [reply]⟩
  · split_ifs at hr
    · simp only [run_modify_bind] at hr
      have hsteady := queueFrame_steady.of_run hr
      exact ⟨hsteady.restartable, hsteady.generation, hsteady.written,
        .inl hsteady.pendingGoaway, hsteady.queued⟩
    · obtain ⟨-, rfl⟩ := Prod.mk.inj hr
      exact .refl

theorem handleCurrentCommand_fails
    (hr : (handleCurrentCommand codec w command).run a = (.error e, b)) : a.Fails b := by
  by_cases hg : ∃ generation response, command = .goAway generation response
  · obtain ⟨generation, response, rfl⟩ := hg
    simp only [handleCurrentCommand, handleCommand, run_get_bind, run_ite, run_modify] at hr
    split_ifs at hr
    · simp at hr
    · simp at hr
    · simp at hr
    · rcases hq : (queueFrame .goAway 0 [] false .control {}).run a with ⟨_ | _, c⟩
      · rw [run_bind_of_error hq] at hr
        obtain ⟨-, rfl⟩ := Prod.mk.inj hr
        exact (queueFrame_steady.of_run hq).fails
      · rw [run_bind_of_ok hq] at hr
        simp at hr
  · simp only [not_exists] at hg
    exact ((handleCurrentCommand_steady hg).of_run hr).fails

theorem restartSession_fails (hr : (restartSession w frame).run a = (.error e, b)) : a.Fails b := by
  unfold restartSession at hr
  simp only [run_ofExcept_bind, run_get_bind] at hr
  split at hr
  · split_ifs at hr
    · obtain ⟨-, rfl⟩ := Prod.mk.inj hr
      exact .refl
    · split at hr <;> simp at hr
  · obtain ⟨-, rfl⟩ := Prod.mk.inj hr
    exact .refl

theorem handleInbound_fails (hr : (handleInbound codec w frame).run a = (.error e, b)) :
    a.Fails b := by
  unfold handleInbound at hr
  simp only [run_get_bind] at hr
  split at hr
  · exact restartSession_fails hr
  split at hr
  · simp at hr
  by_cases hg : frame.header.command = .goAway
  · simp only [inboundContext, hg, dispatch] at hr
    rcases hp : (SessionState.processInbound frame.header {}).run a.state with ⟨_ | _, s⟩
    · simp [run_bind, hp, Except.mapError] at hr
      obtain ⟨-, rfl⟩ := hr
      exact ⟨rfl, rfl, rfl, .inl rfl, [], by simp⟩
    · simp [run_bind, hp, Except.mapError] at hr
      have hfails := handleGoAway_fails hr
      exact ⟨hfails.restartable, hfails.generation, hfails.written, hfails.pendingGoaway,
        hfails.queued⟩
  · refine Steady.fails (Op.Respects.of_run ?_ hr)
    refine respects_bind (respects_ofExcept _) fun _ => ?_
    refine respects_bind (fun a => steady_of_session rfl) fun _ => ?_
    exact respects_ite restoreConsumedCredit_steady (dispatch_steady hg)

theorem writeNext_fails (hr : (writeNext w).run a = (.error e, b)) : a.Fails b := by
  unfold writeNext at hr
  simp only [run_get_bind, run_modify_bind] at hr
  split at hr
  · simp at hr
  · split at hr
    · obtain ⟨-, rfl⟩ := Prod.mk.inj hr
      exact ⟨rfl, rfl, rfl, .inl rfl, [], by simp⟩
    · simp only [run_modify_bind, run_ite] at hr
      split_ifs at hr <;> simp at hr

theorem handle_fails {event : Event} (hr : (handle codec w event).run a = (.error e, b)) :
    a.Fails b := by
  cases event with
  | command => exact handleCurrentCommand_fails hr
  | inbound => exact handleInbound_fails hr
  | dequeue => exact writeNext_fails hr
  | expire | commandsClosed | inboundFailed | inboundClosed => simp [handle] at hr

end Fails

end Actor

end KindleBridge.Transport
