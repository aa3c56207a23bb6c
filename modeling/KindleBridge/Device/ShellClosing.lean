import KindleBridge.Device.ShellSettling

/-! # The service on its way to CLOSE

As long as the connection is up, the host sends valid packets and the worker takes them, the
output thread sends every packet it gets. It closes the stream after the exit status.
-/

namespace KindleBridge.Device

open Wire Transport Schema Handle

def ShellEvent.packet : ShellEvent → ShellPacket
  | .stdout bytes => .stdout bytes.1
  | .stderr bytes => .stderr bytes.1
  | .exit status => .exit status

theorem ShellEvent.encodes (event : ShellEvent) : ∃ bytes, event.packet.encode = .ok bytes := by
  cases event with
  | stdout chunk | stderr chunk => exact ShellPacket.encode_ok (by simp [packet]) chunk.le_max
  | exit status => exact ShellService.exit_encodes status

def isOutput : ShellPacket → Bool
  | .stdout _ | .stderr _ => true
  | _ => false

def isExit : ShellPacket → Bool
  | .exit _ => true
  | _ => false

theorem isExit_of_isOutput {packet : ShellPacket} (h : isOutput packet) :
    isExit packet = false := by
  cases packet with
  | exit => simp [isOutput] at h
  | _ => rfl

/-- The frame is the packet, and ends the stream if it is the exit status. -/
def Carries (packet : ShellPacket) (frame : Sent) : Prop :=
  ∃ bytes, packet.encode = .ok bytes ∧ frame = .data bytes (isExit packet)

/-- The host sends valid packets only, in an order that the protocol allows. -/
def Accepted : ShellStreamState → List StreamFrame → Prop
  | _, [] => True
  | protocol, frame :: frames => ∃ packet next, frame.1.header.command = .data ∧
      ShellPacket.decode frame.1.payload .host = .ok packet ∧
      protocol.accept packet = .ok next ∧ Accepted next frames

theorem acceptInput_of_accept {protocol next : ShellStreamState} {payload : List UInt8}
    {packet : ShellPacket} (hdecode : ShellPacket.decode payload .host = .ok packet)
    (haccept : protocol.accept packet = .ok next) :
    ShellService.acceptInput protocol false payload = .ok next := by
  have hsend : sendInput next.mode false packet = .ok () := by
    rcases ShellPacket.decode_host hdecode with ⟨data, rfl, hdata⟩ | rfl | ⟨size, rfl⟩
    · simp [sendInput, Nat.not_lt.mpr hdata]
    · rfl
    · simp only [ShellStreamState.accept] at haccept
      split_ifs at haccept with _ hmode
      obtain rfl := Except.ok.inj haccept
      simp [sendInput, hmode]
  simp [ShellService.acceptInput, hdecode, haccept, hsend, Except.mapError, bind, Except.bind,
    pure, Except.pure]

/-! ### The two threads -/

namespace InputThread

/-- It has the stream in its hands. -/
def isListening : InputThread → Bool
  | .receiving | .waiting | .handling _ => true
  | _ => false

def isHandling : InputThread → Bool
  | .handling _ => true
  | _ => false

/-- The frames of the host that it has not dealt with. -/
def pending (inbox : List StreamFrame) : InputThread → List StreamFrame
  | .handling frame => frame :: inbox
  | _ => inbox

end InputThread

namespace OutputThread

def inFlight : OutputThread → List ShellPacket
  | .sending packet => [packet]
  | .exiting status => [.exit status]
  | _ => []

def exitSent : OutputThread → Bool
  | .cancelling _ | .closing | .joining | .done => true
  | _ => false

variable {output : OutputThread}

theorem inFlight_of_left (h : output.left) : output.inFlight = [] := by
  cases output with
  | sending | exiting => simp [left] at h
  | _ => rfl

theorem exitSent_of_left (h : output.left) : output.exitSent = true := by
  cases output with
  | joining | done => rfl
  | _ => simp [left] at h

/-- No error has turned it away from closing the stream, which is still to come. -/
def Onward : OutputThread → Prop
  | .polling | .exiting _ | .cancelling none | .closing => True
  | .sending packet => isOutput packet ∧ ∃ bytes, packet.encode = .ok bytes
  | _ => False

end OutputThread

namespace ShellService

variable {s : ShellService}

/-- Nothing has gone wrong on the stream, and the output thread is going to close it. -/
structure OnTheWay (s : ShellService) : Prop where
  output : s.output.Onward
  consumed : s.stream.consumed.any (terminal ·.1) = false
  sent : s.stream.sent.any Sent.terminal = false
  host : Accepted s.protocol (s.input.pending s.stream.inbox)
  input : s.input.isResetting = false
  -- Before it closes the stream, the output thread wakes the input thread, which may stop then.
  listening : s.output ≠ .closing → s.stopped = false ∧ s.input.isListening

theorem OnTheWay.open (h : s.OnTheWay) : s.stream.ended = false := by
  simp [ended, h.consumed, h.sent]

theorem OnTheWay.not_left (h : s.OnTheWay) : s.output.left = false := by
  have honward := h.output
  cases houtput : s.output with
  | joining | done => simp [houtput, OutputThread.Onward] at honward
  | _ => rfl

theorem OnTheWay.stepInput (h : s.OnTheWay) {gone : Bool} (hup : (s.stepInput gone).stream.up)
    (hgone : s.input.isHandling → gone = false) :
    (s.stepInput gone).OnTheWay ∧ (s.stepInput gone).stream.sent = s.stream.sent := by
  have hopen := h.open
  have hhost := h.host
  unfold ShellService.stepInput at hup ⊢
  cases hinput : s.input with
  | receiving =>
    simp only [hinput] at hup ⊢
    have hr := request_of_up hopen (by revert hup; split <;> simp_all)
    rw [hr]
    rw [hinput] at hhost
    exact ⟨⟨h.output, h.consumed, h.sent, hhost, rfl, fun ho => ⟨(h.listening ho).1, rfl⟩⟩, rfl⟩
  | waiting =>
    simp only [hinput] at hup ⊢
    rw [hinput] at hhost
    rcases poll_of_up hopen (by revert hup; split <;> simp_all) with
      hp | ⟨frame, rest, hinbox, hp⟩
    · rw [hp]
      exact ⟨⟨h.output, h.consumed, h.sent, hhost, rfl, fun ho => ⟨(h.listening ho).1, rfl⟩⟩, rfl⟩
    · rw [hp]
      change Accepted s.protocol s.stream.inbox at hhost
      rw [hinbox] at hhost
      obtain ⟨packet, next, hdata, -⟩ := id hhost
      refine ⟨⟨h.output, ?_, h.sent, hhost, rfl, fun ho => ⟨(h.listening ho).1, rfl⟩⟩, rfl⟩
      change (s.stream.consumed ++ [frame]).any (terminal ·.1) = false
      rw [List.any_append, h.consumed]
      simp [terminal, hdata]
  | failed =>
    have hclosing : s.output = .closing := by
      by_contra hne
      simpa [hinput, InputThread.isListening] using (h.listening hne).2
    rw [hinput] at hhost
    exact ⟨⟨h.output, h.consumed, h.sent, hhost, rfl, fun ho => absurd hclosing ho⟩, rfl⟩
  | handling frame =>
    rw [hinput] at hhost
    obtain ⟨packet, next, hdata, hdecode, haccept, hrest⟩ := hhost
    obtain rfl : gone = false := hgone (by rw [hinput]; rfl)
    simp only [ShellService.handle, hdata, acceptInput_of_accept hdecode haccept, and_true]
    exact ⟨h.output, h.consumed, h.sent, hrest, rfl, fun ho => ⟨(h.listening ho).1, rfl⟩⟩
  | resetting reason =>
    have hreset := h.input
    simp [hinput] at hreset
  | done => exact ⟨h, rfl⟩

theorem sendPacket_of_up {h : Handle} {packet : ShellPacket} {endStream : Bool}
    {bytes : List UInt8} (hbytes : packet.encode = .ok bytes) (hopen : h.ended = false)
    (hup : ((sendPacket packet endStream).run h).2.up) : (sendPacket packet endStream).run h =
      (.ok (), { h with
        requests := h.requests + 1, sent := h.sent ++ [.data bytes endStream] }) := by
  have hrun : (sendPacket packet endStream).run h =
      (Op.zoom id (fun h _ => h) .connection (sendData bytes endStream) :
        Op Handle ServerError Unit).run h := by
    rw [sendPacket, hbytes]
    rfl
  rw [hrun, Op.run_zoom] at hup ⊢
  have hput : (sendData bytes endStream).run h = _ := put_of_up hopen hup
  dsimp only [id_eq]
  rw [hput]
  rfl

/--
The service has sent the packets in flight and taken up others, and is still on its way.
-/
def Advances (s t : ShellService) (taken : List ShellPacket) : Prop :=
  t.OnTheWay ∧ ∃ packets frames, List.Forall₂ Carries packets frames ∧
    t.stream.sent = s.stream.sent ++ frames ∧
    s.output.inFlight ++ taken = packets ++ t.output.inFlight ∧
    (s.output.exitSent || packets.any isExit) = t.output.exitSent

theorem OnTheWay.advances {t : ShellService} {taken : List ShellPacket} (h : t.OnTheWay)
    (hsent : t.stream.sent = s.stream.sent)
    (htaken : s.output.inFlight ++ taken = t.output.inFlight)
    (hexit : s.output.exitSent = t.output.exitSent) : s.Advances t taken :=
  ⟨h, [], [], .nil, by simp [hsent], by simpa, by simpa⟩

theorem OnTheWay.take (h : s.OnTheWay) (houtput : s.output = .polling) (event : ShellEvent) :
    s.Advances (s.take (.ok event)) [event.packet] := by
  obtain ⟨hstopped, hlisten⟩ := h.listening (by simp [houtput])
  have hgo (output : OutputThread) (ho : output.Onward) (hf : output.inFlight = [event.packet])
      (he : output.exitSent = false) : s.Advances { s with output := output } [event.packet] :=
    OnTheWay.advances ⟨ho, h.consumed, h.sent, h.host, h.input, fun _ => ⟨hstopped, hlisten⟩⟩ rfl
      (by rw [houtput, hf]; rfl) (by rw [houtput, he]; rfl)
  have hrunning : ¬ s.stopped = true := by simp [hstopped]
  have hencodes := event.encodes
  cases event with
  | stdout chunk | stderr chunk =>
    simp only [ShellService.take, if_neg hrunning]
    exact hgo (.sending _) ⟨rfl, hencodes⟩ rfl rfl
  | exit status =>
    simp only [ShellService.take, if_neg hrunning]
    exact hgo (.exiting _) trivial rfl rfl

theorem OnTheWay.send (h : s.OnTheWay) {packet : ShellPacket} {bytes : List UInt8}
    (output : OutputThread) (hne : s.output ≠ .closing) (hbytes : packet.encode = .ok bytes)
    (hflight : s.output.inFlight = [packet]) (hexit : s.output.exitSent = false)
    (ho : output.Onward) (hnone : output.inFlight = []) (hsent : output.exitSent = isExit packet) :
    s.Advances { s with
      output := output
      stream := { s.stream with
        requests := s.stream.requests + 1
        sent := s.stream.sent ++ [.data bytes (isExit packet)] } } [] := by
  refine ⟨⟨ho, h.consumed, ?_, h.host, h.input, fun _ => h.listening hne⟩,
    [packet], _, .cons ⟨bytes, hbytes, rfl⟩ .nil, rfl, by simp [hflight, hnone],
    by simp [hexit, hsent]⟩
  simp only [List.any_append, h.sent]
  rfl

/-- What the output thread takes from the queue of events in its next step. -/
def taken (s : ShellService) (event : Except ShellWorkerError ShellEvent) : List ShellPacket :=
  match s.output, event with
  | .polling, .ok event => [event.packet]
  | _, _ => []

theorem cancelReceive_stream (s : ShellService) :
    s.cancelReceive.stream = (request.run s.stream).2 := by
  unfold ShellService.cancelReceive Handle.cancelReceive
  rcases request.run s.stream with ⟨_ | _, t⟩
  · rfl
  · rfl

/--
A step of the output thread sends the packet in flight, takes the next one, or closes the
stream.
-/
theorem OnTheWay.stepOutput (h : s.OnTheWay) {event : Except ShellWorkerError ShellEvent}
    (hup : (s.stepOutput event).stream.up)
    (hevent : s.output = .polling → ∀ e, event = .error e → e = .receiveTimeout) :
    s.Advances (s.stepOutput event) (s.taken event) ∨
    s.output = .closing ∧ (s.stepOutput event).output = .joining ∧
      (s.stepOutput event).stream.sent = s.stream.sent ++ [.close] := by
  have hopen := h.open
  have honward := h.output
  unfold ShellService.stepOutput at hup ⊢
  cases houtput : s.output with
  | polling =>
    left
    rcases event with e | event
    · obtain rfl := hevent houtput e rfl
      exact h.advances rfl (by simp [taken, houtput]) rfl
    · have htake := h.take houtput event
      simpa [taken, houtput] using htake
  | sending packet =>
    left
    simp only [houtput] at hup honward ⊢
    obtain ⟨hout, bytes, hbytes⟩ := honward
    have hexit := isExit_of_isOutput hout
    have hsend : (sendPacket packet false).run s.stream = _ :=
      sendPacket_of_up hbytes hopen (by revert hup; split <;> simp_all)
    rw [hsend, ← hexit]
    have hadvances := h.send .polling (by simp [houtput]) hbytes (by rw [houtput]; rfl)
      (by rw [houtput]; rfl) trivial rfl hexit.symm
    simpa [taken, houtput] using hadvances
  | exiting status =>
    left
    simp only [houtput] at hup ⊢
    obtain ⟨bytes, hbytes⟩ := exit_encodes status
    have hsend : (sendPacket (.exit status) true).run s.stream = _ :=
      sendPacket_of_up hbytes hopen (by revert hup; split <;> simp_all)
    rw [hsend]
    have hadvances := h.send (.cancelling none) (by simp [houtput]) hbytes (by rw [houtput]; rfl)
      (by rw [houtput]; rfl) trivial rfl rfl
    simpa [taken, houtput, isExit] using hadvances
  | cancelling error =>
    left
    simp only [houtput] at hup honward ⊢
    cases error with
    | some e => exact honward.elim
    | none =>
      rw [cancelReceive_stream] at hup
      have hrequest : Handle.cancelReceive.run s.stream = _ := request_of_up hopen hup
      rw [ShellService.cancelReceive, hrequest]
      have hhost := h.host
      have hinput := h.input
      refine OnTheWay.advances ⟨trivial, h.consumed, h.sent, ?_, ?_, by simp⟩ rfl ?_ ?_
      · dsimp only
        split_ifs with hwaiting
        · rwa [hwaiting] at hhost
        · exact hhost
      · dsimp only
        split_ifs
        · rfl
        · exact hinput
      · simp [houtput, taken, OutputThread.inFlight]
      · simp [houtput, OutputThread.exitSent]
  | closing =>
    right
    simp only [houtput] at hup ⊢
    have hclose : close.run s.stream = _ :=
      put_of_up hopen (by revert hup; split <;> simp_all [close])
    rw [hclose]
    simp
  | _ => simp [houtput, OutputThread.Onward] at honward

theorem stepInput_sent (s : ShellService) (gone : Bool) :
    ∃ resets, (s.stepInput gone).stream.sent = s.stream.sent ++ resets ∧
      ∀ frame ∈ resets, ∃ reason, frame = .reset reason := by
  have hquiet {t : ShellService} (h : t.stream.sent = s.stream.sent) :
      ∃ resets, t.stream.sent = s.stream.sent ++ resets ∧
        ∀ frame ∈ resets, ∃ reason, frame = .reset reason := ⟨[], by simp [h], by simp⟩
  unfold ShellService.stepInput
  split
  · apply hquiet
    rw [← request_sent s.stream]
    split
    · simp_all
    · simp_all
  · apply hquiet
    rw [← poll_sent s.stream]
    split
    · simp_all
    · simp_all
    · simp_all
  · exact hquiet rfl
  · apply hquiet
    unfold ShellService.handle
    repeat' split
    all_goals rfl
  · rename_i reason _
    rcases put_sent (.reset reason.toUTF8.toList) s.stream with h | h
    · exact hquiet h
    · exact ⟨_, h, by simp⟩
  · exact hquiet rfl

theorem stepOutput_left (h : s.output.left) (event : Except ShellWorkerError ShellEvent) :
    (s.stepOutput event).output.left ∧ (s.stepOutput event).stream = s.stream := by
  unfold ShellService.stepOutput
  cases houtput : s.output with
  | joining =>
    dsimp only
    split_ifs
    · exact ⟨rfl, rfl⟩
    · exact ⟨by rw [houtput]; rfl, rfl⟩
  | done => exact ⟨by rw [houtput]; rfl, rfl⟩
  | _ => simp [houtput] at h

theorem stepInput_output (s : ShellService) (gone : Bool) :
    (s.stepInput gone).output = s.output := by
  unfold ShellService.stepInput ShellService.handle
  repeat' split
  all_goals rfl

end ShellService

end KindleBridge.Device
