import KindleBridge.Device.Shell

/-! # A shell that returns has ended its stream

Whichever thread stops the stream first, it resets or closes it, or the stream is over
already; the other thread can rely on that.
-/

namespace KindleBridge.Device

open Wire Transport Schema Serving Handle InputThread ShellPacket Op

@[simp] def InputThread.isResetting : InputThread → Bool
  | .resetting _ => true
  | _ => false

namespace OutputThread

/-- It is going to end the stream. -/
@[simp] def committed : OutputThread → Bool
  | .closing | .resetting _ => true
  | _ => false

@[simp] def hasFailed : OutputThread → Bool
  | .cancelling (some _) | .stopping _ | .unblocking _ => true
  | _ => false

@[simp] def left : OutputThread → Bool
  | .joining | .done => true
  | _ => false

end OutputThread

theorem Chunk.le_max (chunk : Chunk) : chunk.1.length ≤ maxShellPacketPayload :=
  chunk.2.trans (by decide)

theorem sendPacket_failsIn {packet : ShellPacket} {endStream : Bool}
    (h : ∃ bytes, packet.encode = .ok bytes) :
    (sendPacket packet endStream).FailsIn Handle.Ends := by
  obtain ⟨bytes, hb⟩ := h
  intro s e t hr
  rw [sendPacket, hb] at hr
  have hsend : (Op.zoom id (fun h _ => h) .connection (sendData bytes endStream) :
      Op Handle ServerError Unit).FailsIn Handle.Ends :=
    failsIn_zoom (fun _ _ h => h) (put_failsIn _)
  exact hsend s e t hr

theorem sendPacket_keeps (packet : ShellPacket) (endStream : Bool) :
    (sendPacket packet endStream).Keeps Handle.Ends := by
  refine keeps_bind (fun _ h => h) fun bytes s h => ?_
  exact put_keeps _ s h

namespace ShellService

variable {s : ShellService} {terminalError : Option ServerError} {output : OutputThread}
  {stream : Handle}

/--
Where a thread relies on the other, or on an error, the stream is over or will be ended.
-/
structure Sound (s : ShellService) : Prop where
  input : s.input = .failed ∨ s.input = .done → s.stream.Ends ∨ s.output.committed
  handling : ∀ frame, s.input = .handling frame → terminal frame.1 → s.stream.Ends
  stopped : s.stopped → s.stream.Ends ∨ s.output.committed ∨ s.input.isResetting
  failed : s.output.hasFailed → s.stream.Ends
  left : s.output.left → s.stream.Ends ∨ s.input.isResetting
  joined : s.output = .done → s.input = .done
  packet : ∀ packet, s.output = .sending packet → ∃ bytes, packet.encode = .ok bytes

theorem Sound.moveInput (h : s.Sound) {protocol : ShellStreamState}
    {input : InputThread} {stopped : Bool} (hrunning : s.input ≠ .done)
    (hends : s.stream.Ends → stream.Ends) (hreset : s.input.isResetting → stream.Ends)
    (hinput : input = .failed ∨ input = .done → stream.Ends ∨ s.output.committed)
    (hhandling : ∀ frame, input = .handling frame → terminal frame.1 → stream.Ends)
    (hstopped : stopped → s.stopped ∨ stream.Ends ∨ s.output.committed ∨ input.isResetting) :
    Sound { s with stream := stream, protocol := protocol, input := input, stopped := stopped } where
  input := hinput
  handling := hhandling
  stopped hs := by
    rcases hstopped hs with hs | hs
    · rcases h.stopped hs with he | hc | hr
      · exact .inl (hends he)
      · exact .inr (.inl hc)
      · exact .inl (hreset hr)
    · exact hs
  failed hf := hends (h.failed hf)
  left hl := by
    rcases h.left hl with he | hr
    · exact .inl (hends he)
    · exact .inl (hreset hr)
  joined hd := absurd (h.joined hd) hrunning
  packet := h.packet

theorem Sound.handle (h : s.Sound) {gone : Bool} {frame : StreamFrame}
    (hinput : s.input = .handling frame) : (s.handle gone frame.1).Sound := by
  have hrunning : s.input ≠ .done := by simp [hinput]
  have hreset : s.input.isResetting → s.stream.Ends := by simp [hinput]
  have hterminal := h.handling frame hinput
  have hresetting (reason : String) :
      Sound { s with stopped := true, input := .resetting reason } :=
    h.moveInput hrunning id hreset (by simp) (by simp) (by simp)
  have hdone (ht : terminal frame.1) : Sound { s with stopped := true, input := .done } :=
    h.moveInput hrunning id hreset (fun _ => .inl (hterminal ht)) (by simp)
      fun _ => .inr (.inl (hterminal ht))
  unfold ShellService.handle
  split
  · split
    · exact h.moveInput hrunning id hreset (by simp) (by simp) .inl
    · exact hresetting _
  · rename_i hc
    exact hdone (by simp [terminal, hc])
  · rename_i hc
    exact hdone (by simp [terminal, hc])
  · exact hresetting _

theorem Sound.stepInput (h : s.Sound) (gone : Bool) : (s.stepInput gone).Sound := by
  unfold ShellService.stepInput
  split
  · rename_i hinput
    have hrunning : s.input ≠ .done := by simp [hinput]
    have hreset {stream : Handle} : s.input.isResetting → stream.Ends := by
      simp [hinput]
    split
    · rename_i hr
      have hkeeps := request_keeps s.stream
      rw [hr] at hkeeps
      exact h.moveInput hrunning hkeeps hreset (by simp) (by simp) .inl
    · rename_i hr
      have hends := request_failsIn _ _ _ hr
      exact h.moveInput hrunning (fun _ => hends) hreset (fun _ => .inl hends) (by simp) .inl
  · rename_i hinput
    have hrunning : s.input ≠ .done := by simp [hinput]
    have hreset {stream : Handle} : s.input.isResetting → stream.Ends := by
      simp [hinput]
    have hkeeps := poll_keeps s.stream
    split
    · rename_i frame t hr
      rw [hr] at hkeeps
      refine h.moveInput hrunning hkeeps hreset (by simp) ?_ .inl
      rintro _ ⟨⟩ ht
      obtain ⟨_, he, -⟩ | ⟨he, -⟩ | ⟨f, rest, he, -, rfl⟩ := poll_cases hr
      · simp at he
      · simp at he
      · obtain rfl : frame = f := by simpa using he
        exact .inr (by simp [ended, ht])
    · rename_i hr
      rw [hr] at hkeeps
      exact h.moveInput hrunning hkeeps hreset (by simp [hinput]) (by simp [hinput]) .inl
    · rename_i hr
      obtain ⟨_, -, hends⟩ | ⟨he, -⟩ | ⟨_, _, he, -⟩ := poll_cases hr
      · exact h.moveInput hrunning (fun _ => hends) hreset (fun _ => .inl hends) (by simp) .inl
      · simp at he
      · simp at he
  · rename_i hinput
    have hover := h.input (.inl hinput)
    refine h.moveInput (by simp [hinput]) id (by simp [hinput])
      (fun _ => hover) (by simp) fun _ => .inr ?_
    exact hover.imp id .inl
  · rename_i hinput
    exact h.handle hinput
  · rename_i reason hinput
    have hends : ((reset reason.toUTF8.toList).run s.stream).2.Ends := put_ensures rfl s.stream
    exact h.moveInput (by simp [hinput]) (fun _ => hends) (fun _ => hends) (fun _ => .inl hends)
      (by simp) .inl
  · exact h

theorem Sound.moveOutput (h : s.Sound) (hends : s.stream.Ends → stream.Ends)
    (hcommitted : s.output.committed → stream.Ends ∨ output.committed)
    (hfailed : output.hasFailed → stream.Ends)
    (hleft : output.left → s.output.left ∨ stream.Ends ∨ s.input.isResetting)
    (hjoined : output = .done → s.input = .done)
    (hpacket : ∀ packet, output = .sending packet → ∃ bytes, packet.encode = .ok bytes) :
    Sound { s with stream := stream, output := output, terminalError := terminalError } where
  input hi := by
    rcases h.input hi with he | hc
    · exact .inl (hends he)
    · exact hcommitted hc
  handling frame hf ht := hends (h.handling frame hf ht)
  stopped hs := by
    rcases h.stopped hs with he | hc | hr
    · exact .inl (hends he)
    · exact (hcommitted hc).imp id .inl
    · exact .inr (.inr hr)
  failed := hfailed
  left hl := by
    rcases hleft hl with hl | hl
    · exact (h.left hl).imp hends id
    · exact hl
  joined := hjoined
  packet := hpacket

theorem Sound.cancelReceive (h : s.Sound) (hover : s.stream.Ends ∨ output.committed)
    (hfailed : output.hasFailed → s.stream.Ends) (hleft : output.left → s.stream.Ends)
    (hjoined : output ≠ .done) (hpacket : ∀ packet, output ≠ .sending packet) :
    Sound { s.cancelReceive with output := output, terminalError := terminalError } := by
  have hkeeps := request_keeps s.stream
  unfold ShellService.cancelReceive Handle.cancelReceive
  split
  · rename_i t hr
    rw [hr] at hkeeps
    have hover' := hover.imp hkeeps id
    refine ⟨fun _ => hover', fun frame hf ht => ?_, fun _ => hover'.imp id .inl,
      fun hf => hkeeps (hfailed hf), fun hl => .inl (hkeeps (hleft hl)),
      fun hd => absurd hd hjoined, fun packet hp => absurd hp (hpacket packet)⟩
    have hinput : s.input = .handling frame := by
      dsimp only at hf
      split_ifs at hf
      exact hf
    exact hkeeps (h.handling frame hinput ht)
  · rename_i t hr
    have hends := request_failsIn _ _ _ hr
    exact h.moveOutput (fun _ => hends) (fun _ => .inl hends) (fun _ => hends)
      (fun _ => .inr (.inl hends)) (fun hd => absurd hd hjoined)
      (fun packet hp => absurd hp (hpacket packet))

theorem Sound.take (h : s.Sound) (hpolling : s.output = .polling)
    (event : Except ShellWorkerError ShellEvent) : (s.take event).Sound := by
  have hcommitted {P : Prop} : s.output.committed → P := by simp [hpolling]
  have hgo {output : OutputThread} (hfailed : output.hasFailed = false)
      (hleft : output.left = false)
      (hpacket : ∀ packet, output = .sending packet → ∃ bytes, packet.encode = .ok bytes) :
      Sound { s with output := output } := by
    refine h.moveOutput id hcommitted (by rw [hfailed]; simp) (by rw [hleft]; simp) ?_ hpacket
    rintro rfl
    simp at hleft
  have hjoin (hs : s.stopped) : Sound { s with output := .joining } := by
    refine h.moveOutput id hcommitted (by simp) (fun _ => .inr ?_) (by simp) (by simp)
    rcases h.stopped hs with he | hc | hr
    · exact .inl he
    · exact hcommitted hc
    · exact .inr hr
  unfold ShellService.take
  split
  · split_ifs
    · exact h
    · rename_i chunk _
      refine hgo rfl rfl ?_
      rintro _ ⟨⟩
      exact encode_ok (by simp) chunk.le_max
  · split_ifs
    · exact h
    · rename_i chunk _
      refine hgo rfl rfl ?_
      rintro _ ⟨⟩
      exact encode_ok (by simp) chunk.le_max
  · split_ifs with hs
    · exact hjoin hs
    · exact hgo rfl rfl (by simp)
  · exact h
  · split_ifs with hs
    · exact hjoin hs
    · exact hgo rfl rfl (by simp)

theorem exit_encodes (status : ShellExit) : ∃ bytes, (exit status).encode = .ok bytes :=
  encode_ok (by simp) (by simp [parts, maxShellPacketPayload])

theorem Sound.stepOutput (h : s.Sound) (event : Except ShellWorkerError ShellEvent) :
    (s.stepOutput event).Sound := by
  unfold ShellService.stepOutput
  split
  · rename_i houtput
    exact h.take houtput event
  · rename_i packet houtput
    have hcommitted {P : Prop} : s.output.committed → P := by simp [houtput]
    split
    · rename_i hr
      have hkeeps := sendPacket_keeps packet false s.stream
      rw [hr] at hkeeps
      exact h.moveOutput hkeeps hcommitted (by simp) (by simp) (by simp) (by simp)
    · rename_i hr
      have hends := sendPacket_failsIn (h.packet packet houtput) _ _ _ hr
      exact h.moveOutput (fun _ => hends) hcommitted (fun _ => hends) (by simp) (by simp) (by simp)
  · rename_i status houtput
    have hcommitted {P : Prop} : s.output.committed → P := by simp [houtput]
    split
    · rename_i hr
      have hkeeps := sendPacket_keeps (.exit status) true s.stream
      rw [hr] at hkeeps
      exact h.moveOutput hkeeps hcommitted (by simp) (by simp) (by simp) (by simp)
    · rename_i hr
      have hends := sendPacket_failsIn (exit_encodes status) _ _ _ hr
      exact h.moveOutput (fun _ => hends) hcommitted (fun _ => hends) (by simp) (by simp) (by simp)
  · rename_i houtput
    exact h.cancelReceive (.inr rfl) (by simp) (by simp) (by simp) (by simp)
  · rename_i e houtput
    have hends := h.failed (by simp [houtput])
    exact h.cancelReceive (.inl hends) (fun _ => hends) (by simp) (by simp) (by simp)
  · have hends : (close.run s.stream).2.Ends := put_ensures rfl s.stream
    split
    all_goals
      rename_i hr
      rw [hr] at hends
      exact h.moveOutput (fun _ => hends) (fun _ => .inl hends) (fun _ => hends)
        (fun _ => .inr (.inl hends)) (by simp) (by simp)
  · rename_i last houtput
    have hends := h.failed (by simp [houtput])
    exact ⟨fun _ => .inl hends, fun _ _ _ => hends, fun _ => .inl hends, fun _ => hends,
      fun _ => .inl hends, by simp, by simp⟩
  · rename_i last houtput
    have hends := h.failed (by simp [houtput])
    refine h.cancelReceive (.inl hends) (fun _ => hends) (fun _ => hends) ?_ ?_
    all_goals
      cases last <;> simp
  · rename_i reason houtput
    exact h.cancelReceive (.inr rfl) (by simp) (by simp) (by simp) (by simp)
  · rename_i reason houtput
    have hends : ((reset reason.toUTF8.toList).run s.stream).2.Ends := put_ensures rfl s.stream
    split
    all_goals
      rename_i hr
      rw [hr] at hends
      exact h.moveOutput (fun _ => hends) (fun _ => .inl hends) (fun _ => hends)
        (fun _ => .inr (.inl hends)) (by simp) (by simp)
  · rename_i houtput
    split_ifs with hdone
    · exact h.moveOutput id (by simp [houtput]) (by simp) (fun _ => .inl (by simp [houtput]))
        (fun _ => hdone) (by simp)
    · exact h
  · exact h

theorem Sound.step (h : s.Sound) (move : ShellMove) : (s.step move).Sound := by
  cases move with
  | input gone => exact h.stepInput gone
  | output event => exact h.stepOutput event

theorem sound_start (stream : Handle) (protocol : ShellStreamState) :
    Sound { stream := stream, protocol := protocol } where
  input := by simp
  handling := by simp
  stopped := by simp
  failed := by simp
  left := by simp
  joined := by simp
  packet := by simp

theorem Sound.exec (h : s.Sound) (moves : List ShellMove) : (s.exec moves).Sound := by
  induction moves generalizing s with
  | nil => exact h
  | cons move moves ih => exact ih (h.step move)

theorem Sound.ends (h : s.Sound) (hdone : s.output = .done) : s.stream.Ends := by
  rcases h.left (by simp [hdone]) with he | hr
  · exact he
  · simp [h.joined hdone] at hr

end ShellService

variable {τ : Type}

theorem openShell_settled {world : ShellWorld} {s t : Serving τ}
    {r : Except ServerError (Option ShellOpen)} (hr : (openShell world).run s = (r, t)) :
    (∃ request, r = .ok (some request)) ∨ t.Settled := by
  rw [openShell] at hr
  rcases hd : (actorData : ServiceM τ Frame).run s with ⟨e | frame, u⟩
  · rw [run_bind_of_error hd] at hr
    obtain ⟨-, rfl⟩ := Prod.mk.inj hr
    exact .inr (actorData_failsIn _ _ _ hd)
  rw [run_bind_of_ok hd] at hr
  have hreset (reason : List UInt8) : (do
      onStream (reset reason)
      return none : ServiceM τ (Option ShellOpen)).Ensures Settled :=
    (reset_ensures reason).bind fun _ => keeps_pure none
  rw [run_ite] at hr
  split_ifs at hr
  · exact .inr ((hreset _).of_run hr)
  split at hr
  · exact .inr ((hreset _).of_run hr)
  split at hr
  · exact .inr ((hreset _).of_run hr)
  · obtain ⟨rfl, -⟩ := Prod.mk.inj hr
    exact .inl ⟨_, rfl⟩

theorem serveStream_settled (world : ShellWorld) (moves : List ShellMove) (s : Serving τ) :
    ((serveStream world moves).run s).2.Settled := by
  apply bind_induction
  · intro e t hr
    exact (openShell_settled hr).resolve_left (by simp)
  intro request t hr
  cases request with
  | none => exact (openShell_settled hr).resolve_left (by simp)
  | some request =>
    have hsound := (ShellService.sound_start t.stream { mode := request.mode }).exec moves
    rw [run_get_bind, run_modify_bind]
    generalize ShellService.exec _ moves = w at hsound
    rw [ShellService.result, run_ite]
    split_ifs with hdone
    · have hends : { t with stream := w.stream }.Settled := .inr (hsound.ends hdone)
      split
      · exact hends
      · exact hends
    · exact suspend_ensures _

end KindleBridge.Device
