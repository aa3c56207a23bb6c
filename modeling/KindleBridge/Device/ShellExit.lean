import KindleBridge.Device.ShellClosing

/-! # The exit status of a shell

What the process writes and its exit status reach the stream in order, followed by CLOSE,
unless the host sends a packet that the input thread takes up after the worker has returned.
Such a packet resets the stream, and the exit status is dropped.
-/

namespace KindleBridge.Device

open Wire Transport Schema

/-! ## The threads of a shell

Behind the two threads of the shell service stand three more: one reads each pipe of the
process, and a worker waits for the process to end. The worker reports the exit status as
its last event and returns, which closes the channel that the input thread writes to.
-/

inductive Pipe
  | stdout
  | stderr
  deriving DecidableEq

def Pipe.event : Pipe → Chunk → ShellEvent
  | .stdout => .stdout
  | .stderr => .stderr

structure PumpThread where
  /-- What it still gets from the pipe, read by read. -/
  chunks : List Chunk
  finished : Bool := false

/-- What the worker learns when it asks for the process. -/
inductive Waited
  | running
  | exited (status : ShellExit)
  /-- The operating system does not tell. -/
  | lost
  deriving DecidableEq

inductive WorkerThread
  | waiting
  /-- The process has ended, and the worker joins the readers. -/
  | joining (status : ShellExit)
  /-- The exit status is queued. -/
  | leaving (status : ShellExit)
  /-- It has returned and takes no more commands. -/
  | gone (status : Option ShellExit)

namespace WorkerThread

def isGone : WorkerThread → Bool
  | .gone _ => true
  | _ => false

def reported : WorkerThread → List ShellPacket
  | .leaving status | .gone (some status) => [.exit status]
  | _ => []

end WorkerThread

/-- The threads of one shell. The channels between them are taken to have room always. -/
structure ShellThreads where
  service : ShellService
  pumps : Pipe → PumpThread
  events : List ShellEvent := []
  worker : WorkerThread := .waiting

inductive ThreadMove
  | input
  | output
  | pump (pipe : Pipe)
  | worker (waited : Waited)
  deriving DecidableEq

/-- The readers of a process that writes this. A PTY shell has one, for its terminal. -/
def spawnPumps (mode : ShellMode) (written : Pipe → List Chunk) (pipe : Pipe) : PumpThread :=
  match mode, pipe with
  | .pty, .stderr => { chunks := [], finished := true }
  | _, _ => { chunks := written pipe }

namespace ShellThreads

def start (mode : ShellMode) (stream : Handle) (written : Pipe → List Chunk) : ShellThreads where
  service := { stream := stream, protocol := { mode := mode } }
  pumps := spawnPumps mode written

/-- Both readers have come to the end of their pipes. -/
def drained (s : ShellThreads) : Bool := (s.pumps .stdout).finished && (s.pumps .stderr).finished

def recvTimeout (s : ShellThreads) : Except ShellWorkerError ShellEvent :=
  match s.events with
  | event :: _ => .ok event
  | [] =>
    -- Each reader and the worker hold the channel open.
    if s.worker.isGone && s.drained then .error .workerStopped else .error .receiveTimeout

def stepOutput (s : ShellThreads) : ShellThreads :=
  match s.service.output with
  | .polling =>
    { s with service := s.service.step (.output s.recvTimeout), events := s.events.tail }
  | _ => { s with service := s.service.step (.output (.error .receiveTimeout)) }

def pumpOutput (pipe : Pipe) (s : ShellThreads) : ShellThreads :=
  match (s.pumps pipe).chunks with
  | [] => { s with pumps := Function.update s.pumps pipe { chunks := [], finished := true } }
  | chunk :: chunks =>
    { s with
      pumps := Function.update s.pumps pipe { s.pumps pipe with chunks := chunks }
      events := s.events ++ [pipe.event chunk] }

/-- The worker: `run_raw_process` and `run_pty_process`. -/
def stepWorker (waited : Waited) (s : ShellThreads) : ShellThreads :=
  match s.worker with
  | .waiting =>
    match waited with
    | .running => s
    | .exited status => { s with worker := .joining status }
    | .lost => { s with worker := .gone none }
  | .joining status =>
    if s.drained then
      { s with worker := .leaving status, events := s.events ++ [.exit status] }
    else s
  | .leaving status => { s with worker := .gone (some status) }
  | .gone _ => s

def step (s : ShellThreads) : ThreadMove → ShellThreads
  | .input => { s with service := s.service.step (.input s.worker.isGone) }
  | .output => s.stepOutput
  | .pump pipe => s.pumpOutput pipe
  | .worker waited => s.stepWorker waited

def exec (s : ShellThreads) (moves : List ThreadMove) : ShellThreads := moves.foldl step s

end ShellThreads

/-! ## What reaches the stream -/

open OutputThread ShellThreads ShellEvent List ShellService

/-- What a packet carries of a pipe. -/
def Pipe.read : Pipe → ShellPacket → Option (List UInt8)
  | .stdout, .stdout data => some data
  | .stderr, .stderr data => some data
  | _, _ => none

theorem Pipe.read_event (pipe other : Pipe) (chunk : Chunk) :
    other.read (pipe.event chunk).packet = if other = pipe then some chunk.1 else none := by
  cases other with
  | stdout | stderr =>
    cases pipe with
    | stdout | stderr => rfl

theorem Pipe.read_exit (pipe : Pipe) (status : ShellExit) : pipe.read (.exit status) = none := by
  cases pipe with
  | stdout => rfl
  | stderr => rfl

/--
All that was read from the pipes, in the order of each, then the exit status with the end
of the stream, then CLOSE. On a stream that is closed a RESET has no effect any more.
-/
def Delivered (written : Pipe → List Chunk) (status : ShellExit) (sent : List Sent) : Prop :=
  ∃ packets frames resets, List.Forall₂ Carries (packets ++ [.exit status]) frames ∧
    sent = frames ++ .close :: resets ∧ (∀ packet ∈ packets, isOutput packet) ∧
    (∀ pipe, packets.filterMap pipe.read = (written pipe).map (·.1)) ∧
    ∀ frame ∈ resets, ∃ reason, frame = .reset reason

/-- What the readers and the worker have queued so far. -/
structure Produced (written : Pipe → List Chunk) (pumps : Pipe → PumpThread)
    (worker : WorkerThread) (log : List ShellPacket) : Prop where
  order : ∀ pipe, log.filterMap pipe.read ++ (pumps pipe).chunks.map (·.1) =
    (written pipe).map (·.1)
  ends : ∃ outputs, (∀ packet ∈ outputs, isOutput packet) ∧ log = outputs ++ worker.reported
  finished : ∀ pipe, (pumps pipe).finished → (pumps pipe).chunks = []
  drained : worker.reported ≠ [] → ∀ pipe, (pumps pipe).chunks = []
  kept : worker ≠ .gone none

namespace Produced

variable {written : Pipe → List Chunk} {pumps : Pipe → PumpThread} {worker : WorkerThread}
  {log : List ShellPacket}

section
variable (h : Produced written pumps worker log) {pipe : Pipe}
include h

theorem pump {chunk : Chunk}
    {chunks : List Chunk} (hchunks : (pumps pipe).chunks = chunk :: chunks) :
    Produced written (Function.update pumps pipe { pumps pipe with chunks := chunks }) worker
      (log ++ [(pipe.event chunk).packet]) := by
  have hnil : worker.reported = [] := by
    by_contra hr
    simp [h.drained hr pipe] at hchunks
  obtain ⟨outputs, houtputs, rfl⟩ := h.ends
  refine ⟨fun other => ?_, ⟨outputs ++ [(pipe.event chunk).packet], ?_, by simp [hnil]⟩,
    fun other => ?_, by simp [hnil], h.kept⟩
  · have horder := h.order other
    rcases eq_or_ne other pipe with rfl | hne
    · simpa [hchunks, Pipe.read_event] using horder
    · simpa [filterMap_cons, Pipe.read_event, hne] using horder
  · have hnew : isOutput (pipe.event chunk).packet := by
      cases pipe with
      | stdout => rfl
      | stderr => rfl
    simpa [or_imp, forall_and, hnew] using houtputs
  · rcases eq_or_ne other pipe with rfl | hne
    · intro hfinished
      rw [Function.update_self] at hfinished
      simp [h.finished _ hfinished] at hchunks
    · simpa [hne] using h.finished other

theorem finish (hchunks : (pumps pipe).chunks = []) :
    Produced written (Function.update pumps pipe { chunks := [], finished := true }) worker
      log := by
  have hsame (other : Pipe) : (Function.update pumps pipe { chunks := [], finished := true }
      other).chunks = (pumps other).chunks := by
    rcases eq_or_ne other pipe with rfl | hne
    · simp [hchunks]
    · simp [hne]
  refine ⟨fun other => ?_, h.ends, fun other => ?_, fun hr other => ?_, h.kept⟩
  · rw [hsame]
    exact h.order other
  · rw [hsame]
    rcases eq_or_ne other pipe with rfl | hne
    · exact fun _ => hchunks
    · simpa [hne] using h.finished other
  · rw [hsame]
    exact h.drained hr other

theorem goOn {next : WorkerThread}
    (hreported : next.reported = worker.reported) (hkept : next ≠ .gone none) :
    Produced written pumps next log := by
  refine ⟨h.order, ?_, h.finished, ?_, hkept⟩
  · rw [hreported]
    exact h.ends
  · rw [hreported]
    exact h.drained

theorem report {status : ShellExit}
    (hworker : worker.reported = []) (hfinished : ∀ pipe, (pumps pipe).finished) :
    Produced written pumps (.leaving status) (log ++ [.exit status]) := by
  obtain ⟨outputs, houtputs, rfl⟩ := h.ends
  refine ⟨fun pipe => ?_, ⟨outputs, houtputs, ?_⟩, h.finished,
    fun _ pipe => h.finished pipe (hfinished pipe), by simp⟩
  · have horder := h.order pipe
    simpa [filterMap_cons, Pipe.read_exit] using horder
  · rw [hworker, append_nil]
    rfl

end

theorem of_exit {packets rest : List ShellPacket}
    (h : Produced written pumps worker (packets ++ rest)) (hexit : packets.any isExit) :
    rest = [] ∧ ∃ status, worker.reported = [.exit status] := by
  obtain ⟨outputs, houtputs, hends⟩ := h.ends
  have hno : outputs.any isExit = false := by
    rw [any_eq_false]
    intro packet hp
    simp [isExit_of_isOutput (houtputs packet hp)]
  have hreported : worker.reported = [] ∨ ∃ status, worker.reported = [.exit status] := by
    cases worker with
    | waiting | joining => exact .inl rfl
    | leaving status => exact .inr ⟨status, rfl⟩
    | gone status =>
      cases status with
      | none => exact .inl rfl
      | some status => exact .inr ⟨status, rfl⟩
  rcases hreported with hnil | ⟨status, hstatus⟩
  · rw [hnil, append_nil] at hends
    rw [← hends, any_append, hexit] at hno
    simp at hno
  · refine ⟨?_, status, hstatus⟩
    rcases rest.eq_nil_or_concat with hrest | ⟨init, last, rfl⟩
    · exact hrest
    · rw [hstatus, concat_eq_append, ← append_assoc] at hends
      have hinit := append_inj_left' hends rfl
      rw [← hinit, any_append, hexit] at hno
      simp at hno

end Produced

namespace ShellThreads

/-- The packets between the threads of the process and the stream. -/
def pipeline (s : ShellThreads) : List ShellPacket :=
  s.service.output.inFlight ++ s.events.map ShellEvent.packet

/--
What has been sent and what is in the pipeline are together what was produced so far. CLOSE
is still to come, or it has been queued after the exit status.
-/
def Fine (written : Pipe → List Chunk) (s : ShellThreads) : Prop :=
  ∃ packets frames, List.Forall₂ Carries packets frames ∧
    Produced written s.pumps s.worker (packets ++ s.pipeline) ∧
    packets.any isExit = s.service.output.exitSent ∧
    (s.service.OnTheWay ∧ s.service.stream.sent = frames ∨
      s.service.output.left ∧ ∃ resets, s.service.stream.sent = frames ++ .close :: resets ∧
        ∀ frame ∈ resets, ∃ reason, frame = .reset reason)

/-- The connection is up after the step, and the worker learns how the process ended. -/
def Regular (s : ShellThreads) (move : ThreadMove) : Prop :=
  (s.step move).service.stream.up ∧ move ≠ .worker .lost

/-- The input thread takes up no packet between the return of the worker and CLOSE. -/
def InTime (s : ShellThreads) (move : ThreadMove) : Prop :=
  move = .input → s.worker.isGone → s.service.input.isHandling → s.service.output.left

instance (s : ShellThreads) (move : ThreadMove) : Decidable (s.Regular move) :=
  inferInstanceAs (Decidable (_ ∧ _))

instance (s : ShellThreads) (move : ThreadMove) : Decidable (s.InTime move) :=
  inferInstanceAs (Decidable (_ → _ → _ → _))

variable {s : ShellThreads} {written : Pipe → List Chunk}

theorem Fine.queue (h : s.Fine written) {t : ShellThreads} {added : List ShellEvent}
    (hservice : t.service = s.service) (hevents : t.events = s.events ++ added)
    (hproduced : ∀ log, Produced written s.pumps s.worker log →
      Produced written t.pumps t.worker (log ++ added.map packet)) : t.Fine written := by
  obtain ⟨packets, frames, hframes, hlog, hrest⟩ := h
  rw [← hservice] at hrest
  refine ⟨packets, frames, hframes, ?_, hrest⟩
  have hnew := hproduced _ hlog
  simpa [pipeline, hservice, hevents] using hnew

theorem Fine.pump (h : s.Fine written) (pipe : Pipe) : (s.step (.pump pipe)).Fine written := by
  simp only [step, pumpOutput]
  cases hchunks : (s.pumps pipe).chunks with
  | nil =>
    refine h.queue rfl (append_nil _).symm fun log hlog => ?_
    rw [map_nil, append_nil]
    exact hlog.finish hchunks
  | cons chunk chunks => exact h.queue rfl rfl fun log hlog => hlog.pump hchunks

theorem Fine.worker (h : s.Fine written) {waited : Waited} (hwaited : waited ≠ .lost) :
    (s.step (.worker waited)).Fine written := by
  have hmove (next : WorkerThread) (hreported : next.reported = s.worker.reported)
      (hkept : next ≠ .gone none) : Fine written { s with worker := next } := by
    refine h.queue rfl (append_nil _).symm fun log hlog => ?_
    rw [map_nil, append_nil]
    exact hlog.goOn hreported hkept
  simp only [step, stepWorker]
  cases hworker : s.worker with
  | waiting =>
    cases waited with
    | running => exact h
    | exited status => exact hmove _ (by rw [hworker]; rfl) (by simp)
    | lost => exact absurd rfl hwaited
  | joining status =>
    dsimp only
    split_ifs with hfinished
    · rw [drained, Bool.and_eq_true] at hfinished
      have hall (pipe : Pipe) : (s.pumps pipe).finished := by
        cases pipe with
        | stdout => exact hfinished.1
        | stderr => exact hfinished.2
      exact h.queue rfl rfl fun log hlog => hlog.report (by rw [hworker]; rfl) hall
    · exact h
  | leaving status => exact hmove _ (by rw [hworker]; rfl) (by simp)
  | gone status => exact h

theorem Fine.input (h : s.Fine written) (hregular : s.Regular .input)
    (htime : s.InTime .input) : (s.step .input).Fine written := by
  obtain ⟨packets, frames, hframes, hlog, hexit, hphase⟩ := h
  have houtput := s.service.stepInput_output s.worker.isGone
  refine ⟨packets, frames, hframes, ?_, ?_, ?_⟩
  · have hpipeline : (s.step .input).pipeline = s.pipeline := by
      simp only [pipeline, step, ShellService.step, houtput]
    rw [hpipeline]
    exact hlog
  · simpa only [step, ShellService.step, houtput] using hexit
  · rcases hphase with ⟨hway, hsent⟩ | ⟨hleft, resets, hsent, hresets⟩
    · have hgone : s.service.input.isHandling → s.worker.isGone = false := by
        intro hhandling
        by_contra hgone
        have hleft := htime rfl (by simpa using hgone) hhandling
        rw [hway.not_left] at hleft
        cases hleft
      have hstep := hway.stepInput hregular.1 hgone
      exact .inl ⟨hstep.1, hstep.2.trans hsent⟩
    · obtain ⟨more, hmore, hreset⟩ := s.service.stepInput_sent s.worker.isGone
      refine .inr ⟨by simpa only [step, ShellService.step, houtput] using hleft,
        resets ++ more, ?_, ?_⟩
      · simp only [step, ShellService.step, hmore, hsent, append_assoc, cons_append]
      · simpa [or_imp, forall_and] using ⟨hresets, hreset⟩

theorem recvTimeout_error {packets : List ShellPacket} {e : ShellWorkerError}
    (hlog : Produced written s.pumps s.worker (packets ++ s.pipeline))
    (hexit : packets.any isExit = false) (houtput : s.service.output = .polling)
    (he : s.recvTimeout = .error e) : e = .receiveTimeout := by
  unfold recvTimeout at he
  split at he
  · simp at he
  · rename_i hevents
    split_ifs at he with hgone
    · exfalso
      obtain ⟨outputs, -, hends⟩ := hlog.ends
      have hkept := hlog.kept
      have hpipeline : s.pipeline = [] := by
        simp [pipeline, houtput, inFlight, hevents]
      rw [hpipeline, append_nil] at hends
      cases hworker : s.worker with
      | gone status =>
        cases status with
        | none => exact hkept hworker
        | some status => simp [hends, hworker, WorkerThread.reported, isExit] at hexit
      | waiting | joining | leaving => simp [hworker, WorkerThread.isGone] at hgone
    · exact (Except.error.inj he).symm

theorem stepOutput_cases (s : ShellThreads) : ∃ event events,
    s.stepOutput = { s with service := s.service.stepOutput event, events := events } ∧
    s.service.taken event ++ events.map packet = s.events.map packet ∧
    (s.service.output = .polling → event = s.recvTimeout) := by
  unfold stepOutput
  split
  · rename_i houtput
    refine ⟨s.recvTimeout, s.events.tail, rfl, ?_, fun _ => rfl⟩
    cases hevents : s.events with
    | nil =>
      simp only [recvTimeout, hevents, taken, houtput]
      split_ifs
      · rfl
      · rfl
    | cons event events => simp [recvTimeout, hevents, taken, houtput]
  · rename_i hne
    exact ⟨.error .receiveTimeout, s.events, rfl, by simp [taken], fun h => absurd h hne⟩

theorem Fine.output (h : s.Fine written) (hregular : s.Regular .output) :
    (s.step .output).Fine written := by
  obtain ⟨packets, frames, hframes, hlog, hexit, hphase⟩ := h
  obtain ⟨event, events, hstep, htaken, hevent⟩ := s.stepOutput_cases
  have hup := hregular.1
  rw [step, hstep] at hup ⊢
  rcases hphase with ⟨hway, rfl⟩ | ⟨hleft, resets, hsent, hresets⟩
  · have htimeout : s.service.output = .polling → ∀ e, event = .error e → e = .receiveTimeout := by
      intro houtput e he
      rw [houtput] at hexit
      exact recvTimeout_error hlog hexit houtput (hevent houtput ▸ he)
    rcases hway.stepOutput hup htimeout with
      ⟨hway', new, more, hmore, hsent, hflight, hexit'⟩ | ⟨hclosing, hjoining, hsent⟩
    · refine ⟨packets ++ new, _, rel_append hframes hmore, ?_, ?_, .inl ⟨hway', hsent⟩⟩
      · have hpipeline : packets ++ s.pipeline = packets ++ new ++
            ((s.service.stepOutput event).output.inFlight ++ events.map packet) := by
          rw [pipeline, ← htaken, ← append_assoc s.service.output.inFlight, hflight]
          simp only [append_assoc]
        rw [hpipeline] at hlog
        exact hlog
      · rw [any_append, hexit, hexit']
    · have hevents : events.map packet = s.events.map packet := by
        simpa [taken, hclosing] using htaken
      refine ⟨packets, _, hframes, ?_, ?_, .inr ⟨?_, [], hsent, by simp⟩⟩
      · simpa [pipeline, hclosing, hjoining, inFlight, hevents] using hlog
      · simpa [hclosing, hjoining, exitSent] using hexit
      · simp [hjoining, left]
  · obtain ⟨hleft', hstream⟩ := stepOutput_left hleft event
    refine ⟨packets, frames, hframes, ?_, ?_, .inr ⟨hleft', resets, ?_, hresets⟩⟩
    · have hpolling : s.service.output ≠ .polling := by
        intro houtput
        simp [houtput, left] at hleft
      have hevents : events.map packet = s.events.map packet := by
        simpa [taken, hpolling] using htaken
      simpa [-left, pipeline, inFlight_of_left, hleft, hleft', hevents] using hlog
    · dsimp only
      rw [hexit, exitSent_of_left hleft, exitSent_of_left hleft']
    · rw [hstream]
      exact hsent

theorem Fine.step (h : s.Fine written) {move : ThreadMove} (hregular : s.Regular move)
    (htime : s.InTime move) : (s.step move).Fine written := by
  cases move with
  | input => exact h.input hregular htime
  | output => exact h.output hregular
  | pump pipe => exact h.pump pipe
  | worker waited => exact h.worker fun he => hregular.2 (he ▸ rfl)

theorem fine_start {mode : ShellMode} {stream : Handle} (hsent : stream.sent = [])
    (hconsumed : stream.consumed.any (terminal ·.1) = false)
    (hhost : Accepted { mode := mode } stream.inbox) :
    (start mode stream written).Fine fun pipe => (spawnPumps mode written pipe).chunks := by
  have hway : (start mode stream written).service.OnTheWay :=
    ⟨trivial, hconsumed, by simp [start, hsent], hhost, rfl, fun _ => ⟨rfl, rfl⟩⟩
  have hfinished (pipe : Pipe) : (spawnPumps mode written pipe).finished →
      (spawnPumps mode written pipe).chunks = [] := by
    unfold spawnPumps
    split
    · simp
    · simp
  exact ⟨[], [], .nil, ⟨fun _ => rfl, ⟨[], by simp, rfl⟩, hfinished,
    by simp [start, WorkerThread.reported], by simp [start]⟩, rfl, .inl ⟨hway, hsent⟩⟩

theorem Fine.delivered (h : s.Fine written) (hdone : s.service.output = .done) :
    ∃ status, s.worker.reported = [.exit status] ∧
      Delivered written status s.service.stream.sent := by
  obtain ⟨packets, frames, hframes, hlog, hexit, hphase⟩ := h
  rw [hdone] at hexit
  obtain ⟨hrest, status, hstatus⟩ := hlog.of_exit hexit
  obtain ⟨outputs, houtputs, hends⟩ := hlog.ends
  rw [hrest, append_nil, hstatus] at hends
  have hdrained := hlog.drained (by simp [hstatus])
  refine ⟨status, hstatus, ?_⟩
  rcases hphase with ⟨hway, -⟩ | ⟨-, resets, hsent, hresets⟩
  · have hleft := hway.not_left
    simp [hdone, left] at hleft
  · refine ⟨outputs, frames, resets, hends ▸ hframes, hsent, houtputs, fun pipe => ?_, hresets⟩
    have horder := hlog.order pipe
    simpa [hrest, hends, hdrained pipe, filterMap_cons, Pipe.read_exit] using horder

/--
If no packet of the host comes between the return of the worker and CLOSE, the exit status is
delivered, after everything that the process wrote.
-/
theorem exit_status_delivered {mode : ShellMode} {stream : Handle} {moves : List ThreadMove}
    (hsent : stream.sent = []) (hconsumed : stream.consumed.any (terminal ·.1) = false)
    (hhost : Accepted { mode := mode } stream.inbox)
    (hregular : Along step Regular (start mode stream written) moves)
    (htime : Along step InTime (start mode stream written) moves)
    (hdone : ((start mode stream written).exec moves).service.output = .done) :
    ∃ status, ((start mode stream written).exec moves).worker.reported = [.exit status] ∧
      Delivered (fun pipe => (spawnPumps mode written pipe).chunks) status
        ((start mode stream written).exec moves).service.stream.sent := by
  have hfine := (hregular.and htime).foldl (fine_start hsent hconsumed hhost)
    fun s move h hmove => h.step hmove.1 hmove.2
  exact hfine.delivered hdone

/-- The host closes the input of the process, and the connection stays up. -/
def closingHost : Handle where
  inbox := [dataFrame [4, 0, 0, 0, 0] false]
  fails _ := none

/-- The process ends, and its worker reports that and returns. -/
def workerReturns : List ThreadMove :=
  [.worker (.exited ⟨0, 0⟩), .pump .stdout, .pump .stderr, .worker .running, .worker .running]

def greeting : Pipe → List Chunk
  | .stdout => [⟨[104, 105], by decide⟩]
  | .stderr => []

/-- The input thread takes the packet of the host before the process ends. -/
def timelyMoves : List ThreadMove :=
  [.input, .input, .input, .pump .stdout, .output, .output] ++ workerReturns ++
    [.input, .output, .output, .output, .output, .input, .output]

theorem timely_packet_delivered : ∃ status,
    ((start .raw closingHost greeting).exec timelyMoves).worker.reported = [.exit status] ∧
      Delivered (fun pipe => (spawnPumps .raw greeting pipe).chunks) status
        ((start .raw closingHost greeting).exec timelyMoves).service.stream.sent :=
  exit_status_delivered rfl rfl ⟨_, _, rfl, rfl, rfl, trivial⟩ (by decide) (by decide) (by decide)

/-- A packet handed to the worker after its return puts RESET in place of the exit status. -/
theorem late_packet_drops_exit : Accepted { mode := .raw } closingHost.inbox ∧
    ∃ moves, Along step Regular (start .raw closingHost greeting) moves ∧
      ((start .raw closingHost greeting).exec moves).service.output = .done ∧
      ((start .raw closingHost greeting).exec moves).worker.reported = [.exit ⟨0, 0⟩] ∧
      ((start .raw closingHost greeting).exec moves).service.stream.sent =
        [.reset "shell process input stopped".toUTF8.toList] := by
  refine ⟨⟨_, _, rfl, rfl, rfl, trivial⟩, [.input, .input, .pump .stdout] ++ workerReturns ++
    [.input, .input, .output, .output, .output], ?_, ?_, rfl, rfl⟩
  · decide
  · decide

end ShellThreads

end KindleBridge.Device
