import KindleBridge.Device.Serving
import KindleBridge.Foundations.Runs
import KindleBridge.Schema.Shell

/-! # The shell service

Two threads share the stream of a shell. The input thread hands packets of the host to the
process; the output thread sends what the process writes, and the exit status at the end.
What the process and the operating system do is left open.
-/

namespace KindleBridge.Device

open Wire Transport Schema Serving

inductive ShellWorkerError
  | emptyArgv
  | missingTerminalSize
  | terminalSizeForRaw
  | invalidTerminalSize
  | resizeForRaw
  | spawn (source : String)
  | pty (message : String)
  | missingPipe
  | inputTooLarge (length maximum : ℕ)
  | workerStopped
  | workerPanicked
  | receiveTimeout
  deriving DecidableEq, Repr

def ShellWorkerError.text : ShellWorkerError → String
  | .emptyArgv => "shell argv must contain a command"
  | .missingTerminalSize => "a PTY shell requires an initial terminal size"
  | .terminalSizeForRaw => "a raw shell must not include a terminal size"
  | .invalidTerminalSize => "terminal rows and columns must both be non-zero"
  | .resizeForRaw => "terminal resize is only valid for a PTY shell"
  | .spawn source => s!"could not start shell process: {source}"
  | .pty message => s!"PTY operation failed: {message}"
  | .missingPipe => "shell process did not expose a required pipe"
  | .inputTooLarge length maximum =>
    s!"shell input packet is {length} bytes; maximum is {maximum}"
  | .workerStopped => "shell worker stopped"
  | .workerPanicked => "shell process worker panicked"
  | .receiveTimeout => "timed out waiting for shell output"

/-- What the reader of a pipe gets from it at once. -/
abbrev Chunk := { bytes : List UInt8 // bytes.length ≤ usbAlignedShellPacketPayload }

inductive ShellEvent
  | stdout (bytes : Chunk)
  | stderr (bytes : Chunk)
  | exit (status : ShellExit)

structure ShellWorld where
  decodeOpen : List UInt8 → Except String ShellOpen
  start : ShellOpen → Except ShellWorkerError Unit

def validateOpen (request : ShellOpen) : Except ShellWorkerError Unit :=
  if request.argv = [] then .error .emptyArgv
  else match request.mode, request.terminalSize with
    | .pty, none => .error .missingTerminalSize
    | .pty, some size => if size.isValid then .ok () else .error .invalidTerminalSize
    | .raw, some _ => .error .terminalSizeForRaw
    | .raw, none => .ok ()

def ShellWorld.spawn (world : ShellWorld) (request : ShellOpen) : Except ShellWorkerError Unit := do
  validateOpen request
  world.start request

/-- Hand a packet of the host to the process, which may be gone. -/
def sendInput (mode : ShellMode) (gone : Bool) : ShellPacket → Except ShellWorkerError Unit
  | .stdin bytes =>
    if bytes.length > maxShellPacketPayload then
      .error (.inputTooLarge bytes.length maxShellPacketPayload)
    else if gone then .error .workerStopped
    else .ok ()
  | .resize _ =>
    if mode = .raw then .error .resizeForRaw
    else if gone then .error .workerStopped
    else .ok ()
  | _ => if gone then .error .workerStopped else .ok ()

inductive InputThread
  | receiving
  /-- Its request to receive is registered. -/
  | waiting
  /-- The request was answered with an error. -/
  | failed
  | handling (frame : StreamFrame)
  | resetting (reason : String)
  | done
  deriving DecidableEq

inductive OutputThread
  | polling
  | sending (packet : ShellPacket)
  | exiting (status : ShellExit)
  /-- The exit status has been sent, or not: the input thread is woken. -/
  | cancelling (error : Option ServerError)
  | closing
  /-- It stops the stream, before it polls again or as the last thing. -/
  | stopping (last : Bool)
  | unblocking (last : Bool)
  | failing (reason : String)
  | resetting (reason : String)
  | joining
  | done
  deriving DecidableEq

structure ShellService where
  stream : Handle
  protocol : ShellStreamState
  stopped : Bool := false
  input : InputThread := .receiving
  output : OutputThread := .polling
  terminalError : Option ServerError := none

/-- A move of one thread, with what the process tells it. -/
inductive ShellMove
  | input (gone : Bool)
  | output (event : Except ShellWorkerError ShellEvent)

def sendPacket (packet : ShellPacket) (endStream : Bool) : Op Handle ServerError Unit := do
  let bytes ← Op.ofExcept (packet.encode.mapError fun e => .shell e.text)
  Op.zoom id (fun h _ => h) .connection (Handle.sendData bytes endStream)

namespace ShellService

/-- What becomes of the payload of a DATA frame. -/
def acceptInput (protocol : ShellStreamState) (gone : Bool) (payload : List UInt8) :
    Except String ShellStreamState := do
  let packet ← (ShellPacket.decode payload .host).mapError ShellPacketError.text
  let protocol ← (protocol.accept packet).mapError ShellOrderError.text
  (sendInput protocol.mode gone packet).mapError fun _ => "shell process input stopped"
  return protocol

def handle (gone : Bool) (frame : Frame) (s : ShellService) : ShellService :=
  match frame.header.command with
  | .data =>
    match acceptInput s.protocol gone frame.payload with
    | .ok protocol => { s with protocol := protocol, input := .receiving }
    | .error reason => { s with stopped := true, input := .resetting reason }
  | .reset | .close => { s with stopped := true, input := .done }
  | _ => { s with stopped := true, input := .resetting "unexpected shell stream frame" }

def stepInput (gone : Bool) (s : ShellService) : ShellService :=
  match s.input with
  | .receiving =>
    match Handle.request.run s.stream with
    | (.ok _, h) => { s with stream := h, input := .waiting }
    | (.error _, h) => { s with stream := h, input := .failed }
  | .waiting =>
    match Handle.poll.run s.stream with
    | (.ok (some frame), h) => { s with stream := h, input := .handling frame }
    | (.ok none, h) => { s with stream := h }
    | (.error _, h) => { s with stream := h, input := .failed }
  | .failed => { s with stopped := true, input := .done }
  | .handling frame => s.handle gone frame.1
  | .resetting reason =>
    { s with stream := ((Handle.reset reason.toUTF8.toList).run s.stream).2, input := .done }
  | .done => s

def cancelReceive (s : ShellService) : ShellService :=
  match Handle.cancelReceive.run s.stream with
  | (.ok _, h) =>
    { s with stream := h, input := if s.input = .waiting then .failed else s.input }
  | (.error _, h) => { s with stream := h }

def take (event : Except ShellWorkerError ShellEvent) (s : ShellService) : ShellService :=
  match event with
  | .ok (.stdout bytes) => if s.stopped then s else { s with output := .sending (.stdout bytes.1) }
  | .ok (.stderr bytes) => if s.stopped then s else { s with output := .sending (.stderr bytes.1) }
  | .ok (.exit status) =>
    if s.stopped then { s with output := .joining } else { s with output := .exiting status }
  | .error .receiveTimeout => s
  | .error e =>
    if s.stopped then { s with output := .joining } else { s with output := .failing e.text }

def stepOutput (event : Except ShellWorkerError ShellEvent) (s : ShellService) : ShellService :=
  match s.output with
  | .polling => s.take event
  | .sending packet =>
    match (sendPacket packet false).run s.stream with
    | (.ok _, h) => { s with stream := h, output := .polling }
    | (.error e, h) =>
      { s with stream := h, terminalError := some e, output := .stopping false }
  | .exiting status =>
    match (sendPacket (.exit status) true).run s.stream with
    | (.ok _, h) => { s with stream := h, output := .cancelling none }
    | (.error e, h) => { s with stream := h, output := .cancelling (some e) }
  | .cancelling none => { s.cancelReceive with output := .closing }
  | .cancelling (some e) =>
    { s.cancelReceive with terminalError := some e, output := .stopping true }
  | .closing =>
    match Handle.close.run s.stream with
    | (.ok _, h) => { s with stream := h, output := .joining }
    | (.error e, h) =>
      { s with stream := h, terminalError := some (.connection e), output := .stopping true }
  | .stopping last => { s with stopped := true, output := .unblocking last }
  | .unblocking last => { s.cancelReceive with output := if last then .joining else .polling }
  | .failing reason => { s.cancelReceive with output := .resetting reason }
  | .resetting reason =>
    match (Handle.reset reason.toUTF8.toList).run s.stream with
    | (.ok _, h) => { s with stream := h, output := .joining }
    | (.error e, h) =>
      { s with stream := h, terminalError := some (.connection e), output := .joining }
  | .joining => if s.input = .done then { s with output := .done } else s
  | .done => s

def step (s : ShellService) : ShellMove → ShellService
  | .input gone => s.stepInput gone
  | .output event => s.stepOutput event

def exec (s : ShellService) (moves : List ShellMove) : ShellService := moves.foldl step s

end ShellService

variable {τ : Type}

/-- Read the request that opens a shell and start its process. -/
def openShell (world : ShellWorld) : ServiceM τ (Option ShellOpen) := do
  let frame ← actorData
  if frame.header.endStream then
    onStream (Handle.reset "shell open metadata must not end the stream".toUTF8.toList)
    return none
  else match world.decodeOpen frame.payload with
    | .error source =>
      onStream (Handle.reset s!"invalid shell open payload: {source}".toUTF8.toList)
      return none
    | .ok request => match world.spawn request with
      | .error e =>
        onStream (Handle.reset e.text.toUTF8.toList)
        return none
      | .ok _ => return some request

/-- The result of a shell whose threads have made their moves. -/
def ShellService.result (w : ShellService) : ServiceM τ Unit :=
  if w.output = .done then
    match w.terminalError with
    | some e => Op.fail e
    | none => return ()
  else suspend

def serveStream (world : ShellWorld) (moves : List ShellMove) : ServiceM τ Unit := do
  match ← openShell world with
  | none => return ()
  | some request =>
    let s ← Op.get
    let w := ShellService.exec { stream := s.stream, protocol := { mode := request.mode } } moves
    Op.modify fun s => { s with stream := w.stream }
    w.result

end KindleBridge.Device
