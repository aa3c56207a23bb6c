import Mathlib.Algebra.GroupWithZero.Nat
import Mathlib.Algebra.BigOperators.Group.List.Basic
import KindleBridge.Foundations.Runs

/-! # The worker behind a shell

One thread takes the commands for a process, writes its input, and watches it. After a hangup
the process group has a grace period, and then it is killed.
-/

namespace KindleBridge.Device

/-- In milliseconds. -/
def processPollInterval : ℕ := 5
def hangupGracePeriod : ℕ := 2000

inductive ShellCommand
  | write (bytes : List UInt8)
  | closeInput
  | resize (rows columns pixelWidth pixelHeight : ℕ)
  | shutdown
  deriving DecidableEq

inductive ProcessSignal
  | hangup | kill
  deriving DecidableEq

inductive WorkerPoint
  | receiving
  | writing (rest : List UInt8)
  | checking
  | polling
  | sleeping
  | ended
  deriving DecidableEq

def WorkerPoint.rest : WorkerPoint → ℕ
  | .writing rest => rest.length
  | _ => 0

def ShellCommand.cost : ShellCommand → ℕ
  | .write bytes => bytes.length + 2
  | _ => 1

def WorkerPoint.cost : WorkerPoint → ℕ
  | .receiving => 4
  | .writing rest => rest.length + 5
  | .checking => 3
  | .polling => 2
  | .sleeping => 1
  | .ended => 0

/-- The worker, the commands that are queued or whose senders wait, and its process: how many
bytes its input pipe takes, and whether somebody can still read them. -/
structure ShellProcess where
  pid : Option ℕ
  commands : List ShellCommand := []
  connected : Bool := true
  input : Bool := true
  shutdownDeadline : Option ℕ := none
  point : WorkerPoint := .receiving
  signals : List ProcessSignal := []
  killed : Bool := false
  now : ℕ := 0
  room : ℕ
  reading : Bool := true
  exited : Bool := false
  lost : Bool := false

inductive ProcessMove
  | worker (elapsed : ℕ)
  | send (command : ShellCommand)
  | disconnect
  | reads (count : ℕ)
  | closes
  | exits
  | loses

namespace ShellProcess

def signalGroup (x : ShellProcess) (signal : ProcessSignal) (pid : ℕ) : ShellProcess :=
  if pid < 2 ^ 31 then { x with signals := x.signals ++ [signal] } else x

def beginShutdown (x : ShellProcess) : ShellProcess :=
  if x.shutdownDeadline.isSome then x
  else
    let y := match x.pid with
      | some pid => x.signalGroup .hangup pid
      | none => { x with killed := true }
    { y with shutdownDeadline := some (x.now + hangupGracePeriod) }

def shutDown (x : ShellProcess) : ShellProcess := { x with input := false }.beginShutdown

def forceKill (x : ShellProcess) : ShellProcess :=
  match x.pid with
  | some pid => x.signalGroup .kill pid
  | none => x

def handle (x : ShellProcess) : ShellCommand → ShellProcess
  | .write bytes => if x.input ∧ bytes ≠ [] then { x with point := .writing bytes } else x
  | .closeInput => { x with input := false }
  | .resize .. => x
  | .shutdown => x.shutDown

/-- A pipe takes what there is room for, and the writer waits when there is none. Writing fails
if nobody can read. -/
def writeSome (x : ShellProcess) (rest : List UInt8) : ShellProcess :=
  if x.reading then
    let n := min x.room rest.length
    { x with
      room := x.room - n
      point := if rest.drop n = [] then .receiving else .writing (rest.drop n) }
  else { x with input := false, point := .receiving }

/-- One step of `run_raw_process` or `run_pty_process`. -/
def stepWorker (x : ShellProcess) : ShellProcess :=
  match x.point with
  | .receiving =>
    match x.commands with
    | command :: commands => { x with commands }.handle command
    | [] =>
      if x.connected then { x with point := .checking } else { x.shutDown with point := .checking }
  | .writing rest => x.writeSome rest
  | .checking =>
    if ∃ deadline ∈ x.shutdownDeadline, deadline ≤ x.now then
      { x.forceKill with point := .polling }
    else { x with point := .polling }
  | .polling =>
    if x.lost then { x with killed := true, point := .ended }
    else if x.exited then { x with point := .ended }
    else { x with point := .sleeping }
  | .sleeping => { x with now := x.now + processPollInterval, point := .receiving }
  | .ended => x

def step (x : ShellProcess) : ProcessMove → ShellProcess
  | .worker elapsed => { x with now := x.now + elapsed }.stepWorker
  | .send command => { x with commands := x.commands ++ [command] }
  | .disconnect => { x with connected := false }
  | .reads count => { x with room := x.room + count }
  | .closes => { x with reading := false }
  | .exits => { x with exited := true }
  | .loses => { x with lost := true }

def exec (x : ShellProcess) (moves : List ProcessMove) : ShellProcess := moves.foldl step x

def hangup (x : ShellProcess) : ShellProcess := x.step (.send .shutdown)

/-- The worker cannot go on before the process reads its input or closes it. -/
def Waits (x : ShellProcess) : Prop :=
  ∃ b rest, x.point = .writing (b :: rest) ∧ x.reading ∧ x.room = 0

def Done (x : ShellProcess) : Prop := .kill ∈ x.signals ∨ x.point = .ended

/-! ## The steps that are left -/

def rounds (x : ShellProcess) : ℕ :=
  match x.shutdownDeadline, x.point with
  | some deadline, .polling | some deadline, .sleeping => (deadline - (x.now + 5) + 4) / 5 + 1
  | some deadline, _ => (deadline - x.now + 4) / 5
  | none, .receiving | none, .writing _ => 401
  | none, _ => 402

/-- The steps of the worker that are left, but for commands that are still to come. -/
def bound (x : ShellProcess) : ℕ :=
  (x.commands.map ShellCommand.cost).sum + x.point.cost + 4 * x.rounds

end ShellProcess

def ProcessMove.workerSteps : ProcessMove → ℕ
  | .worker _ => 1
  | _ => 0

def ProcessMove.arriving : ProcessMove → ℕ
  | .send command => command.cost
  | _ => 0

namespace ShellProcess

/-- Whatever the process does, the worker gets to the end of the shell in a bounded number of
its own steps, and none of them waits for the process. -/
def Effective (x : ShellProcess) : Prop :=
  ∀ moves, (x.exec moves).Done ∨ ¬ (x.exec moves).Waits ∧
    (moves.map ProcessMove.workerSteps).sum ≤ x.bound + (moves.map ProcessMove.arriving).sum

def owedBy : List ShellCommand → ℕ
  | [] => 0
  | .write bytes :: commands => bytes.length + owedBy commands
  | .resize .. :: commands => owedBy commands
  | .closeInput :: _ | .shutdown :: _ => 0

def owed (x : ShellProcess) : ℕ :=
  if x.input then x.point.rest + owedBy x.commands else 0

/-- The input that is queued fits into the pipe, or nobody can read it any more. -/
def InputFits (x : ShellProcess) : Prop := x.reading → x.owed ≤ x.room

structure Running (x : ShellProcess) : Prop where
  connected : x.connected
  deadline : x.shutdownDeadline = none
  exited : x.exited = false
  lost : x.lost = false

def start (pid : Fin (2 ^ 31)) (room : ℕ) : ShellProcess := { pid := some pid.val, room }

structure Sound (x : ShellProcess) : Prop where
  pid : ∃ pid ∈ x.pid, pid < 2 ^ 31
  writing : ∀ rest, x.point = .writing rest → x.input ∧ rest ≠ []
  signals : x.shutdownDeadline = none → .kill ∉ x.signals
  ended : x.point = .ended → x.exited ∨ x.lost

variable {x y : ShellProcess} {m : ProcessMove}

theorem sound_start (pid : Fin (2 ^ 31)) (room : ℕ) : (start pid room).Sound where
  pid := ⟨pid, rfl, pid.isLt⟩
  writing := by simp [start]
  signals := by simp [start]
  ended := by simp [start]

theorem shutDown_eq (h : ∃ pid ∈ x.pid, pid < 2 ^ 31) :
    x.shutDown = { x with
      input := false
      signals := if x.shutdownDeadline.isSome then x.signals else x.signals ++ [.hangup]
      shutdownDeadline := some (x.shutdownDeadline.getD (x.now + 2000)) } := by
  obtain ⟨pid, hpid, hlt⟩ := h
  cases hd : x.shutdownDeadline with
  | some deadline => simp [shutDown, beginShutdown, hd]
  | none =>
    simp only [shutDown, beginShutdown, hd, Option.mem_def.mp hpid, signalGroup, if_pos hlt,
      Option.isSome_none, Bool.false_eq_true, if_false, Option.getD_none, hangupGracePeriod]

theorem forceKill_eq (h : ∃ pid ∈ x.pid, pid < 2 ^ 31) :
    x.forceKill = { x with signals := x.signals ++ [.kill] } := by
  obtain ⟨pid, hpid, hlt⟩ := h
  simp only [forceKill, Option.mem_def.mp hpid, signalGroup, if_pos hlt]

/-- What a step of the worker does, for a process that can be signalled. -/
inductive Works (x : ShellProcess) : ShellProcess → Prop
  | begins {bytes : List UInt8} {commands : List ShellCommand} : x.point = .receiving →
      x.commands = .write bytes :: commands → x.input → bytes ≠ [] →
      Works x { x with commands, point := .writing bytes }
  | skips {command : ShellCommand} {commands : List ShellCommand} : x.point = .receiving →
      x.commands = command :: commands → command ≠ .closeInput → command ≠ .shutdown →
      (∀ bytes, command = .write bytes → x.input → bytes = []) → Works x { x with commands }
  | closesInput {commands : List ShellCommand} : x.point = .receiving →
      x.commands = .closeInput :: commands → Works x { x with commands, input := false }
  | hangsUp {commands : List ShellCommand} {point : WorkerPoint} : x.point = .receiving →
      x.commands = .shutdown :: commands ∧ point = .receiving ∨
        x.commands = [] ∧ commands = [] ∧ x.connected = false ∧ point = .checking →
      Works x { x with
        commands, point
        input := false
        signals := if x.shutdownDeadline.isSome then x.signals else x.signals ++ [.hangup]
        shutdownDeadline := some (x.shutdownDeadline.getD (x.now + 2000)) }
  | idles : x.point = .receiving → x.commands = [] → x.connected →
      Works x { x with point := .checking }
  | writes {rest : List UInt8} : x.point = .writing rest → x.reading →
      rest.length ≤ x.room →
      Works x { x with room := x.room - rest.length, point := .receiving }
  | fills {rest : List UInt8} : x.point = .writing rest → x.reading → x.room < rest.length →
      Works x { x with room := 0, point := .writing (rest.drop x.room) }
  | breaks {rest : List UInt8} : x.point = .writing rest → x.reading = false →
      Works x { x with input := false, point := .receiving }
  | kills {deadline : ℕ} : x.point = .checking → x.shutdownDeadline = some deadline →
      deadline ≤ x.now → Works x { x with signals := x.signals ++ [.kill], point := .polling }
  | passes : x.point = .checking → (∀ deadline ∈ x.shutdownDeadline, x.now < deadline) →
      Works x { x with point := .polling }
  | ends {killed : Bool} : x.point = .polling → x.exited ∨ x.lost →
      Works x { x with killed, point := .ended }
  | polls : x.point = .polling → x.exited = false → x.lost = false →
      Works x { x with point := .sleeping }
  | sleeps : x.point = .sleeping →
      Works x { x with now := x.now + processPollInterval, point := .receiving }
  | rests : x.point = .ended → Works x x

theorem works_handle {command : ShellCommand} {commands : List ShellCommand}
    (hpid : ∃ pid ∈ x.pid, pid < 2 ^ 31) (hpoint : x.point = .receiving)
    (hcommands : x.commands = command :: commands) :
    Works x ({ x with commands }.handle command) := by
  cases command with
  | write bytes =>
    rw [handle]
    split_ifs with hb
    · exact .begins hpoint hcommands hb.1 hb.2
    · refine .skips hpoint hcommands (by simp) (by simp) ?_
      rintro _ ⟨⟩ hinput
      exact not_not.mp (not_and.mp hb hinput)
  | closeInput => exact .closesInput hpoint hcommands
  | resize => exact .skips hpoint hcommands (by simp) (by simp) (by simp)
  | shutdown =>
    have heq := shutDown_eq (x := { x with commands }) hpid
    rw [handle, heq]
    simpa only [hpoint] using Works.hangsUp hpoint (.inl ⟨hcommands, rfl⟩)

theorem works_writeSome {rest : List UInt8} (hpoint : x.point = .writing rest) :
    Works x (x.writeSome rest) := by
  cases hreading : x.reading with
  | false => simpa [writeSome, hreading] using Works.breaks hpoint hreading
  | true =>
    rcases Nat.lt_or_ge x.room rest.length with hlt | hle
    · have hdrop : rest.drop x.room ≠ [] := by simpa using hlt
      simpa [writeSome, hreading, Nat.min_eq_left (Nat.le_of_lt hlt), hdrop, hlt] using
        Works.fills hpoint hreading hlt
    · simpa [writeSome, hreading, Nat.min_eq_right hle] using Works.writes hpoint hreading hle

theorem works_stepWorker (hpid : ∃ pid ∈ x.pid, pid < 2 ^ 31) : Works x x.stepWorker := by
  cases hpoint : x.point with
  | receiving =>
    cases hcommands : x.commands with
    | cons c cs =>
      simpa only [stepWorker, hpoint, hcommands] using works_handle hpid hpoint hcommands
    | nil =>
      cases hc : x.connected with
      | true =>
        simpa only [stepWorker, hpoint, hcommands, hc, if_true] using Works.idles hpoint hcommands hc
      | false =>
        simpa only [stepWorker, hpoint, hcommands, hc, Bool.false_eq_true, if_false, shutDown_eq hpid]
          using Works.hangsUp hpoint (.inr ⟨hcommands, rfl, hc, rfl⟩)
  | writing rest => simpa only [stepWorker, hpoint] using works_writeSome hpoint
  | checking =>
    simp only [stepWorker, hpoint]
    split_ifs with hd
    · obtain ⟨deadline, hmem, hle⟩ := hd
      rw [forceKill_eq hpid]
      exact .kills hpoint hmem hle
    · exact .passes hpoint fun deadline hmem => Nat.lt_of_not_le fun hle => hd ⟨deadline, hmem, hle⟩
  | polling =>
    simp only [stepWorker, hpoint]
    split_ifs with hl he
    · exact .ends hpoint (.inr hl)
    · exact .ends hpoint (.inl he)
    · exact .polls hpoint (by simpa using he) (by simpa using hl)
  | sleeping => simpa only [stepWorker, hpoint] using Works.sleeps hpoint
  | ended => simpa only [stepWorker, hpoint] using Works.rests hpoint

theorem Works.sound (hw : x.Works y) (h : x.Sound) : y.Sound := by
  cases hw with
  | begins _ _ hinput hb => exact ⟨h.pid, by rintro _ ⟨⟩; exact ⟨hinput, hb⟩, h.signals, by simp⟩
  | skips => exact ⟨h.pid, h.writing, h.signals, h.ended⟩
  | closesInput hpoint => exact ⟨h.pid, by simp [hpoint], h.signals, h.ended⟩
  | hangsUp _ hp => exact ⟨h.pid, by aesop, by simp, by aesop⟩
  | fills hpoint _ hlt =>
    refine ⟨h.pid, ?_, h.signals, by simp⟩
    rintro _ ⟨⟩
    exact ⟨(h.writing _ hpoint).1, by simpa using hlt⟩
  | kills _ hd => exact ⟨h.pid, by simp, by simp [hd], by simp⟩
  | ends _ he => exact ⟨h.pid, by simp, h.signals, fun _ => he⟩
  | idles | writes | breaks | passes | polls | sleeps =>
    exact ⟨h.pid, by simp, h.signals, by simp⟩
  | rests => exact h

theorem Sound.works (h : x.Sound) : x.Works x.stepWorker := works_stepWorker h.pid

theorem Sound.tick (h : x.Sound) (elapsed : ℕ) : Sound { x with now := x.now + elapsed } :=
  ⟨h.pid, h.writing, h.signals, h.ended⟩

theorem Sound.step (h : x.Sound) (m : ProcessMove) : (x.step m).Sound := by
  cases m with
  | worker elapsed => exact (h.tick elapsed).works.sound (h.tick elapsed)
  | send | disconnect | reads | closes => exact ⟨h.pid, h.writing, h.signals, h.ended⟩
  | exits => exact ⟨h.pid, h.writing, h.signals, fun _ => .inl rfl⟩
  | loses => exact ⟨h.pid, h.writing, h.signals, fun _ => .inr rfl⟩

theorem Sound.exec (h : x.Sound) (moves : List ProcessMove) : (x.exec moves).Sound := by
  induction moves generalizing x with
  | nil => exact h
  | cons m moves ih => exact ih (h.step m)

/-- So many kills came after one hangup, the first of them not before the deadline. -/
def Signalled (x : ShellProcess) : Prop :=
  ∃ n, x.signals = x.shutdownDeadline.toList.map (fun _ => .hangup) ++ .replicate n .kill ∧
    (n = 0 ∨ ∃ deadline ∈ x.shutdownDeadline, deadline ≤ x.now)

theorem Signalled.later (h : x.Signalled) (elapsed : ℕ) :
    Signalled { x with now := x.now + elapsed } := by
  obtain ⟨n, hs, hn⟩ := h
  exact ⟨n, hs, hn.imp_right fun ⟨d, hd, hle⟩ => ⟨d, hd, Nat.le_add_right_of_le hle⟩⟩

theorem Works.signalled (hw : x.Works y) (h : x.Signalled) : y.Signalled := by
  obtain ⟨n, hs, hn⟩ := h
  cases hw with
  | hangsUp =>
    cases hd : x.shutdownDeadline <;> exact ⟨n, by simp_all, by simp_all⟩
  | kills _ hd hle => exact ⟨n + 1, by simp [hs, List.replicate_succ'], .inr ⟨_, hd, hle⟩⟩
  | sleeps => exact Signalled.later ⟨n, hs, hn⟩ _
  | _ => exact ⟨n, hs, hn⟩

/-- In every run, the process is hung up at most once and killed only after its grace period. -/
theorem killed_after_hangup (pid : Fin (2 ^ 31)) (room : ℕ) (moves : List ProcessMove) :
    ((start pid room).exec moves).Signalled := by
  suffices h : ∀ x : ShellProcess, x.Sound → x.Signalled → (x.exec moves).Signalled from
    h _ (sound_start pid room) ⟨0, rfl, .inl rfl⟩
  induction moves with
  | nil => exact fun _ _ h => h
  | cons m moves ih =>
    refine fun x hx h => ih _ (hx.step m) ?_
    cases m with
    | worker elapsed => exact (hx.tick elapsed).works.signalled (h.later elapsed)
    | _ => exact h

end ShellProcess

end KindleBridge.Device
