import Mathlib.Data.List.Induction
import KindleBridge.Foundations.Table
import KindleBridge.Transport.Gapless

/-! # Session generations

A fresh HELLO starts a new generation on the same transport, and stream ids and sequence
numbers begin again. What belongs to a session is told apart by its generation: the
requests that are obeyed, the channels that wait for an answer and the frames in the
writer queue.
-/

namespace KindleBridge.Transport

open Wire SessionState List StreamEntry FrameScheduler

namespace Actor

inductive Pending (a : Actor) (response : ℕ) : Prop
  | stream {id : ℕ} {e : StreamEntry} : a.streams.lookup id = some e → response ∈ e.waiting →
      Pending a response
  | write {key : ℕ × ℕ} : a.writeWaiters.lookup key = some response → Pending a response
  | ping {payload : List UInt8} {p : PendingPing} : a.pendingPings.lookup payload = some p →
      p.response = response → Pending a response
  | goAway : a.pendingGoaway = some response → Pending a response

def tables (a : Actor) : (AList fun _ : ℕ => StreamEntry) × (AList fun _ : ℕ × ℕ => ℕ) ×
    (AList fun _ : List UInt8 => PendingPing) × Option ℕ :=
  (a.streams, a.writeWaiters, a.pendingPings, a.pendingGoaway)

/-- No channel waits in the later actor but those that waited before and the new one. -/
def Registers (fresh : Option ℕ) (a b : Actor) : Prop :=
  ∀ response, b.Pending response → a.Pending response ∨ fresh = some response

variable {codec : ServiceCodec} {w : World} {a b c : Actor} {frame : Frame} {id response : ℕ}
  {item : ScheduledFrame} {context : FrameContext} {fresh : Option ℕ} {e e' : StreamEntry}
  {command : ActorCommand} {payload : List UInt8} {generation : ℕ} {event : Event}

theorem Pending.of_tables (h : b.Pending response) (ht : b.tables = a.tables) :
    a.Pending response := by
  simp only [tables, Prod.mk.injEq] at ht
  obtain ⟨hs, hw, hp, hg⟩ := ht
  rcases h with ⟨he, hr⟩ | hr | ⟨hl, hr⟩ | hr
  · exact .stream (hs ▸ he) hr
  · exact .write (hw ▸ hr)
  · exact .ping (hp ▸ hl) hr
  · exact .goAway (hg ▸ hr)

theorem pending_insertWriter {key : ℕ × ℕ} {r : ℕ} (h : Pending
    { a with writeWaiters := a.writeWaiters.insert key response } r) :
    a.Pending r ∨ r = response := by
  rcases h with ⟨he, hr⟩ | hr | ⟨hl, hr⟩ | hr
  · exact .inl (.stream he hr)
  · exact (lookup_insert_cases hr).symm.imp_left .write
  · exact .inl (.ping hl hr)
  · exact .inl (.goAway hr)

namespace Registers

theorem of_tables (h : b.tables = a.tables) : Registers fresh a b :=
  fun _ hr => .inl (hr.of_tables h)

theorem pending (h : Registers none a b) (hp : b.Pending response) : a.Pending response := by
  simpa using h response hp

theorem trans (h : Registers fresh a b) (h' : Registers fresh b c) : Registers fresh a c := by
  intro r hr
  rcases h' r hr with hr | hr
  · exact h r hr
  · exact .inr hr

theorem after (h : Registers fresh b c) (hb : b.tables = a.tables) : Registers fresh a c :=
  (of_tables hb).trans h

theorem setEntry (h : ∀ r ∈ e.waiting, a.Pending r ∨ fresh = some r) :
    Registers fresh a (a.setEntry id e) := by
  rintro r (⟨he, hr⟩ | hr | ⟨hl, hr⟩ | hr)
  · rcases lookup_insert_cases he with rfl | he
    · exact h r hr
    · exact .inl (.stream he hr)
  · exact .inl (.write hr)
  · exact .inl (.ping hl hr)
  · exact .inl (.goAway hr)

theorem setEntry_of_lookup (he : a.streams.lookup id = some e)
    (h : ∀ r ∈ e'.waiting, r ∈ e.waiting ∨ fresh = some r) :
    Registers fresh a (a.setEntry id e') := by
  apply setEntry
  intro r hr
  exact (h r hr).imp_left (.stream he)

theorem insertPing {p : PendingPing} (h : fresh = some p.response) :
    Registers fresh a { a with pendingPings := a.pendingPings.insert payload p } := by
  rintro r (⟨he, hr⟩ | hr | ⟨hl, hr⟩ | hr)
  · exact .inl (.stream he hr)
  · exact .inl (.write hr)
  · rcases lookup_insert_cases hl with rfl | hl
    · exact .inr (hr ▸ h)
    · exact .inl (.ping hl hr)
  · exact .inl (.goAway hr)

theorem of_erased (hs : ∀ id e, b.streams.lookup id = some e → a.streams.lookup id = some e)
    (hw : ∀ key r, b.writeWaiters.lookup key = some r → a.writeWaiters.lookup key = some r)
    (hp : ∀ payload p, b.pendingPings.lookup payload = some p →
      a.pendingPings.lookup payload = some p)
    (hg : b.pendingGoaway = a.pendingGoaway) : Registers fresh a b := by
  rintro r (⟨he, hr⟩ | hr | ⟨hl, hr⟩ | hr)
  · exact .inl (.stream (hs _ _ he) hr)
  · exact .inl (.write (hw _ _ hr))
  · exact .inl (.ping (hp _ _ hl) hr)
  · exact .inl (.goAway (hg ▸ hr))

theorem retireStream {error : ConnectionError} : Registers fresh a (a.retireStream id error) :=
  of_erased (fun _ _ => lookup_of_lookup_erase) (fun _ _ => lookup_of_lookup_foldl_erase)
    (fun _ _ h => h) rfl

theorem submits (h : a.Submits item context b) : Registers fresh a b := by
  obtain ⟨t, -⟩ := h
  exact of_tables rfl

theorem restores (h : a.Restores frame b) : Registers fresh a b := by
  cases h with
  | nothing => exact of_tables rfl
  | connection _ _ _ hs => exact submits hs
  | both _ _ _ hs hs' => exact (submits hs).trans (submits hs')

theorem hand : Registers fresh a (a.hand id response frame) := by
  unfold Actor.hand
  split_ifs
  · exact retireStream.after rfl
  · exact of_tables rfl

theorem delivers (h : a.Delivers frame b) : Registers fresh a b := by
  cases h with
  | handed he _ hs =>
    refine Registers.trans (setEntry_of_lookup he ?_) ((restores hs).trans hand)
    simp only [waiting]
    grind
  | stored he => exact setEntry_of_lookup he fun _ hr => .inl hr

theorem receives (h : a.Receives id response b) : Registers (some response) a b := by
  cases h with
  | waits he =>
    apply setEntry_of_lookup he
    simp only [waiting]
    grind
  | takes he _ _ hs =>
    refine Registers.trans (setEntry_of_lookup he ?_) ((restores hs).trans hand)
    exact fun _ hr => .inl hr

theorem sends {endStream : Bool}
    (h : a.Sends id payload endStream response b) : Registers (some response) a b := by
  cases h with
  | queued _ _ _ _ hs =>
    intro r hr
    rcases pending_insertWriter hr with hr | rfl
    · exact submits hs r hr
    · exact .inr rfl
  | waits he =>
    apply setEntry_of_lookup he
    simp only [waiting]
    grind

theorem flushes (h : a.Flushes id b) : Registers fresh a b := by
  cases h with
  | nothing => exact of_tables rfl
  | short he => exact setEntry_of_lookup he fun _ hr => .inl hr
  | @queued e pending c he hp _ hs =>
    have hwaits : a.Pending pending.response := .stream he (by simp [waiting, hp])
    have hset : Registers fresh a (a.setEntry id { e with pendingSend := none }) := by
      apply setEntry_of_lookup he
      simp only [waiting]
      grind
    have hqueued := hset.trans (submits hs)
    intro r hr
    rcases pending_insertWriter hr with hr | rfl
    · exact hqueued r hr
    · exact .inl hwaits

theorem flushesAll {ids : List ℕ} (h : FlushesAll ids a b) : Registers fresh a b := by
  induction h with
  | nil => exact of_tables rfl
  | cons hs _ ih => exact (flushes hs).trans ih

theorem obeys (h : Obeys codec w a command b) : Registers command.response a b := by
  cases h with
  | gone | pingFull | pingLate | goAwayFull | shutdown => exact of_tables rfl
  | ping _ hs => exact ((submits hs).trans (insertPing rfl)).after rfl
  | «open» _ _ hs =>
    refine after (Registers.trans (setEntry ?_) (submits hs)) rfl
    simp [waiting, StreamEntry.new, ActorCommand.response]
  | accept he _ hs =>
    refine (Registers.trans (setEntry_of_lookup he ?_) (submits hs)).trans (of_tables rfl)
    exact fun _ hr => .inl hr
  | reject _ hs | close _ hs | reset _ hs => exact (submits hs).trans (of_tables rfl)
  | sendData hs => exact sends hs
  | receive hr => exact receives hr
  | cancelReceive he =>
    refine Registers.trans (setEntry_of_lookup he ?_) (of_tables rfl)
    simp only [waiting]
    grind
  | goAway _ hs =>
    refine (submits hs).trans ?_
    rintro r (⟨he, hr⟩ | hr | ⟨hl, hr⟩ | hr)
    · exact .inl (.stream he hr)
    · exact .inl (.write hr)
    · exact .inl (.ping hl hr)
    · exact .inr hr

end Registers

/-- Where the tables have been cleared, only the answer to a GOAWAY is waited for. -/
theorem Pending.goAway_of_cleared (h : b.Pending response) (hs : b.streams = ∅)
    (hw : b.writeWaiters = ∅) (hp : b.pendingPings = ∅) : b.pendingGoaway = some response := by
  rcases h with ⟨he, -⟩ | hr | ⟨hl, -⟩ | hr
  · simp [hs] at he
  · simp [hw] at hr
  · simp [hp] at hl
  · exact hr

theorem not_pending_finish : ¬ (a.finish w).Pending response := by
  rintro (⟨he, hr⟩ | hr | ⟨hl, -⟩ | hr)
  · have hmem := AList.mem_lookup_iff.mp he
    simp only [finish, failAll, mem_map] at hmem
    obtain ⟨x, -, hx⟩ := hmem
    have hsilent := eq_of_heq (Sigma.mk.inj hx).2
    simp [← hsilent, waiting, silenced] at hr
  · simp [finish, failAll] at hr
  · simp [finish, failAll] at hl
  · simp [finish, failAll] at hr

theorem Registers.dispatches (h : Dispatches codec w a frame b)
    (hc : frame.header.command ≠ .goAway) : Registers fresh a b := by
  cases h with
  | «open» =>
    have hset : Registers fresh a (a.setEntry frame.header.streamId (.new .bulk 0)) := by
      apply setEntry
      simp [waiting, StreamEntry.new]
    exact hset.trans (of_tables rfl)
  | @accept e b _ he hs =>
    have hlookup : b.streams.lookup frame.header.streamId = some e := by
      obtain ⟨t, -⟩ := hs
      exact he
    have hset : Registers fresh b (b.setEntry frame.header.streamId { e with opener := none }) := by
      apply setEntry_of_lookup hlookup
      simp only [waiting]
      grind
    exact ((submits hs).trans hset).trans (of_tables rfl)
  | reject => exact of_erased (fun _ _ => lookup_of_lookup_erase) (fun _ _ h => h) (fun _ _ h => h) rfl
  | credit _ _ hf => exact flushes hf
  | connectionCredit _ _ hf => exact flushesAll hf
  | deliver _ hd => exact delivers hd
  | ping _ hs => exact submits hs
  | pong => exact of_erased (fun _ _ h => h) (fun _ _ h => h) (fun _ _ => lookup_of_lookup_erase) rfl
  | goAway hn => exact absurd hn hc

theorem Registers.wrote : Registers fresh a (a.wrote item) := by
  have hwrite : Registers fresh a { (a.write item.frame).replyAll
      (a.writeWaiters.lookup (item.frame.header.streamId, item.frame.header.sequence)).toList
      .done with
    scheduler := a.scheduler.dequeue.2
    writeWaiters :=
      a.writeWaiters.erase (item.frame.header.streamId, item.frame.header.sequence) } :=
    of_erased (fun _ _ h => h) (fun _ _ => lookup_of_lookup_erase) (fun _ _ h => h) rfl
  unfold Actor.wrote
  dsimp only
  split_ifs
  · exact hwrite.trans retireStream
  · exact hwrite

theorem Registers.expirePings {now : ℕ} : Registers fresh a (a.expirePings now) := by
  refine of_erased (fun _ _ h => h) (fun _ _ h => h) (fun payload p h => ?_) rfl
  have hmap : (a.expirePings now).pendingPings =
      ((a.pendingPings.entries.filter (·.2.deadline ≤ now)).map (·.1)).foldl
        (fun pings payload => pings.erase payload) a.pendingPings := by
    rw [foldl_map]
    rfl
  rw [hmap] at h
  exact lookup_of_lookup_foldl_erase h

/-- When a HELLO starts a fresh session, nobody waits for the answer to a GOAWAY. -/
def Resolved (a : Actor) : World × Event → Prop
  | (_, .inbound frame) => a.running → a.Restarts frame → a.pendingGoaway = none
  | _ => True

instance (a : Actor) (frame : Frame) : Decidable (a.Restarts frame) :=
  inferInstanceAs (Decidable (_ ∧ _))

instance (a : Actor) (input : World × Event) : Decidable (a.Resolved input) :=
  match input with
  | (_, .inbound _) => inferInstanceAs (Decidable (_ → _))
  | (_, .command _) | (_, .commandsClosed) | (_, .inboundFailed _) | (_, .inboundClosed)
  | (_, .dequeue) | (_, .expire) => inferInstanceAs (Decidable True)

/-- The events that a channel which waits after a step may come from. -/
theorem step_pending (hresolved : a.Resolved (w, event))
    (hp : (step codec a (w, event)).Pending response) :
    (step codec a (w, event)).generation = a.generation ∧ (a.Pending response ∨
      ∃ command, event = .command command ∧ command.generation = some a.generation ∧
        command.response = some response) := by
  revert hp
  refine step_induction codec a (w, event) fun b hsteps hp => ?_
  cases hsteps with
  | stopped => exact ⟨rfl, .inl hp⟩
  | finished | failed => exact absurd hp not_pending_finish
  | restarting _ _ hr =>
    have hfails := handle_fails hr
    have hgoaway := hp.goAway_of_cleared rfl rfl rfl
    refine ⟨hfails.generation, .inl (.goAway ?_)⟩
    rcases hfails.pendingGoaway with h | h
    · exact h.symm.trans hgoaway
    · exact absurd (h.symm.trans hgoaway) (by simp)
  | handled hrun _ hr =>
    cases handle_ok hr with
    | refused | idle => exact ⟨rfl, .inl (hp.of_tables rfl)⟩
    | ignored | closed => exact ⟨rfl, .inl hp⟩
    | @obeyed command _ _ hg ho =>
      rcases hg with hg | rfl
      · refine ⟨(Queues.obeys ho).generation, ?_⟩
        rcases Registers.obeys ho response hp with h | h
        · exact .inl h
        · exact .inr ⟨command, rfl, hg, h⟩
      · cases ho with
        | gone hid => simp [ActorCommand.streamId] at hid
        | shutdown => exact ⟨rfl, .inl hp⟩
    | restarted hrestarts | unwritten hrestarts =>
      have hnone := hresolved hrun hrestarts
      exact absurd (hnone.symm.trans (hp.goAway_of_cleared rfl rfl rfl)) (by simp)
    | @discarded frame s _ _ _ _ _ hrestores =>
      have hregisters : Registers none a b := (Registers.restores hrestores).after rfl
      exact ⟨(Queues.restores hrestores).generation, .inl (hregisters.pending hp)⟩
    | @dispatched frame s _ _ _ _ _ hdispatch =>
      rcases hdispatch.goAway_or with hc | ⟨-, hpending, -, hs⟩
      · have hregisters : Registers none a b := (Registers.dispatches hdispatch hc).after rfl
        exact ⟨(Queues.dispatches hdispatch hc).generation, .inl (hregisters.pending hp)⟩
      · have hfailed := (Registers.submits hs : Registers none _ b).pending hp
        have hgoaway := hfailed.goAway_of_cleared rfl rfl rfl
        exact absurd (hpending.symm.trans hgoaway) (by simp)
    | wrote =>
      refine ⟨?_, .inl (Registers.wrote.pending hp)⟩
      unfold wrote
      split_ifs <;> rfl
    | expired => exact ⟨rfl, .inl (Registers.expirePings.pending hp)⟩

/-- The channel came with a request of the current session, made during that session. -/
def Registered (codec : ServiceCodec) (a : Actor) (inputs : List (World × Event))
    (response : ℕ) : Prop :=
  ∃ before after w command, inputs = before ++ (w, .command command) :: after ∧
    command.response = some response ∧
    command.generation = some (exec codec a inputs).generation ∧
    (exec codec a before).generation = (exec codec a inputs).generation

theorem registered_of_pending {inputs : List (World × Event)}
    (hnew : ∀ response, ¬ a.Pending response) (hresolved : Along (step codec) Resolved a inputs)
    (hp : (exec codec a inputs).Pending response) : Registered codec a inputs response := by
  induction inputs using reverseRecOn generalizing response with
  | nil => exact absurd hp (hnew response)
  | append_singleton inputs input ih =>
    obtain ⟨w, event⟩ := input
    obtain ⟨hbefore, hlast⟩ := Along.append.mp hresolved
    have hexec : exec codec a (inputs ++ [(w, event)]) =
        step codec (exec codec a inputs) (w, event) := by simp [exec]
    have hinput : (exec codec a inputs).Resolved (w, event) := hlast.1
    unfold Registered
    rw [hexec] at hp ⊢
    obtain ⟨hg, hwaited | ⟨command, rfl, hcommand, hresponse⟩⟩ := step_pending hinput hp
    · obtain ⟨before, after, w', command, rfl, hresponse, hcommand, hsame⟩ := ih hbefore hwaited
      rw [hg]
      exact ⟨before, after ++ [(w, event)], w', command, by simp, hresponse, hcommand, hsame⟩
    · rw [hg]
      exact ⟨inputs, [], w, command, rfl, hresponse, hcommand, rfl⟩

theorem step_of_stale (hrun : a.running)
    (hcommand : command.generation = some generation) (hstale : generation ≠ a.generation) :
    ∃ response, command.response = some response ∧
      step codec a (w, .command command) = a.reply response (.error .disconnected) := by
  have hne : command ≠ .shutdown := by
    rintro rfl
    simp [ActorCommand.generation] at hcommand
  obtain ⟨response, hresponse⟩ : ∃ response, command.response = some response := by
    cases command <;> simp_all [ActorCommand.response]
  refine ⟨response, hresponse, step_of_ok hrun ?_ ?_⟩
  · cases command <;> simp_all [Event.Final]
  · have hrefused : a.respondError command .disconnected =
        a.reply response (.error .disconnected) := by
      simp [respondError, replyAll, reply, hresponse]
    simp [handle, handleCurrentCommand, hne, hcommand, hstale, hrefused]

def queuedIn (a : Actor) (generation : ℕ) : List Frame :=
  (a.trace.queued.filter (·.1 = generation)).map (·.2)

/--
What a session writes, with the frames that it has queued and those still in the writer
queue. Every session but the first opens with its HELLO, or stays silent; everything else
comes from its own queue.
-/
inductive Opens (queued waiting : List Frame) : ℕ → List Frame → Prop
  | first {written : List Frame} : (written ++ waiting).Subperm queued →
      Opens queued waiting 0 written
  | silent {generation : ℕ} : waiting = [] → Opens queued waiting (generation + 1) []
  | greeted {generation : ℕ} {rest : List Frame} (r : RestartedSession) :
      (rest ++ waiting).Subperm queued →
      Opens queued waiting (generation + 1) (r.helloResponse :: rest)

namespace Opens

variable {queued queued' waiting waiting' written : List Frame}

theorem mono (h : Opens queued waiting generation written) (hq : queued.Subperm queued')
    (hw : waiting'.Subperm waiting) : Opens queued' waiting' generation written := by
  have happend (rest : List Frame) : (rest ++ waiting').Subperm (rest ++ waiting) :=
    (subperm_append_left rest).mpr hw
  cases h with
  | first hs => exact .first ((happend _).trans (hs.trans hq))
  | silent hs =>
    subst hs
    exact .silent (subperm_nil.mp hw)
  | greeted r hs => exact .greeted r ((happend _).trans (hs.trans hq))

theorem push (h : Opens queued waiting generation written) (hopen : generation = 0 ∨ written ≠ []) :
    Opens (queued ++ [frame]) (waiting ++ [frame]) generation written := by
  cases h with
  | first hs =>
    apply Opens.first
    rw [← append_assoc]
    exact (subperm_append_right [frame]).mpr hs
  | silent => simp at hopen
  | greeted r hs =>
    apply Opens.greeted r
    rw [← append_assoc]
    exact (subperm_append_right [frame]).mpr hs

theorem write (h : Opens queued waiting generation written)
    (hperm : waiting.Perm (frame :: waiting')) :
    Opens queued waiting' generation (written ++ [frame]) := by
  have hmove (rest : List Frame) : (rest ++ [frame] ++ waiting').Subperm (rest ++ waiting) := by
    rw [append_assoc]
    exact (hperm.symm.append_left rest).subperm
  cases h with
  | first hs => exact .first ((hmove _).trans hs)
  | silent hs =>
    subst hs
    simp at hperm
  | greeted r hs => exact .greeted r ((hmove _).trans hs)

end Opens

/-- The invariant of the sessions up to the current one. -/
structure Fenced (a : Actor) : Prop where
  sessions : ∀ generation, Opens (a.queuedIn generation) [] generation (a.writtenIn generation)
  sorted : a.trace.written.Pairwise (·.1 ≤ ·.1)
  written_le : ∀ x ∈ a.trace.written, x.1 ≤ a.generation
  queue : a.running → ∃ log, a.scheduler.Holds log ∧
    Opens (a.queuedIn a.generation) (log.map (·.frame)) a.generation (a.writtenIn a.generation)
  open_of_live : a.running → a.awaitingRestart = false →
    a.generation = 0 ∨ a.writtenIn a.generation ≠ []

theorem queuedIn_of_append {frames : List Frame}
    (h : b.trace.queued = a.trace.queued ++ frames.map (generation, ·)) :
    b.queuedIn generation = a.queuedIn generation ++ frames ∧
      ∀ g, g ≠ generation → b.queuedIn g = a.queuedIn g := by
  constructor
  · simp [queuedIn, h, filter_map, Function.comp_def]
  · intro g hg
    simp [queuedIn, h, filter_map, Function.comp_def, Ne.symm hg]

namespace Fenced

section
variable (h : a.Fenced)
include h

theorem unwritten (hw : b.trace.written = a.trace.written) (hg : b.generation = a.generation)
    (hq : ∃ frames : List Frame, b.trace.queued = a.trace.queued ++ frames.map (a.generation, ·))
    (hqueue : b.running → ∃ log, b.scheduler.Holds log ∧
      Opens (b.queuedIn a.generation) (log.map (·.frame)) a.generation (a.writtenIn a.generation))
    (hopen : b.running → b.awaitingRestart = false →
      a.generation = 0 ∨ a.writtenIn a.generation ≠ []) : b.Fenced := by
  obtain ⟨frames, hq⟩ := hq
  obtain ⟨hsame, hother⟩ := queuedIn_of_append hq
  refine ⟨fun g => ?_, hw ▸ h.sorted, hw ▸ hg ▸ h.written_le, ?_, ?_⟩
  · rw [writtenIn_of_eq hw]
    by_cases hgen : g = a.generation
    · subst hgen
      rw [hsame]
      exact (h.sessions _).mono (sublist_append_left _ _).subperm (.refl [])
    · rw [hother g hgen]
      exact h.sessions g
  · rwa [hg, writtenIn_of_eq hw]
  · rwa [hg, writtenIn_of_eq hw]

theorem cleared (hs : b.scheduler = .new maxScheduledBytes)
    (hw : b.trace.written = a.trace.written) (hg : b.generation = a.generation)
    (hq : ∃ frames : List Frame, b.trace.queued = a.trace.queued ++ frames.map (a.generation, ·))
    (hwait : b.awaitingRestart) : b.Fenced := by
  refine h.unwritten hw hg hq (fun _ => ⟨[], hs ▸ holds_new _, ?_⟩) ?_
  · obtain ⟨frames, hq⟩ := hq
    rw [(queuedIn_of_append hq).1]
    exact (h.sessions _).mono (sublist_append_left _ _).subperm (.refl [])
  · simp [hwait]

theorem withState (s : SessionState) : { a with state := s }.Fenced :=
  h.unwritten rfl rfl ⟨[], by simp⟩ h.queue h.open_of_live

theorem failStreams (error : ConnectionError) (n : ℕ) :
    { a.failStreams error with controlSequence := n, awaitingRestart := true }.Fenced :=
  h.cleared rfl rfl rfl ⟨[], by simp [Actor.failStreams, replyAll]⟩ rfl

theorem idles (hrun : a.running) (hd : a.scheduler.dequeue.1 = none) :
    { a with scheduler := a.scheduler.dequeue.2 }.Fenced := by
  obtain ⟨log, hlog, hopens⟩ := h.queue hrun
  have hserves := hlog.dequeue
  refine h.unwritten rfl rfl ⟨[], by simp⟩ (fun _ => ⟨log, ?_, hopens⟩) h.open_of_live
  generalize a.scheduler.dequeue = r at hserves hd
  obtain ⟨x, t⟩ := r
  obtain rfl : x = none := hd
  exact hserves

theorem queues (hrun : a.running)
    (hopen : a.generation = 0 ∨ a.writtenIn a.generation ≠ []) (hq : Queues a b) : b.Fenced := by
  let Appended (b : Actor) : Prop :=
    b.trace.written = a.trace.written ∧ b.generation = a.generation ∧
      (∃ frames : List Frame, b.trace.queued = a.trace.queued ++ frames.map (a.generation, ·)) ∧
      ∃ log, b.scheduler.Holds log ∧ Opens (b.queuedIn a.generation) (log.map (·.frame))
        a.generation (a.writtenIn a.generation)
  have happended : Appended b := by
    refine hq.preserves ⟨rfl, rfl, ⟨[], by simp⟩, h.queue hrun⟩ ?_ ?_
    · rintro b c item context ⟨hw, hg, ⟨frames, hq⟩, log, hlog, hopens⟩ ⟨t, -⟩
      refine ⟨hw, hg, ⟨frames ++ [item.frame], by simp [submitted, hq, hg]⟩, log ++ [item],
        hlog.push, ?_⟩
      have hqueued : (b.submitted item t).queuedIn a.generation =
          b.queuedIn a.generation ++ [item.frame] := by
        simp [queuedIn, submitted, hg]
      rw [hqueued, map_append]
      exact hopens.push hopen
    · rintro b c ⟨hw, hg, hq, hlog⟩ hs
      refine ⟨hs.written.trans hw, hs.generation.trans hg, hs.queued ▸ hq, ?_⟩
      unfold queuedIn
      rw [hs.scheduler, hs.queued]
      exact hlog
  obtain ⟨hw, hg, hq, hqueue⟩ := happended
  exact h.unwritten hw hg hq (fun _ => hqueue) fun _ _ => hopen

theorem dequeues (hrun : a.running)
    (hd : a.scheduler.dequeue.1 = some item) (hs : b.scheduler = a.scheduler.dequeue.2)
    (hw : b.trace.written = a.trace.written ++ [(a.generation, item.frame)])
    (hq : b.trace.queued = a.trace.queued) (hg : b.generation = a.generation) : b.Fenced := by
  obtain ⟨log, hlog, hopens⟩ := h.queue hrun
  obtain ⟨hsame, hother⟩ := writtenIn_of_append hw
  have hqueued (g : ℕ) : b.queuedIn g = a.queuedIn g := by rw [queuedIn, queuedIn, hq]
  have hserves := hlog.dequeue
  rcases hx : a.scheduler.dequeue with ⟨x, t⟩
  rw [hx] at hserves hd hs
  obtain rfl : x = some item := hd
  obtain ⟨log', htakes, hlog'⟩ := hserves
  have hwrites := hopens.write (htakes.perm.map (·.frame))
  refine ⟨fun g => ?_, ?_, ?_, fun _ => ⟨log', hs ▸ hlog', ?_⟩, fun _ _ => ?_⟩
  · rw [hqueued]
    by_cases hgen : g = a.generation
    · subst hgen
      rw [hsame]
      exact hwrites.mono (.refl _) (nil_sublist _).subperm
    · rw [hother g hgen]
      exact h.sessions g
  · rw [hw, pairwise_append]
    exact ⟨h.sorted, pairwise_singleton _ _, by simpa using h.written_le⟩
  · rw [hw, hg]
    simpa [or_imp, forall_and] using h.written_le
  · rw [hg, hqueued, hsame]
    exact hwrites
  · rw [hg, hsame]
    simp

theorem restarts (hs : b.scheduler = .new maxScheduledBytes)
    (hg : b.generation = a.generation + 1) (hq : b.trace.queued = a.trace.queued)
    (hw : (∃ r : RestartedSession, b.trace.written =
        a.trace.written ++ [(a.generation + 1, r.helloResponse)]) ∨
      b.trace.written = a.trace.written ∧ b.awaitingRestart) : b.Fenced := by
  have hlater : a.writtenIn (a.generation + 1) = [] := by
    unfold writtenIn
    rw [map_eq_nil_iff, filter_eq_nil_iff]
    intro x hx hgen
    have hle := h.written_le x hx
    simp only [decide_eq_true_eq] at hgen
    omega
  have hqueued (g : ℕ) : b.queuedIn g = a.queuedIn g := by rw [queuedIn, queuedIn, hq]
  rcases hw with ⟨r, hw⟩ | ⟨hw, hwait⟩
  · obtain ⟨hsame, hother⟩ := writtenIn_of_append hw
    rw [hlater, nil_append] at hsame
    have hgreets (queued : List Frame) : Opens queued [] (a.generation + 1) [r.helloResponse] :=
      .greeted r (nil_sublist _).subperm
    refine ⟨fun g => ?_, ?_, ?_, fun _ => ⟨[], hs ▸ holds_new _, ?_⟩, fun _ _ => ?_⟩
    · by_cases hgen : g = a.generation + 1
      · subst hgen
        rw [hsame]
        exact hgreets _
      · rw [hqueued, hother g hgen]
        exact h.sessions g
    · rw [hw, pairwise_append]
      refine ⟨h.sorted, pairwise_singleton _ _, ?_⟩
      intro x hx y hy
      obtain rfl := mem_singleton.mp hy
      exact (h.written_le x hx).trans (Nat.le_succ _)
    · rw [hw, hg]
      refine forall_mem_append.mpr ⟨fun x hx => ?_, forall_mem_singleton.mpr le_rfl⟩
      exact (h.written_le x hx).trans (Nat.le_succ _)
    · rw [hg, hsame]
      exact hgreets _
    · rw [hg, hsame]
      simp
  · have hwritten (g : ℕ) : b.writtenIn g = a.writtenIn g := writtenIn_of_eq hw g
    refine ⟨fun g => ?_, hw ▸ h.sorted, ?_, fun _ => ⟨[], hs ▸ holds_new _, ?_⟩, ?_⟩
    · rw [hqueued, hwritten]
      exact h.sessions g
    · rw [hw, hg]
      exact fun x hx => (h.written_le x hx).trans (Nat.le_succ _)
    · rw [hg, hwritten, hlater]
      exact .silent rfl
    · simp [hwait]

theorem handles (hrun : a.running) (hh : Handles codec w a event b) : b.Fenced := by
  cases hh with
  | refused | expired =>
    exact h.unwritten rfl rfl ⟨[], by simp; rfl⟩ h.queue h.open_of_live
  | @obeyed command _ hlive _ ho =>
    rcases hlive with hlive | rfl
    · exact h.queues hrun (h.open_of_live hrun hlive) (.obeys ho)
    · cases ho with
      | gone hid => simp [ActorCommand.streamId] at hid
      | shutdown => exact h
  | @restarted frame r => exact h.restarts rfl rfl rfl (.inl ⟨r, rfl⟩)
  | unwritten => exact h.restarts rfl rfl rfl (.inr ⟨rfl, rfl⟩)
  | ignored | closed => exact h
  | @discarded frame s _ _ hlive _ _ hrestores =>
    exact (h.withState s).queues hrun (h.open_of_live hrun hlive) (.restores hrestores)
  | @dispatched frame s _ _ hlive _ _ hdispatch =>
    have hopen := h.open_of_live hrun hlive
    rcases hdispatch.goAway_or with hc | ⟨-, -, -, hs⟩
    · exact (h.withState s).queues hrun hopen (.dispatches hdispatch hc)
    · have hcleared := (h.withState s).failStreams .disconnected a.controlSequence
      exact hcleared.queues hrun hopen (.of_submits hs)
  | idle hn => exact h.idles hrun hn
  | wrote hi =>
    refine h.dequeues hrun hi ?_ ?_ ?_ ?_
    all_goals
      unfold Actor.wrote
      split_ifs <;> rfl

theorem step (input : World × Event) : (step codec a input).Fenced := by
  refine step_induction codec a input fun b hsteps => ?_
  cases hsteps with
  | stopped => exact h
  | finished _ _ hsame =>
    rcases hsame with rfl | ⟨e, rfl⟩
    all_goals
      exact h.unwritten rfl rfl ⟨[], by simp [finish, failAll, replyAll]⟩ (by simp [finish])
        (by simp [finish])
  | handled hrun _ hr => exact h.handles hrun (handle_ok hr)
  | restarting _ _ hr =>
    have hfails := handle_fails hr
    exact h.cleared rfl hfails.written hfails.generation hfails.queued rfl
  | failed _ _ hr =>
    have hfails := handle_fails hr
    exact h.unwritten hfails.written hfails.generation hfails.queued (by simp [finish])
      (by simp [finish])

end

end Fenced

theorem fenced_new (s : SessionState) (restartable : Bool) : (new s restartable).Fenced where
  sessions
    | 0 => .first (.refl [])
    | _ + 1 => .silent rfl
  sorted := .nil
  written_le := by simp [new]
  queue _ := ⟨[], holds_new _, .first (.refl [])⟩
  open_of_live _ _ := .inl rfl

/--
Generations are isolated at the end of a run: a request of another session is refused and
changes nothing, every channel that waits has been registered in the current session, and
each session has written its HELLO first and then only frames from its own queue, all
before those of the next session.
-/
structure Isolated (codec : ServiceCodec) (start : Actor) (inputs : List (World × Event)) :
    Prop where
  stale : ∀ (w : World) (command : ActorCommand) (generation : ℕ),
    (exec codec start inputs).running → command.generation = some generation →
    generation ≠ (exec codec start inputs).generation →
    ∃ response, command.response = some response ∧
      step codec (exec codec start inputs) (w, .command command) =
        (exec codec start inputs).reply response (.error .disconnected)
  pending : ∀ response, (exec codec start inputs).Pending response →
    Registered codec start inputs response
  opens : ∀ generation, Opens ((exec codec start inputs).queuedIn generation) [] generation
    ((exec codec start inputs).writtenIn generation)
  sorted : (exec codec start inputs).trace.written.Pairwise (·.1 ≤ ·.1)

/--
In every run in which nobody waits for the answer to a GOAWAY whenever a HELLO starts a
fresh session, the generations are isolated.
-/
theorem generations_isolated (codec : ServiceCodec) (s : SessionState) (restartable : Bool)
    (inputs : List (World × Event))
    (hresolved : Along (step codec) Resolved (new s restartable) inputs) :
    Isolated codec (new s restartable) inputs := by
  have hfenced : (exec codec (new s restartable) inputs).Fenced :=
    hresolved.foldl (fenced_new s restartable) fun _ input ha _ => ha.step input
  have hnew : ∀ response, ¬ (new s restartable).Pending response := by
    intro response hp
    have hgoaway := hp.goAway_of_cleared rfl rfl rfl
    simp [new] at hgoaway
  exact ⟨fun _ _ _ => step_of_stale, fun _ => registered_of_pending hnew hresolved,
    hfenced.sessions, hfenced.sorted⟩

/-- The channel of a PING is answered when the session ends, and a fresh one registers its own. -/
theorem generations_isolated_restartRun : let inputs : List (World × Event) :=
      [(calm, .command (.ping 0 5 1)), (calm, .dequeue),
        (renewing, .inbound (frameOf .hello 0 0 [] false)), (renewing, .command (.ping 0 5 2)),
        (renewing, .command (.ping 1 5 3)), (renewing, .dequeue)]
    let a := exec plainCodec (new deviceSession true) inputs
    Along (step plainCodec) Resolved (new deviceSession true) inputs ∧ a.generation = 1 ∧
      a.trace.replies = [(1, .error .disconnected), (2, .error .disconnected)] ∧
      (a.writtenIn 1).map (·.header.command) = [.hello, .ping] ∧ a.Pending 3 ∧
      Isolated plainCodec (new deviceSession true) inputs := by
  intro inputs a
  have hresolved : Along (step plainCodec) Resolved (new deviceSession true) inputs := by
    decide +kernel
  have hping : a.pendingPings.lookup (leBytes 1 ++ leBytes 0) = some ⟨5, 3⟩ := by decide +kernel
  exact ⟨hresolved, by decide +kernel, by decide +kernel, by decide +kernel, .ping hping rfl,
    generations_isolated plainCodec deviceSession true inputs hresolved⟩

/--
A request to go away is written, but the peer greets again instead of answering. The
request outlives its session, and the GOAWAY that the peer sends in the next one answers
it and ends that session.
-/
theorem restart_keeps_goaway_request : let inputs : List (World × Event) :=
      [(calm, .command (.goAway 0 7)), (calm, .dequeue),
        (renewing, .inbound (frameOf .hello 0 0 [] false))]
    let a := exec plainCodec (new deviceSession true) inputs
    let b := step plainCodec a (renewing, .inbound (frameOf .goAway 0 1 [] false))
    a.generation = 1 ∧ a.awaitingRestart = false ∧ a.Pending 7 ∧ b.awaitingRestart ∧
      b.trace.replies = [(7, .done)] ∧ ¬ Isolated plainCodec (new deviceSession true) inputs := by
  intro inputs a b
  have hgeneration : a.generation = 1 := by decide +kernel
  have hpending : a.Pending 7 := .goAway (by decide +kernel)
  refine ⟨hgeneration, by decide +kernel, hpending, by decide +kernel, by decide +kernel, ?_⟩
  intro hisolated
  obtain ⟨before, after, w, command, hinputs, -, hcommand, -⟩ := hisolated.pending 7 hpending
  have hmem : (w, Event.command command) ∈ inputs := by simp [hinputs]
  have hold : command = .goAway 0 7 := by
    simp only [inputs, mem_cons, Prod.mk.injEq, Event.command.injEq, reduceCtorEq, and_false,
      or_false, not_mem_nil] at hmem
    exact hmem.2
  rw [hold] at hcommand
  exact absurd (hcommand.trans (congrArg some hgeneration)) (by decide)

end Actor

end KindleBridge.Transport
