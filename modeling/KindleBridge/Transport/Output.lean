import KindleBridge.Transport.Events

/-! # The output side of an actor

Whatever else a handler does to the tables, on the output side it queues frames one after
the other. `Queues` records that, so that a fact about the numbers or the writer queue
has to be checked for a single frame only.
-/

namespace KindleBridge.Transport

open Wire SessionState

namespace Actor

structure SameOutput (a b : Actor) : Prop where
  sendCredit : b.state.connectionSendCredit = a.state.connectionSendCredit
  sendLimit : b.state.connectionSendLimit = a.state.connectionSendLimit
  scheduler : b.scheduler = a.scheduler
  sequences : b.sequences = a.sequences
  controlSequence : b.controlSequence = a.controlSequence
  generation : b.generation = a.generation
  written : b.trace.written = a.trace.written
  queued : b.trace.queued = a.trace.queued

theorem SameOutput.nextSequenceFor {a b : Actor} (h : SameOutput a b) :
    b.nextSequenceFor = a.nextSequenceFor := by
  funext id
  rw [Actor.nextSequenceFor, Actor.nextSequenceFor, h.sequences, h.controlSequence]

def output (a : Actor) :
    ℕ × ℕ × FrameScheduler × (ℕ → Option ℕ) × ℕ × ℕ × List (ℕ × Frame) × List (ℕ × Frame) :=
  (a.state.connectionSendCredit, a.state.connectionSendLimit, a.scheduler, a.sequences,
    a.controlSequence, a.generation, a.trace.written, a.trace.queued)

theorem sameOutput_of_output {a b : Actor} (h : b.output = a.output) : SameOutput a b := by
  simp only [output, Prod.mk.injEq] at h
  obtain ⟨h1, h2, h3, h4, h5, h6, h7, h8⟩ := h
  exact ⟨h1, h2, h3, h4, h5, h6, h7, h8⟩

/-- The later actor has queued some frames, and changed nothing else of the output. -/
inductive Queues (a : Actor) : Actor → Prop
  | refl : Queues a a
  | submits {b c : Actor} {item : ScheduledFrame} {context : FrameContext} : Queues a b →
      b.Submits item context c → Queues a c
  | same {b c : Actor} : Queues a b → c.output = b.output → Queues a c

variable {codec : ServiceCodec} {w : World} {a b c : Actor} {frame : Frame} {id response : ℕ}
  {context : FrameContext} {item : ScheduledFrame}

namespace Queues

theorem trans (h : Queues a b) (h' : Queues b c) : Queues a c := by
  induction h' with
  | refl => exact h
  | submits _ hs ih => exact ih.submits hs
  | same _ hs ih => exact ih.same hs

theorem preserves {I : Actor → Prop} (h : Queues a b) (ha : I a)
    (hsubmits : ∀ b c item context, I b → b.Submits item context c → I c)
    (hsame : ∀ b c, I b → SameOutput b c → I c) : I b := by
  induction h with
  | refl => exact ha
  | submits _ hs ih => exact hsubmits _ _ _ _ ih hs
  | same _ hs ih => exact hsame _ _ ih (sameOutput_of_output hs)

theorem generation (h : Queues a b) : b.generation = a.generation := by
  induction h with
  | refl => rfl
  | submits _ hs ih =>
    obtain ⟨t, -⟩ := hs
    exact ih
  | same _ hs ih => exact (sameOutput_of_output hs).generation.trans ih

theorem of_output (h : b.output = a.output) : Queues a b := refl.same h

theorem after (h : Queues b c) (hb : b.output = a.output) : Queues a c := (of_output hb).trans h

theorem of_submits (h : a.Submits item context b) : Queues a b := refl.submits h

theorem between {d : Actor}
    (hs : b.Submits item context c) (hb : b.output = a.output) (hd : d.output = c.output) :
    Queues a d := ((of_submits hs).after hb).same hd

theorem restores (h : a.Restores frame b) : Queues a b := by
  cases h with
  | nothing => exact refl
  | connection _ _ _ hs => exact of_submits hs
  | both _ _ _ hs hs' => exact (of_submits hs).submits hs'

theorem hand : Queues a (a.hand id response frame) := by
  unfold Actor.hand
  split_ifs <;> exact of_output rfl

theorem delivers (h : a.Delivers frame b) : Queues a b := by
  cases h with
  | handed _ _ hs => exact ((restores hs).trans hand).after rfl
  | stored => exact of_output rfl

theorem receives (h : a.Receives id response b) : Queues a b := by
  cases h with
  | waits => exact of_output rfl
  | takes _ _ _ hs => exact ((restores hs).trans hand).after rfl

theorem sends {payload : List UInt8} {endStream : Bool}
    (h : a.Sends id payload endStream response b) : Queues a b := by
  cases h with
  | queued _ _ _ _ hs => exact (of_submits hs).same rfl
  | waits => exact of_output rfl

theorem flushes (h : a.Flushes id b) : Queues a b := by
  cases h with
  | nothing => exact refl
  | short => exact of_output rfl
  | queued _ _ _ hs => exact between hs rfl rfl

theorem flushesAll {ids : List ℕ} (h : FlushesAll ids a b) : Queues a b := by
  induction h with
  | nil => exact refl
  | cons hs _ ih => exact (flushes hs).trans ih

theorem obeys {command : ActorCommand} (h : Obeys codec w a command b) : Queues a b := by
  cases h with
  | gone | pingFull | pingLate | cancelReceive | goAwayFull | shutdown => exact of_output rfl
  | ping _ hs | accept _ _ hs => exact between hs rfl rfl
  | «open» _ _ hs => exact (of_submits hs).after rfl
  | reject _ hs | close _ hs | reset _ hs | goAway _ hs => exact (of_submits hs).same rfl
  | sendData hs => exact sends hs
  | receive hr => exact receives hr

theorem dispatches (h : Dispatches codec w a frame b) (hc : frame.header.command ≠ .goAway) :
    Queues a b := by
  cases h with
  | «open» | reject | pong => exact of_output rfl
  | accept _ _ hs => exact (of_submits hs).same rfl
  | credit _ _ hf => exact flushes hf
  | connectionCredit _ _ hf => exact flushesAll hf
  | deliver _ hd => exact delivers hd
  | ping _ hs => exact of_submits hs
  | goAway hn => exact absurd hn hc

end Queues

end Actor

end KindleBridge.Transport
