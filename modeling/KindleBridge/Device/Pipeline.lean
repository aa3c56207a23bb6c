import KindleBridge.Foundations.Op
import KindleBridge.Foundations.Runs

/-! # The bounded pipeline

A producer reads items and a writer thread stores them. Two bounded channels connect the
threads, one for the work and one for the acknowledgements. A schedule says which thread
moves next; a thread that has to wait does not move.
-/

namespace KindleBridge.Device

open Option

def syncPipelineQueueDepth : ℕ := 3

inductive PipelineFailure (ε : Type)
  | stage (error : ε)
  | workerStopped
  deriving DecidableEq

/-- What the caller plugs in: contexts `γ`, sinks `ω`, items `ι`, acknowledgements `α`. -/
structure Stages (γ ω ι α ε : Type) where
  read : Op γ ε (Option ι)
  write : ι → Op ω ε α
  stored : α → Op γ ε Unit
  mustDrain : γ → Bool

def Stages.fill {γ ω ι α ε : Type} (stages : Stages γ ω ι α ε) (sink : ω) (items : List ι) : ω :=
  items.foldl (fun w item => ((stages.write item).run w).2) sink

inductive Producer (ι ε : Type)
  /-- It takes the acknowledgements that are there. -/
  | polling
  | reading
  | offering (item : ι)
  | draining
  /-- The work channel is full: it waits for an acknowledgement. -/
  | awaiting (item : ι)
  /-- The writer is gone: it takes the acknowledgements that are left. -/
  | collecting
  /-- The work channel is closed: it waits for the last acknowledgements. -/
  | flushing
  /-- The work channel is closed, that of the acknowledgements not yet. -/
  | closing (result : Except (PipelineFailure ε) Unit)
  | done (result : Except (PipelineFailure ε) Unit)

inductive Writer (α ε : Type)
  | waiting
  | acknowledging (result : Except ε α)
  | stopped

/-- The two threads and their channels. -/
structure Pipeline (γ ω ι α ε : Type) where
  context : γ
  sink : ω
  work : List ι := []
  acks : List (Except ε α) := []
  producer : Producer ι ε := .polling
  writer : Writer α ε := .waiting
  lastWritten : Option α := none
  /-- The items that have been read and those that have been passed to the sink. -/
  taken : List ι := []
  passed : List ι := []

inductive Thread
  | producer
  | writer
  deriving DecidableEq

variable {γ ω ι α ε : Type}

namespace Producer

def workClosed : Producer ι ε → Bool
  | .flushing | .closing _ | .done _ => true
  | _ => false

def acksClosed : Producer ι ε → Bool
  | .done _ => true
  | _ => false

/-- The result with which the producer leaves its loop. -/
def result : Producer ι ε → Option (Except (PipelineFailure ε) Unit)
  | .closing result | .done result => some result
  | _ => none

def exhausted : Producer ι ε → Bool
  | .flushing => true
  | .closing result | .done result => result.isOk
  | _ => false

/-- The item that has been read and not been put on the channel yet. -/
def held : Producer ι ε → List ι
  | .offering item | .awaiting item => [item]
  | _ => []

end Producer

def Writer.isStopped : Writer α ε → Bool
  | .stopped => true
  | _ => false

namespace Pipeline

variable (stages : Stages γ ω ι α ε)

def goTo (producer : Producer ι ε) (p : Pipeline γ ω ι α ε) : Pipeline γ ω ι α ε :=
  { p with producer := producer }

/-- Take one acknowledgement, or notice that no more will come. -/
def settle (next closed : Producer ι ε) (p : Pipeline γ ω ι α ε) :
    Option (Pipeline γ ω ι α ε) :=
  match p.acks with
  | .ok a :: rest =>
    match (stages.stored a).run p.context with
    | (.ok _, c) => some { p with context := c, acks := rest, producer := next }
    | (.error e, c) =>
      some { p with context := c, acks := rest, producer := .closing (.error (.stage e)) }
  | .error e :: rest => some { p with acks := rest, producer := .closing (.error (.stage e)) }
  | [] => if p.writer.isStopped then some (p.goTo closed) else none

def produce (p : Pipeline γ ω ι α ε) : Option (Pipeline γ ω ι α ε) :=
  match p.producer with
  | .polling =>
    some ((p.settle stages .polling (.closing (.error .workerStopped))).getD (p.goTo .reading))
  | .reading =>
    match stages.read.run p.context with
    | (.ok (some item), c) =>
      some { p with context := c, producer := .offering item, taken := p.taken ++ [item] }
    | (.ok none, c) => some { p with context := c, producer := .flushing }
    | (.error e, c) => some { p with context := c, producer := .closing (.error (.stage e)) }
  | .offering item =>
    if p.writer.isStopped then some (p.goTo .collecting)
    else if p.work.length < syncPipelineQueueDepth then
      some { p with work := p.work ++ [item], producer := .draining }
    else some (p.goTo (.awaiting item))
  | .draining =>
    if stages.mustDrain p.context then
      p.settle stages .draining (.closing (.error .workerStopped))
    else some (p.goTo .polling)
  | .awaiting item => p.settle stages (.offering item) (.closing (.error .workerStopped))
  | .collecting => p.settle stages .collecting (.closing (.error .workerStopped))
  | .flushing => p.settle stages .flushing (.closing (.ok ()))
  | .closing result => some (p.goTo (.done result))
  | .done _ => none

def consume (p : Pipeline γ ω ι α ε) : Option (Pipeline γ ω ι α ε) :=
  match p.writer with
  | .waiting =>
    match p.work with
    | item :: rest =>
      let (result, sink) := (stages.write item).run p.sink
      some { p with
        sink := sink
        work := rest
        writer := .acknowledging result
        lastWritten := result.toOption.or p.lastWritten
        passed := p.passed ++ [item] }
    | [] => if p.producer.workClosed then some { p with writer := .stopped } else none
  | .acknowledging result =>
    if p.producer.acksClosed then some { p with writer := .stopped }
    else if p.acks.length < syncPipelineQueueDepth then
      some { p with
        acks := p.acks ++ [result]
        writer := if result.isOk then .waiting else .stopped }
    else none
  | .stopped => none

def step (p : Pipeline γ ω ι α ε) : Thread → Pipeline γ ω ι α ε
  | .producer => (p.produce stages).getD p
  | .writer => (p.consume stages).getD p

def exec (p : Pipeline γ ω ι α ε) (schedule : List Thread) : Pipeline γ ω ι α ε :=
  schedule.foldl (step stages) p

/-- Both threads have ended, the producer with the given result. -/
def Returns (p : Pipeline γ ω ι α ε) (result : Except (PipelineFailure ε) Unit) : Prop :=
  p.producer = .done result ∧ p.writer = .stopped

/-- The write that the writer is about to make succeeds. -/
def Writes (p : Pipeline γ ω ι α ε) : Thread → Prop
  | .producer => True
  | .writer => ∀ item rest, p.writer = .waiting → p.work = item :: rest →
      ∃ a, ((stages.write item).run p.sink).1 = .ok a

inductive Produces (p : Pipeline γ ω ι α ε) : Pipeline γ ω ι α ε → Prop
  | settles {a : α} {rest : List (Except ε α)} {c : γ} (next : Producer ι ε) :
      p.acks = .ok a :: rest → (stages.stored a).run p.context = (.ok (), c) →
      next = p.producer ∧ next.result = none ∨ p.producer.held = next.held ∧
        p.producer.workClosed = false ∧ next.workClosed = false →
      Produces p { p with context := c, acks := rest, producer := next }
  | refuses {a : α} {rest : List (Except ε α)} {c : γ} {e : ε} :
      p.acks = .ok a :: rest → (stages.stored a).run p.context = (.error e, c) →
      Produces p { p with context := c, acks := rest, producer := .closing (.error (.stage e)) }
  | fails {e : ε} {rest : List (Except ε α)} : p.acks = .error e :: rest →
      Produces p { p with acks := rest, producer := .closing (.error (.stage e)) }
  | abandons : p.acks = [] → p.writer.isStopped → p.producer.workClosed = false →
      Produces p (p.goTo (.closing (.error .workerStopped)))
  | completes : p.acks = [] → p.writer.isStopped → p.producer = .flushing →
      Produces p (p.goTo (.closing (.ok ())))
  | moves (next : Producer ι ε) : p.producer.held = next.held →
      p.producer.workClosed = false → next.workClosed = false → Produces p (p.goTo next)
  | reads {item : ι} {c : γ} : p.producer = .reading →
      stages.read.run p.context = (.ok (some item), c) → Produces p { p with
        context := c, producer := .offering item, taken := p.taken ++ [item] }
  | exhausts {c : γ} : p.producer = .reading → stages.read.run p.context = (.ok none, c) →
      Produces p { p with context := c, producer := .flushing }
  | breaks {e : ε} {c : γ} : p.producer = .reading → stages.read.run p.context = (.error e, c) →
      Produces p { p with context := c, producer := .closing (.error (.stage e)) }
  | sends {item : ι} : p.producer = .offering item → p.writer.isStopped = false →
      p.work.length < syncPipelineQueueDepth →
      Produces p { p with work := p.work ++ [item], producer := .draining }
  | drops {item : ι} : p.producer = .offering item → p.writer.isStopped →
      Produces p (p.goTo .collecting)
  | ends {result : Except (PipelineFailure ε) Unit} : p.producer = .closing result →
      Produces p (p.goTo (.done result))

variable {stages} {p q : Pipeline γ ω ι α ε} {producer : Producer ι ε} {context : γ}

theorem settle_eq_some {next closed : Producer ι ε} (h : p.settle stages next closed = some q)
    (hnext : next = p.producer ∧ next.result = none ∨ p.producer.held = next.held ∧
      p.producer.workClosed = false ∧ next.workClosed = false)
    (hclosed : p.acks = [] → p.writer.isStopped → Produces stages p (p.goTo closed)) :
    Produces stages p q := by
  unfold settle at h
  split at h
  · rename_i a rest hacks
    split at h
    · rename_i c hs
      obtain rfl := some.inj h
      exact .settles next hacks hs hnext
    · rename_i e c hs
      obtain rfl := some.inj h
      exact .refuses hacks hs
  · rename_i e rest hacks
    obtain rfl := some.inj h
    exact .fails hacks
  · rename_i hacks
    split_ifs at h with hw
    obtain rfl := some.inj h
    exact hclosed hacks hw

open Producer

theorem produce_eq_some (h : p.produce stages = some q) : Produces stages p q := by
  unfold produce at h
  split at h
  · rename_i hp
    cases hs : p.settle stages .polling (.closing (.error .workerStopped)) with
    | none =>
      obtain rfl : p.goTo .reading = q := by simpa [hs] using h
      exact .moves _ (by simp [hp, held]) (by simp [hp, workClosed]) rfl
    | some r =>
      obtain rfl : r = q := by simpa [hs] using h
      exact settle_eq_some hs (.inl ⟨hp.symm, rfl⟩)
        fun hacks hw => .abandons hacks hw (by simp [hp, workClosed])
  · rename_i hp
    split at h
    all_goals
      rename_i hr
      obtain rfl := some.inj h
    · exact .reads hp hr
    · exact .exhausts hp hr
    · exact .breaks hp hr
  · rename_i item hp
    split_ifs at h with hw hroom
    all_goals obtain rfl := some.inj h
    · exact .drops hp hw
    · exact .sends hp (by simpa using hw) hroom
    · exact .moves _ (by simp [hp, held]) (by simp [hp, workClosed]) rfl
  · rename_i hp
    split_ifs at h with hd
    · exact settle_eq_some h (.inl ⟨hp.symm, rfl⟩)
        fun hacks hw => .abandons hacks hw (by simp [hp, workClosed])
    · obtain rfl := some.inj h
      exact .moves _ (by simp [hp, held]) (by simp [hp, workClosed]) rfl
  · rename_i item hp
    refine settle_eq_some h (.inr ?_) fun hacks hw => .abandons hacks hw ?_
    all_goals simp [hp, held, workClosed]
  · rename_i hp
    exact settle_eq_some h (.inl ⟨hp.symm, rfl⟩)
      fun hacks hw => .abandons hacks hw (by simp [hp, workClosed])
  · rename_i hp
    exact settle_eq_some h (.inl ⟨hp.symm, rfl⟩) fun hacks hw => .completes hacks hw hp
  · rename_i result hp
    obtain rfl := some.inj h
    exact .ends hp
  · simp at h

/-- What is known of the context and the items taken, by how far the reading has come. -/
structure Phases (γ ι : Type) where
  reading : γ → List ι → Prop
  ended : γ → List ι → Prop
  broken : γ → List ι → Prop

/-- How the stages on the side of the producer move through the phases. -/
structure Phases.Moved (phases : Phases γ ι) (stages : Stages γ ω ι α ε) : Prop where
  item {c d : γ} {items : List ι} {item : ι} : phases.reading c items →
    stages.read.run c = (.ok (some item), d) → phases.reading d (items ++ [item])
  none {c d : γ} {items : List ι} : phases.reading c items →
    stages.read.run c = (.ok none, d) → phases.ended d items
  error {c d : γ} {items : List ι} {e : ε} : phases.reading c items →
    stages.read.run c = (.error e, d) → phases.broken d items
  stored (a : α) (c : γ) : (stages.stored a).run c = (.ok (), c)

/--
What holds while every write succeeds. No item is lost between the threads, and the
producer fails only where a read does.
-/
structure Smooth (stages : Stages γ ω ι α ε) (phases : Phases γ ι) (sink : ω)
    (p : Pipeline γ ω ι α ε) : Prop where
  acks : ∀ r ∈ p.acks, r.isOk
  acknowledging : ∀ r, p.writer = .acknowledging r → r.isOk
  stopped : p.writer.isStopped → p.producer.workClosed ∧ (p.work = [] ∨ p.producer.acksClosed)
  reading : p.producer.workClosed = false → phases.reading p.context p.taken
  ended : p.producer.exhausted → phases.ended p.context p.taken
  broken : ∀ f, p.producer.result = some (.error f) → phases.broken p.context p.taken
  finished : p.producer.result = some (.ok ()) → p.writer.isStopped ∧ p.work = []
  items : p.taken = p.passed ++ p.work ++ p.producer.held
  sink_eq : p.sink = stages.fill sink p.passed
  last : p.passed = [] ∧ p.lastWritten = none ∨ ∃ items item a, p.passed = items ++ [item] ∧
    ((stages.write item).run (stages.fill sink items)).1 = .ok a ∧ p.lastWritten = some a

section Smooth

variable {phases : Phases γ ι} {sink : ω} {rest : List (Except ε α)} {next : Producer ι ε}

theorem Producer.result_eq_none (h : producer.workClosed = false) : producer.result = none := by
  cases producer <;> simp_all [result, workClosed]

theorem Producer.exhausted_eq_false (h : producer.workClosed = false) :
    producer.exhausted = false := by
  cases producer <;> simp_all [exhausted, workClosed]

section
variable (h : Smooth stages phases sink p)
include h

theorem Smooth.goes {c : γ} (hrest : ∀ r ∈ rest, r ∈ p.acks) (hheld : p.producer.held = next.held)
    (hstopped : p.writer.isStopped → next.workClosed ∧ (p.work = [] ∨ next.acksClosed))
    (hreading : next.workClosed = false → phases.reading c p.taken)
    (hended : next.exhausted → phases.ended c p.taken)
    (hbroken : ∀ f, next.result = some (.error f) → phases.broken c p.taken)
    (hfinished : next.result = some (.ok ()) → p.writer.isStopped ∧ p.work = []) :
    Smooth stages phases sink { p with context := c, acks := rest, producer := next } where
  acks r hr := h.acks r (hrest r hr)
  acknowledging := h.acknowledging
  stopped := hstopped
  reading := hreading
  ended := hended
  broken := hbroken
  finished := hfinished
  items := hheld ▸ h.items
  sink_eq := h.sink_eq
  last := h.last

theorem Smooth.writing (hc : p.producer.workClosed = false) : p.writer.isStopped = false := by
  by_contra hw
  simp [(h.stopped (by simpa using hw)).1] at hc

theorem Smooth.proceeds (hrest : ∀ r ∈ rest, r ∈ p.acks) (hheld : p.producer.held = next.held)
    (hc : p.producer.workClosed = false) (hc' : next.workClosed = false) :
    Smooth stages phases sink { p with acks := rest, producer := next } :=
  h.goes hrest hheld (by simp [h.writing hc]) (fun _ => h.reading hc)
    (by simp [Producer.exhausted_eq_false hc']) (by simp [Producer.result_eq_none hc'])
    (by simp [Producer.result_eq_none hc'])

theorem Smooth.produces (hm : phases.Moved stages)
    (hp : Produces stages p q) : Smooth stages phases sink q := by
  cases hp with
  | @settles a rest c next hacks hs hnext =>
    have hrest : ∀ r ∈ rest, r ∈ p.acks := by
      rw [hacks]
      exact fun r hr => .tail _ hr
    obtain rfl : p.context = c := by simpa [hm.stored] using hs
    rcases hnext with ⟨rfl, hresult⟩ | ⟨hheld, hc, hc'⟩
    · exact h.goes hrest rfl h.stopped h.reading h.ended h.broken h.finished
    · exact h.proceeds hrest hheld hc hc'
  | refuses hacks hs => simp [hm.stored] at hs
  | @fails e rest hacks =>
    have hok := h.acks (.error e) (by simp [hacks])
    simp [Except.isOk, Except.toBool] at hok
  | abandons _ hw hc => simp [h.writing hc] at hw
  | completes _ hw hp =>
    have hwork := (h.stopped hw).2
    simp only [hp, acksClosed, Bool.false_eq_true, or_false] at hwork
    exact h.goes (fun _ hr => hr) (by simp [hp, held]) (fun _ => ⟨rfl, .inl hwork⟩)
      (by simp [workClosed]) (fun _ => h.ended (by simp [hp, exhausted]))
      (by simp [result]) fun _ => ⟨hw, hwork⟩
  | moves next hheld hc hc' => exact h.proceeds (fun _ hr => hr) hheld hc hc'
  | @reads item c hp hr =>
    have hc : p.producer.workClosed = false := by simp [hp, workClosed]
    have hw := h.writing hc
    have hitems := h.items
    simp only [hp, held, List.append_nil] at hitems
    exact ⟨h.acks, h.acknowledging, by simp [hw], fun _ => hm.item (h.reading hc) hr,
      by simp [exhausted], by simp [result], by simp [result],
      by simp [hitems, held], h.sink_eq, h.last⟩
  | exhausts hp hr =>
    have hc : p.producer.workClosed = false := by simp [hp, workClosed]
    exact h.goes (fun _ hr => hr) (by simp [hp, held]) (by simp [h.writing hc])
      (by simp [workClosed]) (fun _ => hm.none (h.reading hc) hr)
      (by simp [result]) (by simp [result])
  | breaks hp hr =>
    have hc : p.producer.workClosed = false := by simp [hp, workClosed]
    exact h.goes (fun _ hr => hr) (by simp [hp, held]) (by simp [h.writing hc])
      (by simp [workClosed]) (by simp [exhausted, Except.isOk, Except.toBool])
      (fun _ _ => hm.error (h.reading hc) hr) (by simp [result])
  | sends hp hw =>
    have hitems := h.items
    simp only [hp, held] at hitems
    exact ⟨h.acks, h.acknowledging, by simp [hw],
      fun _ => h.reading (by simp [hp, workClosed]), by simp [exhausted],
      by simp [result], by simp [result], by simp [hitems, held],
      h.sink_eq, h.last⟩
  | drops hp hw =>
    have hw' := h.writing (by simp [hp, workClosed])
    simp [hw'] at hw
  | ends hp =>
    refine h.goes (fun _ hr => hr) (by simp [hp, held]) (fun _ => ⟨rfl, .inr rfl⟩)
      (by simp [workClosed]) (fun hf => h.ended ?_) (fun f hf => h.broken f ?_)
      fun hf => h.finished ?_
    · rw [← hf, hp]
      rfl
    · rw [← hf, hp]
      rfl
    · rw [← hf, hp]
      rfl

end

theorem Stages.fill_append {items : List ι} {item : ι} : stages.fill sink (items ++ [item]) =
    ((stages.write item).run (stages.fill sink items)).2 := by
  simp [Stages.fill]

theorem Smooth.consumes (h : Smooth stages phases sink p) (hw : p.Writes stages .writer)
    (hq : p.consume stages = some q) : Smooth stages phases sink q := by
  unfold consume at hq
  split at hq
  · rename_i hwaiting
    split at hq
    · rename_i item rest hwork
      obtain ⟨a, ha⟩ := hw item rest hwaiting hwork
      rcases hr : (stages.write item).run p.sink with ⟨r, w⟩
      obtain rfl : r = .ok a := by simpa [hr] using ha
      rw [hr] at hq
      obtain rfl := some.inj hq
      have hsink := h.sink_eq
      refine ⟨h.acks, ?_, by simp [Writer.isStopped], h.reading, h.ended, h.broken, ?_, ?_, ?_, .inr ?_⟩
      · rintro _ ⟨⟩
        rfl
      · intro hf
        have hstopped := (h.finished hf).1
        simp [hwaiting, Writer.isStopped] at hstopped
      · simp [h.items, hwork]
      · rw [Stages.fill_append, ← hsink, hr]
      · exact ⟨p.passed, item, a, rfl, by rw [← hsink, hr], rfl⟩
    · rename_i hwork
      split_ifs at hq with hc
      obtain rfl := some.inj hq
      exact ⟨h.acks, by simp, fun _ => ⟨hc, .inl hwork⟩, h.reading, h.ended, h.broken, fun _ => ⟨rfl, hwork⟩,
        h.items, h.sink_eq, h.last⟩
  · rename_i result hack
    have hok := h.acknowledging result hack
    simp only [hok, if_true] at hq
    have hwriting : p.writer.isStopped = false := by simp [hack, Writer.isStopped]
    have hunfinished : p.producer.result ≠ some (.ok ()) := by
      intro hf
      simp [(h.finished hf).1] at hwriting
    split_ifs at hq with hc hroom
    all_goals obtain rfl := some.inj hq
    · have hclosed : p.producer.workClosed := by
        cases hp : p.producer <;> simp_all [acksClosed, workClosed]
      exact ⟨h.acks, by simp, fun _ => ⟨hclosed, .inr hc⟩, h.reading, h.ended, h.broken,
        fun hf => absurd hf hunfinished, h.items, h.sink_eq, h.last⟩
    · exact ⟨List.forall_mem_append.mpr ⟨h.acks, List.forall_mem_singleton.mpr hok⟩, by simp,
        by simp [Writer.isStopped], h.reading, h.ended, h.broken,
        fun hf => absurd hf hunfinished, h.items, h.sink_eq, h.last⟩
  · simp at hq

theorem Smooth.step (h : Smooth stages phases sink p) (hm : phases.Moved stages) {thread : Thread}
    (hw : p.Writes stages thread) : Smooth stages phases sink (p.step stages thread) := by
  cases thread with
  | producer =>
    unfold Pipeline.step
    cases hq : p.produce stages with
    | none => exact h
    | some q => exact h.produces hm (produce_eq_some hq)
  | writer =>
    unfold Pipeline.step
    cases hq : p.consume stages with
    | none => exact h
    | some q => exact h.consumes hw hq

theorem smooth_start (hc : phases.reading context []) :
    Smooth stages phases sink { context := context, sink := sink } where
  acks := by simp
  acknowledging := by simp
  stopped := by simp [Writer.isStopped]
  reading _ := hc
  ended := by simp [exhausted]
  broken := by simp [result]
  finished := by simp [result]
  items := rfl
  sink_eq := rfl
  last := .inl ⟨rfl, rfl⟩

theorem smooth_exec {schedule : List Thread} (hm : phases.Moved stages)
    (hc : phases.reading context [])
    (hw : Along (Pipeline.step stages) (Writes stages) { context := context, sink := sink }
      schedule) :
    Smooth stages phases sink (exec stages { context := context, sink := sink } schedule) :=
  hw.foldl (smooth_start hc) fun _ _ h hw => h.step hm hw

end Smooth

end Pipeline

end KindleBridge.Device
