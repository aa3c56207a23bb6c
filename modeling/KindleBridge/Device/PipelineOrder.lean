import KindleBridge.Device.Pipeline

/-! # The pipeline is a queue

Whatever the stages answer and however the two threads take turns, the items are written in
the order in which they were read, their acknowledgements come back in that order, and one
of the threads can always move.
-/

namespace KindleBridge.Device

open Producer Pipeline Writer List Option Pipeline.Producer

variable {γ ω ι α ε : Type} {next : Producer ι ε}

/-- What the writes of some items answer, one after the other. -/
def Stages.results (stages : Stages γ ω ι α ε) (sink : ω) : List ι → List (Except ε α)
  | [] => []
  | item :: rest => ((stages.write item).run sink).1 ::
      stages.results ((stages.write item).run sink).2 rest

/-- A pipeline, with the acknowledgements that `stored` has been called with so far. -/
structure Watched (γ ω ι α ε : Type) where
  pipeline : Pipeline γ ω ι α ε
  stored : List α := []

/-- The answer that the writer has not sent yet. -/
def Writer.pending : Writer α ε → List (Except ε α)
  | .acknowledging result => [result]
  | _ => []

/-- The item that has been read is given up. -/
def Producer.broken : Producer ι ε → Bool
  | .collecting | .closing (.error _) | .done (.error _) => true
  | _ => false

namespace Pipeline

variable (stages : Stages γ ω ι α ε)

/-- The producer takes an acknowledgement, if there is one. -/
def receives (p : Pipeline γ ω ι α ε) : Bool :=
  match p.producer with
  | .polling | .awaiting _ | .collecting | .flushing => true
  | .draining => stages.mustDrain p.context
  | _ => false

/-- The acknowledgement that a move passes to `stored`. -/
def handed (p : Pipeline γ ω ι α ε) : Thread → List α
  | .producer => if p.receives stages then (p.acks.head?.bind Except.toOption).toList else []
  | .writer => []

/-- The items that have been read and not been written yet, or not been acknowledged. -/
def inHand (p : Pipeline γ ω ι α ε) : ℕ :=
  p.work.length + p.producer.held.length + p.writer.pending.length

def Stuck (p : Pipeline γ ω ι α ε) : Prop := p.produce stages = none ∧ p.consume stages = none

end Pipeline

namespace Watched

variable (stages : Stages γ ω ι α ε)

def step (x : Watched γ ω ι α ε) (thread : Thread) : Watched γ ω ι α ε where
  pipeline := x.pipeline.step stages thread
  stored := x.stored ++ x.pipeline.handed stages thread

/-- If `mustDrain` asks for an acknowledgement, one is still to come. -/
def AsksInTime (x : Watched γ ω ι α ε) : Prop :=
  x.pipeline.producer = .draining → stages.mustDrain x.pipeline.context →
    x.stored.length < x.pipeline.taken.length

end Watched

namespace Stages

variable {stages : Stages γ ω ι α ε} {sink : ω}

theorem results_append (items : List ι) (item : ι) : stages.results sink (items ++ [item]) =
    stages.results sink items ++ [((stages.write item).run (stages.fill sink items)).1] := by
  induction items generalizing sink with
  | nil => rfl
  | cons other items ih => simp only [cons_append, results, ih, fill, foldl_cons]

@[simp] theorem length_results (items : List ι) :
    (stages.results sink items).length = items.length := by
  induction items generalizing sink with
  | nil => rfl
  | cons item items ih => simp [results, ih]

end Stages

namespace Pipeline

variable {stages : Stages γ ω ι α ε} {p q : Pipeline γ ω ι α ε} {closed : Producer ι ε}

theorem settle_eq_none (h : p.settle stages next closed = none) :
    p.acks = [] ∧ p.writer.isStopped = false := by
  unfold settle at h
  split at h
  · split at h <;> cases h
  · cases h
  · rename_i hacks
    split_ifs at h with hw
    exact ⟨hacks, by simpa using hw⟩

theorem acks_of_settle (h : p.settle stages next closed = some q) :
    q.acks = p.acks.tail := by
  unfold settle at h
  split at h
  · split at h
    all_goals
      obtain rfl := some.inj h
      simp_all
  · obtain rfl := some.inj h
    simp_all
  · split_ifs at h
    obtain rfl := some.inj h
    simp_all [goTo]

theorem settle_producer (h : p.settle stages next closed = some q) :
    q.producer = next ∨ (∃ e, q.producer = .closing (.error e)) ∨ q.producer = closed := by
  unfold settle at h
  split at h
  · split at h
    all_goals obtain rfl := some.inj h
    · exact .inl rfl
    · exact .inr (.inl ⟨_, rfl⟩)
  · obtain rfl := some.inj h
    exact .inr (.inl ⟨_, rfl⟩)
  · split_ifs at h
    obtain rfl := some.inj h
    exact .inr (.inr rfl)

/-- How the producer comes to wait for room or for the end of the writer, or gives up. -/
structure Follows (p q : Pipeline γ ω ι α ε) : Prop where
  awaiting : ∀ item, q.producer = .awaiting item →
    p.producer = .offering item ∧ syncPipelineQueueDepth ≤ p.work.length
  collecting : q.producer = .collecting → p.writer.isStopped ∨ p.producer = .collecting
  broken : p.producer.broken → q.producer.broken

theorem follows_of_settle {result : Except (PipelineFailure ε) Unit}
    (h : p.settle stages next (.closing result) = some q) (hreceives : p.receives stages)
    (hawaiting : ∀ item, next ≠ .awaiting item)
    (hcollecting : next = .collecting → p.producer = .collecting)
    (hbroken : p.producer.broken → next = .collecting ∧ result = .error .workerStopped) :
    Follows p q ∧ q.acks = if p.receives stages then p.acks.tail else p.acks := by
  rw [if_pos hreceives]
  refine ⟨?_, acks_of_settle h⟩
  rcases settle_producer h with hq | ⟨e, hq⟩ | hq
  · refine ⟨fun item hi => absurd (hq.symm.trans hi) (hawaiting item),
      fun hc => .inr (hcollecting (hq.symm.trans hc)), fun hb => ?_⟩
    rw [hq, (hbroken hb).1]
    rfl
  · exact ⟨by simp [hq], by simp [hq], fun _ => by rw [hq]; rfl⟩
  · refine ⟨by simp [hq], by simp [hq], fun hb => ?_⟩
    rw [hq, (hbroken hb).2]
    rfl

/-- Where the producer goes, and that it takes an acknowledgement exactly if it receives. -/
theorem follows_of_produce (h : p.produce stages = some q) :
    Follows p q ∧ q.acks = if p.receives stages then p.acks.tail else p.acks := by
  unfold produce at h
  split at h
  · rename_i hp
    cases hs : p.settle stages .polling (.closing (.error .workerStopped)) with
    | none =>
      obtain rfl : p.goTo .reading = q := by simpa [hs] using h
      refine ⟨⟨by simp [goTo], by simp [goTo], by simp [hp, broken]⟩, ?_⟩
      simp [goTo, (settle_eq_none hs).1]
    | some r =>
      obtain rfl : r = q := by simpa [hs] using h
      refine follows_of_settle hs ?_ ?_ ?_ ?_ <;> simp [hp, receives, broken]
  · rename_i hp
    split at h
    all_goals
      obtain rfl := some.inj h
      exact ⟨⟨by simp, by simp, by simp [hp, broken]⟩, by simp [receives, hp]⟩
  · rename_i item hp
    split_ifs at h with hw hroom
    all_goals
      obtain rfl := some.inj h
      refine ⟨⟨?_, ?_, by simp [hp, broken]⟩, by simp [receives, hp, goTo]⟩
    · simp [goTo]
    · exact fun _ => .inl hw
    · simp
    · simp
    · rintro _ ⟨⟩
      exact ⟨hp, Nat.le_of_not_lt hroom⟩
    · simp [goTo]
  · rename_i hp
    split_ifs at h with hd
    · refine follows_of_settle h ?_ ?_ ?_ ?_ <;> simp [hp, receives, hd, broken]
    · obtain rfl := some.inj h
      refine ⟨⟨by simp [goTo], by simp [goTo], by simp [hp, broken]⟩, ?_⟩
      simp [receives, hp, hd, goTo]
  · rename_i item hp
    refine follows_of_settle h ?_ ?_ ?_ ?_ <;> simp [hp, receives, broken]
  · rename_i hp
    refine follows_of_settle h ?_ ?_ ?_ ?_ <;> simp [hp, receives]
  · rename_i hp
    refine follows_of_settle h ?_ ?_ ?_ ?_ <;> simp [hp, receives, broken]
  · rename_i result hp
    obtain rfl := some.inj h
    refine ⟨⟨by simp [goTo], by simp [goTo], fun hb => ?_⟩, by simp [receives, hp, goTo]⟩
    rw [hp] at hb
    cases result with
    | ok => cases hb
    | error f => rfl
  · cases h

theorem handed_ok {a : α} (h : p.produce stages = some q) (hacks : p.acks = .ok a :: q.acks) :
    p.receives stages ∧ p.handed stages .producer = [a] := by
  have hr : p.receives stages := by
    by_contra hr
    have htaken := (follows_of_produce h).2
    rw [if_neg hr, hacks] at htaken
    simp at htaken
  exact ⟨hr, by simp [handed, hr, hacks, Except.toOption]⟩

theorem handed_nil (h : p.produce stages = some q)
    (hacks : q.acks = p.acks ∨ ∃ e, p.acks = .error e :: q.acks) :
    p.handed stages .producer = [] := by
  rcases hacks with hsame | ⟨e, hacks⟩
  · have htaken := (follows_of_produce h).2
    by_cases hr : p.receives stages
    · rw [if_pos hr, hsame] at htaken
      cases hacks : p.acks with
      | nil => simp [handed, hacks]
      | cons => simp [hacks] at htaken
    · simp [handed, hr]
  · simp [handed, hacks, Except.toOption]

/-- Where the producer cannot move: at its end, or while it waits for the writer. -/
theorem produce_eq_none (h : p.produce stages = none) : (∃ result, p.producer = .done result) ∨
    p.acks = [] ∧ p.writer.isStopped = false ∧ ((∃ item, p.producer = .awaiting item) ∨
      p.producer = .collecting ∨ p.producer = .flushing ∨
      p.producer = .draining ∧ stages.mustDrain p.context) := by
  unfold produce at h
  split at h
  · cases h
  · split at h <;> cases h
  · split_ifs at h
  · rename_i hp
    split_ifs at h with hd
    obtain ⟨hacks, hw⟩ := settle_eq_none h
    exact .inr ⟨hacks, hw, .inr (.inr (.inr ⟨hp, hd⟩))⟩
  · rename_i item hp
    obtain ⟨hacks, hw⟩ := settle_eq_none h
    exact .inr ⟨hacks, hw, .inl ⟨item, hp⟩⟩
  · rename_i hp
    obtain ⟨hacks, hw⟩ := settle_eq_none h
    exact .inr ⟨hacks, hw, .inr (.inl hp)⟩
  · rename_i hp
    obtain ⟨hacks, hw⟩ := settle_eq_none h
    exact .inr ⟨hacks, hw, .inr (.inr (.inl hp))⟩
  · cases h
  · rename_i result hp
    exact .inl ⟨result, hp⟩

/-- Where the writer cannot move: at its end, or while it waits for the producer. -/
theorem consume_eq_none (h : p.consume stages = none) : p.writer = .stopped ∨
    (p.writer = .waiting ∧ p.work = [] ∧ p.producer.workClosed = false) ∨
      p.producer.acksClosed = false ∧ syncPipelineQueueDepth ≤ p.acks.length := by
  unfold consume at h
  split at h
  · rename_i hw
    split at h
    · cases h
    · rename_i hwork
      split_ifs at h with hc
      exact .inr (.inl ⟨hw, hwork, by simpa using hc⟩)
  · split_ifs at h with hc hroom
    exact .inr (.inr ⟨by simpa using hc, Nat.le_of_not_lt hroom⟩)
  · rename_i hw
    exact .inl hw

theorem result_of_receives (h : p.receives stages) : p.producer.result = none := by
  unfold receives at h
  split at h <;> simp_all [Producer.result]

end Pipeline

/-! ## What holds of every run -/

/--
The items and their answers are in order: what has been written, what is on the channels and
what the producer holds make up what has been read, and the answers of the writes are those
that were stored, those on the channel and that of the writer.
-/
structure Watched.Ordered (stages : Stages γ ω ι α ε) (sink : ω) (x : Watched γ ω ι α ε) :
    Prop where
  room : x.pipeline.work.length ≤ syncPipelineQueueDepth
  items : x.pipeline.passed ++ x.pipeline.work ++ x.pipeline.producer.held <+: x.pipeline.taken
  whole : x.pipeline.producer.broken = false →
    x.pipeline.taken = x.pipeline.passed ++ x.pipeline.work ++ x.pipeline.producer.held
  sink_eq : x.pipeline.sink = stages.fill sink x.pipeline.passed
  answers : ∃ gone late, stages.results sink x.pipeline.passed =
      x.stored.map .ok ++ gone ++ x.pipeline.acks ++ x.pipeline.writer.pending ++ late ∧
    (gone = [] ∨ ∃ f, x.pipeline.producer.result = some (.error f)) ∧
    (late = [] ∨ x.pipeline.producer.acksClosed ∧ x.pipeline.writer.isStopped)
  last : x.pipeline.lastWritten =
    ((stages.results sink x.pipeline.passed).filterMap Except.toOption).getLast?
  failed : ∀ r ∈ (stages.results sink x.pipeline.passed).dropLast, r.isOk
  waiting : x.pipeline.writer = .waiting →
    ∀ r ∈ stages.results sink x.pipeline.passed, r.isOk
  stopped : x.pipeline.writer.isStopped → x.pipeline.work = [] ∨
    x.pipeline.producer.acksClosed ∨ ∃ r ∈ stages.results sink x.pipeline.passed, ¬ r.isOk
  awaits : ∀ item, x.pipeline.producer = .awaiting item →
    x.stored.length < x.pipeline.passed.length + x.pipeline.work.length
  collects : x.pipeline.producer = .collecting → x.pipeline.writer.isStopped
  finished : x.pipeline.producer.result = some (.ok ()) → x.pipeline.writer.isStopped ∧
    x.pipeline.work = [] ∧ stages.results sink x.pipeline.passed = x.stored.map .ok

namespace Watched

variable {stages : Stages γ ω ι α ε} {sink : ω} {x : Watched γ ω ι α ε} {stored : List α}
  {p q : Pipeline γ ω ι α ε} {context : γ}

theorem ordered_start :
    Ordered stages sink { pipeline := { context := context, sink := sink } } where
  room := Nat.zero_le _
  items := prefix_refl _
  whole _ := rfl
  sink_eq := rfl
  answers := ⟨[], [], rfl, .inl rfl, .inl rfl⟩
  last := rfl
  failed := by simp [Stages.results]
  waiting := by simp [Stages.results]
  stopped := by simp [isStopped]
  awaits := by simp
  collects := by simp
  finished := by simp [Producer.result]

theorem Ordered.consumes (h : Ordered stages sink ⟨p, stored⟩) (hq : p.consume stages = some q) :
    Ordered stages sink ⟨q, stored⟩ := by
  obtain ⟨hroom, hitems, hwhole, hsink, hanswers, hlast, hfailed, hwait, hstopped, hawaits,
    hcollects, hfinished⟩ := h
  obtain ⟨gone, late, hanswers, hgone, hlate⟩ := hanswers
  dsimp only at *
  have hwriting : p.writer.isStopped = false := by
    unfold consume at hq
    cases hw : p.writer <;> simp_all [isStopped]
  have hlate : late = [] := hlate.resolve_right (by simp [hwriting])
  have hunfinished : p.producer.result ≠ some (.ok ()) := by
    intro hf
    simp [(hfinished hf).1] at hwriting
  have hnocollect : p.producer ≠ .collecting := by
    intro hc
    simp [hcollects hc] at hwriting
  unfold consume at hq
  split at hq
  · rename_i hwaiting
    split at hq
    · rename_i item rest hwork
      rcases hr : (stages.write item).run p.sink with ⟨r, w⟩
      rw [hr] at hq
      obtain rfl := some.inj hq
      have hresults : stages.results sink (p.passed ++ [item]) =
          stages.results sink p.passed ++ [r] := by
        rw [Stages.results_append, ← hsink, hr]
      rw [hwork] at hroom hitems hwhole hawaits
      refine ⟨?_, ?_, fun hb => ?_, ?_, ⟨gone, [], ?_, hgone, .inl rfl⟩, ?_, ?_, by simp,
        by simp [isStopped], fun other ho => ?_, fun hc => absurd hc hnocollect,
        fun hf => absurd hf hunfinished⟩
      · exact Nat.le_of_succ_le hroom
      · simpa using hitems
      · simpa using hwhole hb
      · rw [Pipeline.Stages.fill_append, ← hsink, hr]
      · simp [hresults, hanswers, hwaiting, hlate, pending]
      · rw [hresults, hlast]
        cases r <;> simp [Except.toOption]
      · rw [hresults, dropLast_concat]
        exact hwait hwaiting
      · have := hawaits other ho
        simp only [length_append, length_cons, length_nil] at this ⊢
        omega
    · rename_i hwork
      split_ifs at hq with hc
      obtain rfl := some.inj hq
      refine ⟨hroom, hitems, hwhole, hsink, ⟨gone, [], ?_, hgone, .inl rfl⟩, hlast, hfailed,
        by simp, fun _ => .inl hwork, hawaits, fun _ => rfl, fun hf => absurd hf hunfinished⟩
      simpa [hwaiting, hlate, pending] using hanswers
  · rename_i result hack
    rw [hack, hlate, append_nil] at hanswers
    have hmem : result ∈ stages.results sink p.passed := by simp [hanswers, pending]
    split_ifs at hq with hc hspace hok
    all_goals obtain rfl := some.inj hq
    · refine ⟨hroom, hitems, hwhole, hsink, ⟨gone, [result], ?_, hgone, .inr ⟨hc, rfl⟩⟩, hlast,
        hfailed, by simp, fun _ => .inr (.inl hc), hawaits, fun hc => absurd hc hnocollect,
        fun hf => absurd hf hunfinished⟩
      simpa [pending] using hanswers
    · refine ⟨hroom, hitems, hwhole, hsink, ⟨gone, [], ?_, hgone, .inl rfl⟩, hlast, hfailed, ?_,
        by simp [isStopped], hawaits, fun hc => absurd hc hnocollect,
        fun hf => absurd hf hunfinished⟩
      · simpa [pending] using hanswers
      · -- All answers but the last were good before, and the last one is this.
        intro _ r hr
        rw [hanswers, pending] at hr hfailed
        rw [dropLast_concat] at hfailed
        rcases mem_append.mp hr with hr | hr
        · exact hfailed r hr
        · rwa [mem_singleton.mp hr]
    · refine ⟨hroom, hitems, hwhole, hsink, ⟨gone, [], ?_, hgone, .inl rfl⟩, hlast, hfailed,
        by simp, fun _ => .inr (.inr ⟨result, hmem, hok⟩), hawaits,
        fun hc => absurd hc hnocollect, fun hf => absurd hf hunfinished⟩
      simpa [pending] using hanswers
  · cases hq

theorem Ordered.answers_of_result
    (h : Ordered stages sink ⟨p, stored⟩) (hresult : p.producer.result = none) :
    stages.results sink p.passed = stored.map .ok ++ p.acks ++ p.writer.pending := by
  obtain ⟨gone, late, hanswers, hgone, hlate⟩ := h.answers
  have hopen : p.producer.acksClosed = false := by
    cases hp : p.producer <;> simp_all [Producer.result, acksClosed]
  have hgone : gone = [] := hgone.resolve_right (by simp [hresult])
  have hlate : late = [] := hlate.resolve_right (by simp [hopen])
  simpa [hgone, hlate] using hanswers

theorem Ordered.length_stored_le
    (h : Ordered stages sink ⟨p, stored⟩) : stored.length ≤ p.passed.length := by
  obtain ⟨gone, late, hanswers, -⟩ := h.answers
  have hlength := congrArg List.length hanswers
  simp only [Stages.length_results, length_append, length_map] at hlength
  omega

theorem acksClosed_of_produce (hq : p.produce stages = some q) : p.producer.acksClosed = false := by
  unfold produce at hq
  cases hp : p.producer <;> simp_all [acksClosed]

theorem Ordered.advances {c : γ} {rest : List (Except ε α)} (h : Ordered stages sink ⟨p, stored⟩)
    (hq : p.produce stages = some { p with context := c, acks := rest, producer := next })
    (hheld : next.held = p.producer.held ∨ next.held = [] ∧ next.broken)
    (hanswers : ∃ gone, stages.results sink p.passed =
        (stored ++ p.handed stages .producer).map .ok ++ gone ++ rest ++ p.writer.pending ∧
      (gone = [] ∨ ∃ f, next.result = some (.error f)))
    (hfinished : next.result = some (.ok ()) → p.writer.isStopped ∧ p.work = [] ∧
      stages.results sink p.passed = (stored ++ p.handed stages .producer).map .ok) :
    Ordered stages sink ⟨{ p with context := c, acks := rest, producer := next },
      stored ++ p.handed stages .producer⟩ where
  room := h.room
  items := by
    rcases hheld with he | ⟨he, -⟩
    · simpa only [he] using h.items
    · have hprefix : p.passed ++ p.work ++ [] <+: p.passed ++ p.work ++ p.producer.held := by simp
      simpa only [he] using hprefix.trans h.items
  whole hb := by
    rcases hheld with he | ⟨-, he⟩
    · have hbefore : p.producer.broken = false := by
        by_contra hp
        simp [(follows_of_produce hq).1.broken (by simpa using hp)] at hb
      simpa only [he] using h.whole hbefore
    · simp [he] at hb
  sink_eq := h.sink_eq
  answers := by
    obtain ⟨gone, hresults, hgone⟩ := hanswers
    exact ⟨gone, [], by simpa using hresults, hgone, .inl rfl⟩
  last := h.last
  failed := h.failed
  waiting := h.waiting
  stopped hw := by
    have hopen := acksClosed_of_produce hq
    exact (h.stopped hw).imp_right (Or.imp_left (by simp [hopen]))
  awaits item hitem := by
    obtain ⟨hp, hfull⟩ := (follows_of_produce hq).1.awaiting item hitem
    have hdepth : 0 < syncPipelineQueueDepth := by decide
    have hle := h.length_stored_le
    simp only [handed, receives, hp, Bool.false_eq_true, if_false, append_nil]
    omega
  collects hc := ((follows_of_produce hq).1.collecting hc).elim id h.collects
  finished := hfinished

theorem Ordered.flushed (h : Ordered stages sink ⟨p, stored⟩) (hacks : p.acks = [])
    (hw : p.writer.isStopped) (hp : p.producer = .flushing) :
    stages.results sink p.passed = stored.map .ok ∧ p.writer.pending = [] ∧ p.work = [] := by
  have hresults := h.answers_of_result (by simp [hp, Producer.result])
  have hpending : p.writer.pending = [] := by
    cases hwriter : p.writer <;> simp_all [isStopped, pending]
  rw [hacks, hpending, append_nil, append_nil] at hresults
  refine ⟨hresults, hpending, ?_⟩
  rcases h.stopped hw with hwork | hc | ⟨r, hr, hbad⟩
  · exact hwork
  · simp [hp, acksClosed] at hc
  · -- Every answer has been passed to `stored`, so none is a failure.
    dsimp only at hr
    rw [hresults] at hr
    obtain ⟨a, -, rfl⟩ := mem_map.mp hr
    exact absurd rfl hbad

theorem Ordered.reads {c : γ} {item : ι} (h : Ordered stages sink ⟨p, stored⟩)
    (hp : p.producer = .reading) : Ordered stages sink ⟨{ p with
      context := c, producer := .offering item, taken := p.taken ++ [item] }, stored⟩ := by
  have hresults := h.answers_of_result (by simp [hp, Producer.result])
  have hwhole := h.whole (by simp [hp, broken])
  simp only [hp, held, append_nil] at hwhole
  refine ⟨h.room, ?_, fun _ => ?_, h.sink_eq, ⟨[], [], by simp [hresults], .inl rfl, .inl rfl⟩,
    h.last, h.failed, h.waiting, ?_, by simp, by simp, by simp [Producer.result]⟩
  · simp [hwhole, held]
  · simp [hwhole, held]
  · exact fun hw => (h.stopped hw).imp_right (Or.imp_left (by simp [hp, acksClosed]))

theorem Ordered.sends {item : ι} (h : Ordered stages sink ⟨p, stored⟩)
    (hp : p.producer = .offering item) (hw : p.writer.isStopped = false)
    (hroom : p.work.length < syncPipelineQueueDepth) :
    Ordered stages sink ⟨{ p with work := p.work ++ [item], producer := .draining }, stored⟩ := by
  have hresults := h.answers_of_result (by simp [hp, Producer.result])
  have hwhole := h.whole (by simp [hp, broken])
  simp only [hp, held] at hwhole
  refine ⟨?_, ?_, fun _ => ?_, h.sink_eq, ⟨[], [], by simp [hresults], .inl rfl, .inl rfl⟩,
    h.last, h.failed, h.waiting, by simp [hw], by simp, by simp, by simp [Producer.result]⟩
  · simpa using Nat.succ_le_of_lt hroom
  · simp [hwhole, held]
  · simp [hwhole, held]

theorem Ordered.produces (h : Ordered stages sink ⟨p, stored⟩) (hq : p.produce stages = some q) :
    Ordered stages sink ⟨q, stored ++ p.handed stages .producer⟩ := by
  have hopen := acksClosed_of_produce hq
  obtain ⟨gone, hanswers, hgone⟩ : ∃ gone, stages.results sink p.passed =
        stored.map .ok ++ gone ++ p.acks ++ p.writer.pending ∧
      (gone = [] ∨ ∃ f, p.producer.result = some (.error f)) := by
    obtain ⟨gone, late, hanswers, hgone, hlate⟩ := h.answers
    have hlate : late = [] := hlate.resolve_right (by simp [hopen])
    exact ⟨gone, by simpa [hlate] using hanswers, hgone⟩
  -- A move that takes nothing stores nothing.
  have hidle : q.acks = p.acks → p.handed stages .producer = [] := fun hacks =>
    handed_nil hq (.inl hacks)
  cases produce_eq_some hq with
  | @settles a rest c next hacks hs hnext =>
    obtain ⟨-, hhanded⟩ := handed_ok hq hacks
    have hresult : p.producer.result = none ∧ next.result = none := by
      rcases hnext with ⟨rfl, hn⟩ | ⟨-, hc, hc'⟩
      · exact ⟨hn, hn⟩
      · exact ⟨result_eq_none hc, result_eq_none hc'⟩
    refine h.advances hq (.inl ?_) ⟨[], ?_, .inl rfl⟩ (by simp [hresult.2])
    · rcases hnext with ⟨rfl, -⟩ | ⟨hheld, -⟩
      · rfl
      · exact hheld.symm
    · simp [h.answers_of_result hresult.1, hacks, hhanded]
  | @refuses a rest c e hacks hs =>
    obtain ⟨hreceives, hhanded⟩ := handed_ok hq hacks
    refine h.advances hq (.inr ⟨rfl, rfl⟩) ⟨[], ?_, .inl rfl⟩ (by simp [Producer.result])
    simp [h.answers_of_result (result_of_receives hreceives), hacks, hhanded]
  | @fails e rest hacks =>
    have hhanded := handed_nil hq (.inr ⟨e, hacks⟩)
    refine h.advances hq (.inr ⟨rfl, rfl⟩) ⟨gone ++ [.error e], ?_, .inr ⟨_, rfl⟩⟩
      (by simp [Producer.result])
    simpa [hhanded, hacks] using hanswers
  | abandons hacks hw hc | breaks hp hr =>
    refine h.advances hq (.inr ⟨rfl, rfl⟩) ⟨gone, ?_, .inr ⟨_, rfl⟩⟩ (by simp [Producer.result])
    simpa [hidle rfl] using hanswers
  | completes hacks hw hp =>
    obtain ⟨hresults, hpending, hwork⟩ := h.flushed hacks hw hp
    refine h.advances hq (.inl (by simp [hp, held])) ⟨[], ?_, .inl rfl⟩ fun _ => ⟨hw, hwork, ?_⟩
    · simp [hidle rfl, hresults, hacks, hpending]
    · simp [hidle rfl, hresults]
  | moves next hheld hc hc' =>
    have hresults := h.answers_of_result (result_eq_none hc)
    exact h.advances hq (.inl hheld.symm) ⟨[], by simp [hidle rfl, hresults], .inl rfl⟩
      (by simp [result_eq_none hc'])
  | @reads item c hp hr =>
    rw [hidle rfl, append_nil]
    exact h.reads hp
  | exhausts hp hr =>
    have hresults := h.answers_of_result (by simp [hp, Producer.result])
    exact h.advances hq (.inl (by simp [hp, held])) ⟨[], by simp [hidle rfl, hresults], .inl rfl⟩
      (by simp [Producer.result])
  | @sends item hp hw hroom =>
    rw [hidle rfl, append_nil]
    exact h.sends hp hw hroom
  | drops hp hw =>
    have hresults := h.answers_of_result (by simp [hp, Producer.result])
    exact h.advances hq (.inr ⟨rfl, rfl⟩) ⟨[], by simp [hidle rfl, hresults], .inl rfl⟩
      (by simp [Producer.result])
  | @ends result hp =>
    refine h.advances hq (.inl (by simp [hp, held])) ⟨gone, ?_, ?_⟩ fun hf => ?_
    · simpa [hidle rfl] using hanswers
    · simpa only [hp, Producer.result] using hgone
    · rw [hidle rfl, append_nil]
      exact h.finished (by simpa only [hp, Producer.result] using hf)

theorem Ordered.step (h : Ordered stages sink x) (thread : Thread) :
    Ordered stages sink (x.step stages thread) := by
  cases thread with
  | producer =>
    unfold Watched.step Pipeline.step
    cases hq : x.pipeline.produce stages with
    | some q => exact h.produces hq
    | none =>
      have hhanded : x.pipeline.handed stages .producer = [] := by
        rcases produce_eq_none hq with ⟨result, hp⟩ | ⟨hacks, -⟩
        · simp [handed, receives, hp]
        · simp [handed, hacks]
      rw [hhanded, append_nil]
      exact h
  | writer =>
    unfold Watched.step Pipeline.step
    rw [handed, append_nil]
    cases hq : x.pipeline.consume stages with
    | some q => exact h.consumes hq
    | none => exact h

theorem ordered_exec (schedule : List Thread) : Ordered stages sink
    (schedule.foldl (step stages) { pipeline := { context := context, sink := sink } }) := by
  have hall : Along (step stages) (fun _ _ => True)
      { pipeline := { context := context, sink := sink } } schedule :=
    Along.of_forall fun _ _ _ => trivial
  exact hall.foldl ordered_start fun _ thread h _ => h.step thread

@[simp] theorem foldl_step_pipeline (x : Watched γ ω ι α ε) (schedule : List Thread) :
    (schedule.foldl (step stages) x).pipeline = x.pipeline.exec stages schedule := by
  induction schedule generalizing x with
  | nil => rfl
  | cons thread schedule ih => exact ih (x.step stages thread)

theorem Ordered.last_of_error (h : Ordered stages sink x) {e : ε} {pre post : List (Except ε α)}
    (hresults : stages.results sink x.pipeline.passed = pre ++ .error e :: post) : post = [] := by
  by_contra hpost
  have hmem : .error e ∈ (stages.results sink x.pipeline.passed).dropLast := by
    rw [hresults, dropLast_append_of_ne_nil (by simp), dropLast_cons_of_ne_nil hpost]
    simp
  have hok := h.failed _ hmem
  simp [Except.isOk, Except.toBool] at hok

theorem Ordered.complete (h : Ordered stages sink x) (hr : x.pipeline.Returns (.ok ())) :
    x.pipeline.passed = x.pipeline.taken ∧
      stages.results sink x.pipeline.taken = x.stored.map .ok := by
  obtain ⟨-, hwork, hresults⟩ := h.finished (by simp [hr.1, Producer.result])
  have hwhole := h.whole (by simp [hr.1, broken])
  simp only [hr.1, hwork, held, append_nil] at hwhole
  exact ⟨hwhole.symm, by rw [hwhole, hresults]⟩

theorem Ordered.inHand_le (h : Ordered stages sink x) :
    x.pipeline.inHand ≤ syncPipelineQueueDepth + 2 := by
  have hroom := h.room
  have hheld : x.pipeline.producer.held.length ≤ 1 := by
    cases x.pipeline.producer <;> simp [held]
  have hpending : x.pipeline.writer.pending.length ≤ 1 := by
    cases x.pipeline.writer <;> simp [pending]
  unfold inHand
  omega

/-- The threads get stuck only at their ends. -/
theorem Ordered.returns_of_stuck (h : Ordered stages sink x) (hasks : x.AsksInTime stages)
    (hs : x.pipeline.Stuck stages) : ∃ result, x.pipeline.Returns result := by
  obtain ⟨hproduce, hconsume⟩ := hs
  have hdepth : 0 < syncPipelineQueueDepth := by decide
  rcases produce_eq_none hproduce with ⟨result, hp⟩ | ⟨hacks, hw, hp⟩
  · rcases consume_eq_none hconsume with hstop | ⟨-, -, hc⟩ | ⟨hc, -⟩
    · exact ⟨result, hp, hstop⟩
    · simp [hp, workClosed] at hc
    · simp [hp, acksClosed] at hc
  · exfalso
    rcases consume_eq_none hconsume with hstop | ⟨hwaiting, hwork, hc⟩ | ⟨-, hfull⟩
    · simp [hstop, isStopped] at hw
    · -- Nothing is on its way, so every item that was sent has been acknowledged.
      have hresults := h.answers_of_result (result_eq_none hc)
      have hlength := congrArg List.length hresults
      simp only [hacks, hwaiting, pending, append_nil, Stages.length_results, length_map] at hlength
      rcases hp with ⟨item, hp⟩ | hp | hp | ⟨hp, hd⟩
      · have := h.awaits item hp
        simp only [hwork, length_nil] at this
        omega
      · simp [h.collects hp] at hw
      · simp [hp, workClosed] at hc
      · have hwhole := h.whole (by simp [hp, broken])
        simp only [hp, hwork, held, append_nil] at hwhole
        have := hasks hp hd
        rw [hwhole] at this
        omega
    · simp only [hacks, length_nil] at hfull
      omega

/--
For all stages and every interleaving of the two threads: the items are written in the order
in which they were read, and none after a failed write; the acknowledgements are stored in
that order; a good result means that every item has been written and acknowledged; the last
acknowledgement is known; few items are in hand at once; and the threads never deadlock.
-/
theorem pipeline_is_queue (stages : Stages γ ω ι α ε) (context : γ) (sink : ω)
    (schedule : List Thread) :
    let p := Pipeline.exec stages { context := context, sink := sink } schedule
    let x := schedule.foldl (step stages) { pipeline := { context := context, sink := sink } }
    p = x.pipeline ∧ p.passed <+: p.taken ∧ p.sink = stages.fill sink p.passed ∧
      (∀ e pre post, stages.results sink p.passed = pre ++ .error e :: post → post = []) ∧
      x.stored.map .ok <+: stages.results sink p.passed ∧
      (p.Returns (.ok ()) → p.passed = p.taken ∧
        stages.results sink p.taken = x.stored.map .ok) ∧
      p.lastWritten = ((stages.results sink p.passed).filterMap Except.toOption).getLast? ∧
      p.inHand ≤ syncPipelineQueueDepth + 2 ∧
      (x.AsksInTime stages → p.Stuck stages → ∃ result, p.Returns result) := by
  intro p x
  have hp : p = x.pipeline :=
    (foldl_step_pipeline { pipeline := { context := context, sink := sink } } schedule).symm
  have h : Ordered stages sink x := ordered_exec schedule
  obtain ⟨gone, late, hanswers, -⟩ := h.answers
  rw [hp]
  refine ⟨rfl, ?_, h.sink_eq, fun e pre post => h.last_of_error, ?_, h.complete, h.last,
    h.inHand_le, h.returns_of_stuck⟩
  · have hitems := h.items
    rw [append_assoc] at hitems
    exact (prefix_append _ _).trans hitems
  · exact ⟨gone ++ x.pipeline.acks ++ x.pipeline.writer.pending ++ late, by simp [hanswers]⟩

end Watched

end KindleBridge.Device
