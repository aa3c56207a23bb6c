import KindleBridge.Wire.Lifecycle

/-! # The allocator of stream identifiers

The next local identifier is moved by allocations and by the OPENs that an endpoint sends
with identifiers of its own choice. It only moves up, in steps that keep its parity.
-/

namespace KindleBridge.Wire

open SessionState List Option

namespace SessionState

/-- The identifiers that the allocations of a run return, in their order. -/
def allocated (s : SessionState) : List SessionCall → List ℕ
  | [] => []
  | .allocateStreamId :: as =>
    (allocateStreamId.run s).1.toOption.toList ++ (s.call .allocateStreamId).allocated as
  | .process d p :: as => (s.call (.process d p)).allocated as

/-- Whether the endpoint itself opens streams with this identifier. -/
def IsLocal (s : SessionState) (id : ℕ) : Prop :=
  decide (id % 2 = 1) = s.config.role.localStreamsAreOdd

/-- The allocator returns no identifier up to this one any more. -/
def Past (s : SessionState) (id : ℕ) : Prop := ∀ n, s.nextLocalStreamId = some n → id < n

/-- One of the last two identifiers has been returned, or opened by the endpoint itself. -/
def Spent (s : SessionState) (as : List SessionCall) : Prop :=
  ∃ id ≥ u32Max - 1, id ∈ s.allocated as ∨
    ∃ p, (.outbound, p) ∈ s.accepted as ∧ p.header.command = .open ∧ p.header.streamId = id

/-- What holds of the allocator in every run. -/
structure Allocating (s : SessionState) : Prop where
  next : ∀ n, s.nextLocalStreamId = some n → n ≤ u32Max ∧ s.IsLocal n
  used : ∀ id, (s.streams id).isSome → s.IsLocal id → s.Past id

end SessionState

variable {s t : SessionState} {a : SessionCall} {d : Direction} {p : Packet} {id n : ℕ}
  {as : List SessionCall}

theorem allocate_eq (s : SessionState) : (allocateStreamId.run s).1 =
    match s.nextLocalStreamId with
    | some id => .ok id
    | none => .error .streamIdExhausted := by
  cases hn : s.nextLocalStreamId <;> simp [allocateStreamId, hn]

theorem eq_of_checkedAdd (h : checkedAdd id 2 = some n) : n = id + 2 ∧ n ≤ u32Max := by
  unfold checkedAdd at h
  split_ifs at h with hle
  obtain rfl := some.inj h
  exact ⟨rfl, hle⟩

@[simp] theorem advanceSequence_next {h : Header} :
    (advanceSequence d h s).nextLocalStreamId = s.nextLocalStreamId := by
  unfold advanceSequence; split_ifs <;> cases d <;> rfl

theorem next_of_applies (ha : s.Applies p.header p.context d t) :
    p.header.command ≠ .open ∧ t.nextLocalStreamId = s.nextLocalStreamId ∨
      p.header.command = .open ∧ decide (p.header.streamId % 2 = 1) = s.expectedOdd d ∧
        t.nextLocalStreamId = s.nextAfterOpen d p.header.streamId := by
  cases ha with
  | «open» _ _ hc _ hodd => exact .inr ⟨hc, hodd, rfl⟩
  | ping _ _ hc | late _ _ _ hc => rcases hc with hc | hc <;> simp [hc]
  | _ => simp_all [setStream]

theorem call_allocator (s : SessionState) (a : SessionCall) : (s.call a).config = s.config ∧
    ((a = .allocateStreamId ∧ ∃ id, s.nextLocalStreamId = some id ∧
        (s.call a).nextLocalStreamId = checkedAdd id 2 ∧ (s.call a).streams = s.streams) ∨
      (∃ p, s.accepts a = some (.outbound, p) ∧ p.header.command = .open ∧
        s.IsLocal p.header.streamId ∧
        (s.call a).nextLocalStreamId = s.nextAfterOpen .outbound p.header.streamId ∧
        ∀ id, ((s.call a).streams id).isSome → id = p.header.streamId ∨ (s.streams id).isSome) ∨
      (s.call a).nextLocalStreamId = s.nextLocalStreamId ∧
        (∀ p, s.accepts a = some (.outbound, p) → p.header.command ≠ .open) ∧
        ∀ id, s.IsLocal id → ((s.call a).streams id).isSome → (s.streams id).isSome) := by
  rcases call_cases s a with ⟨hnone, next, hcall, hnext⟩ | ⟨d, p, t, hsome, -, ha, hcall⟩
  · rw [hcall]
    rcases hnext with rfl | ⟨id, hid, rfl, rfl⟩
    · exact ⟨rfl, .inr (.inr ⟨rfl, by simp [hnone], fun _ _ h => h⟩)⟩
    · exact ⟨rfl, .inl ⟨rfl, id, hid, rfl, rfl⟩⟩
  · simp only [hcall, advanceSequence_config, advanceSequence_next, advanceSequence_streams,
      config_of_applies ha, hsome, true_and]
    -- A stream without a record gets one by its OPEN.
    have hnew (id : ℕ) (h : (t.streams id).isSome) : p.header.command = .open ∧
        id = p.header.streamId ∨ (s.streams id).isSome := by
      rcases streams_of_applies ha id with hsame | ⟨rfl, X, -, hmoves⟩
      · exact .inr (hsame ▸ h)
      · generalize s.streams p.header.streamId = before at hmoves ⊢
        cases hmoves <;> simp_all
    rcases next_of_applies ha with ⟨hc, hnext⟩ | ⟨hc, hodd, hnext⟩
    · exact .inr (.inr ⟨hnext, by grind, fun id _ h => (hnew id h).resolve_left (by simp [hc])⟩)
    · cases d with
      | outbound =>
        exact .inr (.inl ⟨p, rfl, hc, hodd, hnext, fun id h => (hnew id h).imp_left And.right⟩)
      | inbound =>
        refine .inr (.inr ⟨hnext, by simp, fun id hlocal h => (hnew id h).resolve_left ?_⟩)
        rintro ⟨-, rfl⟩
        rw [IsLocal, hodd, expectedOdd] at hlocal
        simp at hlocal

theorem past_nextAfterOpen (h : s.nextAfterOpen .outbound id = some n) : id < n := by
  unfold nextAfterOpen at h
  split_ifs at h with hle
  · have := eq_of_checkedAdd h
    omega
  · simpa [h] using hle

theorem SessionState.Past.call (h : s.Past id) (a : SessionCall) : (s.call a).Past id := by
  intro n hn
  obtain ⟨-, ⟨-, m, hm, hnext, -⟩ | ⟨p, -, -, -, hnext, -⟩ | ⟨hnext, -⟩⟩ := call_allocator s a
  · have := h m hm
    have := eq_of_checkedAdd (hnext.symm.trans hn)
    omega
  · rw [hnext, nextAfterOpen] at hn
    split_ifs at hn with hle
    · obtain ⟨m, hm, hmle⟩ : ∃ m, s.nextLocalStreamId = some m ∧ m ≤ p.header.streamId := by
        simpa [Option.any_eq_true] using hle
      have := h m hm
      have := eq_of_checkedAdd hn
      omega
    · exact h n hn
  · exact h n (hnext ▸ hn)

theorem SessionState.Past.run (h : s.Past id) (as : List SessionCall) :
    (as.foldl SessionState.call s).Past id :=
  foldlRecOn (motive := fun s : SessionState => s.Past id) as _ h fun _ h a _ => h.call a

theorem past_of_allocated (h : id ∈ s.allocated as) : (as.foldl SessionState.call s).Past id := by
  induction as generalizing s with
  | nil => simp [allocated] at h
  | cons a as ih =>
    cases a with
    | process d p => exact ih h
    | allocateStreamId =>
      rcases mem_append.mp h with h | h
      · have hid : s.nextLocalStreamId = some id := by
          rw [allocate_eq] at h
          cases hn : s.nextLocalStreamId <;> simp_all [Except.toOption]
        have hnext : (s.call .allocateStreamId).nextLocalStreamId = checkedAdd id 2 := by
          simp [SessionState.call, allocateStreamId, hid]
        refine Past.run (fun n hn => ?_) as
        have := eq_of_checkedAdd (hnext.symm.trans hn)
        omega
      · exact ih h

theorem past_of_accepted (h : (.outbound, p) ∈ s.accepted as)
    (hc : p.header.command = .open) : (as.foldl SessionState.call s).Past p.header.streamId := by
  induction as generalizing s with
  | nil => simp [accepted] at h
  | cons a as ih =>
    rcases mem_append.mp h with h | h
    · refine Past.run (fun n hn => ?_) as
      have h : s.accepts a = some (.outbound, p) := by simpa using h
      obtain ⟨-, ⟨rfl, -⟩ | ⟨q, hq, -, -, hnext, -⟩ | ⟨-, hnone, -⟩⟩ := call_allocator s a
      · cases h
      · obtain rfl : q = p := by simpa [h] using hq.symm
        exact past_nextAfterOpen (hnext.symm.trans hn)
      · exact absurd hc (hnone p h)
    · exact ih h

theorem isLocal_call : (s.call a).IsLocal id ↔ s.IsLocal id := by
  rw [IsLocal, IsLocal, (call_allocator s a).1]

theorem isLocal_add_two (h : s.IsLocal id) : s.IsLocal (id + 2) := by
  rwa [IsLocal, Nat.add_mod_right]

namespace SessionState.Allocating

theorem call (h : s.Allocating) (a : SessionCall) : (s.call a).Allocating := by
  constructor
  · intro n hn
    rw [isLocal_call]
    obtain ⟨-, ⟨-, m, hm, hnext, -⟩ | ⟨p, -, -, hlocal, hnext, -⟩ | ⟨hnext, -⟩⟩ :=
      call_allocator s a
    · obtain ⟨rfl, hle⟩ := eq_of_checkedAdd (hnext.symm.trans hn)
      exact ⟨hle, isLocal_add_two (h.next m hm).2⟩
    · rw [hnext, nextAfterOpen] at hn
      split_ifs at hn
      · obtain ⟨rfl, hle⟩ := eq_of_checkedAdd hn
        exact ⟨hle, isLocal_add_two hlocal⟩
      · exact h.next n hn
    · exact h.next n (hnext ▸ hn)
  · intro id hid hlocal
    rw [isLocal_call] at hlocal
    obtain ⟨-, ⟨-, m, -, -, hstreams⟩ | ⟨p, -, -, -, hnext, hstreams⟩ | ⟨-, -, hstreams⟩⟩ :=
      call_allocator s a
    · exact (h.used id (hstreams ▸ hid) hlocal).call a
    · rcases hstreams id hid with rfl | hid
      · exact fun n hn => past_nextAfterOpen (hnext.symm.trans hn)
      · exact (h.used id hid hlocal).call a
    · exact (h.used id (hstreams id hlocal hid) hlocal).call a

theorem new (config : SessionConfig) : (new config).Allocating where
  next n hn := by
    obtain rfl := some.inj hn
    unfold IsLocal
    cases hrole : config.role <;>
      simp [SessionState.new, hrole, EndpointRole.localStreamsAreOdd, u32Max]
  used id h := by simp [SessionState.new] at h

end SessionState.Allocating

theorem exhausted_run (h : s.nextLocalStreamId = none) (as : List SessionCall) :
    (as.foldl SessionState.call s).nextLocalStreamId = none := by
  induction as generalizing s with
  | nil => exact h
  | cons a as ih =>
    refine ih ?_
    obtain ⟨-, ⟨-, m, hm, -⟩ | ⟨p, -, -, -, hnext, -⟩ | ⟨hnext, -⟩⟩ := call_allocator s a
    · rw [h] at hm
      cases hm
    · simp [hnext, nextAfterOpen, h]
    · rw [hnext, h]

theorem le_of_checkedAdd (h : checkedAdd id 2 = none) : u32Max - 1 ≤ id := by
  unfold checkedAdd at h
  split_ifs at h
  omega

theorem spent_of_exhausted (hs : s.nextLocalStreamId ≠ none)
    (h : (as.foldl SessionState.call s).nextLocalStreamId = none) : s.Spent as := by
  induction as generalizing s with
  | nil => exact absurd h hs
  | cons a as ih =>
    by_cases hnone : (s.call a).nextLocalStreamId = none
    · obtain ⟨-, ⟨rfl, m, hm, hnext, -⟩ | ⟨p, hp, hc, -, hnext, -⟩ | ⟨hnext, -⟩⟩ :=
        call_allocator s a
      · refine ⟨m, le_of_checkedAdd (hnext ▸ hnone), .inl ?_⟩
        simp [allocated, allocate_eq, hm, Except.toOption]
      · rw [hnext, nextAfterOpen] at hnone
        split_ifs at hnone
        · exact ⟨_, le_of_checkedAdd hnone, .inr ⟨p, by simp [accepted, hp], hc, rfl⟩⟩
        · exact absurd hnone hs
      · exact absurd (hnext ▸ hnone) hs
    · obtain ⟨id, hid, hmem | ⟨p, hp, hopen⟩⟩ := ih hnone h
      · refine ⟨id, hid, .inl ?_⟩
        cases a with
        | allocateStreamId => exact mem_append_right _ hmem
        | process d p => exact hmem
      · exact ⟨id, hid, .inr ⟨p, mem_append_right _ hp, hopen⟩⟩

/--
Whatever a session has done, the allocator returns an identifier of its own parity that is
larger than all those it returned or saw opened locally, and that no stream has. It fails only
after the last one, and then for ever.
-/
theorem allocated_id_is_fresh (config : SessionConfig) (run : List SessionCall) :
    let s := run.foldl SessionState.call (new config)
    match (allocateStreamId.run s).1 with
    | .ok id => decide (id % 2 = 1) = config.role.localStreamsAreOdd ∧ id ≤ u32Max ∧
        (∀ used ∈ (new config).allocated run, used < id) ∧
        (∀ p, (.outbound, p) ∈ (new config).accepted run → p.header.command = .open →
          p.header.streamId < id) ∧ s.streams id = none
    | .error e => e = .streamIdExhausted ∧ (new config).Spent run ∧ ∀ later : List SessionCall,
        (allocateStreamId.run (later.foldl SessionState.call s)).1 = .error .streamIdExhausted := by
  intro s
  have hs : s.Allocating := foldlRecOn run _ (.new config) fun _ h a _ => h.call a
  have hconfig : s.config = config :=
    foldlRecOn (motive := (·.config = config)) run _ rfl fun t ht a _ =>
      (call_allocator t a).1.trans ht
  rw [allocate_eq]
  cases hn : s.nextLocalStreamId with
  | none =>
    refine ⟨rfl, spent_of_exhausted (by simp [new]) hn, fun later => ?_⟩
    rw [allocate_eq, exhausted_run hn]
  | some id =>
    obtain ⟨hle, hlocal⟩ := hs.next id hn
    have hparity : decide (id % 2 = 1) = config.role.localStreamsAreOdd := hconfig ▸ hlocal
    refine ⟨hparity, hle, fun used h => past_of_allocated h id hn,
      fun p h hc => past_of_accepted h hc id hn, ?_⟩
    by_contra hused
    exact lt_irrefl id (hs.used id (isSome_iff_ne_none.mpr hused) hlocal id hn)

/-- The host has opened the stream with the largest identifier. -/
theorem allocated_id_is_fresh_last : let config : SessionConfig := .new .host .default
    let run : List SessionCall := [.process .outbound ⟨.new .hello 0 0, .hello 1024⟩,
      .process .inbound ⟨.new .hello 0 0, .hello 1024⟩,
      .process .outbound ⟨.new .open u32Max 0, {}⟩]
    let s := run.foldl SessionState.call (new config)
    (allocateStreamId.run s).1 = .error .streamIdExhausted ∧ (new config).Spent run := by
  intro config run s
  have hfails : (allocateStreamId.run s).1 = .error .streamIdExhausted := by decide +kernel
  have h := allocated_id_is_fresh config run
  simp only [show (allocateStreamId.run (run.foldl SessionState.call (new config))).1 = _
    from hfails] at h
  exact ⟨hfails, h.2.1⟩

end KindleBridge.Wire
