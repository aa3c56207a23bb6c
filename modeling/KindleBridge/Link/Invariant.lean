import KindleBridge.Foundations.Runs
import KindleBridge.Link.Joint

/-! # The invariant of the link

What holds of the two endpoints and the two channels as long as every delivered frame
was accepted: the frames on the way are numbered, each stream is in one of the
situations of `Joint`, and the connection credit is conserved.
-/

namespace KindleBridge.Link

open Wire SessionState Function List

/-! ## Connection credit across the link

The connection-level credit of one direction: what its sender may still send, the DATA
on the way, and the credit on the way back, which starts with the window of the HELLO.
-/

def grants (q : List Packet) : ℕ := (q.map Packet.grant).sum

def Packet.Greets (p : Packet) : Bool := p.header.command = .hello

@[simp] theorem grants_nil : grants [] = 0 := rfl
@[simp] theorem grants_cons (p : Packet) (q : List Packet) :
    grants (p :: q) = p.grant + grants q := by simp [grants]
@[simp] theorem grants_append (q q' : List Packet) :
    grants (q ++ q') = grants q + grants q' := by simp [grants]

/--
Connection credit from `A` to `B`: the two endpoints, the frames from `A` to `B`, and the
frames from `B` to `A`.
-/
structure Grant (A B : SessionState) (q q' : List Packet) : Prop where
  credit : A.connectionSendCredit + dataBytes q + grants q' = B.connectionReceiveCredit
  bound : B.connectionReceiveCredit ≤ B.connectionReceiveLimit
  small : B.connectionReceiveLimit ≤ u32Max
  hellos : q'.countP Packet.Greets + A.peerHello.toNat = B.localHello.toNat
  window : ∀ p ∈ q', p.header.command = .hello →
    p.context.initialConnectionWindow = some B.connectionReceiveLimit
  limit : A.peerHello → A.connectionSendLimit = B.connectionReceiveLimit
  unsent : B.localHello = false → B.connectionReceiveLimit = 0
  unheard : A.peerHello = false → A.connectionSendCredit = 0 ∧ A.connectionSendLimit = 0

namespace Grant

variable {A B A' B' : SessionState} {q q' : List Packet} {p : Packet}

theorem sends (h : Grant A B q q') (ha : A.Applies p.header p.context .outbound A') :
    Grant A' B (q ++ [p]) q' := by
  obtain ⟨h1, h2, h3⟩ := sends_charge ha
  have := h.credit
  refine ⟨?_, h.bound, h.small, h3 ▸ h.hellos, h.window, ?_, h.unsent, ?_⟩
  · simp only [dataBytes_append, dataBytes_cons, dataBytes_nil]
    omega
  · rw [h2, h3]
    exact h.limit
  · rw [h2, h3]
    intro hp
    have := h.unheard hp
    omega

theorem receives (h : Grant A B (p :: q) q') (ha : B.Applies p.header p.context .inbound B') :
    Grant A B' q q' := by
  obtain ⟨h1, h2, h3⟩ := receives_charge ha
  have hc := h.credit
  have hb := h.bound
  rw [dataBytes_cons] at hc
  exact ⟨by omega, by omega, h2 ▸ h.small, h3 ▸ h.hellos, h2 ▸ h.window, h2 ▸ h.limit,
    h2 ▸ h3 ▸ h.unsent, h.unheard⟩

theorem back_sends (h : Grant A B q q') (ha : B.Applies p.header p.context .outbound B')
    (hw : ∀ w, p.context.initialConnectionWindow = some w → w ≤ u32Max) :
    Grant A B' q (q' ++ [p]) := by
  have hcredit := h.credit
  have hbound := h.bound
  have hhellos := h.hellos
  by_cases hc : p.header.command = .hello
  · obtain ⟨h1, h2, h3, h4⟩ := sends_hello ha hc
    have hunsent := h.unsent h1
    have hgrant : p.grant = B'.connectionReceiveLimit := by simp [Packet.grant, hc, h3]
    simp only [h1, Bool.toNat_false, Nat.add_eq_zero_iff, countP_eq_zero] at hhellos
    have hpeer : A.peerHello = false := by simpa using hhellos.2
    refine ⟨?_, h4.le, hw _ h3, ?_, ?_, ?_, ?_, h.unheard⟩
    · simp only [grants_append, grants_cons, grants_nil]
      omega
    · have : q'.countP Packet.Greets = 0 := countP_eq_zero.mpr hhellos.1
      simp [this, hpeer, h2, Packet.Greets, hc]
    · refine forall_mem_concat (fun p' hp' hc' => ?_) fun _ => h3
      exact absurd (by simpa [Packet.Greets] using hc') (hhellos.1 p' hp')
    · simp [hpeer]
    · simp [h2]
  · obtain ⟨h1, h2, h3, h4⟩ := sends_grant ha hc
    refine ⟨?_, by omega, h3 ▸ h.small, ?_, ?_, h3 ▸ h.limit, h3 ▸ h4 ▸ h.unsent, h.unheard⟩
    · simp only [grants_append, grants_cons, grants_nil]
      omega
    · simpa [h4, Packet.Greets, hc] using hhellos
    · exact forall_mem_concat (h3 ▸ h.window) fun hc' => absurd hc' hc

theorem back_receives (h : Grant A B q (p :: q')) (ha : A.Applies p.header p.context .inbound A') :
    Grant A' B q q' := by
  have hcredit := h.credit
  have hhellos := h.hellos
  have hwindow := forall_mem_cons.mp h.window
  rw [grants_cons] at hcredit
  by_cases hc : p.header.command = .hello
  · obtain ⟨h1, h2, h3, h4⟩ := receives_hello ha hc
    have hlimit : A'.connectionSendLimit = B.connectionReceiveLimit :=
      Option.some.inj (h3.symm.trans (hwindow.1 hc))
    have hgrant : p.grant = A'.connectionSendLimit := by simp [Packet.grant, hc, h3]
    have hunheard := h.unheard h1
    refine ⟨by omega, h.bound, h.small, ?_, hwindow.2, fun _ => hlimit, h.unsent, by simp [h2]⟩
    simpa [h1, h2, Packet.Greets, hc, countP_cons] using hhellos
  · obtain ⟨h1, h2, h3, h4⟩ := receives_grant ha hc
    refine ⟨by omega, h.bound, h.small, ?_, hwindow.2, ?_, h.unsent, ?_⟩
    · simpa [h4, Packet.Greets, hc, countP_cons] using hhellos
    · rw [h3, h4]
      exact h.limit
    · rw [h3, h4]
      intro hp
      have := h.unheard hp
      omega

end Grant

/-! ## The two endpoints -/

/-- The endpoint whose streams a stream identifier belongs to. -/
def opener (id : ℕ) : EndpointRole := if id % 2 = 1 then .host else .device

def framesOf (id : ℕ) (q : List Packet) : List Packet := q.filter (·.header.streamId = id)

structure Sound (limits : DecodeLimits) (p : Packet) : Prop where
  valid : p.header.Valid limits
  context : (SessionState.new (.new .host limits)).validateContext p.header p.context = .ok ()
  last : p.header.sequence = u32Max → p.header.command = .reset

/-- Frames other than HELLO are exchanged after the HELLOs. -/
def Greeted (s : SessionState) : Prop :=
  s.phase = .online ∨ s.phase = .goingAway → s.localHello ∧ s.peerHello

structure Inv (limits : DecodeLimits) (l : State) : Prop where
  config : ∀ r, (l.endpoint r).config = .new r limits
  numbered : ∀ r, numbering.Continues ((l.endpoint (peer r)).expected .inbound) (l.channel r)
    ((l.endpoint r).expected .outbound)
  sound : ∀ r, ∀ p ∈ l.channel r, Sound limits p
  joint : ∀ id, id ≠ 0 → Joint ((l.endpoint (opener id)).streams id)
    ((l.endpoint (peer (opener id))).streams id)
    (framesOf id (l.channel (opener id))) (framesOf id (l.channel (peer (opener id))))
  grant : ∀ r, Grant (l.endpoint r) (l.endpoint (peer r)) (l.channel r) (l.channel (peer r))
  greeted : ∀ r, Greeted (l.endpoint r)
  control : ∀ r, (l.endpoint r).streams 0 = none

section Greeted

variable {s t : SessionState} {d : Direction} {h : Header} {c : FrameContext}

theorem greeted_of_applies (hg : Greeted s) (ha : s.Applies h c d t) : Greeted t := by
  unfold Greeted at *
  cases ha <;> simp_all [setStream] <;> grind

@[simp] theorem greeted_advanceSequence : Greeted (advanceSequence d h s) ↔ Greeted s := by
  unfold advanceSequence; split_ifs <;> cases d <;> rfl

end Greeted

theorem framesOf_append (id : ℕ) (q q' : List Packet) :
    framesOf id (q ++ q') = framesOf id q ++ framesOf id q' := List.filter_append ..

theorem framesOf_cons (id : ℕ) (p : Packet) (q : List Packet) :
    framesOf id (p :: q) = if p.header.streamId = id then p :: framesOf id q else framesOf id q := by
  simp [framesOf, List.filter_cons]

theorem inv_start (limits : DecodeLimits) : Inv limits (start limits) where
  config _ := rfl
  numbered _ := rfl
  sound := by simp [start]
  joint _ _ := .idle
  grant _ := by constructor <;> simp [start, SessionState.new]
  greeted _ := by simp [Greeted, start, SessionState.new]
  control _ := rfl

theorem opener_of_open {r : EndpointRole} {limits : DecodeLimits} {s t : SessionState} {p : Packet}
    (hr : s.config = .new r limits) (ha : s.Applies p.header p.context .outbound t)
    (hc : p.header.command = .open) : opener p.header.streamId = r := by
  cases ha <;> simp_all
  rename_i hp _
  cases r <;> simp_all [expectedOdd, SessionConfig.new, EndpointRole.localStreamsAreOdd, opener]

theorem Grant.advanceSequence {A B : SessionState} {q q' : List Packet} {d : Direction} {h : Header}
    (hg : Grant A B q q') :
    Grant (advanceSequence d h A) B q q' ∧ Grant A (advanceSequence d h B) q q' := by
  unfold SessionState.advanceSequence
  obtain ⟨h1, h2, h3, h4, h5, h6, h7, h8⟩ := hg
  split_ifs
  · exact ⟨⟨h1, h2, h3, h4, h5, h6, h7, h8⟩, ⟨h1, h2, h3, h4, h5, h6, h7, h8⟩⟩
  · cases d <;> exact ⟨⟨h1, h2, h3, h4, h5, h6, h7, h8⟩, ⟨h1, h2, h3, h4, h5, h6, h7, h8⟩⟩

namespace Inv

variable {limits : DecodeLimits} {l : State} {r : EndpointRole} {p : Packet} {q : List Packet}
  {t : SessionState}

theorem limits_eq (hi : Inv limits l) (r : EndpointRole) :
    (l.endpoint r).config.limits = limits := by
  rw [hi.config r]; rfl

theorem endpoints {d : Direction} (hi : Inv limits l)
    (ha : (l.endpoint r).Applies p.header p.context d t) (r' : EndpointRole) :
    let s := update l.endpoint r (advanceSequence d p.header t) r'
    s.config = .new r' limits ∧ Greeted s ∧ s.streams 0 = none := by
  rcases eq_or_eq_peer r r' with rfl | rfl
  · simpa [config_of_applies ha, streams_zero_of_applies ha, hi.control] using
      And.intro (hi.config r') (greeted_of_applies (hi.greeted r') ha)
  · simpa using And.intro (hi.config (peer r)) ⟨hi.greeted (peer r), hi.control (peer r)⟩

theorem send (hi : Inv limits l) (hadm : (l.endpoint r).Admitted .outbound p.header p.context)
    (ha : (l.endpoint r).Applies p.header p.context .outbound t) :
    Inv limits ⟨Function.update l.endpoint r (advanceSequence .outbound p.header t),
      Function.update l.channel r (l.channel r ++ [p])⟩ := by
  have hne := peer_ne r
  have hlimits := hi.limits_eq r
  obtain ⟨hwc, hws⟩ := windows_le hadm.context
  have hends := hi.endpoints ha
  refine ⟨fun r' => (hends r').1, fun r' => ?_, fun r' => ?_, fun id hid => ?_, fun r' => ?_,
    fun r' => (hends r').2.1, fun r' => (hends r').2.2⟩
  · rcases eq_or_eq_peer r r' with rfl | rfl
    · simp only [update_self, update_of_ne hne, expected_advanceSequence]
      have hexp : t.expected .outbound = (l.endpoint r').expected .outbound :=
        expected_of_applies ha
      rw [hexp]
      exact (hi.numbered r').snoc _ hadm.sequence
    · simp only [peer_peer, update_self, update_of_ne hne]
      rw [expected_advanceSequence_ne (by decide), expected_of_applies ha]
      simpa using hi.numbered (peer r)
  · rcases eq_or_eq_peer r r' with rfl | rfl
    · simp only [update_self]
      refine forall_mem_concat (hi.sound r') ⟨hlimits ▸ hadm.valid, ?_, hadm.last⟩
      rw [← hadm.context]
      exact validateContext_congr hlimits.symm
    · simpa using hi.sound (peer r)
  · have hj := hi.joint id hid
    by_cases hs : p.header.streamId = id
    · obtain ⟨X, hm, hst⟩ := moves_of_applies ha (hs ▸ hid)
      rcases eq_or_eq_peer (opener id) r with rfl | rfl
      · simp only [update_self, update_of_ne hne, advanceSequence_streams, hst, hs, framesOf_append]
        simpa [framesOf, hs] using hj.initiator_sends (hs ▸ hm)
      · simp only [update_self, advanceSequence_streams, hst, hs, framesOf_append]
        have hno : p.header.command ≠ .open := fun hc =>
          peer_ne (opener id) (by rw [← opener_of_open (hi.config _) ha hc, hs])
        simpa [framesOf, hs] using hj.responder_sends (hs ▸ hm) hno hws
    · have hst := streams_of_ne ha hs
      have hf : ∀ q, framesOf id (q ++ [p]) = framesOf id q := by
        intro q; simp [framesOf, hs]
      rcases eq_or_eq_peer (opener id) r with rfl | rfl <;> simpa [hst, hf] using hj
  · rcases eq_or_eq_peer r r' with rfl | rfl
    · simpa using ((hi.grant r').sends ha).advanceSequence.1
    · have := hi.grant (peer r)
      rw [peer_peer] at this
      simpa using (this.back_sends ha hwc).advanceSequence.2

theorem deliver (hi : Inv limits l) (hq : l.channel (peer r) = p :: q)
    (hadm : (l.endpoint r).Admitted .inbound p.header p.context)
    (ha : (l.endpoint r).Applies p.header p.context .inbound t) :
    Inv limits ⟨Function.update l.endpoint r (advanceSequence .inbound p.header t),
      Function.update l.channel (peer r) q⟩ := by
  have hne := peer_ne r
  have hends := hi.endpoints ha
  refine ⟨fun r' => (hends r').1, fun r' => ?_, fun r' => ?_, fun id hid => ?_, fun r' => ?_,
    fun r' => (hends r').2.1, fun r' => (hends r').2.2⟩
  · rcases eq_or_eq_peer r r' with rfl | rfl
    · simp only [update_self, update_of_ne hne, update_of_ne hne.symm]
      rw [expected_advanceSequence_ne (by decide), expected_of_applies ha]
      exact hi.numbered r'
    · have hn := hi.numbered (peer r)
      rw [hq, peer_peer] at hn
      have hexp : t.expected .inbound = (l.endpoint r).expected .inbound := expected_of_applies ha
      simp only [peer_peer, update_self, update_of_ne hne, expected_advanceSequence, hexp]
      exact hn.2
  · rcases eq_or_eq_peer r r' with rfl | rfl
    · simpa using hi.sound r'
    · have hs := hi.sound (peer r)
      rw [hq] at hs
      simpa using (List.forall_mem_cons.mp hs).2
  · have hj := hi.joint id hid
    by_cases hs : p.header.streamId = id
    · obtain ⟨X, hm, hst⟩ := moves_of_applies ha (hs ▸ hid)
      rcases eq_or_eq_peer (opener id) r with rfl | rfl
      · rw [hq, framesOf_cons, if_pos hs] at hj
        simpa [hst, hs] using hj.initiator_receives (hs ▸ hm)
      · rw [peer_peer] at hq
        rw [hq, framesOf_cons, if_pos hs] at hj
        simpa [hst, hs] using hj.responder_receives (hs ▸ hm)
    · have hst := streams_of_ne ha hs
      have hf : framesOf id q = framesOf id (l.channel (peer r)) := by
        rw [hq, framesOf_cons, if_neg hs]
      rcases eq_or_eq_peer (opener id) r with rfl | rfl <;> simpa [hst, hf] using hj
  · rcases eq_or_eq_peer r r' with rfl | rfl
    · have := hi.grant r'
      rw [hq] at this
      simpa using (this.back_receives ha).advanceSequence.1
    · have := hi.grant (peer r)
      rw [peer_peer, hq] at this
      simpa using (this.receives ha).advanceSequence.2

theorem step {a : Action} (hi : Inv limits l) (ha : Accepted l a) : Inv limits (step l a) := by
  cases a with
  | send r p =>
    rcases step_send (l := l) (r := r) (p := p) with h | ⟨hadm, t, happ, h⟩
    · rwa [h]
    · rw [h]
      exact hi.send hadm happ
  | deliver r =>
    cases hq : l.channel (peer r) with
    | nil => simpa [Link.step, hq] using hi
    | cons p q =>
      obtain ⟨hadm, t, happ, h⟩ := step_deliver hq ha
      rw [h]
      exact hi.deliver hq hadm happ

theorem exec {actions : List Action} (h : Along Link.step Accepted (start limits) actions) :
    Inv limits (exec (start limits) actions) :=
  h.foldl (inv_start limits) fun _ _ => Inv.step

end Inv

/-- What the records of its two ends have in common while no frame of a stream is on the way. -/
def Agree : Option StreamState → Option StreamState → Prop
  | none, none => True
  | some X, some Y => (X.initiatedByLocal = !Y.initiatedByLocal) ∧ X.sendLimit = Y.receiveLimit ∧
      (X.phase = Y.phase ∨ X.phase.Terminal ∧ Y.phase.Terminal) ∧
      (X.phase = .accepted → X.sendCredit = Y.receiveCredit)
  | _, _ => False

theorem Coupled.agree {X Y : StreamState} (h : Coupled X Y [] [])
    (hi : X.initiatedByLocal = !Y.initiatedByLocal) : Agree (some X) (some Y) := by
  refine ⟨hi, h.limit, ?_, fun ha => by simpa using h.there.credit ha⟩
  rcases h.there.sender, h.back.sender with ⟨hX | hX, hY | hY⟩
  · exact .inl (hX.trans hY.symm)
  · simpa using h.back.ended hY hX
  · simpa using h.there.ended hX hY
  · exact .inr ⟨hX, hY⟩

theorem Joint.agree {I R : Option StreamState} (h : Joint I R [] []) : Agree I R ∧ Agree R I := by
  cases h with
  | live hi hr h => exact ⟨h.agree (by simp [hi, hr]), h.symm.agree (by simp [hi, hr])⟩
  | _ => simp [Agree, StreamState.opening]

/-- Whatever the interleaving, both ends agree on a stream once its frames have arrived. -/
theorem quiet_stream_agreed (limits : DecodeLimits) (actions : List Action)
    (h : Along step Accepted (start limits) actions) (id : ℕ) (r : EndpointRole) :
    let l := exec (start limits) actions
    (∀ r, framesOf id (l.channel r) = []) →
      Agree ((l.endpoint r).streams id) ((l.endpoint (peer r)).streams id) := by
  intro l hq
  have hi : Inv limits l := Inv.exec h
  by_cases hz : id = 0
  · rw [hz, hi.control, hi.control]
    trivial
  have hj := hi.joint id hz
  rw [hq, hq] at hj
  rcases eq_or_eq_peer (opener id) r with rfl | rfl
  · exact hj.agree.1
  · simpa using hj.agree.2

theorem quiet_stream_agreed_openingRun : let l := exec (start .default) openingRun
    Agree ((l.endpoint .host).streams 1) ((l.endpoint .device).streams 1) :=
  quiet_stream_agreed .default openingRun (by decide +kernel) 1 .host (by decide +kernel)

/-- The frames of a stream arrive in the order of their numbers, and none is missing. -/
theorem frames_in_sequence (limits : DecodeLimits) (actions : List Action)
    (h : Along step Accepted (start limits) actions) (r : EndpointRole) (id : ℕ) :
    let l := exec (start limits) actions
    (∀ p ∈ l.channel r, p.header.sequence < u32Max) →
      (framesOf id (l.channel r)).map (·.header.sequence) =
        range' ((l.endpoint (peer r)).expected .inbound id) (framesOf id (l.channel r)).length :=
  fun hlt => ((Inv.exec h).numbered r).lane_eq_range hlt id

/-- The device resets the stream right after it has accepted it. -/
theorem frames_in_sequence_openingRun :
    let l := exec (start .default) (openingRun.take 7 ++ [.send .device ⟨.new .reset 1 1, {}⟩])
    (framesOf 1 (l.channel .device)).map (·.header.sequence) = [0, 1] :=
  frames_in_sequence .default (openingRun.take 7 ++ [.send .device ⟨.new .reset 1 1, {}⟩])
    (by decide +kernel) .device 1 (by decide +kernel)

end KindleBridge.Link
