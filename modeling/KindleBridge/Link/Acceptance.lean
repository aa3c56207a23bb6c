import KindleBridge.Link.Credit

/-! # Which deliveries are accepted

A frame that its sender's state machine allowed is refused in one situation only: a
CLOSE that reaches an initiator which has reset the stream in the meantime. Runs without
such a crossing accept every frame.
-/

namespace KindleBridge.Link

open Wire SessionState Function List

def Leaving (l : State) : Prop :=
  ∃ r, ∃ p ∈ l.channel r, p.header.command = .goAway ∨ p.header.command = .error

/-- A CLOSE and a RESET of one stream are on the way in opposite directions. -/
def Crossing (l : State) : Prop :=
  ∃ r, ∃ p ∈ l.channel r, p.header.command = .close ∧
    ∃ f ∈ l.channel (peer r), f.header.streamId = p.header.streamId ∧ f.header.command = .reset

instance : DecidablePred Leaving := fun l =>
  inferInstanceAs (Decidable (∃ r, ∃ p ∈ l.channel r, _ ∨ _))

instance : DecidablePred Crossing := fun l =>
  inferInstanceAs (Decidable (∃ r, ∃ p ∈ l.channel r, _ ∧ ∃ f ∈ l.channel (peer r), _ ∧ _))

/-- An end that is finished with a stream has a CLOSE of it coming. -/
def Doomed (l : State) : Prop :=
  ∃ r, ∃ p ∈ l.channel (peer r), p.header.command = .close ∧
    ∃ st, (l.endpoint r).streams p.header.streamId = some st ∧ st.phase.Terminal

/-- An endpoint that is not leaving: it is online exactly after both HELLOs. -/
structure Orderly (s : SessionState) : Prop where
  regular : s.config.pairingSession = false
  phase : s.phase = if s.localHello ∧ s.peerHello then .online else .helloExchange
  known : ∀ id st, s.streams id = some st → s.localHello ∧ s.peerHello

namespace Orderly

variable {s t : SessionState} {d : Direction} {p : Packet}

theorem advanceSequence {h : Header} (hs : Orderly s) :
    Orderly (SessionState.advanceSequence d h s) := by
  unfold SessionState.advanceSequence
  split_ifs
  · exact hs
  · cases d <;> exact ⟨hs.regular, hs.phase, hs.known⟩

theorem both_of_online (hs : Orderly s) (hp : s.phase = .online ∨ s.phase = .goingAway) :
    s.localHello ∧ s.peerHello := by
  have := hs.phase
  by_contra hc
  rw [if_neg hc] at this
  simp [this] at hp

theorem online (hs : Orderly s) (hb : s.localHello ∧ s.peerHello) : s.phase = .online := by
  rw [hs.phase, if_pos hb]

theorem both (hs : Orderly s) (ha : s.Applies p.header p.context d t)
    (hleave : ¬ (p.header.command = .goAway ∨ p.header.command = .error))
    (hhello : p.header.command ≠ .hello) : s.localHello ∧ s.peerHello := by
  cases ha with
  | helloOut | helloIn => contradiction
  | pairingOut _ _ hp | pairingIn _ _ hp => simp [hs.regular] at hp
  | connectionCreditOut _ _ hp | connectionCreditIn _ _ hp | ping _ _ _ hp =>
    exact hs.both_of_online hp
  | goAway _ _ hc => exact absurd (.inl hc) hleave
  | error _ _ hc => exact absurd (.inr hc) hleave
  | «open» _ _ _ hp => exact hs.both_of_online (.inl hp)
  | reject _ st _ _ hst | acceptOut st _ _ _ hst | acceptIn st _ _ _ hst | late _ st _ _ hst
  | discard st _ _ hst | dataOut st _ _ hst | dataIn st _ _ hst | creditOut st _ _ hst
  | creditIn st _ _ hst | close _ st _ _ hst | reset _ st _ _ hst => exact hs.known _ st hst

theorem applies (hs : Orderly s) (ha : s.Applies p.header p.context d t)
    (hleave : ¬ (p.header.command = .goAway ∨ p.header.command = .error)) : Orderly t := by
  by_cases hhello : p.header.command = .hello
  · obtain ⟨hr, hp, hk⟩ := hs
    cases ha <;> simp_all <;> exact ⟨hr, by simp, fun id st h => absurd h (hk id st)⟩
  · have hb := hs.both ha hleave hhello
    have hon := hs.online hb
    have hfields : t.phase = .online ∧ t.localHello ∧ t.peerHello := by
      cases ha <;> simp_all [setStream]
    refine ⟨?_, ?_, fun _ _ _ => hfields.2⟩
    · rw [config_of_applies ha]
      exact hs.regular
    · rw [if_pos hfields.2]
      exact hfields.1

end Orderly

/-- The HELLO exchange as seen from the sender of a channel. -/
structure Ready (l : State) (r : EndpointRole) : Prop where
  orderly : Orderly (l.endpoint r)
  kinds : ∀ p ∈ l.channel r, p.header.command ≠ .pairingFinish
  first : (l.endpoint (peer r)).peerHello = false →
    ∀ p ∈ (l.channel r).head?, p.header.command = .hello
  unsent : (l.endpoint r).localHello = false → l.channel r = []
  greeted : ∀ p ∈ l.channel r, p.header.command ≠ .hello → (l.endpoint r).peerHello

theorem ready_start (limits : DecodeLimits) (r : EndpointRole) : Ready (start limits) r := by
  refine ⟨⟨rfl, ?_, ?_⟩, ?_, ?_, ?_, ?_⟩ <;> simp [start, SessionState.new]

section Steps

variable {limits : DecodeLimits} {l : State} {r : EndpointRole} {p : Packet} {q : List Packet}
  {t : SessionState} {X Y : StreamState} {s : SessionState} {q' : List Packet}

theorem ready_send (hi : Inv limits l) (hr : ∀ r, Ready l r)
    (ha : (l.endpoint r).Applies p.header p.context .outbound t)
    (hleave : ¬ (p.header.command = .goAway ∨ p.header.command = .error)) (r' : EndpointRole) :
    Ready ⟨update l.endpoint r (advanceSequence .outbound p.header t),
      update l.channel r (l.channel r ++ [p])⟩ r' := by
  obtain ⟨hl, hp⟩ := hellos_of_applies ha
  have hboth := (hr r).orderly.both ha hleave
  rcases eq_or_eq_peer r r' with rfl | rfl
  · refine ⟨?_, ?_, ?_, ?_, ?_⟩
    · simpa using ((hr r').orderly.applies ha hleave).advanceSequence
    · simp only [update_self]
      refine forall_mem_concat (hr r').kinds fun hc => ?_
      have := (hr r').orderly.regular
      cases ha <;> simp_all
    · simp only [update_self, update_of_ne (peer_ne r')]
      intro hn
      have hhello := (hi.grant (peer r')).hellos
      rw [peer_peer, hn] at hhello
      have hfirst := (hr r').first hn
      cases hq : l.channel r' with
      | cons f q => simpa [hq] using hfirst
      | nil =>
        rw [hq] at hhello
        by_contra hc
        have := hboth (by simpa using hc)
        simp [this.1] at hhello
    · simp only [update_self, advanceSequence_localHello]
      intro hn
      by_cases hc : p.header.command = .hello
      · have := (sends_hello ha hc).2.1
        simp [hn] at this
      · have := hl (hboth hc).1
        simp [hn] at this
    · simp only [update_self, advanceSequence_peerHello]
      exact forall_mem_concat (fun f hf hc => hp ((hr r').greeted f hf hc)) fun hc => hp (hboth hc).2
  · obtain ⟨h1, h2, h3, h4, h5⟩ := hr (peer r)
    refine ⟨by simpa using h1, by simpa using h2, ?_, by simpa using h4, by simpa using h5⟩
    simp only [peer_peer, update_self, update_of_ne (peer_ne r), advanceSequence_peerHello] at h3 ⊢
    intro hn
    exact h3 (Bool.eq_false_of_not_eq_true (mt hp (by simp [hn])))

theorem ready_deliver (hr : ∀ r, Ready l r) (hq : l.channel (peer r) = p :: q)
    (ha : (l.endpoint r).Applies p.header p.context .inbound t)
    (hleave : ¬ (p.header.command = .goAway ∨ p.header.command = .error)) (r' : EndpointRole) :
    Ready ⟨update l.endpoint r (advanceSequence .inbound p.header t),
      update l.channel (peer r) q⟩ r' := by
  obtain ⟨hl, hp⟩ := hellos_of_applies ha
  rcases eq_or_eq_peer r r' with rfl | rfl
  · obtain ⟨h1, h2, h3, h4, h5⟩ := hr r'
    refine ⟨by simpa using (h1.applies ha hleave).advanceSequence, by simpa using h2,
      by simpa using h3, ?_, ?_⟩
    · simp only [update_self, update_of_ne (ne_peer r'), advanceSequence_localHello]
      intro hn
      exact h4 (Bool.eq_false_of_not_eq_true (mt hl (by simp [hn])))
    · simp only [update_self, update_of_ne (ne_peer r'), advanceSequence_peerHello]
      exact fun f hf hc => hp (h5 f hf hc)
  · obtain ⟨h1, h2, h3, h4, h5⟩ := hr (peer r)
    rw [hq] at h2 h3 h4 h5
    refine ⟨by simpa using h1, by simpa using (forall_mem_cons.mp h2).2, ?_, ?_,
      by simpa using (forall_mem_cons.mp h5).2⟩
    · simp only [peer_peer, update_self, advanceSequence_peerHello] at h3 ⊢
      intro hn
      by_cases hc : p.header.command = .hello
      · have := (receives_hello ha hc).2.1
        simp [hn] at this
      · exact absurd (h3 (Bool.eq_false_of_not_eq_true (mt hp (by simp [hn]))) p rfl) hc
    · simp only [update_self, update_of_ne (peer_ne r)]
      exact fun hn => absurd (h4 hn) (by simp)

theorem terminal_of_emits {X X' : StreamState} (he : Emits X p X') (ht : X'.phase.Terminal) :
    X.phase.Terminal ∨ X.phase = .accepted ∧
      (p.header.command = .reset ∨ p.header.command = .close ∧ X.initiatedByLocal = false) := by
  cases he with
  | data _ ha | credit _ ha => exact absurd ht (not_terminal_of_accepted ha)
  | late _ h => exact .inl h
  | close hc ha hi => exact .inr ⟨ha, .inr ⟨hc, hi⟩⟩
  | reset hc ha => exact .inr ⟨ha, .inl hc⟩

theorem terminal_of_absorbs {Y Y' : StreamState} (he : Absorbs Y p Y') (ht : Y'.phase.Terminal) :
    Y.phase.Terminal ∨ Y.phase = .accepted ∧ p.Ends := by
  cases he with
  | data _ ha | credit _ ha => exact absurd ht (not_terminal_of_accepted ha)
  | discard _ h | late _ h => exact .inl h
  | close hc ha hi => exact .inr ⟨ha, .inl hc⟩
  | reset hc ha => exact .inr ⟨ha, .inr hc⟩

theorem Coupled.no_close_behind
    (h : Coupled X Y (p :: q) q') (hy : Y.phase = .accepted) (hp : p.Ends) :
    ∀ f ∈ q, f.header.command ≠ .close := by
  have hx := h.there.sender.resolve_left (Coupled.sender_terminal h.there hp)
  obtain ⟨pre, e, late, he, hpre, -, hlate⟩ := h.there.ended hx hy
  cases pre with
  | nil =>
    obtain ⟨rfl, rfl⟩ := List.cons.inj he
    intro f hf hc
    rcases hlate f hf with h | h <;> simp [hc] at h
  | cons f pre =>
    obtain ⟨rfl, rfl⟩ := List.cons.inj he
    exact absurd hp (hpre _ (by simp)).not_ends

theorem accepted_of_close {d : Direction}
    (ha : s.Applies p.header p.context d t) (hc : p.header.command = .close) :
    ∃ X, s.streams p.header.streamId = some X ∧ X.phase = .accepted ∧
      d.senderIsLocal = !X.initiatedByLocal := by
  cases ha with
  | close _ st _ _ hs hacc hi => exact ⟨st, hs, hacc, hi⟩
  | _ => simp_all

theorem doomed_send (hi : Inv limits l) (hd : ¬ Doomed l)
    (ha : (l.endpoint r).Applies p.header p.context .outbound t)
    (hd' : Doomed ⟨update l.endpoint r (advanceSequence .outbound p.header t),
      update l.channel r (l.channel r ++ [p])⟩) :
    Crossing ⟨update l.endpoint r (advanceSequence .outbound p.header t),
      update l.channel r (l.channel r ++ [p])⟩ := by
  obtain ⟨r', f, hf, hc, st, hst, ht⟩ := hd'
  rcases eq_or_eq_peer r r' with rfl | rfl
  · simp only [update_of_ne (peer_ne r'), update_self, advanceSequence_streams] at hf hst
    rcases streams_of_applies ha f.header.streamId with hsame | ⟨hid, X, hX, hm⟩
    · exact absurd ⟨r', f, hf, hc, st, hsame ▸ hst, ht⟩ hd
    · obtain rfl := Option.some.inj (hX.symm.trans hst)
      generalize ho : (l.endpoint r').streams f.header.streamId = o at hm
      cases hm with
      | «open» | reject | acceptOut => simp [StreamState.opening, StreamPhase.Terminal] at ht
      | emits he =>
        rcases terminal_of_emits he ht with h | ⟨hacc, hcr | ⟨_, hrem⟩⟩
        · exact absurd ⟨r', f, hf, hc, _, ho, h⟩ hd
        · exact ⟨peer r', f, by simpa using hf, hc, p, by simp, hid, hcr⟩
        · obtain ⟨Y, -, hloc, hco⟩ := hi.coupled_of_mem hf ho (.inl hacc)
          refine absurd hc (hco.there.noClose (by simp [hloc, hrem]) f ?_)
          simp [framesOf, hf]
  · simp only [peer_peer, update_of_ne (peer_ne r), update_self,
      mem_append, mem_singleton] at hf hst
    rcases hf with hf | rfl
    · exact absurd ⟨peer r, f, by simpa using hf, hc, st, hst, ht⟩ hd
    · -- The CLOSE is the frame sent now: the RESET of its receiver is still on the way.
      obtain ⟨X, hX, hacc, hrem⟩ := accepted_of_close ha hc
      obtain ⟨hi', hco⟩ := hi.coupled_of_responder hX
        (by simpa [Direction.senderIsLocal] using hrem) hst (.inr ht)
      obtain ⟨pre, e, late, he, -, hends, -⟩ := hco.there.ended ht hacc
      have hmem : e ∈ framesOf f.header.streamId (l.channel (peer r)) := by simp [he]
      obtain ⟨hmem', hid⟩ := by simpa [framesOf] using hmem
      have hreset := hends.resolve_left (hco.there.noClose hi' e hmem)
      exact ⟨r, f, by simp, hc, e, by simpa using hmem', hid, hreset⟩

theorem doomed_deliver (hi : Inv limits l) (hd : ¬ Doomed l) (hq : l.channel (peer r) = p :: q)
    (ha : (l.endpoint r).Applies p.header p.context .inbound t) :
    ¬ Doomed ⟨update l.endpoint r (advanceSequence .inbound p.header t),
      update l.channel (peer r) q⟩ := by
  rintro ⟨r', f, hf, hc, st, hst, ht⟩
  rcases eq_or_eq_peer r r' with rfl | rfl
  · simp only [update_self, advanceSequence_streams] at hf hst
    have hf' : f ∈ l.channel (peer r') := by simp [hq, hf]
    rcases streams_of_applies ha f.header.streamId with hsame | ⟨hid, X, hX, hm⟩
    · exact hd ⟨r', f, hf', hc, st, hsame ▸ hst, ht⟩
    · obtain rfl := Option.some.inj (hX.symm.trans hst)
      generalize ho : (l.endpoint r').streams f.header.streamId = o at hm
      cases hm with
      | «open» | reject | acceptIn => simp [StreamState.opening, StreamPhase.Terminal] at ht
      | absorbs he =>
        rcases terminal_of_absorbs he ht with h | ⟨hacc, hends⟩
        · exact hd ⟨r', f, hf', hc, _, ho, h⟩
        · obtain ⟨Y, -, -, hco⟩ := hi.coupled_of_mem (p := p) (by simp [hq]) (hid ▸ ho) (.inl hacc)
          rw [hq, framesOf_cons, if_pos rfl] at hco
          exact hco.no_close_behind hacc hends f (by simp [framesOf, hf, hid]) hc
  · simp only [peer_peer, update_of_ne (ne_peer r), update_of_ne (peer_ne r)] at hf hst
    exact hd ⟨peer r, f, by simpa using hf, hc, st, hst, ht⟩

theorem Coupled.applies_head (h : Coupled X Y (p :: q) q') (hz : p.header.streamId ≠ 0)
    (hs : s.streams p.header.streamId = some Y)
    (hloc : X.initiatedByLocal = !Y.initiatedByLocal) (hshort : ¬ Short p.header s)
    (hclose : p.header.command = .close → ¬ Y.phase.Terminal) :
    ∃ t, s.Applies p.header p.context .inbound t := by
  have hy := h.back.sender
  rcases h.there.kinds p (by simp) with (hc | hc) | (hc | hc)
  · have hconn : p.header.payloadLength ≤ s.connectionReceiveCredit := by
      by_contra! hlt
      exact hshort (.connection hc hlt)
    have hstream : p.header.payloadLength ≤ Y.receiveCredit := by
      by_contra! hlt
      exact hshort (.stream Y hc hs hy hlt)
    rcases hy with hacc | hterm
    · have hend : Y.peerEndStream = false := by
        by_contra hc'
        exact h.there.done hacc (by simpa using hc') p (by simp) hc
      exact ⟨_, .dataIn Y hz hc hs hacc hend hstream hconn⟩
    · exact ⟨_, .discard Y hz hc hs hterm hstream hconn⟩
  · rcases hy with hacc | hterm
    · by_cases hle : Y.sendCredit + p.header.creditDelta ≤ u32Max ∧
          Y.sendCredit + p.header.creditDelta ≤ Y.sendLimit
      · exact ⟨_, .creditIn Y hz hc hs hacc hle.1 hle.2⟩
      · exact absurd (.streamCredit Y hc hs hacc (by omega)) hshort
    · exact ⟨_, .late _ Y hz (.inl hc) hs hterm⟩
  · have hacc := hy.resolve_right (hclose hc)
    have hX : X.initiatedByLocal = false := by
      by_contra hc'
      exact h.there.noClose (by simpa using hc') p (by simp) hc
    exact ⟨_, .close _ Y hz hc hs hacc (by simp [Direction.senderIsLocal, ← hloc, hX])⟩
  · rcases hy with hacc | hterm
    · exact ⟨_, .reset _ Y hz hc hs hacc⟩
    · exact ⟨_, .late _ Y hz (.inr hc) hs hterm⟩

theorem online_of_head (hi : Inv limits l) (hr : ∀ r, Ready l r)
    (hq : l.channel (peer r) = p :: q) (hc : p.header.command ≠ .hello) :
    (l.endpoint r).phase = .online := by
  have hpeer : (l.endpoint r).peerHello = true := by
    by_contra hn
    have hfirst := (hr (peer r)).first (by simpa using hn)
    exact hc (hfirst p (by simp [hq]))
  have hgreet := (hr (peer r)).greeted p (by simp [hq]) hc
  have hhello := (hi.grant (peer r)).hellos
  rw [peer_peer, hgreet] at hhello
  have hlocal : (l.endpoint r).localHello = true := by
    by_contra hn
    simp [show (l.endpoint r).localHello = false by simpa using hn] at hhello
  exact (hr r).orderly.online ⟨hlocal, hpeer⟩

theorem expectedOdd_inbound {id : ℕ} (hi : Inv limits l) (hr : r = peer (opener id)) :
    decide (id % 2 = 1) = (l.endpoint r).expectedOdd .inbound := by
  unfold opener at hr
  rw [expectedOdd, hi.config r]
  split_ifs at hr with h <;> subst hr <;> simp [h, peer, SessionConfig.new,
    EndpointRole.localStreamsAreOdd]

theorem applies_head (hi : Inv limits l) (hr : ∀ r, Ready l r) (hl : ¬ Leaving l)
    (hq : l.channel (peer r) = p :: q) (hclose : p.header.command = .close →
      ∀ st, (l.endpoint r).streams p.header.streamId = some st → ¬ st.phase.Terminal) :
    ∃ t, (l.endpoint r).Applies p.header p.context .inbound t := by
  have hmem : p ∈ l.channel (peer r) := by simp [hq]
  have hshort := hi.not_short hq
  have hsound := hi.sound _ p hmem
  have honline := online_of_head hi hr hq
  by_cases hz : p.header.streamId = 0
  · have hzero := hsound.valid.streamZero hz
    cases hc : p.header.command <;> simp only [hc, Command.allowsStreamZero] at hzero <;>
      try contradiction
    case hello =>
      have hhello := (hi.grant r).hellos
      rw [hq, countP_cons_of_pos (by simp [Packet.Greets, hc])] at hhello
      have hn : (l.endpoint r).peerHello = false := by
        by_contra hn
        rw [show (l.endpoint r).peerHello = true by simpa using hn] at hhello
        have := Bool.toNat_le (l.endpoint (peer r)).localHello
        simp at hhello
        omega
      have hphase := (hr r).orderly.phase
      rw [hn, if_neg (by simp)] at hphase
      exact ⟨_, .helloIn _ hz hc hphase ((hi.grant r).window p hmem hc) hn⟩
    case pairingFinish => exact absurd hc ((hr _).kinds p hmem)
    case credit =>
      have hon : (l.endpoint r).phase = .online ∨ (l.endpoint r).phase = .goingAway :=
        .inl (honline (by simp [hc]))
      by_cases hle : (l.endpoint r).connectionSendCredit + p.header.creditDelta ≤ u32Max ∧
          (l.endpoint r).connectionSendCredit + p.header.creditDelta ≤
            (l.endpoint r).connectionSendLimit
      · exact ⟨_, .connectionCreditIn hz hc hon hle.1 hle.2⟩
      · exact absurd (.connectionCredit hz hc hon (by omega)) hshort
    case ping => exact ⟨_, .ping _ hz (.inl hc) (.inl (honline (by simp [hc])))⟩
    case pong => exact ⟨_, .ping _ hz (.inr hc) (.inl (honline (by simp [hc])))⟩
    case goAway => exact absurd ⟨_, p, hmem, .inl hc⟩ hl
    case error => exact absurd ⟨_, p, hmem, .inr hc⟩ hl
  · have hj := hi.joint _ hz
    rcases eq_or_eq_peer (opener p.header.streamId) r with hrole | hrole
    · rw [← hrole, hq, framesOf_cons, if_pos rfl] at hj
      generalize hs : (l.endpoint r).streams p.header.streamId = o at hj
      generalize (l.endpoint (peer r)).streams p.header.streamId = o' at hj
      generalize framesOf p.header.streamId (l.channel r) = q₁ at hj
      generalize framesOf p.header.streamId q = q₂ at hj
      cases hj with
      | rejecting hc => exact ⟨_, .reject _ _ hz hc hs rfl rfl⟩
      | accepting hc hw => exact ⟨_, .acceptIn _ _ hz hc hs rfl rfl hw⟩
      | live hI hR hco =>
        exact hco.symm.applies_head hz hs (by simp [hI, hR]) hshort fun hc => hclose hc _ hs
    · have hchan : l.channel (opener p.header.streamId) = p :: q := by
        rw [← hq, hrole, peer_peer]
      rw [hchan, framesOf_cons, if_pos rfl, ← hrole] at hj
      generalize hs : (l.endpoint r).streams p.header.streamId = o at hj
      generalize (l.endpoint (opener p.header.streamId)).streams p.header.streamId = o' at hj
      generalize framesOf p.header.streamId (l.channel r) = q₁ at hj
      generalize framesOf p.header.streamId q = q₂ at hj
      cases hj with
      | opening hc =>
        exact ⟨_, .open _ hz hc (honline (by simp [hc])) (expectedOdd_inbound hi hrole) hs⟩
      | live hI hR hco =>
        exact hco.applies_head hz hs (by simp [hI, hR]) hshort fun hc => hclose hc _ hs

/--
The exact set of refused frames: in a state reached without GOAWAY, ERROR or a refused
delivery, the next frame is accepted unless it is a CLOSE for a stream that its receiver
has finished.
-/
theorem deliver_accepted_iff (hi : Inv limits l) (hr : ∀ r, Ready l r) (hl : ¬ Leaving l)
    (hq : l.channel (peer r) = p :: q) :
    outcome l (.deliver r) = .ok () ↔ ¬ (p.header.command = .close ∧
      ∃ st, (l.endpoint r).streams p.header.streamId = some st ∧ st.phase.Terminal) := by
  constructor
  · rintro hok ⟨hc, st, hs, hterm⟩
    obtain ⟨-, t, ha, -⟩ := step_deliver hq hok
    obtain ⟨st', hs', hacc, -⟩ := accepted_of_close ha hc
    obtain rfl := Option.some.inj (hs.symm.trans hs')
    exact not_terminal_of_accepted hacc hterm
  · intro hclose
    obtain ⟨t, ha⟩ := applies_head hi hr hl hq fun hc st hs hterm => hclose ⟨hc, st, hs, hterm⟩
    have hsound := hi.sound (peer r) p (by simp [hq])
    have hnum := hi.numbered (peer r)
    rw [hq, peer_peer] at hnum
    have hphase := (hr r).orderly.phase
    have hadm : (l.endpoint r).Admitted .inbound p.header p.context := by
      refine ⟨by rw [hi.limits_eq]; exact hsound.valid, ?_, ?_, hnum.1, hsound.last⟩
      · rw [← hsound.context]
        exact validateContext_congr (hi.limits_eq r)
      · rw [hphase]
        split_ifs <;> decide
    rw [outcome_deliver_cons hq, processInbound, process_ok_iff.mpr ⟨hadm, t, ha, rfl⟩]

end Steps

/--
Every frame is accepted in the runs in which nobody leaves and a CLOSE never crosses the
RESET of its stream.
-/
theorem deliveries_accepted (limits : DecodeLimits) (actions : List Action)
    (h : Along step (fun l _ => ¬ Leaving l ∧ ¬ Crossing l) (start limits) actions) :
    Along step Accepted (start limits) actions := by
  refine h.of_invariant (I := fun l => Inv limits l ∧ ((∀ r, Ready l r) ∨ Leaving l) ∧
    (¬ Doomed l ∨ Crossing l)) ?_ ?_
  · refine ⟨inv_start limits, .inl (ready_start limits), .inl ?_⟩
    rintro ⟨r, p, hp, -⟩
    simp [start] at hp
  · rintro l a ⟨hi, hr, hd⟩ ⟨hleave, hcross⟩
    have hr := hr.resolve_right hleave
    have hd := hd.resolve_right hcross
    cases a with
    | send r p =>
      refine ⟨trivial, hi.step trivial, ?_⟩
      rcases step_send (l := l) (r := r) (p := p) with hstep | ⟨hadm, t, ha, hstep⟩
      · rw [hstep]
        exact ⟨.inl hr, .inl hd⟩
      · rw [hstep]
        constructor
        · by_cases hc : p.header.command = .goAway ∨ p.header.command = .error
          · exact .inr ⟨r, p, by simp, hc⟩
          · exact .inl (ready_send hi hr ha hc)
        · exact or_iff_not_imp_left.mpr fun hd' => doomed_send hi hd ha (not_not.mp hd')
    | deliver r =>
      cases hq : l.channel (peer r) with
      | nil =>
        have hstep : step l (.deliver r) = l := by simp [step, hq]
        rw [hstep]
        exact ⟨by simp [Accepted, outcome, hq], hi, .inl hr, .inl hd⟩
      | cons p q =>
        have hmem : p ∈ l.channel (peer r) := by simp [hq]
        have hok : outcome l (.deliver r) = .ok () :=
          (deliver_accepted_iff hi hr hleave hq).mpr fun hc => hd ⟨r, p, hmem, hc⟩
        obtain ⟨hadm, t, ha, hstep⟩ := step_deliver hq hok
        refine ⟨hok, hi.step hok, ?_⟩
        rw [hstep]
        exact ⟨.inl (ready_deliver hr hq ha fun hc => hleave ⟨_, p, hmem, hc⟩),
          .inl (doomed_deliver hi hd hq ha)⟩

theorem deliveries_accepted_openingRun :
    Along step (fun l _ => ¬ Leaving l ∧ ¬ Crossing l) (start .default) openingRun ∧
      Along step Accepted (start .default) openingRun :=
  have h : Along step (fun l _ => ¬ Leaving l ∧ ¬ Crossing l) (start .default) openingRun := by
    decide +kernel
  ⟨h, deliveries_accepted .default openingRun h⟩

/-- The host resets the stream while the device closes it; every frame sent is allowed. -/
theorem close_refused_after_reset : let actions := openingRun ++
      [.send .host ⟨.new .reset 1 1, {}⟩, .send .device ⟨.new .close 1 1, {}⟩]
    Along step (fun l a => outcome l a = .ok () ∧ ¬ Leaving l) (start .default) actions ∧
      outcome (exec (start .default) actions) (.deliver .host) =
        .error (.streamNotAccepted 1) := by
  decide +kernel

/-! A crossing is fatal: its CLOSE is never accepted. -/

/-- A CLOSE is on the way to an end that is finished with its stream. -/
def Dooms (l : State) (r : EndpointRole) (p : Packet) : Prop :=
  p ∈ l.channel r ∧ p.header.command = .close ∧
    ∃ st, (l.endpoint (peer r)).streams p.header.streamId = some st ∧ st.phase.Terminal

theorem dooms_of_crossing {limits : DecodeLimits} {l : State} (hi : Inv limits l)
    {r : EndpointRole} {p f : Packet} (hp : p ∈ l.channel r) (hclose : p.header.command = .close)
    (hf : f ∈ l.channel (peer r)) (hid : f.header.streamId = p.header.streamId)
    (hreset : f.header.command = .reset) : Dooms l r p := by
  have hz : p.header.streamId ≠ 0 := by
    intro h0
    have := (hi.sound r p hp).valid.streamZero h0
    simp [hclose, Command.allowsStreamZero] at this
  have hpm : p ∈ framesOf p.header.streamId (l.channel r) := by simp [framesOf, hp]
  have hfm : f ∈ framesOf p.header.streamId (l.channel (peer r)) := by simp [framesOf, hf, hid]
  have hends : f.Ends := .inr hreset
  have hj := hi.joint _ hz
  refine ⟨hp, hclose, ?_⟩
  generalize p.header.streamId = id at *
  rcases eq_or_eq_peer (opener id) r with rfl | rfl
  · obtain ⟨X, Y, hX, hY, hco⟩ := hj.coupled_of_ne_nil (ne_nil_of_mem hpm) (ne_nil_of_mem hfm)
    refine ⟨Y, hY, hco.back.sender.resolve_left fun hacc => ?_⟩
    exact (hco.back.live hacc f hfm).not_ends hends
  · rw [peer_peer] at hfm ⊢
    obtain ⟨X, Y, hX, hY, hco⟩ := hj.coupled_of_ne_nil (ne_nil_of_mem hfm) (ne_nil_of_mem hpm)
    refine ⟨X, hX, hco.there.sender.resolve_left fun hacc => ?_⟩
    exact (hco.there.live hacc f hfm).not_ends hends

theorem Dooms.step {l : State} {r' : EndpointRole} {f : Packet} {a : Action} (hd : Dooms l r' f)
    (hok : Accepted l a) : Dooms (Link.step l a) r' f := by
  have ⟨hf, hc, st, hs, ht⟩ := hd
  cases a with
  | send r p =>
    rcases step_send (l := l) (r := r) (p := p) with hstep | ⟨-, t, ha, hstep⟩
    · rwa [hstep]
    · rw [hstep]
      rcases eq_or_eq_peer r r' with rfl | rfl
      · exact ⟨by simp [hf], hc, st, by simpa using hs, ht⟩
      · rw [peer_peer] at hs
        obtain ⟨st', hs', ht'⟩ := finished_of_applies ha ⟨st, hs, ht⟩
        exact ⟨by simpa using hf, hc, st', by simpa using hs', ht'⟩
  | deliver r =>
    cases hq : l.channel (peer r) with
    | nil =>
      have hstep : Link.step l (.deliver r) = l := by simp [Link.step, hq]
      rwa [hstep]
    | cons p q =>
      obtain ⟨-, t, ha, hstep⟩ := step_deliver hq hok
      rw [hstep]
      rcases eq_or_eq_peer r r' with rfl | rfl
      · exact ⟨by simpa using hf, hc, st, by simpa using hs, ht⟩
      · rw [peer_peer] at hs
        rw [hq, mem_cons] at hf
        rcases hf with rfl | hf
        · obtain ⟨st', hs', hacc, -⟩ := accepted_of_close ha hc
          obtain rfl := Option.some.inj (hs.symm.trans hs')
          exact absurd ht (not_terminal_of_accepted hacc)
        · obtain ⟨st', hs', ht'⟩ := finished_of_applies ha ⟨st, hs, ht⟩
          exact ⟨by simpa using hf, hc, st', by simpa using hs', ht'⟩

/-- As long as deliveries are accepted, the CLOSE of a crossing stays on its way. -/
theorem close_stays_of_crossing (limits : DecodeLimits) (before after : List Action)
    (h : Along step Accepted (start limits) (before ++ after)) (r : EndpointRole) (p f : Packet) :
    let l := exec (start limits) before
    p ∈ l.channel r → p.header.command = .close → f ∈ l.channel (peer r) →
      f.header.streamId = p.header.streamId → f.header.command = .reset →
      p ∈ (exec (start limits) (before ++ after)).channel r := by
  intro l hp hclose hf hid hreset
  obtain ⟨h1, h2⟩ := Along.append.mp h
  have hd : Dooms (exec l after) r p :=
    h2.foldl (dooms_of_crossing (Inv.exec h1) hp hclose hf hid hreset) fun _ _ => Dooms.step
  simpa [l, exec, foldl_append] using hd.1

/-- The stream is reset at one end and closed at the other, and the RESET has arrived. -/
theorem close_stays_of_crossing_reset : let before := openingRun ++
      [.send .host ⟨.new .reset 1 1, {}⟩, .send .device ⟨.new .close 1 1, {}⟩]
    ⟨.new .close 1 1, {}⟩ ∈
      (exec (start .default) (before ++ [.deliver .device])).channel .device :=
  close_stays_of_crossing .default _ _ (by decide +kernel) .device _ ⟨.new .reset 1 1, {}⟩
    (by decide +kernel) rfl (by decide +kernel) rfl rfl

end KindleBridge.Link
