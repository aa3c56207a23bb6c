import KindleBridge.Link.System

/-! # One stream between its two ends

Everything that holds of one stream across the link: the records of the two ends and
the frames of the stream that are still on the way. `Flow` describes one direction of
a stream that both ends have accepted, `Joint` every situation of a stream.
-/

namespace KindleBridge.Link

open Wire List Packet

def dataBytes (q : List Packet) : ℕ := (q.map Packet.dataLength).sum

/-- The credit granted by the frames in front of the first CLOSE or RESET. -/
def liveCredit : List Packet → ℕ
  | [] => 0
  | p :: q => if p.Ends then 0 else p.creditDelta + liveCredit q

@[simp] theorem dataBytes_nil : dataBytes [] = 0 := rfl
@[simp] theorem dataBytes_cons (p : Packet) (q : List Packet) :
    dataBytes (p :: q) = p.dataLength + dataBytes q := by simp [dataBytes]
@[simp] theorem dataBytes_append (q q' : List Packet) :
    dataBytes (q ++ q') = dataBytes q + dataBytes q' := by simp [dataBytes]
@[simp] theorem liveCredit_nil : liveCredit [] = 0 := rfl

variable {q : List Packet} {p : Packet}

theorem liveCredit_cons_of_ends (h : p.Ends) : liveCredit (p :: q) = 0 := by simp [liveCredit, h]

theorem liveCredit_cons_of_live (h : p.Live) :
    liveCredit (p :: q) = p.creditDelta + liveCredit q := by simp [liveCredit, h.not_ends]

theorem liveCredit_append_of_live (q' : List Packet) (h : ∀ p ∈ q, p.Live) :
    liveCredit (q ++ q') = liveCredit q + liveCredit q' := by
  induction q with
  | nil => simp
  | cons p q ih =>
    have hp := h p (by simp)
    rw [cons_append, liveCredit_cons_of_live hp, liveCredit_cons_of_live hp,
      ih fun p' hp' => h p' (by simp [hp'])]
    omega

theorem liveCredit_append_of_ends {pre late : List Packet} {t : Packet} (q' : List Packet)
    (ht : t.Ends) : liveCredit ((pre ++ t :: late) ++ q') = liveCredit (pre ++ t :: late) := by
  induction pre with
  | nil => simp [liveCredit, ht]
  | cons p pre ih =>
    simp only [cons_append, liveCredit] at ih ⊢
    split_ifs
    · rfl
    · rw [ih]

theorem liveCredit_eq_sum (h : ∀ p ∈ q, ¬ p.Ends) : liveCredit q = (q.map creditDelta).sum := by
  induction q with
  | nil => rfl
  | cons p q ih =>
    rw [liveCredit, if_neg (h p (by simp)), ih fun p' hp' => h p' (by simp [hp'])]
    simp

/--
One direction of an accepted stream: the sender's record, the receiver's, the frames
towards the receiver, and the frames towards the sender.
-/
structure Flow (X Y : StreamState) (q q' : List Packet) : Prop where
  sender : X.phase = .accepted ∨ X.phase.Terminal
  live : X.phase = .accepted → ∀ p ∈ q, p.Live
  ended : X.phase.Terminal → Y.phase = .accepted →
    ∃ pre t late, q = pre ++ t :: late ∧ (∀ p ∈ pre, p.Live) ∧ t.Ends ∧ ∀ p ∈ late, p.Late
  kinds : ∀ p ∈ q, p.Live ∨ p.Ends
  noClose : X.initiatedByLocal → ∀ p ∈ q, p.header.command ≠ .close
  credit : X.phase = .accepted → X.sendCredit + dataBytes q + liveCredit q' = Y.receiveCredit
  spent : dataBytes q ≤ Y.receiveCredit
  bound : Y.receiveCredit ≤ Y.receiveLimit
  fresh : Y.phase = .accepted → X.localEndStream = false →
    Y.peerEndStream = false ∧ ∀ p ∈ q, ¬ p.Finishes
  order : Y.phase = .accepted → q.Pairwise fun p p' => p.Finishes → p'.header.command ≠ .data
  done : Y.phase = .accepted → Y.peerEndStream → ∀ p ∈ q, p.header.command ≠ .data

theorem forall_mem_concat {P : Packet → Prop}
    (h : ∀ p' ∈ q, P p') (hp : P p) : ∀ p' ∈ q ++ [p], P p' :=
  forall_mem_append.mpr ⟨h, forall_mem_singleton.mpr hp⟩

namespace Flow

variable {X Y : StreamState} {q' : List Packet} {Y' : StreamState}

/-! The other direction sees a frame only through the credit that is on the way back to its
sender, so the record of one end may change as long as the balance does not. -/

section
variable (h : Flow X Y q q') {X' : StreamState} {r : List Packet}
include h

theorem receiver (hphase : Y'.phase = .accepted → Y.phase = .accepted)
    (hend : Y'.phase = .accepted → Y'.peerEndStream = Y.peerEndStream)
    (hcredit : X.phase = .accepted → X.sendCredit + dataBytes q + liveCredit r = Y'.receiveCredit)
    (hle : Y.receiveCredit ≤ Y'.receiveCredit) (hbound : Y'.receiveCredit ≤ Y'.receiveLimit) :
    Flow X Y' q r where
  sender := h.sender
  live := h.live
  ended ht hy := h.ended ht (hphase hy)
  kinds := h.kinds
  noClose := h.noClose
  credit := hcredit
  spent := h.spent.trans hle
  bound := hbound
  fresh hy hf := ⟨hend hy ▸ (h.fresh (hphase hy) hf).1, (h.fresh (hphase hy) hf).2⟩
  order hy := h.order (hphase hy)
  done hy hd := h.done (hphase hy) (hend hy ▸ hd)

theorem sender_update (hphase : X'.phase = X.phase) (hi : X'.initiatedByLocal = X.initiatedByLocal)
    (hend : X'.localEndStream = X.localEndStream) (hcredit : X.phase = .accepted →
      X'.sendCredit + dataBytes q + liveCredit r = Y.receiveCredit) : Flow X' Y q r where
  sender := hphase ▸ h.sender
  live ha := h.live (hphase ▸ ha)
  ended ht := h.ended (hphase ▸ ht)
  kinds := h.kinds
  noClose hx := h.noClose (hi ▸ hx)
  credit ha := hcredit (hphase ▸ ha)
  spent := h.spent
  bound := h.bound
  fresh hy hf := h.fresh hy (hend ▸ hf)
  order := h.order
  done := h.done

/-! Sending. -/

theorem sendData (ha : X.phase = .accepted) (hp : p.header.command = .data)
    (he : X.localEndStream = false) (hl : p.header.payloadLength ≤ X.sendCredit) :
    Flow { X with sendCredit := X.sendCredit - p.header.payloadLength,
                  localEndStream := p.header.endStream } Y (q ++ [p]) q' where
  sender := h.sender
  live _ := forall_mem_concat (h.live ha) (.inl hp)
  ended ht := absurd ht (not_terminal_of_accepted ha)
  kinds := forall_mem_concat h.kinds (.inl (.inl hp))
  noClose hi := forall_mem_concat (h.noClose hi) (by simp [hp])
  credit _ := by have := h.credit ha; simp [dataLength, hp]; omega
  spent := by have := h.credit ha; simp [dataLength, hp]; omega
  bound := h.bound
  fresh hy hf := ⟨(h.fresh hy he).1,
    forall_mem_concat (h.fresh hy he).2 fun hfin => by
      simpa [show p.header.endStream = false from hf] using hfin.2⟩
  order hy := pairwise_append.mpr
    ⟨h.order hy, by simp, fun a hm _ _ hfin => absurd hfin ((h.fresh hy he).2 a hm)⟩
  done hy hd := by simp [(h.fresh hy he).1] at hd

theorem sendCredit (ha : X.phase = .accepted) (hp : p.header.command = .credit) (n : ℕ) :
    Flow { X with receiveCredit := n } Y (q ++ [p]) q' where
  sender := h.sender
  live _ := forall_mem_concat (h.live ha) (.inr hp)
  ended ht := absurd ht (not_terminal_of_accepted ha)
  kinds := forall_mem_concat h.kinds (.inl (.inr hp))
  noClose hi := forall_mem_concat (h.noClose hi) (by simp [hp])
  credit _ := by have := h.credit ha; simp [dataLength, hp]; omega
  spent := by have := h.spent; simpa [dataLength, hp] using this
  bound := h.bound
  fresh hy he := ⟨(h.fresh hy he).1,
    forall_mem_concat (h.fresh hy he).2 fun hfin => by simp [Packet.Finishes, hp] at hfin⟩
  order hy := pairwise_append.mpr ⟨h.order hy, by simp, by simp [hp]⟩
  done hy hd := forall_mem_concat (h.done hy hd) (by simp [hp])

theorem sendLate (ht : X.phase.Terminal) (hp : p.Late) : Flow X Y (q ++ [p]) q' where
  sender := h.sender
  live ha := absurd ht (not_terminal_of_accepted ha)
  ended _ hy := by
    obtain ⟨pre, t, late, rfl, h1, h2, h3⟩ := h.ended ht hy
    exact ⟨pre, t, late ++ [p], by simp, h1, h2, forall_mem_concat h3 hp⟩
  kinds := forall_mem_concat h.kinds (by rcases hp with hp | hp <;> simp [Packet.Live, Packet.Ends, hp])
  noClose hi := forall_mem_concat (h.noClose hi) (by rcases hp with hp | hp <;> simp [hp])
  credit ha := absurd ht (not_terminal_of_accepted ha)
  spent := by have := h.spent; simpa [hp.dataLength] using this
  bound := h.bound
  fresh hy he := ⟨(h.fresh hy he).1, forall_mem_concat (h.fresh hy he).2 fun hfin => by
    rcases hp with hp | hp <;> simp [Packet.Finishes, hp] at hfin⟩
  order hy := pairwise_append.mpr ⟨h.order hy, by simp, by
    rcases hp with hp | hp <;> simp [hp]⟩
  done hy hd := forall_mem_concat (h.done hy hd) (by rcases hp with hp | hp <;> simp [hp])

theorem sendEnd (ha : X.phase = .accepted) (hp : p.Ends)
    (hi : X.initiatedByLocal → p.header.command ≠ .close)
    (ht : X'.phase.Terminal) (hi' : X'.initiatedByLocal = X.initiatedByLocal)
    (he : X'.localEndStream = false → X.localEndStream = false) : Flow X' Y (q ++ [p]) q' where
  sender := .inr ht
  live ha := absurd ht (not_terminal_of_accepted ha)
  ended _ _ := ⟨q, p, [], rfl, h.live ha, hp, by simp⟩
  kinds := forall_mem_concat h.kinds (.inr hp)
  noClose hx := forall_mem_concat (h.noClose (hi' ▸ hx)) (hi (hi' ▸ hx))
  credit ha := absurd ht (not_terminal_of_accepted ha)
  spent := by have := h.spent; simpa [hp.dataLength] using this
  bound := h.bound
  fresh hy hf := ⟨(h.fresh hy (he hf)).1, forall_mem_concat (h.fresh hy (he hf)).2 fun hfin => by
    rcases hp with hp | hp <;> simp [Packet.Finishes, hp] at hfin⟩
  order hy := pairwise_append.mpr ⟨h.order hy, by simp, by
    rcases hp with hp | hp <;> simp [hp]⟩
  done hy hd := forall_mem_concat (h.done hy hd) (by rcases hp with hp | hp <;> simp [hp])

end

/-! Receiving: the frame at the head of the direction leaves it. -/

theorem receiveData (h : Flow X Y (p :: q) q') (hp : p.header.command = .data)
    (hphase : Y'.phase = Y.phase) (hr : Y'.receiveCredit = Y.receiveCredit - p.header.payloadLength)
    (hl : Y'.receiveLimit = Y.receiveLimit)
    (he : Y.phase = .accepted → Y'.peerEndStream = p.header.endStream) : Flow X Y' q q' := by
  have hlen : p.dataLength = p.header.payloadLength := by simp [dataLength, hp]
  have hs := h.spent
  rw [dataBytes_cons, hlen] at hs
  refine ⟨h.sender, fun ha => (forall_mem_cons.mp (h.live ha)).2, ?_,
    (forall_mem_cons.mp h.kinds).2, fun hi => (forall_mem_cons.mp (h.noClose hi)).2,
    ?_, by omega, by rw [hr, hl]; have := h.bound; omega, ?_, ?_, ?_⟩
  · intro ht hy
    obtain ⟨pre, t, late, he, h1, h2, h3⟩ := h.ended ht (hphase ▸ hy)
    cases pre with
    | nil =>
      obtain ⟨rfl, rfl⟩ := List.cons.inj he
      rcases h2 with h2 | h2 <;> simp [hp] at h2
    | cons p' pre =>
      obtain ⟨rfl, rfl⟩ := List.cons.inj he
      exact ⟨pre, t, late, rfl, (forall_mem_cons.mp h1).2, h2, h3⟩
  · intro ha
    have := h.credit ha
    rw [dataBytes_cons, hlen] at this
    omega
  · intro hy hf
    obtain ⟨_, h2⟩ := h.fresh (hphase ▸ hy) hf
    obtain ⟨h3, h4⟩ := forall_mem_cons.mp h2
    refine ⟨?_, h4⟩
    rw [he (hphase ▸ hy)]
    by_contra hc
    exact h3 ⟨hp, by simpa using hc⟩
  · intro hy; exact (pairwise_cons.mp (h.order (hphase ▸ hy))).2
  · intro hy hd p' hp'
    rw [he (hphase ▸ hy)] at hd
    exact (pairwise_cons.mp (h.order (hphase ▸ hy))).1 p' hp' ⟨hp, hd⟩

theorem tail (h : Flow X Y (p :: q) q') (hp : p.header.command ≠ .data)
    (hr : Y'.receiveCredit = Y.receiveCredit) (hl : Y'.receiveLimit = Y.receiveLimit)
    (hphase : Y'.phase = .accepted → Y.phase = .accepted) (hend : ¬ p.Ends ∨ Y'.phase ≠ .accepted)
    (he : Y'.phase = .accepted → Y'.peerEndStream = Y.peerEndStream) : Flow X Y' q q' where
  sender := h.sender
  live ha := (forall_mem_cons.mp (h.live ha)).2
  ended ht hy := by
    obtain ⟨pre, t, late, he, h1, h2, h3⟩ := h.ended ht (hphase hy)
    cases pre with
    | nil =>
      obtain ⟨rfl, rfl⟩ := List.cons.inj he
      exact absurd hy (hend.resolve_left fun hn => hn h2)
    | cons p' pre =>
      obtain ⟨rfl, rfl⟩ := List.cons.inj he
      exact ⟨pre, t, late, rfl, (forall_mem_cons.mp h1).2, h2, h3⟩
  kinds := (forall_mem_cons.mp h.kinds).2
  noClose hi := (forall_mem_cons.mp (h.noClose hi)).2
  credit ha := by
    have := h.credit ha
    simp only [dataBytes_cons, dataLength, if_neg hp] at this
    omega
  spent := by
    have := h.spent
    simp only [dataBytes_cons, dataLength, if_neg hp] at this
    omega
  bound := by rw [hr, hl]; exact h.bound
  fresh hy hf := by
    obtain ⟨h1, h2⟩ := h.fresh (hphase hy) hf
    exact ⟨he hy ▸ h1, (forall_mem_cons.mp h2).2⟩
  order hy := (pairwise_cons.mp (h.order (hphase hy))).2
  done hy hd := (forall_mem_cons.mp (h.done (hphase hy) (he hy ▸ hd))).2

theorem receiveEnd_back (h : Flow Y X q' (p :: q)) (hx : X.phase ≠ .accepted)
    (ht : Y'.phase.Terminal)
    (hi : Y'.initiatedByLocal = Y.initiatedByLocal) : Flow Y' X q' q where
  sender := .inr ht
  live ha := absurd ht (not_terminal_of_accepted ha)
  ended _ hx' := absurd hx' hx
  kinds := h.kinds
  noClose hy := h.noClose (hi ▸ hy)
  credit ha := absurd ht (not_terminal_of_accepted ha)
  spent := h.spent
  bound := h.bound
  fresh hx' := absurd hx' hx
  order hx' := absurd hx' hx
  done hx' := absurd hx' hx

end Flow

end KindleBridge.Link
