import KindleBridge.Link.Flow

/-! # The situations of one stream

`Moves` is the effect of a frame on the record of its stream at one end. `Joint` lists
the situations that the two records and the frames between them can be in, from the
idle stream to the accepted one, and every move leads from one situation to another.
-/

namespace KindleBridge.Link

open Wire

structure Coupled (X Y : StreamState) (q q' : List Packet) : Prop where
  there : Flow X Y q q'
  back : Flow Y X q' q
  limit : X.sendLimit = Y.receiveLimit
  limit_back : Y.sendLimit = X.receiveLimit
  small : X.receiveLimit ≤ u32Max
  small_back : Y.receiveLimit ≤ u32Max

namespace Coupled

variable {X Y X' Y' : StreamState} {q q' : List Packet} {p : Packet}

theorem symm (h : Coupled X Y q q') : Coupled Y X q' q :=
  ⟨h.back, h.there, h.limit_back, h.limit, h.small_back, h.small⟩

theorem emit (h : Coupled X Y q q') (he : Emits X p X') : Coupled X' Y (q ++ [p]) q' := by
  obtain ⟨ht, hb, hl, hl', hs, hs'⟩ := h
  cases he with
  | data hp ha he hle =>
    refine ⟨ht.sendData ha hp he hle, hb.receiver id (fun _ => rfl) (fun hy => ?_) le_rfl hb.bound,
      hl, hl', hs, hs'⟩
    rw [liveCredit_append_of_live _ (ht.live ha), liveCredit_cons_of_live (.inl hp)]
    simpa [Packet.creditDelta, hp] using hb.credit hy
  | credit hp ha hle =>
    refine ⟨ht.sendCredit ha hp _, hb.receiver id (fun _ => rfl) (fun hy => ?_) (by simp) hle,
      hl, hl', hs, hs'⟩
    have := hb.credit hy
    rw [liveCredit_append_of_live _ (ht.live ha), liveCredit_cons_of_live (.inr hp)]
    simp [Packet.creditDelta, hp]
    omega
  | late hp hterm =>
    refine ⟨ht.sendLate hterm hp, hb.receiver id (fun _ => rfl) (fun hy => ?_) le_rfl hb.bound,
      hl, hl', hs, hs'⟩
    obtain ⟨pre, t, late, rfl, -, h2, -⟩ := ht.ended hterm hy
    rw [liveCredit_append_of_ends _ h2]
    exact hb.credit hy
  | close hp ha hi =>
    refine ⟨ht.sendEnd ha (.inl hp) (by simp [hi]) (.inl rfl) rfl (by simp),
      hb.receiver (by simp) (by simp) (fun hy => ?_) le_rfl hb.bound, hl, hl', hs, hs'⟩
    rw [liveCredit_append_of_live _ (ht.live ha), liveCredit_cons_of_ends (.inl hp)]
    exact hb.credit hy
  | reset hp ha =>
    refine ⟨ht.sendEnd ha (.inr hp) (by simp [hp]) (.inr rfl) rfl id,
      hb.receiver (by simp) (by simp) (fun hy => ?_) le_rfl hb.bound, hl, hl', hs, hs'⟩
    rw [liveCredit_append_of_live _ (ht.live ha), liveCredit_cons_of_ends (.inr hp)]
    exact hb.credit hy

theorem sender_terminal (h : Flow X Y (p :: q) q') (hp : p.Ends) : X.phase ≠ .accepted :=
  fun ha => (h.live ha p (by simp)).not_ends hp

theorem absorb (h : Coupled X Y (p :: q) q') (he : Absorbs Y p Y') : Coupled X Y' q q' := by
  obtain ⟨ht, hb, hl, hl', hs, hs'⟩ := h
  cases he with
  | data hp ha he hle =>
    refine ⟨ht.receiveData hp rfl rfl rfl fun _ => rfl,
      hb.sender_update rfl rfl rfl fun hy => ?_, hl, hl', hs, hs'⟩
    have := hb.credit hy
    rw [liveCredit_cons_of_live (.inl hp)] at this
    simpa [Packet.creditDelta, hp] using this
  | discard hp hterm hle =>
    exact ⟨ht.receiveData hp rfl rfl rfl fun ha => absurd hterm (not_terminal_of_accepted ha),
      hb.sender_update rfl rfl rfl fun ha => absurd hterm (not_terminal_of_accepted ha),
      hl, hl', hs, hs'⟩
  | credit hp ha hle =>
    refine ⟨ht.tail (by simp [hp]) rfl rfl id (.inl (by simp [Packet.Ends, hp])) fun _ => rfl,
      hb.sender_update rfl rfl rfl fun hy => ?_, hl, hl', hs, hs'⟩
    have := hb.credit hy
    rw [liveCredit_cons_of_live (.inr hp)] at this
    simp only [Packet.creditDelta, if_pos hp] at this
    simp only
    omega
  | late hp hterm =>
    refine ⟨ht.tail ?_ rfl rfl id (.inr fun ha => not_terminal_of_accepted ha hterm) fun _ => rfl,
      hb.sender_update rfl rfl rfl fun ha => absurd hterm (not_terminal_of_accepted ha),
      hl, hl', hs, hs'⟩
    rcases hp with hp | hp <;> simp [hp]
  | close hp ha hi =>
    exact ⟨ht.tail (by simp [hp]) rfl rfl (by simp) (.inr (by simp)) (by simp),
      hb.receiveEnd_back (sender_terminal ht (.inl hp)) (.inl rfl) rfl, hl, hl', hs, hs'⟩
  | reset hp ha =>
    exact ⟨ht.tail (by simp [hp]) rfl rfl (by simp) (.inr (by simp)) (by simp),
      hb.receiveEnd_back (sender_terminal ht (.inr hp)) (.inr rfl) rfl, hl, hl', hs, hs'⟩

end Coupled

/-- The record of an initiator that an ACCEPT with the given window has reached. -/
def acceptedInitiator (w : ℕ) : StreamState :=
  { StreamState.opening true with
    phase := .accepted, sendLimit := w, receiveLimit := w, sendCredit := w }

/-- The record of a responder that has sent an ACCEPT with the given window. -/
def acceptedResponder (w : ℕ) : StreamState :=
  { StreamState.opening false with
    phase := .accepted, sendLimit := w, receiveLimit := w, receiveCredit := w }

theorem coupled_accept {w : ℕ} (hw : w ≤ u32Max) :
    Coupled (acceptedInitiator w) (acceptedResponder w) [] [] := by
  refine ⟨?_, ?_, rfl, rfl, hw, hw⟩ <;>
    constructor <;> simp [acceptedInitiator, acceptedResponder, StreamState.opening,
      StreamPhase.Terminal]

/--
The situations of one stream: the records of its initiator and its responder, if they
have one, and the frames of the stream that each of them has on the way.
-/
inductive Joint : Option StreamState → Option StreamState → List Packet → List Packet → Prop
  | idle : Joint none none [] []
  | opening {p : Packet} : p.header.command = .open →
      Joint (some (.opening true)) none [p] []
  | waiting : Joint (some (.opening true)) (some (.opening false)) [] []
  | rejecting {p : Packet} : p.header.command = .reject →
      Joint (some (.opening true)) (some { StreamState.opening false with phase := .rejected }) []
        [p]
  | rejected : Joint (some { StreamState.opening true with phase := .rejected })
      (some { StreamState.opening false with phase := .rejected }) [] []
  | accepting {p : Packet} {w : ℕ} {R : StreamState} {q : List Packet} :
      p.header.command = .accept → p.context.initialStreamWindow = some w →
      R.initiatedByLocal = false → Coupled (acceptedInitiator w) R [] q →
      Joint (some (.opening true)) (some R) [] (p :: q)
  | live {I R : StreamState} {q q' : List Packet} :
      I.initiatedByLocal = true → R.initiatedByLocal = false → Coupled I R q q' →
      Joint (some I) (some R) q q'

namespace Joint

variable {I R : Option StreamState} {X : StreamState} {q q' : List Packet} {p : Packet}

theorem initiator_local (h : Joint (some X) R q q') : X.initiatedByLocal = true := by
  cases h <;> first | rfl | assumption

theorem responder_remote (h : Joint I (some X) q q') : X.initiatedByLocal = false := by
  cases h <;> first | rfl | assumption

theorem initiator_coupled (h : Joint (some X) R q q')
    (hx : X.phase = .accepted ∨ X.phase.Terminal) :
    ∃ Y, R = some Y ∧ Y.initiatedByLocal = false ∧ Coupled X Y q q' := by
  cases h with
  | live _ hr hco => exact ⟨_, rfl, hr, hco⟩
  | _ => simp [StreamState.opening, StreamPhase.Terminal] at hx

theorem responder_coupled (h : Joint I (some X) q q') (hq : q ≠ []) :
    ∃ Y, I = some Y ∧ Y.initiatedByLocal = true ∧ Coupled Y X q q' := by
  cases h with
  | live hi _ hco => exact ⟨_, rfl, hi, hco⟩
  | _ => contradiction

theorem coupled_of_ne_nil (h : Joint I R q q') (hq : q ≠ []) (hq' : q' ≠ []) :
    ∃ X Y, I = some X ∧ R = some Y ∧ Coupled X Y q q' := by
  cases h with
  | live _ _ hco => exact ⟨_, _, rfl, rfl, hco⟩
  | _ => contradiction

theorem initiator_sends (h : Joint I R q q') (hm : Moves p .outbound I X) :
    Joint (some X) R (q ++ [p]) q' := by
  cases hm with
  | «open» _ hc => cases h; exact .opening hc
  | reject _ st _ _ hi => simp [Direction.senderIsLocal, h.initiator_local] at hi
  | acceptOut st w _ _ hi _ => simp [h.initiator_local] at hi
  | emits he =>
    cases h with
    | live hi hr hc =>
      refine .live ?_ hr (hc.emit he)
      cases he <;> exact hi
    | _ => simpa [StreamState.opening, StreamPhase.Terminal] using he.phase

theorem responder_sends (h : Joint I R q q') (hm : Moves p .outbound R X)
    (hno : p.header.command ≠ .open)
    (hw : ∀ w, p.context.initialStreamWindow = some w → w ≤ u32Max) :
    Joint I (some X) q (q' ++ [p]) := by
  cases hm with
  | «open» _ hc => contradiction
  | reject _ st hc ho _ =>
    cases h with
    | waiting => exact .rejecting hc
    | rejecting _ | rejected => simp at ho
    | accepting _ _ _ hco | live _ _ hco =>
      have := hco.back.sender; simp [ho, StreamPhase.Terminal] at this
  | acceptOut st w hc ho _ hw' =>
    cases h with
    | waiting => exact .accepting hc hw' rfl (coupled_accept (hw w hw'))
    | rejecting _ | rejected => simp at ho
    | accepting _ _ _ hco | live _ _ hco =>
      have := hco.back.sender; simp [ho, StreamPhase.Terminal] at this
  | emits he =>
    cases h with
    | accepting hc hw' hi hco =>
      refine .accepting hc hw' ?_ (hco.symm.emit he).symm
      cases he <;> exact hi
    | live hi hr hco =>
      refine .live hi ?_ (hco.symm.emit he).symm
      cases he <;> exact hr
    | _ => simpa [StreamState.opening, StreamPhase.Terminal] using he.phase

theorem responder_receives (h : Joint I R (p :: q) q') (hm : Moves p .inbound R X) :
    Joint I (some X) q q' := by
  cases h with
  | opening ho =>
    cases hm with
    | «open» => exact .waiting
  | live hi hr hco =>
    cases hm with
    | reject _ _ _ ho _ | acceptIn _ _ _ ho _ _ =>
      have := hco.back.sender; simp [ho, StreamPhase.Terminal] at this
    | absorbs he =>
      refine .live hi ?_ (hco.absorb he)
      cases he <;> exact hr

theorem initiator_receives (h : Joint I R q (p :: q')) (hm : Moves p .inbound I X) :
    Joint (some X) R q q' := by
  cases h with
  | rejecting hr =>
    cases hm with
    | reject => exact .rejected
    | acceptIn _ _ hc => simp [hr] at hc
    | absorbs he => simpa [StreamState.opening, StreamPhase.Terminal] using he.phase
  | accepting hc hw hr hco =>
    cases hm with
    | reject _ _ hc' => simp [hc] at hc'
    | acceptIn _ w' _ _ _ hw' =>
      obtain rfl : _ = w' := Option.some.inj (hw.symm.trans hw')
      exact .live rfl hr hco
    | absorbs he => simpa [StreamState.opening, StreamPhase.Terminal] using he.phase
  | live hi hr hco =>
    cases hm with
    | reject _ _ _ ho _ | acceptIn _ _ _ ho _ _ =>
      have := hco.there.sender; simp [ho, StreamPhase.Terminal] at this
    | absorbs he =>
      refine .live ?_ hr (hco.symm.absorb he).symm
      cases he <;> exact hi

end Joint

end KindleBridge.Link
