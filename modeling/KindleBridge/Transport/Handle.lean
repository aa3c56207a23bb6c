import KindleBridge.Transport.Actor

/-! # The handle of a stream

What a worker sees of its stream. The peer decides which frames come in, and the
surroundings at which request the connection is lost. Dropping a handle sends nothing:
a stream that is still open when its worker returns stays open.
-/

namespace KindleBridge.Transport

open Wire Op

/-- What a worker puts on its stream. -/
inductive Sent
  | data (payload : List UInt8) (endStream : Bool)
  | close
  | reset (reason : List UInt8)
  deriving DecidableEq

def Sent.terminal : Sent → Bool
  | .close | .reset _ => true
  | .data .. => false

/-- The frames that the actor hands to a worker. -/
abbrev StreamFrame := { frame : Frame // frame.header.command = .data ∨ terminal frame }

def dataFrame (payload : List UInt8) (endStream : Bool) : StreamFrame :=
  ⟨⟨{ Header.new .data 1 1 with
      flags := if endStream then flagEndStream else 0
      payloadLength := payload.length }, payload, rfl⟩, .inl rfl⟩

def closeFrame : StreamFrame := ⟨⟨Header.new .close 1 1, [], rfl⟩, .inr rfl⟩

structure Handle where
  /-- The frames that the peer still sends on the stream. -/
  inbox : List StreamFrame
  /-- The error that answers a request, if the connection is lost by then. -/
  fails : ℕ → Option ConnectionError
  requests : ℕ := 0
  up : Bool := true
  consumed : List StreamFrame := []
  sent : List Sent := []

variable {h t : Handle} {frame : StreamFrame} {sent : Sent}

namespace Handle

/-- The last frame of the stream has been read, or CLOSE or RESET has been queued. -/
def ended (h : Handle) : Bool := h.consumed.any (terminal ·.1) || h.sent.any Sent.terminal

/-- Nobody is left waiting: the stream has ended, or the connection is down. -/
def Ends (h : Handle) : Prop := h.up = false ∨ h.ended

instance (h : Handle) : Decidable h.Ends := inferInstanceAs (Decidable (_ ∨ _))

/-- A request is answered with an error. On an open stream that means the connection is lost. -/
def lose (h : Handle) : Handle := { h with up := h.up && h.ended }

def failure (h : Handle) : Option ConnectionError :=
  if !h.up ∨ h.consumed.any (terminal ·.1) then some .disconnected else h.fails h.requests

def request : Op Handle ConnectionError Unit := do
  let h ← Op.get
  Op.modify fun h => { h with requests := h.requests + 1 }
  match h.failure with
  | some e =>
    Op.modify lose
    Op.fail e
  | none => return ()

def recv : Op Handle ConnectionError StreamFrame := do
  request
  let h ← Op.get
  match h.inbox with
  | [] =>
    -- Nothing more comes: the worker waits until the connection is lost.
    Op.modify lose
    Op.fail .disconnected
  | frame :: rest =>
    Op.modify fun h => { h with inbox := rest, consumed := h.consumed ++ [frame] }
    return frame

/-- Look for a frame without waiting for one. -/
def poll : Op Handle ConnectionError (Option StreamFrame) := do
  request
  let h ← Op.get
  match h.inbox with
  | [] => return none
  | frame :: rest =>
    Op.modify fun h => { h with inbox := rest, consumed := h.consumed ++ [frame] }
    return some frame

def put (sent : Sent) : Op Handle ConnectionError Unit := do
  request
  Op.modify fun h => { h with sent := h.sent ++ [sent] }

def sendData (payload : List UInt8) (endStream : Bool) : Op Handle ConnectionError Unit :=
  put (.data payload endStream)

def close : Op Handle ConnectionError Unit := put .close

def reset (reason : List UInt8) : Op Handle ConnectionError Unit := put (.reset reason)

def cancelReceive : Op Handle ConnectionError Unit := request

theorem ends_lose (h : Handle) : h.lose.Ends := by
  cases he : h.ended with
  | false => exact .inl (by simp [lose, he])
  | true => exact .inr he

theorem request_error {e : ConnectionError} (hr : request.run h = (.error e, t)) :
    t = lose { h with requests := h.requests + 1 } := by
  unfold request at hr
  simp only [run_get_bind, run_modify_bind] at hr
  split at hr
  · simp only [run_modify_bind, run_fail, Prod.mk.injEq] at hr
    exact hr.2.symm
  · simp at hr

theorem request_failsIn : request.FailsIn Ends := fun _ _ _ hr => request_error hr ▸ ends_lose _

theorem recv_failsIn : recv.FailsIn Ends := by
  refine failsIn_bind request_failsIn fun _ => ?_
  intro h e t hr
  simp only [run_get_bind] at hr
  split at hr
  · simp only [run_modify_bind, run_fail, Prod.mk.injEq] at hr
    obtain ⟨-, rfl⟩ := hr
    exact ends_lose _
  · simp at hr

theorem request_ok (hr : request.run h = (.ok (), t)) :
    h.failure = none ∧ t = { h with requests := h.requests + 1 } := by
  unfold request at hr
  simp only [run_get_bind, run_modify_bind] at hr
  split at hr
  · simp at hr
  · rename_i hf
    exact ⟨hf, (Prod.mk.inj hr).2.symm⟩

theorem recv_ok (hr : recv.run h = (.ok frame, t)) :
    h.failure = none ∧ ∃ rest, h.inbox = frame :: rest ∧ t = { h with
      inbox := rest, requests := h.requests + 1, consumed := h.consumed ++ [frame] } := by
  obtain ⟨⟨⟩, u, hu, hrest⟩ := bind_ok_iff.mp hr
  obtain ⟨hf, rfl⟩ := request_ok hu
  simp only [run_get_bind] at hrest
  split at hrest
  · simp at hrest
  · rename_i rest hinbox
    simp only [run_modify_bind, run_pure, Prod.mk.injEq, Except.ok.injEq] at hrest
    obtain ⟨rfl, rfl⟩ := hrest
    exact ⟨hf, rest, hinbox, rfl⟩

theorem ends_of_recv (hr : recv.run h = (.ok frame, t))
    (hc : frame.1.header.command ≠ .data) : t.Ends := by
  obtain ⟨-, rest, -, rfl⟩ := recv_ok hr
  exact .inr (by simp [ended, frame.2.resolve_left hc])

@[simp] theorem request_inbox (h : Handle) : (request.run h).2.inbox = h.inbox := by
  unfold request
  rw [run_get_bind, run_modify_bind]
  split
  · rfl
  · rfl

@[simp] theorem put_inbox (sent : Sent) (h : Handle) : ((put sent).run h).2.inbox = h.inbox := by
  have hrequest := request_inbox h
  rcases hr : request.run h with ⟨_ | _, t⟩
  · rw [put, run_bind_of_error hr]
    rwa [hr] at hrequest
  · rw [put, run_bind_of_ok hr]
    rwa [hr] at hrequest

@[simp] theorem request_sent (h : Handle) : (request.run h).2.sent = h.sent := by
  unfold request
  rw [run_get_bind, run_modify_bind]
  split
  · rfl
  · rfl

@[simp] theorem poll_sent (h : Handle) : (poll.run h).2.sent = h.sent := by
  have hrequest := request_sent h
  rcases hr : request.run h with ⟨_ | _, t⟩
  · rw [poll, run_bind_of_error hr]
    rwa [hr] at hrequest
  · rw [hr] at hrequest
    rw [poll, run_bind_of_ok hr, run_get_bind]
    split <;> exact hrequest

theorem put_sent (sent : Sent) (h : Handle) :
    ((put sent).run h).2.sent = h.sent ∨ ((put sent).run h).2.sent = h.sent ++ [sent] := by
  have hrequest := request_sent h
  rcases hr : request.run h with ⟨_ | _, t⟩
  · rw [hr] at hrequest
    rw [put, run_bind_of_error hr]
    exact .inl hrequest
  · rw [hr] at hrequest
    rw [put, run_bind_of_ok hr, run_modify]
    exact .inr (congrArg (· ++ [sent]) hrequest)

theorem put_failsIn (sent : Sent) : (put sent).FailsIn Ends := by
  refine failsIn_bind request_failsIn fun _ => ?_
  intro h e t hr
  simp at hr

theorem request_keeps : request.Keeps Ends := by
  intro h hends
  rcases hr : request.run h with ⟨e | _, t⟩
  · exact request_failsIn _ _ _ hr
  · obtain ⟨-, rfl⟩ := request_ok hr
    exact hends

theorem put_keeps (sent : Sent) : (put sent).Keeps Ends := by
  refine keeps_bind request_keeps fun _ h hends => ?_
  rcases hends with hdown | hended
  · exact .inl hdown
  · refine .inr ?_
    simp only [ended, Bool.or_eq_true] at hended
    simp only [run_modify, ended, List.any_append, Bool.or_eq_true]
    tauto

theorem poll_cases {r : Except ConnectionError (Option StreamFrame)}
    (hr : poll.run h = (r, t)) : (∃ e, r = .error e ∧ t.Ends) ∨
    (r = .ok none ∧ t = { h with requests := h.requests + 1 }) ∨
    ∃ frame rest, r = .ok (some frame) ∧ h.inbox = frame :: rest ∧ t = { h with
      inbox := rest, requests := h.requests + 1, consumed := h.consumed ++ [frame] } := by
  rcases hq : request.run h with ⟨e | _, u⟩
  · rw [poll, run_bind_of_error hq] at hr
    obtain ⟨rfl, rfl⟩ := Prod.mk.inj hr
    exact .inl ⟨e, rfl, request_failsIn _ _ _ hq⟩
  · rw [poll, run_bind_of_ok hq, run_get_bind] at hr
    obtain ⟨-, rfl⟩ := request_ok hq
    split at hr
    · obtain ⟨rfl, rfl⟩ := Prod.mk.inj hr
      exact .inr (.inl ⟨rfl, rfl⟩)
    · rename_i frame rest hinbox
      obtain ⟨rfl, rfl⟩ := Prod.mk.inj hr
      exact .inr (.inr ⟨frame, rest, rfl, hinbox, rfl⟩)

theorem poll_keeps : poll.Keeps Ends := by
  intro h hends
  rcases hp : poll.run h with ⟨r, t⟩
  rcases poll_cases hp with ⟨e, -, ht⟩ | ⟨-, rfl⟩ | ⟨frame, rest, -, -, rfl⟩
  · exact ht
  · exact hends
  · rcases hends with hdown | hended
    · exact .inl hdown
    · refine .inr ?_
      simp only [ended, Bool.or_eq_true] at hended
      simp only [ended, List.any_append, Bool.or_eq_true]
      tauto

/-- Whether or not CLOSE or RESET can be queued, the stream does not stay open. -/
theorem put_ensures (h : sent.terminal) : (put sent).Ensures Ends := by
  refine ensures_bind request_failsIn fun _ s => .inr ?_
  simp [ended, h]

theorem request_down {e : ConnectionError} (hopen : h.ended = false)
    (hr : request.run h = (.error e, t)) : t.up = false := by
  have hended : ({ h with requests := h.requests + 1 } : Handle).ended = false := hopen
  simp [request_error hr, lose, hended]

theorem request_of_up (hopen : h.ended = false) (hup : (request.run h).2.up) :
    request.run h = (.ok (), { h with requests := h.requests + 1 }) := by
  rcases hr : request.run h with ⟨e | _, t⟩
  · rw [hr] at hup
    simp [request_down hopen hr] at hup
  · obtain ⟨-, rfl⟩ := request_ok hr
    rfl

theorem put_of_up (hopen : h.ended = false) (hup : ((put sent).run h).2.up) : (put sent).run h =
      (.ok (), { h with requests := h.requests + 1, sent := h.sent ++ [sent] }) := by
  have hr : request.run h = (.ok (), { h with requests := h.requests + 1 }) := by
    rcases hr : request.run h with ⟨e | _, t⟩
    · rw [put, run_bind_of_error hr] at hup
      simp [request_down hopen hr] at hup
    · obtain ⟨-, rfl⟩ := request_ok hr
      rfl
  rw [put, run_bind_of_ok hr]
  rfl

theorem poll_of_up (hopen : h.ended = false) (hup : (poll.run h).2.up) :
    poll.run h = (.ok none, { h with requests := h.requests + 1 }) ∨
      ∃ frame rest, h.inbox = frame :: rest ∧ poll.run h = (.ok (some frame), { h with
        inbox := rest, requests := h.requests + 1, consumed := h.consumed ++ [frame] }) := by
  rcases hr : request.run h with ⟨e | _, t⟩
  · rw [poll, run_bind_of_error hr] at hup
    simp [request_down hopen hr] at hup
  · rcases hp : poll.run h with ⟨r, t⟩
    rcases poll_cases hp with ⟨e, rfl, -⟩ | ⟨rfl, rfl⟩ | ⟨frame, rest, rfl, hinbox, rfl⟩
    · rw [poll, run_bind_of_ok hr, run_get_bind] at hp
      split at hp
      · simp at hp
      · simp at hp
    · exact .inl rfl
    · exact .inr ⟨frame, rest, hinbox, rfl⟩

end Handle

end KindleBridge.Transport
