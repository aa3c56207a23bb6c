import Mathlib.Data.Fintype.Basic
import KindleBridge.Wire.Effects

/-! # Two endpoints and two channels

A host and a device with equal limits, joined by two first-in-first-out channels. An
endpoint sends a frame that its own state machine allows, or takes the oldest frame
of its incoming channel.
-/

namespace KindleBridge.Link

open Wire SessionState

def peer : EndpointRole → EndpointRole
  | .host => .device
  | .device => .host

@[simp] theorem peer_peer (r : EndpointRole) : peer (peer r) = r := by cases r <;> rfl

@[simp] theorem peer_ne (r : EndpointRole) : peer r ≠ r := by cases r <;> decide

@[simp] theorem ne_peer (r : EndpointRole) : r ≠ peer r := (peer_ne r).symm

theorem eq_or_eq_peer (r r' : EndpointRole) : r' = r ∨ r' = peer r := by
  cases r <;> cases r' <;> simp [peer]

instance : Fintype EndpointRole := ⟨{.host, .device}, fun r => by cases r <;> simp⟩

/-- The state of the link. A channel is indexed by its sender and holds the oldest frame first. -/
structure State where
  endpoint : EndpointRole → SessionState
  channel : EndpointRole → List Packet

inductive Action
  | send (sender : EndpointRole) (packet : Packet)
  | deliver (receiver : EndpointRole)

/-- Both endpoints before any frame, in regular sessions with the same limits. -/
def start (limits : DecodeLimits) : State where
  endpoint r := .new (.new r limits)
  channel _ := []

/-- What the state machine answers to the call that an action makes. -/
def outcome (l : State) : Action → Except ProtocolError Unit
  | .send r p => ((SessionState.processOutbound p.header p.context).run (l.endpoint r)).1
  | .deliver r =>
    match l.channel (peer r) with
    | [] => .ok ()
    | p :: _ => ((SessionState.processInbound p.header p.context).run (l.endpoint r)).1

/-- A refused frame is not put on the channel; a delivered frame leaves it in any case. -/
def step (l : State) : Action → State
  | .send r p =>
    let result := (SessionState.processOutbound p.header p.context).run (l.endpoint r)
    { endpoint := Function.update l.endpoint r result.2
      channel := match result.1 with
        | .ok _ => Function.update l.channel r (l.channel r ++ [p])
        | .error _ => l.channel }
  | .deliver r =>
    match l.channel (peer r) with
    | [] => l
    | p :: q =>
      let result := (SessionState.processInbound p.header p.context).run (l.endpoint r)
      { endpoint := Function.update l.endpoint r result.2
        channel := Function.update l.channel (peer r) q }

/-- A delivery meets no error. Sending always does, as a refused frame stays where it is. -/
def Accepted (l : State) : Action → Prop
  | .send _ _ => True
  | .deliver r => outcome l (.deliver r) = .ok ()

instance (l : State) : DecidablePred (Accepted l)
  | .send _ _ => inferInstanceAs (Decidable True)
  | .deliver _ => inferInstanceAs (Decidable (_ = _))

def exec (l : State) (actions : List Action) : State := actions.foldl step l

/-- The HELLO exchange and a stream that both ends have accepted. -/
def openingRun : List Action :=
  [.send .host ⟨.new .hello 0 0, .hello 1024⟩, .deliver .device,
    .send .device ⟨.new .hello 0 0, .hello 1024⟩, .deliver .host,
    .send .host ⟨.new .open 1 0, {}⟩, .deliver .device,
    .send .device ⟨.new .accept 1 0, .accept 1024⟩, .deliver .host]

section Steps

variable {l : State} {r : EndpointRole} {p : Packet} {q : List Packet}

theorem step_send : step l (.send r p) = l ∨ (l.endpoint r).Admitted .outbound p.header p.context ∧
      ∃ t, (l.endpoint r).Applies p.header p.context .outbound t ∧ step l (.send r p) =
          ⟨Function.update l.endpoint r (advanceSequence .outbound p.header t),
            Function.update l.channel r (l.channel r ++ [p])⟩ := by
  rcases hr : (process .outbound p.header p.context).run (l.endpoint r) with
    ⟨e | _, s⟩
  · left
    obtain ⟨rfl, -⟩ := process_error hr
    simp [step, processOutbound, hr]
  · right
    obtain ⟨hadm, t, ha, rfl⟩ := process_ok_iff.mp hr
    exact ⟨hadm, t, ha, by simp [step, processOutbound, hr]⟩

theorem outcome_deliver_cons (hq : l.channel (peer r) = p :: q) : outcome l (.deliver r) =
    ((processInbound p.header p.context).run (l.endpoint r)).1 := by
  simp [outcome, hq]

theorem step_deliver (hq : l.channel (peer r) = p :: q) (hok : outcome l (.deliver r) = .ok ()) :
    (l.endpoint r).Admitted .inbound p.header p.context ∧
      ∃ t, (l.endpoint r).Applies p.header p.context .inbound t ∧ step l (.deliver r) =
          ⟨Function.update l.endpoint r (advanceSequence .inbound p.header t),
            Function.update l.channel (peer r) q⟩ := by
  rw [outcome_deliver_cons hq] at hok
  rcases hr : (process .inbound p.header p.context).run (l.endpoint r) with
    ⟨e | _, s⟩
  · simp [processInbound, hr] at hok
  · obtain ⟨hadm, t, ha, rfl⟩ := process_ok_iff.mp hr
    exact ⟨hadm, t, ha, by simp [step, processInbound, hq, hr]⟩

end Steps

end KindleBridge.Link
