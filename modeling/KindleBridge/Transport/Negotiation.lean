import KindleBridge.Transport.Actor
import KindleBridge.Wire.Effects

/-! # The session that an actor is given

Every session is prepared in the same way: a fresh state takes in the HELLO of the peer
and sends its own. What comes out is `Negotiated`.
-/

namespace KindleBridge.Transport

open Wire SessionState

section Greeting

variable {s t : SessionState} {h : Header} {c : FrameContext}

/-- The session after a HELLO with the window. -/
def greeted (s : SessionState) (w : ℕ) : Direction → SessionState
  | .inbound => { s with
      peerHello := true, connectionSendCredit := w, connectionSendLimit := w,
      phase := if s.localHello then .online else .helloExchange }
  | .outbound => { s with
      localHello := true, connectionReceiveCredit := w, connectionReceiveLimit := w,
      phase := if s.peerHello then .online else .helloExchange }

theorem hello_of_applies {d : Direction} (ha : s.Applies h c d t) (hc : h.command = .hello) :
    h.streamId = 0 ∧ ∃ w, c.initialConnectionWindow = some w ∧ t = greeted s w d := by
  cases ha with
  | helloIn w hz _ _ hw | helloOut w hz _ _ hw => exact ⟨hz, w, hw, rfl⟩
  | _ => simp_all

theorem helloWindow_le {w : ℕ} (hv : s.validateContext h c = .ok ())
    (hw : c.initialConnectionWindow = some w) : w ≤ s.config.limits.maxWindow := by
  unfold validateContext validateWindow at hv
  split at hv <;> simp [hw] at hv
  grind

end Greeting

/-- The HELLO of the peer comes in and is answered. -/
def greet (inbound outbound : Header) (peerWindow window : ℕ) : SessionM Unit := do
  processInbound inbound (.hello peerWindow)
  processOutbound outbound (.hello window)

theorem negotiated_of_greet (config : SessionConfig) (inbound outbound : Header)
    {peerWindow window : ℕ} {t : SessionState} (hregular : config.pairingSession = false)
    (hin : inbound.command = .hello) (hout : outbound.command = .hello)
    (hr : (greet inbound outbound peerWindow window).run (new config) = (.ok (), t)) :
    Negotiated t := by
  obtain ⟨_, s, hfirst, hsecond⟩ := Op.bind_ok_iff.mp hr
  obtain ⟨hadm, u, ha, rfl⟩ := process_ok_iff.mp hfirst
  obtain ⟨hadm', u', ha', rfl⟩ := process_ok_iff.mp hsecond
  obtain ⟨hz, w, hw, rfl⟩ := hello_of_applies ha hin
  obtain ⟨hz', w', hw', rfl⟩ := hello_of_applies ha' hout
  have hle := helloWindow_le hadm.context hw
  have hle' := helloWindow_le hadm'.context hw'
  have hseq : inbound.sequence = 0 := by simpa [new, expected] using hadm.sequence
  have hseq' : outbound.sequence = 0 := by
    have := hadm'.sequence
    rw [expected_advanceSequence_ne (by decide)] at this
    simpa [new, expected, greeted] using this
  have hzero : 0 ≠ u32Max := by decide
  simp only [advanceSequence, hseq, hseq', hzero, if_false, hz, hz', greeted] at hle' ⊢
  constructor
  case inbound | outbound =>
    intro id
    rcases eq_or_ne id 0 with rfl | hid
    · simp [expected, new]
    · simp [expected, new, hid]
  all_goals simp_all [new]

/-- The session of a device with the default limits and windows. -/
def deviceSession : SessionState :=
  ((greet (.new .hello 0 0) (.new .hello 0 0) (16 * 1024 * 1024) (16 * 1024 * 1024)).run
    (.new (.new .device .default))).2

theorem deviceSession_negotiated : Negotiated deviceSession := by
  refine negotiated_of_greet (.new .device .default) (.new .hello 0 0) (.new .hello 0 0) rfl rfl rfl
    (Prod.ext ?_ rfl)
  decide +kernel

def hostSession : SessionState :=
  ((do
    processOutbound (.new .hello 0 0) (.hello (16 * 1024 * 1024))
    processInbound (.new .hello 0 0) (.hello (16 * 1024 * 1024))).run
    (.new (.new .host .default))).2

theorem hostSession_negotiated : Negotiated hostSession := by
  have heq : hostSession = ((greet (.new .hello 0 0) (.new .hello 0 0) (16 * 1024 * 1024)
    (16 * 1024 * 1024)).run (.new (.new .host .default))).2 := rfl
  rw [heq]
  refine negotiated_of_greet (.new .host .default) (.new .hello 0 0) (.new .hello 0 0) rfl rfl rfl
    (Prod.ext ?_ rfl)
  decide +kernel

def acceptText (window : ℕ) : List UInt8 :=
  s!"\x7b\"initial_stream_window\":{window}\x7d".toUTF8.toList

/-- The messages of concrete runs: JSON objects of one field, read as far as the runs need. -/
def plainCodec : ServiceCodec where
  encodeOpen service := .ok s!"\x7b\"service\":\"{service}\"\x7d".toUTF8.toList
  decodeOpen _ := .ok "shell"
  encodeAccept window := .ok (acceptText window)
  decodeAccept bytes := .ok ((bytes.filter fun b => 48 ≤ b ∧ b ≤ 57).foldl
    (fun n b => 10 * n + (b.toNat - 48)) 0)

/-- Surroundings in which nothing fails and no HELLO is answered. -/
def calm : World where
  now := 0
  instantMax := u64Max
  connectionAlive := true
  incomingAlive := true
  incomingRoom := true
  order := id
  order_perm _ := List.Perm.refl _
  sink := .ok ()
  restart _ := .error .disconnected

/-- A fresh session of the device, as it answers a HELLO. -/
def renewed : RestartedSession where
  state := deviceSession
  helloResponse := ⟨.new .hello 0 0, [], rfl⟩
  negotiated := deviceSession_negotiated
  hello := rfl
  control := rfl
  first := rfl

/-- Surroundings in which nothing fails and every HELLO starts a session. -/
def renewing : World := { calm with restart := fun _ => .ok renewed }

end KindleBridge.Transport
