import Mathlib.Algebra.GroupWithZero.Nat
import KindleBridge.Foundations.Runs

/-! # The control thread and the endpoints

One thread reads the events of the control endpoint and keeps the state, and counts how often
it stopped being active. A session opens the bulk endpoints and notes the count, and before
each use of a file it compares the count and looks at the state. So a file is not used after
the host went away, if it was opened while the state was active and the count was noted before
the state changed.
-/

namespace KindleBridge.Usb

inductive ControlState
  | inactive | active | disconnected
  deriving DecidableEq, Repr

inductive EventKind
  | bind | unbind | enable | disable | setup | suspend | resume
  deriving DecidableEq, Repr

inductive ControlAction
  | active | inactive | disconnected | stall
  deriving DecidableEq, Repr

def classifyControlEvent : EventKind → ControlAction
  | .enable | .resume => .active
  | .bind | .disable | .suspend => .inactive
  | .unbind => .disconnected
  | .setup => .stall

/-- The events after which the files that are open must not be used. -/
def EventKind.Revokes (kind : EventKind) : Prop := kind = .disable ∨ kind = .suspend

instance (kind : EventKind) : Decidable kind.Revokes := inferInstanceAs (Decidable (_ ∨ _))

/-- What a read of the control endpoint brings. Stalling a setup request can fail. -/
inductive EventRead
  | event (kind : EventKind) (stalled : Bool)
  | ended
  | failed
  deriving DecidableEq, Repr

def generationBound : ℕ := 2 ^ 64

structure FunctionFsControl where
  state : ControlState := .inactive
  endpointGeneration : ℕ := 0
  /-- Whether a thread panicked while it held the lock of the state. -/
  poisoned : Bool := false
  deriving DecidableEq, Repr

/-- Where the thread is that reads the events. Setting a state takes the lock, swaps the state,
and then advances the generation if the state was active. -/
inductive Owner
  | reading
  | setting (next : ControlState) (event : Option EventKind)
  | advancing (next : ControlState) (event : Option EventKind)
  | finished
  deriving DecidableEq, Repr

def Owner.setsInactive : Owner → Bool
  | .setting .inactive _ => true
  | _ => false

inductive Direction
  | read | write
  deriving DecidableEq, Repr

/-- Where the session is: outside of `accept`, before opening a file, or before it notes the
generation. A file that is open is revoked once a revoking event was processed. -/
inductive Opening
  | away
  | admitted (direction : Direction)
  | opened (direction : Direction) (revoked : Bool)
  deriving DecidableEq, Repr

def Opening.revoke : Opening → Opening
  | .opened direction _ => .opened direction true
  | opening => opening

/-- A file is open, and its generation is not noted yet. -/
def Opening.isOpened : Opening → Bool
  | .opened _ _ => true
  | _ => false

/-- A call of `ensure_control_active`: it compares the generation and then looks at the state.
A late call started when the file was revoked. -/
inductive ActiveCheck
  | idle
  | entered (late : Bool)
  | compared (late : Bool)
  deriving DecidableEq, Repr

structure OpenEndpoint where
  generation : ℕ
  revoked : Bool
  call : ActiveCheck := .idle
  deriving DecidableEq, Repr

structure Gadget where
  control : FunctionFsControl := {}
  monitorStarted : Bool := false
  owner : Owner := .reading
  opening : Opening := .away
  endpoints : List OpenEndpoint := []
  deriving DecidableEq, Repr

inductive GadgetStep
  | read (result : EventRead)
  | swap
  | advance
  | poison
  | allow
  | openFile (ok : Bool)
  | capture
  | enter (i : ℕ)
  | compare (i : ℕ)
  | inspect (i : ℕ)
  deriving DecidableEq, Repr

namespace Gadget

def setOwner (x : Gadget) (owner : Owner) : Gadget := { x with owner }

/-- The monitor gives up. Before there is one, the session gets the error. -/
def readFailed (x : Gadget) : Gadget :=
  if x.monitorStarted then x.setOwner (.setting .disconnected none) else x

def consumeEvent (x : Gadget) : EventRead → Gadget
  | .event kind stalled =>
    match classifyControlEvent kind with
    | .active => x.setOwner (.setting .active (some kind))
    | .inactive => x.setOwner (.setting .inactive (some kind))
    | .disconnected => x.setOwner (.setting .disconnected (some kind))
    | .stall => if stalled then x else x.readFailed
  | .ended =>
    { x with
      control.state := .disconnected
      owner := if x.monitorStarted then .setting .disconnected none else .finished }
  | .failed => x.readFailed

/-- An event is processed. Nobody reads events once the state is disconnected. -/
def processed (x : Gadget) (next : ControlState) (event : Option EventKind) : Gadget :=
  let x := x.setOwner (if next = .disconnected then .finished else .reading)
  if ∃ kind ∈ event, kind.Revokes then
    { x with
      opening := x.opening.revoke
      endpoints := x.endpoints.map fun e => { e with revoked := true } }
  else x

/-- The first half of `set_state`. -/
def swapState (x : Gadget) (next : ControlState) (event : Option EventKind) : Gadget :=
  if x.control.poisoned then
    { x with control.state := .disconnected }.processed next event
  else if x.control.state = .active ∧ next ≠ .active then
    { x with control.state := next, owner := .advancing next event }
  else { x with control.state := next }.processed next event

/-- The second half of `set_state`, if the state was active. -/
def advanceGeneration (x : Gadget) (next : ControlState) (event : Option EventKind) : Gadget :=
  { x with control.endpointGeneration :=
      (x.control.endpointGeneration + 1) % generationBound }.processed next event

/-- The session leaves `wait_for_active`, which holds the lock while it looks at the state, or
reads the events itself. The monitor runs from then on. -/
def allow (x : Gadget) : Gadget :=
  if x.owner = .reading ∧ x.control.state = .active ∧ x.opening = .away ∧
      ¬ (x.monitorStarted ∧ x.control.poisoned) then
    { x with monitorStarted := true, opening := .admitted .read }
  else x

def openFile (x : Gadget) (ok : Bool) : Gadget :=
  match x.opening with
  | .admitted direction =>
    { x with opening := if ok then .opened direction false else .away }
  | _ => x

/-- The endpoint gets the generation as it is now. The file for writing is opened last. -/
def capture (x : Gadget) : Gadget :=
  match x.opening with
  | .opened direction revoked =>
    { x with
      opening := if direction = .read then .admitted .write else .away
      endpoints := x.endpoints ++ [⟨x.control.endpointGeneration, revoked, .idle⟩] }
  | _ => x

def setCall (x : Gadget) (i : ℕ) (call : ActiveCheck) : Gadget :=
  { x with endpoints := x.endpoints.modify i fun e => { e with call } }

def step (x : Gadget) : GadgetStep → Gadget
  | .read result => if x.owner = .reading then x.consumeEvent result else x
  | .swap =>
    match x.owner with
    | .setting next event => x.swapState next event
    | _ => x
  | .advance =>
    match x.owner with
    | .advancing next event => x.advanceGeneration next event
    | _ => x
  | .poison => if x.owner = .reading then { x with control.poisoned := true } else x
  | .allow => x.allow
  | .openFile ok => x.openFile ok
  | .capture => x.capture
  | .enter i =>
    match x.endpoints[i]? with
    | some ⟨_, revoked, .idle⟩ => x.setCall i (.entered revoked)
    | _ => x
  | .compare i =>
    match x.endpoints[i]? with
    | some ⟨generation, _, .entered late⟩ =>
      x.setCall i (if x.control.endpointGeneration = generation then .compared late else .idle)
    | _ => x
  | .inspect i =>
    match x.endpoints[i]? with
    | some ⟨_, _, .compared _⟩ => x.setCall i .idle
    | _ => x

/-- What a call of `ensure_control_active` returns, with the message of its error. -/
def answer (x : Gadget) : GadgetStep → Option (Except String Unit)
  | .compare i =>
    match x.endpoints[i]? with
    | some ⟨generation, _, .entered _⟩ =>
      if x.control.endpointGeneration = generation then none
      else some (.error "FunctionFS lifecycle changed")
    | _ => none
  | .inspect i =>
    match x.endpoints[i]? with
    | some ⟨_, _, .compared _⟩ =>
      some (match x.control.state with
        | .active => .ok ()
        | .inactive => .error "FunctionFS became inactive"
        | .disconnected => .error "FunctionFS was unbound")
    | _ => none
  | _ => none

/-- A call returns that started after a revoking event was processed for its file. -/
def Late (x : Gadget) : GadgetStep → Prop
  | .compare i => ∃ e ∈ x.endpoints[i]?, e.call = .entered true
  | .inspect i => ∃ e ∈ x.endpoints[i]?, e.call = .compared true
  | _ => False

instance (x : Gadget) : ∀ a, Decidable (x.Late a)
  | .compare _ | .inspect _ => inferInstanceAs (Decidable (∃ _ ∈ _, _))
  | .read _ | .swap | .advance | .poison | .allow | .openFile _ | .capture | .enter _ =>
    instDecidableFalse

/-- A late call does not return that the file may be used. -/
def Refuses (x : Gadget) (a : GadgetStep) : Prop := x.Late a → x.answer a ≠ some (.ok ())

instance (x : Gadget) (a : GadgetStep) : Decidable (x.Refuses a) :=
  inferInstanceAs (Decidable (_ → _))

/-- A file is opened in the active state, the state does not become inactive before the
generation is noted, and the generation does not start again from zero. -/
def Timely (x : Gadget) : GadgetStep → Prop
  | .openFile ok => ok → x.control.state = .active
  | .swap => ¬ (x.opening.isOpened ∧ x.owner.setsInactive)
  | .advance => x.control.endpointGeneration + 1 < generationBound
  | _ => True

instance (x : Gadget) : ∀ a, Decidable (x.Timely a)
  | .openFile _ => inferInstanceAs (Decidable (_ → _))
  | .swap => inferInstanceAs (Decidable (¬ _))
  | .advance => inferInstanceAs (Decidable (_ < _))
  | .read _ | .poison | .allow | .capture | .enter _ | .compare _ | .inspect _ =>
    instDecidableTrue

/-! ## Files that are not used any more -/

def Dead (x : Gadget) : Prop :=
  x.control.state = .disconnected ∧ (x.control.poisoned ∨ x.owner = .finished ∨
    ∃ event, x.owner = .setting .disconnected event ∨ x.owner = .advancing .disconnected event)

/-- A file with this generation is not going to be used. -/
def Passed (x : Gadget) (generation : ℕ) : Prop :=
  x.Dead ∨ generation < x.control.endpointGeneration

/-- The generation is that of the active state, or of the one that is just being left. -/
def Running (x : Gadget) : Prop :=
  x.control.state = .active ∨ ∃ next event, x.owner = .advancing next event

/-- What holds of a file whose generation is noted. -/
structure EndpointSound (x : Gadget) (e : OpenEndpoint) : Prop where
  usable : x.Passed e.generation ∨
    e.generation = x.control.endpointGeneration ∧ e.revoked = false ∧ x.Running
  entered : e.call = .entered true → x.Passed e.generation
  compared : e.call = .compared true → x.Dead

structure Sound (x : Gadget) : Prop where
  setting : ∀ event, x.owner = .setting .active event →
    x.Dead ∨ ∀ kind ∈ event, ¬ kind.Revokes
  advancing : ∀ next event, x.owner = .advancing next event → x.control.state ≠ .active
  opened : ∀ direction revoked, x.opening = .opened direction revoked →
    x.Dead ∨ revoked = false ∧ x.control.state = .active
  endpoints : ∀ e ∈ x.endpoints, x.EndpointSound e

variable {x y : Gadget} {a : GadgetStep} {next : ControlState} {event : Option EventKind}
  {e : OpenEndpoint} {i : ℕ}

theorem sound_init : Sound {} where
  setting := by simp
  advancing := by simp
  opened := by simp
  endpoints := by simp

@[simp] theorem processed_control : (x.processed next event).control = x.control := by
  unfold processed
  split_ifs <;> rfl

@[simp] theorem processed_owner :
    (x.processed next event).owner = if next = .disconnected then .finished else .reading := by
  unfold processed
  split_ifs <;> rfl

theorem processed_opening : (x.processed next event).opening =
    if ∃ kind ∈ event, kind.Revokes then x.opening.revoke else x.opening := by
  unfold processed
  split_ifs <;> rfl

theorem processed_endpoints : (x.processed next event).endpoints =
    if ∃ kind ∈ event, kind.Revokes then x.endpoints.map fun e => { e with revoked := true }
    else x.endpoints := by
  unfold processed
  split_ifs <;> rfl

theorem processed_not_advancing {next' : ControlState} {event' : Option EventKind} :
    (x.processed next event).owner ≠ .advancing next' event' := by
  rw [processed_owner]
  split_ifs <;> simp

theorem dead_processed (h : x.control.state = .disconnected)
    (hd : x.control.poisoned ∨ next = .disconnected) : (x.processed next event).Dead := by
  refine ⟨by simpa using h, ?_⟩
  rcases hd with hd | rfl
  · simp [hd]
  · simp

open Gadget List

theorem Dead.swapState (h : x.Dead) (howner : x.owner = .setting next event) :
    (x.swapState next event).Dead := by
  obtain ⟨hstate, hd⟩ := h
  unfold Gadget.swapState
  split_ifs with hpoisoned hactive
  · exact dead_processed rfl (.inl hpoisoned)
  · rw [hstate] at hactive
    simp at hactive
  · obtain rfl : next = .disconnected := by simpa [hpoisoned, howner] using hd
    exact dead_processed rfl (.inr rfl)

theorem Dead.advanceGeneration (h : x.Dead) (howner : x.owner = .advancing next event) :
    (x.advanceGeneration next event).Dead := by
  obtain ⟨hstate, hd⟩ := h
  exact dead_processed hstate (by simpa [howner] using hd)

theorem consumeEvent_cases (x : Gadget) (result : EventRead) : x.consumeEvent result = x ∨
    (∃ next event, x.consumeEvent result = x.setOwner (.setting next event) ∧
      (next = .active → ∀ kind ∈ event, ¬ kind.Revokes)) ∨
    (∃ owner, x.consumeEvent result = { x with control.state := .disconnected, owner } ∧
      (owner = .finished ∨ owner = .setting .disconnected none)) := by
  have hfailed : x.readFailed = x ∨ ∃ next event, x.readFailed = x.setOwner (.setting next event) ∧
      (next = .active → ∀ kind ∈ event, ¬ kind.Revokes) := by
    unfold readFailed
    split_ifs
    · exact .inr ⟨.disconnected, none, rfl, by simp⟩
    · exact .inl rfl
  cases result with
  | event kind stalled =>
    cases kind with
    | enable => exact .inr (.inl ⟨.active, some .enable, rfl, by simp [EventKind.Revokes]⟩)
    | resume => exact .inr (.inl ⟨.active, some .resume, rfl, by simp [EventKind.Revokes]⟩)
    | bind => exact .inr (.inl ⟨.inactive, some .bind, rfl, by simp⟩)
    | disable => exact .inr (.inl ⟨.inactive, some .disable, rfl, by simp⟩)
    | suspend => exact .inr (.inl ⟨.inactive, some .suspend, rfl, by simp⟩)
    | unbind => exact .inr (.inl ⟨.disconnected, some .unbind, rfl, by simp⟩)
    | setup =>
      cases stalled with
      | true => exact .inl rfl
      | false => exact hfailed.imp_right .inl
  | ended =>
    refine .inr (.inr ⟨_, rfl, ?_⟩)
    split_ifs
    · exact .inr rfl
    · exact .inl rfl
  | failed => exact hfailed.imp_right .inl

theorem Dead.consumeEvent (h : x.Dead) (howner : x.owner = .reading) (result : EventRead) :
    (x.consumeEvent result).Dead := by
  have hpoisoned : x.control.poisoned := by simpa [howner] using h.2
  rcases x.consumeEvent_cases result with heq | ⟨next, event, heq, -⟩ | ⟨owner, heq, -⟩
  · rwa [heq]
  · rw [heq]
    exact ⟨h.1, .inl hpoisoned⟩
  · rw [heq]
    exact ⟨rfl, .inl hpoisoned⟩

theorem sound_of_dead (h : x.Dead) : x.Sound where
  setting _ _ := .inl h
  advancing next event _ := by
    rw [h.1]
    simp
  opened _ _ _ := .inl h
  endpoints _ _ := ⟨.inl (.inl h), fun _ => .inl h, fun _ => h⟩

theorem EndpointSound.mono (h : x.EndpointSound e) (hdead : x.Dead → y.Dead)
    (hgeneration : y.control.endpointGeneration = x.control.endpointGeneration)
    (hrunning : x.Running → y.Running) : y.EndpointSound e := by
  have hpassed : x.Passed e.generation → y.Passed e.generation := by
    rintro (hd | hlt)
    · exact .inl (hdead hd)
    · exact .inr (hgeneration ▸ hlt)
  refine ⟨?_, fun hc => hpassed (h.entered hc), fun hc => hdead (h.compared hc)⟩
  rcases h.usable with hp | ⟨heq, hrevoked, hr⟩
  · exact .inl (hpassed hp)
  · exact .inr ⟨heq.trans hgeneration.symm, hrevoked, hrunning hr⟩

theorem sound_processed (hopened : ∀ direction revoked, x.opening ≠ .opened direction revoked)
    (hpassed : ∀ e ∈ x.endpoints, e.generation < x.control.endpointGeneration)
    (hcalls : ∀ e ∈ x.endpoints, e.call ≠ .compared true) : (x.processed next event).Sound where
  setting event' howner := by
    rw [processed_owner] at howner
    split_ifs at howner
  advancing next' event' howner := absurd howner processed_not_advancing
  opened direction revoked hopening := by
    rw [processed_opening] at hopening
    split_ifs at hopening
    · cases hx : x.opening with
      | opened direction revoked => exact absurd hx (hopened _ _)
      | away | admitted direction => simp [hx, Opening.revoke] at hopening
    · exact absurd hopening (hopened _ _)
  endpoints e he := by
    obtain ⟨e', he', hgeneration, hcall⟩ : ∃ e' ∈ x.endpoints, e.generation = e'.generation ∧
        e.call = e'.call := by
      rw [processed_endpoints] at he
      split_ifs at he
      · obtain ⟨e', he', rfl⟩ := mem_map.mp he
        exact ⟨e', he', rfl, rfl⟩
      · exact ⟨e, he, rfl, rfl⟩
    have hlt : (x.processed next event).Passed e.generation := by
      refine .inr ?_
      rw [processed_control, hgeneration]
      exact hpassed e' he'
    exact ⟨.inl hlt, fun _ => hlt, fun hc => absurd (hcall ▸ hc) (hcalls e' he')⟩

section
variable (h : x.Sound)
include h

theorem Sound.passed (hdead : ¬ x.Dead) (hrunning : ¬ x.Running)
    (he : e ∈ x.endpoints) : e.generation < x.control.endpointGeneration := by
  rcases (h.endpoints e he).usable with (hd | hlt) | ⟨-, -, hr⟩
  · exact absurd hd hdead
  · exact hlt
  · exact absurd hr hrunning

theorem Sound.swapState (ha : x.Timely .swap)
    (howner : x.owner = .setting next event) : (x.swapState next event).Sound := by
  by_cases hdead : x.Dead
  · exact sound_of_dead (hdead.swapState howner)
  have hcalls : ∀ e ∈ x.endpoints, e.call ≠ .compared true :=
    fun e he hc => hdead ((h.endpoints e he).compared hc)
  unfold Gadget.swapState
  split_ifs with hpoisoned hactive
  · exact sound_of_dead (dead_processed rfl (.inl hpoisoned))
  · -- The state stops being active, and the generation advances next.
    obtain ⟨hactive, hnext⟩ := hactive
    cases next with
    | active => exact absurd rfl hnext
    | disconnected => exact sound_of_dead ⟨rfl, .inr (.inr ⟨event, .inr rfl⟩)⟩
    | inactive =>
      refine ⟨by simp, by simp, ?_, ?_⟩
      · intro direction revoked hopening
        refine absurd ⟨?_, ?_⟩ ha
        · rw [show x.opening = _ from hopening]
          rfl
        · rw [howner]
          rfl
      · intro e he
        exact (h.endpoints e he).mono (absurd · hdead) rfl fun _ => .inr ⟨.inactive, event, rfl⟩
  · cases next with
    | disconnected => exact sound_of_dead (dead_processed rfl (.inr rfl))
    | inactive =>
      have hstate : x.control.state ≠ .active := fun hs => hactive ⟨hs, by simp⟩
      have hrunning : ¬ x.Running := by
        rintro (hs | ⟨next', event', ho⟩)
        · exact hstate hs
        · simp [howner] at ho
      refine sound_processed ?_ (fun e he => h.passed hdead hrunning he) hcalls
      intro direction revoked hopening
      rcases h.opened direction revoked hopening with hd | ⟨-, hs⟩
      · exact hdead hd
      · exact hstate hs
    | active =>
      have hkind := (h.setting event howner).resolve_left hdead
      have hevent : ¬ ∃ kind ∈ event, kind.Revokes := fun ⟨kind, hmem, hr⟩ => hkind kind hmem hr
      refine ⟨by simp, fun _ _ ho => absurd ho processed_not_advancing, ?_, ?_⟩
      · intro direction revoked hopening
        rw [processed_opening, if_neg hevent] at hopening
        rcases h.opened direction revoked hopening with hd | ⟨hr, -⟩
        · exact absurd hd hdead
        · exact .inr ⟨hr, by simp⟩
      · intro e he
        rw [processed_endpoints, if_neg hevent] at he
        exact (h.endpoints e he).mono (absurd · hdead) (by simp) fun _ => .inl (by simp)

theorem Sound.advanceGeneration (ha : x.Timely .advance)
    (howner : x.owner = .advancing next event) : (x.advanceGeneration next event).Sound := by
  by_cases hdead : x.Dead
  · exact sound_of_dead (hdead.advanceGeneration howner)
  have hstate := h.advancing next event howner
  have hnext : (x.control.endpointGeneration + 1) % generationBound =
      x.control.endpointGeneration + 1 := Nat.mod_eq_of_lt ha
  unfold Gadget.advanceGeneration
  rw [hnext]
  refine sound_processed ?_ ?_ ?_
  · intro direction revoked hopening
    rcases h.opened direction revoked hopening with hd | ⟨-, hs⟩
    · exact hdead hd
    · exact hstate hs
  · intro e he
    refine Nat.lt_succ_of_le ?_
    rcases (h.endpoints e he).usable with (hd | hlt) | ⟨heq, -, -⟩
    · exact absurd hd hdead
    · exact Nat.le_of_lt hlt
    · exact Nat.le_of_eq heq
  · exact fun e he hc => hdead ((h.endpoints e he).compared hc)

theorem Sound.consumeEvent (howner : x.owner = .reading) (result : EventRead) :
    (x.consumeEvent result).Sound := by
  by_cases hdead : x.Dead
  · exact sound_of_dead (hdead.consumeEvent howner result)
  rcases x.consumeEvent_cases result with heq | ⟨next, event, heq, hkind⟩ | ⟨owner, heq, hend⟩
  · rwa [heq]
  · rw [heq]
    refine ⟨?_, by simp [setOwner], ?_, ?_⟩
    · intro event' hsetting
      obtain ⟨rfl, rfl⟩ := Owner.setting.inj hsetting
      exact .inr (hkind rfl)
    · intro direction revoked hopening
      exact .inr ((h.opened direction revoked hopening).resolve_left hdead)
    · intro e he
      refine (h.endpoints e he).mono (absurd · hdead) rfl ?_
      rintro (hs | ⟨next', event', ho⟩)
      · exact .inl hs
      · simp [howner] at ho
  · rw [heq]
    refine sound_of_dead ⟨rfl, ?_⟩
    rcases hend with rfl | rfl
    · exact .inr (.inl rfl)
    · exact .inr (.inr ⟨none, .inl rfl⟩)

theorem Sound.session {started : Bool} {opening : Opening} {endpoints : List OpenEndpoint}
    (hopened : ∀ direction revoked, opening = .opened direction revoked →
      x.Dead ∨ revoked = false ∧ x.control.state = .active)
    (hendpoints : ∀ e ∈ endpoints, x.EndpointSound e) :
    Sound { x with monitorStarted := started, opening, endpoints } where
  setting := h.setting
  advancing := h.advancing
  opened := hopened
  endpoints e he := (hendpoints e he).mono id rfl id

theorem Sound.setCall {call : ActiveCheck} (hi : x.endpoints[i]? = some e)
    (hcall : x.EndpointSound { e with call }) : (x.setCall i call).Sound := by
  refine h.session h.opened fun e' he' => ?_
  obtain ⟨j, hj⟩ := mem_iff_getElem?.mp he'
  rw [List.getElem?_modify] at hj
  split_ifs at hj with hij
  · subst hij
    rw [hi] at hj
    obtain rfl : { e with call } = e' := by simpa using hj
    exact hcall
  · exact h.endpoints e' (mem_of_getElem? (by simpa using hj))

theorem Sound.poison (howner : x.owner = .reading) :
    Sound { x with control.poisoned := true } := by
  refine ⟨by simp [howner], by simp [howner], ?_, ?_⟩
  · intro direction revoked hopening
    exact (h.opened direction revoked hopening).imp_left fun hd => ⟨hd.1, .inl rfl⟩
  · exact fun e he => (h.endpoints e he).mono (fun hd => ⟨hd.1, .inl rfl⟩) rfl id

theorem Sound.openFile {ok : Bool} (ha : x.Timely (.openFile ok)) : (x.openFile ok).Sound := by
  rw [Gadget.openFile]
  split
  · refine h.session ?_ h.endpoints
    intro direction' revoked hopening
    split_ifs at hopening with hok
    obtain ⟨rfl, rfl⟩ := Opening.opened.inj hopening
    exact .inr ⟨rfl, ha hok⟩
  · exact h

theorem Sound.capture : x.capture.Sound := by
  rw [Gadget.capture]
  split
  · rename_i direction revoked hopening
    refine h.session ?_ ?_
    · intro direction' revoked' hopened
      split_ifs at hopened
    · refine forall_mem_append.mpr ⟨h.endpoints, forall_mem_singleton.mpr ⟨?_, by simp, by simp⟩⟩
      rcases h.opened direction revoked hopening with hd | ⟨hr, hs⟩
      · exact .inl (.inl hd)
      · exact .inr ⟨rfl, hr, .inl hs⟩
  · exact h

theorem Sound.enter {generation : ℕ} {revoked : Bool}
    (hi : x.endpoints[i]? = some ⟨generation, revoked, .idle⟩) :
    (x.setCall i (.entered revoked)).Sound := by
  have hsound := h.endpoints _ (mem_of_getElem? hi)
  refine h.setCall hi ⟨hsound.usable, fun hc => ?_, by simp⟩
  rcases hsound.usable with hp | ⟨-, hr, -⟩
  · exact hp
  · simp_all

/-- A late call that has compared the generations has found its own outdated. -/
theorem Sound.compare {generation : ℕ} {revoked late : Bool}
    (hi : x.endpoints[i]? = some ⟨generation, revoked, .entered late⟩) :
    (x.setCall i (if x.control.endpointGeneration = generation then .compared late
      else .idle)).Sound := by
  have hsound := h.endpoints _ (mem_of_getElem? hi)
  refine h.setCall hi ⟨hsound.usable, fun hc => ?_, fun hc => ?_⟩
  · split_ifs at hc
  · split_ifs at hc with heq
    obtain rfl : late = true := by simpa using hc
    rcases hsound.entered rfl with hd | hlt
    · exact hd
    · exact absurd heq (Nat.ne_of_gt hlt)

theorem Sound.step (ha : x.Timely a) : (x.step a).Sound := by
  cases a with
  | read result =>
    rw [step]
    split_ifs with howner
    · exact h.consumeEvent howner result
    · exact h
  | swap =>
    cases howner : x.owner with
    | setting next event => simpa only [step, howner] using h.swapState ha howner
    | reading | advancing next event | finished => simpa only [step, howner] using h
  | advance =>
    cases howner : x.owner with
    | advancing next event => simpa only [step, howner] using h.advanceGeneration ha howner
    | reading | setting next event | finished => simpa only [step, howner] using h
  | poison =>
    rw [step]
    split_ifs with howner
    · exact h.poison howner
    · exact h
  | allow =>
    rw [step, allow]
    split_ifs
    · exact h.session (by simp) h.endpoints
    · exact h
  | openFile ok => exact h.openFile ha
  | capture => exact h.capture
  | enter i =>
    rw [step]
    split
    · exact h.enter (by assumption)
    · exact h
  | compare i =>
    rw [step]
    split
    · exact h.compare (by assumption)
    · exact h
  | inspect i =>
    rw [step]
    split
    · rename_i generation revoked late hi
      exact h.setCall hi ⟨(h.endpoints _ (mem_of_getElem? hi)).usable, by simp, by simp⟩
    · exact h

theorem Sound.refuses (a : GadgetStep) : x.Refuses a := by
  intro hlate hok
  cases a with
  | compare i =>
    rw [answer] at hok
    split at hok
    · split_ifs at hok
      simp at hok
    · cases hok
  | inspect i =>
    obtain ⟨e, hi, hcall⟩ := hlate
    have hdead := (h.endpoints e (mem_of_getElem? hi)).compared hcall
    rw [answer] at hok
    split at hok
    · rw [hdead.1] at hok
      simp at hok
    · cases hok
  | read _ | swap | advance | poison | allow | openFile _ | capture | enter _ => exact hlate

end

/-- Where files are opened in the active state and their generation is noted before it is left,
no call that starts after the host disabled or suspended a file lets it be used. -/
theorem revoked_endpoint_refused {steps : List GadgetStep} (h : Along step Timely {} steps) :
    Along step Refuses {} steps :=
  h.of_invariant sound_init fun _ a hx ha => ⟨hx.refuses a, hx.step ha⟩

/-- The host suspends and resumes, and the files opened before are refused. -/
theorem suspended_endpoint_refused :
    Along step Refuses {} [.read (.event .enable true), .swap, .allow, .openFile true, .capture,
      .read (.event .suspend true), .swap, .advance, .read (.event .resume true), .swap,
      .enter 0, .compare 0] :=
  revoked_endpoint_refused (by decide)

/-- The host disables and enables again before the generation of the open file is noted. Or the
file is opened when the state is inactive already, and another event does not advance it. -/
theorem revoked_endpoint_used :
    ¬ Along step Refuses {} [.read (.event .enable true), .swap, .allow, .openFile true,
        .read (.event .disable true), .swap, .advance, .capture,
        .read (.event .enable true), .swap, .enter 0, .compare 0, .inspect 0] ∧
      ¬ Along step Refuses {} [.read (.event .enable true), .swap, .allow,
        .read (.event .suspend true), .swap, .advance, .openFile true, .capture,
        .read (.event .disable true), .swap, .read (.event .enable true), .swap,
        .enter 0, .compare 0, .inspect 0] := by
  decide

end Gadget

end KindleBridge.Usb
