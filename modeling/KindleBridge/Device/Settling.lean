import KindleBridge.Device.Services
import KindleBridge.Device.ShellSettling

/-! # Workers that return end their stream

A service may return early at many places. Where it has sent neither CLOSE nor RESET, its
stream must have ended by the peer, or the connection must be down. That is so unless a
message is malformed or the storage fails in the middle of a transfer.
-/

namespace KindleBridge.Device

open Wire Transport Schema Serving Op

variable {τ κ ρ η α : Type}

theorem run_encode_bind {σ β : Type} {r : Except String (List UInt8)} {b : List UInt8} {s : σ}
    {f : List UInt8 → Op σ ServerError β} (h : r = .ok b) :
    (encode r >>= f).run s = (f b).run s := by
  subst h
  rfl

theorem run_decode_bind {σ β : Type} {r : Except String α} {a : α} {label : String} {s : σ}
    {f : α → Op σ ServerError β} (h : r = .ok a) : (decode r label >>= f).run s = (f a).run s := by
  subst h
  rfl

section Rpc

variable {rpc : RpcWorld τ κ ρ} {s : Serving τ}

theorem answer_ensures (payload : List UInt8) :
    (do onStream (Handle.sendData payload true); onStream Handle.close : ServiceM τ Unit).Ensures
      Settled :=
  ensures_bind (sendData_failsIn _ _) fun _ => close_ensures

/-- A call that ends its request can be read, and replies can be written. -/
structure RpcWorld.Wellformed (rpc : RpcWorld τ κ ρ) (s : Serving τ) : Prop where
  decodes : ∀ frame ∈ s.stream.inbox.head?, frame.1.header.endStream →
    ∃ call, rpc.decodeCall frame.1.payload = .ok call
  encodes : ∀ reply, ∃ bytes, rpc.encodeReply reply = .ok bytes

theorem limitResponse_failsIn (h : rpc.Wellformed s) (response : List UInt8) :
    (limitResponse rpc response).FailsIn Settled := by
  intro u e t hr
  obtain ⟨failure, hfailure⟩ := h.encodes (rpc.failure
    ⟨RpcError.execOutputLimitCode, "Command output exceeds the device link limit", []⟩)
  unfold limitResponse at hr
  rw [run_ite] at hr
  split_ifs at hr
  · simp [encode, hfailure, Except.mapError] at hr
  · simp at hr

theorem serveActorRpc_settled (h : rpc.Wellformed s) : ((serveActorRpc rpc).run s).2.Settled := by
  apply bind_induction
  · intro e t hr
    exact actorData_failsIn _ _ _ hr
  · intro frame t hr
    obtain ⟨-, -, hf, rest, hinbox, -⟩ := actorData_ok hr
    rw [run_ite]
    split_ifs with hend
    · exact reset_ensures _ t
    · obtain ⟨call, hcall⟩ := h.decodes ⟨frame, hf⟩ (by simp [hinbox]) (by simpa using hend)
      obtain ⟨response, hresponse⟩ := h.encodes (rpc.dispatch call t.store).1
      rw [run_decode_bind hcall, run_get_bind, run_modify_bind, run_encode_bind hresponse]
      exact ensures_bind (limitResponse_failsIn h response) answer_ensures _

end Rpc

variable {backend : SyncBackend τ η} {s : Serving τ} {schedule : List Thread} {t : Serving τ}
  {blockSize : ℕ} {reads : ℕ} {e : ServerError}

/-- Every reply can be encoded. -/
def SyncBackend.Encodes (backend : SyncBackend τ η) : Prop :=
  ∀ reply, ∃ bytes, backend.encodeReply reply = .ok bytes

theorem fail_ensures (h : backend.Encodes) (error : RpcError) :
    (fail backend error).Ensures Settled := by
  intro s
  obtain ⟨payload, hp⟩ := h (.failure error)
  rw [fail, run_encode_bind hp]
  exact answer_ensures payload s

theorem complete_ensures (h : backend.Encodes) (status : Except StoreError SyncStatus) :
    (complete backend status).Ensures Settled := by
  intro s
  cases status with
  | error e => exact fail_ensures h e.intoRpc s
  | ok status =>
    obtain ⟨payload, hp⟩ := h (.complete status.transferId status.nextOffset status.totalSize)
    rw [complete, run_encode_bind hp]
    exact answer_ensures payload s

/-- While a complete push waits for its last DATA, it ends the stream or goes on to finish. -/
theorem drain_settled {frames : List StreamFrame}
    {r : Except ServerError Bool} (hr : (drain blockSize frames).run s = (r, t)) :
    r = .ok true ∨ t.Settled := by
  induction frames generalizing s with
  | nil =>
    right
    have hs : (drain blockSize [] : ServiceM τ Bool).Ensures Settled :=
      ensures_bind actorData_failsIn fun _ => suspend_ensures
    exact hs.of_run hr
  | cons _ rest ih =>
    rw [drain] at hr
    rcases hd : actorData.run s with ⟨e | data, u⟩
    · rw [run_bind_of_error hd] at hr
      obtain ⟨-, rfl⟩ := Prod.mk.inj hr
      exact .inr (actorData_failsIn _ _ _ hd)
    · rw [run_bind_of_ok hd] at hr
      have hreset (reason : List UInt8) : (do
          onStream (Handle.reset reason)
          return false : ServiceM τ Bool).Ensures Settled :=
        (reset_ensures reason).bind fun _ => keeps_pure false
      simp only [run_ite] at hr
      split_ifs at hr
      · exact .inr ((hreset _).of_run hr)
      · exact .inr ((hreset _).of_run hr)
      · obtain ⟨rfl, -⟩ := Prod.mk.inj hr
        exact .inl rfl
      · exact ih hr

section Receive

/-- Every DATA of the push fits the block size and every write succeeds. -/
structure Undisturbed (backend : SyncBackend τ η) (schedule : List Thread) (blockSize : ℕ)
    (s : Serving τ) : Prop where
  fits : ∀ frame ∈ s.stream.inbox, frame.1.payload.length ≤ blockSize
  writes : Along (Pipeline.step (pushStages backend)) (Pipeline.Writes (pushStages backend))
    (pushPipeline backend blockSize s) schedule

/-- The reading of a push whose frames fit can only stop with the stream. -/
def fitting : Pipeline.Phases ReceiveContext (List UInt8) where
  reading c _ := ∀ frame ∈ c.stream.inbox, frame.1.payload.length ≤ c.blockSize
  ended _ _ := True
  broken c _ := c.stream.Ends

/-- One read: nothing after the last DATA, an error at the end of the stream, or a DATA frame. -/
inductive Reads (c : ReceiveContext) : Except ServerError (Option (List UInt8)) →
    ReceiveContext → Prop
  | exhausted : c.endStreamReceived → Reads c (.ok none) c
  | ends {e : ServerError} {h : Handle} : c.endStreamReceived = false → h.Ends →
      Reads c (.error e) { c with stream := h }
  | oversize {frame : StreamFrame} {rest : List StreamFrame} : c.endStreamReceived = false →
      c.stream.failure = none → c.stream.inbox = frame :: rest →
      frame.1.payload.length > c.blockSize →
      Reads c (.error (.unexpectedFrame "sync DATA exceeds negotiated block size"))
        { c with stream := { c.stream with
          inbox := rest
          requests := c.stream.requests + 1
          consumed := c.stream.consumed ++ [frame] } }
  | data {frame : StreamFrame} {rest : List StreamFrame} : c.endStreamReceived = false →
      c.stream.failure = none → c.stream.inbox = frame :: rest →
      frame.1.header.command = .data → frame.1.payload.length ≤ c.blockSize →
      Reads c (.ok (some frame.1.payload)) { c with
        stream := { c.stream with
          inbox := rest
          requests := c.stream.requests + 1
          consumed := c.stream.consumed ++ [frame] }
        endStreamReceived := frame.1.header.endStream }

theorem reads_of_run {c d : ReceiveContext} {r : Except ServerError (Option (List UInt8))}
    (hr : (pushStages backend).read.run c = (r, d)) : Reads c r d := by
  simp only [pushStages, run_get_bind, run_ite] at hr
  split_ifs at hr with hend
  · obtain ⟨rfl, rfl⟩ := Prod.mk.inj hr
    exact .exhausted hend
  have hopen : c.endStreamReceived = false := by simpa using hend
  rcases hd : ReceiveContext.data.run c with ⟨e | data, u⟩
  · rw [run_bind_of_error hd] at hr
    obtain ⟨rfl, rfl⟩ := Prod.mk.inj hr
    have hends : ReceiveContext.data.FailsIn (·.stream.Ends) :=
      failsIn_zoom (fun _ _ h => h) (fun _ _ _ hr => actorData_error hr)
    have hu := hends _ _ _ hd
    obtain ⟨-, rfl⟩ := Prod.mk.inj hd
    exact .ends hopen hu
  · rw [run_bind_of_ok hd, run_ite] at hr
    obtain ⟨w, hw, rfl⟩ := zoom_ok_iff.mp hd
    obtain ⟨hfail, hc, hf, rest, hinbox, rfl⟩ := actorData_ok hw
    split_ifs at hr with hlong
    · obtain ⟨rfl, rfl⟩ := Prod.mk.inj hr
      exact .oversize hopen hfail hinbox hlong
    · obtain ⟨rfl, rfl⟩ := Prod.mk.inj hr
      exact .data hopen hfail hinbox hc (by simpa using hlong)

theorem fitting_moved : fitting.Moved (pushStages backend) where
  item := by
    intro c d items item hc hr
    cases reads_of_run hr with
    | data _ _ hinbox => exact fun frame hf => hc frame (hinbox ▸ .tail _ hf)
  none _ _ := trivial
  error := by
    intro c d items e hc hr
    cases reads_of_run hr with
    | ends _ h => exact h
    | @oversize frame _ _ _ hinbox hlong =>
      have hfits := hc frame (by simp [hinbox])
      omega
  stored _ _ := rfl

theorem receive_settled {r : Except ServerError η} (h : Undisturbed backend schedule blockSize s)
    (hr : (receive backend schedule blockSize).run s = (r, t)) : (∃ d, r = .ok d) ∨ t.Settled := by
  have hsmooth : Pipeline.Smooth (pushStages backend) fitting (s.store, backend.hashState s.store)
      ((pushPipeline backend blockSize s).exec (pushStages backend) schedule) :=
    Pipeline.smooth_exec fitting_moved h.fits h.writes
  rw [receive, run_get_bind, run_modify_bind] at hr
  generalize (pushPipeline backend blockSize s).exec (pushStages backend) schedule = p at hr hsmooth
  unfold conclude at hr
  split at hr
  · obtain ⟨rfl, -⟩ := Prod.mk.inj hr
    exact .inl ⟨_, rfl⟩
  · rename_i f hp _
    have hkeeps : (do
        onStore (retreat backend p.lastWritten)
        Op.fail f.serverError : ServiceM τ η).Keeps Settled :=
      keeps_bind (onStore_keeps _) fun _ => keeps_fail _
    have hends : p.context.stream.Ends := hsmooth.broken f (by simp [hp, Producer.result])
    have hsettled := hkeeps { s with stream := p.context.stream, store := p.sink.1 } (.inr hends)
    rw [hr] at hsettled
    exact .inr hsettled
  · exact .inr (suspend_ensures.of_run hr)

end Receive

/-- No storage operation of the rest of a pull fails, and the file does not end early. -/
def SyncBackend.Readable (backend : SyncBackend τ η) (blockSize : ℕ) : ℕ → τ → Prop
  | 0, _ => True
  | n + 1, t => ∃ payload u v, (backend.readChunk blockSize).run t = (.ok payload, u) ∧
      payload ≠ [] ∧ (noteChunk backend
        ((backend.view u).offset = (backend.view u).totalSize)).run u = (.ok (), v) ∧
      ((backend.view u).offset ≠ (backend.view u).totalSize → backend.Readable blockSize n v)

theorem run_onStore_bind {β : Type} {m : Op τ StoreError α} {f : α → ServiceM τ β} {a : α} {t : τ}
    (h : m.run s.store = (.ok a, t)) : (onStore m >>= f).run s = (f a).run { s with store := t } :=
  run_bind_of_ok (zoom_ok_iff.mpr ⟨t, h, rfl⟩)

theorem sendChunks_failsIn {blockSize n : ℕ} (h : backend.Readable blockSize n s.store)
    (hr : (sendChunks backend blockSize n).run s = (.error e, t)) : t.Settled := by
  induction n generalizing s with
  | zero => exact suspend_ensures.of_run hr
  | succ n ih =>
    obtain ⟨payload, u, v, hread, hne, hnote, hrest⟩ := h
    rw [sendChunks, run_onStore_bind hread, if_neg hne, run_get_bind, run_onStore_bind hnote] at hr
    rcases hs : (onStream (Handle.sendData payload _) : ServiceM τ Unit).run
      { s with store := v } with ⟨e | _, w⟩
    · rw [run_bind_of_error hs] at hr
      obtain ⟨-, rfl⟩ := Prod.mk.inj hr
      exact sendData_failsIn _ _ _ _ _ hs
    · rw [run_bind_of_ok hs] at hr
      obtain ⟨h', -, rfl⟩ := zoom_ok_iff.mp hs
      split_ifs at hr with hlast
      · simp at hr
      · exact ih (hrest (by simpa using hlast)) hr

/-- What a pull reads and notes is there. -/
structure SyncBackend.Pulls (backend : SyncBackend τ η) (reads blockSize : ℕ) (t : τ) : Prop where
  empty : (backend.view t).offset = (backend.view t).totalSize →
    ∃ u, (noteChunk backend true).run t = (.ok (), u)
  rest : (backend.view t).offset ≠ (backend.view t).totalSize →
    backend.Readable blockSize reads t

theorem sendFile_failsIn (h : backend.Pulls reads blockSize s.store)
    (hr : (sendFile backend reads blockSize).run s = (.error e, t)) : t.Settled := by
  rw [sendFile, run_get_bind, run_ite] at hr
  split_ifs at hr with hsize
  · obtain ⟨u, hu⟩ := h.empty hsize
    rw [run_onStore_bind hu] at hr
    exact sendData_failsIn _ _ _ _ _ hr
  · exact sendChunks_failsIn (h.rest hsize) hr

theorem pull_settled (henc : backend.Encodes) (h : backend.Pulls reads blockSize s.store) :
    ((pull backend reads blockSize).run s).2.Settled := by
  obtain ⟨ready, hready⟩ := henc (backend.view s.store).ready
  rw [pull, run_get_bind, run_encode_bind hready]
  apply bind_induction
  · exact sendData_failsIn _ _ _
  intro _ t ht
  have hstore : t.store = s.store := by
    obtain ⟨_, -, rfl⟩ := zoom_ok_iff.mp ht
    rfl
  rw [← hstore] at h
  apply bind_induction
  · exact fun e u hr => sendFile_failsIn h hr
  · exact fun _ u _ => close_ensures u

/-- Nothing disturbs what the push has yet to receive. -/
def SyncBackend.Pushes (backend : SyncBackend τ η) (schedule : List Thread) (blockSize : ℕ)
    (s : Serving τ) : Prop :=
  (backend.view s.store).complete = false → ∀ ready t,
    (onStream (Handle.sendData ready false)).run s = (.ok (), t) →
    Undisturbed backend schedule blockSize t

theorem push_settled (henc : backend.Encodes) (h : backend.Pushes schedule blockSize s) :
    ((push backend schedule blockSize).run s).2.Settled := by
  obtain ⟨ready, hready⟩ := henc (backend.view s.store).ready
  rw [push, run_get_bind, run_encode_bind hready]
  apply bind_induction
  · exact sendData_failsIn _ _ _
  intro _ t ht
  rw [run_ite]
  split_ifs with hc
  · rw [run_get_bind]
    apply bind_induction
    · intro e u hr
      exact (drain_settled hr).resolve_left (by simp)
    · intro b u hr
      cases b with
      | true => exact complete_ensures henc _ _
      | false => exact (drain_settled hr).resolve_left (by simp)
  · apply bind_induction
    · intro e u hr
      exact (receive_settled (h (by simpa using hc) _ _ ht) hr).resolve_left (by simp)
    · exact fun d u _ => complete_ensures henc _ _

/-- The request can be read, replies can be written, and the storage serves the transfer. -/
structure SyncBackend.Healthy (backend : SyncBackend τ η) (schedule : List Thread) (reads : ℕ)
    (s : Serving τ) : Prop where
  encodes : backend.Encodes
  decodes : ∀ frame ∈ s.stream.inbox.head?, frame.1.header.command = .data → ∃ request,
    backend.decodeRequest frame.1.payload = .ok request
  pushes : ∀ frame t id path size hash blockSize u, actorData.run s = (.ok frame, t) →
    backend.decodeRequest frame.payload = .ok (.push id path size hash blockSize) →
    (backend.beginPush id path size hash).run t.store = (.ok (), u) →
    backend.Pushes schedule blockSize { t with store := u }
  pulls : ∀ frame t id path offset blockSize u, actorData.run s = (.ok frame, t) →
    backend.decodeRequest frame.payload = .ok (.pull id path offset blockSize) →
    (backend.beginPull id path offset).run t.store = (.ok (), u) →
    backend.Pulls reads blockSize u

theorem begin_settled {start : Op τ StoreError Unit} {transfer : ServiceM τ Unit}
    (henc : backend.Encodes)
    (h : ∀ u, start.run s.store = (.ok (), u) → (transfer.run { s with store := u }).2.Settled) :
    ((begin backend start transfer).run s).2.Settled := by
  apply bind_induction
  · intro e t hr
    simp [attemptStore, Except.mapError] at hr
  intro r t hr
  obtain ⟨u, hu, rfl⟩ := zoom_ok_iff.mp hr
  rw [run_attempt, Prod.mk.injEq, Except.ok.injEq] at hu
  obtain ⟨hr', rfl⟩ := hu
  cases r with
  | ok => exact h _ (Prod.ext hr' rfl)
  | error e => exact fail_ensures henc _ _

theorem serve_settled {reads : ℕ} (h : backend.Healthy schedule reads s) :
    ((serve backend schedule reads).run s).2.Settled := by
  apply bind_induction
  · exact fun e t hr => actorData_failsIn _ _ _ hr
  intro frame t hr
  obtain ⟨-, hdata, hf, rest, hinbox, -⟩ := actorData_ok hr
  obtain ⟨request, hrequest⟩ := h.decodes ⟨frame, hf⟩ (by simp [hinbox]) hdata
  rw [run_decode_bind hrequest, run_ite]
  split_ifs with hsize
  · exact fail_ensures h.encodes _ t
  cases request with
  | push id path size hash blockSize =>
    rw [serveRequest, run_ite]
    split_ifs with hend
    · exact fail_ensures h.encodes _ t
    · exact begin_settled h.encodes fun u hu =>
        push_settled h.encodes (h.pushes _ _ _ _ _ _ _ _ hr hrequest hu)
  | pull id path offset blockSize =>
    rw [serveRequest, run_ite]
    split_ifs with hend
    · exact fail_ensures h.encodes _ t
    · exact begin_settled h.encodes fun u hu =>
        pull_settled h.encodes (h.pulls _ _ _ _ _ _ _ hr hrequest hu)

/--
Workers of the three services end their stream: the shell always, the others where the
messages are well formed and the storage does not fail in the middle of a transfer.
-/
theorem workers_end_streams (rpc : RpcWorld τ κ ρ) (backend : SyncBackend τ η) (world : ShellWorld)
    (schedule : List Thread) (reads : ℕ) (moves : List ShellMove) (s : Serving τ) :
    (rpc.Wellformed s → ((serveActorRpc rpc).run s).2.Settled) ∧
    (backend.Healthy schedule reads s → ((serve backend schedule reads).run s).2.Settled) ∧
    ((serveStream world moves).run s).2.Settled :=
  ⟨serveActorRpc_settled, serve_settled, serveStream_settled world moves s⟩

/-- A device with one procedure, whose calls are empty JSON objects. -/
def pingWorld : RpcWorld ℕ Unit Unit where
  decodeCall bytes :=
    if bytes = [123, 125] then .ok () else .error "expected value at line 1 column 1"
  encodeReply _ := .ok "null".toUTF8.toList
  dispatch _ store := ((), store)
  failure _ := ()
  streamWindow := defaultStreamWindow

/-- The storage counts the bytes of a file of two bytes. -/
def twoBytes : SyncBackend ℕ ℕ where
  decodeRequest
    | [0] => .ok (.push none "f" 2 "AB" 1)
    | [1] => .ok (.pull none "f" 0 1)
    | _ => .error "unknown variant"
  encodeReply
    | .ready _ offset _ _ => .ok [2, .ofNat offset]
    | .complete _ offset _ => .ok [3, .ofNat offset]
    | .failure _ => .ok [4]
  beginPush _ _ _ _ := return ()
  beginPull _ _ _ := return ()
  view offset := ⟨"t", offset, 2, "AB", false⟩
  hashState := id
  update count bytes := count + bytes.length
  writeChunkWithoutHash bytes := Op.modify (· + bytes.length)
  checkpoint := return ()
  rollbackForResume offset := Op.modify fun _ => offset
  finish := return ⟨"t", .push, "f", 2, 2, .complete⟩
  finishWithDigest count :=
    if count = 2 then return ⟨"t", .push, "f", 2, 2, .complete⟩ else Op.fail .checksumMismatch
  readChunk _ := do
    Op.modify (· + 1)
    return [65]
  checkpointIfDue := return ()
  finishPull := return ⟨"t", .pull, "f", 2, 2, .complete⟩

/-- A stream on which the host has sent its messages, the last of them as the end. -/
def requested {τ : Type} (payloads : List (List UInt8)) (last : List UInt8) (store : τ) :
    Serving τ where
  stream := { inbox := payloads.map (dataFrame · false) ++ [dataFrame last true],
              fails := fun _ => none }
  store := store

/-- The threads of a pipeline take turns. -/
def turns : List Thread := (List.replicate 16 [.producer, .writer]).flatten

theorem workers_end_streams_requested :
    ((serveActorRpc pingWorld).run (requested [] [123, 125] 0)).2.Settled ∧
      ((serve twoBytes turns 2).run (requested [] [1] 0)).2.Settled ∧
      ((serve twoBytes turns 2).run (requested [[0], [65]] [66] 0)).2.Settled ∧
      ((serve twoBytes turns 2).run (requested [[0], [65]] [66] 0)).1 = .ok () := by
  have hworkers := workers_end_streams pingWorld twoBytes
    ⟨fun _ => .error "", fun _ => .ok ()⟩ turns 2 []
  have hencodes : twoBytes.Encodes := by rintro (_ | _ | _) <;> exact ⟨_, rfl⟩
  refine ⟨(hworkers _).1 ⟨?_, fun _ => ⟨_, rfl⟩⟩, (hworkers _).2.1 ⟨hencodes, ?_, ?_, ?_⟩,
    (hworkers _).2.1 ⟨hencodes, ?_, ?_, ?_⟩, by decide +kernel⟩
  · rintro _ ⟨⟩ -
    exact ⟨(), rfl⟩
  · rintro _ ⟨⟩ -
    exact ⟨_, rfl⟩
  · rintro _ _ _ _ _ _ _ _ ⟨⟩ ⟨⟩
  · rintro _ _ _ _ _ _ _ ⟨⟩ ⟨⟩ ⟨⟩
    refine ⟨fun h => absurd h (by decide), fun _ => ?_⟩
    refine ⟨[65], 1, 1, rfl, by simp, rfl, fun _ => ?_⟩
    exact ⟨[65], 2, 2, rfl, by simp, rfl, fun _ => trivial⟩
  · rintro _ ⟨⟩ -
    exact ⟨_, rfl⟩
  · rintro _ _ _ _ _ _ _ _ ⟨⟩ ⟨⟩ ⟨⟩ - _ _ ⟨⟩
    refine ⟨show ∀ frame ∈ [dataFrame [65] false, dataFrame [66] true], _ by decide,
      Along.of_forall fun p thread _ => ?_⟩
    cases thread with
    | producer => trivial
    | writer => exact fun _ _ _ _ => ⟨_, rfl⟩
  · rintro _ _ _ _ _ _ _ ⟨⟩ ⟨⟩

/-- A call that is no JSON is not answered at all, and its stream stays open. -/
theorem garbled_call_leaves_stream_open :
    ((serveActorRpc pingWorld).run (requested [] [0] 0)).1 =
      .error (.invalidPayload "device call" "expected value at line 1 column 1") ∧
    ¬ ((serveActorRpc pingWorld).run (requested [] [0] 0)).2.Settled := by
  decide

end KindleBridge.Device
