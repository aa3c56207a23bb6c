import KindleBridge.Host.Client

/-! # Host operations that return end their stream

Only cancelling a transfer resets its stream. Every other early return leaves the stream
open, so the law needs a device that keeps to the protocol and local files that do not fail.
-/

namespace KindleBridge.Host

open Wire Transport Schema Operation Op Handle

variable {τ η κ ρ α : Type}

variable {β : Type} {totalSize : ℕ} {e : LinkError} {o : Operation τ} {params : SyncParams}
  {f : α → LinkM τ β} {a : α}

namespace Operation

variable {t : Operation τ} {m : Op Handle ConnectionError α}

def SameInbox (o t : Operation τ) : Prop := t.stream.inbox = o.stream.inbox

instance : IsPreorder (Operation τ) SameInbox where
  refl _ := rfl
  trans _ _ _ h h' := Eq.trans h' h

theorem run_isCancelled_bind {f : Bool → LinkM τ β} :
    (isCancelled >>= f).run o = (f (o.cancels o.asked)).run { o with asked := o.asked + 1 } := rfl

theorem isCancelled_respects : (isCancelled : LinkM τ Bool).Respects SameInbox := fun _ => rfl

theorem onFiles_respects (m : Op τ LinkError α) : (onFiles m).Respects SameInbox := fun _ => rfl

theorem put_respects (sent : Sent) : (onStream (put sent) : LinkM τ Unit).Respects SameInbox :=
  fun o => put_inbox sent o.stream

theorem reset_respects (reason : String) : (reset reason : LinkM τ Unit).Respects SameInbox :=
  fun o => put_inbox _ o.stream

theorem onStream_failsIn (h : m.FailsIn Handle.Ends) :
    (onStream m : LinkM τ α).FailsIn Settled :=
  failsIn_zoom (fun _ _ => .inr) h

theorem onStream_ok (hr : (onStream m : LinkM τ α).run o = (.ok a, t)) :
    ∃ h, m.run o.stream = (.ok a, h) ∧ t = { o with stream := h } :=
  zoom_ok_iff.mp hr

theorem sendData_ok {payload : List UInt8} {endStream : Bool}
    (hr : (onStream (sendData payload endStream) : LinkM τ Unit).run o = (.ok (), t)) :
    t.stream.inbox = o.stream.inbox ∧ t.files = o.files := by
  obtain ⟨h, hput, rfl⟩ := onStream_ok hr
  have hinbox := put_inbox (.data payload endStream) o.stream
  rw [← sendData, hput] at hinbox
  exact ⟨hinbox, rfl⟩

theorem sendData_failsIn (payload : List UInt8) (endStream : Bool) :
    (onStream (sendData payload endStream) : LinkM τ Unit).FailsIn Settled :=
  onStream_failsIn (put_failsIn _)

theorem reset_ensures (reason : String) : (reset reason : LinkM τ Unit).Ensures Settled :=
  fun o => .inr (put_ensures rfl o.stream)

theorem suspend_ensures : (suspend : LinkM τ α).Ensures Settled := fun _ => .inl rfl

theorem giveUp_ensures (reason : String) (e : LinkError) :
    (do reset reason; fail e : LinkM τ α).Ensures Settled :=
  (reset_ensures reason).bind fun _ => keeps_fail e

theorem recv_ok {frame : StreamFrame} (hr : (onStream recv : LinkM τ _).run o = (.ok frame, t)) :
    o.stream.inbox = frame :: t.stream.inbox ∧ t.files = o.files ∧
      (terminal frame.1 → t.stream.Ends) := by
  obtain ⟨h, hrecv, rfl⟩ := onStream_ok hr
  obtain ⟨-, rest, hinbox, rfl⟩ := recv_ok hrecv
  refine ⟨hinbox, rfl, fun ht => .inr ?_⟩
  simp [ended, ht]

theorem actorData_ok {frame : Frame} (hr : (actorData : LinkM τ Frame).run o = (.ok frame, t)) :
    frame.header.command = .data ∧ (∃ hf, o.stream.inbox = ⟨frame, hf⟩ :: t.stream.inbox) ∧
      t.files = o.files := by
  obtain ⟨f, u, hu, hrest⟩ := bind_ok_iff.mp hr
  obtain ⟨hinbox, hfiles, -⟩ := recv_ok hu
  simp only [run_ite, run_fail_bind, run_pure] at hrest
  split_ifs at hrest with hc
  · simp at hrest
  · obtain ⟨hframe, rfl⟩ := Prod.mk.inj hrest
    obtain rfl : f.1 = frame := by simpa using hframe
    exact ⟨by simpa using hc, ⟨f.2, hinbox⟩, hfiles⟩

theorem actorData_failsIn : (actorData : LinkM τ Frame).FailsIn Settled := by
  intro o e t hr
  unfold actorData at hr
  rcases hs : (onStream recv : LinkM τ StreamFrame).run o with ⟨_ | frame, u⟩
  · rw [run_bind_of_error hs] at hr
    obtain ⟨-, rfl⟩ := Prod.mk.inj hr
    exact onStream_failsIn recv_failsIn _ _ _ hs
  · rw [run_bind_of_ok hs] at hr
    simp only [run_ite, run_fail_bind, run_pure] at hr
    split_ifs at hr with hc
    · obtain ⟨-, rfl⟩ := Prod.mk.inj hr
      exact .inr ((recv_ok hs).2.2 (frame.2.resolve_left hc))
    · simp at hr

theorem actorClose_settled (h : ∀ frame ∈ o.stream.inbox.head?, terminal frame.1) :
    ((actorClose : LinkM τ Unit).run o).2.Settled := by
  apply bind_induction
  · exact fun e u hr => onStream_failsIn recv_failsIn _ _ _ hr
  intro frame u hr
  obtain ⟨hinbox, -, hends⟩ := recv_ok hr
  have hsettled : u.Settled := .inr (hends (h frame (by simp [hinbox])))
  rw [run_ite]
  split_ifs <;> exact hsettled

theorem actorClose_bind_settled {f : LinkM τ α} (h : ∀ frame ∈ o.stream.inbox.head?, terminal frame.1)
    (hf : f.Keeps Settled) : ((actorClose >>= fun _ => f).run o).2.Settled := by
  have hclosed := actorClose_settled h
  apply bind_induction
  · intro e u hr
    rwa [hr] at hclosed
  · intro _ u hr
    rw [hr] at hclosed
    exact hf u hclosed

end Operation

theorem run_encode_bind {r : Except String (List UInt8)} {b : List UInt8}
    {f : List UInt8 → LinkM τ β} (h : r = .ok b) :
    (encode r >>= f).run o = (f b).run o := by
  subst h
  rfl

theorem run_decode_bind {r : Except String α} {label : String} (h : r = .ok a) :
    (decode r label >>= f).run o = (f a).run o := by
  subst h
  rfl

section Push

variable {w : PushWorld τ} {t : Operation τ}

theorem run_onFiles_bind {m : Op τ LinkError α} {u : τ}
    (h : m.run o.files = (.ok a, u)) : (onFiles m >>= f).run o = (f a).run { o with files := u } :=
  run_bind_of_ok (zoom_ok_iff.mpr ⟨u, h, rfl⟩)

/-- The reads of the local file succeed, none is empty, and together they give the rest of it. -/
def PushWorld.Supplies (w : PushWorld τ) (blockSize totalSize : ℕ) : ℕ → ℕ → τ → Prop
  | 0, _, _ => True
  | n + 1, sent, t => ∃ chunk u, (w.read blockSize).run t = (.ok chunk, u) ∧ chunk ≠ [] ∧
      sent + chunk.length ≤ totalSize ∧ (sent + chunk.length ≠ totalSize →
        w.Supplies blockSize totalSize n (sent + chunk.length) u)

theorem sendFile_failsIn {blockSize n sent : ℕ}
    (hsize : totalSize ≤ u64Max) (h : w.Supplies blockSize totalSize n sent o.files)
    (hr : (sendFile w blockSize totalSize n sent).run o = (.error e, t)) : t.Settled := by
  induction n generalizing o sent with
  | zero => exact suspend_ensures.of_run hr
  | succ n ih =>
    obtain ⟨chunk, u, hread, hne, hle, hrest⟩ := h
    rw [sendFile, run_isCancelled_bind, run_ite] at hr
    split_ifs at hr
    · exact (giveUp_ensures _ _).of_run hr
    rw [run_onFiles_bind (o := { o with asked := o.asked + 1 }) hread, if_neg hne,
      if_neg (by omega), if_neg (by omega)] at hr
    rcases hs : (onStream (sendData chunk _) : LinkM τ Unit).run
      { o with asked := o.asked + 1, files := u } with ⟨e | _, v⟩
    · rw [run_bind_of_error hs] at hr
      obtain ⟨-, rfl⟩ := Prod.mk.inj hr
      exact sendData_failsIn _ _ _ _ _ hs
    · rw [run_bind_of_ok hs, run_ite] at hr
      split_ifs at hr with hlast
      · simp at hr
      · exact ih ((sendData_ok hs).2 ▸ hrest hlast) hr

theorem sendFile_respects (blockSize totalSize n sent : ℕ) :
    (sendFile w blockSize totalSize n sent).Respects SameInbox := by
  induction n generalizing sent with
  | zero => exact respects_bind (respects_modify fun _ => rfl) fun _ => respects_fail _
  | succ n ih =>
    apply respects_bind isCancelled_respects
    intro cancelled
    apply respects_ite
    · exact respects_bind (reset_respects _) fun _ => respects_fail _
    apply respects_bind (onFiles_respects _)
    intro chunk
    refine respects_ite (respects_fail _) (respects_ite (respects_fail _)
      (respects_ite (respects_fail _) ?_))
    apply respects_bind (put_respects _)
    intro _
    exact respects_ite (respects_pure _) (ih _)

theorem sendRest_respects (blockSize totalSize reads offset : ℕ) :
    (sendRest w blockSize totalSize reads offset).Respects SameInbox := by
  apply respects_bind (onFiles_respects _)
  intro _
  exact respects_ite (put_respects _) (sendFile_respects _ _ _ _)

theorem sendRest_failsIn {blockSize reads offset : ℕ} {u : τ}
    (hsize : totalSize ≤ u64Max) (hseek : (w.seek offset).run o.files = (.ok (), u))
    (h : offset ≠ totalSize → w.Supplies blockSize totalSize reads offset u)
    (hr : (sendRest w blockSize totalSize reads offset).run o = (.error e, t)) : t.Settled := by
  rw [sendRest, run_onFiles_bind hseek, run_ite] at hr
  split_ifs at hr with hoffset
  · exact sendData_failsIn _ _ _ _ _ hr
  · exact sendFile_failsIn hsize (h hoffset) hr

/--
The device answers a push as the protocol says, and the local file has its declared size
and can be read. The push is not cancelled.
-/
structure PushWorld.Cooperates (w : PushWorld τ) (params : SyncParams) (totalSize : ℕ)
    (fileHash : String) (reads : ℕ) (o : Operation τ) : Prop where
  uncancelled : ∀ n, o.cancels n = false
  size : totalSize ≤ u64Max
  encodes : ∃ bytes, w.encodeRequest
    (.push params.transferId params.remotePath totalSize fileHash params.blockSize) = .ok bytes
  ready : ∀ frame ∈ o.stream.inbox[0]?, frame.1.header.command = .data →
    ∃ reply transferId offset u, w.decodeReply frame.1.payload = .ok reply ∧
      pushReady params totalSize fileHash reply = .ok (transferId, offset) ∧
      (w.seek offset).run o.files = (.ok (), u) ∧
      (offset ≠ totalSize → w.Supplies params.blockSize totalSize reads offset u) ∧
      ∀ frame ∈ o.stream.inbox[1]?, frame.1.header.command = .data →
        ∃ reply result, w.decodeReply frame.1.payload = .ok reply ∧
          pushCompletion transferId totalSize reply = .ok result
  close : ∀ frame ∈ o.stream.inbox[2]?, terminal frame.1

theorem start_settled {f : LinkM τ α} (hc : ∀ n, o.cancels n = false)
    (h : ∀ u : Operation τ, u.stream.inbox = o.stream.inbox → u.files = o.files →
      (f.run u).2.Settled) :
    ((do if ← isCancelled then fail e else f : LinkM τ α).run o).2.Settled := by
  rw [run_isCancelled_bind, hc, if_neg (by simp)]
  exact h _ rfl rfl

/-- A request is sent, and the first frame of the inbox answers it. -/
theorem exchange_settled {payload : List UInt8} {endStream : Bool} {f : Frame → LinkM τ α}
    (h : ∀ frame hf (u : Operation τ), frame.header.command = .data →
      o.stream.inbox = ⟨frame, hf⟩ :: u.stream.inbox → u.files = o.files →
      ((f frame).run u).2.Settled) :
    ((do
      onStream (sendData payload endStream)
      let frame ← actorData
      f frame : LinkM τ α).run o).2.Settled := by
  apply bind_induction
  · exact sendData_failsIn _ _ _
  intro _ o₁ hsend
  obtain ⟨hinbox₁, hfiles₁⟩ := sendData_ok hsend
  apply bind_induction
  · exact fun e u hr => actorData_failsIn _ _ _ hr
  intro frame o₂ hready
  obtain ⟨hdata, ⟨hf, hinbox₂⟩, hfiles₂⟩ := actorData_ok hready
  exact h frame hf o₂ hdata (hinbox₁ ▸ hinbox₂) (hfiles₂.trans hfiles₁)

theorem pushOpenFile_settled {fileHash : String} {reads : ℕ}
    (h : w.Cooperates params totalSize fileHash reads o) :
    ((pushOpenFile w params totalSize fileHash reads).run o).2.Settled := by
  apply start_settled h.uncancelled
  intro o₁ hinbox₁ hfiles₁
  obtain ⟨request, hrequest⟩ := h.encodes
  rw [run_encode_bind hrequest]
  apply exchange_settled
  intro frame hf o₂ hdata hinbox₂ hfiles₂
  rw [hinbox₁] at hinbox₂
  obtain ⟨reply, transferId, offset, u, hreply, hstart, hseek, hsupplies, hcompletion⟩ :=
    h.ready ⟨frame, hf⟩ (by simp [hinbox₂]) hdata
  rw [run_decode_bind hreply, hstart]
  change (run (sendRest w params.blockSize totalSize reads offset >>= _) o₂).2.Settled
  rw [← hfiles₁, ← hfiles₂] at hseek
  apply bind_induction
  · exact fun e u hr => sendRest_failsIn h.size hseek hsupplies hr
  intro _ o₃ hrest
  have hinbox₃ := (sendRest_respects params.blockSize totalSize reads offset).of_run hrest
  apply bind_induction
  · exact fun e u hr => actorData_failsIn _ _ _ hr
  intro frame' o₄ hcomplete
  obtain ⟨hdata', ⟨hf', hinbox₄⟩, -⟩ := actorData_ok hcomplete
  have hsecond : o.stream.inbox = ⟨frame, hf⟩ :: ⟨frame', hf'⟩ :: o₄.stream.inbox := by
    rw [hinbox₂, ← hinbox₄, hinbox₃]
  obtain ⟨reply', result, hreply', hresult⟩ := hcompletion ⟨frame', hf'⟩ (by simp [hsecond]) hdata'
  rw [run_decode_bind hreply', hresult]
  change (run (actorClose >>= fun _ => pure result) o₄).2.Settled
  refine actorClose_bind_settled ?_ (keeps_pure _)
  intro frame hframe
  exact h.close frame (by simpa [hsecond, List.head?_eq_getElem?] using hframe)

end Push

section Pull

variable {w : PullWorld τ η} {t : Operation τ} {start : PullStart} {received : ℕ}

/-- What a finished pull does with the file it has received. -/
def PullWorld.publish (w : PullWorld τ η) (transferId : String) : Op τ LinkError Unit := do
  w.flush
  w.syncAll
  w.commitHostFile transferId

/-- The received file is as announced and can be put in place, and CLOSE follows. -/
structure PullWorld.Completes (w : PullWorld τ η) (start : PullStart) (rest : List StreamFrame)
    (received : ℕ) (hasher : η) (files : τ) : Prop where
  size : received = start.totalSize
  hash : w.finalize hasher = start.fileHash
  publishes : ∃ u, (w.publish start.transferId).run files = (.ok (), u)
  close : ∀ frame ∈ rest.head?, terminal frame.1

/-- Every DATA can be written and stays within the announced size, and the file is complete. -/
def PullWorld.Receives (w : PullWorld τ η) (start : PullStart) :
    List StreamFrame → ℕ → η → τ → Prop
  | [], _, _, _ => True
  | frame :: rest, received, hasher, files => frame.1.header.command = .data →
    ∃ u, (w.writeAll frame.1.payload).run files = (.ok (), u) ∧
      received + frame.1.payload.length ≤ start.totalSize ∧
      if frame.1.header.endStream then
        w.Completes start rest (received + frame.1.payload.length)
          (w.update hasher frame.1.payload) u
      else
        w.Receives start rest (received + frame.1.payload.length)
          (w.update hasher frame.1.payload) u

theorem receiveFile_cases {frames : List StreamFrame}
    {hasher : η} {r : Except LinkError (ℕ × η)} (hsize : start.totalSize ≤ u64Max)
    (hinbox : o.stream.inbox = frames) (h : w.Receives start frames received hasher o.files)
    (hr : (receiveFile w start.totalSize frames received hasher).run o = (r, t)) :
    (∃ e, r = .error e ∧ t.Settled) ∨
      ∃ n d, r = .ok (n, d) ∧ w.Completes start t.stream.inbox n d t.files := by
  have hgiveUp {u : Operation τ} (hg : (do
      reset "sync cancelled"
      fail syncCancelledError : LinkM τ (ℕ × η)).run u = (r, t)) :
      ∃ e, r = .error e ∧ t.Settled :=
    ⟨_, (Prod.mk.inj hg).1.symm, (giveUp_ensures _ _).of_run hg⟩
  induction frames generalizing o received hasher with
  | nil =>
    rw [receiveFile, run_isCancelled_bind, run_ite] at hr
    split_ifs at hr
    · exact .inl (hgiveUp hr)
    rcases hd : (actorData : LinkM τ Frame).run { o with asked := o.asked + 1 } with ⟨e | data, u⟩
    · rw [run_bind_of_error hd] at hr
      obtain ⟨rfl, rfl⟩ := Prod.mk.inj hr
      exact .inl ⟨e, rfl, actorData_failsIn _ _ _ hd⟩
    · rw [run_bind_of_ok hd] at hr
      exact .inl ⟨_, (Prod.mk.inj hr).1.symm, suspend_ensures.of_run hr⟩
  | cons frame rest ih =>
    rw [receiveFile, run_isCancelled_bind, run_ite] at hr
    split_ifs at hr
    · exact .inl (hgiveUp hr)
    rcases hd : (actorData : LinkM τ Frame).run { o with asked := o.asked + 1 } with ⟨e | data, u⟩
    · rw [run_bind_of_error hd] at hr
      obtain ⟨rfl, rfl⟩ := Prod.mk.inj hr
      exact .inl ⟨e, rfl, actorData_failsIn _ _ _ hd⟩
    rw [run_bind_of_ok hd] at hr
    obtain ⟨hdata, ⟨hf, hnext⟩, hfiles⟩ := actorData_ok hd
    rw [show o.stream.inbox = frame :: rest from hinbox, List.cons.injEq] at hnext
    obtain ⟨rfl, rfl⟩ := hnext
    obtain ⟨v, hwrite, hle, hthen⟩ := h hdata
    rw [show o.files = u.files from hfiles.symm] at hwrite
    dsimp only at hle
    rw [run_onFiles_bind hwrite, if_neg (by omega), if_neg (by omega), run_ite] at hr
    split_ifs at hr with hend
    · rw [if_pos hend] at hthen
      obtain ⟨rfl, rfl⟩ := Prod.mk.inj hr
      exact .inr ⟨_, _, rfl, hthen⟩
    · rw [if_neg hend] at hthen
      have hsame : ({ u with files := v } : Operation τ).stream.inbox = u.stream.inbox := rfl
      exact ih hsame hthen hr

/-- The pull is not cancelled, and neither the device nor the local files fail it. -/
structure PullWorld.Cooperates (w : PullWorld τ η) (params : SyncParams) (o : Operation τ) :
    Prop where
  uncancelled : ∀ n, o.cancels n = false
  encodes : ∀ request, ∃ bytes, w.encodeRequest request = .ok bytes
  resumes : ∃ offset, resumeOffset w params o.files = .ok offset ∧
    ∀ frame ∈ o.stream.inbox.head?, frame.1.header.command = .data →
      ∃ reply start u hasher, w.decodeReply frame.1.payload = .ok reply ∧
        pullReady params offset reply = .ok start ∧ start.totalSize ≤ u64Max ∧
        (prepareStaging w start).run o.files = (.ok hasher, u) ∧
        w.Receives start o.stream.inbox.tail start.offset hasher u

theorem commitPull_of_completes {rest : List StreamFrame}
    {hasher : η} {files : τ} (h : w.Completes start rest received hasher files) :
    ∃ u, (commitPull w start received hasher).run files = (.ok (), u) := by
  obtain ⟨u, hu⟩ := h.publishes
  rw [commitPull, if_neg (by simp [h.size, h.hash])]
  exact ⟨u, hu⟩

theorem pullStream_settled (h : w.Cooperates params o) :
    ((pullStream w params).run o).2.Settled := by
  apply start_settled h.uncancelled
  intro o₁ hinbox₁ hfiles₁
  obtain ⟨offset, hoffset, hready⟩ := h.resumes
  obtain ⟨request, hrequest⟩ := h.encodes
    (.pull params.transferId params.remotePath offset params.blockSize)
  rw [run_get_bind, hfiles₁, hoffset]
  change (run (encode (w.encodeRequest
    (.pull params.transferId params.remotePath offset params.blockSize)) >>= _) o₁).2.Settled
  rw [run_encode_bind hrequest]
  apply exchange_settled
  intro frame hf o₂ hcommand hinbox₂ hfiles₂
  rw [hinbox₁] at hinbox₂
  obtain ⟨reply, start, u, hasher, hreply, hstart, hsize, hprepare, hreceives⟩ :=
    hready ⟨frame, hf⟩ (by simp [hinbox₂]) hcommand
  rw [hinbox₂, List.tail_cons] at hreceives
  rw [← hfiles₁, ← hfiles₂] at hprepare
  rw [run_decode_bind hreply, hstart]
  change (run (onFiles (prepareStaging w start) >>= _) o₂).2.Settled
  rw [run_onFiles_bind hprepare, run_get_bind]
  apply bind_induction
  · intro e t hr
    obtain ⟨_, -, hsettled⟩ | ⟨n, d, he, -⟩ := receiveFile_cases hsize rfl hreceives hr
    · exact hsettled
    · simp at he
  rintro ⟨received, digest⟩ o₃ hr
  obtain ⟨_, he, -⟩ | ⟨n, d, hnd, hcompletes⟩ := receiveFile_cases hsize rfl hreceives hr
  · simp at he
  obtain ⟨rfl, rfl⟩ : received = n ∧ digest = d := by simpa using hnd
  obtain ⟨u', hcommit⟩ := commitPull_of_completes hcompletes
  rw [run_onFiles_bind hcommit]
  exact actorClose_bind_settled hcompletes.close (keeps_pure _)

end Pull

/-- Calls can be encoded, and the device ends the stream with its reply. -/
structure CallWorld.Cooperates (w : CallWorld κ ρ) (request : κ) (o : Operation τ) : Prop where
  encodes : ∃ bytes, w.encodeCall request = .ok bytes
  reply : ∀ frame ∈ o.stream.inbox[0]?, frame.1.header.command = .data → frame.1.header.endStream
  close : ∀ frame ∈ o.stream.inbox[1]?, terminal frame.1

theorem call_settled {w : CallWorld κ ρ} {request : κ}
    (h : w.Cooperates request o) : ((call w request).run o).2.Settled := by
  obtain ⟨payload, hpayload⟩ := h.encodes
  rw [call, run_encode_bind hpayload]
  apply exchange_settled
  intro frame hf u hcommand hinbox _
  have hend := h.reply ⟨frame, hf⟩ (by simp [hinbox]) hcommand
  rw [if_neg (by simpa using hend)]
  refine actorClose_bind_settled ?_ (keeps_bind (fun _ hs => hs) fun _ _ hs => hs)
  intro frame hframe
  exact h.close frame (by simpa [hinbox, List.head?_eq_getElem?] using hframe)

/--
Host operations end their stream where the device keeps to the protocol and the local
files do not fail.
-/
theorem host_operations_end_streams (push : PushWorld τ) (pull : PullWorld τ η)
    (calls : CallWorld κ ρ) (params : SyncParams) (totalSize : ℕ) (fileHash : String) (reads : ℕ)
    (request : κ) (o : Operation τ) : (push.Cooperates params totalSize fileHash reads o →
      ((pushOpenFile push params totalSize fileHash reads).run o).2.Settled) ∧
    (pull.Cooperates params o → ((pullStream pull params).run o).2.Settled) ∧
    (calls.Cooperates request o → ((call calls request).run o).2.Settled) :=
  ⟨pushOpenFile_settled, pullStream_settled, call_settled⟩

/-- A local file of two bytes, of which every read returns the given ones. -/
def pushOf (bytes : List UInt8) : PushWorld Unit where
  encodeRequest _ := .ok []
  decodeReply payload := .ok (if payload = [] then .ready "t" 0 2 "" else .complete "t" 2 2)
  seek _ := return ()
  read _ := return bytes

def bytePull : PullWorld Unit Unit where
  encodeRequest _ := .ok []
  decodeReply _ := .ok (.ready "t" 0 1 "")
  stagingLength _ _ := 0
  openStaging _ _ := return ()
  hashPrefix _ := return ()
  seek _ := return ()
  writeAll _ := return ()
  update _ _ := ()
  finalize _ := ""
  setLen _ := return ()
  flush := return ()
  syncAll := return ()
  commitHostFile _ := return ()

def emptyCall : CallWorld Unit Unit := ⟨fun _ => .ok [], fun _ => .ok (.ok ())⟩

def newParams : SyncParams := ⟨none, "file", 1024⟩

def opened (inbox : List StreamFrame) : Operation Unit where
  stream := { inbox := inbox, fails := fun _ => none }
  files := ()

theorem host_operations_end_streams_opened :
    ((pushOpenFile (pushOf [7]) newParams 2 "" 2).run
      (opened [dataFrame [] false, dataFrame [1] true, closeFrame])).2.Settled ∧
    ((pullStream bytePull newParams).run
      (opened [dataFrame [] false, dataFrame [5] true, closeFrame])).2.Settled ∧
    ((call emptyCall ()).run (opened [dataFrame [] true, closeFrame])).2.Settled := by
  refine ⟨(host_operations_end_streams (pushOf [7]) bytePull emptyCall newParams 2 "" 2 ()
      (opened [dataFrame [] false, dataFrame [1] true, closeFrame])).1 ?_,
    (host_operations_end_streams (pushOf [7]) bytePull emptyCall newParams 2 "" 2 ()
      (opened [dataFrame [] false, dataFrame [5] true, closeFrame])).2.1 ?_,
    (host_operations_end_streams (pushOf [7]) bytePull emptyCall newParams 2 "" 2 ()
      (opened [dataFrame [] true, closeFrame])).2.2 ?_⟩
  · refine ⟨fun _ => rfl, by decide, ⟨_, rfl⟩, ?_, ?_⟩
    · rintro _ ⟨⟩ -
      refine ⟨.ready "t" 0 2 "", "t", 0, (), rfl, by decide +kernel, rfl, fun _ => ?_, ?_⟩
      · refine ⟨[7], (), rfl, by simp, by simp, fun _ => ?_⟩
        exact ⟨[7], (), rfl, by simp, by simp, fun h => absurd rfl h⟩
      · rintro _ ⟨⟩ -
        exact ⟨.complete "t" 2 2, ⟨"t", 2, .complete⟩, rfl, by decide +kernel⟩
    · rintro _ ⟨⟩
      rfl
  · refine ⟨fun _ => rfl, fun _ => ⟨_, rfl⟩, 0, rfl, ?_⟩
    rintro _ ⟨⟩ -
    refine ⟨.ready "t" 0 1 "", ⟨"t", 0, 1, ""⟩, (), (), rfl, by rfl, by decide, rfl, fun _ => ?_⟩
    refine ⟨(), rfl, by simp [dataFrame], ?_⟩
    rw [if_pos (by decide)]
    refine ⟨rfl, rfl, ⟨(), rfl⟩, ?_⟩
    rintro _ ⟨⟩
    rfl
  · refine ⟨⟨_, rfl⟩, ?_, ?_⟩
    · rintro _ ⟨⟩ -
      rfl
    · rintro _ ⟨⟩
      rfl

/-- A push whose local file has become shorter returns and leaves its stream open. -/
theorem short_file_leaves_stream_open :
    ((pushOpenFile (pushOf []) newParams 2 "" 2).run (opened [dataFrame [] false])).1 =
      .error (.unexpectedFrame "local file ended before its declared size") ∧
    ¬ ((pushOpenFile (pushOf []) newParams 2 "" 2).run
      (opened [dataFrame [] false])).2.Settled := by
  decide +kernel

end KindleBridge.Host
