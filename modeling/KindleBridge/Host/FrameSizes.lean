import KindleBridge.Host.Client
import KindleBridge.Schema.Shell

/-! # The size of host frames

The host can complete an abandoned frame only up to a fixed payload. Shell packets and the
blocks of a file stay within it. The requests that a client makes are encoded as they come,
and nothing looks at their length.
-/

namespace KindleBridge.Host

open Wire Transport Schema Operation Op List

variable {τ κ ρ α β : Type} {w : PushWorld τ} {o : Operation τ} {r : Except String (List UInt8)}
  {blockSize : ℕ}

def validateBlockSize (blockSize : ℕ) : Except RpcError Unit :=
  if blockSize = 0 ∨ blockSize > maxSyncBlockSize then
    .error (.invalidParams "block_size must be between 1 and 1048576")
  else .ok ()

structure DeviceShell where
  stream : Handle
  inputState : ShellStreamState
  outputState : ShellStreamState

def openShell (encodeOpen : ShellOpen → Except String (List UInt8)) (shell : ShellOpen) :
    LinkM τ DeviceShell := do
  let payload ← encode (encodeOpen shell)
  onStream (Handle.sendData payload false)
  return ⟨(← Op.get).stream, { mode := shell.mode }, { mode := shell.mode }⟩

inductive ShellSendError
  | direction
  | order (error : ShellOrderError)
  | packet (error : ShellPacketError)
  | connection (error : ConnectionError)

def DeviceShell.send (packet : ShellPacket) : Op DeviceShell ShellSendError Unit := do
  match packet with
  | .stdout _ | .stderr _ | .exit _ => Op.fail .direction
  | .stdin _ | .closeStdin | .resize _ =>
    let shell ← Op.get
    match shell.inputState.accept packet with
    | .error e =>
      Op.modify fun x => { x with stream := ((Handle.reset e.text.toUTF8.toList).run x.stream).2 }
      Op.fail (.order e)
    | .ok state =>
      Op.modify fun x => { x with inputState := state }
      let encoded ← Op.ofExcept (packet.encode.mapError .packet)
      Op.zoom stream (fun h x => { x with stream := h }) .connection
        (Handle.sendData encoded false)

/-- What has been put on a stream can be completed by the recovery. -/
def FramesFit (h : Handle) : Prop :=
  ∀ payload endStream, .data payload endStream ∈ h.sent →
    payload.length ≤ maxHostToDevicePayload

/-- A request that can be encoded fits into one frame. -/
def Fits (r : Except String (List UInt8)) : Prop :=
  ∀ payload, r = .ok payload → payload.length ≤ maxHostToDevicePayload

theorem framesFit_of_sent {h h' : Handle} (hf : FramesFit h) (hs : h'.sent = h.sent) :
    FramesFit h' := fun payload endStream hmem => hf payload endStream (hs ▸ hmem)

theorem put_framesFit {sent : Sent} (hsent : ∀ payload endStream, sent = .data payload endStream →
    payload.length ≤ maxHostToDevicePayload) : (Handle.put sent).Keeps FramesFit := by
  intro h hf
  rcases Handle.put_sent sent h with hs | hs
  · exact framesFit_of_sent hf hs
  · intro payload endStream hmem
    rw [hs, mem_append, mem_singleton] at hmem
    exact hmem.elim (hf payload endStream) fun heq => hsent payload endStream heq.symm

theorem sendData_framesFit {payload : List UInt8} (endStream : Bool)
    (h : payload.length ≤ maxHostToDevicePayload) :
    (Handle.sendData payload endStream).Keeps FramesFit := by
  apply put_framesFit
  rintro _ _ ⟨⟩
  exact h

theorem reset_framesFit (reason : List UInt8) : (Handle.reset reason).Keeps FramesFit :=
  put_framesFit (by simp)

theorem recv_framesFit : Handle.recv.Keeps FramesFit := by
  refine keeps_bind (fun h hf => framesFit_of_sent hf (Handle.request_sent h)) fun _ h hf => ?_
  rw [run_get_bind]
  split <;> exact framesFit_of_sent hf rfl

/-! ## Operations on a stream -/

/-- The frames of an operation fit. -/
def StreamFits (o : Operation τ) : Prop := FramesFit o.stream

theorem onStream_streamFits {m : Op Handle ConnectionError α} (h : m.Keeps FramesFit) :
    (onStream m : LinkM τ α).Keeps StreamFits := fun _ ho => h _ ho

theorem onFiles_streamFits (m : Op τ LinkError α) : (onFiles m).Keeps StreamFits := fun _ h => h

theorem ofExcept_streamFits (r : Except LinkError α) :
    (ofExcept r : LinkM τ α).Keeps StreamFits := fun _ h => h

theorem isCancelled_streamFits : (isCancelled : LinkM τ Bool).Keeps StreamFits := fun _ h => h

theorem actorData_streamFits : (actorData : LinkM τ Frame).Keeps StreamFits := by
  refine keeps_bind (onStream_streamFits recv_framesFit) fun frame => ?_
  split_ifs
  · exact keeps_bind (keeps_fail _) fun _ => keeps_pure _
  · exact keeps_pure _

theorem actorClose_streamFits : (actorClose : LinkM τ Unit).Keeps StreamFits := by
  refine keeps_bind (onStream_streamFits recv_framesFit) fun frame => ?_
  split_ifs
  · exact keeps_fail _
  · exact keeps_pure _

theorem encode_streamFits {f : List UInt8 → LinkM τ α}
    (hr : Fits r) (hf : ∀ payload, payload.length ≤ maxHostToDevicePayload →
      (f payload).Keeps StreamFits) : (encode r >>= f).Keeps StreamFits := by
  refine keeps_bind_of (ofExcept_streamFits _) (fun o payload h => hr payload ?_) hf
  cases r with
  | error e => cases h
  | ok sent => cases h; rfl

theorem onFiles_ok {m : Op τ LinkError α} {a : α}
    (h : ((onFiles m).run o).1 = .ok a) : (m.run o.files).1 = .ok a := by
  rw [onFiles, run_zoom] at h
  exact (mapError_eq_ok_iff.mp h)

theorem sendFile_streamFits
    (hread : ∀ t bytes, ((w.read blockSize).run t).1 = .ok bytes → bytes.length ≤ blockSize)
    (hblock : blockSize ≤ maxHostToDevicePayload) (totalSize reads sent : ℕ) :
    (sendFile w blockSize totalSize reads sent).Keeps StreamFits := by
  induction reads generalizing sent with
  | zero => exact fun _ h => h
  | succ n ih =>
    refine keeps_bind isCancelled_streamFits fun cancelled => ?_
    split_ifs
    · exact keeps_bind (fun _ h => reset_framesFit _ _ h) fun _ => keeps_fail _
    · refine keeps_bind_of (onFiles_streamFits _)
        (fun o bytes h => hread o.files bytes (onFiles_ok h)) fun chunk hchunk => ?_
      split_ifs
      · exact keeps_fail _
      · exact keeps_fail _
      · exact keeps_fail _
      all_goals
        refine keeps_bind (onStream_streamFits (sendData_framesFit _ (hchunk.trans hblock)))
          fun _ => ?_
      · exact keeps_pure _
      · exact ih _

theorem sendRest_streamFits
    (hread : ∀ t bytes, ((w.read blockSize).run t).1 = .ok bytes → bytes.length ≤ blockSize)
    (hblock : blockSize ≤ maxHostToDevicePayload) (totalSize reads offset : ℕ) :
    (sendRest w blockSize totalSize reads offset).Keeps StreamFits := by
  refine keeps_bind (onFiles_streamFits _) fun _ => ?_
  split_ifs
  · exact onStream_streamFits (sendData_framesFit _ (Nat.zero_le _))
  · exact sendFile_streamFits hread hblock totalSize reads offset

theorem encode_length_le {packet : ShellPacket} {bytes : List UInt8}
    (h : packet.encode = .ok bytes) : bytes.length ≤ shellHeaderLength + maxShellPacketPayload := by
  have hlength : ∀ {n : ℕ} {bs : List UInt8}, (do validatePayloadLength n; return bs) = .ok bytes →
      n ≤ maxShellPacketPayload ∧ bs = bytes := by
    intro n bs hn
    rw [validatePayloadLength] at hn
    split_ifs at hn with hle
    · exact ⟨hle, Except.ok.inj hn⟩
    · cases hn
  have hparts : packet.parts.2.length ≤ maxShellPacketPayload ∧
      UInt8.ofNat packet.parts.1 :: toLe 4 packet.parts.2.length ++ packet.parts.2 = bytes := by
    cases packet with
    | resize size =>
      rcases hv : validateTerminalSize size with e | _
      · simp only [ShellPacket.encode, hv] at h
        cases h
      · simp only [ShellPacket.encode, hv] at h
        exact hlength h
    | stdin | stdout | stderr | exit | closeStdin => exact hlength h
  obtain ⟨hle, rfl⟩ := hparts
  simp only [length_append, length_cons, length_toLe, shellHeaderLength]
  omega

theorem sendEncoded_framesFit (packet : ShellPacket) :
    (ofExcept (packet.encode.mapError ShellSendError.packet) >>= fun encoded =>
      zoom DeviceShell.stream (fun h x => { x with stream := h }) .connection
        (Handle.sendData encoded false)).Keeps fun x : DeviceShell => FramesFit x.stream := by
  refine keeps_bind_of (fun _ h => h) (fun y bytes h => encode_length_le
    (mapError_eq_ok_iff.mp h)) fun bytes h y hy => ?_
  exact sendData_framesFit false (h.trans (by decide)) _ hy

theorem DeviceShell.send_framesFit (packet : ShellPacket) :
    (DeviceShell.send packet).Keeps fun x => FramesFit x.stream := by
  cases packet with
  | stdout | stderr | exit => exact keeps_fail _
  | stdin | closeStdin | resize =>
    intro x hx
    rw [DeviceShell.send, run_get_bind]
    split
    · exact reset_framesFit _ _ hx
    · rw [run_modify_bind]
      exact sendEncoded_framesFit _ _ hx

/-! ## Requests -/

/-- An operation on a fresh stream that the device does not answer. -/
def unanswered (files : τ) : Operation τ where
  stream := { inbox := [], fails := fun _ => none }
  files := files

theorem fits_of_keeps {m : LinkM τ α} (hm : m.Keeps StreamFits)
    (files : τ) (endStream : Bool) (h : ∀ payload, r = .ok payload →
      (m.run (unanswered files)).2.stream.sent = [.data payload endStream]) : Fits r := by
  intro payload hp
  apply hm (unanswered files) (by rintro _ _ ⟨⟩) payload endStream
  rw [h payload hp]
  exact mem_singleton_self _

theorem call_fits_iff (files : τ) (w : CallWorld κ ρ) (request : κ) :
    (call w request : LinkM τ ρ).Keeps StreamFits ↔ Fits (w.encodeCall request) := by
  constructor
  · intro hm
    refine fits_of_keeps hm files true fun payload hp => ?_
    rw [call, hp]
    rfl
  · intro h
    refine encode_streamFits h fun payload hp => ?_
    refine keeps_bind (onStream_streamFits (sendData_framesFit _ hp)) fun _ => ?_
    refine keeps_bind actorData_streamFits fun response => ?_
    split_ifs
    · exact keeps_fail _
    · refine keeps_bind actorClose_streamFits fun _ => ?_
      exact keeps_bind (ofExcept_streamFits _) fun _ => ofExcept_streamFits _

theorem openShell_fits_iff (files : τ) (encodeOpen : ShellOpen → Except String (List UInt8))
    (shell : ShellOpen) : (openShell encodeOpen shell : LinkM τ DeviceShell).Keeps StreamFits ↔
      Fits (encodeOpen shell) := by
  constructor
  · intro hm
    refine fits_of_keeps hm files false fun payload hp => ?_
    rw [openShell, hp]
    rfl
  · intro h
    refine encode_streamFits h fun payload hp => ?_
    exact keeps_bind (onStream_streamFits (sendData_framesFit _ hp)) fun _ _ ho => ho

theorem pushOpenFile_fits_iff (files : τ) {params : SyncParams}
    (hread : ∀ t bytes, ((w.read params.blockSize).run t).1 = .ok bytes →
      bytes.length ≤ params.blockSize)
    (hblock : validateBlockSize params.blockSize = .ok ()) (totalSize : ℕ) (fileHash : String)
    (reads : ℕ) : (pushOpenFile w params totalSize fileHash reads).Keeps StreamFits ↔
      Fits (w.encodeRequest
        (.push params.transferId params.remotePath totalSize fileHash params.blockSize)) := by
  constructor
  · intro hm
    refine fits_of_keeps hm files false fun payload hp => ?_
    rw [pushOpenFile, hp]
    rfl
  · intro h
    have hsize : params.blockSize ≤ maxHostToDevicePayload := by
      unfold validateBlockSize at hblock
      split_ifs at hblock with hbad
      exact not_lt.mp (not_or.mp hbad).2
    refine keeps_bind isCancelled_streamFits fun _ => ?_
    split_ifs
    · exact keeps_fail _
    refine encode_streamFits h fun request hp => ?_
    refine keeps_bind (onStream_streamFits (sendData_framesFit _ hp)) fun _ => ?_
    refine keeps_bind actorData_streamFits fun _ => ?_
    refine keeps_bind (ofExcept_streamFits _) fun _ => ?_
    refine keeps_bind (ofExcept_streamFits _) fun ⟨_, offset⟩ => ?_
    refine keeps_bind (sendRest_streamFits hread hsize totalSize reads offset) fun _ => ?_
    refine keeps_bind actorData_streamFits fun _ => ?_
    refine keeps_bind (ofExcept_streamFits _) fun _ => ?_
    refine keeps_bind (ofExcept_streamFits _) fun _ => ?_
    exact keeps_bind actorClose_streamFits fun _ => keeps_pure _

/-! ## What the requests are made of -/

structure DeviceCall where
  method : String
  /-- The encoding of the parameters. -/
  params : List UInt8

section Json

variable (quote : String → List UInt8)

def ascii (s : String) : List UInt8 := s.toUTF8.toList

def encodeNumber (n : ℕ) : List UInt8 := (Nat.toDigits 10 n).map fun c => UInt8.ofNat c.toNat

/-- Objects as `serde_json` writes them, given what it makes of a string. -/
def DeviceCall.encode (call : DeviceCall) : List UInt8 :=
  ascii "\x7b\"method\":" ++ quote call.method ++ ascii ",\"params\":" ++ call.params ++
    ascii "\x7d"

def encodeItems : List String → List UInt8
  | [] => []
  | [item] => quote item
  | item :: rest => quote item ++ ascii "," ++ encodeItems rest

def encodeMode : ShellMode → List UInt8
  | .pty => ascii "\"pty\""
  | .raw => ascii "\"raw\""

def encodeTerminalSize : Option TerminalSize → List UInt8
  | none => []
  | some size =>
    ascii ",\"terminal_size\":\x7b\"rows\":" ++ encodeNumber size.rows.toNat ++
      ascii ",\"columns\":" ++ encodeNumber size.columns.toNat ++
      ascii ",\"pixel_width\":" ++ encodeNumber size.pixelWidth.toNat ++
      ascii ",\"pixel_height\":" ++ encodeNumber size.pixelHeight.toNat ++ ascii "\x7d"

def encodeShellOpen (shell : ShellOpen) : List UInt8 :=
  ascii "\x7b\"mode\":" ++ encodeMode shell.mode ++ ascii ",\"argv\":[" ++
    encodeItems quote shell.argv ++ ascii "]" ++ encodeTerminalSize shell.terminalSize ++
    ascii ",\"cwd\":" ++ quote shell.cwd ++ ascii ",\"term\":" ++ quote shell.term ++ ascii "\x7d"

def encodeTransferId : Option String → List UInt8
  | none => []
  | some transferId => ascii ",\"transfer_id\":" ++ quote transferId

def encodePush (params : SyncParams) (totalSize : ℕ) (fileHash : String) : List UInt8 :=
  ascii "\x7b\"operation\":\"push\"" ++ encodeTransferId quote params.transferId ++
    ascii ",\"remote_path\":" ++ quote params.remotePath ++
    ascii ",\"total_size\":" ++ encodeNumber totalSize ++
    ascii ",\"file_hash\":" ++ quote fileHash ++
    ascii ",\"block_size\":" ++ encodeNumber params.blockSize ++ ascii "\x7d"

def digits (n : ℕ) : ℕ := (Nat.toDigits 10 n).length

/-- The length of a request to open a shell, from its parameters. -/
def shellOpenLength (shell : ShellOpen) : ℕ :=
  39 + (shell.argv.map fun arg => (quote arg).length).sum + (shell.argv.length - 1) +
    (shell.terminalSize.elim 0 fun size => 68 + digits size.rows.toNat +
      digits size.columns.toNat + digits size.pixelWidth.toNat + digits size.pixelHeight.toNat) +
    (quote shell.cwd).length + (quote shell.term).length

/-- The length of a request to push a file, from its parameters. -/
def pushLength (params : SyncParams) (totalSize : ℕ) (fileHash : String) : ℕ :=
  76 + (params.transferId.elim 0 fun transferId => 15 + (quote transferId).length) +
    (quote params.remotePath).length + digits totalSize + (quote fileHash).length +
    digits params.blockSize

variable {quote}

theorem length_encodeNumber (n : ℕ) : (encodeNumber n).length = digits n := length_map _

theorem DeviceCall.length_encode (call : DeviceCall) :
    (call.encode quote).length = 21 + (quote call.method).length + call.params.length := by
  have hsizes : (ascii "\x7b\"method\":").length = 10 ∧ (ascii ",\"params\":").length = 10 ∧
      (ascii "\x7d").length = 1 := by decide +kernel
  simp only [encode, length_append]
  omega

theorem length_encodeItems (items : List String) : (encodeItems quote items).length =
    (items.map fun item => (quote item).length).sum + (items.length - 1) := by
  have hcomma : (ascii ",").length = 1 := by decide +kernel
  fun_induction encodeItems quote items with
  | case1 => rfl
  | case2 item => simp
  | case3 item rest hrest ih =>
    cases rest with
    | nil => exact (hrest rfl).elim
    | cons next rest =>
      simp only [length_append, hcomma, ih, map_cons, sum_cons, length_cons]
      omega

theorem length_encodeTerminalSize (size : Option TerminalSize) :
    (encodeTerminalSize size).length = size.elim 0 fun size => 68 + digits size.rows.toNat +
      digits size.columns.toNat + digits size.pixelWidth.toNat + digits size.pixelHeight.toNat := by
  have hsizes : (ascii ",\"terminal_size\":\x7b\"rows\":").length = 25 ∧
      (ascii ",\"columns\":").length = 11 ∧ (ascii ",\"pixel_width\":").length = 15 ∧
      (ascii ",\"pixel_height\":").length = 16 ∧ (ascii "\x7d").length = 1 := by decide +kernel
  cases size with
  | none => rfl
  | some size =>
    simp only [encodeTerminalSize, length_append, length_encodeNumber, Option.elim_some]
    omega

theorem length_encodeShellOpen (shell : ShellOpen) :
    (encodeShellOpen quote shell).length = shellOpenLength quote shell := by
  have hsizes : (ascii "\x7b\"mode\":").length = 8 ∧ (ascii ",\"argv\":[").length = 9 ∧
      (ascii "]").length = 1 ∧ (ascii ",\"cwd\":").length = 7 ∧
      (ascii ",\"term\":").length = 8 ∧ (ascii "\x7d").length = 1 := by decide +kernel
  have hmode : (encodeMode shell.mode).length = 5 := by
    cases shell.mode <;> decide +kernel
  simp only [encodeShellOpen, shellOpenLength, length_append, length_encodeItems,
    length_encodeTerminalSize, hmode]
  omega

theorem length_encodePush (params : SyncParams) (totalSize : ℕ) (fileHash : String) :
    (encodePush quote params totalSize fileHash).length =
      pushLength quote params totalSize fileHash := by
  have hsizes : (ascii "\x7b\"operation\":\"push\"").length = 19 ∧
      (ascii ",\"remote_path\":").length = 15 ∧ (ascii ",\"total_size\":").length = 14 ∧
      (ascii ",\"file_hash\":").length = 13 ∧ (ascii ",\"block_size\":").length = 14 ∧
      (ascii "\x7d").length = 1 := by decide +kernel
  have hid : (encodeTransferId quote params.transferId).length =
      params.transferId.elim 0 fun transferId => 15 + (quote transferId).length := by
    have hkey : (ascii ",\"transfer_id\":").length = 15 := by decide +kernel
    cases params.transferId with
    | none => rfl
    | some transferId => simp [encodeTransferId, hkey]
  simp only [encodePush, pushLength, length_append, length_encodeNumber, hid]
  omega

end Json

theorem fits_ok {payload : List UInt8} :
    Fits (.ok payload) ↔ payload.length ≤ maxHostToDevicePayload :=
  ⟨fun h => h payload rfl, by rintro h _ ⟨⟩; exact h⟩

/--
Shell input and the blocks of a file always fit. A request fits if its parameters are not
too long, whatever `serde_json` makes of a string.
-/
theorem hostFrames_fit_iff (quote : String → List UInt8) (files : τ)
    (decodeReply : List UInt8 → Except String (Except RpcError ρ)) (request : DeviceCall)
    (shell : ShellOpen) (pushes : PushWorld τ) (params : SyncParams) (totalSize : ℕ)
    (fileHash : String) (reads : ℕ)
    (hpush : pushes.encodeRequest (.push params.transferId params.remotePath totalSize fileHash
      params.blockSize) = .ok (encodePush quote params totalSize fileHash))
    (hread : ∀ t bytes, ((pushes.read params.blockSize).run t).1 = .ok bytes →
      bytes.length ≤ params.blockSize) (hblock : validateBlockSize params.blockSize = .ok ()) :
    ((call ⟨fun c => .ok (DeviceCall.encode quote c), decodeReply⟩ request :
        LinkM τ ρ).Keeps StreamFits ↔
      21 + (quote request.method).length + request.params.length ≤ maxHostToDevicePayload) ∧
    ((openShell (fun open_ => .ok (encodeShellOpen quote open_)) shell :
        LinkM τ DeviceShell).Keeps StreamFits ↔
      shellOpenLength quote shell ≤ maxHostToDevicePayload) ∧
    (∀ packet, (DeviceShell.send packet).Keeps fun x => FramesFit x.stream) ∧
    ((pushOpenFile pushes params totalSize fileHash reads).Keeps StreamFits ↔
      pushLength quote params totalSize fileHash ≤ maxHostToDevicePayload) := by
  constructor
  · rw [call_fits_iff files, fits_ok, DeviceCall.length_encode]
  constructor
  · rw [openShell_fits_iff files, fits_ok, length_encodeShellOpen]
  constructor
  · exact DeviceShell.send_framesFit
  · rw [pushOpenFile_fits_iff files hread hblock, hpush, fits_ok, length_encodePush]

/-- Strings that need no escapes. -/
def quotePlain (s : String) : List UInt8 := ascii "\"" ++ ascii s ++ ascii "\""

/-- A file of zeros that the device wants from its start. -/
def zeroPush : PushWorld Unit where
  encodeRequest := fun _ => .ok (encodePush quotePlain ⟨none, "book", 4⟩ 8 "")
  decodeReply := fun _ => .ok (.ready "t" 0 8 "")
  seek := fun _ => pure ()
  read := fun n => pure (List.replicate n 0)

/-- The device is ready, and two blocks are sent. -/
theorem zeroPush_fits : (pushOpenFile zeroPush ⟨none, "book", 4⟩ 8 "" 3).Keeps StreamFits ∧
    ((pushOpenFile zeroPush ⟨none, "book", 4⟩ 8 "" 3).run
        { unanswered () with stream := { inbox := [dataFrame [] false], fails := fun _ => none }
          }).2.stream.sent =
      [.data (encodePush quotePlain ⟨none, "book", 4⟩ 8 "") false, .data [0, 0, 0, 0] false,
        .data [0, 0, 0, 0] true] := by
  constructor
  · apply (hostFrames_fit_iff (ρ := Unit) quotePlain () (fun _ => .error "")
      ⟨"device.info", []⟩ ⟨.raw, [], none, "", ""⟩ zeroPush ⟨none, "book", 4⟩ 8 "" 3 rfl ?_
      rfl).2.2.2.mpr
    · decide +kernel
    · rintro t bytes ⟨⟩
      exact (length_replicate ..).le
  · decide +kernel

/-- A program with a long argument. -/
def longExec : DeviceCall where
  method := "exec.run"
  params := "\x7b\"argv\":[\"echo\",\"".toUTF8.toList ++
    List.replicate maxHostToDevicePayload 97 ++
    "\"],\"environment\":\x7b\x7d,\"serial\":\"K\",\"timeout_ms\":30000\x7d".toUTF8.toList

theorem longExec_exceeds :
    ¬ (call ⟨fun c => .ok (DeviceCall.encode quotePlain c), fun _ => .error ""⟩ longExec :
      LinkM Unit Unit).Keeps StreamFits := by
  rw [call_fits_iff ()]
  intro h
  have hle := h _ rfl
  rw [DeviceCall.length_encode] at hle
  generalize (quotePlain longExec.method).length = n at hle
  simp only [longExec, length_append, length_replicate] at hle
  omega

end KindleBridge.Host
