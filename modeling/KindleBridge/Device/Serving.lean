import KindleBridge.Schema.Protocol
import KindleBridge.Transport.Handle

/-! # Workers of the device services

A worker owns a stream handle and reaches the storage of its service. It may still be at
work when its schedule ends.
-/

namespace KindleBridge.Device

open Wire Transport Schema Handle Op

inductive StoreError
  | path (message : String)
  | io (message : String)
  | json (message : String)
  | invalidHash
  | invalidTransferId
  | transferNotFound (transferId : String)
  | fileNotFound (remotePath : String)
  | metadataMismatch
  | unsafePath
  | checksumMismatch
  | sizeOverflow
  | invalidState (message : String)
  | invalidListLimit
  | directoryTooLarge
  deriving DecidableEq, Repr

namespace StoreError

def text : StoreError → String
  | .path message | .io message | .json message => message
  | .invalidHash => "invalid BLAKE3 digest"
  | .invalidTransferId => "invalid transfer id"
  | .transferNotFound id => s!"transfer not found: {id}"
  | .fileNotFound remotePath => s!"file not found: {remotePath}"
  | .metadataMismatch => "transfer metadata does not match"
  | .unsafePath => "unsafe path component"
  | .checksumMismatch => "checksum mismatch"
  | .sizeOverflow => "size overflow"
  | .invalidState message => s!"invalid state: {message}"
  | .invalidListLimit => "directory list limit must be between 1 and 1024"
  | .directoryTooLarge => "directory contains more than 65536 entries"

def intoRpc (e : StoreError) : RpcError :=
  match e with
  | .path _ | .invalidHash | .invalidTransferId | .invalidListLimit => .invalidParams e.text
  | .transferNotFound id =>
    ⟨RpcError.transferNotFoundCode, "Transfer not found", [("transfer_id", id)]⟩
  | .fileNotFound remotePath =>
    ⟨RpcError.fileNotFoundCode, "File not found", [("remote_path", remotePath)]⟩
  | .checksumMismatch => ⟨RpcError.checksumMismatchCode, "Checksum mismatch", []⟩
  | .metadataMismatch | .unsafePath | .invalidState _ =>
    ⟨RpcError.invalidStateCode, "Invalid sync state", [("detail", e.text)]⟩
  | .directoryTooLarge =>
    ⟨RpcError.invalidStateCode, "Directory exceeds the supported entry limit", []⟩
  | .io _ | .json _ | .sizeOverflow => .internalError

end StoreError

inductive ServerError
  | connection (error : ConnectionError)
  | json (message : String)
  | sync (error : StoreError)
  | invalidPayload (label source : String)
  | unexpectedFrame (message : String)
  | shell (message : String)
  /-- No error of the code: the schedule has ended before the worker. -/
  | suspended
  deriving DecidableEq

structure Serving (τ : Type) where
  stream : Handle
  store : τ
  running : Bool := false

abbrev ServiceM (τ : Type) := Op (Serving τ) ServerError

namespace Serving

variable {τ α : Type}

/-- The worker has returned only if its stream has ended or the connection is down. -/
def Settled (s : Serving τ) : Prop := s.running ∨ s.stream.Ends

instance (s : Serving τ) : Decidable s.Settled := inferInstanceAs (Decidable (_ ∨ _))

def onStream (m : Op Handle ConnectionError α) : ServiceM τ α :=
  Op.zoom stream (fun h s => { s with stream := h }) .connection m

def onStore (m : Op τ StoreError α) : ServiceM τ α :=
  Op.zoom store (fun t s => { s with store := t }) .sync m

def suspend : ServiceM τ α := do
  Op.modify fun s => { s with running := true }
  Op.fail .suspended

def actorData : ServiceM τ Frame := do
  let frame ← onStream Handle.recv
  if frame.1.header.command ≠ .data then
    Op.fail (.unexpectedFrame "expected DATA on actor service stream")
  return frame.1

variable {m : Op Handle ConnectionError α} {s : Serving τ} {t : Serving τ}

theorem onStream_failsIn (h : m.FailsIn Handle.Ends) :
    (onStream m : ServiceM τ α).FailsIn Settled :=
  failsIn_zoom (fun _ _ => .inr) h

theorem onStream_ensures (h : m.Ensures Handle.Ends) :
    (onStream m : ServiceM τ α).Ensures Settled :=
  ensures_zoom (fun _ _ => .inr) h

theorem suspend_ensures : (suspend : ServiceM τ α).Ensures Settled := fun _ => .inl rfl

theorem onStore_keeps (m : Op τ StoreError α) : (onStore m).Keeps Settled := fun _ h => h

theorem sendData_failsIn (payload : List UInt8) (endStream : Bool) :
    (onStream (sendData payload endStream) : ServiceM τ Unit).FailsIn Settled :=
  onStream_failsIn (put_failsIn _)

theorem close_ensures : (onStream close : ServiceM τ Unit).Ensures Settled :=
  onStream_ensures (put_ensures rfl)

theorem reset_ensures (reason : List UInt8) :
    (onStream (reset reason) : ServiceM τ Unit).Ensures Settled :=
  onStream_ensures (put_ensures rfl)

theorem actorData_ok {frame : Frame} (hr : actorData.run s = (.ok frame, t)) :
    s.stream.failure = none ∧ frame.header.command = .data ∧ ∃ hf rest,
      s.stream.inbox = ⟨frame, hf⟩ :: rest ∧ t = { s with stream := { s.stream with
        inbox := rest
        requests := s.stream.requests + 1
        consumed := s.stream.consumed ++ [⟨frame, hf⟩] } } := by
  obtain ⟨f, u, hu, hrest⟩ := bind_ok_iff.mp hr
  obtain ⟨h, hrecv, rfl⟩ := zoom_ok_iff.mp hu
  obtain ⟨hfail, rest, hinbox, rfl⟩ := recv_ok hrecv
  simp only [run_ite, run_fail_bind, run_pure] at hrest
  split_ifs at hrest with hc
  · simp at hrest
  · obtain ⟨hframe, rfl⟩ := Prod.mk.inj hrest
    obtain rfl : f.1 = frame := by simpa using hframe
    exact ⟨hfail, by simpa using hc, f.2, rest, hinbox, rfl⟩

theorem actorData_error {e : ServerError} (hr : actorData.run s = (.error e, t)) :
    t.stream.Ends := by
  unfold actorData at hr
  rcases hs : (onStream recv : ServiceM τ StreamFrame).run s with ⟨_ | frame, u⟩
  · rw [run_bind_of_error hs] at hr
    obtain ⟨-, rfl⟩ := Prod.mk.inj hr
    have hends : (onStream recv : ServiceM τ StreamFrame).FailsIn (·.stream.Ends) :=
      failsIn_zoom (fun _ _ h => h) recv_failsIn
    exact hends _ _ _ hs
  · rw [run_bind_of_ok hs] at hr
    simp only [run_ite, run_fail_bind, run_pure] at hr
    split_ifs at hr with hc
    · obtain ⟨-, rfl⟩ := Prod.mk.inj hr
      obtain ⟨h, hrecv, rfl⟩ := zoom_ok_iff.mp hs
      exact ends_of_recv hrecv hc
    · simp at hr

theorem actorData_failsIn : (actorData : ServiceM τ Frame).FailsIn Settled :=
  fun _ _ _ hr => .inr (actorData_error hr)

end Serving

end KindleBridge.Device
