import KindleBridge.Device.Publishing

/-! # Sessions side by side

Any number of push sessions work on one store, call by call, and the device may crash at
any time. As long as no two of them have the same transfer, what is put in place is what
was declared. Two sessions of one transfer can mix their bytes.
-/

namespace KindleBridge.Device

open Schema Script FileSystem

/--
A store for some requests. Its metadata say which of them they belong to, how far it has
come and whether it is complete.
-/
def sampleStore (requests : List PushRequest) : SyncStore where
  root := []
  nfc := id
  hash bytes := String.ofList (bytes.map fun b => Char.ofNat b.toNat)
  isDigest _ := true
  encodeMetadata m := UInt8.ofNat (requests.findIdx fun r => r.id = m.transferId) ::
    (if m.state = .complete then 1 else 0) :: List.replicate m.nextOffset 0
  decodeMetadata
    | index :: state :: offset =>
      match requests[index.toNat]? with
      | some r => .ok ⟨metadataVersion, r.id, .push, r.remotePath, r.totalSize, r.fileHash,
          offset.length, if state = 1 then .complete else .inProgress⟩
      | none => .error "unknown request"
    | _ => .error "invalid metadata"

/-- The sessions at work and the file system that they share. -/
abbrev PushSessions := Workshop PushRequest StoreCall StoreCall.Answer (FileSystem String) StoreError
  (Option SyncStatus)

inductive SessionTurn
  | begin (session : PushSession)
  | move (index : ℕ)
  | crash

namespace PushSessions

variable (store : SyncStore)

def turn : SessionTurn → Turn PushRequest StoreCall StoreCall.Answer StoreError (Option SyncStatus)
  | .begin x => .start ⟨x.request, x.script store⟩
  | .move k => .move k
  | .crash => .crash

def step (w : PushSessions) (t : SessionTurn) : PushSessions :=
  Workshop.step StoreCall.serve w (turn store t)

/-- The rename onto a target that a session is about to make. -/
def publication (w : PushSessions) (k : ℕ) : Option (PushRequest × List String × List String) := do
  let p ← w.processes[k]?
  match p.script.pending with
  | some ⟨.target, .rename source path⟩ => some (p.tag, source, path)
  | _ => none

instance (r : PushRequest) (bytes : List UInt8) : Decidable (store.Declared r bytes) :=
  inferInstanceAs (Decidable (_ ∧ _))

/-- Whatever is put in place has the declared size and hash. -/
def PublishesDeclared (w : PushSessions) : SessionTurn → Prop
  | .move k => ∀ x ∈ publication w k, (w.state.rename x.2.1 x.2.2).1 = .ok () →
      ∃ bytes ∈ w.state.content x.2.1, store.Declared x.1 bytes
  | .begin _ | .crash => True

instance (w : PushSessions) : ∀ t, Decidable (PublishesDeclared store w t)
  | .move k => inferInstanceAs (Decidable (∀ x ∈ publication w k, _))
  | .begin _ | .crash => inferInstanceAs (Decidable True)

/--
A session begins only when no other one of its transfer is at work, and its path does not
lead into the staging directory.
-/
def BeginsApart (w : PushSessions) : SessionTurn → Prop
  | .begin x => x.request.Outside ∧ ∀ p ∈ w.processes, p.Live → p.tag.id ≠ x.request.id
  | .move _ | .crash => True

instance (p : Process PushRequest StoreCall StoreCall.Answer StoreError (Option SyncStatus)) :
    Decidable p.Live := inferInstanceAs (Decidable (_ ≠ none))

instance (w : PushSessions) : ∀ t, Decidable (BeginsApart w t)
  | .begin x => inferInstanceAs (Decidable (x.request.Outside ∧ ∀ p ∈ w.processes, _))
  | .move _ | .crash => inferInstanceAs (Decidable True)

variable {store} {w : PushSessions} {s : FileSystem String} {r : PushRequest} {call : StoreCall}
  {good : List UInt8 → Prop}

/-- The terms of the sessions, and when two of them do not disturb each other. -/
abbrev Safe (store : SyncStore) (w : PushSessions) : Prop :=
  w.Sound (fun r => store.sessionTerms r fun _ => True) (fun r r' => r.id ≠ r'.id) store.Clean

theorem clean_of_does (h : store.Does r good call s)
    (hc : store.Clean s) : store.Clean (call.serve s).2 := by
  rcases h with h | h
  · exact (h.effect hc).clean hc
  · rcases h.effect with he | hd
    · rwa [he]
    · exact hd.clean hc

theorem rely_of_does {id : String} (h : store.Does r good call s)
    (hc : store.Clean s) (hid : r.id ≠ id) : store.Rely id s (call.serve s).2 := by
  rcases h with h | h
  · exact (h.effect hc).rely hid hc
  · rcases h.effect with he | hd
    · rw [he]
      exact .refl s
    · exact hd.rely hid

theorem fits : Workshop.Fits (fun r => store.sessionTerms r fun _ => True)
    (fun r r' => r.id ≠ r'.id) store.Clean StoreCall.serve where
  served _ := rfl
  rely hid hc h := rely_of_does h hc hid
  state hc h := clean_of_does h hc

theorem safe_step (h : Safe store w) {t : SessionTurn} (ht : BeginsApart w t) :
    Safe store (step store w t) := by
  apply h.step fits
  cases t with
  | begin x =>
    obtain ⟨ho, hother⟩ := ht
    constructor
    · intro s hs
      exact (SyncStore.script_meets ho hs trivial (fun _ _ => trivial)
        fun _ _ _ _ => trivial).mono fun _ _ _ => trivial
    · intro p hp hlive _
      exact ⟨hother p hp hlive, (hother p hp hlive).symm⟩
  | move k => trivial
  | crash => trivial

theorem publication_eq_some {k : ℕ} {x : PushRequest × List String × List String}
    (h : publication w k = some x) : ∃ p, w.processes[k]? = some p ∧ p.tag = x.1 ∧
      p.script.pending = some ⟨.target, .rename x.2.1 x.2.2⟩ := by
  obtain ⟨p, hp, hx⟩ := Option.bind_eq_some_iff.mp h
  split at hx
  · rename_i source path hpending
    obtain rfl := Option.some.inj hx
    exact ⟨p, hp, rfl, hpending⟩
  · cases hx

theorem publishesDeclared_of_safe (h : Safe store w) (t : SessionTurn) :
    PublishesDeclared store w t := by
  cases t with
  | begin x => trivial
  | crash => trivial
  | move k =>
    intro x hx _
    obtain ⟨p, hp, htag, hpending⟩ := publication_eq_some hx
    have hdoes : store.Does p.tag (fun _ => True) ⟨.target, .rename x.2.1 x.2.2⟩ w.state :=
      h.permitted (.move k) p _ hp hpending
    rcases hdoes with hquiet | hpublishes
    · cases hquiet with
      | looks hl => cases hl
    · obtain ⟨hcall, -, -, bytes, hb, hd⟩ := hpublishes
      have hsource : x.2.1 = store.partPath p.tag.id := by
        simp only [StoreCall.mk.injEq, FsOp.rename.injEq, true_and] at hcall
        exact hcall.1
      exact ⟨bytes, hsource ▸ hb, htag ▸ hd⟩

/--
In every interleaving of sessions that begin apart, with crashes at any time, whatever is
put in place has the declared size and hash.
-/
theorem published_as_declared (store : SyncStore) {fs : FileSystem String}
    (hc : store.Clean fs) {turns : List SessionTurn}
    (h : Along (step store) BeginsApart ⟨[], fs⟩ turns) :
    Along (step store) (PublishesDeclared store) ⟨[], fs⟩ turns := by
  have hsafe : Safe store ⟨[], fs⟩ := ⟨hc, by simp, .nil⟩
  exact h.of_invariant hsafe fun w t hw ht => ⟨publishesDeclared_of_safe hw t, safe_step hw ht⟩

/-- A push of two bytes, and the request with which it is resumed. -/
def fresh : PushRequest := ⟨none, "t", "f", 2, "AB"⟩
def resumed : PushRequest := ⟨some "t", "t", "f", 2, "AB"⟩

/-- The first session gets one byte and is interrupted, the second one gets what is missing. -/
def interrupted : PushSession := ⟨fresh, true, fun _ => [[65]], false⟩
def resumption : PushSession :=
  ⟨resumed, true, fun offset => [[65, 66].drop offset], true⟩

/-- The second session begins when the first one has retreated. -/
theorem published_as_declared_in_turn :
    Along (step (sampleStore [fresh])) (PublishesDeclared (sampleStore [fresh])) ⟨[], .empty⟩
      (.begin interrupted :: List.replicate 20 (.move 0) ++
        .begin resumption :: List.replicate 23 (.move 1)) :=
  published_as_declared _ SyncStore.clean_empty (by decide +kernel)

/-- The first session cuts the file when the second one has hashed what was in it. -/
def race : List SessionTurn :=
  .begin interrupted :: List.replicate 14 (.move 0) ++
    .begin resumption :: List.replicate 13 (.move 1) ++ .move 0 :: List.replicate 4 (.move 1)

/-- The file that is put in place starts with a zero instead of the declared byte. -/
theorem race_publishes_other_bytes : ¬ Along (step (sampleStore [fresh]))
    (PublishesDeclared (sampleStore [fresh])) ⟨[], .empty⟩ race := by
  decide +kernel

end PushSessions

end KindleBridge.Device
