import Mathlib.Tactic.IntervalCases
import KindleBridge.Usb.Chunks

/-! # Looking for the magic when reads fail

A read of the endpoint can fail and be tried again. Every attempt to find the magic starts
with no letter matched, and it ends with a failed read or at the recovery limit. Within the
bytes of one attempt, the first magic is found.
-/

namespace KindleBridge.Usb

open Wire TransportError List

def maxFunctionfsIo : ℕ := 16 * 1024

inductive ReadEvent
  | chunk (bytes : List UInt8)
  | fault (kind : IoErrorKind) (message : String)
  deriving DecidableEq

/-- A buffered endpoint: the bytes read and not consumed yet, and what its reads will bring. -/
structure BufferedEndpoint where
  buffer : List UInt8
  feed : List ReadEvent

namespace BufferedEndpoint

/-- The file is read when the buffer is empty. At the end of the file a read brings nothing. -/
def fillBuf (e : BufferedEndpoint) : Except TransportError (List UInt8) × BufferedEndpoint :=
  if e.buffer = [] then
    match e.feed with
    | [] => (.ok [], e)
    | .chunk bytes :: feed => (.ok (bytes.take maxFunctionfsIo), ⟨bytes, feed⟩)
    | .fault kind message :: feed => (.error (.io kind message), ⟨[], feed⟩)
  else (.ok (e.buffer.take maxFunctionfsIo), e)

def consume (e : BufferedEndpoint) (n : ℕ) : BufferedEndpoint :=
  { e with buffer := e.buffer.drop n }

def read (e : BufferedEndpoint) (n : ℕ) : Except TransportError (List UInt8) × BufferedEndpoint :=
  match e.fillBuf with
  | (.ok available, e) =>
    (.ok (available.take n), e.consume (available.take n).length)
  | (.error error, e) => (.error error, e)

end BufferedEndpoint

/-- The resynchronizing reader over an endpoint whose reads can fail. -/
structure InterruptedReader where
  inner : BufferedEndpoint
  magicOffset : ℕ := 4

namespace InterruptedReader

def resynchronizeLoop : ℕ → ℕ → ℕ → InterruptedReader →
    Except TransportError Unit × InterruptedReader
  | fuel + 1, matched, scanned, r =>
    if scanned < maxResynchronizeBytes then
      match r.inner.fillBuf with
      | (.error error, inner) => (.error error, { r with inner })
      | (.ok available, inner) =>
        if available = [] then
          (.error (.io .unexpectedEof "FunctionFS endpoint ended during KBP resynchronization"),
            { r with inner })
        else
          let length := min available.length (maxResynchronizeBytes - scanned)
          let (consumed, matched, found) := scanChunk matched (available.take length)
          let r := { r with inner := inner.consume consumed }
          if found then (.ok (), { r with magicOffset := 0 })
          else resynchronizeLoop fuel matched (scanned + consumed) r
    else
      (.error (.io .invalidData
        "KBP frame boundary was not found within the USB recovery limit"), r)
  | 0, _, _, r =>
    (.error (.io .invalidData
      "KBP frame boundary was not found within the USB recovery limit"), r)

/-- Every turn of the loop looks at a byte at least, so it ends within the limit. -/
def resynchronize (r : InterruptedReader) : Except TransportError Unit × InterruptedReader :=
  resynchronizeLoop maxResynchronizeBytes 0 0 { r with magicOffset := 4 }

def read (r : InterruptedReader) (n : ℕ) :
    Except TransportError (List UInt8) × InterruptedReader :=
  if n = 0 then (.ok [], r)
  else if r.magicOffset < 4 then
    let length := min n (4 - r.magicOffset)
    (.ok ((magic.drop r.magicOffset).take length), { r with magicOffset := r.magicOffset + length })
  else
    let (result, inner) := r.inner.read n
    (result, { r with inner })

/-- Find a frame boundary, with at most the given number of attempts. -/
def recoverFrameBoundary : ℕ → InterruptedReader →
    Option (Except TransportError Unit × InterruptedReader)
  | 0, _ => none
  | n + 1, r =>
    match r.resynchronize with
    | (.ok _, r) => some (.ok (), r)
    | (.error e, r) =>
      if e.allowsInPlaceRestart then recoverFrameBoundary n r else some (.error e, r)

/-- What reads into buffers of the given sizes return together. A failed read returns nothing. -/
def reads : List ℕ → InterruptedReader → List UInt8 × InterruptedReader
  | [], r => ([], r)
  | n :: sizes, r =>
    let (result, r) := r.read n
    let (bytes, r) := reads sizes r
    (result.toOption.getD [] ++ bytes, r)

end InterruptedReader

/-! ## The bytes of one attempt -/

/-- The bytes of a read. Where there are none, the attempt ends. -/
def ReadEvent.tape : ReadEvent → List (Option UInt8)
  | .chunk [] | .fault _ _ => [none]
  | .chunk bytes => bytes.map some

namespace BufferedEndpoint

/-- What is still to come, byte by byte, with a gap where a read fails or brings nothing. -/
def tape (e : BufferedEndpoint) : List (Option UInt8) :=
  e.buffer.map some ++ e.feed.flatMap ReadEvent.tape

def bytes (e : BufferedEndpoint) : List UInt8 := e.tape.filterMap id

/-- Every read that fails can be tried again. -/
def Retriable (e : BufferedEndpoint) : Prop :=
  ∀ kind message, .fault kind message ∈ e.feed → (io kind message).allowsInPlaceRestart

end BufferedEndpoint

/-- The bytes that each attempt looks at if it does not find the magic: up to a gap, or to the
limit. The first attempt has the given room left. -/
def attemptBytes (limit : ℕ) : ℕ → List (Option UInt8) → List (List UInt8)
  | _, [] => [[]]
  | _, none :: tape => [] :: attemptBytes limit limit tape
  | room, some b :: tape =>
    if room ≤ 1 then [b] :: attemptBytes limit limit tape
    else (attemptBytes limit (room - 1) tape).modifyHead (b :: ·)

/-- One of the attempts looks at the four bytes from this position on. -/
def WithinOne : List (List UInt8) → ℕ → Prop
  | [], _ => False
  | piece :: pieces, k =>
    k + 4 ≤ piece.length ∨ piece.length ≤ k ∧ WithinOne pieces (k - piece.length)

instance decidableWithinOne : ∀ pieces k, Decidable (WithinOne pieces k)
  | [], _ => instDecidableFalse
  | _ :: pieces, _ =>
    have := decidableWithinOne pieces
    inferInstanceAs (Decidable (_ ∨ _ ∧ _))

/-- The magic stands at this position, and not before. -/
def FirstMagic (bytes : List UInt8) (k : ℕ) : Prop :=
  magic <+: bytes.drop k ∧ ∀ j < k, ¬ magic <+: bytes.drop j

instance (bytes : List UInt8) (k : ℕ) : Decidable (FirstMagic bytes k) :=
  inferInstanceAs (Decidable (_ ∧ _))

namespace InterruptedReader

def pending (r : InterruptedReader) : List UInt8 := magic.drop r.magicOffset ++ r.inner.bytes

/-- However it is read, the reader hands out these bytes in order. -/
def Delivers (r : InterruptedReader) (bytes : List UInt8) : Prop :=
  ∀ sizes, (r.reads sizes).1 ++ (r.reads sizes).2.pending = bytes

end InterruptedReader

/-! ## Scanning finds the first magic -/

section Scan

variable {matched : ℕ} {front xs bytes : List UInt8} {b : UInt8} {j k : ℕ} {rest : List UInt8}

theorem take_magic_suffix_concat (hj : j < 4) :
    magic.take (j + 1) <:+ front ++ [b] ↔ magic.take j <:+ front ∧ magic[j]? = some b := by
  have htake : magic.take (j + 1) = magic.take j ++ [magic.getD j 0] := by
    interval_cases j <;> rfl
  have hget : magic[j]? = some (magic.getD j 0) := by
    interval_cases j <;> rfl
  rw [htake, hget, Option.some_inj]
  constructor
  · rintro ⟨t, ht⟩
    rw [← append_assoc] at ht
    obtain ⟨hfront, hb⟩ := append_inj' ht rfl
    exact ⟨⟨t, hfront⟩, singleton_inj.mp hb⟩
  · rintro ⟨⟨t, rfl⟩, rfl⟩
    exact ⟨t, append_assoc _ _ _ |>.symm⟩

/-- The letters of the magic differ, so its beginnings end in different letters: just those
that are matched stand at the end of the bytes. -/
def Matches (matched : ℕ) (front : List UInt8) : Prop :=
  matched ≤ 4 ∧ ∀ j, 0 < j → j ≤ 4 → (magic.take j <:+ front ↔ j = matched)

theorem Matches.nil : Matches 0 [] := by
  constructor
  · omega
  · intro j hj hj4
    interval_cases j <;> decide

theorem Matches.matchByte (h : Matches matched front) (hlt : matched < 4) (b : UInt8) :
    Matches (matchByte matched b) (front ++ [b]) := by
  have hsucc : ∀ j < 4, magic.take (j + 1) <:+ front ++ [b] ↔
      (j = 0 ∨ j = matched) ∧ magic[j]? = some b := by
    intro j hj
    rw [take_magic_suffix_concat hj]
    refine and_congr_left fun _ => ?_
    rcases Nat.eq_zero_or_pos j with rfl | hpos
    · simp
    · rw [h.2 j hpos (by omega)]
      omega
  constructor
  · rw [Usb.matchByte]
    split_ifs <;> omega
  · intro j hpos hj
    obtain ⟨i, rfl⟩ : ∃ i, j = i + 1 := ⟨j - 1, by omega⟩
    rw [hsucc i (by omega), Usb.matchByte]
    have hi : i < 4 := by omega
    interval_cases matched <;> interval_cases i <;> simp only [magic] <;> grind

theorem Matches.not_suffix (h : Matches matched front) (hlt : matched < 4) : ¬ magic <:+ front := by
  intro hs
  have := (h.2 4 (by omega) le_rfl).mp hs
  omega

/-- Scanning goes on over bytes that do not complete the magic, and stops at the one that does. -/
theorem scanChunk_spec (h : Matches matched front) (hlt : matched < 4) :
    (∀ i < (scanChunk matched xs).1, ¬ magic <:+ front ++ xs.take i) ∧
      (scanChunk matched xs).1 ≤ xs.length ∧ ((scanChunk matched xs).2.2 = true ↔
        magic <:+ front ++ xs.take (scanChunk matched xs).1) := by
  induction xs generalizing matched front with
  | nil => simpa [scanChunk] using h.not_suffix hlt
  | cons x xs ih =>
    have hnext := h.matchByte hlt x
    have hcons : ∀ ys, front ++ x :: ys = front ++ [x] ++ ys := by simp
    by_cases h4 : Usb.matchByte matched x = 4
    · rw [scanChunk, if_pos h4]
      refine ⟨?_, ?_, ?_⟩
      · intro i hi
        obtain rfl : i = 0 := by simpa using hi
        simpa using h.not_suffix hlt
      · simp
      · exact iff_of_true rfl ((hnext.2 4 (by omega) le_rfl).mpr h4.symm)
    · obtain ⟨hbefore, hle, hend⟩ := ih hnext (lt_of_le_of_ne hnext.1 h4)
      rw [scanChunk, if_neg h4]
      refine ⟨?_, ?_, ?_⟩
      · intro i hi
        cases i with
        | zero => simpa using h.not_suffix hlt
        | succ i =>
          rw [take_succ_cons, hcons]
          exact hbefore i (by simpa using hi)
      · simpa using hle
      · dsimp only
        rw [take_succ_cons, hcons]
        exact hend

theorem magic_prefix_drop : magic <+: bytes.drop k ↔
    k + 4 ≤ bytes.length ∧ magic <:+ bytes.take (k + 4) := by
  have hdrop : (bytes.take (k + 4)).drop k = (bytes.drop k).take 4 := by
    rw [drop_take]
    simp
  rw [prefix_iff_eq_take, suffix_iff_eq_drop]
  constructor
  · intro h
    have hlength := congrArg List.length h
    simp only [magic, length_take, length_drop, length_cons, length_nil] at hlength
    have hle : k + 4 ≤ bytes.length := by omega
    rw [length_take, min_eq_left hle]
    exact ⟨hle, h.trans hdrop.symm⟩
  · rintro ⟨hle, h⟩
    rw [length_take, min_eq_left hle] at h
    exact h.trans hdrop

/-- An attempt finds the magic that is the first in its bytes, and stops right behind it. -/
theorem scanChunk_firstMagic (h : (scanChunk 0 bytes).2.2 = true) :
    ∃ k, FirstMagic bytes k ∧ k + 4 ≤ bytes.length ∧ (scanChunk 0 bytes).1 = k + 4 := by
  obtain ⟨hbefore, hle, hend⟩ := @scanChunk_spec 0 [] bytes Matches.nil (by omega)
  have hsuffix := hend.mp h
  have hlength := hsuffix.length_le
  simp only [magic, nil_append, length_take, length_cons, length_nil] at hlength
  obtain ⟨k, hk⟩ : ∃ k, (scanChunk 0 bytes).1 = k + 4 := ⟨(scanChunk 0 bytes).1 - 4, by omega⟩
  rw [hk] at hbefore hle hsuffix
  refine ⟨k, ⟨magic_prefix_drop.mpr ⟨hle, hsuffix⟩, ?_⟩, hle, hk⟩
  intro j hj hmagic
  exact hbefore (j + 4) (by omega) (magic_prefix_drop.mp hmagic).2

theorem scanChunk_of_magic (h : magic <+: bytes.drop k) : (scanChunk 0 bytes).2.2 = true := by
  obtain ⟨hle, hsuffix⟩ := magic_prefix_drop.mp h
  obtain ⟨hbefore, -, -⟩ := @scanChunk_spec 0 [] bytes Matches.nil (by omega)
  by_contra hc
  rw [Bool.not_eq_true] at hc
  obtain ⟨-, -, hend⟩ := @scanChunk_spec 0 [] bytes Matches.nil (by omega)
  rw [scanChunk_consumed hc] at hbefore hend
  rcases hle.lt_or_eq with hlt | heq
  · exact hbefore _ hlt hsuffix
  · rw [← heq] at hend
    exact absurd (hend.mpr hsuffix) (by simp [hc])

theorem scanChunk_le : (scanChunk matched xs).1 ≤ xs.length := by
  induction xs generalizing matched with
  | nil => exact le_rfl
  | cons x xs ih =>
    rw [scanChunk]
    split_ifs
    · simp
    · simpa using ih

theorem magic_prefix_append (h : k + 4 ≤ bytes.length) :
    magic <+: (bytes ++ rest).drop k ↔ magic <+: bytes.drop k := by
  rw [magic_prefix_drop, magic_prefix_drop, take_append_of_le_length h, length_append]
  exact and_congr_left fun _ => ⟨fun _ => h, fun _ => by omega⟩

theorem FirstMagic.append (h : FirstMagic bytes k)
    (hle : k + 4 ≤ bytes.length) : FirstMagic (bytes ++ rest) k := by
  constructor
  · exact (magic_prefix_append hle).mpr h.1
  · intro j hj hmagic
    exact h.2 j hj ((magic_prefix_append (by omega)).mp hmagic)

theorem FirstMagic.drop (h : FirstMagic (bytes ++ rest) k)
    (hle : bytes.length ≤ k) : FirstMagic rest (k - bytes.length) := by
  have hdrop : ∀ j, (bytes ++ rest).drop (bytes.length + j) = rest.drop j := by
    intro j
    rw [← drop_drop, drop_left]
  constructor
  · rw [← hdrop, Nat.add_sub_cancel' hle]
    exact h.1
  · intro j hj hmagic
    rw [← hdrop] at hmagic
    exact h.2 _ (by omega) hmagic

theorem FirstMagic.unique (h : FirstMagic bytes j) (h' : FirstMagic bytes k) : j = k := by
  rcases lt_trichotomy j k with hlt | heq | hlt
  · exact absurd h.1 (h'.2 j hlt)
  · exact heq
  · exact absurd h'.1 (h.2 k hlt)

end Scan

end KindleBridge.Usb
