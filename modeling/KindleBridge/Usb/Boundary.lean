import KindleBridge.Usb.Interrupted

/-! # Where the recovery of the frame boundary stops

An attempt looks at the bytes up to the next failed read, or up to the limit, however they are
cut into chunks. So the recovery stops at the first magic if one attempt looks at all of its
letters, and misses it if an attempt ends inside of it.
-/

namespace KindleBridge.Usb

open Wire TransportError BufferedEndpoint List

/-! ## What one attempt does -/

section Attempt

variable {limit room : ℕ} {xs : List UInt8} {tape : List (Option UInt8)}

theorem attemptBytes_ne_nil : attemptBytes limit room tape ≠ [] := by
  induction tape generalizing room with
  | nil => simp [attemptBytes]
  | cons o tape ih =>
    cases o with
    | none => simp [attemptBytes]
    | some b =>
      rw [attemptBytes]
      split_ifs
      · simp
      · rw [Ne, modifyHead_eq_nil_iff]
        exact ih

theorem attemptBytes_flatten : (attemptBytes limit room tape).flatten = tape.filterMap id := by
  induction tape generalizing room with
  | nil => rfl
  | cons o tape ih =>
    cases o with
    | none => simp [attemptBytes, ih]
    | some b =>
      rw [attemptBytes]
      split_ifs
      · simp [ih]
      · obtain ⟨p, ps, hps⟩ := exists_cons_of_ne_nil (@attemptBytes_ne_nil limit (room - 1) tape)
        have hih := @ih (room - 1)
        rw [hps] at hih ⊢
        rw [modifyHead_cons, flatten_cons, cons_append, ← flatten_cons, hih]
        rfl

theorem attemptBytes_append (h : xs.length < room) : attemptBytes limit room (xs.map some ++ tape) =
      (attemptBytes limit (room - xs.length) tape).modifyHead (xs ++ ·) := by
  induction xs generalizing room with
  | nil =>
    cases hps : attemptBytes limit room tape <;> simp [hps]
  | cons x xs ih =>
    simp only [length_cons] at h
    rw [map_cons, cons_append, attemptBytes, if_neg (by omega), ih (by omega),
      modifyHead_modifyHead, length_cons, Nat.sub_sub, Nat.add_comm 1]
    rfl

theorem attemptBytes_limit (h : xs.length = room) (hpos : 0 < room) :
    attemptBytes limit room (xs.map some ++ tape) = xs :: attemptBytes limit limit tape := by
  induction xs generalizing room with
  | nil => simp at h; omega
  | cons x xs ih =>
    simp only [length_cons] at h
    rw [map_cons, cons_append, attemptBytes]
    split_ifs with hone
    · obtain rfl : xs = [] := length_eq_zero_iff.mp (by omega)
      rfl
    · rw [ih (by omega) (by omega)]
      rfl

theorem attemptBytes_turn (hle : xs.length ≤ room) (hpos : 0 < room) {piece : List UInt8}
    {pieces : List (List UInt8)}
    (h : attemptBytes limit room (xs.map some ++ tape) = piece :: pieces) :
    ∃ rest, piece = xs ++ rest ∧
      (xs.length < room ∧ attemptBytes limit (room - xs.length) tape = rest :: pieces ∨
        xs.length = room ∧ rest = [] ∧ attemptBytes limit limit tape = pieces) := by
  rcases hle.lt_or_eq with hlt | heq
  · rw [attemptBytes_append hlt] at h
    obtain ⟨rest, ps, hps⟩ := exists_cons_of_ne_nil
      (@attemptBytes_ne_nil limit (room - xs.length) tape)
    rw [hps, modifyHead_cons] at h
    obtain ⟨rfl, rfl⟩ := List.cons.inj h
    exact ⟨rest, rfl, .inl ⟨hlt, hps⟩⟩
  · rw [attemptBytes_limit heq hpos] at h
    obtain ⟨rfl, rfl⟩ := List.cons.inj h
    exact ⟨[], (append_nil _).symm, .inr ⟨heq, rfl, rfl⟩⟩

end Attempt

namespace BufferedEndpoint

variable {e e' : BufferedEndpoint} {n : ℕ}

theorem Retriable.mono (h : e.Retriable) (hsub : e'.feed ⊆ e.feed) : e'.Retriable :=
  fun kind message hmem => h kind message (hsub hmem)

theorem tape_consume (e : BufferedEndpoint) (n : ℕ) :
    e.tape = (e.buffer.take n).map some ++ (e.consume n).tape := by
  rw [tape, tape, consume, ← append_assoc, ← map_append, take_append_drop]

theorem bytes_eq (e : BufferedEndpoint) (n : ℕ) :
    e.bytes = e.buffer.take n ++ (e.consume n).bytes := by
  rw [bytes, bytes, e.tape_consume n, filterMap_append, filterMap_map,
    Function.id_comp, filterMap_some]

theorem bytes_consume (h : n ≤ e.buffer.length) : (e.consume n).bytes = e.bytes.drop n := by
  rw [e.bytes_eq n, drop_left' (length_take_of_le h)]

theorem fillBuf_cases (e : BufferedEndpoint) : ∃ e', e'.feed ⊆ e.feed ∧
      ((∃ kind message, e.fillBuf = (.error (.io kind message), e') ∧
          .fault kind message ∈ e.feed ∧ e.tape = none :: e'.tape) ∨
        (e.fillBuf = (.ok [], e') ∧ (e.tape = none :: e'.tape ∨ e.tape = [] ∧ e'.tape = [])) ∨
        (e.fillBuf = (.ok (e'.buffer.take maxFunctionfsIo), e') ∧ e'.buffer ≠ [] ∧
          e.tape = e'.tape)) := by
  rcases e with ⟨buffer, feed⟩
  by_cases hbuffer : buffer = []
  · subst hbuffer
    rcases feed with _ | ⟨⟨bytes⟩ | ⟨kind, message⟩, feed⟩
    · exact ⟨_, List.Subset.refl _, .inr (.inl ⟨rfl, .inr ⟨rfl, rfl⟩⟩)⟩
    · refine ⟨⟨bytes, feed⟩, subset_cons_self _ _, .inr ?_⟩
      rcases bytes with _ | ⟨b, bytes⟩
      · exact .inl ⟨rfl, .inl rfl⟩
      · exact .inr ⟨rfl, cons_ne_nil _ _, rfl⟩
    · exact ⟨⟨[], feed⟩, subset_cons_self _ _, .inl ⟨kind, message, rfl, mem_cons_self, rfl⟩⟩
  · refine ⟨⟨buffer, feed⟩, List.Subset.refl _, .inr (.inr ⟨?_, hbuffer, rfl⟩)⟩
    rw [fillBuf, if_neg hbuffer]

end BufferedEndpoint

namespace InterruptedReader

variable {r : InterruptedReader} {fuel matched scanned : ℕ} {piece : List UInt8}
  {pieces : List (List UInt8)}

/-- The end of an attempt: what it returns, and what is left for the next one. -/
structure Ends (matched : ℕ) (piece : List UInt8) (pieces : List (List UInt8))
    (outcome : Except TransportError Unit × InterruptedReader) : Prop where
  found : (scanChunk matched piece).2.2 = true → outcome.1 = .ok () ∧ outcome.2.magicOffset = 0 ∧
    outcome.2.inner.bytes = (piece :: pieces).flatten.drop (scanChunk matched piece).1
  missed : (scanChunk matched piece).2.2 = false →
    (∃ e, outcome.1 = .error e ∧ e.allowsInPlaceRestart) ∧ outcome.2.inner.Retriable ∧
      (attemptBytes maxResynchronizeBytes maxResynchronizeBytes outcome.2.inner.tape = pieces ∨
        pieces = [] ∧ outcome.2.inner.tape = [])

theorem resynchronizeLoop_limit (h : maxResynchronizeBytes ≤ scanned) :
    resynchronizeLoop fuel matched scanned r = (.error (.io .invalidData
      "KBP frame boundary was not found within the USB recovery limit"), r) := by
  cases fuel with
  | zero => rfl
  | succ fuel => rw [resynchronizeLoop, if_neg (by omega)]

/-- One turn of the loop looks at a nonempty beginning of the buffer, within the limit. -/
theorem resynchronizeLoop_turn {e : BufferedEndpoint} (hscanned : scanned < maxResynchronizeBytes)
    (hfill : r.inner.fillBuf = (.ok (e.buffer.take maxFunctionfsIo), e)) (hne : e.buffer ≠ []) :
    ∃ k, 0 < k ∧ k ≤ e.buffer.length ∧ k ≤ maxResynchronizeBytes - scanned ∧
      resynchronizeLoop (fuel + 1) matched scanned r =
        let (consumed, m, found) := scanChunk matched (e.buffer.take k)
        if found then (.ok (), { r with inner := e.consume consumed, magicOffset := 0 })
        else resynchronizeLoop fuel m (scanned + consumed)
          { r with inner := e.consume consumed } := by
  have hbuffer := length_pos_iff.mpr hne
  have hio : 0 < maxFunctionfsIo := by decide
  have havailable : e.buffer.take maxFunctionfsIo ≠ [] := by
    rw [ne_eq, take_eq_nil_iff]
    exact not_or.mpr ⟨hio.ne', hne⟩
  refine ⟨min (min (e.buffer.take maxFunctionfsIo).length (maxResynchronizeBytes - scanned))
    maxFunctionfsIo, ?_, ?_, ?_, ?_⟩
  · rw [length_take]
    omega
  · rw [length_take]
    omega
  · omega
  · rw [resynchronizeLoop, if_pos hscanned, hfill]
    dsimp only
    rw [if_neg havailable, take_take]

section Ends

variable {chunk rest : List UInt8} {outcome : Except TransportError Unit × InterruptedReader}

theorem ends_found (hfound : (scanChunk matched chunk).2.2 = true) (hok : outcome.1 = .ok ())
    (hoffset : outcome.2.magicOffset = 0) (hbytes : outcome.2.inner.bytes =
      (chunk ++ rest ++ pieces.flatten).drop (scanChunk matched chunk).1) :
    Ends matched (chunk ++ rest) pieces outcome := by
  have hscan := scanChunk_append matched chunk rest
  rw [if_pos hfound] at hscan
  rw [← flatten_cons] at hbytes
  refine ⟨fun _ => ⟨hok, hoffset, hscan ▸ hbytes⟩, fun hno => ?_⟩
  rw [hscan, hfound] at hno
  cases hno

theorem ends_missed (herror : ∃ e, outcome.1 = .error e ∧ e.allowsInPlaceRestart)
    (hr : outcome.2.inner.Retriable)
    (hnext : attemptBytes maxResynchronizeBytes maxResynchronizeBytes outcome.2.inner.tape =
      pieces ∨ pieces = [] ∧ outcome.2.inner.tape = []) : Ends matched [] pieces outcome :=
  ⟨by simp [scanChunk], fun _ => ⟨herror, hr, hnext⟩⟩

theorem Ends.behind (hmiss : (scanChunk matched chunk).2.2 = false)
    (h : Ends (scanChunk matched chunk).2.1 rest pieces outcome) :
    Ends matched (chunk ++ rest) pieces outcome := by
  have hscan := scanChunk_append matched chunk rest
  rw [if_neg (by simp [hmiss])] at hscan
  refine ⟨fun hf => ?_, fun hf => ?_⟩
  · rw [hscan] at hf ⊢
    obtain ⟨hok, hoffset, hbytes⟩ := h.found hf
    refine ⟨hok, hoffset, hbytes.trans ?_⟩
    rw [flatten_cons, flatten_cons, append_assoc, ← drop_drop, drop_left]
  · rw [hscan] at hf
    exact h.missed hf

end Ends

theorem resynchronizeLoop_ends (hr : r.inner.Retriable) (hscanned : scanned < maxResynchronizeBytes)
    (hfuel : maxResynchronizeBytes - scanned ≤ fuel)
    (hpieces : attemptBytes maxResynchronizeBytes (maxResynchronizeBytes - scanned) r.inner.tape =
      piece :: pieces) : Ends matched piece pieces (resynchronizeLoop fuel matched scanned r) := by
  induction fuel generalizing matched scanned r piece with
  | zero => omega
  | succ fuel ih =>
    obtain ⟨e, hsub, hfill⟩ := r.inner.fillBuf_cases
    rcases hfill with ⟨kind, message, hfill, hmem, htape⟩ | ⟨hfill, htape⟩ | ⟨hfill, hne, htape⟩
    · rw [htape, attemptBytes] at hpieces
      obtain ⟨rfl, rfl⟩ := List.cons.inj hpieces
      rw [resynchronizeLoop, if_pos hscanned, hfill]
      exact ends_missed ⟨_, rfl, hr kind message hmem⟩ (hr.mono hsub) (.inl rfl)
    · have hmissed : piece = [] ∧ (attemptBytes maxResynchronizeBytes maxResynchronizeBytes e.tape =
          pieces ∨ pieces = [] ∧ e.tape = []) := by
        rcases htape with htape | ⟨htape, hempty⟩ <;> rw [htape, attemptBytes] at hpieces <;>
          obtain ⟨rfl, rfl⟩ := List.cons.inj hpieces
        · exact ⟨rfl, .inl rfl⟩
        · exact ⟨rfl, .inr ⟨rfl, hempty⟩⟩
      obtain ⟨rfl, hnext⟩ := hmissed
      rw [resynchronizeLoop, if_pos hscanned, hfill]
      exact ends_missed ⟨_, rfl, rfl⟩ (hr.mono hsub) hnext
    · obtain ⟨k, hpos, hbuffer, hlimit, hturn⟩ := resynchronizeLoop_turn hscanned hfill hne
      have hlength : (e.buffer.take k).length = k := length_take_of_le hbuffer
      have hflatten : e.bytes = piece ++ pieces.flatten := by
        rw [bytes, ← htape, ← attemptBytes_flatten, hpieces, flatten_cons]
      rw [htape, e.tape_consume k] at hpieces
      obtain ⟨rest, rfl, hrest⟩ := attemptBytes_turn (by omega) (by omega) hpieces
      rw [hturn]
      cases hfound : (scanChunk matched (e.buffer.take k)).2.2 with
      | true =>
        have hle : (scanChunk matched (e.buffer.take k)).1 ≤ (e.buffer.take k).length :=
          scanChunk_le
        dsimp only
        rw [if_pos hfound]
        refine ends_found hfound rfl rfl ?_
        rw [← hflatten]
        exact e.bytes_consume (hle.trans (hlength.le.trans hbuffer))
      | false =>
        dsimp only
        rw [if_neg (by simp [hfound]), scanChunk_consumed hfound, hlength]
        refine .behind hfound ?_
        rw [hlength] at hrest
        rcases hrest with ⟨hlt, hrest⟩ | ⟨heq, rfl, hrest⟩
        · -- The attempt goes on behind the bytes of this turn.
          rw [Nat.sub_sub] at hrest
          exact @ih { r with inner := e.consume k } _ (scanned + k) rest (hr.mono hsub) (by omega)
            (by omega) hrest
        · rw [resynchronizeLoop_limit (by omega)]
          exact ends_missed ⟨_, rfl, rfl⟩ (hr.mono hsub) (.inl hrest)

theorem resynchronize_ends (hr : r.inner.Retriable)
    (hpieces : attemptBytes maxResynchronizeBytes maxResynchronizeBytes r.inner.tape =
      piece :: pieces) : Ends 0 piece pieces r.resynchronize :=
  @resynchronizeLoop_ends { r with magicOffset := 4 } maxResynchronizeBytes 0 0 piece pieces hr
    (by decide) le_rfl hpieces

theorem bytes_eq_flatten
    (hpieces : attemptBytes maxResynchronizeBytes maxResynchronizeBytes r.inner.tape = pieces) :
    r.inner.bytes = pieces.flatten := by
  rw [bytes, ← hpieces, attemptBytes_flatten]

/-! ## Reading behind the boundary -/

theorem read_pending (r : InterruptedReader) (n : ℕ) :
    (r.read n).1.toOption.getD [] ++ (r.read n).2.pending = r.pending := by
  unfold read
  split_ifs with hn hoffset
  · rfl
  · simp only [pending, Except.toOption, Option.getD_some, ← append_assoc]
    rw [← drop_drop, take_append_drop]
  · have hnone : magic.drop r.magicOffset = [] := drop_eq_nil_of_le (by
      have : magic.length = 4 := rfl
      omega)
    simp only [pending, hnone, nil_append]
    obtain ⟨e, -, hfill⟩ := r.inner.fillBuf_cases
    rw [BufferedEndpoint.read]
    rcases hfill with ⟨kind, message, hfill, -, htape⟩ | ⟨hfill, htape⟩ | ⟨hfill, -, htape⟩
    · rw [hfill]
      simp [Except.toOption, bytes, htape]
    · rw [hfill]
      rcases htape with htape | ⟨htape, hempty⟩ <;> simp_all [Except.toOption, bytes, consume]
    · rw [hfill]
      have hfront : (e.buffer.take maxFunctionfsIo).take n <+: e.buffer :=
        ( take_prefix _ _).trans ( take_prefix _ _)
      have hbytes := e.bytes_eq ((e.buffer.take maxFunctionfsIo).take n).length
      rw [← prefix_iff_eq_take.mp hfront] at hbytes
      rw [show r.inner.bytes = e.bytes from congrArg (filterMap id) htape, hbytes]
      rfl

theorem delivers_pending (r : InterruptedReader) : r.Delivers r.pending := by
  intro sizes
  induction sizes generalizing r with
  | nil => rfl
  | cons n sizes ih =>
    rw [reads]
    dsimp only
    rw [append_assoc, ih, read_pending]

/-! ## Where the recovery stops -/

/-- If one attempt looks at the whole magic, the recovery stops there. -/
theorem recoverFrameBoundary_of_withinOne {k : ℕ} (hr : r.inner.Retriable)
    (hpieces : attemptBytes maxResynchronizeBytes maxResynchronizeBytes r.inner.tape = pieces)
    (hk : FirstMagic r.inner.bytes k) (hwithin : WithinOne pieces k) :
    ∃ n r', recoverFrameBoundary n r = some (.ok (), r') ∧ r'.pending = r.inner.bytes.drop k := by
  induction pieces generalizing r k with
  | nil => exact hwithin.elim
  | cons piece pieces ih =>
    have hends := resynchronize_ends hr hpieces
    have hbytes := bytes_eq_flatten hpieces
    rw [flatten_cons] at hbytes
    rcases hwithin with hle | ⟨hle, hwithin⟩
    · have hmagic : magic <+: piece.drop k := by
        rw [hbytes] at hk
        exact (magic_prefix_append hle).mp hk.1
      have hfound := scanChunk_of_magic hmagic
      obtain ⟨j, hj, hjle, hscan⟩ := scanChunk_firstMagic hfound
      obtain rfl : j = k := (hj.append hjle).unique (hbytes ▸ hk)
      obtain ⟨hok, hoffset, hrest⟩ := hends.found hfound
      refine ⟨1, r.resynchronize.2, ?_, ?_⟩
      · rw [recoverFrameBoundary]
        rcases hres : r.resynchronize with ⟨outcome, r1⟩
        rw [hres] at hok
        rw [show outcome = .ok () from hok]
      · obtain ⟨rest, hdrop⟩ := hk.1
        rw [pending, hoffset, hrest, hscan, drop_zero, flatten_cons, ← hbytes, ← drop_drop, ← hdrop]
        rfl
    · have hmissed : (scanChunk 0 piece).2.2 = false := by
        by_contra hc
        rw [Bool.not_eq_false] at hc
        obtain ⟨j, hj, hjle, -⟩ := scanChunk_firstMagic hc
        have := (hj.append hjle).unique (hbytes ▸ hk)
        omega
      obtain ⟨⟨error, herror, hallows⟩, hr', hnext⟩ := hends.missed hmissed
      rcases hnext with hnext | ⟨rfl, -⟩
      · rcases hres : r.resynchronize with ⟨outcome, r1⟩
        rw [hres] at herror hr' hnext
        have hbytes' := bytes_eq_flatten hnext
        rw [← hbytes'] at hbytes
        have hfirst : FirstMagic r1.inner.bytes (k - piece.length) := by
          rw [hbytes] at hk
          exact hk.drop hle
        obtain ⟨n, r', hrecover, hpending⟩ := ih hr' hnext hfirst hwithin
        refine ⟨n + 1, r', ?_, ?_⟩
        · rw [recoverFrameBoundary, hres, show outcome = .error error from herror]
          exact (if_pos hallows).trans hrecover
        · rw [hpending, hbytes, drop_append, drop_eq_nil_of_le hle, nil_append]
      · exact hwithin.elim

/-- The recovery stops only where one attempt looks at the whole magic. -/
theorem withinOne_of_recoverFrameBoundary {n : ℕ} {r' : InterruptedReader} (hr : r.inner.Retriable)
    (hpieces : attemptBytes maxResynchronizeBytes maxResynchronizeBytes r.inner.tape = pieces)
    (h : recoverFrameBoundary n r = some (.ok (), r')) :
    ∃ k, WithinOne pieces k ∧ k + 4 ≤ r.inner.bytes.length ∧ r'.pending = r.inner.bytes.drop k := by
  induction n generalizing r pieces with
  | zero => cases h
  | succ n ih =>
    obtain ⟨piece, rest, hcons⟩ := exists_cons_of_ne_nil (hpieces ▸ attemptBytes_ne_nil)
    rw [hcons] at hpieces ⊢
    have hends := resynchronize_ends hr hpieces
    have hbytes := bytes_eq_flatten hpieces
    rw [flatten_cons] at hbytes
    rw [recoverFrameBoundary] at h
    rcases hres : r.resynchronize with ⟨outcome, r1⟩
    rw [hres] at h hends
    cases hfound : (scanChunk 0 piece).2.2 with
    | true =>
      obtain ⟨hok, hoffset, hrest⟩ := hends.found hfound
      obtain ⟨k, hk, hle, hscan⟩ := scanChunk_firstMagic hfound
      rw [show outcome = .ok () from hok] at h
      obtain rfl : r1 = r' := (Prod.mk.inj (Option.some.inj h)).2
      refine ⟨k, .inl hle, ?_, ?_⟩
      · rw [hbytes, length_append]
        omega
      · obtain ⟨tail, hdrop⟩ := (hk.append hle : FirstMagic (piece ++ rest.flatten) k).1
        rw [pending, hoffset, hrest, hscan, drop_zero, flatten_cons, hbytes, ← drop_drop, ← hdrop]
        rfl
    | false =>
      obtain ⟨⟨error, herror, hallows⟩, hr', hnext⟩ := hends.missed hfound
      rw [show outcome = .error error from herror] at h
      replace h := (if_pos hallows).symm.trans h
      rcases hnext with hnext | ⟨rfl, htape⟩
      · obtain ⟨k, hwithin, hle, hpending⟩ := ih hr' hnext h
        have hbytes' := bytes_eq_flatten hnext
        rw [← hbytes'] at hbytes
        refine ⟨piece.length + k, .inr ⟨by omega, ?_⟩, ?_, ?_⟩
        · rwa [Nat.add_sub_cancel_left]
        · rw [hbytes, length_append]
          omega
        · rw [hpending, hbytes, ← drop_drop, drop_left]
      · obtain ⟨k, hwithin, hle, -⟩ := ih hr' rfl h
        simp only [bytes, htape, filterMap_nil, length_nil] at hle
        omega

/-- Where all reads that fail can be tried again, the recovery stops at the first magic in the
stream, and hands out the stream from there on, if one attempt looks at all of its letters,
and otherwise it does not. -/
theorem recoverFrameBoundary_stops_iff {k : ℕ} (hr : r.inner.Retriable)
    (hk : FirstMagic r.inner.bytes k) : (∃ n r', recoverFrameBoundary n r = some (.ok (), r') ∧
        r'.Delivers (r.inner.bytes.drop k)) ↔
      WithinOne (attemptBytes maxResynchronizeBytes maxResynchronizeBytes r.inner.tape) k := by
  constructor
  · rintro ⟨n, r', hrecover, hdelivers⟩
    obtain ⟨j, hwithin, hle, hpending⟩ := withinOne_of_recoverFrameBoundary hr rfl hrecover
    have heq : r'.pending = r.inner.bytes.drop k := hdelivers []
    have hlength := congrArg List.length (hpending.symm.trans heq)
    have hkle := (magic_prefix_drop.mp hk.1).1
    simp only [length_drop] at hlength
    obtain rfl : j = k := by omega
    exact hwithin
  · intro hwithin
    obtain ⟨n, r', hrecover, hpending⟩ := recoverFrameBoundary_of_withinOne hr rfl hk hwithin
    exact ⟨n, r', hrecover, hpending ▸ r'.delivers_pending⟩

/-- A magic behind other bytes, in two chunks with no failed read between them. -/
theorem recoverFrameBoundary_stops_two_chunks :
    ∃ n r', recoverFrameBoundary n
        ⟨⟨[], [.fault .timedOut "timed out", .chunk [0, 75, 66], .chunk [80, 49, 1]]⟩, 4⟩ =
          some (.ok (), r') ∧ r'.Delivers [75, 66, 80, 49, 1] :=
  (@recoverFrameBoundary_stops_iff
    ⟨⟨[], [.fault .timedOut "timed out", .chunk [0, 75, 66], .chunk [80, 49, 1]]⟩, 4⟩ 1
    (by
      intro kind message hmem
      obtain ⟨rfl, rfl⟩ : kind = .timedOut ∧ message = "timed out" := by simpa using hmem
      rfl)
    (by decide)).mpr (by decide)

/-- A read that fails between the letters of the only magic hides it for good. -/
theorem recoverFrameBoundary_misses_interrupted_magic :
    FirstMagic [75, 66, 80, 49, 1] 0 ∧
      ∀ n r', recoverFrameBoundary n
        ⟨⟨[], [.chunk [75, 66], .fault .timedOut "timed out", .chunk [80, 49, 1]]⟩, 4⟩ ≠
          some (.ok (), r') := by
  refine ⟨by decide, fun n r' hrecover => ?_⟩
  obtain ⟨k, hwithin, -, -⟩ := withinOne_of_recoverFrameBoundary (by
    intro kind message hmem
    obtain ⟨rfl, rfl⟩ : kind = .timedOut ∧ message = "timed out" := by simpa using hmem
    rfl) rfl hrecover
  have hpieces : attemptBytes maxResynchronizeBytes maxResynchronizeBytes
      [some 75, some 66, none, some 80, some 49, some 1] = [[75, 66], [80, 49, 1]] := by decide
  replace hwithin : WithinOne [[75, 66], [80, 49, 1]] k := hpieces ▸ hwithin
  simp only [WithinOne, length_cons, length_nil, and_false, or_false] at hwithin
  omega

end InterruptedReader

end KindleBridge.Usb
