import KindleBridge.Usb.Reader

/-! # Reading does not depend on the chunks

However the bytes are cut into chunks, a reader gets the next bytes in order, and looking
for the magic stops right behind it.
-/

namespace KindleBridge.Usb

open Wire List

namespace ResynchronizingReader

variable {r : ResynchronizingReader} {config : TransportConfig} {n : ℕ}

def pending (r : ResynchronizingReader) : List UInt8 := magic.drop r.magicOffset ++ r.inner.bytes

theorem read_pending (r : ResynchronizingReader) (hn : 0 < n) :
    r.pending = (r.read n).1 ++ (r.read n).2.pending ∧ (r.read n).1.length ≤ n ∧
      (r.pending ≠ [] → (r.read n).1 ≠ []) := by
  have hmagic : magic.length = 4 := rfl
  unfold read
  rw [if_neg (by omega)]
  split_ifs with hoffset
  · simp only [pending, ← append_assoc]
    refine ⟨?_, by simp, fun _ => ?_⟩
    · rw [← drop_drop, take_append_drop]
    · intro hnil
      have hlength := congrArg List.length hnil
      simp only [length_take, length_drop, hmagic, length_nil] at hlength
      omega
  · have hnone : magic.drop r.magicOffset = [] := drop_eq_nil_of_le (by omega)
    simp only [pending, hnone, nil_append, Endpoint.read]
    refine ⟨(take_append_drop _ _).symm, by simp, fun hne hnil => ?_⟩
    have hlength := congrArg List.length hnil
    have hsize : 1 ≤ r.inner.size := le_max_left _ _
    have hpos := length_pos_iff.mpr hne
    simp only [length_take, length_nil] at hlength
    omega

theorem readExactLoop_eq {fuel n : ℕ} (h : n ≤ fuel) :
    (readExactLoop fuel n r).1 = r.pending.take n ∧
      (readExactLoop fuel n r).2.pending = r.pending.drop n := by
  induction fuel generalizing n r with
  | zero =>
    obtain rfl : n = 0 := by omega
    simp [readExactLoop]
  | succ fuel ih =>
    rw [readExactLoop]
    split_ifs with hn hread
    · subst hn
      simp
    · obtain ⟨heq, -, hne⟩ := r.read_pending (Nat.pos_of_ne_zero hn)
      have hnil : r.pending = [] := by
        by_contra hc
        exact hne hc hread
      rw [hread, nil_append, hnil] at heq
      simp [hnil, ← heq]
    · obtain ⟨heq, hle, -⟩ := r.read_pending (Nat.pos_of_ne_zero hn)
      have hpos := length_pos_iff.mpr hread
      obtain ⟨hfront, hback⟩ := @ih (r.read n).2 (n - (r.read n).1.length) (by omega)
      dsimp only
      rw [hfront, hback, heq, take_append, drop_append, take_of_length_le hle,
        drop_eq_nil_of_le hle, nil_append]
      exact ⟨rfl, rfl⟩

theorem read_magicOffset (h : 4 ≤ r.magicOffset + n) :
    4 ≤ (r.read n).2.magicOffset + (n - (r.read n).1.length) := by
  have hmagic : magic.length = 4 := rfl
  unfold read
  split_ifs
  · exact h
  · simp only [length_take, length_drop, hmagic]
    omega
  · dsimp only
    omega

theorem readExactLoop_magicOffset {fuel n : ℕ} (h : n ≤ fuel) (h4 : 4 ≤ r.magicOffset + n) :
    4 ≤ (readExactLoop fuel n r).2.magicOffset := by
  induction fuel generalizing n r with
  | zero =>
    rw [readExactLoop]
    dsimp only
    omega
  | succ fuel ih =>
    have hread := read_magicOffset h4
    rw [readExactLoop]
    split_ifs with hn hnil
    · dsimp only
      omega
    · -- Nothing comes from the endpoint only, that is, behind the magic.
      have hoffset : ¬ r.magicOffset < 4 := by
        intro hlt
        have hlength := congrArg List.length hnil
        have hmagic : magic.length = 4 := rfl
        rw [read, if_neg hn, if_pos hlt] at hlength
        simp only [length_take, length_drop, hmagic, length_nil] at hlength
        omega
      rw [read, if_neg hn, if_neg hoffset]
      exact not_lt.mp hoffset
    · have hpos := length_pos_iff.mpr hnil
      exact ih (by omega) hread

theorem readExactCounted_eq {front rest : List UInt8} (hp : r.pending = front ++ rest)
    (hn : front.length = n) : ∃ r', r.readExactCounted n = (front, r') ∧ r'.pending = rest ∧
      (4 ≤ n → r'.inner.bytes = rest) := by
  obtain ⟨hfst, hsnd⟩ := @readExactLoop_eq r n n le_rfl
  rw [hp, take_left' hn] at hfst
  rw [hp, drop_left' hn] at hsnd
  refine ⟨(r.readExactCounted n).2, Prod.ext hfst rfl, hsnd, fun h4 => ?_⟩
  have hoffset : magic.length ≤ (readExactLoop n n r).2.magicOffset :=
    readExactLoop_magicOffset le_rfl (by omega)
  rwa [pending, drop_eq_nil_of_le hoffset, nil_append] at hsnd

end ResynchronizingReader

section Scan

theorem scanChunk_append (matched : ℕ) (xs ys : List UInt8) : scanChunk matched (xs ++ ys) =
      if (scanChunk matched xs).2.2 then scanChunk matched xs else
        let next := scanChunk (scanChunk matched xs).2.1 ys
        (xs.length + next.1, next.2) := by
  induction xs generalizing matched with
  | nil => simp [scanChunk]
  | cons x xs ih =>
    rw [cons_append, scanChunk, scanChunk]
    split_ifs with h4 hfound
    · rfl
    · simp at hfound
    · rename_i hfound
      rw [ih, if_pos hfound]
    · rename_i hfound
      rw [ih, if_neg hfound]
      simp [Nat.add_right_comm]

theorem scanChunk_consumed {matched : ℕ} {xs : List UInt8} (h : (scanChunk matched xs).2.2 = false) :
    (scanChunk matched xs).1 = xs.length := by
  induction xs generalizing matched with
  | nil => rfl
  | cons x xs ih =>
    rw [scanChunk] at h ⊢
    split_ifs at h ⊢
    exact congrArg (· + 1) (ih h)

theorem scanChunk_pos {matched : ℕ} {xs : List UInt8} (h : (scanChunk matched xs).2.2) :
    0 < (scanChunk matched xs).1 := by
  cases xs with
  | nil => simp [scanChunk] at h
  | cons x xs =>
    rw [scanChunk]
    split_ifs
    · exact Nat.one_pos
    · exact Nat.succ_pos _

theorem scanChunk_magic {front : List UInt8} (h : 75 ∉ front) (rest : List UInt8) :
    scanChunk 0 (front ++ magic ++ rest) = (front.length + 4, 4, true) := by
  induction front with
  | nil => rfl
  | cons x xs ih =>
    have hx : x ≠ 75 := fun hx => h (hx ▸ .head _)
    have hmatch : matchByte 0 x = 0 := by
      simp [matchByte, magic, hx, hx.symm]
    rw [cons_append, cons_append, scanChunk, hmatch, ih fun hm => h (.tail _ hm)]
    simp

end Scan

namespace ResynchronizingReader

variable {r : ResynchronizingReader}

theorem resynchronizeLoop_found {fuel matched scanned c : ℕ}
    (hfound : scanChunk matched r.inner.bytes = (c, 4, true))
    (hle : scanned + c ≤ maxResynchronizeBytes) (hfuel : c ≤ fuel) :
    ∃ e : Endpoint, e.bytes = r.inner.bytes.drop c ∧
      resynchronizeLoop fuel matched scanned r = (.ok (), { inner := e, magicOffset := 0 }) := by
  have hpos : 0 < c := by
    have hscan := @scanChunk_pos matched r.inner.bytes
    rw [hfound] at hscan
    exact hscan rfl
  induction fuel generalizing matched scanned c r with
  | zero => omega
  | succ fuel ih =>
    have hne : r.inner.bytes ≠ [] := by
      intro hnil
      simp [hnil, scanChunk] at hfound
    have hsize : 1 ≤ r.inner.size := le_max_left _ _
    have hlength := length_pos_iff.mpr hne
    rw [resynchronizeLoop, if_pos (by omega)]
    have havailable : r.inner.fillBuf ≠ [] := by
      intro hnil
      have := congrArg List.length hnil
      simp only [Endpoint.fillBuf, length_take, length_nil] at this
      omega
    dsimp only
    rw [if_neg havailable, Endpoint.fillBuf, take_take]
    -- The bytes of this turn, and those behind them.
    set k := min (min (r.inner.bytes.take r.inner.size).length (maxResynchronizeBytes - scanned))
      r.inner.size with hk
    have hkpos : 0 < k := by
      simp only [hk, length_take]
      omega
    have hsplit := scanChunk_append matched (r.inner.bytes.take k) (r.inner.bytes.drop k)
    rw [take_append_drop, hfound] at hsplit
    cases hf : (scanChunk matched (r.inner.bytes.take k)).2.2 with
    | true =>
      rw [if_pos hf] at hsplit
      rw [← hsplit]
      exact ⟨_, rfl, rfl⟩
    | false =>
      rw [if_neg (by simp [hf])] at hsplit
      have hconsumed := scanChunk_consumed hf
      rcases hs : scanChunk matched (r.inner.bytes.take k) with ⟨consumed, matched', found⟩
      rw [hs] at hsplit hf hconsumed
      dsimp only at hsplit hf hconsumed
      subst hf
      simp only [Bool.false_eq_true, if_false]
      obtain ⟨hc, hnext⟩ := Prod.mk.inj hsplit
      have hnextpos := @scanChunk_pos matched' (r.inner.bytes.drop k)
      rw [← hnext] at hnextpos
      have hturn : 0 < (r.inner.bytes.take k).length := by
        rw [length_take]
        omega
      have hdrop : r.inner.bytes.drop consumed = r.inner.bytes.drop k := by
        rw [hconsumed, length_take]
        rcases le_total k r.inner.bytes.length with h | h
        · rw [min_eq_left h]
        · rw [min_eq_right h, drop_eq_nil_of_le le_rfl, drop_eq_nil_of_le h]
      obtain ⟨e, he, hloop⟩ := @ih { r with inner := r.inner.consume consumed } matched'
        (scanned + consumed) (scanChunk matched' (r.inner.bytes.drop k)).1
        (by
          rw [Endpoint.consume, hdrop]
          exact Prod.ext rfl hnext.symm)
        (by omega) (by omega) (hnextpos rfl)
      refine ⟨e, ?_, hloop⟩
      rw [he, Endpoint.consume, drop_drop]
      congr 1
      omega

theorem resynchronize_magic {front rest : List UInt8} (hfront : 75 ∉ front)
    (hbytes : r.inner.bytes = front ++ magic ++ rest)
    (hle : front.length + 4 ≤ maxResynchronizeBytes) :
    ∃ r', r.resynchronize = (.ok (), r') ∧ r'.pending = magic ++ rest := by
  obtain ⟨e, he, hloop⟩ := @resynchronizeLoop_found { r with magicOffset := 4 }
    maxResynchronizeBytes 0 0 (front.length + 4) (hbytes ▸ scanChunk_magic hfront rest)
    (by omega) hle
  refine ⟨_, hloop, ?_⟩
  have hdrop : r.inner.bytes.drop (front.length + 4) = rest := by
    rw [hbytes]
    exact drop_left' (by simp [magic])
  simp only [pending, drop_zero]
  rw [he, hdrop]

end ResynchronizingReader

end KindleBridge.Usb
