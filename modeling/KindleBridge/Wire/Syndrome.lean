import KindleBridge.Wire.Codec
import Mathlib.Data.List.Iterate
import Mathlib.Data.Nat.Bitwise

/-! # What the checksum of a header detects

The shift register of the checksum is linear and reversible. A flipped bit, of the checksum
or of what it covers, changes the difference between the two by a number of shifts of one
word, and no two bits of a header by the same number.
-/

namespace KindleBridge.Wire

open List Function

theorem crcBit_xor (a b : ℕ) : crcBit (a ^^^ b) = crcBit a ^^^ crcBit b := by
  have hab : (a ^^^ b) % 2 = (a % 2) ^^^ (b % 2) := Nat.xor_mod_two_pow (n := 1)
  rcases Nat.mod_two_eq_zero_or_one a with ha | ha <;>
    rcases Nat.mod_two_eq_zero_or_one b with hb | hb <;>
    simp only [crcBit, Nat.shiftRight_xor_distrib, Nat.and_one_is_mod, hab, ha, hb, Nat.xor_self,
      Nat.zero_xor, Nat.xor_zero, if_true, one_ne_zero, if_false, Nat.and_zero]
  · ac_rfl
  · ac_rfl
  · rw [Nat.xor_right_comm, ← Nat.xor_assoc, Nat.xor_assoc _ (_ &&& _), Nat.xor_self, Nat.xor_zero]

theorem iterate_crcBit_xor (n a b : ℕ) : crcBit^[n] (a ^^^ b) = crcBit^[n] a ^^^ crcBit^[n] b :=
  Semiconj₂.iterate crcBit_xor n a b

theorem eq_zero_of_crcBit {a : ℕ} (ha : a < 2 ^ 32) (h : crcBit a = 0) : a = 0 := by
  rcases Nat.mod_two_eq_zero_or_one a with hodd | hodd
  · simp only [crcBit, Nat.and_one_is_mod, hodd, if_true, Nat.and_zero, Nat.xor_zero,
      Nat.shiftRight_eq_div_pow] at h
    omega
  · have hhigh : a.testBit 32 = false := Nat.testBit_lt_two_pow ha
    have htop : (crcBit a).testBit 31 = true := by
      rw [crcBit, Nat.and_one_is_mod, hodd, if_neg one_ne_zero, Nat.testBit_xor,
        Nat.testBit_shiftRight, hhigh]
      decide
    simp [h] at htop

theorem iterate_crcBit_lt {a : ℕ} (ha : a < 2 ^ 32) (n : ℕ) : crcBit^[n] a < 2 ^ 32 :=
  Iterate.rec (· < 2 ^ 32) ha (fun _ => crcBit_lt) n

theorem eq_of_iterate_crcBit {a b n : ℕ} (ha : a < 2 ^ 32) (hb : b < 2 ^ 32)
    (h : crcBit^[n] a = crcBit^[n] b) : a = b := by
  have hxor : crcBit^[n] (a ^^^ b) = 0 := by rw [iterate_crcBit_xor, h, Nat.xor_self]
  have hlt : a ^^^ b < 2 ^ 32 := Nat.xor_lt_two_pow ha hb
  induction n with
  | zero => exact h
  | succ n ih =>
    rw [iterate_succ_apply'] at hxor
    have hzero := eq_zero_of_crcBit (iterate_crcBit_lt hlt n) hxor
    exact ih (Nat.xor_eq_zero_iff.mp (by rwa [← iterate_crcBit_xor])) hzero

/-- Some number of shifts of the highest bit. -/
def orbit (n : ℕ) : ℕ := crcBit^[n] (2 ^ 31)

theorem orbit_inj {n m : ℕ} (hn : n < 352) (hm : m < 352) (h : orbit n = orbit m) : n = m := by
  have hne : ∀ x ∈ iterate crcBit (crcBit (2 ^ 31)) 351, x ≠ 2 ^ 31 := by decide +kernel
  have hlt {n m : ℕ} (hm : m < 352) (h : orbit n = orbit m) : ¬ n < m := by
    intro hnm
    rw [orbit, orbit, ← Nat.add_sub_cancel' hnm.le, iterate_add_apply] at h
    have hback := eq_of_iterate_crcBit (by decide) (iterate_crcBit_lt (by decide) _) h
    refine hne _ (mem_iterate.mpr ⟨m - n - 1, by omega, ?_⟩) rfl
    rw [← iterate_succ_apply, show (m - n - 1).succ = m - n by omega]
    exact hback
  have := hlt hm h
  have := hlt hn h.symm
  omega

theorem orbit_ne_zero (n : ℕ) : orbit n ≠ 0 := by
  intro h
  have hzero : crcBit^[n] 0 = 0 := iterate_fixed rfl n
  exact absurd (eq_of_iterate_crcBit (by decide) (by decide) (h.trans hzero.symm)) (by decide)

/-! ## Flipped bits -/

def flipBit (k : ℕ) (byte : UInt8) : UInt8 := byte ^^^ 1 <<< UInt8.ofNat k

/-- Flip one bit of some bytes, counted from the lowest bit of the first byte. -/
def flip (bytes : List UInt8) (i : ℕ) : List UInt8 := bytes.modify (i / 8) (flipBit (i % 8))

@[simp] theorem length_flip (bytes : List UInt8) (i : ℕ) : (flip bytes i).length = bytes.length :=
  length_modify ..

theorem toNat_flipBit {k : ℕ} (hk : k < 8) (byte : UInt8) :
    (flipBit k byte).toNat = byte.toNat ^^^ 2 ^ k := by
  have hbit : ∀ k < 8, ((1 : UInt8) <<< UInt8.ofNat k).toNat = 2 ^ k := by decide
  rw [flipBit, UInt8.toNat_xor, hbit k hk]

theorem foldl_crcByte_xor (bytes : List UInt8) (crc x : ℕ) : bytes.foldl crcByte (crc ^^^ x) =
      bytes.foldl crcByte crc ^^^ crcBit^[8 * bytes.length] x := by
  induction bytes generalizing crc x with
  | nil => rfl
  | cons b bs ih =>
    have hbyte : crcByte (crc ^^^ x) b = crcByte crc b ^^^ crcBit^[8] x := by
      change crcBit^[8] _ = crcBit^[8] _ ^^^ _
      rw [Nat.xor_right_comm, iterate_crcBit_xor]
    rw [foldl_cons, hbyte, ih, ← iterate_add_apply]
    rfl

theorem foldl_modify {k : ℕ} (hk : k < 8) (bytes : List UInt8) (crc : ℕ) {n : ℕ}
    (hn : n < bytes.length) : (bytes.modify n (flipBit k)).foldl crcByte crc =
      bytes.foldl crcByte crc ^^^ crcBit^[8 * (bytes.length - n)] (2 ^ k) := by
  induction bytes generalizing crc n with
  | nil => simp at hn
  | cons b bs ih =>
    cases n with
    | zero =>
      have hbyte : crcByte crc (flipBit k b) = crcByte crc b ^^^ crcBit^[8] (2 ^ k) := by
        change crcBit^[8] _ = crcBit^[8] _ ^^^ _
        rw [toNat_flipBit hk, ← Nat.xor_assoc, iterate_crcBit_xor]
      rw [modify_zero_cons, foldl_cons, hbyte, foldl_crcByte_xor, ← iterate_add_apply]
      rfl
    | succ n =>
      rw [modify_succ_cons, foldl_cons, ih _ (by simpa using hn), foldl_cons, length_cons,
        Nat.add_sub_add_right]

theorem testBit_ofLe_cons (b : UInt8) (bs : List UInt8) (j : ℕ) : (ofLe (b :: bs)).testBit j =
    if j < 8 then b.toNat.testBit j else (ofLe bs).testBit (j - 8) := by
  rw [ofLe, Nat.add_comm]
  exact Nat.testBit_two_pow_mul_add _ b.toNat_lt j

theorem ofLe_modify {k : ℕ} (hk : k < 8) (bytes : List UInt8) {n : ℕ} (hn : n < bytes.length) :
    ofLe (bytes.modify n (flipBit k)) = ofLe bytes ^^^ 2 ^ (8 * n + k) := by
  induction bytes generalizing n with
  | nil => simp at hn
  | cons b bs ih =>
    apply Nat.eq_of_testBit_eq
    intro j
    cases n with
    | zero =>
      rw [modify_zero_cons, Nat.testBit_xor, testBit_ofLe_cons, testBit_ofLe_cons,
        toNat_flipBit hk, Nat.testBit_xor, Nat.testBit_two_pow, Nat.testBit_two_pow]
      split_ifs <;> grind
    | succ n =>
      rw [modify_succ_cons, Nat.testBit_xor, testBit_ofLe_cons, testBit_ofLe_cons,
        ih (by simpa using hn), Nat.testBit_xor, Nat.testBit_two_pow, Nat.testBit_two_pow]
      split_ifs <;> grind

/-! ## Syndromes of headers -/

namespace Header

/-- The difference between the checksum that a header carries and the one that it should. -/
def syndrome (bytes : List UInt8) : ℕ := getU32 bytes 32 ^^^ crc32c (canonical bytes)

/-- The number of shifts that a bit of a header stands for. -/
def shifts (i : ℕ) : ℕ := if 256 ≤ i ∧ i < 288 then 287 - i else 351 - i

theorem orbit_eq {k n : ℕ} (hk : k < 32) : crcBit^[n] (2 ^ k) = orbit (n + (31 - k)) := by
  have hpow : ∀ k < 32, crcBit^[31 - k] (2 ^ 31) = 2 ^ k := by decide
  rw [orbit, iterate_add_apply, hpow k hk]

theorem crc32c_append (front rest : List UInt8) :
    crc32c (front ++ rest) = rest.foldl crcByte (front.foldl crcByte u32Max) ^^^ u32Max := by
  rw [crc32c, foldl_append]

theorem syndrome_flip {bytes : List UInt8} {i : ℕ} (hl : bytes.length = headerLen) (hi : i < 320) :
    syndrome (flip bytes i) = syndrome bytes ^^^ orbit (shifts i) := by
  have hl : bytes.length = 40 := hl
  have hk : i % 8 < 8 := Nat.mod_lt _ (by decide)
  have h32 : (bytes.take 32).length = 32 := by simp [hl]
  have h4 : ((bytes.drop 36).take 4).length = 4 := by simp [hl]
  have hfield : ((bytes.drop 32).take 4).length = 4 := by simp [hl]
  unfold syndrome canonical flip getU32 getLe
  rw [crc32c_append, crc32c_append, foldl_append, foldl_append]
  by_cases hfront : i < 256
  · have hshifts : shifts i = 8 * 4 + (8 * 4 + (8 * (32 - i / 8) + (31 - i % 8))) := by
      rw [shifts, if_neg (by omega)]
      omega
    rw [drop_modify_of_lt _ _ _ _ (by omega), drop_modify_of_lt _ _ _ _ (by omega), take_modify,
      foldl_modify hk _ _ (by omega), foldl_crcByte_xor, foldl_crcByte_xor, orbit_eq (by omega),
      hshifts, h32, h4, length_toLe]
    simp only [orbit, iterate_add_apply]
    ac_rfl
  rw [take_modify, modify_eq_self (by omega : (bytes.take 32).length ≤ _),
    drop_modify_of_ge _ _ 32 _ (by omega), take_modify]
  by_cases hsum : i < 288
  · have hshifts : shifts i = 0 + (31 - (8 * (i / 8 - 32) + i % 8)) := by
      rw [shifts, if_pos (by omega)]
      omega
    rw [drop_modify_of_lt _ _ _ _ (by omega), ofLe_modify hk _ (by omega), hshifts,
      ← orbit_eq (by omega), iterate_zero_apply]
    ac_rfl
  · have hshifts : shifts i = 8 * (4 - (i / 8 - 36)) + (31 - i % 8) := by
      rw [shifts, if_neg (by omega)]
      omega
    rw [drop_modify_of_ge _ _ _ _ (by omega), take_modify, foldl_modify hk _ _ (by omega),
      modify_eq_self (by omega : ((bytes.drop 32).take 4).length ≤ _), hshifts, h4,
      ← orbit_eq (by omega)]
    ac_rfl

theorem syndrome_eq_zero {h : Header} {limits : DecodeLimits} {bytes : List UInt8}
    (he : h.encode limits = .ok bytes) : bytes.length = headerLen ∧ syndrome bytes = 0 := by
  obtain ⟨_, hv, he⟩ := bind_eq_ok.mp he
  obtain rfl := Except.ok.inj he
  refine ⟨length_bytes .., Nat.xor_eq_zero_iff.mpr ?_⟩
  have hcanonical : canonical (h.bytes (crc32c (h.bytes 0))) = h.bytes 0 := rfl
  have hmagic : magic.length = 4 := rfl
  rw [hcanonical]
  simp (disch := simp [hmagic]) only [getU32, bytes, append_assoc, getLe_append_of_le,
    length_toLe, hmagic, Nat.reduceSub]
  exact getLe_toLe (crc32c_lt _)

/-- A header in which one or two bits are flipped is not decoded, whatever the limits. -/
theorem corrupted_header_refused {h : Header} {limits : DecodeLimits} {bytes : List UInt8}
    {flips : List ℕ} (he : h.encode limits = .ok bytes) (hbits : ∀ i ∈ flips, i < 8 * headerLen)
    (hdistinct : flips.Nodup) (hsome : flips ≠ []) (htwo : flips.length ≤ 2)
    (limits' : DecodeLimits) : ∃ e, decode (flips.foldl flip bytes) limits' = .error e := by
  obtain ⟨hlength, hzero⟩ := syndrome_eq_zero he
  have hshifts : ∀ i < 320, shifts i < 352 := by
    intro i hi
    unfold shifts
    split_ifs <;> omega
  suffices hne : syndrome (flips.foldl flip bytes) ≠ 0 by
    cases hd : decode (flips.foldl flip bytes) limits' with
    | error e => exact ⟨e, rfl⟩
    | ok h' => exact absurd (Nat.xor_eq_zero_iff.mpr (decoded_of_decode hd).checksum) hne
  match flips with
  | [i] =>
    rw [foldl_cons, foldl_nil, syndrome_flip hlength (hbits i (by simp)), hzero, Nat.zero_xor]
    exact orbit_ne_zero _
  | [i, j] =>
    have hi : i < 320 := hbits i (by simp)
    have hj : j < 320 := hbits j (by simp)
    rw [foldl_cons, foldl_cons, foldl_nil, syndrome_flip (by rw [length_flip, hlength]) hj,
      syndrome_flip hlength hi, hzero, Nat.zero_xor]
    intro hxor
    have hsame := orbit_inj (hshifts i hi) (hshifts j hj) (Nat.xor_eq_zero_iff.mp hxor)
    have hij : i ≠ j := by simpa using hdistinct
    unfold shifts at hsame
    split_ifs at hsame <;> omega

theorem corrupted_header_refused_ping : ∃ e, decode ([3, 260].foldl flip
    ((new .ping 0 0).bytes (crc32c ((new .ping 0 0).bytes 0)))) .default = .error e :=
  @corrupted_header_refused (.new .ping 0 0) .default _ [3, 260] rfl (by decide) (by decide)
    (by decide) (by decide) .default

end Header

end KindleBridge.Wire
