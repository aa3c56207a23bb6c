import Mathlib.Algebra.Order.Ring.Nat

/-! # Numbers as bytes

Unsigned numbers of a fixed width in little-endian and in big-endian order.
-/

namespace KindleBridge

/-- The lowest `n` bytes of a number, the least significant first. -/
def toLe : ℕ → ℕ → List UInt8
  | 0, _ => []
  | n + 1, x => UInt8.ofNat x :: toLe n (x / 256)

/-- The number that some bytes stand for, the least significant first. -/
def ofLe : List UInt8 → ℕ
  | [] => 0
  | b :: bs => b.toNat + 256 * ofLe bs

@[simp] theorem length_toLe (n x : ℕ) : (toLe n x).length = n := by
  induction n generalizing x with
  | zero => rfl
  | succ n ih => simp [toLe, ih]

theorem ofLe_toLe {n x : ℕ} (h : x < 256 ^ n) : ofLe (toLe n x) = x := by
  induction n generalizing x with
  | zero =>
    obtain rfl : x = 0 := by simpa using h
    rfl
  | succ n ih =>
    have hdiv : x / 256 < 256 ^ n := Nat.div_lt_of_lt_mul (by rwa [pow_succ'] at h)
    rw [toLe, ofLe, ih hdiv]
    have hbyte : (UInt8.ofNat x).toNat = x % 256 := by simp
    omega

theorem ofLe_lt (bs : List UInt8) : ofLe bs < 256 ^ bs.length := by
  induction bs with
  | nil => simp [ofLe]
  | cons b bs ih =>
    have hb := b.toNat_lt
    rw [ofLe, List.length_cons, pow_succ']
    omega

theorem toLe_ofLe (bs : List UInt8) : toLe bs.length (ofLe bs) = bs := by
  induction bs with
  | nil => rfl
  | cons b bs ih =>
    have hb := b.toNat_lt
    have hlow : UInt8.ofNat (b.toNat + 256 * ofLe bs) = b := by
      apply UInt8.toNat_inj.mp
      simp only [UInt8.toNat_ofNat']
      omega
    have hhigh : (b.toNat + 256 * ofLe bs) / 256 = ofLe bs := by omega
    simp only [List.length_cons, ofLe, toLe, hlow, hhigh, ih]

/-- The lowest `n` bytes of a number, the most significant first. -/
def toBe (n x : ℕ) : List UInt8 := (toLe n x).reverse

/-- The number that some bytes stand for, the most significant first. -/
def ofBe (bs : List UInt8) : ℕ := ofLe bs.reverse

@[simp] theorem length_toBe (n x : ℕ) : (toBe n x).length = n := by simp [toBe]

theorem ofBe_toBe {n x : ℕ} (h : x < 256 ^ n) : ofBe (toBe n x) = x := by
  rw [ofBe, toBe, List.reverse_reverse, ofLe_toLe h]

theorem toBe_ofBe (bs : List UInt8) : toBe bs.length (ofBe bs) = bs := by
  have h := toLe_ofLe bs.reverse
  rw [List.length_reverse] at h
  rw [toBe, ofBe, h, List.reverse_reverse]

theorem ofBe_lt (bs : List UInt8) : ofBe bs < 256 ^ bs.length := by
  simpa [ofBe] using ofLe_lt bs.reverse

end KindleBridge
