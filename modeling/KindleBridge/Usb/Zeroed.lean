import KindleBridge.Usb.Reader
import Mathlib.Data.List.Forall2

/-! # Headers with zeros for their last bytes

A header whose last bytes are lost and replaced by zeros is refused as a protocol error, or
it announces no more payload than the header it comes from.
-/

namespace KindleBridge.Usb

open Wire TransportError List

/-- The same bytes, some of them replaced by zero. -/
def Zeroed : List UInt8 → List UInt8 → Prop := List.Forall₂ fun x y => x = y ∨ x = 0

namespace Zeroed

variable {xs ys : List UInt8}

theorem take (bytes : List UInt8) (n : ℕ) :
    Zeroed (bytes.take n ++ List.replicate (bytes.length - n) 0) bytes := by
  induction bytes generalizing n with
  | nil => simp [Zeroed]
  | cons b bs ih =>
    cases n with
    | zero =>
      refine .cons (.inr rfl) ?_
      have hzeros := ih 0
      rwa [take_zero, nil_append] at hzeros
    | succ n =>
      rw [take_succ_cons, length_cons, Nat.add_sub_add_right]
      exact .cons (.inl rfl) (ih n)

theorem ofLe_le (h : Zeroed xs ys) : ofLe xs ≤ ofLe ys := by
  induction h with
  | nil => exact le_rfl
  | @cons x y xs ys hxy _ ih =>
    have hle : x.toNat ≤ y.toNat := by
      obtain rfl | rfl := hxy
      · exact le_rfl
      · exact Nat.zero_le _
    rw [ofLe, ofLe]
    omega

theorem part (h : Zeroed xs ys) (width offset : ℕ) :
    Zeroed ((xs.drop offset).take width) ((ys.drop offset).take width) :=
  forall₂_take _ (forall₂_drop _ h)

theorem getLe_le (h : Zeroed xs ys) (width offset : ℕ) :
    getLe width xs offset ≤ getLe width ys offset := (h.part width offset).ofLe_le

theorem ofLe_eq {n x : ℕ} (h : Zeroed xs (toLe (n + 1) x)) (hx : x < 256) :
    ofLe xs = x ∨ ofLe xs = 0 := by
  rw [toLe, Nat.div_eq_of_lt hx] at h
  rcases h with - | @⟨b, -, bs, -, hb, hbs⟩
  have hrest : ofLe bs = 0 := by
    have hle := ofLe_le hbs
    rw [ofLe_toLe (by positivity)] at hle
    omega
  rw [ofLe, hrest]
  obtain rfl | rfl := hb
  · left
    simp only [UInt8.toNat_ofNat']
    omega
  · exact .inr rfl

end Zeroed

end KindleBridge.Usb

namespace KindleBridge.Wire.Header

open Usb Usb.TransportError

variable {h : Header} {limits : DecodeLimits} {e : WireError} {bytes : List UInt8}

theorem validate_resource (hv : h.validate limits = .error e) (he : isResourceLimit e) :
    limits.maxPayload < h.payloadLength ∨
      h.command = .credit ∧ limits.maxWindow < h.creditDelta := by
  unfold validate at hv
  simp only [bind, Except.bind, pure, Except.pure, throw, throwThe, MonadExceptOf.throw] at hv
  grind [isResourceLimit]

theorem decode_ok (hd : decode bytes limits = .ok h) :
    bytes.take 4 = magic ∧ h.payloadLength = getU32 bytes 24 ∧ h.Valid limits := by
  unfold decode at hd
  simp only [bind, Except.bind, pure, Except.pure, throw, throwThe, MonadExceptOf.throw] at hd
  grind [validate_eq_ok_iff]

theorem ofCode_error {n : ℕ} (hn : Command.ofCode n = .error e) : e = .unknownCommand n := by
  unfold Command.ofCode at hn
  split at hn <;> cases hn
  rfl

theorem decode_resource (hd : decode bytes limits = .error e) (he : isResourceLimit e) :
    limits.maxPayload < getU32 bytes 24 ∨
      Command.ofCode (getU16 bytes 10) = .ok .credit ∧ limits.maxWindow < getU32 bytes 28 := by
  unfold decode at hd
  simp only [bind, Except.bind, pure, Except.pure, throw, throwThe, MonadExceptOf.throw] at hd
  grind [isResourceLimit, → validate_resource, → ofCode_error]

theorem decode_no_magic (hlength : headerLen ≤ bytes.length) (hmagic : bytes.take 4 ≠ magic) :
    ∃ e, decode bytes limits = .error e ∧ isResourceLimit e = false := by
  refine ⟨.invalidMagic ((bytes.take 4).map UInt8.toNat), ?_, rfl⟩
  rw [decode, if_neg (not_lt.mpr hlength), if_pos hmagic]
  rfl

theorem decode_zeroed {c : ℕ} (hf : h.Fits) (hv : h.Valid limits) (hc : c < 256 ^ 4)
    (hz : Zeroed bytes (h.bytes c)) :
    (∃ e, decode bytes limits = .error e ∧ isResourceLimit e = false) ∨
      ∃ h', decode bytes limits = .ok h' ∧ h'.payloadLength ≤ h.payloadLength := by
  obtain ⟨-, -, -, h10, -, -, -, h24, h28, -⟩ := get_bytes hf hc
  have hpayload : getU32 bytes 24 ≤ h.payloadLength := h24 ▸ hz.getLe_le 4 24
  have hdelta : getU32 bytes 28 ≤ h.creditDelta := h28 ▸ hz.getLe_le 4 28
  cases hd : decode bytes limits with
  | ok h' => exact .inr ⟨h', rfl, (decode_ok hd).2.1 ▸ hpayload⟩
  | error e =>
    refine .inl ⟨e, rfl, ?_⟩
    by_contra he
    obtain hlt | ⟨hcredit, hlt⟩ := decode_resource hd (by simpa using he)
    · exact absurd hv.payload (by omega)
    · have hpart : Zeroed ((bytes.drop 10).take 2) (toLe (1 + 1) h.command.code) := hz.part 2 10
      have hcode : getU16 bytes 10 = h.command.code ∨ getU16 bytes 10 = 0 :=
        Zeroed.ofLe_eq hpart h.command.code_lt
      obtain heq | heq := hcode
      · rw [heq, Command.ofCode_code] at hcredit
        have hle := (hv.creditDelta (Except.ok.inj hcredit)).2
        omega
      · rw [heq] at hcredit
        cases hcredit

end KindleBridge.Wire.Header
