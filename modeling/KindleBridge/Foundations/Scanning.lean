import Mathlib.Data.List.Basic

/-! # Scanners and prefix codes

A scanner moves a position over an input. It reads a set of words if it moves exactly over
those words that stand at its position. A set that some scanner reads on every input is a
prefix code, and a concatenation of words of a prefix code is cut back in one way only.
-/

namespace KindleBridge

open List

variable {α β γ ε : Type*}

/-- No word of the set begins another one. -/
def PrefixFree (C : List α → Prop) : Prop :=
  ∀ ⦃x y s t : List α⦄, C x → C y → x ++ s = y ++ t → x = y

theorem PrefixFree.flatten_inj {C : List α → Prop} (h : PrefixFree C) {s t : List α} :
    ∀ {xs ys : List (List α)}, (∀ x ∈ xs, C x) → (∀ y ∈ ys, C y) → xs.length = ys.length →
      xs.flatten ++ s = ys.flatten ++ t → xs = ys
  | [], [], _, _, _, _ => rfl
  | x :: xs, y :: ys, hx, hy, hlen, heq => by
    simp only [flatten_cons, append_assoc] at heq
    obtain rfl : x = y := h (hx x mem_cons_self) (hy y mem_cons_self) heq
    have hrest := h.flatten_inj (fun z hz => hx z (mem_cons_of_mem _ hz))
      (fun z hz => hy z (mem_cons_of_mem _ hz)) (by simpa using hlen)
      (append_cancel_left heq)
    rw [hrest]

theorem PrefixFree.pair {C : List α → Prop} (h : PrefixFree C) {x x' y y' s t : List α}
    (hx : C x) (hy : C y) (hx' : C x') (hy' : C y') (heq : x ++ x' ++ s = y ++ y' ++ t) :
    x = y ∧ x' = y' := by
  simp only [append_assoc] at heq
  obtain rfl := h hx hy heq
  exact ⟨rfl, h hx' hy' (append_cancel_left heq)⟩

/-- Two words of the set, one after the other, form a prefix code again. -/
theorem PrefixFree.pairs {C : List α → Prop} (h : PrefixFree C) :
    PrefixFree fun w => ∃ x y, C x ∧ C y ∧ w = x ++ y := by
  rintro _ _ s t ⟨x, x', hx, hx', rfl⟩ ⟨y, y', hy, hy', rfl⟩ heq
  obtain ⟨rfl, rfl⟩ := h.pair hx hy hx' hy' heq
  rfl

theorem drop_add_of_append {input x rest : List α} {offset : ℕ}
    (h : input.drop offset = x ++ rest) : input.drop (offset + x.length) = rest := by
  rw [← drop_drop, h, drop_left]

/-- The scanner moves over the words of the values with `P`, and over nothing else. -/
def Reads (input : List α) (word : β → List α) (P : β → Prop) (scan : ℕ → Except ε ℕ) : Prop :=
  ∀ offset stop, scan offset = .ok stop ↔
    ∃ b rest, P b ∧ input.drop offset = word b ++ rest ∧ stop = offset + (word b).length

namespace Reads
variable {input : List α} {word : β → List α} {P : β → Prop} {scan : ℕ → Except ε ℕ}

theorem seq {word' : γ → List α} {P' : γ → Prop} {scan' : ℕ → Except ε ℕ}
    (h : Reads input word P scan) (h' : Reads input word' P' scan') :
    Reads input (fun p : β × γ => word p.1 ++ word' p.2) (fun p => P p.1 ∧ P' p.2)
      (fun offset => scan offset >>= scan') := by
  intro offset stop
  beta_reduce
  constructor
  · intro hok
    cases hfirst : scan offset with
    | error e => rw [hfirst] at hok; cases hok
    | ok middle =>
      rw [hfirst] at hok
      obtain ⟨b, rest, hb, hdrop, rfl⟩ := (h _ _).mp hfirst
      obtain ⟨c, rest', hc, hdrop', rfl⟩ := (h' _ _).mp hok
      rw [drop_add_of_append hdrop] at hdrop'
      refine ⟨(b, c), rest', ⟨hb, hc⟩, ?_, ?_⟩
      · rw [hdrop, hdrop', append_assoc]
      · rw [length_append, Nat.add_assoc]
  · rintro ⟨⟨b, c⟩, rest, ⟨hb, hc⟩, hdrop, rfl⟩
    rw [append_assoc] at hdrop
    have hfirst := (h offset _).mpr ⟨b, _, hb, hdrop, rfl⟩
    have hsecond := (h' _ _).mpr ⟨c, rest, hc, drop_add_of_append hdrop, rfl⟩
    rw [hfirst, length_append, ← Nat.add_assoc]
    exact hsecond

theorem prefixFree {C : List α → Prop} {scan : List α → ℕ → Except ε ℕ}
    (h : ∀ input, Reads input id C (scan input)) : PrefixFree C := by
  intro x y s t hx hy heq
  have hfirst := (h (x ++ s) 0 _).mpr ⟨x, s, hx, rfl, rfl⟩
  have hsecond := (h (x ++ s) 0 _).mpr ⟨y, t, hy, heq, rfl⟩
  have hlength : x.length = y.length := by
    simpa using Except.ok.inj (hfirst.symm.trans hsecond)
  exact append_inj_left heq hlength

end Reads
end KindleBridge
