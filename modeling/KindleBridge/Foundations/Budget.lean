import KindleBridge.Foundations.Op

/-! # Computations with a budget

A gauge measures the state against a ceiling, and names the error of hitting it. Where
there is room for `n` units, a computation that `Spends n` does not hit the ceiling and
raises the level by `n` at most.
-/

namespace KindleBridge

/-- A level with a ceiling, and the error that reports a lack of room. -/
structure Gauge (σ ε : Type) where
  level : σ → ℕ
  ceiling : σ → ℕ
  full : ε

namespace Op

variable {σ τ ε ε' α β : Type} {g : Gauge σ ε} {n k : ℕ} {s : σ} {m : Op σ ε α} {f : α → Op σ ε β}

/-- What a computation does from the given state if there is room for `n` units. -/
structure Spent (g : Gauge σ ε) (n : ℕ) (s : σ) (r : Except ε α × σ) : Prop where
  result : r.1 ≠ .error g.full
  level : g.level r.2 ≤ g.level s + n
  ceiling : g.ceiling r.2 = g.ceiling s

def Spends (g : Gauge σ ε) (n : ℕ) (m : Op σ ε α) (s : σ) : Prop :=
  g.level s + n ≤ g.ceiling s → Spent g n s (m.run s)

theorem Spends.mono (h : m.Spends g n s) (hnk : n ≤ k) : m.Spends g k s := by
  intro hroom
  obtain ⟨h1, h2, h3⟩ := h (by omega)
  exact ⟨h1, by omega, h3⟩

theorem spends_pure (a : α) : (pure a : Op σ ε α).Spends g 0 s := fun _ => ⟨by simp, by simp, rfl⟩

theorem spends_fail {e : ε} (h : e ≠ g.full) : (fail e : Op σ ε α).Spends g 0 s :=
  fun _ => ⟨by simpa using h, by simp, rfl⟩

theorem spends_ofExcept {r : Except ε α} (h : r ≠ .error g.full) :
    (ofExcept r : Op σ ε α).Spends g 0 s := fun _ => ⟨h, by simp, rfl⟩

theorem spends_modify {f : σ → σ} (hl : g.level (f s) ≤ g.level s)
    (hc : g.ceiling (f s) = g.ceiling s) : (modify f : Op σ ε Unit).Spends g 0 s :=
  fun _ => ⟨by simp, hl, hc⟩

theorem spends_zoom {read : σ → τ} {write : τ → σ → σ} {err : ε' → ε} {m : Op τ ε' α}
    (he : ∀ e, err e ≠ g.full) (hl : ∀ t s, g.level (write t s) = g.level s)
    (hc : ∀ t s, g.ceiling (write t s) = g.ceiling s) : (zoom read write err m).Spends g 0 s := by
  refine fun _ => ⟨?_, Nat.le_of_eq (hl ..), hc ..⟩
  rw [run_zoom]
  cases (m.run (read s)).1 with
  | ok => simp [Except.mapError]
  | error e => simpa [Except.mapError] using he e

theorem spends_ite {p : Prop} [Decidable p] {m m' : Op σ ε α} (hm : p → m.Spends g n s)
    (hm' : ¬ p → m'.Spends g n s) : (if p then m else m').Spends g n s := by
  split_ifs with h
  · exact hm h
  · exact hm' h

theorem spends_fail_bind {e : ε} (h : e ≠ g.full) : (fail e >>= f).Spends g n s :=
  fun _ => ⟨by simpa using h, by simp, rfl⟩

theorem spends_get_bind {f : σ → Op σ ε β} (h : (f s).Spends g n s) : (get >>= f).Spends g n s := h

theorem spends_modify_bind {f : σ → σ} {m : Unit → Op σ ε β} (hl : g.level (f s) ≤ g.level s)
    (hc : g.ceiling (f s) = g.ceiling s) (h : (m ()).Spends g n (f s)) :
    (modify f >>= m).Spends g n s := by
  intro hroom
  obtain ⟨h1, h2, h3⟩ := h (by omega)
  exact ⟨h1, Nat.le_trans h2 (by omega), h3.trans hc⟩

theorem spends_bind (hm : m.Spends g n s)
    (hf : ∀ a t, m.run s = (.ok a, t) → (f a).Spends g k t) : (m >>= f).Spends g (n + k) s := by
  intro hroom
  obtain ⟨h1, h2, h3⟩ := hm (by omega)
  rcases hr : m.run s with ⟨e | a, t⟩
  · rw [run_bind_of_error hr]
    rw [hr] at h1 h2 h3
    exact ⟨by simpa using h1, by dsimp only at h2 ⊢; omega, h3⟩
  · rw [run_bind_of_ok hr]
    rw [hr] at h2 h3
    dsimp only at h2 h3
    obtain ⟨h4, h5, h6⟩ := hf a t hr (by omega)
    exact ⟨h4, by omega, h6.trans h3⟩

theorem spends_attempt_bind {f : Except ε α → Op σ ε β} (hm : m.Spends g n s)
    (hf : ∀ r t, m.run s = (r, t) → r ≠ .error g.full → (f r).Spends g k t) :
    (m.attempt >>= f).Spends g (n + k) s := by
  intro hroom
  obtain ⟨h1, h2, h3⟩ := hm (by omega)
  rw [run_attempt_bind]
  obtain ⟨h4, h5, h6⟩ := hf (m.run s).1 (m.run s).2 rfl h1 (by omega)
  exact ⟨h4, by omega, h6.trans h3⟩

end Op

end KindleBridge
