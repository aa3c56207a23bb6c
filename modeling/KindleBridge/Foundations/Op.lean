import Mathlib.Order.Defs.Unbundled
import Mathlib.Tactic.Common

/-! # Programs with a state and an error

A program reads and writes one state and ends with a value or an error. The
state reached before a failure is kept, so a failing program may leave traces
behind. Inversion lemmas split a finished run at its sequencing points.
-/

namespace KindleBridge

/-- A program over states `σ` that ends with a value or an error, and in either case a state. -/
def Op (σ ε α : Type) := σ → Except ε α × σ

namespace Op

variable {σ τ ε ε' α β : Type}

/-- The outcome and the final state of a program started in the given state. -/
def run (m : Op σ ε α) (s : σ) : Except ε α × σ := m s

instance : Monad (Op σ ε) where
  pure a := fun s => (.ok a, s)
  bind m f := fun s =>
    match m s with
    | (.ok a, t) => f a t
    | (.error e, t) => (.error e, t)

def get : Op σ ε σ := fun s => (.ok s, s)

def modify (f : σ → σ) : Op σ ε Unit := fun s => (.ok (), f s)

/-- Stop with an error, keeping the state. -/
def fail (e : ε) : Op σ ε α := fun s => (.error e, s)

def ofExcept (r : Except ε α) : Op σ ε α := fun s => (r, s)

/-- Run a program on a component of the state, translating its errors. -/
def zoom (read : σ → τ) (write : τ → σ → σ) (err : ε' → ε) (m : Op τ ε' α) : Op σ ε α :=
  fun s => ((m.run (read s)).1.mapError err, write (m.run (read s)).2 s)

/-- Run a program and return its outcome as a value, so that the caller may react to it. -/
def attempt (m : Op σ ε α) : Op σ ε (Except ε α) := fun s => (.ok (m.run s).1, (m.run s).2)

@[simp] theorem run_pure (a : α) (s : σ) : (pure a : Op σ ε α).run s = (.ok a, s) := rfl
@[simp] theorem run_get (s : σ) : (get : Op σ ε σ).run s = (.ok s, s) := rfl
@[simp] theorem run_modify (f : σ → σ) (s : σ) :
    (modify f : Op σ ε Unit).run s = (.ok (), f s) := rfl
@[simp] theorem run_fail (e : ε) (s : σ) : (fail e : Op σ ε α).run s = (.error e, s) := rfl
@[simp] theorem run_ofExcept (r : Except ε α) (s : σ) :
    (ofExcept r : Op σ ε α).run s = (r, s) := rfl
@[simp] theorem run_attempt (m : Op σ ε α) (s : σ) :
    m.attempt.run s = (.ok (m.run s).1, (m.run s).2) := rfl
@[simp] theorem run_zoom (read : σ → τ) (write : τ → σ → σ) (err : ε' → ε)
    (m : Op τ ε' α) (s : σ) : (zoom read write err m).run s =
      ((m.run (read s)).1.mapError err, write (m.run (read s)).2 s) := rfl

theorem run_bind (m : Op σ ε α) (f : α → Op σ ε β) (s : σ) :
    (m >>= f).run s = match m.run s with
      | (.ok a, t) => (f a).run t
      | (.error e, t) => (.error e, t) := rfl

@[simp] theorem run_get_bind (f : σ → Op σ ε β) (s : σ) : (get >>= f).run s = (f s).run s := rfl
@[simp] theorem run_modify_bind (g : σ → σ) (f : Unit → Op σ ε β) (s : σ) :
    (modify g >>= f).run s = (f ()).run (g s) := rfl
@[simp] theorem run_pure_bind (a : α) (f : α → Op σ ε β) (s : σ) :
    ((pure a : Op σ ε α) >>= f).run s = (f a).run s := rfl
@[simp] theorem run_fail_bind (e : ε) (f : α → Op σ ε β) (s : σ) :
    ((fail e : Op σ ε α) >>= f).run s = (.error e, s) := rfl
@[simp] theorem run_attempt_bind (m : Op σ ε α) (f : Except ε α → Op σ ε β) (s : σ) :
    (m.attempt >>= f).run s = (f (m.run s).1).run (m.run s).2 := rfl
@[simp] theorem run_ofExcept_bind (r : Except ε α) (f : α → Op σ ε β) (s : σ) :
    ((ofExcept r : Op σ ε α) >>= f).run s = match r with
      | .ok a => (f a).run s
      | .error e => (.error e, s) := by
  cases r <;> rfl

@[simp] theorem run_ite (p : Prop) [Decidable p] (m n : Op σ ε α) (s : σ) :
    (if p then m else n).run s = if p then m.run s else n.run s := by
  split <;> rfl

@[simp] theorem run_ite_bind (p : Prop) [Decidable p] (m n : Op σ ε α) (f : α → Op σ ε β) (s : σ) :
    ((if p then m else n) >>= f).run s = if p then (m >>= f).run s else (n >>= f).run s := by
  split <;> rfl

@[simp] theorem run_bind_bind {γ : Type} (m : Op σ ε α) (f : α → Op σ ε β) (g : β → Op σ ε γ)
    (s : σ) : ((m >>= f) >>= g).run s = (m >>= fun a => f a >>= g).run s := by
  rw [run_bind, run_bind, run_bind]
  rcases m.run s with ⟨_ | a, t⟩ <;> rfl

variable {m : Op σ ε α} {f : α → Op σ ε β} {s t : σ} {a : α} {r : Except ε α}

theorem run_bind_of_ok (h : m.run s = (.ok a, t)) : (m >>= f).run s = (f a).run t := by
  rw [run_bind, h]

theorem run_bind_of_error {e : ε}
    (h : m.run s = (.error e, t)) : (m >>= f).run s = (.error e, t) := by
  rw [run_bind, h]

theorem bind_ok_iff {u : σ} {b : β} : (m >>= f).run s = (.ok b, u) ↔
      ∃ a t, m.run s = (.ok a, t) ∧ (f a).run t = (.ok b, u) := by
  rw [run_bind]
  constructor
  · intro h
    split at h
    next a t hm => exact ⟨a, t, hm, h⟩
    next => simp at h
  · rintro ⟨a, t, hm, hf⟩
    rw [hm]
    exact hf

theorem ok_iff_exists : (m.run s).1 = .ok a ↔ ∃ t, m.run s = (.ok a, t) := by
  constructor
  · intro h
    exact ⟨_, Prod.ext h rfl⟩
  · rintro ⟨t, h⟩
    rw [h]

/-- What holds of the final state, step by step. -/
theorem bind_induction {P : σ → Prop} (herror : ∀ e t, m.run s = (.error e, t) → P t)
    (hok : ∀ a t, m.run s = (.ok a, t) → P ((f a).run t).2) : P ((m >>= f).run s).2 := by
  rcases hs : m.run s with ⟨e | a, t⟩
  · rw [run_bind_of_error hs]
    exact herror e t hs
  · rw [run_bind_of_ok hs]
    exact hok a t hs

theorem mapError_eq_ok_iff {r : Except ε' α} {f : ε' → ε} : r.mapError f = .ok a ↔ r = .ok a := by
  cases r <;> simp [Except.mapError]

theorem zoom_ok_iff {read : σ → τ} {write : τ → σ → σ} {err : ε' → ε} {m : Op τ ε' α} :
    (zoom read write err m).run s = (.ok a, t) ↔
      ∃ u, m.run (read s) = (.ok a, u) ∧ t = write u s := by
  rw [run_zoom, Prod.mk.injEq, mapError_eq_ok_iff]
  constructor
  · rintro ⟨h, rfl⟩
    exact ⟨(m.run (read s)).2, Prod.ext h rfl, rfl⟩
  · rintro ⟨u, h, rfl⟩
    rw [h]
    exact ⟨rfl, rfl⟩

theorem ofExcept_ok_iff : (ofExcept r : Op σ ε α).run s = (.ok a, t) ↔ r = .ok a ∧ t = s := by
  rw [run_ofExcept, Prod.mk.injEq, @eq_comm _ s t]

/-- A program that writes only when it succeeds. -/
def Atomic (m : Op σ ε α) : Prop := ∀ s e t, m.run s = (.error e, t) → t = s

section Respects

variable {R : σ → σ → Prop}

/-- Whatever the outcome, the final state is related to the first. -/
def Respects (R : σ → σ → Prop) (m : Op σ ε α) : Prop := ∀ s, R s (m.run s).2

theorem Respects.of_run (h : m.Respects R) (hr : m.run s = (r, t)) : R s t := by
  have := h s
  rwa [hr] at this

theorem respects_modify {f : σ → σ} (h : ∀ s, R s (f s)) : (modify f : Op σ ε Unit).Respects R := h

theorem respects_get_bind {f : σ → Op σ ε β} (h : ∀ s, (f s).Respects R) :
    (get >>= f).Respects R := fun s => h s s

theorem respects_ite {p : Prop} [Decidable p] {n : Op σ ε α} (hm : m.Respects R)
    (hn : n.Respects R) : (if p then m else n).Respects R := by
  split_ifs
  · exact hm
  · exact hn

theorem respects_attempt (h : m.Respects R) : m.attempt.Respects R := h

variable [IsPreorder σ R]

theorem respects_pure (a : α) : (pure a : Op σ ε α).Respects R := fun s => Std.Refl.refl s

theorem respects_fail (e : ε) : (fail e : Op σ ε α).Respects R := fun s => Std.Refl.refl s

theorem respects_ofExcept (r : Except ε α) : (ofExcept r : Op σ ε α).Respects R :=
  fun s => Std.Refl.refl s

theorem respects_bind (hm : m.Respects R) (hf : ∀ a, (f a).Respects R) : (m >>= f).Respects R := by
  intro s
  rw [run_bind]
  have hs := hm s
  rcases hr : m.run s with ⟨_ | a, t⟩
  · rwa [hr] at hs
  · rw [hr] at hs
    exact IsTrans.trans _ _ _ hs (hf a t)

theorem respects_fail_bind (e : ε) : (fail e >>= f).Respects R :=
  fun s => Std.Refl.refl s

end Respects

section Ensures

variable {P : σ → Prop}

/-- Whatever the outcome, the final state satisfies `P`. -/
def Ensures (P : σ → Prop) (m : Op σ ε α) : Prop := ∀ s, P (m.run s).2

/-- The program fails only in states that satisfy `P`. -/
def FailsIn (P : σ → Prop) (m : Op σ ε α) : Prop := ∀ s e t, m.run s = (.error e, t) → P t

/-- Once `P` holds, it holds at the end. -/
def Keeps (P : σ → Prop) (m : Op σ ε α) : Prop := ∀ s, P s → P (m.run s).2

theorem Ensures.of_run (h : m.Ensures P) (hr : m.run s = (r, t)) : P t := by
  have hs := h s
  rwa [hr] at hs

theorem failsIn_bind (hm : m.FailsIn P) (hf : ∀ a, (f a).FailsIn P) : (m >>= f).FailsIn P := by
  intro s e t hr
  rcases hs : m.run s with ⟨_ | a, u⟩
  · rw [run_bind_of_error hs] at hr
    obtain ⟨-, rfl⟩ := Prod.mk.inj hr
    exact hm s _ _ hs
  · rw [run_bind_of_ok hs] at hr
    exact hf a u e t hr

theorem ensures_bind (hm : m.FailsIn P) (hf : ∀ a, (f a).Ensures P) : (m >>= f).Ensures P := by
  intro s
  rcases hs : m.run s with ⟨_ | a, t⟩
  · rw [run_bind_of_error hs]
    exact hm s _ _ hs
  · rw [run_bind_of_ok hs]
    exact hf a t

/-- What the first part ensures, the rest keeps. -/
theorem Ensures.bind (hm : m.Ensures P) (hf : ∀ a, (f a).Keeps P) : (m >>= f).Ensures P := by
  intro s
  have hp := hm s
  rcases hs : m.run s with ⟨_ | a, t⟩
  · rw [run_bind_of_error hs]
    rwa [hs] at hp
  · rw [run_bind_of_ok hs]
    rw [hs] at hp
    exact hf a t hp

theorem keeps_pure (a : α) : (pure a : Op σ ε α).Keeps P := fun _ h => h

theorem keeps_fail (e : ε) : (fail e : Op σ ε α).Keeps P := fun _ h => h

/-- What follows is only run on the values that the first part can return. -/
theorem keeps_bind_of {Q : α → Prop} (hm : m.Keeps P)
    (hq : ∀ s a, (m.run s).1 = .ok a → Q a) (hf : ∀ a, Q a → (f a).Keeps P) :
    (m >>= f).Keeps P := by
  intro s hs
  have hp := hm s hs
  rcases hr : m.run s with ⟨_ | a, t⟩
  · rw [run_bind_of_error hr]
    rwa [hr] at hp
  · rw [run_bind_of_ok hr]
    rw [hr] at hp
    exact hf a (hq s a (congrArg Prod.fst hr)) t hp

theorem keeps_bind (hm : m.Keeps P) (hf : ∀ a, (f a).Keeps P) : (m >>= f).Keeps P :=
  keeps_bind_of hm (fun _ _ _ => trivial) fun a _ => hf a

variable {read : σ → τ} {write : τ → σ → σ} {err : ε' → ε} {m : Op τ ε' α} {Q : τ → Prop}

theorem ensures_zoom (hq : ∀ t s, Q t → P (write t s)) (h : m.Ensures Q) :
    (zoom read write err m).Ensures P := fun s => hq _ s (h (read s))

theorem failsIn_zoom (hq : ∀ t s, Q t → P (write t s)) (h : m.FailsIn Q) :
    (zoom read write err m).FailsIn P := by
  intro s e t hr
  rw [run_zoom] at hr
  obtain ⟨he, rfl⟩ := Prod.mk.inj hr
  rcases hm : m.run (read s) with ⟨_ | _, u⟩
  · exact hq _ s (h _ _ _ hm)
  · rw [hm] at he
    simp [Except.mapError] at he

end Ensures

end Op

/-! ## Without a state -/

section
variable {ε α β : Type}

theorem unless_eq_ok {c : Prop} [Decidable c] {e : ε} {f : Unit → Except ε α} {a : α} :
    (if c then throw e >>= f else f ()) = .ok a ↔ ¬ c ∧ f () = .ok a := by
  split_ifs with h
  · constructor
    · rintro ⟨⟩
    · rintro ⟨hc, -⟩
      exact absurd h hc
  · simp [h]

theorem bind_eq_ok {x : Except ε α} {f : α → Except ε β} {b : β} :
    (x >>= f) = .ok b ↔ ∃ a, x = .ok a ∧ f a = .ok b := by
  cases x with
  | error e =>
    constructor
    · rintro ⟨⟩
    · rintro ⟨_, ⟨⟩, _⟩
  | ok a =>
    constructor
    · intro h
      exact ⟨a, rfl, h⟩
    · rintro ⟨_, ⟨⟩, h⟩
      exact h

end

end KindleBridge
