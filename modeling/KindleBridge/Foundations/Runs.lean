import Mathlib.Tactic.Common

/-! # Runs of a step function

A run is a list of inputs to a total step function. `Along` says that a property holds
of every state and the input taken there; invariants carry such properties over whole
runs.
-/

namespace KindleBridge

variable {σ α : Type} {step : σ → α → σ} {P Q : σ → α → Prop} {s : σ} {as bs : List α}
  {I : σ → Prop}

/-- `P` holds at every step of the run: of the state before the step and its input. -/
def Along (step : σ → α → σ) (P : σ → α → Prop) : σ → List α → Prop
  | _, [] => True
  | s, a :: as => P s a ∧ Along step P (step s a) as

instance Along.decidable [∀ s a, Decidable (P s a)] :
    ∀ (s : σ) (as : List α), Decidable (Along step P s as)
  | _, [] => inferInstanceAs (Decidable True)
  | s, a :: as => @instDecidableAnd _ _ _ (Along.decidable (step s a) as)

namespace Along

@[simp] theorem nil : Along step P s [] := trivial

@[simp] theorem cons {a : α} : Along step P s (a :: as) ↔ P s a ∧ Along step P (step s a) as :=
  Iff.rfl

theorem append : Along step P s (as ++ bs) ↔
    Along step P s as ∧ Along step P (as.foldl step s) bs := by
  induction as generalizing s with
  | nil => simp
  | cons a as ih => simp [ih, and_assoc]

theorem of_forall (h : ∀ s, ∀ a ∈ as, P s a) : Along step P s as := by
  induction as generalizing s with
  | nil => trivial
  | cons a as ih => exact ⟨h s a (by simp), ih fun s b hb => h s b (.tail _ hb)⟩

theorem and (h : Along step P s as) (h' : Along step Q s as) :
    Along step (fun s a => P s a ∧ Q s a) s as := by
  induction as generalizing s with
  | nil => trivial
  | cons a as ih => exact ⟨⟨h.1, h'.1⟩, ih h.2 h'.2⟩

theorem take (h : Along step P s as) (n : ℕ) : Along step P s (as.take n) := by
  rw [← as.take_append_drop n, append] at h
  exact h.1

/-- What the steps preserve holds at the end of the run. -/
theorem foldl (h : Along step P s as) (hs : I s)
    (hstep : ∀ s a, I s → P s a → I (step s a)) : I (as.foldl step s) := by
  induction as generalizing s with
  | nil => exact hs
  | cons a as ih => exact ih h.2 (hstep s a hs h.1)

/-- What an invariant gives at every step holds along the run. -/
theorem of_invariant (h : Along step P s as) (hs : I s)
    (hstep : ∀ s a, I s → P s a → Q s a ∧ I (step s a)) : Along step Q s as := by
  induction as generalizing s with
  | nil => trivial
  | cons a as ih => exact ⟨(hstep s a hs h.1).1, ih h.2 (hstep s a hs h.1).2⟩

/-- Where a step keeps `B` exactly if `Q` holds of it, a run keeps `B` exactly if it is along `Q`. -/
theorem forall_take_iff {I B : σ → Prop} (h : Along step P s as) (hs : I s) (hb : B s)
    (hstep : ∀ s a, I s → B s → P s a → I (step s a) ∧ (B (step s a) ↔ Q s a)) :
    (∀ n, B ((as.take n).foldl step s)) ↔ Along step Q s as := by
  induction as generalizing s with
  | nil => simp [hb]
  | cons a as ih =>
    obtain ⟨hi, hiff⟩ := hstep s a hs hb h.1
    constructor
    · intro hall
      have hone : B (step s a) := by simpa using hall 1
      exact ⟨hiff.mp hone, (ih h.2 hi hone).mp fun n => by simpa using hall (n + 1)⟩
    · rintro ⟨hq, hrest⟩ n
      cases n with
      | zero => exact hb
      | succ n => simpa using (ih h.2 hi (hiff.mpr hq)).mpr hrest n

end Along

end KindleBridge
