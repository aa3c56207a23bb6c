import Mathlib.Algebra.BigOperators.Group.List.Basic
import Mathlib.Algebra.GroupWithZero.Nat

/-! # Lists that keep their lanes in order

The elements of a list belong to lanes. An element may be taken out of turn as long as
nothing of its own lane stands in front of it, so that every lane is a queue.
-/

namespace KindleBridge

variable {α κ : Type} [DecidableEq κ] {key : α → κ} {xs ys : List α} {x : α} {k : κ}

/-- The elements of one lane, oldest first. -/
def lane (key : α → κ) (k : κ) (xs : List α) : List α := xs.filter (key · = k)

/-- The second list is the first without `x`, the oldest element of its lane. -/
def Takes (key : α → κ) (xs : List α) (x : α) (ys : List α) : Prop :=
  ∃ pre post, xs = pre ++ x :: post ∧ ys = pre ++ post ∧ ∀ y ∈ pre, key y ≠ key x

@[simp] theorem lane_nil : lane key k [] = [] := rfl

@[simp] theorem lane_append : lane key k (xs ++ ys) = lane key k xs ++ lane key k ys :=
  List.filter_append ..

theorem lane_cons_self : lane key (key x) (x :: xs) = x :: lane key (key x) xs := by
  simp [lane]

theorem lane_cons_of_ne (h : key x ≠ k) : lane key k (x :: xs) = lane key k xs := by
  simp [lane, h]

theorem lane_eq_nil_of_forall (h : ∀ y ∈ xs, key y ≠ k) : lane key k xs = [] := by
  simpa [lane, List.filter_eq_nil_iff] using h

namespace Takes

theorem lane_self (h : Takes key xs x ys) : lane key (key x) xs = x :: lane key (key x) ys := by
  obtain ⟨pre, post, rfl, rfl, hpre⟩ := h
  simp [lane_cons_self, lane_eq_nil_of_forall hpre]

theorem lane_of_ne (h : Takes key xs x ys) (hk : key x ≠ k) : lane key k xs = lane key k ys := by
  obtain ⟨pre, post, rfl, rfl, -⟩ := h
  simp [lane_cons_of_ne hk]

omit [DecidableEq κ]

theorem map {β : Type} {key' : β → κ} {f : α → β} (h : Takes key xs x ys)
    (hf : ∀ x, key' (f x) = key x) : Takes key' (xs.map f) (f x) (ys.map f) := by
  obtain ⟨pre, post, rfl, rfl, hpre⟩ := h
  refine ⟨pre.map f, post.map f, by simp, by simp, ?_⟩
  simpa [hf] using hpre

theorem perm (h : Takes key xs x ys) : xs.Perm (x :: ys) := by
  obtain ⟨pre, post, rfl, rfl, -⟩ := h
  exact List.perm_middle

theorem sum_map (h : Takes key xs x ys) (f : α → ℕ) : (xs.map f).sum = f x + (ys.map f).sum := by
  simpa using (h.perm.map f).sum_eq

end Takes

/-! ## Items numbered key by key

Every item of a list carries a key and a number. A list continues a table of next
numbers when each item carries the next number of its key; the last number is never
advanced past. The numbers of each lane are then consecutive, and stay so when items are
taken out in the order of their lanes.
-/

/-- How to read the key and the number of an item, and the number at which counting stops. -/
structure Numbering (α κ : Type) where
  key : α → κ
  num : α → ℕ
  cap : ℕ

namespace Numbering

variable (N : Numbering α κ) {e f : κ → ℕ}

/-- The table of next numbers after an item. -/
def bump (e : κ → ℕ) (x : α) : κ → ℕ :=
  if N.num x = N.cap then e else Function.update e (N.key x) (N.num x + 1)

/-- The list continues the first table and leads to the second. -/
def Continues : (κ → ℕ) → List α → (κ → ℕ) → Prop
  | e, [], f => e = f
  | e, x :: xs, f => N.num x = e (N.key x) ∧ Continues (N.bump e x) xs f

@[simp] theorem continues_nil : N.Continues e [] f ↔ e = f := Iff.rfl

theorem Continues.snoc (h : N.Continues e xs f)
    (hx : N.num x = f (N.key x)) : N.Continues e (xs ++ [x]) (N.bump f x) := by
  induction xs generalizing e with
  | nil => obtain rfl := h; exact ⟨hx, rfl⟩
  | cons y ys ih => exact ⟨h.1, ih h.2⟩

variable {N} {y : α}

theorem bump_of_ne (h : N.key x ≠ k) : N.bump e x k = e k := by
  unfold bump
  split_ifs
  · rfl
  · exact Function.update_of_ne (Ne.symm h) ..

theorem bump_self (h : N.num x < N.cap) : N.bump e x (N.key x) = N.num x + 1 := by
  rw [bump, if_neg (Nat.ne_of_lt h), Function.update_self]

theorem bump_comm (h : N.key x ≠ N.key y) : N.bump (N.bump e x) y = N.bump (N.bump e y) x := by
  unfold bump
  split_ifs
  · rfl
  · rfl
  · rfl
  · exact Function.update_comm h ..

theorem Continues.eq_of_forall_ne (h : N.Continues e xs f) (hk : ∀ x ∈ xs, N.key x ≠ k) :
    f k = e k := by
  induction xs generalizing e with
  | nil => rw [← h]
  | cons x xs ih =>
    rw [ih h.2 fun y hy => hk y (.tail _ hy), bump_of_ne (hk x (.head _))]

theorem Continues.takes (h : N.Continues e xs f) (ht : Takes N.key xs x ys) :
    N.num x = e (N.key x) ∧ N.Continues (N.bump e x) ys f := by
  obtain ⟨pre, post, rfl, rfl, hpre⟩ := ht
  induction pre generalizing e with
  | nil => exact h
  | cons y pre ih =>
    have hne : N.key y ≠ N.key x := hpre y (.head _)
    obtain ⟨hx, hrest⟩ := ih h.2 fun z hz => hpre z (.tail _ hz)
    rw [bump_of_ne hne] at hx
    rw [bump_comm hne] at hrest
    refine ⟨hx, ?_, hrest⟩
    rw [bump_of_ne hne.symm]
    exact h.1

/-- Below the cap the numbers of a lane are consecutive. -/
theorem Continues.lane_eq_range (h : N.Continues e xs f) (hlt : ∀ x ∈ xs, N.num x < N.cap)
    (k : κ) : (lane N.key k xs).map N.num = List.range' (e k) (lane N.key k xs).length := by
  induction xs generalizing e with
  | nil => rfl
  | cons x xs ih =>
    have ih := ih h.2 fun y hy => hlt y (.tail _ hy)
    by_cases hk : N.key x = k
    · subst hk
      rw [bump_self (hlt x (.head _)), h.1] at ih
      rw [lane_cons_self, List.map_cons, List.length_cons, List.range'_succ, ih, h.1]
    · rw [bump_of_ne hk] at ih
      rw [lane_cons_of_ne hk, ih]

end Numbering

end KindleBridge
