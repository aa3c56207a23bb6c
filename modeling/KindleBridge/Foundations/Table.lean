import Mathlib.Data.List.AList
import Mathlib.Algebra.BigOperators.Group.List.Basic
import Mathlib.Algebra.GroupWithZero.Nat

/-! # Finite tables

A weight on the values of a table is summed over all of its rows. Inserting and erasing
change the total by the weight of one row. Erasing rows leaves the others alone.
-/

namespace KindleBridge

open List

variable {κ β : Type} [DecidableEq κ] {f : β → ℕ} {t : AList fun _ : κ => β} {k : κ} {v : β}
  {keys : List κ}

def total (f : β → ℕ) (t : AList fun _ : κ => β) : ℕ := (t.entries.map fun x => f x.2).sum

/-- The weight of the row at a key, if there is one. -/
def weightAt (f : β → ℕ) (t : AList fun _ : κ => β) (k : κ) : ℕ := ((t.lookup k).map f).getD 0

theorem weightAt_of_lookup (h : t.lookup k = some v) : weightAt f t k = f v := by
  simp [weightAt, h]

theorem weightAt_of_lookup_none (h : t.lookup k = none) : weightAt f t k = 0 := by
  simp [weightAt, h]

omit [DecidableEq κ] in
@[simp] theorem total_empty : total f (∅ : AList fun _ : κ => β) = 0 := rfl

theorem total_insert : total f (t.insert k v) = f v + total f (t.erase k) := by
  rw [total, AList.entries_insert, map_cons, sum_cons]
  rfl

theorem sum_kerase (l : List (Σ _ : κ, β)) :
    ((l.kerase k).map fun x => f x.2).sum + ((l.dlookup k).map f).getD 0 =
      (l.map fun x => f x.2).sum := by
  induction l with
  | nil => rfl
  | cons x l ih =>
    obtain ⟨k', v⟩ := x
    by_cases h : k = k'
    · subst h
      simp [Nat.add_comm]
    · rw [kerase_cons_ne h, dlookup_cons_ne _ _ h, map_cons, map_cons,
        sum_cons, sum_cons, Nat.add_assoc, ih]

theorem total_erase : total f (t.erase k) + weightAt f t k = total f t := sum_kerase t.entries

theorem total_insert_add : total f (t.insert k v) + weightAt f t k = f v + total f t := by
  rw [total_insert, Nat.add_assoc, total_erase]

theorem lookup_foldl_erase (h : k ∉ keys) :
    (keys.foldl (fun t k => t.erase k) t).lookup k = t.lookup k := by
  induction keys generalizing t with
  | nil => rfl
  | cons k' keys ih =>
    rw [mem_cons, not_or] at h
    rw [foldl_cons, ih h.2, AList.lookup_erase_ne h.1]

theorem lookup_of_lookup_erase {k' : κ} (h : (t.erase k').lookup k = some v) :
    t.lookup k = some v := by
  by_cases hk : k = k'
  · subst hk
    simp at h
  · rwa [AList.lookup_erase_ne hk] at h

theorem lookup_of_lookup_foldl_erase
    (h : (keys.foldl (fun t k => t.erase k) t).lookup k = some v) : t.lookup k = some v := by
  induction keys generalizing t with
  | nil => exact h
  | cons k' keys ih => exact lookup_of_lookup_erase (ih h)

theorem lookup_insert_cases {k' : κ} {v' : β} (h : (t.insert k' v').lookup k = some v) :
    v = v' ∨ t.lookup k = some v := by
  by_cases hk : k = k'
  · subst hk
    rw [AList.lookup_insert] at h
    exact .inl (Option.some.inj h).symm
  · rw [AList.lookup_insert_ne hk] at h
    exact .inr h

end KindleBridge
