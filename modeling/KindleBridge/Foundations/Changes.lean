import KindleBridge.Foundations.Script

/-! # What a script changes

Calls that only read leave the state alone. What a script does to the state is given by
its other calls, and a cut leaves the first few of them done.
-/

namespace KindleBridge.Script

variable {O : Type} {A : O → Type} {σ ε ε' α β : Type}
  (serve : (op : O) → σ → A op × σ) (reads : O → Bool)

/-- The calls of a run that do not only read. -/
def changes : Script O A ε α → σ → List O
  | .done _, _ => []
  | .call op next, s =>
    let rest := (next (serve op s).1).changes (serve op s).2
    if reads op then rest else op :: rest

/-- The state after some calls whose answers do not matter. -/
def after (s : σ) (ops : List O) : σ :=
  ops.foldl (fun s op => (serve op s).2) s

variable {serve reads} {m : Script O A ε α} {f : α → Script O A ε β} {s : σ} {op : O}

@[simp] theorem after_nil : after serve s [] = s := rfl

@[simp] theorem after_cons {ops : List O} :
    after serve s (op :: ops) = after serve (serve op s).2 ops := rfl

theorem after_append {ops ops' : List O} :
    after serve s (ops ++ ops') = after serve (after serve s ops) ops' :=
  List.foldl_append

@[simp] theorem changes_pure (a : α) : (pure a : Script O A ε α).changes serve reads s = [] := rfl

@[simp] theorem changes_fail (e : ε) : (fail e : Script O A ε α).changes serve reads s = [] := rfl

@[simp] theorem changes_perform_bind {f : A op → Script O A ε β} :
    (perform op >>= f).changes serve reads s =
      let rest := (f (serve op s).1).changes serve reads (serve op s).2
      if reads op then rest else op :: rest := rfl

theorem changes_bind : (m >>= f).changes serve reads s = m.changes serve reads s ++
    match m.run serve s with
    | (.ok a, t) => (f a).changes serve reads t
    | (.error _, _) => [] := by
  induction m generalizing s with
  | done r => cases r <;> rfl
  | call op next ih =>
    change (if reads op then _ else _) = (if reads op then _ else _) ++ _
    split_ifs
    · exact ih _
    · exact congrArg (op :: ·) (ih _)

theorem changes_bind_of_ok {a : α} {t : σ} (h : m.run serve s = (.ok a, t)) :
    (m >>= f).changes serve reads s = m.changes serve reads s ++ (f a).changes serve reads t := by
  rw [changes_bind, h]

theorem changes_bind_of_error {e : ε} {t : σ} (h : m.run serve s = (.error e, t)) :
    (m >>= f).changes serve reads s = m.changes serve reads s := by
  rw [changes_bind, h, List.append_nil]

theorem changes_attempt : (m.attempt : Script O A ε' (Except ε α)).changes serve reads s =
    m.changes serve reads s := by
  induction m generalizing s with
  | done r => rfl
  | call op next ih =>
    change (if reads op then _ else _) = (if reads op then _ else _)
    rw [ih]

variable (hreads : ∀ op s, reads op → (serve op s).2 = s)

include hreads in
theorem run_eq_after : (m.run serve s).2 = after serve s (m.changes serve reads s) := by
  induction m generalizing s with
  | done r => rfl
  | call op next ih =>
    change _ = after serve s (if reads op then _ else _)
    split_ifs with hop
    · rw [run_call, ih, hreads op s hop]
    · exact ih _

include hreads in
/-- A cut leaves the first changes done, and they are the changes among the calls made. -/
theorem cut_eq_after (n : ℕ) : ∃ k,
    m.cut serve n s = after serve s ((m.changes serve reads s).take k) ∧
      ((m.calls serve s).take n |>.map Prod.fst |>.filter (!reads ·)) =
        (m.changes serve reads s).take k := by
  induction n generalizing m s with
  | zero => exact ⟨0, rfl, rfl⟩
  | succ n ih =>
    cases m with
    | done r => exact ⟨0, rfl, rfl⟩
    | call op next =>
      obtain ⟨k, hcut, hcalls⟩ := ih (m := next (serve op s).1) (s := (serve op s).2)
      by_cases hop : reads op
      · refine ⟨k, ?_, ?_⟩
        · simp only [cut, changes, hop, if_true, hcut]
          rw [hreads op s hop]
        · simpa [calls, changes, hop] using hcalls
      · refine ⟨k + 1, ?_, ?_⟩
        · simpa [cut, changes, hop] using hcut
        · simpa [calls, changes, hop] using hcalls

include hreads in
theorem exists_cut (k : ℕ) :
    ∃ n, m.cut serve n s = after serve s ((m.changes serve reads s).take k) := by
  induction m generalizing s k with
  | done r => exact ⟨0, by simp [changes, cut]⟩
  | call op next ih =>
    by_cases hop : reads op
    · obtain ⟨n, hn⟩ := ih (serve op s).1 (s := s) k
      exact ⟨n + 1, by simpa [cut, changes, hop, hreads] using hn⟩
    · cases k with
      | zero => exact ⟨0, rfl⟩
      | succ k =>
        obtain ⟨n, hn⟩ := ih (serve op s).1 (s := (serve op s).2) k
        exact ⟨n + 1, by simpa [cut, changes, hop] using hn⟩

end KindleBridge.Script
