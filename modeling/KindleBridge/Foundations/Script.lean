import KindleBridge.Foundations.Runs

/-! # Scripts of atomic calls

A script calls operations of a shared state one at a time and goes on with each answer.
It may be run to its end, cut after any call, or interleaved with other scripts. One
notion of correctness serves all three: whatever happens between its calls, a script
makes only calls that are allowed.
-/

namespace KindleBridge

open List

/-- A program that calls operations `O` and ends with a value or an error. -/
inductive Script (O : Type) (A : O → Type) (ε α : Type)
  | done (result : Except ε α)
  | call (op : O) (next : A op → Script O A ε α)

namespace Script

variable {O : Type} {A : O → Type} {σ ε ε' α β : Type}

def bind : Script O A ε α → (α → Script O A ε β) → Script O A ε β
  | .done (.ok a), f => f a
  | .done (.error e), _ => .done (.error e)
  | .call op next, f => .call op fun a => (next a).bind f

instance : Monad (Script O A ε) where
  pure a := .done (.ok a)
  bind := bind

def fail (e : ε) : Script O A ε α := .done (.error e)

def ofExcept (r : Except ε α) : Script O A ε α := .done r

@[simp] theorem pure_bind_eq (a : α) (f : α → Script O A ε β) :
    (pure a : Script O A ε α) >>= f = f a := rfl

@[simp] theorem fail_bind (e : ε) (f : α → Script O A ε β) :
    (fail e : Script O A ε α) >>= f = fail e := rfl

@[simp] theorem ofExcept_ok (a : α) : (ofExcept (.ok a) : Script O A ε α) = pure a := rfl

@[simp] theorem ofExcept_error (e : ε) : (ofExcept (.error e) : Script O A ε α) = fail e := rfl

def perform (op : O) : Script O A ε (A op) := .call op fun a => .done (.ok a)

/-- Run a script and return its outcome as a value. -/
def attempt : Script O A ε α → Script O A ε' (Except ε α)
  | .done r => .done (.ok r)
  | .call op next => .call op fun a => (next a).attempt

/-- The call that the script is about to make. -/
def pending : Script O A ε α → Option O
  | .done _ => none
  | .call op _ => some op

section Runs

variable (serve : (op : O) → σ → A op × σ)

def run : Script O A ε α → σ → Except ε α × σ
  | .done r, s => (r, s)
  | .call op next, s => (next (serve op s).1).run (serve op s).2

/-- The state when the script is cut after some calls. -/
def cut : ℕ → Script O A ε α → σ → σ
  | 0, _, s => s
  | _ + 1, .done _, s => s
  | n + 1, .call op next, s => (next (serve op s).1).cut n (serve op s).2

/-- The calls of an uninterrupted run, each with the state that it finds. -/
def calls : Script O A ε α → σ → List (O × σ)
  | .done _, _ => []
  | .call op next, s => (op, s) :: (next (serve op s).1).calls (serve op s).2

variable {serve} {m : Script O A ε α} {f : α → Script O A ε β} {s : σ} {op : O} {t : σ}

@[simp] theorem run_pure (a : α) : (pure a : Script O A ε α).run serve s = (.ok a, s) := rfl

@[simp] theorem run_fail (e : ε) : (fail e : Script O A ε α).run serve s = (.error e, s) := rfl

@[simp] theorem run_ofExcept (r : Except ε α) :
    (ofExcept r : Script O A ε α).run serve s = (r, s) := rfl

@[simp] theorem run_call (next : A op → Script O A ε α) :
    (call op next).run serve s = (next (serve op s).1).run serve (serve op s).2 := rfl

@[simp] theorem run_perform : (perform op : Script O A ε (A op)).run serve s =
    (.ok (serve op s).1, (serve op s).2) := rfl

theorem run_bind : (m >>= f).run serve s =
    match m.run serve s with
    | (.ok a, t) => (f a).run serve t
    | (.error e, t) => (.error e, t) := by
  induction m generalizing s with
  | done r => cases r <;> rfl
  | call op next ih => exact ih _

theorem run_bind_of_ok {a : α} (h : m.run serve s = (.ok a, t)) :
    (m >>= f).run serve s = (f a).run serve t := by
  rw [run_bind, h]

theorem run_bind_of_error {e : ε} (h : m.run serve s = (.error e, t)) :
    (m >>= f).run serve s = (.error e, t) := by
  rw [run_bind, h]

@[simp] theorem run_perform_bind {f : A op → Script O A ε β} :
    (perform op >>= f).run serve s = (f (serve op s).1).run serve (serve op s).2 := rfl

theorem run_attempt : (m.attempt : Script O A ε' (Except ε α)).run serve s =
    (.ok (m.run serve s).1, (m.run serve s).2) := by
  induction m generalizing s with
  | done r => rfl
  | call op next ih => exact ih _

end Runs

end Script

/--
The terms on which a script runs: how calls are served, what others may do between two of
its calls, and what its own calls may do.
-/
structure Terms (O : Type) (A : O → Type) (σ : Type) where
  serve : (op : O) → σ → A op × σ
  rely : σ → σ → Prop
  allowed : O → σ → Prop
  refl : ∀ s, rely s s
  trans : ∀ {s t u}, rely s t → rely t u → rely s u

namespace Terms

variable {O : Type} {A : O → Type} {σ : Type}

/-- Nobody else is there. -/
def alone (serve : (op : O) → σ → A op × σ) (allowed : O → σ → Prop) : Terms O A σ where
  serve := serve
  rely := Eq
  allowed := allowed
  refl _ := rfl
  trans := Eq.trans

/-- Terms that ask more of others and allow more than the given ones. -/
structure Eases (terms terms' : Terms O A σ) : Prop where
  serve : terms'.serve = terms.serve
  rely : ∀ {s t}, terms'.rely s t → terms.rely s t
  allowed : ∀ {op s}, terms.allowed op s → terms'.allowed op s

end Terms

namespace Script

variable {O : Type} {A : O → Type} {σ ε ε' α β : Type} {terms : Terms O A σ}
  {m : Script O A ε α} {f : α → Script O A ε β} {s t : σ} {op : O}
  {post post' : Except ε α → σ → Prop} {mid : Except ε α → σ → Prop}

/--
From the state, the script makes only allowed calls, and what it ends with meets the
postcondition. Others may act before each call and after the last one.
-/
def Meets (terms : Terms O A σ) (post : Except ε α → σ → Prop) : Script O A ε α → σ → Prop
  | .done r, s => ∀ t, terms.rely s t → post r t
  | .call op next, s => ∀ t, terms.rely s t → terms.allowed op t ∧
      (next (terms.serve op t).1).Meets terms post (terms.serve op t).2

theorem Meets.mono (h : m.Meets terms post s) (hpost : ∀ r t, post r t → post' r t) :
    m.Meets terms post' s := by
  induction m generalizing s with
  | done r => exact fun t ht => hpost r t (h t ht)
  | call op next ih => exact fun t ht => ⟨(h t ht).1, ih _ (h t ht).2⟩

/-- What others do between two calls does not matter. -/
theorem Meets.of_rely (h : m.Meets terms post s) (hr : terms.rely s t) : m.Meets terms post t := by
  cases m with
  | done r | call op next => exact fun u hu => h u (terms.trans hr hu)

theorem Meets.ease {terms' : Terms O A σ} (h : m.Meets terms post s) (he : terms.Eases terms') :
    m.Meets terms' post s := by
  induction m generalizing s with
  | done r => exact fun t ht => h t (he.rely ht)
  | call op next ih =>
    intro t ht
    obtain ⟨hallowed, hnext⟩ := h t (he.rely ht)
    rw [he.serve]
    exact ⟨he.allowed hallowed, ih _ hnext⟩

/-- The rule for two scripts in sequence. -/
theorem Meets.bind {post : Except ε β → σ → Prop}
    (h : m.Meets terms mid s) (hok : ∀ a t, mid (.ok a) t → (f a).Meets terms post t)
    (herror : ∀ e t, mid (.error e) t → post (.error e) t) : (m >>= f).Meets terms post s := by
  induction m generalizing s with
  | done r =>
    cases r with
    | ok a => exact hok a s (h s (terms.refl s))
    | error e => exact fun t ht => herror e t (h t ht)
  | call op next ih => exact fun t ht => ⟨(h t ht).1, ih _ (h t ht).2⟩

theorem Meets.map {g : α → β} {post : Except ε β → σ → Prop}
    (h : m.Meets terms (fun r t => post (r.map g) t) s) :
    (m >>= fun a => pure (g a)).Meets terms post s := by
  induction m generalizing s with
  | done r => cases r <;> exact h
  | call op next ih => exact fun t ht => ⟨(h t ht).1, ih _ (h t ht).2⟩

theorem Meets.attempt_bind {f : Except ε α → Script O A ε' β} {post : Except ε' β → σ → Prop}
    (h : m.Meets terms mid s)
    (hnext : ∀ r t, mid r t → (f r).Meets terms post t) : (m.attempt >>= f).Meets terms post s := by
  induction m generalizing s with
  | done r => exact hnext r s (h s (terms.refl s))
  | call op next ih => exact fun t ht => ⟨(h t ht).1, ih _ (h t ht).2⟩

/-- A relation that holds across every allowed call and everything others do. -/
structure Across (terms : Terms O A σ) (G : σ → σ → Prop) : Prop where
  rely : ∀ {s t}, terms.rely s t → G s t
  call : ∀ {op s}, terms.allowed op s → G s (terms.serve op s).2
  trans : ∀ {s t u}, G s t → G t u → G s u

/-- What holds across every call holds from the start of a script to its end. -/
theorem Meets.across {G : σ → σ → Prop} (h : m.Meets terms post s) (hG : Across terms G) :
    m.Meets terms (fun r t => post r t ∧ G s t) s := by
  suffices hall : ∀ u, G u s → m.Meets terms (fun r t => post r t ∧ G u t) s from
    hall s (hG.rely (terms.refl s))
  induction m generalizing s with
  | done r => exact fun u hu t ht => ⟨h t ht, hG.trans hu (hG.rely ht)⟩
  | call op next ih =>
    intro u hu t ht
    obtain ⟨hallowed, hnext⟩ := h t ht
    exact ⟨hallowed, ih _ hnext u (hG.trans hu (hG.trans (hG.rely ht) (hG.call hallowed)))⟩

theorem Meets.run (h : m.Meets terms post s) :
    post (m.run terms.serve s).1 (m.run terms.serve s).2 := by
  induction m generalizing s with
  | done r => exact h s (terms.refl s)
  | call op next ih => exact ih _ (h s (terms.refl s)).2

/-- What every allowed call preserves, given the calls before it, holds wherever a run is cut. -/
theorem Meets.cut {P : List (O × σ) → σ → Prop} (h : m.Meets terms post s) {before : List (O × σ)}
    (hs : P before s) (hcall : ∀ before op s, P before s → terms.allowed op s →
      P (before ++ [(op, s)]) (terms.serve op s).2) (n : ℕ) :
    P (before ++ (m.calls terms.serve s).take n) (m.cut terms.serve n s) := by
  induction n generalizing m s before with
  | zero => simpa [Script.cut] using hs
  | succ n ih =>
    cases m with
    | done r => simpa [Script.cut, calls] using hs
    | call op next =>
      obtain ⟨hallowed, hnext⟩ := h s (terms.refl s)
      simpa [Script.cut, calls] using ih hnext (hcall before op s hs hallowed)

/-- Whatever is answered, the script makes only calls with the property. -/
def Only (P : O → Prop) : Script O A ε α → Prop
  | .done _ => True
  | .call op next => P op ∧ ∀ a, (next a).Only P

section Only

variable {P : O → Prop}

theorem only_pure (a : α) : (pure a : Script O A ε α).Only P := trivial

theorem only_fail (e : ε) : (fail e : Script O A ε α).Only P := trivial

theorem only_ofExcept (r : Except ε α) : (ofExcept r : Script O A ε α).Only P := trivial

theorem only_ite {c : Prop} [Decidable c] {m m' : Script O A ε α} (h : m.Only P)
    (h' : m'.Only P) : (if c then m else m').Only P := by
  split_ifs
  · exact h
  · exact h'

theorem only_perform (h : P op) : (perform op : Script O A ε (A op)).Only P :=
  ⟨h, fun _ => trivial⟩

theorem Only.bind (h : m.Only P) (hf : ∀ a, (f a).Only P) : (m >>= f).Only P := by
  induction m with
  | done r =>
    cases r with
    | ok a => exact hf a
    | error e => trivial
  | call op next ih => exact ⟨h.1, fun a => ih a (h.2 a)⟩

theorem Only.attempt (h : m.Only P) : (m.attempt : Script O A ε' (Except ε α)).Only P := by
  induction m with
  | done r => trivial
  | call op next ih => exact ⟨h.1, fun a => ih a (h.2 a)⟩

theorem Only.meets (h : m.Only P) (hP : ∀ op, P op → ∀ s, terms.allowed op s) (s : σ) :
    m.Meets terms (fun _ _ => True) s := by
  induction m generalizing s with
  | done r => exact fun _ _ => trivial
  | call op next ih => exact fun t _ => ⟨hP op h.1 t, ih _ (h.2 _) _⟩

end Only

end Script

/-- A script at work, with a tag that says whose it is. -/
structure Process (ι O : Type) (A : O → Type) (ε α : Type) where
  tag : ι
  script : Script O A ε α

def Process.Live {ι O : Type} {A : O → Type} {ε α : Type} (p : Process ι O A ε α) : Prop :=
  p.script.pending ≠ none

/-- Processes that share a state. -/
structure Workshop (ι O : Type) (A : O → Type) (σ ε α : Type) where
  processes : List (Process ι O A ε α)
  state : σ

/-- What may happen in a workshop. A crash ends all processes and leaves the state. -/
inductive Turn (ι O : Type) (A : O → Type) (ε α : Type)
  | start (process : Process ι O A ε α)
  | move (index : ℕ)
  | crash

namespace Workshop

variable {ι O : Type} {A : O → Type} {σ ε α : Type}

def advance (serve : (op : O) → σ → A op × σ) (w : Workshop ι O A σ ε α) (k : ℕ)
    (p : Process ι O A ε α) : Workshop ι O A σ ε α :=
  match p.script with
  | .done _ => w
  | .call op next => ⟨w.processes.set k ⟨p.tag, next (serve op w.state).1⟩, (serve op w.state).2⟩

def step (serve : (op : O) → σ → A op × σ) (w : Workshop ι O A σ ε α) :
    Turn ι O A ε α → Workshop ι O A σ ε α
  | .start p => { w with processes := w.processes ++ [p] }
  | .move k => (w.processes[k]?).elim w (w.advance serve k)
  | .crash => { w with processes := [] }

variable (terms : ι → Terms O A σ) (apart : ι → ι → Prop) (I : σ → Prop)

/-- Two processes do not disturb each other, as far as both are still at work. -/
def Apart (p q : Process ι O A ε α) : Prop :=
  p.Live → q.Live → apart p.tag q.tag ∧ apart q.tag p.tag

/-- A process that starts keeps to its terms and is apart from those at work. -/
def Starts (w : Workshop ι O A σ ε α) : Turn ι O A ε α → Prop
  | .start p => (∀ s, I s → p.script.Meets (terms p.tag) (fun _ _ => True) s) ∧
      ∀ q ∈ w.processes, Apart apart q p
  | _ => True

/-- The call that a process makes is allowed to it. -/
def Permitted (w : Workshop ι O A σ ε α) : Turn ι O A ε α → Prop
  | .move k => ∀ p op, w.processes[k]? = some p → p.script.pending = some op →
      (terms p.tag).allowed op w.state
  | _ => True

/-- All processes keep to their terms from here on. -/
structure Sound (w : Workshop ι O A σ ε α) : Prop where
  state : I w.state
  meets : ∀ p ∈ w.processes, p.script.Meets (terms p.tag) (fun _ _ => True) w.state
  apart : w.processes.Pairwise (Apart apart)

/-- The terms of processes that are apart fit together. -/
structure Fits (serve : (op : O) → σ → A op × σ) : Prop where
  served : ∀ i, (terms i).serve = serve
  rely : ∀ {i j op s}, apart i j → I s → (terms i).allowed op s → (terms j).rely s (serve op s).2
  state : ∀ {i op s}, I s → (terms i).allowed op s → I (serve op s).2

variable {terms apart I} {serve : (op : O) → σ → A op × σ} {w : Workshop ι O A σ ε α}
  {p : Process ι O A ε α}

theorem Sound.advance (h : w.Sound terms apart I) (hf : Fits terms apart I serve) {k : ℕ}
    (hp : w.processes[k]? = some p) :
    (w.advance serve k p).Sound terms apart I := by
  unfold Workshop.advance
  obtain ⟨tag, script⟩ := p
  cases script with
  | done r => exact h
  | call op next =>
    obtain ⟨hk, hget⟩ := List.getElem?_eq_some_iff.mp hp
    have hmem : (⟨tag, .call op next⟩ : Process ι O A ε α) ∈ w.processes := hget ▸ getElem_mem hk
    obtain ⟨hallowed, hnext⟩ := h.meets _ hmem w.state ((terms tag).refl _)
    rw [hf.served] at hnext
    refine ⟨hf.state h.state hallowed, ?_, ?_⟩
    · intro q hq
      obtain ⟨j, hj, rfl⟩ := getElem_of_mem hq
      rw [getElem_set]
      split_ifs with hkj
      · exact hnext
      · -- The others rely on what this process is allowed to do.
        rw [length_set] at hj
        have hother := h.meets _ (getElem_mem hj)
        cases hs : (w.processes[j]).script with
        | done r => exact fun _ _ => trivial
        | call op' next' =>
          have hlive : Process.Live w.processes[j] := by simp [Process.Live, hs, Script.pending]
          have hlive' : Process.Live (⟨tag, .call op next⟩ : Process ι O A ε α) := by
            simp [Process.Live, Script.pending]
          have happart : apart tag w.processes[j].tag := by
            rcases Nat.lt_or_gt_of_ne hkj with hlt | hgt
            · have hpair := pairwise_iff_getElem.mp h.apart k j hk hj hlt
              rw [hget] at hpair
              exact (hpair hlive' hlive).1
            · have hpair := pairwise_iff_getElem.mp h.apart j k hj hk hgt
              rw [hget] at hpair
              exact (hpair hlive hlive').2
          rw [← hs]
          exact hother.of_rely (hf.rely happart h.state hallowed)
    · -- The process that has moved keeps its tag, and it was at work before.
      rw [pairwise_iff_getElem]
      intro i j hi hj hij hli hlj
      rw [length_set] at hi hj
      have hpair := pairwise_iff_getElem.mp h.apart i j hi hj hij
      simp only [getElem_set] at hli hlj ⊢
      split_ifs at hli hlj ⊢ with h1 h2 h2
      · omega
      · subst h1
        rw [hget] at hpair
        exact hpair (by simp [Process.Live, Script.pending]) hlj
      · subst h2
        rw [hget] at hpair
        exact hpair hli (by simp [Process.Live, Script.pending])
      · exact hpair hli hlj

theorem Sound.start (h : w.Sound terms apart I)
    (hmeets : p.script.Meets (terms p.tag) (fun _ _ => True) w.state)
    (hapart : ∀ q ∈ w.processes, Apart apart q p) :
    (w.step serve (.start p)).Sound terms apart I := by
  refine ⟨h.state, forall_mem_append.mpr ⟨h.meets, forall_mem_singleton.mpr hmeets⟩, ?_⟩
  refine pairwise_append.mpr ⟨h.apart, pairwise_singleton _ _, ?_⟩
  intro q hq r hr
  exact mem_singleton.mp hr ▸ hapart q hq

theorem Sound.step (h : w.Sound terms apart I) (hf : Fits terms apart I serve)
    {turn : Turn ι O A ε α} (hs : w.Starts terms apart I turn) :
    (w.step serve turn).Sound terms apart I := by
  cases turn with
  | start p =>
    obtain ⟨hmeets, hapart⟩ := hs
    exact h.start (hmeets _ h.state) hapart
  | move k =>
    simp only [Workshop.step]
    cases hp : w.processes[k]? with
    | none => exact h
    | some p => exact h.advance hf hp
  | crash => exact ⟨h.state, by simp [Workshop.step], by simp [Workshop.step]⟩

theorem Sound.permitted (h : w.Sound terms apart I) (turn : Turn ι O A ε α) :
    w.Permitted terms turn := by
  cases turn with
  | move k =>
    intro p op hp hop
    obtain ⟨tag, script⟩ := p
    have hmeets := h.meets _ (mem_of_getElem? hp)
    cases script with
    | done r => simp [Script.pending] at hop
    | call op' next =>
      obtain rfl : op' = op := by simpa [Script.pending] using hop
      exact (hmeets w.state ((terms tag).refl _)).1
  | start | crash => trivial

end Workshop

end KindleBridge
