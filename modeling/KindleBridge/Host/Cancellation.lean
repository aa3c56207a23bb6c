import Mathlib.Algebra.BigOperators.Fin
import KindleBridge.Foundations.Runs

/-! # Cancellation hooks

A cancelled operation runs the hooks that were registered on it. The flag is stored outside
the lock of the hooks and loaded twice around it. Each thread makes one call, and any thread
may take the next step: a load, a store, the lock, the list under it, or one hook.
-/

namespace KindleBridge.Host.SyncOperation

inductive Call
  | cancel
  /-- Register a hook, which is named by its thread. -/
  | onCancel
  deriving DecidableEq, Repr

/-- Where a thread is in its call. Who has only hooks to run has let go of the lock. -/
inductive Point (T : Type)
  | start
  | waiting
  | locked
  | pushing
  | unlocking (hooks : List T)
  | running (hooks : List T)
  deriving DecidableEq

namespace Point

variable {T : Type}

/-- The hooks that the thread is going to run. -/
def held : Point T → List T
  | .unlocking hooks | .running hooks => hooks
  | _ => []

/-- The call has neither run its hook nor left it to others. -/
def early : Point T → Bool
  | .start | .waiting | .locked | .pushing => true
  | _ => false

def owns : Point T → Bool
  | .locked | .pushing | .unlocking _ => true
  | _ => false

end Point

structure Shared (T : Type) where
  cancelled : Bool
  cancelHooks : List T
  lock : Option T
  ran : T → ℕ
  point : T → Point T

def Shared.new (T : Type) : Shared T := ⟨false, [], none, fun _ => 0, fun _ => .start⟩

variable {T : Type} [DecidableEq T]

open Function Finset

namespace Shared

def goTo (s : Shared T) (t : T) (p : Point T) : Shared T := { s with point := update s.point t p }

/-- One step of a thread, if it is not blocked. -/
def step (calls : T → Call) (s : Shared T) (t : T) : Shared T :=
  match s.point t, calls t with
  | .start, .cancel => { s.goTo t .waiting with cancelled := true }
  | .start, .onCancel => s.goTo t (if s.cancelled then .running [t] else .waiting)
  | .waiting, _ =>
    if s.lock = none then { s.goTo t .locked with lock := some t } else s
  | .locked, .cancel => { s.goTo t (.unlocking s.cancelHooks) with cancelHooks := [] }
  | .locked, .onCancel => s.goTo t (if s.cancelled then .unlocking [t] else .pushing)
  | .pushing, _ => { s.goTo t (.unlocking []) with cancelHooks := s.cancelHooks ++ [t] }
  | .unlocking hooks, _ => { s.goTo t (.running hooks) with lock := none }
  | .running [], _ => s
  | .running (hook :: hooks), _ =>
    { s.goTo t (.running hooks) with ran := update s.ran hook (s.ran hook + 1) }

end Shared

variable [Fintype T]

/-- How often a hook is with threads that are going to run it. -/
def heldBy (point : T → Point T) (hook : T) : ℕ := ∑ u, (point u).held.count hook

/-- The number of places at which a hook is: with its call, in the list, with others, or run. -/
def places (s : Shared T) (t : T) : ℕ :=
  (if (s.point t).early then 1 else 0) + s.cancelHooks.count t +
    heldBy s.point t + s.ran t

/-- What holds after every step. -/
structure Inv (calls : T → Call) (s : Shared T) : Prop where
  owner : ∀ u, (s.point u).owns → s.lock = some u
  flagged : s.cancelled → ∃ u, calls u = .cancel ∧ s.point u ≠ .start
  flags : ∀ u, calls u = .cancel → s.point u ≠ .start → s.cancelled
  calm : s.cancelled = false → ∀ u, (s.point u).held = [] ∧ s.ran u = 0
  /-- While a hook is about to be added, nobody has got beyond waiting for the lock. -/
  early : ∀ t, s.point t = .pushing → calls t = .onCancel ∧
    ∀ u, calls u = .cancel → s.point u = .start ∨ s.point u = .waiting
  awaited : s.cancelled → s.cancelHooks ≠ [] →
    ∃ u, calls u = .cancel ∧ (s.point u = .waiting ∨ s.point u = .locked)
  once : ∀ t, calls t = .onCancel → places s t = 1

variable {calls : T → Call} {s : Shared T} {t u : T} {p : Point T}

theorem heldBy_update (point : T → Point T) (t : T) (p : Point T) (hook : T) :
    heldBy (update point t p) hook + (point t).held.count hook =
      heldBy point hook + p.held.count hook := by
  have hrest : ∑ u ∈ Finset.univ.erase t, (update point t p u).held.count hook =
      ∑ u ∈ Finset.univ.erase t, (point u).held.count hook :=
    sum_congr rfl fun u hu => by rw [update_of_ne (ne_of_mem_erase hu)]
  rw [heldBy, heldBy, ← add_sum_erase _ _ (mem_univ t), hrest, update_self,
    ← add_sum_erase _ (fun u => (point u).held.count hook) (mem_univ t)]
  omega

theorem Inv.new (calls : T → Call) : Inv calls (Shared.new T) := by
  constructor <;> simp [Shared.new, Point.owns, Point.held, places, Point.early, heldBy]

theorem places_step (h : places s u = 1) (hu : calls u = .onCancel) (t : T) :
    places (s.step calls t) u = 1 := by
  have hsum (p : Point T) := heldBy_update s.point t p u
  unfold Shared.step
  -- a blocked thread and one that has returned change nothing
  split <;> (try split) <;> first
    | exact h
    | dsimp only [places, Shared.goTo] at *; grind -ring -linarith [Point.early, Point.held,
        update_apply]

theorem Inv.step (h : Inv calls s) (t : T) : Inv calls (s.step calls t) := by
  have hplaces := fun u hu => places_step (h.once u hu) hu t
  -- A hook that is pushed is awaited: whoever has set the flag still waits for the lock (`early`),
  -- and it cannot be taken meanwhile (`owner`).
  obtain ⟨h1, h2, h3, h4, h5, h6, h7⟩ := h
  refine ⟨?_, ?_, ?_, ?_, ?_, ?_, hplaces⟩ <;> unfold Shared.step <;> split <;> (try split) <;>
    (try dsimp only [Shared.goTo]) <;> grind -ring -linarith [Point.owns, Point.held, update_apply]

theorem Inv.ran_eq (h : Inv calls s) (hreturned : ∀ u, s.point u = .running [])
    (ht : calls t = .onCancel) : s.ran t = if ∃ u, calls u = .cancel then 1 else 0 := by
  split_ifs with hcancel
  · obtain ⟨u, hu⟩ := hcancel
    have hempty : s.cancelHooks = [] := by
      by_contra hne
      obtain ⟨v, -, hv⟩ := h.awaited (h.flags u hu (by simp [hreturned])) hne
      simp [hreturned] at hv
    simpa [places, heldBy, hreturned, hempty, Point.held, Point.early] using h.once t ht
  · have hflag : s.cancelled = false := by
      by_contra hne
      obtain ⟨u, hu, -⟩ := h.flagged (by simpa using hne)
      exact hcancel ⟨u, hu⟩
    exact (h.calm hflag t).2

/-- Once all calls have returned, each registered hook has run once if there was a call of
`cancel`, and otherwise none has run. A thread that makes several calls is a case of this: its
calls are threads of which each starts when the one before has returned. -/
theorem hooks_run_once (calls : T → Call) (schedule : List T)
    (hreturned : ∀ u, (schedule.foldl (Shared.step calls) (Shared.new T)).point u = .running []) :
    ∀ t, calls t = .onCancel → (schedule.foldl (Shared.step calls) (Shared.new T)).ran t =
      if ∃ u, calls u = .cancel then 1 else 0 := by
  intro t ht
  have hinv : Inv calls (schedule.foldl (Shared.step calls) (Shared.new T)) :=
    List.foldlRecOn schedule _ (Inv.new calls) fun _ h u _ => h.step u
  exact hinv.ran_eq hreturned ht

/-- The hook is registered while the other thread, which has set the flag, waits for the lock. -/
theorem hooks_run_once_registering :
    ([false, false, false, true, false, false, true, true, true, true].foldl
      (Shared.step fun t => bif t then .cancel else .onCancel) (Shared.new Bool)).ran false = 1 :=
  (hooks_run_once _ _ (by decide) false rfl).trans (by decide)

end KindleBridge.Host.SyncOperation
