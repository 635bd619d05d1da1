import Mathlib.Data.List.Basic
import Mathlib.Tactic.Common

/-!
# Processes that share a state

The processes of a pool take their steps in any order. A step reads and changes the shared state, leaves the
process in a new state and may start other processes.
-/

namespace SabApp

structure Pool (σ π : Type*) where
  shared : σ
  procs : List π

namespace Pool

variable {σ π α : Type*} (react : σ → π → α → Option (σ × π × List π))

def spawn (w : Pool σ π) (p : π) : Pool σ π := { w with procs := w.procs ++ [p] }

/-- The next step of a process; there may be none of that number. -/
def run (w : Pool σ π) (i : ℕ) (a : α) : Option (Pool σ π) :=
  match w.procs[i]? with
  | none => some w
  | some p => (react w.shared p a).map fun r => ⟨r.1, w.procs.set i r.2.1 ++ r.2.2⟩

/-- What holds of every process beside the shared state. -/
def All (P : σ → π → Prop) (w : Pool σ π) : Prop := ∀ p ∈ w.procs, P w.shared p

variable {react} {P : σ → π → Prop} {w t : Pool σ π} {i : ℕ} {a : α}

theorem run_cases (h : w.run react i a = some t) :
    t = w ∨ ∃ p r, w.procs[i]? = some p ∧ react w.shared p a = some r ∧ t = ⟨r.1, w.procs.set i r.2.1 ++ r.2.2⟩ := by
  unfold run at h
  split at h
  · exact .inl (Option.some.inj h).symm
  · next p hp =>
    obtain ⟨r, hr, rfl⟩ := Option.map_eq_some_iff.mp h
    exact .inr ⟨p, r, hp, hr, rfl⟩

theorem All.spawn (h : w.All P) {p : π} (hp : P w.shared p) : (w.spawn p).All P := by
  intro q hq
  rcases List.mem_append.mp hq with hq | hq
  · exact h q hq
  · cases List.mem_singleton.mp hq
    exact hp

/-- The process that steps and those it starts have the property after it, and the step takes it from no other. -/
theorem inv_run {I : σ → Prop} (hI : I w.shared) (h : w.All P) (hr : w.run react i a = some t)
    (hstep : ∀ p r, w.procs[i]? = some p → react w.shared p a = some r →
      I r.1 ∧ P r.1 r.2.1 ∧ (∀ q ∈ r.2.2, P r.1 q) ∧ ∀ q ∈ w.procs, P w.shared q → P r.1 q) : I t.shared ∧ t.All P := by
  rcases run_cases hr with rfl | ⟨p, r, hp, hreact, rfl⟩
  · exact ⟨hI, h⟩
  obtain ⟨hshared, hself, hnew, hold⟩ := hstep p r hp hreact
  refine ⟨hshared, fun q hq => ?_⟩
  rcases List.mem_append.mp hq with hq | hq
  · rcases List.mem_or_eq_of_mem_set hq with hq | rfl
    · exact hold q hq (h q hq)
    · exact hself
  · exact hnew q hq

end Pool

end SabApp
