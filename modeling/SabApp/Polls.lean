import Mathlib.Data.List.Basic
import Mathlib.Tactic.Common

/-!
# Repeated calls on a stream

`f` is one call of a reader: it returns with a new state, waits for input that does not come, or
fails. A reader that makes progress with every call comes to wait, unless a call fails
(`ends_of_progress`), and where it waits is determined by where it starts.
-/

namespace SabApp

namespace Poll

/-- Why a call does not return. -/
inductive Stop where
  | wait
  | failed
  deriving DecidableEq

section
variable {σ : Type*} (f : σ → Except Stop σ)

/-- `n` calls, as far as they return. -/
def calls : ℕ → σ → σ
  | 0, w => w
  | n + 1, w => match f w with
    | .ok t => calls n t
    | .error _ => w

/-- Repeated calls come to wait for more, at `t`. -/
def Ends (w t : σ) : Prop := ∃ n, calls f n w = t ∧ f t = .error .wait

/-- No call fails. -/
def Accepts (w : σ) : Prop := ∀ n, f (calls f n w) ≠ .error .failed

/-- A call fails, waits in a state with `P`, or goes on with less to do. -/
def Progress (I : σ → ℕ → Prop) (P : σ → Prop) (n : ℕ) (w : σ) : Except Stop σ → Prop
  | .error .failed => True
  | .error .wait => P w
  | .ok t => ∃ m < n, I t m

variable {f} {I : σ → ℕ → Prop} {P : σ → Prop} {w t : σ}

theorem Progress.mono {n m : ℕ} (hnm : n ≤ m) : ∀ {r : Except Stop σ}, Progress I P n w r → Progress I P m w r
  | .error .failed, _ => trivial
  | .error .wait, h => h
  | .ok _, ⟨k, hk, hi⟩ => ⟨k, Nat.lt_of_lt_of_le hk hnm, hi⟩

theorem calls_succ_of_ok (h : f w = .ok t) (n : ℕ) : calls f (n + 1) w = calls f n t := by rw [calls, h]

theorem calls_of_error {e : Stop} (h : f w = .error e) : ∀ n, calls f n w = w
  | 0 => rfl
  | n + 1 => by rw [calls, h]

theorem calls_add : ∀ (n k : ℕ) (w : σ), calls f (n + k) w = calls f k (calls f n w)
  | 0, k, w => by rw [Nat.zero_add]; rfl
  | n + 1, k, w => by
    rw [Nat.add_right_comm]
    cases h : f w with
    | error e => rw [calls_of_error h, calls_of_error h, calls_of_error h]
    | ok t => rw [calls_succ_of_ok h, calls_succ_of_ok h, calls_add n k t]

/-- The states of calls that have come to an end after `n`. -/
theorem forall_calls {Q : σ → Prop} {n : ℕ} {e : Stop} (he : f (calls f n w) = .error e)
    (h : ∀ k ≤ n, Q (calls f k w)) (k : ℕ) : Q (calls f k w) := by
  by_cases hk : k ≤ n
  · exact h k hk
  · obtain ⟨j, rfl⟩ := Nat.exists_eq_add_of_le (Nat.le_of_not_le hk)
    rw [calls_add, calls_of_error he]
    exact h n (Nat.le_refl n)

theorem Accepts.of_ok (ha : Accepts f w) (h : f w = .ok t) : Accepts f t := by
  intro n
  rw [← calls_succ_of_ok h]
  exact ha (n + 1)

/-- The calls of an accepted stream come to wait. `Q` is what may be asked of every state met. -/
theorem ends_of_progress {Q : σ → Prop} (hstep : ∀ w n, I w n → Q w → Progress I P n w (f w)) :
    ∀ (n : ℕ) {w : σ}, I w n → Accepts f w → (∀ k, Q (calls f k w)) → ∃ t, Ends f w t ∧ P t := by
  intro n
  induction n using Nat.strongRecOn with
  | ind n ih =>
    intro w hi ha hq
    have hp := hstep w n hi (hq 0)
    cases hr : f w with
    | error e =>
      rw [hr] at hp
      cases e with
      | failed => exact absurd hr (ha 0)
      | wait => exact ⟨w, ⟨0, rfl, hr⟩, hp⟩
    | ok v =>
      rw [hr] at hp
      obtain ⟨m, hm, hv⟩ := hp
      obtain ⟨u, ⟨k, hk, hu⟩, hpu⟩ := ih m hm hv (ha.of_ok hr) (by
        intro k
        rw [← calls_succ_of_ok hr]
        exact hq (k + 1))
      exact ⟨u, ⟨k + 1, (calls_succ_of_ok hr k).trans hk, hu⟩, hpu⟩

/-- Calls that lower a measure come to an end, whether they wait or fail. `Q` is what may be asked of every state met. -/
theorem stops_of_measure {α : Type*} {r : α → α → Prop} (hr : WellFounded r) {Q : σ → Prop} (μ : σ → α)
    (hstep : ∀ w t, Q w → f w = .ok t → r (μ t) (μ w)) (w : σ) (hq : ∀ k, Q (calls f k w)) :
    ∃ k e, f (calls f k w) = .error e := by
  induction hw : μ w using hr.induction generalizing w with
  | _ a ih =>
    cases hf : f w with
    | error e => exact ⟨0, e, hf⟩
    | ok t =>
      obtain ⟨k, e, he⟩ := ih (μ t) (hw ▸ hstep w t (hq 0) hf) t (fun k => by
        rw [← calls_succ_of_ok hf]
        exact hq (k + 1)) rfl
      exact ⟨k + 1, e, by rw [calls_succ_of_ok hf]; exact he⟩

/-- A stream that comes to wait does not fail before, and waits in one state only. -/
theorem Ends.accepts_unique (h : Ends f w t) : Accepts f w ∧ ∀ u, Ends f w u → u = t := by
  obtain ⟨n, hn, ht⟩ := h
  induction n generalizing w with
  | zero =>
    have hwt : w = t := hn
    subst hwt
    refine ⟨?_, ?_⟩
    · intro k
      rw [calls_of_error ht, ht]
      exact nofun
    · rintro u ⟨k, hk, _⟩
      exact hk.symm.trans (calls_of_error ht k)
  | succ n ih =>
    cases hr : f w with
    | error e =>
      apply ih
      rw [calls_of_error hr] at hn ⊢
      exact hn
    | ok v =>
      obtain ⟨hacc, huniq⟩ := ih ((calls_succ_of_ok hr n).symm.trans hn)
      refine ⟨?_, ?_⟩
      · intro k
        cases k with
        | zero => rw [calls, hr]; exact nofun
        | succ k => rw [calls_succ_of_ok hr]; exact hacc k
      · rintro u ⟨k, hk, hu⟩
        cases k with
        | zero =>
          cases hk
          exact absurd (hr.symm.trans hu) nofun
        | succ k => exact huniq u ⟨k, (calls_succ_of_ok hr k).symm.trans hk, hu⟩

theorem Ends.not_exists (h : Ends f w t) (hp : ¬ P t) : ¬ ∃ u, Ends f w u ∧ P u := by
  rintro ⟨u, hu, hpu⟩
  rw [h.accepts_unique.2 u hu] at hpu
  exact hp hpu

end

end Poll

end SabApp
