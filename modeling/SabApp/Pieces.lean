import Mathlib.Data.List.Basic
import Mathlib.Tactic.Common

/-!
# A stream that arrives in pieces

A stream arrives as a list of pieces, however it was cut. A read returns at most what is asked for
and at most the piece at hand; `recv` reads until it has `n` elements. What it returns does not
depend on the cuts.
-/

namespace SabApp

namespace Pieces

variable {α : Type*}

def recv : ℕ → List (List α) → Option (List α × List (List α))
  | 0, ps => some ([], ps)
  | _ + 1, [] => none
  | n + 1, p :: ps =>
    if p.length ≤ n then (recv (n + 1 - p.length) ps).map fun r => (p ++ r.1, r.2)
    else some (p.take (n + 1), p.drop (n + 1) :: ps)

@[simp] theorem recv_zero (ps : List (List α)) : recv 0 ps = some ([], ps) := by cases ps <;> rfl

theorem recv_cons (n : ℕ) (p : List α) (ps : List (List α)) :
    recv (n + 1) (p :: ps) = if p.length ≤ n then (recv (n + 1 - p.length) ps).map fun r => (p ++ r.1, r.2)
      else some (p.take (n + 1), p.drop (n + 1) :: ps) := by
  cases ps <;> rfl

theorem recv_flatten {ps : List (List α)} : ∀ {n : ℕ}, n ≤ ps.flatten.length →
    ∃ rest, recv n ps = some (ps.flatten.take n, rest) ∧ rest.flatten = ps.flatten.drop n := by
  induction ps with
  | nil =>
    intro n hn
    have : n = 0 := by simpa using hn
    subst this
    exact ⟨[], by simp⟩
  | cons p ps ih =>
    intro n hn
    cases n with
    | zero => exact ⟨p :: ps, by simp⟩
    | succ n =>
      rw [List.flatten_cons, List.length_append] at hn
      by_cases hp : p.length ≤ n
      · obtain ⟨rest, hr, hf⟩ := ih (n := n + 1 - p.length) (by omega)
        refine ⟨rest, ?_, ?_⟩
        · rw [recv_cons, if_pos hp, hr, List.flatten_cons, List.take_append,
            List.take_of_length_le (Nat.le_succ_of_le hp)]
          rfl
        · rw [hf, List.flatten_cons, List.drop_append, List.drop_of_length_le (Nat.le_succ_of_le hp),
            List.nil_append]
      · refine ⟨p.drop (n + 1) :: ps, ?_, ?_⟩
        · rw [recv_cons, if_neg hp, List.flatten_cons, List.take_append_of_le_length (by omega)]
        · rw [List.flatten_cons, List.flatten_cons, List.drop_append_of_le_length (by omega)]

/-- **Cuts do not matter.** A block comes off the front of the stream. -/
theorem recv_append {ps : List (List α)} {xs ys : List α} (h : ps.flatten = xs ++ ys) :
    ∃ rest, recv xs.length ps = some (xs, rest) ∧ rest.flatten = ys := by
  have hle : xs.length ≤ ps.flatten.length := by simp [h]
  obtain ⟨rest, hr, hf⟩ := recv_flatten hle
  refine ⟨rest, ?_, ?_⟩
  · rw [hr, h, List.take_left]
  · rw [hf, h, List.drop_left]

/-- What a block that arrives takes from the stream. -/
theorem recv_some {ps rest : List (List α)} {bs : List α} : ∀ {n : ℕ}, recv n ps = some (bs, rest) →
    bs.length = n ∧ ps.flatten = bs ++ rest.flatten := by
  induction ps generalizing bs with
  | nil =>
    intro n h
    cases n with
    | zero =>
      cases h
      exact ⟨rfl, rfl⟩
    | succ n => cases h
  | cons p ps ih =>
    intro n h
    cases n with
    | zero =>
      rw [recv_zero] at h
      cases h
      exact ⟨rfl, rfl⟩
    | succ n =>
      rw [recv_cons] at h
      by_cases hp : p.length ≤ n
      · rw [if_pos hp] at h
        obtain ⟨r, hr, he⟩ := Option.map_eq_some_iff.mp h
        cases he
        obtain ⟨hlen, hflat⟩ := ih hr
        exact ⟨by rw [List.length_append]; omega, by rw [List.flatten_cons, hflat, List.append_assoc]⟩
      · rw [if_neg hp] at h
        cases h
        exact ⟨by rw [List.length_take]; omega, by
          rw [List.flatten_cons, List.flatten_cons, ← List.append_assoc, List.take_append_drop]⟩

/-- A block that is longer than the stream does not arrive. -/
theorem recv_short {n : ℕ} {ps : List (List α)} (h : ps.flatten.length < n) : recv n ps = none := by
  cases hr : recv n ps with
  | none => rfl
  | some r =>
    obtain ⟨hlen, hs⟩ := recv_some hr
    rw [hs, List.length_append] at h
    omega

end Pieces

end SabApp
