import Mathlib.Algebra.Group.Int.Defs
import Mathlib.Algebra.GroupWithZero.Nat
import Mathlib.Data.List.Basic
import Mathlib.Tactic.Common

/-!
# Taking a stream in by blocks

A state takes a stream in by blocks of `n` elements: the whole blocks are folded into it one after
the other (`absorb`) and what does not fill a block waits (`rest`). Nothing depends on how the
stream was cut: a piece more is the waiting elements and the piece, taken in from the state reached
(`absorb_append`, `rest_append`).
-/

namespace SabApp

namespace Blocks

section
variable {S α : Type*} (f : S → List α → S) (n : ℕ)

/-- The first `k` blocks, folded into the state. -/
def absorbN : ℕ → S → List α → S
  | 0, s, _ => s
  | k + 1, s, xs => absorbN k (f s (xs.take n)) (xs.drop n)

/-- All whole blocks, folded into the state. -/
def absorb (s : S) (xs : List α) : S := absorbN f n (xs.length / n) s xs

/-- What does not fill a block. -/
def rest (xs : List α) : List α := xs.drop (n * (xs.length / n))

theorem rest_length (xs : List α) : (rest n xs).length = xs.length % n := by
  rw [rest, List.length_drop, Nat.mod_def]

variable {n}

theorem rest_of_lt {xs : List α} (h : xs.length < n) : rest n xs = xs := by
  rw [rest, Nat.div_eq_of_lt h, Nat.mul_zero, List.drop_zero]

theorem absorb_of_lt {xs : List α} (h : xs.length < n) (s : S) : absorb f n s xs = s := by
  rw [absorb, Nat.div_eq_of_lt h, absorbN]

/-- A block in front goes in as a whole. -/
theorem absorb_block {xs : List α} (hn : 0 < n) (h : xs.length = n) (s : S) (ys : List α) :
    absorb f n s (xs ++ ys) = absorb f n (f s xs) ys := by
  have hl : (xs ++ ys).length / n = ys.length / n + 1 := by
    rw [List.length_append, h, Nat.add_div_left _ hn]
  rw [absorb, hl, absorbN, List.take_left' h, List.drop_left' h, absorb]

theorem rest_block {xs : List α} (hn : 0 < n) (h : xs.length = n) (ys : List α) : rest n (xs ++ ys) = rest n ys := by
  have hl : (xs ++ ys).length / n = ys.length / n + 1 := by
    rw [List.length_append, h, Nat.add_div_left _ hn]
  rw [rest, hl, Nat.mul_add_one, Nat.add_comm, ← List.drop_drop, List.drop_left' h, rest]

theorem absorb_step {xs : List α} (hn : 0 < n) (h : n ≤ xs.length) (s : S) :
    absorb f n s xs = absorb f n (f s (xs.take n)) (xs.drop n) := by
  have hb := absorb_block f hn (List.length_take_of_le h) s (xs.drop n)
  rwa [List.take_append_drop] at hb

theorem rest_step {xs : List α} (hn : 0 < n) (h : n ≤ xs.length) : rest n xs = rest n (xs.drop n) := by
  have hb := rest_block hn (List.length_take_of_le h) (xs.drop n)
  rwa [List.take_append_drop] at hb

/-- A stream in two pieces: the second is taken in behind what waited of the first. -/
theorem absorb_append (hn : 0 < n) (s : S) (xs ys : List α) :
    absorb f n s (xs ++ ys) = absorb f n (absorb f n s xs) (rest n xs ++ ys) := by
  induction hk : xs.length using Nat.strongRecOn generalizing s xs with
  | _ k ih =>
    by_cases h : n ≤ xs.length
    · have hlt : (xs.drop n).length < k := by rw [List.length_drop]; omega
      rw [absorb_step f hn h, rest_step hn h, ← ih _ hlt _ (xs.drop n) rfl]
      have hs : xs.take n ++ (xs.drop n ++ ys) = xs ++ ys := by
        rw [← List.append_assoc, List.take_append_drop]
      rw [← absorb_block f hn (List.length_take_of_le h), hs]
    · have hlt := Nat.lt_of_not_le h
      rw [absorb_of_lt f hlt, rest_of_lt hlt]

theorem rest_append (hn : 0 < n) (xs ys : List α) : rest n (xs ++ ys) = rest n (rest n xs ++ ys) := by
  induction hk : xs.length using Nat.strongRecOn generalizing xs with
  | _ k ih =>
    by_cases h : n ≤ xs.length
    · have hlt : (xs.drop n).length < k := by rw [List.length_drop]; omega
      rw [rest_step hn h, ← ih _ hlt (xs.drop n) rfl]
      have hs : xs.take n ++ (xs.drop n ++ ys) = xs ++ ys := by
        rw [← List.append_assoc, List.take_append_drop]
      rw [← hs, rest_block hn (List.length_take_of_le h)]
    · rw [rest_of_lt (Nat.lt_of_not_le h)]

end

end Blocks

end SabApp
