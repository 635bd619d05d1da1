import Mathlib.Data.List.Basic
import Mathlib.Logic.Function.Basic
import Mathlib.Tactic.Common

/-!
# Linked lists

A list is a pointer to its first node, and each node points to the next. `Chain` says which nodes the list has.
-/

namespace SabApp

namespace Linked

variable {α : Type*} {next : α → Option α}

inductive Chain (next : α → Option α) : Option α → List α → Prop
  | nil : Chain next none []
  | cons {p : α} {l : List α} : Chain next (next p) l → Chain next (some p) (p :: l)

/-- The walk from a node to the last one, of so many steps at most. -/
def last (next : α → Option α) : ℕ → α → Option α
  | 0, _ => none
  | fuel + 1, p =>
    match next p with
    | none => some p
    | some q => last next fuel q

theorem Chain.nil_iff {p : Option α} {l : List α} (h : Chain next p l) : p = none ↔ l = [] := by
  cases h <;> simp

theorem Chain.congr {next' : α → Option α} {p : Option α} {l : List α} (h : Chain next p l)
    (he : ∀ x ∈ l, next' x = next x) : Chain next' p l := by
  induction h with
  | nil => exact .nil
  | cons _ ih =>
    apply Chain.cons
    rw [he _ List.mem_cons_self]
    exact ih fun x hx => he x (List.mem_cons_of_mem _ hx)

/-- The walk along a list comes to its last node. -/
theorem Chain.last {p : α} {l : List α} (h : Chain next (some p) l) {fuel : ℕ} (hf : l.length ≤ fuel) :
    ∃ q, Linked.last next fuel p = some q ∧ l.getLast? = some q := by
  induction l generalizing p fuel with
  | nil => cases h
  | cons x l ih =>
    cases h with
    | cons h =>
      obtain ⟨fuel, rfl⟩ : ∃ m, fuel = m + 1 := ⟨fuel - 1, by rw [List.length_cons] at hf; omega⟩
      unfold Linked.last
      cases hn : next x with
      | none =>
        rw [hn] at h
        cases h
        exact ⟨x, rfl, rfl⟩
      | some q =>
        rw [hn] at h
        obtain ⟨r, hr, hl⟩ := ih h (Nat.le_of_succ_le_succ hf)
        refine ⟨r, hr, ?_⟩
        rw [List.getLast?_cons, hl]
        rfl

variable [DecidableEq α]

/-- A new node behind the last. -/
theorem Chain.snoc {p : Option α} {l : List α} (h : Chain next p l) (hl : l.Nodup) {q n : α} (hq : l.getLast? = some q)
    (hn : n ∉ l) : Chain (Function.update (Function.update next n none) q (some n)) p (l ++ [n]) := by
  induction h with
  | nil => cases hq
  | @cons x l h ih =>
    apply Chain.cons
    have hxn : x ≠ n := fun he => hn (he ▸ List.mem_cons_self)
    cases l with
    | nil =>
      obtain rfl : x = q := Option.some.inj hq
      rw [Function.update_self]
      apply Chain.cons
      rw [Function.update_of_ne (Ne.symm hxn), Function.update_self]
      exact .nil
    | cons y l =>
      rw [List.nodup_cons] at hl
      rw [List.getLast?_cons_cons] at hq
      have hxq : x ≠ q := fun he => hl.1 (he ▸ List.mem_of_getLast? hq)
      rw [Function.update_of_ne hxq, Function.update_of_ne hxn]
      exact ih hl.2 hq fun hm => hn (List.mem_cons_of_mem x hm)

end Linked

end SabApp
