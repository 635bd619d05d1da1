import Mathlib.Logic.Function.Basic
import Mathlib.Data.List.Basic
import Mathlib.Tactic.Common

/-!
# Rings of slots

The item with number `k` is written to slot `k % n`, so each slot holds the newest of the items that go there. A
reader at number `r` with `w` items written finds `newest n w r` in its slot, which is `r` itself as long as
no more than `n` items have been written since.
-/

namespace SabApp

namespace SlotRing

variable {α : Type*} {n : ℕ}

/-- The newest items are in their slots. -/
def Latest (n : ℕ) (slot : ℕ → α) (items : List α) : Prop :=
  ∀ k x, items[k]? = some x → items.length ≤ k + n → slot (k % n) = x

/-- The number of the item in the slot of `r`. -/
def newest (n w r : ℕ) : ℕ := r + n * ((w - r - 1) / n)

/-- `r` and the whole rings by which the writer is ahead of it. -/
def reach (n w r : ℕ) : ℕ := r + n * ((w - r) / n)

theorem latest_nil (slot : ℕ → α) : Latest n slot [] := fun k x h => by
  rw [List.getElem?_nil] at h
  cases h

/-- Numbers that share a slot are a whole ring apart. -/
theorem eq_of_mod_eq {j k : ℕ} (h : j % n = k % n) (hjk : j ≤ k) (hk : k < j + n) : j = k := by
  have hd : (k - j) % n = 0 := Nat.sub_mod_eq_zero_of_mod_eq h.symm
  have hz : k - j = 0 := by
    rw [Nat.mod_eq_of_lt (by omega)] at hd
    exact hd
  omega

theorem Latest.write {slot : ℕ → α} {items : List α} (h : Latest n slot items) (x : α) :
    Latest n (Function.update slot (items.length % n) x) (items ++ [x]) := by
  intro k y hk hn
  rw [List.length_append, List.length_singleton] at hn
  have hlt : k < items.length + 1 := by
    have := (List.getElem?_eq_some_iff.mp hk).1
    rwa [List.length_append, List.length_singleton] at this
  by_cases hlast : k = items.length
  · subst hlast
    rw [List.getElem?_concat_length] at hk
    cases hk
    exact Function.update_self ..
  · rw [List.getElem?_append_left (by omega)] at hk
    have hne : k % n ≠ items.length % n := fun he => hlast (eq_of_mod_eq he (by omega) (by omega))
    rw [Function.update_of_ne hne]
    exact h k y hk (by omega)

/-- An item whose slot was not written again may be changed in its slot. -/
theorem Latest.set {slot : ℕ → α} {items : List α} (h : Latest n slot items) {r : ℕ} (hi : r < items.length)
    (hr : items.length ≤ r + n) (x : α) :
    Latest n (Function.update slot (r % n) x) (items.set r x) := by
  intro k y hk hn
  rw [List.length_set] at hn
  have hlt : k < items.length := by
    have := (List.getElem?_eq_some_iff.mp hk).1
    rwa [List.length_set] at this
  rw [List.getElem?_set] at hk
  by_cases hkr : r = k
  · subst hkr
    rw [if_pos rfl, if_pos hlt] at hk
    cases hk
    exact Function.update_self ..
  · rw [if_neg hkr] at hk
    have hne : k % n ≠ r % n := by
      intro he
      rcases Nat.lt_or_gt_of_ne hkr with hlt' | hlt'
      · exact hkr (eq_of_mod_eq he.symm (Nat.le_of_lt hlt') (by omega))
      · exact hkr (eq_of_mod_eq he (Nat.le_of_lt hlt') (by omega)).symm
    rw [Function.update_of_ne hne]
    exact h k y hk hn

theorem mod_ne_of_lt {w r : ℕ} (h : r % n ≠ w % n) (hr : r ≤ w) : r < w := by
  apply Nat.lt_of_le_of_ne hr
  rintro rfl
  exact h rfl

theorem reach_le {w r : ℕ} (hr : r ≤ w) : reach n w r ≤ w := by
  have := Nat.mul_div_le (w - r) n
  unfold reach
  omega

theorem reach_write (n w r : ℕ) : reach n w r ≤ reach n (w + 1) r := by
  apply Nat.add_le_add_left
  apply Nat.mul_le_mul_left
  exact Nat.div_le_div_right (Nat.sub_le_sub_right (Nat.le_succ w) r)

section
variable {w r : ℕ} (hr : r < w)
include hr

/-- Off the writer's slot, the item found is the one at the reach, which a read then moves past. -/
theorem newest_eq_reach (hne : r % n ≠ w % n) : newest n w r = reach n w r := by
  have hn : ¬ n ∣ w - r := by
    rintro ⟨q, hq⟩
    apply hne
    rw [show w = r + n * q by omega, Nat.add_mul_mod_self_left]
  obtain ⟨d, hd⟩ : ∃ d, w - r = d + 1 := ⟨w - r - 1, by omega⟩
  rw [hd] at hn
  rw [newest, reach, hd, Nat.add_sub_cancel, Nat.succ_div_of_not_dvd hn]

omit hr in
theorem reach_read : reach n w (r + 1) = newest n w r + 1 := by
  unfold newest reach
  rw [Nat.sub_add_eq]
  omega

theorem newest_lt : newest n w r < w := by
  have := Nat.mul_div_le (w - r - 1) n
  unfold newest
  omega

theorem le_newest_add (hn : 0 < n) : w ≤ newest n w r + n := by
  have := Nat.lt_mul_div_succ (w - r - 1) hn
  rw [Nat.mul_add, Nat.mul_one] at this
  unfold newest
  omega

omit hr in
theorem newest_mod : newest n w r % n = r % n := Nat.add_mul_mod_self_left ..

omit hr in
theorem newest_eq_self (hw : w ≤ r + n) : newest n w r = r := by
  by_cases hn : n = 0
  · simp [newest, hn]
  · rw [newest, Nat.div_eq_of_lt (by omega)]
    rfl

/-- What a reader finds. -/
theorem Latest.newest {slot : ℕ → α} {items : List α} (h : Latest n slot items) (hn : 0 < n) (hw : items.length = w) :
    items[newest n w r]? = some (slot (r % n)) := by
  have hlt : SlotRing.newest n w r < items.length := by
    rw [hw]
    exact newest_lt hr
  have hx := List.getElem?_eq_getElem hlt
  have hs := h _ _ hx (by rw [hw]; exact le_newest_add hr hn)
  rw [newest_mod] at hs
  rw [hx, hs]

end

end SlotRing

end SabApp
