import SabApp.JsonSearch

/-!
# Decimal texts

What `%d` prints, read back by `atoi`.
-/

namespace SabApp

namespace Decimal

open ToolJson

/-- The digits of a number, `fuel` of them at most. -/
def digitsUpTo : ℕ → ℕ → List UInt8
  | 0, _ => []
  | fuel + 1, n => if n < 10 then [UInt8.ofNat (48 + n)] else digitsUpTo fuel (n / 10) ++ [UInt8.ofNat (48 + n % 10)]

def digits (n : ℕ) : List UInt8 := digitsUpTo (n + 1) n

/-- `%d` -/
def decimal (n : ℤ) : List UInt8 := if n < 0 then 45 :: digits n.natAbs else digits n.natAbs

theorem digitsUpTo_eq {n : ℕ} : ∀ {j k : ℕ}, n < j → n < k → digitsUpTo j n = digitsUpTo k n := by
  induction n using Nat.strongRecOn with
  | ind n ih =>
    intro j k hj hk
    obtain ⟨j, rfl⟩ := Nat.exists_eq_succ_of_ne_zero (Nat.ne_zero_of_lt hj)
    obtain ⟨k, rfl⟩ := Nat.exists_eq_succ_of_ne_zero (Nat.ne_zero_of_lt hk)
    rw [digitsUpTo, digitsUpTo]
    by_cases h : n < 10
    · rw [if_pos h, if_pos h]
    · have hrest : digitsUpTo j (n / 10) = digitsUpTo k (n / 10) := ih (n / 10) (by omega) (by omega) (by omega)
      rw [if_neg h, if_neg h, hrest]

theorem digits_of_lt {n : ℕ} (h : n < 10) : digits n = [UInt8.ofNat (48 + n)] := by
  rw [digits, digitsUpTo, if_pos h]

theorem digits_of_le {n : ℕ} (h : 10 ≤ n) : digits n = digits (n / 10) ++ [UInt8.ofNat (48 + n % 10)] := by
  rw [digits, digitsUpTo, if_neg (Nat.not_lt.mpr h), digits, digitsUpTo_eq (by omega) (Nat.lt_succ_self (n / 10))]

theorem isDigit_digit {d : ℕ} (h : d < 10) : isDigit (UInt8.ofNat (48 + d)) = true := by
  revert d
  decide

theorem digit_val {d : ℕ} (h : d < 10) : (UInt8.ofNat (48 + d)).toNat - 48 = d := by
  revert d
  decide

theorem isDigit_of_mem_digits {n : ℕ} : ∀ c ∈ digits n, isDigit c = true := by
  induction n using Nat.strongRecOn with
  | ind n ih =>
    intro c hc
    by_cases h : n < 10
    · rw [digits_of_lt h, List.mem_singleton] at hc
      exact hc ▸ isDigit_digit h
    · rw [digits_of_le (Nat.not_lt.mp h), List.mem_append, List.mem_singleton] at hc
      cases hc with
      | inl hc => exact ih (n / 10) (by omega) c hc
      | inr hc => exact hc ▸ isDigit_digit (Nat.mod_lt n (by decide))

theorem digits_ne_nil (n : ℕ) : digits n ≠ [] := by
  by_cases h : n < 10
  · simp [digits_of_lt h]
  · simp [digits_of_le (Nat.not_lt.mp h)]

theorem digitsVal_digits (n : ℕ) : digitsVal (digits n) = n := by
  induction n using Nat.strongRecOn with
  | ind n ih =>
    by_cases h : n < 10
    · rw [digits_of_lt h]
      simpa [digitsVal] using digit_val h
    · have hd := ih (n / 10) (by omega)
      rw [digitsVal] at hd
      rw [digits_of_le (Nat.not_lt.mp h), digitsVal, List.foldl_append, hd, List.foldl_cons, List.foldl_nil,
        digit_val (Nat.mod_lt n (by decide))]
      omega

theorem length_digits_le {n k : ℕ} (h : n < 10 ^ (k + 1)) : (digits n).length ≤ k + 1 := by
  induction k generalizing n with
  | zero =>
    rw [digits_of_lt (by simpa using h)]
    simp
  | succ k ih =>
    by_cases hn : n < 10
    · rw [digits_of_lt hn]
      simp
    · have hd := ih (n := n / 10) (by rw [Nat.pow_succ] at h; omega)
      rw [digits_of_le (Nat.not_lt.mp hn), List.length_append, List.length_singleton]
      omega

/-- A minus sign or a digit. -/
def isNumeric (c : UInt8) : Bool := c = 45 ∨ isDigit c

theorem isNumeric_of_mem_decimal {n : ℤ} {c : UInt8} (h : c ∈ decimal n) : isNumeric c = true := by
  rw [decimal] at h
  split at h
  · cases h with
    | head => rfl
    | tail _ h => simp [isNumeric, isDigit_of_mem_digits c h]
  · simp [isNumeric, isDigit_of_mem_digits c h]

theorem decimal_ne {n : ℤ} {s : List UInt8} {c : UInt8} (hc : c ∈ s) (hn : isNumeric c = false) : decimal n ≠ s := by
  rintro rfl
  rw [isNumeric_of_mem_decimal hc] at hn
  cases hn

theorem not_mem_decimal {n : ℤ} {c : UInt8} (hn : isNumeric c = false) : c ∉ decimal n :=
  fun h => decimal_ne h hn rfl

theorem length_decimal_le {n : ℤ} (h₁ : -2 ^ 31 ≤ n) (h₂ : n < 2 ^ 31) : (decimal n).length ≤ 11 := by
  have hd : (digits n.natAbs).length ≤ 10 := length_digits_le (by omega)
  rw [decimal]
  split
  · rw [List.length_cons]
    omega
  · omega

/-! ## Reading back -/

/-- A number starts with a minus sign or with one of its digits, and neither is blank. -/
theorem decimal_cases (n : ℤ) : n < 0 ∧ decimal n = 45 :: digits n.natAbs ∨
    0 ≤ n ∧ ∃ d ds, isDigit d = true ∧ digits n.natAbs = d :: ds ∧ decimal n = d :: ds := by
  by_cases h : n < 0
  · exact .inl ⟨h, by rw [decimal, if_pos h]⟩
  · cases hd : digits n.natAbs with
    | nil => exact absurd hd (digits_ne_nil _)
    | cons d ds =>
      have hm : d ∈ digits n.natAbs := hd ▸ List.mem_cons_self
      refine .inr ⟨Int.not_lt.mp h, d, ds, isDigit_of_mem_digits d hm, rfl, ?_⟩
      rw [decimal, if_neg h, hd]

/-- What does not fit an `int` is held at its bounds. -/
theorem atoi_decimal_clamped (n : ℤ) {t : List UInt8} (ht : ∀ c u, t = c :: u → isDigit c = false) :
    atoi (decimal n ++ t) = max (-2 ^ 31) (min n (2 ^ 31 - 1)) := by
  have hval := CText.takeWhile_stop (isDigit_of_mem_digits (n := n.natAbs)) ht
  have hd := digitsVal_digits n.natAbs
  rcases decimal_cases n with ⟨hn, he⟩ | ⟨hn, d, ds, hdig, hds, he⟩
  · rw [he, List.cons_append, atoi, List.dropWhile_cons_of_neg (by decide)]
    simp only [hval, hd]
    omega
  · have h45 : d ≠ 45 := by
      rintro rfl
      cases hdig
    have h43 : d ≠ 43 := by
      rintro rfl
      cases hdig
    rw [hds, List.cons_append] at hval
    rw [hds] at hd
    rw [he, List.cons_append, atoi, List.dropWhile_cons_of_neg (by simp [not_isSpace_of_isDigit hdig])]
    split
    · next heq => exact absurd (List.cons.inj heq).1 h45
    · next heq => exact absurd (List.cons.inj heq).1 h43
    · rw [hval, hd]
      omega

theorem atoi_decimal {n : ℤ} (h₁ : -2 ^ 31 ≤ n) (h₂ : n < 2 ^ 31) {t : List UInt8}
    (ht : ∀ c u, t = c :: u → isDigit c = false) : atoi (decimal n ++ t) = n := by
  rw [atoi_decimal_clamped n ht]
  omega

end Decimal

end SabApp
