import SabApp.Bytes

/-!
# Bits of memory, and codes of numbers

The bits of a memory are numbered from the high bit of its first byte. `val m p n` is the number that
`n` bits from `p` on spell; `Holds m p l` says that the bits `l` stand at `p`. Numbers are written in
a fixed number of bits (`bitsOf`) or in the code that gives its own length (`ue`, `se`): a code is the
successor of its number, behind as many zeros as it has bits after its first.
-/

namespace SabApp

namespace Bits

/-! ## Bits -/

def bit (m : Mem) (i : ℕ) : Bool := (m (i / 8)).toNat / 2 ^ (7 - i % 8) % 2 = 1

/-- The number that `n` bits spell, the high bit first. -/
def val (m : Mem) (p : ℕ) : ℕ → ℕ
  | 0 => 0
  | n + 1 => 2 * val m p n + (bit m (p + n)).toNat

/-- The bits `l` stand at `p`. -/
def Holds (m : Mem) : ℕ → List Bool → Prop
  | _, [] => True
  | p, c :: l => bit m p = c ∧ Holds m (p + 1) l

/-- A number in `n` bits. -/
def bitsOf : ℕ → ℕ → List Bool
  | 0, _ => []
  | n + 1, x => bitsOf n (x / 2) ++ [decide (x % 2 = 1)]

@[simp] theorem bitsOf_length (n x : ℕ) : (bitsOf n x).length = n := by
  induction n generalizing x with
  | zero => rfl
  | succ n ih => rw [bitsOf, List.length_append, ih, List.length_singleton]

theorem val_lt (m : Mem) (p n : ℕ) : val m p n < 2 ^ n := by
  induction n with
  | zero => exact Nat.one_pos
  | succ n ih =>
    have hb := Bool.toNat_le (bit m (p + n))
    rw [val, Nat.pow_succ]
    omega

theorem val_add (m : Mem) (p a b : ℕ) : val m p (a + b) = val m p a * 2 ^ b + val m (p + a) b := by
  induction b with
  | zero => simp [val]
  | succ b ih => rw [← Nat.add_assoc, val, ih, val, Nat.pow_succ, Nat.add_assoc]; grind

theorem val_one (m : Mem) (p : ℕ) : val m p 1 = (bit m p).toNat := by simp [val]

theorem holds_append {m : Mem} {p : ℕ} {l l' : List Bool} :
    Holds m p (l ++ l') ↔ Holds m p l ∧ Holds m (p + l.length) l' := by
  induction l generalizing p with
  | nil => simp [Holds]
  | cons c l ih =>
    have hp : p + 1 + l.length = p + (c :: l).length := by rw [List.length_cons]; omega
    rw [List.cons_append, Holds, ih, Holds, hp, and_assoc]

theorem holds_bitsOf {m : Mem} {n x : ℕ} (h : x < 2 ^ n) {p : ℕ} : Holds m p (bitsOf n x) ↔ val m p n = x := by
  induction n generalizing x with
  | zero =>
    have hx : x = 0 := by simpa using h
    simp [bitsOf, Holds, val, hx]
  | succ n ih =>
    rw [Nat.pow_succ] at h
    rw [bitsOf, holds_append, ih (by omega), bitsOf_length, val]
    simp only [Holds, and_true]
    cases hb : bit m (p + n) <;> simp <;> omega

/-- Bits depend on the bytes that they are in. -/
theorem holds_congr {m m' : Mem} {n : ℕ} (h : ∀ i < n, m i = m' i) {l : List Bool} {p : ℕ} (hl : p + l.length ≤ 8 * n) :
    Holds m p l ↔ Holds m' p l := by
  induction l generalizing p with
  | nil => exact Iff.rfl
  | cons c l ih =>
    rw [List.length_cons] at hl
    rw [Holds, Holds, ih (by omega), bit, bit, h (p / 8) (by omega)]

/-! ## Bytes as bits -/

theorem bit_toNat (m : Mem) (q : ℕ) {r : ℕ} (hr : r < 8) : (bit m (8 * q + r)).toNat = (m q).toNat / 2 ^ (7 - r) % 2 := by
  have hq : (8 * q + r) / 8 = q := by omega
  have hm : (8 * q + r) % 8 = r := by omega
  rw [bit, hq, hm]
  rcases Nat.mod_two_eq_zero_or_one ((m q).toNat / 2 ^ (7 - r)) with h | h <;> rw [h] <;> rfl

/-- The first bits of a byte. -/
theorem val_high (m : Mem) (q : ℕ) {n : ℕ} (hn : n ≤ 8) : val m (8 * q) n = (m q).toNat / 2 ^ (8 - n) := by
  induction n with
  | zero => exact (Nat.div_eq_of_lt (m q).toNat_lt).symm
  | succ n ih =>
    have hpow : 2 ^ (8 - n) = 2 ^ (7 - n) * 2 := by rw [← Nat.pow_succ, ← Nat.succ_sub (by omega)]
    have hrest : 8 - (n + 1) = 7 - n := by omega
    rw [val, ih (by omega), bit_toNat m q (by omega), hpow, ← Nat.div_div_eq_div_mul, hrest]
    exact Nat.div_add_mod ((m q).toNat / 2 ^ (7 - n)) 2

theorem val_byte (m : Mem) (q : ℕ) : val m (8 * q) 8 = (m q).toNat :=
  (val_high m q (Nat.le_refl 8)).trans (Nat.div_one _)

theorem val_word (m : Mem) (q : ℕ) : val m (8 * q) 32 =
    16777216 * (m q).toNat + 65536 * (m (q + 1)).toNat + 256 * (m (q + 2)).toNat + (m (q + 3)).toNat := by
  have h₁ : 8 * q + 8 = 8 * (q + 1) := by omega
  have h₂ : 8 * q + 16 = 8 * (q + 2) := by omega
  have h₃ : 8 * q + 24 = 8 * (q + 3) := by omega
  have ha : val m (8 * q) 16 = _ := val_add m (8 * q) 8 8
  have hb : val m (8 * q) 24 = _ := val_add m (8 * q) 16 8
  have hc : val m (8 * q) 32 = _ := val_add m (8 * q) 24 8
  rw [h₁, val_byte, val_byte] at ha
  rw [h₂, val_byte] at hb
  rw [h₃, val_byte] at hc
  omega

/-! ## Codes that give their own length -/

/-- How many zeros stand in front of a number's code. -/
def zeros (v : ℕ) : ℕ := Nat.log2 (v + 1)

def ue (v : ℕ) : List Bool := bitsOf (2 * zeros v + 1) (v + 1)

/-- The number that stands for a signed one: the positive ones are odd. -/
def signed (d : ℤ) : ℕ := if 0 < d then 2 * d.natAbs - 1 else 2 * d.natAbs

def se (d : ℤ) : List Bool := ue (signed d)

@[simp] theorem ue_length (v : ℕ) : (ue v).length = 2 * zeros v + 1 := bitsOf_length _ _

theorem zeros_le (v : ℕ) : 2 ^ zeros v ≤ v + 1 := Nat.log2_self_le (Nat.succ_ne_zero v)

theorem lt_zeros (v : ℕ) : v + 1 < 2 ^ (zeros v + 1) := Nat.lt_log2_self

theorem holds_ue {m : Mem} {p v : ℕ} : Holds m p (ue v) ↔ val m p (2 * zeros v + 1) = v + 1 := by
  have hlt : v + 1 < 2 ^ (2 * zeros v + 1) :=
    Nat.lt_of_lt_of_le (lt_zeros v) (Nat.pow_le_pow_right (by decide) (by omega))
  exact holds_bitsOf hlt

/-- In front of the code's ones stand its zeros. -/
theorem val_zeros {m : Mem} {p v : ℕ} (h : Holds m p (ue v)) : val m p (zeros v) = 0 := by
  have hv := holds_ue.mp h
  have hs : 2 * zeros v + 1 = zeros v + (zeros v + 1) := by omega
  rw [hs, val_add] at hv
  by_contra hne
  have h₁ : 2 ^ (zeros v + 1) ≤ val m p (zeros v) * 2 ^ (zeros v + 1) :=
    Nat.le_mul_of_pos_left _ (Nat.pos_of_ne_zero hne)
  have h₂ := lt_zeros v
  omega

/-- And behind them the number's successor. -/
theorem val_ones {m : Mem} {p v : ℕ} (h : Holds m p (ue v)) : val m (p + zeros v) (zeros v + 1) = v + 1 := by
  have hv := holds_ue.mp h
  have hs : 2 * zeros v + 1 = zeros v + (zeros v + 1) := by omega
  rw [hs, val_add, val_zeros h, Nat.zero_mul, Nat.zero_add] at hv
  exact hv

end Bits

end SabApp
