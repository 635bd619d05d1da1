import Mathlib.Data.Nat.Bitwise
import Mathlib.Tactic.Common

/-!
# Numbers packed into the bit fields of a machine word

A word of three fields: seven bits from bit 24 up, eight from bit 8 and the low eight. Such a
word is never negative, so shifts and masks read the fields back.
-/

namespace SabApp

/-! ## Operations on small words -/

theorem ofNat_and (m k : ℕ) : Int32.ofNat m &&& Int32.ofNat k = Int32.ofNat (m &&& k) := by
  apply Int32.toBitVec_inj.mp
  exact BitVec.ofNat_and.symm

theorem ofNat_or (m k : ℕ) : Int32.ofNat m ||| Int32.ofNat k = Int32.ofNat (m ||| k) := by
  apply Int32.toBitVec_inj.mp
  exact BitVec.ofNat_or.symm

theorem shiftLeft_ofNat (m i : ℕ) : BitVec.ofNat 32 m <<< i = BitVec.ofNat 32 (m * 2 ^ i) := by
  apply BitVec.eq_of_toNat_eq
  simp [Nat.shiftLeft_eq]

theorem ofNat_shiftLeft_eight (m : ℕ) : Int32.ofNat m <<< 8 = Int32.ofNat (m * 256) := by
  apply Int32.toBitVec_inj.mp
  exact shiftLeft_ofNat m 8

theorem ofNat_shiftLeft_two (m : ℕ) : Int32.ofNat m <<< 2 = Int32.ofNat (m * 4) := by
  apply Int32.toBitVec_inj.mp
  exact shiftLeft_ofNat m 2

theorem sshiftRight_ofNat {m : ℕ} (h : m < 2 ^ 31) (i : ℕ) :
    (BitVec.ofNat 32 m).sshiftRight i = BitVec.ofNat 32 (m / 2 ^ i) := by
  have hd : m / 2 ^ i ≤ m := Nat.div_le_self ..
  apply BitVec.eq_of_toNat_eq
  rw [BitVec.toNat_sshiftRight_of_msb_false, BitVec.toNat_ofNat, BitVec.toNat_ofNat, Nat.mod_eq_of_lt (by omega),
    Nat.mod_eq_of_lt (by omega), Nat.shiftRight_eq_div_pow]
  rw [BitVec.msb_eq_false_iff_two_mul_lt, BitVec.toNat_ofNat, Nat.mod_eq_of_lt (by omega)]
  omega

theorem ofNat_shiftRight_eight {m : ℕ} (h : m < 2 ^ 31) : Int32.ofNat m >>> 8 = Int32.ofNat (m / 256) := by
  apply Int32.toBitVec_inj.mp
  exact sshiftRight_ofNat h 8

theorem ofNat_shiftRight_two {m : ℕ} (h : m < 2 ^ 31) : Int32.ofNat m >>> 2 = Int32.ofNat (m / 4) := by
  apply Int32.toBitVec_inj.mp
  exact sshiftRight_ofNat h 2

theorem toNatClampNeg_ofNat {m : ℕ} (h : m < 2 ^ 31) : (Int32.ofNat m).toNatClampNeg = m := by
  show (BitVec.ofNat 32 m).toInt.toNat = m
  rw [BitVec.toInt_eq_toNat_of_lt] <;> rw [BitVec.toNat_ofNat, Nat.mod_eq_of_lt (by omega)]
  · rfl
  · omega

theorem ofNat_nonneg {m : ℕ} (h : m < 2 ^ 31) : ¬ Int32.ofNat m < 0 := by
  have hi : (Int32.ofNat m).toInt = m := by
    show (BitVec.ofNat 32 m).toInt = m
    rw [BitVec.toInt_eq_toNat_of_lt] <;> rw [BitVec.toNat_ofNat, Nat.mod_eq_of_lt (by omega)]
    omega
  rw [Int32.lt_iff_toInt_lt, hi]
  exact Int.not_lt.mpr (Int.natCast_nonneg m)

/-- A mask of low bits takes a remainder. -/
theorem toNatClampNeg_mask {m : ℕ} (h : m < 2 ^ 31) (k : ℕ) :
    (Int32.ofNat m &&& Int32.ofNat (2 ^ k - 1)).toNatClampNeg = m % 2 ^ k := by
  have hm : m % 2 ^ k ≤ m := Nat.mod_le ..
  rw [ofNat_and, Nat.and_two_pow_sub_one_eq_mod, toNatClampNeg_ofNat (by omega)]

/-- A mask wider than the number keeps it. -/
theorem ofNat_mask {m k : ℕ} (h : m < 2 ^ k) : Int32.ofNat m &&& Int32.ofNat (2 ^ k - 1) = Int32.ofNat m := by
  rw [ofNat_and, Nat.and_two_pow_sub_one_eq_mod, Nat.mod_eq_of_lt h]

/-- Two bits below six. -/
theorem or_two_bits (c : ℕ) {s : ℕ} (hs : s < 4) :
    (Int32.ofNat c <<< 2) ||| Int32.ofNat s = Int32.ofNat (c * 4 + s) := by
  have h := Nat.shiftLeft_add_eq_or_of_lt (i := 2) hs c
  rw [Nat.shiftLeft_eq] at h
  rw [ofNat_shiftLeft_two, ofNat_or, ← h]

/-! ## Three fields -/

/-- `p` from bit 24, `d` from bit 8 and `n` from bit 0. -/
def fields (p d n : ℕ) : ℕ := p * 2 ^ 24 + d * 256 + n

section
variable {p d n : ℕ}

theorem fields_lt (hp : p < 128) (hd : d < 256) (hn : n < 256) : fields p d n < 2 ^ 31 := by
  unfold fields
  omega

/-- How the fields are put together. -/
theorem or_fields (hd : d < 256) (hn : n < 256) :
    Int32.ofNat (p * 2 ^ 24) ||| (Int32.ofNat d <<< 8) ||| Int32.ofNat n = Int32.ofNat (fields p d n) := by
  have hlow : d * 256 ||| n = d * 256 + n := by
    have h := Nat.shiftLeft_add_eq_or_of_lt (i := 8) hn d
    rw [Nat.shiftLeft_eq] at h
    exact h.symm
  have hall : p * 2 ^ 24 ||| (d * 256 + n) = p * 2 ^ 24 + (d * 256 + n) := by
    have h := Nat.shiftLeft_add_eq_or_of_lt (i := 24) (b := d * 256 + n) (by omega) p
    rw [Nat.shiftLeft_eq] at h
    exact h.symm
  rw [ofNat_shiftLeft_eight, ofNat_or, ofNat_or, Nat.or_assoc, hlow, hall, ← Nat.add_assoc]
  rfl

theorem fields_top (hp : p < 128) (hd : d < 256) (hn : n < 256) :
    Int32.ofNat (fields p d n) &&& 0xFF000000 = Int32.ofNat (p * 2 ^ 24) := by
  have hr : fields p d n % 2 ^ 24 = d * 256 + n ∧ fields p d n / 2 ^ 24 = p := by
    unfold fields
    omega
  have hdiv : (fields p d n &&& 0xFF000000) / 2 ^ 24 = p := by
    rw [Nat.and_div_two_pow, hr.2]
    exact (Nat.and_two_pow_sub_one_eq_mod p 8).trans (Nat.mod_eq_of_lt (by omega))
  have hmod : (fields p d n &&& 0xFF000000) % 2 ^ 24 = 0 := by
    rw [Nat.and_mod_two_pow]
    exact Nat.and_zero _
  refine (ofNat_and _ _).trans (congrArg Int32.ofNat ?_)
  rw [← Nat.div_add_mod (fields p d n &&& 0xFF000000) (2 ^ 24), hdiv, hmod, Nat.add_zero, Nat.mul_comm]

theorem fields_mid (hp : p < 128) (hd : d < 256) (hn : n < 256) :
    ((Int32.ofNat (fields p d n) >>> 8) &&& 0xFF).toNatClampNeg = d := by
  have hl := fields_lt hp hd hn
  rw [ofNat_shiftRight_eight hl]
  refine (toNatClampNeg_mask (by omega) 8).trans ?_
  unfold fields
  omega

theorem fields_low (hp : p < 128) (hd : d < 256) (hn : n < 256) :
    (Int32.ofNat (fields p d n) &&& 0xFF).toNatClampNeg = n := by
  refine (toNatClampNeg_mask (fields_lt hp hd hn) 8).trans ?_
  unfold fields
  omega

theorem fields_high6 (hp : p < 128) (hd : d < 256) (hn : n < 256) :
    ((Int32.ofNat (fields p d n) >>> 2) &&& 0x3F).toNatClampNeg = n / 4 := by
  have hl := fields_lt hp hd hn
  rw [ofNat_shiftRight_two hl]
  refine (toNatClampNeg_mask (by omega) 6).trans ?_
  unfold fields
  omega

theorem fields_low2 (hp : p < 128) (hd : d < 256) (hn : n < 256) :
    (Int32.ofNat (fields p d n) &&& 0x3).toNatClampNeg = n % 4 := by
  refine (toNatClampNeg_mask (fields_lt hp hd hn) 2).trans ?_
  unfold fields
  omega

end

theorem fields_inj {p d n q e m : ℕ} (hp : p < 128) (hd : d < 256) (hn : n < 256) (hq : q < 128) (he : e < 256)
    (hm : m < 256) (h : Int32.ofNat (fields p d n) = Int32.ofNat (fields q e m)) : p = q ∧ d = e ∧ n = m := by
  have hnat : fields p d n = fields q e m := by
    rw [← toNatClampNeg_ofNat (fields_lt hp hd hn), h, toNatClampNeg_ofNat (fields_lt hq he hm)]
  unfold fields at hnat
  omega

end SabApp
