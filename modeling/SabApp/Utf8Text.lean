import SabApp.Utf8

/-!
# What unicode_to_utf8 writes

In the three-byte form bit 12 of the unit stays in the second byte, where the standard has a 0: it is right where that bit
is 0 already.
-/

namespace SabApp

namespace Utf8

open CText

def Surrogate (u : UInt16) : Prop := 0xd800 ≤ u ∧ u ≤ 0xdfff

instance (u : UInt16) : Decidable (Surrogate u) := inferInstanceAs (Decidable (_ ∧ _))

/-- The encoding of the standard, of a unit that is a character. -/
def standard (u : UInt16) : List UInt8 := String.utf8EncodeChar (Char.ofNat u.toNat)

/-- The text of a sequence with its terminator is the encodings of the units, one after the other. -/
def Standard (us : List UInt16) : Prop :=
  ∃ text, unicode_to_utf8 (us ++ [0]) = some text ∧ cstr text = us.flatMap standard

section
variable {u : UInt16}

theorem val_ofNat (h : ¬ Surrogate u) : (Char.ofNat u.toNat).val = u.toUInt32 := by
  have hvalid : u.toNat.isValidChar := by
    have := u.toNat_lt
    rw [Surrogate, UInt16.le_iff_toNat_le, UInt16.le_iff_toNat_le] at h
    simp only [UInt16.reduceToNat] at h
    unfold Nat.isValidChar
    omega
  rw [Char.ofNat, dif_pos hvalid]
  rfl

theorem standard_one (h : ¬ Surrogate u) (h₁ : u ≤ 0x7f) : standard u = encodeUnit u := by
  have hsize : (Char.ofNat u.toNat).utf8Size = 1 := by
    rw [Char.utf8Size_eq_one_iff, val_ofNat h]
    exact h₁
  rw [standard, String.utf8EncodeChar_eq_singleton hsize, encodeUnit, if_pos h₁, val_ofNat h]
  rfl

theorem standard_two (h : ¬ Surrogate u) (h₁ : ¬ u ≤ 0x7f) (h₂ : u ≤ 0x7ff) : standard u = encodeUnit u := by
  have hsize : (Char.ofNat u.toNat).utf8Size = 2 := by
    rw [Char.utf8Size_eq_two_iff, val_ofNat h]
    exact ⟨UInt16.not_le.mp h₁, h₂⟩
  have hz := fun i => bit_eq_false (k := 11) (i := i) (lt_of_le h₂)
  rw [standard, String.utf8EncodeChar_eq_cons_cons hsize, encodeUnit, if_neg h₁, if_pos h₂, val_ofNat h]
  simp only [List.cons.injEq, and_true]
  constructor
  · apply eq_of_bits
    intro i hi
    interval_cases i <;> simp [hz]
  · apply eq_of_bits
    intro i hi
    interval_cases i <;> simp

theorem and_bit_twelve : u &&& 0x1000 = 0 ↔ u.toBitVec[12] = false := by
  constructor
  · intro h
    simpa using congrArg (fun v => v.toBitVec.getLsbD 12) h
  · intro h
    apply UInt16.eq_of_toBitVec_eq
    apply BitVec.eq_of_getLsbD_eq
    intro i hi
    interval_cases i <;> simp [h]

theorem size_three (h : ¬ Surrogate u) (h₂ : ¬ u ≤ 0x7ff) : (Char.ofNat u.toNat).utf8Size = 3 := by
  rw [Char.utf8Size_eq_three_iff, val_ofNat h]
  refine ⟨UInt16.not_le.mp h₂, UInt32.le_iff_toNat_le.mpr ?_⟩
  rw [UInt16.toNat_toUInt32]
  exact Nat.le_of_lt_succ u.toNat_lt

/-- The second byte differs by bit 12 of the unit. -/
theorem standard_three (h : ¬ Surrogate u) (h₂ : ¬ u ≤ 0x7ff) : standard u = encodeUnit u ↔ u &&& 0x1000 = 0 := by
  have h₁ : ¬ u ≤ 0x7f := fun hle => h₂ (UInt16.le_trans hle (by decide))
  rw [standard, String.utf8EncodeChar_eq_cons_cons_cons (size_three h h₂), encodeUnit, if_neg h₁, if_neg h₂, val_ofNat h,
    and_bit_twelve]
  simp only [List.cons.injEq, and_true]
  constructor
  · rintro ⟨-, hsecond, -⟩
    simpa using congrArg (fun b => b.toBitVec.getLsbD 6) hsecond
  · intro hbit
    refine ⟨?_, ?_, ?_⟩
    · apply eq_of_bits
      intro i hi
      interval_cases i <;> simp
    · apply eq_of_bits
      intro i hi
      interval_cases i <;> simp [hbit]
    · apply eq_of_bits
      intro i hi
      interval_cases i <;> simp

theorem standard_iff (h : ¬ Surrogate u) : standard u = encodeUnit u ↔ (0x7ff < u → u &&& 0x1000 = 0) := by
  by_cases h₂ : u ≤ 0x7ff
  · refine iff_of_true ?_ fun hlt => absurd hlt (UInt16.not_lt.mpr h₂)
    by_cases h₁ : u ≤ 0x7f
    · exact standard_one h h₁
    · exact standard_two h h₁ h₂
  · rw [standard_three h h₂]
    exact (imp_iff_right (UInt16.not_le.mp h₂)).symm

theorem length_standard (h : ¬ Surrogate u) : (standard u).length = (encodeUnit u).length := by
  by_cases h₂ : u ≤ 0x7ff
  · rw [(standard_iff h).mpr fun hlt => absurd hlt (UInt16.not_lt.mpr h₂)]
  · have h₁ : ¬ u ≤ 0x7f := fun hle => h₂ (UInt16.le_trans hle (by decide))
    rw [standard, String.length_utf8EncodeChar, size_three h h₂, encodeUnit, if_neg h₁, if_neg h₂]
    rfl

end

/-- Two texts of blocks of the same lengths are the same if the blocks are. -/
theorem flatMap_eq_iff {α β : Type*} {f g : α → List β} : ∀ {xs : List α}, (∀ x ∈ xs, (f x).length = (g x).length) →
    (xs.flatMap f = xs.flatMap g ↔ ∀ x ∈ xs, f x = g x)
  | [], _ => iff_of_true rfl nofun
  | x :: xs, h => by
    rw [List.forall_mem_cons] at h
    rw [List.flatMap_cons, List.flatMap_cons, List.forall_mem_cons, ← flatMap_eq_iff h.2]
    constructor
    · exact fun heq => List.append_inj heq h.1
    · rintro ⟨hx, hxs⟩
      rw [hx, hxs]

theorem cstr_encode {us : List UInt16} (h0 : 0 ∉ us) :
    cstr ((us ++ [0]).flatMap encodeUnit ++ [0]) = us.flatMap encodeUnit := by
  rw [List.flatMap_append, List.append_assoc]
  exact cstr_append_zero (not_mem_encode h0) [0]

/-- **UTF-8 text.** The text is the standard's exactly when its size is an `int` and bit 12 of every unit that is written
in three bytes is 0. -/
theorem text_standard_iff {us : List UInt16} (h0 : 0 ∉ us) (hs : ∀ u ∈ us, ¬ Surrogate u) :
    Standard us ↔ 3 * (us.length + 1) + 1 < 2 ^ 31 ∧ ∀ u ∈ us, 0x7ff < u → u &&& 0x1000 = 0 := by
  have hunits : us.flatMap encodeUnit = us.flatMap standard ↔ ∀ u ∈ us, 0x7ff < u → u &&& 0x1000 = 0 := by
    rw [eq_comm, flatMap_eq_iff fun u hu => length_standard (hs u hu)]
    exact forall₂_congr fun u hu => standard_iff (hs u hu)
  unfold Standard unicode_to_utf8
  rw [List.length_append, List.length_singleton]
  by_cases hfit : 3 * (us.length + 1) + 1 < 2 ^ 31
  · rw [if_pos hfit, and_iff_right hfit, ← hunits]
    constructor
    · rintro ⟨text, htext, hc⟩
      cases htext
      rwa [cstr_encode h0] at hc
    · exact fun heq => ⟨_, rfl, (cstr_encode h0).trans heq⟩
  · rw [if_neg hfit]
    refine iff_of_false ?_ fun h => hfit h.1
    rintro ⟨text, htext, -⟩
    cases htext

/-- Three bytes, two and one. -/
theorem text_standard_mixed : Standard [0x4e2d, 0xe9, 0x61] := by
  refine (text_standard_iff (by decide) ?_).mpr ⟨by decide, ?_⟩ <;>
    simp only [List.forall_mem_cons, List.not_mem_nil, false_imp_iff, implies_true, and_true] <;> decide

/-- The character U+5B57 is written as E5 ED 97. -/
theorem text_not_standard : ¬ Standard [0x5b57] := by
  rintro ⟨text, htext, hc⟩
  cases htext
  exact absurd hc (by decide)

end Utf8

end SabApp
