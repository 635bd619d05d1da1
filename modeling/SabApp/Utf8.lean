import Mathlib.Tactic.IntervalCases
import SabApp.CText

/-!
# UTF-8 and 16-bit units (tool_char.c)

`unicode_to_utf8` writes one, two or three bytes for a unit; in the three-byte form it leaves bit 12
of the unit in the second byte, and `utf8_to_unicode` masks it away. Behind a one-byte character
`utf8_to_unicode` moves on by one byte of the result, where it moves on by two behind the others.
-/

namespace SabApp

namespace Utf8

open CText

def encodeUnit (u : UInt16) : List UInt8 :=
  if u ≤ 0x7f then [u.toUInt8]
  else if u ≤ 0x7ff then
    [((0xc0 : UInt16) ||| (u >>> (6 : UInt16))).toUInt8, ((0x80 : UInt16) ||| (u &&& (0x3f : UInt16))).toUInt8]
  else
    [((0xe0 : UInt16) ||| (u >>> (12 : UInt16))).toUInt8,
      ((0x80 : UInt16) ||| ((u >>> (6 : UInt16)) &&& (0x00ff : UInt16))).toUInt8,
      ((0x80 : UInt16) ||| (u &&& (0x3f : UInt16))).toUInt8]

/-- None where the size of the result, `charscount * 3 + 1`, is no `int`. -/
def unicode_to_utf8 (units : List UInt16) : Option (List UInt8) :=
  if 3 * units.length + 1 < 2 ^ 31 then some (units.flatMap encodeUnit ++ [0]) else none

def twoBytes (c₁ c₂ : UInt8) : List UInt8 :=
  let t₁ := c₁ &&& (0x1f : UInt8)
  let t₂ := c₂ &&& (0x3f : UInt8)
  [t₂ ||| ((t₁ &&& (0x03 : UInt8)) <<< (6 : UInt8)), t₁ >>> (2 : UInt8)]

def threeBytes (c₁ c₂ c₃ : UInt8) : List UInt8 :=
  let t₁ := c₁ &&& (0x1f : UInt8)
  let t₂ := c₂ &&& (0x3f : UInt8)
  let t₃ := c₃ &&& (0x3f : UInt8)
  [((t₂ &&& (0x03 : UInt8)) <<< (6 : UInt8)) ||| t₃, (t₁ <<< (4 : UInt8)) ||| (t₂ >>> (2 : UInt8))]

/-- The loop of `utf8_to_unicode`: the bytes that `tmp` passes, and `resultsize`. None is a read behind the text. -/
def decodeLoop : List UInt8 → Option (List UInt8 × ℕ)
  | [] => none
  | c :: cs =>
    if c = 0 then some ([], 0)
    -- the zero that is written behind it is written over by the next character
    else if c ≤ 0x7f then (decodeLoop cs).map fun r => (c :: r.1, r.2 + 2)
    else if c &&& 0xe0 = 0xc0 then
      match cs with
      | [] => none
      | c₂ :: cs => (decodeLoop cs).map fun r => (twoBytes c c₂ ++ r.1, r.2 + 2)
    else if c &&& 0xf0 = 0xe0 then
      match cs with
      | [] | [_] => none
      | c₂ :: c₃ :: cs => (decodeLoop cs).map fun r => (threeBytes c c₂ c₃ ++ r.1, r.2 + 2)
    else decodeLoop cs

/-- The memory at `result`, and `outsize`. -/
def utf8_to_unicode (text : List UInt8) : Option (List UInt8 × ℕ) :=
  (decodeLoop text).map fun r =>
    (r.1 ++ List.replicate (2 * (cstr text).length + 2 - r.1.length) 0, r.2 + 2)

def unit (lo hi : UInt8) : UInt16 := lo.toUInt16 ||| (hi.toUInt16 <<< (8 : UInt16))

/-- The units up to the first that is zero. -/
def units : List UInt8 → List UInt16
  | lo :: hi :: t => if lo = 0 ∧ hi = 0 then [] else unit lo hi :: units t
  | _ => []

/-- A sequence with its terminator comes back from the text that is made of it. -/
def RoundTrip (us : List UInt16) : Prop :=
  ∃ text, unicode_to_utf8 (us ++ [0]) = some text ∧
    ∃ out size, utf8_to_unicode text = some (out, size) ∧ units out = us ∧ size = 2 * (us.length + 1)

/-! ## One character -/

theorem eq_of_bits {a b : UInt8} (h : ∀ i < 8, a.toBitVec.getLsbD i = b.toBitVec.getLsbD i) : a = b := by
  apply UInt8.eq_of_toBitVec_eq
  apply BitVec.eq_of_getLsbD_eq
  exact h

theorem bit_eq_false {u : UInt16} {k : ℕ} (hu : u.toNat < 2 ^ k) {i : ℕ} (hk : k ≤ i) (hi : i < 16) :
    u.toBitVec[i] = false := by
  rw [← BitVec.getLsbD_eq_getElem, ← BitVec.testBit_toNat]
  apply Nat.testBit_lt_two_pow
  exact Nat.lt_of_lt_of_le hu (Nat.pow_le_pow_right (by decide) hk)

section
variable (u : UInt16)

def low : UInt8 := u.toUInt8

def high : UInt8 := (u >>> (8 : UInt16)).toUInt8

@[simp] theorem unit_low_high : unit (low u) (high u) = u := by
  apply UInt16.eq_of_toBitVec_eq
  apply BitVec.eq_of_getLsbD_eq
  intro i hi
  interval_cases i <;> simp [unit, low, high, -UInt16.toUInt16_toUInt8]

@[simp] theorem low_unit (lo hi : UInt8) : low (unit lo hi) = lo := by
  apply eq_of_bits
  intro i hi
  interval_cases i <;> simp [unit, low]

@[simp] theorem high_unit (lo hi : UInt8) : high (unit lo hi) = hi := by
  apply eq_of_bits
  intro i hi
  interval_cases i <;> simp [unit, high]

variable {u}

theorem ne_zero_iff : u ≠ 0 ↔ ¬ (low u = 0 ∧ high u = 0) := by
  refine not_congr ⟨fun h => by subst h; decide, fun h => ?_⟩
  rw [← unit_low_high u, h.1, h.2]
  rfl

theorem lt_of_le {k : UInt16} (h : u ≤ k) : u.toNat < k.toNat + 1 := Nat.lt_succ_of_le (UInt16.le_iff_toNat_le.mp h)

theorem high_of_le (h : u ≤ 0x7f) : high u = 0 := by
  have hz := fun i => bit_eq_false (k := 7) (i := i) (lt_of_le h)
  apply eq_of_bits
  intro i hi
  interval_cases i <;> simp [high, hz]

theorem twoBytes_encode (h : u ≤ 0x7ff) :
    twoBytes ((0xc0 : UInt16) ||| (u >>> (6 : UInt16))).toUInt8 ((0x80 : UInt16) ||| (u &&& (0x3f : UInt16))).toUInt8 =
      [low u, high u] := by
  have hz := fun i => bit_eq_false (k := 11) (i := i) (lt_of_le h)
  simp only [twoBytes, List.cons.injEq, and_true]
  constructor
  · apply eq_of_bits
    intro i hi
    interval_cases i <;> simp [low]
  · apply eq_of_bits
    intro i hi
    interval_cases i <;> simp [high, hz]

theorem threeBytes_encode :
    threeBytes ((0xe0 : UInt16) ||| (u >>> (12 : UInt16))).toUInt8
      ((0x80 : UInt16) ||| ((u >>> (6 : UInt16)) &&& (0x00ff : UInt16))).toUInt8
      ((0x80 : UInt16) ||| (u &&& (0x3f : UInt16))).toUInt8 = [low u, high u] := by
  simp only [threeBytes, List.cons.injEq, and_true]
  constructor
  · apply eq_of_bits
    intro i hi
    interval_cases i <;> simp [low]
  · apply eq_of_bits
    intro i hi
    interval_cases i <;> simp [high]

end

/-! ## The loop -/

theorem lead_two {c : UInt8} (h : c &&& 0xe0 = 0xc0) : c ≠ 0 ∧ ¬ c ≤ 0x7f := by
  have hall : ∀ n < 256, UInt8.ofNat n &&& 0xe0 = 0xc0 → UInt8.ofNat n ≠ 0 ∧ ¬ UInt8.ofNat n ≤ 0x7f := by decide +kernel
  have := hall c.toNat c.toNat_lt
  rw [UInt8.ofNat_toNat] at this
  exact this h

theorem lead_three {c : UInt8} (h : c &&& 0xf0 = 0xe0) : c ≠ 0 ∧ ¬ c ≤ 0x7f ∧ ¬ c &&& 0xe0 = 0xc0 := by
  have hall : ∀ n < 256, UInt8.ofNat n &&& 0xf0 = 0xe0 →
      UInt8.ofNat n ≠ 0 ∧ ¬ UInt8.ofNat n ≤ 0x7f ∧ ¬ UInt8.ofNat n &&& 0xe0 = 0xc0 := by decide +kernel
  have := hall c.toNat c.toNat_lt
  rw [UInt8.ofNat_toNat] at this
  exact this h

theorem isLead_two {u : UInt16} (h : u ≤ 0x7ff) :
    ((0xc0 : UInt16) ||| (u >>> (6 : UInt16))).toUInt8 &&& 0xe0 = 0xc0 := by
  have hz := fun i => bit_eq_false (k := 11) (i := i) (lt_of_le h)
  apply eq_of_bits
  intro i hi
  interval_cases i <;> simp [hz]

theorem isLead_three (u : UInt16) : ((0xe0 : UInt16) ||| (u >>> (12 : UInt16))).toUInt8 &&& 0xf0 = 0xe0 := by
  apply eq_of_bits
  intro i hi
  interval_cases i <;> simp

/-- What `tmp` passes for a unit. -/
def passed (u : UInt16) : List UInt8 := if u ≤ 0x7f then [low u] else [low u, high u]

theorem decodeLoop_encodeUnit {u : UInt16} (h : u ≠ 0) (cs : List UInt8) :
    decodeLoop (encodeUnit u ++ cs) = (decodeLoop cs).map fun r => (passed u ++ r.1, r.2 + 2) := by
  unfold encodeUnit passed
  by_cases h₁ : u ≤ 0x7f
  · have hz : u.toUInt8 ≠ 0 := fun hl => ne_zero_iff.mp h ⟨hl, high_of_le h₁⟩
    have hle : u.toUInt8 ≤ 0x7f := by
      rw [UInt8.le_iff_toNat_le, UInt16.toNat_toUInt8]
      exact Nat.le_trans (Nat.mod_le _ _) (UInt16.le_iff_toNat_le.mp h₁)
    rw [if_pos h₁, if_pos h₁, List.singleton_append, decodeLoop.eq_def]
    simp only [if_neg hz, if_pos hle]
    rfl
  · rw [if_neg h₁, if_neg h₁]
    by_cases h₂ : u ≤ 0x7ff
    · obtain ⟨hz, ha⟩ := lead_two (isLead_two h₂)
      rw [if_pos h₂, List.cons_append, List.singleton_append, decodeLoop.eq_def]
      simp only [if_neg hz, if_neg ha, if_pos (isLead_two h₂), twoBytes_encode h₂]
    · obtain ⟨hz, ha, hb⟩ := lead_three (isLead_three u)
      rw [if_neg h₂, List.cons_append, List.cons_append, List.singleton_append, decodeLoop.eq_def]
      simp only [if_neg hz, if_neg ha, if_neg hb, if_pos (isLead_three u), threeBytes_encode]

theorem decodeLoop_encode (t : List UInt8) : ∀ {us : List UInt16}, 0 ∉ us →
    decodeLoop (us.flatMap encodeUnit ++ 0 :: t) = some (us.flatMap passed, 2 * us.length)
  | [], _ => by
    unfold decodeLoop
    rfl
  | u :: us, h => by
    rw [List.mem_cons, not_or] at h
    rw [List.flatMap_cons, List.append_assoc, decodeLoop_encodeUnit (Ne.symm h.1), decodeLoop_encode t h.2]
    rfl

/-! ## The units that come back -/

@[simp] theorem units_zeros (k : ℕ) : units (List.replicate k 0) = [] := by
  match k with
  | 0 => rfl
  | 1 => rfl
  | k + 2 => rfl

theorem units_cons {lo hi : UInt8} (h : ¬ (lo = 0 ∧ hi = 0)) (t : List UInt8) :
    units (lo :: hi :: t) = unit lo hi :: units t := by
  rw [units, if_neg h]

/-- A character of one byte that is not the last pushes what follows out of place. -/
theorem units_shifted {u v : UInt16} (hu : u ≤ 0x7f) (hu₀ : u ≠ 0) (hv₀ : v ≠ 0) (vs : List UInt16) (t : List UInt8) :
    units (low u :: (passed v ++ t)) ≠ u :: v :: vs := by
  have hlow : low u ≠ 0 := fun hl => ne_zero_iff.mp hu₀ ⟨hl, high_of_le hu⟩
  intro h
  unfold passed at h
  by_cases hv : v ≤ 0x7f
  · rw [if_pos hv, List.singleton_append, units_cons (fun hz => hlow hz.1), List.cons.injEq] at h
    have hh := congrArg high h.1
    rw [high_unit, high_of_le hu] at hh
    exact ne_zero_iff.mp hv₀ ⟨hh, high_of_le hv⟩
  · rw [if_neg hv, List.cons_append, List.singleton_append, units_cons (fun hz => hlow hz.1), List.cons.injEq] at h
    have hh := congrArg high h.1
    rw [high_unit, high_of_le hu] at hh
    have hhigh : high v ≠ 0 := fun hz => ne_zero_iff.mp hv₀ ⟨hh, hz⟩
    cases t with
    | nil => cases h.2
    | cons c t =>
      rw [units_cons (fun hz => hhigh hz.1), List.cons.injEq] at h
      have hl := congrArg low h.2.1
      rw [low_unit, hh] at hl
      exact hhigh hl

theorem units_passed (k : ℕ) : ∀ {us : List UInt16}, 0 ∉ us →
    (units (us.flatMap passed ++ List.replicate (k + 1) 0) = us ↔ ∀ u ∈ us.dropLast, 0x7f < u)
  | [], _ => by simp
  | u :: us, h => by
    rw [List.mem_cons, not_or] at h
    have hu₀ := Ne.symm h.1
    have ih := units_passed k h.2
    rw [List.flatMap_cons, List.append_assoc]
    by_cases hu : u ≤ 0x7f
    · rw [passed, if_pos hu, List.singleton_append]
      cases us with
      | nil =>
        have hlow : low u ≠ 0 := fun hl => ne_zero_iff.mp hu₀ ⟨hl, high_of_le hu⟩
        rw [List.flatMap_nil, List.nil_append, List.replicate_succ, units_cons (fun hz => hlow hz.1), units_zeros,
          ← high_of_le hu, unit_low_high]
        simp
      | cons v vs =>
        rw [List.mem_cons, not_or] at h
        rw [List.flatMap_cons, List.append_assoc]
        refine iff_of_false (units_shifted hu hu₀ (Ne.symm h.2.1) vs _) fun hall => ?_
        exact UInt16.not_lt.mpr hu (hall u (by simp))
    · rw [passed, if_neg hu, List.cons_append, List.singleton_append, units_cons (ne_zero_iff.mp hu₀), unit_low_high,
        List.cons.injEq, and_iff_right rfl, ih]
      cases us with
      | nil => simp
      | cons v vs => simp [UInt16.not_le.mp hu]

theorem length_passed_le (us : List UInt16) : (us.flatMap passed).length ≤ (us.flatMap encodeUnit).length := by
  induction us with
  | nil => exact Nat.le_refl _
  | cons u us ih =>
    simp only [List.flatMap_cons, List.length_append]
    apply Nat.add_le_add _ ih
    unfold passed encodeUnit
    by_cases h₁ : u ≤ 0x7f
    · simp [h₁]
    · by_cases h₂ : u ≤ 0x7ff <;> simp [h₁, h₂]

theorem not_mem_encode {us : List UInt16} (h : 0 ∉ us) : 0 ∉ us.flatMap encodeUnit := by
  simp only [List.mem_flatMap, not_exists, not_and]
  intro u hu hm
  have hu₀ : u ≠ 0 := fun he => h (he ▸ hu)
  unfold encodeUnit at hm
  by_cases h₁ : u ≤ 0x7f
  · rw [if_pos h₁, List.mem_singleton] at hm
    exact ne_zero_iff.mp hu₀ ⟨hm.symm, high_of_le h₁⟩
  · rw [if_neg h₁] at hm
    -- the top bit of each byte is set
    have htop {b : UInt8} (hb : b.toBitVec.getLsbD 7 = true) : (0 : UInt8) ≠ b := fun he => by
      rw [← he] at hb
      cases hb
    by_cases h₂ : u ≤ 0x7ff
    · rw [if_pos h₂] at hm
      simp only [List.mem_cons, List.not_mem_nil, or_false] at hm
      rcases hm with hm | hm
      · exact htop (by simp) hm
      · exact htop (by simp) hm
    · rw [if_neg h₂] at hm
      simp only [List.mem_cons, List.not_mem_nil, or_false] at hm
      rcases hm with hm | hm | hm
      · exact htop (by simp) hm
      · exact htop (by simp) hm
      · exact htop (by simp) hm

/-- **UTF-8.** A sequence comes back exactly when the size of its text is an `int` and none of its units but the last is
written in one byte. -/
theorem round_trip_iff {us : List UInt16} (h : 0 ∉ us) :
    RoundTrip us ↔ 3 * (us.length + 1) + 1 < 2 ^ 31 ∧ ∀ u ∈ us.dropLast, 0x7f < u := by
  have htext : (us ++ [0]).flatMap encodeUnit ++ [0] = us.flatMap encodeUnit ++ 0 :: [0] := by
    simp [encodeUnit]
  have hlen := length_passed_le us
  have hout : utf8_to_unicode (us.flatMap encodeUnit ++ 0 :: [0]) =
      some (us.flatMap passed ++ List.replicate
        (2 * (us.flatMap encodeUnit).length + 1 - (us.flatMap passed).length + 1) 0, 2 * (us.length + 1)) := by
    rw [utf8_to_unicode, decodeLoop_encode _ h, cstr_append_zero (not_mem_encode h), Option.map_some]
    dsimp only
    congr 4
    omega
  unfold RoundTrip unicode_to_utf8
  rw [List.length_append, List.length_singleton, htext]
  constructor
  · rintro ⟨text, henc, out, size, hdec, hu, -⟩
    by_cases hfit : 3 * (us.length + 1) + 1 < 2 ^ 31
    · rw [if_pos hfit, Option.some.injEq] at henc
      rw [← henc, hout, Option.some.injEq, Prod.mk.injEq] at hdec
      rw [← hdec.1] at hu
      exact ⟨hfit, (units_passed _ h).mp hu⟩
    · rw [if_neg hfit] at henc
      cases henc
  · intro hall
    exact ⟨_, if_pos hall.1, _, _, hout, (units_passed _ h).mpr hall.2, rfl⟩

/-- A three-byte character, a two-byte character and a one-byte character. -/
theorem round_trip_mixed : RoundTrip [0x4e2d, 0xe9, 0x61] :=
  (round_trip_iff (by decide)).mpr ⟨by decide, by simp⟩

theorem round_trip_lost : ¬ RoundTrip [0x61, 0x62] := by
  rintro ⟨text, henc, out, size, hdec, hu, -⟩
  cases henc
  cases hdec
  exact absurd hu (by decide)

end Utf8

end SabApp
