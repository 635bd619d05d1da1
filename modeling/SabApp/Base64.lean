import SabApp.CloudAnswers

/-!
# Base64 (tool_base64.c)

What `base64_encode` writes `base64_decode` reads back, with a byte more for the terminator. How much the decoder
writes depends on the text alone: it goes on in groups of four until one starts with the terminator or shows a `=` at
its end.
-/

namespace SabApp

namespace CloudHttp

open CText

/-- A character of `base64char`. -/
def base64char (k : UInt8) : UInt8 :=
  (ascii "ABCDEFGHIJKLMNOPQRSTUVWXYZabcdefghijklmnopqrstuvwxyz0123456789+/").getD k.toNat 0

section Sextets

variable (a b c : UInt8)

def sextet₀ : UInt8 := UInt8.land (a >>> 2) 0x3F

def sextet₁ : UInt8 := UInt8.lor (UInt8.land (a <<< 4) 0x30) (UInt8.land (b >>> 4) 0x0F)

def sextet₂ : UInt8 := UInt8.lor (UInt8.land (b <<< 2) 0x3C) (UInt8.land (c >>> 6) 0x03)

def sextet₃ : UInt8 := UInt8.land c 0x3F

end Sextets

/-- `base64_encode`, before the terminator. -/
def base64_encode : List UInt8 → List UInt8
  | [] => []
  | [a] => [base64char (sextet₀ a), base64char (UInt8.land (a <<< 4) 0x30), 61, 61]
  | [a, b] => [base64char (sextet₀ a), base64char (sextet₁ a b), base64char (UInt8.land (b <<< 2) 0x3C), 61]
  | a :: b :: c :: bs =>
    base64char (sextet₀ a) :: base64char (sextet₁ a b) :: base64char (sextet₂ b c) :: base64char (sextet₃ c) ::
      base64_encode bs

/-! ## Six bits and eight -/

theorem byte_ext {a b : UInt8} (h : ∀ i (hi : i < 8), a.toBitVec[i] = b.toBitVec[i]) : a = b := by
  apply UInt8.eq_of_toBitVec_eq
  ext i hi
  exact h i hi

theorem bit_cases {P : ∀ i, i < 8 → Prop} (h₀ : P 0 (by decide)) (h₁ : P 1 (by decide)) (h₂ : P 2 (by decide))
    (h₃ : P 3 (by decide)) (h₄ : P 4 (by decide)) (h₅ : P 5 (by decide)) (h₆ : P 6 (by decide))
    (h₇ : P 7 (by decide)) : ∀ i (hi : i < 8), P i hi
  | 0, _ => h₀
  | 1, _ => h₁
  | 2, _ => h₂
  | 3, _ => h₃
  | 4, _ => h₄
  | 5, _ => h₅
  | 6, _ => h₆
  | 7, _ => h₇

section Bytes

variable (a b c : UInt8)

theorem first_byte :
    UInt8.lor (UInt8.land (sextet₀ a <<< 2) 0xFC) (UInt8.land (sextet₁ a b >>> 4) 0x03) = a := by
  apply byte_ext
  apply bit_cases
  all_goals simp [sextet₀, sextet₁, UInt8.lor, UInt8.land]

theorem second_byte :
    UInt8.lor (UInt8.land (sextet₁ a b <<< 4) 0xF0) (UInt8.land (sextet₂ b c >>> 2) 0x0F) = b := by
  apply byte_ext
  apply bit_cases
  all_goals simp [sextet₁, sextet₂, UInt8.lor, UInt8.land]

theorem third_byte : UInt8.lor (UInt8.land (sextet₂ b c <<< 6) 0xF0) (UInt8.land (sextet₃ c) 0x3F) = c := by
  apply byte_ext
  apply bit_cases
  all_goals simp [sextet₂, sextet₃, UInt8.lor, UInt8.land]

theorem sextet₁_zero : UInt8.land (a <<< 4) 0x30 = sextet₁ a 0 := by
  apply byte_ext
  apply bit_cases
  all_goals simp [sextet₁, UInt8.lor, UInt8.land]

theorem sextet₂_zero : UInt8.land (b <<< 2) 0x3C = sextet₂ b 0 := by
  apply byte_ext
  apply bit_cases
  all_goals simp [sextet₂, UInt8.lor, UInt8.land]

end Bytes

/-- The last two bits of a byte are clear in a sextet. -/
def Sextet (k : UInt8) : Prop := k.toNat < 64

theorem sextet_of_mask {k m : UInt8} (hm : m.toNat < 64) : Sextet (UInt8.land k m) := by
  have h : (UInt8.land k m).toNat = k.toNat &&& m.toNat := rfl
  rw [Sextet, h]
  exact Nat.lt_of_le_of_lt Nat.and_le_right hm

theorem Sextet.lor {k m : UInt8} (hk : Sextet k) (hm : Sextet m) : Sextet (UInt8.lor k m) := by
  have h : (UInt8.lor k m).toNat = k.toNat ||| m.toNat := rfl
  rw [Sextet, h]
  exact Nat.or_lt_two_pow (n := 6) hk hm

/-- A character of a sextet has the sextet's value, and ends no text. -/
theorem base64char_spec {k : UInt8} (hk : Sextet k) : base64Val (base64char k) = k ∧ base64char k ≠ 0 ∧
    base64char k ≠ 61 ∧ base64char k ≠ 34 ∧ base64char k ≠ 125 := by
  have hall : ∀ n, n < 64 → base64Val (base64char (UInt8.ofNat n)) = UInt8.ofNat n ∧ base64char (UInt8.ofNat n) ≠ 0 ∧
      base64char (UInt8.ofNat n) ≠ 61 ∧ base64char (UInt8.ofNat n) ≠ 34 ∧ base64char (UInt8.ofNat n) ≠ 125 := by
    decide +kernel
  have h := hall k.toNat hk
  rwa [UInt8.ofNat_toNat] at h

section

variable (a b c : UInt8)

theorem sextet₀_ok : Sextet (sextet₀ a) := sextet_of_mask (by decide)

theorem sextet₁_ok : Sextet (sextet₁ a b) := (sextet_of_mask (by decide)).lor (sextet_of_mask (by decide))

theorem sextet₂_ok : Sextet (sextet₂ b c) := (sextet_of_mask (by decide)).lor (sextet_of_mask (by decide))

theorem sextet₃_ok : Sextet (sextet₃ c) := sextet_of_mask (by decide)

end

/-- **Base64.** The decoder gives back the bytes, and writes a terminator behind them. -/
theorem base64_decode_encode (t : List UInt8) : ∀ bs : List UInt8,
    base64_decode (base64_encode bs ++ 0 :: t) = some (bs ++ [0])
  | [] => by
    match t with
    | [] => rfl
    | [_] => rfl
    | [_, _] => rfl
    | _ :: _ :: _ :: _ => rfl
  | [a] => by
    obtain ⟨hv₀, h₀, -⟩ := base64char_spec (sextet₀_ok a)
    obtain ⟨hv₁, -⟩ := base64char_spec (sextet₁_ok a 0)
    simp only [base64_encode, sextet₁_zero, List.cons_append, base64_decode]
    rw [if_neg h₀, if_pos trivial, hv₀, hv₁, first_byte]
    rfl
  | [a, b] => by
    obtain ⟨hv₀, h₀, -⟩ := base64char_spec (sextet₀_ok a)
    obtain ⟨hv₁, -⟩ := base64char_spec (sextet₁_ok a b)
    obtain ⟨hv₂, -, h₂, -⟩ := base64char_spec (sextet₂_ok b 0)
    simp only [base64_encode, sextet₂_zero, List.cons_append, base64_decode]
    rw [if_neg h₀, if_neg h₂, if_pos trivial, hv₀, hv₁, hv₂, first_byte, second_byte]
    rfl
  | a :: b :: c :: bs => by
    obtain ⟨hv₀, h₀, -⟩ := base64char_spec (sextet₀_ok a)
    obtain ⟨hv₁, -⟩ := base64char_spec (sextet₁_ok a b)
    obtain ⟨hv₂, -, h₂, -⟩ := base64char_spec (sextet₂_ok b c)
    obtain ⟨hv₃, -, h₃, -⟩ := base64char_spec (sextet₃_ok c)
    simp only [base64_encode, List.cons_append, base64_decode]
    rw [if_neg h₀, if_neg h₂, if_neg h₃, hv₀, hv₁, hv₂, hv₃, first_byte, second_byte, third_byte,
      base64_decode_encode t bs]
    rfl

theorem length_base64_encode : ∀ bs : List UInt8, (base64_encode bs).length = 4 * ((bs.length + 2) / 3)
  | [] => rfl
  | [_] => by simp [base64_encode]
  | [_, _] => by simp [base64_encode]
  | a :: b :: c :: bs => by
    simp only [base64_encode, List.length_cons, length_base64_encode bs]
    omega

theorem not_mem_base64_encode {x : UInt8} (hx : x = 0 ∨ x = 34 ∨ x = 125) : ∀ bs : List UInt8, x ∉ base64_encode bs := by
  have hne {k : UInt8} (hk : Sextet k) : x ≠ base64char k := by
    obtain ⟨-, h₀, -, h₁, h₂⟩ := base64char_spec hk
    rcases hx with rfl | rfl | rfl
    · exact h₀.symm
    · exact h₁.symm
    · exact h₂.symm
  have hpad : x ≠ 61 := by
    rcases hx with rfl | rfl | rfl <;> decide
  intro bs
  induction bs using base64_encode.induct with
  | case1 => exact List.not_mem_nil
  | case2 a =>
    simp only [base64_encode, sextet₁_zero, List.mem_cons, List.not_mem_nil, hne (sextet₀_ok a), hne (sextet₁_ok a 0), hpad,
      or_self, not_false_eq_true]
  | case3 a b =>
    simp only [base64_encode, sextet₂_zero, List.mem_cons, List.not_mem_nil, hne (sextet₀_ok a), hne (sextet₁_ok a b),
      hne (sextet₂_ok b 0), hpad, or_self, not_false_eq_true]
  | case4 a b c bs ih =>
    simp only [base64_encode, List.mem_cons, hne (sextet₀_ok a), hne (sextet₁_ok a b), hne (sextet₂_ok b c),
      hne (sextet₃_ok c), ih, or_self, not_false_eq_true]

/-! ## How much is written -/

/-- The decoder goes past the group of four at this place. -/
def PassesGroup (mem : List UInt8) (h : ℕ) : Prop :=
  mem[4 * h]? ≠ some 0 ∧ mem[4 * h + 2]? ≠ some 61 ∧ mem[4 * h + 3]? ≠ some 61

/-- It stops in this group, and `size` bytes suffice. -/
def StopsIn (size : ℕ) (mem : List UInt8) (g : ℕ) : Prop :=
  mem[4 * g]? = some 0 ∧ 3 * g + 1 ≤ size ∨ mem[4 * g + 2]? = some 61 ∧ 3 * g + 2 ≤ size ∨
    mem[4 * g + 3]? = some 61 ∧ 3 * g + 3 ≤ size

/-- A text that ends in a group for which `size` bytes suffice: it starts with the terminator, or its third or fourth
character is a `=`. -/
def EndsWithin (size : ℕ) (mem : List UInt8) : Prop := ∃ g, (∀ h < g, PassesGroup mem h) ∧ StopsIn size mem g

instance (mem : List UInt8) (h : ℕ) : Decidable (PassesGroup mem h) := inferInstanceAs (Decidable (_ ∧ _))

instance (size : ℕ) (mem : List UInt8) (g : ℕ) : Decidable (StopsIn size mem g) :=
  inferInstanceAs (Decidable (_ ∨ _ ∨ _))

instance (size : ℕ) (mem : List UInt8) : Decidable (EndsWithin size mem) :=
  decidable_of_iff (∃ g < size, (∀ h < g, PassesGroup mem h) ∧ StopsIn size mem g) <| by
    refine ⟨fun ⟨g, _, h⟩ => ⟨g, h⟩, fun ⟨g, hp, hs⟩ => ⟨g, ?_, hp, hs⟩⟩
    unfold StopsIn at hs
    omega

theorem passesGroup_succ {c₀ c₁ c₂ c₃ : UInt8} {cs : List UInt8} {h : ℕ} :
    PassesGroup (c₀ :: c₁ :: c₂ :: c₃ :: cs) (h + 1) ↔ PassesGroup cs h := by
  simp [PassesGroup, Nat.mul_add, Nat.add_right_comm _ 4]

theorem stopsIn_succ {size : ℕ} {c₀ c₁ c₂ c₃ : UInt8} {cs : List UInt8} {g : ℕ} :
    StopsIn size (c₀ :: c₁ :: c₂ :: c₃ :: cs) (g + 1) ↔ StopsIn (size - 3) cs g := by
  have h₁ : 3 * (g + 1) + 1 ≤ size ↔ 3 * g + 1 ≤ size - 3 := by omega
  have h₂ : 3 * (g + 1) + 2 ≤ size ↔ 3 * g + 2 ≤ size - 3 := by omega
  have h₃ : 3 * (g + 1) + 3 ≤ size ↔ 3 * g + 3 ≤ size - 3 := by omega
  rw [StopsIn, StopsIn, h₁, h₂, h₃]
  simp [Nat.mul_add, Nat.add_right_comm _ 4]

theorem endsWithin_cons {size : ℕ} {c₀ c₁ c₂ c₃ : UInt8} {cs : List UInt8} :
    EndsWithin size (c₀ :: c₁ :: c₂ :: c₃ :: cs) ↔ (c₀ = 0 ∧ 1 ≤ size ∨ c₂ = 61 ∧ 2 ≤ size ∨ c₃ = 61 ∧ 3 ≤ size) ∨
      (c₀ ≠ 0 ∧ c₂ ≠ 61 ∧ c₃ ≠ 61) ∧ EndsWithin (size - 3) cs := by
  have h₀ : StopsIn size (c₀ :: c₁ :: c₂ :: c₃ :: cs) 0 ↔ c₀ = 0 ∧ 1 ≤ size ∨ c₂ = 61 ∧ 2 ≤ size ∨ c₃ = 61 ∧ 3 ≤ size := by
    simp [StopsIn]
  have hp : PassesGroup (c₀ :: c₁ :: c₂ :: c₃ :: cs) 0 ↔ c₀ ≠ 0 ∧ c₂ ≠ 61 ∧ c₃ ≠ 61 := by simp [PassesGroup]
  rw [← h₀, ← hp]
  constructor
  · rintro ⟨g, hpass, hs⟩
    cases g with
    | zero => exact .inl hs
    | succ g =>
      refine .inr ⟨hpass 0 (Nat.succ_pos g), g, fun h hh => ?_, stopsIn_succ.mp hs⟩
      exact passesGroup_succ.mp (hpass (h + 1) (Nat.succ_lt_succ hh))
  · rintro (hs | ⟨hpass, g, hg, hs⟩)
    · exact ⟨0, nofun, hs⟩
    · refine ⟨g + 1, fun h hh => ?_, stopsIn_succ.mpr hs⟩
      cases h with
      | zero => exact hpass
      | succ h => exact passesGroup_succ.mpr (hg h (Nat.lt_of_succ_lt_succ hh))

theorem length_decode_pos : ∀ {mem bs : List UInt8}, base64_decode mem = some bs → 0 < bs.length
  | c₀ :: c₁ :: c₂ :: c₃ :: cs, bs, h => by
    simp only [base64_decode] at h
    split at h
    · cases h
      exact Nat.succ_pos _
    split at h
    · cases h
      exact Nat.succ_pos _
    split at h
    · cases h
      exact Nat.succ_pos _
    obtain ⟨_, -, rfl⟩ := Option.map_eq_some_iff.mp h
    exact Nat.succ_pos _
  | [], _, h => by cases h
  | [c], _, h | [c, _], _, h | [c, _, _], _, h => by
    simp only [base64_decode] at h
    split at h
    · cases h
      exact Nat.succ_pos _
    · cases h

/-- **Bytes written.** In a text whose memory is a whole number of groups the decoder stays within `size` bytes exactly
when the text ends within them. -/
theorem decode_within_iff : ∀ (mem : List UInt8) (size : ℕ), mem.length % 4 = 0 →
    ((∃ bs, base64_decode mem = some bs ∧ bs.length ≤ size) ↔ EndsWithin size mem)
  | [], size, _ => by simp [base64_decode, EndsWithin, StopsIn]
  | [_], _, h => by simp at h
  | [_, _], _, h => by simp at h
  | [_, _, _], _, h => by simp at h
  | c₀ :: c₁ :: c₂ :: c₃ :: cs, size, hlen => by
    have ih := decode_within_iff cs (size - 3) (by simp only [List.length_cons] at hlen; omega)
    rw [endsWithin_cons, ← ih]
    simp only [base64_decode]
    by_cases h₀ : c₀ = 0
    · simp [h₀]
      omega
    by_cases h₂ : c₂ = 61
    · simp [h₀, h₂]
      omega
    by_cases h₃ : c₃ = 61
    · simp [h₀, h₂, h₃]
    simp only [h₀, h₂, h₃, if_false, false_and, false_or, ne_eq, not_false_eq_true, true_and, Option.map_eq_some_iff]
    constructor
    · rintro ⟨_, ⟨bs, hbs, rfl⟩, hle⟩
      refine ⟨bs, hbs, ?_⟩
      simp only [List.length_cons] at hle
      omega
    · rintro ⟨bs, hbs, hle⟩
      have hpos := length_decode_pos hbs
      refine ⟨_, ⟨bs, hbs, rfl⟩, ?_⟩
      simp only [List.length_cons]
      omega

end CloudHttp

end SabApp
