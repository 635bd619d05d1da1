import SabApp.UvcBuffers

/-!
# The two laws (G711.c)

A sample is coded by the interval that its magnitude lies in: sixteen intervals to a segment, and each
segment twice as wide as the one before. The decoders give the middle of the interval. So what comes
back is within half an interval of the sample, and a code that is decoded and coded again is itself;
the µ-law has two codes of zero, of which it gives one.
-/

namespace SabApp

namespace G711

open Uvc (ALawDecode ALawDecode_len)

/-! ## Segments -/

/-- One comparison of the encoders: what is left of the magnitude, and the bits of the segment. -/
def cut (limit shift add : ℕ) (r : ℕ × ℕ) : ℕ × ℕ := if r.1 ≥ limit then (r.1 / shift, r.2 + add) else r

/-- The three comparisons that both encoders make. -/
def cuts (p : ℕ) : ℕ × ℕ := cut 0x20 2 0x10 (cut 0x40 4 0x20 (cut 0x100 16 0x40 (p, 0)))

theorem cut_ge {limit shift add p a : ℕ} (h : limit ≤ p) : cut limit shift add (p, a) = (p / shift, a + add) := if_pos h

theorem cut_lt {limit shift add p a : ℕ} (h : p < limit) : cut limit shift add (p, a) = (p, a) := if_neg (by omega)

theorem cuts_eq {q : ℕ} (hlow : 16 ≤ q) (hhigh : q < 4096) :
    ∃ s ≤ 7, 16 * 2 ^ s ≤ q ∧ q < 32 * 2 ^ s ∧ cuts q = (q / 2 ^ s, 16 * s) := by
  unfold cuts
  by_cases h₁ : 0x100 ≤ q
  · rw [cut_ge h₁]
    by_cases h₂ : 0x40 ≤ q / 16
    · rw [cut_ge h₂, Nat.div_div_eq_div_mul]
      by_cases h₃ : 0x20 ≤ q / (16 * 4)
      · rw [cut_ge h₃, Nat.div_div_eq_div_mul]
        exact ⟨7, by decide, by omega, by omega, rfl⟩
      · rw [cut_lt (Nat.not_le.mp h₃)]
        exact ⟨6, by decide, by omega, by omega, rfl⟩
    · rw [cut_lt (Nat.not_le.mp h₂)]
      by_cases h₃ : 0x20 ≤ q / 16
      · rw [cut_ge h₃, Nat.div_div_eq_div_mul]
        exact ⟨5, by decide, by omega, by omega, rfl⟩
      · rw [cut_lt (Nat.not_le.mp h₃)]
        exact ⟨4, by decide, by omega, by omega, rfl⟩
  · rw [cut_lt (Nat.not_le.mp h₁)]
    by_cases h₂ : 0x40 ≤ q
    · rw [cut_ge h₂]
      by_cases h₃ : 0x20 ≤ q / 4
      · rw [cut_ge h₃, Nat.div_div_eq_div_mul]
        exact ⟨3, by decide, by omega, by omega, rfl⟩
      · rw [cut_lt (Nat.not_le.mp h₃)]
        exact ⟨2, by decide, by omega, by omega, rfl⟩
    · rw [cut_lt (Nat.not_le.mp h₂)]
      by_cases h₃ : 0x20 ≤ q
      · rw [cut_ge h₃]
        exact ⟨1, by decide, by omega, by omega, rfl⟩
      · rw [cut_lt (Nat.not_le.mp h₃)]
        exact ⟨0, by decide, by omega, by omega, by rw [Nat.pow_zero, Nat.div_one]⟩

/-- The ones complement of what is below zero. -/
def magnitude (pcm16 : Int16) : ℕ := if pcm16.toInt < 0 then (-pcm16.toInt - 1).toNat else pcm16.toInt.toNat

theorem magnitude_lt (pcm16 : Int16) : magnitude pcm16 < 32768 := by
  have hlow := Int16.le_toInt pcm16
  have hhigh := Int16.toInt_lt pcm16
  unfold magnitude
  split <;> omega

/-- A magnitude within its interval, the one numbered `k` of the segment `s`: the middle is `v`. -/
structure Cell (b s k v : ℕ) : Prop where
  segment : s ≤ 7
  interval : k < 16
  from_low : (16 + k) * (8 * 2 ^ s) ≤ b
  to_high : b < (16 + k) * (8 * 2 ^ s) + 8 * 2 ^ s
  middle : v = (16 + k) * (8 * 2 ^ s) + 4 * 2 ^ s

/-- Half an interval is a thirty-second of what lies in it at most. -/
theorem Cell.near {b s k v : ℕ} (h : Cell b s k v) : v ≤ b + b / 32 ∧ b + 1 ≤ v + b / 32 := by
  obtain ⟨-, hk, hlow, hhigh, rfl⟩ := h
  have hmul : 16 * (8 * 2 ^ s) ≤ (16 + k) * (8 * 2 ^ s) := Nat.mul_le_mul_right _ (by omega)
  omega

/-- What the comparisons make of a magnitude, of which the low bits are gone. -/
theorem cuts_cell {b d t : ℕ} (hd : d = 8 * 2 ^ t) (hlow : 16 * d ≤ b) (hhigh : b < 32768) :
    ∃ s k v, Cell b (s + t) k v ∧ cuts (b / d) = (16 + k, 16 * s) := by
  have hpos : 0 < d := by
    rw [hd]
    exact Nat.mul_pos (by decide) (Nat.two_pow_pos t)
  have hd8 : 8 ≤ d := by
    have := Nat.two_pow_pos t
    omega
  obtain ⟨s, hs, hl, hh, he⟩ := cuts_eq (q := b / d) ((Nat.le_div_iff_mul_le hpos).mpr hlow)
    (Nat.div_lt_of_lt_mul (by omega))
  have hunit : d * 2 ^ s = 8 * 2 ^ (s + t) := by rw [hd, Nat.pow_add, Nat.mul_assoc, Nat.mul_comm (2 ^ t)]
  have hupos : 0 < 8 * 2 ^ (s + t) := Nat.mul_pos (by decide) (Nat.two_pow_pos _)
  rw [Nat.div_div_eq_div_mul, hunit] at he
  have hge : 16 ≤ b / d / 2 ^ s := (Nat.le_div_iff_mul_le (Nat.two_pow_pos s)).mpr hl
  have hlt : b / d / 2 ^ s < 32 := Nat.div_lt_of_lt_mul (by omega)
  rw [Nat.div_div_eq_div_mul, hunit] at hge hlt
  have hsum : 16 + (b / (8 * 2 ^ (s + t)) - 16) = b / (8 * 2 ^ (s + t)) := by omega
  refine ⟨s, b / (8 * 2 ^ (s + t)) - 16, _, ⟨?_, by omega, ?_, ?_, rfl⟩, by rw [he, hsum]⟩
  · have hle := Nat.div_mul_le_self b (8 * 2 ^ (s + t))
    have hmul : 16 * (8 * 2 ^ (s + t)) ≤ b / (8 * 2 ^ (s + t)) * (8 * 2 ^ (s + t)) := Nat.mul_le_mul_right _ hge
    have hpow : 2 ^ (s + t) < 2 ^ 8 := by
      have h256 : (2 : ℕ) ^ 8 = 256 := rfl
      omega
    exact Nat.le_of_lt_succ ((Nat.pow_lt_pow_iff_right (by decide)).mp hpow)
  · rw [hsum]
    exact Nat.div_mul_le_self b _
  · rw [hsum]
    exact Nat.lt_div_mul_add hupos

/-! ## A-law -/

/-- The code of a magnitude, without its sign. -/
def aLawCode (p : ℕ) : ℕ :=
  let p := p / 16
  if p ≥ 0x20 then (cuts p).2 + (cuts p).1 else p

/-- `ALawEncode`. -/
def ALawEncode (pcm16 : Int16) : UInt8 :=
  .ofNat ((if pcm16.toInt < 0 then 0 else 0x80) + aLawCode (magnitude pcm16)) ^^^ 0x55

/-- What is stored of a decoder's `int`. -/
def stored (x : UInt16) : ℤ := x.toInt16.toInt

theorem ALawDecode_cell : ∀ s < 8, ∀ k < 16, 1 ≤ s →
    stored (ALawDecode (.ofNat (0x80 + (16 * s + k)) ^^^ 0x55)) = ((16 + k) * (8 * 2 ^ s) + 4 * 2 ^ s : ℕ) ∧
      stored (ALawDecode (.ofNat (0 + (16 * s + k)) ^^^ 0x55)) = -((16 + k) * (8 * 2 ^ s) + 4 * 2 ^ s : ℕ) := by
  decide +kernel

theorem ALawDecode_flat : ∀ c < 32, stored (ALawDecode (.ofNat (0x80 + c) ^^^ 0x55)) = (16 * c + 8 : ℕ) ∧
    stored (ALawDecode (.ofNat (0 + c) ^^^ 0x55)) = -(16 * c + 8 : ℕ) := by
  decide +kernel

/-- The middle of a magnitude's interval is what its code stands for. -/
theorem aLawCode_middle {p : ℕ} (h : p < 32768) :
    ∃ v, v ≤ p + max 8 (p / 32) ∧ p + 1 ≤ v + max 8 (p / 32) ∧
      stored (ALawDecode (.ofNat (0x80 + aLawCode p) ^^^ 0x55)) = (v : ℤ) ∧
      stored (ALawDecode (.ofNat (0 + aLawCode p) ^^^ 0x55)) = -(v : ℤ) := by
  unfold aLawCode
  by_cases hflat : 0x20 ≤ p / 16
  · obtain ⟨s, k, v, hcell, he⟩ := cuts_cell (b := p) (d := 16) (t := 1) rfl (by omega) h
    obtain ⟨hpos, hneg⟩ := ALawDecode_cell (s + 1) (Nat.lt_succ_of_le hcell.segment) k hcell.interval (by omega)
    have hcode : 16 * s + (16 + k) = 16 * (s + 1) + k := by omega
    have hnear := hcell.near
    dsimp only
    rw [if_pos hflat, he]
    dsimp only
    rw [hcode]
    exact ⟨v, by omega, by omega, by rw [hpos, hcell.middle], by rw [hneg, hcell.middle]⟩
  · obtain ⟨hpos, hneg⟩ := ALawDecode_flat (p / 16) (by omega)
    dsimp only
    rw [if_neg hflat]
    exact ⟨16 * (p / 16) + 8, by omega, by omega, hpos, hneg⟩

/-- **A-law**: what comes back is within a thirty-second of the sample, or within 8. -/
theorem ALaw_near (pcm16 : Int16) :
    (stored (ALawDecode (ALawEncode pcm16)) - pcm16.toInt).natAbs ≤ max 8 (pcm16.toInt.natAbs / 32) := by
  obtain ⟨v, hhigh, hlow, hpos, hneg⟩ := aLawCode_middle (magnitude_lt pcm16)
  have hmag : magnitude pcm16 = if pcm16.toInt < 0 then (-pcm16.toInt - 1).toNat else pcm16.toInt.toNat := rfl
  unfold ALawEncode
  split at hmag
  · rename_i hsign
    rw [if_pos hsign, hneg]
    omega
  · rename_i hsign
    rw [if_neg hsign, hpos]
    omega

/-- A code that is decoded and coded again is itself. -/
theorem ALawEncode_ALawDecode (alaw : UInt8) : ALawEncode (ALawDecode alaw).toInt16 = alaw := by
  have h : ∀ n < 256, ALawEncode (ALawDecode (.ofNat n)).toInt16 = .ofNat n := by decide +kernel
  have := h alaw.toNat alaw.toNat_lt
  rwa [UInt8.ofNat_toNat] at this

/-! ## µ-law -/

/-- The segment's bits and the interval with its leading one, of a magnitude with its bias. -/
def uLawCuts (p : ℕ) : ℕ × ℕ :=
  let p := p + 0x84
  cuts ((if p > 0x7f00 then 0x7f00 else p) / 8)

/-- `ULawEncode`; the comparisons clear bits that are set. -/
def ULawEncode (pcm16 : Int16) : UInt8 :=
  let u : UInt8 := if pcm16.toInt < 0 then 0x80 ^^^ 0x10 ^^^ 0xff else 0x00 ^^^ 0x10 ^^^ 0xff
  let r := uLawCuts (magnitude pcm16)
  u ^^^ .ofNat r.2 ^^^ .ofNat r.1

/-- `ULawDecode`, as it is stored. -/
def ULawDecode (ulaw : UInt8) : UInt16 :=
  let u := ulaw ^^^ 0xff
  let linear := ((u &&& 0x0f).toUInt16 <<< 3) ||| 0x84
  let shift := (u >>> 4) &&& 7
  let linear := (linear <<< shift.toUInt16) - 0x84
  if u &&& 0x80 ≠ 0 then -linear else linear

theorem ULawDecode_cell : ∀ s < 8, ∀ k < 16,
    stored (ULawDecode (0x00 ^^^ 0x10 ^^^ 0xff ^^^ .ofNat (16 * s) ^^^ .ofNat (16 + k))) =
        ((16 + k) * (8 * 2 ^ s) + 4 * 2 ^ s : ℕ) - 132 ∧
      stored (ULawDecode (0x80 ^^^ 0x10 ^^^ 0xff ^^^ .ofNat (16 * s) ^^^ .ofNat (16 + k))) =
        132 - ((16 + k) * (8 * 2 ^ s) + 4 * 2 ^ s : ℕ) := by
  decide +kernel

/-- The middle of a magnitude's interval, both with the bias; the last one is wider by what is clipped. -/
theorem uLawCuts_middle {p : ℕ} (h : p < 32768) :
    ∃ v, v ≤ p + 132 + (p + 132) / 32 ∧ p + 133 ≤ v + (p + 132) / 32 ∧
      stored (ULawDecode (0x00 ^^^ 0x10 ^^^ 0xff ^^^ .ofNat (uLawCuts p).2 ^^^ .ofNat (uLawCuts p).1)) = (v : ℤ) - 132 ∧
      stored (ULawDecode (0x80 ^^^ 0x10 ^^^ 0xff ^^^ .ofNat (uLawCuts p).2 ^^^ .ofNat (uLawCuts p).1)) =
      132 - (v : ℤ) := by
  unfold uLawCuts
  dsimp only
  by_cases hclip : p + 0x84 > 0x7f00
  · obtain ⟨hpos, hneg⟩ := ULawDecode_cell 7 (by decide) 15 (by decide)
    rw [if_pos hclip]
    exact ⟨32256, by omega, by omega, hpos, hneg⟩
  · obtain ⟨s, k, v, hcell, he⟩ := cuts_cell (b := p + 0x84) (d := 8) (t := 0) rfl (by omega) (by omega)
    obtain ⟨hpos, hneg⟩ := ULawDecode_cell s (Nat.lt_succ_of_le hcell.segment) k hcell.interval
    have hnear := hcell.near
    rw [if_neg hclip, he]
    exact ⟨v, by omega, by omega, by rw [hpos, hcell.middle]; rfl, by rw [hneg, hcell.middle]; rfl⟩

/-- **µ-law**: what comes back is within a thirty-second of the sample and 4. -/
theorem ULaw_near (pcm16 : Int16) :
    (stored (ULawDecode (ULawEncode pcm16)) - pcm16.toInt).natAbs ≤ (pcm16.toInt.natAbs + 132) / 32 := by
  obtain ⟨v, hhigh, hlow, hpos, hneg⟩ := uLawCuts_middle (magnitude_lt pcm16)
  have hmag : magnitude pcm16 = if pcm16.toInt < 0 then (-pcm16.toInt - 1).toNat else pcm16.toInt.toNat := rfl
  unfold ULawEncode
  dsimp only
  split at hmag
  · rename_i hsign
    rw [if_pos hsign, hneg]
    omega
  · rename_i hsign
    rw [if_neg hsign, hpos]
    omega

/-- A code that is decoded and coded again is itself, but for the one of the negative zero. -/
theorem ULawEncode_ULawDecode (ulaw : UInt8) :
    ULawEncode (ULawDecode ulaw).toInt16 = if ulaw = 0x7f then 0xff else ulaw := by
  have h : ∀ n < 256, ULawEncode (ULawDecode (.ofNat n)).toInt16 = if UInt8.ofNat n = 0x7f then 0xff else .ofNat n := by
    decide +kernel
  have := h ulaw.toNat ulaw.toNat_lt
  rwa [UInt8.ofNat_toNat] at this

/-- **Both laws**: what comes back is near to the sample, and a code that is decoded and coded again is itself, but for
the negative zero of the µ-law. -/
theorem laws (pcm16 : Int16) (code : UInt8) :
    (stored (ALawDecode (ALawEncode pcm16)) - pcm16.toInt).natAbs ≤ max 8 (pcm16.toInt.natAbs / 32) ∧
      ALawEncode (ALawDecode code).toInt16 = code ∧
      (stored (ULawDecode (ULawEncode pcm16)) - pcm16.toInt).natAbs ≤ (pcm16.toInt.natAbs + 132) / 32 ∧
      ULawEncode (ULawDecode code).toInt16 = if code = 0x7f then 0xff else code :=
  ⟨ALaw_near pcm16, ALawEncode_ALawDecode code, ULaw_near pcm16, ULawEncode_ULawDecode code⟩

end G711

end SabApp
