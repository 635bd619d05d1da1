import SabApp.XmMedia

/-!
# What the frame check of an XM stream claims

`tool_ptc_xm_checkBuf` compares the bytes held with the size of a head and its length field, added in 32 bits. Where the
sum wraps, a frame of four gigabytes is found in a few bytes.
-/

namespace SabApp

namespace Xm

variable {b : RecvBuf} {k : FrameKind}

/-- The kind that the bytes held begin with. -/
def Front (b : RecvBuf) (k : FrameKind) : Prop := 4 ≤ b.len ∧ FrameKind.ofType (word32 (b.mem.read 32 4) 0) = some k

/-- The size of the frame in front: its head and what its length field says. -/
def frontSize (b : RecvBuf) (k : FrameKind) : ℕ := k.headLen + k.length (b.mem.read 32 k.headLen)

/-- A frame of the kind is reported or skipped: nothing before the rest stays. -/
def Takes (b : RecvBuf) (k : FrameKind) : Prop := Front b k ∧ (checkBuf b).2.len = 0

/-- The frame lies in what is held, and so does the rest, which is all behind it. -/
structure Holds (b : RecvBuf) (k : FrameKind) : Prop where
  frame : frontSize b k ≤ b.len
  leftLen : (checkBuf b).2.leftLen = b.len - frontSize b k
  leftBuf : (checkBuf b).2.leftBuf = 32 + frontSize b k
  inside : (checkBuf b).2.leftBuf + (checkBuf b).2.leftLen ≤ 32 + b.len

def Honest (b : RecvBuf) : Prop := ∀ k, Takes b k → Holds b k

/-- The size of a frame whose head is held is below 2^32, or above it by more than is held. -/
def Unwrapped (b : RecvBuf) : Prop :=
  ∀ k, Front b k → k.headLen ≤ b.len → frontSize b k < 4294967296 ∨ b.len + 4294967296 < frontSize b k

theorem FrameKind.length_lt (k : FrameKind) (head : List UInt8) : k.length head < 4294967296 := by
  have h16 := word16_lt head 6
  cases k with
  | vi | pic => exact word32_lt head 12
  | vp => exact word32_lt head 4
  | a | info => exact Nat.lt_of_lt_of_le h16 (by decide)

theorem FrameKind.headLen_le (k : FrameKind) : k.headLen ≤ 16 := by cases k <;> decide

theorem frontSize_lt (b : RecvBuf) (k : FrameKind) : frontSize b k < 4294967312 := by
  have h₁ := k.length_lt (b.mem.read 32 k.headLen)
  have h₂ := k.headLen_le
  unfold frontSize
  omega

/-- The check of a frame of a known kind. -/
theorem checkBuf_front (h : Front b k) :
    checkBuf b =
      if b.len < k.headLen ∨ b.len < frontSize b k % 4294967296 then (false, b)
      else (k.media, ⟨b.mem, 0, 32 + frontSize b k % 4294967296, b.len - frontSize b k % 4294967296⟩) := by
  rw [checkBuf, if_neg (Nat.not_lt.mpr h.1), h.2]
  simp only [frontSize, Nat.add_comm k.headLen]
  by_cases hk : b.len < k.headLen
  · simp [hk]
  · simp only [hk, if_false, false_or]

theorem takes_iff : Takes b k ↔ Front b k ∧ k.headLen ≤ b.len ∧ frontSize b k % 4294967296 ≤ b.len := by
  refine and_congr_right fun h => ?_
  have h4 := h.1
  rw [checkBuf_front h]
  by_cases hc : b.len < k.headLen ∨ b.len < frontSize b k % 4294967296
  · rw [if_pos hc]
    simp only
    omega
  · rw [if_neg hc]
    exact ⟨fun _ => by omega, fun _ => rfl⟩

theorem holds_of_lt (h : Takes b k) (hlt : frontSize b k < 4294967296) : Holds b k := by
  obtain ⟨hf, hk, hn⟩ := takes_iff.mp h
  have heq := checkBuf_front hf
  rw [Nat.mod_eq_of_lt hlt] at hn heq
  rw [if_neg (by omega)] at heq
  refine ⟨hn, ?_, ?_, ?_⟩
  · rw [heq]
  · rw [heq]
  · rw [heq]
    simp only
    omega

/-- What the check takes is held exactly if the sum of the size does not wrap to a number that is not above what is
held. -/
theorem honest_iff_unwrapped (b : RecvBuf) (hb : b.len < 4294967296) : Honest b ↔ Unwrapped b := by
  constructor
  · intro h k hf hk
    by_contra hn
    rw [not_or, Nat.not_lt, Nat.not_lt] at hn
    have hlt := frontSize_lt b k
    have hmod : frontSize b k % 4294967296 = frontSize b k - 4294967296 := by omega
    have hheld := (h k (takes_iff.mpr ⟨hf, hk, by omega⟩)).frame
    omega
  · intro h k ht
    obtain ⟨hf, hk, hn⟩ := takes_iff.mp ht
    rcases h k hf hk with hlt | hgt
    · exact holds_of_lt ht hlt
    · have hlt := frontSize_lt b k
      omega

/-- The head of an I frame with a length, and nothing else. -/
def loneHead (length : ℕ) : RecvBuf :=
  ⟨Mem.write (fun _ => 0) 32 (le32 FrameKind.vi.type ++ [0, 0, 0, 0, 0, 0, 0, 0] ++ le32 length), 16, 0, 0⟩

theorem loneHead_honest : Honest (loneHead 0) ↔ Unwrapped (loneHead 0) := honest_iff_unwrapped _ (by decide)

/-- 16 bytes are taken for an I frame of 2^32 - 16 bytes behind its head. -/
theorem not_honest : ¬ ∀ b : RecvBuf, b.len < 4294967296 → Honest b := by
  intro h
  have hf : Front (loneHead 0xFFFFFFF0) .vi := ⟨by decide, by decide⟩
  have hsize : frontSize (loneHead 0xFFFFFFF0) .vi = 4294967296 := by decide
  have hheld := (h (loneHead 0xFFFFFFF0) (by decide) .vi (takes_iff.mpr ⟨hf, by decide, by rw [hsize]; decide⟩)).frame
  rw [hsize] at hheld
  exact absurd hheld (by decide)

end Xm

end SabApp
