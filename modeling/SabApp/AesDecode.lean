import Mathlib.Data.Int.Basic
import Mathlib.Tactic.Common
import SabApp.Bytes

/-!
# Segments of encrypted frames (aes_decode.c)

`Aes_Decode` decrypts a frame in place, in segments that each start from the same initialisation vector.
From the last segment it copies back what is left when the padding is taken off. The padding count comes from the
head of the frame and is not compared with the length of the segment.
-/

namespace SabApp

/-- What the code uses of the AES library. `cbcDecrypt` gets the key, the initialisation vector, the memory from the
input on and a number of bytes. -/
structure Aes where
  Key : Type
  setDecryptKey : List UInt8 → ℕ → Option Key
  cbcDecrypt : Key → List UInt8 → List UInt8 → ℕ → List UInt8

namespace AesDecode

/-- SEG_LEN -/
def segLen : ℕ := 60000

def keyAddr : List ℕ :=
  [0x603deb10, 0x15ca71be, 0x2b73aef0, 0x857d7781, 0x1f352c07, 0x3b6108d7, 0x2d9810a3, 0x0914dff4]

def ivAddr : List ℕ := [0x00010203, 0x04050607, 0x08090a0b, 0x0c0d0e0f]

def aesKeybuf : List UInt8 := (keyAddr.flatMap le32).take 16

def ivec : List UInt8 := ivAddr.flatMap le32

/-- None where the size is negative or larger than what is behind `off` or in `src`. -/
def memcpy (data : List UInt8) (off : ℕ) (src : List UInt8) (n : ℤ) : Option (List UInt8) :=
  if 0 ≤ n ∧ off + n.toNat ≤ data.length ∧ n.toNat ≤ src.length then
    some (data.take off ++ src.take n.toNat ++ data.drop (off + n.toNat))
  else none

/-- `buf2`, cleared and written to. -/
def buf2 (out : List UInt8) : List UInt8 := (out ++ List.replicate segLen 0).take segLen

section
variable (aes : Aes) (key : aes.Key) (paddingbytes : ℤ)

/-- The loop, with the rounds that are left. -/
def segments : ℕ → ℕ → ℤ → List UInt8 → Option (List UInt8)
  | 0, _, _, data => some data
  | n + 1, i, reset, data =>
    let interval := i * segLen
    if reset > segLen then
      (memcpy data interval (buf2 (aes.cbcDecrypt key ivec (data.drop interval) segLen)) segLen).bind fun data =>
        segments n (i + 1) (reset - segLen) data
    -- the length of the input would be converted to a size
    else if reset < 0 then none
    else
      (memcpy data interval (buf2 (aes.cbcDecrypt key ivec (data.drop interval) reset.toNat))
        (reset - paddingbytes)).bind fun data => segments n (i + 1) 0 data

end

def loop (length : ℤ) : ℤ := length.tdiv segLen + if length.tmod segLen ≠ 0 then 1 else 0

/-- What `Aes_Decode` returns, and `data` and `*len` after it. The key is set again before each segment, from the same
bytes. -/
def Aes_Decode (aes : Aes) (data : List UInt8) (len paddingbytes : ℤ) : Option (ℤ × List UInt8 × ℤ) :=
  match aes.setDecryptKey aesKeybuf 128 with
  | none => some (-1, data, len)
  | some key =>
    (segments aes key paddingbytes (loop len).toNat 0 len data).map fun data =>
      (len - paddingbytes, data, len - paddingbytes)

/-- What is relied on: the key can be set, and a segment comes back from its ciphertext, which is longer than the segment
only where that is not made of whole blocks. -/
structure Inverse (aes : Aes) (encrypt : List UInt8 → List UInt8) : Prop where
  key : ∃ key, aes.setDecryptKey aesKeybuf 128 = some key ∧
    ∀ s t, aes.cbcDecrypt key ivec (encrypt s ++ t) s.length = s
  covers : ∀ s, s.length ≤ (encrypt s).length
  blocks : ∀ s, 16 ∣ s.length → (encrypt s).length = s.length

/-- A text in whole segments and a last one comes back without its padding. -/
def DecodesExactly (aes : Aes) (encrypt : List UInt8 → List UInt8) : Prop :=
  ∀ (full : List (List UInt8)) (last rest : List UInt8) (padding : ℕ), (∀ s ∈ full, s.length = segLen) →
    last.length ≤ segLen → (last = [] → full = []) → padding ≤ last.length →
    let plain := full.flatten ++ last
    ∃ data, Aes_Decode aes (full.flatMap encrypt ++ encrypt last ++ rest) plain.length padding =
        some ((plain.length : ℤ) - padding, data, (plain.length : ℤ) - padding) ∧
      data.take (plain.length - padding) = plain.take (plain.length - padding)

/-- The size of the last segment. -/
def lastSegment (len : ℤ) : ℤ := len - (len - 1) / segLen * segLen

/-- The padding is no longer than the last segment, or there is none. -/
def Fits (len paddingbytes : ℤ) : Prop :=
  len ≤ -segLen ∨ len = 0 ∨ 0 < len ∧ 0 ≤ paddingbytes ∧ paddingbytes ≤ lastSegment len

instance (len paddingbytes : ℤ) : Decidable (Fits len paddingbytes) := inferInstanceAs (Decidable (_ ∨ _))

/-! ## Copies -/

theorem memcpy_isSome {data : List UInt8} {off : ℕ} {src : List UInt8} {n : ℤ} :
    (memcpy data off src n).isSome ↔ 0 ≤ n ∧ off + n.toNat ≤ data.length ∧ n.toNat ≤ src.length := by
  unfold memcpy
  split <;> simp_all

@[simp] theorem length_buf2 (out : List UInt8) : (buf2 out).length = segLen := by
  simp [buf2]

theorem take_buf2 {out : List UInt8} (h : out.length ≤ segLen) {n : ℕ} (hn : n ≤ out.length) :
    (buf2 out).take n = out.take n := by
  rw [buf2, List.take_take, Nat.min_eq_left (Nat.le_trans hn h), List.take_append_of_le_length hn]

theorem length_memcpy {data t : List UInt8} {off : ℕ} {src : List UInt8} {n : ℤ} (h : memcpy data off src n = some t) :
    t.length = data.length := by
  unfold memcpy at h
  split at h
  · next hb =>
    cases h
    simp only [List.length_append, List.length_take, List.length_drop]
    omega
  · cases h

/-- A copy over a stretch of the data. -/
theorem memcpy_mid {pre mid post src : List UInt8} {n : ℕ} (hn : n ≤ src.length) (hm : n ≤ mid.length) :
    memcpy (pre ++ mid ++ post) pre.length src n = some (pre ++ src.take n ++ (mid.drop n ++ post)) := by
  have hlen : pre.length + n ≤ (pre ++ mid ++ post).length := by
    simp only [List.length_append]
    omega
  rw [memcpy, if_pos ⟨Int.natCast_nonneg n, hlen, hn⟩, Int.toNat_natCast, List.append_assoc pre, List.take_left,
    List.drop_append, List.drop_append, Nat.add_sub_cancel_left, List.drop_of_length_le (by omega),
    List.nil_append, Nat.sub_eq_zero_of_le hm, List.drop_zero]

/-! ## The loop -/

section
variable {aes : Aes} {key : aes.Key}

theorem segments_next {paddingbytes reset : ℤ} {n i : ℕ} {data : List UInt8} (h : reset > segLen) :
    segments aes key paddingbytes (n + 1) i reset data =
      (memcpy data (i * segLen) (buf2 (aes.cbcDecrypt key ivec (data.drop (i * segLen)) segLen)) segLen).bind
        fun data => segments aes key paddingbytes n (i + 1) (reset - segLen) data := by
  rw [segments, if_pos h]

theorem segments_last {paddingbytes reset : ℤ} {i : ℕ} {data : List UInt8} (h : ¬ reset > segLen) (h₀ : ¬ reset < 0) :
    segments aes key paddingbytes 1 i reset data =
      memcpy data (i * segLen) (buf2 (aes.cbcDecrypt key ivec (data.drop (i * segLen)) reset.toNat))
        (reset - paddingbytes) := by
  rw [segments, if_neg h, if_neg h₀]
  exact Option.bind_fun_some _

/-- The loop is left by a copy out of bounds exactly where the last segment is shorter than the padding. -/
theorem segments_isSome {paddingbytes : ℤ} {l : ℕ} (hl : l ≤ segLen) (hl₀ : 0 < l) : ∀ {f i : ℕ} {data : List UInt8},
    data.length = i * segLen + f * segLen + l →
    ((segments aes key paddingbytes (f + 1) i (f * segLen + l : ℕ) data).isSome ↔
      0 ≤ paddingbytes ∧ paddingbytes ≤ l)
  | 0, i, data, hd => by
    rw [segments_last (by omega) (by omega), memcpy_isSome, length_buf2]
    omega
  | f + 1, i, data, hd => by
    have hs : segLen = 60000 := rfl
    have hf : (f + 1) * segLen = f * segLen + segLen := Nat.succ_mul ..
    have hi : (i + 1) * segLen = i * segLen + segLen := Nat.succ_mul ..
    rw [segments_next (by omega)]
    have hsome : (memcpy data (i * segLen) (buf2 (aes.cbcDecrypt key ivec (data.drop (i * segLen)) segLen))
        segLen).isSome := by
      rw [memcpy_isSome, length_buf2]
      omega
    obtain ⟨t, ht⟩ := Option.isSome_iff_exists.mp hsome
    have hr : ((f + 1) * segLen + l : ℕ) - (segLen : ℤ) = (f * segLen + l : ℕ) := by omega
    rw [ht, Option.bind_some, hr]
    refine segments_isSome hl hl₀ ?_
    rw [length_memcpy ht, hd]
    omega

/-- Whole segments and a last one are decrypted in their places. -/
theorem segments_decrypt {encrypt : List UInt8 → List UInt8} (hk : ∀ s t, aes.cbcDecrypt key ivec (encrypt s ++ t) s.length = s)
    (hlen : ∀ s, 16 ∣ s.length → (encrypt s).length = s.length) {last : List UInt8} (rest : List UInt8) {padding : ℕ}
    (hl : last.length ≤ segLen) (hl₀ : 0 < last.length) (hp : padding ≤ last.length)
    (hc : last.length ≤ (encrypt last).length) : ∀ (full : List (List UInt8)) (done : List UInt8) (i : ℕ),
    (∀ s ∈ full, s.length = segLen) → done.length = i * segLen →
    ∃ t, segments aes key padding (full.length + 1) i (full.length * segLen + last.length : ℕ)
      (done ++ (full.flatMap encrypt ++ encrypt last ++ rest)) =
        some (done ++ (full.flatten ++ last.take (last.length - padding) ++ t))
  | [], done, i, _, hd => by
    refine ⟨(encrypt last).drop (last.length - padding) ++ rest, ?_⟩
    have hsub : ((0 * segLen + last.length : ℕ) : ℤ) - padding = (last.length - padding : ℕ) := by omega
    have htake : (0 * segLen + last.length : ℕ) = last.length := by omega
    rw [List.length_nil, segments_last (by omega) (by omega), hsub, htake, Int.toNat_natCast, ← hd, List.drop_left,
      List.flatMap_nil, List.nil_append, hk, ← List.append_assoc, memcpy_mid (by rw [length_buf2]; omega) (by omega),
      take_buf2 hl (Nat.sub_le ..)]
    simp
  | s :: full, done, i, hf, hd => by
    have hs := hf s (by simp)
    have henc : (encrypt s).length = segLen := by rw [hlen s (by rw [hs]; decide), hs]
    have hm : (full.length + 1) * segLen = full.length * segLen + segLen := Nat.succ_mul ..
    have hi : (i + 1) * segLen = i * segLen + segLen := Nat.succ_mul ..
    have hr : ((full.length + 1) * segLen + last.length : ℕ) - (segLen : ℤ) = (full.length * segLen + last.length : ℕ) := by
      omega
    obtain ⟨t, ht⟩ := segments_decrypt hk hlen rest hl hl₀ hp hc full (done ++ s) (i + 1)
      (fun x hx => hf x (by simp [hx])) (by rw [List.length_append, hd, hs, hi])
    refine ⟨t, ?_⟩
    have hout := hk s (full.flatMap encrypt ++ encrypt last ++ rest)
    rw [hs] at hout
    rw [List.length_cons, segments_next (by omega), hr, ← hd, List.drop_left, List.flatMap_cons, List.append_assoc,
      List.append_assoc, ← List.append_assoc (full.flatMap encrypt), hout, ← List.append_assoc done,
      memcpy_mid (by rw [length_buf2]) (by rw [henc]), Option.bind_some, take_buf2 (by rw [hs]) (by rw [hs]),
      List.drop_of_length_le (by rw [henc]), List.nil_append, List.take_of_length_le (by rw [hs]), ht]
    simp

end

/-! ## The number of rounds -/

theorem loop_pos {f l : ℕ} (hl₀ : 0 < l) (hl : l ≤ segLen) : (loop (f * segLen + l : ℕ)).toNat = f + 1 := by
  have hs : segLen = 60000 := rfl
  have h₀ : (0 : ℤ) ≤ (f * segLen + l : ℕ) := Int.natCast_nonneg _
  rw [loop, Int.tdiv_eq_ediv_of_nonneg h₀, Int.tmod_eq_emod_of_nonneg h₀, hs]
  rw [hs] at hl
  split <;> omega

theorem loop_neg {len : ℤ} (h : len < 0) : (loop len).toNat = if len ≤ -segLen then 0 else 1 := by
  obtain ⟨m, rfl⟩ : ∃ m : ℕ, len = -m := ⟨len.natAbs, by omega⟩
  have hs : segLen = 60000 := rfl
  have h₀ : (0 : ℤ) ≤ m := Int.natCast_nonneg _
  rw [loop, Int.neg_tdiv, Int.neg_tmod, Int.tdiv_eq_ediv_of_nonneg h₀, Int.tmod_eq_emod_of_nonneg h₀, hs]
  split <;> split <;> omega

theorem exists_segments {len : ℤ} (h : 0 < len) :
    ∃ f l : ℕ, len = (f * segLen + l : ℕ) ∧ 0 < l ∧ l ≤ segLen ∧ lastSegment len = l := by
  have hs : segLen = 60000 := rfl
  refine ⟨((len - 1) / 60000).toNat, (len - (len - 1) / 60000 * 60000).toNat, ?_, ?_, ?_, ?_⟩
  · rw [hs]; omega
  · omega
  · rw [hs]; omega
  · rw [lastSegment, hs]; omega

section
variable {aes : Aes} {encrypt : List UInt8 → List UInt8}

theorem decodesExactly (h : Inverse aes encrypt) : DecodesExactly aes encrypt := by
  obtain ⟨key, hkey, hk⟩ := h.key
  intro full last rest padding hfull hl hne hp plain
  have hplain : plain.length = full.length * segLen + last.length := by
    have hflat : full.flatten.length = full.length * segLen := by
      rw [List.length_flatten, List.map_congr_left hfull]
      simp
    rw [List.length_append, hflat]
  have hret {k : ℕ} {data : List UInt8}
      (hs : segments aes key padding k 0 plain.length (full.flatMap encrypt ++ encrypt last ++ rest) = some data)
      (hk : (loop plain.length).toNat = k) :
      Aes_Decode aes (full.flatMap encrypt ++ encrypt last ++ rest) plain.length padding =
        some ((plain.length : ℤ) - padding, data, (plain.length : ℤ) - padding) := by
    rw [Aes_Decode, hkey]
    simp only [hk, hs, Option.map_some]
  by_cases hlast : last = []
  · have hfull₀ := hne hlast
    subst hlast hfull₀
    refine ⟨_, hret (k := 0) rfl (by rw [hplain]; rfl), ?_⟩
    rw [show plain.length - padding = 0 by simp [hplain]]
    rfl
  · have hl₀ : 0 < last.length := List.length_pos_iff.mpr hlast
    obtain ⟨t, ht⟩ := segments_decrypt hk h.blocks rest hl hl₀ hp (h.covers last) full [] 0 hfull (by simp)
    rw [← hplain] at ht
    refine ⟨_, hret ht (by rw [hplain, loop_pos hl₀ hl]), ?_⟩
    have hcut : plain.length - padding = full.flatten.length + (last.length - padding) := by
      simp only [plain, List.length_append]
      omega
    rw [hcut, List.nil_append, List.append_assoc, List.take_length_add_append, List.take_length_add_append]
    simp

theorem isSome_iff (h : Inverse aes encrypt) {data : List UInt8} {len paddingbytes : ℤ} (hd : data.length = len.toNat) :
    (Aes_Decode aes data len paddingbytes).isSome ↔ Fits len paddingbytes := by
  obtain ⟨key, hkey, -⟩ := h.key
  have hs : segLen = 60000 := rfl
  rw [Aes_Decode, hkey]
  simp only [Option.isSome_map]
  by_cases hpos : 0 < len
  · obtain ⟨f, l, rfl, hl₀, hl, hlast⟩ := exists_segments hpos
    rw [loop_pos hl₀ hl, segments_isSome hl hl₀ (by rw [hd, Int.toNat_natCast]; omega), Fits, hlast]
    omega
  · by_cases hz : len = 0
    · subst hz
      exact iff_of_true rfl (.inr (.inl rfl))
    · rw [loop_neg (by omega)]
      by_cases hfar : len ≤ -segLen
      · rw [if_pos hfar]
        exact iff_of_true rfl (.inl hfar)
      · rw [if_neg hfar, segments, if_neg (by omega), if_pos (by omega)]
        refine iff_of_false (by simp) ?_
        unfold Fits
        omega

/-- **Segmented decryption.** Texts come back without their padding; and no copy is out of bounds exactly when the
padding is no longer than the last segment. -/
theorem decode_exact_iff (h : Inverse aes encrypt) {data : List UInt8} {len paddingbytes : ℤ}
    (hd : data.length = len.toNat) :
    (DecodesExactly aes encrypt ∧ (Aes_Decode aes data len paddingbytes).isSome) ↔ Fits len paddingbytes := by
  rw [isSome_iff h hd]
  exact and_iff_right (decodesExactly h)

end

/-- A block and its ciphertext under the key and the initialisation vector of the code. -/
def block : List UInt8 := [0, 1, 2, 3, 4, 5, 6, 7, 8, 9, 10, 11, 12, 13, 14, 15]

def cipher : List UInt8 := [173, 9, 117, 183, 149, 229, 174, 170, 34, 141, 238, 207, 8, 44, 208, 227]

def swap (s : List UInt8) : List UInt8 := if s = block then cipher else if s = cipher then block else s

/-- Knows one block. -/
def blockAes : Aes := ⟨Unit, fun _ _ => some (), fun _ _ mem n => swap (mem.take n)⟩

theorem length_swap (s : List UInt8) : (swap s).length = s.length := by
  unfold swap
  by_cases hb : s = block
  · rw [if_pos hb, hb]; rfl
  · rw [if_neg hb]
    by_cases hc : s = cipher
    · rw [if_pos hc, hc]; rfl
    · rw [if_neg hc]

theorem swap_swap (s : List UInt8) : swap (swap s) = s := by
  by_cases hb : s = block
  · subst hb; decide
  · by_cases hc : s = cipher
    · subst hc; decide
    · rw [swap, swap, if_neg hb, if_neg hc, if_neg hb, if_neg hc]

theorem inverse_block : Inverse blockAes swap where
  key := by
    refine ⟨(), rfl, fun s t => ?_⟩
    rw [← length_swap s]
    simp only [blockAes, List.take_left, swap_swap]
  covers s := Nat.le_of_eq (length_swap s).symm
  blocks s _ := length_swap s

theorem decode_exact_block : DecodesExactly blockAes swap ∧ (Aes_Decode blockAes cipher 16 3).isSome :=
  (decode_exact_iff inverse_block (by decide)).mpr (by decide)

/-- A frame of 8 bytes with 16 bytes of padding. -/
theorem decode_overrun : ¬ (Aes_Decode blockAes (List.replicate 8 0) 8 16).isSome := by
  rw [isSome_iff inverse_block (by decide)]
  decide

end AesDecode

end SabApp
