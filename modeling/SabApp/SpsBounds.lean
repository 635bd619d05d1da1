import SabApp.Sps

/-!
# How far the parser reads

Only single flags heed the end of the stream; every other read goes on behind it. But each part of a
set is read in a bounded number of steps, so the parser takes no more than `reach` bits from where it
starts, whatever stands there: two memories that agree so far give the same result
(`decodeSeqParameterSet_local`).
-/

namespace SabApp

namespace Sps

open Bits

/-- The memories agree on the bytes from which a word at a bit up to `e` is made. -/
def Agree (m m' : Mem) (e : ℕ) : Prop := ∀ q, 8 * q ≤ e + 24 → m q = m' q

theorem Agree.mono {m m' : Mem} {e e' : ℕ} (h : Agree m m' e) (he : e' ≤ e) : Agree m m' e' :=
  fun q hq => h q (by omega)

def St.over (st : St) (m : Mem) : St := { st with gb.buffer := m }

/-- The program takes `k` bits at most, and depends on no other memory. -/
structure Within {α : Type} (k : ℕ) (p : Dec α) : Prop where
  buffer : ∀ st, (p st).2.gb.buffer = st.gb.buffer
  index : ∀ st, (p st).2.gb.index ≤ st.gb.index + k
  same : ∀ st m, Agree st.gb.buffer m (st.gb.index + k) → p (st.over m) = ((p st).1, (p st).2.over m)

section
variable {α β : Type}

theorem Within.mono {k k' : ℕ} {p : Dec α} (h : Within k p) (hk : k ≤ k') : Within k' p where
  buffer := h.buffer
  index st := Nat.le_trans (h.index st) (by omega)
  same st m hm := h.same st m (hm.mono (by omega))

theorem Within.pure (a : α) : Within 0 (Pure.pure a : Dec α) := ⟨fun _ => rfl, fun _ => Nat.le_refl _, fun _ _ _ =>
    rfl⟩

theorem Within.fail : Within 0 (Sps.fail : Dec α) := ⟨fun _ => rfl, fun _ => Nat.le_refl _, fun _ _ _ => rfl⟩

theorem bind_none {p : Dec α} {f : α → Dec β} {st st' : St} (h : p st = (none, st')) : (p >>= f) st = (none, st') := by
  show Dec.bind p f st = _
  rw [Dec.bind, h]

theorem Within.bind {a b : ℕ} {p : Dec α} {f : α → Dec β} (hp : Within a p) (hf : ∀ x, Within b (f x)) :
    Within (a + b) (p >>= f) := by
  have hcases : ∀ st, (∃ st', p st = (none, st')) ∨ ∃ x st', p st = (some x, st') := by
    intro st
    rcases hps : p st with ⟨_ | x, st'⟩
    · exact .inl ⟨st', rfl⟩
    · exact .inr ⟨x, st', rfl⟩
  constructor
  · intro st
    have hb := hp.buffer st
    rcases hcases st with ⟨st', h⟩ | ⟨x, st', h⟩ <;> rw [h] at hb
    · rw [bind_none h]; exact hb
    · rw [bind_eq h, (hf x).buffer st']; exact hb
  · intro st
    have hi := hp.index st
    rcases hcases st with ⟨st', h⟩ | ⟨x, st', h⟩ <;> rw [h] at hi
    · rw [bind_none h]; dsimp only at hi ⊢; omega
    · have hi' := (hf x).index st'
      rw [bind_eq h]; dsimp only at hi; omega
  · intro st m hm
    have hb := hp.buffer st
    have hi := hp.index st
    have hs := hp.same st m (hm.mono (by omega))
    rcases hcases st with ⟨st', h⟩ | ⟨x, st', h⟩ <;> rw [h] at hb hi hs
    · rw [bind_none h, bind_none hs]
    · have hm' : Agree st'.gb.buffer m (st'.gb.index + b) := by
        rw [show st'.gb.buffer = st.gb.buffer from hb]
        exact hm.mono (by dsimp only at hi; omega)
      rw [bind_eq h, bind_eq hs]
      exact (hf x).same st' m hm'

theorem Within.ite {k : ℕ} {c : Prop} [Decidable c] {p q : Dec α} (hp : Within k p) (hq : Within k q) :
    Within k (if c then p else q) := by
  split
  · exact hp
  · exact hq

end

theorem cache_over {st : St} {m : Mem} (h : Agree st.gb.buffer m st.gb.index) : (st.over m).gb.cache = st.gb.cache := by
  have hq : ∀ j ≤ 3, m (st.gb.index / 8 + j) = st.gb.buffer (st.gb.index / 8 + j) := fun j hj => (h _ (by omega)).symm
  have h0 := hq 0 (by decide)
  rw [Nat.add_zero] at h0
  show rb32 m (st.gb.index / 8) * _ % _ = rb32 st.gb.buffer (st.gb.index / 8) * _ % _
  rw [rb32, rb32, h0, hq 1 (by decide), hq 2 (by decide), hq 3 (by decide)]
  rfl

theorem within_getBits (n : ℕ) : Within n (getBits n) where
  buffer _ := rfl
  index _ := Nat.le_refl _
  same st m h := by
    rw [getBits, cache_over (h.mono (by omega))]
    rfl

theorem within_showBits (n : ℕ) : Within 0 (showBits n) where
  buffer _ := rfl
  index _ := Nat.le_refl _
  same st m h := by
    rw [showBits, cache_over (h.mono (by omega))]
    rfl

theorem within_skipBits (n : ℕ) : Within n (skipBits n) := ⟨fun _ => rfl, fun _ => Nat.le_refl _, fun _ _ _ => rfl⟩

theorem within_getBitsLeft : Within 0 getBitsLeft := ⟨fun _ => rfl, fun _ => Nat.le_refl _, fun _ _ _ => rfl⟩

theorem within_getBits1 : Within 1 getBits1 where
  buffer st := by unfold getBits1; dsimp only; split <;> rfl
  index st := by
    unfold getBits1; dsimp only
    split
    · exact Nat.le_refl _
    · exact Nat.le_succ _
  same st m h := by
    have hb : bit m st.gb.index = bit st.gb.buffer st.gb.index := by
      rw [bit, bit, h _ (by omega)]
    show (some (bit m st.gb.index),
      if (st.gb.index : ℤ) < st.gb.sizeInBits + 8 then (st.over m).skip 1 else st.over m) = _
    rw [hb, getBits1]
    dsimp only
    split <;> rfl

theorem within_getBitsLong (n : ℕ) : Within n (getBitsLong n) := by
  unfold getBitsLong
  by_cases h0 : n = 0
  · rw [if_pos h0]
    exact (Within.pure 0).mono (Nat.zero_le n)
  · by_cases h25 : n ≤ 25
    · rw [if_neg h0, if_pos h25]
      exact within_getBits n
    · rw [if_neg h0, if_neg h25]
      exact ((within_getBits 16).bind fun ret => (within_getBits (n - 16)).bind fun low => Within.pure _).mono
        (by omega)

/-! ## Codes -/

theorem vlcLen_le (w : ℕ) : golombVlcLen.getD w 0 ≤ 19 := by
  have hall : ∀ n ∈ golombVlcLen, n ≤ 19 := by decide +kernel
  rw [List.getD_eq_getElem?_getD]
  cases hg : golombVlcLen[w]? with
  | none => exact Nat.zero_le _
  | some n => exact hall n (List.mem_of_getElem? hg)

theorem within_ue31 : Within 19 getUeGolomb31 where
  buffer _ := rfl
  index _ := Nat.add_le_add_left (vlcLen_le _) _
  same st m h := by
    unfold getUeGolomb31
    dsimp only
    rw [cache_over (h.mono (by omega))]
    rfl

theorem within_ue : Within 63 getUeGolomb where
  buffer st := by
    unfold getUeGolomb
    dsimp only
    split
    · rfl
    · split <;> rfl
  index st := by
    have hlen := vlcLen_le (st.gb.cache / 2 ^ 23)
    unfold getUeGolomb
    dsimp only
    split
    · rw [St.skip_index]; omega
    · split <;> (rw [St.skip_index]; omega)
  same st m h := by
    unfold getUeGolomb
    dsimp only
    rw [cache_over (h.mono (by omega))]
    split
    · rfl
    · split <;> rfl

theorem within_se : Within 63 getSeGolomb where
  buffer st := by unfold getSeGolomb; dsimp only; split <;> rfl
  index st := by
    have hlen := vlcLen_le (st.gb.cache / 2 ^ 23)
    unfold getSeGolomb
    dsimp only
    split
    · rw [St.skip_index]; omega
    · rw [St.skip_index, St.skip_index]; omega
  same st m h := by
    have hover : ((st.over m).skip (31 - avLog2 st.gb.cache)).gb.cache =
        (st.skip (31 - avLog2 st.gb.cache)).gb.cache :=
      @cache_over (st.skip (31 - avLog2 st.gb.cache)) m (h.mono (by rw [St.skip_index]; omega))
    unfold getSeGolomb
    dsimp only
    rw [cache_over (h.mono (by omega)), hover]
    split <;> rfl

theorem within_showLong : Within 32 (showBitsLong 32) where
  buffer _ := rfl
  index st := Nat.le_add_right _ _
  same st m h := by
    have hs := (within_getBitsLong 32).same st m h
    show ((getBitsLong 32 (st.over m)).1, st.over m) = ((getBitsLong 32 st).1, st.over m)
    rw [hs]

theorem within_skipLong (n : ℕ) : Within n (skipBitsLong n) where
  buffer _ := rfl
  index st := by
    unfold skipBitsLong
    dsimp only
    omega
  same _ _ _ := rfl

theorem within_ueLong : Within 95 getUeGolombLong := by
  refine Within.mono (Within.bind (b := 63) within_showLong fun buf => ?_) (Nat.le_refl 95)
  have hlog : 31 - avLog2 buf ≤ 31 := Nat.sub_le _ _
  exact ((within_skipLong _).bind fun _ => (within_getBitsLong _).bind fun v => Within.pure (v - 1)).mono (by omega)

/-! ## The parts -/

section
variable {α : Type} {k : ℕ}

theorem within_refuse (c : Prop) [Decidable c] : Within 0 (refuse c) := Within.ite Within.fail (Within.pure ())

/-- What follows a test is read only where the test lets it. -/
theorem within_unless {c : Prop} [Decidable c] {q : Dec α} (h : ¬c → Within k q) :
    Within k (refuse c >>= fun _ => q) := by
  by_cases hc : c
  · have hf : (refuse c >>= fun _ => q) = (Sps.fail : Dec α) := by
      funext st
      rw [refuse, if_pos hc]
      rfl
    rw [hf]
    exact Within.mono Within.fail (Nat.zero_le k)
  · exact ((within_refuse c).bind fun _ => h hc).mono (by omega)

theorem within_part {c : Bool} {p : Dec Unit} (h : Within k p) : Within k (part c p) :=
  Within.ite h ((Within.pure ()).mono (Nat.zero_le k))

theorem within_flagged {p : Dec Unit} (h : Within k p) : Within (1 + k) (flagged p) :=
  Within.bind within_getBits1 fun _ => within_part h

theorem within_times {p : Dec Unit} (h : Within k p) (n : ℕ) : Within (n * k) (times n p) := by
  induction n with
  | zero =>
    rw [Nat.zero_mul]
    exact Within.pure ()
  | succ n ih =>
    rw [Nat.succ_mul, Nat.add_comm]
    exact h.bind fun _ => ih

end

theorem within_list {size : ℕ} (jvtList fallbackList : List ℕ) :
    Within (1 + size * 63) (decodeScalingList size jvtList fallbackList) := by
  have hloop : ∀ scan n i factors last next, Within (n * 63) (scalingLoop jvtList scan n i factors last next) := by
    intro scan n
    induction n with
    | zero => exact fun i factors last next => (Within.pure factors).mono (Nat.zero_le _)
    | succ n ih =>
      intro i factors last next
      have hnext : Within 63 (nextScale last next) :=
        Within.ite (Within.bind within_se fun d => Within.pure _) ((Within.pure 0).mono (by decide))
      rw [Nat.succ_mul, Nat.add_comm]
      exact hnext.bind fun x => Within.ite ((Within.pure _).mono (Nat.zero_le _)) (ih _ _ _ _)
  exact Within.bind within_getBits1 fun _ => Within.ite (hloop _ _ _ _ _ _) ((Within.pure _).mono (Nat.zero_le _))

theorem within_scaling4 : Within 6054 scaling4 := by
  unfold scaling4
  exact Within.mono ((within_list _ _).bind fun _ => (within_list _ _).bind fun _ => (within_list _ _).bind fun _ =>
      (within_list _ _).bind fun _ => (within_list _ _).bind fun _ => (within_list _ _).bind fun _ => Within.pure _)
      (Nat.le_refl 6054)

theorem within_scaling8 (chromaFormatIdc : ℕ) : Within 24198 (scaling8 chromaFormatIdc) := by
  unfold scaling8
  exact Within.mono ((within_list _ _).bind fun _ => (within_list _ _).bind fun _ => Within.ite
      ((within_list _ _).bind fun _ => (within_list _ _).bind fun _ => (within_list _ _).bind fun _ =>
        (within_list _ _).bind fun _ => Within.pure _)
      ((Within.pure _).mono (Nat.zero_le _))) (Nat.le_refl 24198)

theorem within_matrices (chromaFormatIdc : ℕ) : Within 30253 (decodeScalingMatrices chromaFormatIdc) := by
  unfold decodeScalingMatrices
  exact Within.mono (Within.bind within_getBits1 fun _ => Within.ite
      (Within.bind within_scaling4 fun _ => (within_scaling8 chromaFormatIdc).bind fun _ => Within.pure _)
      ((Within.pure _).mono (Nat.zero_le _))) (Nat.le_refl 30253)

theorem within_cpb : Within 191 cpb := by
  unfold cpb
  exact Within.mono (Within.bind within_ueLong fun _ => Within.bind within_ueLong fun _ =>
      Within.bind within_getBits1 fun _ => Within.pure ()) (Nat.le_refl 191)

theorem within_hrd : Within 6159 decodeHrdParameters := by
  unfold decodeHrdParameters
  refine Within.mono (Within.bind (b := 6140) within_ue31 fun n => within_unless fun hn => ?_) (Nat.le_refl 6159)
  have htimes : Within 6112 (times (n + 1) cpb) := (within_times within_cpb (n + 1)).mono (by omega)
  exact (within_getBits 4).bind fun _ => (within_getBits 4).bind fun _ => htimes.bind fun _ =>
    (within_getBits 5).bind fun _ => (within_getBits 5).bind fun _ => (within_getBits 5).bind fun _ =>
    (within_getBits 5).bind fun _ => Within.pure ()

theorem within_aspect : Within 40 aspectRatio := by
  unfold aspectRatio
  exact Within.mono ((within_getBits 8).bind fun _ => Within.ite
      ((within_getBits 16).bind fun _ => (within_getBits 16).bind fun _ => Within.pure ())
      ((within_refuse _).mono (Nat.zero_le _))) (Nat.le_refl 40)

theorem within_signal : Within 29 videoSignal := by
  unfold videoSignal
  exact Within.mono ((within_getBits 3).bind fun _ => Within.bind within_getBits1 fun _ => within_flagged <|
      (within_getBits 8).bind fun _ => (within_getBits 8).bind fun _ => (within_getBits 8).bind fun _ =>
      Within.pure ()) (Nat.le_refl 29)

theorem within_location : Within 126 chromaLocation := by
  unfold chromaLocation
  exact Within.mono (Within.bind within_ue fun _ => Within.bind within_ue fun _ => Within.pure ()) (Nat.le_refl 126)

theorem within_timing : Within 65 timing := by
  unfold timing
  exact Within.mono ((within_getBitsLong 32).bind fun _ => (within_getBitsLong 32).bind fun _ =>
      within_unless fun _ => Within.bind within_getBits1 fun _ => Within.pure ()) (Nat.le_refl 65)

theorem within_restriction : Within 379 bitstreamRestriction := by
  unfold bitstreamRestriction
  exact Within.mono (Within.bind within_getBits1 fun _ => Within.bind within_ue fun _ =>
      Within.bind within_ue fun _ => Within.bind within_ue fun _ => Within.bind within_ue fun _ =>
      Within.bind within_ue fun _ => Within.bind within_ue fun _ => Within.bind within_getBitsLeft fun _ =>
      within_refuse _) (Nat.le_refl 379)

theorem within_vuiTail : Within 12702 vuiTail := by
  unfold vuiTail
  exact Within.mono (Within.bind within_getBits1 fun _ => (within_part within_hrd).bind fun _ =>
      Within.bind within_getBits1 fun _ => (within_part within_hrd).bind fun _ =>
      (within_part (Within.bind within_getBits1 fun _ => Within.pure ())).bind fun _ =>
      Within.bind within_getBits1 fun _ => Within.bind within_getBitsLeft fun _ =>
      Within.ite ((Within.pure ()).mono (Nat.zero_le _))
        ((within_flagged within_restriction).bind fun _ => Within.bind within_getBitsLeft fun _ => within_refuse _))
        (Nat.le_refl 12702)

theorem within_vui : Within 12968 decodeVuiParameters := by
  unfold decodeVuiParameters
  exact Within.mono ((within_flagged within_aspect).bind fun _ =>
      (within_flagged (Within.bind within_getBits1 fun _ => Within.pure ())).bind fun _ =>
      (within_flagged within_signal).bind fun _ => (within_flagged within_location).bind fun _ =>
      (within_showBits 1).bind fun _ => Within.bind within_getBitsLeft fun _ =>
      Within.ite ((Within.pure ()).mono (Nat.zero_le _))
        ((within_flagged within_timing).bind fun _ => within_vuiTail)) (Nat.le_refl 12968)

theorem within_high : Within 30400 high := by
  unfold high
  exact Within.mono (Within.bind within_ue31 fun chroma => within_unless fun _ =>
      (within_part (Within.bind within_getBits1 fun _ => within_refuse _)).bind fun _ =>
      Within.bind within_ue fun _ => Within.bind within_ue fun _ => within_unless fun _ => within_unless fun _ =>
      Within.bind within_getBits1 fun _ => (within_matrices chroma).bind fun _ => Within.pure ()) (Nat.le_refl 30400)

theorem within_pocCycle : Within 16255 pocCycle := by
  unfold pocCycle
  refine Within.mono (Within.bind within_getBits1 fun _ => Within.bind within_se fun _ =>
    Within.bind within_se fun _ => Within.bind (b := 16065) within_ue fun n => within_unless fun hn => ?_) (Nat.le_refl 16255)
  exact (within_times (Within.bind within_se fun _ => Within.pure ()) n.toNat).mono (by omega)

theorem within_picOrderCount : Within 16274 picOrderCount := by
  unfold picOrderCount
  exact Within.mono (Within.bind within_ue31 fun _ =>
      Within.ite ((Within.bind within_ue fun _ => Within.pure ()).mono (by decide))
      (Within.ite within_pocCycle ((within_refuse _).mono (Nat.zero_le _)))) (Nat.le_refl 16274)

theorem within_header : Within 43 header := by
  unfold header
  exact Within.mono ((within_getBits 8).bind fun _ =>
      (within_times (Within.bind within_getBits1 fun _ => Within.pure ()) 6).bind fun _ =>
      (within_skipBits 2).bind fun _ => (within_getBits 8).bind fun _ => Within.bind within_ue31 fun _ =>
      within_unless fun _ => Within.pure _) (Nat.le_refl 43)

theorem within_toDims (profileIdc : ℕ) : Within 46757 (toDims profileIdc) := by
  unfold toDims
  exact Within.mono ((within_part within_high).bind fun _ => Within.bind within_ue fun _ => within_unless fun _ =>
      Within.bind within_picOrderCount fun _ => Within.bind within_ue31 fun _ =>
      Within.bind within_getBits1 fun _ => Within.pure ())
      (Nat.le_refl 46757)

theorem within_setMbWidth (w : ℤ) : Within 0 (setMbWidth w) :=
  ⟨fun _ => rfl, fun _ => Nat.le_refl _, fun _ _ _ => rfl⟩

theorem within_setMbHeight (h : ℤ) : Within 0 (setMbHeight h) :=
  ⟨fun _ => rfl, fun _ => Nat.le_refl _, fun _ _ _ => rfl⟩

theorem within_dims : Within 126 dims := by
  unfold dims
  exact Within.mono (Within.bind within_ue fun _ => (within_setMbWidth _).bind fun _ => Within.bind within_ue fun _ =>
    within_setMbHeight _) (Nat.le_refl 126)

theorem within_afterDims : Within 13225 afterDims := by
  unfold afterDims
  exact Within.mono (Within.bind within_getBits1 fun _ =>
    (within_part (Within.bind within_getBits1 fun _ => Within.pure ())).bind fun _ =>
      Within.bind within_getBits1 fun _ => (within_flagged (Within.bind within_ue fun _ =>
      Within.bind within_ue fun _ =>
        Within.bind within_ue fun _ => Within.bind within_ue fun _ => Within.pure ())).bind fun _ =>
        within_flagged within_vui)
        (Nat.le_refl 13225)

theorem within_body (profileIdc : ℕ) : Within 60108 (body profileIdc) := by
  unfold body
  exact Within.mono ((within_toDims profileIdc).bind fun _ => Within.bind within_dims fun _ => within_afterDims)
    (Nat.le_refl 60108)

/-- As many bits as the parser can take. -/
def reach : ℕ := 60151

/-- **The parser stays within its reach**: what stands further on than its reach and a word has no part in the
result. -/
theorem decodeSeqParameterSet_local (gb : GetBits) {m : Mem}
    (h : Agree gb.buffer m (gb.index + reach)) (width height : ℤ) :
    decodeSeqParameterSet { gb with buffer := m } width height = decodeSeqParameterSet gb width height := by
  have hb := within_header.buffer ⟨gb, 0, 0⟩
  have hi := within_header.index ⟨gb, 0, 0⟩
  have hs := within_header.same ⟨gb, 0, 0⟩ m (h.mono (by unfold reach; exact Nat.add_le_add_left (by decide) _))
  have hover : (⟨{ gb with buffer := m }, 0, 0⟩ : St) = St.over ⟨gb, 0, 0⟩ m := rfl
  rw [decodeSeqParameterSet, decodeSeqParameterSet, hover, hs]
  rcases hh : header ⟨gb, 0, 0⟩ with ⟨_ | profileIdc, st⟩
  · rfl
  · rw [hh] at hb hi
    dsimp only at hb hi ⊢
    have hm : Agree st.gb.buffer m (st.gb.index + 60108) := by
      rw [hb]
      exact h.mono (by unfold reach; omega)
    rw [(within_body profileIdc).same st m hm]
    rfl

/-- A memory of zeros up to a place. -/
def zerosTo (n : ℕ) : Mem := fun q => if q ≤ n then 0 else 255

theorem agree_zerosTo : Agree (fun _ => 0) (zerosTo 7521) (0 + reach) := by
  intro q hq
  rw [zerosTo, if_pos (by unfold reach at hq; omega)]

theorem decodeSeqParameterSet_zeros :
    decodeSeqParameterSet ⟨zerosTo 7521, 0, 32⟩ 3 4 = decodeSeqParameterSet ⟨fun _ => 0, 0, 32⟩ 3 4 :=
  decodeSeqParameterSet_local ⟨fun _ => 0, 0, 32⟩ agree_zerosTo 3 4

end Sps

end SabApp
