import SabApp.Stream3Sound
import Mathlib.Data.List.Chain

/-!
# Decodable streams under dropping

set_withDrop gives up a P frame as long as `dropFlag` is set, and sets the flag
with every video frame it refuses, except for one: a frame too large for the
ring is refused before the flag is looked at. A stored P frame therefore has its
predecessor stored exactly where that predecessor was not too large
(`drop_decodable_iff`).
-/

namespace SabApp

namespace Stream3

/-- A stream, its reader, and the video frames offered so far with what became of them. -/
structure DropWorld where
  stream : Stream3
  readPos : Pos
  videos : List (Frame × Bool)

inductive DropOp where
  | initReadPos
  | offer (f : Frame) (ncBufferUsec : Int)
  | get (data : List UInt8)

namespace DropWorld

def start (pool : Mem) (size : Nat) (r : Pos) : DropWorld := ⟨Stream3.init pool size, r, []⟩

def step (w : DropWorld) : DropOp → Option DropWorld
  | .initReadPos =>
    let (t, r) := w.stream.initReadPos
    some { w with stream := t, readPos := r }
  | .offer f usec =>
    (w.stream.setWithDrop f usec).map fun (t, stored) =>
      { w with stream := t, videos := if isVideo f.data then w.videos ++ [(f, stored)] else w.videos }
  | .get data =>
    (w.stream.getSimple w.readPos data).map fun (t, r, _) => { w with stream := t, readPos := r }

/-- Of two video frames offered one after the other: if the later is a P frame and stored, so is the earlier. -/
def Follows (a b : Frame × Bool) : Prop := frameType b.1.data = ptcFrameP → b.2 = true → a.2 = true

/-- Every stored frame is led up to, without a gap, by an I frame or by the first frame offered. -/
def Decodable (l : List (Frame × Bool)) : Prop :=
  ∀ i x, l[i]? = some x → x.2 = true → ∃ j ≤ i, (j = 0 ∨ ∃ y, l[j]? = some y ∧ frameType y.1.data = ptcFrameI) ∧
    ∀ k, j ≤ k → k ≤ i → ∃ y, l[k]? = some y ∧ y.2 = true

theorem isVideo_iff {data : List UInt8} : isVideo data = true ↔ frameType data = ptcFrameI ∨ frameType data = ptcFrameP := by
  simp [isVideo]

theorem decodable_of_follows {l : List (Frame × Bool)} (h : l.IsChain Follows)
    (hv : ∀ x ∈ l, isVideo x.1.data = true) : Decodable l := by
  intro i
  induction i with
  | zero =>
    intro x hx hs
    exact ⟨0, Nat.le_refl _, .inl rfl, fun k _ hk => ⟨x, by rw [Nat.le_zero.mp hk]; exact hx, hs⟩⟩
  | succ i ih =>
    intro x hx hs
    have hone : ∀ k, i + 1 ≤ k → k ≤ i + 1 → ∃ y, l[k]? = some y ∧ y.2 = true := fun k h₁ h₂ =>
      ⟨x, by rw [Nat.le_antisymm h₂ h₁]; exact hx, hs⟩
    by_cases hp : frameType x.1.data = ptcFrameP
    · obtain ⟨hlt, hget⟩ := List.getElem?_eq_some_iff.mp hx
      have hprev := List.isChain_iff_getElem.mp h i hlt
      rw [hget] at hprev
      obtain ⟨j, hj, hstart, hrun⟩ := ih l[i] (List.getElem?_eq_getElem (by omega)) (hprev hp hs)
      refine ⟨j, by omega, hstart, fun k h₁ h₂ => ?_⟩
      by_cases hk : k ≤ i
      · exact hrun k h₁ hk
      · exact hone k (by omega) h₂
    · have hi := (isVideo_iff.mp (hv x (List.mem_of_getElem? hx))).resolve_right hp
      exact ⟨i + 1, Nat.le_refl _, .inr ⟨x, hx, hi⟩, hone⟩

/-- A P frame about to be stored does not follow a frame that was too large. -/
def NoOversize (w : DropWorld) : DropOp → Prop
  | .offer f usec => frameType f.data = ptcFrameP → f.data.length ≤ dataSize → w.stream.drops f usec = false →
      ∀ x ∈ w.videos.getLast?, x.1.data.length ≤ dataSize
  | _ => True

structure DropInv (w : DropWorld) : Prop where
  room : w.stream.writePos.offset + headSize ≤ w.stream.size.val
  video : ∀ x ∈ w.videos, isVideo x.1.data = true
  chain : w.videos.IsChain Follows
  fits : ∀ x ∈ w.videos, x.2 = true → x.1.data.length ≤ dataSize
  last : w.stream.dropFlag = false → ∀ x ∈ w.videos.getLast?, x.2 = true ∨ dataSize < x.1.data.length

/-! ## What a call does to the flag -/

theorem store_room {s : Stream3} {f : Frame} (h : s.writePos.offset + headSize ≤ s.size.val)
    (hf : f.data.length ≤ dataSize) : ∃ t, s.store f = some t ∧ t.dropFlag = s.dropFlag ∧ t.size = s.size ∧
      t.writePos.offset + headSize ≤ t.size.val := by
  have hlo := s.size.lo
  unfold store
  simp only
  rw [if_neg (by omega)]
  refine ⟨_, rfl, rfl, rfl, ?_⟩
  by_cases hw : s.writePos.offset + 2 * headSize + dataSize > s.size.val
  · simp only [if_pos hw]
    simp only [headSize, dataSize] at h hf ⊢; omega
  · simp only [if_neg hw]
    simp only [headSize, dataSize] at h hf hw ⊢; omega

/-- A frame is stored exactly when it fits and is not dropped; a video frame that fits and is not
stored leaves the flag set; audio and frames that do not fit leave it as it was. -/
theorem setWithDrop_spec {s : Stream3} (f : Frame) (usec : Int) (h : s.writePos.offset + headSize ≤ s.size.val) :
    ∃ t b, s.setWithDrop f usec = some (t, b) ∧ t.writePos.offset + headSize ≤ t.size.val ∧
      (b = true ↔ f.data.length ≤ dataSize ∧ s.drops f usec = false) ∧
      (isVideo f.data = true → f.data.length ≤ dataSize → b = false → t.dropFlag = true) ∧
      (isVideo f.data = false ∨ dataSize < f.data.length → t.dropFlag = s.dropFlag) := by
  unfold setWithDrop
  by_cases hf : f.data.length > dataSize
  · exact ⟨s, false, if_pos hf, h, by simp; omega, fun _ hle => by omega, fun _ => rfl⟩
  rw [if_neg hf]
  by_cases hp : (s.dropFlag && frameType f.data == ptcFrameP) = true
  · refine ⟨s, false, if_pos hp, h, by simp [drops, hp], fun _ _ _ => ?_, fun _ => rfl⟩
    rw [Bool.and_eq_true] at hp; exact hp.1
  rw [if_neg hp]
  obtain ⟨b, hb, hkeep⟩ : ∃ b, (if (s.dropFlag && frameType f.data == ptcFrameI) = true then
      { s with dropFlag := false } else s) = { s with dropFlag := b } ∧ (isVideo f.data = false → b = s.dropFlag) := by
    split
    · rename_i hi
      refine ⟨false, rfl, fun hv => ?_⟩
      simp only [Bool.and_eq_true] at hi
      simp [isVideo, hi.2] at hv
    · exact ⟨s.dropFlag, rfl, fun _ => rfl⟩
  simp only [hb, tooFarBehind_flag]
  by_cases hd : (isVideo f.data && s.tooFarBehind f usec) = true
  · rw [if_pos hd]
    refine ⟨_, false, rfl, h, by simp [drops, hd], fun _ _ _ => rfl, fun hv => ?_⟩
    rw [Bool.and_eq_true] at hd
    rcases hv with hv | hv
    · rw [hv] at hd; cases hd.1
    · omega
  · rw [if_neg hd]
    obtain ⟨t, ht, hflag, _, hroom⟩ := store_room (s := { s with dropFlag := b }) h (Nat.le_of_not_lt hf)
    refine ⟨t, true, by rw [ht]; rfl, hroom, ?_, (fun _ _ hc => by cases hc), fun hv => ?_⟩
    · simp only [Bool.not_eq_true] at hp hd
      simp [drops, hp, hd]; omega
    · rw [hflag]; exact hkeep (hv.resolve_right (by omega))

theorem getSimple_flag {s t : Stream3} {r p : Pos} {data : List UInt8} {g : Got}
    (h : s.getSimple r data = some (t, p, g)) :
    t.writePos = s.writePos ∧ t.size = s.size ∧ t.dropFlag = s.dropFlag := by
  unfold getSimple at h
  split at h
  · cases h
  · split at h
    · cases h; exact ⟨rfl, rfl, rfl⟩
    · split at h
      · cases h; exact ⟨rfl, rfl, rfl⟩
      · dsimp only at h
        generalize (if headLen (s.pool.read r.offset headSize) = skipLen then
          (⟨0, u32 (r.ring + 1)⟩ : Pos) else r) = q at h
        split at h <;> simp only [Option.some.injEq, Prod.mk.injEq] at h <;> obtain ⟨rfl, -, -⟩ := h <;>
          exact ⟨rfl, rfl, rfl⟩

/-! ## The invariant along a run -/

theorem start_drop (pool : Mem) (size : Nat) (r : Pos) : DropInv (start pool size r) := by
  have := (clampSize size).lo
  refine ⟨?_, by simp [start], .nil, by simp [start], by simp [start]⟩
  simp only [start, Stream3.init, headSize]; omega

theorem videos_offer {w : DropWorld} (h : DropInv w) (f : Frame) (usec : Int) : ∃ t b,
    w.step (.offer f usec) = some ⟨t, w.readPos, if isVideo f.data then w.videos ++ [(f, b)] else w.videos⟩ ∧
      t.writePos.offset + headSize ≤ t.size.val ∧ (b = true ↔ f.data.length ≤ dataSize ∧ w.stream.drops f usec = false) ∧
      (isVideo f.data = true → f.data.length ≤ dataSize → b = false → t.dropFlag = true) ∧
      (isVideo f.data = false ∨ dataSize < f.data.length → t.dropFlag = w.stream.dropFlag) := by
  obtain ⟨t, b, ht, hroom, hb, hset, hkeep⟩ := setWithDrop_spec f usec h.room
  exact ⟨t, b, by simp only [step, ht, Option.map_some], hroom, hb, hset, hkeep⟩

theorem drop_step (w : DropWorld) (a : DropOp) (t : DropWorld) (h : DropInv w) (ha : NoOversize w a)
    (ht : w.step a = some t) : DropInv t := by
  cases a with
  | initReadPos => cases ht; exact ⟨h.room, h.video, h.chain, h.fits, h.last⟩
  | get data =>
    simp only [step] at ht
    cases hg : w.stream.getSimple w.readPos data with
    | none => rw [hg] at ht; cases ht
    | some x =>
      obtain ⟨h₁, h₂, h₃⟩ := getSimple_flag hg
      rw [hg] at ht; cases ht
      exact ⟨by simp only [h₁, h₂]; exact h.room, h.video, h.chain, h.fits, by simp only [h₃]; exact h.last⟩
  | offer f usec =>
    obtain ⟨u, b, hs, hroom, hb, hset, hkeep⟩ := videos_offer h f usec
    obtain rfl := Option.some.inj (hs.symm.trans ht)
    cases hv : isVideo f.data with
    | false => exact ⟨hroom, h.video, h.chain, h.fits, by simp only [hkeep (.inl hv)]; exact h.last⟩
    | true =>
      refine ⟨hroom, ?_, ?_, ?_, ?_⟩ <;> simp only [if_true]
      · intro x hx
        rcases List.mem_append.mp hx with hx | hx
        · exact h.video x hx
        · rw [List.mem_singleton.mp hx]; exact hv
      · refine List.isChain_append.mpr ⟨h.chain, List.isChain_singleton _, fun x hx y hy hp hst => ?_⟩
        obtain rfl : (f, b) = y := by simpa using hy
        obtain ⟨hf, hd⟩ := hb.mp hst
        have hflag : w.stream.dropFlag = false := by
          cases hfl : w.stream.dropFlag with
          | false => rfl
          | true => simp [drops, hfl, hp] at hd
        have hx' := ha hp hf hd x hx
        exact (h.last hflag x hx).resolve_right (by omega)
      · intro x hx hst
        rcases List.mem_append.mp hx with hx | hx
        · exact h.fits x hx hst
        · rw [List.mem_singleton.mp hx] at hst ⊢; exact (hb.mp hst).1
      · intro hflag x hx
        obtain rfl : (f, b) = x := by simpa using hx
        by_cases hf : f.data.length ≤ dataSize
        · left
          cases b with
          | true => rfl
          | false => rw [hset hv hf rfl] at hflag; cases hflag
        · right; exact Nat.lt_of_not_le hf

/-- A P frame stored after a frame that was too large for the ring has no predecessor in it. -/
theorem drop_gap (w : DropWorld) (a : DropOp) (h : DropInv w) (ha : ¬ NoOversize w a) :
    ∃ t, w.step a = some t ∧ ¬ t.videos.IsChain Follows := by
  cases a with
  | initReadPos => exact absurd trivial ha
  | get data => exact absurd trivial ha
  | offer f usec =>
    simp only [NoOversize, Classical.not_imp, not_forall, Nat.not_le] at ha
    obtain ⟨hp, hf, hd, x, hx, hlt⟩ := ha
    obtain ⟨u, b, hs, _, hb, _, _⟩ := videos_offer h f usec
    have hv : isVideo f.data = true := isVideo_iff.mpr (.inr hp)
    refine ⟨_, hs, fun hc => ?_⟩
    simp only [hv, if_true] at hc
    have hst := (List.isChain_append.mp hc).2.2 x hx (f, b) (by simp) hp (hb.mpr ⟨hf, hd⟩)
    have := h.fits x (List.mem_of_getLast? hx) hst
    omega

theorem drop_iff {w : DropWorld} (h : DropInv w) (ops : List DropOp) :
    Reached step (fun w => w.videos.IsChain Follows ∧ Decodable w.videos) w ops ↔ Meets step NoOversize w ops :=
  reached_iff_meets drop_step (fun _ hi => ⟨hi.chain, decodable_of_follows hi.chain hi.video⟩)
    (fun w a hi ha => by obtain ⟨t, ht, hn⟩ := drop_gap w a hi ha; exact ⟨t, ht, fun hc => hn hc.1⟩) h

/-- **Decodable streams.** In every state of a run each stored P frame has its predecessor stored,
and each stored frame is led up to without a gap, exactly when no P frame is stored right after a
frame too large for the ring. -/
theorem drop_decodable_iff (pool : Mem) (size : Nat) (r : Pos) (ops : List DropOp) :
    Reached step (fun w => w.videos.IsChain Follows ∧ Decodable w.videos) (start pool size r) ops ↔
      Meets step NoOversize (start pool size r) ops := drop_iff (start_drop pool size r) ops

/-- A video frame of `n + 32` bytes. -/
def video (type : UInt8) (n : Nat) : Frame where
  data := List.replicate 20 0 ++ type :: List.replicate (n + 11) 0
  head_le := by simp

theorem video_type (type : UInt8) (n : Nat) : frameType (video type n).data = type.toNat := by
  unfold frameType video
  rw [byteAt_append_right (by simp)]
  rfl

/-- An I frame one byte too large, then a P frame that needs it. -/
theorem drop_oversize : ¬ Reached step (fun w => w.videos.IsChain Follows ∧ Decodable w.videos)
    (start (fun _ => 0) 0 ⟨0, 0⟩) [.offer (video 1 1048545) 0, .offer (video 2 0) 0] := by
  intro h
  have hm := (drop_iff (start_drop _ _ _) _).mp h
  have hI : frameType (video 1 1048545).data = 1 := video_type 1 1048545
  have hP : frameType (video 2 0).data = 2 := video_type 2 0
  have hlen : ∀ (c : UInt8) n, (video c n).data.length = n + 32 := fun c n => by simp [video]
  have hv : isVideo (video 1 1048545).data = true := isVideo_iff.mpr (.inl hI)
  have hfirst : (start (fun _ => 0) 0 ⟨0, 0⟩).step (.offer (video 1 1048545) 0) =
      some ⟨Stream3.init (fun _ => 0) 0, ⟨0, 0⟩, [(video 1 1048545, false)]⟩ := by
    simp only [step, setWithDrop, hlen, start, hv]
    rw [if_pos (by decide)]; rfl
  have hok := (hm.2 _ hfirst).1 hP (by rw [hlen]; decide) (by simp [drops, Stream3.init, tooFarBehind])
    (video 1 1048545, false) rfl
  rw [hlen] at hok
  exact absurd hok (by decide)

end DropWorld

end Stream3

end SabApp
