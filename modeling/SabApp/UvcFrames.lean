import SabApp.Interleaved

/-!
# Frames of the UVC streams (UvcNative.c)

`LiveDataCallback2` gets the frames of both streams. What it keeps about a stream is in the stream's
`av_t`, but the number of frames since the last I frame, which it holds against `pFrameNum`, is one
counter for the file.
-/

namespace SabApp

namespace Uvc

/-- `ptc_frame_head_t` with the frame behind it. -/
structure FrameInfo where
  frameType : UInt8
  frameSubType : UInt8
  width : UInt16
  height : UInt16
  no : UInt32
  data : List UInt8
  deriving DecidableEq

/-- What an open stream's `av_t` is set to, and whether it has its `tempbuf`. -/
structure AvInfo where
  handle : Int32
  hardDecode : Int32
  justIframe : Int32
  tempbuf : Bool

/-- What the callback keeps in the `av_t`. -/
structure AvDecoder (δ : Type) where
  vdHandle : Option δ
  frameSubType : Int32
  width : Int32
  height : Int32

/-- `video_began` and `video_decode`, which work on a decoder of their own for each handle. -/
structure Codec (δ : Type) where
  began : Int32 → UInt16 → UInt16 → Option δ
  decode : δ → List UInt8 → δ × Option (Int32 × Int32 × List UInt8)

inductive Reaction where
  | closed
  | dropped
  /-- `ShowVideo` of the frame as it is. -/
  | shown (f : FrameInfo)
  | failed
  /-- `ShowVideo` of the picture. -/
  | decoded (width height : Int32) (data : List UInt8)
  | audio (data : List UInt8)
  | nothing
  deriving DecidableEq

structure World (δ : Type) where
  pFrameNo : Int32
  info : Fin 2 → AvInfo
  decoder : Fin 2 → AvDecoder δ

section

variable {δ : Type} (pFrameNum : Int32) (c : Codec δ)

/-- From the test of `tempbuf` on. -/
def softDecode (hardDecode : Int32) (d : AvDecoder δ) (f : FrameInfo) : AvDecoder δ × Reaction :=
  let began := d.vdHandle.isNone ∨ d.frameSubType ≠ f.frameSubType.toNat.toInt32 ∨
    d.width ≠ f.width.toNat.toInt32 ∨ d.height ≠ f.height.toNat.toInt32
  match if began then c.began hardDecode f.width f.height else d.vdHandle with
  | none => ({ d with vdHandle := none }, .failed)
  | some v =>
    match c.decode v f.data with
    | (v, none) =>
      (⟨some v, f.frameSubType.toNat.toInt32, f.width.toNat.toInt32, f.height.toNat.toInt32⟩, .failed)
    | (v, some (width, height, data)) =>
      (⟨some v, f.frameSubType.toNat.toInt32, width, height⟩, .decoded width height data)

/-- `LiveDataCallback2` on a frame of stream `s`. -/
def liveDataCallback2 (w : World δ) (s : Fin 2) (f : FrameInfo) : World δ × Reaction :=
  if (w.info s).handle < 0 then (w, .closed)
  else if f.frameType = 1 ∨ f.frameType = 2 then
    if (w.info s).hardDecode = 1 then
      if (w.info s).justIframe ≠ 0 ∧ f.frameType ≠ 1 then (w, .dropped) else (w, .shown f)
    else
      let w := { w with pFrameNo := (if f.frameType = 1 then 0 else w.pFrameNo) + 1 }
      if pFrameNum > 0 ∧ w.pFrameNo > pFrameNum then (w, .dropped)
      else if (w.info s).justIframe ≠ 0 ∧ f.frameType ≠ 1 then (w, .dropped)
      else if (w.info s).tempbuf = false then (w, .dropped)
      else
        let (d, r) := softDecode c (w.info s).hardDecode (w.decoder s) f
        ({ w with decoder := Function.update w.decoder s d }, r)
  else if f.frameType = 3 then (w, .audio f.data)
  else (w, .nothing)

/-- The callbacks of an interleaving. -/
def callbacks : World δ → List (Fin 2 × FrameInfo) → List (Fin 2 × Reaction)
  | _, [] => []
  | w, (s, f) :: es =>
    (s, (liveDataCallback2 pFrameNum c w s f).2) :: callbacks (liveDataCallback2 pFrameNum c w s f).1 es

/-! ## The shared counter -/

/-- The frames that `pFrameNo` counts: video of a stream that is decoded here. -/
def Counted (a : AvInfo) (f : FrameInfo) : Prop :=
  ¬ a.handle < 0 ∧ (f.frameType = 1 ∨ f.frameType = 2) ∧ a.hardDecode ≠ 1

instance (a : AvInfo) (f : FrameInfo) : Decidable (Counted a f) := inferInstanceAs (Decidable (_ ∧ _))

/-- `pFrameNo` after the frame. -/
def count (a : AvInfo) (f : FrameInfo) (no : Int32) : Int32 :=
  if Counted a f then (if f.frameType = 1 then 0 else no) + 1 else no

/-- The frames for which the counter decides: they are not dropped anyway. -/
def Decides (a : AvInfo) (f : FrameInfo) : Prop :=
  Counted a f ∧ ¬ (a.justIframe ≠ 0 ∧ f.frameType ≠ 1) ∧ a.tempbuf = true

instance (a : AvInfo) (f : FrameInfo) : Decidable (Decides a f) := inferInstanceAs (Decidable (_ ∧ _))

/-- Past `pFrameNum`, on a frame for which that matters. -/
def past (a : AvInfo) (f : FrameInfo) (no : Int32) : Bool :=
  Decides a f ∧ pFrameNum > 0 ∧ count a f no > pFrameNum

/-- The rest of the callback. -/
def react (a : AvInfo) (f : FrameInfo) (past : Bool) (d : AvDecoder δ) : AvDecoder δ × Reaction :=
  if a.handle < 0 then (d, .closed)
  else if f.frameType = 1 ∨ f.frameType = 2 then
    if a.hardDecode = 1 then
      if a.justIframe ≠ 0 ∧ f.frameType ≠ 1 then (d, .dropped) else (d, .shown f)
    else if Decides a f ∧ past = false then softDecode c a.hardDecode d f
    else (d, .dropped)
  else if f.frameType = 3 then (d, .audio f.data)
  else (d, .nothing)

/-- The two streams around `pFrameNo`. -/
def sharing (info : Fin 2 → AvInfo) : Sharing (Fin 2) Int32 (AvDecoder δ) FrameInfo Bool Reaction where
  tick s f no := count (info s) f no
  view s f no := past pFrameNum (info s) f no
  act s f b d := react c (info s) f b d

theorem callback_eq (w : World δ) (s : Fin 2) (f : FrameInfo) :
    liveDataCallback2 pFrameNum c w s f =
      (⟨count (w.info s) f w.pFrameNo, w.info, Function.update w.decoder s
          (react c (w.info s) f (past pFrameNum (w.info s) f w.pFrameNo) (w.decoder s)).1⟩,
        (react c (w.info s) f (past pFrameNum (w.info s) f w.pFrameNo) (w.decoder s)).2) := by
  by_cases hh : (w.info s).handle < 0
  · rw [liveDataCallback2, if_pos hh, react, if_pos hh, count, if_neg fun h => h.1 hh]
    simp
  by_cases hv : f.frameType = 1 ∨ f.frameType = 2
  · by_cases hd : (w.info s).hardDecode = 1
    · have hn : ¬ Counted (w.info s) f := fun h => h.2.2 hd
      rw [liveDataCallback2, if_neg hh, if_pos hv, if_pos hd, react, if_neg hh, if_pos hv, if_pos hd, count, if_neg hn]
      by_cases hj : (w.info s).justIframe ≠ 0 ∧ f.frameType ≠ 1
      · rw [if_pos hj, if_pos hj]
        simp
      · rw [if_neg hj, if_neg hj]
        simp
    · have hc : Counted (w.info s) f := ⟨hh, hv, hd⟩
      rw [liveDataCallback2, if_neg hh, if_pos hv, if_neg hd, react, if_neg hh, if_pos hv, if_neg hd, count, if_pos hc]
      by_cases hj : (w.info s).justIframe ≠ 0 ∧ f.frameType ≠ 1
      · have hn : ¬ (Decides (w.info s) f ∧ past pFrameNum (w.info s) f w.pFrameNo = false) := fun h => h.1.2.1 hj
        rw [if_neg hn]
        simp [hj]
      by_cases ht : (w.info s).tempbuf = false
      · have hn : ¬ (Decides (w.info s) f ∧ past pFrameNum (w.info s) f w.pFrameNo = false) := fun h => by
          rw [h.1.2.2] at ht
          cases ht
        rw [if_neg hn]
        simp [hj, ht]
      · have hdec : Decides (w.info s) f := ⟨hc, hj, by simpa using ht⟩
        by_cases hp : pFrameNum > 0 ∧ (if f.frameType = 1 then 0 else w.pFrameNo) + 1 > pFrameNum
        · have hpast : past pFrameNum (w.info s) f w.pFrameNo = true := by simp [past, count, hc, hdec, hp]
          have hn : ¬ (Decides (w.info s) f ∧ past pFrameNum (w.info s) f w.pFrameNo = false) := by simp [hpast]
          rw [if_pos hp, if_neg hn]
          simp
        · have hpast : past pFrameNum (w.info s) f w.pFrameNo = false := by
            simp only [past, count, hc, hdec, if_true, true_and]
            simpa using hp
          have hgo : Decides (w.info s) f ∧ past pFrameNum (w.info s) f w.pFrameNo = false := ⟨hdec, hpast⟩
          rw [if_neg hp, if_neg hj, if_neg ht, if_pos hgo]
  · have hn : ¬ Counted (w.info s) f := fun h => hv h.2.1
    rw [liveDataCallback2, if_neg hh, if_neg hv, react, if_neg hh, if_neg hv, count, if_neg hn]
    by_cases ha : f.frameType = 3
    · rw [if_pos ha, if_pos ha]
      simp
    · rw [if_neg ha, if_neg ha]
      simp

theorem callbacks_eq (es : List (Fin 2 × FrameInfo)) (w : World δ) :
    callbacks pFrameNum c w es = (sharing pFrameNum c w.info).run w.pFrameNo w.decoder es := by
  induction es generalizing w with
  | nil => rfl
  | cons e es ih =>
    obtain ⟨s, f⟩ := e
    rw [callbacks, ih, callback_eq]
    rfl

theorem softDecode_ne_dropped (hardDecode : Int32) (d : AvDecoder δ) (f : FrameInfo) :
    (softDecode c hardDecode d f).2 ≠ .dropped := by
  unfold softDecode
  dsimp only
  split
  · simp
  · split <;> simp

/-- Past and not past show where the counter decides. -/
theorem react_ne {a : AvInfo} {f : FrameInfo} (h : Decides a f) (d : AvDecoder δ) :
    (react c a f true d).2 ≠ (react c a f false d).2 := by
  obtain ⟨⟨hh, hv, hd⟩, hj, ht⟩ := h
  have hdec : Decides a f := ⟨⟨hh, hv, hd⟩, hj, ht⟩
  simp only [react, hh, hv, hd, hdec, if_true, if_false, true_and]
  exact fun he => softDecode_ne_dropped c a.hardDecode d f (by simpa using he.symm)

theorem decides_of_past {a : AvInfo} {f : FrameInfo} {no : Int32} (h : past pFrameNum a f no = true) : Decides a f := by
  simp only [past, decide_eq_true_eq] at h
  exact h.1

theorem sharing_shows (info : Fin 2 → AvInfo) (s : Fin 2) (f : FrameInfo) (d : AvDecoder δ) (m n : Int32)
    (h : ((sharing pFrameNum c info).act s f ((sharing pFrameNum c info).view s f m) d).2 =
      ((sharing pFrameNum c info).act s f ((sharing pFrameNum c info).view s f n) d).2) :
    (sharing pFrameNum c info).view s f m = (sharing pFrameNum c info).view s f n := by
  simp only [sharing] at h ⊢
  cases hm : past pFrameNum (info s) f m with
  | true =>
    cases hn : past pFrameNum (info s) f n with
    | true => rfl
    | false =>
      rw [hm, hn] at h
      exact absurd h (react_ne c (decides_of_past pFrameNum hm) d)
  | false =>
    cases hn : past pFrameNum (info s) f n with
    | true =>
      rw [hm, hn] at h
      exact absurd h.symm (react_ne c (decides_of_past pFrameNum hn) d)
    | false => rfl

/-- **Two streams.** In an interleaving each stream's frames meet the reactions they meet alone exactly when, at every
frame for which the counter decides, the count of both streams' frames and the count of the stream's
own are both past `pFrameNum` or both not. -/
theorem streams_independent_iff (w : World δ) (es : List (Fin 2 × FrameInfo)) :
    (∀ s, Sharing.part s (callbacks pFrameNum c w es) =
      Sharing.part s (callbacks pFrameNum c w (es.filter fun e => e.1 = s))) ↔
      (sharing pFrameNum c w.info).Agrees w.pFrameNo (fun _ => w.pFrameNo) es := by
  simp only [callbacks_eq, Sharing.run_part]
  exact Sharing.projected_iff _ (sharing_shows pFrameNum c w.info) es _ _ _

theorem agrees_unlimited (h : ¬ pFrameNum > 0) (info : Fin 2 → AvInfo) (es : List (Fin 2 × FrameInfo)) (no : Int32)
    (own : Fin 2 → Int32) : (sharing pFrameNum c info).Agrees no own es :=
  Sharing.agrees_of_const _ (fun s f m n => by simp [sharing, past, h]) es no own

/-- With one stream decoded here. -/
theorem agrees_single (info : Fin 2 → AvInfo) (s : Fin 2) (h : ∀ t, t ≠ s → (info t).hardDecode = 1)
    (es : List (Fin 2 × FrameInfo)) (no : Int32) : (sharing pFrameNum c info).Agrees no (fun _ => no) es := by
  have hc : ∀ t f, t ≠ s → ¬ Counted (info t) f := fun t f ht hc => hc.2.2 (h t ht)
  refine Sharing.agrees_of_only _ s (fun t f n ht => if_neg (hc t f ht)) (fun t f m n ht => ?_) es no _ rfl
  have hd : ¬ Decides (info t) f := fun hd => hc t f ht hd.1
  simp [sharing, past, hd]

end

/-- A decoder that hands every frame back. -/
def plainCodec : Codec Unit := ⟨fun _ _ _ => some (), fun _ data => ((), some (640, 480, data))⟩

def frame (frameType : UInt8) (no : UInt32) : FrameInfo := ⟨frameType, 0, 640, 480, no, [frameType]⟩

def twoStreams : World Unit := ⟨0, fun _ => ⟨0, 3, 0, true⟩, fun _ => ⟨none, 0, 0, 0⟩⟩

/-- With two frames of each group to be decoded, a P frame of one stream uses up the other's. -/
theorem streams_mixed : ¬ ∀ s, Sharing.part s (callbacks 2 plainCodec twoStreams
      [(0, frame 1 1), (1, frame 1 1), (1, frame 2 2), (0, frame 2 2)]) =
    Sharing.part s (callbacks 2 plainCodec twoStreams
      ([(0, frame 1 1), (1, frame 1 1), (1, frame 2 2), (0, frame 2 2)].filter fun e => e.1 = s)) := by
  intro h
  exact absurd (h 0) (by decide)

end Uvc

end SabApp
