import SabApp.Accesses
import SabApp.Bytes

/-!
# Receive buffers of the UVC bridge (UvcNative.c)

`StreamThread` receives a head and then as many bytes as the head says into one buffer, and `LiveDataCallback2` decodes
audio into another, two bytes for each. A length is refused only where it is negative as an `int`. Video is shown from
where it is or decoded into a third buffer, and touches neither.
-/

namespace SabApp

namespace Uvc

open Traced

/-- NET_VIDEO_BUF -/
def netVideoBuf : ℕ := 800 * 1024

/-- AUDIO_BUF_LEN -/
def audioBufLen : ℕ := 1024 * 8

/-- `sizeof(ptc_frame_head_t)` -/
def frameHead : ℕ := 32

inductive StreamEffect where
  /-- An access to `manager->buffer`. -/
  | net (x : Access)
  /-- An access to `av_info->audiobuf`. -/
  | audio (x : Access)
  /-- `LiveDataCallback2` is called with the frame. -/
  | callback (frame : List UInt8)

namespace StreamEffect

def InBuffers : StreamEffect → Prop
  | net x => x.Within 0 netVideoBuf
  | audio x => x.Within 0 audioBufLen
  | callback _ => True

def frame? : StreamEffect → Option (List UInt8)
  | callback frame => some frame
  | _ => none

end StreamEffect

def ALawDecode (alaw : UInt8) : UInt16 :=
  let a := alaw ^^^ 0x55
  let sign := a &&& 0x80
  let linear := ((a &&& 0x1f).toUInt16 <<< 4) + 8
  let a := a &&& 0x7f
  let linear := if a ≥ 0x20 then (linear ||| 0x100) <<< ((a >>> 4).toUInt16 - 1) else linear
  if sign = 0 then -linear else linear

/-- What `ALawDecode_len` writes. -/
def ALawDecode_len (src : List UInt8) : List UInt8 := src.flatMap fun a => le16 (ALawDecode a).toNat

/-- What `LiveDataCallback2` does in the two buffers; `handle` is that of `av_info`. -/
def LiveDataCallback2 (handle : Int32) (data : Mem) : Traced StreamEffect Unit :=
  if handle < 0 then pure ()
  else if data 20 = 3 then do
    let len := word32 (data.read 0 4) 0
    emit (.audio (.write 0 (List.replicate audioBufLen 0)))
    emit (.audio (.write 0 (ALawDecode_len (data.read frameHead len))))
    -- ShowAudio
    emit (.audio (.read 0 (2 * len)))
  else pure ()

/-- The turns of `StreamThread` that find the thread running and the socket readable, each with the handle of `av_info`
then. They end with a frame that does not arrive. -/
def StreamThread : List Int32 → Mem → List (List UInt8) → Traced StreamEffect Unit
  | [], _, _ => pure ()
  | handle :: handles, buffer, s => do
    let r ← (Pieces.recvAt 0 frameHead s).relabel .net
    let len := word32 r.1 0
    -- For a length that is negative as an int Recv returns 0.
    if len ≥ 2147483648 then fail
    else do
      let q ← (Pieces.recvAt frameHead len r.2).relabel .net
      let buffer := (buffer.write 0 r.1).write frameHead q.1
      emit (.callback (buffer.read 0 (frameHead + len)))
      LiveDataCallback2 handle buffer
      StreamThread handles buffer q.2

/-- The frames that are handed on. -/
def delivered (t : Traced StreamEffect Unit) : List (List UInt8) := t.events.filterMap StreamEffect.frame?

/-- The frames are the bytes that came, and each is as long as its head announces. -/
def DeliversWhole (bs : List UInt8) (t : Traced StreamEffect Unit) : Prop :=
  (∃ rest, bs = (delivered t).flatten ++ rest) ∧
    ∀ f ∈ delivered t, frameHead ≤ f.length ∧ f.length = frameHead + word32 f 0

/-- Of each frame what arrives has room in the buffer, and an audio frame that arrives has room in the other. -/
def Fits : List Int32 → List UInt8 → Prop
  | [], _ => True
  | handle :: handles, bs =>
    frameHead ≤ bs.length → word32 bs 0 < 2147483648 →
      frameHead + min (word32 bs 0) (bs.length - frameHead) ≤ netVideoBuf ∧
      (frameHead + word32 bs 0 ≤ bs.length →
        (0 ≤ handle → bs.getD 20 0 = 3 → 2 * word32 bs 0 ≤ audioBufLen) ∧
        Fits handles (bs.drop (frameHead + word32 bs 0)))

/-! ## The callback -/

theorem length_ALawDecode_len (src : List UInt8) : (ALawDecode_len src).length = 2 * src.length := by
  induction src with
  | nil => rfl
  | cons a src ih =>
    rw [ALawDecode_len, List.flatMap_cons, List.length_append, ← ALawDecode_len, ih, le16_length, List.length_cons]
    omega

theorem value_callback (handle : Int32) (data : Mem) : (LiveDataCallback2 handle data).value = some () := by
  unfold LiveDataCallback2
  split
  · rfl
  · split <;> rfl

theorem callback_stays_iff (handle : Int32) (data : Mem) :
    (∀ e ∈ (LiveDataCallback2 handle data).events, e.InBuffers) ↔
      (0 ≤ handle → data 20 = 3 → 2 * word32 (data.read 0 4) 0 ≤ audioBufLen) := by
  unfold LiveDataCallback2
  by_cases hh : handle < 0
  · rw [if_pos hh]
    exact iff_of_true nofun fun h => absurd h (Int32.not_le.mpr hh)
  rw [if_neg hh]
  by_cases ht : data 20 = 3
  · rw [if_pos ht]
    have hlen := length_ALawDecode_len (data.read frameHead (word32 (data.read 0 4) 0))
    rw [Mem.read_length] at hlen
    constructor
    · intro h _ _
      have hread := h (.audio (.read 0 (2 * word32 (data.read 0 4) 0))) (by simp [bind_some (value_emit _)])
      have hle := hread.2
      rwa [Nat.zero_add] at hle
    · intro h e he
      have hle := h (Int32.not_lt.mp hh) ht
      simp only [bind_some (value_emit _), events_emit, List.singleton_append, List.mem_cons, List.not_mem_nil, or_false] at he
      rcases he with rfl | rfl | rfl
      · exact ⟨Nat.le_refl 0, Nat.le_of_eq (by rw [List.length_replicate, Nat.zero_add])⟩
      · exact ⟨Nat.le_refl 0, by rw [hlen, Nat.zero_add]; exact hle⟩
      · exact ⟨Nat.le_refl 0, by rw [Nat.zero_add]; exact hle⟩
  · rw [if_neg ht]
    exact iff_of_true nofun fun _ h => absurd h ht

theorem frame?_callback (handle : Int32) (data : Mem) :
    (LiveDataCallback2 handle data).events.filterMap StreamEffect.frame? = [] := by
  unfold LiveDataCallback2
  split
  · rfl
  · split <;> rfl

/-! ## A turn -/

theorem net_stays_iff {a n : ℕ} (ha : a ≤ netVideoBuf) (s : List (List UInt8)) :
    (∀ e ∈ ((Pieces.recvAt a n s).relabel StreamEffect.net).events, e.InBuffers) ↔
      a + min n s.flatten.length ≤ netVideoBuf := by
  rw [← Pieces.recvAt_within_iff s ha, events_relabel]
  simp only [List.forall_mem_map]
  rfl

theorem frame?_net (xs : List Access) : (xs.map StreamEffect.net).filterMap StreamEffect.frame? = [] := by
  induction xs with
  | nil => rfl
  | cons x xs ih => exact ih

variable (handle : Int32) (handles : List Int32) (buffer : Mem) {s : List (List UInt8)}

/-- The head does not arrive. -/
theorem turn_short (h : s.flatten.length < frameHead) : StreamThread (handle :: handles) buffer s =
    ⟨none, (Pieces.recvAt 0 frameHead s).events.map .net⟩ := by
  unfold StreamThread
  have hr : ((Pieces.recvAt 0 frameHead s).relabel StreamEffect.net).value = none :=
    (Pieces.value_recvAt ..).trans (Pieces.recv_short h)
  rw [bind_none hr]
  rfl

/-- The head arrives: what is left to do. -/
theorem turn_head (h : frameHead ≤ s.flatten.length) : ∃ s₁, s₁.flatten = s.flatten.drop frameHead ∧
    StreamThread (handle :: handles) buffer s =
      let rest : Traced StreamEffect Unit :=
        if word32 s.flatten 0 ≥ 2147483648 then fail
        else do
          let q ← (Pieces.recvAt frameHead (word32 s.flatten 0) s₁).relabel .net
          let buffer := (buffer.write 0 (s.flatten.take frameHead)).write frameHead q.1
          emit (.callback (buffer.read 0 (frameHead + word32 s.flatten 0)))
          LiveDataCallback2 handle buffer
          StreamThread handles buffer q.2
      ⟨rest.value, (Pieces.recvAt 0 frameHead s).events.map .net ++ rest.events⟩ := by
  obtain ⟨s₁, hr, hs₁⟩ := Pieces.recv_flatten h
  have hv : ((Pieces.recvAt 0 frameHead s).relabel StreamEffect.net).value = some (s.flatten.take frameHead, s₁) :=
    (Pieces.value_recvAt ..).trans hr
  refine ⟨s₁, hs₁, ?_⟩
  conv => lhs; unfold StreamThread
  rw [bind_some hv]
  simp only [word32_take (by decide : 4 ≤ frameHead) h]
  rfl

theorem turn_negative (h : frameHead ≤ s.flatten.length) (hlen : ¬ word32 s.flatten 0 < 2147483648) :
    (StreamThread (handle :: handles) buffer s).events = (Pieces.recvAt 0 frameHead s).events.map .net := by
  obtain ⟨s₁, -, hturn⟩ := turn_head handle handles buffer h
  rw [hturn, if_pos (Nat.not_lt.mp hlen)]
  exact List.append_nil _

theorem turn_cut (h : frameHead ≤ s.flatten.length) (hlen : word32 s.flatten 0 < 2147483648)
    (hcut : s.flatten.length < frameHead + word32 s.flatten 0) : ∃ s₁, s₁.flatten = s.flatten.drop frameHead ∧
    (StreamThread (handle :: handles) buffer s).events = (Pieces.recvAt 0 frameHead s).events.map .net ++
      (Pieces.recvAt frameHead (word32 s.flatten 0) s₁).events.map .net := by
  obtain ⟨s₁, hs₁, hturn⟩ := turn_head handle handles buffer h
  have hshort : s₁.flatten.length < word32 s.flatten 0 := by
    rw [hs₁, List.length_drop]
    omega
  have hr : ((Pieces.recvAt frameHead (word32 s.flatten 0) s₁).relabel StreamEffect.net).value = none :=
    (Pieces.value_recvAt ..).trans (Pieces.recv_short hshort)
  refine ⟨s₁, hs₁, ?_⟩
  rw [hturn, if_neg (Nat.not_le.mpr hlen), bind_none hr]
  rfl

theorem turn_frame (h : frameHead + word32 s.flatten 0 ≤ s.flatten.length) (hlen : word32 s.flatten 0 < 2147483648) :
    ∃ s₁ s₂ data, s₁.flatten = s.flatten.drop frameHead ∧ s₂.flatten = s.flatten.drop (frameHead + word32 s.flatten 0) ∧
      data.read 0 (frameHead + word32 s.flatten 0) = s.flatten.take (frameHead + word32 s.flatten 0) ∧
      (StreamThread (handle :: handles) buffer s).events = (Pieces.recvAt 0 frameHead s).events.map .net ++
        ((Pieces.recvAt frameHead (word32 s.flatten 0) s₁).events.map .net ++
          .callback (s.flatten.take (frameHead + word32 s.flatten 0)) ::
            ((LiveDataCallback2 handle data).events ++ (StreamThread handles data s₂).events)) := by
  have hhead : frameHead ≤ s.flatten.length := Nat.le_trans (Nat.le_add_right ..) h
  obtain ⟨s₁, hs₁, hturn⟩ := turn_head handle handles buffer hhead
  have hbody : word32 s.flatten 0 ≤ s₁.flatten.length := by
    rw [hs₁, List.length_drop]
    omega
  obtain ⟨s₂, hr, hs₂⟩ := Pieces.recv_flatten hbody
  have hv : ((Pieces.recvAt frameHead (word32 s.flatten 0) s₁).relabel StreamEffect.net).value = some (_, s₂) :=
    (Pieces.value_recvAt ..).trans hr
  have hdata : (buffer.write 0 (s.flatten.take frameHead)).write frameHead (s₁.flatten.take (word32 s.flatten 0)) =
      buffer.write 0 (s.flatten.take (frameHead + word32 s.flatten 0)) := by
    have happ := Mem.write_write_append buffer 0 (s.flatten.take frameHead) (s₁.flatten.take (word32 s.flatten 0))
    rw [List.length_take_of_le hhead, Nat.zero_add] at happ
    rw [happ, hs₁, ← List.take_add]
  have hread : (buffer.write 0 (s.flatten.take (frameHead + word32 s.flatten 0))).read 0 (frameHead + word32 s.flatten 0) =
      s.flatten.take (frameHead + word32 s.flatten 0) := by
    have hall := Mem.read_write buffer 0 (s.flatten.take (frameHead + word32 s.flatten 0))
    rwa [List.length_take_of_le h] at hall
  refine ⟨s₁, s₂, buffer.write 0 (s.flatten.take (frameHead + word32 s.flatten 0)), hs₁, ?_, hread, ?_⟩
  · rw [hs₂, hs₁, List.drop_drop]
  · rw [hturn, if_neg (Nat.not_le.mpr hlen), bind_some hv]
    simp only [hdata, hread]
    rw [bind_some (value_emit _), bind_some (value_callback ..)]
    rfl

/-! ## The run -/

theorem callback_reads {bs : List UInt8} {n : ℕ} {data : Mem} (h : data.read 0 n = bs.take n) (hn : frameHead ≤ n)
    (hle : n ≤ bs.length) : data 20 = bs.getD 20 0 ∧ word32 (data.read 0 4) 0 = word32 bs 0 := by
  unfold frameHead at hn
  constructor
  · have hget := Mem.getElem?_read data 0 (show 20 < n by omega)
    rw [h, List.getElem?_take_of_lt (by omega), Nat.zero_add] at hget
    rw [List.getD_eq_getElem?_getD, hget, Option.getD_some]
  · rw [Mem.read_take data 0 (show 4 ≤ n by omega), h, List.take_take, Nat.min_eq_left (by omega),
      word32_take (Nat.le_refl 4) (by omega)]

theorem thread_stays_iff : ∀ (handles : List Int32) (buffer : Mem) (s : List (List UInt8)),
    (∀ e ∈ (StreamThread handles buffer s).events, e.InBuffers) ↔ Fits handles s.flatten
  | [], _, _ => iff_of_true nofun trivial
  | handle :: handles, buffer, s => by
    have hhead : ∀ e ∈ (Pieces.recvAt 0 frameHead s).events.map StreamEffect.net, e.InBuffers := by
      refine (net_stays_iff (Nat.zero_le _) s).mpr ?_
      rw [Nat.zero_add]
      exact Nat.le_trans (Nat.min_le_left ..) (by decide)
    by_cases h : frameHead ≤ s.flatten.length
    swap
    · rw [turn_short handle handles buffer (Nat.not_le.mp h)]
      exact iff_of_true hhead fun hle => absurd hle h
    by_cases hlen : word32 s.flatten 0 < 2147483648
    swap
    · rw [turn_negative handle handles buffer h hlen]
      exact iff_of_true hhead fun _ hlt => absurd hlt hlen
    by_cases hall : frameHead + word32 s.flatten 0 ≤ s.flatten.length
    swap
    · obtain ⟨s₁, hs₁, hevents⟩ := turn_cut handle handles buffer h hlen (Nat.not_le.mp hall)
      have hbody := net_stays_iff (n := word32 s.flatten 0) (by decide : frameHead ≤ netVideoBuf) s₁
      rw [hs₁, List.length_drop] at hbody
      rw [hevents, List.forall_mem_append, and_iff_right hhead]
      refine hbody.trans ⟨fun hle _ _ => ⟨hle, fun hn => absurd hn hall⟩, fun hf => (hf h hlen).1⟩
    · obtain ⟨s₁, s₂, data, hs₁, hs₂, hread, hevents⟩ := turn_frame handle handles buffer hall hlen
      have hbody := net_stays_iff (n := word32 s.flatten 0) (by decide : frameHead ≤ netVideoBuf) s₁
      rw [hs₁, List.length_drop] at hbody
      obtain ⟨htype, hword⟩ := callback_reads hread (Nat.le_add_right ..) hall
      have hcall := callback_stays_iff handle data
      rw [htype, hword] at hcall
      have hrest := thread_stays_iff handles data s₂
      rw [hs₂] at hrest
      rw [hevents, List.forall_mem_append, and_iff_right hhead, List.forall_mem_append, List.forall_mem_cons,
        List.forall_mem_append, hcall, hrest]
      refine (and_congr hbody (and_iff_right trivial)).trans ?_
      exact ⟨fun hf _ _ => ⟨hf.1, fun _ => hf.2⟩, fun hf => ⟨(hf h hlen).1, (hf h hlen).2 hall⟩⟩

theorem delivered_of_events {t : Traced StreamEffect Unit} {xs : List Access} {es : List StreamEffect}
    (h : t.events = xs.map .net ++ es) : delivered t = es.filterMap StreamEffect.frame? := by
  rw [delivered, h, List.filterMap_append, frame?_net, List.nil_append]

theorem delivers_nothing {bs : List UInt8} {t : Traced StreamEffect Unit} (h : delivered t = []) : DeliversWhole bs t := by
  refine ⟨⟨bs, ?_⟩, ?_⟩
  · rw [h]
    rfl
  · rw [h]
    exact List.forall_mem_nil _

theorem thread_delivers : ∀ (handles : List Int32) (buffer : Mem) (s : List (List UInt8)),
    DeliversWhole s.flatten (StreamThread handles buffer s)
  | [], _, _ => delivers_nothing rfl
  | handle :: handles, buffer, s => by
    by_cases h : frameHead ≤ s.flatten.length
    swap
    · rw [turn_short handle handles buffer (Nat.not_le.mp h)]
      exact delivers_nothing (frame?_net _)
    by_cases hlen : word32 s.flatten 0 < 2147483648
    swap
    · have hevents := turn_negative handle handles buffer h hlen
      exact delivers_nothing (delivered_of_events (hevents.trans (List.append_nil _).symm))
    by_cases hall : frameHead + word32 s.flatten 0 ≤ s.flatten.length
    swap
    · obtain ⟨s₁, -, hevents⟩ := turn_cut handle handles buffer h hlen (Nat.not_le.mp hall)
      exact delivers_nothing ((delivered_of_events hevents).trans (frame?_net _))
    · obtain ⟨s₁, s₂, data, -, hs₂, -, hevents⟩ := turn_frame handle handles buffer hall hlen
      obtain ⟨⟨rest, hrest⟩, hwhole⟩ := thread_delivers handles data s₂
      have hd : delivered (StreamThread (handle :: handles) buffer s) =
          s.flatten.take (frameHead + word32 s.flatten 0) :: delivered (StreamThread handles data s₂) := by
        rw [delivered_of_events hevents, List.filterMap_append, frame?_net, List.nil_append,
          List.filterMap_cons_some (f := StreamEffect.frame?) rfl, List.filterMap_append, frame?_callback, List.nil_append]
        rfl
      refine ⟨⟨rest, ?_⟩, fun f hf => ?_⟩
      · rw [hd, List.flatten_cons, List.append_assoc, ← hrest, hs₂, List.take_append_drop]
      · rw [hd, List.mem_cons] at hf
        rcases hf with rfl | hf
        · rw [List.length_take_of_le hall, word32_take (Nat.le_trans (by decide) (Nat.le_add_right frameHead _)) hall]
          exact ⟨Nat.le_add_right .., rfl⟩
        · exact hwhole f hf

/-- **Receive buffers.** The thread and its callback stay in the two buffers if and only if of each frame what arrives has
room in the one, and each audio frame has room in the other. In any case only whole frames are handed on. -/
theorem stream_buffers_iff (handles : List Int32) (buffer : Mem) (s : List (List UInt8)) :
    ((∀ e ∈ (StreamThread handles buffer s).events, e.InBuffers) ↔ Fits handles s.flatten) ∧
      DeliversWhole s.flatten (StreamThread handles buffer s) :=
  ⟨thread_stays_iff handles buffer s, thread_delivers handles buffer s⟩

/-- A frame of `n` zeros. -/
def zeroFrame (n : ℕ) (type : UInt8) : List UInt8 :=
  le32 n ++ List.replicate 16 0 ++ type :: List.replicate 11 0 ++ List.replicate n 0

theorem zeroFrame_length (n : ℕ) (type : UInt8) : (zeroFrame n type).length = frameHead + n := by
  simp [zeroFrame, frameHead]
  omega

theorem zeroFrame_word {n : ℕ} (hn : n < 4294967296) (type : UInt8) : word32 (zeroFrame n type) 0 = n := by
  rw [zeroFrame, List.append_assoc, List.append_assoc, word32_append_left (Nat.le_refl 4), word32_le32 hn]

theorem zeroFrame_type (n : ℕ) (type : UInt8) : (zeroFrame n type).getD 20 0 = type := rfl

/-- A video frame one byte too long for the buffer, and an audio frame of 4097 bytes. -/
theorem stream_buffers_overrun :
    ¬ (∀ e ∈ (StreamThread [0] (fun _ => 0) [zeroFrame 819169 1]).events, e.InBuffers) ∧
    ¬ (∀ e ∈ (StreamThread [0] (fun _ => 0) [zeroFrame 4097 3]).events, e.InBuffers) := by
  have hflat (f : List UInt8) : [f].flatten = f := List.flatten_singleton
  rw [thread_stays_iff, thread_stays_iff, hflat, hflat]
  constructor
  · intro h
    have hroom := (h (by rw [zeroFrame_length]; omega) (by rw [zeroFrame_word (by decide)]; decide)).1
    rw [zeroFrame_word (by decide), zeroFrame_length, Nat.add_sub_cancel_left, Nat.min_self] at hroom
    exact absurd hroom (by decide)
  · intro h
    have hf := (h (by rw [zeroFrame_length]; omega) (by rw [zeroFrame_word (by decide)]; decide)).2
    rw [zeroFrame_word (by decide), zeroFrame_length] at hf
    have haudio := (hf (Nat.le_refl _)).1 (by decide) (zeroFrame_type ..)
    exact absurd haudio (by decide)

end Uvc

end SabApp
