import SabApp.Pieces
import SabApp.PtcFrame

/-!
# H.264 over interleaved RTP (tool_ptc.c)

`tool_ptc_rtp_recvTcp_video` reads packets up to one with the marker bit and lays the NAL units they
carry one behind the other, each behind a start code. A unit travels in a packet of its own or in
FU-A fragments; the first fragment has the start bit, and the unit's header is rebuilt from the
indicator and the fragment's header. Each packet has to fit the reader's limits before its kind is
known.
-/

namespace SabApp

namespace Rtp

/-- PTC_VIDEO_FRAME_SIZE -/
def videoFrameSize : ℕ := 512000

/-- RTP_PKT_SIZE -/
def pktSize : ℕ := 2048

def startCode : List UInt8 := [0, 0, 0, 1]

/-- ntohs of the two bytes at `i`. -/
def be16 (bs : List UInt8) (i : ℕ) : ℕ := byteAt bs i * 256 + byteAt bs (i + 1)

/-- `rtp_fu_indicator_t` and, with `s` above `e` and `r` in place of `f` and `nri`, `rtp_fu_head_t`. -/
def type (b : UInt8) : ℕ := b.toNat % 32

def nri (b : UInt8) : ℕ := b.toNat / 32 % 4

def startBit (b : UInt8) : Bool := b.toNat / 128 = 1

def setType (b : UInt8) (t : ℕ) : UInt8 := .ofNat (b.toNat / 32 * 32 + t)

/-- RTP_PT_H264 and the other payload types taken for it. -/
def isH264 (pt : ℕ) : Bool := pt = 96 || pt = 99 || pt = 100 || pt = 98

/-- `ptc_frame_video_t`. -/
structure VideoFrame where
  head : FrameHead
  body : Mem

/-- The fields of `tool_sock_item_t` that count the frames of each second. -/
structure Counts where
  width : Int32
  height : Int32
  sec : Int32
  fpsVideo : Int32
  countVideo : List Int32
  fpsAudio : Int32
  countAudio : List Int32

/-- The frame under way, with `len`, `sps_len` and `last_ts`. -/
structure Unpacked where
  frame : VideoFrame
  len : ℕ
  spsLen : ℕ
  lastTs : UInt32

abbrev Stream := List (List UInt8)

namespace Unpacked

def setKind (u : Unpacked) (frameType frameSubType : UInt8) : Unpacked :=
  { u with frame.head.frameType := frameType, frame.head.frameSubType := frameSubType }

/-- Bytes go behind what has been laid down. -/
def put (u : Unpacked) (bs : List UInt8) : Unpacked :=
  { u with frame.body := u.frame.body.write u.len bs, len := u.len + bs.length }

/-- The header of a NAL unit, behind a start code. -/
def openNal (u : Unpacked) (header : UInt8) : Unpacked := (u.put startCode).put [header]

/-- PTC_FRAME_I or PTC_FRAME_P, and RTP_PKT_TYPE_SPS. -/
def noteNal (u : Unpacked) (header : UInt8) (dataLen : ℕ) : Unpacked :=
  { u.setKind (if nri header = 2 ∨ nri header = 0 then 2 else 1) 1 with
    spsLen := if type header = 7 then dataLen else u.spsLen }

/-- The packet's payload header; a payload that is shorter makes a length the next read refuses. -/
def recvNal (u : Unpacked) (dataLen : ℕ) (s : Stream) : Option (Unpacked × ℕ × Stream) :=
  match Pieces.recv 1 s with
  | none => none
  | some (b, s) =>
    let indicator := b.headD 0
    if type indicator = 28 then
      match Pieces.recv 1 s with
      | none => none
      | some (b, s) =>
        let fuHead := b.headD 0
        let header := setType indicator (type fuHead)
        if dataLen < 2 then none
        else some ((if startBit fuHead then u.openNal header else u).noteNal header (dataLen - 2), dataLen - 2, s)
    else if dataLen < 1 then none
    else some ((u.openNal indicator).noteNal indicator (dataLen - 1), dataLen - 1, s)

def recvKind (u : Unpacked) (pt dataLen : ℕ) (s : Stream) : Option (Unpacked × ℕ × Stream) :=
  if isH264 pt then u.recvNal dataLen s
  else if pt = 0 then some (u.setKind 3 3, dataLen, s)
  else if pt = 8 then some (u.setKind 3 1, dataLen, s)
  else some (u.setKind 0 0, dataLen, s)

/-- One turn of the loop: the state, the marker bit and the stream after it; `none` is -1. -/
def recvPacket (u : Unpacked) (s : Stream) : Option (Unpacked × Bool × Stream) :=
  match Pieces.recv 4 s with
  | none => none
  | some (tcp, s) =>
    let pktLen := be16 tcp 2
    if byteAt tcp 0 ≠ 0x24 ∨ pktLen < 12 ∨ pktLen > pktSize then none
    else
      match Pieces.recv 12 s with
      | none => none
      | some (rtp, s) =>
        let pt := byteAt rtp 1 % 128
        let m := byteAt rtp 1 / 128 = 1
        let ts := UInt32.ofNat (word32 rtp 4)
        let u := if u.lastTs ≠ ts then { u with len := 0, spsLen := 0 } else u
        if u.len + (pktLen - 12) + 4 > videoFrameSize then none
        else
          match u.recvKind pt (pktLen - 12) s with
          | none => none
          | some (u, dataLen, s) =>
            match Pieces.recv dataLen s with
            | none => none
            | some (data, s) => some ({ u.put data with lastTs := ts }, m, s)

/-- The loop; each turn takes a head, so the length of the stream is fuel enough. -/
def recvPackets : ℕ → Unpacked → Stream → Option (Unpacked × Stream)
  | 0, _, _ => none
  | n + 1, u, s =>
    match u.recvPacket s with
    | none => none
    | some (u, m, s) => if m ∨ u.frame.head.frameType = 3 then some (u, s) else recvPackets n u s

end Unpacked

namespace Counts

/-- The frames counted in the second before go into the average of nine. -/
def shift (counts : List Int32) : List Int32 := 0 :: counts.take 9

def average (counts : List Int32) : Int32 := (counts.drop 1).foldl (· + ·) 0 / 9

def tick (c : Counts) (sec : Int32) : Counts :=
  if c.sec ≠ sec then
    { c with
      sec := sec, countVideo := shift c.countVideo, fpsVideo := average (shift c.countVideo)
      countAudio := shift c.countAudio, fpsAudio := average (shift c.countAudio) }
  else c

def bump : List Int32 → List Int32
  | [] => []
  | n :: ns => (n + 1) :: ns

/-- The frame is counted, and gets its rate. -/
def count (c : Counts) (h : FrameHead) : Counts × FrameHead :=
  if h.frameType = 1 ∨ h.frameType = 2 then
    ({ c with countVideo := bump c.countVideo }, { h with frameRate := c.fpsVideo.toUInt32.toUInt8 })
  else if h.frameType = 3 then
    ({ c with countAudio := bump c.countAudio }, { h with frameRate := c.fpsAudio.toUInt32.toUInt8 })
  else (c, h)

end Counts

/-- `tool_ptc_rtp_recvTcp_video`, with what is left of the stream. `sps` is the decoder of a parameter set,
given its first bytes and the size known so far; `now` is the clock. -/
def recvTcpVideo (sps : List UInt8 → Int32 × Int32 → Int32 × Int32) (now : UInt32 × UInt32) (c : Counts) (f : VideoFrame)
    (s : Stream) : Option (VideoFrame × Counts × Stream) :=
  match Unpacked.recvPackets s.flatten.length ⟨f, 0, 0, 0xFFFFFFFF⟩ s with
  | none => none
  | some (u, s) =>
    let size := if u.spsLen = 0 then (c.width, c.height) else
      let size := sps (u.frame.body.read 5 u.spsLen) (c.width, c.height)
      if size = (1920, 1088) then (1920, 1080) else size
    let h := { u.frame.head with
      len := .ofNat u.len, width := size.1.toUInt32.toUInt16, height := size.2.toUInt32.toUInt16 }
    let r := ({ c with width := size.1, height := size.2 }.tick now.1.toInt32).count h
    some (⟨{ r.2 with sec := now.1, usec := now.2 }, u.frame.body⟩, r.1, s)

/-! ## What the call returns -/

namespace Counts

@[simp] theorem count_len (c : Counts) (h : FrameHead) : (c.count h).2.len = h.len := by
  unfold count
  split
  · rfl
  · split <;> rfl

@[simp] theorem count_frameType (c : Counts) (h : FrameHead) : (c.count h).2.frameType = h.frameType := by
  unfold count
  split
  · rfl
  · split <;> rfl

@[simp] theorem count_head (c : Counts) (h : FrameHead) : (c.count h).2.frameSubType = h.frameSubType ∧
    (c.count h).2.width = h.width ∧ (c.count h).2.height = h.height := by
  unfold count
  split
  · exact ⟨rfl, rfl, rfl⟩
  · split <;> exact ⟨rfl, rfl, rfl⟩

@[simp] theorem count_size (c : Counts) (h : FrameHead) :
    (c.count h).1.width = c.width ∧ (c.count h).1.height = c.height := by
  unfold count
  split
  · exact ⟨rfl, rfl⟩
  · split <;> exact ⟨rfl, rfl⟩

@[simp] theorem tick_size (c : Counts) (sec : Int32) : (c.tick sec).width = c.width ∧ (c.tick sec).height = c.height := by
  unfold tick
  split <;> exact ⟨rfl, rfl⟩

end Counts

/-- The state of the call before its loop. -/
def begun (f : VideoFrame) : Unpacked := ⟨f, 0, 0, 0xFFFFFFFF⟩

/-- Where the parameter set is that the decoder is given, and its length. -/
def Unpacked.spsRange (u : Unpacked) : Option (ℕ × ℕ) := if u.spsLen = 0 then none else some (5, u.spsLen)

/-- The decoder's size; the rows that fill the last macroblocks are not shown. -/
def crop (size : Int32 × Int32) : Int32 × Int32 := if size = (1920, 1088) then (1920, 1080) else size

/-- The size after a frame, by what the decoder is given of its body. -/
def sized (sps : List UInt8 → Int32 × Int32 → Int32 × Int32) (body : Mem) (size : Int32 × Int32) :
    Option (ℕ × ℕ) → Int32 × Int32
  | none => size
  | some (a, n) => crop (sps (body.read a n) size)

/-- What the call makes of the frame that its loop ends with. -/
structure Unpacked.Returned (u : Unpacked) (sps : List UInt8 → Int32 × Int32 → Int32 × Int32) (c c' : Counts)
    (r : VideoFrame) : Prop where
  len : r.head.len = .ofNat u.len
  frameType : r.head.frameType = u.frame.head.frameType
  frameSubType : r.head.frameSubType = u.frame.head.frameSubType
  width : r.head.width = c'.width.toUInt32.toUInt16
  height : r.head.height = c'.height.toUInt32.toUInt16
  body : r.body = u.frame.body
  size : (c'.width, c'.height) = sized sps r.body (c.width, c.height) u.spsRange

section
variable {sps : List UInt8 → Int32 × Int32 → Int32 × Int32} {now : UInt32 × UInt32} {c : Counts} {f : VideoFrame}
  {s : Stream}

variable (sps now c) in
theorem recvTcpVideo_of_some {u : Unpacked} {s' : Stream} (h : (begun f).recvPackets s.flatten.length s = some (u, s')) :
    ∃ r c', recvTcpVideo sps now c f s = some (r, c', s') ∧ u.Returned sps c c' r := by
  rw [recvTcpVideo, ← begun, h]
  refine ⟨_, _, rfl, ⟨?_, ?_, ?_, ?_, ?_, rfl, ?_⟩⟩
  · simp
  · simp
  · simp
  · simp
  · simp
  · simp only [Counts.count_size, Counts.tick_size, Unpacked.spsRange]
    split
    · rfl
    · rfl

theorem recvTcpVideo_of_none (h : (begun f).recvPackets s.flatten.length s = none) : recvTcpVideo sps now c f s = none := by
  rw [recvTcpVideo, ← begun, h]

theorem recvTcpVideo_some {r : VideoFrame} {c' : Counts} {s' : Stream} (h : recvTcpVideo sps now c f s = some (r, c', s')) :
    ∃ u, (begun f).recvPackets s.flatten.length s = some (u, s') ∧ u.Returned sps c c' r := by
  cases hp : (begun f).recvPackets s.flatten.length s with
  | none =>
    rw [recvTcpVideo_of_none hp] at h
    cases h
  | some p =>
    obtain ⟨r', c'', hr, hret⟩ := recvTcpVideo_of_some sps now c hp
    rw [hr] at h
    cases h
    exact ⟨p.1, rfl, hret⟩

end

/-! ## What a turn takes from the stream -/

namespace Unpacked

theorem recvNal_some {u : Unpacked} {n : ℕ} {s : Stream} {r : Unpacked × ℕ × Stream} (h : u.recvNal n s = some r) :
    ∃ bs, s.flatten = bs ++ r.2.2.flatten ∧ bs.length + r.2.1 = n := by
  unfold recvNal at h
  cases h₁ : Pieces.recv 1 s with
  | none =>
    rw [h₁] at h
    cases h
  | some q =>
    obtain ⟨hl, hs⟩ := Pieces.recv_some h₁
    rw [h₁] at h
    dsimp only at h
    split at h
    · cases h₂ : Pieces.recv 1 q.2 with
      | none =>
        rw [h₂] at h
        cases h
      | some q' =>
        obtain ⟨hl', hs'⟩ := Pieces.recv_some h₂
        rw [h₂] at h
        dsimp only at h
        split at h
        · cases h
        · cases h
          refine ⟨q.1 ++ q'.1, by rw [hs, hs', List.append_assoc], ?_⟩
          dsimp only
          rw [List.length_append]
          omega
    · split at h
      · cases h
      · cases h
        refine ⟨q.1, hs, ?_⟩
        dsimp only
        omega

theorem recvKind_some {u : Unpacked} {pt n : ℕ} {s : Stream} {r : Unpacked × ℕ × Stream} (h : u.recvKind pt n s = some r) :
    ∃ bs, s.flatten = bs ++ r.2.2.flatten ∧ bs.length + r.2.1 = n := by
  unfold recvKind at h
  split at h
  · exact recvNal_some h
  have hkind : ∀ v : Unpacked, some (v, n, s) = some r →
      ∃ bs, s.flatten = bs ++ r.2.2.flatten ∧ bs.length + r.2.1 = n := by
    intro v hv
    cases hv
    exact ⟨[], rfl, Nat.zero_add n⟩
  split at h
  · exact hkind _ h
  split at h
  · exact hkind _ h
  · exact hkind _ h

/-- A packet is taken as a whole. -/
theorem recvPacket_some {u : Unpacked} {s : Stream} {r : Unpacked × Bool × Stream} (h : u.recvPacket s = some r) :
    ∃ bs, s.flatten = bs ++ r.2.2.flatten ∧ bs.length = 4 + be16 bs 2 ∧ 16 ≤ bs.length := by
  unfold recvPacket at h
  cases h₁ : Pieces.recv 4 s with
  | none =>
    rw [h₁] at h
    cases h
  | some tcp =>
    obtain ⟨hl₁, hs₁⟩ := Pieces.recv_some h₁
    rw [h₁] at h
    dsimp only at h
    split at h
    · cases h
    next hhead =>
    cases h₂ : Pieces.recv 12 tcp.2 with
    | none =>
      rw [h₂] at h
      cases h
    | some rtp =>
      obtain ⟨hl₂, hs₂⟩ := Pieces.recv_some h₂
      rw [h₂] at h
      dsimp only at h
      generalize (if u.lastTs ≠ UInt32.ofNat (word32 rtp.1 4) then { u with len := 0, spsLen := 0 } else u) = v at h
      split at h
      · cases h
      split at h
      · cases h
      next h₃ =>
      obtain ⟨bs, hs₃, hl₃⟩ := recvKind_some h₃
      dsimp only at hs₃ hl₃
      split at h
      · cases h
      next data s₄ h₄ =>
      obtain ⟨hl₄, hs₄⟩ := Pieces.recv_some h₄
      cases h
      have hlen : be16 (tcp.1 ++ (rtp.1 ++ (bs ++ data))) 2 = be16 tcp.1 2 := by
        unfold be16
        rw [byteAt_append_left (by omega), byteAt_append_left (by omega)]
      refine ⟨tcp.1 ++ (rtp.1 ++ (bs ++ data)), by rw [hs₁, hs₂, hs₃, hs₄]; simp only [List.append_assoc], ?_, ?_⟩
      · rw [hlen]
        simp only [List.length_append]
        omega
      · simp only [List.length_append]
        omega

end Unpacked

end Rtp

end SabApp
