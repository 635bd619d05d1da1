import SabApp.Polls
import SabApp.PtcFrame

/-!
# Receiving a HY device's playback

A playback stream is a sequence of slices, cut into messages as the device likes. `tool_ptc_hy_recvPbs`
adds a message to the bytes it holds and takes one slice off their front. If nothing is left over, the
slice taken stays in the buffer, with a new head written into it, and the next call looks at it again:
only when no bytes of it look like the head of a slice is it thrown away.
-/

namespace SabApp

namespace Hy

inductive SliceKind where
  | i
  | p
  | a
  | t
  deriving DecidableEq

namespace SliceKind

/-- `avSliceType`. -/
def code : SliceKind → UInt8
  | i => 0xFD
  | p => 0xFC
  | a => 0xF0
  | t => 0xFA

def ofCode (c : UInt8) : Option SliceKind :=
  if c = i.code then some i
  else if c = p.code then some p
  else if c = a.code then some a
  else if c = t.code then some t
  else none

/-- `sizeof(hy_iframe_head_t)` and the others. -/
def headLen : SliceKind → ℕ
  | i => 40
  | p => 32
  | a => 28
  | t => 36

/-- Handed on, not skipped. -/
def media : SliceKind → Bool
  | i | p | a => true
  | t => false

/-- `PTC_FRAME_I`, `PTC_FRAME_P`, `PTC_FRAME_A`. -/
def frameType : SliceKind → UInt8
  | i => 1
  | p => 2
  | a => 3
  | t => 0

end SliceKind

def avHead : ℕ := 0x56415948

/-- A slice as the device sends it, no longer than the buffer. -/
structure Slice (size : ℕ) where
  kind : SliceKind
  /-- Between the type and the sequence number. -/
  sub : List UInt8
  seq : UInt32
  /-- The rest of the head: time and the fields of its kind. -/
  rest : List UInt8
  payload : List UInt8
  /-- `hy_frame_tail_t`. -/
  tail : List UInt8
  sub_len : sub.length = 3
  rest_len : 16 + rest.length = kind.headLen
  tail_len : tail.length = 8
  fits : kind.headLen + payload.length + 8 ≤ size

namespace Slice
variable {size : ℕ}

/-- `avSliceLength`. -/
def length (f : Slice size) : ℕ := f.kind.headLen + f.payload.length + 8

def head (f : Slice size) : List UInt8 :=
  le32 avHead ++ (f.kind.code :: f.sub) ++ le32 f.seq.toNat ++ le32 f.length ++ f.rest

def bytes (f : Slice size) : List UInt8 := f.head ++ (f.payload ++ f.tail)

/-- Kind and payload of a slice that is handed on. -/
def shown (f : Slice size) : Option (UInt8 × List UInt8) :=
  if f.kind.media then some (f.kind.frameType, f.payload) else none

end Slice

def magicAt (m : Mem) (a : ℕ) : Bool := word32 (m.read a 4) 0 = avHead

/-- Where the first bytes lie that look like a head, counted from the front. -/
def findMagic (b : RecvBuf) : Option ℕ := (List.range b.len).find? fun i => magicAt b.mem (32 + i)

/-- The adjusting in `tool_ptc_hy_checkPbsBuf`, none if no head is found. -/
def adjust (b : RecvBuf) : Option RecvBuf :=
  if magicAt b.mem 32 then some b
  else match findMagic b with
    | some i => some { b with mem := b.mem.write 32 (b.mem.read (32 + i) (b.len - i)), len := b.len - i }
    | none => none

/-- `tool_ptc_hy_checkPbsBuf`. -/
def checkPbsBuf (b : RecvBuf) : Bool × RecvBuf :=
  if b.len < 24 then (false, b)
  else match adjust b with
    | none => (false, { b with len := 0 })
    | some b =>
      let n := word32 (b.mem.read 32 16) 12
      if b.len < n then (false, b) else (true, { b with leftBuf := 32 + n, leftLen := b.len - n })

/-- The new head for a slice's head, and what it leaves; none for a kind that is skipped. The flag is
set only after the head has been copied. -/
def newHead (date2Time : FrameDate → UInt32) (it : SockItem) (k : SliceKind) (head : List UInt8) :
    Option (FrameHead × SockItem) :=
  let len := UInt32.ofNat (word32 head 12) - 8 - UInt32.ofNat k.headLen
  let no := UInt32.ofNat (word32 head 8)
  let sec := date2Time (dateOf (word32 head 16))
  let width := byteAt head 26 * 8
  let height := byteAt head 27 * 8
  let rate := byteAt head 31
  match k with
  | .i => some (⟨len, no, sec, 0, UInt16.ofNat width, UInt16.ofNat height, 1, 1, UInt8.ofNat rate, 0⟩,
      { it with width := Int32.ofNat width, height := Int32.ofNat height, fpsVideo := Int32.ofNat rate })
  | .p => some (⟨len, no, sec, 0, it.width.toUInt32.toUInt16, it.height.toUInt32.toUInt16, 2, 1,
      it.fpsVideo.toUInt32.toUInt8, 0⟩, it)
  | .a => some (⟨len, no, sec, 0, 0, 0, 3, 4, 8, 0⟩, it)
  | .t => none

/-- `tool_ptc_hy_recvPbsBuf`. -/
def recvPbsBuf (size : ℕ) (b : RecvBuf) : List (List UInt8) → Except Poll.Stop (RecvBuf × List (List UInt8))
  | [] => .error .wait
  | p :: ps =>
    if p = [] then .ok (b, ps)
    else if p.length + b.len > size then .error .failed
    else .ok (b.append p, ps)

/-- A playback stream with its socket, and the slices handed on so far as the caller reads them.
`spent` is history: the last call took a slice and had nothing left over. -/
structure PbsWorld where
  buf : RecvBuf
  item : SockItem
  sock : List (List UInt8)
  outs : List (List UInt8)
  spent : Bool

namespace PbsWorld
variable (date2Time : FrameDate → UInt32) (size : ℕ)

/-- `tool_ptc_hy_hy2qh`, and the caller reads the frame. -/
def hy2qh (w : PbsWorld) (b : RecvBuf) : Except Poll.Stop PbsWorld :=
  match SliceKind.ofCode (b.mem 36) with
  | some k =>
    match newHead date2Time w.item k (b.mem.read 32 k.headLen) with
    | some (h, item) =>
      let mem := b.mem.write k.headLen h.bytes
      .ok { w with buf := { b with mem := mem }, item := item,
                   outs := w.outs ++ [mem.read k.headLen (h.len + 32).toNat] }
    | none => .ok { w with buf := b }
  | none => .error .failed

/-- `tool_ptc_hy_recvPbs` after a `tool_ptc_hy_checkPbsBuf` that found a slice. -/
def deliver (w : PbsWorld) (b : RecvBuf) : Except Poll.Stop PbsWorld :=
  { w with spent := b.leftLen = 0 }.hy2qh date2Time b

/-- `tool_ptc_hy_recvPbs` from `tool_ptc_hy_recvPbsBuf` on. -/
def fetch (w : PbsWorld) (b : RecvBuf) : Except Poll.Stop PbsWorld :=
  match recvPbsBuf size b w.sock with
  | .ok (b, sock) =>
    let r := checkPbsBuf b
    if r.1 then { w with sock := sock }.deliver date2Time r.2
    else .ok { w with sock := sock, buf := r.2, spent := false }
  | .error e => .error e

/-- `tool_ptc_hy_recvPbs`. -/
def recvPbs (w : PbsWorld) : Except Poll.Stop PbsWorld :=
  let r := checkPbsBuf w.buf.move
  if r.1 then w.deliver date2Time r.2 else w.fetch date2Time size r.2

/-- A stream before its first message, with anything in its buffer and its socket's fields. -/
def start (mem : Mem) (leftBuf : ℕ) (item : SockItem) (ps : List (List UInt8)) : PbsWorld :=
  ⟨⟨mem, 0, leftBuf, 0⟩, item, ps, [], false⟩

/-- A slice that has been taken and fills the buffer holds no bytes that look like a head. -/
def Quiet (w : PbsWorld) : Prop := w.spent = true → findMagic w.buf = none

end PbsWorld

end Hy

end SabApp
