import SabApp.Polls
import SabApp.PtcFrame

/-!
# Receiving media from an XM device

The device sends frames of five kinds, cut into packets as it likes. `tool_ptc_xm_recvRts` adds a
packet to the bytes it holds and takes one frame off their front; what is left is moved to the front
by the next call. A packet that begins like a frame starts the buffer afresh, whatever is held.
-/

namespace SabApp

namespace Xm

inductive FrameKind where
  | vi
  | vp
  | a
  | pic
  | info
  deriving DecidableEq

namespace FrameKind

/-- `XM_FRAME_TYPE_VI` and the others. -/
def type : FrameKind → ℕ
  | vi => 0xFC010000
  | vp => 0xFD010000
  | a => 0xFA010000
  | pic => 0xFE010000
  | info => 0xF9010000

def ofType (t : ℕ) : Option FrameKind :=
  if t = vi.type then some vi
  else if t = vp.type then some vp
  else if t = a.type then some a
  else if t = pic.type then some pic
  else if t = info.type then some info
  else none

/-- Handed on, not skipped. -/
def media : FrameKind → Bool
  | vi | vp | a => true
  | pic | info => false

/-- `sizeof(xm_iframe_head_t)` and the others. -/
def headLen : FrameKind → ℕ
  | vi | pic => 16
  | vp | a | info => 8

/-- The bytes of a head between its type and its length. -/
def midLen : FrameKind → ℕ
  | vi | pic => 8
  | vp => 0
  | a | info => 2

/-- The length in a head. -/
def length (k : FrameKind) (head : List UInt8) : ℕ :=
  match k with
  | vi | pic => word32 head 12
  | vp => word32 head 4
  | a | info => word16 head 6

def lengthBytes (k : FrameKind) (n : ℕ) : List UInt8 :=
  match k with
  | vi | pic | vp => le32 n
  | a | info => le16 n

/-- The lengths that the field can hold. -/
def lengthBound : FrameKind → ℕ
  | vi | pic | vp => 4294967296
  | a | info => 65536

/-- `PTC_FRAME_I`, `PTC_FRAME_P`, `PTC_FRAME_A`. -/
def frameType : FrameKind → UInt8
  | vi => 1
  | vp => 2
  | a => 3
  | pic | info => 0

end FrameKind

/-- A frame as the device sends it, no longer than the buffer. -/
structure MediaFrame (size : ℕ) where
  kind : FrameKind
  mid : List UInt8
  payload : List UInt8
  mid_len : mid.length = kind.midLen
  len_lt : payload.length < kind.lengthBound
  fits : kind.headLen + payload.length ≤ size

namespace MediaFrame
variable {size : ℕ}

def head (f : MediaFrame size) : List UInt8 := le32 f.kind.type ++ f.mid ++ f.kind.lengthBytes f.payload.length

def bytes (f : MediaFrame size) : List UInt8 := f.head ++ f.payload

/-- Kind and payload of a frame that is handed on. -/
def shown (f : MediaFrame size) : Option (UInt8 × List UInt8) :=
  if f.kind.media then some (f.kind.frameType, f.payload) else none

end MediaFrame

/-- A message of the stream: `head_flag` is 0xFF, and of the rest of its head only what a peek
behind the message before it can see is kept. -/
structure Packet where
  version : UInt8
  reserve1 : UInt8
  data : List UInt8

/-- A video frame moves the clock on by nine tenths of its time. -/
def advance (it : SockItem) : SockItem :=
  let fps := if it.fpsVideo < 1 ∨ it.fpsVideo > 30 then 30 else it.fpsVideo
  let usec := it.usec + 900000 / fps
  if usec ≥ 1000000 then { it with fpsVideo := fps, sec := it.sec + 1, usec := usec % 1000000 }
  else { it with fpsVideo := fps, usec := usec }

/-- `PTC_FRAME_FLAG`. -/
def frameFlag : UInt32 := 0x53535353

section
variable (date2Time : FrameDate → UInt32)

/-- The part of `tool_ptc_xm_xm2qh` for I frames: the new head, and what it leaves. -/
def iHead (it : SockItem) (head : List UInt8) : FrameHead × SockItem :=
  let sec := date2Time (dateOf (word32 head 8))
  let width := (byteAt head 4 / 16 % 4 * 256 + byteAt head 6) * 8
  let height := (byteAt head 4 / 64 * 256 + byteAt head 7) * 8
  let subType := if byteAt head 4 % 16 = 1 then 3 else 1
  let rate := byteAt head 5 % 32
  (⟨UInt32.ofNat (word32 head 12), it.seq.toUInt32, sec, it.usec.toUInt32, UInt16.ofNat width,
      UInt16.ofNat height, 1, UInt8.ofNat subType, UInt8.ofNat rate, frameFlag⟩,
    advance ⟨Int32.ofNat width, Int32.ofNat height, sec.toInt32, it.usec, Int32.ofNat rate, it.seq + 1,
      Int32.ofNat subType⟩)

def pHead (it : SockItem) (head : List UInt8) : FrameHead × SockItem :=
  (⟨UInt32.ofNat (word32 head 4), it.seq.toUInt32, it.sec.toUInt32, it.usec.toUInt32, it.width.toUInt32.toUInt16,
      it.height.toUInt32.toUInt16, 2, it.frameSubType.toUInt32.toUInt8, it.fpsVideo.toUInt32.toUInt8, frameFlag⟩,
    advance { it with seq := it.seq + 1 })

def aHead (it : SockItem) (head : List UInt8) : FrameHead × SockItem :=
  (⟨UInt32.ofNat (word16 head 6), it.seq.toUInt32, it.sec.toUInt32, it.usec.toUInt32, 0, 0, 3,
      if byteAt head 4 % 16 = 0xa then 3 else 1, 50, frameFlag⟩,
    { it with seq := it.seq + 1 })

/-- The new head for a frame's head, none for the kinds that are skipped. -/
def newHead (it : SockItem) (k : FrameKind) (head : List UInt8) : Option (FrameHead × SockItem) :=
  match k with
  | .vi => some (iHead date2Time it head)
  | .vp => some (pHead it head)
  | .a => some (aHead it head)
  | .pic | .info => none

end

/-- `tool_ptc_xm_checkBuf`, in 32-bit arithmetic. -/
def checkBuf (b : RecvBuf) : Bool × RecvBuf :=
  if b.len < 4 then (false, b)
  else match FrameKind.ofType (word32 (b.mem.read 32 4) 0) with
    | some k =>
      let n := (k.length (b.mem.read 32 k.headLen) + k.headLen) % 4294967296
      if b.len < k.headLen then (false, b)
      else if b.len < n then (false, b)
      else (k.media, { b with len := 0, leftBuf := 32 + n, leftLen := b.len - n })
    | none => (false, { b with len := 0, leftBuf := 0, leftLen := 0 })

/-- The four bytes that `tool_sock_item_recvPeek` sees; it times out if there are fewer. -/
def peek (p : Packet) (ps : List Packet) : Option ℕ :=
  let seen := p.data ++ (ps.head?.map fun q => [0xFF, q.version, q.reserve1]).getD []
  if seen.length < 4 then none else some (word32 seen 0)

/-- The types at which `tool_ptc_xm_recvBuf` starts afresh. -/
def StartsFresh (t : ℕ) : Prop := t = FrameKind.vi.type ∨ t = FrameKind.vp.type ∨ t = FrameKind.a.type

instance (t : ℕ) : Decidable (StartsFresh t) := inferInstanceAs (Decidable (_ ∨ _))

/-- `tool_ptc_xm_recvBuf`. -/
def recvBuf (size : ℕ) (b : RecvBuf) : List Packet → Except Poll.Stop (RecvBuf × List Packet)
  | [] => .error .wait
  | p :: ps =>
    if p.data = [] then .ok (b, ps)
    else if p.data.length + b.len > size then .error .failed
    else match peek p ps with
      | none => .error .failed
      | some t => .ok ((if StartsFresh t then { b with len := 0 } else b).append p.data, ps)

/-- A media stream with its socket, and the frames handed on so far as the caller reads them. -/
structure MediaWorld where
  buf : RecvBuf
  item : SockItem
  sock : List Packet
  outs : List (List UInt8)

namespace MediaWorld
variable (date2Time : FrameDate → UInt32) (size : ℕ)

/-- `tool_ptc_xm_xm2qh`, and the caller reads the frame. -/
def xm2qh (w : MediaWorld) (b : RecvBuf) : MediaWorld :=
  match FrameKind.ofType (word32 (b.mem.read 32 4) 0) with
  | some k =>
    match newHead date2Time w.item k (b.mem.read 32 k.headLen) with
    | some (h, item) =>
      let mem := b.mem.write k.headLen h.bytes
      { w with buf := { b with mem := mem }, item := item,
               outs := w.outs ++ [mem.read k.headLen (h.len + 32).toNat] }
    | none => { w with buf := b }
  | none => { w with buf := b }

/-- `tool_ptc_xm_recvRts` after a `tool_ptc_xm_checkBuf`. -/
def deliver (w : MediaWorld) (r : Bool × RecvBuf) : MediaWorld :=
  if r.1 then w.xm2qh date2Time r.2 else { w with buf := r.2 }

/-- `tool_ptc_xm_recvRts` from `tool_ptc_xm_recvBuf` on. -/
def fetch (w : MediaWorld) (b : RecvBuf) : Except Poll.Stop MediaWorld :=
  match recvBuf size b w.sock with
  | .ok (b, sock) => .ok ({ w with sock := sock }.deliver date2Time (checkBuf b))
  | .error e => .error e

/-- `tool_ptc_xm_recvRts`. -/
def recvRts (w : MediaWorld) : Except Poll.Stop MediaWorld :=
  let r := checkBuf w.buf.move
  if r.1 then .ok (w.deliver date2Time r) else w.fetch date2Time size r.2

/-- A stream before its first packet, with anything in its buffer and its socket's fields. -/
def start (mem : Mem) (leftBuf : ℕ) (item : SockItem) (ps : List Packet) : MediaWorld :=
  ⟨⟨mem, 0, leftBuf, 0⟩, item, ps, []⟩

end MediaWorld

end Xm

end SabApp
