import SabApp.RingLog
import SabApp.Runs

/-!
# The stream ring (tool_stream3.c)

One writer lays frames into a pool of 4 to 8 MB, each behind a 16-byte head
with its length; one reader follows it. Every function runs under the stream's
mutex, so a run is a sequence of whole calls. `none` is `log_fatal`, which
leaves the program. The counters are 32-bit and wrap as in the source.
-/

namespace SabApp

def u32 (n : Nat) : Nat := n % 4294967296

def u32Sub (a b : Nat) : Nat := (a + 4294967296 - b) % 4294967296

def i32 (n : Int) : Int := n.bmod 4294967296

/-! ## Frames -/

/-- ptc_frame_video_t: a 32-byte head, then the payload. -/
structure Frame where
  data : List UInt8
  head_le : 32 ≤ data.length

def ptcFrameI : Nat := 1
def ptcFrameP : Nat := 2
def ptcFrameA : Nat := 3

/-- frame_head.frame_type of a buffer that starts with a ptc_frame_head_t. -/
def frameType (data : List UInt8) : Nat := byteAt data 20

def frameRate (data : List UInt8) : Nat := byteAt data 22

def isVideo (data : List UInt8) : Bool := frameType data == ptcFrameI || frameType data == ptcFrameP

/-! ## The stream -/

namespace Stream3

/-- TOOL_STREAM3_DATA_SIZE -/
def dataSize : Nat := 1048576

/-- sizeof(tool_stream3_head_t) -/
def headSize : Nat := 16

/-- The head length that marks the unused end of a lap. -/
def skipLen : Nat := 4294967295

/-- TOOL_STREAM3_FLAG with its closing zero, as memcpy'd into head.flag. -/
def flag : List UInt8 := [84, 79, 79, 76, 95, 83, 84, 82, 69, 65, 77, 0]

/-- tool_stream3_head_t -/
def head (len : Nat) : List UInt8 := flag ++ le32 len

def headLen (bs : List UInt8) : Nat := word32 bs 12

/-- What tool_stream3_init makes of the size it is asked for. -/
structure PoolSize where
  val : Nat
  lo : 4194304 ≤ val
  hi : val ≤ 8388608

def clampSize (size : Nat) : PoolSize :=
  if h₁ : size < 4194304 then ⟨4194304, by omega, by omega⟩
  else if h₂ : size > 8388608 then ⟨8388608, by omega, by omega⟩
  else ⟨size, by omega, by omega⟩

/-- tool_stream3_pos_t -/
structure Pos where
  offset : Nat
  ring : Nat
deriving DecidableEq, Repr

end Stream3

open Stream3

/-- tool_stream3_t -/
structure Stream3 where
  count : Int
  len : Nat
  size : PoolSize
  writePos : Pos
  dropFlag : Bool
  pool : Mem

namespace Stream3

/-- tool_stream3_init; `pool` is what malloc returned. -/
def init (pool : Mem) (size : Nat) : Stream3 :=
  { pool, size := clampSize size, len := 0, count := 0, writePos := ⟨0, 0⟩, dropFlag := false }

/-- tool_stream3_initReadPos: the read position is the write position. -/
def initReadPos (s : Stream3) : Stream3 × Pos := ({ s with len := 0, count := 0 }, s.writePos)

/-- The block that lays a frame into the pool, the same in set_noDrop and set_withDrop. -/
def store (s : Stream3) (f : Frame) : Option Stream3 :=
  let w := s.writePos
  let n := f.data.length
  if w.offset + headSize > s.size.val then none
  else
    let wraps := w.offset + 2 * headSize + dataSize > s.size.val
    let pool := if wraps then s.pool.write w.offset (head skipLen) else s.pool
    let pos : Pos := if wraps then ⟨0, u32 (w.ring + 1)⟩ else w
    some { s with
      pool := (pool.write pos.offset (head n)).write (pos.offset + headSize) f.data
      writePos := ⟨pos.offset + headSize + n, pos.ring⟩
      count := if isVideo f.data then i32 (s.count + 1) else s.count
      len := u32 (s.len + (n + headSize)) }

/-- stream->len > stream->size-2*TOOL_STREAM3_DATA_SIZE -/
def full (s : Stream3) : Bool := s.len > s.size.val - 2 * dataSize

/-- One turn of the loop of tool_stream3_set_noDrop, with the value it returns. After a `-1` the
source sleeps and, while its flag is set, takes another turn. -/
def setNoDrop (s : Stream3) (f : Frame) : Option (Stream3 × Int) :=
  if f.data.length > dataSize then some (s, 0)
  else if s.full then some (s, -1)
  else (s.store f).map fun t => (t, 0)

def intevalUsec (f : Frame) : Int :=
  if frameRate f.data = 0 ∨ frameRate f.data > 30 then 40 * 1000 else 1000 * 1000 / frameRate f.data

/-- The test that starts dropping. -/
def tooFarBehind (s : Stream3) (f : Frame) (ncBufferUsec : Int) : Bool :=
  (s.full || i32 (intevalUsec f * s.count) > i32 (2 * ncBufferUsec)) && s.count > 5

/-- tool_stream3_set_withDrop; the flag beside the stream says whether the frame was stored. -/
def setWithDrop (s : Stream3) (f : Frame) (ncBufferUsec : Int) : Option (Stream3 × Bool) :=
  if f.data.length > dataSize then some (s, false)
  else if s.dropFlag && frameType f.data == ptcFrameP then some (s, false)
  else
    let s := if s.dropFlag && frameType f.data == ptcFrameI then { s with dropFlag := false } else s
    if isVideo f.data && s.tooFarBehind f ncBufferUsec then some ({ s with dropFlag := true }, false)
    else (s.store f).map fun t => (t, true)

/-- What tool_stream3_get_simple did: it returns 0 for `empty` and `resync`, 1 for a frame, whose
bytes are then in the caller's buffer and their number in `*len`. -/
inductive Got where
  | empty
  | resync
  | frame (data : List UInt8)

/-- (write_pos.ring-read_pos.ring)*size + (write_pos.offset-read_pos.offset), in 32 bits -/
def lag (s : Stream3) (r : Pos) : Nat :=
  u32 (u32Sub s.writePos.ring r.ring * s.size.val + u32Sub s.writePos.offset r.offset)

def resynced (s : Stream3) : Stream3 × Pos × Got := ({ s with len := 0, count := 0 }, s.writePos, .resync)

/-- tool_stream3_get_simple; `data` is the caller's buffer, `*len` its length. -/
def getSimple (s : Stream3) (r : Pos) (data : List UInt8) : Option (Stream3 × Pos × Got) :=
  if r.offset ≥ s.size.val then none
  else if r = s.writePos then some (s, r, .empty)
  else if s.lag r > s.size.val then some s.resynced
  else
    let n₀ := headLen (s.pool.read r.offset headSize)
    let p : Pos := if n₀ = skipLen then ⟨0, u32 (r.ring + 1)⟩ else r
    let n := headLen (s.pool.read p.offset headSize)
    if data.length < n then some s.resynced
    else
      let bs := s.pool.read (p.offset + headSize) n
      some ({ s with
          count := if isVideo (bs ++ data.drop n) then i32 (s.count - 1) else s.count
          len := u32Sub s.len (u32 (n + headSize)) },
        ⟨u32 (p.offset + headSize + n), p.ring⟩, .frame bs)

/-- The ring as a record log. -/
def fmt (size : PoolSize) : RingFormat where
  size := size.val
  hsize := headSize
  maxLen := dataSize
  skip := skipLen
  head := head
  headLen := headLen
  hsize_pos := by decide
  room_le := by have := size.lo; simp only [headSize, dataSize]; omega
  maxLen_lt := by decide
  head_length := fun _ => rfl
  headLen_head := fun n h => word32_le32 (by unfold skipLen at h; omega)

@[simp] theorem fmt_size (size : PoolSize) : (fmt size).size = size.val := rfl

@[simp] theorem fmt_hsize (size : PoolSize) : (fmt size).hsize = headSize := rfl

@[simp] theorem fmt_maxLen (size : PoolSize) : (fmt size).maxLen = dataSize := rfl

/-! ## Runs -/

/-- A stream with its reader. What follows `readPos` is not in the source: it records the calls. -/
structure World where
  stream : Stream3
  readPos : Pos
  /-- `readPos` was set from this stream -/
  ready : Bool
  writeAddr : Addr
  readAddr : Addr
  /-- the frames stored since the stream was made, and those handed out -/
  written : List (List UInt8)
  reads : List (List UInt8)
  /-- the frames stored and neither handed out nor given up -/
  unread : List (List UInt8)
  /-- the frames whose write returned 0 since the reader was set, and those handed out since -/
  accepted : List (List UInt8)
  taken : List (List UInt8)

inductive Op where
  | init (pool : Mem) (size : Nat)
  | initReadPos
  | noDrop (f : Frame)
  | withDrop (f : Frame) (ncBufferUsec : Int)
  | get (data : List UInt8)

namespace World

def start (pool : Mem) (size : Nat) (r : Pos) : World :=
  { stream := Stream3.init pool size, readPos := r, ready := false, writeAddr := ⟨0, 0⟩, readAddr := ⟨0, 0⟩
    written := [], reads := [], unread := [], accepted := [], taken := [] }

/-- The bytes from the reader to the writer, skipped ends of laps included. -/
def ahead (w : World) : Nat := (fmt w.stream.size).abs w.writeAddr - (fmt w.stream.size).abs w.readAddr

def wrote (w : World) (t : Stream3) (f : Frame) : World :=
  { w with
    stream := t, writeAddr := (fmt w.stream.size).next w.writeAddr f.data.length
    written := w.written ++ [f.data], unread := w.unread ++ [f.data], accepted := w.accepted ++ [f.data] }

def caughtUp (w : World) (t : Stream3) (r : Pos) : World :=
  { w with stream := t, readPos := r, ready := true, readAddr := w.writeAddr, unread := [] }

def took (w : World) (t : Stream3) (r : Pos) (bs : List UInt8) : World :=
  { w with
    stream := t, readPos := r, readAddr := (fmt w.stream.size).next w.readAddr bs.length
    reads := w.reads ++ [bs], unread := w.unread.tail, taken := w.taken ++ [bs] }

def step (w : World) : Op → Option World
  | .init pool size => some (start pool size w.readPos)
  | .initReadPos =>
    let (t, r) := w.stream.initReadPos
    some { w.caughtUp t r with accepted := [], taken := [] }
  | .noDrop f =>
    (w.stream.setNoDrop f).map fun (t, ret) =>
      if ret = 0 then if f.data.length > dataSize then { w with accepted := w.accepted ++ [f.data] } else w.wrote t f
      else w
  | .withDrop f usec =>
    (w.stream.setWithDrop f usec).map fun (t, stored) => if stored then w.wrote t f else { w with stream := t }
  | .get data =>
    (w.stream.getSimple w.readPos data).map fun (t, r, got) =>
      match got with
      | .empty => w
      | .resync => w.caughtUp t r
      | .frame bs => w.took t r bs

end World

end Stream3

end SabApp
