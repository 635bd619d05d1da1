import Mathlib.Data.List.Forall2
import SabApp.Bytes
import SabApp.Framing

/-!
# Receive buffers and the heads of the frames handed on

A reader of a device's media stream holds bytes from address 32 of its buffer on. Over the end of the
device's own head it writes a `ptc_frame_head_t`, directly before the payload, and hands on the
address; what lies behind the frame is moved to the front by the next call.
-/

namespace SabApp

/-- `ptc_frame_head_t`; the other fields are 0. -/
structure FrameHead where
  len : UInt32
  no : UInt32
  sec : UInt32
  usec : UInt32
  width : UInt16
  height : UInt16
  frameType : UInt8
  frameSubType : UInt8
  frameRate : UInt8
  flag : UInt32
  deriving DecidableEq

namespace FrameHead

def bytes (h : FrameHead) : List UInt8 :=
  le32 h.len.toNat ++ le32 h.no.toNat ++ le32 h.sec.toNat ++ le32 h.usec.toNat ++ le16 h.width.toNat ++
    le16 h.height.toNat ++ [h.frameType, h.frameSubType, h.frameRate, 0, 0, 0, 0, 0] ++ le32 h.flag.toNat

@[simp] theorem bytes_length (h : FrameHead) : h.bytes.length = 32 := rfl

end FrameHead

/-- The fields of `tool_sock_item_t` that frames leave for those that follow. -/
structure SockItem where
  width : Int32
  height : Int32
  sec : Int32
  usec : Int32
  fpsVideo : Int32
  seq : Int32
  frameSubType : Int32

structure FrameDate where
  year : ℕ
  month : ℕ
  day : ℕ
  hour : ℕ
  minute : ℕ
  second : ℕ

/-- The bit fields of a date: 6 for the year since 2000, 4, 5, 5, 6 and 6. -/
def dateOf (w : ℕ) : FrameDate where
  year := w / 67108864 + 2000
  month := w / 4194304 % 16
  day := w / 131072 % 32
  hour := w / 4096 % 32
  minute := w / 64 % 64
  second := w % 64

/-! ## What is handed on -/

/-- What was handed on is a payload behind a head of its kind and length. -/
def Shows (out : List UInt8) (frameType : UInt8) (payload : List UInt8) : Prop :=
  ∃ h : FrameHead, out = h.bytes ++ payload ∧ h.frameType = frameType ∧ h.len.toNat = payload.length

/-- A head written just before a payload, and both handed on. -/
theorem shows_of_write {m : Mem} {a : ℕ} {payload : List UInt8} {h : FrameHead}
    (hp : m.read (a + 32) payload.length = payload) (hl : h.len.toNat = payload.length)
    (hlt : payload.length + 32 < 4294967296) :
    Shows ((m.write a h.bytes).read a (h.len + 32).toNat) h.frameType payload := by
  refine ⟨h, ?_, rfl, hl⟩
  have hn : (h.len + 32).toNat = 32 + payload.length := by
    rw [UInt32.toNat_add, hl, Nat.add_comm 32]
    exact Nat.mod_eq_of_lt hlt
  have hw := Mem.read_write m a h.bytes
  rw [FrameHead.bytes_length] at hw
  have hb : (m.write a h.bytes).read (a + 32) payload.length = m.read (a + 32) payload.length :=
    Mem.read_write_of_disjoint (.inl (by simp))
  rw [hn, Mem.read_add, hw, hb, hp]

section
variable {F : Type*} (shown : F → Option (UInt8 × List UInt8))

/-- Of the frames `fs`, those with a kind and payload to show have been handed on, in order. -/
def HandsOn (fs : List F) (outs : List (List UInt8)) : Prop :=
  List.Forall₂ (fun o s => Shows o s.1 s.2) outs (fs.filterMap shown)

variable {shown} {fs : List F} {outs : List (List UInt8)}

theorem handsOn_nil : HandsOn shown [] [] := List.Forall₂.nil

theorem HandsOn.skip (h : HandsOn shown fs outs) {f : F} (hf : shown f = none) : HandsOn shown (fs ++ [f]) outs := by
  simpa [HandsOn, hf] using h

theorem HandsOn.snoc (h : HandsOn shown fs outs) {f : F} {k : UInt8} {p o : List UInt8} (hf : shown f = some (k, p))
    (ho : Shows o k p) : HandsOn shown (fs ++ [f]) (outs ++ [o]) := by
  unfold HandsOn
  rw [List.filterMap_append, List.filterMap_cons_some hf]
  exact List.rel_append h (.cons ho .nil)

theorem HandsOn.length_eq (h : HandsOn shown fs outs) : outs.length = (fs.filterMap shown).length := List.Forall₂.length_eq h

end

/-! ## The buffer -/

/-- `len` bytes are held, and `leftLen` bytes at `leftBuf` wait to be moved to their place. -/
structure RecvBuf where
  mem : Mem
  len : ℕ
  leftBuf : ℕ
  leftLen : ℕ

namespace RecvBuf

/-- The left-over bytes go to the front. -/
def move (b : RecvBuf) : RecvBuf :=
  if b.leftLen > 0 then
    { b with mem := b.mem.write 32 (b.mem.read b.leftBuf b.leftLen), len := b.leftLen, leftLen := 0 }
  else b

/-- A message goes behind what is held. -/
def append (b : RecvBuf) (data : List UInt8) : RecvBuf :=
  { b with mem := b.mem.write (32 + b.len) data, len := b.len + data.length }

def held (b : RecvBuf) : List UInt8 := b.mem.read 32 b.len

@[simp] theorem held_length (b : RecvBuf) : b.held.length = b.len := Mem.read_length ..

@[simp] theorem move_leftLen (b : RecvBuf) : b.move.leftLen = 0 := by
  unfold move
  split
  · rfl
  · next h => exact Nat.eq_zero_of_not_pos h

theorem move_of_left {b : RecvBuf} (h : 0 < b.leftLen) :
    b.move.len = b.leftLen ∧ b.move.held = b.mem.read b.leftBuf b.leftLen := by
  rw [move, if_pos h]
  refine ⟨rfl, ?_⟩
  have hw := Mem.read_write b.mem 32 (b.mem.read b.leftBuf b.leftLen)
  rw [Mem.read_length] at hw
  exact hw

theorem move_of_none {b : RecvBuf} (h : b.leftLen = 0) : b.move = b := by
  rw [move, if_neg (by omega)]

/-- With nothing held a call finds what was left over, if anything. -/
theorem move_of_empty {b : RecvBuf} (h : b.len = 0) : b.move.held = b.mem.read b.leftBuf b.leftLen := by
  by_cases hl : 0 < b.leftLen
  · exact (move_of_left hl).2
  · rw [move, if_neg hl, held, h, Nat.eq_zero_of_not_pos hl]
    rfl

theorem append_held (b : RecvBuf) (data : List UInt8) : (b.append data).held = b.held ++ data := by
  rw [held, append, Mem.read_add, Mem.read_write]
  exact congrArg (· ++ data) (Mem.read_write_of_disjoint (.inr (Nat.le_refl _)))

section
variable {F : Type*} {bytes : F → List UInt8} {b : RecvBuf} {f : F} {fs : List F} {more : List UInt8}
variable (hr : b.held ++ more = cat bytes (f :: fs))
include hr

theorem read_of_held {n : ℕ} (hn : n ≤ b.len) (hf : n ≤ (bytes f).length) : b.mem.read 32 n = (bytes f).take n := by
  rw [Mem.read_take b.mem 32 hn]
  exact take_front hr (by rw [held_length]; exact hn) hf

theorem read_front (hn : (bytes f).length ≤ b.len) : b.mem.read 32 (bytes f).length = bytes f := by
  rw [read_of_held hr hn (Nat.le_refl _), List.take_length]

/-- Behind a frame lies the rest of what is held. -/
theorem read_past (hn : (bytes f).length ≤ b.len) :
    b.mem.read (32 + (bytes f).length) (b.len - (bytes f).length) ++ more = cat bytes fs := by
  obtain ⟨r, hb, hm⟩ := split_front hr (by rw [held_length]; exact hn)
  rw [held, ← Nat.add_sub_cancel' hn, Mem.read_add] at hb
  have hlen : (b.mem.read 32 (bytes f).length).length = (bytes f).length := Mem.read_length ..
  rw [(List.append_inj hb hlen).2]
  exact hm

end

end RecvBuf

end SabApp
