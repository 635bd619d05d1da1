import SabApp.Bytes
import SabApp.Pieces

/-!
# Frames in packets (tool_ptc.c)

A frame of up to 500 KB goes over the wire in packets of at most 1024 bytes, each behind the
frame's 32-byte head with the packet's number and length. The receiver lays the packets one behind
the other.
-/

namespace SabApp

namespace Qh

/-- PTC_FLAG -/
def ptcFlag : UInt32 := 0x51484B4A

/-- PTC_VERSION -/
def ptcVersion : UInt16 := 0x2223

/-- PTC_VIDEO_FRAME_SIZE -/
def videoFrameSize : ℕ := 512000

/-- PTC_PACK_SIZE -/
def packSize : ℕ := 1024

/-- `ptc_head_t`. -/
structure PtcHead where
  flag : UInt32
  cmd : UInt32
  len : UInt32
  ver : UInt16
  ack : UInt16
  packCount : UInt16
  packNo : UInt16
  packLen : UInt32
  channelType : UInt8
  channelNo : UInt8
  reserved : Vector UInt8 6
  deriving DecidableEq

/-- `ptc_frame_t`; the payload is at address 0 of `data`. -/
structure PtcFrame where
  head : PtcHead
  data : Mem

namespace PtcHead

def bytes (h : PtcHead) : List UInt8 :=
  le32 h.flag.toNat ++ le32 h.cmd.toNat ++ le32 h.len.toNat ++ le16 h.ver.toNat ++ le16 h.ack.toNat ++
    le16 h.packCount.toNat ++ le16 h.packNo.toNat ++ le32 h.packLen.toNat ++ [h.channelType, h.channelNo] ++
    h.reserved.toList

def ofBytes (bs : List UInt8) : PtcHead where
  flag := .ofNat (word32 bs 0)
  cmd := .ofNat (word32 bs 4)
  len := .ofNat (word32 bs 8)
  ver := .ofNat (word16 bs 12)
  ack := .ofNat (word16 bs 14)
  packCount := .ofNat (word16 bs 16)
  packNo := .ofNat (word16 bs 18)
  packLen := .ofNat (word32 bs 20)
  channelType := bs.getD 24 0
  channelNo := bs.getD 25 0
  reserved := .ofFn fun i => bs.getD (26 + i) 0

/-- The number of packets, in 16 bits. -/
def count (h : PtcHead) : UInt16 :=
  if h.len = 0 then 1
  else if h.len % 1024 = 0 then (h.len / 1024).toUInt16
  else (h.len / 1024 + 1).toUInt16

/-- The head of packet `i`. -/
def pack (h : PtcHead) (i : ℕ) : PtcHead :=
  let no := UInt16.ofNat (i + 1)
  { h with packNo := no, packLen := if no < h.packCount then 1024 else h.len - UInt32.ofNat (i * packSize) }

end PtcHead

/-! ## Sending -/

/-- The loop over the packets from `i` on, with the bytes sent; packet `i` is taken from place `pos i`. -/
def sendPacks (pos : ℕ → ℕ) : ℕ → ℕ → PtcFrame → PtcFrame × List UInt8
  | 0, _, f => (f, [])
  | n + 1, i, f =>
    let f := { f with head := f.head.pack i }
    let r := sendPacks pos n (i + 1) f
    (r.1, f.head.bytes ++ f.data.read (pos i * packSize) f.head.packLen.toNat ++ r.2)

def PtcFrame.begin (f : PtcFrame) : PtcFrame :=
  { f with head := { f.head with flag := ptcFlag, ver := ptcVersion, packCount := f.head.count } }

/-- `tool_ptc_qh_sendFrame`, with the bytes sent. -/
def sendFrame (f : PtcFrame) : PtcFrame × List UInt8 :=
  let f := f.begin
  sendPacks id f.head.packCount.toNat 0 f

/-! ## Receiving -/

/-- The bytes at hand and to come, as they were cut. -/
abbrev Stream := List (List UInt8)

/-- One turn of the receiver's loop: the frame, `len` and the stream after it; `none` is -1. -/
def recvPack (tooLong : UInt32 → Bool) (f : PtcFrame) (len : UInt32) (s : Stream) :
    Option (PtcFrame × UInt32 × Stream) :=
  match Pieces.recv 32 s with
  | none => none
  | some (hb, s) =>
    let h := PtcHead.ofBytes hb
    if h.flag ≠ ptcFlag then none
    else if tooLong (len + h.packLen) then none
    -- A length that is negative as an int: tool_sock_item_recv returns 0.
    else if h.packLen.toNat ≥ 2147483648 then none
    else
      match Pieces.recv h.packLen.toNat s with
      | none => none
      | some (bs, s) => some (⟨h, f.data.write len.toNat bs⟩, len + h.packLen, s)

/-- The receiver's loop; each turn takes a head, so the length of the stream is fuel enough. -/
def recvPacks (tooLong : UInt32 → Bool) : ℕ → PtcFrame → UInt32 → Stream → Option (PtcFrame × UInt32 × Stream)
  | 0, _, _, _ => none
  | n + 1, f, len, s =>
    match recvPack tooLong f len s with
    | none => none
    | some (f, len, s) => if f.head.packCount = f.head.packNo then some (f, len, s) else recvPacks tooLong n f len s

/-- `tool_ptc_qh_recvFrame`, with what is left of the stream. -/
def recvFrame (f : PtcFrame) (s : Stream) : Option (PtcFrame × Stream) :=
  match recvPacks (fun n => n.toNat ≥ videoFrameSize) s.flatten.length f 0 s with
  | none => none
  | some (f, len, s) => if len ≠ f.head.len then none else some ({ f with data := f.data.write len.toNat [0] }, s)

/-! ## Heads and packets -/

/-- How many bytes packet `i` has. -/
def packBytes (len i : ℕ) : ℕ := min packSize (len - i * packSize)

namespace PtcHead

@[simp] theorem bytes_length (h : PtcHead) : h.bytes.length = 32 := by simp [bytes]

theorem ofNat_le32 (n : UInt32) : UInt32.ofNat (word32 (le32 n.toNat) 0) = n := by
  rw [word32_le32 n.toNat_lt, UInt32.ofNat_toNat]

theorem ofNat_le16 (n : UInt16) : UInt16.ofNat (word16 (le16 n.toNat) 0) = n := by
  rw [word16_le16 n.toNat_lt, UInt16.ofNat_toNat]

theorem ofBytes_bytes (h : PtcHead) : ofBytes h.bytes = h := by
  have h₁ : h.bytes.getD 24 0 = h.channelType := rfl
  have h₂ : h.bytes.getD 25 0 = h.channelNo := rfl
  have h₃ : (Vector.ofFn fun i : Fin 6 => h.bytes.getD (26 + i) 0) = h.reserved := by
    ext i hi
    simp [bytes, le32, le16, List.getD_eq_getElem?_getD, Nat.add_comm 26]
  simp only [ofBytes, h₁, h₂, h₃]
  simp (disch := simp) only [bytes, word32_append_left, word32_append_right, word16_append_left, word16_append_right]
  rw [word32_append_left (by simp), word32_append_right (by simp)]
  simp [ofNat_le32, ofNat_le16]

section
variable {h : PtcHead} (hlen : h.len.toNat ≤ videoFrameSize)
include hlen

theorem count_toNat : h.count.toNat = if h.len = 0 then 1 else (h.len.toNat + 1023) / 1024 := by
  unfold videoFrameSize at hlen
  unfold count
  by_cases h0 : h.len = 0
  · rw [if_pos h0, if_pos h0]
    rfl
  · rw [if_neg h0, if_neg h0]
    by_cases hm : h.len % 1024 = 0
    · have hm' := congrArg UInt32.toNat hm
      simp only [UInt32.toNat_mod, UInt32.reduceToNat] at hm'
      rw [if_pos hm]
      simp only [UInt32.toNat_toUInt16, UInt32.toNat_div, UInt32.reduceToNat]
      omega
    · have hm' : h.len.toNat % 1024 ≠ 0 := fun hm' => hm (UInt32.toNat_inj.mp (by
        simp only [UInt32.toNat_mod, UInt32.reduceToNat]
        exact hm'))
      rw [if_neg hm]
      simp only [UInt32.toNat_toUInt16, UInt32.toNat_add, UInt32.toNat_div, UInt32.reduceToNat]
      omega

theorem count_pos : 0 < h.count.toNat := by
  rw [count_toNat hlen]
  split
  · exact Nat.one_pos
  · next h0 =>
    have : h.len.toNat ≠ 0 := fun h1 => h0 (UInt32.toNat_inj.mp h1)
    omega

theorem count_le : h.count.toNat ≤ 500 := by
  unfold videoFrameSize at hlen
  rw [count_toNat hlen]
  split <;> omega

/-- Every packet but the last is full. -/
theorem packBytes_of_lt {i : ℕ} (hi : i + 1 < h.count.toNat) : packBytes h.len.toNat i = packSize := by
  rw [count_toNat hlen] at hi
  unfold packBytes packSize
  split at hi <;> omega

/-- The last packet has the rest. -/
theorem packBytes_last {i : ℕ} (hi : i + 1 = h.count.toNat) : i * packSize + packBytes h.len.toNat i = h.len.toNat := by
  rw [count_toNat hlen] at hi
  unfold packBytes packSize
  split at hi
  · next h0 =>
    rw [h0]
    simp only [UInt32.reduceToNat]
    omega
  · omega

theorem offset_le {i : ℕ} (hi : i < h.count.toNat) : i * packSize ≤ h.len.toNat := by
  rw [count_toNat hlen] at hi
  unfold packSize
  split at hi <;> omega

theorem packLen_toNat {i : ℕ} (hc : h.packCount = h.count) (hi : i < h.count.toNat) :
    (h.pack i).packLen.toNat = packBytes h.len.toNat i := by
  have hle := count_le hlen
  have hno : (UInt16.ofNat (i + 1)).toNat = i + 1 := by
    rw [UInt16.toNat_ofNat', Nat.mod_eq_of_lt (by omega)]
  simp only [pack, hc, UInt16.lt_iff_toNat_lt, hno]
  by_cases hi' : i + 1 < h.count.toNat
  · rw [if_pos hi', packBytes_of_lt hlen hi']
    rfl
  · have hl := packBytes_last hlen (i := i) (by omega)
    have hle' : i * packSize ≤ h.len.toNat := by omega
    have hlt : i * packSize < 4294967296 := by
      unfold packSize
      omega
    rw [if_neg hi', UInt32.toNat_sub_of_le]
    · rw [UInt32.toNat_ofNat', Nat.mod_eq_of_lt hlt]
      omega
    · rw [UInt32.le_iff_toNat_le, UInt32.toNat_ofNat', Nat.mod_eq_of_lt hlt]
      exact hle'

theorem packNo_eq {i : ℕ} (hc : h.packCount = h.count) (hi : i < h.count.toNat) :
    (h.pack i).packCount = (h.pack i).packNo ↔ i + 1 = h.count.toNat := by
  have hle := count_le hlen
  simp only [pack, hc, ← UInt16.toNat_inj, UInt16.toNat_ofNat']
  omega

end

end PtcHead

/-! ## A frame sent and received -/

/-- What the receiver makes of packets `i` to `i + n`. -/
def taken (pos : ℕ → ℕ) (m : Mem) (len : ℕ) : ℕ → ℕ → List UInt8
  | 0, _ => []
  | n + 1, i => m.read (pos i * packSize) (packBytes len i) ++ taken pos m len n (i + 1)

/-- The head as it is when the packets are sent. -/
structure Sending (f : PtcFrame) : Prop where
  flag : f.head.flag = ptcFlag
  packCount : f.head.packCount = f.head.count
  len : f.head.len.toNat ≤ videoFrameSize

theorem Sending.pack {f : PtcFrame} (h : Sending f) (i : ℕ) : Sending { f with head := f.head.pack i } :=
  ⟨h.flag, h.packCount, h.len⟩

theorem recvPack_front {tooLong : UInt32 → Bool} {h : PtcHead} {bs rest : List UInt8} {s : Stream} (f : PtcFrame) {len : UInt32}
    (hs : s.flatten = h.bytes ++ (bs ++ rest)) (hf : h.flag = ptcFlag) (hl : h.packLen.toNat = bs.length)
    (hlt : bs.length < 2147483648) (ht : tooLong (len + h.packLen) = false) :
    ∃ s', recvPack tooLong f len s = some (⟨h, f.data.write len.toNat bs⟩, len + h.packLen, s') ∧ s'.flatten = rest := by
  obtain ⟨s₁, h₁, hs₁⟩ := Pieces.recv_append hs
  obtain ⟨s₂, h₂, hs₂⟩ := Pieces.recv_append hs₁
  rw [PtcHead.bytes_length] at h₁
  refine ⟨s₂, ?_, hs₂⟩
  simp only [recvPack, h₁, PtcHead.ofBytes_bytes, hf, hl, h₂, ht]
  simp [hlt]

theorem read_write_next (m : Mem) (n : ℕ) (bs : List UInt8) : (m.write n bs).read 0 (n + bs.length) = m.read 0 n ++ bs := by
  rw [Mem.read_add, Nat.zero_add, Mem.read_write, Mem.read_write_of_disjoint (.inr (by omega))]

/-- One turn takes packet `i` and lays it behind the packets before it. -/
theorem recvPack_pack {tooLong : UInt32 → Bool} {place i : ℕ} {f : PtcFrame} (g : PtcFrame) {len : UInt32} {s : Stream}
    {rest : List UInt8} (hf : Sending f) (hi : i < f.head.count.toNat) (hlen : len.toNat = i * packSize)
    (ht : ∀ m : UInt32, m.toNat ≤ f.head.len.toNat → tooLong m = false)
    (hs : s.flatten = (f.head.pack i).bytes ++ (f.data.read place (f.head.pack i).packLen.toNat ++ rest)) :
    ∃ r len' s', recvPack tooLong g len s = some (r, len', s') ∧ s'.flatten = rest ∧ r.head = f.head.pack i ∧
      len'.toNat = i * packSize + packBytes f.head.len.toNat i ∧
      r.data.read 0 len'.toNat = g.data.read 0 len.toNat ++ f.data.read place (packBytes f.head.len.toNat i) := by
  have hle := hf.len
  have hoff := PtcHead.offset_le hf.len hi
  have hpl := PtcHead.packLen_toNat hf.len hf.packCount hi
  have hmin : packBytes f.head.len.toNat i ≤ f.head.len.toNat - i * packSize := Nat.min_le_right _ _
  unfold videoFrameSize at hle
  have hsum : (len + (f.head.pack i).packLen).toNat = i * packSize + packBytes f.head.len.toNat i := by
    rw [UInt32.toNat_add, hlen, hpl]
    exact Nat.mod_eq_of_lt (by omega)
  obtain ⟨s', hr, hs'⟩ := recvPack_front g hs hf.flag (by simp) (by rw [Mem.read_length, hpl]; omega)
    (ht _ (by rw [hsum]; omega))
  refine ⟨_, _, s', hr, hs', rfl, hsum, ?_⟩
  have hnext := read_write_next g.data len.toNat (f.data.read place (f.head.pack i).packLen.toNat)
  rw [Mem.read_length, hpl] at hnext
  rw [hsum, ← hlen, hpl]
  exact hnext

/-- **The loop.** From packet `i` on the receiver takes what the sender's loop sends, in the sender's order. -/
theorem recvPacks_sendPacks {tooLong : UInt32 → Bool} {pos : ℕ → ℕ} {rest : List UInt8} : ∀ {n i fuel : ℕ} {f g : PtcFrame}
    {len : UInt32} {s : Stream}, Sending f → i + n + 1 = f.head.count.toNat → n + 1 ≤ fuel → len.toNat = i * packSize →
    (∀ m : UInt32, m.toNat ≤ f.head.len.toNat → tooLong m = false) → s.flatten = (sendPacks pos (n + 1) i f).2 ++ rest →
    ∃ r s', recvPacks tooLong fuel g len s = some (r, f.head.len, s') ∧ s'.flatten = rest ∧ r.head.cmd = f.head.cmd ∧
      r.head.len = f.head.len ∧ r.data.read 0 f.head.len.toNat = g.data.read 0 len.toNat ++ taken pos f.data f.head.len.toNat (n + 1) i := by
  intro n
  induction n with
  | zero =>
    intro i fuel f g len s hf hi hn hlen ht hs
    obtain ⟨m, rfl⟩ : ∃ m, fuel = m + 1 := ⟨fuel - 1, by omega⟩
    rw [sendPacks, List.append_assoc, List.append_assoc] at hs
    obtain ⟨r, len', s', hr, hs', hh, hl, hd⟩ := recvPack_pack g hf (by omega) hlen ht hs
    have hlen' : len' = f.head.len :=
      UInt32.toNat_inj.mp (hl.trans (PtcHead.packBytes_last hf.len hi))
    have hlast : r.head.packCount = r.head.packNo := by
      rw [hh]
      exact (PtcHead.packNo_eq hf.len hf.packCount (by omega)).mpr hi
    subst hlen'
    refine ⟨r, s', ?_, by simpa [sendPacks] using hs', by rw [hh]; rfl, by rw [hh]; rfl, ?_⟩
    · simp [recvPacks, hr, hlast]
    · simp only [taken, List.append_nil, hd]
  | succ n ih =>
    intro i fuel f g len s hf hi hn hlen ht hs
    obtain ⟨m, rfl⟩ : ∃ m, fuel = m + 1 := ⟨fuel - 1, by omega⟩
    rw [sendPacks, List.append_assoc, List.append_assoc] at hs
    obtain ⟨r, len', s', hr, hs', hh, hl, hd⟩ := recvPack_pack g hf (by omega) hlen ht hs
    have hmore : r.head.packCount ≠ r.head.packNo := by
      rw [hh]
      exact fun he => by
        have := (PtcHead.packNo_eq hf.len hf.packCount (i := i) (by omega)).mp he
        omega
    have hl' : len'.toNat = (i + 1) * packSize := by
      rw [hl, PtcHead.packBytes_of_lt hf.len (by omega), Nat.succ_mul]
    have hi' : i + 1 + n + 1 = f.head.count.toNat := by omega
    obtain ⟨q, s'', hq, hs'', hcmd, hlq, hdq⟩ := ih (g := r) (hf.pack i) hi' (Nat.le_of_succ_le_succ hn) hl' ht hs'
    refine ⟨q, s'', ?_, hs'', hcmd, hlq, ?_⟩
    · rw [recvPacks, hr]
      exact (if_neg hmore).trans hq
    · rw [taken, ← List.append_assoc, ← hd]
      exact hdq

theorem sendPacks_length (pos : ℕ → ℕ) : ∀ (n i : ℕ) (f : PtcFrame), n ≤ (sendPacks pos n i f).2.length := by
  intro n
  induction n with
  | zero => exact fun _ _ => Nat.zero_le _
  | succ n ih =>
    intro i f
    have := ih (i + 1) { f with head := f.head.pack i }
    simp only [sendPacks, List.length_append, PtcHead.bytes_length]
    omega

theorem PtcFrame.sending_begin {f : PtcFrame} (h : f.head.len.toNat ≤ videoFrameSize) : Sending f.begin := ⟨rfl, rfl, h⟩

/-- What both receivers have after the loop. -/
theorem recvPacks_send {tooLong : UInt32 → Bool} {pos : ℕ → ℕ} {f g : PtcFrame} {s : Stream} {rest : List UInt8}
    (h : f.head.len.toNat ≤ videoFrameSize) (ht : ∀ m : UInt32, m.toNat ≤ f.head.len.toNat → tooLong m = false)
    (hs : s.flatten = (sendPacks pos f.begin.head.packCount.toNat 0 f.begin).2 ++ rest) :
    ∃ r s', recvPacks tooLong s.flatten.length g 0 s = some (r, f.head.len, s') ∧ s'.flatten = rest ∧
      r.head.cmd = f.head.cmd ∧ r.head.len = f.head.len ∧
      r.data.read 0 f.head.len.toNat = taken pos f.data f.head.len.toNat f.head.count.toNat 0 := by
  have hpos := PtcHead.count_pos h
  have hfuel := sendPacks_length pos f.head.count.toNat 0 f.begin
  obtain ⟨n, hn⟩ : ∃ n, f.head.count.toNat = n + 1 := ⟨f.head.count.toNat - 1, by omega⟩
  have hs₁ : s.flatten = (sendPacks pos (n + 1) 0 f.begin).2 ++ rest := by rw [← hn]; exact hs
  have hlen : n + 1 ≤ s.flatten.length := by
    rw [hs₁, List.length_append, ← hn]
    omega
  have hcount : 0 + n + 1 = f.begin.head.count.toNat := by
    rw [Nat.zero_add]
    exact hn.symm
  rw [hn]
  exact recvPacks_sendPacks (f := f.begin) (g := g) (PtcFrame.sending_begin h) hcount hlen (Nat.zero_mul _).symm ht hs₁

/-- In the order of the frame the packets are the payload. -/
theorem taken_id (m : Mem) {h : PtcHead} (hlen : h.len.toNat ≤ videoFrameSize) : ∀ {n i : ℕ}, i + n + 1 = h.count.toNat →
    taken id m h.len.toNat (n + 1) i = m.read (i * packSize) (h.len.toNat - i * packSize) := by
  intro n
  induction n with
  | zero =>
    intro i hi
    have := PtcHead.packBytes_last hlen hi
    have hb : packBytes h.len.toNat i = h.len.toNat - i * packSize := by omega
    rw [taken, taken, List.append_nil, id, hb]
  | succ n ih =>
    intro i hi
    have hb := PtcHead.packBytes_of_lt hlen (i := i) (by omega)
    have hoff := PtcHead.offset_le hlen (i := i + 1) (by omega)
    rw [Nat.succ_mul] at hoff
    have hsum : packSize + (h.len.toNat - (i * packSize + packSize)) = h.len.toNat - i * packSize := by omega
    rw [taken, ih (by omega), id, hb, Nat.succ_mul, ← Mem.read_add, hsum]

/-- **Round trip.** A frame sent in packets is received as it was, however the stream is cut, and the stream
is left at the byte after it. -/
theorem recvFrame_sendFrame (f g : PtcFrame) (h : f.head.len.toNat < videoFrameSize) (rest : List UInt8) (s : Stream)
    (hs : s.flatten = (sendFrame f).2 ++ rest) :
    ∃ r s', recvFrame g s = some (r, s') ∧ r.head.cmd = f.head.cmd ∧ r.head.len = f.head.len ∧
      r.data.read 0 f.head.len.toNat = f.data.read 0 f.head.len.toNat ∧ s'.flatten = rest := by
  have hle := Nat.le_of_lt h
  have hpos := PtcHead.count_pos hle
  have hlong : ∀ m : UInt32, m.toNat ≤ f.head.len.toNat → decide (m.toNat ≥ videoFrameSize) = false := by
    intro m hm
    rw [decide_eq_false_iff_not]
    omega
  obtain ⟨r, s', hr, hs', hc, hl, hd⟩ := recvPacks_send (g := g) hle hlong hs
  refine ⟨{ r with data := r.data.write f.head.len.toNat [0] }, s', ?_, hc, hl, ?_, hs'⟩
  · rw [recvFrame, hr]
    exact if_neg (not_not.mpr hl.symm)
  · have hall := taken_id f.data hle (n := f.head.count.toNat - 1) (i := 0) (by omega)
    rw [Nat.sub_add_cancel hpos, Nat.zero_mul, Nat.sub_zero] at hall
    rw [Mem.read_write_of_disjoint (.inr (by omega)), hd, hall]

def plainHead (len : UInt32) : PtcHead := ⟨0, 0, len, 0, 0, 0, 0, 0, 0, 0, .replicate 6 0⟩

def plainFrame (len : UInt32) : PtcFrame := ⟨plainHead len, fun a => if a < 1024 then 0 else 1⟩

/-- Two packets, cut inside the second head, and a byte behind them. -/
theorem recvFrame_cut : ∃ r s', recvFrame (plainFrame 0)
      [(sendFrame (plainFrame 1500)).2.take 1060, (sendFrame (plainFrame 1500)).2.drop 1060 ++ [7]] = some (r, s') ∧
    r.head.cmd = 0 ∧ r.head.len = 1500 ∧ r.data.read 0 1500 = (plainFrame 1500).data.read 0 1500 ∧ s'.flatten = [7] :=
  recvFrame_sendFrame (plainFrame 1500) (plainFrame 0) (by decide) [7] _ (by
    rw [List.flatten_cons, List.flatten_singleton, ← List.append_assoc, List.take_append_drop])

end Qh

end SabApp
