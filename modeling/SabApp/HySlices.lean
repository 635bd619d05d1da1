import SabApp.Accesses
import SabApp.HyPlaybackRuns

/-!
# From a HY slice to a frame (tool_ptc.c)

`tool_ptc_hy_hy2qh` builds the head of a frame over the end of a slice's own head, which for an audio slice begins
before the slice. It takes the sizes of head and tail off the slice's length field without a look at it, and sets the
flag of the new head when that has been copied.
-/

namespace SabApp

namespace Hy

open Traced

/-- HY_CMD_RTS_FRAME -/
def cmdRtsFrame : UInt8 := 0xBC

/-- PTC_VIDEO_FRAME_SIZE without the frame's head. -/
def recvSize : ℕ := 511968

/-- PTC_FRAME_FLAG -/
def frameFlag : ℕ := 0x53535353

/-- What `tool_ptc_hy_hy2qh` makes of a slice: the frame with its head is at `kind.headLen`. -/
structure Converted where
  kind : SliceKind
  head : FrameHead
  frameLen : UInt32
  item : SockItem
  mem : Mem

def load (m : Mem) (a n : ℕ) : Traced Access (List UInt8) := do
  emit (.read a n)
  pure (m.read a n)

section
variable (date2Time : FrameDate → UInt32)

/-- The head for a slice at address 32: what all kinds have, and then the kind's own fields. -/
def readHead (it : SockItem) (m : Mem) (k : SliceKind) : Traced Access (Option (FrameHead × SockItem)) := do
  let length ← load m 44 4
  let sequence ← load m 40 4
  let clock ← load m 48 4
  let len := UInt32.ofNat (word32 length 0) - 8 - UInt32.ofNat k.headLen
  let no := UInt32.ofNat (word32 sequence 0)
  let sec := date2Time (dateOf (word32 clock 0))
  match k with
  | .i => do
    let width ← load m 58 1
    let height ← load m 59 1
    let fps ← load m 63 1
    pure (some (⟨len, no, sec, 0, .ofNat (byteAt width 0 * 8), .ofNat (byteAt height 0 * 8), 1, 1,
        .ofNat (byteAt fps 0), 0⟩,
      { it with width := .ofNat (byteAt width 0 * 8), height := .ofNat (byteAt height 0 * 8),
                fpsVideo := .ofNat (byteAt fps 0) }))
  | .p => pure (some (⟨len, no, sec, 0, it.width.toUInt32.toUInt16, it.height.toUInt32.toUInt16, 2, 1,
      it.fpsVideo.toUInt32.toUInt8, 0⟩, it))
  | .a => pure (some (⟨len, no, sec, 0, 0, 0, 3, 4, 8, 0⟩, it))
  | .t => pure none

/-- `tool_ptc_hy_hy2qh` on the slice at address 32: a frame for 1, `some none` for 0. -/
def hy2qh (it : SockItem) (m : Mem) : Traced Access (Option Converted) := do
  let code ← load m 36 1
  match SliceKind.ofCode (code.headD 0) with
  | none => fail
  | some .t => pure none
  | some k => do
    match ← readHead date2Time it m k with
    | none => pure none
    | some (h, item) => do
      emit (.write k.headLen h.bytes)
      pure (some ⟨k, h, h.len + 32, item, m.write k.headLen h.bytes⟩)

end

/-- `avSliceLength` of the slice at address 32. -/
def sliceLength (m : Mem) : ℕ := word32 (m.read 44 4) 0

/-- `tool_ptc_hy_recvRts` before it converts the slice: the memory with the slice, and the rest of the stream. -/
def recvSlice (m : Mem) (s : List (List UInt8)) : Traced Access (Mem × List (List UInt8)) := do
  let (msgHead, s) ← ofOption (Pieces.recv 32 s)
  if msgHead.headD 0 ≠ cmdRtsFrame then fail
  else do
    let (head0, s) ← Pieces.recvAt 32 24 s
    let m := m.write 32 head0
    if magicAt m 32 = false then fail
    else if sliceLength m > recvSize then fail
    -- the length of the rest is negative as an int, and nothing is received
    else if sliceLength m < 24 then fail
    else do
      let (rest, s) ← Pieces.recvAt 56 (sliceLength m - 24) s
      pure (m.write 56 rest, s)

/-- `tool_ptc_hy_recvRts`. -/
def recvRts (date2Time : FrameDate → UInt32) (it : SockItem) (m : Mem) (s : List (List UInt8)) :
    Traced Access (Option Converted × List (List UInt8)) := do
  let (m, s) ← recvSlice m s
  let r ← hy2qh date2Time it m
  pure (r, s)

/-- A slice in memory that `tool_ptc_hy_recvRts` or `tool_ptc_hy_recvPbs` converts, with the bytes received at its
place. -/
inductive Slicing : Mem → List UInt8 → Prop
  | rts {m m' : Mem} {s s' : List (List UInt8)} {msgHead bs : List UInt8} (h : (recvSlice m s).value = some (m', s'))
    (hl : msgHead.length = 32) (hs : s.flatten = msgHead ++ (bs ++ s'.flatten)) : Slicing m' bs
  | pbs {b b' : RecvBuf} (h : checkPbsBuf b = (true, b')) : Slicing b'.mem b'.held

/-- Header, payload and tail are the slice, the payload is what lies between, and no access leaves the slice and the
head's room before it. -/
structure Fitting (m : Mem) (c : Converted) (xs : List Access) : Prop where
  length : c.kind.headLen + c.head.len.toNat + 8 = sliceLength m
  frameLen : c.frameLen.toNat = c.head.len.toNat + 32
  payload : c.mem.read (c.kind.headLen + 32) c.head.len.toNat =
    m.read (32 + c.kind.headLen) (sliceLength m - 8 - c.kind.headLen)
  inside : ∀ x ∈ xs, x.Within 0 (32 + sliceLength m)

/-- The head that is handed on has PTC_FRAME_FLAG. -/
def Flagged (c : Converted) : Prop := word32 (c.mem.read c.kind.headLen 32) 28 = frameFlag

/-- What the conversion of a slice is to be. -/
def Conforms (m : Mem) (bs : List UInt8) (c : Converted) (xs : List Access) : Prop :=
  m.read 32 (sliceLength m) <+: bs ∧ Fitting m c xs ∧ Flagged c

/-! ## The slice -/

theorem recvSlice_received {m m' : Mem} {s s' : List (List UInt8)} (h : (recvSlice m s).value = some (m', s')) :
    ∃ msgHead : List UInt8, msgHead.length = 32 ∧ s.flatten = msgHead ++ (m'.read 32 (sliceLength m') ++ s'.flatten) := by
  unfold recvSlice at h
  rw [value_bind, value_ofOption] at h
  obtain ⟨⟨msgHead, s₁⟩, h₁, h⟩ := Option.bind_eq_some_iff.mp h
  obtain ⟨hl₁, hs₁⟩ := Pieces.recv_some h₁
  dsimp only at h
  split at h
  · cases h
  rw [value_bind, Pieces.value_recvAt] at h
  obtain ⟨⟨head0, s₂⟩, h₂, h⟩ := Option.bind_eq_some_iff.mp h
  obtain ⟨hl₂, hs₂⟩ := Pieces.recv_some h₂
  dsimp only at h
  split at h
  · cases h
  split at h
  · cases h
  split at h
  · cases h
  next hn =>
  rw [value_bind, Pieces.value_recvAt] at h
  obtain ⟨⟨rest, s₃⟩, h₃, h⟩ := Option.bind_eq_some_iff.mp h
  obtain ⟨hl₃, hs₃⟩ := Pieces.recv_some h₃
  cases h
  have hlen : sliceLength ((m.write 32 head0).write 56 rest) = sliceLength (m.write 32 head0) := by
    rw [sliceLength, sliceLength, Mem.read_write_of_disjoint (.inr (by omega))]
  have hsize : sliceLength (m.write 32 head0) = (head0 ++ rest).length := by
    rw [List.length_append]
    omega
  have hmem : (m.write 32 head0).write 56 rest = m.write 32 (head0 ++ rest) := by
    rw [← Mem.write_write_append, hl₂]
  refine ⟨msgHead, hl₁, ?_⟩
  rw [hlen, hsize, hmem, Mem.read_write, hs₁, hs₂, hs₃, List.append_assoc]

theorem checkPbsBuf_true {b b' : RecvBuf} (h : checkPbsBuf b = (true, b')) :
    sliceLength b'.mem ≤ b'.len ∧ b'.leftBuf = 32 + sliceLength b'.mem ∧ b'.leftLen = b'.len - sliceLength b'.mem := by
  unfold checkPbsBuf at h
  split at h
  · cases h
  cases ha : adjust b with
  | none =>
    rw [ha] at h
    cases h
  | some b₁ =>
    rw [ha] at h
    dsimp only at h
    split at h
    · cases h
    · next hn =>
      cases h
      exact ⟨Nat.le_of_not_lt hn, rfl, rfl⟩

/-- The slice has been received as a whole. -/
theorem Slicing.received {m : Mem} {bs : List UInt8} (h : Slicing m bs) : m.read 32 (sliceLength m) <+: bs := by
  cases h with
  | rts h hl hs =>
    obtain ⟨msgHead, hl', hs'⟩ := recvSlice_received h
    rw [hs] at hs'
    have hrest := (List.append_inj hs' (hl.trans hl'.symm)).2
    exact ⟨[], by rw [List.append_nil, List.append_cancel_right hrest]⟩
  | pbs h =>
    have hle := (checkPbsBuf_true h).1
    rw [Mem.read_take _ 32 hle]
    exact List.take_prefix _ _

/-! ## The conversion -/

section
variable {date2Time : FrameDate → UInt32} {it : SockItem} {m : Mem} {k : SliceKind} {c : Converted}

variable (date2Time it) in
/-- A slice that is handed on: what is read of its head, and then the new head's place. -/
theorem hy2qh_media (hk : SliceKind.ofCode (m 36) = some k) (hm : k.media = true) :
    ∃ h item xs, newHead date2Time it k (m.read 32 k.headLen) = some (h, item) ∧
      h.len = .ofNat (sliceLength m) - 8 - .ofNat k.headLen ∧ h.flag = 0 ∧
      hy2qh date2Time it m = ⟨some (some ⟨k, h, h.len + 32, item, m.write k.headLen h.bytes⟩),
        xs ++ [.write k.headLen h.bytes]⟩ ∧ ∀ x ∈ xs, x.Within 32 (32 + k.headLen) := by
  have hcode : SliceKind.ofCode ((m.read 36 1).headD 0) = some k := hk
  unfold hy2qh
  rw [bind_some (a := m.read 36 1) rfl]
  simp only [hcode]
  cases k with
  | i =>
    refine ⟨_, _, [.read 36 1, .read 44 4, .read 40 4, .read 48 4, .read 58 1, .read 59 1, .read 63 1], rfl, rfl, rfl,
      rfl, ?_⟩
    simp [Access.Within, SliceKind.headLen]
  | p =>
    refine ⟨_, _, [.read 36 1, .read 44 4, .read 40 4, .read 48 4], rfl, rfl, rfl, rfl, ?_⟩
    simp [Access.Within, SliceKind.headLen]
  | a =>
    refine ⟨_, _, [.read 36 1, .read 44 4, .read 40 4, .read 48 4], rfl, rfl, rfl, rfl, ?_⟩
    simp [Access.Within, SliceKind.headLen]
  | t => cases hm

theorem media_of_value (h : (hy2qh date2Time it m).value = some (some c)) :
    ∃ k, SliceKind.ofCode (m 36) = some k ∧ k.media = true := by
  unfold hy2qh at h
  rw [bind_some (a := m.read 36 1) rfl] at h
  have hcode : SliceKind.ofCode ((m.read 36 1).headD 0) = SliceKind.ofCode (m 36) := rfl
  simp only [hcode] at h
  cases hk : SliceKind.ofCode (m 36) with
  | none => simp [hk] at h
  | some k =>
    refine ⟨k, rfl, ?_⟩
    cases k with
    | i | p | a => rfl
    | t => simp [hk] at h

/-- `tool_ptc_hy_recvRts` converts the slice that it has received. -/
theorem recvRts_some {s s' : List (List UInt8)} (h : (recvRts date2Time it m s).value = some (some c, s')) :
    ∃ m' bs, Slicing m' bs ∧ (hy2qh date2Time it m').value = some (some c) := by
  unfold recvRts at h
  rw [value_bind] at h
  obtain ⟨⟨m', s₁⟩, hm, h⟩ := Option.bind_eq_some_iff.mp h
  obtain ⟨msgHead, hl, hs⟩ := recvSlice_received hm
  dsimp only at h
  rw [value_bind] at h
  obtain ⟨r, hr, h⟩ := Option.bind_eq_some_iff.mp h
  cases h
  exact ⟨m', _, .rts hm hl hs, hr⟩

/-- `tool_ptc_hy_recvPbs` hands on what the conversion makes. -/
theorem hy2qh_world (w : PbsWorld) (b : RecvBuf) :
    w.hy2qh date2Time b = match (hy2qh date2Time w.item b.mem).value with
      | none => .error .failed
      | some none => .ok { w with buf := b }
      | some (some c) => .ok { w with buf := { b with mem := c.mem }, item := c.item,
                                      outs := w.outs ++ [c.mem.read c.kind.headLen c.frameLen.toNat] } := by
  unfold PbsWorld.hy2qh
  cases hk : SliceKind.ofCode (b.mem 36) with
  | none =>
    have hcode : SliceKind.ofCode ((b.mem.read 36 1).headD 0) = none := hk
    unfold hy2qh
    rw [bind_some (a := b.mem.read 36 1) rfl]
    simp only [hcode, value_fail]
  | some k =>
    cases hm : k.media with
    | true =>
      obtain ⟨h, item, xs, hnew, -, -, heq, -⟩ := hy2qh_media date2Time w.item hk hm
      simp only [hnew, heq]
    | false =>
      obtain rfl : k = .t := by
        cases k with
        | i | p | a => cases hm
        | t => rfl
      have hcode : SliceKind.ofCode ((b.mem.read 36 1).headD 0) = some .t := hk
      unfold hy2qh
      rw [bind_some (a := b.mem.read 36 1) rfl]
      simp only [hcode, value_pure]
      rfl

theorem word32_flag (h : FrameHead) : word32 h.bytes 28 = h.flag.toNat := by
  rw [FrameHead.bytes, word32_append_right (i := 28) (Nat.le_of_eq rfl)]
  exact word32_le32 h.flag.toNat_lt

/-- A slice that is converted was received as a whole. Its frame fits it exactly if the length field is not below the
sizes of head and tail, and never has the flag. -/
theorem slicing_fitting {bs : List UInt8} (hs : Slicing m bs) (hc : (hy2qh date2Time it m).value = some (some c)) :
    ¬ Conforms m bs c (hy2qh date2Time it m).events ∧ m.read 32 (sliceLength m) <+: bs ∧
      (Fitting m c (hy2qh date2Time it m).events ↔ c.kind.headLen + 8 ≤ sliceLength m) := by
  obtain ⟨k, hk, hm⟩ := media_of_value hc
  obtain ⟨head, item, xs, -, hlen, hflag, heq, hxs⟩ := hy2qh_media date2Time it hk hm
  rw [heq] at hc
  cases hc
  have hn : sliceLength m < 4294967296 := word32_lt _ _
  refine ⟨fun h => ?_, hs.received, fun hf => ?_, fun hle => ?_⟩
  · have hw := Mem.read_write m k.headLen head.bytes
    rw [head.bytes_length] at hw
    have hset : word32 ((m.write k.headLen head.bytes).read k.headLen 32) 28 = frameFlag := h.2.2
    rw [hw, word32_flag, hflag] at hset
    exact absurd hset (by decide)
  · have := hf.length
    omega
  · have hle : k.headLen + 8 ≤ sliceLength m := hle
    have hl : head.len.toNat = sliceLength m - 8 - k.headLen := by
      rw [hlen]
      exact payload_len hn hle
    have hdisj : (m.write k.headLen head.bytes).read (k.headLen + 32) head.len.toNat =
        m.read (k.headLen + 32) head.len.toNat :=
      Mem.read_write_of_disjoint (.inl (by simp))
    refine ⟨?_, ?_, ?_, ?_⟩
    · show k.headLen + head.len.toNat + 8 = sliceLength m
      omega
    · have hge := k.headLen_ge
      show (head.len + 32).toNat = head.len.toNat + 32
      rw [UInt32.toNat_add]
      exact Nat.mod_eq_of_lt (by
        show head.len.toNat + 32 < 4294967296
        omega)
    · show (m.write k.headLen head.bytes).read (k.headLen + 32) head.len.toNat = _
      rw [hdisj, hl, Nat.add_comm]
    · rw [heq]
      intro x hx
      rcases List.mem_append.mp hx with hx | hx
      · exact (hxs x hx).mono (Nat.zero_le _) (by omega)
      · rw [List.eq_of_mem_singleton hx]
        refine ⟨Nat.zero_le _, ?_⟩
        rw [head.bytes_length]
        omega

end

/-- A slice of 49 bytes in the buffer, and nothing else. -/
def oneSlice : RecvBuf := ⟨Mem.write (fun _ => 0) 32 PbsWorld.iSlice.bytes, 49, 0, 0⟩

theorem slicing_oneSlice : Slicing oneSlice.mem oneSlice.held := by
  have hcheck : checkPbsBuf oneSlice = (true, beside oneSlice 49) := rfl
  have hslice : Slicing (beside oneSlice 49).mem (beside oneSlice 49).held := .pbs hcheck
  exact hslice

theorem oneSlice_fitting : ∃ c xs, ¬ Conforms oneSlice.mem oneSlice.held c xs ∧
    oneSlice.mem.read 32 (sliceLength oneSlice.mem) <+: oneSlice.held ∧
    (Fitting oneSlice.mem c xs ↔ c.kind.headLen + 8 ≤ sliceLength oneSlice.mem) :=
  have hc : ∃ c, (hy2qh (fun _ => 0) ⟨0, 0, 0, 0, 0, 0, 0⟩ oneSlice.mem).value = some (some c) := ⟨_, rfl⟩
  hc.elim fun _ hc => ⟨_, _, slicing_fitting slicing_oneSlice hc⟩

/-- Its frame goes out without the flag. -/
theorem not_conforms : ¬ ∀ (date2Time : FrameDate → UInt32) (it : SockItem) (m : Mem) (bs : List UInt8) (c : Converted),
    Slicing m bs → (hy2qh date2Time it m).value = some (some c) →
    Conforms m bs c (hy2qh date2Time it m).events := by
  intro h
  have hc := h (fun _ => 0) ⟨0, 0, 0, 0, 0, 0, 0⟩ oneSlice.mem oneSlice.held _ slicing_oneSlice rfl
  exact absurd hc.2.2 (by unfold Flagged; decide)

end Hy

end SabApp
