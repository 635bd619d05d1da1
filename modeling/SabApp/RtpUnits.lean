import SabApp.Framing
import SabApp.RtpVideo

/-!
# Access units in RTP packets

The NAL units of an access unit are sent in order, each in one packet or in fragments. The reader gets
them back, in order and each behind a start code, as long as every packet fits its limits.
-/

namespace SabApp

namespace Rtp

/-- The RTP head without extension and sources; the numbers are as they lie in memory. -/
structure RtpHead where
  first : UInt8
  pt : ℕ
  m : Bool
  seq : UInt16
  ts : UInt32
  ssrc : UInt32

def RtpHead.bytes (h : RtpHead) : List UInt8 :=
  [h.first, .ofNat (h.pt + if h.m then 128 else 0)] ++ le16 h.seq.toNat ++ le32 h.ts.toNat ++ le32 h.ssrc.toNat

/-- What one packet carries: a NAL unit, or a fragment of one. -/
inductive Part where
  | single (header : UInt8) (payload : List UInt8)
  | fua (start last : Bool) (header : UInt8) (fragment : List UInt8)

def fuHead (start last : Bool) (header : UInt8) : UInt8 := .ofNat (start.toNat * 128 + last.toNat * 64 + type header)

namespace Part

def payload : Part → List UInt8
  | single header payload => header :: payload
  | fua start last header fragment =>
    setType header 28 :: fuHead start last header :: fragment

/-- What the reader lays down. -/
def laid : Part → List UInt8
  | single header payload => startCode ++ header :: payload
  | fua true _ header fragment => startCode ++ header :: fragment
  | fua false _ _ fragment => fragment

/-- The header of the unit that is carried. -/
def header : Part → UInt8
  | single header _ => header
  | fua _ _ header _ => header

/-- What is carried of the unit behind its header. -/
def data : Part → List UInt8
  | single _ payload => payload
  | fua _ _ _ fragment => fragment

/-- The part begins a unit. -/
def opens : Part → Bool
  | single .. => true
  | fua start .. => start

/-- The type of a unit in a packet of its own is that of a NAL unit. -/
def Ok : Part → Prop
  | single header _ => 1 ≤ type header ∧ type header ≤ 23
  | fua .. => True

end Part

structure Packet where
  channel : UInt8
  head : RtpHead
  part : Part

namespace Packet

def length (p : Packet) : ℕ := 12 + p.part.payload.length

def bytes (p : Packet) : List UInt8 :=
  [0x24, p.channel, .ofNat (p.length / 256), .ofNat p.length] ++ p.head.bytes ++ p.part.payload

end Packet

/-- Each packet is within RTP_PKT_SIZE, and within the frame with what was laid down before it. -/
def Fits : ℕ → List Packet → Prop
  | _, [] => True
  | n, p :: ps => p.length ≤ pktSize ∧ n + p.part.payload.length + 4 ≤ videoFrameSize ∧ Fits (n + p.part.laid.length) ps

/-- A packet as it can be written: the length is a number of 16 bits. -/
structure Wire (p : Packet) : Prop where
  ok : p.part.Ok
  pt : isH264 p.head.pt = true
  length : p.length < 65536

/-! ## One packet -/

@[simp] theorem RtpHead.bytes_length (h : RtpHead) : h.bytes.length = 12 := rfl

theorem isH264_lt {pt : ℕ} (h : isH264 pt = true) : pt < 128 := by
  simp only [isH264, Bool.or_eq_true, decide_eq_true_eq] at h
  omega

theorem RtpHead.pt_bytes {h : RtpHead} (hpt : h.pt < 128) : byteAt h.bytes 1 % 128 = h.pt := by
  have : byteAt h.bytes 1 = (UInt8.ofNat (h.pt + if h.m then 128 else 0)).toNat := rfl
  rw [this, UInt8.toNat_ofNat']
  split <;> omega

theorem RtpHead.m_bytes {h : RtpHead} (hpt : h.pt < 128) : decide (byteAt h.bytes 1 / 128 = 1) = h.m := by
  have : byteAt h.bytes 1 = (UInt8.ofNat (h.pt + if h.m then 128 else 0)).toNat := rfl
  rw [this, UInt8.toNat_ofNat']
  cases h.m
  · rw [if_neg Bool.false_ne_true, decide_eq_false_iff_not]
    omega
  · rw [if_pos rfl, decide_eq_true_eq]
    omega

theorem RtpHead.ts_bytes (h : RtpHead) : UInt32.ofNat (word32 h.bytes 4) = h.ts := by
  rw [bytes, word32_append_left (by simp), word32_append_right (by simp)]
  exact (congrArg _ (word32_le32 h.ts.toNat_lt)).trans UInt32.ofNat_toNat

theorem Packet.length_bytes {p : Packet} (h : p.length < 65536) :
    be16 [0x24, p.channel, .ofNat (p.length / 256), .ofNat p.length] 2 = p.length := by
  simp only [be16, byteAt, List.getD_cons_zero, List.getD_cons_succ, UInt8.toNat_ofNat']
  omega

theorem type_setType {b : UInt8} {t : ℕ} (ht : t < 32) : type (setType b t) = t := by
  have := b.toNat_lt
  simp only [type, setType, UInt8.toNat_ofNat']
  omega

theorem setType_type (b : UInt8) (t : ℕ) (ht : t < 32) : setType (setType b t) (type b) = b := by
  have := b.toNat_lt
  apply UInt8.toNat_inj.mp
  simp only [type, setType, UInt8.toNat_ofNat']
  omega

theorem type_fuHead (start last : Bool) (header : UInt8) : type (fuHead start last header) = type header := by
  cases start <;> cases last <;> simp only [type, fuHead, UInt8.toNat_ofNat', Bool.toNat_true, Bool.toNat_false] <;> omega

theorem startBit_fuHead (start last : Bool) (header : UInt8) : startBit (fuHead start last header) = start := by
  have : type header < 32 := Nat.mod_lt _ (by decide)
  cases start <;> cases last <;>
    simp only [startBit, fuHead, UInt8.toNat_ofNat', Bool.toNat_true, Bool.toNat_false, decide_eq_true_eq,
      decide_eq_false_iff_not] <;> omega

namespace Unpacked

/-- The bytes laid down. -/
def laid (u : Unpacked) : List UInt8 := u.frame.body.read 0 u.len

@[simp] theorem put_laid (u : Unpacked) (bs : List UInt8) : (u.put bs).laid = u.laid ++ bs := by
  simp only [laid, put, Mem.read_add, Nat.zero_add, Mem.read_write]
  rw [Mem.read_write_of_disjoint (.inr (by omega))]

@[simp] theorem put_len (u : Unpacked) (bs : List UInt8) : (u.put bs).len = u.len + bs.length := rfl

@[simp] theorem openNal_laid (u : Unpacked) (header : UInt8) : (u.openNal header).laid = u.laid ++ (startCode ++ [header]) := by
  simp [openNal]

@[simp] theorem openNal_len (u : Unpacked) (header : UInt8) : (u.openNal header).len = u.len + 5 := rfl

@[simp] theorem noteNal_laid (u : Unpacked) (header : UInt8) (n : ℕ) : (u.noteNal header n).laid = u.laid := rfl

@[simp] theorem noteNal_len (u : Unpacked) (header : UInt8) (n : ℕ) : (u.noteNal header n).len = u.len := rfl

theorem noteNal_frameType (u : Unpacked) (header : UInt8) (n : ℕ) : (u.noteNal header n).frame.head.frameType ≠ 3 := by
  simp only [noteNal, setKind]
  split <;> decide

/-- A new time begins the frame again. -/
def enter (u : Unpacked) (ts : UInt32) : Unpacked := if u.lastTs ≠ ts then { u with len := 0, spsLen := 0 } else u

def openPart (u : Unpacked) (part : Part) : Unpacked := if part.opens then u.openNal part.header else u

/-- What a packet makes of the frame under way. -/
def take (u : Unpacked) (p : Packet) : Unpacked :=
  { (((u.enter p.head.ts).openPart p.part).noteNal p.part.header p.part.data.length).put p.part.data with
    lastTs := p.head.ts }

/-- The packet fits the reader's limits. -/
def Room (u : Unpacked) (p : Packet) : Prop :=
  p.length ≤ pktSize ∧ (u.enter p.head.ts).len + p.part.payload.length + 4 ≤ videoFrameSize

/-- The packet's payload header opens a unit, or goes on with one. -/
theorem recvNal_part {u : Unpacked} {part : Part} {s : Stream} {rest : List UInt8} (hok : part.Ok)
    (hs : s.flatten = part.payload ++ rest) : ∃ s', u.recvNal part.payload.length s =
      some ((u.openPart part).noteNal part.header part.data.length, part.data.length, s') ∧ s'.flatten = part.data ++ rest := by
  cases part with
  | single header payload =>
    have hs : s.flatten = [header] ++ (payload ++ rest) := hs
    obtain ⟨s₁, h₁, hs₁⟩ := Pieces.recv_append hs
    have htype : type header ≠ 28 := by
      have := hok.2
      omega
    refine ⟨s₁, ?_, hs₁⟩
    simp only [List.length_singleton] at h₁
    simp [recvNal, h₁, htype, openPart, Part.payload, Part.header, Part.data, Part.opens]
  | fua start last header fragment =>
    have hs : s.flatten = [setType header 28] ++ ([fuHead start last header] ++ (fragment ++ rest)) := hs
    obtain ⟨s₁, h₁, hs₁⟩ := Pieces.recv_append hs
    obtain ⟨s₂, h₂, hs₂⟩ := Pieces.recv_append hs₁
    have htype := type_setType (b := header) (t := 28) (by decide)
    refine ⟨s₂, ?_, hs₂⟩
    simp only [List.length_singleton] at h₁ h₂
    cases start <;>
      simp [recvNal, h₁, h₂, htype, type_fuHead, startBit_fuHead, setType_type header 28, openPart, Part.payload,
        Part.header, Part.data, Part.opens]

/-- The limits decide on a packet, as a whole and before what it carries is read. -/
theorem recvPacket_wire {u : Unpacked} {p : Packet} {s : Stream} {rest : List UInt8} (hok : p.part.Ok)
    (hpt : isH264 p.head.pt = true) (hlt : p.length < 65536) (hs : s.flatten = p.bytes ++ rest) :
    u.Room p ∧ (∃ s', u.recvPacket s = some (u.take p, p.head.m, s') ∧ s'.flatten = rest) ∨
      ¬u.Room p ∧ u.recvPacket s = none := by
  have hpt' := isH264_lt hpt
  rw [Packet.bytes, List.append_assoc, List.append_assoc] at hs
  obtain ⟨s₁, h₁, hs₁⟩ := Pieces.recv_append hs
  obtain ⟨s₂, h₂, hs₂⟩ := Pieces.recv_append hs₁
  obtain ⟨s₃, h₃, hs₃⟩ := recvNal_part (u := u.enter p.head.ts) hok hs₂
  obtain ⟨s₄, h₄, hs₄⟩ := Pieces.recv_append hs₃
  have hflag : byteAt [0x24, p.channel, .ofNat (p.length / 256), .ofNat p.length] 0 = 0x24 := rfl
  have hlen : ¬p.length < 12 := Nat.not_lt.mpr (Nat.le_add_right ..)
  have hpay : p.length - 12 = p.part.payload.length := Nat.add_sub_cancel_left ..
  have hkind : (u.enter p.head.ts).recvKind p.head.pt p.part.payload.length s₂ = some
      (((u.enter p.head.ts).openPart p.part).noteNal p.part.header p.part.data.length, p.part.data.length, s₃) := by
    rw [recvKind, if_pos hpt, h₃]
  rw [RtpHead.bytes_length] at h₂
  simp only [List.length_cons, List.length_nil] at h₁
  have hturn : u.recvPacket s = if p.length > pktSize then none
      else if (u.enter p.head.ts).len + p.part.payload.length + 4 > videoFrameSize then none
      else some (u.take p, p.head.m, s₄) := by
    simp only [recvPacket, h₁, h₂, Packet.length_bytes hlt, hflag, hlen, hpay, RtpHead.pt_bytes hpt',
      RtpHead.m_bytes hpt', RtpHead.ts_bytes, ← enter.eq_1, hkind, h₄, ne_eq, not_true_eq_false, false_or]
    rfl
  rw [hturn]
  by_cases hbig : p.length > pktSize
  · exact .inr ⟨fun h => absurd h.1 (Nat.not_le.mpr hbig), if_pos hbig⟩
  rw [if_neg hbig]
  by_cases hfull : (u.enter p.head.ts).len + p.part.payload.length + 4 > videoFrameSize
  · exact .inr ⟨fun h => absurd h.2 (Nat.not_le.mpr hfull), if_pos hfull⟩
  · exact .inl ⟨⟨Nat.le_of_not_lt hbig, Nat.le_of_not_lt hfull⟩, s₄, if_neg hfull, hs₄⟩

theorem take_frameType (u : Unpacked) (p : Packet) :
    (u.take p).frame.head.frameType = if nri p.part.header = 2 ∨ nri p.part.header = 0 then 2 else 1 := rfl

theorem take_video (u : Unpacked) (p : Packet) : (u.take p).frame.head.frameType ≠ 3 :=
  noteNal_frameType ((u.enter p.head.ts).openPart p.part) p.part.header p.part.data.length

theorem take_enter (u : Unpacked) (p : Packet) :
    (u.take p).laid = (u.enter p.head.ts).laid ++ p.part.laid ∧
      (u.take p).len = (u.enter p.head.ts).len + p.part.laid.length := by
  have hlaid : (u.take p).laid = ((u.enter p.head.ts).openPart p.part).laid ++ p.part.data := put_laid _ _
  have hlen : (u.take p).len = ((u.enter p.head.ts).openPart p.part).len + p.part.data.length := put_len _ _
  rw [hlaid, hlen]
  cases p.part with
  | single header payload =>
    simp [openPart, Part.opens, Part.header, Part.data, Part.laid, startCode]
    omega
  | fua start last header fragment =>
    cases start
    · simp [openPart, Part.opens, Part.data, Part.laid]
    · simp [openPart, Part.opens, Part.header, Part.data, Part.laid, startCode]
      omega

/-- Nothing is laid down yet, or the last packet was of the same time. -/
def Goes (u : Unpacked) (ts : UInt32) : Prop := u.lastTs = ts ∨ u.len = 0

theorem Goes.enter {u : Unpacked} {ts : UInt32} (h : u.Goes ts) : (u.enter ts).laid = u.laid ∧ (u.enter ts).len = u.len := by
  unfold Unpacked.enter
  rcases h with h | h
  · rw [if_neg (not_not.mpr h)]
    exact ⟨rfl, rfl⟩
  · split
    · exact ⟨by rw [laid, laid, h], h.symm⟩
    · exact ⟨rfl, rfl⟩

/-- A packet of more than RTP_PKT_SIZE ends the call. -/
theorem recvPacket_long {u : Unpacked} {p : Packet} {s : Stream} {rest : List UInt8} (hlong : pktSize < p.length)
    (hlt : p.length < 65536) (hs : s.flatten = p.bytes ++ rest) : u.recvPacket s = none := by
  rw [Packet.bytes, List.append_assoc, List.append_assoc] at hs
  obtain ⟨s₁, h₁, _⟩ := Pieces.recv_append hs
  simp only [List.length_cons, List.length_nil] at h₁
  simp [recvPacket, h₁, Packet.length_bytes hlt, hlong]

/-- Each packet finds room behind the ones before it. -/
def Rooms : Unpacked → List Packet → Prop
  | _, [] => True
  | u, p :: ps => u.Room p ∧ Rooms (u.take p) ps

/-- **The loop.** The packets up to the one with the marker are taken one after the other, or one finds no room. -/
theorem recvPackets_wire {last : Packet} {rest : List UInt8} (hm : last.head.m = true) : ∀ {ps : List Packet} {n : ℕ}
    {u : Unpacked} {s : Stream}, ps.length < n → (∀ p ∈ ps ++ [last], Wire p) → (∀ p ∈ ps, p.head.m = false) →
    s.flatten = cat Packet.bytes (ps ++ [last]) ++ rest →
    u.Rooms (ps ++ [last]) ∧ (∃ s', recvPackets n u s = some ((ps ++ [last]).foldl take u, s') ∧ s'.flatten = rest) ∨
      ¬u.Rooms (ps ++ [last]) ∧ recvPackets n u s = none := by
  intro ps
  induction ps with
  | nil =>
    intro n u s hn hall _ hs
    obtain ⟨n, rfl⟩ : ∃ m, n = m + 1 := ⟨n - 1, by omega⟩
    have hw := hall last (by simp)
    rw [List.nil_append, cat_cons, cat_nil, List.append_nil] at hs
    rw [recvPackets]
    rcases recvPacket_wire (u := u) hw.ok hw.pt hw.length hs with ⟨hroom, t, ht, hrest⟩ | ⟨hno, ht⟩
    · refine .inl ⟨⟨hroom, trivial⟩, t, ?_, hrest⟩
      rw [ht]
      simp [hm]
    · exact .inr ⟨fun h => hno h.1, by rw [ht]⟩
  | cons p ps ih =>
    intro n u s hn hall hmore hs
    obtain ⟨n, rfl⟩ : ∃ m, n = m + 1 := ⟨n - 1, by omega⟩
    have hw := hall p (by simp)
    have hp := hmore p (by simp)
    rw [List.cons_append, cat_cons, List.append_assoc] at hs
    rw [recvPackets]
    rcases recvPacket_wire (u := u) hw.ok hw.pt hw.length hs with ⟨hroom, t, ht, hrest⟩ | ⟨hno, ht⟩
    · have hgo := ih (u := u.take p) (Nat.lt_of_succ_lt_succ hn) (fun q hq => hall q (List.mem_cons_of_mem _ hq))
        (fun q hq => hmore q (List.mem_cons_of_mem _ hq)) hrest
      rw [ht]
      simp only [hp, Bool.false_eq_true, false_or, u.take_video p, if_false]
      rcases hgo with ⟨hrooms, hall'⟩ | ⟨hno, hnone⟩
      · exact .inl ⟨⟨hroom, hrooms⟩, hall'⟩
      · exact .inr ⟨fun h => hno h.2, hnone⟩
    · exact .inr ⟨fun h => hno h.1, by rw [ht]⟩

/-- What packets of one time lay down. -/
theorem foldl_take_laid {ts : UInt32} : ∀ {ps : List Packet} {u : Unpacked}, (∀ p ∈ ps, p.head.ts = ts) → u.Goes ts →
    (ps.foldl take u).laid = u.laid ++ ps.flatMap (·.part.laid) ∧
      (ps.foldl take u).len = u.len + (ps.flatMap (·.part.laid)).length := by
  intro ps
  induction ps with
  | nil => exact fun _ _ => by simp
  | cons p ps ih =>
    intro u hts hu
    have hp := hts p (by simp)
    obtain ⟨hl, hn⟩ := (hp ▸ hu : u.Goes p.head.ts).enter
    obtain ⟨hlaid, hlen⟩ := u.take_enter p
    obtain ⟨hlaid', hlen'⟩ := ih (u := u.take p) (fun q hq => hts q (List.mem_cons_of_mem _ hq)) (.inl hp)
    rw [List.foldl_cons]
    refine ⟨?_, ?_⟩
    · rw [hlaid', hlaid, hl, List.flatMap_cons, List.append_assoc]
    · rw [hlen', hlen, hn, List.flatMap_cons, List.length_append, Nat.add_assoc]

theorem rooms_of_fits {ts : UInt32} : ∀ {ps : List Packet} {u : Unpacked}, (∀ p ∈ ps, p.head.ts = ts) → u.Goes ts →
    Fits u.len ps → u.Rooms ps := by
  intro ps
  induction ps with
  | nil => exact fun _ _ _ => trivial
  | cons p ps ih =>
    intro u hts hu hfit
    have hp := hts p (by simp)
    have hn := (hp ▸ hu : u.Goes p.head.ts).enter.2
    refine ⟨⟨hfit.1, hn ▸ hfit.2.1⟩, ih (fun q hq => hts q (List.mem_cons_of_mem _ hq)) (.inl hp) ?_⟩
    rw [(u.take_enter p).2, hn]
    exact hfit.2.2

end Unpacked

/-! ## Access units -/

/-- How a NAL unit is sent: in one packet, or in one fragment or more. -/
inductive Sent where
  | single (header : UInt8) (payload : List UInt8)
  | fua (header : UInt8) (first : List UInt8) (more : List (List UInt8))

namespace Sent

def nal : Sent → List UInt8
  | single header payload => header :: payload
  | fua header first more => header :: (first ++ more.flatten)

/-- The fragments behind the first. -/
def fragments (header : UInt8) : List (List UInt8) → List Part
  | [] => []
  | x :: xs => .fua false xs.isEmpty header x :: fragments header xs

def parts : Sent → List Part
  | single header payload => [.single header payload]
  | fua header first more => .fua true more.isEmpty header first :: fragments header more

theorem fragments_laid (header : UInt8) (xs : List (List UInt8)) : (fragments header xs).flatMap Part.laid = xs.flatten := by
  induction xs with
  | nil => rfl
  | cons x xs ih => simp [fragments, Part.laid, ih]

theorem parts_laid (u : Sent) : u.parts.flatMap Part.laid = startCode ++ u.nal := by
  cases u with
  | single header payload => simp [parts, Part.laid, nal]
  | fua header first more => simp [parts, Part.laid, nal, fragments_laid]

theorem flatMap_parts_laid (us : List Sent) : (us.flatMap parts).flatMap Part.laid = us.flatMap fun u => startCode ++ u.nal := by
  induction us with
  | nil => rfl
  | cons u us ih => simp [parts_laid, ih]

end Sent

/-- The packets carry the units in order, at one time, with the marker on the last packet only. -/
structure Carries (ps : List Packet) (us : List Sent) : Prop where
  parts : ps.map (·.part) = us.flatMap Sent.parts
  ok : ∀ p ∈ ps, p.part.Ok
  pt : ∀ p ∈ ps, isH264 p.head.pt = true
  time : ∃ ts, ∀ p ∈ ps, p.head.ts = ts
  marker : ∃ pre last, ps = pre ++ [last] ∧ last.head.m = true ∧ ∀ p ∈ pre, p.head.m = false

theorem Carries.laid {ps : List Packet} {us : List Sent} (h : Carries ps us) :
    ps.flatMap (·.part.laid) = us.flatMap fun u => startCode ++ u.nal := by
  rw [← Sent.flatMap_parts_laid, ← h.parts, List.flatMap_map]

theorem Part.laid_length_le (p : Part) : p.laid.length ≤ p.payload.length + 4 := by
  cases p with
  | single header payload => simp [Part.laid, Part.payload, startCode]
  | fua start last header fragment =>
    cases start
    · simp [Part.laid, Part.payload]
      omega
    · simp [Part.laid, Part.payload, startCode]

theorem Fits.length_le : ∀ {ps : List Packet} {n : ℕ}, Fits n ps → n ≤ videoFrameSize →
    n + (ps.flatMap (·.part.laid)).length ≤ videoFrameSize := by
  intro ps
  induction ps with
  | nil => intro n _ hn; exact hn
  | cons p ps ih =>
    intro n h _
    have hle := p.part.laid_length_le
    have := ih h.2.2 (by have := h.2.1; omega)
    rw [List.flatMap_cons, List.length_append]
    omega

theorem cat_length_ge (ps : List Packet) : ps.length ≤ (cat Packet.bytes ps).length := by
  induction ps with
  | nil => exact Nat.le_refl _
  | cons p ps ih =>
    simp [Packet.bytes]
    omega

/-- **The loop on an access unit**: its packets are taken, or one finds no room. -/
theorem Carries.loop {ps : List Packet} {us : List Sent} (h : Carries ps us) (hwire : ∀ p ∈ ps, p.length < 65536)
    (f : VideoFrame) {s : Stream} {rest : List UInt8} (hs : s.flatten = cat Packet.bytes ps ++ rest) :
    (begun f).Rooms ps ∧ (∃ s', (begun f).recvPackets s.flatten.length s = some (ps.foldl Unpacked.take (begun f), s') ∧
        s'.flatten = rest) ∨
      ¬(begun f).Rooms ps ∧ (begun f).recvPackets s.flatten.length s = none := by
  have hall : ∀ p ∈ ps, Wire p := fun p hp => ⟨h.ok p hp, h.pt p hp, hwire p hp⟩
  obtain ⟨pre, last, rfl, hm, hpre⟩ := h.marker
  have hfuel : pre.length < s.flatten.length := by
    have := cat_length_ge (pre ++ [last])
    rw [hs, List.length_append]
    simp only [List.length_append, List.length_singleton] at this
    omega
  exact Unpacked.recvPackets_wire hm hfuel hall hpre hs

theorem Fits.lengths : ∀ {ps : List Packet} {n : ℕ}, Fits n ps → ∀ p ∈ ps, p.length ≤ pktSize := by
  intro ps
  induction ps with
  | nil => exact fun _ => nofun
  | cons p ps ih =>
    intro n h q hq
    rcases List.mem_cons.mp hq with rfl | hq
    · exact h.1
    · exact ih h.2.2 q hq

/-- **Depacketisation.** An access unit whose packets fit is received as its NAL units in order, each behind
a start code. -/
theorem recvTcpVideo_units {ps : List Packet} {us : List Sent} (h : Carries ps us) (hfit : Fits 0 ps)
    (sps : List UInt8 → Int32 × Int32 → Int32 × Int32) (now : UInt32 × UInt32) (c : Counts) (f : VideoFrame) (s : Stream)
    (rest : List UInt8) (hs : s.flatten = cat Packet.bytes ps ++ rest) :
    ∃ r c' s', recvTcpVideo sps now c f s = some (r, c', s') ∧ s'.flatten = rest ∧
      r.head.len.toNat = (us.flatMap fun u => startCode ++ u.nal).length ∧
      r.body.read 0 r.head.len.toNat = us.flatMap fun u => startCode ++ u.nal := by
  obtain ⟨ts, hts⟩ := h.time
  have hwire : ∀ p ∈ ps, p.length < 65536 := fun p hp => Nat.lt_of_le_of_lt (hfit.lengths p hp) (by decide)
  rcases h.loop hwire f hs with ⟨-, s', hr, hs'⟩ | ⟨hno, -⟩
  · obtain ⟨hl, hn⟩ := Unpacked.foldl_take_laid (u := begun f) hts (.inr rfl)
    have hle := hfit.length_le (Nat.zero_le _)
    rw [h.laid] at hl hn hle
    have hn : (ps.foldl Unpacked.take (begun f)).len = (us.flatMap fun u => startCode ++ u.nal).length :=
      hn.trans (Nat.zero_add _)
    obtain ⟨r, c', hr', hret⟩ := recvTcpVideo_of_some sps now c hr
    have hlen : r.head.len.toNat = (ps.foldl Unpacked.take (begun f)).len := by
      unfold videoFrameSize at hle
      rw [hret.len, UInt32.toNat_ofNat_of_lt' (by rw [hn]; show _ < 4294967296; omega)]
    refine ⟨r, c', s', hr', hs', hlen.trans hn, ?_⟩
    rw [hlen, hret.body]
    exact hl
  · exact absurd (Unpacked.rooms_of_fits hts (.inr rfl) hfit) hno

def rtpHead (m : Bool) : RtpHead := ⟨0x80, 96, m, 0, 90, 0⟩

def noFrame : VideoFrame := ⟨⟨0, 0, 0, 0, 0, 0, 0, 0, 0, 0⟩, fun _ => 0⟩

/-- A unit of its own and one in two fragments. -/
def threePackets : List Packet :=
  [⟨0, rtpHead false, .single 0x67 [1, 2]⟩, ⟨0, rtpHead false, .fua true false 0x65 [3]⟩,
    ⟨0, rtpHead true, .fua false true 0x65 [4, 5]⟩]

theorem threePackets_units : ∃ r c' s', recvTcpVideo (fun _ size => size) (0, 0) ⟨0, 0, 0, 0, [], 0, []⟩ noFrame
      [cat Packet.bytes threePackets ++ [7]] = some (r, c', s') ∧ s'.flatten = [7] ∧ r.head.len.toNat = 15 ∧
      r.body.read 0 r.head.len.toNat = [0, 0, 0, 1, 0x67, 1, 2, 0, 0, 0, 1, 0x65, 3, 4, 5] := by
  have h : Carries threePackets [.single 0x67 [1, 2], .fua 0x65 [3] [[4, 5]]] := by
    refine ⟨rfl, ?_, ?_, ⟨90, ?_⟩, ⟨threePackets.take 2, _, rfl, rfl, ?_⟩⟩ <;>
      simp [threePackets, rtpHead, Part.Ok, type, isH264]
  exact recvTcpVideo_units h ⟨by decide, by decide, by decide, by decide, by decide, by decide, trivial⟩ _ _ _ _ _ [7] (by simp)

def longPayload : List UInt8 := List.replicate 2036 0

@[simp] theorem longPayload_length : longPayload.length = 2036 := List.length_replicate ..

/-- A unit of 2037 bytes in one packet. -/
def longPacket : Packet := ⟨0, rtpHead true, .single 0x65 longPayload⟩

/-- It is far within the frame, but longer than RTP_PKT_SIZE. -/
theorem longPacket_refused : Carries [longPacket] [.single 0x65 longPayload] ∧
    (startCode ++ (Sent.single 0x65 longPayload).nal).length ≤ videoFrameSize ∧
    recvTcpVideo (fun _ size => size) (0, 0) ⟨0, 0, 0, 0, [], 0, []⟩ noFrame [cat Packet.bytes [longPacket]] = none := by
  refine ⟨⟨rfl, ?_, ?_, ⟨90, ?_⟩, ⟨[], _, rfl, rfl, ?_⟩⟩, ?_, ?_⟩
  · simp [longPacket, Part.Ok, type]
  · simp [longPacket, rtpHead, isH264]
  · simp [longPacket, rtpHead]
  · simp
  · simp [Sent.nal, startCode, videoFrameSize]
  · have hlen : longPacket.length = 2049 := by simp [longPacket, Packet.length, Part.payload]
    have hs : [cat Packet.bytes [longPacket]].flatten = longPacket.bytes ++ [] := by simp
    have hlong : ∀ u : Unpacked, u.recvPacket [cat Packet.bytes [longPacket]] = none := fun u =>
      Unpacked.recvPacket_long (by rw [hlen]; decide) (by rw [hlen]; decide) hs
    rw [recvTcpVideo]
    cases [cat Packet.bytes [longPacket]].flatten.length with
    | zero => rfl
    | succ n => rw [Unpacked.recvPackets, hlong]

end Rtp

end SabApp
