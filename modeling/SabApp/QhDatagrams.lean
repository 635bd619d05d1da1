import SabApp.QhSearchDev

/-!
# Datagrams (tool_ptc.c)

`tool_ptc_qh_recvfromMsg` compares the length in the head with the room in the message, not with what came. Behind a short
datagram the payload is what the message held before.
-/

namespace SabApp

namespace Qh

/-- `ptc_msg_t`, as its bytes. -/
structure PtcMsg where
  bytes : List UInt8
  size : bytes.length = headSize + msgSize

namespace PtcMsg

def head (m : PtcMsg) : PtcHead := .ofBytes m.bytes

/-- The first `head.len` bytes of `data`, as far as there are that many. -/
def payload (m : PtcMsg) : List UInt8 := (m.bytes.drop headSize).take m.head.len.toNat

/-- The bytes a datagram leaves in the message. -/
def overwrite (m : PtcMsg) (dgram : List UInt8) : PtcMsg :=
  let bytes := dgram.take (headSize + msgSize)
  ⟨bytes ++ m.bytes.drop bytes.length, by
    have hle : bytes.length ≤ headSize + msgSize := List.length_take_le ..
    rw [List.length_append, List.length_drop, m.size, Nat.add_sub_cancel' hle]⟩

end PtcMsg

/-- `tool_sock_item_recvfrom` with room for a message; `none` is an error of the socket. -/
def tool_sock_item_recvfrom (m : PtcMsg) : Option (List UInt8) → Int × PtcMsg
  | none => (-1, m)
  | some dgram => ((dgram.take (headSize + msgSize)).length, m.overwrite dgram)

def tool_ptc_qh_recvfromMsg (m : PtcMsg) (came : Option (List UInt8)) : Int32 × PtcMsg :=
  let (ret, m) := tool_sock_item_recvfrom m came
  if ret < headSize then (-1, m)
  else if m.head.flag ≠ ptcFlag then (-1, m)
  else if m.head.len.toNat > msgSize then (-1, m)
  else (0, m)

/-- Success only with `head.len` bytes of payload in the message, all from this datagram. -/
def PayloadHonest (m : PtcMsg) (came : Option (List UInt8)) : Prop :=
  let r := tool_ptc_qh_recvfromMsg m came
  r.1 = 0 → ∃ dgram, came = some dgram ∧ r.2.payload.length = r.2.head.len.toNat ∧
    r.2.payload = (dgram.drop headSize).take r.2.head.len.toNat

/-- A datagram with a head that is accepted has as many bytes behind it as the head announces. -/
def HoldsItsPayload (dgram : List UInt8) : Prop :=
  headSize ≤ dgram.length → (PtcHead.ofBytes dgram).flag = ptcFlag → (PtcHead.ofBytes dgram).len.toNat ≤ msgSize →
    headSize + (PtcHead.ofBytes dgram).len.toNat ≤ dgram.length

/-! ## One datagram -/

theorem PtcHead.ofBytes_append {xs : List UInt8} (h : headSize ≤ xs.length) (ys : List UInt8) :
    ofBytes (xs ++ ys) = ofBytes xs := by
  unfold headSize at h
  have hbyte (i : ℕ) (hi : i < 32) : (xs ++ ys).getD i 0 = xs.getD i 0 := by
    rw [List.getD_eq_getElem?_getD, List.getElem?_append_left (by omega), ← List.getD_eq_getElem?_getD]
  unfold ofBytes
  simp (disch := omega) only [word32_append_left, word16_append_left, hbyte]

theorem PtcHead.ofBytes_take {xs : List UInt8} (h : headSize ≤ xs.length) {n : ℕ} (hn : headSize ≤ n) :
    ofBytes (xs.take n) = ofBytes xs := by
  have hlen : headSize ≤ (xs.take n).length := by
    rw [List.length_take]
    exact Nat.le_min.mpr ⟨hn, h⟩
  have happ := ofBytes_append hlen (xs.drop n)
  rw [List.take_append_drop] at happ
  exact happ.symm

variable (m : PtcMsg) {dgram : List UInt8}

theorem head_overwrite (h : headSize ≤ dgram.length) : (m.overwrite dgram).head = PtcHead.ofBytes dgram := by
  have hroom : headSize ≤ headSize + msgSize := Nat.le_add_right ..
  unfold PtcMsg.head PtcMsg.overwrite
  dsimp only
  rw [PtcHead.ofBytes_append (by rw [List.length_take]; exact Nat.le_min.mpr ⟨hroom, h⟩), PtcHead.ofBytes_take h hroom]

theorem failure_ne_zero : (-1 : Int32) ≠ 0 := by decide

theorem recvfromMsg_zero_iff : (tool_ptc_qh_recvfromMsg m (some dgram)).1 = 0 ↔
    headSize ≤ dgram.length ∧ (PtcHead.ofBytes dgram).flag = ptcFlag ∧ (PtcHead.ofBytes dgram).len.toNat ≤ msgSize := by
  have hret : ((dgram.take (headSize + msgSize)).length : Int) < headSize ↔ dgram.length < headSize := by
    rw [List.length_take]
    omega
  unfold tool_ptc_qh_recvfromMsg tool_sock_item_recvfrom
  dsimp only
  by_cases hh : dgram.length < headSize
  · rw [if_pos (hret.mpr hh)]
    exact iff_of_false failure_ne_zero fun h => absurd h.1 (Nat.not_le.mpr hh)
  rw [if_neg (mt hret.mp hh), head_overwrite m (Nat.not_lt.mp hh)]
  by_cases hf : (PtcHead.ofBytes dgram).flag = ptcFlag
  · rw [if_neg (not_not.mpr hf)]
    by_cases hl : (PtcHead.ofBytes dgram).len.toNat > msgSize
    · rw [if_pos hl]
      exact iff_of_false failure_ne_zero fun h => absurd h.2.2 (Nat.not_le.mpr hl)
    · rw [if_neg hl]
      exact iff_of_true rfl ⟨Nat.not_lt.mp hh, hf, Nat.not_lt.mp hl⟩
  · rw [if_pos hf]
    exact iff_of_false failure_ne_zero fun h => hf h.2.1

/-- Whatever is returned, the message is what the socket left in it. -/
theorem recvfromMsg_msg : (tool_ptc_qh_recvfromMsg m (some dgram)).2 = m.overwrite dgram := by
  unfold tool_ptc_qh_recvfromMsg tool_sock_item_recvfrom
  dsimp only
  split
  · rfl
  split
  · rfl
  split <;> rfl

/-- The payload, where the datagram holds all of it. -/
theorem payload_overwrite (h : headSize ≤ dgram.length) (hlen : (PtcHead.ofBytes dgram).len.toNat ≤ msgSize)
    (hall : headSize + (PtcHead.ofBytes dgram).len.toNat ≤ dgram.length) :
    (m.overwrite dgram).payload = (dgram.drop headSize).take (PtcHead.ofBytes dgram).len.toNat := by
  have hcut : headSize + (PtcHead.ofBytes dgram).len.toNat ≤ (dgram.take (headSize + msgSize)).length := by
    rw [List.length_take]
    exact Nat.le_min.mpr ⟨Nat.add_le_add_left hlen _, hall⟩
  unfold PtcMsg.payload
  rw [head_overwrite m h]
  unfold PtcMsg.overwrite
  dsimp only
  rw [List.take_drop, List.take_append_of_le_length hcut, List.take_take, Nat.min_eq_left (Nat.add_le_add_left hlen _),
    ← List.take_drop]

/-- What is received into a message with a cleared head is as `nc_qh_searchDev` has it. -/
theorem receivedInto_eq_overwrite (hm : m.bytes.take headSize = List.replicate headSize 0) :
    receivedInto m.bytes dgram = (m.overwrite dgram).bytes := by
  unfold receivedInto PtcMsg.overwrite
  dsimp only
  rw [← hm, List.take_append_drop]

theorem recvfromMsgFails_iff (hm : m.bytes.take headSize = List.replicate headSize 0) :
    recvfromMsgFails (receivedInto m.bytes dgram) dgram ↔ (tool_ptc_qh_recvfromMsg m (some dgram)).1 ≠ 0 := by
  rw [ne_eq, recvfromMsg_zero_iff, receivedInto_eq_overwrite m hm, recvfromMsgFails]
  by_cases hh : dgram.length < headSize
  · exact iff_of_true (.inl hh) fun h => absurd h.1 (Nat.not_le.mpr hh)
  · have hhead : PtcHead.ofBytes (m.overwrite dgram).bytes = PtcHead.ofBytes dgram := head_overwrite m (Nat.not_lt.mp hh)
    rw [hhead, not_and_or, not_and_or, Nat.not_le, Nat.not_le]

/-- **Payloads.** Success means a payload of this datagram if and only if the datagram holds what its head announces. -/
theorem payload_honest_iff (came : Option (List UInt8)) :
    PayloadHonest m came ↔ ∀ dgram, came = some dgram → HoldsItsPayload dgram := by
  cases came with
  | none =>
    exact iff_of_true (fun h => absurd h failure_ne_zero) nofun
  | some dgram =>
    unfold PayloadHonest
    dsimp only
    rw [recvfromMsg_zero_iff, recvfromMsg_msg]
    constructor
    · intro h came hcame hh hf hl
      cases hcame
      obtain ⟨_, hsame, hlen, hpay⟩ := h ⟨hh, hf, hl⟩
      cases hsame
      rw [head_overwrite m hh] at hlen hpay
      have hle : (PtcHead.ofBytes dgram).len.toNat ≤ (dgram.drop headSize).length := by
        rw [← hlen, hpay, List.length_take]
        exact Nat.min_le_right ..
      rw [List.length_drop] at hle
      omega
    · intro h
      rintro ⟨hh, hf, hl⟩
      have hall := h dgram rfl hh hf hl
      have hpay := payload_overwrite m hh hl hall
      refine ⟨dgram, rfl, ?_, ?_⟩ <;> rw [head_overwrite m hh, hpay]
      rw [List.length_take, List.length_drop]
      omega

/-- A head alone, announcing one byte. -/
def headAlone : List UInt8 := (⟨ptcFlag, cmdMcastSearchResp, 1, ptcVersion, 0, 1, 1, 1, 0, 0, .replicate 6 0⟩ : PtcHead).bytes

/-- The byte is what the message held before. -/
theorem payload_stale : ¬ PayloadHonest ⟨List.replicate (headSize + msgSize) 7, List.length_replicate ..⟩ (some headAlone) := by
  rw [payload_honest_iff]
  intro h
  exact absurd (h _ rfl (by decide) (by decide) (by decide)) (by decide)

end Qh

end SabApp
