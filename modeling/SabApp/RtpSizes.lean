import SabApp.RtpKinds
import SabApp.SpsSyntax

/-!
# The size that a session shows

`tool_ptc_rtp_recvTcp_video` with its own decoder of parameter sets. Over a session, frame after frame, the size in
each frame's head is that of the last parameter set that was sent.
-/

namespace SabApp

namespace Rtp

open Sps Bits

/-- A memory in which bytes stand over what was there. -/
def onto (back : Mem) (bs : List UInt8) : Mem := fun i => bs.getD i (back i)

/-- The decoder that the loop's end calls; `back` is what stands behind the set in the frame's body. -/
def decodeSet (back : Mem) (bs : List UInt8) (size : Int32 × Int32) : Int32 × Int32 :=
  match initGetBits (onto back bs) (8 * bs.length) with
  | none => size
  | some gb =>
    let r := decodeSeqParameterSet gb size.1.toInt size.2.toInt
    (.ofInt r.2.1, .ofInt r.2.2)

/-- The bits of a set stand at the front of the bytes. -/
def Spells (bs : List UInt8) (set : ParamSet) : Prop := set.bits.length ≤ 8 * bs.length ∧ Holds (memOf bs) 0 set.bits

theorem Spells.onto {bs : List UInt8} {set : ParamSet} (h : Spells bs set) (back : Mem) :
    Holds (onto back bs) 0 set.bits := by
  refine (holds_congr (n := bs.length) (fun i hi => ?_) (by have := h.1; omega)).mpr h.2
  rw [memOf, Rtp.onto, List.getD_eq_getElem?_getD, List.getD_eq_getElem?_getD, List.getElem?_eq_getElem hi]
  rfl

/-- The picture that a set makes: the rows that fill the last macroblocks of 1080 are not shown. -/
def picture (set : ParamSet) : Int32 × Int32 :=
  (.ofNat (16 * set.widthMbs), if set.widthMbs = 120 ∧ set.heightMbs = 68 then 1080 else .ofNat (16 * set.heightMbs))

theorem toInt_ofNat_small {n : ℕ} (h : n < 2147483648) : (Int32.ofNat n).toInt = n :=
  Int32.toInt_ofNat_of_lt h

/-- The decoder, and the caller's crop behind it, give the picture of the set, whatever stands behind its bytes. -/
theorem crop_decodeSet {set : ParamSet} (hset : set.Ok) {bs : List UInt8} (hbits : Spells bs set)
    (hlen : bs.length < 65536) (back : Mem) (size : Int32 × Int32) : crop (decodeSet back bs size) = picture set := by
  have hw := hset.widthMbs
  have hh := hset.heightMbs
  have hinit : initGetBits (onto back bs) (8 * bs.length) = some ⟨onto back bs, 0, 8 * bs.length⟩ := by
    rw [initGetBits, if_neg (by omega)]
  have hd := decodeSeqParameterSet_bits hset ⟨onto back bs, 0, 8 * bs.length⟩ (hbits.onto back)
    (by have := hbits.1; dsimp only; omega) size.1.toInt size.2.toInt
  have hdec : decodeSet back bs size = (.ofNat (16 * set.widthMbs), .ofNat (16 * set.heightMbs)) := by
    rw [decodeSet, hinit]
    dsimp only
    rw [hd]
    have e₁ : (16 * (set.widthMbs : ℤ)) = ((16 * set.widthMbs : ℕ) : ℤ) := by omega
    have e₂ : (16 * (set.heightMbs : ℤ)) = ((16 * set.heightMbs : ℕ) : ℤ) := by omega
    rw [e₁, e₂]
    rfl
  have hinj : ∀ {a b : ℕ}, a < 2147483648 → b < 2147483648 → (Int32.ofNat a = Int32.ofNat b ↔ a = b) := by
    intro a b ha hb
    constructor
    · intro he
      have := congrArg Int32.toInt he
      rw [toInt_ofNat_small ha, toInt_ofNat_small hb] at this
      omega
    · rintro rfl
      rfl
  rw [hdec, crop, picture]
  by_cases hc : set.widthMbs = 120 ∧ set.heightMbs = 68
  · rw [if_pos hc, hc.1, hc.2]
    rfl
  · have hne : ¬((Int32.ofNat (16 * set.widthMbs), Int32.ofNat (16 * set.heightMbs)) = (1920, 1088)) := by
      intro he
      obtain ⟨h₁, h₂⟩ := Prod.ext_iff.mp he
      have h₁ := (hinj (by omega) (by omega : 1920 < 2147483648)).mp h₁
      have h₂ := (hinj (by omega) (by omega : 1088 < 2147483648)).mp h₂
      exact hc ⟨by omega, by omega⟩
    rw [if_neg hc, if_neg hne]

/-! ## A frame -/

/-- What an access unit tells of the picture: a set in full at its front, or nothing. -/
inductive Tells (us : List Sent) : Option ParamSet → Prop
  | set (v : Sent) (post : List Sent) (set : ParamSet) (units : us = v :: post) (kind : type v.header = 7)
      (last : LastSps (us.flatMap Sent.parts) v.payload.length) (bits : Spells v.payload set) (ok : set.Ok)
      (len : v.payload.length < 65536) : Tells us (some set)
  | nothing (other : ∀ v ∈ us, type v.header ≠ 7) : Tells us none

/-- The size after an access unit. -/
def after (size : Int32 × Int32) : Option ParamSet → Int32 × Int32
  | none => size
  | some set => picture set

theorem parts_other {us : List Sent} (h : ∀ v ∈ us, type v.header ≠ 7) :
    ∀ p ∈ us.flatMap Sent.parts, type p.header ≠ 7 := by
  intro p hp
  obtain ⟨v, hv, hpv⟩ := List.mem_flatMap.mp hp
  rw [v.parts_header p hpv]
  exact h v hv

theorem Spells.pos {bs : List UInt8} {set : ParamSet} (h : Spells bs set) : 0 < bs.length := by
  have hbits := h.1
  rw [ParamSet.bits, ParamSet.headerBits, List.length_append, List.length_append, bitsOf_length] at hbits
  omega

/-- What a call leaves behind, of a session's size. -/
structure Sized (size : Int32 × Int32) (r : VideoFrame) (c' : Counts) : Prop where
  counts : (c'.width, c'.height) = size
  width : r.head.width = size.1.toUInt32.toUInt16
  height : r.head.height = size.2.toUInt32.toUInt16

/-- After a frame the session has the size of the set in it, or the one it had. -/
theorem recvTcpVideo_tells {ps : List Packet} {us : List Sent} (h : Carries ps us) (hwire : ∀ p ∈ ps, p.length < 65536)
    {o : Option ParamSet} (ho : Tells us o) {s : Stream} {rest : List UInt8}
    (hs : s.flatten = cat Packet.bytes ps ++ rest)
    {back : Mem} {now : UInt32 × UInt32} {c c' : Counts} {f r : VideoFrame} {s' : Stream}
    (hr : recvTcpVideo (decodeSet back) now c f s = some (r, c', s')) :
    Sized (after (c.width, c.height) o) r c' ∧ s'.flatten = rest := by
  obtain ⟨u, hu, hret⟩ := recvTcpVideo_some hr
  obtain ⟨ts, hts⟩ := h.time
  have hu' := h.taken hwire hs hu
  have hlaid := (Unpacked.foldl_take_laid (u := begun f) hts (.inr rfl)).1
  have hsps := foldl_take_spsLen (u := begun f) hts (.inr rfl)
  rw [← hu', h.laid] at hlaid
  rw [← hu', h.parts] at hsps
  have hrest : s'.flatten = rest := by
    rcases h.loop hwire f hs with ⟨-, s'', hr', hrest⟩ | ⟨-, hr'⟩
    · have hs' : s'' = s' := congrArg Prod.snd (Option.some.inj (hr'.symm.trans hu))
      rw [← hs', hrest]
    · rw [hr'] at hu
      cases hu
  have hsize : (c'.width, c'.height) = after (c.width, c.height) o := by
    cases ho with
    | set v post set units kind last bits ok len =>
      have hpos := bits.pos
      have hlen : u.spsLen = v.payload.length := by rw [hsps, last.foldl]
      have hread : r.body.read 5 v.payload.length = v.payload := by
        rw [hret.body]
        subst units
        exact @placed _ u.len [] post v hlaid
      rw [hret.size, Unpacked.spsRange, hlen, if_neg (by omega), sized, hread]
      exact crop_decodeSet ok bits len back _
    | nothing other =>
      have hlen : u.spsLen = 0 := by
        rw [hsps, foldl_noteSps_other (parts_other other)]
        rfl
      rw [hret.size, Unpacked.spsRange, hlen, if_pos rfl]
      rfl
  exact ⟨⟨hsize, hsize ▸ hret.width, hsize ▸ hret.height⟩, hrest⟩

/-! ## A session -/

/-- A call: the clock, the buffer it is given, and what stands in it behind the set. -/
structure Call where
  now : UInt32 × UInt32
  frame : VideoFrame
  back : Mem

/-- The frames of a session, up to the first call that fails. -/
def recvFrames : List Call → Counts → Stream → List VideoFrame
  | [], _, _ => []
  | call :: calls, c, s =>
    match recvTcpVideo (decodeSet call.back) call.now c call.frame s with
    | none => []
    | some (r, c', s') => r :: recvFrames calls c' s'

/-- An access unit on the wire, and the set it tells. -/
structure SizedUnit where
  packets : List Packet
  units : List Sent
  set : Option ParamSet

namespace SizedUnit

structure Ok (a : SizedUnit) : Prop where
  carries : Carries a.packets a.units
  wire : ∀ p ∈ a.packets, p.length < 65536
  tells : Tells a.units a.set

def bytes (a : SizedUnit) : List UInt8 := cat Packet.bytes a.packets

end SizedUnit

/-- The sizes of a session: after each access unit that of the last set so far. -/
def sizes (size : Int32 × Int32) : List SizedUnit → List (Int32 × Int32)
  | [] => []
  | a :: as => after size a.set :: sizes (after size a.set) as

/-- A size in a frame's head. -/
def narrow (size : Int32 × Int32) : UInt16 × UInt16 := (size.1.toUInt32.toUInt16, size.2.toUInt32.toUInt16)

def headSize (r : VideoFrame) : UInt16 × UInt16 := (r.head.width, r.head.height)

/-- A set in a packet of its own, and a slice in the next access unit. -/
def twoFrames : List SizedUnit :=
  [⟨[onePacket 0x67 fullHdBytes], [.single 0x67 fullHdBytes], some fullHd⟩,
    ⟨[onePacket 0x65 [1]], [.single 0x65 [1]], none⟩]

theorem spells_fullHd : Spells fullHdBytes fullHd := ⟨by rw [length_fullHd]; decide, holds_fullHd⟩

theorem twoFrames_ok : ∀ a ∈ twoFrames, a.Ok := by
  intro a ha
  rcases List.mem_cons.mp ha with rfl | ha
  · refine ⟨onePacket_carries (by decide) fullHdBytes, fun p hp => ?_, ?_⟩
    · rw [List.eq_of_mem_singleton hp]
      decide
    · exact .set (.single 0x67 fullHdBytes) [] fullHd rfl (by decide) ⟨[], _, [], rfl, by decide, by simp, rfl⟩
        spells_fullHd fullHd_ok (by decide)
  · rw [List.eq_of_mem_singleton ha]
    refine ⟨onePacket_carries (by decide) [1], fun p hp => ?_, .nothing fun v hv => ?_⟩
    · rw [List.eq_of_mem_singleton hp]
      decide
    · rw [List.eq_of_mem_singleton hv]
      decide

end Rtp

end SabApp
