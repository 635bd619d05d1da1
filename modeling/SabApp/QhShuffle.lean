import Mathlib.Logic.Function.Basic
import SabApp.QhFrame

/-!
# Frames in shuffled packets

The second version of the sender takes the packets in the order that `tool_ran_wash` makes of a
seed. The receiver makes an order too, from the packet count its head held before the frame came, and
does not use it: the payload arrives in the order it was sent in.
-/

namespace SabApp

namespace Qh

/-- PTC_PACK_NUM -/
def packNum : ℕ := 2000

/-- The swaps of `tool_ran_wash` from index `i` on. -/
def washFrom (rand : ℕ → ℕ) (len : ℕ) : ℕ → ℕ → (ℕ → ℕ) → ℕ → ℕ
  | 0, _, a => a
  | n + 1, i, a =>
    let pos := rand i % (len - 1)
    washFrom rand len n (i + 1) (Function.update (Function.update a i (a pos)) pos (a i))

/-- The seed srand gets from `tool_sysf_srand`; `usec` is what the clock shows. -/
def srand (seed usec : Int32) : Int32 := if seed = 0 then usec else seed

/-- `tool_ran_wash`; `rand s i` is the number rand returns at its i-th call after srand(s). -/
def ranWash (rand : Int32 → ℕ → ℕ) (seed usec : Int32) (len : ℕ) : ℕ → ℕ :=
  washFrom (rand (srand seed usec)) len (len - 1) 0 id

/-- `tool_ptc_qh_sendFrame_v2`, with the bytes sent; `none` is -1. -/
def sendFrameV2 (rand : Int32 → ℕ → ℕ) (usec : Int32) (f : PtcFrame) (seed : Int32) : Option (PtcFrame × List UInt8) :=
  let f := f.begin
  if f.head.packCount.toNat > packNum then none
  else some (sendPacks (ranWash rand seed usec f.head.packCount.toNat) f.head.packCount.toNat 0 f)

/-- `tool_ptc_qh_recvFrame_v2`. It first writes `pack_count` numbers to an array of PTC_PACK_NUM; with more
of them it leaves the array, and nothing can be said of the rest. -/
def recvFrameV2 (f : PtcFrame) (_seed : Int32) (s : Stream) : Option (PtcFrame × Stream) :=
  if f.head.packCount.toNat > packNum then none
  else
    match recvPacks (fun n => n.toNat > videoFrameSize) s.flatten.length f 0 s with
    | none => none
    | some (f, len, s) => if len ≠ f.head.len then none else some (f, s)

/-- The payload is the frame's exactly when every packet is the one of its place. -/
theorem taken_eq_iff {m : Mem} {pos : ℕ → ℕ} {len : ℕ} : ∀ {n i : ℕ}, taken pos m len n i = taken id m len n i ↔
    ∀ j, i ≤ j → j < i + n → m.read (pos j * packSize) (packBytes len j) = m.read (j * packSize) (packBytes len j) := by
  intro n
  induction n with
  | zero =>
    intro i
    exact ⟨fun _ j h₁ h₂ => by omega, fun _ => rfl⟩
  | succ n ih =>
    intro i
    rw [taken, taken]
    constructor
    · intro h j h₁ h₂
      obtain ⟨hhead, htail⟩ := List.append_inj h (by simp)
      by_cases hj : j = i
      · rw [hj]
        exact hhead
      · exact ih.mp htail j (by omega) (by omega)
    · intro h
      rw [ih.mpr fun j h₁ h₂ => h j (by omega) (by omega)]
      exact congrArg (· ++ _) (h i (Nat.le_refl _) (by omega))

theorem sendFrameV2_eq {rand : Int32 → ℕ → ℕ} {usec seed : Int32} {f : PtcFrame} (h : f.head.len.toNat ≤ videoFrameSize) :
    sendFrameV2 rand usec f seed =
      some (sendPacks (ranWash rand seed usec f.head.count.toNat) f.head.count.toNat 0 f.begin) := by
  have hle := PtcHead.count_le h
  refine if_neg ?_
  unfold packNum
  exact Nat.not_lt.mpr (Nat.le_trans hle (by decide))

/-- The frame is received, with its packets in the order they were sent in. -/
theorem recvFrameV2_send {pos : ℕ → ℕ} {f g : PtcFrame} (seed : Int32) {s : Stream} {rest : List UInt8}
    (h : f.head.len.toNat ≤ videoFrameSize) (hg : g.head.packCount.toNat ≤ packNum)
    (hs : s.flatten = (sendPacks pos f.head.count.toNat 0 f.begin).2 ++ rest) :
    ∃ r s', recvFrameV2 g seed s = some (r, s') ∧ r.head.len = f.head.len ∧ s'.flatten = rest ∧
      r.data.read 0 f.head.len.toNat = taken pos f.data f.head.len.toNat f.head.count.toNat 0 := by
  have hlong : ∀ m : UInt32, m.toNat ≤ f.head.len.toNat → decide (m.toNat > videoFrameSize) = false := by
    intro m hm
    rw [decide_eq_false_iff_not]
    omega
  obtain ⟨r, s', hr, hs', _, hl, hd⟩ := recvPacks_send (g := g) h hlong hs
  refine ⟨r, s', ?_, hl, hs', hd⟩
  rw [recvFrameV2, if_neg (Nat.not_lt.mpr hg), hr]
  exact if_neg (not_not.mpr hl.symm)

theorem taken_id_all (m : Mem) {h : PtcHead} (hlen : h.len.toNat ≤ videoFrameSize) :
    taken id m h.len.toNat h.count.toNat 0 = m.read 0 h.len.toNat := by
  have hpos := PtcHead.count_pos hlen
  have hall := taken_id m hlen (n := h.count.toNat - 1) (i := 0) (by omega)
  rwa [Nat.sub_add_cancel hpos, Nat.zero_mul, Nat.sub_zero] at hall

/-- A call of `tool_ptc_qh_recvFrame_v2` with the stream at the frame gives its length and its payload. -/
def Restored (f g : PtcFrame) (seed : Int32) (s : Stream) : Prop :=
  ∃ r s', recvFrameV2 g seed s = some (r, s') ∧ r.head.len = f.head.len ∧
    r.data.read 0 f.head.len.toNat = f.data.read 0 f.head.len.toNat

theorem restored_iff {pos : ℕ → ℕ} {f g : PtcFrame} {seed : Int32} {s : Stream} {rest : List UInt8}
    (h : f.head.len.toNat ≤ videoFrameSize) (hs : s.flatten = (sendPacks pos f.head.count.toNat 0 f.begin).2 ++ rest) :
    Restored f g seed s ↔ g.head.packCount.toNat ≤ packNum ∧ ∀ i < f.head.count.toNat,
      f.data.read (pos i * packSize) (packBytes f.head.len.toNat i) =
        f.data.read (i * packSize) (packBytes f.head.len.toNat i) := by
  by_cases hg : g.head.packCount.toNat ≤ packNum
  · obtain ⟨r, s', hr, hl, _, hd⟩ := recvFrameV2_send seed h hg hs
    have hiff : taken pos f.data f.head.len.toNat f.head.count.toNat 0 =
        taken id f.data f.head.len.toNat f.head.count.toNat 0 ↔ _ := taken_eq_iff
    rw [taken_id_all f.data h, ← hd] at hiff
    constructor
    · rintro ⟨r', s'', hr', _, hd'⟩
      rw [hr] at hr'
      cases hr'
      exact ⟨hg, fun i hi => hiff.mp hd' i (Nat.zero_le _) (by omega)⟩
    · rintro ⟨_, hp⟩
      exact ⟨r, s', hr, hl, hiff.mpr fun i _ hi => hp i (by omega)⟩
  · constructor
    · rintro ⟨r, s', hr, _⟩
      rw [recvFrameV2, if_pos (Nat.lt_of_not_le hg)] at hr
      cases hr
    · exact fun hp => absurd hp.1 hg

/-- **Shuffled packets.** A frame sent in the order of a seed is received as it was exactly when the
receiver's head held at most PTC_PACK_NUM packets and each packet is equal to the one sent in its place. -/
theorem recvFrameV2_iff (rand : Int32 → ℕ → ℕ) (usec seed : Int32) (f : PtcFrame) (h : f.head.len.toNat ≤ videoFrameSize) :
    ∃ f' bs, sendFrameV2 rand usec f seed = some (f', bs) ∧ ∀ (g : PtcFrame) (s : Stream) (rest : List UInt8),
      s.flatten = bs ++ rest → (Restored f g seed s ↔ g.head.packCount.toNat ≤ packNum ∧ ∀ i < f.head.count.toNat,
        f.data.read (ranWash rand seed usec f.head.count.toNat i * packSize) (packBytes f.head.len.toNat i) =
          f.data.read (i * packSize) (packBytes f.head.len.toNat i)) :=
  ⟨_, _, sendFrameV2_eq h, fun _ _ _ hs => restored_iff h hs⟩

/-- Two packets keep their order. -/
theorem ranWash_of_le {rand : Int32 → ℕ → ℕ} {seed usec : Int32} {len : ℕ} (h : len ≤ 2) : ranWash rand seed usec len = id := by
  rcases Nat.le_one_iff_eq_zero_or_eq_one.mp (show len - 1 ≤ 1 by omega) with h1 | h1
  · rw [ranWash, h1]
    rfl
  · rw [ranWash, h1, washFrom, h1, Nat.mod_one, Function.update_idem, Function.update_eq_self]
    rfl

theorem recvFrameV2_two : ∃ f' bs, sendFrameV2 (fun _ i => i) 0 (plainFrame 2000) 7 = some (f', bs) ∧
    Restored (plainFrame 2000) (plainFrame 0) 7 [bs] := by
  obtain ⟨f', bs, hsend, h⟩ := recvFrameV2_iff (fun _ i => i) 0 7 (plainFrame 2000) (by decide)
  refine ⟨f', bs, hsend, (h _ [bs] [] (by simp)).mpr ⟨by decide, fun i _ => ?_⟩⟩
  rw [ranWash_of_le (by decide), id]

/-- The first numbers of rand after srand(1). -/
def rands (seed : Int32) (i : ℕ) : ℕ := if seed = 1 then [1804289383, 846930886, 1681692777].getD i 0 else 0

/-- Of four packets the third is sent first. -/
theorem four_shuffled : ∃ f' bs, sendFrameV2 rands 0 (plainFrame 4096) 1 = some (f', bs) ∧
    ¬ Restored (plainFrame 4096) (plainFrame 0) 1 [bs] := by
  have hlen : (plainFrame 4096).head.len.toNat ≤ videoFrameSize := by decide
  have hcount : (plainFrame 4096).head.count.toNat = 4 := by decide
  refine ⟨_, _, sendFrameV2_eq hlen, fun h => ?_⟩
  have hs : [(sendPacks (ranWash rands 1 0 (plainFrame 4096).head.count.toNat) (plainFrame 4096).head.count.toNat 0
      (plainFrame 4096).begin).2].flatten = (sendPacks (ranWash rands 1 0 (plainFrame 4096).head.count.toNat)
      (plainFrame 4096).head.count.toNat 0 (plainFrame 4096).begin).2 ++ [] := by
    rw [List.append_nil, List.flatten_singleton]
  have hpack := ((restored_iff hlen hs).mp h).2 0 (by rw [hcount]; decide)
  have hwash : ranWash rands 1 0 4 0 = 2 := by decide
  rw [hcount, hwash] at hpack
  have hlen4 : (plainFrame 4096).head.len.toNat = 4096 := by decide
  have hbyte := congrArg (fun bs : List UInt8 => bs[0]?) hpack
  simp only [hlen4, packBytes, packSize] at hbyte
  rw [Mem.getElem?_read _ _ (by decide), Mem.getElem?_read _ _ (by decide)] at hbyte
  exact absurd hbyte (by decide)

end Qh

end SabApp
