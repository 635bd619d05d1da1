import Mathlib.Data.List.Basic
import Mathlib.Logic.Function.Basic
import SabApp.Bytes

/-!
# Numbers of YS requests (tool_ptc.c)

`tool_ptc_ys_sendMsg` and `tool_ptc_ys_sendSearch` each count their calls. The number in the head is meant to be the module
in the top 4 bits and the count in the others, but the two are joined by `||`: it is 1, and 0 once in 2^28 calls.
-/

namespace SabApp

namespace Ys

/-- YS_MSG_FLAG -/
def msgFlag : UInt16 := 0xBCBC

/-- `ys_msg_head_t`; the two versions have 4 bits each. -/
structure MsgHead where
  messageFlag : UInt16
  version : UInt8
  subVersion : UInt8
  type : UInt8
  command : UInt16
  status : UInt16
  seqNum : UInt32
  srcModId : UInt32
  dstModId : UInt32
  fromHandle : UInt32
  toHandle : UInt32
  contentLength : UInt32
  endianType : UInt8
  res1 : UInt8
  res2 : UInt16
  deriving DecidableEq

/-- `ys_msg_t` and `ys_search_t`. -/
structure Msg where
  head : MsgHead
  data : Mem

/-- `sizeof(ys_msg_head_t)` -/
def msgHeadSize : UInt32 := 36

/-- `||` of C. -/
def logicalOr (a b : UInt32) : UInt32 := if a ≠ 0 ∨ b ≠ 0 then 1 else 0

namespace MsgHead

def numbered (h : MsgHead) (seq : UInt32) : MsgHead :=
  let h := { h with messageFlag := msgFlag, version := 5, subVersion := 0, type := 0, status := 0, srcModId := 0 }
  { h with seqNum := logicalOr (h.srcModId <<< 28) (seq &&& 0x0FFFFFFF)
           fromHandle := 0, toHandle := 0, endianType := 0, res1 := 0, res2 := 0 }

end MsgHead

/-- The body of the two functions: the counter, the message and what is returned; `sent` is what `tool_sock_item_send`
returns. -/
def sendNumbered (seq : UInt32) (msg : Msg) (sent : Int32) : UInt32 × Msg × Int32 :=
  let seq := seq + 1
  let msg := { msg with head := msg.head.numbered seq }
  let len := (msgHeadSize + msg.head.contentLength).toInt32
  (seq, msg, if sent ≠ len then -1 else 0)

def tool_ptc_ys_sendMsg (seq : UInt32) (msg : Msg) (sent : Int32) : UInt32 × Msg × Int32 := sendNumbered seq msg sent

def tool_ptc_ys_sendSearch (seq : UInt32) (search : Msg) (sent : Int32) : UInt32 × Msg × Int32 :=
  sendNumbered seq search sent

inductive Sender where
  | msg
  | search
  deriving DecidableEq

structure SendCall where
  sender : Sender
  msg : Msg
  sent : Int32

/-- The two counters. -/
abbrev Seqs := Sender → UInt32

def SendCall.run (c : SendCall) (s : Seqs) : Seqs × Msg × Int32 :=
  match c.sender with
  | .msg =>
    let r := tool_ptc_ys_sendMsg (s .msg) c.msg c.sent
    (Function.update s .msg r.1, r.2)
  | .search =>
    let r := tool_ptc_ys_sendSearch (s .search) c.msg c.sent
    (Function.update s .search r.1, r.2)

/-- The heads one of the two puts before its messages in a run of calls. -/
def headsOf (who : Sender) : Seqs → List SendCall → List MsgHead
  | _, [] => []
  | s, c :: cs =>
    let r := c.run s
    if c.sender = who then r.2.1.head :: headsOf who r.1 cs else headsOf who r.1 cs

/-- The number of a head is its module with a 28-bit counter, and successive requests differ. -/
def TellApart (hs : List MsgHead) : Prop :=
  (∃ start : ℕ, ∀ i (h : MsgHead), hs[i]? = some h →
      h.seqNum = (h.srcModId <<< (28 : UInt32)) ||| UInt32.ofNat ((start + i) % 2 ^ 28)) ∧
    ∀ i j h h', i < j → j < i + 2 ^ 28 → hs[i]? = some h → hs[j]? = some h' → h.seqNum ≠ h'.seqNum

def SendCall.By (who : Sender) (c : SendCall) : Bool := c.sender = who

/-! ## One request -/

theorem seqNum_numbered (h : MsgHead) (seq : UInt32) :
    (h.numbered seq).seqNum = if seq &&& 0x0FFFFFFF ≠ 0 then 1 else 0 := by
  unfold MsgHead.numbered logicalOr
  have hzero : ¬ ((0 : UInt32) <<< 28 ≠ 0) := by decide
  simp only [hzero, false_or]

theorem SendCall.run_eq (c : SendCall) (s : Seqs) :
    c.run s = (Function.update s c.sender (s c.sender + 1), (sendNumbered (s c.sender) c.msg c.sent).2) := by
  unfold SendCall.run
  cases c.sender <;> rfl

variable {who : Sender}

theorem headsOf_by {c : SendCall} (h : c.sender = who) (s : Seqs) (cs : List SendCall) :
    headsOf who s (c :: cs) = c.msg.head.numbered (s who + 1) :: headsOf who (Function.update s who (s who + 1)) cs := by
  rw [headsOf, c.run_eq, if_pos h, h]
  rfl

theorem headsOf_other {c : SendCall} (h : c.sender ≠ who) (s : Seqs) (cs : List SendCall) :
    headsOf who s (c :: cs) = headsOf who (Function.update s c.sender (s c.sender + 1)) cs := by
  rw [headsOf, c.run_eq, if_neg h]

/-! ## Any number of requests -/

/-- The requests of the other sender leave the counter alone. -/
theorem heads_of_calls (who : Sender) (cs : List SendCall) : ∀ s : Seqs, (headsOf who s cs).map MsgHead.seqNum =
    (List.range (cs.countP (SendCall.By who))).map fun i =>
      if (s who + UInt32.ofNat (i + 1)) &&& 0x0FFFFFFF ≠ 0 then 1 else 0 := by
  induction cs with
  | nil => exact fun _ => rfl
  | cons c cs ih =>
    intro s
    by_cases h : c.sender = who
    · have hcount : (c :: cs).countP (SendCall.By who) = cs.countP (SendCall.By who) + 1 :=
        List.countP_cons_of_pos (decide_eq_true h)
      rw [headsOf_by h, List.map_cons, seqNum_numbered, ih, hcount, List.range_succ_eq_map, List.map_cons, List.map_map]
      refine congrArg₂ _ rfl (List.map_congr_left fun i _ => ?_)
      have hsum : s who + 1 + UInt32.ofNat (i + 1) = s who + UInt32.ofNat (i.succ + 1) := by
        rw [UInt32.add_assoc, UInt32.add_comm 1, Nat.succ_eq_add_one, UInt32.ofNat_add (i + 1) 1]
        rfl
      rw [Function.comp_apply, Function.update_self, hsum]
    · have hcount : (c :: cs).countP (SendCall.By who) = cs.countP (SendCall.By who) :=
        List.countP_cons_of_neg (by simpa [SendCall.By] using h)
      rw [headsOf_other h, ih, hcount, Function.update_of_ne (Ne.symm h)]

theorem length_headsOf (s : Seqs) (cs : List SendCall) : (headsOf who s cs).length = cs.countP (SendCall.By who) := by
  have hlen := congrArg List.length (heads_of_calls who cs s)
  rwa [List.length_map, List.length_map, List.length_range] at hlen

theorem seqNum_getElem? {s : Seqs} {cs : List SendCall} {i : ℕ} {h : MsgHead} (hi : (headsOf who s cs)[i]? = some h) :
    h.seqNum = if (s who + UInt32.ofNat (i + 1)) &&& 0x0FFFFFFF ≠ 0 then 1 else 0 := by
  have hlt : i < cs.countP (SendCall.By who) := length_headsOf s cs ▸ (List.getElem?_eq_some_iff.mp hi).1
  have hmap := congrArg (·[i]?) (heads_of_calls who cs s)
  simp only [List.getElem?_map, hi, List.getElem?_range hlt, Option.map_some, Option.some.injEq] at hmap
  exact hmap

theorem srcModId_headsOf (cs : List SendCall) : ∀ s : Seqs, ∀ h ∈ headsOf who s cs, h.srcModId = 0 := by
  induction cs with
  | nil => exact fun _ => nofun
  | cons c cs ih =>
    intro s h hh
    by_cases hc : c.sender = who
    · rw [headsOf_by hc, List.mem_cons] at hh
      rcases hh with rfl | hh
      · rfl
      · exact ih _ h hh
    · rw [headsOf_other hc] at hh
      exact ih _ h hh

/-- **Request numbers.** From the start on, those of either function tell its requests apart if and only if there is at
most one. -/
theorem numbers_tell_iff (who : Sender) (cs : List SendCall) :
    TellApart (headsOf who (fun _ => 0) cs) ↔ cs.countP (SendCall.By who) ≤ 1 := by
  have hlen : (headsOf who (fun _ => 0) cs).length = cs.countP (SendCall.By who) := length_headsOf ..
  constructor
  · rintro ⟨-, hdiffer⟩
    by_contra hmany
    have h₀ := List.getElem?_eq_getElem (l := headsOf who (fun _ => 0) cs) (i := 0) (by omega)
    have h₁ := List.getElem?_eq_getElem (l := headsOf who (fun _ => 0) cs) (i := 1) (by omega)
    refine hdiffer 0 1 _ _ Nat.one_pos (by decide) h₀ h₁ ?_
    rw [seqNum_getElem? h₀, seqNum_getElem? h₁]
    decide
  · intro hone
    have hfirst {i : ℕ} {h : MsgHead} (hi : (headsOf who (fun _ => 0) cs)[i]? = some h) : i = 0 := by
      have hlt := (List.getElem?_eq_some_iff.mp hi).1
      omega
    constructor
    · refine ⟨1, ?_⟩
      intro i h hi
      rw [srcModId_headsOf cs _ h (List.mem_of_getElem? hi), seqNum_getElem? hi, hfirst hi]
      decide
    · intro i j h h' hlt _ _ hj
      rw [hfirst hj] at hlt
      exact absurd hlt (Nat.not_lt_zero i)

/-- Two requests with number 1. -/
theorem numbers_equal : let c : SendCall :=
      ⟨.msg, ⟨⟨0, 0, 0, 0, 0x0101, 0, 0, 0, 0, 0, 0, 0, 0, 0, 0⟩, fun _ => 0⟩, 36⟩
    ¬ TellApart (headsOf .msg (fun _ => 0) [c, c]) := by
  intro c
  rw [numbers_tell_iff]
  decide

end Ys

end SabApp
