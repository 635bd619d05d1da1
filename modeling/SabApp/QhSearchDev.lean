import Mathlib.Logic.Function.Basic
import SabApp.Nc
import SabApp.QhFrame
import SabApp.Runs

/-!
# Devices that answer a search (nc_qh.c)

`nc_qh_searchDev` sends a broadcast and collects answers for five seconds. It means to look an answer up among those it
has, but compares it with the next free entry in every round of that loop.
-/

namespace SabApp

namespace Qh

/-- PTC_CMD_MCAST_SEARCH_RESP -/
def cmdMcastSearchResp : UInt32 := 0x00060002

/-- PTC_MCAST_SEARCH_SIZE -/
def mcastSearchSize : ℕ := 256

/-- PTC_MSG_SIZE -/
def msgSize : ℕ := 4096

/-- `sizeof(ptc_head_t)` -/
def headSize : ℕ := 32

/-- `sizeof(ptc_mcast_search_t)` -/
def searchSize : ℕ := 512

/-- `ptc_mcast_searchs_t`, an entry as its bytes. -/
structure McastSearchs where
  num : ℕ
  search : ℕ → List UInt8

namespace McastSearchs

/-- An answer as it is stored, with `nc_ptc_type` NC_PTC_Qihan in its last four bytes. -/
def stored (data : List UInt8) : List UInt8 := data.take (searchSize - 4) ++ [0, 0, 0, 0]

/-- The loop over the entries: where it stops. -/
def lookFor (s : McastSearchs) (data : List UInt8) : ℕ :=
  ((List.range s.num).find? fun _ => s.search s.num = data).getD s.num

def collect (s : McastSearchs) (data : List UInt8) : McastSearchs :=
  if s.lookFor data ≥ s.num then ⟨s.num + 1, Function.update s.search s.num (stored data)⟩ else s

def entries (s : McastSearchs) : List (List UInt8) := (List.range s.num).map s.search

end McastSearchs

/-- The bytes of `msg` behind `tool_mem_memset` of the head and `tool_sock_item_recvfrom`. -/
def receivedInto (msg dgram : List UInt8) : List UInt8 :=
  let dgram := dgram.take (headSize + msgSize)
  dgram ++ (List.replicate headSize 0 ++ msg.drop headSize).drop dgram.length

/-- What `tool_ptc_qh_recvfromMsg` tests. -/
def recvfromMsgFails (msg dgram : List UInt8) : Prop :=
  dgram.length < headSize ∨ (PtcHead.ofBytes msg).flag ≠ ptcFlag ∨ (PtcHead.ofBytes msg).len.toNat > msgSize

instance (msg dgram : List UInt8) : Decidable (recvfromMsgFails msg dgram) := inferInstanceAs (Decidable (_ ∨ _ ∨ _))

inductive SearchRound where
  /-- The five seconds are over. -/
  | timeout
  /-- `tool_sock_item_pollRead` returns -1. -/
  | pollError
  /-- It returns 0. -/
  | noData
  | datagram (bytes : List UInt8)

/-- The loop, with the answers that arrived. -/
structure SearchLoop where
  running : Bool
  searchs : McastSearchs
  msg : List UInt8
  answers : List (List UInt8)

namespace SearchLoop

def data (msg : List UInt8) : List UInt8 := (msg.drop headSize).take searchSize

def Answers (msg dgram : List UInt8) : Prop :=
  ¬ recvfromMsgFails msg dgram ∧ (PtcHead.ofBytes msg).len.toNat = searchSize ∧
    (PtcHead.ofBytes msg).cmd = cmdMcastSearchResp

instance (msg dgram : List UInt8) : Decidable (Answers msg dgram) := inferInstanceAs (Decidable (_ ∧ _ ∧ _))

def receive (w : SearchLoop) (dgram : List UInt8) : SearchLoop :=
  let msg := receivedInto w.msg dgram
  if recvfromMsgFails msg dgram then { w with msg, running := false }
  else if Answers msg dgram then
    { w with msg, searchs := w.searchs.collect (data msg), answers := w.answers ++ [data msg] }
  else { w with msg }

def round (w : SearchLoop) (r : SearchRound) : SearchLoop :=
  if ¬ w.running then w
  else if w.searchs.num ≥ mcastSearchSize then { w with running := false }
  else
    match r with
    | .timeout | .pollError => { w with running := false }
    | .noData => w
    | .datagram dgram => w.receive dgram

/-- Before the first round; the entries hold what the caller left in them. -/
def start (search : ℕ → List UInt8) (msg : List UInt8) : SearchLoop := ⟨true, ⟨0, search⟩, msg, []⟩

/-- The list holds each answer that arrived once, as far as there is room. -/
structure Collected (w : SearchLoop) : Prop where
  once : w.searchs.entries.Nodup
  all : ∀ a ∈ w.answers, McastSearchs.stored a ∈ w.searchs.entries ∨ w.searchs.num = mcastSearchSize
  room : w.searchs.num ≤ mcastSearchSize

/-- In a round that takes an answer: the next free entry happens to hold the same bytes, and is not the first, just where
the list has the answer. -/
def Tells (w : SearchLoop) : SearchRound → Prop
  | .datagram dgram =>
    let msg := receivedInto w.msg dgram
    w.running = true → w.searchs.num < mcastSearchSize → Answers msg dgram →
      (McastSearchs.stored (data msg) ∈ w.searchs.entries ↔ w.searchs.num ≠ 0 ∧ w.searchs.search w.searchs.num = data msg)
  | _ => True

end SearchLoop

/-- `nc_qh_searchDev`: what opens and is sent, and the rounds of the loop until it ends. -/
def nc_qh_searchDev (openC2s openS2c sent : Bool) (search : ℕ → List UInt8) (msg : List UInt8)
    (rounds : List SearchRound) : Int32 × McastSearchs :=
  if !openC2s || !openS2c then (Nc.errInternal, ⟨0, search⟩)
  else if !sent then (Nc.errSend, ⟨0, search⟩)
  else (0, (rounds.foldl SearchLoop.round (.start search msg)).searchs)

/-! ## One answer -/

namespace McastSearchs

theorem lookFor_ge_iff (s : McastSearchs) (data : List UInt8) :
    s.lookFor data ≥ s.num ↔ ¬ (s.num ≠ 0 ∧ s.search s.num = data) := by
  unfold lookFor
  cases hf : (List.range s.num).find? fun _ => s.search s.num = data with
  | none =>
    have hnone := List.find?_eq_none.mp hf
    refine iff_of_true (Nat.le_refl _) ?_
    rintro ⟨hne, heq⟩
    exact hnone 0 (List.mem_range.mpr (Nat.pos_of_ne_zero hne)) (decide_eq_true heq)
  | some i =>
    have hlt := List.mem_range.mp (List.mem_of_find?_eq_some hf)
    refine iff_of_false (Nat.not_le.mpr hlt) (not_not.mpr ⟨Nat.ne_zero_of_lt hlt, ?_⟩)
    have hfound := List.find?_some hf
    exact of_decide_eq_true hfound

theorem collect_skip {s : McastSearchs} {data : List UInt8} (h : s.num ≠ 0 ∧ s.search s.num = data) :
    s.collect data = s := if_neg (mt (lookFor_ge_iff s data).mp (not_not.mpr h))

theorem collect_push {s : McastSearchs} {data : List UInt8} (h : ¬ (s.num ≠ 0 ∧ s.search s.num = data)) :
    s.collect data = ⟨s.num + 1, Function.update s.search s.num (stored data)⟩ := if_pos ((lookFor_ge_iff s data).mpr h)

theorem entries_push (s : McastSearchs) (e : List UInt8) :
    entries ⟨s.num + 1, Function.update s.search s.num e⟩ = s.entries ++ [e] := by
  have hold : (List.range s.num).map (Function.update s.search s.num e) = s.entries :=
    List.map_congr_left fun i hi => Function.update_of_ne (Nat.ne_of_lt (List.mem_range.mp hi)) ..
  rw [entries, List.range_succ, List.map_append, hold, List.map_singleton]
  dsimp only
  rw [Function.update_self]

end McastSearchs

namespace SearchLoop

open McastSearchs (stored)

theorem round_answer {w : SearchLoop} {dgram : List UInt8} (hrun : w.running = true)
    (hroom : w.searchs.num < mcastSearchSize) (h : Answers (receivedInto w.msg dgram) dgram) :
    w.round (.datagram dgram) =
      { w with msg := receivedInto w.msg dgram
               searchs := w.searchs.collect (data (receivedInto w.msg dgram))
               answers := w.answers ++ [data (receivedInto w.msg dgram)] } := by
  rw [round, if_neg (not_not.mpr hrun), if_neg (Nat.not_le.mpr hroom)]
  dsimp only [receive]
  rw [if_neg h.1, if_pos h]

/-- A round without an answer leaves the list as it is. -/
theorem round_other {w : SearchLoop} {r : SearchRound} (h : ∀ dgram, r = .datagram dgram →
    ¬ (w.running = true ∧ w.searchs.num < mcastSearchSize ∧ Answers (receivedInto w.msg dgram) dgram)) :
    (w.round r).searchs = w.searchs ∧ (w.round r).answers = w.answers := by
  unfold round
  split
  · exact ⟨rfl, rfl⟩
  split
  · exact ⟨rfl, rfl⟩
  cases r with
  | timeout | pollError | noData => exact ⟨rfl, rfl⟩
  | datagram dgram =>
    next hrun hroom =>
    have hno : ¬ Answers (receivedInto w.msg dgram) dgram :=
      fun ha => h dgram rfl ⟨not_not.mp hrun, Nat.not_le.mp hroom, ha⟩
    dsimp only [receive]
    rw [if_neg hno]
    split <;> exact ⟨rfl, rfl⟩

theorem Collected.congr {w v : SearchLoop} (h : w.Collected) (hs : v.searchs = w.searchs) (ha : v.answers = w.answers) :
    v.Collected := by
  refine ⟨?_, ?_, ?_⟩ <;> rw [hs]
  · exact h.once
  · rw [ha]
    exact h.all
  · exact h.room

theorem collected_start (search : ℕ → List UInt8) (msg : List UInt8) : (start search msg).Collected :=
  ⟨List.nodup_nil, nofun, Nat.zero_le _⟩

/-! ## Any number of answers -/

theorem Collected.round {w : SearchLoop} (h : w.Collected) {r : SearchRound} (htells : w.Tells r) :
    (w.round r).Collected := by
  by_cases hother : ∀ dgram, r = .datagram dgram →
      ¬ (w.running = true ∧ w.searchs.num < mcastSearchSize ∧ Answers (receivedInto w.msg dgram) dgram)
  · exact h.congr (round_other hother).1 (round_other hother).2
  simp only [not_forall, not_not] at hother
  obtain ⟨dgram, rfl, hrun, hroom, hans⟩ := hother
  have hiff := htells hrun hroom hans
  rw [round_answer hrun hroom hans]
  by_cases hskip : w.searchs.num ≠ 0 ∧ w.searchs.search w.searchs.num = data (receivedInto w.msg dgram)
  · rw [McastSearchs.collect_skip hskip]
    refine ⟨h.once, ?_, h.room⟩
    intro a ha
    rcases List.mem_append.mp ha with ha | ha
    · exact h.all a ha
    · exact .inl (List.mem_singleton.mp ha ▸ hiff.mpr hskip)
  · rw [McastSearchs.collect_push hskip]
    refine ⟨?_, ?_, hroom⟩ <;> dsimp only <;> rw [McastSearchs.entries_push]
    · rw [List.nodup_append]
      refine ⟨h.once, List.pairwise_singleton .., ?_⟩
      intro e he e' he' heq
      rw [heq, List.mem_singleton.mp he'] at he
      exact hskip (hiff.mp he)
    · intro a ha
      rcases List.mem_append.mp ha with ha | ha
      · rcases h.all a ha with hin | hfull
        · exact .inl (List.mem_append_left _ hin)
        · exact absurd hfull (Nat.ne_of_lt hroom)
      · exact .inl (List.mem_singleton.mp ha ▸ List.mem_append_right _ (List.mem_singleton_self _))

/-- Where the free entry tells wrong, an answer comes twice or is lost. -/
theorem not_collected_round {w : SearchLoop} {r : SearchRound} (htells : ¬ w.Tells r) :
    ¬ (w.round r).Collected := by
  intro hnext
  cases r with
  | timeout | pollError | noData => exact htells trivial
  | datagram dgram =>
    simp only [Tells, Classical.not_imp] at htells
    obtain ⟨hrun, hroom, hans, hiff⟩ := htells
    rw [round_answer hrun hroom hans] at hnext
    by_cases hskip : w.searchs.num ≠ 0 ∧ w.searchs.search w.searchs.num = data (receivedInto w.msg dgram)
    · rw [McastSearchs.collect_skip hskip] at hnext
      rcases hnext.all _ (List.mem_append_right _ (List.mem_singleton_self _)) with hin | hfull
      · exact hiff (iff_of_true hin hskip)
      · exact absurd hfull (Nat.ne_of_lt hroom)
    · rw [McastSearchs.collect_push hskip] at hnext
      have honce := hnext.once
      dsimp only at honce
      rw [McastSearchs.entries_push, List.nodup_append] at honce
      refine hiff (iff_of_false (fun hin => ?_) hskip)
      exact honce.2.2 _ hin _ (List.mem_singleton_self _) rfl

theorem exec_round (w : SearchLoop) (rounds : List SearchRound) :
    exec (fun w r => some (round w r)) w rounds = some (rounds.foldl round w) := by
  induction rounds generalizing w with
  | nil => rfl
  | cons r rounds ih => exact ih (w.round r)

/-- `nc_qh_searchDev` returns 0 with the list, and that is right. -/
def ListRight (search : ℕ → List UInt8) (msg : List UInt8) (rounds : List SearchRound) : Prop :=
  let w := rounds.foldl round (start search msg)
  nc_qh_searchDev true true true search msg rounds = (0, w.searchs) ∧ w.Collected

/-- **Answers without duplicates.** After every number of rounds the list is right if and only if in every round the next
free entry happens to tell whether the answer is there. -/
theorem collected_iff (search : ℕ → List UInt8) (msg : List UInt8) (rounds : List SearchRound) :
    (∀ first, first <+: rounds → ListRight search msg first) ↔
      Meets (fun w r => some (round w r)) Tells (start search msg) rounds := by
  rw [← always_iff_meets (P := Collected) (fun _ _ h htells => ⟨_, rfl, h.round htells⟩) (fun _ h => h)
    (fun _ _ _ _ htells ht => Option.some.inj ht ▸ not_collected_round htells) (collected_start search msg)]
  refine forall_congr' fun first => forall_congr' fun _ => ?_
  rw [exec_round]
  simp [ListRight, nc_qh_searchDev]

theorem receivedInto_eq {msg dgram : List UInt8} (hd : dgram.length ≤ headSize + msgSize) (hh : headSize ≤ dgram.length)
    (hm : msg.length ≤ dgram.length) : receivedInto msg dgram = dgram := by
  have hrest : (List.replicate headSize (0 : UInt8) ++ msg.drop headSize).length ≤ dgram.length := by
    rw [List.length_append, List.length_replicate, List.length_drop]
    omega
  rw [receivedInto, List.take_of_length_le hd, List.drop_eq_nil_of_le hrest, List.append_nil]

def zeroAnswer : List UInt8 :=
  (⟨ptcFlag, cmdMcastSearchResp, 512, ptcVersion, 0, 1, 1, 512, 0, 0, .replicate 6 0⟩ : PtcHead).bytes ++
    List.replicate searchSize 0

/-- The same answer twice, into entries that hold ones. -/
theorem answer_twice : ¬ ListRight (fun _ => List.replicate searchSize 1) []
    [.datagram zeroAnswer, .datagram zeroAnswer] := by
  have hlen : zeroAnswer.length = 544 := by
    rw [zeroAnswer, List.length_append, List.length_replicate]
    rfl
  have hmsg (msg : List UInt8) (hm : msg.length ≤ 544) : receivedInto msg zeroAnswer = zeroAnswer :=
    receivedInto_eq (by rw [hlen]; decide) (by rw [hlen]; decide) (by rwa [hlen])
  have hans : Answers zeroAnswer zeroAnswer := by decide +kernel
  have hfirst : round (start (fun _ => List.replicate searchSize 1) []) (.datagram zeroAnswer) =
      ⟨true, ⟨1, Function.update (fun _ => List.replicate searchSize 1) 0 (stored (data zeroAnswer))⟩, zeroAnswer,
        [data zeroAnswer]⟩ := by
    have hnil := hmsg [] (Nat.zero_le _)
    rw [round_answer rfl (by decide) (by rw [show (start _ []).msg = [] from rfl, hnil]; exact hans)]
    rw [show (start (fun _ => List.replicate searchSize 1) []).msg = [] from rfl, hnil,
      McastSearchs.collect_push (fun h => h.1 rfl)]
    rfl
  rintro ⟨-, hright⟩
  rw [List.foldl_cons, hfirst, List.foldl_cons, List.foldl_nil] at hright
  refine not_collected_round ?_ hright
  have hsame := hmsg zeroAnswer (Nat.le_of_eq hlen)
  simp only [Tells, hsame, Classical.not_imp]
  refine ⟨trivial, by decide, hans, fun hiff => ?_⟩
  have hin : stored (data zeroAnswer) ∈ McastSearchs.entries ⟨1, Function.update
      (fun _ => List.replicate searchSize 1) 0 (stored (data zeroAnswer))⟩ := List.mem_singleton_self _
  have hfree := (hiff.mp hin).2
  have hhead := congrArg List.head? hfree
  exact absurd hhead (by decide +kernel)

end SearchLoop

end Qh

end SabApp
