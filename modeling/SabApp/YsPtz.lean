import Mathlib.Data.List.Pairwise
import SabApp.Runs

/-!
# PTZ commands of a YS device

`nc_ys_dev_ptz` overwrites the wanted command in the device slot; `nc_ys_dev_doPtz` sends it
when it differs from the one last answered. A command is thus pending as long as the two
differ, and they also differ when the answer was lost or `nc_ys_dev_logout` has cleared the
last command: the next session then sends the old command once more.
-/

namespace SabApp

namespace Ys

structure Ptz where
  channelNo : UInt8
  cmd : UInt8
  param : UInt8
  step : UInt8
  deriving DecidableEq

/-- `PTC_PTZ_CMD_*` with the device's `YS_PTZ_CMD_*`; a command not listed stops the camera. -/
def ptzCommands : List (UInt8 × UInt16) :=
  [(1, 0x0504), (2, 0x0502), (3, 0x0402), (4, 0x0404), (5, 0x0702), (6, 0x0704), (7, 0x0802), (8, 0x0804),
   (9, 0x0202), (10, 0x0204), (11, 0x0302), (12, 0x0304), (13, 0x0104), (14, 0x0102), (15, 0x0601), (16, 0x0602),
   (17, 0x0603), (29, 0x0E01), (30, 0x0E02)]

/-- `ys_msg_ptz_c2d_t`: `u8MappingChlIndex` and `u8ChlID` agree, and so do the two parameters. -/
structure PtzMsg where
  chlId : UInt8
  command : UInt16
  param : UInt8
  deriving DecidableEq

def Ptz.msg (p : Ptz) : PtzMsg := ⟨p.channelNo + 1, (ptzCommands.lookup p.cmd).getD 0x0901, p.param⟩

inductive PtzPc where
  | idle
  | send (p : Ptz)
  | recv (p : Ptz)
  deriving DecidableEq

structure PtzDev where
  pc : PtzPc
  live : Bool
  last : Ptz
  cur : Ptz

/-- The device slot with its history: the number of PTZ calls, of those made at the running copy,
and each message sent with the number of calls at the copy it came from. -/
structure PtzWorld where
  dev : PtzDev
  calls : ℕ
  copied : ℕ
  sent : List (ℕ × PtzMsg)

inductive PtzAct where
  | ptz (channelNo cmd param : Int32)
  | login
  | logout
  | doPtz
  | sendMsg (ok : Bool)
  | recvMsg (ok : Bool)

namespace PtzWorld

def init : PtzWorld := ⟨⟨.idle, false, ⟨0, 0, 0, 0⟩, ⟨0, 0, 0, 0⟩⟩, 0, 0, []⟩

/-- `nc_ys_dev_ptz`: the arguments are cut to their low bytes. -/
def ptz (w : PtzWorld) (channelNo cmd param : Int32) : PtzWorld :=
  { w with dev.cur := ⟨channelNo.toUInt32.toUInt8, cmd.toUInt32.toUInt8, param.toUInt32.toUInt8, 0⟩,
           calls := w.calls + 1 }

/-- `nc_ys_dev_logout`. -/
def logout (w : PtzWorld) : PtzWorld :=
  { w with dev.pc := .idle, dev.live := false, dev.last := { w.dev.last with cmd := 0 } }

/-- `nc_ys_dev_doPtz` up to the send. -/
def doPtz (w : PtzWorld) : PtzWorld :=
  if w.dev.last = w.dev.cur then w else { w with dev.pc := .send w.dev.cur, copied := w.calls }

def send (w : PtzWorld) (p : Ptz) : PtzWorld :=
  { w with dev.pc := .recv p, sent := w.sent ++ [(w.copied, p.msg)] }

def step (w : PtzWorld) : PtzAct → Option PtzWorld
  | .ptz channelNo cmd param => some (w.ptz channelNo cmd param)
  | .login => some { w with dev.live := true }
  | .logout => match w.dev.pc with
    | .idle => some w.logout
    | _ => none
  | .doPtz => match w.dev.pc, w.dev.live with
    | .idle, true => some w.doPtz
    | _, _ => none
  | .sendMsg ok => match w.dev.pc with
    | .send p => some (if ok then w.send p else w.logout)
    | _ => none
  | .recvMsg ok => match w.dev.pc with
    | .recv p => some (if ok then { w with dev.pc := .idle, dev.last := p } else w.logout)
    | _ => none

/-- No more messages than calls, and each for a call made after the copy of the one before. -/
structure AtMostOnce (w : PtzWorld) : Prop where
  count : w.sent.length ≤ w.calls
  fresh : (w.sent.map Prod.fst).Pairwise (· < ·)

/-- The number of calls at the copy of the last message sent. -/
def sentFor (w : PtzWorld) : ℕ := (w.sent.getLast?.map Prod.fst).getD 0

/-- `doPtz` finds a difference only if a call was made since the last message's copy. -/
def Ok (w : PtzWorld) : PtzAct → Prop
  | .doPtz => w.dev.last ≠ w.dev.cur → w.sentFor < w.calls
  | _ => True

theorem sentFor_send (w : PtzWorld) (p : Ptz) : (w.send p).sentFor = w.copied := by simp [sentFor, send]

structure Inv (w : PtzWorld) : Prop where
  le : ∀ n ∈ w.sent.map Prod.fst, n ≤ w.sentFor
  fresh : (w.sent.map Prod.fst).Pairwise (· < ·)
  length : w.sent.length ≤ w.sentFor
  calls : w.sentFor ≤ w.calls
  pending : ∀ p, w.dev.pc = .send p → w.sentFor < w.copied ∧ w.copied ≤ w.calls

theorem inv_init : Inv init := ⟨nofun, List.Pairwise.nil, Nat.le_refl _, Nat.le_refl _, nofun⟩

theorem inv_ptz {w : PtzWorld} (h : Inv w) (channelNo cmd param : Int32) : Inv (w.ptz channelNo cmd param) where
  le := h.le
  fresh := h.fresh
  length := h.length
  calls := Nat.le_succ_of_le h.calls
  pending p hp := by
    obtain ⟨hlt, hle⟩ := h.pending p hp
    exact ⟨hlt, Nat.le_succ_of_le hle⟩

theorem inv_logout {w : PtzWorld} (h : Inv w) : Inv w.logout := ⟨h.le, h.fresh, h.length, h.calls, nofun⟩

theorem inv_doPtz {w : PtzWorld} (h : Inv w) (hok : w.dev.last ≠ w.dev.cur → w.sentFor < w.calls) :
    Inv w.doPtz := by
  unfold doPtz
  by_cases he : w.dev.last = w.dev.cur
  · rw [if_pos he]; exact h
  · rw [if_neg he]
    refine ⟨h.le, h.fresh, h.length, h.calls, ?_⟩
    intro _ _
    exact ⟨hok he, Nat.le_refl _⟩

theorem inv_send {w : PtzWorld} (h : Inv w) {p : Ptz} (hp : w.dev.pc = .send p) : Inv (w.send p) := by
  obtain ⟨hlt, hle⟩ := h.pending p hp
  have hmap : (w.send p).sent.map Prod.fst = w.sent.map Prod.fst ++ [w.copied] := by simp [send]
  refine ⟨?_, ?_, ?_, ?_, nofun⟩
  · intro n hn
    rw [sentFor_send]
    rw [hmap] at hn
    rcases List.mem_append.mp hn with hn | hn
    · exact Nat.le_trans (h.le n hn) (Nat.le_of_lt hlt)
    · exact Nat.le_of_eq (List.mem_singleton.mp hn)
  · rw [hmap]
    apply List.pairwise_append.mpr
    refine ⟨h.fresh, List.pairwise_singleton _ _, ?_⟩
    intro n hn m hm
    rw [List.mem_singleton.mp hm]
    exact Nat.lt_of_le_of_lt (h.le n hn) hlt
  · rw [sentFor_send, send, List.length_append]
    exact Nat.lt_of_le_of_lt h.length hlt
  · rw [sentFor_send]; exact hle

theorem inv_step {w t : PtzWorld} {a : PtzAct} (h : Inv w) (hok : w.Ok a) (hs : step w a = some t) : Inv t := by
  cases a with
  | ptz channelNo cmd param => cases hs; exact inv_ptz h channelNo cmd param
  | login => cases hs; exact ⟨h.le, h.fresh, h.length, h.calls, h.pending⟩
  | logout => cases hp : w.dev.pc <;> simp only [step, hp] at hs <;> cases hs; exact inv_logout h
  | doPtz =>
    cases hp : w.dev.pc <;> cases hl : w.dev.live <;> simp only [step, hp, hl] at hs <;> cases hs
    exact inv_doPtz h hok
  | sendMsg ok =>
    cases hp : w.dev.pc with
    | send p =>
      cases ok <;> simp only [step, hp] at hs <;> cases hs
      · exact inv_logout h
      · exact inv_send h hp
    | idle | recv p => simp [step, hp] at hs
  | recvMsg ok =>
    cases hp : w.dev.pc with
    | recv p =>
      cases ok <;> simp only [step, hp] at hs <;> cases hs
      · exact inv_logout h
      · exact ⟨h.le, h.fresh, h.length, h.calls, nofun⟩
    | idle | send p => simp [step, hp] at hs

end PtzWorld

end Ys

end SabApp
