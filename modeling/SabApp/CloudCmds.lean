import Mathlib.Logic.Function.Basic
import SabApp.Mailbox
import SabApp.Runs

/-!
# Commands to a cloud device

`hdcctv_client2_msgs_ctrlPtz`, `syncTime`, `setStatus`, `setWifi` and `setDevRecord` leave their
parameters in the message slot; the slot's thread takes them up in turn. Every `do` function
ends by noting the number it then finds in the slot, which may be newer than what it sent,
and all but `doPtz` do so after a failed send as well.
-/

namespace SabApp

namespace Cloud

inductive Cmd where
  | ptz
  | syncTime
  | setStatus
  | setWifi
  | setDevRecord
  deriving DecidableEq

structure PtzArg where
  channel : Int32
  cmd : Int32
  param : Int32
  deriving DecidableEq

structure TimeArg where
  utcSec : UInt32
  zone : Int32
  dstHour : Int32
  deriving DecidableEq

/-- The bytes of a configuration structure, which is only copied. -/
abbrev Cfg := List UInt8

abbrev Cmd.Arg : Cmd → Type
  | ptz => PtzArg
  | syncTime => TimeArg
  | setStatus | setWifi | setDevRecord => Cfg

/-- How a `do` function deals with the device. -/
structure Exchange where
  /-- It waits for an answer. -/
  answered : Bool
  /-- It notes the request also when the send fails. -/
  noteFailed : Bool

def doPtz : Exchange := ⟨false, false⟩
def doSyncTime : Exchange := ⟨false, true⟩
def doSetStatus : Exchange := ⟨true, true⟩
def doSetWifi : Exchange := ⟨true, true⟩
def doSetDevRecord : Exchange := ⟨true, true⟩

def Cmd.exchange : Cmd → Exchange
  | ptz => doPtz
  | syncTime => doSyncTime
  | setStatus => doSetStatus
  | setWifi => doSetWifi
  | setDevRecord => doSetDevRecord

/-- The slot of one kind with its history: the calls, the number of them made at the last note, and
the messages sent, each with the number of calls at its copy. -/
structure Line (π : Type) where
  box : Mailbox π
  calls : List π
  noted : ℕ
  sent : List (ℕ × π)

namespace Line
variable {π : Type}

def init (p : π) : Line π := ⟨Mailbox.init p, [], 0, []⟩

def post (l : Line π) (p : π) : Line π := { l with box := l.box.post p, calls := l.calls ++ [p] }

def note (l : Line π) : Line π := { l with box := l.box.ack, noted := l.calls.length }

def tell (l : Line π) (n : ℕ) (p : π) : Line π := { l with sent := l.sent ++ [(n, p)] }

/-- The latest call has been sent since it was made. -/
def Told (l : Line π) : Prop := ∀ p, l.calls.getLast? = some p → (l.calls.length, p) ∈ l.sent

structure Inv (l : Line π) : Prop where
  tracks : l.box.Tracks l.calls l.noted
  lt : l.calls.length < l.noted + 4294967296
  told : l.noted = l.calls.length → l.Told

/-- A copy of the latest of the first `n` calls, none of them noted. -/
def Copied (l : Line π) (n : ℕ) (p : π) : Prop := l.noted < n ∧ n ≤ l.calls.length ∧ upTo l.calls n = some p

theorem inv_init (p : π) : (init p).Inv := ⟨Mailbox.Tracks.start p, (by decide : 0 < 0 + 4294967296), nofun⟩

theorem inv_post {l : Line π} (h : l.Inv) {p : π} (hlt : l.calls.length + 1 < l.noted + 4294967296) :
    (l.post p).Inv where
  tracks := h.tracks.post p
  lt := by rw [post, List.length_append]; exact hlt
  told ha := by
    have hle := h.tracks.le
    have ha' : l.noted = l.calls.length + 1 := ha.trans (List.length_append ..)
    omega

theorem copied_post {l : Line π} {n : ℕ} {q : π} (h : l.Copied n q) (p : π) : (l.post p).Copied n q := by
  obtain ⟨hlt, hle, hu⟩ := h
  refine ⟨hlt, ?_, (upTo_append hle p).trans hu⟩
  exact Nat.le_trans hle (by simp [post])

theorem copied_of_ne {l : Line π} (h : l.Inv) (hne : l.box.last ≠ l.box.cur) :
    l.Copied l.calls.length l.box.cfg :=
  ⟨h.tracks.lt_of_ne hne, Nat.le_refl _, (upTo_length l.calls).trans (h.tracks.cfg_of_ne hne)⟩

theorem inv_tell {l : Line π} (h : l.Inv) {n : ℕ} {p : π} (hc : l.Copied n p) : (l.tell n p).Inv where
  tracks := h.tracks
  lt := h.lt
  told ha := absurd ha (Nat.ne_of_lt (Nat.lt_of_lt_of_le hc.1 hc.2.1))

/-- A note counts for the latest call when that is the one sent. -/
theorem inv_note {l : Line π} (h : l.Inv) {p : π} (hc : l.Copied l.calls.length p)
    (hs : (l.calls.length, p) ∈ l.sent) : l.note.Inv where
  tracks := h.tracks.ack
  lt := Nat.lt_add_of_pos_right (by decide)
  told _ q hq := by
    obtain ⟨_, _, hu⟩ := hc
    have hqp : q = p := Option.some.inj (hq.symm.trans ((upTo_length l.calls).symm.trans hu))
    rw [hqp]
    exact hs

theorem told_of_eq {l : Line π} (h : l.Inv) (he : l.box.last = l.box.cur) : l.Told :=
  h.told ((h.tracks.idle_iff h.lt).mp he)

end Line

inductive CmdPc where
  | idle
  | send (k : Cmd) (p : k.Arg)
  | recv (k : Cmd) (p : k.Arg)

/-- The message slot. `copied` is the number of calls at the running function's copy. -/
structure CmdWorld where
  pc : CmdPc
  live : Bool
  line : (k : Cmd) → Line k.Arg
  copied : ℕ

inductive CmdAct where
  | call (k : Cmd) (p : k.Arg)
  | login
  | logout
  | run (k : Cmd)
  | sendMsg (ok : Bool)
  | recvMsg (ok : Bool)

namespace CmdWorld

def init : CmdWorld where
  pc := .idle
  live := false
  line
    | .ptz => Line.init ⟨0, 0, 0⟩
    | .syncTime => Line.init ⟨0, 0, 0⟩
    | .setStatus => Line.init []
    | .setWifi => Line.init []
    | .setDevRecord => Line.init []
  copied := 0

def setLine (w : CmdWorld) (k : Cmd) (l : Line k.Arg) : CmdWorld := { w with line := Function.update w.line k l }

/-- `hdcctv_client2_msgs_ctrlPtz` and the other callers. -/
def call (w : CmdWorld) (k : Cmd) (p : k.Arg) : CmdWorld := w.setLine k ((w.line k).post p)

/-- A `do` function up to its send. -/
def run (w : CmdWorld) (k : Cmd) : CmdWorld :=
  if (w.line k).box.last = (w.line k).box.cur then w
  else { w with pc := .send k (w.line k).box.cfg, copied := (w.line k).calls.length }

/-- A `do` function fails and `hdcctv_client2_msgs_run` logs out. -/
def fail (w : CmdWorld) : CmdWorld := { w with pc := .idle, live := false }

def setPc (w : CmdWorld) (pc : CmdPc) : CmdWorld := { w with pc := pc }

def tell (w : CmdWorld) (k : Cmd) (p : k.Arg) : CmdWorld := w.setLine k ((w.line k).tell w.copied p)

/-- `last_..._req = cur_..._req`, without the lock. -/
def note (w : CmdWorld) (k : Cmd) : CmdWorld := w.setLine k (w.line k).note

def step (w : CmdWorld) : CmdAct → Option CmdWorld
  | .call k p => some (w.call k p)
  | .login => some { w with live := true }
  | .logout => match w.pc with
    | .idle => some w.fail
    | _ => none
  | .run k => match w.pc, w.live with
    | .idle, true => some (w.run k)
    | _, _ => none
  | .sendMsg true => match w.pc with
    | .send k p => some (if k.exchange.answered then (w.tell k p).setPc (.recv k p)
        else ((w.tell k p).note k).setPc .idle)
    | _ => none
  | .sendMsg false => match w.pc with
    | .send k _ => some (if k.exchange.noteFailed then (w.note k).fail else w.fail)
    | _ => none
  | .recvMsg ok => match w.pc with
    | .recv k _ => some (if ok then (w.note k).setPc .idle else (w.note k).fail)
    | _ => none

/-- No `do` function is running and a kind's numbers agree: its latest call has been sent. -/
def NoneLost (w : CmdWorld) : Prop := w.pc = .idle → ∀ k, (w.line k).box.last = (w.line k).box.cur → (w.line k).Told

/-- A `do` function that notes a request has sent it, and no call of the kind came since its copy;
fewer than 2^32 calls of a kind are open. -/
def Ok (w : CmdWorld) : CmdAct → Prop
  | .call k _ => (w.line k).calls.length + 1 < (w.line k).noted + 4294967296
  | .sendMsg true => match w.pc with
    | .send k _ => k.exchange.answered = false → w.copied = (w.line k).calls.length
    | _ => True
  | .sendMsg false => match w.pc with
    | .send k _ => k.exchange.noteFailed = false
    | _ => True
  | .recvMsg _ => match w.pc with
    | .recv k _ => w.copied = (w.line k).calls.length
    | _ => True
  | _ => True

@[simp] theorem setLine_line_self (w : CmdWorld) (k : Cmd) (l : Line k.Arg) : (w.setLine k l).line k = l :=
  Function.update_self ..

theorem setLine_line_ne (w : CmdWorld) {k j : Cmd} (hj : j ≠ k) (l : Line k.Arg) :
    (w.setLine k l).line j = w.line j :=
  Function.update_of_ne hj ..

structure Inv (w : CmdWorld) : Prop where
  line : ∀ k, (w.line k).Inv
  send : ∀ k p, w.pc = .send k p → (w.line k).Copied w.copied p
  recv : ∀ k p, w.pc = .recv k p → (w.line k).Copied w.copied p ∧ (w.copied, p) ∈ (w.line k).sent

theorem line_setLine {w : CmdWorld} (h : ∀ k, (w.line k).Inv) {k : Cmd} {l : Line k.Arg} (hl : l.Inv) :
    ∀ j, ((w.setLine k l).line j).Inv := by
  intro j
  by_cases hj : j = k
  · subst hj
    rw [setLine_line_self]
    exact hl
  · rw [setLine_line_ne w hj]
    exact h j

theorem inv_init : Inv init where
  line k := by cases k <;> exact Line.inv_init _
  send := nofun
  recv := nofun

theorem inv_idle {w : CmdWorld} (h : ∀ k, (w.line k).Inv) (hp : w.pc = .idle) : Inv w where
  line := h
  send k p hp' := by rw [hp] at hp'; cases hp'
  recv k p hp' := by rw [hp] at hp'; cases hp'

theorem inv_call {w : CmdWorld} (h : Inv w) {k : Cmd} {p : k.Arg}
    (hlt : (w.line k).calls.length + 1 < (w.line k).noted + 4294967296) : Inv (w.call k p) where
  line := line_setLine h.line (Line.inv_post (h.line k) hlt)
  send j q hp := by
    have hc := h.send j q hp
    by_cases hj : j = k
    · subst hj
      rw [call, setLine_line_self]
      exact Line.copied_post hc p
    · rw [call, setLine_line_ne w hj]
      exact hc
  recv j q hp := by
    have hc := h.recv j q hp
    by_cases hj : j = k
    · subst hj
      rw [call, setLine_line_self]
      exact ⟨Line.copied_post hc.1 p, hc.2⟩
    · rw [call, setLine_line_ne w hj]
      exact hc

theorem inv_run {w : CmdWorld} (h : Inv w) (k : Cmd) : Inv (w.run k) := by
  unfold run
  by_cases he : (w.line k).box.last = (w.line k).box.cur
  · rw [if_pos he]; exact h
  · rw [if_neg he]
    refine ⟨h.line, ?_, nofun⟩
    intro j p hp
    cases hp
    exact Line.copied_of_ne (h.line k) he

theorem inv_tell {w : CmdWorld} (h : Inv w) {k : Cmd} {p : k.Arg} (hp : w.pc = .send k p) :
    Inv ((w.tell k p).setPc (.recv k p)) where
  line := line_setLine h.line (Line.inv_tell (h.line k) (h.send k p hp))
  send := nofun
  recv j q hq := by
    cases hq
    have hl : ((w.tell k p).setPc (.recv k p)).line k = (w.line k).tell w.copied p := setLine_line_self ..
    rw [hl]
    exact ⟨h.send k p hp, List.mem_append_right _ (List.mem_singleton.mpr rfl)⟩

theorem line_note {w : CmdWorld} (h : Inv w) {k : Cmd} {p : k.Arg} (hp : w.pc = .recv k p)
    (hok : w.copied = (w.line k).calls.length) : ∀ j, ((w.note k).line j).Inv := by
  obtain ⟨hc, hs⟩ := h.recv k p hp
  rw [hok] at hc hs
  exact line_setLine h.line (Line.inv_note (h.line k) hc hs)

theorem inv_sent {w : CmdWorld} (h : Inv w) {k : Cmd} {p : k.Arg} (hp : w.pc = .send k p)
    (hok : w.copied = (w.line k).calls.length) : Inv (((w.tell k p).note k).setPc .idle) := by
  have ht := inv_tell h hp
  refine inv_idle (line_note ht rfl ?_) rfl
  have hl : ((w.tell k p).setPc (.recv k p)).line k = (w.line k).tell w.copied p := setLine_line_self ..
  rw [hl]
  exact hok

theorem inv_step {w t : CmdWorld} {a : CmdAct} (h : Inv w) (hok : w.Ok a) (hs : step w a = some t) : Inv t := by
  cases a with
  | call k p => cases hs; exact inv_call h hok
  | login => cases hs; exact ⟨h.line, h.send, h.recv⟩
  | logout => cases hp : w.pc <;> simp only [step, hp] at hs <;> cases hs; exact inv_idle h.line rfl
  | run k =>
    cases hp : w.pc <;> cases hl : w.live <;> simp only [step, hp, hl] at hs <;> cases hs
    exact inv_run h k
  | sendMsg ok =>
    cases hp : w.pc with
    | send k p =>
      cases ok with
      | true =>
        simp only [Ok, hp] at hok
        simp only [step, hp] at hs
        cases hs
        cases ha : k.exchange.answered with
        | true => rw [if_pos rfl]; exact inv_tell h hp
        | false => rw [if_neg nofun]; exact inv_sent h hp (hok ha)
      | false =>
        simp only [Ok, hp] at hok
        simp only [step, hp, hok] at hs
        cases hs
        exact inv_idle h.line rfl
    | idle => cases ok <;> simp [step, hp] at hs
    | recv k p => cases ok <;> simp [step, hp] at hs
  | recvMsg ok =>
    cases hp : w.pc with
    | recv k p =>
      simp only [Ok, hp] at hok
      simp only [step, hp] at hs
      cases hs
      have hl := line_note h hp hok
      cases ok
      · exact inv_idle hl rfl
      · exact inv_idle hl rfl
    | idle => simp [step, hp] at hs
    | send k p => simp [step, hp] at hs

/-- **No command is lost** in every run where a `do` function only notes what it has sent, and that
with no call of the kind since its copy. -/
theorem cmds_noneLost (as : List CmdAct) (h : Meets step Ok init as) : Reached step NoneLost init as := by
  apply reached_of_meets (I := Inv)
  · intro w a t hi hok hs
    exact inv_step hi hok hs
  · intro w hi _ k he
    exact Line.told_of_eq (hi.line k) he
  · exact inv_init
  · exact h

/-- A PTZ command and a status, sent and noted. -/
theorem cmds_twice : Reached step NoneLost init
    [.login, .call .ptz ⟨0, 1, 5⟩, .run .ptz, .sendMsg true, .call .setStatus [1], .run .setStatus, .sendMsg true,
      .recvMsg true] := by
  apply cmds_noneLost
  refine Meets.cons trivial rfl (Meets.cons (by decide : 0 + 1 < 0 + 4294967296) rfl ?_)
  refine Meets.cons trivial rfl (Meets.cons (fun _ => rfl) rfl ?_)
  refine Meets.cons (by decide : 0 + 1 < 0 + 4294967296) rfl ?_
  refine Meets.cons trivial rfl (Meets.cons nofun rfl ?_)
  exact Meets.cons rfl rfl trivial

/-- A time is noted though its send failed; a second PTZ command is noted with the first one. -/
theorem cmds_lost :
    (∃ t, exec step init [.login, .call .syncTime ⟨100, 4, 0⟩, .run .syncTime, .sendMsg false] = some t ∧
      t.pc = .idle ∧ (t.line .syncTime).box.last = (t.line .syncTime).box.cur ∧ (t.line .syncTime).sent = [] ∧
      ¬ t.NoneLost) ∧
    ∃ t, exec step init [.login, .call .ptz ⟨0, 1, 5⟩, .run .ptz, .call .ptz ⟨0, 0, 0⟩, .sendMsg true] = some t ∧
      t.pc = .idle ∧ (t.line .ptz).box.last = (t.line .ptz).box.cur ∧ (t.line .ptz).sent = [(1, ⟨0, 1, 5⟩)] ∧
      ¬ t.NoneLost := by
  refine ⟨⟨_, rfl, rfl, rfl, rfl, ?_⟩, ⟨_, rfl, rfl, rfl, rfl, ?_⟩⟩
  · intro h
    have ht := h rfl .syncTime rfl ⟨100, 4, 0⟩ rfl
    cases ht
  · intro h
    have ht := h rfl .ptz rfl ⟨0, 0, 0⟩ rfl
    rcases List.mem_singleton.mp ht with ht
    cases ht

end CmdWorld

end Cloud

end SabApp
