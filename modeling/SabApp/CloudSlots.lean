import Mathlib.Data.List.FinRange
import SabApp.CloudCmds
import SabApp.Nc

/-!
# Message slots of the cloud client

Sixteen slots, each bound to one device while its thread runs. A call looks for the device's
slot under the client's lock, starts a free one if there is none, and only then, under the
slot's own lock, leaves its request. `hdcctv_client2_run` stops a slot whose idle stamp is
60 ticks old. Neither start nor stop touches the request numbers, the stamp or the cached
service address.
-/

namespace SabApp

namespace Cloud

inductive CfgId where
  | av
  | wifi
  | devRecord
  | workMode
  deriving DecidableEq

/-- The calls that wait for the device's answer. -/
inductive Query where
  | getAbility
  | searchRecords
  | searchLogs
  | searchDates
  | getStatus
  | getAlarm
  | setAlarm
  | getWifi
  | getDevRecord
  | getCfg (id : CfgId)
  | setCfg (id : CfgId)
  deriving DecidableEq

inductive Kind where
  | cmd (c : Cmd)
  | query (q : Query)
  deriving DecidableEq

namespace Kind

/-- The functions for queries note and answer the request on every exit. -/
def exchange : Kind → Exchange
  | cmd c => c.exchange
  | query _ => ⟨true, true⟩

/-- Where a kind's parameters lie; two pairs of kinds share a place. -/
def buf : Kind → Kind
  | query (.getCfg .wifi) => query .getWifi
  | query (.getCfg .devRecord) => query .getDevRecord
  | query (.setCfg .wifi) => cmd .setWifi
  | query (.setCfg .devRecord) => cmd .setDevRecord
  | k => k

/-- The call sets `state_tick` when it leaves its request. -/
def stamps : Kind → Bool
  | cmd .ptz | cmd .syncTime => true
  | cmd .setStatus | cmd .setWifi | cmd .setDevRecord => false
  | query .setAlarm | query (.setCfg _) => false
  | query _ => true

end Kind

/-- What tells devices apart in `hdcctv_client2_msgs_isSame`. -/
structure NcDev where
  devId : List UInt8
  user : List UInt8
  pswd : List UInt8
  deriving DecidableEq

structure ServiceAddr where
  ip : List UInt8
  port : UInt16
  nonceMd5 : List UInt8
  deriving DecidableEq

/-- A call on its way: the device it names and the slot it found, at its n-th binding. -/
structure Ticket where
  kind : Kind
  dev : NcDev
  slot : Fin 16
  binding : ℕ
  deriving DecidableEq

/-- Whose parameters lie in a place of the slot. -/
structure Origin where
  dev : NcDev
  binding : ℕ
  deriving DecidableEq

structure Numbers where
  last : Int32
  cur : Int32
  deriving DecidableEq

inductive SlotPc where
  | idle
  | send (k : Kind) (r : Origin)
  | recv (k : Kind) (r : Origin)
  deriving DecidableEq

/-- `hdcctv_client2_msgs_t`. The last four fields are history: the number of starts, the device the
address was fetched for, and the ticks of the last stamp and of the latest call. -/
structure Slot where
  state : Bool
  stNcDev : NcDev
  stateTick : Int32
  msgsEnable : Bool
  msgsAddr : ServiceAddr
  req : Kind → Numbers
  cfg : Kind → Origin
  pc : SlotPc
  /-- The device whose address the open session uses. -/
  session : Option NcDev
  binding : ℕ
  addrFor : NcDev
  stampAt : ℕ
  lastCall : ℕ

/-- A login (no origin) or a command, as it was sent. -/
structure Sent where
  dev : NcDev
  binding : ℕ
  addrFor : NcDev
  origin : Option Origin

structure SlotWorld where
  tick : Int32
  slot : Fin 16 → Slot
  entering : List Ticket
  waiting : List Ticket
  now : ℕ
  sent : List Sent
  /-- Each stop with the ticks of the slot's latest call and of the stop. -/
  stops : List (ℕ × ℕ)

inductive SlotAct where
  | tick
  | call (k : Kind) (d : NcDev)
  | enter (t : Ticket)
  /-- The wait ends, with an answer or without. -/
  | leave (t : Ticket)
  | housekeep (i : Fin 16)
  | getServiceAddr (i : Fin 16) (addr : Option ServiceAddr)
  | login (i : Fin 16) (ok : Bool)
  | logout (i : Fin 16)
  | run (i : Fin 16) (k : Kind)
  | sendMsg (i : Fin 16) (ok : Bool)
  | recvMsg (i : Fin 16) (ok : Bool)

namespace Slot

/-- `hdcctv_client2_msgs_isSame`, between devices of this protocol. -/
def isSame (s : Slot) (d : NcDev) : Bool := s.stNcDev = d && s.state

/-- `hdcctv_client2_msgs_start`. -/
def start (s : Slot) (d : NcDev) : Slot :=
  { s with state := true, stNcDev := d, session := none, binding := s.binding + 1 }

/-- `hdcctv_client2_msgs_stop`, the end of the slot's thread included. -/
def stop (s : Slot) : Slot := { s with state := false, session := none }

def called (s : Slot) (now : ℕ) : Slot := { s with lastCall := now }

def stamp (s : Slot) (tick : Int32) (now : ℕ) : Slot := { s with stateTick := tick, stampAt := now }

/-- A call leaves its request. -/
def post (s : Slot) (k : Kind) (r : Origin) : Slot :=
  { s with req := Function.update s.req k ⟨(s.req k).last, (s.req k).cur + 1⟩,
           cfg := Function.update s.cfg k.buf r }

def copy (s : Slot) (k : Kind) : Slot :=
  if (s.req k).last = (s.req k).cur then s else { s with pc := .send k (s.cfg k.buf) }

/-- The request is noted; a query's answer goes where its parameters came from. -/
def note (s : Slot) (k : Kind) (r : Origin) : Slot :=
  { s with req := Function.update s.req k ⟨(s.req k).cur, (s.req k).cur⟩,
           cfg := match k with
             | .cmd _ => s.cfg
             | .query _ => Function.update s.cfg k.buf r }

def fail (s : Slot) : Slot := { s with pc := .idle, session := none }

end Slot

namespace SlotWorld

def setSlot (w : SlotWorld) (i : Fin 16) (s : Slot) : SlotWorld := { w with slot := Function.update w.slot i s }

/-- The first slot that runs for the device. -/
def same (w : SlotWorld) (d : NcDev) : Option (Fin 16) := (List.finRange 16).find? fun i => (w.slot i).isSame d

/-- The first slot that does not run. -/
def free (w : SlotWorld) : Option (Fin 16) := (List.finRange 16).find? fun i => !(w.slot i).state

/-- The device's slot, else a free one, started for it; none if all are taken. -/
def find (w : SlotWorld) (d : NcDev) : Option (SlotWorld × Fin 16) :=
  match w.same d, w.free with
  | some i, _ => some (w, i)
  | none, some i => some (w.setSlot i ((w.slot i).start d), i)
  | none, none => none

/-- `hdcctv_client2_ctrlPtz` and the other calls, while they hold the client's lock. -/
def call (w : SlotWorld) (k : Kind) (d : NcDev) : SlotWorld :=
  match w.find d with
  | some (w', i) =>
    { w'.setSlot i ((w'.slot i).called w.now) with
      entering := w.entering ++ [⟨k, d, i, (w'.slot i).binding⟩] }
  | none => w

/-- `hdcctv_client2_msgs_ctrlPtz` and the others, up to the wait of those that wait. -/
def enter (w : SlotWorld) (t : Ticket) : SlotWorld :=
  let s := ((w.slot t.slot).called w.now).post t.kind ⟨t.dev, t.binding⟩
  { w.setSlot t.slot (if t.kind.stamps then s.stamp w.tick w.now else s) with
    entering := w.entering.erase t
    waiting := match t.kind with
      | .cmd _ => w.waiting
      | .query _ => w.waiting ++ [t] }

def leave (w : SlotWorld) (t : Ticket) : SlotWorld :=
  { w.setSlot t.slot ((w.slot t.slot).stamp w.tick w.now) with waiting := w.waiting.erase t }

/-- `hdcctv_client2_run` at one slot. -/
def housekeep (w : SlotWorld) (i : Fin 16) : SlotWorld :=
  if (w.slot i).state ∧ isTickTimeout w.tick (w.slot i).stateTick 60 then
    { w.setSlot i (w.slot i).stop with stops := w.stops ++ [((w.slot i).lastCall, w.now)] }
  else w

def log (w : SlotWorld) (i : Fin 16) (addrFor : NcDev) (r : Option Origin) : SlotWorld :=
  { w with sent := w.sent ++ [⟨(w.slot i).stNcDev, (w.slot i).binding, addrFor, r⟩] }

def login (w : SlotWorld) (i : Fin 16) (ok : Bool) : SlotWorld :=
  let s := w.slot i
  (w.log i s.addrFor none).setSlot i { s with session := if ok then some s.addrFor else none }

def sendMsg (w : SlotWorld) (i : Fin 16) (addrFor : NcDev) (k : Kind) (r : Origin) (ok : Bool) : SlotWorld :=
  let s := w.slot i
  match ok, k.exchange.answered, k.exchange.noteFailed with
  | true, true, _ => (w.log i addrFor (some r)).setSlot i { s with pc := .recv k r }
  | true, false, _ => (w.log i addrFor (some r)).setSlot i { s.note k r with pc := .idle }
  | false, _, true => w.setSlot i (s.note k r).fail
  | false, _, false => w.setSlot i s.fail

def step (w : SlotWorld) : SlotAct → Option SlotWorld
  | .tick => some { w with tick := w.tick + 1, now := w.now + 1 }
  | .call k d => some (w.call k d)
  | .enter t => if t ∈ w.entering then some (w.enter t) else none
  | .leave t => if t ∈ w.waiting then some (w.leave t) else none
  | .housekeep i => match (w.slot i).pc with
    | .idle => some (w.housekeep i)
    | _ => none
  | .getServiceAddr i addr => match (w.slot i).state, (w.slot i).msgsEnable, addr with
    | true, false, some a => some (w.setSlot i
        { w.slot i with msgsEnable := true, msgsAddr := a, addrFor := (w.slot i).stNcDev })
    | true, false, none => some w
    | _, _, _ => none
  | .login i ok => match (w.slot i).state, (w.slot i).msgsEnable, (w.slot i).session with
    | true, true, none => some (w.login i ok)
    | _, _, _ => none
  | .logout i => match (w.slot i).pc with
    | .idle => some (w.setSlot i (w.slot i).fail)
    | _ => none
  | .run i k => match (w.slot i).pc, (w.slot i).session with
    | .idle, some _ => some (w.setSlot i ((w.slot i).copy k))
    | _, _ => none
  | .sendMsg i ok => match (w.slot i).pc, (w.slot i).session with
    | .send k r, some a => some (w.sendMsg i a k r ok)
    | _, _ => none
  | .recvMsg i ok => match (w.slot i).pc with
    | .recv k r => some (w.setSlot i (if ok then { (w.slot i).note k r with pc := .idle } else ((w.slot i).note k r).fail))
    | _ => none

def noDev : NcDev := ⟨[], [], []⟩

def Slot.init : Slot where
  state := false
  stNcDev := noDev
  stateTick := 0
  msgsEnable := false
  msgsAddr := ⟨[], 0, []⟩
  req _ := ⟨0, 0⟩
  cfg _ := ⟨noDev, 0⟩
  pc := .idle
  session := none
  binding := 0
  addrFor := noDev
  stampAt := 0
  lastCall := 0

def init : SlotWorld := ⟨0, fun _ => Slot.init, [], [], 0, [], []⟩

@[simp] theorem setSlot_slot_self (w : SlotWorld) (i : Fin 16) (s : Slot) : (w.setSlot i s).slot i = s :=
  Function.update_self ..

theorem setSlot_slot_ne (w : SlotWorld) {i j : Fin 16} (h : j ≠ i) (s : Slot) : (w.setSlot i s).slot j = w.slot j :=
  Function.update_of_ne h ..

theorem exec_ticks (n : ℕ) : ∀ w : SlotWorld, exec step w (List.replicate n .tick) =
    some { w with tick := w.tick + Int32.ofNat n, now := w.now + n } := by
  induction n with
  | zero =>
    intro w
    have h0 : w.tick + Int32.ofNat 0 = w.tick := Int32.add_zero w.tick
    rw [h0]
    rfl
  | succ n ih =>
    intro w
    have h1 : w.tick + 1 + Int32.ofNat n = w.tick + Int32.ofNat (n + 1) := by
      rw [Int32.ofNat_add, Int32.add_comm (Int32.ofNat n), ← Int32.add_assoc]
      rfl
    rw [List.replicate_succ, exec_cons]
    refine (ih _).trans ?_
    rw [h1, Nat.add_assoc, Nat.add_comm 1 n]

/-- Two devices for runs on fixed inputs. -/
def door : NcDev := ⟨[1], [2], [3]⟩

def gate : NcDev := ⟨[4], [2], [3]⟩

end SlotWorld

end Cloud

end SabApp
