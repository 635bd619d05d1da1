import Mathlib.Data.List.FinRange
import SabApp.Nc
import SabApp.Runs

/-!
# Device slots of the HY client

Ten slots, each bound to one device while its thread runs. A start call finds the device's
slot or starts a free one and enables its subscription there. `nc_hy_run` stops a slot that
has been idle for a minute; it looks at the live views, the playback and the talk, not at
the alarm, and stopping a slot clears none of them.
-/

namespace SabApp

namespace Hy

/-- What can be subscribed to on a device. -/
inductive Sub where
  | rts (channelNo : Fin 16)
  | pbs
  | talk
  | alarm
  deriving DecidableEq

/-- `channel_no`, `pbs_no`, `talk_no` and `alarm_no`. -/
def Sub.no : Sub → ℕ
  | rts c => c
  | pbs => 16
  | talk => 32
  | alarm => 48

/-- The id handed out for a subscription. -/
def subId (devId : Fin 10) (k : Sub) : Int32 := Nc.ptcHuaYi ||| (Int32.ofNat devId <<< 8) ||| Int32.ofNat k.no

/-- What tells devices apart in the searches for a slot. -/
structure NcDev where
  ip : List UInt8
  msgPort : Int32
  user : List UInt8
  pswd : List UInt8
  deriving DecidableEq

/-- What `gettimeofday` says. -/
structure Clock where
  sec : ℤ
  usec : ℤ

/-- `tool_sysf_isTickTimeout`. -/
def Clock.isTickTimeout (tv : Clock) (tvSec tvUsec intevalUsec : Int32) : Bool :=
  let result := Int32.ofInt ((tv.sec - tvSec.toInt) * 1000000 + (tv.usec - tvUsec.toInt))
  result < 0 || result > intevalUsec

/-- `nc_hy_dev_t`. The last field is history: the device named in the call that enabled a
subscription. -/
structure Slot where
  state : Bool
  dev : NcDev
  stateTickSec : Int32
  stateTickUsec : Int32
  curEnable : Sub → Bool
  askedFor : Sub → NcDev

namespace Slot

def setTick (s : Slot) (tv : Clock) : Slot :=
  { s with stateTickSec := Int32.ofInt tv.sec, stateTickUsec := Int32.ofInt tv.usec }

/-- `nc_hy_dev_start`. -/
def start (s : Slot) (tv : Clock) (d : NcDev) : Slot := { s with dev := d, state := true }.setTick tv

/-- `nc_hy_dev_stop`. -/
def stop (s : Slot) : Slot := { s with state := false }

def enable (s : Slot) (k : Sub) (d : NcDev) : Slot :=
  { s with curEnable := Function.update s.curEnable k true, askedFor := Function.update s.askedFor k d }

def disable (s : Slot) (k : Sub) : Slot := { s with curEnable := Function.update s.curEnable k false }

/-- The common body of the start functions, for a caller that named `d`. -/
def startSub (k : Sub) (tv : Clock) (d : NcDev) (devId : Fin 10) (s : Slot) : Int32 × Slot :=
  if s.curEnable k then (Nc.errRepeat, s) else (subId devId k, (s.enable k d).setTick tv)

/-- The common body of the stop functions. -/
def stopSub (k : Sub) (tv : Clock) (s : Slot) : Slot := (s.disable k).setTick tv

/-- `nc_hy_dev_startAlarm`. -/
def startAlarm := startSub .alarm

/-- `nc_hy_dev_startRts`. -/
def startRts (channelNo : Fin 16) := startSub (.rts channelNo)

/-- `nc_hy_dev_startPbs`, which first waits for the device thread to end the last playback. -/
def startPbs (active : Bool) (tv : Clock) (d : NcDev) (devId : Fin 10) (s : Slot) : Int32 × Slot :=
  if active then (Nc.errTimeout, s) else startSub .pbs tv d devId s

/-- `nc_hy_dev_startTalk`. -/
def startTalk := startSub .talk

def stopAlarm := stopSub .alarm

def stopRts (channelNo : Fin 16) := stopSub (.rts channelNo)

def stopPbs := stopSub .pbs

def stopTalk := stopSub .talk

/-- What `nc_hy_run` counts. -/
def ret (s : Slot) : ℕ :=
  (List.finRange 16).countP (fun j => s.curEnable (.rts j)) + (s.curEnable .pbs).toNat + (s.curEnable .talk).toNat

end Slot

/-- The slots, and what a slot held each time it was given to a device. -/
structure SlotWorld where
  tv : Clock
  dev : Fin 10 → Slot
  starts : List Slot

inductive SlotAct where
  | clock (tv : Clock)
  | login (info : NcDev)
  | logout (id : Int32)
  | startRts (info : NcDev) (channel streamType : Int32)
  | stopRts (id : Int32)
  | startPbs (info : NcDev) (active : Bool)
  | stopPbs (id : Int32)
  | startTalk (info : NcDev)
  | stopTalk (id : Int32)
  /-- `searchRecords`, `searchLogs`, `getDeviceStatus` or `syncTime`. -/
  | query (info : NcDev)
  | setDeviceStatus (info : NcDev)
  | controlPTZ (info : NcDev)
  | run (i : Fin 10)

namespace SlotWorld

def setDev (w : SlotWorld) (i : Fin 10) (s : Slot) : SlotWorld := { w with dev := Function.update w.dev i s }

/-- The slot that runs for the device. -/
def same (w : SlotWorld) (info : NcDev) : Option (Fin 10) :=
  (List.finRange 10).find? fun i => (w.dev i).dev = info && (w.dev i).state

def free (w : SlotWorld) : Option (Fin 10) := (List.finRange 10).find? fun i => !(w.dev i).state

/-- The common body of the calls on a device: `f` on its slot, or on a free one started for it;
`undo` if it then fails. -/
def onDev (w : SlotWorld) (info : NcDev) (f : Fin 10 → Slot → Int32 × Slot) (undo : Slot → Slot) :
    Int32 × SlotWorld :=
  match w.same info, w.free with
  | some i, _ => ((f i (w.dev i)).1, w.setDev i (f i (w.dev i)).2)
  | none, some i =>
    let r := f i ((w.dev i).start w.tv info)
    (r.1, { w.setDev i (if r.1 < 0 then undo r.2 else r.2) with starts := w.starts ++ [w.dev i] })
  | none, none => (Nc.errFull, w)

/-- `nc_hy_login_v2`. -/
def login (w : SlotWorld) (info : NcDev) : Int32 × SlotWorld := w.onDev info (Slot.startAlarm w.tv info) id

/-- `nc_hy_startRts_v2`. -/
def startRts (w : SlotWorld) (info : NcDev) (channel streamType : Int32) : Int32 × SlotWorld :=
  if channel < 0 ∨ streamType < 0 ∨ streamType ≥ 2 then (Nc.errInput, w)
  else if h : channel.toNatClampNeg < 16 then w.onDev info (Slot.startRts ⟨channel.toNatClampNeg, h⟩ w.tv info) id
  else (Nc.errInput, w)

/-- `nc_hy_startPbs`. -/
def startPbs (w : SlotWorld) (info : NcDev) (active : Bool) : Int32 × SlotWorld :=
  w.onDev info (Slot.startPbs active w.tv info) id

/-- `nc_hy_startTalk_v2`, the only start that stops the slot again when it fails. -/
def startTalk (w : SlotWorld) (info : NcDev) : Int32 × SlotWorld :=
  w.onDev info (Slot.startTalk w.tv info) Slot.stop

def devId (id : Int32) : ℕ := ((id >>> 8) &&& 0xFF).toNatClampNeg

def subNo (id : Int32) : ℕ := (id &&& 0xFF).toNatClampNeg

/-- The common body of the stop calls that accept one number only. -/
def onId (w : SlotWorld) (id : Int32) (k : Sub) (f : Clock → Slot → Slot) : Int32 × SlotWorld :=
  if h : devId id < 10 ∧ subNo id = k.no then (0, w.setDev ⟨devId id, h.1⟩ (f w.tv (w.dev ⟨devId id, h.1⟩)))
  else (Nc.errInput, w)

/-- `nc_hy_logout`. -/
def logout (w : SlotWorld) (id : Int32) : Int32 × SlotWorld := w.onId id .alarm Slot.stopAlarm

/-- `nc_hy_stopPbs`. -/
def stopPbs (w : SlotWorld) (id : Int32) : Int32 × SlotWorld := w.onId id .pbs Slot.stopPbs

/-- `nc_hy_stopTalk`. -/
def stopTalk (w : SlotWorld) (id : Int32) : Int32 × SlotWorld := w.onId id .talk Slot.stopTalk

/-- `nc_hy_stopRts`. -/
def stopRts (w : SlotWorld) (id : Int32) : Int32 × SlotWorld :=
  if h : subNo id < 16 then w.onId id (.rts ⟨subNo id, h⟩) (Slot.stopRts ⟨subNo id, h⟩) else (Nc.errInput, w)

/-- A query's answer plays no part here; it leaves the stamp behind. -/
def query (w : SlotWorld) (info : NcDev) : Int32 × SlotWorld := w.onDev info (fun _ s => (0, s.setTick w.tv)) id

/-- `nc_hy_setDeviceStatus_v2`. -/
def setDeviceStatus (w : SlotWorld) (info : NcDev) : Int32 × SlotWorld := w.onDev info (fun _ s => (0, s)) id

/-- `nc_hy_controlPTZ_v2`, which starts no slot. -/
def controlPTZ (w : SlotWorld) (info : NcDev) : Int32 × SlotWorld :=
  match w.same info with
  | some i => (0, w.setDev i ((w.dev i).setTick w.tv))
  | none => (Nc.errPtzNoRts, w)

/-- `nc_hy_run` will stop the slot. -/
def idle (w : SlotWorld) (i : Fin 10) : Bool :=
  (w.dev i).state && (w.dev i).ret = 0 && w.tv.isTickTimeout (w.dev i).stateTickSec (w.dev i).stateTickUsec 60000000

/-- `nc_hy_run` at one slot. -/
def run (w : SlotWorld) (i : Fin 10) : SlotWorld := if w.idle i then w.setDev i (w.dev i).stop else w

def step (w : SlotWorld) : SlotAct → Option SlotWorld
  | .clock tv => some { w with tv := tv }
  | .login info => some (w.login info).2
  | .logout id => some (w.logout id).2
  | .startRts info c t => some (w.startRts info c t).2
  | .stopRts id => some (w.stopRts id).2
  | .startPbs info a => some (w.startPbs info a).2
  | .stopPbs id => some (w.stopPbs id).2
  | .startTalk info => some (w.startTalk info).2
  | .stopTalk id => some (w.stopTalk id).2
  | .query info => some (w.query info).2
  | .setDeviceStatus info => some (w.setDeviceStatus info).2
  | .controlPTZ info => some (w.controlPTZ info).2
  | .run i => some (w.run i)

def noDev : NcDev := ⟨[], 0, [], []⟩

def init : SlotWorld := ⟨⟨0, 0⟩, fun _ => ⟨false, noDev, 0, 0, fun _ => false, fun _ => noDev⟩, []⟩

/-- A free slot has no subscription, a subscription was asked for on the slot's device, and no slot
was given away with one. -/
structure Clean (w : SlotWorld) : Prop where
  free : ∀ i, (w.dev i).state = false → ∀ k, (w.dev i).curEnable k = false
  own : ∀ i k, (w.dev i).curEnable k = true → (w.dev i).askedFor k = (w.dev i).dev
  starts : ∀ s ∈ w.starts, ∀ k, s.curEnable k = false

/-- `nc_hy_run` does not find a slot idle whose alarm is enabled. -/
def RunOk (w : SlotWorld) : SlotAct → Prop
  | .run i => w.idle i = true → (w.dev i).curEnable .alarm = false
  | _ => True

/-! ## What every step keeps -/

@[simp] theorem setDev_self (w : SlotWorld) (i : Fin 10) (s : Slot) : (w.setDev i s).dev i = s :=
  Function.update_self ..

theorem setDev_ne (w : SlotWorld) {i j : Fin 10} (h : j ≠ i) (s : Slot) : (w.setDev i s).dev j = w.dev j :=
  Function.update_of_ne h ..

end SlotWorld

namespace Slot

theorem enable_askedFor_self (s : Slot) (k : Sub) (d : NcDev) : (s.enable k d).askedFor k = d :=
  Function.update_self ..

theorem enable_askedFor_ne (s : Slot) {j k : Sub} (h : j ≠ k) (d : NcDev) : (s.enable k d).askedFor j = s.askedFor j :=
  Function.update_of_ne h ..

theorem enable_ne (s : Slot) {j k : Sub} (h : j ≠ k) (d : NcDev) : (s.enable k d).curEnable j = s.curEnable j :=
  Function.update_of_ne h ..

theorem disable_self (s : Slot) (k : Sub) : (s.disable k).curEnable k = false := Function.update_self ..

theorem disable_ne (s : Slot) {j k : Sub} (h : j ≠ k) : (s.disable k).curEnable j = s.curEnable j :=
  Function.update_of_ne h ..

/-- The slot's subscriptions were asked for on its device, and there are none when it is free. -/
structure Good (s : Slot) : Prop where
  free : s.state = false → ∀ k, s.curEnable k = false
  own : ∀ k, s.curEnable k = true → s.askedFor k = s.dev

theorem Good.setTick {s : Slot} (h : Good s) (tv : Clock) : Good (s.setTick tv) := ⟨h.free, h.own⟩

theorem good_start {s : Slot} (h : ∀ k, s.curEnable k = false) (tv : Clock) (d : NcDev) : Good (s.start tv d) where
  free := nofun
  own k hk := by
    have hk' : s.curEnable k = true := hk
    rw [h k] at hk'
    cases hk'

theorem Good.enable {s : Slot} (h : Good s) (hs : s.state = true) (k : Sub) : Good (s.enable k s.dev) where
  free hf := by
    have hf' : s.state = false := hf
    rw [hs] at hf'
    cases hf'
  own j hj := by
    by_cases hjk : j = k
    · rw [hjk]
      exact enable_askedFor_self ..
    · rw [enable_ne s hjk] at hj
      rw [enable_askedFor_ne s hjk]
      exact h.own j hj

theorem Good.disable {s : Slot} (h : Good s) (k : Sub) : Good (s.disable k) where
  free hf j := by
    by_cases hjk : j = k
    · rw [hjk]
      exact disable_self ..
    · rw [disable_ne s hjk]
      exact h.free hf j
  own j hj := by
    by_cases hjk : j = k
    · rw [hjk, disable_self] at hj
      cases hj
    · rw [disable_ne s hjk] at hj
      exact h.own j hj

theorem Good.startSub {s : Slot} (h : Good s) (hs : s.state = true) (k : Sub) (tv : Clock) (i : Fin 10) :
    Good (Slot.startSub k tv s.dev i s).2 := by
  unfold Slot.startSub
  split
  · exact h
  · exact (h.enable hs k).setTick tv

theorem Good.stopSub {s : Slot} (h : Good s) (k : Sub) (tv : Clock) : Good (Slot.stopSub k tv s) :=
  (h.disable k).setTick tv

theorem ret_eq_zero_iff (s : Slot) : s.ret = 0 ↔ ∀ k, k ≠ .alarm → s.curEnable k = false := by
  simp only [ret, Nat.add_eq_zero_iff, List.countP_eq_zero, List.mem_finRange, Bool.toNat_eq_zero]
  constructor
  · rintro ⟨⟨hr, hp⟩, ht⟩ k hk
    cases k with
    | rts c => simpa using hr c trivial
    | pbs => exact hp
    | talk => exact ht
    | alarm => exact absurd rfl hk
  · intro h
    refine ⟨⟨?_, h _ nofun⟩, h _ nofun⟩
    intro c _
    simpa using h (.rts c) nofun

end Slot

namespace SlotWorld

theorem clean_init : Clean init := ⟨fun _ _ _ => rfl, nofun, nofun⟩

theorem Clean.good {w : SlotWorld} (h : Clean w) (i : Fin 10) : (w.dev i).Good := ⟨h.free i, h.own i⟩

theorem Clean.setDev {w : SlotWorld} (h : Clean w) {i : Fin 10} {s : Slot} (hs : s.Good) : Clean (w.setDev i s) := by
  have hg : ∀ j, ((w.setDev i s).dev j).Good := by
    intro j
    by_cases hj : j = i
    · rw [hj, setDev_self]
      exact hs
    · rw [setDev_ne w hj]
      exact h.good j
  exact ⟨fun j => (hg j).free, fun j => (hg j).own, h.starts⟩

theorem Clean.log {w : SlotWorld} (h : Clean w) {s : Slot} (hs : ∀ k, s.curEnable k = false) {t : List Slot}
    (ht : t = w.starts ++ [s]) : Clean { w with starts := t } where
  free := h.free
  own := h.own
  starts r hr := by
    rw [ht] at hr
    rcases List.mem_append.mp hr with hr | hr
    · exact h.starts r hr
    · rw [List.mem_singleton.mp hr]
      exact hs

theorem same_spec {w : SlotWorld} {info : NcDev} {i : Fin 10} (h : w.same info = some i) :
    (w.dev i).dev = info ∧ (w.dev i).state = true := by
  have hs := List.find?_some h
  simpa using hs

theorem free_spec {w : SlotWorld} {i : Fin 10} (h : w.free = some i) : (w.dev i).state = false := by
  have hs := List.find?_some h
  simpa using hs

/-- A call on a device keeps the slots clean if it does so on the device's own slot, and if what it
undoes on a new one leaves that clean. -/
theorem clean_onDev {w : SlotWorld} (h : Clean w) {info : NcDev} {f : Fin 10 → Slot → Int32 × Slot} {undo : Slot → Slot}
    (hf : ∀ i s, s.dev = info → s.state = true → s.Good → (f i s).2.Good)
    (hu : ∀ i s, (∀ k, s.curEnable k = false) → (f i s).1 < 0 → (f i s).2.Good → (undo (f i s).2).Good) :
    Clean (w.onDev info f undo).2 := by
  unfold onDev
  cases hs : w.same info with
  | some i =>
    obtain ⟨hd, hst⟩ := same_spec hs
    exact h.setDev (hf i _ hd hst (h.good i))
  | none =>
    cases hr : w.free with
    | none => exact h
    | some i =>
      have hn : ∀ k, (w.dev i).curEnable k = false := h.free i (free_spec hr)
      have hg := hf i ((w.dev i).start w.tv info) rfl rfl (Slot.good_start hn w.tv info)
      refine Clean.log (h.setDev ?_) hn rfl
      split
      · next hneg => exact hu i _ hn hneg hg
      · exact hg

theorem clean_startSub {w : SlotWorld} (h : Clean w) (info : NcDev) (k : Sub) :
    Clean (w.onDev info (Slot.startSub k w.tv info) id).2 := by
  apply clean_onDev h
  · rintro i s rfl hst hg
    exact hg.startSub hst k w.tv i
  · intro i s _ _ hg
    exact hg

theorem subId_nonneg (i : Fin 10) (k : Sub) : ¬ subId i k < 0 := by
  cases k with
  | rts c => revert i c; decide
  | _ => revert i; decide

theorem clean_startTalk {w : SlotWorld} (h : Clean w) (info : NcDev) : Clean (w.startTalk info).2 := by
  apply clean_onDev h
  · rintro i s rfl hst hg
    exact hg.startSub hst .talk w.tv i
  · intro i s hn hneg
    simp only [Slot.startTalk, Slot.startSub, hn] at hneg
    exact absurd hneg (subId_nonneg i .talk)

theorem clean_startPbs {w : SlotWorld} (h : Clean w) (info : NcDev) (active : Bool) :
    Clean (w.startPbs info active).2 := by
  cases active with
  | false => exact clean_startSub h info .pbs
  | true =>
    apply clean_onDev h
    · intro i s _ _ hg
      exact hg
    · intro i s _ _ hg
      exact hg

theorem clean_startRts {w : SlotWorld} (h : Clean w) (info : NcDev) (channel streamType : Int32) :
    Clean (w.startRts info channel streamType).2 := by
  unfold startRts
  split
  · exact h
  · split
    · exact clean_startSub h info _
    · exact h

theorem clean_onId {w : SlotWorld} (h : Clean w) (id : Int32) (k : Sub) : Clean (w.onId id k (Slot.stopSub k)).2 := by
  unfold onId
  split
  · exact h.setDev ((h.good _).stopSub k w.tv)
  · exact h

theorem clean_stopRts {w : SlotWorld} (h : Clean w) (id : Int32) : Clean (w.stopRts id).2 := by
  unfold stopRts
  split
  · exact clean_onId h id _
  · exact h

theorem clean_controlPTZ {w : SlotWorld} (h : Clean w) (info : NcDev) : Clean (w.controlPTZ info).2 := by
  unfold controlPTZ
  split
  · exact h.setDev ((h.good _).setTick w.tv)
  · exact h

/-- An idle slot has at most its alarm enabled. -/
theorem idle_spec {w : SlotWorld} {i : Fin 10} (h : w.idle i = true) :
    ∀ k, k ≠ .alarm → (w.dev i).curEnable k = false := by
  simp only [idle, Bool.and_eq_true, decide_eq_true_eq] at h
  exact (Slot.ret_eq_zero_iff _).mp h.1.2

theorem clean_run {w : SlotWorld} (h : Clean w) {i : Fin 10} (hok : w.RunOk (.run i)) : Clean (w.run i) := by
  unfold run
  split
  · next hi =>
    have hn : ∀ k, (w.dev i).curEnable k = false := by
      intro k
      by_cases hk : k = .alarm
      · rw [hk]
        exact hok hi
      · exact idle_spec hi k hk
    exact h.setDev ⟨fun _ => hn, (h.good i).own⟩
  · exact h

theorem clean_step {w t : SlotWorld} {a : SlotAct} (h : Clean w) (hok : w.RunOk a) (hs : step w a = some t) :
    Clean t := by
  cases a with
  | clock tv => cases hs; exact ⟨h.free, h.own, h.starts⟩
  | login info => cases hs; exact clean_startSub h info .alarm
  | logout id => cases hs; exact clean_onId h id .alarm
  | startRts info c st => cases hs; exact clean_startRts h info c st
  | stopRts id => cases hs; exact clean_stopRts h id
  | startPbs info a => cases hs; exact clean_startPbs h info a
  | stopPbs id => cases hs; exact clean_onId h id .pbs
  | startTalk info => cases hs; exact clean_startTalk h info
  | stopTalk id => cases hs; exact clean_onId h id .talk
  | query info =>
    cases hs
    apply clean_onDev h
    · intro i s _ _ hg
      exact hg.setTick w.tv
    · intro i s _ _ hg
      exact hg
  | setDeviceStatus info =>
    cases hs
    apply clean_onDev h
    · intro i s _ _ hg
      exact hg
    · intro i s _ _ hg
      exact hg
  | controlPTZ info => cases hs; exact clean_controlPTZ h info
  | run i => cases hs; exact clean_run h hok

/-- A slot stopped with its alarm enabled shows at once. -/
theorem run_dirty {w : SlotWorld} {a : SlotAct} (hn : ¬ w.RunOk a) : ∃ t, step w a = some t ∧ ¬ t.Clean := by
  cases a with
  | run i =>
    simp only [RunOk, Classical.not_imp] at hn
    obtain ⟨hi, ha⟩ := hn
    refine ⟨w.run i, rfl, ?_⟩
    intro hc
    have hd : (w.run i).dev i = (w.dev i).stop := by rw [run, if_pos hi, setDev_self]
    have hf := hc.free i (by rw [hd]; rfl) .alarm
    rw [hd] at hf
    exact ha hf
  | _ => exact absurd trivial hn

/-- **Free slots have no subscription**, and none is given away with one, in exactly the runs where
`nc_hy_run` never finds a slot idle whose alarm is enabled. -/
theorem slots_clean_iff (as : List SlotAct) : Reached step Clean init as ↔ Meets step RunOk init as := by
  apply reached_iff_meets (I := Clean)
  · intro w a t h hok hs
    exact clean_step h hok hs
  · intro w h
    exact h
  · intro w a _ hn
    exact run_dirty hn
  · exact clean_init

/-- Two devices for runs on fixed inputs. -/
def shop : NcDev := ⟨[10, 0, 0, 1], 8000, [1], [2]⟩

def yard : NcDev := ⟨[10, 0, 0, 2], 8000, [1], [2]⟩

/-- A minute after the login the slot is free with its alarm on, and the next device gets both: its
own login is refused as a repeat. -/
theorem alarm_left : ∃ t, exec step init [.login shop, .clock ⟨61, 0⟩, .run 0, .query yard] = some t ∧
    (t.dev 0).dev = yard ∧ (t.dev 0).curEnable .alarm = true ∧ (t.dev 0).askedFor .alarm = shop ∧
    (t.login yard).1 = Nc.errRepeat ∧ ¬ t.Clean := by
  refine ⟨_, rfl, rfl, rfl, rfl, by decide, ?_⟩
  intro h
  have ho := h.own 0 .alarm rfl
  exact absurd ho (by decide)

end SlotWorld

end Hy

end SabApp
