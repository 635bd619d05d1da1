import SabApp.Mailbox
import SabApp.Runs

/-!
# Setting an XM device's clock

`nc_xm_dev_syncTime` leaves time, zone and daylight hours in the device slot. The device
thread sends the zone in one message and the time in a second one, and after the second
answer notes the request number it then finds in the slot. No message has a place for the
daylight hours, and a call made between the copy and that note is noted without being sent.
-/

namespace SabApp

namespace Xm

structure TimeArg where
  utcSec : UInt32
  zone : Int32
  dstHour : Int32
  deriving DecidableEq

/-- What a settings message of `nc_xm_dev_doSyncTime` tells the device. -/
structure TimeMsg where
  timeMin : Option Int32 := none
  opTimeSetting : Option UInt32 := none
  dstHour : Option Int32 := none
  deriving DecidableEq

/-- `System.TimeZone`. -/
def timeZoneMsg (p : TimeArg) : TimeMsg := { timeMin := some (p.zone * (-15)) }

/-- `OPTimeSetting`. -/
def timeSettingMsg (p : TimeArg) : TimeMsg := { opTimeSetting := some p.utcSec }

/-- Where the device thread stands in `nc_xm_dev_doSyncTime`, with the arguments it copied. -/
inductive TimePc where
  | idle
  | sendZone (p : TimeArg)
  | recvZone (p : TimeArg)
  | sendTime (p : TimeArg)
  | recvTime (p : TimeArg)
  deriving DecidableEq

namespace TimePc

def arg : TimePc → Option TimeArg
  | idle => none
  | sendZone p | recvZone p | sendTime p | recvTime p => some p

/-- The running exchange has sent the zone. -/
def ZoneOut : TimePc → Prop
  | idle | sendZone _ => False
  | recvZone _ | sendTime _ | recvTime _ => True

/-- The running exchange has sent the time. -/
def TimeOut : TimePc → Prop
  | recvTime _ => True
  | _ => False

end TimePc

structure TimeDev where
  pc : TimePc
  live : Bool
  time : Mailbox TimeArg

/-- The device slot with its history: the calls, how many there were at the running exchange's copy
and at the last note, and the messages sent. -/
structure TimeWorld where
  dev : TimeDev
  calls : List TimeArg
  copied : ℕ
  answered : ℕ
  sent : List TimeMsg

inductive TimeAct where
  | syncTime (p : TimeArg)
  | login
  | logout
  | doSyncTime
  | sendMsg (ok : Bool)
  | recvMsg (ok : Bool)

/-- The value of a field in the last message that had it. -/
def lastSent {β : Type} (f : TimeMsg → Option β) (sent : List TimeMsg) : Option β := (sent.filterMap f).getLast?

theorem lastSent_some {β : Type} {f : TimeMsg → Option β} {m : TimeMsg} {x : β} (h : f m = some x)
    (sent : List TimeMsg) : lastSent f (sent ++ [m]) = some x := by
  simp [lastSent, h]

theorem lastSent_none {β : Type} {f : TimeMsg → Option β} {m : TimeMsg} (h : f m = none) (sent : List TimeMsg) :
    lastSent f (sent ++ [m]) = lastSent f sent := by
  simp [lastSent, h]

namespace TimeWorld

def init : TimeWorld := ⟨⟨.idle, false, Mailbox.init ⟨0, 0, 0⟩⟩, [], 0, 0, []⟩

/-- `nc_xm_dev_syncTime`. -/
def syncTime (w : TimeWorld) (p : TimeArg) : TimeWorld :=
  { w with dev.time := w.dev.time.post p, calls := w.calls ++ [p] }

/-- `nc_xm_dev_doSyncTime` up to the first send. -/
def doSyncTime (w : TimeWorld) : TimeWorld :=
  if w.dev.time.last = w.dev.time.cur then w
  else { w with dev.pc := .sendZone w.dev.time.cfg, copied := w.calls.length }

def fail (w : TimeWorld) : TimeWorld := { w with dev.pc := .idle, dev.live := false }

def send (w : TimeWorld) (m : TimeMsg) (pc : TimePc) : TimeWorld :=
  { w with dev.pc := pc, sent := w.sent ++ [m] }

/-- The end of `nc_xm_dev_doSyncTime`: the number noted is read from the slot, without the lock. -/
def note (w : TimeWorld) : TimeWorld :=
  { w with dev.pc := .idle, dev.time := w.dev.time.ack, answered := w.calls.length }

def step (w : TimeWorld) : TimeAct → Option TimeWorld
  | .syncTime p => some (w.syncTime p)
  | .login => some { w with dev.live := true }
  | .logout => match w.dev.pc with
    | .idle => some w.fail
    | _ => none
  | .doSyncTime => match w.dev.pc, w.dev.live with
    | .idle, true => some w.doSyncTime
    | _, _ => none
  | .sendMsg ok => match w.dev.pc with
    | .sendZone p => some (if ok then w.send (timeZoneMsg p) (.recvZone p) else w.fail)
    | .sendTime p => some (if ok then w.send (timeSettingMsg p) (.recvTime p) else w.fail)
    | _ => none
  -- `ok`: an answer came and its `Ret` is `XM_RET_OK`
  | .recvMsg ok => match w.dev.pc with
    | .recvZone p => some (if ok then { w with dev.pc := .sendTime p } else w.fail)
    | .recvTime _ => some (if ok then w.note else w.fail)
    | _ => none

/-- No `doSyncTime` is running and the two request numbers agree. -/
def Quiet (w : TimeWorld) : Prop := w.dev.pc = .idle ∧ w.dev.time.last = w.dev.time.cur

/-- Time and zone last sent are the latest call's. -/
def ClockSynced (w : TimeWorld) : Prop :=
  w.Quiet → ∀ p, w.calls.getLast? = some p →
    lastSent TimeMsg.opTimeSetting w.sent = some p.utcSec ∧ lastSent TimeMsg.timeMin w.sent = some (p.zone * (-15))

/-- Time, zone and daylight last sent are the latest call's. -/
def Synced (w : TimeWorld) : Prop :=
  w.ClockSynced ∧ (w.Quiet → ∀ p, w.calls.getLast? = some p → lastSent TimeMsg.dstHour w.sent = some p.dstHour)

/-- An exchange ends with no call since its copy, and fewer than 2^32 calls are open. -/
def Ok (w : TimeWorld) : TimeAct → Prop
  | .syncTime _ => w.calls.length + 1 < w.answered + 4294967296
  | .recvMsg true => match w.dev.pc with
    | .recvTime _ => w.copied = w.calls.length
    | _ => True
  | _ => True

/-! ## Daylight hours -/

theorem noDst_step {w t : TimeWorld} {a : TimeAct} (h : ∀ m ∈ w.sent, m.dstHour = none) (hs : step w a = some t) :
    ∀ m ∈ t.sent, m.dstHour = none := by
  have hsend : ∀ m pc, m.dstHour = none → ∀ m' ∈ (w.send m pc).sent, m'.dstHour = none := by
    intro m pc hm m' hm'
    rcases List.mem_append.mp hm' with h' | h'
    · exact h m' h'
    · rw [List.mem_singleton.mp h']; exact hm
  cases a with
  | syncTime p => cases hs; exact h
  | login => cases hs; exact h
  | logout => cases hp : w.dev.pc <;> simp only [step, hp] at hs <;> cases hs; exact h
  | doSyncTime =>
    cases hp : w.dev.pc <;> cases hl : w.dev.live <;> simp only [step, hp, hl] at hs <;> cases hs
    unfold doSyncTime
    split
    · exact h
    · exact h
  | sendMsg ok =>
    cases hp : w.dev.pc <;> cases ok <;> simp only [step, hp] at hs <;> cases hs
    · exact h
    · exact hsend _ _ rfl
    · exact h
    · exact hsend _ _ rfl
  | recvMsg ok =>
    cases hp : w.dev.pc <;> cases ok <;> simp only [step, hp] at hs <;> cases hs <;> exact h

theorem lastSent_dst {sent : List TimeMsg} (h : ∀ m ∈ sent, m.dstHour = none) :
    lastSent TimeMsg.dstHour sent = none := by
  have hf : sent.filterMap TimeMsg.dstHour = [] := List.filterMap_eq_nil_iff.mpr h
  rw [lastSent, hf]
  rfl

/-- With a call answered for and none running, the daylight hours are wrong. -/
theorem synced_iff {w : TimeWorld} (h : ∀ m ∈ w.sent, m.dstHour = none) :
    w.Synced ↔ (w.Quiet → w.calls = []) := by
  constructor
  · rintro ⟨_, hd⟩ hq
    by_cases hc : w.calls = []
    · exact hc
    · have hl := hd hq _ (List.getLast?_eq_some_getLast hc)
      rw [lastSent_dst h] at hl
      cases hl
  · intro hc
    refine ⟨?_, ?_⟩
    · intro hq p hp
      rw [hc hq] at hp
      cases hp
    · intro hq p hp
      rw [hc hq] at hp
      cases hp

/-! ## Time and zone -/

/-- The running exchange works on the latest of the first `copied` calls, none of them answered for. -/
def Copied (w : TimeWorld) (p : TimeArg) : Prop :=
  w.answered < w.copied ∧ w.copied ≤ w.calls.length ∧ upTo w.calls w.copied = some p

structure Inv (w : TimeWorld) : Prop where
  tracks : w.dev.time.Tracks w.calls w.answered
  lt : w.calls.length < w.answered + 4294967296
  copied : ∀ p, w.dev.pc.arg = some p → w.Copied p
  zone : ∀ p, w.dev.pc.arg = some p → w.dev.pc.ZoneOut → lastSent TimeMsg.timeMin w.sent = some (p.zone * (-15))
  time : ∀ p, w.dev.pc.arg = some p → w.dev.pc.TimeOut → lastSent TimeMsg.opTimeSetting w.sent = some p.utcSec
  clock : w.answered = w.calls.length → ∀ p, w.calls.getLast? = some p →
    lastSent TimeMsg.opTimeSetting w.sent = some p.utcSec ∧ lastSent TimeMsg.timeMin w.sent = some (p.zone * (-15))

theorem inv_init : Inv init :=
  ⟨Mailbox.Tracks.start _, by decide, nofun, nofun, nofun, nofun⟩

theorem inv_fail {w : TimeWorld} (h : Inv w) : Inv w.fail := ⟨h.tracks, h.lt, nofun, nofun, nofun, h.clock⟩

theorem inv_syncTime {w : TimeWorld} (h : Inv w) {p : TimeArg} (hlt : w.calls.length + 1 < w.answered + 4294967296) :
    Inv (w.syncTime p) where
  tracks := h.tracks.post p
  lt := by rw [syncTime, List.length_append]; exact hlt
  copied q hq := by
    obtain ⟨ha, hle, hu⟩ := h.copied q hq
    refine ⟨ha, ?_, (upTo_append hle p).trans hu⟩
    exact Nat.le_trans hle (by simp [syncTime])
  zone := h.zone
  time := h.time
  clock ha := by
    -- the new call is open
    have hle := h.tracks.le
    have ha' : w.answered = w.calls.length + 1 := ha.trans (List.length_append ..)
    omega

theorem inv_doSyncTime {w : TimeWorld} (h : Inv w) : Inv w.doSyncTime := by
  unfold doSyncTime
  by_cases he : w.dev.time.last = w.dev.time.cur
  · rw [if_pos he]; exact h
  · rw [if_neg he]
    refine ⟨h.tracks, h.lt, ?_, ?_, ?_, h.clock⟩
    · intro p hp
      cases hp
      refine ⟨?_, Nat.le_refl _, ?_⟩
      · exact Nat.lt_of_le_of_ne h.tracks.le (mt (h.tracks.idle_iff h.lt).mpr he)
      · exact (upTo_length w.calls).trans (h.tracks.cfg_of_ne he)
    · intro _ _ hz; cases hz
    · intro _ _ ht; cases ht

/-- A running exchange has an open call. -/
theorem Copied.ne {w : TimeWorld} {p : TimeArg} (hc : w.Copied p) : w.answered ≠ w.calls.length :=
  Nat.ne_of_lt (Nat.lt_of_lt_of_le hc.1 hc.2.1)

theorem inv_sendZone {w : TimeWorld} {p : TimeArg} (h : Inv w) (hc : w.Copied p) :
    Inv (w.send (timeZoneMsg p) (.recvZone p)) where
  tracks := h.tracks
  lt := h.lt
  copied q hq := by cases hq; exact hc
  zone q hq _ := by cases hq; apply lastSent_some; rfl
  time _ _ ht := by cases ht
  clock ha := absurd ha hc.ne

theorem inv_sendTime {w : TimeWorld} {p : TimeArg} (h : Inv w) (hc : w.Copied p)
    (hz : lastSent TimeMsg.timeMin w.sent = some (p.zone * (-15))) :
    Inv (w.send (timeSettingMsg p) (.recvTime p)) where
  tracks := h.tracks
  lt := h.lt
  copied q hq := by cases hq; exact hc
  zone q hq _ := by cases hq; exact (lastSent_none rfl w.sent).trans hz
  time q hq _ := by cases hq; apply lastSent_some; rfl
  clock ha := absurd ha hc.ne

theorem inv_note {w : TimeWorld} {p : TimeArg} (h : Inv w) (hp : w.dev.pc = .recvTime p)
    (hok : w.copied = w.calls.length) : Inv w.note where
  tracks := h.tracks.ack
  lt := Nat.lt_add_of_pos_right (by decide)
  copied := nofun
  zone := nofun
  time := nofun
  clock _ q hq := by
    have ha : w.dev.pc.arg = some p := by rw [hp]; rfl
    obtain ⟨_, _, hu⟩ := h.copied p ha
    rw [hok, upTo_length] at hu
    have hqp : q = p := Option.some.inj (hq.symm.trans hu)
    subst hqp
    exact ⟨h.time q ha (by rw [hp]; trivial), h.zone q ha (by rw [hp]; trivial)⟩

theorem inv_step {w t : TimeWorld} {a : TimeAct} (h : Inv w) (hok : w.Ok a) (hs : step w a = some t) : Inv t := by
  cases a with
  | syncTime p => cases hs; exact inv_syncTime h hok
  | login => cases hs; exact ⟨h.tracks, h.lt, h.copied, h.zone, h.time, h.clock⟩
  | logout => cases hp : w.dev.pc <;> simp only [step, hp] at hs <;> cases hs; exact inv_fail h
  | doSyncTime =>
    cases hp : w.dev.pc <;> cases hl : w.dev.live <;> simp only [step, hp, hl] at hs <;> cases hs
    exact inv_doSyncTime h
  | sendMsg ok =>
    cases hp : w.dev.pc with
    | sendZone p =>
      have hc := h.copied p (by rw [hp]; rfl)
      cases ok <;> simp only [step, hp] at hs <;> cases hs
      · exact inv_fail h
      · exact inv_sendZone h hc
    | sendTime p =>
      have ha : w.dev.pc.arg = some p := by rw [hp]; rfl
      have hz := h.zone p ha (by rw [hp]; trivial)
      cases ok <;> simp only [step, hp] at hs <;> cases hs
      · exact inv_fail h
      · exact inv_sendTime h (h.copied p ha) hz
    | idle | recvZone p | recvTime p => simp [step, hp] at hs
  | recvMsg ok =>
    cases hp : w.dev.pc with
    | recvZone p =>
      have ha : w.dev.pc.arg = some p := by rw [hp]; rfl
      have hz := h.zone p ha (by rw [hp]; trivial)
      cases ok <;> simp only [step, hp] at hs <;> cases hs
      · exact inv_fail h
      · refine ⟨h.tracks, h.lt, ?_, ?_, ?_, h.clock⟩
        · intro q hq; cases hq; exact h.copied p ha
        · intro q hq _; cases hq; exact hz
        · intro _ _ ht; cases ht
    | recvTime p =>
      cases ok <;> simp only [step, hp] at hs <;> cases hs
      · exact inv_fail h
      · simp only [Ok, hp] at hok
        exact inv_note h hp hok
    | idle | sendZone p | sendTime p => simp [step, hp] at hs

/-- **What `doSyncTime` keeps of the calls.** In no run are the daylight hours of a call that was
answered for sent; time and zone are, in every run where no exchange ends with a call made since
its copy. -/
theorem syncTime_synced (as : List TimeAct) :
    Reached step (fun w => w.Synced ↔ (w.Quiet → w.calls = [])) init as ∧
      (Meets step Ok init as → Reached step ClockSynced init as) := by
  constructor
  · apply reached_of_inv (I := fun w => ∀ m ∈ w.sent, m.dstHour = none)
    · intro w a t h hs
      exact noDst_step h hs
    · intro w h
      exact synced_iff h
    · exact nofun
  · apply reached_of_meets (I := Inv)
    · intro w a t h hok hs
      exact inv_step h hok hs
    · rintro w h ⟨_, he⟩
      exact h.clock ((h.tracks.idle_iff h.lt).mp he)
    · exact inv_init

/-- One call, sent and answered. -/
theorem syncTime_once :
    Reached step ClockSynced init [.login, .syncTime ⟨100, 4, 0⟩, .doSyncTime, .sendMsg true, .recvMsg true,
      .sendMsg true, .recvMsg true] := by
  apply (syncTime_synced _).2
  simp [Meets, Ok, step, init, syncTime, doSyncTime, send, note, Mailbox.post, Mailbox.init]

/-- A second call during the exchange is noted with the first one and never sent. -/
theorem syncTime_overtaken : ∃ t, exec step init [.login, .syncTime ⟨100, 4, 0⟩, .doSyncTime, .sendMsg true,
      .recvMsg true, .sendMsg true, .syncTime ⟨200, 8, 1⟩, .recvMsg true] = some t ∧ t.Quiet ∧
    t.calls.getLast? = some ⟨200, 8, 1⟩ ∧ lastSent TimeMsg.opTimeSetting t.sent = some 100 ∧ ¬ t.Synced := by
  refine ⟨_, rfl, ⟨rfl, rfl⟩, rfl, rfl, ?_⟩
  rintro ⟨hc, _⟩
  have h := (hc ⟨rfl, rfl⟩ ⟨200, 8, 1⟩ rfl).1
  revert h
  decide

end TimeWorld

end Xm

end SabApp
