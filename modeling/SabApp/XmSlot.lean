import Mathlib.Logic.Function.Basic
import SabApp.Runs

/-!
# What an XM device slot keeps for its next device

The requests for a device lie in its slot: a PTZ command beside the last one sent, all others
as a pair of numbers beside their parameters. Neither start nor stop touches them, and a
logout only forgets the last PTZ command. So what was open when the slot was stopped, and any
PTZ command but the stop of a movement, goes to the slot's next device.
-/

namespace SabApp

namespace Xm

/-- What `nc_xm_dev_isSame` compares. -/
structure NcDev where
  ip : List UInt8
  msgPort : Int32
  user : List UInt8
  pswd : List UInt8
  deriving DecidableEq

inductive Kind where
  | ptz
  | records
  | logs
  | time
  | getStatus
  | setStatus
  deriving DecidableEq

structure Ptz where
  channelNo : UInt8
  cmd : UInt8
  param : UInt8
  step : UInt8
  deriving DecidableEq

structure Numbers where
  last : Int32
  cur : Int32
  deriving DecidableEq

/-- For which device, at its n-th start, a request was made. -/
structure Origin where
  dev : NcDev
  binding : ℕ
  deriving DecidableEq

/-- What a `do` function copies at its start: whose parameters, the request number and the PTZ
command. -/
structure Copy where
  origin : Origin
  req : Int32
  ptz : Ptz

/-- Where the login thread stands; the number counts the messages of the exchange already sent. -/
inductive SlotPc where
  | none
  | idle
  | send (k : Kind) (c : Copy) (n : ℕ)
  | recv (k : Kind) (c : Copy) (n : ℕ)

def SlotPc.job : SlotPc → Option (Kind × Copy)
  | send k c _ | recv k c _ => some (k, c)
  | _ => Option.none

/-- `nc_xm_dev_t`; the number of starts is history. -/
structure Slot where
  state : Bool
  stNcDev : NcDev
  pc : SlotPc
  live : Bool
  lastPtz : Ptz
  curPtz : Ptz
  num : Kind → Numbers
  cfg : Kind → Origin
  binding : ℕ

structure Sent where
  kind : Kind
  dev : NcDev
  binding : ℕ
  origin : Origin

/-- The slot and the messages sent. -/
structure SlotWorld where
  slot : Slot
  sent : List Sent

inductive SlotAct where
  | start (d : NcDev)
  | stop
  | exit
  | ptz (channelNo cmd param : Int32)
  /-- Another request is made. -/
  | request (k : Kind)
  | login (ok : Bool)
  | logout
  | run (k : Kind)
  | skip
  | sendMsg (ok : Bool)
  | recvMsg (ok more : Bool)

namespace Kind

/-- Another message follows in the exchange; in `doLogs` as long as the device has more. -/
def goesOn (k : Kind) (n : ℕ) (more : Bool) : Bool :=
  match k with
  | ptz | time => n < 2
  | logs => more
  | _ => false

/-- A failed exchange ends the session. -/
def logsOut : Kind → Bool
  | records | logs => false
  | _ => true

/-- A failed exchange is noted as answered. -/
def notesFailed : Kind → Bool
  | records | logs | getStatus => true
  | _ => false

end Kind

namespace Slot

def origin (s : Slot) : Origin := ⟨s.stNcDev, s.binding⟩

/-- `nc_xm_dev_start`. -/
def start (s : Slot) (d : NcDev) : Slot :=
  { s with stNcDev := d, state := true, pc := .idle, live := false, binding := s.binding + 1 }

def login (s : Slot) : Slot := { s with live := true }

/-- `nc_xm_dev_logout`. -/
def logout (s : Slot) : Slot := { s with live := false, lastPtz := { s.lastPtz with cmd := 0 }, pc := .idle }

/-- `nc_xm_dev_ptz`. -/
def ptz (s : Slot) (channelNo cmd param : Int32) : Slot :=
  { s with curPtz := ⟨channelNo.toUInt32.toUInt8, cmd.toUInt32.toUInt8, param.toUInt32.toUInt8, 0⟩,
           cfg := Function.update s.cfg .ptz s.origin }

/-- `nc_xm_dev_syncTime`, `nc_xm_dev_setStatus` and the three that wait for an answer. -/
def request (s : Slot) (k : Kind) : Slot :=
  { s with num := Function.update s.num k ⟨(s.num k).last, (s.num k).cur + 1⟩,
           cfg := Function.update s.cfg k s.origin }

/-- The `do` function finds its request already done. -/
def done (s : Slot) (k : Kind) : Prop :=
  match k with
  | .ptz => s.lastPtz = s.curPtz
  | k => (s.num k).last = (s.num k).cur

instance (s : Slot) (k : Kind) : Decidable (s.done k) := by
  cases k <;> unfold done <;> infer_instance

/-- A `do` function up to its first message. -/
def run (s : Slot) (k : Kind) : Slot :=
  if s.done k then s else { s with pc := .send k ⟨s.cfg k, (s.num k).cur, s.curPtz⟩ 0 }

/-- The request is noted as done: the command or the number copied, or the number now found, with the
answer where the parameters were. -/
def note (s : Slot) (k : Kind) (c : Copy) : Slot :=
  match k with
  | .ptz => { s with lastPtz := c.ptz }
  | .setStatus => { s with num := Function.update s.num k ⟨c.req, (s.num k).cur⟩ }
  | .time => { s with num := Function.update s.num k ⟨(s.num k).cur, (s.num k).cur⟩ }
  | k => { s with num := Function.update s.num k ⟨(s.num k).cur, (s.num k).cur⟩,
                  cfg := Function.update s.cfg k c.origin }

def goto (s : Slot) (pc : SlotPc) : Slot := { s with pc := pc }

def quit (s : Slot) (k : Kind) : Slot := if k.logsOut then s.logout else s.goto .idle

def fail (s : Slot) (k : Kind) (c : Copy) : Slot := (if k.notesFailed then s.note k c else s).quit k

/-- The device has answered the n-th message. -/
def answered (s : Slot) (k : Kind) (c : Copy) (n : ℕ) (more : Bool) : Slot :=
  if k.goesOn n more then s.goto (.send k c n) else (s.note k c).goto .idle

end Slot

namespace SlotWorld

def send (w : SlotWorld) (k : Kind) (c : Copy) (n : ℕ) : SlotWorld :=
  { slot := w.slot.goto (.recv k c (n + 1))
    sent := w.sent ++ [⟨k, w.slot.stNcDev, w.slot.binding, c.origin⟩] }

def step (w : SlotWorld) (a : SlotAct) : Option SlotWorld :=
  match a, w.slot.pc with
  | .start d, .none => some { w with slot := w.slot.start d }
  | .stop, _ => some { w with slot.state := false }
  | .exit, .idle => if w.slot.state then none else some { w with slot := w.slot.logout.goto .none }
  | .ptz c cmd p, _ => if w.slot.state then some { w with slot := w.slot.ptz c cmd p } else none
  | .request k, _ => if w.slot.state && k ≠ .ptz then some { w with slot := w.slot.request k } else none
  | .login ok, .idle => some (if ok then { w with slot := w.slot.login } else w)
  | .logout, .idle => some { w with slot := w.slot.logout }
  | .run k, .idle => if w.slot.live then some { w with slot := w.slot.run k } else none
  | .skip, .send k c n => if k = .records ∧ n = 0 then some { w with slot := (w.slot.note k c).goto .idle } else none
  | .sendMsg ok, .send k c n => some (if ok then w.send k c n else { w with slot := w.slot.fail k c })
  | .recvMsg ok more, .recv k c n => some { w with slot := if ok then w.slot.answered k c n more else w.slot.fail k c }
  | _, _ => none

def init : SlotWorld :=
  ⟨⟨false, ⟨[], 0, [], []⟩, .none, false, ⟨0, 0, 0, 0⟩, ⟨0, 0, 0, 0⟩, fun _ => ⟨0, 0⟩, fun _ => ⟨⟨[], 0, [], []⟩, 0⟩, 0⟩, []⟩

/-- Each message of these kinds answers a request made for the slot's device since it was started. -/
def Isolated (K : Kind → Prop) (w : SlotWorld) : Prop := ∀ e ∈ w.sent, K e.kind → e.origin = ⟨e.dev, e.binding⟩

/-- The slot is started with nothing of these kinds open. -/
def StartOk (K : Kind → Prop) (w : SlotWorld) : SlotAct → Prop
  | .start _ => ∀ k, K k → w.slot.done k
  | _ => True

end SlotWorld

/-! ## What every step keeps -/

namespace Slot

/-- The request is done, and stays done over a logout. -/
def Settled (s : Slot) (k : Kind) : Prop := s.done k ∧ (k = .ptz → s.curPtz.cmd = 0)

structure Clean (K : Kind → Prop) (s : Slot) : Prop where
  cfg : s.pc ≠ .none → ∀ k, K k → s.cfg k = s.origin ∨ s.Settled k
  job : ∀ k c, K k → s.pc.job = some (k, c) → c.origin = s.origin ∧ s.cfg k = s.origin
  out : s.pc = .none → s.lastPtz.cmd = 0

variable {K : Kind → Prop}

theorem clean_start {s : Slot} (h : Clean K s) (hp : s.pc = .none) (d : NcDev) (hd : ∀ k, K k → s.done k) :
    Clean K (s.start d) where
  cfg _ k hk := by
    refine .inr ⟨?_, ?_⟩
    · have hk' := hd k hk
      cases k <;> exact hk'
    · rintro rfl
      have hl : s.lastPtz = s.curPtz := hd .ptz hk
      show s.curPtz.cmd = 0
      rw [← hl]
      exact h.out hp
  job := nofun
  out := nofun

theorem Clean.goto_idle {s : Slot} (h : Clean K s) (hp : s.pc ≠ .none) : Clean K (s.goto .idle) where
  cfg _ k hk := (h.cfg hp k hk).imp id fun hs => by cases k <;> exact hs
  job := nofun
  out := nofun

theorem Settled.logout {s : Slot} {k : Kind} (h : s.Settled k) : s.logout.Settled k := by
  cases k with
  | ptz =>
    obtain ⟨hd, hc⟩ := h
    have hl : s.lastPtz = s.curPtz := hd
    have hz : s.lastPtz.cmd = 0 := by rw [hl]; exact hc rfl
    refine ⟨?_, hc⟩
    show { s.lastPtz with cmd := 0 } = s.curPtz
    rw [← hl, ← hz]
  | _ => exact ⟨h.1, nofun⟩

theorem Clean.logout {s : Slot} (h : Clean K s) (hp : s.pc ≠ .none) : Clean K s.logout where
  cfg _ k hk := (h.cfg hp k hk).imp id Settled.logout
  job := nofun
  out := nofun

theorem ptz_cfg_self (s : Slot) (channelNo cmd param : Int32) : (s.ptz channelNo cmd param).cfg .ptz = s.origin := by
  simp [ptz]

theorem request_cfg_self (s : Slot) (k : Kind) : (s.request k).cfg k = s.origin := Function.update_self ..

theorem Clean.ptz {s : Slot} (h : Clean K s) (channelNo cmd param : Int32) :
    Clean K (s.ptz channelNo cmd param) where
  cfg hp k hk := by
    by_cases hkp : k = .ptz
    · rw [hkp]
      exact .inl (ptz_cfg_self ..)
    · have hc : (s.ptz channelNo cmd param).cfg k = s.cfg k := Function.update_of_ne hkp ..
      rw [hc]
      refine (h.cfg hp k hk).imp id fun hs => ⟨?_, fun he => absurd he hkp⟩
      cases k <;> first | exact hs.1 | exact absurd rfl hkp
  job k c hk hj := by
    obtain ⟨ho, hc⟩ := h.job k c hk hj
    refine ⟨ho, ?_⟩
    by_cases hkp : k = .ptz
    · rw [hkp]
      exact ptz_cfg_self ..
    · exact (Function.update_of_ne hkp ..).trans hc
  out := h.out

theorem done_request {s : Slot} {j k : Kind} (h : j ≠ k) (hd : s.done j) : (s.request k).done j := by
  have hn : (s.request k).num j = s.num j := Function.update_of_ne h ..
  cases j with
  | ptz => exact hd
  | _ =>
    simp only [done, hn]
    exact hd

theorem Clean.request {s : Slot} (h : Clean K s) (k : Kind) : Clean K (s.request k) where
  cfg hp j hj := by
    by_cases hjk : j = k
    · rw [hjk]
      exact .inl (request_cfg_self ..)
    · have hc : (s.request k).cfg j = s.cfg j := Function.update_of_ne hjk ..
      rw [hc]
      exact (h.cfg hp j hj).imp id fun hs => ⟨done_request hjk hs.1, hs.2⟩
  job j c hj hjob := by
    obtain ⟨ho, hc⟩ := h.job j c hj hjob
    refine ⟨ho, ?_⟩
    by_cases hjk : j = k
    · rw [hjk]
      exact request_cfg_self ..
    · exact (Function.update_of_ne hjk ..).trans hc
  out := h.out

/-- An exchange of these kinds is for a request that is not settled. -/
theorem Clean.run {s : Slot} (h : Clean K s) (hp : s.pc = .idle) (k : Kind) : Clean K (s.run k) := by
  unfold Slot.run
  have hne : s.pc ≠ .none := by rw [hp]; exact nofun
  by_cases hd : s.done k
  · rw [if_pos hd]
    exact h
  · rw [if_neg hd]
    refine ⟨fun _ => h.cfg hne, ?_, nofun⟩
    intro j c hj hjob
    cases hjob
    rcases h.cfg hne k hj with ho | hs
    · exact ⟨ho, ho⟩
    · exact absurd hs.1 hd

theorem note_origin (s : Slot) (k : Kind) (c : Copy) : (s.note k c).origin = s.origin := by cases k <;> rfl

theorem note_pc (s : Slot) (k : Kind) (c : Copy) : (s.note k c).pc = s.pc := by cases k <;> rfl

theorem note_cfg_self {s : Slot} {k : Kind} {c : Copy} (hc : c.origin = s.origin) (hs : s.cfg k = s.origin) :
    (s.note k c).cfg k = s.origin := by
  cases k with
  | ptz => exact hs
  | time => exact hs
  | setStatus => exact hs
  | _ => simpa [note] using hc

theorem note_cfg_ne (s : Slot) {j k : Kind} (h : j ≠ k) (c : Copy) : (s.note k c).cfg j = s.cfg j := by
  cases k with
  | ptz => rfl
  | time => rfl
  | setStatus => rfl
  | _ => exact Function.update_of_ne h ..

theorem done_note {s : Slot} {j k : Kind} (h : j ≠ k) (c : Copy) (hd : s.done j) : (s.note k c).done j := by
  have hn : (s.note k c).num j = s.num j := by
    cases k with
    | ptz => rfl
    | _ => exact Function.update_of_ne h ..
  cases j with
  | ptz => cases k <;> first | exact hd | exact absurd rfl h
  | _ =>
    simp only [done, hn]
    exact hd

theorem note_curPtz (s : Slot) (k : Kind) (c : Copy) : (s.note k c).curPtz = s.curPtz := by cases k <;> rfl

theorem pc_of_job {s : Slot} {k : Kind} {c : Copy} (hj : s.pc.job = some (k, c)) : s.pc ≠ .none := by
  intro hn
  rw [hn] at hj
  cases hj

theorem Clean.note {s : Slot} (h : Clean K s) {k : Kind} {c : Copy} (hj : s.pc.job = some (k, c)) :
    Clean K (s.note k c) := by
  have hne := pc_of_job hj
  refine ⟨?_, ?_, fun hn => absurd (note_pc s k c ▸ hn) hne⟩
  · intro _ j hK
    rw [note_origin]
    by_cases hjk : j = k
    · subst hjk
      obtain ⟨hc, hs⟩ := h.job j c hK hj
      exact .inl (note_cfg_self hc hs)
    · rw [note_cfg_ne s hjk]
      refine (h.cfg hne j hK).imp id fun hs => ⟨done_note hjk c hs.1, ?_⟩
      rw [note_curPtz]
      exact hs.2
  · intro j d hK hjob
    rw [note_pc, hj] at hjob
    cases hjob
    obtain ⟨hc, hs⟩ := h.job k c hK hj
    rw [note_origin]
    exact ⟨hc, note_cfg_self hc hs⟩

theorem Clean.quit {s : Slot} (h : Clean K s) (hp : s.pc ≠ .none) (k : Kind) : Clean K (s.quit k) := by
  unfold Slot.quit
  split
  · exact h.logout hp
  · exact h.goto_idle hp

theorem Clean.fail {s : Slot} (h : Clean K s) {k : Kind} {c : Copy} (hj : s.pc.job = some (k, c)) :
    Clean K (s.fail k c) := by
  unfold Slot.fail
  split
  · apply (h.note hj).quit
    rw [note_pc]
    exact pc_of_job hj
  · exact h.quit (pc_of_job hj) k

theorem Clean.goto_job {s : Slot} (h : Clean K s) {k : Kind} {c : Copy} (hj : s.pc.job = some (k, c)) {pc : SlotPc}
    (hpc : pc.job = some (k, c)) : Clean K (s.goto pc) := by
  have hne : s.pc ≠ .none := by
    intro hn
    rw [hn] at hj
    cases hj
  refine ⟨?_, ?_, ?_⟩
  · intro _ j hK
    exact (h.cfg hne j hK).imp id fun hs => by cases j <;> exact hs
  · intro j d hK hjob
    exact h.job j d hK (hj.trans (hpc.symm.trans hjob))
  · intro hn
    have hn' : pc = .none := hn
    rw [hn'] at hpc
    cases hpc

theorem Clean.answered {s : Slot} (h : Clean K s) {k : Kind} {c : Copy} {n : ℕ} (hp : s.pc = .recv k c n)
    (more : Bool) : Clean K (s.answered k c n more) := by
  have hj : s.pc.job = some (k, c) := by rw [hp]; rfl
  unfold Slot.answered
  split
  · exact h.goto_job hj rfl
  · apply (h.note hj).goto_idle
    rw [note_pc, hp]
    exact nofun

end Slot

namespace SlotWorld

variable {K : Kind → Prop}

structure Inv (K : Kind → Prop) (w : SlotWorld) : Prop where
  clean : w.slot.Clean K
  isolated : w.Isolated K

theorem inv_init : Inv K init := ⟨⟨fun h => absurd rfl h, nofun, fun _ => rfl⟩, nofun⟩

theorem inv_send {w : SlotWorld} (h : Inv K w) {k : Kind} {c : Copy} {n : ℕ} (hp : w.slot.pc = .send k c n) :
    Inv K (w.send k c n) where
  clean := h.clean.goto_job (by rw [hp]; rfl) rfl
  isolated e he hK := by
    rcases List.mem_append.mp he with he | he
    · exact h.isolated e he hK
    · rw [List.mem_singleton.mp he] at hK ⊢
      exact (h.clean.job k c hK (by rw [hp]; rfl)).1

theorem inv_step {w t : SlotWorld} {a : SlotAct} (h : Inv K w) (hok : w.StartOk K a) (hs : step w a = some t) :
    Inv K t := by
  have hc := h.clean
  cases a with
  | start d =>
    cases hp : w.slot.pc <;> simp only [step, hp] at hs <;> cases hs
    exact ⟨Slot.clean_start hc hp d hok, h.isolated⟩
  | stop => cases hs; exact ⟨⟨hc.cfg, hc.job, hc.out⟩, h.isolated⟩
  | exit =>
    cases hp : w.slot.pc <;> simp only [step, hp] at hs <;> try cases hs
    split at hs <;> cases hs
    exact ⟨⟨fun hn => absurd rfl hn, nofun, fun _ => rfl⟩, h.isolated⟩
  | ptz c cmd p =>
    simp only [step] at hs
    split at hs <;> cases hs
    exact ⟨hc.ptz c cmd p, h.isolated⟩
  | request k =>
    simp only [step] at hs
    split at hs <;> cases hs
    exact ⟨hc.request k, h.isolated⟩
  | login ok =>
    cases hp : w.slot.pc <;> simp only [step, hp] at hs <;> cases hs
    cases ok
    · exact h
    · exact ⟨⟨hc.cfg, hc.job, hc.out⟩, h.isolated⟩
  | logout =>
    cases hp : w.slot.pc <;> simp only [step, hp] at hs <;> cases hs
    have hne : w.slot.pc ≠ .none := by rw [hp]; exact nofun
    exact ⟨hc.logout hne, h.isolated⟩
  | run k =>
    cases hp : w.slot.pc <;> simp only [step, hp] at hs <;> try cases hs
    split at hs <;> cases hs
    exact ⟨hc.run hp k, h.isolated⟩
  | skip =>
    cases hp : w.slot.pc with
    | send k c n =>
      simp only [step, hp] at hs
      split at hs <;> cases hs
      have hj : w.slot.pc.job = some (k, c) := by rw [hp]; rfl
      refine ⟨(hc.note hj).goto_idle ?_, h.isolated⟩
      rw [Slot.note_pc]
      exact Slot.pc_of_job hj
    | _ => simp [step, hp] at hs
  | sendMsg ok =>
    cases hp : w.slot.pc with
    | send k c n =>
      simp only [step, hp] at hs
      cases hs
      have hj : w.slot.pc.job = some (k, c) := by rw [hp]; rfl
      cases ok
      · exact ⟨hc.fail hj, h.isolated⟩
      · exact inv_send h hp
    | _ => simp [step, hp] at hs
  | recvMsg ok more =>
    cases hp : w.slot.pc with
    | recv k c n =>
      simp only [step, hp] at hs
      cases hs
      have hj : w.slot.pc.job = some (k, c) := by rw [hp]; rfl
      cases ok
      · exact ⟨hc.fail hj, h.isolated⟩
      · exact ⟨hc.answered hp more, h.isolated⟩
    | _ => simp [step, hp] at hs

/-- **Slots are isolated**, for any kinds of requests, in every run where the slot is only started with
none of them open. -/
theorem slot_isolated (K : Kind → Prop) (as : List SlotAct) (h : Meets step (StartOk K) init as) :
    Reached step (Isolated K) init as := by
  apply reached_of_meets (I := Inv K)
  · intro w a t hi hok hs
    exact inv_step hi hok hs
  · intro w hi
    exact hi.isolated
  · exact inv_init
  · exact h

/-- Two devices for runs on fixed inputs. -/
def lobby : NcDev := ⟨[10, 0, 0, 1], 34567, [1], [2]⟩

def attic : NcDev := ⟨[10, 0, 0, 2], 34567, [1], [2]⟩

/-- A first start, and the status set there. -/
theorem slot_once : Reached step (Isolated fun _ => True) init
    [.start lobby, .request .setStatus, .login true, .run .setStatus, .sendMsg true, .recvMsg true false] := by
  apply slot_isolated
  refine Meets.cons ?_ rfl (Meets.cons trivial rfl (Meets.cons trivial rfl (Meets.cons trivial rfl ?_)))
  · intro k _
    cases k <;> rfl
  · exact Meets.cons trivial rfl (Meets.cons trivial rfl trivial)

/-- A status never sent to the first device is set on the second; and a movement the first one carried
out is repeated by the second. -/
theorem slot_mixed :
    (∃ t, exec step init [.start lobby, .request .setStatus, .stop, .exit, .start attic, .login true, .run .setStatus,
        .sendMsg true] = some t ∧
      (∃ e ∈ t.sent, e.kind = .setStatus ∧ e.dev = attic ∧ e.origin.dev = lobby) ∧ ¬ t.Isolated (· = .setStatus)) ∧
    ∃ t, exec step init [.start lobby, .ptz 0 1 5, .login true, .run .ptz, .sendMsg true, .recvMsg true false,
        .sendMsg true, .recvMsg true false, .stop, .exit, .start attic, .login true, .run .ptz, .sendMsg true] = some t ∧
      (∃ e ∈ t.sent, e.kind = .ptz ∧ e.dev = attic ∧ e.origin.dev = lobby) ∧ ¬ t.Isolated (· = .ptz) := by
  refine ⟨⟨_, rfl, ⟨⟨.setStatus, attic, 2, ⟨lobby, 1⟩⟩, ?_, rfl, rfl, rfl⟩, ?_⟩,
    ⟨_, rfl, ⟨⟨.ptz, attic, 2, ⟨lobby, 1⟩⟩, ?_, rfl, rfl, rfl⟩, ?_⟩⟩
  · exact List.mem_singleton.mpr rfl
  · intro h
    exact absurd (h _ (List.mem_singleton.mpr rfl) rfl) (by decide)
  · exact List.mem_of_getLast? rfl
  · intro h
    exact absurd (h ⟨.ptz, attic, 2, ⟨lobby, 1⟩⟩ (List.mem_of_getLast? rfl) rfl) (by decide)

end SlotWorld

end Xm

end SabApp
