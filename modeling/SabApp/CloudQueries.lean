import SabApp.Bytes
import SabApp.CloudSlots

/-!
# Questions to a cloud device

A call leaves its arguments in the slot and waits for a broadcast; the slot's thread copies
them, asks the device, stores what it made of the reply and wakes every call that waits
on that condition. What a woken call returns is whatever lies in the slot by then: nothing
says that the reply is to its own request. `getAbility` waits on the condition of `getStatus`.
-/

namespace SabApp

namespace Cloud

inductive Ask where
  | getAbility
  | searchRecords
  | searchLogs
  | searchDates
  | getStatus
  | getAlarm
  | getWifi
  | getDevRecord
  | getCfg (id : CfgId)
  deriving DecidableEq

namespace Ask

def query : Ask → Query
  | getAbility => .getAbility
  | searchRecords => .searchRecords
  | searchLogs => .searchLogs
  | searchDates => .searchDates
  | getStatus => .getStatus
  | getAlarm => .getAlarm
  | getWifi => .getWifi
  | getDevRecord => .getDevRecord
  | getCfg id => .getCfg id

def buf (k : Ask) : Kind := (Kind.query k.query).buf

/-- Whose condition variable the call waits on and the `do` function broadcasts; nobody uses
`cond_ability`. -/
def cond : Ask → Ask
  | getAbility => getStatus
  | k => k

end Ask

structure Arg where
  cfg : Cfg
  /-- Only `getAlarm` has one. -/
  alarmType : Int32
  deriving DecidableEq

/-- What a request carries besides its command. -/
inductive Params where
  | none
  | search (printed : List Int32)
  | alarm (type : Int32)
  deriving DecidableEq

/-- The numbers that `tool_ptc_qh_c2d_encode_getRecords`, `getLogs` and `searchDates` print, and what
the `tool_ptc_qh_d2c_decode` functions make of a reply. -/
structure Codec where
  search : Ask → Cfg → List Int32
  decode : Ask → List UInt8 → Cfg → Int32 × Cfg

def Codec.params (c : Codec) : Ask → Arg → Params
  | .searchRecords, a => .search (c.search .searchRecords a.cfg)
  | .searchLogs, a => .search (c.search .searchLogs a.cfg)
  | .searchDates, a => .search (c.search .searchDates a.cfg)
  | .getAlarm, a => .alarm a.alarmType
  | _, _ => .none

inductive Link where
  | sendFailed
  | recvFailed
  | reply (data : List UInt8)

/-- One run of a `do` function past its copy; `sentAt` calls had been made when it sent. -/
structure Trip where
  kind : Ask
  copy : Arg
  sentAt : ℕ
  link : Link

structure AskCall where
  n : ℕ
  kind : Ask
  arg : Arg
  deriving DecidableEq

namespace Trip

/-- Result code and structure as the trip stores them. -/
def outcome (c : Codec) (x : Trip) : Int32 × Cfg :=
  match x.link with
  | .sendFailed => (Nc.errSend, x.copy.cfg)
  | .recvFailed => (Nc.errRecv, x.copy.cfg)
  | .reply data => c.decode x.kind data x.copy.cfg

/-- The trip asked what the call asks, after the call was made; with `linked`, the device replied. -/
structure Answers (c : Codec) (linked : Prop) (x : Trip) (a : AskCall) : Prop where
  kind : x.kind = a.kind
  params : c.params x.kind x.copy = c.params a.kind a.arg
  after : a.n ≤ x.sentAt
  replied : linked → ∃ data, x.link = .reply data

end Trip

structure Waiter where
  call : AskCall
  woken : Bool
  deriving DecidableEq

inductive AskPc where
  | idle
  | send (k : Ask) (copy : Arg)
  | recv (k : Ask) (copy : Arg) (sentAt : ℕ)
  | finish (x : Trip)

structure AskReturn where
  call : AskCall
  timedOut : Bool
  /-- The result code and the caller's structure. -/
  out : Int32 × Cfg

structure AskDev where
  pc : AskPc
  live : Bool
  req : Ask → Numbers
  cfg : Kind → Cfg
  cfgGetType : Int32
  result : Ask → Int32

/-- The slot and the calls on it: their number so far, those that wait, the trips done and what the
calls returned. -/
structure AskWorld where
  dev : AskDev
  calls : ℕ
  waiting : List Waiter
  trips : List Trip
  returns : List AskReturn

inductive AskAct where
  | call (k : Ask) (a : Arg)
  | timeout (u : Waiter)
  | wake (a : AskCall)
  /-- `pthread_cond_timedwait` returns without a broadcast. -/
  | wakeEarly (a : AskCall)
  | login
  | logout
  | run (k : Ask)
  | sendMsg (ok : Bool)
  | recvMsg (reply : Option (List UInt8))
  | finish

namespace AskWorld
variable (c : Codec)

def init : AskWorld where
  dev := ⟨.idle, false, fun _ => ⟨0, 0⟩, fun _ => [], 0, fun _ => 0⟩
  calls := 0
  waiting := []
  trips := []
  returns := []

/-- `hdcctv_client2_msgs_getStatus` and the others up to the wait. -/
def call (w : AskWorld) (k : Ask) (a : Arg) : AskWorld :=
  { w with
    dev.req := Function.update w.dev.req k ⟨(w.dev.req k).last, (w.dev.req k).cur + 1⟩
    dev.cfg := Function.update w.dev.cfg k.buf a.cfg
    dev.cfgGetType := if k = .getAlarm then a.alarmType else w.dev.cfgGetType
    calls := w.calls + 1
    waiting := w.waiting ++ [⟨⟨w.calls + 1, k, a⟩, false⟩] }

/-- The result code and the structure that a call of this kind finds in the slot. -/
def held (w : AskWorld) (k : Ask) : Int32 × Cfg := (w.dev.result k, w.dev.cfg k.buf)

def giveBack (w : AskWorld) (u : Waiter) (timedOut : Bool) (out : Int32 × Cfg) : AskWorld :=
  { w with waiting := w.waiting.erase u, returns := w.returns ++ [⟨u.call, timedOut, out⟩] }

/-- A call after a wait that did not time out. -/
def answer (w : AskWorld) (u : Waiter) : AskWorld := w.giveBack u false (w.held u.call.kind)

/-- A call after a wait that timed out leaves the caller's structure alone. -/
def giveUp (w : AskWorld) (u : Waiter) : AskWorld := w.giveBack u true (Nc.errTimeout, u.call.arg.cfg)

def setLive (w : AskWorld) (b : Bool) : AskWorld := { w with dev.live := b }

def setPc (w : AskWorld) (pc : AskPc) : AskWorld := { w with dev.pc := pc }

/-- `hdcctv_client2_msgs_doGetStatus` and the others up to the send. -/
def run (w : AskWorld) (k : Ask) : AskWorld :=
  if (w.dev.req k).last = (w.dev.req k).cur then w
  else w.setPc (.send k ⟨w.dev.cfg k.buf, w.dev.cfgGetType⟩)

def broadcast (k : Ask) (u : Waiter) : Waiter :=
  if u.call.kind.cond = k.cond then { u with woken := true } else u

/-- The end of a `do` function, under the lock; a broken link ends the session. -/
def finish (w : AskWorld) (x : Trip) : AskWorld :=
  { w with
    dev.pc := .idle
    dev.live := match x.link with
      | .reply _ => w.dev.live
      | _ => false
    dev.req := Function.update w.dev.req x.kind ⟨(w.dev.req x.kind).cur, (w.dev.req x.kind).cur⟩
    dev.cfg := Function.update w.dev.cfg x.kind.buf (x.outcome c).2
    dev.result := Function.update w.dev.result x.kind (x.outcome c).1
    waiting := w.waiting.map (broadcast x.kind)
    trips := w.trips ++ [x] }

def step (w : AskWorld) : AskAct → Option AskWorld
  | .call k a => some (w.call k a)
  | .timeout u => if u ∈ w.waiting then some (w.giveUp u) else none
  | .wake a => if ⟨a, true⟩ ∈ w.waiting then some (w.answer ⟨a, true⟩) else none
  | .wakeEarly a => if ⟨a, false⟩ ∈ w.waiting then some (w.answer ⟨a, false⟩) else none
  | .login => some (w.setLive true)
  | .logout => match w.dev.pc with
    | .idle => some (w.setLive false)
    | _ => none
  | .run k => match w.dev.pc, w.dev.live with
    | .idle, true => some (w.run k)
    | _, _ => none
  | .sendMsg ok => match w.dev.pc with
    | .send k copy => some (w.setPc (if ok then .recv k copy w.calls else .finish ⟨k, copy, w.calls, .sendFailed⟩))
    | _ => none
  | .recvMsg reply => match w.dev.pc, reply with
    | .recv k copy sentAt, some data => some (w.setPc (.finish ⟨k, copy, sentAt, .reply data⟩))
    | .recv k copy sentAt, none => some (w.setPc (.finish ⟨k, copy, sentAt, .recvFailed⟩))
    | _, _ => none
  | .finish => match w.dev.pc with
    | .finish x => some (w.finish c x)
    | _ => none

/-- Every call that did not time out has the outcome of a trip of its own. -/
def OwnAnswers (linked : Prop) (w : AskWorld) : Prop :=
  ∀ r ∈ w.returns, r.timedOut = false →
    ∃ x ∈ w.trips, x.Answers c linked r.call ∧ r.out = x.outcome c

/-- What the end of a trip of kind `k` does to a waiting call: it is woken, or it is already awake
and finds another structure. -/
def Touches (k : Ask) (u : Waiter) : Prop :=
  if u.woken then u.call.kind.buf = k.buf else u.call.kind.cond = k.cond

/-- Nothing is left in the place of a call that is awake and has not fetched its answer; a trip ends
when all the calls it touches are calls it answers; no wait ends early. -/
def Ok (linked : Prop) (w : AskWorld) : AskAct → Prop
  | .call k _ => ∀ u ∈ w.waiting, u.woken → u.call.kind.buf ≠ k.buf
  | .wakeEarly _ => False
  | .finish => match w.dev.pc with
    | .finish x => ∀ u ∈ w.waiting, Touches x.kind u → x.Answers c linked u.call
    | _ => True
  | _ => True

variable {c} {linked : Prop}

/-! ## What every step keeps -/

/-- The slot holds the outcome of a trip that answers the call. -/
def Ready (c : Codec) (linked : Prop) (w : AskWorld) (a : AskCall) : Prop :=
  ∃ x ∈ w.trips, x.Answers c linked a ∧ w.held a.kind = x.outcome c

structure Inv (c : Codec) (linked : Prop) (w : AskWorld) : Prop where
  woken : ∀ u ∈ w.waiting, u.woken → w.Ready c linked u.call
  returns : w.OwnAnswers c linked

theorem inv_init : Inv c linked init := ⟨nofun, nofun⟩

theorem held_call {w : AskWorld} {j k : Ask} (h : j.buf ≠ k.buf) (a : Arg) : (w.call k a).held j = w.held j :=
  congrArg (Prod.mk _) (Function.update_of_ne h ..)

theorem held_finish_self (w : AskWorld) (x : Trip) : (w.finish c x).held x.kind = x.outcome c := by
  simp [held, finish]

theorem held_finish {w : AskWorld} {x : Trip} {k : Ask} (h : k.buf ≠ x.kind.buf) :
    (w.finish c x).held k = w.held k := by
  have hk : k ≠ x.kind := by
    intro he
    exact h (congrArg Ask.buf he)
  simp [held, finish, h, hk]

theorem inv_call {w : AskWorld} (h : Inv c linked w) {k : Ask} {a : Arg}
    (hok : ∀ u ∈ w.waiting, u.woken → u.call.kind.buf ≠ k.buf) : Inv c linked (w.call k a) where
  woken u hu hw := by
    rcases List.mem_append.mp hu with hm | hm
    · obtain ⟨x, hx, ha, ho⟩ := h.woken u hm hw
      exact ⟨x, hx, ha, (held_call (hok u hm hw) a).trans ho⟩
    · rw [List.mem_singleton.mp hm] at hw
      cases hw
  returns := h.returns

/-- A call returns; nothing else changes. -/
theorem inv_giveBack {w : AskWorld} (h : Inv c linked w) (u : Waiter) {timedOut : Bool} {out : Int32 × Cfg}
    (hr : timedOut = false → ∃ x ∈ w.trips, x.Answers c linked u.call ∧ out = x.outcome c) :
    Inv c linked (w.giveBack u timedOut out) where
  woken v hv := h.woken v (List.mem_of_mem_erase hv)
  returns r hm := by
    rcases List.mem_append.mp hm with hm | hm
    · exact h.returns r hm
    · rw [List.mem_singleton.mp hm]; exact hr

theorem inv_answer {w : AskWorld} (h : Inv c linked w) {u : Waiter} (hu : u ∈ w.waiting) (hw : u.woken) :
    Inv c linked (w.answer u) := by
  apply inv_giveBack h
  intro _
  exact h.woken u hu hw

theorem inv_giveUp {w : AskWorld} (h : Inv c linked w) (u : Waiter) : Inv c linked (w.giveUp u) := by
  apply inv_giveBack h
  intro hf
  cases hf

theorem inv_setLive {w : AskWorld} (h : Inv c linked w) (b : Bool) : Inv c linked (w.setLive b) :=
  ⟨h.woken, h.returns⟩

theorem inv_setPc {w : AskWorld} (h : Inv c linked w) (pc : AskPc) : Inv c linked (w.setPc pc) :=
  ⟨h.woken, h.returns⟩

theorem inv_run {w : AskWorld} (h : Inv c linked w) (k : Ask) : Inv c linked (w.run k) := by
  unfold run
  split
  · exact h
  · exact inv_setPc h _

@[simp] theorem broadcast_call (k : Ask) (u : Waiter) : (broadcast k u).call = u.call := by
  unfold broadcast
  split <;> rfl

/-- A call the trip does not touch was awake before and finds what it found. -/
theorem woken_of_broadcast {k : Ask} {u : Waiter} (hw : (broadcast k u).woken) (ht : ¬ Touches k u) :
    u.woken ∧ u.call.kind.buf ≠ k.buf := by
  by_cases hu : u.woken = true
  · rw [Touches, if_pos hu] at ht
    exact ⟨hu, ht⟩
  · rw [Touches, if_neg hu] at ht
    rw [broadcast, if_neg ht] at hw
    exact absurd hw hu

theorem inv_finish {w : AskWorld} (h : Inv c linked w) {x : Trip}
    (hok : ∀ u ∈ w.waiting, Touches x.kind u → x.Answers c linked u.call) : Inv c linked (w.finish c x) where
  woken v hv hw := by
    obtain ⟨u, hu, rfl⟩ := List.mem_map.mp hv
    rw [broadcast_call]
    by_cases ht : Touches x.kind u
    · have ha := hok u hu ht
      refine ⟨x, List.mem_append_right _ (List.mem_singleton.mpr rfl), ha, ?_⟩
      rw [← ha.kind]
      exact held_finish_self w x
    · obtain ⟨huw, hne⟩ := woken_of_broadcast hw ht
      obtain ⟨y, hy, ha, ho⟩ := h.woken u hu huw
      exact ⟨y, List.mem_append_left _ hy, ha, (held_finish hne).trans ho⟩
  returns r hr hf := by
    obtain ⟨y, hy, ha⟩ := h.returns r hr hf
    exact ⟨y, List.mem_append_left _ hy, ha⟩

theorem inv_step {w t : AskWorld} {a : AskAct} (h : Inv c linked w) (hok : w.Ok c linked a)
    (hs : step c w a = some t) : Inv c linked t := by
  cases a with
  | call k a => cases hs; exact inv_call h hok
  | timeout u =>
    simp only [step] at hs
    split at hs
    · cases hs; exact inv_giveUp h u
    · cases hs
  | wake a =>
    simp only [step] at hs
    split at hs
    · next hm => cases hs; exact inv_answer h hm rfl
    · cases hs
  | wakeEarly a => exact hok.elim
  | login => cases hs; exact inv_setLive h true
  | logout => cases hp : w.dev.pc <;> simp only [step, hp] at hs <;> cases hs; exact inv_setLive h false
  | run k =>
    cases hp : w.dev.pc <;> cases hl : w.dev.live <;> simp only [step, hp, hl] at hs <;> cases hs
    exact inv_run h k
  | sendMsg ok => cases hp : w.dev.pc <;> simp only [step, hp] at hs <;> cases hs; exact inv_setPc h _
  | recvMsg reply =>
    cases hp : w.dev.pc <;> cases reply <;> simp only [step, hp] at hs <;> cases hs <;> exact inv_setPc h _
  | finish =>
    cases hp : w.dev.pc <;> simp only [step, hp] at hs <;> cases hs
    simp only [Ok, hp] at hok
    exact inv_finish h hok

/-- **A question gets its own answer** in every run where a trip ends only when each call it touches
is one it answers, nobody writes over an answer not yet fetched, and no wait ends early. -/
theorem asks_own (c : Codec) (linked : Prop) (as : List AskAct) (h : Meets (step c) (Ok c linked) init as) :
    Reached (step c) (OwnAnswers c linked) init as := by
  apply reached_of_meets (I := Inv c linked)
  · intro w a t hi hok hs
    exact inv_step hi hok hs
  · intro w hi
    exact hi.returns
  · exact inv_init
  · exact h

/-- The text of a reply that lists no log entry. -/
def noLogs : List UInt8 := "\x7b\"result\":\"0\",\"log\":[]\x7d".toUTF8.toList

/-- Logs are searched from one second to another; no other reply than `noLogs` is known, and that one
only as an answer to the search. -/
def logsOnly : Codec where
  search _ cfg := [Int32.ofNat (word32 cfg 0), Int32.ofNat (word32 cfg 4)]
  decode k data cfg := if k = .searchLogs ∧ data = noLogs then (0, cfg) else (-8, cfg)

/-- The logs of the first and of the second minute. -/
def firstLogs : Arg := ⟨le32 0 ++ le32 60 ++ le32 0 ++ le32 0, 0⟩

def secondLogs : Arg := ⟨le32 60 ++ le32 120 ++ le32 0 ++ le32 0, 0⟩

def noArg : Arg := ⟨[], 0⟩

theorem asks_once : Reached (step logsOnly) (OwnAnswers logsOnly True) init
    [.login, .call .searchLogs firstLogs, .run .searchLogs, .sendMsg true, .recvMsg (some noLogs), .finish,
      .wake ⟨1, .searchLogs, firstLogs⟩] := by
  apply asks_own
  refine Meets.cons trivial rfl (Meets.cons nofun rfl (Meets.cons trivial rfl (Meets.cons trivial rfl ?_)))
  refine Meets.cons trivial rfl (Meets.cons ?_ rfl (Meets.cons trivial rfl trivial))
  intro u hu _
  rw [List.mem_singleton.mp hu]
  exact ⟨rfl, rfl, Nat.le_refl 1, fun _ => ⟨noLogs, rfl⟩⟩

/-- The end of a `getStatus` wakes a `getAbility` that nobody has asked the device for; and a search
gets the answer to the one before it, which timed out. -/
theorem asks_mixed :
    (∃ t, exec (step logsOnly) init [.login, .call .getStatus noArg, .call .getAbility noArg, .run .getStatus,
        .sendMsg true, .recvMsg (some []), .finish, .wake ⟨2, .getAbility, noArg⟩] = some t ∧
      (∃ r ∈ t.returns, r.call.kind = .getAbility ∧ r.timedOut = false ∧ r.out = (0, [])) ∧
      ∀ linked, ¬ t.OwnAnswers logsOnly linked) ∧
    ∃ t, exec (step logsOnly) init [.login, .call .searchLogs firstLogs, .run .searchLogs, .sendMsg true,
        .timeout ⟨⟨1, .searchLogs, firstLogs⟩, false⟩, .call .searchLogs secondLogs, .recvMsg (some noLogs), .finish,
        .wake ⟨2, .searchLogs, secondLogs⟩] = some t ∧
      (∃ r ∈ t.returns, r.call.arg = secondLogs ∧ r.timedOut = false ∧ r.out = (0, firstLogs.cfg)) ∧
      ∀ linked, ¬ t.OwnAnswers logsOnly linked := by
  refine ⟨⟨_, rfl, ⟨_, List.mem_singleton.mpr rfl, rfl, rfl, rfl⟩, ?_⟩, _, rfl,
    ⟨_, List.mem_cons_of_mem _ (List.mem_singleton.mpr rfl), rfl, rfl, if_pos ⟨rfl, rfl⟩⟩, ?_⟩
  · intro linked h
    obtain ⟨x, hx, ha, _⟩ := h _ (List.mem_singleton.mpr rfl) rfl
    rw [List.mem_singleton.mp hx] at ha
    exact absurd ha.kind (by decide)
  · intro linked h
    obtain ⟨x, hx, ha, _⟩ := h _ (List.mem_cons_of_mem _ (List.mem_singleton.mpr rfl)) rfl
    rw [List.mem_singleton.mp hx] at ha
    exact absurd ha.after (by decide)

end AskWorld

end Cloud

end SabApp
