import SabApp.CloudSlots

/-!
# Sessions on a cloud relay slot

A start call binds the slot to a device and creates its receive thread. The thread asks the
server for a relay address unless `relay_enable` says that there is one, connects, starts the
service and receives; `hdcctv_client2_relay_doState` tells the callback of every change on
the way by a frame in the session's stream. `relay_enable`, `relay_addr` and `last_type` are
reset by no start or stop: a session may go to the address of another device, and may keep
its first state to itself.
-/

namespace SabApp

namespace Cloud

inductive Service where
  | rts
  | devPbs
  | cloudPbs
  | talk
  deriving DecidableEq

/-- The `PTC_FRAME_STREAM_*` types the receive threads report. -/
inductive StreamType where
  | timeout
  | postion
  | broken
  | wait
  | connect
  | connectFail
  | start
  | startFail
  | running
  | location
  | locationFail
  | deviceOffline
  deriving DecidableEq

namespace Service

/-- `hdcctv_client2_relay_runRecvTalk` has no calls of `doState`, and no stream to time out. -/
def reports (s : Service) : Bool := s ≠ talk

/-- The reply `30001` makes the thread ask for an address anew; not in `runRecvCloudPbs`. -/
def asksAgain (s : Service) : Bool := s ≠ cloudPbs

/-- `PTC_FRAME_PBS_END` ends the receive loop. -/
def ends (s : Service) : Bool := s = devPbs || s = cloudPbs

end Service

/-- Where the receive thread stands. -/
inductive RelayPc where
  | none
  | enter
  | top
  | loc
  | enable
  | fetch
  | sock
  | connect
  | send
  | recv
  | stream
  | quit
  | done
  deriving DecidableEq

inductive Reply where
  | ok
  /-- Result `30001`. -/
  | offline
  | refused
  deriving DecidableEq

inductive StreamEvent where
  | broken
  | quiet
  | other
  /-- A frame for the stream, which is then full or not. -/
  | media (full : Bool)
  | pbsEnd

/-- `hdcctv_client2_relay_t`; no type has been reported yet when `last_type` is 0. -/
structure Relay where
  pc : RelayPc
  service : Service
  state : Bool
  stNcDev : NcDev
  relayTick : Int32
  streamTick : Int32
  lastType : Option StreamType
  relayEnable : Bool
  relayAddr : ServiceAddr
  sockLive : Bool

/-- A connection or a START message: the session's device and the address it used. -/
structure Use where
  dev : NcDev
  addr : ServiceAddr
  deriving DecidableEq

/-- The slot, the client's tick and location flag and whether the session's stream is too full for
another frame. The rest is history: the answers of `hdcctv_client_getServiceAddr`, the
addresses used, and of the latest session the states it entered and the state frames in its stream. -/
structure RelayWorld where
  relay : Relay
  tick : Int32
  locEnable : Bool
  full : Bool
  given : List Use
  used : List Use
  states : List StreamType
  shown : List StreamType

inductive RelayAct where
  | tick
  | location
  | start (s : Service) (d : NcDev)
  | stop
  | join
  /-- The play thread has taken frames. -/
  | drain
  | run
  | serviceAddr (a : Option ServiceAddr)
  | sock (timedOut : Bool)
  | opened (ok : Bool)
  | sent (ok : Bool)
  | reply (r : Reply)
  | stream (e : StreamEvent)

namespace RelayWorld

/-- `hdcctv_client2_relay_doState`. -/
def doState (w : RelayWorld) (type : StreamType) : RelayWorld :=
  let w := { w with states := if w.states.getLast? = some type then w.states else w.states ++ [type] }
  if w.relay.lastType = some type then w
  else { w with relay.lastType := some type, shown := if w.full then w.shown else w.shown ++ [type] }

/-- `hdcctv_client2_relay_startRts` and the others. -/
def start (w : RelayWorld) (s : Service) (d : NcDev) : RelayWorld :=
  { w with
    relay := { w.relay with pc := .enter, service := s, state := true, stNcDev := d, sockLive := false }
    full := false
    states := []
    shown := [] }

def goto (w : RelayWorld) (pc : RelayPc) : RelayWorld := { w with relay.pc := pc }

/-- The socket is closed and the loop goes on from its top. -/
def close (w : RelayWorld) : RelayWorld := { w with relay := { w.relay with sockLive := false, pc := .top } }

/-- The address is used. -/
def use (w : RelayWorld) : RelayWorld := { w with used := w.used ++ [⟨w.relay.stNcDev, w.relay.relayAddr⟩] }

def stampStream (w : RelayWorld) : RelayWorld :=
  if w.relay.service.reports then { w with relay.streamTick := w.tick } else w

/-- The receive loops up to their next wait. -/
def run (w : RelayWorld) : Option (Option StreamType × RelayWorld) :=
  match w.relay.pc with
  | .enter => some (none, { w.stampStream.goto .top with relay.relayTick := -12345678 })
  | .top =>
    if w.relay.state = false then some (none, w.goto .quit)
    else if w.relay.service.reports && isTickTimeout w.tick w.relay.streamTick 10 then
      some (some .timeout, w.stampStream.goto .loc)
    else some (none, w.goto .loc)
  | .loc => some (if w.locEnable then (none, w.goto .enable) else (some .postion, w.goto .top))
  | .enable =>
    if w.relay.relayEnable then some (none, w.goto .sock)
    else if isTickTimeout w.tick w.relay.relayTick 10 then
      some (some .location, { w.goto .fetch with relay.relayTick := w.tick })
    else some (some .wait, w.goto .top)
  | .quit => some (none, { w.goto .done with relay.sockLive := false })
  | _ => none

/-- `hdcctv_client_getServiceAddr` is back. -/
def fetched (w : RelayWorld) : Option ServiceAddr → Option StreamType × RelayWorld
  | some a => (none, { w.goto .sock with
      relay.relayEnable := true, relay.relayAddr := a, given := w.given ++ [⟨w.relay.stNcDev, a⟩] })
  | none => (some .locationFail, w.goto .top)

def replied (w : RelayWorld) : Reply → Option StreamType × RelayWorld
  | .ok => (some .running, w.goto .stream)
  | .offline =>
    if w.relay.service.asksAgain then (some .deviceOffline, { w.close with relay.relayEnable := false })
    else (some .startFail, w.close)
  | .refused => (some .startFail, w.close)

def streamed (w : RelayWorld) : StreamEvent → Option StreamType × RelayWorld
  | .broken => (some .broken, w.close)
  | .quiet => (none, w.goto .top)
  | .other => (none, w.stampStream.goto .top)
  | .media full => (none, { w.stampStream.goto .top with full := full })
  | .pbsEnd => (none, if w.relay.service.ends then w.goto .quit else w.stampStream.goto .top)

/-- What a step does, and the state it reports. -/
def move (w : RelayWorld) (a : RelayAct) : Option (Option StreamType × RelayWorld) :=
  match a, w.relay.pc with
  | .tick, _ => some (none, { w with tick := w.tick + 1 })
  | .location, _ => some (none, { w with locEnable := true })
  | .start s d, .none => some (none, w.start s d)
  | .stop, _ => some (none, { w with relay.state := false })
  | .join, .done => if w.relay.state then none else some (none, w.goto .none)
  | .drain, _ => some (none, { w with full := false })
  | .run, _ => w.run
  | .serviceAddr r, .fetch => some (w.fetched r)
  | .sock timedOut, .sock => some (
      if w.relay.sockLive then (none, w.goto .stream)
      else if timedOut then (some .connect, w.goto .connect)
      else (some .wait, w.goto .top))
  | .opened ok, .connect => some (
      if ok then (some .start, { w.use.goto .send with relay.sockLive := true })
      else (some .connectFail, w.use.goto .top))
  | .sent ok, .send => some (if ok then (none, w.use.goto .recv) else (some .startFail, w.use.close))
  | .reply r, .recv => some (w.replied r)
  | .stream e, .stream => some (w.streamed e)
  | _, _ => none

def say (w : RelayWorld) : Option StreamType → RelayWorld
  | some type => if w.relay.service.reports then w.doState type else w
  | none => w

def step (w : RelayWorld) (a : RelayAct) : Option RelayWorld := (w.move a).map fun r => r.2.say r.1

def init : RelayWorld :=
  ⟨⟨.none, .rts, false, ⟨[], [], []⟩, 0, 0, none, false, ⟨[], 0, []⟩, false⟩, 0, false, false, [], [], [], []⟩

/-- Each connection and START message used an address the server gave for the session's device, and
the session's stream holds every state it entered. -/
structure Fresh (w : RelayWorld) : Prop where
  used : ∀ u ∈ w.used, u ∈ w.given
  shown : w.shown = w.states

/-- A session starts with no address kept or one for its own device; its first state is not the one the
slot reported last, and there is room in the stream for each new one. -/
def SessionOk (w : RelayWorld) (a : RelayAct) : Prop :=
  (∀ s d, a = .start s d → w.relay.relayEnable = true → ⟨d, w.relay.relayAddr⟩ ∈ w.given) ∧
  ∀ type t, w.move a = some (some type, t) → w.relay.service.reports = true →
    (w.states = [] → w.relay.lastType ≠ some type) ∧ (w.relay.lastType ≠ some type → w.full = false)

/-! ## What every step keeps -/

/-- The thread has passed the test of `relay_enable`. -/
def Addressed (w : RelayWorld) : Prop :=
  w.relay.pc = .sock ∨ w.relay.pc = .connect ∨ w.relay.pc = .send ∨ w.relay.pc = .recv

structure Inv (w : RelayWorld) : Prop where
  used : ∀ u ∈ w.used, u ∈ w.given
  shown : w.shown = w.states
  last : ∀ s, w.states.getLast? = some s → w.relay.lastType = some s
  addr : w.relay.relayEnable = true → ⟨w.relay.stNcDev, w.relay.relayAddr⟩ ∈ w.given
  enabled : w.Addressed → w.relay.relayEnable = true

theorem inv_init : Inv init := ⟨nofun, rfl, nofun, nofun, fun h => by simp [Addressed, init] at h⟩

theorem inv_start {w : RelayWorld} (h : Inv w) (s : Service) {d : NcDev}
    (hd : w.relay.relayEnable = true → ⟨d, w.relay.relayAddr⟩ ∈ w.given) : Inv (w.start s d) :=
  ⟨h.used, rfl, nofun, hd, fun ha => by simp [Addressed, start] at ha⟩

theorem Inv.goto {w : RelayWorld} (h : Inv w) {pc : RelayPc} (hp : (w.goto pc).Addressed → w.relay.relayEnable = true) :
    Inv (w.goto pc) :=
  ⟨h.used, h.shown, h.last, h.addr, hp⟩

theorem Inv.top {w : RelayWorld} (h : Inv w) : Inv (w.goto .top) :=
  h.goto fun ha => by simp [Addressed, RelayWorld.goto] at ha

theorem Inv.close {w : RelayWorld} (h : Inv w) : Inv w.close :=
  ⟨h.used, h.shown, h.last, h.addr, fun ha => by simp [Addressed, RelayWorld.close] at ha⟩

theorem Inv.stampStream {w : RelayWorld} (h : Inv w) : Inv w.stampStream := by
  unfold RelayWorld.stampStream
  split
  · exact ⟨h.used, h.shown, h.last, h.addr, h.enabled⟩
  · exact h

theorem Inv.use {w : RelayWorld} (h : Inv w) (ha : w.Addressed) : Inv w.use where
  used u hu := by
    rcases List.mem_append.mp hu with hu | hu
    · exact h.used u hu
    · rw [List.mem_singleton.mp hu]
      exact h.addr (h.enabled ha)
  shown := h.shown
  last := h.last
  addr := h.addr
  enabled := h.enabled

/-- A state that is the session's first is not the slot's last one, and there is room for a new one. -/
theorem inv_doState {w : RelayWorld} (h : Inv w) {type : StreamType}
    (hf : w.states = [] → w.relay.lastType ≠ some type) (hr : w.relay.lastType ≠ some type → w.full = false) :
    Inv (w.doState type) := by
  by_cases hl : w.relay.lastType = some type
  · have hg : w.states.getLast? = some type := by
      cases hg : w.states.getLast? with
      | none => exact absurd hl (hf (List.getLast?_eq_none_iff.mp hg))
      | some s => rw [← h.last s hg, hl]
    have he : w.doState type = w := by simp only [doState, hg, hl, if_true]
    rw [he]
    exact h
  · have hg : w.states.getLast? ≠ some type := fun hg => hl (h.last type hg)
    simp only [doState, if_neg hg, if_neg hl, hr hl]
    refine ⟨h.used, ?_, ?_, h.addr, h.enabled⟩
    · exact congrArg (· ++ [type]) h.shown
    · intro s hs
      rw [← hs]
      exact (List.getLast?_concat ..).symm

/-- A step that reports a state leaves what `doState` looks at. -/
def Kept (w t : RelayWorld) : Prop :=
  t.states = w.states ∧ t.full = w.full ∧ t.relay.lastType = w.relay.lastType ∧ t.relay.service = w.relay.service

theorem kept_stampStream (w : RelayWorld) (pc : RelayPc) : Kept w (w.stampStream.goto pc) := by
  unfold stampStream
  split <;> exact ⟨rfl, rfl, rfl, rfl⟩

theorem inv_run {w : RelayWorld} (h : Inv w) {r : Option StreamType × RelayWorld} (hr : w.run = some r) :
    Inv r.2 ∧ (r.1 ≠ none → Kept w r.2) := by
  cases hp : w.relay.pc <;> simp only [run, hp] at hr
  case enter =>
    cases hr
    have ht := h.stampStream.top
    exact ⟨⟨ht.used, ht.shown, ht.last, ht.addr, ht.enabled⟩, nofun⟩
  case top =>
    split at hr
    · cases hr
      exact ⟨h.goto fun ha => by simp [Addressed, goto] at ha, nofun⟩
    · split at hr <;> cases hr
      · exact ⟨h.stampStream.goto fun ha => by simp [Addressed, goto] at ha, fun _ => kept_stampStream w _⟩
      · exact ⟨h.goto fun ha => by simp [Addressed, goto] at ha, nofun⟩
  case loc =>
    split at hr <;> cases hr
    · exact ⟨h.goto fun ha => by simp [Addressed, goto] at ha, nofun⟩
    · exact ⟨h.top, fun _ => ⟨rfl, rfl, rfl, rfl⟩⟩
  case enable =>
    split at hr
    · next he =>
      cases hr
      exact ⟨h.goto fun _ => he, nofun⟩
    · split at hr <;> cases hr
      · refine ⟨⟨h.used, h.shown, h.last, h.addr, ?_⟩, fun _ => ⟨rfl, rfl, rfl, rfl⟩⟩
        intro ha
        simp [Addressed, goto] at ha
      · exact ⟨h.top, fun _ => ⟨rfl, rfl, rfl, rfl⟩⟩
  case quit =>
    cases hr
    refine ⟨⟨h.used, h.shown, h.last, h.addr, ?_⟩, nofun⟩
    intro ha
    simp [Addressed, goto] at ha
  all_goals cases hr

theorem inv_fetched {w : RelayWorld} (h : Inv w) (a : Option ServiceAddr) :
    Inv (w.fetched a).2 ∧ ((w.fetched a).1 ≠ none → Kept w (w.fetched a).2) := by
  cases a with
  | none => exact ⟨h.top, fun _ => ⟨rfl, rfl, rfl, rfl⟩⟩
  | some a =>
    refine ⟨⟨?_, h.shown, h.last, ?_, fun _ => rfl⟩, nofun⟩
    · intro u hu
      exact List.mem_append_left _ (h.used u hu)
    · intro _
      exact List.mem_append_right _ (List.mem_singleton.mpr rfl)

theorem inv_replied {w : RelayWorld} (h : Inv w) (r : Reply) :
    Inv (w.replied r).2 ∧ ((w.replied r).1 ≠ none → Kept w (w.replied r).2) := by
  cases r with
  | ok => exact ⟨h.goto fun ha => by simp [Addressed, goto] at ha, fun _ => ⟨rfl, rfl, rfl, rfl⟩⟩
  | refused => exact ⟨h.close, fun _ => ⟨rfl, rfl, rfl, rfl⟩⟩
  | offline =>
    cases hs : w.relay.service.asksAgain <;> simp only [replied, hs]
    · exact ⟨h.close, fun _ => ⟨rfl, rfl, rfl, rfl⟩⟩
    · refine ⟨⟨h.used, h.shown, h.last, nofun, ?_⟩, fun _ => ⟨rfl, rfl, rfl, rfl⟩⟩
      intro ha
      simp [Addressed, RelayWorld.close] at ha

theorem inv_streamed {w : RelayWorld} (h : Inv w) (e : StreamEvent) :
    Inv (w.streamed e).2 ∧ ((w.streamed e).1 ≠ none → Kept w (w.streamed e).2) := by
  have ht := h.stampStream.top
  cases e with
  | broken => exact ⟨h.close, fun _ => ⟨rfl, rfl, rfl, rfl⟩⟩
  | quiet => exact ⟨h.top, nofun⟩
  | other => exact ⟨ht, nofun⟩
  | media full => exact ⟨⟨ht.used, ht.shown, ht.last, ht.addr, ht.enabled⟩, nofun⟩
  | pbsEnd =>
    refine ⟨?_, nofun⟩
    show Inv (if _ then _ else _)
    split
    · exact h.goto fun ha => by simp [Addressed, goto] at ha
    · exact ht

theorem inv_move {w : RelayWorld} (h : Inv w) {a : RelayAct} {r : Option StreamType × RelayWorld}
    (hd : ∀ s d, a = .start s d → w.relay.relayEnable = true → ⟨d, w.relay.relayAddr⟩ ∈ w.given)
    (hm : w.move a = some r) : Inv r.2 ∧ (r.1 ≠ none → Kept w r.2) := by
  cases a with
  | tick => cases hm; exact ⟨⟨h.used, h.shown, h.last, h.addr, h.enabled⟩, nofun⟩
  | location => cases hm; exact ⟨⟨h.used, h.shown, h.last, h.addr, h.enabled⟩, nofun⟩
  | stop => cases hm; exact ⟨⟨h.used, h.shown, h.last, h.addr, h.enabled⟩, nofun⟩
  | drain => cases hm; exact ⟨⟨h.used, h.shown, h.last, h.addr, h.enabled⟩, nofun⟩
  | run => exact inv_run h hm
  | start s d =>
    cases hp : w.relay.pc <;> simp only [move, hp] at hm <;> cases hm
    exact ⟨inv_start h s (hd s d rfl), nofun⟩
  | join =>
    cases hp : w.relay.pc <;> simp only [move, hp] at hm <;> try cases hm
    split at hm <;> cases hm
    exact ⟨h.goto fun ha => by simp [Addressed, goto] at ha, nofun⟩
  | serviceAddr x =>
    cases hp : w.relay.pc <;> simp only [move, hp] at hm <;> cases hm
    exact inv_fetched h x
  | sock timedOut =>
    cases hp : w.relay.pc <;> simp only [move, hp] at hm <;> cases hm
    have he : w.relay.relayEnable = true := h.enabled (.inl hp)
    split
    · exact ⟨h.goto fun _ => he, nofun⟩
    · split
      · exact ⟨h.goto fun _ => he, fun _ => ⟨rfl, rfl, rfl, rfl⟩⟩
      · exact ⟨h.top, fun _ => ⟨rfl, rfl, rfl, rfl⟩⟩
  | opened ok =>
    cases hp : w.relay.pc <;> simp only [move, hp] at hm <;> cases hm
    have ha : w.Addressed := .inr (.inl hp)
    have hu := h.use ha
    cases ok
    · exact ⟨hu.top, fun _ => ⟨rfl, rfl, rfl, rfl⟩⟩
    · exact ⟨⟨hu.used, hu.shown, hu.last, hu.addr, fun _ => h.enabled ha⟩, fun _ => ⟨rfl, rfl, rfl, rfl⟩⟩
  | sent ok =>
    cases hp : w.relay.pc <;> simp only [move, hp] at hm <;> cases hm
    have ha : w.Addressed := .inr (.inr (.inl hp))
    have hu := h.use ha
    cases ok
    · exact ⟨hu.close, fun _ => ⟨rfl, rfl, rfl, rfl⟩⟩
    · exact ⟨hu.goto fun _ => h.enabled ha, nofun⟩
  | reply x =>
    cases hp : w.relay.pc <;> simp only [move, hp] at hm <;> cases hm
    exact inv_replied h x
  | stream e =>
    cases hp : w.relay.pc <;> simp only [move, hp] at hm <;> cases hm
    exact inv_streamed h e

theorem inv_step {w t : RelayWorld} {a : RelayAct} (h : Inv w) (hok : w.SessionOk a) (hs : step w a = some t) :
    Inv t := by
  obtain ⟨hd, hsay⟩ := hok
  obtain ⟨⟨said, u⟩, hm, rfl⟩ := Option.map_eq_some_iff.mp hs
  obtain ⟨hi, hk⟩ := inv_move h hd hm
  cases said with
  | none => exact hi
  | some type =>
    obtain ⟨hst, hfull, hlast, hserv⟩ := hk nofun
    show Inv (if u.relay.service.reports = true then u.doState type else u)
    split
    · next hrep =>
      rw [hserv] at hrep
      obtain ⟨hf, hr⟩ := hsay type u hm hrep
      rw [← hlast] at hf hr
      rw [← hst] at hf
      rw [← hfull] at hr
      exact inv_doState hi hf hr
    · exact hi

/-- **Relay sessions start clean** in every run where a session finds no address kept, or one for its
own device, does not begin with the state the slot reported last, and has room in its stream. -/
theorem sessions_fresh (as : List RelayAct) (h : Meets step SessionOk init as) : Reached step Fresh init as := by
  apply reached_of_meets (I := Inv)
  · intro w a t hi hok hs
    exact inv_step hi hok hs
  · intro w hi
    exact ⟨hi.used, hi.shown⟩
  · exact inv_init
  · exact h

/-- On a slot's first session, and while the stream has room, only a start can go wrong. -/
theorem ok_of_room {w : RelayWorld} {a : RelayAct} (hf : w.full = false)
    (hl : w.states = [] → w.relay.lastType = none) (hd : ∀ s d, a = .start s d → w.relay.relayEnable = false) :
    w.SessionOk a := by
  constructor
  · intro s d ha he
    rw [hd s d ha] at he
    cases he
  · intro type t _ _
    refine ⟨?_, fun _ => hf⟩
    intro hs
    rw [hl hs]
    exact nofun

/-- A first session, up to its START message. -/
theorem sessions_once : Reached step Fresh init
    [.location, .start .rts SlotWorld.door, .run, .run, .run, .run, .serviceAddr (some ⟨[1], 80, [2]⟩), .sock true,
      .opened true, .sent true] := by
  apply sessions_fresh
  refine Meets.cons (ok_of_room rfl (fun _ => rfl) nofun) rfl ?_
  refine Meets.cons (ok_of_room rfl (fun _ => rfl) fun _ _ _ => rfl) rfl ?_
  refine Meets.cons (ok_of_room rfl (fun _ => rfl) nofun) rfl (Meets.cons (ok_of_room rfl (fun _ => rfl) nofun) rfl ?_)
  refine Meets.cons (ok_of_room rfl (fun _ => rfl) nofun) rfl (Meets.cons (ok_of_room rfl (fun _ => rfl) nofun) rfl ?_)
  refine Meets.cons (ok_of_room rfl nofun nofun) rfl (Meets.cons (ok_of_room rfl nofun nofun) rfl ?_)
  exact Meets.cons (ok_of_room rfl nofun nofun) rfl (Meets.cons (ok_of_room rfl nofun nofun) rfl trivial)

/-- The second session goes to the first device's address; and a slot that never found the server
tells only the first session so. -/
theorem sessions_stale :
    (∃ t, exec step init [.location, .start .rts SlotWorld.door, .run, .run, .run, .run,
        .serviceAddr (some ⟨[1], 80, [2]⟩), .stop, .sock false, .run, .run, .join,
        .start .rts SlotWorld.gate, .run, .run, .run, .run, .sock true, .opened true] = some t ∧
      t.given = [⟨SlotWorld.door, ⟨[1], 80, [2]⟩⟩] ∧ t.used = [⟨SlotWorld.gate, ⟨[1], 80, [2]⟩⟩] ∧ ¬ t.Fresh) ∧
    ∃ t, exec step init [.start .rts SlotWorld.door, .run, .run, .run, .stop, .run, .run, .join,
        .start .rts SlotWorld.gate, .run, .run, .run] = some t ∧
      t.states = [.postion] ∧ t.shown = [] ∧ ¬ t.Fresh := by
  refine ⟨⟨_, rfl, rfl, rfl, ?_⟩, ⟨_, rfl, rfl, rfl, ?_⟩⟩
  · intro h
    have hu := h.used _ (List.mem_singleton.mpr rfl)
    exact absurd (List.mem_singleton.mp hu) (by decide)
  · intro h
    exact absurd h.shown (by decide)

end RelayWorld

end Cloud

end SabApp
