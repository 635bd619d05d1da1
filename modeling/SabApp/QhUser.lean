import SabApp.Runs

/-!
# A user slot of the QH client (nc_qh.c)

A start call binds the slot to a live view, a playback, a talk or an alarm subscription and creates the
session thread, and for the first two a play thread. The session thread connects, logs in and serves
the device; callers leave it requests in the slot's flags, and `nc_qh_user_doState` reports the
session's states. A step is one access to what the threads share; only the
session thread keeps the mutex from one step to the next.
-/

namespace SabApp

namespace Qh

/-- The PTC_CMD_*_BASE that a slot is started with. -/
inductive CmdBase where
  | rts
  | pbs
  | talk
  | alarm
  deriving DecidableEq

/-- The `PTC_FRAME_STREAM_*` types that `nc_qh_user_doState` is called with. -/
inductive StreamState where
  | timeout
  | wait
  | connect
  | connectFail
  | login
  | loginFail
  | authFail
  | talkBusy
  | videoBusy
  | start
  | startFail
  | running
  | broken
  deriving DecidableEq

/-- The playback commands. -/
inductive Control where
  | pos (v : UInt32)
  | pause
  | restart
  | speed (v : Int32)
  deriving DecidableEq

/-- What callers ask for through a slot. -/
inductive Request where
  | keyFrame
  | control (c : Control)
  deriving DecidableEq

/-- `pbs_pos`, `pbs_pause`, `pbs_restart` and `pbs_speed`, in the order of their tests. -/
inductive Flag where
  | pos
  | pause
  | restart
  | speed
  deriving DecidableEq

namespace Flag

def next : Flag → Option Flag
  | pos => some pause
  | pause => some restart
  | restart => some speed
  | speed => none

end Flag

/-- What the answer to the login message is, or why there is none. -/
inductive LoginReply where
  | ok
  | sendFail
  | recvFail
  | otherCmd
  | errorAuth
  | errorBusy

inductive RecvEvent where
  | broken
  | frame
  | pbsEnd

/-- Where the session thread stands. -/
inductive UserPc where
  | off
  | top
  | live
  | connect
  | auth
  | loggedIn (ok : Bool)
  | start
  | lock
  | key
  | flush (f : Flag)
  | beat
  | recv
  | quit
  deriving DecidableEq

/-- Where the play thread stands. -/
inductive PlayPc where
  | off
  | enter
  | read
  | quit
  deriving DecidableEq

/-- `nc_qh_user_t`. No state has been reported yet when `last_type` is 0; a callback is known
by the number of the start call that set it. -/
structure UserSlot where
  isUsed : Bool
  type : CmdBase
  state : Bool
  cb : Option ℕ
  rtsKeyFlag : Bool
  pbsEndFlag : Bool
  pbsPos : UInt32
  pbsPause : Bool
  pbsRestart : Bool
  pbsSpeed : Int32
  sockLive : Bool
  lastType : Option StreamState

/-- The slot's history, latest first. -/
inductive Entry where
  /-- A start call. -/
  | began
  | asked (r : Request)
  | sent (r : Request)
  /-- A live view's start message was answered. -/
  | streamStart
  deriving DecidableEq

namespace CmdBase

/-- The types with a stream and a play thread. -/
def streams (t : CmdBase) : Bool := t = rts || t = pbs

/-- The types `nc_qh_user_doState` reports for. -/
def reports (t : CmdBase) : Bool := t ≠ alarm

/-- The state on a connection that breaks. -/
def onBroken : CmdBase → List StreamState
  | rts => [.broken]
  | pbs => [.wait]
  | _ => []

def onlyStreams (t : CmdBase) (s : StreamState) : List StreamState := if t.streams then [s] else []

/-- Where the thread goes from the connection, the mutex and the heartbeat on: `nc_qh_user_doRts` looks at its
flag before the heartbeat, `nc_qh_user_doPbs` after it. -/
def afterConnect : CmdBase → UserPc
  | rts => .lock
  | _ => .beat

def afterLock : CmdBase → UserPc
  | rts => .key
  | _ => .flush .pos

def afterUnlock : CmdBase → UserPc
  | rts => .beat
  | _ => .recv

def afterBeat : CmdBase → UserPc
  | pbs => .lock
  | _ => .recv

end CmdBase

namespace UserSlot

def pending (u : UserSlot) : Flag → Option Control
  | .pos => if u.pbsPos ≠ 0 then some (.pos u.pbsPos) else none
  | .pause => if u.pbsPause then some .pause else none
  | .restart => if u.pbsRestart then some .restart else none
  | .speed => if u.pbsSpeed ≠ 0 then some (.speed u.pbsSpeed) else none

def clear (u : UserSlot) : Flag → UserSlot
  | .pos => { u with pbsPos := 0 }
  | .pause => { u with pbsPause := false }
  | .restart => { u with pbsRestart := false }
  | .speed => { u with pbsSpeed := 0 }

/-- `nc_qh_forceRtsKeyFrame`, `nc_qh_setPbsPos`, `nc_qh_pausePbs`, `nc_qh_restartPbs` and
`nc_qh_setPbsSpeed` under the mutex. -/
def set (u : UserSlot) : Request → UserSlot
  | .keyFrame => { u with rtsKeyFlag := true }
  | .control (.pos v) => { u with pbsPos := v }
  | .control .pause => { u with pbsPause := true }
  | .control .restart => { u with pbsRestart := true }
  | .control (.speed v) => { u with pbsSpeed := v }

end UserSlot

/-- The range check in `nc_qh_setPbsSpeed`; the other calls have none. -/
def Request.accepted : Request → Bool
  | .control (.speed v) => -3 ≤ v ∧ v ≤ 3
  | _ => true

/-- The slot with its threads. `todo` are the states the session thread reports before it goes on, `ring` the
state frames between the play thread's position and the end of the stream. The history is in `log`;
`states` are the states the session went through and `shown` what the callbacks got. -/
structure UserWorld where
  user : UserSlot
  pc : UserPc
  todo : List StreamState
  locked : Bool
  play : PlayPc
  ring : List StreamState
  starts : ℕ
  log : List Entry
  states : List StreamState
  shown : List (ℕ × StreamState)

inductive UserAct where
  | start (t : CmdBase)
  | stop
  | join
  | call (r : Request)
  /-- The next `nc_qh_user_doState`, with room in the stream or not. -/
  | report (room : Bool)
  /-- The session thread's next test or message, with its outcome. -/
  | run (b : Bool)
  | reply (r : LoginReply)
  | recv (e : RecvEvent)
  | initReadPos
  | get
  | playQuit

namespace UserWorld

/-- Begins after the memset in `nc_qh_init`. -/
def init : UserWorld where
  user := ⟨false, .rts, false, none, false, false, 0, false, false, 0, false, none⟩
  pc := .off
  todo := []
  locked := false
  play := .off
  ring := []
  starts := 0
  log := []
  states := []
  shown := []

def goto (w : UserWorld) (pc : UserPc) (todo : List StreamState) : UserWorld := { w with pc, todo }

/-- `tool_sock_item_close` and the way back to the loop's head. -/
def close (w : UserWorld) (todo : List StreamState) : UserWorld :=
  { w with user.sockLive := false, locked := false, pc := .top, todo }

/-- `nc_qh_user_start` on the slot once it is free. -/
def start (w : UserWorld) (t : CmdBase) : UserWorld :=
  { w with
    user := { w.user with isUsed := true, type := t, state := true, cb := some w.starts,
                          pbsEndFlag := if t = .pbs then false else w.user.pbsEndFlag }
    pc := .top
    todo := []
    play := if t.streams then .enter else .off
    ring := []
    starts := w.starts + 1
    log := .began :: w.log
    states := [] }

/-- The end of `nc_qh_user_stop`, after the threads have been joined. -/
def join (w : UserWorld) : UserWorld :=
  { w with user := { w.user with isUsed := false, cb := none }, pc := .off, play := .off, ring := [] }

def call (w : UserWorld) (r : Request) : UserWorld :=
  if r.accepted then { w with user := w.user.set r, log := .asked r :: w.log } else w

/-- `user->cb(user->user_id, &head, ..)` if there is a callback. -/
def toCb (w : UserWorld) (s : StreamState) : UserWorld :=
  match w.user.cb with
  | some n => { w with shown := w.shown ++ [(n, s)] }
  | none => w

/-- The part of `nc_qh_user_doState` after its test. -/
def notify (w : UserWorld) (s : StreamState) (room : Bool) : UserWorld :=
  if w.user.type.streams then { w with ring := if room then w.ring ++ [s] else w.ring }
  else if w.user.type = .talk then w.toCb s
  else w

def enter (w : UserWorld) (s : StreamState) : UserWorld :=
  { w with states := if w.states.getLast? = some s then w.states else w.states ++ [s] }

def reported (w : UserWorld) (s : StreamState) : UserWorld := { w with user.lastType := some s }

/-- `nc_qh_user_doState`. -/
def doState (w : UserWorld) (s : StreamState) (room : Bool) : UserWorld :=
  if w.user.lastType = some s then w.enter s else ((w.enter s).notify s room).reported s

def serve (w : UserWorld) (todo : List StreamState) : UserWorld := w.goto w.user.type.afterConnect todo

/-- The start message was answered. -/
def started (w : UserWorld) : UserWorld :=
  { w with log := if w.user.type = .rts then .streamStart :: w.log else w.log }

def unlock (w : UserWorld) : UserWorld := { w with locked := false, pc := w.user.type.afterUnlock }

def afterFlag (w : UserWorld) (f : Flag) : UserWorld :=
  match f.next with
  | some g => w.goto (.flush g) []
  | none => w.unlock

/-- The session thread at its next test or message; `b` says that a time is up or that a socket call succeeds. -/
def run (w : UserWorld) (b : Bool) : Option UserWorld :=
  match w.pc with
  | .top =>
    if w.user.state then some (w.goto .live (if b then w.user.type.onlyStreams .timeout else []))
    -- `nc_qh_user_logout`
    else some { w with user.sockLive := false, pc := .quit }
  | .live =>
    if w.user.type = .pbs ∧ w.user.pbsEndFlag then some (w.goto .top [])
    else if w.user.sockLive then some (w.serve [])
    else if b then some (w.goto .connect [.connect])
    else some (w.goto .top (w.user.type.onlyStreams .wait))
  | .connect =>
    if b then some { w with user.sockLive := true, pc := .auth, todo := [.login] }
    else some (w.goto .top [.connectFail])
  | .loggedIn ok =>
    let w := { w with user.rtsKeyFlag := true, user.sockLive := ok }
    if ok = false then some (w.goto .top [])
    else if w.user.type = .alarm then some (w.serve [])
    else some (w.goto .start (w.user.type.onlyStreams .start))
  | .start =>
    if b then some (w.started.serve (w.user.type.onlyStreams .running))
    else some (w.close (w.user.type.onlyStreams .startFail))
  | .lock => some { w with locked := true, pc := w.user.type.afterLock }
  | .key =>
    if w.user.rtsKeyFlag then
      if b then some { w.unlock with user.rtsKeyFlag := false, log := .sent .keyFrame :: w.log }
      else some (w.close w.user.type.onBroken)
    else some w.unlock
  | .flush f =>
    match w.user.pending f with
    | some c =>
      if b then some ({ w with user := w.user.clear f, log := .sent (.control c) :: w.log }.afterFlag f)
      else some (w.close w.user.type.onBroken)
    | none => some (w.afterFlag f)
  -- the heartbeat, or a talk's next piece of sound
  | .beat =>
    if b then some (w.goto w.user.type.afterBeat [])
    else some (w.close w.user.type.onBroken)
  | _ => none

/-- The last part of `nc_qh_user_login`; an alarm subscription takes a busy device for a success. -/
def reply (w : UserWorld) (r : LoginReply) : UserWorld :=
  match r with
  | .ok => w.goto (.loggedIn true) []
  | .errorAuth => w.goto (.loggedIn false) [.authFail]
  | .errorBusy =>
    match w.user.type with
    | .talk => w.goto (.loggedIn false) [.talkBusy]
    | .alarm => w.goto (.loggedIn true) []
    | _ => w.goto (.loggedIn false) [.videoBusy]
  | _ => w.goto (.loggedIn false) [.loginFail]

def recv (w : UserWorld) (e : RecvEvent) : UserWorld :=
  match e with
  | .broken => w.close w.user.type.onBroken
  | .frame => w.goto .top []
  | .pbsEnd => if w.user.type = .pbs then { w.close [] with user.pbsEndFlag := true } else w.goto .top []

def step (w : UserWorld) : UserAct → Option UserWorld
  | .start t => if w.user.isUsed = false then some (w.start t) else none
  | .stop => some { w with user.state := false }
  | .join =>
    if w.user.isUsed ∧ w.user.state = false ∧ w.pc = .quit ∧ (w.user.type.streams → w.play = .quit) then
      some w.join
    else none
  | .call r => if w.locked then none else some (w.call r)
  | .report room =>
    match w.todo with
    | s :: rest => some ({ w with todo := rest }.doState s room)
    | [] => none
  | .run b => if w.todo = [] then w.run b else none
  | .reply r => if w.todo = [] ∧ w.pc = .auth then some (w.reply r) else none
  | .recv e => if w.todo = [] ∧ w.pc = .recv then some (w.recv e) else none
  -- `tool_stream3_initReadPos` moves the position to the end of the stream
  | .initReadPos => if w.play = .enter then some { w with play := .read, ring := [] } else none
  | .get =>
    match w.play, w.ring with
    | .read, s :: rest => some ({ w with ring := rest }.toCb s)
    | _, _ => none
  | .playQuit => if w.play = .read ∧ w.user.state = false then some { w with play := .quit } else none

/-- What a step does to the requests and the history. -/
inductive Effect (w : UserWorld) (a : UserAct) (t : UserWorld) : Prop where
  | quiet (log : t.log = w.log) (pending : t.user.pending = w.user.pending)
      (key : w.user.rtsKeyFlag = true → t.user.rtsKeyFlag = true) (type : t.user.type = w.user.type)
  | began (k : CmdBase) (act : a = .start k) (log : t.log = .began :: w.log)
      (pending : t.user.pending = w.user.pending) (key : t.user.rtsKeyFlag = w.user.rtsKeyFlag)
      (type : t.user.type = k)
  | asked (r : Request) (act : a = .call r) (log : t.log = .asked r :: w.log) (user : t.user = w.user.set r)
  | key (log : t.log = .sent .keyFrame :: w.log) (pending : t.user.pending = w.user.pending)
      (type : t.user.type = w.user.type)
  | control (f : Flag) (c : Control) (act : ∃ b, a = .run b) (pc : w.pc = .flush f)
      (flagged : w.user.pending f = some c) (log : t.log = .sent (.control c) :: w.log)
      (user : t.user = w.user.clear f)
  | streamStart (log : t.log = .streamStart :: w.log) (pending : t.user.pending = w.user.pending)
      (key : t.user.rtsKeyFlag = w.user.rtsKeyFlag) (type : t.user.type = w.user.type)

section Simp

variable (w : UserWorld)

@[simp] theorem goto_user (pc : UserPc) (todo : List StreamState) : (w.goto pc todo).user = w.user := rfl
@[simp] theorem goto_pc (pc : UserPc) (todo : List StreamState) : (w.goto pc todo).pc = pc := rfl
@[simp] theorem close_pc (todo : List StreamState) : (w.close todo).pc = .top := rfl
@[simp] theorem serve_log (todo : List StreamState) : (w.serve todo).log = w.log := rfl

@[simp] theorem afterFlag_user (f : Flag) : (w.afterFlag f).user = w.user := by cases f <;> rfl
@[simp] theorem afterFlag_log (f : Flag) : (w.afterFlag f).log = w.log := by cases f <;> rfl

@[simp] theorem toCb_user (s : StreamState) : (w.toCb s).user = w.user := by unfold toCb; split <;> rfl
@[simp] theorem toCb_log (s : StreamState) : (w.toCb s).log = w.log := by unfold toCb; split <;> rfl
@[simp] theorem toCb_pc (s : StreamState) : (w.toCb s).pc = w.pc := by unfold toCb; split <;> rfl
@[simp] theorem toCb_locked (s : StreamState) : (w.toCb s).locked = w.locked := by unfold toCb; split <;> rfl

@[simp] theorem set_type (u : UserSlot) (r : Request) : (u.set r).type = u.type := by
  rcases r with _ | c
  · rfl
  · cases c <;> rfl

@[simp] theorem call_pc (r : Request) : (w.call r).pc = w.pc := by unfold call; split <;> rfl
@[simp] theorem call_type (r : Request) : (w.call r).user.type = w.user.type := by unfold call; split <;> simp

theorem reply_pc (r : LoginReply) : ∃ ok, (w.reply r).pc = .loggedIn ok := by
  cases r with
  | ok => exact ⟨true, rfl⟩
  | errorBusy =>
    cases ht : w.user.type with
    | alarm => exact ⟨true, by simp [reply, ht]⟩
    | _ => exact ⟨false, by simp [reply, ht]⟩
  | _ => exact ⟨false, rfl⟩

@[simp] theorem recv_pc (e : RecvEvent) : (w.recv e).pc = .top := by
  cases e with
  | pbsEnd => simp only [recv]; split <;> rfl
  | _ => rfl

theorem doState_frame (s : StreamState) (room : Bool) :
    (w.doState s room).log = w.log ∧ (w.doState s room).pc = w.pc ∧ (w.doState s room).locked = w.locked ∧
      (w.doState s room).user = { w.user with lastType := some s } := by
  by_cases hl : w.user.lastType = some s
  · rw [doState, if_pos hl]
    exact ⟨rfl, rfl, rfl, by rw [← hl]; rfl⟩
  · rw [doState, if_neg hl, notify]
    split
    · exact ⟨rfl, rfl, rfl, rfl⟩
    split
    · simp [reported, enter]
    · exact ⟨rfl, rfl, rfl, rfl⟩

end Simp

theorem run_effect {w t : UserWorld} {b : Bool} (h : w.run b = some t) : Effect w (.run b) t := by
  cases hp : w.pc with
  | off => simp [run, hp] at h
  | top =>
    simp only [run, hp] at h
    split at h <;> cases h <;> exact .quiet rfl rfl id rfl
  | live =>
    simp only [run, hp] at h
    split at h
    · cases h; exact .quiet rfl rfl id rfl
    split at h
    · cases h; exact .quiet rfl rfl id rfl
    split at h <;> cases h <;> exact .quiet rfl rfl id rfl
  | connect =>
    simp only [run, hp] at h
    split at h <;> cases h <;> exact .quiet rfl rfl id rfl
  | auth => simp [run, hp] at h
  | loggedIn ok =>
    simp only [run, hp] at h
    split at h
    · cases h; exact .quiet rfl rfl (fun _ => rfl) rfl
    split at h <;> cases h <;> exact .quiet rfl rfl (fun _ => rfl) rfl
  | start =>
    simp only [run, hp] at h
    split at h
    · by_cases ht : w.user.type = .rts
      · cases h; exact .streamStart (by simp [started, ht]) rfl rfl rfl
      · cases h; exact .quiet (by simp [started, ht]) rfl id rfl
    · cases h; exact .quiet rfl rfl id rfl
  | lock =>
    simp only [run, hp] at h
    cases h; exact .quiet rfl rfl id rfl
  | key =>
    simp only [run, hp] at h
    split at h
    · split at h
      · cases h; exact .key rfl rfl rfl
      · cases h; exact .quiet rfl rfl id rfl
    · cases h; exact .quiet rfl rfl id rfl
  | flush f =>
    simp only [run, hp] at h
    cases hf : w.user.pending f with
    | none =>
      simp only [hf] at h
      cases h; exact .quiet (by simp) (by simp) (by simp) (by simp)
    | some c =>
      simp only [hf] at h
      split at h
      · cases h; exact .control f c ⟨b, rfl⟩ hp hf (by simp) (by simp)
      · cases h; exact .quiet rfl rfl id rfl
  | beat =>
    simp only [run, hp] at h
    split at h <;> cases h <;> exact .quiet rfl rfl id rfl
  | recv => simp [run, hp] at h
  | quit => simp [run, hp] at h

theorem step_effect {w t : UserWorld} {a : UserAct} (h : step w a = some t) : Effect w a t := by
  cases a with
  | start k =>
    simp only [step] at h
    split at h
    · cases h; exact .began k rfl rfl rfl rfl rfl
    · cases h
  | stop => cases h; exact .quiet rfl rfl id rfl
  | join =>
    simp only [step] at h
    split at h
    · cases h; exact .quiet rfl rfl id rfl
    · cases h
  | call r =>
    simp only [step, call] at h
    split at h
    · cases h
    split at h <;> cases h
    · exact .asked r rfl rfl rfl
    · exact .quiet rfl rfl id rfl
  | report room =>
    cases ht : w.todo with
    | nil => simp [step, ht] at h
    | cons s rest =>
      simp only [step, ht, Option.some.injEq] at h
      obtain ⟨hl, -, -, hu⟩ := doState_frame { w with todo := rest } s room
      subst h
      exact .quiet hl (by rw [hu]; rfl) (by rw [hu]; exact id) (by rw [hu])
  | run b =>
    simp only [step] at h
    split at h
    · exact run_effect h
    · cases h
  | reply r =>
    simp only [step] at h
    split at h
    · cases h
      cases r <;> try exact .quiet rfl rfl id rfl
      cases ht : w.user.type <;> simp only [reply, ht] <;> exact .quiet rfl rfl id rfl
    · cases h
  | recv e =>
    simp only [step] at h
    split at h
    · cases h
      cases e <;> simp only [recv]
      · exact .quiet rfl rfl id rfl
      · exact .quiet rfl rfl id rfl
      · split <;> exact .quiet rfl rfl id rfl
    · cases h
  | initReadPos =>
    simp only [step] at h
    split at h <;> cases h
    exact .quiet rfl rfl id rfl
  | get =>
    simp only [step] at h
    split at h
    · cases h
      exact .quiet (by simp) (by simp) (by simp) (by simp)
    · cases h
  | playQuit =>
    simp only [step] at h
    split at h <;> cases h
    exact .quiet rfl rfl id rfl
end UserWorld

end Qh

end SabApp
