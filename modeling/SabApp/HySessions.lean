import Mathlib.Data.List.Sublists
import SabApp.PtcFrame
import SabApp.Runs
import SabApp.Stream3

/-!
# Playback sessions of an HY device

A device has one playback connection, one receive thread and one play thread for all sessions.
`nc_hy_dev_startPbs` and `nc_hy_dev_stopPbs` only change the record, the callback and
`cur_pbs_enable`; the login thread tells the device. The receive thread drops what arrives while
playback is off and waits for the first second of the record; once it has, `start_flag` lets
everything pass until it sees a frame while playback is off. The play thread gives up what the
ring holds when it takes a frame while playback is off.

The bytes on their way are a list of whole frames here, as the reader of the connection hands them
on, and the ring is the list of what was stored and not yet taken.
-/

namespace SabApp

namespace Hy

/-- `ptc_cfg_record_t`. -/
structure PbsRecord where
  startTime : UInt32
  endTime : UInt32

/-- A frame of the device, with the session it was sent for. -/
structure PbsFrame where
  head : FrameHead
  session : ℕ
  deriving DecidableEq

inductive PbsItem where
  | frame (f : PbsFrame)
  /-- `nc_hy_pbs_doState` -/
  | state (type : UInt8)
  deriving DecidableEq

def PbsItem.session : PbsItem → Option ℕ
  | frame f => some f.session
  | state _ => none

/-- The messages of `nc_hy_dev_doPbs`; the record of a start is that of a session. -/
inductive PbsMsg where
  | stop
  | start (session : ℕ)

def PbsMsg.session : PbsMsg → Option ℕ
  | stop => none
  | start s => some s

/-- Where the receive thread stands with a frame: which tests of `nc_hy_dev_runRecvPbs` it has passed. -/
inductive RecvPc where
  | ended
  | top
  | fresh (f : PbsFrame)
  | active (f : PbsFrame)
  | enabled (f : PbsFrame)
  | started (f : PbsFrame)
  | keyed (f : PbsFrame)

/-- Where the play thread stands: which tests of `nc_hy_dev_runPlayPbs` it has passed. -/
inductive PlayPc where
  | ended
  | start
  | top
  | got (i : PbsItem)
  | active (i : PbsItem)
  | enabled (i : PbsItem)
  | calling (i : PbsItem)

/-- Where the login thread stands in `nc_hy_dev_doPbs`, with its copy of `cur_pbs_enable` and of the
record. -/
inductive DoPbsPc where
  | loggedOut
  | idle
  | copied (enable : Bool) (session : ℕ)
  | stopped (enable : Bool) (session : ℕ)
  | started

namespace RecvPc

/-- A frame held and not yet past the test of the first second. -/
def coming : RecvPc → List ℕ
  | fresh f | active f | enabled f => [f.session]
  | _ => []

/-- The frame whose second is tested next. -/
def tested : RecvPc → Option PbsFrame
  | enabled f => some f
  | _ => none

def passed : RecvPc → List PbsItem
  | started f | keyed f => [.frame f]
  | _ => []

end RecvPc

def PlayPc.held : PlayPc → List PbsItem
  | got i | active i | enabled i | calling i => [i]
  | _ => []

/-- The session of the start that is still to be sent. -/
def DoPbsPc.coming : DoPbsPc → List ℕ
  | copied true s | stopped true s => [s]
  | _ => []

/-- The playback fields of `nc_hy_dev_t`, the threads, the connections and the device. The sessions are
numbered by the calls of startPbs that opened them. -/
structure SessionWorld where
  state : Bool
  active : Bool
  curPbsEnable : Bool
  errorFlag : Bool
  startFlag : Bool
  keyFlag : Bool
  record : PbsRecord
  /-- The callback and its parameter, as the session they were given for. -/
  cb : Option ℕ
  recv : RecvPc
  play : PlayPc
  doPbs : DoPbsPc
  ring : List PbsItem
  /-- Frames the device has sent and the receive thread has not taken. -/
  sock : List PbsFrame
  msgs : List PbsMsg
  playing : Option ℕ
  /-- Calls of startPbs that have seen `active` at 0. -/
  waited : ℕ
  session : ℕ
  /-- The calls of a callback: whose it was, and what it was given. -/
  outs : List (ℕ × PbsItem)

inductive SessionAct where
  | wait
  | startPbs (record : PbsRecord) (cb : Bool)
  | stopPbs
  | login
  | logout
  | doPbs
  | devTake
  | devSend (head : FrameHead)
  | recvState (type : UInt8) (room : Bool)
  | recvFail
  /-- The receive thread's next step; the ring has room, should it ask. -/
  | recv (room : Bool)
  | play

namespace SessionWorld

/-- The wait of `nc_hy_dev_startPbs` ends. -/
def wait (w : SessionWorld) : Option SessionWorld :=
  if w.active then none else some { w with waited := w.waited + 1 }

/-- `nc_hy_dev_startPbs` under the mutex. -/
def startPbs (w : SessionWorld) (record : PbsRecord) (cb : Bool) : Option SessionWorld :=
  if w.waited = 0 then none
  else if w.curPbsEnable then some { w with waited := w.waited - 1 }
  else some { w with
    waited := w.waited - 1, record := record, curPbsEnable := true, session := w.session + 1
    cb := if cb then some (w.session + 1) else none }

/-- `nc_hy_dev_stopPbs`. -/
def stopPbs (w : SessionWorld) : SessionWorld :=
  if w.curPbsEnable then { w with curPbsEnable := false, cb := none } else w

/-- `nc_hy_dev_logout` before it waits for the two threads. -/
def logout (w : SessionWorld) : SessionWorld := { w with state := false, active := false, doPbs := .loggedOut }

/-- The threads have ended; a new login makes the connection, the ring and two new threads. -/
def login (w : SessionWorld) : Option SessionWorld :=
  match w.doPbs, w.recv, w.play with
  | .loggedOut, .ended, .ended => some { w with
      state := true, errorFlag := false, startFlag := false, keyFlag := false, recv := .top, play := .start
      doPbs := .idle, ring := [], sock := [], msgs := [], playing := none }
  | _, _, _ => none

/-- `nc_hy_dev_doPbs`, up to its next read, message or write. -/
def doPbsStep (w : SessionWorld) : Option SessionWorld :=
  match w.doPbs with
  | .loggedOut => none
  | .idle => if w.errorFlag then none else some { w with doPbs := .copied w.curPbsEnable w.session }
  | .copied enable s =>
    some (if w.active = enable then { w with doPbs := .idle }
      else { w with msgs := w.msgs ++ [.stop], doPbs := .stopped enable s })
  | .stopped false _ => some { w with active := false, doPbs := .idle }
  | .stopped true s => some { w with msgs := w.msgs ++ [.start s], doPbs := .started }
  | .started => some { w with active := true, doPbs := .idle }

/-- The device handles its next message. -/
def devTake (w : SessionWorld) : Option SessionWorld :=
  match w.msgs with
  | [] => none
  | m :: ms => some { w with msgs := ms, playing := m.session }

def devSend (w : SessionWorld) (head : FrameHead) : Option SessionWorld :=
  w.playing.map fun s => { w with sock := w.sock ++ [⟨head, s⟩] }

/-- `nc_hy_pbs_doState`. -/
def doState (w : SessionWorld) (type : UInt8) (room : Bool) : SessionWorld :=
  if room then { w with ring := w.ring ++ [.state type] } else w

/-- A frame that arrives while playback is off. -/
def recvOff (w : SessionWorld) : SessionWorld := { w with startFlag := false, keyFlag := false, recv := .top }

def recvStart (w : SessionWorld) (f : PbsFrame) : SessionWorld :=
  if w.startFlag then { w with recv := .started f }
  else if f.head.sec ≠ w.record.startTime then { w with recv := .top }
  else { w with startFlag := true, recv := .started f }

def recvKey (w : SessionWorld) (f : PbsFrame) : SessionWorld :=
  if w.keyFlag then { w with recv := .keyed f }
  else if f.head.frameType.toNat ≠ ptcFrameI then { w with recv := .top }
  else { w with keyFlag := true, recv := .keyed f }

/-- PTC_FRAME_PBS_END -/
def pbsEnd : UInt8 := 255

/-- `nc_hy_dev_runRecvPbs`, up to its next test. -/
def recvStep (w : SessionWorld) (room : Bool) : Option SessionWorld :=
  match w.recv with
  | .ended => none
  | .top =>
    if w.state then
      match w.sock with
      | [] => none
      | f :: fs => some { w with sock := fs, recv := .fresh f }
    else some { w with recv := .ended }
  | .fresh f => some (if w.active then { w with recv := .active f } else w.recvOff)
  | .active f => some (if w.curPbsEnable then { w with recv := .enabled f } else w.recvOff)
  | .enabled f => some (w.recvStart f)
  | .started f => some ((if f.head.sec ≥ w.record.endTime then w.doState pbsEnd room else w).recvKey f)
  | .keyed f =>
    -- set_noDrop: no room is tried again while `cur_pbs_enable` is set.
    some (if room then { w with ring := w.ring ++ [.frame f], recv := .top }
      else if w.curPbsEnable then w else { w with recv := .top })

def recvState (w : SessionWorld) (type : UInt8) (room : Bool) : Option SessionWorld :=
  match w.recv with
  | .top => if w.state then some (w.doState type room) else none
  | _ => none

/-- The connection fails: the receive thread leaves its loop. -/
def recvFail (w : SessionWorld) : Option SessionWorld :=
  match w.recv with
  | .top => if w.state then some { w with keyFlag := false, errorFlag := true, recv := .ended } else none
  | _ => none

/-- tool_stream3_initReadPos by the play thread: what the ring holds is given up. -/
def initReadPos (w : SessionWorld) : SessionWorld := { w with ring := [], play := .top }

/-- `nc_hy_dev_runPlayPbs`, up to its next test. -/
def playStep (w : SessionWorld) : Option SessionWorld :=
  match w.play with
  | .ended => none
  | .start => some w.initReadPos
  | .top =>
    if w.state then
      match w.ring with
      | [] => none
      | i :: is => some { w with ring := is, play := .got i }
    else some { w with play := .ended }
  | .got i => some (if w.active then { w with play := .active i } else w.initReadPos)
  | .active i => some (if w.curPbsEnable then { w with play := .enabled i } else w.initReadPos)
  | .enabled i => some (if w.cb.isSome then { w with play := .calling i } else { w with play := .top })
  | .calling i => w.cb.map fun k => { w with play := .top, outs := w.outs ++ [(k, i)] }

def step (w : SessionWorld) : SessionAct → Option SessionWorld
  | .wait => w.wait
  | .startPbs record cb => w.startPbs record cb
  | .stopPbs => some w.stopPbs
  | .login => w.login
  | .logout => some w.logout
  | .doPbs => w.doPbsStep
  | .devTake => w.devTake
  | .devSend head => w.devSend head
  | .recvState type room => w.recvState type room
  | .recvFail => w.recvFail
  | .recv room => w.recvStep room
  | .play => w.playStep

def init : SessionWorld where
  state := false
  active := false
  curPbsEnable := false
  errorFlag := false
  startFlag := false
  keyFlag := false
  record := ⟨0, 0⟩
  cb := none
  recv := .ended
  play := .ended
  doPbs := .loggedOut
  ring := []
  sock := []
  msgs := []
  playing := none
  waited := 0
  session := 0
  outs := []

/-- No callback was given a frame the device had sent for an earlier session. -/
def Isolated (w : SessionWorld) : Prop := ∀ k f, (k, PbsItem.frame f) ∈ w.outs → k ≤ f.session

/-- The sessions of the frames that are still to pass the test of the first second, and of those still to
be sent, in the order in which they will arrive. -/
def coming (w : SessionWorld) : List ℕ :=
  w.recv.coming ++ w.sock.map (·.session) ++ w.playing.toList ++ w.msgs.filterMap (·.session) ++ w.doPbs.coming

/-- What has passed that test and no callback has been given. -/
def passed (w : SessionWorld) : List PbsItem := w.recv.passed ++ w.ring ++ w.play.held

/-- A session is opened when no frame is between the test of the first second and a callback, and with
`start_flag` set only when nothing is coming; and while a session is open that test finds no frame of an
earlier one at the record's first second. -/
def Parted (w : SessionWorld) : SessionAct → Prop
  | .startPbs _ _ => w.curPbsEnable = false →
      (∀ i ∈ w.passed, i.session = none) ∧ (w.startFlag = true → w.coming = [])
  | .recv _ => w.curPbsEnable = true → w.startFlag = false →
      ∀ f ∈ w.recv.tested, f.session < w.session → f.head.sec ≠ w.record.startTime
  | _ => True

instance (w : SessionWorld) (a : SessionAct) : Decidable (w.Parted a) := by
  cases a <;> unfold Parted <;> infer_instance

/-! ## What every step keeps -/

structure Inv (w : SessionWorld) : Prop where
  sorted : w.coming.Pairwise (· ≤ ·)
  le : ∀ s ∈ w.coming, s ≤ w.session
  latched : w.curPbsEnable = true → w.startFlag = true → ∀ s ∈ w.coming, s = w.session
  passed : w.curPbsEnable = true → ∀ f, PbsItem.frame f ∈ w.passed → f.session = w.session
  cb : ∀ k, w.cb = some k → w.curPbsEnable = true ∧ k = w.session
  outs : w.Isolated

section
variable {w t : SessionWorld}

/-- A step that lets no new session come, lets no frame pass, and calls no callback. -/
theorem Inv.keep (h : Inv w) (hc : t.coming.Pairwise (· ≤ ·)) (hm : ∀ s ∈ t.coming, s ∈ w.coming)
    (hp : ∀ f, PbsItem.frame f ∈ t.passed → PbsItem.frame f ∈ w.passed)
    (hs : t.startFlag = true → w.startFlag = true) (he : t.curPbsEnable = w.curPbsEnable)
    (hn : t.session = w.session) (hcb : t.cb = w.cb) (ho : t.outs = w.outs) : Inv t where
  sorted := hc
  le s hs := hn ▸ h.le s (hm s hs)
  latched h₁ h₂ s h₃ := hn ▸ h.latched (he ▸ h₁) (hs h₂) s (hm s h₃)
  passed h₁ f hf := hn ▸ h.passed (he ▸ h₁) f (hp f hf)
  cb k hk := by rw [he, hn]; exact h.cb k (hcb ▸ hk)
  outs := by unfold Isolated; rw [ho]; exact h.outs

theorem Inv.shrink (h : Inv w) (hc : t.coming.Sublist w.coming)
    (hp : ∀ f, PbsItem.frame f ∈ t.passed → PbsItem.frame f ∈ w.passed)
    (hs : t.startFlag = true → w.startFlag = true) (he : t.curPbsEnable = w.curPbsEnable)
    (hn : t.session = w.session) (hcb : t.cb = w.cb) (ho : t.outs = w.outs) : Inv t :=
  h.keep (h.sorted.sublist hc) (fun _ hm => hc.subset hm) hp hs he hn hcb ho

/-- The open session's record is the last that comes. -/
theorem Inv.extend (h : Inv w) (hc : t.coming = w.coming ++ [w.session])
    (hp : ∀ f, PbsItem.frame f ∈ t.passed → PbsItem.frame f ∈ w.passed) (hs : t.startFlag = w.startFlag)
    (he : t.curPbsEnable = w.curPbsEnable) (hn : t.session = w.session) (hcb : t.cb = w.cb) (ho : t.outs = w.outs) :
    Inv t where
  sorted := by
    rw [hc, List.pairwise_append]
    refine ⟨h.sorted, List.pairwise_singleton .., fun a ha b hb => ?_⟩
    rw [List.mem_singleton] at hb
    exact hb ▸ h.le a ha
  le s hm := by
    rw [hc, List.mem_append, List.mem_singleton] at hm
    rw [hn]
    rcases hm with hm | rfl
    · exact h.le s hm
    · exact Nat.le_refl _
  latched h₁ h₂ s hm := by
    rw [hc, List.mem_append, List.mem_singleton] at hm
    rw [hn]
    rcases hm with hm | rfl
    · exact h.latched (he ▸ h₁) (hs ▸ h₂) s hm
    · rfl
  passed h₁ f hf := hn ▸ h.passed (he ▸ h₁) f (hp f hf)
  cb k hk := by rw [he, hn]; exact h.cb k (hcb ▸ hk)
  outs := by unfold Isolated; rw [ho]; exact h.outs

theorem inv_init : Inv init where
  sorted := List.Pairwise.nil
  le _ h := by cases h
  latched h := by cases h
  passed h := by cases h
  cb _ h := by cases h
  outs _ _ h := by cases h

theorem inv_startPbs {record : PbsRecord} {cb : Bool} (h : Inv w) (hok : w.Parted (.startPbs record cb))
    (ht : w.startPbs record cb = some t) : Inv t := by
  unfold startPbs at ht
  split at ht
  · cases ht
  · split at ht
    · cases ht
      exact h.shrink (List.Sublist.refl _) (fun _ => id) id rfl rfl rfl rfl
    · next he =>
      obtain ⟨hpast, hcoming⟩ := hok (Bool.eq_false_of_not_eq_true he)
      cases ht
      refine ⟨h.sorted, fun s hs => Nat.le_succ_of_le (h.le s hs), fun _ hf s hs => ?_, fun _ f hf => ?_, fun k hk => ?_, h.outs⟩
      · have hs : s ∈ w.coming := hs
        rw [hcoming hf] at hs
        cases hs
      · cases hpast _ hf
      · cases cb
        · cases hk
        · cases hk
          exact ⟨rfl, rfl⟩

theorem inv_stopPbs (h : Inv w) : Inv w.stopPbs := by
  unfold stopPbs
  split
  · exact ⟨h.sorted, h.le, (by intro hf; cases hf), (by intro hf; cases hf), (by intro k hk; cases hk), h.outs⟩
  · exact h

theorem inv_logout (h : Inv w) : Inv w.logout := by
  refine h.shrink ?_ (fun _ hf => hf) (fun hf => hf) rfl rfl rfl rfl
  simp only [coming, logout, DoPbsPc.coming]
  exact List.Sublist.append_left (List.nil_sublist _) _

theorem inv_login (h : Inv w) (ht : w.login = some t) : Inv t := by
  unfold login at ht
  split at ht
  · cases ht
    exact h.shrink (List.nil_sublist _) (by simp [SessionWorld.passed, RecvPc.passed, PlayPc.held]) (by simp) rfl rfl rfl rfl
  · cases ht

theorem inv_doPbs (h : Inv w) (ht : w.doPbsStep = some t) : Inv t := by
  unfold doPbsStep at ht
  split at ht
  · cases ht
  · next hp =>
    split at ht
    · cases ht
    · cases ht
      cases he : w.curPbsEnable
      · refine h.shrink ?_ (fun _ hf => hf) (fun hf => hf) he.symm rfl rfl rfl
        simp [coming, hp, DoPbsPc.coming]
      · exact h.extend (by simp [coming, hp, DoPbsPc.coming]) (fun _ hf => hf) rfl he.symm rfl rfl rfl
  · next en s hp =>
    cases ht
    split
    · refine h.shrink ?_ (fun _ hf => hf) (fun hf => hf) rfl rfl rfl rfl
      simp [coming, hp, DoPbsPc.coming]
    · refine h.shrink ?_ (fun _ hf => hf) (fun hf => hf) rfl rfl rfl rfl
      cases en <;> simp [coming, hp, DoPbsPc.coming, PbsMsg.session]
  · next s hp =>
    cases ht
    refine h.shrink ?_ (fun _ hf => hf) (fun hf => hf) rfl rfl rfl rfl
    simp [coming, hp, DoPbsPc.coming]
  · next s hp =>
    cases ht
    refine h.shrink ?_ (fun _ hf => hf) (fun hf => hf) rfl rfl rfl rfl
    simp [coming, hp, DoPbsPc.coming, PbsMsg.session]
  · next hp =>
    cases ht
    refine h.shrink ?_ (fun _ hf => hf) (fun hf => hf) rfl rfl rfl rfl
    simp [coming, hp, DoPbsPc.coming]

theorem inv_devTake (h : Inv w) (ht : w.devTake = some t) : Inv t := by
  unfold devTake at ht
  split at ht
  · cases ht
  · next m ms hm =>
    cases ht
    refine h.shrink ?_ (fun _ hf => hf) (fun hf => hf) rfl rfl rfl rfl
    cases m <;> simp [coming, hm, PbsMsg.session]

theorem inv_devSend {head : FrameHead} (h : Inv w) (ht : w.devSend head = some t) : Inv t := by
  unfold devSend at ht
  cases hp : w.playing with
  | none => rw [hp] at ht; cases ht
  | some s =>
    rw [hp] at ht
    cases ht
    have hs := h.sorted
    refine h.keep ?_ (fun x hx => ?_) (fun _ hf => hf) (fun hf => hf) rfl rfl rfl rfl
    · simp only [coming, hp, Option.toList_some, List.map_append, List.map_cons, List.map_nil, List.append_assoc,
        List.singleton_append, List.pairwise_append, List.pairwise_cons, List.mem_cons, List.mem_append] at hs ⊢
      grind
    · simp only [coming, hp, Option.toList_some, List.map_append, List.map_cons, List.map_nil, List.mem_append,
        List.mem_singleton] at hx ⊢
      tauto

theorem inv_doState {type : UInt8} {room : Bool} (h : Inv w) : Inv (w.doState type room) := by
  unfold doState
  cases room
  · exact h
  · refine h.shrink (List.Sublist.refl _) (fun f hf => ?_) (fun hf => hf) rfl rfl rfl rfl
    simpa [SessionWorld.passed] using hf

theorem inv_recvState {type : UInt8} {room : Bool} (h : Inv w) (ht : w.recvState type room = some t) : Inv t := by
  unfold recvState at ht
  split at ht
  · split at ht
    · cases ht
      exact inv_doState h
    · cases ht
  · cases ht

theorem inv_recvFail (h : Inv w) (ht : w.recvFail = some t) : Inv t := by
  unfold recvFail at ht
  split at ht
  · next hp =>
    split at ht
    · cases ht
      refine h.shrink ?_ (fun f hf => ?_) (fun hf => hf) rfl rfl rfl rfl
      · simp [coming, hp, RecvPc.coming]
      · simpa [SessionWorld.passed, hp, RecvPc.passed] using hf
    · cases ht
  · cases ht

/-- The receive thread goes on, or gives up its frame. -/
theorem inv_recvMove (h : Inv w) {startFlag keyFlag : Bool} {r : RecvPc} (hs : startFlag = true → w.startFlag = true)
    (hc : r.coming.Sublist w.recv.coming) (hp : r.passed ⊆ w.recv.passed) :
    Inv { w with startFlag, keyFlag, recv := r } := by
  refine h.shrink ?_ (fun f hf => ?_) hs rfl rfl rfl rfl
  · simp only [coming, List.append_assoc]
    exact hc.append_right _
  · simp only [SessionWorld.passed, List.append_assoc, List.mem_append] at hf ⊢
    exact hf.imp_left (fun hf => hp hf)

theorem inv_recvTop (h : Inv w) {startFlag keyFlag : Bool} (hs : startFlag = true → w.startFlag = true) :
    Inv { w with startFlag, keyFlag, recv := .top } :=
  inv_recvMove h hs (List.nil_sublist _) (List.nil_subset _)

theorem inv_recvOff (h : Inv w) : Inv w.recvOff := inv_recvTop h (fun hf => by cases hf)

/-- The frame passes, and `start_flag` is set from now on. -/
theorem inv_recvPass {f : PbsFrame} (h : Inv w) (hp : w.recv = .enabled f)
    (hf : w.curPbsEnable = true → f.session = w.session) : Inv { w with startFlag := true, recv := .started f } := by
  have hc : w.coming = f.session :: ({ w with recv := RecvPc.started f } : SessionWorld).coming := by
    simp [coming, hp, RecvPc.coming]
  have hs := h.sorted
  have hle := h.le
  rw [hc, List.pairwise_cons] at hs
  rw [hc] at hle
  refine ⟨hs.2, fun s hm => hle s (List.mem_cons_of_mem _ hm), fun he _ s hm => ?_, fun he g hg => ?_, h.cb, h.outs⟩
  · have h₁ := hs.1 s hm
    have h₂ := hle s (List.mem_cons_of_mem _ hm)
    exact Nat.le_antisymm h₂ (hf he ▸ h₁)
  · have hg' : g = f ∨ PbsItem.frame g ∈ w.passed := by
      simpa [SessionWorld.passed, hp, RecvPc.passed] using hg
    rcases hg' with rfl | hg'
    · exact hf he
    · exact h.passed he g hg'

theorem inv_recvStart {f : PbsFrame} {room : Bool} (h : Inv w) (hp : w.recv = .enabled f) (hok : w.Parted (.recv room)) :
    Inv (w.recvStart f) := by
  have hmem : f.session ∈ w.coming := by simp [coming, hp, RecvPc.coming]
  unfold recvStart
  split
  · next hs =>
    have := inv_recvPass h hp fun he => h.latched he hs _ hmem
    rwa [← hs] at this
  · next hs =>
    split
    · exact inv_recvTop h (fun hf => hf)
    · next hsec =>
      refine inv_recvPass h hp fun he => Nat.le_antisymm (h.le _ hmem) (Nat.le_of_not_lt fun hlt => ?_)
      exact hsec (hok he (Bool.eq_false_of_not_eq_true hs) f (by rw [hp]; rfl) hlt)

theorem inv_recvKey {f : PbsFrame} (h : Inv w) (hp : w.recv = .started f) : Inv (w.recvKey f) := by
  have hkeyed : ∀ k : Bool, Inv { w with keyFlag := k, recv := .keyed f } := fun k =>
    inv_recvMove h (fun hf => hf) (List.nil_sublist _) (by rw [hp]; exact List.Subset.refl _)
  unfold recvKey
  split
  · exact hkeyed _
  · split
    · exact inv_recvTop h (fun hf => hf)
    · exact hkeyed _

theorem inv_recvTake {f : PbsFrame} {fs : List PbsFrame} (h : Inv w) (hp : w.recv = .top) (hf : w.sock = f :: fs) :
    Inv { w with sock := fs, recv := .fresh f } := by
  refine h.shrink ?_ (fun g hg => ?_) (fun hs => hs) rfl rfl rfl rfl
  · simp [coming, hp, hf, RecvPc.coming]
  · simpa [SessionWorld.passed, hp, RecvPc.passed] using hg

theorem inv_recvStore {f : PbsFrame} (h : Inv w) (hp : w.recv = .keyed f) :
    Inv { w with ring := w.ring ++ [.frame f], recv := .top } := by
  refine h.shrink ?_ (fun g hg => ?_) (fun hs => hs) rfl rfl rfl rfl
  · simp [coming, hp, RecvPc.coming]
  · simp only [SessionWorld.passed, hp, RecvPc.passed, List.mem_append, List.mem_singleton] at hg ⊢
    tauto

theorem inv_recvStep {room : Bool} (h : Inv w) (hok : w.Parted (.recv room)) (ht : w.recvStep room = some t) : Inv t := by
  unfold recvStep at ht
  cases hp : w.recv with
  | ended => rw [hp] at ht; cases ht
  | top =>
    simp only [hp] at ht
    split at ht
    · split at ht
      · cases ht
      · next f fs hf => cases ht; exact inv_recvTake h hp hf
    · cases ht
      exact inv_recvMove h (fun hf => hf) (List.nil_sublist _) (List.nil_subset _)
  | fresh f =>
    simp only [hp] at ht
    cases ht
    split
    · exact inv_recvMove h (fun hf => hf) (by rw [hp]; exact List.Sublist.refl _) (List.nil_subset _)
    · exact inv_recvOff h
  | active f =>
    simp only [hp] at ht
    cases ht
    split
    · exact inv_recvMove h (fun hf => hf) (by rw [hp]; exact List.Sublist.refl _) (List.nil_subset _)
    · exact inv_recvOff h
  | enabled f =>
    simp only [hp] at ht
    cases ht
    exact inv_recvStart h hp hok
  | started f =>
    simp only [hp] at ht
    cases ht
    split
    · exact inv_recvKey (inv_doState h) (by unfold doState; split <;> exact hp)
    · exact inv_recvKey h hp
  | keyed f =>
    simp only [hp] at ht
    cases ht
    split
    · exact inv_recvStore h hp
    · split
      · exact h
      · exact inv_recvTop h (fun hf => hf)

/-- The play thread goes on with what it holds, or takes or gives up something. -/
theorem inv_playMove (h : Inv w) {ring : List PbsItem} {p : PlayPc} (hp : ∀ i, i ∈ ring ++ p.held → i ∈ w.ring ++ w.play.held) :
    Inv { w with ring, play := p } := by
  refine h.shrink (List.Sublist.refl _) (fun f hf => ?_) (fun hs => hs) rfl rfl rfl rfl
  simp only [SessionWorld.passed, List.append_assoc, List.mem_append] at hf hp ⊢
  exact hf.imp_right (hp _)

theorem inv_initReadPos (h : Inv w) : Inv w.initReadPos := inv_playMove h (fun i hi => by cases hi)

theorem inv_call {i : PbsItem} {k : ℕ} (h : Inv w) (hp : w.play = .calling i) (hk : w.cb = some k) :
    Inv { w with play := .top, outs := w.outs ++ [(k, i)] } := by
  have hi : Inv { w with ring := w.ring, play := .top } := inv_playMove h (fun i hi => by
    simp only [PlayPc.held, List.append_nil] at hi
    exact List.mem_append_left _ hi)
  refine ⟨hi.sorted, hi.le, hi.latched, hi.passed, hi.cb, fun k' f hf => ?_⟩
  rcases List.mem_append.mp hf with hf | hf
  · exact h.outs k' f hf
  · rw [List.mem_singleton] at hf
    obtain ⟨rfl, rfl⟩ := Prod.mk.inj hf
    obtain ⟨he, rfl⟩ := h.cb k' hk
    exact Nat.le_of_eq (h.passed he f (by simp [SessionWorld.passed, hp, PlayPc.held])).symm

theorem inv_playStep (h : Inv w) (ht : w.playStep = some t) : Inv t := by
  unfold playStep at ht
  cases hp : w.play with
  | ended => rw [hp] at ht; cases ht
  | start =>
    simp only [hp] at ht
    cases ht
    exact inv_initReadPos h
  | top =>
    simp only [hp] at ht
    split at ht
    · split at ht
      · cases ht
      · next i is hr =>
        cases ht
        refine inv_playMove h (fun j hj => ?_)
        rw [hp, hr]
        simp only [PlayPc.held, List.mem_append, List.mem_cons] at hj ⊢
        tauto
    · cases ht
      exact inv_playMove h (fun j hj => by rw [hp]; exact hj)
  | got i =>
    simp only [hp] at ht
    cases ht
    split
    · exact inv_playMove h (fun j hj => by rw [hp]; exact hj)
    · exact inv_initReadPos h
  | active i =>
    simp only [hp] at ht
    cases ht
    split
    · exact inv_playMove h (fun j hj => by rw [hp]; exact hj)
    · exact inv_initReadPos h
  | enabled i =>
    simp only [hp] at ht
    cases ht
    split
    · exact inv_playMove h (fun j hj => by rw [hp]; exact hj)
    · exact inv_playMove h (fun j hj => List.mem_append_left _ (by simpa [PlayPc.held] using hj))
  | calling i =>
    simp only [hp, Option.map_eq_some_iff] at ht
    obtain ⟨k, hk, rfl⟩ := ht
    exact inv_call h hp hk

theorem inv_step {a : SessionAct} (h : Inv w) (hok : w.Parted a) (ht : w.step a = some t) : Inv t := by
  cases a with
  | wait =>
    simp only [step, wait] at ht
    split at ht
    · cases ht
    · cases ht
      exact h.shrink (List.Sublist.refl _) (fun _ hf => hf) (fun hs => hs) rfl rfl rfl rfl
  | startPbs record cb => exact inv_startPbs h hok ht
  | stopPbs => cases ht; exact inv_stopPbs h
  | login => exact inv_login h ht
  | logout => cases ht; exact inv_logout h
  | doPbs => exact inv_doPbs h ht
  | devTake => exact inv_devTake h ht
  | devSend head => exact inv_devSend h ht
  | recvState type room => exact inv_recvState h ht
  | recvFail => exact inv_recvFail h ht
  | recv room => exact inv_recvStep h hok ht
  | play => exact inv_playStep h ht

end

/-! ## Sessions -/

/-- **Isolation.** While sessions are opened as `Parted` says, no callback is given a frame the device had
sent for an earlier session. -/
theorem sessions_parted {as : List SessionAct} (h : Meets step Parted init as) : Reached step Isolated init as :=
  reached_of_meets (I := Inv) (fun _ _ _ hi hok hs => inv_step hi hok hs) (fun _ hi => hi.outs) inv_init h

/-- An I frame or a P frame of the given second. -/
def pbsHead (sec : UInt32) (frameType : UInt8) : FrameHead := ⟨0, 0, sec, 0, 0, 0, frameType, 0, 25, 0⟩

/-- The first session plays a record from second 100 on: the device sends two of its frames, and the first
is given to the callback. -/
def firstSession : List SessionAct :=
  [.login, .play, .wait, .startPbs ⟨100, 200⟩ true] ++ List.replicate 4 .doPbs ++
  [.devTake, .devTake, .devSend (pbsHead 100 1), .devSend (pbsHead 101 2)] ++ List.replicate 6 (.recv true) ++
  List.replicate 5 .play ++ [.stopPbs, .doPbs, .doPbs, .doPbs, .devTake]

def secondSession : List SessionAct := [.wait, .startPbs ⟨500, 600⟩ true] ++ List.replicate 4 .doPbs

/-- The second frame arrives between the sessions. -/
theorem sessions_parted_once :
    Reached step Isolated init (firstSession ++ List.replicate 2 (.recv true) ++ secondSession) :=
  sessions_parted (by decide)

/-- The second frame arrives in the second session. -/
theorem late_frame_mixed : ¬ Reached step Isolated init (firstSession ++ secondSession ++
    List.replicate 6 (.recv true) ++ List.replicate 5 .play) := by
  intro h
  have := h _ _ (List.prefix_refl _) rfl 2 ⟨pbsHead 101 2, 1⟩ (by decide)
  exact absurd this (by decide)

end SessionWorld

end Hy

end SabApp
