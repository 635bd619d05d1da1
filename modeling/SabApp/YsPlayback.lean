import SabApp.Runs

/-!
# Where YS playback goes on (nc_ys.c)

`nc_ys_pbs_runPlay` notes the second of every I and P frame in `history_pos`, and `nc_ys_pbs_start` asks the device to
play from there. But the thread clears the position when it begins and when it ends, and a stop waits for its end: behind
a stop the device is asked for the beginning again. A logout waits for no thread. A second that was noted is found behind
it as long as no play thread has begun or ended.
-/

namespace SabApp

namespace Ys

structure Window where
  startTime : UInt32
  endTime : UInt32

/-- The fields of a frame's head that are looked at. -/
structure FrameHead where
  frameType : UInt8
  sec : UInt32
  deriving DecidableEq

/-- PTC_FRAME_I or PTC_FRAME_P -/
def FrameHead.video (f : FrameHead) : Bool := f.frameType = 1 ∨ f.frameType = 2

inductive PlayPc where
  | start
  | test
  | get
  | call
  | note
  | exit
  | ended
  deriving DecidableEq

/-- Where the login thread stands in `nc_ys_dev_doPbs`. -/
inductive PbsPc where
  | loggedOut
  | idle
  | joinPlay
  | joinRecv
  | free
  | stopMsg
  | compare
  | opening
  | connect
  | setPlay
  | recvPlay
  | threads
  | error
  deriving DecidableEq

namespace PbsPc

/-- Between the end of the threads and the start of the next ones. -/
def between : PbsPc → Bool
  | joinRecv | free | stopMsg | opening | connect | setPlay | recvPlay | threads => true
  | _ => false

/-- In a start, behind the answer to YS_MSG_ID_VOD_OPEN. -/
def opened : PbsPc → Bool
  | connect | setPlay | recvPlay | threads => true
  | _ => false

end PbsPc

/-- What a play thread does with `history_pos`, and the I and P frames it hands on. -/
inductive PlayEvent where
  | begun
  | delivered (sec : UInt32)
  | noted (sec : UInt32)
  | ended

/-- A playback that is wanted, with the play and receive threads of all its starts, the running ones `true` of the
latter; and what the play threads did, and what was asked for after which delivery. -/
structure PbsWorld where
  historyPos : UInt32
  state : Bool
  errorFlag : Bool
  cbFrame : Option FrameHead
  plays : List PlayPc
  recvs : List Bool
  pc : PbsPc
  events : List PlayEvent
  asks : List (UInt32 × Option UInt32)

inductive PbsAct where
  | login
  | logout
  | doPbs (ok : Bool)
  /-- The end of a start, with what the new frame buffer holds. -/
  | create (junk : FrameHead)
  /-- A step of a play thread, with the frame that the stream has for it. -/
  | play (i : ℕ) (frame : Option FrameHead)
  | recv (i : ℕ) (ok : Bool)
  deriving DecidableEq

/-- Of the last I or P frame that was delivered. -/
def lastDelivered (events : List PlayEvent) : Option UInt32 :=
  events.foldl (fun last e => match e with
    | .delivered sec => some sec
    | _ => last) none

/-- What was noted last, unless a play thread has begun or ended since. -/
def lastNoted (events : List PlayEvent) : Option UInt32 :=
  events.foldl (fun last e => match e with
    | .noted sec => some sec
    | .begun | .ended => none
    | .delivered _ => last) none

namespace PbsWorld

section
variable (win : Window) (cb : Bool)

/-- The time in YS_MSG_ID_VOD_PLAY. -/
def playTime (w : PbsWorld) : UInt32 :=
  if win.startTime < w.historyPos ∧ w.historyPos < win.endTime then w.historyPos else win.startTime

def fail (w : PbsWorld) : PbsWorld := { w with state := false, pc := .error }

/-- `nc_ys_dev_doPbs`, up to the next wait, message or call. -/
def doPbs (w : PbsWorld) (ok : Bool) : Option PbsWorld :=
  match w.pc with
  | .loggedOut | .threads | .error => none
  | .idle => some (
    if w.errorFlag then
      if w.state then { w with state := false, pc := .joinPlay } else { w with errorFlag := false, pc := .stopMsg }
    else { w with pc := .compare })
  -- The rest of `nc_ys_pbs_stop`.
  | .joinPlay => if w.plays.getLast? = some .ended then some { w with pc := .joinRecv } else none
  | .joinRecv => if w.recvs.getLast? = some false then some { w with pc := .free } else none
  | .free => some { w with cbFrame := none, errorFlag := false, pc := .stopMsg }
  | .stopMsg => some { w with pc := if ok then .compare else .error }
  -- With the state set the device is asked for its position, and else there may be time for a start.
  | .compare => some { w with
      pc := if w.state then if ok then .idle else .error else if ok then .opening else .idle }
  -- The rest of `nc_ys_pbs_start`.
  | .opening => some (if ok then { w with state := true, pc := .connect } else w.fail)
  | .connect => some (if ok then { w with pc := .setPlay } else w.fail)
  | .setPlay => some (if ok then { w with asks := w.asks ++ [(w.playTime win, lastDelivered w.events)], pc := .recvPlay }
      else w.fail)
  | .recvPlay => some (if ok then { w with pc := .threads } else w.fail)

def goto (w : PbsWorld) (i : ℕ) (p : PlayPc) : PbsWorld := { w with plays := w.plays.set i p }

/-- A step of `nc_ys_pbs_runPlay`. There is none without a frame buffer. -/
def runPlay (w : PbsWorld) (i : ℕ) (frame : Option FrameHead) : Option PbsWorld :=
  match w.plays[i]? with
  | none | some .ended => none
  | some .start => some { w.goto i .test with historyPos := 0, events := w.events ++ [.begun] }
  | some .test => some (w.goto i (if w.state then .get else .exit))
  | some .get =>
    match frame with
    | none => some (w.goto i .test)
    | some f => w.cbFrame.map fun _ => { w.goto i .call with cbFrame := some f }
  | some .call =>
    if cb then w.cbFrame.map fun f => { w.goto i .note with
      events := if f.video then w.events ++ [.delivered f.sec] else w.events }
    else some (w.goto i .test)
  | some .note => w.cbFrame.map fun f =>
      if f.video then { w.goto i .test with historyPos := f.sec, events := w.events ++ [.noted f.sec] }
      else w.goto i .test
  | some .exit => some { w.goto i .ended with historyPos := 0, events := w.events ++ [.ended] }

/-- A step of `nc_ys_pbs_runRecv`, which fails or looks at the state. -/
def runRecv (w : PbsWorld) (i : ℕ) (ok : Bool) : Option PbsWorld :=
  if w.recvs[i]? = some true then
    some { w with errorFlag := w.errorFlag || !ok, recvs := w.recvs.set i (ok && w.state) }
  else none

def step (w : PbsWorld) : PbsAct → Option PbsWorld
  | .login => if w.pc = .loggedOut then some { w with pc := .idle } else none
  | .logout =>
    if w.pc = .idle ∨ w.pc = .error then some { w with state := false, errorFlag := false, pc := .loggedOut } else none
  | .doPbs ok => w.doPbs win ok
  | .create junk =>
    if w.pc = .threads then
      some { w with cbFrame := some junk, plays := w.plays ++ [.start], recvs := w.recvs ++ [true], pc := .idle }
    else none
  | .play i frame => w.runPlay cb i frame
  | .recv i ok => w.runRecv i ok

end

/-- The slot before the first start. -/
def init : PbsWorld := ⟨0, false, false, none, [], [], .loggedOut, [], []⟩

/-- The second is strictly inside the window. -/
def Inside (win : Window) (last : Option UInt32) : Prop := ∃ sec, last = some sec ∧ win.startTime < sec ∧ sec < win.endTime

/-- Where playback should go on. -/
def resumeAt (win : Window) : Option UInt32 → UInt32
  | none => win.startTime
  | some sec => if win.startTime < sec ∧ sec < win.endTime then sec else win.startTime

/-- Every request is for where playback should go on. -/
def Resumes (win : Window) (w : PbsWorld) : Prop := ∀ a ∈ w.asks, a.1 = resumeAt win a.2

/-- The device is asked to play only where a last second inside the window was noted, and no play thread has begun or
ended since, or where there is none, and none was noted. -/
def Kept (win : Window) (w : PbsWorld) (a : PbsAct) : Prop :=
  a = .doPbs true → w.pc = .setPlay → (Inside win (lastDelivered w.events) → lastNoted w.events = lastDelivered w.events) ∧
    (Inside win (lastNoted w.events) → Inside win (lastDelivered w.events))

/-- The device is asked to play only where no last second is inside the window. -/
def Outside (win : Window) (w : PbsWorld) (a : PbsAct) : Prop :=
  a = .doPbs true → w.pc = .setPlay → ¬ Inside win (lastDelivered w.events)

/-! ## What was noted -/

@[simp] theorem lastNoted_begun (es : List PlayEvent) : lastNoted (es ++ [.begun]) = none := by simp [lastNoted]

@[simp] theorem lastNoted_ended (es : List PlayEvent) : lastNoted (es ++ [.ended]) = none := by simp [lastNoted]

@[simp] theorem lastNoted_noted (es : List PlayEvent) (sec : UInt32) : lastNoted (es ++ [.noted sec]) = some sec := by
  simp [lastNoted]

@[simp] theorem lastNoted_delivered (es : List PlayEvent) (sec : UInt32) :
    lastNoted (es ++ [.delivered sec]) = lastNoted es := by
  simp [lastNoted]

section
variable {win : Window} {cb : Bool} {w t : PbsWorld}

theorem resumeAt_of_not_inside {last : Option UInt32} (h : ¬ Inside win last) : resumeAt win last = win.startTime := by
  cases last with
  | none => rfl
  | some sec => exact if_neg fun hsec => h ⟨sec, rfl, hsec⟩

theorem resumeAt_of_inside {sec : UInt32} (h : Inside win (some sec)) : resumeAt win (some sec) = sec := by
  obtain ⟨sec', heq, hsec⟩ := h
  cases heq
  exact if_pos hsec

/-- Two seconds lead to the same place if and only if they are the same, or neither is inside the window. -/
theorem resumeAt_eq_iff {noted last : Option UInt32} : resumeAt win noted = resumeAt win last ↔
    (Inside win last → noted = last) ∧ (Inside win noted → Inside win last) := by
  by_cases hlast : Inside win last
  · obtain ⟨sec, rfl, hsec⟩ := hlast
    have hin : Inside win (some sec) := ⟨sec, rfl, hsec⟩
    rw [resumeAt_of_inside hin]
    by_cases hnoted : Inside win noted
    · obtain ⟨sec', rfl, hsec'⟩ := hnoted
      rw [resumeAt_of_inside ⟨sec', rfl, hsec'⟩]
      constructor
      · rintro rfl
        exact ⟨fun _ => rfl, id⟩
      · exact fun h => Option.some.inj (h.1 hin)
    · rw [resumeAt_of_not_inside hnoted]
      refine iff_of_false ?_ fun h => hnoted (h.1 hin ▸ hin)
      rintro rfl
      exact absurd hsec.1 (UInt32.lt_irrefl _)
  · rw [resumeAt_of_not_inside hlast]
    by_cases hnoted : Inside win noted
    · obtain ⟨sec', rfl, hsec'⟩ := hnoted
      rw [resumeAt_of_inside ⟨sec', rfl, hsec'⟩]
      refine iff_of_false ?_ fun h => hlast (h.2 ⟨sec', rfl, hsec'⟩)
      rintro rfl
      exact absurd hsec'.1 (UInt32.lt_irrefl _)
    · rw [resumeAt_of_not_inside hnoted]
      exact iff_of_true rfl ⟨fun h => absurd h hlast, fun h => absurd h hnoted⟩

structure Noted (win : Window) (w : PbsWorld) : Prop where
  pos : w.historyPos = (lastNoted w.events).getD 0
  resumes : Resumes win w

theorem playTime_eq (h : Noted win w) : w.playTime win = resumeAt win (lastNoted w.events) := by
  rw [playTime, h.pos]
  cases lastNoted w.events with
  | none => exact if_neg fun h0 => absurd h0.1 UInt32.not_lt_zero
  | some sec => rfl

/-- What a step of a play thread can do: it is a thread that runs, and at its end nothing is noted. -/
structure RunPlay (w t : PbsWorld) (i : ℕ) : Prop where
  pc : t.pc = w.pc
  state : t.state = w.state
  asks : t.asks = w.asks
  thread : ∃ p q, w.plays[i]? = some p ∧ p ≠ .ended ∧ t.plays = w.plays.set i q ∧ (q = .ended → lastNoted t.events = none)
  pos : w.historyPos = (lastNoted w.events).getD 0 → t.historyPos = (lastNoted t.events).getD 0

theorem runPlay_spec {i : ℕ} {frame : Option FrameHead} (hs : w.runPlay cb i frame = some t) : RunPlay w t i := by
  unfold runPlay at hs
  cases hp : w.plays[i]? with
  | none => rw [hp] at hs; cases hs
  | some p =>
    rw [hp] at hs
    cases p with
    | ended => cases hs
    | start =>
      cases hs
      exact ⟨rfl, rfl, rfl, ⟨_, _, hp, nofun, rfl, nofun⟩, fun _ => by simp⟩
    | test =>
      cases hs
      refine ⟨rfl, rfl, rfl, ⟨_, _, hp, nofun, rfl, ?_⟩, id⟩
      split <;> exact nofun
    | get =>
      cases frame with
      | none =>
        cases hs
        exact ⟨rfl, rfl, rfl, ⟨_, _, hp, nofun, rfl, nofun⟩, id⟩
      | some f =>
        obtain ⟨_, -, rfl⟩ := Option.map_eq_some_iff.mp hs
        exact ⟨rfl, rfl, rfl, ⟨_, _, hp, nofun, rfl, nofun⟩, id⟩
    | call =>
      dsimp only at hs
      split at hs
      · obtain ⟨f, -, rfl⟩ := Option.map_eq_some_iff.mp hs
        refine ⟨rfl, rfl, rfl, ⟨_, _, hp, nofun, rfl, nofun⟩, fun hpos => ?_⟩
        dsimp only [goto]
        split <;> simp [hpos]
      · cases hs
        exact ⟨rfl, rfl, rfl, ⟨_, _, hp, nofun, rfl, nofun⟩, id⟩
    | note =>
      obtain ⟨f, -, rfl⟩ := Option.map_eq_some_iff.mp hs
      dsimp only
      split
      · exact ⟨rfl, rfl, rfl, ⟨_, _, hp, nofun, rfl, nofun⟩, fun _ => by simp⟩
      · exact ⟨rfl, rfl, rfl, ⟨_, _, hp, nofun, rfl, nofun⟩, id⟩
    | exit =>
      cases hs
      exact ⟨rfl, rfl, rfl, ⟨_, _, hp, nofun, rfl, fun _ => by simp⟩, fun _ => by simp⟩

/-- What a step of the login thread can do. -/
structure DoPbs (win : Window) (w t : PbsWorld) (ok : Bool) : Prop where
  pos : t.historyPos = w.historyPos
  events : t.events = w.events
  plays : t.plays = w.plays
  asks : w.pc = .setPlay ∧ ok = true ∧ t.asks = w.asks ++ [(w.playTime win, lastDelivered w.events)] ∨
    ¬ (w.pc = .setPlay ∧ ok = true) ∧ t.asks = w.asks
  between : t.pc.between = true ∨ (t.state = false ∧ t.pc ≠ .joinPlay) →
    (w.pc.between = true ∨ (w.state = false ∧ w.pc ≠ .joinPlay)) ∨ (w.pc = .joinPlay ∧ w.plays.getLast? = some .ended)
  opened : t.pc.opened = true → t.state = true ∨ w.pc.opened = true ∧ t.state = w.state

section
variable {ok : Bool} (hw : w.pc.between = true) (hask : ¬ (w.pc = .setPlay ∧ ok = true))
include hw hask

theorem doPbs_fail : DoPbs win w w.fail ok :=
  ⟨rfl, rfl, rfl, .inr ⟨hask, rfl⟩, fun _ => .inl (.inl hw), nofun⟩

theorem doPbs_goes {p : PbsPc} (hp : p.opened = true → w.pc.opened = true) : DoPbs win w { w with pc := p } ok :=
  ⟨rfl, rfl, rfl, .inr ⟨hask, rfl⟩, fun _ => .inl (.inl hw), fun h => .inr ⟨hp h, rfl⟩⟩

end

theorem doPbs_spec {ok : Bool} (hs : w.doPbs win ok = some t) : DoPbs win w t ok := by
  have hother (h : w.pc ≠ .setPlay) : ¬ (w.pc = .setPlay ∧ ok = true) := fun h' => h h'.1
  unfold doPbs at hs
  cases hpc : w.pc with
  | loggedOut | threads | error => rw [hpc] at hs; cases hs
  | idle =>
    rw [hpc] at hs
    cases hs
    cases he : w.errorFlag <;> cases hstate : w.state <;>
      exact ⟨rfl, rfl, rfl, .inr ⟨hother (by rw [hpc]; nofun), rfl⟩, by simp [hpc, hstate, PbsPc.between], nofun⟩
  | joinPlay =>
    rw [hpc] at hs
    dsimp only at hs
    split at hs
    · next hlast =>
      cases hs
      exact ⟨rfl, rfl, rfl, .inr ⟨hother (by rw [hpc]; nofun), rfl⟩, fun _ => .inr ⟨hpc, hlast⟩, nofun⟩
    · cases hs
  | joinRecv =>
    rw [hpc] at hs
    dsimp only at hs
    split at hs
    · cases hs
      exact doPbs_goes (by rw [hpc]; rfl) (hother (by rw [hpc]; nofun)) nofun
    · cases hs
  | free =>
    rw [hpc] at hs
    cases hs
    exact ⟨rfl, rfl, rfl, .inr ⟨hother (by rw [hpc]; nofun), rfl⟩, fun _ => .inl (.inl (by rw [hpc]; rfl)), nofun⟩
  | stopMsg =>
    rw [hpc] at hs
    cases hs
    refine doPbs_goes (by rw [hpc]; rfl) (hother (by rw [hpc]; nofun)) ?_
    cases ok <;> exact nofun
  | compare =>
    rw [hpc] at hs
    cases hs
    refine ⟨rfl, rfl, rfl, .inr ⟨hother (by rw [hpc]; nofun), rfl⟩, ?_, ?_⟩
    · cases hstate : w.state <;> cases ok <;> simp [hpc, PbsPc.between]
    · cases hstate : w.state <;> cases ok <;> simp [PbsPc.opened]
  | opening =>
    rw [hpc] at hs
    cases hs
    cases ok with
    | false => exact doPbs_fail (by rw [hpc]; rfl) nofun
    | true =>
      exact ⟨rfl, rfl, rfl, .inr ⟨hother (by rw [hpc]; nofun), rfl⟩, fun _ => .inl (.inl (by rw [hpc]; rfl)), fun _ => .inl rfl⟩
  | connect | recvPlay =>
    rw [hpc] at hs
    cases hs
    cases ok with
    | false => exact doPbs_fail (by rw [hpc]; rfl) nofun
    | true => exact doPbs_goes (by rw [hpc]; rfl) (hother (by rw [hpc]; nofun)) fun _ => by rw [hpc]; rfl
  | setPlay =>
    rw [hpc] at hs
    cases hs
    cases ok with
    | false => exact doPbs_fail (by rw [hpc]; rfl) nofun
    | true =>
      exact ⟨rfl, rfl, rfl, .inl ⟨hpc, rfl, rfl⟩, fun _ => .inl (.inl (by rw [hpc]; rfl)),
        fun _ => .inr ⟨by rw [hpc]; rfl, rfl⟩⟩

theorem noted_step (h : Noted win w) {a : PbsAct} (hok : Kept win w a) (hs : step win cb w a = some t) : Noted win t := by
  cases a with
  | login | logout =>
    simp only [step] at hs
    split at hs
    · cases hs
      exact ⟨h.pos, h.resumes⟩
    · cases hs
  | doPbs ok =>
    have hdo : DoPbs win w t ok := doPbs_spec hs
    refine ⟨by rw [hdo.pos, hdo.events, h.pos], ?_⟩
    rcases hdo.asks with ⟨hpc, rfl, hasks⟩ | ⟨-, hasks⟩
    · intro x hx
      rw [hasks, List.mem_append, List.mem_singleton] at hx
      rcases hx with hx | rfl
      · exact h.resumes x hx
      · exact (playTime_eq h).trans (resumeAt_eq_iff.mpr (hok rfl hpc))
    · rw [Resumes, hasks]
      exact h.resumes
  | create junk =>
    simp only [step] at hs
    split at hs
    · cases hs
      exact ⟨h.pos, h.resumes⟩
    · cases hs
  | play i frame =>
    have hplay := runPlay_spec hs
    refine ⟨hplay.pos h.pos, ?_⟩
    rw [Resumes, hplay.asks]
    exact h.resumes
  | recv i ok =>
    simp only [step, runRecv] at hs
    split at hs
    · cases hs
      exact ⟨h.pos, h.resumes⟩
    · cases hs

theorem not_resumes (h : Noted win w) {a : PbsAct} (hbad : ¬ Kept win w a) :
    ∃ t, step win cb w a = some t ∧ ¬ Resumes win t := by
  unfold Kept at hbad
  push Not at hbad
  obtain ⟨rfl, hpc, hbad⟩ := hbad
  have hrun : step win cb w (.doPbs true) =
      some { w with asks := w.asks ++ [(w.playTime win, lastDelivered w.events)], pc := .recvPlay } := by
    simp only [step, doPbs, hpc, if_true]
  refine ⟨_, hrun, fun hres => ?_⟩
  have hlast := hres (w.playTime win, lastDelivered w.events) (by simp)
  rw [playTime_eq h] at hlast
  obtain ⟨h₁, h₂⟩ := resumeAt_eq_iff.mp hlast
  obtain ⟨hin, hout⟩ := hbad h₁
  exact hout (h₂ hin)

/-! ## Without a logout -/

/-- A stop has waited for every play thread but the last. -/
structure Joined (w : PbsWorld) : Prop where
  older : ∀ i, i + 1 < w.plays.length → w.plays[i]? = some .ended
  between : w.pc.between = true ∨ (w.state = false ∧ w.pc ≠ .joinPlay) → ∀ p ∈ w.plays, p = .ended
  opened : w.pc.opened = true → w.state = true
  noted : (∀ p ∈ w.plays, p = .ended) → lastNoted w.events = none

theorem joined_init : Joined init := ⟨nofun, nofun, nofun, fun _ => rfl⟩

/-- Where the last thread has ended all have. -/
theorem Joined.all_ended (h : Joined w) (hlast : w.plays.getLast? = some .ended) : ∀ p ∈ w.plays, p = .ended := by
  intro p hp
  obtain ⟨i, hi, rfl⟩ := List.getElem_of_mem hp
  by_cases hlt : i + 1 < w.plays.length
  · have := h.older i hlt
    rw [List.getElem?_eq_getElem hi] at this
    exact Option.some.inj this
  · rw [List.getLast?_eq_getElem?, show w.plays.length - 1 = i by omega, List.getElem?_eq_getElem hi] at hlast
    exact Option.some.inj hlast

theorem joined_play (h : Joined w) {i : ℕ} {frame : Option FrameHead} (hs : w.runPlay cb i frame = some t) : Joined t := by
  have hplay := runPlay_spec hs
  obtain ⟨p, q, hp, hrun, hplays, hnoted⟩ := hplay.thread
  have hi : i < w.plays.length := (List.getElem?_eq_some_iff.mp hp).1
  refine ⟨fun j hj => ?_, fun hbetween => ?_, fun hopened => ?_, fun hall => ?_⟩
  · rw [hplays, List.length_set] at hj
    have hold := h.older j hj
    have hne : i ≠ j := by
      rintro rfl
      rw [hp] at hold
      exact hrun (Option.some.inj hold)
    rw [hplays, List.getElem?_set_ne hne]
    exact hold
  · rw [hplay.pc, hplay.state] at hbetween
    exact absurd (h.between hbetween p (List.mem_of_getElem? hp)) hrun
  · rw [hplay.pc] at hopened
    rw [hplay.state]
    exact h.opened hopened
  · rw [hplays] at hall
    exact hnoted (hall q (List.mem_set hi q))

theorem joined_step (h : Joined w) {a : PbsAct} (ha : a ≠ .logout) (hs : step win cb w a = some t) : Joined t := by
  cases a with
  | logout => exact absurd rfl ha
  | login =>
    simp only [step] at hs
    split at hs
    · next hpc =>
      cases hs
      refine ⟨h.older, fun hbetween => h.between (.inr ⟨?_, by rw [hpc]; nofun⟩), nofun, h.noted⟩
      rcases hbetween with hfalse | ⟨hstate, -⟩
      · cases hfalse
      · exact hstate
    · cases hs
  | doPbs ok =>
    have hdo : DoPbs win w t ok := doPbs_spec hs
    refine ⟨?_, fun hbetween => ?_, fun hopened => ?_, ?_⟩
    · rw [hdo.plays]
      exact h.older
    · rw [hdo.plays]
      rcases hdo.between hbetween with hw | ⟨-, hlast⟩
      · exact h.between hw
      · exact h.all_ended hlast
    · rcases hdo.opened hopened with hstate | ⟨hw, hstate⟩
      · exact hstate
      · rw [hstate]
        exact h.opened hw
    · rw [hdo.plays, hdo.events]
      exact h.noted
  | create junk =>
    simp only [step] at hs
    split at hs
    · next hpc =>
      cases hs
      have hall := h.between (.inl (by rw [hpc]; rfl))
      have hstate := h.opened (by rw [hpc]; rfl)
      refine ⟨fun j hj => ?_, fun hbetween => ?_, nofun, fun hended => ?_⟩
      · rw [List.length_append, List.length_singleton] at hj
        have hj' : j < w.plays.length := Nat.lt_of_succ_lt_succ hj
        rw [List.getElem?_append_left hj', List.getElem?_eq_getElem hj', hall _ (List.getElem_mem hj')]
      · rcases hbetween with hfalse | ⟨hfalse, -⟩
        · cases hfalse
        · exact absurd (hstate.symm.trans hfalse) (by decide)
      · exact absurd (hended .start (by simp)) (by decide)
    · cases hs
  | play i frame => exact joined_play h hs
  | recv i ok =>
    simp only [step, runRecv] at hs
    split at hs
    · cases hs
      exact ⟨h.older, h.between, h.opened, h.noted⟩
    · cases hs

/-- Behind a stop nothing is noted. -/
theorem kept_iff_outside (h : Joined w) (a : PbsAct) : Kept win w a ↔ Outside win w a := by
  refine forall_congr' fun _ => forall_congr' fun hpc => ?_
  have hnone := h.noted (h.between (.inl (by rw [hpc]; rfl)))
  rw [hnone]
  constructor
  · rintro ⟨hsame, -⟩ hin
    rw [← hsame hin] at hin
    obtain ⟨sec, hsec, -⟩ := hin
    cases hsec
  · refine fun hout => ⟨fun hin => absurd hin hout, fun hin => ?_⟩
    obtain ⟨sec, hsec, -⟩ := hin
    cases hsec

theorem meets_kept_iff : ∀ {as : List PbsAct} {w : PbsWorld}, Joined w → PbsAct.logout ∉ as →
    (Meets (step win cb) (Kept win) w as ↔ Meets (step win cb) (Outside win) w as)
  | [], _, _, _ => Iff.rfl
  | a :: as, w, h, hout => by
    rw [List.mem_cons, not_or] at hout
    refine and_congr (kept_iff_outside h a) (forall_congr' fun t => forall_congr' fun ht => ?_)
    exact meets_kept_iff (joined_step h (fun ha => hout.1 ha.symm) ht) hout.2

end

/-- **Resuming.** The device is always asked to go on where playback stopped if and only if each time a last second inside
the window was noted and no play thread has begun or ended since, or there is none; without a logout, if and only if
there never is one. -/
theorem pbs_resumes_iff (win : Window) (cb : Bool) (as : List PbsAct) :
    (Reached (step win cb) (Resumes win) init as ↔ Meets (step win cb) (Kept win) init as) ∧
    (PbsAct.logout ∉ as →
      (Reached (step win cb) (Resumes win) init as ↔ Meets (step win cb) (Outside win) init as)) := by
  have hkept : Reached (step win cb) (Resumes win) init as ↔ Meets (step win cb) (Kept win) init as :=
    reached_iff_meets (I := Noted win) (fun _ _ _ h hok hs => noted_step h hok hs) (fun _ h => h.resumes)
      (fun _ _ h hbad => not_resumes h hbad) ⟨rfl, nofun⟩
  exact ⟨hkept, fun hout => hkept.trans (meets_kept_iff joined_init hout)⟩

/-- An I frame is delivered, the stream fails, and the slot is stopped and started again. -/
def restarted : List PbsAct :=
  [.login, .doPbs true, .doPbs true, .doPbs true, .doPbs true, .doPbs true, .doPbs true, .create ⟨0, 0⟩,
    .play 0 none, .play 0 none, .play 0 (some ⟨1, 150⟩), .play 0 none, .play 0 none, .recv 0 false,
    .doPbs true, .play 0 none, .play 0 none, .doPbs true, .doPbs true, .doPbs true, .doPbs true,
    .doPbs true, .doPbs true, .doPbs true, .doPbs true]

/-- Second 150 of the record from 100 to 200 was delivered, and the restart asks for 100. -/
theorem pbs_starts_over : ¬ Reached (step ⟨100, 200⟩ true) (Resumes ⟨100, 200⟩) init restarted := by
  intro h
  have hasks : (exec (step ⟨100, 200⟩ true) init restarted).map PbsWorld.asks = some [(100, none), (100, some 150)] := by
    decide +kernel
  obtain ⟨w, hw, hwasks⟩ := Option.map_eq_some_iff.mp hasks
  have hres := h restarted w (List.prefix_refl _) hw (100, some 150) (by rw [hwasks]; decide)
  exact absurd hres (by decide)

end PbsWorld

end Ys

end SabApp
