import SabApp.AesDecode
import SabApp.EventX
import SabApp.Files
import SabApp.Talk

/-!
# Live view (NetApi.c)

`LiveDataCallback` takes the frames of a channel from the network, and `SendFrame` shows the pictures in a thread of
its own. They share the last picture, its size and the numbers of frames and bytes since the last report, under a
lock; the callback posts an event for each picture, and the tick of the second comes from a third thread. What each
does under the lock is one step here, and so is each step of the wait for the event.
-/

namespace SabApp

namespace Live

open Talk (Heard hear)

/-- AUDIO_IN_SECOND -/
def audioInSecond : ℤ := 2 * 8192 + 100

/-- A picture that the decoder gives. -/
structure Picture where
  bytes : List UInt8
  width : Int32
  height : Int32

/-- What the callback uses: the reader of a picture's size, the AES library, and the video decoders, with the states
they have. `videoBegan` may fail; then `video_ended` is called at once. -/
structure Env (δ : Type) where
  getWidthAndHeight : List UInt8 → Option (ℤ × ℤ)
  aes : Aes
  videoBegan : UInt8 → UInt16 → UInt16 → Option δ
  videoDecode : δ → List UInt8 → δ × Option Picture

/-- A frame from the network: the fields of its head that are used, and the bytes behind it. -/
structure LiveFrame where
  len : UInt32
  sec : UInt32
  usec : UInt32
  width : UInt16
  height : UInt16
  frameType : UInt8
  frameSubType : UInt8
  security : UInt8
  paddingBytes : UInt8
  body : List UInt8

/-- The fields of `av_t` that are used; `tempbuf` is NULL where there was no memory for it. -/
structure View (δ : Type) where
  handle : Int32
  live : Int32
  status : UInt8
  vd : Option δ
  tempbuf : Option (List UInt8)
  mInitLen : ℕ
  tempbufLen : ℕ
  width : Int32
  height : Int32
  frameSubType : UInt8
  iframeFlag : Bool
  rawLen : Int32
  frameNum : Int32
  tick : ℤ
  audioLen : ℤ
  audioTick : ℤ
  sec : UInt32
  usec : UInt32
  pbflag : Bool
  recflag : Bool

/-- What is done on the way. -/
inductive Out where
  /-- `ShowStatus` -/
  | status (type : UInt8) (arg1 arg2 : ℤ)
  /-- `localRecord` -/
  | record (f : LiveFrame)
  /-- `frame_num ++` -/
  | counted
  | decoded (len : UInt32) (picture : List UInt8)
  /-- The decoder gives no picture. -/
  | failed
  /-- `eventx_post` -/
  | post
  /-- `showAudio` -/
  | audio (size : ℕ) (subType : UInt8)
  /-- `showVideo`; with the bytes and the frames since the last report, if it is time for one. -/
  | video (array : List UInt8) (width height : Int32) (report : Option (Int32 × Int32)) (status : UInt8)

variable {δ : Type}

/-! ## The callback -/

/-- The size of a key frame's picture, where its head is far off. -/
def corrected (env : Env δ) (f : LiveFrame) : LiveFrame :=
  if f.frameType = 1 ∧ f.frameSubType = 1 then
    match env.getWidthAndHeight f.body with
    | none => f
    | some (width, height) =>
      if ((f.width.toNat : ℤ) - width).natAbs < 10 ∧ ((f.height.toNat : ℤ) - height).natAbs < 10 then f
      else { f with width := .ofNat (width % 65536).toNat, height := .ofNat (height % 65536).toNat }
  else f

/-- A frame of a picture, under the lock. -/
def decodeVideo (env : Env δ) (f : LiveFrame) (v : View δ) : View δ × List Out :=
  let v := { v with status := f.frameType, frameNum := v.frameNum + 1 }
  match v.tempbuf with
  | none => ({ v with pbflag := false }, [.counted, .post])
  | some _ =>
    let same := v.frameSubType = f.frameSubType ∧ v.width = .ofNat f.width.toNat ∧ v.height = .ofNat f.height.toNat
    match if same ∧ v.vd.isSome then v.vd else env.videoBegan f.frameSubType f.width f.height with
    | none => ({ v with vd := none, iframeFlag := false, pbflag := false }, [.counted])
    | some d =>
      let v := { v with frameSubType := f.frameSubType, width := .ofNat f.width.toNat, height := .ofNat f.height.toNat }
      let clear : List UInt8 := List.replicate v.mInitLen 0
      match env.videoDecode d (f.body.take f.len.toNat) with
      | (d, none) => ({ v with vd := some d, tempbuf := some clear, pbflag := false }, [.counted, .failed])
      | (d, some p) =>
        ({ v with
            vd := some d, tempbuf := some (File.overlay clear 0 p.bytes), width := p.width, height := p.height
            rawLen := v.rawLen + f.len.toInt32, tempbufLen := p.bytes.length, sec := f.sec, usec := f.usec
            pbflag := false },
          [.counted, .decoded f.len p.bytes, .post])

/-- With the seconds, the amount of sound begins anew. -/
def View.sound (v : View δ) (tick : ℤ) : View δ :=
  { v with
    audioTick := if tick > v.audioTick then tick else v.audioTick
    audioLen := if tick > v.audioTick then 0 else v.audioLen }

/-- A frame of sound. One that is too long is left without a mark that the callback is through. -/
def hearAudio (tick : ℤ) (f : LiveFrame) (v : View δ) : Option (View δ × List Out) :=
  if f.len > 2048 then some (v, [])
  else
    let v := v.sound tick
    if v.audioLen > audioInSecond then some ({ v with pbflag := false }, [])
    else
      match hear f.frameSubType.toNat f.body with
      | .silence => some ({ v with pbflag := false }, [])
      | .wild => none
      | .samples xs =>
        let outsize := if f.frameSubType = 4 then f.body.length else 2 * xs.length
        some ({ v with audioLen := v.audioLen + outsize, pbflag := false }, [.audio outsize f.frameSubType])

/-- `width * height * 2` as an `int`. -/
def area (f : LiveFrame) : ℤ := (Int32.ofNat (f.width.toNat * f.height.toNat) * 2).toInt

/-- A frame that was let in, in the clear: it is recorded, and shown or heard. -/
def present (env : Env δ) (tick : ℤ) (f : LiveFrame) (v : View δ) : Option (View δ × List Out) :=
  let f := corrected env f
  if f.frameType ≠ 3 ∧ (area f > v.mInitLen ∨ f.width < 176 ∨ f.height < 144) then
    some ({ v with pbflag := false }, [.status 10 f.width.toNat f.height.toNat])
  else
    let recorded := if v.recflag then [.record f] else []
    if v.live = 0 then some ({ v with pbflag := false }, recorded)
    else if f.frameType = 3 then (hearAudio tick f v).map fun r => (r.1, recorded ++ r.2)
    else
      let r := decodeVideo env f v
      some (r.1, recorded ++ r.2)

/-- `power` and `wifisg` of a frame of information. -/
def cfgInfo (body : List UInt8) : ℤ × ℤ :=
  ((UInt32.ofNat (word32 body 0)).toInt32.toInt, (UInt32.ofNat (word32 body 4)).toInt32.toInt)

/-- `LiveDataCallback`. There is nothing behind a segment that AES copies past its end. -/
def liveDataCallback (env : Env δ) (tick : ℤ) (f : LiveFrame) (v : View δ) : Option (View δ × List Out) :=
  if v.handle = -1 then some (v, [])
  else if f.frameType > 100 then some ({ v with pbflag := false }, [.status f.frameType 0 0])
  else if f.frameType = 100 then
    some ({ v with pbflag := false }, [.status 100 (cfgInfo f.body).1 (cfgInfo f.body).2])
  else if f.frameType = 0 ∨ f.frameSubType = 0 then some ({ v with pbflag := false }, [])
  else if v.iframeFlag = false ∧ f.frameType ≠ 1 then some ({ v with pbflag := false }, [])
  else
    let v := { v with iframeFlag := true, pbflag := true }
    if f.security = 1 then
      match AesDecode.Aes_Decode env.aes f.body f.len.toInt32.toInt f.paddingBytes.toNat with
      | none => none
      | some (ret, body, len) =>
        let f := { f with len := .ofNat (len % 4294967296).toNat, body := body }
        if ret < 0 then some ({ v with pbflag := false }, []) else present env tick f v
    else present env tick f v

/-! ## The thread that shows the pictures -/

/-- The second of the last report; the first one waits for the next second. -/
def View.reported (v : View δ) (tick : ℤ) : ℤ := if v.tick = -1 then tick else v.tick

/-- What a call of `eventx_wait` that returned 0 leads to, under the lock. -/
def sendFrame (tick : ℤ) (v : View δ) (array : List UInt8) : View δ × List UInt8 × List Out :=
  if v.status ≥ 10 then
    ({ v with status := 0 }, array, [.video array v.width v.height (some (0, 0)) v.status])
  else
    match v.tempbuf with
    | none => (v, array, [])
    | some buf =>
      let array := File.overlay array 0 (buf.take v.tempbufLen)
      let w := { v with tempbufLen := 0, status := 0, tick := v.reported tick }
      if tick > v.reported tick then
        ({ w with tick := tick, rawLen := 0, frameNum := 0 }, array,
          [.video array v.width v.height (some (v.rawLen, v.frameNum)) v.status])
      else (w, array, [.video array v.width v.height none v.status])

/-- The view of a channel, the event, whether a call of `eventx_wait` has returned 0, the seconds, and what was done. -/
structure Sys (δ : Type) where
  view : View δ
  event : EventX.Event
  got : Bool
  tick : ℤ
  array : List UInt8
  log : List Out

inductive Act where
  | frame (f : LiveFrame)
  | second
  /-- `SetLiveFlag`, and the start and the end of a recording. -/
  | setLive (flag : Int32)
  | setRec (flag : Bool)
  /-- A step of `eventx_wait`. -/
  | wait (a : EventX.Act)
  | send

def posted (outs : List Out) : Bool := outs.any fun o => match o with | .post => true | _ => false

def step (env : Env δ) (s : Sys δ) : Act → Option (Sys δ)
  | .frame f =>
    (liveDataCallback env s.tick f s.view).bind fun r =>
      if posted r.2 then
        (EventX.step 1000 s.event .post).map fun e => { s with view := r.1, event := e, log := s.log ++ r.2 }
      else some { s with view := r.1, log := s.log ++ r.2 }
  | .second => some { s with tick := s.tick + 1 }
  | .setLive flag => some { s with view.live := flag }
  | .setRec flag => some { s with view.recflag := flag }
  | .wait a =>
    if s.got ∨ a = .post then none
    else (EventX.step 1000 s.event a).map fun e =>
      { s with event := e, got := e.returns.length ≠ s.event.returns.length ∧ e.returns.getLast? = some 0 }
  | .send =>
    if s.got then
      let r := sendFrame s.tick s.view s.array
      some { s with view := r.1, array := r.2.1, log := s.log ++ r.2.2, got := false }
    else none

/-! ## The end of a view -/

/-- What comes of a channel, as `AvDone` sees it: a call of the callback, and its own mark that the channel is closed. -/
inductive Turn where
  | call (tick : ℤ) (f : LiveFrame)
  | close

def turn (env : Env δ) (v : View δ) : Turn → Option (View δ)
  | .call tick f => (liveDataCallback env tick f v).map Prod.fst
  | .close => some { v with handle := -1 }

/-- The bytes of a frame in the clear, as many as its head says then. -/
def clearLen (env : Env δ) (f : LiveFrame) : UInt32 :=
  if f.security = 1 then
    match AesDecode.Aes_Decode env.aes f.body f.len.toInt32.toInt f.paddingBytes.toNat with
    | none => 0
    | some (ret, _, len) => if ret < 0 then 0 else .ofNat (len % 4294967296).toNat
  else f.len

/-- A frame of sound for a channel that is shown, with more bytes than the callback takes. -/
def Overlong (env : Env δ) (f : LiveFrame) (v : View δ) : Prop :=
  f.frameType = 3 ∧ f.frameSubType ≠ 0 ∧ v.iframeFlag = true ∧ v.live ≠ 0 ∧ clearLen env f > 2048

/-! ## What a call can do -/

section
variable {env : Env δ} {tick : ℤ} {f : LiveFrame} {v v' : View δ} {outs : List Out}

/-- A status is shown, or the frame is recorded. -/
def Plain : Out → Prop
  | .status _ _ _ => True
  | .record _ => True
  | _ => False

/-- The view with the flags of a frame that is let in. -/
def View.let_in (v : View δ) : View δ := { v with iframeFlag := true, pbflag := true }

inductive Called (env : Env δ) (tick : ℤ) (v : View δ) : View δ × List Out → Prop
  | closed (handle : v.handle = -1) : Called env tick v (v, [])
  | plain (iframeFlag : Bool) (outs : List Out) (plain : ∀ o ∈ outs, Plain o) :
    Called env tick v ({ v with iframeFlag := iframeFlag, pbflag := false }, outs)
  | audio (g : LiveFrame) (recorded : List Out) (r : View δ × List Out) (plain : ∀ o ∈ recorded, Plain o)
    (heard : hearAudio tick g v.let_in = some r) : Called env tick v (r.1, recorded ++ r.2)
  | video (g : LiveFrame) (recorded : List Out) (plain : ∀ o ∈ recorded, Plain o) :
    Called env tick v ((decodeVideo env g v.let_in).1, recorded ++ (decodeVideo env g v.let_in).2)

theorem plain_one {o : Out} (h : Plain o) : ∀ p ∈ [o], Plain p := by
  intro p hp
  rw [List.eq_of_mem_singleton hp]
  exact h

theorem plain_recorded (b : Bool) (f : LiveFrame) : ∀ p ∈ (if b then [Out.record f] else []), Plain p := by
  cases b with
  | true => exact plain_one trivial
  | false => exact fun p hp => absurd hp List.not_mem_nil

theorem plain_nil : ∀ p ∈ ([] : List Out), Plain p := fun _ hp => absurd hp List.not_mem_nil

theorem present_called {r : View δ × List Out} (h : present env tick f v.let_in = some r) : Called env tick v r := by
  unfold present at h
  dsimp only at h
  split at h
  · rw [← Option.some.inj h]
    exact .plain true _ (plain_one trivial)
  · split at h
    · rw [← Option.some.inj h]
      exact .plain true _ (plain_recorded _ _)
    · split at h
      · obtain ⟨r', hr', rfl⟩ := Option.map_eq_some_iff.mp h
        exact .audio _ _ r' (plain_recorded _ _) hr'
      · rw [← Option.some.inj h]
        exact .video _ _ (plain_recorded _ _)

/-- **A call**: what comes of a frame, whatever it is. -/
theorem callback_called {r : View δ × List Out} (h : liveDataCallback env tick f v = some r) : Called env tick v r := by
  unfold liveDataCallback at h
  split at h
  · rename_i hhandle
    rw [← Option.some.inj h]
    exact .closed hhandle
  split at h
  · rw [← Option.some.inj h]
    exact .plain v.iframeFlag _ (plain_one trivial)
  split at h
  · rw [← Option.some.inj h]
    exact .plain v.iframeFlag _ (plain_one trivial)
  split at h
  · rw [← Option.some.inj h]
    exact .plain v.iframeFlag _ plain_nil
  split at h
  · rw [← Option.some.inj h]
    exact .plain v.iframeFlag _ plain_nil
  split at h
  · split at h
    · cases h
    · split at h
      · rw [← Option.some.inj h]
        exact .plain true _ plain_nil
      · exact present_called h
  · exact present_called h

/-- A frame of sound: the time and the amount of sound change, and the mark that the callback is through. -/
theorem hearAudio_cases {r : View δ × List Out} (h : hearAudio tick f v = some r) :
    (∃ audioTick audioLen pbflag, r.1 = { v with audioTick := audioTick, audioLen := audioLen, pbflag := pbflag }) ∧
      (r.2 = [] ∨ ∃ size subType, r.2 = [.audio size subType]) := by
  unfold hearAudio at h
  split at h
  · rw [← Option.some.inj h]
    exact ⟨⟨v.audioTick, v.audioLen, v.pbflag, rfl⟩, .inl rfl⟩
  · dsimp only at h
    split at h
    · rw [← Option.some.inj h]
      exact ⟨⟨(v.sound tick).audioTick, (v.sound tick).audioLen, false, rfl⟩, .inl rfl⟩
    · split at h
      · rw [← Option.some.inj h]
        exact ⟨⟨(v.sound tick).audioTick, (v.sound tick).audioLen, false, rfl⟩, .inl rfl⟩
      · cases h
      · rw [← Option.some.inj h]
        exact ⟨⟨(v.sound tick).audioTick, _, false, rfl⟩, .inr ⟨_, _, rfl⟩⟩

/-! ## Frames and bytes that were reported -/

def total (g : Out → Int32) : List Out → Int32
  | [] => 0
  | o :: os => g o + total g os

theorem total_append (g : Out → Int32) (os ps : List Out) : total g (os ++ ps) = total g os + total g ps := by
  induction os with
  | nil => exact (Int32.zero_add _).symm
  | cons o os ih => rw [List.cons_append, total, total, ih, Int32.add_assoc]

def framesIn : Out → Int32
  | .counted => 1
  | _ => 0

def bytesIn : Out → Int32
  | .decoded len _ => len.toInt32
  | _ => 0

def framesOut : Out → Int32
  | .video _ _ _ (some report) _ => report.2
  | _ => 0

def bytesOut : Out → Int32
  | .video _ _ _ (some report) _ => report.1
  | _ => 0

theorem total_plain {g : Out → Int32} (hg : ∀ o, Plain o → g o = 0) {outs : List Out} (h : ∀ o ∈ outs, Plain o) :
    total g outs = 0 := by
  induction outs with
  | nil => rfl
  | cons o os ih =>
    rw [total, hg o (h o List.mem_cons_self), ih fun p hp => h p (List.mem_cons_of_mem _ hp)]
    rfl

/-- What a step adds to the numbers since the last report, by what it did. -/
structure Spends (v v' : View δ) (outs : List Out) : Prop where
  frames : v.frameNum + total framesIn outs = v'.frameNum + total framesOut outs
  bytes : v.rawLen + total bytesIn outs = v'.rawLen + total bytesOut outs

theorem Spends.of_plain (h : ∀ o ∈ outs, Plain o) (hframes : v'.frameNum = v.frameNum) (hbytes : v'.rawLen = v.rawLen) :
    Spends v v' outs := by
  have hzero : ∀ {g : Out → Int32}, (∀ o, Plain o → g o = 0) → total g outs = 0 := fun hg => total_plain hg h
  constructor
  · rw [hframes, hzero fun o ho => by cases o <;> first | rfl | exact ho.elim,
      hzero fun o ho => by cases o <;> first | rfl | exact ho.elim]
  · rw [hbytes, hzero fun o ho => by cases o <;> first | rfl | exact ho.elim,
      hzero fun o ho => by cases o <;> first | rfl | exact ho.elim]

theorem Spends.append {v'' : View δ} {outs' : List Out} (h : Spends v v' outs) (h' : Spends v' v'' outs') :
    Spends v v'' (outs ++ outs') := by
  constructor
  · rw [total_append, total_append, ← Int32.add_assoc, h.frames, Int32.add_assoc, Int32.add_comm (total framesOut outs),
      ← Int32.add_assoc, h'.frames, Int32.add_assoc, Int32.add_comm (total framesOut outs)]
  · rw [total_append, total_append, ← Int32.add_assoc, h.bytes, Int32.add_assoc, Int32.add_comm (total bytesOut outs),
      ← Int32.add_assoc, h'.bytes, Int32.add_assoc, Int32.add_comm (total bytesOut outs)]

theorem decodeVideo_spends (env : Env δ) (f : LiveFrame) (v : View δ) :
    Spends v (decodeVideo env f v).1 (decodeVideo env f v).2 := by
  unfold decodeVideo
  dsimp only
  split
  · exact ⟨by simp [total, framesIn, framesOut], by simp [total, bytesIn, bytesOut]⟩
  · split
    · exact ⟨by simp [total, framesIn, framesOut], by simp [total, bytesIn, bytesOut]⟩
    · split
      · exact ⟨by simp [total, framesIn, framesOut], by simp [total, bytesIn, bytesOut]⟩
      · exact ⟨by simp [total, framesIn, framesOut], by simp [total, bytesIn, bytesOut]⟩

theorem Called.spends {r : View δ × List Out} (h : Called env tick v r) : Spends v r.1 r.2 := by
  cases h with
  | closed => exact .of_plain plain_nil rfl rfl
  | plain _ _ hplain => exact .of_plain hplain rfl rfl
  | audio g recorded r hplain heard =>
    obtain ⟨⟨audioTick, audioLen, pbflag, hr⟩, houts⟩ := hearAudio_cases heard
    have hsame : Spends v r.1 recorded := .of_plain hplain (by rw [hr]; rfl) (by rw [hr]; rfl)
    refine hsame.append ?_
    rcases houts with hnil | ⟨size, subType, hone⟩
    · rw [hnil]
      exact .of_plain plain_nil rfl rfl
    · rw [hone]
      exact ⟨rfl, rfl⟩
  | video g recorded hplain =>
    have hrec : Spends v v.let_in recorded := .of_plain hplain rfl rfl
    exact hrec.append (decodeVideo_spends env g v.let_in)

/-- A report says what has come since the one before. -/
theorem sendFrame_spends (tick : ℤ) (v : View δ) (array : List UInt8) :
    Spends v (sendFrame tick v array).1 (sendFrame tick v array).2.2 := by
  unfold sendFrame
  split
  · exact ⟨by simp [total, framesIn, framesOut], by simp [total, bytesIn, bytesOut]⟩
  · split
    · exact ⟨rfl, rfl⟩
    · dsimp only
      split
      · exact ⟨by simp [total, framesIn, framesOut], by simp [total, bytesIn, bytesOut]⟩
      · exact ⟨by simp [total, framesIn, framesOut], by simp [total, bytesIn, bytesOut]⟩

/-- A step adds to the log, and the numbers go with it. -/
theorem step_spends {s s' : Sys δ} {a : Act} (h : step env s a = some s') :
    ∃ outs, s'.log = s.log ++ outs ∧ Spends s.view s'.view outs := by
  cases a with
  | frame f =>
    obtain ⟨r, hr, h⟩ := Option.bind_eq_some_iff.mp h
    have hspends := (callback_called hr).spends
    split at h
    · obtain ⟨e, -, rfl⟩ := Option.map_eq_some_iff.mp h
      exact ⟨r.2, rfl, hspends⟩
    · rw [← Option.some.inj h]
      exact ⟨r.2, rfl, hspends⟩
  | second =>
    rw [← Option.some.inj h]
    exact ⟨[], (List.append_nil _).symm, .of_plain plain_nil rfl rfl⟩
  | setLive flag =>
    rw [← Option.some.inj h]
    exact ⟨[], (List.append_nil _).symm, .of_plain plain_nil rfl rfl⟩
  | setRec flag =>
    rw [← Option.some.inj h]
    exact ⟨[], (List.append_nil _).symm, .of_plain plain_nil rfl rfl⟩
  | wait a =>
    unfold step at h
    dsimp only at h
    split at h
    · cases h
    · obtain ⟨e, -, rfl⟩ := Option.map_eq_some_iff.mp h
      exact ⟨[], (List.append_nil _).symm, .of_plain plain_nil rfl rfl⟩
  | send =>
    obtain ⟨-, h⟩ := Option.ite_none_right_eq_some.mp h
    rw [← Option.some.inj h]
    exact ⟨_, rfl, sendFrame_spends s.tick s.view s.array⟩

/-- **Reports**: whatever the order of the frames, the seconds and the steps of the thread that shows them, all frames that
were counted and all bytes that were decoded have been reported once or are still to be. -/
theorem reports_complete {s s' : Sys δ} {as : List Act} (h : exec (step env) s as = some s') :
    ∃ outs, s'.log = s.log ++ outs ∧ s.view.frameNum + total framesIn outs = s'.view.frameNum + total framesOut outs ∧
      s.view.rawLen + total bytesIn outs = s'.view.rawLen + total bytesOut outs := by
  have hrun : ∃ outs, s'.log = s.log ++ outs ∧ Spends s.view s'.view outs := by
    induction as generalizing s with
    | nil =>
      rw [← Option.some.inj h]
      exact ⟨[], (List.append_nil _).symm, .of_plain plain_nil rfl rfl⟩
    | cons a as ih =>
      obtain ⟨s₁, h₁, hrest⟩ := Option.bind_eq_some_iff.mp h
      obtain ⟨outs₁, hlog₁, hspends₁⟩ := step_spends h₁
      obtain ⟨outs₂, hlog₂, hspends₂⟩ := ih hrest
      refine ⟨outs₁ ++ outs₂, ?_, hspends₁.append hspends₂⟩
      rw [hlog₂, hlog₁, List.append_assoc]
  obtain ⟨outs, hlog, hspends⟩ := hrun
  exact ⟨outs, hlog, hspends.frames, hspends.bytes⟩

/-- A decoder that gives back what it gets. -/
def copying : Env Unit :=
  ⟨fun _ => none, AesDecode.blockAes, fun _ _ _ => some (), fun d body => (d, some ⟨body, 176, 144⟩)⟩

def keyFrame : LiveFrame := ⟨2, 0, 0, 176, 144, 1, 1, 0, 0, [7, 8]⟩

/-- A channel as it was opened, with no decoder yet. -/
def opened : Sys Unit :=
  ⟨⟨0, 1, 0, none, some [], 176 * 144 * 2, 0, 0, 0, 0, false, 0, 0, -1, 0, 0, 0, 0, false, false⟩, EventX.init, false, 0, [],
    []⟩

/-- The channel after one frame that was shown. -/
def oneShown : Sys Unit :=
  ⟨⟨0, 1, 0, some (), some (File.overlay (List.replicate (176 * 144 * 2) 0) 0 [7, 8]), 176 * 144 * 2, 0, 176, 144, 1, true, 2,
      1, 0, 0, 0, 0, 0, false, false⟩,
    ⟨false, .out, [0]⟩, false, 0, File.overlay [] 0 ((File.overlay (List.replicate (176 * 144 * 2) 0) 0 [7, 8]).take 2),
    [.counted, .decoded 2 [7, 8], .post,
      .video (File.overlay [] 0 ((File.overlay (List.replicate (176 * 144 * 2) 0) 0 [7, 8]).take 2)) 176 144 none 1]⟩

theorem oneShown_runs : exec (step copying) opened [.frame keyFrame, .wait .check, .send] = some oneShown := rfl

theorem reports_complete_one : ∃ outs, oneShown.log = opened.log ++ outs ∧
    opened.view.frameNum + total framesIn outs = oneShown.view.frameNum + total framesOut outs ∧
      opened.view.rawLen + total bytesIn outs = oneShown.view.rawLen + total bytesOut outs :=
  reports_complete oneShown_runs

/-! ## Pictures -/

/-- What the decoder gave last, if it gave a picture. -/
def newest : Option (List UInt8) → List Out → Option (List UInt8)
  | p, [] => p
  | _, .decoded _ picture :: os => newest (some picture) os
  | _, .failed :: os => newest none os
  | p, _ :: os => newest p os

/-- What is shown begins with what the decoder gave last, where it gave a picture. -/
def Current : Option (List UInt8) → List Out → Prop
  | _, [] => True
  | _, .decoded _ picture :: os => Current (some picture) os
  | _, .failed :: os => Current none os
  | p, .video array _ _ _ status :: os =>
    (status < 10 → ∀ picture, p = some picture → array.take picture.length = picture) ∧ Current p os
  | p, _ :: os => Current p os

theorem newest_append (p : Option (List UInt8)) (os ps : List Out) : newest p (os ++ ps) = newest (newest p os) ps := by
  induction os generalizing p with
  | nil => rfl
  | cons o os ih => cases o <;> exact ih _

theorem current_append (p : Option (List UInt8)) (os ps : List Out) :
    Current p (os ++ ps) ↔ Current p os ∧ Current (newest p os) ps := by
  induction os generalizing p with
  | nil => exact ⟨fun h => ⟨trivial, h⟩, And.right⟩
  | cons o os ih =>
    cases o with
    | video array width height report status => exact (and_congr_right' (ih p)).trans and_assoc.symm
    | _ => exact ih _

theorem newest_plain {p : Option (List UInt8)} {outs : List Out} (h : ∀ o ∈ outs, Plain o) :
    newest p outs = p ∧ Current p outs := by
  induction outs with
  | nil => exact ⟨rfl, trivial⟩
  | cons o os ih =>
    have ho := h o List.mem_cons_self
    have hrest := ih fun q hq => h q (List.mem_cons_of_mem _ hq)
    cases o with
    | status type arg1 arg2 => exact hrest
    | record f => exact hrest
    | _ => exact ho.elim

/-- The picture that the decoder gave last waits to be shown, or was. -/
def Ready (v : View δ) (array : List UInt8) : Option (List UInt8) → Prop
  | none => True
  | some picture =>
    (v.tempbufLen = picture.length ∧ ∃ buf, v.tempbuf = some buf ∧ buf.take picture.length = picture) ∨
      (v.tempbufLen = 0 ∧ array.take picture.length = picture)

theorem Ready.of_same {array : List UInt8} {p : Option (List UInt8)} (h : Ready v array p)
    (hbuf : v'.tempbuf = v.tempbuf) (hlen : v'.tempbufLen = v.tempbufLen) : Ready v' array p := by
  cases p with
  | none => trivial
  | some picture =>
    unfold Ready at h ⊢
    rw [hbuf, hlen]
    exact h

/-- What a step of a view does to the pictures. -/
structure Shows (array' : List UInt8) (p : Option (List UInt8)) (v' : View δ) (outs : List Out) : Prop where
  current : Current p outs
  ready : Ready v' array' (newest p outs)

theorem decodeVideo_shows {array : List UInt8} {p : Option (List UInt8)} (env : Env δ) (f : LiveFrame)
    (h : Ready v array p) : Shows array p (decodeVideo env f v).1 (decodeVideo env f v).2 := by
  unfold decodeVideo
  dsimp only
  split
  · exact ⟨trivial, h.of_same rfl rfl⟩
  · rename_i buf hbuf
    split
    · exact ⟨trivial, h.of_same rfl rfl⟩
    · split
      · exact ⟨trivial, trivial⟩
      · rename_i picture _
        refine ⟨trivial, .inl ⟨rfl, _, rfl, ?_⟩⟩
        rw [File.overlay_front]
        exact List.take_left

theorem Called.shows {r : View δ × List Out} {array : List UInt8} {p : Option (List UInt8)} (h : Called env tick v r)
    (hready : Ready v array p) : Shows array p r.1 r.2 := by
  cases h with
  | closed => exact ⟨trivial, hready⟩
  | plain _ _ hplain =>
    obtain ⟨hnewest, hcurrent⟩ := newest_plain (p := p) hplain
    exact ⟨hcurrent, by rw [hnewest]; exact hready.of_same rfl rfl⟩
  | audio g recorded r hplain heard =>
    obtain ⟨⟨audioTick, audioLen, pbflag, hr⟩, houts⟩ := hearAudio_cases heard
    obtain ⟨hnewest, hcurrent⟩ := newest_plain (p := p) hplain
    have hlater : newest p (recorded ++ r.2) = p ∧ Current p (recorded ++ r.2) := by
      rw [newest_append, current_append, hnewest]
      rcases houts with hnil | ⟨size, subType, hone⟩
      · rw [hnil]
        exact ⟨rfl, hcurrent, trivial⟩
      · rw [hone]
        exact ⟨rfl, hcurrent, trivial⟩
    exact ⟨hlater.2, by rw [hlater.1]; exact hready.of_same (by rw [hr]; rfl) (by rw [hr]; rfl)⟩
  | video g recorded hplain =>
    obtain ⟨hnewest, hcurrent⟩ := newest_plain (p := p) hplain
    have hdraw : Shows array p _ _ := decodeVideo_shows (v := v.let_in) env g (hready.of_same rfl rfl)
    exact ⟨(current_append _ _ _).mpr ⟨hcurrent, by rw [hnewest]; exact hdraw.current⟩,
      by rw [newest_append, hnewest]; exact hdraw.ready⟩

theorem sendFrame_shows {array : List UInt8} {p : Option (List UInt8)} (tick : ℤ) (h : Ready v array p) :
    Shows (sendFrame tick v array).2.1 p (sendFrame tick v array).1 (sendFrame tick v array).2.2 := by
  unfold sendFrame
  split
  · rename_i hstatus
    refine ⟨⟨fun hlt => ?_, trivial⟩, h.of_same rfl rfl⟩
    exact absurd hlt (UInt8.not_lt.mpr hstatus)
  · split
    · exact ⟨trivial, h⟩
    · rename_i buf hbuf
      -- what goes to the array is the picture that waits, or nothing
      have hshown : ∀ picture, p = some picture →
          (File.overlay array 0 (buf.take v.tempbufLen)).take picture.length = picture := by
        rintro picture rfl
        rw [File.overlay_front]
        rcases h with ⟨hlen, buf', hbuf', htake⟩ | ⟨hlen, htake⟩
        · rw [hbuf'] at hbuf
          rw [hlen, ← Option.some.inj hbuf, htake, List.take_left]
        · rw [hlen]
          exact htake
      have hready : ∀ {w : View δ}, w.tempbufLen = 0 → Ready w (File.overlay array 0 (buf.take v.tempbufLen)) p := by
        intro w hw
        cases p with
        | none => trivial
        | some picture => exact .inr ⟨hw, hshown picture rfl⟩
      dsimp only
      split
      · exact ⟨⟨fun _ => hshown, trivial⟩, hready rfl⟩
      · exact ⟨⟨fun _ => hshown, trivial⟩, hready rfl⟩

theorem step_shows {s s' : Sys δ} {a : Act} {p : Option (List UInt8)} (h : step env s a = some s')
    (hready : Ready s.view s.array p) : ∃ outs, s'.log = s.log ++ outs ∧ Shows s'.array p s'.view outs := by
  have hsame : ∃ outs, s.log = s.log ++ outs ∧ Shows s.array p s.view outs :=
    ⟨[], (List.append_nil _).symm, trivial, hready⟩
  cases a with
  | frame f =>
    obtain ⟨r, hr, h⟩ := Option.bind_eq_some_iff.mp h
    have hshows := (callback_called hr).shows hready
    split at h
    · obtain ⟨e, -, rfl⟩ := Option.map_eq_some_iff.mp h
      exact ⟨r.2, rfl, hshows⟩
    · rw [← Option.some.inj h]
      exact ⟨r.2, rfl, hshows⟩
  | second =>
    rw [← Option.some.inj h]
    exact hsame
  | setLive flag =>
    rw [← Option.some.inj h]
    exact ⟨[], (List.append_nil _).symm, trivial, hready.of_same rfl rfl⟩
  | setRec flag =>
    rw [← Option.some.inj h]
    exact ⟨[], (List.append_nil _).symm, trivial, hready.of_same rfl rfl⟩
  | wait a =>
    unfold step at h
    dsimp only at h
    split at h
    · cases h
    · obtain ⟨e, -, rfl⟩ := Option.map_eq_some_iff.mp h
      exact hsame
  | send =>
    obtain ⟨-, h⟩ := Option.ite_none_right_eq_some.mp h
    rw [← Option.some.inj h]
    exact ⟨_, rfl, sendFrame_shows s.tick hready⟩

/-- **Pictures**: whatever the order of the steps, what is shown for a picture begins with the one the decoder gave last,
unless the decoder failed after it. -/
theorem shown_newest {s s' : Sys δ} {as : List Act} {p : Option (List UInt8)} (h : exec (step env) s as = some s')
    (hready : Ready s.view s.array p) : ∃ outs, s'.log = s.log ++ outs ∧ Current p outs := by
  induction as generalizing s p with
  | nil =>
    rw [← Option.some.inj h]
    exact ⟨[], (List.append_nil _).symm, trivial⟩
  | cons a as ih =>
    obtain ⟨s₁, h₁, hrest⟩ := Option.bind_eq_some_iff.mp h
    obtain ⟨outs₁, hlog₁, hshows⟩ := step_shows h₁ hready
    obtain ⟨outs₂, hlog₂, hcurrent⟩ := ih hrest hshows.ready
    exact ⟨outs₁ ++ outs₂, by rw [hlog₂, hlog₁, List.append_assoc],
      (current_append _ _ _).mpr ⟨hshows.current, hcurrent⟩⟩

theorem shown_newest_one : ∃ outs, oneShown.log = opened.log ++ outs ∧ Current none outs :=
  shown_newest oneShown_runs trivial

/-! ## The mark that `AvDone` waits for -/

theorem corrected_same (env : Env δ) (f : LiveFrame) :
    (corrected env f).frameType = f.frameType ∧ (corrected env f).len = f.len := by
  unfold corrected
  split
  · split
    · exact ⟨rfl, rfl⟩
    · split
      · exact ⟨rfl, rfl⟩
      · exact ⟨rfl, rfl⟩
  · exact ⟨rfl, rfl⟩

theorem decodeVideo_mark (env : Env δ) (f : LiveFrame) (v : View δ) : (decodeVideo env f v).1.pbflag = false := by
  unfold decodeVideo
  dsimp only
  split
  · rfl
  · split
    · rfl
    · split
      · rfl
      · rfl

theorem hearAudio_mark {r : View δ × List Out} (hmark : v.pbflag = true) (h : hearAudio tick f v = some r) :
    r.1.pbflag = true ↔ f.len > 2048 := by
  unfold hearAudio at h
  split at h
  · rename_i hlong
    rw [← Option.some.inj h]
    exact iff_of_true hmark hlong
  · rename_i hshort
    refine iff_of_false ?_ hshort
    dsimp only at h
    split at h
    · rw [← Option.some.inj h]
      exact Bool.false_ne_true
    · split at h
      · rw [← Option.some.inj h]
        exact Bool.false_ne_true
      · cases h
      · rw [← Option.some.inj h]
        exact Bool.false_ne_true

theorem present_mark {r : View δ × List Out} (h : present env tick f v.let_in = some r) :
    r.1.pbflag = true ↔ f.frameType = 3 ∧ v.live ≠ 0 ∧ f.len > 2048 := by
  obtain ⟨htype, hlen⟩ := corrected_same env f
  rw [← htype, ← hlen]
  unfold present at h
  dsimp only at h
  split at h
  · rename_i hsize
    rw [← Option.some.inj h]
    exact iff_of_false Bool.false_ne_true fun hlong => hsize.1 hlong.1
  · split at h
    · rename_i hlive
      rw [← Option.some.inj h]
      exact iff_of_false Bool.false_ne_true fun hlong => hlong.2.1 hlive
    · rename_i hlive
      split at h
      · rename_i haudio
        obtain ⟨r', hr', rfl⟩ := Option.map_eq_some_iff.mp h
        have hmark : r'.1.pbflag = true ↔ (corrected env f).len > 2048 := hearAudio_mark rfl hr'
        exact hmark.trans ⟨fun hlong => ⟨haudio, hlive, hlong⟩, fun hlong => hlong.2.2⟩
      · rename_i hvideo
        rw [← Option.some.inj h]
        exact iff_of_false (by rw [decodeVideo_mark]; exact Bool.false_ne_true) fun hlong => hvideo hlong.1

theorem callback_mark {r : View δ × List Out} (hopen : v.handle ≠ -1) (h : liveDataCallback env tick f v = some r) :
    r.1.pbflag = true ↔ Overlong env f v := by
  unfold liveDataCallback at h
  rw [if_neg hopen] at h
  split at h
  · rename_i htype
    rw [← Option.some.inj h]
    exact iff_of_false Bool.false_ne_true fun hlong => absurd (hlong.1 ▸ htype) (by decide)
  split at h
  · rename_i htype
    rw [← Option.some.inj h]
    exact iff_of_false Bool.false_ne_true fun hlong => absurd (hlong.1.symm.trans htype) (by decide)
  split at h
  · rename_i hnone
    rw [← Option.some.inj h]
    refine iff_of_false Bool.false_ne_true fun hlong => ?_
    rcases hnone with htype | hsub
    · exact absurd (hlong.1.symm.trans htype) (by decide)
    · exact hlong.2.1 hsub
  rename_i hsome
  have hsub : f.frameSubType ≠ 0 := fun h => hsome (.inr h)
  split at h
  · rename_i hearly
    rw [← Option.some.inj h]
    exact iff_of_false Bool.false_ne_true fun hlong => absurd (hearly.1.symm.trans hlong.2.2.1) Bool.false_ne_true
  rename_i hlate
  -- a frame of sound is let in after a key frame only
  have hflag : f.frameType = 3 → v.iframeFlag = true := fun htype =>
    Bool.not_eq_false _ |>.mp fun hfalse => hlate ⟨hfalse, by rw [htype]; decide⟩
  have hlong : ∀ {g : LiveFrame}, g.frameType = f.frameType → g.len = clearLen env f →
      present env tick g v.let_in = some r → (r.1.pbflag = true ↔ Overlong env f v) := by
    intro g htype hlen hg
    rw [present_mark hg, htype, hlen]
    exact ⟨fun hlong => ⟨hlong.1, hsub, hflag hlong.1, hlong.2⟩, fun hlong => ⟨hlong.1, hlong.2.2.2⟩⟩
  split at h
  · rename_i hsecurity
    split at h
    · cases h
    · rename_i ret body len hdecode
      split at h
      · rename_i hret
        rw [← Option.some.inj h]
        refine iff_of_false Bool.false_ne_true fun hlong => ?_
        have hzero : clearLen env f = 0 := by
          unfold clearLen
          rw [if_pos hsecurity, hdecode]
          exact if_pos hret
        exact absurd (hzero ▸ hlong.2.2.2.2) (by decide)
      · rename_i hret
        refine hlong (g := { f with len := .ofNat (len % 4294967296).toNat, body := body }) rfl ?_ h
        unfold clearLen
        rw [if_pos hsecurity, hdecode]
        exact (if_neg hret).symm
  · rename_i hsecurity
    exact hlong rfl (if_neg hsecurity).symm h

theorem turns_closed {ts : List Turn} (hclosed : v.handle = -1) (h : exec (turn env) v ts = some v') : v' = v := by
  induction ts generalizing v with
  | nil => exact (Option.some.inj h).symm
  | cons t ts ih =>
    obtain ⟨v₁, h₁, hrest⟩ := Option.bind_eq_some_iff.mp h
    cases t with
    | call tick f =>
      obtain ⟨r, hr, rfl⟩ := Option.map_eq_some_iff.mp h₁
      unfold liveDataCallback at hr
      rw [if_pos hclosed] at hr
      rw [← Option.some.inj hr] at hrest
      exact ih hclosed hrest
    | close =>
      rw [← Option.some.inj h₁] at hrest
      refine (ih rfl hrest).trans ?_
      rw [← hclosed]

/-- **The end of a view**: once the channel is closed nothing changes the mark, so `AvDone` waits for ever exactly where
the last frame before was a frame of sound with more than 2048 bytes. -/
theorem done_waits {ts : List Turn} (hopen : v.handle ≠ -1)
    (h : exec (turn env) v (.call tick f :: .close :: ts) = some v') : v'.pbflag = true ↔ Overlong env f v := by
  obtain ⟨v₁, h₁, hrest⟩ := Option.bind_eq_some_iff.mp h
  obtain ⟨r, hr, rfl⟩ := Option.map_eq_some_iff.mp h₁
  obtain ⟨v₂, h₂, hrest⟩ := Option.bind_eq_some_iff.mp hrest
  rw [← Option.some.inj h₂] at hrest
  rw [turns_closed rfl hrest]
  exact callback_mark hopen hr

/-- Sound of 2049 bytes leaves the mark. -/
theorem done_waits_long :
    { oneShown.view with handle := -1, pbflag := true }.pbflag = true ↔
      Overlong copying ⟨2049, 0, 0, 0, 0, 3, 1, 0, 0, []⟩ oneShown.view :=
  @done_waits _ copying 0 _ oneShown.view _ [.call 0 keyFrame] (by decide) rfl

/-! ## How much sound there is in a second -/

/-- The bytes of sound in this second so far. -/
def View.sounded (v : View δ) (tick : ℤ) : ℤ := (v.sound tick).audioLen

def soundOut : Out → ℕ
  | .audio size _ => size
  | _ => 0

/-- The bytes of sound that were handed on. -/
def heardBytes : List Out → ℕ
  | [] => 0
  | o :: os => soundOut o + heardBytes os

theorem heardBytes_append (os ps : List Out) : heardBytes (os ++ ps) = heardBytes os + heardBytes ps := by
  induction os with
  | nil => exact (Nat.zero_add _).symm
  | cons o os ih => rw [List.cons_append, heardBytes, heardBytes, ih, Nat.add_assoc]

theorem heardBytes_plain {outs : List Out} (h : ∀ o ∈ outs, Plain o) : heardBytes outs = 0 := by
  induction outs with
  | nil => rfl
  | cons o os ih =>
    have ho := h o List.mem_cons_self
    rw [heardBytes, ih fun p hp => h p (List.mem_cons_of_mem _ hp)]
    cases o with
    | status type arg1 arg2 => rfl
    | record f => rfl
    | _ => exact ho.elim

theorem segments_length {aes : Aes} {key : aes.Key} {pad : ℤ} {n : ℕ} : ∀ {i : ℕ} {reset : ℤ} {data t : List UInt8},
    AesDecode.segments aes key pad n i reset data = some t → t.length = data.length := by
  induction n with
  | zero =>
    intro i reset data t h
    rw [← Option.some.inj h]
  | succ n ih =>
    intro i reset data t h
    unfold AesDecode.segments at h
    dsimp only at h
    split at h
    · obtain ⟨data', hdata', h⟩ := Option.bind_eq_some_iff.mp h
      rw [ih h, AesDecode.length_memcpy hdata']
    · split at h
      · cases h
      · obtain ⟨data', hdata', h⟩ := Option.bind_eq_some_iff.mp h
        rw [ih h, AesDecode.length_memcpy hdata']

theorem decode_length {aes : Aes} {data : List UInt8} {len pad ret len' : ℤ} {data' : List UInt8}
    (h : AesDecode.Aes_Decode aes data len pad = some (ret, data', len')) : data'.length = data.length := by
  unfold AesDecode.Aes_Decode at h
  split at h
  · cases h
    rfl
  · obtain ⟨t, ht, h⟩ := Option.map_eq_some_iff.mp h
    cases h
    exact segments_length ht

/-- What a call does to the sound of the second, with a frame of `n` bytes. -/
structure Sounds (tick : ℤ) (n : ℕ) (v v' : View δ) (outs : List Out) : Prop where
  sum : v'.sounded tick = v.sounded tick + heardBytes outs
  limit : heardBytes outs = 0 ∨ v.sounded tick ≤ audioInSecond ∧ heardBytes outs ≤ 4 * n

theorem Sounds.silent {n : ℕ} (hlen : v'.sounded tick = v.sounded tick) (h : heardBytes outs = 0) :
    Sounds tick n v v' outs :=
  ⟨by rw [hlen, h, Int.natCast_zero, Int.add_zero], .inl h⟩

theorem sounded_sound (v : View δ) (tick : ℤ) : (v.sound tick).sounded tick = v.sounded tick := by
  unfold View.sounded View.sound
  dsimp only
  by_cases h : tick > v.audioTick
  · rw [if_pos h, if_pos h, if_neg (Int.lt_irrefl _)]
  · rw [if_neg h, if_neg h, if_neg h]

/-- In the second that is noted the sound of the view is what counts. -/
theorem sounded_noted {w : View δ} (v : View δ) (tick : ℤ) (h : w.audioTick = (v.sound tick).audioTick) :
    w.sounded tick = w.audioLen := by
  have hnot : ¬ tick > w.audioTick := by
    rw [h]
    unfold View.sound
    dsimp only
    split
    · exact Int.lt_irrefl _
    · assumption
  exact if_neg hnot

theorem hearAudio_sounds {r : View δ × List Out} (h : hearAudio tick f v = some r) :
    Sounds tick f.body.length v r.1 r.2 := by
  unfold hearAudio at h
  split at h
  · rw [← Option.some.inj h]
    exact .silent rfl rfl
  · dsimp only at h
    split at h
    · rw [← Option.some.inj h]
      exact .silent (sounded_sound v tick) rfl
    · rename_i hroom
      split at h
      · rw [← Option.some.inj h]
        exact .silent (sounded_sound v tick) rfl
      · cases h
      · rename_i xs hxs
        rw [← Option.some.inj h]
        have hsize : (if f.frameSubType = 4 then f.body.length else 2 * xs.length) ≤ 4 * f.body.length := by
          split
          · omega
          · rename_i hsub
            have hle := Talk.hear_le (fun h4 => hsub (UInt8.toNat_inj.mp h4)) hxs
            omega
        exact ⟨sounded_noted v tick rfl, .inr ⟨Int.not_lt.mp hroom, hsize⟩⟩

theorem decodeVideo_sounded (env : Env δ) (f : LiveFrame) (v : View δ) (tick : ℤ) :
    (decodeVideo env f v).1.sounded tick = v.sounded tick ∧ heardBytes (decodeVideo env f v).2 = 0 := by
  unfold decodeVideo
  dsimp only
  split
  · exact ⟨rfl, rfl⟩
  · split
    · exact ⟨rfl, rfl⟩
    · split
      · exact ⟨rfl, rfl⟩
      · exact ⟨rfl, rfl⟩

theorem corrected_body (env : Env δ) (f : LiveFrame) : (corrected env f).body = f.body := by
  unfold corrected
  split
  · split
    · rfl
    · split
      · rfl
      · rfl
  · rfl

theorem Sounds.recorded {n : ℕ} {recorded : List Out} (h : Sounds tick n v v' outs) (hplain : ∀ o ∈ recorded, Plain o) :
    Sounds tick n v v' (recorded ++ outs) := by
  have hsame : heardBytes (recorded ++ outs) = heardBytes outs := by
    rw [heardBytes_append, heardBytes_plain hplain, Nat.zero_add]
  exact ⟨by rw [hsame]; exact h.sum, by rw [hsame]; exact h.limit⟩

theorem present_sounds {r : View δ × List Out} (h : present env tick f v.let_in = some r) :
    Sounds tick f.body.length v r.1 r.2 := by
  unfold present at h
  dsimp only at h
  split at h
  · rw [← Option.some.inj h]
    exact .silent rfl rfl
  · split at h
    · rw [← Option.some.inj h]
      exact .silent rfl (heardBytes_plain (plain_recorded _ _))
    · split at h
      · obtain ⟨r', hr', rfl⟩ := Option.map_eq_some_iff.mp h
        have hsounds := hearAudio_sounds hr'
        rw [corrected_body] at hsounds
        have hview : Sounds tick f.body.length v r'.1 r'.2 := ⟨hsounds.sum, hsounds.limit⟩
        exact hview.recorded (plain_recorded _ _)
      · rw [← Option.some.inj h]
        obtain ⟨hlen, hnone⟩ := decodeVideo_sounded env (corrected env f) v.let_in tick
        have hsounds : Sounds tick f.body.length v _ _ := .silent hlen hnone
        exact hsounds.recorded (plain_recorded _ _)

theorem callback_sounds {r : View δ × List Out} (h : liveDataCallback env tick f v = some r) :
    Sounds tick f.body.length v r.1 r.2 := by
  unfold liveDataCallback at h
  split at h
  · rw [← Option.some.inj h]
    exact .silent rfl rfl
  split at h
  · rw [← Option.some.inj h]
    exact .silent rfl rfl
  split at h
  · rw [← Option.some.inj h]
    exact .silent rfl rfl
  split at h
  · rw [← Option.some.inj h]
    exact .silent rfl rfl
  split at h
  · rw [← Option.some.inj h]
    exact .silent rfl rfl
  split at h
  · split at h
    · cases h
    · rename_i ret body len hdecode
      split at h
      · rw [← Option.some.inj h]
        exact .silent rfl rfl
      · rw [← decode_length hdecode]
        exact present_sounds (f := { f with len := .ofNat (len % 4294967296).toNat, body := body }) h
  · exact present_sounds h

theorem sendFrame_sounded (tick now : ℤ) (v : View δ) (array : List UInt8) :
    (sendFrame tick v array).1.sounded now = v.sounded now ∧ heardBytes (sendFrame tick v array).2.2 = 0 := by
  unfold sendFrame
  split
  · exact ⟨rfl, rfl⟩
  · split
    · exact ⟨rfl, rfl⟩
    · dsimp only
      split
      · exact ⟨rfl, rfl⟩
      · exact ⟨rfl, rfl⟩

/-- Within the second, and with frames of no more than `n` bytes. -/
def Act.Calm (n : ℕ) : Act → Prop
  | .second => False
  | .frame f => f.body.length ≤ n
  | _ => True

theorem step_sounds {s s' : Sys δ} {a : Act} {n : ℕ} (hcalm : a.Calm n) (h : step env s a = some s') :
    s'.tick = s.tick ∧ ∃ outs, s'.log = s.log ++ outs ∧ Sounds s.tick n s.view s'.view outs := by
  have hsame : ∀ {w : View δ}, w.sounded s.tick = s.view.sounded s.tick →
      ∃ outs, s.log = s.log ++ outs ∧ Sounds s.tick n s.view w outs :=
    fun hw => ⟨[], (List.append_nil _).symm, .silent hw rfl⟩
  cases a with
  | frame f =>
    obtain ⟨r, hr, h⟩ := Option.bind_eq_some_iff.mp h
    have hsounds := callback_sounds hr
    have hmore : Sounds s.tick n s.view r.1 r.2 :=
      ⟨hsounds.sum, hsounds.limit.imp_right fun hl =>
        ⟨hl.1, Nat.le_trans hl.2 (Nat.mul_le_mul_left 4 hcalm)⟩⟩
    split at h
    · obtain ⟨e, -, rfl⟩ := Option.map_eq_some_iff.mp h
      exact ⟨rfl, r.2, rfl, hmore⟩
    · rw [← Option.some.inj h]
      exact ⟨rfl, r.2, rfl, hmore⟩
  | second => exact hcalm.elim
  | setLive flag =>
    rw [← Option.some.inj h]
    exact ⟨rfl, hsame rfl⟩
  | setRec flag =>
    rw [← Option.some.inj h]
    exact ⟨rfl, hsame rfl⟩
  | wait a =>
    unfold step at h
    dsimp only at h
    split at h
    · cases h
    · obtain ⟨e, -, rfl⟩ := Option.map_eq_some_iff.mp h
      exact ⟨rfl, hsame rfl⟩
  | send =>
    obtain ⟨-, h⟩ := Option.ite_none_right_eq_some.mp h
    rw [← Option.some.inj h]
    obtain ⟨hlen, hnone⟩ := sendFrame_sounded s.tick s.tick s.view s.array
    exact ⟨rfl, _, rfl, .silent hlen hnone⟩

/-- **Sound**: between two ticks of the second, whatever the order of the steps, no more sound is handed on than
`AUDIO_IN_SECOND` and what one frame gives. -/
theorem second_sound {s s' : Sys δ} {as : List Act} {n : ℕ} (hcalm : ∀ a ∈ as, a.Calm n)
    (hlen : 0 ≤ s.view.audioLen) (h : exec (step env) s as = some s') :
    ∃ outs, s'.log = s.log ++ outs ∧ (heardBytes outs : ℤ) ≤ audioInSecond + 4 * n := by
  -- the sound of the second grows by what is handed on, up to the bound
  have hrun : ∃ outs, s'.log = s.log ++ outs ∧ s'.view.sounded s.tick = s.view.sounded s.tick + heardBytes outs ∧
      s'.view.sounded s.tick ≤ max (s.view.sounded s.tick) (audioInSecond + 4 * n) := by
    clear hlen
    induction as generalizing s with
    | nil =>
      rw [← Option.some.inj h]
      exact ⟨[], (List.append_nil _).symm, (Int.add_zero _).symm, Int.le_max_left _ _⟩
    | cons a as ih =>
      obtain ⟨s₁, h₁, hrest⟩ := Option.bind_eq_some_iff.mp h
      obtain ⟨htick, outs₁, hlog₁, hsum₁, hlimit₁⟩ := step_sounds (hcalm a List.mem_cons_self) h₁
      obtain ⟨outs₂, hlog₂, hsum₂, hmax₂⟩ := ih (fun b hb => hcalm b (List.mem_cons_of_mem _ hb)) hrest
      rw [htick] at hsum₂ hmax₂
      refine ⟨outs₁ ++ outs₂, by rw [hlog₂, hlog₁, List.append_assoc], ?_, ?_⟩
      · rw [heardBytes_append]
        omega
      · rcases hlimit₁ with hnone | ⟨hroom, hsize⟩ <;> omega
  obtain ⟨outs, hlog, hsum, hmax⟩ := hrun
  have hstart : 0 ≤ s.view.sounded s.tick := by
    unfold View.sounded View.sound
    dsimp only
    split
    · exact Int.le_refl 0
    · exact hlen
  have hpos : (0 : ℤ) ≤ audioInSecond := by decide
  exact ⟨outs, hlog, by omega⟩

/-- Two bytes of sound, behind the frame that was shown. -/
theorem second_sound_two : ∃ outs, oneShown.log ++ [.audio 4 1] = oneShown.log ++ outs ∧
    (heardBytes outs : ℤ) ≤ audioInSecond + 4 * (2 : ℕ) :=
  @second_sound Unit copying oneShown
    { oneShown with view.audioLen := 4, log := oneShown.log ++ [.audio 4 1] } [.frame ⟨2, 0, 0, 0, 0, 3, 1, 0, 0, [7, 8]⟩] 2
    (fun _ ha => by rw [List.eq_of_mem_singleton ha]; exact Nat.le_refl 2) (by decide) rfl

end

end Live

end SabApp
