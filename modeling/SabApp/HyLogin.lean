import SabApp.Nc

/-!
# Login of an HY device (nc_hy.c)

`nc_hy_dev_login` asks the device in, then opens a connection for each of its channels and one for playback. A refusal
sets the return value for three codes only.
-/

namespace SabApp

namespace HyLogin

/-- NC_HY_CHANNEL_SIZE -/
def channelSize : ℕ := 16

/-- HY_CMD_LOGIN0_D2C -/
def cmdLogin0D2c : UInt8 := 0xB0

/-- The states of a device from `PTC_FRAME_STREAM_CONNECT` on. -/
inductive Online where
  | other (value : ℕ)
  | connect
  | connectFail
  | login
  | loginFail
  | authFail
  | maxConnect
  | start
  | startFail
  | running
  deriving DecidableEq

/-- `hy_msg_login0_d2c_t`, as it lies in the message memory when something was received. -/
structure Login0D2c where
  cmd : UInt8
  fail : UInt8
  failCode : UInt8
  chNum : UInt8
  id : UInt32
  deriving DecidableEq

/-- How far the first exchange gets. -/
inductive Exchange where
  | unconnected
  | unsent
  | unreceived
  | answered (answer : Login0D2c)

/-- What comes of a stream's connection and the message on it. -/
inductive Opening where
  | unconnected
  | unsent
  | opened
  deriving DecidableEq

/-- A live stream or the playback: its connection, and its state with the memory and the two threads. -/
structure Stream where
  state : Bool
  live : Bool
  threads : Bool
  errorFlag : Bool
  active : Bool
  deriving DecidableEq

/-- The session of `nc_hy_dev_t`. -/
structure Dev where
  msgLive : Bool
  online : Online
  chNum : UInt8
  id : UInt32
  rts : ℕ → Stream
  pbs : Stream
  pbsPause : Bool
  lastTalkEnable : Bool
  talkSendStream : Bool
  lastPtzCmd : UInt8

namespace Stream

/-- Closed by `nc_hy_dev_logout`, with the threads joined and the memory freed. -/
def close (s : Stream) : Stream :=
  { s with state := false, live := false, threads := s.threads && !s.state, errorFlag := false, active := false }

def unconnected (s : Stream) : Stream := { s with state := false }

def unsent (s : Stream) : Stream := { s with state := false, live := true }

def opened (s : Stream) : Stream := { s with state := true, live := true, threads := true }

def Opened (s : Stream) : Prop := s.state = true ∧ s.live = true ∧ s.threads = true

end Stream

namespace Dev

/-- `nc_hy_dev_logout`. It leaves a playback that is not on `active`. -/
def logout (d : Dev) : Dev :=
  { d with
    msgLive := false
    rts := fun i => if i < channelSize then (d.rts i).close else d.rts i
    pbs := { d.pbs.close with active := d.pbs.active && !d.pbs.state }
    pbsPause := false
    lastTalkEnable := false
    talkSendStream := false
    lastPtzCmd := 0 }

/-- A failed step of the login. -/
def failed (d : Dev) (online : Online) (ret : Int32) : Int32 × Dev := (ret, { d with online })

/-- The answer to the first message; `next` is what follows a welcome. -/
def login0 (d : Dev) (a : Login0D2c) (next : Dev → Int32 × Dev) : Int32 × Dev :=
  if a.cmd ≠ cmdLogin0D2c then d.failed .loginFail Nc.errProtocol
  else if a.fail ≠ 0 then
    if a.failCode = 0 ∨ a.failCode = 1 then d.failed .authFail Nc.errAuth
    else if a.failCode = 6 then d.failed .maxConnect Nc.errMaxConnect
    else (0, d)
  else if a.chNum.toNat > channelSize then d.failed .loginFail Nc.errInternal
  else next { d with chNum := a.chNum, id := a.id }

/-- The loop over the channels, from channel `i` on for `k` more. -/
def rtsLoop (outs : ℕ → Opening) : ℕ → ℕ → Dev → Int32 × Dev
  | 0, _, d => (0, d)
  | k + 1, i, d =>
    let set (s : Stream) : Dev := { d with rts := Function.update d.rts i s }
    match outs i with
    | .unconnected => (set (d.rts i).unconnected).failed .startFail Nc.errConnect
    | .unsent => (set (d.rts i).unsent).failed .startFail Nc.errSend
    | .opened => rtsLoop outs k (i + 1) (set (d.rts i).opened)

/-- The streams of a device that said welcome. -/
def login1 (outs : ℕ → Opening) (pbs : Opening) (d : Dev) : Int32 × Dev :=
  let (ret, d) := rtsLoop outs d.chNum.toNat 0 { d with online := .start }
  if ret ≠ 0 then (ret, d)
  else
    match pbs with
    | .unconnected => { d with pbs := d.pbs.unconnected }.failed .startFail Nc.errConnect
    | .unsent => { d with pbs := d.pbs.unsent }.failed .startFail Nc.errSend
    | .opened => (0, { d with pbs := d.pbs.opened, talkSendStream := true })

/-- Behind the steps: a failure logs out. -/
def loginEnd (d : Int32 × Dev) : Int32 × Dev :=
  if d.1 < 0 then (d.1, d.2.logout) else (d.1, { d.2 with online := .running })

/-- `nc_hy_dev_login`; it is `due` when the last attempt was long enough ago. -/
def login (d : Dev) (due : Bool) (x : Exchange) (outs : ℕ → Opening) (pbs : Opening) : Int32 × Dev :=
  if d.msgLive then (0, d)
  else if due = false then (-1, d)
  else
    let live : Dev := { d with msgLive := true, online := .login }
    match x with
    | .unconnected => loginEnd (d.failed .connectFail Nc.errConnect)
    | .unsent => loginEnd (live.failed .loginFail Nc.errSend)
    | .unreceived => loginEnd (live.failed .loginFail Nc.errRecv)
    | .answered a => loginEnd (live.login0 a (login1 outs pbs))

/-- `nc_hy_dev_login_simple`. It makes no test of the time and does not set `online`. -/
def loginSimple (d : Dev) (x : Exchange) : Int32 × Dev :=
  let live : Dev := { d with msgLive := true }
  let r : Int32 × Dev :=
    match x with
    | .unconnected => (Nc.errConnect, d)
    | .unsent => (Nc.errSend, live)
    | .unreceived => (Nc.errRecv, live)
    | .answered a =>
      let r := live.login0 a fun d => (0, d)
      (r.1, { r.2 with online := d.online })
  if r.1 < 0 then (r.1, r.2.logout) else r

end Dev

/-- The device refuses the login. -/
def Refused (x : Exchange) (a : Login0D2c) : Prop := x = .answered a ∧ a.cmd = cmdLogin0D2c ∧ a.fail ≠ 0

/-- A welcome, and everything is open. -/
def Complete (x : Exchange) (d : Dev) : Prop :=
  ∃ a, x = .answered a ∧ a.cmd = cmdLogin0D2c ∧ a.fail = 0 ∧ d.msgLive = true ∧ (∀ i < a.chNum.toNat, (d.rts i).Opened) ∧
    d.pbs.Opened ∧ d.talkSendStream = true

/-- A refusal ends with a negative value and the message connection closed. -/
def Rejects (x : Exchange) (r : Int32 × Dev) : Prop := ∀ a, Refused x a → r.1 < 0 ∧ r.2.msgLive = false

/-- What a login of the device `d` is to do: 0 and the state `running` come of a complete session only. -/
structure Sound (d : Dev) (x : Exchange) (r : Int32 × Dev) : Prop where
  complete : r.1 = 0 → Complete x r.2 ∧ r.2.online = .running
  failed : r.1 ≠ 0 → r.1 < 0 ∧ (r.2 = d ∨ r.2.online ≠ .running)
  rejects : Rejects x r

/-- A refusal has one of the codes the client knows. -/
def Known (x : Exchange) : Prop := ∀ a, Refused x a → a.failCode = 0 ∨ a.failCode = 1 ∨ a.failCode = 6

namespace Dev

/-- The step failed, and does not say that the device runs. -/
def Failing (r : Int32 × Dev) : Prop := r.1 < 0 ∧ r.2.online ≠ .running

theorem failing (d : Dev) {online : Online} {ret : Int32} (hret : ret < 0) (h : online ≠ .running) :
    Failing (d.failed online ret) := ⟨hret, h⟩

theorem Failing.ne_zero {r : Int32 × Dev} (h : Failing r) : r.1 ≠ 0 := by
  intro h0
  have := h.1
  rw [h0] at this
  exact absurd this (by decide)

/-! ## The streams -/

theorem rtsLoop_spec (outs : ℕ → Opening) : ∀ (k i : ℕ) (d : Dev), d.online ≠ .running →
    Failing (rtsLoop outs k i d) ∨ ∃ rts, rtsLoop outs k i d = (0, { d with rts }) ∧ (∀ j < i, rts j = d.rts j) ∧
      ∀ j, i ≤ j → j < i + k → (rts j).Opened
  | 0, i, d, _ => .inr ⟨d.rts, rfl, fun _ _ => rfl, fun j h h' => absurd h (Nat.not_le.mpr h')⟩
  | k + 1, i, d, hd => by
    unfold rtsLoop
    cases outs i with
    | unconnected => exact .inl (failing _ (by decide) (by simp))
    | unsent => exact .inl (failing _ (by decide) (by simp))
    | opened =>
      dsimp only
      rcases rtsLoop_spec outs k (i + 1) { d with rts := Function.update d.rts i (d.rts i).opened } hd with
        h | ⟨rts, heq, hsame, hopen⟩
      · exact .inl h
      refine .inr ⟨rts, heq, fun j hj => ?_, fun j hj hjk => ?_⟩
      · rw [hsame j (by omega)]
        exact Function.update_of_ne (Nat.ne_of_lt hj) ..
      · by_cases hji : j = i
        · rw [hji, hsame i (Nat.lt_succ_self i)]
          simp only [Function.update_self]
          exact ⟨rfl, rfl, rfl⟩
        · exact hopen j (by omega) (by omega)

/-- Either a step fails, or each stream is opened. -/
theorem login1_spec (outs : ℕ → Opening) (pbs : Opening) (d : Dev) :
    Failing (login1 outs pbs d) ∨ (login1 outs pbs d).1 = 0 ∧ (login1 outs pbs d).2.msgLive = d.msgLive ∧
      (∀ i < d.chNum.toNat, ((login1 outs pbs d).2.rts i).Opened) ∧ (login1 outs pbs d).2.pbs.Opened ∧
      (login1 outs pbs d).2.talkSendStream = true := by
  unfold login1
  rcases rtsLoop_spec outs d.chNum.toNat 0 { d with online := .start } (by simp) with h | ⟨rts, heq, -, hopen⟩
  · dsimp only
    rw [if_pos h.ne_zero]
    exact .inl h
  · rw [heq]
    dsimp only
    rw [if_neg (not_not.mpr rfl)]
    cases pbs with
    | unconnected => exact .inl (failing _ (by decide) (by simp))
    | unsent => exact .inl (failing _ (by decide) (by simp))
    | opened => exact .inr ⟨rfl, rfl, fun i hi => hopen i (Nat.zero_le i) (by omega), ⟨rfl, rfl, rfl⟩, rfl⟩

/-! ## The answer -/

theorem login0_failing {d : Dev} {a : Login0D2c} {next : Dev → Int32 × Dev} (h : a.cmd ≠ cmdLogin0D2c ∨ a.fail ≠ 0)
    (hk : a.cmd = cmdLogin0D2c → a.failCode = 0 ∨ a.failCode = 1 ∨ a.failCode = 6) : Failing (d.login0 a next) := by
  unfold login0
  by_cases hc : a.cmd ≠ cmdLogin0D2c
  · rw [if_pos hc]
    exact failing _ (by decide) (by simp)
  rw [if_neg hc, if_pos (h.resolve_left hc)]
  rcases hk (not_not.mp hc) with h0 | h1 | h6
  · rw [if_pos (.inl h0)]
    exact failing _ (by decide) (by simp)
  · rw [if_pos (.inr h1)]
    exact failing _ (by decide) (by simp)
  · rw [if_neg (by rw [h6]; decide), if_pos h6]
    exact failing _ (by decide) (by simp)

/-- The slip: a refusal with another code sets nothing. -/
theorem login0_unknown {d : Dev} {a : Login0D2c} {next : Dev → Int32 × Dev} (hc : a.cmd = cmdLogin0D2c) (hf : a.fail ≠ 0)
    (hk : ¬ (a.failCode = 0 ∨ a.failCode = 1 ∨ a.failCode = 6)) : d.login0 a next = (0, d) := by
  rw [← or_assoc, not_or] at hk
  rw [login0, if_neg (not_not.mpr hc), if_pos hf, if_neg hk.1, if_neg hk.2]

theorem login0_welcome {d : Dev} {a : Login0D2c} {next : Dev → Int32 × Dev} (hc : a.cmd = cmdLogin0D2c) (hf : a.fail = 0) :
    Failing (d.login0 a next) ∨ d.login0 a next = next { d with chNum := a.chNum, id := a.id } := by
  rw [login0, if_neg (not_not.mpr hc), if_neg (not_not.mpr hf)]
  by_cases hn : a.chNum.toNat > channelSize
  · rw [if_pos hn]
    exact .inl (failing _ (by decide) (by simp))
  · rw [if_neg hn]
    exact .inr rfl

/-! ## The whole login -/

theorem Failing.sound {d : Dev} {x : Exchange} {r : Int32 × Dev} (h : Failing r) : Sound d x (loginEnd r) := by
  have heq : loginEnd r = (r.1, r.2.logout) := if_pos h.1
  rw [heq]
  exact ⟨fun h0 => absurd h0 h.ne_zero, fun _ => ⟨h.1, .inr h.2⟩, fun _ _ => ⟨h.1, rfl⟩⟩

theorem login_sound {d : Dev} (hd : d.msgLive = false) {x : Exchange} (hk : Known x) (due : Bool) (outs : ℕ → Opening)
    (pbs : Opening) : Sound d x (d.login due x outs pbs) := by
  unfold login
  rw [if_neg (by rw [hd]; decide)]
  by_cases hdue : due = false
  · have hneg : (-1 : Int32) < 0 := by decide
    rw [if_pos hdue]
    exact ⟨fun h => absurd h (by simp), fun _ => ⟨hneg, .inl rfl⟩, fun _ _ => ⟨hneg, hd⟩⟩
  rw [if_neg hdue]
  cases x with
  | unconnected => exact (failing _ (by decide) (by simp)).sound
  | unsent => exact (failing _ (by decide) (by simp)).sound
  | unreceived => exact (failing _ (by decide) (by simp)).sound
  | answered a =>
    dsimp only
    by_cases hr : a.cmd ≠ cmdLogin0D2c ∨ a.fail ≠ 0
    · exact (login0_failing hr fun hc => hk a ⟨rfl, hc, hr.resolve_left (not_not.mpr hc)⟩).sound
    rw [not_or, not_not, not_not] at hr
    obtain ⟨hc, hf⟩ := hr
    rcases login0_welcome hc hf with h | h
    · exact h.sound
    rw [h]
    rcases login1_spec outs pbs { d with msgLive := true, online := .login, chNum := a.chNum, id := a.id } with
      h | ⟨hret, hlive, hrts, hpbs, htalk⟩
    · exact h.sound
    · have hneg : ¬ (0 : Int32) < 0 := by decide
      refine ⟨fun _ => ?_, fun h0 => ?_, fun b hb => ?_⟩
      · simp only [loginEnd, hret, if_neg hneg]
        exact ⟨⟨a, rfl, hc, hf, hlive, hrts, hpbs, htalk⟩, trivial⟩
      · simp only [loginEnd, hret, if_neg hneg] at h0
        exact absurd rfl h0
      · obtain ⟨he, -, hb⟩ := hb
        cases he
        exact absurd hf hb

/-- After a refusal with another code the device runs. -/
theorem known_of_login {d : Dev} (hd : d.msgLive = false) {x : Exchange} {outs : ℕ → Opening} {pbs : Opening}
    (h : Rejects x (d.login true x outs pbs)) : Known x := by
  rintro a ⟨rfl, hc, hf⟩
  by_contra hk
  have hneg := (h a ⟨rfl, hc, hf⟩).1
  have hsame : d.login true (.answered a) outs pbs = (0, { d with msgLive := true, online := .running }) := by
    simp only [login, hd, login0_unknown hc hf hk, loginEnd]
    rfl
  rw [hsame] at hneg
  exact absurd hneg (show ¬ (0 : Int32) < 0 by decide)

theorem loginSimple_rejects {d : Dev} {x : Exchange} : Rejects x (d.loginSimple x) ↔ Known x := by
  constructor
  · rintro h a ⟨rfl, hc, hf⟩
    by_contra hk
    have hneg := (h a ⟨rfl, hc, hf⟩).1
    have h0 : ¬ (0 : Int32) < 0 := by decide
    simp only [loginSimple, login0_unknown hc hf hk, if_neg h0] at hneg
    exact h0 hneg
  · rintro hk a ⟨rfl, hc, hf⟩
    have h : Failing (login0 { d with msgLive := true } a fun d => (0, d)) :=
      login0_failing (.inr hf) fun hc => hk a ⟨rfl, hc, hf⟩
    simp only [loginSimple, if_pos h.1]
    exact ⟨h.1, rfl⟩

/-- A login of a device with no live session does what it is to do, whatever its connections come to, exactly if a refusal has a
code that the client knows; and only then does `nc_hy_dev_login_simple` take a refusal for one. -/
theorem sound_iff_known (d : Dev) (hd : d.msgLive = false) (x : Exchange) :
    ((∀ due outs pbs, Sound d x (d.login due x outs pbs)) ↔ Known x) ∧ (Rejects x (d.loginSimple x) ↔ Known x) :=
  ⟨⟨fun h => known_of_login hd (h true (fun _ => .opened) .opened).rejects,
    fun hk due outs pbs => login_sound hd hk due outs pbs⟩, loginSimple_rejects⟩

/-- After `nc_hy_dev_start`. -/
def idle : Dev := ⟨false, .other 0, 0, 0, fun _ => ⟨false, false, false, false, false⟩, ⟨false, false, false, false, false⟩,
  false, false, false, 0⟩

theorem sound_welcome : ((∀ due outs pbs, Sound idle (.answered ⟨0xB0, 0, 0, 4, 7⟩)
      (idle.login due (.answered ⟨0xB0, 0, 0, 4, 7⟩) outs pbs)) ↔ Known (.answered ⟨0xB0, 0, 0, 4, 7⟩)) ∧
    (Rejects (.answered ⟨0xB0, 0, 0, 4, 7⟩) (idle.loginSimple (.answered ⟨0xB0, 0, 0, 4, 7⟩)) ↔
      Known (.answered ⟨0xB0, 0, 0, 4, 7⟩)) :=
  sound_iff_known idle rfl _

/-- Code 2: the login returns 0 and the device is said to run, with nothing but the message connection. -/
theorem unknown_refusal : ¬ ∀ d x, d.msgLive = false →
    (∀ due outs pbs, Sound d x (d.login due x outs pbs)) ∧ Rejects x (d.loginSimple x) := by
  intro h
  have hneg := ((h idle (.answered ⟨0xB0, 1, 2, 4, 7⟩) rfl).2 _ ⟨rfl, rfl, by decide⟩).1
  exact absurd hneg (by decide)

end Dev

end HyLogin

end SabApp
