import SabApp.HandleParts

/-!
# Ids of subscriptions

Every start call answers with an id, and the stop calls are given nothing else. Its top byte
says which client handed it out; `nc.c` sends a stop call there by it, and each client reads
the rest in its own way.
-/

namespace SabApp

open Nc (Service)

/-- A subscription: where it lives and to what it is. -/
inductive Handle where
  | qh (i : Fin 128)
  | hy (h : Fin 10 × Hy.Sub)
  | ys (h : Nc.Dev × Fin 10 × Ys.Sub)
  | relay (i : Fin 2)
  | xm (h : Nc.Dev × Fin 10 × Xm.Sub)

/-- The clients behind `nc.c`. -/
structure Client where
  qh : Qh.Users
  hy : Hy.SlotWorld
  ys : DevSlots Ys.Sub
  relays : Cloud.RelayTable
  xm : DevSlots Xm.Sub

/-- A client and, for each subscription, the id that the call which started it answered with. -/
structure HandleWorld where
  client : Client
  issued : Handle → Int32

inductive HandleAct where
  | loginUser
  | logoutUser
  | login (dev : Nc.Dev)
  | logout (id : Int32)
  /-- `known` says that `nc_getDevById` finds the cloud device on the local network. -/
  | startRts (dev : Nc.Dev) (channel streamType : Int32) (known : Bool)
  | stopRts (id : Int32)
  /-- `active` says that the HY device thread is still at its last playback. -/
  | startPbs (dev : Nc.Dev) (active known : Bool)
  | stopPbs (id : Int32)
  | startCloudPbs
  | stopCloudPbs (id : Int32)
  | startTalk (dev : Nc.Dev) (known : Bool)
  | stopTalk (id : Int32)
  /-- `nc_searchRecords` and the like; a YS or XM device answers with `ret`. -/
  | query (dev : Nc.Dev) (ret : Int32)
  | setDeviceStatus (dev : Nc.Dev) (ret : Int32)
  | controlPTZ (dev : Nc.Dev)
  | clock (tv : Hy.Clock)
  | hyRun (i : Fin 10)
  | ysRun (i : Fin 10) (timeout : Bool)
  | xmRun (i : Fin 10) (timeout : Bool)

/-- What the HY client compares of a device. -/
def Nc.Dev.hy (d : Nc.Dev) : Hy.NcDev := ⟨d.ip, d.msgPort, d.user, d.pswd⟩

/-- The protocol an id belongs to: `user_id & 0xFF000000`. -/
def idPtc (id : Int32) : Nc.Ptc :=
  if id &&& 0xFF000000 = Nc.Ptc.huaYi.value then .huaYi
  else if id &&& 0xFF000000 = Nc.Ptc.yuShi.value then .yuShi
  else if id &&& 0xFF000000 = Nc.Ptc.yuShiCloud.value then .yuShiCloud
  else if id &&& 0xFF000000 = Nc.Ptc.qiHanCloud.value then .qiHanCloud
  else if id &&& 0xFF000000 = Nc.Ptc.xiongMai.value then .xiongMai
  else .qihan

/-- The id a start call answers with for it. -/
def Handle.id : Handle → Int32
  | qh i => Qh.Users.userId i
  | hy h => Hy.subId h.1 h.2
  | ys h => Ys.subId h.1 h.2.1 h.2.2
  | relay i => Cloud.relayId i
  | xm h => Xm.subId h.1 h.2.1 h.2.2

namespace Client

section
variable (c : Client)

def onQh (p : Int32 × Qh.Users) : Int32 × Client := (p.1, { c with qh := p.2 })

def onHy (p : Int32 × Hy.SlotWorld) : Int32 × Client := (p.1, { c with hy := p.2 })

def onYs (p : Int32 × DevSlots Ys.Sub) : Int32 × Client := (p.1, { c with ys := p.2 })

def onRelays (p : Int32 × Cloud.RelayTable) : Int32 × Client := (p.1, { c with relays := p.2 })

def onXm (p : Int32 × DevSlots Xm.Sub) : Int32 × Client := (p.1, { c with xm := p.2 })

/-- `nc_login_v2`. -/
def login (d : Nc.Dev) : Int32 × Client :=
  match d.ptc with
  | .huaYi => c.onHy (c.hy.login d.hy)
  | .qihan => c.onQh (c.qh.userStart .alarm)
  | _ => (Nc.errNoSupported, c)

/-- `nc_logout`. -/
def logout (id : Int32) : Int32 × Client :=
  match idPtc id with
  | .qihan => c.onQh (c.qh.stop id)
  | _ => (Nc.errNoSupported, c)

/-- `nc_startRts_v2`. -/
def startRts (d : Nc.Dev) (channel streamType : Int32) (known : Bool) : Int32 × Client :=
  match d.ptc with
  | .huaYi => c.onHy (c.hy.startRts d.hy channel streamType)
  | .yuShi | .yuShiCloud => c.onYs (Ys.startRts c.ys d channel streamType)
  | .qiHanCloud => if known then c.onQh (c.qh.userStart .rts) else c.onRelays (c.relays.start .rts)
  | .xiongMai => c.onXm (Xm.startRts c.xm d channel streamType)
  | .qihan => c.onQh (c.qh.userStart .rts)

/-- `nc_stopRts`. -/
def stopRts (id : Int32) : Int32 × Client :=
  match idPtc id with
  | .huaYi => c.onHy (c.hy.stopRts id)
  | .yuShi | .yuShiCloud => c.onYs (Ys.stopRts c.ys id)
  | .qiHanCloud => c.onRelays (c.relays.stop .rts id)
  | .xiongMai => c.onXm (Xm.stopRts c.xm id)
  | .qihan => c.onQh (c.qh.stop id)

/-- `nc_startPbs`. -/
def startPbs (d : Nc.Dev) (active known : Bool) : Int32 × Client :=
  match d.ptc with
  | .huaYi => c.onHy (c.hy.startPbs d.hy active)
  | .yuShi | .yuShiCloud => c.onYs (Ys.startPbs c.ys d)
  | .qiHanCloud => if known then c.onQh (c.qh.userStart .pbs) else c.onRelays (c.relays.start .devPbs)
  | .xiongMai => c.onXm (Xm.startPbs c.xm d)
  | .qihan => c.onQh (c.qh.userStart .pbs)

/-- `nc_stopPbs`. -/
def stopPbs (id : Int32) : Int32 × Client :=
  match idPtc id with
  | .huaYi => c.onHy (c.hy.stopPbs id)
  | .yuShi | .yuShiCloud => c.onYs (Ys.stopPbs c.ys id)
  | .qiHanCloud => c.onRelays (c.relays.stop .devPbs id)
  | .xiongMai => c.onXm (Xm.stopPbs c.xm id)
  | .qihan => c.onQh (c.qh.stop id)

/-- `nc_startCloudPbs`. -/
def startCloudPbs : Int32 × Client := c.onRelays (c.relays.start .cloudPbs)

/-- `nc_stopCloudPbs`. -/
def stopCloudPbs (id : Int32) : Int32 × Client := c.onRelays (c.relays.stop .cloudPbs id)

/-- `nc_startTalk_v2`. -/
def startTalk (d : Nc.Dev) (known : Bool) : Int32 × Client :=
  match d.ptc with
  | .huaYi => c.onHy (c.hy.startTalk d.hy)
  | .yuShi | .yuShiCloud => c.onYs (Ys.startTalk c.ys d)
  | .qiHanCloud => if known then c.onQh (c.qh.userStart .talk) else c.onRelays (c.relays.start .talk)
  | .xiongMai => c.onXm (Xm.startTalk c.xm d)
  | .qihan => c.onQh (c.qh.userStart .talk)

/-- `nc_stopTalk`. -/
def stopTalk (id : Int32) : Int32 × Client :=
  match idPtc id with
  | .huaYi => c.onHy (c.hy.stopTalk id)
  | .yuShi | .yuShiCloud => c.onYs (Ys.stopTalk c.ys id)
  | .qiHanCloud => c.onRelays (c.relays.stop .talk id)
  | .xiongMai => c.onXm (Xm.stopTalk c.xm id)
  | .qihan => c.onQh (c.qh.stop id)

/-- The stop call of a service. -/
def stop : Service → Int32 → Int32 × Client
  | .login => c.logout
  | .rts => c.stopRts
  | .pbs => c.stopPbs
  | .cloudPbs => c.stopCloudPbs
  | .talk => c.stopTalk

/-- A query takes a slot of the HY, YS and XM clients only. -/
def query (d : Nc.Dev) (ret : Int32) : Int32 × Client :=
  match d.ptc with
  | .huaYi => c.onHy (c.hy.query d.hy)
  | .yuShi | .yuShiCloud => c.onYs (c.ys.query Ys.isSame d ret)
  | .xiongMai => c.onXm (c.xm.query Xm.isSame d ret)
  | _ => (ret, c)

def setDeviceStatus (d : Nc.Dev) (ret : Int32) : Int32 × Client :=
  match d.ptc with
  | .huaYi => c.onHy (c.hy.setDeviceStatus d.hy)
  | _ => c.query d ret

def controlPTZ (d : Nc.Dev) : Int32 × Client :=
  match d.ptc with
  | .huaYi => c.onHy (c.hy.controlPTZ d.hy)
  | _ => (0, c)

def call : HandleAct → Int32 × Client
  | .loginUser => (0, { c with relays := { c.relays with loginState := true } })
  | .logoutUser => (0, { c with relays := { c.relays with loginState := false } })
  | .login d => c.login d
  | .logout id => c.logout id
  | .startRts d channel streamType known => c.startRts d channel streamType known
  | .stopRts id => c.stopRts id
  | .startPbs d active known => c.startPbs d active known
  | .stopPbs id => c.stopPbs id
  | .startCloudPbs => c.startCloudPbs
  | .stopCloudPbs id => c.stopCloudPbs id
  | .startTalk d known => c.startTalk d known
  | .stopTalk id => c.stopTalk id
  | .query d ret => c.query d ret
  | .setDeviceStatus d ret => c.setDeviceStatus d ret
  | .controlPTZ d => c.controlPTZ d
  | .clock tv => (0, { c with hy := { c.hy with tv := tv } })
  | .hyRun i => (0, { c with hy := c.hy.run i })
  | .ysRun i timeout => (0, { c with ys := c.ys.run Ys.subs i timeout })
  | .xmRun i timeout => (0, { c with xm := c.xm.run Xm.subs i timeout })

/-- The live subscriptions. -/
def view : Handle → Option Service
  | .qh i => c.qh.view i
  | .hy h => c.hy.view h
  | .ys h => c.ys.view Ys.Sub.service h
  | .relay i => c.relays.view i
  | .xm h => c.xm.view Xm.Sub.service h

end

end Client

/-- A HY login succeeds only where there is a slot for it. What else may go wrong does so between a YS
device's playback or talk and one live view each, and when the account is logged out. -/
def CallOk (c : Client) : HandleAct → Prop
  | .logoutUser => ∀ i, (c.relays.relay i).isUsed = false
  | .login d => d.ptc = .huaYi → c.hy.same d.hy = none ∧ c.hy.free = none
  | .startRts d channel streamType _ => Ys.Own d → ∀ (b : Fin 64) (t : Fin 2), ¬ (channel < 0 ∨ streamType < 0) →
      channel.toNatClampNeg = b → streamType.toNatClampNeg = t → Ys.NoClash c.ys d (.rts b t)
  | .startPbs d _ _ => Ys.Own d → Ys.NoClash c.ys d .pbs
  | .startTalk d _ => Ys.Own d → Ys.NoClash c.ys d .talk
  | _ => True

namespace HandleWorld

def step (w : HandleWorld) (a : HandleAct) : Option HandleWorld :=
  let p := w.client.call a
  some ⟨p.2, recorded w.client.view p.2.view p.1 w.issued⟩

/-- Live subscriptions have ids of their own, and the stop call of its service ends the one whose id it
is given and no other. -/
structure Exact (w : HandleWorld) : Prop where
  distinct : ∀ h k, w.client.view h ≠ none → w.client.view k ≠ none → h ≠ k → w.issued h ≠ w.issued k
  stops : ∀ h s, w.client.view h = some s → Ends h w.client.view (w.client.stop s (w.issued h)).2.view

def init : HandleWorld :=
  ⟨⟨Qh.Users.init, Hy.SlotWorld.init, ⟨fun _ => ⟨false, ⟨.yuShi, [], [], 0, [], []⟩, fun _ => false⟩⟩,
    Cloud.RelayTable.init, ⟨fun _ => ⟨false, ⟨.xiongMai, [], [], 0, [], []⟩, fun _ => false⟩⟩⟩, Handle.id⟩

end HandleWorld

/-! ## The ids of the clients do not overlap -/

/-- The three fields of an id. -/
def Handle.fields : Handle → Nc.Ptc × ℕ × ℕ
  | qh i => (.qihan, 0, i)
  | hy h => (.huaYi, h.1, h.2.no)
  | ys h => (h.1.ptc, h.2.1, h.2.2.no)
  | relay i => (.qiHanCloud, 0, i)
  | xm h => (.xiongMai, h.2.1, h.2.2.no)

/-- The device is one of the client's that holds the subscription. -/
def Handle.Own : Handle → Prop
  | ys h => Ys.Own h.1
  | xm h => h.1.ptc = .xiongMai
  | _ => True

theorem Handle.fields_lt (h : Handle) : h.fields.2.1 < 256 ∧ h.fields.2.2 < 256 := by
  cases h with
  | qh i => exact ⟨Nat.zero_lt_succ _, by simp only [fields]; omega⟩
  | hy h => exact ⟨by simp only [fields]; omega, h.2.no_lt⟩
  | ys h => exact ⟨by simp only [fields]; omega, h.2.2.no_lt⟩
  | relay i => exact ⟨Nat.zero_lt_succ _, by simp only [fields]; omega⟩
  | xm h => exact ⟨by simp only [fields]; omega, h.2.2.no_lt⟩

theorem Handle.id_eq {h : Handle} (ho : h.Own) :
    h.id = Int32.ofNat (SabApp.fields h.fields.1.top h.fields.2.1 h.fields.2.2) := by
  cases h with
  | qh i => exact congrArg Int32.ofNat (by simp [SabApp.fields, fields, Nc.Ptc.top])
  | hy h => exact Hy.subId_eq h.1 h.2
  | ys h => exact Ys.subId_eq h.1 h.2.1 h.2.2
  | relay i => exact Cloud.relayId_eq i
  | xm h => exact (Xm.subId_eq ho h.2.1 h.2.2).trans (Xm.ownId_eq h.2.1 h.2.2)

theorem idPtc_fields (p : Nc.Ptc) {d n : ℕ} (hd : d < 256) (hn : n < 256) :
    idPtc (Int32.ofNat (fields p.top d n)) = p := by
  rw [idPtc, fields_top p.top_lt hd hn]
  cases p <;> decide

theorem Handle.idPtc_id {h : Handle} (ho : h.Own) : idPtc h.id = h.fields.1 := by
  rw [id_eq ho]
  exact idPtc_fields _ h.fields_lt.1 h.fields_lt.2

/-- The client for a protocol's devices, named by its first protocol. -/
def Nc.Ptc.client : Ptc → Ptc
  | yuShiCloud => yuShi
  | p => p

def Handle.client : Handle → Nc.Ptc
  | qh _ => .qihan
  | hy _ => .huaYi
  | ys _ => .yuShi
  | relay _ => .qiHanCloud
  | xm _ => .xiongMai

theorem Handle.client_fields {h : Handle} (ho : h.Own) : h.fields.1.client = h.client := by
  cases h with
  | ys h =>
    rcases ho with hp | hp
    · exact congrArg Nc.Ptc.client hp
    · exact congrArg Nc.Ptc.client hp
  | _ => rfl

/-- One id, one subscription, but for the YS numbers that clash. -/
theorem Handle.eq_of_id {h k : Handle} (hh : h.Own) (hk : k.Own) (he : h.id = k.id)
    (hys : ∀ d e i j l, h = .ys (d, i, j) → k = .ys (e, i, l) → d = e ∧ ¬ j.Clash l)
    (hxm : ∀ d e i j l, h = .xm (d, i, j) → k = .xm (e, i, l) → d = e) : h = k := by
  rw [id_eq hh, id_eq hk] at he
  obtain ⟨hp, hd, hn⟩ := fields_inj (Nc.Ptc.top_lt _) h.fields_lt.1 h.fields_lt.2 (Nc.Ptc.top_lt _) k.fields_lt.1
    k.fields_lt.2 he
  have hc : h.client = k.client := by rw [← client_fields hh, ← client_fields hk, Nc.Ptc.top_inj hp]
  cases h with
  | qh i => cases k with
    | qh j => exact congrArg qh (Fin.ext hn)
    | _ => cases hc
  | hy h => cases k with
    | hy k => exact congrArg hy (Prod.ext (Fin.ext hd) (Hy.Sub.no_inj hn))
    | _ => cases hc
  | ys h => cases k with
    | ys k =>
      obtain ⟨d, i, j⟩ := h
      obtain ⟨e, i', l⟩ := k
      obtain rfl : i = i' := Fin.ext hd
      obtain ⟨rfl, hno⟩ := hys d e i j l rfl rfl
      obtain rfl : j = l := Ys.Sub.no_inj hn hno
      rfl
    | _ => cases hc
  | relay i => cases k with
    | relay j => exact congrArg relay (Fin.ext hn)
    | _ => cases hc
  | xm h => cases k with
    | xm k =>
      obtain ⟨d, i, j⟩ := h
      obtain ⟨e, i', l⟩ := k
      obtain rfl : i = i' := Fin.ext hd
      obtain rfl := hxm d e i j l rfl rfl
      obtain rfl : j = l := Xm.Sub.no_inj hn
      rfl
    | _ => cases hc

end SabApp
