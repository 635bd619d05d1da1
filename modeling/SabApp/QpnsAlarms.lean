import SabApp.CloudVerdicts
import SabApp.QhFrame
import SabApp.Runs

/-!
# Push alarms (hdcctv_client.c)

The Android session of the push client. While it waits for the answer to a login, a heartbeat or a logout it reads on
until that answer comes, so alarms come in between as well as when it polls.
-/

namespace SabApp

namespace Qpns

open CText CloudHttp

/-- PTC_CMD_QPNS_LOGIN -/
def cmdLogin : UInt32 := 0x00100001

/-- PTC_CMD_QPNS_LOGOUT -/
def cmdLogout : UInt32 := 0x00100002

/-- PTC_CMD_QPNS_HEARTBEAT -/
def cmdHeartbeat : UInt32 := 0x00100003

/-- PTC_CMD_QPNS_ALARM -/
def cmdAlarm : UInt32 := 0x00100004

/-- PTC_MSG_SIZE -/
def msgSize : ℕ := 4096

/-- HDCCTV_QPNS_TOKEN_SIZE -/
def tokenSize : ℕ := 72

/-- HDCCTV_QPNS_CONTENT_SIZE -/
def contentSize : ℕ := 128

/-- NC_ERROR_SEND -/
def errSend : ℤ := -6

/-- NC_ERROR_RECV -/
def errRecv : ℤ := -7

/-- What `hdcctv_client_qpns_doAlarm` sets of `hdcctv_qpns_alarm_t`. -/
structure Alarm where
  devId : List UInt8
  time : ℤ
  channel : ℤ
  type : ℤ
  content : List UInt8
  deriving DecidableEq

/-- What comes of the connection: its end, or a message with the flag and the command of its head and its data. -/
inductive Event where
  | broken
  | msg (flag cmd : UInt32) (data : List UInt8)
  deriving DecidableEq

/-- A message that `tool_ptc_qh_recvMsg` lets in. The data ends in a zero byte that is written behind it. -/
structure Message where
  cmd : UInt32
  data : List UInt8
  short : data.length < msgSize

/-- `tool_ptc_qh_recvMsg`, none where it fails. -/
def ptcRecvMsg : Event → Option Message
  | .broken => none
  | .msg flag cmd data =>
    if flag ≠ Qh.ptcFlag then none
    else if h : data.length < msgSize then some ⟨cmd, data, h⟩ else none

/-- `hdcctv_client_qpns_t`: what is still to come on its connection, and the history of what came and of the alarms that were
handed to the callback. A client is `stuck` while it waits for an answer and nothing more comes. -/
structure Client where
  cb : Bool
  online : ℕ
  live : Bool
  isSleep : Bool
  wire : List Event
  came : List Event
  shown : List Alarm
  stuck : Bool

/-- The connection attempt has what then comes on the connection. -/
inductive Act where
  | login (due : Bool) (conn : Option (List Event)) (send : Bool)
  | heartbeat (due send : Bool)
  | recv (poll : ℤ)
  | logout (send : Bool)
  | sleep

/-- A field that is there, as a number. -/
def number (st : ToolJson) : Option JsonPtr → ℤ
  | none => 0
  | some p => ToolJson.atoi (st.deref p)

/-- A field that is there, as a text in memory of so many bytes that was cleared. -/
def text (st : ToolJson) (size : ℕ) : Option JsonPtr → List UInt8
  | none => []
  | some p => (st.deref p).take (size - 1)

/-- The alarm that `hdcctv_client_qpns_doAlarm` makes of a text, none where the parser refuses it. The channel is read
from the content. -/
def readAlarm (data : List UInt8) : Except CloudFault (Option Alarm) := do
  let r ← (ToolJson.parse data).mapError .json
  if r.1 < 0 then .ok none
  else
    let devId ← lookup r.2 "dev_id"
    let time ← lookup r.2 "time"
    let channel ← lookup r.2 "content"
    let type ← lookup r.2 "type"
    let content ← lookup r.2 "content"
    .ok (some ⟨text r.2 tokenSize devId, number r.2 time, number r.2 channel, number r.2 type,
      text r.2 contentSize content⟩)

namespace Client

def init (cb : Bool) : Client := ⟨cb, 0, false, false, [], [], [], false⟩

def doAlarm (q : Client) (data : List UInt8) : Except CloudFault Client :=
  (readAlarm data).map fun
    | none => q
    | some alarm => if q.cb then { q with shown := q.shown ++ [alarm] } else q

/-- The next thing that comes is read. -/
def next (q : Client) (e : Event) (rest : List Event) : Client := { q with wire := rest, came := q.came ++ [e] }

/-- What is done with a message wherever it is read. -/
def handle (q : Client) (m : Message) : Except CloudFault Client :=
  if m.cmd = cmdAlarm then q.doAlarm m.data else .ok q

/-- The loop of `hdcctv_client_qpns_android_recvMsg`. -/
def recvLoop (cmd : UInt32) : List Event → Client → Except CloudFault (ℤ × Client)
  | [], q => .ok (0, { q with wire := [], stuck := true })
  | e :: rest, q =>
    match ptcRecvMsg e with
    | none => .ok (-1, q.next e rest)
    | some m => do
      let q ← (q.next e rest).handle m
      if m.cmd = cmd then .ok (0, q) else recvLoop cmd rest q

/-- `hdcctv_client_qpns_android_recvMsg` -/
def recvMsg (q : Client) (cmd : UInt32) : Except CloudFault (ℤ × Client) := recvLoop cmd q.wire q

/-- `tool_sock_item_close`, which leaves what was not read. -/
def close (q : Client) : Client := { q with live := false, wire := [] }

/-- Behind the steps of a login. -/
def loginEnd (q : Client) : ℤ × Client :=
  if q.online = 0 then (-1, if q.live then q.close else q) else (0, q)

/-- `hdcctv_client_qpns_android_login` -/
def login (q : Client) (due : Bool) (conn : Option (List Event)) (send : Bool) : Except CloudFault (ℤ × Client) :=
  if q.online ≠ 0 then .ok (0, q)
  else if due = false then .ok (-1, q)
  else
    match conn with
    | none => .ok { q with online := 0 }.loginEnd
    | some wire =>
      let q := { q with online := 1, live := true, wire }
      if send = false then .ok { q with online := 0 }.loginEnd
      else do
        let (ret, q) ← q.recvMsg cmdLogin
        if q.stuck then .ok (ret, q)
        else if ret < 0 then .ok { q with online := 0 }.loginEnd
        else .ok { q with online := 2 }.loginEnd

/-- `hdcctv_client_qpns_android_logout` -/
def logout (q : Client) (send : Bool) : Except CloudFault (ℤ × Client) :=
  if q.online = 0 then .ok (0, q)
  else do
    let (ret, q) ← (if send = false then .ok (-1, q) else q.recvMsg cmdLogout)
    if q.stuck then .ok (ret, q)
    else
      let q := if q.live then q.close else q
      .ok (0, { q with online := 0 })

/-- `hdcctv_client_qpns_android_heartbeat` -/
def heartbeat (q : Client) (due send : Bool) : Except CloudFault (ℤ × Client) :=
  if q.online = 0 then .ok (-1, q)
  else if due = false then .ok (0, q)
  else if send = false then .ok (errSend, q)
  else do
    let (ret, q) ← q.recvMsg cmdHeartbeat
    if q.stuck then .ok (ret, q)
    else if ret < 0 then .ok (errRecv, q)
    else .ok (0, q)

/-- `hdcctv_client_qpns_android_recv` -/
def recv (q : Client) (poll : ℤ) : Except CloudFault (ℤ × Client) :=
  if q.online = 0 then .ok (-1, q)
  else if poll < 0 then .ok (-1, q)
  else if poll = 0 then .ok (0, q)
  else
    match q.wire with
    | [] => .ok (0, { q with stuck := true })
    | e :: rest =>
      match ptcRecvMsg e with
      | none => .ok (-1, q.next e rest)
      | some m => ((q.next e rest).handle m).map fun q => (0, { q with isSleep := false })

/-- A step of `hdcctv_client_qpns_run`; none is `log_fatal` or worse. -/
def step (q : Client) (a : Act) : Option Client :=
  if q.stuck then some q
  else
    match a with
    | .login due conn send => (q.login due conn send).toOption.map Prod.snd
    | .heartbeat due send => (q.heartbeat due send).toOption.map Prod.snd
    | .recv poll => (q.recv poll).toOption.map Prod.snd
    | .logout send => (q.logout send).toOption.map Prod.snd
    | .sleep => some { q with isSleep := true }

/-- The alarm in what came: of a message that is received, has the command of alarms and a text that the parser
accepts. -/
def alarm (e : Event) : Option Alarm :=
  (ptcRecvMsg e).bind fun m => if m.cmd = cmdAlarm then (readAlarm m.data).toOption.join else none

/-- The callback got the alarms of what came, in the order in which it came. -/
def Delivered (q : Client) : Prop := q.shown = if q.cb then q.came.filterMap alarm else []

/-- A message of the alarm command comes in whole, and the parser accepts its text. -/
def Accepted (e : Event) : Prop :=
  ∃ m ret st, ptcRecvMsg e = some m ∧ m.cmd = cmdAlarm ∧ ToolJson.parse m.data = .ok (ret, st) ∧ 0 ≤ ret

end Client

/-! ## Reading an alarm -/

theorem length_cstr_lt {data : List UInt8} (h : data.length < msgSize) : (cstr data).length < jsonStrSize :=
  Nat.lt_of_le_of_lt (List.takeWhile_sublist _).length_le h

/-- The texts of received messages are parsed without a fault, and the lookups are not fatal. -/
theorem readAlarm_ok {data : List UInt8} (h : data.length < msgSize) :
    ∃ ret st alarm, ToolJson.parse data = .ok (ret, st) ∧ readAlarm data = .ok alarm ∧ (alarm.isSome ↔ 0 ≤ ret) := by
  obtain ⟨ret, st, hp, -, -, -, hnamed, -⟩ := ToolJson.parse_safe data (length_cstr_lt h)
  obtain ⟨devId, -, h₁⟩ := lookup_eq hnamed "dev_id"
  obtain ⟨time, -, h₂⟩ := lookup_eq hnamed "time"
  obtain ⟨content, -, h₃⟩ := lookup_eq hnamed "content"
  obtain ⟨type, -, h₄⟩ := lookup_eq hnamed "type"
  by_cases hret : ret < 0
  · refine ⟨ret, st, none, hp, ?_, by simpa using hret⟩
    unfold readAlarm
    rw [hp]
    exact if_pos hret
  · refine ⟨ret, st, some ⟨text st tokenSize devId, number st time, number st content, number st type,
      text st contentSize content⟩, hp, ?_, iff_of_true rfl (Int.not_lt.mp hret)⟩
    unfold readAlarm
    rw [hp]
    refine (if_neg hret).trans ?_
    rw [h₁, h₂, h₃, h₄]
    rfl

namespace Client

theorem alarm_isSome (e : Event) : (alarm e).isSome ↔ Accepted e := by
  unfold alarm Accepted
  cases hm : ptcRecvMsg e with
  | none => simp
  | some m =>
    obtain ⟨ret, st, a, hp, ha, hsome⟩ := readAlarm_ok m.short
    simp only [Option.bind_some, ha, Option.some.injEq]
    constructor
    · intro h
      by_cases hc : m.cmd = cmdAlarm
      · rw [if_pos hc] at h
        exact ⟨m, ret, st, rfl, hc, hp, hsome.mp h⟩
      · rw [if_neg hc] at h
        cases h
    · rintro ⟨m', ret', st', rfl, hc, hp', hret⟩
      rw [hp] at hp'
      cases hp'
      rw [if_pos hc]
      exact hsome.mpr hret

/-- A call comes to an end, with the alarms delivered. -/
def Does (x : Except CloudFault (ℤ × Client)) : Prop := ∃ ret q, x = .ok (ret, q) ∧ q.Delivered

theorem Does.ok {q : Client} (h : q.Delivered) (ret : ℤ) : Does (.ok (ret, q)) := ⟨ret, q, rfl, h⟩

theorem Does.bind {x : Except CloudFault (ℤ × Client)} {f : ℤ × Client → Except CloudFault (ℤ × Client)} (h : Does x)
    (hf : ∀ ret q, q.Delivered → Does (f (ret, q))) : Does (x >>= f) := by
  obtain ⟨ret, q, rfl, hq⟩ := h
  exact hf ret q hq

theorem delivered_next {q : Client} {e : Event} (h : q.Delivered) (he : ptcRecvMsg e = none) (rest : List Event) :
    (q.next e rest).Delivered := by
  have ha : alarm e = none := by rw [alarm, he]; rfl
  simp only [Delivered, next, List.filterMap_append, List.filterMap_cons_none ha, List.filterMap_nil, List.append_nil]
  exact h

/-- A message is handled once, where it is read. -/
theorem handle_next {q : Client} {e : Event} {m : Message} (h : q.Delivered) (he : ptcRecvMsg e = some m)
    (rest : List Event) : ∃ q', (q.next e rest).handle m = .ok q' ∧ q'.Delivered := by
  unfold Delivered at h
  unfold handle
  by_cases hc : m.cmd = cmdAlarm
  · obtain ⟨-, -, a, -, ha, -⟩ := readAlarm_ok m.short
    have halarm : alarm e = a := by
      simp only [alarm, he, Option.bind_some, if_pos hc, ha]
      rfl
    rw [if_pos hc]
    unfold doAlarm
    rw [ha]
    cases a with
    | none =>
      refine ⟨_, rfl, ?_⟩
      simp only [Delivered, next, List.filterMap_append, List.filterMap_cons_none halarm, List.filterMap_nil, List.append_nil]
      exact h
    | some a =>
      refine ⟨_, rfl, ?_⟩
      cases hcb : q.cb with
      | false => simpa [Delivered, next, hcb] using h
      | true => simpa [Delivered, next, hcb, halarm] using h
  · have halarm : alarm e = none := by
      simp only [alarm, he, Option.bind_some, if_neg hc]
    refine ⟨_, if_neg hc, ?_⟩
    simp only [Delivered, next, List.filterMap_append, List.filterMap_cons_none halarm, List.filterMap_nil, List.append_nil]
    exact h

/-! ## The calls -/

/-- Whatever answer is waited for, each alarm that comes before it is handed on. -/
theorem recvLoop_does (cmd : UInt32) (es : List Event) : ∀ {q : Client}, q.Delivered → Does (recvLoop cmd es q) := by
  induction es with
  | nil =>
    intro q h
    exact .ok (q := { q with wire := [], stuck := true }) h 0
  | cons e es ih =>
    intro q h
    unfold recvLoop
    cases he : ptcRecvMsg e with
    | none => exact .ok (delivered_next h he es) (-1)
    | some m =>
      obtain ⟨q', hq, hd⟩ := handle_next h he es
      simp only [hq]
      by_cases hc : m.cmd = cmd
      · simpa [hc] using Does.ok hd 0
      · simpa [hc] using ih hd

theorem recvMsg_does {q : Client} (h : q.Delivered) (cmd : UInt32) : Does (q.recvMsg cmd) := recvLoop_does cmd q.wire h

theorem delivered_close {q : Client} (h : q.Delivered) : (if q.live then q.close else q).Delivered := by
  split
  · exact h
  · exact h

theorem loginEnd_does {q : Client} (h : q.Delivered) : Does (.ok q.loginEnd) := by
  unfold loginEnd
  split
  · exact .ok (delivered_close h) (-1)
  · exact .ok h 0

theorem login_does {q : Client} (h : q.Delivered) (due : Bool) (conn : Option (List Event)) (send : Bool) :
    Does (q.login due conn send) := by
  unfold login
  by_cases ho : q.online ≠ 0
  · rw [if_pos ho]
    exact .ok h 0
  rw [if_neg ho]
  by_cases hd : due = false
  · rw [if_pos hd]
    exact .ok h (-1)
  rw [if_neg hd]
  cases conn with
  | none => exact loginEnd_does h
  | some wire =>
    dsimp only
    by_cases hs : send = false
    · rw [if_pos hs]
      exact loginEnd_does h
    rw [if_neg hs]
    refine Does.bind (recvMsg_does ?_ cmdLogin) ?_
    · exact h
    intro ret t ht
    dsimp only
    split
    · exact .ok ht ret
    split
    · exact loginEnd_does ht
    · exact loginEnd_does ht

theorem logout_does {q : Client} (h : q.Delivered) (send : Bool) : Does (q.logout send) := by
  unfold logout
  by_cases ho : q.online = 0
  · rw [if_pos ho]
    exact .ok h 0
  rw [if_neg ho]
  have hx : Does (if send = false then .ok (-1, q) else q.recvMsg cmdLogout) := by
    split
    · exact .ok h (-1)
    · exact recvMsg_does h cmdLogout
  apply hx.bind
  intro ret t ht
  dsimp only
  split
  · exact .ok ht ret
  · exact ⟨0, _, rfl, delivered_close ht⟩

theorem heartbeat_does {q : Client} (h : q.Delivered) (due send : Bool) : Does (q.heartbeat due send) := by
  unfold heartbeat
  by_cases ho : q.online = 0
  · rw [if_pos ho]
    exact .ok h (-1)
  rw [if_neg ho]
  by_cases hd : due = false
  · rw [if_pos hd]
    exact .ok h 0
  rw [if_neg hd]
  by_cases hs : send = false
  · rw [if_pos hs]
    exact .ok h errSend
  rw [if_neg hs]
  apply (recvMsg_does h cmdHeartbeat).bind
  intro ret t ht
  dsimp only
  split
  · exact .ok ht ret
  split
  · exact .ok ht errRecv
  · exact .ok ht 0

theorem recv_does {q : Client} (h : q.Delivered) (poll : ℤ) : Does (q.recv poll) := by
  unfold recv
  by_cases ho : q.online = 0
  · rw [if_pos ho]
    exact .ok h (-1)
  rw [if_neg ho]
  by_cases hn : poll < 0
  · rw [if_pos hn]
    exact .ok h (-1)
  rw [if_neg hn]
  by_cases hz : poll = 0
  · rw [if_pos hz]
    exact .ok h 0
  rw [if_neg hz]
  cases q.wire with
  | nil => exact ⟨0, _, rfl, h⟩
  | cons e rest =>
    dsimp only
    cases he : ptcRecvMsg e with
    | none => exact .ok (delivered_next h he rest) (-1)
    | some m =>
      obtain ⟨t, ht, hd⟩ := handle_next h he rest
      simp only [ht]
      exact ⟨0, _, rfl, hd⟩

theorem Does.step {x : Except CloudFault (ℤ × Client)} (h : Does x) :
    ∃ t, x.toOption.map Prod.snd = some t ∧ t.Delivered := by
  obtain ⟨ret, t, rfl, ht⟩ := h
  exact ⟨t, rfl, ht⟩

theorem delivered_step {q : Client} (h : q.Delivered) (a : Act) : ∃ t, step q a = some t ∧ t.Delivered := by
  unfold Client.step
  by_cases hs : q.stuck = true
  · rw [if_pos hs]
    exact ⟨q, rfl, h⟩
  rw [if_neg hs]
  cases a with
  | login due conn send => exact (login_does h due conn send).step
  | heartbeat due send => exact (heartbeat_does h due send).step
  | recv poll => exact (recv_does h poll).step
  | logout send => exact (logout_does h send).step
  | sleep => exact ⟨_, rfl, h⟩

/-- In every state of every run the callback got exactly the alarms that came and that the parser accepts, each once and in the
order in which they came, and no call faults. -/
theorem delivered_always (cb : Bool) (acts : List Act) :
    Always step Delivered (init cb) acts ∧ ∀ e, (alarm e).isSome ↔ Accepted e := by
  refine ⟨?_, alarm_isSome⟩
  apply always_of_meets (I := Delivered) (fun q a h _ => delivered_step h a) (fun _ h => h) _ (meets_true (init cb) acts)
  cases cb <;> rfl

end Client

end Qpns

end SabApp
