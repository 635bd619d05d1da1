import SabApp.HyRecords

/-!
# Searching a HY device's log (nc_hy.c)

`nc_hy_dev_doLogs` copies the caller's `ptc_logs_t` and appends what the device sends: `num` is where the caller left it,
and of an entry it sets the fields that the kind of the message has. Whatever the table held before, the device's
messages come to a list of entries, some with a channel and some without; `hear` makes that list.
-/

namespace SabApp

namespace Hy

/-- `hy_msg_log_t`, 16 bytes on the wire. -/
structure MsgLog where
  time : HyTime
  type : UInt16
  data : UInt8
  context : Fin 8 → UInt8

/-- `hy_msg_log_d2c_t`. -/
structure LogD2c where
  len : ℕ
  log : Fin 61 → MsgLog

/-- `ptc_log_t` -/
structure Log where
  time : UInt32
  type : UInt8
  subType : UInt8
  channel : UInt8
  chType : UInt8
  subType2 : UInt16
  reserve : UInt8 × UInt8
  ip : UInt8 × UInt8 × UInt8 × UInt8

/-- `ptc_logs_t` -/
structure Logs where
  startTime : UInt32
  endTime : UInt32
  num : ℕ
  log : ℕ → Log

/-- PTC_LOG_TYPE_SYSTEM -/
def logTypeSystem : UInt8 := 1

/-- PTC_LOG_TYPE_ALARM -/
def logTypeAlarm : UInt8 := 2

/-- PTC_LOG_TYPE_OPERATE -/
def logTypeOperate : UInt8 := 3

structure LogKind where
  type : UInt8
  subType : UInt8
  channel : Option UInt8

/-- The sub type for a saved configuration, by its HY_CFG_INDEX. -/
def confSubType (data : UInt8) : UInt8 :=
  if data = 1 then 135        -- COMM
  else if data = 2 then 85    -- NET
  else if data = 3 then 65    -- RECORD
  else if data = 4 then 108   -- CAPTURE
  else if data = 5 then 144   -- PTZ
  else if data = 6 then 142   -- DETECT
  else if data = 7 then 71    -- ALARM
  else if data = 10 then 53   -- TITLE
  else if data = 11 then 146  -- MAIL
  else if data = 13 then 138  -- PPPOE
  else if data = 14 then 139  -- DDNS
  else if data = 16 then 131  -- DSPINFO
  else if data = 126 then 54  -- COLOR
  else 130

/-- The branches over HY_LOG_TYPE; none for a type that is not known. -/
def MsgLog.kind (m : MsgLog) : Option LogKind :=
  let ch := some (m.data - 1)
  if m.type = 0x0000 then some ⟨logTypeSystem, 3, none⟩             -- REBOOT
  else if m.type = 0x0001 then some ⟨logTypeSystem, 2, none⟩        -- SHUT
  else if m.type = 0x0004 then some ⟨logTypeSystem, 6, none⟩        -- UPGRADE
  else if m.type = 0x0100 then some ⟨logTypeOperate, confSubType m.data, none⟩
  -- FSERROR and the HDD errors
  else if m.type ∈ [0x0200, 0x0201, 0x0202, 0x0205, 0x0206, 0x0207, 0x0208, 0x0209, 0x020A, 0x020B, 0x020C, 0x020D] then
    some ⟨logTypeAlarm, 244, none⟩
  else if m.type ∈ [0x0203, 0x0204] then some ⟨logTypeAlarm, 5, none⟩      -- HDD_TYPE, HDD_FORMAT
  else if m.type ∈ [0x0300, 0x0301, 0x0307] then some ⟨logTypeAlarm, 165, ch⟩  -- ALM_IN, NETALM_IN, ALM_BOSHI
  else if m.type = 0x0302 then some ⟨logTypeAlarm, 166, ch⟩         -- ALM_END
  else if m.type = 0x0303 then some ⟨logTypeAlarm, 196, ch⟩         -- LOSS_IN
  else if m.type = 0x0304 then some ⟨logTypeAlarm, 197, ch⟩         -- LOSS_END
  else if m.type = 0x0305 then some ⟨logTypeAlarm, 161, ch⟩         -- MOTION_IN
  else if m.type = 0x0306 then some ⟨logTypeAlarm, 162, ch⟩         -- MOTION_END
  else if m.type = 0x0308 then some ⟨logTypeAlarm, 242, none⟩       -- NET_ABORT
  else if m.type = 0x030C then some ⟨logTypeAlarm, 198, ch⟩         -- BLIND_IN
  else if m.type = 0x030D then some ⟨logTypeAlarm, 199, ch⟩         -- BLIND_END
  else if m.type = 0x03A2 then some ⟨logTypeAlarm, 241, none⟩       -- IPCONFLICT
  else if m.type = 0x0400 then some ⟨logTypeOperate, 103, none⟩     -- AUTOMATIC_RECORD
  else if m.type = 0x0401 then some ⟨logTypeOperate, 10, none⟩      -- MANUAL_RECORD
  else if m.type = 0x0402 then some ⟨logTypeOperate, 11, none⟩      -- CLOSED_RECORD
  else if m.type = 0x0500 then some ⟨logTypeOperate, 21, none⟩      -- LOGIN
  else if m.type = 0x0501 then some ⟨logTypeOperate, 22, none⟩      -- LOGOUT
  else if m.type ∈ [0x0502, 0x0508] then some ⟨logTypeOperate, 95, none⟩   -- ADD_USER, NET_LOGIN
  else if m.type = 0x0503 then some ⟨logTypeOperate, 97, none⟩      -- DELETE_USER
  else if m.type = 0x0504 then some ⟨logTypeOperate, 96, none⟩      -- MODIFY_USER
  else if m.type = 0x0600 then some ⟨logTypeOperate, 222, none⟩     -- CLEAR
  else if m.type = 0x0601 then some ⟨logTypeOperate, 233, none⟩     -- SEARCHLOG
  else if m.type = 0x0700 then some ⟨logTypeOperate, 219, none⟩     -- SEARCH
  else if m.type ∈ [0x0701, 0x0702] then some ⟨logTypeOperate, 201, some (m.context 4 - 1)⟩  -- DOWNLOAD, PLAYBACK
  else if m.type = 0x0703 then some ⟨logTypeOperate, 213, none⟩     -- BACKUP
  else if m.type = 0x0704 then some ⟨logTypeOperate, 215, none⟩     -- BACKUPERROR
  else none

/-- What a message does to `log[num]`. -/
def Logs.put (c : Calendar) (l : Logs) (m : MsgLog) : Logs :=
  let e := { l.log l.num with time := c.date2Time m.time }
  match m.kind with
  | none => { l with log := Function.update l.log l.num e }
  | some k =>
    let e := { e with type := k.type, subType := k.subType, channel := k.channel.getD e.channel }
    if e.time ≤ l.startTime ∨ e.time ≥ l.endTime then { l with log := Function.update l.log l.num e }
    else { l with num := l.num + 1, log := Function.update l.log l.num { e with subType2 := e.subType.toUInt16 } }

/-- The loop over a message: where it stops, and the table then. -/
def scanLogs (c : Calendar) (len : ℕ) : ℕ → List MsgLog → Logs → ℕ × Logs
  | i, [], l => (i, l)
  | i, m :: ms, l => if 1024 ≤ l.num ∨ len ≤ i * 16 then (i, l) else scanLogs c len (i + 1) ms (l.put c m)

/-- The messages, until none arrives any more: `ret` and the table. -/
def recvLogs (c : Calendar) : List LogD2c → Logs → Int32 × Logs
  | [], l => (Nc.errSend, l)
  | msg :: msgs, l =>
    let (i, l) := scanLogs c msg.len 0 (List.ofFn msg.log) l
    if i ≠ 61 then (0, l)
    else if msg.len < 976 then (0, l)
    else recvLogs c msgs l

/-- What a device's slot holds for its log. -/
structure LogsDev where
  lastLogsReq : UInt32
  curLogsReq : UInt32
  cfgLogs : Logs
  resultLogs : Int32

def nc_hy_dev_doLogs (c : Calendar) (sent : Bool) (msgs : List LogD2c) (dev : LogsDev) : Int32 × LogsDev :=
  if dev.lastLogsReq = dev.curLogsReq then (0, dev)
  else
    let (ret, l) := if sent then recvLogs c msgs dev.cfgLogs else (Nc.errSend, dev.cfgLogs)
    (ret, { dev with cfgLogs := l, resultLogs := ret, lastLogsReq := dev.curLogsReq })

/-! ## What the device tells -/

structure Told where
  time : UInt32
  type : UInt8
  subType : UInt8
  channel : Option UInt8

/-- The entry over what is in its place. -/
def Told.over (t : Told) (e : Log) : Log :=
  { e with time := t.time, type := t.type, subType := t.subType, channel := t.channel.getD e.channel,
           subType2 := t.subType.toUInt16 }

/-- The entries told so far, and the channel that is set for the next. -/
structure Heard where
  told : List Told
  channel : Option UInt8

section
variable (c : Calendar) (startTime endTime : UInt32)

def Heard.hear (h : Heard) (m : MsgLog) : Heard :=
  match m.kind with
  | none => h
  | some k =>
    let channel := k.channel.or h.channel
    if c.date2Time m.time ≤ startTime ∨ c.date2Time m.time ≥ endTime then { h with channel }
    else ⟨h.told ++ [⟨c.date2Time m.time, k.type, k.subType, channel⟩], none⟩

/-- The loop over a message behind `n` entries. -/
def hearMsg (n len : ℕ) : ℕ → List MsgLog → Heard → ℕ × Heard
  | i, [], h => (i, h)
  | i, m :: ms, h =>
    if 1024 ≤ n + h.told.length ∨ len ≤ i * 16 then (i, h) else hearMsg n len (i + 1) ms (h.hear c startTime endTime m)

def hear (n : ℕ) : List LogD2c → Heard → Int32 × Heard
  | [], h => (Nc.errSend, h)
  | msg :: msgs, h =>
    let (i, h) := hearMsg c startTime endTime n msg.len 0 (List.ofFn msg.log) h
    if i ≠ 61 then (0, h)
    else if msg.len < 976 then (0, h)
    else hear n msgs h

/-- What the call hears behind `n` entries. -/
def heardFrom (n : ℕ) (sent : Bool) (msgs : List LogD2c) : Int32 × Heard :=
  if sent then hear c startTime endTime n msgs ⟨[], none⟩ else (Nc.errSend, ⟨[], none⟩)

end

/-- A place has what it had of the fields that no message sets, and the channel that one has set. -/
structure Log.Keeps (t : Log) (channel : Option UInt8) (e : Log) : Prop where
  channel : e.channel = channel.getD t.channel
  chType : e.chType = t.chType
  reserve : e.reserve = t.reserve
  ip : e.ip = t.ip

/-- The table `l` is the table `t` with the entries that were heard behind its own. -/
structure Shows (t : Logs) (h : Heard) (l : Logs) : Prop where
  startTime : l.startTime = t.startTime
  endTime : l.endTime = t.endTime
  num : l.num = t.num + h.told.length
  before : ∀ i < t.num, l.log i = t.log i
  told : ∀ j e, h.told[j]? = some e → l.log (t.num + j) = e.over (t.log (t.num + j))
  next : (t.log l.num).Keeps h.channel (l.log l.num)
  after : ∀ i, l.num < i → l.log i = t.log i

section
variable {t l : Logs} {h : Heard}

theorem Shows.start (t : Logs) : Shows t ⟨[], none⟩ t :=
  ⟨rfl, rfl, rfl, fun _ _ => rfl, nofun, ⟨rfl, rfl, rfl, rfl⟩, fun _ _ => rfl⟩

/-- Another entry in the open place, which stays open. -/
theorem Shows.stay (hs : Shows t h l) {e : Log} {ch : Option UInt8} (he : (t.log l.num).Keeps ch e) :
    Shows t { h with channel := ch } { l with log := Function.update l.log l.num e } where
  startTime := hs.startTime
  endTime := hs.endTime
  num := hs.num
  before i hi := by
    have hne : i ≠ l.num := by
      rw [hs.num]
      omega
    exact (Function.update_of_ne hne ..).trans (hs.before i hi)
  told j x hj := by
    have hlt := (List.getElem?_eq_some_iff.mp hj).1
    have hne : t.num + j ≠ l.num := by
      rw [hs.num]
      dsimp only at hlt
      omega
    exact (Function.update_of_ne hne ..).trans (hs.told j x hj)
  next := by
    show (t.log l.num).Keeps ch (Function.update l.log l.num e l.num)
    rw [Function.update_self]
    exact he
  after i hi := (Function.update_of_ne (Nat.ne_of_gt hi) ..).trans (hs.after i hi)

/-- The open place gets its entry. -/
theorem Shows.close (hs : Shows t h l) {e : Told} :
    Shows t ⟨h.told ++ [e], none⟩ { l with num := l.num + 1, log := Function.update l.log l.num (e.over (t.log l.num)) } where
  startTime := hs.startTime
  endTime := hs.endTime
  num := by
    show l.num + 1 = _
    rw [hs.num, List.length_append, List.length_singleton, Nat.add_assoc]
  before i hi := by
    have hne : i ≠ l.num := by
      rw [hs.num]
      omega
    exact (Function.update_of_ne hne ..).trans (hs.before i hi)
  told j x hj := by
    have hnum := hs.num
    dsimp only at hj ⊢
    rcases Nat.lt_or_ge j h.told.length with hlt | hge
    · rw [List.getElem?_append_left hlt] at hj
      rw [Function.update_of_ne (by omega)]
      exact hs.told j x hj
    · have hlt := (List.getElem?_eq_some_iff.mp hj).1
      rw [List.length_append, List.length_singleton] at hlt
      obtain rfl : j = h.told.length := by omega
      rw [List.getElem?_append_right (Nat.le_refl _), Nat.sub_self] at hj
      cases hj
      rw [← hnum, Function.update_self]
  next := by
    show (t.log (l.num + 1)).Keeps none (Function.update l.log l.num _ (l.num + 1))
    rw [Function.update_of_ne (Nat.succ_ne_self _), hs.after _ (Nat.lt_succ_self _)]
    exact ⟨rfl, rfl, rfl, rfl⟩
  after i hi := by
    have hi : l.num + 1 < i := hi
    exact (Function.update_of_ne (by omega) ..).trans (hs.after i (by omega))

theorem Shows.put (hs : Shows t h l) (c : Calendar) (m : MsgLog) :
    Shows t (h.hear c t.startTime t.endTime m) (l.put c m) := by
  have hnext := hs.next
  have hchannel (ch : Option UInt8) : ch.getD (l.log l.num).channel = (ch.or h.channel).getD (t.log l.num).channel := by
    cases ch with
    | none => exact hnext.channel
    | some x => rfl
  unfold Heard.hear Logs.put
  cases m.kind with
  | none => exact hs.stay (e := { l.log l.num with time := c.date2Time m.time }) ⟨hnext.channel, hnext.chType, hnext.reserve, hnext.ip⟩
  | some k =>
    dsimp only
    rw [← hs.startTime, ← hs.endTime]
    split
    · refine hs.stay (e := { l.log l.num with time := _, type := _, subType := _, channel := _ }) ?_
      exact ⟨hchannel k.channel, hnext.chType, hnext.reserve, hnext.ip⟩
    · have hclose := hs.close (e := ⟨c.date2Time m.time, k.type, k.subType, k.channel.or h.channel⟩)
      have he : Told.over ⟨c.date2Time m.time, k.type, k.subType, k.channel.or h.channel⟩ (t.log l.num) =
          { l.log l.num with
            time := c.date2Time m.time
            type := k.type
            subType := k.subType
            channel := k.channel.getD (l.log l.num).channel
            subType2 := k.subType.toUInt16 } := by
        rw [hchannel, Told.over, ← hnext.chType, ← hnext.reserve, ← hnext.ip]
      rw [he] at hclose
      exact hclose

theorem Shows.scan (c : Calendar) (len : ℕ) : ∀ (ms : List MsgLog) (i : ℕ) {h : Heard} {l : Logs}, Shows t h l →
    (scanLogs c len i ms l).1 = (hearMsg c t.startTime t.endTime t.num len i ms h).1 ∧
      Shows t (hearMsg c t.startTime t.endTime t.num len i ms h).2 (scanLogs c len i ms l).2
  | [], i, h, l, hs => ⟨rfl, hs⟩
  | m :: ms, i, h, l, hs => by
    rw [scanLogs, hearMsg, hs.num]
    split
    · exact ⟨rfl, hs⟩
    · exact Shows.scan c len ms (i + 1) (hs.put c m)

theorem Shows.recv (c : Calendar) : ∀ (msgs : List LogD2c) {h : Heard} {l : Logs}, Shows t h l →
    (recvLogs c msgs l).1 = (hear c t.startTime t.endTime t.num msgs h).1 ∧
      Shows t (hear c t.startTime t.endTime t.num msgs h).2 (recvLogs c msgs l).2
  | [], h, l, hs => ⟨rfl, hs⟩
  | msg :: msgs, h, l, hs => by
    obtain ⟨hi, hscan⟩ := Shows.scan c msg.len (List.ofFn msg.log) 0 hs
    unfold recvLogs hear
    dsimp only
    rw [hi]
    split
    · exact ⟨rfl, hscan⟩
    · split
      · exact ⟨rfl, hscan⟩
      · exact Shows.recv c msgs hscan

end

/-- The call appends to the table what is heard behind it, and returns accordingly. -/
theorem doLogs_shows (c : Calendar) (sent : Bool) (msgs : List LogD2c) {dev : LogsDev} (hreq : dev.lastLogsReq ≠ dev.curLogsReq) :
    let heard := heardFrom c dev.cfgLogs.startTime dev.cfgLogs.endTime dev.cfgLogs.num sent msgs
    let r := nc_hy_dev_doLogs c sent msgs dev
    r.1 = heard.1 ∧ r.2.resultLogs = heard.1 ∧ Shows dev.cfgLogs heard.2 r.2.cfgLogs := by
  dsimp only
  unfold nc_hy_dev_doLogs heardFrom
  rw [if_neg hreq]
  cases sent with
  | false => exact ⟨rfl, rfl, .start _⟩
  | true =>
    obtain ⟨hret, hshows⟩ := Shows.recv c msgs (.start dev.cfgLogs)
    exact ⟨hret, hret, hshows⟩

/-! ## What two tables come to -/

section
variable (c : Calendar) (sent : Bool) (msgs : List LogD2c) (dev : LogsDev)

def answerTo (t : Logs) : Int32 × LogsDev := nc_hy_dev_doLogs c sent msgs { dev with cfgLogs := t }

/-- The two tables come to the same codes and the same entries, as many as there is room for. -/
structure SameAnswer (t t' : Logs) : Prop where
  ret : (answerTo c sent msgs dev t).1 = (answerTo c sent msgs dev t').1
  result : (answerTo c sent msgs dev t).2.resultLogs = (answerTo c sent msgs dev t').2.resultLogs
  num : (answerTo c sent msgs dev t).2.cfgLogs.num = (answerTo c sent msgs dev t').2.cfgLogs.num
  entries : ∀ i < (answerTo c sent msgs dev t).2.cfgLogs.num,
    (answerTo c sent msgs dev t).2.cfgLogs.log i = (answerTo c sent msgs dev t').2.cfgLogs.log i
  bound : (answerTo c sent msgs dev t).2.cfgLogs.num ≤ 1024

/-- Every field of every entry comes from the device: it is the same whatever the entries before were. -/
def AllSet (t : Logs) : Prop :=
  ∀ i < (answerTo c sent msgs dev t).2.cfgLogs.num, ∀ log,
    (answerTo c sent msgs dev { t with log }).2.cfgLogs.log i = (answerTo c sent msgs dev t).2.cfgLogs.log i

end

/-- The message is of a known kind and from inside the window. -/
def MsgLog.Kept (c : Calendar) (startTime endTime : UInt32) (m : MsgLog) : Prop :=
  m.kind.isSome = true ∧ ¬ (c.date2Time m.time ≤ startTime ∨ c.date2Time m.time ≥ endTime)

/-- The entries that a message says it has. -/
def LogD2c.entries (msg : LogD2c) : List MsgLog := (List.ofFn msg.log).take ((msg.len + 15) / 16)

/-- No message that is asked for has an entry to be kept. -/
def Silent (c : Calendar) (startTime endTime : UInt32) : List LogD2c → Prop
  | [] => True
  | msg :: msgs => (∀ m ∈ msg.entries, ¬ m.Kept c startTime endTime) ∧ (976 ≤ msg.len → Silent c startTime endTime msgs)

/-- The two places have the same in the fields that `e` does not set. -/
structure Told.Agree (e : Told) (x y : Log) : Prop where
  channel : e.channel = none → x.channel = y.channel
  chType : x.chType = y.chType
  reserve : x.reserve = y.reserve
  ip : x.ip = y.ip

theorem Told.over_eq_iff (e : Told) (x y : Log) : e.over x = e.over y ↔ e.Agree x y := by
  constructor
  · intro h
    simp only [Told.over, Log.mk.injEq] at h
    obtain ⟨-, -, -, hch, ht, -, hr, hi⟩ := h
    refine ⟨fun hc => ?_, ht, hr, hi⟩
    rw [hc] at hch
    exact hch
  · rintro ⟨hc, ht, hr, hi⟩
    have hch : e.channel.getD x.channel = e.channel.getD y.channel := by
      cases he : e.channel with
      | none => exact hc he
      | some ch => rfl
    simp only [Told.over, hch, ht, hr, hi]

section
variable (c : Calendar) (startTime endTime : UInt32)

theorem hear_told (h : Heard) (m : MsgLog) :
    m.Kept c startTime endTime ∧ (∃ e, (h.hear c startTime endTime m).told = h.told ++ [e]) ∨
      ¬ m.Kept c startTime endTime ∧ (h.hear c startTime endTime m).told = h.told := by
  unfold Heard.hear MsgLog.Kept
  cases m.kind with
  | none => exact .inr ⟨fun hk => absurd hk.1 Bool.false_ne_true, rfl⟩
  | some k =>
    dsimp only
    split
    · next hw => exact .inr ⟨fun hk => hk.2 hw, rfl⟩
    · next hw => exact .inl ⟨⟨rfl, hw⟩, _, rfl⟩

theorem hearMsg_room {n : ℕ} (len : ℕ) : ∀ (ms : List MsgLog) (i : ℕ) {h : Heard}, n + h.told.length ≤ max n 1024 →
    n + (hearMsg c startTime endTime n len i ms h).2.told.length ≤ max n 1024
  | [], _, _, hn => hn
  | m :: ms, i, h, hn => by
    rw [hearMsg]
    split
    · exact hn
    · refine hearMsg_room len ms (i + 1) ?_
      rcases hear_told c startTime endTime h m with ⟨-, e, he⟩ | ⟨-, he⟩ <;> rw [he]
      · rw [List.length_append, List.length_singleton]
        omega
      · exact hn

theorem hear_room {n : ℕ} : ∀ (msgs : List LogD2c) {h : Heard}, n + h.told.length ≤ max n 1024 →
    n + (hear c startTime endTime n msgs h).2.told.length ≤ max n 1024
  | [], _, hn => hn
  | msg :: msgs, h, hn => by
    have hmsg := hearMsg_room c startTime endTime msg.len (List.ofFn msg.log) 0 hn
    unfold hear
    dsimp only
    split
    · exact hmsg
    · split
      · exact hmsg
      · exact hear_room msgs hmsg

theorem hearMsg_told {n : ℕ} (len : ℕ) : ∀ (ms : List MsgLog) (i : ℕ) (h : Heard),
    h.told <+: (hearMsg c startTime endTime n len i ms h).2.told
  | [], _, h => List.prefix_refl _
  | m :: ms, i, h => by
    rw [hearMsg]
    split
    · exact List.prefix_refl _
    · refine List.IsPrefix.trans ?_ (hearMsg_told len ms (i + 1) _)
      rcases hear_told c startTime endTime h m with ⟨-, e, he⟩ | ⟨-, he⟩
      · rw [he]
        exact List.prefix_append ..
      · exact ⟨[], by rw [List.append_nil, he]⟩

theorem hear_told_more {n : ℕ} : ∀ (msgs : List LogD2c) (h : Heard), h.told <+: (hear c startTime endTime n msgs h).2.told
  | [], h => List.prefix_refl _
  | msg :: msgs, h => by
    have hmsg := hearMsg_told c startTime endTime (n := n) msg.len (List.ofFn msg.log) 0 h
    unfold hear
    dsimp only
    split
    · exact hmsg
    · split
      · exact hmsg
      · exact hmsg.trans (hear_told_more msgs _)

/-- Nothing is told of a message that has nothing to keep, and it is heard to its end. -/
theorem hearMsg_silent (len : ℕ) : ∀ (ms : List MsgLog) (i : ℕ) {h : Heard}, h.told = [] →
    ((hearMsg c startTime endTime 0 len i ms h).2.told = [] ↔
      ∀ m ∈ ms.take ((len + 15) / 16 - i), ¬ m.Kept c startTime endTime) ∧
    ((hearMsg c startTime endTime 0 len i ms h).2.told = [] → (i + ms.length) * 16 ≤ len →
      (hearMsg c startTime endTime 0 len i ms h).1 = i + ms.length)
  | [], i, h, hh => ⟨iff_of_true hh (by rw [List.take_nil]; exact nofun), fun _ _ => rfl⟩
  | m :: ms, i, h, hh => by
    rw [hearMsg, hh, List.length_cons]
    by_cases hlen : len ≤ i * 16
    · rw [if_pos (.inr hlen), show (len + 15) / 16 - i = 0 by omega, List.take_zero]
      exact ⟨iff_of_true hh nofun, fun _ hle => by omega⟩
    rw [if_neg (by simp only [List.length_nil]; omega)]
    obtain ⟨k, hk⟩ : ∃ k, (len + 15) / 16 - i = k + 1 := ⟨(len + 15) / 16 - (i + 1), by omega⟩
    rw [hk, List.take_succ_cons]
    have hk' : k = (len + 15) / 16 - (i + 1) := by omega
    rcases hear_told c startTime endTime h m with ⟨hkept, e, he⟩ | ⟨hkept, he⟩
    · have hne : (hearMsg c startTime endTime 0 len (i + 1) ms (h.hear c startTime endTime m)).2.told ≠ [] := by
        intro hnil
        have hpre := hearMsg_told c startTime endTime (n := 0) len ms (i + 1) (h.hear c startTime endTime m)
        rw [hnil, he, hh] at hpre
        cases List.prefix_nil.mp hpre
      exact ⟨iff_of_false hne fun hall => hall m (List.mem_cons_self ..) hkept, fun hnil => absurd hnil hne⟩
    · obtain ⟨htold, hend⟩ := hearMsg_silent len ms (i + 1) (he.trans hh)
      rw [htold, ← hk']
      refine ⟨⟨fun hall x hx => ?_, fun hall x hx => hall x (List.mem_cons_of_mem _ hx)⟩, fun hall hle => ?_⟩
      · rcases List.mem_cons.mp hx with rfl | hx
        · exact hkept
        · exact hall x hx
      · rw [hend (htold.mpr (hk' ▸ hall)) (by omega)]
        omega

theorem hear_silent : ∀ (msgs : List LogD2c) {h : Heard}, h.told = [] →
    ((hear c startTime endTime 0 msgs h).2.told = [] ↔ Silent c startTime endTime msgs)
  | [], h, hh => iff_of_true hh trivial
  | msg :: msgs, h, hh => by
    obtain ⟨htold, hend⟩ := hearMsg_silent c startTime endTime msg.len (List.ofFn msg.log) 0 hh
    rw [Nat.sub_zero] at htold
    rw [List.length_ofFn, Nat.zero_add] at hend
    unfold hear Silent
    dsimp only
    by_cases hkept : ∀ m ∈ msg.entries, ¬ m.Kept c startTime endTime
    · have hnil := htold.mpr hkept
      rw [and_iff_right hkept]
      by_cases hlen : 976 ≤ msg.len
      · rw [if_neg (not_not.mpr (hend hnil hlen)), if_neg (Nat.not_lt.mpr hlen), imp_iff_right hlen]
        exact hear_silent msgs hnil
      · refine iff_of_true ?_ fun h => absurd h hlen
        split
        · exact hnil
        · rw [if_pos (Nat.not_le.mp hlen)]
          exact hnil
    · refine iff_of_false (fun hnil => hkept (htold.mp ?_)) fun h => hkept h.1
      split at hnil
      · exact hnil
      · split at hnil
        · exact hnil
        · exact List.prefix_nil.mp (hnil ▸ hear_told_more c startTime endTime msgs _)

theorem heard_nothing_iff (sent : Bool) (msgs : List LogD2c) :
    (heardFrom c startTime endTime 0 sent msgs).2.told = [] ↔ (sent = true → Silent c startTime endTime msgs) := by
  cases sent with
  | false => exact iff_of_true rfl nofun
  | true => exact (hear_silent c startTime endTime msgs rfl).trans (imp_iff_right rfl).symm

theorem heard_room {n : ℕ} (hn : n ≤ 1024) (sent : Bool) (msgs : List LogD2c) :
    n + (heardFrom c startTime endTime n sent msgs).2.told.length ≤ 1024 := by
  cases sent with
  | false => exact hn
  | true =>
    have hroom := hear_room c startTime endTime msgs (h := ⟨[], none⟩) (Nat.le_max_left n 1024)
    rw [Nat.max_eq_right hn] at hroom
    exact hroom

end

section
variable {c : Calendar} {sent : Bool} {msgs : List LogD2c} {dev : LogsDev} {t t' : Logs}

theorem answerTo_shows (c : Calendar) (sent : Bool) (msgs : List LogD2c) (hreq : dev.lastLogsReq ≠ dev.curLogsReq) (t : Logs) :
    (answerTo c sent msgs dev t).1 = (heardFrom c t.startTime t.endTime t.num sent msgs).1 ∧
      (answerTo c sent msgs dev t).2.resultLogs = (heardFrom c t.startTime t.endTime t.num sent msgs).1 ∧
      Shows t (heardFrom c t.startTime t.endTime t.num sent msgs).2 (answerTo c sent msgs dev t).2.cfgLogs :=
  @doLogs_shows c sent msgs { dev with cfgLogs := t } hreq

/-- The first entry has the address that the table had there. -/
theorem Shows.ip {h : Heard} {l : Logs} (hs : Shows t h l) (h0 : 0 < l.num) : (l.log 0).ip = (t.log 0).ip := by
  by_cases ht : 0 < t.num
  · rw [hs.before 0 ht]
  · have hnum := hs.num
    obtain ⟨e, he⟩ : ∃ e, h.told[0]? = some e := ⟨_, List.getElem?_eq_getElem (by omega)⟩
    have hlog := hs.told 0 e he
    rw [show t.num + 0 = 0 by omega] at hlog
    rw [hlog]
    rfl

theorem allSet_iff (hreq : dev.lastLogsReq ≠ dev.curLogsReq) :
    AllSet c sent msgs dev t ↔ (answerTo c sent msgs dev t).2.cfgLogs.num = 0 := by
  constructor
  · intro h
    by_contra hne
    have h0 := Nat.pos_of_ne_zero hne
    -- a table with another address in its first place
    let other : Log := { t.log 0 with ip := ((t.log 0).ip.1 + 1, (t.log 0).ip.2) }
    have hshows := (answerTo_shows c sent msgs hreq t).2.2
    have hshows' := (answerTo_shows c sent msgs hreq { t with log := fun _ => other }).2.2
    have h0' : 0 < (answerTo c sent msgs dev { t with log := fun _ => other }).2.cfgLogs.num := by
      rw [hshows'.num]
      rw [hshows.num] at h0
      exact h0
    have hip := congrArg Log.ip (h 0 h0 fun _ => other)
    rw [hshows.ip h0, hshows'.ip h0'] at hip
    have hbyte : (t.log 0).ip.1 + 1 = (t.log 0).ip.1 := congrArg Prod.fst hip
    exact absurd (congrArg UInt8.toBitVec hbyte) (by simp)
  · intro h i hi
    omega

/-- Of two tables with the same number the answers are the same if the entries are, and what is not set. -/
theorem sameAnswer_iff (hreq : dev.lastLogsReq ≠ dev.curLogsReq) (hstart : t.startTime = t'.startTime)
    (hend : t.endTime = t'.endTime) (hnum : t.num = t'.num) :
    SameAnswer c sent msgs dev t t' ↔ t.num ≤ 1024 ∧ (∀ i < t.num, t.log i = t'.log i) ∧
      ∀ (j : ℕ) (e : Told), (heardFrom c t.startTime t.endTime t.num sent msgs).2.told[j]? = some e →
        e.Agree (t.log (t.num + j)) (t'.log (t.num + j)) := by
  obtain ⟨hret, hresult, hshows⟩ := answerTo_shows c sent msgs hreq t
  obtain ⟨hret', hresult', hshows'⟩ := answerTo_shows c sent msgs hreq t'
  rw [← hstart, ← hend, ← hnum] at hret' hresult' hshows'
  have htold' (j : ℕ) (e : Told) (he : (heardFrom c t.startTime t.endTime t.num sent msgs).2.told[j]? = some e) :
      (answerTo c sent msgs dev t').2.cfgLogs.log (t.num + j) = e.over (t'.log (t.num + j)) :=
    hnum ▸ hshows'.told j e he
  constructor
  · intro h
    have hall := h.entries
    rw [hshows.num] at hall
    refine ⟨Nat.le_trans (hshows.num ▸ Nat.le_add_right ..) h.bound, fun i hi => ?_, fun j e he => ?_⟩
    · have hi' := hall i (Nat.lt_add_right _ hi)
      rwa [hshows.before i hi, hshows'.before i (hnum ▸ hi)] at hi'
    · have hj := hall (t.num + j) (Nat.add_lt_add_left (List.getElem?_eq_some_iff.mp he).1 _)
      rw [hshows.told j e he, htold' j e he] at hj
      exact (e.over_eq_iff _ _).mp hj
  · rintro ⟨hle, hbefore, hagree⟩
    refine ⟨hret.trans hret'.symm, hresult.trans hresult'.symm, ?_, fun i hi => ?_, ?_⟩
    · rw [hshows.num, hshows'.num, hnum]
    · rcases Nat.lt_or_ge i t.num with hlt | hge
      · rw [hshows.before i hlt, hshows'.before i (hnum ▸ hlt)]
        exact hbefore i hlt
      · obtain ⟨j, rfl⟩ := Nat.exists_eq_add_of_le hge
        rw [hshows.num] at hi
        have he := List.getElem?_eq_getElem (Nat.lt_of_add_lt_add_left hi)
        rw [hshows.told j _ he, htold' j _ he]
        exact (Told.over_eq_iff _ _ _).mpr (hagree j _ he)
    · rw [hshows.num]
      exact heard_room c t.startTime t.endTime hle sent msgs

/-- **Logs.** The answer is the device's alone if and only if both tables come with `num` 0 and no message has an entry to
be kept. Of two tables with the same `num` the answers are the same if and only if the table is not overrun, its entries
are the same, and so is, in the places of the entries told, what the entry does not set. -/
theorem doLogs_alone_iff (hreq : dev.lastLogsReq ≠ dev.curLogsReq) (hstart : t.startTime = t'.startTime)
    (hend : t.endTime = t'.endTime) :
    (SameAnswer c sent msgs dev t t' ∧ AllSet c sent msgs dev t ∧ AllSet c sent msgs dev t' ↔
      t.num = 0 ∧ t'.num = 0 ∧ (sent = true → Silent c t.startTime t.endTime msgs)) ∧
    (t.num = t'.num → (SameAnswer c sent msgs dev t t' ↔ t.num ≤ 1024 ∧ (∀ i < t.num, t.log i = t'.log i) ∧
      ∀ (j : ℕ) (e : Told), (heardFrom c t.startTime t.endTime t.num sent msgs).2.told[j]? = some e →
        e.Agree (t.log (t.num + j)) (t'.log (t.num + j)))) := by
  refine ⟨?_, sameAnswer_iff hreq hstart hend⟩
  have hnum := (answerTo_shows c sent msgs hreq t).2.2.num
  have hnum' := (answerTo_shows c sent msgs hreq t').2.2.num
  rw [← hstart, ← hend] at hnum'
  have hnothing := heard_nothing_iff c t.startTime t.endTime sent msgs
  rw [allSet_iff hreq, allSet_iff hreq, hnum, hnum', Nat.add_eq_zero_iff, Nat.add_eq_zero_iff, List.length_eq_zero_iff,
    List.length_eq_zero_iff]
  constructor
  · rintro ⟨-, ⟨h0, htold⟩, h0', -⟩
    rw [h0] at htold
    exact ⟨h0, h0', hnothing.mp htold⟩
  · rintro ⟨h0, h0', hsilent⟩
    have htold := hnothing.mpr hsilent
    have hsame : SameAnswer c sent msgs dev t t' := by
      refine (sameAnswer_iff hreq hstart hend (h0.trans h0'.symm)).mpr ⟨by omega, fun i hi => by omega, fun j e he => ?_⟩
      rw [h0, htold] at he
      cases he
    exact ⟨hsame, ⟨h0, by rw [h0]; exact htold⟩, h0', by rw [h0']; exact htold⟩

end

def waitingDev : LogsDev := ⟨0, 1, ⟨0, 0, 0, fun _ => ⟨0, 0, 0, 0, 0, 0, (0, 0), (0, 0, 0, 0)⟩⟩, 0⟩

/-- A table for the year 2000 with `num` entries, all with one address. -/
def tableOf (num : ℕ) (ip : UInt8) : Logs :=
  ⟨946684800, 978307200, num, fun _ => ⟨0, 0, 0, 0, 0, 0, (0, 0), (ip, 0, 0, 0)⟩⟩

/-- A message with one entry: a reboot at 0:05. -/
def rebootMsg : LogD2c := ⟨16, fun _ => ⟨⟨0, 1, 1, 0, 5, 0⟩, 0, 0, fun _ => 0⟩⟩

theorem doLogs_alone_empty : SameAnswer RecordsWorld.firstDay true [⟨0, rebootMsg.log⟩] waitingDev (tableOf 0 1) (tableOf 0 2) :=
  ((@doLogs_alone_iff RecordsWorld.firstDay true [⟨0, rebootMsg.log⟩] waitingDev (tableOf 0 1) (tableOf 0 2) (by decide)
    rfl rfl).1.mpr ⟨rfl, rfl, fun _ => ⟨nofun, nofun⟩⟩).1

/-- The number, and the address. -/
theorem doLogs_stale : ¬ SameAnswer RecordsWorld.firstDay true [rebootMsg] waitingDev (tableOf 0 1) (tableOf 5 1) ∧
    ¬ SameAnswer RecordsWorld.firstDay true [rebootMsg] waitingDev (tableOf 0 1) (tableOf 0 2) ∧
    ¬ SameAnswer RecordsWorld.firstDay true [rebootMsg] waitingDev (tableOf 1025 1) (tableOf 1025 1) := by
  refine ⟨fun h => ?_, fun h => ?_, fun h => ?_⟩
  · exact absurd h.num (by decide)
  · exact absurd (congrArg (fun e => e.ip.1) (h.entries 0 (by decide))) (by decide)
  · exact absurd h.bound (by decide)

end Hy

end SabApp
