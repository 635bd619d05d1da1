import Mathlib.Algebra.GroupWithZero.Nat
import Mathlib.Data.List.OfFn
import SabApp.Mailbox
import SabApp.Nc
import SabApp.Runs

/-!
# Searching a HY device's recordings

`nc_hy_dev_searchRecords` puts its query into the device slot and waits up to five seconds;
`nc_hy_dev_doRecords` copies the query, asks the device batch by batch, writes the records
found over the query and wakes whoever waits. The answer is noted under the number then in
the slot, so a query that arrives while an older one is being answered gets that answer.
-/

namespace SabApp

namespace Hy

structure Date where
  year : ℕ
  month : ℕ
  day : ℕ
  hour : ℕ
  minute : ℕ
  second : ℕ
  deriving DecidableEq

/-- `hy_time_t`, with the year since 2000. -/
abbrev HyTime := Date

structure Query where
  startTime : UInt32
  endTime : UInt32
  channel : UInt64
  type : UInt8
  subType : UInt8
  deriving DecidableEq

/-- `hy_msg_record_t`, 24 bytes on the wire. -/
structure MsgRecord where
  channelNo : UInt8
  startTime : HyTime
  endTime : HyTime
  size : UInt32
  startPos : UInt32
  deriving DecidableEq

structure Record where
  startTime : UInt32
  endTime : UInt32
  size : UInt32
  channel : UInt8
  type : UInt8
  subType : UInt8
  fileInfo : MsgRecord
  deriving DecidableEq

/-- `ptc_cfg_records_t`: the query and the `num` records found for it. -/
structure Records where
  query : Query
  record : List Record
  deriving DecidableEq

/-- `hy_msg_record_c2d_t`. -/
structure RecordC2d where
  channelNo : ℕ
  date : Date
  type : UInt8
  deriving DecidableEq

/-- The numerals of `Fin 16` in this message share it. -/
scoped instance instNeZeroSixteen : NeZero 16 := ⟨by decide⟩

/-- `hy_msg_record_d2c_t`. -/
structure RecordD2c where
  len : ℕ
  record : Fin 16 → MsgRecord

/-- The C library's calendar in the phone's time zone. -/
structure Calendar where
  dateLocal : UInt32 → Date
  date2Time : HyTime → UInt32

/-- The device's record type for a query's, none for a kind it does not know. -/
def Query.deviceType (q : Query) : Option UInt8 :=
  if q.type = 0x01 ∨ q.type = 0xFF then some 0
  else if q.type = 0x02 ∧ q.subType = 0x02 then some 1
  else if q.type = 0x02 ∧ q.subType = 0x01 then some 2
  else none

/-- The first channel of the mask. -/
def Query.channelNo (q : Query) : Option ℕ :=
  (List.range 16).find? fun i => q.channel &&& (1 <<< UInt64.ofNat i) ≠ 0

def Query.Misses (q : Query) (r : Record) : Prop := r.endTime ≤ q.startTime ∨ r.startTime ≥ q.endTime

instance (q : Query) (r : Record) : Decidable (q.Misses r) := inferInstanceAs (Decidable (_ ∨ _))

def MsgRecord.toRecord (c : Calendar) (q : Query) (m : MsgRecord) : Record where
  startTime := c.date2Time m.startTime
  endTime := c.date2Time m.endTime
  size := m.size * 1024
  channel := m.channelNo
  type := q.type
  subType := q.subType
  fileInfo := m

/-- The loop over a batch: where it stops and the records held then, `PTC_RECORDS_SIZE` at most. -/
def scan (c : Calendar) (q : Query) (len : ℕ) : ℕ → List MsgRecord → List Record → ℕ × List Record
  | i, [], got => (i, got)
  | i, m :: ms, got =>
    if 1024 ≤ got.length ∨ len ≤ i * 24 then (i, got)
    else scan c q len (i + 1) ms (if q.Misses (m.toRecord c q) then got else got ++ [m.toRecord c q])

/-- The running search: the query copied, the records found, the next request, those sent. -/
structure Search where
  query : Query
  got : List Record
  next : RecordC2d
  asked : List RecordC2d

def Search.ask (s : Search) : Search := { s with asked := s.asked ++ [s.next] }

inductive RecordsPc where
  | idle
  | send (s : Search)
  | recv (s : Search)
  | finish (s : Search) (result ret : Int32)

def RecordsPc.search : RecordsPc → Option Search
  | idle => none
  | send s | recv s | finish s _ _ => some s

/-- The search that another request is sent for. -/
def RecordsPc.asking : RecordsPc → Option Search
  | send s | recv s => some s
  | idle | finish _ _ _ => none

inductive Caller where
  | idle
  /-- Call number `n` waits on `cond_records`; `woken` once that has been broadcast. -/
  | waiting (n : ℕ) (q : Query) (woken : Bool)

/-- What a call returned, with the call that its records were found for and the requests sent for it. -/
structure Return where
  call : ℕ
  query : Query
  ret : Int32
  records : Records
  origin : Option ℕ
  asked : List RecordC2d

structure RecordsDev where
  pc : RecordsPc
  live : Bool
  records : Mailbox Records
  result : Int32

/-- The device slot and its caller, with their history. `origin` and `asked` belong to what
`cfg_records` holds: the call it answers and the requests sent for that, none while it holds a query. -/
structure RecordsWorld where
  dev : RecordsDev
  caller : Caller
  calls : List Records
  copied : ℕ
  answered : ℕ
  origin : Option ℕ
  asked : List RecordC2d
  returns : List Return

inductive RecordsAct where
  | searchRecords (rs : Records)
  | timeout
  | wake
  /-- `pthread_cond_timedwait` returns without a broadcast. -/
  | wakeEarly
  | login
  | logout
  | doRecords
  | sendMsg (ok : Bool)
  | recvMsg (msg : Option RecordD2c)
  | finish

namespace RecordsWorld
variable (c : Calendar)

def init : RecordsWorld :=
  ⟨⟨.idle, false, Mailbox.init ⟨⟨0, 0, 0, 0, 0⟩, []⟩, 0⟩, .idle, [], 0, 0, none, [], []⟩

/-- `nc_hy_dev_searchRecords` up to the wait. -/
def searchRecords (w : RecordsWorld) (rs : Records) : RecordsWorld :=
  { w with dev.records := w.dev.records.post rs, calls := w.calls ++ [rs], origin := none, asked := [],
           caller := .waiting (w.calls.length + 1) rs.query false }

/-- `nc_hy_dev_searchRecords` after a wait that did not time out. -/
def answer (w : RecordsWorld) (n : ℕ) (q : Query) : RecordsWorld :=
  { w with caller := .idle,
           returns := w.returns ++ [⟨n, q, w.dev.result, w.dev.records.cfg, w.origin, w.asked⟩] }

/-- `nc_hy_dev_searchRecords` after a wait that timed out. -/
def giveUp (w : RecordsWorld) (n : ℕ) (rs : Query) : RecordsWorld :=
  { w with caller := .idle, returns := w.returns ++ [⟨n, rs, Nc.errTimeout, ⟨rs, []⟩, none, []⟩] }

/-- `nc_hy_dev_login` and `nc_hy_dev_logout`. -/
def setLive (w : RecordsWorld) (b : Bool) : RecordsWorld := { w with dev.live := b }

/-- What `nc_hy_dev_doRecords` does with a query before it talks to the device. -/
def startSearch (q : Query) : RecordsPc :=
  match q.deviceType, q.channelNo with
  | none, _ => .finish ⟨q, [], ⟨0, ⟨0, 0, 0, 0, 0, 0⟩, 0⟩, []⟩ 0 0
  | some _, none => .finish ⟨q, [], ⟨0, ⟨0, 0, 0, 0, 0, 0⟩, 0⟩, []⟩ Nc.errInput 0
  | some t, some ch => .send ⟨q, [], ⟨ch + 1, c.dateLocal q.startTime, t⟩, []⟩

/-- `nc_hy_dev_doRecords` up to the first send. -/
def doRecords (w : RecordsWorld) : RecordsWorld :=
  if w.dev.records.last = w.dev.records.cur then w
  else { w with dev.pc := startSearch c w.dev.records.cfg.query, copied := w.calls.length }

/-- A batch: on to the next one when this one was full. -/
def batch (s : Search) (msg : RecordD2c) : RecordsPc :=
  let (i, got) := scan c s.query msg.len 0 (List.ofFn msg.record) s.got
  let e := (msg.record 15).endTime
  if i = 16 then .send { s with got := got, next := { s.next with date := { e with year := e.year + 2000 } } }
  else .finish { s with got := got } 0 0

/-- The end of `nc_hy_dev_doRecords`, under the lock. -/
def store (w : RecordsWorld) (s : Search) (result ret : Int32) : RecordsWorld :=
  { w with
    dev.pc := .idle
    dev.live := if ret < 0 then false else w.dev.live
    dev.records := w.dev.records.ack.put ⟨s.query, s.got⟩
    dev.result := result
    caller := match w.caller with
      | .waiting n q _ => .waiting n q true
      | .idle => .idle
    answered := w.calls.length
    origin := some w.copied
    asked := s.asked }

def step (w : RecordsWorld) : RecordsAct → Option RecordsWorld
  | .searchRecords rs => match w.caller with
    | .idle => some (w.searchRecords rs)
    | _ => none
  | .timeout => match w.caller with
    | .waiting n q false => some (w.giveUp n q)
    | _ => none
  | .wake => match w.caller with
    | .waiting n q true => some (w.answer n q)
    | _ => none
  | .wakeEarly => match w.caller with
    | .waiting n q false => some (w.answer n q)
    | _ => none
  | .login => some (w.setLive true)
  | .logout => match w.dev.pc with
    | .idle => some (w.setLive false)
    | _ => none
  | .doRecords => match w.dev.pc, w.dev.live with
    | .idle, true => some (w.doRecords c)
    | _, _ => none
  | .sendMsg ok => match w.dev.pc with
    | .send s => some { w with dev.pc := if ok then .recv s.ask else .finish s Nc.errSend Nc.errSend }
    | _ => none
  | .recvMsg msg => match w.dev.pc, msg with
    | .recv s, some msg => some { w with dev.pc := batch c s msg }
    | .recv s, none => some { w with dev.pc := .finish s Nc.errRecv Nc.errRecv }
    | _, _ => none
  | .finish => match w.dev.pc with
    | .finish s result ret => some (w.store s result ret)
    | _ => none

/-- The records were asked for and picked by the query. -/
structure FoundFor (q : Query) (rs : Records) (asked : List RecordC2d) : Prop where
  query : rs.query = q
  window : ∀ r ∈ rs.record, ¬ q.Misses r ∧ r.type = q.type ∧ r.subType = q.subType
  asked : ∀ m ∈ asked, q.deviceType = some m.type ∧ ∃ ch, q.channelNo = some ch ∧ m.channelNo = ch + 1

/-- Every call that returned 0 has the answer to its own query. -/
def OwnAnswers (w : RecordsWorld) : Prop :=
  ∀ r ∈ w.returns, r.ret = 0 → r.origin = some r.call ∧ FoundFor r.query r.records r.asked

/-- No wait ends early on an old result 0, and no search ends with 0 while a call waits that was
made since its copy; fewer than 2^32 calls are open. -/
def Ok (w : RecordsWorld) : RecordsAct → Prop
  | .searchRecords _ => w.calls.length + 1 < w.answered + 4294967296
  | .wakeEarly => w.dev.result ≠ 0
  | .finish => match w.dev.pc with
    | .finish _ result _ => result = 0 → ∀ n q b, w.caller = .waiting n q b → n = w.copied
    | _ => True
  | _ => True

end RecordsWorld

/-! ## A search stays with its query -/

/-- A request made from the query. -/
def AskedFor (q : Query) (m : RecordC2d) : Prop :=
  q.deviceType = some m.type ∧ ∃ ch, q.channelNo = some ch ∧ m.channelNo = ch + 1

def PickedFor (q : Query) (r : Record) : Prop := ¬ q.Misses r ∧ r.type = q.type ∧ r.subType = q.subType

theorem scan_picked (c : Calendar) (q : Query) (len : ℕ) : ∀ (ms : List MsgRecord) (i : ℕ) (got : List Record),
    (∀ r ∈ got, PickedFor q r) → ∀ r ∈ (scan c q len i ms got).2, PickedFor q r
  | [], _, _, h => h
  | m :: ms, i, got, h => by
    rw [scan]
    split
    · exact h
    · apply scan_picked c q len ms (i + 1)
      split
      · exact h
      · next hm =>
        intro r hr
        rcases List.mem_append.mp hr with hr | hr
        · exact h r hr
        · rw [List.mem_singleton.mp hr]
          exact ⟨hm, rfl, rfl⟩

structure Search.Ok (s : Search) : Prop where
  got : ∀ r ∈ s.got, PickedFor s.query r
  asked : ∀ m ∈ s.asked, AskedFor s.query m

namespace Search

theorem Ok.found {s : Search} (h : s.Ok) : RecordsWorld.FoundFor s.query ⟨s.query, s.got⟩ s.asked :=
  ⟨rfl, h.got, h.asked⟩

theorem Ok.ask {s : Search} (h : s.Ok) (hn : AskedFor s.query s.next) : s.ask.Ok where
  got := h.got
  asked m hm := by
    rcases List.mem_append.mp hm with hm | hm
    · exact h.asked m hm
    · rw [List.mem_singleton.mp hm]; exact hn

end Search

namespace RecordsWorld
variable {c : Calendar}

/-- What the device thread holds comes from the query `q`. -/
structure PcFor (q : Query) (pc : RecordsPc) : Prop where
  query : ∀ s, pc.search = some s → s.query = q ∧ s.Ok
  next : ∀ s, pc.asking = some s → AskedFor s.query s.next

theorem pcFor_startSearch (q : Query) : PcFor q (startSearch c q) := by
  unfold startSearch
  cases ht : q.deviceType with
  | none => exact ⟨fun s hs => by cases hs; exact ⟨rfl, nofun, nofun⟩, nofun⟩
  | some t =>
    cases hc : q.channelNo with
    | none => exact ⟨fun s hs => by cases hs; exact ⟨rfl, nofun, nofun⟩, nofun⟩
    | some ch =>
      refine ⟨?_, ?_⟩
      · intro s hs
        cases hs
        exact ⟨rfl, nofun, nofun⟩
      · intro s hs
        cases hs
        exact ⟨ht, ch, hc, rfl⟩

theorem pcFor_batch {q : Query} {s : Search} (h : PcFor q (.recv s)) (msg : RecordD2c) : PcFor q (batch c s msg) := by
  obtain ⟨hq, ho⟩ := h.query s rfl
  have hn := h.next s rfl
  have hg := scan_picked c s.query msg.len (List.ofFn msg.record) 0 s.got ho.got
  unfold batch
  dsimp only
  split
  · refine ⟨?_, ?_⟩
    · intro s' hs'
      cases hs'
      exact ⟨hq, hg, ho.asked⟩
    · intro s' hs'
      cases hs'
      exact hn
  · refine ⟨?_, nofun⟩
    intro s' hs'
    cases hs'
    exact ⟨hq, hg, ho.asked⟩

theorem pcFor_finish {q : Query} {s : Search} (hq : s.query = q) (ho : s.Ok) (result ret : Int32) :
    PcFor q (.finish s result ret) := by
  refine ⟨?_, nofun⟩
  intro s' hs'
  cases hs'
  exact ⟨hq, ho⟩

theorem pcFor_ask {q : Query} {s : Search} (h : PcFor q (.send s)) : PcFor q (.recv s.ask) := by
  obtain ⟨hq, ho⟩ := h.query s rfl
  have hn := h.next s rfl
  refine ⟨?_, ?_⟩
  · intro s' hs'
    cases hs'
    exact ⟨hq, ho.ask hn⟩
  · intro s' hs'
    cases hs'
    exact hn

/-! ## What every step keeps -/

/-- The device thread works on the query of the first `copied` calls' latest, which is open. -/
def Copied (w : RecordsWorld) : Prop :=
  w.answered < w.copied ∧ w.copied ≤ w.calls.length ∧
    ∃ rs, upTo w.calls w.copied = some rs ∧ PcFor rs.query w.dev.pc

/-- The waiting call is the latest one. -/
def Latest (w : RecordsWorld) (n : ℕ) (q : Query) : Prop :=
  n = w.calls.length ∧ ∃ rs, w.calls.getLast? = some rs ∧ rs.query = q

/-- What a woken call is going to return. -/
def Answered (w : RecordsWorld) (n : ℕ) (q : Query) : Prop :=
  w.answered = w.calls.length ∧ (w.dev.result = 0 → w.origin = some n ∧ FoundFor q w.dev.records.cfg w.asked)

structure Inv (w : RecordsWorld) : Prop where
  tracks : w.dev.records.Tracks w.calls w.answered
  lt : w.calls.length < w.answered + 4294967296
  copied : w.dev.pc.search.isSome → w.Copied
  latest : ∀ n q b, w.caller = .waiting n q b → w.Latest n q
  woken : ∀ n q, w.caller = .waiting n q true → w.Answered n q
  returns : w.OwnAnswers

theorem inv_init : Inv init := ⟨Mailbox.Tracks.start _, by decide, nofun, nofun, nofun, nofun⟩

theorem inv_searchRecords {w : RecordsWorld} (h : Inv w) {rs : Records}
    (hlt : w.calls.length + 1 < w.answered + 4294967296) : Inv (w.searchRecords rs) where
  tracks := h.tracks.post rs
  lt := by rw [searchRecords, List.length_append]; exact hlt
  copied hp := by
    obtain ⟨ha, hle, qs, hu, hq⟩ := h.copied hp
    refine ⟨ha, ?_, qs, (upTo_append hle rs).trans hu, hq⟩
    exact Nat.le_trans hle (by simp [searchRecords])
  latest n q b hc := by
    cases hc
    refine ⟨?_, rs, getLast?_snoc w.calls rs, rfl⟩
    simp [searchRecords]
  woken n q hc := by simp [searchRecords] at hc
  returns := h.returns

/-- A call returns `r`; nothing else changes. -/
theorem inv_return {w : RecordsWorld} (h : Inv w) {r : Return}
    (hr : r.ret = 0 → r.origin = some r.call ∧ FoundFor r.query r.records r.asked) :
    Inv { w with caller := .idle, returns := w.returns ++ [r] } where
  tracks := h.tracks
  lt := h.lt
  copied := h.copied
  latest := nofun
  woken := nofun
  returns r' hr' := by
    rcases List.mem_append.mp hr' with hm | hm
    · exact h.returns r' hm
    · rw [List.mem_singleton.mp hm]; exact hr

theorem inv_wake {w : RecordsWorld} (h : Inv w) {n : ℕ} {q : Query} (hc : w.caller = .waiting n q true) :
    Inv (w.answer n q) := by
  apply inv_return h
  exact (h.woken n q hc).2

theorem inv_giveUp {w : RecordsWorld} (h : Inv w) (n : ℕ) (q : Query) : Inv (w.giveUp n q) := by
  apply inv_return h
  intro h0
  exact absurd h0 (by decide : Nc.errTimeout ≠ 0)

theorem inv_wakeEarly {w : RecordsWorld} (h : Inv w) (n : ℕ) (q : Query) (hr : w.dev.result ≠ 0) :
    Inv (w.answer n q) := by
  apply inv_return h
  intro h0
  exact absurd h0 hr

theorem inv_setLive {w : RecordsWorld} (h : Inv w) (b : Bool) : Inv (w.setLive b) :=
  ⟨h.tracks, h.lt, h.copied, h.latest, h.woken, h.returns⟩

/-- The device thread goes on with the same query. -/
theorem inv_pc {w : RecordsWorld} (h : Inv w) (hp : w.dev.pc.search.isSome) {pc : RecordsPc}
    (hpc : ∀ q, PcFor q w.dev.pc → PcFor q pc) : Inv { w with dev.pc := pc } where
  tracks := h.tracks
  lt := h.lt
  copied _ := by
    obtain ⟨ha, hle, rs, hu, hq⟩ := h.copied hp
    exact ⟨ha, hle, rs, hu, hpc _ hq⟩
  latest := h.latest
  woken := h.woken
  returns := h.returns

theorem inv_doRecords {w : RecordsWorld} (h : Inv w) : Inv (w.doRecords c) := by
  unfold doRecords
  by_cases he : w.dev.records.last = w.dev.records.cur
  · rw [if_pos he]; exact h
  · rw [if_neg he]
    refine ⟨h.tracks, h.lt, ?_, h.latest, h.woken, h.returns⟩
    intro _
    refine ⟨h.tracks.lt_of_ne he, Nat.le_refl _, w.dev.records.cfg, ?_, pcFor_startSearch _⟩
    exact (upTo_length w.calls).trans (h.tracks.cfg_of_ne he)

theorem waiting_of_store {w : RecordsWorld} {s : Search} {result ret : Int32} {n : ℕ} {q : Query} {b : Bool}
    (hc : (w.store s result ret).caller = .waiting n q b) : ∃ b', w.caller = .waiting n q b' := by
  cases hw : w.caller with
  | idle => simp [store, hw] at hc
  | waiting n' q' b' =>
    simp only [store, hw] at hc
    cases hc
    exact ⟨b', rfl⟩

theorem inv_store {w : RecordsWorld} (h : Inv w) {s : Search} {result ret : Int32}
    (hp : w.dev.pc = .finish s result ret)
    (hok : result = 0 → ∀ n q b, w.caller = .waiting n q b → n = w.copied) : Inv (w.store s result ret) where
  tracks := h.tracks.ack_put _
  lt := Nat.lt_add_of_pos_right (by decide)
  copied := nofun
  latest n q b hc := by
    obtain ⟨b', hw⟩ := waiting_of_store hc
    exact h.latest n q b' hw
  woken n q hc := by
    refine ⟨rfl, ?_⟩
    intro h0
    obtain ⟨b', hw⟩ := waiting_of_store hc
    obtain ⟨hn, rs, hl, rfl⟩ := h.latest n q b' hw
    have hcopied := hok h0 n rs.query b' hw
    refine ⟨congrArg some hcopied.symm, ?_⟩
    -- the call copied is the latest one, so the search is for its query
    obtain ⟨_, _, rs', hu, hq⟩ := h.copied (by rw [hp]; rfl)
    rw [← hcopied, hn, upTo_length, hl] at hu
    cases hu
    obtain ⟨hsq, ho⟩ := hq.query s (by rw [hp]; rfl)
    rw [← hsq]
    exact ho.found
  returns := h.returns

theorem inv_step {w t : RecordsWorld} {a : RecordsAct} (h : Inv w) (hok : w.Ok a) (hs : step c w a = some t) :
    Inv t := by
  cases a with
  | searchRecords rs => cases hc : w.caller <;> simp only [step, hc] at hs <;> cases hs; exact inv_searchRecords h hok
  | timeout =>
    cases hc : w.caller with
    | idle => simp [step, hc] at hs
    | waiting n q b => cases b <;> simp only [step, hc] at hs <;> cases hs; exact inv_giveUp h n q
  | wake =>
    cases hc : w.caller with
    | idle => simp [step, hc] at hs
    | waiting n q b => cases b <;> simp only [step, hc] at hs <;> cases hs; exact inv_wake h hc
  | wakeEarly =>
    cases hc : w.caller with
    | idle => simp [step, hc] at hs
    | waiting n q b => cases b <;> simp only [step, hc] at hs <;> cases hs; exact inv_wakeEarly h n q hok
  | login => cases hs; exact inv_setLive h true
  | logout => cases hp : w.dev.pc <;> simp only [step, hp] at hs <;> cases hs; exact inv_setLive h false
  | doRecords =>
    cases hp : w.dev.pc <;> cases hl : w.dev.live <;> simp only [step, hp, hl] at hs <;> cases hs
    exact inv_doRecords h
  | sendMsg ok =>
    cases hp : w.dev.pc with
    | send s =>
      have hsome : w.dev.pc.search.isSome := by rw [hp]; rfl
      cases ok <;> simp only [step, hp] at hs <;> cases hs
      · apply inv_pc h hsome
        intro q hq
        rw [hp] at hq
        exact pcFor_finish (hq.query s rfl).1 (hq.query s rfl).2 _ _
      · apply inv_pc h hsome
        intro q hq
        rw [hp] at hq
        exact pcFor_ask hq
    | idle | recv s | finish s r r' => simp [step, hp] at hs
  | recvMsg msg =>
    cases hp : w.dev.pc with
    | recv s =>
      have hsome : w.dev.pc.search.isSome := by rw [hp]; rfl
      cases msg with
      | none =>
        simp only [step, hp] at hs
        cases hs
        apply inv_pc h hsome
        intro q hq
        rw [hp] at hq
        exact pcFor_finish (hq.query s rfl).1 (hq.query s rfl).2 _ _
      | some msg =>
        simp only [step, hp] at hs
        cases hs
        apply inv_pc h hsome
        intro q hq
        rw [hp] at hq
        exact pcFor_batch hq msg
    | idle | send s | finish s r r' => simp [step, hp] at hs
  | finish =>
    cases hp : w.dev.pc with
    | finish s r r' =>
      simp only [step, hp] at hs
      cases hs
      simp only [Ok, hp] at hok
      exact inv_store h hp hok
    | idle | send s | recv s => simp [step, hp] at hs

/-- **A search answers its own query** in every run where no wait ends without a broadcast on an
earlier result 0 and no search that succeeds ends while a call made since its copy waits. -/
theorem searchRecords_own (c : Calendar) (as : List RecordsAct) (h : Meets (step c) Ok init as) :
    Reached (step c) OwnAnswers init as := by
  apply reached_of_meets (I := Inv)
  · intro w a t hi hok hs
    exact inv_step hi hok hs
  · intro w hi
    exact hi.returns
  · exact inv_init
  · exact h

/-- The calendar on the first day of 2000, in UTC. -/
def firstDay : Calendar where
  dateLocal t := ⟨2000, 1, 1, (t.toNat - 946684800) / 3600, (t.toNat - 946684800) / 60 % 60, (t.toNat - 946684800) % 60⟩
  date2Time d := UInt32.ofNat (946684800 + d.hour * 3600 + d.minute * 60 + d.second)

/-- One recording, from 0:05 to 0:10. -/
def firstMorning : RecordD2c where
  len := 24
  record _ := ⟨1, ⟨0, 1, 1, 0, 5, 0⟩, ⟨0, 1, 1, 0, 10, 0⟩, 1, 0⟩

/-- Everything on channel 0 from midnight to 1:00. -/
def earlyQuery : Query := ⟨946684800, 946688400, 1, 1, 0⟩

/-- Everything on channel 1 from 2:00 to 3:00. -/
def lateQuery : Query := ⟨946692000, 946695600, 2, 1, 0⟩

theorem searchRecords_once : Reached (step firstDay) OwnAnswers init
    [.login, .searchRecords ⟨earlyQuery, []⟩, .doRecords, .sendMsg true, .recvMsg (some firstMorning), .finish, .wake] := by
  apply searchRecords_own
  refine Meets.cons trivial rfl (Meets.cons (by decide : 0 + 1 < 0 + 4294967296) rfl ?_)
  refine Meets.cons trivial rfl (Meets.cons trivial rfl (Meets.cons trivial rfl ?_))
  refine Meets.cons ?_ rfl (Meets.cons trivial rfl trivial)
  intro _ n q b hc
  cases hc
  rfl

/-- The first query times out while it is being answered; the second one, posted meanwhile, gets
its recordings. -/
theorem searchRecords_stale : ∃ t, exec (step firstDay) init
      [.login, .searchRecords ⟨earlyQuery, []⟩, .doRecords, .timeout, .searchRecords ⟨lateQuery, []⟩, .sendMsg true,
        .recvMsg (some firstMorning), .finish, .wake] = some t ∧
    ∃ r ∈ t.returns, r.call = 2 ∧ r.query = lateQuery ∧ r.ret = 0 ∧ r.origin = some 1 ∧ r.records.query = earlyQuery ∧
      r.records.record ≠ [] ∧ ¬ t.OwnAnswers := by
  refine ⟨_, rfl, _, List.mem_cons_of_mem _ (List.mem_singleton.mpr rfl), rfl, rfl, rfl, rfl, rfl, nofun, ?_⟩
  intro h
  have ho := (h _ (List.mem_cons_of_mem _ (List.mem_singleton.mpr rfl)) rfl).1
  cases ho

end RecordsWorld

end Hy

end SabApp
