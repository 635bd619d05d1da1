import SabApp.ChannelMask
import SabApp.Nc
import SabApp.QhDates
import SabApp.QhListVerdicts

/-!
# Searches at the cloud relay (hdcctv_client.c)

`hdcctv_client2_relay_searchCloudDates` and `hdcctv_client2_relay_searchCloudRecords` look for `"result":"0"` anywhere in
the answer and leave `ret` at 0 where they do not find it, and also where the array is missing. So a 0 is right for the
answers whose list is there and whole, and for empty lists.
-/

namespace SabApp

namespace Cloud

open CText ToolJson2 Qh

/-- PTC_CMD_HDCCTV_CLIENT_SEARCH_DATE -/
def cmdSearchDate : Int32 := 0x00210035

/-- PTC_CMD_HDCCTV_CLIENT_SEARCH_CLOUD -/
def cmdSearchCloud : Int32 := 0x00210030

/-- What a request says of the device and of the service address. -/
structure RelayDev where
  user : List UInt8
  devId : List UInt8
  nonceMd5 : List UInt8

structure RelayFrame where
  cmd : Int32
  data : List UInt8

/-- What the calls of a search come to. -/
structure RelayCalls where
  /-- `loc_enable` is seen before the time is over. -/
  online : Bool
  /-- `hdcctv_client_getServiceAddr` finds the relay server. -/
  located : Bool
  opened : Bool
  sent : Bool
  received : Option RelayFrame

inductive SearchEvent where
  | openSock
  | mallocArray
  | mallocFrame
  | send (cmd : Int32) (data : List UInt8)
  | recv
  | closeSock
  | freeArray
  | freeFrame
  deriving DecidableEq

/-- What the two searches differ in: the command, the request, the name of the list and the reader of an element, which
writes into a place of the table. -/
structure RelaySearch (α : Type) where
  cmd : Int32
  request : List UInt8
  name : String
  read : List UInt8 → α → ℤ × α

/-- What is returned, the list in the caller's structure, and what was done on the way. -/
structure Outcome (α : Type) where
  ret : Int32
  num : ℕ
  entry : ℕ → α
  events : List SearchEvent

section
variable {α : Type}

/-- The loop over the elements. -/
def appendRows (read : List UInt8 → α → ℤ × α) : List (List UInt8) → ℕ → (ℕ → α) → Int32 × ℕ × (ℕ → α)
  | [], num, entry => (0, num, entry)
  | row :: rows, num, entry =>
    if 1024 ≤ num then (0, num, entry)
    else
      let (ret, e) := read row (entry num)
      let entry := Function.update entry num e
      if ret < 0 then (Nc.errProtocol, num, entry) else appendRows read rows (num + 1) entry

/-- What follows the loop that is left by `break`. -/
def finish (events : List SearchEvent) (r : Int32 × ℕ × (ℕ → α)) : Outcome α :=
  ⟨r.1, r.2.1, r.2.2,
    [.openSock, .mallocArray, .mallocFrame] ++ events ++ [.closeSock, .freeArray, .freeFrame]⟩

/-- The common body, where `tool_json2_getArray` returns. -/
def searchRelay (s : RelaySearch α) (calls : RelayCalls) (fuel : ℕ) (entry : ℕ → α) : Option (Outcome α) :=
  if ¬ (calls.online ∧ calls.located ∧ calls.opened) then some ⟨Nc.errConnect, 0, entry, []⟩
  else if ¬ calls.sent then some (finish [.send s.cmd s.request] (Nc.errSend, 0, entry))
  else
    let events := [.send s.cmd s.request, .recv]
    match calls.received with
    | none => some (finish events (Nc.errRecv, 0, entry))
    | some frame =>
      if frame.cmd ≠ s.cmd then some (finish events (Nc.errProtocol, 0, entry))
      else if strstr (ascii "\"result\":\"0\"") (cstr frame.data) = none then some (finish events (0, 0, entry))
      else
        (getArray fuel (cstr frame.data) (ascii s.name) 1024 256).map fun found =>
          match found with
          | none => finish events (0, 0, entry)
          | some rows => finish events (appendRows s.read rows 0 entry)

end

/-! ## The two searches -/

/-- What `snprintf` prints. -/
def requestText (fields : List (String × List UInt8)) : List UInt8 :=
  ascii "\x7b" ++ commas (fields.map fun f => ascii "\"" ++ (ascii f.1 ++ (ascii "\":\"" ++ (f.2 ++ ascii "\"")))) ++
    ascii "\x7d"

/-- The channel of a search, or 0. -/
def searchChannel (mask : UInt64) : ℕ := (scan (fun _ => 0) mask 32).getD 0

def requestFields (dev : RelayDev) (mask : UInt64) : List (String × List UInt8) :=
  [("username", dev.user), ("password", ascii "password"), ("nonce_md5", dev.nonceMd5), ("dev_id", dev.devId),
    ("channel", Decimal.decimal (searchChannel mask)), ("type", ascii "0")]

def dateSets : List (String × (Int32 → CfgDate → CfgDate)) :=
  [("year", fun n d => { d with year := n }), ("month", fun n d => { d with month := n }),
    ("day", fun n d => { d with day := n })]

def cloudDates (dev : RelayDev) (req : SearchRequest) : RelaySearch CfgDate where
  cmd := cmdSearchDate
  request := requestText (requestFields dev req.channel)
  name := "date"
  read row := readNumbers row (-1) dateSets

def recordSets : List (String × (Int32 → CfgRecord → CfgRecord)) :=
  [("start", fun n r => { r with startTime := n.toUInt32 }), ("end", fun n r => { r with endTime := n.toUInt32 }),
    ("size", fun n r => { r with size := n.toUInt32 })]

/-- An element, read into the place of its record. -/
def readCloudRecord (req : SearchRequest) (row : List UInt8) (old : CfgRecord) : ℤ × CfgRecord :=
  let r := { old with channel := UInt8.ofNat (searchChannel req.channel), type := req.type, subType := req.subType }
  let (ret, r) := readNumbers row (-1) recordSets r
  if ret < 0 then (ret, r)
  else ((getValue row (ascii "path") r.fileInfo 128).1, { r with
    fileInfo := (getValue row (ascii "path") r.fileInfo 128).2
    fileInfo_length := length_getValue (by decide) row (ascii "path") r.fileInfo_length })

def cloudRecords (dev : RelayDev) (req : SearchRequest) : RelaySearch CfgRecord where
  cmd := cmdSearchCloud
  request := requestText (requestFields dev req.channel ++
    [("start", Decimal.decimal (signed req.startTime)), ("end", Decimal.decimal (signed req.endTime))])
  name := "list"
  read := readCloudRecord req

def hdcctv_client2_relay_searchCloudDates (dev : RelayDev) (req : SearchRequest) (calls : RelayCalls) (fuel : ℕ)
    (date : ℕ → CfgDate) : Option (Outcome CfgDate) :=
  searchRelay (cloudDates dev req) calls fuel date

def hdcctv_client2_relay_searchCloudRecords (dev : RelayDev) (req : SearchRequest) (calls : RelayCalls) (fuel : ℕ)
    (record : ℕ → CfgRecord) : Option (Outcome CfgRecord) :=
  searchRelay (cloudRecords dev req) calls fuel record

/-! ## What a search reports -/

section
variable {α : Type}

/-- The result is exactly 0, and the list is there with its elements, up to 1024, in the table. -/
def Whole (s : RelaySearch α) (text : List UInt8) (num : ℕ) (entry : ℕ → α) : Prop :=
  value64 text (ascii "result") = some (ascii "0") ∧
    ∃ rs, MemberAt (ascii s.name) text rs ∧ num = min rs.length 1024 ∧
      ∀ i (h : i < rs.length), i < 1024 → ∃ old, s.read rs[i] old = (0, entry i)

/-- Nothing was opened, or the socket is closed and both buffers are freed once, at the end. -/
def Tidy (events : List SearchEvent) : Prop :=
  events = [] ∨ ∃ mid, events = [.openSock, .mallocArray, .mallocFrame] ++ mid ++ [.closeSock, .freeArray, .freeFrame] ∧
    ∀ e ∈ mid, e ∉ [SearchEvent.openSock, .mallocArray, .mallocFrame, .closeSock, .freeArray, .freeFrame]

/-- The search returns 0 with all of an answer, or a negative code, and is tidy. -/
def Reports (s : RelaySearch α) (calls : RelayCalls) (run : ℕ → Option (Outcome α)) : Prop :=
  ∃ fuel out, run fuel = some out ∧ Tidy out.events ∧
    (out.ret = 0 ∧ (∃ frame, calls.received = some frame ∧ Whole s (cstr frame.data) out.num out.entry) ∨ out.ret < 0)

def Answered (s : RelaySearch α) (calls : RelayCalls) (frame : RelayFrame) : Prop :=
  calls.online ∧ calls.located ∧ calls.opened ∧ calls.sent ∧ calls.received = some frame ∧ frame.cmd = s.cmd

/-- The list that the reader finds is the member of that name in an answer whose result is 0. -/
def Named (s : RelaySearch α) (text : List UInt8) (rs : List (List UInt8)) : Prop :=
  value64 text (ascii "result") = some (ascii "0") ∧ MemberAt (ascii s.name) text rs

/-- Without the text of the result the list is empty, and with it there is a list that the table has room for, which is
the right one unless an element is told to be incomplete. -/
def AnswerOk (s : RelaySearch α) (complete : List UInt8 → Prop) (text : List UInt8) : Prop :=
  if strstr (ascii "\"result\":\"0\"") text = none then Named s text []
  else
    ∃ rs, ArrayAt (ascii s.name) text rs ∧ rs.length ≤ 1024 ∧ (∀ r ∈ rs, r.length < 256) ∧
      ((∀ r ∈ rs, complete r) → Named s text rs)

theorem tidy_finish {mid : List SearchEvent} {r : Int32 × ℕ × (ℕ → α)}
    (h : ∀ e ∈ mid, e ∉ [SearchEvent.openSock, .mallocArray, .mallocFrame, .closeSock, .freeArray, .freeFrame]) :
    Tidy (finish mid r).events :=
  .inr ⟨mid, rfl, h⟩

variable {s : RelaySearch α} {complete : List UInt8 → Prop}

/-- The loop stores the elements one after the other, or tells of the first incomplete one. -/
theorem appendRows_cases (hread : ∀ row old, complete row ∧ (s.read row old).1 = 0 ∨ ¬ complete row ∧ (s.read row old).1 < 0) :
    ∀ (rows : List (List UInt8)) (num : ℕ) (entry : ℕ → α), num + rows.length ≤ 1024 →
    ((∀ r ∈ rows, complete r) ∧ ∃ entry', appendRows s.read rows num entry = (0, num + rows.length, entry') ∧
      (∀ i < num, entry' i = entry i) ∧ ∀ i (h : i < rows.length), ∃ old, s.read rows[i] old = (0, entry' (num + i))) ∨
    (¬ ∀ r ∈ rows, complete r) ∧ (appendRows s.read rows num entry).1 < 0
  | [], num, entry, _ => .inl ⟨nofun, entry, rfl, fun _ _ => rfl, nofun⟩
  | row :: rows, num, entry, hlen => by
    rw [List.length_cons] at hlen
    rw [appendRows, if_neg (by omega), List.forall_mem_cons]
    dsimp only
    rcases hread row (entry num) with ⟨hrow, hret⟩ | ⟨hrow, hret⟩
    · rw [if_neg (by rw [hret]; exact Int.lt_irrefl 0)]
      rcases appendRows_cases hread rows (num + 1) (Function.update entry num (s.read row (entry num)).2) (by omega) with
        ⟨hall, entry', heq, hbefore, hentries⟩ | ⟨hsome, herr⟩
      · refine .inl ⟨⟨hrow, hall⟩, entry', ?_, fun i hi => ?_, fun i hi => ?_⟩
        · rw [heq, List.length_cons, Nat.add_assoc, Nat.add_comm 1]
        · rw [hbefore i (Nat.lt_succ_of_lt hi), Function.update_of_ne (Nat.ne_of_lt hi)]
        · cases i with
          | zero =>
            refine ⟨entry num, ?_⟩
            rw [Nat.add_zero, hbefore num (Nat.lt_succ_self num), Function.update_self]
            exact Prod.ext hret rfl
          | succ i =>
            obtain ⟨old, hold⟩ := hentries i (Nat.lt_of_succ_lt_succ hi)
            exact ⟨old, by rwa [Nat.add_assoc, Nat.add_comm 1] at hold⟩
      · exact .inr ⟨fun h => hsome h.2, herr⟩
    · rw [if_pos hret]
      exact .inr ⟨fun h => hrow h.1, show Nc.errProtocol < 0 by decide⟩

variable {calls : RelayCalls} {frame : RelayFrame} {entry : ℕ → α}

/-- What comes before the answer is told with a negative code. -/
theorem reports_unanswered (h : ∀ frame, ¬ Answered s calls frame) : Reports s calls (searchRelay s calls · entry) := by
  have hneg : ∀ (events : List SearchEvent) (err : Int32),
      (∀ e ∈ events, e ∉ [SearchEvent.openSock, .mallocArray, .mallocFrame, .closeSock, .freeArray, .freeFrame]) →
      err < 0 → searchRelay s calls 0 entry = some (finish events (err, 0, entry)) →
      Reports s calls (searchRelay s calls · entry) :=
    fun _ _ hmid herr hrun => ⟨0, _, hrun, tidy_finish hmid, .inr herr⟩
  by_cases hopen : calls.online ∧ calls.located ∧ calls.opened
  · by_cases hsent : calls.sent
    · cases hrecv : calls.received with
      | none =>
        refine hneg [.send s.cmd s.request, .recv] Nc.errRecv (by simp) (by decide) ?_
        rw [searchRelay, if_neg (not_not.mpr hopen), if_neg (not_not.mpr hsent), hrecv]
      | some frame =>
        have hcmd : frame.cmd ≠ s.cmd := fun hcmd => h frame ⟨hopen.1, hopen.2.1, hopen.2.2, hsent, hrecv, hcmd⟩
        refine hneg [.send s.cmd s.request, .recv] Nc.errProtocol (by simp) (by decide) ?_
        rw [searchRelay, if_neg (not_not.mpr hopen), if_neg (not_not.mpr hsent), hrecv]
        dsimp only
        rw [if_pos hcmd]
    · refine hneg [.send s.cmd s.request] Nc.errSend (by simp) (by decide) ?_
      rw [searchRelay, if_neg (not_not.mpr hopen), if_pos hsent]
  · have hrun : searchRelay s calls 0 entry = some ⟨Nc.errConnect, 0, entry, []⟩ := by rw [searchRelay, if_pos hopen]
    exact ⟨0, _, hrun, .inl rfl, .inr (show Nc.errConnect < 0 by decide)⟩

theorem searchRelay_answered (h : Answered s calls frame) (fuel : ℕ) :
    searchRelay s calls fuel entry =
      if strstr (ascii "\"result\":\"0\"") (cstr frame.data) = none then
        some (finish [.send s.cmd s.request, .recv] (0, 0, entry))
      else
        (getArray fuel (cstr frame.data) (ascii s.name) 1024 256).map fun found =>
          match found with
          | none => finish [.send s.cmd s.request, .recv] (0, 0, entry)
          | some rows => finish [.send s.cmd s.request, .recv] (appendRows s.read rows 0 entry) := by
  obtain ⟨honline, hlocated, hopened, hsent, hrecv, hcmd⟩ := h
  rw [searchRelay, if_neg (not_not.mpr ⟨honline, hlocated, hopened⟩), if_neg (not_not.mpr hsent), hrecv]
  dsimp only
  rw [if_neg (not_not.mpr hcmd)]

/-- A 0 with no element is right for an empty list. -/
theorem whole_zero_iff {text : List UInt8} : Whole s text 0 entry ↔ Named s text [] := by
  constructor
  · rintro ⟨hresult, rs, hmember, hnum, -⟩
    obtain rfl : rs = [] := List.length_eq_zero_iff.mp (by omega)
    exact ⟨hresult, hmember⟩
  · rintro ⟨hresult, hmember⟩
    exact ⟨hresult, [], hmember, rfl, nofun⟩

/-- A 0 is right for all of the answer only. -/
theorem told_zero_iff (h : Answered s calls frame) {num : ℕ} {entry' : ℕ → α} :
    ((0 : Int32) = 0 ∧ (∃ frame, calls.received = some frame ∧ Whole s (cstr frame.data) num entry') ∨ (0 : Int32) < 0) ↔
      Whole s (cstr frame.data) num entry' := by
  have hrecv : calls.received = some frame := h.2.2.2.2.1
  simp [hrecv]

/-- What the loop tells of a list is right if and only if it is the list named, or an element is incomplete. -/
theorem told_rows_iff
    (hread : ∀ row old, complete row ∧ (s.read row old).1 = 0 ∨ ¬ complete row ∧ (s.read row old).1 < 0)
    (h : Answered s calls frame) {rows : List (List UInt8)} (harray : ArrayAt (ascii s.name) (cstr frame.data) rows)
    (hcount : rows.length ≤ 1024) :
    ((appendRows s.read rows 0 entry).1 = 0 ∧ (∃ frame, calls.received = some frame ∧ Whole s (cstr frame.data)
        (appendRows s.read rows 0 entry).2.1 (appendRows s.read rows 0 entry).2.2) ∨
      (appendRows s.read rows 0 entry).1 < 0) ↔ ((∀ r ∈ rows, complete r) → Named s (cstr frame.data) rows) := by
  rcases appendRows_cases hread rows 0 entry (by omega) with ⟨hall, entry', heq, -, hentries⟩ | ⟨hsome, herr⟩
  · rw [heq, imp_iff_right hall]
    refine (told_zero_iff h).trans ⟨?_, ?_⟩
    · rintro ⟨hresult, rs, hmember, -⟩
      obtain rfl := hmember.arrayAt.unique harray
      exact ⟨hresult, hmember⟩
    · rintro ⟨hresult, hmember⟩
      refine ⟨hresult, rows, hmember, (Nat.zero_add _).trans (Nat.min_eq_left hcount).symm, fun i hi _ => ?_⟩
      obtain ⟨old, hold⟩ := hentries i hi
      exact ⟨old, by rwa [Nat.zero_add] at hold⟩
  · exact iff_of_true (.inr herr) fun hall => absurd hall hsome

theorem reports_answered_iff
    (hread : ∀ row old, complete row ∧ (s.read row old).1 = 0 ∨ ¬ complete row ∧ (s.read row old).1 < 0)
    (h : Answered s calls frame) : Reports s calls (searchRelay s calls · entry) ↔ AnswerOk s complete (cstr frame.data) := by
  have htidy : ∀ {r : Int32 × ℕ × (ℕ → α)}, Tidy (finish [.send s.cmd s.request, .recv] r).events :=
    tidy_finish (by simp)
  have hbare : Whole s (cstr frame.data) 0 entry ↔ Named s (cstr frame.data) [] := whole_zero_iff
  unfold Reports AnswerOk
  simp only [searchRelay_answered h]
  by_cases hfound : strstr (ascii "\"result\":\"0\"") (cstr frame.data) = none
  · simp only [if_pos hfound, exists_const, Option.some.injEq]
    rw [← hbare]
    constructor
    · rintro ⟨out, rfl, -, hret⟩
      exact (told_zero_iff h).mp hret
    · exact fun hwhole => ⟨_, rfl, htidy, (told_zero_iff h).mpr hwhole⟩
  simp only [if_neg hfound, Option.map_eq_some_iff]
  constructor
  · rintro ⟨fuel, out, ⟨found, hget, rfl⟩, -, hret⟩
    cases found with
    | none =>
      -- an empty list would have been found
      obtain ⟨-, hmember⟩ := hbare.mp ((told_zero_iff h).mp hret)
      obtain ⟨fuel', hget'⟩ := getArray_iff.mpr ⟨hmember.arrayAt, Nat.zero_le 1024, nofun⟩
      cases getArray_unique hget hget'
    | some rows =>
      obtain ⟨harray, hcount, hshort⟩ := getArray_iff.mp ⟨fuel, hget⟩
      exact ⟨rows, harray, hcount, hshort, (told_rows_iff hread h harray hcount).mp hret⟩
  · rintro ⟨rs, harray, hcount, hshort, hnamed⟩
    obtain ⟨fuel, hget⟩ := getArray_iff.mpr ⟨harray, hcount, hshort⟩
    exact ⟨fuel, _, ⟨some rs, hget, rfl⟩, htidy, (told_rows_iff hread h harray hcount).mpr hnamed⟩

/-- A search reports what it should if and only if its answer, where there is one, is of the kinds that are told apart. -/
theorem reports_iff (hread : ∀ row old, complete row ∧ (s.read row old).1 = 0 ∨ ¬ complete row ∧ (s.read row old).1 < 0) :
    Reports s calls (searchRelay s calls · entry) ↔ ∀ frame, Answered s calls frame → AnswerOk s complete (cstr frame.data) := by
  by_cases h : ∃ frame, Answered s calls frame
  · obtain ⟨frame, h⟩ := h
    rw [reports_answered_iff hread h]
    constructor
    · intro hok frame' h'
      have hsame := h.2.2.2.2.1.symm.trans h'.2.2.2.2.1
      cases hsame
      exact hok
    · exact fun hall => hall frame h
  · have hnone := not_exists.mp h
    exact iff_of_true (reports_unanswered hnone) fun frame hf => absurd hf (hnone frame)

end

/-! ## Elements -/

theorem readNumbers_cases {α : Type} {data : List UInt8} {sets : List (String × (Int32 → α → α))} : ∀ (old : α),
    Members (sets.map Prod.fst) data ∧ (readNumbers data (-1) sets old).1 = 0 ∨
      ¬ Members (sets.map Prod.fst) data ∧ (readNumbers data (-1) sets old).1 < 0 := by
  induction sets with
  | nil => exact fun _ => .inl ⟨List.forall_mem_nil _, rfl⟩
  | cons f sets ih =>
    intro old
    rw [List.map_cons, Members, List.forall_mem_cons, ← number_exists_iff, readNumbers]
    cases hn : getNumber data (ascii f.1) with
    | none =>
      refine .inr ⟨?_, show (-1 : ℤ) < 0 by decide⟩
      rintro ⟨⟨_, hn'⟩, -⟩
      cases hn'
    | some n =>
      rcases ih (f.2 (Int32.ofInt n) old) with ⟨hall, hret⟩ | ⟨hsome, hret⟩
      · exact .inl ⟨⟨⟨n, rfl⟩, hall⟩, hret⟩
      · exact .inr ⟨fun h => hsome h.2, hret⟩

theorem getValue_cases (row buf : List UInt8) (name : String) (size : ℤ) :
    (value64 row (ascii name)).isSome ∧ (getValue row (ascii name) buf size).1 = 0 ∨
      ¬ (value64 row (ascii name)).isSome ∧ (getValue row (ascii name) buf size).1 < 0 := by
  have hiff := value_found_iff row (ascii name) buf size
  have hret : (getValue row (ascii name) buf size).1 = 0 ∨ (getValue row (ascii name) buf size).1 < 0 := by
    unfold getValue
    repeat' split
    all_goals simp
  by_cases h : (getValue row (ascii name) buf size).1 < 0
  · exact .inr ⟨hiff.not.mp (not_not.mpr h), h⟩
  · exact .inl ⟨hiff.mp h, hret.resolve_right h⟩

def DateComplete (row : List UInt8) : Prop := Members ["year", "month", "day"] row

def CloudRecordComplete (row : List UInt8) : Prop := Members ["start", "end", "size"] row ∧ (value64 row (ascii "path")).isSome

theorem readDate_cases (row : List UInt8) (old : CfgDate) :
    DateComplete row ∧ (readNumbers row (-1) dateSets old).1 = 0 ∨
      ¬ DateComplete row ∧ (readNumbers row (-1) dateSets old).1 < 0 := by
  have hnames : dateSets.map Prod.fst = ["year", "month", "day"] := rfl
  rw [DateComplete, ← hnames]
  exact readNumbers_cases old

theorem readCloudRecord_cases (req : SearchRequest) (row : List UInt8) (old : CfgRecord) :
    CloudRecordComplete row ∧ (readCloudRecord req row old).1 = 0 ∨
      ¬ CloudRecordComplete row ∧ (readCloudRecord req row old).1 < 0 := by
  unfold readCloudRecord
  dsimp only
  have hnames : recordSets.map Prod.fst = ["start", "end", "size"] := rfl
  rw [CloudRecordComplete, ← hnames]
  rcases readNumbers_cases { old with
    channel := UInt8.ofNat (searchChannel req.channel), type := req.type, subType := req.subType }
    with ⟨hall, hret⟩ | ⟨hsome, hret⟩
  · rw [if_neg (by rw [hret]; exact Int.lt_irrefl 0)]
    rcases getValue_cases row _ "path" 128 with ⟨hpath, hvalue⟩ | ⟨hpath, hvalue⟩
    · exact .inl ⟨⟨hall, hpath⟩, hvalue⟩
    · exact .inr ⟨fun h => hpath h.2, hvalue⟩
  · rw [if_pos hret]
    exact .inr ⟨fun h => hsome h.1, hret⟩

/-- **Cloud searches.** A cloud search returns 0 with a whole list and else a negative code, with the socket closed and
the buffers freed, if and only if no answer arrives, or it has the text of the result and a list that the table has room
for, which is incomplete or the right one, or it has no such text and an empty list for a result of 0. -/
theorem cloudSearches_report_iff (dev : RelayDev) (req : SearchRequest) (calls : RelayCalls) (date : ℕ → CfgDate)
    (record : ℕ → CfgRecord) :
    (Reports (cloudDates dev req) calls (hdcctv_client2_relay_searchCloudDates dev req calls · date) ↔
      ∀ frame, Answered (cloudDates dev req) calls frame →
        AnswerOk (cloudDates dev req) DateComplete (cstr frame.data)) ∧
    (Reports (cloudRecords dev req) calls (hdcctv_client2_relay_searchCloudRecords dev req calls · record) ↔
      ∀ frame, Answered (cloudRecords dev req) calls frame →
        AnswerOk (cloudRecords dev req) CloudRecordComplete (cstr frame.data)) :=
  ⟨reports_iff readDate_cases, reports_iff (readCloudRecord_cases req)⟩

/-- The server refuses: `{"result":"1"}`. -/
def refusal (cmd : Int32) : RelayCalls := ⟨true, true, true, true, some ⟨cmd, ascii "\x7b\"result\":\"1\"\x7d"⟩⟩

/-- A refused search is taken for one that found nothing. -/
theorem cloudSearches_refused :
    ¬ Reports (cloudDates ⟨[], [], []⟩ ⟨0, 0, 1, 0, 0⟩) (refusal cmdSearchDate)
      (hdcctv_client2_relay_searchCloudDates ⟨[], [], []⟩ ⟨0, 0, 1, 0, 0⟩ (refusal cmdSearchDate) · fun _ => ⟨0, 0, 0⟩) := by
  rintro ⟨fuel, out, hrun, -, hret⟩
  have hnone : strstr (ascii "\"result\":\"0\"") (cstr (ascii "\x7b\"result\":\"1\"\x7d")) = none := by decide +kernel
  have hanswered : Answered (cloudDates ⟨[], [], []⟩ ⟨0, 0, 1, 0, 0⟩) (refusal cmdSearchDate)
      ⟨cmdSearchDate, ascii "\x7b\"result\":\"1\"\x7d"⟩ := ⟨rfl, rfl, rfl, rfl, rfl, rfl⟩
  beta_reduce at hrun
  rw [hdcctv_client2_relay_searchCloudDates, searchRelay_answered hanswered, if_pos hnone, Option.some.injEq] at hrun
  subst hrun
  rcases hret with ⟨-, frame, hrecv, hresult, -⟩ | hneg
  · cases hrecv
    exact absurd hresult (by decide +kernel)
  · exact absurd hneg (by decide)

end Cloud

end SabApp
