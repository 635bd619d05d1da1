import SabApp.Nc
import SabApp.QhListVerdicts

/-!
# Searching an XM device's log (nc_xm.c)

`nc_xm_dev_doLogs` asks for the entries from a position on. The device answers with a page of at most 128 entries, and
behind a full page the next request asks from behind the last position that was read. An entry that is not understood
ends the loop over the page, but not the search.
-/

namespace SabApp

namespace Xm

open CText ToolJson2

/-- `tool_date_t`, with the year since 1900 and the month from 0. -/
structure ToolDate where
  year : ℤ
  month : ℤ
  day : ℤ
  hour : ℤ
  minute : ℤ
  second : ℤ

/-- `%d` and a byte of `sscanf`. -/
def scanThen (c : UInt8) (bs : List UInt8) : Option (ℤ × List UInt8) :=
  match CloudHttp.scanInt bs with
  | some (n, d :: bs) => if d = c then some (n, bs) else none
  | _ => none

/-- `tool_sysf_str2tt`, with `%d-%d-%d %d:%d:%d`; `none` is -1. -/
def tool_sysf_str2tt (date2Time : ToolDate → UInt32) (str : List UInt8) : Option UInt32 := do
  let (year, str) ← scanThen 45 str
  let (month, str) ← scanThen 45 str
  let (day, str) ← CloudHttp.scanInt str
  let (hour, str) ← scanThen 58 str
  let (minute, str) ← scanThen 58 str
  let (second, _) ← CloudHttp.scanInt str
  some (date2Time ⟨year - 1900, month - 1, day, hour, minute, second⟩)

/-- XM_RET_OK -/
def xmRetOk : ℤ := 100

/-- PTC_LOG_TYPE_SYSTEM -/
def typeSystem : UInt8 := 1

/-- PTC_LOG_TYPE_ALARM -/
def typeAlarm : UInt8 := 2

/-- PTC_LOG_TYPE_OPERATE -/
def typeOperate : UInt8 := 3

/-- The branches over `xm_Type`, each with the type and the PTC_LOG_XM that it sets. -/
def logKinds : List (String × UInt8 × UInt16) := [
  ("Reboot", typeSystem, 1001),
  ("ShutDown", typeSystem, 1002),
  ("SaveConfig", typeOperate, 1003),
  ("FileAccessError", typeOperate, 1004),
  ("FileAccessError", typeOperate, 1005),  -- never reached: PTC_LOG_XM_SetDriverType
  ("ClearDriver", typeOperate, 1006),
  ("StorageDeviceError", typeOperate, 1007),
  ("EventStart", typeAlarm, 1008),
  ("EventStop", typeAlarm, 1009),
  ("LogIn", typeOperate, 1010),
  ("LogOut", typeOperate, 1011),
  ("AddUser", typeOperate, 1012),
  ("DeleteUser", typeOperate, 1013),
  ("ModifyUser", typeOperate, 1014),
  ("ModifyPassword", typeOperate, 1015),
  ("AddGroup", typeOperate, 1016),
  ("DeleteGroup", typeOperate, 1017),
  ("ModifyGroup", typeOperate, 1018),
  ("ClearLog", typeSystem, 1019),
  ("FileSearch", typeOperate, 1020),
  ("FileAccess", typeOperate, 1021),
  ("Record", typeOperate, 1022),
  ("ModifyTime", typeSystem, 1023),
  ("SetTime", typeSystem, 1023),
  ("TimeChanged", typeSystem, 1023),
  ("ZeroBitrate", typeSystem, 1024),
  ("AccountRestore", typeOperate, 1025),
  ("Upgrade", typeSystem, 1026),
  ("DiskChanged", typeOperate, 1027),
  ("Exception", typeSystem, 1028),
  ("SaveSystemState", typeSystem, 1029)]

/-- `tool_str_strncmp` looks at 31 bytes. -/
def kindOf (type : List UInt8) : Option (UInt8 × UInt16) :=
  (logKinds.find? fun k => type.take 31 = ascii k.1).map Prod.snd

/-- A cleared `ptc_log_v2_t` with what is set of it. -/
def newLog (time : UInt32) (kind : UInt8 × UInt16) (data : List UInt8) : Qh.LogV2 :=
  ⟨time, kind.1, 0, 0, 0, kind.2, (0, 0, 0, 0), data⟩

/-- What `nc_xm_dev_doLogs` works with; `logs` has the `num` entries of its table. -/
structure LogSearch where
  logs : List Qh.LogV2
  position : ℤ
  result : Int32
  time : List UInt8
  type : List UInt8

def LogSearch.start : LogSearch := ⟨[], 0, 0, List.replicate 32 0, List.replicate 32 0⟩

inductive Answer where
  | unsent
  | lost
  | text (data : List UInt8)

section
variable (date2Time : ToolDate → UInt32)

/-- An entry of a page; an error where the loop breaks. -/
def scanLog (row : List UInt8) (s : LogSearch) : Except LogSearch LogSearch :=
  let (ret, time) := getValue row (ascii "Time") s.time 32
  let s := { s with time := time }
  if ret < 0 then .error s
  else
    match tool_sysf_str2tt date2Time (cstr time), getNumber row (ascii "Position") with
    | some tt, some position =>
      let (ret, type) := getValue row (ascii "Type") s.type 32
      let s := { s with position := position, type := type }
      if ret < 0 then .error s
      else
        let (ret, data) := getValue row (ascii "Data") (List.replicate 64 0) 32
        if ret < 0 then .error s
        else
          match kindOf (cstr type) with
          | none => .ok s
          | some kind => .ok { s with logs := s.logs ++ [newLog tt kind (cstr data)] }
    | _, _ => .error s

/-- The loop over a page. -/
def scanLogs : List (List UInt8) → LogSearch → LogSearch
  | [], s => s
  | row :: rows, s =>
    if 1024 ≤ s.logs.length then s
    else
      match scanLog date2Time row s with
      | .error s => { s with result := Nc.errProtocol }
      | .ok s => scanLogs rows s

/-- The next position, of 32 bits. -/
def LogSearch.forward (s : LogSearch) : LogSearch := { s with position := Int.bmod (s.position + 1) (2 ^ 32) }

/-- An answer's text, with whether another request follows; `none` where `tool_json2_getArray` does not return. -/
def takePage (fuel : ℕ) (data : List UInt8) (s : LogSearch) : Option (Bool × LogSearch) :=
  if getNumber data (ascii "Ret") ≠ some xmRetOk then some (false, { s with result := Nc.errProtocol })
  else
    (getArray fuel data (ascii "OPLogQuery") 1024 256).map fun found =>
      match found with
      | none => (false, { s with result := Nc.errProtocol })
      | some rows => (128 ≤ rows.length, (scanLogs date2Time rows s).forward)

/-- The loop over the requests, where it ends; `dev` answers the `k`-th one, which asks from a position. -/
def searchLogs (dev : ℕ → ℤ → Answer) : ℕ → ℕ → LogSearch → Option LogSearch
  | 0, _, _ => none
  | fuel + 1, k, s =>
    if 1024 ≤ s.logs.length then some s
    else
      match dev k s.position with
      | .unsent => some { s with result := Nc.errSend }
      | .lost => some { s with result := Nc.errRecv }
      | .text data =>
        match takePage date2Time fuel data s with
        | none => none
        | some (false, s) => some s
        | some (true, s) => searchLogs dev fuel (k + 1) s

/-- `ptc_logs_v2_t` -/
structure LogsV2 where
  startTime : UInt32
  endTime : UInt32
  log : List Qh.LogV2

/-- What a device's slot holds for its log. -/
structure LogsSlot where
  lastReq : UInt32
  curReq : UInt32
  cfg : LogsV2
  result : Int32

def nc_xm_dev_doLogs (dev : ℕ → ℤ → Answer) (fuel : ℕ) (slot : LogsSlot) : Option (Int32 × LogsSlot) :=
  if slot.lastReq = slot.curReq then some (0, slot)
  else
    (searchLogs date2Time dev fuel 0 .start).map fun s =>
      (0, { slot with cfg.log := s.logs, result := s.result, lastReq := slot.curReq })

end

/-! ## What is read of an entry -/

/-- The text of a member in a buffer of 32 bytes. -/
def read32 (row : List UInt8) (name : String) : Option (List UInt8) :=
  let r := getValue row (ascii name) (List.replicate 32 0) 32
  if r.1 < 0 then none else some (cstr r.2)

theorem copyUntil_take (stop : UInt8 → Bool) (bs : List UInt8) (n : ℕ) :
    copyUntil stop (n + 1) bs = (before stop bs).take n ++ [0] := by
  induction bs generalizing n with
  | nil => simp [copyUntil, before]
  | cons c cs ih =>
    rw [copyUntil]
    cases n with
    | zero => simp
    | succ n =>
      by_cases hc : stop c
      · simp [before, hc]
      · rw [if_neg (by simp [hc]), ih]
        simp [before, hc]

/-- What is written is a text and its terminator, or a literal. -/
theorem readValue_forms {n : ℕ} {t bytes : List UInt8} (h : readValue (n + 1) t = some bytes) :
    (∃ v, bytes = v ++ [0]) ∨ bytes ∈ [ascii "false", ascii "true", ascii "null"] := by
  induction t with
  | nil => cases h
  | cons c cs ih =>
    rw [readValue] at h
    cases hc : char (c :: cs) with
    | quotation | number =>
      rw [hc] at h
      cases h
      exact .inl ⟨_, copyUntil_take ..⟩
    | blank =>
      rw [hc] at h
      exact ih h
    | false | true | null =>
      rw [hc] at h
      cases h
      exact .inr (by simp)
    | _ => rw [hc] at h; cases h

theorem getValue_forms (row name : List UInt8) : (∀ buf, getValue row name buf 32 = (-1, buf)) ∨
    ∃ bytes, ((∃ v, bytes = v ++ [0]) ∨ bytes ∈ [ascii "false", ascii "true", ascii "null"]) ∧
      ∀ buf, getValue row name buf 32 = (0, bytes ++ buf.drop bytes.length) := by
  cases hs : strstr (quotedName name) row with
  | none => exact .inl fun buf => by simp only [getValue, hs]
  | some idx =>
    cases hc : toColon (idx.drop (quotedName name).length) with
    | none => exact .inl fun buf => by simp only [getValue, hs, hc]
    | some t =>
      cases hr : readValue (Int.toNat 32) t with
      | none => exact .inl fun buf => by simp only [getValue, hs, hc, hr]
      | some bytes => exact .inr ⟨bytes, readValue_forms (n := 31) hr, fun buf => by simp only [getValue, hs, hc, hr]⟩

/-- What the buffer held matters behind a literal only. -/
theorem getValue_any {β : Type} (f : List UInt8 → β) (row : List UInt8) (name : String) (buf : List UInt8)
    (hlit : ∀ lit ∈ [ascii "false", ascii "true", ascii "null"],
      f (cstr (lit ++ buf.drop lit.length)) = f (cstr (lit ++ (List.replicate 32 0).drop lit.length))) :
    ((getValue row (ascii name) buf 32).1 < 0 ∧ read32 row name = none) ∨
    (¬ (getValue row (ascii name) buf 32).1 < 0 ∧ ∃ v, read32 row name = some v ∧
      f (cstr (getValue row (ascii name) buf 32).2) = f v) := by
  rcases getValue_forms row (ascii name) with h | ⟨bytes, hbytes, h⟩
  · exact .inl ⟨by rw [h]; simp, by rw [read32, h]; rfl⟩
  · refine .inr ⟨by rw [h]; simp, _, by rw [read32, h]; rfl, ?_⟩
    rw [h]
    rcases hbytes with ⟨v, rfl⟩ | hmem
    · simp only [cstr, List.append_assoc, List.takeWhile_append]
      simp
    · exact hlit bytes hmem

/-- A literal's first byte is in no type and in no number. -/
theorem literal_head {lit : List UInt8} (h : lit ∈ [ascii "false", ascii "true", ascii "null"]) (t : List UInt8) :
    ∃ c u, cstr (lit ++ t) = c :: u ∧ (c = 102 ∨ c = 116 ∨ c = 110) := by
  simp only [List.mem_cons, List.not_mem_nil, or_false] at h
  rcases h with rfl | rfl | rfl
  · exact ⟨102, _, rfl, .inl rfl⟩
  · exact ⟨116, _, rfl, .inr (.inl rfl)⟩
  · exact ⟨110, _, rfl, .inr (.inr rfl)⟩

theorem kindOf_literal {c : UInt8} (h : c = 102 ∨ c = 116 ∨ c = 110) (u : List UInt8) : kindOf (c :: u) = none := by
  have hheads : ∀ k ∈ logKinds, (ascii k.1).head? ∉ [some 102, some 116, some 110] := by decide
  have hnone : (logKinds.find? fun k => (c :: u).take 31 = ascii k.1) = none := by
    refine List.find?_eq_none.mpr fun k hk he => hheads k hk ?_
    rw [← of_decide_eq_true he]
    rcases h with rfl | rfl | rfl <;> simp
  rw [kindOf, hnone]
  rfl

theorem str2tt_literal (date2Time : ToolDate → UInt32) {c : UInt8} (h : c = 102 ∨ c = 116 ∨ c = 110) (u : List UInt8) :
    tool_sysf_str2tt date2Time (c :: u) = none := by
  have hscan : CloudHttp.scanInt (c :: u) = none := by
    rcases h with rfl | rfl | rfl <;> rfl
  rw [tool_sysf_str2tt, scanThen, hscan]
  rfl

section
variable (date2Time : ToolDate → UInt32)

/-- An entry's position and, where its type is known, its log. -/
def logOf (row : List UInt8) : Option (ℤ × Option Qh.LogV2) := do
  let time ← (read32 row "Time").bind (tool_sysf_str2tt date2Time)
  let position ← getNumber row (ascii "Position")
  let type ← read32 row "Type"
  let data ← read32 row "Data"
  some (position, (kindOf type).map fun kind => newLog time kind data)

/-- What the loop does with an entry does not depend on the entries before it. -/
theorem scanLog_eq (row : List UInt8) (s : LogSearch) :
    (logOf date2Time row = none ∧ ∃ s', scanLog date2Time row s = .error s' ∧ s'.logs = s.logs ∧ s'.result = s.result) ∨
    ∃ p log s', logOf date2Time row = some (p, log) ∧ scanLog date2Time row s = .ok s' ∧
      s'.logs = s.logs ++ log.toList ∧ s'.result = s.result ∧ s'.position = p := by
  unfold scanLog logOf
  dsimp only
  rcases getValue_any (tool_sysf_str2tt date2Time) row "Time" s.time (by
    intro lit hlit
    obtain ⟨c, u, hc, hh⟩ := literal_head hlit (s.time.drop lit.length)
    obtain ⟨c', u', hc', hh'⟩ := literal_head hlit ((List.replicate 32 0).drop lit.length)
    rw [hc, hc', str2tt_literal _ hh, str2tt_literal _ hh']) with ⟨ht, hread⟩ | ⟨ht, v, hread, htime⟩
  · refine .inl ⟨by rw [hread]; rfl, ?_⟩
    rw [if_pos ht]
    exact ⟨_, rfl, rfl, rfl⟩
  rw [if_neg ht, hread, htime]
  simp only [Option.bind_eq_bind, Option.bind_some]
  cases htt : tool_sysf_str2tt date2Time v with
  | none => exact .inl ⟨rfl, _, rfl, rfl, rfl⟩
  | some tt =>
    cases hp : getNumber row (ascii "Position") with
    | none => exact .inl ⟨rfl, _, rfl, rfl, rfl⟩
    | some p =>
      dsimp only [Option.bind_some]
      rcases getValue_any kindOf row "Type" s.type (by
        intro lit hlit
        obtain ⟨c, u, hc, hh⟩ := literal_head hlit (s.type.drop lit.length)
        obtain ⟨c', u', hc', hh'⟩ := literal_head hlit ((List.replicate 32 0).drop lit.length)
        rw [hc, hc', kindOf_literal hh, kindOf_literal hh']) with ⟨ht, hread⟩ | ⟨ht, w, hread, hkind⟩
      · rw [if_pos ht, hread]
        exact .inl ⟨rfl, _, rfl, rfl, rfl⟩
      rw [if_neg ht, hread, hkind]
      rcases getValue_any id row "Data" (List.replicate 64 0) (by decide) with ⟨ht, hread⟩ | ⟨ht, d, hread, hdata⟩
      · rw [if_pos ht, hread]
        exact .inl ⟨rfl, _, rfl, rfl, rfl⟩
      rw [if_neg ht, hread]
      refine .inr ⟨p, (kindOf w).map fun kind => newLog tt kind d, ?_⟩
      dsimp only [Option.bind_some]
      cases kindOf w with
      | none => exact ⟨_, rfl, rfl, by simp, rfl, rfl⟩
      | some kind => exact ⟨_, rfl, rfl, congrArg (fun data => s.logs ++ [newLog tt kind data]) hdata, rfl, rfl⟩

/-! ## A page -/

/-- The logs of a page up to an entry that is not understood. -/
def readable : List (List UInt8) → List Qh.LogV2
  | [] => []
  | row :: rows =>
    match logOf date2Time row with
    | none => []
    | some (_, log) => log.toList ++ readable rows

/-- An entry of the page is not understood. -/
def Broken (page : List (List UInt8)) : Prop := ∃ row ∈ page, logOf date2Time row = none

variable {date2Time}

theorem broken_cons (rows : List (List UInt8)) {row : List UInt8} {x : ℤ × Option Qh.LogV2}
    (h : logOf date2Time row = some x) : Broken date2Time (row :: rows) ↔ Broken date2Time rows := by
  simp [Broken, h]

theorem readable_cons {row : List UInt8} {rows : List (List UInt8)} {p : ℤ} {log : Option Qh.LogV2}
    (h : logOf date2Time row = some (p, log)) :
    readable date2Time (row :: rows) = log.toList ++ readable date2Time rows := by
  rw [readable, h]

/-- The loop stores what is readable, and tells of the entry that stopped it before the table was full. -/
theorem scanLogs_eq : ∀ (rows : List (List UInt8)) (s : LogSearch), s.logs.length ≤ 1024 →
    (scanLogs date2Time rows s).logs = (s.logs ++ readable date2Time rows).take 1024 ∧
    (Broken date2Time rows ∧ (s.logs ++ readable date2Time rows).length < 1024 ∧
        (scanLogs date2Time rows s).result = Nc.errProtocol ∨
      ¬ (Broken date2Time rows ∧ (s.logs ++ readable date2Time rows).length < 1024) ∧
        (scanLogs date2Time rows s).result = s.result)
  | [], s, hs => by
    have hnone : ¬ Broken date2Time [] := by simp [Broken]
    refine ⟨?_, .inr ⟨fun h => hnone h.1, rfl⟩⟩
    rw [readable, List.append_nil]
    exact (List.take_of_length_le hs).symm
  | row :: rows, s, hs => by
    rw [scanLogs]
    by_cases hfull : 1024 ≤ s.logs.length
    · rw [if_pos hfull]
      refine ⟨?_, .inr ⟨fun h => ?_, rfl⟩⟩
      · rw [List.take_append_of_le_length hfull, List.take_of_length_le hs]
      · have hlen := h.2
        rw [List.length_append] at hlen
        omega
    rw [if_neg hfull]
    rcases scanLog_eq date2Time row s with ⟨hrow, s', hscan, hlogs, hresult⟩ | ⟨p, log, s', hrow, hscan, hlogs, hresult, -⟩
    · rw [hscan, readable, hrow]
      dsimp only
      rw [List.append_nil]
      refine ⟨by rw [hlogs, List.take_of_length_le hs], .inl ⟨⟨row, List.mem_cons_self .., hrow⟩, by omega, rfl⟩⟩
    · have hs' : s'.logs.length ≤ 1024 := by
        rw [hlogs, List.length_append]
        have : log.toList.length ≤ 1 := by cases log <;> simp
        omega
      have ih := scanLogs_eq rows s' hs'
      rw [hlogs, List.append_assoc, hresult, ← readable_cons hrow, ← broken_cons rows hrow] at ih
      rw [hscan]
      exact ih

/-- Behind a page that was read to its end the position is that of its last entry. -/
theorem scanLogs_position {row : List UInt8} {p : ℤ} {log : Option Qh.LogV2} (hrow : logOf date2Time row = some (p, log)) :
    ∀ (rows : List (List UInt8)) (s : LogSearch), ¬ Broken date2Time rows →
    (s.logs ++ readable date2Time (rows ++ [row])).length < 1024 → (scanLogs date2Time (rows ++ [row]) s).position = p
  | [], s, _, hroom => by
    rw [List.length_append] at hroom
    rw [List.nil_append, scanLogs, if_neg (by omega)]
    rcases scanLog_eq date2Time row s with ⟨hnone, -⟩ | ⟨p', log', s', hsome, hscan, -, -, hp⟩
    · rw [hrow] at hnone
      cases hnone
    · rw [hrow] at hsome
      cases hsome
      rw [hscan]
      exact hp
  | first :: rows, s, hbroken, hroom => by
    rw [List.cons_append, scanLogs, if_neg (by rw [List.length_append] at hroom; omega)]
    rcases scanLog_eq date2Time first s with ⟨hnone, -⟩ | ⟨p', log', s', hsome, hscan, hlogs, -, -⟩
    · exact absurd ⟨first, List.mem_cons_self .., hnone⟩ hbroken
    · rw [hscan]
      refine scanLogs_position hrow rows s' ((broken_cons rows hsome).not.mp hbroken) ?_
      rwa [List.cons_append, readable_cons hsome, ← List.append_assoc, ← hlogs] at hroom

/-! ## The search -/

structure PageOf (data : List UInt8) (rows : List (List UInt8)) : Prop where
  ret : getNumber data (ascii "Ret") = some xmRetOk
  array : ArrayAt (ascii "OPLogQuery") data rows
  few : rows.length ≤ 1024
  short : ∀ r ∈ rows, r.length < 256

def Refused (data : List UInt8) : Prop :=
  getNumber data (ascii "Ret") ≠ some xmRetOk ∨ ∃ fuel, getArray fuel data (ascii "OPLogQuery") 1024 256 = some none

theorem takePage_page_iff {data : List UInt8} {s s' : LogSearch} {more : Bool} :
    (∃ fuel, takePage date2Time fuel data s = some (more, s')) ↔
      Refused data ∧ more = false ∧ s' = { s with result := Nc.errProtocol } ∨
      ∃ rows, PageOf data rows ∧ more = decide (128 ≤ rows.length) ∧ s' = (scanLogs date2Time rows s).forward := by
  unfold takePage
  by_cases hret : getNumber data (ascii "Ret") = some xmRetOk
  · simp only [ne_eq, hret, not_true_eq_false, if_false, Option.map_eq_some_iff]
    constructor
    · rintro ⟨fuel, found, hget, heq⟩
      cases found with
      | none =>
        cases heq
        exact .inl ⟨.inr ⟨fuel, hget⟩, rfl, rfl⟩
      | some rows =>
        cases heq
        obtain ⟨harray, hfew, hshort⟩ := getArray_iff.mp ⟨fuel, hget⟩
        exact .inr ⟨rows, ⟨hret, harray, hfew, hshort⟩, rfl, rfl⟩
    · rintro (⟨hrefused, rfl, rfl⟩ | ⟨rows, hpage, rfl, rfl⟩)
      · rcases hrefused with h | ⟨fuel, hget⟩
        · exact absurd hret h
        · exact ⟨fuel, none, hget, rfl⟩
      · obtain ⟨fuel, hget⟩ := getArray_iff.mpr ⟨hpage.array, hpage.few, hpage.short⟩
        exact ⟨fuel, some rows, hget, rfl⟩
  · simp only [ne_eq, hret, not_false_eq_true, if_true, Option.some.injEq, Prod.mk.injEq, exists_const]
    constructor
    · rintro ⟨rfl, rfl⟩
      exact .inl ⟨.inl hret, rfl, rfl⟩
    · rintro (⟨-, rfl, rfl⟩ | ⟨rows, hpage, -⟩)
      · exact ⟨rfl, rfl⟩
      · exact absurd hpage.ret hret

/-- How the loop over the requests ends. -/
inductive Ends (date2Time : ToolDate → UInt32) (dev : ℕ → ℤ → Answer) : ℕ → LogSearch → LogSearch → Prop
  | full {k : ℕ} {s : LogSearch} (h : 1024 ≤ s.logs.length) : Ends date2Time dev k s s
  | unsent {k : ℕ} {s : LogSearch} (h : s.logs.length < 1024) (ha : dev k s.position = .unsent) :
    Ends date2Time dev k s { s with result := Nc.errSend }
  | lost {k : ℕ} {s : LogSearch} (h : s.logs.length < 1024) (ha : dev k s.position = .lost) :
    Ends date2Time dev k s { s with result := Nc.errRecv }
  | refused {k : ℕ} {s : LogSearch} {data : List UInt8} (h : s.logs.length < 1024) (ha : dev k s.position = .text data)
    (hr : Refused data) : Ends date2Time dev k s { s with result := Nc.errProtocol }
  | last {k : ℕ} {s : LogSearch} {data : List UInt8} {rows : List (List UInt8)} (h : s.logs.length < 1024)
    (ha : dev k s.position = .text data) (hp : PageOf data rows) (hlen : rows.length < 128) :
    Ends date2Time dev k s (scanLogs date2Time rows s).forward
  | more {k : ℕ} {s r : LogSearch} {data : List UInt8} {rows : List (List UInt8)} (h : s.logs.length < 1024)
    (ha : dev k s.position = .text data) (hp : PageOf data rows) (hlen : 128 ≤ rows.length)
    (he : Ends date2Time dev (k + 1) (scanLogs date2Time rows s).forward r) : Ends date2Time dev k s r

theorem ends_of_searchLogs {dev : ℕ → ℤ → Answer} {r : LogSearch} : ∀ {fuel k : ℕ} {s : LogSearch},
    searchLogs date2Time dev fuel k s = some r → Ends date2Time dev k s r
  | fuel + 1, k, s, h => by
    rw [searchLogs] at h
    by_cases hfull : 1024 ≤ s.logs.length
    · rw [if_pos hfull] at h
      cases h
      exact .full hfull
    rw [if_neg hfull] at h
    have hroom : s.logs.length < 1024 := Nat.lt_of_not_le hfull
    cases ha : dev k s.position with
    | unsent =>
      rw [ha] at h
      cases h
      exact .unsent hroom ha
    | lost =>
      rw [ha] at h
      cases h
      exact .lost hroom ha
    | text data =>
      rw [ha] at h
      dsimp only at h
      cases htake : takePage date2Time fuel data s with
      | none => rw [htake] at h; cases h
      | some x =>
        obtain ⟨more, s'⟩ := x
        rw [htake] at h
        rcases takePage_page_iff.mp ⟨fuel, htake⟩ with ⟨hr, rfl, rfl⟩ | ⟨rows, hp, hmore, rfl⟩
        · cases h
          exact .refused hroom ha hr
        · by_cases hlen : 128 ≤ rows.length
          · obtain rfl : more = true := by rw [hmore, decide_eq_true hlen]
            exact .more hroom ha hp hlen (ends_of_searchLogs h)
          · obtain rfl : more = false := by rw [hmore, decide_eq_false hlen]
            cases h
            exact .last hroom ha hp (Nat.lt_of_not_le hlen)

theorem takePage_more {fuel fuel' : ℕ} {data : List UInt8} {s : LogSearch} {x : Bool × LogSearch}
    (h : takePage date2Time fuel data s = some x) (hle : fuel ≤ fuel') : takePage date2Time fuel' data s = some x := by
  unfold takePage at h ⊢
  split
  · next hret => rwa [if_pos hret] at h
  · next hret =>
    rw [if_neg hret, Option.map_eq_some_iff] at h
    obtain ⟨found, hget, rfl⟩ := h
    rw [getArray_more hget hle]
    rfl

theorem searchLogs_more {dev : ℕ → ℤ → Answer} {r : LogSearch} : ∀ {fuel fuel' k : ℕ} {s : LogSearch},
    searchLogs date2Time dev fuel k s = some r → fuel ≤ fuel' → searchLogs date2Time dev fuel' k s = some r
  | fuel + 1, fuel' + 1, k, s, h, hle => by
    have hle' := Nat.le_of_succ_le_succ hle
    rw [searchLogs] at h ⊢
    by_cases hfull : 1024 ≤ s.logs.length
    · rwa [if_pos hfull] at h ⊢
    rw [if_neg hfull] at h ⊢
    cases ha : dev k s.position with
    | text data =>
      rw [ha] at h
      dsimp only at h ⊢
      cases htake : takePage date2Time fuel data s with
      | none => rw [htake] at h; cases h
      | some x =>
        obtain ⟨more, s'⟩ := x
        rw [takePage_more htake hle']
        rw [htake] at h
        cases more with
        | true => exact searchLogs_more h hle'
        | false => exact h
    | _ =>
      rw [ha] at h
      exact h

/-- An answer's text and then the rest of the search. -/
theorem searchLogs_take (more : Bool) {dev : ℕ → ℤ → Answer} {k : ℕ} {s s' r : LogSearch} {data : List UInt8}
    (h : s.logs.length < 1024) (ha : dev k s.position = .text data)
    (htake : ∃ fuel, takePage date2Time fuel data s = some (more, s'))
    (hrest : ∃ fuel, (if more then searchLogs date2Time dev fuel (k + 1) s' else some s') = some r) :
    ∃ fuel, searchLogs date2Time dev fuel k s = some r := by
  obtain ⟨fuel, htake⟩ := htake
  obtain ⟨fuel', hrest⟩ := hrest
  refine ⟨max fuel fuel' + 1, ?_⟩
  rw [searchLogs, if_neg (Nat.not_le_of_lt h), ha]
  dsimp only
  rw [takePage_more htake (Nat.le_max_left ..)]
  cases more with
  | true => exact searchLogs_more hrest (Nat.le_max_right ..)
  | false => exact hrest

theorem searchLogs_of_ends {dev : ℕ → ℤ → Answer} {k : ℕ} {s r : LogSearch} (h : Ends date2Time dev k s r) :
    ∃ fuel, searchLogs date2Time dev fuel k s = some r := by
  induction h with
  | full h => exact ⟨1, by rw [searchLogs, if_pos h]⟩
  | unsent h ha | lost h ha => exact ⟨1, by rw [searchLogs, if_neg (Nat.not_le_of_lt h), ha]⟩
  | refused h ha hr => exact searchLogs_take false h ha (takePage_page_iff.mpr (.inl ⟨hr, rfl, rfl⟩)) ⟨0, rfl⟩
  | last h ha hp hlen =>
    refine searchLogs_take false h ha (takePage_page_iff.mpr (.inr ⟨_, hp, ?_, rfl⟩)) ⟨0, rfl⟩
    exact (decide_eq_false (Nat.not_le_of_lt hlen)).symm
  | more h ha hp hlen _ ih =>
    exact searchLogs_take true h ha (takePage_page_iff.mpr (.inr ⟨_, hp, (decide_eq_true hlen).symm, rfl⟩)) ih

theorem Ends.unique {dev : ℕ → ℤ → Answer} {k : ℕ} {s r r' : LogSearch} (h : Ends date2Time dev k s r)
    (h' : Ends date2Time dev k s r') : r = r' := by
  obtain ⟨fuel, h⟩ := searchLogs_of_ends h
  obtain ⟨fuel', h'⟩ := searchLogs_of_ends h'
  have h₁ := searchLogs_more h (Nat.le_max_left fuel fuel')
  have h₂ := searchLogs_more h' (Nat.le_max_right fuel fuel')
  exact Option.some.inj (h₁.symm.trans h₂)

end

end Xm

end SabApp
