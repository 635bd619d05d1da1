import SabApp.CloudAnswers
import SabApp.QhLists

/-!
# Log searches of the QH protocol (tool_ptc.c)

The encoder prints each log entry into a buffer of 128 bytes. An entry that is longer is cut, though `head.len` counts
all of it, and a brace in the data of an entry ends its row in the decoder. A list is given back as it was sent when
neither happens.
-/

namespace SabApp

namespace Qh

open CText ToolJson2

/-- `ptc_log_v2_t`, with the text in `data`. -/
structure LogV2 where
  time : UInt32
  type : UInt8
  subType : UInt8
  channel : UInt8
  chType : UInt8
  subType2 : UInt16
  ip : UInt8 × UInt8 × UInt8 × UInt8
  data : List UInt8
  deriving DecidableEq

/-- PTC_LOGS_SIZE -/
def logsSize : ℕ := 1024

/-- The size of `tmp_buf` in the encoder. -/
def logBufSize : ℕ := 128

def ipText (ip : UInt8 × UInt8 × UInt8 × UInt8) : List UInt8 :=
  List.flatten [Decimal.decimal ip.1.toNat, ascii ".", Decimal.decimal ip.2.1.toNat, ascii ".",
    Decimal.decimal ip.2.2.1.toNat, ascii ".", Decimal.decimal ip.2.2.2.toNat]

/-- What `snprintf` prints of an entry before the data. -/
def logFront (e : LogV2) : List UInt8 :=
  List.flatten [ascii "\x7b\"time\":\"", Decimal.decimal (signed e.time), ascii "\",\"type\":\"",
    Decimal.decimal e.type.toNat, ascii "\",\"sub_type\":\"", Decimal.decimal e.subType.toNat, ascii "\",\"channel\":\"",
    Decimal.decimal e.channel.toNat, ascii "\",\"ch_type\":\"", Decimal.decimal e.chType.toNat,
    ascii "\",\"sub_type2\":\"", Decimal.decimal e.subType2.toNat, ascii "\",\"ip\":\"", ipText e.ip, ascii "\",\"data\":\""]

def logText (e : LogV2) : List UInt8 := logFront e ++ (e.data ++ ascii "\"\x7d")

/-- `tool_ptc_qh_d2c_encode_getLogs`: `head.len` and the data, or -1. -/
def tool_ptc_qh_d2c_encode_getLogs (logs : List LogV2) : Option (ℕ × List UInt8) :=
  if logs.length > logsSize then none else some (encodeList logText logBufSize "log" logs)

/-- `sscanf` with `%d.%d.%d.%d`, where it finds all four. -/
def scanIpv4 (bs : List UInt8) : Option (ℤ × ℤ × ℤ × ℤ) :=
  match CloudHttp.scanInt bs with
  | some (a, 46 :: bs) =>
    match CloudHttp.scanInt bs with
    | some (b, 46 :: bs) =>
      match CloudHttp.scanInt bs with
      | some (c, 46 :: bs) => (CloudHttp.scanInt bs).map fun d => (a, b, c, d.1)
      | _ => none
    | _ => none
  | _ => none

/-- `tool_json2_getIpv4` -/
def getIpv4 (str name : List UInt8) : Option (UInt8 × UInt8 × UInt8 × UInt8) :=
  ((value64 str name).bind scanIpv4).map fun ip =>
    (UInt8.ofInt ip.1, UInt8.ofInt ip.2.1, UInt8.ofInt ip.2.2.1, UInt8.ofInt ip.2.2.2)

/-- An entry from its row, if no member is missing. -/
def readLog (row : List UInt8) : Option LogV2 := do
  let time ← getNumber row (ascii "time")
  let type ← getNumber row (ascii "type")
  let subType ← getNumber row (ascii "sub_type")
  let channel ← getNumber row (ascii "channel")
  let chType ← getNumber row (ascii "ch_type")
  let subType2 ← getNumber row (ascii "sub_type2")
  let ip ← getIpv4 row (ascii "ip")
  let data ← value64 row (ascii "data")
  some ⟨UInt32.ofInt time, UInt8.ofInt type, UInt8.ofInt subType, UInt8.ofInt channel, UInt8.ofInt chType,
    UInt16.ofInt subType2, ip, data⟩

/-- `tool_ptc_qh_d2c_decode_getLogs` into a list of logs, where it returns. What goes wrong with the array leaves the
result at 0. -/
def tool_ptc_qh_d2c_decode_getLogs (fuel : ℕ) (data : List UInt8) (logs : List LogV2) : Option (ℤ × List LogV2) :=
  match getNumber data (ascii "result") with
  | none => some (-8, logs)
  | some ret =>
    if ret ≠ 0 then some (Int.bmod (ret * -1) (2 ^ 32), logs)
    else
      (getArray fuel data (ascii "log") logsSize rowSize).map fun found =>
        match found with
        | none => (0, [])
        | some rows => (0, readRows readLog (rows.take logsSize))

/-- What the `data` of an entry may be. -/
structure LogV2.Sendable (e : LogV2) : Prop where
  short : e.data.length ≤ 63
  no_quote : 34 ∉ e.data
  no_zero : 0 ∉ e.data

/-- The length of an entry as it is printed. -/
def LogV2.textLength (e : LogV2) : ℕ :=
  97 + (Decimal.decimal (signed e.time)).length + (Decimal.decimal e.type.toNat).length +
    (Decimal.decimal e.subType.toNat).length + (Decimal.decimal e.channel.toNat).length +
    (Decimal.decimal e.chType.toNat).length + (Decimal.decimal e.subType2.toNat).length +
    (Decimal.decimal e.ip.1.toNat).length + (Decimal.decimal e.ip.2.1.toNat).length +
    (Decimal.decimal e.ip.2.2.1.toNat).length + (Decimal.decimal e.ip.2.2.2.toNat).length + e.data.length

/-- The list comes back from what is sent of it, and `head.len` is the length of the text. -/
def LogsReturn (logs old : List LogV2) : Prop :=
  ∃ len data, tool_ptc_qh_d2c_encode_getLogs logs = some (len, data) ∧ len = data.length ∧
    ∃ fuel, tool_ptc_qh_d2c_decode_getLogs fuel data old = some (0, logs)

/-! ## The text of an entry -/

theorem length_logText (e : LogV2) : (logText e).length = e.textLength := by
  simp only [logText, logFront, ipText, List.flatten_cons, List.flatten_nil, List.length_append, List.length_nil,
    LogV2.textLength]
  have h (s : String) : (ascii s).length = s.toList.length := by simp [ascii]
  simp only [h]
  simp
  omega

theorem length_ipText (ip : UInt8 × UInt8 × UInt8 × UInt8) : (ipText ip).length =
    3 + (Decimal.decimal ip.1.toNat).length + (Decimal.decimal ip.2.1.toNat).length +
      (Decimal.decimal ip.2.2.1.toNat).length + (Decimal.decimal ip.2.2.2.toNat).length := by
  have hdot : (ascii ".").length = 1 := rfl
  simp only [ipText, List.flatten_cons, List.flatten_nil, List.length_append, List.length_nil, hdot]
  omega

theorem length_ipText_le (ip : UInt8 × UInt8 × UInt8 × UInt8) : (ipText ip).length ≤ 47 := by
  have h₁ := length_byte_le ip.1
  have h₂ := length_byte_le ip.2.1
  have h₃ := length_byte_le ip.2.2.1
  have h₄ := length_byte_le ip.2.2.2
  rw [length_ipText]
  omega

theorem textLength_le {e : LogV2} (h : e.Sendable) : e.textLength ≤ 300 := by
  have hdata := h.short
  have htime := length_signed_le e.time
  have htype := length_byte_le e.type
  have hsub := length_byte_le e.subType
  have hch := length_byte_le e.channel
  have hcht := length_byte_le e.chType
  have hsub2 : (Decimal.decimal (e.subType2.toNat : ℤ)).length ≤ 11 :=
    Decimal.length_decimal_le (by omega) (by have := e.subType2.toNat_lt; omega)
  have hip := length_ipText_le e.ip
  rw [length_ipText] at hip
  unfold LogV2.textLength
  omega

theorem isNumber_of_mem_ipText {ip : UInt8 × UInt8 × UInt8 × UInt8} {c : UInt8} (h : c ∈ ipText ip) :
    isNumber c = true := by
  have hdot : ascii "." = [46] := rfl
  simp only [ipText, List.flatten_cons, List.flatten_nil, List.append_nil, List.mem_append, hdot,
    List.mem_singleton] at h
  rcases h with h | rfl | h | rfl | h | rfl | h
  all_goals first | exact isNumber_of_mem_decimal h | rfl

theorem not_mem_ipText {ip : UInt8 × UInt8 × UInt8 × UInt8} {c : UInt8} (hc : isNumber c = false) : c ∉ ipText ip := by
  intro h
  rw [isNumber_of_mem_ipText h] at hc
  cases hc

theorem brace_not_mem_logFront (e : LogV2) : 125 ∉ logFront e := by
  have hd (n : ℤ) : (125 : UInt8) ∉ Decimal.decimal n := Decimal.not_mem_decimal (by decide)
  have hi : (125 : UInt8) ∉ ipText e.ip := not_mem_ipText (by decide)
  simp only [logFront, List.flatten_cons, List.flatten_nil, List.mem_append, hd, hi, false_or]
  decide

/-- An address as the value of a member. -/
def ipPlain (ip : UInt8 × UInt8 × UInt8 × UInt8) : Plain :=
  ⟨ipText ip, not_mem_ipText (by decide), not_mem_ipText (by decide)⟩

/-- The members of an entry. -/
def logMembers (e : LogV2) (h : e.Sendable) : List (Plain × Plain) :=
  [(.ofAscii "time", .decimal (signed e.time)), (.ofAscii "type", .decimal e.type.toNat),
    (.ofAscii "sub_type", .decimal e.subType.toNat), (.ofAscii "channel", .decimal e.channel.toNat),
    (.ofAscii "ch_type", .decimal e.chType.toNat), (.ofAscii "sub_type2", .decimal e.subType2.toNat),
    (.ofAscii "ip", ipPlain e.ip), (.ofAscii "data", ⟨e.data, h.no_quote, h.no_zero⟩)]

theorem logText_eq (e : LogV2) (h : e.Sendable) : logText e = (JsonText.ofStrings (logMembers e h)).text := by
  rw [logMembers, ofStrings_text]
  simp only [logText, logFront, List.flatten_cons, List.flatten_nil, List.append_assoc, List.nil_append]
  rfl

theorem clear_logMembers (e : LogV2) (h : e.Sendable) : Clear (logMembers e h) := by
  have hd (n : ℤ) : ∀ c ∈ (Plain.decimal n).text, isNumber c = true := fun c hc => isNumber_of_mem_decimal hc
  refine clear_of_numbers (logMembers e h).dropLast (.ofAscii "data", ⟨e.data, h.no_quote, h.no_zero⟩)
    [ascii "time", ascii "type", ascii "sub_type", ascii "channel", ascii "ch_type", ascii "sub_type2", ascii "ip",
      ascii "data"] rfl (by decide) (by decide) ?_
  simp only [logMembers, List.dropLast, List.forall_mem_cons]
  exact ⟨hd _, hd _, hd _, hd _, hd _, hd _, fun c hc => isNumber_of_mem_ipText hc, nofun⟩

/-! ## Reading an entry back -/

theorem scanInt_decimal {n : ℤ} (h₁ : -2 ^ 31 ≤ n) (h₂ : n < 2 ^ 31) {t : List UInt8}
    (ht : ∀ c u, t = c :: u → ToolJson.isDigit c = false) :
    CloudHttp.scanInt (Decimal.decimal n ++ t) = some (n, t) := by
  have hd := Decimal.isDigit_of_mem_digits (n := n.natAbs)
  have hdrop := CText.dropWhile_stop hd ht
  have htake := CText.takeWhile_stop hd ht
  have hne := Decimal.digits_ne_nil n.natAbs
  have hval := Decimal.atoi_decimal h₁ h₂ ht
  rcases Decimal.decimal_cases n with ⟨-, he⟩ | ⟨-, d, ds, hdig, hds, he⟩
  · rw [he, List.cons_append] at hval ⊢
    have hsp : (45 :: (Decimal.digits n.natAbs ++ t)).dropWhile ToolJson.isSpace = 45 :: (Decimal.digits n.natAbs ++ t) :=
      List.dropWhile_cons_of_neg (by decide)
    simp only [CloudHttp.scanInt, hsp, hval, List.take_succ_cons, List.take_zero, or_true, if_true, List.drop_succ_cons,
      List.drop_zero, htake, hdrop]
    rw [if_neg hne]
  · have hsign : ¬ ([d] = [43] ∨ [d] = [45]) := by
      rintro (h | h) <;> (cases h; cases hdig)
    have hsp : (d :: (ds ++ t)).dropWhile ToolJson.isSpace = d :: (ds ++ t) :=
      List.dropWhile_cons_of_neg (by simp [ToolJson.not_isSpace_of_isDigit hdig])
    rw [hds, List.cons_append] at hdrop htake
    rw [he, List.cons_append] at hval ⊢
    simp only [CloudHttp.scanInt, hsp, hval, List.take_succ_cons, List.take_zero, if_neg hsign, List.drop_zero, htake,
      hdrop]
    rw [if_neg (by simp)]

theorem scanIpv4_ipText (ip : UInt8 × UInt8 × UInt8 × UInt8) :
    scanIpv4 (ipText ip) = some ((ip.1.toNat : ℤ), (ip.2.1.toNat : ℤ), (ip.2.2.1.toNat : ℤ), (ip.2.2.2.toNat : ℤ)) := by
  have hdot (n : UInt8) (u : List UInt8) : CloudHttp.scanInt (Decimal.decimal n.toNat ++ 46 :: u) =
      some ((n.toNat : ℤ), 46 :: u) := by
    refine scanInt_decimal (by omega) (by have := n.toNat_lt; omega) ?_
    rintro c u ⟨⟩
    rfl
  have hend : CloudHttp.scanInt (Decimal.decimal ip.2.2.2.toNat ++ []) = some ((ip.2.2.2.toNat : ℤ), []) :=
    scanInt_decimal (by omega) (by have := ip.2.2.2.toNat_lt; omega) nofun
  have heq : ipText ip = Decimal.decimal ip.1.toNat ++ 46 :: (Decimal.decimal ip.2.1.toNat ++ 46 ::
      (Decimal.decimal ip.2.2.1.toNat ++ 46 :: (Decimal.decimal ip.2.2.2.toNat ++ []))) := rfl
  simp only [scanIpv4, heq, hdot, hend, Option.map_some]

theorem readLog_logText {e : LogV2} (h : e.Sendable) : readLog (logText e) = some e := by
  have hc := clear_logMembers e h
  have hbyte (s : Plain) (n : UInt8) (hm : (s, Plain.decimal n.toNat) ∈ logMembers e h) := getNumber_byte hc hm
  have hmem : (Plain.ofAscii "time", Plain.decimal (signed e.time)) ∈ logMembers e h := by simp [logMembers]
  have htime := getNumber_signed hc hmem
  have htype := hbyte (.ofAscii "type") e.type (by simp [logMembers])
  have hsub := hbyte (.ofAscii "sub_type") e.subType (by simp [logMembers])
  have hch := hbyte (.ofAscii "channel") e.channel (by simp [logMembers])
  have hcht := hbyte (.ofAscii "ch_type") e.chType (by simp [logMembers])
  have hmem2 : (Plain.ofAscii "sub_type2", Plain.decimal e.subType2.toNat) ∈ logMembers e h := by simp [logMembers]
  have hsub2 := getNumber_member hc hmem2 (by omega) (by have := e.subType2.toNat_lt; omega)
  have hip : getIpv4 (JsonText.ofStrings (logMembers e h)).text (ascii "ip") = some e.ip := by
    have hlen : (ipPlain e.ip).text.length < 64 := Nat.lt_of_le_of_lt (length_ipText_le e.ip) (by decide)
    have hm : (Plain.ofAscii "ip", ipPlain e.ip) ∈ logMembers e h := by simp [logMembers]
    have hv := value64_member hc hm hlen
    have hs := scanIpv4_ipText e.ip
    rw [getIpv4, show ascii "ip" = (Plain.ofAscii "ip").text from rfl, hv, Option.bind_some,
      show (ipPlain e.ip).text = ipText e.ip from rfl, hs, Option.map_some]
    simp only [ofInt_toNat8]
  have hlast : (Plain.ofAscii "data", ⟨e.data, h.no_quote, h.no_zero⟩) ∈ logMembers e h := by simp [logMembers]
  have hdata := value64_member hc hlast (Nat.lt_succ_of_le h.short)
  simp only [Plain.ofAscii] at htime htype hsub hch hcht hsub2 hdata
  rw [logText_eq e h]
  simp only [readLog, htime, htype, hsub, hch, hcht, hsub2, hip, hdata, Option.bind_eq_bind, Option.bind_some,
    ofInt_signed, ofInt_toNat8, ofInt_toNat16]

theorem isRow_logText {e : LogV2} (hl : (logText e).length < rowSize) (hb : 125 ∉ e.data) :
    IsRow rowSize (logText e) := by
  obtain ⟨t, ht⟩ : ∃ t, logFront e = 123 :: t := ⟨_, rfl⟩
  have htb : 125 ∉ t := fun h => brace_not_mem_logFront e (ht ▸ List.mem_cons_of_mem _ h)
  refine ⟨t ++ (e.data ++ [34]), ?_, ?_, hl⟩
  · rw [logText, ht]
    simp [ascii]
  · simp [htb, hb]

/-! ## The list -/

/-- The text of a list with no entry cut. -/
def logsData (logs : List LogV2) : List UInt8 := opening "log" logs.length ++ commas (logs.map logText) ++ ascii "]\x7d"

theorem encode_getLogs_eq {logs : List LogV2} (hn : logs.length ≤ logsSize) (hd : ∀ e ∈ logs, e.Sendable) :
    tool_ptc_qh_d2c_encode_getLogs logs = some ((logsData logs).length, opening "log" logs.length ++
      commas (logs.map fun e => (logText e).take (logBufSize - 1)) ++ ascii "]\x7d") := by
  have htext : ∀ e ∈ logs, (logText e).length ≤ 300 := fun e he => length_logText e ▸ textLength_le (hd e he)
  rw [tool_ptc_qh_d2c_encode_getLogs, if_neg (Nat.not_lt.mpr hn),
    encodeList_bounded logText logBufSize (by decide) hn htext (by decide)]
  rfl

/-- `head.len` is right exactly where no entry is cut. -/
theorem encode_getLogs_length {logs : List LogV2} (hn : logs.length ≤ logsSize) (hd : ∀ e ∈ logs, e.Sendable) {len : ℕ}
    {data : List UInt8} (h : tool_ptc_qh_d2c_encode_getLogs logs = some (len, data)) :
    len = data.length ↔ ∀ e ∈ logs, e.textLength ≤ 127 := by
  rw [encode_getLogs_eq hn hd] at h
  cases h
  have htake := length_commas_take (logBufSize - 1) (logs.map logText)
  rw [List.map_map] at htake
  have hall : (∀ t ∈ logs.map logText, t.length ≤ logBufSize - 1) ↔ ∀ e ∈ logs, e.textLength ≤ 127 := by
    simp only [List.mem_map, forall_exists_index, and_imp, forall_apply_eq_imp_iff₂, length_logText]
    rfl
  rw [← hall, ← htake, logsData]
  simp only [List.length_append]
  constructor
  · intro h
    have : (commas (logs.map logText)).length =
        (commas (logs.map fun e => (logText e).take (logBufSize - 1))).length := by omega
    exact this
  · intro h
    have : (commas (logs.map logText)).length =
        (commas (logs.map fun e => (logText e).take (logBufSize - 1))).length := h
    omega

theorem encode_getLogs_whole {logs : List LogV2} (hn : logs.length ≤ logsSize) (hd : ∀ e ∈ logs, e.Sendable)
    (hlen : ∀ e ∈ logs, e.textLength ≤ 127) :
    tool_ptc_qh_d2c_encode_getLogs logs = some ((logsData logs).length, logsData logs) := by
  have hmap : (logs.map fun e => (logText e).take (logBufSize - 1)) = logs.map logText := by
    refine List.map_congr_left fun e he => List.take_of_length_le ?_
    rw [length_logText]
    exact hlen e he
  rw [encode_getLogs_eq hn hd, hmap]
  rfl

theorem logsData_found (logs : List LogV2) : strstr (ascii "log") (logsData logs) =
    some (ascii "log" ++ 34 :: 58 :: 91 :: (commas (logs.map logText) ++ 93 :: [125])) := by
  rw [logsData, List.append_assoc]
  exact strstr_opening "log" rfl (by decide) (by decide) (by decide) logs.length _

theorem decode_logsData (fuel : ℕ) (logs old : List LogV2) :
    tool_ptc_qh_d2c_decode_getLogs fuel (logsData logs) old =
      (getArray fuel (logsData logs) (ascii "log") logsSize rowSize).map fun found =>
        match found with
        | none => (0, [])
        | some rows => (0, readRows readLog (rows.take logsSize)) := by
  have hres : getNumber (logsData logs) (ascii "result") = some 0 := by
    rw [logsData, List.append_assoc]
    exact getNumber_opening "log" logs.length _
  rw [tool_ptc_qh_d2c_decode_getLogs, hres]
  rfl

theorem isRow_of_short {e : LogV2} (hlen : e.textLength ≤ 127) (hb : 125 ∉ e.data) : IsRow rowSize (logText e) := by
  refine isRow_logText ?_ hb
  rw [length_logText, show rowSize = 512 from rfl]
  omega

theorem decode_whole {logs : List LogV2} (hn : logs.length ≤ logsSize) (hd : ∀ e ∈ logs, e.Sendable)
    (h : ∀ e ∈ logs, e.textLength ≤ 127 ∧ 125 ∉ e.data) (fuel : ℕ) (old : List LogV2) :
    tool_ptc_qh_d2c_decode_getLogs (fuel + 1) (logsData logs) old = some (0, logs) := by
  have hrows : ∀ r ∈ logs.map logText, IsRow rowSize r :=
    List.forall_mem_map.mpr fun e he => isRow_of_short (h e he).1 (h e he).2
  have harr := getArray_commas (logsData_found logs) (x := logsSize) (by simpa using hn) hrows fuel
  rw [decode_logsData, harr, Option.map_some]
  simp only
  rw [List.take_of_length_le (by simpa using hn), readRows_map fun e he => readLog_logText (hd e he)]

theorem data_of_readLog {row : List UInt8} {e : LogV2} (h : readLog row = some e) :
    value64 row (ascii "data") = some e.data := by
  simp only [readLog, Option.bind_eq_bind, Option.bind_eq_some_iff, Option.some.injEq] at h
  obtain ⟨_, -, _, -, _, -, _, -, _, -, _, -, _, -, data, hdata, rfl⟩ := h
  exact hdata

/-- An entry with a brace in its data: its row ends there, and what is left has to go on with the array. -/
theorem brace_row {e : LogV2} (hlen : e.textLength ≤ 127) {v w : List UInt8} (hdata : e.data = v ++ 125 :: w)
    (hv : 125 ∉ v) : ∃ s, 125 ∉ s ∧ IsRow rowSize (123 :: (s ++ [125])) ∧
      logText e = 123 :: (s ++ [125]) ++ (w ++ ascii "\"\x7d") := by
  obtain ⟨front, hfront⟩ : ∃ t, logFront e = 123 :: t := ⟨_, rfl⟩
  have hb : 125 ∉ front := fun h => brace_not_mem_logFront e (hfront ▸ List.mem_cons_of_mem _ h)
  have hs : 125 ∉ front ++ v := by simp [hb, hv]
  have htext : logText e = 123 :: (front ++ v ++ [125]) ++ (w ++ ascii "\"\x7d") := by
    rw [logText, hfront, hdata]
    simp
  refine ⟨front ++ v, hs, ⟨front ++ v, rfl, hs, ?_⟩, htext⟩
  have hl := congrArg List.length htext
  rw [length_logText, List.length_append] at hl
  rw [show rowSize = 512 from rfl]
  omega

theorem readLog_cut {s v w : List UInt8} {e : LogV2} (hs : 125 ∉ s) (hdata : e.data = v ++ 125 :: w) (hw : w ≠ []) :
    readLog (123 :: (s ++ [125])) ≠ some e := by
  intro h
  rcases value64_stretch (data_of_readLog h) with hi | hlit
  · have hs' : (125 : UInt8) ∉ 123 :: s := by simpa using hs
    rw [hdata, ← List.cons_append] at hi
    exact hw (eq_nil_of_stretch hs' hi)
  · have hno : ∀ l ∈ [ascii "false", ascii "true", ascii "null"], (125 : UInt8) ∉ l := by decide
    exact hno _ hlit (by simp [hdata])

theorem rows_brace {s w t : List UInt8} (hrow : IsRow rowSize (123 :: (s ++ [125]))) {x : ℕ} {L : List (List UInt8)}
    (h : rows rowSize x (123 :: (s ++ [125]) ++ (w ++ ascii "\"\x7d") ++ t) = some L) :
    w ≠ [] ∧ ∃ L', L = (123 :: (s ++ [125])) :: L' := by
  cases x with
  | zero => cases h
  | succ x =>
    rw [List.append_assoc, rows_row hrow] at h
    refine ⟨?_, ?_⟩
    · rintro rfl
      cases h
    · split at h
      · cases h
        exact ⟨[], rfl⟩
      · rw [Option.map_eq_some_iff] at h
        obtain ⟨L', -, rfl⟩ := h
        exact ⟨L', rfl⟩
      · cases h

theorem decode_brace (pre post : List LogV2) {e : LogV2} (hpre : ∀ a ∈ pre, IsRow rowSize (logText a))
    (hlen : e.textLength ≤ 127) {v w : List UInt8} (hdata : e.data = v ++ 125 :: w) (hv : 125 ∉ v)
    (hn : (pre ++ e :: post).length ≤ logsSize) (fuel : ℕ) (old : List LogV2) :
    tool_ptc_qh_d2c_decode_getLogs fuel (logsData (pre ++ e :: post)) old ≠ some (0, pre ++ e :: post) := by
  intro h
  obtain ⟨s, hs, hrow, htext⟩ := brace_row hlen hdata hv
  have hus : ∀ u ∈ pre.map logText, IsRow rowSize u := List.forall_mem_map.mpr hpre
  -- the array from its first entry on
  obtain ⟨t, ht⟩ : ∃ t, commas ((pre ++ e :: post).map logText) ++ 93 :: [125] =
      (pre.map logText).flatMap (fun u => u ++ [44]) ++ (123 :: (s ++ [125]) ++ (w ++ ascii "\"\x7d") ++ t) := by
    refine ⟨((post.map logText).flatMap fun u => 44 :: u) ++ 93 :: [125], ?_⟩
    rw [List.map_append, List.map_cons, commas_append, commas_cons, htext]
    simp only [List.append_assoc]
  obtain ⟨u, hu⟩ : ∃ u, commas ((pre ++ e :: post).map logText) ++ 93 :: [125] = 123 :: u := by
    rw [ht]
    cases hp : pre.map logText with
    | nil => exact ⟨_, rfl⟩
    | cons r rs =>
      obtain ⟨b, hb⟩ := (hus r (by simp [hp])).cons
      exact ⟨_, by rw [List.flatMap_cons, hb]; rfl⟩
  have hskip : skip (commas ((pre ++ e :: post).map logText) ++ 93 :: [125]) =
      commas ((pre ++ e :: post).map logText) ++ 93 :: [125] := by
    rw [hu]
    rfl
  have hhead : ¬ (commas ((pre ++ e :: post).map logText) ++ 93 :: [125]).head? = some 93 := by
    rw [hu]
    simp
  cases fuel with
  | zero => simp [decode_logsData, getArray, findArray] at h
  | succ fuel =>
    rw [decode_logsData, getArray, findArray_first (logsData_found _), Option.map_some, Option.map_some, Option.bind_some,
      hskip, if_neg hhead, Option.some.injEq] at h
    cases hL : rows rowSize logsSize (commas ((pre ++ e :: post).map logText) ++ 93 :: [125]) with
    | none =>
      rw [hL] at h
      have hlog := (Prod.mk.inj h).2
      simp at hlog
    | some L =>
      rw [hL] at h
      rw [ht] at hL
      obtain ⟨x', L', rfl, hL'⟩ := rows_front hus hL
      obtain ⟨hw, L'', rfl⟩ := rows_brace hrow hL'
      have h := (Prod.mk.inj h).2
      obtain ⟨k, hk⟩ : ∃ k, logsSize - (pre.map logText).length = k + 1 := by
        rw [List.length_append, List.length_cons] at hn
        exact ⟨logsSize - pre.length - 1, by rw [List.length_map]; omega⟩
      have hlt : (pre.map logText).length ≤ logsSize := by omega
      rw [List.take_append, List.take_of_length_le hlt, hk, List.take_succ_cons] at h
      exact readLog_cut hs hdata hw (readRows_row (by simp) h)

/-- **Log search.** A list of logs that may be sent is given back, with the right length, exactly when each entry has
at most 127 bytes as it is printed and no closing brace in its data. -/
theorem logs_return_iff {logs : List LogV2} (hn : logs.length ≤ logsSize) (hd : ∀ e ∈ logs, e.Sendable)
    (old : List LogV2) : LogsReturn logs old ↔ ∀ e ∈ logs, e.textLength ≤ 127 ∧ 125 ∉ e.data := by
  constructor
  · rintro ⟨len, data, henc, hlen, fuel, hdec⟩
    have hshort := (encode_getLogs_length hn hd henc).mp hlen
    rw [encode_getLogs_whole hn hd hshort] at henc
    cases henc
    refine fun e he => ⟨hshort e he, ?_⟩
    -- otherwise there is a first entry with a brace
    by_contra hb
    have hsome : (logs.find? fun a => 125 ∈ a.data).isSome := List.find?_isSome.mpr ⟨e, he, by simpa using hb⟩
    obtain ⟨a, ha⟩ := Option.isSome_iff_exists.mp hsome
    obtain ⟨hbr, pre, post, rfl, hpre⟩ := List.find?_eq_some_iff_append.mp ha
    obtain ⟨v, w, hdata, hv⟩ := List.eq_append_cons_of_mem (by simpa using hbr)
    refine decode_brace pre post (fun b hbm => ?_) (hshort a (by simp)) hdata hv hn fuel old hdec
    exact isRow_of_short (hshort b (by simp [hbm])) (by simpa using hpre b hbm)
  · intro h
    refine ⟨_, _, encode_getLogs_whole hn hd fun e he => (h e he).1, rfl, 1, ?_⟩
    exact decode_whole hn hd h 0 old

def plainLog (data : List UInt8) : LogV2 := ⟨0, 0, 0, 0, 0, 0, (0, 0, 0, 0), data⟩

theorem logs_return_login : LogsReturn [plainLog (ascii "login")] [] := by
  refine (logs_return_iff (by decide) (fun e he => ?_) []).mpr fun e he => ?_
  · rw [List.mem_singleton.mp he]
    exact ⟨by decide, by decide, by decide⟩
  · rw [List.mem_singleton.mp he]
    decide

/-- 21 bytes of data, of which the buffer takes away the last brace; and a brace in the data. -/
theorem logs_not_returned : (plainLog (List.replicate 21 97)).Sendable ∧
    ¬ LogsReturn [plainLog (List.replicate 21 97)] [] ∧ (plainLog [125]).Sendable ∧ ¬ LogsReturn [plainLog [125]] [] := by
  have hlong : (plainLog (List.replicate 21 97)).Sendable := ⟨by decide, by decide, by decide⟩
  have hbrace : (plainLog [125]).Sendable := ⟨by decide, by decide, by decide⟩
  refine ⟨hlong, ?_, hbrace, ?_⟩
  · rintro ⟨len, data, henc, hlen, -⟩
    have hall := (encode_getLogs_length (by decide) (fun e he => List.mem_singleton.mp he ▸ hlong) henc).mp hlen
    exact absurd (hall _ (List.mem_singleton_self _)) (by decide)
  · rintro ⟨len, data, henc, -, fuel, hdec⟩
    rw [encode_getLogs_whole (by decide) (fun e he => List.mem_singleton.mp he ▸ hbrace) (by decide)] at henc
    cases henc
    have hdata : (plainLog [125]).data = [] ++ 125 :: [] := rfl
    exact decode_brace [] [] nofun (by decide) hdata (by decide) (by decide) fuel [] hdec

end Qh

end SabApp
