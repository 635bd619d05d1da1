import SabApp.JsonGrows
import SabApp.QhConfigs
import SabApp.QhLogs

/-!
# Wi-Fi configurations of the QH protocol (tool_ptc.c)

Names and passwords of networks are printed between quotes as they are. A quote in one of them ends its value for the
parser, which may then go on with what comes behind as if it were other members.
-/

namespace SabApp

namespace Qh

open CText ToolJson2

open CloudHttp (CloudFault lookup)

/-- PTC_CMD_CFG2_SET_WIFI -/
def cmdSetWifi : Int32 := 0x00080008

/-- A terminated string in a `char[64]`. -/
structure Chars64 where
  text : List UInt8
  short : text.length ≤ 63
  no_zero : 0 ∉ text
  deriving DecidableEq

theorem zero_not_mem_cstr (s : List UInt8) : 0 ∉ cstr s := fun h => by simpa using List.mem_takeWhile_imp h

/-- `tool_str_strncpy(field, text, 63)` into a field that was cleared. -/
def Chars64.copy (text : List UInt8) : Chars64 where
  text := (cstr text).take 63
  short := List.length_take_le _ _
  no_zero h := zero_not_mem_cstr text (List.mem_of_mem_take h)

abbrev Ipv4 := UInt8 × UInt8 × UInt8 × UInt8

/-- `ptc_cfg_wifi_t` -/
structure Wifi where
  mode : Int32
  clientSsid : Chars64
  clientPswd : Chars64
  clientLevel : Int32
  clientDhcp : Int32
  clientIp : Ipv4
  clientMask : Ipv4
  clientGate : Ipv4
  clientDns1 : Ipv4
  clientDns2 : Ipv4
  apSsid : Chars64
  apPswd : Chars64
  deriving DecidableEq

/-! ## Addresses -/

/-- The numbers that `sscanf` finds for `%d.%d.%d.%d`, up to `n` of them. -/
def scanDotted : ℕ → List UInt8 → List ℤ
  | 0, _ => []
  | n + 1, bs =>
    match CloudHttp.scanInt bs with
    | none => []
    | some (a, 46 :: bs) => a :: scanDotted n bs
    | some (a, _) => [a]

/-- `tool_ptc_qh_parseIPv4` -/
def tool_ptc_qh_parseIPv4 (buf : List UInt8) : Ipv4 :=
  let ns := scanDotted 4 buf
  (UInt8.ofInt (ns.getD 0 0), UInt8.ofInt (ns.getD 1 0), UInt8.ofInt (ns.getD 2 0), UInt8.ofInt (ns.getD 3 0))

/-! ## Encoders and decoders -/

/-- What is printed behind the command or the result. -/
def wifiMembers (cfg : Wifi) : List (Plain × List UInt8) :=
  [(.ofAscii "mode", Decimal.decimal cfg.mode.toInt), (.ofAscii "client_ssid", cfg.clientSsid.text),
    (.ofAscii "client_pswd", cfg.clientPswd.text), (.ofAscii "client_level", Decimal.decimal cfg.clientLevel.toInt),
    (.ofAscii "client_dhcp", Decimal.decimal cfg.clientDhcp.toInt), (.ofAscii "client_ip", ipText cfg.clientIp),
    (.ofAscii "client_mask", ipText cfg.clientMask), (.ofAscii "client_gate", ipText cfg.clientGate),
    (.ofAscii "client_dns1", ipText cfg.clientDns1), (.ofAscii "client_dns2", ipText cfg.clientDns2),
    (.ofAscii "ap_ssid", cfg.apSsid.text), (.ofAscii "ap_pswd", cfg.apPswd.text)]

def wifiMessage (first : Plain × Plain) (cfg : Wifi) : ℕ × List UInt8 :=
  printedRaw ptcMsgSize (raw first) ((wifiMembers cfg).map fun m => (m.1.text, m.2))

def tool_ptc_qh_d2c_encode_getWifi (cfg : Wifi) : ℕ × List UInt8 := wifiMessage (.ofAscii "result", .decimal 0) cfg

def tool_ptc_qh_c2d_encode_setWifi (cfg : Wifi) : ℕ × List UInt8 :=
  wifiMessage (.ofAscii "cmd", .decimal cmdSetWifi.toInt) cfg

/-- `if (index) tool_str_strncpy(..)` -/
def charsOf (st : ToolJson) (name : String) : Except CloudFault Chars64 := do
  match ← lookup st name with
  | some p => .ok (.copy (st.deref p))
  | none => .ok (.copy [])

/-- `if (index) tool_ptc_qh_parseIPv4(..)` -/
def ipv4Of (st : ToolJson) (name : String) : Except CloudFault Ipv4 := do
  match ← lookup st name with
  | some p => .ok (tool_ptc_qh_parseIPv4 (st.deref p))
  | none => .ok (0, 0, 0, 0)

/-- The fields of a parsed message, into a structure that was cleared. -/
def readWifi (st : ToolJson) : Except CloudFault Wifi := do
  .ok ⟨← number st "mode", ← charsOf st "client_ssid", ← charsOf st "client_pswd", ← number st "client_level",
    ← number st "client_dhcp", ← ipv4Of st "client_ip", ← ipv4Of st "client_mask", ← ipv4Of st "client_gate",
    ← ipv4Of st "client_dns1", ← ipv4Of st "client_dns2", ← charsOf st "ap_ssid", ← charsOf st "ap_pswd"⟩

def tool_ptc_qh_d2c_decode_getWifi (data : List UInt8) (cfg : Wifi) : Except CloudFault (ℤ × Wifi) :=
  searchedResult data (-8) cfg <| parsedInto data (-8) cfg fun st => afterParsed st cfg do .ok (0, ← readWifi st)

def tool_ptc_qh_c2d_decode_setWifi (data : List UInt8) (cfg : Wifi) : Except CloudFault (ℤ × Wifi) :=
  parsedInto data (-8) cfg fun st => do .ok (0, ← readWifi st)

/-- No name and no password has a quote in it. -/
structure Wifi.NoQuotes (cfg : Wifi) : Prop where
  clientSsid : 34 ∉ cfg.clientSsid.text
  clientPswd : 34 ∉ cfg.clientPswd.text
  apSsid : 34 ∉ cfg.apSsid.text
  apPswd : 34 ∉ cfg.apPswd.text

/-! ## The fields -/

theorem copy_text (t : Chars64) : Chars64.copy t.text = t := by
  obtain ⟨text, short, no_zero⟩ := t
  simp only [Chars64.copy, cstr_of_not_mem no_zero, List.take_of_length_le short]

theorem parseIPv4_ipText (ip : Ipv4) : tool_ptc_qh_parseIPv4 (ipText ip) = ip := by
  have hdot (n : UInt8) (u : List UInt8) : CloudHttp.scanInt (Decimal.decimal n.toNat ++ 46 :: u) =
      some ((n.toNat : ℤ), 46 :: u) := by
    refine scanInt_decimal (by omega) (by have := n.toNat_lt; omega) ?_
    rintro c u ⟨⟩
    rfl
  have hend : CloudHttp.scanInt (Decimal.decimal ip.2.2.2.toNat ++ []) = some ((ip.2.2.2.toNat : ℤ), []) :=
    scanInt_decimal (by omega) (by have := ip.2.2.2.toNat_lt; omega) nofun
  have heq : ipText ip = Decimal.decimal ip.1.toNat ++ 46 :: (Decimal.decimal ip.2.1.toNat ++ 46 ::
      (Decimal.decimal ip.2.2.1.toNat ++ 46 :: (Decimal.decimal ip.2.2.2.toNat ++ []))) := rfl
  simp only [tool_ptc_qh_parseIPv4, heq, scanDotted, hdot, hend, List.getD_cons_zero, List.getD_cons_succ, ofInt_toNat8]

section Fields

variable {st : ToolJson} {name : String} {q : JsonPtr}

theorem charsOf_eq (hq : lookup st name = .ok (some q)) {t : List UInt8} (hd : st.deref q = t) :
    charsOf st name = .ok (.copy t) := by
  rw [charsOf, hq, ← hd]
  rfl

theorem ipv4Of_eq (hq : lookup st name = .ok (some q)) {ip : Ipv4} (hd : st.deref q = ipText ip) :
    ipv4Of st name = .ok ip := by
  rw [ipv4Of, hq]
  show Except.ok (tool_ptc_qh_parseIPv4 (st.deref q)) = _
  rw [hd, parseIPv4_ipText]

end Fields

/-- The four texts, with the names that they are looked up by. -/
def wifiTexts (cfg : Wifi) : List (String × Chars64) :=
  [("client_ssid", cfg.clientSsid), ("client_pswd", cfg.clientPswd), ("ap_ssid", cfg.apSsid), ("ap_pswd", cfg.apPswd)]

/-- A member that has a quote is one of them. -/
theorem text_of_quote {cfg : Wifi} {m : Plain × List UInt8} (hm : m ∈ wifiMembers cfg) (hquote : 34 ∈ m.2) :
    ∃ t ∈ wifiTexts cfg, m.1.text = ascii t.1 ∧ m.2 = t.2.text := by
  have hd (n : ℤ) : (34 : UInt8) ∉ Decimal.decimal n := Decimal.not_mem_decimal (by decide)
  have hi (ip : Ipv4) : (34 : UInt8) ∉ ipText ip := not_mem_ipText (by decide)
  simp only [wifiMembers, List.mem_cons, List.not_mem_nil, or_false] at hm
  rcases hm with rfl | rfl | rfl | rfl | rfl | rfl | rfl | rfl | rfl | rfl | rfl | rfl
  case inr.inl => exact ⟨("client_ssid", cfg.clientSsid), by simp [wifiTexts], rfl, rfl⟩
  case inr.inr.inl => exact ⟨("client_pswd", cfg.clientPswd), by simp [wifiTexts], rfl, rfl⟩
  case inr.inr.inr.inr.inr.inr.inr.inr.inr.inr.inl => exact ⟨("ap_ssid", cfg.apSsid), by simp [wifiTexts], rfl, rfl⟩
  case inr.inr.inr.inr.inr.inr.inr.inr.inr.inr.inr => exact ⟨("ap_pswd", cfg.apPswd), by simp [wifiTexts], rfl, rfl⟩
  all_goals first | exact absurd hquote (hd _) | exact absurd hquote (hi _)

theorem of_bind_ok {ε α β : Type} {x : Except ε α} {f : α → Except ε β} {b : β} (h : (x >>= f) = .ok b) :
    ∃ a, x = .ok a ∧ f a = .ok b := by
  cases x with
  | error e => cases h
  | ok a => exact ⟨a, rfl, h⟩

theorem charsOf_readWifi {st : ToolJson} {cfg : Wifi} (h : readWifi st = .ok cfg) :
    ∀ t ∈ wifiTexts cfg, charsOf st t.1 = .ok t.2 := by
  obtain ⟨mode, -, h⟩ := of_bind_ok h
  obtain ⟨clientSsid, hclientSsid, h⟩ := of_bind_ok h
  obtain ⟨clientPswd, hclientPswd, h⟩ := of_bind_ok h
  obtain ⟨clientLevel, -, h⟩ := of_bind_ok h
  obtain ⟨clientDhcp, -, h⟩ := of_bind_ok h
  obtain ⟨clientIp, -, h⟩ := of_bind_ok h
  obtain ⟨clientMask, -, h⟩ := of_bind_ok h
  obtain ⟨clientGate, -, h⟩ := of_bind_ok h
  obtain ⟨clientDns1, -, h⟩ := of_bind_ok h
  obtain ⟨clientDns2, -, h⟩ := of_bind_ok h
  obtain ⟨apSsid, hapSsid, h⟩ := of_bind_ok h
  obtain ⟨apPswd, hapPswd, h⟩ := of_bind_ok h
  cases h
  simp only [wifiTexts, List.forall_mem_cons]
  exact ⟨hclientSsid, hclientPswd, hapSsid, hapPswd, nofun⟩

/-! ## The message -/

theorem short_wifiMembers (cfg : Wifi) : ∀ m ∈ wifiMembers cfg, m.1.text.length + m.2.length ≤ 75 ∧ 0 ∉ m.2 := by
  have hlen (n : Int32) : (Decimal.decimal n.toInt).length ≤ 63 := Nat.le_trans (length_int32_le n) (by decide)
  have hip (ip : Ipv4) : (ipText ip).length ≤ 63 := Nat.le_trans (length_ipText_le ip) (by decide)
  have hd (n : ℤ) : (0 : UInt8) ∉ Decimal.decimal n := Decimal.not_mem_decimal (by decide)
  have hi (ip : Ipv4) : (0 : UInt8) ∉ ipText ip := not_mem_ipText (by decide)
  have hadd {name : Plain} {v : List UInt8} (hn : name.text.length ≤ 12) (hv : v.length ≤ 63) :
      name.text.length + v.length ≤ 75 := Nat.add_le_add hn hv
  simp only [wifiMembers, List.forall_mem_cons]
  exact ⟨⟨hadd (by decide) (hlen _), hd _⟩, ⟨hadd (by decide) cfg.clientSsid.short, cfg.clientSsid.no_zero⟩,
    ⟨hadd (by decide) cfg.clientPswd.short, cfg.clientPswd.no_zero⟩, ⟨hadd (by decide) (hlen _), hd _⟩,
    ⟨hadd (by decide) (hlen _), hd _⟩, ⟨hadd (by decide) (hip _), hi _⟩, ⟨hadd (by decide) (hip _), hi _⟩,
    ⟨hadd (by decide) (hip _), hi _⟩, ⟨hadd (by decide) (hip _), hi _⟩, ⟨hadd (by decide) (hip _), hi _⟩,
    ⟨hadd (by decide) cfg.apSsid.short, cfg.apSsid.no_zero⟩, ⟨hadd (by decide) cfg.apPswd.short, cfg.apPswd.no_zero⟩,
    List.forall_mem_nil _⟩

theorem rawText_short {m : List UInt8 × List UInt8} {ms : List (List UInt8 × List UInt8)}
    (h : ∀ x ∈ m :: ms, x.1.length + x.2.length ≤ 75) (hms : ms.length ≤ 12) : (rawText m ms).length ≤ 1054 := by
  have hlen := length_rawText_le h
  omega

theorem zero_not_mem_rawEnd : ∀ {ms : List (Plain × List UInt8)}, (∀ m ∈ ms, 0 ∉ m.2) →
    0 ∉ rawEnd (ms.map fun m => (m.1.text, m.2))
  | [], _ => by simp [rawEnd]
  | m :: ms, h => by
    rw [List.forall_mem_cons] at h
    simp [rawEnd, m.1.no_zero, h.1, zero_not_mem_rawEnd h.2]

/-- Members without quotes. -/
theorem exists_plain : ∀ {ms : List (Plain × List UInt8)}, (∀ m ∈ ms, 34 ∉ m.2 ∧ 0 ∉ m.2) →
    ∃ ps : List (Plain × Plain), ms = ps.map fun p => (p.1, p.2.text)
  | [], _ => ⟨[], rfl⟩
  | m :: ms, h => by
    rw [List.forall_mem_cons] at h
    obtain ⟨ps, rfl⟩ := exists_plain h.2
    exact ⟨(m.1, ⟨m.2, h.1.1, h.1.2⟩) :: ps, rfl⟩

/-- The text up to the first quote in a value. -/
theorem rawEnd_quote (name v : Plain) (w : List UInt8) (more : List (List UInt8 × List UInt8)) :
    ∀ ps : List (Plain × Plain), rawEnd (ps.map raw ++ (name.text, v.text ++ 34 :: w) :: more) =
      44 :: ps.foldr (fun m t => ToolJson.printedMember m (44 :: t))
        (ToolJson.printedMember (name, v) (w ++ 34 :: rawEnd more))
  | [] => by simp [rawEnd, ToolJson.printedMember]
  | p :: ps => by
    rw [List.map_cons, List.cons_append, rawEnd, rawEnd_quote name v w more ps]
    rfl

section Message

/-- The names behind the command or the result. -/
def wifiNames : List (List UInt8) :=
  [ascii "mode", ascii "client_ssid", ascii "client_pswd", ascii "client_level", ascii "client_dhcp", ascii "client_ip",
    ascii "client_mask", ascii "client_gate", ascii "client_dns1", ascii "client_dns2", ascii "ap_ssid", ascii "ap_pswd"]

theorem map_wifiMembers (cfg : Wifi) : (wifiMembers cfg).map (fun m => m.1.text) = wifiNames := rfl

/-- The command or the result. -/
structure Leads (first : Plain × Plain) : Prop where
  short : first.1.text.length + first.2.text.length ≤ 75
  other : (first.1.text :: wifiNames).Nodup

variable {first : Plain × Plain} {cfg : Wifi}

theorem wifiMessage_text (h : Leads first) (cfg : Wifi) :
    (wifiMessage first cfg).2 = rawText (raw first) ((wifiMembers cfg).map fun m => (m.1.text, m.2)) ∧
      (wifiMessage first cfg).2.length < jsonStrSize ∧ 0 ∉ (wifiMessage first cfg).2 := by
  have hshort : ∀ x ∈ raw first :: (wifiMembers cfg).map (fun m => (m.1.text, m.2)), x.1.length + x.2.length ≤ 75 := by
    rw [List.forall_mem_cons, List.forall_mem_map]
    exact ⟨h.short, fun m hm => (short_wifiMembers cfg m hm).1⟩
  have hlen := rawText_short hshort (by simp [wifiMembers])
  have heq : (wifiMessage first cfg).2 = rawText (raw first) ((wifiMembers cfg).map fun m => (m.1.text, m.2)) :=
    List.take_of_length_le (Nat.le_trans hlen (by decide))
  have hend := zero_not_mem_rawEnd fun m hm => (short_wifiMembers cfg m hm).2
  refine ⟨heq, ?_, ?_⟩
  · rw [heq]
    exact Nat.lt_of_le_of_lt hlen (by decide)
  · rw [heq]
    simp [rawText, raw, first.1.no_zero, first.2.no_zero, hend]

/-- The first value with a quote is found as far as the quote, if the message is parsed at all. -/
theorem found_to_quote (h : Leads first) {ret : ℤ} {st : ToolJson}
    (hp : ToolJson.parse (wifiMessage first cfg).2 = .ok (ret, st)) (hquote : ∃ m ∈ wifiMembers cfg, 34 ∈ m.2) :
    ∃ t ∈ wifiTexts cfg, ∃ v w q, t.2.text = v ++ 34 :: w ∧ lookup st t.1 = .ok (some q) ∧ st.deref q = v := by
  obtain ⟨htext, hlen, hzero⟩ := wifiMessage_text h cfg
  have hsome : ∃ m ∈ wifiMembers cfg, ¬ 34 ∉ m.2 := by simpa using hquote
  obtain ⟨good, bad, more, hsplit, hgood, hbad⟩ := ToolJson.first_bad hsome
  rw [Decidable.not_not] at hbad
  have hmem : bad ∈ wifiMembers cfg := by
    rw [hsplit]
    simp
  have hfront : ∀ m ∈ good, m ∈ wifiMembers cfg := fun m hm => by
    rw [hsplit]
    simp [hm]
  obtain ⟨t, ht, hname, hval⟩ := text_of_quote hmem hbad
  obtain ⟨v, w, hvw, hv⟩ := List.eq_append_cons_of_mem hbad
  have hv0 : 0 ∉ v := fun h0 => (short_wifiMembers cfg bad hmem).2 (hvw ▸ List.mem_append_left _ h0)
  obtain ⟨ps, hps⟩ := exists_plain fun m hm => ⟨hgood m hm, (short_wifiMembers cfg m (hfront m hm)).2⟩
  have hs : (wifiMessage first cfg).2 = 123 :: (first :: ps).foldr (fun m t => ToolJson.printedMember m (44 :: t))
      (ToolJson.printedMember (bad.1, ⟨v, hv, hv0⟩) (w ++ 34 :: rawEnd (more.map fun m => (m.1.text, m.2)))) := by
    have hend := rawEnd_quote bad.1 ⟨v, hv, hv0⟩ w (more.map fun m => (m.1.text, m.2)) ps
    rw [htext, hsplit, List.map_append, List.map_cons, hps, List.map_map, hvw, rawText]
    exact congrArg (fun u => 123 :: 34 :: (first.1.text ++ 34 :: 58 :: 34 :: (first.2.text ++ 34 :: u))) hend
  have hother : ∀ m ∈ first :: ps, m.1.text ≠ bad.1.text := by
    have hnames : (first.1.text :: (ps.map fun p => p.1.text) ++ bad.1.text :: more.map fun m => m.1.text).Nodup := by
      have hn := h.other
      rw [← map_wifiMembers cfg, hsplit, hps, List.map_append, List.map_map] at hn
      exact hn
    have hdisj := (List.nodup_append.mp hnames).2.2
    intro m hm
    apply hdisj _ _ _ (List.mem_cons_self ..)
    rcases List.mem_cons.mp hm with rfl | hm
    · exact List.mem_cons_self ..
    · exact .tail _ (List.mem_map.mpr ⟨m, hm, rfl⟩)
  obtain ⟨q, hget, hd⟩ := ToolJson.parse_begins hs hzero hlen hother hp
  refine ⟨t, ht, v, w, q, by rw [← hval, hvw], ?_, hd⟩
  rw [lookup, ← hname, hget]

/-- Then a field is shorter than what was sent. -/
theorem readWifi_quote (h : Leads first) {ret : ℤ} {st : ToolJson}
    (hp : ToolJson.parse (wifiMessage first cfg).2 = .ok (ret, st)) (hquote : ∃ m ∈ wifiMembers cfg, 34 ∈ m.2) :
    readWifi st ≠ .ok cfg := by
  intro hread
  obtain ⟨t, ht, v, w, q, hvw, hq, hd⟩ := found_to_quote h hp hquote
  have hchars := charsOf_readWifi hread t ht
  rw [charsOf_eq hq hd, Except.ok.injEq] at hchars
  have hle : (Chars64.copy v).text.length ≤ v.length :=
    Nat.le_trans (List.length_take_le' _ _) (List.takeWhile_prefix _).length_le
  rw [hchars, hvw, List.length_append, List.length_cons] at hle
  omega

theorem readWifi_found {st : ToolJson} (hfound : ∀ m ∈ wifiMembers cfg, ∀ name : String, m.1.text = ascii name →
    ∃ q, lookup st name = .ok (some q) ∧ st.deref q = m.2) : readWifi st = .ok cfg := by
  have hnumber {p : Plain} {n : Int32} (hm : (p, Decimal.decimal n.toInt) ∈ wifiMembers cfg) {name : String}
      (hname : p.text = ascii name) : number st name = .ok n := by
    obtain ⟨q, hq, hd⟩ := hfound _ hm name hname
    exact number_eq hq hd
  have hchars {p : Plain} {t : Chars64} (hm : (p, t.text) ∈ wifiMembers cfg) {name : String}
      (hname : p.text = ascii name) : charsOf st name = .ok t := by
    obtain ⟨q, hq, hd⟩ := hfound _ hm name hname
    rw [charsOf_eq hq hd, copy_text]
  have hip {p : Plain} {ip : Ipv4} (hm : (p, ipText ip) ∈ wifiMembers cfg) {name : String}
      (hname : p.text = ascii name) : ipv4Of st name = .ok ip := by
    obtain ⟨q, hq, hd⟩ := hfound _ hm name hname
    exact ipv4Of_eq hq hd
  have hmode : number st "mode" = .ok cfg.mode := hnumber (p := .ofAscii "mode") (by simp [wifiMembers]) rfl
  have hssid : charsOf st "client_ssid" = .ok cfg.clientSsid :=
    hchars (p := .ofAscii "client_ssid") (by simp [wifiMembers]) rfl
  have hpswd : charsOf st "client_pswd" = .ok cfg.clientPswd :=
    hchars (p := .ofAscii "client_pswd") (by simp [wifiMembers]) rfl
  have hlevel : number st "client_level" = .ok cfg.clientLevel :=
    hnumber (p := .ofAscii "client_level") (by simp [wifiMembers]) rfl
  have hdhcp : number st "client_dhcp" = .ok cfg.clientDhcp :=
    hnumber (p := .ofAscii "client_dhcp") (by simp [wifiMembers]) rfl
  have hclient : ipv4Of st "client_ip" = .ok cfg.clientIp := hip (p := .ofAscii "client_ip") (by simp [wifiMembers]) rfl
  have hmask : ipv4Of st "client_mask" = .ok cfg.clientMask :=
    hip (p := .ofAscii "client_mask") (by simp [wifiMembers]) rfl
  have hgate : ipv4Of st "client_gate" = .ok cfg.clientGate :=
    hip (p := .ofAscii "client_gate") (by simp [wifiMembers]) rfl
  have hdns1 : ipv4Of st "client_dns1" = .ok cfg.clientDns1 :=
    hip (p := .ofAscii "client_dns1") (by simp [wifiMembers]) rfl
  have hdns2 : ipv4Of st "client_dns2" = .ok cfg.clientDns2 :=
    hip (p := .ofAscii "client_dns2") (by simp [wifiMembers]) rfl
  have hap : charsOf st "ap_ssid" = .ok cfg.apSsid := hchars (p := .ofAscii "ap_ssid") (by simp [wifiMembers]) rfl
  have hapPswd : charsOf st "ap_pswd" = .ok cfg.apPswd := hchars (p := .ofAscii "ap_pswd") (by simp [wifiMembers]) rfl
  rw [readWifi, hmode, hssid, hpswd, hlevel, hdhcp, hclient, hmask, hgate, hdns1, hdns2, hap, hapPswd]
  rfl

/-- Without quotes the parser finds every member. -/
theorem parse_plain (h : Leads first) (hplain : ∀ m ∈ wifiMembers cfg, 34 ∉ m.2) :
    ∃ st, ToolJson.parse (wifiMessage first cfg).2 = .ok (0, st) ∧ readWifi st = .ok cfg ∧
      ∀ name : String, first.1.text = ascii name → ∃ q, lookup st name = .ok (some q) ∧ st.deref q = first.2.text := by
  obtain ⟨htext, hlen, -⟩ := wifiMessage_text h cfg
  obtain ⟨ps, hps⟩ := exists_plain fun m hm => ⟨hplain m hm, (short_wifiMembers cfg m hm).2⟩
  have heq : (wifiMessage first cfg).2 = (JsonText.ofStrings (first :: ps)).text := by
    rw [htext, hps, List.map_map, ← rawText_raw]
    rfl
  have hnames : ((first :: ps).map fun m => m.1.text).Nodup := by
    have hn := h.other
    rw [← map_wifiMembers cfg, hps, List.map_map] at hn
    exact hn
  rw [heq] at hlen ⊢
  obtain ⟨st, hp, hst⟩ := parse_ofStrings hlen (by simp)
  refine ⟨st, hp, readWifi_found fun m hm name hname => ?_, fun name hname => ?_⟩
  · rw [hps] at hm
    obtain ⟨p, hmem, rfl⟩ := List.mem_map.mp hm
    exact hst.member hnames (.tail _ hmem) hname
  · exact hst.member hnames (List.mem_cons_self ..) hname

end Message

theorem noQuotes_iff (cfg : Wifi) : cfg.NoQuotes ↔ ∀ m ∈ wifiMembers cfg, 34 ∉ m.2 := by
  have hd (n : ℤ) : (34 : UInt8) ∉ Decimal.decimal n := Decimal.not_mem_decimal (by decide)
  have hi (ip : Ipv4) : (34 : UInt8) ∉ ipText ip := not_mem_ipText (by decide)
  constructor
  · rintro ⟨h₁, h₂, h₃, h₄⟩
    simp only [wifiMembers, List.forall_mem_cons]
    exact ⟨hd _, h₁, h₂, hd _, hd _, hi _, hi _, hi _, hi _, hi _, h₃, h₄, List.forall_mem_nil _⟩
  · intro h
    simp only [wifiMembers, List.forall_mem_cons] at h
    obtain ⟨-, h₁, h₂, -, -, -, -, -, -, -, h₃, h₄, -⟩ := h
    exact ⟨h₁, h₂, h₃, h₄⟩

theorem leads_set : Leads (.ofAscii "cmd", .decimal cmdSetWifi.toInt) := ⟨by decide, by decide⟩

theorem leads_get : Leads (.ofAscii "result", .decimal 0) := ⟨by decide, by decide⟩

theorem parsedInto_done {α : Type} {data : List UInt8} {refused : ℤ} {old new : α}
    {fields : ToolJson → Except CloudFault (ℤ × α)} (hne : refused ≠ 0)
    (h : parsedInto data refused old fields = .ok (0, new)) :
    ∃ ret st, ToolJson.parse data = .ok (ret, st) ∧ fields st = .ok (0, new) := by
  obtain ⟨r, hr, h⟩ := of_bind_ok h
  cases hp : ToolJson.parse data with
  | error e =>
    rw [hp] at hr
    cases hr
  | ok p =>
    rw [hp] at hr
    obtain rfl : p = r := Except.ok.inj hr
    split at h
    · cases h
      exact absurd rfl hne
    · exact ⟨p.1, p.2, rfl, h⟩

/-- What was parsed of a message with a quote in a value is not what was sent. -/
theorem quote_of_restored {first : Plain × Plain} (h : Leads first) {cfg : Wifi} {ret : ℤ} {st : ToolJson}
    (hp : ToolJson.parse (wifiMessage first cfg).2 = .ok (ret, st)) (hread : readWifi st = .ok cfg) : cfg.NoQuotes := by
  rw [noQuotes_iff]
  intro m hm hquote
  exact readWifi_quote h hp ⟨m, hm, hquote⟩ hread

theorem setWifi_restored_iff (cfg old : Wifi) :
    tool_ptc_qh_c2d_decode_setWifi (tool_ptc_qh_c2d_encode_setWifi cfg).2 old = .ok (0, cfg) ↔ cfg.NoQuotes := by
  constructor
  · intro hdec
    obtain ⟨ret, st, hp, hfields⟩ := parsedInto_done (by decide) hdec
    obtain ⟨new, hread, hnew⟩ := of_bind_ok hfields
    cases hnew
    exact quote_of_restored leads_set hp hread
  · intro hplain
    obtain ⟨st, hp, hread, -⟩ := parse_plain leads_set ((noQuotes_iff cfg).mp hplain)
    rw [tool_ptc_qh_c2d_decode_setWifi, tool_ptc_qh_c2d_encode_setWifi, parsedInto_ok hp, hread]
    rfl

theorem getWifi_restored_iff (cfg old : Wifi) :
    tool_ptc_qh_d2c_decode_getWifi (tool_ptc_qh_d2c_encode_getWifi cfg).2 old = .ok (0, cfg) ↔ cfg.NoQuotes := by
  have hresult : getNumber (tool_ptc_qh_d2c_encode_getWifi cfg).2 (ascii "result") = some 0 := by
    rw [tool_ptc_qh_d2c_encode_getWifi, (wifiMessage_text leads_get cfg).1]
    exact getNumber_rawResult _
  rw [tool_ptc_qh_d2c_decode_getWifi, searchedResult, hresult]
  simp only [ne_eq, not_true_eq_false, if_false]
  constructor
  · intro hdec
    obtain ⟨ret, st, hp, hfields⟩ := parsedInto_done (by decide) hdec
    obtain ⟨p, -, hfields⟩ := of_bind_ok hfields
    split at hfields
    · cases hfields
    split at hfields
    · cases hfields
    · obtain ⟨new, hread, hnew⟩ := of_bind_ok hfields
      cases hnew
      exact quote_of_restored leads_get hp hread
  · intro hplain
    obtain ⟨st, hp, hread, hfirst⟩ := parse_plain leads_get ((noQuotes_iff cfg).mp hplain)
    obtain ⟨q, hq, hd⟩ := hfirst "result" rfl
    have hzero : CloudHttp.strncmp (st.deref q) (ascii "0") 1 = 0 := by
      rw [hd]
      rfl
    rw [tool_ptc_qh_d2c_encode_getWifi, parsedInto_ok hp, afterParsed, hq, hread]
    exact if_neg (by rw [hzero]; decide)

/-- **Wi-Fi configurations.** Either way they come back exactly when no name and no password has a quote in it. -/
theorem wifi_restored_iff (cfg old : Wifi) :
    (tool_ptc_qh_c2d_decode_setWifi (tool_ptc_qh_c2d_encode_setWifi cfg).2 old = .ok (0, cfg) ↔ cfg.NoQuotes) ∧
    (tool_ptc_qh_d2c_decode_getWifi (tool_ptc_qh_d2c_encode_getWifi cfg).2 old = .ok (0, cfg) ↔ cfg.NoQuotes) :=
  ⟨setWifi_restored_iff cfg old, getWifi_restored_iff cfg old⟩

/-- The password `a"b` of a network `a`. -/
def quotedWifi : Wifi where
  mode := 1
  clientSsid := ⟨[97], by decide, Plain.a.no_zero⟩
  clientPswd := ⟨[97, 34, 98], by decide, by decide⟩
  clientLevel := 0
  clientDhcp := 1
  clientIp := (0, 0, 0, 0)
  clientMask := (0, 0, 0, 0)
  clientGate := (0, 0, 0, 0)
  clientDns1 := (0, 0, 0, 0)
  clientDns2 := (0, 0, 0, 0)
  apSsid := ⟨[], by decide, by decide⟩
  apPswd := ⟨[], by decide, by decide⟩

theorem wifi_cut :
    (¬ ∃ old : Wifi, tool_ptc_qh_c2d_decode_setWifi (tool_ptc_qh_c2d_encode_setWifi quotedWifi).2 old = .ok (0, quotedWifi)) ∧
      ¬ ∃ old : Wifi, tool_ptc_qh_d2c_decode_getWifi (tool_ptc_qh_d2c_encode_getWifi quotedWifi).2 old = .ok (0, quotedWifi) := by
  have hquote : ¬ quotedWifi.NoQuotes := fun h => h.clientPswd (by decide)
  constructor
  · rintro ⟨old, h⟩
    exact hquote ((setWifi_restored_iff quotedWifi old).mp h)
  · rintro ⟨old, h⟩
    exact hquote ((getWifi_restored_iff quotedWifi old).mp h)

end Qh

end SabApp
