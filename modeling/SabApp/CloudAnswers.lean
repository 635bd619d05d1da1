import SabApp.JsonSearch

/-!
# Answers of the cloud server

Each cloud call of hdcctv_client.c sends one HTTP request and reads one answer. Two calls search the
body with `tool_json2_getNumber`, the others parse it. What they do until there is an answer to read,
and how they classify it, is the same text in each of them.
-/

namespace SabApp

namespace CloudHttp

open CText

/-- What `tool_http_Recv` leaves of an answer: the status code and the memory of the body. -/
structure ToolHttp where
  command : List UInt8
  body : List UInt8

/-- TOOL_HTTP_BODY_SIZE -/
def httpBodySize : ℕ := 10240

/-- NC_ERROR_CONNECT -/
def errConnect : ℤ := -5

/-- NC_ERROR_SEND -/
def errSend : ℤ := -6

/-- NC_ERROR_RECV -/
def errRecv : ℤ := -7

/-- NC_ERROR_PROTOCOL -/
def errProtocol : ℤ := -8

/-- NC_ERROR_CLOUD_BEGIN -/
def cloudBegin : ℤ := -10000

/-- NC_ERROR_CLOUD_END -/
def cloudEnd : ℤ := -19999

/-- How far a request gets. -/
inductive Exchange where
  /-- `hdcctv_client2_location` fails with `ret` -/
  | unlocated (ret : ℤ)
  | unopened
  | unsent
  | unreceived
  | received (http : ToolHttp)

/-- What the C code must not do. -/
inductive CloudFault where
  | json (fault : ToolJson.Fault)
  /-- `log_fatal` in a lookup -/
  | fatal
  /-- a text without a terminator -/
  | unterminated
  /-- a read behind the memory of a text -/
  | overread
  /-- a write behind a field -/
  | overflow

section Classify

variable {α : Type} (out : α)

/-- `strncmp` of two texts. -/
def strncmp : List UInt8 → List UInt8 → ℕ → ℤ
  | _, _, 0 => 0
  | [], [], _ + 1 => 0
  | [], d :: _, _ + 1 => -(d.toNat : ℤ)
  | c :: _, [], _ + 1 => c.toNat
  | c :: cs, d :: ds, n + 1 => if c = d then strncmp cs ds n else c.toNat - d.toNat

/-- A call up to the test of the status. The length in that test is `tool_str_strlen("200") != 0`. -/
def exchange (answer : ToolHttp → Except CloudFault (ℤ × α)) : Exchange → Except CloudFault (ℤ × α)
  | .unlocated ret => .ok (ret, out)
  | .unopened => .ok (errConnect, out)
  | .unsent => .ok (errSend, out)
  | .unreceived => .ok (errRecv, out)
  | .received http =>
    if strncmp (cstr http.command) (ascii "200") (decide ((ascii "200").length ≠ 0)).toNat ≠ 0 then
      .ok (errProtocol, out)
    else answer http

/-- `tool_json_getValue` -/
def lookup (st : ToolJson) (name : String) : Except CloudFault (Option JsonPtr) :=
  match st.getValue (ascii name) with
  | none => .error .fatal
  | some p => .ok p

/-- `tool_json_getValue_V2` -/
def lookupV2 (st : ToolJson) (array : String) (i : ℕ) (name : String) : Except CloudFault (Option JsonPtr) :=
  match st.getValueV2 (ascii array) i (ascii name) with
  | none => .error .fatal
  | some p => .ok p

/-- From `tool_json_parse` to the test of `result`; `refused` is returned for a result that does not
begin with 0. -/
def parsed (refused : List UInt8 → ℤ) (rest : ToolJson → Except CloudFault (ℤ × α)) (http : ToolHttp) : Except CloudFault (ℤ × α) := do
  let r ← (ToolJson.parse http.body).mapError .json
  if r.1 < 0 then .ok (errProtocol, out)
  else
    match ← lookup r.2 "result" with
    | none => .ok (errProtocol, out)
    | some result =>
      if strncmp (r.2.deref result) (ascii "0") 1 ≠ 0 then .ok (refused (r.2.deref result), out)
      else rest r.2

/-- The range test of a result number whose sign was turned. -/
def cloudRange (num : ℤ) : ℤ := if num < cloudBegin ∧ cloudEnd < num then num else errProtocol

/-- What most calls return for such a result. -/
def turned (result : List UInt8) : ℤ := cloudRange (Int.bmod (ToolJson.atoi result * -1) (2 ^ 32))

def protocol (_ : List UInt8) : ℤ := errProtocol

/-- The loops that read a table from an array, from place `i` on for `k` more places. -/
def tableLoop {β : Type} (row : ℕ → Except CloudFault (Option β)) : ℕ → ℕ → Except CloudFault (List β)
  | 0, _ => .ok []
  | k + 1, i => do
    match ← row i with
    | none => .ok []
    | some b => (tableLoop row k (i + 1)).map (b :: ·)

end Classify

/-! ## Calls that only want a result -/

def hdcctv_client2_getSms (ex : Exchange) : Except CloudFault (ℤ × Unit) :=
  exchange () (parsed () turned fun _ => .ok (0, ())) ex

def hdcctv_client2_regUser (ex : Exchange) : Except CloudFault (ℤ × Unit) :=
  exchange () (parsed () turned fun _ => .ok (0, ())) ex

def hdcctv_client2_resetPswd (ex : Exchange) : Except CloudFault (ℤ × Unit) :=
  exchange () (parsed () protocol fun _ => .ok (0, ())) ex

def hdcctv_client2_setPswd (ex : Exchange) : Except CloudFault (ℤ × Unit) :=
  exchange () (parsed () turned fun _ => .ok (0, ())) ex

def hdcctv_client2_bindDev (ex : Exchange) : Except CloudFault (ℤ × Unit) :=
  exchange () (parsed () turned fun _ => .ok (0, ())) ex

def hdcctv_client2_setQpnsDeviceMaps (ex : Exchange) : Except CloudFault (ℤ × Unit) :=
  exchange () (parsed () protocol fun _ => .ok (0, ())) ex

def hdcctv_client2_addQpnsDeviceMaps (ex : Exchange) : Except CloudFault (ℤ × Unit) :=
  exchange () (parsed () protocol fun _ => .ok (0, ())) ex

def hdcctv_client2_delQpnsDeviceMaps (ex : Exchange) : Except CloudFault (ℤ × Unit) :=
  exchange () (parsed () protocol fun _ => .ok (0, ())) ex

/-! ## Calls that read more of the answer -/

/-- `hdcctv_service_addr_t` up to the nonce, from which `nonce_md5` is made. -/
structure ServiceAddr where
  ip : List UInt8
  port : ℤ
  nonce : ℤ

/-- PTC_IP_SIZE -/
def ipSize : ℕ := 40

/-- PTC_ID_SIZE -/
def idSize : ℕ := 32

/-- PTC_STR_SIZE -/
def strSize : ℕ := 64

/-- HDCCTV_QPNS_TOKEN_SIZE -/
def tokenSize : ℕ := 72

/-- HDCCTV_QPNS_ALARM_NUM -/
def alarmNum : ℕ := 32

/-- HDCCTV_QPNS_DEVICE_MAP_NUM -/
def deviceMapNum : ℕ := 32

/-- Behind the result; without an address the structure is left as it was. -/
def serviceAddr (addr : ServiceAddr) (st : ToolJson) : Except CloudFault (ℤ × ServiceAddr) := do
  match ← lookup st "ip", ← lookup st "port", ← lookup st "nonce" with
  | some ip, some port, some nonce =>
    .ok (0, ⟨(st.deref ip).take (ipSize - 1), ToolJson.atoi (st.deref port), ToolJson.atoi (st.deref nonce)⟩)
  | _, _, _ => .ok (-9, addr)

/-- `hdcctv_client_getServiceAddr`; it does not ask for the location. -/
def hdcctv_client_getServiceAddr (addr : ServiceAddr) (ex : Exchange) : Except CloudFault (ℤ × ServiceAddr) :=
  exchange addr (parsed addr protocol (serviceAddr addr)) ex

/-- What `hdcctv_client2_getAlarms` fills in of `hdcctv_qpns_alarm_t`. -/
structure Alarm where
  no : ℤ
  devId : List UInt8
  time : ℤ
  channel : ℤ
  type : ℤ

def alarmRow (st : ToolJson) (i : ℕ) : Except CloudFault (Option Alarm) := do
  match ← lookupV2 st "alarm_map" i "no", ← lookupV2 st "alarm_map" i "dev_id", ← lookupV2 st "alarm_map" i "time",
    ← lookupV2 st "alarm_map" i "channel", ← lookupV2 st "alarm_map" i "type" with
  | some no, some devId, some time, some channel, some type =>
    .ok (some ⟨ToolJson.atoi (st.deref no) % 2 ^ 32, (st.deref devId).take (tokenSize - 1),
      ToolJson.atoi (st.deref time), ToolJson.atoi (st.deref channel), ToolJson.atoi (st.deref type)⟩)
  | _, _, _, _, _ => .ok none

def hdcctv_client2_getAlarms (ex : Exchange) : Except CloudFault (ℤ × List Alarm) :=
  exchange [] (parsed [] protocol fun st => do .ok (0, ← tableLoop (alarmRow st) alarmNum 0)) ex

def deviceMapRow (st : ToolJson) (i : ℕ) : Except CloudFault (Option (List UInt8)) := do
  match ← lookupV2 st "device_map" i "dev_id" with
  | some devId => .ok (some ((st.deref devId).take (tokenSize - 1)))
  | none => .ok none

def hdcctv_client2_getQpnsDeviceMaps (ex : Exchange) : Except CloudFault (ℤ × List (List UInt8)) :=
  exchange [] (parsed [] protocol fun st => do .ok (0, ← tableLoop (deviceMapRow st) deviceMapNum 0)) ex

/-! ## The device list -/

/-- The place of a character in `base64char`, and 0xFF for any other. -/
def base64Val (c : UInt8) : UInt8 :=
  if 65 ≤ c ∧ c ≤ 90 then c - 65
  else if 97 ≤ c ∧ c ≤ 122 then c - 71
  else if ToolJson.isDigit c then c + 4
  else if c = 43 then 62
  else if c = 47 then 63
  else 255

/-- `base64_decode`: what it writes, from the memory of the text. -/
def base64_decode : List UInt8 → Option (List UInt8)
  | c₀ :: c₁ :: c₂ :: c₃ :: cs =>
    let t₀ := base64Val c₀
    let t₁ := base64Val c₁
    let t₂ := base64Val c₂
    let t₃ := base64Val c₃
    let b₀ := UInt8.lor (UInt8.land (t₀ <<< 2) 0xFC) (UInt8.land (t₁ >>> 4) 0x03)
    let b₁ := UInt8.lor (UInt8.land (t₁ <<< 4) 0xF0) (UInt8.land (t₂ >>> 2) 0x0F)
    let b₂ := UInt8.lor (UInt8.land (t₂ <<< 6) 0xF0) (UInt8.land t₃ 0x3F)
    if c₀ = 0 then some [0]
    else if c₂ = 61 then some [b₀, 0]
    else if c₃ = 61 then some [b₀, b₁, 0]
    else (base64_decode cs).map (b₀ :: b₁ :: b₂ :: ·)
  | c :: _ => if c = 0 then some [0] else none
  | [] => none

/-- The memory at a pointer: `sz_str`, which is zero behind the text, and `n32_no` of the first item. -/
def memory (st : ToolJson) : JsonPtr → List UInt8
  | .at off =>
    (st.past ++ st.rest ++ List.replicate (jsonStrSize + 4 - (st.past ++ st.rest).length) 0).drop off
  | .lit s => s ++ [0]

/-- A decoded text in a field of `size` bytes. -/
def decodeInto (st : ToolJson) (size : ℕ) (p : JsonPtr) : Except CloudFault (List UInt8) :=
  match base64_decode (memory st p) with
  | none => .error .overread
  | some bytes => if bytes.length ≤ size then .ok bytes else .error .overflow

/-- One `%d` of `sscanf`: the number and what stands behind it. -/
def scanInt (bs : List UInt8) : Option (ℤ × List UInt8) :=
  let sign := (bs.dropWhile ToolJson.isSpace).take 1
  let digits := (bs.dropWhile ToolJson.isSpace).drop (if sign = [43] ∨ sign = [45] then 1 else 0)
  if (digits.takeWhile ToolJson.isDigit) = [] then none
  else some (ToolJson.atoi bs, digits.dropWhile ToolJson.isDigit)

/-- The numbers that `sscanf` stores for `n` times `%d` with semicolons between. -/
def scanPorts : ℕ → List UInt8 → List ℤ
  | 0, _ => []
  | n + 1, bs =>
    match scanInt bs with
    | none => []
    | some (num, 59 :: bs) => num :: scanPorts n bs
    | some (num, _) => [num]

/-- `hdcctv_device_t`, with those of the five ports that are stored. -/
structure Device where
  devId : List UInt8
  devName : List UInt8
  inIpv4 : List UInt8
  exIpv4 : List UInt8
  ports : List ℤ

def deviceRow (st : ToolJson) (i : ℕ) : Except CloudFault (Option Device) := do
  match ← lookupV2 st "dev_list" i "dev_id", ← lookupV2 st "dev_list" i "dev_name",
    ← lookupV2 st "dev_list" i "in_ipv4", ← lookupV2 st "dev_list" i "ex_ipv4",
    ← lookupV2 st "dev_list" i "port_name", ← lookupV2 st "dev_list" i "port_value" with
  | some devId, some devName, some inIpv4, some exIpv4, some _, some portValue => do
    .ok (some ⟨(st.deref devId).take (tokenSize - 1), ← decodeInto st idSize devName, ← decodeInto st ipSize inIpv4,
      ← decodeInto st ipSize exIpv4, scanPorts 5 (st.deref portValue)⟩)
  | _, _, _, _, _, _ => .ok none

/-- What `hdcctv_client2_doDevList` fills in of `hdcctv_cloud_user_t`. -/
structure CloudUser where
  username : List UInt8
  mobile : List UInt8
  email : List UInt8
  userIpv4 : List UInt8

/-- Behind the result; the table has room for more devices than the loop reads. -/
def devList (user : CloudUser) (st : ToolJson) : Except CloudFault (ℤ × CloudUser × List Device) := do
  match ← lookup st "username", ← lookup st "number", ← lookup st "email", ← lookup st "user_ipv4" with
  | some username, some number, some email, some userIpv4 => do
    let ipv4 ← decodeInto st ipSize userIpv4
    let devices ← tableLoop (deviceRow st) alarmNum 0
    .ok (0, ⟨(st.deref username).take (strSize - 1), (st.deref number).take (strSize - 1),
      (st.deref email).take (strSize - 1), ipv4⟩, devices)
  | _, _, _, _ => .ok (errProtocol, user, [])

def hdcctv_client2_doDevList (user : CloudUser) (ex : Exchange) : Except CloudFault (ℤ × CloudUser × List Device) :=
  exchange (user, []) (parsed (user, []) turned (devList user)) ex

/-! ## The cloud configuration -/

/-- `hdcctv_cloud_cfg_t`. -/
structure CloudCfg where
  usedFlow : ℤ
  totalFlow : ℤ
  usedSpace : ℤ
  totalSpace : ℤ
  recordEnable : ℤ

/-- `tool_json2_getNumber` of `result`; where it fails the number stays 0 and goes through the range test.
The number that is read is not looked at. -/
def searched {α : Type} (out : α) (rest : List UInt8 → Except CloudFault (ℤ × α)) (http : ToolHttp) : Except CloudFault (ℤ × α) :=
  if httpBodySize ≤ (cstr http.body).length then .error .unterminated
  else
    match ToolJson2.getNumber (cstr http.body) (ascii "result") with
    | none => .ok (cloudRange (0 * -1), out)
    | some _ => rest (cstr http.body)

/-- Reads that `||` joins, each with the field it sets. -/
def readFields {α : Type} : List (Option ℤ × (ℤ → α → α)) → α → Except CloudFault (ℤ × α)
  | [], out => .ok (0, out)
  | (none, _) :: _, out => .ok (errProtocol, out)
  | (some n, set) :: reads, out => readFields reads (set n out)

def cloudCfgReads (body : List UInt8) : List (Option ℤ × (ℤ → CloudCfg → CloudCfg)) := [
  (ToolJson2.getInt64 body (ascii "used_flow"), fun n cfg => { cfg with usedFlow := n }),
  (ToolJson2.getInt64 body (ascii "total_flow"), fun n cfg => { cfg with totalFlow := n }),
  (ToolJson2.getInt64 body (ascii "used_space"), fun n cfg => { cfg with usedSpace := n }),
  (ToolJson2.getInt64 body (ascii "total_space"), fun n cfg => { cfg with totalSpace := n }),
  (ToolJson2.getNumber body (ascii "record_enable"), fun n cfg => { cfg with recordEnable := n })]

def hdcctv_client2_getCloudCfg (cfg : CloudCfg) (ex : Exchange) : Except CloudFault (ℤ × CloudCfg) :=
  exchange cfg (searched cfg fun body => readFields (cloudCfgReads body) cfg) ex

def hdcctv_client2_setCloudCfg (ex : Exchange) : Except CloudFault (ℤ × Unit) :=
  exchange () (searched () fun _ => .ok (0, ())) ex

/-! ## All of them -/

/-- The calls, with the structures that the caller hands in. -/
inductive CloudCall where
  | getServiceAddr (addr : ServiceAddr)
  | getSms
  | regUser
  | resetPswd
  | setPswd
  | bindDev
  | doDevList (user : CloudUser)
  | getCloudCfg (cfg : CloudCfg)
  | setCloudCfg
  | getAlarms
  | getQpnsDeviceMaps
  | setQpnsDeviceMaps
  | addQpnsDeviceMaps
  | delQpnsDeviceMaps

/-- What a call returns. -/
def CloudCall.ret (call : CloudCall) (ex : Exchange) : Except CloudFault ℤ :=
  match call with
  | getServiceAddr addr => (hdcctv_client_getServiceAddr addr ex).map Prod.fst
  | getSms => (hdcctv_client2_getSms ex).map Prod.fst
  | regUser => (hdcctv_client2_regUser ex).map Prod.fst
  | resetPswd => (hdcctv_client2_resetPswd ex).map Prod.fst
  | setPswd => (hdcctv_client2_setPswd ex).map Prod.fst
  | bindDev => (hdcctv_client2_bindDev ex).map Prod.fst
  | doDevList user => (hdcctv_client2_doDevList user ex).map Prod.fst
  | getCloudCfg cfg => (hdcctv_client2_getCloudCfg cfg ex).map Prod.fst
  | setCloudCfg => (hdcctv_client2_setCloudCfg ex).map Prod.fst
  | getAlarms => (hdcctv_client2_getAlarms ex).map Prod.fst
  | getQpnsDeviceMaps => (hdcctv_client2_getQpnsDeviceMaps ex).map Prod.fst
  | setQpnsDeviceMaps => (hdcctv_client2_setQpnsDeviceMaps ex).map Prod.fst
  | addQpnsDeviceMaps => (hdcctv_client2_addQpnsDeviceMaps ex).map Prod.fst
  | delQpnsDeviceMaps => (hdcctv_client2_delQpnsDeviceMaps ex).map Prod.fst

end CloudHttp

end SabApp
