import SabApp.QhCodecs

/-!
# Integer configurations of the QH protocol (tool_ptc.c)

Requests carry the command, responses a result; behind it each has the fields that its decoder reads.
-/

namespace SabApp

namespace Qh

open CText ToolJson2

open CloudHttp (CloudFault)

/-! ## Commands -/

/-- PTC_CMD_CFG2_SET_WORKMODE -/
def cmdSetWorkMode : Int32 := 0x00080004

/-- PTC_CMD_CFG2_SET_MOBILE -/
def cmdSetMobile : Int32 := 0x00080006

/-- PTC_CMD_CFG2_SET_DEVRECORD -/
def cmdSetDevRecord : Int32 := 0x0008000A

/-- PTC_CMD_CFG2_CTRL_PTZ -/
def cmdCtrlPtz : Int32 := 0x0008000B

/-- PTC_CMD_CFG2_SYNC_TIME -/
def cmdSyncTime : Int32 := 0x0008000C

/-- PTC_CMD_CFG2_SET_AV -/
def cmdSetAv : Int32 := 0x00080010

/-- PTC_ERROR_JSON -/
def errorJson : Int32 := 1

/-- What a decoder of requests leaves in the message that it refuses. -/
def errorAnswer (code : Int32) : ℕ × List UInt8 := printed ptcMsgSize (numbers [(.ofAscii "result", code)])

/-! ## PTZ control and time -/

def tool_ptc_qh_c2d_encode_ctrlPtz (channel ptz param : Int32) : ℕ × List UInt8 :=
  printed ptcMsgSize (numbers [(.ofAscii "cmd", cmdCtrlPtz), (.ofAscii "channel", channel), (.ofAscii "ptz", ptz),
    (.ofAscii "param", param)])

/-- What it returns, and the three numbers. -/
def tool_ptc_qh_c2d_decode_ctrlPtz (data : List UInt8) : ℤ × Int32 × Int32 × Int32 :=
  (0, Int32.ofInt (numberOrZero data "channel"), Int32.ofInt (numberOrZero data "ptz"),
    Int32.ofInt (numberOrZero data "param"))

def tool_ptc_qh_c2d_encode_syncTime (utcSec : UInt32) (zone dstHour : Int32) : ℕ × List UInt8 :=
  printed ptcMsgSize (numbers [(.ofAscii "cmd", cmdSyncTime), (.ofAscii "utc_sec", utcSec.toInt32),
    (.ofAscii "zone", zone), (.ofAscii "dst_hour", dstHour)])

def tool_ptc_qh_c2d_decode_syncTime (data : List UInt8) : ℤ × UInt32 × Int32 × Int32 :=
  (0, UInt32.ofInt (numberOrZero data "utc_sec"), Int32.ofInt (numberOrZero data "zone"),
    Int32.ofInt (numberOrZero data "dst_hour"))

/-! ## Work mode -/

/-- `ptc_cfg_workMode_t` -/
structure WorkMode where
  mode : Int32
  deriving DecidableEq

def tool_ptc_qh_d2c_encode_getWorkMode (cfg : WorkMode) : ℕ × List UInt8 :=
  printed ptcMsgSize (numbers [(.ofAscii "result", 0), (.ofAscii "mode", cfg.mode)])

def tool_ptc_qh_d2c_decode_getWorkMode (data : List UInt8) (cfg : WorkMode) : ℤ × WorkMode :=
  afterResult data (-8) cfg (readNumbers data (-8) [("mode", fun n cfg => { cfg with mode := n })] ⟨0⟩)

def tool_ptc_qh_c2d_encode_setWorkMode (cfg : WorkMode) : ℕ × List UInt8 :=
  printed ptcMsgSize (numbers [(.ofAscii "cmd", cmdSetWorkMode), (.ofAscii "mode", cfg.mode)])

def tool_ptc_qh_c2d_decode_setWorkMode (msg : ℕ × List UInt8) (cfg : WorkMode) :
    Except CloudFault (ℤ × (ℕ × List UInt8) × WorkMode) :=
  parsedInto msg.2 errorJson.toInt (errorAnswer errorJson, cfg) fun st => do .ok (0, msg, ⟨← number st "mode"⟩)

/-! ## Mobile network -/

/-- `ptc_cfg_mobile_t` -/
structure Mobile where
  enable3g : Int32
  status3g : Int32
  deriving DecidableEq

def tool_ptc_qh_d2c_encode_getMobile (cfg : Mobile) : ℕ × List UInt8 :=
  printed ptcMsgSize (numbers [(.ofAscii "result", 0), (.ofAscii "enable_3g", cfg.enable3g),
    (.ofAscii "status_3g", cfg.status3g)])

def tool_ptc_qh_d2c_decode_getMobile (data : List UInt8) (cfg : Mobile) : ℤ × Mobile :=
  afterResult data (-8) cfg (readNumbers data (-8) [("enable_3g", fun n cfg => { cfg with enable3g := n }),
    ("status_3g", fun n cfg => { cfg with status3g := n })] ⟨0, 0⟩)

def tool_ptc_qh_c2d_encode_setMobile (cfg : Mobile) : ℕ × List UInt8 :=
  printed ptcMsgSize (numbers [(.ofAscii "cmd", cmdSetMobile), (.ofAscii "enable_3g", cfg.enable3g),
    (.ofAscii "status_3g", cfg.status3g)])

def tool_ptc_qh_c2d_decode_setMobile (data : List UInt8) (cfg : Mobile) : Except CloudFault (ℤ × Mobile) :=
  parsedInto data (-8) cfg fun st => do .ok (0, ⟨← number st "enable_3g", ← number st "status_3g"⟩)

/-! ## Recording on the device -/

/-- `ptc_cfg_devRecord_t` -/
structure DevRecord where
  enable : Int32
  coverType : Int32
  state : Int32
  totalSize : Int32
  leftSize : Int32
  deriving DecidableEq

def tool_ptc_qh_d2c_encode_getDevRecord (cfg : DevRecord) : ℕ × List UInt8 :=
  printed ptcMsgSize (numbers [(.ofAscii "result", 0), (.ofAscii "enable", cfg.enable),
    (.ofAscii "cover_type", cfg.coverType), (.ofAscii "state", cfg.state), (.ofAscii "total_size", cfg.totalSize),
    (.ofAscii "left_size", cfg.leftSize)])

/-- The response is searched for its result, and then parsed. -/
def tool_ptc_qh_d2c_decode_getDevRecord (data : List UInt8) (cfg : DevRecord) : Except CloudFault (ℤ × DevRecord) :=
  searchedResult data (-8) cfg <| parsedInto data (-8) cfg fun st => afterParsed st cfg do
    .ok (0, ⟨← number st "enable", ← number st "cover_type", ← number st "state", ← number st "total_size",
      ← number st "left_size"⟩)

def tool_ptc_qh_c2d_encode_setDevRecord (cfg : DevRecord) : ℕ × List UInt8 :=
  printed ptcMsgSize (numbers [(.ofAscii "cmd", cmdSetDevRecord), (.ofAscii "enable", cfg.enable),
    (.ofAscii "cover_type", cfg.coverType)])

def tool_ptc_qh_c2d_decode_setDevRecord (data : List UInt8) (cfg : DevRecord) : Except CloudFault (ℤ × DevRecord) :=
  parsedInto data (-8) cfg fun st => do .ok (0, ⟨← number st "enable", ← number st "cover_type", 0, 0, 0⟩)

/-! ## Covered channels -/

/-- `ptc_cfg_av_t` -/
structure Av where
  mask : Int32
  deriving DecidableEq

def tool_ptc_qh_d2c_encode_getAv (cfg : Av) : ℕ × List UInt8 :=
  printed ptcMsgSize (numbers [(.ofAscii "result", 0), (.ofAscii "mask", cfg.mask)])

/-- Its errors are -1, and the structure is not cleared. -/
def tool_ptc_qh_d2c_decode_getAv (data : List UInt8) (cfg : Av) : ℤ × Av :=
  afterResult data (-1) cfg (readNumbers data (-1) [("mask", fun n cfg => { cfg with mask := n })] cfg)

def tool_ptc_qh_c2d_encode_setAv (cfg : Av) : ℕ × List UInt8 :=
  printed ptcMsgSize (numbers [(.ofAscii "cmd", cmdSetAv), (.ofAscii "mask", cfg.mask)])

def tool_ptc_qh_c2d_decode_setAv (msg : ℕ × List UInt8) (cfg : Av) : ℤ × (ℕ × List UInt8) × Av :=
  match getNumber msg.2 (ascii "mask") with
  | none => (errorJson.toInt, errorAnswer errorJson, cfg)
  | some n => (0, msg, { cfg with mask := Int32.ofInt n })

/-! ## Reading back -/

theorem ctrlPtz_inverse (channel ptz param : Int32) :
    tool_ptc_qh_c2d_decode_ctrlPtz (tool_ptc_qh_c2d_encode_ctrlPtz channel ptz param).2 =
      (0, channel, ptz, param) := by
  have hm : Message (tool_ptc_qh_c2d_encode_ctrlPtz channel ptz param).2 _ :=
    message_numbers [ascii "cmd", ascii "channel", ascii "ptz", ascii "param"] rfl (by decide)
  have hchannel : numberOrZero _ "channel" = channel.toInt := hm.orZero (.tail .head)
  have hptz : numberOrZero _ "ptz" = ptz.toInt := hm.orZero (.tail (.tail .head))
  have hparam : numberOrZero _ "param" = param.toInt := hm.orZero (.tail (.tail (.tail .head)))
  unfold tool_ptc_qh_c2d_decode_ctrlPtz
  simp only [hchannel, hptz, hparam, Int32.ofInt_toInt]

theorem syncTime_inverse (utcSec : UInt32) (zone dstHour : Int32) :
    tool_ptc_qh_c2d_decode_syncTime (tool_ptc_qh_c2d_encode_syncTime utcSec zone dstHour).2 =
      (0, utcSec, zone, dstHour) := by
  have hm : Message (tool_ptc_qh_c2d_encode_syncTime utcSec zone dstHour).2 _ :=
    message_numbers [ascii "cmd", ascii "utc_sec", ascii "zone", ascii "dst_hour"] rfl (by decide)
  have hutc : numberOrZero _ "utc_sec" = signed utcSec := hm.orZero (.tail .head)
  have hzone : numberOrZero _ "zone" = zone.toInt := hm.orZero (.tail (.tail .head))
  have hdst : numberOrZero _ "dst_hour" = dstHour.toInt := hm.orZero (.tail (.tail (.tail .head)))
  unfold tool_ptc_qh_c2d_decode_syncTime
  simp only [hutc, hzone, hdst, Int32.ofInt_toInt, ofInt_signed]

theorem getWorkMode_inverse (cfg old : WorkMode) :
    tool_ptc_qh_d2c_decode_getWorkMode (tool_ptc_qh_d2c_encode_getWorkMode cfg).2 old = (0, cfg) := by
  have hm : Message (tool_ptc_qh_d2c_encode_getWorkMode cfg).2 _ :=
    message_numbers [ascii "result", ascii "mode"] rfl (by decide)
  unfold tool_ptc_qh_d2c_decode_getWorkMode
  rw [hm.afterResult .head]
  exact hm.readNumbers [cfg.mode] (.cons (.tail .head) .nil)

theorem setWorkMode_inverse (cfg old : WorkMode) :
    tool_ptc_qh_c2d_decode_setWorkMode (tool_ptc_qh_c2d_encode_setWorkMode cfg) old =
      .ok (0, tool_ptc_qh_c2d_encode_setWorkMode cfg, cfg) := by
  have hm : Message (tool_ptc_qh_c2d_encode_setWorkMode cfg).2 _ :=
    message_numbers [ascii "cmd", ascii "mode"] rfl (by decide)
  obtain ⟨st, hp, hst⟩ := hm.parse
  have hmode : number st "mode" = .ok cfg.mode := hst.number (.tail .head)
  unfold tool_ptc_qh_c2d_decode_setWorkMode
  rw [parsedInto_ok hp, hmode]
  rfl

theorem getMobile_inverse (cfg old : Mobile) :
    tool_ptc_qh_d2c_decode_getMobile (tool_ptc_qh_d2c_encode_getMobile cfg).2 old = (0, cfg) := by
  have hm : Message (tool_ptc_qh_d2c_encode_getMobile cfg).2 _ :=
    message_numbers [ascii "result", ascii "enable_3g", ascii "status_3g"] rfl (by decide)
  unfold tool_ptc_qh_d2c_decode_getMobile
  rw [hm.afterResult .head]
  exact hm.readNumbers [cfg.enable3g, cfg.status3g]
    (.cons (.tail .head) (.cons (.tail (.tail .head)) .nil))

theorem setMobile_inverse (cfg old : Mobile) :
    tool_ptc_qh_c2d_decode_setMobile (tool_ptc_qh_c2d_encode_setMobile cfg).2 old = .ok (0, cfg) := by
  have hm : Message (tool_ptc_qh_c2d_encode_setMobile cfg).2 _ :=
    message_numbers [ascii "cmd", ascii "enable_3g", ascii "status_3g"] rfl (by decide)
  obtain ⟨st, hp, hst⟩ := hm.parse
  have henable : number st "enable_3g" = .ok cfg.enable3g := hst.number (.tail .head)
  have hstatus : number st "status_3g" = .ok cfg.status3g := hst.number (.tail (.tail .head))
  unfold tool_ptc_qh_c2d_decode_setMobile
  rw [parsedInto_ok hp, henable, hstatus]
  rfl

theorem getDevRecord_inverse (cfg old : DevRecord) :
    tool_ptc_qh_d2c_decode_getDevRecord (tool_ptc_qh_d2c_encode_getDevRecord cfg).2 old = .ok (0, cfg) := by
  have hm : Message (tool_ptc_qh_d2c_encode_getDevRecord cfg).2 _ :=
    message_numbers [ascii "result", ascii "enable", ascii "cover_type", ascii "state", ascii "total_size",
      ascii "left_size"] rfl (by decide)
  obtain ⟨st, hp, hst⟩ := hm.parse
  have henable : number st "enable" = .ok cfg.enable := hst.number (.tail .head)
  have hcover : number st "cover_type" = .ok cfg.coverType := hst.number (.tail (.tail .head))
  have hstate : number st "state" = .ok cfg.state := hst.number (.tail (.tail (.tail .head)))
  have htotal : number st "total_size" = .ok cfg.totalSize := hst.number (.tail (.tail (.tail (.tail .head))))
  have hleft : number st "left_size" = .ok cfg.leftSize := hst.number (.tail (.tail (.tail (.tail (.tail .head)))))
  unfold tool_ptc_qh_d2c_decode_getDevRecord
  rw [hm.searchedResult .head, parsedInto_ok hp, hst.afterParsed .head, henable,
    hcover, hstate, htotal, hleft]
  rfl

/-- The encoder writes the first two fields. -/
theorem setDevRecord_inverse (cfg old : DevRecord) :
    tool_ptc_qh_c2d_decode_setDevRecord (tool_ptc_qh_c2d_encode_setDevRecord cfg).2 old =
      .ok (0, ⟨cfg.enable, cfg.coverType, 0, 0, 0⟩) := by
  have hm : Message (tool_ptc_qh_c2d_encode_setDevRecord cfg).2 _ :=
    message_numbers [ascii "cmd", ascii "enable", ascii "cover_type"] rfl (by decide)
  obtain ⟨st, hp, hst⟩ := hm.parse
  have henable : number st "enable" = .ok cfg.enable := hst.number (.tail .head)
  have hcover : number st "cover_type" = .ok cfg.coverType := hst.number (.tail (.tail .head))
  unfold tool_ptc_qh_c2d_decode_setDevRecord
  rw [parsedInto_ok hp, henable, hcover]
  rfl

theorem getAv_inverse (cfg old : Av) :
    tool_ptc_qh_d2c_decode_getAv (tool_ptc_qh_d2c_encode_getAv cfg).2 old = (0, cfg) := by
  have hm : Message (tool_ptc_qh_d2c_encode_getAv cfg).2 _ :=
    message_numbers [ascii "result", ascii "mask"] rfl (by decide)
  unfold tool_ptc_qh_d2c_decode_getAv
  rw [hm.afterResult .head]
  exact hm.readNumbers [cfg.mask] (.cons (.tail .head) .nil)

theorem setAv_inverse (cfg old : Av) : tool_ptc_qh_c2d_decode_setAv (tool_ptc_qh_c2d_encode_setAv cfg) old =
    (0, tool_ptc_qh_c2d_encode_setAv cfg, cfg) := by
  have hm : Message (tool_ptc_qh_c2d_encode_setAv cfg).2 _ :=
    message_numbers [ascii "cmd", ascii "mask"] rfl (by decide)
  have hmask : getNumber _ (ascii "mask") = some cfg.mask.toInt := hm.getNumber (.tail .head)
  unfold tool_ptc_qh_c2d_decode_setAv
  simp only [hmask, Int32.ofInt_toInt]

/-- **Integer configurations.** Every decoder returns 0 on what its encoder wrote and restores each field that was
written, whatever the structure held. -/
theorem configs_restored :
    (∀ channel ptz param, tool_ptc_qh_c2d_decode_ctrlPtz (tool_ptc_qh_c2d_encode_ctrlPtz channel ptz param).2 =
      (0, channel, ptz, param)) ∧
    (∀ utcSec zone dstHour, tool_ptc_qh_c2d_decode_syncTime (tool_ptc_qh_c2d_encode_syncTime utcSec zone dstHour).2 =
      (0, utcSec, zone, dstHour)) ∧
    (∀ cfg old, tool_ptc_qh_d2c_decode_getWorkMode (tool_ptc_qh_d2c_encode_getWorkMode cfg).2 old = (0, cfg)) ∧
    (∀ cfg old, tool_ptc_qh_c2d_decode_setWorkMode (tool_ptc_qh_c2d_encode_setWorkMode cfg) old =
      .ok (0, tool_ptc_qh_c2d_encode_setWorkMode cfg, cfg)) ∧
    (∀ cfg old, tool_ptc_qh_d2c_decode_getMobile (tool_ptc_qh_d2c_encode_getMobile cfg).2 old = (0, cfg)) ∧
    (∀ cfg old, tool_ptc_qh_c2d_decode_setMobile (tool_ptc_qh_c2d_encode_setMobile cfg).2 old = .ok (0, cfg)) ∧
    (∀ cfg old, tool_ptc_qh_d2c_decode_getDevRecord (tool_ptc_qh_d2c_encode_getDevRecord cfg).2 old = .ok (0, cfg)) ∧
    (∀ cfg old, ∃ cfg', tool_ptc_qh_c2d_decode_setDevRecord (tool_ptc_qh_c2d_encode_setDevRecord cfg).2 old =
      .ok (0, cfg') ∧ cfg'.enable = cfg.enable ∧ cfg'.coverType = cfg.coverType) ∧
    (∀ cfg old, tool_ptc_qh_d2c_decode_getAv (tool_ptc_qh_d2c_encode_getAv cfg).2 old = (0, cfg)) ∧
    ∀ cfg old, tool_ptc_qh_c2d_decode_setAv (tool_ptc_qh_c2d_encode_setAv cfg) old =
      (0, tool_ptc_qh_c2d_encode_setAv cfg, cfg) :=
  ⟨ctrlPtz_inverse, syncTime_inverse, getWorkMode_inverse, setWorkMode_inverse, getMobile_inverse, setMobile_inverse,
    getDevRecord_inverse, fun cfg old => ⟨_, setDevRecord_inverse cfg old, rfl, rfl⟩, getAv_inverse, setAv_inverse⟩

end Qh

end SabApp
