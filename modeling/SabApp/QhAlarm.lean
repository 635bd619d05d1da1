import SabApp.QhConfigs

/-!
# Alarm configurations of the QH protocol (tool_ptc.c)

The direction of a line goes out with a setAlarm request, whose decoder does not read it. The getAlarm response is
decoded with its direction, but goes out without.
-/

namespace SabApp

namespace Qh

open CText ToolJson2

open CloudHttp (CloudFault lookup)

/-- PTC_CMD_CFG2_SET_ALARM -/
def cmdSetAlarm : Int32 := 0x00080002

/-- PTC_ERROR_NO_ALARM_TYPE -/
def errorNoAlarmType : Int32 := 3

/-- Rectangles of floating-point numbers: what `%f` prints of one, without quotes, and what `sscanf` reads into one. -/
structure RectFormat (Rect : Type) where
  zero : Rect
  print : Rect → Plain
  scan : List UInt8 → Rect → Rect

/-- `ptc_cfg_alarm_t` -/
structure CfgAlarm (Rect : Type) where
  enable : Int32
  rect : Rect
  drt : Int32

section Codec

variable {Rect : Type} (fmt : RectFormat Rect)

/-- The size of the buffer for the rectangle. -/
def rectBufSize : ℕ := 256

/-- `tool_ptc_qh_buildRect` -/
def tool_ptc_qh_buildRect (rect : Rect) : Plain where
  text := (fmt.print rect).text.take (rectBufSize - 1)
  no_quote h := (fmt.print rect).no_quote (List.mem_of_mem_take h)
  no_zero h := (fmt.print rect).no_zero (List.mem_of_mem_take h)

/-- `if (index) tool_ptc_qh_parseRect(..)`, where the rectangle was cleared before. -/
def rectOf (st : ToolJson) : Except CloudFault Rect := do
  match ← lookup st "rect" with
  | some p => .ok (fmt.scan (st.deref p) fmt.zero)
  | none => .ok fmt.zero

def alarmResponse (cfg : CfgAlarm Rect) : List (Plain × Plain) :=
  [(.ofAscii "result", .decimal 0), (.ofAscii "enable", .decimal cfg.enable.toInt),
    (.ofAscii "rect", tool_ptc_qh_buildRect fmt cfg.rect)]

def tool_ptc_qh_d2c_encode_getAlarm (cfg : CfgAlarm Rect) : ℕ × List UInt8 := printed ptcMsgSize (alarmResponse fmt cfg)

/-- The response is searched for its result, and then parsed. -/
def tool_ptc_qh_d2c_decode_getAlarm (data : List UInt8) (cfg : CfgAlarm Rect) : Except CloudFault (ℤ × CfgAlarm Rect) :=
  searchedResult data (-8) cfg <| parsedInto data (-8) cfg fun st => do
    .ok (0, ⟨← number st "enable", ← rectOf fmt st, ← number st "drt"⟩)

def alarmRequest (alarmType : Int32) (cfg : CfgAlarm Rect) : List (Plain × Plain) :=
  [(.ofAscii "cmd", .decimal cmdSetAlarm.toInt), (.ofAscii "alarm_type", .decimal alarmType.toInt),
    (.ofAscii "enable", .decimal cfg.enable.toInt), (.ofAscii "rect", tool_ptc_qh_buildRect fmt cfg.rect),
    (.ofAscii "drt", .decimal cfg.drt.toInt)]

def tool_ptc_qh_c2d_encode_setAlarm (alarmType : Int32) (cfg : CfgAlarm Rect) : ℕ × List UInt8 :=
  printed ptcMsgSize (alarmRequest fmt alarmType cfg)

/-- The message, the type and the structure after the call. -/
def tool_ptc_qh_c2d_decode_setAlarm (msg : ℕ × List UInt8) (alarmType : Int32) (cfg : CfgAlarm Rect) :
    Except CloudFault (ℤ × (ℕ × List UInt8) × Int32 × CfgAlarm Rect) :=
  parsedInto msg.2 errorJson.toInt (errorAnswer errorJson, alarmType, cfg) fun st => do
    match ← lookup st "alarm_type" with
    | none => .ok (errorJson.toInt, errorAnswer errorNoAlarmType, alarmType, cfg)
    | some p =>
      .ok (0, msg, Int32.ofInt (ToolJson.atoi (st.deref p)), ⟨← number st "enable", ← rectOf fmt st, 0⟩)

/-! ## Reading back -/

theorem length_buildRect (rect : Rect) : (tool_ptc_qh_buildRect fmt rect).text.length ≤ 255 :=
  List.length_take_le _ _

theorem decimal_short (n : Int32) : (Plain.decimal n.toInt).text.length ≤ 255 :=
  Nat.le_trans (length_int32_le n) (by decide)

theorem rectOf_member {st : ToolJson} {ms : List (Plain × Plain)} (hst : LooksUp st ms)
    (hn : (ms.map fun m => m.1.text).Nodup) {v : Plain} (hm : (.ofAscii "rect", v) ∈ ms) :
    rectOf fmt st = .ok (fmt.scan v.text fmt.zero) := by
  obtain ⟨q, hq, hd⟩ := hst.member hn hm rfl
  rw [rectOf, hq]
  show Except.ok (fmt.scan (st.deref q) fmt.zero) = _
  rw [hd]

/-- The direction is not in the response, and stays cleared. -/
theorem decode_getAlarm_eq (cfg old : CfgAlarm Rect) : ∃ rect,
    tool_ptc_qh_d2c_decode_getAlarm fmt (tool_ptc_qh_d2c_encode_getAlarm fmt cfg).2 old =
      .ok (0, ⟨cfg.enable, rect, 0⟩) := by
  have hsmall : Small (alarmResponse fmt cfg) := by
    refine ⟨by simp [alarmResponse], by simp [alarmResponse], ?_⟩
    simp only [alarmResponse, List.forall_mem_cons]
    exact ⟨by decide, ⟨by decide, decimal_short cfg.enable⟩, ⟨by decide, length_buildRect fmt cfg.rect⟩, nofun⟩
  have hn : ((alarmResponse fmt cfg).map fun m => m.1.text).Nodup := by
    show [ascii "result", ascii "enable", ascii "rect"].Nodup
    decide
  obtain ⟨st, hp, hst⟩ := hsmall.parse
  have hm : (Plain.ofAscii "enable", Plain.decimal cfg.enable.toInt) ∈ alarmResponse fmt cfg := by simp [alarmResponse]
  have henable : number st "enable" = .ok cfg.enable := hst.numberOf hn hm rfl
  have hrect := rectOf_member fmt hst hn (v := tool_ptc_qh_buildRect fmt cfg.rect) (by simp [alarmResponse])
  have hdrt : number st "drt" = .ok 0 := hst.number_none rfl
  have hresult : getNumber (JsonText.ofStrings (alarmResponse fmt cfg)).text (ascii "result") = some 0 :=
    getNumber_result _
  refine ⟨fmt.scan (tool_ptc_qh_buildRect fmt cfg.rect).text fmt.zero, ?_⟩
  rw [tool_ptc_qh_d2c_decode_getAlarm, searchedResult, tool_ptc_qh_d2c_encode_getAlarm, hsmall.printed (Nat.le_refl _),
    hresult, parsedInto_ok hp, henable, hrect, hdrt]
  rfl

theorem decode_setAlarm_eq (alarmType oldType : Int32) (cfg old : CfgAlarm Rect) : ∃ rect,
    tool_ptc_qh_c2d_decode_setAlarm fmt (tool_ptc_qh_c2d_encode_setAlarm fmt alarmType cfg) oldType old =
      .ok (0, tool_ptc_qh_c2d_encode_setAlarm fmt alarmType cfg, alarmType, ⟨cfg.enable, rect, 0⟩) := by
  have hsmall : Small (alarmRequest fmt alarmType cfg) := by
    refine ⟨by simp [alarmRequest], by simp [alarmRequest], ?_⟩
    simp only [alarmRequest, List.forall_mem_cons]
    exact ⟨by decide, ⟨by decide, decimal_short alarmType⟩, ⟨by decide, decimal_short cfg.enable⟩,
      ⟨by decide, length_buildRect fmt cfg.rect⟩, ⟨by decide, decimal_short cfg.drt⟩, nofun⟩
  have hn : ((alarmRequest fmt alarmType cfg).map fun m => m.1.text).Nodup := by
    show [ascii "cmd", ascii "alarm_type", ascii "enable", ascii "rect", ascii "drt"].Nodup
    decide
  have henc : tool_ptc_qh_c2d_encode_setAlarm fmt alarmType cfg = _ := hsmall.printed (Nat.le_refl _)
  obtain ⟨st, hp, hst⟩ := hsmall.parse
  have hm : (Plain.ofAscii "enable", Plain.decimal cfg.enable.toInt) ∈ alarmRequest fmt alarmType cfg := by
    simp [alarmRequest]
  have henable : number st "enable" = .ok cfg.enable := hst.numberOf hn hm rfl
  have hrect := rectOf_member fmt hst hn (v := tool_ptc_qh_buildRect fmt cfg.rect) (by simp [alarmRequest])
  have hmt : (Plain.ofAscii "alarm_type", Plain.decimal alarmType.toInt) ∈ alarmRequest fmt alarmType cfg := by
    simp [alarmRequest]
  obtain ⟨p, hlookup, hd⟩ : ∃ p, lookup st "alarm_type" = .ok (some p) ∧ _ := hst.member hn hmt rfl
  have htype : Int32.ofInt (ToolJson.atoi (st.deref p)) = alarmType := by
    have hnum : number st "alarm_type" = .ok alarmType := number_eq hlookup hd
    rw [number, hlookup] at hnum
    exact Except.ok.inj hnum
  refine ⟨fmt.scan (tool_ptc_qh_buildRect fmt cfg.rect).text fmt.zero, ?_⟩
  rw [tool_ptc_qh_c2d_decode_setAlarm, henc, parsedInto_ok hp, hlookup, henable, hrect]
  show Except.ok (0, _, Int32.ofInt (ToolJson.atoi (st.deref p)), _) = _
  rw [htype]

/-- **Alarm configurations.** Either way they come back exactly where the direction is 0. -/
theorem alarm_returns_iff (alarmType oldType : Int32) (cfg old : CfgAlarm Rect) :
    ((∃ msg new, tool_ptc_qh_c2d_decode_setAlarm fmt (tool_ptc_qh_c2d_encode_setAlarm fmt alarmType cfg) oldType old =
        .ok (0, msg, alarmType, new) ∧ new.enable = cfg.enable ∧ new.drt = cfg.drt) ↔ cfg.drt = 0) ∧
    ((∃ new, tool_ptc_qh_d2c_decode_getAlarm fmt (tool_ptc_qh_d2c_encode_getAlarm fmt cfg).2 old = .ok (0, new) ∧
        new.enable = cfg.enable ∧ new.drt = cfg.drt) ↔ cfg.drt = 0) := by
  obtain ⟨rect, hset⟩ := decode_setAlarm_eq fmt alarmType oldType cfg old
  obtain ⟨rect', hget⟩ := decode_getAlarm_eq fmt cfg old
  constructor
  · constructor
    · rintro ⟨msg, new, hdec, -, hdrt⟩
      rw [hset] at hdec
      cases hdec
      exact hdrt.symm
    · intro hdrt
      exact ⟨_, _, hset, rfl, hdrt.symm⟩
  · constructor
    · rintro ⟨new, hdec, -, hdrt⟩
      rw [hget] at hdec
      cases hdec
      exact hdrt.symm
    · intro hdrt
      exact ⟨_, hget, rfl, hdrt.symm⟩

end Codec

/-- Rectangles that are all zero. -/
def noRects : RectFormat Unit :=
  ⟨(), fun _ => .ofAscii "(0.000000,0.000000);(0.000000,0.000000);(0.000000,0.000000);(0.000000,0.000000);",
    fun _ _ => ()⟩

/-- A line to the right. -/
def lineRight : CfgAlarm Unit := ⟨1, (), 1⟩

/-- It loses its direction both ways. -/
theorem alarm_direction_lost :
    (¬ ∃ old msg new, tool_ptc_qh_c2d_decode_setAlarm noRects (tool_ptc_qh_c2d_encode_setAlarm noRects 2 lineRight) 0 old =
      .ok (0, msg, 2, new) ∧ new.drt = lineRight.drt) ∧
    ¬ ∃ old new, tool_ptc_qh_d2c_decode_getAlarm noRects (tool_ptc_qh_d2c_encode_getAlarm noRects lineRight).2 old =
      .ok (0, new) ∧ new.drt = lineRight.drt := by
  have hne : (0 : Int32) ≠ lineRight.drt := by decide
  constructor
  · rintro ⟨old, msg, new, hdec, hdrt⟩
    obtain ⟨rect, hset⟩ := decode_setAlarm_eq noRects 2 0 lineRight old
    rw [hset] at hdec
    cases hdec
    exact hne hdrt
  · rintro ⟨old, new, hdec, hdrt⟩
    obtain ⟨rect, hget⟩ := decode_getAlarm_eq noRects lineRight old
    rw [hget] at hdec
    cases hdec
    exact hne hdrt

end Qh

end SabApp
