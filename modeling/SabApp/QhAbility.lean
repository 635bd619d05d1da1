import SabApp.QhCodecs

/-!
# Abilities of the QH protocol (tool_ptc.c)

The response has the device's id as free text between its numbers, and the decoder searches the text for each name. An id
that reads as the name of a later member hides this member.
-/

namespace SabApp

namespace Qh

open CText ToolJson2

/-- `ptc_ability_base_t`, with the text in `dev_id`. -/
structure AbilityBase where
  deviceType : UInt32
  videoInputNum : UInt8
  audioInputNum : UInt8
  alarmInputNum : UInt8
  alarmOutputNum : UInt8
  devId : List UInt8
  deriving DecidableEq

/-- `ptc_cfg_audio_ability_t` -/
structure AudioAbility where
  enable : UInt8
  sampleRate : UInt8
  bitWidth : UInt8
  encodeType : UInt8
  frameSize : UInt32
  deriving DecidableEq

/-- `ptc_cfg_ability_t` -/
structure Ability where
  videoInputNum : UInt8
  audioInputNum : UInt8
  alarmInputNum : UInt8
  alarmOutputNum : UInt8
  audio : AudioAbility
  base : AbilityBase
  deriving DecidableEq

/-- The structure after `tool_mem_memset`. -/
def Ability.cleared : Ability := ⟨0, 0, 0, 0, ⟨0, 0, 0, 0, 0⟩, ⟨0, 0, 0, 0, 0, []⟩⟩

/-- An `unsigned char` in an `int`. -/
def ofByte (b : UInt8) : Int32 := b.toUInt32.toInt32

def toByte (n : Int32) : UInt8 := n.toUInt32.toUInt8

def baseFields (base : AbilityBase) : List (Plain × Int32) :=
  [(.ofAscii "base.device_type", base.deviceType.toInt32), (.ofAscii "base.video_input_num", ofByte base.videoInputNum),
    (.ofAscii "base.audio_input_num", ofByte base.audioInputNum),
    (.ofAscii "base.alarm_input_num", ofByte base.alarmInputNum),
    (.ofAscii "base.alarm_output_num", ofByte base.alarmOutputNum)]

def audioFields (audio : AudioAbility) : List (Plain × Int32) :=
  [(.ofAscii "audio_ability.enable", ofByte audio.enable),
    (.ofAscii "audio_ability.sample_rate", ofByte audio.sampleRate),
    (.ofAscii "audio_ability.bit_width", ofByte audio.bitWidth),
    (.ofAscii "audio_ability.encode_type", ofByte audio.encodeType),
    (.ofAscii "audio_ability.frame_size", audio.frameSize.toInt32)]

def tool_ptc_qh_d2c_encode_getAbility (cfg : Ability) : ℕ × List UInt8 :=
  printedRaw videoFrameSize (ascii "result", Decimal.decimal 0) ((numbers (baseFields cfg.base)).map raw ++
    (ascii "base.dev_id", cfg.base.devId) :: (numbers (audioFields cfg.audio)).map raw)

/-- Where each number of `base` is stored. -/
def baseSets : List (String × (Int32 → Ability → Ability)) :=
  [("base.device_type", fun n cfg => { cfg with base.deviceType := n.toUInt32 }),
    ("base.video_input_num", fun n cfg => { cfg with base.videoInputNum := toByte n }),
    ("base.audio_input_num", fun n cfg => { cfg with base.audioInputNum := toByte n }),
    ("base.alarm_input_num", fun n cfg => { cfg with base.alarmInputNum := toByte n }),
    ("base.alarm_output_num", fun n cfg => { cfg with base.alarmOutputNum := toByte n })]

def audioSets : List (String × (Int32 → Ability → Ability)) :=
  [("audio_ability.enable", fun n cfg => { cfg with audio.enable := toByte n }),
    ("audio_ability.sample_rate", fun n cfg => { cfg with audio.sampleRate := toByte n }),
    ("audio_ability.bit_width", fun n cfg => { cfg with audio.bitWidth := toByte n }),
    ("audio_ability.encode_type", fun n cfg => { cfg with audio.encodeType := toByte n }),
    ("audio_ability.frame_size", fun n cfg => { cfg with audio.frameSize := n.toUInt32 })]

def tool_ptc_qh_d2c_decode_getAbility (data : List UInt8) (cfg : Ability) : ℤ × Ability :=
  afterResult data (-8) cfg <|
    let r := readNumbers data (-8) baseSets .cleared
    if r.1 < 0 then r
    else
      match value64 data (ascii "base.dev_id") with
      | none => (-8, r.2)
      | some devId =>
        let r := readNumbers data (-8) audioSets { r.2 with base.devId := devId }
        if r.1 < 0 then r
        else (0, { r.2 with
          videoInputNum := r.2.base.videoInputNum
          audioInputNum := r.2.base.audioInputNum
          alarmInputNum := r.2.base.alarmInputNum
          alarmOutputNum := r.2.base.alarmOutputNum })

/-- What `dev_id` may be. -/
structure AbilityBase.Sendable (base : AbilityBase) : Prop where
  short : base.devId.length ≤ 63
  no_quote : 34 ∉ base.devId
  no_zero : 0 ∉ base.devId

/-- Each field that was written is restored. -/
def AbilityReturns (cfg old : Ability) : Prop :=
  ∃ new, tool_ptc_qh_d2c_decode_getAbility (tool_ptc_qh_d2c_encode_getAbility cfg).2 old = (0, new) ∧
    new.base = cfg.base ∧ new.audio = cfg.audio

/-- The names of the members behind `base.dev_id`. -/
def audioNames : List (List UInt8) := audioSets.map fun s => ascii s.1

/-! ## The response -/

def responseMembers (cfg : Ability) (h : cfg.base.Sendable) : List (Plain × Plain) :=
  ((.ofAscii "result", .decimal 0) :: numbers (baseFields cfg.base)) ++
    (.ofAscii "base.dev_id", ⟨cfg.base.devId, h.no_quote, h.no_zero⟩) :: numbers (audioFields cfg.audio)

theorem encode_getAbility_eq (cfg : Ability) (h : cfg.base.Sendable) :
    tool_ptc_qh_d2c_encode_getAbility cfg = printed videoFrameSize (responseMembers cfg h) := by
  rw [responseMembers, List.cons_append, ← printedRaw_raw, List.map_append, List.map_cons]
  rfl

def responseNames : List (List UInt8) :=
  [ascii "result", ascii "base.device_type", ascii "base.video_input_num", ascii "base.audio_input_num",
    ascii "base.alarm_input_num", ascii "base.alarm_output_num", ascii "base.dev_id"] ++ audioNames

theorem audioFields_names (audio : AudioAbility) : (audioFields audio).map (fun f => f.1.text) = audioNames := by
  simp only [audioFields, audioNames, audioSets, Plain.ofAscii, List.map_cons, List.map_nil]

theorem responseMembers_names (cfg : Ability) (h : cfg.base.Sendable) :
    (responseMembers cfg h).map (fun m => m.1.text) = responseNames := by
  rw [responseMembers, List.map_append, List.map_cons, List.map_cons, map_numbers, map_numbers, audioFields_names]
  rfl

theorem responseNames_apart : Apart responseNames := by decide

theorem number_of_mem_numbers {fields : List (Plain × Int32)} : ∀ m ∈ numbers fields, ∀ c ∈ m.2.text,
    isNumber c = true := by
  intro m hm c hc
  obtain ⟨f, -, rfl⟩ := List.mem_map.mp hm
  exact isNumber_of_mem_decimal hc

theorem small_responseMembers (cfg : Ability) (h : cfg.base.Sendable) : Small (responseMembers cfg h) := by
  have hnumber (fields : List (Plain × Int32)) : ∀ m ∈ numbers fields, m.2.text.length ≤ 255 := by
    intro m hm
    obtain ⟨f, -, rfl⟩ := List.mem_map.mp hm
    exact Nat.le_trans (length_int32_le f.2) (by decide)
  have hvalue : ∀ m ∈ responseMembers cfg h, m.2.text.length ≤ 255 := by
    simp only [responseMembers, List.cons_append, List.forall_mem_cons, List.forall_mem_append]
    exact ⟨by decide, hnumber _, Nat.le_trans h.short (by decide), hnumber _⟩
  refine ⟨List.cons_ne_nil _ _, Nat.le_of_ble_eq_true rfl, fun m hm => ⟨?_, hvalue m hm⟩⟩
  have hname : m.1.text ∈ responseNames := by
    rw [← responseMembers_names cfg h]
    exact List.mem_map_of_mem hm
  exact (responseNames_apart.2.2.2 _ hname).1

theorem clear_responseMembers (cfg : Ability) (h : cfg.base.Sendable) (hid : cfg.base.devId ∉ audioNames) :
    Clear (responseMembers cfg h) := by
  refine clear_around _ _ _ responseNames (responseMembers_names cfg h) responseNames_apart.2.2.1
    (fun _ => responseNames_apart.keeps) ?_ ?_
  · simp only [List.cons_append, List.forall_mem_cons, List.forall_mem_append]
    exact ⟨fun c hc => isNumber_of_mem_decimal (n := 0) hc, number_of_mem_numbers, number_of_mem_numbers⟩
  · intro m hm he
    have hmem : m.1.text ∈ (numbers (audioFields cfg.audio)).map fun m => m.1.text := List.mem_map_of_mem hm
    rw [← he, map_numbers, audioFields_names] at hmem
    exact hid hmem

/-! ## Reading back -/

section Response

variable {cfg : Ability}

theorem getNumber_ok (h : cfg.base.Sendable) :
    getNumber (tool_ptc_qh_d2c_encode_getAbility cfg).2 (ascii "result") = some 0 := by
  rw [encode_getAbility_eq cfg h, (small_responseMembers cfg h).printed (by decide), responseMembers]
  exact getNumber_result _

theorem getNumber_field (h : cfg.base.Sendable) (hid : cfg.base.devId ∉ audioNames) (fields : List (Plain × Int32))
    (hfields : ∀ m ∈ numbers fields, m ∈ responseMembers cfg h) :
    ∀ f ∈ fields, getNumber (tool_ptc_qh_d2c_encode_getAbility cfg).2 f.1.text = some f.2.toInt := by
  intro f hf
  rw [encode_getAbility_eq cfg h, (small_responseMembers cfg h).printed (by decide)]
  exact getNumber_member (clear_responseMembers cfg h hid) (hfields _ (List.mem_map_of_mem hf)) f.2.le_toInt
    f.2.toInt_lt

theorem toByte_ofByte (b : UInt8) : toByte (ofByte b) = b := by
  rw [toByte, ofByte]
  simp

theorem stored_base (base : AbilityBase) (out : Ability) :
    (baseSets.zip ((baseFields base).map Prod.snd)).foldl (fun out s => s.1.2 s.2 out) out =
      { out with base := { base with devId := out.base.devId } } := by
  simp [baseSets, baseFields, toByte_ofByte]

theorem stored_audio (audio : AudioAbility) (out : Ability) :
    (audioSets.zip ((audioFields audio).map Prod.snd)).foldl (fun out s => s.1.2 s.2 out) out =
      { out with audio := audio } := by
  simp [audioSets, audioFields, toByte_ofByte]

/-- With an id that is none of the names behind it the response is read as it was written. -/
theorem decode_clear (h : cfg.base.Sendable) (hid : cfg.base.devId ∉ audioNames) (old : Ability) :
    tool_ptc_qh_d2c_decode_getAbility (tool_ptc_qh_d2c_encode_getAbility cfg).2 old =
      (0, { cfg with
        videoInputNum := cfg.base.videoInputNum
        audioInputNum := cfg.base.audioInputNum
        alarmInputNum := cfg.base.alarmInputNum
        alarmOutputNum := cfg.base.alarmOutputNum }) := by
  have hnames : baseSets.map (fun s => ascii s.1) = (baseFields cfg.base).map fun f => f.1.text := rfl
  have hbase (out : Ability) := @readNumbers_fields _ _ _ (-8) _ out hnames
    (getNumber_field h hid _ fun m hm => by simp [responseMembers, hm])
  have haudio (out : Ability) := @readNumbers_fields _ _ _ (-8) _ out (audioFields_names cfg.audio).symm
    (getNumber_field h hid _ fun m hm => by simp [responseMembers, hm])
  have hdev : value64 (tool_ptc_qh_d2c_encode_getAbility cfg).2 (ascii "base.dev_id") = some cfg.base.devId := by
    have hm : (Plain.ofAscii "base.dev_id", ⟨cfg.base.devId, h.no_quote, h.no_zero⟩) ∈ responseMembers cfg h := by
      simp [responseMembers]
    rw [encode_getAbility_eq cfg h, (small_responseMembers cfg h).printed (by decide)]
    have hv := value64_member (clear_responseMembers cfg h hid) hm (Nat.lt_succ_of_le h.short)
    exact hv
  rw [tool_ptc_qh_d2c_decode_getAbility, afterResult, getNumber_ok h]
  simp only [hbase, hdev, haudio, stored_base, stored_audio]
  rfl

/-- An id that is the name of a later member stands before it with its quotes. -/
theorem getNumber_hidden (h : cfg.base.Sendable) (hid : cfg.base.devId ∈ audioNames) :
    getNumber (tool_ptc_qh_d2c_encode_getAbility cfg).2 cfg.base.devId = none := by
  have hmem : cfg.base.devId ∈ (numbers (audioFields cfg.audio)).map fun m => m.1.text := by
    rwa [map_numbers, audioFields_names]
  obtain ⟨m, hm, hname⟩ := List.mem_map.mp hmem
  obtain ⟨front, back, hsplit⟩ := List.append_of_mem hm
  have hmembers : responseMembers cfg h = (((.ofAscii "result", .decimal 0) :: numbers (baseFields cfg.base)) ++
      (.ofAscii "base.dev_id", ⟨cfg.base.devId, h.no_quote, h.no_zero⟩) :: front) ++ (m.1, m.2) :: back := by
    rw [responseMembers, hsplit]
    simp
  have hnodup := responseNames_apart.2.2.1
  have hin : m.1.text ∈ responseNames := by
    rw [hname]
    exact List.mem_append_right _ hid
  obtain ⟨⟨hshort, hcolon, hcomma⟩, -⟩ := responseNames_apart.keeps hin
  rw [← responseMembers_names cfg h, hmembers] at hnodup
  have hblocked := value64_blocked hshort hcolon hcomma
    ⟨_, List.mem_append_right _ (List.mem_cons_self ..), hname.symm⟩ hnodup
  have hnone : getNumber (tool_ptc_qh_d2c_encode_getAbility cfg).2 m.1.text = none := by
    rw [encode_getAbility_eq cfg h, (small_responseMembers cfg h).printed (by decide), hmembers, getNumber, hblocked,
      Option.map_none]
  rwa [hname] at hnone

theorem decode_hidden (h : cfg.base.Sendable) (hid : cfg.base.devId ∈ audioNames) (old new : Ability) :
    tool_ptc_qh_d2c_decode_getAbility (tool_ptc_qh_d2c_encode_getAbility cfg).2 old ≠ (0, new) := by
  obtain ⟨s, hs, hname⟩ := List.mem_map.mp hid
  have hnone := getNumber_hidden h hid
  rw [← hname] at hnone
  intro hdec
  rw [tool_ptc_qh_d2c_decode_getAbility, afterResult, getNumber_ok h] at hdec
  simp only [ne_eq, not_true_eq_false, if_false] at hdec
  split at hdec
  · next hneg =>
    rw [hdec] at hneg
    exact absurd hneg (Int.lt_irrefl 0)
  split at hdec
  · cases hdec
  split at hdec
  · next hneg =>
    rw [hdec] at hneg
    exact absurd hneg (Int.lt_irrefl 0)
  · next hfound => exact readNumbers_found (by decide) hfound s hs hnone

/-- **Abilities.** They are restored exactly when the device's id is not the name of a member behind it. -/
theorem ability_returns_iff (h : cfg.base.Sendable) (old : Ability) :
    AbilityReturns cfg old ↔ cfg.base.devId ∉ audioNames := by
  constructor
  · rintro ⟨new, hdec, -, -⟩ hid
    exact decode_hidden h hid old new hdec
  · intro hid
    exact ⟨_, decode_clear h hid old, rfl, rfl⟩

end Response

def abilityOf (devId : List UInt8) : Ability := { Ability.cleared with base.devId := devId }

theorem ability_returns_plain : AbilityReturns (abilityOf (ascii "dev-1")) .cleared :=
  (ability_returns_iff ⟨by decide, by decide, by decide⟩ .cleared).mpr (by decide)

/-- The id `audio_ability.enable`. -/
theorem ability_hidden : (abilityOf (ascii "audio_ability.enable")).base.Sendable ∧
    ¬ AbilityReturns (abilityOf (ascii "audio_ability.enable")) .cleared := by
  have h : (abilityOf (ascii "audio_ability.enable")).base.Sendable := ⟨by decide, by decide, by decide⟩
  refine ⟨h, ?_⟩
  rintro ⟨new, hdec, -, -⟩
  exact decode_hidden h (by decide) .cleared new hdec

end Qh

end SabApp
