import Mathlib.Data.Nat.Bitwise
import Mathlib.Data.Nat.Find
import SabApp.QhCodecs

/-!
# The channel of a search (tool_ptc.c, nc_ys.c, hdcctv_client.c)

Searches name their channel with a mask of 64 bits, of which the requests carry the number of one. All look for the first
`i` with `mask & (1<<i)`. There `1<<i` is an `int` that is widened with its sign, so that `1<<31` stands for bit 31 and
all bits above.
-/

namespace SabApp

namespace Qh

open CText ToolJson2

/-! ## The scan -/

/-- `(unsigned long long)(1<<i)`. From 32 on the shift is undefined, and may have any value. -/
def bit (wide : ℕ → Int32) (i : ℕ) : UInt64 :=
  UInt64.ofInt (if i < 32 then (1 : Int32) <<< Int32.ofNat i else wide i).toInt

/-- The loop over `size` channels. -/
def scan (wide : ℕ → Int32) (mask : UInt64) (size : ℕ) : Option ℕ :=
  (List.range size).find? fun i => mask &&& bit wide i ≠ 0

/-! ## Requests -/

/-- PTC_CMD_SEARCH2_RECORDS -/
def cmdSearchRecords : Int32 := 0x00090003

/-- PTC_CMD_SEARCH2_DATES -/
def cmdSearchDates : Int32 := 0x00090004

/-- The request in `ptc_cfg_records_t`; date searches use its channel and types. -/
structure SearchRequest where
  startTime : UInt32
  endTime : UInt32
  channel : UInt64
  type : UInt8
  subType : UInt8

def tool_ptc_qh_c2d_encode_getRecords (wide : ℕ → Int32) (req : SearchRequest) : ℕ × List UInt8 :=
  let channel := (scan wide req.channel 64).getD 0
  printed videoFrameSize (numbers [(.ofAscii "cmd", cmdSearchRecords), (.ofAscii "start_time", req.startTime.toInt32),
    (.ofAscii "end_time", req.endTime.toInt32), (.ofAscii "channel", Int32.ofNat channel),
    (.ofAscii "type", req.type.toUInt32.toInt32), (.ofAscii "sub_type", req.subType.toUInt32.toInt32)])

def tool_ptc_qh_c2d_encode_searchDates (wide : ℕ → Int32) (req : SearchRequest) : ℕ × List UInt8 :=
  let channel := (scan wide req.channel 64).getD 0
  printed videoFrameSize (numbers [(.ofAscii "cmd", cmdSearchDates), (.ofAscii "channel", Int32.ofNat channel),
    (.ofAscii "type", req.type.toUInt32.toInt32), (.ofAscii "sub_type", req.subType.toUInt32.toInt32)])

/-- NC_YS_CHANNEL_SIZE -/
def ysChannelSize : ℕ := 64

/-- The channel and the times of `ys_msg_searchrecords_c2d_t`. -/
structure YsSearch where
  mappingChlIndex : UInt8
  chlId : UInt8
  timeBegin : UInt32
  timeEnd : UInt32
  deriving DecidableEq

/-- The message that `nc_ys_dev_doRecords` sends, or NC_ERROR_INPUT. The device counts its channels from 1. -/
def nc_ys_dev_doRecords (wide : ℕ → Int32) (req : SearchRequest) : Except ℤ YsSearch :=
  match scan wide req.channel ysChannelSize with
  | none => .error (-2)
  | some i => .ok ⟨UInt8.ofNat i + 1, UInt8.ofNat i + 1, req.startTime, req.endTime⟩

/-- The number that `hdcctv_client2_relay_searchCloudRecords` prints for `channel`. -/
def hdcctv_client2_relay_searchCloudRecords (wide : ℕ → Int32) (req : SearchRequest) : Int32 :=
  Int32.ofNat ((scan wide req.channel 32).getD 0)

/-- The same for `hdcctv_client2_relay_searchCloudDates`. -/
def hdcctv_client2_relay_searchCloudDates (wide : ℕ → Int32) (req : SearchRequest) : Int32 :=
  Int32.ofNat ((scan wide req.channel 32).getD 0)

/-- All requests carry this channel. -/
structure Selects (wide : ℕ → Int32) (req : SearchRequest) (c : ℕ) : Prop where
  records : getNumber (tool_ptc_qh_c2d_encode_getRecords wide req).2 (ascii "channel") = some (c : ℤ)
  dates : getNumber (tool_ptc_qh_c2d_encode_searchDates wide req).2 (ascii "channel") = some (c : ℤ)
  ys : nc_ys_dev_doRecords wide req = .ok ⟨UInt8.ofNat c + 1, UInt8.ofNat c + 1, req.startTime, req.endTime⟩
  cloudRecords : (hdcctv_client2_relay_searchCloudRecords wide req).toInt = c
  cloudDates : (hdcctv_client2_relay_searchCloudDates wide req).toInt = c

/-- The index of the lowest bit that is set. -/
structure IsLowest (mask : UInt64) (i : ℕ) : Prop where
  set : mask.toNat.testBit i = true
  least : ∀ j < i, mask.toNat.testBit j = false

/-! ## What the scan finds -/

theorem bit_eq (wide : ℕ → Int32) {i : ℕ} (h : i ≤ 31) :
    (bit wide i).toNat = if i = 31 then 2 ^ 64 - 2 ^ 31 else 2 ^ i := by
  have hall : ∀ i ≤ 31, (UInt64.ofInt ((1 : Int32) <<< Int32.ofNat i).toInt).toNat =
      if i = 31 then 2 ^ 64 - 2 ^ 31 else 2 ^ i := by decide
  rw [bit, if_pos (Nat.lt_succ_of_le h)]
  exact hall i h

theorem and_bit_ne_zero_iff (wide : ℕ → Int32) (mask : UInt64) {j : ℕ} (h : j < 31) :
    mask &&& bit wide j ≠ 0 ↔ mask.toNat.testBit j = true := by
  have hb := bit_eq wide (Nat.le_of_lt h)
  rw [if_neg (Nat.ne_of_lt h)] at hb
  rw [ne_eq, ← UInt64.toNat_inj, UInt64.toNat_and, hb, Nat.and_two_pow, UInt64.toNat_zero]
  cases mask.toNat.testBit j <;> simp

/-- From 31 on every bit is taken for the channel 31. -/
theorem and_bit_31_ne_zero (wide : ℕ → Int32) {mask : UInt64} {i : ℕ} (h : mask.toNat.testBit i = true) (hi : 31 ≤ i) :
    mask &&& bit wide 31 ≠ 0 := by
  intro h0
  have hlt : i < 64 := by
    by_contra hge
    have hbit := Nat.testBit_lt_two_pow (Nat.lt_of_lt_of_le mask.toNat_lt (Nat.pow_le_pow_right (by decide)
      (Nat.not_lt.mp hge)))
    rw [h] at hbit
    cases hbit
  have hall : ∀ i < 64, 31 ≤ i → (2 ^ 64 - 2 ^ 31).testBit i = true := by decide
  have hand := congrArg (fun n => n.toNat.testBit i) h0
  simp only [UInt64.toNat_and, bit_eq wide (Nat.le_refl 31), if_true, Nat.testBit_and, h, hall i hlt hi] at hand
  simp at hand

theorem scan_lowest (wide : ℕ → Int32) {mask : UInt64} {i size : ℕ} (h : IsLowest mask i) (hs : 32 ≤ size) :
    scan wide mask size = some (min i 31) := by
  rw [scan, List.find?_range_eq_some]
  refine ⟨?_, by rw [List.mem_range]; omega, fun j hj => ?_⟩
  · rw [decide_eq_true_iff]
    by_cases hi : i < 31
    · rw [Nat.min_eq_left (Nat.le_of_lt hi), and_bit_ne_zero_iff wide mask hi]
      exact h.set
    · rw [Nat.min_eq_right (Nat.not_lt.mp hi)]
      exact and_bit_31_ne_zero wide h.set (Nat.not_lt.mp hi)
  · have hj31 : j < 31 := by omega
    have hji : j < i := by omega
    rw [Bool.not_eq_true', decide_eq_false_iff_not, and_bit_ne_zero_iff wide mask hj31, h.least j hji]
    simp

theorem exists_lowest {mask : UInt64} (h : mask ≠ 0) : ∃ i, IsLowest mask i := by
  have hex : ∃ i, mask.toNat.testBit i = true :=
    Nat.exists_testBit_of_ne_zero fun h0 => h (UInt64.toNat.inj h0)
  refine ⟨Nat.find hex, Nat.find_spec hex, fun j hj => ?_⟩
  simpa using Nat.find_min hex hj

theorem lowest_lt_iff {mask : UInt64} {i : ℕ} (h : IsLowest mask i) : mask.toNat % 2 ^ 32 ≠ 0 ↔ i < 32 := by
  constructor
  · intro h0
    by_contra hge
    refine h0 (Nat.zero_of_testBit_eq_false fun j => ?_)
    rw [Nat.testBit_mod_two_pow]
    by_cases hj : j < 32
    · rw [h.least j (by omega), Bool.and_false]
    · simp [hj]
  · intro hi h0
    have hbit := Nat.testBit_mod_two_pow mask.toNat 32 i
    rw [h0, h.set] at hbit
    simp [hi] at hbit

theorem lowest_single {i : ℕ} (h : i < 64) : IsLowest (UInt64.ofNat (2 ^ i)) i := by
  have htwo : (UInt64.ofNat (2 ^ i)).toNat = 2 ^ i := by
    rw [UInt64.toNat_ofNat', Nat.mod_eq_of_lt (Nat.pow_lt_pow_right (by decide) h)]
  refine ⟨?_, fun j hj => ?_⟩
  · rw [htwo, Nat.testBit_two_pow_self]
  · rw [htwo, Nat.testBit_two_pow_of_ne (by omega)]

/-! ## What the requests carry -/

theorem toInt_channel {c : ℕ} (h : c < 64) : (Int32.ofNat c).toInt = c := by
  have hall : ∀ c < 64, (Int32.ofNat c).toInt = (c : ℤ) := by decide
  exact hall c h

theorem getNumber_getRecords (wide : ℕ → Int32) (req : SearchRequest) :
    getNumber (tool_ptc_qh_c2d_encode_getRecords wide req).2 (ascii "channel") =
      some (Int32.ofNat ((scan wide req.channel 64).getD 0)).toInt := by
  have hm : Message (tool_ptc_qh_c2d_encode_getRecords wide req).2 _ :=
    message_printed [ascii "cmd", ascii "start_time", ascii "end_time", ascii "channel", ascii "type",
      ascii "sub_type"] rfl (by decide) (by decide)
  exact hm.getNumber (.tail (.tail (.tail .head)))

theorem getNumber_searchDates (wide : ℕ → Int32) (req : SearchRequest) :
    getNumber (tool_ptc_qh_c2d_encode_searchDates wide req).2 (ascii "channel") =
      some (Int32.ofNat ((scan wide req.channel 64).getD 0)).toInt := by
  have hm : Message (tool_ptc_qh_c2d_encode_searchDates wide req).2 _ :=
    message_printed [ascii "cmd", ascii "channel", ascii "type", ascii "sub_type"] rfl (by decide) (by decide)
  exact hm.getNumber (.tail .head)

theorem selects_found {wide : ℕ → Int32} {req : SearchRequest} {c : ℕ} (hc : c < 64)
    (h64 : scan wide req.channel 64 = some c) (h32 : scan wide req.channel 32 = some c) : Selects wide req c where
  records := by rw [getNumber_getRecords, h64, Option.getD_some, toInt_channel hc]
  dates := by rw [getNumber_searchDates, h64, Option.getD_some, toInt_channel hc]
  ys := by
    rw [nc_ys_dev_doRecords, ysChannelSize, h64]
  cloudRecords := by rw [hdcctv_client2_relay_searchCloudRecords, h32, Option.getD_some, toInt_channel hc]
  cloudDates := by rw [hdcctv_client2_relay_searchCloudDates, h32, Option.getD_some, toInt_channel hc]

/-- The requests agree, for every mask that is not zero. -/
theorem selects_lowest (wide : ℕ → Int32) {req : SearchRequest} {i : ℕ} (h : IsLowest req.channel i) (c : ℕ) :
    Selects wide req c ↔ c = min i 31 := by
  have h64 : scan wide req.channel 64 = some (min i 31) := scan_lowest wide h (by decide)
  have h32 : scan wide req.channel 32 = some (min i 31) := scan_lowest wide h (by decide)
  constructor
  · intro hsel
    have hcloud := hsel.cloudRecords
    rw [hdcctv_client2_relay_searchCloudRecords, h32, Option.getD_some, toInt_channel (by omega)] at hcloud
    omega
  · rintro rfl
    exact selects_found (by omega) h64 h32

/-- **Channel of a search.** All requests carry the same channel. It is that of the lowest bit exactly when this is one
of the lower 32. -/
theorem channel_selected_iff (wide : ℕ → Int32) (req : SearchRequest) (h : req.channel ≠ 0) :
    (∃ c, Selects wide req c) ∧
    (∀ i, IsLowest req.channel i → (Selects wide req i ↔ req.channel.toNat % 2 ^ 32 ≠ 0)) ∧
    ∀ i < 64, req.channel = UInt64.ofNat (2 ^ i) → (Selects wide req i ↔ i < 32) := by
  have hlow : ∀ i, IsLowest req.channel i → (Selects wide req i ↔ i < 32) := by
    intro i hi
    rw [selects_lowest wide hi]
    omega
  refine ⟨?_, fun i hi => ?_, fun i hi hmask => ?_⟩
  · obtain ⟨i, hi⟩ := exists_lowest h
    exact ⟨_, (selects_lowest wide hi _).mpr rfl⟩
  · rw [hlow i hi, lowest_lt_iff hi]
  · apply hlow
    rw [hmask]
    exact lowest_single hi

theorem channel_selected_first : Selects (fun _ => 0) ⟨0, 0, 1, 0, 0⟩ 0 :=
  ((channel_selected_iff (fun _ => 0) ⟨0, 0, 1, 0, 0⟩ (by decide)).2.2 0 (by decide) rfl).mpr (by decide)

/-- The channel 32 alone is taken for the channel 31. -/
theorem channel_lost : ¬ ∀ (wide : ℕ → Int32) (req : SearchRequest) (i : ℕ), IsLowest req.channel i →
    Selects wide req i := by
  intro h
  have hlow : IsLowest (UInt64.ofNat (2 ^ 32)) 32 := lowest_single (by decide)
  have hsel := h (fun _ => 0) ⟨0, 0, UInt64.ofNat (2 ^ 32), 0, 0⟩ 32 hlow
  have heq := (selects_lowest (fun _ => 0) hlow 32).mp hsel
  exact absurd heq (by decide)

end Qh

end SabApp
