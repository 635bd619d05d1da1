import SabApp.QhConfigs

/-!
# Alarm outputs of the QH protocol (tool_ptc.c)

The mask of the outputs has 64 bits and is printed with `%lld`. Both decoders read it with `tool_json2_getNumber`, which
holds a number to the bounds of an `int`, and then widen it with its sign.
-/

namespace SabApp

namespace Qh

open CText ToolJson2

/-- PTC_CMD_CFG2_SET_STATUS -/
def cmdSetStatus : Int32 := 0x0008000E

/-- What `%lld` makes of an `unsigned long long`. -/
def signed64 (n : UInt64) : ℤ := n.toInt64.toInt

/-- The `io_out` of `ptc_cfg_status_t` is its only field here. -/
def tool_ptc_qh_d2c_encode_getStatus (ioOut : UInt64) : ℕ × List UInt8 :=
  printed ptcMsgSize [(.ofAscii "result", .decimal 0), (.ofAscii "io_out", .decimal (signed64 ioOut))]

def tool_ptc_qh_d2c_decode_getStatus (data : List UInt8) (ioOut : UInt64) : ℤ × UInt64 :=
  afterResult data (-8) ioOut <|
    match getNumber data (ascii "io_out") with
    | none => (-8, ioOut)
    | some tmp => (0, UInt64.ofInt tmp)

def tool_ptc_qh_c2d_encode_setStatus (ioOut : UInt64) : ℕ × List UInt8 :=
  printed ptcMsgSize [(.ofAscii "cmd", .decimal cmdSetStatus.toInt), (.ofAscii "io_out", .decimal (signed64 ioOut))]

def tool_ptc_qh_c2d_decode_setStatus (data : List UInt8) : ℤ × UInt64 :=
  (0, UInt64.ofInt (numberOrZero data "io_out"))

/-! ## The number that is read -/

theorem ofInt_signed64 (n : UInt64) : UInt64.ofInt (signed64 n) = n := by
  have h : signed64 n = n.toBitVec.toInt := rfl
  have hlt := n.toNat_lt
  have hv : n.toBitVec.toNat = n.toNat := rfl
  rw [UInt64.ofInt, h, BitVec.toInt_eq_toNat_cond, hv]
  apply UInt64.toNat.inj
  rw [UInt64.toNat_ofNat']
  split <;> omega

theorem ofInt_inj64 {a b : ℤ} (ha : -2 ^ 63 ≤ a ∧ a < 2 ^ 63) (hb : -2 ^ 63 ≤ b ∧ b < 2 ^ 63)
    (h : UInt64.ofInt a = UInt64.ofInt b) : a = b := by
  have heq := congrArg UInt64.toNat h
  rw [UInt64.ofInt, UInt64.ofInt, UInt64.toNat_ofNat', UInt64.toNat_ofNat'] at heq
  omega

theorem signed64_bounds (n : UInt64) : -2 ^ 63 ≤ signed64 n ∧ signed64 n < 2 ^ 63 :=
  ⟨n.toInt64.le_toInt, n.toInt64.toInt_lt⟩

theorem length_signed64_le (n : UInt64) : (Decimal.decimal (signed64 n)).length ≤ 20 := by
  obtain ⟨h₁, h₂⟩ := signed64_bounds n
  have hd : (Decimal.digits (signed64 n).natAbs).length ≤ 19 := Decimal.length_digits_le (by omega)
  rw [Decimal.decimal]
  split
  · rw [List.length_cons]
    omega
  · omega

/-- What an `int` holds of the mask, widened again. -/
def held (mask : UInt64) : UInt64 := UInt64.ofInt (max (-2 ^ 31) (min (signed64 mask) (2 ^ 31 - 1)))

/-- The mask is a sign extension of its lower half. -/
theorem held_eq_iff (mask : UInt64) : held mask = mask ↔ -2 ^ 31 ≤ signed64 mask ∧ signed64 mask < 2 ^ 31 := by
  have hb := signed64_bounds mask
  constructor
  · intro h
    have heq : max (-2 ^ 31) (min (signed64 mask) (2 ^ 31 - 1)) = signed64 mask := by
      apply ofInt_inj64 (by omega) hb
      rw [ofInt_signed64]
      exact h
    omega
  · rintro ⟨h₁, h₂⟩
    have heq : max (-2 ^ 31) (min (signed64 mask) (2 ^ 31 - 1)) = signed64 mask := by omega
    rw [held, heq, ofInt_signed64]

/-- The members of either message. -/
def masked (name : Plain) (n : Int32) (mask : UInt64) : List (Plain × Plain) :=
  [(name, .decimal n.toInt), (.ofAscii "io_out", .decimal (signed64 mask))]

section Masked

variable {name : Plain} {n : Int32} {mask : UInt64}

theorem small_masked (hname : name.text.length ≤ 30) : Small (masked name n mask) := by
  refine ⟨by simp [masked], by simp [masked], ?_⟩
  simp only [masked, List.forall_mem_cons]
  exact ⟨⟨hname, Nat.le_trans (length_int32_le n) (by decide)⟩,
    ⟨by decide, Nat.le_trans (length_signed64_le mask) (by decide)⟩, nofun⟩

theorem clear_masked (hne : name.text ≠ ascii "io_out") (hs : name.text.length ≤ 30 ∧ name.text ≠ [58] ∧ name.text ≠ [44])
    (hn : ∃ c ∈ name.text, isNumber c = false) : Clear (masked name n mask) := by
  refine clear_of_numbers [(name, .decimal n.toInt)] (.ofAscii "io_out", .decimal (signed64 mask))
    [name.text, ascii "io_out"] rfl (by simpa using hne) ?_ ?_
  · simp only [List.forall_mem_cons]
    exact ⟨⟨⟨Nat.le_trans hs.1 (by decide), hs.2⟩, hn⟩, by decide, nofun⟩
  · simp only [List.forall_mem_cons]
    exact ⟨fun c hc => isNumber_of_mem_decimal hc, nofun⟩

theorem getNumber_ioOut (hsmall : Small (masked name n mask)) (hclear : Clear (masked name n mask)) :
    getNumber (printed ptcMsgSize (masked name n mask)).2 (ascii "io_out") =
      some (max (-2 ^ 31) (min (signed64 mask) (2 ^ 31 - 1))) := by
  have hm : (Plain.ofAscii "io_out", Plain.decimal (signed64 mask)) ∈ masked name n mask := by simp [masked]
  have h := getNumber_small hsmall hclear hm (Nat.lt_of_le_of_lt (length_signed64_le mask) (by decide))
  exact h

end Masked

theorem decode_getStatus_held (mask old : UInt64) :
    tool_ptc_qh_d2c_decode_getStatus (tool_ptc_qh_d2c_encode_getStatus mask).2 old = (0, held mask) := by
  have hsmall : Small (masked (.ofAscii "result") 0 mask) := small_masked (by decide)
  have hclear : Clear (masked (.ofAscii "result") 0 mask) := clear_masked (by decide) (by decide) (by decide)
  have hm : (Plain.ofAscii "result", Plain.decimal 0) ∈ masked (.ofAscii "result") 0 mask := by simp [masked]
  have hresult := getNumber_small hsmall hclear hm (by decide)
  have hmask := getNumber_ioOut hsmall hclear
  change getNumber (tool_ptc_qh_d2c_encode_getStatus mask).2 (ascii "result") = some 0 at hresult
  change getNumber (tool_ptc_qh_d2c_encode_getStatus mask).2 (ascii "io_out") = _ at hmask
  rw [tool_ptc_qh_d2c_decode_getStatus, afterResult, hresult, hmask]
  rfl

theorem decode_setStatus_held (mask : UInt64) :
    tool_ptc_qh_c2d_decode_setStatus (tool_ptc_qh_c2d_encode_setStatus mask).2 = (0, held mask) := by
  have hsmall : Small (masked (.ofAscii "cmd") cmdSetStatus mask) := small_masked (by decide)
  have hclear : Clear (masked (.ofAscii "cmd") cmdSetStatus mask) := clear_masked (by decide) (by decide) (by decide)
  have hmask : getNumber (tool_ptc_qh_c2d_encode_setStatus mask).2 _ = _ := getNumber_ioOut hsmall hclear
  rw [tool_ptc_qh_c2d_decode_setStatus, numberOrZero, hmask]
  rfl

/-- **Alarm outputs.** Either decoder restores the mask exactly where its upper half repeats bit 31. -/
theorem ioOut_restored_iff (mask old : UInt64) :
    (tool_ptc_qh_d2c_decode_getStatus (tool_ptc_qh_d2c_encode_getStatus mask).2 old = (0, mask) ↔
      -2 ^ 31 ≤ signed64 mask ∧ signed64 mask < 2 ^ 31) ∧
    (tool_ptc_qh_c2d_decode_setStatus (tool_ptc_qh_c2d_encode_setStatus mask).2 = (0, mask) ↔
      -2 ^ 31 ≤ signed64 mask ∧ signed64 mask < 2 ^ 31) := by
  rw [decode_getStatus_held, decode_setStatus_held, Prod.mk.injEq, eq_self_iff_true, true_and]
  exact ⟨held_eq_iff mask, held_eq_iff mask⟩

/-- Bit 32 alone comes back as the greatest `int`. -/
theorem ioOut_lost : ¬ ∀ mask old : UInt64,
    tool_ptc_qh_d2c_decode_getStatus (tool_ptc_qh_d2c_encode_getStatus mask).2 old = (0, mask) ∧
      tool_ptc_qh_c2d_decode_setStatus (tool_ptc_qh_c2d_encode_setStatus mask).2 = (0, mask) := by
  intro h
  have hset := (h 0x100000000 0).2
  rw [decode_setStatus_held] at hset
  exact absurd hset (by decide)

end Qh

end SabApp
