import SabApp.ChannelMask
import SabApp.Nc

/-!
# Alarm outputs of a YS device (nc_ys.c)

`nc_ys_dev_doSetStatus` asks for the ports one by one and sets those that differ from their bit of the mask;
`nc_ys_dev_doGetStatus` collects the mask from the ports that are open. Both name a port with `1<<i`, an `int`.
-/

namespace SabApp

namespace Ys

open Qh (bit)

/-- YS_AO_MODE_OPEN -/
def aoModeOpen : UInt8 := 1

/-- YS_AO_MODE_CLOSE -/
def aoModeClose : UInt8 := 2

/-- `ys_ie_alarmout_t` -/
structure AlarmOut where
  szAlarmOutputName : List UInt8
  u8DefaultStatus : UInt8
  u32DurationSec : UInt32

/-- How an exchange with the device can fail. -/
inductive LinkError where
  | send
  | recv

/-- The two exchanges, each with the `u8ChlID` of a port. -/
structure AoLink (D : Type) where
  query : UInt8 → D → Except LinkError AlarmOut × D
  set : UInt8 → AlarmOut → D → Except LinkError Unit × D

/-- What the slot of a device holds for its status; of `ptc_cfg_status_t` only `io_out` is used. -/
structure StatusDev where
  u8AlarmOutPortNum : UInt8
  lastGetStatusReq : Int32
  curGetStatusReq : Int32
  cfgGetStatus : UInt64
  resultStatus : Int32
  lastSetStatusReq : Int32
  curSetStatusReq : Int32
  cfgSetStatus : UInt64

section Calls

variable {D : Type} (link : AoLink D) (wide : ℕ → Int32)

def chlId (i : ℕ) : UInt8 := UInt8.ofNat (i + 1)

/-- The status for port `i`: `result` is an `int`. -/
def wantedStatus (ioOut : UInt64) (i : ℕ) : UInt8 :=
  let result := (ioOut &&& bit wide i).toUInt32
  if result = 0 then aoModeClose else aoModeOpen

/-- A round of `nc_ys_dev_doSetStatus`. -/
def setPort (ioOut : UInt64) (i : ℕ) (d : D) : Except LinkError Unit × D :=
  match link.query (chlId i) d with
  | (.error e, d) => (.error e, d)
  | (.ok ao, d) =>
    if ao.u8DefaultStatus = wantedStatus wide ioOut i then (.ok (), d)
    else link.set (chlId i) { ao with u8DefaultStatus := wantedStatus wide ioOut i } d

/-- The loop over `k` ports from `i` on. -/
def setPorts (ioOut : UInt64) : (k i : ℕ) → D → Except LinkError Unit × D
  | 0, _, d => (.ok (), d)
  | k + 1, i, d =>
    match setPort link wide ioOut i d with
    | (.error e, d) => (.error e, d)
    | (.ok _, d) => setPorts ioOut k (i + 1) d

def nc_ys_dev_doSetStatus (dev : StatusDev) (d : D) : Int32 × StatusDev × D :=
  if dev.lastSetStatusReq = dev.curSetStatusReq then (0, dev, d)
  else
    match setPorts link wide dev.cfgSetStatus dev.u8AlarmOutPortNum.toNat 0 d with
    | (.error _, d) => (-1, dev, d)
    | (.ok _, d) => (0, { dev with lastSetStatusReq := dev.curSetStatusReq }, d)

/-- The loop over `k` ports from `i` on, with `ret` and `io_out`. -/
def getPorts : (k i : ℕ) → UInt64 → D → Int32 × UInt64 × D
  | 0, _, ioOut, d => (0, ioOut, d)
  | k + 1, i, ioOut, d =>
    match link.query (chlId i) d with
    | (.error .send, d) => (Nc.errSend, ioOut, d)
    | (.error .recv, d) => (Nc.errRecv, ioOut, d)
    | (.ok ao, d) => getPorts k (i + 1) (if ao.u8DefaultStatus = aoModeOpen then ioOut ||| bit wide i else ioOut) d

def nc_ys_dev_doGetStatus (dev : StatusDev) (d : D) : Int32 × StatusDev × D :=
  if dev.lastGetStatusReq = dev.curGetStatusReq then (0, dev, d)
  else
    let (ret, ioOut, d) := getPorts link wide dev.u8AlarmOutPortNum.toNat 0 0 d
    (ret, { dev with cfgGetStatus := ioOut, resultStatus := ret, lastGetStatusReq := dev.curGetStatusReq }, d)

end Calls

/-- A device that stores its ports. -/
def storing : AoLink (UInt8 → AlarmOut) where
  query c ports := (.ok (ports c), ports)
  set c ao ports := (.ok (), Function.update ports c ao)

/-- Setting and then reading gives the mask with its low bits, one for each port. -/
def IoOutReturns (wide : ℕ → Int32) (dev : StatusDev) (ports : UInt8 → AlarmOut) : Prop :=
  ∃ dev₁ ports₁ dev₂ ports₂, nc_ys_dev_doSetStatus storing wide dev ports = (0, dev₁, ports₁) ∧
    nc_ys_dev_doGetStatus storing wide dev₁ ports₁ = (0, dev₂, ports₂) ∧ dev₂.resultStatus = 0 ∧
    dev₂.cfgGetStatus.toNat = dev.cfgSetStatus.toNat % 2 ^ dev.u8AlarmOutPortNum.toNat

/-! ## On a device that stores its ports -/

theorem chlId_inj {i j : ℕ} (hi : i < 64) (hj : j < 64) (h : chlId i = chlId j) : i = j := by
  have := congrArg UInt8.toNat h
  simp only [chlId, UInt8.toNat_ofNat'] at this
  omega

theorem setPort_storing (wide : ℕ → Int32) (ioOut : UInt64) (i : ℕ) (ports : UInt8 → AlarmOut) :
    ∃ ports', setPort storing wide ioOut i ports = (.ok (), ports') ∧
      (ports' (chlId i)).u8DefaultStatus = wantedStatus wide ioOut i ∧ ∀ c ≠ chlId i, ports' c = ports c := by
  unfold setPort
  simp only [storing]
  split
  · next h => exact ⟨ports, rfl, h, fun c _ => rfl⟩
  · refine ⟨_, rfl, ?_, fun c hc => Function.update_of_ne hc ..⟩
    rw [Function.update_self]

/-- Each port has what the mask wants of it, and the others keep what they had. -/
theorem setPorts_storing (wide : ℕ → Int32) (ioOut : UInt64) : ∀ (k i : ℕ) (ports : UInt8 → AlarmOut), i + k ≤ 64 →
    ∃ ports', setPorts storing wide ioOut k i ports = (.ok (), ports') ∧
      (∀ j, i ≤ j → j < i + k → (ports' (chlId j)).u8DefaultStatus = wantedStatus wide ioOut j) ∧
      ∀ j < i, ports' (chlId j) = ports (chlId j)
  | 0, i, ports, _ => ⟨ports, rfl, fun j hj hlt => absurd hj (Nat.not_le.mpr hlt), fun _ _ => rfl⟩
  | k + 1, i, ports, hk => by
    obtain ⟨ports₁, hset, hown, hother⟩ := setPort_storing wide ioOut i ports
    obtain ⟨ports₂, hrun, hnew, hkept⟩ := setPorts_storing wide ioOut k (i + 1) ports₁ (by omega)
    refine ⟨ports₂, by rw [setPorts, hset]; exact hrun, ?_, ?_⟩
    · intro j hj hlt
      rcases Nat.eq_or_lt_of_le hj with rfl | hj
      · rw [hkept i (Nat.lt_succ_self i)]
        exact hown
      · exact hnew j hj (by omega)
    · intro j hj
      rw [hkept j (Nat.lt_succ_of_lt hj)]
      exact hother _ fun h => Nat.ne_of_lt hj (chlId_inj (by omega) (by omega) h)

/-- What the open ports add up to. -/
def collected (wide : ℕ → Int32) (ioOut : UInt64) (n : ℕ) : UInt64 :=
  (List.range n).foldl (fun got i => if wantedStatus wide ioOut i = aoModeOpen then got ||| bit wide i else got) 0

theorem getPorts_storing (wide : ℕ → Int32) (ioOut : UInt64) (ports : UInt8 → AlarmOut) : ∀ (k i : ℕ),
    (∀ j, i ≤ j → j < i + k → (ports (chlId j)).u8DefaultStatus = wantedStatus wide ioOut j) →
    getPorts storing wide k i (collected wide ioOut i) ports = (0, collected wide ioOut (i + k), ports)
  | 0, _, _ => rfl
  | k + 1, i, h => by
    have hnext : collected wide ioOut (i + 1) = if (ports (chlId i)).u8DefaultStatus = aoModeOpen then
        collected wide ioOut i ||| bit wide i else collected wide ioOut i := by
      rw [h i (Nat.le_refl i) (by omega), collected, List.range_succ, List.foldl_append]
      rfl
    have hrest := getPorts_storing wide ioOut ports k (i + 1) fun j hj hlt => h j (Nat.le_of_succ_le hj) (by omega)
    rw [Nat.add_right_comm] at hrest
    unfold getPorts
    simp only [storing]
    rw [← hnext]
    exact hrest

/-- Both calls return 0, with the mask that the open ports add up to. -/
theorem ioOut_collected (wide : ℕ → Int32) {dev : StatusDev} (ports : UInt8 → AlarmOut)
    (hn : dev.u8AlarmOutPortNum.toNat ≤ 64) (hset : dev.lastSetStatusReq ≠ dev.curSetStatusReq)
    (hget : dev.lastGetStatusReq ≠ dev.curGetStatusReq) :
    IoOutReturns wide dev ports ↔ (collected wide dev.cfgSetStatus dev.u8AlarmOutPortNum.toNat).toNat =
      dev.cfgSetStatus.toNat % 2 ^ dev.u8AlarmOutPortNum.toNat := by
  obtain ⟨ports₁, hrun, hwanted, -⟩ := setPorts_storing wide dev.cfgSetStatus dev.u8AlarmOutPortNum.toNat 0 ports
    (by omega)
  have hread := getPorts_storing wide dev.cfgSetStatus ports₁ dev.u8AlarmOutPortNum.toNat 0 hwanted
  rw [Nat.zero_add] at hread
  have hset' : nc_ys_dev_doSetStatus storing wide dev ports =
      (0, { dev with lastSetStatusReq := dev.curSetStatusReq }, ports₁) := by
    rw [nc_ys_dev_doSetStatus, if_neg hset, hrun]
  have hget' : nc_ys_dev_doGetStatus storing wide { dev with lastSetStatusReq := dev.curSetStatusReq } ports₁ =
      (0, { dev with lastSetStatusReq := dev.curSetStatusReq, lastGetStatusReq := dev.curGetStatusReq,
                     cfgGetStatus := collected wide dev.cfgSetStatus dev.u8AlarmOutPortNum.toNat,
                     resultStatus := 0 }, ports₁) := by
    rw [nc_ys_dev_doGetStatus, if_neg hget, show (0 : UInt64) = collected wide dev.cfgSetStatus 0 from rfl, hread]
  constructor
  · rintro ⟨dev₁, ports₁', dev₂, ports₂, h₁, h₂, -, hmask⟩
    rw [hset'] at h₁
    cases h₁
    rw [hget'] at h₂
    cases h₂
    exact hmask
  · intro hmask
    exact ⟨_, _, _, _, hset', hget', rfl, hmask⟩

/-! ## Bits -/

theorem testBit_bit (wide : ℕ → Int32) {i : ℕ} (hi : i ≤ 31) (j : ℕ) :
    (bit wide i).toNat.testBit j = true ↔ min j 31 = i ∧ j < 64 := by
  rw [Qh.bit_eq wide hi]
  split
  · next h =>
    subst h
    have hlow : 2 ^ 64 - 2 ^ 31 = 2 ^ 31 * (2 ^ 33 - 1) := by decide
    rw [hlow, Nat.testBit_two_pow_mul, Nat.testBit_two_pow_sub_one]
    simp only [Bool.and_eq_true, decide_eq_true_eq]
    omega
  · next h =>
    rw [Nat.testBit_two_pow]
    simp only [decide_eq_true_eq]
    omega

theorem toUInt32_ne_zero_iff (x : UInt64) : x.toUInt32 ≠ 0 ↔ ∃ b < 32, x.toNat.testBit b = true := by
  rw [ne_eq, ← UInt32.toNat_inj, UInt64.toNat_toUInt32, UInt32.toNat_zero]
  constructor
  · intro h
    obtain ⟨b, hb⟩ := Nat.exists_testBit_of_ne_zero h
    rw [Nat.testBit_mod_two_pow, Bool.and_eq_true, decide_eq_true_eq] at hb
    exact ⟨b, hb⟩
  · rintro ⟨b, hb, hbit⟩ h
    have hmod : (x.toNat % 2 ^ 32).testBit b = true := by
      rw [Nat.testBit_mod_two_pow, Bool.and_eq_true, decide_eq_true_eq]
      exact ⟨hb, hbit⟩
    rw [h, Nat.zero_testBit] at hmod
    cases hmod

theorem wanted_open_iff (wide : ℕ → Int32) (mask : UInt64) (i : ℕ) : wantedStatus wide mask i = aoModeOpen ↔
    ∃ b < 32, mask.toNat.testBit b = true ∧ (bit wide i).toNat.testBit b = true := by
  have hresult : wantedStatus wide mask i = aoModeOpen ↔ (mask &&& bit wide i).toUInt32 ≠ 0 := by
    unfold wantedStatus
    dsimp only
    split
    · next h => exact iff_of_false (by decide) (not_not.mpr h)
    · next h => exact iff_of_true rfl h
  rw [hresult, toUInt32_ne_zero_iff]
  simp only [UInt64.toNat_and, Nat.testBit_and, Bool.and_eq_true]

theorem collected_succ (wide : ℕ → Int32) (mask : UInt64) (n : ℕ) : collected wide mask (n + 1) =
    if wantedStatus wide mask n = aoModeOpen then collected wide mask n ||| bit wide n else collected wide mask n := by
  rw [collected, List.range_succ, List.foldl_append]
  rfl

theorem testBit_collected (wide : ℕ → Int32) (mask : UInt64) (j : ℕ) : ∀ n : ℕ,
    (collected wide mask n).toNat.testBit j = true ↔
      ∃ i < n, wantedStatus wide mask i = aoModeOpen ∧ (bit wide i).toNat.testBit j = true
  | 0 => by simp [collected]
  | n + 1 => by
    have ih := testBit_collected wide mask j n
    rw [collected_succ]
    by_cases h : wantedStatus wide mask n = aoModeOpen
    · rw [if_pos h, UInt64.toNat_or, Nat.testBit_or, Bool.or_eq_true, ih]
      constructor
      · rintro (⟨i, hi, hbit⟩ | hbit)
        · exact ⟨i, Nat.lt_succ_of_lt hi, hbit⟩
        · exact ⟨n, Nat.lt_succ_self n, h, hbit⟩
      · rintro ⟨i, hi, hbit⟩
        rcases Nat.lt_succ_iff_lt_or_eq.mp hi with hi | rfl
        · exact .inl ⟨i, hi, hbit⟩
        · exact .inr hbit.2
    · rw [if_neg h, ih]
      constructor
      · rintro ⟨i, hi, hbit⟩
        exact ⟨i, Nat.lt_succ_of_lt hi, hbit⟩
      · rintro ⟨i, hi, hbit⟩
        rcases Nat.lt_succ_iff_lt_or_eq.mp hi with hi | rfl
        · exact ⟨i, hi, hbit⟩
        · exact absurd hbit.1 h

/-- Below 32 the port has its own bit of the mask. -/
theorem wanted_open_low (wide : ℕ → Int32) (mask : UInt64) {i : ℕ} (hi : i ≤ 31) :
    wantedStatus wide mask i = aoModeOpen ↔ mask.toNat.testBit i = true := by
  simp only [wanted_open_iff, testBit_bit wide hi]
  constructor
  · rintro ⟨b, hb, hmask, hmin, -⟩
    obtain rfl : b = i := by omega
    exact hmask
  · intro h
    exact ⟨i, by omega, h, by omega, by omega⟩

theorem bit_zero {wide : ℕ → Int32} {i : ℕ} (hi : 32 ≤ i) (hw : wide i = 0) : bit wide i = 0 := by
  rw [bit, if_neg (Nat.not_lt.mpr hi), hw]
  rfl

/-- Bit 31 stands for itself and for all bits above. -/
theorem testBit_collected_low {wide : ℕ → Int32} (mask : UInt64) {n : ℕ} (hw : ∀ i, 32 ≤ i → i < n → wide i = 0) (j : ℕ) :
    (collected wide mask n).toNat.testBit j = true ↔
      mask.toNat.testBit (min j 31) = true ∧ min j 31 < n ∧ j < 64 := by
  rw [testBit_collected]
  constructor
  · rintro ⟨i, hi, hopen, hbit⟩
    by_cases hi31 : i ≤ 31
    · obtain ⟨hmin, hj⟩ := (testBit_bit wide hi31 j).mp hbit
      rw [hmin]
      exact ⟨(wanted_open_low wide mask hi31).mp hopen, hi, hj⟩
    · rw [bit_zero (by omega) (hw i (by omega) hi), UInt64.toNat_zero, Nat.zero_testBit] at hbit
      cases hbit
  · rintro ⟨hmask, hlt, hj⟩
    have hmin : min j 31 ≤ 31 := Nat.min_le_right ..
    exact ⟨_, hlt, (wanted_open_low wide mask hmin).mpr hmask, (testBit_bit wide hmin j).mpr ⟨rfl, hj⟩⟩

/-- The low bits fit an `int` that is not negative, or they are all 64 and make a negative one. -/
def Widens (mask : UInt64) (n : ℕ) : Prop :=
  mask.toNat % 2 ^ n < 2 ^ 31 ∨ n = 64 ∧ 2 ^ 64 - 2 ^ 31 ≤ mask.toNat

theorem lt_of_testBit {x k j : ℕ} (hx : x < 2 ^ k) (hbit : x.testBit j = true) : j < k := by
  have hle := Nat.ge_two_pow_of_testBit hbit
  exact (Nat.pow_lt_pow_iff_right (by decide)).mp (Nat.lt_of_le_of_lt hle hx)

theorem testBit_high {mask : UInt64} (h : 2 ^ 64 - 2 ^ 31 ≤ mask.toNat) {j : ℕ} (hlo : 31 ≤ j) (hj : j < 64) :
    mask.toNat.testBit j = true := by
  have hdiv : mask.toNat / 2 ^ 31 = 2 ^ 33 - 1 := by
    have := mask.toNat_lt
    omega
  have hbit := Nat.testBit_div_two_pow (x := mask.toNat) (n := 31) (j - 31)
  rw [hdiv, Nat.testBit_two_pow_sub_one, Nat.sub_add_cancel hlo] at hbit
  rw [← hbit, decide_eq_true_eq]
  omega

theorem ge_of_testBit {mask : UInt64} (h : ∀ j, 31 ≤ j → j < 64 → mask.toNat.testBit j = true) :
    2 ^ 64 - 2 ^ 31 ≤ mask.toNat := by
  have hdiv : mask.toNat / 2 ^ 31 = 2 ^ 33 - 1 := by
    apply Nat.eq_of_testBit_eq
    intro j
    rw [Bool.eq_iff_iff, Nat.testBit_div_two_pow, Nat.testBit_two_pow_sub_one, decide_eq_true_eq]
    constructor
    · intro hbit
      have := lt_of_testBit mask.toNat_lt hbit
      omega
    · exact fun hj => h _ (by omega) (by omega)
  omega

theorem collected_eq_iff {wide : ℕ → Int32} (mask : UInt64) {n : ℕ} (hn : n ≤ 64)
    (hw : ∀ i, 32 ≤ i → i < n → wide i = 0) :
    (collected wide mask n).toNat = mask.toNat % 2 ^ n ↔ Widens mask n := by
  have hbits (j : ℕ) := testBit_collected_low mask hw j
  have hmod (j : ℕ) : (mask.toNat % 2 ^ n).testBit j = true ↔ j < n ∧ mask.toNat.testBit j = true := by
    rw [Nat.testBit_mod_two_pow, Bool.and_eq_true, decide_eq_true_eq]
  constructor
  · intro h
    by_cases h31 : 31 < n ∧ mask.toNat.testBit 31 = true
    · -- bit 63 is read, and must belong to a port
      have hall : ∀ j, 31 ≤ j → j < 64 → j < n ∧ mask.toNat.testBit j = true := by
        intro j hlo hj
        rw [← hmod, ← h, hbits, Nat.min_eq_right hlo]
        exact ⟨h31.2, h31.1, hj⟩
      have h63 := (hall 63 (by decide) (by decide)).1
      exact .inr ⟨by omega, ge_of_testBit fun j hlo hj => (hall j hlo hj).2⟩
    · refine .inl (Nat.lt_pow_two_of_testBit _ fun j hj => ?_)
      rw [← Bool.not_eq_true, ← h, hbits, Nat.min_eq_right hj]
      exact fun hb => h31 ⟨hb.2.1, hb.1⟩
  · intro h
    apply Nat.eq_of_testBit_eq
    intro j
    rw [Bool.eq_iff_iff, hbits, hmod]
    rcases h with hsmall | ⟨rfl, hbig⟩
    · have hhigh : ∀ i, 31 ≤ i → ¬ (i < n ∧ mask.toNat.testBit i = true) := by
        intro i hi
        rw [← hmod]
        exact fun hbit => absurd (lt_of_testBit hsmall hbit) (Nat.not_lt.mpr hi)
      by_cases hj : 31 ≤ j
      · rw [Nat.min_eq_right hj]
        exact iff_of_false (fun hb => hhigh 31 (Nat.le_refl 31) ⟨hb.2.1, hb.1⟩) (hhigh j hj)
      · rw [Nat.min_eq_left (by omega)]
        exact ⟨fun hb => ⟨hb.2.1, hb.1⟩, fun hb => ⟨hb.2, hb.1, by omega⟩⟩
    · by_cases hj : 31 ≤ j
      · rw [Nat.min_eq_right hj]
        constructor
        · exact fun hb => ⟨hb.2.2, testBit_high hbig hj hb.2.2⟩
        · exact fun hb => ⟨testBit_high hbig (Nat.le_refl 31) (by decide), by decide, hb.1⟩
      · rw [Nat.min_eq_left (by omega)]
        exact ⟨fun hb => ⟨hb.2.1, hb.1⟩, fun hb => ⟨hb.2, hb.1, by omega⟩⟩

/-! ## Undefined shifts -/

/-- What the mask must be if the shifts from 32 on may give anything. -/
def WidensAnyway (mask : UInt64) (n : ℕ) : Prop :=
  n ≤ 32 ∧ mask.toNat % 2 ^ n < 2 ^ 31 ∨ mask.toNat % 2 ^ n = 0 ∨ n = 64 ∧ mask.toNat = 2 ^ 64 - 1

theorem testBit_all {j : ℕ} : (2 ^ 64 - 1).testBit j = true ↔ j < 64 := by
  rw [Nat.testBit_two_pow_sub_one, decide_eq_true_eq]

/-- A shift that gives -1 opens its port for any low bit, and reads as every bit. -/
theorem testBit_collected_neg (mask : UInt64) {n b j : ℕ} (hn : 32 < n) (hb : b < 32) (hmask : mask.toNat.testBit b = true)
    (hj : j < 64) : (collected (fun _ => -1) mask n).toNat.testBit j = true := by
  have hall : (bit (fun _ => -1) 32).toNat = 2 ^ 64 - 1 := by decide
  rw [testBit_collected]
  refine ⟨32, hn, (wanted_open_iff ..).mpr ⟨b, hb, hmask, ?_⟩, ?_⟩ <;> rw [hall, testBit_all]
  · omega
  · exact hj

theorem eq_all_of_widens {mask : UInt64} (hbig : 2 ^ 64 - 2 ^ 31 ≤ mask.toNat)
    (h : ∀ j < 31, mask.toNat.testBit j = true) : mask.toNat = 2 ^ 64 - 1 := by
  apply Nat.eq_of_testBit_eq
  intro j
  rw [Bool.eq_iff_iff, testBit_all]
  constructor
  · exact lt_of_testBit mask.toNat_lt
  · intro hj
    by_cases hlo : 31 ≤ j
    · exact testBit_high hbig hlo hj
    · exact h j (by omega)

theorem collected_zero {mask : UInt64} {n : ℕ} (hn : 32 ≤ n) (h : mask.toNat % 2 ^ n = 0) (wide : ℕ → Int32) :
    (collected wide mask n).toNat = 0 := by
  apply Nat.eq_of_testBit_eq
  intro j
  rw [Nat.zero_testBit, ← Bool.not_eq_true, testBit_collected]
  rintro ⟨i, -, hopen, -⟩
  obtain ⟨b, hb, hbit, -⟩ := (wanted_open_iff wide mask i).mp hopen
  have hmod : (mask.toNat % 2 ^ n).testBit b = true := by
    rw [Nat.testBit_mod_two_pow, hbit, decide_eq_true (Nat.lt_of_lt_of_le hb hn)]
    rfl
  rw [h, Nat.zero_testBit] at hmod
  cases hmod

/-- All ports are read as open, whatever the shifts give. -/
theorem collected_all {mask : UInt64} (hall : mask.toNat = 2 ^ 64 - 1) (wide : ℕ → Int32) :
    (collected wide mask 64).toNat = 2 ^ 64 - 1 := by
  apply Nat.eq_of_testBit_eq
  intro j
  rw [Bool.eq_iff_iff, testBit_all]
  constructor
  · exact lt_of_testBit (collected wide mask 64).toNat_lt
  · intro hj
    have hmin : min j 31 ≤ 31 := Nat.min_le_right ..
    refine (testBit_collected ..).mpr ⟨_, by omega, (wanted_open_low wide mask hmin).mpr ?_,
      (testBit_bit wide hmin j).mpr ⟨rfl, hj⟩⟩
    rw [hall, testBit_all]
    omega

/-- Behind 32 ports a shift that gives -1 reads as bit 63, and only a mask without ports can do without it. -/
theorem eq_zero_of_neg {mask : UInt64} {n : ℕ} (hn : 32 < n) (hsmall : mask.toNat % 2 ^ n < 2 ^ 31)
    (hneg : (collected (fun _ => -1) mask n).toNat = mask.toNat % 2 ^ n) : mask.toNat % 2 ^ n = 0 := by
  by_contra hne
  obtain ⟨b, hbit⟩ := Nat.exists_testBit_of_ne_zero hne
  have hb := lt_of_testBit hsmall hbit
  rw [Nat.testBit_mod_two_pow, Bool.and_eq_true] at hbit
  have h63 := testBit_collected_neg mask hn (by omega : b < 32) hbit.2 (by decide : 63 < 64)
  rw [hneg] at h63
  exact absurd (lt_of_testBit hsmall h63) (by decide)

theorem collected_eq_anyway_iff (mask : UInt64) {n : ℕ} (hn : n ≤ 64) :
    (∀ wide, (collected wide mask n).toNat = mask.toNat % 2 ^ n) ↔ WidensAnyway mask n := by
  constructor
  · intro h
    rcases (collected_eq_iff mask hn fun _ _ _ => rfl).mp (h fun _ => 0) with hsmall | ⟨rfl, hbig⟩
    · by_cases h32 : n ≤ 32
      · exact .inl ⟨h32, hsmall⟩
      · exact .inr (.inl (eq_zero_of_neg (by omega) hsmall (h fun _ => -1)))
    · refine .inr (.inr ⟨rfl, eq_all_of_widens hbig fun j hj => ?_⟩)
      have h31 := testBit_high hbig (Nat.le_refl 31) (by decide)
      have hbit := testBit_collected_neg mask (by decide : 32 < 64) (by decide) h31 (by omega : j < 64)
      rw [h fun _ => -1, Nat.testBit_mod_two_pow, Bool.and_eq_true] at hbit
      exact hbit.2
  · rintro (⟨h32, hsmall⟩ | hzero | ⟨rfl, hall⟩) wide
    · exact (collected_eq_iff mask hn fun i hi hlt => absurd hlt (by omega)).mpr (.inl hsmall)
    · by_cases h32 : n ≤ 32
      · refine (collected_eq_iff mask hn fun i hi hlt => absurd hlt (by omega)).mpr (.inl ?_)
        rw [hzero]
        decide
      · rw [collected_zero (by omega) hzero, hzero]
    · rw [Nat.mod_eq_of_lt mask.toNat_lt, hall]
      exact collected_all hall wide

/-- **Alarm outputs.** Where the shifts from 32 on give 0, as they do on ARM, the mask comes back if and only if its low
bits widen to themselves; where they may give anything, if and only if that makes no difference. -/
theorem ioOut_returns_iff {dev : StatusDev} (ports : UInt8 → AlarmOut) (hn : dev.u8AlarmOutPortNum.toNat ≤ 64)
    (hset : dev.lastSetStatusReq ≠ dev.curSetStatusReq) (hget : dev.lastGetStatusReq ≠ dev.curGetStatusReq) :
    (∀ wide : ℕ → Int32, (∀ i, 32 ≤ i → i < dev.u8AlarmOutPortNum.toNat → wide i = 0) →
      (IoOutReturns wide dev ports ↔ Widens dev.cfgSetStatus dev.u8AlarmOutPortNum.toNat)) ∧
    ((∀ wide, IoOutReturns wide dev ports) ↔ WidensAnyway dev.cfgSetStatus dev.u8AlarmOutPortNum.toNat) := by
  constructor
  · intro wide hw
    rw [ioOut_collected wide ports hn hset hget]
    exact collected_eq_iff dev.cfgSetStatus hn hw
  · rw [← collected_eq_anyway_iff dev.cfgSetStatus hn]
    exact forall_congr' fun wide => ioOut_collected wide ports hn hset hget

/-- A device with `n` ports for which the mask waits to be set and then to be read. -/
def pendingDev (n : UInt8) (mask : UInt64) : StatusDev := ⟨n, 0, 1, 0, 0, 0, 1, mask⟩

def closedPorts : UInt8 → AlarmOut := fun _ => ⟨[], aoModeClose, 0⟩

theorem ioOut_returns_eight : IoOutReturns (fun _ => 0) (pendingDev 8 0x1A5) closedPorts :=
  (@ioOut_returns_iff (pendingDev 8 0x1A5) closedPorts (by decide) (by decide) (by decide)).2.mpr
    (.inl ⟨by decide, by decide⟩) _

/-- Of 32 ports the last. -/
theorem ioOut_widened : ¬ ∃ wide, IoOutReturns wide (pendingDev 32 0x80000000) closedPorts := by
  rintro ⟨wide, h⟩
  rw [ioOut_collected wide closedPorts (by decide) (by decide) (by decide)] at h
  rcases (collected_eq_iff (0x80000000 : UInt64) (by decide : 32 ≤ 64)
    fun i hi hlt => absurd hlt (Nat.not_lt.mpr hi)).mp h with hsmall | ⟨h64, -⟩
  · exact absurd hsmall (by decide)
  · exact absurd h64 (by decide)

end Ys

end SabApp
