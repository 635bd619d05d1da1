import SabApp.Predictive

/-!
# Intel/DVI ADPCM (adpcm.c, G726Decoder.c)

Each sample is coded as its difference to the value that the decoder will have, in quarters of a step
that grows and shrinks with the codes. `adpcm_coder` and `adpcm_decoder` take their state from the
caller and leave it there, so that a stream is coded piece by piece; `ADPCMEncode` and `ADPCMDecode`
start anew with each call, and round otherwise.
-/

namespace SabApp

namespace Adpcm

open Predictive

def indexTable : List ℤ := [-1, -1, -1, -1, 2, 4, 6, 8, -1, -1, -1, -1, 2, 4, 6, 8]

def stepsizeTable : List ℕ :=
  [7, 8, 9, 10, 11, 12, 13, 14, 16, 17, 19, 21, 23, 25, 28, 31, 34, 37, 41, 45, 50, 55, 60, 66, 73, 80, 88, 97, 107, 118,
    130, 143, 157, 173, 190, 209, 230, 253, 279, 307, 337, 371, 408, 449, 494, 544, 598, 658, 724, 796, 876, 963, 1060,
    1166, 1282, 1411, 1552, 1707, 1878, 2066, 2272, 2499, 2749, 3024, 3327, 3660, 4026, 4428, 4871, 5358, 5894, 6484, 7132,
    7845, 8630, 9493, 10442, 11487, 12635, 13899, 15289, 16818, 18500, 20350, 22385, 24623, 27086, 29794, 32767]

/-- `adpcm_state`. -/
structure State where
  valprev : Int16
  index : UInt8
  deriving DecidableEq

/-- `valpred` and `index` of the loops; `step` is always that of the index. -/
structure Loop where
  valpred : ℤ
  index : ℕ
  low : -32768 ≤ valpred
  high : valpred ≤ 32767
  bound : index ≤ 88

namespace Loop

@[ext] theorem ext {l l' : Loop} (hv : l.valpred = l'.valpred) (hi : l.index = l'.index) : l = l' := by
  cases l
  cases l'
  cases hv
  cases hi
  rfl

def step (l : Loop) : ℕ := stepsizeTable.getD l.index 0

theorem step_bounds (l : Loop) : 7 ≤ l.step ∧ l.step ≤ 32767 := by
  have h : ∀ i ≤ 88, 7 ≤ stepsizeTable.getD i 0 ∧ stepsizeTable.getD i 0 ≤ 32767 := by decide +kernel
  exact h l.index l.bound

end Loop

/-- The bounds of `index`. -/
def clampIndex (i : ℤ) : ℕ := (if i < 0 then 0 else if i > 88 then 88 else i).toNat

theorem clampIndex_le (i : ℤ) : clampIndex i ≤ 88 := by
  unfold clampIndex
  split
  · decide
  · split <;> omega

def limitLow (v : ℤ) : ℤ := if v < -32768 then -32768 else v

def limitHigh (v : ℤ) : ℤ := if v > 32767 then 32767 else v

theorem limitLow_ge (v : ℤ) : -32768 ≤ limitLow v := by
  unfold limitLow
  split <;> omega

theorem limitLow_le {v : ℤ} (h : v ≤ 32767) : limitLow v ≤ 32767 := by
  unfold limitLow
  split <;> omega

theorem limitHigh_le (v : ℤ) : limitHigh v ≤ 32767 := by
  unfold limitHigh
  split <;> omega

theorem limitHigh_ge {v : ℤ} (h : -32768 ≤ v) : -32768 ≤ limitHigh v := by
  unfold limitHigh
  split <;> omega

namespace Loop

theorem le_add (l : Loop) (d : ℕ) : -32768 ≤ l.valpred + d := by
  have := l.low
  omega

theorem down_low (l : Loop) (d : ℕ) : -32768 ≤ limitLow (l.valpred - d) := limitLow_ge _

theorem down_high (l : Loop) (d : ℕ) : limitLow (l.valpred - d) ≤ 32767 := limitLow_le (by have := l.high; omega)

theorem up_low (l : Loop) (d : ℕ) : -32768 ≤ limitHigh (l.valpred + d) := limitHigh_ge (l.le_add d)

theorem up_high (l : Loop) (d : ℕ) : limitHigh (l.valpred + d) ≤ 32767 := limitHigh_le _

def down (l : Loop) (d : ℕ) (index : ℤ) : Loop :=
  ⟨limitLow (l.valpred - d), clampIndex index, l.down_low d, l.down_high d, clampIndex_le index⟩

def up (l : Loop) (d : ℕ) (index : ℤ) : Loop :=
  ⟨limitHigh (l.valpred + d), clampIndex index, l.up_low d, l.up_high d, clampIndex_le index⟩

end Loop

/-! ## The turns of the loops -/

/-- `delta`, `udiff` and `vpdiff`. -/
structure Cut where
  delta : ℕ
  udiff : ℕ
  vpdiff : ℕ

/-- One comparison of step 2. -/
def Cut.bite (q : Cut) (bit step : ℕ) : Cut :=
  if q.udiff ≥ step then ⟨q.delta ||| bit, q.udiff - step, q.vpdiff + step⟩ else q

/-- Step 2 of `adpcm_coder`. -/
def quantize (step udiff : ℕ) : Cut :=
  ((Cut.bite ⟨0, udiff, step / 8⟩ 4 step).bite 2 (step / 2)).bite 1 (step / 2 / 2)

/-- One turn of `adpcm_coder`: the code of a sample, and the variables after it. -/
def coderTurn (l : Loop) (val : Int16) : ℕ × Loop :=
  let diff := val.toInt - l.valpred
  let sign := if diff < 0 then 8 else 0
  let q := quantize l.step diff.natAbs
  let delta := q.delta ||| sign
  let index : ℤ := l.index + indexTable.getD delta 0
  (delta, if sign ≠ 0 then l.down q.vpdiff index else l.up q.vpdiff index)

/-- Step 4 of `adpcm_decoder`. -/
def vpdiff (step delta : ℕ) : ℕ :=
  step / 8 + (if delta &&& 4 ≠ 0 then step else 0) + (if delta &&& 2 ≠ 0 then step / 2 else 0) +
    (if delta &&& 1 ≠ 0 then step / 4 else 0)

/-- One turn of `adpcm_decoder`. -/
def decoderTurn (l : Loop) (delta : ℕ) : Loop :=
  let index : ℤ := l.index + indexTable.getD delta 0
  let sign := delta &&& 8
  let d := vpdiff l.step (delta &&& 7)
  if sign ≠ 0 then l.down d index else l.up d index

theorem quantize_spec (step udiff : ℕ) : (quantize step udiff).delta < 8 ∧
    (quantize step udiff).vpdiff = vpdiff step (quantize step udiff).delta := by
  unfold quantize Cut.bite
  rw [Nat.div_div_eq_div_mul]
  by_cases h₁ : step ≤ udiff <;> simp only [ge_iff_le, h₁, if_true, if_false]
  · by_cases h₂ : step / 2 ≤ udiff - step <;> simp only [h₂, if_true, if_false]
    · by_cases h₃ : step / (2 * 2) ≤ udiff - step - step / 2 <;> simp only [h₃, if_true, if_false] <;> simp [vpdiff]
    · by_cases h₃ : step / (2 * 2) ≤ udiff - step <;> simp only [h₃, if_true, if_false] <;> simp [vpdiff]
  · by_cases h₂ : step / 2 ≤ udiff <;> simp only [h₂, if_true, if_false]
    · by_cases h₃ : step / (2 * 2) ≤ udiff - step / 2 <;> simp only [h₃, if_true, if_false] <;> simp [vpdiff]
    · by_cases h₃ : step / (2 * 2) ≤ udiff <;> simp only [h₃, if_true, if_false] <;> simp [vpdiff]

/-- How far the change is from the difference: an eighth of the step and 2, but beyond two steps; and never more than an
eighth over it. -/
theorem quantize_near (step udiff : ℕ) : (udiff < 2 * step → udiff ≤ (quantize step udiff).vpdiff + step / 8 + 2) ∧
    (quantize step udiff).vpdiff ≤ udiff + step / 8 := by
  unfold quantize Cut.bite
  by_cases h₁ : step ≤ udiff <;> simp only [ge_iff_le, h₁, if_true, if_false]
  · by_cases h₂ : step / 2 ≤ udiff - step <;> simp only [h₂, if_true, if_false]
    · split <;> dsimp only <;> omega
    · split <;> dsimp only <;> omega
  · by_cases h₂ : step / 2 ≤ udiff <;> simp only [h₂, if_true, if_false]
    · split <;> dsimp only <;> omega
    · split <;> dsimp only <;> omega

/-- The sign goes above the three bits of the change. -/
theorem sign_bits : ∀ n < 8, (n ||| 8) &&& 8 = 8 ∧ (n ||| 8) &&& 7 = n ∧ n &&& 8 = 0 ∧ n &&& 7 = n := by decide

theorem sign_lt {n : ℕ} (h : n < 8) (c : Prop) [Decidable c] : (n ||| if c then 8 else 0) < 16 := by
  have hbits : ∀ n < 8, n ||| 8 < 16 ∧ n ||| 0 < 16 := by decide
  split
  · exact (hbits n h).1
  · exact (hbits n h).2

/-- The coder moves its variables as the decoder does by the code given. -/
theorem coderTurn_agree (l : Loop) (val : Int16) : (coderTurn l val).2 = decoderTurn l (coderTurn l val).1 := by
  obtain ⟨hlt, hd⟩ := quantize_spec l.step (val.toInt - l.valpred).natAbs
  obtain ⟨h₁, h₂, h₃, h₄⟩ := sign_bits _ hlt
  unfold coderTurn decoderTurn
  dsimp only
  by_cases hneg : val.toInt - l.valpred < 0
  · simp only [hneg, if_true, h₁, h₂, hd]
  · simp only [hneg, if_false, Nat.or_zero, h₃, h₄, hd]

theorem coderTurn_nibble (l : Loop) (val : Int16) : (coderTurn l val).1 < 16 :=
  sign_lt (quantize_spec l.step (val.toInt - l.valpred).natAbs).1 _

/-- How the value after a turn is to the sample: no further than before, or than an eighth of the step; and by an eighth
and 2 where the value before was nearer than two steps. -/
structure Near (step : ℕ) (before after sample : ℤ) : Prop where
  tracks : (sample - before).natAbs < 2 * step → (sample - after).natAbs ≤ step / 8 + 2
  nearer : (sample - after).natAbs ≤ max (sample - before).natAbs (step / 8)

theorem Near.of_down {step d : ℕ} {before sample : ℤ} (hneg : sample - before < 0) (hlow : -32768 ≤ sample)
    (h₁ : (sample - before).natAbs < 2 * step → (sample - before).natAbs ≤ d + step / 8 + 2)
    (h₂ : d ≤ (sample - before).natAbs + step / 8) : Near step before (limitLow (before - d)) sample := by
  constructor <;> unfold limitLow <;> split <;> omega

theorem Near.of_up {step d : ℕ} {before sample : ℤ} (hpos : ¬sample - before < 0) (hhigh : sample < 32768)
    (h₁ : (sample - before).natAbs < 2 * step → (sample - before).natAbs ≤ d + step / 8 + 2)
    (h₂ : d ≤ (sample - before).natAbs + step / 8) : Near step before (limitHigh (before + d)) sample := by
  constructor <;> unfold limitHigh <;> split <;> omega

theorem coderTurn_near (l : Loop) (val : Int16) : Near l.step l.valpred (coderTurn l val).2.valpred val.toInt := by
  obtain ⟨h₁, h₂⟩ := quantize_near l.step (val.toInt - l.valpred).natAbs
  unfold coderTurn
  dsimp only
  by_cases hneg : val.toInt - l.valpred < 0
  · simp only [hneg, if_true]
    exact Near.of_down hneg (Int16.le_toInt val) h₁ h₂
  · simp only [hneg, if_false]
    exact Near.of_up hneg (Int16.toInt_lt val) h₁ h₂

def codec : Codec Loop Int16 := ⟨coderTurn, decoderTurn, coderTurn_agree, coderTurn_nibble⟩

/-! ## The loops -/

/-- The loop of `adpcm_coder`, with `outputbuffer` where `bufferstep` is 0. -/
def coderLoop : List Int16 → Option ℕ → Loop → List UInt8 × Loop
  | [], none, l => ([], l)
  | [], some outputbuffer, l => ([.ofNat outputbuffer], l)
  | val :: vals, none, l => coderLoop vals (some ((coderTurn l val).1 * 16)) (coderTurn l val).2
  | val :: vals, some outputbuffer, l =>
    let rest := coderLoop vals none (coderTurn l val).2
    (.ofNat ((coderTurn l val).1 ||| outputbuffer) :: rest.1, rest.2)

/-- The loop of `adpcm_decoder`; it has two turns for each byte. -/
def decoderLoop : List UInt8 → Loop → List Int16 × Loop
  | [], l => ([], l)
  | x :: xs, l =>
    let l₁ := decoderTurn l (x.toNat / 16)
    let l₂ := decoderTurn l₁ (x.toNat % 16)
    let rest := decoderLoop xs l₂
    (.ofInt l₁.valpred :: .ofInt l₂.valpred :: rest.1, rest.2)

namespace State

theorem low (st : State) : -32768 ≤ st.valprev.toInt := Int16.le_toInt st.valprev

theorem high (st : State) : st.valprev.toInt ≤ 32767 := Int.le_of_lt_add_one (Int16.toInt_lt st.valprev)

/-- The variables of the loops; there are none where the index is not in the table. -/
def load (st : State) : Option Loop :=
  if h : st.index.toNat ≤ 88 then some ⟨st.valprev.toInt, st.index.toNat, st.low, st.high, h⟩ else none

theorem load_eq {st : State} (h : st.index.toNat ≤ 88) : ∃ l, st.load = some l := ⟨_, dif_pos h⟩

end State

def Loop.save (l : Loop) : State := ⟨.ofInt l.valpred, .ofNat l.index⟩

/-- `adpcm_coder`: the bytes and the state it leaves; none where it reads behind the table. -/
def adpcmCoder (indata : List Int16) (state : State) : Option (List UInt8 × State) :=
  state.load.map fun l => ((coderLoop indata none l).1, (coderLoop indata none l).2.save)

/-- `adpcm_decoder`. -/
def adpcmDecoder (indata : List UInt8) (state : State) : Option (List Int16 × State) :=
  state.load.map fun l => ((decoderLoop indata l).1, (decoderLoop indata l).2.save)

def Loop.sample (l : Loop) : Int16 := .ofInt l.valpred

theorem half_or {a b : ℕ} (ha : a < 16) (hb : b < 16) : b ||| a * 16 = a * 16 + b := by
  have h : ∀ a < 16, ∀ b < 16, b ||| a * 16 = a * 16 + b := by decide
  exact h a ha b hb

/-- The codes of the coder's loop, by whether half a byte is waiting. -/
theorem coderLoop_eq (vals : List Int16) : ∀ l,
    coderLoop vals none l = (pack (codec.encode l vals), codec.last l (codec.encode l vals)) ∧
      ∀ a < 16, coderLoop vals (some (a * 16)) l =
        (pack (a :: codec.encode l vals), codec.last l (codec.encode l vals)) := by
  induction vals with
  | nil => exact fun l => ⟨rfl, fun a _ => rfl⟩
  | cons val vals ih =>
    intro l
    have hlast : codec.last l (codec.encode l (val :: vals)) =
        codec.last (coderTurn l val).2 (codec.encode (coderTurn l val).2 vals) := by
      rw [coderTurn_agree]
      exact congrArg _ (congrArg (codec.encode · vals) (coderTurn_agree l val))
    obtain ⟨hnone, hsome⟩ := ih (coderTurn l val).2
    rw [hlast]
    refine ⟨hsome _ (coderTurn_nibble l val), fun a ha => ?_⟩
    rw [coderLoop, hnone, half_or ha (coderTurn_nibble l val)]
    rfl

theorem decoderLoop_eq (bytes : List UInt8) (l : Loop) : decoderLoop bytes l =
    ((codec.states l (unpack bytes)).map Loop.sample, codec.last l (unpack bytes)) := by
  induction bytes generalizing l with
  | nil => rfl
  | cons x xs ih =>
    rw [decoderLoop, ih]
    rfl

theorem decoderLoop_length (bytes : List UInt8) (l : Loop) :
    (decoderLoop bytes l).1.length = 2 * bytes.length := by
  rw [decoderLoop_eq]
  simp

/-- The samples decoded are near to those that were coded, each by the step that the coder had at it. -/
def Tracks (l : Loop) (vals : List Int16) (ys : List Int16) : Prop :=
  ∃ ls, Follows (fun l val l' => Near l.step l.valpred l'.valpred val.toInt) l vals ls ∧ ys = ls.map Loop.sample

/-- **Coder and decoder agree**: from the same state the decoder gives, for each sample coded, the value that the coder
went on from, which is near to the sample; and behind an even number of samples both leave the same state. -/
theorem adpcmDecoder_adpcmCoder {st : State} (h : st.index.toNat ≤ 88) (vals : List Int16) :
    ∃ l bytes st' ys st'', st.load = some l ∧ adpcmCoder vals st = some (bytes, st') ∧
      bytes.length = (vals.length + 1) / 2 ∧ adpcmDecoder bytes st = some (ys, st'') ∧ ys.length = 2 * bytes.length ∧
      Tracks l vals (ys.take vals.length) ∧ (vals.length % 2 = 0 → st'' = st') := by
  obtain ⟨l, hl⟩ := State.load_eq h
  have hcodes := unpack_pack (codec.encode_lt l vals)
  rw [codec.encode_length] at hcodes
  have hcoder := (coderLoop_eq vals l).1
  have hdecoder := decoderLoop_eq (pack (codec.encode l vals)) l
  rw [hcodes] at hdecoder
  have hlen : (pack (codec.encode l vals)).length = (vals.length + 1) / 2 := by rw [pack_length, codec.encode_length]
  have hys : (codec.states l (codec.encode l vals ++ List.replicate (vals.length % 2) 0)).take vals.length =
      codec.track l vals := by
    rw [codec.states_append, codec.states_encode]
    exact List.take_left' (codec.track_length l vals)
  refine ⟨l, _, _, _, _, hl, by rw [adpcmCoder, hl, Option.map_some, hcoder], hlen,
    by rw [adpcmDecoder, hl, Option.map_some, hdecoder], ?_, ⟨codec.track l vals, ?_, ?_⟩, fun heven => ?_⟩
  · rw [List.length_map, codec.states_length, ← hcodes, unpack_length]
  · exact codec.track_follows coderTurn_near l vals
  · rw [← List.map_take, hys]
  · rw [heven, List.replicate_zero, List.append_nil]

/-- The state that `adpcm_begin` makes. -/
def begin : State := ⟨0, 0⟩

theorem begin_agree : ∃ l bytes st' ys st'', begin.load = some l ∧ adpcmCoder [0, 700, -700] begin = some (bytes, st') ∧
    bytes.length = 2 ∧ adpcmDecoder bytes begin = some (ys, st'') ∧ ys.length = 2 * bytes.length ∧
    Tracks l [0, 700, -700] (ys.take 3) ∧ (3 % 2 = 0 → st'' = st') :=
  adpcmDecoder_adpcmCoder (by decide) [0, 700, -700]

example : adpcmCoder [0, 700, -700] begin = some ([0x07, 0xF0], ⟨-19, 16⟩) := by decide +kernel

/-! ## The other codec -/

namespace G726

theorem move_low (l : Loop) (delta : ℤ) : -32768 ≤ limitLow (limitHigh (l.valpred + delta)) := limitLow_ge _

theorem move_high (l : Loop) (delta : ℤ) : limitLow (limitHigh (l.valpred + delta)) ≤ 32767 :=
  limitLow_le (limitHigh_le _)

theorem move_bound (l : Loop) (code : ℕ) : clampIndex (l.index + indexTable.getD code 0) ≤ 88 := clampIndex_le _

/-- The value after a change is bounded on both sides; `gs_step_table` is the table above, and `gs_index_adjust` half of
the other. -/
def move (l : Loop) (delta : ℤ) (code : ℕ) : Loop :=
  ⟨limitLow (limitHigh (l.valpred + delta)), clampIndex (l.index + indexTable.getD code 0), move_low l delta,
    move_high l delta, move_bound l code⟩

def change (step code : ℕ) : ℕ := step * code / 4 + step / 8

/-- The quarters of the step in the difference, 7 at most. -/
def codeOf (step udiff : ℕ) : ℕ := if 4 * udiff / step > 7 then 7 else 4 * udiff / step

/-- One turn of `ADPCMEncode`. -/
def encodeTurn (l : Loop) (sample : Int16) : ℕ × Loop :=
  let diff := sample.toInt - l.valpred
  let sb := if diff < 0 then 8 else 0
  let code := codeOf l.step diff.natAbs
  let delta : ℤ := change l.step code
  (code ||| sb, move l (if sb ≠ 0 then -delta else delta) code)

/-- One turn of `ADPCMDecode`. -/
def decodeTurn (l : Loop) (code : ℕ) : Loop :=
  let sb := code &&& 8
  let code := code &&& 7
  let delta : ℤ := change l.step code
  move l (if sb ≠ 0 then -delta else delta) code

theorem codeOf_lt (step udiff : ℕ) : codeOf step udiff < 8 := by
  unfold codeOf
  split <;> omega

theorem codeOf_near {step : ℕ} (hstep : 0 < step) (udiff : ℕ) :
    (udiff < 2 * step → udiff ≤ change step (codeOf step udiff) + step / 8 + 2) ∧
      change step (codeOf step udiff) ≤ udiff + step / 8 := by
  have hlow := Nat.div_mul_le_self (4 * udiff) step
  have hhigh := Nat.lt_div_mul_add (a := 4 * udiff) hstep
  rw [Nat.mul_comm _ step] at hlow hhigh
  unfold codeOf change
  split
  · have hseven : step * 8 ≤ step * (4 * udiff / step) := Nat.mul_le_mul_left _ (by omega)
    omega
  · generalize step * (4 * udiff / step) = m at hlow hhigh ⊢
    omega

theorem encodeTurn_agree (l : Loop) (sample : Int16) :
    (encodeTurn l sample).2 = decodeTurn l (encodeTurn l sample).1 := by
  obtain ⟨h₁, h₂, h₃, h₄⟩ := sign_bits _ (codeOf_lt l.step (sample.toInt - l.valpred).natAbs)
  unfold encodeTurn decodeTurn
  dsimp only
  by_cases hneg : sample.toInt - l.valpred < 0
  · simp only [hneg, if_true, h₁, h₂]
  · simp only [hneg, if_false, Nat.or_zero, h₃, h₄]

theorem encodeTurn_nibble (l : Loop) (sample : Int16) : (encodeTurn l sample).1 < 16 :=
  sign_lt (codeOf_lt l.step (sample.toInt - l.valpred).natAbs) _

theorem encodeTurn_near (l : Loop) (sample : Int16) :
    Near l.step l.valpred (encodeTurn l sample).2.valpred sample.toInt := by
  have hstep : 0 < l.step := Nat.lt_of_lt_of_le (by decide) l.step_bounds.1
  obtain ⟨h₁, h₂⟩ := codeOf_near hstep (sample.toInt - l.valpred).natAbs
  unfold encodeTurn move
  dsimp only
  by_cases hneg : sample.toInt - l.valpred < 0
  · have hdown : limitHigh (l.valpred + -(change l.step (codeOf l.step (sample.toInt - l.valpred).natAbs) : ℤ)) =
        l.valpred - change l.step (codeOf l.step (sample.toInt - l.valpred).natAbs) :=
      if_neg (by have := l.high; omega)
    simp only [hneg, if_true]
    rw [if_pos (by decide), hdown]
    exact Near.of_down hneg (Int16.le_toInt sample) h₁ h₂
  · have hup : limitLow (limitHigh (l.valpred + change l.step (codeOf l.step (sample.toInt - l.valpred).natAbs))) =
        limitHigh (l.valpred + change l.step (codeOf l.step (sample.toInt - l.valpred).natAbs)) :=
      if_neg (Int.not_lt.mpr (limitHigh_ge (l.le_add _)))
    simp only [hneg, if_false]
    rw [if_neg (by decide), hup]
    exact Near.of_up hneg (Int16.toInt_lt sample) h₁ h₂

def codec : Codec Loop Int16 := ⟨encodeTurn, decodeTurn, encodeTurn_agree, encodeTurn_nibble⟩

theorem clear_low : (-32768 : ℤ) ≤ 0 := by decide

theorem clear_high : (0 : ℤ) ≤ 32767 := by decide

theorem clear_bound : 0 ≤ 88 := by decide

/-- The variables that `EncoderClr` and `DecoderClr` leave. -/
def clear : Loop := ⟨0, 0, clear_low, clear_high, clear_bound⟩

/-- `ADPCMEncode`, of whole samples. -/
def adpcmEncode (pcm : List Int16) : List UInt8 := pack (codec.encode clear pcm)

/-- `ADPCMDecode`. -/
def adpcmDecode (compressed : List UInt8) : List Int16 := (codec.states clear (unpack compressed)).map Loop.sample

end G726

end Adpcm

end SabApp
