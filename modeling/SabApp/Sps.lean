import SabApp.SpsReader

/-!
# The sequence parameter set (lan_h264_ps.c)

`lan_ff_h264_decode_seq_parameter_set` goes through the whole set to find the picture's dimensions.
Of `lan_SPS`, which it frees before it returns, the model keeps what is read again: the dimensions,
and in the parts what decides on the rest of the part.
-/

namespace SabApp

namespace Sps

/-- Where a test of the source goes to `fail` or returns an error. -/
def refuse (c : Prop) [Decidable c] : Dec Unit := if c then fail else pure ()

/-- A part that is there only under a condition. -/
def part (c : Bool) (p : Dec Unit) : Dec Unit := if c then p else pure ()

/-- A part behind a flag that says whether it is there. -/
def flagged (p : Dec Unit) : Dec Unit := do
  let c ← getBits1
  part c p

/-! ## Scaling lists -/

def zigzagScan : List ℕ := [0, 1, 4, 8, 5, 2, 3, 6, 9, 12, 13, 10, 7, 11, 14, 15]

def ffZigzagDirect : List ℕ :=
  [0, 1, 8, 16, 9, 2, 3, 10, 17, 24, 32, 25, 18, 11, 4, 5, 12, 19, 26, 33, 40, 48, 41, 34, 27, 20, 13, 6, 7, 14, 21, 28,
    35, 42, 49, 56, 57, 50, 43, 36, 29, 22, 15, 23, 30, 37, 44, 51, 58, 59, 52, 45, 38, 31, 39, 46, 53, 60, 61, 54, 47,
    55, 62, 63]

def defaultScaling4₀ : List ℕ := [6, 13, 20, 28, 13, 20, 28, 32, 20, 28, 32, 37, 28, 32, 37, 42]

def defaultScaling4₁ : List ℕ := [10, 14, 20, 24, 14, 20, 24, 27, 20, 24, 27, 30, 24, 27, 30, 34]

def defaultScaling8₀ : List ℕ :=
  [6, 10, 13, 16, 18, 23, 25, 27, 10, 11, 16, 18, 23, 25, 27, 29, 13, 16, 18, 23, 25, 27, 29, 31, 16, 18, 23, 25, 27, 29,
    31, 33, 18, 23, 25, 27, 29, 31, 33, 36, 23, 25, 27, 29, 31, 33, 36, 38, 25, 27, 29, 31, 33, 36, 38, 40, 27, 29, 31,
    33, 36, 38, 40, 42]

def defaultScaling8₁ : List ℕ :=
  [9, 13, 15, 17, 19, 21, 22, 24, 13, 13, 17, 19, 21, 22, 24, 25, 15, 17, 19, 21, 22, 24, 25, 27, 17, 19, 21, 22, 24, 25,
    27, 28, 19, 21, 22, 24, 25, 27, 28, 30, 21, 22, 24, 25, 27, 28, 30, 32, 22, 24, 25, 27, 28, 30, 32, 33, 24, 25, 27,
    28, 30, 32, 33, 35]

/-- The next factor from a difference, and zero once a factor was zero. -/
def nextScale (last next : ℕ) : Dec ℕ :=
  if next ≠ 0 then do
    let d ← getSeGolomb
    pure ((last + d) % 256).toNat
  else pure 0

/-- The factors from the `i`th on; a zero at the start stands for the preset list. -/
def scalingLoop (jvtList scan : List ℕ) : ℕ → ℕ → List ℕ → ℕ → ℕ → Dec (List ℕ)
  | 0, _, factors, _, _ => pure factors
  | n + 1, i, factors, last, next => do
    let next ← nextScale last next
    if i = 0 ∧ next = 0 then pure jvtList
    else
      let last := if next ≠ 0 then next else last
      scalingLoop jvtList scan n (i + 1) (factors.set (scan.getD i 0) last) last next

def decodeScalingList (size : ℕ) (jvtList fallbackList : List ℕ) : Dec (List ℕ) := do
  let coded ← getBits1
  if coded then
    scalingLoop jvtList (if size = 16 then zigzagScan else ffZigzagDirect) size 0 (List.replicate size 16) 8 8
  else pure fallbackList

/-- `scaling_matrix4` and `scaling_matrix8` -/
structure Scaling where
  matrix4 : List (List ℕ)
  matrix8 : List (List ℕ)

def flat (size : ℕ) : List ℕ := List.replicate size 16

def scaling4 : Dec (List (List ℕ)) := do
  let m₀ ← decodeScalingList 16 defaultScaling4₀ defaultScaling4₀
  let m₁ ← decodeScalingList 16 defaultScaling4₀ m₀
  let m₂ ← decodeScalingList 16 defaultScaling4₀ m₁
  let m₃ ← decodeScalingList 16 defaultScaling4₁ defaultScaling4₁
  let m₄ ← decodeScalingList 16 defaultScaling4₁ m₃
  let m₅ ← decodeScalingList 16 defaultScaling4₁ m₄
  pure [m₀, m₁, m₂, m₃, m₄, m₅]

def scaling8 (chromaFormatIdc : ℕ) : Dec (List (List ℕ)) := do
  let m₀ ← decodeScalingList 64 defaultScaling8₀ defaultScaling8₀
  let m₃ ← decodeScalingList 64 defaultScaling8₁ defaultScaling8₁
  if chromaFormatIdc = 3 then do
    let m₁ ← decodeScalingList 64 defaultScaling8₀ m₀
    let m₄ ← decodeScalingList 64 defaultScaling8₁ m₃
    let m₂ ← decodeScalingList 64 defaultScaling8₀ m₁
    let m₅ ← decodeScalingList 64 defaultScaling8₁ m₄
    pure [m₀, m₁, m₂, m₃, m₄, m₅]
  else pure [m₀, flat 64, flat 64, m₃, flat 64, flat 64]

/-- As it is called for a sequence: `is_sps` is 1. -/
def decodeScalingMatrices (chromaFormatIdc : ℕ) : Dec Scaling := do
  let coded ← getBits1
  if coded then do
    let m4 ← scaling4
    let m8 ← scaling8 chromaFormatIdc
    pure ⟨m4, m8⟩
  else pure ⟨List.replicate 6 (flat 16), List.replicate 6 (flat 64)⟩

/-! ## Usability information -/

/-- One buffer of the hypothetical decoder. -/
def cpb : Dec Unit := do
  let _bitRate ← getUeGolombLong
  let _cpbSize ← getUeGolombLong
  let _cbr ← getBits1
  pure ()

def times : ℕ → Dec Unit → Dec Unit
  | 0, _ => pure ()
  | n + 1, p => do
    p
    times n p

def decodeHrdParameters : Dec Unit := do
  let n ← getUeGolomb31
  refuse (32 < n + 1)
  let _bitRateScale ← getBits 4
  let _cpbSizeScale ← getBits 4
  times (n + 1) cpb
  let _initialDelay ← getBits 5
  let _removalDelay ← getBits 5
  let _outputDelay ← getBits 5
  let _timeOffset ← getBits 5
  pure ()

def aspectRatio : Dec Unit := do
  let idc ← getBits 8
  if idc = 255 then do
    let _num ← getBits 16
    let _den ← getBits 16
    pure ()
  else refuse (17 ≤ idc)

def overscan : Dec Unit := do
  let _appropriate ← getBits1
  pure ()

def colourDescription : Dec Unit := do
  let _primaries ← getBits 8
  let _trc ← getBits 8
  let _space ← getBits 8
  pure ()

def videoSignal : Dec Unit := do
  let _format ← getBits 3
  let _fullRange ← getBits1
  flagged colourDescription

def chromaLocation : Dec Unit := do
  let _top ← getUeGolomb
  let _bottom ← getUeGolomb
  pure ()

def timing : Dec Unit := do
  let units ← getBitsLong 32
  let scale ← getBitsLong 32
  refuse (units = 0 ∨ scale = 0)
  let _fixed ← getBits1
  pure ()

def bitstreamRestriction : Dec Unit := do
  let _overPic ← getBits1
  let _bytes ← getUeGolomb
  let _bits ← getUeGolomb
  let _horizontal ← getUeGolomb
  let _vertical ← getUeGolomb
  let numReorderFrames ← getUeGolomb
  let _maxDec ← getUeGolomb
  let left ← getBitsLeft
  -- compared as an unsigned number
  let n := if left < 0 then 0 else numReorderFrames
  refuse (n < 0 ∨ 16 < n)

/-- From the buffers' parameters to the end. -/
def vuiTail : Dec Unit := do
  let nal ← getBits1
  part nal decodeHrdParameters
  let vcl ← getBits1
  part vcl decodeHrdParameters
  part (nal || vcl) (do let _lowDelay ← getBits1; pure ())
  let _picStruct ← getBits1
  let left ← getBitsLeft
  if left = 0 then pure ()
  else do
    flagged bitstreamRestriction
    let left ← getBitsLeft
    refuse (left < 0)

def decodeVuiParameters : Dec Unit := do
  flagged aspectRatio
  flagged overscan
  flagged videoSignal
  flagged chromaLocation
  let next ← showBits 1
  let left ← getBitsLeft
  if next ≠ 0 ∧ left < 10 then pure ()
  else do
    flagged timing
    vuiTail

/-! ## The set -/

def highProfiles : List ℕ := [100, 110, 122, 244, 44, 83, 86, 118, 128, 138, 144]

/-- Up to the number of the set. -/
def header : Dec ℕ := do
  let profileIdc ← getBits 8
  times 6 (do let _constraint ← getBits1; pure ())
  skipBits 2
  let _levelIdc ← getBits 8
  let spsId ← getUeGolomb31
  refuse (32 ≤ spsId)
  pure profileIdc

def separatePlanes : Dec Unit := do
  let separate ← getBits1
  refuse separate

def high : Dec Unit := do
  let chromaFormatIdc ← getUeGolomb31
  refuse (3 < chromaFormatIdc)
  part (chromaFormatIdc = 3) separatePlanes
  let luma ← getUeGolomb
  let chroma ← getUeGolomb
  refuse (chroma + 8 ≠ luma + 8)
  -- compared as an unsigned number
  refuse (luma + 8 < 0 ∨ 14 < luma + 8)
  let _bypass ← getBits1
  let _scaling ← decodeScalingMatrices chromaFormatIdc
  pure ()

def pocCycle : Dec Unit := do
  let _alwaysZero ← getBits1
  let _nonRef ← getSeGolomb
  let _topBottom ← getSeGolomb
  let n ← getUeGolomb
  refuse (n < 0 ∨ 256 ≤ n)
  times n.toNat (do let _offset ← getSeGolomb; pure ())

def picOrderCount : Dec Unit := do
  let pocType ← getUeGolomb31
  if pocType = 0 then do
    let _log2MaxPocLsb ← getUeGolomb
    pure ()
  else if pocType = 1 then pocCycle
  else refuse (pocType ≠ 2)

def setMbWidth (w : ℤ) : Dec Unit := fun st => (some (), { st with mbWidth := w })

def setMbHeight (h : ℤ) : Dec Unit := fun st => (some (), { st with mbHeight := h })

/-- Up to the dimensions. -/
def toDims (profileIdc : ℕ) : Dec Unit := do
  part (profileIdc ∈ highProfiles) high
  let log2MaxFrameNum ← getUeGolomb
  refuse (log2MaxFrameNum < 0 ∨ 12 < log2MaxFrameNum)
  picOrderCount
  let _refFrames ← getUeGolomb31
  let _gaps ← getBits1
  pure ()

def dims : Dec Unit := do
  let w ← getUeGolomb
  setMbWidth (w + 1)
  let h ← getUeGolomb
  setMbHeight (h + 1)

def crop : Dec Unit := do
  let _left ← getUeGolomb
  let _right ← getUeGolomb
  let _top ← getUeGolomb
  let _bottom ← getUeGolomb
  pure ()

/-- Behind the dimensions: the frame's kind, what is cut off of it, and the usability information. -/
def afterDims : Dec Unit := do
  let frameMbsOnly ← getBits1
  part (!frameMbsOnly) (do let _mbAff ← getBits1; pure ())
  let _direct8x8 ← getBits1
  flagged crop
  flagged decodeVuiParameters

def body (profileIdc : ℕ) : Dec Unit := do
  toDims profileIdc
  dims
  afterDims

/-- What is written to an `int`. -/
def int32 (n : ℤ) : ℤ := Int.bmod n (2 ^ 32)

/-- The result, and what stands at `width` and `height` after it: after a set that fails, the dimensions as far as they
were read. -/
def decodeSeqParameterSet (gb : GetBits) (width height : ℤ) : ℤ × ℤ × ℤ :=
  match header ⟨gb, 0, 0⟩ with
  | (none, _) => (invalidData, width, height)
  | (some profileIdc, st) =>
    let r := body profileIdc st
    (if r.1.isSome then 0 else -1, int32 (16 * r.2.mbWidth), int32 (16 * r.2.mbHeight))

/-- `lan_init_lan_get_bits`; without a buffer where the size does not do. -/
def initGetBits (buffer : Mem) (bitSize : ℤ) : Option GetBits :=
  if 2147483640 ≤ bitSize ∨ bitSize < 0 then none else some ⟨buffer, 0, bitSize⟩

/-- NC_ERROR_INPUT -/
def ncErrorInput : ℤ := -2

/-- `nc_ParseSPS` between its argument check and its end; nothing comes of it where the reader has no buffer. -/
def ncParseSPS (sps : Mem) (len width height : ℤ) : Option (ℤ × ℤ × ℤ) :=
  if len ≤ 0 then some (ncErrorInput, width, height)
  else
    (initGetBits sps (int32 (len * 8))).map fun gb =>
      let r := decodeSeqParameterSet gb width height
      (0, r.2.1, if r.2.1 = 1920 ∧ r.2.2 = 1088 then 1080 else r.2.2)

end Sps

end SabApp
