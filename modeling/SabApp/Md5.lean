import SabApp.BlockHash
import SabApp.Bytes

/-!
# The message digest

`tool_md5_update` takes a message in pieces of any lengths, `tool_md5_final` pads it and gives the
digest. The four unrolled rounds are a loop over 64 steps (`transform_eq_loop`); the digest is that of
the whole message, however it was cut into pieces and whatever the context held before
(`final_feed`). The index of the block loop is a 32-bit number: a piece for which it runs over keeps
the loop going for ever (`update_isSome`).
-/

namespace SabApp

namespace Md5

/-- `u32State` -/
structure State where
  a : UInt32
  b : UInt32
  c : UInt32
  d : UInt32
  deriving DecidableEq

/-! ## The rounds -/

def F (x y z : UInt32) : UInt32 := (x &&& y) ||| (~~~x &&& z)

def G (x y z : UInt32) : UInt32 := (x &&& z) ||| (y &&& ~~~z)

def H (x y z : UInt32) : UInt32 := x ^^^ y ^^^ z

def I (x y z : UInt32) : UInt32 := y ^^^ (x ||| ~~~z)

def rotateLeft (x n : UInt32) : UInt32 := (x <<< n) ||| (x >>> (32 - n))

/-- The four macros differ in their function only. -/
def line (f : UInt32 → UInt32 → UInt32 → UInt32) (a b c d x s ac : UInt32) : UInt32 :=
  rotateLeft (a + (f b c d + x + ac)) s + b

def FF : UInt32 → UInt32 → UInt32 → UInt32 → UInt32 → UInt32 → UInt32 → UInt32 := line F

def GG : UInt32 → UInt32 → UInt32 → UInt32 → UInt32 → UInt32 → UInt32 → UInt32 := line G

def HH : UInt32 → UInt32 → UInt32 → UInt32 → UInt32 → UInt32 → UInt32 → UInt32 := line H

def II : UInt32 → UInt32 → UInt32 → UInt32 → UInt32 → UInt32 → UInt32 → UInt32 := line I

def S11 : UInt32 := 7
def S12 : UInt32 := 12
def S13 : UInt32 := 17
def S14 : UInt32 := 22
def S21 : UInt32 := 5
def S22 : UInt32 := 9
def S23 : UInt32 := 14
def S24 : UInt32 := 20
def S31 : UInt32 := 4
def S32 : UInt32 := 11
def S33 : UInt32 := 16
def S34 : UInt32 := 23
def S41 : UInt32 := 6
def S42 : UInt32 := 10
def S43 : UInt32 := 15
def S44 : UInt32 := 21

def round1 (x : ℕ → UInt32) (s : State) : State :=
  let ⟨a, b, c, d⟩ := s
  let a := FF a b c d (x 0) S11 0xd76aa478
  let d := FF d a b c (x 1) S12 0xe8c7b756
  let c := FF c d a b (x 2) S13 0x242070db
  let b := FF b c d a (x 3) S14 0xc1bdceee
  let a := FF a b c d (x 4) S11 0xf57c0faf
  let d := FF d a b c (x 5) S12 0x4787c62a
  let c := FF c d a b (x 6) S13 0xa8304613
  let b := FF b c d a (x 7) S14 0xfd469501
  let a := FF a b c d (x 8) S11 0x698098d8
  let d := FF d a b c (x 9) S12 0x8b44f7af
  let c := FF c d a b (x 10) S13 0xffff5bb1
  let b := FF b c d a (x 11) S14 0x895cd7be
  let a := FF a b c d (x 12) S11 0x6b901122
  let d := FF d a b c (x 13) S12 0xfd987193
  let c := FF c d a b (x 14) S13 0xa679438e
  let b := FF b c d a (x 15) S14 0x49b40821
  ⟨a, b, c, d⟩

def round2 (x : ℕ → UInt32) (s : State) : State :=
  let ⟨a, b, c, d⟩ := s
  let a := GG a b c d (x 1) S21 0xf61e2562
  let d := GG d a b c (x 6) S22 0xc040b340
  let c := GG c d a b (x 11) S23 0x265e5a51
  let b := GG b c d a (x 0) S24 0xe9b6c7aa
  let a := GG a b c d (x 5) S21 0xd62f105d
  let d := GG d a b c (x 10) S22 0x2441453
  let c := GG c d a b (x 15) S23 0xd8a1e681
  let b := GG b c d a (x 4) S24 0xe7d3fbc8
  let a := GG a b c d (x 9) S21 0x21e1cde6
  let d := GG d a b c (x 14) S22 0xc33707d6
  let c := GG c d a b (x 3) S23 0xf4d50d87
  let b := GG b c d a (x 8) S24 0x455a14ed
  let a := GG a b c d (x 13) S21 0xa9e3e905
  let d := GG d a b c (x 2) S22 0xfcefa3f8
  let c := GG c d a b (x 7) S23 0x676f02d9
  let b := GG b c d a (x 12) S24 0x8d2a4c8a
  ⟨a, b, c, d⟩

def round3 (x : ℕ → UInt32) (s : State) : State :=
  let ⟨a, b, c, d⟩ := s
  let a := HH a b c d (x 5) S31 0xfffa3942
  let d := HH d a b c (x 8) S32 0x8771f681
  let c := HH c d a b (x 11) S33 0x6d9d6122
  let b := HH b c d a (x 14) S34 0xfde5380c
  let a := HH a b c d (x 1) S31 0xa4beea44
  let d := HH d a b c (x 4) S32 0x4bdecfa9
  let c := HH c d a b (x 7) S33 0xf6bb4b60
  let b := HH b c d a (x 10) S34 0xbebfbc70
  let a := HH a b c d (x 13) S31 0x289b7ec6
  let d := HH d a b c (x 0) S32 0xeaa127fa
  let c := HH c d a b (x 3) S33 0xd4ef3085
  let b := HH b c d a (x 6) S34 0x4881d05
  let a := HH a b c d (x 9) S31 0xd9d4d039
  let d := HH d a b c (x 12) S32 0xe6db99e5
  let c := HH c d a b (x 15) S33 0x1fa27cf8
  let b := HH b c d a (x 2) S34 0xc4ac5665
  ⟨a, b, c, d⟩

def round4 (x : ℕ → UInt32) (s : State) : State :=
  let ⟨a, b, c, d⟩ := s
  let a := II a b c d (x 0) S41 0xf4292244
  let d := II d a b c (x 7) S42 0x432aff97
  let c := II c d a b (x 14) S43 0xab9423a7
  let b := II b c d a (x 5) S44 0xfc93a039
  let a := II a b c d (x 12) S41 0x655b59c3
  let d := II d a b c (x 3) S42 0x8f0ccc92
  let c := II c d a b (x 10) S43 0xffeff47d
  let b := II b c d a (x 1) S44 0x85845dd1
  let a := II a b c d (x 8) S41 0x6fa87e4f
  let d := II d a b c (x 15) S42 0xfe2ce6e0
  let c := II c d a b (x 6) S43 0xa3014314
  let b := II b c d a (x 13) S44 0x4e0811a1
  let a := II a b c d (x 4) S41 0xf7537e82
  let d := II d a b c (x 11) S42 0xbd3af235
  let c := II c d a b (x 2) S43 0x2ad7d2bb
  let b := II b c d a (x 9) S44 0xeb86d391
  ⟨a, b, c, d⟩
/-! ## The context -/

def decodeWord (pucInput : List UInt8) (j : ℕ) : UInt32 :=
  (pucInput.getD j 0).toUInt32 ||| ((pucInput.getD (j + 1) 0).toUInt32 <<< 8) |||
    ((pucInput.getD (j + 2) 0).toUInt32 <<< 16) ||| ((pucInput.getD (j + 3) 0).toUInt32 <<< 24)

def decode (pucInput : List UInt8) (ulLen : ℕ) : List UInt32 :=
  (List.range ((ulLen + 3) / 4)).map fun i => decodeWord pucInput (4 * i)

def encodeWord (w : UInt32) : List UInt8 :=
  [(w &&& 0xff).toUInt8, ((w >>> 8) &&& 0xff).toUInt8, ((w >>> 16) &&& 0xff).toUInt8, ((w >>> 24) &&& 0xff).toUInt8]

def encode (pu32Input : List UInt32) (ulLen : ℕ) : List UInt8 :=
  (List.range ((ulLen + 3) / 4)).flatMap fun i => encodeWord (pu32Input.getD i 0)

def rounds (x : ℕ → UInt32) (s : State) : State := round4 x (round3 x (round2 x (round1 x s)))

def transform (u32State : State) (ucBlock : List UInt8) : State :=
  let x := decode ucBlock 64
  let r := rounds (fun i => x.getD i 0) u32State
  ⟨u32State.a + r.a, u32State.b + r.b, u32State.c + r.c, u32State.d + r.d⟩

/-- `tool_md5_t` -/
structure Ctx where
  u32State : State
  u32Cnt₀ : UInt32
  u32Cnt₁ : UInt32
  szBuffer : Mem

def iv : State := ⟨0x67452301, 0xefcdab89, 0x98badcfe, 0x10325476⟩

def init (pstContext : Ctx) : Ctx := { pstContext with u32State := iv, u32Cnt₀ := 0, u32Cnt₁ := 0 }

/-- The blocks of a piece behind its first `i` bytes; the steps allowed may run out. -/
def blockLoop (pucInput : List UInt8) (ulInputLen : UInt32) : ℕ → UInt32 → State → Option (UInt32 × State)
  | 0, _, _ => none
  | fuel + 1, i, s =>
    if i + 63 < ulInputLen then
      blockLoop pucInput ulInputLen fuel (i + 64) (transform s ((pucInput.drop i.toNat).take 64))
    else some (i, s)

def ulIndex (pstContext : Ctx) : UInt32 := (pstContext.u32Cnt₀ >>> 3) &&& 0x3F

/-- With a carry from the low word, and the bits that the shift loses. -/
def count (pstContext : Ctx) (ulInputLen : UInt32) : UInt32 × UInt32 :=
  let cnt₀ := pstContext.u32Cnt₀ + (ulInputLen <<< 3)
  let cnt₁ := if cnt₀ < (ulInputLen <<< 3) then pstContext.u32Cnt₁ + 1 else pstContext.u32Cnt₁
  (cnt₀, cnt₁ + (ulInputLen >>> 29))

def update (pstContext : Ctx) (pucInput : List UInt8) (ulInputLen : UInt32) : Option Ctx :=
  let cnt := count pstContext ulInputLen
  let ulPartLen := 64 - ulIndex pstContext
  if ulPartLen ≤ ulInputLen then
    let buf := pstContext.szBuffer.write (ulIndex pstContext).toNat (pucInput.take ulPartLen.toNat)
    let s := transform pstContext.u32State (buf.read 0 64)
    (blockLoop pucInput ulInputLen (ulInputLen.toNat + 1) ulPartLen s).map fun r =>
      ⟨r.2, cnt.1, cnt.2, buf.write 0 ((pucInput.drop r.1.toNat).take (ulInputLen - r.1).toNat)⟩
  else
    some ⟨pstContext.u32State, cnt.1, cnt.2,
      pstContext.szBuffer.write (ulIndex pstContext).toNat (pucInput.take ulInputLen.toNat)⟩

def PADDING : List UInt8 := 0x80 :: List.replicate 63 0

def padLen (pstContext : Ctx) : UInt32 :=
  if ulIndex pstContext < 56 then 56 - ulIndex pstContext else 120 - ulIndex pstContext

def final (pstContext : Ctx) : Option (List UInt8) :=
  let bits := encode [pstContext.u32Cnt₀, pstContext.u32Cnt₁] 8
  ((update pstContext PADDING (padLen pstContext)).bind fun c => update c bits 8).map fun c =>
    encode [c.u32State.a, c.u32State.b, c.u32State.c, c.u32State.d] 16

/-- With what the stack held for the context. -/
def md5Calc (stContext : Ctx) (pucInput : List UInt8) (ulInlen : UInt32) : Option (List UInt8) :=
  (update (init stContext) pucInput ulInlen).bind final

/-! ## The digest as it is specified -/

/-- What the sixteen steps of a round share. -/
structure Kind where
  f : UInt32 → UInt32 → UInt32 → UInt32
  word : ℕ → ℕ
  shifts : List UInt32

def kind : ℕ → Kind
  | 0 => ⟨F, fun i => i, [7, 12, 17, 22]⟩
  | 1 => ⟨G, fun i => (5 * i + 1) % 16, [5, 9, 14, 20]⟩
  | 2 => ⟨H, fun i => (3 * i + 5) % 16, [4, 11, 16, 23]⟩
  | _ => ⟨I, fun i => 7 * i % 16, [6, 10, 15, 21]⟩

/-- The constants of the steps, in their order. -/
def sines : List UInt32 :=
  [0xd76aa478, 0xe8c7b756, 0x242070db, 0xc1bdceee, 0xf57c0faf, 0x4787c62a, 0xa8304613, 0xfd469501,
   0x698098d8, 0x8b44f7af, 0xffff5bb1, 0x895cd7be, 0x6b901122, 0xfd987193, 0xa679438e, 0x49b40821,
   0xf61e2562, 0xc040b340, 0x265e5a51, 0xe9b6c7aa, 0xd62f105d, 0x2441453, 0xd8a1e681, 0xe7d3fbc8,
   0x21e1cde6, 0xc33707d6, 0xf4d50d87, 0x455a14ed, 0xa9e3e905, 0xfcefa3f8, 0x676f02d9, 0x8d2a4c8a,
   0xfffa3942, 0x8771f681, 0x6d9d6122, 0xfde5380c, 0xa4beea44, 0x4bdecfa9, 0xf6bb4b60, 0xbebfbc70,
   0x289b7ec6, 0xeaa127fa, 0xd4ef3085, 0x4881d05, 0xd9d4d039, 0xe6db99e5, 0x1fa27cf8, 0xc4ac5665,
   0xf4292244, 0x432aff97, 0xab9423a7, 0xfc93a039, 0x655b59c3, 0x8f0ccc92, 0xffeff47d, 0x85845dd1,
   0x6fa87e4f, 0xfe2ce6e0, 0xa3014314, 0x4e0811a1, 0xf7537e82, 0xbd3af235, 0x2ad7d2bb, 0xeb86d391]

def step (x : ℕ → UInt32) (s : State) (i : ℕ) : State :=
  let k := kind (i / 16)
  ⟨s.d, line k.f s.a s.b s.c s.d (x (k.word i)) (k.shifts.getD (i % 4) 0) (sines.getD i 0), s.b, s.c⟩

/-- The compression: 64 steps, and the state added to what they give. -/
def compress (s : State) (block : List UInt8) : State :=
  let x := (List.range 16).map fun i => UInt32.ofNat (word32 block (4 * i))
  let r := (List.range' 0 64).foldl (step fun i => x.getD i 0) s
  ⟨s.a + r.a, s.b + r.b, s.c + r.c, s.d + r.d⟩

def le64 (n : ℕ) : List UInt8 := le32 n ++ le32 (n / 4294967296)

/-- The message, a one bit, zeros up to eight bytes before a block's end, and its length in bits. -/
def pad (xs : List UInt8) : List UInt8 :=
  xs ++ (0x80 :: List.replicate ((119 - xs.length % 64) % 64) 0 ++ le64 (8 * xs.length))

def State.bytes (s : State) : List UInt8 := le32 s.a.toNat ++ le32 s.b.toNat ++ le32 s.c.toNat ++ le32 s.d.toNat

def md5 (xs : List UInt8) : List UInt8 := (Blocks.absorb compress 64 iv (pad xs)).bytes

/-! ## The unrolled rounds -/

section
variable (x : ℕ → UInt32) (s : State)

theorem foldl_range'_succ {β : Type} (f : β → ℕ → β) (b : β) (i n : ℕ) :
    (List.range' i (n + 1)).foldl f b = (List.range' (i + 1) n).foldl f (f b i) := rfl

theorem round1_eq : round1 x s = (List.range' 0 16).foldl (step x) s := by
  simp only [round1, foldl_range'_succ, List.range'_zero, List.foldl_nil, step, kind, FF, S11, S12, S13, S14, sines,
    Nat.reduceDiv, Nat.reduceMod, Nat.reduceAdd, List.getD_cons_zero, List.getD_cons_succ]

theorem round2_eq : round2 x s = (List.range' 16 16).foldl (step x) s := by
  simp only [round2, foldl_range'_succ, List.range'_zero, List.foldl_nil, step, kind, GG, S21, S22, S23, S24, sines,
    Nat.reduceDiv, Nat.reduceMod, Nat.reduceAdd, Nat.reduceMul, List.getD_cons_zero, List.getD_cons_succ]

theorem round3_eq : round3 x s = (List.range' 32 16).foldl (step x) s := by
  simp only [round3, foldl_range'_succ, List.range'_zero, List.foldl_nil, step, kind, HH, S31, S32, S33, S34, sines,
    Nat.reduceDiv, Nat.reduceMod, Nat.reduceAdd, Nat.reduceMul, List.getD_cons_zero, List.getD_cons_succ]

theorem round4_eq : round4 x s = (List.range' 48 16).foldl (step x) s := by
  simp only [round4, foldl_range'_succ, List.range'_zero, List.foldl_nil, step, kind, II, S41, S42, S43, S44, sines,
    Nat.reduceDiv, Nat.reduceMod, Nat.reduceAdd, Nat.reduceMul, List.getD_cons_zero, List.getD_cons_succ]

theorem rounds_eq : rounds x s = (List.range' 0 64).foldl (step x) s := by
  have hsplit : List.range' 0 64 = List.range' 0 16 ++ List.range' 16 16 ++ List.range' 32 16 ++ List.range' 48 16 :=
    rfl
  rw [rounds, round1_eq, round2_eq, round3_eq, round4_eq, hsplit, List.foldl_append, List.foldl_append,
    List.foldl_append]

end

/-! ## Words and bytes -/

theorem or_shift {a b k : ℕ} (h : a < 2 ^ k) : a ||| b <<< k = a + b * 2 ^ k := by
  rw [Nat.or_comm, ← Nat.shiftLeft_add_eq_or_of_lt h, Nat.shiftLeft_eq, Nat.add_comm]

theorem shift_lt {b k : ℕ} (hb : b < 256) (hk : k ≤ 24) : b <<< k % 2 ^ 32 = b <<< k := by
  refine Nat.mod_eq_of_lt ?_
  rw [Nat.shiftLeft_eq]
  calc b * 2 ^ k < 256 * 2 ^ k := Nat.mul_lt_mul_of_pos_right hb (Nat.two_pow_pos k)
    _ ≤ 256 * 2 ^ 24 := Nat.mul_le_mul_left _ (Nat.pow_le_pow_right (by decide) hk)
    _ = 2 ^ 32 := by decide

theorem decodeWord_eq (bs : List UInt8) (j : ℕ) : decodeWord bs j = UInt32.ofNat (word32 bs j) := by
  have h₀ := byteAt_lt bs j
  have h₁ := byteAt_lt bs (j + 1)
  have h₂ := byteAt_lt bs (j + 2)
  have h₃ := byteAt_lt bs (j + 3)
  apply UInt32.toNat_inj.mp
  rw [UInt32.toNat_ofNat', Nat.mod_eq_of_lt (word32_lt bs j)]
  simp only [decodeWord, word32, UInt32.toNat_or, UInt32.toNat_shiftLeft, UInt8.toNat_toUInt32, UInt32.toNat_ofNat]
  change (byteAt bs j ||| byteAt bs (j + 1) <<< 8 % 2 ^ 32 ||| byteAt bs (j + 2) <<< 16 % 2 ^ 32 |||
    byteAt bs (j + 3) <<< 24 % 2 ^ 32) = _
  rw [shift_lt h₁ (by decide), shift_lt h₂ (by decide), shift_lt h₃ (by decide), @or_shift _ _ 8 h₀,
    @or_shift _ _ 16 (by omega), @or_shift _ _ 24 (by omega)]
  omega

theorem encodeWord_eq (w : UInt32) : encodeWord w = le32 w.toNat := by
  have h : ∀ k : UInt32, ((w >>> k) &&& 0xff).toUInt8 = UInt8.ofNat (w.toNat / 2 ^ (k.toNat % 32)) := by
    intro k
    apply UInt8.toNat_inj.mp
    rw [UInt32.toNat_toUInt8, UInt32.toNat_and, UInt32.toNat_shiftRight, UInt8.toNat_ofNat', Nat.shiftRight_eq_div_pow]
    have hm := Nat.and_two_pow_sub_one_eq_mod (w.toNat / 2 ^ (k.toNat % 32)) 8
    exact (congrArg (· % 256) hm).trans (Nat.mod_mod _ _)
  have h₀ : (w &&& 0xff).toUInt8 = UInt8.ofNat w.toNat := by simpa using h 0
  simp only [encodeWord, le32, h₀, h]
  rfl

/-- The unrolled transformation is the loop. -/
theorem transform_eq_loop : transform = compress := by
  funext s block
  have hx : decode block 64 = (List.range 16).map fun i => UInt32.ofNat (word32 block (4 * i)) :=
    List.map_congr_left fun i _ => decodeWord_eq block (4 * i)
  unfold transform compress
  simp only [hx, rounds_eq]

/-! ## The block loop -/

theorem toNat_63 : (63 : UInt32).toNat = 63 := rfl

theorem toNat_64 : (64 : UInt32).toNat = 64 := rfl

/-- The bytes of a piece: as many as its length says of what the pointer leads to. -/
structure Piece (input : List UInt8) (len : UInt32) (ys : List UInt8) : Prop where
  bytes : input.take len.toNat = ys
  length : ys.length = len.toNat

theorem Piece.take {input ys : List UInt8} {len : UInt32} (h : Piece input len ys) {n : ℕ} (hn : n ≤ len.toNat) :
    input.take n = ys.take n := by
  rw [← h.bytes, List.take_take, Nat.min_eq_left hn]

theorem Piece.drop {input ys : List UInt8} {len : UInt32} (h : Piece input len ys) (n : ℕ) :
    (input.drop n).take (len.toNat - n) = ys.drop n := by
  rw [← h.bytes, List.drop_take]

theorem Piece.block {input ys : List UInt8} {len : UInt32} (h : Piece input len ys) {n : ℕ} (hn : n + 64 ≤ len.toNat) :
    (input.drop n).take 64 = (ys.drop n).take 64 := by
  rw [← h.drop, List.take_take, Nat.min_eq_left (by omega)]

section
variable {input ys : List UInt8} {len : UInt32}

/-- Without running over, the loop folds the whole blocks and stops in front of what is left. -/
theorem blockLoop_eq (h : Piece input len ys) {fuel : ℕ} {i : UInt32} (hi : i.toNat ≤ len.toNat)
    (hw : i.toNat + 64 * ((len.toNat - i.toNat) / 64) + 63 < 2 ^ 32) (hf : (len.toNat - i.toNat) / 64 < fuel)
    (s : State) :
    ∃ j : UInt32, blockLoop input len fuel i s = some (j, Blocks.absorb transform 64 s (ys.drop i.toNat)) ∧
      ys.drop j.toNat = Blocks.rest 64 (ys.drop i.toNat) ∧ j.toNat ≤ len.toNat := by
  have hlen := h.length
  induction fuel generalizing i s with
  | zero => exact absurd hf (Nat.not_lt_zero _)
  | succ fuel ih =>
    have hadd : (i + 63).toNat = i.toNat + 63 := by
      rw [UInt32.toNat_add, toNat_63]; omega
    rw [blockLoop]
    by_cases hc : i + 63 < len
    · have hlt := UInt32.lt_iff_toNat_lt.mp hc
      rw [hadd] at hlt
      have hnext : (i + 64).toNat = i.toNat + 64 := by
        rw [UInt32.toNat_add, toNat_64]; omega
      have hdrop : 64 ≤ (ys.drop i.toNat).length := by rw [List.length_drop]; omega
      rw [if_pos hc, h.block (by omega), Blocks.absorb_step transform (by decide) hdrop,
        Blocks.rest_step (by decide) hdrop, List.drop_drop, ← hnext]
      exact ih (by omega) (by omega) (by omega) _
    · have hge := mt UInt32.lt_iff_toNat_lt.mpr hc
      rw [hadd] at hge
      have hdrop : (ys.drop i.toNat).length < 64 := by rw [List.length_drop]; omega
      rw [if_neg hc, Blocks.absorb_of_lt transform hdrop, Blocks.rest_of_lt hdrop]
      exact ⟨i, rfl, rfl, hi⟩

/-- Where the index would run over, no number of steps is enough. -/
theorem blockLoop_none {i : UInt32} (hi : i.toNat % 64 ≠ 0) (hw : 2 ^ 32 - 64 + i.toNat % 64 ≤ len.toNat) (fuel : ℕ)
    (s : State) : blockLoop input len fuel i s = none := by
  induction fuel generalizing i s with
  | zero => rfl
  | succ fuel ih =>
    have hlt := i.toNat_lt
    have hc : i + 63 < len := by
      apply UInt32.lt_iff_toNat_lt.mpr
      rw [UInt32.toNat_add, toNat_63]
      omega
    have hnext : (i + 64).toNat % 64 = i.toNat % 64 := by
      rw [UInt32.toNat_add, toNat_64]
      omega
    rw [blockLoop, if_pos hc]
    exact ih (by omega) (by omega) _

end

/-! ## A message in pieces -/

/-- The context holds the digest's state after a message. -/
structure Fed (c : Ctx) (xs : List UInt8) : Prop where
  state : c.u32State = Blocks.absorb transform 64 iv xs
  buffer : c.szBuffer.read 0 (xs.length % 64) = Blocks.rest 64 xs
  count : c.u32Cnt₀.toNat + 4294967296 * c.u32Cnt₁.toNat = 8 * xs.length % 18446744073709551616

theorem fed_init (c : Ctx) : Fed (init c) [] := ⟨rfl, rfl, rfl⟩

theorem Fed.ulIndex {c : Ctx} {xs : List UInt8} (h : Fed c xs) : (ulIndex c).toNat = xs.length % 64 := by
  have hc := h.count
  have hlt := c.u32Cnt₀.toNat_lt
  have hm := Nat.and_two_pow_sub_one_eq_mod (c.u32Cnt₀.toNat / 8) 6
  rw [Md5.ulIndex, UInt32.toNat_and, UInt32.toNat_shiftRight, Nat.shiftRight_eq_div_pow]
  refine (show _ = _ from hm).trans ?_
  omega

theorem Fed.ulPartLen {c : Ctx} {xs : List UInt8} (h : Fed c xs) :
    (64 - Md5.ulIndex c).toNat = 64 - xs.length % 64 := by
  have hi := h.ulIndex
  have hle : Md5.ulIndex c ≤ 64 := by
    apply UInt32.le_iff_toNat_le.mpr
    rw [hi, toNat_64]; omega
  rw [UInt32.toNat_sub_of_le _ _ hle, hi, toNat_64]

theorem count_eq {c : Ctx} {xs : List UInt8} (h : Fed c xs) (len : UInt32) :
    (count c len).1.toNat + 4294967296 * (count c len).2.toNat =
      8 * (xs.length + len.toNat) % 18446744073709551616 := by
  have hc := h.count
  have h0 := c.u32Cnt₀.toNat_lt
  have h1 := c.u32Cnt₁.toNat_lt
  have hl := len.toNat_lt
  have hsl : (len <<< 3).toNat = 8 * len.toNat % 4294967296 := by
    rw [UInt32.toNat_shiftLeft, Nat.shiftLeft_eq, Nat.mul_comm]; rfl
  have hsr : (len >>> 29).toNat = len.toNat / 536870912 := by
    rw [UInt32.toNat_shiftRight, Nat.shiftRight_eq_div_pow]; rfl
  have hone : (1 : UInt32).toNat = 1 := rfl
  simp only [Md5.count]
  split
  · next hlt =>
    have hlt := UInt32.lt_iff_toNat_lt.mp hlt
    simp only [UInt32.toNat_add, hsl, hsr, hone] at hlt ⊢
    omega
  · next hge =>
    have hge := mt UInt32.lt_iff_toNat_lt.mpr hge
    simp only [UInt32.toNat_add, hsl, hsr] at hge ⊢
    omega

section
variable {c : Ctx} {input xs ys : List UInt8} {len : UInt32}

/-- The buffer with as much of a piece as it takes. -/
theorem Fed.filled (h : Fed c xs) (input : List UInt8) (n : ℕ) :
    (c.szBuffer.write (Md5.ulIndex c).toNat (input.take n)).read 0 (xs.length % 64 + (input.take n).length) =
      Blocks.rest 64 xs ++ input.take n := by
  rw [Mem.read_add, h.ulIndex, Nat.zero_add, Mem.read_write, Mem.read_write_of_disjoint (.inr (by omega)), h.buffer]

/-- A piece that does not fill the buffer waits in it. -/
theorem update_short (h : Fed c xs) (hy : Piece input len ys) (hs : xs.length % 64 + ys.length < 64) :
    ∃ c', update c input len = some c' ∧ Fed c' (xs ++ ys) := by
  have hc : ¬64 - Md5.ulIndex c ≤ len := by
    intro hle
    have hlen := hy.length
    have hle := UInt32.le_iff_toNat_le.mp hle
    rw [h.ulPartLen] at hle
    omega
  have hcount := count_eq h len
  rw [← hy.length, ← List.length_append] at hcount
  have hheld : (Blocks.rest 64 xs ++ ys).length < 64 := by
    rw [List.length_append, Blocks.rest_length]; exact hs
  refine ⟨_, if_neg hc, ⟨?_, ?_, hcount⟩⟩
  · rw [Blocks.absorb_append transform (by decide), Blocks.absorb_of_lt transform hheld]
    exact h.state
  · have hfill := h.filled input len.toNat
    have hmod : (xs ++ ys).length % 64 = xs.length % 64 + ys.length := by
      rw [List.length_append]; omega
    rw [hy.bytes] at hfill
    rw [Blocks.rest_append (by decide), Blocks.rest_of_lt hheld, hmod]
    dsimp only
    rw [hy.bytes, hfill]

/-- A piece that fills the buffer goes in from there block by block. -/
theorem update_full (h : Fed c xs) (hy : Piece input len ys) (hf : 64 ≤ xs.length % 64 + ys.length)
    (hw : xs.length % 64 + ys.length < 2 ^ 32) : ∃ c', update c input len = some c' ∧ Fed c' (xs ++ ys) := by
  have hp := h.ulPartLen
  have hlen := hy.length
  have hc : 64 - Md5.ulIndex c ≤ len := by
    apply UInt32.le_iff_toNat_le.mpr
    rw [hp]; omega
  have hpart : input.take (64 - xs.length % 64) = ys.take (64 - xs.length % 64) := hy.take (by omega)
  have hcount := count_eq h len
  rw [← hy.length, ← List.length_append] at hcount
  have htake : (ys.take (64 - xs.length % 64)).length = 64 - xs.length % 64 := List.length_take_of_le (by omega)
  have hblock : (Blocks.rest 64 xs ++ ys.take (64 - xs.length % 64)).length = 64 := by
    rw [List.length_append, Blocks.rest_length, htake]; omega
  have hcut : Blocks.rest 64 xs ++ ys =
      (Blocks.rest 64 xs ++ ys.take (64 - xs.length % 64)) ++ ys.drop (64 - xs.length % 64) := by
    rw [List.append_assoc, List.take_append_drop]
  have hbuf := h.filled ys (64 - xs.length % 64)
  have hsum : xs.length % 64 + (64 - xs.length % 64) = 64 := by omega
  rw [htake, hsum] at hbuf
  have hwrap : 64 - xs.length % 64 + 64 * ((len.toNat - (64 - xs.length % 64)) / 64) + 63 < 2 ^ 32 := by omega
  have hfuel : (len.toNat - (64 - xs.length % 64)) / 64 < len.toNat + 1 := by omega
  rw [← hp] at hwrap hfuel
  obtain ⟨j, hloop, hdrop, hj⟩ := blockLoop_eq hy (UInt32.le_iff_toNat_le.mp hc) hwrap hfuel
    (transform c.u32State (Blocks.rest 64 xs ++ ys.take (64 - xs.length % 64)))
  rw [hp] at hloop hdrop
  have hwait : Blocks.rest 64 (xs ++ ys) = ys.drop j.toNat := by
    rw [hdrop, Blocks.rest_append (by decide), hcut, Blocks.rest_block (by decide) hblock]
  have hup : update c input len = some ⟨Blocks.absorb transform 64 (transform c.u32State (Blocks.rest 64 xs ++
      ys.take (64 - xs.length % 64))) (ys.drop (64 - xs.length % 64)), (count c len).1, (count c len).2,
      (c.szBuffer.write (Md5.ulIndex c).toNat (ys.take (64 - xs.length % 64))).write 0
        (ys.drop j.toNat)⟩ := by
    rw [update]
    dsimp only
    rw [if_pos hc, hp, hpart, hbuf, hloop, Option.map_some, UInt32.toNat_sub_of_le _ _ (UInt32.le_iff_toNat_le.mpr hj),
      hy.drop]
  refine ⟨_, hup, ⟨?_, ?_, hcount⟩⟩
  · rw [Blocks.absorb_append transform (by decide), hcut, Blocks.absorb_block transform (by decide) hblock, ← h.state]
  · have hmod : (xs ++ ys).length % 64 = (ys.drop j.toNat).length := by rw [← hwait, Blocks.rest_length]
    rw [hmod, hwait]
    exact Mem.read_write _ _ _

end

/-- A piece is taken in behind the message so far, unless the loop's index runs over. -/
theorem update_fed {c : Ctx} {input xs ys : List UInt8} {len : UInt32} (h : Fed c xs) (hy : Piece input len ys)
    (hw : xs.length % 64 + ys.length < 2 ^ 32) : ∃ c', update c input len = some c' ∧ Fed c' (xs ++ ys) := by
  by_cases hs : xs.length % 64 + ys.length < 64
  · exact update_short h hy hs
  · exact update_full h hy (Nat.le_of_not_lt hs) hw

/-- The bound is exact: past it the block loop goes on for ever. -/
theorem update_isSome {c : Ctx} {input xs ys : List UInt8} {len : UInt32} (h : Fed c xs) (hy : Piece input len ys) :
    (update c input len).isSome ↔ xs.length % 64 + ys.length < 2 ^ 32 := by
  constructor
  · intro hs
    by_contra hge
    have hp := h.ulPartLen
    have hlen := hy.length
    have hlt := len.toNat_lt
    have hc : 64 - Md5.ulIndex c ≤ len := by
      apply UInt32.le_iff_toNat_le.mpr
      rw [hp]; omega
    rw [update] at hs
    dsimp only at hs
    rw [if_pos hc, blockLoop_none (by rw [hp]; omega) (by rw [hp]; omega)] at hs
    cases hs
  · intro hlt
    obtain ⟨c', hc', _⟩ := update_fed h hy hlt
    rw [hc']
    rfl

/-- It returns exactly where the index does not run over; where it does, no number of steps is enough. -/
theorem update_returns {c : Ctx} {input xs ys : List UInt8} {len : UInt32} (h : Fed c xs) (hy : Piece input len ys) :
    ((update c input len).isSome ↔ xs.length % 64 + ys.length < 2 ^ 32) ∧
      (¬xs.length % 64 + ys.length < 2 ^ 32 →
        ∀ fuel s, blockLoop input len fuel (64 - Md5.ulIndex c) s = none) := by
  refine ⟨update_isSome h hy, fun hge fuel s => ?_⟩
  have hp := h.ulPartLen
  have hlen := hy.length
  have hlt := len.toNat_lt
  exact blockLoop_none (by omega) (by omega) fuel s

def someCtx : Ctx := ⟨⟨1, 2, 3, 4⟩, 5, 6, fun _ => 7⟩

theorem update_returns_three : ((update (init someCtx) [1, 2, 3] 3).isSome ↔
      ([] : List UInt8).length % 64 + [(1 : UInt8), 2, 3].length < 2 ^ 32) ∧
    (¬([] : List UInt8).length % 64 + [(1 : UInt8), 2, 3].length < 2 ^ 32 →
      ∀ fuel s, blockLoop [1, 2, 3] 3 fuel (64 - Md5.ulIndex (init someCtx)) s = none) :=
  update_returns (fed_init someCtx) ⟨rfl, rfl⟩

/-! ## The digest -/

def feed (c : Ctx) (pieces : List (List UInt8)) : Option Ctx :=
  pieces.foldlM (fun c p => update c p (UInt32.ofNat p.length)) c

theorem feed_fed {pieces : List (List UInt8)} {c : Ctx} {xs : List UInt8} (h : Fed c xs)
    (hp : ∀ p ∈ pieces, p.length + 63 < 2 ^ 32) : ∃ c', feed c pieces = some c' ∧ Fed c' (xs ++ pieces.flatten) := by
  induction pieces generalizing c xs with
  | nil => exact ⟨c, rfl, by simpa using h⟩
  | cons p pieces ih =>
    have hlt := hp p List.mem_cons_self
    have hlen : p.length = (UInt32.ofNat p.length).toNat := by
      rw [UInt32.toNat_ofNat', Nat.mod_eq_of_lt (by omega)]
    obtain ⟨c₁, h₁, hf₁⟩ := update_fed h ⟨by rw [← hlen, List.take_length], hlen⟩ (by omega)
    obtain ⟨c₂, h₂, hf₂⟩ := ih hf₁ fun q hq => hp q (List.mem_cons_of_mem _ hq)
    refine ⟨c₂, ?_, by rwa [List.flatten_cons, ← List.append_assoc]⟩
    rw [feed, List.foldlM_cons, h₁]
    exact h₂

theorem Fed.padLen {c : Ctx} {xs : List UInt8} (h : Fed c xs) : (padLen c).toNat = (119 - xs.length % 64) % 64 + 1 := by
  have hi := h.ulIndex
  have h56 : (56 : UInt32).toNat = 56 := rfl
  have h120 : (120 : UInt32).toNat = 120 := rfl
  rw [Md5.padLen]
  split
  · next hlt =>
    have hlt := UInt32.lt_iff_toNat_lt.mp hlt
    rw [hi, h56] at hlt
    rw [UInt32.toNat_sub_of_le _ _ (UInt32.le_iff_toNat_le.mpr (by rw [hi, h56]; omega)), hi, h56]
    omega
  · next hge =>
    have hge := mt UInt32.lt_iff_toNat_lt.mpr hge
    rw [hi, h56] at hge
    rw [UInt32.toNat_sub_of_le _ _ (UInt32.le_iff_toNat_le.mpr (by rw [hi, h120]; omega)), hi, h120]
    omega

theorem le32_congr {m n : ℕ} (h : m % 4294967296 = n % 4294967296) : le32 m = le32 n := by
  have hb : ∀ a b : ℕ, a % 256 = b % 256 → UInt8.ofNat a = UInt8.ofNat b := fun a b hab =>
    UInt8.toNat_inj.mp (by rw [UInt8.toNat_ofNat', UInt8.toNat_ofNat']; exact hab)
  rw [le32, le32, hb m n (by omega), hb (m / 256) (n / 256) (by omega), hb (m / 65536) (n / 65536) (by omega),
    hb (m / 16777216) (n / 16777216) (by omega)]

/-- The length goes out as it was counted. -/
theorem Fed.bits {c : Ctx} {xs : List UInt8} (h : Fed c xs) :
    encode [c.u32Cnt₀, c.u32Cnt₁] 8 = le64 (8 * xs.length) := by
  have hc := h.count
  have h0 := c.u32Cnt₀.toNat_lt
  have h1 := c.u32Cnt₁.toNat_lt
  have he : encode [c.u32Cnt₀, c.u32Cnt₁] 8 = encodeWord c.u32Cnt₀ ++ (encodeWord c.u32Cnt₁ ++ []) := rfl
  rw [he, List.append_nil, encodeWord_eq, encodeWord_eq, le64]
  congr 1 <;> exact le32_congr (by omega)

theorem encode_state (s : State) : encode [s.a, s.b, s.c, s.d] 16 = s.bytes := by
  have he : encode [s.a, s.b, s.c, s.d] 16 =
      encodeWord s.a ++ (encodeWord s.b ++ (encodeWord s.c ++ (encodeWord s.d ++ []))) := rfl
  simp only [he, State.bytes, encodeWord_eq, List.append_nil, List.append_assoc]

/-- What the padding takes of its table. -/
theorem Fed.padding {c : Ctx} {xs : List UInt8} (h : Fed c xs) :
    Piece PADDING (Md5.padLen c) (0x80 :: List.replicate ((119 - xs.length % 64) % 64) 0) := by
  have hp := h.padLen
  refine ⟨?_, by rw [hp, List.length_cons, List.length_replicate]⟩
  rw [hp, PADDING, List.take_succ_cons, List.take_replicate, Nat.min_eq_left (by omega)]

theorem final_fed {c : Ctx} {xs : List UInt8} (h : Fed c xs) : final c = some (md5 xs) := by
  have hbits := h.bits
  obtain ⟨c₁, h₁, hf₁⟩ := update_fed h h.padding (by rw [List.length_cons, List.length_replicate]; omega)
  have hlen : Piece (le64 (8 * xs.length)) 8 (le64 (8 * xs.length)) := ⟨rfl, rfl⟩
  have height : (le64 (8 * xs.length)).length = 8 := rfl
  obtain ⟨c₂, h₂, hf₂⟩ := update_fed hf₁ hlen (by omega)
  rw [final, hbits, h₁, Option.bind_some, h₂, Option.map_some, encode_state, hf₂.state, transform_eq_loop, md5, pad,
    List.append_assoc]

/-- **One digest for a message, however it is cut**: pieces of any lengths, in whatever context they
are started, give the digest of the message that they make up. -/
theorem final_feed (c : Ctx) {pieces : List (List UInt8)} (h : ∀ p ∈ pieces, p.length + 63 < 2 ^ 32) :
    (feed (init c) pieces).bind final = some (md5 pieces.flatten) := by
  obtain ⟨c', hc', hf⟩ := feed_fed (fed_init c) h
  rw [hc', Option.bind_some, final_fed hf, List.nil_append]

theorem final_feed_pieces : (∀ p ∈ [[1, 2], [], [(3 : UInt8)]], p.length + 63 < 2 ^ 32) ∧
    (feed (init someCtx) [[1, 2], [], [3]]).bind final = some (md5 [1, 2, 3]) :=
  ⟨by decide, final_feed someCtx (by decide)⟩

/-- One piece may have any length that its type can say. -/
theorem md5Calc_eq (c : Ctx) {input xs : List UInt8} {len : UInt32} (h : Piece input len xs) :
    md5Calc c input len = some (md5 xs) := by
  have hlt := len.toNat_lt
  obtain ⟨c', hc', hf⟩ := update_fed (fed_init c) h (by rw [h.length]; simpa using hlt)
  rw [md5Calc, hc', Option.bind_some, final_fed hf, List.nil_append]

/-! ## What is made of a digest -/

/-- Zero where the digests differ: the comparison's verdict is taken the other way round. -/
def check (stContext : Ctx) (authenticator input : List UInt8) (inlen : UInt32) : Option ℤ :=
  (md5Calc stContext input inlen).map fun authBuf => if authenticator.take 16 ≠ authBuf.take 16 then 0 else -1

def calc16bit (stContext : Ctx) (pucInput : List UInt8) (ulInlen : UInt32) : Option (List UInt8) :=
  (md5Calc stContext pucInput ulInlen).map fun tmpBuf => (tmpBuf.drop 4).take 8

def check16bit (stContext : Ctx) (authenticator input : List UInt8) (inlen : UInt32) : Option ℤ :=
  (md5Calc stContext input inlen).map fun authBuf =>
    if authenticator.take 8 ≠ (authBuf.drop 4).take 8 then 0 else -1

/-- A number below 62 as a digit or a letter. -/
def xmChar (n : ℕ) : UInt8 :=
  if n ≤ 9 then UInt8.ofNat (n + 48) else if n ≤ 35 then UInt8.ofNat (n + 55) else UInt8.ofNat (n + 61)

def xmText (tmpBuf : List UInt8) : List UInt8 :=
  (List.range 8).map fun i => xmChar ((byteAt tmpBuf (2 * i) + byteAt tmpBuf (2 * i + 1)) % 62)

def calcXm (stContext : Ctx) (pucInput : List UInt8) (ulInlen : UInt32) : Option (List UInt8) :=
  (md5Calc stContext pucInput ulInlen).map xmText

def checkXm (stContext : Ctx) (authenticator input : List UInt8) (inlen : UInt32) : Option ℤ :=
  (calcXm stContext input inlen).map fun authBuf => if authenticator.take 8 ≠ authBuf.take 8 then 0 else -1

end Md5

end SabApp
