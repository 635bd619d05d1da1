import SabApp.Bits

/-!
# Reading bits and codes (lan_get_bits.h, lan_golomb.h)

A read takes the word that holds the next bits, shifted so that they stand at its top: of 32 bits
some 25 to 32 are bits of the stream, the rest are zeros. `Reads l p a` says that where the bits `l`
stand next, `p` takes them and gives `a`; reads follow one another (`Reads.bind`). The code that
`lan_get_ue_golomb` takes for a number is the number's, unless bits of it lie past the word
(`getUeGolomb_iff`).
-/

namespace SabApp

namespace Sps

open Bits

/-- `lan_GetBitContext`; `size_in_bits_plus8` is `size_in_bits + 8`. -/
structure GetBits where
  buffer : Mem
  index : ℕ
  sizeInBits : ℤ

/-- The reader, and the dimensions in macroblocks as `lan_SPS` has them. -/
structure St where
  gb : GetBits
  mbWidth : ℤ
  mbHeight : ℤ

/-- A program over the reader; `none` where it goes to `fail`. -/
def Dec (α : Type) := St → Option α × St

namespace Dec

variable {α β : Type}

def pure (a : α) : Dec α := fun st => (some a, st)

def bind (p : Dec α) (f : α → Dec β) : Dec β := fun st =>
  match p st with
  | (some a, st) => f a st
  | (none, st) => (none, st)

instance : Monad Dec where
  pure := pure
  bind := bind

end Dec

def fail {α : Type} : Dec α := fun st => (none, st)

def St.skip (st : St) (n : ℕ) : St := { st with gb.index := st.gb.index + n }

@[simp] theorem St.skip_buffer (st : St) (n : ℕ) : (st.skip n).gb.buffer = st.gb.buffer := rfl

@[simp] theorem St.skip_index (st : St) (n : ℕ) : (st.skip n).gb.index = st.gb.index + n := rfl

@[simp] theorem St.skip_sizeInBits (st : St) (n : ℕ) : (st.skip n).gb.sizeInBits = st.gb.sizeInBits := rfl

theorem St.skip_skip (st : St) (a b : ℕ) : (st.skip a).skip b = st.skip (a + b) := by
  simp only [St.skip, Nat.add_assoc]

/-! ## Bits -/

def rb32 (m : Mem) (q : ℕ) : ℕ :=
  16777216 * (m q).toNat + 65536 * (m (q + 1)).toNat + 256 * (m (q + 2)).toNat + (m (q + 3)).toNat

/-- `lan_UPDATE_CACHE` -/
def GetBits.cache (gb : GetBits) : ℕ := rb32 gb.buffer (gb.index / 8) * 2 ^ (gb.index % 8) % 2 ^ 32

def getBits (n : ℕ) : Dec ℕ := fun st => (some (st.gb.cache / 2 ^ (32 - n)), st.skip n)

def showBits (n : ℕ) : Dec ℕ := fun st => (some (st.gb.cache / 2 ^ (32 - n)), st)

def skipBits (n : ℕ) : Dec Unit := fun st => (some (), st.skip n)

/-- The index stays where the stream has ended a byte ago. -/
def getBits1 : Dec Bool := fun st =>
  (some (bit st.gb.buffer st.gb.index), if (st.gb.index : ℤ) < st.gb.sizeInBits + 8 then st.skip 1 else st)

def getBitsLeft : Dec ℤ := fun st => (some (st.gb.sizeInBits - st.gb.index), st)

def getBitsLong (n : ℕ) : Dec ℕ :=
  if n = 0 then pure 0
  else if n ≤ 25 then getBits n
  else do
    let ret ← getBits 16
    let low ← getBits (n - 16)
    pure (ret * 2 ^ (n - 16) ||| low)

/-- Above 25 bits the reader is copied, and the copy read. -/
def showBitsLong (n : ℕ) : Dec ℕ := if n ≤ 25 then showBits n else fun st => ((getBitsLong n st).1, st)

def skipBitsLong (n : ℕ) : Dec Unit := fun st =>
  let left : ℤ := st.gb.sizeInBits + 8 - st.gb.index
  (some (), { st with gb.index := (st.gb.index + max (-(st.gb.index : ℤ)) (min (n : ℤ) left)).toNat })

/-! ## Codes -/

def ffLog2Tab : List ℕ :=
  [0, 0, 1, 1, 2, 2, 2, 2] ++ List.replicate 8 3 ++ List.replicate 16 4 ++ List.replicate 32 5 ++
    List.replicate 64 6 ++ List.replicate 128 7

def avLog2 (v : ℕ) : ℕ :=
  let a := if v / 65536 ≠ 0 then (v / 65536, 16) else (v, 0)
  let b := if a.1 / 256 ≠ 0 then (a.1 / 256, a.2 + 8) else a
  b.2 + ffLog2Tab.getD b.1 0

def golombVlcLen : List ℕ :=
  [19, 17, 15, 15, 13, 13, 13, 13] ++ List.replicate 8 11 ++ List.replicate 16 9 ++ List.replicate 32 7 ++
    List.replicate 64 5 ++ List.replicate 128 3 ++ List.replicate 256 1

def ueGolombVlcCode : List ℕ :=
  List.replicate 8 32 ++
    [31, 32, 32, 32, 32, 32, 32, 32, 15, 16, 17, 18, 19, 20, 21, 22, 23, 24, 25, 26, 27, 28, 29, 30, 7, 7, 7, 7, 8, 8, 8,
      8, 9, 9, 9, 9, 10, 10, 10, 10, 11, 11, 11, 11, 12, 12, 12, 12, 13, 13, 13, 13, 14, 14, 14, 14] ++
    List.replicate 16 3 ++ List.replicate 16 4 ++ List.replicate 16 5 ++ List.replicate 16 6 ++
    List.replicate 64 1 ++ List.replicate 64 2 ++ List.replicate 256 0

def seGolombVlcCode : List ℤ :=
  List.replicate 8 17 ++
    [16, 17, 17, 17, 17, 17, 17, 17, 8, -8, 9, -9, 10, -10, 11, -11, 12, -12, 13, -13, 14, -14, 15, -15, 4, 4, 4, 4, -4,
      -4, -4, -4, 5, 5, 5, 5, -5, -5, -5, -5, 6, 6, 6, 6, -6, -6, -6, -6, 7, 7, 7, 7, -7, -7, -7, -7] ++
    List.replicate 16 2 ++ List.replicate 16 (-2) ++ List.replicate 16 3 ++ List.replicate 16 (-3) ++
    List.replicate 64 1 ++ List.replicate 64 (-1) ++ List.replicate 256 0

/-- `lan_AVERROR_INVALIDDATA` -/
def invalidData : ℤ := -1094995529

def getUeGolomb : Dec ℤ := fun st =>
  let buf := st.gb.cache
  if 2 ^ 27 ≤ buf then
    let w := buf / 2 ^ 23
    (some (ueGolombVlcCode.getD w 0), st.skip (golombVlcLen.getD w 0))
  else
    let log : ℤ := 2 * avLog2 buf - 31
    let st := st.skip (32 - log).toNat
    if log < 0 then (some invalidData, st) else (some (buf / 2 ^ log.toNat - 1 : ℕ), st)

/-- For numbers up to 31. -/
def getUeGolomb31 : Dec ℕ := fun st =>
  let w := st.gb.cache / 2 ^ 23
  (some (ueGolombVlcCode.getD w 0), st.skip (golombVlcLen.getD w 0))

/-- An odd number stands for a number that is not positive. -/
def seValue (buf : ℕ) : ℤ := if buf % 2 = 1 then -(buf / 2 : ℕ) else (buf / 2 : ℕ)

def getSeGolomb : Dec ℤ := fun st =>
  let buf := st.gb.cache
  if 2 ^ 27 ≤ buf then
    let w := buf / 2 ^ 23
    (some (seGolombVlcCode.getD w 0), st.skip (golombVlcLen.getD w 0))
  else
    let log := avLog2 buf
    let st := st.skip (31 - log)
    (some (seValue (st.gb.cache / 2 ^ log)), st.skip (32 - log))

def getUeGolombLong : Dec ℕ := do
  let buf ← showBitsLong 32
  let log := 31 - avLog2 buf
  skipBitsLong log
  let v ← getBitsLong (log + 1)
  pure (v - 1)

/-! ## Taking what stands next -/

/-- Where the bits `l` stand next, and are the stream's, `p` takes them and gives `a`. -/
def Reads {α : Type} (l : List Bool) (p : Dec α) (a : α) : Prop :=
  ∀ st : St, Holds st.gb.buffer st.gb.index l → (st.gb.index : ℤ) + l.length ≤ st.gb.sizeInBits →
    p st = (some a, st.skip l.length)

section
variable {α β : Type} {l l' : List Bool} {a : α} {b : β}

theorem Reads.pure (a : α) : Reads [] (Pure.pure a : Dec α) a := fun _ _ _ => rfl

theorem Reads.bind {p : Dec α} {f : α → Dec β} (hp : Reads l p a) (hf : Reads l' (f a) b) :
    Reads (l ++ l') (p >>= f) b := by
  intro st hst hs
  obtain ⟨hl, hl'⟩ := holds_append.mp hst
  rw [List.length_append, Int.natCast_add] at hs
  have hstep := hp st hl (by omega)
  have hrest := hf (st.skip l.length) hl' (by rw [St.skip_index, St.skip_sizeInBits]; omega)
  show Dec.bind p f st = _
  rw [Dec.bind, hstep]
  dsimp only
  rw [hrest, St.skip_skip, List.length_append]

/-- The last read of a program that goes on to give something. -/
theorem Reads.map {p : Dec α} {f : α → Dec β} (hp : Reads l p a) (hf : Reads [] (f a) b) : Reads l (p >>= f) b := by
  have h := hp.bind hf
  rwa [List.append_nil] at h

end

/-! ## The word -/

section
variable (gb : GetBits)

theorem cache_eq : gb.cache = val gb.buffer gb.index (32 - gb.index % 8) * 2 ^ (gb.index % 8) := by
  have hr := Nat.mod_lt gb.index (by decide : 8 > 0)
  have hi : 8 * (gb.index / 8) + gb.index % 8 = gb.index := Nat.div_add_mod _ _
  have hs : gb.index % 8 + (32 - gb.index % 8) = 32 := by omega
  have hw := val_word gb.buffer (gb.index / 8)
  rw [← hs, val_add, hi] at hw
  have hlt : val gb.buffer gb.index (32 - gb.index % 8) * 2 ^ (gb.index % 8) < 2 ^ 32 := by
    calc _ < 2 ^ (32 - gb.index % 8) * 2 ^ (gb.index % 8) :=
          Nat.mul_lt_mul_of_pos_right (val_lt _ _ _) (Nat.two_pow_pos _)
      _ = 2 ^ 32 := by rw [← Nat.pow_add, Nat.sub_add_cancel (by omega)]
  have hrb : rb32 gb.buffer (gb.index / 8) * 2 ^ (gb.index % 8) =
      val gb.buffer gb.index (32 - gb.index % 8) * 2 ^ (gb.index % 8) +
        2 ^ 32 * val gb.buffer (8 * (gb.index / 8)) (gb.index % 8) := by
    rw [rb32, ← hw, Nat.add_mul, Nat.mul_assoc, ← Nat.pow_add, Nat.sub_add_cancel (by omega), Nat.add_comm,
      Nat.mul_comm (2 ^ 32)]
  rw [GetBits.cache, hrb, Nat.add_mul_mod_self_left, Nat.mod_eq_of_lt hlt]

theorem cache_lt : gb.cache < 2 ^ 32 := Nat.mod_lt _ (Nat.two_pow_pos 32)

/-- How many of `n` bits lie past the word. -/
def lost (index n : ℕ) : ℕ := n - (32 - index % 8)

/-- The top of the word: the next bits, those past it read as zeros. -/
theorem cache_div {n : ℕ} (hn : n ≤ 32) : gb.cache / 2 ^ (32 - n) =
    val gb.buffer gb.index n / 2 ^ lost gb.index n * 2 ^ lost gb.index n := by
  have hr := Nat.mod_lt gb.index (by decide : 8 > 0)
  rw [cache_eq, lost]
  by_cases h : n ≤ 32 - gb.index % 8
  · obtain ⟨k, hk⟩ := Nat.exists_eq_add_of_le h
    have hlost : n - (32 - gb.index % 8) = 0 := by omega
    have hsh : 32 - n = gb.index % 8 + k := by omega
    rw [hlost, hsh, hk, val_add, Nat.pow_add, Nat.mul_comm, Nat.mul_div_mul_left _ _ (Nat.two_pow_pos _),
      Nat.mul_comm (val _ _ _), Nat.mul_add_div (Nat.two_pow_pos k), Nat.div_eq_of_lt (val_lt _ _ _)]
    simp
  · obtain ⟨k, hk⟩ := Nat.exists_eq_add_of_le (Nat.le_of_not_le h)
    have hlost : n - (32 - gb.index % 8) = k := by omega
    have hsh : gb.index % 8 = (32 - n) + k := by omega
    have hv : val gb.buffer gb.index n / 2 ^ k = val gb.buffer gb.index (32 - gb.index % 8) := by
      rw [hk, val_add, Nat.mul_comm, Nat.mul_add_div (Nat.two_pow_pos k), Nat.div_eq_of_lt (val_lt _ _ _), Nat.add_zero]
    have hp : 2 ^ (gb.index % 8) = 2 ^ (32 - n) * 2 ^ k := by rw [← Nat.pow_add, ← hsh]
    rw [hlost, hv, hp, Nat.mul_left_comm, Nat.mul_div_cancel_left _ (Nat.two_pow_pos _)]

theorem cache_bits {n : ℕ} (hn : n ≤ 32 - gb.index % 8) : gb.cache / 2 ^ (32 - n) = val gb.buffer gb.index n := by
  have hlost : lost gb.index n = 0 := Nat.sub_eq_zero_of_le hn
  rw [cache_div gb (by omega), hlost, Nat.pow_zero, Nat.div_one, Nat.mul_one]

end

theorem log2_of_div {w : ℕ} (a : ℕ) (h : w / 2 ^ a ≠ 0) : w.log2 = (w / 2 ^ a).log2 + a := by
  have hw : w ≠ 0 := by
    rintro rfl
    exact h (Nat.zero_div _)
  obtain ⟨h₁, h₂⟩ := (Nat.log2_eq_iff h).mp rfl
  rw [Nat.log2_eq_iff hw]
  constructor
  · rw [Nat.pow_add]
    exact (Nat.le_div_iff_mul_le (Nat.two_pow_pos a)).mp h₁
  · rw [Nat.add_right_comm, Nat.pow_add]
    exact (Nat.div_lt_iff_lt_mul (Nat.two_pow_pos a)).mp h₂

theorem log2_table : ffLog2Tab = (List.range 256).map Nat.log2 := by decide +kernel

theorem golombVlcLen_table :
    golombVlcLen.drop 16 = (List.range' 16 496).map fun w => 2 * (8 - Nat.log2 w) + 1 := by decide +kernel

theorem ueGolombVlcCode_table :
    ueGolombVlcCode.drop 16 = (List.range' 16 496).map fun w => w / 2 ^ (8 - 2 * (8 - Nat.log2 w)) - 1 := by
  decide +kernel

theorem seGolombVlcCode_table :
    seGolombVlcCode.drop 16 = (List.range' 16 496).map fun w => seValue (w / 2 ^ (8 - 2 * (8 - Nat.log2 w))) := by
  decide +kernel

/-- An entry of a table that is given by its number from 16 on. -/
theorem getD_of_drop {α : Type} {t : List α} {f : ℕ → α} (h : t.drop 16 = (List.range' 16 496).map f) {w : ℕ}
    (h₁ : 16 ≤ w) (h₂ : w < 512) (d : α) : t.getD w d = f w := by
  obtain ⟨k, rfl⟩ := Nat.exists_eq_add_of_le h₁
  have hk := congrArg (fun l => l[k]?) h
  rw [List.getElem?_drop] at hk
  rw [List.getD_eq_getElem?_getD, hk, List.getElem?_map, List.getElem?_range' (by omega), Option.map_some,
    Option.getD_some, Nat.one_mul]

theorem avLog2_eq {v : ℕ} (h : v < 2 ^ 32) : avLog2 v = Nat.log2 v := by
  have ht : ∀ w < 256, ffLog2Tab.getD w 0 = Nat.log2 w := by
    intro w hw
    rw [log2_table, List.getD_eq_getElem?_getD, List.getElem?_map, List.getElem?_range hw, Option.map_some,
      Option.getD_some]
  unfold avLog2
  by_cases h₁ : v / 65536 ≠ 0
  · have hv : v.log2 = (v / 65536).log2 + 16 := log2_of_div 16 h₁
    by_cases h₂ : v / 65536 / 256 ≠ 0
    · have hw : (v / 65536).log2 = (v / 65536 / 256).log2 + 8 := log2_of_div 8 h₂
      simp only [if_pos h₁, if_pos h₂]
      rw [ht _ (by omega)]
      omega
    · simp only [if_pos h₁, if_neg h₂]
      rw [ht _ (by omega)]
      omega
  · by_cases h₂ : v / 256 ≠ 0
    · have hw : v.log2 = (v / 256).log2 + 8 := log2_of_div 8 h₂
      simp only [if_neg h₁, if_pos h₂]
      rw [ht _ (by omega)]
      omega
    · simp only [if_neg h₁, if_neg h₂]
      rw [ht _ (by omega)]
      omega

/-! ## Codes and the word -/

section
variable {st : St} {v : ℕ}

theorem val_lead {m : Mem} {p : ℕ} (h : Holds m p (ue v)) : val m p (zeros v + 1) = 1 := by
  have hv := holds_ue.mp h
  have hs : 2 * zeros v + 1 = zeros v + 1 + zeros v := by omega
  have h₁ := zeros_le v
  have h₂ := lt_zeros v
  have h₃ := val_lt m (p + (zeros v + 1)) (zeros v)
  rw [hs, val_add] at hv
  rw [Nat.pow_succ] at h₂
  have hp := Nat.two_pow_pos (zeros v)
  apply Nat.le_antisymm
  · apply Nat.le_of_not_lt
    intro hge
    have hm := Nat.mul_le_mul_right (2 ^ zeros v) hge
    omega
  · apply Nat.pos_of_ne_zero
    intro h0
    rw [h0] at hv
    omega

/-- What the word shows of a code, with zeros for the bits past it. -/
def shown (index v : ℕ) : ℕ := (v + 1) / 2 ^ lost index (2 * zeros v + 1) * 2 ^ lost index (2 * zeros v + 1)

theorem cache_code (h : Holds st.gb.buffer st.gb.index (ue v)) (hk : zeros v ≤ 15) :
    st.gb.cache / 2 ^ (31 - 2 * zeros v) = shown st.gb.index v := by
  have hs : 31 - 2 * zeros v = 32 - (2 * zeros v + 1) := by omega
  rw [hs, cache_div st.gb (by omega), holds_ue.mp h, shown]

theorem shown_le (index v : ℕ) : shown index v ≤ v + 1 := Nat.div_mul_le_self _ _

theorem lost_le (index : ℕ) (hk : zeros v ≤ 15) : lost index (2 * zeros v + 1) ≤ zeros v := by
  have hr := Nat.mod_lt index (by decide : 8 > 0)
  unfold lost
  omega

theorem le_shown (index : ℕ) (hk : zeros v ≤ 15) : 2 ^ zeros v ≤ shown index v := by
  obtain ⟨j, hj⟩ := Nat.exists_eq_add_of_le (lost_le index hk)
  have hz := zeros_le v
  rw [shown]
  have hp : 2 ^ zeros v = 2 ^ j * 2 ^ lost index (2 * zeros v + 1) := by rw [← Nat.pow_add, Nat.add_comm j, ← hj]
  rw [hp] at hz ⊢
  exact Nat.mul_le_mul_right _ ((Nat.le_div_iff_mul_le (Nat.two_pow_pos _)).mpr hz)

/-- With its first one in the word, the word's logarithm tells the zeros of a code. -/
theorem log2_cache (h : Holds st.gb.buffer st.gb.index (ue v)) (hk : zeros v ≤ 24) :
    st.gb.cache.log2 = 31 - zeros v := by
  have hr := Nat.mod_lt st.gb.index (by decide : 8 > 0)
  have hs : 32 - (zeros v + 1) = 31 - zeros v := by omega
  have htop := cache_bits st.gb (n := zeros v + 1) (by omega)
  rw [val_lead h, hs] at htop
  have hl := log2_of_div (w := st.gb.cache) (31 - zeros v) (by omega)
  have hone : Nat.log2 1 = 0 := rfl
  rw [htop, hone] at hl
  omega

/-- A code of nine bits at most is an entry of the tables. -/
theorem nine (h : Holds st.gb.buffer st.gb.index (ue v)) (hk : zeros v ≤ 4) :
    16 ≤ st.gb.cache / 2 ^ 23 ∧ st.gb.cache / 2 ^ 23 < 512 ∧ 8 - (st.gb.cache / 2 ^ 23).log2 = zeros v ∧
      st.gb.cache / 2 ^ 23 / 2 ^ (8 - 2 * zeros v) = v + 1 := by
  have hr := Nat.mod_lt st.gb.index (by decide : 8 > 0)
  have hc := cache_lt st.gb
  have hlog := log2_cache h (Nat.le_trans hk (by decide))
  have hlost : lost st.gb.index (2 * zeros v + 1) = 0 := by unfold lost; omega
  have hcode := cache_code h (by omega)
  rw [shown, hlost, Nat.pow_zero, Nat.div_one, Nat.mul_one] at hcode
  have hdiv : st.gb.cache / 2 ^ 23 / 2 ^ (8 - 2 * zeros v) = v + 1 := by
    rw [Nat.div_div_eq_div_mul, ← Nat.pow_add, ← hcode]
    congr 2
    omega
  have hne : st.gb.cache / 2 ^ 23 ≠ 0 := by
    intro h0
    rw [h0, Nat.zero_div] at hdiv
    omega
  have hl := log2_of_div 23 hne
  have hw : (st.gb.cache / 2 ^ 23).log2 = 8 - zeros v := by omega
  have hle := Nat.log2_self_le hne
  refine ⟨?_, by omega, by omega, hdiv⟩
  calc 16 = 2 ^ 4 := rfl
    _ ≤ 2 ^ (8 - zeros v) := Nat.pow_le_pow_right Nat.two_pos (by omega)
    _ ≤ st.gb.cache / 2 ^ 23 := hw ▸ hle

theorem pow_le_cache (h : Holds st.gb.buffer st.gb.index (ue v)) (hk : zeros v ≤ 24) :
    2 ^ 27 ≤ st.gb.cache ↔ zeros v ≤ 4 := by
  have hlog := log2_cache h hk
  have hne : st.gb.cache ≠ 0 := by
    intro h0
    rw [h0, Nat.log2_zero] at hlog
    omega
  rw [← Nat.le_log2 hne, hlog]
  omega

/-- **What the reader makes of a code**: with up to fifteen zeros the code's length is taken, and the
number is what the word shows. -/
theorem getUeGolomb_eq (h : Holds st.gb.buffer st.gb.index (ue v)) (hk : zeros v ≤ 15) :
    getUeGolomb st = (some ((shown st.gb.index v - 1 : ℕ) : ℤ), st.skip (2 * zeros v + 1)) := by
  have hcode := cache_code h hk
  have hlog := avLog2_eq (cache_lt st.gb)
  rw [log2_cache h (by omega)] at hlog
  unfold getUeGolomb
  dsimp only
  by_cases h4 : zeros v ≤ 4
  · obtain ⟨h16, h512, hz, hdiv⟩ := nine h h4
    have hlost : lost st.gb.index (2 * zeros v + 1) = 0 := by
      have hr := Nat.mod_lt st.gb.index (by decide : 8 > 0)
      unfold lost; omega
    rw [if_pos ((pow_le_cache h (by omega)).mpr h4), getD_of_drop golombVlcLen_table h16 h512,
      getD_of_drop ueGolombVlcCode_table h16 h512, hz, hdiv, shown, hlost, Nat.pow_zero, Nat.div_one, Nat.mul_one]
  · have hneg : ¬2 * ((31 - zeros v : ℕ) : ℤ) - 31 < 0 := by omega
    have hsk : (32 - (2 * ((31 - zeros v : ℕ) : ℤ) - 31)).toNat = 2 * zeros v + 1 := by omega
    have hsh : (2 * ((31 - zeros v : ℕ) : ℤ) - 31).toNat = 31 - 2 * zeros v := by omega
    rw [if_neg (mt (pow_le_cache h (by omega)).mp h4), hlog, if_neg hneg, hsk, hsh, hcode]

theorem getUeGolomb_invalid (h : Holds st.gb.buffer st.gb.index (ue v)) (hk : 16 ≤ zeros v) :
    (getUeGolomb st).1 = some invalidData := by
  have hr := Nat.mod_lt st.gb.index (by decide : 8 > 0)
  have htop := cache_bits st.gb (n := 16) (by omega)
  have hz := val_zeros h
  obtain ⟨j, hj⟩ := Nat.exists_eq_add_of_le hk
  rw [hj, val_add] at hz
  have h16 : val st.gb.buffer st.gb.index 16 = 0 := by
    have hm := Nat.eq_zero_of_add_eq_zero_right hz
    exact (Nat.mul_eq_zero.mp hm).resolve_right (Nat.ne_of_gt (Nat.two_pow_pos j))
  have hlt : st.gb.cache < 2 ^ 16 := Nat.lt_of_div_eq_zero (Nat.two_pow_pos 16) (htop.trans h16)
  have hlog : st.gb.cache.log2 < 16 := by
    by_cases h0 : st.gb.cache = 0
    · rw [h0]; decide
    · exact (Nat.log2_lt h0).mpr hlt
  have hneg : 2 * ((st.gb.cache.log2 : ℕ) : ℤ) - 31 < 0 := by omega
  unfold getUeGolomb
  dsimp only
  rw [if_neg (by omega), avLog2_eq (cache_lt st.gb), if_pos hneg]

/-- **When a code is read as its number**: up to fifteen zeros, and ones of it only within the word. -/
theorem getUeGolomb_iff (h : Holds st.gb.buffer st.gb.index (ue v)) :
    (getUeGolomb st).1 = some (v : ℤ) ↔ zeros v ≤ 15 ∧ 2 ^ lost st.gb.index (2 * zeros v + 1) ∣ v + 1 := by
  by_cases hk : zeros v ≤ 15
  · have hpos := Nat.lt_of_lt_of_le (Nat.two_pow_pos (zeros v)) (le_shown st.gb.index hk)
    have hle := shown_le st.gb.index v
    rw [getUeGolomb_eq h hk]
    simp only [Option.some.injEq, Int.natCast_inj]
    constructor
    · intro he
      have hs : shown st.gb.index v = v + 1 := by omega
      refine ⟨hk, ?_⟩
      rw [← hs, shown]
      exact Nat.dvd_mul_left _ _
    · rintro ⟨_, hd⟩
      have hs : shown st.gb.index v = v + 1 := Nat.div_mul_cancel hd
      omega
  · rw [getUeGolomb_invalid h (by omega)]
    simp only [Option.some.injEq, invalidData]
    constructor
    · intro he; omega
    · rintro ⟨h15, _⟩; exact absurd h15 hk

theorem getUeGolomb_zero : (getUeGolomb ⟨⟨fun _ => 255, 5, 32⟩, 0, 0⟩).1 = some ((0 : ℕ) : ℤ) ↔
    zeros 0 ≤ 15 ∧ 2 ^ lost 5 (2 * zeros 0 + 1) ∣ 0 + 1 :=
  getUeGolomb_iff (show Holds (fun _ => 255) 5 (ue 0) from ⟨by decide, trivial⟩)

theorem lost_eq_zero {index : ℕ} (hk : zeros v ≤ 12) : lost index (2 * zeros v + 1) = 0 := by
  have hr := Nat.mod_lt index (by decide : 8 > 0)
  unfold lost
  omega

theorem shown_eq {index : ℕ} (hk : zeros v ≤ 12) : shown index v = v + 1 := by
  rw [shown, lost_eq_zero hk, Nat.pow_zero, Nat.div_one, Nat.mul_one]

/-- A code of 25 bits at most is within the word wherever it stands. -/
theorem reads_ue (hk : zeros v ≤ 12) : Reads (ue v) getUeGolomb (v : ℤ) := by
  intro st h _
  rw [getUeGolomb_eq h (by omega), shown_eq hk, Nat.add_sub_cancel, ue_length]

theorem reads_ue31 (hv : v ≤ 31) : Reads (ue v) getUeGolomb31 v := by
  intro st h _
  unfold getUeGolomb31
  dsimp only
  by_cases h4 : zeros v ≤ 4
  · obtain ⟨h16, h512, hz, hdiv⟩ := nine h h4
    rw [getD_of_drop golombVlcLen_table h16 h512, getD_of_drop ueGolombVlcCode_table h16 h512, hz, hdiv,
      Nat.add_sub_cancel, ue_length]
  · have hle := zeros_le v
    have h5 : 2 ^ 5 ≤ 2 ^ zeros v := Nat.pow_le_pow_right Nat.two_pos (by omega)
    have hv31 : v = 31 := by omega
    subst hv31
    -- eleven bits, of which the table sees nine
    have hr := Nat.mod_lt st.gb.index (by decide : 8 > 0)
    have hval : val st.gb.buffer st.gb.index 11 = 32 := holds_ue.mp h
    have hsplit : val st.gb.buffer st.gb.index 11 = _ := val_add st.gb.buffer st.gb.index 9 2
    have hlow := val_lt st.gb.buffer (st.gb.index + 9) 2
    have hw : st.gb.cache / 2 ^ 23 = 8 := by
      have h9 := cache_bits st.gb (n := 9) (by omega)
      omega
    rw [hw]
    rfl

theorem seValue_signed (d : ℤ) : seValue (signed d + 1) = d := by
  unfold seValue signed
  split <;> split <;> omega

theorem reads_se {d : ℤ} (hk : zeros (signed d) ≤ 24) : Reads (se d) getSeGolomb d := by
  intro st h _
  have hr := Nat.mod_lt st.gb.index (by decide : 8 > 0)
  have hr' := Nat.mod_lt (st.gb.index + zeros (signed d)) (by decide : 8 > 0)
  unfold getSeGolomb
  dsimp only
  by_cases h4 : zeros (signed d) ≤ 4
  · obtain ⟨h16, h512, hz, hdiv⟩ := nine h h4
    rw [if_pos ((pow_le_cache h hk).mpr h4), getD_of_drop golombVlcLen_table h16 h512,
      getD_of_drop seGolombVlcCode_table h16 h512, hz, hdiv, seValue_signed, se, ue_length]
  · have hsk : 31 - (31 - zeros (signed d)) = zeros (signed d) := by omega
    have hsk' : 32 - (31 - zeros (signed d)) = zeros (signed d) + 1 := by omega
    have hs : 31 - zeros (signed d) = 32 - (zeros (signed d) + 1) := by omega
    have hones := cache_bits (st.skip (zeros (signed d))).gb (n := zeros (signed d) + 1) (by rw [St.skip_index]; omega)
    rw [St.skip_index, St.skip_buffer, val_ones h] at hones
    rw [if_neg (mt (pow_le_cache h hk).mp h4), avLog2_eq (cache_lt st.gb), log2_cache h hk, hsk, hsk', hs, hones,
      seValue_signed, St.skip_skip, se, ue_length]
    congr 2
    omega

theorem reads_bit (c : Bool) : Reads [c] getBits1 c := by
  intro st h hs
  rw [List.length_singleton] at hs ⊢
  rw [getBits1, h.1, if_pos (by omega)]

theorem bind_eq {α β : Type} {p : Dec α} {f : α → Dec β} {st st' : St} {a : α} (h : p st = (some a, st')) :
    (p >>= f) st = f a st' := by
  show Dec.bind p f st = _
  rw [Dec.bind, h]

theorem getBits_eq {n : ℕ} (hn : n ≤ 25) (st : St) :
    getBits n st = (some (val st.gb.buffer st.gb.index n), st.skip n) := by
  have hr := Nat.mod_lt st.gb.index (by decide : 8 > 0)
  rw [getBits, cache_bits st.gb (by omega)]

theorem getBitsLong_eq {n : ℕ} (hn : n ≤ 32) (st : St) :
    getBitsLong n st = (some (val st.gb.buffer st.gb.index n), st.skip n) := by
  unfold getBitsLong
  by_cases h0 : n = 0
  · subst h0
    rfl
  · by_cases h25 : n ≤ 25
    · rw [if_neg h0, if_pos h25, getBits_eq h25]
    · have hs : n = 16 + (n - 16) := by omega
      have hlow := val_lt st.gb.buffer (st.gb.index + 16) (n - 16)
      rw [if_neg h0, if_neg h25]
      rw [bind_eq (getBits_eq (by decide) st), bind_eq (getBits_eq (by omega) (st.skip 16))]
      show (some (_ ||| _), _) = _
      rw [St.skip_skip, ← hs, St.skip_buffer, St.skip_index, Nat.mul_comm, ← Nat.two_pow_add_eq_or_of_lt hlow,
        Nat.mul_comm, ← val_add, ← hs]

theorem reads_bits {n x : ℕ} (hn : n ≤ 25) (hx : x < 2 ^ n) : Reads (bitsOf n x) (getBits n) x := by
  intro st h _
  rw [getBits_eq hn, (holds_bitsOf hx).mp h, bitsOf_length]

theorem reads_bitsLong {n x : ℕ} (hn : n ≤ 32) (hx : x < 2 ^ n) : Reads (bitsOf n x) (getBitsLong n) x := by
  intro st h _
  rw [getBitsLong_eq hn, (holds_bitsOf hx).mp h, bitsOf_length]

theorem reads_ueLong (hk : zeros v ≤ 31) : Reads (ue v) getUeGolombLong v := by
  intro st h hs
  rw [ue_length] at hs
  have hword := val_add st.gb.buffer st.gb.index (zeros v + 1) (31 - zeros v)
  have h32 : zeros v + 1 + (31 - zeros v) = 32 := by omega
  have hlow := val_lt st.gb.buffer (st.gb.index + (zeros v + 1)) (31 - zeros v)
  rw [h32, val_lead h, Nat.one_mul] at hword
  have hlog : avLog2 (val st.gb.buffer st.gb.index 32) = 31 - zeros v := by
    rw [avLog2_eq (val_lt _ _ _)]
    have hp := Nat.two_pow_pos (31 - zeros v)
    exact (Nat.log2_eq_iff (by omega)).mpr ⟨by omega, by rw [Nat.pow_succ]; omega⟩
  have hsk : 31 - (31 - zeros v) = zeros v := by omega
  have hshow : showBitsLong 32 st = (some (val st.gb.buffer st.gb.index 32), st) := by
    have hcopy : showBitsLong 32 = (fun st => ((getBitsLong 32 st).1, st) : Dec ℕ) := if_neg (by decide)
    rw [hcopy]
    show ((getBitsLong 32 st).1, st) = _
    rw [getBitsLong_eq (by decide)]
  have hskip : skipBitsLong (zeros v) st = (some (), st.skip (zeros v)) := by
    unfold skipBitsLong
    dsimp only
    have hn : ((st.gb.index : ℤ) + max (-(st.gb.index : ℤ)) (min ((zeros v : ℕ) : ℤ)
        (st.gb.sizeInBits + 8 - st.gb.index))).toNat = st.gb.index + zeros v := by omega
    rw [hn]
    rfl
  rw [getUeGolombLong, bind_eq hshow]
  rw [hlog, hsk, bind_eq hskip, bind_eq (getBitsLong_eq (by omega) _), St.skip_buffer, St.skip_index, val_ones h]
  show (some (v + 1 - 1), _) = _
  rw [Nat.add_sub_cancel, St.skip_skip, ue_length]
  congr 2
  omega

end

end Sps

end SabApp
