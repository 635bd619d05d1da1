import Mathlib.Algebra.Group.Int.Defs
import Mathlib.Algebra.GroupWithZero.Nat
import Mathlib.Data.List.Basic
import Mathlib.Tactic.Common

/-!
# Bytes: little-endian words and flat memory

A memory is a function from addresses to bytes. Blocks are written and read
as lists; a block read back is the block written (`Mem.read_write`), and a
write leaves every block it does not overlap alone (`Mem.read_write_of_disjoint`).
-/

namespace SabApp

/-! ## Little-endian words -/

def byteAt (bs : List UInt8) (i : Nat) : Nat := (bs.getD i 0).toNat

def le16 (n : Nat) : List UInt8 := [UInt8.ofNat n, UInt8.ofNat (n / 256)]

def le32 (n : Nat) : List UInt8 :=
  [UInt8.ofNat n, UInt8.ofNat (n / 256), UInt8.ofNat (n / 65536), UInt8.ofNat (n / 16777216)]

def word16 (bs : List UInt8) (i : Nat) : Nat := byteAt bs i + 256 * byteAt bs (i + 1)

def word32 (bs : List UInt8) (i : Nat) : Nat :=
  byteAt bs i + 256 * byteAt bs (i + 1) + 65536 * byteAt bs (i + 2) + 16777216 * byteAt bs (i + 3)

@[simp] theorem le16_length (n : Nat) : (le16 n).length = 2 := rfl

@[simp] theorem le32_length (n : Nat) : (le32 n).length = 4 := rfl

theorem byteAt_lt (bs : List UInt8) (i : Nat) : byteAt bs i < 256 := UInt8.toNat_lt _

theorem word16_lt (bs : List UInt8) (i : Nat) : word16 bs i < 65536 := by
  have h₀ := byteAt_lt bs i
  have h₁ := byteAt_lt bs (i + 1)
  unfold word16
  omega

theorem word32_lt (bs : List UInt8) (i : Nat) : word32 bs i < 4294967296 := by
  have h₀ := byteAt_lt bs i
  have h₁ := byteAt_lt bs (i + 1)
  have h₂ := byteAt_lt bs (i + 2)
  have h₃ := byteAt_lt bs (i + 3)
  unfold word32
  omega

/-- A word, read as an `int`. -/
theorem toInt_toInt32 (x : UInt32) :
    x.toInt32.toInt = if x.toNat < 2147483648 then (x.toNat : Int) else x.toNat - 4294967296 := by
  have hint : x.toInt32.toInt = x.toBitVec.toInt := rfl
  have hnat : x.toBitVec.toNat = x.toNat := rfl
  rw [hint, BitVec.toInt_eq_toNat_cond, hnat]
  split <;> split <;> omega

theorem byteAt_append_left {xs ys : List UInt8} {i : Nat} (h : i < xs.length) :
    byteAt (xs ++ ys) i = byteAt xs i := by
  simp only [byteAt, List.getD_eq_getElem?_getD, List.getElem?_append_left h]

theorem byteAt_append_right {xs ys : List UInt8} {i : Nat} (h : xs.length ≤ i) :
    byteAt (xs ++ ys) i = byteAt ys (i - xs.length) := by
  simp only [byteAt, List.getD_eq_getElem?_getD, List.getElem?_append_right h]

theorem word32_append_left {xs ys : List UInt8} {i : Nat} (h : i + 4 ≤ xs.length) :
    word32 (xs ++ ys) i = word32 xs i := by
  unfold word32
  rw [byteAt_append_left (by omega), byteAt_append_left (by omega), byteAt_append_left (by omega),
    byteAt_append_left (by omega)]

theorem word32_append_right {xs ys : List UInt8} {i : Nat} (h : xs.length ≤ i) :
    word32 (xs ++ ys) i = word32 ys (i - xs.length) := by
  unfold word32
  rw [byteAt_append_right h, byteAt_append_right (by omega), byteAt_append_right (by omega),
    byteAt_append_right (by omega), Nat.sub_add_comm h, Nat.sub_add_comm h, Nat.sub_add_comm h]

theorem word32_take {bs : List UInt8} {n : Nat} (hn : 4 ≤ n) (h : n ≤ bs.length) : word32 (bs.take n) 0 = word32 bs 0 := by
  have happ : word32 (bs.take n ++ bs.drop n) 0 = word32 (bs.take n) 0 :=
    word32_append_left (by rw [List.length_take_of_le h]; exact hn)
  rw [List.take_append_drop] at happ
  exact happ.symm

theorem word16_append_left {xs ys : List UInt8} {i : Nat} (h : i + 2 ≤ xs.length) :
    word16 (xs ++ ys) i = word16 xs i := by
  unfold word16
  rw [byteAt_append_left (by omega), byteAt_append_left (by omega)]

theorem word16_append_right {xs ys : List UInt8} {i : Nat} (h : xs.length ≤ i) :
    word16 (xs ++ ys) i = word16 ys (i - xs.length) := by
  unfold word16
  rw [byteAt_append_right h, byteAt_append_right (by omega), Nat.sub_add_comm h]

theorem word16_le16 {n : Nat} (h : n < 65536) : word16 (le16 n) 0 = n := by
  simp only [word16, byteAt, le16, List.getD_cons_zero, List.getD_cons_succ, Nat.zero_add, UInt8.toNat_ofNat']
  omega

theorem word32_le32 {n : Nat} (h : n < 4294967296) : word32 (le32 n) 0 = n := by
  simp only [word32, byteAt, le32, List.getD_cons_zero, List.getD_cons_succ, Nat.zero_add, UInt8.toNat_ofNat']
  omega

/-! ## Memory -/

abbrev Mem := Nat → UInt8

namespace Mem

/-- `bs` copied to address `a`. -/
def write (m : Mem) (a : Nat) (bs : List UInt8) : Mem :=
  fun i => if a ≤ i ∧ i < a + bs.length then bs.getD (i - a) 0 else m i

/-- The `n` bytes at address `a`. -/
def read (m : Mem) (a n : Nat) : List UInt8 := (List.range n).map fun i => m (a + i)

@[simp] theorem read_length (m : Mem) (a n : Nat) : (m.read a n).length = n := by simp [read]

@[simp] theorem read_zero (m : Mem) (a : Nat) : m.read a 0 = [] := rfl

theorem getElem?_read (m : Mem) (a : Nat) {n i : Nat} (h : i < n) : (m.read a n)[i]? = some (m (a + i)) := by
  rw [read, List.getElem?_map, List.getElem?_range h, Option.map_some]

theorem read_congr {m m' : Mem} {a n : Nat} (h : ∀ i, a ≤ i → i < a + n → m i = m' i) :
    m.read a n = m'.read a n := by
  refine List.map_congr_left fun i hi => ?_
  have := List.mem_range.mp hi
  exact h _ (by omega) (by omega)

theorem read_add (m : Mem) (a n k : Nat) : m.read a (n + k) = m.read a n ++ m.read (a + n) k := by
  unfold read
  rw [List.range_add, List.map_append, List.map_map]
  refine congrArg _ (List.map_congr_left fun i _ => ?_)
  simp only [Function.comp_apply, Nat.add_assoc]

theorem read_cons_iff {m : Mem} {a : ℕ} {x : UInt8} {xs : List UInt8} :
    m.read a (xs.length + 1) = x :: xs ↔ m a = x ∧ m.read (a + 1) xs.length = xs := by
  have hone : m.read a 1 = [m a] := rfl
  rw [Nat.add_comm, read_add, hone, List.singleton_append, List.cons.injEq]

theorem read_take (m : Mem) (a : Nat) {n k : Nat} (h : n ≤ k) : m.read a n = (m.read a k).take n := by
  obtain ⟨j, rfl⟩ := Nat.exists_eq_add_of_le h
  rw [read_add, List.take_left' (read_length ..)]

theorem read_write (m : Mem) (a : Nat) (bs : List UInt8) : (m.write a bs).read a bs.length = bs := by
  refine List.ext_getElem (by simp) fun i h₁ h₂ => ?_
  simp only [read, List.getElem_map, List.getElem_range, write]
  rw [if_pos ⟨by omega, by omega⟩, Nat.add_sub_cancel_left, List.getD_eq_getElem?_getD,
    List.getElem?_eq_getElem h₂, Option.getD_some]

theorem read_write_of_disjoint {m : Mem} {a b n : Nat} {bs : List UInt8}
    (h : a + bs.length ≤ b ∨ b + n ≤ a) : (m.write a bs).read b n = m.read b n := by
  refine read_congr fun i h₁ h₂ => if_neg ?_
  omega

/-- Reading all of what two adjacent writes left. -/
theorem read_write_append (m : Mem) (a : Nat) (xs ys : List UInt8) :
    ((m.write a xs).write (a + xs.length) ys).read a (xs ++ ys).length = xs ++ ys := by
  rw [List.length_append, read_add, read_write, read_write_of_disjoint (.inr (Nat.le_refl _)), read_write]

theorem write_write_append (m : Mem) (a : ℕ) (xs ys : List UInt8) :
    (m.write a xs).write (a + xs.length) ys = m.write a (xs ++ ys) := by
  funext i
  simp only [write, List.length_append, List.getD_eq_getElem?_getD]
  by_cases hy : a + xs.length ≤ i ∧ i < a + xs.length + ys.length
  · rw [if_pos hy, if_pos (by omega), List.getElem?_append_right (by omega)]
    congr 2
    omega
  · rw [if_neg hy]
    by_cases hx : a ≤ i ∧ i < a + xs.length
    · rw [if_pos hx, if_pos (by omega), List.getElem?_append_left (by omega)]
    · rw [if_neg hx, if_neg (by omega)]

theorem read_drop (m : Mem) {a n k : ℕ} (h : a + n ≤ k) : m.read a n = ((m.read 0 k).drop a).take n := by
  obtain ⟨j, rfl⟩ := Nat.exists_eq_add_of_le h
  rw [read_add, Nat.zero_add, read_add, List.append_assoc, List.drop_left' (read_length ..), Nat.zero_add,
    List.take_left' (read_length ..)]

/-- The start of a block is written. -/
theorem read_write_start (m : Mem) {bs : List UInt8} {n : ℕ} (h : bs.length ≤ n) :
    (m.write 0 bs).read 0 n = bs ++ (m.read 0 n).drop bs.length := by
  obtain ⟨j, rfl⟩ := Nat.exists_eq_add_of_le h
  rw [read_add, read_write, read_write_of_disjoint (.inl (Nat.le_refl _)), read_add, List.drop_left' (read_length ..)]

theorem read_of_append {m : Mem} {a n : ℕ} {xs ys zs : List UInt8} (h : m.read a n = xs ++ (ys ++ zs)) :
    m.read (a + xs.length) ys.length = ys := by
  have hn : n = xs.length + (ys.length + zs.length) := by simpa using congrArg List.length h
  rw [hn, read_add, read_add] at h
  have htail := List.append_inj_right h (read_length ..)
  exact List.append_inj_left htail (read_length ..)

@[simp] theorem write_nil (m : Mem) (a : ℕ) : m.write a [] = m := by
  funext i
  exact if_neg (by simp)

end Mem

end SabApp
