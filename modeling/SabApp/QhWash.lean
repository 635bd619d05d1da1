import Mathlib.Data.List.Nodup
import Mathlib.Data.List.Perm.Basic
import Mathlib.Logic.Equiv.Basic
import SabApp.Bytes
import SabApp.QhShuffle

/-!
# The order of shuffled packets (tool_ran_wash)

The array is filled with its indices and each but the last is swapped with one that the random numbers draw, never with
the last. Whatever the numbers are it holds each index once, the last one last.
-/

namespace SabApp

namespace Qh

/-- `array[i] = x`; `none` is a write outside of the array. -/
def store (array : List Int32) (i : ℕ) (x : Int32) : Option (List Int32) :=
  if i < array.length then some (array.set i x) else none

/-- The first loop of `tool_ran_wash` from index `i` on. -/
def washFill : ℕ → ℕ → List Int32 → Option (List Int32)
  | 0, _, array => some array
  | n + 1, i, array => do
    let array ← store array i (Int32.ofNat i)
    washFill n (i + 1) array

/-- The second loop from index `i` on. -/
def washSwaps (rand : ℕ → ℕ) (len : ℕ) : ℕ → ℕ → List Int32 → Option (List Int32)
  | 0, _, array => some array
  | n + 1, i, array => do
    let pos := rand i % (len - 1)
    let tmp ← array[i]?
    let x ← array[pos]?
    let array ← store array i x
    let array ← store array pos tmp
    washSwaps rand len n (i + 1) array

/-- `tool_ran_wash` on an array; `rand s i` is the number rand returns at its i-th call after srand(s). -/
def tool_ran_wash (rand : Int32 → ℕ → ℕ) (seed usec : Int32) (array : List Int32) (len : Int32) : Option (List Int32) := do
  let n := len.toNatClampNeg
  let array ← washFill n 0 array
  washSwaps (rand (srand seed usec)) n (n - 1) 0 array

/-! ## The order as a permutation -/

theorem perm_lt {σ : Equiv.Perm ℕ} {n k : ℕ} (h : ∀ k, n ≤ k → σ k = k) (hk : k < n) : σ k < n := by
  by_contra hn
  have hσ := σ.injective (h (σ k) (Nat.not_lt.mp hn))
  omega

/-- A permutation that moves nothing from `n` on makes an order of the numbers below. -/
theorem map_range_perm {σ : Equiv.Perm ℕ} {n : ℕ} (h : ∀ k, n ≤ k → σ k = k) :
    ((List.range n).map σ).Perm (List.range n) := by
  refine (List.perm_ext_iff_of_nodup (List.Nodup.map σ.injective List.nodup_range) List.nodup_range).mpr fun k => ?_
  rw [List.mem_map, List.mem_range]
  constructor
  · rintro ⟨j, hj, rfl⟩
    exact perm_lt h (List.mem_range.mp hj)
  · intro hk
    refine ⟨σ.symm k, List.mem_range.mpr ?_, σ.apply_symm_apply k⟩
    by_contra hn
    rw [← h _ (Nat.not_lt.mp hn), σ.apply_symm_apply] at hn
    exact hn hk

/-- The swaps from index `i` on permute what is there, and leave the last index alone. -/
theorem washFrom_perm (rand : ℕ → ℕ) {len : ℕ} : ∀ {n i : ℕ} (a : ℕ → ℕ), i + n ≤ len - 1 →
    ∃ σ : Equiv.Perm ℕ, washFrom rand len n i a = a ∘ σ ∧ ∀ k, len - 1 ≤ k → σ k = k := by
  intro n
  induction n with
  | zero => exact fun a _ => ⟨Equiv.refl ℕ, rfl, fun _ _ => rfl⟩
  | succ n ih =>
    intro i a hle
    have hpos : rand i % (len - 1) < len - 1 := Nat.mod_lt _ (by omega)
    obtain ⟨σ, hσ, hfix⟩ := ih (i := i + 1) (a ∘ Equiv.swap (rand i % (len - 1)) i) (by omega)
    refine ⟨σ.trans (Equiv.swap (rand i % (len - 1)) i), ?_, fun k hk => ?_⟩
    · rw [Equiv.comp_swap_eq_update] at hσ
      rw [washFrom, hσ, ← Equiv.comp_swap_eq_update]
      rfl
    · rw [Equiv.trans_apply, hfix k hk]
      exact Equiv.swap_apply_of_ne_of_ne (by omega) (by omega)

theorem ranWash_perm (rand : Int32 → ℕ → ℕ) (seed usec : Int32) (len : ℕ) :
    ∃ σ : Equiv.Perm ℕ, ranWash rand seed usec len = σ ∧ ∀ k, len - 1 ≤ k → σ k = k :=
  washFrom_perm (rand (srand seed usec)) id (by omega)

/-! ## The array -/

/-- An array that starts with the first `n` values of `f`. -/
def shown (f : ℕ → ℕ) (n : ℕ) (rest : List Int32) : List Int32 := (List.range n).map (fun k => Int32.ofNat (f k)) ++ rest

section
variable {f : ℕ → ℕ} {n : ℕ} {rest : List Int32}

theorem shown_getElem? {i : ℕ} (h : i < n) : (shown f n rest)[i]? = some (Int32.ofNat (f i)) := by
  rw [shown, List.getElem?_append_left (by simpa using h), List.getElem?_map, List.getElem?_range h]
  rfl

theorem store_shown {i : ℕ} (h : i < n) (k : ℕ) :
    store (shown f n rest) i (Int32.ofNat k) = some (shown (Function.update f i k) n rest) := by
  have hlen : i < ((List.range n).map fun k => Int32.ofNat (f k)).length := by simpa using h
  have hset : ((List.range n).map fun k => Int32.ofNat (f k)).set i (Int32.ofNat k) =
      (List.range n).map fun j => Int32.ofNat (Function.update f i k j) := by
    refine List.ext_getElem (by simp) fun j hj _ => ?_
    rw [List.getElem_set, List.getElem_map, List.getElem_map, List.getElem_range]
    by_cases hij : i = j
    · rw [if_pos hij, hij, Function.update_self]
    · rw [if_neg hij, Function.update_of_ne (Ne.symm hij)]
  rw [store, if_pos (by rw [shown, List.length_append]; omega), shown, List.set_append_left _ _ hlen, hset]
  rfl

theorem shown_succ (f : ℕ → ℕ) (n : ℕ) (x : Int32) (rest : List Int32) :
    store (shown f n (x :: rest)) n (Int32.ofNat (f n)) = some (shown f (n + 1) rest) := by
  have hlen : ((List.range n).map fun k => Int32.ofNat (f k)).length = n := by simp
  rw [store, if_pos (by rw [shown, List.length_append, hlen, List.length_cons]; omega), shown,
    List.set_append_right _ _ (Nat.le_of_eq hlen), hlen, Nat.sub_self, List.set_cons_zero, shown, List.range_succ, List.map_append,
    List.append_assoc]
  rfl

/-- The first loop makes each number its own place. -/
theorem washFill_eq : ∀ {m i : ℕ} {rest : List Int32}, m ≤ rest.length →
    washFill m i (shown id i rest) = some (shown id (i + m) (rest.drop m))
  | 0, _, _, _ => rfl
  | m + 1, i, x :: rest, h => by
    have hstore := shown_succ id i x rest
    rw [id] at hstore
    rw [washFill, hstore, Option.bind_eq_bind, Option.bind_some, washFill_eq (Nat.le_of_succ_le_succ h)]
    rw [Nat.add_assoc, Nat.add_comm 1 m]
    rfl

/-- The second loop makes the order of the seed. -/
theorem washSwaps_eq (rand : ℕ → ℕ) : ∀ {m i : ℕ} {f : ℕ → ℕ}, i + m ≤ n - 1 →
    washSwaps rand n m i (shown f n rest) = some (shown (washFrom rand n m i f) n rest)
  | 0, _, _, _ => rfl
  | m + 1, i, f, h => by
    have hpos : rand i % (n - 1) < n - 1 := Nat.mod_lt _ (by omega)
    simp only [washSwaps, shown_getElem? (show i < n by omega), shown_getElem? (show rand i % (n - 1) < n by omega),
      Option.bind_eq_bind, Option.bind_some, store_shown (show i < n by omega),
      store_shown (show rand i % (n - 1) < n by omega)]
    exact washSwaps_eq rand (by omega)

end

/-- The array holds the order the sender goes by. -/
theorem wash_eq (rand : Int32 → ℕ → ℕ) (seed usec : Int32) {array : List Int32} {len : Int32}
    (h : len.toNatClampNeg ≤ array.length) : tool_ran_wash rand seed usec array len =
      some (shown (ranWash rand seed usec len.toNatClampNeg) len.toNatClampNeg (array.drop len.toNatClampNeg)) := by
  have hfill := washFill_eq (i := 0) h
  rw [Nat.zero_add] at hfill
  have hstart : shown id 0 array = array := rfl
  rw [hstart] at hfill
  simp only [tool_ran_wash, hfill, Option.bind_eq_bind, Option.bind_some]
  exact washSwaps_eq _ (by omega)

/-- **The wash.** The start of the array is a permutation of its indices with the last one last, and the rest is as it was. -/
theorem wash_permutes (rand : Int32 → ℕ → ℕ) (seed usec : Int32) {array : List Int32} {len : Int32} (h : 1 ≤ len)
    (hsize : len.toNatClampNeg ≤ array.length) :
    ∃ a, tool_ran_wash rand seed usec array len = some (a ++ array.drop len.toNatClampNeg) ∧
      a.Perm ((List.range len.toNatClampNeg).map Int32.ofNat) ∧ a.getLast? = some (len - 1) := by
  have hpos : 0 < len.toNatClampNeg := (Int32.toNatClampNeg_pos_iff len).mpr (Int32.lt_of_lt_of_le (by decide) h)
  obtain ⟨σ, hσ, hfix⟩ := ranWash_perm rand seed usec len.toNatClampNeg
  refine ⟨_, wash_eq rand seed usec hsize, ?_, ?_⟩
  · have hmap := (map_range_perm (n := len.toNatClampNeg) fun k hk => hfix k (by omega)).map Int32.ofNat
    rw [List.map_map] at hmap
    rwa [hσ]
  · obtain ⟨m, hm⟩ := Nat.exists_eq_add_of_le' hpos
    have hlast : Int32.ofNat m = len - 1 := by
      rw [← Int32.ofNat_toNatClampNeg len (Int32.le_trans (by decide) h), hm, Int32.ofNat_add]
      exact (Int32.add_sub_cancel _ 1).symm
    rw [hσ, hm, List.range_succ, List.map_append, List.map_singleton, List.getLast?_concat, hfix m (by omega), hlast]

theorem wash_four : ∃ a, tool_ran_wash rands 1 0 [7, 7, 7, 7, 7] 4 = some (a ++ [7]) ∧
    a.Perm ((List.range 4).map Int32.ofNat) ∧ a.getLast? = some (4 - 1) :=
  @wash_permutes rands 1 0 [7, 7, 7, 7, 7] 4 (by decide) (by decide)

/-! ## The packets -/

theorem taken_eq_flatMap (pos : ℕ → ℕ) (m : Mem) (len : ℕ) : ∀ n i : ℕ, taken pos m len n i =
    (List.range' i n).flatMap fun k => m.read (pos k * packSize) (packBytes len k)
  | 0, _ => rfl
  | n + 1, i => by rw [taken, taken_eq_flatMap pos m len n (i + 1), List.range'_succ, List.flatMap_cons]

/-- The sender sends each byte of the frame once. -/
theorem sent_perm (rand : Int32 → ℕ → ℕ) (seed usec : Int32) (m : Mem) {h : PtcHead} (hlen : h.len.toNat ≤ videoFrameSize) :
    (taken (ranWash rand seed usec h.count.toNat) m h.len.toNat h.count.toNat 0).Perm (m.read 0 h.len.toNat) := by
  have hpos := PtcHead.count_pos hlen
  obtain ⟨σ, hσ, hfix⟩ := ranWash_perm rand seed usec h.count.toNat
  have hsame : ∀ k < h.count.toNat, packBytes h.len.toNat k = packBytes h.len.toNat (σ k) := by
    intro k hk
    by_cases hlast : k < h.count.toNat - 1
    · have hlt := perm_lt hfix hlast
      rw [PtcHead.packBytes_of_lt hlen (by omega), PtcHead.packBytes_of_lt hlen (by omega)]
    · rw [hfix k (Nat.not_lt.mp hlast)]
  have hmoved : (List.range h.count.toNat).flatMap (fun k => m.read (σ k * packSize) (packBytes h.len.toNat k)) =
      ((List.range h.count.toNat).map σ).flatMap fun k => m.read (k * packSize) (packBytes h.len.toNat k) := by
    rw [List.flatMap_map]
    exact List.flatMap_congr fun k hk => congrArg _ (hsame k (List.mem_range.mp hk))
  rw [← taken_id_all m hlen, taken_eq_flatMap, taken_eq_flatMap, ← List.range_eq_range', hσ, hmoved]
  exact (map_range_perm fun k hk => hfix k (by omega)).flatMap_right _

end Qh

end SabApp
