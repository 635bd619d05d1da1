import Mathlib.Data.Int.Basic
import SabApp.Runs
import SabApp.SlotRing

/-!
# The queue of buffers (tool_stream1.c)

`tool_stream1_push` hands a buffer over to the slot at the writer's position and frees the one it finds there;
`tool_stream1_pop` hands out the buffer at the reader's. The pop looks for a buffer at the writer's position,
and equal positions are taken for an empty queue.
-/

namespace SabApp

namespace Stream1

open SlotRing

/-- TOOL_STREAM1_POOL_SIZE -/
def maxPoolSize : ℕ := 100

/-- The buffers by where they come from: `tool_stream1_init` or the pushes. -/
inductive Block where
  | initial (i : ℕ)
  | pushed (k : ℕ)
  deriving DecidableEq

/-- `tool_stream1_data_t` -/
structure Slot where
  data : Option Block
  len : ℤ
  deriving DecidableEq

/-- `tool_stream1_t` and the reader's position. The history is the lengths that were pushed, what the pops handed out, and the
buffers that were freed. -/
structure World where
  pool : ℕ → Slot
  writePos : ℕ
  poolSize : ℕ
  dataSize : ℤ
  readPos : ℕ
  pushes : List ℤ
  handed : List Slot
  freed : List Block

inductive Act where
  | push (len : ℤ)
  | pop

namespace World

def firstSlot (dataSize : ℤ) (i : ℕ) : Slot := if dataSize > 0 then ⟨some (.initial i), 0⟩ else ⟨none, 0⟩

/-- `tool_stream1_init` and `tool_stream1_initReadPos`. None is `log_fatal`, or a fault of the program. -/
def init (poolSize : ℕ) (dataSize : ℤ) : Option World :=
  if poolSize > maxPoolSize then none
  else
    some {
      pool := fun i => if i < poolSize then firstSlot dataSize i else ⟨none, 0⟩
      writePos := 0
      poolSize := poolSize
      dataSize := dataSize
      readPos := 0
      pushes := []
      handed := []
      freed := [] }

def push (w : World) (len : ℤ) : Option World :=
  -- the position is taken modulo the size of the pool
  if w.poolSize = 0 then none
  else
    some { w with
      pool := Function.update w.pool w.writePos ⟨some (.pushed w.pushes.length), len⟩
      writePos := (w.writePos + 1) % w.poolSize
      pushes := w.pushes ++ [len]
      freed := (w.pool w.writePos).data.toList ++ w.freed }

/-- The buffer and the length that are handed out, none of them for an empty queue. -/
def pop (w : World) : Option (Option Slot × World) :=
  if w.readPos = w.writePos then some (none, w)
  else if (w.pool w.writePos).data = none then none
  else
    some (some (w.pool w.readPos), { w with
      pool := Function.update w.pool w.readPos ⟨none, 0⟩
      readPos := (w.readPos + 1) % w.poolSize
      handed := w.handed ++ [w.pool w.readPos] })

/-- `tool_stream1_done` -/
def done (w : World) : World :=
  { w with
    pool := fun i => if i < w.poolSize then ⟨none, 0⟩ else w.pool i
    freed := (List.range w.poolSize).filterMap (fun i => (w.pool i).data) ++ w.freed }

def step (w : World) : Act → Option World
  | .push len => w.push len
  | .pop => w.pop.map Prod.snd

/-- The buffer is in the queue. -/
def Unread (w : World) (k : ℕ) : Prop := ∃ i < w.poolSize, (w.pool i).data = some (.pushed k)

instance (w : World) (k : ℕ) : Decidable (w.Unread k) := inferInstanceAs (Decidable (∃ i < w.poolSize, _))

def oldest (w : World) : Option ℕ := (List.range w.pushes.length).find? fun k => w.Unread k

/-- A push comes to its end, and so does a pop, which hands out the oldest unread buffer with its length, or reports the
queue empty where there is none. -/
def Good (w : World) : Act → Prop
  | .push len => (w.push len).isSome
  | .pop =>
    match w.oldest with
    | none => w.pop.map Prod.fst = some none
    | some k => w.pop.map Prod.fst = some (some ⟨some (.pushed k), w.pushes.getD k 0⟩)

/-- Every buffer that was pushed is handed out once or freed once. -/
def Owned (w : World) : Prop :=
  ∀ k < w.pushes.length, (w.handed.map Slot.data).count (some (.pushed k)) + w.freed.count (.pushed k) = 1

/-- The guard. The pool has a slot, and an unread buffer is popped only if `tool_stream1_init` gave the slots buffers of
their own and the writer has not yet come round. -/
def Within (w : World) : Act → Prop
  | .push _ => 0 < w.poolSize
  | .pop => w.oldest ≠ none → 0 < w.dataSize ∧ w.pushes.length < w.poolSize

instance (w : World) : ∀ a, Decidable (Good w a)
  | .push len => inferInstanceAs (Decidable ((w.push len).isSome = true))
  | .pop =>
    match h : w.oldest with
    | none => decidable_of_iff (w.pop.map Prod.fst = some none) (by simp [Good, h])
    | some k => decidable_of_iff (w.pop.map Prod.fst = some (some ⟨some (.pushed k), w.pushes.getD k 0⟩))
        (by simp [Good, h])

instance (w : World) (a : Act) : Decidable (Within w a) := by
  cases a <;> unfold Within <;> infer_instance

/-! ## Who owns a buffer -/

/-- In how many places the buffer is. -/
def places (w : World) (k : ℕ) : ℕ :=
  (w.handed.map Slot.data).count (some (.pushed k)) + w.freed.count (.pushed k) +
    ((List.range w.poolSize).map fun i => (w.pool i).data).count (some (.pushed k))

structure Placed (w : World) : Prop where
  write : w.writePos = w.pushes.length % w.poolSize
  read : w.readPos = w.handed.length % w.poolSize
  size : w.poolSize = 0 → w.pushes = [] ∧ w.handed = []
  places : ∀ k, w.places k = if k < w.pushes.length then 1 else 0

end World

/-- Writing a slot takes its buffer from the pool and puts in another. -/
theorem count_update (pool : ℕ → Slot) {i n : ℕ} (hi : i < n) (s : Slot) (b : Option Block) :
    ((List.range n).map fun j => (Function.update pool i s j).data).count b + [(pool i).data].count b =
      ((List.range n).map fun j => (pool j).data).count b + [s.data].count b := by
  induction n with
  | zero => exact absurd hi (Nat.not_lt_zero i)
  | succ n ih =>
    simp only [List.range_succ, List.map_append, List.map_singleton, List.count_append]
    by_cases h : i = n
    · subst h
      have hsame : ((List.range i).map fun j => (Function.update pool i s j).data) =
          (List.range i).map fun j => (pool j).data := by
        apply List.map_congr_left
        intro j hj
        rw [Function.update_of_ne (Nat.ne_of_lt (List.mem_range.mp hj))]
      rw [hsame, Function.update_self]
      omega
    · have := ih (by omega)
      rw [Function.update_of_ne (Ne.symm h)]
      omega

theorem count_toList (b : Option Block) (x : Block) : b.toList.count x = [b].count (some x) := by
  cases b with
  | none => simp
  | some y => simp [List.count_singleton]

namespace World

theorem placed_init {poolSize : ℕ} {dataSize : ℤ} {w : World} (h : init poolSize dataSize = some w) : w.Placed := by
  unfold init at h
  split at h
  · cases h
  cases h
  refine ⟨by simp, by simp, fun _ => ⟨rfl, rfl⟩, fun k => ?_⟩
  simp only [places, List.map_nil, List.count_nil, Nat.zero_add, List.length_nil, Nat.not_lt_zero, if_false,
    List.count_eq_zero, List.mem_map, not_exists, not_and]
  intro i hi he
  unfold firstSlot at he
  split at he
  · split at he <;> cases he
  · cases he

theorem push_cases {w t : World} {len : ℤ} (h : w.push len = some t) :
    0 < w.poolSize ∧ t = { w with
      pool := Function.update w.pool w.writePos ⟨some (.pushed w.pushes.length), len⟩
      writePos := (w.writePos + 1) % w.poolSize
      pushes := w.pushes ++ [len]
      freed := (w.pool w.writePos).data.toList ++ w.freed } := by
  unfold push at h
  split at h
  · cases h
  · next hn => exact ⟨Nat.pos_of_ne_zero hn, (Option.some.inj h).symm⟩

theorem pop_cases {w t : World} (h : w.pop.map Prod.snd = some t) :
    t = w ∨ w.readPos ≠ w.writePos ∧ t = { w with
      pool := Function.update w.pool w.readPos ⟨none, 0⟩
      readPos := (w.readPos + 1) % w.poolSize
      handed := w.handed ++ [w.pool w.readPos] } := by
  unfold pop at h
  by_cases he : w.readPos = w.writePos
  · rw [if_pos he] at h
    exact .inl (Option.some.inj h).symm
  rw [if_neg he] at h
  split at h
  · cases h
  · exact .inr ⟨he, (Option.some.inj h).symm⟩

theorem placed_push {w t : World} {len : ℤ} (h : w.Placed) (hs : w.push len = some t) : t.Placed := by
  obtain ⟨hn, rfl⟩ := push_cases hs
  have hpos : w.writePos < w.poolSize := by
    rw [h.write]
    exact Nat.mod_lt _ hn
  refine ⟨?_, h.read, fun h0 => absurd h0 (Nat.ne_of_gt hn), fun k => ?_⟩
  · simp only [h.write, List.length_append, List.length_singleton]
    exact Nat.mod_add_mod ..
  · have hp := h.places k
    have hc := count_update w.pool hpos ⟨some (.pushed w.pushes.length), len⟩ (some (.pushed k))
    simp only [places, List.count_append, count_toList, List.length_append, List.length_singleton] at hp ⊢
    have hnew : [some (Block.pushed w.pushes.length)].count (some (.pushed k)) = if k = w.pushes.length then 1 else 0 := by
      by_cases hk : k = w.pushes.length
      · simp [hk]
      · simp [hk, Ne.symm hk]
    rw [hnew] at hc
    split at hp <;> split at hc <;> split <;> omega

theorem placed_pop {w t : World} (h : w.Placed) (hs : w.pop.map Prod.snd = some t) : t.Placed := by
  rcases pop_cases hs with rfl | ⟨hne, rfl⟩
  · exact h
  have hn : 0 < w.poolSize := by
    apply Nat.pos_of_ne_zero
    intro h0
    obtain ⟨hp, hh⟩ := h.size h0
    rw [h.read, h.write, hp, hh] at hne
    exact hne rfl
  have hpos : w.readPos < w.poolSize := by
    rw [h.read]
    exact Nat.mod_lt _ hn
  refine ⟨h.write, ?_, fun h0 => absurd h0 (Nat.ne_of_gt hn), fun k => ?_⟩
  · simp only [h.read, List.length_append, List.length_singleton]
    exact Nat.mod_add_mod ..
  · have hp := h.places k
    have hc := count_update w.pool hpos ⟨none, 0⟩ (some (.pushed k))
    have hnone : [(none : Option Block)].count (some (.pushed k)) = 0 := by simp
    simp only [places, List.map_append, List.count_append, List.map_singleton] at hp ⊢
    rw [hnone] at hc
    omega

theorem placed_step {w t : World} {a : Act} (h : w.Placed) (hs : step w a = some t) : t.Placed := by
  cases a with
  | push len => exact placed_push h hs
  | pop => exact placed_pop h hs

/-- After `tool_stream1_done` nothing is left in the pool. -/
theorem Placed.owned {w : World} (h : w.Placed) : w.done.Owned := by
  intro k hk
  have hp := h.places k
  rw [if_pos (show k < w.pushes.length from hk)] at hp
  have hc : ((List.range w.poolSize).filterMap fun i => (w.pool i).data).count (.pushed k) =
      ((List.range w.poolSize).map fun i => (w.pool i).data).count (some (.pushed k)) := by
    rw [List.count_filterMap, List.count_eq_countP, List.countP_map]
    rfl
  simp only [World.places] at hp
  simp only [done, List.count_append, hc]
  omega

/-! ## The first round of the writer -/

/-- What was pushed with number `k`, or the empty slot it left. -/
def cell (w : World) (k : ℕ) : Slot :=
  if k < w.handed.length then ⟨none, 0⟩ else ⟨some (.pushed k), w.pushes.getD k 0⟩

def cells (w : World) : List Slot := (List.range w.pushes.length).map w.cell

structure Round (w : World) : Prop where
  placed : w.Placed
  slots : Latest w.poolSize w.pool w.cells
  fresh : ∀ i < w.poolSize, w.pushes.length ≤ i → w.pool i = firstSlot w.dataSize i
  le : w.handed.length ≤ w.pushes.length
  first : w.handed.length < w.poolSize ∨ w.handed = []

theorem length_cells (w : World) : w.cells.length = w.pushes.length := by rw [cells, List.length_map, List.length_range]

theorem getElem?_cells {w : World} {k : ℕ} (hk : k < w.pushes.length) : w.cells[k]? = some (w.cell k) := by
  rw [cells, List.getElem?_map, List.getElem?_range hk]
  rfl

theorem getElem?_cells_eq {w : World} {k : ℕ} {s : Slot} (h : w.cells[k]? = some s) :
    k < w.pushes.length ∧ s = w.cell k := by
  have hk : k < w.pushes.length := by
    have := (List.getElem?_eq_some_iff.mp h).1
    rwa [length_cells] at this
  rw [getElem?_cells hk] at h
  exact ⟨hk, (Option.some.inj h).symm⟩

theorem data_cell {w : World} {j k : ℕ} : (w.cell j).data = some (.pushed k) ↔ j = k ∧ w.handed.length ≤ k := by
  unfold cell
  split
  · next h => simp; omega
  · next h => simp; omega

/-- A slot has the newest of what was pushed into it. -/
theorem Round.slot {w : World} (h : w.Round) (hn : 0 < w.poolSize) {r : ℕ} (hr : r < w.pushes.length) :
    w.pool (r % w.poolSize) = w.cell (newest w.poolSize w.pushes.length r) :=
  (getElem?_cells_eq (h.slots.newest hr hn (length_cells w))).2

theorem Round.pool_pos {w : World} (h : w.Round) (hw : w.pushes ≠ []) : 0 < w.poolSize := by
  apply Nat.pos_of_ne_zero
  intro h0
  exact hw (h.placed.size h0).1

theorem Round.unread {w : World} (h : w.Round) (k : ℕ) :
    w.Unread k ↔ w.handed.length ≤ k ∧ k < w.pushes.length ∧ w.pushes.length ≤ k + w.poolSize := by
  constructor
  · rintro ⟨i, hi, hd⟩
    by_cases hw : w.pushes.length ≤ i
    · rw [h.fresh i hi hw] at hd
      unfold firstSlot at hd
      split at hd <;> cases hd
    · have hlt := Nat.lt_of_not_le hw
      have hslot := h.slot (Nat.zero_lt_of_lt hi) hlt
      rw [Nat.mod_eq_of_lt hi] at hslot
      rw [hslot] at hd
      obtain ⟨hk, hle⟩ := data_cell.mp hd
      rw [← hk] at hle ⊢
      exact ⟨hle, newest_lt hlt, le_newest_add hlt (Nat.zero_lt_of_lt hi)⟩
  · rintro ⟨hle, hlt, hn⟩
    refine ⟨k % w.poolSize, Nat.mod_lt _ (h.pool_pos fun h0 => by simp [h0] at hlt), ?_⟩
    rw [h.slots k _ (getElem?_cells hlt) (by rw [length_cells]; exact hn)]
    exact data_cell.mpr ⟨rfl, hle⟩

/-- The oldest unread is the next to be handed out, or where the writer has come round, the one in its slot. -/
theorem Round.oldest {w : World} (h : w.Round) {k : ℕ} (ho : w.oldest = some k) :
    k < w.pushes.length ∧ k = max w.handed.length (w.pushes.length - w.poolSize) := by
  simp only [World.oldest, List.find?_range_eq_some, decide_eq_true_eq, List.mem_range, Bool.not_eq_true',
    decide_eq_false_iff_not] at ho
  obtain ⟨hu, hk, hbefore⟩ := ho
  rw [h.unread] at hu
  refine ⟨hk, Nat.le_antisymm ?_ (by omega)⟩
  by_contra hlt
  exact hbefore _ (Nat.lt_of_not_le hlt) ((h.unread _).mpr (by omega))

theorem Round.oldest_none {w : World} (h : w.Round) (ho : w.oldest = none) : w.handed.length = w.pushes.length := by
  by_contra hne
  have hlt := Nat.lt_of_le_of_ne h.le hne
  have hn := h.pool_pos fun h0 => by simp [h0] at hlt
  simp only [World.oldest, List.find?_range_eq_none, Bool.not_eq_true', decide_eq_false_iff_not] at ho
  exact ho (w.pushes.length - 1) (by omega) ((h.unread _).mpr (by omega))

theorem round_init {poolSize : ℕ} {dataSize : ℤ} {w : World} (h : init poolSize dataSize = some w) : w.Round := by
  refine ⟨placed_init h, ?_, ?_, ?_, ?_⟩
  all_goals
    unfold init at h
    split at h
    · cases h
    cases h
  · exact latest_nil _
  · intro i hi _
    exact if_pos hi
  · exact Nat.le_refl _
  · exact .inr rfl

theorem round_push {w t : World} {len : ℤ} (h : w.Round) (hs : w.push len = some t) : t.Round := by
  refine ⟨placed_push h.placed hs, ?_, ?_, ?_, ?_⟩
  all_goals obtain ⟨hn, rfl⟩ := push_cases hs
  · have hcells : (World.cells { w with
        pool := Function.update w.pool w.writePos ⟨some (.pushed w.pushes.length), len⟩
        writePos := (w.writePos + 1) % w.poolSize
        pushes := w.pushes ++ [len]
        freed := (w.pool w.writePos).data.toList ++ w.freed }) =
          w.cells ++ [⟨some (.pushed w.pushes.length), len⟩] := by
      simp only [cells, List.length_append, List.length_singleton, List.range_succ, List.map_append, List.map_singleton]
      congr 1
      · apply List.map_congr_left
        intro k hk
        simp only [cell, List.getD_eq_getElem?_getD, List.getElem?_append_left (List.mem_range.mp hk)]
      · simp [cell, h.le]
    rw [hcells]
    simp only [h.placed.write, ← length_cells w]
    exact h.slots.write _
  · intro i hi hw
    simp only [List.length_append, List.length_singleton] at hw
    dsimp only at hi ⊢
    rw [Function.update_of_ne, h.fresh i hi (by omega)]
    rw [h.placed.write, Nat.mod_eq_of_lt (by omega)]
    omega
  · have := h.le
    simp only [List.length_append, List.length_singleton]
    omega
  · exact h.first

theorem Round.readPos {w : World} (h : w.Round) : w.readPos = w.handed.length := by
  rw [h.placed.read]
  rcases h.first with hf | hf
  · exact Nat.mod_eq_of_lt hf
  · rw [hf]
    exact Nat.zero_mod _

theorem Round.pop_empty {w : World} (h : w.Round) (ho : w.oldest = none) : w.pop = some (none, w) := by
  rw [pop, if_pos]
  rw [h.placed.read, h.placed.write, h.oldest_none ho]

/-- In the first round of a pool with buffers of its own a pop finds the next to be handed out. -/
theorem Round.pop_oldest {w : World} (h : w.Round) {k : ℕ} (ho : w.oldest = some k) (hd : 0 < w.dataSize)
    (hn : w.pushes.length < w.poolSize) : k = w.handed.length ∧ w.pop = some (some (w.cell k), { w with
      pool := Function.update w.pool w.readPos ⟨none, 0⟩
      readPos := (w.readPos + 1) % w.poolSize
      handed := w.handed ++ [w.cell k] }) := by
  obtain ⟨hk, hmax⟩ := h.oldest ho
  have hkr : k = w.handed.length := by omega
  subst hkr
  have hwrite : w.writePos = w.pushes.length := by rw [h.placed.write, Nat.mod_eq_of_lt hn]
  have hslot := h.slot (by omega) hk
  rw [newest_eq_self (by omega), ← h.placed.read] at hslot
  refine ⟨rfl, ?_⟩
  rw [pop, if_neg, if_neg, hslot]
  · rw [hwrite, h.fresh _ hn (Nat.le_refl _), firstSlot, if_pos hd]
    exact Option.some_ne_none _
  · rw [h.readPos, hwrite]
    omega

theorem round_pop {w t : World} (h : w.Round) (ha : Within w .pop) (hs : w.pop.map Prod.snd = some t) : t.Round := by
  cases ho : w.oldest with
  | none =>
    rw [h.pop_empty ho] at hs
    cases hs
    exact h
  | some k =>
    obtain ⟨hd, hn⟩ := ha (by rw [ho]; exact Option.some_ne_none k)
    have hp := placed_pop h.placed hs
    obtain ⟨hk, -⟩ := h.oldest ho
    obtain ⟨rfl, hpop⟩ := h.pop_oldest ho hd hn
    rw [hpop] at hs
    cases hs
    refine ⟨hp, ?_, ?_, ?_, ?_⟩
    · have hcells : (World.cells { w with
          pool := Function.update w.pool w.readPos ⟨none, 0⟩
          readPos := (w.readPos + 1) % w.poolSize
          handed := w.handed ++ [w.cell w.handed.length] }) = w.cells.set w.handed.length ⟨none, 0⟩ := by
        apply List.ext_getElem (by simp [cells])
        intro i hi hi'
        simp only [cells, List.getElem_map, List.getElem_range, List.getElem_set, cell, List.length_append,
          List.length_singleton]
        by_cases hir : w.handed.length = i
        · rw [if_pos (by omega), if_pos hir]
        · rw [if_neg hir]
          exact if_congr (by omega) rfl rfl
      rw [hcells]
      simp only [h.placed.read]
      exact h.slots.set (by rw [length_cells]; exact hk) (by rw [length_cells]; omega) _
    · intro i hi hw
      dsimp only at hi hw ⊢
      rw [Function.update_of_ne, h.fresh i hi hw]
      rw [h.readPos]
      omega
    · simp only [List.length_append, List.length_singleton]
      omega
    · simp only [List.length_append, List.length_singleton]
      omega

theorem round_step {w t : World} {a : Act} (h : w.Round) (ha : Within w a) (hs : step w a = some t) : t.Round := by
  cases a with
  | push len => exact round_push h hs
  | pop => exact round_pop h ha hs

/-! ## Out of the first round -/

/-- Where the writer has come round, the pop faults or hands out a buffer that is not the oldest. -/
theorem Round.not_oldest {w : World} (h : w.Round) {k : ℕ} (ho : w.oldest = some k)
    (hn : w.poolSize ≤ w.pushes.length) {s : Slot} {t : World} (hpop : w.pop = some (some s, t)) :
    s.data ≠ some (.pushed k) := by
  obtain ⟨hk, hmax⟩ := h.oldest ho
  have hpos := h.pool_pos fun h0 => by simp [h0] at hk
  have hlt : w.pushes.length - w.poolSize < w.pushes.length := by omega
  unfold pop at hpop
  by_cases he : w.readPos = w.writePos
  · rw [if_pos he] at hpop
    cases hpop
  rw [if_neg he] at hpop
  split at hpop
  · cases hpop
  next hdata =>
  cases hpop
  -- the slot at the writer's position has the buffer that was pushed a pool before
  have hmod : w.writePos = (w.pushes.length - w.poolSize) % w.poolSize := by
    rw [h.placed.write, ← Nat.mod_eq_sub_mod hn]
  rw [hmod, h.slots _ _ (getElem?_cells hlt) (by rw [length_cells]; omega)] at hdata
  have hle : w.handed.length ≤ w.pushes.length - w.poolSize := by
    by_contra hc
    exact hdata (by rw [cell, if_pos (Nat.lt_of_not_le hc)])
  rw [Nat.max_eq_right hle] at hmax
  -- so it is the oldest, and in another slot than the one that is read
  have hr : w.handed.length < w.pushes.length := by omega
  rw [h.placed.read, h.slot hpos hr]
  intro hc
  apply he
  rw [hmod, ← hmax, ← (data_cell.mp hc).1, newest_mod, h.placed.read]

/-- Where the slots have no buffers of their own, the pop faults. -/
theorem Round.pop_fatal {w : World} (h : w.Round) {k : ℕ} (ho : w.oldest = some k) (hd : ¬ 0 < w.dataSize)
    (hn : w.pushes.length < w.poolSize) : w.pop = none := by
  obtain ⟨hk, hmax⟩ := h.oldest ho
  have hwrite : w.writePos = w.pushes.length := by rw [h.placed.write, Nat.mod_eq_of_lt hn]
  rw [pop, if_neg, if_pos]
  · rw [hwrite, h.fresh _ hn (Nat.le_refl _), firstSlot, if_neg hd]
  · rw [h.readPos, hwrite]
    omega

theorem Round.good_iff {w : World} (h : w.Round) (a : Act) : w.Good a ↔ Within w a := by
  cases a with
  | push len =>
    unfold Good Within push
    by_cases hn : w.poolSize = 0
    · simp [hn]
    · simp [hn, Nat.pos_of_ne_zero hn]
  | pop =>
    unfold Good Within
    cases ho : w.oldest with
    | none => simp [h.pop_empty ho]
    | some k =>
      refine ⟨fun hg _ => ?_, fun hw => ?_⟩
      · obtain ⟨⟨s, t⟩, hpop, hs⟩ := Option.map_eq_some_iff.mp hg
        obtain rfl : s = _ := hs
        have hn : w.pushes.length < w.poolSize := by
          by_contra hn
          exact h.not_oldest ho (Nat.le_of_not_lt hn) hpop rfl
        refine ⟨?_, hn⟩
        by_contra hd
        rw [h.pop_fatal ho hd hn] at hpop
        cases hpop
      · obtain ⟨hd, hn⟩ := hw (Option.some_ne_none k)
        obtain ⟨rfl, hpop⟩ := h.pop_oldest ho hd hn
        simp only [hpop, Option.map_some, cell, Nat.lt_irrefl, if_false]

/-- The pops of a run hand out the oldest buffers or report the queue empty, none is fatal and every buffer ends up with one
owner, exactly if no unread buffer is popped from a pool whose slots had no buffers at first or are all written. -/
theorem good_iff_within {poolSize : ℕ} {dataSize : ℤ} {w : World} (h : init poolSize dataSize = some w) (acts : List Act) :
    (Meets step Good w acts ∧ ∀ t, exec step w acts = some t → t.done.Owned) ↔ Meets step Within w acts := by
  rw [← meets_iff_meets (fun _ _ _ => round_step) (fun _ a hr => hr.good_iff a) (round_init h)]
  refine and_iff_left ?_
  intro t ht
  exact (reached_of_inv (fun _ _ _ => placed_step) (fun _ => id) (placed_init h) acts acts t (List.prefix_refl _) ht).owned

theorem good_in_first_round : ∃ w, init 3 1 = some w ∧
    (Meets step Good w [.push 5, .push 6, .pop, .pop, .pop] ∧
      ∀ t, exec step w [.push 5, .push 6, .pop, .pop, .pop] = some t → t.done.Owned) :=
  ⟨_, rfl, (good_iff_within (show init 3 1 = some _ from rfl) _).mpr (by decide)⟩

/-- A queue of pushed buffers only: its first pop is fatal. -/
theorem first_pop_fatal :
    ¬ ∀ poolSize dataSize w acts, init poolSize dataSize = some w →
      Meets step Good w acts ∧ ∀ t, exec step w acts = some t → t.done.Owned := by
  intro h
  have hgood := ((h 2 0 _ [.push 5, .pop] rfl).1.2 _ rfl).1
  exact absurd hgood (by decide)

end World

end Stream1

end SabApp
