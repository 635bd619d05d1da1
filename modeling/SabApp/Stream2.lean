import SabApp.Runs
import SabApp.SlotRing

/-!
# The slot ring (tool_stream2.c)

The positions of the writer and of a reader count modulo the number of slots, and there is no count of the laps. A
writer that is whole pools ahead looks like one that has written nothing; until it has written one more
item the reader waits, so it never comes back to older items.
-/

namespace SabApp

namespace Stream2

open SlotRing

/-- TOOL_STREAM2_POOL_SIZE -/
def poolSize : ℕ := 100

/-- TOOL_STREAM2_DATA_SIZE -/
def dataSize : ℕ := 3000

/-- `tool_stream2_data_t` with the bytes up to its length, and how many items were written before. -/
structure Item where
  no : ℕ
  data : List UInt8
  deriving DecidableEq

/-- The stream and its reader. The history is in `written` and `got`, in `rooms`, which has the length of each read
that moved the reader, and in `lapped`: the writer has been a pool ahead. -/
structure World where
  pool : ℕ → Item
  writePos : ℕ
  readPos : ℕ
  written : List Item
  rooms : List ℕ
  got : List Item
  lapped : Bool

inductive Act where
  | set (data : List UInt8)
  | get (len : ℕ)

/-- The items for which the reads had room. -/
def fitting : List Item → List ℕ → List Item
  | x :: xs, len :: rooms => if len < x.data.length then fitting xs rooms else x :: fitting xs rooms
  | _, _ => []

namespace World

/-- After `tool_stream2_init` and `tool_stream2_initReadPos`. -/
def init : World := ⟨fun _ => ⟨0, []⟩, 0, 0, [], [], [], false⟩

def set (w : World) (data : List UInt8) : World :=
  if data.length > dataSize then w
  else
    { w with
      pool := Function.update w.pool w.writePos ⟨w.written.length, data⟩
      writePos := (w.writePos + 1) % poolSize
      written := w.written ++ [⟨w.written.length, data⟩]
      lapped := w.lapped || decide (w.written.length + 1 ≥ w.rooms.length + poolSize) }

/-- None is `log_fatal`. -/
def get (w : World) (len : ℕ) : Option World :=
  if w.readPos ≥ poolSize then none
  else if w.readPos = w.writePos then some w
  else
    let next := { w with readPos := (w.readPos + 1) % poolSize, rooms := w.rooms ++ [len] }
    if len < (w.pool w.readPos).data.length then some next
    else some { next with got := w.got ++ [w.pool w.readPos] }

def step (w : World) : Act → Option World
  | .set data => some (w.set data)
  | .get len => w.get len

/-- The reader was given some of the written items, each newer than the one before; and if the writer was never a pool ahead,
all that it has moved past and had room for, and it stops behind the last only. -/
structure Sound (w : World) : Prop where
  sublist : w.got.Sublist w.written
  newer : (w.got.map Item.no).Pairwise (· < ·)
  all : w.lapped = false → w.got = fitting w.written w.rooms
  enough : w.lapped = false → (∀ len ∈ w.rooms, dataSize ≤ len) → w.got = w.written.take w.rooms.length
  last : w.lapped = false → w.readPos = w.writePos → w.rooms.length = w.written.length

end World

/-! ## Items with room -/

theorem fitting_written : ∀ {xs : List Item} {rooms : List ℕ} (ys : List Item), rooms.length ≤ xs.length →
    fitting (xs ++ ys) rooms = fitting xs rooms
  | [], [], ys, _ => by cases ys <;> rfl
  | _ :: _, [], _, _ => rfl
  | x :: xs, len :: rooms, ys, h => by
    rw [List.cons_append, fitting, fitting, fitting_written ys (Nat.le_of_succ_le_succ h)]

theorem fitting_read : ∀ {xs : List Item} {rooms : List ℕ} {x : Item} (len : ℕ), xs[rooms.length]? = some x →
    fitting xs (rooms ++ [len]) = fitting xs rooms ++ if len < x.data.length then [] else [x]
  | [], rooms, x, len, h => by cases h
  | y :: xs, [], x, len, h => by
    cases h
    cases xs <;> simp [fitting]
  | y :: xs, room :: rooms, x, len, h => by
    simp only [List.cons_append, fitting, fitting_read len (show xs[rooms.length]? = some x from h)]
    by_cases hy : room < y.data.length
    · rw [if_pos hy, if_pos hy]
    · rw [if_neg hy, if_neg hy, List.cons_append]

theorem fitting_eq_take : ∀ {xs : List Item} {rooms : List ℕ}, (∀ x ∈ xs, x.data.length ≤ dataSize) →
    (∀ len ∈ rooms, dataSize ≤ len) → fitting xs rooms = xs.take rooms.length
  | [], [], _, _ => rfl
  | [], _ :: _, _, _ => rfl
  | _ :: _, [], _, _ => rfl
  | x :: xs, len :: rooms, hx, hr => by
    have hlen : ¬ len < x.data.length :=
      Nat.not_lt.mpr (Nat.le_trans (hx x List.mem_cons_self) (hr len List.mem_cons_self))
    rw [fitting, if_neg hlen, List.length_cons, List.take_succ_cons, fitting_eq_take
      (fun y hy => hx y (List.mem_cons_of_mem x hy)) (fun l hl => hr l (List.mem_cons_of_mem len hl))]

namespace World

/-! ## The positions -/

structure Placed (w : World) : Prop where
  read : w.readPos = w.rooms.length % poolSize
  write : w.writePos = w.written.length % poolSize
  slots : Latest poolSize w.pool w.written
  numbers : w.written.map Item.no = List.range w.written.length
  sizes : ∀ x ∈ w.written, x.data.length ≤ dataSize
  le : w.rooms.length ≤ w.written.length
  near : w.lapped = false → w.written.length < w.rooms.length + poolSize

theorem Placed.mod_ne {w : World} (h : w.Placed) (hne : w.readPos ≠ w.writePos) :
    w.rooms.length % poolSize ≠ w.written.length % poolSize := by
  rwa [h.read, h.write] at hne

theorem Placed.lt {w : World} (h : w.Placed) (hne : w.readPos ≠ w.writePos) : w.rooms.length < w.written.length :=
  mod_ne_of_lt (h.mod_ne hne) h.le

/-- The item in the reader's slot. -/
theorem Placed.found {w : World} (h : w.Placed) (hne : w.readPos ≠ w.writePos) :
    w.written[newest poolSize w.written.length w.rooms.length]? = some (w.pool w.readPos) := by
  rw [h.read]
  exact h.slots.newest (h.lt hne) (by decide) rfl

/-- A writer that was never a pool ahead has left the next item in place. -/
theorem Placed.found_next {w : World} (h : w.Placed) (hne : w.readPos ≠ w.writePos) (hl : w.lapped = false) :
    w.written[w.rooms.length]? = some (w.pool w.readPos) := by
  have := h.found hne
  rwa [newest_eq_self (Nat.le_of_lt (h.near hl))] at this

theorem placed_init : init.Placed where
  read := rfl
  write := rfl
  slots := latest_nil _
  numbers := rfl
  sizes := fun x hx => by cases hx
  le := Nat.le_refl _
  near := fun _ => by decide

theorem get_cases {w t : World} {len : ℕ} (h : w.get len = some t) :
    w.readPos = w.writePos ∧ t = w ∨
    w.readPos ≠ w.writePos ∧
      t = { w with
        readPos := (w.readPos + 1) % poolSize
        rooms := w.rooms ++ [len]
        got := w.got ++ if len < (w.pool w.readPos).data.length then [] else [w.pool w.readPos] } := by
  unfold get at h
  by_cases hr : w.readPos ≥ poolSize
  · rw [if_pos hr] at h
    cases h
  rw [if_neg hr] at h
  by_cases he : w.readPos = w.writePos
  · rw [if_pos he] at h
    exact .inl ⟨he, (Option.some.inj h).symm⟩
  rw [if_neg he] at h
  refine .inr ⟨he, ?_⟩
  by_cases hl : len < (w.pool w.readPos).data.length
  · simp only [if_pos hl] at h ⊢
    rw [List.append_nil]
    exact (Option.some.inj h).symm
  · simp only [if_neg hl] at h ⊢
    exact (Option.some.inj h).symm

theorem placed_set {w : World} (h : w.Placed) (data : List UInt8) : (w.set data).Placed := by
  unfold set
  by_cases hd : data.length > dataSize
  · rw [if_pos hd]
    exact h
  rw [if_neg hd]
  refine ⟨h.read, ?_, ?_, ?_, fun x hx => ?_, ?_, fun hl => ?_⟩
  · simp only [h.write, List.length_append, List.length_singleton]
    exact Nat.mod_add_mod ..
  · simp only [h.write]
    exact h.slots.write _
  · simp only [List.map_append, h.numbers, List.length_append, List.length_singleton, List.range_succ]
    rfl
  · rcases List.mem_append.mp hx with hx | hx
    · exact h.sizes x hx
    · rw [List.mem_singleton.mp hx]
      exact Nat.le_of_not_lt hd
  · have := h.le
    simp only [List.length_append, List.length_singleton]
    omega
  · simp only [Bool.or_eq_false_iff, decide_eq_false_iff_not] at hl
    simp only [List.length_append, List.length_singleton]
    omega

theorem placed_get {w t : World} {len : ℕ} (h : w.Placed) (hs : w.get len = some t) : t.Placed := by
  rcases get_cases hs with ⟨-, rfl⟩ | ⟨hne, rfl⟩
  · exact h
  have hlt := h.lt hne
  refine ⟨?_, h.write, h.slots, h.numbers, h.sizes, ?_, fun hl => ?_⟩
  · simp only [h.read, List.length_append, List.length_singleton]
    exact Nat.mod_add_mod ..
  · simp only [List.length_append, List.length_singleton]
    omega
  · have := h.near hl
    simp only [List.length_append, List.length_singleton]
    omega

theorem placed_step {w t : World} {a : Act} (h : w.Placed) (hs : step w a = some t) : t.Placed := by
  cases a with
  | set data =>
    cases hs
    exact placed_set h data
  | get len => exact placed_get h hs

/-! ## What the reader gets -/

/-- What was given lies within the reach of the reader, and without laps it is what fitted. -/
structure Given (w : World) : Prop where
  before : w.got.Sublist (w.written.take (reach poolSize w.written.length w.rooms.length))
  all : w.lapped = false → w.got = fitting w.written w.rooms

theorem given_init : init.Given where
  before := List.Sublist.refl _
  all := fun _ => rfl

theorem given_set {w : World} (hp : w.Placed) (h : w.Given) (data : List UInt8) : (w.set data).Given := by
  unfold set
  by_cases hd : data.length > dataSize
  · rw [if_pos hd]
    exact h
  rw [if_neg hd]
  refine ⟨?_, fun hl => ?_⟩
  · have hle := reach_le (n := poolSize) hp.le
    have hmono := reach_write poolSize w.written.length w.rooms.length
    simp only [List.length_append, List.length_singleton]
    apply h.before.trans
    have htake : (w.written ++ [(⟨w.written.length, data⟩ : Item)]).take (reach poolSize w.written.length w.rooms.length) =
        w.written.take (reach poolSize w.written.length w.rooms.length) := List.take_append_of_le_length hle
    rw [← htake]
    exact List.take_sublist_take_left hmono
  · rw [Bool.or_eq_false_iff] at hl
    dsimp only
    rw [fitting_written _ hp.le]
    exact h.all hl.1

theorem given_get {w t : World} {len : ℕ} (hp : w.Placed) (h : w.Given) (hs : w.get len = some t) : t.Given := by
  rcases get_cases hs with ⟨-, rfl⟩ | ⟨hne, rfl⟩
  · exact h
  have hlt := hp.lt hne
  have hfound := hp.found hne
  refine ⟨?_, fun hl => ?_⟩
  · have htake : w.written.take (newest poolSize w.written.length w.rooms.length + 1) =
        w.written.take (reach poolSize w.written.length w.rooms.length) ++ [w.pool w.readPos] := by
      rw [List.take_add_one, hfound, ← newest_eq_reach hlt (hp.mod_ne hne)]
      rfl
    simp only [List.length_append, List.length_singleton]
    rw [reach_read, htake]
    apply h.before.append
    by_cases hlen : len < (w.pool w.readPos).data.length
    · rw [if_pos hlen]
      exact List.nil_sublist _
    · rw [if_neg hlen]
  · dsimp only
    rw [h.all hl, fitting_read len (hp.found_next hne hl)]

theorem given_step {w t : World} {a : Act} (hp : w.Placed) (h : w.Given) (hs : step w a = some t) : t.Given := by
  cases a with
  | set data =>
    cases hs
    exact given_set hp h data
  | get len => exact given_get hp h hs

theorem sound_of_given {w : World} (hp : w.Placed) (h : w.Given) : w.Sound where
  sublist := h.before.trans (List.take_sublist ..)
  newer := by
    have hsub : (w.got.map Item.no).Sublist (w.written.map Item.no) :=
      (h.before.trans (List.take_sublist ..)).map Item.no
    rw [hp.numbers] at hsub
    exact List.pairwise_lt_range.sublist hsub
  all := h.all
  enough := fun hl hr => by rw [h.all hl, fitting_eq_take hp.sizes hr]
  last := fun hl he => by
    rw [hp.read, hp.write] at he
    exact eq_of_mod_eq he hp.le (hp.near hl)

theorem get_isSome {w : World} (h : w.Placed) (len : ℕ) : ∃ t, w.get len = some t := by
  have hr : ¬ w.readPos ≥ poolSize := by
    rw [h.read]
    exact Nat.not_le.mpr (Nat.mod_lt _ (by decide))
  rw [get, if_neg hr]
  split
  · exact ⟨_, rfl⟩
  · dsimp only
    split <;> exact ⟨_, rfl⟩

theorem step_isSome {w : World} (h : w.Placed) : ∀ a, ∃ t, step w a = some t
  | .set data => ⟨w.set data, rfl⟩
  | .get len => get_isSome h len

/-- No read is fatal, and in every state of every run the reader was given written items in order, none of them twice, and
where the writer kept less than a pool ahead, all for which the reads had room. -/
theorem reads_sound (acts : List Act) : Always step Sound init acts := by
  apply always_of_meets (I := fun w => w.Placed ∧ w.Given) _ _ ⟨placed_init, given_init⟩ (meets_true init acts)
  · rintro w a ⟨hp, h⟩ -
    obtain ⟨t, ht⟩ := step_isSome hp a
    exact ⟨t, ht, placed_step hp ht, given_step hp h ht⟩
  · exact fun w h => sound_of_given h.1 h.2

/-- A read with no room passes over the only item. -/
theorem passed_over :
    ¬ ∀ acts t, exec step init acts = some t → t.lapped = false → t.readPos = t.writePos → t.got = t.written := by
  intro h
  have := h [.set [7], .get 0] _ rfl (by decide) (by decide)
  exact absurd this (by decide)

end World

end Stream2

end SabApp
