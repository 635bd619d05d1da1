import Mathlib.Data.List.Basic
import Mathlib.Tactic.Common

/-!
# Numbered request slots

A caller writes its parameters into a slot and counts the request in `cur`. A worker
copies the parameters, carries the request out and notes in `last` the number it has
reached. Both numbers have 32 bits. `Tracks` ties a slot to the calls made so far and
to how many of them are answered for; `upTo calls n` is the latest of the first `n`.
-/

namespace SabApp

/-- The latest of the first `n` calls. -/
def upTo {π : Type*} (calls : List π) (n : ℕ) : Option π := (calls.take n).getLast?

section
variable {π : Type*}

@[simp] theorem upTo_length (calls : List π) : upTo calls calls.length = calls.getLast? := by
  rw [upTo, List.take_length]

theorem upTo_append {calls : List π} {n : ℕ} (h : n ≤ calls.length) (p : π) :
    upTo (calls ++ [p]) n = upTo calls n := by
  rw [upTo, List.take_append_of_le_length h, upTo]

theorem getLast?_snoc (calls : List π) (p : π) : (calls ++ [p]).getLast? = some p := by simp

end

structure Mailbox (π : Type*) where
  last : Int32
  cur : Int32
  cfg : π
  deriving DecidableEq

namespace Mailbox

theorem number_eq_iff (a b : ℕ) : Int32.ofNat a = Int32.ofNat b ↔ a % 4294967296 = b % 4294967296 := by
  rw [← Int32.toBitVec_inj, ← BitVec.toNat_inj]; rfl

variable {π : Type*}

def init (p : π) : Mailbox π := ⟨0, 0, p⟩

def post (b : Mailbox π) (p : π) : Mailbox π := { b with cur := b.cur + 1, cfg := p }

/-- The worker notes the number it finds in the slot. -/
def ack (b : Mailbox π) : Mailbox π := { b with last := b.cur }

/-- The worker notes the number it copied with the parameters. -/
def ackTo (b : Mailbox π) (n : Int32) : Mailbox π := { b with last := n }

/-- The worker hands an answer back in the parameters' place. -/
def put (b : Mailbox π) (p : π) : Mailbox π := { b with cfg := p }

/-- The slot `b` has taken `calls`, and the first `done` of them are answered for. -/
structure Tracks (b : Mailbox π) (calls : List π) (done : ℕ) : Prop where
  cfg : done < calls.length → calls.getLast? = some b.cfg
  le : done ≤ calls.length
  cur : b.cur = Int32.ofNat calls.length
  last : b.last = Int32.ofNat done

namespace Tracks
variable {b : Mailbox π} {calls : List π} {done : ℕ}

theorem start (p : π) : Tracks (init p) [] 0 := ⟨nofun, Nat.le_refl _, rfl, rfl⟩

theorem post (h : Tracks b calls done) (p : π) : Tracks (b.post p) (calls ++ [p]) done where
  cfg _ := getLast?_snoc calls p
  le := by rw [List.length_append]; exact Nat.le_add_right_of_le h.le
  cur := by
    rw [List.length_append, List.length_singleton, Int32.ofNat_add, ← h.cur]; rfl
  last := h.last

theorem ack (h : Tracks b calls done) : Tracks b.ack calls calls.length :=
  ⟨fun hlt => absurd hlt (Nat.lt_irrefl _), Nat.le_refl _, h.cur, h.cur⟩

/-- With nothing open the parameters' place is free for an answer. -/
theorem ack_put (h : Tracks b calls done) (p : π) : Tracks (b.ack.put p) calls calls.length :=
  ⟨fun hlt => absurd hlt (Nat.lt_irrefl _), Nat.le_refl _, h.cur, h.cur⟩

theorem ackTo (h : Tracks b calls done) {n : ℕ} (hd : done ≤ n) (hn : n ≤ calls.length) :
    Tracks (b.ackTo (Int32.ofNat n)) calls n :=
  ⟨fun hlt => h.cfg (Nat.lt_of_le_of_lt hd hlt), hn, h.cur, rfl⟩

/-- Numbers less than 2^32 calls apart are equal only if nothing is open. -/
theorem idle_iff (h : Tracks b calls done) (hlt : calls.length < done + 4294967296) :
    b.last = b.cur ↔ done = calls.length := by
  have hle := h.le
  rw [h.last, h.cur, number_eq_iff]
  omega

theorem lt_of_ne (h : Tracks b calls done) (hne : b.last ≠ b.cur) : done < calls.length := by
  apply Nat.lt_of_le_of_ne h.le
  intro he
  exact hne (by rw [h.last, h.cur, he])

theorem cfg_of_ne (h : Tracks b calls done) (hne : b.last ≠ b.cur) : calls.getLast? = some b.cfg :=
  h.cfg (h.lt_of_ne hne)

end Tracks

end Mailbox

end SabApp
