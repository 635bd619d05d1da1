import Mathlib.Data.Nat.ModEq
import Mathlib.Tactic.Ring
import SabApp.Bytes

/-!
# Record logs in a ring

Records of varying length, each behind a head that holds its length, are laid
one after the other in a ring of `size` bytes; a record that might not fit
before the end of the lap leaves a skip mark and starts the next lap. Addresses
count laps, so that the distance between two addresses is the number of bytes
the ring would need to hold what lies between them: as long as it is at most
`size`, what was stored is still there (`Stored.put`).
-/

namespace SabApp

structure Addr where
  lap : Nat
  off : Nat
deriving DecidableEq, Repr

structure RingFormat where
  size : Nat
  hsize : Nat
  maxLen : Nat
  skip : Nat
  head : Nat → List UInt8
  headLen : List UInt8 → Nat
  hsize_pos : 0 < hsize
  room_le : 2 * hsize + maxLen ≤ size
  maxLen_lt : maxLen < skip
  head_length : ∀ n, (head n).length = hsize
  headLen_head : ∀ n, n ≤ skip → headLen (head n) = n

namespace RingFormat
variable (F : RingFormat)

def abs (a : Addr) : Nat := a.lap * F.size + a.off

/-- A head still fits behind the address. -/
def InLap (a : Addr) : Prop := a.off + F.hsize ≤ F.size

/-- A largest record, its head and a skip mark might not fit. -/
def Full (a : Addr) : Prop := a.off + 2 * F.hsize + F.maxLen > F.size

instance (a : Addr) : Decidable (F.Full a) := inferInstanceAs (Decidable (_ > _))

def place (a : Addr) : Addr := if F.Full a then ⟨a.lap + 1, 0⟩ else a

def next (a : Addr) (n : Nat) : Addr := ⟨(F.place a).lap, (F.place a).off + F.hsize + n⟩

def mark (m : Mem) (a : Addr) : Mem := if F.Full a then m.write a.off (F.head F.skip) else m

def put (m : Mem) (a : Addr) (f : List UInt8) : Mem :=
  ((F.mark m a).write (F.place a).off (F.head f.length)).write ((F.place a).off + F.hsize) f

/-- The records `fs` lie between the addresses `a` and `b`. -/
def Stored (m : Mem) : Addr → List (List UInt8) → Addr → Prop
  | a, [], b => a = b
  | a, f :: fs, b => f.length ≤ F.maxLen ∧ (F.Full a → m.read a.off F.hsize = F.head F.skip) ∧
      m.read (F.place a).off (F.hsize + f.length) = F.head f.length ++ f ∧ Stored m (F.next a f.length) fs b

/-! ## Addresses -/

variable {F}

theorem next_of_not_full {a : Addr} (h : ¬ F.Full a) (n : Nat) : F.next a n = ⟨a.lap, a.off + F.hsize + n⟩ := by
  simp only [next, place, if_neg h]

theorem next_of_full {a : Addr} (h : F.Full a) (n : Nat) : F.next a n = ⟨a.lap + 1, F.hsize + n⟩ := by
  simp only [next, place, if_pos h, Nat.zero_add]

theorem place_le (a : Addr) : (F.place a).off + 2 * F.hsize + F.maxLen ≤ F.size := by
  unfold place; split
  · have := F.room_le; simp only; omega
  · rename_i h; unfold Full at h; omega

theorem next_inLap (a : Addr) {n : Nat} (h : n ≤ F.maxLen) : F.InLap (F.next a n) := by
  have := F.place_le a
  simp only [InLap, next]; omega

theorem abs_le_place {a : Addr} (h : F.InLap a) : F.abs a ≤ F.abs (F.place a) := by
  unfold place; split
  · unfold InLap at h; simp only [abs, Nat.add_mul]; omega
  · exact Nat.le_refl _

theorem abs_next (a : Addr) (n : Nat) : F.abs (F.next a n) = F.abs (F.place a) + F.hsize + n := by
  simp only [abs, next]; omega

theorem abs_lt_next {a : Addr} (h : F.InLap a) (n : Nat) : F.abs a + F.hsize + n ≤ F.abs (F.next a n) := by
  have := F.abs_le_place h
  rw [abs_next]; omega

/-- Passing over a record costs its head, its bytes and at most the tail it leaves. -/
theorem abs_next_le (a : Addr) (n : Nat) : F.abs (F.next a n) ≤ F.abs a + 2 * F.hsize + F.maxLen + F.hsize + n := by
  rw [abs_next]
  unfold place; split
  · rename_i h; unfold Full at h; simp only [abs, Nat.add_mul]; omega
  · omega

theorem abs_lap_le {a b : Addr} (hb : F.InLap b) (h : F.abs a ≤ F.abs b) : a.lap ≤ b.lap := by
  by_contra hn
  have hm : (b.lap + 1) * F.size ≤ a.lap * F.size := Nat.mul_le_mul_right _ (by omega)
  have := F.hsize_pos
  simp only [abs, InLap, Nat.add_mul] at *; omega

theorem abs_inj {a b : Addr} (ha : F.InLap a) (hb : F.InLap b) (h : F.abs a = F.abs b) : a = b := by
  have hl : a.lap = b.lap :=
    Nat.le_antisymm (F.abs_lap_le hb (Nat.le_of_eq h)) (F.abs_lap_le ha (Nat.le_of_eq h.symm))
  cases a; cases b
  simp only [abs] at h hl; subst hl
  simp only [Addr.mk.injEq, true_and]; omega

/-- A block that starts where another ended, and ends within one ring of its start, does not touch it. -/
theorem disjoint_of_abs {a p : Addr} {n k : Nat}
    (h₁ : F.abs a + n ≤ F.abs p) (h₂ : F.abs p + k ≤ F.abs a + F.size) :
    p.off + k ≤ a.off ∨ a.off + n ≤ p.off := by
  simp only [abs] at h₁ h₂
  rcases Nat.lt_trichotomy a.lap p.lap with h | h | h
  · have := Nat.mul_le_mul_right F.size (show a.lap + 1 ≤ p.lap from h)
    rw [Nat.add_mul, Nat.one_mul] at this; omega
  · rw [h] at h₁; omega
  · have := Nat.mul_le_mul_right F.size (show p.lap + 1 ≤ a.lap from h)
    rw [Nat.add_mul, Nat.one_mul] at this; omega

/-- The distance of two addresses as a machine computes it from wrapped lap counts. -/
theorem dist_mod {M : Nat} {a b : Addr} (hM : F.size ≤ M) (ha : F.InLap a) (hb : F.InLap b)
    (h : F.abs a ≤ F.abs b) :
    ((b.lap % M + M - a.lap % M) % M * F.size + (b.off + M - a.off) % M) % M = (F.abs b - F.abs a) % M := by
  obtain ⟨l, hl⟩ := Nat.exists_eq_add_of_le (F.abs_lap_le hb h)
  have hpos : 0 < M := by have := F.room_le; have := F.hsize_pos; omega
  have hlt := Nat.mod_lt a.lap hpos
  have hlap : (b.lap % M + M - a.lap % M) % M ≡ l [MOD M] := by
    refine (Nat.mod_modEq _ _).trans (Nat.ModEq.add_right_cancel' (a.lap % M) ?_)
    rw [show b.lap % M + M - a.lap % M + a.lap % M = b.lap % M + M by omega, hl]
    refine (Nat.add_modEq_right.trans (Nat.mod_modEq _ _)).trans ?_
    rw [Nat.add_comm]
    exact (Nat.mod_modEq _ _).symm.add_left l
  have hoff : (b.off + M - a.off) % M + a.off ≡ b.off [MOD M] := by
    refine ((Nat.mod_modEq _ _).add_right _).trans ?_
    rw [show b.off + M - a.off + a.off = b.off + M by unfold InLap at ha; omega]
    exact Nat.add_modEq_right
  refine Nat.ModEq.add_right_cancel' a.off ?_
  have habs : F.abs b - F.abs a + a.off = l * F.size + b.off := by
    simp only [abs, hl, Nat.add_mul] at h ⊢; omega
  rw [habs, Nat.add_assoc]
  exact (hlap.mul_right _).add hoff

/-! ## Stored records -/

variable {m : Mem}

theorem Stored.abs_le : ∀ {a : Addr} {fs : List (List UInt8)} {b : Addr}, F.InLap a → F.Stored m a fs b →
    F.abs a ≤ F.abs b
  | _, [], _, _, h => Nat.le_of_eq (congrArg _ h)
  | a, f :: fs, _, ha, ⟨hf, _, _, hs⟩ => by
    have := F.abs_lt_next ha f.length
    have := Stored.abs_le (F.next_inLap a hf) hs
    omega

/-- A block written past the last record, within one ring of the first, leaves the records alone. -/
theorem Stored.write {p : Addr} {bs : List UInt8} : ∀ {a : Addr}
    {fs : List (List UInt8)} {b : Addr}, F.InLap a → F.Stored m a fs b → F.abs b ≤ F.abs p →
    F.abs p + bs.length ≤ F.abs a + F.size → F.Stored (m.write p.off bs) a fs b
  | _, [], _, _, h, _, _ => h
  | a, f :: fs, b, ha, ⟨hf, hm, hr, hs⟩, hb, he => by
    have hn := F.next_inLap a hf
    have hle := hs.abs_le hn
    have hpl := F.place_le a
    have hap := F.abs_le_place ha
    have hnx := F.abs_next a f.length
    refine ⟨hf, fun hfull => ?_, ?_, Stored.write hn hs hb (by omega)⟩
    · rw [Mem.read_write_of_disjoint]
      · exact hm hfull
      · exact F.disjoint_of_abs (by omega) he
    · rw [Mem.read_write_of_disjoint]
      · exact hr
      · exact F.disjoint_of_abs (by omega) (by omega)

theorem Stored.snoc {f : List UInt8} {b : Addr} (hf : f.length ≤ F.maxLen)
    (hm : F.Full b → m.read b.off F.hsize = F.head F.skip)
    (hr : m.read (F.place b).off (F.hsize + f.length) = F.head f.length ++ f) : ∀ {a : Addr}
    {fs : List (List UInt8)}, F.Stored m a fs b → F.Stored m a (fs ++ [f]) (F.next b f.length)
  | _, [], h => by subst h; exact ⟨hf, hm, hr, rfl⟩
  | _, _ :: _, ⟨h₁, h₂, h₃, h₄⟩ => ⟨h₁, h₂, h₃, Stored.snoc hf hm hr h₄⟩

theorem Stored.mark {a : Addr} {fs : List (List UInt8)} {b : Addr} (ha : F.InLap a) (hb : F.InLap b)
    (h : F.Stored m a fs b) (he : F.abs (F.place b) ≤ F.abs a + F.size) : F.Stored (F.mark m b) a fs b := by
  unfold RingFormat.mark; split
  · rename_i hfull
    have hle : F.abs b + F.hsize ≤ F.abs (F.place b) := by
      unfold RingFormat.place; rw [if_pos hfull]
      unfold InLap at hb; simp only [abs, Nat.add_mul]; omega
    refine h.write ha (Nat.le_refl _) ?_
    rw [F.head_length]; omega
  · exact h

/-- **Put.** A record that ends within one ring of the first one stored joins the log. -/
theorem Stored.put {a : Addr} {fs : List (List UInt8)} {b : Addr} {f : List UInt8} (ha : F.InLap a)
    (hb : F.InLap b) (hf : f.length ≤ F.maxLen) (h : F.Stored m a fs b)
    (he : F.abs (F.next b f.length) ≤ F.abs a + F.size) :
    F.Stored (F.put m b f) a (fs ++ [f]) (F.next b f.length) := by
  have hpl := F.place_le b
  have hap := F.abs_le_place hb
  have hab := h.abs_le ha
  rw [abs_next] at he
  have hlen := F.head_length f.length
  have hq : F.abs ⟨(F.place b).lap, (F.place b).off + F.hsize⟩ = F.abs (F.place b) + F.hsize := by
    simp only [abs]; omega
  have h₁ := h.mark ha hb (by omega)
  have h₂ : F.Stored ((F.mark m b).write (F.place b).off (F.head f.length)) a fs b := h₁.write ha hap (by omega)
  have h₃ : F.Stored (F.put m b f) a fs b :=
    h₂.write (p := ⟨(F.place b).lap, (F.place b).off + F.hsize⟩) ha (by omega) (by omega)
  refine h₃.snoc hf (fun hfull => ?_) ?_
  · -- the mark lies at the end of the lap, the record at its start and before `a`
    have hz : F.place b = ⟨b.lap + 1, 0⟩ := if_pos hfull
    simp only [hz, abs, Nat.add_mul] at he hab
    unfold RingFormat.put
    simp only [hz]
    rw [Mem.read_write_of_disjoint (.inl (by omega)), Mem.read_write_of_disjoint (.inl (by omega))]
    unfold RingFormat.mark
    rw [if_pos hfull]
    simpa only [F.head_length] using Mem.read_write m b.off (F.head F.skip)
  · have := Mem.read_write_append (F.mark m b) (F.place b).off (F.head f.length) f
    rwa [List.length_append, hlen] at this

/-! ## Reading the first record -/

/-- What a reader at `a` finds in a log that is not empty. -/
theorem Stored.headLen {a b : Addr} {f : List UInt8} {fs : List (List UInt8)} (h : F.Stored m a (f :: fs) b) :
    F.headLen (m.read a.off F.hsize) = if F.Full a then F.skip else f.length := by
  obtain ⟨hf, hm, hr, _⟩ := h
  split
  · rename_i hfull; rw [hm hfull, F.headLen_head _ (Nat.le_refl _)]
  · rename_i hfull
    rw [RingFormat.place, if_neg hfull, Mem.read_add] at hr
    rw [(List.append_inj hr (by simp [F.head_length])).1, F.headLen_head _ (by have := F.maxLen_lt; omega)]

theorem Stored.headLen_place {a b : Addr} {f : List UInt8} {fs : List (List UInt8)}
    (h : F.Stored m a (f :: fs) b) : F.headLen (m.read (F.place a).off F.hsize) = f.length := by
  obtain ⟨hf, _, hr, _⟩ := h
  rw [Mem.read_add] at hr
  rw [(List.append_inj hr (by simp [F.head_length])).1, F.headLen_head _ (by have := F.maxLen_lt; omega)]

theorem Stored.body {a b : Addr} {f : List UInt8} {fs : List (List UInt8)} (h : F.Stored m a (f :: fs) b) :
    m.read ((F.place a).off + F.hsize) f.length = f := by
  obtain ⟨_, _, hr, _⟩ := h
  rw [Mem.read_add] at hr
  exact (List.append_inj hr (by simp [F.head_length])).2

end RingFormat

end SabApp
