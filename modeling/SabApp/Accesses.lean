import SabApp.Bytes
import SabApp.Pieces
import SabApp.Traced

/-!
# Accesses to memory

What a computation reads and writes, as the events of its trace, and the reception of a block straight into memory:
each piece that arrives is written behind the one before it.
-/

namespace SabApp

/-- The bytes at an address are read, or bytes are written there. -/
inductive Access where
  | read (a n : ℕ)
  | write (a : ℕ) (bs : List UInt8)

namespace Access

/-- The access touches no byte before `lo`, and none from `hi` on. -/
def Within (lo hi : ℕ) : Access → Prop
  | read a n => lo ≤ a ∧ a + n ≤ hi
  | write a bs => lo ≤ a ∧ a + bs.length ≤ hi

theorem Within.mono {lo hi lo' hi' : ℕ} (hl : lo' ≤ lo) (hh : hi ≤ hi') : ∀ {x : Access}, x.Within lo hi → x.Within lo' hi'
  | read _ _, h => ⟨Nat.le_trans hl h.1, Nat.le_trans h.2 hh⟩
  | write _ _, h => ⟨Nat.le_trans hl h.1, Nat.le_trans h.2 hh⟩

def apply (m : Mem) : Access → Mem
  | read _ _ => m
  | write a bs => m.write a bs

/-- The memory after the accesses. -/
def after (m : Mem) (xs : List Access) : Mem := xs.foldl apply m

@[simp] theorem after_nil (m : Mem) : after m [] = m := rfl

@[simp] theorem after_cons (m : Mem) (x : Access) (xs : List Access) : after m (x :: xs) = after (x.apply m) xs := rfl

theorem after_append (m : Mem) (xs ys : List Access) : after m (xs ++ ys) = after (after m xs) ys := List.foldl_append

/-- Some access writes the byte at `i`. -/
def Writes (xs : List Access) (i : ℕ) : Prop := ∃ a bs, write a bs ∈ xs ∧ a ≤ i ∧ i < a + bs.length

theorem Writes.mono {xs ys : List Access} {i : ℕ} (h : Writes xs i) (hs : xs ⊆ ys) : Writes ys i := by
  obtain ⟨a, bs, hm, hi⟩ := h
  exact ⟨a, bs, hs hm, hi⟩

/-- A byte that nothing writes. -/
theorem after_of_not_writes {i : ℕ} : ∀ {xs : List Access} (m : Mem), ¬ Writes xs i → after m xs i = m i
  | [], _, _ => rfl
  | x :: xs, m, h => by
    have hrest : ¬ Writes xs i := fun hw => h (hw.mono (List.subset_cons_self ..))
    rw [after_cons, after_of_not_writes _ hrest]
    cases x with
    | read a n => rfl
    | write a bs => exact if_neg fun hi => h ⟨a, bs, List.mem_cons_self .., hi⟩

/-- A byte that is written, by whatever writes it. -/
theorem after_of_writes {i : ℕ} {v : UInt8} : ∀ {xs : List Access} (m : Mem), Writes xs i →
    (∀ a bs, write a bs ∈ xs → a ≤ i → i < a + bs.length → bs.getD (i - a) 0 = v) → after m xs i = v
  | [], _, h, _ => nomatch h
  | x :: xs, m, h, hv => by
    rw [after_cons]
    by_cases hrest : Writes xs i
    · exact after_of_writes _ hrest fun a bs hm => hv a bs (List.mem_cons_of_mem _ hm)
    · obtain ⟨a, bs, hm, hle, hlt⟩ := h
      rcases List.mem_cons.mp hm with rfl | hm
      · rw [after_of_not_writes _ hrest, apply, Mem.write, if_pos ⟨hle, hlt⟩]
        exact hv a bs (List.mem_cons_self ..) hle hlt
      · exact absurd ⟨a, bs, hm, hle, hlt⟩ hrest

end Access

namespace Pieces

open Traced

/-- `recv` into memory at `a`. -/
def recvAt : ℕ → ℕ → List (List UInt8) → Traced Access (List UInt8 × List (List UInt8))
  | _, 0, ps => pure ([], ps)
  | _, _ + 1, [] => fail
  | a, n + 1, p :: ps =>
    if p.length ≤ n then do
      emit (.write a p)
      let r ← recvAt (a + p.length) (n + 1 - p.length) ps
      pure (p ++ r.1, r.2)
    else do
      emit (.write a (p.take (n + 1)))
      pure (p.take (n + 1), p.drop (n + 1) :: ps)

@[simp] theorem recvAt_zero (a : ℕ) (ps : List (List UInt8)) : recvAt a 0 ps = pure ([], ps) := by cases ps <;> rfl

theorem recvAt_cons (a n : ℕ) (p : List UInt8) (ps : List (List UInt8)) :
    recvAt a (n + 1) (p :: ps) =
      (if p.length ≤ n then do
        emit (.write a p)
        let r ← recvAt (a + p.length) (n + 1 - p.length) ps
        pure (p ++ r.1, r.2)
      else do
        emit (.write a (p.take (n + 1)))
        pure (p.take (n + 1), p.drop (n + 1) :: ps)) := by
  cases ps <;> rfl

@[simp] theorem value_recvAt (ps : List (List UInt8)) : ∀ a n : ℕ, (recvAt a n ps).value = recv n ps := by
  induction ps with
  | nil =>
    intro a n
    cases n <;> rfl
  | cons p ps ih =>
    intro a n
    cases n with
    | zero => simp
    | succ n =>
      rw [recvAt_cons, recv_cons]
      split
      · simp only [value_bind, value_emit, ih, Option.bind_some, value_pure]
        cases recv (n + 1 - p.length) ps <;> rfl
      · simp

/-- As many bytes are written as arrive. -/
theorem recvAt_within_iff {hi : ℕ} (ps : List (List UInt8)) : ∀ {a n : ℕ}, a ≤ hi →
    ((∀ x ∈ (recvAt a n ps).events, x.Within 0 hi) ↔ a + min n ps.flatten.length ≤ hi) := by
  induction ps with
  | nil =>
    intro a n ha
    cases n with
    | zero => exact iff_of_true nofun (by simpa using ha)
    | succ n => exact iff_of_true nofun (by simpa using ha)
  | cons p ps ih =>
    intro a n ha
    cases n with
    | zero => exact iff_of_true nofun (by simpa using ha)
    | succ n =>
      rw [recvAt_cons, List.flatten_cons, List.length_append]
      split
      · next hp =>
        have hevents : ∀ x, x ∈ (do
            emit (.write a p)
            let r ← recvAt (a + p.length) (n + 1 - p.length) ps
            pure (p ++ r.1, r.2) : Traced Access (List UInt8 × List (List UInt8))).events ↔
            x = .write a p ∨ x ∈ (recvAt (a + p.length) (n + 1 - p.length) ps).events := by
          intro x
          rw [bind_some (value_emit _), events_emit, List.singleton_append, List.mem_cons, events_map]
        simp only [hevents, forall_eq_or_imp]
        constructor
        · rintro ⟨⟨-, hw⟩, hrest⟩
          have := (ih hw).mp hrest
          omega
        · intro h
          have hw : a + p.length ≤ hi := by omega
          exact ⟨⟨Nat.zero_le a, hw⟩, (ih hw).mpr (by omega)⟩
      · next hp =>
        simp only [bind_some (value_emit _), events_emit, events_pure, List.append_nil, List.mem_singleton, forall_eq]
        simp only [Access.Within, List.length_take]
        omega

/-- Whether the block arrives or not, nothing is written but its place. -/
theorem recvAt_within (ps : List (List UInt8)) (a n : ℕ) :
    Ensures (Access.Within a (a + n)) (fun r => recv n ps = some r) (recvAt a n ps) := by
  refine ⟨?_, fun r hr => (value_recvAt ps a n).symm.trans hr⟩
  induction ps generalizing a n with
  | nil => cases n <;> exact nofun
  | cons p ps ih =>
    cases n with
    | zero => simp
    | succ n =>
      rw [recvAt_cons]
      split
      · next hp =>
        have hrest : Ensures (Access.Within a (a + (n + 1))) (fun _ => True) (recvAt (a + p.length) (n + 1 - p.length) ps) :=
          ⟨fun x hx => (ih _ _ x hx).mono (by omega) (by omega), fun _ _ => trivial⟩
        have hall := (ensures_emit (e := Access.write a p) (P := Access.Within a (a + (n + 1)))
          ⟨Nat.le_refl a, by omega⟩).bind fun _ _ => hrest.bind (R := fun _ => True) fun r _ =>
            ensures_pure (a := (p ++ r.1, r.2)) trivial
        exact hall.events
      · have hlen := List.length_take_le (n + 1) p
        intro x hx
        simp only [bind_some (value_emit _), events_emit, events_pure, List.append_nil, List.mem_singleton] at hx
        subst hx
        exact ⟨Nat.le_refl a, by omega⟩

/-- Each byte of a block that arrives is written. -/
theorem recvAt_writes {ps rest : List (List UInt8)} {bs : List UInt8} : ∀ {a n : ℕ}, recv n ps = some (bs, rest) →
    ∀ i, a ≤ i → i < a + n → Access.Writes (recvAt a n ps).events i := by
  induction ps generalizing bs with
  | nil =>
    intro a n h i hi hlt
    cases n with
    | zero => omega
    | succ n => cases h
  | cons p ps ih =>
    intro a n h i hi hlt
    cases n with
    | zero => omega
    | succ n =>
      rw [recv_cons] at h
      rw [recvAt_cons]
      by_cases hp : p.length ≤ n
      · rw [if_pos hp] at h ⊢
        obtain ⟨r, hr, he⟩ := Option.map_eq_some_iff.mp h
        cases he
        rw [bind_some (value_emit _), bind_some ((value_recvAt _ _ _).trans hr)]
        by_cases hin : i < a + p.length
        · exact ⟨a, p, by simp, hi, hin⟩
        · have hmore := ih (a := a + p.length) (n := n + 1 - p.length) hr i (by omega) (by omega)
          exact hmore.mono fun x hx => by simp [hx]
      · rw [if_neg hp]
        refine ⟨a, p.take (n + 1), by simp [bind_some (value_emit _)], hi, ?_⟩
        rw [List.length_take]
        omega

/-- A block that arrives is in its place. -/
theorem after_recvAt {ps rest : List (List UInt8)} {bs : List UInt8} : ∀ {a n : ℕ} (m : Mem),
    recv n ps = some (bs, rest) → Access.after m (recvAt a n ps).events = m.write a bs := by
  induction ps generalizing bs with
  | nil =>
    intro a n m h
    cases n with
    | zero =>
      cases h
      simp
    | succ n => cases h
  | cons p ps ih =>
    intro a n m h
    cases n with
    | zero =>
      rw [recv_zero] at h
      cases h
      simp
    | succ n =>
      rw [recv_cons] at h
      rw [recvAt_cons]
      by_cases hp : p.length ≤ n
      · rw [if_pos hp] at h ⊢
        obtain ⟨r, hr, he⟩ := Option.map_eq_some_iff.mp h
        cases he
        rw [bind_some (value_emit _), bind_some ((value_recvAt _ _ _).trans hr)]
        simp only [events_emit, events_pure, List.append_nil, List.cons_append, List.nil_append, Access.after_cons,
          Access.apply]
        rw [ih (m.write a p) hr, Mem.write_write_append]
      · rw [if_neg hp] at h ⊢
        cases h
        rfl

end Pieces

end SabApp
