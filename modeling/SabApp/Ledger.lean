import Mathlib.Data.List.Nodup
import Mathlib.Logic.Function.Basic

/-!
# Blocks and the pointers to them

Blocks are numbered as they are allocated, so `freed` tells which of them were given back and how often. In a
lawful ledger no block is freed twice; it is kept if every block still in use is behind a pointer that is held.
-/

namespace SabApp

structure Ledger (ι : Type*) where
  ptr : ι → Option ℕ
  next : ℕ
  freed : List ℕ

namespace Ledger

variable {ι : Type*}

def empty : Ledger ι := ⟨fun _ => none, 0, []⟩

structure Lawful (l : Ledger ι) : Prop where
  made : ∀ p n, l.ptr p = some n → n < l.next
  apart : ∀ p q n, l.ptr p = some n → l.ptr q = some n → p = q
  freed_made : ∀ n ∈ l.freed, n < l.next
  once : l.freed.Nodup

/-- The pointer is to a block in use. -/
def Live (l : Ledger ι) (p : ι) : Prop := ∃ n, l.ptr p = some n ∧ n ∉ l.freed

def Unfreed (l : Ledger ι) (p : ι) : Prop := ∀ n, l.ptr p = some n → n ∉ l.freed

/-- Every block in use is behind a pointer that is held. -/
def Kept (holds : ι → Prop) (l : Ledger ι) : Prop :=
  ∀ n, n < l.next → n ∉ l.freed → ∃ p, holds p ∧ l.ptr p = some n

instance (l : Ledger ι) (p : ι) : Decidable (l.Live p) :=
  match h : l.ptr p with
  | none => isFalse fun ⟨n, hn, _⟩ => by rw [h] at hn; cases hn
  | some n => decidable_of_iff (n ∉ l.freed)
    ⟨fun hf => ⟨n, h, hf⟩, fun ⟨m, hm, hf⟩ => by rw [h] at hm; cases hm; exact hf⟩

theorem lawful_empty : (empty : Ledger ι).Lawful :=
  ⟨fun _ _ h => (nomatch h), fun _ _ _ h => (nomatch h), fun _ h => (nomatch h), List.nodup_nil⟩

theorem kept_empty (holds : ι → Prop) : (empty : Ledger ι).Kept holds := fun _ h => absurd h (Nat.not_lt_zero _)

theorem not_live {l : Ledger ι} {p : ι} : ¬ l.Live p ↔ ∀ n, l.ptr p = some n → n ∈ l.freed := by
  simp [Live]

/-- A block in use behind a pointer that is not held is lost, for no other pointer is to it. -/
theorem Lawful.not_live {l : Ledger ι} (hl : l.Lawful) {holds : ι → Prop} (hk : l.Kept holds) {p : ι}
    (hp : ¬ holds p) : ¬ l.Live p := by
  rintro ⟨n, hn, hf⟩
  obtain ⟨q, hq, hqn⟩ := hk n (hl.made p n hn) hf
  exact hp (hl.apart p q n hn hqn ▸ hq)

/-- A pointer that is not to a block in use may be given up. -/
theorem Kept.vacate {l : Ledger ι} {holds holds' : ι → Prop} (hk : l.Kept holds) {p : ι} (hp : ¬ l.Live p)
    (hh : ∀ q, q ≠ p → holds q → holds' q) : l.Kept holds' := by
  intro n hn hf
  obtain ⟨q, hq, hqn⟩ := hk n hn hf
  refine ⟨q, hh q (fun h => ?_) hq, hqn⟩
  subst h
  exact hp ⟨n, hqn, hf⟩

/-! ## Freeing -/

/-- `free`, which leaves the pointer as it is. -/
def free (l : Ledger ι) (p : ι) : Ledger ι := { l with freed := (l.ptr p).toList ++ l.freed }

section
variable {l : Ledger ι} {p : ι}

theorem mem_freed_free {n : ℕ} : n ∈ (l.free p).freed ↔ l.ptr p = some n ∨ n ∈ l.freed := by
  simp [free]

theorem Lawful.free (hl : l.Lawful) (hp : l.Unfreed p) : (l.free p).Lawful := by
  refine ⟨hl.made, hl.apart, fun n hn => ?_, ?_⟩
  · cases mem_freed_free.mp hn with
    | inl h => exact hl.made p n h
    | inr h => exact hl.freed_made n h
  · cases h : l.ptr p with
    | none => simpa [Ledger.free, h] using hl.once
    | some n => simpa [Ledger.free, h] using ⟨hp n h, hl.once⟩

theorem Unfreed.free {q : ι} (hl : l.Lawful) (hq : l.Unfreed q) (hne : q ≠ p) : (l.free p).Unfreed q := by
  intro n hn hf
  cases mem_freed_free.mp hf with
  | inl h => exact hne (hl.apart q p n hn h)
  | inr h => exact hq n hn h

theorem Kept.free {holds : ι → Prop} (hk : l.Kept holds) : (l.free p).Kept holds :=
  fun n hn hf => hk n hn fun h => hf (mem_freed_free.mpr (.inr h))

end

variable [DecidableEq ι]

def release (l : Ledger ι) (p : ι) : Ledger ι := { l.free p with ptr := Function.update l.ptr p none }

/-- `malloc`, which comes to `NULL` where there is no memory. -/
def malloc (l : Ledger ι) (p : ι) (ok : Bool) : Ledger ι :=
  if ok then { l with ptr := Function.update l.ptr p (some l.next), next := l.next + 1 }
  else { l with ptr := Function.update l.ptr p none }

section
variable {l : Ledger ι} {p : ι}

theorem ptr_release {q : ι} {n : ℕ} : (l.release p).ptr q = some n ↔ q ≠ p ∧ l.ptr q = some n := by
  by_cases h : q = p
  · simp [release, h]
  · simp [release, h]

theorem mem_freed_release {n : ℕ} : n ∈ (l.release p).freed ↔ l.ptr p = some n ∨ n ∈ l.freed := mem_freed_free

theorem Lawful.release (hl : l.Lawful) (hp : l.Unfreed p) : (l.release p).Lawful := by
  obtain ⟨-, -, hf, ho⟩ := hl.free hp
  exact ⟨fun q n h => hl.made q n (ptr_release.mp h).2,
    fun q r n h h' => hl.apart q r n (ptr_release.mp h).2 (ptr_release.mp h').2, hf, ho⟩

theorem Unfreed.release {q : ι} (hl : l.Lawful) (hq : l.Unfreed q) : (l.release p).Unfreed q := by
  intro n hn
  obtain ⟨hne, hn⟩ := ptr_release.mp hn
  exact hq.free hl hne n hn

theorem not_live_release : ¬ (l.release p).Live p := not_live.mpr fun _ h => absurd rfl (ptr_release.mp h).1

theorem kept_release_iff {holds : ι → Prop} (hp : holds p) : (l.release p).Kept holds ↔ l.Kept holds := by
  refine ⟨fun hk n hn hf => ?_, fun hk n hn hf => ?_⟩
  · by_cases h : l.ptr p = some n
    · exact ⟨p, hp, h⟩
    · obtain ⟨q, hq, hqn⟩ := hk n hn fun hm => (mem_freed_release.mp hm).elim h hf
      exact ⟨q, hq, (ptr_release.mp hqn).2⟩
  · rw [mem_freed_release, not_or] at hf
    obtain ⟨q, hq, hqn⟩ := hk n hn hf.2
    refine ⟨q, hq, ptr_release.mpr ⟨fun h => hf.1 (h ▸ hqn), hqn⟩⟩

/-! ## Allocation -/

theorem ptr_malloc {ok : Bool} {q : ι} {n : ℕ} :
    (l.malloc p ok).ptr q = some n ↔ (q = p ∧ ok = true ∧ n = l.next) ∨ (q ≠ p ∧ l.ptr q = some n) := by
  cases ok <;> by_cases h : q = p
  all_goals simp [malloc, h, eq_comm]

theorem next_malloc {ok : Bool} : (l.malloc p ok).next = if ok then l.next + 1 else l.next := by
  cases ok <;> rfl

@[simp] theorem freed_malloc {ok : Bool} : (l.malloc p ok).freed = l.freed := by cases ok <;> rfl

theorem Lawful.malloc (hl : l.Lawful) (ok : Bool) : (l.malloc p ok).Lawful := by
  have hle : l.next ≤ (l.malloc p ok).next := by
    rw [next_malloc]
    split <;> omega
  refine ⟨fun q n h => ?_, fun q r n h h' => ?_, fun n hn => ?_, by simpa using hl.once⟩
  · rcases ptr_malloc.mp h with ⟨-, rfl, rfl⟩ | ⟨-, h⟩
    · rw [next_malloc, if_pos rfl]
      omega
    · exact Nat.lt_of_lt_of_le (hl.made q n h) hle
  · rcases ptr_malloc.mp h with ⟨hq, -, hn⟩ | ⟨-, hq⟩ <;> rcases ptr_malloc.mp h' with ⟨hr, -, hn'⟩ | ⟨-, hr⟩
    · rw [hq, hr]
    · exact absurd (hn ▸ hl.made r n hr) (Nat.lt_irrefl _)
    · exact absurd (hn' ▸ hl.made q n hq) (Nat.lt_irrefl _)
    · exact hl.apart q r n hq hr
  · rw [freed_malloc] at hn
    exact Nat.lt_of_lt_of_le (hl.freed_made n hn) hle

theorem unfreed_malloc (hl : l.Lawful) (ok : Bool) : (l.malloc p ok).Unfreed p := by
  intro n hn hf
  rw [freed_malloc] at hf
  rcases ptr_malloc.mp hn with ⟨-, -, rfl⟩ | ⟨hne, -⟩
  · exact absurd (hl.freed_made _ hf) (Nat.lt_irrefl _)
  · exact hne rfl

theorem Unfreed.malloc {q : ι} (hl : l.Lawful) (hq : l.Unfreed q) (ok : Bool) : (l.malloc p ok).Unfreed q := by
  by_cases h : q = p
  · subst h
    exact unfreed_malloc hl ok
  · intro n hn
    rw [freed_malloc]
    exact hq n ((ptr_malloc.mp hn).resolve_left fun hp => h hp.1).2

/-- Nothing is lost where the pointer was to no block in use. -/
theorem Kept.malloc {holds holds' : ι → Prop} (hk : l.Kept holds) (hp : ¬ l.Live p) (ok : Bool) (hp' : holds' p)
    (hh : ∀ q, q ≠ p → holds q → holds' q) : (l.malloc p ok).Kept holds' := by
  intro n hn hf
  rw [freed_malloc] at hf
  by_cases h : ok = true ∧ n = l.next
  · exact ⟨p, hp', ptr_malloc.mpr (.inl ⟨rfl, h⟩)⟩
  · have hlt : n < l.next := by
      rw [next_malloc] at hn
      split at hn
      · next hok => exact Nat.lt_of_le_of_ne (Nat.lt_succ_iff.mp hn) fun he => h ⟨hok, he⟩
      · exact hn
    obtain ⟨q, hq, hqn⟩ := hk n hlt hf
    have hne : q ≠ p := fun he => hp ⟨n, he ▸ hqn, hf⟩
    exact ⟨q, hh q hne hq, ptr_malloc.mpr (.inr ⟨hne, hqn⟩)⟩

end

end Ledger

end SabApp
