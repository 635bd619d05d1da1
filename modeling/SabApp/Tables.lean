import Mathlib.Data.List.Nodup
import Mathlib.Data.List.Induction
import Mathlib.Tactic.Common

/-!
# Tables of bounded size

A table holds at most `cap` entries; a write behind the last place is `none`. `addNew` goes
through a list and adds what the table does not hold yet, until the table is full. It never
writes behind the table, and for plain equality it computes the first `cap` elements of the
list without repetitions.
-/

namespace SabApp

structure Table (cap : ℕ) (α : Type*) where
  entries : List α
  num_le : entries.length ≤ cap

namespace Table

variable {cap : ℕ} {α : Type*}

def empty : Table cap α := ⟨[], Nat.zero_le cap⟩

def num (t : Table cap α) : ℕ := t.entries.length

/-- The write at index `num`. -/
def push (t : Table cap α) (a : α) : Option (Table cap α) :=
  if h : t.num < cap then some ⟨t.entries ++ [a], by simpa [num] using Nat.succ_le_of_lt h⟩ else none

def mapEntries (t : Table cap α) (f : α → α) : Table cap α := ⟨t.entries.map f, by simpa using t.num_le⟩

@[simp] theorem entries_empty : (empty : Table cap α).entries = [] := rfl

@[simp] theorem entries_mapEntries (t : Table cap α) (f : α → α) : (t.mapEntries f).entries = t.entries.map f := rfl

theorem push_of_lt {t : Table cap α} (h : t.num < cap) (a : α) :
    ∃ u, t.push a = some u ∧ u.entries = t.entries ++ [a] := ⟨_, dif_pos h, rfl⟩

section AddNew

variable (same : α → α → Bool)

/-- Whether the search for `a` runs to the end of the table. -/
def misses (t : Table cap α) (a : α) : Bool := t.entries.findIdx (same · a) = t.num

def addNew (t : Table cap α) : List α → Option (Table cap α)
  | [] => some t
  | a :: as =>
    if cap ≤ t.num then some t
    else if t.misses same a then (t.push a).bind fun u => u.addNew as
    else t.addNew as

variable {same}

theorem misses_iff {t : Table cap α} {a : α} : t.misses same a = true ↔ ∀ e ∈ t.entries, same e a = false := by
  simp [misses, num, List.findIdx_eq_length]

theorem addNew_full {t : Table cap α} (h : cap ≤ t.num) : ∀ as, t.addNew same as = some t
  | [] => rfl
  | _ :: _ => by rw [addNew, if_pos h]

theorem addNew_skip {t : Table cap α} {a : α} (h : ∃ e ∈ t.entries, same e a = true) (as : List α) :
    t.addNew same (a :: as) = t.addNew same as := by
  by_cases hf : cap ≤ t.num
  · rw [addNew_full hf, addNew_full hf]
  · have hm : ¬ t.misses same a = true := by
      rw [misses_iff]
      intro hn
      obtain ⟨e, he, hs⟩ := h
      simp [hn e he] at hs
    rw [addNew, if_neg hf, if_neg hm]

theorem addNew_push {t : Table cap α} {a : α} (hl : t.num < cap) (h : ∀ e ∈ t.entries, same e a = false)
    (as : List α) : ∃ u : Table cap α, t.addNew same (a :: as) = u.addNew same as ∧ u.entries = t.entries ++ [a] := by
  obtain ⟨u, hu, he⟩ := push_of_lt hl a
  exact ⟨u, by rw [addNew, if_neg (Nat.not_le.mpr hl), if_pos (misses_iff.mpr h), hu]; rfl, he⟩

/-- What `addNew` makes of a table. -/
structure Added (same : α → α → Bool) (t : Table cap α) (as : List α) (u : Table cap α) : Prop where
  kept : ∀ e ∈ t.entries, e ∈ u.entries
  origin : ∀ e ∈ u.entries, e ∈ t.entries ∨ e ∈ as
  found : ∀ a ∈ as, (∃ e ∈ u.entries, same e a = true) ∨ u.num = cap

theorem addNew_added (hrefl : ∀ a, same a a = true) (as : List α) : ∀ t : Table cap α,
    ∃ u : Table cap α, t.addNew same as = some u ∧ Added same t as u := by
  induction as with
  | nil => exact fun t => ⟨t, rfl, fun e he => he, fun e he => .inl he, fun a ha => by cases ha⟩
  | cons a as ih =>
    intro t
    by_cases hf : cap ≤ t.num
    · exact ⟨t, addNew_full hf _, fun e he => he, fun e he => .inl he,
        fun _ _ => .inr (Nat.le_antisymm t.num_le hf)⟩
    by_cases hs : ∃ e ∈ t.entries, same e a = true
    · obtain ⟨u, hu, hk, ho, hd⟩ := ih t
      refine ⟨u, (addNew_skip hs as).trans hu, hk, fun e he => ?_, fun b hb => ?_⟩
      · exact (ho e he).imp_right (List.mem_cons_of_mem a)
      · cases hb with
        | head =>
          obtain ⟨e, he, hea⟩ := hs
          exact .inl ⟨e, hk e he, hea⟩
        | tail _ hb => exact hd b hb
    · have hn : ∀ e ∈ t.entries, same e a = false := fun e he => by
        by_contra hc
        exact hs ⟨e, he, by simpa using hc⟩
      obtain ⟨v, hv, hve⟩ := addNew_push (Nat.not_le.mp hf) hn as
      obtain ⟨u, hu, hk, ho, hd⟩ := ih v
      refine ⟨u, hv.trans hu, fun e he => hk e (by simp [hve, he]), fun e he => ?_, fun b hb => ?_⟩
      · have h := ho e he
        simp only [hve, List.mem_append, List.mem_singleton] at h
        simp only [List.mem_cons]
        exact (or_assoc.mp h)
      · cases hb with
        | head => exact .inl ⟨a, hk a (by simp [hve]), hrefl a⟩
        | tail _ hb => exact hd b hb

end AddNew

section Equality

variable [DecidableEq α]

theorem eraseDups_snoc_of_mem {l : List α} {a : α} (h : a ∈ l) : (l ++ [a]).eraseDups = l.eraseDups := by
  simp [List.eraseDups_append, List.removeAll, h]

theorem eraseDups_snoc_of_not_mem {l : List α} {a : α} (h : a ∉ l) :
    (l ++ [a]).eraseDups = l.eraseDups ++ [a] := by
  simp [List.eraseDups_append, List.removeAll, h, List.eraseDups_cons]

theorem nodup_eraseDups (l : List α) : l.eraseDups.Nodup := by
  induction l using List.reverseRecOn with
  | nil => simp
  | append_singleton l a ih =>
    by_cases h : a ∈ l
    · rwa [eraseDups_snoc_of_mem h]
    · rw [eraseDups_snoc_of_not_mem h, ← List.concat_eq_append]
      exact List.Nodup.concat (by simpa using h) ih

/-- The table after a merge of `l`. -/
def IsMerge (l : List α) (t : Table cap α) : Prop := t.entries = l.eraseDups.take cap

theorem isMerge_empty : IsMerge [] (empty : Table cap α) := by simp [IsMerge]

theorem IsMerge.full {l : List α} {t : Table cap α} (h : IsMerge l t) (hf : cap ≤ t.num) (k : List α) :
    IsMerge (l ++ k) t := by
  have hl : cap ≤ l.eraseDups.length := by
    rw [num, h, List.length_take] at hf
    exact Nat.le_trans hf (Nat.min_le_right _ _)
  rw [IsMerge, List.eraseDups_append, List.take_append_of_le_length hl]
  exact h

theorem IsMerge.room {l : List α} {t : Table cap α} (h : IsMerge l t) (hl : t.num < cap) :
    t.entries = l.eraseDups := by
  rw [num, h, List.length_take] at hl
  rw [h]
  exact List.take_of_length_le (by omega)

/-- **Merging.** For equality `addNew` keeps the first of the elements that repeat. -/
theorem IsMerge.addNew {l : List α} {t : Table cap α} (h : IsMerge l t) (as : List α) :
    ∃ u : Table cap α, t.addNew (· == ·) as = some u ∧ IsMerge (l ++ as) u := by
  induction as generalizing l t with
  | nil => exact ⟨t, rfl, by simpa using h⟩
  | cons a as ih =>
    rw [List.append_cons]
    by_cases hf : cap ≤ t.num
    · exact ⟨t, addNew_full hf _, by simpa using h.full hf (a :: as)⟩
    have he := h.room (Nat.not_le.mp hf)
    by_cases ha : a ∈ l
    · rw [addNew_skip ⟨a, by simp [he, List.mem_eraseDups, ha], by simp⟩]
      exact ih (by rw [IsMerge, eraseDups_snoc_of_mem ha]; exact h)
    · have hn : ∀ e ∈ t.entries, (e == a) = false := fun e hm => by
        rw [he, List.mem_eraseDups] at hm
        simpa using ne_of_mem_of_not_mem hm ha
      obtain ⟨u, hu, hue⟩ := addNew_push (Nat.not_le.mp hf) hn as
      rw [hu]
      refine ih ?_
      rw [IsMerge, eraseDups_snoc_of_not_mem ha, ← he, List.take_of_length_le (hue ▸ u.num_le)]
      exact hue

theorem IsMerge.nodup {l : List α} {t : Table cap α} (h : IsMerge l t) : t.entries.Nodup := by
  rw [h]
  exact (nodup_eraseDups l).sublist (List.take_sublist _ _)

theorem IsMerge.mem_or_full {l : List α} {t : Table cap α} (h : IsMerge l t) {a : α} (ha : a ∈ l) :
    a ∈ t.entries ∨ t.num = cap := by
  by_cases hf : cap ≤ t.num
  · exact .inr (Nat.le_antisymm t.num_le hf)
  · rw [h.room (Nat.not_le.mp hf), List.mem_eraseDups]
    exact .inl ha

end Equality

end Table

end SabApp
