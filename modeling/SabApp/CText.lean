import Mathlib.Algebra.Group.Int.Defs
import Mathlib.Algebra.GroupWithZero.Nat
import Mathlib.Data.List.TakeWhile
import Mathlib.Tactic.Common

/-!
# Texts in C

A text is the list of its bytes before the terminator. A scan stops at the first byte that it
looks for, or at the terminator.
-/

namespace SabApp

namespace CText

/-- The bytes of an ASCII literal. -/
def ascii (s : String) : List UInt8 := s.toList.map fun c => UInt8.ofNat c.toNat

/-- No character of a literal is this byte. -/
def lacks (b : ℕ) (s : String) : Bool := s.toList.all fun c => !Nat.beq (c.toNat % 256) b

theorem not_mem_ascii {b : UInt8} {s : String} (h : lacks b.toNat s = true) : b ∉ ascii s := by
  intro hb
  obtain ⟨c, hc, rfl⟩ := List.mem_map.mp hb
  have hne := List.all_eq_true.mp h c hc
  rw [UInt8.toNat_ofNat', Nat.beq_refl] at hne
  cases hne

theorem no_quote_ascii (s : String) (h : lacks 34 s = true) : 34 ∉ ascii s := not_mem_ascii h

theorem no_zero_ascii (s : String) (h : lacks 0 s = true) : 0 ∉ ascii s := not_mem_ascii h

/-- Where a literal stands, its check is this by evaluation. -/
theorem checked : true = true := rfl

/-- The text that starts here. -/
def cstr (bs : List UInt8) : List UInt8 := bs.takeWhile (· ≠ 0)

theorem cstr_of_not_mem {s : List UInt8} (h : 0 ∉ s) : cstr s = s := by
  rw [cstr, List.takeWhile_eq_self_iff]
  intro c hc
  simpa using ne_of_mem_of_not_mem hc h

theorem cstr_append_zero {s : List UInt8} (h : 0 ∉ s) (t : List UInt8) : cstr (s ++ 0 :: t) = s := by
  have hs : ∀ c ∈ s, decide (c ≠ 0) = true := fun c hc => by simpa using ne_of_mem_of_not_mem hc h
  rw [cstr, List.takeWhile_append_of_pos hs, List.takeWhile_cons_of_neg (by simp), List.append_nil]

section Scan

variable {α : Type*} {stop : α → Bool}

theorem takeWhile_stop {p : α → Bool} {s t : List α} (hs : ∀ c ∈ s, p c = true) (ht : ∀ c u, t = c :: u → p c = false) :
    (s ++ t).takeWhile p = s := by
  rw [List.takeWhile_append_of_pos hs]
  cases t with
  | nil => simp
  | cons c u => rw [List.takeWhile_cons_of_neg (by simp [ht c u rfl]), List.append_nil]

theorem dropWhile_stop {p : α → Bool} {s t : List α} (hs : ∀ c ∈ s, p c = true) (ht : ∀ c u, t = c :: u → p c = false) :
    (s ++ t).dropWhile p = t := by
  rw [List.dropWhile_append_of_pos hs]
  cases t with
  | nil => rfl
  | cons c u => rw [List.dropWhile_cons_of_neg (by simp [ht c u rfl])]

/-- The stretch before the first stop. -/
def before (stop : α → Bool) (xs : List α) : List α := xs.takeWhile fun x => !stop x

/-- From the first stop on. -/
def after (stop : α → Bool) (xs : List α) : List α := xs.dropWhile fun x => !stop x

theorem before_append_after (stop : α → Bool) (xs : List α) : before stop xs ++ after stop xs = xs :=
  List.takeWhile_append_dropWhile

theorem not_stop_of_mem_before {xs : List α} {x : α} (h : x ∈ before stop xs) : stop x = false := by
  simpa using List.mem_takeWhile_imp h

theorem stop_of_after_cons {xs : List α} {c : α} {t : List α} (h : after stop xs = c :: t) :
    stop c = true := by
  induction xs with
  | nil => cases h
  | cons x xs ih =>
    by_cases hx : stop x = true
    · rw [after, List.dropWhile_cons_of_neg (by simp [hx])] at h
      cases h
      exact hx
    · rw [after, List.dropWhile_cons_of_pos (by simp [hx])] at h
      exact ih h

theorem before_block {s : List α} {c : α} (hs : ∀ x ∈ s, stop x = false) (hc : stop c = true)
    (t : List α) : before stop (s ++ c :: t) = s := by
  have hs' : ∀ x ∈ s, (!stop x) = true := fun x hx => by simp [hs x hx]
  rw [before, List.takeWhile_append_of_pos hs', List.takeWhile_cons_of_neg (by simp [hc]), List.append_nil]

/-- The same at the end of the text. -/
theorem before_append {s t : List α} (hs : ∀ x ∈ s, stop x = false) (ht : ∀ c u, t = c :: u → stop c = true) :
    before stop (s ++ t) = s := by
  exact takeWhile_stop (fun c hc => by rw [hs c hc]; rfl) fun c u hu => by rw [ht c u hu]; rfl

theorem after_block {s : List α} {c : α} (hs : ∀ x ∈ s, stop x = false) (hc : stop c = true)
    (t : List α) : after stop (s ++ c :: t) = c :: t := by
  have hs' : ∀ x ∈ s, (!stop x) = true := fun x hx => by simp [hs x hx]
  rw [after, List.dropWhile_append_of_pos hs', List.dropWhile_cons_of_neg (by simp [hc])]

end Scan

section Search

variable {α : Type*} [DecidableEq α] {needle hay rest s t : List α} {c : α}

/-- `strstr`: the text from the first place on where the needle stands. -/
def strstr (needle : List α) : List α → Option (List α)
  | [] => if needle = [] then some [] else none
  | c :: cs => if needle.isPrefixOf (c :: cs) then some (c :: cs) else strstr needle cs

/-- `rest` stands behind the first place of the needle. -/
def FirstAt (needle hay rest : List α) : Prop :=
  ∃ a, hay = a ++ (needle ++ rest) ∧ ∀ a' rest', hay = a' ++ (needle ++ rest') → a.length ≤ a'.length

theorem strstr_prefix (needle rest : List α) : strstr needle (needle ++ rest) = some (needle ++ rest) := by
  cases h : needle ++ rest with
  | nil =>
    obtain ⟨rfl, -⟩ := List.append_eq_nil_iff.mp h
    rfl
  | cons c cs =>
    have hp : needle.isPrefixOf (c :: cs) = true := List.isPrefixOf_iff_prefix.mpr ⟨rest, h⟩
    rw [strstr, if_pos hp]

theorem strstr_cons_ne (h : ¬needle <+: c :: t) : strstr needle (c :: t) = strstr needle t := by
  rw [strstr, if_neg fun hp => h (List.isPrefixOf_iff_prefix.mp hp)]

/-- The search passes over what does not hold the needle's first element. -/
theorem strstr_append_of_not_mem (h : c ∉ s) (t : List α) : strstr (c :: needle) (s ++ t) = strstr (c :: needle) t := by
  induction s with
  | nil => rfl
  | cons x s ih =>
    rw [List.mem_cons, not_or] at h
    rw [List.cons_append, strstr_cons_ne, ih h.2]
    rintro ⟨u, hu⟩
    exact h.1 (List.cons.inj hu).1

/-- The search passes over a text without the needle, up to an element that the needle may only begin with. -/
theorem strstr_append_stop (hs : strstr (c :: needle) s = none) {d : α} (hd : d ∉ needle) (t : List α) :
    strstr (c :: needle) (s ++ d :: t) = strstr (c :: needle) (d :: t) := by
  induction s with
  | nil => rfl
  | cons x s ih =>
    have hx : ¬ c :: needle <+: x :: s := by
      intro hp
      rw [strstr, if_pos (List.isPrefixOf_iff_prefix.mpr hp)] at hs
      cases hs
    rw [strstr_cons_ne hx] at hs
    rw [List.cons_append, strstr_cons_ne, ih hs]
    rintro ⟨u, hu⟩
    have hcons := (List.cons.inj hu).2
    rw [List.cons.inj hu |>.1] at hx
    rcases List.append_eq_append_iff.mp hcons with ⟨a, ha, -⟩ | ⟨a, ha, hb⟩
    · exact hx ⟨a, by rw [List.cons_append, ← ha]⟩
    · cases a with
      | nil => exact hx ⟨[], by rw [List.append_nil, ha, List.append_nil]⟩
      | cons y a =>
        rw [(List.cons.inj hb).1, ha] at hd
        simp at hd

theorem strstr_isSome_append (h : (strstr needle t).isSome) (s : List α) : (strstr needle (s ++ t)).isSome := by
  induction s with
  | nil => exact h
  | cons x s ih =>
    rw [List.cons_append, strstr]
    split
    · rfl
    · exact ih

theorem eq_of_append_stop {n p t w : List α} (hn : c ∉ n) (hp : c ∉ p) (h : n ++ c :: t = p ++ c :: w) : n = p := by
  have hne : ∀ {s : List α}, c ∉ s → ∀ x ∈ s, decide (x = c) = false :=
    fun h x hx => decide_eq_false (ne_of_mem_of_not_mem hx h)
  have hb := congrArg (before (· = c)) h
  rwa [before_block (hne hn) (decide_eq_true rfl), before_block (hne hp) (decide_eq_true rfl)] at hb

/-- Between two marks stands the name that is looked for, or the search goes on at the second mark. -/
theorem strstr_marked {n p : List α} (hn : c ∉ n) (hp : c ∉ p) (w : List α) :
    strstr (c :: (n ++ [c])) (c :: (p ++ c :: w)) =
      if p = n then some (c :: (p ++ c :: w)) else strstr (c :: (n ++ [c])) (c :: w) := by
  by_cases h : p = n
  · rw [if_pos h, h]
    have := strstr_prefix (c :: (n ++ [c])) w
    simpa using this
  · rw [if_neg h, strstr_cons_ne, strstr_append_of_not_mem hp]
    rintro ⟨t, ht⟩
    have hbody : n ++ c :: t = p ++ c :: w := by simpa using ht
    exact h (eq_of_append_stop hn hp hbody).symm

theorem firstAt_of_strstr {found : List α} (h : strstr needle hay = some found) :
    ∃ rest, found = needle ++ rest ∧ FirstAt needle hay rest := by
  induction hay with
  | nil =>
    rw [strstr] at h
    split at h
    · rename_i hn
      cases h
      exact ⟨[], by simp [hn], [], by simp [hn], by simp⟩
    · cases h
  | cons c cs ih =>
    by_cases hp : needle <+: c :: cs
    · obtain ⟨rest, hr⟩ := hp
      rw [← hr, strstr_prefix] at h
      cases h
      exact ⟨rest, rfl, [], by simp [hr], by simp⟩
    · rw [strstr_cons_ne hp] at h
      obtain ⟨rest, hfound, a, ha, hfirst⟩ := ih h
      refine ⟨rest, hfound, c :: a, by rw [ha]; rfl, fun a' rest' h' => ?_⟩
      cases a' with
      | nil => exact absurd ⟨rest', h'.symm⟩ hp
      | cons x a' => exact Nat.succ_le_succ (hfirst a' rest' (List.cons.inj h').2)

theorem FirstAt.strstr (h : FirstAt needle hay rest) : strstr needle hay = some (needle ++ rest) := by
  induction hay with
  | nil =>
    obtain ⟨a, ha, -⟩ := h
    obtain ⟨-, h₀⟩ := List.append_eq_nil_iff.mp ha.symm
    rw [h₀, CText.strstr, if_pos (List.append_eq_nil_iff.mp h₀).1]
  | cons c cs ih =>
    obtain ⟨a, ha, hfirst⟩ := h
    cases a with
    | nil => rw [ha, List.nil_append, strstr_prefix]
    | cons x a =>
      have hcs : cs = a ++ (needle ++ rest) := (List.cons.inj ha).2
      rw [strstr_cons_ne, ih ⟨a, hcs, fun a' r' h' => ?_⟩]
      · have := hfirst (c :: a') r' (by rw [h']; rfl)
        exact Nat.le_of_succ_le_succ this
      · rintro ⟨u, hu⟩
        have := hfirst [] u (by rw [hu]; rfl)
        simp at this

end Search

end CText

end SabApp
