import Mathlib.Data.List.Basic
import Mathlib.Tactic.Common

/-!
# Frames in a stream

Frames of a type `F` are written one after the other as `bytes f`. A reader holds the first
part of what is left of the stream; the frame in front either lies wholly in what it holds, and then
comes off as a block, or does not. Two ways of cutting a stream are compared by the lengths before
the cuts.
-/

namespace SabApp

section
variable {F α : Type*} (bytes : F → List α)

/-- The stream of the frames. -/
def cat (fs : List F) : List α := fs.flatMap bytes

@[simp] theorem cat_nil : cat bytes [] = [] := rfl

@[simp] theorem cat_cons (f : F) (fs : List F) : cat bytes (f :: fs) = bytes f ++ cat bytes fs := List.flatMap_cons

@[simp] theorem cat_append (fs gs : List F) : cat bytes (fs ++ gs) = cat bytes fs ++ cat bytes gs :=
  List.flatMap_append

theorem cat_snoc (fs : List F) (f : F) : cat bytes (fs ++ [f]) = cat bytes fs ++ bytes f := by simp

variable {bytes}

/-- A frame that is held as a whole comes off the front. -/
theorem split_front {held more : List α} {f : F} {fs : List F} (h : held ++ more = cat bytes (f :: fs))
    (hl : (bytes f).length ≤ held.length) : ∃ r, held = bytes f ++ r ∧ r ++ more = cat bytes fs := by
  rw [cat_cons] at h
  rcases List.append_eq_append_iff.mp h with ⟨r, hf, hm⟩ | ⟨r, hh, ht⟩
  · have hr : r = [] := by
      have hlen := congrArg List.length hf
      rw [List.length_append] at hlen
      exact List.length_eq_zero_iff.mp (by omega)
    subst hr
    exact ⟨[], by simp [hf], by simp [hm]⟩
  · exact ⟨r, hh, ht.symm⟩

/-- What is held of a stream that starts with a frame. -/
theorem take_front {held more : List α} {f : F} {fs : List F} (h : held ++ more = cat bytes (f :: fs)) {n : ℕ}
    (hn : n ≤ held.length) (hf : n ≤ (bytes f).length) : held.take n = (bytes f).take n := by
  rw [cat_cons] at h
  rw [← List.take_append_of_le_length hn, h, List.take_append_of_le_length hf]

/-- No cut between frames lies inside a frame. -/
theorem no_cut_inside {fp fr gp gr : List F} {f : F} (h : fp ++ fr = gp ++ f :: gr) {n : ℕ} (hn : 0 < n)
    (hlt : n < (bytes f).length) : (cat bytes fp).length ≠ (cat bytes gp).length + n := by
  intro he
  rcases List.append_eq_append_iff.mp h with ⟨r, rfl, _⟩ | ⟨r, rfl, hr⟩
  · rw [cat_append, List.length_append] at he
    omega
  · cases r with
    | nil => simp at he; omega
    | cons g r =>
      cases hr
      simp only [cat_append, cat_cons, List.length_append] at he
      omega

/-- How far a stream is: the pieces received are the frames done and what is held. -/
theorem received_length {P : Type*} {data : P → List α} {fs fpre frest : List F} {ps ppre prest : List P}
    (hcut : cat data ps = cat bytes fs) {held : List α} (hf : fs = fpre ++ frest) (hp : ps = ppre ++ prest)
    (hr : held ++ cat data prest = cat bytes frest) :
    (cat data ppre).length = (cat bytes fpre).length + held.length := by
  rw [hf, hp, cat_append, cat_append] at hcut
  have h1 := congrArg List.length hcut
  have h2 := congrArg List.length hr
  simp only [List.length_append] at h1 h2
  omega

/-- Nothing is held of a stream without frames. -/
theorem held_nil {held more : List α} (h : held ++ more = cat bytes []) : held.length = 0 := by
  rw [cat_nil] at h
  rw [(List.append_eq_nil_iff.mp h).1, List.length_nil]

end

end SabApp
