import Mathlib.Logic.Function.Basic
import Mathlib.Tactic.Common

/-!
# Components that share a value

Components with states of their own take turns on events and read and change one shared value. A
component's reaction depends on the shared value through a view of it. In an interleaved run
each component reacts as it does alone exactly when each of its steps has the
view it has alone, if reactions to different views differ (`projected_iff`).
-/

namespace SabApp

/-- What a step of component `i` on an event does to the shared value, what it sees of it, and how
it reacts. -/
structure Sharing (ι σ π ε β ρ : Type*) where
  tick : ι → ε → σ → σ
  view : ι → ε → σ → β
  act : ι → ε → β → π → π × ρ

namespace Sharing

variable {ι σ π ε β ρ : Type*} [DecidableEq ι] (m : Sharing ι σ π ε β ρ)

/-- The reactions of the components to an interleaving of their events. -/
def run : σ → (ι → π) → List (ι × ε) → List (ι × ρ)
  | _, _, [] => []
  | s, p, (i, e) :: es =>
    (i, (m.act i e (m.view i e s) (p i)).2) ::
      run (m.tick i e s) (Function.update p i (m.act i e (m.view i e s) (p i)).1) es

/-- The reactions of one component alone. -/
def alone (i : ι) : σ → π → List ε → List ρ
  | _, _, [] => []
  | s, p, e :: es => (m.act i e (m.view i e s) p).2 :: alone i (m.tick i e s) (m.act i e (m.view i e s) p).1 es

/-- The part of one component. -/
def part {τ : Type*} (i : ι) (xs : List (ι × τ)) : List τ := (xs.filter fun x => x.1 = i).map Prod.snd

/-- Every step has the view that its component has alone; `o` are the values the components left alone have
reached. -/
def Agrees : σ → (ι → σ) → List (ι × ε) → Prop
  | _, _, [] => True
  | s, o, (i, e) :: es =>
    m.view i e s = m.view i e (o i) ∧ Agrees (m.tick i e s) (Function.update o i (m.tick i e (o i))) es

section Part

variable {τ : Type*} (i j : ι) (x : τ) (xs : List (ι × τ))

@[simp] theorem part_cons_self : part i ((i, x) :: xs) = x :: part i xs := by simp [part]

theorem part_cons_of_ne (h : j ≠ i) : part i ((j, x) :: xs) = part i xs := by simp [part, h]

end Part

instance decidableAgrees [DecidableEq β] : ∀ (s : σ) (o : ι → σ) (es : List (ι × ε)), Decidable (m.Agrees s o es)
  | _, _, [] => isTrue trivial
  | s, o, (i, e) :: es =>
    have := decidableAgrees (m.tick i e s) (Function.update o i (m.tick i e (o i))) es
    inferInstanceAs (Decidable (_ ∧ _))

/-- Another component's event leaves a component's part and what it does alone as they are. -/
theorem rest_iff (s : σ) (o : ι → σ) (p : ι → π) (i : ι) (e : ε) (es : List (ι × ε))
    (hv : m.view i e s = m.view i e (o i)) :
    (∀ j, part j (m.run s p ((i, e) :: es)) = m.alone j (o j) (p j) (part j ((i, e) :: es))) ↔
      ∀ j, part j (m.run (m.tick i e s) (Function.update p i (m.act i e (m.view i e s) (p i)).1) es) =
        m.alone j (Function.update o i (m.tick i e (o i)) j)
          (Function.update p i (m.act i e (m.view i e s) (p i)).1 j) (part j es) := by
  refine forall_congr' fun j => ?_
  by_cases hj : j = i
  · subst hj
    simp [run, alone, hv]
  · rw [run, part_cons_of_ne _ _ _ _ (Ne.symm hj), part_cons_of_ne _ _ _ _ (Ne.symm hj), Function.update_of_ne hj,
      Function.update_of_ne hj]

theorem run_part (i : ι) : ∀ (es : List (ι × ε)) (s : σ) (p : ι → π),
    part i (m.run s p (es.filter fun x => x.1 = i)) = m.alone i s (p i) (part i es)
  | [], _, _ => rfl
  | (j, e) :: es, s, p => by
    by_cases hj : j = i
    · subst hj
      rw [List.filter_cons_of_pos (by simp), run, part_cons_self, run_part j es, part_cons_self, alone,
        Function.update_self]
    · rw [List.filter_cons_of_neg (by simpa using hj), run_part i es, part_cons_of_ne _ _ _ _ hj]

/-- **Independence.** -/
theorem projected_iff (hd : ∀ i e p s t, (m.act i e (m.view i e s) p).2 = (m.act i e (m.view i e t) p).2 →
      m.view i e s = m.view i e t) (es : List (ι × ε)) : ∀ (s : σ) (o : ι → σ) (p : ι → π),
    (∀ i, part i (m.run s p es) = m.alone i (o i) (p i) (part i es)) ↔ m.Agrees s o es := by
  induction es with
  | nil => exact fun s o p => ⟨fun _ => trivial, fun _ _ => rfl⟩
  | cons x es ih =>
    obtain ⟨i, e⟩ := x
    intro s o p
    constructor
    · intro h
      have hv : m.view i e s = m.view i e (o i) := by
        have hi := h i
        simp only [run, part_cons_self, alone, List.cons.injEq] at hi
        exact hd i e (p i) s (o i) hi.1
      exact ⟨hv, (ih _ _ _).mp ((m.rest_iff s o p i e es hv).mp h)⟩
    · rintro ⟨hv, h⟩
      exact (m.rest_iff s o p i e es hv).mpr ((ih _ _ _).mpr h)

/-- Views that do not depend on the shared value always agree. -/
theorem agrees_of_const (hc : ∀ i e s t, m.view i e s = m.view i e t) : ∀ (es : List (ι × ε)) (s : σ) (o : ι → σ),
    m.Agrees s o es
  | [], _, _ => trivial
  | (i, e) :: es, _, _ => ⟨hc i e _ _, agrees_of_const hc es _ _⟩

/-- A component whose value the others do not move keeps the value it has alone, and if they do not look, all
views agree. -/
theorem agrees_of_only (i : ι) (ht : ∀ j e s, j ≠ i → m.tick j e s = s)
    (hv : ∀ j e s t, j ≠ i → m.view j e s = m.view j e t) : ∀ (es : List (ι × ε)) (s : σ) (o : ι → σ), o i = s →
    m.Agrees s o es
  | [], _, _, _ => trivial
  | (j, e) :: es, s, o, ho => by
    by_cases hj : j = i
    · subst hj
      exact ⟨by rw [ho], agrees_of_only j ht hv es _ _ (by rw [Function.update_self, ho])⟩
    · refine ⟨hv j e s (o j) hj, agrees_of_only i ht hv es _ _ ?_⟩
      rw [Function.update_of_ne (Ne.symm hj), ho, ht j e s hj]

end Sharing

end SabApp
