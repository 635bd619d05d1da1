import Mathlib.Data.List.Basic
import Mathlib.Tactic.Common

/-!
# Runs of a partial step function

A run is a list of actions; `step s a = none` means the action aborts. `Meets ok`
says every action of a run is taken in a state that allows it. An invariant kept
by every allowed action holds after every run that meets `ok` (`exec_of_meets`),
and where a forbidden action breaks the property at once, the runs whose states
all have the property are exactly those that meet `ok` (`always_iff_meets`).
-/

namespace SabApp

section
variable {σ α : Type*} (step : σ → α → Option σ)

def exec : σ → List α → Option σ
  | s, [] => some s
  | s, a :: as => (step s a).bind fun t => exec t as

def Meets (ok : σ → α → Prop) : σ → List α → Prop
  | _, [] => True
  | s, a :: as => ok s a ∧ ∀ t, step s a = some t → Meets ok t as

/-- Every state a run passes through is reached and has the property. -/
def Always (P : σ → Prop) (s : σ) (as : List α) : Prop :=
  ∀ bs, bs <+: as → ∃ t, exec step s bs = some t ∧ P t

/-- Every state a run reaches before it aborts, if it does, has the property. -/
def Reached (P : σ → Prop) (s : σ) (as : List α) : Prop :=
  ∀ bs t, bs <+: as → exec step s bs = some t → P t

variable {step}

@[simp] theorem exec_nil (s : σ) : exec step s [] = some s := rfl

theorem exec_cons (s : σ) (a : α) (as : List α) :
    exec step s (a :: as) = (step s a).bind fun t => exec step t as := rfl

theorem exec_append (s : σ) : ∀ (as bs : List α),
    exec step s (as ++ bs) = (exec step s as).bind fun t => exec step t bs
  | [], _ => rfl
  | a :: as, bs => by
    rw [List.cons_append, exec_cons, exec_cons, Option.bind_assoc]
    exact congrArg _ (funext fun t => exec_append t as bs)

theorem exec_singleton (s : σ) (a : α) : exec step s [a] = step s a := by
  rw [exec_cons]; cases step s a <;> rfl

theorem exec_append_of {s t : σ} {as : List α} (h : exec step s as = some t) (bs : List α) :
    exec step s (as ++ bs) = exec step t bs := by
  rw [exec_append, h]; rfl

theorem meets_initial {ok : σ → α → Prop} : ∀ {s : σ} {bs as : List α}, bs <+: as → Meets step ok s as →
    Meets step ok s bs
  | _, [], _, _, _ => trivial
  | _, b :: bs, _, ⟨cs, rfl⟩, h => ⟨h.1, fun t ht => meets_initial ⟨cs, rfl⟩ (h.2 t ht)⟩

/-- The last action of a run. -/
theorem Meets.last {ok : σ → α → Prop} {s t : σ} {as : List α} {a : α} (h : Meets step ok s (as ++ [a]))
    (ht : exec step s as = some t) : ok t a := by
  induction as generalizing s with
  | nil => cases ht; exact h.1
  | cons b bs ih =>
    obtain ⟨u, hu, hbs⟩ := Option.bind_eq_some_iff.mp ht
    exact ih (h.2 u hu) hbs

theorem Meets.cons {ok : σ → α → Prop} {s t : σ} {a : α} {as : List α} (ha : ok s a) (hs : step s a = some t)
    (h : Meets step ok t as) : Meets step ok s (a :: as) := by
  refine ⟨ha, fun u hu => ?_⟩
  rw [hs] at hu
  cases hu
  exact h

instance decidableMeets {ok : σ → α → Prop} [∀ s a, Decidable (ok s a)] : ∀ (s : σ) (as : List α),
    Decidable (Meets step ok s as)
  | _, [] => isTrue trivial
  | s, a :: as =>
    match h : step s a with
    | none => decidable_of_iff (ok s a) ⟨fun ha => ⟨ha, fun t ht => by rw [h] at ht; cases ht⟩, And.left⟩
    | some t =>
      have : Decidable (Meets step ok t as) := decidableMeets t as
      decidable_of_iff (ok s a ∧ Meets step ok t as)
        ⟨fun ⟨ha, hm⟩ => hm.cons ha h, fun hm => ⟨hm.1, hm.2 t h⟩⟩

section
variable {I : σ → Prop} {ok : σ → α → Prop}

/-- **Guarded runs.** What every allowed action keeps holds after every allowed run. -/
theorem exec_of_meets (hstep : ∀ s a, I s → ok s a → ∃ t, step s a = some t ∧ I t) :
    ∀ {s : σ} {as : List α}, I s → Meets step ok s as → ∃ t, exec step s as = some t ∧ I t
  | s, [], hs, _ => ⟨s, rfl, hs⟩
  | s, a :: as, hs, h => by
    obtain ⟨t, ht, hi⟩ := hstep s a hs h.1
    obtain ⟨u, hu, hj⟩ := exec_of_meets hstep hi (h.2 t ht)
    exact ⟨u, by rw [exec_cons, ht]; exact hu, hj⟩

theorem always_of_meets (hstep : ∀ s a, I s → ok s a → ∃ t, step s a = some t ∧ I t) {P : σ → Prop}
    (hP : ∀ s, I s → P s) {s : σ} {as : List α} (hs : I s) (h : Meets step ok s as) : Always step P s as := by
  intro bs hb
  obtain ⟨t, ht, hi⟩ := exec_of_meets hstep hs (meets_initial hb h)
  exact ⟨t, ht, hP t hi⟩

/-- **Sharp guards.** If a forbidden action aborts or breaks `P`, then `P` holds all along a run
exactly when the run is allowed. -/
theorem always_iff_meets (hstep : ∀ s a, I s → ok s a → ∃ t, step s a = some t ∧ I t) {P : σ → Prop}
    (hP : ∀ s, I s → P s) (hbad : ∀ s a t, I s → ¬ ok s a → step s a = some t → ¬ P t) {s : σ}
    {as : List α} (hs : I s) : Always step P s as ↔ Meets step ok s as := by
  refine ⟨fun h => ?_, always_of_meets hstep hP hs⟩
  induction as generalizing s with
  | nil => trivial
  | cons a as ih =>
    obtain ⟨t, ht, hp⟩ := h [a] ⟨as, rfl⟩
    have ha : step s a = some t := by
      cases hsa : step s a with
      | none => simp [exec_cons, hsa] at ht
      | some u => simpa [exec_cons, hsa] using ht
    have hok : ok s a := Classical.byContradiction fun hn => hbad s a t hs hn ha hp
    obtain ⟨t', ht', hi⟩ := hstep s a hs hok
    refine ⟨hok, fun u hu => ?_⟩
    have hut : t' = u := Option.some.inj (ht'.symm.trans hu)
    subst hut
    refine ih hi fun bs hb => ?_
    obtain ⟨v, hv, hpv⟩ := h (a :: bs) (by obtain ⟨cs, rfl⟩ := hb; exact ⟨cs, rfl⟩)
    exact ⟨v, by rw [exec_cons, hu] at hv; exact hv, hpv⟩

theorem reached_of_meets (hstep : ∀ s a t, I s → ok s a → step s a = some t → I t) {P : σ → Prop}
    (hP : ∀ s, I s → P s) {s : σ} {as : List α} (hs : I s) (h : Meets step ok s as) : Reached step P s as := by
  intro bs
  induction bs generalizing s as with
  | nil => intro t _ ht; cases ht; exact hP s hs
  | cons b bs ih =>
    rintro t ⟨cs, rfl⟩ ht
    cases hsb : step s b with
    | none => simp [exec_cons, hsb] at ht
    | some u =>
      rw [exec_cons, hsb] at ht
      exact ih (hstep s b u hs h.1 hsb) (h.2 u hsb) t ⟨cs, rfl⟩ ht

/-- Two conditions that agree where the invariant holds are met by the same runs. -/
theorem meets_iff_meets {P : σ → α → Prop} (hstep : ∀ s a t, I s → ok s a → step s a = some t → I t)
    (hP : ∀ s a, I s → (P s a ↔ ok s a)) : ∀ {s : σ} {as : List α}, I s → (Meets step P s as ↔ Meets step ok s as)
  | _, [], _ => Iff.rfl
  | s, a :: as, hs => by
    refine and_congr_right_iff.mpr ?_ |> (and_congr_left' (hP s a hs)).trans
    intro hok
    exact forall_congr' fun t => forall_congr' fun ht => meets_iff_meets hstep hP (hstep s a t hs hok ht)

/-- What is allowed has the property, wherever allowed actions lead. -/
theorem meets_of_meets {P : σ → α → Prop} (hstep : ∀ s a t, I s → ok s a → step s a = some t → I t)
    (hP : ∀ s a, I s → ok s a → P s a) : ∀ {s : σ} {as : List α}, I s → Meets step ok s as → Meets step P s as
  | _, [], _, _ => trivial
  | s, a :: _, hs, h => ⟨hP s a hs h.1, fun t ht => meets_of_meets hstep hP (hstep s a t hs h.1 ht) (h.2 t ht)⟩

theorem meets_true : ∀ (s : σ) (as : List α), Meets step (fun _ _ => True) s as
  | _, [] => trivial
  | _, _ :: as => ⟨trivial, fun t _ => meets_true t as⟩

/-- What every action keeps holds at every state reached. -/
theorem reached_of_inv (hstep : ∀ s a t, I s → step s a = some t → I t) {P : σ → Prop}
    (hP : ∀ s, I s → P s) {s : σ} (hs : I s) (as : List α) : Reached step P s as :=
  reached_of_meets (fun s a t hi _ => hstep s a t hi) hP hs (meets_true s as)

/-- Sharp guards, for runs that may abort. -/
theorem reached_iff_meets (hstep : ∀ s a t, I s → ok s a → step s a = some t → I t) {P : σ → Prop}
    (hP : ∀ s, I s → P s) (hbad : ∀ s a, I s → ¬ ok s a → ∃ t, step s a = some t ∧ ¬ P t) {s : σ}
    {as : List α} (hs : I s) : Reached step P s as ↔ Meets step ok s as := by
  refine ⟨fun h => ?_, reached_of_meets hstep hP hs⟩
  induction as generalizing s with
  | nil => trivial
  | cons a as ih =>
    have hok : ok s a := Classical.byContradiction fun hn => by
      obtain ⟨t, ht, hp⟩ := hbad s a hs hn
      exact hp (h [a] t ⟨as, rfl⟩ ((exec_singleton s a).trans ht))
    refine ⟨hok, fun t ht => ih (hstep s a t hs hok ht) fun bs u hb hu => ?_⟩
    exact h (a :: bs) u (by obtain ⟨cs, rfl⟩ := hb; exact ⟨cs, rfl⟩) (by rw [exec_cons, ht]; exact hu)

end

end

end SabApp
