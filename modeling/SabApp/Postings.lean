import Mathlib.Logic.Function.Basic
import SabApp.Runs
import SabApp.Traced

/-!
# Postings

What a computation takes and gives back, entered in the order of its events. The entries can be posted if nothing is
taken that is held and nothing given back that is not. `Books` has a rule for each way of making a computation, and
the entries of a part are posted for the whole (`exec_embed`).
-/

namespace SabApp

universe u v

inductive Posting (ρ : Type u) where
  | take (r : ρ)
  | give (r : ρ)

namespace Posting

variable {ρ : Type u} {κ : Type v}

def map (f : κ → ρ) : Posting κ → Posting ρ
  | take k => take (f k)
  | give k => give (f k)

end Posting

namespace Postings

variable {ρ : Type u} [DecidableEq ρ]

def post (held : ρ → Bool) : Posting ρ → Option (ρ → Bool)
  | .take r => if held r then none else some (Function.update held r true)
  | .give r => if held r then some (Function.update held r false) else none

/-- Nothing is held. -/
def nothing : ρ → Bool := fun _ => false

theorem post_take {held : ρ → Bool} {r : ρ} (h : held r = false) :
    post held (.take r) = some (Function.update held r true) :=
  if_neg (by simp [h])

theorem post_give {held : ρ → Bool} {r : ρ} (h : held r = true) :
    post held (.give r) = some (Function.update held r false) :=
  if_pos h

/-- What is given back at once. -/
theorem exec_take_give {held : ρ → Bool} {r : ρ} (h : held r = false) : exec post held [.take r, .give r] = some held := by
  rw [exec_cons, post_take h, Option.bind_some, exec_singleton, post_give (Function.update_self ..), Function.update_idem, ← h,
    Function.update_eq_self]

/-- The entries of a part, whose names in the whole are given by `f`. -/
theorem exec_embed {κ : Type v} [DecidableEq κ] {f : κ → ρ} (hf : Function.Injective f) : ∀ {es : List (Posting κ)}
    {held held' : ρ → Bool} {part : κ → Bool}, exec post (held ∘ f) es = some part → held' ∘ f = part →
    (∀ r, (∀ k, r ≠ f k) → held' r = held r) → exec post held (es.map (Posting.map f)) = some held' := by
  intro es
  induction es with
  | nil =>
    intro held held' part h hpart hother
    cases h
    refine congrArg some (funext fun r => ?_)
    by_cases hr : ∃ k, r = f k
    · obtain ⟨k, rfl⟩ := hr
      exact (congrFun hpart k).symm
    · exact (hother r fun k hk => hr ⟨k, hk⟩).symm
  | cons e es ih =>
    intro held held' part h hpart hother
    rw [exec_cons] at h
    obtain ⟨part₁, h₁, hmore⟩ := Option.bind_eq_some_iff.mp h
    have hstep : ∀ (k : κ) (b : Bool), part₁ = Function.update (held ∘ f) k b →
        post held (e.map f) = some (Function.update held (f k) b) →
        exec post held ((e :: es).map (Posting.map f)) = some held' := by
      intro k b he hp
      have hmore' : exec post (Function.update held (f k) b ∘ f) es = some part := by
        rw [Function.update_comp_eq_of_injective _ hf, ← he]
        exact hmore
      rw [List.map_cons, exec_cons, hp]
      refine ih hmore' hpart fun r hr => ?_
      rw [hother r hr, Function.update_of_ne (hr k)]
    cases e with
    | take k =>
      by_cases hk : held (f k) = true
      · rw [post, Function.comp_apply, if_pos hk] at h₁
        cases h₁
      · rw [post, Function.comp_apply, if_neg hk] at h₁
        exact hstep k true (Option.some.inj h₁).symm (if_neg hk)
    | give k =>
      by_cases hk : held (f k) = true
      · rw [post, Function.comp_apply, if_pos hk] at h₁
        exact hstep k false (Option.some.inj h₁).symm (if_pos hk)
      · rw [post, Function.comp_apply, if_neg hk] at h₁
        cases h₁

section
variable {α β : Type v}

/-- The computation comes to a value, its entries are posted, and `Q` holds of the value and of what is held then. -/
def Books (held : ρ → Bool) (x : Traced (Posting ρ) α) (Q : α → (ρ → Bool) → Prop) : Prop :=
  ∃ a held', x.value = some a ∧ exec post held x.events = some held' ∧ Q a held'

variable {held : ρ → Bool} {Q : α → (ρ → Bool) → Prop}

theorem books_pure {a : α} (h : Q a held) : Books held (pure a) Q := ⟨a, held, rfl, rfl, h⟩

theorem Books.bind {x : Traced (Posting ρ) α} {f : α → Traced (Posting ρ) β} {R : β → (ρ → Bool) → Prop} (hx : Books held x Q)
    (hf : ∀ a held', Q a held' → Books held' (f a) R) : Books held (x >>= f) R := by
  obtain ⟨a, held', ha, hposted, hq⟩ := hx
  obtain ⟨b, held'', hb, hposted', hr⟩ := hf a held' hq
  rw [Traced.bind_some ha]
  exact ⟨b, held'', hb, (exec_append_of hposted _).trans hposted', hr⟩

theorem Books.imp {x : Traced (Posting ρ) α} {R : α → (ρ → Bool) → Prop} (hx : Books held x Q)
    (h : ∀ a held', Q a held' → R a held') : Books held x R := by
  obtain ⟨a, held', ha, hposted, hq⟩ := hx
  exact ⟨a, held', ha, hposted, h a held' hq⟩

theorem books_emits {es : List (Posting ρ)} {held' : ρ → Bool} (h : exec post held es = some held') :
    Books held (Traced.emits.{u, v} es) (fun _ now => now = held') :=
  ⟨⟨⟩, held', rfl, h, rfl⟩

end

end Postings

end SabApp
