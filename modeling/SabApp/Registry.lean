import Mathlib.Logic.Function.Basic
import Mathlib.Tactic.Common

/-!
# Clients that hand out ids

A client's view says which of its subscriptions are live and which service each is for. A start
opens at most one and answers with its id, a stop ends one. Where a client is put together from
several, what a part opens or ends is what the whole does.
-/

namespace SabApp

section
variable {H K S I : Type*}

/-- From `v` to `v'` at most one subscription was opened, for service `s`, and then `r` is its id. -/
def Opens (id : H → I) (s : S) (r : I) (v v' : H → Option S) : Prop :=
  v' = v ∨ ∃ h, v h = none ∧ v' h = some s ∧ r = id h ∧ ∀ k, k ≠ h → v' k = v k

/-- From `v` to `v'` just `h` was ended. -/
def Ends (h : H) (v v' : H → Option S) : Prop := v' h = none ∧ ∀ k, k ≠ h → v' k = v k

/-- From `v` to `v'` none was opened. -/
def Shrinks (v v' : H → Option S) : Prop := ∀ k, v' k = none ∨ v' k = v k

/-- The ids a caller holds after a call that answered with `r`. -/
def recorded (v v' : H → Option S) (r : I) (issued : H → I) (h : H) : I :=
  if (v h).isNone && (v' h).isSome then r else issued h

theorem shrinks_of_eq {v v' : H → Option S} (h : v' = v) : Shrinks v v' := fun k => .inr (congrFun h k)

theorem Ends.shrinks {v v' : H → Option S} {h : H} (he : Ends h v v') : Shrinks v v' := by
  intro k
  by_cases hk : k = h
  · exact .inl (hk ▸ he.1)
  · exact .inr (he.2 k hk)

theorem recorded_of_shrinks {v v' : H → Option S} (hs : Shrinks v v') (r : I) (issued : H → I) :
    recorded v v' r issued = issued := by
  funext h
  unfold recorded
  rcases hs h with hn | he
  · simp [hn]
  · cases hv : v h <;> simp [he, hv]

/-- If what was live is held by its id, it still is after one more was opened. -/
theorem recorded_eq {id issued : H → I} {s : S} {r : I} {v v' : H → Option S} (ho : Opens id s r v v')
    (hi : ∀ h, v h ≠ none → issued h = id h) {h : H} (hh : v' h ≠ none) : recorded v v' r issued h = id h := by
  rcases ho with he | ⟨g, hg, hg', hr, hk⟩
  · rw [recorded_of_shrinks (shrinks_of_eq he)]
    exact hi h (he ▸ hh)
  · by_cases hgh : h = g
    · rw [hgh, hr]
      simp [recorded, hg, hg']
    · have hv : v' h = v h := hk h hgh
      rw [hv] at hh
      simp [recorded, hv, hi h hh, hh]

/-! ## Parts of a client -/

variable {f : H → K} {id : H → I} {ident : K → I} {v v' : H → Option S} {V V' : K → Option S}

/-- The whole's subscriptions are the part's and the rest. -/
theorem forall_of_part {P : K → Prop} (hin : ∀ h, P (f h)) (hout : ∀ k, (∀ h, k ≠ f h) → P k) (k : K) : P k := by
  by_cases hf : ∃ h, k = f h
  · obtain ⟨h, rfl⟩ := hf
    exact hin h
  · exact hout k fun h hkh => hf ⟨h, hkh⟩

theorem Opens.lift {s : S} {r : I} (ho : Opens id s r v v') (hid : ∀ h, ident (f h) = id h) (hv : ∀ h, V (f h) = v h)
    (hv' : ∀ h, V' (f h) = v' h) (hrest : ∀ k, (∀ h, k ≠ f h) → V' k = V k) : Opens ident s r V V' := by
  rcases ho with he | ⟨h, hn, hs, hr, hk⟩
  · refine .inl (funext (forall_of_part (fun h => ?_) hrest))
    rw [hv, hv', he]
  · refine .inr ⟨f h, (hv h).trans hn, (hv' h).trans hs, hr.trans (hid h).symm, ?_⟩
    refine forall_of_part (f := f) (fun g hg => ?_) fun k hk _ => hrest k hk
    rw [hv, hv']
    exact hk g fun hgh => hg (congrArg f hgh)

theorem Ends.lift {h : H} (he : Ends h v v') (hv : ∀ h, V (f h) = v h) (hv' : ∀ h, V' (f h) = v' h)
    (hrest : ∀ k, (∀ h, k ≠ f h) → V' k = V k) : Ends (f h) V V' := by
  refine ⟨(hv' h).trans he.1, forall_of_part (f := f) (fun g hg => ?_) fun k hk _ => hrest k hk⟩
  rw [hv, hv']
  exact he.2 g fun hgh => hg (congrArg f hgh)

theorem Shrinks.lift (hs : Shrinks v v') (hv : ∀ h, V (f h) = v h) (hv' : ∀ h, V' (f h) = v' h)
    (hrest : ∀ k, (∀ h, k ≠ f h) → V' k = V k) : Shrinks V V' := by
  refine forall_of_part (f := f) (fun h => ?_) fun k hk => .inr (hrest k hk)
  rw [hv, hv']
  exact hs h

end

end SabApp
