import Mathlib.Logic.Relation
import SabApp.JsonRows

/-!
# Where the search for an array ends

Each round of the search of `tool_json2_getArray` looks for the name from where the last one stopped. A round that meets
a member whose value is no array leaves the place as it is, and so does every round for the empty name.
-/

namespace SabApp

namespace ToolJson2

open CText Relation

variable {name str t : List UInt8}

/-- A round that goes on behind the first place of the name, which is not the name of a member. -/
inductive Moves (name : List UInt8) : List UInt8 → List UInt8 → Prop
  | part {str t : List UInt8} {c : UInt8} (h : strstr name str = some (name ++ c :: t)) (hc : c ≠ 34) :
    Moves name str (c :: t)
  | value {str t u : List UInt8} {c : UInt8} (h : strstr name str = some (name ++ 34 :: u)) (hu : skip u = c :: t)
    (hc : c ≠ 58) : Moves name str (c :: t)

/-- A round that goes on where it began. -/
inductive Stuck (name : List UInt8) : List UInt8 → Prop
  | member {str t u v : List UInt8} {c : UInt8} (h : strstr name str = some (name ++ 34 :: u)) (hu : skip u = 58 :: v)
    (hv : skip v = c :: t) (hc : c ≠ 91) : Stuck name str
  | empty {t : List UInt8} {c : UInt8} (hn : name = []) (hc : c ≠ 34) : Stuck name (c :: t)

/-- The texts that the search comes to. -/
def Comes (name : List UInt8) : List UInt8 → List UInt8 → Prop := ReflTransGen (Moves name)

/-! ## One round -/

theorem findArray_moves (h : Moves name str t) (fuel : ℕ) : findArray name (fuel + 1) str = findArray name fuel t := by
  cases h with
  | part h hc => simp [findArray, h, hc]
  | value h hu hc => simp [findArray, h, hu, hc]

theorem strstr_nil (str : List UInt8) : strstr [] str = some str := by cases str <;> rfl

theorem findArray_stuck (h : Stuck name str) (fuel : ℕ) : findArray name (fuel + 1) str = findArray name fuel str := by
  cases h with
  | member h hu hv hc => simp [findArray, h, hu, hv, hc]
  | empty hn hc =>
    subst hn
    simp [findArray, strstr_nil, hc]

theorem skip_length_le (s : List UInt8) : (skip s).length ≤ s.length := (List.dropWhile_suffix _).length_le

/-- A round that is not stuck ends the search or comes nearer to the end of the text. -/
theorem round (h : ¬ Stuck name str) :
    (∃ r, ∀ fuel, findArray name (fuel + 1) str = some r) ∨ ∃ t, Moves name str t ∧ t.length < str.length := by
  cases hs : strstr name str with
  | none => exact .inl ⟨none, fun fuel => by simp [findArray, hs]⟩
  | some found =>
    obtain ⟨rest, rfl, a, ha, -⟩ := firstAt_of_strstr hs
    have hlen := congrArg List.length ha
    simp only [List.length_append] at hlen
    cases rest with
    | nil => exact .inl ⟨none, fun fuel => by simp [findArray, hs]⟩
    | cons c u =>
      rw [List.length_cons] at hlen
      by_cases hc : c = 34
      · subst hc
        have hule := skip_length_le u
        cases hu : skip u with
        | nil => exact .inl ⟨none, fun fuel => by simp [findArray, hs, hu]⟩
        | cons d v =>
          rw [hu, List.length_cons] at hule
          by_cases hd : d = 58
          · subst hd
            cases hv : skip v with
            | nil => exact .inl ⟨none, fun fuel => by simp [findArray, hs, hu, hv]⟩
            | cons e w =>
              by_cases he : e = 91
              · exact .inl ⟨some w, fun fuel => by simp [findArray, hs, hu, hv, he]⟩
              · exact absurd (.member hs hu hv he) h
          · exact .inr ⟨d :: v, .value hs hu hd, by rw [List.length_cons]; omega⟩
      · refine .inr ⟨c :: u, .part hs hc, ?_⟩
        have hname : name ≠ [] := by
          rintro rfl
          rw [strstr_nil, List.nil_append, Option.some.injEq] at hs
          subst hs
          exact h (.empty rfl hc)
        have hpos := List.length_pos_iff.mpr hname
        rw [List.length_cons]
        omega

/-! ## The search -/

theorem findArray_ends (h : ∀ t, Comes name str t → ¬ Stuck name t) : ∃ fuel r, findArray name fuel str = some r := by
  induction hn : str.length using Nat.strongRecOn generalizing str with
  | ind n ih =>
    rcases round (h str .refl) with ⟨r, hr⟩ | ⟨t, ht, hlt⟩
    · exact ⟨1, r, hr 0⟩
    · obtain ⟨fuel, r, hr⟩ := ih t.length (hn ▸ hlt) (fun u hu => h u (.head ht hu)) rfl
      exact ⟨fuel + 1, r, by rw [findArray_moves ht, hr]⟩

theorem findArray_never (hc : Comes name str t) (ht : Stuck name t) : ∀ fuel, findArray name fuel str = none := by
  intro fuel
  induction fuel generalizing str with
  | zero => rfl
  | succ fuel ih =>
    rcases hc.cases_head with rfl | ⟨s, hs, hst⟩
    · rw [findArray_stuck ht]
      exact ih hc
    · rw [findArray_moves hs]
      exact ih hst

theorem search_returns_iff (str name : List UInt8) (x y : ℕ) :
    (∃ fuel r, getArray fuel str name x y = some r) ↔ ∀ t, Comes name str t → ¬ Stuck name t := by
  constructor
  · rintro ⟨fuel, r, hr⟩ t hc ht
    rw [getArray, findArray_never hc ht] at hr
    cases hr
  · intro h
    obtain ⟨fuel, r, hr⟩ := findArray_ends h
    exact ⟨fuel, _, by rw [getArray, hr]; rfl⟩

/-- `tool_json2_getArray` returns exactly if its search comes to no text at whose first place of the name stands a member
that is no array, and the name is not empty, unless the text begins with a quote. -/
theorem getArray_returns_iff (str name : List UInt8) (x y : ℕ) :
    (∃ fuel, (getArray fuel str name x y).isSome) ↔ ∀ t, Comes name str t → ¬ Stuck name t := by
  simp only [Option.isSome_iff_exists]
  exact search_returns_iff str name x y

/-- The value of the member is a number. -/
theorem getArray_number_never : ¬ ∀ (str name : List UInt8) (x y : ℕ), 0 ∉ str → 0 ∉ name → 0 < x → 0 < y →
    ∃ fuel, (getArray fuel str name x y).isSome := by
  intro h
  have hstuck : Stuck (ascii "a") (ascii "\x7b\"a\":1\x7d") :=
    .member (u := ascii ":1\x7d") (v := ascii "1\x7d") (t := ascii "\x7d") (c := 49) rfl rfl rfl (by decide)
  obtain ⟨fuel, hf⟩ := h (ascii "\x7b\"a\":1\x7d") (ascii "a") 1 1 (by decide) (by decide) (by decide) (by decide)
  rw [getArray, findArray_never .refl hstuck] at hf
  cases hf

end ToolJson2

end SabApp
