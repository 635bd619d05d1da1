import Mathlib.Data.List.Basic
import Mathlib.Tactic.Common

/-!
# Computations with a trace

A computation comes to a value or fails, and leaves a list of events either way. `Ensures P Q` says that every event
is as `P` asks and the value, if there is one, as `Q` asks; it has a rule for each way of making a computation.

A loop repeats a body that goes on with a new state or is done with a result. A loop whose body lowers a measure
returns (`turns_of_measure`), and what the body keeps in the states it visits is kept by the loop
(`Returns.ensures`).
-/

namespace SabApp

universe u v w

structure Traced (ε : Type u) (α : Type v) where
  value : Option α
  events : List ε

namespace Traced

section
variable {ε : Type u} {α : Type v} {β γ : Type v}

def fail : Traced ε α := ⟨none, []⟩

def ofOption (o : Option α) : Traced ε α := ⟨o, []⟩

def emit (e : ε) : Traced ε PUnit.{v + 1} := ⟨some ⟨⟩, [e]⟩

def emits (es : List ε) : Traced ε PUnit.{v + 1} := ⟨some ⟨⟩, es⟩

instance : Monad (Traced ε) where
  pure a := ⟨some a, []⟩
  bind x f := match x.value with
    | none => ⟨none, x.events⟩
    | some a => ⟨(f a).value, x.events ++ (f a).events⟩

@[simp] theorem value_pure (a : α) : (pure a : Traced ε α).value = some a := rfl

@[simp] theorem events_pure (a : α) : (pure a : Traced ε α).events = [] := rfl

@[simp] theorem value_fail : (fail : Traced ε α).value = none := rfl

@[simp] theorem value_ofOption (o : Option α) : (ofOption o : Traced ε α).value = o := rfl

@[simp] theorem events_ofOption (o : Option α) : (ofOption o : Traced ε α).events = [] := rfl

@[simp] theorem value_emit (e : ε) : (emit e).value = some ⟨⟩ := rfl

@[simp] theorem value_emits (es : List ε) : (emits es).value = some ⟨⟩ := rfl

@[simp] theorem events_emit (e : ε) : (emit e).events = [e] := rfl

theorem bind_none {x : Traced ε α} (h : x.value = none) (f : α → Traced ε β) : x >>= f = ⟨none, x.events⟩ := by
  show (match x.value with
    | none => _
    | some a => _) = _
  rw [h]

theorem bind_some {x : Traced ε α} {a : α} (h : x.value = some a) (f : α → Traced ε β) :
    x >>= f = ⟨(f a).value, x.events ++ (f a).events⟩ := by
  show (match x.value with
    | none => _
    | some a => _) = _
  rw [h]

@[simp] theorem value_bind (x : Traced ε α) (f : α → Traced ε β) :
    (x >>= f).value = x.value.bind fun a => (f a).value := by
  cases h : x.value with
  | none => rw [bind_none h]; rfl
  | some a => rw [bind_some h]; rfl

theorem bind_done (x : Traced ε α) : x >>= pure = x := by
  obtain ⟨v, es⟩ := x
  cases v with
  | none => exact bind_none rfl pure
  | some a => exact (bind_some rfl pure).trans (by rw [value_pure, events_pure, List.append_nil])

/-- One step after the other, however they are put together. -/
theorem bind_bind (x : Traced ε α) (f : α → Traced ε β) (g : β → Traced ε γ) : x >>= f >>= g = x >>= fun a => f a >>= g := by
  cases h : x.value with
  | none => rw [bind_none h, bind_none h, bind_none rfl]
  | some a =>
    rw [bind_some h, bind_some h]
    cases hf : (f a).value with
    | none => rw [bind_none rfl, bind_none hf]
    | some b => rw [bind_some rfl, bind_some hf, List.append_assoc]

theorem mem_bind_left {x : Traced ε α} {e : ε} (he : e ∈ x.events) (f : α → Traced ε β) : e ∈ (x >>= f).events := by
  cases h : x.value with
  | none =>
    rw [bind_none h]
    exact he
  | some a =>
    rw [bind_some h]
    exact List.mem_append_left _ he

theorem mem_bind_right {x : Traced ε α} {a : α} (h : x.value = some a) {f : α → Traced ε β} {e : ε}
    (he : e ∈ (f a).events) : e ∈ (x >>= f).events := by
  rw [bind_some h]
  exact List.mem_append_right _ he

@[simp] theorem events_map (x : Traced ε α) (g : α → β) : (do let a ← x; pure (g a) : Traced ε β).events = x.events := by
  cases h : x.value with
  | none => rw [bind_none h]
  | some a => rw [bind_some h, events_pure, List.append_nil]

/-- The events under another name. -/
def relabel {ε' : Type*} (g : ε → ε') (x : Traced ε α) : Traced ε' α := ⟨x.value, x.events.map g⟩

@[simp] theorem value_relabel {ε' : Type*} (g : ε → ε') (x : Traced ε α) : (x.relabel g).value = x.value := rfl

@[simp] theorem events_relabel {ε' : Type*} (g : ε → ε') (x : Traced ε α) : (x.relabel g).events = x.events.map g := rfl

/-- Every event is as `P` asks, and the value as `Q` asks. -/
structure Ensures (P : ε → Prop) (Q : α → Prop) (x : Traced ε α) : Prop where
  events : ∀ e ∈ x.events, P e
  value : ∀ a, x.value = some a → Q a

variable {P : ε → Prop} {Q : α → Prop}

theorem ensures_pure {a : α} (h : Q a) : Ensures P Q (pure a) := by
  refine ⟨nofun, fun b hb => ?_⟩
  cases hb
  exact h

theorem ensures_fail : Ensures P Q fail := ⟨nofun, nofun⟩

theorem ensures_ofOption {o : Option α} (h : ∀ a, o = some a → Q a) : Ensures P Q (ofOption o) := ⟨nofun, h⟩

theorem ensures_emit {e : ε} (h : P e) : Ensures P (fun _ => True) (emit.{u, v} e) :=
  ⟨fun _ he => List.eq_of_mem_singleton he ▸ h, fun _ _ => trivial⟩

theorem Ensures.bind {x : Traced ε α} {f : α → Traced ε β} {R : β → Prop} (hx : Ensures P Q x)
    (hf : ∀ a, Q a → Ensures P R (f a)) : Ensures P R (x >>= f) := by
  cases h : x.value with
  | none =>
    rw [bind_none h]
    exact ⟨hx.events, nofun⟩
  | some a =>
    have ha := hf a (hx.value a h)
    rw [bind_some h]
    exact ⟨fun e he => (List.mem_append.mp he).elim (hx.events e) (ha.events e), ha.value⟩

/-- The same where what is asked of a value is about the events before it. -/
theorem Ensures.bind_events {x : Traced ε α} {f : α → Traced ε β} {R : List ε → α → Prop} {T : List ε → β → Prop}
    (hx : Ensures P (R x.events) x) (hf : ∀ a, R x.events a → Ensures P (T (x.events ++ (f a).events)) (f a)) :
    Ensures P (T (x >>= f).events) (x >>= f) := by
  cases h : x.value with
  | none =>
    rw [bind_none h]
    exact ⟨hx.events, nofun⟩
  | some a =>
    have ha := hf a (hx.value a h)
    rw [bind_some h]
    exact ⟨fun e he => (List.mem_append.mp he).elim (hx.events e) (ha.events e), ha.value⟩

theorem ensures_bind_iff {x : Traced ε α} {a : α} (h : x.value = some a) {f : α → Traced ε β} {R : β → Prop} :
    Ensures P R (x >>= f) ↔ (∀ e ∈ x.events, P e) ∧ Ensures P R (f a) := by
  rw [bind_some h]
  constructor
  · exact fun hx => ⟨fun e he => hx.events e (List.mem_append_left _ he), fun e he => hx.events e (List.mem_append_right _ he),
      hx.value⟩
  · exact fun ⟨hx, hf⟩ => ⟨fun e he => (List.mem_append.mp he).elim (hx e) (hf.events e), hf.value⟩

theorem ensures_map_iff {x : Traced ε α} {g : α → β} {R : β → Prop} :
    Ensures P R (do let a ← x; pure (g a)) ↔ Ensures P (fun a => R (g a)) x := by
  cases h : x.value with
  | none =>
    rw [bind_none h]
    exact ⟨fun hx => ⟨hx.events, fun a ha => nomatch h.symm.trans ha⟩, fun hx => ⟨hx.events, nofun⟩⟩
  | some a =>
    rw [ensures_bind_iff h]
    constructor
    · exact fun ⟨hx, hg⟩ => ⟨hx, fun b hb => Option.some.inj (h.symm.trans hb) ▸ hg.value _ rfl⟩
    · exact fun hx => ⟨hx.events, ensures_pure (hx.value a h)⟩

theorem Ensures.imp {x : Traced ε α} {Q' : α → Prop} (hx : Ensures P Q x) (h : ∀ a, Q a → Q' a) : Ensures P Q' x :=
  ⟨hx.events, fun a ha => h a (hx.value a ha)⟩

theorem Ensures.relabel {ε' : Type*} {g : ε → ε'} {P' : ε' → Prop} {x : Traced ε α} (hx : Ensures P Q x)
    (h : ∀ e, P e → P' (g e)) : Ensures P' Q (x.relabel g) := by
  refine ⟨fun e he => ?_, hx.value⟩
  obtain ⟨e', he', rfl⟩ := List.mem_map.mp he
  exact h e' (hx.events e' he')

theorem ensures_ite {c : Prop} [Decidable c] {x y : Traced ε α} (hx : c → Ensures P Q x) (hy : ¬c → Ensures P Q y) :
    Ensures P Q (if c then x else y) := by
  split
  · exact hx ‹_›
  · exact hy ‹_›

end

/-! ## Two computations -/

section
variable {ε : Type u} {α β γ δ : Type v}

/-- The events are the same, and the values related, or there is none. -/
structure Alike (R : α → β → Prop) (x : Traced ε α) (y : Traced ε β) : Prop where
  events : x.events = y.events
  value : Option.Rel R x.value y.value

variable {R : α → β → Prop} {S : γ → δ → Prop}

theorem alike_pure {a : α} {b : β} (h : R a b) : Alike R (pure a : Traced ε α) (pure b) := ⟨rfl, .some h⟩

theorem alike_emits (es : List ε) : Alike (fun _ _ => True) (emits.{u, v} es) (emits es) := ⟨rfl, .some trivial⟩

theorem Alike.bind {x : Traced ε α} {y : Traced ε β} {f : α → Traced ε γ} {g : β → Traced ε δ} (h : Alike R x y)
    (hf : ∀ a b, R a b → Alike S (f a) (g b)) : Alike S (x >>= f) (y >>= g) := by
  obtain ⟨xv, xs⟩ := x
  obtain ⟨yv, ys⟩ := y
  obtain ⟨he, hv⟩ := h
  cases hv with
  | none => exact ⟨he, .none⟩
  | some hr =>
    have hfg := hf _ _ hr
    exact ⟨congrArg₂ (· ++ ·) he hfg.events, hfg.value⟩

end

/-! ## Loops -/

section
variable {ε : Type u} {σ : Type v} {ρ : Type w} (body : σ → Traced ε (σ ⊕ ρ))

/-- The loop, if it ends within `n` turns. -/
def turns : ℕ → σ → Option (Traced ε ρ)
  | 0, _ => none
  | n + 1, s =>
    match (body s).value with
    | none => some ⟨none, (body s).events⟩
    | some (.inr r) => some ⟨some r, (body s).events⟩
    | some (.inl s') => (turns n s').map fun t => ⟨t.value, (body s).events ++ t.events⟩

def Returns (s : σ) (t : Traced ε ρ) : Prop := ∃ n, turns body n s = some t

/-- The states at the beginnings of the turns. -/
inductive Visits : σ → σ → Prop
  | start (s : σ) : Visits s s
  | turn {s s' t : σ} (h : (body s).value = some (.inl s')) (ht : Visits s' t) : Visits s t

variable {body} {s s' : σ} {t : Traced ε ρ}

theorem turns_fail (h : (body s).value = none) (n : ℕ) : turns body (n + 1) s = some ⟨none, (body s).events⟩ := by
  rw [turns, h]

theorem turns_done {r : ρ} (h : (body s).value = some (.inr r)) (n : ℕ) :
    turns body (n + 1) s = some ⟨some r, (body s).events⟩ := by
  rw [turns, h]

theorem turns_more (h : (body s).value = some (.inl s')) (n : ℕ) :
    turns body (n + 1) s = (turns body n s').map fun t => ⟨t.value, (body s).events ++ t.events⟩ := by
  rw [turns, h]

theorem returns_done {r : ρ} {es : List ε} (h : body s = ⟨some (.inr r), es⟩) : Returns body s ⟨some r, es⟩ :=
  ⟨1, by rw [turns_done (by rw [h]), h]⟩

theorem Returns.fail (h : Returns body s t) (hv : (body s).value = none) : t.value = none := by
  obtain ⟨n, hn⟩ := h
  cases n with
  | zero => cases hn
  | succ n =>
    rw [turns_fail hv] at hn
    cases hn
    rfl

/-- A turn before a loop. -/
theorem Returns.cons (h : Returns body s' t) (hv : (body s).value = some (.inl s')) :
    Returns body s ⟨t.value, (body s).events ++ t.events⟩ := by
  obtain ⟨n, hn⟩ := h
  refine ⟨n + 1, ?_⟩
  rw [turns_more hv, hn]
  rfl

/-- What is left of a loop after a turn. -/
theorem Returns.tail (h : Returns body s t) (hv : (body s).value = some (.inl s')) :
    ∃ t', Returns body s' t' ∧ t.value = t'.value ∧ t.events = (body s).events ++ t'.events := by
  obtain ⟨n, hn⟩ := h
  cases n with
  | zero => cases hn
  | succ n =>
    rw [turns_more hv] at hn
    obtain ⟨t', ht', rfl⟩ := Option.map_eq_some_iff.mp hn
    exact ⟨t', ⟨n, ht'⟩, rfl, rfl⟩

/-- **A loop ends** whose body lowers a measure. -/
theorem turns_of_measure (μ : σ → ℕ) (h : ∀ s s', (body s).value = some (.inl s') → μ s' < μ s) :
    ∀ {n : ℕ} {s : σ}, μ s < n → ∃ t, turns body n s = some t := by
  intro n
  induction n with
  | zero => exact fun hn => absurd hn (Nat.not_lt_zero _)
  | succ n ih =>
    intro s hn
    cases hb : (body s).value with
    | none => exact ⟨_, turns_fail hb n⟩
    | some r =>
      cases r with
      | inr r => exact ⟨_, turns_done hb n⟩
      | inl s' =>
        have hlt := h s s' hb
        obtain ⟨t, ht⟩ := ih (s := s') (by omega)
        exact ⟨_, by rw [turns_more hb, ht]; rfl⟩

/-- A loop that is written out turn by turn does what the loop of its turns does. -/
theorem turns_value {g : ℕ → σ → Option ρ} (hz : ∀ s, g 0 s = none)
    (hg : ∀ n s, g (n + 1) s = (body s).value.bind (Sum.elim (g n) some)) :
    ∀ (n : ℕ) (s : σ), (turns body n s).bind value = g n s := by
  intro n
  induction n with
  | zero => exact fun s => (hz s).symm
  | succ n ih =>
    intro s
    rw [hg n s]
    cases hb : (body s).value with
    | none =>
      rw [turns_fail hb]
      rfl
    | some r =>
      cases r with
      | inr r =>
        rw [turns_done hb]
        rfl
      | inl s' =>
        rw [turns_more hb, Option.bind_some, Sum.elim_inl, ← ih s']
        cases turns body n s' <;> rfl

/-- Where nothing is left to measure the body fails, and one turn less will do. -/
theorem turns_fuel (μ : σ → ℕ) (h : ∀ s s', (body s).value = some (.inl s') → μ s' < μ s)
    (hz : ∀ s, μ s = 0 → (body s).value = none) : ∀ {n : ℕ} {s : σ}, μ s ≤ n →
      (turns body (n + 1) s).bind value = (turns body n s).bind value := by
  intro n
  induction n with
  | zero =>
    intro s hs
    rw [turns_fail (hz s (Nat.le_zero.mp hs))]
    rfl
  | succ n ih =>
    intro s hs
    cases hb : (body s).value with
    | none => rw [turns_fail hb, turns_fail hb]
    | some r =>
      cases r with
      | inr r => rw [turns_done hb, turns_done hb]
      | inl s' =>
        have hlt := h s s' hb
        have hn := ih (s := s') (by omega)
        rw [turns_more hb, turns_more hb]
        cases h₁ : turns body (n + 1) s' <;> cases h₂ : turns body n s' <;> rw [h₁, h₂] at hn <;> exact hn

/-- **What a loop keeps.** `I` holds of the events so far and the state at the beginning of each turn, if each turn is
taken in a state with `K`. -/
theorem Returns.history {P : ε → Prop} {I : List ε → σ → Prop} {Q : List ε → ρ → Prop} {K : σ → Prop}
    (hstep : ∀ es s, I es s → K s →
      Ensures P (Sum.elim (I (es ++ (body s).events)) (Q (es ++ (body s).events))) (body s))
    (h : Returns body s t) {l : List ε} (hs : I l s) (hok : ∀ s', Visits body s s' → K s') :
    Ensures P (Q (l ++ t.events)) t := by
  obtain ⟨n, hn⟩ := h
  induction n generalizing s t l with
  | zero => cases hn
  | succ n ih =>
    have hb := hstep l s hs (hok s (.start s))
    cases hv : (body s).value with
    | none =>
      rw [turns_fail hv] at hn
      cases hn
      exact ⟨hb.events, nofun⟩
    | some r =>
      have hr := hb.value r hv
      cases r with
      | inr r =>
        rw [turns_done hv] at hn
        cases hn
        exact ⟨hb.events, fun a ha => Option.some.inj ha ▸ hr⟩
      | inl s' =>
        rw [turns_more hv] at hn
        obtain ⟨t', ht', rfl⟩ := Option.map_eq_some_iff.mp hn
        have ht := ih hr (fun s'' h' => hok s'' (.turn hv h')) ht'
        rw [List.append_assoc] at ht
        exact ⟨fun e he => (List.mem_append.mp he).elim (hb.events e) (ht.events e), ht.value⟩

/-- The same without the events. -/
theorem Returns.ensures {P : ε → Prop} {I : σ → Prop} {Q : ρ → Prop}
    (hstep : ∀ s, I s → Ensures P (Sum.elim I Q) (body s)) (h : Returns body s t) (hs : I s) : Ensures P Q t :=
  Returns.history (I := fun _ => I) (Q := fun _ => Q) (K := fun _ => True) (fun _ s hs _ => hstep s hs) h (l := []) hs
    fun _ _ => trivial

/-- What each turn makes of `v` by its events, the loop makes of it by all of them. -/
theorem Returns.foldl {τ : Type*} {g : τ → ε → τ} {v : σ → τ} {v' : ρ → τ}
    (hstep : ∀ s r, (body s).value = some r → r.elim v v' = (body s).events.foldl g (v s)) (h : Returns body s t) {r : ρ}
    (hr : t.value = some r) : v' r = t.events.foldl g (v s) := by
  have hall := Returns.history (P := fun _ => True) (I := fun es s' => v s' = es.foldl g (v s))
    (Q := fun es r => v' r = es.foldl g (v s)) (K := fun _ => True) (fun es s' hs' _ => ⟨fun _ _ => trivial, fun x hx => ?_⟩)
    h (l := []) rfl fun _ _ => trivial
  · exact hall.value r hr
  · have hx' := hstep s' x hx
    rw [hs', ← List.foldl_append] at hx'
    cases x with
    | inl s'' => exact hx'
    | inr r' => exact hx'

/-- One turn more. -/
theorem Visits.snoc {s'' : σ} (h : Visits body s s') (hv : (body s').value = some (.inl s'')) : Visits body s s'' := by
  induction h with
  | start s => exact .turn hv (.start s'')
  | turn h _ ih => exact .turn h (ih hv)

/-- What is left of a loop in a state it comes to. -/
theorem Visits.tail (h : Visits body s s') (ht : Returns body s t) : ∃ t', Returns body s' t' ∧ t.value = t'.value := by
  induction h generalizing t with
  | start s => exact ⟨t, ht, rfl⟩
  | turn hv _ ih =>
    obtain ⟨t₁, ht₁, hvalue, -⟩ := ht.tail hv
    obtain ⟨t', ht', hvalue'⟩ := ih ht₁
    exact ⟨t', ht', hvalue.trans hvalue'⟩

/-- A loop returns that comes to a state from which it does. -/
theorem Visits.returns (h : Visits body s s') {t' : Traced ε ρ} (ht : Returns body s' t') :
    ∃ t, Returns body s t ∧ t.value = t'.value := by
  induction h with
  | start s => exact ⟨t', ht, rfl⟩
  | turn hv _ ih =>
    obtain ⟨t, ht, hvalue⟩ := ih ht
    exact ⟨_, ht.cons hv, hvalue⟩

/-- The events of every turn that is taken are the loop's. -/
theorem Visits.events (h : Visits body s s') (ht : Returns body s t) : ∀ e ∈ (body s').events, e ∈ t.events := by
  obtain ⟨n, hn⟩ := ht
  induction h generalizing n t with
  | start s =>
    intro e he
    cases n with
    | zero => cases hn
    | succ n =>
      cases hv : (body s).value with
      | none =>
        rw [turns_fail hv] at hn
        cases hn
        exact he
      | some r =>
        cases r with
        | inr r =>
          rw [turns_done hv] at hn
          cases hn
          exact he
        | inl s' =>
          rw [turns_more hv] at hn
          obtain ⟨t', -, rfl⟩ := Option.map_eq_some_iff.mp hn
          exact List.mem_append_left _ he
  | turn hv _ ih =>
    intro e he
    cases n with
    | zero => cases hn
    | succ n =>
      rw [turns_more hv] at hn
      obtain ⟨t', ht', rfl⟩ := Option.map_eq_some_iff.mp hn
      exact List.mem_append_right _ (ih n ht' e he)

end

end Traced

end SabApp
