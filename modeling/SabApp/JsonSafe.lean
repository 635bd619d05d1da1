import SabApp.JsonParse

/-!
# The JSON parser on any text

Each counted item is paid for by four bytes behind the cursor: two quotes and a colon for its name
and at least one byte for its value. A text of less than 4096 bytes therefore never fills the table,
however it is formed, and every round of a loop moves the cursor.
-/

namespace SabApp

namespace ToolJson

open CText

@[simp] theorem ok_bind {ε α β : Type} (a : α) (f : α → Except ε β) : (Except.ok a >>= f) = f a := rfl

/-- The call returns, and `Q` holds of what it returns. -/
def Ends (r : Result) (Q : ℤ → ToolJson → Prop) : Prop := ∃ ret st, r = .ok (ret, st) ∧ Q ret st

section Ends

variable {x : Result} {f : ToolJson → Result} {P Q : ℤ → ToolJson → Prop} {ret : ℤ} {st : ToolJson}

theorem Ends.ok (h : Q ret st) : Ends (.ok (ret, st)) Q := ⟨ret, st, rfl, h⟩

theorem Ends.mono (hx : Ends x P) (h : ∀ ret st, P ret st → Q ret st) : Ends x Q := by
  obtain ⟨ret, st, rfl, hP⟩ := hx
  exact ⟨ret, st, rfl, h ret st hP⟩

theorem Ends.of_eq (h : Ends x Q) (hx : x = .ok (ret, st)) : Q ret st := by
  obtain ⟨_, _, rfl, hQ⟩ := h
  cases hx
  exact hQ

@[simp] theorem orFail_zero : orFail (.ok (0, st)) f = f st := rfl

@[simp] theorem orFail_neg : orFail (.ok (-1, st)) f = .ok (-1, st) := rfl

@[simp] theorem orReturn_zero : orReturn (.ok (0, st)) f = f st := rfl

@[simp] theorem orReturn_neg : orReturn (.ok (-1, st)) f = .ok (-1, st) := rfl

@[simp] theorem orReturn_one : orReturn (.ok (1, st)) f = .ok (0, st) := rfl

theorem Ends.orFail (hx : Ends x P)
    (h : ∀ ret st, P ret st → (ret = -1 ∧ Q (-1) st) ∨ (ret = 0 ∧ Ends (f st) Q)) :
    Ends (orFail x f) Q := by
  obtain ⟨ret, st, rfl, hP⟩ := hx
  rcases h ret st hP with ⟨rfl, hQ⟩ | ⟨rfl, hQ⟩
  · exact .ok hQ
  · exact hQ

end Ends

/-! ## One call each -/

/-- A scan fails at the terminator, or stops at a byte that it looks for. -/
theorem scan_ends (stop : UInt8 → Bool) (st : ToolJson) :
    Ends (scan stop st) fun ret st' =>
      (ret = -1 ∧ st' = { st with past := st.past ++ st.rest, rest := [] }) ∨
        ∃ skip c t, ret = 0 ∧ st.rest = skip ++ c :: t ∧ stop c = true ∧
          st' = { st with past := st.past ++ skip, rest := c :: t } := by
  have happ := before_append_after stop st.rest
  cases h : after stop st.rest with
  | nil =>
    rw [h, List.append_nil] at happ
    refine ⟨-1, _, ?_, .inl ⟨rfl, rfl⟩⟩
    simp [scan, h, happ]
  | cons c t =>
    rw [h] at happ
    refine ⟨0, _, ?_, .inr ⟨before stop st.rest, c, t, rfl, happ.symm, stop_of_after_cons h, rfl⟩⟩
    simp [scan, h]

theorem forward_append {st : ToolJson} {s t : List UInt8} (h : st.rest = s ++ t) :
    st.forward s.length = .ok { st with past := st.past ++ s, rest := t } := by
  simp [forward, h]

theorem forward_cons {st : ToolJson} {c : UInt8} {t : List UInt8} (h : st.rest = c :: t) :
    st.forward 1 = .ok { st with past := st.past ++ [c], rest := t } := forward_append (s := [c]) h

section Mk

variable (p s t : List UInt8) (c : UInt8) (i : List JsonItem) (l : JsonItem) (a : Option JsonPtr) (x : ℕ)

theorem forward_append_mk : forward s.length ⟨p, s ++ t, i, l, a, x⟩ = .ok ⟨p ++ s, t, i, l, a, x⟩ :=
  forward_append rfl

@[simp] theorem forward_mk : forward 1 ⟨p, c :: t, i, l, a, x⟩ = .ok ⟨p ++ [c], t, i, l, a, x⟩ :=
  forward_cons rfl

@[simp] theorem terminate_mk : terminate ⟨p, c :: t, i, l, a, x⟩ = .ok ⟨p, 0 :: t, i, l, a, x⟩ := rfl

theorem setSlot_mk (f : JsonItem → JsonItem) (h : i.length < jsonItemNum) :
    setSlot f ⟨p, t, i, l, a, x⟩ = .ok ⟨p, t, i, f l, a, x⟩ := if_pos h

@[simp] theorem char_mk : char ⟨p, c :: t, i, l, a, x⟩ = c := rfl

end Mk

theorem isPrefixOf_null {s : List UInt8} (h : (ascii "null").isPrefixOf s = true) :
    ∃ t, s = ascii "null" ++ t := by
  obtain ⟨t, rfl⟩ := List.isPrefixOf_iff_prefix.mp h
  exact ⟨t, rfl⟩

theorem length_null : (ascii "null").length = 4 := by decide

theorem nullScan_le (s : List UInt8) :
    (nullScan s).1 = -1 ∨ (nullScan s).1 = 0 ∨ ((nullScan s).1 = 1 ∧ (nullScan s).2 + 4 ≤ s.length) := by
  induction s with
  | nil => simp [nullScan]
  | cons c cs ih =>
    rw [nullScan]
    by_cases hc : c = 44 ∨ c = 125 ∨ c = 34
    · simp [hc]
    · rw [if_neg hc]
      by_cases hn : (ascii "null").isPrefixOf (c :: cs) = true
      · obtain ⟨t, ht⟩ := isPrefixOf_null hn
        rw [if_pos hn, ht, List.length_append, length_null]
        simp
      · rw [if_neg hn, List.length_cons]
        omega

theorem numberScan_true_le (s : List UInt8) :
    (numberScan true s).1 = -1 ∨ ((numberScan true s).1 = 1 ∧ (numberScan true s).2 ≤ s.length) := by
  induction s with
  | nil => simp [numberScan]
  | cons c cs ih =>
    rw [numberScan]
    by_cases hc : c = 44 ∨ c = 125
    · simp [hc]
    · by_cases hd : isDigit c = true
      · simp only [hc, hd, not_true_eq_false, ↓reduceIte, List.length_cons]
        omega
      · simp [hc, hd]

theorem numberScan_false_le (s : List UInt8) :
    (numberScan false s).1 = -1 ∨ (numberScan false s).1 = 0 ∨
      ((numberScan false s).1 = 1 ∧ 1 ≤ (numberScan false s).2 ∧ (numberScan false s).2 ≤ s.length) := by
  cases s with
  | nil => simp [numberScan]
  | cons c cs =>
    rw [numberScan]
    by_cases hc : c = 34 ∨ c = 91
    · simp [hc]
    · by_cases hd : c = 45 ∨ isDigit c = true
      · simp only [hc, hd, ↓reduceIte, List.length_cons]
        have := numberScan_true_le cs
        omega
      · simp [hc, hd]

/-! ## The invariant -/

/-- Between two calls, on a text of `n` bytes. -/
structure Sound (n : ℕ) (st : ToolJson) : Prop where
  length : st.past.length + st.rest.length = n
  room : 4 * st.item.length ≤ st.past.length
  named : ∀ it ∈ st.item, it.name.isSome ∧ it.arrayName.isSome
  array : st.curArrayName.isSome

/-- What every call keeps that starts with `m` bytes left. -/
structure Kept (n m : ℕ) (ret : ℤ) (st : ToolJson) : Prop where
  sound : Sound n st
  ret : ret = -1 ∨ ret = 0
  less : st.rest.length ≤ m

variable {n m : ℕ} {st : ToolJson}

theorem Kept.trans {st' : ToolJson} {r s : ℤ} (h : Kept n m r st) (h' : Kept n st.rest.length s st') :
    Kept n m s st' := ⟨h'.sound, h'.ret, h'.less.trans h.less⟩

namespace Sound

theorem slot_free (h : Sound n st) (hn : n < jsonStrSize) : st.item.length < jsonItemNum := by
  have := h.length
  have := h.room
  simp only [jsonStrSize] at hn
  simp only [jsonItemNum]
  omega

/-- The cursor moves over `s`, where `s'` is written. -/
theorem move (h : Sound n st) {s t : List UInt8} (hs : st.rest = s ++ t) (s' : List UInt8)
    (hl : s'.length = s.length) (slot : JsonItem) :
    Kept n st.rest.length 0 { st with past := st.past ++ s', rest := t, slot := slot } := by
  have hlen := h.length
  have hroom := h.room
  rw [hs, List.length_append] at hlen
  refine ⟨⟨?_, ?_, h.named, h.array⟩, .inr rfl, by simp [hs]⟩
  · simp only [List.length_append]
    omega
  · simp only [List.length_append]
    omega

theorem fail (h : Sound n st) : Kept n st.rest.length (-1) { st with past := st.past ++ st.rest, rest := [] } :=
  have := h.move (List.append_nil _).symm st.rest rfl st.slot
  ⟨this.sound, .inl rfl, this.less⟩

theorem inArray (h : Sound n st) {p : Option JsonPtr} (hp : p.isSome) (i : ℕ) :
    Sound n { st with curArrayName := p, curArrayIndex := i } := ⟨h.length, h.room, h.named, hp⟩

/-- An item is counted when its name and a byte of its value are behind the cursor. -/
theorem counted (h : Sound n st) {it : JsonItem} (hnm : it.name.isSome) (ha : it.arrayName.isSome)
    (hroom : 4 * st.item.length + 4 ≤ st.past.length) (slot : JsonItem) :
    Sound n { st with item := st.item ++ [it], slot := slot } where
  length := h.length
  room := by
    simp only [List.length_append, List.length_singleton]
    omega
  named := by
    intro x hx
    rcases List.mem_append.mp hx with hx | hx
    · exact h.named x hx
    · obtain rfl := List.mem_singleton.mp hx
      exact ⟨hnm, ha⟩
  array := h.array

end Sound

/-! ## Names and values -/

theorem parseName_safe (h : Sound n st) (hn : n < jsonStrSize) :
    Ends st.parseName fun ret st' => Kept n st.rest.length ret st' ∧ (ret = 0 → st'.item = st.item ∧
      st'.slot.name.isSome ∧ st.past.length + 3 ≤ st'.past.length) := by
  have hfree := h.slot_free hn
  rw [parseName]
  refine (scan_ends (· = 34) st).orFail ?_
  rintro _ _ (⟨rfl, rfl⟩ | ⟨skip, c, t, rfl, hrest, -, rfl⟩)
  · exact .inl ⟨rfl, h.fail, by simp⟩
  refine .inr ⟨rfl, ?_⟩
  simp only [forward_mk, ok_bind, setSlot, hfree, ↓reduceIte]
  have h₁ := h.move (s := skip ++ [c]) (by simpa using hrest) _ rfl
    { st.slot with name := some (.at (st.past ++ (skip ++ [c])).length) }
  rw [List.append_assoc]
  refine (scan_ends (· = 34) _).orFail ?_
  rintro _ _ (⟨rfl, rfl⟩ | ⟨name, c₁, t₁, rfl, hrest₁, -, rfl⟩)
  · exact .inl ⟨rfl, h₁.trans h₁.sound.fail, by simp⟩
  refine .inr ⟨rfl, ?_⟩
  simp only [terminate_mk, forward_mk, ok_bind]
  have h₂ := h₁.sound.move (s := name ++ [c₁]) (by simpa using hrest₁) (name ++ [0]) (by simp)
    { st.slot with name := some (.at (st.past ++ (skip ++ [c])).length) }
  rw [List.append_assoc]
  refine (scan_ends (· = 58) _).orFail ?_
  rintro _ _ (⟨rfl, rfl⟩ | ⟨mid, c₂, t₂, rfl, hrest₂, -, rfl⟩)
  · exact .inl ⟨rfl, (h₁.trans h₂).trans h₂.sound.fail, by simp⟩
  refine .inr ⟨rfl, ?_⟩
  simp only [forward_mk, ok_bind]
  have h₃ := h₂.sound.move (s := mid ++ [c₂]) (by simpa using hrest₂) _ rfl
    { st.slot with name := some (.at (st.past ++ (skip ++ [c])).length) }
  rw [List.append_assoc]
  refine .ok ⟨(h₁.trans h₂).trans h₃, fun _ => ⟨rfl, rfl, ?_⟩⟩
  simp only [List.length_append, List.length_singleton]
  omega

/-- What the three readings of a value find in front of the value. -/
structure Named (n : ℕ) (st : ToolJson) : Prop where
  sound : Sound n st
  room : 4 * st.item.length + 3 ≤ st.past.length
  name : st.slot.name.isSome

/-- The value is read over `k` bytes and its item counted. -/
theorem Named.read (h : Named n st) {k : ℕ} (hk : 1 ≤ k) (hle : k ≤ st.rest.length) {it : JsonItem}
    (hnm : it.name = st.slot.name) (ha : it.arrayName = st.curArrayName) :
    Kept n st.rest.length 0 { st with
      past := st.past ++ st.rest.take k, rest := st.rest.drop k, item := st.item ++ [it], slot := {} } := by
  have hm := h.sound.move (List.take_append_drop k st.rest).symm _ rfl {}
  have hroom := h.room
  refine ⟨hm.sound.counted ?_ ?_ ?_ _, .inr rfl, hm.less⟩
  · rw [hnm]
    exact h.name
  · rw [ha]
    exact h.sound.array
  · simp only [List.length_append, List.length_take]
    omega

theorem parseNull_safe (h : Named n st) (hn : n < jsonStrSize) :
    Ends st.parseNull fun ret st' => (ret = 1 ∧ Kept n st.rest.length 0 st') ∨ ((ret = 0 ∨ ret = -1) ∧ st' = st) := by
  have hfree := h.sound.slot_free hn
  rw [parseNull]
  rcases nullScan_le st.rest with hr | hr | ⟨hr, hle⟩
  · rw [if_pos (by simp [hr])]
    exact .ok (.inr ⟨.inr hr, rfl⟩)
  · rw [if_pos (by simp [hr])]
    exact .ok (.inr ⟨.inl hr, rfl⟩)
  · simp only [hr, Int.reduceLE, setSlot, hfree, ↓reduceIte, ok_bind, count, forward, hle]
    exact .ok (.inl ⟨rfl, h.read (by omega) hle rfl rfl⟩)

theorem parseNumber_safe (h : Named n st) (hn : n < jsonStrSize) :
    Ends st.parseNumber fun ret st' => (ret = 1 ∧ Kept n st.rest.length 0 st') ∨ ((ret = 0 ∨ ret = -1) ∧ st' = st) := by
  have hfree := h.sound.slot_free hn
  rw [parseNumber]
  rcases numberScan_false_le st.rest with hr | hr | ⟨hr, hone, hle⟩
  · rw [if_pos (by simp [hr])]
    exact .ok (.inr ⟨.inr hr, rfl⟩)
  · rw [if_pos (by simp [hr])]
    exact .ok (.inr ⟨.inl hr, rfl⟩)
  · simp only [hr, Int.reduceLE, setSlot, hfree, ↓reduceIte, ok_bind, count, forward, hle]
    exact .ok (.inl ⟨rfl, h.read hone hle rfl rfl⟩)

theorem parseString_safe (h : Named n st) (hroom : 4 * st.item.length + 4 ≤ st.past.length)
    (hn : n < jsonStrSize) : Ends st.parseString (Kept n st.rest.length) := by
  have hfree := h.sound.slot_free hn
  rw [parseString]
  simp only [setSlot, hfree, ↓reduceIte, ok_bind]
  have h₁ := h.sound.move (s := []) rfl [] rfl
    { st.slot with value := some (.at st.past.length), type := .string }
  rw [List.append_nil] at h₁
  refine (scan_ends (· = 34) _).orFail ?_
  rintro _ _ (⟨rfl, rfl⟩ | ⟨s, c, t, rfl, hrest, -, rfl⟩)
  · exact .inl ⟨rfl, h₁.trans h₁.sound.fail⟩
  refine .inr ⟨rfl, ?_⟩
  simp only [terminate_mk, ok_bind, hfree, ↓reduceIte, count, forward_mk]
  have h₂ := h.sound.move (s := s ++ [c]) (by simpa using hrest) (s ++ [0]) (by simp) {}
  rw [List.append_assoc]
  refine .ok ⟨h₂.sound.counted ?_ ?_ ?_ _, .inr rfl, h₂.less⟩
  · exact h.name
  · exact h.sound.array
  · simp only [List.length_append]
    omega

/-! ## Objects and arrays -/

/-- `P` can be called wherever less than `d` bytes are left. -/
def SafeBelow (n d : ℕ) (P : ToolJson → Result) : Prop :=
  ∀ st, Sound n st → st.rest.length < d → Ends (P st) fun ret st' =>
    Kept n st.rest.length ret st' ∧ (ret = 0 → st'.rest ≠ [])

/-- The same, for a value. -/
def ValueSafeBelow (n d : ℕ) (P : ToolJson → Result) : Prop :=
  ∀ st, Named n st → st.rest.length < d → Ends (P st) (Kept n st.rest.length)

variable {d : ℕ}

theorem parseValue_safe {M : Option JsonPtr → ToolJson → Result}
    (hM : ∀ a st, a.isSome → Sound n st → st.rest ≠ [] → st.rest.length < d → Ends (M a st) (Kept n st.rest.length))
    (hn : n < jsonStrSize) : ValueSafeBelow n d (parseValue M) := by
  intro st h hd
  rw [parseValue]
  obtain ⟨ret, st₁, hnull, h₁⟩ := parseNull_safe h hn
  rw [hnull]
  rcases h₁ with ⟨rfl, h₁⟩ | ⟨rfl | rfl, rfl⟩
  · exact .ok h₁
  swap
  · exact .ok ⟨h.sound, .inl rfl, le_rfl⟩
  rw [orReturn_zero]
  obtain ⟨ret, st₂, hnum, h₂⟩ := parseNumber_safe h hn
  rw [hnum]
  rcases h₂ with ⟨rfl, h₂⟩ | ⟨rfl | rfl, rfl⟩
  · exact .ok h₂
  swap
  · exact .ok ⟨h.sound, .inl rfl, le_rfl⟩
  rw [orReturn_zero]
  refine (scan_ends _ st₂).orFail ?_
  rintro _ _ (⟨rfl, rfl⟩ | ⟨skip, c, t, rfl, hrest, -, rfl⟩)
  · exact .inl ⟨rfl, h.sound.fail⟩
  refine .inr ⟨rfl, ?_⟩
  have h₃ := h.sound.move hrest skip rfl st₂.slot
  have hroom := h.room
  rw [char_mk]
  by_cases hc : c = 91
  · rw [if_pos hc]
    refine (hM _ _ h.name h₃.sound (by simp) (h₃.less.trans_lt hd)).orFail ?_
    rintro ret st₄ h₄
    rcases h₄.ret with rfl | rfl
    · exact .inl ⟨rfl, h₃.trans h₄⟩
    · exact .inr ⟨rfl, .ok (h₃.trans h₄)⟩
  · rw [if_neg hc, forward_mk, ok_bind, List.append_assoc]
    have h₄ := h.sound.move (s := skip ++ [c]) (by simpa using hrest) _ rfl st₂.slot
    have h₅ : Named n _ := ⟨h₄.sound, by simp only [List.length_append]; omega, h.name⟩
    refine (parseString_safe h₅ ?_ hn).mono fun _ _ => h₄.trans
    simp only [List.length_append, List.length_singleton]
    omega

/-- Each round leaves the closing brace and what stands before the next element behind. -/
theorem midBracketLoop_safe {P : ToolJson → Result} (hP : SafeBelow n d P) {a : Option JsonPtr} (ha : a.isSome) :
    ∀ k i st, Sound n st → st.rest.length < k → st.rest.length < d →
      Ends (midBracketLoop P a k i st) fun ret st' => Kept n st.rest.length ret st' ∧ (ret = 0 → st'.rest ≠ []) := by
  intro k
  induction k with
  | zero =>
    intro i st _ hk
    exact absurd hk (Nat.not_lt_zero _)
  | succ k ih =>
    intro i st h hk hd
    rw [midBracketLoop]
    refine (hP _ (h.inArray ha i) hd).orFail ?_
    rintro ret ⟨p, r, its, l, b, x⟩ ⟨h₁, hne⟩
    replace h₁ : Kept n st.rest.length ret _ := h₁
    rcases h₁.ret with rfl | rfl
    · exact .inl ⟨rfl, ⟨h₁.sound, .inl rfl, h₁.less⟩, by simp⟩
    refine .inr ⟨rfl, ?_⟩
    obtain ⟨c, t, rfl⟩ := List.exists_cons_of_ne_nil (hne rfl)
    rw [forward_mk, ok_bind]
    have h₂ := h₁.trans (h₁.sound.move (s := [c]) rfl _ rfl l)
    refine (scan_ends _ _).orFail ?_
    rintro _ _ (⟨rfl, rfl⟩ | ⟨skip, c', t', rfl, hrest, -, rfl⟩)
    · exact .inl ⟨rfl, h₂.trans h₂.sound.fail, by simp⟩
    refine .inr ⟨rfl, ?_⟩
    have h₃ := h₂.trans (h₂.sound.move hrest skip rfl l)
    rw [char_mk]
    by_cases hc : c' = 93
    · rw [if_pos hc]
      exact .ok ⟨⟨h₃.sound.inArray rfl 0, .inr rfl, h₃.less⟩, by simp⟩
    · rw [if_neg hc, forward_mk, ok_bind]
      have h₄ := h₃.trans (h₃.sound.move (s := [c']) rfl _ rfl l)
      have hless := h₃.less
      rw [List.length_cons] at hless
      exact (ih _ _ h₄.sound (by simp only; omega) (by simp only; omega)).mono
        fun _ _ h₅ => ⟨h₄.trans h₅.1, h₅.2⟩

/-- Each round leaves at least the three bytes of a name behind. -/
theorem bigBracketLoop_safe {P : ToolJson → Result} (hP : ValueSafeBelow n d P) (hn : n < jsonStrSize) :
    ∀ k st, Sound n st → st.rest.length < k → st.rest.length < d →
      Ends (bigBracketLoop P k st) fun ret st' => Kept n st.rest.length ret st' ∧ (ret = 0 → st'.rest ≠ []) := by
  intro k
  induction k with
  | zero =>
    intro st _ hk
    exact absurd hk (Nat.not_lt_zero _)
  | succ k ih =>
    intro st h hk hd
    rw [bigBracketLoop]
    refine (parseName_safe h hn).orFail ?_
    rintro ret st₁ ⟨h₁, hname⟩
    rcases h₁.ret with rfl | rfl
    · exact .inl ⟨rfl, h₁, by simp⟩
    refine .inr ⟨rfl, ?_⟩
    obtain ⟨hitem, hsome, hthree⟩ := hname rfl
    have hroom := h.room
    have hnamed : Named n st₁ := ⟨h₁.sound, by rw [hitem]; omega, hsome⟩
    refine (hP st₁ hnamed (h₁.less.trans_lt hd)).orFail ?_
    rintro ret ⟨p, r, its, l, b, x⟩ h₂
    rcases h₂.ret with rfl | rfl
    · exact .inl ⟨rfl, h₁.trans h₂, by simp⟩
    refine .inr ⟨rfl, (scan_ends _ _).orFail ?_⟩
    rintro _ _ (⟨rfl, rfl⟩ | ⟨skip, c, t, rfl, hrest, -, rfl⟩)
    · exact .inl ⟨rfl, (h₁.trans h₂).trans h₂.sound.fail, by simp⟩
    refine .inr ⟨rfl, ?_⟩
    have h₃ := (h₁.trans h₂).trans (h₂.sound.move hrest skip rfl l)
    rw [char_mk]
    by_cases hc : c = 125
    · rw [if_pos hc]
      exact .ok ⟨h₃, by simp⟩
    · rw [if_neg hc, forward_mk, ok_bind]
      have h₄ := h₃.trans (h₃.sound.move (s := [c]) rfl _ rfl l)
      have hless := h₃.less
      rw [List.length_cons] at hless
      exact (ih _ h₄.sound (by simp only; omega) (by simp only; omega)).mono
        fun _ _ h₅ => ⟨h₄.trans h₅.1, h₅.2⟩

theorem parseMidBracket_safe {P : ToolJson → Result} (hP : SafeBelow n d P) (a : Option JsonPtr)
    (st : ToolJson) (ha : a.isSome) (h : Sound n st) (hne : st.rest ≠ []) (hd : st.rest.length < d) :
    Ends (parseMidBracket P a st) (Kept n st.rest.length) := by
  obtain ⟨p, r, its, l, b, x⟩ := st
  obtain ⟨c, t, rfl⟩ := List.exists_cons_of_ne_nil hne
  rw [parseMidBracket, forward_mk, ok_bind]
  have h₁ := h.move (s := [c]) rfl _ rfl l
  refine (midBracketLoop_safe hP ha _ _ _ h₁.sound (Nat.lt_succ_self _) (h₁.less.trans_lt hd)).mono ?_
  exact fun _ _ h₂ => h₁.trans h₂.1

/-- An object leaves its opening brace behind before it goes one deeper. -/
theorem parseBigBracket_safe (hn : n < jsonStrSize) : ∀ d, SafeBelow n d (parseBigBracket d) := by
  intro d
  induction d with
  | zero =>
    intro st _ hd
    exact absurd hd (Nat.not_lt_zero _)
  | succ d ih =>
    intro st h hd
    rw [parseBigBracket]
    refine (scan_ends _ st).orFail ?_
    rintro _ _ (⟨rfl, rfl⟩ | ⟨skip, c, t, rfl, hrest, -, rfl⟩)
    · exact .inl ⟨rfl, h.fail, by simp⟩
    refine .inr ⟨rfl, ?_⟩
    rw [forward_mk, ok_bind, List.append_assoc]
    have h₁ := h.move (s := skip ++ [c]) (by simpa using hrest) _ rfl st.slot
    have hless : t.length < d := by
      rw [hrest, List.length_append, List.length_cons] at hd
      omega
    have hvalue := parseValue_safe (parseMidBracket_safe ih) hn
    refine (bigBracketLoop_safe hvalue hn _ _ h₁.sound (Nat.lt_succ_self _) hless).mono ?_
    exact fun _ _ h₂ => ⟨h₁.trans h₂.1, h₂.2⟩

/-! ## The whole text -/

theorem getValueLoop_isSome (st : ToolJson) (name : List UInt8) {its : List JsonItem}
    (h : ∀ it ∈ its, it.name.isSome) : (st.getValueLoop name its).isSome := by
  induction its with
  | nil => rfl
  | cons it its ih =>
    obtain ⟨p, hp⟩ := Option.isSome_iff_exists.mp (h it List.mem_cons_self)
    rw [getValueLoop, hp]
    simp only
    split
    · rfl
    · exact ih fun x hx => h x (List.mem_cons_of_mem _ hx)

theorem getValueV2Loop_isSome (st : ToolJson) (arrayName : List UInt8) (i : ℤ) (name : List UInt8)
    {its : List JsonItem} (h : ∀ it ∈ its, it.name.isSome ∧ it.arrayName.isSome) :
    (st.getValueV2Loop arrayName i name its).isSome := by
  induction its with
  | nil => rfl
  | cons it its ih =>
    obtain ⟨hname, harray⟩ := h it List.mem_cons_self
    obtain ⟨p, hp⟩ := Option.isSome_iff_exists.mp hname
    obtain ⟨a, ha⟩ := Option.isSome_iff_exists.mp harray
    rw [getValueV2Loop, hp, ha]
    simp only
    split
    · rfl
    · exact ih fun x hx => h x (List.mem_cons_of_mem _ hx)

theorem init_sound (s : List UInt8) : Sound s.length (init s) :=
  ⟨Nat.zero_add _, le_rfl, by simp [init], rfl⟩

theorem parse_kept {str : List UInt8} (h : (cstr str).length < jsonStrSize) :
    ∃ ret st, parse str = .ok (ret, st) ∧ Kept (cstr str).length (cstr str).length ret st := by
  obtain ⟨ret, st, hp, hk, -⟩ :=
    parseBigBracket_safe h ((cstr str).length + 1) (init (cstr str)) (init_sound _) (Nat.lt_succ_self _)
  refine ⟨ret, st, ?_, hk⟩
  rw [parse, if_neg (Nat.not_le.mpr h), hp]
  rcases hk.ret with rfl | rfl <;> rfl

/-- **The parser is safe on every text.** On any text of less than 4096 bytes the parser returns,
the cursor and the writes stay in the text and in the table, and no lookup afterwards is fatal. -/
theorem parse_safe (str : List UInt8) (h : (cstr str).length < jsonStrSize) :
    ∃ ret st, parse str = .ok (ret, st) ∧ (ret = -1 ∨ ret = 0) ∧
      st.past.length + st.rest.length = (cstr str).length ∧ st.item.length ≤ jsonItemNum ∧
      (∀ it ∈ st.item, it.name.isSome ∧ it.arrayName.isSome) ∧
      (∀ name, (st.getValue name).isSome) ∧
      ∀ arrayName i name, (st.getValueV2 arrayName i name).isSome := by
  obtain ⟨ret, st, hp, hk⟩ := parse_kept h
  refine ⟨ret, st, hp, hk.ret, hk.sound.length, (hk.sound.slot_free h).le, hk.sound.named, ?_, ?_⟩
  · exact fun name => getValueLoop_isSome st name fun it hit => (hk.sound.named it hit).1
  · exact fun arrayName i name => getValueV2Loop_isSome st arrayName i name hk.sound.named

/-- An opened object in an opened array in an opened object. -/
theorem parse_safe_nested : ∃ ret st, parse (ascii "\x7b\"a\":[\x7b\"a\":[\x7b") = .ok (ret, st) ∧
    st.item.length ≤ jsonItemNum := by
  obtain ⟨ret, st, hp, -, -, hitems, -⟩ := parse_safe (ascii "\x7b\"a\":[\x7b\"a\":[\x7b") (by decide)
  exact ⟨ret, st, hp, hitems⟩

end ToolJson

end SabApp
