import SabApp.Accesses
import SabApp.JsonArrayEnds

/-!
# The table of an array

`tool_json2_getArray` copies the elements of an array byte by byte into the rows of a table, and stays inside it
whatever the text is. It looks for the bare name, without the quote before it, so that a longer name with that end is
taken for the name of the array. Where its search comes to the array itself the rows are the elements.
-/

namespace SabApp

namespace ToolJson2

open CText Relation Traced

/-! ## The copy -/

/-- The inner loop with the next byte of the row at `a`: the text that it stops at. -/
def copyRowInto : ℕ → UInt8 → ℕ → List UInt8 → Traced Access (List UInt8)
  | _, _, 0, _ => fail
  | _, _, _ + 1, [] => fail
  | a, prev, n + 1, c :: cs =>
    if prev = 125 then do
      emit (.write a [0])
      pure (c :: cs)
    else do
      emit (.write a [c])
      copyRowInto (a + 1) c n cs

/-- The outer loop from row `i` on with `x` rows left: how many rows there are in the end. -/
def rowsInto (y : ℕ) : ℕ → ℕ → List UInt8 → Traced Access ℕ
  | _, 0, _ => fail
  | i, x + 1, cs =>
    if cs.head? ≠ some 123 then fail
    else do
      let rest ← copyRowInto (i * y) 44 y cs
      match skip rest with
      | 93 :: _ => pure (i + 1)
      | 44 :: rest => rowsInto y (i + 1) x (skip rest)
      | _ => fail

/-- `tool_json2_getArray` with its writes, at offsets in the table. It fails where the C function returns -1. -/
def getArrayInto (fuel : ℕ) (str name : List UInt8) (x y : ℕ) : Option (Traced Access ℕ) :=
  (findArray name fuel str).map fun found =>
    match found with
    | none => fail
    | some cs => if (skip cs).head? = some 93 then pure 0 else rowsInto y 0 x (skip cs)

theorem value_copyRowInto (a : ℕ) (prev : UInt8) (n : ℕ) (cs : List UInt8) :
    (copyRowInto a prev n cs).value = (copyRow prev n cs).map Prod.snd := by
  induction cs generalizing a prev n with
  | nil => cases n <;> rfl
  | cons c cs ih =>
    cases n with
    | zero => rfl
    | succ n =>
      rw [copyRowInto, copyRow]
      split
      · simp
      · simp only [value_bind, value_emit, Option.bind_some, ih, Option.map_map]
        rfl

theorem value_rowsInto (y i x : ℕ) (cs : List UInt8) :
    (rowsInto y i x cs).value = (rows y x cs).map fun rs => i + rs.length := by
  induction x generalizing i cs with
  | zero => rfl
  | succ x ih =>
    rw [rowsInto, rows]
    split
    · rfl
    · rw [value_bind, value_copyRowInto]
      cases copyRow 44 y cs with
      | none => rfl
      | some r =>
        obtain ⟨row, rest⟩ := r
        simp only [Option.map_some, Option.bind_some]
        generalize skip rest = s
        split
        · simp
        · simp only [ih, Option.map_map]
          congr 1
          funext rs
          simp only [Function.comp_apply, List.length_cons]
          omega
        · simp

/-- The table is the same whether the rows are kept or counted. -/
theorem value_getArrayInto (fuel : ℕ) (str name : List UInt8) (x y : ℕ) :
    (getArrayInto fuel str name x y).map value = (getArray fuel str name x y).map (Option.map List.length) := by
  rw [getArrayInto, getArray, Option.map_map, Option.map_map]
  congr 1
  funext found
  cases found with
  | none => rfl
  | some cs =>
    simp only [Function.comp_apply, Option.bind_some]
    split
    · rfl
    · simp [value_rowsInto]

/-! ## Inside the table -/

theorem copyRowInto_within (cs : List UInt8) (a : ℕ) (prev : UInt8) (n : ℕ) :
    Ensures (Access.Within a (a + n)) (fun _ => True) (copyRowInto a prev n cs) := by
  induction cs generalizing a prev n with
  | nil => cases n <;> exact ensures_fail
  | cons c cs ih =>
    cases n with
    | zero => exact ensures_fail
    | succ n =>
      have hone (b : UInt8) : (Access.write a [b]).Within a (a + (n + 1)) := ⟨Nat.le_refl a, by simp⟩
      rw [copyRowInto]
      split
      · exact (ensures_emit (hone 0)).bind fun _ _ => ensures_pure trivial
      · refine (ensures_emit (hone c)).bind fun _ _ => ⟨fun e he => ?_, fun _ _ => trivial⟩
        exact ((ih (a + 1) c n).events e he).mono (by omega) (by omega)

theorem rowsInto_within (y i x : ℕ) (cs : List UInt8) :
    Ensures (Access.Within (i * y) ((i + x) * y)) (fun _ => True) (rowsInto y i x cs) := by
  induction x generalizing i cs with
  | zero => exact ensures_fail
  | succ x ih =>
    have hrow : i * y + y ≤ (i + (x + 1)) * y := by
      rw [← Nat.succ_mul]
      exact Nat.mul_le_mul_right y (by omega)
    have hlo : i * y ≤ (i + 1) * y := Nat.mul_le_mul_right y (Nat.le_succ i)
    have hhi : (i + 1 + x) * y ≤ (i + (x + 1)) * y := Nat.mul_le_mul_right y (by omega)
    rw [rowsInto]
    split
    · exact ensures_fail
    · have hcopy : Ensures (Access.Within (i * y) ((i + (x + 1)) * y)) (fun _ => True) (copyRowInto (i * y) 44 y cs) :=
        ⟨fun e he => ((copyRowInto_within cs _ _ _).events e he).mono (Nat.le_refl _) hrow, fun _ _ => trivial⟩
      refine hcopy.bind fun rest _ => ?_
      split
      · exact ensures_pure trivial
      · exact ⟨fun e he => ((ih (i + 1) _).events e he).mono hlo hhi, fun _ _ => trivial⟩
      · exact ensures_fail

/-- Every byte that is written is a byte of the table, on a failure too. -/
theorem getArrayInto_within {fuel x y : ℕ} {str name : List UInt8} {r : Traced Access ℕ}
    (h : getArrayInto fuel str name x y = some r) : ∀ e ∈ r.events, e.Within 0 (x * y) := by
  rw [getArrayInto, Option.map_eq_some_iff] at h
  obtain ⟨found, -, rfl⟩ := h
  cases found with
  | none => exact nofun
  | some cs =>
    dsimp only
    split
    · exact nofun
    · have := (rowsInto_within y 0 x (skip cs)).events
      simpa using this

/-! ## The rows of the table -/

theorem copyRow_some {prev : UInt8} {cs row rest : List UInt8} : ∀ {n : ℕ}, prev ≠ 125 →
    copyRow prev n cs = some (row, rest) → cs = row ++ rest ∧ row.length < n ∧ ∃ body, row = body ++ [125] ∧ 125 ∉ body := by
  induction cs generalizing prev row with
  | nil =>
    intro n hp h
    cases n <;> cases h
  | cons c cs ih =>
    intro n hp h
    cases n with
    | zero => cases h
    | succ n =>
      rw [copyRow, if_neg hp, Option.map_eq_some_iff] at h
      obtain ⟨⟨row', rest'⟩, h, he⟩ := h
      cases he
      by_cases hc : c = 125
      · -- the brace is copied and the next round stops
        subst hc
        cases n with
        | zero => cases cs <;> cases h
        | succ n =>
          cases cs with
          | nil => cases h
          | cons d cs =>
            rw [copyRow, if_pos rfl] at h
            cases h
            exact ⟨rfl, by simp, [], rfl, List.not_mem_nil⟩
      · obtain ⟨rfl, hlen, body, rfl, hbody⟩ := ih hc h
        refine ⟨rfl, by simpa using hlen, c :: body, rfl, ?_⟩
        rw [List.mem_cons, not_or]
        exact ⟨fun he => hc he.symm, hbody⟩

theorem after_copyRowInto {row rest cs : List UInt8} : ∀ {a : ℕ} {prev : UInt8} {n : ℕ} (m : Mem),
    copyRow prev n cs = some (row, rest) → Access.after m (copyRowInto a prev n cs).events = m.write a (row ++ [0]) := by
  induction cs generalizing row with
  | nil =>
    intro a prev n m h
    cases n <;> cases h
  | cons c cs ih =>
    intro a prev n m h
    cases n with
    | zero => cases h
    | succ n =>
      rw [copyRow] at h
      rw [copyRowInto]
      by_cases hp : prev = 125
      · rw [if_pos hp] at h ⊢
        cases h
        rfl
      · rw [if_neg hp, Option.map_eq_some_iff] at h
        obtain ⟨⟨row', rest'⟩, h, he⟩ := h
        cases he
        rw [if_neg hp, bind_some (value_emit _), Access.after_append]
        show Access.after (m.write a [c]) _ = _
        rw [ih _ h, ← List.length_singleton (a := c), Mem.write_write_append]
        rfl

theorem read_after {lo hi a n : ℕ} {xs : List Access} (h : ∀ e ∈ xs, e.Within lo hi) (hn : a + n ≤ lo) (m : Mem) :
    (Access.after m xs).read a n = m.read a n := by
  induction xs generalizing m with
  | nil => rfl
  | cons e xs ih =>
    rw [Access.after_cons, ih (fun e he => h e (.tail _ he))]
    have he := h e (.head _)
    cases e with
    | read b k => rfl
    | write b bs => exact Mem.read_write_of_disjoint (.inr (Nat.le_trans hn he.1))

/-- Row `i + k` of the table is the `k`-th row and a terminator. -/
theorem read_rowsInto {y : ℕ} : ∀ {x i : ℕ} {cs : List UInt8} {rs : List (List UInt8)} (m : Mem), rows y x cs = some rs →
    ∀ (k : ℕ) (hk : k < rs.length),
      (Access.after m (rowsInto y i x cs).events).read ((i + k) * y) (rs[k].length + 1) = rs[k] ++ [0] := by
  intro x
  induction x with
  | zero => exact nofun
  | succ x ih =>
    intro i cs rs m h k hk
    rw [rows] at h
    rw [rowsInto]
    by_cases hh : cs.head? ≠ some 123
    · rw [if_pos hh] at h
      cases h
    rw [if_neg hh] at h ⊢
    cases hcopy : copyRow 44 y cs with
    | none => rw [hcopy] at h; cases h
    | some r =>
      obtain ⟨row, rest⟩ := r
      have hlen := (copyRow_some (by decide) hcopy).2.1
      have hvalue : (copyRowInto (i * y) 44 y cs).value = some rest := by rw [value_copyRowInto, hcopy]; rfl
      rw [bind_some hvalue, Access.after_append, after_copyRowInto m hcopy]
      rw [hcopy] at h
      dsimp only at h ⊢
      have hfirst : (m.write (i * y) (row ++ [0])).read (i * y) (row.length + 1) = row ++ [0] := by
        have := Mem.read_write m (i * y) (row ++ [0])
        simpa using this
      generalize skip rest = s at h ⊢
      split at h
      · cases h
        obtain rfl : k = 0 := by simpa using hk
        simpa using hfirst
      · next u =>
        rw [Option.map_eq_some_iff] at h
        obtain ⟨rs, h, rfl⟩ := h
        cases k with
        | zero =>
          have hbelow : i * y + (row.length + 1) ≤ (i + 1) * y := by
            rw [Nat.succ_mul]
            omega
          have := read_after (rowsInto_within y (i + 1) x (skip u)).events hbelow (m.write (i * y) (row ++ [0]))
          simpa [this] using hfirst
        | succ k =>
          have := ih (i := i + 1) (m.write (i * y) (row ++ [0])) h k (by simpa using hk)
          rw [Nat.add_right_comm i 1 k] at this
          exact this
      · cases h

/-! ## The elements of an array -/

/-- The text of an object that holds no closing brace. -/
def Flat (row : List UInt8) : Prop := ∃ body, row = 123 :: (body ++ [125]) ∧ 125 ∉ body

/-- From a place in an array on stand these elements, with blanks around them, and then the end. -/
inductive Elements : List UInt8 → List (List UInt8) → Prop
  | last {s row t u : List UInt8} (hs : skip s = row ++ t) (hr : Flat row) (ht : skip t = 93 :: u) : Elements s [row]
  | more {s row t u : List UInt8} {rs : List (List UInt8)} (hs : skip s = row ++ t) (hr : Flat row)
    (ht : skip t = 44 :: u) (h : Elements u rs) : Elements s (row :: rs)

/-- What stands behind the opening bracket of an array. -/
inductive ArrayText : List UInt8 → List (List UInt8) → Prop
  | empty {s u : List UInt8} (hs : skip s = 93 :: u) : ArrayText s []
  | elements {s : List UInt8} {rs : List (List UInt8)} (h : Elements s rs) : ArrayText s rs

theorem Flat.isRow {row : List UInt8} {y : ℕ} (h : Flat row) (hlen : row.length < y) : IsRow y row := by
  obtain ⟨body, rfl, hbody⟩ := h
  exact ⟨body, rfl, hbody, hlen⟩

theorem Flat.head {row : List UInt8} (h : Flat row) (t : List UInt8) : (row ++ t).head? = some 123 := by
  obtain ⟨body, rfl, -⟩ := h
  rfl

theorem Elements.head {s : List UInt8} {rs : List (List UInt8)} (h : Elements s rs) : (skip s).head? = some 123 := by
  cases h with
  | last hs hr ht => exact hs ▸ hr.head _
  | more hs hr ht h => exact hs ▸ hr.head _

theorem rows_of_elements {y : ℕ} {s : List UInt8} {rs : List (List UInt8)} (h : Elements s rs) :
    ∀ {x : ℕ}, rs.length ≤ x → (∀ r ∈ rs, r.length < y) → rows y x (skip s) = some rs := by
  induction h with
  | last hs hr ht =>
    intro x hx hlen
    obtain ⟨x, rfl⟩ : ∃ n, x = n + 1 := ⟨x - 1, by simp at hx; omega⟩
    simp only [hs, rows_row (hr.isRow (hlen _ (.head _))), ht]
  | more hs hr ht h ih =>
    intro x hx hlen
    obtain ⟨x, rfl⟩ : ∃ n, x = n + 1 := ⟨x - 1, by simp at hx; omega⟩
    have hrest := ih (by simpa using hx) fun r hr => hlen r (.tail _ hr)
    simp only [hs, rows_row (hr.isRow (hlen _ (.head _))), ht, hrest, Option.map_some]

theorem elements_of_rows {y : ℕ} : ∀ {x : ℕ} {s : List UInt8} {rs : List (List UInt8)}, rows y x (skip s) = some rs →
    Elements s rs ∧ rs.length ≤ x ∧ ∀ r ∈ rs, r.length < y := by
  intro x
  induction x with
  | zero => exact nofun
  | succ x ih =>
    intro s rs h
    rw [rows] at h
    by_cases hh : (skip s).head? ≠ some 123
    · rw [if_pos hh] at h
      cases h
    rw [if_neg hh] at h
    cases hcopy : copyRow 44 y (skip s) with
    | none => rw [hcopy] at h; cases h
    | some r =>
      obtain ⟨row, rest⟩ := r
      obtain ⟨hs, hlen, body, hrow, hbody⟩ := copyRow_some (by decide) hcopy
      have hflat : Flat row := by
        cases body with
        | nil => simp [hs, hrow] at hh
        | cons b body =>
          rw [List.mem_cons, not_or] at hbody
          have hb : b = 123 := by simpa [hs, hrow] using hh
          exact ⟨body, by rw [hrow, hb]; rfl, hbody.2⟩
      rw [hcopy] at h
      dsimp only at h
      split at h
      · next ht =>
        cases h
        exact ⟨.last hs hflat ht, by simp, by simpa using hlen⟩
      · next ht =>
        rw [Option.map_eq_some_iff] at h
        obtain ⟨rs, h, rfl⟩ := h
        obtain ⟨helements, hx, hrows⟩ := ih h
        exact ⟨.more hs hflat ht helements, by simpa using hx, List.forall_mem_cons.mpr ⟨hlen, hrows⟩⟩
      · cases h

/-! ## Where the search ends -/

/-- The search comes to a place of the bare name behind which an array with these elements stands. -/
def ArrayAt (name str : List UInt8) (rs : List (List UInt8)) : Prop :=
  ∃ t u v w, Comes name str t ∧ strstr name t = some (name ++ 34 :: u) ∧ skip u = 58 :: v ∧ skip v = 91 :: w ∧
    ArrayText w rs

/-- The text has a member of that name whose value is an array with these elements. -/
def HasArray (name str : List UInt8) (rs : List (List UInt8)) : Prop :=
  ∃ a u v w, str = a ++ 34 :: (name ++ 34 :: u) ∧ skip u = 58 :: v ∧ skip v = 91 :: w ∧ ArrayText w rs

section
variable {name str t u v w : List UInt8}

theorem findArray_bracket (h : strstr name str = some (name ++ 34 :: u)) (hu : skip u = 58 :: v) (hv : skip v = 91 :: w)
    (fuel : ℕ) : findArray name (fuel + 1) str = some (some w) := by
  simp [findArray, h, hu, hv]

theorem findArray_comes (h : Comes name str t) {fuel : ℕ} {r : Option (List UInt8)} (hr : findArray name fuel t = some r) :
    ∃ fuel, findArray name fuel str = some r := by
  induction h using ReflTransGen.head_induction_on with
  | refl => exact ⟨fuel, hr⟩
  | head hm _ ih =>
    obtain ⟨fuel, ih⟩ := ih
    exact ⟨fuel + 1, by rw [findArray_moves hm, ih]⟩

/-- A search that ends in one round with an array. -/
theorem bracket_of_findArray (h : findArray name 1 str = some (some w)) :
    ∃ u v, strstr name str = some (name ++ 34 :: u) ∧ skip u = 58 :: v ∧ skip v = 91 :: w := by
  rw [findArray] at h
  cases hs : strstr name str with
  | none => simp [hs] at h
  | some found =>
    obtain ⟨rest, rfl, -⟩ := firstAt_of_strstr hs
    simp only [hs, List.drop_left] at h
    cases rest with
    | nil => cases h
    | cons c u =>
      dsimp only at h
      by_cases hc : c = 34
      · subst hc
        rw [if_neg (by simp)] at h
        cases hu : skip u with
        | nil => simp [hu] at h
        | cons d v =>
          simp only [hu] at h
          by_cases hd : d = 58
          · subst hd
            rw [if_neg (by simp)] at h
            cases hv : skip v with
            | nil => simp [hv] at h
            | cons e w' =>
              simp only [hv] at h
              by_cases he : e = 91
              · subst he
                rw [if_pos rfl] at h
                cases h
                exact ⟨u, v, rfl, hu, hv⟩
              · rw [if_neg he] at h
                cases h
          · rw [if_pos hd] at h
            cases h
      · rw [if_pos hc] at h
        cases h

/-- What a search that ends has found, it found in the text that it came to. -/
theorem comes_of_findArray {r : Option (List UInt8)} : ∀ {fuel : ℕ} {str : List UInt8}, findArray name fuel str = some r →
    ∃ t, Comes name str t ∧ ∀ k, findArray name (k + 1) t = some r := by
  intro fuel
  induction fuel with
  | zero => exact nofun
  | succ fuel ih =>
    intro str h
    by_cases hstuck : Stuck name str
    · rw [findArray_never .refl hstuck] at h
      cases h
    · rcases round hstuck with ⟨r', hr'⟩ | ⟨t, ht, -⟩
      · rw [hr' fuel] at h
        cases h
        exact ⟨str, .refl, hr'⟩
      · rw [findArray_moves ht] at h
        obtain ⟨s, hs, hr⟩ := ih h
        exact ⟨s, .head ht hs, hr⟩

/-- A search has one result, however long it may go on. -/
theorem findArray_unique {fuel fuel' : ℕ} {r r' : Option (List UInt8)} (h : findArray name fuel str = some r)
    (h' : findArray name fuel' str = some r') : r = r' := by
  induction fuel generalizing fuel' str with
  | zero => cases h
  | succ fuel ih =>
    cases fuel' with
    | zero => cases h'
    | succ fuel' =>
      by_cases hstuck : Stuck name str
      · rw [findArray_never .refl hstuck] at h
        cases h
      · rcases round hstuck with ⟨q, hq⟩ | ⟨t, ht, -⟩
        · rw [hq] at h h'
          exact Option.some.inj (h.symm.trans h')
        · rw [findArray_moves ht] at h h'
          exact ih h h'

/-- A search that may go on longer has the same result. -/
theorem findArray_more {r : Option (List UInt8)} {fuel : ℕ} : ∀ {fuel' : ℕ}, findArray name fuel str = some r → fuel ≤ fuel' →
    findArray name fuel' str = some r := by
  induction fuel generalizing str with
  | zero => exact nofun
  | succ fuel ih =>
    intro fuel' h hle
    cases fuel' with
    | zero => exact absurd hle (Nat.not_succ_le_zero fuel)
    | succ fuel' =>
      by_cases hstuck : Stuck name str
      · rw [findArray_never .refl hstuck] at h
        cases h
      · rcases round hstuck with ⟨q, hq⟩ | ⟨t, ht, -⟩
        · rw [hq] at h ⊢
          exact h
        · rw [findArray_moves ht] at h ⊢
          exact ih h (Nat.le_of_succ_le_succ hle)

theorem getArray_more {fuel fuel' x y : ℕ} {r : Option (List (List UInt8))} (h : getArray fuel str name x y = some r)
    (hle : fuel ≤ fuel') : getArray fuel' str name x y = some r := by
  rw [getArray, Option.map_eq_some_iff] at h
  obtain ⟨found, hf, rfl⟩ := h
  rw [getArray, findArray_more hf hle]
  rfl

theorem getArray_unique {fuel fuel' x y : ℕ} {r r' : Option (List (List UInt8))} (h : getArray fuel str name x y = some r)
    (h' : getArray fuel' str name x y = some r') : r = r' := by
  rw [getArray, Option.map_eq_some_iff] at h h'
  obtain ⟨found, hf, rfl⟩ := h
  obtain ⟨found', hf', rfl⟩ := h'
  rw [findArray_unique hf hf']

theorem findArray_iff : (∃ fuel, findArray name fuel str = some (some w)) ↔
    ∃ t u v, Comes name str t ∧ strstr name t = some (name ++ 34 :: u) ∧ skip u = 58 :: v ∧ skip v = 91 :: w := by
  constructor
  · rintro ⟨fuel, h⟩
    obtain ⟨t, ht, hr⟩ := comes_of_findArray h
    obtain ⟨u, v, hs, hu, hv⟩ := bracket_of_findArray (hr 0)
    exact ⟨t, u, v, ht, hs, hu, hv⟩
  · rintro ⟨t, u, v, ht, hs, hu, hv⟩
    exact findArray_comes ht (findArray_bracket hs hu hv 0)

/-- The rows that `tool_json2_getArray` returns are the elements of the array that its search comes to. -/
theorem getArray_iff {x y : ℕ} {rs : List (List UInt8)} : (∃ fuel, getArray fuel str name x y = some (some rs)) ↔
    ArrayAt name str rs ∧ rs.length ≤ x ∧ ∀ r ∈ rs, r.length < y := by
  constructor
  · rintro ⟨fuel, h⟩
    rw [getArray, Option.map_eq_some_iff] at h
    obtain ⟨found, hf, h⟩ := h
    rw [Option.bind_eq_some_iff] at h
    obtain ⟨w, rfl, h⟩ := h
    obtain ⟨t, u, v, ht, hs, hu, hv⟩ := findArray_iff.mp ⟨fuel, hf⟩
    by_cases hh : (skip w).head? = some 93
    · rw [if_pos hh] at h
      cases h
      obtain ⟨q, hq⟩ := List.head?_eq_some_iff.mp hh
      exact ⟨⟨t, u, v, w, ht, hs, hu, hv, .empty hq⟩, Nat.zero_le x, List.forall_mem_nil _⟩
    · rw [if_neg hh] at h
      obtain ⟨helements, hx, hy⟩ := elements_of_rows h
      exact ⟨⟨t, u, v, w, ht, hs, hu, hv, .elements helements⟩, hx, hy⟩
  · rintro ⟨⟨t, u, v, w, ht, hs, hu, hv, harray⟩, hx, hy⟩
    obtain ⟨fuel, hf⟩ := findArray_iff.mpr ⟨t, u, v, ht, hs, hu, hv⟩
    refine ⟨fuel, ?_⟩
    rw [getArray, hf, Option.map_some, Option.bind_some]
    cases harray with
    | empty hq => rw [hq]; rfl
    | elements h => rw [h.head, if_neg (by decide), rows_of_elements h hx hy]

/-- There is one array that the search comes to. -/
theorem ArrayAt.unique {rs rs' : List (List UInt8)} (h : ArrayAt name str rs) (h' : ArrayAt name str rs') : rs = rs' := by
  have hshort : ∀ r ∈ rs ++ rs', r.length < (rs ++ rs').flatten.length + 1 := fun r hr =>
    Nat.lt_succ_of_le (List.sublist_flatten_of_mem hr).length_le
  obtain ⟨fuel, hf⟩ := getArray_iff.mpr ⟨h, Nat.le_add_right rs.length rs'.length, fun r hr => hshort r (by simp [hr])⟩
  obtain ⟨fuel', hf'⟩ := getArray_iff.mpr ⟨h', Nat.le_add_left rs'.length rs.length, fun r hr => hshort r (by simp [hr])⟩
  exact Option.some.inj (getArray_unique hf hf')

end

/-! ## Exactly the elements -/

/-- A member that is an array, and a table with room for it. -/
structure Fits (name str : List UInt8) (rs : List (List UInt8)) (x y : ℕ) : Prop where
  array : HasArray name str rs
  count : rs.length ≤ x
  short : ∀ r ∈ rs, r.length < y
  rows_pos : 0 < x
  row_pos : 0 < y

/-- The call returns the number of these rows, and leaves each with its terminator in the table, whatever was there. -/
def ReturnsRows (name str : List UInt8) (rs : List (List UInt8)) (x y : ℕ) : Prop :=
  ∃ fuel r, getArrayInto fuel str name x y = some r ∧ r.value = some rs.length ∧
    ∀ (m : Mem) (i : ℕ) (hi : i < rs.length), (Access.after m r.events).read (i * y) (rs[i].length + 1) = rs[i] ++ [0]

/-- Where the call returns, it has written nothing but bytes of the table. -/
def WritesInside (name str : List UInt8) (x y : ℕ) : Prop :=
  ∀ fuel r, getArrayInto fuel str name x y = some r → ∀ e ∈ r.events, e.Within 0 (x * y)

section
variable {name str : List UInt8} {rs : List (List UInt8)} {x y : ℕ}

theorem getArrayInto_of_getArray {fuel : ℕ} (h : getArray fuel str name x y = some (some rs)) :
    ∃ r, getArrayInto fuel str name x y = some r ∧ r.value = some rs.length ∧
      ∀ (m : Mem) (i : ℕ) (hi : i < rs.length),
        (Access.after m r.events).read (i * y) (rs[i].length + 1) = rs[i] ++ [0] := by
  rw [getArray, Option.map_eq_some_iff] at h
  obtain ⟨found, hf, h⟩ := h
  rw [Option.bind_eq_some_iff] at h
  obtain ⟨w, rfl, h⟩ := h
  by_cases hh : (skip w).head? = some 93
  · rw [if_pos hh] at h
    cases h
    exact ⟨pure 0, by simp [getArrayInto, hf, hh], rfl, fun _ i hi => absurd hi (Nat.not_lt_zero i)⟩
  · rw [if_neg hh] at h
    refine ⟨rowsInto y 0 x (skip w), by simp [getArrayInto, hf, hh], by simp [value_rowsInto, h], fun m i hi => ?_⟩
    have := read_rowsInto (i := 0) m h i hi
    rwa [Nat.zero_add] at this

/-- Two rows that are read at the same place of the same memory. -/
theorem Flat.eq_of_read {m : Mem} {a : ℕ} {s t : List UInt8} (hs : Flat s) (ht : Flat t)
    (hms : m.read a (s.length + 1) = s ++ [0]) (hmt : m.read a (t.length + 1) = t ++ [0]) : s = t := by
  have hbefore : ∀ {r : List UInt8} (k : ℕ), Flat r → m.read a (r.length + 1) = r ++ [0] →
      before (· = 125) (m.read a (r.length + 1 + k)) ++ [125] = r := by
    intro r k hr hm
    obtain ⟨body, rfl, hbody⟩ := hr
    have hstop : ∀ c ∈ 123 :: body, decide (c = 125) = false := by
      intro c hc
      rcases List.mem_cons.mp hc with rfl | hc
      · decide
      · simpa using ne_of_mem_of_not_mem hc hbody
    rw [Mem.read_add, hm, ← List.cons_append, List.append_assoc, List.append_assoc]
    exact congrArg (· ++ [125]) (before_block hstop (by decide) _)
  have hcomm : s.length + 1 + (t.length + 1) = t.length + 1 + (s.length + 1) := Nat.add_comm _ _
  have hsame := hbefore (t.length + 1) hs hms
  rw [hcomm, hbefore (s.length + 1) ht hmt] at hsame
  exact hsame.symm

theorem Elements.flat {s : List UInt8} (h : Elements s rs) : ∀ r ∈ rs, Flat r := by
  induction h with
  | last hs hr ht => simpa using hr
  | more hs hr ht h ih => exact List.forall_mem_cons.mpr ⟨hr, ih⟩

theorem ArrayText.flat {s : List UInt8} (h : ArrayText s rs) : ∀ r ∈ rs, Flat r := by
  cases h with
  | empty hs => exact nofun
  | elements h => exact h.flat

theorem HasArray.flat (h : HasArray name str rs) : ∀ r ∈ rs, Flat r := by
  obtain ⟨a, u, v, w, -, -, -, hw⟩ := h
  exact hw.flat

theorem ArrayAt.flat (h : ArrayAt name str rs) : ∀ r ∈ rs, Flat r := by
  obtain ⟨t, u, v, w, -, -, -, -, hw⟩ := h
  exact hw.flat

theorem arrayAt_of_returnsRows (hflat : ∀ r ∈ rs, Flat r) (h : ReturnsRows name str rs x y) : ArrayAt name str rs := by
  obtain ⟨fuel, r, hinto, hvalue, hread⟩ := h
  have hcount := value_getArrayInto fuel str name x y
  rw [hinto, Option.map_some, hvalue] at hcount
  obtain ⟨found, hget, hfound⟩ := Option.map_eq_some_iff.mp hcount.symm
  obtain ⟨rs', rfl, hlen⟩ := Option.map_eq_some_iff.mp hfound
  obtain ⟨r', hinto', -, hread'⟩ := getArrayInto_of_getArray hget
  rw [hinto, Option.some.injEq] at hinto'
  subst hinto'
  have hat := (getArray_iff.mp ⟨fuel, hget⟩).1
  have hsame : rs = rs' := List.ext_getElem hlen.symm fun i hi hi' =>
    (hflat _ (List.getElem_mem hi)).eq_of_read (hat.flat _ (List.getElem_mem hi')) (hread (fun _ => 0) i hi)
      (hread' (fun _ => 0) i hi')
  rwa [hsame]

/-- **Exactly the elements.** Whatever is returned, only the table was written. The rows of a member that is an array are
its elements if and only if the search comes to an array with these elements. -/
theorem getArray_exact_iff (name str : List UInt8) (x y : ℕ) : WritesInside name str x y ∧
    ∀ rs, Fits name str rs x y → (ReturnsRows name str rs x y ↔ ArrayAt name str rs) := by
  constructor
  · intro fuel r h
    exact getArrayInto_within h
  · intro rs hfits
    constructor
    · exact arrayAt_of_returnsRows hfits.array.flat
    · intro h
      obtain ⟨fuel, hget⟩ := getArray_iff.mpr ⟨h, hfits.count, hfits.short⟩
      obtain ⟨r, hr⟩ := getArrayInto_of_getArray hget
      exact ⟨fuel, r, hr⟩

end

/-- `{"logs":[ {"a":"1"} ]}` -/
theorem getArray_exact_logs : ReturnsRows (ascii "logs") (ascii "\x7b\"logs\":[ \x7b\"a\":\"1\"\x7d ]\x7d")
    [ascii "\x7b\"a\":\"1\"\x7d"] 1 10 := by
  have harray : ArrayText (ascii " \x7b\"a\":\"1\"\x7d ]\x7d") [ascii "\x7b\"a\":\"1\"\x7d"] :=
    .elements (.last (t := ascii " ]\x7d") (u := ascii "\x7d") rfl ⟨ascii "\"a\":\"1\"", rfl, by decide⟩ rfl)
  refine ((getArray_exact_iff _ _ 1 10).2 _ ⟨?_, by decide, by decide, by decide, by decide⟩).mpr ?_
  · exact ⟨ascii "\x7b", _, _, _, rfl, rfl, rfl, harray⟩
  · exact ⟨_, _, _, _, .refl, rfl, rfl, rfl, harray⟩

/-- The table of `{"xlogs":[],"logs":[{"a":"1"}]}` stays empty. -/
theorem getArray_inexact : ¬ ∀ (name str : List UInt8) (rs : List (List UInt8)) (x y : ℕ), 0 ∉ name → 0 ∉ str →
    Fits name str rs x y → ReturnsRows name str rs x y := by
  intro h
  have harray : ArrayText (ascii "\x7b\"a\":\"1\"\x7d]\x7d") [ascii "\x7b\"a\":\"1\"\x7d"] :=
    .elements (.last (t := ascii "]\x7d") (u := ascii "\x7d") rfl ⟨ascii "\"a\":\"1\"", rfl, by decide⟩ rfl)
  obtain ⟨fuel, r, hinto, hvalue, -⟩ := h (ascii "logs")
    (ascii "\x7b\"xlogs\":[],\"logs\":[\x7b\"a\":\"1\"\x7d]\x7d") [ascii "\x7b\"a\":\"1\"\x7d"] 1 10 (by decide) (by decide)
    ⟨⟨ascii "\x7b\"xlogs\":[],", _, _, _, rfl, rfl, rfl, harray⟩, by decide, by decide, by decide, by decide⟩
  cases fuel with
  | zero => cases hinto
  | succ fuel =>
    have hfirst := @findArray_first (ascii "logs") (ascii "\x7b\"xlogs\":[],\"logs\":[\x7b\"a\":\"1\"\x7d]\x7d") _ rfl fuel
    rw [getArrayInto, hfirst] at hinto
    cases hinto
    cases hvalue

end ToolJson2

end SabApp
