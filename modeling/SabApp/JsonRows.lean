import SabApp.Decimal

/-!
# Rows of an array

`tool_json2_getArray` looks for an array by its bare name and copies the texts of its elements, each up to its first
closing brace, into the rows of a table. The members of a row are then looked up with the other readers.
-/

namespace SabApp

def Plain.ofAscii (s : String) (hquote : 34 ∉ CText.ascii s := by exact CText.no_quote_ascii _ CText.checked)
    (hzero : 0 ∉ CText.ascii s := by exact CText.no_zero_ascii _ CText.checked) : Plain := ⟨CText.ascii s, hquote, hzero⟩

/-- A number as the value of a member. -/
def Plain.decimal (n : ℤ) : Plain :=
  ⟨Decimal.decimal n, Decimal.not_mem_decimal (by decide), Decimal.not_mem_decimal (by decide)⟩

namespace ToolJson2

open CText

def skip (cs : List UInt8) : List UInt8 := cs.dropWhile isBlank

/-- The search of `tool_json2_getArray` in `fuel` rounds: the text behind the bracket, or -1. Where the member is no
array the next round starts at the same place. -/
def findArray (name : List UInt8) : ℕ → List UInt8 → Option (Option (List UInt8))
  | 0, _ => none
  | fuel + 1, str =>
    match strstr name str with
    | none => some none
    | some idx =>
      match idx.drop name.length with
      | [] => some none
      | c :: cs =>
        if c ≠ 34 then findArray name fuel (c :: cs)
        else
          match skip cs with
          | [] => some none
          | c :: cs =>
            if c ≠ 58 then findArray name fuel (c :: cs)
            else
              match skip cs with
              | [] => some none
              | c :: cs => if c = 91 then some (some cs) else findArray name fuel str

/-- The inner loop, which stops behind a brace: what it copies and the text it stops at. -/
def copyRow : UInt8 → ℕ → List UInt8 → Option (List UInt8 × List UInt8)
  | _, 0, _ => none
  | _, _ + 1, [] => none
  | prev, n + 1, c :: cs => if prev = 125 then some ([], c :: cs) else (copyRow c n cs).map fun r => (c :: r.1, r.2)

/-- The outer loop with `x` rows left. Before the opening brace stands a bracket, a comma or a blank. -/
def rows (y : ℕ) : ℕ → List UInt8 → Option (List (List UInt8))
  | 0, _ => none
  | x + 1, cs =>
    if cs.head? ≠ some 123 then none
    else
      match copyRow 44 y cs with
      | none => none
      | some (row, rest) =>
        match skip rest with
        | 93 :: _ => some [row]
        | 44 :: rest => (rows y x (skip rest)).map (row :: ·)
        | _ => none

/-- `tool_json2_getArray`: the rows, or -1. -/
def getArray (fuel : ℕ) (str name : List UInt8) (x y : ℕ) : Option (Option (List (List UInt8))) :=
  (findArray name fuel str).map fun found => found.bind fun cs =>
    if (skip cs).head? = some 93 then some [] else rows y x (skip cs)

/-! ## Copying -/

/-- The text of an element without braces in it, for which a row of `y` bytes has room. -/
def IsRow (y : ℕ) (row : List UInt8) : Prop := ∃ body, row = 123 :: (body ++ [125]) ∧ 125 ∉ body ∧ row.length < y

theorem copyRow_block {body : List UInt8} (h : 125 ∉ body) (c : UInt8) (cs : List UInt8) :
    ∀ {prev : UInt8} {n : ℕ}, prev ≠ 125 → body.length + 1 < n →
      copyRow prev n (body ++ 125 :: c :: cs) = some (body ++ [125], c :: cs) := by
  induction body with
  | nil =>
    intro prev n hp hn
    obtain ⟨m, rfl⟩ : ∃ m, n = m + 2 := ⟨n - 2, by simp at hn; omega⟩
    rw [List.nil_append, copyRow, if_neg hp, copyRow, if_pos rfl]
    rfl
  | cons b body ih =>
    intro prev n hp hn
    rw [List.mem_cons, not_or] at h
    obtain ⟨m, rfl⟩ : ∃ m, n = m + 1 := ⟨n - 1, by omega⟩
    have hb : copyRow b m (body ++ 125 :: c :: cs) = some (body ++ [125], c :: cs) :=
      ih h.2 (fun he => h.1 he.symm) (by simp at hn; omega)
    rw [List.cons_append, copyRow, if_neg hp, hb]
    rfl

/-- The text ends before the copy is done. -/
theorem copyRow_end {body : List UInt8} (h : 125 ∉ body) : ∀ {prev : UInt8} {n : ℕ}, prev ≠ 125 →
    copyRow prev n (body ++ [125]) = none := by
  induction body with
  | nil =>
    intro prev n hp
    match n with
    | 0 => rfl
    | 1 => simp [copyRow, hp]
    | n + 2 => simp [copyRow, hp]
  | cons b body ih =>
    intro prev n hp
    rw [List.mem_cons, not_or] at h
    cases n with
    | zero => rfl
    | succ n =>
      rw [List.cons_append, copyRow, if_neg hp, ih h.2 fun he => h.1 he.symm]
      rfl

section
variable {y : ℕ}

/-- A row is copied, and what stands behind it decides how it goes on. -/
theorem rows_row {row : List UInt8} (h : IsRow y row) (x : ℕ) (t : List UInt8) :
    rows y (x + 1) (row ++ t) =
      match skip t with
      | 93 :: _ => some [row]
      | 44 :: rest => (rows y x (skip rest)).map (row :: ·)
      | _ => none := by
  obtain ⟨body, rfl, hb, hlen⟩ := h
  have hb' : (125 : UInt8) ∉ 123 :: body := by simpa using hb
  rw [rows, if_neg (by simp)]
  cases t with
  | nil => rw [List.append_nil, ← List.cons_append, copyRow_end hb' (by decide)]; rfl
  | cons c cs =>
    have hc : copyRow 44 y (123 :: body ++ 125 :: c :: cs) = some (123 :: body ++ [125], c :: cs) :=
      copyRow_block hb' c cs (by decide) (by simp at hlen ⊢; omega)
    simp only [List.cons_append, List.append_assoc, List.nil_append] at hc ⊢
    rw [hc]

theorem rows_last {row : List UInt8} (h : IsRow y row) (x : ℕ) (t : List UInt8) :
    rows y (x + 1) (row ++ 93 :: t) = some [row] := by
  rw [rows_row h]
  rfl

theorem rows_comma {row : List UInt8} (h : IsRow y row) (x : ℕ) (t : List UInt8) :
    rows y (x + 1) (row ++ 44 :: 123 :: t) = (rows y x (123 :: t)).map (row :: ·) := by
  rw [rows_row h]
  rfl

theorem IsRow.cons {row : List UInt8} (h : IsRow y row) : ∃ t, row = 123 :: t := by
  obtain ⟨body, rfl, -⟩ := h
  exact ⟨_, rfl⟩

/-- **Rows.** The elements come back as they stand. -/
theorem rows_commas (t : List UInt8) : ∀ {rs : List (List UInt8)} {x : ℕ}, rs ≠ [] → rs.length ≤ x →
    (∀ r ∈ rs, IsRow y r) → rows y x (commas rs ++ 93 :: t) = some rs
  | [], _, hne, _, _ => absurd rfl hne
  | [r], x, _, hx, h => by
    obtain ⟨x, rfl⟩ : ∃ n, x = n + 1 := ⟨x - 1, by simp at hx; omega⟩
    exact rows_last (h r (by simp)) x t
  | r :: s :: rs, x, _, hx, h => by
    obtain ⟨x, rfl⟩ : ∃ n, x = n + 1 := ⟨x - 1, by simp at hx; omega⟩
    have ih : rows y x (commas (s :: rs) ++ 93 :: t) = some (s :: rs) :=
      rows_commas t (by simp) (by simpa using hx) fun q hq => h q (.tail _ hq)
    obtain ⟨u, hu⟩ := (h s (by simp)).cons
    obtain ⟨v, hv⟩ : ∃ v, commas (s :: rs) ++ 93 :: t = 123 :: v := by
      cases rs with
      | nil => exact ⟨u ++ 93 :: t, by rw [commas, hu]; rfl⟩
      | cons q rs => exact ⟨u ++ (44 :: commas (q :: rs) ++ 93 :: t), by rw [commas, hu]; simp⟩
    rw [commas, List.append_assoc, List.cons_append, hv, rows_comma (h r (by simp)), ← hv, ih]
    rfl

/-- The elements that stand before another one are rows of what is copied. -/
theorem rows_front {cs : List UInt8} : ∀ {rs L : List (List UInt8)} {x : ℕ}, (∀ r ∈ rs, IsRow y r) →
    rows y x (rs.flatMap (fun r => r ++ [44]) ++ 123 :: cs) = some L →
    ∃ x' L', L = rs ++ L' ∧ rows y x' (123 :: cs) = some L'
  | [], L, x, _, h => ⟨x, L, rfl, h⟩
  | r :: rs, L, 0, _, h => by cases h
  | r :: rs, L, x + 1, hr, h => by
    obtain ⟨u, hu⟩ : ∃ u, rs.flatMap (fun r => r ++ [44]) ++ 123 :: cs = 123 :: u := by
      cases rs with
      | nil => exact ⟨cs, rfl⟩
      | cons s rs =>
        obtain ⟨v, hv⟩ := (hr s (by simp)).cons
        exact ⟨v ++ ([44] ++ (rs.flatMap (fun r => r ++ [44]) ++ 123 :: cs)), by rw [List.flatMap_cons, hv]; simp⟩
    rw [List.flatMap_cons, List.append_assoc, List.append_assoc, List.singleton_append, hu,
      rows_comma (hr r (by simp)), Option.map_eq_some_iff] at h
    obtain ⟨L₁, h₁, rfl⟩ := h
    obtain ⟨x', L', rfl, h'⟩ := rows_front (fun q hq => hr q (.tail _ hq)) (hu ▸ h₁)
    exact ⟨x', L', rfl, h'⟩

theorem commas_append (r : List UInt8) (ss : List (List UInt8)) : ∀ rs : List (List UInt8),
    commas (rs ++ r :: ss) = rs.flatMap (fun q => q ++ [44]) ++ commas (r :: ss)
  | [] => rfl
  | [q] => by simp [commas]
  | q :: s :: rs => by
    have ih := commas_append r ss (s :: rs)
    rw [List.cons_append] at ih
    rw [List.cons_append, List.cons_append, commas, ih]
    simp

end

/-- The first place of the name is the name of an array. -/
theorem findArray_first {name str t : List UInt8} (h : strstr name str = some (name ++ 34 :: 58 :: 91 :: t)) (fuel : ℕ) :
    findArray name (fuel + 1) str = some (some t) := by
  have h₁ : skip (58 :: 91 :: t) = 58 :: 91 :: t := rfl
  have h₂ : skip (91 :: t) = 91 :: t := rfl
  simp only [findArray, h, List.drop_left, h₁, h₂]
  rfl

/-- An array whose elements stand without blanks. -/
theorem getArray_commas {name str t : List UInt8} {rs : List (List UInt8)} {x y : ℕ}
    (h : strstr name str = some (name ++ 34 :: 58 :: 91 :: (commas rs ++ 93 :: t))) (hx : rs.length ≤ x)
    (hr : ∀ r ∈ rs, IsRow y r) (fuel : ℕ) : getArray (fuel + 1) str name x y = some (some rs) := by
  rw [getArray, findArray_first h]
  cases rs with
  | nil => rfl
  | cons r rs =>
    obtain ⟨u, hu⟩ := (hr r (by simp)).cons
    have hs : skip (commas (r :: rs) ++ 93 :: t) = commas (r :: rs) ++ 93 :: t := by
      cases rs <;> (rw [commas, hu]; rfl)
    have hh : (commas (r :: rs) ++ 93 :: t).head? = some 123 := by
      cases rs <;> (rw [commas, hu]; rfl)
    simp only [Option.map_some, Option.bind_some, hs, hh]
    rw [if_neg (by decide), rows_commas t (by simp) hx hr]

/-! ## Members of a row -/

/-- Members that the search for a name cannot miss: no value reads as a later name. -/
structure Clear (ms : List (Plain × Plain)) : Prop where
  names : (ms.map fun m => m.1.text).Nodup
  short : ∀ m ∈ ms, m.1.text.length ≤ 125 ∧ m.1.text ≠ [58] ∧ m.1.text ≠ [44]
  values : ms.Pairwise fun m m' => m.2.text ≠ m'.1.text

/-- What numbers and addresses are written with. -/
def isNumber (c : UInt8) : Bool := Decimal.isNumeric c ∨ c = 46

theorem isNumber_of_mem_decimal {n : ℤ} {c : UInt8} (h : c ∈ Decimal.decimal n) : isNumber c = true := by
  simp [isNumber, Decimal.isNumeric_of_mem_decimal h]

/-- With one value that is no number only the names behind it matter. -/
theorem clear_around (before after : List (Plain × Plain)) (m : Plain × Plain) (names : List (List UInt8))
    (hnames : (before ++ m :: after).map (fun m => m.1.text) = names) (hn : names.Nodup)
    (hs : ∀ n ∈ names, (n.length ≤ 125 ∧ n ≠ [58] ∧ n ≠ [44]) ∧ ∃ c ∈ n, isNumber c = false)
    (hv : ∀ x ∈ before ++ after, ∀ c ∈ x.2.text, isNumber c = true) (hm : ∀ x ∈ after, m.2.text ≠ x.1.text) :
    Clear (before ++ m :: after) := by
  have hmem : ∀ x ∈ before ++ m :: after, x.1.text ∈ names := fun x hx => hnames ▸ List.mem_map_of_mem hx
  have hne : ∀ x ∈ before ++ after, ∀ y ∈ before ++ m :: after, x.2.text ≠ y.1.text := by
    intro x hx y hy he
    obtain ⟨c, hc, hb⟩ := (hs _ (hmem y hy)).2
    rw [hv x hx c (he ▸ hc)] at hb
    cases hb
  have hbefore : ∀ x ∈ before, x ∈ before ++ after := fun x hx => List.mem_append_left _ hx
  have hafter : ∀ x ∈ after, x ∈ before ++ after := fun x hx => List.mem_append_right _ hx
  refine ⟨hnames ▸ hn, fun x hx => (hs _ (hmem x hx)).1, List.pairwise_append.mpr ⟨?_, ?_, ?_⟩⟩
  · exact List.pairwise_of_forall_mem_list fun x hx y hy => hne x (hbefore x hx) y (List.mem_append_left _ hy)
  · refine List.pairwise_cons.mpr ⟨hm, List.pairwise_of_forall_mem_list fun x hx y hy => ?_⟩
    exact hne x (hafter x hx) y (List.mem_append_right _ (.tail _ hy))
  · exact fun x hx y hy => hne x (hbefore x hx) y (List.mem_append_right _ hy)

/-- With numbers before the last member the names decide. -/
theorem clear_of_numbers (ms : List (Plain × Plain)) (last : Plain × Plain) (names : List (List UInt8))
    (hnames : (ms ++ [last]).map (fun m => m.1.text) = names) (hn : names.Nodup)
    (hs : ∀ n ∈ names, (n.length ≤ 125 ∧ n ≠ [58] ∧ n ≠ [44]) ∧ ∃ c ∈ n, isNumber c = false)
    (hv : ∀ m ∈ ms, ∀ c ∈ m.2.text, isNumber c = true) : Clear (ms ++ [last]) :=
  clear_around ms [] last names hnames hn hs (by simpa using hv) nofun

/-- A copy with room for what is quoted. -/
theorem copyUntil_quoted {v : List UInt8} (hv : 34 ∉ v) {size : ℕ} (hs : v.length < size) (t : List UInt8) :
    copyUntil (· = 34) size (v ++ 34 :: t) = v ++ [0] := by
  induction v generalizing size with
  | nil =>
    obtain ⟨n, rfl⟩ := Nat.exists_eq_succ_of_ne_zero (Nat.ne_zero_of_lt hs)
    rw [List.nil_append, copyUntil, if_pos (.inr (by decide))]
    rfl
  | cons c v ih =>
    rw [List.mem_cons, not_or] at hv
    obtain ⟨n, rfl⟩ := Nat.exists_eq_succ_of_ne_zero (Nat.ne_zero_of_lt hs)
    have hn : v.length < n := by simpa using hs
    have hc : ¬ (n = 0 ∨ decide (c = 34) = true) := by
      rw [not_or, decide_eq_true_iff]
      exact ⟨by omega, fun he => hv.1 he.symm⟩
    rw [List.cons_append, copyUntil, if_neg hc, ih hv.2 hn]
    rfl

theorem readValue_quoted {v : List UInt8} (hv : 34 ∉ v) {size : ℕ} (hs : v.length < size) (t : List UInt8) :
    readValue size (34 :: (v ++ 34 :: t)) = some (v ++ [0]) :=
  congrArg some (copyUntil_quoted hv hs t)

/-- **Lookup.** Each member of a row is found. -/
theorem getValue_member {ms : List (Plain × Plain)} (h : Clear ms) {name value : Plain} (hm : (name, value) ∈ ms)
    {size : ℕ} (hs : value.text.length < size) (buf : List UInt8) :
    getValue (JsonText.ofStrings ms).text name.text buf size =
      (0, value.text ++ [0] ++ buf.drop (value.text.length + 1)) := by
  obtain ⟨hshort, hcolon, hcomma⟩ := h.short _ hm
  obtain ⟨before, after, rfl⟩ := List.append_of_mem hm
  have hvalue : ∀ m ∈ before, m.2.text ≠ name.text := fun m hmem =>
    (List.pairwise_append.mp h.values).2.2 m hmem _ (List.mem_cons_self ..)
  obtain ⟨m, ms, hms, htext⟩ := text_eq before name value after
  have hfound := strstr_clear hcolon hcomma hvalue hms (hms ▸ h.names)
  rw [← strstr_brace, ← htext, ← quotedName_short hshort] at hfound
  have hcol : toColon (58 :: 34 :: (value.text ++ 34 :: fromEnd after)) = some (34 :: (value.text ++ 34 :: fromEnd after)) :=
    rfl
  simp only [getValue, hfound, List.drop_left, hcol, Int.toNat_natCast, readValue_quoted value.no_quote hs,
    List.length_append, List.length_singleton]

theorem value64_member {ms : List (Plain × Plain)} (h : Clear ms) {name value : Plain} (hm : (name, value) ∈ ms)
    (hs : value.text.length < 64) : value64 (JsonText.ofStrings ms).text name.text = some value.text := by
  have hg := getValue_member h hm hs (List.replicate 64 0)
  simp only [value64, show (64 : ℤ) = ((64 : ℕ) : ℤ) from rfl, hg]
  rw [if_neg (by decide), List.append_assoc, List.singleton_append, cstr_append_zero value.no_zero]

/-- A name that an earlier member has as its value is not found. -/
theorem value64_blocked {before after : List (Plain × Plain)} {name value : Plain} (hshort : name.text.length ≤ 125)
    (hcolon : name.text ≠ [58]) (hcomma : name.text ≠ [44]) (hvalue : ∃ m ∈ before, m.2.text = name.text)
    (hn : ((before ++ (name, value) :: after).map fun m => m.1.text).Nodup) :
    value64 (JsonText.ofStrings (before ++ (name, value) :: after)).text name.text = none := by
  obtain ⟨m, ms, hms, htext⟩ := text_eq before name value after
  obtain ⟨rest, hfound⟩ := strstr_blocked hcolon hcomma hvalue hms (hms ▸ hn)
  rw [← strstr_brace, ← htext, ← quotedName_short hshort] at hfound
  have hcol : toColon (44 :: rest) = none := rfl
  simp only [value64, getValue, hfound, List.drop_left, hcol]
  rfl

theorem not_isPrefixOf_decimal {c : UInt8} (hc : Decimal.isNumeric c = false) {n : ℤ} {s t : List UInt8} :
    (s ++ c :: t).isPrefixOf (Decimal.decimal n) = false := by
  rw [Bool.eq_false_iff]
  intro hp
  exact Decimal.not_mem_decimal hc ((List.isPrefixOf_iff_prefix.mp hp).mem (by simp))

theorem readNumber_decimal_clamped (n : ℤ) :
    readNumber ToolJson.atoi (Decimal.decimal n) = max (-2 ^ 31) (min n (2 ^ 31 - 1)) := by
  have hf : (ascii "false").isPrefixOf (Decimal.decimal n) = false :=
    not_isPrefixOf_decimal (c := 102) (s := []) (t := ascii "alse") (by decide)
  have ht : (ascii "true").isPrefixOf (Decimal.decimal n) = false :=
    not_isPrefixOf_decimal (c := 116) (s := []) (t := ascii "rue") (by decide)
  have hx : (ascii "0x").isPrefixOf (Decimal.decimal n) = false :=
    not_isPrefixOf_decimal (c := 120) (s := [48]) (t := []) (by decide)
  have hX : (ascii "0X").isPrefixOf (Decimal.decimal n) = false :=
    not_isPrefixOf_decimal (c := 88) (s := [48]) (t := []) (by decide)
  have ha := Decimal.atoi_decimal_clamped n (t := []) (by simp)
  rw [List.append_nil] at ha
  simp [readNumber, hf, ht, hx, hX, ha]

theorem getNumber_member_clamped {ms : List (Plain × Plain)} (h : Clear ms) {name : Plain} {n : ℤ}
    (hm : (name, Plain.decimal n) ∈ ms) (hlen : (Decimal.decimal n).length < 64) :
    getNumber (JsonText.ofStrings ms).text name.text = some (max (-2 ^ 31) (min n (2 ^ 31 - 1))) := by
  rw [getNumber, value64_member h hm hlen, Option.map_some]
  exact congrArg some (readNumber_decimal_clamped n)

theorem getNumber_member {ms : List (Plain × Plain)} (h : Clear ms) {name : Plain} {n : ℤ}
    (hm : (name, Plain.decimal n) ∈ ms) (h₁ : -2 ^ 31 ≤ n) (h₂ : n < 2 ^ 31) :
    getNumber (JsonText.ofStrings ms).text name.text = some n := by
  have hlen : (Decimal.decimal n).length < 64 := Nat.lt_of_le_of_lt (Decimal.length_decimal_le h₁ h₂) (by decide)
  rw [getNumber_member_clamped h hm hlen]
  congr 1
  omega

/-! ## Where a value comes from -/

theorem copyUntil_stretch (stop : UInt8 → Bool) {size : ℕ} (hs : size ≠ 0) (cs : List UInt8) :
    ∃ v, copyUntil stop size cs = v ++ [0] ∧ v <+: cs := by
  induction cs generalizing size with
  | nil =>
    obtain ⟨n, rfl⟩ := Nat.exists_eq_succ_of_ne_zero hs
    exact ⟨[], rfl, List.prefix_refl _⟩
  | cons c cs ih =>
    obtain ⟨n, rfl⟩ := Nat.exists_eq_succ_of_ne_zero hs
    rw [copyUntil]
    split
    · exact ⟨[], rfl, List.nil_prefix⟩
    · next h =>
      have hn : n ≠ 0 := fun he => h (.inl he)
      obtain ⟨v, hv, hp⟩ := ih hn
      exact ⟨c :: v, by rw [hv]; rfl, List.cons_prefix_cons.mpr ⟨rfl, hp⟩⟩

/-- What is written is a stretch of the text, or a literal without its terminator. -/
theorem readValue_stretch {size : ℕ} (hs : size ≠ 0) {t bytes : List UInt8} (h : readValue size t = some bytes) :
    (∃ v, bytes = v ++ [0] ∧ v <:+: t) ∨ bytes ∈ [ascii "false", ascii "true", ascii "null"] := by
  induction t with
  | nil => cases h
  | cons c cs ih =>
    rw [readValue] at h
    cases hc : char (c :: cs) with
    | quotation =>
      rw [hc] at h
      cases h
      obtain ⟨v, hv, hp⟩ := copyUntil_stretch (· = 34) hs cs
      exact .inl ⟨v, hv, List.infix_cons hp.isInfix⟩
    | number =>
      rw [hc] at h
      cases h
      obtain ⟨v, hv, hp⟩ := copyUntil_stretch (fun c => c = 44 ∨ c = 125) hs (c :: cs)
      exact .inl ⟨v, hv, hp.isInfix⟩
    | blank =>
      rw [hc] at h
      rcases ih h with ⟨v, hv, hi⟩ | hlit
      · exact .inl ⟨v, hv, List.infix_cons hi⟩
      · exact .inr hlit
    | false | true | null =>
      rw [hc] at h
      cases h
      exact .inr (by simp)
    | _ => rw [hc] at h; cases h

theorem cstr_is_front (v t : List UInt8) : cstr (v ++ 0 :: t) <+: v := by
  induction v with
  | nil => exact List.nil_prefix
  | cons c v ih =>
    by_cases hc : c = 0
    · rw [hc]
      exact List.nil_prefix
    · rw [List.cons_append, cstr, List.takeWhile_cons_of_pos (by simpa using hc)]
      exact List.cons_prefix_cons.mpr ⟨rfl, ih⟩

/-- **Source of a value.** A value is a stretch of the text, or one of the literals. -/
theorem value64_stretch {str name v : List UInt8} (h : value64 str name = some v) :
    v <:+: str ∨ v ∈ [ascii "false", ascii "true", ascii "null"] := by
  simp only [value64, getValue] at h
  cases hfound : strstr (quotedName name) str with
  | none => simp [hfound] at h
  | some idx =>
    obtain ⟨rest, rfl, a, ha, -⟩ := firstAt_of_strstr hfound
    simp only [hfound, List.drop_left] at h
    cases hcol : toColon rest with
    | none => simp [hcol] at h
    | some u =>
      obtain ⟨b, hb, -⟩ := toColon_eq hcol
      have hu : u <:+: str := by
        refine ⟨a ++ (quotedName name ++ (b ++ [58])), [], ?_⟩
        rw [ha, hb]
        simp
      simp only [hcol] at h
      cases hr : readValue (64 : ℤ).toNat u with
      | none =>
        simp only [hr] at h
        rw [if_pos (by decide)] at h
        cases h
      | some bytes =>
        simp only [hr] at h
        rw [if_neg (by decide), Option.some.injEq] at h
        subst h
        rcases readValue_stretch (by decide) hr with ⟨w, rfl, hw⟩ | hlit
        · refine .inl (List.IsInfix.trans ?_ (hw.trans hu))
          rw [List.append_assoc, List.singleton_append]
          exact (cstr_is_front w _).isInfix
        · refine .inr ?_
          simp only [List.mem_cons, List.not_mem_nil, or_false] at hlit
          rcases hlit with rfl | rfl | rfl <;> decide

/-- A mark that ends a text ends every stretch that it stands in. -/
theorem eq_nil_of_stretch {s a b : List UInt8} {c : UInt8} (hs : c ∉ s) (h : a ++ c :: b <:+: s ++ [c]) : b = [] := by
  obtain ⟨p, q, hpq⟩ := h
  have heq : (p ++ a) ++ (c :: (b ++ q)) = s ++ [c] := by rw [← hpq]; simp
  rcases List.append_eq_append_iff.mp heq with ⟨d, hd, hc⟩ | ⟨d, hd, hc⟩
  · cases d with
    | nil => exact (List.append_eq_nil_iff.mp (List.cons.inj hc).2).1
    | cons x d =>
      rw [List.cons_append] at hc
      exact absurd (hd ▸ List.mem_append_right _ ((List.cons.inj hc).1 ▸ List.mem_cons_self)) hs
  · cases d with
    | nil => exact (List.append_eq_nil_iff.mp (List.cons.inj hc).2.symm).1
    | cons x d => simp at hc

theorem length_copyUntil (stop : UInt8 → Bool) : ∀ (size : ℕ) (cs : List UInt8), (copyUntil stop size cs).length ≤ size
  | 0, _ => Nat.le_refl _
  | _ + 1, [] => Nat.succ_le_succ (Nat.zero_le _)
  | size + 1, c :: cs => by
    rw [copyUntil]
    split
    · exact Nat.succ_le_succ (Nat.zero_le _)
    · exact Nat.succ_le_succ (length_copyUntil stop size cs)

theorem length_readValue {size : ℕ} (hs : 5 ≤ size) {t bytes : List UInt8} (h : readValue size t = some bytes) :
    bytes.length ≤ size := by
  induction t with
  | nil => cases h
  | cons c cs ih =>
    have hlit : ∀ l ∈ [ascii "false", ascii "true", ascii "null"], l.length ≤ 5 := by decide
    rw [readValue] at h
    cases hc : char (c :: cs) with
    | quotation | number =>
      rw [hc] at h
      cases h
      exact length_copyUntil _ _ _
    | blank =>
      rw [hc] at h
      exact ih h
    | false | true | null =>
      rw [hc] at h
      cases h
      exact Nat.le_trans (hlit _ (by simp)) hs
    | _ => rw [hc] at h; cases h

theorem length_getValue {size : ℕ} (hs : 5 ≤ size) (str name : List UInt8) {buf : List UInt8} (hb : buf.length = size) :
    (getValue str name buf size).2.length = size := by
  unfold getValue
  split
  · exact hb
  split
  · exact hb
  split
  · exact hb
  · next bytes hr =>
    have hle : bytes.length ≤ size := length_readValue hs hr
    simp only [List.length_append, List.length_drop, hb]
    omega

end ToolJson2

end SabApp
