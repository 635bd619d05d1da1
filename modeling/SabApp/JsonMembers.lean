import Mathlib.Data.List.Forall2
import SabApp.JsonSafe

/-!
# JSON texts

The grammar of the texts that the parser is given, with blanks between any two tokens, and what the
parser does on one member of an object.
-/

namespace SabApp

open CText

/-! ## Tokens -/

def isBlank (c : UInt8) : Bool := c = 32 ∨ c = 9 ∨ c = 10 ∨ c = 13

/-- The bytes of a JSON number. -/
def isNumeric (c : UInt8) : Bool := ToolJson.isDigit c ∨ c = 43 ∨ c = 45 ∨ c = 46 ∨ c = 69 ∨ c = 101

/-- Blanks between two tokens. -/
structure Blanks where
  text : List UInt8
  blank : ∀ c ∈ text, isBlank c = true

/-- A name or a string: no quote, no escape and no terminator. -/
structure Plain where
  text : List UInt8
  no_quote : 34 ∉ text
  no_zero : 0 ∉ text

/-- A JSON number as it is written. -/
structure Numeral where
  first : UInt8
  more : List UInt8
  first_ok : first = 45 ∨ ToolJson.isDigit first = true
  more_ok : ∀ c ∈ more, isNumeric c = true

inductive JsonValue where
  | str (s : Plain)
  | num (x : Numeral)
  | null

namespace Numeral

def text (x : Numeral) : List UInt8 := x.first :: x.more

/-- No fraction and no exponent. -/
def Integral (x : Numeral) : Prop := ∀ c ∈ x.more, ToolJson.isDigit c = true

instance (x : Numeral) : Decidable x.Integral := List.decidableBAll _ _

/-- The integer that is written. -/
def val (x : Numeral) : ℤ := if x.first = 45 then -(ToolJson.digitsVal x.more : ℤ) else ToolJson.digitsVal x.text

/-- A decimal integer of 32 bits. -/
def Int32 (x : Numeral) : Prop :=
  x.Integral ∧ (x.first = 45 → x.more ≠ []) ∧ -2 ^ 31 ≤ x.val ∧ x.val ≤ 2 ^ 31 - 1

instance (x : Numeral) : Decidable x.Int32 := inferInstanceAs (Decidable (_ ∧ _ ∧ _ ∧ _))

end Numeral

def JsonValue.text : JsonValue → List UInt8
  | .str s => 34 :: (s.text ++ [34])
  | .num x => x.text
  | .null => ascii "null"

/-- A member with a plain value: blanks before its name, before and behind its colon and behind its
value. -/
structure JsonMember where
  pre : Blanks
  name : Plain
  mid : Blanks
  gap : Blanks
  value : JsonValue
  post : Blanks

/-- What the value and the blanks around it look like. -/
def JsonMember.tail (m : JsonMember) : List UInt8 := m.gap.text ++ (m.value.text ++ m.post.text)

def JsonMember.text (m : JsonMember) : List UInt8 :=
  m.pre.text ++ 34 :: (m.name.text ++ 34 :: (m.mid.text ++ 58 :: m.tail))

theorem JsonMember.text_append (m : JsonMember) (u : List UInt8) :
    m.text ++ u = m.pre.text ++ 34 :: (m.name.text ++ 34 :: (m.mid.text ++ 58 :: (m.tail ++ u))) := by
  simp [JsonMember.text]

/-- No blank stands where the parser takes none: before a string or a number, or behind a number. -/
def JsonMember.Tight (m : JsonMember) : Prop :=
  match m.value with
  | .str _ => m.gap.text = []
  | .num x => m.gap.text = [] ∧ m.post.text = [] ∧ x.Integral
  | .null => True

instance (m : JsonMember) : Decidable m.Tight := by
  unfold JsonMember.Tight
  split <;> infer_instance

/-- A number is an integer of 32 bits. -/
def JsonMember.Int32 (m : JsonMember) : Prop :=
  match m.value with
  | .num x => x.Int32
  | _ => True

instance (m : JsonMember) : Decidable m.Int32 := by
  unfold JsonMember.Int32
  split <;> infer_instance

def Blanks.none : Blanks := ⟨[], by simp⟩

/-- The name or string of one byte. -/
def Plain.letter (c : UInt8) (hquote : 34 ∉ [c] := by decide) (hzero : 0 ∉ [c] := by decide) : Plain :=
  ⟨[c], hquote, hzero⟩

def Plain.a : Plain := .letter 97

def Plain.b : Plain := .letter 98

/-- The number of one digit. -/
def Numeral.digit (c : UInt8) (hc : ToolJson.isDigit c = true := by exact Eq.refl true) : Numeral :=
  ⟨c, [], .inr hc, by simp⟩

/-- A member as the encoders write it. -/
def JsonMember.compact (name : Plain) (value : JsonValue) : JsonMember := ⟨.none, name, .none, .none, value, .none⟩

/-- A value with its array, its place there and its name. -/
structure JsonLeaf where
  array : Plain
  index : ℕ
  name : Plain
  value : JsonValue

/-- The array that the root members are kept under. -/
def rootArray : Plain := ⟨ToolJson.rootArrayName, by decide, by decide⟩

/-- Texts with commas between them. -/
def commas : List (List UInt8) → List UInt8
  | [] => []
  | [t] => t
  | t :: u :: ts => t ++ 44 :: commas (u :: ts)

theorem length_le_commas (ts : List (List UInt8)) : ts.length ≤ (commas ts).length + 1 := by
  induction ts with
  | nil => simp
  | cons t ts ih =>
    cases ts with
    | nil => simp
    | cons u ts =>
      rw [commas, List.length_append, List.length_cons (a := t), List.length_cons (a := (44 : UInt8))]
      omega

theorem ne_of_char {f : UInt8 → Bool} {c d : UInt8} (hc : f c = true) (hd : f d = false) : c ≠ d := by
  rintro rfl
  rw [hc] at hd
  cases hd

theorem Blanks.ne (b : Blanks) {c d : UInt8} (hc : c ∈ b.text) (hd : isBlank d = false) : c ≠ d :=
  ne_of_char (b.blank c hc) hd

theorem Numeral.numeric (x : Numeral) : ∀ c ∈ x.text, isNumeric c = true := by
  intro c hc
  rcases List.mem_cons.mp hc with rfl | hc
  · rcases x.first_ok with h | h
    · rw [h]
      decide
    · simp [isNumeric, h]
  · exact x.more_ok c hc

/-! ### No terminator inside -/

theorem zero_not_mem_commas {ts : List (List UInt8)} (h : ∀ t ∈ ts, 0 ∉ t) : 0 ∉ commas ts := by
  induction ts with
  | nil => simp [commas]
  | cons t ts ih =>
    have ht := h t List.mem_cons_self
    have hts := ih fun u hu => h u (List.mem_cons_of_mem _ hu)
    cases ts with
    | nil => exact ht
    | cons u ts => simp [commas, ht, hts]

theorem Blanks.zero_not_mem (b : Blanks) : 0 ∉ b.text := fun h => b.ne h rfl rfl

theorem JsonValue.zero_not_mem (v : JsonValue) : 0 ∉ v.text := by
  cases v with
  | str s => simp [JsonValue.text, s.no_zero]
  | num x => exact fun h => ne_of_char (x.numeric 0 h) rfl rfl
  | null => decide

theorem JsonMember.zero_not_mem (m : JsonMember) : 0 ∉ m.text := by
  simp [JsonMember.text, JsonMember.tail, Blanks.zero_not_mem, JsonValue.zero_not_mem, m.name.no_zero]

namespace ToolJson

/-! ## Scans -/

variable {st : ToolJson}

theorem scan_block {stop : UInt8 → Bool} {s t : List UInt8} {c : UInt8} (h : st.rest = s ++ c :: t)
    (hs : ∀ x ∈ s, stop x = false) (hc : stop c = true) :
    scan stop st = .ok (0, { st with past := st.past ++ s, rest := c :: t }) := by
  simp [scan, h, before_block hs hc, after_block hs hc]

/-- The bytes that `tool_json_parseNull` walks over. -/
def nullSkips (c : UInt8) : Bool := c ≠ 44 ∧ c ≠ 125 ∧ c ≠ 34 ∧ c ≠ 110

theorem nullScan_append {s : List UInt8} (hs : ∀ c ∈ s, nullSkips c = true) (u : List UInt8) :
    nullScan (s ++ u) = ((nullScan u).1, (nullScan u).2 + s.length) := by
  induction s with
  | nil => rfl
  | cons c s ih =>
    have hc := hs c List.mem_cons_self
    simp only [nullSkips, ne_eq, decide_eq_true_eq] at hc
    have hn : ¬(ascii "null").isPrefixOf (c :: (s ++ u)) = true := by
      intro hp
      obtain ⟨t, ht⟩ := isPrefixOf_null hp
      exact hc.2.2.2 (List.cons.inj ht).1
    rw [List.cons_append, nullScan, if_neg (by simp [hc]), if_neg hn,
      ih fun x hx => hs x (List.mem_cons_of_mem _ hx), List.length_cons, Nat.add_assoc]

theorem nullScan_stop {c : UInt8} (hc : c = 44 ∨ c = 125 ∨ c = 34) (t : List UInt8) :
    nullScan (c :: t) = (0, 0) := by
  rw [nullScan, if_pos hc]

theorem nullScan_null (t : List UInt8) : nullScan (ascii "null" ++ t) = (1, 0) := by
  have hp : (ascii "null").isPrefixOf (110 :: ([117, 108, 108] ++ t)) = true :=
    List.isPrefixOf_iff_prefix.mpr (List.prefix_append (ascii "null") t)
  show nullScan (110 :: ([117, 108, 108] ++ t)) = (1, 0)
  rw [nullScan, if_neg (by decide), if_pos hp]

/-- A comma or a closing brace, which end a member. -/
def isEnd (c : UInt8) : Bool := c = 44 ∨ c = 125

theorem isEnd_iff {c : UInt8} : isEnd c = true ↔ c = 44 ∨ c = 125 := by simp [isEnd]

theorem numberScan_digits {s : List UInt8} (hs : ∀ x ∈ s, isDigit x = true) {c : UInt8}
    (hc : isEnd c = true) (t : List UInt8) : numberScan true (s ++ c :: t) = (1, s.length) := by
  induction s with
  | nil => simp [numberScan, isEnd_iff.mp hc]
  | cons x s ih =>
    have hx := hs x List.mem_cons_self
    have hne : ¬(x = 44 ∨ x = 125) := by
      rintro (rfl | rfl) <;> simp [isDigit] at hx
    rw [List.cons_append, numberScan, if_neg hne, if_neg (by simp [hx]),
      ih fun y hy => hs y (List.mem_cons_of_mem _ hy), List.length_cons]

theorem numberScan_other {s : List UInt8} (hs : ∀ x ∈ s, isEnd x = false) (hne : ∃ x ∈ s, isDigit x = false)
    (t : List UInt8) : (numberScan true (s ++ t)).1 = -1 := by
  induction s with
  | nil => simp at hne
  | cons x s ih =>
    have hx : ¬(x = 44 ∨ x = 125) := by simpa [isEnd] using hs x List.mem_cons_self
    rw [List.cons_append, numberScan, if_neg hx]
    by_cases hd : isDigit x = true
    · rw [if_neg (by simp [hd])]
      obtain ⟨y, hy, hyd⟩ := hne
      rcases List.mem_cons.mp hy with rfl | hy
      · rw [hd] at hyd
        cases hyd
      · exact ih (fun z hz => hs z (List.mem_cons_of_mem _ hz)) ⟨y, hy, hyd⟩
    · rw [if_pos hd]

/-! ## Items -/

/-- `s` stands in the text at `off`. -/
def StandsAt (text : List UInt8) (off : ℕ) (s : List UInt8) : Prop := ∃ a b, text = a ++ s ++ b ∧ a.length = off

theorem StandsAt.append {text : List UInt8} {off : ℕ} {s : List UInt8} (h : StandsAt text off s)
    (t : List UInt8) : StandsAt (text ++ t) off s := by
  obtain ⟨a, b, rfl, hoff⟩ := h
  exact ⟨a, b ++ t, by simp, hoff⟩

/-- The pointer reads `s`. -/
def Points (text : List UInt8) (p : Option JsonPtr) (s : List UInt8) : Prop :=
  p = some (.lit s) ∨ ∃ off, p = some (.at off) ∧ StandsAt text off (s ++ [0])

theorem Points.append {text : List UInt8} {p : Option JsonPtr} {s : List UInt8} (h : Points text p s)
    (t : List UInt8) : Points (text ++ t) p s := by
  rcases h with h | ⟨off, hp, hs⟩
  · exact .inl h
  · exact .inr ⟨off, hp, hs.append t⟩

/-- The item's value is `v`; the text of a number goes on with what ends the member. -/
def ValueIs (text : List UInt8) (it : JsonItem) : JsonValue → Prop
  | .str s => it.type = .string ∧ Points text it.value s.text
  | .num x => it.type = .number ∧ it.number = atoi x.text ∧
      ∃ off c, it.value = some (.at off) ∧ isEnd c = true ∧ StandsAt text off (x.text ++ [c])
  | .null => it.type = .null ∧ it.value = some (.lit nullMarker)

theorem ValueIs.append {text : List UInt8} {it : JsonItem} {v : JsonValue} (h : ValueIs text it v)
    (t : List UInt8) : ValueIs (text ++ t) it v := by
  cases v with
  | str s => exact ⟨h.1, h.2.append t⟩
  | num x =>
    obtain ⟨htype, hnum, off, c, hp, hc, hs⟩ := h
    exact ⟨htype, hnum, off, c, hp, hc, hs.append t⟩
  | null => exact h

structure ItemIs (text : List UInt8) (it : JsonItem) (l : JsonLeaf) : Prop where
  array : Points text it.arrayName l.array.text
  index : it.arrayIndex = l.index
  name : Points text it.name l.name.text
  value : ValueIs text it l.value

theorem ItemIs.append {text : List UInt8} {it : JsonItem} {l : JsonLeaf} (h : ItemIs text it l)
    (t : List UInt8) : ItemIs (text ++ t) it l :=
  ⟨h.array.append t, h.index, h.name.append t, h.value.append t⟩

/-- What a call finds: a sound state with the items of array `a` and place `i` ahead. -/
structure Within (n : ℕ) (a : Plain) (i : ℕ) (st : ToolJson) : Prop where
  sound : Sound n st
  array : Points st.past st.curArrayName a.text
  index : st.curArrayIndex = i

/-- The text up to the cursor and the byte there. -/
def seen (st : ToolJson) : List UInt8 := st.past ++ st.rest.take 1

/-- The call has read the leaves `ls` and stands before `rest`. -/
structure Reads (n : ℕ) (a : Plain) (i : ℕ) (st : ToolJson) (ls : List JsonLeaf) (rest : List UInt8)
    (st' : ToolJson) : Prop where
  within : Within n a i st'
  rest : st'.rest = rest
  past : st.past <+: st'.past
  items : ∃ new, st'.item = st.item ++ new ∧ List.Forall₂ (ItemIs st'.seen) new ls

variable {n i : ℕ} {a : Plain}

theorem Within.moved (h : Within n a i st) {s t : List UInt8} (hs : st.rest = s ++ t) :
    Within n a i { st with past := st.past ++ s, rest := t } :=
  ⟨(h.sound.move hs s rfl st.slot).sound, h.array.append s, h.index⟩

theorem Reads.passed {st₁ : ToolJson} {ls : List JsonLeaf} {c : UInt8} {t : List UInt8}
    (h : Reads n a i st ls (c :: t) st₁) : Within n a i { st₁ with past := st₁.past ++ [c], rest := t } :=
  h.within.moved (s := [c]) h.rest

/-- One run of calls after the other, with the byte between them passed. -/
theorem Reads.trans {st₁ st₁' st₂ : ToolJson} {b : Plain} {j : ℕ} {ls ls' : List JsonLeaf} {c : UInt8}
    {t r : List UInt8} (h : Reads n a i st ls (c :: t) st₁) (h' : Reads n b j st₁' ls' r st₂)
    (hpast : st₁'.past = st₁.past ++ [c]) (hitem : st₁'.item = st₁.item) :
    Reads n b j st (ls ++ ls') r st₂ := by
  obtain ⟨new, hnew, hls⟩ := h.items
  obtain ⟨new', hnew', hls'⟩ := h'.items
  have hseen : st₁.seen <+: st₂.past := by
    rw [seen, h.rest]
    exact hpast ▸ h'.past
  obtain ⟨s, hs⟩ := hseen.trans (List.prefix_append _ (st₂.rest.take 1))
  refine ⟨h'.within, h'.rest, ?_, new ++ new', ?_, ?_⟩
  · exact h.past.trans ((List.prefix_append _ _).trans (hpast ▸ h'.past))
  · rw [hnew', hitem, hnew, List.append_assoc]
  · refine List.rel_append (hls.imp fun it l hl => ?_) hls'
    rw [seen, ← hs]
    exact hl.append s

/-! ## One member -/

/-- What a round of `tool_json_parseBigBracket` reads before it looks at the byte behind. -/
def memberStep (P : ToolJson → Result) (st : ToolJson) : Result :=
  orFail st.parseName fun st => orFail (P st) parseCommaCaseBigBracket

theorem orFail_assoc (x : Result) (f g : ToolJson → Result) :
    orFail (orFail x f) g = orFail x fun st => orFail (f st) g := by
  rcases x with e | ⟨ret, st⟩
  · rfl
  · simp only [orFail, ok_bind]
    split
    · rfl
    · rfl

theorem bigBracketLoop_succ (P : ToolJson → Result) (k : ℕ) (st : ToolJson) :
    bigBracketLoop P (k + 1) st = (orFail (memberStep P st) fun st =>
      if st.char = 125 then .ok (0, st) else st.forward 1 >>= bigBracketLoop P k) := by
  rw [memberStep, orFail_assoc]
  simp only [orFail_assoc]
  rfl

theorem bigBracketLoop_last {P : ToolJson → Result} {st st₁ : ToolJson} {r : List UInt8} (k : ℕ)
    (h : memberStep P st = .ok (0, st₁)) (hr : st₁.rest = 125 :: r) :
    bigBracketLoop P (k + 1) st = .ok (0, st₁) := by
  rw [bigBracketLoop_succ, h, orFail_zero, char, hr]
  rfl

theorem bigBracketLoop_next {P : ToolJson → Result} {st st₁ : ToolJson} {u : List UInt8} (k : ℕ)
    (h : memberStep P st = .ok (0, st₁)) (hr : st₁.rest = 44 :: u) :
    bigBracketLoop P (k + 1) st = bigBracketLoop P k { st₁ with past := st₁.past ++ [44], rest := u } := by
  obtain ⟨p, rest, its, l, b, x⟩ := st₁
  obtain rfl : rest = _ := hr
  rw [bigBracketLoop_succ, h, orFail_zero, char_mk, if_neg (by decide), forward_mk, ok_bind]

theorem bigBracketLoop_stop {P : ToolJson → Result} {st st₁ : ToolJson} (k : ℕ)
    (h : memberStep P st = .ok (-1, st₁)) : bigBracketLoop P (k + 1) st = .ok (-1, st₁) := by
  rw [bigBracketLoop_succ, h, orFail_neg]

/-- The state behind a name. -/
def afterName (st : ToolJson) (pre name mid r : List UInt8) : ToolJson :=
  { st with
    past := st.past ++ (pre ++ 34 :: (name ++ 0 :: (mid ++ [58])))
    rest := r
    slot := { st.slot with name := some (.at (st.past.length + pre.length + 1)) } }

theorem parseName_text (hfree : st.item.length < jsonItemNum) {pre name mid r : List UInt8} (hpre : 34 ∉ pre)
    (hname : 34 ∉ name) (hmid : 58 ∉ mid) (hr : st.rest = pre ++ 34 :: (name ++ 34 :: (mid ++ 58 :: r))) :
    st.parseName = .ok (0, st.afterName pre name mid r) := by
  have hne : ∀ {d : UInt8} {s : List UInt8}, d ∉ s → ∀ x ∈ s, decide (x = d) = false :=
    fun h x hx => decide_eq_false (ne_of_mem_of_not_mem hx h)
  rw [parseName, parseDoubleQuote, scan_block hr (hne hpre) rfl, orFail_zero, forward_mk, ok_bind,
    setSlot_mk _ _ _ _ _ _ _ hfree, ok_bind, scan_block rfl (hne hname) rfl, orFail_zero, terminate_mk, ok_bind,
    forward_mk, ok_bind, parseSemicolon, scan_block rfl (hne hmid) rfl, orFail_zero, forward_mk, ok_bind]
  simp [afterName, Nat.add_assoc]

/-- What the value of a member named `name` finds. -/
structure Ready (n : ℕ) (a : Plain) (i : ℕ) (name : Plain) (st : ToolJson) : Prop where
  within : Within n a i st
  named : Named n st
  name : Points st.past st.slot.name name.text

theorem Within.ready (h : Within n a i st) (hn : n < jsonStrSize) {pre mid : Blanks} {name : Plain}
    {r : List UInt8} (hr : st.rest = pre.text ++ 34 :: (name.text ++ 34 :: (mid.text ++ 58 :: r))) :
    st.parseName = .ok (0, st.afterName pre.text name.text mid.text r) ∧
      Ready n a i name (st.afterName pre.text name.text mid.text r) := by
  have hpre : 34 ∉ pre.text := fun hm => pre.ne hm rfl rfl
  have hmid : 58 ∉ mid.text := fun hm => mid.ne hm rfl rfl
  have hp := parseName_text (h.sound.slot_free hn) hpre name.no_quote hmid hr
  obtain ⟨hk, hname⟩ := (parseName_safe h.sound hn).of_eq hp
  obtain ⟨-, hsome, hthree⟩ := hname rfl
  have hroom := h.sound.room
  refine ⟨hp, ⟨hk.sound, h.array.append _, h.index⟩, ⟨hk.sound, ?_, hsome⟩, .inr ⟨_, rfl, ?_⟩⟩
  · simp only [afterName] at hthree ⊢
    omega
  · refine ⟨st.past ++ (pre.text ++ [34]), mid.text ++ [58], by simp [afterName], by simp [Nat.add_assoc]⟩

section Value

variable {name : Plain} {M : Option JsonPtr → ToolJson → Result} {r : List UInt8}

/-- An item is read, and the cursor is moved over `s`, where `s'` is written. -/
theorem Ready.reads {m : ℕ} (h : Ready n a i name st) {s' : List UInt8} {it : JsonItem} {v : JsonValue}
    (hk : Kept n m 0 { st with past := st.past ++ s', rest := r, item := st.item ++ [it], slot := {} })
    (hname : it.name = st.slot.name) (harray : it.arrayName = st.curArrayName)
    (hindex : it.arrayIndex = st.curArrayIndex) (hv : ValueIs (st.past ++ s' ++ r.take 1) it v) :
    Reads n a i st [⟨a, i, name, v⟩] r
      { st with past := st.past ++ s', rest := r, item := st.item ++ [it], slot := {} } := by
  refine ⟨⟨hk.sound, h.within.array.append s', h.within.index⟩, rfl, List.prefix_append _ _, [it], rfl,
    .cons ⟨?_, hindex.trans h.within.index, ?_, hv⟩ .nil⟩
  · rw [harray, seen, List.append_assoc]
    exact h.within.array.append _
  · rw [hname, seen, List.append_assoc]
    exact h.name.append _

theorem skips_of_blank {c : UInt8} (h : isBlank c = true) : nullSkips c = true := by
  simp only [nullSkips, decide_eq_true_eq]
  exact ⟨ne_of_char h rfl, ne_of_char h rfl, ne_of_char h rfl, ne_of_char h rfl⟩

theorem skips_of_numeric {c : UInt8} (h : isNumeric c = true) : nullSkips c = true := by
  simp only [nullSkips, decide_eq_true_eq]
  exact ⟨ne_of_char h rfl, ne_of_char h rfl, ne_of_char h rfl, ne_of_char h rfl⟩

theorem parseValue_null (h : Ready n a i name st) (hn : n < jsonStrSize) {gap : Blanks}
    (hr : st.rest = gap.text ++ (ascii "null" ++ r)) :
    ∃ st', parseValue M st = .ok (0, st') ∧ Reads n a i st [⟨a, i, name, .null⟩] r st' := by
  have hscan : nullScan st.rest = (1, gap.text.length) := by
    rw [hr, nullScan_append fun c hc => skips_of_blank (gap.blank c hc), nullScan_null, Nat.zero_add]
  have hmove : st.rest = (gap.text ++ ascii "null") ++ r := by rw [hr, List.append_assoc]
  have hlen : (gap.text ++ ascii "null").length = gap.text.length + 4 := by rw [List.length_append, length_null]
  have hnull : st.parseNull = .ok (1, { st with
      past := st.past ++ (gap.text ++ ascii "null"), rest := r, slot := {}
      item := st.item ++ [{ st.slot with
        value := some (.lit nullMarker), type := .null
        arrayName := st.curArrayName, arrayIndex := st.curArrayIndex }] }) := by
    simp only [parseNull, hscan, Int.reduceLE, ↓reduceIte, setSlot, h.named.sound.slot_free hn, ok_bind, count]
    rw [← hlen, hmove, forward_append_mk, ok_bind]
  have hk := (parseNull_safe h.named hn).of_eq hnull
  obtain ⟨-, hk⟩ : _ ∧ _ := hk.resolve_right (by simp)
  refine ⟨_, by rw [parseValue, hnull, orReturn_one], h.reads hk rfl rfl rfl ⟨rfl, rfl⟩⟩

theorem numberScan_skip {c : UInt8} (hc : c = 34 ∨ c = 91) (t : List UInt8) : numberScan false (c :: t) = (0, 0) := by
  rw [numberScan, if_pos hc]

/-- A value that is neither null nor a number. -/
theorem parseValue_other {c : UInt8} {t : List UInt8} (hr : st.rest = c :: t) (hnull : (nullScan (c :: t)).1 = 0)
    (hc : c = 34 ∨ c = 91) : parseValue M st =
      if c = 91 then orFail (M st.slot.name st) fun st => .ok (0, st) else st.forward 1 >>= parseString := by
  have h₀ : parseNull st = .ok (0, st) := by simp only [parseNull, hr, hnull, Int.le_refl, ↓reduceIte]
  have h₁ : parseNumber st = .ok (0, st) := by
    simp only [parseNumber, hr, numberScan_skip hc, Int.le_refl, ↓reduceIte]
  have h₂ : parseDoubleQuoteCaseMidBracket st = .ok (0, st) := by
    have hc' : decide (c = 34 ∨ c = 91) = true := decide_eq_true hc
    rw [parseDoubleQuoteCaseMidBracket, scan_block (s := []) hr (by simp) hc', List.append_nil, ← hr]
  rw [parseValue, h₀, orReturn_zero, h₁, orReturn_zero, h₂, orFail_zero, char, hr]
  rfl

theorem parseValue_str (h : Ready n a i name st) (hn : n < jsonStrSize) {s : Plain}
    (hr : st.rest = 34 :: (s.text ++ 34 :: r)) :
    ∃ st', parseValue M st = .ok (0, st') ∧ Reads n a i st [⟨a, i, name, .str s⟩] r st' := by
  have hfree := h.named.sound.slot_free hn
  have hquote : ∀ x ∈ s.text, decide (x = 34) = false :=
    fun x hx => decide_eq_false (ne_of_mem_of_not_mem hx s.no_quote)
  obtain ⟨p, rest, its, l, b, x⟩ := st
  obtain rfl : rest = _ := hr
  have h₁ := h.named.sound.move (s := [34]) rfl _ rfl l
  have hnamed : Named n ⟨p ++ [34], s.text ++ 34 :: r, its, l, b, x⟩ :=
    ⟨h₁.sound, h.named.room.trans (by simp), h.named.name⟩
  have hstr : parseString ⟨p ++ [34], s.text ++ 34 :: r, its, l, b, x⟩ =
      .ok (0, ⟨p ++ 34 :: (s.text ++ [0]), r, its ++ [{ l with
        value := some (.at (p ++ [34]).length), type := .string, arrayName := b, arrayIndex := x }], {}, b, x⟩) := by
    rw [parseString, setSlot_mk _ _ _ _ _ _ _ hfree, ok_bind, parseDoubleQuote, scan_block rfl hquote rfl,
      orFail_zero, terminate_mk, ok_bind, setSlot_mk _ _ _ _ _ _ _ hfree, ok_bind, count, forward_mk, ok_bind]
    simp
  have hroom := h.named.room
  have hk := (parseString_safe hnamed (by simp only [List.length_append, List.length_singleton] at hroom ⊢; omega)
    hn).of_eq hstr
  refine ⟨_, ?_, h.reads hk rfl rfl rfl ⟨rfl, .inr ⟨_, rfl, ?_⟩⟩⟩
  · rw [parseValue_other rfl (by rw [nullScan_stop (by simp)]) (by simp), if_neg (by decide), forward_mk, ok_bind,
      hstr]
  · exact ⟨p ++ [34], r.take 1, by simp, rfl⟩

theorem first_cases (x : Numeral) : x.first = 45 ∨ (x.first ≠ 45 ∧ x.first ≠ 43 ∧ isDigit x.first = true) := by
  by_cases h : x.first = 45
  · exact .inl h
  · have hd := x.first_ok.resolve_left h
    exact .inr ⟨h, ne_of_char hd rfl, hd⟩

theorem atoi_text {x : Numeral} (hx : x.Integral) {t : List UInt8} (ht : ∀ c u, t = c :: u → isDigit c = false) :
    atoi (x.text ++ t) = max (-2 ^ 31) (min x.val (2 ^ 31 - 1)) := by
  have hspace : isSpace x.first = false := by
    rcases first_cases x with h | ⟨-, -, h⟩
    · rw [h]
      rfl
    · exact not_isSpace_of_isDigit h
  rw [atoi, Numeral.text, List.cons_append, List.dropWhile_cons_of_neg (by simp [hspace])]
  rcases first_cases x with h | ⟨h₄₅, h₄₃, hd⟩
  · simp only [h, Numeral.val, ↓reduceIte, takeWhile_stop hx ht]
  · have hall : ∀ c ∈ x.first :: x.more, isDigit c = true := List.forall_mem_cons.mpr ⟨hd, hx⟩
    simp only [Numeral.val, h₄₅, ↓reduceIte, Numeral.text]
    split
    · rename_i heq
      exact absurd (List.cons.inj heq).1 h₄₅
    · rename_i heq
      exact absurd (List.cons.inj heq).1 h₄₃
    · rw [← List.cons_append, takeWhile_stop hall ht]

theorem not_isDigit_of_isEnd {c : UInt8} (hc : isEnd c = true) : isDigit c = false := by
  rcases isEnd_iff.mp hc with rfl | rfl
  · rfl
  · rfl

theorem parseValue_num (h : Ready n a i name st) (hn : n < jsonStrSize) {x : Numeral} (hx : x.Integral)
    {c : UInt8} (hc : isEnd c = true) (hr : st.rest = x.text ++ c :: r) :
    ∃ st', parseValue M st = .ok (0, st') ∧ Reads n a i st [⟨a, i, name, .num x⟩] (c :: r) st' := by
  have hfree := h.named.sound.slot_free hn
  have hnull : (nullScan st.rest).1 = 0 := by
    rw [hr, nullScan_append fun y hy => skips_of_numeric (x.numeric y hy),
      nullScan_stop (by simpa [isEnd, or_assoc] using Or.inl (isEnd_iff.mp hc))]
  have hscan : numberScan false st.rest = (1, x.text.length) := by
    have hq : ¬(x.first = 34 ∨ x.first = 91) := by
      have := x.numeric x.first List.mem_cons_self
      exact fun h => h.elim (ne_of_char this rfl) (ne_of_char this rfl)
    rw [hr, Numeral.text, List.cons_append, numberScan, if_neg hq, if_pos x.first_ok, numberScan_digits hx hc,
      List.length_cons]
  have h₀ : st.parseNull = .ok (0, st) := by simp only [parseNull, hnull, Int.le_refl, ↓reduceIte]
  have hnum : st.parseNumber = .ok (1, { st with
      past := st.past ++ x.text, rest := c :: r, slot := {}
      item := st.item ++ [{ st.slot with
        value := some (.at st.past.length), number := atoi st.rest, type := .number
        arrayName := st.curArrayName, arrayIndex := st.curArrayIndex }] }) := by
    simp only [parseNumber, hscan, Int.reduceLE, ↓reduceIte, setSlot, hfree, ok_bind, count]
    rw [hr, forward_append_mk, ok_bind]
  have hk := (parseNumber_safe h.named hn).of_eq hnum
  obtain ⟨-, hk⟩ : _ ∧ _ := hk.resolve_right (by simp)
  refine ⟨_, by rw [parseValue, h₀, orReturn_zero, hnum, orReturn_one],
    h.reads hk rfl rfl rfl ⟨rfl, ?_, _, c, rfl, hc, ?_⟩⟩
  · have hnot : ∀ d u, c :: r = d :: u → isDigit d = false := by
      rintro d u ⟨⟩
      exact not_isDigit_of_isEnd hc
    rw [hr, atoi_text hx hnot, ← atoi_text hx (t := []) (by simp), List.append_nil]
  · exact ⟨st.past, [], by simp, rfl⟩

theorem parseValue_fails (h₀ : (nullScan st.rest).1 = 0) (h₁ : (numberScan false st.rest).1 = -1) :
    parseValue M st = .ok (-1, st) := by
  have hnull : st.parseNull = .ok (0, st) := by simp only [parseNull, h₀, Int.le_refl, ↓reduceIte]
  have hnum : st.parseNumber = .ok (-1, st) := by simp only [parseNumber, h₁, Int.reduceLE, ↓reduceIte]
  rw [parseValue, hnull, orReturn_zero, hnum, orReturn_neg]

theorem not_isDigit_of_isBlank {c : UInt8} (hc : isBlank c = true) : isDigit c = false := by
  simp only [isBlank, decide_eq_true_eq] at hc
  rcases hc with rfl | rfl | rfl | rfl <;> rfl

/-- A blank before anything but null is refused. -/
theorem parseValue_blank {gap : Blanks} (hgap : gap.text ≠ []) {u : List UInt8} (hr : st.rest = gap.text ++ u)
    (hu : (nullScan u).1 = 0) : parseValue M st = .ok (-1, st) := by
  apply parseValue_fails
  · rw [hr, nullScan_append fun c hc => skips_of_blank (gap.blank c hc), hu]
  · obtain ⟨b, t, hb⟩ := List.exists_cons_of_ne_nil hgap
    have hblank : isBlank b = true := gap.blank b (hb ▸ List.mem_cons_self)
    have hne : ∀ d, isBlank d = false → b ≠ d := fun d => ne_of_char hblank
    rw [hr, hb, List.cons_append, numberScan, if_neg (by simp [hne 34 rfl, hne 91 rfl]),
      if_neg (by simp [hne 45 rfl, not_isDigit_of_isBlank hblank])]

theorem parseValue_num_fails {x : Numeral} {post : Blanks} (hx : ¬(post.text = [] ∧ x.Integral)) {c : UInt8}
    (hc : isEnd c = true) (hr : st.rest = x.text ++ (post.text ++ c :: r)) :
    parseValue M st = .ok (-1, st) := by
  have hskip : ∀ y ∈ x.text ++ post.text, nullSkips y = true := by
    intro y hy
    rcases List.mem_append.mp hy with hy | hy
    · exact skips_of_numeric (x.numeric y hy)
    · exact skips_of_blank (post.blank y hy)
  apply parseValue_fails
  · rw [hr, ← List.append_assoc, nullScan_append hskip,
      nullScan_stop (by simpa [isEnd, or_assoc] using Or.inl (isEnd_iff.mp hc))]
  · have hq : ¬(x.first = 34 ∨ x.first = 91) := by
      have := x.numeric x.first List.mem_cons_self
      exact fun h => h.elim (ne_of_char this rfl) (ne_of_char this rfl)
    have hend : ∀ y ∈ x.more ++ post.text, isEnd y = false := by
      intro y hy
      have : nullSkips y = true := hskip y (List.mem_cons_of_mem _ hy)
      simp only [nullSkips, ne_eq, decide_eq_true_eq] at this
      simp [isEnd, this]
    have hother : ∃ y ∈ x.more ++ post.text, isDigit y = false := by
      by_cases hpost : post.text = []
      · have hfrac : ¬x.Integral := fun h => hx ⟨hpost, h⟩
        simp only [Numeral.Integral, not_forall, Bool.not_eq_true] at hfrac
        obtain ⟨y, hy, hyd⟩ := hfrac
        exact ⟨y, List.mem_append_left _ hy, hyd⟩
      · obtain ⟨b, t, hb⟩ := List.exists_cons_of_ne_nil hpost
        have hmem : b ∈ post.text := hb ▸ List.mem_cons_self
        exact ⟨b, List.mem_append_right _ hmem, not_isDigit_of_isBlank (post.blank b hmem)⟩
    rw [hr, Numeral.text, List.cons_append, numberScan, if_neg hq, if_pos x.first_ok, ← List.append_assoc,
      numberScan_other hend hother]

theorem value_reads (h : Ready n a i name st) (hn : n < jsonStrSize) {m : JsonMember} (hm : m.Tight) {c : UInt8}
    (hc : isEnd c = true) (hr : st.rest = m.tail ++ c :: r) :
    ∃ st', parseValue M st = .ok (0, st') ∧ Reads n a i st [⟨a, i, name, m.value⟩] (m.post.text ++ c :: r) st' := by
  obtain ⟨pre, nm, mid, gap, value, post⟩ := m
  simp only [JsonMember.tail, List.append_assoc] at hr
  cases value with
  | str s =>
    simp only [JsonMember.Tight] at hm
    rw [hm, List.nil_append] at hr
    exact parseValue_str h hn (hr.trans (by simp [JsonValue.text]))
  | num x =>
    simp only [JsonMember.Tight] at hm
    obtain ⟨hgap, hpost, hx⟩ := hm
    rw [hgap, hpost, List.nil_append, List.nil_append] at hr
    simp only [hpost, List.nil_append]
    exact parseValue_num h hn hx hc hr
  | null => exact parseValue_null h hn hr

theorem value_fails {m : JsonMember} (hm : ¬m.Tight) {c : UInt8} (hc : isEnd c = true)
    (hr : st.rest = m.tail ++ c :: r) : parseValue M st = .ok (-1, st) := by
  obtain ⟨pre, nm, mid, gap, value, post⟩ := m
  simp only [JsonMember.tail, List.append_assoc] at hr
  cases value with
  | str s => exact parseValue_blank hm hr (by simp [JsonValue.text, nullScan])
  | num x =>
    have hstop : c = 44 ∨ c = 125 ∨ c = 34 := by simpa [or_assoc] using Or.inl (isEnd_iff.mp hc)
    by_cases hgap : gap.text = []
    · rw [hgap, List.nil_append] at hr
      exact parseValue_num_fails (fun h => hm ⟨hgap, h.1, h.2⟩) hc hr
    · refine parseValue_blank hgap hr ?_
      rw [JsonValue.text, nullScan_append fun y hy => skips_of_numeric (x.numeric y hy),
        nullScan_append fun y hy => skips_of_blank (post.blank y hy), nullScan_stop hstop]
  | null => exact absurd trivial hm

end Value

/-! ## A round of the loop -/

theorem isEnd_blank (b : Blanks) : ∀ x ∈ b.text, isEnd x = false := by
  intro x hx
  simp [isEnd, b.ne hx (d := 44) rfl, b.ne hx (d := 125) rfl]

section Round

variable {P : ToolJson → Result} {pre mid : Blanks} {name : Plain} {tail post r : List UInt8} {c : UInt8}
  {ls : List JsonLeaf}

/-- More of the text is passed. -/
theorem Reads.skip {st₁ : ToolJson} {s : List UInt8} (h : Reads n a i st ls (s ++ c :: r) st₁) :
    Reads n a i st ls (c :: r) { st₁ with past := st₁.past ++ s, rest := c :: r } := by
  obtain ⟨new, hitem, hnew⟩ := h.items
  have hpre : st₁.seen <+: st₁.past ++ s ++ [c] := by
    rw [seen, h.rest, List.append_assoc, List.prefix_append_right_inj]
    cases s with
    | nil => exact List.prefix_rfl
    | cons b t => exact ⟨t ++ [c], rfl⟩
  obtain ⟨t, ht⟩ := hpre
  refine ⟨h.within.moved h.rest, rfl, h.past.trans (List.prefix_append _ _), new, hitem, ?_⟩
  refine hnew.imp fun it l hl => ?_
  show ItemIs (st₁.past ++ s ++ [c]) it l
  rw [← ht]
  exact hl.append t

theorem memberStep_reads (h : Within n a i st) (hn : n < jsonStrSize) (hc : isEnd c = true)
    (hpost : ∀ x ∈ post, isEnd x = false)
    (hr : st.rest = pre.text ++ 34 :: (name.text ++ 34 :: (mid.text ++ 58 :: (tail ++ c :: r))))
    (hP : ∀ st₁, Ready n a i name st₁ → st₁.rest = tail ++ c :: r →
      ∃ st₂, P st₁ = .ok (0, st₂) ∧ Reads n a i st₁ ls (post ++ c :: r) st₂) :
    ∃ st', memberStep P st = .ok (0, st') ∧ Reads n a i st ls (c :: r) st' := by
  obtain ⟨hp, hready⟩ := h.ready hn hr
  obtain ⟨st₂, hP₂, h₂⟩ := hP _ hready rfl
  have hscan : scan (fun c => c = 44 ∨ c = 125) st₂ = _ := scan_block h₂.rest hpost hc
  have h₃ := h₂.skip
  refine ⟨_, by rw [memberStep, hp, orFail_zero, hP₂, orFail_zero, parseCommaCaseBigBracket, hscan], h₃.within,
    rfl, ?_, h₃.items⟩
  exact (List.prefix_append _ _).trans h₃.past

theorem memberStep_fails (h : Within n a i st) (hn : n < jsonStrSize)
    (hr : st.rest = pre.text ++ 34 :: (name.text ++ 34 :: (mid.text ++ 58 :: r)))
    (hP : ∀ st₁, Ready n a i name st₁ → st₁.rest = r → ∃ st₂, P st₁ = .ok (-1, st₂)) :
    ∃ st', memberStep P st = .ok (-1, st') := by
  obtain ⟨hp, hready⟩ := h.ready hn hr
  obtain ⟨st₂, hP₂⟩ := hP _ hready rfl
  exact ⟨st₂, by rw [memberStep, hp, orFail_zero, hP₂, orFail_neg]⟩

end Round

end ToolJson

end SabApp
