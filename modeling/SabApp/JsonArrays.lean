import SabApp.JsonObjects

/-!
# Arrays through the parser

The parser keeps the current array in two fields: `tool_json_parseMidBracket` sets them before each
element and sets them back to the root at the closing bracket. With no empty array and no empty
element, each item gets the array and the place that it stands in.
-/

namespace SabApp

open CText

structure JsonElement where
  pre : Blanks
  object : JsonObject
  post : Blanks

/-- A member with an array of flat objects; `blank` stands between the brackets of an empty one. -/
structure JsonArray where
  pre : Blanks
  name : Plain
  mid : Blanks
  gap : Blanks
  blank : Blanks
  elements : List JsonElement
  post : Blanks

inductive JsonEntry where
  | leaf (m : JsonMember)
  | array (x : JsonArray)

namespace JsonElement

def text (e : JsonElement) : List UInt8 := e.pre.text ++ (e.object.text ++ e.post.text)

def Full (e : JsonElement) : Prop := e.object.members ≠ []

def Tight (e : JsonElement) : Prop := ∀ m ∈ e.object.members, m.Tight

end JsonElement

namespace JsonArray

def body (x : JsonArray) : List UInt8 :=
  match x.elements with
  | [] => x.blank.text
  | e :: es => commas ((e :: es).map JsonElement.text)

/-- What stands behind the colon. -/
def tail (x : JsonArray) : List UInt8 := x.gap.text ++ 91 :: (x.body ++ 93 :: x.post.text)

def text (x : JsonArray) : List UInt8 := x.pre.text ++ 34 :: (x.name.text ++ 34 :: (x.mid.text ++ 58 :: x.tail))

theorem text_append (x : JsonArray) (u : List UInt8) :
    x.text ++ u = x.pre.text ++ 34 :: (x.name.text ++ 34 :: (x.mid.text ++ 58 :: (x.tail ++ u))) := by
  simp [text]

/-- The members of the elements from place `i` on. -/
def leavesFrom (a : Plain) : ℕ → List JsonElement → List JsonLeaf
  | _, [] => []
  | i, e :: es => e.object.leaves a i ++ leavesFrom a (i + 1) es

/-- Neither the array nor an element is empty. -/
def Full (x : JsonArray) : Prop := x.elements ≠ [] ∧ ∀ e ∈ x.elements, e.Full

def Tight (x : JsonArray) : Prop := x.gap.text = [] ∧ ∀ e ∈ x.elements, e.Tight

/-- The parser refuses the array before it meets an empty element. -/
def Refused (x : JsonArray) : Prop :=
  x.gap.text ≠ [] ∨ ∃ good bad more, x.elements = good ++ bad :: more ∧ (∀ e ∈ good, e.Full ∧ e.Tight) ∧
    ¬JsonElement.Tight bad

end JsonArray

namespace JsonEntry

def text : JsonEntry → List UInt8
  | .leaf m => m.text
  | .array x => x.text

def leaves : JsonEntry → List JsonLeaf
  | .leaf m => [⟨rootArray, 0, m.name, m.value⟩]
  | .array x => JsonArray.leavesFrom x.name 0 x.elements

def Full : JsonEntry → Prop
  | .leaf _ => True
  | .array x => x.Full

def Tight : JsonEntry → Prop
  | .leaf m => m.Tight
  | .array x => x.Tight

def Refused : JsonEntry → Prop
  | .leaf m => ¬m.Tight
  | .array x => x.Refused

end JsonEntry

namespace ToolJson

variable {st : ToolJson} {n i : ℕ} {a : Plain} {p : Option JsonPtr} {d : ℕ} {r : List UInt8}
  {α : Type}

/-! ## Elements -/

/-- The state in which element `i` of the array at `p` is read. -/
def enter (st : ToolJson) (p : Option JsonPtr) (i : ℕ) : ToolJson :=
  { st with curArrayName := p, curArrayIndex := i }

/-- The state in which an array is left. -/
def leave (st : ToolJson) : ToolJson := { st with curArrayName := some (.lit rootArrayName), curArrayIndex := 0 }

theorem midBracketLoop_enter (P : ToolJson → Result) (p : Option JsonPtr) (k i : ℕ) (st : ToolJson) :
    midBracketLoop P p (k + 1) i st = orFail (P (st.enter p i)) fun st =>
      st.forward 1 >>= fun st => orFail st.parseCommaCaseMidBracket fun st =>
        if st.char = 93 then .ok (0, st.leave) else st.forward 1 >>= midBracketLoop P p k (i + 1) := rfl

theorem Within.entered {b : Plain} {j : ℕ} (h : Within n b j st) (hp : Points st.past p a.text) :
    Within n a i (st.enter p i) := by
  refine ⟨h.sound.inArray ?_ i, hp, rfl⟩
  rcases hp with rfl | ⟨off, rfl, -⟩ <;> rfl

/-- Behind an element the loop stands at the byte that ends it. -/
theorem element_reads (hn : n < jsonStrSize) {e : JsonElement} (hfull : e.Full) (ht : e.Tight) {b : Plain}
    {j : ℕ} (h : Within n b j st) (hp : Points st.past p a.text) {c : UInt8} (hc : c = 44 ∨ c = 93)
    (hr : st.rest = e.text ++ c :: r) : ∃ st₁,
      (∀ f : ToolJson → Result, (orFail (parseBigBracket (d + 1) (st.enter p i)) fun st =>
        st.forward 1 >>= fun st => orFail st.parseCommaCaseMidBracket f) = f st₁) ∧
      Reads n a i st (e.object.leaves a i) (c :: r) st₁ := by
  have hw : Within n a i (st.enter p i) := h.entered hp
  have hr' : (st.enter p i).rest = e.pre.text ++ (e.object.text ++ (e.post.text ++ c :: r)) := by
    show st.rest = _
    rw [hr]
    simp [JsonElement.text]
  obtain ⟨st₁, hobj, hread⟩ := object_reads hn d hfull ht hw hr'
  have hskip := Reads.skip (s := 125 :: e.post.text) hread
  refine ⟨_, fun f => ?_, hskip.within, hskip.rest, hskip.past, hskip.items⟩
  have hpost : ∀ x ∈ e.post.text, decide (x = 44 ∨ x = 93) = false := by
    intro x hx
    simp [e.post.ne hx (d := 44) rfl, e.post.ne hx (d := 93) rfl]
  have hrest := hread.rest
  obtain ⟨q, rest, its, l, b, x⟩ := st₁
  obtain rfl : rest = _ := hrest
  rw [hobj, orFail_zero, forward_mk, ok_bind, parseCommaCaseMidBracket, scan_block rfl hpost (by simpa using hc),
    orFail_zero]
  simp

theorem commas_elements (e e' : JsonElement) (es : List JsonElement) (r : List UInt8) :
    commas ((e :: e' :: es).map JsonElement.text) ++ r =
      e.text ++ 44 :: (commas ((e' :: es).map JsonElement.text) ++ r) := commas_cons _ _ _ _

theorem Reads.left {st₁ : ToolJson} {ls : List JsonLeaf} (h : Reads n a i st ls r st₁) :
    Reads n rootArray 0 st ls r st₁.leave :=
  ⟨⟨h.within.sound.inArray rfl 0, .inl rfl, rfl⟩, h.rest, h.past, h.items⟩

theorem Points.prefix {s t t' : List UInt8} (h : Points t p s) (ht : t <+: t') : Points t' p s := by
  obtain ⟨u, rfl⟩ := ht
  exact h.append u

theorem midBracketLoop_reads (hn : n < jsonStrSize) {e : JsonElement} {es : List JsonElement}
    (hes : ∀ x ∈ e :: es, x.Full ∧ x.Tight) : ∀ {k i j : ℕ} {b : Plain} {st : ToolJson}, es.length < k →
      Within n b j st → Points st.past p a.text → st.rest = commas ((e :: es).map JsonElement.text) ++ 93 :: r →
      ∃ st', midBracketLoop (parseBigBracket (d + 1)) p k i st = .ok (0, st') ∧
        Reads n rootArray 0 st (JsonArray.leavesFrom a i (e :: es)) (93 :: r) st' := by
  induction es generalizing e with
  | nil =>
    intro k i j b st hk h hp hr
    obtain ⟨k, rfl⟩ : ∃ k', k = k' + 1 := ⟨k - 1, by omega⟩
    obtain ⟨hfull, ht⟩ := hes e List.mem_cons_self
    obtain ⟨st₁, hstep, hread⟩ := element_reads (i := i) (d := d) hn hfull ht h hp (.inr rfl) hr
    refine ⟨st₁.leave, ?_, by simpa [JsonArray.leavesFrom] using hread.left⟩
    rw [midBracketLoop_enter, hstep, if_pos (by rw [char, hread.rest]; rfl)]
  | cons e' es ih =>
    intro k i j b st hk h hp hr
    obtain ⟨k, rfl⟩ : ∃ k', k = k' + 1 := ⟨k - 1, by omega⟩
    rw [commas_elements] at hr
    obtain ⟨hfull, ht⟩ := hes e List.mem_cons_self
    obtain ⟨st₁, hstep, hread⟩ := element_reads (i := i) (d := d) hn hfull ht h hp (.inl rfl) hr
    have hp₁ := hp.prefix (hread.past.trans (List.prefix_append _ [44]))
    obtain ⟨st₂, hloop, hread₂⟩ := ih (fun x hx => hes x (List.mem_cons_of_mem _ hx))
      (Nat.lt_of_succ_lt_succ hk) (i := i + 1) hread.passed hp₁ rfl
    refine ⟨st₂, ?_, hread.trans hread₂ rfl rfl⟩
    rw [midBracketLoop_enter, hstep, if_neg (by rw [char, hread.rest, List.headD_cons]; decide),
      forward_cons hread.rest, ok_bind, hloop]

theorem midBracketLoop_fails (hn : n < jsonStrSize) {good : List JsonElement} {bad : JsonElement}
    {more : List JsonElement} (hgood : ∀ e ∈ good, e.Full ∧ e.Tight) (hbad : ¬bad.Tight) :
    ∀ {k i j : ℕ} {b : Plain} {st : ToolJson}, (good ++ bad :: more).length ≤ k →
      Within n b j st → Points st.past p a.text →
      st.rest = commas ((good ++ bad :: more).map JsonElement.text) ++ 93 :: r →
      ∃ st', midBracketLoop (parseBigBracket (d + 1)) p k i st = .ok (-1, st') := by
  induction good with
  | nil =>
    intro k i j b st hk h hp hr
    obtain ⟨k, rfl⟩ : ∃ k', k = k' + 1 := ⟨k - 1, by simp at hk; omega⟩
    obtain ⟨u, hr'⟩ : ∃ u, st.rest = bad.pre.text ++ (bad.object.text ++ u) := by
      cases more with
      | nil => exact ⟨bad.post.text ++ 93 :: r, hr.trans (by simp [commas, JsonElement.text])⟩
      | cons e es => exact ⟨bad.post.text ++ 44 :: _, hr.trans ((commas_elements _ _ _ _).trans (by
          simp only [JsonElement.text, List.append_assoc]
          rfl))⟩
    have hw : Within n a i (st.enter p i) := h.entered hp
    have hloose : ∃ m ∈ bad.object.members, ¬m.Tight := by
      simpa [JsonElement.Tight] using hbad
    obtain ⟨st', hobj⟩ := object_fails hn d hloose hw hr'
    exact ⟨st', by rw [midBracketLoop_enter, hobj, orFail_neg]⟩
  | cons e good ih =>
    intro k i j b st hk h hp hr
    obtain ⟨k, rfl⟩ : ∃ k', k = k' + 1 := ⟨k - 1, by simp at hk; omega⟩
    obtain ⟨hfull, ht⟩ := hgood e List.mem_cons_self
    have hr' : st.rest = e.text ++ 44 :: (commas ((good ++ bad :: more).map JsonElement.text) ++ 93 :: r) := by
      rw [hr]
      cases good <;> exact commas_elements _ _ _ _
    obtain ⟨st₁, hstep, hread⟩ := element_reads (i := i) (d := d) hn hfull ht h hp (.inl rfl) hr'
    have hp₁ := hp.prefix (hread.past.trans (List.prefix_append _ [44]))
    obtain ⟨st₂, hloop⟩ := ih (fun x hx => hgood x (List.mem_cons_of_mem _ hx)) (Nat.le_of_succ_le_succ hk)
      (i := i + 1) hread.passed hp₁ rfl
    refine ⟨st₂, ?_⟩
    rw [midBracketLoop_enter, hstep, if_neg (by rw [char, hread.rest, List.headD_cons]; decide),
      forward_cons hread.rest, ok_bind, hloop]

/-! ## Arrays as values -/

theorem nullScan_stops {s t : List UInt8} {c : UInt8} (hs : ∀ y ∈ s, nullSkips y = true)
    (hc : c = 44 ∨ c = 125 ∨ c = 34) : (nullScan (s ++ c :: t)).1 = 0 := by
  rw [nullScan_append hs, nullScan_stop hc]

theorem commas_head (text : α → List UInt8) (x : α) (xs : List α) (v : List UInt8) :
    ∃ u, commas ((x :: xs).map text) ++ v = text x ++ u := by
  cases xs with
  | nil => exact ⟨v, rfl⟩
  | cons y ys => exact ⟨_, commas_cons _ _ _ _⟩

/-- The text of an array shows neither null nor a number. -/
theorem nullScan_array (x : JsonArray) {c : UInt8} (hc : isEnd c = true) (r : List UInt8) :
    (nullScan (91 :: (x.body ++ 93 :: (x.post.text ++ c :: r)))).1 = 0 := by
  have hblank : ∀ (b : Blanks), ∀ y ∈ b.text, nullSkips y = true := fun b y hy => skips_of_blank (b.blank y hy)
  obtain ⟨pre, name, mid, gap, blank, elements, post⟩ := x
  cases elements with
  | nil =>
    have hs : ∀ y ∈ 91 :: (blank.text ++ 93 :: post.text), nullSkips y = true := by
      simp only [List.forall_mem_cons, List.forall_mem_append]
      exact ⟨rfl, hblank blank, rfl, hblank post⟩
    simpa [JsonArray.body] using nullScan_stops hs (t := r) (by simpa [or_assoc] using Or.inl (isEnd_iff.mp hc))
  | cons e es =>
    obtain ⟨u, hu⟩ := commas_head JsonElement.text e es (93 :: (post.text ++ c :: r))
    obtain ⟨epre, ⟨eblank, members⟩, epost⟩ := e
    simp only [JsonArray.body, hu, JsonElement.text, JsonObject.text, JsonObject.body]
    cases members with
    | nil =>
      have hs : ∀ y ∈ 91 :: (epre.text ++ 123 :: eblank.text), nullSkips y = true := by
        simp only [List.forall_mem_cons, List.forall_mem_append]
        exact ⟨rfl, hblank epre, rfl, hblank eblank⟩
      simpa using nullScan_stops hs (c := 125) (t := epost.text ++ u) (by simp)
    | cons m ms =>
      obtain ⟨w, hw⟩ := commas_head JsonMember.text m ms (125 :: (epost.text ++ u))
      have hs : ∀ y ∈ 91 :: (epre.text ++ 123 :: m.pre.text), nullSkips y = true := by
        simp only [List.forall_mem_cons, List.forall_mem_append]
        exact ⟨rfl, hblank epre, rfl, hblank m.pre⟩
      have := nullScan_stops hs (c := 34) (t := m.name.text ++ 34 :: (m.mid.text ++ 58 :: m.tail) ++ w) (by simp)
      rw [List.map_cons, JsonMember.text] at hw
      simpa [hw, JsonMember.text] using this

section Value

variable {x : JsonArray} {c : UInt8}

theorem array_value (hgap : x.gap.text = []) (hc : isEnd c = true) (hr : st.rest = x.tail ++ c :: r) :
    parseValue (parseMidBracket (parseBigBracket (d + 1))) st =
      orFail (midBracketLoop (parseBigBracket (d + 1)) st.slot.name
        ((x.body ++ 93 :: (x.post.text ++ c :: r)).length + 1) 0
        { st with past := st.past ++ [91], rest := x.body ++ 93 :: (x.post.text ++ c :: r) })
        fun st => .ok (0, st) := by
  have hr' : st.rest = 91 :: (x.body ++ 93 :: (x.post.text ++ c :: r)) := by
    rw [hr, JsonArray.tail, hgap]
    simp
  rw [parseValue_other hr' (nullScan_array x hc r) (.inr rfl), if_pos rfl, parseMidBracket, forward_cons hr', ok_bind]

theorem array_reads (hn : n < jsonStrSize) (hfull : x.Full) (ht : x.Tight) (h : Ready n rootArray 0 x.name st)
    (hc : isEnd c = true) (hr : st.rest = x.tail ++ c :: r) :
    ∃ st', parseValue (parseMidBracket (parseBigBracket (d + 1))) st = .ok (0, st') ∧
      Reads n rootArray 0 st (JsonArray.leavesFrom x.name 0 x.elements)
        (93 :: x.post.text ++ c :: r) st' := by
  rw [array_value ht.1 hc hr]
  have hr' : st.rest = [91] ++ (x.body ++ 93 :: (x.post.text ++ c :: r)) := by
    rw [hr, JsonArray.tail, ht.1]
    simp
  obtain ⟨e, es, he⟩ := List.exists_cons_of_ne_nil hfull.1
  have hes : ∀ y ∈ e :: es, y.Full ∧ y.Tight := fun y hy => ⟨hfull.2 y (he ▸ hy), ht.2 y (he ▸ hy)⟩
  have hbody : x.body = commas ((e :: es).map JsonElement.text) := by rw [JsonArray.body, he]
  rw [hbody] at hr' ⊢
  obtain ⟨st', hloop, hread⟩ := midBracketLoop_reads (d := d) (i := 0) hn hes
    (Nat.le_succ_of_le (length_le_text (e :: es) 93 (x.post.text ++ c :: r))) (h.within.moved hr')
    (h.name.append [91]) rfl
  refine ⟨st', by rw [hloop, orFail_zero], ?_⟩
  rw [he]
  exact hread.from_moved

theorem array_fails (hn : n < jsonStrSize) (hx : x.Refused) (h : Ready n rootArray 0 x.name st)
    (hc : isEnd c = true) (hr : st.rest = x.tail ++ c :: r) :
    ∃ st', parseValue (parseMidBracket (parseBigBracket (d + 1))) st = .ok (-1, st') := by
  by_cases hgap : x.gap.text = []
  · obtain ⟨good, bad, more, he, hgood, hbad⟩ := hx.resolve_left (not_not_intro hgap)
    rw [array_value hgap hc hr]
    have hr' : st.rest = [91] ++ (x.body ++ 93 :: (x.post.text ++ c :: r)) := by
      rw [hr, JsonArray.tail, hgap]
      simp
    have hbody : x.body = commas ((good ++ bad :: more).map JsonElement.text) := by
      rw [JsonArray.body, he]
      cases good <;> rfl
    rw [hbody] at hr' ⊢
    obtain ⟨st', hloop⟩ := midBracketLoop_fails (d := d) (i := 0) hn hgood hbad
      (Nat.le_succ_of_le (length_le_text _ 93 (x.post.text ++ c :: r))) (h.within.moved hr')
      (h.name.append [91]) rfl
    exact ⟨st', by rw [hloop, orFail_neg]⟩
  · have hr' : st.rest = x.gap.text ++ 91 :: (x.body ++ 93 :: (x.post.text ++ c :: r)) := by
      rw [hr, JsonArray.tail]
      simp
    exact ⟨st, parseValue_blank hgap hr' (nullScan_array x hc r)⟩

theorem isEnd_bracket (b : Blanks) : ∀ y ∈ 93 :: b.text, isEnd y = false :=
  List.forall_mem_cons.mpr ⟨rfl, isEnd_blank b⟩

end Value

theorem entry_reads (hn : n < jsonStrSize) {e : JsonEntry} (hfull : e.Full) (ht : e.Tight) :
    RoundReads n rootArray 0 JsonEntry.text JsonEntry.leaves
      (parseValue (parseMidBracket (parseBigBracket (d + 1)))) e := by
  cases e with
  | leaf m => exact member_reads hn ht _
  | array x =>
    intro st c r h hc hr
    refine memberStep_reads h hn hc (isEnd_bracket x.post) (hr.trans (x.text_append _)) ?_
    exact fun st₁ h₁ hr₁ => array_reads hn hfull ht h₁ hc hr₁

theorem entry_fails (hn : n < jsonStrSize) {e : JsonEntry} (he : e.Refused) :
    RoundFails n rootArray 0 JsonEntry.text (parseValue (parseMidBracket (parseBigBracket (d + 1)))) e := by
  cases e with
  | leaf m => exact member_fails hn he _
  | array x =>
    intro st c r h hc hr
    refine memberStep_fails h hn (hr.trans (x.text_append _)) ?_
    exact fun st₁ h₁ hr₁ => array_fails hn he h₁ hc hr₁

/-! ## Lookups in an array -/

theorem getValueV2Loop_find (st : ToolJson) (array : List UInt8) (j : ℤ) (name : List UInt8) {its : List JsonItem}
    (h : ∀ it ∈ its, it.name.isSome ∧ it.arrayName.isSome) : st.getValueV2Loop array j name its =
      some ((its.find? fun it => it.arrayName.map st.deref = some array ∧ (it.arrayIndex : ℤ) = j ∧
        it.name.map st.deref = some name).bind JsonItem.value) := by
  induction its with
  | nil => rfl
  | cons it its ih =>
    obtain ⟨hname, harray⟩ := h it List.mem_cons_self
    obtain ⟨q, hq⟩ := Option.isSome_iff_exists.mp hname
    obtain ⟨q', hq'⟩ := Option.isSome_iff_exists.mp harray
    rw [getValueV2Loop, hq, hq']
    by_cases hd : st.deref q' = array ∧ (it.arrayIndex : ℤ) = j ∧ st.deref q = name
    · simp [hq, hq', hd]
    · rw [List.find?_cons_of_neg (by simpa [hq, hq'] using hd), ← ih fun x hx => h x (List.mem_cons_of_mem _ hx)]
      simp [hd]

theorem find?_forall₂ {β : Type} {R : α → β → Prop} {f : α → Bool} {g : β → Bool} {xs : List α} {ys : List β}
    (h : List.Forall₂ R xs ys) (hfg : ∀ x y, R x y → f x = g y) :
    (xs.find? f = none ∧ ys.find? g = none) ∨ ∃ x y, xs.find? f = some x ∧ ys.find? g = some y ∧ R x y := by
  induction h with
  | nil => exact .inl ⟨rfl, rfl⟩
  | @cons x y _ _ hxy _ ih =>
    by_cases hx : f x = true
    · exact .inr ⟨x, y, List.find?_cons_of_pos hx, List.find?_cons_of_pos (hfg x y hxy ▸ hx), hxy⟩
    · rw [List.find?_cons_of_neg hx, List.find?_cons_of_neg (hfg x y hxy ▸ hx)]
      exact ih

/-- The leaf is named so in place `j` of the array. -/
def isLeaf (array : List UInt8) (j : ℤ) (name : List UInt8) (l : JsonLeaf) : Bool :=
  l.array.text = array ∧ (l.index : ℤ) = j ∧ l.name.text = name

/-- The pointer reads the value; the text of a number goes on with what ends its member. -/
def ReadsAs (st : ToolJson) (q : JsonPtr) : JsonValue → Prop
  | .str s => st.deref q = s.text
  | .num x => ∃ c u, st.deref q = x.text ++ c :: u ∧ isEnd c = true
  | .null => q = .lit nullMarker

/-- What a lookup returns for a member that is or is not there. -/
def Returns (st : ToolJson) (res : Option (Option JsonPtr)) : Option JsonValue → Prop
  | none => res = some none
  | some v => ∃ q, res = some (some q) ∧ st.ReadsAs q v

theorem ItemIs.returns {it : JsonItem} {l : JsonLeaf} (h : ItemIs st.seen it l) :
    st.Returns (some it.value) (some l.value) := by
  have hv := h.value
  cases hl : l.value with
  | str s =>
    rw [hl] at hv
    obtain ⟨q, hq, hd⟩ := Option.map_eq_some_iff.mp (deref_of_points hv.2 s.no_zero)
    exact ⟨q, by rw [hq], hd⟩
  | num x =>
    rw [hl] at hv
    obtain ⟨-, -, off, c, hq, hc, y, z, hseen, rfl⟩ := hv
    obtain ⟨t, ht⟩ := st.seen_prefix
    have hzero : ∀ b ∈ x.text ++ [c], decide (b ≠ 0) = true := by
      simp only [List.forall_mem_append, List.forall_mem_singleton, decide_eq_true_eq]
      refine ⟨fun b hb => ne_of_char (x.numeric b hb) rfl, ?_⟩
      rcases isEnd_iff.mp hc with rfl | rfl <;> decide
    have htext : st.past ++ st.rest = y ++ (x.text ++ [c] ++ (z ++ t)) := by rw [← ht, hseen]; simp
    refine ⟨_, by rw [hq], c, cstr (z ++ t), ?_, hc⟩
    rw [deref, htext, List.drop_left, cstr, List.takeWhile_append_of_pos hzero, List.append_assoc]
    rfl
  | null =>
    rw [hl] at hv
    exact ⟨_, by rw [hv.2], rfl⟩

theorem ItemIs.key {it : JsonItem} {l : JsonLeaf} (h : ItemIs st.seen it l) (array : List UInt8) (j : ℤ)
    (name : List UInt8) : decide (it.arrayName.map st.deref = some array ∧ (it.arrayIndex : ℤ) = j ∧
      it.name.map st.deref = some name) = isLeaf array j name l := by
  rw [deref_of_points h.array l.array.no_zero, deref_of_points h.name l.name.no_zero, h.index]
  simp [isLeaf]

/-- A lookup is the search through the leaves that were read. -/
theorem getValueV2_leaves {ls : List JsonLeaf} (hs : Sound n st) (h : List.Forall₂ (ItemIs st.seen) st.item ls)
    (array : List UInt8) (j : ℤ) (name : List UInt8) :
    st.Returns (st.getValueV2 array j name) ((ls.find? (isLeaf array j name)).map JsonLeaf.value) := by
  rw [getValueV2, getValueV2Loop_find st array j name hs.named]
  rcases find?_forall₂ h (fun it l hit => hit.key array j name) with ⟨hi, hl⟩ | ⟨it, l, hi, hl, hit⟩
  · rw [hi, hl]
    rfl
  · rw [hi, hl]
    exact hit.returns

end ToolJson

/-! ## Objects with arrays -/

/-- A text with one object of plain members and arrays of flat objects. -/
structure JsonDocument where
  lead : Blanks
  blank : Blanks
  entries : List JsonEntry
  trail : Blanks

namespace JsonEntry

def member? : JsonEntry → Option JsonMember
  | .leaf m => some m
  | .array _ => none

def array? : JsonEntry → Option JsonArray
  | .leaf _ => none
  | .array x => some x

end JsonEntry

/-- The value of the first member of that name. -/
def valueOf (name : List UInt8) (ms : List JsonMember) : Option JsonValue :=
  (ms.find? fun m => m.name.text = name).map JsonMember.value

/-- The value in place `j` of the array. -/
def JsonArray.valueAt (x : JsonArray) (j : ℤ) (name : List UInt8) : Option JsonValue :=
  if 0 ≤ j then x.elements[j.toNat]?.bind fun e => valueOf name e.object.members else none

theorem leaves_find (o : JsonObject) (a : Plain) (i : ℕ) (array : List UInt8) (j : ℤ) (name : List UInt8) :
    ((o.leaves a i).find? (ToolJson.isLeaf array j name)).map JsonLeaf.value =
      if a.text = array ∧ (i : ℤ) = j then valueOf name o.members else none := by
  rw [JsonObject.leaves, List.find?_map, Option.map_map]
  by_cases h : a.text = array ∧ (i : ℤ) = j
  · have hfun : ToolJson.isLeaf array j name ∘ (fun m : JsonMember => (⟨a, i, m.name, m.value⟩ : JsonLeaf)) =
        fun m => decide (m.name.text = name) := by
      funext m
      simp [ToolJson.isLeaf, h]
    rw [if_pos h, hfun]
    rfl
  · have hnone : o.members.find? (ToolJson.isLeaf array j name ∘
        fun m : JsonMember => (⟨a, i, m.name, m.value⟩ : JsonLeaf)) = none := by
      rw [List.find?_eq_none]
      intro m _ hm
      simp only [Function.comp, ToolJson.isLeaf, decide_eq_true_eq] at hm
      exact h ⟨hm.1, hm.2.1⟩
    rw [if_neg h, hnone]
    rfl

/-- The search through the elements from place `i` on. -/
theorem leavesFrom_find (a : Plain) (array : List UInt8) (j : ℤ) (name : List UInt8) (es : List JsonElement) :
    ∀ i : ℕ, ((JsonArray.leavesFrom a i es).find? (ToolJson.isLeaf array j name)).map JsonLeaf.value =
      if a.text = array ∧ (i : ℤ) ≤ j then
        es[(j - i).toNat]?.bind fun e => valueOf name e.object.members
      else none := by
  induction es with
  | nil =>
    intro i
    simp [JsonArray.leavesFrom]
  | cons e es ih =>
    intro i
    rw [JsonArray.leavesFrom, List.find?_append, Option.map_or, leaves_find, ih]
    by_cases ha : a.text = array
    · rcases Int.lt_trichotomy j i with hj | hj | hj
      · rw [if_neg (by omega), if_neg (by omega), if_neg (by omega)]
        rfl
      · subst hj
        have hnext : ¬(i : ℤ) + 1 ≤ i := by omega
        simp [ha, hnext]
      · have hsucc : (j - i).toNat = (j - (i + 1 : ℕ)).toNat + 1 := by omega
        rw [if_neg (by omega), if_pos ⟨ha, by omega⟩, if_pos ⟨ha, by omega⟩, hsucc, List.getElem?_cons_succ]
        rfl
    · simp [ha]

namespace JsonDocument

def body (t : JsonDocument) : List UInt8 :=
  match t.entries with
  | [] => t.blank.text
  | e :: es => commas ((e :: es).map JsonEntry.text)

def text (t : JsonDocument) : List UInt8 := t.lead.text ++ (123 :: (t.body ++ [125]) ++ t.trail.text)

def members (t : JsonDocument) : List JsonMember := t.entries.filterMap JsonEntry.member?

def arrays (t : JsonDocument) : List JsonArray := t.entries.filterMap JsonEntry.array?

/-- What is promised when the text is parsed: a lookup finds the member of that place of that array and
of no other, or the root member. -/
def Attributed (t : JsonDocument) : Prop :=
  ∀ st, ToolJson.parse t.text = .ok (0, st) →
    (∀ x ∈ t.arrays, ∀ j name, st.Returns (st.getValueV2 x.name.text j name) (x.valueAt j name)) ∧
    (∀ name, st.Returns (st.getValueV2 ToolJson.rootArrayName 0 name) (valueOf name t.members)) ∧
    ∀ array j name, (∀ x ∈ t.arrays, x.name.text ≠ array) → (array = ToolJson.rootArrayName → j ≠ 0) →
      st.Returns (st.getValueV2 array j name) none

/-- No array and no element is empty. -/
def Full (t : JsonDocument) : Prop := ∀ e ∈ t.entries, e.Full

/-- The parser refuses the text before it meets an empty array or element. -/
def Refused (t : JsonDocument) : Prop :=
  ∃ good bad more, t.entries = good ++ bad :: more ∧ (∀ e ∈ good, e.Full ∧ e.Tight) ∧ bad.Refused

end JsonDocument

/-! ## The leaves by their keys -/

section Keys

variable {es : List JsonEntry} {array : List UInt8} {j : ℤ} {name : List UInt8}

theorem leaf_find (m : JsonMember) : (((JsonEntry.leaf m).leaves.find? (ToolJson.isLeaf array j name)).map
    JsonLeaf.value) = if ToolJson.rootArrayName = array ∧ 0 = j ∧ m.name.text = name then some m.value else none := by
  by_cases h : ToolJson.rootArrayName = array ∧ 0 = j ∧ m.name.text = name
  · simp [JsonEntry.leaves, ToolJson.isLeaf, rootArray, h]
  · simp [JsonEntry.leaves, ToolJson.isLeaf, rootArray, h]

theorem array_find (x : JsonArray) : (((JsonEntry.array x).leaves.find? (ToolJson.isLeaf array j name)).map
    JsonLeaf.value) = if x.name.text = array then x.valueAt j name else none := by
  simp only [JsonEntry.leaves, leavesFrom_find, JsonArray.valueAt, Int.ofNat_zero, Int.sub_zero, ite_and]

theorem entries_find (e : JsonEntry) (es : List JsonEntry) (array : List UInt8) (j : ℤ) (name : List UInt8) :
    (((e :: es).flatMap JsonEntry.leaves).find? (ToolJson.isLeaf array j name)).map JsonLeaf.value =
      ((e.leaves.find? (ToolJson.isLeaf array j name)).map JsonLeaf.value).or
        (((es.flatMap JsonEntry.leaves).find? (ToolJson.isLeaf array j name)).map JsonLeaf.value) := by
  rw [List.flatMap_cons, List.find?_append, Option.map_or]

theorem find_other (harray : ∀ x ∈ es.filterMap JsonEntry.array?, x.name.text ≠ array)
    (hroot : array = ToolJson.rootArrayName → j ≠ 0) :
    ((es.flatMap JsonEntry.leaves).find? (ToolJson.isLeaf array j name)).map JsonLeaf.value = none := by
  induction es with
  | nil => rfl
  | cons e es ih =>
    rw [entries_find]
    cases e with
    | leaf m =>
      rw [leaf_find, ih harray, if_neg fun h => hroot h.1.symm h.2.1.symm]
      rfl
    | array x =>
      simp only [List.filterMap_cons, JsonEntry.array?, List.forall_mem_cons] at harray
      rw [array_find, ih harray.2, if_neg harray.1]
      rfl

theorem find_root (harray : ∀ x ∈ es.filterMap JsonEntry.array?, x.name.text ≠ ToolJson.rootArrayName) :
    ((es.flatMap JsonEntry.leaves).find? (ToolJson.isLeaf ToolJson.rootArrayName 0 name)).map JsonLeaf.value =
      valueOf name (es.filterMap JsonEntry.member?) := by
  induction es with
  | nil => rfl
  | cons e es ih =>
    rw [entries_find]
    cases e with
    | leaf m =>
      rw [leaf_find, ih harray]
      by_cases hm : m.name.text = name
      · simp [valueOf, JsonEntry.member?, hm]
      · simp [valueOf, JsonEntry.member?, hm]
    | array x =>
      simp only [List.filterMap_cons, JsonEntry.array?, List.forall_mem_cons] at harray
      rw [array_find, ih harray.2, if_neg harray.1, List.filterMap_cons]
      rfl

theorem find_array {x : JsonArray} (hx : x ∈ es.filterMap JsonEntry.array?)
    (hdist : ((es.filterMap JsonEntry.array?).map fun x => x.name.text).Nodup)
    (hroot : x.name.text ≠ ToolJson.rootArrayName) :
    ((es.flatMap JsonEntry.leaves).find? (ToolJson.isLeaf x.name.text j name)).map JsonLeaf.value =
      x.valueAt j name := by
  induction es with
  | nil => simp at hx
  | cons e es ih =>
    rw [entries_find]
    cases e with
    | leaf m =>
      rw [leaf_find, ih hx hdist, if_neg fun h => hroot h.1.symm]
      rfl
    | array y =>
      simp only [List.filterMap_cons, JsonEntry.array?, List.map_cons, List.nodup_cons, List.mem_map, not_exists,
        not_and] at hdist
      simp only [List.filterMap_cons, JsonEntry.array?, List.mem_cons] at hx
      rw [array_find]
      rcases hx with rfl | hx
      · rw [find_other hdist.1 fun h => absurd h hroot, if_pos rfl, Option.or_none]
      · rw [ih hx hdist.2, if_neg (Ne.symm (hdist.1 x hx)), Option.none_or]

end Keys

/-! ## The whole document -/

theorem JsonElement.zero_not_mem (e : JsonElement) : 0 ∉ e.text := by
  simp [JsonElement.text, Blanks.zero_not_mem, JsonObject.zero_not_mem]

theorem JsonArray.zero_not_mem (x : JsonArray) : 0 ∉ x.text := by
  obtain ⟨pre, name, mid, gap, blank, elements, post⟩ := x
  cases elements with
  | nil => simp [JsonArray.text, JsonArray.tail, JsonArray.body, Blanks.zero_not_mem, name.no_zero]
  | cons e es =>
    have hbody : 0 ∉ commas ((e :: es).map JsonElement.text) := by
      refine zero_not_mem_commas fun t ht => ?_
      obtain ⟨e', -, rfl⟩ := List.mem_map.mp ht
      exact e'.zero_not_mem
    simpa [JsonArray.text, JsonArray.tail, JsonArray.body, Blanks.zero_not_mem, name.no_zero] using hbody

namespace JsonDocument

open ToolJson

variable {t : JsonDocument}

theorem zero_not_mem (t : JsonDocument) : 0 ∉ t.text := by
  obtain ⟨lead, blank, entries, trail⟩ := t
  cases entries with
  | nil => simp [text, body, Blanks.zero_not_mem]
  | cons e es =>
    have hbody : 0 ∉ commas ((e :: es).map JsonEntry.text) := by
      refine zero_not_mem_commas fun u hu => ?_
      obtain ⟨e', -, rfl⟩ := List.mem_map.mp hu
      cases e' with
      | leaf m => exact m.zero_not_mem
      | array x => exact x.zero_not_mem
    simpa [text, body, Blanks.zero_not_mem] using hbody

/-- The state behind the opening brace. -/
def start (t : JsonDocument) : ToolJson :=
  { init t.text with past := t.lead.text ++ [123], rest := t.body ++ 125 :: t.trail.text }

theorem init_rest (t : JsonDocument) : (init t.text).rest = t.lead.text ++ 123 :: (t.body ++ 125 :: t.trail.text) := by
  show t.text = _
  simp [text]

theorem parse_text (hlen : t.text.length < jsonStrSize) : parse t.text =
    orFail (bigBracketLoop (parseValue (parseMidBracket (parseBigBracket t.text.length)))
      (t.start.rest.length + 1) t.start) fun st => .ok (0, st) := by
  rw [parse_eq t.zero_not_mem hlen, parseBigBracket_open _ t.init_rest]
  rfl

theorem start_within (t : JsonDocument) : Within t.text.length rootArray 0 t.start :=
  (init_within t.text).opened t.init_rest

theorem exists_depth (t : JsonDocument) : ∃ d, t.text.length = d + 1 :=
  ⟨t.text.length - 1, by simp [text]; omega⟩

theorem document_reads (hlen : t.text.length < jsonStrSize) (hne : t.entries ≠ [])
    (ht : ∀ e ∈ t.entries, e.Full ∧ e.Tight) : ∃ st, parse t.text = .ok (0, st) ∧ Sound t.text.length st ∧
      List.Forall₂ (ItemIs st.seen) st.item (t.entries.flatMap JsonEntry.leaves) := by
  obtain ⟨e, es, he⟩ := List.exists_cons_of_ne_nil hne
  obtain ⟨d, hd⟩ := t.exists_depth
  have hstart : t.start.rest = commas ((e :: es).map JsonEntry.text) ++ 125 :: t.trail.text := by
    rw [start, body, he]
  obtain ⟨st, hloop, hread⟩ := bigBracketLoop_reads
    (fun y hy => entry_reads (d := d) hlen (ht y (he ▸ hy)).1 (ht y (he ▸ hy)).2)
    (Nat.le_succ_of_le (length_le_text (e :: es) 125 t.trail.text)) t.start_within hstart
  obtain ⟨new, hitem, hnew⟩ := hread.items
  obtain rfl : st.item = new := hitem
  refine ⟨st, ?_, hread.within.sound, he ▸ hnew⟩
  rw [parse_text hlen, hd, hstart, hloop, orFail_zero]

theorem document_fails (hlen : t.text.length < jsonStrSize) (ht : t.Refused) :
    ∃ st, parse t.text = .ok (-1, st) := by
  obtain ⟨good, bad, more, he, hgood, hbad⟩ := ht
  obtain ⟨d, hd⟩ := t.exists_depth
  have hstart : t.start.rest = commas ((good ++ bad :: more).map JsonEntry.text) ++ 125 :: t.trail.text := by
    rw [start, body, he]
    cases good <;> rfl
  obtain ⟨st, hloop⟩ := bigBracketLoop_fails
    (fun y hy => entry_reads (d := d) hlen (hgood y hy).1 (hgood y hy).2) (entry_fails hlen hbad)
    (Nat.le_succ_of_le (length_le_text _ 125 t.trail.text)) t.start_within hstart
  exact ⟨st, by rw [parse_text hlen, hd, hstart, hloop, orFail_neg]⟩

/-- An object without members has no name to find. -/
theorem document_empty (hlen : t.text.length < jsonStrSize) (ht : t.entries = []) :
    ∃ st, parse t.text = .ok (-1, st) := by
  have hstart : t.start.rest = t.blank.text ++ 125 :: t.trail.text := by rw [start, body, ht]
  have hquote : 34 ∉ t.start.rest := by
    simp only [hstart, List.mem_append, List.mem_cons, not_or]
    exact ⟨fun h => t.blank.ne h rfl rfl, by decide, fun h => t.trail.ne h rfl rfl⟩
  obtain ⟨ret, st, hscan, hst⟩ := scan_ends (· = 34) t.start
  rcases hst with ⟨rfl, -⟩ | ⟨skip, c, u, -, hrest, hc, -⟩
  · have hname : parseName t.start = .ok (-1, st) := by rw [parseName, parseDoubleQuote, hscan, orFail_neg]
    have hstep : memberStep (parseValue (parseMidBracket (parseBigBracket t.text.length))) t.start =
        .ok (-1, st) := by rw [memberStep, hname, orFail_neg]
    exact ⟨st, by rw [parse_text hlen, bigBracketLoop_stop _ hstep, orFail_neg]⟩
  · rw [hrest, of_decide_eq_true hc] at hquote
    simp at hquote

theorem parseBigBracket_none {st : ToolJson} {r : List UInt8} (d : ℕ) (h : 123 ∉ r) (hr : st.rest = r) :
    ∃ st', parseBigBracket (d + 1) st = .ok (-1, st') := by
  obtain ⟨ret, st', hscan, hst⟩ := scan_ends (· = 123) st
  rcases hst with ⟨rfl, -⟩ | ⟨skip, c, u, -, hrest, hc, -⟩
  · exact ⟨st', by rw [parseBigBracket, hscan, orFail_neg]⟩
  · rw [← hr, hrest, of_decide_eq_true hc] at h
    simp at h

/-- Behind an empty array at the end of the text there is no element to find. -/
theorem document_emptyArray (hlen : t.text.length < jsonStrSize) {good : List JsonEntry} {x : JsonArray}
    (he : t.entries = good ++ [.array x]) (hgood : ∀ e ∈ good, e.Full ∧ e.Tight) (hx : x.elements = []) :
    ∃ st, parse t.text = .ok (-1, st) := by
  by_cases hgap : x.gap.text = []
  case neg => exact document_fails hlen ⟨good, JsonEntry.array x, [], he, hgood, .inl hgap⟩
  obtain ⟨d, hd⟩ := t.exists_depth
  have hstart : t.start.rest = commas ((good ++ [JsonEntry.array x]).map JsonEntry.text) ++ 125 :: t.trail.text := by
    rw [start, body, he]
    cases good <;> rfl
  have hbad : ∀ st, Within t.text.length rootArray 0 st →
      st.rest = commas ([JsonEntry.array x].map JsonEntry.text) ++ 125 :: t.trail.text →
      ∃ st', memberStep (parseValue (parseMidBracket (parseBigBracket (d + 1)))) st = .ok (-1, st') := by
    intro st h hr
    refine memberStep_fails h hlen (hr.trans (x.text_append _)) fun st₁ _ hr₁ => ?_
    rw [array_value hgap rfl hr₁]
    have hbrace : 123 ∉ x.body ++ 93 :: (x.post.text ++ 125 :: t.trail.text) := by
      simp only [JsonArray.body, hx, List.mem_append, List.mem_cons, not_or]
      exact ⟨fun h => x.blank.ne h rfl rfl, by decide, fun h => x.post.ne h rfl rfl, by decide, fun h => t.trail.ne h rfl rfl⟩
    rw [midBracketLoop_enter]
    generalize hst : enter _ st₁.slot.name 0 = st₂
    have hrest : st₂.rest = x.body ++ 93 :: (x.post.text ++ 125 :: t.trail.text) := by
      rw [← hst]
      rfl
    obtain ⟨st₃, hnone⟩ := parseBigBracket_none d hbrace hrest
    exact ⟨st₃, by rw [hnone, orFail_neg, orFail_neg]⟩
  obtain ⟨st, hloop⟩ := bigBracketLoop_breaks (fun y hy => entry_reads (d := d) hlen (hgood y hy).1 (hgood y hy).2) hbad
    (Nat.le_succ_of_le (length_le_text _ 125 t.trail.text)) t.start_within hstart
  exact ⟨st, by rw [parse_text hlen, hd, hstart, hloop, orFail_neg]⟩

theorem length_lt_of_parse {r : ℤ × ToolJson} (h : parse t.text = .ok r) : t.text.length < jsonStrSize := by
  rw [parse, cstr_of_not_mem t.zero_not_mem] at h
  by_contra hlen
  rw [if_pos (Nat.le_of_not_lt hlen)] at h
  cases h

/-- A document without empty arrays that the parser does not read as a whole is refused. -/
theorem refused_of_full (hfull : t.Full) (ht : ∃ e ∈ t.entries, ¬e.Tight) : t.Refused := by
  obtain ⟨good, bad, more, he, hgood, hbad⟩ := first_bad ht
  have hin : ∀ e ∈ good, e ∈ t.entries := fun e h => he ▸ List.mem_append_left _ h
  have hbadin : bad.Full := hfull bad (he ▸ by simp)
  refine ⟨good, bad, more, he, fun e h => ⟨hfull e (hin e h), hgood e h⟩, ?_⟩
  cases bad with
  | leaf m => exact hbad
  | array x =>
    by_cases hgap : x.gap.text = []
    · have hel : ∃ e ∈ x.elements, ¬e.Tight := by
        by_contra hall
        simp only [not_exists, not_and, not_not] at hall
        exact hbad ⟨hgap, hall⟩
      obtain ⟨gs, b, ms, hx, hgs, hb⟩ := first_bad hel
      exact .inr ⟨gs, b, ms, hx, fun e h => ⟨hbadin.2 e (hx ▸ List.mem_append_left _ h), hgs e h⟩, hb⟩
    · exact .inl hgap

/-- **Attribution.** Lookups find the member of the right place of the right array, for every object in
which no array and no element is empty and the arrays have names of their own; an object that the parser
refuses before it meets an empty one makes no promise. -/
theorem attributed (h : t.Refused ∨ (t.Full ∧ (t.arrays.map fun x => x.name.text).Nodup ∧
    ∀ x ∈ t.arrays, x.name.text ≠ rootArrayName)) : t.Attributed := by
  intro st hp
  have hlen := length_lt_of_parse hp
  have hcontra : (∃ st', parse t.text = .ok (-1, st')) → False := by
    rintro ⟨st', hp'⟩
    rw [hp] at hp'
    cases hp'
  rcases h with hr | ⟨hfull, hdist, hroot⟩
  · exact (hcontra (document_fails hlen hr)).elim
  by_cases hne : t.entries = []
  · exact (hcontra (document_empty hlen hne)).elim
  by_cases htight : ∃ e ∈ t.entries, ¬e.Tight
  · exact (hcontra (document_fails hlen (refused_of_full hfull htight))).elim
  simp only [not_exists, not_and, not_not] at htight
  obtain ⟨st', hp', hsound, hitems⟩ := document_reads hlen hne fun e he => ⟨hfull e he, htight e he⟩
  rw [hp] at hp'
  cases hp'
  refine ⟨fun x hx j name => ?_, fun name => ?_, fun array j name harray hj => ?_⟩
  · rw [← find_array hx hdist (hroot x hx)]
    exact getValueV2_leaves hsound hitems _ _ _
  · rw [members, ← find_root hroot]
    exact getValueV2_leaves hsound hitems _ _ _
  · rw [← find_other harray hj]
    exact getValueV2_leaves hsound hitems _ _ _

/-- `{"b":[{"x":1},{"x":"y"}],"a":null}` -/
def oneArray : JsonDocument where
  lead := .none
  blank := .none
  entries := [
    .array ⟨.none, .b, .none, .none, .none, [
      ⟨.none, ⟨.none, [.compact (.letter 120) (.num (.digit 49))]⟩, .none⟩,
      ⟨.none, ⟨.none, [.compact (.letter 120) (.str (.letter 121))]⟩, .none⟩],
      .none⟩,
    .leaf (.compact .a .null)]
  trail := .none

theorem oneArray_attributed : (parse oneArray.text).toOption.map Prod.fst = some 0 ∧ oneArray.Attributed := by
  refine ⟨by decide, attributed (.inr ⟨?_, by decide, by decide⟩)⟩
  simp [Full, oneArray, JsonEntry.Full, JsonArray.Full, JsonElement.Full]

/-- `{"a":[],"b":[{"x":1}]}` -/
def emptyArray : JsonDocument where
  lead := .none
  blank := .none
  entries := [
    .array ⟨.none, .a, .none, .none, .none, [], .none⟩,
    .array ⟨.none, .b, .none, .none, .none, [
      ⟨.none, ⟨.none, [.compact (.letter 120) (.num (.digit 49))]⟩, .none⟩],
      .none⟩]
  trail := .none

/-- The element of `b` is found under `a`. -/
theorem emptyArray_misread : ¬emptyArray.Attributed := by
  intro h
  have hrun : (parse emptyArray.text).toOption.map (fun r => (r.1, r.2.getValueV2 [98] 0 [120])) =
      some (0, some none) := by decide
  cases hp : parse emptyArray.text with
  | error e => rw [hp] at hrun; cases hrun
  | ok r =>
    obtain ⟨ret, st⟩ := r
    rw [hp] at hrun
    obtain ⟨rfl, hnone⟩ : ret = 0 ∧ st.getValueV2 [98] 0 [120] = some none :=
      Prod.mk.inj (Option.some.inj hrun)
    obtain ⟨q, hq, -⟩ := (h st hp).1 _ (List.mem_cons_of_mem _ List.mem_cons_self) 0 [120]
    rw [show st.getValueV2 [98] 0 [120] = some (some q) from hq] at hnone
    cases hnone

end JsonDocument

end SabApp
