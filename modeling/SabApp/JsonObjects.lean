import SabApp.JsonMembers

/-!
# Flat objects through the parser

A flat object is read member by member, one item each. The parser takes blanks everywhere but
before a string or a number and behind a number.
-/

namespace SabApp

open CText

/-- A flat object; the blanks stand between the braces when there is no member. -/
structure JsonObject where
  blank : Blanks
  members : List JsonMember

namespace JsonObject

def body (o : JsonObject) : List UInt8 :=
  match o.members with
  | [] => o.blank.text
  | m :: ms => commas ((m :: ms).map JsonMember.text)

def text (o : JsonObject) : List UInt8 := 123 :: (o.body ++ [125])

/-- The members in place `i` of array `a`. -/
def leaves (o : JsonObject) (a : Plain) (i : ℕ) : List JsonLeaf := o.members.map fun m => ⟨a, i, m.name, m.value⟩

end JsonObject

namespace ToolJson

variable {st : ToolJson} {n i : ℕ} {a : Plain}

/-! ## Runs of members -/

section Loop

variable {α : Type} {text : α → List UInt8} {leaves : α → List JsonLeaf} {P : ToolJson → Result} {r : List UInt8}

/-- A good part is read in one round. -/
def RoundReads (n : ℕ) (a : Plain) (i : ℕ) (text : α → List UInt8) (leaves : α → List JsonLeaf)
    (P : ToolJson → Result) (x : α) : Prop :=
  ∀ st c r, Within n a i st → isEnd c = true → st.rest = text x ++ c :: r →
    ∃ st', memberStep P st = .ok (0, st') ∧ Reads n a i st (leaves x) (c :: r) st'

/-- A bad part ends the loop. -/
def RoundFails (n : ℕ) (a : Plain) (i : ℕ) (text : α → List UInt8) (P : ToolJson → Result) (x : α) : Prop :=
  ∀ st c r, Within n a i st → isEnd c = true → st.rest = text x ++ c :: r →
    ∃ st', memberStep P st = .ok (-1, st')

theorem commas_cons (x y : α) (ys : List α) (r : List UInt8) :
    commas ((x :: y :: ys).map text) ++ r = text x ++ 44 :: (commas ((y :: ys).map text) ++ r) := by
  simp [commas]

theorem length_le_text (xs : List α) (c : UInt8) (r : List UInt8) :
    xs.length ≤ (commas (xs.map text) ++ c :: r).length := by
  have := length_le_commas (xs.map text)
  simp only [List.length_map, List.length_append, List.length_cons] at this ⊢
  omega

theorem bigBracketLoop_reads {x : α} {xs : List α} (hxs : ∀ y ∈ x :: xs, RoundReads n a i text leaves P y) :
    ∀ {k : ℕ} {st : ToolJson}, xs.length < k → Within n a i st →
      st.rest = commas ((x :: xs).map text) ++ 125 :: r →
      ∃ st', bigBracketLoop P k st = .ok (0, st') ∧ Reads n a i st ((x :: xs).flatMap leaves) (125 :: r) st' := by
  induction xs generalizing x with
  | nil =>
    intro k st hk h hr
    obtain ⟨k, rfl⟩ : ∃ k', k = k' + 1 := ⟨k - 1, by omega⟩
    obtain ⟨st', hstep, hread⟩ := hxs x List.mem_cons_self st 125 r h rfl hr
    exact ⟨st', bigBracketLoop_last k hstep hread.rest, by simpa using hread⟩
  | cons y ys ih =>
    intro k st hk h hr
    obtain ⟨k, rfl⟩ : ∃ k', k = k' + 1 := ⟨k - 1, by omega⟩
    rw [commas_cons] at hr
    obtain ⟨st₁, hstep, hread⟩ := hxs x List.mem_cons_self st 44 _ h rfl hr
    obtain ⟨st₂, hloop, hread₂⟩ := ih (fun z hz => hxs z (List.mem_cons_of_mem _ hz))
      (Nat.lt_of_succ_lt_succ hk) hread.passed rfl
    exact ⟨st₂, by rw [bigBracketLoop_next k hstep hread.rest, hloop], hread.trans hread₂ rfl rfl⟩

/-- A loop fails at a part that fails where it stands. -/
theorem bigBracketLoop_breaks {good : List α} {bad : α} {more : List α}
    (hgood : ∀ y ∈ good, RoundReads n a i text leaves P y) (hbad : ∀ st, Within n a i st →
      st.rest = commas ((bad :: more).map text) ++ 125 :: r → ∃ st', memberStep P st = .ok (-1, st')) :
    ∀ {k : ℕ} {st : ToolJson}, (good ++ bad :: more).length ≤ k → Within n a i st →
      st.rest = commas ((good ++ bad :: more).map text) ++ 125 :: r →
      ∃ st', bigBracketLoop P k st = .ok (-1, st') := by
  induction good with
  | nil =>
    intro k st hk h hr
    obtain ⟨k, rfl⟩ : ∃ k', k = k' + 1 := ⟨k - 1, by simp at hk; omega⟩
    obtain ⟨st', hstep⟩ := hbad st h hr
    exact ⟨st', bigBracketLoop_stop k hstep⟩
  | cons x good ih =>
    intro k st hk h hr
    obtain ⟨k, rfl⟩ : ∃ k', k = k' + 1 := ⟨k - 1, by simp at hk; omega⟩
    have hr' : st.rest = text x ++ 44 :: (commas ((good ++ bad :: more).map text) ++ 125 :: r) := by
      rw [hr]
      cases good <;> exact commas_cons _ _ _ _
    obtain ⟨st₁, hstep, hread⟩ := hgood x List.mem_cons_self st 44 _ h rfl hr'
    obtain ⟨st₂, hloop⟩ := ih (fun y hy => hgood y (List.mem_cons_of_mem _ hy)) (Nat.le_of_succ_le_succ hk)
      hread.passed rfl
    exact ⟨st₂, by rw [bigBracketLoop_next k hstep hread.rest, hloop]⟩

theorem bigBracketLoop_fails {good : List α} {bad : α} {more : List α}
    (hgood : ∀ y ∈ good, RoundReads n a i text leaves P y) (hbad : RoundFails n a i text P bad) :
    ∀ {k : ℕ} {st : ToolJson}, (good ++ bad :: more).length ≤ k → Within n a i st →
      st.rest = commas ((good ++ bad :: more).map text) ++ 125 :: r →
      ∃ st', bigBracketLoop P k st = .ok (-1, st') := by
  refine bigBracketLoop_breaks hgood fun st h hr => ?_
  cases more with
  | nil => exact hbad st 125 r h rfl hr
  | cons y ys => exact hbad st 44 _ h rfl (hr.trans (commas_cons bad y ys _))

/-- The first bad part of a list. -/
theorem first_bad {good : α → Prop} {xs : List α} (h : ∃ x ∈ xs, ¬good x) :
    ∃ ys x zs, xs = ys ++ x :: zs ∧ (∀ y ∈ ys, good y) ∧ ¬good x := by
  induction xs with
  | nil => simp at h
  | cons x xs ih =>
    by_cases hx : good x
    · have hxs : ∃ y ∈ xs, ¬good y := by
        obtain ⟨y, hy, hne⟩ := h
        rcases List.mem_cons.mp hy with rfl | hy
        · exact absurd hx hne
        · exact ⟨y, hy, hne⟩
      obtain ⟨ys, z, zs, rfl, hys, hz⟩ := ih hxs
      exact ⟨x :: ys, z, zs, rfl, List.forall_mem_cons.mpr ⟨hx, hys⟩, hz⟩
    · exact ⟨[], x, xs, rfl, by simp, hx⟩

end Loop

/-! ## One object -/

theorem Reads.from_moved {s t r : List UInt8} {ls : List JsonLeaf} {st' : ToolJson}
    (h : Reads n a i { st with past := st.past ++ s, rest := t } ls r st') : Reads n a i st ls r st' :=
  ⟨h.within, h.rest, (List.prefix_append _ _).trans h.past, h.items⟩

theorem parseBigBracket_open (d : ℕ) {lead : Blanks} {u : List UInt8} (hr : st.rest = lead.text ++ 123 :: u) :
    parseBigBracket (d + 1) st = bigBracketLoop (parseValue (parseMidBracket (parseBigBracket d))) (u.length + 1)
      { st with past := st.past ++ (lead.text ++ [123]), rest := u } := by
  have hlead : ∀ x ∈ lead.text, decide (x = 123) = false := fun x hx => decide_eq_false (lead.ne hx rfl)
  rw [parseBigBracket, scan_block hr hlead rfl, orFail_zero, forward_mk, ok_bind, List.append_assoc]

theorem Within.opened (h : Within n a i st) {lead : Blanks} {u : List UInt8} (hr : st.rest = lead.text ++ 123 :: u) :
    Within n a i { st with past := st.past ++ (lead.text ++ [123]), rest := u } :=
  h.moved (by rw [hr, List.append_assoc]; rfl)

theorem member_reads (hn : n < jsonStrSize) {m : JsonMember} (hm : m.Tight) (M : Option JsonPtr → ToolJson → Result) :
    RoundReads n a i JsonMember.text (fun m => [⟨a, i, m.name, m.value⟩]) (parseValue M) m := by
  intro st c r h hc hr
  refine memberStep_reads h hn hc (isEnd_blank m.post) (hr.trans (m.text_append _)) ?_
  exact fun st₁ h₁ hr₁ => value_reads h₁ hn hm hc hr₁

theorem member_fails (hn : n < jsonStrSize) {m : JsonMember} (hm : ¬m.Tight)
    (M : Option JsonPtr → ToolJson → Result) : RoundFails n a i JsonMember.text (parseValue M) m := by
  intro st c r h hc hr
  refine memberStep_fails h hn (hr.trans (m.text_append _)) ?_
  exact fun st₁ _ hr₁ => ⟨st₁, value_fails hm hc hr₁⟩

section Object

variable {o : JsonObject} {lead : Blanks} {r : List UInt8}

theorem object_reads (hn : n < jsonStrSize) (d : ℕ) (hne : o.members ≠ []) (ho : ∀ m ∈ o.members, m.Tight)
    (h : Within n a i st) (hr : st.rest = lead.text ++ (o.text ++ r)) :
    ∃ st', parseBigBracket (d + 1) st = .ok (0, st') ∧ Reads n a i st (o.leaves a i) (125 :: r) st' := by
  obtain ⟨blank, members⟩ := o
  obtain ⟨m, ms, rfl⟩ := List.exists_cons_of_ne_nil hne
  have hr' : st.rest = lead.text ++ 123 :: (commas ((m :: ms).map JsonMember.text) ++ 125 :: r) := by
    rw [hr]
    simp [JsonObject.text, JsonObject.body]
  obtain ⟨st', hloop, hread⟩ := bigBracketLoop_reads (fun y hy => member_reads hn (ho y hy) _)
    (Nat.le_succ_of_le (length_le_text (m :: ms) 125 r)) (h.opened hr') rfl
  refine ⟨st', by rw [parseBigBracket_open d hr', hloop], ?_⟩
  rw [← List.map_eq_flatMap] at hread
  exact hread.from_moved

theorem object_fails (hn : n < jsonStrSize) (d : ℕ) (ho : ∃ m ∈ o.members, ¬m.Tight)
    (h : Within n a i st) (hr : st.rest = lead.text ++ (o.text ++ r)) :
    ∃ st', parseBigBracket (d + 1) st = .ok (-1, st') := by
  obtain ⟨blank, members⟩ := o
  obtain ⟨m, ms, rfl⟩ := List.exists_cons_of_ne_nil (List.ne_nil_of_mem ho.choose_spec.1)
  have hr' : st.rest = lead.text ++ 123 :: (commas ((m :: ms).map JsonMember.text) ++ 125 :: r) := by
    rw [hr]
    simp [JsonObject.text, JsonObject.body]
  obtain ⟨good, bad, more, heq, hgood, hbad⟩ := first_bad ho
  simp only at heq
  rw [heq] at hr'
  obtain ⟨st', hloop⟩ := bigBracketLoop_fails (fun y hy => member_reads hn (hgood y hy) _) (member_fails hn hbad _)
    (Nat.le_succ_of_le (length_le_text _ 125 r)) (h.opened hr') rfl
  exact ⟨st', by rw [parseBigBracket_open d hr', hloop]⟩

end Object

/-! ## Reading the items -/

theorem cstr_drop {text : List UInt8} {off : ℕ} {s : List UInt8} (h : StandsAt text off (s ++ [0]))
    (hs : 0 ∉ s) : cstr (text.drop off) = s := by
  obtain ⟨x, y, rfl, rfl⟩ := h
  have : x ++ (s ++ [0]) ++ y = x ++ (s ++ 0 :: y) := by simp
  rw [this, List.drop_left, cstr_append_zero hs]

theorem seen_prefix (st : ToolJson) : st.seen <+: st.past ++ st.rest :=
  (List.prefix_append_right_inj _).mpr (List.take_prefix _ _)

theorem deref_of_points {p : Option JsonPtr} {s : List UInt8} (h : Points st.seen p s) (hs : 0 ∉ s) :
    p.map st.deref = some s := by
  obtain ⟨t, ht⟩ := st.seen_prefix
  rcases h with rfl | ⟨off, rfl, hst⟩
  · rfl
  · simp only [Option.map_some, deref, ← ht, cstr_drop (hst.append t) hs]

theorem getValueLoop_find (st : ToolJson) (name : List UInt8) {its : List JsonItem}
    (h : ∀ it ∈ its, it.name.isSome) : st.getValueLoop name its =
      some ((its.find? fun it => it.name.map st.deref = some name).bind JsonItem.value) := by
  induction its with
  | nil => rfl
  | cons it its ih =>
    obtain ⟨p, hp⟩ := Option.isSome_iff_exists.mp (h it List.mem_cons_self)
    rw [getValueLoop, hp]
    by_cases hd : st.deref p = name
    · simp [hp, hd]
    · rw [List.find?_cons_of_neg (by simp [hp, hd]), ← ih fun x hx => h x (List.mem_cons_of_mem _ hx)]
      simp [hd]

/-- The item holds the member: its name, and its value as its kind is read. -/
def Holds (st : ToolJson) (it : JsonItem) (m : JsonMember) : Prop :=
  it.name.map st.deref = some m.name.text ∧
    match m.value with
    | .str s => it.type = .string ∧ it.value.map st.deref = some s.text
    | .num x => it.type = .number ∧ it.number = x.val
    | .null => it.type = .null ∧ it.value = some (.lit nullMarker)

theorem atoi_int32 {x : Numeral} (h : x.Int32) : atoi x.text = x.val := by
  obtain ⟨hint, -, hlo, hhi⟩ := h
  have := atoi_text hint (t := []) (by simp)
  rw [List.append_nil] at this
  rw [this]
  omega

theorem ItemIs.holds {it : JsonItem} {m : JsonMember} (h : ItemIs st.seen it ⟨a, i, m.name, m.value⟩)
    (hnum : m.Int32) : st.Holds it m := by
  refine ⟨deref_of_points h.name m.name.no_zero, ?_⟩
  have hv := h.value
  obtain ⟨pre, nm, mid, gap, value, post⟩ := m
  cases value with
  | str s => exact ⟨hv.1, deref_of_points hv.2 s.no_zero⟩
  | num x => exact ⟨hv.1, hv.2.1.trans (atoi_int32 hnum)⟩
  | null => exact hv

end ToolJson

/-! ## Whole texts -/

/-- The two values read alike. -/
def JsonValue.Same : JsonValue → JsonValue → Prop
  | .str s, .str s' => s.text = s'.text
  | .num x, .num y => x.val = y.val
  | .null, .null => True
  | _, _ => False

instance (v w : JsonValue) : Decidable (v.Same w) := by
  unfold JsonValue.Same
  split <;> infer_instance

theorem JsonObject.zero_not_mem (o : JsonObject) : 0 ∉ o.text := by
  obtain ⟨blank, members⟩ := o
  cases members with
  | nil => simp [JsonObject.text, JsonObject.body, Blanks.zero_not_mem]
  | cons m ms =>
    have hbody : 0 ∉ commas ((m :: ms).map JsonMember.text) := by
      refine zero_not_mem_commas fun t ht => ?_
      obtain ⟨m', -, rfl⟩ := List.mem_map.mp ht
      exact m'.zero_not_mem
    simpa [JsonObject.text, JsonObject.body] using hbody

/-- A text with one flat object. -/
structure JsonText where
  lead : Blanks
  object : JsonObject
  trail : Blanks

namespace JsonText

def text (t : JsonText) : List UInt8 := t.lead.text ++ (t.object.text ++ t.trail.text)

/-- What is promised for the text: the call returns 0, there is one item for each member in order,
and each member's name finds an item that holds it. -/
def Accepted (t : JsonText) : Prop :=
  ∃ st, ToolJson.parse t.text = .ok (0, st) ∧ List.Forall₂ st.Holds st.item t.object.members ∧
    ∀ m ∈ t.object.members, ∃ it, st.getValue m.name.text = some it.value ∧ st.Holds it m ∧
      st.item.find? (fun it => it.name.map st.deref = some m.name.text) = some it

theorem zero_not_mem (t : JsonText) : 0 ∉ t.text := by
  simp [text, Blanks.zero_not_mem, JsonObject.zero_not_mem]

end JsonText

namespace ToolJson

theorem parse_eq {s : List UInt8} (hs : 0 ∉ s) (hlen : s.length < jsonStrSize) :
    parse s = orFail (parseBigBracket (s.length + 1) (init s)) fun st => .ok (0, st) := by
  rw [parse, cstr_of_not_mem hs, if_neg (Nat.not_le.mpr hlen)]

theorem init_within (s : List UInt8) : Within s.length rootArray 0 (init s) :=
  ⟨init_sound s, .inl rfl, rfl⟩

end ToolJson

namespace JsonText

open ToolJson

variable {t : JsonText}

theorem parse_reads (hlen : t.text.length < jsonStrSize) (hne : t.object.members ≠ [])
    (ht : ∀ m ∈ t.object.members, m.Tight) :
    ∃ st, parse t.text = .ok (0, st) ∧
      Reads t.text.length rootArray 0 (init t.text) (t.object.leaves rootArray 0) (125 :: t.trail.text) st := by
  obtain ⟨st, hp, hread⟩ := object_reads hlen t.text.length hne ht (init_within t.text) rfl
  exact ⟨st, by rw [parse_eq t.zero_not_mem hlen, hp, orFail_zero], hread⟩

theorem parse_fails (hlen : t.text.length < jsonStrSize) (ht : ∃ m ∈ t.object.members, ¬m.Tight) :
    ∃ st, parse t.text = .ok (-1, st) := by
  obtain ⟨st, hp⟩ := object_fails hlen t.text.length ht (init_within t.text) rfl
  exact ⟨st, by rw [parse_eq t.zero_not_mem hlen, hp, orFail_neg]⟩

theorem same_of_holds {st : ToolJson} {it : JsonItem} {m m' : JsonMember} (h : st.Holds it m) (h' : st.Holds it m') :
    m.value.Same m'.value := by
  have hv := h.2
  have hv' := h'.2
  cases hm : m.value <;> cases hm' : m'.value <;> simp only [hm, hm', JsonValue.Same] at hv hv' ⊢
  case str.str => exact Option.some.inj (hv.2.symm.trans hv'.2)
  case num.num => exact hv.2.symm.trans hv'.2
  all_goals exact absurd (hv.1.symm.trans hv'.1) (by decide)

theorem holds_of_same {st : ToolJson} {it : JsonItem} {m m' : JsonMember} (h : st.Holds it m)
    (hname : m.name.text = m'.name.text) (hs : m.value.Same m'.value) : st.Holds it m' := by
  obtain ⟨hn, hv⟩ := h
  refine ⟨hname ▸ hn, ?_⟩
  cases hm : m.value <;> cases hm' : m'.value <;> simp only [hm, hm', JsonValue.Same] at hv hs ⊢
  case str.str => exact ⟨hv.1, hs ▸ hv.2⟩
  case num.num => exact ⟨hv.1, hs ▸ hv.2⟩
  case null.null => exact hv

theorem forall₂_left {α β : Type} {R : α → β → Prop} {xs : List α} {ys : List β} (h : List.Forall₂ R xs ys)
    {y : β} (hy : y ∈ ys) : ∃ x ∈ xs, R x y := by
  induction h with
  | nil => simp at hy
  | cons hxy _ ih =>
    rcases List.mem_cons.mp hy with rfl | hy
    · exact ⟨_, List.mem_cons_self, hxy⟩
    · obtain ⟨x, hx, hR⟩ := ih hy
      exact ⟨x, List.mem_cons_of_mem _ hx, hR⟩

theorem holds_items {st : ToolJson} {its : List JsonItem} {ms : List JsonMember} {a : Plain} {i : ℕ}
    (h : List.Forall₂ (fun it m => ItemIs st.seen it ⟨a, i, m.name, m.value⟩) its ms)
    (hnum : ∀ m ∈ ms, m.Int32) : List.Forall₂ st.Holds its ms := by
  induction h with
  | nil => exact .nil
  | cons hit _ ih =>
    exact .cons (hit.holds (hnum _ List.mem_cons_self)) (ih fun m hm => hnum m (List.mem_cons_of_mem _ hm))

theorem accepted_of_tight (hlen : t.text.length < jsonStrSize) (hne : t.object.members ≠ [])
    (hnum : ∀ m ∈ t.object.members, m.Int32) (ht : ∀ m ∈ t.object.members, m.Tight)
    (hsame : ∀ m ∈ t.object.members, ∀ m' ∈ t.object.members, m.name.text = m'.name.text → m.value.Same m'.value) :
    t.Accepted := by
  obtain ⟨st, hp, hread⟩ := parse_reads hlen hne ht
  obtain ⟨new, hitem, hnew⟩ := hread.items
  obtain rfl : st.item = new := hitem
  rw [JsonObject.leaves, List.forall₂_map_right_iff] at hnew
  have hholds := holds_items hnew hnum
  refine ⟨st, hp, hholds, fun m hm => ?_⟩
  obtain ⟨it, hit, hold⟩ := forall₂_left hholds hm
  have hsome : (st.item.find? fun it => it.name.map st.deref = some m.name.text).isSome :=
    List.find?_isSome.mpr ⟨it, hit, by simpa using hold.1⟩
  -- The first item of that name is of a member of that name, which need not be `m`.
  obtain ⟨it', hf⟩ := Option.isSome_iff_exists.mp hsome
  obtain ⟨m', hm', hold'⟩ := forall₂_left hholds.flip (List.mem_of_find?_eq_some hf)
  have hname : it'.name.map st.deref = some m.name.text := by simpa using List.find?_some hf
  have heq : m'.name.text = m.name.text := Option.some.inj (hold'.1.symm.trans hname)
  refine ⟨it', ?_, holds_of_same hold' heq (hsame m' hm' m hm heq), hf⟩
  rw [getValue, getValueLoop_find st m.name.text fun x hx => (hread.within.sound.named x hx).1, hf]
  rfl

/-- **Exactly the texts that are accepted.** A flat object is accepted if and only if no blank stands
directly before a string or a number or directly behind a number, and members of one name have one
value. -/
theorem accepted_iff (hlen : t.text.length < jsonStrSize) (hne : t.object.members ≠ [])
    (hnum : ∀ m ∈ t.object.members, m.Int32) :
    t.Accepted ↔ (∀ m ∈ t.object.members, m.Tight) ∧
      ∀ m ∈ t.object.members, ∀ m' ∈ t.object.members, m.name.text = m'.name.text → m.value.Same m'.value := by
  constructor
  · rintro ⟨st, hp, -, hfind⟩
    refine ⟨?_, ?_⟩
    · by_contra hloose
      simp only [not_forall] at hloose
      obtain ⟨m, hm, hloose⟩ := hloose
      obtain ⟨st', hp'⟩ := parse_fails hlen ⟨m, hm, hloose⟩
      rw [hp] at hp'
      cases hp'
    · intro m hm m' hm' hname
      obtain ⟨it, -, hit, hf⟩ := hfind m hm
      obtain ⟨it', -, hit', hf'⟩ := hfind m' hm'
      rw [← hname, hf] at hf'
      cases hf'
      exact same_of_holds hit hit'
  · rintro ⟨ht, hsame⟩
    exact accepted_of_tight hlen hne hnum ht hsame

/-- `{"a":"b"}` -/
def packed : JsonText where
  lead := .none
  object := ⟨.none, [.compact .a (.str .b)]⟩
  trail := .none

theorem packed_accepted : packed.Accepted :=
  (accepted_iff (by decide) (by decide) (by decide)).mpr ⟨by decide, by decide⟩

/-- `{"a": 1}` -/
def spaced : JsonText where
  lead := .none
  object := ⟨.none, [{ JsonMember.compact .a (.num (.digit 49)) with
    gap := ⟨[32], by simp [isBlank]⟩ }]⟩
  trail := .none

theorem spaced_refused : spaced.text.length < jsonStrSize ∧ spaced.object.members ≠ [] ∧
    spaced.object.members.length ≤ jsonItemNum ∧ (∀ m ∈ spaced.object.members, m.Int32) ∧ ¬spaced.Accepted := by
  refine ⟨by decide, by decide, by decide, by decide, ?_⟩
  rintro ⟨st, hp, -⟩
  have hret : (parse spaced.text).toOption.map Prod.fst = some (-1) := by decide
  rw [hp] at hret
  cases hret

end JsonText

end SabApp
