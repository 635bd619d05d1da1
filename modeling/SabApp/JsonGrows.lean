import SabApp.JsonObjects

/-!
# What the parser has read stays

No call takes back an item or writes behind the cursor. Members that were read before a text goes wrong are therefore
found by the lookups, if the parser accepts the text at all.
-/

namespace SabApp

namespace ToolJson

/-- The state after a run: what is behind the cursor and what is counted are still there. -/
structure Grows (st st' : ToolJson) : Prop where
  past : st.past <+: st'.past
  item : st.item <+: st'.item

theorem Grows.refl (st : ToolJson) : Grows st st := ⟨List.prefix_rfl, List.prefix_rfl⟩

theorem Grows.trans {st₁ st₂ st₃ : ToolJson} (h : Grows st₁ st₂) (h' : Grows st₂ st₃) : Grows st₁ st₃ :=
  ⟨h.past.trans h'.past, h.item.trans h'.item⟩

/-- The call grows the state, whatever it returns. -/
def GrowsBy (st : ToolJson) (r : Result) : Prop := ∀ ret st', r = .ok (ret, st') → Grows st st'

section Calls

variable {st : ToolJson} {x : Result} {f : ToolJson → Result}

theorem GrowsBy.ok {st' : ToolJson} (h : Grows st st') (ret : ℤ) : GrowsBy st (.ok (ret, st')) := by
  rintro _ _ ⟨⟩
  exact h

theorem GrowsBy.error (e : Fault) : GrowsBy st (.error e) := by
  intro ret st' h
  cases h

theorem GrowsBy.from {st' : ToolJson} (h : Grows st st') (hx : GrowsBy st' x) : GrowsBy st x :=
  fun ret st'' hr => h.trans (hx ret st'' hr)

theorem GrowsBy.orFail (hx : GrowsBy st x) (hf : ∀ st', GrowsBy st' (f st')) : GrowsBy st (orFail x f) := by
  rcases x with e | ⟨r, st₁⟩
  · exact .error e
  · have h₁ : Grows st st₁ := hx r st₁ rfl
    rw [ToolJson.orFail, ok_bind]
    split
    · exact .ok h₁ _
    · exact (hf st₁).from h₁

theorem GrowsBy.orReturn (hx : GrowsBy st x) (hf : ∀ st', GrowsBy st' (f st')) : GrowsBy st (orReturn x f) := by
  rcases x with e | ⟨r, st₁⟩
  · exact .error e
  · have h₁ : Grows st st₁ := hx r st₁ rfl
    rw [ToolJson.orReturn, ok_bind]
    split
    · exact .ok h₁ _
    · split
      · exact .ok h₁ _
      · exact (hf st₁).from h₁

theorem GrowsBy.bind {y : Except Fault ToolJson} (hy : ∀ st', y = .ok st' → Grows st st')
    (hf : ∀ st', GrowsBy st' (f st')) : GrowsBy st (y >>= f) := by
  cases y with
  | error e => exact .error e
  | ok st₁ =>
    rw [ok_bind]
    exact (hf st₁).from (hy st₁ rfl)

end Calls

/-! ## Each call -/

variable (st : ToolJson)

theorem scan_grows (stop : UInt8 → Bool) : GrowsBy st (scan stop st) := by
  rintro _ _ ⟨⟩
  exact ⟨List.prefix_append _ _, List.prefix_rfl⟩

theorem forward_grows (n : ℕ) : ∀ st', forward n st = .ok st' → Grows st st' := by
  intro st' h
  rw [forward] at h
  split at h
  · cases h
    exact ⟨List.prefix_append _ _, List.prefix_rfl⟩
  · cases h

theorem terminate_grows : ∀ st', terminate st = .ok st' → Grows st st' := by
  intro st' h
  rw [terminate] at h
  split at h
  · cases h
  · cases h
    exact ⟨List.prefix_rfl, List.prefix_rfl⟩

theorem setSlot_grows (f : JsonItem → JsonItem) : ∀ st', setSlot f st = .ok st' → Grows st st' := by
  intro st' h
  rw [setSlot] at h
  split at h
  · cases h
    exact ⟨List.prefix_rfl, List.prefix_rfl⟩
  · cases h

theorem count_grows : Grows st st.count := ⟨List.prefix_rfl, List.prefix_append _ _⟩

theorem count_forward_grows (n : ℕ) (ret : ℤ) : GrowsBy st (st.count.forward n >>= fun st => .ok (ret, st)) :=
  (GrowsBy.bind (forward_grows _ n) fun st' => .ok (.refl st') ret).from (count_grows st)

theorem parseName_grows : GrowsBy st st.parseName := by
  refine (scan_grows st _).orFail fun st => ?_
  refine .bind (forward_grows st 1) fun st => ?_
  refine .bind (setSlot_grows st _) fun st => ?_
  refine (scan_grows st _).orFail fun st => ?_
  refine .bind (terminate_grows st) fun st => ?_
  refine .bind (forward_grows st 1) fun st => ?_
  refine (scan_grows st _).orFail fun st => ?_
  exact .bind (forward_grows st 1) fun st => .ok (.refl st) 0

theorem parseString_grows : GrowsBy st st.parseString := by
  refine .bind (setSlot_grows st _) fun st => ?_
  refine (scan_grows st _).orFail fun st => ?_
  refine .bind (terminate_grows st) fun st => ?_
  refine .bind (setSlot_grows st _) fun st => ?_
  exact count_forward_grows st 1 0

theorem parseNull_grows : GrowsBy st st.parseNull := by
  rw [parseNull]
  split
  · exact .ok (.refl st) _
  · exact .bind (setSlot_grows st _) fun st => count_forward_grows st _ 1

theorem parseNumber_grows : GrowsBy st st.parseNumber := by
  rw [parseNumber]
  split
  · exact .ok (.refl st) _
  · exact .bind (setSlot_grows st _) fun st => count_forward_grows st _ 1

/-! ## Objects and arrays -/

variable {P : ToolJson → Result} {M : Option JsonPtr → ToolJson → Result}

theorem parseValue_grows (hM : ∀ p st, GrowsBy st (M p st)) : GrowsBy st (parseValue M st) := by
  refine (parseNull_grows st).orReturn fun st => ?_
  refine (parseNumber_grows st).orReturn fun st => ?_
  refine (scan_grows st _).orFail fun st => ?_
  split
  · exact (hM _ st).orFail fun st => .ok (.refl st) 0
  · exact .bind (forward_grows st 1) fun st => parseString_grows st

theorem midBracketLoop_grows (hP : ∀ st, GrowsBy st (P st)) (p : Option JsonPtr) :
    ∀ (k i : ℕ) (st : ToolJson), GrowsBy st (midBracketLoop P p k i st)
  | 0, _, _ => .error _
  | k + 1, i, st => by
    have hin : Grows st { st with curArrayName := p, curArrayIndex := i } := ⟨List.prefix_rfl, List.prefix_rfl⟩
    refine ((hP _).from hin).orFail fun st => ?_
    refine .bind (forward_grows st 1) fun st => ?_
    refine (scan_grows st _).orFail fun st => ?_
    split
    · rintro _ _ ⟨⟩
      exact ⟨List.prefix_rfl, List.prefix_rfl⟩
    · exact .bind (forward_grows st 1) fun st => midBracketLoop_grows hP p k (i + 1) st

/-- The rest of a round, behind the value. -/
theorem round_grows {f : ToolJson → Result} (hf : ∀ st, GrowsBy st (f st)) :
    GrowsBy st (orFail st.parseCommaCaseBigBracket fun st =>
      if st.char = 125 then .ok (0, st) else st.forward 1 >>= f) := by
  refine (scan_grows st _).orFail fun st => ?_
  split
  · exact .ok (.refl st) 0
  · exact .bind (forward_grows st 1) hf

theorem bigBracketLoop_grows (hP : ∀ st, GrowsBy st (P st)) :
    ∀ (k : ℕ) (st : ToolJson), GrowsBy st (bigBracketLoop P k st)
  | 0, _ => .error _
  | k + 1, st => by
    refine (parseName_grows st).orFail fun st => ?_
    refine (hP st).orFail fun st => ?_
    exact round_grows st (bigBracketLoop_grows hP k)

theorem parseBigBracket_grows : ∀ (d : ℕ) (st : ToolJson), GrowsBy st (parseBigBracket d st)
  | 0, _ => .error _
  | d + 1, st => by
    refine (scan_grows st _).orFail fun st => ?_
    refine .bind (forward_grows st 1) fun st => ?_
    refine bigBracketLoop_grows (fun st => parseValue_grows st fun p st => ?_) _ st
    exact .bind (forward_grows st 1) fun st => midBracketLoop_grows (parseBigBracket_grows d) p _ 0 st

/-! ## Members that were read -/

section Begins

variable {n i : ℕ} {a : Plain} {st : ToolJson}

/-- The leaves of strings. -/
def strings (a : Plain) (i : ℕ) (ms : List (Plain × Plain)) : List JsonLeaf := ms.map fun m => ⟨a, i, m.1, .str m.2⟩

/-- A member as the encoders print it. -/
def printedMember (m : Plain × Plain) (u : List UInt8) : List UInt8 :=
  34 :: (m.1.text ++ 34 :: 58 :: 34 :: (m.2.text ++ 34 :: u))

theorem printed_reads (hn : n < jsonStrSize) (m : Plain × Plain) (M : Option JsonPtr → ToolJson → Result) {u : List UInt8}
    (h : Within n a i st) (hr : st.rest = printedMember m (44 :: u)) :
    ∃ st', memberStep (parseValue M) st = .ok (0, st') ∧ Reads n a i st (strings a i [m]) (44 :: u) st' := by
  have hm : (JsonMember.compact m.1 (.str m.2)).Tight := rfl
  refine member_reads hn hm M st 44 u h rfl ?_
  rw [hr, printedMember, JsonMember.text_append]
  simp [JsonMember.compact, Blanks.none, JsonMember.tail, JsonValue.text]

/-- **A text that goes wrong.** Behind good members one whose value ends early, whatever comes then: if the loop returns,
its items begin with these. -/
theorem bigBracketLoop_begins (hn : n < jsonStrSize) (hM : ∀ p st, GrowsBy st (M p st)) {bad : Plain × Plain}
    {u : List UInt8} {ret : ℤ} {st' : ToolJson} : ∀ {good : List (Plain × Plain)} {k : ℕ} {st : ToolJson},
    Within n a i st → st.rest = good.foldr (fun m t => printedMember m (44 :: t)) (printedMember bad u) →
    bigBracketLoop (parseValue M) k st = .ok (ret, st') →
    ∃ st₂, Reads n a i st (strings a i (good ++ [bad])) u st₂ ∧ Grows st₂ st'
  | _, 0, _, _, _, hrun => by cases hrun
  | [], k + 1, st, h, hr, hrun => by
    obtain ⟨hname, hready⟩ := @Within.ready _ _ _ _ h hn .none .none _ _ hr
    obtain ⟨st₂, hvalue, hread⟩ := parseValue_str (M := M) hready hn rfl
    rw [bigBracketLoop, hname, orFail_zero, hvalue, orFail_zero] at hrun
    have hgrows : Grows st₂ st' := round_grows st₂ (bigBracketLoop_grows (parseValue_grows · hM) k) ret st' hrun
    refine ⟨st₂, ⟨hread.within, hread.rest, ?_, hread.items⟩, hgrows⟩
    exact (List.prefix_append _ _).trans hread.past
  | m :: good, k + 1, st, h, hr, hrun => by
    obtain ⟨st₁, hstep, hread⟩ := printed_reads hn m M h hr
    rw [bigBracketLoop_next k hstep hread.rest] at hrun
    obtain ⟨st₂, hread₂, hgrows⟩ := bigBracketLoop_begins hn hM hread.passed rfl hrun
    exact ⟨st₂, hread.trans hread₂ rfl rfl, hgrows⟩

/-- A terminator that is not at the cursor is behind it. -/
theorem StandsAt.of_seen {st : ToolJson} (hzero : 0 ∉ st.rest) {off : ℕ} {s : List UInt8}
    (h : StandsAt st.seen off (s ++ [0])) : StandsAt st.past off (s ++ [0]) := by
  obtain ⟨x, y, hxy, hoff⟩ := h
  rw [seen] at hxy
  cases hrest : st.rest with
  | nil =>
    rw [hrest, List.take_nil, List.append_nil] at hxy
    exact ⟨x, y, hxy, hoff⟩
  | cons c t =>
    rw [hrest, List.take_succ_cons, List.take_zero] at hxy
    rcases List.eq_nil_or_concat y with rfl | ⟨y, d, rfl⟩
    · rw [List.append_nil, ← List.append_assoc] at hxy
      have hc := (List.append_inj' hxy rfl).2
      rw [List.cons_eq_cons.mp hc |>.1] at hrest
      exact absurd (hrest ▸ List.mem_cons_self) hzero
    · rw [List.concat_eq_append, ← List.append_assoc] at hxy
      exact ⟨x, y, (List.append_inj' hxy rfl).1, hoff⟩

theorem deref_grown {st st' : ToolJson} (hzero : 0 ∉ st.rest) (h : Grows st st') {p : Option JsonPtr} {s : List UInt8}
    (hp : Points st.seen p s) (hs : 0 ∉ s) : p.map st'.deref = some s := by
  apply deref_of_points _ hs
  have hpast : Points st.past p s := by
    rcases hp with hp | ⟨off, hp, hst⟩
    · exact .inl hp
    · exact .inr ⟨off, hp, hst.of_seen hzero⟩
  obtain ⟨v, hv⟩ := h.past
  rw [seen, ← hv, List.append_assoc]
  exact hpast.append _

theorem getValueLoop_first {st : ToolJson} {name : List UInt8} {it : JsonItem} {more : List JsonItem} {p : JsonPtr}
    (hit : it.name = some p) (hp : st.deref p = name) : ∀ {front : List JsonItem},
    (∀ x ∈ front, ∃ q, x.name = some q ∧ st.deref q ≠ name) →
      st.getValueLoop name (front ++ it :: more) = some it.value
  | [], _ => by
    rw [List.nil_append, getValueLoop, hit]
    exact if_pos hp
  | x :: front, h => by
    rw [List.forall_mem_cons] at h
    obtain ⟨⟨q, hq, hne⟩, hfront⟩ := h
    rw [List.cons_append, getValueLoop, hq]
    exact (if_neg hne).trans (getValueLoop_first hit hp hfront)

theorem forall₂_last {α β : Type} {R : α → β → Prop} {y : β} : ∀ {ys : List β} {xs : List α},
    List.Forall₂ R xs (ys ++ [y]) →
      ∃ front last, xs = front ++ [last] ∧ (∀ x ∈ front, ∃ z ∈ ys, R x z) ∧ R last y
  | [], _, .cons h .nil => ⟨[], _, rfl, nofun, h⟩
  | z :: ys, x :: _, .cons h hs => by
    obtain ⟨front, last, rfl, hfront, hlast⟩ := forall₂_last hs
    refine ⟨x :: front, last, rfl, List.forall_mem_cons.mpr ⟨⟨z, by simp, h⟩, fun w hw => ?_⟩, hlast⟩
    obtain ⟨v, hv, hwv⟩ := hfront w hw
    exact ⟨v, .tail _ hv, hwv⟩

/-- **Lookup.** The name of the bad member, which no good one has, is found with the value that was read. -/
theorem getValue_begins (hn : n < jsonStrSize) (hM : ∀ p st, GrowsBy st (M p st)) {good : List (Plain × Plain)}
    {bad : Plain × Plain} {u : List UInt8} {k : ℕ} {ret : ℤ} {st' : ToolJson} (h : Within n a i st)
    (hr : st.rest = good.foldr (fun m t => printedMember m (44 :: t)) (printedMember bad u)) (hitem : st.item = [])
    (hzero : 0 ∉ u) (hother : ∀ m ∈ good, m.1.text ≠ bad.1.text)
    (hrun : bigBracketLoop (parseValue M) k st = .ok (ret, st')) :
    ∃ q, st'.getValue bad.1.text = some (some q) ∧ st'.deref q = bad.2.text := by
  obtain ⟨st₂, hread, hgrows⟩ := bigBracketLoop_begins hn hM h hr hrun
  obtain ⟨new, hnew, hleaves⟩ := hread.items
  obtain ⟨more, hmore⟩ := hgrows.item
  have hzero₂ : 0 ∉ st₂.rest := hread.rest ▸ hzero
  rw [hitem, List.nil_append] at hnew
  rw [strings, List.map_append, List.map_singleton] at hleaves
  obtain ⟨front, last, rfl, hfront, hlast⟩ := forall₂_last hleaves
  have hname := deref_grown hzero₂ hgrows hlast.name bad.1.no_zero
  have hvalue := deref_grown hzero₂ hgrows hlast.value.2 bad.2.no_zero
  obtain ⟨p, hp, hpname⟩ := Option.map_eq_some_iff.mp hname
  obtain ⟨q, hq, hqvalue⟩ := Option.map_eq_some_iff.mp hvalue
  refine ⟨q, ?_, hqvalue⟩
  rw [getValue, ← hmore, hnew, List.append_assoc, List.singleton_append, getValueLoop_first hp hpname, hq]
  intro x hx
  obtain ⟨l, hl, hxl⟩ := hfront x hx
  obtain ⟨m, hm, rfl⟩ := List.mem_map.mp hl
  have hxname := deref_grown hzero₂ hgrows hxl.name m.1.no_zero
  obtain ⟨r, hr, hrname⟩ := Option.map_eq_some_iff.mp hxname
  exact ⟨r, hr, fun he => hother m hm (hrname ▸ he)⟩

theorem orFail_done {x : Result} {ret : ℤ} {st' : ToolJson} (h : orFail x (fun st => .ok (0, st)) = .ok (ret, st')) :
    ∃ r, x = .ok (r, st') := by
  rcases x with e | ⟨r, st₁⟩
  · cases h
  · rw [orFail, ok_bind] at h
    split at h <;> cases h <;> exact ⟨r, rfl⟩

/-- The same of a whole text. -/
theorem parse_begins {good : List (Plain × Plain)} {bad : Plain × Plain} {s u : List UInt8} {ret : ℤ} {st' : ToolJson}
    (hs : s = 123 :: good.foldr (fun m t => printedMember m (44 :: t)) (printedMember bad u)) (hzero : 0 ∉ s)
    (hlen : s.length < jsonStrSize) (hother : ∀ m ∈ good, m.1.text ≠ bad.1.text) (hp : parse s = .ok (ret, st')) :
    ∃ q, st'.getValue bad.1.text = some (some q) ∧ st'.deref q = bad.2.text := by
  have hu : 0 ∉ u := by
    intro h
    apply hzero
    rw [hs]
    apply List.mem_cons_of_mem
    clear hs hother
    induction good with
    | nil => simp [printedMember, h]
    | cons m good ih =>
      rw [List.foldr_cons, printedMember]
      simp [ih]
  have hopen := @parseBigBracket_open (init s) s.length .none _ hs
  have h := @Within.opened _ _ _ _ (init_within s) .none _ hs
  rw [parse_eq hzero hlen, hopen] at hp
  obtain ⟨r, hrun⟩ := orFail_done hp
  refine getValue_begins hlen (fun p st => ?_) h rfl rfl hu hother hrun
  exact .bind (forward_grows st 1) fun st => midBracketLoop_grows (parseBigBracket_grows _) p _ 0 st

end Begins

end ToolJson

end SabApp
