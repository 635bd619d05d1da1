import SabApp.CloudAnswers

/-!
# What a cloud call makes of an answer

A call returns 0 when the status begins with 2, the result begins with 0 and the members that it
reads are there; the two calls on the cloud configuration do not look at the result. That is right on
the answers where it is the status 200 and the result 0 that begin so.
-/

namespace SabApp

namespace CloudHttp

open CText
open ToolJson (ok_bind)

/-! ## The tests -/

theorem strncmp_one {s ds : List UInt8} {d : UInt8} (hd : d ≠ 0) : strncmp s (d :: ds) 1 = 0 ↔ s.head? = some d := by
  cases s with
  | nil =>
    have hpos : 0 < d.toNat := Nat.pos_of_ne_zero fun h => hd (UInt8.toNat_inj.mp h)
    simp only [strncmp, List.head?_nil, reduceCtorEq, iff_false]
    omega
  | cons c cs =>
    by_cases hc : c = d
    · simp [strncmp, hc]
    · have hne : c.toNat ≠ d.toNat := fun h => hc (UInt8.toNat_inj.mp h)
      simp only [strncmp, hc, List.head?_cons, Option.some.injEq, ↓reduceIte, iff_false]
      omega

/-- The status passes the test. -/
def Begins2 (http : ToolHttp) : Prop := (cstr http.command).head? = some 50

instance (http : ToolHttp) : Decidable (Begins2 http) := inferInstanceAs (Decidable (_ = _))

/-- The parser reads the body, and its result begins with 0. -/
def ReadsZero (http : ToolHttp) (st : ToolJson) : Prop :=
  ToolJson.parse http.body = .ok (0, st) ∧
    ∃ p, st.getValue (ascii "result") = some (some p) ∧ (st.deref p).head? = some 48

def Has (st : ToolJson) (name : String) : Prop := ∃ p, st.getValue (ascii name) = some (some p)

def HasV2 (st : ToolJson) (array : String) (i : ℕ) (name : String) : Prop :=
  ∃ p, st.getValueV2 (ascii array) i (ascii name) = some (some p)

theorem errProtocol_neg : errProtocol < 0 := by decide

theorem cloudRange_neg (num : ℤ) : cloudRange num < 0 := by
  unfold cloudRange
  by_cases h : num < cloudBegin ∧ cloudEnd < num
  · rw [if_pos h]
    exact Int.lt_trans h.1 (by decide)
  · rw [if_neg h]
    decide

/-! ## Verdicts -/

/-- A call returns where its reads and writes fit, and then 0 on what it accepts and an error else. -/
structure Verdict (r : Except CloudFault ℤ) (fits accepts : Prop) : Prop where
  returns : fits → ∃ ret, r = .ok ret ∧ ret ≤ 0 ∧ (ret = 0 ↔ accepts)
  fault : ¬fits → ∃ e, r = .error e

namespace Verdict

variable {α : Type} {out a : α} {ret : ℤ} {e : CloudFault} {http : ToolHttp} {st : ToolJson} {f g A B : Prop}
  {r : Except CloudFault ℤ}

theorem zero (hA : A) (hf : f) : Verdict (.ok 0) f A where
  returns := fun _ => ⟨0, rfl, Int.le_refl 0, fun _ => hA, fun _ => rfl⟩
  fault := fun h => absurd hf h

theorem negative (hret : ret < 0) (hA : ¬A) (hf : f) : Verdict (.ok ret) f A where
  returns := fun _ => ⟨ret, rfl, Int.le_of_lt hret, fun h => absurd h (Int.ne_of_lt hret), fun h => absurd h hA⟩
  fault := fun h => absurd hf h

theorem error (hf : ¬f) : Verdict (.error e) f A where
  returns := fun h => absurd h hf
  fault := fun _ => ⟨e, rfl⟩

theorem congr (h : Verdict r f A) (hf : f ↔ g) (hA : A ↔ B) : Verdict r g B := by
  rwa [← propext hf, ← propext hA]

theorem received {answer : ToolHttp → Except CloudFault (ℤ × α)}
    (h : Verdict ((answer http).map Prod.fst) f A) :
    Verdict ((exchange out answer (.received http)).map Prod.fst) (Begins2 http → f) (Begins2 http ∧ A) := by
  have htest : strncmp (cstr http.command) (ascii "200") (decide ((ascii "200").length ≠ 0)).toNat = 0 ↔
      Begins2 http := strncmp_one (by decide)
  rw [exchange]
  by_cases hb : Begins2 http
  · rw [if_neg (not_not.mpr (htest.mpr hb))]
    exact h.congr (by simp [hb]) (by simp [hb])
  · rw [if_pos (mt htest.mp hb)]
    exact negative errProtocol_neg (fun h => hb h.1) fun h => absurd h hb

end Verdict

/-! ## Answers that are parsed -/

section Parsed

variable {α : Type} {out : α} {http : ToolHttp} {st : ToolJson}

theorem parse_long (h : ¬(cstr http.body).length < jsonStrSize) : ToolJson.parse http.body = .error .text := by
  rw [ToolJson.parse, if_pos (Nat.not_lt.mp h)]

/-- No lookup in what the parser has read is fatal. -/
def Named (st : ToolJson) : Prop := ∀ it ∈ st.item, it.name.isSome ∧ it.arrayName.isSome

theorem named_of_parse {ret : ℤ} (h : ToolJson.parse http.body = .ok (ret, st)) : Named st := by
  by_cases hlen : (cstr http.body).length < jsonStrSize
  · obtain ⟨ret', st', hp, hk⟩ := ToolJson.parse_kept hlen
    rw [h] at hp
    cases hp
    exact hk.sound.named
  · rw [parse_long hlen] at h
    cases h

theorem lookup_eq (h : Named st) (name : String) :
    ∃ p, st.getValue (ascii name) = some p ∧ lookup st name = .ok p := by
  have := ToolJson.getValueLoop_isSome st (ascii name) fun it hit => (h it hit).1
  obtain ⟨p, hp⟩ := Option.isSome_iff_exists.mp this
  have hp' : st.getValue (ascii name) = some p := hp
  exact ⟨p, hp', by simp only [lookup, hp']⟩

theorem lookupV2_eq (h : Named st) (array : String) (i : ℕ) (name : String) :
    ∃ p, st.getValueV2 (ascii array) i (ascii name) = some p ∧ lookupV2 st array i name = .ok p := by
  have := ToolJson.getValueV2Loop_isSome st (ascii array) i (ascii name) h
  obtain ⟨p, hp⟩ := Option.isSome_iff_exists.mp this
  have hp' : st.getValueV2 (ascii array) i (ascii name) = some p := hp
  exact ⟨p, hp', by simp only [lookupV2, hp']⟩

theorem has_iff {name : String} {p : Option JsonPtr} (h : st.getValue (ascii name) = some p) : Has st name ↔ p.isSome := by
  simp [Has, h, Option.isSome_iff_exists]

theorem hasV2_iff {array name : String} {i : ℕ} {p : Option JsonPtr}
    (h : st.getValueV2 (ascii array) i (ascii name) = some p) : HasV2 st array i name ↔ p.isSome := by
  simp [HasV2, h, Option.isSome_iff_exists]

/-- Parsing decides up to the result; the rest of the call decides behind it. -/
theorem parsed_verdict {refused : List UInt8 → ℤ} {rest : ToolJson → Except CloudFault (ℤ × α)} {F A : ToolJson → Prop}
    (hrefused : ∀ t, refused t < 0)
    (hrest : ∀ st, ReadsZero http st → Named st → Verdict ((rest st).map Prod.fst) (F st) (A st)) :
    Verdict ((parsed out refused rest http).map Prod.fst)
      ((cstr http.body).length < jsonStrSize ∧ ∀ st, ReadsZero http st → F st) (∃ st, ReadsZero http st ∧ A st) := by
  by_cases hlen : (cstr http.body).length < jsonStrSize
  case neg =>
    rw [parsed, parse_long hlen]
    exact .error fun h => hlen h.1
  obtain ⟨ret, st, hp, hk⟩ := ToolJson.parse_kept hlen
  have honly : ∀ {st'}, ReadsZero http st' → ret = 0 ∧ st = st' := by
    rintro st' ⟨hp', -⟩
    rw [hp] at hp'
    cases hp'
    exact ⟨rfl, rfl⟩
  rw [parsed, hp]
  rcases hk.ret with rfl | rfl
  · have hno : ∀ st', ¬ReadsZero http st' := fun st' h => absurd (honly h).1 (by decide)
    exact .negative errProtocol_neg (fun ⟨st', h, _⟩ => hno st' h) ⟨hlen, fun st' h => absurd h (hno st')⟩
  · have hnamed := named_of_parse hp
    obtain ⟨p, hget, hlook⟩ := lookup_eq hnamed "result"
    by_cases hzero : ReadsZero http st
    · obtain ⟨-, q, hq, hhead⟩ := id hzero
      rw [hget] at hq
      cases hq
      have htest : strncmp (st.deref q) (ascii "0") 1 = 0 := (strncmp_one (by decide)).mpr hhead
      have hrun := hrest st hzero hnamed
      simp only [Except.mapError, ok_bind, Int.lt_irrefl, ↓reduceIte, hlook, htest, ne_eq, not_true_eq_false]
      refine hrun.congr ⟨fun h => ⟨hlen, fun st' h' => ?_⟩, fun h => h.2 st hzero⟩ ⟨fun h => ⟨st, hzero, h⟩, ?_⟩
      · rwa [← (honly h').2]
      · rintro ⟨st', h', hA⟩
        rwa [(honly h').2]
    · have hno : ∀ st', ¬ReadsZero http st' := fun st' h => hzero ((honly h).2 ▸ h)
      have hneg : ∀ {ret : ℤ}, ret < 0 → Verdict (.ok ret) ((cstr http.body).length < jsonStrSize ∧
          ∀ st, ReadsZero http st → F st) (∃ st, ReadsZero http st ∧ A st) := fun hret =>
        .negative hret (fun ⟨st', h, _⟩ => hno st' h) ⟨hlen, fun st' h => absurd h (hno st')⟩
      cases p with
      | none =>
        simp only [Except.mapError, ok_bind, Int.lt_irrefl, ↓reduceIte, hlook]
        exact hneg errProtocol_neg
      | some q =>
        have htest : strncmp (st.deref q) (ascii "0") 1 ≠ 0 := fun h =>
          hzero ⟨hp, q, hget, (strncmp_one (by decide)).mp h⟩
        simp only [Except.mapError, ok_bind, Int.lt_irrefl, ↓reduceIte, hlook, htest, ne_eq, not_false_eq_true]
        exact hneg (hrefused _)

end Parsed

/-! ## Tables -/

section Table

variable {β : Type} {row : ℕ → Except CloudFault (Option β)}

/-- Every row returns up to the first that is not there. -/
def RowsReturn (row : ℕ → Except CloudFault (Option β)) (k i : ℕ) : Prop :=
  ∀ j < k, (∀ l < j, ∃ b, row (i + l) = .ok (some b)) → ∃ r, row (i + j) = .ok r

theorem rowsReturn_succ {k i : ℕ} {b : β} (h : row i = .ok (some b)) :
    RowsReturn row (k + 1) i ↔ RowsReturn row k (i + 1) := by
  have hshift : ∀ l, i + 1 + l = i + (l + 1) := fun l => by omega
  constructor
  · intro hrow j hj hbefore
    rw [hshift]
    refine hrow (j + 1) (Nat.succ_lt_succ hj) fun l hl => ?_
    cases l with
    | zero => exact ⟨b, h⟩
    | succ l =>
      rw [← hshift]
      exact hbefore l (Nat.lt_of_succ_lt_succ hl)
  · intro hrow j hj hbefore
    cases j with
    | zero => exact ⟨some b, h⟩
    | succ j =>
      rw [← hshift]
      refine hrow j (Nat.lt_of_succ_lt_succ hj) fun l hl => ?_
      rw [hshift]
      exact hbefore (l + 1) (Nat.succ_lt_succ hl)

theorem tableLoop_cases (row : ℕ → Except CloudFault (Option β)) (k i : ℕ) :
    (RowsReturn row k i ∧ ∃ bs, tableLoop row k i = .ok bs) ∨
      (¬RowsReturn row k i ∧ ∃ e, tableLoop row k i = .error e) := by
  induction k generalizing i with
  | zero => exact .inl ⟨fun j hj => absurd hj (Nat.not_lt_zero j), [], rfl⟩
  | succ k ih =>
    cases h : row i with
    | error e =>
      refine .inr ⟨fun hrow => ?_, e, by rw [tableLoop, h]; rfl⟩
      obtain ⟨r, hr⟩ := hrow 0 k.succ_pos fun l hl => absurd hl l.not_lt_zero
      rw [Nat.add_zero, h] at hr
      cases hr
    | ok r =>
      cases r with
      | none =>
        refine .inl ⟨fun j _ hbefore => ?_, [], by rw [tableLoop, h, ok_bind]⟩
        cases j with
        | zero => exact ⟨none, h⟩
        | succ j =>
          obtain ⟨b, hb⟩ := hbefore 0 j.succ_pos
          rw [Nat.add_zero, h] at hb
          cases hb
      | some b =>
        rw [rowsReturn_succ h]
        rcases ih (i + 1) with ⟨hrow, bs, hbs⟩ | ⟨hrow, e, he⟩
        · exact .inl ⟨hrow, b :: bs, by rw [tableLoop, h, ok_bind]; simp only [hbs]; rfl⟩
        · exact .inr ⟨hrow, e, by rw [tableLoop, h, ok_bind]; simp only [he]; rfl⟩

theorem tableLoop_ok (h : ∀ i, ∃ r, row i = .ok r) (k i : ℕ) : ∃ bs, tableLoop row k i = .ok bs := by
  rcases tableLoop_cases row k i with ⟨-, hbs⟩ | ⟨hrow, -⟩
  · exact hbs
  · exact absurd (fun j _ _ => h (i + j)) hrow

end Table

section Rows

variable {st : ToolJson}

theorem alarmRow_ok (h : Named st) (i : ℕ) : ∃ r, alarmRow st i = .ok r := by
  obtain ⟨no, -, hno⟩ := lookupV2_eq h "alarm_map" i "no"
  obtain ⟨devId, -, hdevId⟩ := lookupV2_eq h "alarm_map" i "dev_id"
  obtain ⟨time, -, htime⟩ := lookupV2_eq h "alarm_map" i "time"
  obtain ⟨channel, -, hchannel⟩ := lookupV2_eq h "alarm_map" i "channel"
  obtain ⟨type, -, htype⟩ := lookupV2_eq h "alarm_map" i "type"
  simp only [alarmRow, hno, hdevId, htime, hchannel, htype, ok_bind]
  split <;> exact ⟨_, rfl⟩

theorem deviceMapRow_ok (h : Named st) (i : ℕ) : ∃ r, deviceMapRow st i = .ok r := by
  obtain ⟨devId, -, hdevId⟩ := lookupV2_eq h "device_map" i "dev_id"
  simp only [deviceMapRow, hdevId, ok_bind]
  cases devId <;> exact ⟨_, rfl⟩

theorem serviceAddr_verdict (h : Named st) (addr : ServiceAddr) : Verdict ((serviceAddr addr st).map Prod.fst) True
    (∀ name ∈ ["ip", "port", "nonce"], Has st name) := by
  obtain ⟨ip, hip, hip'⟩ := lookup_eq h "ip"
  obtain ⟨port, hport, hport'⟩ := lookup_eq h "port"
  obtain ⟨nonce, hnonce, hnonce'⟩ := lookup_eq h "nonce"
  simp only [serviceAddr, hip', hport', hnonce', ok_bind, List.forall_mem_cons, has_iff hip, has_iff hport,
    has_iff hnonce]
  cases ip <;> cases port <;> cases nonce <;> simp only [Option.isSome]
  case some.some.some => exact .zero (by simp) trivial
  all_goals exact .negative (show (-9 : ℤ) < 0 by decide) (by simp) trivial

/-- The text decodes within its memory and into `size` bytes. -/
def Decodes (st : ToolJson) (size : ℕ) (p : JsonPtr) : Prop :=
  ∃ bytes, base64_decode (memory st p) = some bytes ∧ bytes.length ≤ size

theorem decodeInto_ok {size : ℕ} {p : JsonPtr} (h : Decodes st size p) : ∃ bytes, decodeInto st size p = .ok bytes := by
  obtain ⟨bytes, hdec, hlen⟩ := h
  exact ⟨bytes, by simp only [decodeInto, hdec, hlen, ↓reduceIte]⟩

theorem decodeInto_error {size : ℕ} {p : JsonPtr} (h : ¬Decodes st size p) : ∃ e, decodeInto st size p = .error e := by
  unfold decodeInto
  cases hdec : base64_decode (memory st p) with
  | none => exact ⟨_, rfl⟩
  | some bytes =>
    have hlen : ¬bytes.length ≤ size := fun hle => h ⟨bytes, hdec, hle⟩
    exact ⟨.overflow, by simp only [hlen, ↓reduceIte]⟩

/-- The members that make a device. -/
def Complete (st : ToolJson) (i : ℕ) : Prop :=
  ∀ name ∈ ["dev_id", "dev_name", "in_ipv4", "ex_ipv4", "port_name", "port_value"], HasV2 st "dev_list" i name

/-- The texts of a device that are decoded. -/
def RowFits (st : ToolJson) (i : ℕ) : Prop :=
  ∀ field ∈ [("dev_name", idSize), ("in_ipv4", ipSize), ("ex_ipv4", ipSize)], ∀ p,
    st.getValueV2 (ascii "dev_list") i (ascii field.1) = some (some p) → Decodes st field.2 p

theorem deviceRow_incomplete (h : Named st) {i : ℕ} (hc : ¬Complete st i) : deviceRow st i = .ok none := by
  obtain ⟨p₁, hp₁, hl₁⟩ := lookupV2_eq h "dev_list" i "dev_id"
  obtain ⟨p₂, hp₂, hl₂⟩ := lookupV2_eq h "dev_list" i "dev_name"
  obtain ⟨p₃, hp₃, hl₃⟩ := lookupV2_eq h "dev_list" i "in_ipv4"
  obtain ⟨p₄, hp₄, hl₄⟩ := lookupV2_eq h "dev_list" i "ex_ipv4"
  obtain ⟨p₅, hp₅, hl₅⟩ := lookupV2_eq h "dev_list" i "port_name"
  obtain ⟨p₆, hp₆, hl₆⟩ := lookupV2_eq h "dev_list" i "port_value"
  simp only [Complete, List.forall_mem_cons, hasV2_iff hp₁, hasV2_iff hp₂, hasV2_iff hp₃, hasV2_iff hp₄,
    hasV2_iff hp₅, hasV2_iff hp₆] at hc
  simp only [deviceRow, hl₁, hl₂, hl₃, hl₄, hl₅, hl₆, ok_bind]
  split
  · simp at hc
  · rfl

theorem deviceRow_complete {i : ℕ} (hc : Complete st i) : (RowFits st i ∧ ∃ d, deviceRow st i = .ok (some d)) ∨
    (¬RowFits st i ∧ ∃ e, deviceRow st i = .error e) := by
  simp only [Complete, List.forall_mem_cons] at hc
  obtain ⟨⟨p₁, h₁⟩, ⟨p₂, h₂⟩, ⟨p₃, h₃⟩, ⟨p₄, h₄⟩, ⟨p₅, h₅⟩, ⟨p₆, h₆⟩, -⟩ := hc
  have hfits : RowFits st i ↔ Decodes st idSize p₂ ∧ Decodes st ipSize p₃ ∧ Decodes st ipSize p₄ := by
    simp [RowFits, h₂, h₃, h₄]
  rw [hfits]
  simp only [deviceRow, lookupV2, h₁, h₂, h₃, h₄, h₅, h₆, ok_bind]
  by_cases hd₂ : Decodes st idSize p₂
  case neg =>
    obtain ⟨e, he⟩ := decodeInto_error hd₂
    exact .inr ⟨fun h => hd₂ h.1, e, by rw [he]; rfl⟩
  obtain ⟨b₂, hb₂⟩ := decodeInto_ok hd₂
  by_cases hd₃ : Decodes st ipSize p₃
  case neg =>
    obtain ⟨e, he⟩ := decodeInto_error hd₃
    exact .inr ⟨fun h => hd₃ h.2.1, e, by rw [hb₂, he]; rfl⟩
  obtain ⟨b₃, hb₃⟩ := decodeInto_ok hd₃
  by_cases hd₄ : Decodes st ipSize p₄
  case neg =>
    obtain ⟨e, he⟩ := decodeInto_error hd₄
    exact .inr ⟨fun h => hd₄ h.2.2, e, by rw [hb₂, hb₃, he]; rfl⟩
  obtain ⟨b₄, hb₄⟩ := decodeInto_ok hd₄
  exact .inl ⟨⟨hd₂, hd₃, hd₄⟩, _, by rw [hb₂, hb₃, hb₄]; rfl⟩

theorem deviceRow_some_iff (h : Named st) {i : ℕ} :
    (∃ d, deviceRow st i = .ok (some d)) ↔ Complete st i ∧ RowFits st i := by
  by_cases hc : Complete st i
  · rcases deviceRow_complete hc with ⟨hfits, hd⟩ | ⟨hfits, e, he⟩
    · exact ⟨fun _ => ⟨hc, hfits⟩, fun _ => hd⟩
    · simp [he, hfits]
  · simp [deviceRow_incomplete h hc, hc]

/-- Every device up to the first incomplete one fits. -/
theorem rowsReturn_iff (h : Named st) (k : ℕ) :
    RowsReturn (deviceRow st) k 0 ↔ ∀ i < k, (∀ j ≤ i, Complete st j) → RowFits st i := by
  simp only [RowsReturn, Nat.zero_add]
  constructor
  · intro hrow i
    -- the devices before `i` fit by induction, so the loop gets to `i`
    induction i using Nat.strong_induction_on with
    | _ i ih =>
      intro hi hc
      have hbefore : ∀ l < i, ∃ d, deviceRow st l = .ok (some d) := fun l hl =>
        (deviceRow_some_iff h).mpr ⟨hc l hl.le, ih l hl (hl.trans hi) fun j hj => hc j (hj.trans hl.le)⟩
      obtain ⟨r, hr⟩ := hrow i hi hbefore
      rcases deviceRow_complete (hc i le_rfl) with ⟨hfits, -⟩ | ⟨-, e, he⟩
      · exact hfits
      · rw [hr] at he
        cases he
  · intro hfits j hj hbefore
    by_cases hc : Complete st j
    · have hall : ∀ l ≤ j, Complete st l := fun l hl => by
        rcases hl.lt_or_eq with hl | rfl
        · exact ((deviceRow_some_iff h).mp (hbefore l hl)).1
        · exact hc
      obtain ⟨d, hd⟩ := (deviceRow_some_iff h).mpr ⟨hc, hfits j hj hall⟩
      exact ⟨some d, hd⟩
    · exact ⟨none, deviceRow_incomplete h hc⟩

/-- The texts of the list that are decoded. -/
def ListFits (st : ToolJson) : Prop :=
  (∀ name ∈ ["username", "number", "email", "user_ipv4"], Has st name) →
    (∀ p, st.getValue (ascii "user_ipv4") = some (some p) → Decodes st ipSize p) ∧
      ∀ i < alarmNum, (∀ j ≤ i, Complete st j) → RowFits st i

theorem devList_verdict (h : Named st) (user : CloudUser) : Verdict ((devList user st).map Prod.fst) (ListFits st)
    (∀ name ∈ ["username", "number", "email", "user_ipv4"], Has st name) := by
  obtain ⟨p₁, hp₁, hl₁⟩ := lookup_eq h "username"
  obtain ⟨p₂, hp₂, hl₂⟩ := lookup_eq h "number"
  obtain ⟨p₃, hp₃, hl₃⟩ := lookup_eq h "email"
  obtain ⟨p₄, hp₄, hl₄⟩ := lookup_eq h "user_ipv4"
  have hhas : (∀ name ∈ ["username", "number", "email", "user_ipv4"], Has st name) ↔
      p₁.isSome ∧ p₂.isSome ∧ p₃.isSome ∧ p₄.isSome := by
    simp [has_iff hp₁, has_iff hp₂, has_iff hp₃, has_iff hp₄]
  rw [ListFits, ← rowsReturn_iff h, hhas, hp₄]
  simp only [devList, hl₁, hl₂, hl₃, hl₄, ok_bind]
  cases p₁ <;> cases p₂ <;> cases p₃ <;> cases p₄
  case some.some.some.some username number email ipv4 =>
    by_cases hd : Decodes st ipSize ipv4
    · obtain ⟨bytes, hb⟩ := decodeInto_ok hd
      simp only [hb, ok_bind]
      rcases tableLoop_cases (deviceRow st) alarmNum 0 with ⟨hrow, ds, hds⟩ | ⟨hrow, e, he⟩
      · rw [hds]
        exact .zero (by simp) fun _ => ⟨by simpa using hd, hrow⟩
      · rw [he]
        exact .error fun hf => hrow (hf (by simp)).2
    · obtain ⟨e, he⟩ := decodeInto_error hd
      simp only [he]
      exact .error fun hf => hd ((hf (by simp)).1 ipv4 rfl)
  all_goals exact .negative errProtocol_neg (by simp) (by simp)

end Rows

/-! ## Answers that are searched -/

section Searched

variable {α : Type} {out : α} {http : ToolHttp} {A : Prop}

theorem searched_verdict {rest : List UInt8 → Except CloudFault (ℤ × α)}
    (hrest : Verdict ((rest (cstr http.body)).map Prod.fst) True A) :
    Verdict ((searched out rest http).map Prod.fst) ((cstr http.body).length < httpBodySize)
      ((ToolJson2.value64 (cstr http.body) (ascii "result")).isSome ∧ A) := by
  rw [searched]
  by_cases hlen : (cstr http.body).length < httpBodySize
  case neg =>
    rw [if_pos (Nat.not_lt.mp hlen)]
    exact .error hlen
  rw [if_neg (Nat.not_le.mpr hlen), ToolJson2.getNumber]
  cases ToolJson2.value64 (cstr http.body) (ascii "result") with
  | none => exact .negative (cloudRange_neg (0 * -1)) (by simp) hlen
  | some v => exact hrest.congr (by simp [hlen]) (by simp)

theorem readFields_verdict (reads : List (Option ℤ × (ℤ → α → α))) (out : α) :
    Verdict ((readFields reads out).map Prod.fst) True (∀ r ∈ reads, r.1.isSome) := by
  induction reads generalizing out with
  | nil => exact .zero (by simp) trivial
  | cons r reads ih =>
    obtain ⟨num, set⟩ := r
    cases num with
    | none => exact .negative errProtocol_neg (by simp) trivial
    | some n => exact (ih (set n out)).congr Iff.rfl (by simp)

end Searched

/-! ## All calls -/

namespace CloudCall

/-- The members that a call needs beside the result. -/
def members : CloudCall → List String
  | getServiceAddr _ => ["ip", "port", "nonce"]
  | doDevList _ => ["username", "number", "email", "user_ipv4"]
  | getCloudCfg _ => ["used_flow", "total_flow", "used_space", "total_space", "record_enable"]
  | _ => []

/-- The answer is no longer than its reader can take, and of a device list no decoded text than its field. -/
def Fits (call : CloudCall) (http : ToolHttp) : Prop :=
  match call with
  | getCloudCfg _ | setCloudCfg => (cstr http.body).length < httpBodySize
  | doDevList _ => (cstr http.body).length < jsonStrSize ∧ ∀ st, ReadsZero http st → ListFits st
  | _ => (cstr http.body).length < jsonStrSize

/-- A result that begins with 0 where the body is parsed, any result where it is searched, and the members. -/
def Accepts (call : CloudCall) (http : ToolHttp) : Prop :=
  match call with
  | getCloudCfg _ | setCloudCfg =>
    ∀ name ∈ "result" :: call.members, (ToolJson2.value64 (cstr http.body) (ascii name)).isSome
  | _ => ∃ st, ReadsZero http st ∧ ∀ name ∈ call.members, Has st name

/-- The calls that need nothing behind the result. -/
theorem result_verdict {α : Type} {out : α} {http : ToolHttp} {refused : List UInt8 → ℤ}
    {rest : ToolJson → Except CloudFault (ℤ × α)} (hrefused : ∀ t, refused t < 0)
    (hrest : ∀ st, Named st → ∃ a, rest st = .ok (0, a)) :
    Verdict ((exchange out (parsed out refused rest) (.received http)).map Prod.fst)
      (Begins2 http → (cstr http.body).length < jsonStrSize)
      (Begins2 http ∧ ∃ st, ReadsZero http st ∧ ∀ name ∈ ([] : List String), Has st name) := by
  have hzero : ∀ st, ReadsZero http st → Named st →
      Verdict ((rest st).map Prod.fst) True (∀ name ∈ ([] : List String), Has st name) := by
    intro st _ hnamed
    obtain ⟨a, ha⟩ := hrest st hnamed
    rw [ha]
    exact .zero (by simp) trivial
  exact (parsed_verdict hrefused hzero).received.congr (by simp) Iff.rfl

theorem verdict (call : CloudCall) (http : ToolHttp) : Verdict (call.ret (.received http))
    (Begins2 http → call.Fits http) (Begins2 http ∧ call.Accepts http) := by
  have hprotocol : ∀ t, protocol t < 0 := fun _ => errProtocol_neg
  have hturned : ∀ t, turned t < 0 := fun _ => cloudRange_neg _
  have hnothing : ∀ st, Named st → ∃ a, (Except.ok (0, ()) : Except CloudFault (ℤ × Unit)) = .ok (0, a) :=
    fun _ _ => ⟨(), rfl⟩
  cases call with
  | getSms | regUser | setPswd | bindDev => exact result_verdict hturned hnothing
  | resetPswd | setQpnsDeviceMaps | addQpnsDeviceMaps | delQpnsDeviceMaps => exact result_verdict hprotocol hnothing
  | getAlarms =>
    refine result_verdict hprotocol fun st hnamed => ?_
    obtain ⟨alarms, h⟩ := tableLoop_ok (alarmRow_ok hnamed) alarmNum 0
    exact ⟨alarms, by rw [h, ok_bind]⟩
  | getQpnsDeviceMaps =>
    refine result_verdict hprotocol fun st hnamed => ?_
    obtain ⟨ids, h⟩ := tableLoop_ok (deviceMapRow_ok hnamed) deviceMapNum 0
    exact ⟨ids, by rw [h, ok_bind]⟩
  | getServiceAddr addr =>
    exact (parsed_verdict hprotocol fun st _ hnamed => serviceAddr_verdict hnamed addr).received.congr
      (by simp [Fits]) Iff.rfl
  | doDevList user => exact (parsed_verdict hturned fun st _ hnamed => devList_verdict hnamed user).received
  | getCloudCfg cfg =>
    exact (searched_verdict (readFields_verdict (cloudCfgReads (cstr http.body)) cfg)).received.congr Iff.rfl
      (by simp [Accepts, members, cloudCfgReads, ToolJson2.getInt64, ToolJson2.getNumber])
  | setCloudCfg =>
    have hzero : Verdict (((fun _ => .ok (0, ()) : List UInt8 → Except CloudFault (ℤ × Unit)) (cstr http.body)).map
        Prod.fst) True True := .zero trivial trivial
    exact (searched_verdict hzero).received.congr Iff.rfl (by simp [Accepts, members])

/-- A call that returns 0 has read an answer that fits, and accepted it. -/
theorem accepts_of_zero {call : CloudCall} {http : ToolHttp} (h : call.ret (.received http) = .ok 0) :
    Begins2 http ∧ call.Fits http ∧ call.Accepts http := by
  have hverdict := verdict call http
  have hfits : Begins2 http → call.Fits http := by
    by_contra hno
    obtain ⟨e, he⟩ := hverdict.fault hno
    rw [h] at he
    cases he
  obtain ⟨ret, hret, -, hzero⟩ := hverdict.returns hfits
  rw [h] at hret
  cases hret
  obtain ⟨hbegins, haccepts⟩ := hzero.mp rfl
  exact ⟨hbegins, hfits hbegins, haccepts⟩

/-! ## Success is success -/

/-- The text of the member `result` where the body is parsed. -/
def parsedResult (body : List UInt8) : Option (List UInt8) :=
  match ToolJson.parse body with
  | .ok (0, st) =>
    (st.item.find? fun it => it.name.map st.deref = some (ascii "result")).bind fun it =>
      it.value.map fun p => if it.type = .number then before ToolJson.isEnd (st.deref p) else st.deref p
  | _ => none

/-- The text of a value that starts here: between the quotes, or up to the blanks before its end. -/
def valueText : List UInt8 → List UInt8
  | 34 :: cs => before (· = 34) cs
  | cs => ((before ToolJson.isEnd cs).reverse.dropWhile ToolJson2.isBlank).reverse

/-- The text of the member `result` where the body is searched. -/
def searchedResult (body : List UInt8) : Option (List UInt8) := do
  let found ← strstr (ToolJson2.quotedName (ascii "result")) body
  let rest ← ToolJson2.toColon (found.drop (ToolJson2.quotedName (ascii "result")).length)
  some (valueText (rest.dropWhile ToolJson2.isBlank))

def result (call : CloudCall) (http : ToolHttp) : Option (List UInt8) :=
  match call with
  | getCloudCfg _ | setCloudCfg => searchedResult (cstr http.body)
  | _ => parsedResult http.body

/-- What is promised for an answer: the call returns, it returns 0 only for the status 200 and the result 0,
and for any other result it returns an error. -/
def Meets (call : CloudCall) (http : ToolHttp) : Prop :=
  ∃ ret, call.ret (.received http) = .ok ret ∧
    (ret = 0 → cstr http.command = ascii "200" ∧ call.result http = some (ascii "0")) ∧
    ∀ t, call.result http = some t → t ≠ ascii "0" → ret < 0

/-- **When a call reports success rightly.** A call keeps the promise if and only if, where the status begins
with 2, the answer fits its reader, and what it accepts has the status 200 and the result 0. -/
theorem meets_iff (call : CloudCall) (http : ToolHttp) :
    call.Meets http ↔ (Begins2 http → call.Fits http ∧
      (call.Accepts http → cstr http.command = ascii "200" ∧ call.result http = some (ascii "0"))) := by
  have hv := verdict call http
  constructor
  · rintro ⟨ret, hret, hzero, -⟩ hb
    have hfits : Begins2 http → call.Fits http := by
      by_contra hno
      obtain ⟨e, he⟩ := hv.fault hno
      rw [hret] at he
      cases he
    refine ⟨hfits hb, fun ha => ?_⟩
    obtain ⟨ret', hret', -, hiff⟩ := hv.returns hfits
    rw [hret] at hret'
    cases hret'
    exact hzero (hiff.mpr ⟨hb, ha⟩)
  · intro h
    obtain ⟨ret, hret, hle, hiff⟩ := hv.returns fun hb => (h hb).1
    have hzero : ret = 0 → cstr http.command = ascii "200" ∧ call.result http = some (ascii "0") := fun hr =>
      (h (hiff.mp hr).1).2 (hiff.mp hr).2
    refine ⟨ret, hret, hzero, fun t ht hne => Int.lt_iff_le_and_ne.mpr ⟨hle, fun hr => hne ?_⟩⟩
    rw [(hzero hr).2] at ht
    exact (Option.some.inj ht).symm

/-- 201, `{"result":0}` and 200, `{"result":10027}` -/
theorem wrong_success : ¬getSms.Meets ⟨ascii "201", ascii "\x7b\"result\":0\x7d"⟩ ∧
    ¬setCloudCfg.Meets ⟨ascii "200", ascii "\x7b\"result\":10027\x7d"⟩ := by
  constructor
  · rintro ⟨ret, hret, hzero, -⟩
    have hrun : (getSms.ret (.received ⟨ascii "201", ascii "\x7b\"result\":0\x7d"⟩)).toOption = some 0 := by decide
    rw [hret] at hrun
    exact absurd (hzero (Option.some.inj hrun)).1 (by decide)
  · rintro ⟨ret, hret, hzero, -⟩
    have hrun : (setCloudCfg.ret (.received ⟨ascii "200", ascii "\x7b\"result\":10027\x7d"⟩)).toOption = some 0 := by
      decide
    rw [hret] at hrun
    exact absurd (hzero (Option.some.inj hrun)).2 (by decide)

end CloudCall

end CloudHttp

end SabApp
