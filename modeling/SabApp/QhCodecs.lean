import SabApp.CloudAnswers
import SabApp.JsonArrays
import SabApp.QhLists

/-!
# Configuration messages of the QH protocol (tool_ptc.c)

A message is a flat object of strings that one `snprintf` writes. Some decoders search the text for the name of each
member, the others parse it and look the names up. Either way a message comes back whose names differ and whose values
are numbers.
-/

namespace SabApp

namespace Qh

open CText ToolJson2

/-- PTC_MSG_SIZE -/
def ptcMsgSize : ℕ := 4096

/-- `head.len` and the text that `snprintf` leaves in a buffer of `size` bytes. -/
def printed (size : ℕ) (ms : List (Plain × Plain)) : ℕ × List UInt8 :=
  ((JsonText.ofStrings ms).text.length, (JsonText.ofStrings ms).text.take (size - 1))

/-- Members that are printed with `%d`. -/
def numbers (fields : List (Plain × Int32)) : List (Plain × Plain) := fields.map fun f => (f.1, .decimal f.2.toInt)

/-- The text from the end of a value on. -/
def rawEnd : List (List UInt8 × List UInt8) → List UInt8
  | [] => [125]
  | m :: ms => 44 :: 34 :: (m.1 ++ 34 :: 58 :: 34 :: (m.2 ++ 34 :: rawEnd ms))

/-- A message of strings as they are, with the first member. -/
def rawText (m : List UInt8 × List UInt8) (ms : List (List UInt8 × List UInt8)) : List UInt8 :=
  123 :: 34 :: (m.1 ++ 34 :: 58 :: 34 :: (m.2 ++ 34 :: rawEnd ms))

/-- Where a value comes with `%s` it may hold quotes. -/
def printedRaw (size : ℕ) (m : List UInt8 × List UInt8) (ms : List (List UInt8 × List UInt8)) : ℕ × List UInt8 :=
  ((rawText m ms).length, (rawText m ms).take (size - 1))

def raw (m : Plain × Plain) : List UInt8 × List UInt8 := (m.1.text, m.2.text)

/-! ## Decoders that search -/

section Search

variable {α : Type}

/-- `if (tool_json2_getNumber(..) == 0)` the number, and 0 otherwise. -/
def numberOrZero (data : List UInt8) (name : String) : ℤ := (getNumber data (ascii name)).getD 0

/-- The test of `result` in the decoders of responses. -/
def afterResult (data : List UInt8) (missing : ℤ) (old : α) (rest : ℤ × α) : ℤ × α :=
  match getNumber data (ascii "result") with
  | none => (missing, old)
  | some ret => if ret ≠ 0 then (Int.bmod (ret * -1) (2 ^ 32), old) else rest

/-- The same before a decoder that parses. -/
def searchedResult {ε : Type} (data : List UInt8) (missing : ℤ) (old : α) (rest : Except ε (ℤ × α)) :
    Except ε (ℤ × α) :=
  match getNumber data (ascii "result") with
  | none => .ok (missing, old)
  | some ret => if ret ≠ 0 then .ok (Int.bmod (ret * -1) (2 ^ 32), old) else rest

/-- Numbers that are read one after the other, each with the field it sets. -/
def readNumbers (data : List UInt8) (missing : ℤ) : List (String × (Int32 → α → α)) → α → ℤ × α
  | [], out => (0, out)
  | (name, set) :: fields, out =>
    match getNumber data (ascii name) with
    | none => (missing, out)
    | some n => readNumbers data missing fields (set (Int32.ofInt n) out)

end Search

/-! ## Decoders that parse -/

section Parse

variable {α : Type}

open CloudHttp (CloudFault lookup)

/-- `if (index) field = tool_sysf_atoi(index)`, where the field was cleared before. -/
def number (st : ToolJson) (name : String) : Except CloudFault Int32 := do
  match ← lookup st name with
  | some p => .ok (Int32.ofInt (ToolJson.atoi (st.deref p)))
  | none => .ok 0

/-- A text that the parser refuses leaves the structure as it was. -/
def parsedInto (data : List UInt8) (refused : ℤ) (old : α) (fields : ToolJson → Except CloudFault (ℤ × α)) :
    Except CloudFault (ℤ × α) := do
  let r ← (ToolJson.parse data).mapError .json
  if r.1 < 0 then .ok (refused, old) else fields r.2

/-- The second test of `result` in the decoders of parsed responses. -/
def afterParsed (st : ToolJson) (old : α) (fields : Except CloudFault (ℤ × α)) : Except CloudFault (ℤ × α) := do
  match ← lookup st "result" with
  | none => .ok (-8, old)
  | some p => if CloudHttp.strncmp (st.deref p) (ascii "0") 1 ≠ 0 then .ok (-8, old) else fields

end Parse

/-! ## Texts -/

theorem rawEnd_raw : ∀ ms : List (Plain × Plain), rawEnd (ms.map raw) = fromEnd ms
  | [] => rfl
  | m :: ms => by
    rw [List.map_cons, rawEnd, rawEnd_raw ms]
    rfl

theorem rawText_raw (m : Plain × Plain) (ms : List (Plain × Plain)) :
    rawText (raw m) (ms.map raw) = (JsonText.ofStrings (m :: ms)).text := by
  rw [rawText, rawEnd_raw, ofStrings_text]
  rfl

theorem printedRaw_raw (size : ℕ) (m : Plain × Plain) (ms : List (Plain × Plain)) :
    printedRaw size (raw m) (ms.map raw) = printed size (m :: ms) := by
  rw [printedRaw, printed, rawText_raw]

/-- The result stands first. -/
theorem getNumber_rawResult (ms : List (List UInt8 × List UInt8)) :
    getNumber (rawText (ascii "result", Decimal.decimal 0) ms) (ascii "result") = some 0 := by
  have h := value64_first (ascii "result") (Decimal.decimal 0) (by decide) (by decide) (by decide) (by decide)
    (rawEnd ms)
  rw [getNumber, rawText, h]
  rfl

theorem getNumber_result (ms : List (Plain × Plain)) :
    getNumber (JsonText.ofStrings ((.ofAscii "result", .decimal 0) :: ms)).text (ascii "result") = some 0 := by
  rw [← rawText_raw]
  exact getNumber_rawResult _

theorem length_rawEnd_le {k : ℕ} : ∀ {ms : List (List UInt8 × List UInt8)},
    (∀ m ∈ ms, m.1.length + m.2.length ≤ k) → (rawEnd ms).length ≤ 1 + ms.length * (k + 6)
  | [], _ => by simp [rawEnd]
  | m :: ms, h => by
    rw [List.forall_mem_cons] at h
    have ih := length_rawEnd_le h.2
    simp only [rawEnd, List.length_cons, List.length_append, Nat.succ_mul]
    omega

theorem length_rawText_le {m : List UInt8 × List UInt8} {ms : List (List UInt8 × List UInt8)} {k : ℕ}
    (h : ∀ x ∈ m :: ms, x.1.length + x.2.length ≤ k) : (rawText m ms).length ≤ 1 + (ms.length + 1) * (k + 6) := by
  rw [List.forall_mem_cons] at h
  have hend := length_rawEnd_le h.2
  simp only [rawText, List.length_cons, List.length_append, Nat.succ_mul]
  omega

theorem length_ofStrings_le {ms : List (Plain × Plain)} {k : ℕ} (hne : ms ≠ [])
    (h : ∀ m ∈ ms, m.1.text.length + m.2.text.length ≤ k) :
    (JsonText.ofStrings ms).text.length ≤ 1 + ms.length * (k + 6) := by
  obtain ⟨m, ms, rfl⟩ := List.exists_cons_of_ne_nil hne
  have hraw : ∀ x ∈ raw m :: ms.map raw, x.1.length + x.2.length ≤ k := by
    rw [← List.map_cons]
    exact List.forall_mem_map.mpr h
  rw [← rawText_raw]
  simpa using length_rawText_le hraw

/-- A few members with short names and values, which fit every buffer and the parser's copy. -/
structure Small (ms : List (Plain × Plain)) : Prop where
  some : ms ≠ []
  few : ms.length ≤ 14
  short : ∀ m ∈ ms, m.1.text.length ≤ 30 ∧ m.2.text.length ≤ 255

theorem Small.length {ms : List (Plain × Plain)} (h : Small ms) : (JsonText.ofStrings ms).text.length ≤ 4080 := by
  have hlen := length_ofStrings_le (k := 285) h.some fun m hm => Nat.add_le_add (h.short m hm).1 (h.short m hm).2
  have := h.few
  omega

theorem Small.printed {ms : List (Plain × Plain)} (h : Small ms) {size : ℕ} (hs : ptcMsgSize ≤ size) :
    printed size ms = ((JsonText.ofStrings ms).text.length, (JsonText.ofStrings ms).text) := by
  have hlen := h.length
  unfold ptcMsgSize at hs
  rw [Qh.printed, List.take_of_length_le (by omega)]

theorem getNumber_small {ms : List (Plain × Plain)} (h : Small ms) (hc : Clear ms) {name : Plain} {n : ℤ}
    (hm : (name, .decimal n) ∈ ms) (hlen : (Decimal.decimal n).length < 64) :
    getNumber (printed ptcMsgSize ms).2 name.text = some (max (-2 ^ 31) (min n (2 ^ 31 - 1))) := by
  rw [h.printed (Nat.le_refl _)]
  exact getNumber_member_clamped hc hm hlen

/-! ## Lookups -/

/-- The lookups find the first member of each name. -/
def LooksUp (st : ToolJson) (ms : List (Plain × Plain)) : Prop :=
  ∀ name, ∃ p, st.getValue name = some p ∧
    p.map st.deref = (ms.find? fun m => m.1.text = name).map fun m => m.2.text

theorem find_items {st : ToolJson} {name : List UInt8} {its : List JsonItem} {ms : List (Plain × Plain)}
    (h : List.Forall₂ (fun it (m : Plain × Plain) => ToolJson.ItemIs st.seen it ⟨rootArray, 0, m.1, .str m.2⟩) its ms) :
    ((its.find? fun it => it.name.map st.deref = some name).bind JsonItem.value).map st.deref =
      (ms.find? fun m => m.1.text = name).map fun m => m.2.text := by
  have hkey : ∀ it (m : Plain × Plain), ToolJson.ItemIs st.seen it ⟨rootArray, 0, m.1, .str m.2⟩ →
      decide (it.name.map st.deref = some name) = decide (m.1.text = name) := by
    intro it m hit
    rw [ToolJson.deref_of_points hit.name m.1.no_zero]
    simp
  rcases ToolJson.find?_forall₂ h hkey with ⟨hi, hm⟩ | ⟨it, m, hi, hm, hit⟩
  · rw [hi, hm]
    rfl
  · rw [hi, hm, Option.bind_some, ToolJson.deref_of_points hit.value.2 m.2.no_zero]
    rfl

theorem parse_ofStrings {ms : List (Plain × Plain)} (hlen : (JsonText.ofStrings ms).text.length < jsonStrSize)
    (hne : ms ≠ []) : ∃ st, ToolJson.parse (JsonText.ofStrings ms).text = .ok (0, st) ∧ LooksUp st ms := by
  have htight : ∀ m ∈ (JsonText.ofStrings ms).object.members, m.Tight := by
    intro x hx
    obtain ⟨y, -, rfl⟩ := List.mem_map.mp hx
    rfl
  obtain ⟨st, hp, hread⟩ := JsonText.parse_reads hlen (by simpa [JsonText.ofStrings] using hne) htight
  obtain ⟨new, hitem, hnew⟩ := hread.items
  obtain rfl : st.item = new := hitem
  rw [JsonObject.leaves, JsonText.ofStrings, List.map_map, List.forall₂_map_right_iff] at hnew
  refine ⟨st, hp, fun name => ⟨_, ToolJson.getValueLoop_find st name fun x hx => (hread.within.sound.named x hx).1, ?_⟩⟩
  exact find_items hnew

theorem Small.parse {ms : List (Plain × Plain)} (h : Small ms) :
    ∃ st, ToolJson.parse (JsonText.ofStrings ms).text = .ok (0, st) ∧ LooksUp st ms :=
  parse_ofStrings (Nat.lt_of_le_of_lt h.length (by decide)) h.some

section LooksUp

variable {st : ToolJson} {ms : List (Plain × Plain)}

/-- The value of a member, or none. -/
def valueOf (ms : List (Plain × Plain)) (name : List UInt8) : Option Plain :=
  (ms.find? fun m => m.1.text = name).map Prod.snd

theorem LooksUp.lookup (h : LooksUp st ms) (name : String) : ∃ p, CloudHttp.lookup st name = .ok p ∧
    p.map st.deref = (valueOf ms (ascii name)).map Plain.text := by
  obtain ⟨p, hp, hd⟩ := h (ascii name)
  refine ⟨p, by rw [CloudHttp.lookup, hp], ?_⟩
  rw [hd, valueOf, Option.map_map]
  rfl

/-- A member is there, and its text. -/
theorem LooksUp.value (h : LooksUp st ms) {name : String} {v : Plain} (hv : valueOf ms (ascii name) = some v) :
    ∃ p, CloudHttp.lookup st name = .ok (some p) ∧ st.deref p = v.text := by
  obtain ⟨p, hp, hd⟩ := h.lookup name
  rw [hv, Option.map_some] at hd
  obtain ⟨q, rfl, hq⟩ := Option.map_eq_some_iff.mp hd
  exact ⟨q, hp, hq⟩

theorem number_eq {name : String} {p : JsonPtr} {n : Int32} (hp : CloudHttp.lookup st name = .ok (some p))
    (hd : st.deref p = Decimal.decimal n.toInt) : number st name = .ok n := by
  have ha := Decimal.atoi_decimal (n := n.toInt) n.le_toInt n.toInt_lt (t := []) (by simp)
  rw [List.append_nil] at ha
  rw [Qh.number, hp]
  show Except.ok (Int32.ofInt (ToolJson.atoi (st.deref p))) = _
  rw [hd, ha, Int32.ofInt_toInt]

theorem LooksUp.number_none (h : LooksUp st ms) {name : String} (hv : valueOf ms (ascii name) = none) :
    Qh.number st name = .ok 0 := by
  obtain ⟨p, hp, hd⟩ := h.lookup name
  rw [hv, Option.map_none, Option.map_eq_none_iff] at hd
  rw [Qh.number, hp, hd]
  rfl

end LooksUp

theorem valueOf_mem {ms : List (Plain × Plain)} (hn : (ms.map fun m => m.1.text).Nodup) {m : Plain × Plain}
    (hm : m ∈ ms) : valueOf ms m.1.text = some m.2 := by
  induction ms with
  | nil => cases hm
  | cons x ms ih =>
    rw [List.map_cons, List.nodup_cons] at hn
    by_cases hx : x.1.text = m.1.text
    · rcases List.mem_cons.mp hm with rfl | hm
      · simp [valueOf]
      · exact absurd (List.mem_map_of_mem hm) (hx ▸ hn.1)
    · have hms : m ∈ ms := (List.mem_cons.mp hm).resolve_left fun h => hx (by rw [h])
      have := ih hn.2 hms
      rw [valueOf] at this ⊢
      rwa [List.find?_cons_of_neg (by simpa using hx)]

theorem LooksUp.member {st : ToolJson} {ms : List (Plain × Plain)} (h : LooksUp st ms)
    (hn : (ms.map fun m => m.1.text).Nodup) {name : String} {p v : Plain} (hm : (p, v) ∈ ms) (hname : p.text = ascii name) :
    ∃ q, CloudHttp.lookup st name = .ok (some q) ∧ st.deref q = v.text := by
  apply h.value
  rw [← hname]
  exact valueOf_mem hn hm

theorem LooksUp.numberOf {st : ToolJson} {ms : List (Plain × Plain)} (h : LooksUp st ms)
    (hn : (ms.map fun m => m.1.text).Nodup) {name : String} {p : Plain} {n : Int32} (hm : (p, .decimal n.toInt) ∈ ms)
    (hname : p.text = ascii name) : number st name = .ok n := by
  obtain ⟨q, hq, hd⟩ := h.member hn hm hname
  exact number_eq hq hd

/-! ## Messages of numbers -/

/-- Names of which none reads as a number and none stands between two others. -/
def Apart (names : List (List UInt8)) : Prop :=
  names ≠ [] ∧ names.length ≤ 14 ∧ names.Nodup ∧
    ∀ n ∈ names, n.length ≤ 30 ∧ n ≠ [58] ∧ n ≠ [44] ∧ ∃ c ∈ n, isNumber c = false

instance (names : List (List UInt8)) : Decidable (Apart names) := inferInstanceAs (Decidable (_ ∧ _ ∧ _ ∧ _))

section Numbers

variable {fields : List (Plain × Int32)} {names : List (List UInt8)}

theorem Apart.keeps (h : Apart names) {n : List UInt8} (hn : n ∈ names) :
    (n.length ≤ 125 ∧ n ≠ [58] ∧ n ≠ [44]) ∧ ∃ c ∈ n, isNumber c = false := by
  obtain ⟨hlen, hcolon, hcomma, hc⟩ := h.2.2.2 n hn
  exact ⟨⟨Nat.le_trans hlen (by decide), hcolon, hcomma⟩, hc⟩

theorem map_numbers (fields : List (Plain × Int32)) :
    (numbers fields).map (fun m => m.1.text) = fields.map fun f => f.1.text := by
  rw [numbers, List.map_map]
  rfl

theorem clear_numbers (hns : fields.map (fun f => f.1.text) = names) (h : Apart names) : Clear (numbers fields) := by
  have hmem : ∀ m ∈ numbers fields, m.1.text ∈ names := by
    intro m hm
    rw [← hns, ← map_numbers]
    exact List.mem_map_of_mem hm
  refine ⟨by rw [map_numbers, hns]; exact h.2.2.1, fun m hm => (h.keeps (hmem m hm)).1, ?_⟩
  · apply List.pairwise_of_forall_mem_list
    intro m hm m' hm' he
    obtain ⟨-, c, hc, hnum⟩ := h.keeps (hmem m' hm')
    obtain ⟨f, -, rfl⟩ := List.mem_map.mp hm
    rw [← he] at hc
    rw [isNumber_of_mem_decimal hc] at hnum
    cases hnum

theorem length_int32_le (n : Int32) : (Plain.decimal n.toInt).text.length ≤ 11 :=
  Decimal.length_decimal_le n.le_toInt n.toInt_lt

theorem small_numbers (hns : fields.map (fun f => f.1.text) = names) (h : Apart names) : Small (numbers fields) := by
  obtain ⟨hne, hfew, -, hname⟩ := h
  have hlen : (numbers fields).length = names.length := by rw [← hns]; simp [numbers]
  refine ⟨fun hnil => hne ?_, by rw [hlen]; exact hfew, fun m hm => ?_⟩
  · rw [← hns, ← map_numbers, hnil]
    rfl
  · have hin : m.1.text ∈ names := by
      rw [← hns, ← map_numbers]
      exact List.mem_map_of_mem hm
    obtain ⟨f, -, rfl⟩ := List.mem_map.mp hm
    exact ⟨(hname _ hin).1, Nat.le_trans (length_int32_le f.2) (by decide)⟩

/-- A number of the message has this name. -/
def Carries (fields : List (Plain × Int32)) (name : String) (n : Int32) : Prop :=
  ∃ p, (p, n) ∈ fields ∧ p.text = ascii name

theorem Carries.head {name : String} {hquote : 34 ∉ ascii name} {hzero : 0 ∉ ascii name} {n : Int32} :
    Carries ((.ofAscii name hquote hzero, n) :: fields) name n := ⟨_, List.mem_cons_self, rfl⟩

theorem Carries.tail {f : Plain × Int32} {name : String} {n : Int32} (h : Carries fields name n) :
    Carries (f :: fields) name n := by
  obtain ⟨p, hp, hname⟩ := h
  exact ⟨p, List.mem_cons_of_mem _ hp, hname⟩

/-- Each number is found where it was looked for. -/
def Parsed (st : ToolJson) (fields : List (Plain × Int32)) : Prop :=
  ∀ name n, Carries fields name n →
    ∃ p, CloudHttp.lookup st name = .ok (some p) ∧ st.deref p = Decimal.decimal n.toInt

/-- A text in which either kind of decoder finds the numbers. -/
structure Message (data : List UInt8) (fields : List (Plain × Int32)) : Prop where
  getNumber : ∀ {name n}, Carries fields name n → getNumber data (ascii name) = some n.toInt
  parse : ∃ st, ToolJson.parse data = .ok (0, st) ∧ Parsed st fields

/-- **Messages of numbers** are found by both kinds of decoders. -/
theorem message_printed (names : List (List UInt8)) (hns : fields.map (fun f => f.1.text) = names) (h : Apart names)
    {size : ℕ} (hs : ptcMsgSize ≤ size) : Message (printed size (numbers fields)).2 fields := by
  have hsmall := small_numbers hns h
  have hclear := clear_numbers hns h
  rw [hsmall.printed hs]
  refine ⟨?_, ?_⟩
  · rintro name n ⟨p, hm, hname⟩
    rw [← hname]
    exact getNumber_member hclear (List.mem_map_of_mem hm) n.le_toInt n.toInt_lt
  · obtain ⟨st, hp, hst⟩ := hsmall.parse
    refine ⟨st, hp, ?_⟩
    rintro name n ⟨p, hm, hname⟩
    apply hst.value (v := .decimal n.toInt)
    rw [← hname]
    exact valueOf_mem hclear.names (List.mem_map_of_mem hm)

theorem message_numbers (names : List (List UInt8)) (hns : fields.map (fun f => f.1.text) = names) (h : Apart names) :
    Message (printed ptcMsgSize (numbers fields)).2 fields := message_printed names hns h (Nat.le_refl _)

end Numbers

section Found

variable {α : Type} {data : List UInt8} {fields : List (Plain × Int32)}

theorem Message.orZero (h : Message data fields) {name : String} {n : Int32} (hm : Carries fields name n) :
    numberOrZero data name = n.toInt := by
  rw [numberOrZero, h.getNumber hm, Option.getD_some]

theorem Message.afterResult (h : Message data fields) (hm : Carries fields "result" 0) (missing : ℤ) (old : α)
    (rest : ℤ × α) : Qh.afterResult data missing old rest = rest := by
  rw [Qh.afterResult, h.getNumber hm]
  rfl

theorem Message.searchedResult (h : Message data fields) (hm : Carries fields "result" 0) (missing : ℤ) (old : α)
    {ε : Type} (rest : Except ε (ℤ × α)) : Qh.searchedResult data missing old rest = rest := by
  rw [Qh.searchedResult, h.getNumber hm]
  rfl

/-- Each number is stored in its field. -/
theorem readNumbers_eq {missing : ℤ} {sets : List (String × (Int32 → α → α))} {out : α} (vals : List Int32)
    (hm : List.Forall₂ (fun s (n : Int32) => getNumber data (ascii s.1) = some n.toInt) sets vals) :
    Qh.readNumbers data missing sets out = (0, (sets.zip vals).foldl (fun out s => s.1.2 s.2 out) out) := by
  induction hm generalizing out with
  | nil => rfl
  | cons hs _ ih =>
    rw [Qh.readNumbers, hs]
    show Qh.readNumbers data missing _ _ = _
    rw [ih, Int32.ofInt_toInt]
    rfl

theorem readNumbers_fields {missing : ℤ} {sets : List (String × (Int32 → α → α))} {out : α}
    (hnames : sets.map (fun s => ascii s.1) = fields.map fun f => f.1.text)
    (hfound : ∀ f ∈ fields, getNumber data f.1.text = some f.2.toInt) :
    Qh.readNumbers data missing sets out =
      (0, (sets.zip (fields.map Prod.snd)).foldl (fun out s => s.1.2 s.2 out) out) := by
  apply readNumbers_eq
  induction sets generalizing fields with
  | nil =>
    rw [List.map_nil, eq_comm, List.map_eq_nil_iff] at hnames
    rw [hnames]
    exact .nil
  | cons s sets ih =>
    cases fields with
    | nil => cases hnames
    | cons f fields =>
      obtain ⟨hname, hnames⟩ : ascii s.1 = f.1.text ∧ _ := List.cons.inj hnames
      rw [List.forall_mem_cons, ← hname] at hfound
      exact .cons hfound.1 (ih hnames hfound.2)

/-- Without an error every name was found. -/
theorem readNumbers_found {missing : ℤ} (hmissing : missing < 0) {sets : List (String × (Int32 → α → α))} {out : α}
    (h : ¬ (Qh.readNumbers data missing sets out).1 < 0) : ∀ s ∈ sets, getNumber data (ascii s.1) ≠ none := by
  induction sets generalizing out with
  | nil => nofun
  | cons s sets ih =>
    rw [Qh.readNumbers] at h
    split at h
    · exact absurd hmissing h
    · next n hn =>
      rw [List.forall_mem_cons, hn]
      exact ⟨Option.some_ne_none n, ih h⟩

theorem Message.readNumbers (h : Message data fields) {missing : ℤ} {sets : List (String × (Int32 → α → α))}
    {out : α} (vals : List Int32) (hm : List.Forall₂ (fun s n => Carries fields s.1 n) sets vals) :
    Qh.readNumbers data missing sets out = (0, (sets.zip vals).foldl (fun out s => s.1.2 s.2 out) out) :=
  readNumbers_eq vals (hm.imp fun _ _ hs => h.getNumber hs)

theorem Parsed.number {st : ToolJson} (h : Parsed st fields) {name : String} {n : Int32} (hm : Carries fields name n) :
    Qh.number st name = .ok n := by
  obtain ⟨p, hp, hd⟩ := h name n hm
  exact number_eq hp hd

theorem Parsed.afterParsed {st : ToolJson} (h : Parsed st fields) (hm : Carries fields "result" 0) (old : α)
    (rest : Except CloudHttp.CloudFault (ℤ × α)) : Qh.afterParsed st old rest = rest := by
  obtain ⟨p, hp, hd⟩ := h "result" 0 hm
  rw [Qh.afterParsed, hp]
  show (if CloudHttp.strncmp (st.deref p) (ascii "0") 1 ≠ 0 then _ else rest) = rest
  rw [hd]
  rfl

theorem parsedInto_ok {st : ToolJson} (hp : ToolJson.parse data = .ok (0, st)) (refused : ℤ) (old : α)
    (fields : ToolJson → Except CloudHttp.CloudFault (ℤ × α)) : parsedInto data refused old fields = fields st := by
  rw [parsedInto, hp]
  rfl

end Found

end Qh

end SabApp
