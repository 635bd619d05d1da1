import Mathlib.Data.List.Nodup
import SabApp.JsonObjects

/-!
# The two JSON readers

`tool_json2_getValue` looks for the quoted name anywhere in the text and takes what stands behind it.
On a flat object of strings it finds what the parser finds unless the quoted name stands earlier in
the text, as the value of another member does.
-/

namespace SabApp

namespace ToolJson2

open CText

/-- TOOL_JSON_CH_E; `other` is -1. -/
inductive Ch where
  | blank
  | quotation
  | colon
  | comma
  | beginBracket
  | endBracket
  | beginBrace
  | endBrace
  | false
  | true
  | null
  | number
  | finish
  | other
  deriving DecidableEq

/-- `tool_json2_char`. -/
def char : List UInt8 → Ch
  | [] => .finish
  | c :: cs =>
    if c = 32 ∨ c = 13 ∨ c = 10 ∨ c = 9 ∨ c = 11 ∨ c = 12 then .blank
    else if c = 34 then .quotation
    else if c = 58 then .colon
    else if c = 44 then .comma
    else if c = 91 then .beginBracket
    else if c = 93 then .endBracket
    else if c = 123 then .beginBrace
    else if c = 125 then .endBrace
    else if (ascii "false").isPrefixOf (c :: cs) then .false
    else if (ascii "true").isPrefixOf (c :: cs) then .true
    else if (ascii "null").isPrefixOf (c :: cs) then .null
    else if c = 43 ∨ c = 45 ∨ ToolJson.isDigit c then .number
    else .other

/-- The first loop of `tool_json2_getValue`: the text behind the colon. -/
def toColon : List UInt8 → Option (List UInt8)
  | [] => none
  | c :: cs =>
    match char (c :: cs) with
    | .colon => some cs
    | .blank => toColon cs
    | _ => none

/-- A copying loop: what it writes into `size` bytes. -/
def copyUntil (stop : UInt8 → Bool) : ℕ → List UInt8 → List UInt8
  | 0, _ => []
  | _ + 1, [] => [0]
  | n + 1, c :: cs => if n = 0 ∨ stop c then [0] else c :: copyUntil stop n cs

/-- The second loop of `tool_json2_getValue`: what it writes at the start of `pch_value`. -/
def readValue (size : ℕ) : List UInt8 → Option (List UInt8)
  | [] => none
  | c :: cs =>
    match char (c :: cs) with
    | .quotation => some (copyUntil (· = 34) size cs)
    | .false => some (ascii "false")
    | .true => some (ascii "true")
    | .null => some (ascii "null")
    | .number => some (copyUntil (fun c => c = 44 ∨ c = 125) size (c :: cs))
    | .blank => readValue size cs
    | _ => none

/-- The quoted name as it fits into `name[128]`. -/
def quotedName (name : List UInt8) : List UInt8 := (34 :: (name ++ [34])).take 127

/-- `tool_json2_getValue` on a text, with what it returns and leaves in `pch_value`. -/
def getValue (str name value : List UInt8) (size : ℤ) : ℤ × List UInt8 :=
  match strstr (quotedName name) str with
  | none => (-1, value)
  | some idx =>
    match toColon (idx.drop (quotedName name).length) with
    | none => (-1, value)
    | some idx =>
      match readValue size.toNat idx with
      | none => (-1, value)
      | some bytes => (0, bytes ++ value.drop bytes.length)

/-- `tool_json2_getValue` into a `value[64]` of zeros; `none` is -1. -/
def value64 (str name : List UInt8) : Option (List UInt8) :=
  let r := getValue str name (List.replicate 64 0) 64
  if r.1 < 0 then none else some (cstr r.2)

def isHex (c : UInt8) : Bool := ToolJson.isDigit c ∨ (65 ≤ c ∧ c ≤ 70) ∨ (97 ≤ c ∧ c ≤ 102)

/-- The number that a run of hexadecimal digits reads as. -/
def hexVal (ds : List UInt8) : ℕ :=
  ds.foldl (fun n c => 16 * n + if ToolJson.isDigit c then c.toNat - 48 else (c ||| 32).toNat - 87) 0

/-- `tool_str_strtoul` of a text that starts with `0x`: 32 bits, returned as an `int`. -/
def strtoul (value : List UInt8) : ℤ :=
  Int.bmod (min (hexVal ((value.drop 2).takeWhile isHex)) (2 ^ 32 - 1) : ℕ) (2 ^ 32)

/-- The C library's `atoll`, with the result held to 64 bits. -/
def atoll (bs : List UInt8) : ℤ :=
  let val : ℤ := match bs.dropWhile ToolJson.isSpace with
    | 45 :: ds => -(ToolJson.digitsVal (ds.takeWhile ToolJson.isDigit) : ℤ)
    | 43 :: ds => ToolJson.digitsVal (ds.takeWhile ToolJson.isDigit)
    | ds => ToolJson.digitsVal (ds.takeWhile ToolJson.isDigit)
  max (-2 ^ 63) (min val (2 ^ 63 - 1))

/-- What `tool_json2_getNumber` and `tool_json2_getInt64` make of a value. -/
def readNumber (decimal : List UInt8 → ℤ) (value : List UInt8) : ℤ :=
  if (ascii "false").isPrefixOf value then 0
  else if (ascii "true").isPrefixOf value then 1
  else if (ascii "0x").isPrefixOf value ∨ (ascii "0X").isPrefixOf value then strtoul value
  else decimal value

/-- `tool_json2_getNumber`; `none` is -1. -/
def getNumber (str name : List UInt8) : Option ℤ := (value64 str name).map (readNumber ToolJson.atoi)

/-- `tool_json2_getInt64`; `none` is -1. -/
def getInt64 (str name : List UInt8) : Option ℤ := (value64 str name).map (readNumber atoll)

/-! ## What stands behind the name -/

def isBlank (c : UInt8) : Bool := c = 32 ∨ c = 13 ∨ c = 10 ∨ c = 9 ∨ c = 11 ∨ c = 12

/-- The text shows a string or a number that reads `v`. -/
inductive Shows (v : List UInt8) : List UInt8 → Prop where
  | string (t : List UInt8) (hv : 34 ∉ v) (ht : ∀ c u, t = c :: u → c = 34) : Shows v (34 :: (v ++ t))
  | number (c : UInt8) (w t : List UInt8) (hv : v = c :: w) (hc : c = 43 ∨ c = 45 ∨ ToolJson.isDigit c = true)
      (hw : ∀ x ∈ v, ToolJson.isEnd x = false) (ht : ∀ x u, t = x :: u → ToolJson.isEnd x = true) : Shows v (v ++ t)

/-- Blanks, a colon, blanks and a value that reads `v`. -/
def ReadsOn (rest v : List UInt8) : Prop :=
  ∃ b b' t, rest = b ++ 58 :: (b' ++ t) ∧ (∀ c ∈ b, isBlank c = true) ∧ (∀ c ∈ b', isBlank c = true) ∧ Shows v t

theorem shows_string (cs : List UInt8) : Shows (before (· = 34) cs) (34 :: cs) := by
  have hcs := before_append_after (· = 34) cs
  have h := Shows.string (v := before (· = 34) cs) (after (· = 34) cs) ?_ ?_
  · rwa [hcs] at h
  · intro hm
    simpa using not_stop_of_mem_before hm
  · intro c u hu
    simpa using stop_of_after_cons hu

theorem shows_number {c : UInt8} {cs : List UInt8} (hc : c = 43 ∨ c = 45 ∨ ToolJson.isDigit c = true) :
    Shows (before ToolJson.isEnd (c :: cs)) (c :: cs) := by
  have hcs := before_append_after ToolJson.isEnd (c :: cs)
  have hend : ToolJson.isEnd c = false := by
    rcases hc with rfl | rfl | hc
    · rfl
    · rfl
    · have hne : ∀ d, ToolJson.isDigit d = false → c ≠ d := fun d => ne_of_char hc
      simp [ToolJson.isEnd, hne 44 rfl, hne 125 rfl]
  have h := Shows.number (v := before ToolJson.isEnd (c :: cs)) c (before ToolJson.isEnd cs)
    (after ToolJson.isEnd (c :: cs)) ?_ hc ?_ ?_
  · rwa [hcs] at h
  · simp [before, hend]
  · exact fun x hx => not_stop_of_mem_before hx
  · exact fun x u hu => stop_of_after_cons hu

theorem char_of_blank {c : UInt8} (h : isBlank c = true) (cs : List UInt8) : char (c :: cs) = .blank := by
  rw [char, if_pos (by simpa [isBlank] using h)]

theorem head_of_isPrefixOf {c d : UInt8} {cs ds : List UInt8} (h : (d :: ds).isPrefixOf (c :: cs) = true) :
    c = d := by
  obtain ⟨t, ht⟩ := List.isPrefixOf_iff_prefix.mp h
  exact (List.cons.inj ht).1.symm

theorem char_of_number {c : UInt8} (h : c = 43 ∨ c = 45 ∨ ToolJson.isDigit c = true) (cs : List UInt8) :
    char (c :: cs) = .number := by
  let f : UInt8 → Bool := fun c => c = 43 ∨ c = 45 ∨ ToolJson.isDigit c
  have hf : f c = true := by simpa [f] using h
  have hne : ∀ d, f d = false → c ≠ d := fun d => ne_of_char hf
  have hpre : ∀ d ds, f d = false → ¬(d :: ds).isPrefixOf (c :: cs) = true :=
    fun d ds hd hp => hne d hd (head_of_isPrefixOf hp)
  have hfalse := hpre 102 [97, 108, 115, 101] rfl
  have htrue := hpre 116 [114, 117, 101] rfl
  have hnull := hpre 110 [117, 108, 108] rfl
  rw [char, if_neg (by simp [hne 32 rfl, hne 13 rfl, hne 10 rfl, hne 9 rfl, hne 11 rfl, hne 12 rfl]),
    if_neg (hne 34 rfl), if_neg (hne 58 rfl), if_neg (hne 44 rfl), if_neg (hne 91 rfl), if_neg (hne 93 rfl),
    if_neg (hne 123 rfl), if_neg (hne 125 rfl)]
  refine (if_neg hfalse).trans ((if_neg htrue).trans ((if_neg hnull).trans (if_pos h)))

/-- What a text looks like whose class the two loops act on. -/
def Looks (c : UInt8) (cs : List UInt8) : Ch → Prop
  | .blank => isBlank c = true
  | .quotation => c = 34
  | .colon => c = 58
  | .false => ascii "false" <+: c :: cs
  | .true => ascii "true" <+: c :: cs
  | .null => ascii "null" <+: c :: cs
  | .number => c = 43 ∨ c = 45 ∨ ToolJson.isDigit c = true
  | _ => True

theorem looks_ite {c : UInt8} {cs : List UInt8} {p : Prop} [Decidable p] {x y : Ch} (hx : p → Looks c cs x)
    (hy : Looks c cs y) : Looks c cs (if p then x else y) := by
  by_cases hp : p
  · rw [if_pos hp]
    exact hx hp
  · rwa [if_neg hp]

theorem char_looks (c : UInt8) (cs : List UInt8) : Looks c cs (char (c :: cs)) := by
  have skip : ∀ {p : Prop}, p → True := fun _ => trivial
  rw [char]
  refine looks_ite decide_eq_true (looks_ite id (looks_ite id ?_))
  refine looks_ite skip (looks_ite skip (looks_ite skip (looks_ite skip (looks_ite skip ?_))))
  refine looks_ite List.isPrefixOf_iff_prefix.mp (looks_ite List.isPrefixOf_iff_prefix.mp ?_)
  exact looks_ite List.isPrefixOf_iff_prefix.mp (looks_ite id trivial)

theorem toColon_blanks {b : List UInt8} (hb : ∀ c ∈ b, isBlank c = true) (t : List UInt8) :
    toColon (b ++ 58 :: t) = some t := by
  induction b with
  | nil => rfl
  | cons c b ih =>
    rw [List.cons_append, toColon, char_of_blank (hb c List.mem_cons_self)]
    exact ih fun x hx => hb x (List.mem_cons_of_mem _ hx)

theorem toColon_eq {rest t : List UInt8} (h : toColon rest = some t) :
    ∃ b, rest = b ++ 58 :: t ∧ ∀ c ∈ b, isBlank c = true := by
  induction rest with
  | nil => cases h
  | cons c cs ih =>
    have hlooks := char_looks c cs
    rw [toColon] at h
    cases hc : char (c :: cs) with
    | colon =>
      rw [hc] at h hlooks
      cases h
      exact ⟨[], by rw [show c = 58 from hlooks]; rfl, by simp⟩
    | blank =>
      rw [hc] at h hlooks
      obtain ⟨b, rfl, hb⟩ := ih h
      exact ⟨c :: b, rfl, List.forall_mem_cons.mpr ⟨hlooks, hb⟩⟩
    | _ => rw [hc] at h; cases h

theorem readValue_blanks (size : ℕ) {b : List UInt8} (hb : ∀ c ∈ b, isBlank c = true) (t : List UInt8) :
    readValue size (b ++ t) = readValue size t := by
  induction b with
  | nil => rfl
  | cons c b ih =>
    rw [List.cons_append, readValue, char_of_blank (hb c List.mem_cons_self)]
    exact ih fun x hx => hb x (List.mem_cons_of_mem _ hx)

/-- With room for the whole text a copy stops where it is told to. -/
theorem copyUntil_eq (stop : UInt8 → Bool) {size : ℕ} {bs : List UInt8} (h : bs.length < size) :
    copyUntil stop size bs = before stop bs ++ [0] := by
  induction bs generalizing size with
  | nil =>
    cases size with
    | zero => simp at h
    | succ n => rfl
  | cons c cs ih =>
    cases size with
    | zero => simp at h
    | succ n =>
      have hn : n ≠ 0 := by
        rintro rfl
        simp at h
      rw [copyUntil]
      by_cases hc : stop c = true
      · simp [before, hc]
      · rw [if_neg (by simp [hn, hc]), ih (by simpa using h)]
        simp [before, hc]

/-- What the second loop writes, given room: a text that is shown, or a literal without its terminator. -/
theorem readValue_cases {size : ℕ} {rest bytes : List UInt8} (hsize : rest.length < size)
    (h : readValue size rest = some bytes) :
    (∃ b t v, rest = b ++ t ∧ (∀ c ∈ b, isBlank c = true) ∧ bytes = v ++ [0] ∧ Shows v t) ∨
      bytes ∈ [ascii "false", ascii "true", ascii "null"] := by
  induction rest with
  | nil => cases h
  | cons c cs ih =>
    have hlooks := char_looks c cs
    rw [readValue] at h
    cases hc : char (c :: cs) with
    | quotation =>
      rw [hc] at h hlooks
      cases h
      refine .inl ⟨[], c :: cs, before (· = 34) cs, rfl, by simp, copyUntil_eq _ (Nat.lt_of_succ_lt hsize), ?_⟩
      obtain rfl : c = 34 := hlooks
      exact shows_string cs
    | number =>
      rw [hc] at h hlooks
      cases h
      exact .inl ⟨[], c :: cs, before ToolJson.isEnd (c :: cs), rfl, by simp, copyUntil_eq _ hsize,
        shows_number hlooks⟩
    | blank =>
      rw [hc] at h hlooks
      rcases ih (Nat.lt_of_succ_lt hsize) h with ⟨b, t, v, rfl, hb, hv, hs⟩ | hlit
      · exact .inl ⟨c :: b, t, v, rfl, List.forall_mem_cons.mpr ⟨hlooks, hb⟩, hv, hs⟩
      · exact .inr hlit
    | false | true | null =>
      rw [hc] at h
      cases h
      exact .inr (by simp)
    | _ => rw [hc] at h; cases h

theorem readValue_shows {size : ℕ} {v t : List UInt8} (h : Shows v t) (hsize : t.length < size) :
    readValue size t = some (v ++ [0]) := by
  cases h with
  | string u hv ht =>
    have hcopy := copyUntil_eq (· = 34) (Nat.lt_of_succ_lt hsize)
    have hall : ∀ x ∈ v, decide (x = 34) = false := fun x hx => decide_eq_false (ne_of_mem_of_not_mem hx hv)
    rw [before_append hall fun c w hc => decide_eq_true (ht c w hc)] at hcopy
    exact congrArg some hcopy
  | number c w u hv hc hw ht =>
    have hcopy := copyUntil_eq ToolJson.isEnd hsize
    rw [before_append hw ht] at hcopy
    rw [hv, List.cons_append] at hcopy ⊢
    rw [readValue, char_of_number hc]
    exact congrArg some hcopy

/-- The reader finds what stands behind the first place of the quoted name. -/
theorem getValue_eq {str name v rest : List UInt8} {size : ℕ} (hsize : str.length < size)
    (hfirst : FirstAt (quotedName name) str rest) (hreads : ReadsOn rest v) (value : List UInt8) :
    getValue str name value size = (0, v ++ [0] ++ value.drop (v.length + 1)) := by
  obtain ⟨b, b', t, rfl, hb, hb', hshows⟩ := hreads
  have hlen : t.length < size := by
    obtain ⟨a, rfl, -⟩ := hfirst
    simp only [List.length_append, List.length_cons] at hsize
    omega
  have hvalue : readValue size (b' ++ t) = some (v ++ [0]) := by
    rw [readValue_blanks size hb', readValue_shows hshows hlen]
  simp only [getValue, hfirst.strstr, List.drop_left, toColon_blanks hb, Int.toNat_natCast, hvalue,
    List.length_append, List.length_singleton]

theorem Shows.mem {v t : List UInt8} (h : Shows v t) {c : UInt8} (hc : c ∈ v) : c ∈ t := by
  cases h with
  | string u _ _ => simp [hc]
  | number _ _ u _ _ _ _ => simp [hc]

/-- A literal is written without a terminator, so that what the buffer held shows behind it. -/
theorem literal_ne {lit : List UInt8} (h : lit ∈ [ascii "false", ascii "true", ascii "null"]) (n : ℕ) :
    cstr (lit ++ (List.replicate (n + 10) 1).drop lit.length) ≠
      cstr (lit ++ (List.replicate (n + 10) 2).drop lit.length) := by
  have hall : ∀ l ∈ [ascii "false", ascii "true", ascii "null"], 0 ∉ l ∧ l.length ≤ 5 := by decide
  have hlit := hall lit h
  rw [List.drop_replicate, List.drop_replicate, cstr_of_not_mem (by simp [hlit.1, List.mem_replicate]),
    cstr_of_not_mem (by simp [hlit.1, List.mem_replicate])]
  intro heq
  obtain ⟨m, hm⟩ : ∃ m, n + 10 - lit.length = m + 1 := ⟨n + 9 - lit.length, by omega⟩
  rw [hm] at heq
  have := (List.cons.inj (List.append_cancel_left heq)).1
  exact absurd this (by decide)

/-- What is found whatever the buffer held. -/
def Finds (str name v : List UInt8) : Prop :=
  ∀ (size : ℕ) (value : List UInt8), str.length < size → value.length = size →
    (getValue str name value size).1 = 0 ∧ cstr (getValue str name value size).2 = v

theorem finds_iff {str name v : List UInt8} (hstr : 0 ∉ str) (hv : 0 ∉ v) :
    Finds str name v ↔ ∃ rest, FirstAt (quotedName name) str rest ∧ ReadsOn rest v := by
  constructor
  · intro h
    have hrun : ∀ fill : UInt8, _ := fun fill =>
      h (str.length + 10) (List.replicate (str.length + 10) fill) (by omega) List.length_replicate
    simp only [getValue, Int.toNat_natCast] at hrun
    cases hs : strstr (quotedName name) str with
    | none => simp [hs] at hrun
    | some found =>
      obtain ⟨rest, rfl, hfirst⟩ := firstAt_of_strstr hs
      simp only [hs, List.drop_left] at hrun
      cases hc : toColon rest with
      | none => simp [hc] at hrun
      | some u =>
        obtain ⟨b, hrest, hb⟩ := toColon_eq hc
        simp only [hc] at hrun
        have hu : ∀ x ∈ u, x ∈ str := by
          obtain ⟨a, ha, -⟩ := hfirst
          intro x hx
          simp [ha, hrest, hx]
        have hlen : u.length < str.length + 10 := by
          obtain ⟨a, ha, -⟩ := hfirst
          simp only [ha, hrest, List.length_append, List.length_cons]
          omega
        cases hr : readValue (str.length + 10) u with
        | none => simp [hr] at hrun
        | some bytes =>
          simp only [hr, true_and] at hrun
          rcases readValue_cases hlen hr with ⟨b', t, w, rfl, hb', rfl, hshows⟩ | hlit
          · have hw : 0 ∉ w := fun hm => hstr (hu 0 (List.mem_append_right _ (hshows.mem hm)))
            have hone := hrun 1
            rw [List.append_assoc, List.singleton_append, cstr_append_zero hw] at hone
            subst hone
            exact ⟨rest, hfirst, b, b', t, hrest, hb, hb', hshows⟩
          · exact absurd (hrun 1) (hrun 2 ▸ literal_ne hlit str.length)
  · rintro ⟨rest, hfirst, hreads⟩ size value hsize -
    rw [getValue_eq hsize hfirst hreads value]
    exact ⟨rfl, by rw [List.append_assoc]; exact cstr_append_zero hv _⟩

end ToolJson2

/-! ## Objects of strings -/

/-- A flat object of strings as the encoders write it. -/
def JsonText.ofStrings (ms : List (Plain × Plain)) : JsonText where
  lead := .none
  object := ⟨.none, ms.map fun m => .compact m.1 (.str m.2)⟩
  trail := .none

namespace ToolJson2

open CText ToolJson

/-- The readers agree on a name: the lookup in the parsed text returns what the search finds. -/
def Agrees (ms : List (Plain × Plain)) (name : List UInt8) : Prop :=
  ∃ st p, parse (JsonText.ofStrings ms).text = .ok (0, st) ∧ st.getValue name = some (some p) ∧
    Finds (JsonText.ofStrings ms).text name (st.deref p)

/-- The text behind a value. -/
def fromEnd : List (Plain × Plain) → List UInt8
  | [] => [125]
  | m :: ms => 44 :: 34 :: (m.1.text ++ 34 :: 58 :: 34 :: (m.2.text ++ 34 :: fromEnd ms))

/-- The text from the first name on. -/
def fromName (m : Plain × Plain) (ms : List (Plain × Plain)) : List UInt8 :=
  34 :: (m.1.text ++ 34 :: 58 :: 34 :: (m.2.text ++ 34 :: fromEnd ms))

theorem fromEnd_cons (m : Plain × Plain) (ms : List (Plain × Plain)) : fromEnd (m :: ms) = 44 :: fromName m ms := rfl

theorem ofStrings_text (m : Plain × Plain) (ms : List (Plain × Plain)) :
    (JsonText.ofStrings (m :: ms)).text = 123 :: fromName m ms := by
  have hbody : ∀ (ms : List (Plain × Plain)) (m : Plain × Plain),
      commas (((m :: ms).map fun m => JsonMember.compact m.1 (.str m.2)).map JsonMember.text) ++ [125] =
        fromName m ms := by
    intro ms
    induction ms with
    | nil =>
      intro m
      simp [commas, JsonMember.text, JsonMember.tail, JsonMember.compact, Blanks.none, JsonValue.text, fromName,
        fromEnd]
    | cons m' ms ih =>
      intro m
      have := ih m'
      simp only [List.map_cons] at this ⊢
      rw [commas, List.append_assoc, List.cons_append, this]
      simp [JsonMember.text, JsonMember.tail, JsonMember.compact, Blanks.none, JsonValue.text, fromName, fromEnd]
  simpa [JsonText.text, JsonText.ofStrings, JsonObject.text, JsonObject.body, Blanks.none] using hbody ms m

section Search

variable {name value : Plain} {before after : List (Plain × Plain)}

theorem quotedName_short (h : name.text.length ≤ 125) : quotedName name.text = 34 :: (name.text ++ [34]) :=
  List.take_of_length_le (by simp; omega)

/-- The search passes a member unless its value is the name. -/
theorem strstr_member {m : Plain × Plain} {m' : Plain × Plain} {ms : List (Plain × Plain)}
    (hcolon : name.text ≠ [58]) (hcomma : name.text ≠ [44]) (hm : m.1.text ≠ name.text) :
    strstr (34 :: (name.text ++ [34])) (fromName m (m' :: ms)) =
      if m.2.text = name.text then some (34 :: (m.2.text ++ 34 :: 44 :: fromName m' ms))
      else strstr (34 :: (name.text ++ [34])) (fromName m' ms) := by
  have hn := name.no_quote
  have h₁ := strstr_marked hn m.1.no_quote (58 :: 34 :: (m.2.text ++ 34 :: fromEnd (m' :: ms)))
  have h₂ := strstr_marked (p := [58]) hn (by decide) (m.2.text ++ 34 :: fromEnd (m' :: ms))
  have h₃ := strstr_marked hn m.2.no_quote (fromEnd (m' :: ms))
  have h₄ := strstr_marked (p := [44]) hn (by decide)
    (m'.1.text ++ 34 :: 58 :: 34 :: (m'.2.text ++ 34 :: fromEnd ms))
  rw [if_neg hm] at h₁
  rw [if_neg hcolon.symm] at h₂
  rw [if_neg hcomma.symm] at h₄
  rw [fromName, h₁]
  exact h₂.trans (h₃.trans (by rw [fromEnd_cons, fromName]; exact if_congr Iff.rfl rfl h₄))

theorem strstr_own (ms : List (Plain × Plain)) : strstr (34 :: (name.text ++ [34])) (fromName (name, value) ms) =
    some (34 :: (name.text ++ [34]) ++ 58 :: 34 :: (value.text ++ 34 :: fromEnd ms)) := by
  rw [fromName, strstr_marked name.no_quote name.no_quote, if_pos rfl]
  simp

theorem cons_names {m : Plain × Plain} {ms : List (Plain × Plain)}
    (hdist : ((m :: ms ++ (name, value) :: after).map fun m => m.1.text).Nodup) :
    m.1.text ≠ name.text ∧ ((ms ++ (name, value) :: after).map fun m => m.1.text).Nodup := by
  simp only [List.cons_append, List.map_cons, List.nodup_cons] at hdist
  refine ⟨fun h => hdist.1 ?_, hdist.2⟩
  rw [h]
  simp

/-- With no earlier value that reads as the name the search finds the name itself. -/
theorem strstr_clear (hcolon : name.text ≠ [58]) (hcomma : name.text ≠ [44])
    (hvalue : ∀ m ∈ before, m.2.text ≠ name.text) :
    ∀ {m : Plain × Plain} {ms : List (Plain × Plain)}, m :: ms = before ++ (name, value) :: after →
      ((m :: ms).map fun m => m.1.text).Nodup → strstr (34 :: (name.text ++ [34])) (fromName m ms) =
        some (34 :: (name.text ++ [34]) ++ 58 :: 34 :: (value.text ++ 34 :: fromEnd after)) := by
  induction before with
  | nil =>
    rintro m ms ⟨⟩ -
    exact strstr_own after
  | cons b before ih =>
    rintro m ms ⟨⟩ hdist
    obtain ⟨hm, hdist'⟩ := cons_names hdist
    have hb := hvalue b List.mem_cons_self
    have hrest := fun x hx => hvalue x (List.mem_cons_of_mem b hx)
    cases hms : before ++ (name, value) :: after with
    | nil => simp at hms
    | cons m' ms' =>
      rw [hms] at hdist'
      show strstr _ (fromName b (before ++ (name, value) :: after)) = _
      rw [hms, strstr_member hcolon hcomma hm, if_neg hb]
      exact ih hrest hms.symm hdist'

/-- With such a value the search stops there, before a comma. -/
theorem strstr_blocked (hcolon : name.text ≠ [58]) (hcomma : name.text ≠ [44])
    (hvalue : ∃ m ∈ before, m.2.text = name.text) :
    ∀ {m : Plain × Plain} {ms : List (Plain × Plain)}, m :: ms = before ++ (name, value) :: after →
      ((m :: ms).map fun m => m.1.text).Nodup → ∃ rest, strstr (34 :: (name.text ++ [34])) (fromName m ms) =
        some (34 :: (name.text ++ [34]) ++ 44 :: rest) := by
  induction before with
  | nil => simp at hvalue
  | cons b before ih =>
    rintro m ms ⟨⟩ hdist
    obtain ⟨hm, hdist'⟩ := cons_names hdist
    cases hms : before ++ (name, value) :: after with
    | nil => simp at hms
    | cons m' ms' =>
      rw [hms] at hdist'
      show ∃ rest, strstr _ (fromName b (before ++ (name, value) :: after)) = _
      rw [hms, strstr_member hcolon hcomma hm]
      by_cases hb : b.2.text = name.text
      · rw [if_pos hb, hb]
        exact ⟨fromName m' ms', by simp⟩
      · rw [if_neg hb]
        refine ih ?_ hms.symm hdist'
        obtain ⟨x, hx, hxv⟩ := hvalue
        rcases List.mem_cons.mp hx with rfl | hx
        · exact absurd hxv hb
        · exact ⟨x, hx, hxv⟩

theorem text_eq (before : List (Plain × Plain)) (name value : Plain) (after : List (Plain × Plain)) :
    ∃ m ms, m :: ms = before ++ (name, value) :: after ∧
      (JsonText.ofStrings (before ++ (name, value) :: after)).text = 123 :: fromName m ms := by
  cases before with
  | nil => exact ⟨(name, value), after, rfl, ofStrings_text _ _⟩
  | cons b before => exact ⟨b, before ++ (name, value) :: after, rfl, ofStrings_text _ _⟩

theorem strstr_brace (needle t : List UInt8) : strstr (34 :: needle) (123 :: t) = strstr (34 :: needle) t :=
  strstr_append_of_not_mem (s := [123]) (by decide) t

/-- What stands behind the name in its member reads its value. -/
theorem readsOn_own (value : Plain) (ms : List (Plain × Plain)) :
    ReadsOn (58 :: 34 :: (value.text ++ 34 :: fromEnd ms)) value.text :=
  ⟨[], [], _, rfl, by simp, by simp, .string _ value.no_quote fun _ _ h => (List.cons.inj h).1.symm⟩

theorem not_readsOn_comma {rest v : List UInt8} : ¬ReadsOn (44 :: rest) v := by
  rintro ⟨b, b', t, heq, hb, -⟩
  cases b with
  | nil => exact absurd (List.cons.inj heq).1 (by decide)
  | cons c b =>
    have hc := hb c List.mem_cons_self
    rw [← (List.cons.inj heq).1] at hc
    exact absurd hc (by decide)

/-- The parser's lookup returns the member's value. -/
theorem parse_value {ms : List (Plain × Plain)} (hlen : (JsonText.ofStrings ms).text.length < jsonStrSize)
    (hdist : (ms.map fun m => m.1.text).Nodup) {m : Plain × Plain} (hm : m ∈ ms) :
    ∃ st p, parse (JsonText.ofStrings ms).text = .ok (0, st) ∧ st.getValue m.1.text = some (some p) ∧
      st.deref p = m.2.text := by
  have hmem : ∀ {x}, x ∈ (JsonText.ofStrings ms).object.members → ∃ y ∈ ms, JsonMember.compact y.1 (.str y.2) = x :=
    fun hx => List.mem_map.mp hx
  have hne : (JsonText.ofStrings ms).object.members ≠ [] := fun h => by
    rw [List.map_eq_nil_iff.mp h] at hm
    cases hm
  have hacc := JsonText.accepted_of_tight hlen hne ?_ ?_ ?_
  · obtain ⟨st, hp, -, hfind⟩ := hacc
    obtain ⟨it, hget, ⟨-, -, hval⟩, -⟩ := hfind (.compact m.1 (.str m.2)) (List.mem_map_of_mem hm)
    obtain ⟨p, hp', hd⟩ := Option.map_eq_some_iff.mp hval
    exact ⟨st, p, hp, by rw [← hp']; exact hget, hd⟩
  · intro x hx
    obtain ⟨y, -, rfl⟩ := hmem hx
    trivial
  · intro x hx
    obtain ⟨y, -, rfl⟩ := hmem hx
    rfl
  · intro x hx x' hx' hname
    obtain ⟨y, hy, rfl⟩ := hmem hx
    obtain ⟨y', hy', rfl⟩ := hmem hx'
    obtain rfl : y = y' := List.inj_on_of_nodup_map hdist hy hy' hname
    rfl

/-- The readers agree when the text behind the first place of the quoted name reads the value. -/
theorem agrees_iff_first (hlen : (JsonText.ofStrings (before ++ (name, value) :: after)).text.length < jsonStrSize)
    (hdist : ((before ++ (name, value) :: after).map fun m => m.1.text).Nodup) :
    Agrees (before ++ (name, value) :: after) name.text ↔
      ∃ rest, FirstAt (quotedName name.text) (JsonText.ofStrings (before ++ (name, value) :: after)).text rest ∧
        ReadsOn rest value.text := by
  obtain ⟨st, p, hp, hget, hd⟩ := parse_value hlen hdist (m := (name, value)) (by simp)
  rw [← finds_iff (JsonText.ofStrings _).zero_not_mem value.no_zero]
  constructor
  · rintro ⟨st', p', hp', hget', hfinds⟩
    obtain rfl : st' = st := by
      rw [hp] at hp'
      cases hp'
      rfl
    obtain rfl : p' = p := by
      rw [hget] at hget'
      cases hget'
      rfl
    rwa [hd] at hfinds
  · intro hfinds
    exact ⟨st, p, hp, hget, hd.symm ▸ hfinds⟩

/-- **Where the two JSON readers agree.** They agree on a name of at most 125 bytes if and only if no
earlier member has it as its value. The names `:` and `,` are found between other members, and of a longer
name the search takes the start: the readers then agree if what stands behind that place reads the
value. -/
theorem agrees_iff (hlen : (JsonText.ofStrings (before ++ (name, value) :: after)).text.length < jsonStrSize)
    (hdist : ((before ++ (name, value) :: after).map fun m => m.1.text).Nodup) :
    Agrees (before ++ (name, value) :: after) name.text ↔
      (name.text.length ≤ 125 ∧ (∀ m ∈ before, m.2.text ≠ name.text) ∧
          (before = [] ∨ name.text ≠ [58] ∧ name.text ≠ [44])) ∨
        ((125 < name.text.length ∨ name.text = [58] ∨ name.text = [44]) ∧
          ∃ rest, FirstAt (quotedName name.text) (JsonText.ofStrings (before ++ (name, value) :: after)).text rest ∧
            ReadsOn rest value.text) := by
  rw [agrees_iff_first hlen hdist]
  obtain ⟨m, ms, hms, htext⟩ := text_eq before name value after
  constructor
  · rintro ⟨rest, hfirst, hreads⟩
    by_cases hodd : 125 < name.text.length ∨ name.text = [58] ∨ name.text = [44]
    · exact .inr ⟨hodd, rest, hfirst, hreads⟩
    · rw [not_or, not_or, Nat.not_lt] at hodd
      obtain ⟨hshort, hcolon, hcomma⟩ := hodd
      refine .inl ⟨hshort, ?_, .inr ⟨hcolon, hcomma⟩⟩
      by_contra hvalue
      simp only [not_forall, Decidable.not_not, exists_prop] at hvalue
      obtain ⟨rest', hblocked⟩ := strstr_blocked hcolon hcomma hvalue hms (hms ▸ hdist)
      have hfound := hfirst.strstr
      rw [quotedName_short hshort, htext, strstr_brace, hblocked, Option.some.injEq, List.append_cancel_left_eq]
        at hfound
      exact not_readsOn_comma (hfound ▸ hreads)
  · rintro (⟨hshort, hvalue, hodd⟩ | ⟨-, hfirst⟩)
    · have hfound : strstr (34 :: (name.text ++ [34])) (fromName m ms) =
          some (34 :: (name.text ++ [34]) ++ 58 :: 34 :: (value.text ++ 34 :: fromEnd after)) := by
        rcases hodd with rfl | ⟨hcolon, hcomma⟩
        · obtain ⟨rfl, rfl⟩ := List.cons.inj hms
          exact strstr_own ms
        · exact strstr_clear hcolon hcomma hvalue hms (hms ▸ hdist)
      rw [← strstr_brace, ← htext, ← quotedName_short hshort] at hfound
      obtain ⟨rest, heq, hfirst⟩ := firstAt_of_strstr hfound
      rw [List.append_cancel_left_eq] at heq
      exact ⟨rest, hfirst, heq ▸ readsOn_own value after⟩
    · exact hfirst

end Search

/-- `{"a":"b","c":"d"}` -/
theorem apart_agrees : Agrees [(.letter 97, .letter 98), (.letter 99, .letter 100)] [99] :=
  (@agrees_iff (.letter 99) (.letter 100) [(.letter 97, .letter 98)] [] (by decide) (by decide)).mpr
    (.inl ⟨by decide, by decide, .inr ⟨by decide, by decide⟩⟩)

/-- `{"a":"b","b":"c"}` -/
def hidden : List (Plain × Plain) := [(.a, .b), (.b, .letter 99)]

theorem hidden_disagrees : (JsonText.ofStrings hidden).text.length < jsonStrSize ∧
    (hidden.map fun m => m.1.text).Nodup ∧ (.letter 98, .letter 99) ∈ hidden ∧ ¬Agrees hidden [98] := by
  refine ⟨by decide, by decide, List.mem_cons_of_mem _ (List.mem_singleton.mpr rfl), ?_⟩
  rintro ⟨st, p, -, -, hfinds⟩
  exact absurd (hfinds 100 (List.replicate 100 0) (by decide) List.length_replicate).1 (by decide)

end ToolJson2

end SabApp
