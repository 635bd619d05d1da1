import SabApp.JsonRows
import SabApp.QhFrame

/-!
# List responses of the QH protocol (tool_ptc.c)

The encoders of lists write an opening, then each entry through a buffer of its own, and a closing. What they add to
`head.len` for an entry is what `snprintf` returns, the length before the buffer cuts the text. The decoders read the
rows of the array until one lacks a member.
-/

namespace SabApp

namespace Qh

open CText ToolJson2

/-- Past this `head.len` the encoders write no more entries. -/
def lenLimit : ℕ := videoFrameSize - 1024

/-- The size of a row in the tables of the decoders. -/
def rowSize : ℕ := 512

/-- `{"result":"0","num":"%d","<name>":[` -/
def opening (name : String) (num : ℕ) : List UInt8 :=
  List.flatten [ascii "\x7b\"result\":\"0\",\"num\":\"", Decimal.decimal num, ascii "\",\"", ascii name, ascii "\":["]

theorem length_flatten_le : ∀ {ts : List (List UInt8)} (ns : List ℕ),
    List.Forall₂ (fun t n => t.length ≤ n) ts ns → ts.flatten.length ≤ ns.sum
  | [], _, .nil => Nat.le_refl _
  | _ :: _, _, .cons h hs => by
    rw [List.flatten_cons, List.length_append, List.sum_cons]
    exact Nat.add_le_add h (length_flatten_le _ hs)

theorem length_opening_le (name : String) {num : ℕ} (h : num ≤ 1024) :
    (opening name num).length ≤ 38 + (ascii name).length := by
  have hnum : (Decimal.decimal (num : ℤ)).length ≤ 11 := Decimal.length_decimal_le (by omega) (by omega)
  refine Nat.le_trans (length_flatten_le [21, 11, 3, (ascii name).length, 3] ?_) ?_
  · simp only [List.forall₂_cons, List.Forall₂.nil, and_true]
    exact ⟨by decide, hnum, by decide, Nat.le_refl _, by decide⟩
  · simp only [List.sum_cons, List.sum_nil]
    omega

section Encode

variable {α : Type*} (text : α → List UInt8) (size : ℕ)

/-- The loop over the entries: `head.len` and the data. -/
def encodeLoop : Bool → ℕ → List UInt8 → List α → ℕ × List UInt8
  | _, len, data, [] => (len, data)
  | first, len, data, a :: as =>
    let comma := if first then [] else [44]
    let len := len + comma.length + (text a).length
    let data := data ++ comma ++ (text a).take (size - 1)
    if len > lenLimit then (len, data) else encodeLoop false len data as

/-- `head.len` and the data of the frame. -/
def encodeList (name : String) (as : List α) : ℕ × List UInt8 :=
  let start := opening name as.length
  let r := encodeLoop text size true start.length start as
  (r.1 + 2, r.2 ++ ascii "]\x7d")

theorem commas_cons (t : List UInt8) (ts : List (List UInt8)) : commas (t :: ts) = t ++ ts.flatMap fun u => 44 :: u := by
  induction ts generalizing t with
  | nil => simp [commas]
  | cons u ts ih => rw [commas, ih, List.flatMap_cons, List.cons_append]

theorem encodeLoop_rest : ∀ (as : List α) (len : ℕ) (data : List UInt8),
    len + (as.flatMap fun a => 44 :: text a).length ≤ lenLimit →
    encodeLoop text size false len data as =
      (len + (as.flatMap fun a => 44 :: text a).length, data ++ as.flatMap fun a => 44 :: (text a).take (size - 1))
  | [], len, data, _ => by simp [encodeLoop]
  | a :: as, len, data, h => by
    rw [List.flatMap_cons, List.length_append, List.length_cons] at h
    have hlen : ¬ len + [(44 : UInt8)].length + (text a).length > lenLimit := by
      rw [List.length_singleton]
      omega
    simp only [encodeLoop, Bool.false_eq_true, if_false]
    rw [if_neg hlen, encodeLoop_rest as _ _ (by rw [List.length_singleton]; omega)]
    simp only [List.flatMap_cons, List.length_append, List.length_cons, List.length_nil, List.append_assoc,
      List.cons_append, List.nil_append]
    congr 1
    omega

/-- What is written and what is counted: the texts as the buffer cuts them, and as they are. -/
theorem encodeList_eq (name : String) (as : List α)
    (h : (opening name as.length).length + (commas (as.map text)).length ≤ lenLimit) :
    encodeList text size name as =
      ((opening name as.length ++ commas (as.map text) ++ ascii "]\x7d").length,
        opening name as.length ++ commas (as.map fun a => (text a).take (size - 1)) ++ ascii "]\x7d") := by
  cases as with
  | nil => simp [encodeList, encodeLoop, commas, ascii]
  | cons a as =>
    rw [List.map_cons, commas_cons, List.flatMap_map, List.length_append] at h
    have hlen : ¬ (opening name (a :: as).length).length + ([] : List UInt8).length + (text a).length >
        lenLimit := by
      rw [List.length_nil]
      omega
    simp only [encodeList, encodeLoop, if_true]
    rw [if_neg hlen, encodeLoop_rest text size as _ _ (by rw [List.length_nil]; omega), List.map_cons, List.map_cons,
      commas_cons, commas_cons, List.flatMap_map, List.flatMap_map]
    simp only [List.length_append, List.append_nil, List.append_assoc, List.length_nil, Nat.add_zero, Nat.add_assoc]
    rfl

theorem length_commas (ts : List (List UInt8)) (t : List UInt8) :
    (commas (t :: ts)).length = t.length + (ts.map fun u => u.length + 1).sum := by
  rw [commas_cons, List.length_append, List.length_flatMap]
  rfl

theorem length_commas_le {ts : List (List UInt8)} {b : ℕ} (h : ∀ t ∈ ts, t.length ≤ b) :
    (commas ts).length ≤ ts.length * (b + 1) := by
  cases ts with
  | nil => simp [commas]
  | cons t ts =>
    have hsum : (ts.map fun u => u.length + 1).sum ≤ ts.length * (b + 1) := by
      have hle : ∀ u ∈ ts, u.length ≤ b := fun u hu => h u (.tail _ hu)
      clear h
      induction ts with
      | nil => simp
      | cons u us ih =>
        have hu := hle u (.head _)
        have hus := ih fun v hv => hle v (.tail _ hv)
        rw [List.map_cons, List.sum_cons, List.length_cons, Nat.succ_mul]
        omega
    have ht := h t (.head _)
    rw [length_commas, List.length_cons, Nat.succ_mul]
    omega

/-- The same for lists that fit the frame whatever they hold. -/
theorem encodeList_bounded {name : String} {as : List α} {b : ℕ} (hname : (ascii name).length ≤ 10)
    (hn : as.length ≤ 1024) (hb : ∀ a ∈ as, (text a).length ≤ b) (hle : b ≤ 400) :
    encodeList text size name as =
      ((opening name as.length ++ commas (as.map text) ++ ascii "]\x7d").length,
        opening name as.length ++ commas (as.map fun a => (text a).take (size - 1)) ++ ascii "]\x7d") := by
  have hopen := length_opening_le name hn
  have hlen : (commas (as.map text)).length ≤ (as.map text).length * 401 := by
    apply length_commas_le
    exact List.forall_mem_map.mpr fun a ha => Nat.le_trans (hb a ha) hle
  have hlimit : lenLimit = 510976 := rfl
  rw [List.length_map] at hlen
  exact encodeList_eq text size name as (by omega)

/-- The texts with commas keep their length exactly where none is cut. -/
theorem length_commas_take (k : ℕ) (ts : List (List UInt8)) :
    (commas ts).length = (commas (ts.map fun t => t.take k)).length ↔ ∀ t ∈ ts, t.length ≤ k := by
  have hrest : ∀ us : List (List UInt8), ((us.map fun t => t.take k).map fun u => u.length + 1).sum ≤
      (us.map fun u => u.length + 1).sum ∧
      ((us.map fun u => u.length + 1).sum = ((us.map fun t => t.take k).map fun u => u.length + 1).sum ↔
        ∀ t ∈ us, t.length ≤ k) := by
    intro us
    induction us with
    | nil => simp
    | cons u us ih =>
      simp only [List.map_cons, List.sum_cons, List.length_take, List.forall_mem_cons, ← ih.2]
      have := ih.1
      omega
  cases ts with
  | nil => simp [commas]
  | cons t ts =>
    have := hrest ts
    rw [List.map_cons, length_commas, length_commas, List.forall_mem_cons, ← this.2, List.length_take]
    omega

end Encode

section Decode

variable {α : Type*} (read : List UInt8 → Option α)

/-- The loop over the rows, up to the first that lacks a member. -/
def readRows : List (List UInt8) → List α
  | [] => []
  | r :: rs =>
    match read r with
    | none => []
    | some a => a :: readRows rs

variable {read}

theorem readRows_map {text : α → List UInt8} : ∀ {as : List α}, (∀ a ∈ as, read (text a) = some a) →
    readRows read (as.map text) = as
  | [], _ => rfl
  | a :: as, h => by
    rw [List.map_cons, readRows, h a (.head _)]
    exact congrArg (a :: ·) (readRows_map fun b hb => h b (.tail _ hb))

theorem readRows_row {r : List UInt8} {post : List α} {a : α} : ∀ {pre : List α} {us rs : List (List UInt8)},
    us.length = pre.length → readRows read (us ++ r :: rs) = pre ++ a :: post → read r = some a
  | [], [], _, _, h => by
    rw [List.nil_append, readRows] at h
    split at h
    · cases h
    · next b hb =>
      rw [hb, (List.cons.inj h).1]
  | [], _ :: _, _, hl, _ => by simp at hl
  | _ :: _, [], _, hl, _ => by simp at hl
  | p :: pre, u :: us, rs, hl, h => by
    rw [List.cons_append, readRows] at h
    split at h
    · cases h
    · exact readRows_row (by simpa using hl) (List.cons.inj h).2

end Decode

/-! ## The opening -/

theorem value64_first (name v : List UInt8) (hn : name.length ≤ 125) (hv : 34 ∉ v) (h0 : 0 ∉ v) (hs : v.length < 64)
    (t : List UInt8) : value64 (123 :: 34 :: (name ++ 34 :: 58 :: 34 :: (v ++ 34 :: t))) name = some v := by
  have hq : quotedName name = 34 :: (name ++ [34]) := List.take_of_length_le (by simp; omega)
  have hfound : strstr (quotedName name) (123 :: 34 :: (name ++ 34 :: 58 :: 34 :: (v ++ 34 :: t))) =
      some (quotedName name ++ 58 :: 34 :: (v ++ 34 :: t)) := by
    have := strstr_prefix (quotedName name) (58 :: 34 :: (v ++ 34 :: t))
    rw [hq] at this ⊢
    rw [strstr_brace]
    simpa using this
  have hcol : toColon (58 :: 34 :: (v ++ 34 :: t)) = some (34 :: (v ++ 34 :: t)) := rfl
  have hg : getValue (123 :: 34 :: (name ++ 34 :: 58 :: 34 :: (v ++ 34 :: t))) name (List.replicate 64 0) 64 =
      (0, v ++ [0] ++ (List.replicate 64 0).drop (v.length + 1)) := by
    simp only [getValue, hfound, List.drop_left, hcol]
    rw [show ((64 : ℤ).toNat) = 64 from rfl, readValue_quoted hv hs]
    simp
  simp only [value64, hg]
  rw [if_neg (by decide), List.append_assoc, List.singleton_append, cstr_append_zero h0]

theorem getNumber_opening (name : String) (num : ℕ) (t : List UInt8) :
    getNumber (opening name num ++ t) (ascii "result") = some 0 := by
  have hfirst := value64_first (ascii "result") (ascii "0") (by decide) (by decide) (by decide)
    (by decide) (ascii ",\"num\":\"" ++ (Decimal.decimal num ++ (ascii "\",\"" ++ (ascii name ++ (ascii "\":[" ++ t)))))
  have heq : opening name num ++ t = 123 :: 34 :: (ascii "result" ++ 34 :: 58 :: 34 :: (ascii "0" ++ 34 ::
      (ascii ",\"num\":\"" ++ (Decimal.decimal num ++ (ascii "\",\"" ++ (ascii name ++ (ascii "\":[" ++ t))))))) := by
    simp only [opening, List.flatten_cons, List.flatten_nil, List.append_assoc, List.nil_append]
    rfl
  rw [getNumber, heq, hfirst]
  rfl

/-- The search passes a literal of which no end can start the needle. -/
theorem strstr_skip {needle lit : List UInt8} (h : ∀ s ∈ lit.tails, s ≠ [] → ¬ needle <+: s ∧ ¬ s <+: needle)
    (t : List UInt8) : strstr needle (lit ++ t) = strstr needle t := by
  induction lit with
  | nil => rfl
  | cons c cs ih =>
    rw [List.tails, List.forall_mem_cons] at h
    obtain ⟨h₁, h₂⟩ := h.1 (by simp)
    rw [List.cons_append, strstr_cons_ne, ih h.2]
    intro hp
    rcases List.prefix_or_prefix_of_prefix hp (List.prefix_append (c :: cs) t) with h | h
    · exact h₁ h
    · exact h₂ h

theorem strstr_opening (name : String) {c : UInt8} {cs : List UInt8} (hname : ascii name = c :: cs)
    (hc : Decimal.isNumeric c = false) (h₁ : ∀ s ∈ (ascii "\x7b\"result\":\"0\",\"num\":\"").tails, s ≠ [] →
      ¬ ascii name <+: s ∧ ¬ s <+: ascii name) (h₂ : c ∉ ascii "\",\"") (num : ℕ) (t : List UInt8) :
    strstr (ascii name) (opening name num ++ t) = some (ascii name ++ 34 :: 58 :: 91 :: t) := by
  have hnum : c ∉ Decimal.decimal num := Decimal.not_mem_decimal hc
  have hrest : strstr (ascii name) (ascii "\",\"" ++ (ascii name ++ 34 :: 58 :: 91 :: t)) =
      some (ascii name ++ 34 :: 58 :: 91 :: t) := by
    rw [← strstr_prefix (ascii name) (34 :: 58 :: 91 :: t), hname, strstr_append_of_not_mem h₂]
  have heq : opening name num ++ t = ascii "\x7b\"result\":\"0\",\"num\":\"" ++ (Decimal.decimal num ++
      (ascii "\",\"" ++ (ascii name ++ 34 :: 58 :: 91 :: t))) := by
    simp only [opening, List.flatten_cons, List.flatten_nil, List.append_assoc, List.nil_append]
    rfl
  rw [heq, strstr_skip h₁, ← hrest]
  rw [hname, strstr_append_of_not_mem hnum]

/-! ## Numbers -/

/-- What `%d` makes of an `unsigned int`. -/
def signed (n : UInt32) : ℤ := n.toInt32.toInt

theorem le_signed (n : UInt32) : -2 ^ 31 ≤ signed n := n.toInt32.le_toInt

theorem signed_lt (n : UInt32) : signed n < 2 ^ 31 := n.toInt32.toInt_lt

theorem ofInt_signed (n : UInt32) : UInt32.ofInt (signed n) = n := by
  have hlt := n.toNat_lt
  rw [UInt32.ofInt, signed, toInt_toInt32]
  apply UInt32.toNat.inj
  rw [UInt32.toNat_ofNat']
  split <;> omega

theorem ofInt_toNat8 (n : UInt8) : UInt8.ofInt n.toNat = n := by
  have hlt := n.toNat_lt
  apply UInt8.toNat.inj
  rw [UInt8.ofInt, UInt8.toNat_ofNat']
  omega

theorem length_signed_le (n : UInt32) : (Decimal.decimal (signed n)).length ≤ 11 :=
  Decimal.length_decimal_le (le_signed n) (signed_lt n)

theorem length_byte_le (n : UInt8) : (Decimal.decimal n.toNat).length ≤ 11 :=
  Decimal.length_decimal_le (by omega) (by have := n.toNat_lt; omega)

theorem getNumber_signed {ms : List (Plain × Plain)} (h : Clear ms) {name : Plain} {n : UInt32}
    (hm : (name, Plain.decimal (signed n)) ∈ ms) : getNumber (JsonText.ofStrings ms).text name.text = some (signed n) :=
  getNumber_member h hm (le_signed n) (signed_lt n)

theorem getNumber_byte {ms : List (Plain × Plain)} (h : Clear ms) {name : Plain} {n : UInt8}
    (hm : (name, Plain.decimal n.toNat) ∈ ms) :
    getNumber (JsonText.ofStrings ms).text name.text = some (n.toNat : ℤ) :=
  getNumber_member h hm (by omega) (by have := n.toNat_lt; omega)

theorem ofInt_toNat16 (n : UInt16) : UInt16.ofInt n.toNat = n := by
  have hlt := n.toNat_lt
  apply UInt16.toNat.inj
  rw [UInt16.ofInt, UInt16.toNat_ofNat']
  omega

end Qh

end SabApp
