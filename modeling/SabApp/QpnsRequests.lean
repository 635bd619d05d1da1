import SabApp.Accesses
import SabApp.CloudListAnswers

/-!
# Requests with device maps (hdcctv_client.c)

Three calls send the ids of devices. The body begins with `snprintf`, and the rest goes behind it with `strncat`, limited to
the size of the body less `ContentLength`; the zero byte that `strncat` adds is not counted. `ContentLength` grows by what each
piece would take, and the limit is unsigned.
-/

namespace SabApp

namespace Qpns

open CText Traced

/-- TOOL_HTTP_BODY_SIZE -/
def bodySize : ℕ := 10240

/-- HDCCTV_QPNS_DEVICE_MAP_NUM -/
def deviceMapNum : ℕ := 32

/-- The size of `dev_id`, HDCCTV_QPNS_TOKEN_SIZE. -/
def devIdSize : ℕ := 72

/-- `hdcctv_qpns_device_maps_t`: the ids of the first `num` entries. -/
structure DeviceMaps where
  num : ℤ
  ids : List (List UInt8)
  count : ids.length = num.toNat
  terminated : ∀ id ∈ ids, 0 ∉ id ∧ id.length < devIdSize

/-- `send_http.body` up to its terminator, and `send_http.ContentLength`. -/
structure Body where
  text : List UInt8
  contentLength : ℤ

/-- What `snprintf` returns for a text. -/
def printedLength (s : List UInt8) : ℤ := if s.length < 2 ^ 31 then s.length else -1

namespace Body

/-- `sizeof(send_http.body)-send_http.ContentLength` -/
def limit (b : Body) : ℕ := ((bodySize - b.contentLength) % 2 ^ 32).toNat

/-- `strncat` of a text, and `ContentLength` moved on by `n`. -/
def strncat (b : Body) (s : List UInt8) (n : ℤ) : Traced Access Body := do
  emit (.write b.text.length (s.take b.limit ++ [0]))
  pure ⟨b.text ++ s.take b.limit, Int.bmod (b.contentLength + n) (2 ^ 32)⟩

end Body

def beginText (action : String) (token : List UInt8) (tokenType : ℤ) : List UInt8 :=
  ascii "\x7b\"token\":\"" ++ (token ++ (ascii "\",\"token_type\":\"" ++ (Decimal.decimal tokenType ++
    (ascii "\",\"action\":\"" ++ (ascii action ++ ascii "\",\"device_map\":")))))

def idText (id : List UInt8) : List UInt8 := ascii "\x7b\"dev_id\":\"" ++ (id ++ ascii "\"\x7d")

/-- `snprintf` into the body. -/
def beginBody (action : String) (token : List UInt8) (tokenType : ℤ) : Traced Access Body := do
  let s := beginText action token tokenType
  emit (.write 0 (s.take (bodySize - 1) ++ [0]))
  pure ⟨s.take (bodySize - 1), printedLength s⟩

/-- The loop over the maps, from place `i` on; `buf` has 1024 bytes. -/
def appendIds (num : ℤ) : ℕ → List (List UInt8) → Body → Traced Access Body
  | _, [], b => pure b
  | i, id :: ids, b => do
    let b ← b.strncat ((idText id).take (1024 - 1)) (printedLength (idText id))
    let b ← if (i : ℤ) ≠ num - 1 then b.strncat (ascii ",") 1 else pure b
    appendIds num (i + 1) ids b

def appendMaps (maps : DeviceMaps) (b : Body) : Traced Access Body := do
  let b ← b.strncat (ascii "[") 1
  let b ← appendIds maps.num 0 maps.ids b
  b.strncat (ascii "]") 1

def hdcctv_client2_setQpnsDeviceMaps (token : List UInt8) (tokenType : ℤ) (maps : DeviceMaps) : Traced Access Body := do
  let b ← beginBody "set" token tokenType
  let b ← if maps.num = 0 then b.strncat (ascii "null") 4 else appendMaps maps b
  b.strncat (ascii "\x7d") 1

/-- The calls that refuse an empty list. -/
def changeMaps (action : String) (token : List UInt8) (tokenType : ℤ) (maps : DeviceMaps) : Traced Access Body := do
  let b ← beginBody action token tokenType
  let b ← appendMaps maps b
  b.strncat (ascii "\x7d") 1

def hdcctv_client2_addQpnsDeviceMaps : List UInt8 → ℤ → DeviceMaps → Traced Access Body := changeMaps "add"

def hdcctv_client2_delQpnsDeviceMaps : List UInt8 → ℤ → DeviceMaps → Traced Access Body := changeMaps "del"

inductive MapsCall where
  | set
  | add
  | del

namespace MapsCall

/-- The input check. -/
def Accepts (maps : DeviceMaps) : MapsCall → Prop
  | set => maps.num ≤ deviceMapNum
  | add | del => 0 < maps.num ∧ maps.num ≤ deviceMapNum

instance (maps : DeviceMaps) : (c : MapsCall) → Decidable (c.Accepts maps)
  | set => inferInstanceAs (Decidable (_ ≤ _))
  | add | del => inferInstanceAs (Decidable (_ ∧ _))

def action : MapsCall → String
  | set => "set"
  | add => "add"
  | del => "del"

/-- What the call makes of `send_http.body` and `send_http.ContentLength`. -/
def request : MapsCall → List UInt8 → ℤ → DeviceMaps → Traced Access Body
  | set => hdcctv_client2_setQpnsDeviceMaps
  | add => hdcctv_client2_addQpnsDeviceMaps
  | del => hdcctv_client2_delQpnsDeviceMaps

end MapsCall

/-! ## What is asked for -/

def listText (maps : DeviceMaps) : List UInt8 :=
  if maps.num = 0 then ascii "null" else ascii "[" ++ (commas (maps.ids.map idText) ++ ascii "]")

/-- The text that a call means to send. -/
def MapsCall.text (c : MapsCall) (token : List UInt8) (tokenType : ℤ) (maps : DeviceMaps) : List UInt8 :=
  beginText c.action token tokenType ++ (listText maps ++ ascii "\x7d")

def listLength (maps : DeviceMaps) : ℕ :=
  if maps.num = 0 then 4 else 2 + (maps.ids.map fun id => id.length + 13).sum + (maps.ids.length - 1)

/-- The length of the text. -/
def requestLength (token : List UInt8) (tokenType : ℤ) (maps : DeviceMaps) : ℕ :=
  57 + token.length + (Decimal.decimal tokenType).length + listLength maps

/-- Every write is inside of the body, and `ContentLength` is the number of its bytes. -/
def Built (x : Traced Access Body) : Prop :=
  (∀ e ∈ x.events, e.Within 0 bodySize) ∧ ∃ b, x.value = some b ∧ b.contentLength = b.text.length

/-- The body is parsed to the token and these ids, each in its place, and no other. -/
def Yields (x : Traced Access Body) (token : List UInt8) (ids : List (List UInt8)) : Prop :=
  ∃ b st, x.value = some b ∧ ToolJson.parse b.text = .ok (0, st) ∧
    (∃ q, st.getValue (ascii "token") = some (some q) ∧ st.deref q = token) ∧
    ∀ i : ℕ, (st.getValueV2 (ascii "device_map") i (ascii "dev_id")).map (Option.map st.deref) = some ids[i]?

/-! ## Appending -/

/-- A body whose length is counted. -/
def counted (s : List UInt8) : Body := ⟨s, s.length⟩

@[simp] theorem counted_text (s : List UInt8) : (counted s).text = s := rfl

@[simp] theorem counted_length (s : List UInt8) : (counted s).contentLength = s.length := rfl

theorem limit_counted {s : List UInt8} (hs : s.length < bodySize) : (counted s).limit = bodySize - s.length := by
  have hsize : bodySize = 10240 := rfl
  rw [Body.limit, counted_length, Int.emod_eq_of_lt (by omega) (by omega)]
  omega

section
variable {R : Body → Prop} {f : Body → Traced Access Body} {s p : List UInt8} {b : Body} {n : ℤ}

theorem strncat_bind (b : Body) (p : List UInt8) (n : ℤ) :
    Ensures (·.Within 0 bodySize) R (b.strncat p n >>= f) ↔ b.text.length + (min b.limit p.length + 1) ≤ bodySize ∧
      Ensures (·.Within 0 bodySize) R (f ⟨b.text ++ p.take b.limit, Int.bmod (b.contentLength + n) (2 ^ 32)⟩) := by
  have hvalue : (b.strncat p n).value = some ⟨b.text ++ p.take b.limit, Int.bmod (b.contentLength + n) (2 ^ 32)⟩ := rfl
  have hevents : (b.strncat p n).events = [.write b.text.length (p.take b.limit ++ [0])] := rfl
  rw [ensures_bind_iff hvalue, hevents, List.forall_mem_singleton, Access.Within, List.length_append, List.length_take,
    List.length_singleton, and_iff_right (Nat.zero_le _)]

/-- A piece is taken whole if there is room for it and for the zero byte, and else it is written over the end. -/
theorem strncat_iff (hs : s.length < bodySize) (hn : n = p.length) :
    Ensures (·.Within 0 bodySize) R ((counted s).strncat p n >>= f) ↔
      (s ++ p).length < bodySize ∧ Ensures (·.Within 0 bodySize) R (f (counted (s ++ p))) := by
  have hsize : bodySize = 10240 := rfl
  rw [strncat_bind, limit_counted hs, counted_text, counted_length, List.length_append]
  refine (and_congr (by omega) Iff.rfl).trans (and_congr_right fun hfit => ?_)
  have hlength : Int.bmod (s.length + n) (2 ^ 32) = (s ++ p).length := by
    rw [List.length_append, hn, Int.bmod_eq_of_le (by omega) (by omega)]
    rfl
  rw [List.take_of_length_le (by omega), hlength]
  rfl

/-- The body is full, and the limit is not 0. -/
structure Stuffed (b : Body) : Prop where
  full : b.text.length = bodySize - 1
  limit : 0 < b.limit

theorem Stuffed.strncat (h : Stuffed b) (hp : p ≠ []) : ¬ Ensures (·.Within 0 bodySize) R (b.strncat p n >>= f) := by
  have hsize : bodySize = 10240 := rfl
  have hfull := h.full
  have hlimit := h.limit
  have hpos := List.length_pos_of_ne_nil hp
  rw [strncat_bind]
  omega

/-- A piece that comes to a full body is written over the end, or the next one is. -/
theorem strncat_full (hb : b.text.length = bodySize - 1) (hp : p ≠ []) (hn : 0 < n ∧ n < 2 ^ 32)
    (hf : ∀ b, Stuffed b → ¬ Ensures (·.Within 0 bodySize) R (f b)) :
    ¬ Ensures (·.Within 0 bodySize) R (b.strncat p n >>= f) := by
  by_cases hlimit : b.limit = 0
  · rw [strncat_bind, hlimit, List.take_zero, List.append_nil]
    have hmod := Int.bmod_emod (x := b.contentLength + n) (m := 2 ^ 32)
    have hnext : 0 < (Body.mk b.text (Int.bmod (b.contentLength + n) (2 ^ 32))).limit := by
      unfold Body.limit at hlimit ⊢
      dsimp only
      generalize Int.bmod (b.contentLength + n) (2 ^ 32) = l at hmod ⊢
      omega
    exact fun h => hf ⟨b.text, Int.bmod (b.contentLength + n) (2 ^ 32)⟩ ⟨hb, hnext⟩ h.2
  · exact Stuffed.strncat ⟨hb, Nat.pos_of_ne_zero hlimit⟩ hp

/-! ## The list -/

theorem idText_length (id : List UInt8) : (idText id).length = id.length + 13 := by
  have hfront : (ascii "\x7b\"dev_id\":\"").length = 11 := by decide
  have hback : (ascii "\"\x7d").length = 2 := by decide
  rw [idText, List.length_append, List.length_append, hfront, hback]
  omega

theorem idText_buf {id : List UInt8} (h : id.length < devIdSize) :
    (idText id).take (1024 - 1) = idText id ∧ printedLength (idText id) = (idText id).length := by
  have hsize : devIdSize = 72 := rfl
  have hlen := idText_length id
  constructor
  · exact List.take_of_length_le (by omega)
  · rw [printedLength, if_pos (by omega)]

theorem length_lt_of_append {u v : List UInt8} (h : (u ++ v).length < bodySize) : u.length < bodySize := by
  rw [List.length_append] at h
  omega

theorem appendIds_iff {num : ℤ} : ∀ {ids : List (List UInt8)} {i : ℕ} {s : List UInt8}, (ids ≠ [] → i + ids.length = num) →
    (∀ id ∈ ids, id.length < devIdSize) → s.length < bodySize →
    (Ensures (·.Within 0 bodySize) R (appendIds num i ids (counted s) >>= f) ↔
      (s ++ commas (ids.map idText)).length < bodySize ∧
        Ensures (·.Within 0 bodySize) R (f (counted (s ++ commas (ids.map idText)))))
  | [], i, s, _, _, hs => by
    rw [List.map_nil, commas, List.append_nil]
    exact (and_iff_right hs).symm
  | [id], i, s, hi, hids, hs => by
    obtain ⟨htake, hprinted⟩ := idText_buf (hids id (.head _))
    have hlast : ¬ (i : ℤ) ≠ num - 1 := by
      have hend := hi (List.cons_ne_nil _ _)
      rw [List.length_singleton] at hend
      omega
    rw [appendIds, bind_bind, htake, strncat_iff hs hprinted, if_neg hlast]
    rfl
  | id :: id' :: ids, i, s, hi, hids, hs => by
    obtain ⟨htake, hprinted⟩ := idText_buf (hids id (.head _))
    have hend := hi (List.cons_ne_nil _ _)
    rw [List.length_cons] at hend
    have hrest : ((i + 1 : ℕ) : ℤ) + (id' :: ids).length = num := by omega
    have hmore : (i : ℤ) ≠ num - 1 := by
      rw [List.length_cons] at hend
      omega
    have htext : s ++ commas ((id :: id' :: ids).map idText) =
        s ++ idText id ++ ascii "," ++ commas ((id' :: ids).map idText) := by
      rw [List.append_assoc, List.append_assoc]
      rfl
    rw [appendIds, bind_bind, htake, strncat_iff hs hprinted, if_pos hmore, bind_bind, htext]
    constructor
    · rintro ⟨h₁, h⟩
      obtain ⟨h₂, h⟩ := (strncat_iff h₁ rfl).mp h
      exact (appendIds_iff (fun _ => hrest) (fun x hx => hids x (.tail _ hx)) h₂).mp h
    · rintro ⟨h₃, h⟩
      have h₂ := length_lt_of_append h₃
      have h₁ := length_lt_of_append h₂
      exact ⟨h₁, (strncat_iff h₁ rfl).mpr ⟨h₂, (appendIds_iff (fun _ => hrest) (fun x hx => hids x (.tail _ hx)) h₂).mpr ⟨h₃, h⟩⟩⟩

theorem Stuffed.appendIds {num : ℤ} {i : ℕ} {ids : List (List UInt8)} (h : Stuffed b) :
    ¬ Ensures (·.Within 0 bodySize) R (appendIds num i ids b >>= fun b => b.strncat (ascii "]") 1 >>= f) := by
  cases ids with
  | nil => exact h.strncat (by decide)
  | cons id ids =>
    rw [Qpns.appendIds, bind_bind]
    refine h.strncat (List.ne_nil_of_length_pos ?_)
    rw [List.length_take, idText_length]
    omega

/-- From the name `device_map` on. -/
def appendList (maps : DeviceMaps) (b : Body) : Traced Access Body :=
  if maps.num = 0 then b.strncat (ascii "null") 4 else appendMaps maps b

variable {maps : DeviceMaps}

theorem appendList_iff (hs : s.length < bodySize) :
    Ensures (·.Within 0 bodySize) R (appendList maps (counted s) >>= f) ↔
      (s ++ listText maps).length < bodySize ∧ Ensures (·.Within 0 bodySize) R (f (counted (s ++ listText maps))) := by
  unfold appendList listText
  by_cases hnum : maps.num = 0
  · rw [if_pos hnum, if_pos hnum]
    exact strncat_iff hs rfl
  have hcount := maps.count
  have hend : maps.ids ≠ [] → ((0 : ℕ) : ℤ) + maps.ids.length = maps.num := by
    intro hne
    have hpos := List.length_pos_of_ne_nil hne
    omega
  have hids : ∀ id ∈ maps.ids, id.length < devIdSize := fun id hid => (maps.terminated id hid).2
  have htext : s ++ (ascii "[" ++ (commas (maps.ids.map idText) ++ ascii "]")) =
      s ++ ascii "[" ++ commas (maps.ids.map idText) ++ ascii "]" := by
    rw [List.append_assoc, List.append_assoc]
  have hopen : (1 : ℤ) = (ascii "[").length := rfl
  rw [if_neg hnum, if_neg hnum, appendMaps, bind_bind, htext, strncat_iff hs hopen, bind_bind]
  constructor
  · rintro ⟨h₁, h⟩
    obtain ⟨h₂, h⟩ := (appendIds_iff hend hids h₁).mp h
    exact (strncat_iff h₂ rfl).mp h
  · rintro ⟨h₃, h⟩
    have h₂ := length_lt_of_append h₃
    have h₁ := length_lt_of_append h₂
    exact ⟨h₁, (appendIds_iff hend hids h₁).mpr ⟨h₂, (strncat_iff h₂ rfl).mpr ⟨h₃, h⟩⟩⟩

theorem appendList_full (hb : b.text.length = bodySize - 1)
    (hf : ∀ b, Stuffed b → ¬ Ensures (·.Within 0 bodySize) R (f b)) :
    ¬ Ensures (·.Within 0 bodySize) R (appendList maps b >>= f) := by
  unfold appendList
  by_cases hnum : maps.num = 0
  · rw [if_pos hnum]
    exact strncat_full hb (by decide) (by decide) hf
  · rw [if_neg hnum, appendMaps, bind_bind]
    refine strncat_full hb (by decide) (by decide) fun b' hb' => ?_
    rw [bind_bind]
    exact hb'.appendIds

/-! ## The request -/

variable {c : MapsCall} {token : List UInt8} {tokenType : ℤ}

/-- The three calls are one but for the action. -/
theorem request_eq (hc : c.Accepts maps) : c.request token tokenType maps =
    (beginBody c.action token tokenType >>= fun b => appendList maps b >>= fun b => b.strncat (ascii "\x7d") 1) := by
  have hlist : 0 < maps.num → appendList maps = appendMaps maps := by
    intro hpos
    funext b
    exact if_neg (by omega)
  cases c with
  | set =>
    rw [MapsCall.request, hdcctv_client2_setQpnsDeviceMaps]
    unfold appendList
    by_cases hnum : maps.num = 0
    · simp only [if_pos hnum]
      rfl
    · simp only [if_neg hnum]
      rfl
  | add =>
    rw [hlist hc.1]
    rfl
  | del =>
    rw [hlist hc.1]
    rfl

theorem request_iff (hc : c.Accepts maps) : Ensures (·.Within 0 bodySize) R (c.request token tokenType maps) ↔
    (c.text token tokenType maps).length < bodySize ∧ R (counted (c.text token tokenType maps)) := by
  have hsize : bodySize = 10240 := rfl
  have hvalue : (beginBody c.action token tokenType).value =
      some ⟨(beginText c.action token tokenType).take (bodySize - 1), printedLength (beginText c.action token tokenType)⟩ := rfl
  have hevents : (beginBody c.action token tokenType).events =
      [.write 0 ((beginText c.action token tokenType).take (bodySize - 1) ++ [0])] := rfl
  have hinside : ∀ e ∈ (beginBody c.action token tokenType).events, e.Within 0 bodySize := by
    rw [hevents, List.forall_mem_singleton, Access.Within, List.length_append, List.length_take, List.length_singleton]
    omega
  have hclose : ∀ b : Body, b.strncat (ascii "\x7d") 1 = b.strncat (ascii "\x7d") 1 >>= pure := fun b => (bind_done _).symm
  rw [request_eq hc, ensures_bind_iff hvalue, and_iff_right hinside, MapsCall.text, ← List.append_assoc]
  by_cases hbegin : (beginText c.action token tokenType).length < bodySize
  · rw [List.take_of_length_le (by omega), printedLength, if_pos (by omega)]
    refine (appendList_iff hbegin).trans ?_
    have hend : (1 : ℤ) = (ascii "\x7d").length := rfl
    rw [hclose]
    constructor
    · rintro ⟨h₁, h⟩
      obtain ⟨h₂, h⟩ := (strncat_iff h₁ hend).mp h
      exact ⟨h₂, h.value _ rfl⟩
    · rintro ⟨h₂, h⟩
      have h₁ := length_lt_of_append h₂
      exact ⟨h₁, (strncat_iff h₁ hend).mpr ⟨h₂, ensures_pure h⟩⟩
  · refine iff_of_false (appendList_full ?_ fun b hb => ?_) fun h => hbegin (length_lt_of_append (length_lt_of_append h.1))
    · rw [List.length_take]
      omega
    · rw [hclose]
      exact hb.strncat (by decide)

/-- What fits is sent as it is meant. -/
theorem request_value (hc : c.Accepts maps) (h : (c.text token tokenType maps).length < bodySize) :
    (c.request token tokenType maps).value = some (counted (c.text token tokenType maps)) := by
  have hall := (request_iff (R := fun b => b = counted (c.text token tokenType maps)) hc).mpr ⟨h, rfl⟩
  cases hv : (c.request token tokenType maps).value with
  | none =>
    have hnone : Ensures (·.Within 0 bodySize) (fun _ => False) (c.request token tokenType maps) :=
      ⟨hall.events, fun a ha => nomatch hv.symm.trans ha⟩
    exact absurd ((request_iff hc).mp hnone).2 id
  | some b => rw [hall.value b hv]

theorem built_iff (hc : c.Accepts maps) :
    Built (c.request token tokenType maps) ↔ (c.text token tokenType maps).length < bodySize := by
  constructor
  · rintro ⟨hevents, -⟩
    exact ((request_iff (R := fun _ => True) hc).mp ⟨hevents, fun _ _ => trivial⟩).1
  · intro h
    exact ⟨((request_iff (R := fun _ => True) hc).mpr ⟨h, trivial⟩).events, _, request_value hc h, rfl⟩

end

theorem commas_length (ids : List (List UInt8)) :
    (commas (ids.map idText)).length = (ids.map fun id => id.length + 13).sum + (ids.length - 1) := by
  induction ids with
  | nil => rfl
  | cons id ids ih =>
    cases ids with
    | nil =>
      rw [List.map_singleton, commas, idText_length]
      rfl
    | cons id' ids =>
      rw [List.map_cons, List.map_cons, commas, List.length_append, List.length_cons, ← List.map_cons, ih, idText_length,
        List.map_cons (a := id), List.sum_cons, List.length_cons (a := id), List.length_cons]
      omega

theorem text_length (c : MapsCall) (token : List UInt8) (tokenType : ℤ) (maps : DeviceMaps) :
    (c.text token tokenType maps).length = requestLength token tokenType maps := by
  have hclose : (ascii "\x7d").length = 1 := rfl
  have hbegin : (beginText c.action token tokenType).length = 56 + token.length + (Decimal.decimal tokenType).length := by
    have haction : (ascii c.action).length = 3 := by
      cases c <;> rfl
    have h₁ : (ascii "\x7b\"token\":\"").length = 10 := by decide
    have h₂ : (ascii "\",\"token_type\":\"").length = 16 := by decide
    have h₃ : (ascii "\",\"action\":\"").length = 12 := by decide
    have h₄ : (ascii "\",\"device_map\":").length = 15 := by decide
    simp only [beginText, List.length_append, haction, h₁, h₂, h₃, h₄]
    omega
  have hlist : (listText maps).length = listLength maps := by
    have hopen : (ascii "[").length = 1 := rfl
    have hclose : (ascii "]").length = 1 := rfl
    unfold listText listLength
    split
    · rfl
    · rw [List.length_append, List.length_append, commas_length, hopen, hclose]
      omega
  rw [MapsCall.text, List.length_append, List.length_append, hbegin, hlist, hclose, requestLength]
  omega

/-! ## What the body says -/

def MapsCall.plain : MapsCall → Plain
  | set => .ofAscii "set"
  | add => .ofAscii "add"
  | del => .ofAscii "del"

def idElement (id : Plain) : JsonElement := ⟨.none, ⟨.none, [.compact (.ofAscii "dev_id") (.str id)]⟩, .none⟩

def mapsArray (ids : List Plain) : JsonArray := ⟨.none, .ofAscii "device_map", .none, .none, .none, ids.map idElement, .none⟩

def mapsEntry (num : ℤ) (ids : List Plain) : JsonEntry :=
  if num = 0 then .leaf (.compact (.ofAscii "device_map") .null) else .array (mapsArray ids)

def requestDocument (c : MapsCall) (token : Plain) (tokenType num : ℤ) (ids : List Plain) : JsonDocument where
  lead := .none
  blank := .none
  entries := [
    .leaf (.compact (.ofAscii "token") (.str token)), .leaf (.compact (.ofAscii "token_type") (.str (.decimal tokenType))),
    .leaf (.compact (.ofAscii "action") (.str c.plain)), mapsEntry num ids]
  trail := .none

theorem exists_plains : ∀ {ids : List (List UInt8)}, (∀ id ∈ ids, 0 ∉ id) → (∀ id ∈ ids, 34 ∉ id) →
    ∃ ps : List Plain, ps.map Plain.text = ids
  | [], _, _ => ⟨[], rfl⟩
  | id :: ids, hzero, hquote => by
    obtain ⟨ps, rfl⟩ := exists_plains (fun x hx => hzero x (.tail _ hx)) fun x hx => hquote x (.tail _ hx)
    exact ⟨⟨id, hquote id (.head _), hzero id (.head _)⟩ :: ps, rfl⟩

theorem compact_text (name : Plain) (s : Plain) :
    (JsonMember.compact name (.str s)).text = 34 :: (name.text ++ 34 :: 58 :: 34 :: (s.text ++ [34])) := by
  simp [JsonMember.compact, JsonMember.text, JsonMember.tail, JsonValue.text, Blanks.none]

theorem idElement_text (id : Plain) : (idElement id).text = idText id.text := by
  have hfront : ascii "\x7b\"dev_id\":\"" = 123 :: 34 :: (ascii "dev_id" ++ [34, 58, 34]) := by decide
  have hback : ascii "\"\x7d" = [34, 125] := by decide
  rw [idText, hfront, hback]
  simp [idElement, JsonElement.text, JsonObject.text, JsonObject.body, commas, compact_text, Blanks.none, Plain.ofAscii]

theorem mapsArray_body (ids : List Plain) : (mapsArray ids).body = commas ((ids.map Plain.text).map idText) := by
  have hmap : (ids.map idElement).map JsonElement.text = (ids.map Plain.text).map idText := by
    rw [List.map_map, List.map_map]
    exact List.map_congr_left fun id _ => idElement_text id
  rw [← hmap, JsonArray.body]
  cases ids <;> rfl

/-- The entry behind the name, and what is written there. -/
theorem mapsEntry_text {maps : DeviceMaps} {ids : List Plain} (hids : ids.map Plain.text = maps.ids) :
    (mapsEntry maps.num ids).text = 34 :: (ascii "device_map" ++ 34 :: 58 :: listText maps) := by
  have hopen : ascii "[" = [91] := rfl
  have hclose : ascii "]" = [93] := rfl
  unfold mapsEntry listText
  split
  · simp [JsonEntry.text, JsonMember.compact, JsonMember.text, JsonMember.tail, JsonValue.text, Blanks.none, Plain.ofAscii]
  · rw [JsonEntry.text, JsonArray.text, JsonArray.tail, mapsArray_body, hids, hopen, hclose]
    simp [mapsArray, Blanks.none, Plain.ofAscii]

theorem requestDocument_text {c : MapsCall} {token : Plain} {tokenType : ℤ} {maps : DeviceMaps} {ids : List Plain}
    (hids : ids.map Plain.text = maps.ids) :
    (requestDocument c token tokenType maps.num ids).text = c.text token.text tokenType maps := by
  have h₁ : ascii "\x7b\"token\":\"" = 123 :: 34 :: (ascii "token" ++ [34, 58, 34]) := by decide
  have h₂ : ascii "\",\"token_type\":\"" = 34 :: 44 :: 34 :: (ascii "token_type" ++ [34, 58, 34]) := by decide
  have h₃ : ascii "\",\"action\":\"" = 34 :: 44 :: 34 :: (ascii "action" ++ [34, 58, 34]) := by decide
  have h₄ : ascii "\",\"device_map\":" = 34 :: 44 :: 34 :: (ascii "device_map" ++ [34, 58]) := by decide
  have h₅ : ascii "\x7d" = [125] := rfl
  have haction : c.plain.text = ascii c.action := by
    cases c <;> rfl
  have hbody : (requestDocument c token tokenType maps.num ids).body = (JsonMember.compact (.ofAscii "token") (.str token)).text ++
      44 :: ((JsonMember.compact (.ofAscii "token_type") (.str (.decimal tokenType))).text ++
        44 :: ((JsonMember.compact (.ofAscii "action") (.str c.plain)).text ++ 44 :: (mapsEntry maps.num ids).text)) := rfl
  have htext : (requestDocument c token tokenType maps.num ids).text =
      123 :: ((requestDocument c token tokenType maps.num ids).body ++ [125]) := by
    simp [JsonDocument.text, requestDocument, Blanks.none]
  rw [htext, hbody, mapsEntry_text hids, MapsCall.text, beginText, h₁, h₂, h₃, h₄, h₅, compact_text, compact_text, compact_text,
    haction]
  simp [Plain.ofAscii, Plain.decimal]

section
variable {c : MapsCall} {token : Plain} {tokenType : ℤ} {maps : DeviceMaps} {ids : List Plain} {st : ToolJson}

theorem mapsEntry_fine (hids : ids.map Plain.text = maps.ids) (hnum : 0 ≤ maps.num) :
    (mapsEntry maps.num ids).Full ∧ (mapsEntry maps.num ids).Tight := by
  unfold mapsEntry
  split
  · exact ⟨trivial, trivial⟩
  · next hne =>
    have hcount := congrArg List.length hids
    rw [List.length_map, maps.count] at hcount
    have hsome : ids ≠ [] := List.ne_nil_of_length_pos (by omega)
    refine ⟨⟨by simpa [mapsArray] using hsome, fun e he => ?_⟩, rfl, fun e he => ?_⟩
    · obtain ⟨id, -, rfl⟩ := List.mem_map.mp he
      exact List.cons_ne_nil _ _
    · obtain ⟨id, -, rfl⟩ := List.mem_map.mp he
      exact List.forall_mem_singleton.mpr rfl

/-- The ids are found in their places. -/
theorem returns_id (hids : ids.map Plain.text = maps.ids)
    (hs : ToolJson.Sound (requestDocument c token tokenType maps.num ids).text.length st)
    (hitems : List.Forall₂ (ToolJson.ItemIs st.seen) st.item
      ((requestDocument c token tokenType maps.num ids).entries.flatMap JsonEntry.leaves)) (i : ℕ) :
    st.Returns (st.getValueV2 (ascii "device_map") i (ascii "dev_id")) (ids[i]?.map .str) := by
  by_cases hnum : maps.num = 0
  · have hnil : ids = [] := by
      have hcount := congrArg List.length hids
      rw [List.length_map, maps.count, hnum] at hcount
      exact List.eq_nil_of_length_eq_zero hcount
    have hentry : mapsEntry maps.num ids = .leaf (.compact (.ofAscii "device_map") .null) := if_pos hnum
    have harrays : (requestDocument c token tokenType maps.num ids).entries.filterMap JsonEntry.array? = [] := by
      rw [requestDocument, hentry]
      rfl
    have hreturns := ToolJson.getValueV2_leaves hs hitems (ascii "device_map") i (ascii "dev_id")
    rw [find_other (by rw [harrays]; exact nofun) fun h => absurd h (by decide)] at hreturns
    rwa [hnil]
  · have hentry : mapsEntry maps.num ids = .array (mapsArray ids) := if_neg hnum
    have harrays : (requestDocument c token tokenType maps.num ids).arrays = [mapsArray ids] := by
      rw [JsonDocument.arrays, requestDocument, hentry]
      rfl
    have hname : (mapsArray ids).name.text = ascii "device_map" := rfl
    have hreturns := CloudHttp.returns_row harrays hs hitems hname (by decide) i (ascii "dev_id")
    have hat : (mapsArray ids).valueAt i (ascii "dev_id") = ids[i]?.map .str := by
      rw [JsonArray.valueAt, if_pos (Int.natCast_nonneg i), Int.toNat_natCast, mapsArray, List.getElem?_map]
      cases ids[i]? <;> rfl
    rwa [hat] at hreturns

theorem found_token (hs : ToolJson.Sound (requestDocument c token tokenType maps.num ids).text.length st)
    (hitems : List.Forall₂ (ToolJson.ItemIs st.seen) st.item
      ((requestDocument c token tokenType maps.num ids).entries.flatMap JsonEntry.leaves)) :
    ∃ q, st.getValue (ascii "token") = some (some q) ∧ st.deref q = token.text := by
  have hfind : (((requestDocument c token tokenType maps.num ids).entries.flatMap JsonEntry.leaves).find?
      fun l => l.name.text = ascii "token").map JsonLeaf.value = some (.str token) := rfl
  obtain ⟨it, l, hget, hit, hl⟩ := CloudHttp.getValue_leaves hs hitems hfind
  obtain ⟨q, hq, hread⟩ := hl ▸ hit.returns
  rw [Option.some.injEq] at hq
  exact ⟨q, by rw [hget, hq], hread⟩

/-- With a negative number the list is an empty array. -/
theorem document_negative (hids : ids.map Plain.text = maps.ids) (hnum : maps.num < 0)
    (hlen : (requestDocument c token tokenType maps.num ids).text.length < jsonStrSize) :
    ∃ st, ToolJson.parse (requestDocument c token tokenType maps.num ids).text = .ok (-1, st) := by
  have hnil : ids = [] := by
    have hcount := congrArg List.length hids
    rw [List.length_map, maps.count] at hcount
    exact List.eq_nil_of_length_eq_zero (by omega)
  have hentry : mapsEntry maps.num ids = .array (mapsArray []) := by
    rw [hnil]
    exact if_neg (by omega)
  have hentries : (requestDocument c token tokenType maps.num ids).entries =
      (requestDocument c token tokenType maps.num ids).entries.take 3 ++ [.array (mapsArray [])] := by
    rw [requestDocument, hentry]
    rfl
  have hgood : ∀ e ∈ (requestDocument c token tokenType maps.num ids).entries.take 3, e.Full ∧ e.Tight := by
    simp only [requestDocument, List.take_succ_cons, List.take_zero, List.forall_mem_cons]
    exact ⟨⟨trivial, rfl⟩, ⟨trivial, rfl⟩, ⟨trivial, rfl⟩, List.forall_mem_nil _⟩
  exact JsonDocument.document_emptyArray hlen hentries hgood rfl

/-- Else token and ids are found. -/
theorem document_found (hids : ids.map Plain.text = maps.ids) (hnum : 0 ≤ maps.num)
    (hlen : (requestDocument c token tokenType maps.num ids).text.length < jsonStrSize) :
    ∃ st, ToolJson.parse (requestDocument c token tokenType maps.num ids).text = .ok (0, st) ∧
      (∃ q, st.getValue (ascii "token") = some (some q) ∧ st.deref q = token.text) ∧
      ∀ i : ℕ, (st.getValueV2 (ascii "device_map") i (ascii "dev_id")).map (Option.map st.deref) = some maps.ids[i]? := by
  have hfine : ∀ e ∈ (requestDocument c token tokenType maps.num ids).entries, e.Full ∧ e.Tight := by
    simp only [requestDocument, List.forall_mem_cons]
    exact ⟨⟨trivial, rfl⟩, ⟨trivial, rfl⟩, ⟨trivial, rfl⟩, mapsEntry_fine hids hnum, List.forall_mem_nil _⟩
  obtain ⟨st, hp, hs, hitems⟩ := JsonDocument.document_reads hlen (List.cons_ne_nil _ _) hfine
  refine ⟨st, hp, found_token hs hitems, fun i => ?_⟩
  have hreturns := returns_id hids hs hitems i
  rw [← hids, List.getElem?_map]
  cases hi : ids[i]? with
  | none =>
    rw [hi] at hreturns
    exact congrArg (Option.map (Option.map st.deref)) hreturns
  | some id =>
    rw [hi] at hreturns
    obtain ⟨q, hq, hread⟩ := hreturns
    rw [hq]
    exact congrArg (some ∘ some) hread

end

/-- The body of a request that fits is read as it was meant if and only if it fits the parser too and the number of maps is not
negative. -/
theorem yields_iff {c : MapsCall} {token : List UInt8} {tokenType : ℤ} {maps : DeviceMaps} (hc : c.Accepts maps)
    (hzero : 0 ∉ token) (hquote : 34 ∉ token) (hids : ∀ id ∈ maps.ids, 34 ∉ id)
    (hfit : (c.text token tokenType maps).length < bodySize) :
    Yields (c.request token tokenType maps) token maps.ids ↔
      (c.text token tokenType maps).length < jsonStrSize ∧ 0 ≤ maps.num := by
  obtain ⟨ids, hplains⟩ := exists_plains (fun id hid => (maps.terminated id hid).1) hids
  have htext : (requestDocument c ⟨token, hquote, hzero⟩ tokenType maps.num ids).text = c.text token tokenType maps :=
    requestDocument_text hplains
  have hvalue := request_value hc hfit
  rw [← htext] at hvalue ⊢
  constructor
  · rintro ⟨b, st, hb, hp, -⟩
    rw [hvalue] at hb
    cases hb
    rw [counted_text] at hp
    have hlen := JsonDocument.length_lt_of_parse hp
    refine ⟨hlen, ?_⟩
    by_contra hneg
    obtain ⟨st', hp'⟩ := document_negative hplains (Int.not_le.mp hneg) hlen
    rw [hp] at hp'
    cases hp'
  · rintro ⟨hlen, hnum⟩
    obtain ⟨st, hp, hfound⟩ := document_found hplains hnum hlen
    exact ⟨_, st, hvalue, hp, hfound⟩

/-- **Requests with device maps.** The writes stay inside of the body and its bytes are counted if and only if the text has a byte
less than the body at most. Without quotes such a body is read as it was meant if and only if it fits the parser and the number
of maps, which only one of the calls checks, is not negative. -/
theorem requests_iff (c : MapsCall) (token : List UInt8) (tokenType : ℤ) (maps : DeviceMaps) (hc : c.Accepts maps)
    (hzero : 0 ∉ token) :
    (Built (c.request token tokenType maps) ↔ requestLength token tokenType maps < bodySize) ∧
      (34 ∉ token → (∀ id ∈ maps.ids, 34 ∉ id) → requestLength token tokenType maps < bodySize →
        (Yields (c.request token tokenType maps) token maps.ids ↔
          requestLength token tokenType maps < jsonStrSize ∧ 0 ≤ maps.num)) := by
  rw [← text_length c]
  exact ⟨built_iff hc, fun hquote hids hfit => yields_iff hc hzero hquote hids hfit⟩

/-- One device with the id `D`. -/
def oneMap : DeviceMaps := ⟨1, [ascii "D"], rfl, by decide⟩

def noMaps (num : ℤ) (h : num ≤ 0) : DeviceMaps := ⟨num, [], by rw [Int.toNat_of_nonpos h]; rfl, nofun⟩

theorem requests_one : Built (MapsCall.add.request (ascii "T") 1000 oneMap) ∧
    Yields (MapsCall.add.request (ascii "T") 1000 oneMap) (ascii "T") [ascii "D"] := by
  have hlen : requestLength (ascii "T") 1000 oneMap < jsonStrSize := by decide
  have hfit : requestLength (ascii "T") 1000 oneMap < bodySize := Nat.lt_trans hlen (by decide)
  have hiff := requests_iff .add (ascii "T") 1000 oneMap (by decide) (by decide)
  exact ⟨hiff.1.mpr hfit, (hiff.2 (by decide) (by decide) hfit).mpr ⟨hlen, by decide⟩⟩

/-- A token of 10240 bytes, and a list of -1 maps. -/
theorem requests_broken :
    (¬ ∀ (c : MapsCall) (token : List UInt8) (tokenType : ℤ) (maps : DeviceMaps), c.Accepts maps → 0 ∉ token →
      Built (c.request token tokenType maps)) ∧
    ¬ ∀ (c : MapsCall) (token : List UInt8) (tokenType : ℤ) (maps : DeviceMaps), c.Accepts maps → 0 ∉ token → 34 ∉ token →
      (∀ id ∈ maps.ids, 34 ∉ id) → requestLength token tokenType maps < jsonStrSize →
      Yields (c.request token tokenType maps) token maps.ids := by
  constructor
  · intro h
    have hzero : 0 ∉ List.replicate 10240 (97 : UInt8) := fun hm => absurd (List.eq_of_mem_replicate hm) (by decide)
    have hbuilt := h .set (List.replicate 10240 97) 0 (noMaps 0 (by decide)) (by decide) hzero
    rw [built_iff (by decide), text_length, requestLength, List.length_replicate] at hbuilt
    have hsize : bodySize = 10240 := rfl
    omega
  · intro h
    have hlen : requestLength (ascii "T") 0 (noMaps (-1) (by decide)) < jsonStrSize := by decide
    have hfit : (MapsCall.set.text (ascii "T") 0 (noMaps (-1) (by decide))).length < bodySize := by
      rw [text_length]
      exact Nat.lt_trans hlen (by decide)
    have hyields := h .set (ascii "T") 0 (noMaps (-1) (by decide)) (by decide) (by decide) (by decide) (by decide) hlen
    exact absurd ((yields_iff (by decide) (by decide) (by decide) (by decide) hfit).mp hyields).2 (by decide)

end Qpns

end SabApp
