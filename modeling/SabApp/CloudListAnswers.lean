import SabApp.Base64
import SabApp.CloudVerdicts
import SabApp.JsonArrays
import SabApp.QhLogs

/-!
# Answers with a device list

The answer to `/u/list.php` is an object with the account and one array, `dev_list`. `hdcctv_client2_doDevList` finds
each device in its place of the array, but its loop is as long as the table of alarms, and the rest of a longer list is
left out.
-/

namespace SabApp

open CText

namespace CloudHttp

/-- The value of the member of that name is a string. -/
def Texts (ms : List JsonMember) (name : String) (text : List UInt8) : Prop :=
  ∃ s, valueOf (ascii name) ms = some (.str s) ∧ s.text = text

/-- A device as the server keeps it. -/
structure ListedDevice where
  id : List UInt8
  name : List UInt8
  inIpv4 : List UInt8
  exIpv4 : List UInt8
  ports : List ℤ

/-- `%d;%d;%d;%d;%d` -/
def portText : List ℤ → List UInt8
  | [] => []
  | [p] => Decimal.decimal p
  | p :: q :: ps => Decimal.decimal p ++ 59 :: portText (q :: ps)

namespace ListedDevice

/-- The texts of the device fit the fields of `hdcctv_device_t`. -/
structure Fits (d : ListedDevice) : Prop where
  id : d.id.length < tokenSize
  name : d.name.length < idSize
  inIpv4 : d.inIpv4.length < ipSize
  exIpv4 : d.exIpv4.length < ipSize
  five : d.ports.length = 5
  ports : ∀ p ∈ d.ports, -2 ^ 31 ≤ p ∧ p < 2 ^ 31

/-- What the entry of the device holds. -/
def entry (d : ListedDevice) : Device := ⟨d.id, d.name ++ [0], d.inIpv4 ++ [0], d.exIpv4 ++ [0], d.ports⟩

end ListedDevice

def accountNames : List String := ["username", "number", "email", "user_ipv4"]

/-- The element of the array that describes a device. -/
structure Lists (e : JsonElement) (d : ListedDevice) : Prop where
  devId : Texts e.object.members "dev_id" d.id
  devName : Texts e.object.members "dev_name" (base64_encode d.name)
  inIpv4 : Texts e.object.members "in_ipv4" (base64_encode d.inIpv4)
  exIpv4 : Texts e.object.members "ex_ipv4" (base64_encode d.exIpv4)
  portName : ∃ text, Texts e.object.members "port_name" text
  portValue : Texts e.object.members "port_value" (portText d.ports)
  apart : ∀ m ∈ e.object.members, ∀ name ∈ "result" :: accountNames, m.name.text ≠ ascii name

def IsZero : JsonValue → Prop
  | .str s => s.text = ascii "0"
  | .num x => x.text = ascii "0"
  | .null => False

/-- An answer with the account and these devices. -/
structure ListAnswer (t : JsonDocument) (ds : List ListedDevice) : Prop where
  array : ∃ x, t.arrays = [x] ∧ x.name.text = ascii "dev_list" ∧ List.Forall₂ Lists x.elements ds
  result : ∃ v, valueOf (ascii "result") t.members = some v ∧ IsZero v
  username : ∃ text, Texts t.members "username" text
  number : ∃ text, Texts t.members "number" text
  email : ∃ text, Texts t.members "email" text
  userIpv4 : ∃ bytes, bytes.length < ipSize ∧ Texts t.members "user_ipv4" (base64_encode bytes)

/-- The call reports success and has these devices in its list. -/
def Listed (user : CloudUser) (http : ToolHttp) (ds : List ListedDevice) : Prop :=
  ∃ user', hdcctv_client2_doDevList user (.received http) = .ok (0, user', ds.map ListedDevice.entry)

/-! ## Ports -/

theorem scanPorts_portText : ∀ {ports : List ℤ}, (∀ p ∈ ports, -2 ^ 31 ≤ p ∧ p < 2 ^ 31) →
    scanPorts ports.length (portText ports) = ports
  | [], _ => rfl
  | [p], h => by
    obtain ⟨hlo, hhi⟩ := h p (.head _)
    have := Qh.scanInt_decimal hlo hhi (t := []) nofun
    rw [List.append_nil] at this
    simp [scanPorts, portText, this]
  | p :: q :: ps, h => by
    obtain ⟨hlo, hhi⟩ := h p (.head _)
    have hfirst : scanInt (Decimal.decimal p ++ 59 :: portText (q :: ps)) = some (p, 59 :: portText (q :: ps)) := by
      refine Qh.scanInt_decimal hlo hhi ?_
      rintro c u ⟨⟩
      rfl
    rw [List.length_cons, portText, scanPorts, hfirst]
    exact congrArg (p :: ·) (scanPorts_portText fun r hr => h r (.tail _ hr))

/-! ## What a pointer reads -/

section
variable {st : ToolJson}

/-- The text at the pointer, and the memory there. -/
def TextAt (st : ToolJson) (q : JsonPtr) (text : List UInt8) : Prop :=
  st.deref q = text ∧ ∃ t, memory st q = text ++ 0 :: t

theorem textAt_of_points {q : JsonPtr} {s : Plain} (h : ToolJson.Points st.seen (some q) s.text) : TextAt st q s.text := by
  refine ⟨by simpa using ToolJson.deref_of_points h s.no_zero, ?_⟩
  rcases h with he | ⟨off, he, x, y, hseen, rfl⟩
  · cases he
    exact ⟨[], rfl⟩
  · cases he
    obtain ⟨t, ht⟩ := st.seen_prefix
    have htext : st.past ++ st.rest = x ++ (s.text ++ 0 :: (y ++ t)) := by rw [← ht, hseen]; simp
    exact ⟨_, by rw [memory, htext, List.append_assoc, List.drop_left, List.append_assoc, List.cons_append]⟩

theorem decodeInto_textAt {q : JsonPtr} {bytes : List UInt8} {size : ℕ} (h : TextAt st q (base64_encode bytes))
    (hlen : bytes.length < size) : decodeInto st size q = .ok (bytes ++ [0]) := by
  obtain ⟨-, t, ht⟩ := h
  have hle : (bytes ++ [0]).length ≤ size := by
    rw [List.length_append, List.length_singleton]
    exact hlen
  simp only [decodeInto, ht, base64_decode_encode, hle, ↓reduceIte]

theorem value_of_itemIs {it : JsonItem} {l : JsonLeaf} {s : Plain} (h : ToolJson.ItemIs st.seen it l)
    (hl : l.value = .str s) : ∃ q, it.value = some q ∧ TextAt st q s.text := by
  have hv := h.value
  rw [hl] at hv
  obtain ⟨q, hq, -⟩ := Option.map_eq_some_iff.mp (ToolJson.deref_of_points hv.2 s.no_zero)
  exact ⟨q, hq, textAt_of_points (hq ▸ hv.2)⟩

/-! ## Lookups -/

variable {n : ℕ} {ls : List JsonLeaf}

theorem getValueV2_found {array name : List UInt8} {j : ℤ} {s : Plain} (hs : ToolJson.Sound n st)
    (h : List.Forall₂ (ToolJson.ItemIs st.seen) st.item ls)
    (hfind : (ls.find? (ToolJson.isLeaf array j name)).map JsonLeaf.value = some (.str s)) :
    ∃ q, st.getValueV2 array j name = some (some q) ∧ TextAt st q s.text := by
  obtain ⟨l, hl, hv⟩ := Option.map_eq_some_iff.mp hfind
  rw [ToolJson.getValueV2, ToolJson.getValueV2Loop_find st array j name hs.named]
  rcases ToolJson.find?_forall₂ h (fun it l hit => hit.key array j name) with ⟨-, hnone⟩ | ⟨it, l', hi, hl', hit⟩
  · rw [hl] at hnone
    cases hnone
  · rw [hl] at hl'
    cases hl'
    obtain ⟨q, hq, htext⟩ := value_of_itemIs hit hv
    exact ⟨q, by rw [hi, Option.bind_some, hq], htext⟩

/-- The lookup of `tool_json_getValue` is the search for the name through all leaves. -/
theorem getValue_leaves {name : List UInt8} (hs : ToolJson.Sound n st)
    (h : List.Forall₂ (ToolJson.ItemIs st.seen) st.item ls) {v : JsonValue}
    (hfind : (ls.find? fun l => l.name.text = name).map JsonLeaf.value = some v) :
    ∃ it l, st.getValue name = some it.value ∧ ToolJson.ItemIs st.seen it l ∧ l.value = v := by
  obtain ⟨l, hl, hv⟩ := Option.map_eq_some_iff.mp hfind
  have hkey : ∀ it l, ToolJson.ItemIs st.seen it l →
      decide (it.name.map st.deref = some name) = decide (l.name.text = name) := by
    intro it l hit
    rw [ToolJson.deref_of_points hit.name l.name.no_zero]
    simp
  rw [ToolJson.getValue, ToolJson.getValueLoop_find st name fun it hit => (hs.named it hit).1]
  rcases ToolJson.find?_forall₂ h hkey with ⟨-, hnone⟩ | ⟨it, l', hi, hl', hit⟩
  · rw [hl] at hnone
    cases hnone
  · rw [hl] at hl'
    cases hl'
    exact ⟨it, l, by rw [hi, Option.bind_some], hit, hv⟩

end

theorem name_of_leavesFrom {a : Plain} {l : JsonLeaf} : ∀ {i : ℕ} {es : List JsonElement}, l ∈ JsonArray.leavesFrom a i es →
    ∃ e ∈ es, ∃ m ∈ e.object.members, l.name = m.name
  | _, [], h => by cases h
  | i, e :: es, h => by
    rw [JsonArray.leavesFrom, List.mem_append] at h
    rcases h with h | h
    · obtain ⟨m, hm, rfl⟩ := List.mem_map.mp h
      exact ⟨e, .head _, m, hm, rfl⟩
    · obtain ⟨e', he, m, hm, hname⟩ := name_of_leavesFrom h
      exact ⟨e', .tail _ he, m, hm, hname⟩

theorem named_find {es : List JsonEntry} {name : List UInt8} (harray : ∀ x ∈ es.filterMap JsonEntry.array?,
    ∀ e ∈ x.elements, ∀ m ∈ e.object.members, m.name.text ≠ name) :
    ((es.flatMap JsonEntry.leaves).find? fun l => l.name.text = name).map JsonLeaf.value =
      valueOf name (es.filterMap JsonEntry.member?) := by
  induction es with
  | nil => rfl
  | cons e es ih =>
    rw [List.flatMap_cons, List.find?_append, Option.map_or]
    cases e with
    | leaf m =>
      rw [ih harray]
      by_cases hm : m.name.text = name
      · simp [JsonEntry.leaves, valueOf, JsonEntry.member?, hm]
      · simp [JsonEntry.leaves, valueOf, JsonEntry.member?, hm]
    | array x =>
      simp only [List.filterMap_cons, JsonEntry.array?, List.forall_mem_cons] at harray
      have hnone : ((JsonEntry.array x).leaves.find? fun l => l.name.text = name) = none := by
        rw [List.find?_eq_none]
        intro l hl
        obtain ⟨e, he, m, hm, hname⟩ := name_of_leavesFrom hl
        simpa [hname] using harray.1 e he m hm
      rw [ih harray.2, hnone, List.filterMap_cons]
      rfl

/-! ## What the parser makes of an answer -/

section
variable {t : JsonDocument} {ds : List ListedDevice} {st : ToolJson}

theorem Texts.nonempty {ms : List JsonMember} {name : String} {text : List UInt8} (h : Texts ms name text) : ms ≠ [] := by
  rintro rfl
  obtain ⟨s, hs, -⟩ := h
  cases hs

theorem forall₂_exists_right {α β : Type} {R : α → β → Prop} {xs : List α} {ys : List β} (h : List.Forall₂ R xs ys) :
    ∀ x ∈ xs, ∃ y, R x y := by
  induction h with
  | nil => exact nofun
  | cons hxy _ ih => exact List.forall_mem_cons.mpr ⟨⟨_, hxy⟩, ih⟩

theorem full_of_array {x : JsonArray} (hx : t.arrays = [x]) (hne : x.elements ≠ []) (hall : ∀ e ∈ x.elements, e.Full) :
    t.Full := by
  intro e he
  cases e with
  | leaf m => trivial
  | array y =>
    have hy : y ∈ t.arrays := List.mem_filterMap.mpr ⟨_, he, rfl⟩
    rw [hx, List.mem_singleton] at hy
    subst hy
    exact ⟨hne, hall⟩

theorem forall₂_ne_nil {α β : Type} {R : α → β → Prop} {xs : List α} {ys : List β} (h : List.Forall₂ R xs ys) (hne : ys ≠ []) :
    xs ≠ [] := by
  rintro rfl
  cases h
  exact hne rfl

theorem ListAnswer.full (h : ListAnswer t ds) (hne : ds ≠ []) : t.Full := by
  obtain ⟨x, hx, -, hlists⟩ := h.array
  refine full_of_array hx (forall₂_ne_nil hlists hne) fun e he => ?_
  obtain ⟨d, hd⟩ := forall₂_exists_right hlists e he
  exact hd.devId.nonempty

/-- An object without empty arrays and elements that is accepted was read as it is written. -/
theorem reads_of_full (hfull : t.Full) (hp : ToolJson.parse t.text = .ok (0, st)) :
    ToolJson.Sound t.text.length st ∧ List.Forall₂ (ToolJson.ItemIs st.seen) st.item (t.entries.flatMap JsonEntry.leaves) := by
  have hlen := JsonDocument.length_lt_of_parse hp
  have hrefused : ∀ {st'}, ToolJson.parse t.text ≠ .ok (-1, st') := by
    intro st' hp'
    rw [hp] at hp'
    cases hp'
  have htight : ∀ e ∈ t.entries, e.Tight := by
    by_contra hno
    simp only [not_forall] at hno
    obtain ⟨e, he, hbad⟩ := hno
    obtain ⟨st', hp'⟩ := JsonDocument.document_fails hlen (JsonDocument.refused_of_full hfull ⟨e, he, hbad⟩)
    exact hrefused hp'
  have hentries : t.entries ≠ [] := by
    intro hnil
    obtain ⟨st', hp'⟩ := JsonDocument.document_empty hlen hnil
    exact hrefused hp'
  obtain ⟨st', hp', hread⟩ := JsonDocument.document_reads hlen hentries fun e he => ⟨hfull e he, htight e he⟩
  rw [hp] at hp'
  cases hp'
  exact hread

theorem ListAnswer.reads (h : ListAnswer t ds) (hne : ds ≠ []) (hp : ToolJson.parse t.text = .ok (0, st)) :
    ToolJson.Sound t.text.length st ∧ List.Forall₂ (ToolJson.ItemIs st.seen) st.item (t.entries.flatMap JsonEntry.leaves) :=
  reads_of_full (h.full hne) hp

variable {x : JsonArray} (hx : t.arrays = [x])
include hx

theorem find_row (hroot : x.name.text ≠ ToolJson.rootArrayName) (i : ℕ) (name : List UInt8) :
    ((t.entries.flatMap JsonEntry.leaves).find? (ToolJson.isLeaf x.name.text i name)).map JsonLeaf.value =
      x.valueAt i name := by
  have hmem : x ∈ t.entries.filterMap JsonEntry.array? := by
    rw [← JsonDocument.arrays, hx]
    exact .head _
  refine find_array hmem ?_ hroot
  rw [← JsonDocument.arrays, hx]
  simp

variable (hs : ToolJson.Sound t.text.length st)
  (hitems : List.Forall₂ (ToolJson.ItemIs st.seen) st.item (t.entries.flatMap JsonEntry.leaves))
include hs hitems

/-- A lookup in the only array reads the value in that place. -/
theorem returns_row {array : String} (hname : x.name.text = ascii array) (hroot : ascii array ≠ ToolJson.rootArrayName)
    (i : ℕ) (name : List UInt8) : st.Returns (st.getValueV2 (ascii array) i name) (x.valueAt i name) := by
  have hreturns := ToolJson.getValueV2_leaves hs hitems x.name.text i name
  rwa [find_row hx (hname ▸ hroot), hname] at hreturns

variable (hname : x.name.text = ascii "dev_list")
include hname

theorem lookup_row {i : ℕ} {e : JsonElement} {name : String} {text : List UInt8} (he : x.elements[i]? = some e)
    (ht : Texts e.object.members name text) :
    ∃ q, lookupV2 st "dev_list" i name = .ok (some q) ∧ TextAt st q text := by
  obtain ⟨s, hvalue, rfl⟩ := ht
  have hat : x.valueAt i (ascii name) = some (.str s) := by simp [JsonArray.valueAt, he, hvalue]
  have hfind := (find_row hx (hname ▸ by decide) i (ascii name)).trans hat
  rw [hname] at hfind
  obtain ⟨q, hq, htext⟩ := getValueV2_found hs hitems hfind
  exact ⟨q, by rw [lookupV2, hq], htext⟩

/-- A device is read in its place. -/
theorem row_listed {i : ℕ} {e : JsonElement} {d : ListedDevice} (he : x.elements[i]? = some e) (hd : Lists e d)
    (hfits : d.Fits) : deviceRow st i = .ok (some d.entry) := by
  obtain ⟨text, hportName⟩ := hd.portName
  obtain ⟨q₁, h₁, hid, -⟩ := lookup_row hx hs hitems hname he hd.devId
  obtain ⟨q₂, h₂, hdevName⟩ := lookup_row hx hs hitems hname he hd.devName
  obtain ⟨q₃, h₃, hin⟩ := lookup_row hx hs hitems hname he hd.inIpv4
  obtain ⟨q₄, h₄, hex⟩ := lookup_row hx hs hitems hname he hd.exIpv4
  obtain ⟨q₅, h₅, -⟩ := lookup_row hx hs hitems hname he hportName
  obtain ⟨q₆, h₆, hports, -⟩ := lookup_row hx hs hitems hname he hd.portValue
  have hscan := scanPorts_portText hfits.ports
  rw [hfits.five] at hscan
  have hcopy : d.id.take (tokenSize - 1) = d.id := List.take_of_length_le (Nat.le_sub_one_of_lt hfits.id)
  simp only [deviceRow, h₁, h₂, h₃, h₄, h₅, h₆, ToolJson.ok_bind, decodeInto_textAt hdevName hfits.name,
    decodeInto_textAt hin hfits.inIpv4, decodeInto_textAt hex hfits.exIpv4, hid, hcopy, hports, hscan,
    ListedDevice.entry]

/-- Behind the last device nothing is found. -/
theorem row_end {i : ℕ} (hi : x.elements[i]? = none) : deviceRow st i = .ok none := by
  apply deviceRow_incomplete hs.named
  intro hc
  obtain ⟨p, hp⟩ := hc "dev_id" (by simp)
  have hreturns := returns_row hx hs hitems hname (by decide) i (ascii "dev_id")
  have hat : x.valueAt i (ascii "dev_id") = none := by simp [JsonArray.valueAt, hi]
  rw [hat] at hreturns
  have hnone : st.getValueV2 (ascii "dev_list") i (ascii "dev_id") = some none := hreturns
  rw [hnone] at hp
  cases hp

end

/-! ## The call -/

theorem tableLoop_rows {β : Type} {row : ℕ → Except CloudFault (Option β)} {bs : List β} : ∀ {i : ℕ},
    (∀ j (hj : j < bs.length), row (i + j) = .ok (some bs[j])) → row (i + bs.length) = .ok none →
    ∀ k, tableLoop row k i = .ok (bs.take k) := by
  induction bs with
  | nil =>
    intro i _ hend k
    cases k with
    | zero => rfl
    | succ k =>
      have hi : row i = .ok none := hend
      rw [tableLoop, hi, ToolJson.ok_bind]
      rfl
  | cons b bs ih =>
    intro i hrows hend k
    cases k with
    | zero => rfl
    | succ k =>
      have hi : row i = .ok (some b) := hrows 0 (Nat.succ_pos _)
      have hrest : tableLoop row k (i + 1) = .ok (bs.take k) := by
        refine ih (fun j hj => ?_) ?_ k
        · have := hrows (j + 1) (Nat.succ_lt_succ hj)
          rwa [Nat.add_right_comm i 1 j]
        · rw [List.length_cons] at hend
          rwa [Nat.add_right_comm i 1 bs.length]
      rw [tableLoop, hi, ToolJson.ok_bind]
      simp only [hrest]
      rfl

section
variable {t : JsonDocument} {ds : List ListedDevice} {st : ToolJson} {http : ToolHttp} {user : CloudUser}

/-- A root member that no element of the only array has too is found by its name. -/
theorem find_apart {x : JsonArray} (hx : t.arrays = [x]) {name : List UInt8}
    (hapart : ∀ e ∈ x.elements, ∀ m ∈ e.object.members, m.name.text ≠ name) :
    ((t.entries.flatMap JsonEntry.leaves).find? fun l => l.name.text = name).map JsonLeaf.value = valueOf name t.members := by
  apply named_find
  intro y hy
  rw [← JsonDocument.arrays, hx, List.mem_singleton] at hy
  subst hy
  exact hapart

theorem ListAnswer.find_account (h : ListAnswer t ds) {name : String} (hname : name ∈ "result" :: accountNames) :
    ((t.entries.flatMap JsonEntry.leaves).find? fun l => l.name.text = ascii name).map JsonLeaf.value =
      valueOf (ascii name) t.members := by
  obtain ⟨x, hx, -, hlists⟩ := h.array
  refine find_apart hx fun e he m hm => ?_
  obtain ⟨d, hd⟩ := forall₂_exists_right hlists e he
  exact hd.apart m hm name hname

/-- A text of the account is found behind whatever else the answer holds. -/
theorem ListAnswer.lookup_account (h : ListAnswer t ds) (hs : ToolJson.Sound t.text.length st)
    (hitems : List.Forall₂ (ToolJson.ItemIs st.seen) st.item (t.entries.flatMap JsonEntry.leaves)) {name : String}
    (hname : name ∈ "result" :: accountNames) {text : List UInt8} (ht : Texts t.members name text) :
    ∃ q, lookup st name = .ok (some q) ∧ TextAt st q text := by
  obtain ⟨s, hvalue, rfl⟩ := ht
  obtain ⟨it, l, hget, hit, hl⟩ := getValue_leaves hs hitems ((h.find_account hname).trans hvalue)
  obtain ⟨q, hq, htext⟩ := value_of_itemIs hit hl
  exact ⟨q, by rw [lookup, hget, hq], htext⟩

theorem result_zero_of_find (hs : ToolJson.Sound t.text.length st)
    (hitems : List.Forall₂ (ToolJson.ItemIs st.seen) st.item (t.entries.flatMap JsonEntry.leaves)) {v : JsonValue}
    (hv : ((t.entries.flatMap JsonEntry.leaves).find? fun l => l.name.text = ascii "result").map JsonLeaf.value = some v)
    (hzero : IsZero v) : ∃ q, lookup st "result" = .ok (some q) ∧ (st.deref q).head? = some 48 := by
  obtain ⟨it, l, hget, hit, hl⟩ := getValue_leaves hs hitems hv
  have hreturns := hit.returns
  rw [hl] at hreturns
  cases v with
  | str s =>
    obtain ⟨q, hq, hread⟩ := hreturns
    rw [Option.some.injEq] at hq
    have hs : s.text = ascii "0" := hzero
    have hderef : st.deref q = s.text := hread
    exact ⟨q, by rw [lookup, hget, hq], by rw [hderef, hs]; rfl⟩
  | num x =>
    obtain ⟨q, hq, c, u, hderef, -⟩ := hreturns
    rw [Option.some.injEq] at hq
    have hx : x.text = ascii "0" := hzero
    exact ⟨q, by rw [lookup, hget, hq], by rw [hderef, hx]; rfl⟩
  | null => cases hzero

theorem ListAnswer.result_zero (h : ListAnswer t ds) (hs : ToolJson.Sound t.text.length st)
    (hitems : List.Forall₂ (ToolJson.ItemIs st.seen) st.item (t.entries.flatMap JsonEntry.leaves)) :
    ∃ q, lookup st "result" = .ok (some q) ∧ (st.deref q).head? = some 48 := by
  obtain ⟨v, hv, hzero⟩ := h.result
  exact result_zero_of_find hs hitems ((h.find_account (by simp)).trans hv) hzero

theorem getValue_of_lookup {name : String} {p : Option JsonPtr} (h : lookup st name = .ok p) :
    st.getValue (ascii name) = some p := by
  rw [lookup] at h
  split at h
  · cases h
  · next hq =>
    cases h
    exact hq

theorem ListAnswer.has_account (h : ListAnswer t ds) (hs : ToolJson.Sound t.text.length st)
    (hitems : List.Forall₂ (ToolJson.ItemIs st.seen) st.item (t.entries.flatMap JsonEntry.leaves)) :
    ∀ name ∈ accountNames, Has st name := by
  have hhas : ∀ {name : String} {text : List UInt8}, name ∈ "result" :: accountNames → Texts t.members name text →
      Has st name := by
    intro name text hname ht
    obtain ⟨q, hq, -⟩ := h.lookup_account hs hitems hname ht
    exact ⟨q, getValue_of_lookup hq⟩
  obtain ⟨text₁, h₁⟩ := h.username
  obtain ⟨text₂, h₂⟩ := h.number
  obtain ⟨text₃, h₃⟩ := h.email
  obtain ⟨bytes, -, h₄⟩ := h.userIpv4
  simp only [accountNames, List.forall_mem_cons]
  exact ⟨hhas (by simp [accountNames]) h₁, hhas (by simp [accountNames]) h₂, hhas (by simp [accountNames]) h₃,
    hhas (by simp [accountNames]) h₄, nofun⟩

/-- The entries are the devices, as many as there are rounds of the loop. -/
theorem ListAnswer.devList_eq (h : ListAnswer t ds) (hfits : ∀ d ∈ ds, d.Fits) (hs : ToolJson.Sound t.text.length st)
    (hitems : List.Forall₂ (ToolJson.ItemIs st.seen) st.item (t.entries.flatMap JsonEntry.leaves)) (user : CloudUser) :
    ∃ user', devList user st = .ok (0, user', (ds.map ListedDevice.entry).take alarmNum) := by
  obtain ⟨x, hx, hname, hlists⟩ := h.array
  obtain ⟨text₁, h₁⟩ := h.username
  obtain ⟨text₂, h₂⟩ := h.number
  obtain ⟨text₃, h₃⟩ := h.email
  obtain ⟨bytes, hlen, h₄⟩ := h.userIpv4
  obtain ⟨q₁, hq₁, -⟩ := h.lookup_account hs hitems (by simp [accountNames]) h₁
  obtain ⟨q₂, hq₂, -⟩ := h.lookup_account hs hitems (by simp [accountNames]) h₂
  obtain ⟨q₃, hq₃, -⟩ := h.lookup_account hs hitems (by simp [accountNames]) h₃
  obtain ⟨q₄, hq₄, ht₄⟩ := h.lookup_account hs hitems (by simp [accountNames]) h₄
  have hlength := hlists.length_eq
  have hloop : tableLoop (deviceRow st) alarmNum 0 = .ok ((ds.map ListedDevice.entry).take alarmNum) := by
    apply tableLoop_rows
    · intro j hj
      rw [List.length_map] at hj
      rw [Nat.zero_add, List.getElem_map]
      have hj' : j < x.elements.length := hlength ▸ hj
      exact row_listed hx hs hitems hname (List.getElem?_eq_getElem hj') (hlists.get hj' hj)
        (hfits _ (List.getElem_mem hj))
    · rw [Nat.zero_add, List.length_map]
      exact row_end hx hs hitems hname (List.getElem?_eq_none (Nat.le_of_eq hlength))
  exact ⟨⟨(st.deref q₁).take (strSize - 1), (st.deref q₂).take (strSize - 1), (st.deref q₃).take (strSize - 1), bytes ++ [0]⟩,
    by simp only [devList, hq₁, hq₂, hq₃, hq₄, ToolJson.ok_bind, decodeInto_textAt ht₄ hlen, hloop]⟩

/-- An answer with the status and a result that pass is read on. -/
theorem exchange_parsed {α : Type} {out : α} {refused : List UInt8 → ℤ} {rest : ToolJson → Except CloudFault (ℤ × α)}
    (hcmd : Begins2 http) (hp : ToolJson.parse http.body = .ok (0, st)) {q : JsonPtr} (hq : lookup st "result" = .ok (some q))
    (hzero : (st.deref q).head? = some 48) : exchange out (parsed out refused rest) (.received http) = rest st := by
  have hstatus : strncmp (cstr http.command) (ascii "200") (decide ((ascii "200").length ≠ 0)).toNat = 0 :=
    (strncmp_one (by decide)).mpr hcmd
  have hresult : strncmp (st.deref q) (ascii "0") 1 = 0 := (strncmp_one (by decide)).mpr hzero
  rw [exchange, if_neg (not_not.mpr hstatus), parsed, hp]
  simp [Except.mapError, ToolJson.ok_bind, hq, hresult]

theorem doDevList_parsed (hcmd : Begins2 http) (hp : ToolJson.parse http.body = .ok (0, st)) {q : JsonPtr}
    (hq : lookup st "result" = .ok (some q)) (hzero : (st.deref q).head? = some 48) :
    hdcctv_client2_doDevList user (.received http) = devList user st := exchange_parsed hcmd hp hq hzero

theorem parse_cstr {s u : List UInt8} (h : cstr s = u) (hu : 0 ∉ u) : ToolJson.parse s = ToolJson.parse u := by
  rw [ToolJson.parse, h, ToolJson.parse, cstr_of_not_mem hu]

/-- A list that is not empty comes back whole if and only if the loop has a round for each device. -/
theorem ListAnswer.listed_iff (h : ListAnswer t ds) (hfits : ∀ d ∈ ds, d.Fits) (hne : ds ≠ []) (hcmd : Begins2 http)
    (hbody : cstr http.body = t.text) (hp : ToolJson.parse http.body = .ok (0, st)) :
    Listed user http ds ↔ ds.length ≤ alarmNum := by
  have hp' : ToolJson.parse t.text = .ok (0, st) := parse_cstr hbody t.zero_not_mem ▸ hp
  obtain ⟨hs, hitems⟩ := h.reads hne hp'
  obtain ⟨q, hq, hzero⟩ := h.result_zero hs hitems
  obtain ⟨user', hrun⟩ := h.devList_eq hfits hs hitems user
  rw [Listed, doDevList_parsed hcmd hp hq hzero, hrun]
  constructor
  · rintro ⟨user', he⟩
    rw [Except.ok.injEq, Prod.mk.injEq, Prod.mk.injEq] at he
    have := List.length_take_le alarmNum (ds.map ListedDevice.entry)
    rwa [he.2.2, List.length_map] at this
  · intro hle
    exact ⟨user', by rw [List.take_of_length_le (by rwa [List.length_map])]⟩

/-! ## The empty list -/

/-- The account is there, its address fits, and no device is found in the first place. -/
structure Deviceless (st : ToolJson) : Prop where
  account : ∀ name ∈ accountNames, Has st name
  address : ∀ p, st.getValue (ascii "user_ipv4") = some (some p) → Decodes st ipSize p
  first : ¬ Complete st 0

theorem lookup_of_has {name : String} (h : Has st name) :
    ∃ q, st.getValue (ascii name) = some (some q) ∧ lookup st name = .ok (some q) := by
  obtain ⟨q, hq⟩ := h
  exact ⟨q, hq, by rw [lookup, hq]⟩

theorem Deviceless.devList_eq (h : Deviceless st) (hn : Named st) : ∃ user', devList user st = .ok (0, user', []) := by
  have haccount := h.account
  simp only [accountNames, List.forall_mem_cons] at haccount
  obtain ⟨h₁, h₂, h₃, h₄, -⟩ := haccount
  obtain ⟨q₁, -, hq₁⟩ := lookup_of_has h₁
  obtain ⟨q₂, -, hq₂⟩ := lookup_of_has h₂
  obtain ⟨q₃, -, hq₃⟩ := lookup_of_has h₃
  obtain ⟨q₄, hget, hq₄⟩ := lookup_of_has h₄
  obtain ⟨bytes, hbytes⟩ := decodeInto_ok (h.address q₄ hget)
  have hloop : tableLoop (deviceRow st) alarmNum 0 = .ok [] :=
    @tableLoop_rows _ _ [] 0 nofun (deviceRow_incomplete hn h.first) alarmNum
  exact ⟨⟨(st.deref q₁).take (strSize - 1), (st.deref q₂).take (strSize - 1), (st.deref q₃).take (strSize - 1), bytes⟩,
    by simp only [devList, hq₁, hq₂, hq₃, hq₄, ToolJson.ok_bind, hbytes, hloop]⟩

/-- A list that comes back empty had no first device. -/
theorem first_of_devList {user' : CloudUser} (hn : Named st) (h : devList user st = .ok (0, user', [])) :
    ¬ Complete st 0 := by
  intro hc
  obtain ⟨p₁, -, h₁⟩ := lookup_eq hn "username"
  obtain ⟨p₂, -, h₂⟩ := lookup_eq hn "number"
  obtain ⟨p₃, -, h₃⟩ := lookup_eq hn "email"
  obtain ⟨p₄, -, h₄⟩ := lookup_eq hn "user_ipv4"
  have hloop : tableLoop (deviceRow st) alarmNum 0 ≠ .ok [] := by
    rw [show alarmNum = 31 + 1 from rfl, tableLoop]
    rcases deviceRow_complete hc with ⟨-, d, hd⟩ | ⟨-, e, he⟩
    · rw [hd, ToolJson.ok_bind]
      cases tableLoop (deviceRow st) 31 (0 + 1) <;> simp [Except.map]
    · rw [he]
      intro hnil
      cases hnil
  simp only [devList, h₁, h₂, h₃, h₄, ToolJson.ok_bind] at h
  cases p₁ <;> cases p₂ <;> cases p₃ <;> cases p₄
  case some.some.some.some username number email ipv4 =>
    dsimp only at h
    cases hbytes : decodeInto st ipSize ipv4 with
    | error e =>
      rw [hbytes] at h
      cases h
    | ok bytes =>
      rw [hbytes, ToolJson.ok_bind] at h
      cases hrows : tableLoop (deviceRow st) alarmNum 0 with
      | error e =>
        rw [hrows] at h
        cases h
      | ok devices =>
        rw [hrows, ToolJson.ok_bind, Except.ok.injEq, Prod.mk.injEq, Prod.mk.injEq] at h
        rw [h.2.2] at hrows
        exact hloop hrows
  all_goals simp [errProtocol] at h

/-- The parser looks behind an empty list for its first device. What it makes of the text is a list without devices. -/
def ReadEmpty (http : ToolHttp) : Prop := ∀ st, ToolJson.parse http.body = .ok (0, st) → ReadsZero http st ∧ Deviceless st

theorem listed_nil_iff (hcmd : Begins2 http) (hp : ToolJson.parse http.body = .ok (0, st)) :
    Listed user http [] ↔ ReadEmpty http := by
  have hnamed := named_of_parse hp
  constructor
  · rintro ⟨user', hrun⟩ st' hp'
    rw [hp] at hp'
    cases hp'
    have hret : (CloudCall.doDevList user).ret (.received http) = .ok 0 := by rw [CloudCall.ret, hrun]; rfl
    obtain ⟨-, hfits, st', hreads, haccount⟩ := CloudCall.accepts_of_zero hret
    obtain ⟨hp', q, hget, hhead⟩ := id hreads
    rw [hp] at hp'
    cases hp'
    have hq : lookup st "result" = .ok (some q) := by rw [lookup, hget]
    rw [doDevList_parsed hcmd hp hq hhead] at hrun
    exact ⟨hreads, haccount, (hfits.2 st hreads haccount).1, first_of_devList hnamed hrun⟩
  · intro h
    obtain ⟨⟨-, q, hget, hhead⟩, hless⟩ := h st hp
    have hq : lookup st "result" = .ok (some q) := by rw [lookup, hget]
    rw [Listed, doDevList_parsed hcmd hp hq hhead]
    exact hless.devList_eq hnamed

/-- **Whole lists.** The devices of an answer come back, each in its place, if and only if the loop has a round for each. -/
theorem ListAnswer.whole_iff (h : ListAnswer t ds) (hfits : ∀ d ∈ ds, d.Fits) (hcmd : Begins2 http)
    (hbody : cstr http.body = t.text) (hp : ToolJson.parse http.body = .ok (0, st)) :
    Listed user http ds ↔ ds.length ≤ alarmNum ∧ (ds = [] → ReadEmpty http) := by
  by_cases hne : ds = []
  · subst hne
    simp [listed_nil_iff hcmd hp]
  · simp [h.listed_iff hfits hne hcmd hbody hp, hne]

end

end CloudHttp

end SabApp
