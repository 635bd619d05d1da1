import SabApp.CloudListAnswers
import SabApp.QpnsAlarms

/-!
# The fields of a push alarm

An alarm comes as a text of its own, which `hdcctv_client_qpns_doAlarm` reads, and in the array `alarm_map`, which
`hdcctv_client2_getAlarms` reads. The first takes the channel from the content, and the second leaves the content out.
-/

namespace SabApp

namespace Qpns

open CText CloudHttp

/-- An alarm as the server has it. -/
structure Notice where
  no : ℤ
  devId : List UInt8
  time : ℤ
  channel : ℤ
  type : ℤ
  content : List UInt8

/-- Texts and numbers fit the fields of `hdcctv_qpns_alarm_t`; the number is unsigned. -/
structure Notice.Fits (a : Notice) : Prop where
  no : 0 ≤ a.no ∧ a.no < 2 ^ 32
  devId : a.devId.length < Qpns.tokenSize
  time : -2 ^ 31 ≤ a.time ∧ a.time < 2 ^ 31
  channel : -2 ^ 31 ≤ a.channel ∧ a.channel < 2 ^ 31
  type : -2 ^ 31 ≤ a.type ∧ a.type < 2 ^ 31
  content : a.content.length < contentSize

/-- The value is that decimal integer, bare or in quotes. -/
def IsNumber (v : JsonValue) (n : ℤ) : Prop :=
  ∃ x : Numeral, x.Integral ∧ x.val = n ∧ (v = .num x ∨ ∃ s, v = .str s ∧ s.text = x.text)

def Numbers (ms : List JsonMember) (name : String) (n : ℤ) : Prop := ∃ v, valueOf (ascii name) ms = some v ∧ IsNumber v n

/-- The members of an object that describe an alarm, in any order and among any others. -/
structure Describes (ms : List JsonMember) (a : Notice) : Prop where
  devId : Texts ms "dev_id" a.devId
  time : Numbers ms "time" a.time
  channel : Numbers ms "channel" a.channel
  type : Numbers ms "type" a.type
  content : Texts ms "content" a.content

/-- The element of the array that describes an alarm. -/
structure Entry (e : JsonElement) (a : Notice) : Prop extends Describes e.object.members a where
  no : Numbers e.object.members "no" a.no
  apart : ∀ m ∈ e.object.members, m.name.text ≠ ascii "result"

/-- An answer with these alarms. -/
structure AlarmAnswer (t : JsonDocument) (as : List Notice) : Prop where
  array : ∃ x, t.arrays = [x] ∧ x.name.text = ascii "alarm_map" ∧ List.Forall₂ Entry x.elements as
  result : ∃ v, valueOf (ascii "result") t.members = some v ∧ IsZero v

/-- The alarm that the callback should get. -/
def Notice.alarm (a : Notice) : Qpns.Alarm := ⟨a.devId, a.time, a.channel, a.type, a.content⟩

/-- `hdcctv_client_qpns_doAlarm` hands this alarm to the callback. -/
def HandsOver (q : Client) (data : List UInt8) (a : Notice) : Prop :=
  q.doAlarm data = .ok { q with shown := q.shown ++ [a.alarm] }

/-- A structure of `hdcctv_client2_getAlarms`, whose content is cleared. -/
def cleared (r : CloudHttp.Alarm) : Notice := ⟨r.no, r.devId, r.time, r.channel, r.type, []⟩

/-- `hdcctv_client2_getAlarms` returns 0 with these alarms. -/
def Gets (http : ToolHttp) (as : List Notice) : Prop :=
  (hdcctv_client2_getAlarms (.received http)).map (fun r => (r.1, r.2.map cleared)) = .ok (0, as)

/-- The names that an alarm of the list is read from. -/
def rowNames : List String := ["no", "dev_id", "time", "channel", "type"]

/-- Behind the brackets of an empty list the parser looks for a first element. What it makes of the text has a result and no
first alarm. -/
def ReadsNone (http : ToolHttp) : Prop :=
  ∃ st, ReadsZero http st ∧ ∃ name ∈ rowNames, ¬ HasV2 st "alarm_map" 0 name

/-! ## What a pointer reads -/

section
variable {st : ToolJson} {n : ℕ}

theorem atoi_readsAs {q : JsonPtr} {v : JsonValue} {k : ℤ} (h : st.ReadsAs q v) (hv : IsNumber v k) :
    ToolJson.atoi (st.deref q) = max (-2 ^ 31) (min k (2 ^ 31 - 1)) := by
  obtain ⟨x, hx, rfl, rfl | ⟨s, rfl, hs⟩⟩ := hv
  · obtain ⟨c, u, hderef, hc⟩ := h
    rw [hderef]
    refine ToolJson.atoi_text hx fun d v hd => ?_
    obtain ⟨rfl, -⟩ := List.cons.inj hd
    rcases ToolJson.isEnd_iff.mp hc with rfl | rfl <;> rfl
  · have hderef : st.deref q = x.text ++ [] := by
      rw [List.append_nil, ← hs]
      exact h
    rw [hderef]
    exact ToolJson.atoi_text hx nofun

theorem atoi_exact {q : JsonPtr} {v : JsonValue} {k : ℤ} (h : st.ReadsAs q v) (hv : IsNumber v k)
    (hk : -2 ^ 31 ≤ k ∧ k < 2 ^ 31) : ToolJson.atoi (st.deref q) = k := by
  rw [atoi_readsAs h hv]
  omega

theorem deref_readsAs {q : JsonPtr} {s : Plain} (h : st.ReadsAs q (.str s)) : st.deref q = s.text := h

/-! ## An alarm of its own -/

theorem lookup_found {ls : List JsonLeaf} (hs : ToolJson.Sound n st) (h : List.Forall₂ (ToolJson.ItemIs st.seen) st.item ls)
    {name : String} {v : JsonValue} (hv : (ls.find? fun l => l.name.text = ascii name).map JsonLeaf.value = some v) :
    ∃ q, lookup st name = .ok (some q) ∧ st.ReadsAs q v := by
  obtain ⟨it, l, hget, hit, hl⟩ := getValue_leaves hs h hv
  obtain ⟨q, hq, hreads⟩ := hl ▸ hit.returns
  rw [Option.some.injEq] at hq
  exact ⟨q, by rw [lookup, hget, hq], hreads⟩

theorem find_member (o : JsonObject) (a : Plain) (i : ℕ) (name : List UInt8) :
    ((o.leaves a i).find? fun l => l.name.text = name).map JsonLeaf.value = valueOf name o.members := by
  rw [JsonObject.leaves, List.find?_map, Option.map_map]
  rfl

/-- What the code makes of an alarm's text: the channel is the number at the beginning of the content. -/
theorem readAlarm_eq {t : JsonText} {a : Notice} (h : Describes t.object.members a) (ha : a.Fits)
    (hlen : t.text.length < jsonStrSize) (ht : ∀ m ∈ t.object.members, m.Tight) :
    readAlarm t.text = .ok (some ⟨a.devId, a.time, ToolJson.atoi a.content, a.type, a.content⟩) := by
  obtain ⟨devId, hdevId, hdevId'⟩ := h.devId
  obtain ⟨time, htime, htime'⟩ := h.time
  obtain ⟨type, htype, htype'⟩ := h.type
  obtain ⟨content, hcontent, hcontent'⟩ := h.content
  have hne : t.object.members ≠ [] := by
    intro hnil
    rw [hnil] at hdevId
    cases hdevId
  obtain ⟨st, hp, hread⟩ := JsonText.parse_reads hlen hne ht
  obtain ⟨new, hitem, hnew⟩ := hread.items
  obtain rfl : st.item = new := hitem
  have hfound : ∀ {name : String} {v : JsonValue}, valueOf (ascii name) t.object.members = some v →
      ∃ q, lookup st name = .ok (some q) ∧ st.ReadsAs q v := fun hv =>
    lookup_found hread.within.sound hnew ((find_member ..).trans hv)
  obtain ⟨q₁, hq₁, hr₁⟩ := hfound hdevId
  obtain ⟨q₂, hq₂, hr₂⟩ := hfound htime
  obtain ⟨q₃, hq₃, hr₃⟩ := hfound htype
  obtain ⟨q₄, hq₄, hr₄⟩ := hfound hcontent
  have htext₁ : text st Qpns.tokenSize (some q₁) = a.devId := by
    rw [text, deref_readsAs hr₁, hdevId', List.take_of_length_le (Nat.le_sub_one_of_lt ha.devId)]
  have htext₄ : text st contentSize (some q₄) = a.content := by
    rw [text, deref_readsAs hr₄, hcontent', List.take_of_length_le (Nat.le_sub_one_of_lt ha.content)]
  have hchannel : number st (some q₄) = ToolJson.atoi a.content := by
    rw [number, deref_readsAs hr₄, hcontent']
  have hnumber₂ : number st (some q₂) = a.time := atoi_exact hr₂ htime' ha.time
  have hnumber₃ : number st (some q₃) = a.type := atoi_exact hr₃ htype' ha.type
  simp only [readAlarm, hp, Except.mapError, ToolJson.ok_bind, Int.lt_irrefl, if_false, hq₁, hq₂, hq₃, hq₄, htext₁, htext₄,
    hchannel, hnumber₂, hnumber₃]

theorem readAlarm_refused {t : JsonText} (hlen : t.text.length < jsonStrSize) (ht : ∃ m ∈ t.object.members, ¬m.Tight) :
    readAlarm t.text = .ok none := by
  obtain ⟨st, hp⟩ := JsonText.parse_fails hlen ht
  simp only [readAlarm, hp, Except.mapError, ToolJson.ok_bind, Int.reduceNeg, Int.reduceLT, if_true]

/-- **An alarm of its own** is handed over as it was sent if and only if the parser takes the text and the channel is the number
that the content begins with. -/
theorem handsOver_iff {q : Client} (hcb : q.cb = true) {data : List UInt8} {t : JsonText} {a : Notice}
    (hdata : cstr data = t.text) (hlen : t.text.length < jsonStrSize) (h : Describes t.object.members a) (ha : a.Fits) :
    HandsOver q data a ↔ (∀ m ∈ t.object.members, m.Tight) ∧ a.channel = ToolJson.atoi a.content := by
  have hparse := parse_cstr hdata t.zero_not_mem
  have hread : readAlarm data = readAlarm t.text := by rw [readAlarm, readAlarm, hparse]
  rw [HandsOver, Client.doAlarm, hread]
  by_cases ht : ∀ m ∈ t.object.members, m.Tight
  · rw [readAlarm_eq h ha hlen ht, and_iff_right ht]
    simp only [Except.map, hcb, if_true, Except.ok.injEq, Client.mk.injEq, List.append_cancel_left_eq, List.cons.injEq,
      Notice.alarm, Alarm.mk.injEq, true_and, and_true]
    exact eq_comm
  · have hloose : ∃ m ∈ t.object.members, ¬m.Tight := by
      simpa using ht
    rw [readAlarm_refused hlen hloose]
    refine iff_of_false (fun heq => ?_) fun hk => ht hk.1
    have hshown := congrArg Client.shown (Except.ok.inj heq)
    exact absurd (congrArg List.length hshown) (by simp)

/-! ## A list of alarms -/

/-- What the code makes of an alarm of the list. -/
def Notice.row (a : Notice) : CloudHttp.Alarm := ⟨min a.no (2 ^ 31 - 1), a.devId, a.time, a.channel, a.type⟩

section
variable {t : JsonDocument} {x : JsonArray} (hx : t.arrays = [x]) (hs : ToolJson.Sound t.text.length st)
  (hitems : List.Forall₂ (ToolJson.ItemIs st.seen) st.item (t.entries.flatMap JsonEntry.leaves))
  (hname : x.name.text = ascii "alarm_map")
include hx hs hitems hname

/-- An alarm is read in its place. -/
theorem row_read {i : ℕ} {e : JsonElement} {a : Notice} (he : x.elements[i]? = some e) (hentry : Entry e a) (ha : a.Fits) :
    alarmRow st i = .ok (some a.row) := by
  obtain ⟨no, hno, hno'⟩ := hentry.no
  obtain ⟨devId, hdevId, hdevId'⟩ := hentry.devId
  obtain ⟨time, htime, htime'⟩ := hentry.time
  obtain ⟨channel, hchannel, hchannel'⟩ := hentry.channel
  obtain ⟨type, htype, htype'⟩ := hentry.type
  have hfound : ∀ {name : String} {v : JsonValue}, valueOf (ascii name) e.object.members = some v →
      ∃ q, lookupV2 st "alarm_map" i name = .ok (some q) ∧ st.ReadsAs q v := by
    intro name v hv
    have hreturns := returns_row hx hs hitems hname (by decide) i (ascii name)
    have hat : x.valueAt i (ascii name) = some v := by simp [JsonArray.valueAt, he, hv]
    rw [hat] at hreturns
    obtain ⟨q, hq, hr⟩ := hreturns
    exact ⟨q, by rw [lookupV2, hq], hr⟩
  obtain ⟨q₁, hq₁, hr₁⟩ := hfound hno
  obtain ⟨q₂, hq₂, hr₂⟩ := hfound hdevId
  obtain ⟨q₃, hq₃, hr₃⟩ := hfound htime
  obtain ⟨q₄, hq₄, hr₄⟩ := hfound hchannel
  obtain ⟨q₅, hq₅, hr₅⟩ := hfound htype
  have hfit := ha.no
  have hno₁ : ToolJson.atoi (st.deref q₁) % 2 ^ 32 = min a.no (2 ^ 31 - 1) := by
    rw [atoi_readsAs hr₁ hno']
    omega
  have hdevId₂ : (st.deref q₂).take (CloudHttp.tokenSize - 1) = a.devId := by
    rw [deref_readsAs hr₂, hdevId']
    exact List.take_of_length_le (Nat.le_sub_one_of_lt ha.devId)
  simp only [alarmRow, hq₁, hq₂, hq₃, hq₄, hq₅, ToolJson.ok_bind, hno₁, hdevId₂, atoi_exact hr₃ htime' ha.time,
    atoi_exact hr₄ hchannel' ha.channel, atoi_exact hr₅ htype' ha.type, Notice.row]

end

theorem row_none_iff (h : Named st) {i : ℕ} :
    alarmRow st i = .ok none ↔ ∃ name ∈ rowNames, ¬ HasV2 st "alarm_map" i name := by
  obtain ⟨p₁, hp₁, hl₁⟩ := lookupV2_eq h "alarm_map" i "no"
  obtain ⟨p₂, hp₂, hl₂⟩ := lookupV2_eq h "alarm_map" i "dev_id"
  obtain ⟨p₃, hp₃, hl₃⟩ := lookupV2_eq h "alarm_map" i "time"
  obtain ⟨p₄, hp₄, hl₄⟩ := lookupV2_eq h "alarm_map" i "channel"
  obtain ⟨p₅, hp₅, hl₅⟩ := lookupV2_eq h "alarm_map" i "type"
  simp only [alarmRow, hl₁, hl₂, hl₃, hl₄, hl₅, ToolJson.ok_bind, rowNames, List.exists_mem_cons_iff, hasV2_iff hp₁,
    hasV2_iff hp₂, hasV2_iff hp₃, hasV2_iff hp₄, hasV2_iff hp₅]
  cases p₁ <;> cases p₂ <;> cases p₃ <;> cases p₄ <;> cases p₅ <;> simp

theorem rows_nil_iff {row : ℕ → Except CloudFault (Option CloudHttp.Alarm)} {k i : ℕ} :
    tableLoop row (k + 1) i = .ok [] ↔ row i = .ok none := by
  rw [tableLoop]
  cases row i with
  | error e => exact iff_of_false (fun h => by cases h) (fun h => by cases h)
  | ok r =>
    rw [ToolJson.ok_bind]
    cases r with
    | none => exact iff_of_true rfl rfl
    | some b =>
      refine iff_of_false (fun h => ?_) (fun h => by cases h)
      dsimp only at h
      cases hrest : tableLoop row k (i + 1) with
      | error e =>
        rw [hrest] at h
        cases h
      | ok bs =>
        rw [hrest] at h
        cases h

theorem cleared_row_iff {a : Notice} (ha : a.Fits) : cleared a.row = a ↔ a.content = [] ∧ a.no < 2 ^ 31 := by
  obtain ⟨no, devId, time, channel, type, content⟩ := a
  simp only [cleared, Notice.row, Notice.mk.injEq, true_and]
  constructor
  · rintro ⟨hno, rfl⟩
    exact ⟨rfl, by omega⟩
  · rintro ⟨rfl, hno⟩
    exact ⟨by omega, rfl⟩

section
variable {t : JsonDocument} {as : List Notice} {http : ToolHttp}

theorem AlarmAnswer.full (h : AlarmAnswer t as) (hne : as ≠ []) : t.Full := by
  obtain ⟨x, hx, -, hentries⟩ := h.array
  refine full_of_array hx (forall₂_ne_nil hentries hne) fun e he => ?_
  obtain ⟨a, ha⟩ := forall₂_exists_right hentries e he
  exact ha.devId.nonempty

theorem AlarmAnswer.result_zero (h : AlarmAnswer t as) (hs : ToolJson.Sound t.text.length st)
    (hitems : List.Forall₂ (ToolJson.ItemIs st.seen) st.item (t.entries.flatMap JsonEntry.leaves)) :
    ∃ q, lookup st "result" = .ok (some q) ∧ (st.deref q).head? = some 48 := by
  obtain ⟨v, hv, hzero⟩ := h.result
  obtain ⟨x, hx, -, hentries⟩ := h.array
  refine result_zero_of_find hs hitems ((find_apart hx fun e he => ?_).trans hv) hzero
  obtain ⟨a, ha⟩ := forall₂_exists_right hentries e he
  exact ha.apart

/-- What the call makes of a list that the parser takes. -/
theorem AlarmAnswer.getAlarms_eq (h : AlarmAnswer t as) (hfits : ∀ a ∈ as, a.Fits) (hne : as ≠ []) (hcmd : Begins2 http)
    (hbody : cstr http.body = t.text) (hp : ToolJson.parse t.text = .ok (0, st)) :
    hdcctv_client2_getAlarms (.received http) = .ok (0, (as.map Notice.row).take alarmNum) := by
  obtain ⟨hs, hitems⟩ := reads_of_full (h.full hne) hp
  obtain ⟨q, hq, hzero⟩ := h.result_zero hs hitems
  obtain ⟨x, hx, hname, hentries⟩ := h.array
  have hlength := hentries.length_eq
  have hloop : tableLoop (alarmRow st) alarmNum 0 = .ok ((as.map Notice.row).take alarmNum) := by
    apply tableLoop_rows
    · intro j hj
      rw [List.length_map] at hj
      rw [Nat.zero_add, List.getElem_map]
      have hj' : j < x.elements.length := hlength ▸ hj
      exact row_read hx hs hitems hname (List.getElem?_eq_getElem hj') (hentries.get hj' hj) (hfits _ (List.getElem_mem hj))
    · rw [Nat.zero_add, List.length_map, row_none_iff hs.named]
      refine ⟨"no", List.mem_cons_self, ?_⟩
      rintro ⟨p, hno⟩
      have hreturns := returns_row hx hs hitems hname (by decide) as.length (ascii "no")
      have hat : x.valueAt as.length (ascii "no") = none := by
        simp [JsonArray.valueAt, List.getElem?_eq_none (Nat.le_of_eq hlength)]
      rw [hat, ToolJson.Returns, hno] at hreturns
      cases hreturns
  rw [hdcctv_client2_getAlarms, exchange_parsed hcmd ((parse_cstr hbody t.zero_not_mem).trans hp) hq hzero, hloop]
  rfl

theorem reads_of_gets (h : Gets http as) : ∃ st, ReadsZero http st := by
  have hret : CloudCall.getAlarms.ret (.received http) = .ok 0 := by
    rw [CloudCall.ret]
    rw [Gets] at h
    cases hrun : hdcctv_client2_getAlarms (.received http) with
    | error e =>
      rw [hrun] at h
      cases h
    | ok r =>
      rw [hrun] at h
      exact congrArg Except.ok (congrArg Prod.fst (Except.ok.inj h))
  obtain ⟨-, -, st, hst, -⟩ := CloudCall.accepts_of_zero hret
  exact ⟨st, hst⟩

/-- **A list of alarms** that is not empty comes back as it was sent if and only if the parser takes the text, no alarm has a
content, and every number fits an `int`. -/
theorem AlarmAnswer.gets_iff (h : AlarmAnswer t as) (hfits : ∀ a ∈ as, a.Fits) (hle : as.length ≤ alarmNum) (hne : as ≠ [])
    (hcmd : Begins2 http) (hbody : cstr http.body = t.text) :
    Gets http as ↔ t.text.length < jsonStrSize ∧ (∀ e ∈ t.entries, e.Tight) ∧ ∀ a ∈ as, a.content = [] ∧ a.no < 2 ^ 31 := by
  have hcontents : ∀ {st : ToolJson}, ToolJson.parse t.text = .ok (0, st) →
      (Gets http as ↔ ∀ a ∈ as, a.content = [] ∧ a.no < 2 ^ 31) := by
    intro st hp
    rw [Gets, h.getAlarms_eq hfits hne hcmd hbody hp, List.take_of_length_le (by rwa [List.length_map]), Except.map,
      Except.ok.injEq, Prod.mk.injEq, and_iff_right rfl, List.map_map]
    conv_lhs => rhs; rw [← List.map_id as]
    rw [List.map_inj_left]
    exact forall₂_congr fun a ha => cleared_row_iff (hfits a ha)
  constructor
  · intro hgets
    obtain ⟨st, hp, -⟩ := reads_of_gets hgets
    rw [parse_cstr hbody t.zero_not_mem] at hp
    have hlen := JsonDocument.length_lt_of_parse hp
    refine ⟨hlen, ?_, (hcontents hp).mp hgets⟩
    by_contra hno
    simp only [not_forall] at hno
    obtain ⟨e, he, hbad⟩ := hno
    obtain ⟨st', hp'⟩ := JsonDocument.document_fails hlen (JsonDocument.refused_of_full (h.full hne) ⟨e, he, hbad⟩)
    rw [hp] at hp'
    cases hp'
  · rintro ⟨hlen, htight, hall⟩
    have hentries : t.entries ≠ [] := by
      obtain ⟨x, hx, -, -⟩ := h.array
      intro hnil
      rw [JsonDocument.arrays, hnil] at hx
      cases hx
    obtain ⟨st, hp, -⟩ := JsonDocument.document_reads hlen hentries fun e he => ⟨h.full hne e he, htight e he⟩
    exact (hcontents hp).mpr hall

/-- The empty list. -/
theorem gets_nil_iff (hcmd : Begins2 http) : Gets http [] ↔ ReadsNone http := by
  have hrows : ∀ {st : ToolJson}, ReadsZero http st →
      (Gets http [] ↔ ∃ name ∈ rowNames, ¬ HasV2 st "alarm_map" 0 name) := by
    rintro st ⟨hp, q, hget, hhead⟩
    have hq : lookup st "result" = .ok (some q) := by rw [lookup, hget]
    have hnamed := named_of_parse hp
    obtain ⟨alarms, hrun⟩ := tableLoop_ok (alarmRow_ok hnamed) alarmNum 0
    rw [← row_none_iff hnamed, ← rows_nil_iff (k := 31), Gets, hdcctv_client2_getAlarms, exchange_parsed hcmd hp hq hhead]
    have h32 : 31 + 1 = alarmNum := rfl
    rw [h32, hrun]
    simp only [ToolJson.ok_bind, Except.map, Except.ok.injEq, Prod.mk.injEq, true_and, List.map_eq_nil_iff]
  constructor
  · intro hgets
    obtain ⟨st, hst⟩ := reads_of_gets hgets
    exact ⟨st, hst, (hrows hst).mp hgets⟩
  · rintro ⟨st, hst, hnone⟩
    exact (hrows hst).mpr hnone

end

/-- **The fields of an alarm.** An alarm of its own is handed over as it was sent exactly where the parser takes the text and the
channel is the number that the content begins with. A list comes back as it was sent exactly where the parser takes the text,
the contents are empty and the numbers fit an `int`; the empty list, where the parser finds no first alarm behind it. -/
theorem alarms_iff (q : Client) (http : ToolHttp) :
    (∀ (m : Message) (t : JsonText) (a : Notice), q.cb = true → cstr m.data = t.text → Describes t.object.members a → a.Fits →
      (HandsOver q m.data a ↔ (∀ m ∈ t.object.members, m.Tight) ∧ a.channel = ToolJson.atoi a.content)) ∧
    ∀ (t : JsonDocument) (as : List Notice), cstr http.command = ascii "200" → cstr http.body = t.text → AlarmAnswer t as →
      (∀ a ∈ as, a.Fits) → as.length ≤ alarmNum →
      (Gets http as ↔ if as = [] then ReadsNone http else t.text.length < jsonStrSize ∧ (∀ e ∈ t.entries, e.Tight) ∧
        ∀ a ∈ as, a.content = [] ∧ a.no < 2 ^ 31) := by
  constructor
  · intro m t a hcb hdata h ha
    have hlen : t.text.length < jsonStrSize := by
      rw [← hdata]
      exact Nat.lt_of_le_of_lt (List.takeWhile_prefix _).length_le m.short
    exact handsOver_iff hcb hdata hlen h ha
  · intro t as hcmd hbody h hfits hle
    have hbegins : Begins2 http := by
      rw [Begins2, hcmd]
      rfl
    split
    · next hnil =>
      subst hnil
      exact gets_nil_iff hbegins
    · next hne => exact h.gets_iff hfits hle hne hbegins hbody

/-- `{"dev_id":"D","time":1,"channel":4,"type":3,"content":"..","no":7}` -/
def noticeObject (content : Plain) : JsonObject := ⟨.none, [
  .compact (.ofAscii "dev_id") (.str (.ofAscii "D")), .compact (.ofAscii "time") (.num (.digit 49)),
  .compact (.ofAscii "channel") (.num (.digit 52)), .compact (.ofAscii "type") (.num (.digit 51)),
  .compact (.ofAscii "content") (.str content), .compact (.ofAscii "no") (.num (.digit 55))]⟩

def noticeText (content : Plain) : JsonText := ⟨.none, noticeObject content, .none⟩

/-- An answer with this alarm alone. -/
def noticeAnswer (content : Plain) : JsonDocument where
  lead := .none
  blank := .none
  entries := [
    .leaf (.compact (.ofAscii "result") (.num (.digit 48))),
    .array ⟨.none, .ofAscii "alarm_map", .none, .none, .none, [⟨.none, noticeObject content, .none⟩], .none⟩]
  trail := .none

def notice (content : Plain) : Notice := ⟨7, ascii "D", 1, 4, 3, content.text⟩

theorem isNumber_digit {c : UInt8} (hc : ToolJson.isDigit c = true) : IsNumber (.num (.digit c hc)) (Numeral.digit c hc).val := by
  refine ⟨.digit c hc, ?_, rfl, .inl rfl⟩
  exact fun d hd => absurd hd List.not_mem_nil

theorem entry_notice (content : Plain) : Entry ⟨.none, noticeObject content, .none⟩ (notice content) where
  devId := ⟨_, rfl, rfl⟩
  time := ⟨_, rfl, isNumber_digit _⟩
  channel := ⟨_, rfl, isNumber_digit _⟩
  type := ⟨_, rfl, isNumber_digit _⟩
  content := ⟨_, rfl, rfl⟩
  no := ⟨_, rfl, isNumber_digit _⟩
  apart := by
    simp only [noticeObject, List.forall_mem_cons]
    exact ⟨by decide, by decide, by decide, by decide, by simp [JsonMember.compact]; decide, by decide, List.forall_mem_nil _⟩

theorem notice_fits {content : Plain} (h : content.text.length < contentSize) : (notice content).Fits :=
  ⟨⟨by simp only [notice]; decide, by simp only [notice]; decide⟩, by simp only [notice]; decide,
    by simp only [notice]; decide, by simp only [notice]; decide, by simp only [notice]; decide, h⟩

theorem noticeObject_tight (content : Plain) : ∀ m ∈ (noticeObject content).members, m.Tight := by
  simp only [noticeObject, List.forall_mem_cons]
  exact ⟨rfl, by decide, by decide, by decide, rfl, by decide, List.forall_mem_nil _⟩

theorem noticeAnswer_tight (content : Plain) : ∀ e ∈ (noticeAnswer content).entries, e.Tight := by
  simp only [noticeAnswer, List.forall_mem_cons, JsonEntry.Tight, JsonArray.Tight, JsonElement.Tight]
  exact ⟨by decide, ⟨rfl, noticeObject_tight content, List.forall_mem_nil _⟩, List.forall_mem_nil _⟩

theorem answer_notice (content : Plain) : AlarmAnswer (noticeAnswer content) [notice content] where
  array := ⟨_, rfl, rfl, .cons (entry_notice content) .nil⟩
  result := ⟨_, rfl, rfl⟩

/-- An alarm whose content begins with its channel, and one without a content in a list. -/
theorem alarms_kept : HandsOver (Client.init true) (noticeText (.ofAscii "4")).text (notice (.ofAscii "4")) ∧
    Gets ⟨ascii "200", (noticeAnswer (.ofAscii "")).text⟩ [notice (.ofAscii "")] := by
  have hshort : (noticeText (.ofAscii "4")).text.length < msgSize := by decide +kernel
  obtain ⟨hown, hlist⟩ := alarms_iff (Client.init true) ⟨ascii "200", (noticeAnswer (.ofAscii "")).text⟩
  constructor
  · refine (hown ⟨cmdAlarm, _, hshort⟩ (noticeText (.ofAscii "4")) (notice (.ofAscii "4")) rfl
      (cstr_of_not_mem (JsonText.zero_not_mem _)) (entry_notice _).toDescribes (notice_fits (by decide))).mpr ?_
    exact ⟨noticeObject_tight _, by decide⟩
  · refine (hlist (noticeAnswer (.ofAscii "")) _ rfl (cstr_of_not_mem (JsonDocument.zero_not_mem _))
      (answer_notice _) ?_ (by decide)).mpr ?_
    · exact List.forall_mem_singleton.mpr (notice_fits (by decide))
    · rw [if_neg (by decide)]
      exact ⟨by decide +kernel, noticeAnswer_tight _, by decide⟩

/-- An alarm of channel 4 with the content `x` is handed over with channel 0, and comes in a list without its content. -/
theorem alarms_changed : (¬ ∀ (q : Client) (m : Message) (t : JsonText) (a : Notice), q.cb = true → cstr m.data = t.text →
      Describes t.object.members a → a.Fits → (∀ m ∈ t.object.members, m.Tight) → HandsOver q m.data a) ∧
    ¬ ∀ (http : ToolHttp) (t : JsonDocument) (as : List Notice), cstr http.command = ascii "200" → cstr http.body = t.text →
      AlarmAnswer t as → (∀ a ∈ as, a.Fits) → as.length ≤ alarmNum → t.text.length < jsonStrSize → (∀ e ∈ t.entries, e.Tight) →
      Gets http as := by
  have hcontent : (Plain.ofAscii "x").text.length < contentSize := by decide
  constructor
  · intro h
    have hshort : (noticeText (.ofAscii "x")).text.length < msgSize := by decide +kernel
    have hdata : cstr (noticeText (.ofAscii "x")).text = (noticeText (.ofAscii "x")).text :=
      cstr_of_not_mem (JsonText.zero_not_mem _)
    have hover := h (Client.init true) ⟨cmdAlarm, _, hshort⟩ _ _ rfl hdata (entry_notice _).toDescribes (notice_fits hcontent)
      (noticeObject_tight _)
    rw [handsOver_iff rfl hdata hshort (entry_notice _).toDescribes (notice_fits hcontent)] at hover
    exact absurd hover.2 (by decide)
  · intro h
    have hbody : cstr (noticeAnswer (.ofAscii "x")).text = (noticeAnswer (.ofAscii "x")).text :=
      cstr_of_not_mem (JsonDocument.zero_not_mem _)
    have hfits : ∀ a ∈ [notice (.ofAscii "x")], a.Fits := List.forall_mem_singleton.mpr (notice_fits hcontent)
    have hbegins : Begins2 ⟨ascii "200", (noticeAnswer (.ofAscii "x")).text⟩ := rfl
    have hgets := h ⟨ascii "200", _⟩ _ _ rfl hbody (answer_notice _) hfits (by decide) (by decide +kernel) (noticeAnswer_tight _)
    obtain ⟨-, -, hall⟩ := ((answer_notice _).gets_iff hfits (by decide) nofun hbegins hbody).mp hgets
    exact absurd (hall _ List.mem_cons_self).1 (by decide)

end

end Qpns

end SabApp
