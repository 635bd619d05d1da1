import SabApp.JsonTable
import SabApp.QhLogs
import SabApp.QhRecords

/-!
# What the decoders of lists report

`tool_ptc_qh_d2c_decode_getLogs` and `tool_ptc_qh_d2c_decode_getRecords` set `ret` to -8 where the array or a member of an
entry is missing, and then return 0. So a 0 is right for the responses whose array is found and whole, and only for them.
-/

namespace SabApp

namespace Qh

open CText ToolJson2

/-- The array that the search comes to is the value of a member with that name. -/
def MemberAt (name str : List UInt8) (rs : List (List UInt8)) : Prop :=
  ∃ a t u v w, str = a ++ 34 :: (name ++ 34 :: u) ∧ Comes name str t ∧ strstr name t = some (name ++ 34 :: u) ∧
    skip u = 58 :: v ∧ skip v = 91 :: w ∧ ArrayText w rs

def Members (names : List String) (row : List UInt8) : Prop := ∀ name ∈ names, (value64 row (ascii name)).isSome

/-- An entry of the logs with all its members. -/
def LogComplete (row : List UInt8) : Prop :=
  Members ["time", "type", "sub_type", "channel", "ch_type", "sub_type2", "data"] row ∧ (getIpv4 row (ascii "ip")).isSome

/-- An entry of the records with all its members. -/
def RecordComplete (row : List UInt8) : Prop :=
  Members ["start_time", "end_time", "size", "channel", "type", "sub_type", "file_info_base64"] row

/-- Where the result is 0 and the call returns, the array is there, the table has room for it, and no entry lacks a
member. -/
def ListComplete (name : String) (size : ℕ) (complete : List UInt8 → Prop) (data : List UInt8) : Prop :=
  getNumber data (ascii "result") = some 0 → (∀ t, Comes (ascii name) data t → ¬ Stuck (ascii name) t) →
    ∃ rs, MemberAt (ascii name) data rs ∧ rs.length ≤ size ∧ ∀ r ∈ rs, r.length < rowSize ∧ complete r

/-- A record is what its entry decodes to, with the text in a buffer that may hold an earlier one. -/
def RecordOf (row : List UInt8) (r : CfgRecord) : Prop :=
  ∃ head buf, readHead row = some head ∧ buf.length = recordBufSize ∧
    ¬ (getValue row (ascii "file_info_base64") buf recordBufSize).1 < 0 ∧
    r = toRecord (head, (getValue row (ascii "file_info_base64") buf recordBufSize).2)

/-- A 0 means that the array is there and that the logs are its entries, as many as the table can hold. -/
def LogsReported (data : List UInt8) (old : List LogV2) : Prop :=
  ∀ fuel logs, tool_ptc_qh_d2c_decode_getLogs fuel data old = some (0, logs) →
    ∃ rs, MemberAt (ascii "log") data rs ∧ List.Forall₂ (fun row e => readLog row = some e) (rs.take logsSize) logs

def RecordsReported (data : List UInt8) (old : List CfgRecord) : Prop :=
  ∀ fuel f, tool_ptc_qh_d2c_decode_getRecords fuel data old = some f → f.ret = 0 →
    ∃ rs, MemberAt (ascii "record") data rs ∧ List.Forall₂ RecordOf (rs.take recordsSize) f.records

/-! ## Both decoders -/

theorem MemberAt.arrayAt {name str : List UInt8} {rs : List (List UInt8)} (h : MemberAt name str rs) : ArrayAt name str rs := by
  obtain ⟨a, t, u, v, w, -, h⟩ := h
  exact ⟨t, u, v, w, h⟩

section
variable {α : Type*}

/-- What a decoder of a list does, with the loop over the rows in `read`. -/
def readList (name : String) (size : ℕ) (read : List (List UInt8) → List α) (fuel : ℕ) (data : List UInt8)
    (old : List α) : Option (ℤ × List α) :=
  match getNumber data (ascii "result") with
  | none => some (-8, old)
  | some ret =>
    if ret ≠ 0 then some (Int.bmod (ret * -1) (2 ^ 32), old)
    else
      (getArray fuel data (ascii name) size rowSize).map fun found =>
        match found with
        | none => (0, [])
        | some rows => (0, read (rows.take size))

theorem readNumber_range (value : List UInt8) :
    -2 ^ 31 ≤ readNumber ToolJson.atoi value ∧ readNumber ToolJson.atoi value < 2 ^ 31 := by
  unfold readNumber
  split
  · decide
  split
  · decide
  split
  · unfold strtoul
    have hlo := Int.le_bmod (x := (min (hexVal ((value.drop 2).takeWhile isHex)) (2 ^ 32 - 1) : ℕ)) (m := 2 ^ 32) (by decide)
    have hhi := Int.bmod_lt (x := (min (hexVal ((value.drop 2).takeWhile isHex)) (2 ^ 32 - 1) : ℕ)) (m := 2 ^ 32) (by decide)
    exact ⟨hlo, hhi⟩
  · unfold ToolJson.atoi
    dsimp only
    omega

theorem bmod_neg_ne_zero {data name : List UInt8} {ret : ℤ} (h : getNumber data name = some ret) (hret : ret ≠ 0) :
    Int.bmod (ret * -1) (2 ^ 32) ≠ 0 := by
  rw [getNumber, Option.map_eq_some_iff] at h
  obtain ⟨value, -, rfl⟩ := h
  have hrange := readNumber_range value
  intro hz
  have := Int.dvd_of_bmod_eq_zero hz
  omega

variable {name : String} {size : ℕ} {read : List (List UInt8) → List α} {Of : List UInt8 → α → Prop}
  {complete : List UInt8 → Prop} {data : List UInt8}

theorem complete_of_forall₂ (hof : ∀ r a, Of r a → complete r) {rs : List (List UInt8)} {as : List α}
    (h : List.Forall₂ Of rs as) : ∀ r ∈ rs, complete r := by
  induction h with
  | nil => exact nofun
  | cons ha _ ih => exact List.forall_mem_cons.mpr ⟨hof _ _ ha, ih⟩

/-- A 0 says that the list is whole if and only if it is. -/
theorem readList_iff (hsize : size ≠ 0) (hread : ∀ rs, (∀ r ∈ rs, complete r) → List.Forall₂ Of rs (read rs))
    (hof : ∀ r a, Of r a → complete r) (old : List α) :
    (∀ fuel as, readList name size read fuel data old = some (0, as) →
      ∃ rs, MemberAt (ascii name) data rs ∧ List.Forall₂ Of (rs.take size) as) ↔ ListComplete name size complete data := by
  constructor
  · intro h hresult hreturns
    obtain ⟨fuel, found, hfound⟩ := (search_returns_iff data (ascii name) size rowSize).mpr hreturns
    have hrun : readList name size read fuel data old = some (0, (found.map fun rows => read (rows.take size)).getD []) := by
      cases found <;> simp [readList, hresult, hfound]
    obtain ⟨rs, hmember, hall⟩ := h _ _ hrun
    cases found with
    | none =>
      -- no array was found, so that only an empty one is whole
      obtain rfl : rs = [] := by simpa [hsize] using hall
      exact ⟨[], hmember, Nat.zero_le size, nofun⟩
    | some rows =>
      obtain ⟨harray, hcount, hshort⟩ := getArray_iff.mp ⟨fuel, hfound⟩
      obtain rfl := hmember.arrayAt.unique harray
      rw [List.take_of_length_le hcount] at hall
      refine ⟨rs, hmember, hcount, fun r hr => ⟨hshort r hr, ?_⟩⟩
      exact complete_of_forall₂ hof hall r hr
  · intro h fuel as hrun
    rw [readList] at hrun
    cases hresult : getNumber data (ascii "result") with
    | none => simp [hresult] at hrun
    | some ret =>
      simp only [hresult] at hrun
      by_cases hret : ret = 0
      · subst hret
        rw [if_neg (by simp), Option.map_eq_some_iff] at hrun
        obtain ⟨found, hfound, hrun⟩ := hrun
        have hreturns := (search_returns_iff data (ascii name) size rowSize).mp ⟨fuel, found, hfound⟩
        obtain ⟨rs, hmember, hcount, hrows⟩ := h hresult hreturns
        obtain ⟨fuel', hget⟩ := getArray_iff.mpr ⟨hmember.arrayAt, hcount, fun r hr => (hrows r hr).1⟩
        obtain rfl := getArray_unique hfound hget
        dsimp only at hrun
        rw [List.take_of_length_le hcount] at hrun
        cases hrun
        refine ⟨rs, hmember, ?_⟩
        rw [List.take_of_length_le hcount]
        exact hread rs fun r hr => (hrows r hr).2
      · rw [if_pos hret, Option.some.injEq, Prod.mk.injEq] at hrun
        exact absurd hrun.1 (bmod_neg_ne_zero hresult hret)

end

/-! ## Logs -/

theorem number_exists_iff (str name : List UInt8) : (∃ n, getNumber str name = some n) ↔ (value64 str name).isSome := by
  rw [← Option.isSome_iff_exists, getNumber, Option.isSome_map]

theorem readLog_isSome_iff (row : List UInt8) : (readLog row).isSome ↔ LogComplete row := by
  simp only [LogComplete, Members, List.forall_mem_cons, ← number_exists_iff row (ascii "time"),
    ← number_exists_iff row (ascii "type"), ← number_exists_iff row (ascii "sub_type"),
    ← number_exists_iff row (ascii "channel"), ← number_exists_iff row (ascii "ch_type"),
    ← number_exists_iff row (ascii "sub_type2")]
  constructor
  · intro h
    obtain ⟨e, he⟩ := Option.isSome_iff_exists.mp h
    simp only [readLog, Option.bind_eq_bind, Option.bind_eq_some_iff] at he
    obtain ⟨n₁, h₁, n₂, h₂, n₃, h₃, n₄, h₄, n₅, h₅, n₆, h₆, ip, hip, v, hv, -⟩ := he
    exact ⟨⟨⟨n₁, h₁⟩, ⟨n₂, h₂⟩, ⟨n₃, h₃⟩, ⟨n₄, h₄⟩, ⟨n₅, h₅⟩, ⟨n₆, h₆⟩, by rw [hv]; rfl, List.forall_mem_nil _⟩, by rw [hip]; rfl⟩
  · rintro ⟨⟨⟨n₁, h₁⟩, ⟨n₂, h₂⟩, ⟨n₃, h₃⟩, ⟨n₄, h₄⟩, ⟨n₅, h₅⟩, ⟨n₆, h₆⟩, hv, -⟩, hip⟩
    obtain ⟨v, hv⟩ := Option.isSome_iff_exists.mp hv
    obtain ⟨ip, hip⟩ := Option.isSome_iff_exists.mp hip
    simp [readLog, h₁, h₂, h₃, h₄, h₅, h₆, hv, hip]

theorem readRows_log {rows : List (List UInt8)} (h : ∀ r ∈ rows, LogComplete r) :
    List.Forall₂ (fun row e => readLog row = some e) rows (readRows readLog rows) := by
  induction rows with
  | nil => exact .nil
  | cons r rows ih =>
    obtain ⟨hr, hrows⟩ := List.forall_mem_cons.mp h
    obtain ⟨e, he⟩ := Option.isSome_iff_exists.mp ((readLog_isSome_iff r).mpr hr)
    rw [readRows, he]
    exact .cons he (ih hrows)

theorem logs_reported_iff (data : List UInt8) (old : List LogV2) :
    LogsReported data old ↔ ListComplete "log" logsSize LogComplete data :=
  readList_iff (by decide) (fun _ => readRows_log) (fun r e he => (readLog_isSome_iff r).mp (by rw [he]; rfl)) old

/-! ## Records -/

theorem readValue_isSome {t : List UInt8} (n m : ℕ) : (readValue n t).isSome = (readValue m t).isSome := by
  induction t with
  | nil => rfl
  | cons c cs ih =>
    rw [readValue, readValue]
    cases char (c :: cs) with
    | blank => exact ih
    | _ => rfl

/-- Whether a value is found does not depend on where it is written. -/
theorem getValue_neg_iff (str name buf buf' : List UInt8) (size size' : ℤ) :
    (getValue str name buf size).1 < 0 ↔ (getValue str name buf' size').1 < 0 := by
  unfold getValue
  cases strstr (quotedName name) str with
  | none => simp
  | some idx =>
    dsimp only
    cases toColon (idx.drop (quotedName name).length) with
    | none => simp
    | some t =>
      have hsome := readValue_isSome (t := t) size.toNat size'.toNat
      dsimp only
      cases h₁ : readValue size.toNat t <;> cases h₂ : readValue size'.toNat t <;> simp [h₁, h₂] at hsome ⊢

theorem value_found_iff (row name buf : List UInt8) (size : ℤ) :
    ¬ (getValue row name buf size).1 < 0 ↔ (value64 row name).isSome := by
  rw [getValue_neg_iff _ _ _ (List.replicate 64 0) _ 64, value64]
  split
  · next h => exact iff_of_false (not_not.mpr h) (by simp)
  · next h => exact iff_of_true h rfl

theorem recordComplete_iff (row : List UInt8) :
    RecordComplete row ↔ (readHead row).isSome ∧ (value64 row (ascii "file_info_base64")).isSome := by
  simp only [RecordComplete, Members, List.forall_mem_cons, ← number_exists_iff row (ascii "start_time"),
    ← number_exists_iff row (ascii "end_time"), ← number_exists_iff row (ascii "size"),
    ← number_exists_iff row (ascii "channel"), ← number_exists_iff row (ascii "type"),
    ← number_exists_iff row (ascii "sub_type")]
  constructor
  · rintro ⟨⟨n₁, h₁⟩, ⟨n₂, h₂⟩, ⟨n₃, h₃⟩, ⟨n₄, h₄⟩, ⟨n₅, h₅⟩, ⟨n₆, h₆⟩, hv, -⟩
    exact ⟨by simp [readHead, h₁, h₂, h₃, h₄, h₅, h₆], hv⟩
  · rintro ⟨hhead, hv⟩
    obtain ⟨head, he⟩ := Option.isSome_iff_exists.mp hhead
    simp only [readHead, Option.bind_eq_bind, Option.bind_eq_some_iff] at he
    obtain ⟨n₁, h₁, n₂, h₂, n₃, h₃, n₄, h₄, n₅, h₅, n₆, h₆, -⟩ := he
    exact ⟨⟨n₁, h₁⟩, ⟨n₂, h₂⟩, ⟨n₃, h₃⟩, ⟨n₄, h₄⟩, ⟨n₅, h₅⟩, ⟨n₆, h₆⟩, hv, List.forall_mem_nil _⟩

theorem readBlobs_record {rows : List (List UInt8)} (h : ∀ r ∈ rows, RecordComplete r) : ∀ {buf : List UInt8},
    buf.length = recordBufSize → List.Forall₂ RecordOf rows ((readBlobs buf rows).map toRecord) := by
  induction rows with
  | nil => exact fun _ => .nil
  | cons r rows ih =>
    intro buf hbuf
    obtain ⟨hr, hrows⟩ := List.forall_mem_cons.mp h
    obtain ⟨hhead, hvalue⟩ := (recordComplete_iff r).mp hr
    obtain ⟨head, hhead⟩ := Option.isSome_iff_exists.mp hhead
    have hfound := (value_found_iff r _ buf recordBufSize).mpr hvalue
    have hlen : (getValue r (ascii "file_info_base64") buf recordBufSize).2.length = recordBufSize := by
      have hmem : (head, (getValue r (ascii "file_info_base64") buf recordBufSize).2) ∈ readBlobs buf [r] := by
        simp [readBlobs, hhead, hfound]
      exact length_of_mem_readBlobs hbuf hmem
    rw [readBlobs, hhead]
    dsimp only
    rw [if_neg hfound, List.map_cons]
    exact .cons ⟨head, buf, hhead, hbuf, hfound, rfl⟩ (ih hrows hlen)

theorem RecordOf.complete {row : List UInt8} {r : CfgRecord} (h : RecordOf row r) : RecordComplete row := by
  obtain ⟨head, buf, hhead, -, hfound, -⟩ := h
  exact (recordComplete_iff row).mpr ⟨by rw [hhead]; rfl, (value_found_iff row _ buf _).mp hfound⟩

theorem readList_records (fuel : ℕ) (data : List UInt8) (old : List CfgRecord) :
    readList "record" recordsSize (fun rows => (readBlobs (List.replicate recordBufSize 0) rows).map toRecord) fuel data
      old = (tool_ptc_qh_d2c_decode_getRecords fuel data old).map fun f => (f.ret, f.records) := by
  unfold readList tool_ptc_qh_d2c_decode_getRecords
  cases getNumber data (ascii "result") with
  | none => rfl
  | some ret =>
    dsimp only
    split
    · rfl
    · rw [Option.map_map]
      congr 1
      funext found
      cases found <;> rfl

theorem records_reported_iff (data : List UInt8) (old : List CfgRecord) :
    RecordsReported data old ↔ ListComplete "record" recordsSize RecordComplete data := by
  have hread : ∀ rs, (∀ r ∈ rs, RecordComplete r) →
      List.Forall₂ RecordOf rs ((readBlobs (List.replicate recordBufSize 0) rs).map toRecord) :=
    fun _ h => readBlobs_record h List.length_replicate
  rw [← readList_iff (by decide) hread (fun _ _ => RecordOf.complete) old]
  simp only [readList_records, Option.map_eq_some_iff, RecordsReported]
  constructor
  · rintro h fuel as ⟨f, hf, he⟩
    rw [Prod.mk.injEq] at he
    exact he.2 ▸ h fuel f hf he.1
  · intro h fuel f hf hret
    exact h fuel f.records ⟨f, hf, by rw [hret]⟩

/-- **Whole lists.** For any response a 0 from a decoder means a whole list if and only if the result is not 0, or the call
does not return, or the list is there and whole. -/
theorem lists_reported_iff (data : List UInt8) (oldLogs : List LogV2) (oldRecords : List CfgRecord) :
    (LogsReported data oldLogs ↔ ListComplete "log" logsSize LogComplete data) ∧
      (RecordsReported data oldRecords ↔ ListComplete "record" recordsSize RecordComplete data) :=
  ⟨logs_reported_iff data oldLogs, records_reported_iff data oldRecords⟩

/-- `{"result":"0"}` -/
theorem lists_missing : ¬ LogsReported (ascii "\x7b\"result\":\"0\"\x7d") [] ∧
    ¬ RecordsReported (ascii "\x7b\"result\":\"0\"\x7d") [] := by
  have hnone : ∀ {name data : List UInt8} {rs : List (List UInt8)}, findArray name 1 data = some none →
      ¬ MemberAt name data rs := by
    rintro name data rs hf ⟨a, t, u, v, w, -, ht, hs, hu, hv, -⟩
    obtain ⟨fuel, hw⟩ := findArray_iff.mpr ⟨t, u, v, ht, hs, hu, hv⟩
    cases findArray_unique hf hw
  constructor
  · intro h
    obtain ⟨rs, hmember, -⟩ := h 1 [] (by decide +kernel)
    exact hnone rfl hmember
  · intro h
    obtain ⟨rs, hmember, -⟩ := h 1 ⟨0, [], []⟩ (by decide +kernel) rfl
    exact hnone rfl hmember

end Qh

end SabApp
