import SabApp.Base64
import SabApp.QhLists

/-!
# Record searches of the QH protocol (tool_ptc.c)

A record is sent with its `file_info` in base64. Lists come back as they were sent; but `base64_decode` is not told that
`file_info`, at the end of the record, has 128 bytes. For 128 bytes of `file_info` it writes a terminator behind the
record, and for a longer text all that the text decodes to.
-/

namespace SabApp

namespace Qh

open CText ToolJson2 CloudHttp

/-- The members of `ptc_cfg_record_t` that are sent as numbers. -/
structure RecordHead where
  startTime : UInt32
  endTime : UInt32
  size : UInt32
  channel : UInt8
  type : UInt8
  subType : UInt8
  deriving DecidableEq

/-- `ptc_cfg_record_t` -/
structure CfgRecord extends RecordHead where
  fileInfo : List UInt8
  fileInfo_length : fileInfo.length = 128
  deriving DecidableEq

/-- PTC_RECORDS_SIZE -/
def recordsSize : ℕ := 1024

/-- The size of `tmp_buf` in the encoder and of `file_info_base64` in the decoder. -/
def recordBufSize : ℕ := 512

/-- Where `file_info` begins in a record; it is the last member. -/
def fileInfoOffset : ℕ := 32

/-- `sizeof(ptc_cfg_record_t)` -/
def recordSize : ℕ := 160

/-- What `snprintf` prints of a record. -/
def recordText (r : CfgRecord) : List UInt8 :=
  List.flatten [ascii "\x7b\"start_time\":\"", Decimal.decimal (signed r.startTime), ascii "\",\"end_time\":\"",
    Decimal.decimal (signed r.endTime), ascii "\",\"size\":\"", Decimal.decimal (signed r.size),
    ascii "\",\"channel\":\"", Decimal.decimal r.channel.toNat, ascii "\",\"type\":\"", Decimal.decimal r.type.toNat,
    ascii "\",\"sub_type\":\"", Decimal.decimal r.subType.toNat, ascii "\",\"file_info_base64\":\"",
    base64_encode r.fileInfo, ascii "\"\x7d"]

/-- `tool_ptc_qh_d2c_encode_getRecords`: `head.len` and the data, or -1. -/
def tool_ptc_qh_d2c_encode_getRecords (records : List CfgRecord) : Option (ℕ × List UInt8) :=
  if records.length > recordsSize then none else some (encodeList recordText recordBufSize "record" records)

/-- The numbers of a row, if none is missing. -/
def readHead (row : List UInt8) : Option RecordHead := do
  let startTime ← getNumber row (ascii "start_time")
  let endTime ← getNumber row (ascii "end_time")
  let size ← getNumber row (ascii "size")
  let channel ← getNumber row (ascii "channel")
  let type ← getNumber row (ascii "type")
  let subType ← getNumber row (ascii "sub_type")
  some ⟨UInt32.ofInt startTime, UInt32.ofInt endTime, UInt32.ofInt size, UInt8.ofInt channel, UInt8.ofInt type,
    UInt8.ofInt subType⟩

/-- The loop over the rows: for each entry its numbers, and `file_info_base64` as `base64_decode` finds it. The buffer is
not cleared between entries. -/
def readBlobs : List UInt8 → List (List UInt8) → List (RecordHead × List UInt8)
  | _, [] => []
  | buf, row :: rows =>
    match readHead row with
    | none => []
    | some head =>
      let value := getValue row (ascii "file_info_base64") buf recordBufSize
      if value.1 < 0 then [] else (head, value.2) :: readBlobs value.2 rows

/-- The entry that was decoded, with zeros behind what was written. -/
def toRecord (e : RecordHead × List UInt8) : CfgRecord where
  toRecordHead := e.1
  fileInfo := ((base64_decode e.2).getD [] ++ List.replicate 128 0).take 128
  fileInfo_length := by simp

/-- `ptc_cfg_records_t` after a search, and how many bytes `base64_decode` wrote for each entry from its `file_info` on;
none where it read past its own buffer. -/
structure FoundRecords where
  ret : ℤ
  records : List CfgRecord
  written : List (Option ℕ)
  deriving DecidableEq

/-- `tool_ptc_qh_d2c_decode_getRecords`, where it returns. What goes wrong with the array leaves no records; the
terminator written behind an entry is cleared with the next. -/
def tool_ptc_qh_d2c_decode_getRecords (fuel : ℕ) (data : List UInt8) (records : List CfgRecord) : Option FoundRecords :=
  match getNumber data (ascii "result") with
  | none => some ⟨-8, records, []⟩
  | some ret =>
    if ret ≠ 0 then some ⟨Int.bmod (ret * -1) (2 ^ 32), records, []⟩
    else
      (getArray fuel data (ascii "record") recordsSize rowSize).map fun found =>
        match found with
        | none => ⟨0, [], []⟩
        | some rows =>
          let entries := readBlobs (List.replicate recordBufSize 0) (rows.take recordsSize)
          ⟨0, entries.map toRecord, entries.map fun e => (base64_decode e.2).map List.length⟩

/-- The texts that `base64_decode` gets from a response. -/
def blobs (fuel : ℕ) (data : List UInt8) : List (List UInt8) :=
  match getNumber data (ascii "result"), getArray fuel data (ascii "record") recordsSize rowSize with
  | some 0, some (some rows) => (readBlobs (List.replicate recordBufSize 0) (rows.take recordsSize)).map Prod.snd
  | _, _ => []

/-- For each entry the decoder wrote inside its record. -/
def FoundRecords.Inside (f : FoundRecords) : Prop := ∀ w ∈ f.written, ∃ n, w = some n ∧ fileInfoOffset + n ≤ recordSize

/-- The list comes back from what is sent of it, and `head.len` is the length of the text. -/
def RecordsReturn (records old : List CfgRecord) : Prop :=
  ∃ len data, tool_ptc_qh_d2c_encode_getRecords records = some (len, data) ∧ len = data.length ∧
    ∃ fuel f, tool_ptc_qh_d2c_decode_getRecords fuel data old = some f ∧ f.ret = 0 ∧ f.records = records

/-! ## The text of a record -/

def blobPlain (bs : List UInt8) : Plain :=
  ⟨base64_encode bs, not_mem_base64_encode (by simp) bs, not_mem_base64_encode (by simp) bs⟩

def recordMembers (r : CfgRecord) : List (Plain × Plain) :=
  [(.ofAscii "start_time", .decimal (signed r.startTime)), (.ofAscii "end_time", .decimal (signed r.endTime)),
    (.ofAscii "size", .decimal (signed r.size)), (.ofAscii "channel", .decimal r.channel.toNat),
    (.ofAscii "type", .decimal r.type.toNat), (.ofAscii "sub_type", .decimal r.subType.toNat),
    (.ofAscii "file_info_base64", blobPlain r.fileInfo)]

theorem recordText_eq (r : CfgRecord) : recordText r = (JsonText.ofStrings (recordMembers r)).text := by
  rw [recordMembers, ofStrings_text]
  simp only [recordText, List.flatten_cons, List.flatten_nil, List.append_nil]
  rfl

theorem clear_recordMembers (r : CfgRecord) : Clear (recordMembers r) := by
  have hd (n : ℤ) : ∀ c ∈ (Plain.decimal n).text, isNumber c = true := fun c hc => isNumber_of_mem_decimal hc
  refine clear_of_numbers (recordMembers r).dropLast (.ofAscii "file_info_base64", blobPlain r.fileInfo)
    [ascii "start_time", ascii "end_time", ascii "size", ascii "channel", ascii "type", ascii "sub_type",
      ascii "file_info_base64"] rfl (by decide) (by decide) ?_
  simp only [recordMembers, List.dropLast, List.forall_mem_cons]
  exact ⟨hd _, hd _, hd _, hd _, hd _, hd _, nofun⟩

theorem length_blob (r : CfgRecord) : (base64_encode r.fileInfo).length = 172 := by
  rw [length_base64_encode, r.fileInfo_length]

theorem length_recordText_le (r : CfgRecord) : (recordText r).length ≤ 400 := by
  refine Nat.le_trans (length_flatten_le [15, 11, 14, 11, 10, 11, 13, 11, 10, 11, 14, 11, 22, 172, 2] ?_) (by decide)
  simp only [List.forall₂_cons, List.Forall₂.nil, and_true]
  exact ⟨by decide, length_signed_le _, by decide, length_signed_le _, by decide, length_signed_le _, by decide,
    length_byte_le _, by decide, length_byte_le _, by decide, length_byte_le _, by decide, (length_blob r).le,
    by decide⟩

theorem isRow_recordText (r : CfgRecord) : IsRow rowSize (recordText r) := by
  have hd (n : ℤ) : (125 : UInt8) ∉ Decimal.decimal n := Decimal.not_mem_decimal (by decide)
  have hb : (125 : UInt8) ∉ base64_encode r.fileInfo := not_mem_base64_encode (by simp) _
  have hlen := length_recordText_le r
  refine ⟨List.flatten [ascii "\"start_time\":\"", Decimal.decimal (signed r.startTime), ascii "\",\"end_time\":\"",
    Decimal.decimal (signed r.endTime), ascii "\",\"size\":\"", Decimal.decimal (signed r.size),
    ascii "\",\"channel\":\"", Decimal.decimal r.channel.toNat, ascii "\",\"type\":\"", Decimal.decimal r.type.toNat,
    ascii "\",\"sub_type\":\"", Decimal.decimal r.subType.toNat, ascii "\",\"file_info_base64\":\"",
    base64_encode r.fileInfo, [34]], ?_, ?_, ?_⟩
  · simp only [recordText, List.flatten_cons, List.flatten_nil, List.append_assoc]
    rfl
  · simp only [List.flatten_cons, List.flatten_nil, List.mem_append, hd, hb, false_or]
    decide
  · rw [show rowSize = 512 from rfl]
    omega

/-! ## Reading a record back -/

theorem readHead_recordText (r : CfgRecord) : readHead (recordText r) = some r.toRecordHead := by
  have hc := clear_recordMembers r
  have hlong (s : Plain) (n : UInt32) (hm : (s, Plain.decimal (signed n)) ∈ recordMembers r) := getNumber_signed hc hm
  have hbyte (s : Plain) (n : UInt8) (hm : (s, Plain.decimal n.toNat) ∈ recordMembers r) := getNumber_byte hc hm
  have hstart := hlong (.ofAscii "start_time") r.startTime (by simp [recordMembers])
  have hend := hlong (.ofAscii "end_time") r.endTime (by simp [recordMembers])
  have hsize := hlong (.ofAscii "size") r.size (by simp [recordMembers])
  have hch := hbyte (.ofAscii "channel") r.channel (by simp [recordMembers])
  have htype := hbyte (.ofAscii "type") r.type (by simp [recordMembers])
  have hsub := hbyte (.ofAscii "sub_type") r.subType (by simp [recordMembers])
  simp only [Plain.ofAscii] at hstart hend hsize hch htype hsub
  rw [recordText_eq]
  simp only [readHead, hstart, hend, hsize, hch, htype, hsub, Option.bind_eq_bind, Option.bind_some, ofInt_signed,
    ofInt_toNat8]

theorem getValue_recordText (r : CfgRecord) (buf : List UInt8) :
    getValue (recordText r) (ascii "file_info_base64") buf recordBufSize =
      (0, base64_encode r.fileInfo ++ 0 :: buf.drop 173) := by
  have hm : (Plain.ofAscii "file_info_base64", blobPlain r.fileInfo) ∈ recordMembers r := by simp [recordMembers]
  have hlen : (blobPlain r.fileInfo).text.length = 172 := length_blob r
  have hlt : (blobPlain r.fileInfo).text.length < recordBufSize := by
    rw [hlen]
    decide
  have hg := getValue_member (clear_recordMembers r) hm hlt buf
  rw [hlen, ← recordText_eq, List.append_assoc] at hg
  exact hg

/-- What `base64_decode` finds for a record of the encoder gives the record back, and a terminator behind it. -/
theorem readBlobs_recordText : ∀ (records : List CfgRecord) (buf : List UInt8),
    (readBlobs buf (records.map recordText)).map toRecord = records ∧
      (readBlobs buf (records.map recordText)).map (fun e => (base64_decode e.2).map List.length) =
        records.map fun _ => some 129
  | [], _ => ⟨rfl, rfl⟩
  | r :: rs, buf => by
    obtain ⟨hrec, hlen⟩ := readBlobs_recordText rs (base64_encode r.fileInfo ++ 0 :: buf.drop 173)
    have hdec := base64_decode_encode (buf.drop 173) r.fileInfo
    have hto : toRecord (r.toRecordHead, base64_encode r.fileInfo ++ 0 :: buf.drop 173) = r := by
      have hf : ((base64_decode (base64_encode r.fileInfo ++ 0 :: buf.drop 173)).getD [] ++
          List.replicate 128 0).take 128 = r.fileInfo := by
        rw [hdec, Option.getD_some, List.append_assoc]
        exact List.take_left' r.fileInfo_length
      unfold toRecord
      simp only [hf]
    rw [List.map_cons, readBlobs, readHead_recordText]
    simp only [getValue_recordText]
    rw [if_neg (by decide), List.map_cons, List.map_cons, hrec, hlen, hto, hdec]
    simp [r.fileInfo_length]

/-! ## The list -/

def recordsData (records : List CfgRecord) : List UInt8 :=
  opening "record" records.length ++ commas (records.map recordText) ++ ascii "]\x7d"

theorem encode_getRecords_eq {records : List CfgRecord} (hn : records.length ≤ recordsSize) :
    tool_ptc_qh_d2c_encode_getRecords records = some ((recordsData records).length, recordsData records) := by
  have htext : ∀ r ∈ records, (recordText r).length ≤ 400 := fun r _ => length_recordText_le r
  have htake : (records.map fun r => (recordText r).take (recordBufSize - 1)) = records.map recordText := by
    refine List.map_congr_left fun r _ => List.take_of_length_le ?_
    exact Nat.le_trans (length_recordText_le r) (by decide)
  rw [tool_ptc_qh_d2c_encode_getRecords, if_neg (Nat.not_lt.mpr hn),
    encodeList_bounded recordText recordBufSize (by decide) hn htext (by decide), htake]
  rfl

theorem recordsData_found (records : List CfgRecord) : strstr (ascii "record") (recordsData records) =
    some (ascii "record" ++ 34 :: 58 :: 91 :: (commas (records.map recordText) ++ 93 :: [125])) := by
  rw [recordsData, List.append_assoc]
  exact strstr_opening "record" rfl (by decide) (by decide) (by decide) records.length _

/-- **Record search.** Every list comes back, and a byte more than `file_info` has is written for each record. -/
theorem decode_recordsData {records : List CfgRecord} (hn : records.length ≤ recordsSize) (fuel : ℕ)
    (old : List CfgRecord) : tool_ptc_qh_d2c_decode_getRecords (fuel + 1) (recordsData records) old =
      some ⟨0, records, records.map fun _ => some 129⟩ := by
  have hres : getNumber (recordsData records) (ascii "result") = some 0 := by
    rw [recordsData, List.append_assoc]
    exact getNumber_opening "record" records.length _
  have hrows : ∀ r ∈ records.map recordText, IsRow rowSize r :=
    List.forall_mem_map.mpr fun r _ => isRow_recordText r
  have hx : (records.map recordText).length ≤ recordsSize := by simpa using hn
  have harr := getArray_commas (recordsData_found records) hx hrows fuel
  obtain ⟨hrec, hlen⟩ := readBlobs_recordText records (List.replicate recordBufSize 0)
  simp only [tool_ptc_qh_d2c_decode_getRecords, hres, harr]
  rw [if_neg (by decide), Option.map_some]
  simp only [List.take_of_length_le hx, hrec, hlen]

theorem records_return {records : List CfgRecord} (hn : records.length ≤ recordsSize) (old : List CfgRecord) :
    RecordsReturn records old :=
  ⟨_, _, encode_getRecords_eq hn, rfl, 1, _, decode_recordsData hn 0 old, rfl, rfl⟩

/-! ## Any response -/

theorem length_of_mem_readBlobs : ∀ {rows : List (List UInt8)} {buf : List UInt8} {e : RecordHead × List UInt8},
    buf.length = recordBufSize → e ∈ readBlobs buf rows → e.2.length = recordBufSize
  | [], _, _, _, h => by cases h
  | row :: rows, buf, e, hb, h => by
    have hv : (getValue row (ascii "file_info_base64") buf recordBufSize).2.length = recordBufSize :=
      length_getValue (by decide) row _ hb
    rw [readBlobs] at h
    split at h
    · cases h
    · simp only at h
      split at h
      · cases h
      · cases h with
        | head => exact hv
        | tail _ h => exact length_of_mem_readBlobs hv h

/-- For one entry: what is written stays in the record exactly when the text ends soon enough. -/
theorem written_iff {blob : List UInt8} (hb : blob.length = recordBufSize) :
    (∃ n, (base64_decode blob).map List.length = some n ∧ fileInfoOffset + n ≤ recordSize) ↔ EndsWithin 128 blob := by
  rw [← decode_within_iff blob 128 (by rw [hb]; decide)]
  simp only [Option.map_eq_some_iff, show fileInfoOffset = 32 from rfl, show recordSize = 160 from rfl]
  constructor
  · rintro ⟨n, ⟨bs, hbs, rfl⟩, hle⟩
    exact ⟨bs, hbs, by omega⟩
  · rintro ⟨bs, hbs, hle⟩
    exact ⟨_, ⟨bs, hbs, rfl⟩, by omega⟩

theorem inside_iff (fuel : ℕ) (data : List UInt8) (old : List CfgRecord) :
    (∀ f, tool_ptc_qh_d2c_decode_getRecords fuel data old = some f → f.Inside) ↔
      ∀ b ∈ blobs fuel data, EndsWithin 128 b := by
  cases hres : getNumber data (ascii "result") with
  | none => simp [tool_ptc_qh_d2c_decode_getRecords, blobs, hres, FoundRecords.Inside]
  | some ret =>
    by_cases hret : ret = 0
    · subst hret
      cases harr : getArray fuel data (ascii "record") recordsSize rowSize with
      | none => simp [tool_ptc_qh_d2c_decode_getRecords, blobs, hres, harr]
      | some found =>
        cases found with
        | none => simp [tool_ptc_qh_d2c_decode_getRecords, blobs, hres, harr, FoundRecords.Inside]
        | some rows =>
          have hlen : ∀ e ∈ readBlobs (List.replicate recordBufSize 0) (rows.take recordsSize),
              e.2.length = recordBufSize := fun e he => length_of_mem_readBlobs List.length_replicate he
          simp only [tool_ptc_qh_d2c_decode_getRecords, blobs, hres, harr, ne_eq, not_true_eq_false, if_false,
            Option.map_some, Option.some.injEq, forall_eq', FoundRecords.Inside, List.forall_mem_map]
          refine forall₂_congr fun e he => ?_
          exact written_iff (hlen e he)
    · simp [tool_ptc_qh_d2c_decode_getRecords, blobs, hres, hret, FoundRecords.Inside]

/-- **Record search, any response.** Lists come back as they were sent; and the decoder writes inside the records exactly
when every text it hands to `base64_decode` ends within the 128 bytes of `file_info`. -/
theorem records_inside_iff {records : List CfgRecord} (hn : records.length ≤ recordsSize) (old : List CfgRecord) (fuel : ℕ)
    (data : List UInt8) :
    (RecordsReturn records old ∧ ∀ f, tool_ptc_qh_d2c_decode_getRecords fuel data old = some f → f.Inside) ↔
      ∀ b ∈ blobs fuel data, EndsWithin 128 b := by
  rw [← inside_iff fuel data old]
  exact and_iff_right (records_return hn old)

def emptyRecord : CfgRecord := ⟨⟨0, 0, 0, 0, 0, 0⟩, List.replicate 128 0, rfl⟩

/-- A response with three bytes of `file_info`. -/
def shortResponse : List UInt8 :=
  List.flatten [ascii "\x7b\"result\":\"0\",\"record\":[\x7b\"start_time\":\"1\",\"end_time\":\"2\",\"size\":\"3\",",
    ascii "\"channel\":\"0\",\"type\":\"0\",\"sub_type\":\"0\",\"file_info_base64\":\"QUJD\"\x7d]\x7d"]

theorem records_inside_short : RecordsReturn [emptyRecord] [] ∧
    ∀ f, tool_ptc_qh_d2c_decode_getRecords 1 shortResponse [] = some f → f.Inside :=
  (records_inside_iff (by decide) [] 1 shortResponse).mpr (by decide +kernel)

/-- A record of the encoder is written over its end. -/
theorem record_overrun : ∃ len data, tool_ptc_qh_d2c_encode_getRecords [emptyRecord] = some (len, data) ∧
    ∃ f, tool_ptc_qh_d2c_decode_getRecords 1 data [] = some f ∧ ¬ f.Inside := by
  refine ⟨_, _, encode_getRecords_eq (by decide), _, decode_recordsData (by decide) 0 [], fun h => ?_⟩
  obtain ⟨n, hn, hle⟩ := h (some 129) (by simp)
  cases hn
  exact absurd hle (by decide)

end Qh

end SabApp
