import SabApp.QhCodecs
import SabApp.QhRecords

/-!
# Date searches of the QH protocol (tool_ptc.c)

The decoder appends the dates of a response to those that its structure holds already, and callers hand it the same
structure for one search after the other.
-/

namespace SabApp

namespace Qh

open CText ToolJson2

/-- PTC_DATES_SIZE -/
def datesSize : ℕ := 1024

/-- The size of `tmp_buf` in the encoder. -/
def dateBufSize : ℕ := 128

/-- `array_y` -/
def dateRowSize : ℕ := 256

/-- `ptc_cfg_date_t` -/
structure CfgDate where
  year : Int32
  month : Int32
  day : Int32
  deriving DecidableEq

/-- The dates of `ptc_cfg_dates_t`. -/
structure CfgDates where
  num : UInt32
  date : List CfgDate
  date_length : date.length = datesSize
  deriving DecidableEq

/-- `date[0..num)` -/
def CfgDates.held (dates : CfgDates) : List CfgDate := dates.date.take dates.num.toNat

def dateFields (d : CfgDate) : List (Plain × Int32) :=
  [(.ofAscii "year", d.year), (.ofAscii "month", d.month), (.ofAscii "day", d.day)]

/-- What `snprintf` prints of a date. -/
def dateText (d : CfgDate) : List UInt8 := (JsonText.ofStrings (numbers (dateFields d))).text

/-- `tool_ptc_qh_d2c_encode_searchDates`: `head.len` and the data, or -1. -/
def tool_ptc_qh_d2c_encode_searchDates (dates : List CfgDate) : Option (ℕ × List UInt8) :=
  if dates.length > datesSize then none else some (encodeList dateText dateBufSize "date" dates)

/-- A row is read into the place of its date, up to the first member that is missing. -/
def readDate (row : List UInt8) : CfgDate → ℤ × CfgDate :=
  readNumbers row (-8) [("year", fun n d => { d with year := n }), ("month", fun n d => { d with month := n }),
    ("day", fun n d => { d with day := n })]

/-- `date[i] = d` -/
def CfgDates.put (dates : CfgDates) (i : ℕ) (d : CfgDate) : CfgDates where
  num := dates.num
  date := dates.date.set i d
  date_length := by rw [List.length_set, dates.date_length]

/-- The loop over the rows, which ends at PTC_RECORDS_SIZE. -/
def appendDates : List (List UInt8) → CfgDates → ℤ × CfgDates
  | [], dates => (0, dates)
  | row :: rows, dates =>
    if h : recordsSize ≤ dates.num.toNat then (0, dates)
    else
      let r := readDate row (dates.date.get ⟨dates.num.toNat, by rw [dates.date_length]; exact Nat.not_le.mp h⟩)
      let dates := dates.put dates.num.toNat r.2
      if r.1 < 0 then (-8, dates) else appendDates rows { dates with num := dates.num + 1 }

/-- `tool_ptc_qh_d2c_decode_searchDates`, where it returns. -/
def tool_ptc_qh_d2c_decode_searchDates (fuel : ℕ) (data : List UInt8) (dates : CfgDates) : Option (ℤ × CfgDates) :=
  match getNumber data (ascii "result") with
  | none => some (-1, dates)
  | some ret =>
    if ret ≠ 0 then some (Int.bmod (ret * -1) (2 ^ 32), dates)
    else
      (getArray fuel data (ascii "date") datesSize dateRowSize).map fun found =>
        match found with
        | none => (-8, dates)
        | some rows => appendDates rows dates

/-- The list comes back from what is sent of it, into a structure that held others. -/
def DatesReturn (dates : List CfgDate) (old : CfgDates) : Prop :=
  ∃ len data, tool_ptc_qh_d2c_encode_searchDates dates = some (len, data) ∧
    ∃ fuel new, tool_ptc_qh_d2c_decode_searchDates fuel data old = some (0, new) ∧
      new.num.toNat = dates.length ∧ new.held = dates

/-! ## The text of a date -/

theorem message_date (d : CfgDate) : Message (dateText d) (dateFields d) := by
  have h : Apart [ascii "year", ascii "month", ascii "day"] := by decide
  have hm : Message _ (dateFields d) := message_numbers _ rfl h
  have hsmall : Small (numbers (dateFields d)) := small_numbers rfl h
  rwa [hsmall.printed (Nat.le_refl _)] at hm

theorem readDate_dateText (d old : CfgDate) : readDate (dateText d) old = (0, d) :=
  (message_date d).readNumbers [d.year, d.month, d.day]
    (.cons ⟨.ofAscii "year", by simp [dateFields], rfl⟩ (.cons ⟨.ofAscii "month", by simp [dateFields], rfl⟩
      (.cons ⟨.ofAscii "day", by simp [dateFields], rfl⟩ .nil)))

/-- What stands between the braces. -/
def dateBody (d : CfgDate) : List UInt8 :=
  List.flatten [ascii "\"year\":\"", Decimal.decimal d.year.toInt, ascii "\",\"month\":\"",
    Decimal.decimal d.month.toInt, ascii "\",\"day\":\"", Decimal.decimal d.day.toInt, [34]]

theorem dateText_eq (d : CfgDate) : dateText d = 123 :: (dateBody d ++ [125]) := by
  rw [dateText, dateFields, numbers, List.map_cons, ofStrings_text, dateBody]
  simp only [List.flatten_cons, List.flatten_nil, List.append_assoc, List.nil_append]
  rfl

theorem length_dateText_le (d : CfgDate) : (dateText d).length ≤ 64 := by
  have h : (dateBody d).length ≤ 62 := by
    refine length_flatten_le [8, 11, 11, 11, 9, 11, 1] ?_
    simp only [List.forall₂_cons, List.Forall₂.nil, and_true]
    exact ⟨by decide, length_int32_le d.year, by decide, length_int32_le d.month, by decide, length_int32_le d.day,
      by decide⟩
  rw [dateText_eq, List.length_cons, List.length_append, List.length_singleton]
  omega

theorem isRow_dateText (d : CfgDate) : IsRow dateRowSize (dateText d) := by
  have hd (n : ℤ) : (125 : UInt8) ∉ Decimal.decimal n := Decimal.not_mem_decimal (by decide)
  refine ⟨dateBody d, dateText_eq d, ?_, Nat.lt_of_le_of_lt (length_dateText_le d) (by decide)⟩
  simp only [dateBody, List.flatten_cons, List.flatten_nil, List.mem_append, hd, false_or]
  decide

/-! ## Appending -/

theorem take_put {α : Type} {l : List α} {n : ℕ} (h : n < l.length) (a : α) :
    (l.set n a).take (n + 1) = l.take n ++ [a] := by
  rw [List.take_succ_eq_append_getElem (by rwa [List.length_set]), List.take_set_of_le (Nat.le_refl n),
    List.getElem_set_self]

/-- What the loop makes of the texts of dates. -/
theorem appendDates_texts (dates : List CfgDate) : ∀ old : CfgDates, ∃ new,
    appendDates (dates.map dateText) old = (0, new) ∧
      (recordsSize < old.num.toNat → new = old) ∧
      (old.num.toNat ≤ recordsSize → new.num.toNat = min recordsSize (old.num.toNat + dates.length) ∧
        new.held = (old.held ++ dates).take recordsSize) := by
  induction dates with
  | nil =>
    intro old
    refine ⟨old, rfl, fun _ => rfl, fun h => ⟨?_, ?_⟩⟩
    · rw [List.length_nil]
      omega
    · rw [List.append_nil, List.take_of_length_le]
      exact Nat.le_trans (List.length_take_le _ _) h
  | cons d dates ih =>
    intro old
    rw [List.map_cons, appendDates]
    by_cases h : recordsSize ≤ old.num.toNat
    · refine ⟨old, by rw [dif_pos h], fun _ => rfl, fun hle => ⟨?_, ?_⟩⟩
      · omega
      · have hlen : old.held.length = recordsSize := by
          rw [CfgDates.held, List.length_take, old.date_length]
          have : recordsSize = datesSize := rfl
          omega
        rw [← hlen, List.take_left]
    · have hlt : old.num.toNat < recordsSize := Nat.not_le.mp h
      rw [dif_neg h]
      simp only [readDate_dateText]
      have hnum : (old.num + 1).toNat = old.num.toNat + 1 := by
        have : recordsSize = 1024 := rfl
        rw [UInt32.toNat_add, UInt32.toNat_one]
        omega
      obtain ⟨new, hnew, -, hrest⟩ := ih { old.put old.num.toNat d with num := old.num + 1 }
      obtain ⟨hn, hheld⟩ := hrest (by rw [hnum]; omega)
      refine ⟨new, hnew, fun hgt => absurd hgt (by omega), fun _ => ⟨?_, ?_⟩⟩
      · rw [hn, hnum, List.length_cons]
        omega
      · have hput : (old.date.set old.num.toNat d).take (old.num.toNat + 1) = old.held ++ [d] :=
          take_put (by rw [old.date_length]; exact hlt) d
        rw [hheld, CfgDates.held, hnum]
        show List.take recordsSize ((old.date.set old.num.toNat d).take (old.num.toNat + 1) ++ dates) = _
        rw [hput, List.append_assoc, List.singleton_append]

/-- No row takes the number of dates past the table. -/
theorem appendDates_num (rows : List (List UInt8)) : ∀ old : CfgDates,
    (appendDates rows old).2.num.toNat ≤ recordsSize ↔ old.num.toNat ≤ recordsSize := by
  induction rows with
  | nil => exact fun old => Iff.rfl
  | cons row rows ih =>
    intro old
    rw [appendDates]
    split
    · exact Iff.rfl
    · next h =>
      have hlt : old.num.toNat < recordsSize := Nat.not_le.mp h
      have : recordsSize = 1024 := rfl
      dsimp only
      split
      · exact Iff.rfl
      · rw [ih]
        show (old.num + 1).toNat ≤ recordsSize ↔ _
        rw [UInt32.toNat_add, UInt32.toNat_one]
        omega

/-! ## The list -/

/-- The text of a list. -/
def datesData (dates : List CfgDate) : List UInt8 :=
  opening "date" dates.length ++ commas (dates.map dateText) ++ ascii "]\x7d"

theorem encode_searchDates_eq {dates : List CfgDate} (hn : dates.length ≤ datesSize) :
    tool_ptc_qh_d2c_encode_searchDates dates = some ((datesData dates).length, datesData dates) := by
  have htext : ∀ d ∈ dates, (dateText d).length ≤ 64 := fun d _ => length_dateText_le d
  have hmap : (dates.map fun d => (dateText d).take (dateBufSize - 1)) = dates.map dateText :=
    List.map_congr_left fun d _ => List.take_of_length_le (Nat.le_trans (length_dateText_le d) (by decide))
  rw [tool_ptc_qh_d2c_encode_searchDates, if_neg (Nat.not_lt.mpr hn),
    encodeList_bounded dateText dateBufSize (by decide) hn htext (by decide), hmap]
  rfl

theorem getNumber_datesData (dates : List CfgDate) : getNumber (datesData dates) (ascii "result") = some 0 := by
  rw [datesData, List.append_assoc]
  exact getNumber_opening "date" dates.length _

theorem decode_datesData {dates : List CfgDate} (hn : dates.length ≤ datesSize) (fuel : ℕ) (old : CfgDates) :
    tool_ptc_qh_d2c_decode_searchDates (fuel + 1) (datesData dates) old = some (appendDates (dates.map dateText) old) := by
  have hfound : strstr (ascii "date") (datesData dates) =
      some (ascii "date" ++ 34 :: 58 :: 91 :: (commas (dates.map dateText) ++ 93 :: [125])) := by
    rw [datesData, List.append_assoc]
    exact strstr_opening "date" rfl (by decide) (by decide) (by decide) dates.length _
  have harr := getArray_commas hfound (x := datesSize) (by simpa using hn)
    (List.forall_mem_map.mpr fun d _ => isRow_dateText d) fuel
  rw [tool_ptc_qh_d2c_decode_searchDates, getNumber_datesData]
  show (getArray (fuel + 1) (datesData dates) (ascii "date") datesSize dateRowSize).map _ = _
  rw [harr, Option.map_some]

theorem decode_without_fuel (dates : List CfgDate) (old : CfgDates) :
    tool_ptc_qh_d2c_decode_searchDates 0 (datesData dates) old = none := by
  rw [tool_ptc_qh_d2c_decode_searchDates, getNumber_datesData]
  rfl

/-- A list goes through exactly when what the structure held is appended to without a trace. -/
theorem dates_return_iff {dates : List CfgDate} (hn : dates.length ≤ datesSize) (old : CfgDates) :
    DatesReturn dates old ↔ old.num = 0 ∨
      old.num.toNat ≤ datesSize ∧ dates.length = datesSize ∧ dates <+: old.held ++ dates := by
  have hsize : recordsSize = datesSize := rfl
  have hfit : dates.length ≤ recordsSize := hn
  obtain ⟨new, hnew, hpast, hwithin⟩ := appendDates_texts dates old
  have hret : DatesReturn dates old ↔ new.num.toNat = dates.length ∧ new.held = dates := by
    rw [DatesReturn, encode_searchDates_eq hn]
    constructor
    · rintro ⟨len, data, henc, fuel, new', hdec, hnum, hheld⟩
      cases henc
      cases fuel with
      | zero =>
        rw [decode_without_fuel] at hdec
        cases hdec
      | succ fuel =>
        rw [decode_datesData hn, hnew] at hdec
        cases hdec
        exact ⟨hnum, hheld⟩
    · rintro ⟨hnum, hheld⟩
      exact ⟨_, _, rfl, 1, new, by rw [decode_datesData hn, hnew], hnum, hheld⟩
  rw [hret]
  by_cases hle : old.num.toNat ≤ recordsSize
  · obtain ⟨hnum, hheld⟩ := hwithin hle
    rw [hnum, hheld]
    constructor
    · rintro ⟨hlen, heq⟩
      by_cases h0 : old.num = 0
      · exact .inl h0
      · have hpos : old.num.toNat ≠ 0 := fun h => h0 (UInt32.toNat.inj h)
        refine .inr ⟨hle, by omega, ?_⟩
        conv_lhs => rw [← heq]
        exact List.take_prefix _ _
    · rintro (h0 | ⟨-, hlen, hpre⟩)
      · have hnil : old.held = [] := by rw [CfgDates.held, h0, UInt32.toNat_zero, List.take_zero]
        rw [hnil, List.nil_append, List.take_of_length_le hfit, h0, UInt32.toNat_zero]
        exact ⟨by omega, rfl⟩
      · refine ⟨by omega, ?_⟩
        rw [List.prefix_iff_eq_take, hlen] at hpre
        exact hpre.symm
  · rw [hpast (Nat.not_le.mp hle)]
    constructor
    · rintro ⟨hnum, -⟩
      omega
    · rintro (h0 | ⟨hsmall, -⟩)
      · rw [h0, UInt32.toNat_zero] at hle
        omega
      · exact absurd hsmall hle

/-- **Date searches.** A list comes back exactly when the structure held no dates, or as many as leave the same list
again, and the number of dates stays within the table exactly where it was within before. -/
theorem searchDates_exact (old : CfgDates) :
    (∀ dates : List CfgDate, dates.length ≤ datesSize → (DatesReturn dates old ↔ old.num = 0 ∨
      old.num.toNat ≤ datesSize ∧ dates.length = datesSize ∧ dates <+: old.held ++ dates)) ∧
    ∀ fuel data r, tool_ptc_qh_d2c_decode_searchDates fuel data old = some r →
      (r.2.num.toNat ≤ datesSize ↔ old.num.toNat ≤ datesSize) := by
  refine ⟨fun dates hn => dates_return_iff hn old, fun fuel data r h => ?_⟩
  rw [tool_ptc_qh_d2c_decode_searchDates] at h
  split at h
  · cases h
    exact Iff.rfl
  split at h
  · cases h
    exact Iff.rfl
  obtain ⟨found, -, rfl⟩ := Option.map_eq_some_iff.mp h
  cases found with
  | none => exact Iff.rfl
  | some rows => exact appendDates_num rows old

def freshDates : CfgDates := ⟨0, List.replicate datesSize ⟨0, 0, 0⟩, List.length_replicate⟩

theorem searchDates_exact_fresh : DatesReturn [⟨2024, 1, 2⟩] freshDates :=
  ((searchDates_exact freshDates).1 _ (by decide)).mpr (.inl rfl)

/-- One date that the structure held already. -/
def stale : CfgDates := ⟨1, List.replicate datesSize ⟨0, 0, 0⟩, List.length_replicate⟩

/-- A second search into the same structure leaves the date of the first before its own. -/
theorem dates_kept : ¬ ∀ (dates : List CfgDate) (old : CfgDates), dates.length ≤ datesSize → DatesReturn dates old := by
  intro h
  rcases (dates_return_iff (by decide) stale).mp (h [⟨2024, 1, 2⟩] stale (by decide)) with h0 | ⟨-, hlen, -⟩
  · exact absurd h0 (by decide)
  · exact absurd hlen (by decide)

end Qh

end SabApp
