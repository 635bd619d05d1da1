import SabApp.HyRecords

/-!
# The pages of a HY record search (nc_hy.c)

The device answers a time with the first sixteen records that end after it, and `nc_hy_dev_doRecords` goes on from the
end of the last one while a page is full. The first time is the beginning of the window, for which
`tool_sysf_dateLocal` takes 0 as now.
-/

namespace SabApp

namespace Hy

/-- `localtime_r`, and `mktime` of a date with its year in full. -/
structure LocalTime where
  localtime : UInt32 → Date
  mktime : Date → UInt32

/-- `tool_sysf_dateLocal` and `tool_time_Date2Time`, with what `time(NULL)` returns. -/
def LocalTime.calendar (l : LocalTime) (now : UInt32) : Calendar where
  dateLocal t := l.localtime (if t = 0 then now else t)
  date2Time h := l.mktime { h with year := h.year + 2000 }

/-- A device that holds the records for a channel and a type: one after the other, none empty. -/
structure Recordings (c : Calendar) (recs : List MsgRecord) : Prop where
  sorted : recs.Pairwise fun a b => c.date2Time a.endTime ≤ c.date2Time b.startTime
  lasts : ∀ m ∈ recs, c.date2Time m.startTime < c.date2Time m.endTime

/-- The records that end after `t`. -/
def after (c : Calendar) (recs : List MsgRecord) (t : UInt32) : List MsgRecord :=
  recs.filter fun m => t < c.date2Time m.endTime

/-- The message has the first sixteen records, or all, that end after `t`; the places behind them are not told. -/
structure Answers (c : Calendar) (recs : List MsgRecord) (t : UInt32) (msg : RecordD2c) : Prop where
  len : msg.len = 24 * ((after c recs t).take 16).length
  record : ((after c recs t).take 16) <+: List.ofFn msg.record

/-- The loop over the pages; `dev` has the device's answers, the first one first. -/
def searchPages (c : Calendar) (dev : ℕ → RecordC2d → RecordD2c) : ℕ → ℕ → RecordsPc → RecordsPc
  | k, n + 1, .send s => searchPages c dev (k + 1) n (RecordsWorld.batch c s.ask (dev k s.next))
  | _, _, pc => pc

/-- The search ends without an error and has these records. -/
def Lists (c : Calendar) (dev : ℕ → RecordC2d → RecordD2c) (q : Query) (found : List Record) : Prop :=
  ∃ n s, searchPages c dev 0 n (RecordsWorld.startSearch c q) = .finish s 0 0 ∧ s.got = found

/-- The records that overlap the window. -/
def overlapping (c : Calendar) (q : Query) (recs : List MsgRecord) : List Record :=
  (recs.map (MsgRecord.toRecord c q)).filter fun r => ¬ q.Misses r

/-! ## A page -/

section
variable {c : Calendar} {q : Query}

theorem overlapping_cons (m : MsgRecord) (ms : List MsgRecord) : overlapping c q (m :: ms) =
    (if q.Misses (m.toRecord c q) then [] else [m.toRecord c q]) ++ overlapping c q ms := by
  rw [overlapping, List.map_cons, List.filter_cons]
  by_cases hm : q.Misses (m.toRecord c q)
  · rw [if_neg (by simpa using hm), if_pos hm]
    rfl
  · rw [if_pos (by simpa using hm), if_neg hm]
    rfl

theorem overlapping_append (xs ys : List MsgRecord) :
    overlapping c q (xs ++ ys) = overlapping c q xs ++ overlapping c q ys := by
  rw [overlapping, List.map_append, List.filter_append]
  rfl

/-- The loop over a page of `k` records, the last ones still to come: it takes those that overlap the window, and stops
before the end only with a full table. -/
theorem scan_page (junk : List MsgRecord) (k : ℕ) : ∀ (page : List MsgRecord) (i : ℕ) (got : List Record),
    i + page.length = k → got.length ≤ 1024 → ∃ j,
      scan c q (24 * k) i (page ++ junk) got = (j, (got ++ overlapping c q page).take 1024) ∧
      (j = k ∨ j < k ∧ 1024 ≤ (got ++ overlapping c q page).length)
  | [], i, got, hk, hgot => by
    have hend : (got ++ overlapping c q []).take 1024 = got := by
      rw [overlapping, List.map_nil, List.filter_nil, List.append_nil]
      exact List.take_of_length_le hgot
    refine ⟨i, ?_, .inl hk⟩
    rw [hend, List.nil_append]
    cases junk with
    | nil => rfl
    | cons m junk => rw [scan, if_pos (.inr (by rw [← hk, List.length_nil]; omega))]
  | m :: page, i, got, hk, hgot => by
    rw [List.length_cons] at hk
    rw [List.cons_append, scan]
    by_cases hfull : 1024 ≤ got.length
    · rw [if_pos (.inl hfull)]
      refine ⟨i, ?_, .inr ⟨by omega, Nat.le_trans hfull (by rw [List.length_append]; omega)⟩⟩
      rw [List.take_append_of_le_length hfull, List.take_of_length_le hgot]
    · rw [if_neg (by omega)]
      have hnext : (if q.Misses (m.toRecord c q) then got else got ++ [m.toRecord c q]) ++ overlapping c q page =
          got ++ overlapping c q (m :: page) := by
        rw [overlapping_cons]
        split
        · rfl
        · rw [List.append_assoc]
      obtain ⟨j, hscan, hj⟩ := scan_page junk k page (i + 1)
        (if q.Misses (m.toRecord c q) then got else got ++ [m.toRecord c q]) (by omega) (by
          split
          · exact hgot
          · rw [List.length_append, List.length_singleton]
            omega)
      rw [hnext] at hscan hj
      exact ⟨j, hscan, hj⟩

/-- Ends are in order. -/
theorem Recordings.ends {recs : List MsgRecord} (h : Recordings c recs) :
    recs.Pairwise fun a b => c.date2Time a.endTime < c.date2Time b.endTime :=
  h.sorted.imp_of_mem fun _ hb hab => UInt32.lt_of_le_of_lt hab (h.lasts _ hb)

/-- What ends after the last of a page is what is behind the page. -/
theorem after_page {recs : List MsgRecord} (h : Recordings c recs) {t : UInt32} {page rest : List MsgRecord} {m : MsgRecord}
    (ht : after c recs t = page ++ m :: rest) : after c recs (c.date2Time m.endTime) = rest := by
  have hsorted : (page ++ m :: rest).Pairwise fun a b => c.date2Time a.endTime < c.date2Time b.endTime :=
    ht ▸ h.ends.sublist List.filter_sublist
  obtain ⟨-, hrest, hbefore⟩ := List.pairwise_append.mp hsorted
  have hm : t < c.date2Time m.endTime := by
    have hmem : m ∈ after c recs t := ht ▸ List.mem_append_right _ (List.mem_cons_self ..)
    exact of_decide_eq_true (List.mem_filter.mp hmem).2
  have hagain : after c recs (c.date2Time m.endTime) = (after c recs t).filter fun x => c.date2Time m.endTime < c.date2Time x.endTime := by
    rw [after, after, List.filter_filter]
    refine List.filter_congr fun x _ => ?_
    by_cases hx : c.date2Time m.endTime < c.date2Time x.endTime
    · simp [hx, UInt32.lt_trans hm hx]
    · simp [hx]
  rw [hagain, ht, List.filter_append, List.filter_eq_nil_iff.mpr, List.nil_append, List.filter_cons_of_neg, List.filter_eq_self.mpr]
  · exact fun x hx => decide_eq_true (List.rel_of_pairwise_cons hrest hx)
  · simp
  · intro x hx
    have := hbefore x hx m (List.mem_cons_self ..)
    simpa using UInt32.le_of_lt this

end

/-! ## The search -/

theorem take_take_append {α : Type*} (xs ys : List α) (n : ℕ) : (xs.take n ++ ys).take n = (xs ++ ys).take n := by
  rw [List.take_append, List.take_append, List.take_take, Nat.min_self, List.length_take]
  congr 2
  omega

section
variable {l : LocalTime} {now : UInt32} {q : Query} {recs : List MsgRecord} {s : Search} {t : UInt32} {msg : RecordD2c}

/-- The last record of a full page. -/
theorem full_page {c : Calendar} (hmsg : Answers c recs t msg) (h : ((after c recs t).take 16).length = 16) :
    ∃ page rest, after c recs t = page ++ msg.record 15 :: rest ∧ (after c recs t).take 16 = page ++ [msg.record 15] := by
  obtain ⟨junk, hjunk⟩ := hmsg.record
  have hnil : junk = [] := by
    have hlen := congrArg List.length hjunk
    rw [List.length_append, h, List.length_ofFn] at hlen
    exact List.length_eq_zero_iff.mp (by omega)
  rw [hnil, List.append_nil, List.ofFn_succ', List.concat_eq_append] at hjunk
  refine ⟨_, (after c recs t).drop 16, ?_, hjunk⟩
  rw [List.append_cons]
  exact ((List.take_append_drop 16 _).symm).trans (congrArg (· ++ _) hjunk)

/-- A message: on with what ends after the page, or done. -/
theorem batch_page (hrecs : Recordings (l.calendar now) recs) (hq : s.query = q) (hgot : s.got.length ≤ 1024)
    (hmsg : Answers (l.calendar now) recs t msg) :
    RecordsWorld.batch (l.calendar now) s msg =
      .finish { s with got := (s.got ++ overlapping (l.calendar now) q (after (l.calendar now) recs t)).take 1024 } 0 0 ∨
    ∃ s', RecordsWorld.batch (l.calendar now) s msg = .send s' ∧ s'.query = q ∧ s'.got.length ≤ 1024 ∧
      s'.next.channelNo = s.next.channelNo ∧ s'.next.type = s.next.type ∧
      (after (l.calendar now) recs (l.mktime s'.next.date)).length < (after (l.calendar now) recs t).length ∧
      (s'.got ++ overlapping (l.calendar now) q (after (l.calendar now) recs (l.mktime s'.next.date))).take 1024 =
        (s.got ++ overlapping (l.calendar now) q (after (l.calendar now) recs t)).take 1024 := by
  subst hq
  have hnext : l.mktime { (msg.record 15).endTime with year := (msg.record 15).endTime.year + 2000 } =
      (l.calendar now).date2Time (msg.record 15).endTime := rfl
  generalize l.calendar now = c at *
  obtain ⟨junk, hjunk⟩ := hmsg.record
  obtain ⟨j, hscan, hj⟩ := scan_page (c := c) (q := s.query) junk ((after c recs t).take 16).length ((after c recs t).take 16) 0
    s.got (Nat.zero_add _) hgot
  have hlen : ((after c recs t).take 16).length ≤ 16 := List.length_take_le ..
  have hsplit := List.take_append_drop 16 (after c recs t)
  unfold RecordsWorld.batch
  rw [hmsg.len, ← hjunk, hscan]
  dsimp only
  by_cases h16 : j = 16
  · -- a full page, and the table may be full as well
    obtain ⟨page, rest, hafter, hpage⟩ := full_page hmsg (by omega)
    have hrest := after_page hrecs hafter
    rw [if_pos h16]
    refine .inr ⟨_, rfl, rfl, List.length_take_le .., rfl, rfl, ?_, ?_⟩
    · rw [hnext, hrest, hafter, List.length_append, List.length_cons]
      omega
    · rw [hnext, hrest, take_take_append, hpage, hafter, List.append_assoc, ← overlapping_append, List.append_assoc]
      rfl
  · rw [if_neg h16]
    refine .inl ?_
    congr 2
    rcases hj with hj | ⟨hj, hfull⟩
    · -- a page that is not full is the last one
      have hwhole : (after c recs t).take 16 = after c recs t := by
        rw [List.length_take] at hj
        exact List.take_of_length_le (by omega)
      rw [hwhole]
    · conv => rhs; rw [← hsplit]
      rw [overlapping_append, ← List.append_assoc, List.take_append_of_le_length hfull]

/-- The device answers every request for the channel and the type. -/
def Holds (c : Calendar) (l : LocalTime) (recs : List MsgRecord) (ch : ℕ) (type : UInt8) (dev : ℕ → RecordC2d → RecordD2c) :
    Prop :=
  ∀ k req, req.channelNo = ch + 1 → req.type = type → Answers c recs (l.mktime req.date) (dev k req)

variable {ch : ℕ} {type : UInt8} {dev : ℕ → RecordC2d → RecordD2c}

theorem searchPages_finish {c : Calendar} {k : ℕ} (n : ℕ) (s : Search) (result ret : Int32) :
    searchPages c dev k n (.finish s result ret) = .finish s result ret := by
  cases n <;> rfl

theorem searchPages_send (hrecs : Recordings (l.calendar now) recs) (hdev : Holds (l.calendar now) l recs ch type dev) :
    ∀ (n k : ℕ) {s : Search}, s.query = q → s.got.length ≤ 1024 → s.next.channelNo = ch + 1 → s.next.type = type →
    (after (l.calendar now) recs (l.mktime s.next.date)).length < n → ∃ s',
      searchPages (l.calendar now) dev k n (.send s) = .finish s' 0 0 ∧
      s'.got = (s.got ++ overlapping (l.calendar now) q (after (l.calendar now) recs (l.mktime s.next.date))).take 1024
  | n + 1, k, s, hq, hgot, hch, htype, hn => by
    have hmsg := hdev k s.next hch htype
    rw [searchPages]
    rcases batch_page (s := s.ask) hrecs hq hgot hmsg with hb | ⟨s₁, hb, hq₁, hgot₁, hch₁, htype₁, hless, heq⟩
    · exact ⟨_, (congrArg (searchPages (l.calendar now) dev (k + 1) n) hb).trans (searchPages_finish ..), rfl⟩
    · rw [hb]
      obtain ⟨s', hs', hfound⟩ := searchPages_send hrecs hdev n (k + 1) hq₁ hgot₁ (hch₁.trans hch) (htype₁.trans htype)
        (by omega)
      exact ⟨s', hs', hfound.trans heq⟩

/-- Whatever the window, the search ends, with what ends after its first time. -/
theorem search_ends (hrecs : Recordings (l.calendar now) recs) (hdev : Holds (l.calendar now) l recs ch type dev)
    (hinv : ∀ t, l.mktime (l.localtime t) = t) (htype : q.deviceType = some type) (hch : q.channelNo = some ch) :
    Lists (l.calendar now) dev q ((overlapping (l.calendar now) q
      (after (l.calendar now) recs (if q.startTime = 0 then now else q.startTime))).take 1024) := by
  have hstart : RecordsWorld.startSearch (l.calendar now) q =
      .send ⟨q, [], ⟨ch + 1, (l.calendar now).dateLocal q.startTime, type⟩, []⟩ := by
    unfold RecordsWorld.startSearch
    rw [htype, hch]
  obtain ⟨s, hs, hgot⟩ := searchPages_send hrecs hdev _ 0 (s := ⟨q, [], ⟨ch + 1, (l.calendar now).dateLocal q.startTime, type⟩, []⟩)
    rfl (Nat.zero_le _) rfl rfl (Nat.lt_succ_self _)
  refine ⟨_, s, by rw [hstart]; exact hs, hgot.trans ?_⟩
  rw [List.nil_append]
  dsimp only [LocalTime.calendar]
  rw [hinv]

theorem searchPages_more {c : Calendar} {s' : Search} {result ret : Int32} : ∀ {n k : ℕ} {pc : RecordsPc},
    searchPages c dev k n pc = .finish s' result ret → ∀ m, n ≤ m → searchPages c dev k m pc = .finish s' result ret
  | 0, k, pc, h, m, _ => by
    rw [searchPages] at h
    · subst h
      cases m <;> rfl
    · exact nofun
  | n + 1, k, pc, h, m + 1, hm => by
    cases pc with
    | send s =>
      rw [searchPages] at h ⊢
      exact searchPages_more h m (Nat.le_of_succ_le_succ hm)
    | _ => exact h

/-- There is one result. -/
theorem Lists.unique {c : Calendar} {found found' : List Record} (h : Lists c dev q found) (h' : Lists c dev q found') :
    found = found' := by
  obtain ⟨n, s, hs, rfl⟩ := h
  obtain ⟨n', s', hs', rfl⟩ := h'
  have h₁ := searchPages_more hs (max n n') (Nat.le_max_left ..)
  have h₂ := searchPages_more hs' (max n n') (Nat.le_max_right ..)
  rw [h₁] at h₂
  cases h₂
  rfl

end

/-! ## What is lost -/

section
variable {c : Calendar} {q : Query} {recs : List MsgRecord}

theorem overlapping_after (t : UInt32) : overlapping c q (after c recs t) =
    (overlapping c q recs).filter fun r => t < r.endTime := by
  rw [overlapping, overlapping, after, List.filter_filter, List.filter_map, List.filter_map, List.filter_filter]
  congr 1
  refine List.filter_congr fun m _ => ?_
  simp only [Function.comp_apply]
  rw [Bool.and_comm]
  rfl

/-- Leaving out what ends by `t` makes no difference if and only if nothing that overlaps the window does. -/
theorem overlapping_after_iff (hrecs : Recordings c recs) (t : UInt32) :
    (overlapping c q (after c recs t)).take 1024 = (overlapping c q recs).take 1024 ↔
      ∀ r ∈ overlapping c q recs, t < r.endTime := by
  rw [overlapping_after]
  constructor
  · intro h
    cases hover : overlapping c q recs with
    | nil => exact nofun
    | cons r rest =>
      have hmem : r ∈ ((overlapping c q recs).filter fun r => t < r.endTime).take 1024 := by
        rw [h, hover]
        exact List.mem_cons_self ..
      have hr : t < r.endTime := of_decide_eq_true (List.mem_filter.mp (List.mem_of_mem_take hmem)).2
      have hall : (recs.map (MsgRecord.toRecord c q)).Pairwise fun a b => a.endTime < b.endTime :=
        List.pairwise_map.mpr hrecs.ends
      have hsorted := hall.sublist (List.filter_sublist (p := fun r => ¬ q.Misses r))
      change (overlapping c q recs).Pairwise _ at hsorted
      rw [hover] at hsorted
      intro r' hr'
      rcases List.mem_cons.mp hr' with rfl | hr'
      · exact hr
      · exact UInt32.lt_trans hr (List.rel_of_pairwise_cons hsorted hr')
  · intro h
    rw [List.filter_eq_self.mpr fun r hr => decide_eq_true (h r hr)]

theorem overlapping_start {r : Record} (h : r ∈ overlapping c q recs) : q.startTime < r.endTime := by
  have hr := of_decide_eq_true (List.mem_filter.mp h).2
  exact UInt32.not_le.mp fun hle => hr (.inl hle)

end

/-- **Pages.** The search ends, and it finds all that overlaps the window if and only if the window begins at another
time than 0 or nothing that overlaps it has ended by now. -/
theorem doRecords_exact_iff {l : LocalTime} {now : UInt32} {q : Query} {recs : List MsgRecord} {ch : ℕ} {type : UInt8}
    {dev : ℕ → RecordC2d → RecordD2c} (hinv : ∀ t, l.mktime (l.localtime t) = t) (hrecs : Recordings (l.calendar now) recs)
    (hdev : Holds (l.calendar now) l recs ch type dev) (htype : q.deviceType = some type) (hch : q.channelNo = some ch) :
    (∃ found, Lists (l.calendar now) dev q found) ∧
    (Lists (l.calendar now) dev q ((overlapping (l.calendar now) q recs).take 1024) ↔
      q.startTime ≠ 0 ∨ ∀ r ∈ overlapping (l.calendar now) q recs, now < r.endTime) := by
  have hends := search_ends hrecs hdev hinv htype hch
  refine ⟨⟨_, hends⟩, ?_⟩
  have hfinds : Lists (l.calendar now) dev q ((overlapping (l.calendar now) q recs).take 1024) ↔
      (overlapping (l.calendar now) q (after (l.calendar now) recs (if q.startTime = 0 then now else q.startTime))).take 1024 =
        (overlapping (l.calendar now) q recs).take 1024 :=
    ⟨fun h => hends.unique h, fun h => h ▸ hends⟩
  rw [hfinds, overlapping_after_iff hrecs]
  by_cases h0 : q.startTime = 0
  · rw [if_pos h0]
    exact ⟨.inr, fun h => h.resolve_left (not_not.mpr h0)⟩
  · rw [if_neg h0]
    exact iff_of_true (fun r hr => overlapping_start hr) (.inl h0)

/-! ## A device with one recording -/

/-- UTC on the first day of 2000; the other times have no date of their own. -/
def firstDayOnly : LocalTime where
  localtime t :=
    let s := t.toNat - 946684800
    if 946684800 ≤ t.toNat ∧ s < 86400 then ⟨2000, 1, 1, s / 3600, s / 60 % 60, s % 60⟩ else ⟨0, 0, 0, 0, 0, t.toNat⟩
  mktime d := if d.year = 0 then .ofNat d.second else .ofNat (946684800 + d.hour * 3600 + d.minute * 60 + d.second)

theorem firstDayOnly_inv (t : UInt32) : firstDayOnly.mktime (firstDayOnly.localtime t) = t := by
  dsimp only [firstDayOnly]
  split
  · next h =>
    rw [if_neg (show ¬ (2000 : ℕ) = 0 by decide)]
    refine (congrArg UInt32.ofNat ?_).trans (UInt32.ofNat_toNat (x := t))
    dsimp only
    omega
  · exact UInt32.ofNat_toNat

/-- From 0:05 to 0:10. -/
def morningRecord : MsgRecord := RecordsWorld.firstMorning.record 0

/-- It answers a time before the end of the recording with the recording. -/
def morningDevice (now : UInt32) : ℕ → RecordC2d → RecordD2c := fun _ req =>
  ⟨24 * (after (firstDayOnly.calendar now) [morningRecord] (firstDayOnly.mktime req.date)).length, fun _ => morningRecord⟩

theorem morning_recordings (now : UInt32) : Recordings (firstDayOnly.calendar now) [morningRecord] := by
  refine ⟨List.pairwise_singleton .., fun m hm => ?_⟩
  rw [List.mem_singleton.mp hm]
  exact (by decide : firstDayOnly.mktime ⟨2000, 1, 1, 0, 5, 0⟩ < firstDayOnly.mktime ⟨2000, 1, 1, 0, 10, 0⟩)

theorem morning_holds (now : UInt32) (ch : ℕ) (type : UInt8) :
    Holds (firstDayOnly.calendar now) firstDayOnly [morningRecord] ch type (morningDevice now) := by
  intro k req _ _
  have hle : (after (firstDayOnly.calendar now) [morningRecord] (firstDayOnly.mktime req.date)).length ≤ 1 :=
    List.length_filter_le ..
  have htake := List.take_of_length_le (Nat.le_trans hle (by decide : 1 ≤ 16))
  refine ⟨by rw [htake]; rfl, ?_⟩
  rw [htake]
  have hsub : List.Sublist (after (firstDayOnly.calendar now) [morningRecord] (firstDayOnly.mktime req.date)) [morningRecord] :=
    List.filter_sublist
  rcases List.sublist_singleton.mp hsub with h | h
  · rw [h]
    exact List.nil_prefix
  · rw [h]
    exact ⟨List.ofFn fun _ : Fin 15 => morningRecord, rfl⟩

theorem doRecords_exact_morning : Lists (firstDayOnly.calendar 1500000000) (morningDevice 1500000000) RecordsWorld.earlyQuery
    ((overlapping (firstDayOnly.calendar 1500000000) RecordsWorld.earlyQuery [morningRecord]).take 1024) :=
  (doRecords_exact_iff firstDayOnly_inv (morning_recordings _) (morning_holds 1500000000 0 0) rfl rfl).2.mpr (.inl (by decide))

/-- All there is on channel 0. -/
def wholeQuery : Query := ⟨0, 4294967295, 1, 1, 0⟩

/-- What has ended by now is not found from 0 on. -/
theorem doRecords_loses : ¬ Lists (firstDayOnly.calendar 1500000000) (morningDevice 1500000000) wholeQuery
    ((overlapping (firstDayOnly.calendar 1500000000) wholeQuery [morningRecord]).take 1024) := by
  intro h
  have hends := search_ends (q := wholeQuery) (morning_recordings _) (morning_holds 1500000000 0 0) firstDayOnly_inv rfl rfl
  have hall := (overlapping_after_iff (morning_recordings _) _).mp (hends.unique h)
  have hlt := hall (morningRecord.toRecord (firstDayOnly.calendar 1500000000) wholeQuery) (by decide)
  exact absurd hlt (by decide)

/-! ## The device thread -/

theorem searchPages_query {c : Calendar} {dev : ℕ → RecordC2d → RecordD2c} : ∀ (n k : ℕ) {pc : RecordsPc} {s : Search},
    pc.search = some s → ∃ s', (searchPages c dev k n pc).search = some s' ∧ s'.query = s.query
  | 0, k, pc, s, h => ⟨s, by rw [searchPages]; exact h; exact nofun, rfl⟩
  | n + 1, k, pc, s, h => by
    cases pc with
    | send s₀ =>
      cases h
      have hbatch : ∃ s₁, (RecordsWorld.batch c s.ask (dev k s.next)).search = some s₁ ∧ s₁.query = s.query := by
        unfold RecordsWorld.batch
        dsimp only
        split <;> exact ⟨_, rfl, rfl⟩
      obtain ⟨s₁, hs₁, hq₁⟩ := hbatch
      obtain ⟨s', hs', hq'⟩ := searchPages_query n (k + 1) hs₁
      exact ⟨s', by rw [searchPages]; exact hs', hq'.trans hq₁⟩
    | _ => exact ⟨s, h, rfl⟩

theorem searchPages_run (c : Calendar) (dev : ℕ → RecordC2d → RecordD2c) : ∀ (n k : ℕ) (w : RecordsWorld), ∃ acts,
    exec (RecordsWorld.step c) w acts = some { w with dev.pc := searchPages c dev k n w.dev.pc }
  | 0, k, w => ⟨[], by rw [searchPages]; rfl; rintro _ _ ⟨⟩⟩
  | n + 1, k, w => by
    cases hpc : w.dev.pc with
    | send s =>
      obtain ⟨acts, hacts⟩ := searchPages_run c dev n (k + 1)
        { w with dev.pc := RecordsWorld.batch c s.ask (dev k s.next) }
      refine ⟨.sendMsg true :: .recvMsg (some (dev k s.next)) :: acts, ?_⟩
      rw [searchPages, exec_cons, RecordsWorld.step, hpc, Option.bind_some, exec_cons]
      exact hacts
    | _ => exact ⟨[], by rw [searchPages, ← hpc]; rfl; rintro _ _ ⟨⟩ ⟨⟩⟩

/-- A device thread that finds a query answers it with what the search finds. -/
theorem doRecords_run {c : Calendar} {dev : ℕ → RecordC2d → RecordD2c} {w : RecordsWorld} (hpc : w.dev.pc = .idle)
    (hlive : w.dev.live = true) (hnew : w.dev.records.last ≠ w.dev.records.cur) {found : List Record}
    (hfinds : Lists c dev w.dev.records.cfg.query found) : ∃ acts t,
    exec (RecordsWorld.step c) w (.doRecords :: (acts ++ [.finish])) = some t ∧ t.dev.pc = .idle ∧
      t.dev.records.cfg = ⟨w.dev.records.cfg.query, found⟩ ∧ t.dev.result = 0 := by
  obtain ⟨n, s, hs, rfl⟩ := hfinds
  have hbegin : RecordsWorld.step c w .doRecords =
      some { w with dev.pc := RecordsWorld.startSearch c w.dev.records.cfg.query, copied := w.calls.length } := by
    rw [RecordsWorld.step, hpc, hlive, RecordsWorld.doRecords, if_neg hnew]
  have hquery : s.query = w.dev.records.cfg.query := by
    have hstart : ∃ s₀, (RecordsWorld.startSearch c w.dev.records.cfg.query).search = some s₀ ∧
        s₀.query = w.dev.records.cfg.query := by
      unfold RecordsWorld.startSearch
      split <;> exact ⟨_, rfl, rfl⟩
    obtain ⟨s₀, hs₀, hq₀⟩ := hstart
    obtain ⟨s', hs', hq'⟩ := searchPages_query n 0 hs₀
    rw [hs] at hs'
    cases hs'
    exact hq'.trans hq₀
  obtain ⟨acts, t, hacts, ht⟩ : ∃ acts t, exec (RecordsWorld.step c)
      { w with dev.pc := RecordsWorld.startSearch c w.dev.records.cfg.query, copied := w.calls.length } acts = some t ∧
      t.dev.pc = .finish s 0 0 := by
    obtain ⟨acts, hacts⟩ := searchPages_run c dev n 0
      { w with dev.pc := RecordsWorld.startSearch c w.dev.records.cfg.query, copied := w.calls.length }
    exact ⟨acts, _, hacts, hs⟩
  have hstore : RecordsWorld.step c t .finish = some (t.store s 0 0) := by
    rw [RecordsWorld.step, ht]
  refine ⟨acts, t.store s 0 0, ?_, rfl, congrArg (Records.mk · s.got) hquery, rfl⟩
  rw [exec_cons, hbegin, Option.bind_some, exec_append_of hacts, exec_singleton, hstore]

end Hy

end SabApp
