import SabApp.XmLogs

/-!
# The pages of an XM log search (nc_xm.c)

A device that holds a log is read from position 0 to the end of a page that is not full. All of it comes back, but for
data beyond 31 bytes, unless the last page is full and ends at the last position that there is. An entry that is not
understood is told of when the pages come to an end; a device that goes on with full pages is asked for ever.
-/

namespace SabApp

namespace Xm

open CText ToolJson2

section
variable {date2Time : ToolDate → UInt32}

/-! ## A log of the device -/

/-- A member whose value is a text or a number that reads `v`. -/
def Shown (row : List UInt8) (name : String) (v : List UInt8) : Prop :=
  ∃ rest, FirstAt (quotedName (ascii name)) row rest ∧ ReadsOn rest v

structure Entry where
  time : UInt32
  position : ℤ
  type : List UInt8
  data : List UInt8

/-- A well-formed entry with its members, of whose time 31 bytes are read. -/
structure Reads (date2Time : ToolDate → UInt32) (row : List UInt8) (e : Entry) : Prop where
  nul : 0 ∉ row
  time : ∃ v, Shown row "Time" v ∧ tool_sysf_str2tt date2Time (v.take 31) = some e.time
  position : getNumber row (ascii "Position") = some e.position
  type : Shown row "Type" e.type
  data : Shown row "Data" e.data

/-- The log for an entry of a known type. -/
def Entry.log (e : Entry) : Option Qh.LogV2 := (kindOf e.type).map fun kind => newLog e.time kind e.data

/-- The log with as much of the data as is read. -/
def cut (l : Qh.LogV2) : Qh.LogV2 := { l with data := l.data.take 31 }

theorem readValue_shown {v t : List UInt8} (h : ToolJson2.Shows v t) : readValue 32 t = some (v.take 31 ++ [0]) := by
  cases h with
  | string u hv ht =>
    have hall : ∀ x ∈ v, decide (x = 34) = false := fun x hx => decide_eq_false (ne_of_mem_of_not_mem hx hv)
    have hcopy := copyUntil_take (· = 34) (v ++ u) 31
    rw [before_append hall fun c w hc => decide_eq_true (ht c w hc)] at hcopy
    exact congrArg some hcopy
  | number c w u hv hc hw ht =>
    have hcopy := copyUntil_take ToolJson.isEnd (v ++ u) 31
    rw [before_append hw ht] at hcopy
    rw [hv, List.cons_append] at hcopy ⊢
    rw [readValue, char_of_number hc]
    exact congrArg some hcopy

theorem read32_shown {row : List UInt8} {name : String} {v : List UInt8} (hrow : 0 ∉ row) (h : Shown row name v) :
    read32 row name = some (v.take 31) := by
  obtain ⟨rest, hfirst, b, b', t, hrest, hb, hb', hshows⟩ := h
  have hv : 0 ∉ v.take 31 := by
    obtain ⟨a, ha, -⟩ := hfirst
    intro hm
    have ht := hshows.mem (List.mem_of_mem_take hm)
    exact hrow (by rw [ha, hrest]; simp [ht])
  have hvalue : readValue (Int.toNat 32) (b' ++ t) = some (v.take 31 ++ [0]) := by
    rw [readValue_blanks _ hb']
    exact readValue_shown hshows
  have hget : getValue row (ascii name) (List.replicate 32 0) 32 =
      (0, v.take 31 ++ [0] ++ (List.replicate 32 0).drop (v.take 31 ++ [0]).length) := by
    simp only [getValue, hfirst.strstr, List.drop_left, hrest, toColon_blanks hb, hvalue]
  rw [read32, hget]
  dsimp only
  rw [if_neg (by decide), List.append_assoc]
  exact congrArg some (cstr_append_zero hv _)

theorem kindOf_take (type : List UInt8) : kindOf (type.take 31) = kindOf type := by
  unfold kindOf
  rw [List.take_take, Nat.min_self]

theorem Reads.logOf {row : List UInt8} {e : Entry} (h : Reads date2Time row e) :
    logOf date2Time row = some (e.position, e.log.map cut) := by
  obtain ⟨v, hv, htime⟩ := h.time
  simp only [Xm.logOf, read32_shown h.nul hv, read32_shown h.nul h.type, read32_shown h.nul h.data, h.position,
    Option.bind_eq_bind, Option.bind_some, htime, kindOf_take, Entry.log, Option.map_map]
  rfl

/-- The entries at or after a position. -/
def fromPosition (log : List Entry) (p : ℤ) : List Entry := log.filter fun e => p ≤ e.position

/-- A device that holds a log and answers every request with the first of the entries from the asked position on.
Positions count from 0, where the search starts. -/
structure Serves (date2Time : ToolDate → UInt32) (dev : ℕ → ℤ → Answer) (log : List Entry) : Prop where
  sorted : log.Pairwise fun a b => a.position < b.position
  count : ∀ e ∈ log, 0 ≤ e.position
  answers : ∀ k p, ∃ data rows, dev k p = .text data ∧ PageOf data rows ∧
    List.Forall₂ (Reads date2Time) rows ((fromPosition log p).take 128)

theorem readable_reads {rows : List (List UInt8)} {es : List Entry} (h : List.Forall₂ (Reads date2Time) rows es) :
    readable date2Time rows = (es.filterMap Entry.log).map cut ∧ ¬ Broken date2Time rows := by
  induction h with
  | nil => exact ⟨rfl, by simp [Broken]⟩
  | cons hr _ ih =>
    refine ⟨?_, (broken_cons _ hr.logOf).not.mpr ih.2⟩
    rw [readable_cons hr.logOf, ih.1, List.filterMap_cons]
    cases Entry.log _ <;> rfl

theorem Reads.range {row : List UInt8} {e : Entry} (h : Reads date2Time row e) : e.position < 2 ^ 31 := by
  have hp := h.position
  rw [getNumber, Option.map_eq_some_iff] at hp
  obtain ⟨value, -, hvalue⟩ := hp
  exact hvalue ▸ (Qh.readNumber_range value).2

theorem forall₂_concat {α β : Type} {R : α → β → Prop} {xs : List α} {ys : List β} {y : β}
    (h : List.Forall₂ R xs (ys ++ [y])) : ∃ init x, xs = init ++ [x] ∧ List.Forall₂ R init ys ∧ R x y := by
  have hinit := List.forall₂_take_append xs ys [y] h
  have hlast := List.forall₂_drop_append xs ys [y] h
  obtain ⟨x, l, hx, hl, hdrop⟩ := List.forall₂_cons_right_iff.mp hlast
  obtain rfl := List.forall₂_nil_right_iff.mp hl
  exact ⟨xs.take ys.length, x, by rw [← hdrop, List.take_append_drop], hinit, hx⟩

section
variable {dev : ℕ → ℤ → Answer} {log : List Entry} {k : ℕ} {s : LogSearch} {p : ℤ}

theorem mem_fromPosition {e : Entry} : e ∈ fromPosition log p ↔ e ∈ log ∧ p ≤ e.position := by
  rw [fromPosition, List.mem_filter, decide_eq_true_iff]

theorem Serves.range (h : Serves date2Time dev log) : ∀ e ∈ log, e.position < 2 ^ 31 := by
  intro e he
  have hmem : e ∈ fromPosition log e.position := mem_fromPosition.mpr ⟨he, Int.le_refl _⟩
  obtain ⟨data, rows, -, -, hreads⟩ := h.answers 0 e.position
  have hsorted : (fromPosition log e.position).Pairwise _ := h.sorted.sublist List.filter_sublist
  cases hfrom : fromPosition log e.position with
  | nil => rw [hfrom] at hmem; cases hmem
  | cons a rest =>
    -- no entry before it is at or after its position
    obtain rfl : a = e := by
      rw [hfrom] at hmem hsorted
      rcases List.mem_cons.mp hmem with heq | hrest
      · exact heq.symm
      · have hlt := List.rel_of_pairwise_cons hsorted hrest
        have hle := (mem_fromPosition.mp (hfrom ▸ List.mem_cons_self .. : a ∈ fromPosition log e.position)).2
        omega
    rw [hfrom, List.take_succ_cons] at hreads
    obtain ⟨row, -, hrow, -⟩ := List.forall₂_cons_right_iff.mp hreads
    exact hrow.range

/-- What is from behind an entry on is what is behind it. -/
theorem fromPosition_next (h : Serves date2Time dev log) {es rest : List Entry} {e : Entry}
    (hp : fromPosition log p = es ++ e :: rest) : fromPosition log (e.position + 1) = rest := by
  have hsorted : (es ++ e :: rest).Pairwise fun a b => a.position < b.position :=
    hp ▸ h.sorted.sublist List.filter_sublist
  obtain ⟨-, hrest, hbefore⟩ := List.pairwise_append.mp hsorted
  have he : p ≤ e.position := by
    have hmem : e ∈ fromPosition log p := hp ▸ List.mem_append_right _ (List.mem_cons_self ..)
    exact (mem_fromPosition.mp hmem).2
  have hagain : fromPosition log (e.position + 1) = (fromPosition log p).filter fun x => e.position + 1 ≤ x.position := by
    rw [fromPosition, fromPosition, List.filter_filter]
    refine List.filter_congr fun x _ => ?_
    by_cases hx : e.position + 1 ≤ x.position
    · simp [hx, show p ≤ x.position by omega]
    · simp [hx]
  rw [hagain, hp, List.filter_append, List.filter_eq_nil_iff.mpr, List.nil_append, List.filter_cons_of_neg,
    List.filter_eq_self.mpr]
  · exact fun x hx => decide_eq_true (Int.add_one_le_of_lt (List.rel_of_pairwise_cons hrest hx))
  · simp only [decide_eq_true_eq]
    omega
  · intro x hx
    have := hbefore x hx e (List.mem_cons_self ..)
    simp only [decide_eq_true_eq]
    omega

theorem Serves.page (h : Serves date2Time dev log) {data : List UInt8} {rows : List (List UInt8)}
    (ha : dev k p = .text data) (hp : PageOf data rows) :
    List.Forall₂ (Reads date2Time) rows ((fromPosition log p).take 128) := by
  obtain ⟨data', rows', ha', hp', hreads⟩ := h.answers k p
  rw [ha] at ha'
  cases ha'
  rwa [hp.array.unique hp'.array]

theorem scanLogs_reads {rows : List (List UInt8)} {es : List Entry} (h : List.Forall₂ (Reads date2Time) rows es)
    (hs : s.logs.length ≤ 1024) :
    (scanLogs date2Time rows s).logs = (s.logs ++ (es.filterMap Entry.log).map cut).take 1024 ∧
    (scanLogs date2Time rows s).result = s.result := by
  obtain ⟨hread, hbroken⟩ := readable_reads h
  obtain ⟨hlogs, hresult⟩ : (scanLogs date2Time rows s).logs = _ ∧ _ := scanLogs_eq rows s hs
  rw [hread] at hlogs
  refine ⟨hlogs, ?_⟩
  rcases hresult with ⟨hb, -⟩ | ⟨-, hresult⟩
  · exact absurd hb hbroken
  · exact hresult

theorem forward_reads {rows : List (List UInt8)} {es : List Entry} {e : Entry}
    (h : List.Forall₂ (Reads date2Time) rows (es ++ [e]))
    (hroom : (s.logs ++ ((es ++ [e]).filterMap Entry.log).map cut).length < 1024) :
    (scanLogs date2Time rows s).forward.position = Int.bmod (e.position + 1) (2 ^ 32) := by
  have hread := (readable_reads h).1
  obtain ⟨init, row, rfl, hinit, hrow⟩ := forall₂_concat h
  have hbroken := (readable_reads hinit).2
  rw [LogSearch.forward, scanLogs_position hrow.logOf init s hbroken (by rwa [hread])]

theorem full_page {rem : List Entry} (h : 128 ≤ rem.length) :
    ∃ es e rest, rem = es ++ e :: rest ∧ rem.take 128 = es ++ [e] ∧ rem.drop 128 = rest := by
  have hne : rem.take 128 ≠ [] := by
    intro hnil
    have := congrArg List.length hnil
    rw [List.length_take, List.length_nil] at this
    omega
  refine ⟨(rem.take 128).dropLast, (rem.take 128).getLast hne, rem.drop 128, ?_, ?_, rfl⟩
  · rw [List.append_cons, List.dropLast_append_getLast, List.take_append_drop]
  · rw [List.dropLast_append_getLast]

/-- Only full pages, and the last position that there is. -/
def EndsFull (es : List Entry) : Prop := 128 ∣ es.length ∧ es.getLast?.map Entry.position = some (2 ^ 31 - 1)

theorem endsFull_drop {es : List Entry} (h : es.drop 128 ≠ []) : EndsFull (es.drop 128) ↔ EndsFull es := by
  have hlen : 128 < es.length := by
    have := List.length_pos_iff.mpr h
    rw [List.length_drop] at this
    omega
  rw [EndsFull, EndsFull, List.getLast?_drop, if_neg (by omega), List.length_drop]
  exact and_congr_left fun _ => by omega

theorem endsFull_concat {es : List Entry} {e : Entry} :
    EndsFull (es ++ [e]) ↔ 128 ∣ (es ++ [e]).length ∧ e.position = 2 ^ 31 - 1 := by
  rw [EndsFull, List.getLast?_concat, Option.map_some, Option.some.injEq]

theorem EndsFull.length {es : List Entry} (h : EndsFull es) : 128 ≤ es.length := by
  have hne : es ≠ [] := by
    rintro rfl
    cases h.2
  exact Nat.le_of_dvd (List.length_pos_iff.mpr hne) h.1

theorem fromPosition_all (h : ∀ e ∈ log, p ≤ e.position) : fromPosition log p = log :=
  List.filter_eq_self.mpr fun e he => decide_eq_true (h e he)

/-- The position behind the last one is the first. -/
theorem Serves.wraps (h : Serves date2Time dev log) : fromPosition log (Int.bmod (2 ^ 31 - 1 + 1) (2 ^ 32)) = log := by
  refine fromPosition_all fun x hx => ?_
  have := h.count x hx
  have hmin : Int.bmod (2 ^ 31 - 1 + 1) (2 ^ 32) = -2 ^ 31 := by decide
  omega

theorem Serves.nil_of_last (h : Serves date2Time dev log) {es rest : List Entry} {e : Entry}
    (hfrom : fromPosition log p = es ++ e :: rest) (hlast : e.position = 2 ^ 31 - 1) : rest = [] := by
  cases rest with
  | nil => rfl
  | cons x rest =>
    have hsorted : (es ++ e :: x :: rest).Pairwise fun a b => a.position < b.position :=
      hfrom ▸ h.sorted.sublist List.filter_sublist
    have hlt := List.rel_of_pairwise_cons (List.pairwise_append.mp hsorted).2.1 (List.mem_cons_self ..)
    have hx : x ∈ fromPosition log p := by simp [hfrom]
    have := h.range x (mem_fromPosition.mp hx).1
    omega

/-- A full page: on with what is behind it, or with all of the log once more. -/
theorem next_page (h : Serves date2Time dev log) {data : List UInt8} {rows : List (List UInt8)}
    (ha : dev k s.position = .text data) (hp : PageOf data rows) (hlen : 128 ≤ (fromPosition log s.position).length)
    (hroom : (s.logs ++ (((fromPosition log s.position).take 128).filterMap Entry.log).map cut).length < 1024) :
    (fromPosition log (scanLogs date2Time rows s).forward.position = (fromPosition log s.position).drop 128 ∧
      (EndsFull ((fromPosition log s.position).drop 128) ↔ EndsFull (fromPosition log s.position))) ∨
    (fromPosition log (scanLogs date2Time rows s).forward.position = log ∧
      (fromPosition log s.position).drop 128 = [] ∧ EndsFull (fromPosition log s.position)) := by
  obtain ⟨es, e, rest, hfrom, htake, hdrop⟩ := full_page hlen
  have hreads := h.page ha hp
  rw [htake] at hreads hroom
  rw [forward_reads hreads hroom, hdrop]
  have hmem : e ∈ fromPosition log s.position := by simp [hfrom]
  have he := (mem_fromPosition.mp hmem).1
  have hend : e.position < 2 ^ 31 := h.range e he
  have hcount : 0 ≤ e.position := h.count e he
  have hlength : (es ++ [e]).length = 128 := by
    rw [← htake, List.length_take]
    omega
  by_cases hlast : e.position = 2 ^ 31 - 1
  · -- the next position is the first one there is
    obtain rfl := h.nil_of_last hfrom hlast
    refine .inr ⟨?_, rfl, ?_⟩
    · rw [hlast]
      exact h.wraps
    · rw [hfrom]
      exact endsFull_concat.mpr ⟨hlength ▸ Nat.dvd_refl 128, hlast⟩
  · refine .inl ⟨?_, ?_⟩
    · have hnext : Int.bmod (e.position + 1) (2 ^ 32) = e.position + 1 := by
        rw [Int.bmod_def]
        omega
      rw [hnext]
      exact fromPosition_next h hfrom
    · by_cases hrest : rest = []
      · subst hrest
        rw [hfrom]
        exact iff_of_false (fun hf => by cases hf.2) fun hf => hlast (endsFull_concat.mp hf).2
      · rw [← hdrop]
        exact endsFull_drop (by rwa [hdrop])

/-- The logs of some entries as they are stored. -/
def storedLogs (es : List Entry) : List Qh.LogV2 := (es.filterMap Entry.log).map cut

theorem storedLogs_append (es es' : List Entry) : storedLogs (es ++ es') = storedLogs es ++ storedLogs es' := by
  rw [storedLogs, List.filterMap_append, List.map_append]
  rfl

theorem Serves.rows_length (h : Serves date2Time dev log) {data : List UInt8} {rows : List (List UInt8)}
    (ha : dev k p = .text data) (hp : PageOf data rows) : rows.length = min 128 (fromPosition log p).length := by
  rw [(h.page ha hp).length_eq, List.length_take]

/-- The search ends with all from its position on, unless the last page is full and there is no position behind it. -/
theorem search_page (h : Serves date2Time dev log) : ∀ (n k : ℕ) (s : LogSearch),
    (fromPosition log s.position).length < n → s.logs.length ≤ 1024 →
    ¬ (EndsFull (fromPosition log s.position) ∧ (s.logs ++ storedLogs (fromPosition log s.position)).length < 1024) →
    ∃ r, Ends date2Time dev k s r ∧ r.result = s.result ∧
      r.logs = (s.logs ++ storedLogs (fromPosition log s.position)).take 1024
  | n + 1, k, s, hn, hs, hover => by
    by_cases hfull : 1024 ≤ s.logs.length
    · refine ⟨s, .full hfull, rfl, ?_⟩
      rw [List.take_append_of_le_length hfull, List.take_of_length_le hs]
    have hlt : s.logs.length < 1024 := Nat.lt_of_not_le hfull
    obtain ⟨data, rows, ha, hp, hreads⟩ := h.answers k s.position
    obtain ⟨hlogs, hresult⟩ := scanLogs_reads hreads hs
    have hrows := h.rows_length ha hp
    change _ = (s.logs ++ storedLogs _).take 1024 at hlogs
    have hsplit : storedLogs (fromPosition log s.position) =
        storedLogs ((fromPosition log s.position).take 128) ++ storedLogs ((fromPosition log s.position).drop 128) := by
      rw [← storedLogs_append, List.take_append_drop]
    by_cases hlen : 128 ≤ (fromPosition log s.position).length
    · have hmore : 128 ≤ rows.length := by omega
      by_cases hroom : (s.logs ++ storedLogs ((fromPosition log s.position).take 128)).length < 1024
      · rw [List.take_of_length_le (Nat.le_of_lt hroom)] at hlogs
        rcases next_page h ha hp hlen hroom with ⟨hnext, hiff⟩ | ⟨-, hdrop, hends⟩
        · obtain ⟨r, hr, hrresult, hrlogs⟩ := search_page h n (k + 1) (scanLogs date2Time rows s).forward (by
            rw [hnext, List.length_drop]
            omega) (hlogs ▸ Nat.le_of_lt hroom) (by
            rw [hnext, hiff]
            change ¬ (_ ∧ ((scanLogs date2Time rows s).logs ++ _).length < 1024)
            rwa [hlogs, List.append_assoc, ← hsplit])
          refine ⟨r, .more hlt ha hp hmore hr, hrresult.trans hresult, ?_⟩
          rw [hrlogs, hnext, hsplit, ← List.append_assoc, ← hlogs]
          rfl
        · refine absurd ⟨hends, ?_⟩ hover
          rw [hsplit, hdrop]
          simpa [storedLogs] using hroom
      · have hstop : 1024 ≤ (s.logs ++ storedLogs ((fromPosition log s.position).take 128)).length := Nat.le_of_not_lt hroom
        refine ⟨_, .more hlt ha hp hmore (.full ?_), hresult, ?_⟩
        · change 1024 ≤ (scanLogs date2Time rows s).logs.length
          rw [hlogs, List.length_take]
          omega
        · rw [hsplit, ← List.append_assoc, List.take_append_of_le_length hstop]
          exact hlogs
    · refine ⟨_, .last hlt ha hp (by omega), hresult, ?_⟩
      have hwhole : (fromPosition log s.position).take 128 = fromPosition log s.position := List.take_of_length_le (by omega)
      rw [hwhole] at hlogs
      exact hlogs

theorem not_refused {data : List UInt8} {rows : List (List UInt8)} (hp : PageOf data rows) : ¬ Refused data := by
  rintro (h | ⟨fuel, h⟩)
  · exact h hp.ret
  · obtain ⟨fuel', h'⟩ := getArray_iff.mpr ⟨hp.array, hp.few, hp.short⟩
    cases getArray_unique h h'

/-- Where there is no position behind a full last page, the search ends with a full table only. -/
theorem search_overflow (h : Serves date2Time dev log) (hends : EndsFull log) {r : LogSearch}
    (hr : Ends date2Time dev k s r) (hs : s.logs.length ≤ 1024)
    (hrem : s.logs.length < 1024 → EndsFull (fromPosition log s.position)) : 1024 ≤ r.logs.length := by
  induction hr with
  | full hfull => exact hfull
  | unsent hlt ha | lost hlt ha =>
    obtain ⟨data, rows, ha', -⟩ := h.answers _ _
    rw [ha] at ha'
    cases ha'
  | refused hlt ha href =>
    obtain ⟨data, rows, ha', hp, -⟩ := h.answers _ _
    rw [ha] at ha'
    cases ha'
    exact absurd href (not_refused hp)
  | last hlt ha hp hlen =>
    have := (hrem hlt).length
    have := h.rows_length ha hp
    omega
  | more hlt ha hp hlen _ ih =>
    obtain ⟨hlogs, -⟩ := scanLogs_reads (h.page ha hp) hs
    refine ih ?_ fun hlt' => ?_
    · change (scanLogs date2Time _ _).logs.length ≤ 1024
      rw [hlogs]
      exact List.length_take_le ..
    · have hroom := hlt'
      change (scanLogs date2Time _ _).logs.length < 1024 at hroom
      rw [hlogs, List.length_take] at hroom
      rcases next_page h ha hp (hrem hlt).length (by omega) with ⟨hnext, hiff⟩ | ⟨hnext, -, -⟩
      · rw [hnext]
        exact hiff.mpr (hrem hlt)
      · rwa [hnext]

/-- The call returns with the logs of these entries, and without an error. -/
def Exact (date2Time : ToolDate → UInt32) (dev : ℕ → ℤ → Answer) (slot : LogsSlot) (log : List Entry) : Prop :=
  ∃ fuel slot', nc_xm_dev_doLogs date2Time dev fuel slot = some (0, slot') ∧ slot'.result = 0 ∧
    slot'.cfg.log = (log.filterMap Entry.log).take 1024

/-- The call returns and tells of a protocol error. -/
def TellsProtocol (date2Time : ToolDate → UInt32) (dev : ℕ → ℤ → Answer) (slot : LogsSlot) : Prop :=
  ∃ fuel slot', nc_xm_dev_doLogs date2Time dev fuel slot = some (0, slot') ∧ slot'.result = Nc.errProtocol

theorem doLogs_ends_iff {slot : LogsSlot} (hreq : slot.lastReq ≠ slot.curReq) (P : Int32 → List Qh.LogV2 → Prop) :
    (∃ fuel slot', nc_xm_dev_doLogs date2Time dev fuel slot = some (0, slot') ∧ P slot'.result slot'.cfg.log) ↔
      ∃ r, Ends date2Time dev 0 .start r ∧ P r.result r.logs := by
  constructor
  · rintro ⟨fuel, slot', h, hP⟩
    rw [nc_xm_dev_doLogs, if_neg hreq, Option.map_eq_some_iff] at h
    obtain ⟨r, hr, heq⟩ := h
    cases heq
    exact ⟨r, ends_of_searchLogs hr, hP⟩
  · rintro ⟨r, hr, hP⟩
    obtain ⟨fuel, hr⟩ := searchLogs_of_ends hr
    refine ⟨fuel, { slot with cfg.log := r.logs, result := r.result, lastReq := slot.curReq }, ?_, hP⟩
    rw [nc_xm_dev_doLogs, if_neg hreq, hr]
    rfl

theorem cut_take_iff (ls : List Qh.LogV2) : (ls.map cut).take 1024 = ls.take 1024 ↔ ∀ l ∈ ls.take 1024, l.data.length < 32 := by
  rw [← List.map_take]
  conv => lhs; rhs; rw [← List.map_id (ls.take 1024)]
  rw [List.map_inj_left]
  refine forall₂_congr fun l _ => ?_
  constructor
  · intro h
    have := congrArg (fun l => l.data.length) h
    simp only [cut, List.length_take, id_eq] at this
    omega
  · intro h
    rw [cut, List.take_of_length_le (by omega)]
    rfl

/-- All of the log comes back if and only if no data is cut and there is a position behind the last page. -/
theorem exact_iff (h : Serves date2Time dev log) {slot : LogsSlot} (hreq : slot.lastReq ≠ slot.curReq) :
    Exact date2Time dev slot log ↔ (∀ l ∈ (log.filterMap Entry.log).take 1024, l.data.length < 32) ∧
      ¬ (EndsFull log ∧ (log.filterMap Entry.log).length < 1024) := by
  have hall : fromPosition log 0 = log := fromPosition_all h.count
  have hlength : (storedLogs log).length = (log.filterMap Entry.log).length := List.length_map ..
  unfold Exact
  rw [doLogs_ends_iff hreq fun result logs => result = 0 ∧ logs = (log.filterMap Entry.log).take 1024, ← cut_take_iff]
  by_cases hover : EndsFull log ∧ (log.filterMap Entry.log).length < 1024
  · refine iff_of_false ?_ fun hx => hx.2 hover
    rintro ⟨r, hr, -, hlogs⟩
    have hlen := search_overflow h hover.1 hr (Nat.zero_le _) fun _ => by
      change EndsFull (fromPosition log 0)
      rw [hall]
      exact hover.1
    rw [hlogs, List.length_take] at hlen
    omega
  · obtain ⟨r, hr, hresult, hlogs⟩ := search_page h _ 0 .start (Nat.lt_succ_self _) (Nat.zero_le _) (by
      change ¬ (EndsFull (fromPosition log 0) ∧ ([] ++ storedLogs (fromPosition log 0)).length < 1024)
      rwa [hall, List.nil_append, hlength])
    change r.logs = ([] ++ storedLogs (fromPosition log 0)).take 1024 at hlogs
    rw [hall, List.nil_append] at hlogs
    constructor
    · rintro ⟨r', hr', -, hlogs'⟩
      obtain rfl := hr.unique hr'
      exact ⟨hlogs.symm.trans hlogs', hover⟩
    · rintro ⟨hcut, -⟩
      exact ⟨r, hr, hresult, hlogs.trans hcut⟩

end

/-! ## Pages with an entry that is not understood -/

section
variable (date2Time)

def behind (pages : List (List (List UInt8))) : LogSearch :=
  pages.foldl (fun s page => (scanLogs date2Time page s).forward) .start

def stored (pages : List (List (List UInt8))) : List Qh.LogV2 := pages.flatMap (readable date2Time)

/-- One of the pages has an entry that is not understood, with room in the table before it. -/
def MeetsBroken (pages : List (List (List UInt8))) : Prop :=
  ∃ before page after, pages = before ++ page :: after ∧ Broken date2Time page ∧
    (stored date2Time (before ++ [page])).length < 1024

variable (dev : ℕ → ℤ → Answer)

/-- The answer of the device to the request behind some pages. -/
def reply (pages : List (List (List UInt8))) : Answer := dev pages.length (behind date2Time pages).position

def RepliesPage (pages : List (List (List UInt8))) (page : List (List UInt8)) : Prop :=
  ∃ data, reply date2Time dev pages = .text data ∧ PageOf data page

/-- The first answers of the device are these full pages, and the table has room for more. -/
inductive Asked : List (List (List UInt8)) → Prop
  | nil : Asked []
  | snoc {pages : List (List (List UInt8))} {page : List (List UInt8)} (h : Asked pages)
    (hpage : RepliesPage date2Time dev pages page) (hlen : 128 ≤ page.length)
    (hroom : (stored date2Time (pages ++ [page])).length < 1024) : Asked (pages ++ [page])

/-- One of the pages that arrive has an entry that is not understood. -/
def Confuses : Prop := ∃ pages page, Asked date2Time dev pages ∧ RepliesPage date2Time dev pages page ∧ Broken date2Time page

/-- Behind some full pages comes an answer that is refused, or a page that is not full or fills the table, and with
room in the table an entry is met that is not understood. -/
def ComesToError : Prop :=
  ∃ pages, Asked date2Time dev pages ∧
    ((∃ data, reply date2Time dev pages = .text data ∧ Refused data) ∨
      ∃ page, RepliesPage date2Time dev pages page ∧ (page.length < 128 ∨ 1024 ≤ (stored date2Time (pages ++ [page])).length) ∧
        MeetsBroken date2Time (pages ++ [page]))

variable {date2Time} {dev}

theorem behind_concat (pages : List (List (List UInt8))) (page : List (List UInt8)) :
    behind date2Time (pages ++ [page]) = (scanLogs date2Time page (behind date2Time pages)).forward := by
  rw [behind, List.foldl_append]
  rfl

theorem stored_concat (pages : List (List (List UInt8))) (page : List (List UInt8)) :
    stored date2Time (pages ++ [page]) = stored date2Time pages ++ readable date2Time page := by
  rw [stored, List.flatMap_append, List.flatMap_singleton]
  rfl

theorem meetsBroken_concat (pages : List (List (List UInt8))) (page : List (List UInt8)) :
    MeetsBroken date2Time (pages ++ [page]) ↔
      MeetsBroken date2Time pages ∨ Broken date2Time page ∧ (stored date2Time (pages ++ [page])).length < 1024 := by
  constructor
  · rintro ⟨before, page', after, heq, hbroken, hroom⟩
    rcases List.eq_nil_or_concat after with rfl | ⟨after, last, rfl⟩
    · obtain ⟨rfl, hlast⟩ := List.append_inj' heq rfl
      cases hlast
      exact .inr ⟨hbroken, hroom⟩
    · rw [List.concat_eq_append, ← List.cons_append, ← List.append_assoc] at heq
      exact .inl ⟨before, page', after, (List.append_inj' heq rfl).1, hbroken, hroom⟩
  · rintro (⟨before, page', after, rfl, hbroken, hroom⟩ | ⟨hbroken, hroom⟩)
    · exact ⟨before, page', after ++ [page], by simp, hbroken, hroom⟩
    · exact ⟨pages, page, [], rfl, hbroken, hroom⟩

theorem Asked.room {pages : List (List (List UInt8))} (h : Asked date2Time dev pages) :
    (stored date2Time pages).length < 1024 := by
  cases h with
  | nil => exact Nat.zero_lt_succ _
  | snoc _ _ _ hroom => exact hroom

/-- What the state is behind a page, when it was right before it. -/
theorem behind_page (page : List (List UInt8)) {pages : List (List (List UInt8))}
    (hlogs : (behind date2Time pages).logs = stored date2Time pages) (hroom : (stored date2Time pages).length < 1024)
    (hresult : (behind date2Time pages).result = Nc.errProtocol ↔ MeetsBroken date2Time pages) :
    (behind date2Time (pages ++ [page])).logs = (stored date2Time (pages ++ [page])).take 1024 ∧
    ((behind date2Time (pages ++ [page])).result = Nc.errProtocol ↔ MeetsBroken date2Time (pages ++ [page])) := by
  obtain ⟨hscan, hcases⟩ : (scanLogs date2Time page _).logs = _ ∧ _ :=
    scanLogs_eq page (behind date2Time pages) (by rw [hlogs]; omega)
  rw [hlogs, ← stored_concat] at hscan hcases
  rw [behind_concat, meetsBroken_concat]
  refine ⟨hscan, ?_⟩
  rcases hcases with ⟨hbroken, hroom', herr⟩ | ⟨hnone, hsame⟩
  · exact iff_of_true herr (.inr ⟨hbroken, hroom'⟩)
  · change (scanLogs date2Time page (behind date2Time pages)).result = _ ↔ _
    rw [hsame, hresult]
    exact (or_iff_left hnone).symm

theorem Asked.behind {pages : List (List (List UInt8))} (h : Asked date2Time dev pages) :
    (behind date2Time pages).logs = stored date2Time pages ∧
    ((Xm.behind date2Time pages).result = Nc.errProtocol ↔ MeetsBroken date2Time pages) := by
  induction h with
  | nil =>
    have hstart : (Xm.behind date2Time []).result = 0 := rfl
    refine ⟨rfl, iff_of_false (by rw [hstart]; decide) ?_⟩
    rintro ⟨before, page, after, heq, -⟩
    cases before <;> cases heq
  | snoc h _ _ hroom ih =>
    obtain ⟨hlogs, hresult⟩ := behind_page _ ih.1 h.room ih.2
    exact ⟨hlogs.trans (List.take_of_length_le (Nat.le_of_lt hroom)), hresult⟩

theorem ends_of_asked {pages : List (List (List UInt8))} {r : LogSearch} (h : Asked date2Time dev pages)
    (hr : Ends date2Time dev pages.length (behind date2Time pages) r) : Ends date2Time dev 0 .start r := by
  induction h with
  | nil => exact hr
  | snoc h hpage hlen _ ih =>
    obtain ⟨data, ha, hp⟩ := hpage
    rw [List.length_append, List.length_singleton, behind_concat] at hr
    exact ih (.more (h.behind.1 ▸ h.room) ha hp hlen hr)

theorem comes_of_ends {k : ℕ} {s r : LogSearch} (hr : Ends date2Time dev k s r) (hresult : r.result = Nc.errProtocol) :
    ∀ pages, Asked date2Time dev pages → k = pages.length → s = behind date2Time pages → ComesToError date2Time dev := by
  induction hr with
  | full hfull =>
    rintro pages h rfl rfl
    rw [h.behind.1] at hfull
    exact absurd h.room (Nat.not_lt_of_le hfull)
  | unsent _ _ | lost _ _ => cases hresult
  | refused _ ha href =>
    rintro pages h rfl rfl
    exact ⟨pages, h, .inl ⟨_, ha, href⟩⟩
  | @last _ _ data rows _ ha hp hlen =>
    rintro pages h rfl rfl
    rw [← behind_concat] at hresult
    have hmeets := (behind_page rows h.behind.1 h.room h.behind.2).2.mp hresult
    exact ⟨pages, h, .inr ⟨rows, ⟨data, ha, hp⟩, .inl hlen, hmeets⟩⟩
  | @more _ _ r data rows _ ha hp hlen hr ih =>
    rintro pages h rfl rfl
    rw [← behind_concat] at hr
    by_cases hroom : (stored date2Time (pages ++ [rows])).length < 1024
    · exact ih hresult (pages ++ [rows]) (.snoc h ⟨data, ha, hp⟩ hlen hroom) (by simp) (behind_concat ..).symm
    · -- the table is full, so that the next round ends the search
      have hfull : 1024 ≤ (stored date2Time (pages ++ [rows])).length := Nat.le_of_not_lt hroom
      obtain ⟨hlogs, hiff⟩ := behind_page rows h.behind.1 h.room h.behind.2
      have hend : Ends date2Time dev (pages.length + 1) (behind date2Time (pages ++ [rows]))
          (behind date2Time (pages ++ [rows])) := .full (by rw [hlogs, List.length_take]; omega)
      obtain rfl := hr.unique hend
      exact ⟨pages, h, .inr ⟨rows, ⟨data, ha, hp⟩, .inr hfull, hiff.mp hresult⟩⟩

theorem ends_of_comes (h : ComesToError date2Time dev) : ∃ r, Ends date2Time dev 0 .start r ∧ r.result = Nc.errProtocol := by
  obtain ⟨pages, hasked, ⟨data, ha, href⟩ | ⟨page, ⟨data, ha, hp⟩, hlast, hmeets⟩⟩ := h
  · exact ⟨_, ends_of_asked hasked (.refused (hasked.behind.1 ▸ hasked.room) ha href), rfl⟩
  · obtain ⟨hlogs, hiff⟩ := behind_page page hasked.behind.1 hasked.room hasked.behind.2
    refine ⟨behind date2Time (pages ++ [page]), ends_of_asked hasked ?_, hiff.mpr hmeets⟩
    have hroom : (behind date2Time pages).logs.length < 1024 := hasked.behind.1 ▸ hasked.room
    rw [behind_concat] at hlogs ⊢
    by_cases hlen : page.length < 128
    · exact .last hroom ha hp hlen
    · have hfull := hlast.resolve_left hlen
      exact .more hroom ha hp (Nat.le_of_not_lt hlen) (.full (by rw [hlogs, List.length_take]; omega))

theorem tellsProtocol_iff {slot : LogsSlot} (hreq : slot.lastReq ≠ slot.curReq) :
    TellsProtocol date2Time dev slot ↔ ComesToError date2Time dev := by
  unfold TellsProtocol
  rw [doLogs_ends_iff hreq fun result _ => result = Nc.errProtocol]
  constructor
  · rintro ⟨r, hr, hresult⟩
    exact comes_of_ends hr hresult [] .nil rfl rfl
  · exact ends_of_comes

end

end

def request : LogsSlot := ⟨0, 1, ⟨0, 0, []⟩, 0⟩

/-- `{"Ret":100,"OPLogQuery":[]}` -/
def emptyPage : List UInt8 := ascii "\x7b\"Ret\":100,\"OPLogQuery\":[]\x7d"

/-- 128 empty objects in `OPLogQuery`. -/
def brokenPage : List UInt8 :=
  ascii "\x7b\"Ret\":100,\"OPLogQuery\":[" ++ commas (List.replicate 128 (ascii "\x7b\x7d")) ++ ascii "]\x7d"

theorem brokenPage_page : PageOf brokenPage (List.replicate 128 (ascii "\x7b\x7d")) := by
  have hget : getArray 1 brokenPage (ascii "OPLogQuery") 1024 256 = some (some (List.replicate 128 (ascii "\x7b\x7d"))) := by
    decide +kernel
  obtain ⟨harray, hfew, hshort⟩ := getArray_iff.mp ⟨1, hget⟩
  exact ⟨by decide +kernel, harray, hfew, hshort⟩

end Xm

end SabApp
