import SabApp.CText
import SabApp.Runs
import SabApp.Tables

/-!
# Device searches (nc.c, nc_qh.c)

`nc_searchDev` merges what the searches of the four protocols returned. The QH list is the cache that
`nc_qh_run` keeps: each scan cycle puts the answers in front, with `flag` 2, and lets
what the cache held age by one; an entry whose `flag` is used up goes.
-/

namespace SabApp

open CText

/-- `ptc_mcast_search_t`: of its fields `base.dev_id`, `base.flag` and the bytes of the others. -/
structure McastSearch where
  devId : Vector UInt8 64
  flag : Int8
  rest : List UInt8
  deriving DecidableEq

namespace McastSearch

/-- `tool_str_strncmp(.., .., 64) == 0`: the same bytes up to a terminator. -/
def sameId (a b : McastSearch) : Bool := cstr a.devId.toList = cstr b.devId.toList

def withFlag (s : McastSearch) (flag : Int8) : McastSearch := { s with flag }

@[simp] theorem flag_withFlag (s : McastSearch) (f : Int8) : (s.withFlag f).flag = f := rfl

@[simp] theorem sameId_refl (s : McastSearch) : s.sameId s = true := by simp [sameId]

@[simp] theorem sameId_withFlag (s t : McastSearch) (f : Int8) : s.sameId (t.withFlag f) = s.sameId t := rfl

theorem sameId_trans {r s t : McastSearch} (h : r.sameId s = true) (k : s.sameId t = true) : r.sameId t = true := by
  simp only [sameId, decide_eq_true_eq] at h k ⊢
  exact h.trans k

end McastSearch

/-- `ptc_mcast_searchs_t` with its PTC_MCAST_SEARCH_SIZE entries. -/
abbrev Searchs := Table 256 McastSearch

namespace Nc

/-- `nc_searchDev` from the four lists on; each loop compares whole records. -/
def searchDev (qh hy ys xm : Searchs) : Option Searchs :=
  ((Table.empty : Searchs).addNew (· == ·) qh.entries).bind fun searchs =>
    (searchs.addNew (· == ·) hy.entries).bind fun searchs =>
      (searchs.addNew (· == ·) ys.entries).bind fun searchs => searchs.addNew (· == ·) xm.entries

/-- **Search merge.** The first 256 of the distinct devices in order; none is lost while there is room, none
comes twice and no write passes the table. -/
theorem searchDev_merges (qh hy ys xm : Searchs) :
    ∃ t, searchDev qh hy ys xm = some t ∧
      t.entries = ((qh.entries ++ hy.entries ++ ys.entries ++ xm.entries).eraseDups).take 256 ∧
      t.entries.Nodup ∧
      ∀ d ∈ qh.entries ++ hy.entries ++ ys.entries ++ xm.entries, d ∈ t.entries ∨ t.num = 256 := by
  obtain ⟨t₁, h₁, m₁⟩ := (Table.isMerge_empty : Table.IsMerge [] (Table.empty : Searchs)).addNew qh.entries
  obtain ⟨t₂, h₂, m₂⟩ := m₁.addNew hy.entries
  obtain ⟨t₃, h₃, m₃⟩ := m₂.addNew ys.entries
  obtain ⟨t₄, h₄, m₄⟩ := m₃.addNew xm.entries
  refine ⟨t₄, ?_, by simpa [Table.IsMerge] using m₄, m₄.nodup, fun d hd => ?_⟩
  · simp [searchDev, h₁, h₂, h₃, h₄]
  · exact m₄.mem_or_full (by simpa using hd)

end Nc

namespace Qh

/-- The second loop of the merge in `nc_qh_run`. -/
def keep : Searchs → List McastSearch → Option Searchs
  | searchs, [] => some searchs
  | searchs, s :: rest =>
    if s.flag ≤ 0 ∨ s.flag > 2 then keep searchs rest
    else if searchs.num = 256 then some searchs
    else if searchs.misses McastSearch.sameId s then (searchs.push s).bind fun u => keep u rest
    else keep searchs rest

/-- A scan cycle of `nc_qh_run` with what `nc_qh_searchDev` has returned. -/
def cycle (cache answers : Searchs) : Option Searchs :=
  keep (answers.mapEntries (·.withFlag 2)) ((cache.mapEntries fun s => s.withFlag (s.flag - 1)).entries)

/-- Entries that may stay in the cache. -/
def alive (s : McastSearch) : Bool := 0 < s.flag ∧ s.flag ≤ 2

theorem keep_eq (t : Searchs) (l : List McastSearch) : keep t l = t.addNew McastSearch.sameId (l.filter alive) := by
  induction l generalizing t with
  | nil => rfl
  | cons s l ih =>
    by_cases hs : alive s = true
    · have hn : ¬ (s.flag ≤ 0 ∨ s.flag > 2) := by
        simp only [alive, decide_eq_true_eq] at hs
        rintro (h | h)
        · exact absurd hs.1 (Int8.not_lt.mpr h)
        · exact absurd hs.2 (Int8.not_le.mpr h)
      have hf : t.num = 256 ↔ 256 ≤ t.num := ⟨fun h => h.ge, fun h => Nat.le_antisymm t.num_le h⟩
      rw [keep, if_neg hn, List.filter_cons_of_pos hs, Table.addNew]
      simp only [hf, ih]
    · have hn : s.flag ≤ 0 ∨ s.flag > 2 := by
        simp only [alive, decide_eq_true_eq, not_and_or, Int8.not_lt, Int8.not_le] at hs
        exact hs
      rw [keep, if_pos hn, List.filter_cons_of_neg hs, ih]

def Listed (d : McastSearch) (t : Searchs) : Prop := ∃ e ∈ t.entries, e.sameId d = true

/-- One cycle: the answers are there, the rest comes from the cache, and what is alive there stays if there is room. -/
theorem cycle_spec (cache answers : Searchs) : ∃ t, cycle cache answers = some t ∧
    (∀ d ∈ answers.entries, d.withFlag 2 ∈ t.entries) ∧
    (∀ e ∈ t.entries, (∃ d ∈ answers.entries, e = d.withFlag 2) ∨
      ∃ s ∈ cache.entries, alive (s.withFlag (s.flag - 1)) = true ∧ e = s.withFlag (s.flag - 1)) ∧
    ∀ s ∈ cache.entries, alive (s.withFlag (s.flag - 1)) = true → Listed s t ∨ t.num = 256 := by
  obtain ⟨t, ht, hk, ho, hd⟩ := Table.addNew_added McastSearch.sameId_refl
    (((cache.mapEntries fun s => s.withFlag (s.flag - 1)).entries).filter alive) (answers.mapEntries (·.withFlag 2))
  refine ⟨t, by rw [cycle, keep_eq, ht], fun d hd => hk _ ?_, fun e he => ?_, fun s hs ha => ?_⟩
  · exact List.mem_map_of_mem hd
  · rcases ho e he with h | h
    · rw [Table.entries_mapEntries, List.mem_map] at h
      obtain ⟨d, hd, rfl⟩ := h
      exact .inl ⟨d, hd, rfl⟩
    · rw [List.mem_filter, Table.entries_mapEntries, List.mem_map] at h
      obtain ⟨⟨s, hs, rfl⟩, ha⟩ := h
      exact .inr ⟨s, hs, ha, rfl⟩
  · have h := hd (s.withFlag (s.flag - 1)) (by simpa [ha] using ⟨s, hs, rfl⟩)
    simpa [Listed] using h

/-- The answers of the latest cycle; there are none before the first. -/
def latest (cycles : List Searchs) : Searchs := cycles.getLast?.getD .empty

@[simp] theorem latest_nil : latest [] = .empty := rfl

@[simp] theorem latest_snoc (cycles : List Searchs) (a : Searchs) : latest (cycles ++ [a]) = a := by
  simp [latest]

/-- **Ages.** An entry has flag 2 if the latest cycle answered it and flag 1 if the one before did. -/
structure Aged (cycles : List Searchs) (cache : Searchs) : Prop where
  origin : ∀ e ∈ cache.entries, (e.flag = 2 ∧ Listed e (latest cycles)) ∨
    (e.flag = 1 ∧ Listed e (latest cycles.dropLast))
  fresh : ∀ d ∈ (latest cycles).entries, d.withFlag 2 ∈ cache.entries

theorem Aged.cycle {cycles : List Searchs} {cache : Searchs} (h : Aged cycles cache) (answers : Searchs) :
    ∃ t, cycle cache answers = some t ∧ Aged (cycles ++ [answers]) t ∧
      ∀ d ∈ (latest cycles).entries, Listed d t ∨ t.num = 256 := by
  obtain ⟨t, ht, hf, ho, hk⟩ := cycle_spec cache answers
  refine ⟨t, ht, ⟨fun e he => ?_, by simpa using hf⟩, fun d hd => ?_⟩
  · rcases ho e he with ⟨d, hd, rfl⟩ | ⟨s, hs, ha, rfl⟩
    · exact .inl ⟨rfl, d, by simpa using hd, by simp⟩
    · rcases h.origin s hs with ⟨h2, hl⟩ | ⟨h1, -⟩
      · exact .inr ⟨by simp [h2], by simpa [Listed] using hl⟩
      · rw [h1] at ha
        simp [alive] at ha
  · have := hk _ (h.fresh d hd) (by simp [alive])
    simpa [Listed] using this

theorem aged_exec (cycles : List Searchs) : ∃ t, exec cycle Table.empty cycles = some t ∧ Aged cycles t := by
  induction cycles using List.reverseRecOn with
  | nil => exact ⟨_, rfl, by simp, by simp⟩
  | append_singleton cycles a ih =>
    obtain ⟨c, hc, hi⟩ := ih
    obtain ⟨t, ht, ha, -⟩ := hi.cycle a
    exact ⟨t, by rw [exec_append_of hc, exec_singleton, ht], ha⟩

/-- **Cache ageing.** After any cycles and a last one with answers `a`, the cache holds what answered in it, what
answered in the one before if there is room, nothing else, and at most 256 entries. -/
theorem cache_ages (cycles : List Searchs) (a : Searchs) :
    ∃ t, exec cycle Table.empty (cycles ++ [a]) = some t ∧
      (∀ d ∈ a.entries, d.withFlag 2 ∈ t.entries) ∧
      (∀ d ∈ (latest cycles).entries, Listed d t ∨ t.num = 256) ∧
      (∀ d, Listed d t → Listed d a ∨ Listed d (latest cycles)) ∧ t.num ≤ 256 := by
  obtain ⟨c, hc, hi⟩ := aged_exec cycles
  obtain ⟨t, ht, ha, hl⟩ := hi.cycle a
  refine ⟨t, by rw [exec_append_of hc, exec_singleton, ht], by simpa using ha.fresh, hl, ?_, t.num_le⟩
  rintro d ⟨e, he, hd⟩
  have hmove : ∀ {u : Searchs}, Listed e u → Listed d u := fun ⟨x, hx, hs⟩ =>
    ⟨x, hx, McastSearch.sameId_trans hs hd⟩
  have h := ha.origin e he
  simp only [latest_snoc, List.dropLast_concat] at h
  exact h.imp (fun h => hmove h.2) (fun h => hmove h.2)

end Qh

end SabApp
