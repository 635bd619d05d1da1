import SabApp.Accesses
import SabApp.JsonSearch

/-!
# What tool_json2_getValue writes

A string and a number are copied by loops that stop at the end of `pch_value` and put a terminator there. `true`, `false`
and `null` are copied whole, whatever the size, and without a terminator.
-/

namespace SabApp

namespace ToolJson2

open CText Traced

/-- A copying loop from index `i` of `pch_value` on. -/
def copyTo (stop : UInt8 → Bool) (size : ℕ) : ℕ → List UInt8 → Traced Access PUnit.{1}
  | i, [] => if i < size then emit (.write i [0]) else pure ⟨⟩
  | i, c :: cs =>
    if i < size then
      if i + 1 = size ∨ stop c then emit (.write i [0])
      else do
        emit (.write i [c])
        copyTo stop size (i + 1) cs
    else pure ⟨⟩

/-- The second loop of `tool_json2_getValue`, and what is returned. -/
def readValueTo (size : ℕ) : List UInt8 → Traced Access ℤ
  | [] => pure (-1)
  | c :: cs =>
    match char (c :: cs) with
    | .quotation => do
      copyTo (· = 34) size 0 cs
      pure 0
    | .false => do
      emit (.write 0 (ascii "false"))
      pure 0
    | .true => do
      emit (.write 0 (ascii "true"))
      pure 0
    | .null => do
      emit (.write 0 (ascii "null"))
      pure 0
    | .number => do
      copyTo (fun c => c = 44 ∨ c = 125) size 0 (c :: cs)
      pure 0
    | .blank => readValueTo size cs
    | _ => pure (-1)

/-- `tool_json2_getValue` with what it writes to `pch_value`. -/
def getValueTo (str name : List UInt8) (size : ℕ) : Traced Access ℤ :=
  match strstr (quotedName name) str with
  | none => pure (-1)
  | some idx =>
    match toColon (idx.drop (quotedName name).length) with
    | none => pure (-1)
    | some idx => readValueTo size idx

/-- Where 0 is returned, `size` bytes at most are written and a text stands in them; `M` is what `pch_value` holds before. -/
def Bounded (str name : List UInt8) (size : ℕ) (M : Mem) : Prop :=
  (getValueTo str name size).value = some 0 → (∀ x ∈ (getValueTo str name size).events, x.Within 0 size) ∧
    ∃ i < size, Access.after M (getValueTo str name size).events i = 0

def literals : List (List UInt8) := [ascii "false", ascii "true", ascii "null"]

/-- Behind the first place of the quoted name are a colon and the literal, with blanks before each. -/
def LiteralAt (str name lit : List UInt8) : Prop :=
  ∃ b b' t, FirstAt (quotedName name) str (b ++ 58 :: (b' ++ (lit ++ t))) ∧ (∀ c ∈ b, isBlank c = true) ∧
    ∀ c ∈ b', isBlank c = true

/-! ## A copying loop -/

section
variable {stop : UInt8 → Bool} {size : ℕ}

/-- From index `i` on it writes what the loop on texts gives, inside of `size` bytes. -/
structure Copies (stop : UInt8 → Bool) (size i : ℕ) (cs : List UInt8) : Prop where
  value : (copyTo stop size i cs).value = some ⟨⟩
  within : ∀ x ∈ (copyTo stop size i cs).events, x.Within 0 size
  result : ∀ M : Mem, Access.after M (copyTo stop size i cs).events = M.write i (copyUntil stop (size - i) cs)

theorem copies_full (cs : List UInt8) : Copies stop size size cs := by
  have hnone : copyTo stop size size cs = pure ⟨⟩ := by
    cases cs with
    | nil => exact if_neg (Nat.lt_irrefl size)
    | cons c cs => exact if_neg (Nat.lt_irrefl size)
  refine ⟨?_, ?_, fun M => ?_⟩
  · rw [hnone]
    rfl
  · rw [hnone]
    exact nofun
  · rw [hnone, Nat.sub_self]
    exact (Mem.write_nil M size).symm

theorem within_one {i : ℕ} (h : i < size) (v : UInt8) : (Access.write i [v]).Within 0 size :=
  ⟨Nat.zero_le i, by rw [List.length_singleton]; exact h⟩

theorem copies_end {i : ℕ} {cs : List UInt8} (h : i < size) (hc : copyTo stop size i cs = emit (.write i [0]))
    (hu : copyUntil stop (size - i) cs = [0]) : Copies stop size i cs := by
  refine ⟨?_, fun x hx => ?_, fun M => ?_⟩
  · rw [hc]
    rfl
  · rw [hc] at hx
    exact List.mem_singleton.mp hx ▸ within_one h 0
  · rw [hc, hu]
    rfl

theorem copies : ∀ (cs : List UInt8) {i : ℕ}, i ≤ size → Copies stop size i cs := by
  intro cs
  induction cs with
  | nil =>
    intro i hi
    rcases hi.eq_or_lt with rfl | hlt
    · exact copies_full []
    obtain ⟨n, hn⟩ := Nat.exists_eq_add_of_lt hlt
    have hleft : size - i = n + 1 := by omega
    exact copies_end hlt (if_pos hlt) (by rw [hleft]; rfl)
  | cons c cs ih =>
    intro i hi
    rcases hi.eq_or_lt with rfl | hlt
    · exact copies_full (c :: cs)
    obtain ⟨n, hn⟩ := Nat.exists_eq_add_of_lt hlt
    have hleft : size - i = n + 1 := by omega
    have hlast : i + 1 = size ↔ n = 0 := by omega
    by_cases hstop : i + 1 = size ∨ stop c
    · refine copies_end hlt ?_ ?_
      · rw [copyTo, if_pos hlt, if_pos hstop]
      · rw [hleft, copyUntil, if_pos (hstop.imp_left hlast.mp)]
    · have hrest := ih (i := i + 1) hlt
      have hnext : size - (i + 1) = n := by omega
      have hstep : copyTo stop size i (c :: cs) =
          ⟨(copyTo stop size (i + 1) cs).value, .write i [c] :: (copyTo stop size (i + 1) cs).events⟩ := by
        rw [copyTo, if_pos hlt, if_neg hstop, bind_some (value_emit _)]
        rfl
      refine ⟨?_, ?_, fun M => ?_⟩
      · rw [hstep]
        exact hrest.value
      · rw [hstep, List.forall_mem_cons]
        exact ⟨within_one hlt c, hrest.within⟩
      · rw [hstep, Access.after_cons, hrest.result, hnext, hleft, copyUntil, if_neg fun h => hstop (h.imp_left hlast.mpr)]
        exact Mem.write_write_append M i [c] (copyUntil stop n cs)

theorem copyUntil_ends : ∀ (cs : List UInt8) (n : ℕ), ∃ v, copyUntil stop (n + 1) cs = v ++ [0] ∧ v.length ≤ n
  | [], n => ⟨[], rfl, Nat.zero_le n⟩
  | c :: cs, n => by
    rw [copyUntil]
    by_cases h : n = 0 ∨ stop c
    · exact ⟨[], by rw [if_pos h]; rfl, Nat.zero_le n⟩
    · obtain ⟨m, rfl⟩ := Nat.exists_eq_succ_of_ne_zero fun h₀ => h (.inl h₀)
      obtain ⟨v, hv, hlen⟩ := copyUntil_ends cs m
      exact ⟨c :: v, by rw [if_neg h, hv]; rfl, Nat.succ_le_succ hlen⟩

end

/-! ## A value -/

/-- A loop from the start leaves a text. -/
theorem copies_text {stop : UInt8 → Bool} {size : ℕ} (h : 1 ≤ size) (cs : List UInt8) (M : Mem) :
    (∀ x ∈ (copyTo stop size 0 cs).events, x.Within 0 size) ∧
      ∃ i < size, Access.after M (copyTo stop size 0 cs).events i = 0 := by
  obtain ⟨n, rfl⟩ := Nat.exists_eq_add_of_le' h
  have hloop : Copies stop (n + 1) 0 cs := copies cs (Nat.zero_le (n + 1))
  obtain ⟨v, hv, hlen⟩ := @copyUntil_ends stop cs n
  refine ⟨hloop.within, v.length, Nat.lt_succ_of_le hlen, ?_⟩
  rw [hloop.result, Nat.sub_zero, hv, Mem.write, if_pos ⟨Nat.zero_le _, by simp⟩]
  simp

/-- What the second loop does, when it returns 0. -/
theorem readValueTo_cases {size : ℕ} {rest : List UInt8} (h : (readValueTo size rest).value = some 0) :
    (∃ stop cs, (readValueTo size rest).events = (copyTo stop size 0 cs).events) ∨
      ∃ lit ∈ literals, (readValueTo size rest).events = [.write 0 lit] ∧
        ∃ b t, rest = b ++ (lit ++ t) ∧ ∀ c ∈ b, isBlank c = true := by
  induction rest with
  | nil => cases h
  | cons c cs ih =>
    have hlooks := char_looks c cs
    have hliteral {lit : List UInt8} (hlit : lit ∈ literals) (hp : lit <+: c :: cs) :
        ∃ lit' ∈ literals, [Access.write 0 lit] = [.write 0 lit'] ∧
          ∃ b t, c :: cs = b ++ (lit' ++ t) ∧ ∀ c ∈ b, isBlank c = true := by
      obtain ⟨t, ht⟩ := hp
      exact ⟨lit, hlit, rfl, [], t, ht.symm, nofun⟩
    rw [readValueTo] at h ⊢
    cases hc : char (c :: cs) with
    | quotation => exact .inl ⟨_, _, events_map _ _⟩
    | number => exact .inl ⟨_, _, events_map _ _⟩
    | blank =>
      rw [hc] at h hlooks
      rcases ih h with hcopy | ⟨lit, hlit, hev, b, t, rfl, hb⟩
      · exact .inl hcopy
      · exact .inr ⟨lit, hlit, hev, c :: b, t, rfl, List.forall_mem_cons.mpr ⟨hlooks, hb⟩⟩
    | false =>
      rw [hc] at hlooks
      exact .inr (hliteral (by simp [literals]) hlooks)
    | true =>
      rw [hc] at hlooks
      exact .inr (hliteral (by simp [literals]) hlooks)
    | null =>
      rw [hc] at hlooks
      exact .inr (hliteral (by simp [literals]) hlooks)
    | _ =>
      rw [hc] at h
      cases h

theorem readValueTo_literal {lit : List UInt8} (hlit : lit ∈ literals) (size : ℕ) {b : List UInt8}
    (hb : ∀ c ∈ b, isBlank c = true) (t : List UInt8) :
    readValueTo size (b ++ (lit ++ t)) = ⟨some 0, [.write 0 lit]⟩ := by
  induction b with
  | nil =>
    simp only [literals, List.mem_cons, List.not_mem_nil, or_false] at hlit
    rcases hlit with rfl | rfl | rfl
    · rfl
    · rfl
    · rfl
  | cons c b ih =>
    rw [List.cons_append, readValueTo, char_of_blank (hb c List.mem_cons_self)]
    exact ih fun x hx => hb x (List.mem_cons_of_mem _ hx)

variable {str name lit : List UInt8} {size : ℕ}

theorem getValueTo_literal (hlit : lit ∈ literals) (h : LiteralAt str name lit) :
    getValueTo str name size = ⟨some 0, [.write 0 lit]⟩ := by
  obtain ⟨b, b', t, hfirst, hb, hb'⟩ := h
  simp only [getValueTo, hfirst.strstr, List.drop_left, toColon_blanks hb]
  exact readValueTo_literal hlit size hb' t

theorem getValueTo_cases (h : (getValueTo str name size).value = some 0) :
    (∃ stop cs, (getValueTo str name size).events = (copyTo stop size 0 cs).events) ∨
      ∃ lit ∈ literals, (getValueTo str name size).events = [.write 0 lit] ∧ LiteralAt str name lit := by
  unfold getValueTo at h ⊢
  cases hs : strstr (quotedName name) str with
  | none =>
    rw [hs] at h
    cases h
  | some found =>
    obtain ⟨rest, rfl, hfirst⟩ := firstAt_of_strstr hs
    simp only [hs, List.drop_left] at h ⊢
    cases hc : toColon rest with
    | none =>
      rw [hc] at h
      cases h
    | some u =>
      obtain ⟨b, rfl, hb⟩ := toColon_eq hc
      simp only [hc] at h ⊢
      refine (readValueTo_cases h).imp_right ?_
      rintro ⟨lit, hlit, hev, b', t, rfl, hb'⟩
      exact ⟨lit, hlit, hev, b, b', t, hfirst, hb, hb'⟩

theorem length_copyUntil_le (stop : UInt8 → Bool) (size : ℕ) (cs : List UInt8) : (copyUntil stop size cs).length ≤ size := by
  cases size with
  | zero => exact Nat.le_refl 0
  | succ n =>
    obtain ⟨v, hv, hlen⟩ := @copyUntil_ends stop cs n
    rw [hv, List.length_append]
    exact Nat.succ_le_succ hlen

/-- The second loop reads what the loop on texts reads, and writes it. -/
theorem readValueTo_spec (size : ℕ) (rest : List UInt8) :
    (readValue size rest = none ∧ readValueTo size rest = ⟨some (-1), []⟩) ∨
      ∃ bytes, readValue size rest = some bytes ∧ bytes.length ≤ max size 5 ∧ (readValueTo size rest).value = some 0 ∧
        ∀ M : Mem, Access.after M (readValueTo size rest).events = M.write 0 bytes := by
  induction rest with
  | nil => exact .inl ⟨rfl, rfl⟩
  | cons c cs ih =>
    have hcopy (stop : UInt8 → Bool) (cs : List UInt8) : (copyUntil stop size cs).length ≤ max size 5 ∧
        (do copyTo stop size 0 cs; pure (0 : ℤ)).value = some 0 ∧
          ∀ M : Mem, Access.after M (do copyTo stop size 0 cs; pure (0 : ℤ)).events = M.write 0 (copyUntil stop size cs) := by
      have hloop : Copies stop size 0 cs := copies cs (Nat.zero_le size)
      refine ⟨(length_copyUntil_le stop size cs).trans (le_max_left ..), ?_, fun M => ?_⟩
      · rw [value_bind, hloop.value]
        rfl
      · rw [events_map]
        exact hloop.result M
    rw [readValue, readValueTo]
    cases hc : char (c :: cs) with
    | quotation => exact .inr ⟨_, rfl, hcopy _ cs⟩
    | number => exact .inr ⟨_, rfl, hcopy _ (c :: cs)⟩
    | blank => exact ih
    | false => exact .inr ⟨_, rfl, le_max_right .., rfl, fun M => rfl⟩
    | true => exact .inr ⟨_, rfl, (by decide : 4 ≤ 5).trans (le_max_right ..), rfl, fun M => rfl⟩
    | null => exact .inr ⟨_, rfl, (by decide : 4 ≤ 5).trans (le_max_right ..), rfl, fun M => rfl⟩
    | _ => exact .inl ⟨rfl, rfl⟩

/-- In memory with room for the size and for a literal, what is returned and what `pch_value` holds then. -/
theorem getValueTo_spec {n : ℕ} (hn : max size 5 ≤ n) (M : Mem) :
    (getValueTo str name size).value = some (getValue str name (M.read 0 n) size).1 ∧
      (Access.after M (getValueTo str name size).events).read 0 n = (getValue str name (M.read 0 n) size).2 := by
  unfold getValueTo getValue
  cases strstr (quotedName name) str with
  | none => exact ⟨rfl, rfl⟩
  | some found =>
    dsimp only
    cases toColon (found.drop (quotedName name).length) with
    | none => exact ⟨rfl, rfl⟩
    | some u =>
      dsimp only
      rw [Int.toNat_natCast]
      rcases readValueTo_spec size u with ⟨hnone, hrun⟩ | ⟨bytes, hbytes, hlen, hv, hafter⟩
      · rw [hnone, hrun]
        exact ⟨rfl, rfl⟩
      · rw [hbytes, hafter]
        exact ⟨hv, Mem.read_write_start M (hlen.trans hn)⟩

/-- A literal is inside, and a text, where the buffer had room and a zero behind it. -/
theorem literal_bounded_iff (hlit : lit ∈ literals) (M : Mem) :
    ((∀ x ∈ [Access.write 0 lit], x.Within 0 size) ∧ ∃ i < size, Access.after M [.write 0 lit] i = 0) ↔
      ∃ i, lit.length ≤ i ∧ i < size ∧ M i = 0 := by
  have hzero : ∀ l ∈ literals, 0 ∉ l := by decide
  have hbyte (i : ℕ) : Access.after M [.write 0 lit] i = 0 ↔ lit.length ≤ i ∧ M i = 0 := by
    rw [Access.after_cons, Access.after_nil, Access.apply, Mem.write]
    by_cases hi : i < lit.length
    · have hne : lit[i] ≠ 0 := fun he => hzero lit hlit (he ▸ List.getElem_mem hi)
      rw [if_pos ⟨Nat.zero_le i, by omega⟩, Nat.sub_zero, List.getD_eq_getElem?_getD, List.getElem?_eq_getElem hi]
      exact iff_of_false hne fun hle => absurd hle.1 (Nat.not_le.mpr hi)
    · rw [if_neg (by omega)]
      exact (and_iff_right (Nat.not_lt.mp hi)).symm
  simp only [List.mem_singleton, forall_eq, Access.Within, Nat.zero_le, true_and, Nat.zero_add, hbyte]
  constructor
  · rintro ⟨-, i, hi, hle, hz⟩
    exact ⟨i, hle, hi, hz⟩
  · rintro ⟨i, hle, hi, hz⟩
    exact ⟨by omega, i, hi, hle, hz⟩

/-- **Values.** What is written is inside and a text if and only if the value is no literal, or the buffer had room for it
and a zero behind it. -/
theorem value_bounded_iff (h : 1 ≤ size) (str name : List UInt8) (M : Mem) :
    Bounded str name size M ↔
      ∀ lit ∈ literals, LiteralAt str name lit → ∃ i, lit.length ≤ i ∧ i < size ∧ M i = 0 := by
  constructor
  · intro hb lit hlit hat
    have hrun : getValueTo str name size = _ := getValueTo_literal hlit hat
    rw [Bounded, hrun] at hb
    exact (literal_bounded_iff hlit M).mp (hb rfl)
  · intro hroom hv
    rcases getValueTo_cases hv with ⟨stop, cs, hev⟩ | ⟨lit, hlit, hev, hat⟩
    · rw [hev]
      exact copies_text h cs M
    · rw [hev]
      exact (literal_bounded_iff hlit M).mpr (hroom lit hlit hat)

/-- `{"a":true}` in eight bytes that are zero. -/
theorem value_bounded_true : Bounded (ascii "\x7b\"a\":true\x7d") (ascii "a") 8 fun _ => 0 := by
  have hshort : ∀ lit ∈ literals, lit.length < 8 := by decide
  exact (value_bounded_iff (by decide) _ _ _).mpr fun lit hlit _ => ⟨lit.length, Nat.le_refl _, hshort lit hlit, rfl⟩

/-- `{"a":false}` in two bytes, and `{"a":true}` in eight that are not zero. -/
theorem value_unbounded : ¬ Bounded (ascii "\x7b\"a\":false\x7d") (ascii "a") 2 (fun _ => 0) ∧
    ¬ Bounded (ascii "\x7b\"a\":true\x7d") (ascii "a") 8 fun _ => 1 := by
  constructor
  · intro h
    have hrun : (getValueTo (ascii "\x7b\"a\":false\x7d") (ascii "a") 2).events = [.write 0 (ascii "false")] := rfl
    obtain ⟨hin, -⟩ := h (by decide)
    rw [hrun] at hin
    exact absurd (hin _ (List.mem_singleton_self _)).2 (by decide)
  · intro h
    obtain ⟨-, hzero⟩ := h (by decide)
    exact absurd hzero (by decide)

end ToolJson2

end SabApp
