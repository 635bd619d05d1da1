import SabApp.Accesses
import SabApp.Utf8

/-!
# What utf8_to_unicode reads

A lead byte makes `p` pass the bytes that it announces. Where the text ends before them `p` passes the terminator, and the
loop goes on behind it.
-/

namespace SabApp

namespace Utf8

open CText Traced

inductive DecodeEffect where
  /-- A byte of the text is read. -/
  | text (a : ℕ)
  /-- An access to `result`. -/
  | out (x : Access)

namespace DecodeEffect

/-- No byte of the text behind `last`, and of the result none from `room` on. -/
def InPlace (last room : ℕ) : DecodeEffect → Prop
  | text a => a ≤ last
  | out x => x.Within 0 room

def out? : DecodeEffect → Option Access
  | text _ => none
  | out x => some x

end DecodeEffect

/-- `p`, `tmp` and `resultsize`. -/
structure DecodeState where
  p : ℕ
  tmp : ℕ
  resultsize : ℕ

/-- A turn of the loop; bytes that `tmp` passes one after the other are one access. -/
def decodeTurn (m : Mem) (s : DecodeState) : Traced DecodeEffect (DecodeState ⊕ DecodeState) :=
  let c := m s.p
  if c = 0 then do
    emit (.text s.p)
    pure (.inr s)
  else if c ≤ 0x7f then do
    emits [.text s.p, .out (.write s.tmp [c, 0])]
    pure (.inl ⟨s.p + 1, s.tmp + 1, s.resultsize + 2⟩)
  else if c &&& 0xe0 = 0xc0 then do
    emits [.text s.p, .text (s.p + 1), .out (.write s.tmp (twoBytes c (m (s.p + 1))))]
    pure (.inl ⟨s.p + 2, s.tmp + 2, s.resultsize + 2⟩)
  else if c &&& 0xf0 = 0xe0 then do
    emits [.text s.p, .text (s.p + 1), .text (s.p + 2), .out (.write s.tmp (threeBytes c (m (s.p + 1)) (m (s.p + 2))))]
    pure (.inl ⟨s.p + 3, s.tmp + 2, s.resultsize + 2⟩)
  else do
    emit (.text s.p)
    pure (.inl ⟨s.p + 1, s.tmp, s.resultsize⟩)

/-- `strlen`, twice, and what is done before the loop. -/
def decodeBegin (n : ℕ) : Traced DecodeEffect PUnit.{1} := do
  emits ((List.range (n + 1)).map .text ++ (List.range (n + 1)).map .text)
  emit (.out (.write 0 (List.replicate (n * 2 + 2) 0)))

/-- The whole, with `l` for the loop; the value is `outsize`. -/
def decodeAround (n : ℕ) (l : Traced DecodeEffect DecodeState) : Traced DecodeEffect ℕ := do
  decodeBegin n
  let s ← l
  emit (.out (.write s.tmp [0, 0]))
  pure (s.resultsize + 2)

/-- A text and its terminator in memory, with what is behind them. -/
def textMem (text : List UInt8) (behind : Mem) : Mem := behind.write 0 (text ++ [0])

/-- `utf8_to_unicode` ends with `t`. -/
def Decodes (text : List UInt8) (behind : Mem) (t : Traced DecodeEffect ℕ) : Prop :=
  ∃ l, Returns (decodeTurn (textMem text behind)) ⟨0, 0, 0⟩ l ∧ t = decodeAround text.length l

/-- It ends, reads nothing behind the terminator and writes a unit for each byte at most, and a terminator. -/
def StopsThere (text : List UInt8) (behind : Mem) : Prop :=
  ∃ t, Decodes text behind t ∧ t.value.isSome ∧ ∀ e ∈ t.events, e.InPlace text.length (2 * text.length + 2)

/-- Every lead byte has the bytes behind it that it announces. -/
def Whole : List UInt8 → Prop
  | [] => True
  | c :: cs =>
    if c &&& 0xe0 = 0xc0 then
      match cs with
      | [] => False
      | _ :: cs => Whole cs
    else if c &&& 0xf0 = 0xe0 then
      match cs with
      | _ :: _ :: cs => Whole cs
      | _ => False
    else Whole cs

/-! ## A turn -/

section
variable {m : Mem} {s : DecodeState}

theorem turn_end (h : m s.p = 0) : decodeTurn m s = ⟨some (.inr s), [.text s.p]⟩ := by
  rw [decodeTurn, if_pos h]
  rfl

theorem turn_ascii (h₀ : m s.p ≠ 0) (h : m s.p ≤ 0x7f) : decodeTurn m s =
    ⟨some (.inl ⟨s.p + 1, s.tmp + 1, s.resultsize + 2⟩), [.text s.p, .out (.write s.tmp [m s.p, 0])]⟩ := by
  rw [decodeTurn, if_neg h₀, if_pos h]
  rfl

theorem turn_two (h : m s.p &&& 0xe0 = 0xc0) : decodeTurn m s = ⟨some (.inl ⟨s.p + 2, s.tmp + 2, s.resultsize + 2⟩),
    [.text s.p, .text (s.p + 1), .out (.write s.tmp (twoBytes (m s.p) (m (s.p + 1))))]⟩ := by
  obtain ⟨h₀, ha⟩ := lead_two h
  rw [decodeTurn, if_neg h₀, if_neg ha, if_pos h]
  rfl

theorem turn_three (h : m s.p &&& 0xf0 = 0xe0) : decodeTurn m s = ⟨some (.inl ⟨s.p + 3, s.tmp + 2, s.resultsize + 2⟩),
    [.text s.p, .text (s.p + 1), .text (s.p + 2),
      .out (.write s.tmp (threeBytes (m s.p) (m (s.p + 1)) (m (s.p + 2))))]⟩ := by
  obtain ⟨h₀, ha, hb⟩ := lead_three h
  rw [decodeTurn, if_neg h₀, if_neg ha, if_neg hb, if_pos h]
  rfl

theorem turn_stray (h₀ : m s.p ≠ 0) (ha : ¬ m s.p ≤ 0x7f) (hb : ¬ m s.p &&& 0xe0 = 0xc0) (hc : ¬ m s.p &&& 0xf0 = 0xe0) :
    decodeTurn m s = ⟨some (.inl ⟨s.p + 1, s.tmp, s.resultsize⟩), [.text s.p]⟩ := by
  rw [decodeTurn, if_neg h₀, if_neg ha, if_neg hb, if_neg hc]
  rfl

end

/-! ## Whole characters -/

/-- The text that starts at `p`, with its terminator. -/
def TextAt (m : Mem) : ℕ → List UInt8 → Prop
  | p, [] => m p = 0
  | p, c :: cs => m p = c ∧ c ≠ 0 ∧ TextAt m (p + 1) cs

/-- The accesses to `result`. -/
def outs (es : List DecodeEffect) : List Access := es.filterMap DecodeEffect.out?

theorem outs_append (es es' : List DecodeEffect) : outs (es ++ es') = outs es ++ outs es' := List.filterMap_append

/-- What the loop does from `s` on, where `text` is left and `r` comes of it. -/
structure LoopDoes (m : Mem) (text : List UInt8) (s : DecodeState) (r : List UInt8 × ℕ)
    (t : Traced DecodeEffect DecodeState) : Prop where
  returns : Returns (decodeTurn m) s t
  value : t.value = some ⟨s.p + text.length, s.tmp + r.1.length, s.resultsize + r.2⟩
  room : r.1.length ≤ 2 * text.length
  inPlace : ∀ e ∈ t.events, e.InPlace (s.p + text.length) (s.tmp + 2 * text.length)
  result : ∀ M : Mem, (∀ i, s.tmp ≤ i → i < s.tmp + 2 * text.length → M i = 0) →
    Access.after M (outs t.events) = M.write s.tmp r.1

theorem loopDoes_nil {m : Mem} {s : DecodeState} (h : m s.p = 0) : ∃ t, LoopDoes m [] s ([], 0) t := by
  have hturn := turn_end h
  refine ⟨⟨some s, [.text s.p]⟩, ⟨1, ?_⟩, rfl, Nat.le_refl 0, ?_, fun M _ => ?_⟩
  · rw [turns_done (r := s) (by rw [hturn]), hturn]
  · intro e he
    rw [List.mem_singleton.mp he]
    exact Nat.le_refl s.p
  · exact (Mem.write_nil M s.tmp).symm

/-- A turn that takes `cs` and makes `bs` of it; what it writes behind `bs` is zero. -/
structure TurnTakes (m : Mem) (s : DecodeState) (cs bs : List UInt8) (d : ℕ) : Prop where
  value : (decodeTurn m s).value = some (.inl ⟨s.p + cs.length, s.tmp + bs.length, s.resultsize + d⟩)
  room : bs.length ≤ 2 * cs.length
  inPlace : ∀ e ∈ (decodeTurn m s).events, e.InPlace (s.p + cs.length) (s.tmp + 2 * cs.length)
  result : ∀ M : Mem, (∀ i, s.tmp ≤ i → i < s.tmp + 2 * cs.length → M i = 0) →
    Access.after M (outs (decodeTurn m s).events) = M.write s.tmp bs

theorem DecodeEffect.InPlace.mono {last last' room room' : ℕ} (hl : last ≤ last') (hr : room ≤ room') :
    ∀ {e : DecodeEffect}, e.InPlace last room → e.InPlace last' room'
  | .text _, h => Nat.le_trans h hl
  | .out _, h => Access.Within.mono (Nat.le_refl 0) hr h

theorem LoopDoes.cons {m : Mem} {s : DecodeState} {cs bs : List UInt8} {d : ℕ} (hturn : TurnTakes m s cs bs d)
    {text : List UInt8} {r : List UInt8 × ℕ} {t : Traced DecodeEffect DecodeState}
    (h : LoopDoes m text ⟨s.p + cs.length, s.tmp + bs.length, s.resultsize + d⟩ r t) :
    LoopDoes m (cs ++ text) s (bs ++ r.1, d + r.2) ⟨t.value, (decodeTurn m s).events ++ t.events⟩ := by
  have hlen : (cs ++ text).length = cs.length + text.length := List.length_append
  have hroom := hturn.room
  refine ⟨h.returns.cons hturn.value, ?_, ?_, ?_, fun M hM => ?_⟩
  · rw [h.value, hlen, List.length_append]
    simp only [Nat.add_assoc]
  · have := h.room
    rw [List.length_append, hlen]
    omega
  · intro e he
    rw [hlen]
    rcases List.mem_append.mp he with he | he
    · exact (hturn.inPlace e he).mono (by omega) (by omega)
    · refine (h.inPlace e he).mono ?_ ?_ <;> dsimp only <;> omega
  · have hhere := hturn.result M fun i hi hlt => hM i hi (by omega)
    rw [outs_append, Access.after_append, hhere, h.result, Mem.write_write_append]
    intro i hi hlt
    dsimp only at hi hlt
    have hbehind : ¬ (s.tmp ≤ i ∧ i < s.tmp + bs.length) := by omega
    rw [Mem.write, if_neg hbehind]
    exact hM i (by omega) (by omega)

/-- A zero written over a zero. -/
theorem write_zero {M : Mem} {a : ℕ} {bs : List UInt8} (hM : M (a + bs.length) = 0) :
    M.write a (bs ++ [0]) = M.write a bs := by
  rw [← Mem.write_write_append]
  funext i
  rw [Mem.write]
  by_cases hi : i = a + bs.length
  · have hold : ¬ (a ≤ i ∧ i < a + bs.length) := by omega
    subst hi
    rw [if_pos ⟨Nat.le_refl _, Nat.lt_succ_self _⟩, Nat.sub_self, Mem.write, if_neg hold]
    exact hM.symm
  · have hother : ¬ (a + bs.length ≤ i ∧ i < a + bs.length + [(0 : UInt8)].length) := by
      rw [List.length_singleton]
      omega
    rw [if_neg hother]

section
variable {m : Mem} {s : DecodeState} {c c₂ c₃ : UInt8}

theorem takes_ascii (hp : m s.p = c) (h₀ : c ≠ 0) (h : c ≤ 0x7f) : TurnTakes m s [c] [c] 2 := by
  subst hp
  have hturn := turn_ascii h₀ h
  refine ⟨by rw [hturn]; rfl, by simp, ?_, fun M hM => ?_⟩ <;> rw [hturn]
  · intro e he
    simp only [List.mem_cons, List.not_mem_nil, or_false] at he
    rcases he with rfl | rfl
    · exact Nat.le_add_right ..
    · exact ⟨Nat.zero_le _, Nat.le_refl _⟩
  · have hbehind : M (s.tmp + [m s.p].length) = 0 := hM _ (Nat.le_succ _) (Nat.lt_succ_self _)
    exact write_zero hbehind

theorem takes_two (hp : m s.p = c) (hp₂ : m (s.p + 1) = c₂) (h : c &&& 0xe0 = 0xc0) :
    TurnTakes m s [c, c₂] (twoBytes c c₂) 2 := by
  subst hp hp₂
  have hturn := turn_two h
  refine ⟨by rw [hturn]; rfl, by simp [twoBytes], ?_, fun M _ => ?_⟩ <;> rw [hturn]
  · intro e he
    simp only [List.mem_cons, List.not_mem_nil, or_false] at he
    rcases he with rfl | rfl | rfl
    · exact Nat.le_add_right ..
    · exact Nat.le_succ _
    · exact ⟨Nat.zero_le _, Nat.add_le_add_left (by decide : 2 ≤ 4) _⟩
  · rfl

theorem takes_three (hp : m s.p = c) (hp₂ : m (s.p + 1) = c₂) (hp₃ : m (s.p + 2) = c₃) (h : c &&& 0xf0 = 0xe0) :
    TurnTakes m s [c, c₂, c₃] (threeBytes c c₂ c₃) 2 := by
  subst hp hp₂ hp₃
  have hturn := turn_three h
  refine ⟨by rw [hturn]; rfl, by simp [threeBytes], ?_, fun M _ => ?_⟩ <;> rw [hturn]
  · intro e he
    simp only [List.mem_cons, List.not_mem_nil, or_false] at he
    rcases he with rfl | rfl | rfl | rfl
    · exact Nat.le_add_right ..
    · exact Nat.add_le_add_left (by decide : 1 ≤ 3) _
    · exact Nat.le_succ _
    · exact ⟨Nat.zero_le _, Nat.add_le_add_left (by decide : 2 ≤ 6) _⟩
  · rfl

theorem takes_stray (hp : m s.p = c) (h₀ : c ≠ 0) (ha : ¬ c ≤ 0x7f) (hb : ¬ c &&& 0xe0 = 0xc0) (hc : ¬ c &&& 0xf0 = 0xe0) :
    TurnTakes m s [c] [] 0 := by
  subst hp
  have hturn := turn_stray h₀ ha hb hc
  refine ⟨by rw [hturn]; rfl, by simp, ?_, fun M _ => ?_⟩ <;> rw [hturn]
  · intro e he
    rw [List.mem_singleton.mp he]
    exact Nat.le_add_right ..
  · exact (Mem.write_nil M s.tmp).symm

end

theorem loop_cons {m : Mem} {s : DecodeState} {cs bs text : List UInt8} {d : ℕ} (hturn : TurnTakes m s cs bs d)
    {o : Option (List UInt8 × ℕ)}
    (h : ∃ r t, o = some r ∧ LoopDoes m text ⟨s.p + cs.length, s.tmp + bs.length, s.resultsize + d⟩ r t) :
    ∃ r t, (o.map fun r => (bs ++ r.1, r.2 + d)) = some r ∧ LoopDoes m (cs ++ text) s r t := by
  obtain ⟨r, t, rfl, ht⟩ := h
  have hall := LoopDoes.cons hturn ht
  rw [Nat.add_comm] at hall
  exact ⟨_, _, rfl, hall⟩

/-- In a text of whole characters the loop does what `decodeLoop` does. -/
theorem loop_whole {m : Mem} : ∀ {text : List UInt8} {s : DecodeState}, Whole text → TextAt m s.p text →
    ∃ r t, decodeLoop (text ++ [0]) = some r ∧ LoopDoes m text s r t
  | [], s, _, hm => by
    obtain ⟨t, ht⟩ := loopDoes_nil hm
    exact ⟨_, t, rfl, ht⟩
  | c :: cs, s, hw, ⟨hp, h₀, hcs⟩ => by
    unfold Whole at hw
    by_cases ha : c ≤ 0x7f
    · have hb : ¬ c &&& 0xe0 = 0xc0 := fun hb => (lead_two hb).2 ha
      have hc : ¬ c &&& 0xf0 = 0xe0 := fun hc => (lead_three hc).2.1 ha
      rw [if_neg hb, if_neg hc] at hw
      rw [List.cons_append, decodeLoop.eq_def]
      simp only [if_neg h₀, if_pos ha]
      exact loop_cons (takes_ascii hp h₀ ha) (loop_whole hw hcs)
    by_cases hb : c &&& 0xe0 = 0xc0
    · rw [if_pos hb] at hw
      cases cs with
      | nil => exact False.elim hw
      | cons c₂ cs =>
        obtain ⟨hp₂, -, hcs⟩ := hcs
        rw [List.cons_append, decodeLoop.eq_def]
        simp only [if_neg h₀, if_neg ha, if_pos hb, List.cons_append]
        exact loop_cons (takes_two hp hp₂ hb) (loop_whole hw hcs)
    rw [if_neg hb] at hw
    by_cases hc : c &&& 0xf0 = 0xe0
    · rw [if_pos hc] at hw
      rcases cs with _ | ⟨c₂, _ | ⟨c₃, cs⟩⟩
      · exact False.elim hw
      · exact False.elim hw
      · obtain ⟨hp₂, -, hp₃, -, hcs⟩ := hcs
        rw [List.cons_append, decodeLoop.eq_def]
        simp only [if_neg h₀, if_neg ha, if_neg hb, if_pos hc, List.cons_append]
        exact loop_cons (takes_three hp hp₂ hp₃ hc) (loop_whole hw hcs)
    · rw [if_neg hc] at hw
      rw [List.cons_append, decodeLoop.eq_def]
      simp only [if_neg h₀, if_neg ha, if_neg hb, if_neg hc]
      obtain ⟨r, t, hr, ht⟩ := loop_cons (takes_stray hp h₀ ha hb hc) (loop_whole hw hcs)
      refine ⟨r, t, ?_, ht⟩
      rw [← hr]
      cases decodeLoop (cs ++ [0]) <;> rfl

/-! ## A character that is cut -/

theorem turn_reads (m : Mem) (s : DecodeState) : .text s.p ∈ (decodeTurn m s).events := by
  unfold decodeTurn
  dsimp only
  split
  · exact List.mem_singleton_self _
  split
  · exact List.mem_cons_self ..
  split
  · exact List.mem_cons_self ..
  split
  · exact List.mem_cons_self ..
  · exact List.mem_singleton_self _

theorem TurnTakes.rest {m : Mem} {s : DecodeState} {cs bs : List UInt8} {d : ℕ} (hturn : TurnTakes m s cs bs d)
    {t : Traced DecodeEffect DecodeState} (ht : Returns (decodeTurn m) s t) :
    ∃ t', Returns (decodeTurn m) ⟨s.p + cs.length, s.tmp + bs.length, s.resultsize + d⟩ t' ∧ t'.events ⊆ t.events := by
  obtain ⟨t', ht', -, hevents⟩ := ht.tail hturn.value
  refine ⟨t', ht', ?_⟩
  rw [hevents]
  exact List.subset_append_right ..

/-- Some byte behind `last` is read. -/
def ReadsBehind (last : ℕ) (t : Traced DecodeEffect DecodeState) : Prop := ∃ a, last < a ∧ .text a ∈ t.events

theorem TurnTakes.reads {m : Mem} {s : DecodeState} {cs bs : List UInt8} {d : ℕ} (hturn : TurnTakes m s cs bs d)
    {t : Traced DecodeEffect DecodeState} (ht : Returns (decodeTurn m) s t) {last : ℕ} (hlast : last < s.p + cs.length) :
    ReadsBehind last t := by
  obtain ⟨t', ht', hsub⟩ := hturn.rest ht
  exact ⟨_, hlast, hsub ((Visits.start _).events ht' _ (turn_reads m _))⟩

theorem reads_cons {m : Mem} {s : DecodeState} {cs bs text : List UInt8} {d : ℕ} (hturn : TurnTakes m s cs bs d)
    {t : Traced DecodeEffect DecodeState} (ht : Returns (decodeTurn m) s t)
    (h : ∀ t', Returns (decodeTurn m) ⟨s.p + cs.length, s.tmp + bs.length, s.resultsize + d⟩ t' →
      ReadsBehind (s.p + cs.length + text.length) t') : ReadsBehind (s.p + (cs ++ text).length) t := by
  obtain ⟨t', ht', hsub⟩ := hturn.rest ht
  obtain ⟨a, hlt, ha⟩ := h t' ht'
  rw [List.length_append, ← Nat.add_assoc]
  exact ⟨a, hlt, hsub ha⟩

/-- In any other text `p` passes the terminator. -/
theorem loop_cut {m : Mem} : ∀ {text : List UInt8} {s : DecodeState} {t : Traced DecodeEffect DecodeState},
    ¬ Whole text → TextAt m s.p text → Returns (decodeTurn m) s t → ReadsBehind (s.p + text.length) t
  | [], _, _, hw, _, _ => absurd trivial hw
  | c :: cs, s, t, hw, ⟨hp, h₀, hcs⟩, ht => by
    unfold Whole at hw
    by_cases ha : c ≤ 0x7f
    · have hb : ¬ c &&& 0xe0 = 0xc0 := fun hb => (lead_two hb).2 ha
      have hc : ¬ c &&& 0xf0 = 0xe0 := fun hc => (lead_three hc).2.1 ha
      rw [if_neg hb, if_neg hc] at hw
      exact reads_cons (takes_ascii hp h₀ ha) ht fun t' => loop_cut hw hcs
    by_cases hb : c &&& 0xe0 = 0xc0
    · rw [if_pos hb] at hw
      match cs, hw, hcs with
      | [], _, _ => exact (takes_two hp rfl hb).reads ht (Nat.lt_succ_self _)
      | c₂ :: cs, hw, ⟨hp₂, _, hcs⟩ => exact reads_cons (takes_two hp hp₂ hb) ht fun t' => loop_cut hw hcs
    rw [if_neg hb] at hw
    by_cases hc : c &&& 0xf0 = 0xe0
    · rw [if_pos hc] at hw
      match cs, hw, hcs with
      | [], _, _ => exact (takes_three hp rfl rfl hc).reads ht (Nat.add_lt_add_left (by decide : 1 < 3) _)
      | [c₂], _, _ => exact (takes_three hp rfl rfl hc).reads ht (Nat.add_lt_add_left (by decide : 2 < 3) _)
      | c₂ :: c₃ :: cs, hw, ⟨hp₂, _, hp₃, _, hcs⟩ =>
        exact reads_cons (takes_three hp hp₂ hp₃ hc) ht fun t' => loop_cut hw hcs
    · rw [if_neg hc] at hw
      exact reads_cons (takes_stray hp h₀ ha hb hc) ht fun t' => loop_cut hw hcs

/-! ## The whole function -/

theorem textAt_of_read {m : Mem} : ∀ {text : List UInt8} {p : ℕ}, 0 ∉ text →
    m.read p (text.length + 1) = text ++ [0] → TextAt m p text
  | [], p, _, h => (List.cons.inj h).1
  | c :: cs, p, h₀, h => by
    rw [List.mem_cons, not_or] at h₀
    rw [List.length_cons, Nat.add_comm, Mem.read_add, List.cons_append] at h
    obtain ⟨hc, hcs⟩ := List.cons.inj h
    exact ⟨hc, Ne.symm h₀.1, textAt_of_read h₀.2 hcs⟩

theorem textAt_textMem {text : List UInt8} (h : 0 ∉ text) (behind : Mem) : TextAt (textMem text behind) 0 text := by
  have hread := Mem.read_write behind 0 (text ++ [0])
  rw [List.length_append, List.length_singleton] at hread
  exact textAt_of_read h hread

theorem events_decodeAround {n : ℕ} {l : Traced DecodeEffect DecodeState} {s : DecodeState} (h : l.value = some s) :
    decodeAround n l = ⟨some (s.resultsize + 2),
      (decodeBegin n).events ++ (l.events ++ [.out (.write s.tmp [0, 0])])⟩ := by
  unfold decodeAround
  rw [bind_some (x := decodeBegin n) (a := ⟨⟩) rfl, bind_some h]
  rfl

theorem begin_inPlace (n : ℕ) : ∀ e ∈ (decodeBegin n).events, e.InPlace n (2 * n + 2) := by
  have hevents : (decodeBegin n).events = (List.range (n + 1)).map .text ++ (List.range (n + 1)).map .text ++
      [.out (.write 0 (List.replicate (n * 2 + 2) 0))] := rfl
  intro e he
  rw [hevents, List.mem_append, List.mem_append, or_self, List.mem_map, List.mem_singleton] at he
  rcases he with ⟨a, ha, rfl⟩ | rfl
  · exact Nat.le_of_lt_succ (List.mem_range.mp ha)
  · refine ⟨Nat.le_refl 0, ?_⟩
    rw [List.length_replicate]
    omega

theorem outs_begin (n : ℕ) : outs (decodeBegin n).events = [.write 0 (List.replicate (n * 2 + 2) 0)] := by
  have htext (as : List ℕ) : outs (as.map .text) = [] := by
    induction as with
    | nil => rfl
    | cons a as ih => exact ih
  have hevents : (decodeBegin n).events = (List.range (n + 1)).map .text ++ (List.range (n + 1)).map .text ++
      [.out (.write 0 (List.replicate (n * 2 + 2) 0))] := rfl
  rw [hevents, outs_append, outs_append, htext]
  rfl

theorem stops_of_whole {text : List UInt8} (h : 0 ∉ text) (behind : Mem) (hw : Whole text) : StopsThere text behind := by
  obtain ⟨r, l, -, hl⟩ := loop_whole (s := ⟨0, 0, 0⟩) hw (textAt_textMem h behind)
  have hroom := hl.room
  refine ⟨_, ⟨l, hl.returns, rfl⟩, ?_, ?_⟩ <;> rw [events_decodeAround hl.value]
  · rfl
  · intro e he
    simp only [List.mem_append, List.mem_singleton] at he
    rcases he with he | he | rfl
    · exact begin_inPlace text.length e he
    · refine (hl.inPlace e he).mono ?_ ?_ <;> dsimp only <;> omega
    · refine ⟨Nat.zero_le _, ?_⟩
      simp only [List.length_cons, List.length_nil]
      omega

theorem zeros_get (M : Mem) {k i : ℕ} (h : i < k) : M.write 0 (List.replicate k 0) i = 0 := by
  have hin : 0 ≤ i ∧ i < 0 + (List.replicate k (0 : UInt8)).length := by
    rw [List.length_replicate, Nat.zero_add]
    exact ⟨Nat.zero_le i, h⟩
  rw [Mem.write, if_pos hin, List.getD_eq_getElem?_getD, List.getElem?_replicate, if_pos (by omega), Option.getD_some]

theorem zeros_overwritten (M : Mem) {xs : List UInt8} {k : ℕ} (h : xs.length ≤ k) :
    ((M.write 0 (List.replicate k 0)).write 0 xs).read 0 k = xs ++ List.replicate (k - xs.length) 0 := by
  have hsplit := Mem.write_write_append M 0 (List.replicate xs.length 0) (List.replicate (k - xs.length) 0)
  rw [List.length_replicate, Nat.zero_add, List.replicate_append_replicate, Nat.add_sub_cancel' h] at hsplit
  have hrest := Mem.read_write (M.write 0 (List.replicate xs.length 0)) xs.length (List.replicate (k - xs.length) 0)
  rw [hsplit, List.length_replicate] at hrest
  have hbehind : ((M.write 0 (List.replicate k 0)).write 0 xs).read xs.length (k - xs.length) =
      List.replicate (k - xs.length) 0 := by
    rw [Mem.read_write_of_disjoint (.inl (by omega)), hrest]
  have hread := Mem.read_add ((M.write 0 (List.replicate k 0)).write 0 xs) 0 xs.length (k - xs.length)
  rw [Mem.read_write, Nat.zero_add, hbehind, Nat.add_sub_cancel' h] at hread
  exact hread

/-- In a text of whole characters it is the function that gives the result back. -/
theorem decodes_whole {text : List UInt8} (h : 0 ∉ text) (behind : Mem) (hw : Whole text) :
    ∃ t out size, Decodes text behind t ∧ utf8_to_unicode (text ++ [0]) = some (out, size) ∧ t.value = some size ∧
      ∀ M : Mem, (Access.after M (outs t.events)).read 0 (2 * text.length + 2) = out := by
  obtain ⟨r, l, hr, hl⟩ := loop_whole (s := ⟨0, 0, 0⟩) hw (textAt_textMem h behind)
  have hroom := hl.room
  have hvalue : l.value = some ⟨0 + text.length, 0 + r.1.length, 0 + r.2⟩ := hl.value
  rw [Nat.zero_add, Nat.zero_add, Nat.zero_add] at hvalue
  refine ⟨_, _, _, ⟨l, hl.returns, rfl⟩, by rw [utf8_to_unicode, hr, cstr_append_zero h]; rfl, ?_, fun M => ?_⟩
  · rw [events_decodeAround hvalue]
  · have hloop := hl.result (M.write 0 (List.replicate (text.length * 2 + 2) 0)) fun i _ hlt => by
      dsimp only at hlt
      exact zeros_get M (by omega)
    have hend := Mem.write_write_append (M.write 0 (List.replicate (text.length * 2 + 2) 0)) 0 r.1 [0, 0]
    rw [Nat.zero_add] at hend
    have hlen : (r.1 ++ [0, 0]).length = r.1.length + 2 := List.length_append
    rw [events_decodeAround hvalue, outs_append, outs_append, outs_begin, Access.after_append, Access.after_append,
      Access.after_cons, Access.after_nil, Access.apply, hloop]
    have hle : (r.1 ++ [0, 0]).length ≤ text.length * 2 + 2 := by omega
    have hread := zeros_overwritten M hle
    have hpad : [0, 0] ++ List.replicate (text.length * 2 + 2 - (r.1.length + 2)) (0 : UInt8) =
        List.replicate (2 * text.length + 2 - r.1.length) 0 := by
      rw [show 2 * text.length + 2 - r.1.length = 2 + (text.length * 2 + 2 - (r.1.length + 2)) by omega,
        ← List.replicate_append_replicate]
      rfl
    rw [← hend, hlen, List.append_assoc, hpad, Nat.mul_comm text.length 2] at hread
    rw [Nat.mul_comm text.length 2]
    exact hread

theorem not_stops_of_cut {text : List UInt8} (h : 0 ∉ text) (behind : Mem) (hw : ¬ Whole text) :
    ¬ StopsThere text behind := by
  rintro ⟨t, ⟨l, hl, rfl⟩, -, hin⟩
  obtain ⟨a, hlt, ha⟩ := loop_cut hw (textAt_textMem h behind) hl
  have hmem : .text a ∈ (decodeAround text.length l).events :=
    mem_bind_right (x := decodeBegin text.length) (a := ⟨⟩) rfl (mem_bind_left ha _)
  have hle : a ≤ text.length := hin _ hmem
  dsimp only at hlt
  omega

/-- **Text reads.** The function ends, reads nothing behind the terminator and writes inside its result if and only if every
lead byte of the text has the bytes behind it that it announces. -/
theorem stops_there_iff {text : List UInt8} (h : 0 ∉ text) (behind : Mem) : StopsThere text behind ↔ Whole text :=
  ⟨fun hstops => Classical.not_not.mp fun hw => not_stops_of_cut h behind hw hstops, stops_of_whole h behind⟩

/-- A byte and a whole character of two. -/
theorem stops_there_whole : 0 ∉ [(0x41 : UInt8), 0xc3, 0xa9] ∧ StopsThere [0x41, 0xc3, 0xa9] fun _ => 0xff := by
  have h : 0 ∉ [(0x41 : UInt8), 0xc3, 0xa9] := by decide
  refine ⟨h, (stops_there_iff h _).mpr ?_⟩
  simp only [Whole]
  decide

/-- The text ends with the first byte of such a character. -/
theorem reads_on : ¬ StopsThere [0x41, 0xc3] fun _ => 0 := by
  apply not_stops_of_cut (by decide)
  simp only [Whole]
  decide

end Utf8

end SabApp
