import SabApp.Base64
import SabApp.Utf8Reads

/-!
# What base64_decode reads

The loop takes four characters at a time and looks for the terminator at the first only. In a text that ends within a group
it reads on behind the terminator, unless the third or fourth character is a `=`.
-/

namespace SabApp

namespace Base64

open CText CloudHttp Traced Utf8

/-- `base64[j++] = c`; beyond an `int` nothing is said of `j`. -/
def put (c : UInt8) (j : ℕ) : Traced Access ℕ :=
  if j + 1 < 2147483648 then do
    emit (.write j [c])
    pure (j + 1)
  else fail

def puts : List UInt8 → ℕ → Traced Access ℕ
  | [], j => pure j
  | c :: cs, j => do
    let j ← put c j
    puts cs j

/-- The loop of `base64_encode`; the value is `j`. -/
def encodeLoop : List UInt8 → ℕ → Traced Access ℕ
  | [], j => pure j
  | [a], j => puts [base64char (sextet₀ a), base64char (UInt8.land (a <<< 4) 0x30), 61, 61] j
  | [a, b], j => puts [base64char (sextet₀ a), base64char (sextet₁ a b), base64char (UInt8.land (b <<< 2) 0x3C), 61] j
  | a :: b :: c :: bs, j => do
    let j ← puts [base64char (sextet₀ a), base64char (sextet₁ a b), base64char (sextet₂ b c), base64char (sextet₃ c)] j
    encodeLoop bs j

/-- `base64_encode` with its writes. -/
def base64_encodeTo (bs : List UInt8) : Traced Access PUnit.{1} := do
  let j ← encodeLoop bs 0
  emit (.write j [0])

/-- `i` and `j` of `base64_decode`. -/
structure GroupState where
  i : ℕ
  j : ℕ

/-- A turn of the loop. Each character of the group is read once for each of `base64char`, which is one access here. -/
def decodeGroup (m : Mem) (s : GroupState) : Traced DecodeEffect (GroupState ⊕ ℕ) :=
  if m s.i = 0 then do
    emit (.text s.i)
    pure (.inr s.j)
  else do
    let t₀ := base64Val (m s.i)
    let t₁ := base64Val (m (s.i + 1))
    let t₂ := base64Val (m (s.i + 2))
    let t₃ := base64Val (m (s.i + 3))
    emits [.text s.i, .text (s.i + 1), .text (s.i + 2), .text (s.i + 3)]
    emit (.out (.write s.j [UInt8.lor (UInt8.land (t₀ <<< 2) 0xFC) (UInt8.land (t₁ >>> 4) 0x03)]))
    if m (s.i + 2) = 61 then pure (.inr (s.j + 1))
    else do
      emit (.out (.write (s.j + 1) [UInt8.lor (UInt8.land (t₁ <<< 4) 0xF0) (UInt8.land (t₂ >>> 2) 0x0F)]))
      if m (s.i + 3) = 61 then pure (.inr (s.j + 2))
      else do
        emit (.out (.write (s.j + 2) [UInt8.lor (UInt8.land (t₂ <<< 6) 0xF0) (UInt8.land t₃ 0x3F)]))
        -- `i` is an `int`
        if s.i + 4 < 2147483648 then pure (.inl ⟨s.i + 4, s.j + 3⟩) else fail

/-- The terminator, and what is returned. -/
def decodeEnd (l : Traced DecodeEffect ℕ) : Traced DecodeEffect ℕ := do
  let j ← l
  emit (.out (.write j [0]))
  pure j

/-- `base64_decode` of the text at the start of `m` ends with `t`. -/
def Decoded (m : Mem) (t : Traced DecodeEffect ℕ) : Prop := ∃ l, Returns (decodeGroup m) ⟨0, 0⟩ l ∧ t = decodeEnd l

/-- The bytes come back with their number, whatever the two buffers held. -/
def RoundTrip (bs : List UInt8) : Prop :=
  (base64_encodeTo bs).value.isSome ∧ ∀ base64 bindata : Mem,
    ∃ t, Decoded (Access.after base64 (base64_encodeTo bs).events) t ∧ t.value = some bs.length ∧
      (Access.after bindata (outs t.events)).read 0 bs.length = bs

/-- It ends, reads nothing behind the terminator, and writes three bytes for four characters at most, and one more. -/
def Contained (text : List UInt8) (behind : Mem) : Prop :=
  ∃ t, Decoded (textMem text behind) t ∧ t.value.isSome ∧ ∀ e ∈ t.events, e.InPlace text.length (3 * text.length / 4 + 1)

/-- At group `g` the text ends, or there is a `=` in third or fourth place. -/
def ClosedAt (text : List UInt8) (g : ℕ) : Prop :=
  4 * g = text.length ∨ text[4 * g + 2]? = some 61 ∨ text[4 * g + 3]? = some 61

/-- The loop comes to such a group with an `int`. -/
def Closed (text : List UInt8) : Prop := ∃ g, 4 * g < 2147483648 ∧ ClosedAt text g

/-! ## Encoding -/

theorem puts_eq : ∀ (cs : List UInt8) {j : ℕ}, j + cs.length < 2147483648 → ∃ es,
    puts cs j = ⟨some (j + cs.length), es⟩ ∧ ∀ M : Mem, Access.after M es = M.write j cs
  | [], j, _ => ⟨[], rfl, fun M => (Mem.write_nil M j).symm⟩
  | c :: cs, j, h => by
    rw [List.length_cons] at h
    obtain ⟨es, hes, hafter⟩ := puts_eq cs (j := j + 1) (by omega)
    refine ⟨.write j [c] :: es, ?_, fun M => ?_⟩
    · rw [puts, put, if_pos (by omega), bind_some rfl, hes, List.length_cons, Nat.add_assoc, Nat.add_comm 1]
      rfl
    · rw [Access.after_cons, hafter, Access.apply]
      exact Mem.write_write_append M j [c] cs

theorem puts_none : ∀ (cs : List UInt8) {j : ℕ}, j < 2147483648 → 2147483648 ≤ j + cs.length → (puts cs j).value = none
  | [], j, hj, h => absurd h (Nat.not_le.mpr hj)
  | c :: cs, j, _, h => by
    rw [List.length_cons] at h
    rw [puts, put]
    by_cases hj : j + 1 < 2147483648
    · have hrest := puts_none cs hj (by omega)
      rw [if_pos hj, value_bind, value_bind, value_emit]
      exact hrest
    · rw [if_neg hj]
      rfl

theorem puts_append : ∀ (cs ds : List UInt8) (j : ℕ), (puts cs j >>= puts ds) = puts (cs ++ ds) j
  | [], ds, j => rfl
  | c :: cs, ds, j => by
    rw [List.cons_append, puts, puts, bind_bind]
    exact congrArg _ (funext fun j => puts_append cs ds j)

theorem encodeLoop_eq : ∀ (bs : List UInt8) (j : ℕ), encodeLoop bs j = puts (base64_encode bs) j
  | [], _ => rfl
  | [_], _ => rfl
  | [_, _], _ => rfl
  | a :: b :: c :: bs, j => by
    have hrest : encodeLoop bs = puts (base64_encode bs) := funext fun j => encodeLoop_eq bs j
    rw [encodeLoop, hrest]
    exact puts_append _ _ j

/-- The text and its terminator are written, where `j` stays an `int`. -/
theorem encodeTo_eq {bs : List UInt8} (h : (base64_encode bs).length < 2147483648) : (base64_encodeTo bs).value.isSome ∧
    ∀ M : Mem, Access.after M (base64_encodeTo bs).events = textMem (base64_encode bs) M := by
  obtain ⟨es, hes, hafter⟩ := puts_eq (base64_encode bs) (j := 0) (by omega)
  have hrun : base64_encodeTo bs = ⟨some ⟨⟩, es ++ [.write (0 + (base64_encode bs).length) [0]]⟩ := by
    rw [base64_encodeTo, encodeLoop_eq, hes]
    rfl
  rw [hrun]
  refine ⟨rfl, fun M => ?_⟩
  rw [Access.after_append, hafter]
  exact Mem.write_write_append M 0 (base64_encode bs) [0]

theorem encodeTo_none {bs : List UInt8} (h : 2147483648 ≤ (base64_encode bs).length) :
    (base64_encodeTo bs).value = none := by
  have hnone := puts_none (base64_encode bs) (j := 0) (by decide) (by omega)
  rw [base64_encodeTo, encodeLoop_eq, value_bind, hnone]
  rfl

/-! ## A turn -/

section
variable {m : Mem} {s : GroupState}

/-- The three bytes of a group. -/
def groupBytes (m : Mem) (i : ℕ) : UInt8 × UInt8 × UInt8 :=
  (UInt8.lor (UInt8.land (base64Val (m i) <<< 2) 0xFC) (UInt8.land (base64Val (m (i + 1)) >>> 4) 0x03),
    UInt8.lor (UInt8.land (base64Val (m (i + 1)) <<< 4) 0xF0) (UInt8.land (base64Val (m (i + 2)) >>> 2) 0x0F),
    UInt8.lor (UInt8.land (base64Val (m (i + 2)) <<< 6) 0xF0) (UInt8.land (base64Val (m (i + 3))) 0x3F))

def groupReads (i : ℕ) : List DecodeEffect := [.text i, .text (i + 1), .text (i + 2), .text (i + 3)]

theorem group_end (h : m s.i = 0) : decodeGroup m s = ⟨some (.inr s.j), [.text s.i]⟩ := by
  rw [decodeGroup, if_pos h]
  rfl

theorem group_begins (m : Mem) (s : GroupState) : .text s.i ∈ (decodeGroup m s).events := by
  rw [decodeGroup]
  split
  · exact mem_bind_left (by simp) _
  · exact mem_bind_left (by simp [emits]) _

theorem group_reads (h : m s.i ≠ 0) : .text (s.i + 3) ∈ (decodeGroup m s).events := by
  rw [decodeGroup, if_neg h]
  exact mem_bind_left (by simp [emits]) _

theorem group_third (h₀ : m s.i ≠ 0) (h : m (s.i + 2) = 61) : decodeGroup m s =
    ⟨some (.inr (s.j + 1)), groupReads s.i ++ [.out (.write s.j [(groupBytes m s.i).1])]⟩ := by
  rw [decodeGroup, if_neg h₀]
  dsimp only
  rw [if_pos h]
  rfl

theorem group_fourth (h₀ : m s.i ≠ 0) (h₂ : m (s.i + 2) ≠ 61) (h : m (s.i + 3) = 61) : decodeGroup m s =
    ⟨some (.inr (s.j + 2)), groupReads s.i ++ [.out (.write s.j [(groupBytes m s.i).1]),
      .out (.write (s.j + 1) [(groupBytes m s.i).2.1])]⟩ := by
  rw [decodeGroup, if_neg h₀]
  dsimp only
  rw [if_neg h₂, if_pos h]
  rfl

theorem group_whole (h₀ : m s.i ≠ 0) (h₂ : m (s.i + 2) ≠ 61) (h₃ : m (s.i + 3) ≠ 61) : decodeGroup m s =
    ⟨if s.i + 4 < 2147483648 then some (.inl ⟨s.i + 4, s.j + 3⟩) else none,
      groupReads s.i ++ [.out (.write s.j [(groupBytes m s.i).1]), .out (.write (s.j + 1) [(groupBytes m s.i).2.1]),
        .out (.write (s.j + 2) [(groupBytes m s.i).2.2])]⟩ := by
  rw [decodeGroup, if_neg h₀]
  dsimp only
  rw [if_neg h₂, if_neg h₃]
  by_cases hi : s.i + 4 < 2147483648
  · rw [if_pos hi, if_pos hi]
    rfl
  · rw [if_neg hi, if_neg hi]
    rfl

end

/-! ## The round trip -/

/-- From `s` on the loop writes `out` but for its terminator. -/
def Gives (m : Mem) (s : GroupState) (out : List UInt8) : Prop :=
  ∃ t k, Returns (decodeGroup m) s t ∧ t.value = some (s.j + k) ∧ out.length = k + 1 ∧
    ∀ M : Mem, (Access.after M (outs t.events)).write (s.j + k) [0] = M.write s.j out

section
variable {m : Mem} {s : GroupState}

theorem gives_end (h : m s.i = 0) : Gives m s [0] :=
  ⟨_, 0, returns_done (group_end h), rfl, rfl, fun _ => rfl⟩

theorem gives_third (h₀ : m s.i ≠ 0) (h : m (s.i + 2) = 61) : Gives m s [(groupBytes m s.i).1, 0] :=
  ⟨_, 1, returns_done (group_third h₀ h), rfl, rfl, fun M => Mem.write_write_append M s.j [_] [0]⟩

theorem gives_fourth (h₀ : m s.i ≠ 0) (h₂ : m (s.i + 2) ≠ 61) (h : m (s.i + 3) = 61) :
    Gives m s [(groupBytes m s.i).1, (groupBytes m s.i).2.1, 0] := by
  refine ⟨_, 2, returns_done (group_fourth h₀ h₂ h), rfl, rfl, fun M => ?_⟩
  have hfirst := Mem.write_write_append M s.j [(groupBytes m s.i).1] [(groupBytes m s.i).2.1]
  have hall := Mem.write_write_append M s.j [(groupBytes m s.i).1, (groupBytes m s.i).2.1] [0]
  exact (congrArg (Mem.write · (s.j + 2) [0]) hfirst).trans hall

theorem gives_whole (h₀ : m s.i ≠ 0) (h₂ : m (s.i + 2) ≠ 61) (h₃ : m (s.i + 3) ≠ 61) (hi : s.i + 4 < 2147483648)
    {out : List UInt8} (h : Gives m ⟨s.i + 4, s.j + 3⟩ out) :
    Gives m s ((groupBytes m s.i).1 :: (groupBytes m s.i).2.1 :: (groupBytes m s.i).2.2 :: out) := by
  have hturn := group_whole h₀ h₂ h₃
  rw [if_pos hi] at hturn
  obtain ⟨t, k, hreturns, hv, hlen, hresult⟩ := h
  refine ⟨_, k + 3, hreturns.cons (by rw [hturn]), ?_, ?_, fun M => ?_⟩
  · rw [hv, Nat.add_comm k 3, ← Nat.add_assoc]
  · rw [List.length_cons, List.length_cons, List.length_cons, hlen]
  · have hfirst := Mem.write_write_append M s.j [(groupBytes m s.i).1] [(groupBytes m s.i).2.1]
    have hthree := Mem.write_write_append M s.j [(groupBytes m s.i).1, (groupBytes m s.i).2.1] [(groupBytes m s.i).2.2]
    have hturnM : Access.after M (outs (decodeGroup m s).events) =
        M.write s.j [(groupBytes m s.i).1, (groupBytes m s.i).2.1, (groupBytes m s.i).2.2] := by
      rw [hturn]
      exact (congrArg (Mem.write · (s.j + 2) [(groupBytes m s.i).2.2]) hfirst).trans hthree
    rw [outs_append, Access.after_append, hturnM, Nat.add_comm k 3, ← Nat.add_assoc, hresult]
    exact Mem.write_write_append M s.j [_, _, _] out

/-- The loop does what `base64_decode` says of the text in memory. -/
theorem gives_decode : ∀ {xs out : List UInt8} {s : GroupState}, base64_decode xs = some out → m.read s.i xs.length = xs →
    s.i + xs.length ≤ 2147483648 → Gives m s out
  | c₀ :: c₁ :: c₂ :: c₃ :: cs, out, s, h, hm, hi => by
    obtain ⟨rfl, hm₁⟩ := Mem.read_cons_iff.mp hm
    obtain ⟨rfl, hm₂⟩ := Mem.read_cons_iff.mp hm₁
    obtain ⟨rfl, hm₃⟩ := Mem.read_cons_iff.mp hm₂
    obtain ⟨rfl, hm₄⟩ := Mem.read_cons_iff.mp hm₃
    by_cases hz : m s.i = 0
    · rw [base64_decode, if_pos hz] at h
      cases h
      exact gives_end hz
    by_cases ht : m (s.i + 2) = 61
    · rw [base64_decode, if_neg hz, if_pos ht] at h
      cases h
      exact gives_third hz ht
    by_cases hf : m (s.i + 3) = 61
    · rw [base64_decode, if_neg hz, if_neg ht, if_pos hf] at h
      cases h
      exact gives_fourth hz ht hf
    rw [base64_decode, if_neg hz, if_neg ht, if_neg hf] at h
    obtain ⟨rest, hrest, rfl⟩ := Option.map_eq_some_iff.mp h
    have hpos : cs ≠ [] := by
      rintro rfl
      cases hrest
    have hlen := List.length_pos_iff.mpr hpos
    simp only [List.length_cons] at hi
    exact gives_whole hz ht hf (by omega) (gives_decode hrest hm₄ (by dsimp only; omega))
  | [], _, _, h, _, _ => by cases h
  | [c], _, s, h, hm, _ | [c, _], _, s, h, hm, _ | [c, _, _], _, s, h, hm, _ => by
    obtain ⟨h₀, -⟩ := Mem.read_cons_iff.mp hm
    simp only [base64_decode] at h
    by_cases hz : c = 0
    · rw [if_pos hz] at h
      cases h
      exact gives_end (h₀.trans hz)
    · rw [if_neg hz] at h
      cases h

end

theorem decodeEnd_eq {l : Traced DecodeEffect ℕ} {j : ℕ} (h : l.value = some j) :
    decodeEnd l = ⟨some j, l.events ++ [.out (.write j [0])]⟩ := by
  rw [decodeEnd, bind_some h]
  rfl

/-- The bytes come back where the text of them is one that `j` can count. -/
theorem roundTrip_iff (bs : List UInt8) : RoundTrip bs ↔ 4 * ((bs.length + 2) / 3) < 2147483648 := by
  rw [← length_base64_encode]
  constructor
  · intro h
    by_contra hlong
    have hsome := h.1
    rw [encodeTo_none (Nat.not_lt.mp hlong)] at hsome
    cases hsome
  · intro h
    obtain ⟨hsome, hafter⟩ := encodeTo_eq h
    refine ⟨hsome, fun base64 bindata => ?_⟩
    have hmem : (textMem (base64_encode bs) base64).read 0 (base64_encode bs ++ [0]).length = base64_encode bs ++ [0] :=
      Mem.read_write ..
    obtain ⟨l, k, hreturns, hv, hlen, hresult⟩ := gives_decode (s := ⟨0, 0⟩) (base64_decode_encode [] bs) hmem (by
      rw [List.length_append, List.length_singleton, Nat.zero_add]
      exact h)
    have hk : k = bs.length := by simpa using hlen.symm
    subst hk
    rw [hafter]
    refine ⟨_, ⟨l, hreturns, rfl⟩, ?_, ?_⟩
    · rw [decodeEnd_eq hv, Nat.zero_add]
    · have hout := Mem.read_write bindata 0 (bs ++ [0])
      rw [← hresult] at hout
      rw [List.length_append, List.length_singleton] at hout
      rw [decodeEnd_eq hv, outs_append, Access.after_append, Mem.read_take _ 0 (Nat.le_succ bs.length)]
      exact (congrArg (List.take bs.length) hout).trans List.take_left

/-! ## Groups -/

/-- Where the loop is at group `g`. -/
def atGroup (g : ℕ) : GroupState := ⟨4 * g, 3 * g⟩

/-- The loop goes past this group. -/
def Passes (m : Mem) (g : ℕ) : Prop := m (4 * g) ≠ 0 ∧ m (4 * g + 2) ≠ 61 ∧ m (4 * g + 3) ≠ 61

section
variable {m : Mem} {g : ℕ}

theorem turn_of_passes (h : Passes m g) (hg : 4 * (g + 1) < 2147483648) :
    (decodeGroup m (atGroup g)).value = some (.inl (atGroup (g + 1))) := by
  rw [group_whole h.1 h.2.1 h.2.2]
  exact if_pos hg

theorem turn_over (h : Passes m g) (hg : ¬ 4 * (g + 1) < 2147483648) : (decodeGroup m (atGroup g)).value = none := by
  rw [group_whole h.1 h.2.1 h.2.2]
  exact if_neg hg

theorem visits_of_passes (hg : 4 * g < 2147483648) (h : ∀ k < g, Passes m k) :
    Visits (decodeGroup m) ⟨0, 0⟩ (atGroup g) := by
  induction g with
  | zero => exact .start _
  | succ g ih =>
    have hbefore := ih (by omega) fun k hk => h k (Nat.lt_succ_of_lt hk)
    exact hbefore.snoc (turn_of_passes (h g (Nat.lt_succ_self g)) hg)

theorem passes_inPlace (h : Passes m g) {last room : ℕ} (hlast : 4 * (g + 1) ≤ last + 1) (hroom : 3 * (g + 1) ≤ room) :
    ∀ e ∈ (decodeGroup m (atGroup g)).events, e.InPlace last room := by
  rw [group_whole h.1 h.2.1 h.2.2]
  simp only [groupReads, atGroup, List.cons_append, List.nil_append, List.forall_mem_cons, DecodeEffect.InPlace, Access.Within,
    List.length_singleton]
  refine ⟨?_, ?_, ?_, ?_, ?_, ?_, ?_, List.forall_mem_nil _⟩
  all_goals omega

/-- At group `g` the loop ends, with no read behind `last` and room for the terminator. -/
def EndsIn (m : Mem) (last room g : ℕ) : Prop :=
  ∃ r es, decodeGroup m (atGroup g) = ⟨some (.inr r), es⟩ ∧ (∀ e ∈ es, e.InPlace last room) ∧ r + 1 ≤ room

theorem contained_of_passes {last room : ℕ} (hg : 4 * g < 2147483648) (h : ∀ k < g, Passes m k) (hlast : 4 * g ≤ last + 1)
    (hroom : 3 * g ≤ room) (hend : EndsIn m last room g) :
    ∃ t, Decoded m t ∧ t.value.isSome ∧ ∀ e ∈ t.events, e.InPlace last room := by
  obtain ⟨r, es, hturn, hes, hr⟩ := hend
  obtain ⟨l, hl, hv⟩ := (visits_of_passes hg h).returns (returns_done hturn)
  have hall : Ensures (DecodeEffect.InPlace last room) (fun r => r + 1 ≤ room) l := by
    refine Returns.ensures (I := fun s => ∃ k ≤ g, s = atGroup k) ?_ hl ⟨0, Nat.zero_le g, rfl⟩
    rintro s ⟨k, hk, rfl⟩
    rcases hk.eq_or_lt with rfl | hlt
    · rw [hturn]
      exact ⟨hes, fun a ha => Option.some.inj ha ▸ hr⟩
    · refine ⟨passes_inPlace (h k hlt) (by omega) (by omega), fun a ha => ?_⟩
      rw [turn_of_passes (h k hlt) (by omega)] at ha
      cases ha
      exact ⟨k + 1, hlt, rfl⟩
  refine ⟨_, ⟨l, hl, rfl⟩, ?_⟩
  rw [decodeEnd_eq hv]
  refine ⟨rfl, List.forall_mem_append.mpr ⟨hall.events, ?_⟩⟩
  exact List.forall_mem_singleton.mpr ⟨Nat.zero_le r, hr⟩

end

/-! ## A text -/

section
variable {text : List UInt8}

instance (g : ℕ) : Decidable (ClosedAt text g) := inferInstanceAs (Decidable (_ ∨ _ ∨ _))

theorem textMem_getElem? (behind : Mem) {a : ℕ} (h : a < text.length) : text[a]? = some (textMem text behind a) := by
  have hread := Mem.getElem?_read (textMem text behind) 0 (n := (text ++ [0]).length) (i := a)
    (by rw [List.length_append, List.length_singleton]; omega)
  rw [textMem, Mem.read_write, List.getElem?_append_left h, Nat.zero_add] at hread
  exact hread

theorem textMem_length (text : List UInt8) (behind : Mem) : textMem text behind text.length = 0 := by
  have hread := Mem.getElem?_read (textMem text behind) 0 (n := (text ++ [0]).length) (i := text.length) (by simp)
  rw [textMem, Mem.read_write, List.getElem?_concat_length, Nat.zero_add] at hread
  exact (Option.some.inj hread).symm

variable (htext : 0 ∉ text) (behind : Mem)
include htext

theorem textMem_ne_zero {a : ℕ} (h : a < text.length) : textMem text behind a ≠ 0 := by
  intro hz
  have hget := textMem_getElem? behind h
  rw [hz] at hget
  exact htext (List.mem_of_getElem? hget)

/-- A whole group without the signs is passed. -/
theorem passes_of_open {g : ℕ} (h : ¬ ClosedAt text g) (hg : 4 * g + 3 < text.length) : Passes (textMem text behind) g := by
  rw [ClosedAt, not_or, not_or, textMem_getElem? behind (by omega), textMem_getElem? behind hg] at h
  exact ⟨textMem_ne_zero htext behind (by omega), fun he => h.2.1 (congrArg some he), fun he => h.2.2 (congrArg some he)⟩

theorem endsIn_of_closed {g : ℕ} (h : ClosedAt text g) :
    4 * g ≤ text.length ∧ EndsIn (textMem text behind) text.length (3 * text.length / 4 + 1) g := by
  by_cases hend : 4 * g = text.length
  · have hz : textMem text behind (4 * g) = 0 := hend ▸ textMem_length text behind
    refine ⟨hend.le, _, _, group_end hz, ?_, ?_⟩
    · exact List.forall_mem_singleton.mpr hend.le
    · dsimp only [atGroup]
      omega
  by_cases hthird : text[4 * g + 2]? = some 61
  · have hlt := (List.getElem?_eq_some_iff.mp hthird).1
    have hget := (textMem_getElem? behind hlt).symm.trans hthird
    have hfirst : textMem text behind (4 * g) ≠ 0 := textMem_ne_zero htext behind (by omega)
    refine ⟨by omega, _, _, group_third hfirst (Option.some.inj hget), ?_, ?_⟩
    · simp only [groupReads, atGroup, List.cons_append, List.nil_append, List.forall_mem_cons, DecodeEffect.InPlace,
        Access.Within, List.length_singleton]
      refine ⟨?_, ?_, ?_, ?_, ?_, List.forall_mem_nil _⟩
      all_goals omega
    · dsimp only [atGroup]
      omega
  · have hfourth := (h.resolve_left hend).resolve_left hthird
    have hlt := (List.getElem?_eq_some_iff.mp hfourth).1
    have hget := (textMem_getElem? behind hlt).symm.trans hfourth
    have hne : textMem text behind (4 * g + 2) ≠ 61 := by
      intro he
      exact hthird ((textMem_getElem? behind (by omega)).trans (congrArg some he))
    have hfirst : textMem text behind (4 * g) ≠ 0 := textMem_ne_zero htext behind (by omega)
    refine ⟨by omega, _, _, group_fourth hfirst hne (Option.some.inj hget), ?_, ?_⟩
    · simp only [groupReads, atGroup, List.cons_append, List.nil_append, List.forall_mem_cons, DecodeEffect.InPlace,
        Access.Within, List.length_singleton]
      refine ⟨?_, ?_, ?_, ?_, ?_, ?_, List.forall_mem_nil _⟩
      all_goals omega
    · dsimp only [atGroup]
      omega

/-- A text that is not closed is read behind its terminator, or until `i` is no `int`. -/
theorem not_contained (hopen : ¬ Closed text) : ¬ Contained text behind := by
  rintro ⟨_, ⟨l, hl, rfl⟩, hsome, hin⟩
  have hopen {g : ℕ} (hg : 4 * g < 2147483648) : ¬ ClosedAt text g := fun h => hopen ⟨g, hg, h⟩
  have hpasses {g : ℕ} (hg : 4 * g < 2147483648) (hlt : 4 * g + 3 < text.length) : Passes (textMem text behind) g :=
    passes_of_open htext behind (hopen hg) hlt
  have hreads {g a : ℕ} (hv : Visits (decodeGroup (textMem text behind)) ⟨0, 0⟩ (atGroup g))
      (ha : .text a ∈ (decodeGroup (textMem text behind) (atGroup g)).events) : a ≤ text.length :=
    hin (.text a) (mem_bind_left (hv.events hl _ ha) _)
  have hover {g : ℕ} (hv : Visits (decodeGroup (textMem text behind)) ⟨0, 0⟩ (atGroup g))
      (hp : Passes (textMem text behind) g) : 4 * (g + 1) < 2147483648 := by
    by_contra hg
    obtain ⟨t, ht, hvalue⟩ := hv.tail hl
    rw [decodeEnd, bind_none (hvalue.trans (ht.fail (turn_over hp hg)))] at hsome
    cases hsome
  by_cases hlong : 4 * (text.length / 4) < 2147483648
  · have hv := visits_of_passes hlong fun k hk => hpasses (by omega) (by omega)
    have hne : 4 * (text.length / 4) ≠ text.length := fun he => hopen hlong (.inl he)
    have hfirst : textMem text behind (4 * (text.length / 4)) ≠ 0 := textMem_ne_zero htext behind (by omega)
    have hlast : 4 * (text.length / 4) + 3 ≤ text.length := hreads hv (group_reads hfirst)
    have hlen : 4 * (text.length / 4) + 3 = text.length := by omega
    -- the fourth character of the group is the terminator
    have hp : Passes (textMem text behind) (text.length / 4) := by
      refine ⟨hfirst, fun he => ?_, ?_⟩
      · exact hopen hlong (.inr (.inl ((textMem_getElem? behind (by omega)).trans (congrArg some he))))
      · rw [hlen, textMem_length]
        decide
    have hnext : 4 * (text.length / 4 + 1) ≤ text.length :=
      hreads (hv.snoc (turn_of_passes hp (hover hv hp))) (group_begins _ _)
    omega
  · have hv := visits_of_passes (m := textMem text behind) (g := 536870911) (by decide) fun k hk =>
      hpasses (by omega) (by omega)
    exact absurd (hover hv (hpasses (by decide) (by omega))) (by decide)

/-- **Texts of any shape.** -/
theorem contained_iff : Contained text behind ↔ Closed text := by
  constructor
  · intro h
    by_contra hopen
    exact not_contained htext behind hopen h
  · intro h
    obtain ⟨hg, hclosed⟩ := Nat.find_spec h
    obtain ⟨hle, hend⟩ := endsIn_of_closed htext behind hclosed
    refine contained_of_passes hg (fun k hk => ?_) (by omega) (by omega) hend
    have hopen : ¬ ClosedAt text k := fun hk' => Nat.find_min h hk ⟨by omega, hk'⟩
    exact passes_of_open htext behind hopen (by omega)

/-- **Base64.** The bytes come back if and only if the length of their text is an `int`; and of a text nothing but itself is
read, with three bytes written for four characters, if and only if the loop comes to its end or to a `=` in a group. -/
theorem base64_iff (bs : List UInt8) :
    (RoundTrip bs ↔ 4 * ((bs.length + 2) / 3) < 2147483648) ∧ (Contained text behind ↔ Closed text) :=
  ⟨roundTrip_iff bs, contained_iff htext behind⟩

end

theorem base64_whole : RoundTrip (ascii "12345") ∧ Contained (ascii "MTIzNDU=") fun _ => 0 := by
  obtain ⟨hbytes, htext⟩ := @base64_iff (ascii "MTIzNDU=") (by decide) (fun _ => 0) (ascii "12345")
  exact ⟨hbytes.mpr (by decide), htext.mpr ⟨2, by decide, by decide⟩⟩

/-- The text of one character. -/
theorem base64_reads_on : ¬ ((∀ bs, RoundTrip bs) ∧ ∀ text : List UInt8, 0 ∉ text → ∀ behind, Contained text behind) := by
  rintro ⟨-, h⟩
  obtain ⟨g, -, hg⟩ := (@contained_iff (ascii "A") (by decide) (fun _ => 0)).mp (h _ (by decide) _)
  have hnone : ∀ k, (ascii "A")[4 * g + 2 + k]? = none := fun k => List.getElem?_eq_none (by
    have hlen : (ascii "A").length = 1 := rfl
    omega)
  rcases hg with hend | hthird | hfourth
  · have hlen : (ascii "A").length = 1 := rfl
    omega
  · exact absurd (hthird.symm.trans (hnone 0)) nofun
  · exact absurd (hfourth.symm.trans (hnone 1)) nofun

end Base64

end SabApp
