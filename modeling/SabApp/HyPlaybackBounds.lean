import SabApp.HySlices

/-!
# What `tool_ptc_hy_checkPbsBuf` looks at, and how a playback stream is used up

The search for a mark compares four bytes at every place, up to the last byte held, and the length of the slice is
read wherever the mark is found. A slice may say that it has no length at all, and then what is left over is the slice.
-/

namespace SabApp

namespace Hy

open Traced

/-- `n` bytes are read at a place of the buffer while `held` bytes are held. -/
structure Look where
  place : ℕ
  n : ℕ
  held : ℕ

def Look.Held (x : Look) : Prop := x.place + x.n ≤ x.held

/-- The loop of the search, for `k` more places from `i` on. -/
def searchMark (b : RecvBuf) : ℕ → ℕ → Traced Look (Option ℕ)
  | 0, _ => pure none
  | k + 1, i => do
    emit ⟨i, 4, b.len⟩
    if magicAt b.mem (32 + i) then pure (some i) else searchMark b k (i + 1)

/-- The adjusting in `tool_ptc_hy_checkPbsBuf`, with what it reads. -/
def adjustLooks (b : RecvBuf) : Traced Look (Option RecvBuf) := do
  emit ⟨0, 4, b.len⟩
  if magicAt b.mem 32 then pure (some b)
  else do
    match ← searchMark b b.len 0 with
    | none => pure none
    | some i => do
      emit ⟨i, b.len - i, b.len⟩
      emit ⟨0, 4, b.len - i⟩
      pure (some { b with mem := b.mem.write 32 (b.mem.read (32 + i) (b.len - i)), len := b.len - i })

/-- `tool_ptc_hy_checkPbsBuf`, with what it reads. -/
def checkLooks (b : RecvBuf) : Traced Look (Bool × RecvBuf) :=
  if b.len < 24 then pure (false, b)
  else do
    match ← adjustLooks b with
    | none => pure (false, { b with len := 0 })
    | some b => do
      emit ⟨12, 4, b.len⟩
      let n := word32 (b.mem.read 32 16) 12
      pure (if b.len < n then (false, b) else (true, { b with leftBuf := 32 + n, leftLen := b.len - n }))

/-- The first place with a mark, among those where a byte is held. -/
def FirstMark (b : RecvBuf) (i : ℕ) : Prop :=
  i < b.len ∧ magicAt b.mem (32 + i) = true ∧ ∀ j < i, magicAt b.mem (32 + j) = false

def lengthAt (b : RecvBuf) (i : ℕ) : ℕ := word32 (b.mem.read (32 + i) 16) 12

/-- Only bytes that are held are read. A slice that is reported is held, and less is left than there was. -/
structure Bounded (b : RecvBuf) : Prop where
  looks : ∀ x ∈ (checkLooks b).events, x.Held
  header : (checkPbsBuf b).1 = true → 24 ≤ (checkPbsBuf b).2.len
  body : (checkPbsBuf b).1 = true → sliceLength (checkPbsBuf b).2.mem ≤ (checkPbsBuf b).2.len
  progress : (checkPbsBuf b).1 = true → (checkPbsBuf b).2.leftLen < b.len

/-- There is too little to look at, or a mark with its length field lies in what is held; and where the slice behind it
ends there as well, so does the slice's head, and the slice is not empty at the front. -/
def Marked (b : RecvBuf) : Prop :=
  b.len < 24 ∨ ∃ i, FirstMark b i ∧ i + 16 ≤ b.len ∧
    (i + lengthAt b i ≤ b.len → i + 24 ≤ b.len ∧ 0 < i + lengthAt b i)

/-! ## One check -/

theorem searchMark_none {b : RecvBuf} : ∀ {k i : ℕ}, (∀ j, i ≤ j → j < i + k → magicAt b.mem (32 + j) = false) →
    (searchMark b k i).value = some none ∧ ∀ j, i ≤ j → j < i + k → ⟨j, 4, b.len⟩ ∈ (searchMark b k i).events
  | 0, i, _ => ⟨rfl, fun j hj hj' => absurd hj (by omega)⟩
  | k + 1, i, h => by
    have hi := h i (Nat.le_refl i) (by omega)
    obtain ⟨hv, he⟩ := searchMark_none (k := k) (i := i + 1) fun j hj hj' => h j (by omega) (by omega)
    rw [searchMark, hi, if_neg Bool.false_ne_true, bind_some (value_emit _)]
    refine ⟨hv, fun j hj hj' => ?_⟩
    rcases Nat.eq_or_lt_of_le hj with rfl | hlt
    · exact List.mem_append_left _ (List.mem_singleton.mpr rfl)
    · exact List.mem_append_right _ (he j hlt (by omega))

theorem searchMark_some {b : RecvBuf} {p : ℕ} (hp : magicAt b.mem (32 + p) = true) : ∀ {k i : ℕ}, i ≤ p → p < i + k →
    (∀ j, i ≤ j → j < p → magicAt b.mem (32 + j) = false) →
    (searchMark b k i).value = some (some p) ∧ ⟨p, 4, b.len⟩ ∈ (searchMark b k i).events ∧
      ∀ x ∈ (searchMark b k i).events, x.place ≤ p ∧ x.n = 4 ∧ x.held = b.len
  | 0, i, hip, hpk, _ => absurd hip (by omega)
  | k + 1, i, hip, hpk, h => by
    rw [searchMark]
    by_cases hi : i = p
    · subst hi
      rw [hp, if_pos rfl, bind_some (value_emit _)]
      refine ⟨rfl, List.mem_append_left _ (List.mem_singleton.mpr rfl), fun x hx => ?_⟩
      rw [events_emit, events_pure, List.append_nil] at hx
      rw [List.eq_of_mem_singleton hx]
      exact ⟨Nat.le_refl _, rfl, rfl⟩
    · obtain ⟨hv, he, hall⟩ := searchMark_some hp (k := k) (i := i + 1) (by omega) (by omega)
        fun j hj hj' => h j (by omega) hj'
      rw [h i (Nat.le_refl i) (by omega), if_neg Bool.false_ne_true, bind_some (value_emit _)]
      refine ⟨hv, List.mem_append_right _ he, fun x hx => ?_⟩
      rcases List.mem_append.mp hx with hx | hx
      · rw [List.eq_of_mem_singleton hx]
        exact ⟨hip, rfl, rfl⟩
      · exact hall x hx

/-- The buffer when the mark at `i` has been moved to the front. -/
def resync (b : RecvBuf) (i : ℕ) : RecvBuf :=
  if i = 0 then b else { b with mem := b.mem.write 32 (b.mem.read (32 + i) (b.len - i)), len := b.len - i }

@[simp] theorem resync_len (b : RecvBuf) (i : ℕ) : (resync b i).len = b.len - i := by
  unfold resync
  split
  · next h => simp [h]
  · rfl

theorem word32_sliceLength (m : Mem) : word32 (m.read 32 16) 12 = sliceLength m := rfl

theorem sliceLength_resync {b : RecvBuf} {i : ℕ} (h : i + 16 ≤ b.len) :
    sliceLength (resync b i).mem = lengthAt b i := by
  unfold resync
  split
  · next h0 =>
    subst h0
    rfl
  · have hmove := Mem.read_write b.mem 32 (b.mem.read (32 + i) (b.len - i))
    rw [Mem.read_length] at hmove
    have hread := Mem.read_take (b.mem.write 32 (b.mem.read (32 + i) (b.len - i))) 32 (by omega : 16 ≤ b.len - i)
    rw [hmove, ← Mem.read_take b.mem (32 + i) (by omega : 16 ≤ b.len - i)] at hread
    rw [← word32_sliceLength, hread, lengthAt]

section
variable {b : RecvBuf} {i : ℕ}

theorem findMagic_first (h : FirstMark b i) : findMagic b = some i := by
  rw [findMagic, List.find?_range_eq_some]
  exact ⟨h.2.1, List.mem_range.mpr h.1, fun j hj => by simp [h.2.2 j hj]⟩

theorem adjustLooks_first (h : FirstMark b i) : (adjustLooks b).value = some (some (resync b i)) ∧
    ∀ x ∈ (adjustLooks b).events, x.place ≤ i ∧ x.n = 4 ∧ x.held = b.len ∨ x = ⟨i, b.len - i, b.len⟩ ∨
      x = ⟨0, 4, b.len - i⟩ := by
  unfold adjustLooks resync
  rw [bind_some (value_emit _)]
  by_cases h0 : i = 0
  · subst h0
    rw [if_pos h.2.1, if_pos rfl]
    refine ⟨rfl, fun x hx => .inl ?_⟩
    rw [events_emit, events_pure, List.append_nil] at hx
    rw [List.eq_of_mem_singleton hx]
    exact ⟨Nat.le_refl _, rfl, rfl⟩
  · have hfront : magicAt b.mem 32 = false := h.2.2 0 (Nat.pos_of_ne_zero h0)
    obtain ⟨hv, -, hall⟩ := searchMark_some h.2.1 (k := b.len) (i := 0) (Nat.zero_le _) (by
      have := h.1
      omega) fun j _ hj => h.2.2 j hj
    rw [hfront, if_neg Bool.false_ne_true, if_neg h0, bind_some hv]
    refine ⟨rfl, fun x hx => ?_⟩
    simp only [events_emit, bind_some (value_emit _), events_pure, List.append_nil, List.cons_append, List.nil_append,
      List.mem_cons, List.mem_append, List.not_mem_nil, or_false] at hx
    rcases hx with rfl | hx | rfl | rfl
    · exact .inl ⟨Nat.zero_le _, rfl, rfl⟩
    · exact .inl (hall x hx)
    · exact .inr (.inl rfl)
    · exact .inr (.inr rfl)

theorem checkPbsBuf_first (h24 : 24 ≤ b.len) (h : FirstMark b i) :
    checkPbsBuf b = if b.len - i < sliceLength (resync b i).mem then (false, resync b i)
      else (true, beside (resync b i) (sliceLength (resync b i).mem)) := by
  have hadj : adjust b = some (resync b i) := by
    unfold adjust resync
    by_cases h0 : i = 0
    · subst h0
      rw [if_pos h.2.1, if_pos rfl]
    · have hfront : magicAt b.mem 32 = false := h.2.2 0 (Nat.pos_of_ne_zero h0)
      rw [hfront, if_neg Bool.false_ne_true, if_neg h0, findMagic_first h]
  rw [checkPbsBuf, if_neg (Nat.not_lt.mpr h24), hadj]
  simp only [resync_len, beside, word32_sliceLength]

theorem checkLooks_first (h24 : 24 ≤ b.len) (h : FirstMark b i) : ⟨12, 4, b.len - i⟩ ∈ (checkLooks b).events ∧
    ∀ x ∈ (checkLooks b).events, x.place ≤ i ∧ x.n = 4 ∧ x.held = b.len ∨ x = ⟨i, b.len - i, b.len⟩ ∨
      x = ⟨0, 4, b.len - i⟩ ∨ x = ⟨12, 4, b.len - i⟩ := by
  obtain ⟨hv, hall⟩ := adjustLooks_first h
  rw [checkLooks, if_neg (Nat.not_lt.mpr h24), bind_some hv]
  simp only [bind_some (value_emit _), events_emit, events_pure, resync_len, List.append_nil]
  refine ⟨List.mem_append_right _ (List.mem_singleton.mpr rfl), fun x hx => ?_⟩
  rcases List.mem_append.mp hx with hx | hx
  · rcases hall x hx with h | h | h
    · exact .inl h
    · exact .inr (.inl h)
    · exact .inr (.inr (.inl h))
  · exact .inr (.inr (.inr (List.eq_of_mem_singleton hx)))

theorem adjust_unmarked (h24 : 24 ≤ b.len) (h : ∀ j < b.len, magicAt b.mem (32 + j) = false) : adjust b = none := by
  have hfront : magicAt b.mem 32 = false := h 0 (by omega)
  have hfind : findMagic b = none := List.find?_range_eq_none.mpr fun j hj => by simp [h j hj]
  rw [adjust, hfront, if_neg Bool.false_ne_true, hfind]

/-- The search goes past what is held where there is no mark. -/
theorem adjustLooks_unmarked (h24 : 24 ≤ b.len) (h : ∀ j < b.len, magicAt b.mem (32 + j) = false) :
    (adjustLooks b).value = some none ∧ ⟨b.len - 1, 4, b.len⟩ ∈ (adjustLooks b).events := by
  obtain ⟨hv, hall⟩ := searchMark_none (b := b) (k := b.len) (i := 0) fun j _ hj => h j (by omega)
  have hfront : magicAt b.mem 32 = false := h 0 (by omega)
  unfold adjustLooks
  rw [bind_some (value_emit _), hfront, if_neg Bool.false_ne_true, bind_some hv]
  exact ⟨rfl, List.mem_append_right _ (List.mem_append_left _ (hall _ (Nat.zero_le _) (by omega)))⟩

theorem checkLooks_unmarked (h24 : 24 ≤ b.len) (h : ∀ j < b.len, magicAt b.mem (32 + j) = false) :
    ⟨b.len - 1, 4, b.len⟩ ∈ (checkLooks b).events := by
  obtain ⟨hv, he⟩ := adjustLooks_unmarked h24 h
  rw [checkLooks, if_neg (Nat.not_lt.mpr h24), bind_some hv]
  exact List.mem_append_left _ he

theorem firstMark_or (b : RecvBuf) : (∃ i, FirstMark b i) ∨ ∀ j < b.len, magicAt b.mem (32 + j) = false := by
  cases hf : findMagic b with
  | none =>
    right
    intro j hj
    simpa using List.find?_range_eq_none.mp hf j hj
  | some i =>
    left
    obtain ⟨hp, hi, hj⟩ := List.find?_range_eq_some.mp hf
    exact ⟨i, List.mem_range.mp hi, hp, fun j hj' => by simpa using hj j hj'⟩

/-- The trace is that of the check. -/
theorem value_checkLooks (b : RecvBuf) : (checkLooks b).value = some (checkPbsBuf b) := by
  by_cases h24 : b.len < 24
  · rw [checkLooks, if_pos h24, checkPbsBuf, if_pos h24]
    rfl
  rcases firstMark_or b with ⟨i, hi⟩ | hnone
  · rw [checkLooks, if_neg h24, bind_some (adjustLooks_first hi).1, checkPbsBuf_first (Nat.le_of_not_lt h24) hi]
    simp only [value_bind, value_emit, Option.bind_some, value_pure, resync_len, beside, word32_sliceLength]
  · rw [checkLooks, if_neg h24, bind_some (adjustLooks_unmarked (Nat.le_of_not_lt h24) hnone).1, checkPbsBuf, if_neg h24,
      adjust_unmarked (Nat.le_of_not_lt h24) hnone]
    rfl

theorem bounded_of_short (h24 : b.len < 24) : Bounded b := by
  have hcheck : checkPbsBuf b = (false, b) := by rw [checkPbsBuf, if_pos h24]
  refine ⟨?_, ?_, ?_, ?_⟩
  · rw [checkLooks, if_pos h24]
    exact List.forall_mem_nil _
  all_goals
    rw [hcheck]
    intro h
    cases h

theorem Bounded.first (h : Bounded b) (h24 : 24 ≤ b.len) (hi : FirstMark b i) :
    i + 16 ≤ b.len ∧ (i + lengthAt b i ≤ b.len → i + 24 ≤ b.len ∧ 0 < i + lengthAt b i) := by
  have hcheck := checkPbsBuf_first h24 hi
  have h16 : 12 + 4 ≤ b.len - i := h.looks _ (checkLooks_first h24 hi).1
  rw [sliceLength_resync (by omega)] at hcheck
  refine ⟨by omega, fun hle => ?_⟩
  rw [if_neg (by omega)] at hcheck
  have hhead := h.header (by rw [hcheck])
  have hless := h.progress (by rw [hcheck])
  rw [hcheck] at hhead hless
  simp only [beside, resync_len] at hhead hless
  omega

theorem bounded_of_first (h24 : 24 ≤ b.len) (hi : FirstMark b i) (h16 : i + 16 ≤ b.len)
    (hrest : i + lengthAt b i ≤ b.len → i + 24 ≤ b.len ∧ 0 < i + lengthAt b i) : Bounded b := by
  have hcheck := checkPbsBuf_first h24 hi
  have hall := (checkLooks_first h24 hi).2
  have hib := hi.1
  rw [sliceLength_resync h16] at hcheck
  have hreport : (checkPbsBuf b).1 = true →
      i + lengthAt b i ≤ b.len ∧ checkPbsBuf b = (true, beside (resync b i) (lengthAt b i)) := by
    rw [hcheck]
    split
    · exact nofun
    · intro
      exact ⟨by omega, rfl⟩
  refine ⟨fun x hx => ?_, fun hr => ?_, fun hr => ?_, fun hr => ?_⟩
  · unfold Look.Held
    rcases hall x hx with ⟨h1, h2, h3⟩ | rfl | rfl | rfl
    · omega
    all_goals
      dsimp only
      omega
  · obtain ⟨hle, heq⟩ := hreport hr
    have := (hrest hle).1
    rw [heq]
    simp only [beside, resync_len]
    omega
  · obtain ⟨hle, heq⟩ := hreport hr
    rw [heq]
    simp only [beside, resync_len, sliceLength_resync h16]
    omega
  · obtain ⟨hle, heq⟩ := hreport hr
    have := (hrest hle).2
    rw [heq]
    simp only [beside, resync_len]
    omega

theorem bounded_iff_marked (b : RecvBuf) : Bounded b ↔ Marked b := by
  by_cases h24 : b.len < 24
  · exact ⟨fun _ => .inl h24, fun _ => bounded_of_short h24⟩
  have h24' := Nat.le_of_not_lt h24
  constructor
  · intro h
    rcases firstMark_or b with ⟨i, hi⟩ | hnone
    · exact .inr ⟨i, hi, h.first h24' hi⟩
    · have hlook : b.len - 1 + 4 ≤ b.len := h.looks _ (checkLooks_unmarked h24' hnone)
      omega
  · rintro (h | ⟨i, hi, h16, hrest⟩)
    · exact absurd h h24
    · exact bounded_of_first h24' hi h16 hrest

end

/-! ## The loop of the caller -/

def Finds (b : RecvBuf) : Prop := ∃ i, FirstMark b i ∧ i + lengthAt b i ≤ b.len

theorem finds_of_check {b : RecvBuf} (hm : Marked b) (h : (checkPbsBuf b).1 = true) : Finds b := by
  rcases hm with h24 | ⟨i, hi, h16, -⟩
  · rw [checkPbsBuf, if_pos h24] at h
    cases h
  · by_cases h24 : b.len < 24
    · rw [checkPbsBuf, if_pos h24] at h
      cases h
    rw [checkPbsBuf_first (Nat.le_of_not_lt h24) hi, sliceLength_resync h16] at h
    split at h
    · cases h
    · exact ⟨i, hi, by omega⟩

namespace PbsWorld

section
variable (size : ℕ)

/-- The buffers that are checked in a call of `tool_ptc_hy_recvPbs`. -/
inductive Checks (w : PbsWorld) : RecvBuf → Prop
  | held : Checks w w.buf.move
  | fetched {b : RecvBuf} {sock : List (List UInt8)} (h : (checkPbsBuf w.buf.move).1 = false)
    (hb : recvPbsBuf size (checkPbsBuf w.buf.move).2 w.sock = .ok (b, sock)) : Checks w b

/-- Every buffer that is checked is marked well, and a slice that has been taken is not found again. -/
structure Orderly (w : PbsWorld) : Prop where
  marked : ∀ b, Checks size w b → Marked b
  spent : w.spent = true → ¬ Finds w.buf.move

end

variable {date2Time : FrameDate → UInt32} {size : ℕ} {w t : PbsWorld} {b : RecvBuf}

/-- The bytes held that no call has taken. -/
def unspent (w : PbsWorld) : ℕ := if w.spent then 0 else w.buf.move.len

theorem hy2qh_ok (h : w.hy2qh date2Time b = .ok t) :
    t.sock = w.sock ∧ t.spent = w.spent ∧ t.buf.leftLen = b.leftLen := by
  rw [hy2qh_world] at h
  split at h
  · cases h
  · cases h
    exact ⟨rfl, rfl, rfl⟩
  · cases h
    exact ⟨rfl, rfl, rfl⟩

theorem hy2qh_ne_wait : w.hy2qh date2Time b ≠ .error .wait := by
  rw [hy2qh_world]
  split <;> nofun

theorem unspent_deliver (h : w.deliver date2Time b = .ok t) : t.unspent = b.leftLen ∧ t.sock = w.sock := by
  obtain ⟨hsock, hspent, hleft⟩ := hy2qh_ok h
  refine ⟨?_, hsock⟩
  have hspent : t.spent = decide (b.leftLen = 0) := hspent
  by_cases h0 : b.leftLen = 0
  · rw [unspent, hspent, decide_eq_true h0, if_pos rfl, h0]
  · rw [unspent, hspent, decide_eq_false h0, if_neg Bool.false_ne_true,
      (RecvBuf.move_of_left (b := t.buf) (by omega)).1, hleft]

/-- Each call that returns has taken a message, or has less to take. -/
theorem recvPbs_less (hw : Orderly size w) (h : w.recvPbs date2Time size = .ok t) :
    Prod.Lex (· < ·) (· < ·) (t.sock.length, t.unspent) (w.sock.length, w.unspent) := by
  unfold recvPbs at h
  dsimp only at h
  by_cases hr : (checkPbsBuf w.buf.move).1 = true
  · rw [if_pos hr] at h
    obtain ⟨hleft, hsock⟩ := unspent_deliver h
    have hm := hw.marked _ .held
    have hspent : w.spent = false := by
      cases hs : w.spent with
      | false => rfl
      | true => exact absurd (finds_of_check hm hr) (hw.spent hs)
    rw [hsock, hleft, unspent, hspent, if_neg Bool.false_ne_true]
    exact .right _ (((bounded_iff_marked _).mpr hm).progress hr)
  · rw [if_neg hr, fetch] at h
    cases hs : w.sock with
    | nil =>
      rw [hs] at h
      cases h
    | cons p ps =>
      rw [hs] at h
      cases hb : recvPbsBuf size (checkPbsBuf w.buf.move).2 (p :: ps) with
      | error e =>
        rw [hb] at h
        cases h
      | ok r =>
        obtain ⟨b, sock⟩ := r
        obtain ⟨rfl, -, -⟩ := recvPbsBuf_held hb
        rw [hb] at h
        dsimp only at h
        have hsock : t.sock = sock := by
          split at h
          · exact (unspent_deliver h).2
          · cases h
            rfl
        rw [hsock]
        exact .left _ _ (Nat.lt_succ_self _)

theorem sock_of_wait (h : w.recvPbs date2Time size = .error .wait) : w.sock = [] := by
  unfold recvPbs at h
  dsimp only at h
  split at h
  · exact absurd h hy2qh_ne_wait
  · cases hs : w.sock with
    | nil => rfl
    | cons p ps =>
      rw [fetch, hs] at h
      cases hb : recvPbsBuf size (checkPbsBuf w.buf.move).2 (p :: ps) with
      | error e =>
        rw [hb] at h
        cases h
        exact absurd hb (recvPbsBuf_ne_wait _ p ps)
      | ok r =>
        rw [hb] at h
        dsimp only at h
        split at h
        · exact absurd h hy2qh_ne_wait
        · cases h

/-- The calls come to an end: one fails, or waits when every message has been taken. -/
def Consumes (date2Time : FrameDate → UInt32) (size : ℕ) (w : PbsWorld) : Prop :=
  ∃ k e, recvPbs date2Time size (Poll.calls (recvPbs date2Time size) k w) = .error e ∧
    (e = .wait → (Poll.calls (recvPbs date2Time size) k w).sock = [])

theorem firstMark_front {b : RecvBuf} (h0 : 0 < b.len) (hm : magicAt b.mem 32 = true) : FirstMark b 0 := ⟨h0, hm, nofun⟩

theorem marked_front {b : RecvBuf} (h16 : 16 ≤ b.len) (hm : magicAt b.mem 32 = true)
    (hr : sliceLength b.mem ≤ b.len → 24 ≤ b.len ∧ 0 < sliceLength b.mem) : Marked b := by
  have hlen : lengthAt b 0 = sliceLength b.mem := rfl
  refine .inr ⟨0, firstMark_front (by omega) hm, by omega, ?_⟩
  rw [hlen, Nat.zero_add, Nat.zero_add]
  exact hr

/-- A message with a P slice and the first bytes of the next one. -/
def pThenMore : List (List UInt8) := [pSlice.bytes ++ le32 avHead]

theorem pThenMore_orderly (k : ℕ) : Orderly 511968 (Poll.calls recv k (idle pThenMore)) := by
  have h1 : recv (Poll.calls recv 1 (idle pThenMore)) = .error .wait := rfl
  refine Poll.forall_calls (Q := Orderly 511968) (f := recv) (n := 1) h1 (fun k hk => ?_) k
  match k, hk with
  | 0, _ =>
    refine ⟨fun b hb => ?_, nofun⟩
    cases hb with
    | held => exact .inl (by decide)
    | fetched _ hb =>
      cases hb
      exact marked_front (by decide) rfl (fun _ => by decide)
  | 1, _ =>
    have hmore : (Poll.calls recv 1 (idle pThenMore)).sock = [] := rfl
    refine ⟨fun b hb => ?_, fun hs => absurd hs (by decide)⟩
    cases hb with
    | held => exact .inl (by decide)
    | fetched _ hb =>
      rw [hmore] at hb
      cases hb

/-- A slice of a kind that is skipped, with the length 0. -/
def emptySlice : List UInt8 :=
  le32 avHead ++ [SliceKind.t.code, 0, 0, 0] ++ [0, 0, 0, 0] ++ [0, 0, 0, 0] ++ [0, 0, 0, 0, 0, 0, 0, 0]

theorem check_emptySlice {b : RecvBuf} (hlen : b.len = 24) (h : b.held = emptySlice) :
    checkPbsBuf b = (true, beside b 0) := by
  rw [RecvBuf.held, hlen] at h
  have hm : magicAt b.mem 32 = true := by
    rw [magicAt, Mem.read_take b.mem 32 (by decide : 4 ≤ 24), h]
    decide
  have hn : sliceLength b.mem = 0 := by
    rw [← word32_sliceLength, Mem.read_take b.mem 32 (by decide : 16 ≤ 24), h]
    decide
  rw [checkPbsBuf_first (Nat.le_of_eq hlen.symm) (firstMark_front (by omega) hm)]
  simp [resync, hn]

/-- It has been skipped, and all of it is left over. -/
structure Stuck (w : PbsWorld) : Prop where
  leftBuf : w.buf.leftBuf = 32
  leftLen : w.buf.leftLen = 24
  front : w.buf.mem.read 32 24 = emptySlice

theorem deliver_emptySlice (date2Time : FrameDate → UInt32) (w : PbsWorld) {b : RecvBuf} (hlen : b.len = 24)
    (h : b.held = emptySlice) : ∃ t, w.deliver date2Time (beside b 0) = .ok t ∧ Stuck t := by
  rw [RecvBuf.held, hlen] at h
  have hcode : b.mem 36 = SliceKind.t.code := by
    have hget := Mem.getElem?_read b.mem 32 (by decide : 4 < 24)
    rw [h] at hget
    exact (Option.some.inj hget).symm
  refine ⟨{ w with buf := beside b 0, spent := (beside b 0).leftLen = 0 }, ?_, rfl, ?_, h⟩
  · simp [deliver, PbsWorld.hy2qh, beside, hcode, newHead]
  · simp [beside, hlen]

theorem Stuck.recvPbs (date2Time : FrameDate → UInt32) (size : ℕ) {w : PbsWorld} (h : Stuck w) :
    ∃ t, w.recvPbs date2Time size = .ok t ∧ Stuck t := by
  obtain ⟨hlen, hheld⟩ := RecvBuf.move_of_left (b := w.buf) (by rw [h.leftLen]; decide)
  rw [h.leftLen] at hlen hheld
  rw [h.leftBuf, h.front] at hheld
  rw [PbsWorld.recvPbs, check_emptySlice hlen hheld]
  exact deliver_emptySlice date2Time w hlen hheld

theorem Stuck.calls : ∀ (k : ℕ) {w : PbsWorld}, Stuck w → Stuck (Poll.calls recv k w)
  | 0, _, h => h
  | k + 1, w, h => by
    obtain ⟨t, ht, hs⟩ := h.recvPbs (fun _ => 0) 511968
    have ht : recv w = .ok t := ht
    rw [Poll.calls_succ_of_ok ht]
    exact hs.calls k

/-- The buffer when a message with an empty slice has come. -/
def emptyBuf : RecvBuf := (idle [emptySlice]).buf.append emptySlice

end PbsWorld

end Hy

end SabApp
