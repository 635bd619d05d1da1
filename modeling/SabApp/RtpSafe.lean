import Mathlib.Data.Int.Basic
import SabApp.Accesses
import SabApp.RtpUnits

/-!
# The RTP receiver on any stream

A peer may send any bytes. `tool_ptc_rtp_recvTcp_video` has room for a start code before it knows whether one comes, and
takes the headers of a payload off its length without a look at it. A payload shorter than its headers leaves a
length that wraps, and makes the room one byte too small.
-/

namespace SabApp

namespace Rtp

open Traced

/-- An access to the frame's body, or what remains of a packet's length. -/
inductive Event where
  | body (x : Access)
  | left (n : ℤ)

namespace Event

def Ok : Event → Prop
  | body x => x.Within 0 videoFrameSize
  | left n => 0 ≤ n

def access : Event → Option Access
  | body x => some x
  | left _ => none

end Event

def accesses (es : List Event) : List Access := es.filterMap Event.access

@[simp] theorem accesses_append (es es' : List Event) : accesses (es ++ es') = accesses es ++ accesses es' :=
  List.filterMap_append ..

@[simp] theorem accesses_body (xs : List Access) : accesses (xs.map Event.body) = xs := by
  simp [accesses, Event.access, Function.comp_def]

namespace Unpacked

/-- `data_len --`. -/
def takeByte (n : UInt32) : Traced Event UInt32 := do
  emit (.left ((n.toNat : ℤ) - 1))
  pure (n - 1)

def openNalAt (u : Unpacked) (header : UInt8) : Traced Event Unpacked := do
  emit (.body (.write u.len startCode))
  emit (.body (.write (u.len + 4) [header]))
  pure (u.openNal header)

/-- The first fragment opens the unit. -/
def openFuaAt (u : Unpacked) (fuHead header : UInt8) : Traced Event Unpacked :=
  if startBit fuHead then u.openNalAt header else pure u

/-- The packet's payload header, with what is left of the payload. -/
def recvNalAt (u : Unpacked) (dataLen : UInt32) (s : Stream) : Traced Event (Unpacked × UInt32 × Stream) := do
  let (b, s) ← ofOption (Pieces.recv 1 s)
  let indicator := b.headD 0
  let n ← takeByte dataLen
  if type indicator = 28 then do
    let (b, s) ← ofOption (Pieces.recv 1 s)
    let fuHead := b.headD 0
    let n ← takeByte n
    let header := setType indicator (type fuHead)
    let u ← u.openFuaAt fuHead header
    pure (u.noteNal header n.toNat, n, s)
  else do
    let u ← u.openNalAt indicator
    pure (u.noteNal indicator n.toNat, n, s)

def recvKindAt (u : Unpacked) (pt : ℕ) (dataLen : UInt32) (s : Stream) : Traced Event (Unpacked × UInt32 × Stream) :=
  if isH264 pt then u.recvNalAt dataLen s
  else if pt = 0 then pure (u.setKind 3 3, dataLen, s)
  else if pt = 8 then pure (u.setKind 3 1, dataLen, s)
  else pure (u.setKind 0 0, dataLen, s)

def recvDataAt (u : Unpacked) (n : UInt32) (s : Stream) : Traced Event (Unpacked × Stream) :=
  -- a length that is negative as an int: tool_sock_item_recv returns 0
  if n.toNat ≥ 2147483648 then fail
  else do
    let (data, s) ← (Pieces.recvAt u.len n.toNat s).relabel Event.body
    pure (u.put data, s)

end Unpacked

/-- The state and the stream at the beginning of a turn. -/
abbrev Receiving := Unpacked × Stream

/-- One turn of the loop of `tool_ptc_rtp_recvTcp_video`, with its accesses to the body and the lengths. -/
def recvTurn (x : Receiving) : Traced Event (Receiving ⊕ Receiving) := do
  let (tcp, s) ← ofOption (Pieces.recv 4 x.2)
  let pktLen := be16 tcp 2
  if byteAt tcp 0 ≠ 0x24 ∨ pktLen < 12 ∨ pktLen > pktSize then fail
  else do
    let (rtp, s) ← ofOption (Pieces.recv 12 s)
    let ts := UInt32.ofNat (word32 rtp 4)
    let u := x.1.enter ts
    emit (.left ((pktLen : ℤ) - 12))
    if u.len + (pktLen - 12) + 4 > videoFrameSize then fail
    else do
      let (u, n, s) ← u.recvKindAt (byteAt rtp 1 % 128) (.ofNat (pktLen - 12)) s
      let (u, s) ← u.recvDataAt n s
      let y : Receiving := ({ u with lastTs := ts }, s)
      pure (if byteAt rtp 1 / 128 = 1 ∨ u.frame.head.frameType = 3 then .inr y else .inl y)

/-! ## The trace is that of the receiver -/

theorem sub_one_toNat {n : UInt32} (h : 1 ≤ n.toNat) : (n - 1).toNat = n.toNat - 1 :=
  UInt32.toNat_sub_of_le _ _ (UInt32.le_iff_toNat_le.mpr h)

/-- Nothing was left, and the length wraps. -/
theorem sub_one_wrapped {n : UInt32} (h : n.toNat = 0) : (n - 1).toNat = 4294967295 := by
  rw [UInt32.toNat_sub, h]
  rfl

namespace Unpacked

/-- What the read of the data makes of a length. -/
def unwrapped (r : Unpacked × UInt32 × Stream) : Option (Unpacked × ℕ × Stream) :=
  if r.2.1.toNat ≥ 2147483648 then none else some (r.1, r.2.1.toNat, r.2.2)

theorem value_openFuaAt (u : Unpacked) (fuHead header : UInt8) :
    (u.openFuaAt fuHead header).value = some (if startBit fuHead then u.openNal header else u) := by
  unfold openFuaAt
  split <;> rfl

theorem value_recvNalAt (u : Unpacked) {n : UInt32} (hn : n.toNat < 65536) (s : Stream) :
    (u.recvNalAt n s).value.bind unwrapped = u.recvNal n.toNat s := by
  simp only [recvNalAt, recvNal, value_bind, value_ofOption, takeByte, value_emit, value_pure]
  cases Pieces.recv 1 s with
  | none => rfl
  | some r =>
    simp only [Option.bind_some]
    split
    · simp only [value_bind, value_ofOption]
      cases Pieces.recv 1 r.2 with
      | none => rfl
      | some r' =>
        simp only [value_emit, value_pure, Option.bind_some, value_openFuaAt, unwrapped]
        by_cases hlt : n.toNat < 2
        · have hwrap : (n - 1 - 1).toNat ≥ 2147483648 := by
            by_cases h0 : n.toNat = 0
            · rw [sub_one_toNat (by rw [sub_one_wrapped h0]; decide), sub_one_wrapped h0]
              decide
            · rw [sub_one_wrapped (by rw [sub_one_toNat (by omega)]; omega)]
              decide
          rw [if_pos hwrap, if_pos hlt]
        · have hleft : (n - 1 - 1).toNat = n.toNat - 2 := by
            have h₁ := sub_one_toNat (n := n) (by omega)
            rw [sub_one_toNat (by omega), h₁]
            omega
          rw [hleft, if_neg (by omega), if_neg hlt]
    · simp only [openNalAt, value_bind, value_emit, value_pure, Option.bind_some, unwrapped]
      by_cases hlt : n.toNat < 1
      · rw [if_pos (by rw [sub_one_wrapped (by omega)]; decide), if_pos hlt]
      · rw [sub_one_toNat (by omega), if_neg (by omega), if_neg hlt]

theorem value_recvKindAt (u : Unpacked) (pt : ℕ) {n : UInt32} (hn : n.toNat < 65536) (s : Stream) :
    (u.recvKindAt pt n s).value.bind unwrapped = u.recvKind pt n.toNat s := by
  unfold recvKindAt recvKind
  split
  · exact u.value_recvNalAt hn s
  have hkind : ∀ v : Unpacked, ((pure (v, n, s) : Traced Event _).value).bind unwrapped = some (v, n.toNat, s) := fun v => by
    simp only [value_pure, Option.bind_some, unwrapped]
    exact if_neg (by omega)
  split
  · exact hkind _
  split
  · exact hkind _
  · exact hkind _

theorem value_recvDataAt (u : Unpacked) (n : UInt32) (s : Stream) :
    (u.recvDataAt n s).value = (unwrapped (u, n, s)).bind fun r =>
      (Pieces.recv r.2.1 r.2.2).map fun d => (r.1.put d.1, d.2) := by
  unfold recvDataAt unwrapped
  dsimp only
  split
  · rfl
  · simp only [value_bind, value_relabel, Pieces.value_recvAt, Option.bind_some]
    cases Pieces.recv n.toNat s <;> rfl

end Unpacked

theorem value_recvTurn (u : Unpacked) (s : Stream) :
    (recvTurn (u, s)).value = (u.recvPacket s).map fun r =>
      if r.2.1 = true ∨ r.1.frame.head.frameType = 3 then .inr (r.1, r.2.2) else .inl (r.1, r.2.2) := by
  simp only [recvTurn, Unpacked.recvPacket, value_bind, value_ofOption]
  cases Pieces.recv 4 s with
  | none => rfl
  | some r =>
    simp only [Option.bind_some]
    split
    · rfl
    next hhead =>
    simp only [value_bind, value_ofOption]
    cases Pieces.recv 12 r.2 with
    | none => rfl
    | some q =>
      simp only [value_emit, Option.bind_some]
      rw [← Unpacked.enter]
      split
      · rfl
      have hlt : be16 r.1 2 - 12 < 65536 := by
        have : pktSize = 2048 := rfl
        omega
      have hn : (UInt32.ofNat (be16 r.1 2 - 12)).toNat = be16 r.1 2 - 12 :=
        UInt32.toNat_ofNat_of_lt' (Nat.lt_trans hlt (by decide))
      have hkind := (u.enter (.ofNat (word32 q.1 4))).value_recvKindAt (byteAt q.1 1 % 128) (by rw [hn]; exact hlt) q.2
      rw [hn] at hkind
      rw [← hkind]
      simp only [value_bind]
      cases ((u.enter (.ofNat (word32 q.1 4))).recvKindAt (byteAt q.1 1 % 128) (.ofNat (be16 r.1 2 - 12)) q.2).value with
      | none => rfl
      | some w =>
        simp only [Option.bind_some, Unpacked.value_recvDataAt]
        cases Unpacked.unwrapped w with
        | none => rfl
        | some v =>
          simp only [Option.bind_some]
          cases Pieces.recv v.2.1 v.2.2 with
          | none => rfl
          | some d => simp

/-! ## What is laid down is written -/

/-- The accesses that lead from `u` to `v`: what is new is written, and nothing else changes the body. -/
structure Lays (u : Unpacked) (es : List Event) (v : Unpacked) : Prop where
  len : u.len ≤ v.len
  written : ∀ i, u.len ≤ i → i < v.len → Access.Writes (accesses es) i
  body : v.frame.body = Access.after u.frame.body (accesses es)

theorem Lays.none {u v : Unpacked} {es : List Event} (he : accesses es = []) (hl : v.len = u.len)
    (hb : v.frame.body = u.frame.body) : Lays u es v :=
  ⟨by omega, fun i hi hlt => by omega, by rw [he, hb, Access.after_nil]⟩

theorem Lays.put (u : Unpacked) (bs : List UInt8) : Lays u [.body (.write u.len bs)] (u.put bs) :=
  ⟨Nat.le_add_right _ _, fun _ hi hlt => ⟨u.len, bs, by simp [accesses, Event.access], hi, hlt⟩, rfl⟩

theorem Lays.trans {u v w : Unpacked} {es es' : List Event} (h : Lays u es v) (h' : Lays v es' w) :
    Lays u (es ++ es') w := by
  refine ⟨Nat.le_trans h.len h'.len, fun i hi hlt => ?_, ?_⟩
  · rw [accesses_append]
    by_cases hv : i < v.len
    · exact (h.written i hi hv).mono (List.subset_append_left _ _)
    · exact (h'.written i (by omega) hlt).mono (List.subset_append_right _ _)
  · rw [accesses_append, Access.after_append, ← h.body, h'.body]

/-- The header is no longer than what the packet has left of its length. -/
structure Covers (n : ℕ) (bs : List UInt8) : Prop where
  one : 1 ≤ bs.length → 1 ≤ n
  two : 2 ≤ bs.length → type (bs.getD 0 0) = 28 → 2 ≤ n

namespace Unpacked

/-- What the header's turn leaves room for. -/
def Roomy (u : Unpacked) (es : List Event) (r : Unpacked × UInt32 × Stream) : Prop :=
  Lays u es r.1 ∧ r.1.len + r.2.1.toNat ≤ videoFrameSize

def Took (n : UInt32) (es : List Event) (m : UInt32) : Prop := accesses es = [] ∧ m.toNat = n.toNat - 1

def Opens (u : Unpacked) (es : List Event) (v : Unpacked) : Prop := Lays u es v ∧ v.len ≤ u.len + 5

def Fills (u : Unpacked) (es : List Event) (r : Unpacked × Stream) : Prop := Lays u es r.1 ∧ r.1.len ≤ videoFrameSize

theorem takeByte_covered {n : UInt32} (hn : 1 ≤ n.toNat) :
    Ensures Event.Ok (Took n (takeByte n).events) (takeByte n) := by
  refine ⟨?_, ?_⟩
  · intro e he
    rw [List.eq_of_mem_singleton he]
    show 0 ≤ (n.toNat : ℤ) - 1
    omega
  · intro m hm
    cases hm
    exact ⟨rfl, sub_one_toNat hn⟩

theorem openNalAt_lays {u : Unpacked} (hu : u.len + 5 ≤ videoFrameSize) (header : UInt8) :
    Ensures Event.Ok (u.Opens (u.openNalAt header).events) (u.openNalAt header) := by
  refine ⟨?_, ?_⟩
  · intro e he
    have he : e = .body (.write u.len startCode) ∨ e = .body (.write (u.len + 4) [header]) := by
      rcases List.mem_cons.mp he with rfl | he
      · exact .inl rfl
      · exact .inr (List.eq_of_mem_singleton he)
    rcases he with rfl | rfl
    · exact ⟨Nat.zero_le _, show u.len + 4 ≤ _ by omega⟩
    · exact ⟨Nat.zero_le _, show u.len + 4 + 1 ≤ _ by omega⟩
  · intro v hv
    cases hv
    exact ⟨(Lays.put u startCode).trans (Lays.put (u.put startCode) [header]), Nat.le_refl _⟩

theorem openFuaAt_lays {u : Unpacked} (hu : u.len + 5 ≤ videoFrameSize) (fuHead header : UInt8) :
    Ensures Event.Ok (u.Opens (u.openFuaAt fuHead header).events) (u.openFuaAt fuHead header) := by
  unfold openFuaAt
  split
  · exact openNalAt_lays hu header
  · exact ensures_pure ⟨.none rfl rfl rfl, Nat.le_add_right _ _⟩

theorem noteNal_lays {u v : Unpacked} {es : List Event} (h : Lays u es v) (header : UInt8) (n : ℕ) :
    Lays u es (v.noteNal header n) :=
  ⟨h.len, h.written, h.body⟩

theorem recv_one {s s' : Stream} {b : List UInt8} (h : Pieces.recv 1 s = some (b, s')) :
    ∃ x, b = [x] ∧ s.flatten = x :: s'.flatten := by
  obtain ⟨hl, hs⟩ := Pieces.recv_some h
  obtain ⟨x, rfl⟩ := List.length_eq_one_iff.mp hl
  exact ⟨x, rfl, hs⟩

/-- A header that is covered is taken off the length, and a unit opened in the room there is. -/
theorem recvNalAt_lays {u : Unpacked} {n : UInt32} {s : Stream} (hroom : u.len + n.toNat + 4 ≤ videoFrameSize)
    (hn : Covers n.toNat s.flatten) : Ensures Event.Ok (u.Roomy (u.recvNalAt n s).events) (u.recvNalAt n s) := by
  refine Ensures.bind_events (R := fun es r => es = [] ∧ ∃ x, r.1 = [x] ∧ s.flatten = x :: r.2.flatten)
    (T := u.Roomy) (ensures_ofOption fun r hr => ⟨rfl, recv_one hr⟩) ?_
  rintro ⟨b, s₁⟩ ⟨-, x, rfl, hs⟩
  have hone : 1 ≤ n.toNat := hn.one (by rw [hs]; exact Nat.le_add_left 1 _)
  refine Ensures.bind_events (R := Took n) (T := u.Roomy) (takeByte_covered hone) ?_
  rintro m ⟨hacc, hm⟩
  have htook : Lays u (takeByte n).events u := .none hacc rfl rfl
  split
  · next htype =>
    refine Ensures.bind_events (R := fun es r => es = [] ∧ ∃ y, r.1 = [y] ∧ s₁.flatten = y :: r.2.flatten)
      (T := fun es => u.Roomy ((takeByte n).events ++ es)) (ensures_ofOption fun r hr => ⟨rfl, recv_one hr⟩) ?_
    rintro ⟨b, s₂⟩ ⟨-, y, rfl, hs₁⟩
    have htwo : 2 ≤ n.toNat := hn.two (by rw [hs, hs₁]; exact Nat.le_add_left 2 _) (by rw [hs]; exact htype)
    refine Ensures.bind_events (R := Took m) (T := fun es => u.Roomy ((takeByte n).events ++ es))
      (takeByte_covered (by omega)) ?_
    rintro k ⟨hacc', hk⟩
    have htook' := htook.trans (.none (v := u) hacc' rfl rfl)
    refine Ensures.bind_events (R := u.Opens) (T := fun es => u.Roomy ((takeByte n).events ++ ((takeByte m).events ++ es)))
      (openFuaAt_lays (by omega) _ _) ?_
    rintro v ⟨hlays, hlen⟩
    refine ensures_pure ⟨?_, ?_⟩
    · rw [events_pure, List.append_nil, ← List.append_assoc]
      exact noteNal_lays (htook'.trans hlays) _ _
    · show v.len + k.toNat ≤ _
      omega
  · refine Ensures.bind_events (R := u.Opens) (T := fun es => u.Roomy ((takeByte n).events ++ es))
      (openNalAt_lays (by omega) _) ?_
    rintro v ⟨hlays, hlen⟩
    refine ensures_pure ⟨?_, ?_⟩
    · rw [events_pure, List.append_nil]
      exact noteNal_lays (htook.trans hlays) _ _
    · show v.len + m.toNat ≤ _
      omega

theorem recvKindAt_lays {u : Unpacked} {pt : ℕ} {n : UInt32} {s : Stream} (hroom : u.len + n.toNat + 4 ≤ videoFrameSize)
    (hn : isH264 pt = true → Covers n.toNat s.flatten) :
    Ensures Event.Ok (u.Roomy (u.recvKindAt pt n s).events) (u.recvKindAt pt n s) := by
  have hkind : ∀ a b, Ensures Event.Ok (u.Roomy (pure (u.setKind a b, n, s) : Traced Event _).events)
      (pure (u.setKind a b, n, s)) := fun a b =>
    ensures_pure ⟨.none rfl rfl rfl, show u.len + n.toNat ≤ _ by omega⟩
  unfold recvKindAt
  split
  · exact recvNalAt_lays hroom (hn ‹_›)
  split
  · exact hkind _ _
  split
  · exact hkind _ _
  · exact hkind _ _

theorem recvDataAt_lays {u : Unpacked} {n : UInt32} {s : Stream} (hroom : u.len + n.toNat ≤ videoFrameSize) :
    Ensures Event.Ok (u.Fills (u.recvDataAt n s).events) (u.recvDataAt n s) := by
  unfold recvDataAt
  split
  · exact ensures_fail
  have hin : Ensures Event.Ok (fun r => Pieces.recv n.toNat s = some r)
      ((Pieces.recvAt u.len n.toNat s).relabel Event.body) :=
    (Pieces.recvAt_within s u.len n.toNat).relabel fun e he => he.mono (Nat.zero_le _) hroom
  refine Ensures.bind_events (R := fun es r => es = (Pieces.recvAt u.len n.toNat s).events.map Event.body ∧
      Pieces.recv n.toNat s = some r) (T := u.Fills) (hin.imp fun _ hr => ⟨rfl, hr⟩) ?_
  rintro ⟨data, s₁⟩ ⟨-, hr⟩
  have hl := (Pieces.recv_some hr).1
  refine ensures_pure ⟨⟨Nat.le_add_right _ _, fun i hi hlt => ?_, ?_⟩, ?_⟩
  · simp only [events_relabel, events_pure, List.append_nil, accesses_body]
    have hlt : i < u.len + data.length := hlt
    exact Pieces.recvAt_writes hr i hi (by omega)
  · simp only [events_relabel, events_pure, List.append_nil, accesses_body]
    exact (Pieces.after_recvAt u.frame.body hr).symm
  · show u.len + data.length ≤ _
    omega

end Unpacked

/-- The packet in front has a payload that is shorter than its headers, and finds room. -/
def Short (x : Receiving) : Prop :=
  let bs := x.2.flatten
  byteAt bs 0 = 0x24 ∧ isH264 (byteAt bs 5 % 128) = true ∧
    (x.1.enter (.ofNat (word32 bs 8))).len + (be16 bs 2 - 12) + 4 ≤ videoFrameSize ∧
    (be16 bs 2 = 12 ∧ 17 ≤ bs.length ∨ be16 bs 2 = 13 ∧ type (bs.getD 16 0) = 28 ∧ 18 ≤ bs.length)

/-- What has been laid down since the call began is written. -/
structure Kept (f : VideoFrame) (es : List Event) (x : Receiving) : Prop where
  len : x.1.len ≤ videoFrameSize
  lays : Lays ⟨f, 0, 0, 0xFFFFFFFF⟩ es x.1

theorem Lays.enter {u v : Unpacked} {es : List Event} (h : Lays u es v) (hu : u.len = 0) (ts : UInt32) :
    Lays u es (v.enter ts) := by
  unfold Unpacked.enter
  split
  · exact ⟨Nat.le_of_eq hu, fun i hi hlt => absurd hlt (Nat.not_lt_zero i), h.body⟩
  · exact h

theorem be16_append_left {xs ys : List UInt8} {i : ℕ} (h : i + 2 ≤ xs.length) : be16 (xs ++ ys) i = be16 xs i := by
  unfold be16
  rw [byteAt_append_left (by omega), byteAt_append_left (by omega)]

structure Heads (bs tcp rtp rest : List UInt8) : Prop where
  split : bs = tcp ++ (rtp ++ rest)
  tcp : tcp.length = 4
  rtp : rtp.length = 12

namespace Heads

variable {bs tcp rtp rest : List UInt8} (h : Heads bs tcp rtp rest)

include h

theorem flag : byteAt bs 0 = byteAt tcp 0 := by
  rw [h.split, byteAt_append_left (by rw [h.tcp]; decide)]

theorem len : be16 bs 2 = be16 tcp 2 := by
  rw [h.split, be16_append_left (by rw [h.tcp])]

theorem kind : byteAt bs 5 = byteAt rtp 1 := by
  rw [h.split, byteAt_append_right (by rw [h.tcp]; decide), h.tcp, byteAt_append_left (by rw [h.rtp]; decide)]

theorem ts : word32 bs 8 = word32 rtp 4 := by
  rw [h.split, word32_append_right (by rw [h.tcp]; decide), h.tcp, word32_append_left (by rw [h.rtp]; decide)]

theorem header : bs.getD 16 0 = rest.getD 0 0 := by
  have ht := h.tcp
  have hr := h.rtp
  rw [h.split]
  simp only [List.getD_eq_getElem?_getD]
  rw [List.getElem?_append_right (by omega), List.getElem?_append_right (by omega), ht, hr]

theorem length : bs.length = 16 + rest.length := by
  have ht := h.tcp
  have hr := h.rtp
  rw [h.split]
  simp only [List.length_append]
  omega

end Heads

theorem heads_of_length (bs : List UInt8) (h : 16 ≤ bs.length) : ∃ tcp rtp rest, Heads bs tcp rtp rest := by
  refine ⟨bs.take 4, (bs.drop 4).take 12, (bs.drop 4).drop 12, ?_, ?_, ?_⟩
  · rw [List.take_append_drop, List.take_append_drop]
  · rw [List.length_take]
    omega
  · rw [List.length_take, List.length_drop]
    omega

theorem covers_of_not_short {x : Receiving} {tcp rtp rest : List UInt8} (h : Heads x.2.flatten tcp rtp rest)
    (hx : ¬Short x) (hhead : ¬(byteAt tcp 0 ≠ 0x24 ∨ be16 tcp 2 < 12 ∨ be16 tcp 2 > pktSize))
    (hroom : ¬(x.1.enter (.ofNat (word32 rtp 4))).len + (be16 tcp 2 - 12) + 4 > videoFrameSize)
    (hpt : isH264 (byteAt rtp 1 % 128) = true) : Covers (be16 tcp 2 - 12) rest := by
  have hlen := h.length
  have hshort : ¬(be16 tcp 2 = 12 ∧ 17 ≤ x.2.flatten.length ∨
      be16 tcp 2 = 13 ∧ type (rest.getD 0 0) = 28 ∧ 18 ≤ x.2.flatten.length) := fun hs =>
    hx ⟨by rw [h.flag]; omega, by rw [h.kind, hpt], by rw [h.ts, h.len]; omega, by rw [h.len, h.header]; exact hs⟩
  refine ⟨fun hone => ?_, fun htwo htype => ?_⟩
  · by_contra h0
    exact hshort (.inl ⟨by omega, by omega⟩)
  · by_contra h0
    have : be16 tcp 2 ≠ 12 := fun h12 => hshort (.inl ⟨h12, by omega⟩)
    exact hshort (.inr ⟨by omega, htype, by omega⟩)

theorem Kept.turn {f : VideoFrame} {es : List Event} {x : Receiving} (h : Kept f es x) (hx : ¬Short x) :
    Ensures Event.Ok (fun r => Kept f (es ++ (recvTurn x).events) (r.elim id id)) (recvTurn x) := by
  let T : List Event → Receiving ⊕ Receiving → Prop := fun es' r => Kept f (es ++ es') (r.elim id id)
  refine Ensures.bind_events (R := fun es r => es = [] ∧ r.1.length = 4 ∧ x.2.flatten = r.1 ++ r.2.flatten) (T := T)
    (ensures_ofOption fun r hr => ⟨rfl, Pieces.recv_some hr⟩) ?_
  rintro ⟨tcp, s₁⟩ ⟨-, htcp, hs⟩
  dsimp only at htcp hs ⊢
  split
  · exact ensures_fail
  next hhead =>
  refine Ensures.bind_events (R := fun es r => es = [] ∧ r.1.length = 12 ∧ s₁.flatten = r.1 ++ r.2.flatten) (T := T)
    (ensures_ofOption fun r hr => ⟨rfl, Pieces.recv_some hr⟩) ?_
  rintro ⟨rtp, s₂⟩ ⟨-, hrtp, hs₁⟩
  dsimp only at hrtp hs₁ ⊢
  have hheads : Heads x.2.flatten tcp rtp s₂.flatten := ⟨by rw [hs, hs₁], htcp, hrtp⟩
  have hleft : Event.Ok (.left ((be16 tcp 2 : ℤ) - 12)) := by
    show 0 ≤ (be16 tcp 2 : ℤ) - 12
    omega
  refine Ensures.bind_events (R := fun es _ => accesses es = []) (T := T)
    ⟨(ensures_emit hleft).events, fun _ _ => rfl⟩ ?_
  rintro - hacc
  split
  · exact ensures_fail
  next hroom =>
  have hsize : be16 tcp 2 - 12 < 4294967296 := by
    have : pktSize = 2048 := rfl
    omega
  have hn : (UInt32.ofNat (be16 tcp 2 - 12)).toNat = be16 tcp 2 - 12 := UInt32.toNat_ofNat_of_lt' hsize
  have hcovers : isH264 (byteAt rtp 1 % 128) = true → Covers (UInt32.ofNat (be16 tcp 2 - 12)).toNat s₂.flatten := by
    rw [hn]
    exact covers_of_not_short hheads hx hhead hroom
  have hlays := h.lays.enter rfl (.ofNat (word32 rtp 4))
  refine Ensures.bind_events (R := (x.1.enter (.ofNat (word32 rtp 4))).Roomy)
    (T := fun es' => T ((emit (.left ((be16 tcp 2 : ℤ) - 12)) : Traced Event PUnit).events ++ es'))
    (Unpacked.recvKindAt_lays (by rw [hn]; omega) hcovers) ?_
  rintro ⟨v, n, s₃⟩ ⟨hlays₁, hroom₁⟩
  dsimp only at hlays₁ hroom₁ ⊢
  refine Ensures.bind_events (R := v.Fills) (T := fun es' => T ((emit (.left ((be16 tcp 2 : ℤ) - 12)) :
    Traced Event PUnit).events ++ (_ ++ es'))) (Unpacked.recvDataAt_lays hroom₁) ?_
  rintro ⟨w, s₄⟩ ⟨hlays₂, hlen⟩
  dsimp only at hlays₂ hlen ⊢
  have hall := hlays.trans ((Lays.none hacc rfl rfl).trans (hlays₁.trans hlays₂))
  have hkept : Kept f _ ({ w with lastTs := .ofNat (word32 rtp 4) }, s₄) := ⟨hlen, hall.len, hall.written, hall.body⟩
  refine ensures_pure ?_
  rw [events_pure, List.append_nil]
  split
  · exact hkept
  · exact hkept

theorem takeByte_wraps {n : UInt32} (hn : n.toNat = 0) : Event.left (-1) ∈ (Unpacked.takeByte n).events := by
  have : Event.left (-1) = .left ((n.toNat : ℤ) - 1) := by rw [hn]; rfl
  rw [this]
  exact mem_bind_left (List.mem_singleton_self _) _

theorem Short.wraps {x : Receiving} (hx : Short x) : Event.left (-1) ∈ (recvTurn x).events := by
  obtain ⟨hflag, hpt, hroom, hshort⟩ := hx
  obtain ⟨tcp, rtp, rest, h⟩ := heads_of_length x.2.flatten (by omega)
  have hlen := h.length
  rw [h.flag] at hflag
  rw [h.kind] at hpt
  rw [h.ts, h.len] at hroom
  rw [h.len, h.header] at hshort
  obtain ⟨s₁, h₁, hs₁⟩ := Pieces.recv_append h.split
  obtain ⟨s₂, h₂, hs₂⟩ := Pieces.recv_append hs₁
  rw [h.tcp] at h₁
  rw [h.rtp] at h₂
  obtain ⟨y, ys, rfl⟩ : ∃ y ys, rest = y :: ys := List.exists_cons_of_length_pos (by omega)
  obtain ⟨s₃, h₃, hs₃⟩ := Pieces.recv_append (show s₂.flatten = [y] ++ ys from hs₂)
  have hhead : ¬(byteAt tcp 0 ≠ 0x24 ∨ be16 tcp 2 < 12 ∨ be16 tcp 2 > pktSize) := by
    have : pktSize = 2048 := rfl
    omega
  refine mem_bind_right (a := (tcp, s₁)) h₁ ?_
  dsimp only
  rw [if_neg hhead]
  refine mem_bind_right (a := (rtp, s₂)) h₂ (mem_bind_right (a := ⟨⟩) rfl ?_)
  rw [if_neg (Nat.not_lt.mpr hroom)]
  refine mem_bind_left ?_ _
  rw [Unpacked.recvKindAt, if_pos hpt]
  refine mem_bind_right (a := ([y], s₃)) h₃ ?_
  rcases hshort with ⟨h12, -⟩ | ⟨h13, htype, h18⟩
  · exact mem_bind_left (takeByte_wraps (by rw [h12]; rfl)) _
  · obtain ⟨z, zs, rfl⟩ : ∃ z zs, ys = z :: zs := List.exists_cons_of_length_pos (by
      rw [List.length_cons] at hlen
      omega)
    obtain ⟨s₄, h₄, -⟩ := Pieces.recv_append (show s₃.flatten = [z] ++ zs from hs₃)
    refine mem_bind_right (a := UInt32.ofNat (be16 tcp 2 - 12) - 1) rfl ?_
    dsimp only
    rw [if_pos (show type ([y].headD 0) = 28 from htype)]
    refine mem_bind_right (a := ([z], s₄)) h₄ (mem_bind_left (takeByte_wraps ?_) _)
    rw [h13]
    rfl

/-! ## The loop -/

theorem recvTurn_shrinks {x y : Receiving} (h : (recvTurn x).value = some (.inl y)) :
    y.2.flatten.length < x.2.flatten.length := by
  obtain ⟨u, s⟩ := x
  rw [value_recvTurn] at h
  obtain ⟨r, hr, he⟩ := Option.map_eq_some_iff.mp h
  obtain ⟨bs, hs, -, hlen⟩ := Unpacked.recvPacket_some hr
  have hy : (r.1, r.2.2) = y := by
    split at he
    · cases he
    · exact Sum.inl.inj he
  subst hy
  show r.2.2.flatten.length < s.flatten.length
  rw [hs, List.length_append]
  omega

theorem recvTurn_empty (x : Receiving) (h : x.2.flatten.length = 0) : (recvTurn x).value = none := by
  rw [recvTurn, value_bind, Pieces.recv_short (n := 4) (by omega)]
  rfl

theorem turns_recvTurn (n : ℕ) (x : Receiving) : (turns recvTurn n x).bind Traced.value = x.1.recvPackets n x.2 := by
  refine turns_value (g := fun n x => x.1.recvPackets n x.2) (fun _ => rfl) (fun n x => ?_) n x
  have hv := value_recvTurn x.1 x.2
  rw [hv, Unpacked.recvPackets]
  cases x.1.recvPacket x.2 with
  | none => rfl
  | some r =>
    rw [Option.map_some, Option.bind_some]
    dsimp only
    split <;> rfl

/-- What a call is to keep to on a stream: it returns, each access is within the body and each length what remains, and
a frame is bytes that this call has written. -/
def Safe (f : VideoFrame) (s : Stream) : Prop :=
  ∃ t, Returns recvTurn (begun f, s) t ∧ (∀ e ∈ t.events, e.Ok) ∧
    ∀ sps now c r c' s', recvTcpVideo sps now c f s = some (r, c', s') → r.head.len.toNat ≤ videoFrameSize ∧
      (∀ i < r.head.len.toNat, Access.Writes (accesses t.events) i) ∧ r.body = Access.after f.body (accesses t.events)

theorem recvTurn_returns (f : VideoFrame) (s : Stream) : ∃ t, Returns recvTurn (begun f, s) t ∧
    t.value = (begun f).recvPackets s.flatten.length s := by
  let left (x : Receiving) : ℕ := x.2.flatten.length
  obtain ⟨t, ht⟩ := turns_of_measure left (fun _ _ => recvTurn_shrinks) (s := (begun f, s)) (Nat.lt_succ_self _)
  have hfuel := turns_fuel left (fun _ _ => recvTurn_shrinks) recvTurn_empty (s := (begun f, s)) (Nat.le_refl _)
  rw [ht, turns_recvTurn] at hfuel
  exact ⟨t, ⟨_, ht⟩, hfuel⟩

/-- **Safety.** The receiver is safe on a stream exactly if no packet it comes to is shorter than its headers. -/
theorem safe_iff (f : VideoFrame) (s : Stream) : Safe f s ↔ ∀ x, Visits recvTurn (begun f, s) x → ¬Short x := by
  obtain ⟨t, ht, hv⟩ := recvTurn_returns f s
  constructor
  · rintro ⟨t', ht', hok, -⟩ x hx hshort
    have hneg : (0 : ℤ) ≤ -1 := hok _ (hx.events ht' _ hshort.wraps)
    omega
  · intro hvisits
    have hall : Ensures Event.Ok (Kept f ([] ++ t.events)) t := by
      refine Returns.history (I := Kept f) (Q := Kept f) (fun es x hx hok => (hx.turn hok).imp ?_) ht ?_ hvisits
      · rintro (y | y) hy
        · exact hy
        · exact hy
      · exact ⟨Nat.zero_le _, .none rfl rfl rfl⟩
    refine ⟨t, ht, hall.events, ?_⟩
    intro sps now c r c' s' hr
    obtain ⟨u, hu, hret⟩ := recvTcpVideo_some hr
    have hkept := hall.value _ (hv.trans hu)
    have hlt : u.len < 4294967296 := Nat.lt_of_le_of_lt hkept.len (by decide)
    have hl : r.head.len.toNat = u.len := by rw [hret.len, UInt32.toNat_ofNat_of_lt' hlt]
    rw [hl, hret.body]
    exact ⟨hkept.len, fun i hi => hkept.lays.written i (Nat.zero_le _) hi, hkept.lays.body⟩

/-- The room that a packet without payload is given holds a start code, and not the header behind it. -/
theorem openNalAt_overruns {u : Unpacked} (hu : u.len + 4 = videoFrameSize) (header : UInt8) :
    Event.body (.write videoFrameSize [header]) ∈ (u.openNalAt header).events := by
  rw [← hu]
  exact mem_bind_right rfl (mem_bind_left (List.mem_singleton_self _) _)

/-- The heads of an H.264 packet without payload, and one byte more. -/
def bareHeads : Stream := [[0x24, 0, 0, 12, 0x80, 96, 0, 0, 0, 0, 0, 0, 0, 0, 0, 0], [0x65]]

theorem bareHeads_unsafe : ¬Safe noFrame bareHeads := by
  rintro ⟨t, ht, hok, -⟩
  have hshort : Short (begun noFrame, bareHeads) := ⟨by decide, by decide, by decide, .inl ⟨by decide, by decide⟩⟩
  have hneg : (0 : ℤ) ≤ -1 := hok _ ((Visits.start _).events ht _ hshort.wraps)
  omega

end Rtp

end SabApp
