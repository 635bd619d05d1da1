import SabApp.Accesses
import SabApp.QhFrame

/-!
# The frame receiver on any stream

A peer may send any bytes. Each turn of the receiver takes a head, so it returns; a packet is written only behind the
packets before it and below PTC_VIDEO_FRAME_SIZE, since a length at which the sum wraps is negative for the read, which
then returns 0.
-/

namespace SabApp

namespace Qh

open Traced

/-- The frame, `len` and the stream at the beginning of a turn. -/
abbrev Receiving := PtcFrame × UInt32 × Stream

/-- One turn of the loop of `tool_ptc_qh_recvFrame`, with what it writes to the payload. -/
def recvTurn (x : Receiving) : Traced Access (Receiving ⊕ Receiving) := do
  let (hb, s) ← ofOption (Pieces.recv 32 x.2.2)
  let h := PtcHead.ofBytes hb
  if h.flag ≠ ptcFlag then fail
  else if (x.2.1 + h.packLen).toNat ≥ videoFrameSize then fail
  else if h.packLen.toNat ≥ 2147483648 then fail
  else do
    let (bs, s) ← Pieces.recvAt x.2.1.toNat h.packLen.toNat s
    let y : Receiving := (⟨h, x.1.data.write x.2.1.toNat bs⟩, x.2.1 + h.packLen, s)
    pure (if h.packCount = h.packNo then .inr y else .inl y)

/-- `tool_ptc_qh_recvFrame` behind its loop. -/
def recvEnd (x : Receiving) : Traced Access (PtcFrame × Stream) :=
  if x.2.1 ≠ x.1.head.len then fail
  else do
    emit (.write x.2.1.toNat [0])
    pure ({ x.1 with data := x.1.data.write x.2.1.toNat [0] }, x.2.2)

/-- A head as it came, and the payload of its packet. -/
structure Pack where
  head : List UInt8
  payload : List UInt8

namespace Pack

def bytes (p : Pack) : List UInt8 := p.head ++ p.payload

def WellFormed (p : Pack) : Prop := p.head.length = 32 ∧ p.payload.length = (PtcHead.ofBytes p.head).packLen.toNat

end Pack

/-- The packets that have been taken from `s`, and lie one behind the other in the payload. -/
structure Taken (s : Stream) (ps : List Pack) (x : Receiving) : Prop where
  formed : ∀ p ∈ ps, p.WellFormed
  stream : s.flatten = ps.flatMap Pack.bytes ++ x.2.2.flatten
  len : x.2.1.toNat = (ps.flatMap Pack.payload).length
  small : x.2.1.toNat < videoFrameSize
  data : x.1.data.read 0 x.2.1.toNat = ps.flatMap Pack.payload

/-- What success is to mean: the payload is `head.len` bytes, all received, and the frame's head the last one. -/
structure Whole (s : Stream) (r : PtcFrame × Stream) : Prop where
  small : r.1.head.len.toNat < videoFrameSize
  received : ∃ ps : List Pack, (∀ p ∈ ps, p.WellFormed) ∧ s.flatten = ps.flatMap Pack.bytes ++ r.2.flatten ∧
    (∃ p, ps.getLast? = some p ∧ r.1.head = PtcHead.ofBytes p.head) ∧
    r.1.head.len.toNat = (ps.flatMap Pack.payload).length ∧
    r.1.data.read 0 r.1.head.len.toNat = ps.flatMap Pack.payload

/-! ## One turn -/

theorem value_recvTurn (f : PtcFrame) (len : UInt32) (s : Stream) :
    (recvTurn (f, len, s)).value =
      (recvPack (fun n => n.toNat ≥ videoFrameSize) f len s).map fun y =>
        if y.1.head.packCount = y.1.head.packNo then .inr y else .inl y := by
  simp only [recvTurn, recvPack, value_bind, value_ofOption]
  cases Pieces.recv 32 s with
  | none => rfl
  | some r =>
    simp only [Option.bind_some, decide_eq_true_eq]
    split
    · rfl
    split
    · rfl
    split
    · rfl
    rw [value_bind, Pieces.value_recvAt]
    cases Pieces.recv (PtcHead.ofBytes r.1).packLen.toNat r.2 <;> rfl

/-- The sum wraps only with a length that is refused as negative. -/
theorem sum_toNat {len n : UInt32} (hl : len.toNat < videoFrameSize) (hn : ¬ n.toNat ≥ 2147483648) :
    (len + n).toNat = len.toNat + n.toNat := by
  unfold videoFrameSize at hl
  rw [UInt32.toNat_add]
  exact Nat.mod_eq_of_lt (by omega)

theorem Taken.turn {s : Stream} {ps : List Pack} {x : Receiving} (h : Taken s ps x) :
    Ensures (Access.Within 0 videoFrameSize)
      (fun r => ∃ p, Taken s (ps ++ [p]) (r.elim id id) ∧ (r.elim id id).1.head = PtcHead.ofBytes p.head) (recvTurn x) := by
  obtain ⟨f, len, t⟩ := x
  refine Ensures.bind (ensures_ofOption fun r hr => Pieces.recv_some hr) ?_
  rintro ⟨hb, t₁⟩ ⟨hhead, ht₁⟩
  refine ensures_ite (fun _ => ensures_fail) fun _ => ensures_ite (fun _ => ensures_fail) fun hsum =>
    ensures_ite (fun _ => ensures_fail) fun hneg => ?_
  have hadd := sum_toNat h.small hneg
  have hlt : len.toNat + (PtcHead.ofBytes hb).packLen.toNat < videoFrameSize := by
    rw [← hadd]
    exact Nat.lt_of_not_le hsum
  have hrecv : Ensures (Access.Within 0 videoFrameSize)
      (fun r => Pieces.recv (PtcHead.ofBytes hb).packLen.toNat t₁ = some r)
      (Pieces.recvAt len.toNat (PtcHead.ofBytes hb).packLen.toNat t₁) :=
    ⟨fun e he => ((Pieces.recvAt_within t₁ _ _).events e he).mono (Nat.zero_le _) (Nat.le_of_lt hlt),
      (Pieces.recvAt_within t₁ _ _).value⟩
  refine hrecv.bind ?_
  rintro ⟨bs, t₂⟩ hr
  obtain ⟨hlen, ht₂⟩ := Pieces.recv_some hr
  have hnext : Taken s (ps ++ [⟨hb, bs⟩])
      (⟨PtcHead.ofBytes hb, f.data.write len.toNat bs⟩, len + (PtcHead.ofBytes hb).packLen, t₂) := by
    refine ⟨?_, ?_, ?_, ?_, ?_⟩
    · intro p hp
      rcases List.mem_append.mp hp with hp | hp
      · exact h.formed p hp
      · rw [List.eq_of_mem_singleton hp]
        exact ⟨hhead, hlen⟩
    · rw [h.stream, ht₁, ht₂, List.flatMap_append, List.flatMap_singleton, List.append_assoc, Pack.bytes,
        List.append_assoc]
    · simp only [hadd, h.len, ← hlen, List.flatMap_append, List.flatMap_singleton, List.length_append]
    · simp only [hadd]
      exact hlt
    · have hdata := read_write_next f.data len.toNat bs
      simp only [hadd, ← hlen, List.flatMap_append, List.flatMap_singleton]
      rw [hdata, h.data]
  refine ensures_pure ⟨⟨hb, bs⟩, ?_⟩
  split
  · exact ⟨hnext, rfl⟩
  · exact ⟨hnext, rfl⟩

/-- A turn that comes to an end has changed the payload by its writes. -/
theorem after_recvTurn (x : Receiving) (r : Receiving ⊕ Receiving) (h : (recvTurn x).value = some r) :
    r.elim (·.1.data) (·.1.data) = (recvTurn x).events.foldl Access.apply x.1.data := by
  obtain ⟨f, len, s⟩ := x
  unfold recvTurn at h ⊢
  cases hr : Pieces.recv 32 s with
  | none => simp [hr] at h
  | some y =>
    simp only [hr, value_bind, value_ofOption, Option.bind_some] at h
    rw [bind_some (a := y) (by simp)]
    simp only [events_ofOption, List.nil_append]
    split at h
    · cases h
    split at h
    · cases h
    split at h
    · cases h
    next h₁ h₂ h₃ =>
    rw [if_neg h₁, if_neg h₂, if_neg h₃]
    rw [value_bind, Pieces.value_recvAt] at h
    cases hbs : Pieces.recv (PtcHead.ofBytes y.1).packLen.toNat y.2 with
    | none => simp [hbs] at h
    | some z =>
      have hafter := Pieces.after_recvAt (a := len.toNat) f.data hbs
      rw [bind_some ((Pieces.value_recvAt _ _ _).trans hbs)]
      simp only [hbs, Option.bind_some, value_pure, Option.some.injEq] at h
      simp only [events_pure, List.append_nil, ← h]
      refine Eq.trans ?_ hafter.symm
      split <;> rfl

theorem recvTurn_shrinks {x y : Receiving} (h : (recvTurn x).value = some (.inl y)) :
    y.2.2.flatten.length < x.2.2.flatten.length := by
  obtain ⟨f, len, s⟩ := x
  rw [value_recvTurn] at h
  obtain ⟨r, hr, he⟩ := Option.map_eq_some_iff.mp h
  have hy : r = y := by
    split at he
    · cases he
    · exact Sum.inl.inj he
  subst hy
  unfold recvPack at hr
  cases h₁ : Pieces.recv 32 s with
  | none =>
    rw [h₁] at hr
    cases hr
  | some q =>
    obtain ⟨hlen₁, hs₁⟩ := Pieces.recv_some h₁
    simp only [h₁] at hr
    split at hr
    · cases hr
    split at hr
    · cases hr
    split at hr
    · cases hr
    cases h₂ : Pieces.recv (PtcHead.ofBytes q.1).packLen.toNat q.2 with
    | none =>
      rw [h₂] at hr
      cases hr
    | some q₂ =>
      obtain ⟨-, hs₂⟩ := Pieces.recv_some h₂
      rw [h₂] at hr
      cases hr
      have h₁' := congrArg List.length hs₁
      have h₂' := congrArg List.length hs₂
      simp only [List.length_append] at h₁' h₂'
      show q₂.2.flatten.length < s.flatten.length
      omega

theorem recvTurn_empty (x : Receiving) (h : x.2.2.flatten.length = 0) : (recvTurn x).value = none := by
  rw [recvTurn, value_bind, Pieces.recv_short (n := 32) (by omega)]
  rfl

/-! ## The loop -/

/-- The loop with its trace does what the loop does. -/
theorem turns_recvTurn (n : ℕ) (x : Receiving) :
    (turns recvTurn n x).bind Traced.value = recvPacks (fun n => n.toNat ≥ videoFrameSize) n x.1 x.2.1 x.2.2 := by
  refine turns_value (g := fun n x => recvPacks (fun n => n.toNat ≥ videoFrameSize) n x.1 x.2.1 x.2.2) (fun _ => rfl)
    (fun n x => ?_) n x
  have hv := value_recvTurn x.1 x.2.1 x.2.2
  rw [hv, recvPacks]
  cases recvPack (fun n => n.toNat ≥ videoFrameSize) x.1 x.2.1 x.2.2 with
  | none => rfl
  | some r =>
    rw [Option.map_some, Option.bind_some]
    dsimp only
    split <;> rfl

theorem Taken.finish {s : Stream} {ps : List Pack} {p : Pack} {x : Receiving} (h : Taken s (ps ++ [p]) x)
    (hh : x.1.head = PtcHead.ofBytes p.head) : Ensures (Access.Within 0 videoFrameSize) (Whole s) (recvEnd x) := by
  refine ensures_ite (fun _ => ensures_fail) fun he => ?_
  have he : x.2.1 = x.1.head.len := not_not.mp he
  have hsmall := h.small
  have hwrite : (Access.write x.2.1.toNat [0]).Within 0 videoFrameSize := ⟨Nat.zero_le _, hsmall⟩
  refine (ensures_emit hwrite).bind fun _ _ => ensures_pure ⟨?_, ps ++ [p], h.formed, h.stream, ?_, ?_, ?_⟩
  · show x.1.head.len.toNat < videoFrameSize
    exact he ▸ hsmall
  · exact ⟨p, by simp, hh⟩
  · show x.1.head.len.toNat = _
    exact he ▸ h.len
  · show (x.1.data.write x.2.1.toNat [0]).read 0 x.1.head.len.toNat = _
    rw [← he, Mem.read_write_of_disjoint (.inr (by omega))]
    exact h.data

/-- The end writes the terminator. -/
theorem after_recvEnd {x : Receiving} {r : PtcFrame × Stream} (h : (recvEnd x).value = some r) :
    r.1.data = Access.after x.1.data (recvEnd x).events := by
  unfold recvEnd at h ⊢
  split at h
  · cases h
  · next he =>
    rw [if_neg he]
    cases h
    rfl

/-- **Safety on any stream.** The receiver returns, writes nothing but the payload area, and succeeds only with a
payload of `head.len` received bytes, which is what it has written. -/
theorem recvFrame_safe (f : PtcFrame) (s : Stream) : ∃ t, Returns recvTurn (f, 0, s) t ∧
    (t >>= recvEnd).value = recvFrame f s ∧ Ensures (Access.Within 0 videoFrameSize) (Whole s) (t >>= recvEnd) ∧
    ∀ r, recvFrame f s = some r → r.1.data = Access.after f.data (t >>= recvEnd).events := by
  let left (x : Receiving) : ℕ := x.2.2.flatten.length
  obtain ⟨t, ht⟩ := turns_of_measure left (fun _ _ => recvTurn_shrinks) (s := (f, 0, s)) (Nat.lt_succ_self _)
  have hvalue : (t >>= recvEnd).value = recvFrame f s := by
    have hfuel := turns_fuel left (fun _ _ => recvTurn_shrinks) recvTurn_empty (s := (f, 0, s)) (Nat.le_refl _)
    rw [ht, turns_recvTurn] at hfuel
    have hv : t.value = recvPacks (fun n => n.toNat ≥ videoFrameSize) s.flatten.length f 0 s := hfuel
    rw [value_bind, hv, recvFrame]
    cases recvPacks (fun n => n.toNat ≥ videoFrameSize) s.flatten.length f 0 s with
    | none => rfl
    | some x =>
      simp only [Option.bind_some, recvEnd]
      split <;> simp
  refine ⟨t, ⟨_, ht⟩, hvalue, ?_, fun r hr => ?_⟩
  · have hloop : Ensures (Access.Within 0 videoFrameSize)
        (fun x => ∃ ps p, Taken s (ps ++ [p]) x ∧ x.1.head = PtcHead.ofBytes p.head) t := by
      refine Returns.ensures (I := fun x => ∃ ps, Taken s ps x) ?_ ⟨_, ht⟩
        ⟨[], List.forall_mem_nil _, rfl, rfl, Nat.succ_pos _, rfl⟩
      rintro x ⟨ps, hx⟩
      refine hx.turn.imp ?_
      rintro (y | y) ⟨p, hy, hh⟩
      · exact ⟨_, hy⟩
      · exact ⟨ps, p, hy, hh⟩
    refine hloop.bind ?_
    rintro x ⟨ps, p, hx, hh⟩
    exact hx.finish hh
  · rw [← hvalue, value_bind] at hr
    obtain ⟨x, hx, hr⟩ := Option.bind_eq_some_iff.mp hr
    have hdata := Returns.foldl (v := fun x => x.1.data) after_recvTurn ⟨_, ht⟩ hx
    rw [bind_some hx, Access.after_append, after_recvEnd hr]
    exact congrArg (Access.after · _) hdata

end Qh

end SabApp
