import SabApp.Nc
import SabApp.QhFrameSafe

/-!
# The log search of a QH device (nc_qh.c)

`nc_qh_searchLogs` hands its table to `nc_qh_user_doSearch` for the request and for the answer, and then goes over as
many entries as the answer says there are. Only the length of the answer is checked.
-/

namespace SabApp

namespace Qh

open Traced

/-- PTC_CMD_SEARCH_BASE -/
def cmdSearchBase : UInt32 := 0x00070000

/-- PTC_CMD_SEARCH_LOGS -/
def cmdSearchLogs : UInt32 := 0x00070002

/-- PTC_LOGS_SIZE, the entries of `ptc_logs_t`. -/
def logEntries : ℕ := 1024

/-- `sizeof(ptc_logs_t)` -/
def logsBytes : ℕ := 16 + 16 * logEntries

/-- A session of `nc_qh_user_doSearch`: what the login returns, whether the request is sent, and what arrives then. -/
structure SearchPeer where
  login : Int32
  sent : Bool
  stream : Stream
  /-- The frame as it is allocated. -/
  frame : PtcFrame

namespace SearchPeer

/-- The frame behind `tool_ptc_qh_sendFrame`. -/
def request (peer : SearchPeer) (cmd inLen : UInt32) (inData : List UInt8) : PtcFrame :=
  (sendFrame ⟨{ peer.frame.head with cmd, len := inLen, ack := 0 }, peer.frame.data.write 0 inData⟩).1

end SearchPeer

/-- What `in_data` holds for the request. -/
def copyIn (m : Mem) (inLen : UInt32) : Option ℕ → Traced Access (List UInt8)
  | none => pure []
  | some a => do
    emit (.read a inLen.toNat)
    pure (m.read a inLen.toNat)

/-- `nc_qh_user_doSearch` with what it touches of the caller's memory: the result, `*out_len` and the memory. -/
def nc_qh_user_doSearch (peer : SearchPeer) (cmd : UInt32) (inData : Option ℕ) (inLen : UInt32) (outData : Option ℕ)
    (outLen : UInt32) (m : Mem) : Traced Access (Int32 × UInt32 × Mem) :=
  if cmd &&& 0xFFFF0000 ≠ cmdSearchBase then pure (Nc.errInternal, outLen, m)
  else if peer.login < 0 then pure (peer.login, outLen, m)
  else do
    let req ← copyIn m inLen inData
    if peer.sent = false then pure (Nc.errSend, outLen, m)
    else match recvFrame (peer.request cmd inLen req) peer.stream with
      | none => pure (Nc.errRecv, outLen, m)
      | some (f, _) =>
        if f.head.cmd ≠ cmd then pure (Nc.errInternal, outLen, m)
        else match outData with
          | none => pure (0, outLen, m)
          | some a =>
            if outLen < f.head.len then pure (Nc.errNoSpace, outLen, m)
            else do
              let bs := f.data.read 0 f.head.len.toNat
              emit (.write a bs)
              pure (0, f.head.len, m.write a bs)

/-- `logs->num` -/
def tableNum (a : ℕ) (m : Mem) : ℕ := word32 (m.read (a + 12) 4) 0

/-- Where `logs->log[i]` is; `i` is an `int`, and the table ends long before it could overflow. -/
def entryAt (a i : ℕ) : ℕ := a + 16 + 16 * i

/-- The loop from entry `i` on. -/
def setSubTypes2 (a : ℕ) : ℕ → ℕ → Mem → Traced Access Mem
  | 0, _, _ => fail
  | fuel + 1, i, m => do
    emit (.read (a + 12) 4)
    if i < tableNum a m then do
      emit (.read (entryAt a i + 5) 1)
      let bs := [m (entryAt a i + 5), 0]
      emit (.write (entryAt a i + 8) bs)
      setSubTypes2 a fuel (i + 1) (m.write (entryAt a i + 8) bs)
    else pure m

/-- `g_nc_qh` is set or not, `dev` and `logs` may be NULL; the result and the memory. -/
def nc_qh_searchLogs (init : Bool) (dev : Option SearchPeer) (logs : Option ℕ) (m : Mem) : Traced Access (Int32 × Mem) :=
  if init = false then pure (Nc.errUninit, m)
  else match dev, logs with
    | some peer, some a => do
      let (ret, _, m) ← nc_qh_user_doSearch peer cmdSearchLogs (some a) 16 (some a) (UInt32.ofNat logsBytes) m
      if ret < 0 then pure (ret, m)
      else do
        let m ← setSubTypes2 a (tableNum a m + 1) 0 m
        pure (ret, m)
    | _, _ => pure (Nc.errInput, m)

/-- `nc_qh_user_doSearch` succeeds for `nc_qh_searchLogs`. -/
def Accepts (peer : SearchPeer) (a : ℕ) (m : Mem) : Prop :=
  ∃ r, (nc_qh_user_doSearch peer cmdSearchLogs (some a) 16 (some a) (UInt32.ofNat logsBytes) m).value = some r ∧
    ¬ r.1 < 0

/-- The call touches nothing but the table, and the number that it hands over fits it. -/
def StaysInTable (peer : SearchPeer) (a : ℕ) (m : Mem) : Prop :=
  Ensures (Access.Within a (a + logsBytes)) (fun r => tableNum a r.2 ≤ logEntries)
    (nc_qh_searchLogs true (some peer) (some a) m)

/-! ## The packets of an answer -/

def Pack.Ends (p : Pack) : Prop := (PtcHead.ofBytes p.head).packCount = (PtcHead.ofBytes p.head).packNo

/-- The bytes begin with the packets of one frame. -/
inductive Answered : List UInt8 → List Pack → Prop
  | last {p : Pack} (h : p.WellFormed) (he : p.Ends) (rest : List UInt8) : Answered (p.bytes ++ rest) [p]
  | more {p : Pack} (h : p.WellFormed) (he : ¬ p.Ends) {rest : List UInt8} {ps : List Pack} (hr : Answered rest ps) :
      Answered (p.bytes ++ rest) (p :: ps)

theorem Pack.WellFormed.unique {p q : Pack} (hp : p.WellFormed) (hq : q.WellFormed) {xs ys : List UInt8}
    (h : p.bytes ++ xs = q.bytes ++ ys) : p = q ∧ xs = ys := by
  obtain ⟨ph, pp⟩ := p
  obtain ⟨qh, qp⟩ := q
  obtain ⟨hp₁, hp₂⟩ := hp
  obtain ⟨hq₁, hq₂⟩ := hq
  dsimp only [bytes] at *
  rw [List.append_assoc, List.append_assoc] at h
  obtain ⟨rfl, hrest⟩ := List.append_inj h (hp₁.trans hq₁.symm)
  obtain ⟨rfl, hxy⟩ := List.append_inj hrest (hp₂.trans hq₂.symm)
  exact ⟨rfl, hxy⟩

theorem Answered.unique {bs : List UInt8} {ps qs : List Pack} (hp : Answered bs ps) (hq : Answered bs qs) : ps = qs := by
  induction hp generalizing qs with
  | @last p h he rest =>
    generalize hbs : p.bytes ++ rest = bs at hq
    cases hq with
    | last h' he' rest' =>
      obtain ⟨rfl, -⟩ := h.unique h' hbs
      rfl
    | more h' he' hr =>
      obtain ⟨rfl, -⟩ := h.unique h' hbs
      exact absurd he he'
  | @more p h he rest ps hr ih =>
    generalize hbs : p.bytes ++ rest = bs at hq
    cases hq with
    | last h' he' rest' =>
      obtain ⟨rfl, -⟩ := h.unique h' hbs
      exact absurd he' he
    | more h' he' hr' =>
      obtain ⟨rfl, rfl⟩ := h.unique h' hbs
      rw [ih hr']

/-- A turn takes a packet. -/
theorem recvPack_takes {f f' : PtcFrame} {len len' : UInt32} {s s' : Stream}
    (hr : recvPack (fun n => n.toNat ≥ videoFrameSize) f len s = some (f', len', s')) (hl : len.toNat < videoFrameSize) :
    ∃ p : Pack, p.WellFormed ∧ s.flatten = p.bytes ++ s'.flatten ∧ f'.head = PtcHead.ofBytes p.head ∧
      len'.toNat < videoFrameSize ∧ f'.data.read 0 len'.toNat = f.data.read 0 len.toNat ++ p.payload := by
  unfold recvPack at hr
  cases h₁ : Pieces.recv 32 s with
  | none =>
    rw [h₁] at hr
    cases hr
  | some r =>
    obtain ⟨hlen₁, hs₁⟩ := Pieces.recv_some h₁
    simp only [h₁] at hr
    split at hr
    · cases hr
    split at hr
    · cases hr
    next hsum =>
    split at hr
    · cases hr
    next hneg =>
    cases h₂ : Pieces.recv (PtcHead.ofBytes r.1).packLen.toNat r.2 with
    | none =>
      rw [h₂] at hr
      cases hr
    | some q =>
      obtain ⟨hlen₂, hs₂⟩ := Pieces.recv_some h₂
      rw [h₂] at hr
      cases hr
      have hadd := sum_toNat hl hneg
      refine ⟨⟨r.1, q.1⟩, ⟨hlen₁, hlen₂⟩, ?_, rfl, ?_, ?_⟩
      · rw [hs₁, hs₂, Pack.bytes, List.append_assoc]
      · simpa using hsum
      · rw [hadd, ← hlen₂]
        exact read_write_next ..

theorem recvPacks_answered {f' : PtcFrame} {len' : UInt32} {s' : Stream} : ∀ (n : ℕ) {f : PtcFrame} {len : UInt32} {s : Stream},
    recvPacks (fun n => n.toNat ≥ videoFrameSize) n f len s = some (f', len', s') → len.toNat < videoFrameSize →
    ∃ ps, Answered s.flatten ps ∧ f'.data.read 0 len'.toNat = f.data.read 0 len.toNat ++ ps.flatMap Pack.payload
  | 0, _, _, _, h, _ => nomatch h
  | n + 1, f, len, s, h, hl => by
    unfold recvPacks at h
    cases hr : recvPack (fun n => n.toNat ≥ videoFrameSize) f len s with
    | none =>
      rw [hr] at h
      cases h
    | some x =>
      obtain ⟨f₁, len₁, s₁⟩ := x
      obtain ⟨p, hp, hs, hh, hl₁, hd⟩ := recvPack_takes hr hl
      simp only [hr] at h
      rw [hs]
      split at h
      · next he =>
        cases h
        refine ⟨[p], .last hp ?_ _, ?_⟩
        · rw [hh] at he
          exact he
        · rw [hd, List.flatMap_singleton]
      · next he =>
        obtain ⟨ps, hps, hd'⟩ := recvPacks_answered n h hl₁
        refine ⟨p :: ps, .more hp ?_ hps, ?_⟩
        · rw [hh] at he
          exact he
        · rw [hd', hd, List.flatMap_cons, List.append_assoc]

/-- A frame that is received has the payload of its packets. -/
theorem recvFrame_answered {f f' : PtcFrame} {s s' : Stream} (h : recvFrame f s = some (f', s')) :
    ∃ ps, Answered s.flatten ps ∧ f'.data.read 0 f'.head.len.toNat = ps.flatMap Pack.payload := by
  unfold recvFrame at h
  cases hr : recvPacks (fun n => n.toNat ≥ videoFrameSize) s.flatten.length f 0 s with
  | none =>
    rw [hr] at h
    cases h
  | some x =>
    obtain ⟨f₁, len, s₁⟩ := x
    simp only [hr] at h
    split at h
    · cases h
    next he =>
    have he : len = f₁.head.len := not_not.mp he
    subst he
    cases h
    obtain ⟨ps, hps, hd⟩ := recvPacks_answered _ hr (by decide)
    refine ⟨ps, hps, ?_⟩
    rw [Mem.read_write_of_disjoint (.inr (Nat.zero_add _ ▸ Nat.le_refl _)), hd]
    rfl

/-! ## The loop -/

theorem tableNum_write (a i : ℕ) (m : Mem) (x y : UInt8) :
    tableNum a (m.write (entryAt a i + 8) [x, y]) = tableNum a m := by
  rw [tableNum, Mem.read_write_of_disjoint (.inr (by unfold entryAt; omega))]
  rfl

variable {a : ℕ}

/-- An access in an entry of the table. -/
theorem entry_within {i : ℕ} (hi : i < logEntries) {k : ℕ} (hk : k ≤ 16) {n : ℕ} (hn : k + n ≤ 16) :
    a ≤ entryAt a i + k ∧ entryAt a i + k + n ≤ a + logsBytes := by
  unfold entryAt logsBytes
  omega

theorem setSubTypes2_within : ∀ (k i : ℕ) {m : Mem}, tableNum a m = i + k → i + k ≤ logEntries →
    Ensures (Access.Within a (a + logsBytes)) (fun m' => tableNum a m' ≤ logEntries) (setSubTypes2 a (k + 1) i m)
  | k, i, m, hn, hk => by
    have hnum : (Access.read (a + 12) 4).Within a (a + logsBytes) := ⟨by omega, by unfold logsBytes; omega⟩
    cases k with
    | zero =>
      unfold setSubTypes2
      refine (ensures_emit hnum).bind fun _ _ => ?_
      rw [if_neg (by omega)]
      exact ensures_pure (hn ▸ hk)
    | succ k =>
      have hi : i < logEntries := Nat.lt_of_lt_of_le (Nat.lt_add_of_pos_right (Nat.succ_pos k)) hk
      have hread : (Access.read (entryAt a i + 5) 1).Within a (a + logsBytes) := entry_within hi (by decide) (by decide)
      have hwrite : (Access.write (entryAt a i + 8) [m (entryAt a i + 5), 0]).Within a (a + logsBytes) :=
        entry_within hi (by decide) (Nat.le_of_ble_eq_true rfl)
      have hrest := setSubTypes2_within k (i + 1) (m := m.write (entryAt a i + 8) [m (entryAt a i + 5), 0])
        (by rw [tableNum_write, hn]; omega) (by omega)
      unfold setSubTypes2
      refine (ensures_emit hnum).bind fun _ _ => ?_
      rw [if_pos (by omega)]
      exact (ensures_emit hread).bind fun _ _ => (ensures_emit hwrite).bind fun _ _ => hrest

/-- Every entry that is counted is read. -/
theorem setSubTypes2_reads : ∀ (k i : ℕ) {m : Mem}, tableNum a m = i + k → ∀ j, i ≤ j → j < i + k →
    Access.read (entryAt a j + 5) 1 ∈ (setSubTypes2 a (k + 1) i m).events
  | 0, i, m, hn, j, hj, hlt => absurd hj (by omega)
  | k + 1, i, m, hn, j, hj, hlt => by
    unfold setSubTypes2
    refine mem_bind_right (value_emit _) ?_
    rw [if_pos (by omega)]
    rcases Nat.eq_or_lt_of_le hj with rfl | hj
    · exact mem_bind_left (by simp) _
    · refine mem_bind_right (value_emit _) (mem_bind_right (value_emit _) ?_)
      exact setSubTypes2_reads k (i + 1) (by rw [tableNum_write, hn]; omega) j hj (by omega)

theorem setSubTypes2_stays_iff {m : Mem} :
    Ensures (Access.Within a (a + logsBytes)) (fun m' => tableNum a m' ≤ logEntries)
      (setSubTypes2 a (tableNum a m + 1) 0 m) ↔ tableNum a m ≤ logEntries := by
  constructor
  · intro h
    by_contra hn
    have hread := setSubTypes2_reads (a := a) _ 0 (Nat.zero_add _).symm logEntries (Nat.zero_le _)
      (Nat.lt_of_not_le (Nat.zero_add (tableNum a m) ▸ hn))
    have hin := (h.events _ hread).2
    unfold entryAt logsBytes at hin
    omega
  · intro h
    exact setSubTypes2_within _ 0 (Nat.zero_add _).symm (by omega)

/-! ## The call -/

/-- What an accepted answer is, and that it lies over the table then. -/
theorem doSearch_accepts {peer : SearchPeer} {m : Mem} (h : Accepts peer a m) :
    ∃ ps, Answered peer.stream.flatten ps ∧ (ps.flatMap Pack.payload).length ≤ logsBytes ∧ ∃ outLen,
      nc_qh_user_doSearch peer cmdSearchLogs (some a) 16 (some a) (UInt32.ofNat logsBytes) m =
        ⟨some (0, outLen, m.write a (ps.flatMap Pack.payload)), [.read a 16, .write a (ps.flatMap Pack.payload)]⟩ := by
  obtain ⟨r, hr, hret⟩ := h
  have hbase : ¬ (cmdSearchLogs &&& 0xFFFF0000 ≠ cmdSearchBase) := by decide
  have hcopy : (copyIn m 16 (some a)).value = some (m.read a 16) := rfl
  unfold nc_qh_user_doSearch at hr ⊢
  rw [if_neg hbase] at hr ⊢
  by_cases hlogin : peer.login < 0
  · rw [if_pos hlogin] at hr
    cases hr
    exact absurd hlogin hret
  rw [if_neg hlogin, bind_some hcopy] at hr ⊢
  dsimp only at hr
  split at hr
  · cases hr
    exact absurd (show Nc.errSend < 0 by decide) hret
  next hsent =>
  cases hf : recvFrame (peer.request cmdSearchLogs 16 (m.read a 16)) peer.stream with
  | none =>
    rw [hf] at hr
    cases hr
    exact absurd (show Nc.errRecv < 0 by decide) hret
  | some x =>
    obtain ⟨f, s'⟩ := x
    simp only [hf] at hr
    split at hr
    · cases hr
      exact absurd (show Nc.errInternal < 0 by decide) hret
    next hcmd =>
    split at hr
    · cases hr
      exact absurd (show Nc.errNoSpace < 0 by decide) hret
    next hlen =>
    obtain ⟨ps, hps, hd⟩ := recvFrame_answered hf
    refine ⟨ps, hps, ?_, f.head.len, ?_⟩
    · rw [← hd, Mem.read_length]
      exact Nat.not_lt.mp hlen
    · rw [if_neg hsent]
      dsimp only
      rw [if_neg hcmd, if_neg hlen, bind_some (value_emit _), hd]
      rfl

theorem stays_iff {peer : SearchPeer} {m : Mem} (h : Accepts peer a m) {ps : List Pack}
    (hps : Answered peer.stream.flatten ps) :
    StaysInTable peer a m ↔ tableNum a (m.write a (ps.flatMap Pack.payload)) ≤ logEntries := by
  obtain ⟨qs, hqs, hlen, outLen, hcall⟩ := doSearch_accepts h
  obtain rfl := hps.unique hqs
  have hbefore : ∀ e ∈ [Access.read a 16, .write a (ps.flatMap Pack.payload)], e.Within a (a + logsBytes) := by
    intro e he
    rcases List.mem_pair.mp he with rfl | rfl
    · exact ⟨Nat.le_refl a, Nat.add_le_add_left (by decide) a⟩
    · exact ⟨Nat.le_refl a, Nat.add_le_add_left hlen a⟩
  rw [← setSubTypes2_stays_iff, StaysInTable]
  refine (ensures_bind_iff (congrArg Traced.value hcall)).trans ?_
  rw [hcall]
  exact (and_iff_right hbefore).trans ensures_map_iff

/-- **Log search.** In an accepted answer the number of entries is the four bytes from 12 on, or what the caller has there
where the answer is shorter. The call stays in the table if and only if this number fits the table. -/
theorem searchLogs_stays_iff {peer : SearchPeer} {m : Mem} (h : Accepts peer a m) :
    ∃ ps, Answered peer.stream.flatten ps ∧ (∀ qs, Answered peer.stream.flatten qs → qs = ps) ∧
      (StaysInTable peer a m ↔ tableNum a (m.write a (ps.flatMap Pack.payload)) ≤ logEntries) := by
  obtain ⟨ps, hps, -⟩ := doSearch_accepts h
  exact ⟨ps, hps, fun qs hqs => hqs.unique hps, stays_iff h hps⟩

/-- A table without entries, with a number of them. -/
def countingTable (num : ℕ) : Pack where
  head := PtcHead.bytes ⟨ptcFlag, cmdSearchLogs, 16, ptcVersion, 0, 1, 1, 16, 0, 0, .replicate 6 0⟩
  payload := le32 0 ++ le32 0 ++ le32 0 ++ le32 num

def countingPeer (num : ℕ) : SearchPeer :=
  ⟨0, true, [(countingTable num).bytes], ⟨PtcHead.ofBytes [], fun _ => 0⟩⟩

theorem answered_counting (num : ℕ) : Answered (countingPeer num).stream.flatten [countingTable num] :=
  .last (p := countingTable num) ⟨rfl, rfl⟩ rfl []

theorem searchLogs_stays_none : StaysInTable (countingPeer 0) 0 fun _ => 0 := by
  have h : Accepts (countingPeer 0) 0 fun _ => 0 := ⟨_, rfl, by decide⟩
  obtain ⟨ps, -, huniq, hiff⟩ := searchLogs_stays_iff h
  rw [hiff, ← huniq _ (answered_counting 0)]
  decide

/-- One entry more than the table has. -/
theorem searchLogs_leaves : Accepts (countingPeer 1025) 0 (fun _ => 0) ∧
    ¬ StaysInTable (countingPeer 1025) 0 fun _ => 0 := by
  have h : Accepts (countingPeer 1025) 0 fun _ => 0 := ⟨_, rfl, by decide⟩
  refine ⟨h, ?_⟩
  rw [stays_iff h (answered_counting 1025)]
  decide

end Qh

end SabApp
