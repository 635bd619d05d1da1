import SabApp.RtpUnits

/-!
# The kind and the size of an access unit

`tool_ptc_rtp_recvTcp_video` takes the kind of a frame from the nal_ref_idc of each packet's unit, so the last unit
decides. The parameter set it hands to the decoder is taken to lie behind the first start code, with the length of the
last packet that carried a part of one.
-/

namespace SabApp

namespace Rtp

namespace Sent

def header : Sent → UInt8
  | single header _ => header
  | fua header _ _ => header

/-- The bytes behind the header. -/
def payload : Sent → List UInt8
  | single _ payload => payload
  | fua _ first more => first ++ more.flatten

theorem nal_eq (u : Sent) : u.nal = u.header :: u.payload := by cases u <;> rfl

theorem fragments_header {header : UInt8} {xs : List (List UInt8)} : ∀ p ∈ fragments header xs, p.header = header := by
  induction xs with
  | nil => exact nofun
  | cons x xs ih =>
    intro p hp
    rcases List.mem_cons.mp hp with rfl | hp
    · rfl
    · exact ih p hp

theorem parts_header (u : Sent) : ∀ p ∈ u.parts, p.header = u.header := by
  cases u with
  | single header payload =>
    intro p hp
    rw [List.eq_of_mem_singleton hp]
    rfl
  | fua header first more =>
    intro p hp
    rcases List.mem_cons.mp hp with rfl | hp
    · rfl
    · exact fragments_header p hp

theorem parts_ne_nil (u : Sent) : u.parts ≠ [] := by
  cases u <;> simp [parts]

end Sent

/-- An access unit that is returned is what its packets make of the empty frame. -/
theorem Carries.taken {ps : List Packet} {us : List Sent} (h : Carries ps us) (hwire : ∀ p ∈ ps, p.length < 65536)
    {f : VideoFrame} {s s' : Stream} {rest : List UInt8} (hs : s.flatten = cat Packet.bytes ps ++ rest)
    {u : Unpacked} (hr : (begun f).recvPackets s.flatten.length s = some (u, s')) :
    u = ps.foldl Unpacked.take (begun f) := by
  rcases h.loop hwire f hs with ⟨-, s'', hr', -⟩ | ⟨-, hr'⟩
  · rw [hr'] at hr
    exact (congrArg Prod.fst (Option.some.inj hr)).symm
  · rw [hr'] at hr
    cases hr

/-! ## The kind -/

/-- The units hold an IDR slice. -/
def HasIdr (us : List Sent) : Prop := ∃ u ∈ us, type u.header = 5

/-- PTC_FRAME_I with an IDR slice, and PTC_FRAME_P without one. -/
def Marked (us : List Sent) (frameType : UInt8) : Prop :=
  (frameType = 1 ↔ HasIdr us) ∧ (¬HasIdr us → frameType = 2)

/-- The nal_ref_idc of the last unit is 1 or 3. -/
def LastOdd (us : List Sent) : Prop := ∃ pre u, us = pre ++ [u] ∧ (nri u.header = 1 ∨ nri u.header = 3)

theorem foldl_take_frameType (ps : List Packet) (p : Packet) (u : Unpacked) :
    ((ps ++ [p]).foldl Unpacked.take u).frame.head.frameType =
      if nri p.part.header = 2 ∨ nri p.part.header = 0 then 2 else 1 := by
  rw [List.foldl_append]
  exact Unpacked.take_frameType _ p

/-- The last packet is of the last unit. -/
theorem Carries.last {ps : List Packet} {us : List Sent} (h : Carries ps us) :
    ∃ pre last pre' u, ps = pre ++ [last] ∧ us = pre' ++ [u] ∧ last.part.header = u.header := by
  obtain ⟨pre, last, rfl, -⟩ := h.marker
  have hparts := h.parts
  rw [List.map_append, List.map_singleton] at hparts
  rcases List.eq_nil_or_concat us with rfl | ⟨pre', u, rfl⟩
  · simp at hparts
  · refine ⟨pre, last, pre', u, rfl, by simp, u.parts_header _ ?_⟩
    obtain ⟨qs, q, hq⟩ := List.eq_nil_or_concat u.parts |>.resolve_left u.parts_ne_nil
    simp only [List.concat_eq_append, List.flatMap_append, List.flatMap_singleton] at hparts hq
    rw [hq, ← List.append_assoc] at hparts
    have := (List.append_inj_right' hparts rfl)
    rw [hq, List.singleton_inj.mp this]
    simp

theorem nri_lt (b : UInt8) : nri b < 4 := Nat.mod_lt _ (by decide)

/-- **Key frames.** A unit that is returned is marked as it should be exactly if the nal_ref_idc of its last NAL unit is
odd with an IDR slice, and even without one. -/
theorem frameType_marked_iff {ps : List Packet} {us : List Sent} (h : Carries ps us) (hwire : ∀ p ∈ ps, p.length < 65536)
    {s : Stream} {rest : List UInt8} (hs : s.flatten = cat Packet.bytes ps ++ rest)
    {sps : List UInt8 → Int32 × Int32 → Int32 × Int32} {now : UInt32 × UInt32} {c c' : Counts} {f r : VideoFrame} {s' : Stream}
    (hr : recvTcpVideo sps now c f s = some (r, c', s')) : Marked us r.head.frameType ↔ (LastOdd us ↔ HasIdr us) := by
  obtain ⟨u, hu, hret⟩ := recvTcpVideo_some hr
  have hkind := hret.frameType
  rw [h.taken hwire hs hu] at hkind
  obtain ⟨pre, last, pre', v, rfl, rfl, hlast⟩ := h.last
  rw [foldl_take_frameType, hlast] at hkind
  have hodd : LastOdd (pre' ++ [v]) ↔ r.head.frameType = 1 := by
    have hlt := nri_lt v.header
    rw [hkind]
    constructor
    · rintro ⟨qs, w, hw, ho⟩
      rw [← List.singleton_inj.mp (List.append_inj_right' hw rfl)] at ho
      rw [if_neg (by omega)]
    · intro ht
      refine ⟨pre', v, rfl, ?_⟩
      by_contra hno
      rw [if_pos (by omega)] at ht
      exact absurd ht (by decide)
  have htwo : r.head.frameType ≠ 1 → r.head.frameType = 2 := by
    rw [hkind]
    split
    · exact fun _ => rfl
    · exact fun hne => absurd rfl hne
  rw [hodd]
  exact ⟨fun hm => hm.1, fun hm => ⟨hm, fun hno => htwo fun h1 => hno (hm.mp h1)⟩⟩

/-- An access unit of one NAL unit, in one packet. -/
def onePacket (header : UInt8) (payload : List UInt8) : Packet := ⟨0, rtpHead true, .single header payload⟩

theorem onePacket_carries {header : UInt8} (h : 1 ≤ type header ∧ type header ≤ 23) (payload : List UInt8) :
    Carries [onePacket header payload] [.single header payload] := by
  refine ⟨rfl, fun p hp => ?_, fun p hp => ?_, ⟨90, fun p hp => ?_⟩, ⟨[], _, rfl, rfl, nofun⟩⟩
  · rw [List.eq_of_mem_singleton hp]
    exact h
  · rw [List.eq_of_mem_singleton hp]
    rfl
  · rw [List.eq_of_mem_singleton hp]
    rfl

theorem onePacket_marked : ∃ r c' s', recvTcpVideo (fun _ size => size) (0, 0) ⟨0, 0, 0, 0, [], 0, []⟩ noFrame
    [cat Packet.bytes [onePacket 0x65 [1]] ++ [7]] = some (r, c', s') ∧
      (Marked [.single 0x65 [1]] r.head.frameType ↔ (LastOdd [.single 0x65 [1]] ↔ HasIdr [.single 0x65 [1]])) := by
  obtain ⟨⟨r, c', s'⟩, hr⟩ : ∃ x, recvTcpVideo (fun _ size => size) (0, 0) ⟨0, 0, 0, 0, [], 0, []⟩ noFrame
    [cat Packet.bytes [onePacket 0x65 [1]] ++ [7]] = some x := ⟨_, rfl⟩
  refine ⟨r, c', s', hr, frameType_marked_iff (onePacket_carries (by decide) [1]) ?_ (List.append_nil _) hr⟩
  intro p hp
  rw [List.eq_of_mem_singleton hp]
  decide

/-- A slice of the highest nal_ref_idc that is no IDR slice. -/
theorem onePacket_unmarked : Carries [onePacket 0x61 [1]] [.single 0x61 [1]] ∧
    ∃ r c' s', recvTcpVideo (fun _ size => size) (0, 0) ⟨0, 0, 0, 0, [], 0, []⟩ noFrame
      [cat Packet.bytes [onePacket 0x61 [1]]] = some (r, c', s') ∧ ¬Marked [.single 0x61 [1]] r.head.frameType := by
  refine ⟨onePacket_carries (by decide) [1], _, _, _, rfl, fun hm => ?_⟩
  obtain ⟨u, hu, ht⟩ := hm.1.mp (by decide)
  rw [List.eq_of_mem_singleton hu] at ht
  exact absurd ht (by decide)

/-! ## The size -/

/-- Where the bytes lie, behind its header, of the unit that comes after `pre`. -/
def place (pre : List Sent) : ℕ := (pre.flatMap fun u => startCode ++ u.nal).length + 5

/-- The last part of a parameter set carries `n` bytes. -/
def LastSps (parts : List Part) (n : ℕ) : Prop :=
  ∃ before p after, parts = before ++ p :: after ∧ type p.header = 7 ∧ (∀ q ∈ after, type q.header ≠ 7) ∧ p.data.length = n

/-- What the decoder is given of the body. -/
def handed (f : VideoFrame) (s : Stream) : Option (ℕ × ℕ) :=
  ((begun f).recvPackets s.flatten.length s).bind fun r => r.1.spsRange

/-- The length of the parameter set after a part. -/
def noteSps (n : ℕ) (p : Part) : ℕ := if type p.header = 7 then p.data.length else n

theorem foldl_noteSps_other {ps : List Part} (h : ∀ q ∈ ps, type q.header ≠ 7) (n : ℕ) : ps.foldl noteSps n = n := by
  induction ps with
  | nil => rfl
  | cons p ps ih =>
    rw [List.foldl_cons, noteSps, if_neg (h p (by simp))]
    exact ih fun q hq => h q (List.mem_cons_of_mem _ hq)

theorem LastSps.foldl {ps : List Part} {n : ℕ} (h : LastSps ps n) (k : ℕ) : ps.foldl noteSps k = n := by
  obtain ⟨before, p, after, rfl, ht, hafter, hn⟩ := h
  rw [List.foldl_append, List.foldl_cons, foldl_noteSps_other hafter, noteSps, if_pos ht, hn]

theorem exists_lastSps {ps : List Part} {p : Part} (hp : p ∈ ps) (ht : type p.header = 7) : ∃ n, LastSps ps n := by
  induction ps generalizing p with
  | nil => exact absurd hp List.not_mem_nil
  | cons q ps ih =>
    by_cases hmore : ∃ r ∈ ps, type r.header = 7
    · obtain ⟨r, hr, htr⟩ := hmore
      obtain ⟨n, before, p', after, rfl, h⟩ := ih hr htr
      exact ⟨n, q :: before, p', after, rfl, h⟩
    · have hpq : p = q := (List.mem_cons.mp hp).resolve_right fun hin => hmore ⟨p, hin, ht⟩
      exact ⟨_, [], q, ps, rfl, hpq ▸ ht, fun r hr htr => hmore ⟨r, hr, htr⟩, rfl⟩

theorem Unpacked.take_spsLen (u : Unpacked) (p : Packet) : (u.take p).spsLen = noteSps (u.enter p.head.ts).spsLen p.part := by
  have htake : (u.take p).spsLen = noteSps ((u.enter p.head.ts).openPart p.part).spsLen p.part := rfl
  rw [htake]
  unfold Unpacked.openPart
  split <;> rfl

theorem foldl_take_spsLen {ts : UInt32} : ∀ {ps : List Packet} {u : Unpacked}, (∀ p ∈ ps, p.head.ts = ts) →
    (u.lastTs = ts ∨ u.spsLen = 0) → (ps.foldl Unpacked.take u).spsLen = (ps.map (·.part)).foldl noteSps u.spsLen := by
  intro ps
  induction ps with
  | nil => exact fun _ _ => rfl
  | cons p ps ih =>
    intro u hts hu
    have hp := hts p (by simp)
    have henter : (u.enter p.head.ts).spsLen = u.spsLen := by
      unfold Unpacked.enter
      split
      · exact (hu.resolve_left fun h => absurd (h.trans hp.symm) ‹_›).symm
      · rfl
    have htake : (u.take p).spsLen = noteSps u.spsLen p.part := by rw [u.take_spsLen, henter]
    rw [List.foldl_cons, List.map_cons, List.foldl_cons, ← htake]
    exact ih (fun q hq => hts q (List.mem_cons_of_mem _ hq)) (.inl hp)

/-- The unit's bytes behind its header are in their place. -/
theorem placed {body : Mem} {n : ℕ} {pre post : List Sent} {v : Sent}
    (h : body.read 0 n = (pre ++ v :: post).flatMap fun u => startCode ++ u.nal) :
    body.read (place pre) v.payload.length = v.payload := by
  rw [List.flatMap_append, List.flatMap_cons, v.nal_eq] at h
  have hsplit : body.read 0 n = ((pre.flatMap fun u => startCode ++ u.nal) ++ (startCode ++ [v.header])) ++
      (v.payload ++ post.flatMap fun u => startCode ++ u.nal) := by
    rw [h]
    simp only [List.append_assoc, List.cons_append, List.nil_append]
  have hread := Mem.read_of_append hsplit
  rw [Nat.zero_add, List.length_append] at hread
  exact hread

theorem place_eq_five {pre : List Sent} : place pre = 5 ↔ pre = [] := by
  cases pre with
  | nil => exact ⟨fun _ => rfl, fun _ => rfl⟩
  | cons u us =>
    simp [place, startCode]

/-- **The parameter set.** The bytes of a parameter set behind its header are what the decoder is given exactly if the
set is the first unit, and the last packet with a part of a set carries all of them, and there are some. -/
theorem handed_iff {ps : List Packet} {us pre post : List Sent} {v : Sent} (h : Carries ps us)
    (hwire : ∀ p ∈ ps, p.length < 65536) (hus : us = pre ++ v :: post) (hv : type v.header = 7) {s : Stream}
    {rest : List UInt8} (hs : s.flatten = cat Packet.bytes ps ++ rest)
    {sps : List UInt8 → Int32 × Int32 → Int32 × Int32} {now : UInt32 × UInt32} {c c' : Counts} {f r : VideoFrame} {s' : Stream}
    (hr : recvTcpVideo sps now c f s = some (r, c', s')) :
    (c'.width, c'.height) = sized sps r.body (c.width, c.height) (handed f s) ∧
      r.body.read (place pre) v.payload.length = v.payload ∧
      (handed f s = some (place pre, v.payload.length) ↔
        pre = [] ∧ LastSps (us.flatMap Sent.parts) v.payload.length ∧ v.payload ≠ []) := by
  obtain ⟨u, hu, hret⟩ := recvTcpVideo_some hr
  obtain ⟨ts, hts⟩ := h.time
  have hhanded : handed f s = u.spsRange := by rw [handed, hu, Option.bind_some]
  have hu' := h.taken hwire hs hu
  have hlaid := (Unpacked.foldl_take_laid (u := begun f) hts (.inr rfl)).1
  have hsps := foldl_take_spsLen (u := begun f) hts (.inr rfl)
  rw [← hu', h.laid] at hlaid
  rw [← hu', h.parts] at hsps
  have hin : ∃ p ∈ us.flatMap Sent.parts, type p.header = 7 := by
    obtain ⟨p, hp⟩ := List.exists_mem_of_ne_nil _ v.parts_ne_nil
    refine ⟨p, List.mem_flatMap.mpr ⟨v, by rw [hus]; simp, hp⟩, ?_⟩
    rw [v.parts_header p hp, hv]
  obtain ⟨p, hp, ht⟩ := hin
  obtain ⟨n, hn⟩ := exists_lastSps hp ht
  have hlen : u.spsLen = n := by rw [hsps, hn.foldl]
  refine ⟨by rw [hhanded, hret.size], ?_, ?_⟩
  · rw [hret.body]
    subst hus
    exact placed (n := u.len) hlaid
  · rw [hhanded, Unpacked.spsRange, hlen]
    constructor
    · intro hrange
      by_cases h0 : n = 0
      · rw [if_pos h0] at hrange
        cases hrange
      · rw [if_neg h0] at hrange
        obtain ⟨h5, hn'⟩ := Prod.ext_iff.mp (Option.some.inj hrange)
        dsimp only at h5 hn'
        refine ⟨place_eq_five.mp h5.symm, hn' ▸ hn, fun hnil => h0 ?_⟩
        rw [hn', hnil, List.length_nil]
    · rintro ⟨rfl, hlast, hne⟩
      have hn' : n = v.payload.length := by rw [← hn.foldl 0, hlast.foldl 0]
      have hpos := List.length_pos_iff.mpr hne
      rw [if_neg (by omega), hn']
      rfl

theorem onePacket_handed : ∃ r c' s', recvTcpVideo (fun _ size => size) (0, 0) ⟨0, 0, 0, 0, [], 0, []⟩ noFrame
    [cat Packet.bytes [onePacket 0x67 [1, 2]] ++ [7]] = some (r, c', s') ∧
      handed noFrame [cat Packet.bytes [onePacket 0x67 [1, 2]] ++ [7]] = some (5, 2) ∧ r.body.read 5 2 = [1, 2] := by
  obtain ⟨⟨r, c', s'⟩, hr⟩ : ∃ x, recvTcpVideo (fun _ size => size) (0, 0) ⟨0, 0, 0, 0, [], 0, []⟩ noFrame
    [cat Packet.bytes [onePacket 0x67 [1, 2]] ++ [7]] = some x := ⟨_, rfl⟩
  have hwire : ∀ p ∈ [onePacket 0x67 [1, 2]], p.length < 65536 := by
    intro p hp
    rw [List.eq_of_mem_singleton hp]
    decide
  have hunits : [Sent.single 0x67 [1, 2]] = [] ++ Sent.single 0x67 [1, 2] :: [] := rfl
  obtain ⟨-, hbytes, hiff⟩ := handed_iff (onePacket_carries (by decide) [1, 2]) hwire hunits (by decide) rfl hr
  exact ⟨r, c', s', hr, hiff.mpr ⟨rfl, ⟨[], _, [], rfl, by decide, nofun, rfl⟩, by decide⟩, hbytes⟩

/-- An access unit delimiter, and a parameter set behind it. -/
def delimited : List Packet := [⟨0, rtpHead false, .single 0x09 [0xF0]⟩, onePacket 0x67 [1, 2]]

/-- The decoder is given two bytes that begin with the delimiter's second one. -/
theorem delimited_handed : Carries delimited ([.single 0x09 [0xF0]] ++ [.single 0x67 [1, 2]]) ∧
    (∃ x, recvTcpVideo (fun _ size => size) (0, 0) ⟨0, 0, 0, 0, [], 0, []⟩ noFrame [cat Packet.bytes delimited] = some x) ∧
    handed noFrame [cat Packet.bytes delimited] = some (5, 2) ∧
    handed noFrame [cat Packet.bytes delimited] ≠ some (place [.single 0x09 [0xF0]], 2) := by
  refine ⟨⟨rfl, ?_, ?_, ⟨90, ?_⟩, ⟨delimited.take 1, _, rfl, rfl, ?_⟩⟩, ⟨_, rfl⟩, rfl, by decide⟩ <;>
    simp [delimited, onePacket, rtpHead, Part.Ok, type, isH264]

end Rtp

end SabApp
