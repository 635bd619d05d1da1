import SabApp.RtpKinds

/-!
# Audio and RTCP among the video

The packets of a session come over one connection. A call of `tool_ptc_rtp_recvTcp_video` puts the data of every packet
behind what it has laid down at the same time, and ends at an audio packet as at a marker. `Harmless` follows what a
foreign packet leaves in the frame under way, up to the next video packet.
-/

namespace SabApp

namespace Rtp

/-- A packet that carries no video. -/
structure Foreign where
  channel : UInt8
  data : List UInt8
  length : data.length < 65536

namespace Foreign

def head (x : Foreign) : List UInt8 := [0x24, x.channel, .ofNat (x.data.length / 256), .ofNat x.data.length]

def bytes (x : Foreign) : List UInt8 := x.head ++ x.data

def pt (x : Foreign) : ℕ := byteAt x.data 1 % 128

def m (x : Foreign) : Bool := byteAt x.data 1 / 128 = 1

def ts (x : Foreign) : UInt32 := .ofNat (word32 x.data 4)

def payload (x : Foreign) : List UInt8 := x.data.drop 12

/-- The reader does not take it for H.264. -/
def Other (x : Foreign) : Prop := isH264 x.pt = false

def IsG711 (x : Foreign) : Prop := x.pt = 0 ∨ x.pt = 8

/-- A call ends with it: its marker is set, as in each RTCP packet, or it is of G.711 audio. -/
def Ends (x : Foreign) : Prop := x.m = true ∨ x.IsG711

/-- The reader's limits on every packet. -/
def Limits (x : Foreign) : Prop := 12 ≤ x.data.length ∧ x.data.length ≤ pktSize

instance (x : Foreign) : Decidable x.Other := inferInstanceAs (Decidable (_ = _))

instance (x : Foreign) : Decidable x.IsG711 := inferInstanceAs (Decidable (_ ∨ _))

instance (x : Foreign) : Decidable x.Ends := inferInstanceAs (Decidable (_ ∨ _))

instance (x : Foreign) : Decidable x.Limits := inferInstanceAs (Decidable (_ ∧ _))

end Foreign

abbrev Item := Packet ⊕ Foreign

def Item.bytes : Item → List UInt8 := Sum.elim Packet.bytes Foreign.bytes

/-- The packets of an access unit, as they can be written. -/
structure AccessUnit where
  packets : List Packet
  units : List Sent
  carries : Carries packets units
  wire : ∀ p ∈ packets, p.length < 65536

def video (items : List Item) : List Packet := items.filterMap Sum.getLeft?

/-- What the call under way has laid down: `n` bytes of foreign packets of the time `ts`, or packets of an access unit. -/
inductive Under where
  | outside (ts : UInt32) (n : ℕ)
  | inside (ts : UInt32)

namespace Under

/-- At the beginning of a call. -/
def start : Under := .outside 0xFFFFFFFF 0

/-- The bytes before a packet of the time `t`. -/
def before : Under → UInt32 → ℕ
  | outside ts n, t => if ts = t then n else 0
  | inside _, _ => 0

def behind (p : Packet) : Under := if p.head.m then start else .inside p.head.ts

def pass (o : Under) (x : Foreign) : Under := if x.Ends then start else .outside x.ts (o.before x.ts + x.payload.length)

end Under

/-- The foreign packets leave nothing in a video frame. Outside of an access unit, one that a video packet follows is
within the limits, and what is laid down is not of the next video packet's time. Inside of one there are only packets
of its own time that end no call and have no data. -/
def Harmless : Under → List Item → Prop
  | _, [] => True
  | o, .inl p :: items => o.before p.head.ts = 0 ∧ Harmless (.behind p) items
  | .outside ts n, .inr x :: items =>
    x.Other ∧ (video items = [] ∨ x.Limits ∧ (Under.outside ts n).before x.ts + x.payload.length + 4 ≤ videoFrameSize) ∧
      Harmless ((Under.outside ts n).pass x) items
  | .inside ts, .inr x :: items =>
    x.Other ∧ x.Limits ∧ ¬x.Ends ∧ x.ts = ts ∧ x.payload = [] ∧ Harmless (.inside ts) items

/-- What is shown of a frame; its times and rate are of the clock. -/
structure Shown where
  frameType : UInt8
  frameSubType : UInt8
  width : UInt16
  height : UInt16
  len : UInt32
  bytes : List UInt8
  deriving DecidableEq

/-- A video frame is shown. -/
def shown (r : VideoFrame) : List Shown :=
  if r.head.frameType = 1 ∨ r.head.frameType = 2 then
    [⟨r.head.frameType, r.head.frameSubType, r.head.width, r.head.height, r.head.len, r.body.read 0 r.head.len.toNat⟩]
  else []

/-- Calls up to one that returns -1, `clock` at each; every call takes a head, so the stream's length is fuel enough. -/
def calls (sps : List UInt8 → Int32 × Int32 → Int32 × Int32) :
    ℕ → (ℕ → UInt32 × UInt32) → Counts → VideoFrame → Stream → List Shown
  | 0, _, _, _, _ => []
  | n + 1, clock, c, f, s =>
    match recvTcpVideo sps (clock 0) c f s with
    | none => []
    | some (r, c', s') => shown r ++ calls sps n (fun i => clock (i + 1)) c' r s'

def videoFrames (sps : List UInt8 → Int32 × Int32 → Int32 × Int32) (clock : ℕ → UInt32 × UInt32) (c : Counts)
    (f : VideoFrame) (s : Stream) : List Shown :=
  calls sps s.flatten.length clock c f s

/-! ## Parts -/

theorem Part.laid_length (p : Part) : p.laid.length = (if p.opens then 5 else 0) + p.data.length := by
  cases p with
  | single header payload =>
    simp [laid, opens, data, startCode]
    omega
  | fua start last header fragment =>
    cases start
    · simp [laid, opens, data]
    · simp [laid, opens, data, startCode]
      omega

theorem Sent.parts_opens (u : Sent) : ∃ p ps, u.parts = p :: ps ∧ p.opens = true := by
  cases u with
  | single header payload => exact ⟨_, _, rfl, rfl⟩
  | fua header first more => exact ⟨_, _, rfl, rfl⟩

/-! ## A foreign packet -/

namespace Unpacked

/-- What a foreign packet makes of the frame under way. -/
def pass (u : Unpacked) (x : Foreign) (frameSubType : UInt8) : Unpacked :=
  { ((u.enter x.ts).setKind (if x.IsG711 then 3 else 0) frameSubType).put x.payload with lastTs := x.ts }

def RoomFor (u : Unpacked) (x : Foreign) : Prop := (u.enter x.ts).len + x.payload.length + 4 ≤ videoFrameSize

theorem recvKind_other {u : Unpacked} {x : Foreign} (n : ℕ) (s : Stream) (h : x.Other) :
    ∃ b, u.recvKind x.pt n s = some (u.setKind (if x.IsG711 then 3 else 0) b, n, s) := by
  have h : isH264 x.pt = false := h
  rw [recvKind, if_neg (by rw [h]; exact Bool.false_ne_true)]
  by_cases h0 : x.pt = 0
  · exact ⟨3, by rw [if_pos h0, if_pos (.inl h0)]⟩
  by_cases h8 : x.pt = 8
  · exact ⟨1, by rw [if_neg h0, if_pos h8, if_pos (.inr h8)]⟩
  · have hno : ¬x.IsG711 := not_or.mpr ⟨h0, h8⟩
    exact ⟨0, by rw [if_neg h0, if_neg h8, if_neg hno]⟩

theorem length_head (x : Foreign) : be16 x.head 2 = x.data.length := by
  have := x.length
  simp only [be16, byteAt, Foreign.head, List.getD_cons_zero, List.getD_cons_succ, UInt8.toNat_ofNat']
  omega

/-- A foreign packet out of the limits ends the run. -/
theorem recvPacket_refused {u : Unpacked} {x : Foreign} {s : Stream} {rest : List UInt8} (h : ¬x.Limits)
    (hs : s.flatten = x.bytes ++ rest) : u.recvPacket s = none := by
  rw [Foreign.bytes, List.append_assoc] at hs
  obtain ⟨s₁, h₁, -⟩ := Pieces.recv_append hs
  have h₁ : Pieces.recv 4 s = some (x.head, s₁) := h₁
  have hbad : byteAt x.head 0 ≠ 0x24 ∨ be16 x.head 2 < 12 ∨ be16 x.head 2 > pktSize := by
    rw [length_head]
    unfold Foreign.Limits at h
    omega
  simp only [recvPacket, h₁]
  exact if_pos hbad

theorem recvPacket_foreign {u : Unpacked} {x : Foreign} (hother : x.Other) (hlim : x.Limits) {s : Stream} {rest : List UInt8}
    (hs : s.flatten = x.bytes ++ rest) :
    u.RoomFor x ∧ (∃ b s', u.recvPacket s = some (u.pass x b, x.m, s') ∧ s'.flatten = rest) ∨
      ¬u.RoomFor x ∧ u.recvPacket s = none := by
  obtain ⟨hle, hmost⟩ := hlim
  obtain ⟨rtp, hdata, hrtp⟩ : ∃ rtp, x.data = rtp ++ x.payload ∧ rtp.length = 12 :=
    ⟨x.data.take 12, (List.take_append_drop ..).symm, by rw [List.length_take]; omega⟩
  have hsplit : s.flatten = x.head ++ (rtp ++ (x.payload ++ rest)) := by
    rw [hs, Foreign.bytes, List.append_assoc]
    nth_rewrite 1 [hdata]
    rw [List.append_assoc]
  obtain ⟨s₁, h₁, hs₁⟩ := Pieces.recv_append hsplit
  obtain ⟨s₂, h₂, hs₂⟩ := Pieces.recv_append hs₁
  obtain ⟨s₃, h₃, hs₃⟩ := Pieces.recv_append hs₂
  have h₁ : Pieces.recv 4 s = some (x.head, s₁) := h₁
  rw [hrtp] at h₂
  have hpay : x.data.length - 12 = x.payload.length := (List.length_drop ..).symm
  have hflag : byteAt x.head 0 = 0x24 := rfl
  have hlen := length_head x
  have hhead : ¬(byteAt x.head 0 ≠ 0x24 ∨ be16 x.head 2 < 12 ∨ be16 x.head 2 > pktSize) := by omega
  have hpt : byteAt rtp 1 % 128 = x.pt := by rw [Foreign.pt, hdata, byteAt_append_left (by omega)]
  have hm : decide (byteAt rtp 1 / 128 = 1) = x.m := by rw [Foreign.m, hdata, byteAt_append_left (by omega)]
  have hts : UInt32.ofNat (word32 rtp 4) = x.ts := by rw [Foreign.ts, hdata, word32_append_left (by omega)]
  obtain ⟨b, hkind⟩ := recvKind_other (u := u.enter x.ts) x.payload.length s₂ hother
  have hturn : u.recvPacket s = if (u.enter x.ts).len + x.payload.length + 4 > videoFrameSize then none
      else some (u.pass x b, x.m, s₃) := by
    simp only [recvPacket, h₁, h₂, ← enter.eq_1]
    rw [if_neg hhead, hlen, hpay, hts, hpt, hkind]
    simp only [h₃, hm]
    rfl
  rw [hturn]
  by_cases hfull : (u.enter x.ts).len + x.payload.length + 4 > videoFrameSize
  · exact .inr ⟨Nat.not_le.mpr hfull, if_pos hfull⟩
  · exact .inl ⟨Nat.le_of_not_lt hfull, b, s₃, if_neg hfull, hs₃⟩

theorem pass_ends {u : Unpacked} {x : Foreign} {b : UInt8} :
    (x.m = true ∨ (u.pass x b).frame.head.frameType = 3) ↔ x.Ends := by
  have htype : (u.pass x b).frame.head.frameType = if x.IsG711 then 3 else 0 := rfl
  rw [htype, Foreign.Ends]
  by_cases h : x.IsG711
  · rw [if_pos h]
    exact or_congr Iff.rfl ⟨fun _ => h, fun _ => rfl⟩
  · rw [if_neg h]
    exact or_congr Iff.rfl ⟨fun h0 => absurd h0 (by decide), fun h' => absurd h' h⟩

theorem pass_hidden (u : Unpacked) (x : Foreign) (b : UInt8) :
    ¬((u.pass x b).frame.head.frameType = 1 ∨ (u.pass x b).frame.head.frameType = 2) := by
  have htype : (u.pass x b).frame.head.frameType = if x.IsG711 then 3 else 0 := rfl
  rw [htype]
  split <;> decide

/-! ## Two calls -/

/-- The same up to what is behind the bytes laid down. -/
structure Alike (u v : Unpacked) : Prop where
  laid : u.laid = v.laid
  len : u.len = v.len
  spsLen : u.spsLen = v.spsLen

/-- The frame under way is empty for a packet of the time. -/
def Empty (u : Unpacked) (ts : UInt32) : Prop := (u.enter ts).len = 0 ∧ (u.enter ts).spsLen = 0

theorem empty_of_len {u : Unpacked} (hn : u.len = 0) (hs : u.spsLen = 0) (ts : UInt32) : u.Empty ts := by
  unfold Empty enter
  split
  · exact ⟨rfl, rfl⟩
  · exact ⟨hn, hs⟩

theorem empty_of_time {u : Unpacked} {ts : UInt32} (h : u.lastTs ≠ ts) : u.Empty ts := by
  rw [Empty, enter, if_pos h]
  exact ⟨rfl, rfl⟩

theorem enter_same {u : Unpacked} {ts : UInt32} (h : u.lastTs = ts) : u.enter ts = u := if_neg (not_not.mpr h)

theorem Empty.alike {u v : Unpacked} {ts : UInt32} (hu : u.Empty ts) (hv : v.Empty ts) : (u.enter ts).Alike (v.enter ts) := by
  refine ⟨?_, hu.1.trans hv.1.symm, hu.2.trans hv.2.symm⟩
  rw [laid, laid, hu.1, hv.1]
  rfl

theorem Alike.take {u v : Unpacked} {p : Packet} (h : (u.enter p.head.ts).Alike (v.enter p.head.ts)) :
    (u.take p).Alike (v.take p) := by
  obtain ⟨hlaid, hlen⟩ := u.take_enter p
  obtain ⟨hlaid', hlen'⟩ := v.take_enter p
  refine ⟨?_, ?_, ?_⟩
  · rw [hlaid, hlaid', h.laid]
  · rw [hlen, hlen', h.len]
  · rw [u.take_spsLen, v.take_spsLen, h.spsLen]

theorem Alike.room {u v : Unpacked} {p : Packet} (h : (u.enter p.head.ts).Alike (v.enter p.head.ts)) : u.Room p ↔ v.Room p := by
  unfold Room
  rw [h.len]

theorem Alike.read {u v : Unpacked} (h : u.Alike v) {a n : ℕ} (hn : a + n ≤ u.len) :
    u.frame.body.read a n = v.frame.body.read a n := by
  have hlaid : u.frame.body.read 0 u.len = v.frame.body.read 0 u.len := by
    have hl := h.laid
    unfold Unpacked.laid at hl
    rw [hl, h.len]
  rw [Mem.read_drop _ hn, Mem.read_drop _ hn, hlaid]

/-- A parameter set has been laid down as far as it is noted. -/
def Noted (u : Unpacked) : Prop := 5 + u.spsLen ≤ u.len

/-- A part that opens a unit, or goes on with one, lays down what is noted of it. -/
theorem Noted.take {u : Unpacked} {p : Packet}
    (h : p.part.opens = true ∧ (u.enter p.head.ts).spsLen = 0 ∨ (u.enter p.head.ts).Noted) : (u.take p).Noted := by
  have hlen := (u.take_enter p).2
  have hsps := u.take_spsLen p
  have hpart := p.part.laid_length
  unfold Noted noteSps at *
  rcases h with ⟨ho, hz⟩ | hn
  · rw [if_pos ho] at hpart
    split at hsps <;> omega
  · split at hsps <;> omega

/-- A run with foreign packets, in `u`, beside the run without them, in `v`. -/
inductive Beside : Under → Unpacked → Unpacked → Prop
  | outside {ts : UInt32} {n : ℕ} {u v : Unpacked} (hts : u.lastTs = ts) (hn : u.len = n) (hu : u.spsLen = 0) (hv : v.len = 0)
    (hv' : v.spsLen = 0) : Beside (.outside ts n) u v
  | inside {ts : UInt32} {u v : Unpacked} (h : u.Alike v) (hu : u.lastTs = ts) (hv : v.lastTs = ts) (hn : v.Noted) :
    Beside (.inside ts) u v

theorem beside_begun (f f₀ : VideoFrame) : Beside .start (begun f) (begun f₀) := .outside rfl rfl rfl rfl rfl

end Unpacked

/-! ## The video packets -/

/-- What is to follow: an access unit, or the packets of one up to its marker. -/
def Framed : Option UInt32 → List Packet → Prop
  | none, [] => True
  | some _, [] => False
  | none, p :: ps => Wire p ∧ p.part.opens = true ∧ Framed (if p.head.m then none else some p.head.ts) ps
  | some ts, p :: ps => Wire p ∧ p.head.ts = ts ∧ Framed (if p.head.m then none else some p.head.ts) ps

def Under.time : Under → Option UInt32
  | outside _ _ => none
  | inside ts => some ts

theorem Under.time_behind (p : Packet) : (behind p).time = if p.head.m then none else some p.head.ts := by
  unfold behind
  split <;> rfl

theorem framed_some {ts : UInt32} {last : Packet} {rest : List Packet} (hlast : Wire last) (hts : last.head.ts = ts)
    (hm : last.head.m = true) (h : Framed none rest) : ∀ {pre : List Packet},
    (∀ p ∈ pre, Wire p ∧ p.head.ts = ts ∧ p.head.m = false) → Framed (some ts) (pre ++ last :: rest)
  | [], _ => by
    refine ⟨hlast, hts, ?_⟩
    rw [if_pos hm]
    exact h
  | p :: pre, hpre => by
    obtain ⟨hwire, hpts, hpm⟩ := hpre p (by simp)
    refine ⟨hwire, hpts, ?_⟩
    rw [hpm, if_neg Bool.false_ne_true, hpts]
    exact framed_some hlast hts hm h fun q hq => hpre q (List.mem_cons_of_mem _ hq)

theorem Carries.opens {ps : List Packet} {us : List Sent} (h : Carries ps us) {p : Packet} {qs : List Packet} (hps : ps = p :: qs) :
    p.part.opens = true := by
  have hparts := h.parts
  rw [hps, List.map_cons] at hparts
  cases us with
  | nil => cases hparts
  | cons v vs =>
    obtain ⟨q, rs, hv, ho⟩ := v.parts_opens
    rw [List.flatMap_cons, hv, List.cons_append] at hparts
    rw [(List.cons.inj hparts).1]
    exact ho

theorem AccessUnit.framed (a : AccessUnit) {rest : List Packet} (h : Framed none rest) : Framed none (a.packets ++ rest) := by
  obtain ⟨ts, hts⟩ := a.carries.time
  obtain ⟨pre, last, hps, hm, hpre⟩ := a.carries.marker
  have hall : ∀ p ∈ a.packets, Wire p := fun p hp => ⟨a.carries.ok p hp, a.carries.pt p hp, a.wire p hp⟩
  rw [hps] at hall hts ⊢
  rw [List.append_assoc, List.singleton_append]
  cases pre with
  | nil =>
    refine ⟨hall last (by simp), a.carries.opens hps, ?_⟩
    rw [if_pos hm]
    exact h
  | cons p pre =>
    refine ⟨hall p (by simp), a.carries.opens hps, ?_⟩
    rw [hpre p (by simp), if_neg Bool.false_ne_true, hts p (by simp)]
    refine framed_some (hall last (by simp)) (hts last (by simp)) hm h fun q hq => ⟨hall q ?_, hts q ?_, hpre q ?_⟩
    · exact List.mem_append_left _ (List.mem_cons_of_mem _ hq)
    · exact List.mem_append_left _ (List.mem_cons_of_mem _ hq)
    · exact List.mem_cons_of_mem _ hq

theorem framed_units (units : List AccessUnit) : Framed none (units.flatMap AccessUnit.packets) := by
  induction units with
  | nil => trivial
  | cons a units ih =>
    rw [List.flatMap_cons]
    exact a.framed ih

/-! ## A call -/

/-- How a call ends with the packets `items` and `o` under way, beside one without the foreign packets: both are refused,
a foreign packet ends it outside of an access unit, or both return what one has laid down. -/
inductive Ended (o : Under) (items : List Item) : Option (Unpacked × Stream) → Option (Unpacked × Stream) → Prop
  | refused : Ended o items none none
  | passed {u : Unpacked} {t : Stream} {r : Option (Unpacked × Stream)} {rest : List Item} (ho : o.time = none)
    (hidden : ¬(u.frame.head.frameType = 1 ∨ u.frame.head.frameType = 2)) (hsps : u.spsLen = 0)
    (ht : t.flatten = cat Item.bytes rest) (hrest : Harmless .start rest) (hvideo : video rest = video items) :
    Ended o items (some (u, t)) r
  | returned {u v : Unpacked} {t t₀ : Stream} {rest : List Item} (h : u.Alike v) (hn : v.Noted)
    (htype : u.frame.head.frameType = v.frame.head.frameType) (hsub : u.frame.head.frameSubType = v.frame.head.frameSubType)
    (ht : t.flatten = cat Item.bytes rest) (ht₀ : t₀.flatten = cat Packet.bytes (video rest)) (hrest : Harmless .start rest)
    (hframed : Framed none (video rest)) :
    Ended o items (some (u, t)) (some (v, t₀))

theorem Ended.later {o o' : Under} {item : Item} {items : List Item} {a b : Option (Unpacked × Stream)} (h : Ended o' items a b)
    (ho : o'.time = none → o.time = none ∧ video items = video (item :: items)) : Ended o (item :: items) a b := by
  cases h with
  | refused => exact .refused
  | passed ho' hidden hsps ht hrest hvideo =>
    obtain ⟨ho, hv⟩ := ho ho'
    exact .passed ho hidden hsps ht hrest (hvideo.trans hv)
  | returned h hn htype hsub ht ht₀ hrest hframed => exact .returned h hn htype hsub ht ht₀ hrest hframed

namespace Unpacked

theorem recvPackets_empty (u : Unpacked) (n : ℕ) {s : Stream} (hs : s.flatten = []) : u.recvPackets n s = none := by
  cases n with
  | zero => rfl
  | succ n =>
    have hrecv : Pieces.recv 4 s = none := Pieces.recv_short (by rw [hs]; decide)
    rw [recvPackets, recvPacket, hrecv]

theorem recvPackets_shorter : ∀ {n : ℕ} {u u' : Unpacked} {s s' : Stream}, u.recvPackets n s = some (u', s') →
    s'.flatten.length < s.flatten.length := by
  intro n
  induction n with
  | zero => exact fun h => nomatch h
  | succ n ih =>
    intro u u' s s' h
    rw [recvPackets] at h
    cases hp : u.recvPacket s with
    | none =>
      rw [hp] at h
      cases h
    | some r =>
      obtain ⟨bs, hs, -, hlen⟩ := recvPacket_some hp
      have hless : r.2.2.flatten.length < s.flatten.length := by
        rw [hs, List.length_append]
        omega
      rw [hp] at h
      dsimp only at h
      split at h
      · cases h
        exact hless
      · exact Nat.lt_trans (ih h) hless

/-- The next video packet finds the same in both runs. -/
theorem Beside.next {o : Under} {u v : Unpacked} {p : Packet} {ps : List Packet} (h : Beside o u v)
    (hb : o.before p.head.ts = 0) (hf : Framed o.time (p :: ps)) :
    (u.enter p.head.ts).Alike (v.enter p.head.ts) ∧ (v.take p).Noted := by
  cases h with
  | @outside ts n u v hts hn hu hv hv' =>
    have hempty : u.Empty p.head.ts := by
      by_cases he : ts = p.head.ts
      · rw [Under.before, if_pos he] at hb
        exact empty_of_len (hn.trans hb) hu _
      · exact empty_of_time (by rw [hts]; exact he)
    have hempty' := empty_of_len hv hv' p.head.ts
    exact ⟨hempty.alike hempty', .take (.inl ⟨hf.2.1, hempty'.2⟩)⟩
  | @inside ts u v h hu hv hn =>
    have hts : p.head.ts = ts := hf.2.1
    have henter := enter_same (hu.trans hts.symm)
    have henter' := enter_same (hv.trans hts.symm)
    refine ⟨?_, .take (.inr ?_)⟩
    · rw [henter, henter']
      exact h
    · rw [henter']
      exact hn

theorem Alike.pass {u v : Unpacked} {x : Foreign} (h : u.Alike v) (hu : u.lastTs = x.ts) (hx : x.payload = []) (b : UInt8) :
    (u.pass x b).Alike v := by
  have hlaid : (u.pass x b).laid = ((u.enter x.ts).setKind (if x.IsG711 then 3 else 0) b).laid ++ x.payload := put_laid _ _
  have hlen : (u.pass x b).len = (u.enter x.ts).len + x.payload.length := rfl
  have hsps : (u.pass x b).spsLen = (u.enter x.ts).spsLen := rfl
  rw [hx, List.append_nil] at hlaid
  rw [hx, List.length_nil, Nat.add_zero] at hlen
  rw [enter_same hu] at hlaid hlen hsps
  exact ⟨hlaid.trans h.laid, hlen.trans h.len, hsps.trans h.spsLen⟩

theorem before_outside {u : Unpacked} {ts : UInt32} {n : ℕ} (hts : u.lastTs = ts) (hn : u.len = n) (hs : u.spsLen = 0)
    (t : UInt32) : (u.enter t).len = (Under.outside ts n).before t ∧ (u.enter t).spsLen = 0 := by
  rw [Under.before, enter, hts]
  by_cases h : ts = t
  · rw [if_pos h, if_neg (not_not.mpr h)]
    exact ⟨hn, hs⟩
  · rw [if_neg h, if_pos h]
    exact ⟨rfl, rfl⟩

end Unpacked

theorem Framed.next {o : Under} {p : Packet} {ps : List Packet} (h : Framed o.time (p :: ps)) :
    Wire p ∧ Framed (Under.behind p).time ps := by
  rw [Under.time_behind]
  cases o with
  | outside ts n => exact ⟨h.1, h.2.2⟩
  | inside ts => exact ⟨h.1, h.2.2⟩

open Unpacked

/-- A call of the run with the foreign packets, and one of the run without them, with `items` to come. -/
structure Calling (o : Under) (items : List Item) (u v : Unpacked) (s s₀ : Stream) : Prop where
  harmless : Harmless o items
  framed : Framed o.time (video items)
  beside : Beside o u v
  stream : s.flatten = cat Item.bytes items
  stream₀ : s₀.flatten = cat Packet.bytes (video items)

/-- Such calls end as they should within so many turns. -/
def CallsEnd (items : List Item) (n n₀ : ℕ) : Prop :=
  ∀ o u v s s₀, Calling o items u v s s₀ → Ended o items (u.recvPackets n s) (v.recvPackets n₀ s₀)

section
variable {items : List Item} {o : Under} {u v : Unpacked} {s s₀ : Stream} {n n₀ : ℕ}

/-- Without another video packet the run without the foreign packets is over. -/
theorem Calling.over (h : Calling o items u v s s₀) (hend : video items = []) (n₀ : ℕ) : v.recvPackets n₀ s₀ = none := by
  refine v.recvPackets_empty n₀ ?_
  rw [h.stream₀, hend]
  rfl

theorem Calling.video {p : Packet} (h : Calling o (.inl p :: items) u v s s₀) (hmore : CallsEnd items n n₀) :
    Ended o (.inl p :: items) (u.recvPackets (n + 1) s) (v.recvPackets (n₀ + 1) s₀) := by
  have hs : s.flatten = p.bytes ++ cat Item.bytes items := h.stream
  have hs₀ : s₀.flatten = p.bytes ++ cat Packet.bytes (Rtp.video items) := h.stream₀
  have hf : Framed o.time (p :: Rtp.video items) := h.framed
  obtain ⟨hbefore, hrest⟩ : o.before p.head.ts = 0 ∧ Harmless (.behind p) items := by
    cases o with
    | outside ts n => exact h.harmless
    | inside ts => exact h.harmless
  obtain ⟨hwire, hframed⟩ := hf.next
  obtain ⟨henter, hnoted⟩ := h.beside.next hbefore hf
  rw [recvPackets, recvPackets]
  rcases recvPacket_wire (u := u) hwire.ok hwire.pt hwire.length hs with ⟨hroom, t, ht, htf⟩ | ⟨hno, ht⟩
  · rcases recvPacket_wire (u := v) hwire.ok hwire.pt hwire.length hs₀ with ⟨-, t₀, ht₀, htf₀⟩ | ⟨hno, -⟩
    · simp only [ht, ht₀, u.take_video p, v.take_video p, or_false]
      cases hm : p.head.m with
      | true =>
        rw [Under.behind, hm, if_pos rfl] at hrest hframed
        exact .returned (.take henter) hnoted rfl rfl htf htf₀ hrest hframed
      | false =>
        rw [Under.behind, hm, if_neg Bool.false_ne_true] at hrest hframed
        have hnext : Calling (.inside p.head.ts) items (u.take p) (v.take p) t t₀ :=
          ⟨hrest, hframed, .inside (.take henter) rfl rfl hnoted, htf, htf₀⟩
        exact (hmore _ _ _ _ _ hnext).later (fun h => by cases h)
    · exact absurd (henter.room.mp hroom) hno
  · rcases recvPacket_wire (u := v) hwire.ok hwire.pt hwire.length hs₀ with ⟨hroom, -⟩ | ⟨-, ht₀⟩
    · exact absurd (henter.room.mpr hroom) hno
    · rw [ht, ht₀]
      exact .refused

/-- A foreign packet outside of an access unit ends its call, or leaves something that the next video packet drops. -/
theorem Calling.outside {x : Foreign} {ts : UInt32} {k : ℕ} (h : Calling (.outside ts k) (.inr x :: items) u v s s₀)
    (hmore : CallsEnd items n n₀) :
    Ended (.outside ts k) (.inr x :: items) (u.recvPackets (n + 1) s) (v.recvPackets n₀ s₀) := by
  have hs : s.flatten = x.bytes ++ cat Item.bytes items := h.stream
  have hvideo : Rtp.video items = Rtp.video (.inr x :: items) := rfl
  obtain ⟨hother, hroom, hrest⟩ := h.harmless
  cases h.beside with
  | outside hts hlen hu hv hv' =>
    have ho : (Under.outside ts k).time = none := rfl
    obtain ⟨hbefore, hsps⟩ := before_outside hts hlen hu x.ts
    rw [recvPackets]
    by_cases hlim : x.Limits
    · rcases recvPacket_foreign (u := u) hother hlim hs with ⟨-, b, t, ht, htf⟩ | ⟨hno, ht⟩
      · rw [ht]
        dsimp only
        by_cases hends : x.Ends
        · rw [Under.pass, if_pos hends] at hrest
          rw [if_pos (pass_ends.mpr hends)]
          exact .passed ho (u.pass_hidden x b) hsps htf hrest hvideo
        · rw [Under.pass, if_neg hends] at hrest
          rw [if_neg (mt pass_ends.mp hends)]
          have hbeside : Beside (.outside x.ts ((Under.outside ts k).before x.ts + x.payload.length)) (u.pass x b) v :=
            .outside rfl (congrArg (· + x.payload.length) hbefore) hsps hv hv'
          have hnext := hmore _ _ _ _ _ ⟨hrest, h.framed, hbeside, htf, h.stream₀⟩
          exact hnext.later fun _ => ⟨ho, hvideo⟩
      · rcases hroom with hend | ⟨-, hroom⟩
        · rw [ht, h.over hend]
          exact .refused
        · rw [← hbefore] at hroom
          exact absurd hroom hno
    · rcases hroom with hend | ⟨hlim', -⟩
      · rw [recvPacket_refused hlim hs, h.over hend]
        exact .refused
      · exact absurd hlim' hlim

/-- A packet without data inside of an access unit leaves it as it is. Where it finds no room there is none for the next
video packet either. -/
theorem Calling.inside {x : Foreign} {ts : UInt32} (h : Calling (.inside ts) (.inr x :: items) u v s s₀)
    (hmore : CallsEnd items n n₀) (hn₀ : (Rtp.video items).length ≤ n₀) :
    Ended (.inside ts) (.inr x :: items) (u.recvPackets (n + 1) s) (v.recvPackets n₀ s₀) := by
  have hs : s.flatten = x.bytes ++ cat Item.bytes items := h.stream
  have hs₀ : s₀.flatten = cat Packet.bytes (Rtp.video items) := h.stream₀
  have hf : Framed (some ts) (Rtp.video items) := h.framed
  obtain ⟨hother, hlim, hends, hts, hpay, hrest⟩ := h.harmless
  cases h.beside with
  | inside halike hu hv hnoted =>
    have hlast : u.lastTs = x.ts := hu.trans hts.symm
    rw [recvPackets]
    rcases recvPacket_foreign (u := u) hother hlim hs with ⟨-, b, t, ht, htf⟩ | ⟨hno, ht⟩
    · rw [ht]
      dsimp only
      rw [if_neg (mt pass_ends.mp hends)]
      have hbeside : Beside (.inside ts) (u.pass x b) v := .inside (halike.pass hlast hpay b) hts hv hnoted
      exact (hmore _ _ _ _ _ ⟨hrest, hf, hbeside, htf, hs₀⟩).later (fun h => by cases h)
    · rw [ht]
      cases hp : Rtp.video items with
      | nil =>
        rw [hp] at hf
        exact hf.elim
      | cons p ps =>
        rw [hp] at hf hs₀ hn₀
        obtain ⟨n₀, rfl⟩ : ∃ m, n₀ = m + 1 := ⟨n₀ - 1, by rw [List.length_cons] at hn₀; omega⟩
        have hwire := hf.1
        have hno' : ¬v.Room p := by
          rw [RoomFor, enter_same hlast, hpay, halike.len, List.length_nil] at hno
          rw [Room, enter_same (hv.trans hf.2.1.symm)]
          omega
        rcases recvPacket_wire (u := v) hwire.ok hwire.pt hwire.length hs₀ with ⟨hroom, -⟩ | ⟨-, ht₀⟩
        · exact absurd hroom hno'
        · rw [recvPackets, ht₀]
          exact .refused

end

/-- **A call** with the foreign packets, and one without them. -/
theorem calls_end : ∀ {items : List Item} {n n₀ : ℕ}, items.length ≤ n → (video items).length ≤ n₀ → CallsEnd items n n₀ := by
  intro items
  induction items with
  | nil =>
    intro n n₀ _ _ o u v s s₀ h
    rw [u.recvPackets_empty n h.stream, h.over rfl]
    exact .refused
  | cons item items ih =>
    intro n n₀ hn hn₀ o u v s s₀ h
    rw [List.length_cons] at hn
    obtain ⟨n, rfl⟩ : ∃ m, n = m + 1 := ⟨n - 1, by omega⟩
    have hle := Nat.le_of_succ_le_succ hn
    cases item with
    | inl p =>
      have hn₀ : (video items).length + 1 ≤ n₀ := hn₀
      obtain ⟨n₀, rfl⟩ : ∃ m, n₀ = m + 1 := ⟨n₀ - 1, by omega⟩
      exact h.video (ih hle (Nat.le_of_succ_le_succ hn₀))
    | inr x =>
      cases o with
      | outside ts k => exact h.outside (ih hle hn₀)
      | inside ts => exact h.inside (ih hle hn₀) hn₀

/-! ## The run -/

section
variable {sps : List UInt8 → Int32 × Int32 → Int32 × Int32}

structure Agree (r r₀ : VideoFrame) (c c₀ : Counts) : Prop where
  shown : shown r = shown r₀
  size : (c.width, c.height) = (c₀.width, c₀.height)

theorem Unpacked.Alike.agree {u v : Unpacked} (h : u.Alike v) (hn : v.Noted)
    (htype : u.frame.head.frameType = v.frame.head.frameType)
    (hsub : u.frame.head.frameSubType = v.frame.head.frameSubType) {c c' c₀ c₀' : Counts} {r r₀ : VideoFrame}
    (hret : u.Returned sps c c' r) (hret₀ : v.Returned sps c₀ c₀' r₀) (hsize : (c.width, c.height) = (c₀.width, c₀.height)) :
    Agree r r₀ c' c₀' := by
  have hrange : u.spsRange = v.spsRange := by rw [spsRange, spsRange, h.spsLen]
  have hsizes : (c'.width, c'.height) = (c₀'.width, c₀'.height) := by
    rw [hret.size, hret₀.size, hsize, hrange, hret.body, hret₀.body, spsRange]
    split
    · rfl
    · rw [sized, sized, h.read (by rw [h.len]; exact hn)]
  have hlen : r.head.len = r₀.head.len := by rw [hret.len, hret₀.len, h.len]
  have hbytes : r.body.read 0 r.head.len.toNat = r₀.body.read 0 r₀.head.len.toNat := by
    rw [← hlen, hret.body, hret₀.body]
    refine h.read ?_
    rw [hret.len, UInt32.toNat_ofNat', Nat.zero_add]
    exact Nat.mod_le _ _
  obtain ⟨hwidth, hheight⟩ := Prod.ext_iff.mp hsizes
  dsimp only at hwidth hheight
  refine ⟨?_, hsizes⟩
  rw [Rtp.shown, Rtp.shown, hbytes, hlen, hret.frameType, hret₀.frameType, hret.frameSubType, hret₀.frameSubType, hret.width,
    hret₀.width, hret.height, hret₀.height, htype, hsub, hwidth, hheight]

/-- A frame that is none of video is not shown, and leaves the size. -/
theorem Unpacked.Returned.hidden {u : Unpacked} {c c' : Counts} {r : VideoFrame} (h : u.Returned sps c c' r)
    (hidden : ¬(u.frame.head.frameType = 1 ∨ u.frame.head.frameType = 2)) (hsps : u.spsLen = 0) :
    shown r = [] ∧ (c'.width, c'.height) = (c.width, c.height) := by
  constructor
  · rw [shown, h.frameType]
    exact if_neg hidden
  · rw [h.size, spsRange, if_pos hsps]
    rfl

theorem calls_refused {f : VideoFrame} {s : Stream} (h : (begun f).recvPackets s.flatten.length s = none) (n : ℕ)
    (clock : ℕ → UInt32 × UInt32) (c : Counts) : calls sps n clock c f s = [] := by
  cases n with
  | zero => rfl
  | succ n => rw [calls, recvTcpVideo_of_none h]

theorem items_length_le (items : List Item) : items.length ≤ (cat Item.bytes items).length := by
  induction items with
  | nil => exact Nat.le_refl _
  | cons item items ih =>
    have hpos : 0 < (Item.bytes item).length := by
      cases item with
      | inl p => exact Nat.succ_pos _
      | inr x => exact Nat.succ_pos _
    rw [cat_cons, List.length_append, List.length_cons]
    omega

theorem calls_harmless : ∀ {n n₀ : ℕ} {items : List Item} {clock clock₀ : ℕ → UInt32 × UInt32} {c c₀ : Counts}
    {f f₀ : VideoFrame} {s s₀ : Stream}, Harmless .start items → Framed none (video items) →
    s.flatten = cat Item.bytes items → s₀.flatten = cat Packet.bytes (video items) → s.flatten.length ≤ n →
    s₀.flatten.length ≤ n₀ → (c.width, c.height) = (c₀.width, c₀.height) →
    calls sps n clock c f s = calls sps n₀ clock₀ c₀ f₀ s₀ := by
  intro n
  induction n with
  | zero =>
    intro n₀ items clock clock₀ c c₀ f f₀ s s₀ _ _ hs hs₀ hn _ _
    have hitems : items = [] := List.eq_nil_of_length_eq_zero (by
      have := items_length_le items
      rw [← hs] at this
      omega)
    have hnil : s₀.flatten = [] := by
      rw [hs₀, hitems]
      rfl
    rw [calls, calls_refused ((begun f₀).recvPackets_empty _ hnil)]
  | succ n ih =>
    intro n₀ items clock clock₀ c c₀ f f₀ s s₀ h hf hs hs₀ hn hn₀ hsize
    have hfuel : items.length ≤ s.flatten.length := by
      rw [hs]
      exact items_length_le items
    have hfuel₀ : (video items).length ≤ s₀.flatten.length := by
      rw [hs₀]
      exact cat_length_ge _
    have hended := calls_end hfuel hfuel₀ _ _ _ _ _ ⟨h, hf, beside_begun f f₀, hs, hs₀⟩
    generalize hr : (begun f).recvPackets s.flatten.length s = x at hended
    generalize hr₀ : (begun f₀).recvPackets s₀.flatten.length s₀ = x₀ at hended
    cases hended with
    | refused => rw [calls_refused hr, calls_refused hr₀]
    | passed _ hidden hsps ht hrest hvideo =>
      have hless := recvPackets_shorter hr
      obtain ⟨r, c', hc, hret⟩ := recvTcpVideo_of_some sps (clock 0) c hr
      obtain ⟨hshown, hsize'⟩ := hret.hidden hidden hsps
      rw [calls, hc]
      dsimp only
      rw [hshown, List.nil_append]
      rw [← hvideo] at hf hs₀
      exact ih hrest hf ht hs₀ (by omega) hn₀ (hsize'.trans hsize)
    | returned hlike hnoted htype hsub ht ht₀ hrest hframed =>
      have hless := recvPackets_shorter hr
      have hless₀ := recvPackets_shorter hr₀
      obtain ⟨r, c', hc, hret⟩ := recvTcpVideo_of_some sps (clock 0) c hr
      obtain ⟨r₀, c₀', hc₀, hret₀⟩ := recvTcpVideo_of_some sps (clock₀ 0) c₀ hr₀
      have hagree := hlike.agree hnoted htype hsub hret hret₀ hsize
      obtain ⟨n₀, rfl⟩ : ∃ m, n₀ = m + 1 := ⟨n₀ - 1, by omega⟩
      rw [calls, calls, hc, hc₀]
      dsimp only
      rw [hagree.shown]
      exact congrArg _ (ih hrest hframed ht ht₀ (by omega) (by omega) hagree.size)

end

/-- **Interleaved media.** Where the foreign packets do no harm, the video frames are those of the video packets alone. -/
theorem videoFrames_harmless {items : List Item} {units : List AccessUnit}
    (hvideo : video items = units.flatMap AccessUnit.packets) (h : Harmless .start items)
    (sps : List UInt8 → Int32 × Int32 → Int32 × Int32) (clock clock₀ : ℕ → UInt32 × UInt32) (c : Counts) (f : VideoFrame)
    {s s₀ : Stream} (hs : s.flatten = cat Item.bytes items) (hs₀ : s₀.flatten = cat Packet.bytes (video items)) :
    videoFrames sps clock c f s = videoFrames sps clock₀ c f s₀ := by
  have hframed : Framed none (video items) := by
    rw [hvideo]
    exact framed_units units
  exact calls_harmless h hframed hs hs₀ (Nat.le_refl _) (Nat.le_refl _) rfl

/-- G.711 audio without a marker. -/
def audio : Foreign := ⟨0, [0x80, 0, 0, 0, 0, 0, 0, 1, 0, 0, 0, 0, 0xD5], by decide⟩

/-- Audio of another type without a marker, of another time than the video. -/
def otherAudio : Foreign := ⟨0, [0x80, 97, 0, 0, 0, 0, 0, 1, 0, 0, 0, 0, 0xD5], by decide⟩

/-- A sender report with the marker bit that each RTCP packet has in its type. -/
def report : Foreign := ⟨1, [0x80, 200, 0, 6] ++ List.replicate 24 0, by decide⟩

def slice : AccessUnit :=
  ⟨[onePacket 0x65 [1]], [.single 0x65 [1]], onePacket_carries (by decide) [1], by simp [onePacket, Packet.length, Part.payload]⟩

def mixed : List Item := [.inr audio, .inr otherAudio, .inl (onePacket 0x65 [1]), .inr report]

theorem mixed_harmless : videoFrames (fun _ size => size) (fun _ => (0, 0)) ⟨0, 0, 0, 0, [], 0, []⟩ noFrame
      [cat Item.bytes mixed] =
    videoFrames (fun _ size => size) (fun _ => (0, 0)) ⟨0, 0, 0, 0, [], 0, []⟩ noFrame [cat Packet.bytes (video mixed)] := by
  have hvideo : video mixed = [slice].flatMap AccessUnit.packets := rfl
  have hharmless : Harmless .start mixed := by
    refine ⟨by decide, .inr ⟨by decide, by decide⟩, by decide, .inr ⟨by decide, by decide⟩, by decide, by decide, .inl rfl, trivial⟩
  exact videoFrames_harmless hvideo hharmless _ _ _ _ _ (List.append_nil _) (List.append_nil _)

def firstPacket : Packet := ⟨0, rtpHead false, .fua true false 0x65 [1]⟩

def lastPacket : Packet := ⟨0, rtpHead true, .fua false true 0x65 [2]⟩

/-- Audio between the packets of an access unit takes the first one with it. -/
theorem audio_inside : Carries [firstPacket, lastPacket] [.fua 0x65 [1] [[2]]] ∧
    video [.inl firstPacket, .inr audio, .inl lastPacket] = [firstPacket, lastPacket] ∧
    videoFrames (fun _ size => size) (fun _ => (0, 0)) ⟨0, 0, 0, 0, [], 0, []⟩ noFrame
        [cat Item.bytes [.inl firstPacket, .inr audio, .inl lastPacket]] ≠
      videoFrames (fun _ size => size) (fun _ => (0, 0)) ⟨0, 0, 0, 0, [], 0, []⟩ noFrame
        [cat Packet.bytes [firstPacket, lastPacket]] := by
  refine ⟨⟨rfl, ?_, ?_, ⟨90, ?_⟩, ⟨[firstPacket], lastPacket, rfl, rfl, ?_⟩⟩, rfl, by decide +kernel⟩ <;>
    simp [firstPacket, lastPacket, rtpHead, Part.Ok, isH264]

end Rtp

end SabApp
