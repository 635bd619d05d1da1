import SabApp.Framing
import SabApp.XmMedia

/-!
# What reaches the caller of `tool_ptc_xm_recvRts`

As long as no packet that starts inside a frame looks like the start of one, and no skipped frame lies
strictly inside a packet, the frames handed on are the media frames sent.
-/

namespace SabApp

namespace Xm

/-! ## Frames as they are sent -/

namespace FrameKind

theorem type_lt (k : FrameKind) : k.type < 4294967296 := by cases k <;> decide

@[simp] theorem ofType_type (k : FrameKind) : ofType k.type = some k := by cases k <;> rfl

theorem lengthBytes_length (k : FrameKind) (n : ℕ) : 4 + k.midLen + (k.lengthBytes n).length = k.headLen := by
  cases k <;> rfl

theorem four_le_headLen (k : FrameKind) : 4 ≤ k.headLen := by cases k <;> decide

end FrameKind

namespace MediaFrame
variable {size : ℕ} (f : MediaFrame size)

theorem head_length : f.head.length = f.kind.headLen := by
  rw [head, List.length_append, List.length_append, le32_length, f.mid_len, f.kind.lengthBytes_length]

theorem bytes_length : f.bytes.length = f.kind.headLen + f.payload.length := by
  rw [bytes, List.length_append, head_length]

theorem bytes_take_four : f.bytes.take 4 = le32 f.kind.type := by
  rw [bytes, head, List.append_assoc, List.append_assoc, List.take_left' (le32_length _)]

theorem bytes_take_head : f.bytes.take f.kind.headLen = f.head := by
  rw [bytes, List.take_left' f.head_length]

theorem length_head : f.kind.length f.head = f.payload.length := by
  obtain ⟨k, mid, payload, hm, hl, hf⟩ := f
  have hb : (le32 k.type ++ mid).length = 4 + k.midLen := by rw [List.length_append, le32_length, hm]
  cases k with
  | vi | pic | vp =>
    simp only [FrameKind.midLen] at hb
    simp only [FrameKind.length, head, FrameKind.lengthBytes]
    rw [word32_append_right (Nat.le_of_eq hb), hb]
    exact word32_le32 hl
  | a | info =>
    simp only [FrameKind.midLen] at hb
    simp only [FrameKind.length, head, FrameKind.lengthBytes]
    rw [word16_append_right (Nat.le_of_eq hb), hb]
    exact word16_le16 hl

theorem bytes_lt (hs : size + 32 < 4294967296) : f.bytes.length + 32 < 4294967296 := by
  have := f.fits
  rw [f.bytes_length]
  omega

theorem bytes_pos : 0 < f.bytes.length := by
  have := f.kind.four_le_headLen
  rw [f.bytes_length]
  omega

theorem shown_of_media {f : MediaFrame size} (h : f.kind.media = true) : f.shown = some (f.kind.frameType, f.payload) := by
  rw [shown, h, if_pos rfl]

theorem shown_of_skipped {f : MediaFrame size} (h : f.kind.media = false) : f.shown = none := by
  rw [shown, h, if_neg Bool.false_ne_true]

end MediaFrame

variable {size : ℕ}

/-! ## The buffer -/

/-- The buffer after the frame in front has been taken. -/
def past (b : RecvBuf) (n : ℕ) : RecvBuf := { b with len := 0, leftBuf := 32 + n, leftLen := b.len - n }

theorem checkBuf_empty {b : RecvBuf} (h : b.len = 0) : checkBuf b = (false, b) := by
  rw [checkBuf, if_pos (by omega)]

section
variable {b : RecvBuf} {f : MediaFrame size} {fs : List (MediaFrame size)} {more : List UInt8}
variable (hr : b.held ++ more = cat MediaFrame.bytes (f :: fs))
include hr

theorem type_of_held (hn : 4 ≤ b.len) : word32 (b.mem.read 32 4) 0 = f.kind.type := by
  have h4 := f.kind.four_le_headLen
  have hl := f.bytes_length
  rw [RecvBuf.read_of_held hr hn (by omega), f.bytes_take_four]
  exact word32_le32 f.kind.type_lt

theorem length_of_held (hs : size + 32 < 4294967296) (hn : f.kind.headLen ≤ b.len) :
    (f.kind.length (b.mem.read 32 f.kind.headLen) + f.kind.headLen) % 4294967296 = f.bytes.length := by
  have hl := f.bytes_length
  have hlt := f.bytes_lt hs
  rw [RecvBuf.read_of_held hr hn (by omega), f.bytes_take_head, f.length_head, Nat.mod_eq_of_lt (by omega)]
  omega

/-- A frame not yet held as a whole is left alone. -/
theorem checkBuf_short (hs : size + 32 < 4294967296) (hn : b.len < f.bytes.length) : checkBuf b = (false, b) := by
  unfold checkBuf
  by_cases h4 : b.len < 4
  · rw [if_pos h4]
  · rw [if_neg h4, type_of_held hr (by omega), FrameKind.ofType_type]
    dsimp only
    by_cases hh : b.len < f.kind.headLen
    · rw [if_pos hh]
    · rw [if_neg hh, length_of_held hr hs (by omega), if_pos hn]

theorem checkBuf_whole (hs : size + 32 < 4294967296) (hn : f.bytes.length ≤ b.len) :
    checkBuf b = (f.kind.media, past b f.bytes.length) := by
  have h4 := f.kind.four_le_headLen
  have hl := f.bytes_length
  rw [checkBuf, if_neg (by omega), type_of_held hr (by omega), FrameKind.ofType_type]
  dsimp only
  rw [if_neg (by omega), length_of_held hr hs (by omega), if_neg (by omega)]
  rfl

end

/-- A way of cutting the frames into packets that the reader is up to: a packet that begins like a
media frame begins with one, and every skipped frame inside a packet ends with it. -/
structure Clean (fs : List (MediaFrame size)) (ps : List Packet) : Prop where
  fresh : ∀ pp p pr t, ps = pp ++ p :: pr → peek p pr = some t → StartsFresh t →
    ∃ fp fr, fs = fp ++ fr ∧ (cat MediaFrame.bytes fp).length = (cat Packet.data pp).length
  inside : ∀ pp p pr fp f fr, ps = pp ++ p :: pr → fs = fp ++ f :: fr → f.kind.media = false →
    (cat Packet.data pp).length < (cat MediaFrame.bytes fp).length →
    ¬ (cat MediaFrame.bytes (fp ++ [f])).length < (cat Packet.data (pp ++ [p])).length

namespace MediaWorld
variable (date2Time : FrameDate → UInt32)

/-! ## A frame is handed on -/

/-- A frame's new head: the kind and the length are the frame's. -/
theorem newHead_spec (it : SockItem) (f : MediaFrame size) (hm : f.kind.media = true) :
    ∃ h it', newHead date2Time it f.kind f.head = some (h, it') ∧ h.frameType = f.kind.frameType ∧
      h.len.toNat = f.payload.length := by
  have hl := f.length_head
  have hlt : f.payload.length < 4294967296 := by
    have := f.len_lt
    cases hk : f.kind <;> simp only [hk, FrameKind.lengthBound] at this <;> omega
  cases hk : f.kind with
  | vi | vp | a =>
    simp only [hk, FrameKind.length] at hl
    refine ⟨_, _, rfl, rfl, ?_⟩
    exact (congrArg (fun n => (UInt32.ofNat n).toNat) hl).trans (UInt32.toNat_ofNat_of_lt' hlt)
  | pic | info => simp [hk, FrameKind.media] at hm

/-- Handing on the frame in front changes nothing behind it. -/
theorem xm2qh_past (hs : size + 32 < 4294967296) (w : MediaWorld) {b : RecvBuf} {f : MediaFrame size} (hm : f.kind.media = true)
    (hb : b.mem.read 32 f.bytes.length = f.bytes) :
    ∃ mem it o, w.xm2qh date2Time (past b f.bytes.length) =
        { w with buf := { past b f.bytes.length with mem := mem }, item := it, outs := w.outs ++ [o] } ∧
      Shows o f.kind.frameType f.payload ∧
      ∀ n, mem.read (32 + f.bytes.length) n = b.mem.read (32 + f.bytes.length) n := by
  have hl := f.bytes_length
  have h4 := f.kind.four_le_headLen
  have ht : word32 (b.mem.read 32 4) 0 = f.kind.type := by
    rw [Mem.read_take b.mem 32 (k := f.bytes.length) (by omega), hb, f.bytes_take_four]
    exact word32_le32 f.kind.type_lt
  have hh : b.mem.read 32 f.kind.headLen = f.head := by
    rw [Mem.read_take b.mem 32 (k := f.bytes.length) (by omega), hb, f.bytes_take_head]
  have hp : b.mem.read (f.kind.headLen + 32) f.payload.length = f.payload := by
    rw [hl, Mem.read_add, MediaFrame.bytes] at hb
    rw [Nat.add_comm]
    exact (List.append_inj hb (by rw [Mem.read_length, f.head_length])).2
  obtain ⟨h, it', hn, hk, hlen⟩ := newHead_spec date2Time w.item f hm
  refine ⟨b.mem.write f.kind.headLen h.bytes, it',
    (b.mem.write f.kind.headLen h.bytes).read f.kind.headLen (h.len + 32).toNat, ?_, ?_, ?_⟩
  · simp only [xm2qh, past, ht, FrameKind.ofType_type, hh, hn]
  · rw [← hk]
    have hlt := f.bytes_lt hs
    exact shows_of_write hp hlen (by omega)
  · intro n
    apply Mem.read_write_of_disjoint
    rw [h.bytes_length]
    omega

@[simp] theorem deliver_sock (w : MediaWorld) (r : Bool × RecvBuf) : (w.deliver date2Time r).sock = w.sock := by
  unfold deliver xm2qh
  split
  · split
    · split <;> rfl
    · rfl
  · rfl

/-! ## One call -/

/-- Where a stream stands in its frames and packets: `fpre` is done, `ppre` has been received. -/
structure At (fs : List (MediaFrame size)) (ps : List Packet) (fpre frest : List (MediaFrame size))
    (ppre : List Packet) (w : MediaWorld) : Prop where
  frames : fs = fpre ++ frest
  packets : ps = ppre ++ w.sock
  outs : HandsOn MediaFrame.shown fpre w.outs
  rest : w.buf.move.held ++ cat Packet.data w.sock = cat MediaFrame.bytes frest
  /-- What is left over is a part of the last packet. -/
  left : 0 < w.buf.leftLen → ∃ pp p, ppre = pp ++ [p] ∧ w.buf.leftLen < p.data.length
  short : w.buf.leftLen = 0 → ∀ f fr, frest = f :: fr → w.buf.len < f.bytes.length

/-- A stream with at most `n` frames and packets to come. -/
def Going (fs : List (MediaFrame size)) (ps : List Packet) (w : MediaWorld) (n : ℕ) : Prop :=
  ∃ fpre frest ppre, At fs ps fpre frest ppre w ∧ frest.length + w.sock.length ≤ n

section
variable {date2Time} {fs fpre frest : List (MediaFrame size)} {ps ppre : List Packet}

theorem at_start {fs : List (MediaFrame size)} (mem : Mem) (leftBuf : ℕ) (item : SockItem)
    (hcut : cat Packet.data ps = cat MediaFrame.bytes fs) : At fs ps [] fs [] (start mem leftBuf item ps) where
  frames := rfl
  packets := rfl
  outs := handsOn_nil
  rest := hcut
  left := nofun
  short _ f _ _ := f.bytes_pos

/-- The frame in front is taken: it is handed on, or skipped. -/
theorem at_past (hs : size + 32 < 4294967296) {w : MediaWorld} {b : RecvBuf} {f : MediaFrame size} {fr : List (MediaFrame size)}
    (hf : fs = fpre ++ f :: fr) (hp : ps = ppre ++ w.sock) (ho : HandsOn MediaFrame.shown fpre w.outs)
    (hr : b.held ++ cat Packet.data w.sock = cat MediaFrame.bytes (f :: fr)) (hn : f.bytes.length ≤ b.len)
    (hl : f.bytes.length < b.len → ∃ pp p, ppre = pp ++ [p] ∧ b.len - f.bytes.length < p.data.length) :
    At fs ps (fpre ++ [f]) fr ppre (w.deliver date2Time (f.kind.media, past b f.bytes.length)) := by
  have hrest := RecvBuf.read_past hr hn
  have hframes : fs = fpre ++ [f] ++ fr := by rw [hf, List.append_assoc]; rfl
  cases hm : f.kind.media with
  | true =>
    obtain ⟨mem, it, o, hx, hsh, hread⟩ := xm2qh_past date2Time hs w hm (RecvBuf.read_front hr hn)
    rw [deliver, if_pos rfl, hx]
    refine ⟨hframes, hp, ho.snoc (MediaFrame.shown_of_media hm) hsh, ?_, ?_, ?_⟩
    · rw [RecvBuf.move_of_empty rfl]
      exact (congrArg (· ++ _) (hread _)).trans hrest
    · intro hpos
      exact hl (Nat.lt_of_sub_pos hpos)
    · intro _ g _ _
      exact g.bytes_pos
  | false =>
    rw [deliver, if_neg Bool.false_ne_true]
    refine ⟨hframes, hp, ho.skip (MediaFrame.shown_of_skipped hm), ?_, ?_, ?_⟩
    · rw [RecvBuf.move_of_empty rfl]
      exact hrest
    · intro hpos
      exact hl (Nat.lt_of_sub_pos hpos)
    · intro _ g _ _
      exact g.bytes_pos

/-- A packet goes behind what is held. -/
theorem recvBuf_held (hcut : cat Packet.data ps = cat MediaFrame.bytes fs) (hc : Clean fs ps) {b b' : RecvBuf}
    {p : Packet} {prest sock : List Packet} (hf : fs = fpre ++ frest) (hp : ps = ppre ++ p :: prest)
    (hr : b.held ++ cat Packet.data (p :: prest) = cat MediaFrame.bytes frest)
    (hshort : ∀ f fr, frest = f :: fr → b.len < f.bytes.length)
    (hb : recvBuf size b (p :: prest) = .ok (b', sock)) :
    sock = prest ∧ b'.leftLen = b.leftLen ∧ b'.held = b.held ++ p.data := by
  rw [recvBuf] at hb
  by_cases hd : p.data = []
  · rw [if_pos hd] at hb
    cases hb
    exact ⟨rfl, rfl, by simp [hd]⟩
  · rw [if_neg hd] at hb
    by_cases hz : p.data.length + b.len > size
    · rw [if_pos hz] at hb
      cases hb
    · rw [if_neg hz] at hb
      cases hk : peek p prest with
      | none => simp [hk] at hb
      | some t =>
        have hlen : (if StartsFresh t then { b with len := 0 } else b) = b := by
          by_cases ht : StartsFresh t
          · -- the packet starts a frame, so no part of one is held
            obtain ⟨gp, gr, hg, hgl⟩ := hc.fresh ppre p prest t hp hk ht
            have hpos := received_length hcut hf hp hr
            rw [RecvBuf.held_length] at hpos
            have h0 : 0 = b.len := by
              cases frest with
              | nil => rw [← RecvBuf.held_length, held_nil hr]
              | cons f fr =>
                by_contra hb0
                have hb1 : 0 < b.len := Nat.pos_of_ne_zero fun h => hb0 h.symm
                exact no_cut_inside (hg.symm.trans hf) hb1 (hshort f fr rfl) (hgl.trans hpos)
            rw [if_pos ht, h0]
          · rw [if_neg ht]
        simp only [hk, hlen] at hb
        cases hb
        exact ⟨rfl, rfl, b.append_held p.data⟩

/-- One look at the buffer, with all of its bytes in front. -/
theorem at_check (hs : size + 32 < 4294967296) {w : MediaWorld} {b : RecvBuf} (hf : fs = fpre ++ frest)
    (hp : ps = ppre ++ w.sock) (ho : HandsOn MediaFrame.shown fpre w.outs) (h0 : b.leftLen = 0)
    (hr : b.held ++ cat Packet.data w.sock = cat MediaFrame.bytes frest)
    (hl : ∀ f fr, frest = f :: fr → f.bytes.length < b.len →
      ∃ pp p, ppre = pp ++ [p] ∧ b.len - f.bytes.length < p.data.length) :
    Going fs ps (w.deliver date2Time (checkBuf b)) (frest.length + w.sock.length) := by
  have hstay : checkBuf b = (false, b) → (∀ f fr, frest = f :: fr → b.len < f.bytes.length) →
      At fs ps fpre frest ppre (w.deliver date2Time (checkBuf b)) := by
    intro he hshort
    rw [he, deliver, if_neg Bool.false_ne_true]
    refine ⟨hf, hp, ho, ?_, ?_, fun _ => hshort⟩
    · rw [RecvBuf.move_of_none h0]
      exact hr
    · intro hpos
      exact absurd h0 (Nat.ne_of_gt hpos)
  cases frest with
  | nil =>
    have hlen : b.len = 0 := by rw [← RecvBuf.held_length, held_nil hr]
    exact ⟨fpre, [], ppre, hstay (checkBuf_empty hlen) nofun, by simp⟩
  | cons f fr =>
    by_cases hn : f.bytes.length ≤ b.len
    · refine ⟨fpre ++ [f], fr, ppre, ?_, by simp⟩
      rw [checkBuf_whole hr hs hn]
      exact at_past hs hf hp ho hr hn (hl f fr rfl)
    · refine ⟨fpre, f :: fr, ppre, hstay (checkBuf_short hr hs (by omega)) ?_, by simp⟩
      intro g gr hg
      cases hg
      omega

theorem recvBuf_ne_wait (b : RecvBuf) (p : Packet) (prest : List Packet) : recvBuf size b (p :: prest) ≠ .error .wait := by
  rw [recvBuf]
  split
  · nofun
  · split
    · nofun
    · split <;> nofun

/-- A call from `tool_ptc_xm_recvBuf` on, with no whole frame held. -/
theorem at_fetch (hs : size + 32 < 4294967296) (hcut : cat Packet.data ps = cat MediaFrame.bytes fs) (hc : Clean fs ps)
    {w : MediaWorld} {b : RecvBuf} (hf : fs = fpre ++ frest) (hp : ps = ppre ++ w.sock)
    (ho : HandsOn MediaFrame.shown fpre w.outs) (h0 : b.leftLen = 0)
    (hr : b.held ++ cat Packet.data w.sock = cat MediaFrame.bytes frest)
    (hshort : ∀ f fr, frest = f :: fr → b.len < f.bytes.length) {n : ℕ} (hn : frest.length + w.sock.length ≤ n) :
    Poll.Progress (Going fs ps) (fun t => HandsOn MediaFrame.shown fs t.outs) n w (w.fetch date2Time size b) := by
  unfold fetch
  cases hsock : w.sock with
  | nil =>
    -- nothing more comes, so what is held would be all of the frames left
    cases frest with
    | nil =>
      rw [List.append_nil] at hf
      rw [hf]
      exact ho
    | cons f fr =>
      have hlen := congrArg List.length hr
      rw [hsock] at hlen
      simp only [List.length_append, RecvBuf.held_length, cat_nil, cat_cons, List.length_nil] at hlen
      have := hshort f fr rfl
      omega
  | cons p prest =>
    rw [hsock] at hp hr hn
    cases hb : recvBuf size b (p :: prest) with
    | error e =>
      cases e with
      | failed => trivial
      | wait => exact absurd hb (recvBuf_ne_wait b p prest)
    | ok r =>
      obtain ⟨b', sock⟩ := r
      obtain ⟨rfl, hl, hh⟩ := recvBuf_held hcut hc hf hp hr hshort hb
      have hlen : b'.len = b.len + p.data.length := by
        rw [← RecvBuf.held_length, hh, List.length_append, RecvBuf.held_length]
      have hps : ps = (ppre ++ [p]) ++ sock := by rw [hp, List.append_assoc]; rfl
      have hrest : b'.held ++ cat Packet.data sock = cat MediaFrame.bytes frest := by
        rw [hh, List.append_assoc, ← cat_cons]
        exact hr
      refine ⟨frest.length + sock.length, ?_, ?_⟩
      · rw [List.length_cons] at hn
        omega
      · apply at_check (w := { w with sock := sock }) hs hf hps ho (hl.trans h0) hrest
        intro f fr hfr _
        have := hshort f fr hfr
        exact ⟨ppre, p, rfl, by omega⟩

theorem at_step (hs : size + 32 < 4294967296) (hcut : cat Packet.data ps = cat MediaFrame.bytes fs) (hc : Clean fs ps)
    {w : MediaWorld} {n : ℕ} (h : Going fs ps w n) :
    Poll.Progress (Going fs ps) (fun t => HandsOn MediaFrame.shown fs t.outs) n w (w.recvRts date2Time size) := by
  obtain ⟨fpre, frest, ppre, h, hle⟩ := h
  have hr := h.rest
  have h0 := RecvBuf.move_leftLen w.buf
  unfold recvRts
  dsimp only
  cases frest with
  | nil =>
    have hlen : w.buf.move.len = 0 := by rw [← RecvBuf.held_length, held_nil hr]
    rw [checkBuf_empty hlen, if_neg Bool.false_ne_true]
    exact at_fetch hs hcut hc h.frames h.packets h.outs h0 hr nofun hle
  | cons f fr =>
    rw [List.length_cons] at hle
    by_cases hn : f.bytes.length ≤ w.buf.move.len
    · -- a frame held as a whole has been left over
      have hpos : 0 < w.buf.leftLen := by
        by_contra hz
        have hz' : w.buf.leftLen = 0 := Nat.eq_zero_of_not_pos hz
        have := h.short hz' f fr rfl
        rw [RecvBuf.move_of_none hz'] at hn
        omega
      have hlen := (RecvBuf.move_of_left hpos).1
      obtain ⟨pp, p, hpp, hlt⟩ := h.left hpos
      have hframes : fs = fpre ++ [f] ++ fr := by rw [h.frames, List.append_assoc]; rfl
      rw [checkBuf_whole hr hs hn]
      cases hm : f.kind.media with
      | true =>
        rw [if_pos rfl]
        have hat : At fs ps (fpre ++ [f]) fr ppre
            (w.deliver date2Time (f.kind.media, past w.buf.move f.bytes.length)) := by
          apply at_past hs h.frames h.packets h.outs hr hn
          intro _
          exact ⟨pp, p, hpp, by omega⟩
        rw [hm] at hat
        refine ⟨fr.length + w.sock.length, by omega, fpre ++ [f], fr, ppre, hat, ?_⟩
        exact Nat.le_of_eq (congrArg (fr.length + ·.length) (deliver_sock ..))
      | false =>
        rw [if_neg Bool.false_ne_true]
        have hpo := received_length hcut h.frames h.packets hr
        rw [RecvBuf.held_length, hpp, cat_snoc, List.length_append] at hpo
        have hps : ps = pp ++ p :: w.sock := by rw [h.packets, hpp, List.append_assoc]; rfl
        have hin := hc.inside pp p w.sock fpre f fr hps h.frames hm (by omega)
        rw [cat_snoc, cat_snoc, List.length_append, List.length_append] at hin
        have hall : w.buf.move.len - f.bytes.length = 0 := by omega
        have hrest := RecvBuf.read_past hr hn
        rw [hall] at hrest
        exact at_fetch (b := past w.buf.move f.bytes.length) hs hcut hc hframes h.packets
          (h.outs.skip (MediaFrame.shown_of_skipped hm)) hall hrest (fun g _ _ => g.bytes_pos) (by omega)
    · rw [checkBuf_short hr hs (by omega), if_neg Bool.false_ne_true]
      apply at_fetch hs hcut hc h.frames h.packets h.outs h0 hr _ hle
      intro g gr hg
      cases hg
      omega

end

/-- **Media frames arrive whole, once and in order**, however the stream is cut into packets that are
accepted, if no packet that starts inside a frame begins like a media frame and no skipped frame lies
strictly inside a packet. -/
theorem recvRts_exact (date2Time : FrameDate → UInt32) {size : ℕ} (hs : size + 32 < 4294967296)
    (fs : List (MediaFrame size)) (ps : List Packet) (hcut : cat Packet.data ps = cat MediaFrame.bytes fs)
    (hc : Clean fs ps) (mem : Mem) (leftBuf : ℕ) (item : SockItem)
    (hacc : Poll.Accepts (recvRts date2Time size) (start mem leftBuf item ps)) :
    ∃ t, Poll.Ends (recvRts date2Time size) (start mem leftBuf item ps) t ∧
      HandsOn MediaFrame.shown fs t.outs := by
  apply Poll.ends_of_progress (I := Going fs ps) (Q := fun _ => True)
  · intro w n h _
    exact at_step hs hcut hc h
  · exact ⟨[], fs, [], at_start mem leftBuf item hcut, Nat.le_refl _⟩
  · exact hacc
  · intro _
    trivial

/-! ## Streams that are cut well, and badly -/

/-- An empty buffer and a fresh socket. -/
def idle (ps : List Packet) : MediaWorld := start (fun _ => 0) 0 ⟨0, 0, 0, 0, 0, 0, 0⟩ ps

def recv : MediaWorld → Except Poll.Stop MediaWorld := recvRts (fun _ => 0) 511968

/-- A P frame whose payload looks like the start of an audio frame. -/
def pFrame : MediaFrame 511968 := ⟨.vp, [], [0, 0, 1, 0xFA], rfl, by decide, by decide⟩

def aFrame (x : UInt8) : MediaFrame 511968 :=
  ⟨.a, [0xE, 2], [x], rfl, (by decide : 1 < 65536), (by decide : 9 ≤ 511968)⟩

def infoFrame : MediaFrame 511968 := ⟨.info, [0, 0], [7], rfl, by decide, by decide⟩

/-- The audio frame is cut in its head; the info frame ends with its packet. -/
def cutTwice : List Packet :=
  [⟨1, 0, (aFrame 1).bytes.take 5⟩, ⟨1, 0, (aFrame 1).bytes.drop 5 ++ infoFrame.bytes⟩]

theorem clean_cutTwice : Clean [aFrame 1, infoFrame] cutTwice where
  fresh pp p pr t hp hk ht := by
    rcases pp with _ | ⟨q, _ | ⟨q', pp⟩⟩
    · exact ⟨[], _, rfl, rfl⟩
    · cases hp
      cases hk
      exact absurd ht (by decide)
    · simp [cutTwice] at hp
  inside pp p pr fp f fr hp hf hm _ := by
    rcases fp with _ | ⟨g, _ | ⟨g', fp⟩⟩
    · cases hf
      exact absurd hm (by decide)
    · cases hf
      rcases pp with _ | ⟨q, _ | ⟨q', pp⟩⟩
      · cases hp
        decide
      · cases hp
        decide
      · simp [cutTwice] at hp
    · simp at hf

theorem recvRts_exact_once :
    ∃ t, Poll.Ends recv (idle cutTwice) t ∧ HandsOn MediaFrame.shown [aFrame 1, infoFrame] t.outs := by
  have h : Poll.Ends recv (idle cutTwice) (Poll.calls recv 2 (idle cutTwice)) := ⟨2, rfl, rfl⟩
  exact recvRts_exact _ (by decide) _ _ rfl clean_cutTwice _ _ _ h.accepts_unique.1

/-- The P frame is cut where its payload begins. -/
def cutInside : List Packet := [⟨1, 0, pFrame.head⟩, ⟨1, 0, pFrame.payload⟩]

/-- An info frame between two audio frames in one packet. -/
def infoBetween : List Packet := [⟨1, 0, (aFrame 1).bytes ++ infoFrame.bytes ++ (aFrame 2).bytes⟩]

/-- All packets are taken, but the P frame does not come out of the first stream and the second audio
frame not out of the second. -/
theorem recvRts_drops :
    (cat Packet.data cutInside = cat MediaFrame.bytes [pFrame] ∧ Poll.Accepts recv (idle cutInside) ∧
      ¬ ∃ t, Poll.Ends recv (idle cutInside) t ∧ HandsOn MediaFrame.shown [pFrame] t.outs) ∧
    cat Packet.data infoBetween = cat MediaFrame.bytes [aFrame 1, infoFrame, aFrame 2] ∧
      Poll.Accepts recv (idle infoBetween) ∧
      ¬ ∃ t, Poll.Ends recv (idle infoBetween) t ∧
        HandsOn MediaFrame.shown [aFrame 1, infoFrame, aFrame 2] t.outs := by
  have h1 : Poll.Ends recv (idle cutInside) (Poll.calls recv 2 (idle cutInside)) := ⟨2, rfl, rfl⟩
  have h2 : Poll.Ends recv (idle infoBetween) (Poll.calls recv 1 (idle infoBetween)) := ⟨1, rfl, rfl⟩
  refine ⟨⟨rfl, h1.accepts_unique.1, h1.not_exists ?_⟩, rfl, h2.accepts_unique.1, h2.not_exists ?_⟩
  · intro h
    exact absurd h.length_eq (by decide : 0 ≠ 1)
  · intro h
    exact absurd h.length_eq (by decide : 1 ≠ 2)

end MediaWorld

end Xm

end SabApp
