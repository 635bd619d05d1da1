import SabApp.Framing
import SabApp.HyPlayback

/-!
# What reaches the caller of `tool_ptc_hy_recvPbs`

As long as a slice that fills the buffer after it has been taken looks nowhere like the head of a
slice, the slices handed on are the audio and video slices sent.
-/

namespace SabApp

namespace Hy

/-! ## Slices as they are sent -/

namespace SliceKind

@[simp] theorem ofCode_code (k : SliceKind) : ofCode k.code = some k := by cases k <;> rfl

theorem headLen_ge (k : SliceKind) : 28 ≤ k.headLen := by cases k <;> decide

end SliceKind

namespace Slice
variable {size : ℕ} (f : Slice size)

theorem head_length : f.head.length = f.kind.headLen := by
  simp only [head, List.length_append, List.length_cons, le32_length, f.sub_len]
  have := f.rest_len
  omega

theorem bytes_length : f.bytes.length = f.length := by
  rw [bytes, List.length_append, List.length_append, f.head_length, f.tail_len, length, Nat.add_assoc]

theorem length_ge : 36 ≤ f.bytes.length := by
  have := f.kind.headLen_ge
  rw [f.bytes_length, length]
  omega

theorem length_lt (hs : size + 32 < 4294967296) : f.bytes.length + 32 < 4294967296 := by
  have := f.fits
  rw [f.bytes_length, length]
  omega

theorem bytes_take_head : f.bytes.take f.kind.headLen = f.head := by
  rw [bytes, List.take_left' f.head_length]

theorem bytes_take_four : f.bytes.take 4 = le32 avHead := by
  simp only [bytes, head, List.append_assoc]
  rw [List.take_left' (le32_length _)]

/-- The head up to the length. -/
theorem word32_front (hs : size + 32 < 4294967296) :
    word32 (le32 avHead ++ (f.kind.code :: f.sub) ++ le32 f.seq.toNat ++ le32 f.length) 12 = f.length := by
  have hb : (le32 avHead ++ (f.kind.code :: f.sub) ++ le32 f.seq.toNat).length = 12 := by
    simp [f.sub_len]
  have hlt := f.length_lt hs
  rw [f.bytes_length] at hlt
  rw [word32_append_right (Nat.le_of_eq hb), hb]
  exact word32_le32 (by omega)

theorem head_length_field (hs : size + 32 < 4294967296) : word32 f.head 12 = f.length := by
  rw [head, word32_append_left (by simp [f.sub_len]), f.word32_front hs]

theorem bytes_length_field (hs : size + 32 < 4294967296) : word32 (f.bytes.take 16) 12 = f.bytes.length := by
  have ht : f.bytes.take 16 = le32 avHead ++ (f.kind.code :: f.sub) ++ le32 f.seq.toNat ++ le32 f.length := by
    rw [bytes, head, List.append_assoc, List.take_left' (by simp [f.sub_len])]
  rw [ht, f.word32_front hs, f.bytes_length]

theorem shown_of_media {f : Slice size} (h : f.kind.media = true) : f.shown = some (f.kind.frameType, f.payload) := by
  rw [shown, h, if_pos rfl]

theorem shown_of_skipped {f : Slice size} (h : f.kind.media = false) : f.shown = none := by
  rw [shown, h, if_neg Bool.false_ne_true]

end Slice

variable {size : ℕ}

/-! ## The buffer -/

/-- The buffer after the slice in front has been found. -/
def beside (b : RecvBuf) (n : ℕ) : RecvBuf := { b with leftBuf := 32 + n, leftLen := b.len - n }

section
variable {b : RecvBuf} {f : Slice size} {fs : List (Slice size)} {more : List UInt8}
variable (hr : b.held ++ more = cat Slice.bytes (f :: fs))
include hr

theorem magic_of_held (hn : 24 ≤ b.len) : magicAt b.mem 32 = true := by
  have hl := f.length_ge
  rw [magicAt, RecvBuf.read_of_held hr (by omega) (by omega), f.bytes_take_four]
  decide

theorem length_of_held (hs : size + 32 < 4294967296) (hn : 24 ≤ b.len) :
    word32 (b.mem.read 32 16) 12 = f.bytes.length := by
  have hl := f.length_ge
  rw [RecvBuf.read_of_held hr (by omega) (by omega), f.bytes_length_field hs]

/-- A slice not yet held as a whole is left alone. -/
theorem checkPbsBuf_short (hs : size + 32 < 4294967296) (hn : b.len < f.bytes.length) :
    checkPbsBuf b = (false, b) := by
  unfold checkPbsBuf
  by_cases h : b.len < 24
  · rw [if_pos h]
  · rw [if_neg h, adjust, if_pos (magic_of_held hr (by omega))]
    dsimp only
    rw [length_of_held hr hs (by omega), if_pos hn]

theorem checkPbsBuf_whole (hs : size + 32 < 4294967296) (hn : f.bytes.length ≤ b.len) :
    checkPbsBuf b = (true, beside b f.bytes.length) := by
  have hl := f.length_ge
  rw [checkPbsBuf, if_neg (by omega), adjust, if_pos (magic_of_held hr (by omega))]
  dsimp only
  rw [length_of_held hr hs (by omega), if_neg (by omega)]
  rfl

end

theorem checkPbsBuf_empty {b : RecvBuf} (h : b.len = 0) : checkPbsBuf b = (false, b) := by
  rw [checkPbsBuf, if_pos (by omega)]

/-- Bytes without a head in them are thrown away. -/
theorem checkPbsBuf_quiet {b : RecvBuf} (hn : 24 ≤ b.len) (h : findMagic b = none) :
    checkPbsBuf b = (false, { b with len := 0 }) := by
  have h0 : magicAt b.mem 32 ≠ true := by
    have hall := List.find?_eq_none.mp h
    exact hall 0 (List.mem_range.mpr (by omega))
  rw [checkPbsBuf, if_neg (by omega), adjust, if_neg h0, h]

theorem recvPbsBuf_ne_wait (b : RecvBuf) (p : List UInt8) (ps : List (List UInt8)) :
    recvPbsBuf size b (p :: ps) ≠ .error .wait := by
  rw [recvPbsBuf]
  split
  · nofun
  · split <;> nofun

/-- A message goes behind what is held. -/
theorem recvPbsBuf_held {b b' : RecvBuf} {p : List UInt8} {ps sock : List (List UInt8)}
    (h : recvPbsBuf size b (p :: ps) = .ok (b', sock)) :
    sock = ps ∧ b'.leftLen = b.leftLen ∧ b'.held = b.held ++ p := by
  rw [recvPbsBuf] at h
  by_cases hp : p = []
  · rw [if_pos hp] at h
    cases h
    exact ⟨rfl, rfl, by rw [hp, List.append_nil]⟩
  · rw [if_neg hp] at h
    by_cases hz : p.length + b.len > size
    · rw [if_pos hz] at h
      cases h
    · rw [if_neg hz] at h
      cases h
      exact ⟨rfl, rfl, b.append_held p⟩

/-- The length of the payload is right if the length field has room for head and tail. -/
theorem payload_len {n hl : ℕ} (hn : n < 4294967296) (hle : hl + 8 ≤ n) :
    (UInt32.ofNat n - 8 - UInt32.ofNat hl).toNat = n - 8 - hl := by
  have hn' : (UInt32.ofNat n).toNat = n := UInt32.toNat_ofNat_of_lt' hn
  have hl' : (UInt32.ofNat hl).toNat = hl := UInt32.toNat_ofNat_of_lt' (by
    show hl < 4294967296
    omega)
  have h8 : (UInt32.ofNat n - 8).toNat = n - 8 := by
    rw [UInt32.toNat_sub_of_le _ _ (by rw [UInt32.le_iff_toNat_le, hn']; exact Nat.le_trans (Nat.le_add_left 8 hl) hle), hn']
    rfl
  rw [UInt32.toNat_sub_of_le _ _ (by rw [UInt32.le_iff_toNat_le, h8, hl']; omega), h8, hl']

namespace PbsWorld
variable (date2Time : FrameDate → UInt32)

/-! ## A slice is handed on -/

/-- A slice's new head: the kind and the length are the slice's. -/
theorem newHead_spec (hs : size + 32 < 4294967296) (it : SockItem) (f : Slice size) (hm : f.kind.media = true) :
    ∃ h it', newHead date2Time it f.kind f.head = some (h, it') ∧ h.frameType = f.kind.frameType ∧
      h.len.toNat = f.payload.length := by
  have hlt := f.length_lt hs
  rw [f.bytes_length, Slice.length] at hlt
  have hlen : (UInt32.ofNat (word32 f.head 12) - 8 - UInt32.ofNat f.kind.headLen).toNat = f.payload.length := by
    have hnlt : f.kind.headLen + f.payload.length + 8 < 4294967296 := by omega
    rw [f.head_length_field hs, Slice.length, payload_len hnlt (by omega), Nat.add_sub_cancel, Nat.add_sub_cancel_left]
  cases hk : f.kind with
  | i | p | a =>
    rw [hk] at hlen
    exact ⟨_, _, rfl, rfl, hlen⟩
  | t => simp [hk, SliceKind.media] at hm

/-- Where a stream stands in its slices: `fpre` is done. -/
structure At (fs fpre frest : List (Slice size)) (w : PbsWorld) : Prop where
  slices : fs = fpre ++ frest
  outs : HandsOn Slice.shown fpre w.outs
  rest : (if w.spent then [] else w.buf.move.held) ++ cat id w.sock = cat Slice.bytes frest
  /-- A slice that has been taken and fills the buffer is still held. -/
  spent : w.spent = true → w.buf.leftLen = 0 ∧ 24 ≤ w.buf.len

/-- A stream with at most `n` slices and messages to come. -/
def Going (fs : List (Slice size)) (w : PbsWorld) (n : ℕ) : Prop :=
  ∃ fpre frest, At fs fpre frest w ∧ frest.length + w.sock.length ≤ n

/-- The slice in front is handed on, or skipped; what lies behind it stays. -/
theorem hy2qh_beside (hs : size + 32 < 4294967296) (w : PbsWorld) {b : RecvBuf} {f : Slice size}
    (hb : b.mem.read 32 f.bytes.length = f.bytes) {fpre : List (Slice size)}
    (ho : HandsOn Slice.shown fpre w.outs) :
    ∃ mem it outs, w.hy2qh date2Time (beside b f.bytes.length) =
        .ok { w with buf := { beside b f.bytes.length with mem := mem }, item := it, outs := outs } ∧
      HandsOn Slice.shown (fpre ++ [f]) outs ∧
      ∀ n, mem.read (32 + f.bytes.length) n = b.mem.read (32 + f.bytes.length) n := by
  have hl : f.bytes.length = f.kind.headLen + (f.payload.length + 8) := by
    rw [f.bytes_length, Slice.length, Nat.add_assoc]
  have hge := f.length_ge
  have hlt := f.length_lt hs
  have ht : b.mem 36 = f.kind.code := by
    have hget := Mem.getElem?_read b.mem 32 (by omega : 4 < f.bytes.length)
    rw [hb] at hget
    exact (Option.some.inj hget).symm
  have hh : b.mem.read 32 f.kind.headLen = f.head := by
    rw [Mem.read_take b.mem 32 (k := f.bytes.length) (by omega), hb, f.bytes_take_head]
  have hp : b.mem.read (f.kind.headLen + 32) f.payload.length = f.payload := by
    rw [hl, Mem.read_add, Slice.bytes] at hb
    have htail := (List.append_inj hb (by rw [Mem.read_length, f.head_length])).2
    rw [Mem.read_add] at htail
    rw [Nat.add_comm]
    exact (List.append_inj htail (Mem.read_length ..)).1
  cases hm : f.kind.media with
  | true =>
    obtain ⟨h, it', hn, hk, hlen⟩ := newHead_spec date2Time hs w.item f hm
    refine ⟨b.mem.write f.kind.headLen h.bytes, it',
      w.outs ++ [(b.mem.write f.kind.headLen h.bytes).read f.kind.headLen (h.len + 32).toNat], ?_, ?_, ?_⟩
    · simp only [hy2qh, beside, ht, SliceKind.ofCode_code, hh, hn]
    · apply ho.snoc (Slice.shown_of_media hm)
      rw [← hk]
      exact shows_of_write hp hlen (by omega)
    · intro n
      apply Mem.read_write_of_disjoint
      rw [h.bytes_length]
      omega
  | false =>
    have hkt : f.kind = .t := by
      cases hk : f.kind <;> simp [hk, SliceKind.media] at hm
      rfl
    refine ⟨b.mem, w.item, w.outs, ?_, ho.skip (Slice.shown_of_skipped hm), fun _ => rfl⟩
    simp only [hy2qh, beside, ht, hkt, SliceKind.ofCode_code]
    rfl

/-! ## One call -/

section
variable {date2Time} {fs fpre frest : List (Slice size)}

theorem at_start {fs : List (Slice size)} {ps : List (List UInt8)} (mem : Mem) (leftBuf : ℕ) (item : SockItem)
    (hcut : cat id ps = cat Slice.bytes fs) : At fs [] fs (start mem leftBuf item ps) where
  slices := rfl
  outs := handsOn_nil
  rest := hcut
  spent := nofun

theorem at_deliver (hs : size + 32 < 4294967296) {w : PbsWorld} {b : RecvBuf} {f : Slice size}
    {fr : List (Slice size)} (hf : fs = fpre ++ f :: fr) (ho : HandsOn Slice.shown fpre w.outs)
    (hr : b.held ++ cat id w.sock = cat Slice.bytes (f :: fr)) (hn : f.bytes.length ≤ b.len) :
    ∃ t, w.deliver date2Time (beside b f.bytes.length) = .ok t ∧ At fs (fpre ++ [f]) fr t ∧ t.sock = w.sock := by
  have hrest := RecvBuf.read_past hr hn
  have hge := f.length_ge
  obtain ⟨mem, it, outs, hd, hout, hread⟩ := hy2qh_beside date2Time hs
    { w with spent := (beside b f.bytes.length).leftLen = 0 } (RecvBuf.read_front hr hn) ho
  refine ⟨_, hd, ⟨by rw [hf, List.append_assoc]; rfl, hout, ?_, ?_⟩, rfl⟩
  · by_cases hz : b.len - f.bytes.length = 0
    · rw [hz] at hrest
      simpa [beside, hz] using hrest
    · have hmove := RecvBuf.move_of_left (b := { beside b f.bytes.length with mem := mem }) (Nat.pos_of_ne_zero hz)
      refine (congrArg (· ++ _) (if_neg (mt of_decide_eq_true hz))).trans ?_
      rw [hmove.2]
      exact (congrArg (· ++ _) (hread _)).trans hrest
  · intro hsp
    exact ⟨of_decide_eq_true hsp, Nat.le_trans (by omega) hn⟩

/-- A call from `tool_ptc_hy_recvPbsBuf` on, with no whole slice held. -/
theorem at_fetch (hs : size + 32 < 4294967296) {w : PbsWorld} {b : RecvBuf} (hf : fs = fpre ++ frest)
    (ho : HandsOn Slice.shown fpre w.outs) (h0 : b.leftLen = 0)
    (hr : b.held ++ cat id w.sock = cat Slice.bytes frest)
    (hshort : ∀ f fr, frest = f :: fr → b.len < f.bytes.length) {n : ℕ} (hn : frest.length + w.sock.length ≤ n) :
    Poll.Progress (Going fs) (fun t => HandsOn Slice.shown fs t.outs) n w (w.fetch date2Time size b) := by
  unfold fetch
  cases hsock : w.sock with
  | nil =>
    -- nothing more comes, so what is held would be all of the slices left
    cases frest with
    | nil =>
      rw [List.append_nil] at hf
      rw [hf]
      exact ho
    | cons f fr =>
      have hlen := congrArg List.length hr
      rw [hsock] at hlen
      simp only [List.length_append, RecvBuf.held_length, cat_nil, cat_cons, List.length_nil] at hlen
      have := hshort f fr rfl
      omega
  | cons p prest =>
    rw [hsock] at hr hn
    rw [List.length_cons] at hn
    cases hb : recvPbsBuf size b (p :: prest) with
    | error e =>
      cases e with
      | failed => trivial
      | wait => exact absurd hb (recvPbsBuf_ne_wait b p prest)
    | ok r =>
      obtain ⟨b', sock⟩ := r
      obtain ⟨rfl, hl, hh⟩ := recvPbsBuf_held hb
      have hrest : b'.held ++ cat id sock = cat Slice.bytes frest := by
        rw [hh, List.append_assoc]
        exact hr
      have hstay : checkPbsBuf b' = (false, b') → Poll.Progress (Going fs) (fun t => HandsOn Slice.shown fs t.outs) n w
          (if (checkPbsBuf b').1 then { w with sock := sock }.deliver date2Time (checkPbsBuf b').2
          else .ok { w with sock := sock, buf := (checkPbsBuf b').2, spent := false }) := by
        intro he
        rw [he, if_neg Bool.false_ne_true]
        refine ⟨frest.length + sock.length, by omega, fpre, frest, ⟨hf, ho, ?_, nofun⟩, Nat.le_refl _⟩
        rw [if_neg Bool.false_ne_true, RecvBuf.move_of_none (hl.trans h0)]
        exact hrest
      cases frest with
      | nil => exact hstay (checkPbsBuf_empty (by rw [← RecvBuf.held_length, held_nil hrest]))
      | cons f fr =>
        by_cases hlen : f.bytes.length ≤ b'.len
        · obtain ⟨t, ht, hat, hts⟩ := at_deliver (w := { w with sock := sock }) hs hf ho hrest hlen
          dsimp only
          rw [checkPbsBuf_whole hrest hs hlen, if_pos rfl, ht]
          refine ⟨fr.length + sock.length, ?_, fpre ++ [f], fr, hat, ?_⟩
          · rw [List.length_cons] at hn
            omega
          · exact Nat.le_of_eq (congrArg (fr.length + ·.length) hts)
        · exact hstay (checkPbsBuf_short hrest hs (by omega))

theorem at_step (hs : size + 32 < 4294967296) {w : PbsWorld} {n : ℕ} (h : Going fs w n) (hq : w.Quiet) :
    Poll.Progress (Going fs) (fun t => HandsOn Slice.shown fs t.outs) n w (w.recvPbs date2Time size) := by
  obtain ⟨fpre, frest, h, hle⟩ := h
  have hr := h.rest
  unfold recvPbs
  dsimp only
  by_cases hsp : w.spent = true
  · -- the slice taken last is thrown away
    obtain ⟨hl, hlen⟩ := h.spent hsp
    rw [if_pos hsp] at hr
    rw [RecvBuf.move_of_none hl, checkPbsBuf_quiet hlen (hq hsp), if_neg Bool.false_ne_true]
    apply at_fetch (b := { w.buf with len := 0 }) hs h.slices h.outs hl hr _ hle
    intro f _ _
    exact Nat.lt_of_lt_of_le (by decide : 0 < 36) f.length_ge
  · rw [if_neg hsp] at hr
    have h0 := RecvBuf.move_leftLen w.buf
    cases frest with
    | nil =>
      rw [checkPbsBuf_empty (by rw [← RecvBuf.held_length, held_nil hr]), if_neg Bool.false_ne_true]
      exact at_fetch hs h.slices h.outs h0 hr nofun hle
    | cons f fr =>
      by_cases hn : f.bytes.length ≤ w.buf.move.len
      · obtain ⟨t, ht, hat, hts⟩ := at_deliver (w := w) hs h.slices h.outs hr hn
        rw [checkPbsBuf_whole hr hs hn, if_pos rfl, ht]
        refine ⟨fr.length + w.sock.length, ?_, fpre ++ [f], fr, hat, ?_⟩
        · rw [List.length_cons] at hle
          omega
        · exact Nat.le_of_eq (congrArg (fr.length + ·.length) hts)
      · rw [checkPbsBuf_short hr hs (by omega), if_neg Bool.false_ne_true]
        apply at_fetch hs h.slices h.outs h0 hr _ hle
        intro g gr hg
        cases hg
        omega

end

/-- **Audio and video slices arrive whole, once and in order**, however they are cut into messages that
are accepted, if a slice that fills the buffer after it has been taken looks nowhere like the head of
a slice. -/
theorem recvPbs_exact (date2Time : FrameDate → UInt32) {size : ℕ} (hs : size + 32 < 4294967296)
    (fs : List (Slice size)) (ps : List (List UInt8)) (hcut : cat id ps = cat Slice.bytes fs) (mem : Mem)
    (leftBuf : ℕ) (item : SockItem) (hacc : Poll.Accepts (recvPbs date2Time size) (start mem leftBuf item ps))
    (hq : ∀ k, Quiet (Poll.calls (recvPbs date2Time size) k (start mem leftBuf item ps))) :
    ∃ t, Poll.Ends (recvPbs date2Time size) (start mem leftBuf item ps) t ∧ HandsOn Slice.shown fs t.outs := by
  apply Poll.ends_of_progress (I := Going fs) (Q := Quiet)
  · intro w n h hw
    exact at_step hs h hw
  · exact ⟨[], fs, at_start mem leftBuf item hcut, Nat.le_refl _⟩
  · exact hacc
  · exact hq

/-! ## Streams that are cut well, and badly -/

/-- An empty buffer and a fresh socket. -/
def idle (ps : List (List UInt8)) : PbsWorld := start (fun _ => 0) 0 ⟨0, 0, 0, 0, 0, 0, 0⟩ ps

def recv : PbsWorld → Except Poll.Stop PbsWorld := recvPbs (fun _ => 0) 511968

def noTail : List UInt8 := [0, 0, 0, 0, 0, 0, 0, 0]

/-- Slices of one byte, with sequence number 1000. -/
def iSlice : Slice 511968 := ⟨.i, [0, 0, 0], 1000, List.replicate 24 0, [7], noTail, rfl, rfl, rfl, by decide⟩

def pSlice : Slice 511968 := ⟨.p, [0, 0, 0], 1000, List.replicate 16 0, [8], noTail, rfl, rfl, rfl, by decide⟩

def aSlice : Slice 511968 := ⟨.a, [0, 0, 0], 1000, List.replicate 12 0, [9], noTail, rfl, rfl, rfl, by decide⟩

/-- A P slice in one message and an audio slice in the next. -/
def pThenA : List (List UInt8) := [pSlice.bytes, aSlice.bytes]

theorem recvPbs_exact_once :
    ∃ t, Poll.Ends recv (idle pThenA) t ∧ HandsOn Slice.shown [pSlice, aSlice] t.outs := by
  have h2 : recv (Poll.calls recv 2 (idle pThenA)) = .error .wait := rfl
  have h : Poll.Ends recv (idle pThenA) (Poll.calls recv 2 (idle pThenA)) := ⟨2, rfl, h2⟩
  refine recvPbs_exact _ (by decide) _ _ rfl _ _ _ h.accepts_unique.1 ?_
  refine Poll.forall_calls (Q := Quiet) (f := recv) (n := 2) h2 fun k hk => ?_
  match k, hk with
  | 0, _ => exact nofun
  | 1, _ => exact fun _ => rfl
  | 2, _ => exact fun _ => rfl

/-- An I slice in one message and a P slice in the next. -/
def iThenP : List (List UInt8) := [iSlice.bytes, pSlice.bytes]

/-- All messages are taken, but the P slice does not come out: the I slice taken before it is still
held, with its sequence number where its length was. -/
theorem recvPbs_stuck :
    cat id iThenP = cat Slice.bytes [iSlice, pSlice] ∧ Poll.Accepts recv (idle iThenP) ∧
      ¬ ∃ t, Poll.Ends recv (idle iThenP) t ∧ HandsOn Slice.shown [iSlice, pSlice] t.outs := by
  have h : Poll.Ends recv (idle iThenP) (Poll.calls recv 2 (idle iThenP)) := ⟨2, rfl, rfl⟩
  refine ⟨rfl, h.accepts_unique.1, h.not_exists ?_⟩
  intro ho
  exact absurd ho.length_eq (by decide : 1 ≠ 2)

end PbsWorld

end Hy

end SabApp
