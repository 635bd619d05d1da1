import SabApp.Stream3Sound

/-!
# Readers that fall behind

Audio is never refused by set_withDrop, so the writer may pass the reader. A
reader whose lag the 32-bit overrun test reports truly gets whole frames in the
order of writing (`reads_in_order`), and the stream's counters are the sums over
the frames it has not read as long as those sums fit in 32 bits (`accounted`).
-/

namespace SabApp

namespace Stream3

namespace World

/-- Every call of get_simple is exact; the other calls are free. -/
def GetOk (w : World) : Op → Prop
  | .get _ => GetExact w
  | _ => True

theorem inv_step {w : World} (h : Inv w) (op : Op) (hok : GetOk w op) : ∃ t, w.step op = some t ∧ Inv t := by
  cases op with
  | init pool size => exact ⟨_, rfl, start_inv pool size w.readPos⟩
  | initReadPos => exact ⟨_, rfl, inv_accepted (inv_caughtUp h) [] []⟩
  | noDrop f =>
    rcases noDrop_cases h f with ⟨_, hs⟩ | ⟨_, _, hs⟩ | ⟨_, _, t, ht, hs⟩
    · exact ⟨_, hs, inv_accepted h _ w.taken⟩
    · exact ⟨_, hs, h⟩
    · exact ⟨_, hs, inv_wrote h ht⟩
  | withDrop f usec =>
    rcases withDrop_cases h f usec with ⟨_, b, hs⟩ | ⟨_, _, t, ht, hs⟩
    · exact ⟨_, hs, inv_flag h b⟩
    · exact ⟨_, hs, inv_wrote h ht⟩
  | get data =>
    rcases get_cases h hok data with ⟨_, hs⟩ | hs | ⟨f, fs, t, r, _, hs, hi⟩
    · exact ⟨_, hs, h⟩
    · exact ⟨_, hs, inv_caughtUp h⟩
    · exact ⟨_, hs, hi⟩

/-! ## Long runs of audio -/

/-- An audio frame of `n + 32` bytes, all zero but the type. -/
def audio (n : Nat) : Frame where
  data := List.replicate 20 0 ++ 3 :: List.replicate (n + 11) 0
  head_le := by simp

theorem audio_length (n : Nat) : (audio n).data.length = n + 32 := by simp [audio]

theorem audio_type (n : Nat) : frameType (audio n).data = ptcFrameA := by
  unfold frameType audio
  rw [byteAt_append_right (by simp)]
  rfl

theorem audio_not_dropped (s : Stream3) (n : Nat) (usec : Int) : s.drops (audio n) usec = false := by
  simp [drops, isVideo, audio_type, ptcFrameA, ptcFrameP, ptcFrameI]

/-- `k` audio frames of one size, written one after the other. -/
theorem audio_run {n : Nat} (hn : n + 32 ≤ dataSize) (usec : Int) : ∀ (k : Nat) {w : World}, Inv w →
    ∃ t, exec step w (List.replicate k (.withDrop (audio n) usec)) = some t ∧ Inv t ∧
      t.stream.size = w.stream.size ∧ t.ready = w.ready ∧ t.readAddr = w.readAddr ∧ t.reads = w.reads ∧
      t.written = w.written ++ List.replicate k (audio n).data ∧
      t.unread = w.unread ++ List.replicate k (audio n).data ∧
      t.writeAddr = (fun a => (fmt w.stream.size).next a (n + 32))^[k] w.writeAddr
  | 0, w, h => ⟨w, rfl, h, rfl, rfl, rfl, rfl, by simp, by simp, rfl⟩
  | k + 1, w, h => by
    obtain ⟨hd, _⟩ | ⟨_, _, t, ht, hs⟩ := withDrop_cases h (audio n) usec
    · rw [audio_not_dropped, audio_length] at hd; simp at hd; omega
    · obtain ⟨u, hu, hi, h₁, h₂, h₃, h₄, h₅, h₆, h₇⟩ := audio_run hn usec k (inv_wrote h ht)
      refine ⟨u, by rw [List.replicate_succ, exec_cons, hs]; exact hu, hi, h₁.trans ht.size, h₂, h₃, h₄, ?_, ?_, ?_⟩
      · rw [h₅]; simp [wrote, List.replicate_succ]
      · rw [h₆]; simp [wrote, List.replicate_succ]
      · rw [h₇, Function.iterate_succ_apply]
        simp only [wrote, ht.size, audio_length]

/-! ## A reader 2^32 bytes behind -/

/-- A reader 2^32 and a few bytes behind, whose next head lies in a payload of zeros. -/
theorem get_zero {w : World} (h : Inv w) (hr : w.ready = true) (h₀ : 0 < w.ahead % 4294967296)
    (h₁ : w.ahead % 4294967296 ≤ w.stream.size.val) (hz : headLen (w.stream.pool.read w.readPos.offset headSize) = 0)
    (data : List UInt8) : ∃ t r, w.step (.get data) = some (w.took t r []) := by
  have hlt := offset_lt h hr
  have hskip : ¬ (0 = skipLen) := by decide
  simp only [step, getSimple]
  rw [if_neg (by omega), if_neg (pos_ne h hr h₀), if_neg (by rw [lag_eq h hr]; omega)]
  simp only [hz, if_neg hskip, Nat.not_lt_zero, if_false, Mem.read_zero]
  exact ⟨_, _, rfl⟩

def bigAudio : Frame := audio 1048528

def buffer : List UInt8 := List.replicate 1048576 0

/-- Where a ring of 4 MB goes on after a frame that takes 1 MB with its head. -/
def bigNext (a : Addr) : Addr := (fmt (clampSize 0)).next a (1048528 + 32)

theorem full_iff {a : Addr} : (fmt (clampSize 0)).Full a ↔ 3145696 < a.off := by
  have : (clampSize 0).val = 4194304 := rfl
  simp only [RingFormat.Full, fmt_size, fmt_hsize, fmt_maxLen, this, headSize, dataSize]; omega

theorem bigNext_stay (l : Nat) {o : Nat} (h : o ≤ 3145696) : bigNext ⟨l, o⟩ = ⟨l, o + 1048576⟩ := by
  have hsum : o + headSize + (1048528 + 32) = o + 1048576 := by unfold headSize; omega
  rw [bigNext, RingFormat.next_of_not_full (full_iff.not.mpr (Nat.not_lt.mpr h)), fmt_hsize, hsum]

theorem bigNext_wrap (l : Nat) {o : Nat} (h : 3145696 < o) : bigNext ⟨l, o⟩ = ⟨l + 1, 1048576⟩ := by
  rw [bigNext, RingFormat.next_of_full (full_iff.mpr h), fmt_hsize]
  rfl

theorem bigNext_three (l : Nat) {o : Nat} (h : o ≤ 1000000) :
    bigNext^[3] ⟨l, o⟩ = ⟨l, o + 1048576 + 1048576 + 1048576⟩ := by
  simp only [Function.iterate_succ_apply, Function.iterate_zero_apply]
  rw [bigNext_stay l (show o ≤ 3145696 by omega), bigNext_stay l (show o + 1048576 ≤ 3145696 by omega),
    bigNext_stay l (show o + 1048576 + 1048576 ≤ 3145696 by omega)]

theorem bigNext_lap (l : Nat) {o : Nat} (h : 3145696 < o) : bigNext^[3] ⟨l, o⟩ = ⟨l + 1, 3145728⟩ := by
  simp only [Function.iterate_succ_apply, Function.iterate_zero_apply]
  rw [bigNext_wrap l h, bigNext_stay (l + 1) (show 1048576 ≤ 3145696 by decide),
    bigNext_stay (l + 1) (show 1048576 + 1048576 ≤ 3145696 by decide)]

theorem bigNext_laps (l : Nat) : ∀ k, bigNext^[3 * k] ⟨l, 3145728⟩ = ⟨l + k, 3145728⟩
  | 0 => rfl
  | k + 1 => by
    rw [show 3 * (k + 1) = 3 + 3 * k by omega, Function.iterate_add_apply, bigNext_laps l k,
      bigNext_lap _ (show 3145696 < 3145728 by decide), Nat.add_assoc]

theorem bigNext_torn : bigNext^[3072] ⟨0, 48⟩ = ⟨1023, 3145728⟩ := by
  rw [show 3072 = 3 * 1022 + (3 + 3) by decide, Function.iterate_add_apply, Function.iterate_add_apply,
    bigNext_three 0 (show 48 ≤ 1000000 by decide), bigNext_lap 0 (by decide), bigNext_laps]

theorem read_zero_of {m : Mem} {a n : Nat} (h : ∀ i, a ≤ i → i < a + n → m i = 0) : m.read a n = List.replicate n 0 := by
  refine List.eq_replicate_iff.mpr ⟨Mem.read_length _ _ _, fun b hb => ?_⟩
  obtain ⟨i, hi, rfl⟩ := List.mem_map.mp hb
  have := List.mem_range.mp hi
  exact h _ (by omega) (by omega)

theorem audio_zero (n : Nat) {i : Nat} (h : 20 < i) : (audio n).data.getD i 0 = 0 := by
  unfold audio
  rw [List.getD_eq_getElem?_getD, List.getElem?_append_right (by simp; omega)]
  simp only [List.length_replicate]
  obtain ⟨k, hk⟩ : ∃ k, i - 20 = k + 1 := ⟨i - 21, by omega⟩
  rw [hk, List.getElem?_cons_succ, List.getElem?_replicate]
  split <;> rfl

/-- Bytes 48 to 64 of the pool, once a big frame lies at the start of the lap. -/
theorem put_big_zero (m : Mem) (l : Nat) :
    headLen (((fmt (clampSize 0)).put m ⟨l, 3145728⟩ bigAudio.data).read 48 headSize) = 0 := by
  have hp : (fmt (clampSize 0)).place ⟨l, 3145728⟩ = ⟨l + 1, 0⟩ := if_pos (full_iff.mpr (by simp only; omega))
  rw [read_zero_of fun i h₁ h₂ => ?_]
  · rfl
  · simp only [headSize] at h₂
    have hlen : bigAudio.data.length = 1048560 := audio_length 1048528
    simp only [RingFormat.put, hp, fmt_hsize, headSize, Mem.write, hlen]
    rw [if_pos ⟨by omega, by omega⟩]
    exact audio_zero _ (by omega)

/-- A stream of 4 MB with a reader set at its start. -/
def fresh : World :=
  let w := start (fun _ => 0) 0 ⟨0, 0⟩
  { w.caughtUp { w.stream with len := 0, count := 0 } w.stream.writePos with accepted := [], taken := [] }

theorem fresh_inv : Inv fresh := inv_accepted (inv_caughtUp (start_inv _ _ _)) [] []

theorem step_fresh : (start (fun _ => 0) 0 ⟨0, 0⟩).step .initReadPos = some fresh := rfl

theorem short_next : (fmt (clampSize 0)).next ⟨0, 0⟩ (0 + 32) = ⟨0, 48⟩ := by
  rw [RingFormat.next_of_not_full (full_iff.not.mpr (by simp)), fmt_hsize]; rfl

theorem short_write : ∃ w, step fresh (.withDrop (audio 0) 0) = some w ∧ Inv w ∧ w.stream.size = clampSize 0 ∧
    w.ready = true ∧ w.readAddr = ⟨0, 0⟩ ∧ w.writeAddr = ⟨0, 48⟩ ∧ w.ahead ≤ w.stream.size.val ∧
    w.unread = [(audio 0).data] ∧ w.written = [(audio 0).data] := by
  obtain ⟨w, hw, hi, hs, hr, ha, _, hwr, hu, hb⟩ := audio_run (show 0 + 32 ≤ dataSize by decide) 0 1 fresh_inv
  have hsz : w.stream.size = clampSize 0 := hs
  have hb' : w.writeAddr = ⟨0, 48⟩ := hb.trans short_next
  have ha' : w.readAddr = ⟨0, 0⟩ := ha
  refine ⟨w, (exec_singleton _ _).symm.trans hw, hi, hsz, hr, ha', hb', ?_, hu, hwr⟩
  unfold ahead
  rw [hb', ha', hsz]
  simp only [RingFormat.abs, Nat.zero_mul, Nat.zero_add]
  decide

/-- After one short frame, read at once, the reader stands 48 bytes into the ring. -/
theorem short_run : ∃ w, exec step fresh [.withDrop (audio 0) 0, .get buffer] = some w ∧ Inv w ∧
    w.stream.size = clampSize 0 ∧ w.ready = true ∧ w.readAddr = ⟨0, 48⟩ ∧ w.writeAddr = ⟨0, 48⟩ ∧
    w.written = [(audio 0).data] := by
  obtain ⟨w, hw, hi, hs, hr, ha, hb, hah, hu, hwr⟩ := short_write
  have hroom : (audio 0).data.length ≤ buffer.length := by rw [audio_length, buffer, List.length_replicate]; omega
  obtain ⟨t, r, hg, ht, hj⟩ := get_frame hi hr hah hu hroom
  refine ⟨_, ?_, hj, ht.trans hs, hr, ?_, hb, hwr⟩
  · rw [exec_cons, hw]; exact (exec_singleton _ _).trans (step_frame hg)
  · simp only [took, hs, ha, audio_length, short_next]

def tornRun : List Op :=
  .initReadPos :: [.withDrop (audio 0) 0, .get buffer] ++ (List.replicate 3072 (.withDrop bigAudio 0) ++
    [.withDrop bigAudio 0, .get buffer])

/-! ## Whole frames, in order -/

/-- The frames handed out are frames written, at strictly increasing places of the writing order. -/
def InOrder (w : World) : Prop := w.reads.Sublist w.written

theorem inOrder_of_inv {w : World} (h : Inv w) : InOrder w := by
  obtain ⟨done, hw, hr⟩ := h.order
  exact hr.trans (hw ▸ List.sublist_append_left _ _)

/-- **Torn reads.** While the overrun test is exact, a reader gets whole frames in order. -/
theorem reads_in_order (pool : Mem) (size : Nat) (r : Pos) (ops : List Op)
    (h : Meets step GetOk (start pool size r) ops) : Always step InOrder (start pool size r) ops :=
  always_of_meets (fun _ op hi hok => inv_step hi op hok) (fun _ => inOrder_of_inv) (start_inv pool size r) h

theorem reads_in_order_short :
    Always step InOrder (start (fun _ => 0) 0 ⟨0, 0⟩) [.initReadPos, .withDrop (audio 0) 0, .get buffer] := by
  refine reads_in_order _ _ _ _ ⟨trivial, fun t ht => ?_⟩
  cases ht
  obtain ⟨w, hw, _, _, hr, _, _, hah, _⟩ := short_write
  refine ⟨trivial, fun t ht => ⟨?_, fun _ _ => trivial⟩⟩
  obtain rfl : w = t := Option.some.inj (hw.symm.trans ht)
  exact ⟨hr, fun h => absurd h (by omega)⟩

/-- 1024 laps of audio while the reader waits inside what becomes a payload: the next read is torn. -/
theorem reads_torn : ¬ Always step InOrder (start (fun _ => 0) 0 ⟨0, 0⟩) tornRun := by
  intro h
  obtain ⟨w, hw, hi, hs, hr, ha, hb, hwr⟩ := short_run
  obtain ⟨x, hx, hj, hsx, hrx, hax, _, hwx, _, hbx⟩ := audio_run (show 1048528 + 32 ≤ dataSize by decide) 0 3072 hi
  have hbx' : x.writeAddr = ⟨1023, 3145728⟩ := by rw [hbx, hs, hb]; exact bigNext_torn
  have hsx' : x.stream.size = clampSize 0 := hsx.trans hs
  obtain ⟨hd, _⟩ | ⟨_, _, t, ht, hst⟩ := withDrop_cases hj bigAudio 0
  · rw [bigAudio, audio_not_dropped, audio_length] at hd; simp [dataSize] at hd
  have hk := inv_wrote hj ht
  have hnext : (fmt (clampSize 0)).next ⟨1023, 3145728⟩ bigAudio.data.length = ⟨1024, 1048576⟩ := by
    rw [bigAudio, audio_length]; exact bigNext_wrap 1023 (by decide)
  have hsz : (clampSize 0).val = 4194304 := rfl
  have hahead : (x.wrote t bigAudio).ahead % 4294967296 = 1048528 := by
    have hra : x.readAddr = ⟨0, 48⟩ := hax.trans ha
    simp only [ahead, wrote, ht.size, hsx', hbx', hnext, hra, RingFormat.abs, fmt_size, hsz]
  have hpos : (x.wrote t bigAudio).readPos.offset = 48 := by
    rw [((hk.reader (hrx.trans hr)).pos), show (x.wrote t bigAudio).readAddr = ⟨0, 48⟩ from hax.trans ha]; rfl
  have hz : headLen ((x.wrote t bigAudio).stream.pool.read (x.wrote t bigAudio).readPos.offset headSize) = 0 := by
    rw [hpos]
    simp only [wrote, ht.pool, hsx', hbx']
    exact put_big_zero x.stream.pool 1023
  have hle : (x.wrote t bigAudio).ahead % 4294967296 ≤ (x.wrote t bigAudio).stream.size.val := by
    rw [hahead, show (x.wrote t bigAudio).stream.size = clampSize 0 from ht.size.trans hsx', hsz]; omega
  obtain ⟨u, r, hu⟩ := get_zero hk (hrx.trans hr) (by rw [hahead]; decide) hle hz buffer
  have hlast : exec step x [.withDrop bigAudio 0, .get buffer] = some ((x.wrote t bigAudio).took u r []) := by
    rw [exec_cons, hst]; exact (exec_singleton _ _).trans hu
  have hrun : exec step (start (fun _ => 0) 0 ⟨0, 0⟩) tornRun = some ((x.wrote t bigAudio).took u r []) := by
    have hx' : exec step w (List.replicate 3072 (.withDrop bigAudio 0)) = some x := hx
    rw [tornRun, List.cons_append, exec_cons, step_fresh, Option.bind_some, exec_append_of hw, exec_append_of hx',
      hlast]
  obtain ⟨v, hv, hin⟩ := h tornRun (List.prefix_refl _)
  rw [hrun] at hv
  cases hv
  have hmem : [] ∈ x.written ++ [bigAudio.data] :=
    hin.subset (List.mem_append_right _ (List.mem_singleton_self _))
  have hlen : ∀ f ∈ x.written ++ [bigAudio.data], 32 ≤ f.length := by
    intro f hf
    rw [hwx, hwr] at hf
    simp only [List.mem_append, List.mem_singleton, List.mem_replicate] at hf
    rcases hf with (rfl | ⟨_, rfl⟩) | rfl <;> exact Frame.head_le _
  exact absurd (hlen [] hmem) (by decide)

/-! ## Accounting -/

/-- Frames stored keep the bytes not yet read below 2^32. -/
def AccountOk (w : World) : Op → Prop
  | .noDrop f =>
    f.data.length ≤ dataSize → w.stream.full = false → bytes w.unread + (f.data.length + headSize) < 4294967296
  | .withDrop f usec =>
    f.data.length ≤ dataSize → w.stream.drops f usec = false →
      bytes w.unread + (f.data.length + headSize) < 4294967296
  | .get _ => GetExact w
  | _ => True

structure Accounted (w : World) : Prop where
  len : w.stream.len = bytes w.unread
  count : w.stream.count = videos w.unread
  write : w.stream.writePos.offset + headSize ≤ w.stream.size.val
  read : w.ready = true → w.readPos.offset < w.stream.size.val

theorem accounted_of_inv {w : World} (h : Inv w) (hb : bytes w.unread < 4294967296) : Accounted w where
  len := by rw [h.len, u32_of_lt hb]
  count := by
    have := videos_le w.unread
    rw [h.count, i32_of_lt (by omega)]
  write := by rw [h.pos]; exact h.inLap
  read := offset_lt h

def AccountInv (w : World) : Prop := Inv w ∧ bytes w.unread < 4294967296

theorem account_step {w : World} (hi : AccountInv w) (op : Op) (hok : AccountOk w op) :
    ∃ t, w.step op = some t ∧ AccountInv t := by
  obtain ⟨h, hb⟩ := hi
  have hwrote : ∀ {f : Frame} {t : Stream3}, bytes w.unread + (f.data.length + headSize) < 4294967296 →
      bytes (w.wrote t f).unread < 4294967296 := fun {f t} hlt => by
    simpa only [wrote, bytes_append, bytes_cons, bytes_nil, Nat.add_zero] using hlt
  cases op with
  | init pool size => exact ⟨_, rfl, start_inv pool size w.readPos, by simp [start]⟩
  | initReadPos => exact ⟨_, rfl, inv_accepted (inv_caughtUp h) [] [], by simp [caughtUp]⟩
  | noDrop f =>
    rcases noDrop_cases h f with ⟨_, hs⟩ | ⟨_, _, hs⟩ | ⟨hf, hfull, t, ht, hs⟩
    · exact ⟨_, hs, inv_accepted h _ w.taken, hb⟩
    · exact ⟨_, hs, h, hb⟩
    · exact ⟨_, hs, inv_wrote h ht, hwrote (hok hf hfull)⟩
  | withDrop f usec =>
    rcases withDrop_cases h f usec with ⟨_, b, hs⟩ | ⟨hf, hd, t, ht, hs⟩
    · exact ⟨_, hs, inv_flag h b, hb⟩
    · exact ⟨_, hs, inv_wrote h ht, hwrote (hok hf hd)⟩
  | get data =>
    rcases get_cases h hok data with ⟨_, hs⟩ | hs | ⟨f, fs, t, r, hu, hs, hi⟩
    · exact ⟨_, hs, h, hb⟩
    · exact ⟨_, hs, inv_caughtUp h, by simp [caughtUp]⟩
    · refine ⟨_, hs, hi, ?_⟩
      rw [hu, bytes_cons] at hb
      simp only [took, hu, List.tail_cons]; omega

/-- **Accounting.** In a run whose unread bytes stay below 2^32 and whose reads are exact, no
call aborts, and `len` and `count` are the sums over the frames not yet read. -/
theorem accounted (pool : Mem) (size : Nat) (r : Pos) (ops : List Op)
    (h : Meets step AccountOk (start pool size r) ops) : Always step Accounted (start pool size r) ops :=
  always_of_meets (fun _ op hi hok => account_step hi op hok) (fun _ (hi : AccountInv _) => accounted_of_inv hi.1 hi.2)
    ⟨start_inv pool size r, by simp [start]⟩ h

theorem accounted_short :
    Always step Accounted (start (fun _ => 0) 0 ⟨0, 0⟩) [.initReadPos, .withDrop (audio 0) 0, .get buffer] := by
  refine accounted _ _ _ _ ⟨trivial, fun t ht => ?_⟩
  cases ht
  obtain ⟨w, hw, _, _, hr, _, _, hah, _⟩ := short_write
  refine ⟨fun _ _ => by rw [audio_length]; decide, fun t ht => ⟨?_, fun _ _ => trivial⟩⟩
  obtain rfl : w = t := Option.some.inj (hw.symm.trans ht)
  exact ⟨hr, fun h => absurd h (by omega)⟩

theorem bytes_replicate (k : Nat) (f : List UInt8) : bytes (List.replicate k f) = k * (f.length + headSize) := by
  simp [bytes]

/-- 4096 unread frames of 1 MB with their heads make `len` zero again. -/
theorem accounting_wraps : ¬ Always step Accounted (start (fun _ => 0) 0 ⟨0, 0⟩)
    (.initReadPos :: List.replicate 4096 (.withDrop bigAudio 0)) := by
  intro h
  obtain ⟨w, hw, hi, _, _, _, _, _, hu, _⟩ := audio_run (show 1048528 + 32 ≤ dataSize by decide) 0 4096 fresh_inv
  obtain ⟨v, hv, hacc⟩ := h _ (List.prefix_refl _)
  rw [exec_cons, step_fresh, Option.bind_some] at hv
  obtain rfl : w = v := Option.some.inj (hw.symm.trans hv)
  have hb : bytes w.unread = 4294967296 := by
    rw [hu, show fresh.unread = [] from rfl, List.nil_append, bytes_replicate, audio_length]; rfl
  have hlen := hi.len
  rw [hacc.len, hb] at hlen
  exact absurd hlen (by decide)

end World

end Stream3

end SabApp
