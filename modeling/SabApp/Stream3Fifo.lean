import SabApp.Stream3Lap

/-!
# The no-drop ring as a FIFO

One writer in set_noDrop, one reader with a large enough buffer. The space test
counts the bytes of the frames held, but neither their heads nor the unused end
of a lap that the writer skips; a frame that ends more than one ring after the
reader overwrites the oldest frame or the mark before it. The ring is a FIFO in
every state of a run exactly when no write does that (`noDrop_fifo_iff`).
-/

namespace SabApp

namespace Stream3

inductive FifoOp where
  | write (f : Frame) (h : f.data.length ≤ dataSize)
  | read (data : List UInt8) (h : dataSize ≤ data.length)

def FifoOp.op : FifoOp → Op
  | .write f _ => .noDrop f
  | .read data _ => .get data

namespace World

def fifoStep (w : World) (a : FifoOp) : Option World := w.step a.op

/-- What at most `n` more calls of get_simple hand out. -/
def drain (data : List UInt8) : Nat → World → List (List UInt8)
  | 0, _ => []
  | n + 1, w =>
    match w.stream.getSimple w.readPos data with
    | some (t, r, .frame bs) => bs :: drain data n (w.took t r bs)
    | _ => []

/-- The frames handed out, and those a reader still gets, are the frames whose write returned 0, in
order; those not yet read lie whole in the pool. -/
def Fifo (w : World) : Prop :=
  (∀ data : List UInt8, dataSize ≤ data.length →
    w.taken ++ drain data (w.accepted.length + 1) w = w.accepted) ∧
  (fmt w.stream.size).Stored w.stream.pool w.readAddr w.unread w.writeAddr

/-- A write that finds room ends within one ring of the reader. -/
def NoLap (w : World) : FifoOp → Prop
  | .write f _ => w.stream.full = false →
      (fmt w.stream.size).abs ((fmt w.stream.size).next w.writeAddr f.data.length) ≤
        (fmt w.stream.size).abs w.readAddr + w.stream.size.val
  | .read _ _ => True

structure FifoInv (w : World) : Prop where
  inv : Inv w
  ready : w.ready = true
  ahead : w.ahead ≤ w.stream.size.val
  accepted : w.accepted = w.taken ++ w.unread

section
variable {w : World} (h : FifoInv w)
include h

/-- A read in a state where the reader is not lapped. -/
theorem fifo_took {data : List UInt8} (hd : dataSize ≤ data.length) {f : List UInt8} {fs : List (List UInt8)}
    (hu : w.unread = f :: fs) : ∃ t r, w.stream.getSimple w.readPos data = some (t, r, .frame f) ∧
      t.size = w.stream.size ∧ FifoInv (w.took t r f) := by
  have r := h.inv.reader h.ready
  have hst := r.stored h.ahead
  rw [hu] at hst
  have hf := hst.1
  rw [fmt_maxLen] at hf
  obtain ⟨t, p, hg, hs, hi⟩ := get_frame h.inv h.ready h.ahead hu (Nat.le_trans hf hd)
  refine ⟨t, p, hg, hs, hi, h.ready, ?_, ?_⟩
  · have hlt := (fmt w.stream.size).abs_lt_next r.inLap f.length
    have hle := h.ahead
    simp only [ahead, took, hs] at hle ⊢
    omega
  · simp only [took, h.accepted, hu, List.tail_cons, List.append_assoc, List.singleton_append]

theorem drain_eq {data : List UInt8} (hd : dataSize ≤ data.length) {n : Nat} (hn : w.unread.length < n) :
    drain data n w = w.unread := by
  induction n generalizing w with
  | zero => omega
  | succ n ih =>
    cases hu : w.unread with
    | nil => simp only [drain, get_nil h.inv h.ready h.ahead hu data]
    | cons f fs =>
      obtain ⟨t, r, hg, _, hi⟩ := fifo_took h hd hu
      have htl : (w.took t r f).unread = fs := by simp only [took, hu, List.tail_cons]
      rw [hu, List.length_cons] at hn
      simp only [drain, hg]
      rw [ih hi (by rw [htl]; omega), htl]

theorem fifo_of_inv : Fifo w := by
  refine ⟨fun data hd => ?_, (h.inv.reader h.ready).stored h.ahead⟩
  rw [drain_eq h hd (by rw [h.accepted, List.length_append]; omega), h.accepted]

theorem fifo_step (a : FifoOp) (ha : NoLap w a) : ∃ t, w.fifoStep a = some t ∧ FifoInv t := by
  cases a with
  | write f hf =>
    rcases noDrop_cases h.inv f with ⟨hlt, _⟩ | ⟨_, _, hs⟩ | ⟨_, hfull, t, ht, hs⟩
    · omega
    · exact ⟨w, hs, h⟩
    · refine ⟨_, hs, inv_wrote h.inv ht, h.ready, ?_, ?_⟩
      · have hle := ha hfull
        simp only [ahead, wrote, ht.size]; omega
      · simp only [wrote, h.accepted, List.append_assoc]
  | read data hd =>
    cases hu : w.unread with
    | nil => exact ⟨w, step_empty (get_nil h.inv h.ready h.ahead hu data), h⟩
    | cons f fs =>
      obtain ⟨t, r, hg, _, hi⟩ := fifo_took h hd hu
      exact ⟨_, step_frame hg, hi⟩

/-- A write that laps the reader costs it every frame it has not read. -/
theorem fifo_lapped (a : FifoOp) (ha : ¬ NoLap w a) {t : World} (ht : w.fifoStep a = some t) : ¬ Fifo t := by
  cases a with
  | read data hd => exact absurd trivial ha
  | write f hf =>
    simp only [NoLap, Classical.not_imp, Nat.not_le] at ha
    obtain ⟨hfull, hgt⟩ := ha
    rcases noDrop_cases h.inv f with ⟨hlt, _⟩ | ⟨_, hfull', _⟩ | ⟨_, _, s, hl, hs⟩
    · omega
    · rw [hfull] at hfull'; cases hfull'
    obtain rfl : w.wrote s f = t := Option.some.inj (hs.symm.trans ht)
    have hi := inv_wrote h.inv hl
    have hsz := w.stream.size.hi
    have hahead : (w.wrote s f).stream.size.val < (w.wrote s f).ahead % 4294967296 := by
      have h₁ := (fmt w.stream.size).abs_next_le w.writeAddr f.data.length
      have h₂ := h.ahead
      simp only [fmt_hsize, fmt_maxLen, headSize] at h₁
      simp only [dataSize] at h₁ hf
      simp only [ahead, wrote, hl.size] at h₂ ⊢
      omega
    intro hfifo
    have hd : dataSize ≤ (List.replicate dataSize (0 : UInt8)).length := by rw [List.length_replicate]
    have hdr := hfifo.1 _ hd
    simp only [drain, get_lapped hi h.ready hahead, resynced, List.append_nil] at hdr
    simp only [wrote, h.accepted, List.append_assoc] at hdr
    simp at hdr

end

theorem fifo_iff {w : World} (h : FifoInv w) (ops : List FifoOp) :
    Always fifoStep Fifo w ops ↔ Meets fifoStep NoLap w ops :=
  always_iff_meets (fun _ a hi ha => fifo_step hi a ha) (fun _ hi => fifo_of_inv hi)
    (fun _ a _ hi ha ht => fifo_lapped hi a ha ht) h

/-- The reader is set after any frames the writer stored before it came. -/
theorem fifo_start (pool : Mem) (size : Nat) (r : Pos) (pre : List Frame) :
    ∃ w, exec step (start pool size r) (pre.map .noDrop ++ [.initReadPos]) = some w ∧ FifoInv w := by
  have hpre : ∀ (pre : List Frame) {w : World}, Inv w → ∃ t, exec step w (pre.map .noDrop) = some t ∧ Inv t := by
    intro pre
    induction pre with
    | nil => exact fun {w} h => ⟨w, rfl, h⟩
    | cons f fs ih =>
      intro w h
      obtain ⟨t, ht, hi⟩ := inv_step h (.noDrop f) trivial
      obtain ⟨u, hu, hj⟩ := ih hi
      exact ⟨u, by rw [List.map_cons, exec_cons, ht]; exact hu, hj⟩
  obtain ⟨t, ht, hi⟩ := hpre pre (start_inv pool size r)
  refine ⟨_, (exec_append_of ht _).trans (exec_singleton _ _), inv_accepted (inv_caughtUp hi) [] [], rfl, ?_, rfl⟩
  simp [ahead, caughtUp]

/-- **FIFO.** In every state of a run what the reader got and still gets is what the writer was told
was stored, exactly when every write ends within one ring of the reader. -/
theorem noDrop_fifo_iff (pool : Mem) (size : Nat) (r : Pos) (pre : List Frame) (ops : List FifoOp) :
    ∃ w, exec step (start pool size r) (pre.map .noDrop ++ [.initReadPos]) = some w ∧
      (Always fifoStep Fifo w ops ↔ Meets fifoStep NoLap w ops) := by
  obtain ⟨w, hw, hi⟩ := fifo_start pool size r pre
  exact ⟨w, hw, fifo_iff hi ops⟩

/-! ## A run that laps the reader -/

theorem full_of_bytes {w : World} (h : Inv w) (hs : w.stream.size = clampSize 0) (hb : bytes w.unread ≤ 2097152) :
    w.stream.full = false := by
  have hsz : (clampSize 0).val = 4194304 := rfl
  simp only [full, h.len, hs, hsz, u32_of_lt (show bytes w.unread < 4294967296 by omega), dataSize]
  exact decide_eq_false (by omega)

/-- A write that keeps the reader within the ring, in a ring of 4 MB. -/
theorem write_audio {w : World} (h : FifoInv w) (hs : w.stream.size = clampSize 0) {n : Nat}
    (hn : (audio n).data.length ≤ dataSize) (hb : bytes w.unread ≤ 2097152) {a : Addr}
    (ha : (fmt (clampSize 0)).next w.writeAddr (n + 32) = a)
    (hle : (fmt (clampSize 0)).abs a ≤ (fmt (clampSize 0)).abs w.readAddr + 4194304) :
    ∃ t, w.fifoStep (.write (audio n) hn) = some t ∧ FifoInv t ∧ t.stream.size = clampSize 0 ∧
      t.readAddr = w.readAddr ∧ t.writeAddr = a ∧ t.unread = w.unread ++ [(audio n).data] := by
  have hfull := full_of_bytes h.inv hs hb
  have hno : NoLap w (.write (audio n) hn) := fun _ => by rw [hs, audio_length, ha]; exact hle
  obtain ⟨t, ht, hi⟩ := fifo_step h _ hno
  rcases noDrop_cases h.inv (audio n) with ⟨hlt, _⟩ | ⟨_, hfull', _⟩ | ⟨_, _, u, hl, hst⟩
  · omega
  · rw [hfull] at hfull'; cases hfull'
  obtain rfl : w.wrote u (audio n) = t := Option.some.inj (hst.symm.trans ht)
  refine ⟨_, ht, hi, hl.size.trans hs, rfl, ?_, rfl⟩
  simp only [wrote, hs, audio_length, ha]

theorem audio_le {n : Nat} (h : n + 32 ≤ 1048576) : (audio n).data.length ≤ dataSize := by
  rw [audio_length]; exact h

def lapRun : List FifoOp :=
  [.write (audio 1048497) (audio_le (by decide)), .write (audio 1048528) (audio_le (by decide)),
    .write (audio 1048528) (audio_le (by decide)), .read buffer (by rw [buffer, List.length_replicate]; exact Nat.le_refl _)]

def lapWrite : FifoOp := .write (audio 1048544) (audio_le (by decide))

theorem fresh_fifo : FifoInv fresh := ⟨fresh_inv, rfl, by simp [ahead, fresh, caughtUp], rfl⟩

/-- Three frames fill the lap to within a head of its end; with the first of them read, the space
test lets a fourth in, which ends 47 bytes past the reader. -/
theorem noDrop_lapped : exec step (start (fun _ => 0) 0 ⟨0, 0⟩) [.initReadPos] = some fresh ∧
    ¬ Always fifoStep Fifo fresh (lapRun ++ [lapWrite]) := by
  refine ⟨(exec_singleton _ _).trans step_fresh, fun hall => ?_⟩
  have hn₁ : (fmt (clampSize 0)).next ⟨0, 0⟩ (1048497 + 32) = ⟨0, 1048545⟩ := by
    rw [RingFormat.next_of_not_full (full_iff.not.mpr (by decide)), fmt_hsize]; rfl
  have hn₂ : (fmt (clampSize 0)).next ⟨0, 1048545⟩ (1048528 + 32) = ⟨0, 2097121⟩ := bigNext_stay 0 (by decide)
  have hn₃ : (fmt (clampSize 0)).next ⟨0, 2097121⟩ (1048528 + 32) = ⟨0, 3145697⟩ := bigNext_stay 0 (by decide)
  have hn₄ : (fmt (clampSize 0)).next ⟨0, 3145697⟩ (1048544 + 32) = ⟨1, 1048592⟩ := by
    rw [RingFormat.next_of_full (full_iff.mpr (by decide)), fmt_hsize]; rfl
  have hb₁ : ∀ n, bytes [(audio n).data] = n + 48 := fun n => by
    simp only [bytes_cons, bytes_nil, audio_length, headSize]
  have hb : ∀ n k, bytes [(audio n).data, (audio k).data] = n + k + 96 := fun n k => by
    simp only [bytes_cons, bytes_nil, audio_length, headSize]; omega
  obtain ⟨w₁, h₁, i₁, s₁, r₁, a₁, u₁⟩ := write_audio fresh_fifo rfl (audio_le (by decide)) (by decide) hn₁ (by decide)
  rw [show fresh.unread = [] from rfl, List.nil_append] at u₁
  obtain ⟨w₂, h₂, i₂, s₂, r₂, a₂, u₂⟩ := write_audio i₁ s₁ (n := 1048528) (a := ⟨0, 2097121⟩) (audio_le (by decide))
    (by rw [u₁, hb₁]; decide)
    (by rw [a₁, hn₂]) (by rw [r₁]; decide)
  rw [u₁, List.singleton_append] at u₂
  obtain ⟨w₃, h₃, i₃, s₃, r₃, a₃, u₃⟩ := write_audio i₂ s₂ (n := 1048528) (a := ⟨0, 3145697⟩) (audio_le (by decide))
    (by rw [u₂, hb]; decide) (by rw [a₂, hn₃]) (by rw [r₂, r₁]; decide)
  rw [u₂] at u₃
  have hroom : dataSize ≤ buffer.length := by rw [buffer, List.length_replicate]; exact Nat.le_refl _
  obtain ⟨t, r, hg, s₄, i₄⟩ := fifo_took i₃ hroom u₃
  have hr₄ : (w₃.took t r (audio 1048497).data).readAddr = ⟨0, 1048545⟩ := by
    simp only [took, s₃, r₃, r₂, r₁, audio_length]; exact hn₁
  have hu₄ : (w₃.took t r (audio 1048497).data).unread = [(audio 1048528).data, (audio 1048528).data] := by
    simp only [took, u₃]; rfl
  have hs₄ : (w₃.took t r (audio 1048497).data).stream.size = clampSize 0 := s₄.trans s₃
  have hlap : ¬ NoLap (w₃.took t r (audio 1048497).data) lapWrite := by
    intro hno
    have := hno (full_of_bytes i₄.inv hs₄ (by rw [hu₄, hb]))
    rw [hs₄, hr₄, show (w₃.took t r (audio 1048497).data).writeAddr = _ from a₃, audio_length, hn₄] at this
    exact absurd this (by decide)
  obtain ⟨v, hv, hf⟩ := hall _ (List.prefix_refl _)
  have hrun : exec fifoStep fresh lapRun = some (w₃.took t r (audio 1048497).data) := by
    rw [lapRun, exec_cons, h₁, Option.bind_some, exec_cons, h₂, Option.bind_some, exec_cons, h₃, Option.bind_some,
      exec_singleton]
    exact step_frame hg
  rw [exec_append_of hrun, exec_singleton] at hv
  exact fifo_lapped i₄ lapWrite hlap hv hf

end World

end Stream3

end SabApp
