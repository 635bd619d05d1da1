import SabApp.Stream3

/-!
# What the stream ring keeps

The invariant ties the stream's positions to true addresses of the record log,
its 32-bit counters to the frames not yet read, and, as long as the reader is
within one ring of the writer, those frames to the bytes of the pool. Writes
keep it whatever they overwrite; a read keeps it when the 32-bit overrun test
tells the truth (`GetExact`).
-/

namespace SabApp

namespace Stream3

/-! ## Word arithmetic -/

theorem u32_of_lt {n : Nat} (h : n < 4294967296) : u32 n = n := Nat.mod_eq_of_lt h

theorem u32_succ (n : Nat) : u32 (u32 n + 1) = u32 (n + 1) := by unfold u32; omega

theorem u32_add (n k : Nat) : u32 (u32 n + k) = u32 (n + k) := by unfold u32; omega

theorem u32Sub_add {n k : Nat} : u32Sub (u32 (n + k)) (u32 n) = u32 k := by unfold u32Sub u32; omega

theorem i32_add (n k : Int) : i32 (i32 n + k) = i32 (n + k) := Int.bmod_add_bmod

theorem i32_sub (n k : Int) : i32 (i32 n - k) = i32 (n - k) := Int.bmod_sub_bmod

theorem i32_of_lt {n : Nat} (h : n < 2147483648) : i32 n = n :=
  Int.bmod_eq_of_le_mul_two (by omega) (by omega)

/-! ## Frames held -/

/-- What the frames `fs` add to `len`: their bytes and their heads. -/
def bytes (fs : List (List UInt8)) : Nat := (fs.map fun f => f.length + headSize).sum

/-- What the frames `fs` add to `count`. -/
def videos (fs : List (List UInt8)) : Nat := fs.countP isVideo

@[simp] theorem bytes_nil : bytes [] = 0 := rfl

@[simp] theorem bytes_cons (f : List UInt8) (fs : List (List UInt8)) :
    bytes (f :: fs) = f.length + headSize + bytes fs := by simp [bytes]

@[simp] theorem bytes_append (fs gs : List (List UInt8)) : bytes (fs ++ gs) = bytes fs + bytes gs := by simp [bytes]

theorem videos_cons (f : List UInt8) (fs : List (List UInt8)) :
    videos (f :: fs) = (if isVideo f then 1 else 0) + videos fs := by
  simp only [videos, List.countP_cons]; omega

theorem videos_snoc (f : List UInt8) (fs : List (List UInt8)) :
    videos (fs ++ [f]) = videos fs + if isVideo f then 1 else 0 := by
  simp [videos, List.countP_append, List.countP_cons]

theorem videos_le (fs : List (List UInt8)) : 16 * videos fs ≤ bytes fs := by
  induction fs with
  | nil => exact Nat.le_refl _
  | cons f fs ih => rw [videos_cons, bytes_cons]; simp only [headSize]; split <;> omega

theorem isVideo_append {f : List UInt8} (g : List UInt8) (h : 32 ≤ f.length) : isVideo (f ++ g) = isVideo f := by
  have : frameType (f ++ g) = frameType f := byteAt_append_left (by omega)
  simp only [isVideo, this]

/-! ## Positions and addresses -/

def posOf (a : Addr) : Pos := ⟨a.off, u32 a.lap⟩

@[simp] theorem posOf_offset (a : Addr) : (posOf a).offset = a.off := rfl

@[simp] theorem posOf_ring (a : Addr) : (posOf a).ring = u32 a.lap := rfl

/-- `F` lays records as the stream does. -/
structure Fits (F : RingFormat) (s : Stream3) : Prop where
  size : F.size = s.size.val
  hsize : F.hsize = headSize
  maxLen : F.maxLen = dataSize
  skip : F.skip = skipLen
  headLen : F.headLen = headLen

theorem fits_fmt (s : Stream3) : Fits (fmt s.size) s := ⟨rfl, rfl, rfl, rfl, rfl⟩

section
variable {s : Stream3} {f : Frame} {a : Addr}

/-- The stream after a frame is laid at the address `a`, with new counters. -/
def laid (s : Stream3) (a : Addr) (f : Frame) (count : Int) (len : Nat) : Stream3 :=
  { s with
    pool := (fmt s.size).put s.pool a f.data
    writePos := posOf ((fmt s.size).next a f.data.length)
    count, len }

theorem store_eq (hs : s.writePos = posOf a) (ha : (fmt s.size).InLap a) :
    s.store f = some (s.laid a f (if isVideo f.data then i32 (s.count + 1) else s.count)
      (u32 (s.len + (f.data.length + headSize)))) := by
  have hfit : ¬ a.off + headSize > s.size.val := Nat.not_lt.mpr ha
  have hfull : a.off + 2 * headSize + dataSize > s.size.val ↔ (fmt s.size).Full a := Iff.rfl
  unfold store
  simp only [hs, posOf]
  rw [if_neg hfit]
  by_cases h : (fmt s.size).Full a
  · have hp : (fmt s.size).place a = ⟨a.lap + 1, 0⟩ := if_pos h
    simp only [hfull, h, if_true, laid, RingFormat.put, RingFormat.mark, RingFormat.next, hp, u32_succ]
    rfl
  · have hp : (fmt s.size).place a = a := if_neg h
    simp only [hfull, h, if_false, laid, RingFormat.put, RingFormat.mark, RingFormat.next, hp]
    rfl

/-- get_simple at a stored frame: the head it finds, and what it takes. -/
theorem getSimple_eq {F : RingFormat} (hF : Fits F s) {r : Pos} {b : Addr} {f : List UInt8} {fs : List (List UInt8)}
    (hr : r = posOf a) (hin : F.InLap a) (hst : F.Stored s.pool a (f :: fs) b) (hne : r ≠ s.writePos)
    (hlag : s.lag r ≤ s.size.val) (data : List UInt8) :
    s.getSimple r data =
      if data.length < f.length then some s.resynced
      else some ({ s with
          count := if isVideo (f ++ data.drop f.length) then i32 (s.count - 1) else s.count
          len := u32Sub s.len (u32 (f.length + headSize)) }, posOf (F.next a f.length), .frame f) := by
  obtain ⟨hsize, hhsize, hmax, hskip, hhead⟩ := hF
  have hhd := hst.headLen
  have hlen := hst.headLen_place
  have hbody := hst.body
  have hfit := hst.1
  have hroom := F.place_le a
  have hsz := s.size.hi
  simp only [RingFormat.InLap, hsize, hhsize, hmax, hskip, hhead] at hhd hlen hbody hfit hroom hin
  have hend : (F.place a).off + headSize + f.length < 4294967296 := by omega
  have hplace : (if Stream3.headLen (s.pool.read (posOf a).offset headSize) = skipLen then
      (⟨0, u32 ((posOf a).ring + 1)⟩ : Pos) else posOf a) = posOf (F.place a) := by
    rw [posOf_offset, posOf_ring, hhd]
    unfold RingFormat.place
    by_cases hfull : F.Full a
    · rw [if_pos hfull, if_pos hfull, if_pos rfl, u32_succ]; rfl
    · rw [if_neg hfull, if_neg hfull, if_neg]
      unfold skipLen; simp only [dataSize] at hfit; omega
  subst hr
  have hoff : ¬ (posOf a).offset ≥ s.size.val := by simp only [posOf_offset, headSize] at hin ⊢; omega
  unfold getSimple
  rw [if_neg hoff, if_neg hne, if_neg (Nat.not_lt.mpr hlag)]
  simp only [hplace]
  simp only [posOf_offset, hlen, hbody, u32_of_lt hend]
  simp only [posOf, RingFormat.next, hhsize]

end

/-- The frames set_withDrop refuses though they fit. -/
def drops (s : Stream3) (f : Frame) (ncBufferUsec : Int) : Bool :=
  s.dropFlag && frameType f.data == ptcFrameP || isVideo f.data && s.tooFarBehind f ncBufferUsec

theorem tooFarBehind_flag (s : Stream3) (b : Bool) (f : Frame) (usec : Int) :
    ({ s with dropFlag := b } : Stream3).tooFarBehind f usec = s.tooFarBehind f usec := rfl

/-! ## The invariant -/

namespace World

/-- The reader stands at a true address, behind the writer; what it has not read is still in the
pool unless the writer is more than a ring ahead. -/
structure Reader (w : World) : Prop where
  pos : w.readPos = posOf w.readAddr
  inLap : (fmt w.stream.size).InLap w.readAddr
  abs_le : (fmt w.stream.size).abs w.readAddr ≤ (fmt w.stream.size).abs w.writeAddr
  stored : w.ahead ≤ w.stream.size.val → (fmt w.stream.size).Stored w.stream.pool w.readAddr w.unread w.writeAddr

structure Inv (w : World) : Prop where
  pos : w.stream.writePos = posOf w.writeAddr
  inLap : (fmt w.stream.size).InLap w.writeAddr
  heads : ∀ f ∈ w.unread, 32 ≤ f.length
  len : w.stream.len = u32 (bytes w.unread)
  count : w.stream.count = i32 (videos w.unread)
  order : ∃ done, w.written = done ++ w.unread ∧ w.reads.Sublist done
  reader : w.ready = true → Reader w

/-- The call of get_simple has a read position set from the stream, and its overrun test, made in
32 bits, sees the overrun there is. -/
def GetExact (w : World) : Prop :=
  w.ready = true ∧ (w.stream.size.val < w.ahead → w.stream.size.val < w.ahead % 4294967296)

theorem start_inv (pool : Mem) (size : Nat) (r : Pos) : Inv (start pool size r) := by
  refine ⟨rfl, ?_, by simp [start], rfl, (i32_of_lt (n := 0) (by omega)).symm, ⟨[], rfl, List.Sublist.refl _⟩, by simp [start]⟩
  have := (clampSize size).lo
  simp only [RingFormat.InLap, start, fmt, headSize, Stream3.init]; omega

section
variable {w : World} {data : List UInt8} {t : Stream3} {r : Pos}

theorem step_empty (hg : w.stream.getSimple w.readPos data = some (t, r, .empty)) :
    w.step (.get data) = some w := by simp only [step, hg, Option.map_some]

theorem step_resync (hg : w.stream.getSimple w.readPos data = some w.stream.resynced) :
    w.step (.get data) = some (w.caughtUp { w.stream with len := 0, count := 0 } w.stream.writePos) := by
  simp only [step, hg, resynced, Option.map_some]

theorem step_frame {bs : List UInt8} (hg : w.stream.getSimple w.readPos data = some (t, r, .frame bs)) :
    w.step (.get data) = some (w.took t r bs) := by simp only [step, hg, Option.map_some]

end

section
variable {w : World} (h : Inv w)
include h

theorem inv_flag (b : Bool) : Inv { w with stream := { w.stream with dropFlag := b } } := by
  obtain ⟨h₁, h₂, h₃, h₄, h₅, h₆, h₇⟩ := h
  exact ⟨h₁, h₂, h₃, h₄, h₅, h₆, fun hr => by obtain ⟨r₁, r₂, r₃, r₄⟩ := h₇ hr; exact ⟨r₁, r₂, r₃, r₄⟩⟩

theorem inv_accepted (fs gs : List (List UInt8)) : Inv { w with accepted := fs, taken := gs } := by
  obtain ⟨h₁, h₂, h₃, h₄, h₅, h₆, h₇⟩ := h
  exact ⟨h₁, h₂, h₃, h₄, h₅, h₆, fun hr => by obtain ⟨r₁, r₂, r₃, r₄⟩ := h₇ hr; exact ⟨r₁, r₂, r₃, r₄⟩⟩

/-- `t` is the stream after `f` was laid behind what `w` holds. -/
structure Laid (w : World) (f : Frame) (t : Stream3) : Prop where
  fits : f.data.length ≤ dataSize
  size : t.size = w.stream.size
  pool : t.pool = (fmt w.stream.size).put w.stream.pool w.writeAddr f.data
  pos : t.writePos = posOf ((fmt w.stream.size).next w.writeAddr f.data.length)
  len : t.len = u32 (bytes (w.unread ++ [f.data]))
  count : t.count = i32 (videos (w.unread ++ [f.data]))

theorem inv_wrote {f : Frame} {t : Stream3} (ht : Laid w f t) : Inv (w.wrote t f) where
  pos := ht.pos
  inLap := by simp only [wrote, ht.size]; exact (fmt w.stream.size).next_inLap _ ht.fits
  heads := fun g hg => by
    rcases List.mem_append.mp hg with hg | hg
    · exact h.heads g hg
    · rw [List.mem_singleton.mp hg]; exact f.head_le
  len := ht.len
  count := ht.count
  order := by
    obtain ⟨done, hw, hr⟩ := h.order
    exact ⟨done, by simp only [wrote, hw, List.append_assoc], hr⟩
  reader := fun hr => by
    have r := h.reader hr
    have habs := r.abs_le
    have hlt := (fmt w.stream.size).abs_lt_next h.inLap f.data.length
    refine ⟨r.pos, ?_, ?_, fun ha => ?_⟩
    · simp only [wrote, ht.size]; exact r.inLap
    · simp only [wrote, ht.size]; omega
    · simp only [ahead, wrote, ht.size, ht.pool] at ha ⊢
      have hold : w.ahead ≤ w.stream.size.val := by unfold ahead; omega
      refine (r.stored hold).put r.inLap h.inLap ht.fits ?_
      show (fmt w.stream.size).abs _ ≤ (fmt w.stream.size).abs w.readAddr + w.stream.size.val
      omega

theorem len_wrote (f : Frame) :
    u32 (w.stream.len + (f.data.length + headSize)) = u32 (bytes (w.unread ++ [f.data])) := by
  rw [h.len, u32_add, bytes_append, bytes_cons, bytes_nil, Nat.add_zero]

theorem count_wrote (f : Frame) :
    (if isVideo f.data then i32 (w.stream.count + 1) else w.stream.count) = i32 (videos (w.unread ++ [f.data])) := by
  rw [h.count, videos_snoc]
  split
  · rw [i32_add, Int.natCast_add]; rfl
  · rw [Nat.add_zero]

theorem laid_store {f : Frame} (hf : f.data.length ≤ dataSize) : ∃ t, w.stream.store f = some t ∧ Laid w f t :=
  ⟨_, store_eq h.pos h.inLap, hf, rfl, rfl, rfl, len_wrote h f, count_wrote h f⟩

theorem inv_caughtUp : Inv (w.caughtUp { w.stream with len := 0, count := 0 } w.stream.writePos) where
  pos := h.pos
  inLap := h.inLap
  heads := fun _ hf => by cases hf
  len := rfl
  count := (i32_of_lt (n := 0) (by omega)).symm
  order := by
    obtain ⟨done, hw, hr⟩ := h.order
    exact ⟨w.written, (List.append_nil _).symm, hr.trans (hw ▸ List.sublist_append_left _ _)⟩
  reader := fun _ => ⟨h.pos, h.inLap, Nat.le_refl _, fun _ => rfl⟩

/-! ## Reading -/

theorem lag_eq (hr : w.ready = true) : w.stream.lag w.readPos = w.ahead % 4294967296 := by
  have r := h.reader hr
  have := w.stream.size.hi
  simp only [Stream3.lag, h.pos, r.pos, posOf, u32Sub, u32]
  exact (fmt w.stream.size).dist_mod (M := 4294967296) (by show w.stream.size.val ≤ _; omega) r.inLap h.inLap r.abs_le

theorem offset_lt (hr : w.ready = true) : w.readPos.offset < w.stream.size.val := by
  have r := h.reader hr
  have hin : w.readAddr.off + headSize ≤ w.stream.size.val := r.inLap
  rw [r.pos]; simp only [posOf, headSize] at hin ⊢; omega

/-- Below 2^32 bytes the positions agree only where the addresses do. -/
theorem pos_ne (hr : w.ready = true) (h₀ : 0 < w.ahead % 4294967296) : w.readPos ≠ w.stream.writePos := by
  intro he
  have hl := lag_eq h hr
  rw [he] at hl
  simp [Stream3.lag, u32Sub, u32] at hl
  omega

theorem unread_of_ahead (hr : w.ready = true) (h₀ : w.ahead ≤ w.stream.size.val) :
    w.ahead = 0 ↔ w.unread = [] := by
  have r := h.reader hr
  have hs := r.stored h₀
  have habs := r.abs_le
  refine ⟨fun ha => ?_, fun hu => ?_⟩
  · cases hu : w.unread with
    | nil => rfl
    | cons f fs =>
      rw [hu] at hs
      have h₁ := (fmt w.stream.size).abs_lt_next r.inLap f.length
      have h₂ := hs.2.2.2.abs_le ((fmt w.stream.size).next_inLap _ hs.1)
      have h₃ := (fmt w.stream.size).hsize_pos
      unfold ahead at ha; omega
  · rw [hu] at hs
    unfold ahead
    rw [show w.readAddr = w.writeAddr from hs, Nat.sub_self]

theorem get_empty (hr : w.ready = true) (he : w.readPos = w.stream.writePos) (data : List UInt8) :
    w.stream.getSimple w.readPos data = some (w.stream, w.readPos, .empty) := by
  have hlt := offset_lt h hr
  unfold getSimple
  rw [if_neg (by omega), if_pos he]

theorem get_lapped (hr : w.ready = true) (he : w.stream.size.val < w.ahead % 4294967296) (data : List UInt8) :
    w.stream.getSimple w.readPos data = some w.stream.resynced := by
  have hlt := offset_lt h hr
  have hne := pos_ne h hr (by omega)
  unfold getSimple
  rw [if_neg (by omega), if_neg hne, if_pos (by rw [lag_eq h hr]; exact he)]

section
variable (hr : w.ready = true) (ha : w.ahead ≤ w.stream.size.val) {f : List UInt8} {fs : List (List UInt8)}
  (hu : w.unread = f :: fs)
include hr ha hu

theorem ahead_pos : 0 < w.ahead := by
  have := (unread_of_ahead h hr ha).not.mpr (by simp [hu])
  omega

theorem get_reads (data : List UInt8) :
    w.stream.getSimple w.readPos data =
      if data.length < f.length then some w.stream.resynced
      else some ({ w.stream with
          count := if isVideo (f ++ data.drop f.length) then i32 (w.stream.count - 1) else w.stream.count
          len := u32Sub w.stream.len (u32 (f.length + headSize)) },
        posOf ((fmt w.stream.size).next w.readAddr f.length), .frame f) := by
  have r := h.reader hr
  have hpos := ahead_pos h hr ha hu
  have hsz := w.stream.size.hi
  have hmod : w.ahead % 4294967296 = w.ahead := Nat.mod_eq_of_lt (by omega)
  have hst := r.stored ha
  rw [hu] at hst
  exact getSimple_eq (fits_fmt w.stream) r.pos r.inLap hst (pos_ne h hr (by omega))
    (by rw [lag_eq h hr, hmod]; exact ha) data

theorem inv_took {t : Stream3} (hs : t.size = w.stream.size) (hp : t.pool = w.stream.pool)
    (hw : t.writePos = w.stream.writePos) (hn : t.len = u32 (bytes fs)) (hc : t.count = i32 (videos fs)) :
    Inv (w.took t (posOf ((fmt w.stream.size).next w.readAddr f.length)) f) where
  pos := hw.trans h.pos
  inLap := by simp only [took, hs]; exact h.inLap
  heads := fun g hg => h.heads g (List.mem_of_mem_tail hg)
  len := by simp only [took, hu, List.tail_cons, hn]
  count := by simp only [took, hu, List.tail_cons, hc]
  order := by
    obtain ⟨done, hd, hl⟩ := h.order
    refine ⟨done ++ [f], ?_, hl.append (List.Sublist.refl _)⟩
    simp only [took, hd, hu, List.tail_cons, List.append_assoc, List.singleton_append]
  reader := fun _ => by
    have r := h.reader hr
    have hst := r.stored ha
    rw [hu] at hst
    have hin := (fmt w.stream.size).next_inLap w.readAddr hst.1
    refine ⟨rfl, ?_, ?_, fun _ => ?_⟩
    · simp only [took, hs]; exact hin
    · simp only [took, hs]; exact hst.2.2.2.abs_le hin
    · simp only [took, hs, hp, hu, List.tail_cons]; exact hst.2.2.2

omit hr ha in
/-- The counters after the frame is handed out. -/
theorem len_took : u32Sub w.stream.len (u32 (f.length + headSize)) = u32 (bytes fs) := by
  rw [h.len, hu, bytes_cons]; exact u32Sub_add

omit hr ha in
theorem count_took (data : List UInt8) :
    (if isVideo (f ++ data) then i32 (w.stream.count - 1) else w.stream.count) = i32 (videos fs) := by
  rw [h.count, hu, videos_cons, isVideo_append data (h.heads f (by rw [hu]; exact List.mem_cons_self ..))]
  split
  · rw [i32_sub, Int.natCast_add]; congr 1; omega
  · rw [Nat.zero_add]

end

/-! ## One call -/

theorem noDrop_cases (f : Frame) :
    (dataSize < f.data.length ∧ w.step (.noDrop f) = some { w with accepted := w.accepted ++ [f.data] }) ∨
    (f.data.length ≤ dataSize ∧ w.stream.full = true ∧ w.step (.noDrop f) = some w) ∨
    (f.data.length ≤ dataSize ∧ w.stream.full = false ∧ ∃ t, Laid w f t ∧ w.step (.noDrop f) = some (w.wrote t f)) := by
  simp only [step, setNoDrop]
  by_cases hf : f.data.length > dataSize
  · left; simp [hf]
  · right
    cases hfull : w.stream.full with
    | true => left; exact ⟨by omega, rfl, by simp [hf]⟩
    | false =>
      obtain ⟨t, ht, hl⟩ := laid_store h (f := f) (by omega)
      right; exact ⟨by omega, rfl, t, hl, by simp [hf, ht]⟩

theorem withDrop_cases (f : Frame) (usec : Int) :
    ((dataSize < f.data.length ∨ w.stream.drops f usec = true) ∧
      ∃ b, w.step (.withDrop f usec) = some { w with stream := { w.stream with dropFlag := b } }) ∨
    (f.data.length ≤ dataSize ∧ w.stream.drops f usec = false ∧
      ∃ t, Laid w f t ∧ w.step (.withDrop f usec) = some (w.wrote t f)) := by
  simp only [step, setWithDrop]
  by_cases hf : f.data.length > dataSize
  · left; exact ⟨.inl hf, w.stream.dropFlag, by simp [hf]⟩
  by_cases hp : (w.stream.dropFlag && frameType f.data == ptcFrameP) = true
  · left; exact ⟨.inr (by unfold drops; rw [hp]; rfl), w.stream.dropFlag, by simp [hf, hp]⟩
  rw [if_neg hf, if_neg hp]
  -- an I frame clears the flag first; nothing below looks at it
  obtain ⟨b, hb⟩ : ∃ b, (if (w.stream.dropFlag && frameType f.data == ptcFrameI) = true then
      { w.stream with dropFlag := false } else w.stream) = { w.stream with dropFlag := b } := by
    split
    · exact ⟨false, rfl⟩
    · exact ⟨w.stream.dropFlag, rfl⟩
  simp only [hb, tooFarBehind_flag]
  by_cases hd : (isVideo f.data && w.stream.tooFarBehind f usec) = true
  · left
    refine ⟨.inr (by unfold drops; rw [hd, Bool.or_true]), true, ?_⟩
    rw [if_pos hd]; rfl
  · right
    obtain ⟨t, ht, hl⟩ := laid_store (inv_flag h b) (f := f) (by omega)
    refine ⟨by omega, by unfold drops; simp only [Bool.not_eq_true] at hp hd; rw [hp, hd]; rfl, t, ?_, ?_⟩
    · exact ⟨hl.fits, hl.size, hl.pool, hl.pos, hl.len, hl.count⟩
    · rw [if_neg hd, show ({ w.stream with dropFlag := b } : Stream3).store f = some t from ht]; rfl

/-- get_simple with room for the next frame hands it out. -/
theorem get_frame (hr : w.ready = true) (ha : w.ahead ≤ w.stream.size.val) {f : List UInt8} {fs : List (List UInt8)}
    (hu : w.unread = f :: fs) {data : List UInt8} (hd : f.length ≤ data.length) :
    ∃ t r, w.stream.getSimple w.readPos data = some (t, r, .frame f) ∧ t.size = w.stream.size ∧
      Inv (w.took t r f) := by
  have hg := get_reads h hr ha hu data
  rw [if_neg (by omega)] at hg
  refine ⟨_, _, hg, ?_, ?_⟩
  · rfl
  · exact inv_took h hr ha hu rfl rfl rfl (len_took h hu) (count_took h hu _)

theorem get_nil (hr : w.ready = true) (ha : w.ahead ≤ w.stream.size.val) (hu : w.unread = []) (data : List UInt8) :
    w.stream.getSimple w.readPos data = some (w.stream, w.readPos, .empty) := by
  have r := h.reader hr
  have h₀ := (unread_of_ahead h hr ha).mpr hu
  have heq := (fmt w.stream.size).abs_inj r.inLap h.inLap (Nat.le_antisymm r.abs_le (by unfold ahead at h₀; omega))
  exact get_empty h hr (by rw [r.pos, h.pos, heq]) data

theorem get_cases (hx : GetExact w) (data : List UInt8) :
    (w.unread = [] ∧ w.step (.get data) = some w) ∨
    w.step (.get data) = some (w.caughtUp { w.stream with len := 0, count := 0 } w.stream.writePos) ∨
    ∃ f fs t r, w.unread = f :: fs ∧ w.step (.get data) = some (w.took t r f) ∧ Inv (w.took t r f) := by
  obtain ⟨hr, hlap⟩ := hx
  by_cases ha : w.ahead ≤ w.stream.size.val
  · cases hu : w.unread with
    | nil => left; exact ⟨rfl, step_empty (get_nil h hr ha hu data)⟩
    | cons f fs =>
      right
      by_cases hd : data.length < f.length
      · have hg := get_reads h hr ha hu data
        rw [if_pos hd] at hg
        left; exact step_resync hg
      · obtain ⟨t, r, hg, _, hi⟩ := get_frame h hr ha hu (Nat.le_of_not_lt hd)
        right; exact ⟨f, fs, t, r, rfl, step_frame hg, hi⟩
  · right; left
    exact step_resync (get_lapped h hr (hlap (by omega)) data)

end

end World

end Stream3

end SabApp
