import SabApp.Accesses

/-!
# Decoded pictures (FFDecode.c)

`decodeH264` copies each luma line as far as its line size, to the same place as in the plane, and then as many lines of V and
U as there are of luma, to behind `width * height` bytes. What a line has behind its width is copied as if it were picture,
and of the two smaller planes twice as many lines are read as there are.
-/

namespace SabApp

namespace FFDecode

open Traced

/-- VIDEO_BUF_LEN, the size of `tempbuf` -/
def videoBufLen : ℕ := 4 * 1024 * 1024

inductive Chroma where
  | u
  | v
  deriving DecidableEq

/-- `yuv_frame` as the decoder fills it: planar, with even width and height, and lines that hold their part of the width.
The planes are at address 0 of their memories. -/
structure YuvFrame where
  width : ℕ
  height : ℕ
  lumaSize : ℕ
  chromaSize : Chroma → ℕ
  luma : Mem
  chroma : Chroma → Mem
  evenWidth : width % 2 = 0
  evenHeight : height % 2 = 0
  lumaLine : width ≤ lumaSize
  chromaLine : ∀ c, width / 2 ≤ chromaSize c

inductive PictureEffect where
  /-- Bytes of `data[0]` are read. -/
  | luma (a n : ℕ)
  /-- A byte of `data[1]` or `data[2]` is read. -/
  | chroma (c : Chroma) (a : ℕ)
  /-- An access to `outBuf`. -/
  | out (x : Access)

namespace PictureEffect

/-- The access to `outBuf` stays inside. -/
def InRoom : PictureEffect → Prop
  | out x => x.Within 0 videoBufLen
  | _ => True

def out? : PictureEffect → Option Access
  | out x => some x
  | _ => none

end PictureEffect

namespace YuvFrame

variable (f : YuvFrame)

def ysize : ℕ := f.height * f.width

/-- Line `i` of the first loop. -/
def copyLine (i : ℕ) : List PictureEffect :=
  [.luma (f.lumaSize * i) f.lumaSize, .out (.write (f.lumaSize * i) (f.luma.read (f.lumaSize * i) f.lumaSize))]

/-- The byte of `c` that goes to column `j`. -/
def copyByte (c : Chroma) (i j : ℕ) : List PictureEffect :=
  [.chroma c (f.chromaSize c * i + j / 2),
    .out (.write (f.ysize + i * f.width + j) [f.chroma c (f.chromaSize c * i + j / 2)])]

def copyColumn (i j : ℕ) : List PictureEffect := if j % 2 = 0 then f.copyByte .v i j else f.copyByte .u i j

def copyLuma : List PictureEffect := (List.range f.height).flatMap f.copyLine

def copyChroma : List PictureEffect := (List.range f.height).flatMap fun i => (List.range f.width).flatMap (f.copyColumn i)

end YuvFrame

/-- What is in `outSize` afterwards, if it is set; `sent` is what `avcodec_send_packet` returns and `received` the picture, if
`avcodec_receive_frame` returns 0. -/
def decodeH264 (runState : Bool) (sent : Int) (received : Option YuvFrame) : Traced PictureEffect (Option ℕ) :=
  if !runState then pure none
  else if sent = 0 then
    match received with
    | some f => do
      emits f.copyLuma
      emits f.copyChroma
      pure (some (f.ysize + f.ysize))
    | none => pure none
  else pure none

def outs (es : List PictureEffect) : List Access := es.filterMap PictureEffect.out?

namespace YuvFrame

variable (f : YuvFrame)

/-- The NV21 form of the picture is at the beginning of the buffer. -/
def Nv21 (out : Mem) : Prop :=
  (∀ i < f.height, ∀ j < f.width, out (i * f.width + j) = f.luma (f.lumaSize * i + j)) ∧
    ∀ i < f.height / 2, ∀ j < f.width / 2,
      out (f.height * f.width + i * f.width + 2 * j) = f.chroma .v (f.chromaSize .v * i + j) ∧
        out (f.height * f.width + i * f.width + 2 * j + 1) = f.chroma .u (f.chromaSize .u * i + j)

/-- Of the chroma planes no line is read from half the height on. -/
def HalfRows (t : Traced PictureEffect (Option ℕ)) : Prop :=
  ∀ c a, .chroma c a ∈ t.events → a < f.chromaSize c * (f.height / 2)

/-- A delivered picture is converted as it should be, from whatever the buffer holds. -/
def Converts (out : Mem) : Prop :=
  let t := decodeH264 true 0 (some f)
  f.Nv21 (Access.after out (outs t.events)) ∧ f.HalfRows t ∧ ∀ e ∈ t.events, e.InRoom

end YuvFrame

/-! ## The copies -/

section
variable (f : YuvFrame)

theorem events_decode : (decodeH264 true 0 (some f)).events = f.copyLuma ++ f.copyChroma := by
  have hevents : (decodeH264 true 0 (some f)).events = f.copyLuma ++ (f.copyChroma ++ []) := rfl
  rw [hevents, List.append_nil]

theorem mem_copyLuma {e : PictureEffect} : e ∈ f.copyLuma ↔ ∃ i < f.height, e ∈ f.copyLine i := by
  unfold YuvFrame.copyLuma
  simp only [List.mem_flatMap, List.mem_range]

theorem mem_copyChroma {e : PictureEffect} :
    e ∈ f.copyChroma ↔ ∃ i < f.height, ∃ j < f.width, e ∈ f.copyByte (if j % 2 = 0 then .v else .u) i j := by
  have hcolumn (i j : ℕ) : f.copyColumn i j = f.copyByte (if j % 2 = 0 then .v else .u) i j := by
    unfold YuvFrame.copyColumn
    split <;> rfl
  unfold YuvFrame.copyChroma
  simp only [List.mem_flatMap, List.mem_range, hcolumn]

theorem mem_outs {es : List PictureEffect} {x : Access} : x ∈ outs es ↔ .out x ∈ es := by
  unfold outs
  rw [List.mem_filterMap]
  constructor
  · rintro ⟨e, he, hx⟩
    cases e with
    | out y =>
      cases hx
      exact he
    | luma a n => cases hx
    | chroma c a => cases hx
  · exact fun h => ⟨_, h, rfl⟩

theorem outs_append (es es' : List PictureEffect) : outs (es ++ es') = outs es ++ outs es' := List.filterMap_append

theorem luma_write {x : Access} : .out x ∈ f.copyLuma ↔
    ∃ i < f.height, x = .write (f.lumaSize * i) (f.luma.read (f.lumaSize * i) f.lumaSize) := by
  rw [mem_copyLuma]
  simp [YuvFrame.copyLine]

theorem chroma_write {x : Access} : .out x ∈ f.copyChroma ↔ ∃ i < f.height, ∃ j < f.width,
    x = .write (f.ysize + i * f.width + j)
      [f.chroma (if j % 2 = 0 then .v else .u) (f.chromaSize (if j % 2 = 0 then .v else .u) * i + j / 2)] := by
  rw [mem_copyChroma]
  simp [YuvFrame.copyByte]

/-! ## What the buffer holds -/

theorem lt_plane {i j w h : ℕ} (hi : i < h) (hj : j < w) : i * w + j < h * w := by
  have hle : (i + 1) * w ≤ h * w := Nat.mul_le_mul_right w hi
  rw [Nat.succ_mul] at hle
  omega

theorem place_inj {i j i' j' w : ℕ} (hj : j < w) (hj' : j' < w) (h : i * w + j = i' * w + j') : i = i' ∧ j = j' := by
  have hw : 0 < w := Nat.zero_lt_of_lt hj
  have hi := congrArg (· / w) h
  have hm := congrArg (· % w) h
  simp only [Nat.mul_comm _ w, Nat.mul_add_div hw, Nat.div_eq_of_lt hj, Nat.div_eq_of_lt hj', Nat.add_zero] at hi
  simp only [Nat.mul_comm _ w, Nat.mul_add_mod, Nat.mod_eq_of_lt hj, Nat.mod_eq_of_lt hj'] at hm
  exact ⟨hi, hm⟩

/-- As far as the lines go the plane is copied as it is. -/
theorem after_luma (out : Mem) {k : ℕ} (hk : k < f.lumaSize * f.height) :
    Access.after out (outs f.copyLuma) k = f.luma k := by
  have hsize : 0 < f.lumaSize := Nat.pos_of_ne_zero fun hz => by
    rw [hz, Nat.zero_mul] at hk
    exact Nat.not_lt_zero k hk
  apply Access.after_of_writes
  · have hline := Nat.div_add_mod k f.lumaSize
    have hlt := Nat.mod_lt k hsize
    refine ⟨_, _, mem_outs.mpr ((luma_write f).mpr ⟨k / f.lumaSize, Nat.div_lt_of_lt_mul hk, rfl⟩), Nat.mul_div_le .., ?_⟩
    rw [Mem.read_length]
    omega
  · intro a bs hm hle hlt
    obtain ⟨i, -, hx⟩ := (luma_write f).mp (mem_outs.mp hm)
    cases hx
    rw [Mem.read_length] at hlt
    rw [List.getD_eq_getElem?_getD, Mem.getElem?_read _ _ (by omega), Option.getD_some, Nat.add_sub_cancel' hle]

/-- The columns of V and U, over whatever is there. -/
theorem after_chroma (out : Mem) {i j : ℕ} (hi : i < f.height) (hj : j < f.width) :
    Access.after out (outs f.copyChroma) (f.ysize + i * f.width + j) =
      f.chroma (if j % 2 = 0 then .v else .u) (f.chromaSize (if j % 2 = 0 then .v else .u) * i + j / 2) := by
  apply Access.after_of_writes
  · exact ⟨_, _, mem_outs.mpr ((chroma_write f).mpr ⟨i, hi, j, hj, rfl⟩), Nat.le_refl _, Nat.lt_succ_self _⟩
  · intro a bs hm hle hlt
    obtain ⟨i', -, j', hj', hx⟩ := (chroma_write f).mp (mem_outs.mp hm)
    cases hx
    rw [List.length_singleton] at hlt
    have hplace : i' * f.width + j' = i * f.width + j := by omega
    obtain ⟨rfl, rfl⟩ := place_inj hj' hj hplace
    rw [Nat.sub_self]
    rfl

/-- No column is put in front of them. -/
theorem after_chroma_luma (out : Mem) {k : ℕ} (hk : k < f.ysize) : Access.after out (outs f.copyChroma) k = out k := by
  apply Access.after_of_not_writes
  rintro ⟨a, bs, hm, hle, -⟩
  obtain ⟨i, -, j, -, hx⟩ := (chroma_write f).mp (mem_outs.mp hm)
  cases hx
  omega

/-- Where a pixel is and where it is read show the same. -/
def LumaFollows : Prop := ∀ i < f.height, ∀ j < f.width, f.luma (i * f.width + j) = f.luma (f.lumaSize * i + j)

theorem nv21_iff (out : Mem) :
    f.Nv21 (Access.after out (outs (decodeH264 true 0 (some f)).events)) ↔ LumaFollows f := by
  have hplane : f.height * f.width ≤ f.lumaSize * f.height := by
    rw [Nat.mul_comm f.lumaSize]
    exact Nat.mul_le_mul_left _ f.lumaLine
  have hluma {i j : ℕ} (hi : i < f.height) (hj : j < f.width) :
      Access.after (Access.after out (outs f.copyLuma)) (outs f.copyChroma) (i * f.width + j) = f.luma (i * f.width + j) := by
    have hlt := lt_plane hi hj
    rw [after_chroma_luma f _ hlt, after_luma f _ (Nat.lt_of_lt_of_le hlt hplane)]
  rw [events_decode, outs_append, Access.after_append]
  constructor
  · rintro ⟨h, -⟩ i hi j hj
    rw [← hluma hi hj]
    exact h i hi j hj
  · intro h
    refine ⟨fun i hi j hj => (hluma hi hj).trans (h i hi j hj), fun i hi j hj => ?_⟩
    have hrow : i < f.height := by omega
    have hcol : 2 * j + 1 < f.width := by omega
    have hv := after_chroma f (Access.after out (outs f.copyLuma)) hrow (Nat.lt_of_succ_lt hcol)
    have hu := after_chroma f (Access.after out (outs f.copyLuma)) hrow hcol
    rw [if_pos (by omega), show 2 * j / 2 = j by omega] at hv
    rw [if_neg (by omega), show (2 * j + 1) / 2 = j by omega] at hu
    exact ⟨hv, hu⟩

/-! ## What is read, and where is written -/

theorem halfRows_iff : f.HalfRows (decodeH264 true 0 (some f)) ↔ f.height = 0 ∨ f.width = 0 := by
  unfold YuvFrame.HalfRows
  rw [events_decode]
  constructor
  · intro h
    by_contra hne
    rw [not_or] at hne
    -- the first column of the last line
    have hread : .chroma .v (f.chromaSize .v * (f.height - 1) + 0 / 2) ∈ f.copyLuma ++ f.copyChroma := by
      refine List.mem_append_right _ ((mem_copyChroma f).mpr ⟨f.height - 1, by omega, 0, by omega, ?_⟩)
      exact List.mem_cons_self ..
    have hlt := h _ _ hread
    have heven := f.evenHeight
    have hle : f.chromaSize .v * (f.height / 2) ≤ f.chromaSize .v * (f.height - 1) := Nat.mul_le_mul_left _ (by omega)
    omega
  · intro h c a hm
    rcases List.mem_append.mp hm with hm | hm
    · obtain ⟨i, -, he⟩ := (mem_copyLuma f).mp hm
      simp [YuvFrame.copyLine] at he
    · obtain ⟨i, hi, j, hj, -⟩ := (mem_copyChroma f).mp hm
      omega

theorem inRoom_iff : (∀ e ∈ (decodeH264 true 0 (some f)).events, e.InRoom) ↔
    f.lumaSize * f.height ≤ videoBufLen ∧ 2 * (f.height * f.width) ≤ videoBufLen := by
  rw [events_decode, List.forall_mem_append]
  apply and_congr
  · constructor
    · intro h
      rcases Nat.eq_zero_or_pos f.height with hz | hpos
      · rw [hz, Nat.mul_zero]
        exact Nat.zero_le _
      · have hlast := h _ ((luma_write f).mpr ⟨f.height - 1, by omega, rfl⟩)
        have hroom := hlast.2
        rwa [Mem.read_length, ← Nat.mul_succ, Nat.succ_eq_add_one, Nat.sub_add_cancel hpos] at hroom
    · intro h e he
      obtain ⟨i, hi, he⟩ := (mem_copyLuma f).mp he
      simp only [YuvFrame.copyLine, List.mem_cons, List.not_mem_nil, or_false] at he
      rcases he with rfl | rfl
      · trivial
      · refine ⟨Nat.zero_le _, ?_⟩
        rw [Mem.read_length, ← Nat.mul_succ]
        exact Nat.le_trans (Nat.mul_le_mul_left _ hi) h
  · constructor
    · intro h
      by_cases hempty : f.height = 0 ∨ f.width = 0
      · rcases hempty with hz | hz <;> simp [hz]
      · rw [not_or] at hempty
        have hlast := h _ ((chroma_write f).mpr ⟨f.height - 1, by omega, f.width - 1, by omega, rfl⟩)
        have hroom := hlast.2
        have hrow : (f.height - 1) * f.width + f.width = f.height * f.width := by
          rw [← Nat.succ_mul, Nat.succ_eq_add_one, Nat.sub_add_cancel (by omega)]
        rw [List.length_singleton, YuvFrame.ysize] at hroom
        omega
    · intro h e he
      obtain ⟨i, hi, j, hj, he⟩ := (mem_copyChroma f).mp he
      have hlt := lt_plane hi hj
      simp only [YuvFrame.copyByte, List.mem_cons, List.not_mem_nil, or_false] at he
      rcases he with rfl | rfl
      · trivial
      · refine ⟨Nat.zero_le _, ?_⟩
        rw [List.length_singleton, YuvFrame.ysize]
        omega

/-- **Pictures.** One is converted as it should be if and only if it is empty and its lines have room. In any case the buffer
holds its NV21 form if and only if the lines are as if they were not padded, the smaller planes are read in too many lines
unless it is empty, and the writes stay inside if and only if the lines and twice the size have room. -/
theorem converts_iff (out : Mem) :
    (f.Converts out ↔ (f.height = 0 ∨ f.width = 0) ∧ f.lumaSize * f.height ≤ videoBufLen) ∧
      (f.Nv21 (Access.after out (outs (decodeH264 true 0 (some f)).events)) ↔ LumaFollows f) ∧
      (f.HalfRows (decodeH264 true 0 (some f)) ↔ f.height = 0 ∨ f.width = 0) ∧
      ((∀ e ∈ (decodeH264 true 0 (some f)).events, e.InRoom) ↔
        f.lumaSize * f.height ≤ videoBufLen ∧ 2 * (f.height * f.width) ≤ videoBufLen) := by
  refine ⟨?_, nv21_iff f out, halfRows_iff f, inRoom_iff f⟩
  unfold YuvFrame.Converts
  dsimp only
  rw [nv21_iff, halfRows_iff, inRoom_iff]
  constructor
  · exact fun ⟨_, hempty, hroom, _⟩ => ⟨hempty, hroom⟩
  · rintro ⟨hempty, hroom⟩
    refine ⟨fun i hi j hj => by omega, hempty, hroom, ?_⟩
    rcases hempty with hz | hz <;> simp [hz]

/-- A picture of two lines of two pixels, with lines of 32 bytes that hold 1 and are padded with 0. -/
def paddedPicture : YuvFrame where
  width := 2
  height := 2
  lumaSize := 32
  chromaSize _ := 16
  luma k := if k % 32 < 2 then 1 else 0
  chroma _ _ := 128
  evenWidth := rfl
  evenHeight := rfl
  lumaLine := by decide
  chromaLine _ := by decide

theorem padded_not_converted : ¬ paddedPicture.Converts fun _ => 0 := by
  rintro ⟨h, -⟩
  have hsame := (nv21_iff paddedPicture _).mp h 1 (by decide) 0 (by decide)
  exact absurd hsame (by decide)

end

end FFDecode

end SabApp
