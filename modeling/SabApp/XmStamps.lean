import Mathlib.Data.List.Chain
import SabApp.Runs
import SabApp.XmMedia

/-!
# The times of an XM device's frames (tool_ptc.c)

Only I frames carry a time, of whole seconds. `tool_ptc_xm_xm2qh` keeps a clock that moves on by nine tenths of a frame's
time with every video frame, stamps P and audio frames with it, and sets its seconds, but not its microseconds, with every
I frame. Where the clock is ahead of the device by then, it goes back.
-/

namespace SabApp

namespace Xm

/-- The socket's fields after `tool_sock_item_open_v2`. -/
def openedItem : SockItem := ⟨0, 0, 0, 0, 0, 0, 0⟩

/-- A frame as `tool_ptc_xm_xm2qh` gets it: its kind and the bytes of its head. -/
structure SentFrame where
  kind : FrameKind
  head : List UInt8

/-- A socket, with the heads of the frames handed on so far. -/
structure StampWorld where
  item : SockItem
  heads : List FrameHead

namespace StampWorld

def start : StampWorld := ⟨openedItem, []⟩

section
variable (date2Time : FrameDate → UInt32)

/-- The time of an I frame. -/
def deviceSec (f : SentFrame) : UInt32 := date2Time (dateOf (word32 f.head 8))

/-- One call of `tool_ptc_xm_xm2qh`. -/
def frame (w : StampWorld) (f : SentFrame) : StampWorld :=
  match newHead date2Time w.item f.kind f.head with
  | some (h, item) => ⟨item, w.heads ++ [h]⟩
  | none => w

end

/-- The stamps of two frames, one after the other. -/
def InOrder (h h' : FrameHead) : Prop := h.sec < h'.sec ∨ h.sec = h'.sec ∧ h.usec ≤ h'.usec

instance (h h' : FrameHead) : Decidable (InOrder h h') := inferInstanceAs (Decidable (_ ∨ _))

structure Forward (hs : List FrameHead) : Prop where
  ordered : hs.IsChain InOrder
  usec : ∀ h ∈ hs, h.usec < 1000000
  numbered : hs.IsChain fun h h' => h'.no = h.no + 1

/-- The I frames carry times that do not go back. -/
def DatesForward (date2Time : FrameDate → UInt32) (fs : List SentFrame) : Prop :=
  ((fs.filter fun f => f.kind = .vi).map (deviceSec date2Time)).IsChain (· ≤ ·)

/-- Behind another frame: the clock's seconds are not before the last stamp's (they have not wrapped), and those of an I frame
are not before the clock's. -/
def Keeps (date2Time : FrameDate → UInt32) (w : StampWorld) (f : SentFrame) : Prop :=
  f.kind.media = true → ∀ h ∈ w.heads.getLast?,
    h.sec ≤ w.item.sec.toUInt32 ∧ (f.kind = .vi → w.item.sec.toUInt32 ≤ deviceSec date2Time f)

/-! ## The clock -/

/-- The clock behind a stamp: on in the same second, or carried into the next. -/
def Follows (h : FrameHead) (it : SockItem) : Prop :=
  it.sec.toUInt32 = h.sec ∧ h.usec ≤ it.usec.toUInt32 ∨ it.sec.toUInt32 = h.sec + 1 ∧ it.usec.toUInt32 < h.usec

theorem toInt_of_lt {x : Int32} (h : x.toUInt32.toNat < 2147483648) : x.toInt = x.toUInt32.toNat := by
  have hword := toInt_toInt32 x.toUInt32
  rwa [if_pos h] at hword

theorem toNat_of_nonneg {x : Int32} (h : 0 ≤ x.toInt) : (x.toUInt32.toNat : Int) = x.toInt := by
  have hword : x.toInt = _ := toInt_toInt32 x.toUInt32
  have hlt := x.toUInt32.toNat_lt
  rw [hword] at h ⊢
  split at h <;> omega

/-- Nine tenths of the time of a frame, of at least one frame a second. -/
theorem frameTime_bounds {fps : Int32} (h : 1 ≤ fps.toInt) :
    0 ≤ ((900000 : Int32) / fps).toInt ∧ ((900000 : Int32) / fps).toInt ≤ 900000 := by
  have hdiv := Int32.toInt_div_of_ne_left 900000 fps (by decide)
  have htop : (900000 : Int32).toInt = 900000 := rfl
  rw [hdiv, htop]
  exact ⟨Int.tdiv_nonneg (by decide) (by omega), Int.tdiv_le_self _ (by decide)⟩

theorem fps_pos (it : SockItem) :
    1 ≤ (if it.fpsVideo < 1 ∨ it.fpsVideo > 30 then (30 : Int32) else it.fpsVideo).toInt := by
  split
  · decide
  · next h =>
    rw [not_or, Int32.not_lt] at h
    exact Int32.le_iff_toInt_le.mp h.1

theorem advance_clock {it : SockItem} (h : it.usec.toUInt32 < 1000000) :
    (advance it).usec.toUInt32 < 1000000 ∧
      ((advance it).sec = it.sec ∧ it.usec.toUInt32 ≤ (advance it).usec.toUInt32 ∨
        (advance it).sec = it.sec + 1 ∧ (advance it).usec.toUInt32 < it.usec.toUInt32) := by
  have hlt : it.usec.toUInt32.toNat < 1000000 := UInt32.lt_iff_toNat_lt.mp h
  have hu := toInt_of_lt (x := it.usec) (by omega)
  obtain ⟨hq₀, hq₁⟩ := frameTime_bounds (fps_pos it)
  unfold advance
  generalize hq : (900000 : Int32) / (if it.fpsVideo < 1 ∨ it.fpsVideo > 30 then 30 else it.fpsVideo) = q at hq₀ hq₁ ⊢
  have hsum : (it.usec + q).toInt = it.usec.toUInt32.toNat + q.toInt := by
    rw [Int32.toInt_add, hu, Int.bmod_eq_of_le (by omega) (by omega)]
  have hnat := toNat_of_nonneg (x := it.usec + q) (by omega)
  have htop : (1000000 : UInt32).toNat = 1000000 := rfl
  dsimp only
  rw [hq]
  by_cases hc : it.usec + q ≥ 1000000
  · have hge : 1000000 ≤ (it.usec + q).toInt := Int32.le_iff_toInt_le.mp hc
    have hmod : ((it.usec + q) % 1000000).toInt = (it.usec + q).toInt - 1000000 := by
      have htop : (1000000 : Int32).toInt = 1000000 := rfl
      rw [Int32.toInt_mod, htop, Int.tmod_eq_emod_of_nonneg (by omega)]
      omega
    have hrest := toNat_of_nonneg (x := (it.usec + q) % 1000000) (by omega)
    rw [if_pos hc]
    refine ⟨UInt32.lt_iff_toNat_lt.mpr ?_, .inr ⟨rfl, UInt32.lt_iff_toNat_lt.mpr ?_⟩⟩
    · dsimp only
      omega
    · dsimp only
      omega
  · have hge : (it.usec + q).toInt < 1000000 := Int32.lt_iff_toInt_lt.mp (Int32.not_le.mp hc)
    rw [if_neg hc]
    refine ⟨UInt32.lt_iff_toNat_lt.mpr ?_, .inl ⟨rfl, UInt32.le_iff_toNat_le.mpr ?_⟩⟩
    · dsimp only
      omega
    · dsimp only
      omega

/-! ## One frame -/

section
variable (date2Time : FrameDate → UInt32)

/-- What a frame's head and the clock behind it are, from the clock before. -/
structure Stamped (it : SockItem) (f : SentFrame) (h : FrameHead) (it' : SockItem) : Prop where
  no : h.no = it.seq.toUInt32
  seq : it'.seq = it.seq + 1
  sec : h.sec = if f.kind = .vi then deviceSec date2Time f else it.sec.toUInt32
  usec : h.usec = it.usec.toUInt32
  sound : it'.usec.toUInt32 < 1000000
  follows : Follows h it'

theorem advance_seq (it : SockItem) : (advance it).seq = it.seq := by
  unfold advance
  dsimp only
  rw [apply_ite SockItem.seq, ite_self]

/-- The clock, moved on from a stamp. -/
theorem follows_advance {h : FrameHead} {it : SockItem} (hu : it.usec.toUInt32 < 1000000) (hsec : h.sec = it.sec.toUInt32)
    (husec : h.usec = it.usec.toUInt32) : Follows h (advance it) := by
  unfold Follows
  rw [hsec, husec]
  rcases (advance_clock hu).2 with ⟨hs, hle⟩ | ⟨hs, hlt⟩
  · rw [hs]
    exact .inl ⟨rfl, hle⟩
  · rw [hs]
    exact .inr ⟨rfl, hlt⟩

theorem stamped_advance {it it₁ : SockItem} {f : SentFrame} {h : FrameHead} (hu : it.usec.toUInt32 < 1000000)
    (hn : h.no = it.seq.toUInt32) (hs : h.sec = if f.kind = .vi then deviceSec date2Time f else it.sec.toUInt32)
    (hh : h.usec = it.usec.toUInt32) (hseq : it₁.seq = it.seq + 1) (hsec : h.sec = it₁.sec.toUInt32)
    (husec : it₁.usec = it.usec) : Stamped date2Time it f h (advance it₁) := by
  rw [← husec] at hu hh
  exact ⟨hn, (advance_seq it₁).trans hseq, hs, hh.trans (congrArg _ husec), (advance_clock hu).1,
    follows_advance hu hsec hh⟩

theorem stamped_of_media {it : SockItem} (hu : it.usec.toUInt32 < 1000000) {f : SentFrame} (hm : f.kind.media = true) :
    ∃ h it', newHead date2Time it f.kind f.head = some (h, it') ∧ Stamped date2Time it f h it' := by
  obtain ⟨kind, head⟩ := f
  cases kind with
  | vi => exact ⟨_, _, rfl, stamped_advance date2Time hu rfl rfl rfl rfl rfl rfl⟩
  | vp => exact ⟨_, _, rfl, stamped_advance date2Time hu rfl rfl rfl rfl rfl rfl⟩
  | a => exact ⟨_, _, rfl, rfl, rfl, rfl, rfl, hu, .inl ⟨rfl, UInt32.le_refl _⟩⟩
  | pic => cases hm
  | info => cases hm

theorem frame_media {w : StampWorld} {f : SentFrame} {h : FrameHead} {it' : SockItem}
    (hn : newHead date2Time w.item f.kind f.head = some (h, it')) : w.frame date2Time f = ⟨it', w.heads ++ [h]⟩ := by
  rw [frame, hn]

theorem frame_skipped (w : StampWorld) {f : SentFrame} (hm : ¬ f.kind.media = true) : w.frame date2Time f = w := by
  obtain ⟨kind, head⟩ := f
  cases kind with
  | vi | vp | a => exact absurd rfl hm
  | pic | info => rfl

/-- The clock and the last stamp, and what was handed on so far. -/
structure Clocked (w : StampWorld) : Prop where
  forward : Forward w.heads
  sound : w.item.usec.toUInt32 < 1000000
  last : ∀ h ∈ w.heads.getLast?, w.item.seq.toUInt32 = h.no + 1 ∧ Follows h w.item

theorem forward_snoc {hs : List FrameHead} {h : FrameHead} : Forward (hs ++ [h]) ↔
    Forward hs ∧ h.usec < 1000000 ∧ ∀ l ∈ hs.getLast?, InOrder l h ∧ h.no = l.no + 1 := by
  constructor
  · rintro ⟨ho, hu, hn⟩
    rw [List.isChain_append] at ho hn
    refine ⟨⟨ho.1, fun l hl => hu l (List.mem_append_left _ hl), hn.1⟩, hu h (List.mem_append_right _ ?_), ?_⟩
    · exact List.mem_singleton_self h
    · exact fun l hl => ⟨ho.2.2 l hl h rfl, hn.2.2 l hl h rfl⟩
  · rintro ⟨⟨ho, hu, hn⟩, huh, hl⟩
    refine ⟨List.isChain_append.mpr ⟨ho, .singleton h, ?_⟩, ?_, List.isChain_append.mpr ⟨hn, .singleton h, ?_⟩⟩
    · rintro l hlast _ ⟨⟩
      exact (hl l hlast).1
    · intro l hmem
      rcases List.mem_append.mp hmem with hmem | hmem
      · exact hu l hmem
      · rw [List.mem_singleton.mp hmem]
        exact huh
    · rintro l hlast _ ⟨⟩
      exact (hl l hlast).2

/-- Behind a stamp that the clock follows, the next is in order just as `Keeps` asks. -/
theorem inOrder_iff {l h : FrameHead} {it it' : SockItem} {f : SentFrame} (hl : Follows l it)
    (hs : Stamped date2Time it f h it') :
    InOrder l h ↔ l.sec ≤ it.sec.toUInt32 ∧ (f.kind = .vi → it.sec.toUInt32 ≤ deviceSec date2Time f) := by
  unfold InOrder
  rw [hs.usec, hs.sec]
  unfold Follows at hl
  simp only [UInt32.lt_iff_toNat_lt, UInt32.le_iff_toNat_le, ← UInt32.toNat_inj, UInt32.toNat_add] at hl ⊢
  have hsec := l.sec.toNat_lt
  have hdev := (deviceSec date2Time f).toNat_lt
  have hone : (1 : UInt32).toNat = 1 := rfl
  by_cases hv : f.kind = .vi
  · rw [if_pos hv]
    simp only [hv, forall_const]
    omega
  · rw [if_neg hv]
    simp only [hv, false_imp_iff, and_true]
    omega

/-- Behind a frame that is handed on. -/
theorem forward_frame_iff {w : StampWorld} (hw : Clocked w) {f : SentFrame} {h : FrameHead} {it' : SockItem}
    (hs : Stamped date2Time w.item f h it') (hm : f.kind.media = true) :
    Forward (w.heads ++ [h]) ↔ Keeps date2Time w f := by
  rw [forward_snoc, and_iff_right hw.forward, and_iff_right (by rw [hs.usec]; exact hw.sound)]
  unfold Keeps
  rw [imp_iff_right hm]
  refine forall₂_congr fun l hl => ?_
  obtain ⟨hno, hfollows⟩ := hw.last l hl
  rw [and_iff_left (by rw [hs.no, hno])]
  exact inOrder_iff date2Time hfollows hs

theorem clocked_frame {w : StampWorld} (hw : Clocked w) {f : SentFrame} (hk : Keeps date2Time w f) :
    Clocked (w.frame date2Time f) := by
  by_cases hm : f.kind.media = true
  · obtain ⟨h, it', hn, hs⟩ := stamped_of_media date2Time hw.sound hm
    rw [frame_media date2Time hn]
    refine ⟨(forward_frame_iff date2Time hw hs hm).mpr hk, hs.sound, fun l hl => ?_⟩
    rw [List.getLast?_concat] at hl
    cases hl
    refine ⟨?_, hs.follows⟩
    dsimp only
    rw [hs.seq, hs.no, Int32.toUInt32_add]
    rfl
  · rw [frame_skipped date2Time w hm]
    exact hw

theorem not_forward_frame {w : StampWorld} (hw : Clocked w) {f : SentFrame} (hk : ¬ Keeps date2Time w f) :
    ¬ Forward (w.frame date2Time f).heads := by
  by_cases hm : f.kind.media = true
  · obtain ⟨h, it', hn, hs⟩ := stamped_of_media date2Time hw.sound hm
    rw [frame_media date2Time hn]
    exact fun hfor => hk ((forward_frame_iff date2Time hw hs hm).mp hfor)
  · exact absurd (fun h => absurd h hm) hk

/-! ## A run of frames -/

theorem clocked_start : Clocked start := ⟨⟨.nil, nofun, .nil⟩, by decide, nofun⟩

theorem exec_frame (w : StampWorld) (fs : List SentFrame) :
    exec (fun w f => some (frame date2Time w f)) w fs = some (fs.foldl (frame date2Time) w) := by
  induction fs generalizing w with
  | nil => rfl
  | cons f fs ih => exact ih (w.frame date2Time f)

/-- **Frame times.** From the opening of the socket on, the stamps never go back, with `usec` below a million and the frames
numbered, if and only if the clock does not wrap and is at no I frame ahead of the device. -/
theorem stamps_forward_iff (fs : List SentFrame) :
    (∀ first, first <+: fs → Forward (first.foldl (frame date2Time) start).heads) ↔
      Meets (fun w f => some (frame date2Time w f)) (Keeps date2Time) start fs := by
  rw [← always_iff_meets (P := fun w : StampWorld => Forward w.heads) (fun _ _ hw hk => ⟨_, rfl, clocked_frame date2Time hw hk⟩)
    (fun _ hw => hw.forward) (fun _ _ _ hw hk ht => Option.some.inj ht ▸ not_forward_frame date2Time hw hk) clocked_start]
  unfold Always
  simp only [exec_frame, Option.some.injEq, exists_eq_left']

/-- The call of `tool_ptc_xm_xm2qh` on a frame in the buffer makes this step, and the new head is in front of what it hands
on. -/
theorem xm2qh_frame (w : MediaWorld) (b : RecvBuf) {k : FrameKind}
    (hk : FrameKind.ofType (word32 (b.mem.read 32 4) 0) = some k) :
    let v := frame date2Time ⟨w.item, []⟩ ⟨k, b.mem.read 32 k.headLen⟩
    (w.xm2qh date2Time b).item = v.item ∧
      ∀ h ∈ v.heads, h.len.toNat + 32 < 4294967296 →
        ∃ out, (w.xm2qh date2Time b).outs = w.outs ++ [out] ∧ out.take 32 = h.bytes := by
  unfold MediaWorld.xm2qh frame
  rw [hk]
  dsimp only
  cases newHead date2Time w.item k (b.mem.read 32 k.headLen) with
  | none => exact ⟨rfl, nofun⟩
  | some r =>
    refine ⟨rfl, fun h hm hlt => ⟨_, rfl, ?_⟩⟩
    rw [List.mem_singleton.mp hm] at hlt ⊢
    have hlen : (r.1.len + 32).toNat = r.1.len.toNat + 32 := by
      rw [UInt32.toNat_add]
      exact Nat.mod_eq_of_lt hlt
    have hread := Mem.read_write b.mem k.headLen r.1.bytes
    rw [FrameHead.bytes_length] at hread
    rw [hlen, ← Mem.read_take _ _ (Nat.le_add_left 32 _)]
    exact hread

end

/-- An I frame of second 40 at one frame a second. -/
def iFrame : SentFrame := ⟨.vi, [0, 0, 1, 0xFC, 2, 1, 0, 0, 40, 0, 0, 0, 0, 0, 0, 0]⟩

def pFrame : SentFrame := ⟨.vp, [0, 0, 1, 0xFD, 0, 0, 0, 0]⟩

/-- The device is still in second 40, and the clock past it. -/
theorem stamps_back : let sec (d : FrameDate) := UInt32.ofNat d.second
    DatesForward sec [iFrame, pFrame, iFrame] ∧ ¬ Forward ([iFrame, pFrame, iFrame].foldl (frame sec) start).heads := by
  constructor
  · unfold DatesForward
    decide
  · intro h
    have hback := (List.isChain_cons_cons.mp (List.isChain_cons_cons.mp h.ordered).2).1
    exact absurd hback (by decide)

end StampWorld

end Xm

end SabApp
