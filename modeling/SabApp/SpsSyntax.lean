import SabApp.Sps

/-!
# Sequence parameter sets as they are written

The syntax of a set, part by part, and the bits that it is written in. The parser takes each part as
it is written (the `reads_` lemmas), so of a set within its bounds it finds the dimensions
(`decodeSeqParameterSet_bits`), whatever stands behind it in the memory.
-/

namespace SabApp

namespace Sps

open Bits

/-! ## Parts that are there or not -/

/-- A part behind its flag. -/
def opt {α : Type} (w : α → List Bool) : Option α → List Bool
  | none => [false]
  | some x => true :: w x

section
variable {α β : Type}

theorem reads_refuse {c : Prop} [Decidable c] (h : ¬c) : Reads [] (refuse c) () := by
  rw [refuse, if_neg h]
  exact Reads.pure ()

theorem reads_flagged {w : α → List Bool} {p : Dec Unit} {o : Option α} (h : ∀ x ∈ o, Reads (w x) p ()) :
    Reads (opt w o) (flagged p) () := by
  cases o with
  | none => exact (reads_bit false).bind (Reads.pure ())
  | some x => exact (reads_bit true).bind (h x rfl)

theorem reads_times {w : α → List Bool} {p : Dec Unit} {xs : List α} (h : ∀ x ∈ xs, Reads (w x) p ()) :
    Reads (xs.flatMap w) (times xs.length p) () := by
  induction xs with
  | nil => exact Reads.pure ()
  | cons x xs ih =>
    rw [List.flatMap_cons]
    exact (h x List.mem_cons_self).bind (ih fun y hy => h y (List.mem_cons_of_mem _ hy))

theorem reads_skip {n x : ℕ} : Reads (bitsOf n x) (skipBits n) () := by
  intro st _ _
  rw [bitsOf_length]
  rfl

/-- What is left of the stream is at least what stands next of it. -/
theorem reads_left {l : List Bool} {f : ℤ → Dec β} {b : β} (h : ∀ n : ℤ, l.length ≤ n → Reads l (f n) b) :
    Reads l (getBitsLeft >>= f) b := by
  intro st hst hs
  rw [bind_eq (rfl : getBitsLeft st = (some (st.gb.sizeInBits - st.gb.index), st))]
  exact h _ (by omega) st hst hs

/-- A look at the next bit. -/
theorem reads_show {c : Bool} {l : List Bool} {f : ℕ → Dec β} {b : β} (h : Reads (c :: l) (f c.toNat) b) :
    Reads (c :: l) (showBits 1 >>= f) b := by
  intro st hst hs
  have hshow : showBits 1 st = (some c.toNat, st) := by
    have hr := Nat.mod_lt st.gb.index (by decide : 8 > 0)
    rw [showBits, cache_bits st.gb (by omega), val_one, hst.1]
  rw [bind_eq hshow]
  exact h st hst hs

/-- A number whose code the readers take wherever it stands. -/
theorem zeros_le_of_lt {v k : ℕ} (h : v + 1 < 2 ^ (k + 1)) : zeros v ≤ k :=
  Nat.le_of_lt_succ ((Nat.log2_lt (Nat.succ_ne_zero v)).mpr h)

theorem reads_ueLt {v : ℕ} (h : v < 8191) : Reads (ue v) getUeGolomb (v : ℤ) :=
  reads_ue (zeros_le_of_lt (by omega))

theorem reads_seLt {d : ℤ} (h : d.natAbs ≤ 8388608) : Reads (se d) getSeGolomb d := by
  refine reads_se (zeros_le_of_lt ?_)
  unfold signed
  split <;> omega

theorem reads_ueLongLt {v : ℕ} (h : v < 4294967295) : Reads (ue v) getUeGolombLong v :=
  reads_ueLong (zeros_le_of_lt (by omega))

end

/-! ## Usability information -/

structure Cpb where
  bitRate : ℕ
  cpbSize : ℕ
  cbr : Bool

def Cpb.bits (c : Cpb) : List Bool := ue c.bitRate ++ (ue c.cpbSize ++ [c.cbr])

structure Cpb.Ok (c : Cpb) : Prop where
  bitRate : c.bitRate < 4294967295
  cpbSize : c.cpbSize < 4294967295

theorem reads_cpb {c : Cpb} (h : c.Ok) : Reads c.bits cpb () :=
  (reads_ueLongLt h.bitRate).bind ((reads_ueLongLt h.cpbSize).bind ((reads_bit c.cbr).map (Reads.pure ())))

/-- The buffers, the first of them apart since there is always one. -/
structure Hrd where
  first : Cpb
  more : List Cpb
  bitRateScale : ℕ
  cpbSizeScale : ℕ
  initialDelay : ℕ
  removalDelay : ℕ
  outputDelay : ℕ
  timeOffset : ℕ

def Hrd.bits (r : Hrd) : List Bool :=
  ue r.more.length ++ (bitsOf 4 r.bitRateScale ++ (bitsOf 4 r.cpbSizeScale ++
    ((r.first :: r.more).flatMap Cpb.bits ++ (bitsOf 5 r.initialDelay ++ (bitsOf 5 r.removalDelay ++
      (bitsOf 5 r.outputDelay ++ bitsOf 5 r.timeOffset))))))

structure Hrd.Ok (r : Hrd) : Prop where
  number : r.more.length < 32
  cpbs : ∀ c ∈ r.first :: r.more, c.Ok
  bitRateScale : r.bitRateScale < 16
  cpbSizeScale : r.cpbSizeScale < 16
  initialDelay : r.initialDelay < 32
  removalDelay : r.removalDelay < 32
  outputDelay : r.outputDelay < 32
  timeOffset : r.timeOffset < 32

theorem reads_hrd {r : Hrd} (h : r.Ok) : Reads r.bits decodeHrdParameters () := by
  have hn := h.number
  have hcpbs : Reads ((r.first :: r.more).flatMap Cpb.bits) (times (r.more.length + 1) cpb) () :=
    reads_times fun c hc => reads_cpb (h.cpbs c hc)
  have h4 : 4 ≤ 25 := by decide
  have h5 : 5 ≤ 25 := by decide
  exact (reads_ue31 (by omega)).bind <| (reads_refuse (by omega) : Reads [] _ ()).bind <|
    (reads_bits h4 h.bitRateScale).bind <| (reads_bits h4 h.cpbSizeScale).bind <| hcpbs.bind <|
    (reads_bits h5 h.initialDelay).bind <| (reads_bits h5 h.removalDelay).bind <|
    (reads_bits h5 h.outputDelay).bind <| (reads_bits h5 h.timeOffset).map (Reads.pure ())

inductive Aspect
  | extended (num den : ℕ)
  | preset (idc : ℕ)

def Aspect.bits : Aspect → List Bool
  | .extended num den => bitsOf 8 255 ++ (bitsOf 16 num ++ bitsOf 16 den)
  | .preset idc => bitsOf 8 idc

def Aspect.Ok : Aspect → Prop
  | .extended num den => num < 65536 ∧ den < 65536
  | .preset idc => idc < 17

theorem reads_aspect {a : Aspect} (h : a.Ok) : Reads a.bits aspectRatio () := by
  cases a with
  | extended num den =>
    exact (reads_bits (by decide) (by decide)).bind ((reads_bits (by decide) h.1).bind
      ((reads_bits (by decide) h.2).map (Reads.pure ())))
  | preset idc =>
    have hi : idc < 17 := h
    refine (reads_bits (by decide) (by omega)).map ?_
    rw [if_neg (by omega)]
    exact reads_refuse (by omega)

structure Colour where
  primaries : ℕ
  transfer : ℕ
  matrix : ℕ

def Colour.bits (c : Colour) : List Bool := bitsOf 8 c.primaries ++ (bitsOf 8 c.transfer ++ bitsOf 8 c.matrix)

structure Colour.Ok (c : Colour) : Prop where
  primaries : c.primaries < 256
  transfer : c.transfer < 256
  matrix : c.matrix < 256

theorem reads_colour {c : Colour} (h : c.Ok) : Reads c.bits colourDescription () := by
  have h8 : 8 ≤ 25 := by decide
  exact (reads_bits h8 h.primaries).bind
    ((reads_bits h8 h.transfer).bind ((reads_bits h8 h.matrix).map (Reads.pure ())))

structure Signal where
  format : ℕ
  fullRange : Bool
  colour : Option Colour

def Signal.bits (v : Signal) : List Bool := bitsOf 3 v.format ++ ([v.fullRange] ++ opt Colour.bits v.colour)

structure Signal.Ok (v : Signal) : Prop where
  format : v.format < 8
  colour : ∀ c ∈ v.colour, c.Ok

theorem reads_signal {v : Signal} (h : v.Ok) : Reads v.bits videoSignal () :=
  (reads_bits (by decide : 3 ≤ 25) h.format).bind ((reads_bit v.fullRange).bind
    (reads_flagged fun c hc => reads_colour (h.colour c hc)))

structure Location where
  top : ℕ
  bottom : ℕ

def Location.bits (c : Location) : List Bool := ue c.top ++ ue c.bottom

structure Location.Ok (c : Location) : Prop where
  top : c.top < 8191
  bottom : c.bottom < 8191

theorem reads_location {c : Location} (h : c.Ok) : Reads c.bits chromaLocation () :=
  (reads_ueLt h.top).bind ((reads_ueLt h.bottom).map (Reads.pure ()))

structure Timing where
  units : ℕ
  scale : ℕ
  fixed : Bool

def Timing.bits (t : Timing) : List Bool := bitsOf 32 t.units ++ (bitsOf 32 t.scale ++ [t.fixed])

structure Timing.Ok (t : Timing) : Prop where
  units : 0 < t.units ∧ t.units < 4294967296
  scale : 0 < t.scale ∧ t.scale < 4294967296

theorem reads_timing {t : Timing} (h : t.Ok) : Reads t.bits timing () := by
  have hu := h.units
  have hs := h.scale
  exact (reads_bitsLong (Nat.le_refl 32) hu.2).bind <| (reads_bitsLong (Nat.le_refl 32) hs.2).bind <|
    (reads_refuse (by omega) : Reads [] _ ()).bind <| (reads_bit t.fixed).map (Reads.pure ())

structure Restriction where
  overPic : Bool
  bytes : ℕ
  mbBits : ℕ
  horizontal : ℕ
  vertical : ℕ
  reorder : ℕ
  buffering : ℕ

def Restriction.bits (r : Restriction) : List Bool :=
  [r.overPic] ++ (ue r.bytes ++
    (ue r.mbBits ++ (ue r.horizontal ++ (ue r.vertical ++ (ue r.reorder ++ ue r.buffering)))))

structure Restriction.Ok (r : Restriction) : Prop where
  bytes : r.bytes < 8191
  mbBits : r.mbBits < 8191
  horizontal : r.horizontal < 8191
  vertical : r.vertical < 8191
  reorder : r.reorder ≤ 16
  buffering : r.buffering < 8191

theorem reads_restriction {r : Restriction} (h : r.Ok) : Reads r.bits bitstreamRestriction () := by
  have hr := h.reorder
  refine (reads_bit r.overPic).bind <| (reads_ueLt h.bytes).bind <| (reads_ueLt h.mbBits).bind <|
    (reads_ueLt h.horizontal).bind <| (reads_ueLt h.vertical).bind <| (reads_ueLt (by omega)).bind <|
    (reads_ueLt h.buffering).map (reads_left fun n hn => ?_)
  rw [List.length_nil] at hn
  rw [if_neg (by omega)]
  exact reads_refuse (by omega)

structure Vui where
  aspect : Option Aspect
  overscan : Option Bool
  signal : Option Signal
  location : Option Location
  timing : Option Timing
  nal : Option Hrd
  vcl : Option Hrd
  lowDelay : Bool
  picStruct : Bool
  restriction : Option Restriction

/-- Read only behind parameters of a buffer. -/
def Vui.lowDelayBits (v : Vui) : List Bool := if v.nal.isSome || v.vcl.isSome then [v.lowDelay] else []

def Vui.tailBits (v : Vui) : List Bool :=
  opt Hrd.bits v.nal ++
    (opt Hrd.bits v.vcl ++ (v.lowDelayBits ++ ([v.picStruct] ++ opt Restriction.bits v.restriction)))

def Vui.bits (v : Vui) : List Bool :=
  opt Aspect.bits v.aspect ++ (opt (fun c => [c]) v.overscan ++ (opt Signal.bits v.signal ++
    (opt Location.bits v.location ++ (opt Timing.bits v.timing ++ v.tailBits))))

structure Vui.Ok (v : Vui) : Prop where
  aspect : ∀ a ∈ v.aspect, a.Ok
  signal : ∀ s ∈ v.signal, s.Ok
  location : ∀ c ∈ v.location, c.Ok
  timing : ∀ t ∈ v.timing, t.Ok
  nal : ∀ r ∈ v.nal, r.Ok
  vcl : ∀ r ∈ v.vcl, r.Ok
  restriction : ∀ r ∈ v.restriction, r.Ok

/-- The parser reads the flag and asks for it again later. -/
theorem reads_hrdFlag {β : Type} {o : Option Hrd} (h : ∀ r ∈ o, r.Ok) {l : List Bool} {f : Bool → Dec β} {b : β}
    (hf : Reads l (f o.isSome) b) :
    Reads (opt Hrd.bits o ++ l) (getBits1 >>= fun c => part c decodeHrdParameters >>= fun _ => f c) b := by
  cases o with
  | none => exact (reads_bit false).bind ((Reads.pure () : Reads [] _ ()).bind hf)
  | some r =>
    rw [opt, List.cons_append]
    exact (reads_bit true).bind ((reads_hrd (h r rfl)).bind hf)

theorem reads_vuiTail {v : Vui} (h : v.Ok) : Reads v.tailBits vuiTail () := by
  refine reads_hrdFlag h.nal (reads_hrdFlag h.vcl ?_)
  have hlow : Reads v.lowDelayBits (part (v.nal.isSome || v.vcl.isSome) (getBits1 >>= fun _ => pure ())) () := by
    unfold Vui.lowDelayBits
    cases v.nal.isSome || v.vcl.isSome with
    | true => exact (reads_bit v.lowDelay).map (Reads.pure ())
    | false => exact Reads.pure ()
  refine hlow.bind <| (reads_bit v.picStruct).bind <| reads_left fun n hn => ?_
  have hpos : 0 < (opt Restriction.bits v.restriction).length := by
    cases v.restriction <;> simp [opt]
  rw [if_neg (by omega)]
  refine (reads_flagged fun r hr => reads_restriction (h.restriction r hr)).map (reads_left fun k hk => ?_)
  rw [List.length_nil] at hk
  exact reads_refuse (by omega)

theorem reads_vui {v : Vui} (h : v.Ok) : Reads v.bits decodeVuiParameters () := by
  refine (reads_flagged fun a ha => reads_aspect (h.aspect a ha)).bind <|
    (reads_flagged fun c _ => (reads_bit c).map (Reads.pure ())).bind <|
    (reads_flagged fun s hs => reads_signal (h.signal s hs)).bind <|
    (reads_flagged fun c hc => reads_location (h.location c hc)).bind ?_
  have htail : Reads (opt Timing.bits v.timing ++ v.tailBits) (flagged timing >>= fun _ => vuiTail) () :=
    (reads_flagged fun t ht => reads_timing (h.timing t ht)).bind (reads_vuiTail h)
  cases ht : v.timing with
  | none =>
    rw [ht] at htail
    refine reads_show (reads_left fun n _ => ?_)
    rw [if_neg (by simp)]
    exact htail
  | some t =>
    rw [ht] at htail
    refine reads_show (reads_left fun n hn => ?_)
    have hlen : 10 ≤ (opt Timing.bits (some t) ++ v.tailBits).length := by
      rw [opt, List.length_append, List.length_cons, Timing.bits, List.length_append, bitsOf_length]
      omega
    have hn10 : ¬n < 10 := by
      have hn' : ((opt Timing.bits (some t) ++ v.tailBits).length : ℤ) ≤ n := hn
      omega
    rw [if_neg (fun hc => hn10 hc.2)]
    exact htail

/-! ## Scaling lists -/

/-- The differences of a list: they stop where a factor becomes zero, or with the last factor. -/
def Deltas : ℕ → ℕ → List ℤ → Prop
  | 0, _, ds => ds = []
  | _ + 1, _, [] => False
  | n + 1, last, d :: ds => d.natAbs ≤ 8388608 ∧
      if (last + d) % 256 = 0 then ds = [] else Deltas n ((last + d) % 256).toNat ds

section
variable {jvtList scan : List ℕ}

/-- Behind a zero nothing is read. -/
theorem reads_scalingRest (jvtList scan : List ℕ) (n i : ℕ) (factors : List ℕ) (last : ℕ) :
    ∃ fs, Reads [] (scalingLoop jvtList scan n (i + 1) factors last 0) fs := by
  induction n generalizing i factors with
  | zero => exact ⟨factors, Reads.pure factors⟩
  | succ n ih =>
    obtain ⟨fs, hfs⟩ := ih (i + 1) (factors.set (scan.getD (i + 1) 0) last)
    refine ⟨fs, (Reads.pure 0 : Reads [] (nextScale last 0) 0).bind ?_⟩
    rw [if_neg (fun hc => Nat.succ_ne_zero i hc.1)]
    exact hfs

theorem reads_scalingLoop {n i last : ℕ} (hl : last ≠ 0) (factors : List ℕ) {ds : List ℤ} (h : Deltas n last ds) :
    ∃ fs, Reads (ds.flatMap se) (scalingLoop jvtList scan n i factors last last) fs := by
  induction n generalizing i last factors ds with
  | zero =>
    cases h
    exact ⟨factors, Reads.pure factors⟩
  | succ n ih =>
    cases ds with
    | nil => exact absurd h id
    | cons d ds =>
      obtain ⟨hd, h⟩ := h
      have hnext : Reads (se d) (nextScale last last) ((last + d) % 256).toNat := by
        rw [nextScale, if_pos hl]
        exact (reads_seLt hd).map (Reads.pure _)
      rw [List.flatMap_cons]
      by_cases h0 : (last + d) % 256 = 0
      · rw [if_pos h0] at h
        subst h
        rw [h0] at hnext
        by_cases hi : i = 0
        · refine ⟨jvtList, hnext.bind ?_⟩
          rw [if_pos ⟨hi, rfl⟩]
          exact Reads.pure jvtList
        · obtain ⟨fs, hfs⟩ := reads_scalingRest jvtList scan n i (factors.set (scan.getD i 0) last) last
          refine ⟨fs, hnext.bind ?_⟩
          rw [if_neg (fun hc => hi hc.1)]
          exact hfs
      · have hne : ((last + d) % 256).toNat ≠ 0 := by omega
        rw [if_neg h0] at h
        obtain ⟨fs, hfs⟩ := ih (i := i + 1) hne (factors.set (scan.getD i 0) ((last + d) % 256).toNat) h
        refine ⟨fs, hnext.bind ?_⟩
        rw [if_neg (fun hc => hne hc.2)]
        dsimp only
        rw [if_pos hne]
        exact hfs

end

/-- The bits are taken, whatever is made of them. -/
def Takes {α : Type} (l : List Bool) (p : Dec α) : Prop := ∃ a, Reads l p a

theorem Takes.bind {α β : Type} {l l' : List Bool} {p : Dec α} {f : α → Dec β} (hp : Takes l p)
    (hf : ∀ a, Takes l' (f a)) : Takes (l ++ l') (p >>= f) := by
  obtain ⟨a, ha⟩ := hp
  obtain ⟨b, hb⟩ := hf a
  exact ⟨b, ha.bind hb⟩

theorem Takes.pure {α : Type} (a : α) : Takes [] (Pure.pure a : Dec α) := ⟨a, Reads.pure a⟩

def listBits (o : Option (List ℤ)) : List Bool := opt (·.flatMap se) o

def ListOk (size : ℕ) (o : Option (List ℤ)) : Prop := ∀ ds ∈ o, Deltas size 8 ds

theorem takes_list {size : ℕ} {o : Option (List ℤ)} (h : ListOk size o) (jvtList fallbackList : List ℕ) :
    Takes (listBits o) (decodeScalingList size jvtList fallbackList) := by
  cases o with
  | none => exact ⟨fallbackList, (reads_bit false).bind (Reads.pure fallbackList)⟩
  | some ds =>
    obtain ⟨fs, hfs⟩ := reads_scalingLoop (by decide) _ (h ds rfl)
    exact ⟨fs, (reads_bit true).bind hfs⟩

/-- The lists in the order in which they are written; the last four with chroma as large as luma. -/
structure Matrices where
  l4 : Fin 6 → Option (List ℤ)
  l8 : Fin 2 → Option (List ℤ)
  chroma8 : Fin 4 → Option (List ℤ)

def Matrices.bits4 (m : Matrices) : List Bool :=
  listBits (m.l4 0) ++ (listBits (m.l4 1) ++ (listBits (m.l4 2) ++ (listBits (m.l4 3) ++ (listBits (m.l4 4) ++
    (listBits (m.l4 5) ++ [])))))

def Matrices.chromaBits (m : Matrices) (chroma : ℕ) : List Bool :=
  if chroma = 3 then listBits (m.chroma8 0) ++ (listBits (m.chroma8 1) ++ (listBits (m.chroma8 2) ++
    (listBits (m.chroma8 3) ++ [])))
  else []

def Matrices.bits (chroma : ℕ) (m : Matrices) : List Bool :=
  m.bits4 ++ ((listBits (m.l8 ⟨0, Nat.two_pos⟩) ++ (listBits (m.l8 ⟨1, Nat.one_lt_two⟩) ++ m.chromaBits chroma)) ++ [])

structure Matrices.Ok (m : Matrices) : Prop where
  l4 : ∀ i, ListOk 16 (m.l4 i)
  l8 : ∀ i, ListOk 64 (m.l8 i)
  chroma8 : ∀ i, ListOk 64 (m.chroma8 i)

theorem takes_scaling4 {m : Matrices} (h : m.Ok) : Takes m.bits4 scaling4 :=
  (takes_list (h.l4 0) _ _).bind fun _ => (takes_list (h.l4 1) _ _).bind fun _ =>
    (takes_list (h.l4 2) _ _).bind fun _ => (takes_list (h.l4 3) _ _).bind fun _ =>
    (takes_list (h.l4 4) _ _).bind fun _ => (takes_list (h.l4 5) _ _).bind fun _ => Takes.pure _

theorem takes_scaling8 {m : Matrices} (h : m.Ok) (chroma : ℕ) :
    Takes (listBits (m.l8 0) ++ (listBits (m.l8 1) ++ m.chromaBits chroma)) (scaling8 chroma) := by
  refine (takes_list (h.l8 0) _ _).bind fun m₀ => (takes_list (h.l8 1) _ _).bind fun m₃ => ?_
  unfold Matrices.chromaBits
  split
  · exact (takes_list (h.chroma8 0) _ _).bind fun _ => (takes_list (h.chroma8 1) _ _).bind fun _ =>
      (takes_list (h.chroma8 2) _ _).bind fun _ => (takes_list (h.chroma8 3) _ _).bind fun _ => Takes.pure _
  · exact Takes.pure _

theorem takes_matrices {o : Option Matrices} (h : ∀ m ∈ o, m.Ok) (chroma : ℕ) :
    Takes (opt (Matrices.bits chroma) o) (decodeScalingMatrices chroma) := by
  cases o with
  | none => exact ⟨_, (reads_bit false).bind (Reads.pure _)⟩
  | some m =>
    have hflag : Takes [true] getBits1 := ⟨true, reads_bit true⟩
    obtain ⟨a, ha⟩ := (takes_scaling4 (h m rfl)).bind fun m4 => (takes_scaling8 (h m rfl) chroma).bind fun m8 =>
      Takes.pure (Scaling.mk m4 m8)
    exact ⟨a, (reads_bit true).bind ha⟩

/-! ## The set -/

/-- What the high profiles add. -/
structure High where
  chroma : ℕ
  bitDepth : ℕ
  bypass : Bool
  matrices : Option Matrices

/-- Separate colour planes are not written. -/
def High.planeBits (p : High) : List Bool := if p.chroma = 3 then [false] else []

def High.bits (p : High) : List Bool :=
  ue p.chroma ++ (p.planeBits ++ (ue p.bitDepth ++ (ue p.bitDepth ++ ([p.bypass] ++
    (opt (Matrices.bits p.chroma) p.matrices ++ [])))))

structure High.Ok (p : High) : Prop where
  chroma : p.chroma ≤ 3
  bitDepth : p.bitDepth ≤ 6
  matrices : ∀ m ∈ p.matrices, m.Ok

theorem reads_high {p : High} (h : p.Ok) : Reads p.bits high () := by
  have hc := h.chroma
  have hb := h.bitDepth
  have hplane : Reads p.planeBits (part (p.chroma = 3) separatePlanes) () := by
    unfold High.planeBits
    by_cases h3 : p.chroma = 3
    · rw [if_pos h3, decide_eq_true h3]
      exact (reads_bit false).map (reads_refuse (by decide))
    · rw [if_neg h3, decide_eq_false h3]
      exact Reads.pure ()
  obtain ⟨a, ha⟩ := takes_matrices h.matrices p.chroma
  exact (reads_ue31 (by omega)).bind <| (reads_refuse (by omega) : Reads [] _ ()).bind <| hplane.bind <|
    (reads_ueLt (by omega)).bind <| (reads_ueLt (by omega)).bind <| (reads_refuse (by omega) : Reads [] _ ()).bind <|
    (reads_refuse (by omega) : Reads [] _ ()).bind <| (reads_bit p.bypass).bind <| ha.bind (Reads.pure ())

inductive Poc
  | lsb (log2Max : ℕ)
  | cycle (alwaysZero : Bool) (nonRef topBottom : ℤ) (offsets : List ℤ)
  | output

def Poc.bits : Poc → List Bool
  | .lsb t => ue 0 ++ ue t
  | .cycle z a b os => ue 1 ++ ([z] ++ (se a ++ (se b ++ (ue os.length ++ os.flatMap se))))
  | .output => ue 2

def Poc.Ok : Poc → Prop
  | .lsb t => t < 8191
  | .cycle _ a b os => a.natAbs ≤ 8388608 ∧ b.natAbs ≤ 8388608 ∧ os.length < 256 ∧ ∀ o ∈ os, o.natAbs ≤ 8388608
  | .output => True

theorem reads_poc {p : Poc} (h : p.Ok) : Reads p.bits picOrderCount () := by
  cases p with
  | lsb t => exact (reads_ue31 (by decide)).bind ((reads_ueLt h).map (Reads.pure ()))
  | cycle z a b os =>
    obtain ⟨ha, hb, hn, hos⟩ := h
    have htimes : Reads (os.flatMap se) (times (os.length : ℤ).toNat (getSeGolomb >>= fun _ => pure ())) () := by
      rw [Int.toNat_natCast]
      exact reads_times fun o ho => (reads_seLt (hos o ho)).map (Reads.pure ())
    exact (reads_ue31 (by decide)).bind <| (reads_bit z).bind <| (reads_seLt ha).bind <| (reads_seLt hb).bind <|
      (reads_ueLt (by omega)).bind <| (reads_refuse (by omega) : Reads [] _ ()).bind htimes
  | output =>
    have hno : Reads [] (refuse (2 ≠ 2)) () := reads_refuse (by decide)
    exact (reads_ue31 (by decide)).map hno

structure Crop where
  left : ℕ
  right : ℕ
  top : ℕ
  bottom : ℕ

def Crop.bits (c : Crop) : List Bool := ue c.left ++ (ue c.right ++ (ue c.top ++ ue c.bottom))

structure Crop.Ok (c : Crop) : Prop where
  left : c.left < 8191
  right : c.right < 8191
  top : c.top < 8191
  bottom : c.bottom < 8191

theorem reads_crop {c : Crop} (h : c.Ok) : Reads c.bits crop () :=
  (reads_ueLt h.left).bind
    ((reads_ueLt h.right).bind ((reads_ueLt h.top).bind ((reads_ueLt h.bottom).map (Reads.pure ()))))

structure ParamSet where
  profileIdc : ℕ
  constraints : List Bool
  levelIdc : ℕ
  spsId : ℕ
  high : High
  log2MaxFrameNum : ℕ
  poc : Poc
  refFrames : ℕ
  gaps : Bool
  widthMbs : ℕ
  heightMbs : ℕ
  frameMbsOnly : Bool
  mbAff : Bool
  direct8x8 : Bool
  crop : Option Crop
  vui : Option Vui

namespace ParamSet

variable (s : ParamSet)

/-- Six flags and two reserved bits make a byte. -/
def headerBits : List Bool :=
  bitsOf 8 s.profileIdc ++ (s.constraints ++ (bitsOf 2 0 ++ (bitsOf 8 s.levelIdc ++ (ue s.spsId ++ []))))

def highBits : List Bool := if s.profileIdc ∈ highProfiles then s.high.bits else []

def toDimsBits : List Bool :=
  s.highBits ++ (ue s.log2MaxFrameNum ++ (s.poc.bits ++ (ue s.refFrames ++ [s.gaps])))

def mbAffBits : List Bool := if s.frameMbsOnly then [] else [s.mbAff]

def afterDimsBits : List Bool :=
  [s.frameMbsOnly] ++ (s.mbAffBits ++ ([s.direct8x8] ++ (opt Crop.bits s.crop ++ opt Vui.bits s.vui)))

def bits : List Bool :=
  s.headerBits ++ (s.toDimsBits ++ (ue (s.widthMbs - 1) ++ (ue (s.heightMbs - 1) ++ s.afterDimsBits)))

/-- The bounds of the syntax, and of the dimensions what the readers take wherever it stands. -/
structure Ok : Prop where
  profileIdc : s.profileIdc < 256
  constraints : s.constraints.length = 6
  levelIdc : s.levelIdc < 256
  spsId : s.spsId < 32
  high : s.high.Ok
  log2MaxFrameNum : s.log2MaxFrameNum ≤ 12
  poc : s.poc.Ok
  refFrames : s.refFrames ≤ 31
  widthMbs : 0 < s.widthMbs ∧ s.widthMbs ≤ 8191
  heightMbs : 0 < s.heightMbs ∧ s.heightMbs ≤ 8191
  crop : ∀ c ∈ s.crop, c.Ok
  vui : ∀ v ∈ s.vui, v.Ok

variable {s}

theorem Ok.reads_header (h : s.Ok) : Reads s.headerBits header s.profileIdc := by
  have hid := h.spsId
  have hflags : Reads s.constraints (times 6 (getBits1 >>= fun _ => pure ())) () := by
    have ht := reads_times (w := fun c => [c]) (p := getBits1 >>= fun _ => pure ())
      fun c (_ : c ∈ s.constraints) => (reads_bit c).map (Reads.pure ())
    rwa [List.flatMap_singleton', h.constraints] at ht
  have h8 : 8 ≤ 25 := by decide
  exact (reads_bits h8 h.profileIdc).bind <| hflags.bind <| reads_skip.bind <| (reads_bits h8 h.levelIdc).bind <|
    (reads_ue31 (by omega)).bind <| (reads_refuse (by omega) : Reads [] _ ()).bind (Reads.pure _)

theorem Ok.reads_toDims (h : s.Ok) : Reads s.toDimsBits (toDims s.profileIdc) () := by
  have hl := h.log2MaxFrameNum
  have hhigh : Reads s.highBits (part (s.profileIdc ∈ highProfiles) Sps.high) () := by
    unfold highBits
    by_cases hp : s.profileIdc ∈ highProfiles
    · rw [if_pos hp, decide_eq_true hp]
      exact reads_high h.high
    · rw [if_neg hp, decide_eq_false hp]
      exact Reads.pure ()
  exact hhigh.bind <| (reads_ueLt (by omega)).bind <| (reads_refuse (by omega) : Reads [] _ ()).bind <|
    (reads_poc h.poc).bind <| (reads_ue31 h.refFrames).bind <| (reads_bit s.gaps).map (Reads.pure ())

theorem Ok.reads_afterDims (h : s.Ok) : Reads s.afterDimsBits afterDims () := by
  have haff : Reads s.mbAffBits (part (!s.frameMbsOnly) (getBits1 >>= fun _ => pure ())) () := by
    unfold mbAffBits
    cases s.frameMbsOnly with
    | true => exact Reads.pure ()
    | false => exact (reads_bit s.mbAff).map (Reads.pure ())
  exact (reads_bit s.frameMbsOnly).bind <| haff.bind <| (reads_bit s.direct8x8).bind <|
    (reads_flagged fun c hc => reads_crop (h.crop c hc)).bind (reads_flagged fun v hv => reads_vui (h.vui v hv))

def dimsBits (s : ParamSet) : List Bool := ue (s.widthMbs - 1) ++ ue (s.heightMbs - 1)

/-- The state with the dimensions found. -/
def withDims (st : St) (s : ParamSet) : St := ⟨st.gb, s.widthMbs, s.heightMbs⟩

/-- The dimensions go into the state. -/
theorem Ok.dims_eq (h : s.Ok) (st : St) (hst : Holds st.gb.buffer st.gb.index s.dimsBits)
    (hs : (st.gb.index : ℤ) + s.dimsBits.length ≤ st.gb.sizeInBits) :
    dims st = (some (), withDims (st.skip s.dimsBits.length) s) := by
  have hw := h.widthMbs
  have hh := h.heightMbs
  obtain ⟨h₁, h₂⟩ := holds_append.mp hst
  rw [dimsBits, List.length_append, Int.natCast_add] at hs
  have e₁ := reads_ueLt (v := s.widthMbs - 1) (by omega) st h₁ (by omega)
  have e₂ : getUeGolomb { st.skip (ue (s.widthMbs - 1)).length with mbWidth := s.widthMbs } = _ :=
    reads_ueLt (v := s.heightMbs - 1) (by omega) _ h₂ (by rw [St.skip_index, St.skip_sizeInBits]; omega)
  have hset : setMbWidth ((s.widthMbs - 1 : ℕ) + 1) (st.skip (ue (s.widthMbs - 1)).length) =
      (some (), { st.skip (ue (s.widthMbs - 1)).length with mbWidth := s.widthMbs }) := by
    have hcast : ((s.widthMbs - 1 : ℕ) : ℤ) + 1 = s.widthMbs := by omega
    rw [hcast]
    rfl
  have hcast : ((s.heightMbs - 1 : ℕ) : ℤ) + 1 = s.heightMbs := by omega
  rw [dims, bind_eq e₁, bind_eq hset, bind_eq e₂, hcast, dimsBits, List.length_append, ← St.skip_skip]
  rfl

end ParamSet

theorem int32_of_lt {n : ℤ} (h₁ : -2147483648 ≤ n) (h₂ : n < 2147483648) : int32 n = n :=
  Int.bmod_eq_of_le h₁ h₂

/-- **The dimensions of a set**: of a set as it is written, the parser gives sixteen times its dimensions in
macroblocks, whatever stands behind it; what the set cuts off of the picture, and whether its lines come in two
fields, changes nothing. -/
theorem decodeSeqParameterSet_bits {s : ParamSet} (h : s.Ok) (gb : GetBits) (hg : Holds gb.buffer gb.index s.bits)
    (hs : (gb.index : ℤ) + s.bits.length ≤ gb.sizeInBits) (width height : ℤ) :
    decodeSeqParameterSet gb width height = (0, 16 * (s.widthMbs : ℤ), 16 * (s.heightMbs : ℤ)) := by
  have hw := h.widthMbs
  have hh := h.heightMbs
  have hcut : s.bits = s.headerBits ++ (s.toDimsBits ++ (s.dimsBits ++ s.afterDimsBits)) := by
    rw [ParamSet.bits, ParamSet.dimsBits, List.append_assoc (ue _)]
  rw [hcut, holds_append, holds_append, holds_append] at hg
  rw [hcut] at hs
  simp only [List.length_append, Int.natCast_add] at hs
  obtain ⟨h₁, h₂, h₃, h₄⟩ := hg
  rw [Nat.add_assoc] at h₃
  rw [Nat.add_assoc gb.index, Nat.add_assoc gb.index] at h₄
  have k₂ : ((gb.index + s.headerBits.length : ℕ) : ℤ) + s.toDimsBits.length ≤ gb.sizeInBits := by omega
  have k₃ : ((gb.index + (s.headerBits.length + s.toDimsBits.length) : ℕ) : ℤ) + s.dimsBits.length ≤ gb.sizeInBits := by
    omega
  have k₄ : ((gb.index + (s.headerBits.length + s.toDimsBits.length + s.dimsBits.length) : ℕ) : ℤ) +
      s.afterDimsBits.length ≤ gb.sizeInBits := by omega
  have k₁ : (gb.index : ℤ) + s.headerBits.length ≤ gb.sizeInBits := by omega
  have e₁ := h.reads_header ⟨gb, 0, 0⟩ h₁ k₁
  have e₂ := h.reads_toDims (St.skip ⟨gb, 0, 0⟩ s.headerBits.length) h₂ k₂
  rw [St.skip_skip] at e₂
  have e₃ := h.dims_eq (St.skip ⟨gb, 0, 0⟩ (s.headerBits.length + s.toDimsBits.length)) h₃ k₃
  rw [St.skip_skip] at e₃
  have e₄ := h.reads_afterDims
    (ParamSet.withDims (St.skip ⟨gb, 0, 0⟩ (s.headerBits.length + s.toDimsBits.length + s.dimsBits.length)) s) h₄ k₄
  have hbody : body s.profileIdc (St.skip ⟨gb, 0, 0⟩ s.headerBits.length) = (some (), (ParamSet.withDims
      (St.skip ⟨gb, 0, 0⟩ (s.headerBits.length + s.toDimsBits.length + s.dimsBits.length)) s).skip
        s.afterDimsBits.length) := by
    rw [body, bind_eq e₂, bind_eq e₃, e₄]
  rw [decodeSeqParameterSet, e₁]
  dsimp only
  rw [hbody]
  show (0, int32 (16 * (s.widthMbs : ℤ)), int32 (16 * (s.heightMbs : ℤ))) = _
  rw [int32_of_lt (by omega) (by omega), int32_of_lt (by omega) (by omega)]

/-! ## A set in bytes -/

instance decidableHolds (m : Mem) : (p : ℕ) → (l : List Bool) → Decidable (Holds m p l)
  | _, [] => .isTrue trivial
  | p, c :: l =>
    match decEq (bit m p) c, decidableHolds m (p + 1) l with
    | .isTrue h₁, .isTrue h₂ => .isTrue ⟨h₁, h₂⟩
    | .isFalse h₁, _ => .isFalse fun h => h₁ h.1
    | _, .isFalse h₂ => .isFalse fun h => h₂ h.2

/-- The memory in which bytes stand, and zeros behind them. -/
def memOf (bs : List UInt8) : Mem := fun i => bs.getD i 0

/-- The picture that a caller is shown: the rows that fill the last macroblocks of 1080 are cut. -/
theorem ncParseSPS_bits {s : ParamSet} (h : s.Ok) {sps : Mem} {len : ℤ} (hg : Holds sps 0 s.bits)
    (hlen : len < 268435455) (hs : (s.bits.length : ℤ) ≤ 8 * len) (width height : ℤ) :
    ncParseSPS sps len width height = some (0, 16 * (s.widthMbs : ℤ),
      if s.widthMbs = 120 ∧ s.heightMbs = 68 then 1080 else 16 * (s.heightMbs : ℤ)) := by
  have hpos : 0 < s.bits.length := by
    rw [ParamSet.bits, ParamSet.headerBits, List.length_append, List.length_append, bitsOf_length]
    omega
  have h8 : int32 (len * 8) = len * 8 := int32_of_lt (by omega) (by omega)
  have hinit : initGetBits sps (int32 (len * 8)) = some ⟨sps, 0, len * 8⟩ := by
    rw [h8, initGetBits, if_neg (by omega)]
  have hd := decodeSeqParameterSet_bits h ⟨sps, 0, len * 8⟩ hg (by dsimp only; omega) width height
  rw [ncParseSPS, if_neg (by omega), hinit, Option.map_some]
  dsimp only
  rw [hd]
  dsimp only
  by_cases hc : s.widthMbs = 120 ∧ s.heightMbs = 68
  · rw [if_pos hc, if_pos (by omega)]
  · rw [if_neg hc, if_neg (by omega)]

/-- A set of the baseline profile, for a picture of 1920 by 1080. -/
def fullHd : ParamSet where
  profileIdc := 66
  constraints := [true, true, false, false, false, false]
  levelIdc := 40
  spsId := 0
  high := ⟨1, 0, false, none⟩
  log2MaxFrameNum := 0
  poc := .output
  refFrames := 1
  gaps := false
  widthMbs := 120
  heightMbs := 68
  frameMbsOnly := true
  mbAff := false
  direct8x8 := true
  crop := some ⟨0, 0, 0, 4⟩
  vui := none

theorem fullHd_ok : fullHd.Ok where
  profileIdc := by decide
  constraints := rfl
  levelIdc := by decide
  spsId := by decide
  high := ⟨by decide, by decide, fun m hm => by cases hm⟩
  log2MaxFrameNum := by decide
  poc := trivial
  refFrames := by decide
  widthMbs := by decide
  heightMbs := by decide
  crop c hc := by
    cases hc
    exact ⟨by decide, by decide, by decide, by decide⟩
  vui v hv := by cases hv

/-- With its stop bit. -/
def fullHdBytes : List UInt8 := [0x42, 0xC0, 0x28, 0xDA, 0x01, 0xE0, 0x08, 0x9F, 0x95]

theorem holds_fullHd : Holds (memOf fullHdBytes) 0 fullHd.bits := by decide +kernel

theorem length_fullHd : fullHd.bits.length = 71 := by decide +kernel

theorem ncParseSPS_fullHd : ncParseSPS (memOf fullHdBytes) 9 0 0 = some (0, 1920, 1080) :=
  ncParseSPS_bits fullHd_ok holds_fullHd (by decide) (by rw [length_fullHd]; decide) 0 0

end Sps

end SabApp
