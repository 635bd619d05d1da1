import Mathlib.Data.List.ProdSigma
import SabApp.DevSlots
import SabApp.Fields

/-!
# Subscription ids of the YS and XM clients

Both pack protocol, slot and subscription into one word. The YS client shifts a live view's
channel past the stream but not the numbers of the playback and the talk; the XM client
shifts all of them.
-/

namespace SabApp

/-- The byte a protocol puts in front of its ids. -/
def Nc.Ptc.top : Ptc → ℕ
  | qihan => 0
  | huaYi => 1
  | yuShi => 2
  | yuShiCloud => 3
  | qiHanCloud => 4
  | xiongMai => 5

theorem Nc.Ptc.value_eq (p : Ptc) : p.value = Int32.ofNat (p.top * 2 ^ 24) := by cases p <;> rfl

theorem Nc.Ptc.top_lt (p : Ptc) : p.top < 128 := by cases p <;> decide

theorem Nc.Ptc.top_inj {p q : Ptc} (h : p.top = q.top) : p = q := by
  cases p <;> cases q <;> first | rfl | cases h

/-- A search for a key finds its owner where keys differ. -/
theorem find?_key {α β : Type} [DecidableEq β] {f : α → β} {a : α} (hf : ∀ x, f x = f a → x = a) {l : List α}
    (ha : a ∈ l) : l.find? (fun x => f x = f a) = some a := by
  cases h : l.find? (fun x => f x = f a) with
  | none =>
    have hn := List.find?_eq_none.mp h a ha
    simp at hn
  | some b => rw [hf b (by simpa using List.find?_some h)]

namespace Ys

inductive Sub where
  | rts (channelNo : Fin 64) (streamType : Fin 2)
  | pbs
  | talk
  deriving DecidableEq

def subs : List Sub :=
  ((List.finRange 64).product (List.finRange 2)).map (fun p => .rts p.1 p.2) ++ [.pbs, .talk]

def Sub.service : Sub → Nc.Service
  | rts _ _ => .rts
  | pbs => .pbs
  | talk => .talk

/-- The id handed out for a subscription. -/
def subId (d : Nc.Dev) (i : Fin 10) : Sub → Int32
  | .rts c s => d.ptc.value ||| (Int32.ofNat i <<< 8) ||| (Int32.ofNat c <<< 2) ||| Int32.ofNat s
  | .pbs => d.ptc.value ||| (Int32.ofNat i <<< 8) ||| 64
  | .talk => d.ptc.value ||| (Int32.ofNat i <<< 8) ||| 128

/-- `nc_ys_dev_isSame`. -/
def isSame (info : Nc.Dev) (s : DevSlot Sub) : Bool :=
  if info.ptc = .yuShiCloud ∧ s.stNcDev.ptc = .yuShiCloud then
    s.stNcDev.devId = info.devId && s.stNcDev.user = info.user && s.stNcDev.pswd = info.pswd && s.state
  else
    s.stNcDev.ip = info.ip && s.stNcDev.user = info.user && s.stNcDev.pswd = info.pswd &&
      s.stNcDev.msgPort = info.msgPort && s.state

def start (w : DevSlots Sub) (info : Nc.Dev) (k : Sub) : Int32 × DevSlots Sub := w.startSub isSame subId info k

/-- `nc_ys_startRts_v2`. -/
def startRts (w : DevSlots Sub) (info : Nc.Dev) (channel streamType : Int32) : Int32 × DevSlots Sub :=
  if channel < 0 ∨ streamType < 0 then (Nc.errInput, w)
  else if h : channel.toNatClampNeg < 64 ∧ streamType.toNatClampNeg < 2 then
    start w info (.rts ⟨channel.toNatClampNeg, h.1⟩ ⟨streamType.toNatClampNeg, h.2⟩)
  else (Nc.errInput, w)

/-- `nc_ys_startPbs`. -/
def startPbs (w : DevSlots Sub) (info : Nc.Dev) : Int32 × DevSlots Sub := start w info .pbs

/-- `nc_ys_startTalk_v2`. -/
def startTalk (w : DevSlots Sub) (info : Nc.Dev) : Int32 × DevSlots Sub := start w info .talk

def devId (id : Int32) : ℕ := ((id >>> 8) &&& 0xFF).toNatClampNeg

def channelNo (id : Int32) : ℕ := ((id >>> 2) &&& 0x3F).toNatClampNeg

def streamType (id : Int32) : ℕ := (id &&& 0x3).toNatClampNeg

def subNo (id : Int32) : ℕ := (id &&& 0xFF).toNatClampNeg

/-- `nc_ys_stopRts`. -/
def stopRts (w : DevSlots Sub) (id : Int32) : Int32 × DevSlots Sub :=
  if h : devId id < 10 ∧ channelNo id < 64 ∧ streamType id < 2 then
    (0, w.stopSub ⟨devId id, h.1⟩ (.rts ⟨channelNo id, h.2.1⟩ ⟨streamType id, h.2.2⟩))
  else (Nc.errInput, w)

/-- `nc_ys_stopPbs`. -/
def stopPbs (w : DevSlots Sub) (id : Int32) : Int32 × DevSlots Sub :=
  if h : devId id < 10 ∧ subNo id = 64 then (0, w.stopSub ⟨devId id, h.1⟩ .pbs) else (Nc.errInput, w)

/-- `nc_ys_stopTalk`. -/
def stopTalk (w : DevSlots Sub) (id : Int32) : Int32 × DevSlots Sub :=
  if h : devId id < 10 ∧ subNo id = 128 then (0, w.stopSub ⟨devId id, h.1⟩ .talk) else (Nc.errInput, w)

/-! ## The ids read back -/

def Sub.no : Sub → ℕ
  | rts c s => c * 4 + s
  | pbs => 64
  | talk => 128

theorem Sub.no_lt (k : Sub) : k.no < 256 := by
  cases k with
  | rts c s =>
    simp only [no]
    omega
  | _ => decide

theorem subId_eq (d : Nc.Dev) (i : Fin 10) (k : Sub) : subId d i k = Int32.ofNat (fields d.ptc.top i k.no) := by
  have hi : (i : ℕ) < 256 := by omega
  have h := or_fields (p := d.ptc.top) hi k.no_lt
  rw [← Nc.Ptc.value_eq] at h
  rw [← h]
  cases k with
  | rts c s =>
    have hs : (s : ℕ) < 4 := by omega
    rw [subId, Int32.or_assoc, or_two_bits c hs]
    rfl
  | _ => rfl

theorem subId_nonneg (d : Nc.Dev) (i : Fin 10) (k : Sub) : ¬ subId d i k < 0 := by
  rw [subId_eq]
  exact ofNat_nonneg (fields_lt d.ptc.top_lt (by omega) k.no_lt)

section
variable (d : Nc.Dev) (i : Fin 10) (k : Sub)

theorem devId_subId : devId (subId d i k) = i := by
  rw [devId, subId_eq]
  exact fields_mid d.ptc.top_lt (by omega) k.no_lt

theorem subNo_subId : subNo (subId d i k) = k.no := by
  rw [subNo, subId_eq]
  exact fields_low d.ptc.top_lt (by omega) k.no_lt

theorem channelNo_subId : channelNo (subId d i k) = k.no / 4 := by
  rw [channelNo, subId_eq]
  exact fields_high6 d.ptc.top_lt (by omega) k.no_lt

theorem streamType_subId : streamType (subId d i k) = k.no % 4 := by
  rw [streamType, subId_eq]
  exact fields_low2 d.ptc.top_lt (by omega) k.no_lt

end

theorem stopRts_subId (w : DevSlots Sub) (d : Nc.Dev) (i : Fin 10) (c : Fin 64) (s : Fin 2) :
    stopRts w (subId d i (.rts c s)) = (0, w.stopSub i (.rts c s)) := by
  have hc : channelNo (subId d i (.rts c s)) = c := by
    rw [channelNo_subId, Sub.no]
    omega
  have hs : streamType (subId d i (.rts c s)) = s := by
    rw [streamType_subId, Sub.no]
    omega
  have h : devId (subId d i (.rts c s)) < 10 ∧ channelNo (subId d i (.rts c s)) < 64 ∧
      streamType (subId d i (.rts c s)) < 2 := by
    rw [devId_subId, hc, hs]
    exact ⟨i.isLt, c.isLt, s.isLt⟩
  rw [stopRts, dif_pos h]
  simp only [devId_subId, hc, hs, Fin.eta]

theorem stopPbs_subId (w : DevSlots Sub) (d : Nc.Dev) (i : Fin 10) :
    stopPbs w (subId d i .pbs) = (0, w.stopSub i .pbs) := by
  simp [stopPbs, devId_subId, subNo_subId, Sub.no]

theorem stopTalk_subId (w : DevSlots Sub) (d : Nc.Dev) (i : Fin 10) :
    stopTalk w (subId d i .talk) = (0, w.stopSub i .talk) := by
  simp [stopTalk, devId_subId, subNo_subId, Sub.no]

section
variable (w : DevSlots Sub) (id : Int32)

theorem stopped_stopRts : w.Stopped (stopRts w id).2 := by
  unfold stopRts
  split
  · exact .inr ⟨_, _, rfl⟩
  · exact .inl rfl

theorem stopped_stopPbs : w.Stopped (stopPbs w id).2 := by
  unfold stopPbs
  split
  · exact .inr ⟨_, _, rfl⟩
  · exact .inl rfl

theorem stopped_stopTalk : w.Stopped (stopTalk w id).2 := by
  unfold stopTalk
  split
  · exact .inr ⟨_, _, rfl⟩
  · exact .inl rfl

end

/-- Channel 16's main stream is numbered like the playback. -/
theorem subId_pbs (d : Nc.Dev) (i : Fin 10) : subId d i .pbs = subId d i (.rts 16 0) := by
  rw [subId_eq, subId_eq]
  rfl

/-- Channel 32's main stream is numbered like the talk. -/
theorem subId_talk (d : Nc.Dev) (i : Fin 10) : subId d i .talk = subId d i (.rts 32 0) := by
  rw [subId_eq, subId_eq]
  rfl

/-- Two subscriptions of one number. -/
def Sub.Clash (j k : Sub) : Prop :=
  j = .pbs ∧ k = .rts 16 0 ∨ j = .rts 16 0 ∧ k = .pbs ∨ j = .talk ∧ k = .rts 32 0 ∨ j = .rts 32 0 ∧ k = .talk

theorem Sub.Clash.subId_eq {j k : Sub} (h : j.Clash k) (d : Nc.Dev) (i : Fin 10) : subId d i j = subId d i k := by
  rcases h with ⟨rfl, rfl⟩ | ⟨rfl, rfl⟩ | ⟨rfl, rfl⟩ | ⟨rfl, rfl⟩
  · exact subId_pbs d i
  · exact (subId_pbs d i).symm
  · exact subId_talk d i
  · exact (subId_talk d i).symm

theorem Sub.rts_of_no {c b : Fin 64} {s t : Fin 2} (h : (c : ℕ) * 4 + s = b * 4 + t) : Sub.rts c s = .rts b t := by
  have hc : c = b := by omega
  have hs : s = t := by omega
  rw [hc, hs]

/-- No others share one. -/
theorem Sub.no_inj {j k : Sub} (h : j.no = k.no) (hc : ¬ j.Clash k) : j = k := by
  cases j with
  | rts c s =>
    cases k with
    | rts b t => exact rts_of_no h
    | pbs => exact absurd (.inr (.inl ⟨rts_of_no (b := 16) (t := 0) h, rfl⟩)) hc
    | talk => exact absurd (.inr (.inr (.inr ⟨rts_of_no (b := 32) (t := 0) h, rfl⟩))) hc
  | pbs =>
    cases k with
    | rts b t => exact absurd (.inl ⟨rfl, rts_of_no (b := 16) (t := 0) h.symm⟩) hc
    | pbs => rfl
    | talk => cases h
  | talk =>
    cases k with
    | rts b t => exact absurd (.inr (.inr (.inl ⟨rfl, rts_of_no (b := 32) (t := 0) h.symm⟩))) hc
    | pbs => cases h
    | talk => rfl

theorem startRts_eq (w : DevSlots Sub) (d : Nc.Dev) {channel streamType : Int32} {b : Fin 64} {t : Fin 2}
    (hn : ¬ (channel < 0 ∨ streamType < 0)) (hb : channel.toNatClampNeg = b) (ht : streamType.toNatClampNeg = t) :
    startRts w d channel streamType = start w d (.rts b t) := by
  have h : channel.toNatClampNeg < 64 ∧ streamType.toNatClampNeg < 2 := by
    rw [hb, ht]
    exact ⟨b.isLt, t.isLt⟩
  rw [startRts, if_neg hn, dif_pos h]
  simp only [hb, ht, Fin.eta]

theorem state_of_isSame (d : Nc.Dev) (s : DevSlot Sub) (h : isSame d s = true) : s.state = true := by
  unfold isSame at h
  split at h <;> simp_all

/-- Nothing live on the device has the number of `k`. -/
def NoClash (w : DevSlots Sub) (d : Nc.Dev) (k : Sub) : Prop :=
  ∀ i, w.same isSame d = some i → ∀ j, j.Clash k → (w.dev i).curEnable j = false

/-- No two live subscriptions in a slot share a number. -/
def Apart (w : DevSlots Sub) : Prop :=
  ∀ i j k, (w.dev i).curEnable j = true → (w.dev i).curEnable k = true → ¬ j.Clash k

/-- A device of the client. -/
def Own (d : Nc.Dev) : Prop := d.ptc = .yuShi ∨ d.ptc = .yuShiCloud

theorem Sub.Clash.symm {j k : Sub} (h : j.Clash k) : k.Clash j := by
  rcases h with ⟨rfl, rfl⟩ | ⟨rfl, rfl⟩ | ⟨rfl, rfl⟩ | ⟨rfl, rfl⟩
  · exact .inr (.inl ⟨rfl, rfl⟩)
  · exact .inl ⟨rfl, rfl⟩
  · exact .inr (.inr (.inr ⟨rfl, rfl⟩))
  · exact .inr (.inr (.inl ⟨rfl, rfl⟩))

theorem Sub.not_clash_self (k : Sub) : ¬ k.Clash k := by
  rintro (⟨rfl, h⟩ | ⟨rfl, h⟩ | ⟨rfl, h⟩ | ⟨rfl, h⟩) <;> cases h

theorem Apart.start {w : DevSlots Sub} (h : Apart w) (hw : w.Good Own) {d : Nc.Dev} {k : Sub} (hk : NoClash w d k) :
    Apart (start w d k).2 := by
  have hnew : ∀ i l, (w.dev i).curEnable l = true → w.same isSame d = some i ∨ (∀ m, (w.dev i).curEnable m = false) →
      ¬ l.Clash k := by
    intro i l hl hi hc
    rcases hi with hi | hi
    · rw [hk i hi l hc] at hl
      cases hl
    · rw [hi l] at hl
      cases hl
  intro i j l hj hl
  rcases DevSlots.enable_startSub hw hj with hj' | ⟨hjk, hi⟩
  · rcases DevSlots.enable_startSub hw hl with hl' | ⟨rfl, hi'⟩
    · exact h i j l hj' hl'
    · exact hnew i j hj' hi'
  · rcases DevSlots.enable_startSub hw hl with hl' | ⟨hlk, _⟩
    · exact fun hc => hnew i l hl' hi (hjk ▸ hc.symm)
    · rw [hjk, hlk]
      exact Sub.not_clash_self k

theorem Apart.of_shrinks {w t : DevSlots Sub} (h : Apart w) (hs : Shrinks (w.view Sub.service) (t.view Sub.service)) :
    Apart t := by
  have hlive : ∀ i k, (t.dev i).curEnable k = true → (w.dev i).curEnable k = true := by
    intro i k hk
    rcases hs ((t.dev i).stNcDev, i, k) with hn | he
    · rw [DevSlots.view_of_enable hk] at hn
      cases hn
    · rw [DevSlots.view_of_enable hk] at he
      exact (DevSlots.enable_of_view (by rw [← he]; nofun)).1
  exact fun i j k hj hk => h i j k (hlive i j hj) (hlive i k hk)

/-- Where one is live, a start makes the other live as well. -/
theorem clash_start {w : DevSlots Sub} (h : Apart w) {d : Nc.Dev} {k : Sub} (hk : ¬ NoClash w d k) :
    ∃ e i j, j.Clash k ∧ (start w d k).2.view Sub.service (e, i, j) ≠ none ∧
      (start w d k).2.view Sub.service (e, i, k) ≠ none := by
  simp only [NoClash, not_forall] at hk
  obtain ⟨i, hi, j, hc, hj⟩ := hk
  have hj' : (w.dev i).curEnable j = true := by simpa using hj
  have hk' : (w.dev i).curEnable k = false := by
    by_contra hk'
    exact h i j k hj' (by simpa using hk') hc
  have hjk : j ≠ k := by
    rintro rfl
    exact Sub.not_clash_self j hc
  refine ⟨(w.dev i).stNcDev, i, j, hc, ?_, ?_⟩
  · simp [start, DevSlots.startSub, DevSlots.onDev, hi, DevSlot.startSub, hk', DevSlots.view, hjk, hj']
  · simp [start, DevSlots.startSub, DevSlots.onDev, hi, DevSlot.startSub, hk', DevSlots.view]

theorem mem_subs (k : Sub) : k ∈ subs := by
  cases k with
  | rts c s =>
    have hm := List.mem_product.mpr ⟨List.mem_finRange c, List.mem_finRange s⟩
    exact List.mem_append_left _ (List.mem_map.mpr ⟨(c, s), hm, rfl⟩)
  | _ => exact List.mem_append_right _ (by decide)

end Ys

namespace Xm

inductive Sub where
  | rts (channelNo : Fin 32) (streamType : Fin 2)
  | pbs
  | talk
  deriving DecidableEq

def rtsSubs : List (Fin 10 × Fin 32 × Fin 2) :=
  (List.finRange 10).product ((List.finRange 32).product (List.finRange 2))

def subs : List Sub :=
  ((List.finRange 32).product (List.finRange 2)).map (fun p => .rts p.1 p.2) ++ [.pbs, .talk]

def Sub.service : Sub → Nc.Service
  | rts _ _ => .rts
  | pbs => .pbs
  | talk => .talk

/-- `rts_id`, `pbs_no` and `talk_no`. -/
def ownId (i : Fin 10) : Sub → Int32
  | .rts c s => Nc.Ptc.xiongMai.value ||| ((Int32.ofNat i &&& 0xFF) <<< 8) ||| ((Int32.ofNat c &&& 0x3F) <<< 2) |||
      (Int32.ofNat s &&& 0x3)
  | .pbs => Nc.Ptc.xiongMai.value ||| ((Int32.ofNat i &&& 0xFF) <<< 8) ||| (((32 : Int32) &&& 0x3F) <<< 2)
  | .talk => Nc.Ptc.xiongMai.value ||| ((Int32.ofNat i &&& 0xFF) <<< 8) ||| (((33 : Int32) &&& 0x3F) <<< 2)

/-- The id handed out for a subscription. -/
def subId (d : Nc.Dev) (i : Fin 10) : Sub → Int32
  | .talk => d.ptc.value ||| (Int32.ofNat i <<< 8) ||| ownId i .talk
  | k => ownId i k

/-- `nc_xm_dev_isSame`. -/
def isSame (info : Nc.Dev) (s : DevSlot Sub) : Bool :=
  info.ptc = .xiongMai && s.stNcDev.ptc = .xiongMai && s.stNcDev.ip = info.ip && s.stNcDev.user = info.user &&
    s.stNcDev.pswd = info.pswd && s.stNcDev.msgPort = info.msgPort && s.state

def start (w : DevSlots Sub) (info : Nc.Dev) (k : Sub) : Int32 × DevSlots Sub := w.startSub isSame subId info k

/-- `nc_xm_startRts_v2`. -/
def startRts (w : DevSlots Sub) (info : Nc.Dev) (channel streamType : Int32) : Int32 × DevSlots Sub :=
  if channel < 0 ∨ streamType < 0 then (Nc.errInput, w)
  else if h : channel.toNatClampNeg < 32 ∧ streamType.toNatClampNeg < 2 then
    start w info (.rts ⟨channel.toNatClampNeg, h.1⟩ ⟨streamType.toNatClampNeg, h.2⟩)
  else (Nc.errInput, w)

/-- `nc_xm_startPbs`. -/
def startPbs (w : DevSlots Sub) (info : Nc.Dev) : Int32 × DevSlots Sub := start w info .pbs

/-- `nc_xm_startTalk_v2`. -/
def startTalk (w : DevSlots Sub) (info : Nc.Dev) : Int32 × DevSlots Sub := start w info .talk

/-- `nc_xm_stopRts`, which accepts any number. -/
def stopRts (w : DevSlots Sub) (id : Int32) : Int32 × DevSlots Sub :=
  match rtsSubs.find? fun (d, c, s) => ownId d (.rts c s) = id with
  | some (d, c, s) => (0, w.stopSub d (.rts c s))
  | none => (0, w)

/-- `nc_xm_stopPbs`. -/
def stopPbs (w : DevSlots Sub) (id : Int32) : Int32 × DevSlots Sub :=
  match (List.finRange 10).find? fun d => ownId d .pbs = id with
  | some d => (0, w.stopSub d .pbs)
  | none => (0, w)

/-- `nc_xm_stopTalk`. -/
def stopTalk (w : DevSlots Sub) (id : Int32) : Int32 × DevSlots Sub :=
  match (List.finRange 10).find? fun d => ownId d .talk = id with
  | some d => (0, w.stopSub d .talk)
  | none => (0, w)

/-! ## The ids read back -/

def Sub.no : Sub → ℕ
  | rts c s => c * 4 + s
  | pbs => 128
  | talk => 132

theorem Sub.no_lt (k : Sub) : k.no < 256 := by
  cases k with
  | rts c s =>
    simp only [no]
    omega
  | _ => decide

theorem Sub.no_inj {j k : Sub} (h : j.no = k.no) : j = k := by
  cases j <;> cases k <;> simp [no, Fin.ext_iff] at h ⊢ <;> omega

theorem ownId_eq (i : Fin 10) (k : Sub) : ownId i k = Int32.ofNat (fields 5 i k.no) := by
  have hi : (i : ℕ) < 256 := by omega
  have hm : Int32.ofNat i &&& 0xFF = Int32.ofNat i := ofNat_mask (k := 8) hi
  have h := or_fields (p := 5) hi k.no_lt
  rw [← h]
  cases k with
  | rts c s =>
    have hc : Int32.ofNat c &&& 0x3F = Int32.ofNat c := ofNat_mask (k := 6) (by omega)
    have hs : Int32.ofNat s &&& 0x3 = Int32.ofNat s := ofNat_mask (k := 2) (by omega)
    rw [ownId, hm, hc, hs, Int32.or_assoc, or_two_bits c (by omega)]
    rfl
  | _ =>
    rw [ownId, hm]
    rfl

theorem ownId_inj {i j : Fin 10} {k l : Sub} (h : ownId i k = ownId j l) : i = j ∧ k = l := by
  rw [ownId_eq, ownId_eq] at h
  obtain ⟨_, hi, hk⟩ := fields_inj (by decide) (by omega) k.no_lt (by decide) (by omega) l.no_lt h
  exact ⟨Fin.ext hi, Sub.no_inj hk⟩

theorem subId_eq {d : Nc.Dev} (hd : d.ptc = .xiongMai) (i : Fin 10) (k : Sub) : subId d i k = ownId i k := by
  cases k with
  | talk =>
    have h : ∀ i : Fin 10, Nc.Ptc.xiongMai.value ||| (Int32.ofNat i <<< 8) ||| ownId i .talk = ownId i .talk := by
      decide
    rw [subId, hd]
    exact h i
  | _ => rfl

theorem subId_nonneg (d : Nc.Dev) (i : Fin 10) (k : Sub) (hd : d.ptc = .xiongMai) : ¬ subId d i k < 0 := by
  rw [subId_eq hd, ownId_eq]
  exact ofNat_nonneg (fields_lt (by decide) (by omega) k.no_lt)

theorem stopRts_ownId (w : DevSlots Sub) (i : Fin 10) (c : Fin 32) (s : Fin 2) :
    stopRts w (ownId i (.rts c s)) = (0, w.stopSub i (.rts c s)) := by
  have hf := find?_key (f := fun p : Fin 10 × Fin 32 × Fin 2 => ownId p.1 (.rts p.2.1 p.2.2)) (a := (i, c, s))
    (l := rtsSubs) (by
      rintro ⟨j, d, t⟩ h
      obtain ⟨rfl, hr⟩ := ownId_inj h
      cases hr
      rfl) (by simp [rtsSubs])
  simp only [stopRts, hf]

theorem stopPbs_ownId (w : DevSlots Sub) (i : Fin 10) : stopPbs w (ownId i .pbs) = (0, w.stopSub i .pbs) := by
  have hf := find?_key (f := fun j => ownId j .pbs) (a := i) (fun _ h => (ownId_inj h).1) (List.mem_finRange i)
  simp only [stopPbs, hf]

theorem stopTalk_ownId (w : DevSlots Sub) (i : Fin 10) : stopTalk w (ownId i .talk) = (0, w.stopSub i .talk) := by
  have hf := find?_key (f := fun j => ownId j .talk) (a := i) (fun _ h => (ownId_inj h).1) (List.mem_finRange i)
  simp only [stopTalk, hf]

section
variable (w : DevSlots Sub) (id : Int32)

theorem stopped_stopRts : w.Stopped (stopRts w id).2 := by
  unfold stopRts
  split
  · exact .inr ⟨_, _, rfl⟩
  · exact .inl rfl

theorem stopped_stopPbs : w.Stopped (stopPbs w id).2 := by
  unfold stopPbs
  split
  · exact .inr ⟨_, _, rfl⟩
  · exact .inl rfl

theorem stopped_stopTalk : w.Stopped (stopTalk w id).2 := by
  unfold stopTalk
  split
  · exact .inr ⟨_, _, rfl⟩
  · exact .inl rfl

end

theorem state_of_isSame (d : Nc.Dev) (s : DevSlot Sub) (h : isSame d s = true) : s.state = true := by
  simp_all [isSame]

theorem mem_subs (k : Sub) : k ∈ subs := by
  cases k with
  | rts c s =>
    have hm := List.mem_product.mpr ⟨List.mem_finRange c, List.mem_finRange s⟩
    exact List.mem_append_left _ (List.mem_map.mpr ⟨(c, s), hm, rfl⟩)
  | _ => exact List.mem_append_right _ (by decide)

end Xm

end SabApp
