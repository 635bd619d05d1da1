import Mathlib.Data.List.FinRange
import SabApp.Nc
import SabApp.Registry

/-!
# Device slots of the YS and XM clients

The two clients handle their ten slots alike: a call on a device uses the slot that runs for it
or starts a free one, and stops that again if the call fails. They differ in how they compare
devices, in how they pack a subscription's id and in how a stop call finds the slot again.
-/

namespace SabApp

namespace Nc

/-- `NC_PTC_E`. -/
inductive Ptc where
  | qihan
  | huaYi
  | yuShi
  | yuShiCloud
  | qiHanCloud
  | xiongMai
  deriving DecidableEq

def Ptc.value : Ptc → Int32
  | qihan => 0x00000000
  | huaYi => 0x01000000
  | yuShi => 0x02000000
  | yuShiCloud => 0x03000000
  | qiHanCloud => 0x04000000
  | xiongMai => 0x05000000

/-- What an id can be handed out for. -/
inductive Service where
  | login
  | rts
  | pbs
  | cloudPbs
  | talk
  deriving DecidableEq

/-- What of `nc_dev` the slots are looked up by. -/
structure Dev where
  ptc : Ptc
  devId : List UInt8
  ip : List UInt8
  msgPort : Int32
  user : List UInt8
  pswd : List UInt8
  deriving DecidableEq

end Nc

/-- What start and stop calls handle of `nc_ys_dev_t` and `nc_xm_dev_t`. -/
structure DevSlot (κ : Type) where
  state : Bool
  stNcDev : Nc.Dev
  curEnable : κ → Bool

structure DevSlots (κ : Type) where
  dev : Fin 10 → DevSlot κ

section
variable {κ : Type}

namespace DevSlot

/-- `nc_ys_dev_start` and `nc_xm_dev_start`. -/
def start (s : DevSlot κ) (d : Nc.Dev) : DevSlot κ := { s with stNcDev := d, state := true }

/-- `nc_ys_dev_stop` and `nc_xm_dev_stop`. -/
def stop (s : DevSlot κ) : DevSlot κ := { s with state := false }

/-- The common body of their start functions. -/
def startSub [DecidableEq κ] (subId : Nc.Dev → Fin 10 → κ → Int32) (k : κ) (i : Fin 10) (s : DevSlot κ) :
    Int32 × DevSlot κ :=
  if s.curEnable k then (Nc.errRepeat, s)
  else (subId s.stNcDev i k, { s with curEnable := Function.update s.curEnable k true })

/-- The common body of their stop functions. -/
def stopSub [DecidableEq κ] (k : κ) (s : DevSlot κ) : DevSlot κ :=
  { s with curEnable := Function.update s.curEnable k false }

end DevSlot

namespace DevSlots

def setDev (w : DevSlots κ) (i : Fin 10) (s : DevSlot κ) : DevSlots κ := ⟨Function.update w.dev i s⟩

section
variable (isSame : Nc.Dev → DevSlot κ → Bool)

/-- The slot that runs for the device. -/
def same (w : DevSlots κ) (info : Nc.Dev) : Option (Fin 10) :=
  (List.finRange 10).find? fun i => isSame info (w.dev i)

def free (w : DevSlots κ) : Option (Fin 10) := (List.finRange 10).find? fun i => !(w.dev i).state

/-- The common body of the calls on a device: `f` on its slot, or on a free one started for it. -/
def onDev (w : DevSlots κ) (info : Nc.Dev) (f : Fin 10 → DevSlot κ → Int32 × DevSlot κ) : Int32 × DevSlots κ :=
  match w.same isSame info, w.free with
  | some i, _ => ((f i (w.dev i)).1, w.setDev i (f i (w.dev i)).2)
  | none, some i =>
    let r := f i ((w.dev i).start info)
    (r.1, w.setDev i (if r.1 < 0 then r.2.stop else r.2))
  | none, none => (Nc.errFull, w)

def startSub [DecidableEq κ] (subId : Nc.Dev → Fin 10 → κ → Int32) (w : DevSlots κ) (info : Nc.Dev) (k : κ) :
    Int32 × DevSlots κ :=
  w.onDev isSame info (DevSlot.startSub subId k)

/-- `searchRecords`, `getStatus` and the like, which answer with `ret`. -/
def query (w : DevSlots κ) (info : Nc.Dev) (ret : Int32) : Int32 × DevSlots κ :=
  w.onDev isSame info fun _ s => (ret, s)

end

def stopSub [DecidableEq κ] (w : DevSlots κ) (i : Fin 10) (k : κ) : DevSlots κ := w.setDev i ((w.dev i).stopSub k)

/-- `nc_ys_run` and `nc_xm_run` at one slot, `timeout` being the clock's verdict on the slot's tick. -/
def run (subs : List κ) (w : DevSlots κ) (i : Fin 10) (timeout : Bool) : DevSlots κ :=
  if (w.dev i).state && subs.countP (w.dev i).curEnable = 0 && timeout then w.setDev i (w.dev i).stop else w

/-- The live subscriptions: on which device, in which slot, to what. -/
def view {S : Type} (service : κ → S) (w : DevSlots κ) : Nc.Dev × Fin 10 × κ → Option S
  | (d, i, k) => if (w.dev i).curEnable k = true ∧ (w.dev i).stNcDev = d then some (service k) else none

end DevSlots

/-! ## What the calls keep and open -/

namespace DevSlot

/-- A free slot has no subscription; one that runs does so for a device of the client's protocol. -/
structure Good (P : Nc.Dev → Prop) (s : DevSlot κ) : Prop where
  free : s.state = false → ∀ k, s.curEnable k = false
  own : s.state = true → P s.stNcDev

variable {P : Nc.Dev → Prop} {s : DevSlot κ}

theorem Good.state (h : s.Good P) {k : κ} (hk : s.curEnable k = true) : s.state = true := by
  by_contra hs
  simp [h.free (by simpa using hs) k] at hk

theorem Good.stopSub [DecidableEq κ] (h : s.Good P) (k : κ) : (s.stopSub k).Good P where
  free hf j := by
    by_cases hj : j = k
    · simp [DevSlot.stopSub, hj]
    · simp [DevSlot.stopSub, hj, h.free hf j]
  own := h.own

theorem Good.startSub [DecidableEq κ] (h : s.Good P) (hs : s.state = true) (subId : Nc.Dev → Fin 10 → κ → Int32) (k : κ)
    (i : Fin 10) : (s.startSub subId k i).2.Good P := by
  unfold DevSlot.startSub
  split
  · exact h
  · refine ⟨fun hf => ?_, h.own⟩
    have hf' : s.state = false := hf
    rw [hs] at hf'
    cases hf'

end DevSlot

namespace DevSlots

variable {S : Type} {P : Nc.Dev → Prop} {service : κ → S} {w : DevSlots κ} {i : Fin 10}

@[simp] theorem setDev_self (w : DevSlots κ) (i : Fin 10) (s : DevSlot κ) : (w.setDev i s).dev i = s :=
  Function.update_self ..

@[simp] theorem setDev_ne (w : DevSlots κ) {i j : Fin 10} (h : j ≠ i) (s : DevSlot κ) : (w.setDev i s).dev j = w.dev j :=
  Function.update_of_ne h ..

@[simp] theorem setDev_setDev (w : DevSlots κ) (i : Fin 10) (s t : DevSlot κ) :
    (w.setDev i s).setDev i t = w.setDev i t :=
  congrArg DevSlots.mk (Function.update_idem ..)

def Good (P : Nc.Dev → Prop) (w : DevSlots κ) : Prop := ∀ i, (w.dev i).Good P

theorem enable_of_view {d : Nc.Dev} {k : κ} (h : w.view service (d, i, k) ≠ none) :
    (w.dev i).curEnable k = true ∧ (w.dev i).stNcDev = d := by
  by_contra hn
  exact h (if_neg hn)

theorem view_of_enable {k : κ} (h : (w.dev i).curEnable k = true) :
    w.view service ((w.dev i).stNcDev, i, k) = some (service k) :=
  if_pos ⟨h, rfl⟩

theorem Good.own_of_view (hw : w.Good P) {d : Nc.Dev} {k : κ} (h : w.view service (d, i, k) ≠ none) : P d := by
  obtain ⟨hk, rfl⟩ := enable_of_view h
  exact (hw i).own ((hw i).state hk)

theorem Good.setDev (h : w.Good P) {s : DevSlot κ} (hs : s.Good P) : (w.setDev i s).Good P := by
  intro j
  by_cases hj : j = i
  · rw [hj, setDev_self]
    exact hs
  · rw [setDev_ne w hj]
    exact h j

/-- Giving a free slot to a device or stopping it changes no subscription. -/
theorem view_setDev (hn : ∀ k, (w.dev i).curEnable k = false) {s : DevSlot κ} (hs : ∀ k, s.curEnable k = false) :
    (w.setDev i s).view service = w.view service := by
  funext ⟨d, j, k⟩
  by_cases hj : j = i
  · simp [view, hj, hn, hs]
  · simp [view, hj]

theorem opens_setDev [DecidableEq κ] (service : κ → S) (subId : Nc.Dev → Fin 10 → κ → Int32) (w : DevSlots κ)
    (i : Fin 10) (k : κ) : Opens (fun h => subId h.1 h.2.1 h.2.2) (service k) ((w.dev i).startSub subId k i).1 (w.view service)
      ((w.setDev i ((w.dev i).startSub subId k i).2).view service) := by
  unfold DevSlot.startSub
  by_cases hk : (w.dev i).curEnable k = true
  · refine .inl (funext fun ⟨d, j, l⟩ => ?_)
    by_cases hj : j = i <;> simp [view, hk, hj]
  · refine .inr ⟨((w.dev i).stNcDev, i, k), by simp [view, hk], by simp [view, hk], by simp [hk], ?_⟩
    rintro ⟨d, j, l⟩ hne
    by_cases hj : j = i
    · by_cases hl : l = k
      · have hd : (w.dev i).stNcDev ≠ d := by
          rintro rfl
          exact hne (by rw [hj, hl])
        simp [view, hk, hj, hd]
      · simp [view, hk, hj, hl]
    · simp [view, hj]

section
variable {isSame : Nc.Dev → DevSlot κ → Bool}

theorem state_of_same (hsame : ∀ d s, isSame d s = true → s.state = true) {info : Nc.Dev}
    (h : w.same isSame info = some i) : (w.dev i).state = true :=
  hsame _ _ (by simpa using List.find?_some h)

theorem state_of_free (h : w.free = some i) : (w.dev i).state = false := by
  simpa using List.find?_some h

variable {info : Nc.Dev} (hw : w.Good P) (hp : P info)
include hw hp

theorem good_startSub [DecidableEq κ] (hsame : ∀ d s, isSame d s = true → s.state = true)
    {subId : Nc.Dev → Fin 10 → κ → Int32} (hpos : ∀ d i k, P d → ¬ subId d i k < 0) (k : κ) :
    (w.startSub isSame subId info k).2.Good P := by
  unfold startSub onDev
  cases hs : w.same isSame info with
  | some i => exact hw.setDev ((hw i).startSub (state_of_same hsame hs) subId k i)
  | none =>
    cases hf : w.free with
    | none => exact hw
    | some i =>
      have hn := (hw i).free (state_of_free hf)
      have hg : ((w.dev i).start info).Good P := ⟨nofun, fun _ => hp⟩
      have hr : ¬ (((w.dev i).start info).startSub subId k i).1 < 0 := by
        simpa [DevSlot.startSub, DevSlot.start, hn] using hpos info i k hp
      simp only [hr, if_false]
      exact hw.setDev (hg.startSub rfl subId k i)

/-- A start opens the one subscription or none, and answers with its id. -/
theorem opens_startSub [DecidableEq κ] {subId : Nc.Dev → Fin 10 → κ → Int32} (hpos : ∀ d i k, P d → ¬ subId d i k < 0)
    (service : κ → S) (k : κ) : Opens (fun h => subId h.1 h.2.1 h.2.2) (service k) (w.startSub isSame subId info k).1
      (w.view service) ((w.startSub isSame subId info k).2.view service) := by
  unfold startSub onDev
  cases hs : w.same isSame info with
  | some i => exact opens_setDev service subId w i k
  | none =>
    cases hf : w.free with
    | none => exact .inl rfl
    | some i =>
      have hn := (hw i).free (state_of_free hf)
      have hr : ¬ (((w.dev i).start info).startSub subId k i).1 < 0 := by
        simpa [DevSlot.startSub, DevSlot.start, hn] using hpos info i k hp
      have ho := opens_setDev service subId (w.setDev i ((w.dev i).start info)) i k
      have hv : (w.setDev i ((w.dev i).start info)).view service = w.view service := view_setDev hn hn
      rw [setDev_self, setDev_setDev, hv] at ho
      simpa only [hr, if_false] using ho

theorem good_query (ret : Int32) : (w.query isSame info ret).2.Good P := by
  unfold query onDev
  cases hs : w.same isSame info with
  | some i => exact hw.setDev (hw i)
  | none =>
    cases hf : w.free with
    | none => exact hw
    | some i =>
      have hn := (hw i).free (state_of_free hf)
      refine hw.setDev ?_
      split
      · exact ⟨fun _ => hn, nofun⟩
      · exact ⟨nofun, fun _ => hp⟩

omit hp in
/-- What is enabled after a start was so before, or is what was started. -/
theorem enable_startSub [DecidableEq κ] {subId : Nc.Dev → Fin 10 → κ → Int32} {k l : κ} {j : Fin 10}
    (h : ((w.startSub isSame subId info k).2.dev j).curEnable l = true) :
    (w.dev j).curEnable l = true ∨ l = k ∧ (w.same isSame info = some j ∨ ∀ m, (w.dev j).curEnable m = false) := by
  have hslot : ∀ s : DevSlot κ, (s.startSub subId k j).2.curEnable l = true → s.curEnable l = true ∨ l = k := by
    intro s hs
    by_cases hl : l = k
    · exact .inr hl
    · refine .inl ?_
      unfold DevSlot.startSub at hs
      split at hs
      · exact hs
      · simpa [hl] using hs
  unfold startSub onDev at h
  cases hs : w.same isSame info with
  | some i =>
    simp only [hs] at h
    by_cases hj : j = i
    · subst hj
      rw [setDev_self] at h
      exact (hslot _ h).imp_right fun hl => ⟨hl, .inl rfl⟩
    · rw [setDev_ne w hj] at h
      exact .inl h
  | none =>
    cases hf : w.free with
    | none => exact .inl (by simpa [hs, hf] using h)
    | some i =>
      simp only [hs, hf] at h
      by_cases hj : j = i
      · subst hj
        rw [setDev_self] at h
        have hn := (hw j).free (state_of_free hf)
        have h' : ((((w.dev j).start info).startSub subId k j).2).curEnable l = true := by
          split at h <;> exact h
        rcases hslot _ h' with h' | hl
        · exact .inl h'
        · exact .inr ⟨hl, .inr hn⟩
      · rw [setDev_ne w hj] at h
        exact .inl h

omit hp in
theorem view_query (ret : Int32) : (w.query isSame info ret).2.view service = w.view service := by
  unfold query onDev
  cases hs : w.same isSame info with
  | some i =>
    funext ⟨d, j, k⟩
    by_cases hj : j = i <;> simp [view, hj]
  | none =>
    cases hf : w.free with
    | none => rfl
    | some i =>
      have hn := (hw i).free (state_of_free hf)
      refine view_setDev hn ?_
      split <;> exact hn

end

theorem good_stopSub [DecidableEq κ] (hw : w.Good P) (i : Fin 10) (k : κ) : (w.stopSub i k).Good P :=
  hw.setDev ((hw i).stopSub k)

/-- A stop in a slot ends the subscription to `k` there, whichever device it is on. -/
theorem ends_stopSub [DecidableEq κ] {d : Nc.Dev} {i : Fin 10} {k : κ} (h : w.view service (d, i, k) ≠ none) :
    Ends (d, i, k) (w.view service) ((w.stopSub i k).view service) := by
  have hd := (enable_of_view h).2
  refine ⟨by simp [view, stopSub, DevSlot.stopSub], ?_⟩
  rintro ⟨e, j, l⟩ hne
  by_cases hj : j = i
  · by_cases hl : l = k
    · have he : d ≠ e := by
        rintro rfl
        exact hne (by rw [hj, hl])
      simp [view, stopSub, DevSlot.stopSub, hj, hl, hd, he]
    · simp [view, stopSub, DevSlot.stopSub, hj, hl]
  · simp [view, stopSub, hj]

theorem shrinks_stopSub [DecidableEq κ] (service : κ → S) (w : DevSlots κ) (i : Fin 10) (k : κ) :
    Shrinks (w.view service) ((w.stopSub i k).view service) := by
  rintro ⟨e, j, l⟩
  by_cases hj : j = i
  · by_cases hl : l = k
    · exact .inl (by simp [view, stopSub, DevSlot.stopSub, hj, hl])
    · exact .inr (by simp [view, stopSub, DevSlot.stopSub, hj, hl])
  · exact .inr (by simp [view, stopSub, hj])

/-- A stop call's effect, whatever id it is given. -/
def Stopped [DecidableEq κ] (w t : DevSlots κ) : Prop := t = w ∨ ∃ i k, t = w.stopSub i k

theorem Stopped.good [DecidableEq κ] {t : DevSlots κ} (h : w.Stopped t) (hw : w.Good P) : t.Good P := by
  rcases h with rfl | ⟨i, k, rfl⟩
  · exact hw
  · exact good_stopSub hw i k

theorem Stopped.shrinks [DecidableEq κ] {t : DevSlots κ} (h : w.Stopped t) (service : κ → S) :
    Shrinks (w.view service) (t.view service) := by
  rcases h with rfl | ⟨i, k, rfl⟩
  · exact shrinks_of_eq rfl
  · exact shrinks_stopSub service w i k

theorem good_run {subs : List κ} (hall : ∀ k, k ∈ subs) (hw : w.Good P) (i : Fin 10) (timeout : Bool) :
    (w.run subs i timeout).Good P := by
  unfold run
  split
  · next hr =>
    simp only [Bool.and_eq_true, decide_eq_true_eq, List.countP_eq_zero] at hr
    have hn : ∀ k, (w.dev i).curEnable k = false := fun k => by simpa using hr.1.2 k (hall k)
    exact hw.setDev ⟨fun _ => hn, nofun⟩
  · exact hw

theorem view_run (subs : List κ) (service : κ → S) (w : DevSlots κ) (i : Fin 10) (timeout : Bool) :
    (w.run subs i timeout).view service = w.view service := by
  unfold run
  split
  · funext ⟨d, j, k⟩
    by_cases hj : j = i <;> simp [view, DevSlot.stop, hj]
  · rfl

end DevSlots

end

end SabApp
