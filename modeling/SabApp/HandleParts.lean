import SabApp.DevIds
import SabApp.HySlots
import SabApp.RelayCalls

/-!
# What each client opens and ends

For the QH users, the HY slots and the cloud relays: the live subscriptions, and what a start and
a stop call of the client does to them.
-/

namespace SabApp

/-! ## Users of the QH client -/

namespace Qh

/-- `PTC_CMD_ALARM_BASE`, `PTC_CMD_RTS_BASE`, `PTC_CMD_PBS_BASE` and `PTC_CMD_TALK_BASE`. -/
inductive UserType where
  | alarm
  | rts
  | pbs
  | talk

def UserType.service : UserType → Nc.Service
  | alarm => .login
  | rts => .rts
  | pbs => .pbs
  | talk => .talk

structure User where
  isUsed : Bool
  state : Bool
  type : UserType

structure Users where
  user : Fin 128 → User

namespace Users

/-- `nc_qh_user_start`. -/
def userStart (w : Users) (t : UserType) : Int32 × Users :=
  match (List.finRange 128).find? fun i => !(w.user i).isUsed with
  | some i => (Int32.ofNat i, ⟨Function.update w.user i ⟨true, true, t⟩⟩)
  | none => (Nc.errFull, w)

/-- `nc_qh_user_stop`. -/
def userStop (w : Users) (i : Fin 128) : Users :=
  if (w.user i).state then ⟨Function.update w.user i { w.user i with state := false, isUsed := false }⟩ else w

/-- `nc_qh_logout`, `nc_qh_stopRts`, `nc_qh_stopPbs` and `nc_qh_stopTalk`. -/
def stop (w : Users) (userId : Int32) : Int32 × Users :=
  if userId < 0 then (Nc.errInput, w)
  else if h : userId.toNatClampNeg < 128 then (0, w.userStop ⟨userId.toNatClampNeg, h⟩)
  else (Nc.errInput, w)

def init : Users := ⟨fun _ => ⟨false, false, .alarm⟩⟩

def view (w : Users) (i : Fin 128) : Option Nc.Service :=
  if (w.user i).isUsed then some (w.user i).type.service else none

/-- A user is taken as long as its thread runs. -/
def Good (w : Users) : Prop := ∀ i, (w.user i).isUsed = (w.user i).state

def userId (i : Fin 128) : Int32 := Int32.ofNat i

variable {w : Users}

theorem service_of_view {i : Fin 128} {s : Nc.Service} (h : w.view i = some s) : (w.user i).type.service = s := by
  unfold view at h
  split at h
  · exact Option.some.inj h
  · cases h

theorem good_userStart (hw : w.Good) (t : UserType) : (w.userStart t).2.Good := by
  unfold userStart
  split
  · next i _ =>
    intro j
    by_cases hj : j = i
    · simp [hj]
    · simp [hj, hw j]
  · exact hw

theorem opens_userStart (w : Users) (t : UserType) :
    Opens userId t.service (w.userStart t).1 w.view (w.userStart t).2.view := by
  unfold userStart
  split
  · next i hi =>
    have hu : (w.user i).isUsed = false := by simpa using List.find?_some hi
    refine .inr ⟨i, by simp [view, hu], by simp [view], rfl, ?_⟩
    intro j hj
    simp [view, hj]
  · exact .inl rfl

theorem good_userStop (hw : w.Good) (i : Fin 128) : (w.userStop i).Good := by
  unfold userStop
  split
  · intro j
    by_cases hj : j = i
    · simp [hj]
    · simp [hj, hw j]
  · exact hw

theorem ends_userStop (hw : w.Good) {i : Fin 128} (h : w.view i ≠ none) : Ends i w.view (w.userStop i).view := by
  have hs : (w.user i).state = true := by
    rw [← hw i]
    by_contra hu
    simp [view, hu] at h
  rw [userStop, if_pos hs]
  refine ⟨by simp [view], ?_⟩
  intro j hj
  simp [view, hj]

theorem shrinks_userStop (w : Users) (i : Fin 128) : Shrinks w.view (w.userStop i).view := by
  unfold userStop
  split
  · intro j
    by_cases hj : j = i
    · simp [view, hj]
    · simp [view, hj]
  · exact shrinks_of_eq rfl

theorem stop_userId (w : Users) (i : Fin 128) : w.stop (userId i) = (0, w.userStop i) := by
  have hn : ¬ userId i < 0 := ofNat_nonneg (by omega)
  have hi : (userId i).toNatClampNeg = i := toNatClampNeg_ofNat (by omega)
  simp [stop, hn, hi]

theorem good_stop (hw : w.Good) (id : Int32) : (w.stop id).2.Good := by
  unfold stop
  split
  · exact hw
  · split
    · exact good_userStop hw _
    · exact hw

theorem shrinks_stop (w : Users) (id : Int32) : Shrinks w.view (w.stop id).2.view := by
  unfold stop
  split
  · exact shrinks_of_eq rfl
  · split
    · exact shrinks_userStop w _
    · exact shrinks_of_eq rfl

end Users

end Qh

/-! ## Slots of the HY client -/

namespace Hy

def Sub.service : Sub → Nc.Service
  | rts _ => .rts
  | pbs => .pbs
  | talk => .talk
  | alarm => .login

theorem Sub.no_lt (k : Sub) : k.no < 256 := by
  cases k with
  | rts c =>
    simp only [no]
    omega
  | _ => decide

theorem Sub.no_inj {j k : Sub} (h : j.no = k.no) : j = k := by
  cases j <;> cases k <;> simp [no, Fin.ext_iff] at h ⊢ <;> omega

theorem subId_eq (i : Fin 10) (k : Sub) : subId i k = Int32.ofNat (fields 1 i k.no) :=
  or_fields (p := 1) (by omega) k.no_lt

namespace SlotWorld

def view (w : SlotWorld) : Fin 10 × Sub → Option Nc.Service
  | (i, k) => if (w.dev i).curEnable k then some k.service else none

variable {w : SlotWorld}

theorem service_of_view {i : Fin 10} {k : Sub} {s : Nc.Service} (h : w.view (i, k) = some s) : k.service = s := by
  simp only [view] at h
  split at h
  · exact Option.some.inj h
  · cases h

theorem opens_setDev (w : SlotWorld) (k : Sub) (tv : Clock) (d : NcDev) (i : Fin 10) {s t : Slot}
    (hs : s.curEnable = (w.dev i).curEnable) (ht : t.curEnable = (Slot.startSub k tv d i s).2.curEnable) :
    Opens (fun h => subId h.1 h.2) k.service (Slot.startSub k tv d i s).1 w.view (w.setDev i t).view := by
  unfold Slot.startSub at ht ⊢
  by_cases hk : s.curEnable k = true
  · have ht' : t.curEnable = (w.dev i).curEnable := by simpa [hk, hs] using ht
    refine .inl (funext fun ⟨j, l⟩ => ?_)
    by_cases hj : j = i
    · simp [view, hj, ht']
    · simp [view, setDev_ne w hj]
  · have ht' : t.curEnable = Function.update (w.dev i).curEnable k true := by
      simpa [hk, hs, Slot.enable, Slot.setTick] using ht
    have hk' : (w.dev i).curEnable k ≠ true := hs ▸ hk
    refine .inr ⟨(i, k), by simp [view, hk'], by simp [view, ht'], by simp [hk], ?_⟩
    rintro ⟨j, l⟩ hne
    by_cases hj : j = i
    · have hl : l ≠ k := fun hl => hne (by rw [hj, hl])
      simp [view, hj, hl, ht']
    · simp [view, setDev_ne w hj]

/-- A start opens the one subscription or none, and answers with its id. -/
theorem opens_startSub (w : SlotWorld) (info : NcDev) (k : Sub) {undo : Slot → Slot}
    (hu : ∀ s, (undo s).curEnable = s.curEnable) :
    Opens (fun h => subId h.1 h.2) k.service (w.onDev info (Slot.startSub k w.tv info) undo).1 w.view
      (w.onDev info (Slot.startSub k w.tv info) undo).2.view := by
  unfold onDev
  split
  · exact opens_setDev w k w.tv info _ rfl rfl
  · refine opens_setDev w k w.tv info _ rfl ?_
    split
    · exact hu _
    · rfl
  · exact .inl rfl

theorem opens_startRts (w : SlotWorld) (info : NcDev) (channel streamType : Int32) :
    Opens (fun h => subId h.1 h.2) .rts (w.startRts info channel streamType).1 w.view
      (w.startRts info channel streamType).2.view := by
  unfold startRts
  split
  · exact .inl rfl
  · split
    · exact opens_startSub w info _ fun _ => rfl
    · exact .inl rfl

/-- A login is refused for want of a slot, or there is a live one after it. -/
theorem login_live (w : SlotWorld) (info : NcDev) (hs : ¬ (w.same info = none ∧ w.free = none)) :
    ∃ i, (w.login info).2.view (i, .alarm) = some .login := by
  have henable : ∀ (i : Fin 10) (s : Slot), (Slot.startSub .alarm w.tv info i s).2.curEnable .alarm = true := by
    intro i s
    unfold Slot.startSub
    split
    · assumption
    · exact Function.update_self Sub.alarm true s.curEnable
  have hview : ∀ (i : Fin 10) (t : Slot), t.curEnable .alarm = true → (w.setDev i t).view (i, .alarm) = some .login := by
    intro i t ht
    simp [view, ht, Sub.service]
  unfold login onDev
  cases hsame : w.same info with
  | some i => exact ⟨i, hview i _ (henable i _)⟩
  | none =>
    cases hfree : w.free with
    | none => exact absurd ⟨hsame, hfree⟩ hs
    | some i =>
      refine ⟨i, hview i _ ?_⟩
      split <;> exact henable i _

theorem login_refused {w : SlotWorld} {info : NcDev} (hs : w.same info = none) (hf : w.free = none) :
    (w.login info).2 = w := by
  simp [login, onDev, hs, hf]

/-- A call that enables nothing changes no subscription. -/
theorem view_onDev (w : SlotWorld) (info : NcDev) {f : Fin 10 → Slot → Int32 × Slot}
    (hf : ∀ i s, (f i s).2.curEnable = s.curEnable) : (w.onDev info f id).2.view = w.view := by
  have hset : ∀ (i : Fin 10) (s : Slot), s.curEnable = (w.dev i).curEnable → (w.setDev i s).view = w.view := by
    intro i s hs
    funext ⟨j, k⟩
    by_cases hj : j = i
    · simp [view, hj, hs]
    · simp [view, setDev_ne w hj]
  unfold onDev
  split
  · exact hset _ _ (hf _ _)
  · refine hset _ _ ?_
    split <;> exact hf _ _
  · rfl

theorem opens_startPbs (w : SlotWorld) (info : NcDev) (active : Bool) :
    Opens (fun h => subId h.1 h.2) .pbs (w.startPbs info active).1 w.view (w.startPbs info active).2.view := by
  cases active with
  | false => exact opens_startSub w info .pbs fun _ => rfl
  | true => exact .inl (view_onDev w info fun _ _ => rfl)

theorem ends_stopSub (w : SlotWorld) (k : Sub) (tv : Clock) (i : Fin 10) :
    Ends (i, k) w.view (w.setDev i (Slot.stopSub k tv (w.dev i))).view := by
  refine ⟨by simp [view, Slot.stopSub, Slot.setTick, Slot.disable], ?_⟩
  rintro ⟨j, l⟩ hne
  by_cases hj : j = i
  · have hl : l ≠ k := fun hl => hne (by rw [hj, hl])
    simp [view, hj, hl, Slot.stopSub, Slot.setTick, Slot.disable]
  · simp [view, setDev_ne w hj]

theorem devId_subId (i : Fin 10) (k : Sub) : devId (subId i k) = i := by
  rw [devId, subId_eq]
  exact fields_mid (by decide) (by omega) k.no_lt

theorem subNo_subId (i : Fin 10) (k : Sub) : subNo (subId i k) = k.no := by
  rw [subNo, subId_eq]
  exact fields_low (by decide) (by omega) k.no_lt

/-- A stop with the subscription's own id. -/
theorem ends_onId (w : SlotWorld) (i : Fin 10) (k : Sub) :
    Ends (i, k) w.view (w.onId (subId i k) k (Slot.stopSub k)).2.view := by
  simpa [onId, devId_subId, subNo_subId] using ends_stopSub w k w.tv i

theorem ends_stopRts (w : SlotWorld) (i : Fin 10) (c : Fin 16) :
    Ends (i, .rts c) w.view (w.stopRts (subId i (.rts c))).2.view := by
  have hc : subNo (subId i (.rts c)) = c := subNo_subId i (.rts c)
  have he := ends_onId w i (.rts c)
  simpa [stopRts, Slot.stopRts, hc] using he

theorem shrinks_onId (w : SlotWorld) (id : Int32) (k : Sub) :
    Shrinks w.view (w.onId id k (Slot.stopSub k)).2.view := by
  unfold onId
  split
  · exact (ends_stopSub w k w.tv _).shrinks
  · exact shrinks_of_eq rfl

theorem shrinks_stopRts (w : SlotWorld) (id : Int32) : Shrinks w.view (w.stopRts id).2.view := by
  unfold stopRts
  split
  · exact shrinks_onId w id _
  · exact shrinks_of_eq rfl

theorem view_controlPTZ (w : SlotWorld) (info : NcDev) : (w.controlPTZ info).2.view = w.view := by
  unfold controlPTZ
  split
  · next i _ =>
    funext ⟨j, k⟩
    by_cases hj : j = i
    · simp [view, hj, Slot.setTick]
    · simp [view, setDev_ne w hj]
  · rfl

theorem view_run (w : SlotWorld) (i : Fin 10) : (w.run i).view = w.view := by
  unfold run
  split
  · funext ⟨j, k⟩
    by_cases hj : j = i
    · simp [view, hj, Slot.stop]
    · simp [view, setDev_ne w hj]
  · rfl

end SlotWorld

end Hy

/-! ## Relays of the cloud client -/

namespace Cloud

def Service.nc : Service → Nc.Service
  | rts => .rts
  | devPbs => .pbs
  | cloudPbs => .cloudPbs
  | talk => .talk

theorem relayId_eq : ∀ i, relayId i = Int32.ofNat (fields 4 0 i) := by decide

namespace RelayTable

def view (w : RelayTable) (i : Fin 2) : Option Nc.Service :=
  if (w.relay i).isUsed then some (w.relay i).service.nc else none

variable {w : RelayTable}

theorem opens_start (hw : Inv w) (k : Service) :
    Opens relayId k.nc (w.start k).1 w.view (w.start k).2.view := by
  unfold start
  split
  · exact .inl rfl
  · cases hf : w.findFreeRequest with
    | none => exact .inl rfl
    | some i =>
      have hi := idle_of_free hw hf
      have hr := RelaySlot.runs_relayStart hi k w.next
      have hk : ({ w.relay i with isUsed := true }.relayStart k w.next).service = k := by cases k <;> rfl
      refine .inr ⟨i, by simp [view, hi.1], ?_, rfl, ?_⟩
      · show (w.setRelay i _).view i = some k.nc
        rw [view, setRelay_self, if_pos hr.used, hk]
      · intro j hj
        show (w.setRelay i _).view j = w.view j
        rw [view, setRelay_ne w hj, view]

theorem used_of_view {i : Fin 2} {s : Nc.Service} (h : w.view i = some s) :
    (w.relay i).isUsed = true ∧ (w.relay i).service.nc = s := by
  unfold view at h
  split at h
  · next hu => exact ⟨hu, Option.some.inj h⟩
  · cases h

theorem ends_stop (hw : Inv w) (hl : w.loginState = true) {i : Fin 2} {k : Service} (h : w.view i = some k.nc) :
    Ends i w.view (w.stop k (relayId i)).2.view := by
  obtain ⟨hu, hk⟩ := used_of_view h
  have hf : (w.relay i).service.flag = k.flag := by
    cases hs : (w.relay i).service <;> cases k <;> rw [hs] at hk <;> first | rfl | cases hk
  have he := (stop_ends hw hl hu hf).2
  refine ⟨by simp [view, he.free.1], ?_⟩
  intro j hj
  simp [view, he.others j hj]

theorem shrinks_stop (hw : Inv w) (k : Service) (id : Int32) : Shrinks w.view (w.stop k id).2.view := by
  by_cases hl : w.loginState = true
  · cases hf : w.findRequestById id with
    | none => exact shrinks_of_eq (by simp [stop, hl, hf])
    | some i =>
      obtain ⟨hu, rfl⟩ := findRequestById_spec hf
      by_cases hk : (w.relay i).service.flag = k.flag
      · have he := (stop_ends hw hl hu hk).2
        intro j
        by_cases hj : j = i
        · simp [view, hj, he.free.1]
        · simp [view, he.others j hj]
      · exact shrinks_of_eq (by rw [stop_other hw hl hu hk])
  · exact shrinks_of_eq (by simp [stop, hl])

/-- While the account is logged out, nothing starts or stops. -/
theorem start_loggedOut (hl : w.loginState = false) (k : Service) : (w.start k).2 = w := by
  simp [start, hl]

theorem stop_loggedOut (hl : w.loginState = false) (k : Service) (id : Int32) : (w.stop k id).2 = w := by
  simp [stop, hl]

theorem start_loginState (w : RelayTable) (k : Service) : (w.start k).2.loginState = w.loginState := by
  unfold start
  split
  · rfl
  · split <;> rfl

theorem stop_loginState (w : RelayTable) (k : Service) (id : Int32) : (w.stop k id).2.loginState = w.loginState := by
  unfold stop
  split
  · rfl
  · split <;> rfl

end RelayTable

end Cloud

end SabApp
