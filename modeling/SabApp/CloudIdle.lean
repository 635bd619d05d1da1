import SabApp.CloudSlots

/-!
# When an idle message slot is stopped

The stop looks at `state_tick` alone. A slot that is started keeps the stamp of its last
use, or 0, until a call of a kind that stamps has left its request; the calls of
`hdcctv_client2_setDeviceStatus_v2`, `setWiFiCfg` and `setDevRecordCfg` never stamp.
-/

namespace SabApp

namespace Cloud

/-- Before the clock wraps, a stamp is timed out from the 60th tick after it. -/
theorem isTickTimeout_le {n s : ℕ} (hs : s ≤ n) (hn : n < 2147483648)
    (h : isTickTimeout (Int32.ofNat n) (Int32.ofNat s) 60 = true) : s + 60 ≤ n := by
  have hsi : (Int32.ofNat s).toInt = s := Int32.toInt_ofNat_of_lt (Nat.lt_of_le_of_lt hs hn)
  have hni : (Int32.ofNat n).toInt = n := Int32.toInt_ofNat_of_lt hn
  have hdi : (Int32.ofNat (n - s)).toInt = (n - s : ℕ) :=
    Int32.toInt_ofNat_of_lt (Nat.lt_of_le_of_lt (Nat.sub_le n s) hn)
  have h60 : (60 : Int32).toInt = 60 := rfl
  simp only [isTickTimeout, Bool.or_eq_true, decide_eq_true_eq] at h
  rcases h with h | h
  · rw [← Int32.ofNat_sub n s hs, ge_iff_le, Int32.le_iff_toInt_le, hdi, h60] at h
    omega
  · rw [Int32.lt_iff_toInt_lt] at h
    omega

namespace SlotWorld

/-- Each stop came more than 60 ticks after the slot's latest call. -/
def KeptAlive (w : SlotWorld) : Prop := ∀ e ∈ w.stops, e.1 + 60 < e.2

/-- A running slot that is found timed out has been stamped by its latest call, not exactly 60 ticks
ago; the clock does not wrap. -/
def IdleOk (w : SlotWorld) : SlotAct → Prop
  | .tick => w.now + 1 < 2147483648
  | .housekeep i => (w.slot i).state = true → isTickTimeout w.tick (w.slot i).stateTick 60 = true →
      (w.slot i).lastCall ≤ (w.slot i).stampAt ∧ w.now ≠ (w.slot i).stampAt + 60
  | _ => True

/-- The stamp of a slot is the clock at an earlier tick. -/
def Stamped (now : ℕ) (s : Slot) : Prop := s.stateTick = Int32.ofNat s.stampAt ∧ s.stampAt ≤ now

structure IdleInv (w : SlotWorld) : Prop where
  tick : w.tick = Int32.ofNat w.now
  now : w.now < 2147483648
  stamped : ∀ i, Stamped w.now (w.slot i)
  kept : w.KeptAlive

theorem idleInv_init : IdleInv init := ⟨rfl, by decide, fun _ => ⟨rfl, Nat.le_refl _⟩, nofun⟩

/-- What changes no clock and no stop keeps the invariant if it stamps its slot at most. -/
theorem IdleInv.setSlot {w : SlotWorld} (h : IdleInv w) {i : Fin 16} {s : Slot} (hs : Stamped w.now s) :
    IdleInv (w.setSlot i s) where
  tick := h.tick
  now := h.now
  stamped j := by
    by_cases hj : j = i
    · subst hj
      rw [setSlot_slot_self]
      exact hs
    · rw [setSlot_slot_ne w hj]
      exact h.stamped j
  kept := h.kept

/-- The calls under way and the messages sent do not matter. -/
theorem IdleInv.congr {w t : SlotWorld} (h : IdleInv w) (ht : t.tick = w.tick) (hn : t.now = w.now)
    (hs : t.slot = w.slot) (hst : t.stops = w.stops) : IdleInv t where
  tick := by rw [ht, hn]; exact h.tick
  now := by rw [hn]; exact h.now
  stamped i := by rw [hs, hn]; exact h.stamped i
  kept := by rw [KeptAlive, hst]; exact h.kept

theorem stamped_now {w : SlotWorld} (h : IdleInv w) (s : Slot) : Stamped w.now (s.stamp w.tick w.now) :=
  ⟨h.tick, Nat.le_refl _⟩

theorem stamped_copy {now : ℕ} {s : Slot} (h : Stamped now s) (k : Kind) : Stamped now (s.copy k) := by
  unfold Slot.copy
  split
  · exact h
  · exact h

theorem idleInv_find {w w' : SlotWorld} {i : Fin 16} {d : NcDev} (h : IdleInv w) (hf : w.find d = some (w', i)) :
    IdleInv w' ∧ w'.now = w.now := by
  unfold find at hf
  split at hf <;> cases hf
  · exact ⟨h, rfl⟩
  · exact ⟨h.setSlot (h.stamped _), rfl⟩

theorem idleInv_call {w : SlotWorld} (h : IdleInv w) (k : Kind) (d : NcDev) : IdleInv (w.call k d) := by
  unfold call
  cases hf : w.find d with
  | none => exact h
  | some p =>
    obtain ⟨w', i⟩ := p
    obtain ⟨hi, hn⟩ := idleInv_find h hf
    have hs : Stamped w'.now ((w'.slot i).called w.now) := hi.stamped i
    exact (hi.setSlot hs).congr rfl rfl rfl rfl

theorem idleInv_enter {w : SlotWorld} (h : IdleInv w) (t : Ticket) : IdleInv (w.enter t) := by
  have hs : ∀ s : Slot, Stamped w.now s → Stamped w.now (if t.kind.stamps then s.stamp w.tick w.now else s) := by
    intro s hs
    split
    · exact stamped_now h s
    · exact hs
  have hp : Stamped w.now (((w.slot t.slot).called w.now).post t.kind ⟨t.dev, t.binding⟩) := h.stamped t.slot
  exact (h.setSlot (hs _ hp)).congr rfl rfl rfl rfl

theorem idleInv_leave {w : SlotWorld} (h : IdleInv w) (t : Ticket) : IdleInv (w.leave t) :=
  (h.setSlot (stamped_now h _)).congr rfl rfl rfl rfl

theorem idleInv_housekeep {w : SlotWorld} (h : IdleInv w) {i : Fin 16} (hok : w.IdleOk (.housekeep i)) :
    IdleInv (w.housekeep i) := by
  unfold housekeep
  split
  · next hc =>
    obtain ⟨hst, hto⟩ := hc
    obtain ⟨hl, hne⟩ := hok hst hto
    obtain ⟨hse, hsl⟩ := h.stamped i
    rw [h.tick, hse] at hto
    have h60 := isTickTimeout_le hsl h.now hto
    have hs : Stamped w.now (w.slot i).stop := h.stamped i
    refine ⟨h.tick, h.now, (h.setSlot hs).stamped, ?_⟩
    intro e he
    rcases List.mem_append.mp he with he | he
    · exact h.kept e he
    · rw [List.mem_singleton.mp he]
      exact Nat.lt_of_le_of_lt (Nat.add_le_add_right hl 60) (Nat.lt_of_le_of_ne h60 (Ne.symm hne))
  · exact h

theorem idleInv_sendMsg {w : SlotWorld} (h : IdleInv w) (i : Fin 16) (a : NcDev) (k : Kind) (r : Origin) (ok : Bool) :
    IdleInv (w.sendMsg i a k r ok) := by
  have hs : Stamped w.now (w.slot i) := h.stamped i
  have hl : IdleInv (w.log i a (some r)) := h.congr rfl rfl rfl rfl
  unfold sendMsg
  split
  · exact hl.setSlot hs
  · exact hl.setSlot hs
  · exact h.setSlot hs
  · exact h.setSlot hs

theorem idleInv_step {w t : SlotWorld} {a : SlotAct} (h : IdleInv w) (hok : w.IdleOk a) (hs : step w a = some t) :
    IdleInv t := by
  cases a with
  | tick =>
    cases hs
    refine ⟨?_, hok, ?_, h.kept⟩
    · rw [Int32.ofNat_add, ← h.tick]; rfl
    · intro i
      exact ⟨(h.stamped i).1, Nat.le_succ_of_le (h.stamped i).2⟩
  | call k d => cases hs; exact idleInv_call h k d
  | enter t =>
    by_cases ht : t ∈ w.entering
    · simp only [step, if_pos ht] at hs; cases hs; exact idleInv_enter h t
    · simp [step, ht] at hs
  | leave t =>
    by_cases ht : t ∈ w.waiting
    · simp only [step, if_pos ht] at hs; cases hs; exact idleInv_leave h t
    · simp [step, ht] at hs
  | housekeep i =>
    cases hp : (w.slot i).pc <;> simp only [step, hp] at hs <;> cases hs
    exact idleInv_housekeep h hok
  | getServiceAddr i addr =>
    simp only [step] at hs
    split at hs <;> cases hs
    · exact h.setSlot (h.stamped i)
    · exact h
  | login i ok =>
    simp only [step] at hs
    split at hs <;> cases hs
    have hl : IdleInv (w.log i (w.slot i).addrFor none) := h.congr rfl rfl rfl rfl
    exact hl.setSlot (h.stamped i)
  | logout i =>
    cases hp : (w.slot i).pc <;> simp only [step, hp] at hs <;> cases hs
    exact h.setSlot (h.stamped i)
  | run i k =>
    simp only [step] at hs
    split at hs <;> cases hs
    exact h.setSlot (stamped_copy (h.stamped i) k)
  | sendMsg i ok =>
    simp only [step] at hs
    split at hs <;> cases hs
    exact idleInv_sendMsg h i _ _ _ ok
  | recvMsg i ok =>
    simp only [step] at hs
    split at hs <;> cases hs
    cases ok
    · exact h.setSlot (h.stamped i)
    · exact h.setSlot (h.stamped i)

/-- **A call keeps its slot alive** in every run where the housekeeping finds no running slot timed
out that its latest call has not stamped. -/
theorem slots_keptAlive (as : List SlotAct) (h : Meets step IdleOk init as) : Reached step KeptAlive init as := by
  apply reached_of_meets (I := IdleInv)
  · intro w a t hi hok hs
    exact idleInv_step hi hok hs
  · intro w hi
    exact hi.kept
  · exact idleInv_init
  · exact h

/-- A stamp, and a look at the slot right after it. -/
theorem slots_fresh : Reached step KeptAlive init
    [.call (.cmd .ptz) door, .enter ⟨.cmd .ptz, door, 0, 1⟩, .housekeep 0] := by
  apply slots_keptAlive
  refine Meets.cons trivial rfl (Meets.cons trivial rfl ?_)
  refine ⟨?_, fun _ _ => trivial⟩
  intro _ hto
  exact absurd hto (by decide)

/-- 60 ticks after the start of the program a status is set, and the next look at the slot, in the
same tick, stops it. -/
theorem slots_stopped : ∃ t, exec step init (List.replicate 60 .tick ++ [.call (.cmd .setStatus) door,
      .enter ⟨.cmd .setStatus, door, 0, 1⟩, .housekeep 0]) = some t ∧ t.stops = [(60, 60)] ∧ ¬ t.KeptAlive := by
  have h := exec_ticks 60 init
  refine ⟨_, (exec_append_of h _).trans rfl, rfl, ?_⟩
  intro hk
  have h60 := hk (60, 60) (List.mem_singleton.mpr rfl)
  exact absurd h60 (by decide)

end SlotWorld

end Cloud

end SabApp
