import SabApp.CloudSlots

/-!
# What a message slot keeps for its next device

A slot's requests, and the service address it once fetched, stay when the slot is stopped.
Bound to another device it logs in with the old device's address and carries out what was
left open for it; and a call that found the slot before the stop leaves its request after
the next start. A run without these keeps each session to its own device.
-/

namespace SabApp

namespace Cloud

namespace SlotWorld

/-- Each message went to the address of the slot's device, with a request made for that device
since the slot was bound to it. -/
def Isolated (w : SlotWorld) : Prop :=
  ∀ e ∈ w.sent, e.addrFor = e.dev ∧ ∀ r, e.origin = some r → r = ⟨e.dev, e.binding⟩

/-- A slot is started for a device only with that device's address or none, and nothing open; a
call leaves its request at the binding at which it found the slot. -/
def BindOk (w : SlotWorld) : SlotAct → Prop
  | .call _ d => ∀ i, w.same d = none → w.free = some i →
      ((w.slot i).msgsEnable = true → (w.slot i).addrFor = d) ∧ ∀ k, ((w.slot i).req k).last = ((w.slot i).req k).cur
  | .enter t => t.binding = (w.slot t.slot).binding
  | _ => True

end SlotWorld

namespace Slot

/-- The slot holds nothing of an earlier binding. -/
structure Clean (s : Slot) : Prop where
  addr : s.state = true → s.msgsEnable = true → s.addrFor = s.stNcDev
  session : ∀ a, s.session = some a → s.state = true ∧ a = s.stNcDev
  pending : s.state = true → ∀ k, (s.req k).last ≠ (s.req k).cur → s.cfg k.buf = ⟨s.stNcDev, s.binding⟩
  send : ∀ k r, s.pc = .send k r → r = ⟨s.stNcDev, s.binding⟩
  recv : ∀ k r, s.pc = .recv k r → r = ⟨s.stNcDev, s.binding⟩
  stopped : s.state = false → s.pc = .idle

theorem clean_init : Clean SlotWorld.Slot.init := ⟨nofun, nofun, nofun, nofun, nofun, fun _ => rfl⟩

theorem Clean.called {s : Slot} (h : Clean s) (now : ℕ) : Clean (s.called now) :=
  ⟨h.addr, h.session, h.pending, h.send, h.recv, h.stopped⟩

theorem Clean.stamp {s : Slot} (h : Clean s) (tick : Int32) (now : ℕ) : Clean (s.stamp tick now) :=
  ⟨h.addr, h.session, h.pending, h.send, h.recv, h.stopped⟩

theorem clean_start {s : Slot} (d : NcDev) (hp : s.pc = .idle) (ha : s.msgsEnable = true → s.addrFor = d)
    (hn : ∀ k, (s.req k).last = (s.req k).cur) : Clean (s.start d) where
  addr _ := ha
  session := nofun
  pending _ k hne := absurd (hn k) hne
  send k r hpc := by rw [start, hp] at hpc; cases hpc
  recv k r hpc := by rw [start, hp] at hpc; cases hpc
  stopped := nofun

theorem Clean.stop {s : Slot} (h : Clean s) (hp : s.pc = .idle) : Clean s.stop :=
  ⟨nofun, nofun, nofun, h.send, h.recv, fun _ => hp⟩

theorem Clean.fail {s : Slot} (h : Clean s) : Clean s.fail := ⟨h.addr, nofun, h.pending, nofun, nofun, fun _ => rfl⟩

theorem Clean.fetched {s : Slot} (h : Clean s) (a : ServiceAddr) :
    Clean { s with msgsEnable := true, msgsAddr := a, addrFor := s.stNcDev } :=
  ⟨fun _ _ => rfl, h.session, h.pending, h.send, h.recv, h.stopped⟩

theorem Clean.login {s : Slot} (h : Clean s) (hs : s.state = true) (he : s.msgsEnable = true) (ok : Bool) :
    Clean { s with session := if ok then some s.addrFor else none } where
  addr := h.addr
  session a ha := by
    cases ok with
    | true => cases ha; exact ⟨hs, h.addr hs he⟩
    | false => cases ha
  pending := h.pending
  send := h.send
  recv := h.recv
  stopped := h.stopped

theorem Clean.post {s : Slot} (h : Clean s) (k : Kind) : Clean (s.post k ⟨s.stNcDev, s.binding⟩) where
  addr := h.addr
  session := h.session
  pending hs j hne := by
    show Function.update s.cfg k.buf _ j.buf = _
    by_cases hb : j.buf = k.buf
    · rw [hb, Function.update_self]; rfl
    · rw [Function.update_of_ne hb]
      have hj : j ≠ k := fun he => hb (congrArg Kind.buf he)
      apply h.pending hs
      simpa [Slot.post, Function.update_of_ne hj] using hne
  send := h.send
  recv := h.recv
  stopped := h.stopped

theorem Clean.copy {s : Slot} (h : Clean s) (hs : s.state = true) (k : Kind) : Clean (s.copy k) := by
  unfold Slot.copy
  split
  · exact h
  · next hne =>
    refine ⟨h.addr, h.session, h.pending, ?_, nofun, ?_⟩
    · intro j r hpc
      cases hpc
      exact h.pending hs _ hne
    · intro hf
      rw [hs] at hf
      cases hf

theorem Clean.note {s : Slot} (h : Clean s) (k : Kind) {r : Origin} (hr : r = ⟨s.stNcDev, s.binding⟩) :
    Clean (s.note k r) where
  addr := h.addr
  session := h.session
  pending hs j hne := by
    have hj : j ≠ k := by
      rintro rfl
      exact hne (by simp [Slot.note])
    have hne' : (s.req j).last ≠ (s.req j).cur := by
      simpa [Slot.note, Function.update_of_ne hj] using hne
    have hcfg := h.pending hs j hne'
    cases k with
    | cmd c => exact hcfg
    | query q =>
      show Function.update s.cfg (Kind.query q).buf r j.buf = _
      by_cases hb : j.buf = (Kind.query q).buf
      · rw [hb, Function.update_self]; exact hr
      · rw [Function.update_of_ne hb]; exact hcfg
  send := h.send
  recv := h.recv
  stopped := h.stopped

theorem Clean.idle {s : Slot} (h : Clean s) : Clean { s with pc := .idle } :=
  ⟨h.addr, h.session, h.pending, nofun, nofun, fun _ => rfl⟩

theorem Clean.recving {s : Slot} (h : Clean s) (hs : s.state = true) (k : Kind) {r : Origin}
    (hr : r = ⟨s.stNcDev, s.binding⟩) : Clean { s with pc := .recv k r } where
  addr := h.addr
  session := h.session
  pending := h.pending
  send := nofun
  recv k r hpc := by cases hpc; exact hr
  stopped hf := by
    have hf' : s.state = false := hf
    rw [hs] at hf'
    cases hf'

end Slot

namespace SlotWorld

/-- A call on its way names its slot's device, unless the slot has been bound anew. -/
def TicketOk (w : SlotWorld) (t : Ticket) : Prop :=
  t.binding ≤ (w.slot t.slot).binding ∧ (t.binding = (w.slot t.slot).binding → t.dev = (w.slot t.slot).stNcDev)

structure BindInv (w : SlotWorld) : Prop where
  clean : ∀ i, (w.slot i).Clean
  tickets : ∀ t ∈ w.entering, w.TicketOk t
  isolated : w.Isolated

theorem bindInv_init : BindInv init := ⟨fun _ => Slot.clean_init, nofun, nofun⟩

theorem BindInv.congr {w t : SlotWorld} (h : BindInv w) (hs : t.slot = w.slot)
    (he : ∀ e ∈ t.entering, e ∈ w.entering) (hm : t.sent = w.sent) : BindInv t where
  clean i := by rw [hs]; exact h.clean i
  tickets e hte := by
    have hte' := h.tickets e (he e hte)
    rw [TicketOk, hs]
    exact hte'
  isolated := by rw [Isolated, hm]; exact h.isolated

/-- A slot changes within its binding. -/
theorem BindInv.setSlot {w : SlotWorld} (h : BindInv w) {i : Fin 16} {s : Slot} (hc : s.Clean)
    (hb : s.binding = (w.slot i).binding) (hd : s.stNcDev = (w.slot i).stNcDev) : BindInv (w.setSlot i s) where
  clean j := by
    by_cases hj : j = i
    · subst hj
      rw [setSlot_slot_self]
      exact hc
    · rw [setSlot_slot_ne w hj]
      exact h.clean j
  tickets t ht := by
    have hto := h.tickets t ht
    by_cases hj : t.slot = i
    · subst hj
      rw [TicketOk, setSlot_slot_self, hb, hd]
      exact hto
    · rw [TicketOk, setSlot_slot_ne w hj]
      exact hto
  isolated := h.isolated

theorem BindInv.log {w : SlotWorld} (h : BindInv w) {i : Fin 16} {a : NcDev} {r : Option Origin}
    (ha : a = (w.slot i).stNcDev) (hr : ∀ o, r = some o → o = ⟨(w.slot i).stNcDev, (w.slot i).binding⟩) :
    BindInv (w.log i a r) where
  clean := h.clean
  tickets := h.tickets
  isolated e he := by
    rcases List.mem_append.mp he with he | he
    · exact h.isolated e he
    · rw [List.mem_singleton.mp he]
      exact ⟨ha, hr⟩

theorem same_spec {w : SlotWorld} {d : NcDev} {i : Fin 16} (h : w.same d = some i) : (w.slot i).stNcDev = d := by
  have hs := List.find?_some h
  simp only [Slot.isSame, Bool.and_eq_true, decide_eq_true_eq] at hs
  exact hs.1

theorem free_spec {w : SlotWorld} {i : Fin 16} (h : w.free = some i) : (w.slot i).state = false := by
  have hs := List.find?_some h
  simpa using hs

/-- A slot is started for a device. -/
theorem bindInv_start {w : SlotWorld} (h : BindInv w) {i : Fin 16} {d : NcDev} (hf : w.free = some i)
    (ha : (w.slot i).msgsEnable = true → (w.slot i).addrFor = d)
    (hn : ∀ k, ((w.slot i).req k).last = ((w.slot i).req k).cur) : BindInv (w.setSlot i ((w.slot i).start d)) where
  clean j := by
    by_cases hj : j = i
    · subst hj
      rw [setSlot_slot_self]
      exact Slot.clean_start d ((h.clean j).stopped (free_spec hf)) ha hn
    · rw [setSlot_slot_ne w hj]
      exact h.clean j
  tickets t ht := by
    obtain ⟨hle, hd⟩ := h.tickets t ht
    by_cases hj : t.slot = i
    · subst hj
      rw [TicketOk, setSlot_slot_self]
      refine ⟨Nat.le_succ_of_le hle, ?_⟩
      intro he
      exact absurd he (Nat.ne_of_lt (Nat.lt_succ_of_le hle))
    · rw [TicketOk, setSlot_slot_ne w hj]
      exact ⟨hle, hd⟩
  isolated := h.isolated

theorem bindInv_find {w w' : SlotWorld} {i : Fin 16} {k : Kind} {d : NcDev} (h : BindInv w)
    (hok : w.BindOk (.call k d)) (hf : w.find d = some (w', i)) :
    BindInv w' ∧ w'.entering = w.entering ∧ (w'.slot i).stNcDev = d := by
  unfold find at hf
  cases hs : w.same d with
  | some j =>
    rw [hs] at hf
    cases hf
    exact ⟨h, rfl, same_spec hs⟩
  | none =>
    cases hfr : w.free with
    | none => rw [hs, hfr] at hf; cases hf
    | some j =>
      rw [hs, hfr] at hf
      cases hf
      obtain ⟨ha, hn⟩ := hok i hs hfr
      refine ⟨bindInv_start h hfr ha hn, rfl, ?_⟩
      rw [setSlot_slot_self]
      rfl

theorem bindInv_call {w : SlotWorld} (h : BindInv w) {k : Kind} {d : NcDev} (hok : w.BindOk (.call k d)) :
    BindInv (w.call k d) := by
  unfold call
  cases hf : w.find d with
  | none => exact h
  | some p =>
    obtain ⟨w', i⟩ := p
    obtain ⟨hi, he, hd⟩ := bindInv_find h hok hf
    have hs := hi.setSlot ((hi.clean i).called w.now) rfl rfl
    refine ⟨hs.clean, ?_, hs.isolated⟩
    intro t ht
    rcases List.mem_append.mp ht with ht | ht
    · rw [← he] at ht
      exact hs.tickets t ht
    · rw [List.mem_singleton.mp ht]
      have hsl : (w'.setSlot i ((w'.slot i).called w.now)).slot i = (w'.slot i).called w.now := setSlot_slot_self ..
      refine ⟨Nat.le_of_eq ?_, fun _ => ?_⟩
      · exact (congrArg Slot.binding hsl).symm
      · exact hd.symm.trans (congrArg Slot.stNcDev hsl).symm

theorem bindInv_enter {w : SlotWorld} (h : BindInv w) {t : Ticket} (ht : t ∈ w.entering)
    (hok : t.binding = (w.slot t.slot).binding) : BindInv (w.enter t) := by
  have hd := (h.tickets t ht).2 hok
  have hp : (((w.slot t.slot).called w.now).post t.kind ⟨t.dev, t.binding⟩).Clean := by
    rw [hd, hok]
    exact ((h.clean t.slot).called w.now).post t.kind
  have hs : ∀ s : Slot, s.Clean → (if t.kind.stamps then s.stamp w.tick w.now else s).Clean := by
    intro s hs
    split
    · exact hs.stamp w.tick w.now
    · exact hs
  refine (h.setSlot (hs _ hp) ?_ ?_).congr rfl ?_ rfl
  · split <;> rfl
  · split <;> rfl
  · intro e he
    exact List.mem_of_mem_erase he

theorem bindInv_sendMsg {w : SlotWorld} (h : BindInv w) {i : Fin 16} {a : NcDev} {k : Kind} {r : Origin}
    (hp : (w.slot i).pc = .send k r) (ha : (w.slot i).session = some a) (ok : Bool) :
    BindInv (w.sendMsg i a k r ok) := by
  have hc := h.clean i
  obtain ⟨hst, had⟩ := hc.session a ha
  have hr := hc.send k r hp
  have hl : BindInv (w.log i a (some r)) := by
    apply h.log had
    intro o ho
    cases ho
    exact hr
  unfold sendMsg
  split
  · exact hl.setSlot (hc.recving hst k hr) rfl rfl
  · exact hl.setSlot (hc.note k hr).idle rfl rfl
  · exact h.setSlot (hc.note k hr).fail rfl rfl
  · exact h.setSlot hc.fail rfl rfl

theorem bindInv_step {w t : SlotWorld} {a : SlotAct} (h : BindInv w) (hok : w.BindOk a) (hs : step w a = some t) :
    BindInv t := by
  cases a with
  | tick => cases hs; exact h.congr rfl (fun _ he => he) rfl
  | call k d => cases hs; exact bindInv_call h hok
  | enter t =>
    by_cases ht : t ∈ w.entering
    · simp only [step, if_pos ht] at hs; cases hs; exact bindInv_enter h ht hok
    · simp [step, ht] at hs
  | leave t =>
    by_cases ht : t ∈ w.waiting
    · simp only [step, if_pos ht] at hs
      cases hs
      exact (h.setSlot ((h.clean _).stamp w.tick w.now) rfl rfl).congr rfl (fun _ he => he) rfl
    · simp [step, ht] at hs
  | housekeep i =>
    cases hp : (w.slot i).pc <;> simp only [step, hp] at hs <;> cases hs
    unfold housekeep
    split
    · exact (h.setSlot ((h.clean i).stop hp) rfl rfl).congr rfl (fun _ he => he) rfl
    · exact h
  | getServiceAddr i addr =>
    simp only [step] at hs
    split at hs <;> cases hs
    · exact h.setSlot ((h.clean i).fetched _) rfl rfl
    · exact h
  | login i ok =>
    cases hst : (w.slot i).state <;> cases hen : (w.slot i).msgsEnable <;> cases hse : (w.slot i).session <;>
      simp only [step, hst, hen, hse] at hs <;> cases hs
    have hl : BindInv (w.log i (w.slot i).addrFor none) := h.log ((h.clean i).addr hst hen) nofun
    exact hl.setSlot ((h.clean i).login hst hen ok) rfl rfl
  | logout i =>
    cases hp : (w.slot i).pc <;> simp only [step, hp] at hs <;> cases hs
    exact h.setSlot (h.clean i).fail rfl rfl
  | run i k =>
    cases hp : (w.slot i).pc <;> cases hse : (w.slot i).session <;> simp only [step, hp, hse] at hs <;> cases hs
    have hst := ((h.clean i).session _ hse).1
    apply h.setSlot ((h.clean i).copy hst k)
    · unfold Slot.copy; split <;> rfl
    · unfold Slot.copy; split <;> rfl
  | sendMsg i ok =>
    cases hp : (w.slot i).pc <;> cases hse : (w.slot i).session <;> simp only [step, hp, hse] at hs <;> cases hs
    exact bindInv_sendMsg h hp hse ok
  | recvMsg i ok =>
    cases hp : (w.slot i).pc with
    | recv k r =>
      simp only [step, hp] at hs
      cases hs
      have hn := (h.clean i).note k ((h.clean i).recv k r hp)
      cases ok
      · exact h.setSlot hn.fail rfl rfl
      · exact h.setSlot hn.idle rfl rfl
    | idle => simp [step, hp] at hs
    | send k r => simp [step, hp] at hs

/-- **Slots are isolated** in every run where a slot is only started for a device whose address it
holds, or none, with nothing open, and no call leaves its request after a restart. -/
theorem slots_isolated (as : List SlotAct) (h : Meets step BindOk init as) : Reached step Isolated init as := by
  apply reached_of_meets (I := BindInv)
  · intro w a t hi hok hs
    exact bindInv_step hi hok hs
  · intro w hi
    exact hi.isolated
  · exact bindInv_init
  · exact h

/-- A PTZ command for one device, on a slot never used before. -/
theorem slots_once : Reached step Isolated init
    [.call (.cmd .ptz) door, .enter ⟨.cmd .ptz, door, 0, 1⟩, .getServiceAddr 0 (some ⟨[1], 80, [2]⟩), .login 0 true,
      .run 0 (.cmd .ptz), .sendMsg 0 true] := by
  apply slots_isolated
  refine Meets.cons ?_ rfl (Meets.cons rfl rfl (Meets.cons trivial rfl (Meets.cons trivial rfl ?_)))
  · intro i _ _
    exact ⟨nofun, fun _ => rfl⟩
  · exact Meets.cons trivial rfl (Meets.cons trivial rfl trivial)

/-- One slot, two devices: the second is logged in at the first one's address, and a status left
for the first is set on the second. -/
theorem slots_mixed :
    (∃ t, exec step init (List.replicate 60 .tick ++ [.call (.cmd .setStatus) door, .enter ⟨.cmd .setStatus, door, 0, 1⟩,
        .getServiceAddr 0 (some ⟨[1], 80, [2]⟩), .housekeep 0, .call (.cmd .ptz) gate, .login 0 true]) = some t ∧
      t.sent = [⟨gate, 2, door, none⟩] ∧ ¬ t.Isolated) ∧
    ∃ t, exec step init (List.replicate 60 .tick ++ [.call (.cmd .setStatus) door, .enter ⟨.cmd .setStatus, door, 0, 1⟩,
        .housekeep 0, .call (.cmd .ptz) gate, .getServiceAddr 0 (some ⟨[1], 80, [2]⟩), .login 0 true,
        .run 0 (.cmd .setStatus), .sendMsg 0 true]) = some t ∧
      t.sent = [⟨gate, 2, gate, none⟩, ⟨gate, 2, gate, some ⟨door, 1⟩⟩] ∧ ¬ t.Isolated := by
  have h := exec_ticks 60 init
  refine ⟨⟨_, (exec_append_of h _).trans rfl, rfl, ?_⟩, ⟨_, (exec_append_of h _).trans rfl, rfl, ?_⟩⟩
  · intro hi
    have hd := (hi _ (List.mem_singleton.mpr rfl)).1
    exact absurd hd (by decide)
  · intro hi
    have hd := (hi _ (List.mem_cons_of_mem _ (List.mem_singleton.mpr rfl))).2 _ rfl
    exact absurd hd (by decide)

end SlotWorld

end Cloud

end SabApp
