import SabApp.RelaySession

/-!
# Start and stop calls on the cloud relay slots

Two slots. A start call takes the first unused one and answers with its id; a stop call looks
the id up among the used ones and stops the service it is named after if that one runs. The
id says nothing about the service, device and cloud playback share one state, and every call
wants a login.
-/

namespace SabApp

namespace Cloud

/-- `rts_state`, `pbs_state` and `talk_state`. -/
inductive StateFlag where
  | rts
  | pbs
  | talk
  deriving DecidableEq

def Service.flag : Service → StateFlag
  | rts => .rts
  | devPbs => .pbs
  | cloudPbs => .pbs
  | talk => .talk

/-- The part of `hdcctv_client2_relay_t` that start and stop calls handle. Threads and buffers are
numbered as they are made; none is left of a thread once it is joined. -/
structure RelaySlot where
  isUsed : Bool
  state : StateFlag → Bool
  recvPid : Option ℕ
  playPid : Option ℕ
  frame : Option ℕ
  stream3Recv : Option ℕ
  stream3FrameData : Option ℕ
  sendStream : Option ℕ
  /-- What the slot was started for last. -/
  service : Service

namespace RelaySlot

/-- What the slot has of threads and buffers. -/
def held (s : RelaySlot) : List ℕ :=
  s.recvPid.toList ++ s.playPid.toList ++ s.frame.toList ++ s.stream3Recv.toList ++ s.stream3FrameData.toList ++
    s.sendStream.toList

/-- The common body of `hdcctv_client2_relay_startRts`, `startDevPbs` and `startCloudPbs`. -/
def startStream (s : RelaySlot) (k : Service) (n : ℕ) : RelaySlot :=
  { s with frame := some n, stream3Recv := some (n + 1), stream3FrameData := some (n + 2),
           state := Function.update s.state k.flag true, recvPid := some (n + 3), playPid := some (n + 4),
           service := k }

/-- `hdcctv_client2_relay_startTalk`. -/
def startTalk (s : RelaySlot) (n : ℕ) : RelaySlot :=
  { s with sendStream := some n, state := Function.update s.state .talk true, recvPid := some (n + 1),
           service := .talk }

/-- The common body of `hdcctv_client2_relay_stopRts`, `stopDevPbs` and `stopCloudPbs`: what they join
and free, and the slot after. -/
def stopStream (s : RelaySlot) (f : StateFlag) : List ℕ × RelaySlot :=
  if s.state f = false then ([], s)
  else (s.recvPid.toList ++ s.playPid.toList ++ s.frame.toList ++ s.stream3Recv.toList ++ s.stream3FrameData.toList,
    { s with state := Function.update s.state f false, recvPid := none, playPid := none, frame := none,
             stream3Recv := none, stream3FrameData := none, isUsed := false })

/-- `hdcctv_client2_relay_stopTalk`. -/
def stopTalk (s : RelaySlot) : List ℕ × RelaySlot :=
  if s.state .talk = false then ([], s)
  else (s.recvPid.toList ++ s.sendStream.toList,
    { s with state := Function.update s.state .talk false, recvPid := none, sendStream := none, isUsed := false })

def relayStart (s : RelaySlot) (k : Service) (n : ℕ) : RelaySlot :=
  match k with
  | .talk => s.startTalk n
  | k => s.startStream k n

def relayStop (s : RelaySlot) : Service → List ℕ × RelaySlot
  | .rts => s.stopStream .rts
  | .devPbs => s.stopStream .pbs
  | .cloudPbs => s.stopStream .pbs
  | .talk => s.stopTalk

end RelaySlot

/-- How many threads and buffers a start makes. -/
def Service.makes : Service → ℕ
  | talk => 2
  | _ => 5

def relayId (i : Fin 2) : Int32 := Nc.ptcQiHanCloud ||| Int32.ofNat i

/-- The client's login flag and slots, the number of the next thread or buffer, and those joined and
freed so far. -/
structure RelayTable where
  loginState : Bool
  relay : Fin 2 → RelaySlot
  next : ℕ
  freed : List ℕ

inductive RelayCall where
  | loginUser
  | logout
  | start (k : Service)
  | stop (k : Service) (id : Int32)

namespace RelayTable

def setRelay (w : RelayTable) (i : Fin 2) (s : RelaySlot) : RelayTable :=
  { w with relay := Function.update w.relay i s }

/-- `hdcctv_client2_findFreeRequest`. -/
def findFreeRequest (w : RelayTable) : Option (Fin 2) := (List.finRange 2).find? fun i => !(w.relay i).isUsed

/-- `hdcctv_client2_findRequestById`. -/
def findRequestById (w : RelayTable) (id : Int32) : Option (Fin 2) :=
  (List.finRange 2).find? fun i => (w.relay i).isUsed && relayId i = id

/-- `hdcctv_client2_startRts`, `startDevPbs`, `startCloudPbs` and `startTalk`. -/
def start (w : RelayTable) (k : Service) : Int32 × RelayTable :=
  if w.loginState = false then (Nc.errNoLogin, w)
  else match w.findFreeRequest with
    | none => (Nc.errFull, w)
    | some i => (relayId i,
        { w.setRelay i ({ w.relay i with isUsed := true }.relayStart k w.next) with next := w.next + k.makes })

/-- `hdcctv_client2_stopRts`, `stopDevPbs`, `stopCloudPbs` and `stopTalk`. -/
def stop (w : RelayTable) (k : Service) (id : Int32) : Int32 × RelayTable :=
  if w.loginState = false then (Nc.errNoLogin, w)
  else match w.findRequestById id with
    | none => (Nc.errInput, w)
    | some i => (0, { w.setRelay i ((w.relay i).relayStop k).2 with freed := w.freed ++ ((w.relay i).relayStop k).1 })

def step (w : RelayTable) : RelayCall → Option RelayTable
  | .loginUser => some { w with loginState := true }
  | .logout => some { w with loginState := false }
  | .start k => some (w.start k).2
  | .stop k id => some (w.stop k id).2

def init : RelayTable := ⟨false, fun _ => ⟨false, fun _ => false, none, none, none, none, none, none, .rts⟩, 0, []⟩

/-- Slot `i`'s session is over: its threads are joined and its buffers freed, once each, and the slot
is free; the other slot is as it was. -/
structure Ended (w t : RelayTable) (i : Fin 2) : Prop where
  free : (t.relay i).isUsed = false ∧ (∀ f, (t.relay i).state f = false) ∧ (t.relay i).held = []
  freed : ∀ n ∈ (w.relay i).held, n ∉ w.freed ∧ t.freed.count n = 1
  others : ∀ j, j ≠ i → t.relay j = w.relay j

/-- What a stop call of service `k` does. -/
structure StopLaw (w : RelayTable) (k : Service) : Prop where
  noLogin : w.loginState = false → ∀ id, w.stop k id = (Nc.errNoLogin, w)
  dead : w.loginState = true → ∀ id, (∀ i, (w.relay i).isUsed = true → relayId i ≠ id) → w.stop k id = (Nc.errInput, w)
  ends : w.loginState = true → ∀ i, (w.relay i).isUsed = true → (w.relay i).service.flag = k.flag →
    (w.stop k (relayId i)).1 = 0 ∧ w.Ended (w.stop k (relayId i)).2 i
  other : w.loginState = true → ∀ i, (w.relay i).isUsed = true → (w.relay i).service.flag ≠ k.flag →
    w.stop k (relayId i) = (0, w)

/-- A slot is marked used exactly when its service runs, and stop calls obey the law. -/
structure Lawful (w : RelayTable) : Prop where
  used : ∀ i, (w.relay i).isUsed = true ↔ ∃ f, (w.relay i).state f = true
  stop : ∀ k, w.StopLaw k

end RelayTable

/-! ## What every call keeps -/

namespace RelaySlot

def Idle (s : RelaySlot) : Prop := s.isUsed = false ∧ (∀ f, s.state f = false) ∧ s.held = []

/-- One service runs, with its own threads and buffers only. -/
structure Runs (s : RelaySlot) : Prop where
  used : s.isUsed = true
  state : ∀ f, s.state f = decide (f = s.service.flag)
  stream : s.service ≠ .talk → s.sendStream = none
  talk : s.service = .talk → s.playPid = none ∧ s.frame = none ∧ s.stream3Recv = none ∧ s.stream3FrameData = none

theorem Idle.nothing {s : RelaySlot} (h : s.Idle) : s.playPid = none ∧ s.frame = none ∧ s.stream3Recv = none ∧
    s.stream3FrameData = none ∧ s.sendStream = none := by
  have hh := h.2.2
  simp only [held, List.append_eq_nil_iff, Option.toList_eq_nil_iff] at hh
  obtain ⟨⟨⟨⟨⟨_, hp⟩, hf⟩, hs⟩, hd⟩, ht⟩ := hh
  exact ⟨hp, hf, hs, hd, ht⟩

theorem update_state {s : RelaySlot} (h : s.Idle) (f g : StateFlag) :
    Function.update s.state f true g = decide (g = f) := by
  by_cases hg : g = f
  · rw [hg, Function.update_self, decide_eq_true rfl]
  · rw [Function.update_of_ne hg, decide_eq_false hg, h.2.1 g]

theorem runs_startStream {s : RelaySlot} (h : s.Idle) {k : Service} (hk : k ≠ .talk) (n : ℕ) :
    ({ s with isUsed := true }.startStream k n).Runs where
  used := rfl
  state f := update_state h k.flag f
  stream _ := h.nothing.2.2.2.2
  talk ht := absurd ht hk

theorem runs_startTalk {s : RelaySlot} (h : s.Idle) (n : ℕ) : ({ s with isUsed := true }.startTalk n).Runs where
  used := rfl
  state f := update_state h .talk f
  stream hs := absurd rfl hs
  talk _ := by
    obtain ⟨hp, hf, hs, hd, _⟩ := h.nothing
    exact ⟨hp, hf, hs, hd⟩

theorem runs_relayStart {s : RelaySlot} (h : s.Idle) (k : Service) (n : ℕ) :
    ({ s with isUsed := true }.relayStart k n).Runs := by
  cases k with
  | talk => exact runs_startTalk h n
  | rts => exact runs_startStream (k := .rts) h nofun n
  | devPbs => exact runs_startStream (k := .devPbs) h nofun n
  | cloudPbs => exact runs_startStream (k := .cloudPbs) h nofun n

/-- A start makes the next few threads and buffers, each once. -/
theorem perm_relayStart {s : RelaySlot} (h : s.Idle) (k : Service) (n : ℕ) :
    ({ s with isUsed := true }.relayStart k n).held.Perm (List.range' n k.makes) := by
  obtain ⟨hp, hf, hs, hd, ht⟩ := h.nothing
  cases k with
  | talk =>
    simp only [relayStart, startTalk, held, hp, hf, hs, hd]
    exact List.Perm.swap n (n + 1) []
  | _ =>
    simp only [relayStart, startStream, held, ht]
    show ([n + 3, n + 4] ++ [n, n + 1, n + 2]).Perm _
    exact List.perm_append_comm

theorem idle_update {s : RelaySlot} (h : s.Runs) {f : StateFlag} (hf : s.service.flag = f) (g : StateFlag) :
    Function.update s.state f false g = false := by
  by_cases hg : g = f
  · rw [hg, Function.update_self]
  · rw [Function.update_of_ne hg, h.state g, hf, decide_eq_false hg]

theorem stopStream_spec {s : RelaySlot} (h : s.Runs) {f : StateFlag} (hf : s.service.flag = f) (ht : f ≠ .talk) :
    (s.stopStream f).1 = s.held ∧ (s.stopStream f).2.Idle := by
  have hs : s.state f = true := by rw [h.state f, hf, decide_eq_true rfl]
  have hn : s.sendStream = none := by
    apply h.stream
    rintro hk
    rw [hk] at hf
    exact ht hf.symm
  simp only [stopStream, hs, Bool.true_eq_false, if_false]
  refine ⟨by simp [held, hn], rfl, idle_update h hf, by simp [held, hn]⟩

theorem stopTalk_spec {s : RelaySlot} (h : s.Runs) (hf : s.service.flag = .talk) :
    s.stopTalk.1 = s.held ∧ s.stopTalk.2.Idle := by
  have hs : s.state .talk = true := by rw [h.state .talk, hf, decide_eq_true rfl]
  have hk : s.service = .talk := by
    cases hk : s.service <;> rw [hk] at hf <;> first | rfl | cases hf
  obtain ⟨hp, hfr, hst, hd⟩ := h.talk hk
  simp only [stopTalk, hs, Bool.true_eq_false, if_false]
  refine ⟨by simp [held, hp, hfr, hst, hd], rfl, idle_update h hf, by simp [held, hp, hfr, hst, hd]⟩

/-- Stopping the service that runs ends the session. -/
theorem relayStop_spec {s : RelaySlot} (h : s.Runs) {k : Service} (hk : s.service.flag = k.flag) :
    (s.relayStop k).1 = s.held ∧ (s.relayStop k).2.Idle := by
  cases k with
  | talk => exact stopTalk_spec h hk
  | rts => exact stopStream_spec h hk nofun
  | devPbs => exact stopStream_spec h hk nofun
  | cloudPbs => exact stopStream_spec h hk nofun

/-- Stopping another service does nothing. -/
theorem relayStop_other {s : RelaySlot} (h : s.Runs) {k : Service} (hk : s.service.flag ≠ k.flag) :
    s.relayStop k = ([], s) := by
  have hs : s.state k.flag = false := by rw [h.state, decide_eq_false (Ne.symm hk)]
  cases k with
  | talk => exact if_pos hs
  | rts => exact if_pos hs
  | devPbs => exact if_pos hs
  | cloudPbs => exact if_pos hs

end RelaySlot

namespace RelayTable

structure Inv (w : RelayTable) : Prop where
  slots : ∀ i, (w.relay i).Idle ∨ (w.relay i).Runs
  once : ∀ m, w.freed.count m + (w.relay 0).held.count m + (w.relay 1).held.count m = if m < w.next then 1 else 0

theorem inv_init : Inv init := ⟨fun _ => .inl ⟨rfl, fun _ => rfl, rfl⟩, fun _ => rfl⟩

theorem setRelay_self (w : RelayTable) (i : Fin 2) (s : RelaySlot) : (w.setRelay i s).relay i = s :=
  Function.update_self ..

theorem setRelay_ne (w : RelayTable) {i j : Fin 2} (h : j ≠ i) (s : RelaySlot) :
    (w.setRelay i s).relay j = w.relay j :=
  Function.update_of_ne h ..

/-- The two slots' counts, when one of them changes. -/
theorem count_setRelay (w : RelayTable) (i : Fin 2) (s : RelaySlot) (m : ℕ) :
    ((w.setRelay i s).relay 0).held.count m + ((w.setRelay i s).relay 1).held.count m + (w.relay i).held.count m =
      (w.relay 0).held.count m + (w.relay 1).held.count m + s.held.count m := by
  match i with
  | 0 => rw [setRelay_self, setRelay_ne w (by decide)]; omega
  | 1 => rw [setRelay_self, setRelay_ne w (by decide)]; omega

theorem slots_setRelay {w : RelayTable} (h : Inv w) {i : Fin 2} {s : RelaySlot} (hs : s.Idle ∨ s.Runs) (j : Fin 2) :
    ((w.setRelay i s).relay j).Idle ∨ ((w.setRelay i s).relay j).Runs := by
  by_cases hj : j = i
  · rw [hj, setRelay_self]
    exact hs
  · rw [setRelay_ne w hj]
    exact h.slots j

theorem runs_of_used {w : RelayTable} (h : Inv w) {i : Fin 2} (hu : (w.relay i).isUsed = true) : (w.relay i).Runs := by
  rcases h.slots i with hi | hr
  · rw [hi.1] at hu
    cases hu
  · exact hr

theorem idle_of_free {w : RelayTable} (h : Inv w) {i : Fin 2} (hf : w.findFreeRequest = some i) : (w.relay i).Idle := by
  have hu : (w.relay i).isUsed = false := by simpa using List.find?_some hf
  rcases h.slots i with hi | hr
  · exact hi
  · rw [hr.used] at hu
    cases hu

theorem inv_start {w : RelayTable} (h : Inv w) (k : Service) : Inv (w.start k).2 := by
  unfold start
  split
  · exact h
  · cases hf : w.findFreeRequest with
    | none => exact h
    | some i =>
      have hi := idle_of_free h hf
      refine ⟨slots_setRelay h (.inr (RelaySlot.runs_relayStart hi k w.next)), ?_⟩
      intro m
      have hc := count_setRelay w i ({ w.relay i with isUsed := true }.relayStart k w.next) m
      have ho := h.once m
      rw [(RelaySlot.perm_relayStart hi k w.next).count_eq m, List.count_range_1', hi.2.2, List.count_nil] at hc
      show w.freed.count m + ((w.setRelay i _).relay 0).held.count m + ((w.setRelay i _).relay 1).held.count m =
        if m < w.next + k.makes then 1 else 0
      split_ifs at hc ho ⊢ <;> omega

theorem findRequestById_spec {w : RelayTable} {id : Int32} {i : Fin 2} (h : w.findRequestById id = some i) :
    (w.relay i).isUsed = true ∧ relayId i = id := by
  simpa using List.find?_some h

theorem relayId_inj : ∀ i j, relayId i = relayId j → i = j := by decide

/-- A used slot is found by its id. -/
theorem findRequestById_used {w : RelayTable} {i : Fin 2} (h : (w.relay i).isUsed = true) :
    w.findRequestById (relayId i) = some i := by
  cases hf : w.findRequestById (relayId i) with
  | none =>
    have hn := List.find?_eq_none.mp hf i (List.mem_finRange i)
    simp [h] at hn
  | some j => rw [relayId_inj j i (findRequestById_spec hf).2]

theorem findRequestById_dead {w : RelayTable} {id : Int32} (h : ∀ i, (w.relay i).isUsed = true → relayId i ≠ id) :
    w.findRequestById id = none := by
  apply List.find?_eq_none.mpr
  intro i _
  simpa using h i

theorem setRelay_relay (w : RelayTable) (i : Fin 2) : w.setRelay i (w.relay i) = w :=
  congrArg (fun r => { w with relay := r }) (Function.update_eq_self ..)

theorem stop_other {w : RelayTable} (h : Inv w) (hl : w.loginState = true) {i : Fin 2}
    (hu : (w.relay i).isUsed = true) {k : Service} (hk : (w.relay i).service.flag ≠ k.flag) :
    w.stop k (relayId i) = (0, w) := by
  have hs := RelaySlot.relayStop_other (runs_of_used h hu) hk
  have hw : w.setRelay i (w.relay i) = w := setRelay_relay w i
  have hf : w.loginState ≠ false := by simp [hl]
  rw [stop, if_neg hf, findRequestById_used hu]
  simp only [hs, hw, List.append_nil]

theorem stop_ends {w : RelayTable} (h : Inv w) (hl : w.loginState = true) {i : Fin 2}
    (hu : (w.relay i).isUsed = true) {k : Service} (hk : (w.relay i).service.flag = k.flag) :
    (w.stop k (relayId i)).1 = 0 ∧ w.Ended (w.stop k (relayId i)).2 i := by
  obtain ⟨hfr, hidle⟩ := RelaySlot.relayStop_spec (runs_of_used h hu) hk
  simp only [stop, hl, findRequestById_used hu, Bool.true_eq_false, if_false, hfr]
  refine ⟨trivial, ?_, ?_, ?_⟩
  · show RelaySlot.Idle ((w.setRelay i _).relay i)
    rw [setRelay_self]
    exact hidle
  · intro m hm
    have hpos := List.count_pos_iff.mpr hm
    have ho := h.once m
    have hle : (w.relay i).held.count m ≤ (w.relay 0).held.count m + (w.relay 1).held.count m := by
      match i with
      | 0 => exact Nat.le_add_right _ _
      | 1 => exact Nat.le_add_left _ _
    have hz : w.freed.count m = 0 := by split_ifs at ho <;> omega
    refine ⟨List.count_eq_zero.mp hz, ?_⟩
    show (w.freed ++ (w.relay i).held).count m = 1
    rw [List.count_append]
    split_ifs at ho <;> omega
  · intro j hj
    exact setRelay_ne w hj _

theorem inv_stop {w : RelayTable} (h : Inv w) (k : Service) (id : Int32) : Inv (w.stop k id).2 := by
  by_cases hl : w.loginState = true
  · cases hf : w.findRequestById id with
    | none =>
      have hs : w.stop k id = (Nc.errInput, w) := by simp [stop, hl, hf]
      rw [hs]
      exact h
    | some i =>
      obtain ⟨hu, rfl⟩ := findRequestById_spec hf
      by_cases hk : (w.relay i).service.flag = k.flag
      · obtain ⟨hfr, hidle⟩ := RelaySlot.relayStop_spec (runs_of_used h hu) hk
        simp only [stop, hl, hf, Bool.true_eq_false, if_false, hfr]
        refine ⟨slots_setRelay h (.inl hidle), ?_⟩
        intro m
        have hc := count_setRelay w i ((w.relay i).relayStop k).2 m
        have ho := h.once m
        rw [hidle.2.2, List.count_nil] at hc
        show (w.freed ++ (w.relay i).held).count m + ((w.setRelay i _).relay 0).held.count m +
          ((w.setRelay i _).relay 1).held.count m = if m < w.next then 1 else 0
        rw [List.count_append]
        omega
      · rw [stop_other h hl hu hk]
        exact h
  · have hs : w.stop k id = (Nc.errNoLogin, w) := by simp [stop, hl]
    rw [hs]
    exact h

theorem lawful_of_inv {w : RelayTable} (h : Inv w) : Lawful w where
  used i := by
    rcases h.slots i with hi | hr
    · simp [hi.1, hi.2.1]
    · simp [hr.used, hr.state]
  stop k := by
    refine ⟨?_, ?_, ?_, ?_⟩
    · intro hl id
      simp [stop, hl]
    · intro hl id hd
      simp [stop, hl, findRequestById_dead hd]
    · intro hl i hu hk
      exact stop_ends h hl hu hk
    · intro hl i hu hk
      exact stop_other h hl hu hk

theorem inv_step {w t : RelayTable} {c : RelayCall} (h : Inv w) (hs : step w c = some t) : Inv t := by
  cases c with
  | loginUser => cases hs; exact ⟨h.slots, h.once⟩
  | logout => cases hs; exact ⟨h.slots, h.once⟩
  | start k => cases hs; exact inv_start h k
  | stop k id => cases hs; exact inv_stop h k id

/-- **The law of relay sessions**, after any sequence of calls. -/
theorem relays_lawful (cs : List RelayCall) : Reached step Lawful init cs := by
  apply reached_of_inv (I := Inv)
  · intro w c t h hs
    exact inv_step h hs
  · intro w h
    exact lawful_of_inv h
  · exact inv_init

/-- What one might expect of stop calls: each ends the live sessions of its own service at any time,
and refuses all others. -/
structure Expected (w : RelayTable) : Prop where
  ends : ∀ k i, (w.relay i).isUsed = true → (w.relay i).service = k →
    (w.stop k (relayId i)).1 = 0 ∧ w.Ended (w.stop k (relayId i)).2 i
  refuses : ∀ k id, (∀ i, (w.relay i).isUsed = true → (w.relay i).service = k → relayId i ≠ id) →
    (w.stop k id).1 < 0 ∧ (w.stop k id).2 = w

/-- A view cannot be stopped after a logout; stopping it as a talk succeeds and does nothing; stopping a
cloud playback as a device playback succeeds and ends it. -/
theorem relays_unexpected :
    (∃ t, exec step init [.loginUser, .start .rts, .logout] = some t ∧
      (t.stop .rts (relayId 0)).1 = Nc.errNoLogin ∧ ¬ t.Expected) ∧
    (∃ t, exec step init [.loginUser, .start .rts] = some t ∧
      (t.stop .talk (relayId 0)).1 = 0 ∧ ((t.stop .talk (relayId 0)).2.relay 0).isUsed = true ∧ ¬ t.Expected) ∧
    ∃ t, exec step init [.loginUser, .start .cloudPbs] = some t ∧
      (t.stop .devPbs (relayId 0)).1 = 0 ∧ ((t.stop .devPbs (relayId 0)).2.relay 0).isUsed = false ∧ ¬ t.Expected := by
  refine ⟨⟨_, rfl, by decide, ?_⟩, ⟨_, rfl, by decide, by decide, ?_⟩, ⟨_, rfl, by decide, by decide, ?_⟩⟩
  · intro h
    exact absurd (h.ends .rts 0 rfl rfl).1 (by decide)
  · intro h
    have hr := h.refuses .talk (relayId 0) (by decide)
    exact absurd hr.1 (by decide)
  · intro h
    have hr := h.refuses .devPbs (relayId 0) (by decide)
    exact absurd hr.1 (by decide)

end RelayTable

end Cloud

end SabApp
