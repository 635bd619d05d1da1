import SabApp.QhPlayback

/-!
# Sessions on a QH user slot

No start or stop call resets `pbs_pos`, `pbs_pause`, `pbs_restart`, `pbs_speed` or `last_type`, and the calls
that set the flags do not ask whether the slot is used: a playback may send commands nobody asked it
for, and a session may keep its first state to itself. States also get lost in a full
stream, or before the play thread has taken its position.
-/

namespace SabApp

namespace Qh

namespace UserWorld

/-! ## Commands of the session -/

/-- Every playback command of the session was asked for in it. -/
def OwnCommands (w : UserWorld) : Prop :=
  ∀ c, .sent (.control c) ∈ session w.log → .asked (.control c) ∈ session w.log

/-- What the flags of a playback hold was asked for in the session. -/
structure Owned (w : UserWorld) : Prop where
  flags : w.user.type = .pbs → ∀ f c, w.user.pending f = some c → .asked (.control c) ∈ session w.log
  sent : w.OwnCommands

theorem Owned.cons {w t : UserWorld} (h : w.Owned) {e : Entry} (he : e ≠ .began) (hc : ∀ c, e ≠ .sent (.control c))
    (hl : t.log = e :: w.log) (hp : t.user.pending = w.user.pending) (ht : t.user.type = w.user.type) : t.Owned := by
  refine ⟨fun hty f c hf => ?_, fun c hm => ?_⟩
  · rw [hl, session_cons he]
    exact List.mem_cons_of_mem _ (h.flags (ht ▸ hty) f c (hp ▸ hf))
  · rw [hl, session_cons he] at hm ⊢
    cases hm with
    | head => exact absurd rfl (hc c)
    | tail _ hm => exact List.mem_cons_of_mem _ (h.sent c hm)

theorem pending_set_cases {u : UserSlot} {c d : Control} {f : Flag} (h : (u.set (.control c)).pending f = some d) :
    d = c ∨ u.pending f = some d := by
  cases c with
  | pause => cases f <;> first | exact .inr h | exact .inl (Option.some.inj h).symm
  | restart => cases f <;> first | exact .inr h | exact .inl (Option.some.inj h).symm
  | pos v =>
    cases f <;> try exact .inr h
    by_cases hv : v = 0
    · simp [UserSlot.set, UserSlot.pending, hv] at h
    · simp [UserSlot.set, UserSlot.pending, hv] at h
      exact .inl h.symm
  | speed v =>
    cases f <;> try exact .inr h
    by_cases hv : v = 0
    · simp [UserSlot.set, UserSlot.pending, hv] at h
    · simp [UserSlot.set, UserSlot.pending, hv] at h
      exact .inl h.symm

theorem owned_step {w t : UserWorld} {a : UserAct} (ht : w.Threaded) (h : w.Owned)
    (hok : a = .start .pbs → w.user.Idle) (hs : step w a = some t) : t.Owned := by
  cases step_effect hs with
  | quiet hl hu hk hty =>
    refine ⟨fun hp f c hf => ?_, fun c hm => ?_⟩
    · rw [hl]
      exact h.flags (hty ▸ hp) f c (hu ▸ hf)
    · rw [hl] at hm ⊢
      exact h.sent c hm
  | began k ha hl hu hk hty =>
    refine ⟨fun hp f c hf => ?_, fun c hm => ?_⟩
    · have hi := hok (by rw [ha, ← hty, hp]) f
      rw [hu, hi] at hf
      cases hf
    · simp [hl] at hm
  | asked r ha hl hu =>
    cases r with
    | keyFrame => exact h.cons (by simp) (by simp) hl (by rw [hu]; rfl) (by rw [hu]; rfl)
    | control c =>
      refine ⟨fun hp f d hf => ?_, fun d hm => ?_⟩
      · rw [hl, session_cons (by simp)]
        rw [hu] at hf
        rcases pending_set_cases hf with rfl | hf
        · exact List.mem_cons_self
        · exact List.mem_cons_of_mem _ (h.flags (by rw [hu, set_type] at hp; exact hp) f d hf)
      · rw [hl, session_cons (by simp)] at hm ⊢
        exact List.mem_cons_of_mem _ (h.sent d (by simpa using hm))
  | key hl hu hty => exact h.cons (by simp) (by simp) hl hu hty
  | control f c ha hpc hf hl hu =>
    refine ⟨fun hp g d hg => ?_, fun d hm => ?_⟩
    · rw [hl, session_cons (by simp)]
      rw [hu, UserSlot.pending_clear] at hg
      split at hg
      · cases hg
      · exact List.mem_cons_of_mem _ (h.flags (ht.type f hpc) g d hg)
    · rw [hl, session_cons (by simp)] at hm ⊢
      refine List.mem_cons_of_mem _ ?_
      cases hm with
      | head => exact h.flags (ht.type f hpc) f c hf
      | tail _ hm => exact h.sent d hm
  | streamStart hl hu hk hty => exact h.cons (by simp) (by simp) hl hu hty

/-! ## States of the session -/

/-- What the callback of the latest start call got. -/
def ownShown (w : UserWorld) : List StreamState := (w.shown.filter fun p => p.1 + 1 = w.starts).map Prod.snd

/-- Each state change has gone to the session's callback or lies in the stream for the play thread. -/
def Notified (w : UserWorld) : Prop :=
  w.user.isUsed = true → w.user.type.reports = true → w.ownShown ++ w.ring = w.states

/-- A session that starts clean. -/
def Clean (w : UserWorld) : Prop := w.OwnCommands ∧ w.Notified

/-- The guard: a playback starts with no flag set; the first state that a session reports is not the one last reported
on the slot; and a new state finds room in the stream and the play thread at its position. -/
def Fresh (w : UserWorld) : UserAct → Prop
  | .start k => k = .pbs → w.user.Idle
  | .report room => ∀ s ∈ w.todo.head?, w.user.type.reports = true →
      (w.states = [] → w.user.lastType ≠ some s) ∧
      (w.user.type.streams = true → w.user.lastType ≠ some s → room = true ∧ w.play ≠ .enter)
  | _ => True

instance decidableFresh (w : UserWorld) : ∀ a, Decidable (Fresh w a)
  | .start k => inferInstanceAs (Decidable (k = .pbs → w.user.Idle))
  | .report room => inferInstanceAs (Decidable (∀ s ∈ w.todo.head?, w.user.type.reports = true →
      (w.states = [] → w.user.lastType ≠ some s) ∧
      (w.user.type.streams = true → w.user.lastType ≠ some s → room = true ∧ w.play ≠ .enter)))
  | .call _ | .stop | .join | .run _ | .reply _ | .recv _ | .initReadPos | .get | .playQuit => isTrue trivial

structure Telling (w : UserWorld) : Prop where
  cb : w.user.isUsed = true → ∃ n, w.user.cb = some n
  number : ∀ n, w.user.cb = some n → n + 1 = w.starts
  older : ∀ p ∈ w.shown, p.1 < w.starts
  last : w.user.isUsed = true → w.user.type.reports = true → w.states ≠ [] → w.user.lastType = w.states.getLast?
  entering : w.play = .enter → w.ring = []
  noStream : w.user.type.streams = false → w.ring = []
  notified : w.Notified

theorem Telling.of_unused {w : UserWorld} (hu : w.user.isUsed = false) (hcb : w.user.cb = none) (hring : w.ring = [])
    (holder : ∀ p ∈ w.shown, p.1 < w.starts) : w.Telling := by
  have hne : w.user.isUsed ≠ true := by simp [hu]
  refine ⟨fun h => absurd h hne, fun n hn => ?_, holder, fun h => absurd h hne, fun _ => hring, fun _ => hring,
    fun h => absurd h hne⟩
  rw [hcb] at hn
  cases hn

/-- What a step leaves alone that neither reports nor delivers a state. -/
structure Still (w t : UserWorld) : Prop where
  isUsed : t.user.isUsed = w.user.isUsed
  type : t.user.type = w.user.type
  cb : t.user.cb = w.user.cb
  lastType : t.user.lastType = w.user.lastType
  ring : t.ring = w.ring
  starts : t.starts = w.starts
  states : t.states = w.states
  shown : t.shown = w.shown
  play : t.play = .enter → w.play = .enter

theorem Telling.of_still {w t : UserWorld} (h : w.Telling) (hs : w.Still t) : t.Telling where
  cb hu := by
    rw [hs.cb]
    exact h.cb (hs.isUsed ▸ hu)
  number n hn := by
    rw [hs.starts]
    exact h.number n (hs.cb ▸ hn)
  older p hp := by
    rw [hs.starts]
    exact h.older p (hs.shown ▸ hp)
  last hu ht hn := by
    rw [hs.lastType, hs.states]
    exact h.last (hs.isUsed ▸ hu) (hs.type ▸ ht) (hs.states ▸ hn)
  entering he := by
    rw [hs.ring]
    exact h.entering (hs.play he)
  noStream ht := by
    rw [hs.ring]
    exact h.noStream (hs.type ▸ ht)
  notified hu ht := by
    rw [ownShown, hs.shown, hs.starts, hs.ring, hs.states]
    exact h.notified (hs.isUsed ▸ hu) (hs.type ▸ ht)

theorem still_goto (w : UserWorld) (pc : UserPc) (todo : List StreamState) : w.Still (w.goto pc todo) :=
  ⟨rfl, rfl, rfl, rfl, rfl, rfl, rfl, rfl, id⟩

theorem still_close (w : UserWorld) (todo : List StreamState) : w.Still (w.close todo) :=
  ⟨rfl, rfl, rfl, rfl, rfl, rfl, rfl, rfl, id⟩

theorem still_serve (w : UserWorld) (todo : List StreamState) : w.Still (w.serve todo) := still_goto ..

theorem still_unlock (w : UserWorld) : w.Still w.unlock := ⟨rfl, rfl, rfl, rfl, rfl, rfl, rfl, rfl, id⟩

theorem still_afterFlag (w : UserWorld) (f : Flag) : w.Still (w.afterFlag f) := by
  cases f
  · exact still_goto ..
  · exact still_goto ..
  · exact still_goto ..
  · exact still_unlock w

theorem Still.trans {w t u : UserWorld} (h : w.Still t) (k : t.Still u) : w.Still u where
  isUsed := k.isUsed.trans h.isUsed
  type := k.type.trans h.type
  cb := k.cb.trans h.cb
  lastType := k.lastType.trans h.lastType
  ring := k.ring.trans h.ring
  starts := k.starts.trans h.starts
  states := k.states.trans h.states
  shown := k.shown.trans h.shown
  play he := h.play (k.play he)

theorem still_user {w t : UserWorld} {u : UserSlot} {log : List Entry} (h : ({ w with user := u, log } : UserWorld).Still t)
    (hu : u.isUsed = w.user.isUsed) (ht : u.type = w.user.type) (hc : u.cb = w.user.cb)
    (hl : u.lastType = w.user.lastType) : w.Still t :=
  Still.trans (t := { w with user := u, log }) ⟨hu, ht, hc, hl, rfl, rfl, rfl, rfl, id⟩ h

theorem still_run {w t : UserWorld} {b : Bool} (h : w.run b = some t) : w.Still t := by
  cases hp : w.pc with
  | off => simp [run, hp] at h
  | top =>
    simp only [run, hp] at h
    split at h <;> cases h
    · exact still_goto ..
    · exact ⟨rfl, rfl, rfl, rfl, rfl, rfl, rfl, rfl, id⟩
  | live =>
    simp only [run, hp] at h
    split at h
    · cases h; exact still_goto ..
    split at h
    · cases h; exact still_serve ..
    split at h <;> cases h <;> exact still_goto ..
  | connect =>
    simp only [run, hp] at h
    split at h <;> cases h
    · exact ⟨rfl, rfl, rfl, rfl, rfl, rfl, rfl, rfl, id⟩
    · exact still_goto ..
  | auth => simp [run, hp] at h
  | loggedIn ok =>
    simp only [run, hp] at h
    split at h
    · cases h; exact ⟨rfl, rfl, rfl, rfl, rfl, rfl, rfl, rfl, id⟩
    split at h <;> cases h <;> exact ⟨rfl, rfl, rfl, rfl, rfl, rfl, rfl, rfl, id⟩
  | start =>
    simp only [run, hp] at h
    split at h <;> cases h
    · exact ⟨rfl, rfl, rfl, rfl, rfl, rfl, rfl, rfl, id⟩
    · exact still_close ..
  | lock =>
    simp only [run, hp] at h
    cases h
    exact ⟨rfl, rfl, rfl, rfl, rfl, rfl, rfl, rfl, id⟩
  | key =>
    simp only [run, hp] at h
    split at h
    · split at h <;> cases h
      · exact ⟨rfl, rfl, rfl, rfl, rfl, rfl, rfl, rfl, id⟩
      · exact still_close ..
    · cases h; exact still_unlock w
  | flush f =>
    simp only [run, hp] at h
    cases hf : w.user.pending f with
    | none =>
      simp only [hf] at h
      cases h; exact still_afterFlag w f
    | some c =>
      simp only [hf] at h
      split at h <;> cases h
      · exact still_user (still_afterFlag _ f) (by cases f <;> rfl) (by cases f <;> rfl) (by cases f <;> rfl)
          (by cases f <;> rfl)
      · exact still_close ..
  | beat =>
    simp only [run, hp] at h
    split at h <;> cases h
    · exact still_goto ..
    · exact still_close ..
  | recv => simp [run, hp] at h
  | quit => simp [run, hp] at h

theorem still_call (w : UserWorld) (r : Request) : w.Still (w.call r) := by
  unfold call
  split
  · rcases r with _ | c
    · exact ⟨rfl, rfl, rfl, rfl, rfl, rfl, rfl, rfl, id⟩
    · cases c <;> exact ⟨rfl, rfl, rfl, rfl, rfl, rfl, rfl, rfl, id⟩
  · exact still_goto w w.pc w.todo

theorem still_reply (w : UserWorld) (r : LoginReply) : w.Still (w.reply r) := by
  cases r with
  | errorBusy => cases ht : w.user.type <;> simp only [reply, ht] <;> exact still_goto ..
  | _ => exact still_goto ..

theorem still_recv (w : UserWorld) (e : RecvEvent) : w.Still (w.recv e) := by
  cases e with
  | broken => exact still_close ..
  | frame => exact still_goto ..
  | pbsEnd =>
    simp only [recv]
    split
    · exact ⟨rfl, rfl, rfl, rfl, rfl, rfl, rfl, rfl, id⟩
    · exact still_goto ..

theorem toCb_some {w : UserWorld} {n : ℕ} (h : w.user.cb = some n) (s : StreamState) :
    w.toCb s = { w with shown := w.shown ++ [(n, s)] } := by
  rw [toCb, h]

theorem toCb_none {w : UserWorld} (h : w.user.cb = none) (s : StreamState) : w.toCb s = w := by
  rw [toCb, h]

theorem ownShown_snoc {w : UserWorld} {n : ℕ} (h : n + 1 = w.starts) (s : StreamState) :
    ({ w with shown := w.shown ++ [(n, s)] } : UserWorld).ownShown = w.ownShown ++ [s] := by
  simp [ownShown, h]

theorem older_snoc {w : UserWorld} (h : w.Telling) {n : ℕ} (hn : n + 1 = w.starts) (s : StreamState) :
    ∀ p ∈ w.shown ++ [(n, s)], p.1 < w.starts := by
  intro p hp
  rcases List.mem_append.mp hp with hp | hp
  · exact h.older p hp
  · rw [List.mem_singleton.mp hp, ← hn]
    exact Nat.lt_succ_self n

theorem telling_start {w : UserWorld} (h : w.Telling) (k : CmdBase) : (w.start k).Telling where
  cb _ := ⟨w.starts, rfl⟩
  number n hn := by cases hn; rfl
  older p hp := Nat.lt_succ_of_lt (h.older p hp)
  last _ _ hn := absurd rfl hn
  entering _ := rfl
  noStream _ := rfl
  notified _ _ := by
    have hnil : (w.start k).ownShown = [] := by
      simp only [ownShown, start, List.map_eq_nil_iff, List.filter_eq_nil_iff]
      intro p hp he
      have hlt := h.older p hp
      have heq : p.1 + 1 = w.starts + 1 := by simpa using he
      omega
    rw [hnil]
    rfl

theorem telling_get {w : UserWorld} (h : w.Telling) {s : StreamState} {rest : List StreamState}
    (hr : w.ring = s :: rest) : (({ w with ring := rest } : UserWorld).toCb s).Telling := by
  have hstream : w.user.type.streams = true := by
    by_contra hc
    rw [h.noStream (by simpa using hc)] at hr
    cases hr
  have hplay : w.play ≠ .enter := fun he => by
    rw [h.entering he] at hr
    cases hr
  cases hc : w.user.cb with
  | none =>
    rw [toCb_none (w := { w with ring := rest }) hc]
    have hu : w.user.isUsed ≠ true := fun hu => by
      obtain ⟨n, hn⟩ := h.cb hu
      rw [hc] at hn
      cases hn
    exact ⟨fun hu' => absurd hu' hu, h.number, h.older, h.last, fun he => absurd he hplay,
      fun ht => (by rw [hstream] at ht; cases ht), fun hu' => absurd hu' hu⟩
  | some n =>
    rw [toCb_some (w := { w with ring := rest }) hc]
    have hn := h.number n hc
    refine ⟨h.cb, h.number, older_snoc h hn s, h.last, fun he => absurd he hplay,
      fun ht => (by rw [hstream] at ht; cases ht), fun hu ht => ?_⟩
    have := h.notified hu ht
    rw [hr] at this
    rw [ownShown_snoc (w := { w with ring := rest }) hn s, List.append_assoc]
    exact this

theorem enter_states {w : UserWorld} (h : w.Telling) (hu : w.user.isUsed = true) (ht : w.user.type.reports = true)
    {s : StreamState} (hs : w.user.lastType ≠ some s) : (w.enter s).states = w.states ++ [s] := by
  have hl : w.states.getLast? ≠ some s := fun hl => by
    by_cases hn : w.states = []
    · rw [hn] at hl
      cases hl
    · rw [h.last hu ht hn] at hs
      exact hs hl
  simp [enter, hl]

theorem telling_report {w : UserWorld} (h : w.Telling) {s : StreamState} {room : Bool}
    (hok : w.user.type.reports = true → (w.states = [] → w.user.lastType ≠ some s) ∧
      (w.user.type.streams = true → w.user.lastType ≠ some s → room = true ∧ w.play ≠ .enter)) :
    (w.doState s room).Telling := by
  by_cases hs : w.user.lastType = some s
  · -- suppressed: the session reported this state last
    rw [doState, if_pos hs]
    have hst : w.user.isUsed = true → w.user.type.reports = true → (w.enter s).states = w.states := fun hu ht => by
      have hl := h.last hu ht fun hn => (hok ht).1 hn hs
      simp [enter, ← hl, hs]
    refine ⟨h.cb, h.number, h.older, fun hu ht hn => ?_, h.entering, h.noStream, fun hu ht => ?_⟩
    · rw [hst hu ht] at hn ⊢
      exact h.last hu ht hn
    · rw [hst hu ht]
      exact h.notified hu ht
  rw [doState, if_neg hs]
  have hlast : ∀ l : List StreamState, some s = (l ++ [s]).getLast? := fun l => by simp
  by_cases hst : w.user.type.streams = true
  · have hr : w.user.type.reports = true := by cases ht : w.user.type <;> simp_all [CmdBase.streams, CmdBase.reports]
    obtain ⟨rfl, hplay⟩ := (hok hr).2 hst hs
    have hn : (w.enter s).notify s true = { w.enter s with ring := w.ring ++ [s] } := by
      rw [notify, if_pos (by exact hst)]
      rfl
    rw [hn]
    refine ⟨h.cb, h.number, h.older, fun hu ht _ => ?_, fun he => absurd he hplay, fun ht => ?_, fun hu ht => ?_⟩
    · exact (hlast w.states).trans (congrArg _ (enter_states h hu ht hs).symm)
    · rw [show w.user.type.streams = false from ht] at hst
      cases hst
    · have hnot := h.notified hu ht
      have hent := enter_states h hu ht hs
      simp only [ownShown, reported] at hnot ⊢
      rw [hent, ← hnot, List.append_assoc]
      rfl
  by_cases htalk : w.user.type = .talk
  · have hr : w.ring = [] := h.noStream (by simpa using hst)
    have hn : (w.enter s).notify s room = (w.enter s).toCb s := by
      rw [notify, if_neg (by exact hst), if_pos (by exact htalk)]
    rw [hn]
    cases hc : w.user.cb with
    | none =>
      have hu : w.user.isUsed ≠ true := fun hu => by
        obtain ⟨n, hn⟩ := h.cb hu
        rw [hc] at hn
        cases hn
      rw [toCb_none (w := w.enter s) hc]
      exact ⟨fun hu' => absurd hu' hu, h.number, h.older, fun hu' => absurd hu' hu, h.entering, h.noStream,
        fun hu' => absurd hu' hu⟩
    | some n =>
      have hnum := h.number n hc
      rw [toCb_some (w := w.enter s) hc]
      refine ⟨h.cb, h.number, older_snoc h hnum s, fun hu ht _ => ?_, h.entering, h.noStream, fun hu ht => ?_⟩
      · exact (hlast w.states).trans (congrArg _ (enter_states h hu ht hs).symm)
      · have hnot := h.notified hu ht
        have hent := enter_states h hu ht hs
        rw [hr, List.append_nil] at hnot
        show ({ w with shown := w.shown ++ [(n, s)] } : UserWorld).ownShown ++ w.ring = (w.enter s).states
        rw [ownShown_snoc hnum s, hr, List.append_nil, hent, ← hnot]
  · -- an alarm subscription reports nothing
    have hr : w.user.type.reports ≠ true := by
      cases ht : w.user.type <;> simp_all [CmdBase.streams, CmdBase.reports]
    have hn : (w.enter s).notify s room = w.enter s := by
      rw [notify, if_neg (by exact hst), if_neg (by exact htalk)]
    rw [hn]
    exact ⟨h.cb, h.number, h.older, fun _ ht => absurd ht hr, h.entering, h.noStream, fun _ ht => absurd ht hr⟩

theorem telling_step {w t : UserWorld} {a : UserAct} (h : w.Telling) (hok : Fresh w a) (hs : step w a = some t) :
    t.Telling := by
  cases a with
  | start k =>
    simp only [step] at hs
    split at hs <;> cases hs
    exact telling_start h k
  | stop => cases hs; exact h.of_still ⟨rfl, rfl, rfl, rfl, rfl, rfl, rfl, rfl, id⟩
  | join =>
    simp only [step] at hs
    split at hs <;> cases hs
    exact .of_unused rfl rfl rfl h.older
  | call r =>
    simp only [step] at hs
    split at hs <;> cases hs
    exact h.of_still (still_call w r)
  | report room =>
    cases ht : w.todo with
    | nil => simp [step, ht] at hs
    | cons s rest =>
      simp only [step, ht, Option.some.injEq] at hs
      subst hs
      exact telling_report (h.of_still (still_goto w w.pc rest)) (hok s (by simp [ht]))
  | run b =>
    simp only [step] at hs
    split at hs
    · exact h.of_still (still_run hs)
    · cases hs
  | reply r =>
    simp only [step] at hs
    split at hs <;> cases hs
    exact h.of_still (still_reply w r)
  | recv e =>
    simp only [step] at hs
    split at hs <;> cases hs
    exact h.of_still (still_recv w e)
  | initReadPos =>
    simp only [step] at hs
    split at hs <;> cases hs
    have hr := h.entering ‹_›
    exact ⟨h.cb, h.number, h.older, h.last, fun _ => rfl, fun _ => rfl, fun hu ht => by
      have := h.notified hu ht
      rwa [hr] at this⟩
  | get =>
    simp only [step] at hs
    split at hs <;> cases hs
    exact telling_get h ‹_›
  | playQuit =>
    simp only [step] at hs
    split at hs <;> cases hs
    exact h.of_still ⟨rfl, rfl, rfl, rfl, rfl, rfl, rfl, rfl, fun he => by cases he⟩

/-- **Sessions start clean**, in every run whose steps meet the guard. -/
theorem sessions_clean {acts : List UserAct} (h : Meets step Fresh init acts) : Reached step Clean init acts := by
  refine reached_of_meets (I := fun w => w.Threaded ∧ w.Owned ∧ w.Telling) (fun w a t hi ho hs => ?_)
    (fun w hi => ⟨hi.2.1.sent, hi.2.2.notified⟩) ⟨?_, ?_, ?_⟩ h
  · refine ⟨threaded_step hi.1 hs, owned_step hi.1 hi.2.1 ?_ hs, telling_step hi.2.2 ho hs⟩
    rintro rfl
    exact ho rfl
  · exact .of_pc (by simp [init]) (by simp [init])
  · refine ⟨fun ht => ?_, fun c hc => ?_⟩
    · cases ht
    · cases hc
  · exact .of_unused rfl rfl rfl (List.forall_mem_nil _)

/-- A playback that is stopped and a live view after it on the slot. -/
theorem sessions_clean_twice : Reached step Clean init (opening ++ round.take 5 ++
    [.get, .get, .get, .get, .stop, .run false, .playQuit, .join, .start .rts, .initReadPos, .run false, .run false,
      .report true, .get]) :=
  sessions_clean (by decide)

/-- A pause that the session before was asked for, and a first state that the session before reported last. -/
theorem sessions_unclean :
    ¬ Reached step Clean init ([.start .pbs, .call (.control .pause), .stop, .run false, .initReadPos, .playQuit,
      .join] ++ opening ++ round.take 2) ∧
    ¬ Reached step Clean init [.start .rts, .initReadPos, .run false, .run false, .report true, .stop, .run false,
      .playQuit, .join, .start .rts, .initReadPos, .run false, .run false, .report true] := by
  refine ⟨fun h => ?_, fun h => ?_⟩
  · have := (h _ _ (List.prefix_refl _) rfl).1 .pause (by decide)
    exact absurd this (by decide)
  · have := (h _ _ (List.prefix_refl _) rfl).2 rfl rfl
    exact absurd this (by decide)

end UserWorld

end Qh

end SabApp
