import SabApp.QhUser

/-!
# Playback commands of a QH session

The thread tests position, pause, restart and speed in this order, whatever the order of the calls, and
a position or a speed of 0 reads as none asked for. A start call leaves the four flags and the
last reported state as it finds them.
-/

namespace SabApp

namespace Qh

/-! ## Requests and commands -/

/-- Commands of one channel replace one another. -/
inductive Channel where
  | pos
  | play
  | speed
  deriving DecidableEq

def Flag.channel : Flag → Channel
  | pos => .pos
  | pause => .play
  | restart => .play
  | speed => .speed

namespace Control

def flag : Control → Flag
  | pos _ => .pos
  | pause => .pause
  | restart => .restart
  | speed _ => .speed

def channel (c : Control) : Channel := c.flag.channel

/-- Not a value that the thread takes for none. -/
def Counts (c : Control) : Prop := c ≠ pos 0 ∧ c ≠ speed 0

instance (c : Control) : Decidable c.Counts := inferInstanceAs (Decidable (_ ∧ _))

end Control

namespace UserSlot

variable {u : UserSlot} {f g : Flag} {c : Control}

theorem flag_of_pending (h : u.pending f = some c) : c.flag = f := by
  cases f <;> simp only [pending, Option.ite_none_right_eq_some] at h <;> rw [← Option.some.inj h.2] <;> rfl

@[simp] theorem pending_clear (u : UserSlot) (f g : Flag) :
    (u.clear f).pending g = if g = f then none else u.pending g := by
  cases f <;> cases g <;> rfl

theorem pending_set (u : UserSlot) (hc : c.Counts) (g : Flag) :
    (u.set (.control c)).pending g = if g = c.flag then some c else u.pending g := by
  obtain ⟨hp, hs⟩ := hc
  cases c with
  | pos v => cases g <;> first | rfl | simp_all [set, pending, Control.flag]
  | pause => cases g <;> rfl
  | restart => cases g <;> rfl
  | speed v => cases g <;> first | rfl | simp_all [set, pending, Control.flag]

end UserSlot

/-- No playback flag is set. -/
def UserSlot.Idle (u : UserSlot) : Prop := ∀ f, u.pending f = none

instance (u : UserSlot) : Decidable u.Idle :=
  decidable_of_iff (u.pending .pos = none ∧ u.pending .pause = none ∧ u.pending .restart = none ∧
    u.pending .speed = none) ⟨fun ⟨hp, ha, hr, hs⟩ f => by cases f <;> assumption, fun h => ⟨h _, h _, h _, h _⟩⟩

/-- The history since the last start call. -/
def session (log : List Entry) : List Entry := log.takeWhile (· ≠ .began)

@[simp] theorem session_began (log : List Entry) : session (.began :: log) = [] := by simp [session]

@[simp] theorem session_cons {e : Entry} (he : e ≠ .began) (log : List Entry) :
    session (e :: log) = e :: session log := by simp [session, he]

def Entry.asks (ch : Channel) : Entry → Option Control
  | .asked (.control c) => if c.channel = ch then some c else none
  | _ => none

def Entry.sends (ch : Channel) : Entry → Option Control
  | .sent (.control c) => if c.channel = ch then some c else none
  | _ => none

/-- The last request of the session on a channel. -/
def lastAsked (ch : Channel) (log : List Entry) : Option Control := (session log).findSome? (Entry.asks ch)

/-- The last command of the session on a channel. -/
def lastSent (ch : Channel) (log : List Entry) : Option Control := (session log).findSome? (Entry.sends ch)

section Last

variable {ch : Channel} {e : Entry} {log : List Entry}

@[simp] theorem lastAsked_began : lastAsked ch (.began :: log) = none := by simp [lastAsked]

@[simp] theorem lastSent_began : lastSent ch (.began :: log) = none := by simp [lastSent]

theorem lastAsked_cons (he : e ≠ .began) : lastAsked ch (e :: log) = (e.asks ch).or (lastAsked ch log) := by
  rw [lastAsked, session_cons he, List.findSome?_cons]
  cases e.asks ch <;> rfl

theorem lastSent_cons (he : e ≠ .began) : lastSent ch (e :: log) = (e.sends ch).or (lastSent ch log) := by
  rw [lastSent, session_cons he, List.findSome?_cons]
  cases e.sends ch <;> rfl

theorem lastAsked_skip (he : e ≠ .began) (h : e.asks ch = none) : lastAsked ch (e :: log) = lastAsked ch log := by
  rw [lastAsked_cons he, h]; rfl

theorem lastSent_skip (he : e ≠ .began) (h : e.sends ch = none) : lastSent ch (e :: log) = lastSent ch log := by
  rw [lastSent_cons he, h]; rfl

end Last

namespace UserWorld

/-! ## The thread under the mutex -/

/-- The flags are tested by a playback's thread, under the mutex, pause before restart. -/
structure Threaded (w : UserWorld) : Prop where
  locked : ∀ f, w.pc = .flush f → w.locked = true
  type : ∀ f, w.pc = .flush f → w.user.type = .pbs
  paused : w.pc = .flush .restart → w.user.pending .pause = none
  lock : w.pc = .lock → w.user.type = .rts ∨ w.user.type = .pbs

theorem Threaded.of_pc {w : UserWorld} (hl : w.pc ≠ .lock) (hf : ∀ f, w.pc ≠ .flush f) : w.Threaded :=
  ⟨fun f h => absurd h (hf f), fun f h => absurd h (hf f), fun h => absurd h (hf _), fun h => absurd h hl⟩

theorem Threaded.of_same {w t : UserWorld} (h : w.Threaded) (hp : t.pc = w.pc) (hl : t.locked = w.locked)
    (ht : t.user.type = w.user.type) (hu : t.user.pending = w.user.pending) : t.Threaded :=
  ⟨fun f hf => by rw [hl]; exact h.locked f (hp ▸ hf), fun f hf => by rw [ht]; exact h.type f (hp ▸ hf),
    fun hf => by rw [hu]; exact h.paused (hp ▸ hf), fun hf => by rw [ht]; exact h.lock (hp ▸ hf)⟩

theorem threaded_serve (w : UserWorld) (todo : List StreamState) : (w.serve todo).Threaded := by
  refine ⟨fun f h => ?_, fun f h => ?_, fun h => ?_, fun h => .inl ?_⟩
  all_goals
    simp only [serve, goto_pc, goto_user] at h ⊢
    cases ht : w.user.type <;> simp [ht, CmdBase.afterConnect] at h ⊢

theorem threaded_unlock (w : UserWorld) : w.unlock.Threaded := by
  refine .of_pc ?_ fun f => ?_
  all_goals
    simp only [unlock]
    cases w.user.type <;> simp [CmdBase.afterUnlock]

theorem threaded_afterFlag {w : UserWorld} {f : Flag} (hl : w.locked = true) (ht : w.user.type = .pbs)
    (hf : w.user.pending f = none) : (w.afterFlag f).Threaded := by
  cases hn : f.next with
  | none =>
    rw [afterFlag, hn]
    exact threaded_unlock w
  | some g =>
    rw [afterFlag, hn]
    refine ⟨fun _ _ => hl, fun _ _ => ht, fun hg => ?_, fun hg => by cases hg⟩
    have hgr : g = .restart := by simpa using hg
    cases f <;> simp [Flag.next, hgr] at hn
    exact hf

theorem threaded_run {w t : UserWorld} {b : Bool} (h : w.Threaded) (hs : w.run b = some t) : t.Threaded := by
  cases hp : w.pc with
  | off => simp [run, hp] at hs
  | top =>
    simp only [run, hp] at hs
    split at hs <;> cases hs <;> exact .of_pc (by simp) (by simp)
  | live =>
    simp only [run, hp] at hs
    split at hs
    · cases hs; exact .of_pc (by simp) (by simp)
    split at hs
    · cases hs; exact threaded_serve w _
    split at hs <;> cases hs <;> exact .of_pc (by simp) (by simp)
  | connect =>
    simp only [run, hp] at hs
    split at hs <;> cases hs <;> exact .of_pc (by simp) (by simp)
  | auth => simp [run, hp] at hs
  | loggedIn ok =>
    simp only [run, hp] at hs
    split at hs
    · cases hs; exact .of_pc (by simp) (by simp)
    split at hs <;> cases hs
    · exact threaded_serve _ _
    · exact .of_pc (by simp) (by simp)
  | start =>
    simp only [run, hp] at hs
    split at hs <;> cases hs
    · exact threaded_serve _ _
    · exact .of_pc (by simp) (by simp)
  | lock =>
    simp only [run, hp] at hs
    cases hs
    rcases h.lock hp with ht | ht
    · exact .of_pc (by simp [ht, CmdBase.afterLock]) (by simp [ht, CmdBase.afterLock])
    · exact ⟨fun _ _ => rfl, fun _ _ => ht, by simp [ht, CmdBase.afterLock], fun _ => .inr ht⟩
  | key =>
    simp only [run, hp] at hs
    split at hs
    · split at hs <;> cases hs
      · exact (threaded_unlock w).of_same rfl rfl rfl rfl
      · exact .of_pc (by simp) (by simp)
    · cases hs; exact threaded_unlock w
  | flush f =>
    simp only [run, hp] at hs
    cases hf : w.user.pending f with
    | none =>
      simp only [hf] at hs
      cases hs
      exact threaded_afterFlag (h.locked f hp) (h.type f hp) hf
    | some c =>
      simp only [hf] at hs
      split at hs <;> cases hs
      · refine threaded_afterFlag (h.locked f hp) ?_ (by simp)
        have := h.type f hp
        cases f <;> exact this
      · exact .of_pc (by simp) (by simp)
  | beat =>
    simp only [run, hp] at hs
    split at hs <;> cases hs
    · cases ht : w.user.type with
      | pbs => exact ⟨by simp [CmdBase.afterBeat], by simp [CmdBase.afterBeat], by simp [CmdBase.afterBeat],
          fun _ => .inr ht⟩
      | _ => exact .of_pc (by simp [CmdBase.afterBeat]) (by simp [CmdBase.afterBeat])
    · exact .of_pc (by simp) (by simp)
  | recv => simp [run, hp] at hs
  | quit => simp [run, hp] at hs

theorem threaded_step {w t : UserWorld} {a : UserAct} (h : w.Threaded) (hs : step w a = some t) : t.Threaded := by
  cases a with
  | start k =>
    simp only [step] at hs
    split at hs <;> cases hs
    exact .of_pc (by simp [start]) (by simp [start])
  | stop => cases hs; exact h.of_same rfl rfl rfl rfl
  | join =>
    simp only [step] at hs
    split at hs <;> cases hs
    exact .of_pc (by simp [join]) (by simp [join])
  | call r =>
    simp only [step] at hs
    split at hs <;> cases hs
    have hf : ∀ f, (w.call r).pc ≠ .flush f := fun f hp => by
      have hl := h.locked f (by simpa using hp)
      contradiction
    refine ⟨fun f hp => absurd hp (hf f), fun f hp => absurd hp (hf f), fun hp => absurd hp (hf _), fun hp => ?_⟩
    rw [call_pc] at hp
    rw [call_type]
    exact h.lock hp
  | report room =>
    cases ht : w.todo with
    | nil => simp [step, ht] at hs
    | cons s rest =>
      simp only [step, ht, Option.some.injEq] at hs
      obtain ⟨-, hp, hl, hu⟩ := doState_frame { w with todo := rest } s room
      subst hs
      exact h.of_same hp hl (by rw [hu]) (by rw [hu]; rfl)
  | run b =>
    simp only [step] at hs
    split at hs
    · exact threaded_run h hs
    · cases hs
  | reply r =>
    simp only [step] at hs
    split at hs <;> cases hs
    obtain ⟨ok, hp⟩ := reply_pc w r
    exact .of_pc (by simp [hp]) (by simp [hp])
  | recv e =>
    simp only [step] at hs
    split at hs <;> cases hs
    exact .of_pc (by simp) (by simp)
  | initReadPos =>
    simp only [step] at hs
    split at hs <;> cases hs
    exact h.of_same rfl rfl rfl rfl
  | get =>
    simp only [step] at hs
    split at hs <;> cases hs
    exact h.of_same (by simp) (by simp) (by simp) (by simp)
  | playQuit =>
    simp only [step] at hs
    split at hs <;> cases hs
    exact h.of_same rfl rfl rfl rfl

/-! ## The last request is the last command -/

/-- Once no flag is set, each channel's last command is its last request. -/
def Reflected (w : UserWorld) : Prop :=
  w.user.type = .pbs → w.user.Idle → ∀ ch, lastSent ch w.log = lastAsked ch w.log

/-- **Channels.** With no flag of a channel set, its requests have been served; a flag alone in its
channel stands for the last of them. -/
structure Playing (w : UserWorld) : Prop where
  idle : ∀ ch, (∀ f, f.channel = ch → w.user.pending f = none) → lastSent ch w.log = lastAsked ch w.log
  alone : ∀ f c, w.user.pending f = some c → (∀ g, g ≠ f → g.channel = f.channel → w.user.pending g = none) →
    lastAsked f.channel w.log = some c

/-- The guard: a playback starts with no flag set, no 0 is asked for, and where the thread finds both a pause
and a restart the restart is the later one. -/
def InOrder (w : UserWorld) : UserAct → Prop
  | .start k => k = .pbs → w.user.Idle
  | .call (.control c) => w.user.type = .pbs → c.Counts
  | .run _ => w.pc = .flush .pause → w.user.pending .pause ≠ none → w.user.pending .restart ≠ none →
      lastAsked .play w.log = some .restart
  | _ => True

instance decidableInOrder (w : UserWorld) : ∀ a, Decidable (InOrder w a)
  | .start k => inferInstanceAs (Decidable (k = .pbs → w.user.Idle))
  | .call (.control c) => inferInstanceAs (Decidable (w.user.type = .pbs → c.Counts))
  | .run _ => inferInstanceAs (Decidable (w.pc = .flush .pause → w.user.pending .pause ≠ none →
      w.user.pending .restart ≠ none → lastAsked .play w.log = some .restart))
  | .call .keyFrame | .stop | .join | .report _ | .reply _ | .recv _ | .initReadPos | .get | .playQuit => isTrue trivial

theorem Playing.of_log {w t : UserWorld} (h : w.Playing) (hu : t.user.pending = w.user.pending)
    (ha : ∀ ch, lastAsked ch t.log = lastAsked ch w.log) (hs : ∀ ch, lastSent ch t.log = lastSent ch w.log) :
    t.Playing := by
  refine ⟨fun ch hc => ?_, fun f c hf hg => ?_⟩
  · rw [hs, ha]
    exact h.idle ch (by rwa [hu] at hc)
  · rw [ha]
    rw [hu] at hf hg
    exact h.alone f c hf hg

theorem Playing.asked {w t : UserWorld} (h : w.Playing) {c : Control} (hc : c.Counts)
    (hl : t.log = .asked (.control c) :: w.log) (hu : t.user = w.user.set (.control c)) : t.Playing := by
  have hp : ∀ g, t.user.pending g = if g = c.flag then some c else w.user.pending g := fun g => by
    rw [hu, UserSlot.pending_set _ hc]
  have ha : ∀ ch, lastAsked ch t.log = if c.channel = ch then some c else lastAsked ch w.log := fun ch => by
    rw [hl, lastAsked_cons (by simp)]
    by_cases hch : c.channel = ch <;> simp [Entry.asks, hch]
  have hs : ∀ ch, lastSent ch t.log = lastSent ch w.log := fun ch => by
    rw [hl, lastSent_skip (by simp) rfl]
  refine ⟨fun ch hn => ?_, fun f d hf hn => ?_⟩
  · have hch : c.channel ≠ ch := fun he => by
      have := hn c.flag he
      rw [hp, if_pos rfl] at this
      cases this
    rw [hs, ha, if_neg hch]
    refine h.idle ch fun f hfc => ?_
    have hne : f ≠ c.flag := fun he => hch (by rw [Control.channel, ← he, hfc])
    have := hn f hfc
    rwa [hp, if_neg hne] at this
  · by_cases hfc : f = c.flag
    · rw [hp, if_pos hfc] at hf
      rw [ha, if_pos (by rw [hfc]; rfl), hf]
    · have hch : c.channel ≠ f.channel := fun he => by
        have := hn c.flag (Ne.symm hfc) he
        rw [hp, if_pos rfl] at this
        cases this
      rw [ha, if_neg hch]
      rw [hp, if_neg hfc] at hf
      refine h.alone f d hf fun g hgf hgc => ?_
      have hne : g ≠ c.flag := fun he => hch (by rw [Control.channel, ← he, hgc])
      have := hn g hgf hgc
      rwa [hp, if_neg hne] at this

theorem Playing.sent {w t : UserWorld} (h : w.Playing) {f : Flag} {c : Control} (hf : w.user.pending f = some c)
    (hl : t.log = .sent (.control c) :: w.log) (hu : t.user = w.user.clear f)
    (hrest : ∀ g d, g ≠ f → g.channel = f.channel → w.user.pending g = some d → lastAsked f.channel w.log = some d) :
    t.Playing := by
  have hcf : c.channel = f.channel := by rw [Control.channel, UserSlot.flag_of_pending hf]
  have hp : ∀ g, t.user.pending g = if g = f then none else w.user.pending g := fun g => by
    rw [hu, UserSlot.pending_clear]
  have ha : ∀ ch, lastAsked ch t.log = lastAsked ch w.log := fun ch => by rw [hl, lastAsked_skip (by simp) rfl]
  have hs : ∀ ch, lastSent ch t.log = if f.channel = ch then some c else lastSent ch w.log := fun ch => by
    rw [hl, lastSent_cons (by simp)]
    by_cases hch : f.channel = ch <;> simp [Entry.sends, hcf, hch]
  refine ⟨fun ch hn => ?_, fun g d hg hn => ?_⟩
  · rw [hs, ha]
    by_cases hch : f.channel = ch
    · subst hch
      rw [if_pos rfl]
      refine (h.alone f c hf fun g hgf hgc => ?_).symm
      have := hn g hgc
      rwa [hp, if_neg hgf] at this
    · rw [if_neg hch]
      refine h.idle ch fun g hgc => ?_
      have hgf : g ≠ f := fun he => hch (he ▸ hgc)
      have := hn g hgc
      rwa [hp, if_neg hgf] at this
  · have hgf : g ≠ f := fun he => by rw [hp, if_pos he] at hg; cases hg
    rw [hp, if_neg hgf] at hg
    rw [ha]
    by_cases hch : g.channel = f.channel
    · rw [hch]
      exact hrest g d hgf hch hg
    · refine h.alone g d hg fun k hkg hkc => ?_
      have hkf : k ≠ f := fun he => hch (by rw [← hkc, he])
      have := hn k hkg hkc
      rwa [hp, if_neg hkf] at this

theorem playing_step {w t : UserWorld} {a : UserAct} (ht : w.Threaded) (h : w.user.type = .pbs → w.Playing)
    (hok : InOrder w a) (hs : step w a = some t) : t.user.type = .pbs → t.Playing := by
  intro hp
  cases step_effect hs with
  | quiet hl hu hk hty => exact (h (hty ▸ hp)).of_log hu (by simp [hl]) (by simp [hl])
  | began k ha hl hu hk hty =>
    subst ha
    have hn := hok (hty ▸ hp)
    refine ⟨fun ch _ => by simp [hl], fun f c hf _ => ?_⟩
    rw [hu, hn f] at hf
    cases hf
  | asked r ha hl hu =>
    subst ha
    cases r with
    | keyFrame =>
      rw [hu] at hp
      exact (h hp).of_log (by rw [hu]; rfl) (fun ch => by rw [hl, lastAsked_skip (by simp) rfl])
        (fun ch => by rw [hl, lastSent_skip (by simp) rfl])
    | control c =>
      have hty : w.user.type = .pbs := by rw [hu] at hp; cases c <;> exact hp
      exact (h hty).asked (hok hty) hl hu
  | key hl hu hty =>
    exact (h (hty ▸ hp)).of_log hu (fun ch => by rw [hl, lastAsked_skip (by simp) rfl])
      (fun ch => by rw [hl, lastSent_skip (by simp) rfl])
  | control f c ha hpc hf hl hu =>
    obtain ⟨b, rfl⟩ := ha
    refine (h (ht.type f hpc)).sent hf hl hu fun g d hgf hch hg => ?_
    cases f with
    | pos => cases g <;> simp [Flag.channel] at hgf hch
    | speed => cases g <;> simp [Flag.channel] at hgf hch
    | pause =>
      have hgr : g = .restart := by cases g <;> simp [Flag.channel] at hgf hch ⊢
      subst hgr
      have hd : d = .restart := by
        have := UserSlot.flag_of_pending hg
        cases d <;> first | rfl | cases this
      subst hd
      exact hok hpc (by simp [hf]) (by simp [hg])
    | restart =>
      have hgp : g = .pause := by cases g <;> simp [Flag.channel] at hgf hch ⊢
      subst hgp
      rw [ht.paused hpc] at hg
      cases hg
  | streamStart hl hu hk hty =>
    exact (h (hty ▸ hp)).of_log hu (fun ch => by rw [hl, lastAsked_skip (by simp) rfl])
      (fun ch => by rw [hl, lastSent_skip (by simp) rfl])

/-- **Playback control.** In every run in order, the last command reflects the last request once no flag is set. -/
theorem playback_reflects {acts : List UserAct} (h : Meets step InOrder init acts) :
    Reached step Reflected init acts := by
  refine reached_of_meets (I := fun w => w.Threaded ∧ (w.user.type = .pbs → w.Playing))
    (fun w a t hi ho hs => ⟨threaded_step hi.1 hs, playing_step hi.1 hi.2 ho hs⟩)
    (fun w hi hp hn ch => (hi.2 hp).idle ch fun f _ => hn f) ⟨?_, ?_⟩ h
  · exact .of_pc (by simp [init]) (by simp [init])
  · intro hp
    cases hp

/-- A playback's session thread up to its first look at the flags. -/
def opening : List UserAct :=
  [.start .pbs, .initReadPos, .run false, .run true, .report true, .run true, .report true, .reply .ok, .run true,
    .report true, .run true, .report true, .run true, .run true]

/-- The four flags and a frame, up to the next look at them. -/
def round : List UserAct :=
  [.run true, .run true, .run true, .run true, .recv .frame, .run false, .run false, .run true, .run true]

theorem playback_reflects_round : Reached step Reflected init (opening ++ round ++ round.take 5 ++
    [.call (.control .pause), .call (.control .restart), .call (.control (.speed 2))] ++ round.drop 5 ++ round) :=
  playback_reflects (by decide)

/-- A restart and a pause before the thread looks, and a speed that is set back to 0. -/
theorem playback_reversed :
    ¬ Reached step Reflected init ([.start .pbs, .call (.control .restart), .call (.control .pause)] ++
      opening.drop 1 ++ round) ∧
    ¬ Reached step Reflected init ([.start .pbs, .call (.control (.speed 2))] ++ opening.drop 1 ++ round.take 5 ++
      [.call (.control (.speed 0))]) := by
  refine ⟨fun h => ?_, fun h => ?_⟩
  · have := h _ _ (List.prefix_refl _) rfl rfl (by decide) .play
    exact absurd this (by decide)
  · have := h _ _ (List.prefix_refl _) rfl rfl (by decide) .speed
    exact absurd this (by decide)

end UserWorld

end Qh

end SabApp
