import Mathlib.Data.List.Count
import SabApp.Runs

/-!
# Events (threadx.c)

`eventx_post` signals the condition and sets a flag under the mutex. `eventx_wait` looks at the flag under the
mutex, gives the mutex back and takes it again to wait for the condition, without a second look; and it clears
the flag behind the wait, without the mutex. So a post is heeded if it comes between two calls or in the wait
itself, and is lost if it comes in one of the gaps on either side of the wait (`post_heeded`).
-/

namespace SabApp

namespace EventX

/-- ETIMEDOUT -/
def timedOut : Int32 := 110

/-- Where the one thread that waits for the event is. -/
inductive Phase where
  | out
  /-- The flag was not set, and the mutex is given back. -/
  | unset
  /-- In `pthread_cond_wait` or `pthread_cond_timedwait`. -/
  | waits
  /-- Behind it, with what it returned; the flag is to be cleared. -/
  | woken (ret : Int32)
  deriving DecidableEq

/-- `event_t`, the thread that waits for it, and what its calls returned. -/
structure Event where
  flag : Bool
  phase : Phase
  returns : List Int32

def init : Event := ⟨false, .out, []⟩

inductive Act where
  /-- `eventx_post`, of any thread. -/
  | post
  /-- A call of `eventx_wait`, up to where it gives the mutex back. -/
  | check
  | sleep
  | timeOut
  /-- A wait may end without a signal. -/
  | stray
  | leave
  deriving DecidableEq

def step (dwMilliseconds : UInt32) (e : Event) : Act → Option Event
  | .post => some { e with flag := true, phase := if e.phase = .waits then .woken 0 else e.phase }
  | .check =>
    if e.phase = .out then
      some (if e.flag then { e with flag := false, returns := e.returns ++ [0] } else { e with phase := .unset })
    else none
  | .sleep => if e.phase = .unset then some { e with phase := .waits } else none
  | .timeOut => if e.phase = .waits ∧ dwMilliseconds ≠ 0 then some { e with phase := .woken timedOut } else none
  | .stray => if e.phase = .waits then some { e with phase := .woken 0 } else none
  | .leave =>
    match e.phase with
    | .woken ret => some { e with flag := false, phase := .out, returns := e.returns ++ [ret] }
    | _ => none

namespace Event

/-- The call under way, or the next one, will return 0. -/
def due (e : Event) : Bool :=
  match e.phase with
  | .out => e.flag
  | .woken ret => ret = 0
  | _ => false

/-- The gaps on either side of the wait are left out. -/
def heeds (e : Event) : Bool :=
  match e.phase with
  | .unset => false
  | .woken ret => ret = 0
  | _ => true

/-- A signal that no call has returned for. -/
def held (e : Event) : ℕ := if e.flag = true ∨ e.phase = .woken 0 then 1 else 0

end Event

/-- Nothing is posted, and no wait ends by itself. -/
def Silent (as : List Act) : Prop := ∀ a ∈ as, a ≠ .post ∧ a ≠ .stray

instance (as : List Act) : Decidable (Silent as) := inferInstanceAs (Decidable (∀ a ∈ as, a ≠ .post ∧ a ≠ .stray))

variable {dwMilliseconds : UInt32} {e e' : Event} {a : Act} {as : List Act}

/-! ## What a post leads to -/

theorem post_due (h : step dwMilliseconds e .post = some e') : e'.due = e.heeds ∧ e'.returns = e.returns := by
  rw [← Option.some.inj h]
  obtain ⟨flag, phase, returns⟩ := e
  cases phase <;> exact ⟨rfl, rfl⟩

/-- A step of the thread that waits: a call that returns says whether it was due to, and takes what was due. -/
theorem step_silent (hpost : a ≠ .post) (hstray : a ≠ .stray) (h : step dwMilliseconds e a = some e') :
    (e'.returns = e.returns ∧ e'.due = e.due) ∨
      ∃ ret, e'.returns = e.returns ++ [ret] ∧ (ret = 0 ↔ e.due = true) ∧ e'.due = false := by
  obtain ⟨flag, phase, returns⟩ := e
  cases a with
  | post => exact absurd rfl hpost
  | stray => exact absurd rfl hstray
  | check =>
    obtain ⟨hout, h⟩ := Option.ite_none_right_eq_some.mp h
    dsimp only at hout
    subst hout
    rw [← Option.some.inj h]
    cases flag with
    | true => exact .inr ⟨0, rfl, iff_of_true rfl rfl, rfl⟩
    | false => exact .inl ⟨rfl, rfl⟩
  | sleep =>
    obtain ⟨hunset, h⟩ := Option.ite_none_right_eq_some.mp h
    dsimp only at hunset
    subst hunset
    rw [← Option.some.inj h]
    exact .inl ⟨rfl, rfl⟩
  | timeOut =>
    obtain ⟨⟨hwaits, -⟩, h⟩ := Option.ite_none_right_eq_some.mp h
    dsimp only at hwaits
    subst hwaits
    rw [← Option.some.inj h]
    exact .inl ⟨rfl, rfl⟩
  | leave =>
    cases phase with
    | woken ret =>
      rw [← Option.some.inj h]
      exact .inr ⟨ret, rfl, decide_eq_true_iff.symm, rfl⟩
    | out => cases h
    | unset => cases h
    | waits => cases h

/-- Until the next post one call at most returns 0: the first, if that was due. -/
theorem exec_silent (hs : Silent as) (h : exec (step dwMilliseconds) e as = some e') :
    ∃ rets, e'.returns = e.returns ++ rets ∧ rets.count 0 = if e.due = true ∧ rets ≠ [] then 1 else 0 := by
  induction as generalizing e with
  | nil =>
    cases h
    exact ⟨[], (List.append_nil _).symm, (if_neg fun hc => hc.2 rfl).symm⟩
  | cons a as ih =>
    obtain ⟨e₁, h₁, hrest⟩ := Option.bind_eq_some_iff.mp h
    have ha := hs a List.mem_cons_self
    obtain ⟨rets, hrets, hcount⟩ := ih (fun b hb => hs b (List.mem_cons_of_mem _ hb)) hrest
    rcases step_silent ha.1 ha.2 h₁ with ⟨hsame, hdue⟩ | ⟨ret, hret, hzero, hdone⟩
    · rw [hsame] at hrets
      rw [hdue] at hcount
      exact ⟨rets, hrets, hcount⟩
    · rw [hret, List.append_assoc] at hrets
      rw [hdone, if_neg fun hc => Bool.false_ne_true hc.1] at hcount
      refine ⟨ret :: rets, hrets, ?_⟩
      rw [List.count_cons, hcount, Nat.zero_add]
      by_cases hdue : e.due = true
      · rw [if_pos (beq_iff_eq.mpr (hzero.mpr hdue)), if_pos ⟨hdue, List.cons_ne_nil _ _⟩]
      · rw [if_neg fun hbeq => hdue (hzero.mp (beq_iff_eq.mp hbeq)), if_neg fun hc => hdue hc.1]

/-- **Posts that are lost**: until the next post, a call returns 0 for this one exactly if it comes between two calls, in
the wait itself, or behind a wait that was signalled; then the first call that returns is the one. -/
theorem post_heeded (hs : Silent as) (h : exec (step dwMilliseconds) e (.post :: as) = some e') :
    ∃ rets, e'.returns = e.returns ++ rets ∧ rets.count 0 = if e.heeds = true ∧ rets ≠ [] then 1 else 0 := by
  obtain ⟨e₁, h₁, hrest⟩ := Option.bind_eq_some_iff.mp h
  obtain ⟨hdue, hreturns⟩ := post_due h₁
  obtain ⟨rets, hrets, hcount⟩ := exec_silent hs hrest
  rw [hreturns] at hrets
  rw [hdue] at hcount
  exact ⟨rets, hrets, hcount⟩

/-- A post between the look at the flag and the wait: the wait times out. -/
theorem post_heeded_gap : ∃ rets, [timedOut] = [] ++ rets ∧
    rets.count 0 = if (⟨false, .unset, []⟩ : Event).heeds = true ∧ rets ≠ [] then 1 else 0 :=
  @post_heeded 1000 ⟨false, .unset, []⟩ ⟨false, .out, [timedOut]⟩ [.sleep, .timeOut, .leave] (by decide) rfl

/-! ## How many posts there are for the calls that return 0 -/

/-- What may make a call return 0. -/
def Act.signals : Act → Bool
  | .post => true
  | .stray => true
  | _ => false

theorem held_le (e : Event) : e.held ≤ 1 := by
  unfold Event.held
  split <;> omega

theorem held_clear {flag : Bool} {phase : Phase} (returns : List Int32) (hflag : flag = false)
    (hphase : phase ≠ .woken 0) : Event.held ⟨flag, phase, returns⟩ = 0 :=
  if_neg fun hor => hor.elim (fun h => Bool.false_ne_true (hflag.symm.trans h)) hphase

theorem held_phase {phase : Phase} (h : e.phase ≠ .woken 0) (h' : phase ≠ .woken 0) :
    ({ e with phase := phase } : Event).held = e.held := by
  simp only [Event.held, h, h', or_false]

/-- A call that returns 0 takes what was held. -/
theorem step_held (h : step dwMilliseconds e a = some e') :
    e'.returns.count 0 + e'.held ≤ e.returns.count 0 + e.held + if a.signals then 1 else 0 := by
  cases a with
  | post =>
    have hheld := held_le e'
    rw [← Option.some.inj h] at hheld ⊢
    rw [if_pos (show Act.post.signals = true from rfl)]
    dsimp only
    omega
  | stray =>
    obtain ⟨-, h⟩ := Option.ite_none_right_eq_some.mp h
    have hheld := held_le e'
    rw [← Option.some.inj h] at hheld ⊢
    rw [if_pos (show Act.stray.signals = true from rfl)]
    dsimp only
    omega
  | check =>
    obtain ⟨hout, h⟩ := Option.ite_none_right_eq_some.mp h
    rw [← Option.some.inj h]
    by_cases hflag : e.flag = true
    · have hheld : e.held = 1 := if_pos (.inl hflag)
      rw [if_pos hflag, held_clear _ rfl (by rw [hout]; decide), hheld, List.count_append]
      exact Nat.le_refl _
    · have hfalse : e.flag = false := Bool.eq_false_iff.mpr hflag
      rw [if_neg hflag, held_clear _ hfalse (by decide)]
      dsimp only
      omega
  | sleep =>
    obtain ⟨hunset, h⟩ := Option.ite_none_right_eq_some.mp h
    rw [← Option.some.inj h, held_phase (by rw [hunset]; decide) (by decide)]
    exact Nat.le_refl _
  | timeOut =>
    obtain ⟨⟨hwaits, -⟩, h⟩ := Option.ite_none_right_eq_some.mp h
    rw [← Option.some.inj h, held_phase (by rw [hwaits]; decide) (by decide)]
    exact Nat.le_refl _
  | leave =>
    unfold step at h
    dsimp only at h
    split at h
    · rename_i ret hphase
      rw [← Option.some.inj h, held_clear _ rfl (by decide), List.count_append, List.count_singleton]
      by_cases hret : ret = 0
      · have hheld : e.held = 1 := if_pos (.inr (by rw [hphase, hret]))
        rw [if_pos (beq_iff_eq.mpr hret), hheld]
        exact Nat.le_refl _
      · rw [if_neg fun hbeq => hret (beq_iff_eq.mp hbeq)]
        omega
    · cases h

theorem exec_held (h : exec (step dwMilliseconds) e as = some e') :
    e'.returns.count 0 + e'.held ≤ e.returns.count 0 + e.held + as.countP Act.signals := by
  induction as generalizing e with
  | nil =>
    rw [Option.some.inj h]
    exact Nat.le_add_right _ _
  | cons a as ih =>
    obtain ⟨e₁, h₁, hrest⟩ := Option.bind_eq_some_iff.mp h
    have hstep := step_held h₁
    have hafter := ih hrest
    rw [List.countP_cons]
    omega

/-- **No post is taken twice**: in any run, no more calls return 0 than there were posts and waits that ended by
themselves. -/
theorem returns_le_posts (h : exec (step dwMilliseconds) init as = some e) :
    e.returns.count 0 ≤ as.countP Act.signals := by
  have hheld := exec_held h
  have hzero : init.returns.count 0 + init.held = 0 := rfl
  omega

/-- Two posts for one call. -/
theorem returns_le_posts_two : [(0 : Int32)].count 0 ≤ [Act.post, .post, .check].countP Act.signals :=
  @returns_le_posts 1000 ⟨false, .out, [0]⟩ [.post, .post, .check] rfl

end EventX

end SabApp
