import Mathlib.Algebra.Group.Int.Defs
import Mathlib.Algebra.Group.Nat.Defs
import Mathlib.Data.List.Chain
import Mathlib.Tactic.Common

/-!
# Time since a tick (tool_sysf.c)

`tool_sysf_isTickTimeout` counts the microseconds since a tick in an `int`. A negative count is taken for a long time, but
every 2^32 microseconds the count is small again.
-/

namespace SabApp

namespace Ticks

/-- `struct timeval`, of two 32-bit numbers. -/
structure Timeval where
  sec : Int32
  usec : Int32
  usec_nonneg : 0 ≤ usec.toInt
  usec_lt : usec.toInt < 1000000

/-- `tool_sysf_setTick`: what it stores in `tv_sec` and `tv_usec`. -/
def tool_sysf_setTick (tv : Timeval) : Int32 × Int32 := (tv.sec, tv.usec)

def tickResult (tv : Timeval) (tvSec tvUsec : Int32) : Int32 := (tv.sec - tvSec) * 1000 * 1000 + (tv.usec - tvUsec)

/-- `tool_sysf_isTickTimeout`; `tv` is what gettimeofday gives. -/
def tool_sysf_isTickTimeout (tv : Timeval) (tvSec tvUsec intevalUsec : Int32) : Int32 :=
  let result := tickResult tv tvSec tvUsec
  if result < 0 ∨ result > intevalUsec then 1 else 0

/-- The microseconds between two times. -/
def elapsed (start now : Timeval) : ℤ := (now.sec.toInt - start.sec.toInt) * 1000000 + (now.usec.toInt - start.usec.toInt)

/-- At `now` the tick set at `start` times out. -/
def TimesOut (start : Timeval) (intevalUsec : Int32) (now : Timeval) : Prop :=
  tool_sysf_isTickTimeout now (tool_sysf_setTick start).1 (tool_sysf_setTick start).2 intevalUsec ≠ 0

instance (start : Timeval) (intevalUsec : Int32) (now : Timeval) : Decidable (TimesOut start intevalUsec now) :=
  inferInstanceAs (Decidable (_ ≠ _))

/-- A timeout is reported exactly when more time has passed than the interval. -/
def Exact (start : Timeval) (intevalUsec : Int32) (now : Timeval) : Prop :=
  TimesOut start intevalUsec now ↔ intevalUsec.toInt < elapsed start now

variable {start now : Timeval} {intevalUsec : Int32}

theorem elapsed_add (start mid now : Timeval) : elapsed start now = elapsed start mid + elapsed mid now := by
  unfold elapsed
  omega

/-- The count is the time that has passed, wrapped to 32 bits. -/
theorem toInt_tickResult (start now : Timeval) :
    (tickResult now start.sec start.usec).toInt = (elapsed start now).bmod (2 ^ 32) := by
  have hthousand : (1000 : Int32).toInt = 1000 := rfl
  rw [tickResult, Int32.toInt_add, Int32.toInt_mul, Int32.toInt_mul, Int32.toInt_sub, Int32.toInt_sub, hthousand,
    Int.bmod_add_bmod, Int.add_bmod_bmod]
  rw [Int.add_bmod, Int.bmod_mul_bmod, Int.mul_assoc, Int.bmod_mul_bmod, ← Int.add_bmod]
  rfl

theorem timesOut_iff : TimesOut start intevalUsec now ↔ intevalUsec.toInt < elapsed start now % 2 ^ 32 := by
  have hlt := intevalUsec.toInt_lt
  have hcount := toInt_tickResult start now
  have htimes : TimesOut start intevalUsec now ↔
      tickResult now start.sec start.usec < 0 ∨ intevalUsec < tickResult now start.sec start.usec := by
    unfold TimesOut tool_sysf_isTickTimeout tool_sysf_setTick
    dsimp only
    split
    · next h => exact iff_of_true (by decide) h
    · next h => exact iff_of_false (not_not.mpr rfl) h
  rw [htimes, Int32.lt_iff_toInt_lt, Int32.lt_iff_toInt_lt, hcount, Int32.toInt_zero, Int.bmod]
  split <;> omega

/-- **Timeouts.** The answer is right if and only if less than 2^32 microseconds have passed, or what is left of them is
more than the interval. -/
theorem timeout_exact_iff (h : 0 ≤ elapsed start now) :
    Exact start intevalUsec now ↔ elapsed start now < 2 ^ 32 ∨ intevalUsec.toInt < elapsed start now % 2 ^ 32 := by
  have hlt := intevalUsec.toInt_lt
  rw [Exact, timesOut_iff]
  omega

/-- The clock of second 1420070400. -/
def newYear : Timeval := ⟨1420070400, 0, by decide, by decide⟩

theorem timeout_exact_second : Exact newYear 5000000 ⟨1420070406, 0, by decide, by decide⟩ :=
  (timeout_exact_iff (by decide)).mpr (.inl (by decide))

/-- 2^32 microseconds later no time has passed. -/
theorem timeout_missed : let now : Timeval := ⟨1420074694, 967296, by decide, by decide⟩
    0 ≤ elapsed newYear now ∧ ¬ Exact newYear 5000000 now := by
  intro now
  refine ⟨by decide, fun h => ?_⟩
  exact absurd (h.mpr (by decide)) (by decide)

/-! ## A loop that looks at the clock -/

/-- The look at which a loop ends that goes on until the tick times out. -/
def endsAt (start : Timeval) (intevalUsec : Int32) (looks : List Timeval) : Option Timeval :=
  looks.find? fun now => TimesOut start intevalUsec now

/-- Each look is later than the one before, and by less than 2^32 microseconds less the interval. -/
def Close (start : Timeval) (intevalUsec : Int32) (looks : List Timeval) : Prop :=
  (start :: looks).IsChain fun a b => 0 ≤ elapsed a b ∧ elapsed a b + intevalUsec.toInt < 2 ^ 32

theorem endsAt_from {looks : List Timeval} : ∀ {last : Timeval}, 0 ≤ elapsed start last →
    elapsed start last ≤ max 0 intevalUsec.toInt → Close last intevalUsec looks →
      endsAt start intevalUsec looks = looks.find? fun now => intevalUsec.toInt < elapsed start now := by
  induction looks with
  | nil => exact fun _ _ _ => rfl
  | cons now looks ih =>
    intro last h₀ hle hclose
    obtain ⟨⟨hnext, hgap⟩, hrest⟩ := List.isChain_cons_cons.mp hclose
    have hsum := elapsed_add start last now
    have hiff : TimesOut start intevalUsec now ↔ intevalUsec.toInt < elapsed start now := by
      rw [timesOut_iff]
      omega
    by_cases hout : intevalUsec.toInt < elapsed start now
    · rw [endsAt, List.find?_cons_of_pos (by simpa using hiff.mpr hout), List.find?_cons_of_pos (by simpa using hout)]
    · rw [endsAt, List.find?_cons_of_neg (by simpa using fun ht => hout (hiff.mp ht)),
        List.find?_cons_of_neg (by simpa using hout)]
      exact ih (by omega) (by omega) hrest

/-- No look of such a loop comes too late to see the timeout. -/
theorem endsAt_eq {looks : List Timeval} (h : Close start intevalUsec looks) :
    endsAt start intevalUsec looks = looks.find? fun now => intevalUsec.toInt < elapsed start now := by
  have hself : elapsed start start = 0 := by
    unfold elapsed
    omega
  exact endsAt_from (by omega) (by omega) h

end Ticks

end SabApp
