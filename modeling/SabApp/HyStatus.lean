import Mathlib.Data.Nat.Bitwise
import SabApp.Mailbox
import SabApp.Runs

/-!
# Setting a HY device's outputs

`nc_hy_dev_setStatus` leaves the wanted outputs in the device slot; the device thread
picks them up in `nc_hy_dev_doSetStatus` and notes their number once the device has
acknowledged the message. A failed send or receive ends the session and leaves the
request open. The only way to lose one is to make 2^32 calls before the next
acknowledgement: the request number is then back at its old value.
-/

namespace SabApp

namespace Hy

/-- The `out` bytes of an `HY_CMD_SET_AO` message. -/
def aoOut (ioOut : UInt64) : List UInt8 :=
  (List.range 20).map fun i => if ioOut &&& (1 <<< UInt64.ofNat i) ≠ 0 then 1 else 0

/-- `out` holds the low 20 bits of a mask, one byte each. -/
def Carries (out : List UInt8) (mask : UInt64) : Prop :=
  out.length = 20 ∧ ∀ i < 20, out[i]? = some (if mask.toNat.testBit i then 1 else 0)

theorem and_bit_ne_zero_iff (m : UInt64) {i : ℕ} (hi : i < 20) :
    m &&& (1 <<< UInt64.ofNat i) ≠ 0 ↔ m.toNat.testBit i = true := by
  have hsh : (1 <<< UInt64.ofNat i : UInt64).toNat = 2 ^ i := by
    rw [UInt64.toNat_shiftLeft, UInt64.toNat_ofNat', Nat.mod_eq_of_lt (by omega : i < 2 ^ 64),
      Nat.mod_eq_of_lt (by omega : i < 64), UInt64.toNat_one, Nat.shiftLeft_eq, Nat.one_mul]
    exact Nat.mod_eq_of_lt (Nat.pow_lt_pow_right (by omega) (by omega))
  rw [Ne, ← UInt64.toNat_inj, UInt64.toNat_and, hsh, UInt64.toNat_zero, Nat.and_two_pow]
  cases m.toNat.testBit i <;> simp

theorem aoOut_carries (m : UInt64) : Carries (aoOut m) m := by
  refine ⟨by simp [aoOut], ?_⟩
  intro i hi
  have hr : (List.range 20)[i]? = some i := by rw [List.getElem?_range hi]
  rw [aoOut, List.getElem?_map, hr, Option.map_some]
  by_cases hb : m.toNat.testBit i
  · rw [if_pos hb, if_pos ((and_bit_ne_zero_iff m hi).mpr hb)]
  · rw [if_neg hb, if_neg (mt (and_bit_ne_zero_iff m hi).mp hb)]

/-- Where the device thread stands in `nc_hy_dev_doSetStatus`. -/
inductive StatusPc where
  | idle
  | send (req : Int32) (ioOut : UInt64)
  | recv (req : Int32) (ioOut : UInt64)
  deriving DecidableEq

/-- The number and mask the running call has copied. -/
def StatusPc.job : StatusPc → Option (Int32 × UInt64)
  | .idle => none
  | .send req ioOut => some (req, ioOut)
  | .recv req ioOut => some (req, ioOut)

structure StatusDev where
  pc : StatusPc
  /-- `msg_sock` is open and logged in. -/
  live : Bool
  setStatus : Mailbox UInt64

/-- The device slot with what has happened to it: the masks of the `setStatus` calls, how many
there were when the running exchange and the last acknowledged one copied the mask, and the last
message the device acknowledged. -/
structure StatusWorld where
  dev : StatusDev
  calls : List UInt64
  copied : ℕ
  answered : ℕ
  acked : Option (List UInt8)

inductive StatusAct where
  | setStatus (ioOut : UInt64)
  | login
  | logout
  | doSetStatus
  | sendMsg (ok : Bool)
  | recv (ok : Bool)

namespace StatusWorld

def init : StatusWorld := ⟨⟨.idle, false, Mailbox.init 0⟩, [], 0, 0, none⟩

/-- `nc_hy_dev_setStatus`. -/
def setStatus (w : StatusWorld) (ioOut : UInt64) : StatusWorld :=
  { w with dev.setStatus := w.dev.setStatus.post ioOut, calls := w.calls ++ [ioOut] }

/-- `nc_hy_dev_doSetStatus` up to the send: number and mask are copied under one lock. -/
def doSetStatus (w : StatusWorld) : StatusWorld :=
  if w.dev.setStatus.last = w.dev.setStatus.cur then w
  else { w with dev.pc := .send w.dev.setStatus.cur w.dev.setStatus.cfg, copied := w.calls.length }

/-- `nc_hy_dev_runLogin` logs out when a step of its round fails. -/
def fail (w : StatusWorld) : StatusWorld := { w with dev.pc := .idle, dev.live := false }

/-- The end of `nc_hy_dev_doSetStatus`, with the device's answer in hand. -/
def confirm (w : StatusWorld) (req : Int32) (ioOut : UInt64) : StatusWorld :=
  { w with dev.pc := .idle, dev.setStatus := w.dev.setStatus.ackTo req, answered := w.copied,
           acked := some (aoOut ioOut) }

def step (w : StatusWorld) : StatusAct → Option StatusWorld
  | .setStatus ioOut => some (w.setStatus ioOut)
  | .login => some { w with dev.live := true }
  | .logout => match w.dev.pc with
    | .idle => some w.fail
    | _ => none
  | .doSetStatus => match w.dev.pc, w.dev.live with
    | .idle, true => some w.doSetStatus
    | _, _ => none
  | .sendMsg ok => match w.dev.pc with
    | .send req ioOut => some (if ok then { w with dev.pc := .recv req ioOut } else w.fail)
    | _ => none
  | .recv ok => match w.dev.pc with
    | .recv req ioOut => some (if ok then w.confirm req ioOut else w.fail)
    | _ => none

/-- Nothing running and nothing open: the device's last acknowledged message is the latest call's. -/
def Synced (w : StatusWorld) : Prop :=
  w.dev.pc = .idle → w.dev.setStatus.last = w.dev.setStatus.cur →
    ∀ m, w.calls.getLast? = some m → ∃ out, w.acked = some out ∧ Carries out m

/-! ## What every step keeps -/

/-- What the running call has copied is the number and mask of the first `copied` calls. -/
def Copied (w : StatusWorld) (req : Int32) (ioOut : UInt64) : Prop :=
  req = Int32.ofNat w.copied ∧ w.answered ≤ w.copied ∧ w.copied ≤ w.calls.length ∧
    upTo w.calls w.copied = some ioOut

structure Inv (w : StatusWorld) : Prop where
  tracks : w.dev.setStatus.Tracks w.calls w.answered
  acked : w.acked = (upTo w.calls w.answered).map aoOut
  job : ∀ req ioOut, w.dev.pc.job = some (req, ioOut) → w.Copied req ioOut

theorem inv_init : Inv init := ⟨Mailbox.Tracks.start 0, rfl, nofun⟩

theorem inv_fail {w : StatusWorld} (h : Inv w) : Inv w.fail := ⟨h.tracks, h.acked, nofun⟩

theorem inv_setStatus {w : StatusWorld} (h : Inv w) (ioOut : UInt64) : Inv (w.setStatus ioOut) where
  tracks := h.tracks.post ioOut
  acked := by
    have ha := h.acked
    rw [← upTo_append h.tracks.le ioOut] at ha
    exact ha
  job req m hj := by
    obtain ⟨hr, ha, hle, hu⟩ := h.job req m hj
    refine ⟨hr, ha, ?_, ?_⟩
    · exact Nat.le_trans hle (by simp [setStatus])
    · exact (upTo_append hle ioOut).trans hu

theorem inv_doSetStatus {w : StatusWorld} (h : Inv w) : Inv w.doSetStatus := by
  unfold doSetStatus
  by_cases he : w.dev.setStatus.last = w.dev.setStatus.cur
  · rw [if_pos he]; exact h
  · rw [if_neg he]
    refine ⟨h.tracks, h.acked, ?_⟩
    intro req m hj
    cases hj
    refine ⟨h.tracks.cur, h.tracks.le, Nat.le_refl _, ?_⟩
    exact (upTo_length w.calls).trans (h.tracks.cfg_of_ne he)

theorem inv_confirm {w : StatusWorld} (h : Inv w) {req : Int32} {ioOut : UInt64} (hc : w.Copied req ioOut) :
    Inv (w.confirm req ioOut) := by
  obtain ⟨rfl, ha, hle, hu⟩ := hc
  refine ⟨h.tracks.ackTo ha hle, ?_, nofun⟩
  exact (congrArg (Option.map aoOut) hu).symm

theorem inv_step {w t : StatusWorld} {a : StatusAct} (h : Inv w) (hs : step w a = some t) : Inv t := by
  cases a with
  | setStatus ioOut => cases hs; exact inv_setStatus h ioOut
  | login => cases hs; exact ⟨h.tracks, h.acked, h.job⟩
  | logout =>
    cases hp : w.dev.pc with
    | idle => simp only [step, hp] at hs; cases hs; exact inv_fail h
    | send req m => simp [step, hp] at hs
    | recv req m => simp [step, hp] at hs
  | doSetStatus =>
    cases hp : w.dev.pc with
    | idle =>
      cases hl : w.dev.live with
      | false => simp [step, hp, hl] at hs
      | true => simp only [step, hp, hl] at hs; cases hs; exact inv_doSetStatus h
    | send req m => simp [step, hp] at hs
    | recv req m => simp [step, hp] at hs
  | sendMsg ok =>
    cases hp : w.dev.pc with
    | idle => simp [step, hp] at hs
    | send req m =>
      have hj := h.job req m (by rw [hp]; rfl)
      cases ok <;> simp only [step, hp] at hs <;> cases hs
      · exact inv_fail h
      · refine ⟨h.tracks, h.acked, ?_⟩
        intro req' m' hj'
        cases hj'
        exact hj
    | recv req m => simp [step, hp] at hs
  | recv ok =>
    cases hp : w.dev.pc with
    | idle => simp [step, hp] at hs
    | send req m => simp [step, hp] at hs
    | recv req m =>
      have hj := h.job req m (by rw [hp]; rfl)
      cases ok <;> simp only [step, hp] at hs <;> cases hs
      · exact inv_fail h
      · exact inv_confirm h hj

/-- Requests less than 2^32 calls behind are not taken for done. -/
theorem synced_of_inv {w : StatusWorld} (h : Inv w) (hlt : w.calls.length < w.answered + 4294967296) : w.Synced := by
  intro _ he m hm
  have hd := (h.tracks.idle_iff hlt).mp he
  refine ⟨aoOut m, ?_, aoOut_carries m⟩
  rw [h.acked, hd, upTo_length, hm]
  rfl

/-- **No status update is lost**, in any order of calls, sends, receives, failures and logins, as
long as fewer than 2^32 calls follow the copy that the last acknowledged message came from. -/
theorem setStatus_synced (as : List StatusAct) :
    Reached step (fun w => w.calls.length < w.answered + 4294967296 → w.Synced) init as := by
  apply reached_of_inv (I := Inv)
  · intro w a t h hs
    exact inv_step h hs
  · intro w h hlt
    exact synced_of_inv h hlt
  · exact inv_init

theorem exec_setStatus (m : UInt64) (n : ℕ) : ∀ w : StatusWorld, Inv w →
    ∃ t, exec step w (List.replicate n (.setStatus m)) = some t ∧ Inv t ∧ t.dev.pc = w.dev.pc ∧
      t.calls = w.calls ++ List.replicate n m ∧ t.answered = w.answered ∧ t.acked = w.acked := by
  induction n with
  | zero =>
    intro w h
    exact ⟨w, rfl, h, rfl, by simp, rfl, rfl⟩
  | succ n ih =>
    intro w h
    obtain ⟨t, ht, hi, hp, hc, ha, hk⟩ := ih (w.setStatus m) (inv_setStatus h m)
    refine ⟨t, ?_, hi, hp, ?_, ha, hk⟩
    · rw [List.replicate_succ]; exact ht
    · rw [hc, List.replicate_succ]
      exact List.append_assoc w.calls [m] (List.replicate n m)

/-- 2^32 calls before the first login: the numbers agree again and the device was told nothing. -/
theorem setStatus_wraps : ∃ t, exec step init (List.replicate 4294967296 (.setStatus 1)) = some t ∧
    t.dev.pc = .idle ∧ t.dev.setStatus.last = t.dev.setStatus.cur ∧ t.calls.getLast? = some 1 ∧ t.acked = none ∧
    ¬ t.Synced := by
  obtain ⟨t, ht, hi, hp, hc, ha, hk⟩ := exec_setStatus 1 4294967296 init inv_init
  have hc' : t.calls = List.replicate 4294967296 1 := hc.trans (List.nil_append _)
  have hlen : t.calls.length = 4294967296 := by rw [hc', List.length_replicate]
  have hlast : t.calls.getLast? = some 1 := by rw [hc', List.getLast?_replicate, if_neg (by decide)]
  have hnum : t.dev.setStatus.last = t.dev.setStatus.cur := by
    rw [hi.tracks.last, hi.tracks.cur, ha, hlen, Mailbox.number_eq_iff]
    rfl
  refine ⟨t, ht, hp, hnum, hlast, hk, ?_⟩
  intro hsync
  obtain ⟨out, ho, _⟩ := hsync hp hnum 1 hlast
  rw [hk] at ho
  cases ho

end StatusWorld

end Hy

end SabApp
