import Mathlib.Data.List.Basic
import Mathlib.Data.List.ReduceOption
import Mathlib.Tactic.Common
import SabApp.Runs

/-!
# Threads and buffers of an XM live slot

`nc_xm_rts_start` allocates the ring, the receive buffer and the callback's frame and creates a
play and a receive thread; `nc_xm_rts_stop` waits for both and frees the three, if the slot's
state is still 1. `nc_xm_dev_logout` only sets the state to 0: a slot that runs when the session
ends keeps its threads, which nobody waits for, and its buffers, which nobody frees.
-/

namespace SabApp

namespace Xm

/-- A play or receive thread, at the test of `rts->state` or in the body of its loop. -/
structure Worker where
  pid : ℕ
  inLoop : Bool
  deriving DecidableEq

/-- Where the login thread stands. A stop comes from the loop over the failed slots (`failed`) or from
the comparison with what is wanted. -/
inductive RtsPc where
  | loggedOut
  | idle
  | checked
  | copied (enable : Bool)
  | opening
  | alloc
  | createPlay
  | createRecv
  | joinPlay (failed : Bool)
  | joinRecv (failed : Bool)
  | free (failed : Bool)
  | stopMsg (failed : Bool)
  | error
  deriving DecidableEq

namespace RtsPc

/-- In a start, before the buffers are made. -/
def starts : RtsPc → Bool
  | opening | alloc => true
  | _ => false

/-- In a stop, before the buffers are freed. -/
def stops : RtsPc → Bool
  | joinPlay _ | joinRecv _ | free _ => true
  | _ => false

/-- The slot may be without buffers. -/
def empty : RtsPc → Bool
  | createPlay | createRecv | joinPlay _ | joinRecv _ | free _ => false
  | _ => true

/-- The slot may have its buffers. -/
def filled : RtsPc → Bool
  | loggedOut | error | stopMsg _ | opening | alloc => false
  | _ => true

def noPlay : RtsPc → Bool
  | createPlay | joinRecv _ | free _ => true
  | _ => false

def noRecv : RtsPc → Bool
  | createPlay | createRecv | free _ => true
  | _ => false

end RtsPc

/-- `nc_xm_rts_t` with `cur_rts_enable`, its threads and the login thread. A buffer is the number of
its allocation. -/
structure RtsWorld where
  state : Bool
  errorFlag : Bool
  enable : Bool
  pool : Option ℕ
  recvBuf : Option ℕ
  cbFrame : Option ℕ
  playPid : ℕ
  recvPid : ℕ
  plays : List Worker
  recvs : List Worker
  pc : RtsPc
  /-- The buffers and the threads made so far, and the buffers freed. -/
  allocated : ℕ
  created : ℕ
  freed : List ℕ

inductive RtsAct where
  | enable (on : Bool)
  | login
  | logout
  /-- The next step of `nc_xm_dev_doRts`; the flag is the outcome of what it asks of the device or the
  clock. -/
  | doRts (ok : Bool)
  | play (i : ℕ)
  | recv (i : ℕ) (ok : Bool)

namespace RtsWorld

/-- `nc_xm_rts_stop` up to its first wait. -/
def stop (w : RtsWorld) (failed : Bool) : RtsWorld :=
  if w.state then { w with state := false, pc := .joinPlay failed }
  else { w with errorFlag := false, pc := .stopMsg failed }

def pointers (w : RtsWorld) : List ℕ := [w.recvBuf, w.cbFrame, w.pool].reduceOption

/-- `nc_xm_dev_doRts`, up to the next wait, message or call. -/
def doRtsStep (w : RtsWorld) (ok : Bool) : Option RtsWorld :=
  match w.pc with
  | .loggedOut | .error => none
  | .idle => some (if w.errorFlag then w.stop true else { w with pc := .checked })
  | .checked => some { w with pc := .copied w.enable }
  | .copied enable => some (
    if w.state = enable then { w with pc := .idle }
    else if enable then if ok then { w with state := true, pc := .opening } else { w with pc := .idle }
    else w.stop false)
  -- The rest of a start; a refusal of the device still starts the slot.
  | .opening => some (if ok then { w with pc := .alloc } else { w with state := false, pc := .error })
  | .alloc => some { w with
      pool := some w.allocated, recvBuf := some (w.allocated + 1), cbFrame := some (w.allocated + 2)
      allocated := w.allocated + 3, pc := .createPlay }
  | .createPlay => some { w with
      plays := w.plays ++ [⟨w.created, false⟩], playPid := w.created, created := w.created + 1, pc := .createRecv }
  | .createRecv => some { w with
      recvs := w.recvs ++ [⟨w.created, false⟩], recvPid := w.created, created := w.created + 1, pc := .idle }
  -- The rest of a stop.
  | .joinPlay failed => if ∃ x ∈ w.plays, x.pid = w.playPid then none else some { w with pc := .joinRecv failed }
  | .joinRecv failed => if ∃ x ∈ w.recvs, x.pid = w.recvPid then none else some { w with pc := .free failed }
  | .free failed => some { w with
      freed := w.freed ++ w.pointers, recvBuf := none, cbFrame := none, pool := none, errorFlag := false
      pc := .stopMsg failed }
  | .stopMsg failed => some { w with pc := if ok then if failed then .checked else .idle else .error }

/-- A thread's next step; without `ok` it leaves its loop. -/
def runWorker (state : Bool) (ok : Bool) (ws : List Worker) (i : ℕ) : Option (List Worker) :=
  match ws[i]? with
  | none => none
  | some x =>
    if x.inLoop then some (if ok then ws.set i { x with inLoop := false } else ws.eraseIdx i)
    else some (if state then ws.set i { x with inLoop := true } else ws.eraseIdx i)

/-- The thread fails, in the body of its loop. -/
def fails (ok : Bool) (ws : List Worker) (i : ℕ) : Bool := !ok && (ws[i]?).any (·.inLoop)

def step (w : RtsWorld) : RtsAct → Option RtsWorld
  | .enable on => some { w with enable := on }
  | .login => if w.pc = .loggedOut then some { w with pc := .idle } else none
  | .logout =>
    if w.pc = .idle ∨ w.pc = .error then some { w with state := false, errorFlag := false, pc := .loggedOut }
    else none
  | .doRts ok => w.doRtsStep ok
  | .play i => (runWorker w.state true w.plays i).map fun ws => { w with plays := ws }
  | .recv i ok => (runWorker w.state ok w.recvs i).map fun ws =>
      { w with recvs := ws, errorFlag := w.errorFlag || fails ok w.recvs i }

def init : RtsWorld where
  state := false
  errorFlag := false
  enable := false
  pool := none
  recvBuf := none
  cbFrame := none
  playPid := 0
  recvPid := 0
  plays := []
  recvs := []
  pc := .loggedOut
  allocated := 0
  created := 0
  freed := []

/-- The buffers that a stop will free, or the stop under way. -/
def owned (w : RtsWorld) : List ℕ := if w.state || w.pc.stops then w.pointers else []

structure Sound (w : RtsWorld) : Prop where
  plays : w.plays.length ≤ 1
  recvs : w.recvs.length ≤ 1
  /-- No thread is there when buffers are made or freed. -/
  alone : w.pc = .alloc ∨ (∃ failed, w.pc = .free failed) → w.plays = [] ∧ w.recvs = []
  freed : ∀ b < w.allocated, w.freed.count b = if b ∈ w.owned then 0 else 1

/-- The session ends only when the slot is not running. -/
def Stopped (w : RtsWorld) : RtsAct → Prop
  | .logout => w.pc = .idle → w.state = false
  | _ => True

/-! ## What every step keeps -/

/-- The slot has no buffers, and no threads. -/
structure Off (w : RtsWorld) : Prop where
  pointers : w.pool = none ∧ w.recvBuf = none ∧ w.cbFrame = none
  plays : w.plays = []
  recvs : w.recvs = []
  freed : ∀ b, w.freed.count b = if b < w.allocated then 1 else 0

/-- The slot has the buffers last made, and at most one thread of each kind, that a stop waits for. -/
structure On (w : RtsWorld) : Prop where
  pointers : ∃ n, w.allocated = n + 3 ∧ w.pool = some n ∧ w.recvBuf = some (n + 1) ∧ w.cbFrame = some (n + 2)
  plays : w.plays.length ≤ 1
  recvs : w.recvs.length ≤ 1
  playPid : ∀ x ∈ w.plays, x.pid = w.playPid
  recvPid : ∀ x ∈ w.recvs, x.pid = w.recvPid
  freed : ∀ b, w.freed.count b = if b + 3 < w.allocated then 1 else 0

inductive Inv (w : RtsWorld) : Prop where
  | off (h : Off w) (state : w.state = w.pc.starts) (pc : w.pc.empty = true)
  | on (h : On w) (state : w.state = !w.pc.stops) (pc : w.pc.filled = true)
      (plays : w.pc.noPlay = true → w.plays = []) (recvs : w.pc.noRecv = true → w.recvs = [])

section
variable {w t : RtsWorld}

theorem On.pointers_eq (h : On w) : ∃ n, w.allocated = n + 3 ∧ w.pointers = [n + 1, n + 2, n] := by
  obtain ⟨n, hn, hp, hr, hc⟩ := h.pointers
  exact ⟨n, hn, by simp [RtsWorld.pointers, hp, hr, hc]⟩

theorem Off.pointers_eq (h : Off w) : w.pointers = [] := by
  obtain ⟨hp, hr, hc⟩ := h.pointers
  simp [RtsWorld.pointers, hp, hr, hc]

/-- A stop frees the buffers of the slot, each for the first time. -/
theorem On.freed_owned (h : On w) {b : ℕ} (hb : b < w.allocated) :
    w.freed.count b = if b ∈ w.pointers then 0 else 1 := by
  obtain ⟨n, hn, hp⟩ := h.pointers_eq
  rw [h.freed, hp]
  simp only [List.mem_cons, List.not_mem_nil, or_false]
  split <;> split <;> omega

theorem On.free (h : On w) (b : ℕ) : (w.freed ++ w.pointers).count b = if b < w.allocated then 1 else 0 := by
  obtain ⟨n, hn, hp⟩ := h.pointers_eq
  rw [List.count_append, h.freed, hp, hn]
  simp only [List.count_cons, List.count_nil, beq_iff_eq]
  split <;> split <;> split <;> split <;> split <;> omega

/-! ### Threads -/

theorem runWorker_spec {state ok : Bool} {ws us : List Worker} {i : ℕ} (h : runWorker state ok ws i = some us) :
    us.length ≤ ws.length ∧ (∀ x ∈ us, ∃ y ∈ ws, y.pid = x.pid) ∧ ws ≠ [] := by
  have hset : ∀ {y : Worker} {b : Bool}, ws[i]? = some y → ∀ x ∈ ws.set i { y with inLoop := b }, ∃ z ∈ ws, z.pid = x.pid := by
    intro y b hy x hx
    rcases List.mem_or_eq_of_mem_set hx with hx | rfl
    · exact ⟨x, hx, rfl⟩
    · exact ⟨y, List.mem_of_getElem? hy, rfl⟩
  have herase : ∀ x ∈ ws.eraseIdx i, ∃ z ∈ ws, z.pid = x.pid := fun x hx => ⟨x, List.mem_of_mem_eraseIdx hx, rfl⟩
  have hlen : (ws.eraseIdx i).length ≤ ws.length := List.Sublist.length_le (List.eraseIdx_sublist ..)
  unfold runWorker at h
  cases hy : ws[i]? with
  | none => simp only [hy] at h; cases h
  | some y =>
    have hne : ws ≠ [] := List.ne_nil_of_mem (List.mem_of_getElem? hy)
    simp only [hy] at h
    split at h
    · cases h
      split
      · exact ⟨Nat.le_of_eq (List.length_set ..), hset hy, hne⟩
      · exact ⟨hlen, herase, hne⟩
    · cases h
      split
      · exact ⟨Nat.le_of_eq (List.length_set ..), hset hy, hne⟩
      · exact ⟨hlen, herase, hne⟩

theorem On.setPlays (h : On w) {i : ℕ} {ok : Bool} {ws : List Worker} (hr : runWorker w.state ok w.plays i = some ws) :
    On { w with plays := ws } := by
  obtain ⟨hlen, hpid, -⟩ := runWorker_spec hr
  refine ⟨h.pointers, Nat.le_trans hlen h.plays, h.recvs, fun x hx => ?_, h.recvPid, h.freed⟩
  obtain ⟨y, hy, hyx⟩ := hpid x hx
  exact hyx.symm.trans (h.playPid y hy)

theorem On.setRecvs (h : On w) {i : ℕ} {ok e : Bool} {ws : List Worker} (hr : runWorker w.state ok w.recvs i = some ws) :
    On { w with recvs := ws, errorFlag := e } := by
  obtain ⟨hlen, hpid, -⟩ := runWorker_spec hr
  refine ⟨h.pointers, h.plays, Nat.le_trans hlen h.recvs, h.playPid, fun x hx => ?_, h.freed⟩
  obtain ⟨y, hy, hyx⟩ := hpid x hx
  exact hyx.symm.trans (h.recvPid y hy)

theorem inv_play {i : ℕ} (h : Inv w) (ht : w.step (.play i) = some t) : Inv t := by
  simp only [step, Option.map_eq_some_iff] at ht
  obtain ⟨ws, hr, rfl⟩ := ht
  have hne := (runWorker_spec hr).2.2
  cases h with
  | off h hs hp => exact absurd h.plays hne
  | on h hs hp hplays hrecvs => exact .on (h.setPlays hr) hs hp (fun hn => absurd (hplays hn) hne) hrecvs

theorem inv_recv {i : ℕ} {ok : Bool} (h : Inv w) (ht : w.step (.recv i ok) = some t) : Inv t := by
  simp only [step, Option.map_eq_some_iff] at ht
  obtain ⟨ws, hr, rfl⟩ := ht
  have hne := (runWorker_spec hr).2.2
  cases h with
  | off h hs hp => exact absurd h.recvs hne
  | on h hs hp hplays hrecvs => exact .on (h.setRecvs hr) hs hp hplays (fun hn => absurd (hrecvs hn) hne)

/-! ### The login thread -/

theorem inv_stop {failed : Bool} (h : Inv w) (hp : w.pc.starts = false) (hq : w.pc.stops = false) : Inv (w.stop failed) := by
  unfold stop
  cases h with
  | off h hs hpc =>
    rw [if_neg (by rw [hs, hp]; decide)]
    exact .off ⟨h.pointers, h.plays, h.recvs, h.freed⟩ (hs.trans hp) rfl
  | on h hs hpc hplays hrecvs =>
    rw [if_pos (by rw [hs, hq]; rfl)]
    exact .on ⟨h.pointers, h.plays, h.recvs, h.playPid, h.recvPid, h.freed⟩ rfl rfl (fun hn => by cases hn) (fun hn => by cases hn)

/-- The login thread goes on, and leaves the slot as it is. -/
theorem inv_goto {pc : RtsPc} (h : Inv w) (hs : pc.starts = w.pc.starts) (hq : pc.stops = w.pc.stops)
    (hoff : w.pc.empty = true → pc.empty = true) (hon : w.pc.filled = true → pc.filled = true)
    (hp : pc.noPlay = true → w.plays = []) (hr : pc.noRecv = true → w.recvs = []) : Inv { w with pc := pc } := by
  cases h with
  | off h hst hpc => exact .off ⟨h.pointers, h.plays, h.recvs, h.freed⟩ (hst.trans hs.symm) (hoff hpc)
  | on h hst hpc hplays hrecvs =>
    refine .on ⟨h.pointers, h.plays, h.recvs, h.playPid, h.recvPid, h.freed⟩ ?_ (hon hpc) hp hr
    exact hst.trans (congrArg _ hq.symm)

theorem inv_copied {enable ok : Bool} (h : Inv w) (hp : w.pc = .copied enable) (ht : w.doRtsStep ok = some t) : Inv t := by
  have hidle : Inv { w with pc := .idle } := by
    apply inv_goto h <;> simp [hp, RtsPc.starts, RtsPc.stops, RtsPc.empty, RtsPc.filled, RtsPc.noPlay, RtsPc.noRecv]
  simp only [doRtsStep, hp] at ht
  cases ht
  split
  · exact hidle
  · next hne =>
    split
    · next he =>
      split
      · cases h with
        | off h hs hpc => exact .off ⟨h.pointers, h.plays, h.recvs, h.freed⟩ rfl rfl
        | on h hs hpc => exact absurd (by rw [hs, he, hp]; rfl) hne
      · exact hidle
    · exact inv_stop h (by rw [hp]; rfl) (by rw [hp]; rfl)

theorem inv_alloc {ok : Bool} (h : Inv w) (hp : w.pc = .alloc) (ht : w.doRtsStep ok = some t) : Inv t := by
  simp only [doRtsStep, hp] at ht
  cases ht
  cases h with
  | on h hs hpc => rw [hp] at hpc; cases hpc
  | off h hs hpc =>
    rw [hp] at hs
    refine .on ⟨⟨w.allocated, rfl, rfl, rfl, rfl⟩, ?_, ?_, ?_, ?_, fun b => ?_⟩ hs rfl (fun _ => h.plays) (fun _ => h.recvs)
    · simp [h.plays]
    · simp [h.recvs]
    · simp [h.plays]
    · simp [h.recvs]
    · simp only [h.freed, Nat.add_lt_add_iff_right]

theorem inv_create {ok : Bool} (h : Inv w) (hp : w.pc = .createPlay ∨ w.pc = .createRecv) (ht : w.doRtsStep ok = some t) :
    Inv t := by
  cases h with
  | off h hs hpc => rcases hp with hp | hp <;> · rw [hp] at hpc; cases hpc
  | on h hs hpc hplays hrecvs =>
    rcases hp with hp | hp
    · rw [hp] at hs hplays hrecvs
      simp only [doRtsStep, hp] at ht
      cases ht
      refine .on ⟨h.pointers, ?_, h.recvs, ?_, h.recvPid, h.freed⟩ hs rfl (fun hn => by cases hn) (fun _ => hrecvs rfl)
      · simp [hplays rfl]
      · simp [hplays rfl]
    · rw [hp] at hs hplays hrecvs
      simp only [doRtsStep, hp] at ht
      cases ht
      refine .on ⟨h.pointers, h.plays, ?_, h.playPid, ?_, h.freed⟩ hs rfl (fun hn => by cases hn) (fun hn => by cases hn)
      · simp [hrecvs rfl]
      · simp [hrecvs rfl]

/-- Nobody answers to the number waited for, so the thread has ended. -/
theorem eq_nil_of_joined {ws : List Worker} {pid : ℕ} (h : ∀ x ∈ ws, x.pid = pid) (hj : ¬ ∃ x ∈ ws, x.pid = pid) : ws = [] :=
  List.eq_nil_iff_forall_not_mem.mpr fun x hx => hj ⟨x, hx, h x hx⟩

theorem inv_join {failed ok : Bool} (h : Inv w) (hp : w.pc = .joinPlay failed ∨ w.pc = .joinRecv failed)
    (ht : w.doRtsStep ok = some t) : Inv t := by
  cases h with
  | off h hs hpc => rcases hp with hp | hp <;> · rw [hp] at hpc; cases hpc
  | on h hs hpc hplays hrecvs =>
    rcases hp with hp | hp
    · rw [hp] at hs hplays hrecvs
      simp only [doRtsStep, hp] at ht
      split at ht
      · cases ht
      · next hj =>
        cases ht
        exact .on ⟨h.pointers, h.plays, h.recvs, h.playPid, h.recvPid, h.freed⟩ hs rfl
          (fun _ => eq_nil_of_joined h.playPid hj) (fun hn => by cases hn)
    · rw [hp] at hs hplays hrecvs
      simp only [doRtsStep, hp] at ht
      split at ht
      · cases ht
      · next hj =>
        cases ht
        exact .on ⟨h.pointers, h.plays, h.recvs, h.playPid, h.recvPid, h.freed⟩ hs rfl
          (fun _ => hplays rfl) (fun _ => eq_nil_of_joined h.recvPid hj)

theorem inv_free {failed ok : Bool} (h : Inv w) (hp : w.pc = .free failed) (ht : w.doRtsStep ok = some t) : Inv t := by
  simp only [doRtsStep, hp] at ht
  cases ht
  cases h with
  | off h hs hpc => rw [hp] at hpc; cases hpc
  | on h hs hpc hplays hrecvs =>
    rw [hp] at hs hplays hrecvs
    exact .off ⟨⟨rfl, rfl, rfl⟩, hplays rfl, hrecvs rfl, h.free⟩ hs rfl

theorem inv_doRts {ok : Bool} (h : Inv w) (ht : w.doRtsStep ok = some t) : Inv t := by
  cases hp : w.pc with
  | loggedOut => simp only [doRtsStep, hp] at ht; cases ht
  | error => simp only [doRtsStep, hp] at ht; cases ht
  | idle =>
    simp only [doRtsStep, hp] at ht
    cases ht
    split
    · exact inv_stop h (by rw [hp]; rfl) (by rw [hp]; rfl)
    · apply inv_goto h <;> simp [hp, RtsPc.starts, RtsPc.stops, RtsPc.empty, RtsPc.filled, RtsPc.noPlay, RtsPc.noRecv]
  | checked =>
    simp only [doRtsStep, hp] at ht
    cases ht
    apply inv_goto h <;> simp [hp, RtsPc.starts, RtsPc.stops, RtsPc.empty, RtsPc.filled, RtsPc.noPlay, RtsPc.noRecv]
  | copied enable => exact inv_copied h hp ht
  | opening =>
    simp only [doRtsStep, hp] at ht
    cases ht
    cases h with
    | on h hs hpc => rw [hp] at hpc; cases hpc
    | off h hs hpc =>
      rw [hp] at hs
      split
      · exact .off ⟨h.pointers, h.plays, h.recvs, h.freed⟩ hs rfl
      · exact .off ⟨h.pointers, h.plays, h.recvs, h.freed⟩ rfl rfl
  | alloc => exact inv_alloc h hp ht
  | createPlay => exact inv_create h (.inl hp) ht
  | createRecv => exact inv_create h (.inr hp) ht
  | joinPlay failed => exact inv_join h (.inl hp) ht
  | joinRecv failed => exact inv_join h (.inr hp) ht
  | free failed => exact inv_free h hp ht
  | stopMsg failed =>
    simp only [doRtsStep, hp] at ht
    cases ht
    cases h with
    | on h hs hpc => rw [hp] at hpc; cases hpc
    | off h hs hpc =>
      rw [hp] at hs
      refine .off ⟨h.pointers, h.plays, h.recvs, h.freed⟩ ?_ ?_
      · rw [hs]; cases ok <;> cases failed <;> rfl
      · cases ok <;> cases failed <;> rfl

theorem inv_logout (h : Inv w) (hok : w.Stopped .logout) (hp : w.pc = .idle ∨ w.pc = .error) :
    Inv { w with state := false, errorFlag := false, pc := .loggedOut } := by
  cases h with
  | off h hs hpc => exact .off ⟨h.pointers, h.plays, h.recvs, h.freed⟩ rfl rfl
  | on h hs hpc =>
    rcases hp with hp | hp
    · rw [hok hp, hp] at hs; cases hs
    · rw [hp] at hpc; cases hpc

theorem inv_step {a : RtsAct} (h : Inv w) (hok : w.Stopped a) (ht : w.step a = some t) : Inv t := by
  cases a with
  | enable on =>
    cases ht
    cases h with
    | off h hs hp => exact .off ⟨h.pointers, h.plays, h.recvs, h.freed⟩ hs hp
    | on h hs hp hplays hrecvs =>
      exact .on ⟨h.pointers, h.plays, h.recvs, h.playPid, h.recvPid, h.freed⟩ hs hp hplays hrecvs
  | login =>
    simp only [step] at ht
    split at ht
    · next hp =>
      cases ht
      apply inv_goto h <;> simp [hp, RtsPc.starts, RtsPc.stops, RtsPc.empty, RtsPc.filled, RtsPc.noPlay, RtsPc.noRecv]
    · cases ht
  | logout =>
    simp only [step] at ht
    split at ht
    · next hp => cases ht; exact inv_logout h hok hp
    · cases ht
  | doRts ok => exact inv_doRts h ht
  | play i => exact inv_play h ht
  | recv i ok => exact inv_recv h ht

theorem inv_init : Inv init := .off ⟨⟨rfl, rfl, rfl⟩, rfl, rfl, fun b => by simp [init]⟩ rfl rfl

/-! ## One owner -/

theorem sound_of_inv (h : Inv w) : Sound w := by
  cases h with
  | off h hs hp =>
    refine ⟨by simp [h.plays], by simp [h.recvs], fun _ => ⟨h.plays, h.recvs⟩, fun b hb => ?_⟩
    simp [h.freed, hb, owned, h.pointers_eq]
  | on h hs hp hplays hrecvs =>
    refine ⟨h.plays, h.recvs, fun hpc => ?_, fun b hb => ?_⟩
    · rcases hpc with hpc | ⟨failed, hpc⟩
      · rw [hpc] at hp; cases hp
      · rw [hpc] at hplays hrecvs
        exact ⟨hplays rfl, hrecvs rfl⟩
    · have : (w.state || w.pc.stops) = true := by rw [hs]; cases w.pc.stops <;> rfl
      rw [owned, if_pos this]
      exact h.freed_owned hb

/-- A logout of a running slot leaves buffers that nothing will free. -/
theorem not_sound_logout (h : Inv w) (hp : w.pc = .idle) (hs : w.state = true) :
    ¬ Sound { w with state := false, errorFlag := false, pc := .loggedOut } := by
  intro hsound
  cases h with
  | off h hst => rw [hst, hp] at hs; cases hs
  | on h =>
    obtain ⟨n, hn, -⟩ := h.pointers_eq
    have h₁ := hsound.freed n (show n < w.allocated by omega)
    have h₂ := h.freed n
    rw [if_neg (by omega)] at h₂
    simp [owned, RtsPc.stops, h₂] at h₁

/-- **Lifecycle.** Threads and buffers of a slot have one owner all along a run exactly when no session
ends while the slot runs. -/
theorem rts_sound_iff (as : List RtsAct) : Reached step Sound init as ↔ Meets step Stopped init as := by
  apply reached_iff_meets (I := Inv) _ (fun _ => sound_of_inv) _ inv_init
  · exact fun _ _ _ hi hok hs => inv_step hi hok hs
  · intro w a hi hok
    cases a with
    | logout =>
      simp only [Stopped, Classical.not_imp, Bool.not_eq_false] at hok
      exact ⟨_, if_pos (.inl hok.1), not_sound_logout hi hok.1 hok.2⟩
    | enable on => exact absurd trivial hok
    | login => exact absurd trivial hok
    | doRts ok => exact absurd trivial hok
    | play i => exact absurd trivial hok
    | recv i ok => exact absurd trivial hok

/-- A live view runs; the session ends and a new one begins before the threads have looked at the state,
and the view is started again. -/
def reconnect : List RtsAct :=
  [.login, .enable true] ++ List.replicate 7 (.doRts true) ++ [.play 0, .recv 0 true, .logout, .login] ++
  List.replicate 7 (.doRts true) ++ [.play 0, .recv 0 true, .play 0, .recv 0 true, .play 1, .recv 1 true]

theorem reconnect_twice : ¬ Reached step Sound init reconnect := by
  intro h
  exact absurd (h _ _ (List.prefix_refl _) rfl).plays (by decide)

end

end RtsWorld

end Xm

end SabApp
