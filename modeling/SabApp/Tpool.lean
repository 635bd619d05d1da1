import SabApp.Linked
import SabApp.Runs
import Mathlib.Data.Int.Basic

/-!
# The thread pool (tool_tpool.c)

The workers take jobs off a linked list under the mutex and wait on the condition while there is none. A worker's critical section is
taken apart, since `tpool_stop` clears the state without the mutex; the sections of `tpool_addWork` and of
`tpool_stop` read and write under it only, so each is one step that is taken when the mutex is free.
-/

namespace SabApp

namespace Tpool

open Linked

/-- Where a worker stands in `tpool_run`, with the job it has taken. The test is that of the inner loop, the check the one
behind it; a fault is a read through `NULL`. -/
inductive Pc where
  | lock
  | test
  | enterWait
  | waiting
  | woken
  | check
  | work (job : ℕ)
  | running (job : ℕ)
  | done
  | fault
  deriving DecidableEq

/-- The worker has the mutex. -/
def Pc.inside : Pc → Bool
  | .test | .enterWait | .check => true
  | _ => false

/-- `tpool_t` with its workers. Jobs are numbered as `tpool_addWork` lets them in, and `taken` and `started` are the history of
the takes and of the calls of the jobs. -/
structure World (n : ℕ) where
  state : Bool
  head : Option ℕ
  next : ℕ → Option ℕ
  workNum : ℤ
  workSize : ℕ
  mutex : Option (Fin n)
  pc : Fin n → Pc
  broadcast : Bool
  joined : Bool
  added : ℕ
  taken : List ℕ
  started : List ℕ

/-- Of `tpool_stop` there are three steps: it clears the state, broadcasts, and has joined the workers and freed the list. -/
inductive Act (n : ℕ) where
  | worker (i : Fin n)
  | spurious (i : Fin n)
  | addWork (signal : Option (Fin n))
  | stopClear
  | stopBroadcast
  | stopJoin

namespace World

variable {n : ℕ}

/-- After `tpool_start`. -/
def init (n workSize : ℕ) : World n where
  state := true
  head := none
  next := fun _ => none
  workNum := 0
  workSize := workSize
  mutex := none
  pc := fun _ => .lock
  broadcast := false
  joined := false
  added := 0
  taken := []
  started := []

def goto (w : World n) (i : Fin n) (p : Pc) : World n := { w with pc := Function.update w.pc i p }

/-- The worker gets the mutex, if it is free. -/
def enter (w : World n) (i : Fin n) : Option (World n) :=
  if w.mutex = none then some { w.goto i .test with mutex := some i } else none

/-- Behind the loop of waits. -/
def take (w : World n) (i : Fin n) : World n :=
  if w.state = false then { w.goto i .done with mutex := none }
  else
    match w.head with
    | none => w.goto i .fault
    | some k =>
      { w.goto i (.work k) with
        head := w.next k
        workNum := w.workNum - 1
        mutex := none
        taken := w.taken ++ [k] }

/-- The next step in `tpool_run`; none while the worker is blocked or gone. -/
def worker (w : World n) (i : Fin n) : Option (World n) :=
  match w.pc i with
  | .lock | .woken => w.enter i
  | .test => some (w.goto i (if w.head = none ∧ w.state = true then .enterWait else .check))
  | .enterWait => some { w.goto i .waiting with mutex := none }
  | .check => some (w.take i)
  | .work k => some { w.goto i (.running k) with started := w.started ++ [k] }
  | .running _ => some (w.goto i .lock)
  | .waiting | .done | .fault => none

/-- The new node goes behind the last one. The walk is none if it does not come to an end. -/
def append (w : World n) : Option (World n) :=
  let next := Function.update w.next w.added none
  match w.head with
  | none => some { w with head := some w.added, next := next }
  | some p => (last next w.added p).map fun q => { w with next := Function.update next q (some w.added) }

/-- `tool_thread_signalCond` wakes a worker if one waits. -/
def signal (w : World n) : Option (Fin n) → Option (World n)
  | none => if ∃ i, w.pc i = .waiting then none else some w
  | some i => if w.pc i = .waiting then some (w.goto i .woken) else none

def addWork (w : World n) (signal : Option (Fin n)) : Option (World n) :=
  if w.joined = true ∨ w.mutex ≠ none then none
  else if w.workNum ≥ w.workSize then some w
  else w.append.bind fun w => { w with workNum := w.workNum + 1, added := w.added + 1 }.signal signal

def wakeAll (w : World n) : World n := { w with pc := fun i => if w.pc i = .waiting then .woken else w.pc i }

def step (w : World n) : Act n → Option (World n)
  | .worker i => w.worker i
  | .spurious i => if w.pc i = .waiting then some (w.goto i .woken) else none
  | .addWork signal => w.addWork signal
  | .stopClear => some { w with state := false }
  | .stopBroadcast =>
    if w.state = true ∨ w.mutex ≠ none then none else some { w.wakeAll with broadcast := true }
  | .stopJoin =>
    if w.broadcast = true ∧ ∀ i, w.pc i = .done then some { w with head := none, joined := true } else none

/-- What the pool does: its counter is the length of its list, which has the jobs added and not yet taken in their order;
every job that was taken is called once or is yet to be called by one worker; where there is a job, not all workers wait; and
once `tpool_stop` has broadcast none does. -/
structure Sound (w : World n) : Prop where
  jobs : w.joined = false → ∃ l, Chain w.next w.head l ∧ w.workNum = l.length ∧ l.length ≤ w.workSize ∧
    w.taken ++ l = List.range w.added
  returns : w.joined = false → ∃ t, w.append = some t
  once : w.started.Nodup
  called : ∀ k, k ∈ w.taken ↔ k ∈ w.started ∨ ∃ i, w.pc i = .work k
  uncalled : ∀ i k, w.pc i = .work k → k ∉ w.started
  alone : ∀ i j k, w.pc i = .work k → w.pc j = .work k → i = j
  noFault : ∀ i, w.pc i ≠ .fault
  awake : 0 < n → w.head ≠ none → ∃ i, w.pc i ≠ .waiting ∧ (w.state = true → w.pc i ≠ .done)
  stopped : w.broadcast = true → ∀ i, w.pc i ≠ .waiting

@[simp] theorem pc_goto (w : World n) (i : Fin n) (p : Pc) : (w.goto i p).pc i = p := Function.update_self ..

theorem pc_goto_ne (w : World n) {i j : Fin n} (p : Pc) (h : j ≠ i) : (w.goto i p).pc j = w.pc j :=
  Function.update_of_ne h ..

/-! ## The list of jobs -/

def Queue (w : World n) (l : List ℕ) : Prop :=
  Chain w.next w.head l ∧ w.workNum = l.length ∧ l.length ≤ w.workSize ∧ w.taken ++ l = List.range w.added

theorem Queue.mem_lt {w : World n} {l : List ℕ} (h : w.Queue l) {k : ℕ} (hk : k ∈ l) : k < w.added := by
  have hm : k ∈ w.taken ++ l := List.mem_append_right _ hk
  rw [h.2.2.2] at hm
  exact List.mem_range.mp hm

theorem Queue.nodup {w : World n} {l : List ℕ} (h : w.Queue l) : (w.taken ++ l).Nodup := by
  rw [h.2.2.2]
  exact List.nodup_range

theorem Queue.length_le {w : World n} {l : List ℕ} (h : w.Queue l) : l.length ≤ w.added := by
  have := congrArg List.length h.2.2.2
  simp only [List.length_append, List.length_range] at this
  omega

theorem Queue.chain_new {w : World n} {l : List ℕ} (h : w.Queue l) :
    Chain (Function.update w.next w.added none) w.head l := by
  apply h.1.congr
  intro k hk
  exact Function.update_of_ne (Nat.ne_of_lt (h.mem_lt hk)) ..

/-- The walk of `tpool_addWork` comes to the last node. -/
theorem Queue.append {w : World n} {l : List ℕ} (h : w.Queue l) :
    ∃ head next, w.append = some { w with head, next } ∧ Chain next head (l ++ [w.added]) := by
  have hc := h.chain_new
  unfold World.append
  cases hh : w.head with
  | none =>
    obtain rfl := (h.1.nil_iff).mp hh
    refine ⟨_, _, rfl, Chain.cons ?_⟩
    rw [Function.update_self]
    exact .nil
  | some p =>
    rw [hh] at hc
    obtain ⟨q, hq, hl⟩ := hc.last h.length_le
    refine ⟨some p, Function.update (Function.update w.next w.added none) q (some w.added), ?_, ?_⟩
    · simp only [hq, Option.map_some, ← hh]
    · exact (hh ▸ h.1).snoc (List.nodup_append.mp h.nodup).2.1 hl fun hm => Nat.lt_irrefl _ (h.mem_lt hm)

/-! ## The steps -/

inductive Move (w : World n) (i : Fin n) : World n → Prop
  | enter (hpc : w.pc i = .lock ∨ w.pc i = .woken) (hm : w.mutex = none) :
    Move w i { w.goto i .test with mutex := some i }
  | empty (hpc : w.pc i = .test) (hh : w.head = none) (hs : w.state = true) : Move w i (w.goto i .enterWait)
  | through (hpc : w.pc i = .test) (hh : w.head = none → w.state = false) : Move w i (w.goto i .check)
  | wait (hpc : w.pc i = .enterWait) : Move w i { w.goto i .waiting with mutex := none }
  | leave (hpc : w.pc i = .check) (hs : w.state = false) : Move w i { w.goto i .done with mutex := none }
  | fault (hpc : w.pc i = .check) (hs : w.state = true) (hh : w.head = none) : Move w i (w.goto i .fault)
  | take {k : ℕ} (hpc : w.pc i = .check) (hs : w.state = true) (hh : w.head = some k) :
    Move w i { w.goto i (.work k) with
      head := w.next k
      workNum := w.workNum - 1
      mutex := none
      taken := w.taken ++ [k] }
  | call {k : ℕ} (hpc : w.pc i = .work k) : Move w i { w.goto i (.running k) with started := w.started ++ [k] }
  | return {k : ℕ} (hpc : w.pc i = .running k) : Move w i (w.goto i .lock)

theorem move_of_worker {w t : World n} {i : Fin n} (h : w.worker i = some t) : w.Move i t := by
  unfold worker at h
  cases hpc : w.pc i with
  | lock =>
    simp only [hpc, enter] at h
    split at h <;> cases h
    exact .enter (.inl hpc) ‹_›
  | woken =>
    simp only [hpc, enter] at h
    split at h <;> cases h
    exact .enter (.inr hpc) ‹_›
  | test =>
    simp only [hpc, Option.some.injEq] at h
    subst h
    by_cases hh : w.head = none ∧ w.state = true
    · rw [if_pos hh]
      exact .empty hpc hh.1 hh.2
    · rw [if_neg hh]
      exact .through hpc fun h0 => Bool.eq_false_iff.mpr fun hs => hh ⟨h0, hs⟩
  | enterWait =>
    simp only [hpc, Option.some.injEq] at h
    subst h
    exact .wait hpc
  | check =>
    simp only [hpc, Option.some.injEq] at h
    subst h
    unfold World.take
    by_cases hs : w.state = false
    · rw [if_pos hs]
      exact .leave hpc hs
    rw [if_neg hs]
    rw [Bool.not_eq_false] at hs
    cases hh : w.head with
    | none => exact .fault hpc hs hh
    | some k => exact .take hpc hs hh
  | work k =>
    simp only [hpc, Option.some.injEq] at h
    subst h
    exact .call hpc
  | running k =>
    simp only [hpc, Option.some.injEq] at h
    subst h
    exact .return hpc
  | waiting => simp only [hpc] at h; cases h
  | done => simp only [hpc] at h; cases h
  | fault => simp only [hpc] at h; cases h

theorem signal_cases {w t : World n} {s : Option (Fin n)} (h : w.signal s = some t) :
    ((∀ i, w.pc i ≠ .waiting) ∧ t = w) ∨ ∃ i, w.pc i = .waiting ∧ t = w.goto i .woken := by
  cases s with
  | none =>
    simp only [signal] at h
    split at h
    · cases h
    · next hn => exact .inl ⟨not_exists.mp hn, (Option.some.inj h).symm⟩
  | some i =>
    simp only [signal] at h
    split at h
    · next hw => exact .inr ⟨i, hw, (Option.some.inj h).symm⟩
    · cases h

/-- A job that is let in, before the signal. -/
def put (w : World n) (head : Option ℕ) (next : ℕ → Option ℕ) : World n :=
  { w with head, next, workNum := w.workNum + 1, added := w.added + 1 }

theorem addWork_joined {w t : World n} {s : Option (Fin n)} (h : w.addWork s = some t) : w.joined = false := by
  unfold addWork at h
  split at h
  · cases h
  · next hm => exact Bool.eq_false_iff.mpr fun hj => hm (.inl hj)

theorem addWork_cases {w t : World n} {s : Option (Fin n)} {l : List ℕ} (hq : w.Queue l) (h : w.addWork s = some t) :
    w.mutex = none ∧ (t = w ∨ l.length < w.workSize ∧
      ∃ head next, Chain next head (l ++ [w.added]) ∧ (w.put head next).signal s = some t) := by
  unfold addWork at h
  split at h
  · cases h
  next hm =>
  rw [not_or, not_not] at hm
  refine ⟨hm.2, ?_⟩
  split at h
  · exact .inl (Option.some.inj h).symm
  · next hn =>
    have hlen := hq.2.1
    obtain ⟨head, next, ha, hc⟩ := hq.append
    rw [ha, Option.bind_some] at h
    exact .inr ⟨by omega, head, next, hc, h⟩

theorem Queue.put {w : World n} {l : List ℕ} (h : w.Queue l) {head : Option ℕ} {next : ℕ → Option ℕ}
    (hl : l.length < w.workSize) (hc : Chain next head (l ++ [w.added])) : (w.put head next).Queue (l ++ [w.added]) := by
  refine ⟨hc, ?_, ?_, ?_⟩
  · have := h.2.1
    simp only [World.put, List.length_append, List.length_singleton]
    omega
  · rw [List.length_append, List.length_singleton]
    exact hl
  · simp only [World.put, List.range_succ, ← h.2.2.2, List.append_assoc]

theorem queue_move {w t : World n} {i : Fin n} {l : List ℕ} (h : w.Queue l) (hm : w.Move i t) : ∃ l', t.Queue l' := by
  cases hm with
  | take hpc hs hh =>
    obtain ⟨hc, hnum, hsize, htaken⟩ := h
    rw [hh] at hc
    cases hc with
    | @cons k l hc =>
      rw [List.length_cons] at hnum hsize
      refine ⟨l, hc, ?_, Nat.le_of_succ_le hsize, ?_⟩
      · dsimp only
        omega
      · rw [List.append_assoc]
        exact htaken
  | _ => exact ⟨l, h⟩

def Listed (w : World n) : Prop := w.joined = false → ∃ l, w.Queue l

theorem joined_move {w t : World n} {i : Fin n} (hm : w.Move i t) : t.joined = w.joined := by cases hm <;> rfl

theorem listed_step {w t : World n} {a : Act n} (h : w.Listed) (hs : step w a = some t) : t.Listed := by
  intro hj
  cases a with
  | worker i =>
    have hm := move_of_worker hs
    rw [joined_move hm] at hj
    obtain ⟨l, hq⟩ := h hj
    exact queue_move hq hm
  | spurious i =>
    simp only [step] at hs
    split at hs <;> cases hs
    exact h hj
  | addWork s =>
    obtain ⟨l, hq⟩ := h (addWork_joined hs)
    obtain ⟨-, rfl | ⟨hl, head, next, hc, hsig⟩⟩ := addWork_cases hq hs
    · exact ⟨l, hq⟩
    · refine ⟨l ++ [w.added], ?_⟩
      rcases signal_cases hsig with ⟨-, rfl⟩ | ⟨i, -, rfl⟩
      · exact hq.put hl hc
      · exact hq.put hl hc
  | stopClear =>
    cases hs
    exact h hj
  | stopBroadcast =>
    simp only [step] at hs
    split at hs <;> cases hs
    exact h hj
  | stopJoin =>
    simp only [step] at hs
    split at hs <;> cases hs
    cases hj

/-! ## The mutex, the state and the waits -/

structure Locked (w : World n) : Prop where
  inside : ∀ i, (w.pc i).inside = true ↔ w.mutex = some i
  empty : ∀ i, w.pc i = .enterWait → w.head = none
  ready : ∀ i, w.pc i = .check → w.head = none → w.state = false
  left : ∀ i, w.pc i = .done → w.state = false
  noFault : ∀ i, w.pc i ≠ .fault
  awake : 0 < n → w.head ≠ none → ∃ i, w.pc i ≠ .waiting
  stopped : w.broadcast = true → w.state = false ∧ ∀ i, w.pc i ≠ .waiting ∧ w.pc i ≠ .enterWait
  ended : w.joined = true → w.broadcast = true

/-- One worker moves, and the list changes only if it has the mutex. -/
structure Moves (w t : World n) (i : Fin n) (p : Pc) : Prop where
  pc : t.pc = Function.update w.pc i p
  state : t.state = w.state
  broadcast : t.broadcast = w.broadcast
  joined : t.joined = w.joined
  others : ∀ j, j ≠ i → (t.mutex = some j ↔ w.mutex = some j)
  self : p.inside = true ↔ t.mutex = some i
  head : t.head = w.head ∨ w.mutex = some i

theorem Locked.moves {w t : World n} {i : Fin n} {p : Pc} (h : w.Locked) (hm : Moves w t i p)
    (hempty : p = .enterWait → t.head = none ∧ w.state = true) (hready : p = .check → t.head = none → w.state = false)
    (hleft : p = .done → w.state = false) (hfault : p ≠ .fault)
    (hwait : p = .waiting → t.head = none ∧ w.broadcast = false) : t.Locked := by
  have hself : t.pc i = p := by rw [hm.pc, Function.update_self]
  have hother : ∀ j, j ≠ i → t.pc j = w.pc j := fun j hj => by rw [hm.pc, Function.update_of_ne hj]
  -- a worker inside the mutex sees the list as it was
  have hhead : ∀ j, j ≠ i → (w.pc j).inside = true → t.head = w.head := by
    intro j hj hin
    rcases hm.head with hh | hh
    · exact hh
    · rw [h.inside, hh, Option.some.injEq] at hin
      exact absurd hin.symm hj
  refine ⟨fun j => ?_, fun j hj => ?_, fun j hj => ?_, fun j hj => ?_, fun j => ?_, fun hn hh => ?_, fun hb => ⟨?_, fun j => ?_⟩,
    fun hj => ?_⟩
  all_goals try rw [hm.state]
  · by_cases hji : j = i
    · subst hji
      rw [hself]
      exact hm.self
    · rw [hother j hji, hm.others j hji]
      exact h.inside j
  · by_cases hji : j = i
    · subst hji
      exact (hempty (hself.symm.trans hj)).1
    · rw [hother j hji] at hj
      rw [hhead j hji (by rw [hj]; rfl)]
      exact h.empty j hj
  · by_cases hji : j = i
    · subst hji
      exact hready (hself.symm.trans hj)
    · rw [hother j hji] at hj
      rw [hhead j hji (by rw [hj]; rfl)]
      exact h.ready j hj
  · by_cases hji : j = i
    · subst hji
      exact hleft (hself.symm.trans hj)
    · rw [hother j hji] at hj
      exact h.left j hj
  · by_cases hji : j = i
    · subst hji
      rw [hself]
      exact hfault
    · rw [hother j hji]
      exact h.noFault j
  · refine ⟨i, fun hp => hh (hwait (hself.symm.trans hp)).1⟩
  · rw [hm.broadcast] at hb
    exact (h.stopped hb).1
  · rw [hm.broadcast] at hb
    by_cases hji : j = i
    · subst hji
      rw [hself]
      refine ⟨fun hp => ?_, fun hp => ?_⟩
      · rw [(hwait hp).2] at hb
        cases hb
      · have := (hempty hp).2
        rw [(h.stopped hb).1] at this
        cases this
    · rw [hother j hji]
      exact (h.stopped hb).2 j
  · rw [hm.joined] at hj
    rw [hm.broadcast]
    exact h.ended hj

theorem some_ne_of_ne {i j : Fin n} (h : j ≠ i) : some i ≠ some j := fun he => h (Option.some.inj he).symm

/-- A step outside of the mutex. -/
theorem moves_goto {w : World n} {i : Fin n} {p : Pc} (h : w.Locked) (he : p.inside = (w.pc i).inside) :
    Moves w (w.goto i p) i p := by
  refine ⟨rfl, rfl, rfl, rfl, fun _ _ => Iff.rfl, ?_, .inl rfl⟩
  rw [he]
  exact h.inside i

theorem locked_move {w t : World n} {i : Fin n} (h : w.Locked) (hm : w.Move i t) : t.Locked := by
  have hmutex : (w.pc i).inside = true → ∀ j, j ≠ i → (none = some j ↔ w.mutex = some j) := by
    intro hin j hj
    rw [(h.inside i).mp hin]
    exact iff_of_false (by simp) (some_ne_of_ne hj)
  cases hm with
  | enter hpc hfree =>
    refine h.moves (p := .test) ⟨rfl, rfl, rfl, rfl, fun j hj => ?_, by simp [Pc.inside], .inl rfl⟩ ?_ ?_ ?_ ?_ ?_
    · rw [hfree]
      exact iff_of_false (some_ne_of_ne hj) (by simp)
    all_goals simp
  | empty hpc hh hs =>
    refine h.moves (moves_goto h (by rw [hpc]; rfl)) (fun _ => ⟨hh, hs⟩) ?_ ?_ ?_ ?_
    all_goals simp
  | through hpc hh =>
    refine h.moves (moves_goto h (by rw [hpc]; rfl)) ?_ (fun _ => hh) ?_ ?_ ?_
    all_goals simp
  | wait hpc =>
    have hin : (w.pc i).inside = true := by rw [hpc]; rfl
    have hb : w.broadcast = false := Bool.eq_false_iff.mpr fun hb => ((h.stopped hb).2 i).2 hpc
    refine h.moves (p := .waiting) ⟨rfl, rfl, rfl, rfl, hmutex hin, by simp [Pc.inside], .inl rfl⟩ ?_ ?_ ?_ ?_
      fun _ => ⟨h.empty i hpc, hb⟩
    all_goals simp
  | leave hpc hs =>
    have hin : (w.pc i).inside = true := by rw [hpc]; rfl
    refine h.moves (p := .done) ⟨rfl, rfl, rfl, rfl, hmutex hin, by simp [Pc.inside], .inl rfl⟩ ?_ ?_ (fun _ => hs) ?_ ?_
    all_goals simp
  | fault hpc hs hh =>
    rw [h.ready i hpc hh] at hs
    cases hs
  | @take k hpc hs hh =>
    have hin : (w.pc i).inside = true := by rw [hpc]; rfl
    refine h.moves (p := .work k) ⟨rfl, rfl, rfl, rfl, hmutex hin, by simp [Pc.inside], .inr ((h.inside i).mp hin)⟩ ?_ ?_ ?_ ?_ ?_
    all_goals simp
  | @call k hpc =>
    have hm : Moves w { w.goto i (.running k) with started := w.started ++ [k] } i (.running k) := by
      obtain ⟨hp, hs, hb, hj, ho, hself, hh⟩ := moves_goto h (p := .running k) (by rw [hpc]; rfl)
      exact ⟨hp, hs, hb, hj, ho, hself, hh⟩
    refine h.moves hm ?_ ?_ ?_ ?_ ?_
    all_goals simp
  | «return» hpc =>
    refine h.moves (moves_goto h (by rw [hpc]; rfl)) ?_ ?_ ?_ ?_ ?_
    all_goals simp

theorem locked_wake {w : World n} {i : Fin n} (h : w.Locked) (hw : w.pc i = .waiting) : (w.goto i .woken).Locked := by
  refine h.moves (moves_goto h (by rw [hw]; rfl)) ?_ ?_ ?_ ?_ ?_
  all_goals simp

/-- With the mutex free nobody is inside it. -/
theorem Locked.not_inside {w : World n} (h : w.Locked) (hm : w.mutex = none) (i : Fin n) : (w.pc i).inside = false := by
  rw [Bool.eq_false_iff, ne_eq, h.inside, hm]
  simp

theorem locked_addWork {w t : World n} {s : Option (Fin n)} {head : Option ℕ} {next : ℕ → Option ℕ} (h : w.Locked)
    (hm : w.mutex = none) (hs : (w.put head next).signal s = some t) : t.Locked := by
  have hempty : ∀ i, w.pc i = .enterWait → head = none := fun i hpc => by
    have := h.not_inside hm i
    rw [hpc] at this
    cases this
  have hready : ∀ i, w.pc i = .check → head = none → w.state = false := fun i hpc => by
    have := h.not_inside hm i
    rw [hpc] at this
    cases this
  rcases signal_cases hs with ⟨hnone, rfl⟩ | ⟨i, hi, rfl⟩
  · exact ⟨h.inside, hempty, hready, h.left, h.noFault, fun hn _ => ⟨⟨0, hn⟩, hnone _⟩, h.stopped, h.ended⟩
  · have hother : ∀ j p, p ≠ .woken → ((w.put head next).goto i .woken).pc j = p → w.pc j = p := by
      intro j p hp hj
      by_cases hji : j = i
      · subst hji
        rw [pc_goto] at hj
        exact absurd hj.symm hp
      · rwa [pc_goto_ne _ _ hji] at hj
    refine ⟨fun j => ?_, fun j hj => hempty j (hother j _ (by simp) hj), fun j hj => hready j (hother j _ (by simp) hj),
      fun j hj => h.left j (hother j _ (by simp) hj), fun j hj => h.noFault j (hother j _ (by simp) hj),
      fun _ _ => ⟨i, by simp⟩, fun hb => ⟨(h.stopped hb).1, fun j => ?_⟩, h.ended⟩
    · by_cases hji : j = i
      · subst hji
        rw [pc_goto]
        refine iff_of_false (by simp [Pc.inside]) fun hc => ?_
        rw [show w.mutex = some j from hc] at hm
        cases hm
      · rw [pc_goto_ne _ _ hji]
        exact h.inside j
    · exact ⟨fun hj => ((h.stopped hb).2 j).1 (hother j _ (by simp) hj),
        fun hj => ((h.stopped hb).2 j).2 (hother j _ (by simp) hj)⟩

theorem pc_wakeAll {w : World n} {i : Fin n} {p : Pc} (hp : p ≠ .woken) : w.wakeAll.pc i = p ↔ w.pc i = p ∧ p ≠ .waiting := by
  simp only [wakeAll]
  by_cases hw : w.pc i = .waiting
  · rw [if_pos hw, hw]
    exact ⟨fun h => absurd h.symm hp, fun h => absurd h.1.symm h.2⟩
  · rw [if_neg hw]
    exact ⟨fun h => ⟨h, fun hc => hw (h.trans hc)⟩, fun h => h.1⟩

theorem locked_wakeAll {w : World n} (h : w.Locked) (hs : w.state = false) (hm : w.mutex = none) :
    ({ w.wakeAll with broadcast := true } : World n).Locked := by
  refine ⟨fun i => ?_, fun i hi => ?_, fun _ _ _ => hs, fun _ _ => hs, fun i hi => ?_, fun hn _ => ⟨⟨0, hn⟩, fun hi => ?_⟩,
    fun _ => ⟨hs, fun i => ⟨fun hi => ?_, fun hi => ?_⟩⟩, fun _ => rfl⟩
  · have : (w.wakeAll.pc i).inside = (w.pc i).inside := by
      simp only [wakeAll]
      split
      · next hw => rw [hw]; rfl
      · rfl
    rw [this]
    exact h.inside i
  · exact h.empty i ((pc_wakeAll (by simp)).mp hi).1
  · exact h.noFault i ((pc_wakeAll (by simp)).mp hi).1
  · exact ((pc_wakeAll (by simp)).mp hi).2 rfl
  · exact ((pc_wakeAll (by simp)).mp hi).2 rfl
  · have := h.not_inside hm i
    rw [((pc_wakeAll (by simp)).mp hi).1] at this
    cases this

theorem locked_step {w t : World n} {a : Act n} (hl : w.Listed) (h : w.Locked) (hs : step w a = some t) : t.Locked := by
  cases a with
  | worker i => exact locked_move h (move_of_worker hs)
  | spurious i =>
    simp only [step] at hs
    split at hs <;> cases hs
    exact locked_wake h ‹_›
  | addWork s =>
    obtain ⟨l, hq⟩ := hl (addWork_joined hs)
    obtain ⟨hm, rfl | ⟨-, head, next, -, hsig⟩⟩ := addWork_cases hq hs
    · exact h
    · exact locked_addWork h hm hsig
  | stopClear =>
    cases hs
    exact ⟨h.inside, h.empty, fun _ _ _ => rfl, fun _ _ => rfl, h.noFault, h.awake, fun hb => ⟨rfl, (h.stopped hb).2⟩,
      h.ended⟩
  | stopBroadcast =>
    simp only [step] at hs
    split at hs <;> cases hs
    next hc =>
    rw [not_or, not_not, Bool.not_eq_true] at hc
    exact locked_wakeAll h hc.1 hc.2
  | stopJoin =>
    simp only [step] at hs
    split at hs <;> cases hs
    next hc =>
    have hstate := (h.stopped hc.1).1
    exact ⟨h.inside, fun _ _ => rfl, fun _ _ _ => hstate, h.left, h.noFault, fun _ hh => absurd rfl hh, h.stopped,
      fun _ => hc.1⟩

/-! ## The calls -/

structure Called (w : World n) : Prop where
  once : w.started.Nodup
  called : ∀ k, k ∈ w.taken ↔ k ∈ w.started ∨ ∃ i, w.pc i = .work k
  uncalled : ∀ i k, w.pc i = .work k → k ∉ w.started
  alone : ∀ i j k, w.pc i = .work k → w.pc j = .work k → i = j

/-- A step that leaves the jobs with their workers. -/
theorem Called.congr {w t : World n} (h : w.Called) (hp : ∀ i k, t.pc i = .work k ↔ w.pc i = .work k)
    (ht : t.taken = w.taken) (hs : t.started = w.started) : t.Called := by
  refine ⟨?_, fun k => ?_, fun i k hi => ?_, fun i j k hi hj => ?_⟩
  · rw [hs]
    exact h.once
  · rw [ht, hs, h.called]
    exact or_congr_right (exists_congr fun i => (hp i k).symm)
  · rw [hs]
    exact h.uncalled i k ((hp i k).mp hi)
  · exact h.alone i j k ((hp i k).mp hi) ((hp j k).mp hj)

theorem pc_goto_work {w : World n} {i : Fin n} {p : Pc} (hi : ∀ k, w.pc i ≠ .work k) (hp : ∀ k, p ≠ .work k) (j : Fin n)
    (k : ℕ) : (w.goto i p).pc j = .work k ↔ w.pc j = .work k := by
  by_cases hji : j = i
  · subst hji
    rw [pc_goto]
    exact iff_of_false (hp k) (hi k)
  · rw [pc_goto_ne _ _ hji]

theorem called_take {w t : World n} {i : Fin n} {k : ℕ} (h : w.Called) (hi : ∀ k, w.pc i ≠ .work k) (hk : k ∉ w.taken)
    (hp : t.pc = (w.goto i (.work k)).pc) (ht : t.taken = w.taken ++ [k]) (hs : t.started = w.started) : t.Called := by
  have hpc : ∀ j m, t.pc j = .work m ↔ (j = i ∧ m = k) ∨ w.pc j = .work m := by
    intro j m
    rw [hp]
    by_cases hji : j = i
    · subst hji
      rw [pc_goto, Pc.work.injEq]
      exact ⟨fun he => .inl ⟨rfl, he.symm⟩, fun he => he.elim (fun he => he.2.symm) fun he => absurd he (hi m)⟩
    · rw [pc_goto_ne _ _ hji]
      exact ⟨.inr, fun he => he.resolve_left fun hc => hji hc.1⟩
  have hnew : ∀ j, w.pc j ≠ .work k := fun j hj => hk ((h.called k).mpr (.inr ⟨j, hj⟩))
  refine ⟨by rw [hs]; exact h.once, fun m => ?_, fun j m hj => ?_, fun j j' m hj hj' => ?_⟩
  · rw [ht, hs, List.mem_append, List.mem_singleton, h.called]
    constructor
    · rintro ((hm | ⟨j, hj⟩) | rfl)
      · exact .inl hm
      · exact .inr ⟨j, (hpc j m).mpr (.inr hj)⟩
      · exact .inr ⟨i, (hpc i m).mpr (.inl ⟨rfl, rfl⟩)⟩
    · rintro (hm | ⟨j, hj⟩)
      · exact .inl (.inl hm)
      · rcases (hpc j m).mp hj with ⟨-, hmk⟩ | hj
        · exact .inr hmk
        · exact .inl (.inr ⟨j, hj⟩)
  · rw [hs]
    rcases (hpc j m).mp hj with ⟨-, rfl⟩ | hj
    · exact fun hm => hk ((h.called _).mpr (.inl hm))
    · exact h.uncalled j m hj
  · rcases (hpc j m).mp hj with ⟨rfl, rfl⟩ | hj <;> rcases (hpc j' _).mp hj' with ⟨rfl, hm⟩ | hj'
    · rfl
    · exact absurd hj' (hnew j')
    · exact absurd (hm ▸ hj) (hnew j)
    · exact h.alone j j' m hj hj'

theorem called_call {w t : World n} {i : Fin n} {k : ℕ} (h : w.Called) (hi : w.pc i = .work k)
    (hp : t.pc = (w.goto i (.running k)).pc) (ht : t.taken = w.taken) (hs : t.started = w.started ++ [k]) : t.Called := by
  have hpc : ∀ j m, t.pc j = .work m ↔ j ≠ i ∧ w.pc j = .work m := by
    intro j m
    rw [hp]
    by_cases hji : j = i
    · subst hji
      rw [pc_goto]
      exact iff_of_false (by simp) fun hc => hc.1 rfl
    · rw [pc_goto_ne _ _ hji]
      exact (and_iff_right hji).symm
  have hk := h.uncalled i k hi
  refine ⟨?_, fun m => ?_, fun j m hj => ?_, fun j j' m hj hj' => ?_⟩
  · rw [hs, List.nodup_append]
    exact ⟨h.once, by simp, fun a ha b hb => by rw [List.mem_singleton.mp hb]; rintro rfl; exact hk ha⟩
  · rw [ht, hs, h.called, List.mem_append, List.mem_singleton]
    constructor
    · rintro (hm | ⟨j, hj⟩)
      · exact .inl (.inl hm)
      · by_cases hji : j = i
        · rw [hji, hi, Pc.work.injEq] at hj
          exact .inl (.inr hj.symm)
        · exact .inr ⟨j, (hpc j m).mpr ⟨hji, hj⟩⟩
    · rintro ((hm | rfl) | ⟨j, hj⟩)
      · exact .inl hm
      · exact .inr ⟨i, hi⟩
      · exact .inr ⟨j, ((hpc j m).mp hj).2⟩
  · obtain ⟨hji, hj⟩ := (hpc j m).mp hj
    rw [hs, List.mem_append, List.mem_singleton, not_or]
    refine ⟨h.uncalled j m hj, ?_⟩
    rintro rfl
    exact hji (h.alone j i m hj hi)
  · exact h.alone j j' m ((hpc j m).mp hj).2 ((hpc j' m).mp hj').2

/-- While the state is set the pool has not been joined. -/
theorem Locked.joined {w : World n} (h : w.Locked) (hs : w.state = true) : w.joined = false := by
  rw [Bool.eq_false_iff]
  intro hj
  rw [(h.stopped (h.ended hj)).1] at hs
  cases hs

theorem called_move {w t : World n} {i : Fin n} (hl : w.Listed) (hk : w.Locked) (h : w.Called) (hm : w.Move i t) :
    t.Called := by
  cases hm with
  | enter hpc _ =>
    refine h.congr (pc_goto_work ?_ ?_) rfl rfl
    · intro k hc
      rcases hpc with hpc | hpc <;> rw [hpc] at hc <;> cases hc
    · simp
  | empty hpc | through hpc | wait hpc | leave hpc | fault hpc | «return» hpc =>
    refine h.congr (pc_goto_work ?_ ?_) rfl rfl
    all_goals simp [hpc]
  | @take k hpc hs hh =>
    obtain ⟨l, hq⟩ := hl (hk.joined hs)
    refine called_take h (by simp [hpc]) ?_ rfl rfl rfl
    obtain ⟨l, rfl⟩ : ∃ l', l = k :: l' := by
      have hc := hq.1
      rw [hh] at hc
      cases hc with
      | @cons _ l' _ => exact ⟨l', rfl⟩
    exact fun hm => (List.nodup_append.mp hq.nodup).2.2 k hm k List.mem_cons_self rfl
  | call hpc => exact called_call h hpc rfl rfl rfl

theorem called_step {w t : World n} {a : Act n} (hl : w.Listed) (hk : w.Locked) (h : w.Called) (hs : step w a = some t) :
    t.Called := by
  cases a with
  | worker i => exact called_move hl hk h (move_of_worker hs)
  | spurious i =>
    simp only [step] at hs
    split at hs <;> cases hs
    next hw => exact h.congr (pc_goto_work (by simp [hw]) (by simp)) rfl rfl
  | addWork s =>
    obtain ⟨l, hq⟩ := hl (addWork_joined hs)
    obtain ⟨-, rfl | ⟨-, head, next, -, hsig⟩⟩ := addWork_cases hq hs
    · exact h
    · have hput : (w.put head next).Called := h.congr (fun _ _ => Iff.rfl) rfl rfl
      rcases signal_cases hsig with ⟨-, rfl⟩ | ⟨i, hi, rfl⟩
      · exact hput
      · exact hput.congr (pc_goto_work (by simp [hi]) (by simp)) rfl rfl
  | stopClear =>
    cases hs
    exact h.congr (fun _ _ => Iff.rfl) rfl rfl
  | stopBroadcast =>
    simp only [step] at hs
    split at hs <;> cases hs
    refine h.congr (fun i k => (pc_wakeAll (by simp)).trans ?_) rfl rfl
    exact and_iff_left (by simp)
  | stopJoin =>
    simp only [step] at hs
    split at hs <;> cases hs
    exact h.congr (fun _ _ => Iff.rfl) rfl rfl

/-! ## Runs -/

structure Inv (w : World n) : Prop where
  listed : w.Listed
  locked : w.Locked
  called : w.Called

theorem inv_init (workSize : ℕ) : (init n workSize).Inv where
  listed := fun _ => ⟨[], .nil, rfl, Nat.zero_le _, rfl⟩
  locked := by
    refine ⟨fun i => ?_, fun i hi => rfl, fun i hi => ?_, fun i hi => ?_, fun i hi => ?_, fun _ hh => absurd rfl hh,
      fun hb => ?_, fun hj => ?_⟩
    · exact iff_of_false (by simp [init, Pc.inside]) (by simp [init])
    all_goals contradiction
  called := by
    refine ⟨List.nodup_nil, fun k => ?_, fun i k hi => ?_, fun i j k hi => ?_⟩
    · simp [init]
    all_goals contradiction

theorem inv_step {w t : World n} {a : Act n} (h : w.Inv) (hs : step w a = some t) : t.Inv :=
  ⟨listed_step h.listed hs, locked_step h.listed h.locked hs, called_step h.listed h.locked h.called hs⟩

theorem Inv.sound {w : World n} (h : w.Inv) : w.Sound where
  jobs := h.listed
  returns := fun hj => by
    obtain ⟨l, hq⟩ := h.listed hj
    obtain ⟨head, next, ha, -⟩ := hq.append
    exact ⟨_, ha⟩
  once := h.called.once
  called := h.called.called
  uncalled := h.called.uncalled
  alone := h.called.alone
  noFault := h.locked.noFault
  awake := fun hn hh => by
    obtain ⟨i, hi⟩ := h.locked.awake hn hh
    refine ⟨i, hi, fun hs hd => ?_⟩
    rw [h.locked.left i hd] at hs
    cases hs
  stopped := fun hb i => ((h.locked.stopped hb).2 i).1

/-- A pool is sound all along every run, whatever the number of its workers and the size of its list. -/
theorem pool_sound (workSize : ℕ) (acts : List (Act n)) : Reached step Sound (init n workSize) acts :=
  reached_of_inv (fun _ _ _ => inv_step) (fun _ => Inv.sound) (inv_init workSize) acts

/-- A pool of no workers takes a job that nobody is there to do. -/
theorem no_worker_awake :
    ¬ ∀ n workSize acts (w : World n), exec step (init n workSize) acts = some w → w.head ≠ none →
      ∃ i, w.pc i ≠ .waiting := by
  intro h
  obtain ⟨i, -⟩ := h 0 1 [.addWork none] _ rfl (by decide)
  exact i.elim0

end World

end Tpool

end SabApp
