import SabApp.Bytes
import SabApp.UvcStreams

/-!
# Opening a stream of the UVC bridge (UvcNative.c)

`OpenStream` does without an entry until the server has answered, and then claims one: before it has a buffer and a
thread. A thread that cannot be started costs the entry, and a buffer that cannot be had is not noticed.
-/

namespace SabApp

namespace Uvc

/-- `pd_manager`, pointers as addresses. -/
structure PdEntry where
  used : Int32
  handle : Int32
  stream : Int32
  sock : Int32
  status : Int32
  pidFlag : Int32
  pid : ℕ
  buffer : Option ℕ
  param : ℕ

/-- `mPdManager` and the open descriptors. -/
structure StreamTable where
  mPdManager : Fin 2 → PdEntry
  fds : List Int32

/-- What the calls in `OpenStream` return; `answer` is what `read` finds, nothing where it fails. -/
structure OpenCalls where
  socket : Int32
  inetPton : Int32
  setsockopt : Int32
  connect : Int32
  write : Int32
  poll : Int32
  answer : List UInt8
  malloc : Option ℕ
  pthreadCreate : Int32
  pid : ℕ

/-- `rmsg.res` of a `pd_msg_t` of 12 bytes; it is -1 where the answer does not reach. -/
def rmsgRes (answer : List UInt8) : Int32 :=
  let rmsg := answer.take 12
  .ofNat (word32 (rmsg ++ (List.replicate 12 255).drop rmsg.length) 8)

namespace StreamTable

def getManagerUnused (t : StreamTable) : Option (Fin 2) := (List.finRange 2).find? fun k => (t.mPdManager k).used = 0

/-- `shutdown` and `close`. -/
def closeSock (t : StreamTable) (sock : Int32) : StreamTable := { t with fds := t.fds.filter fun fd => fd ≠ sock }

def put (t : StreamTable) (k : Fin 2) (e : PdEntry) : StreamTable := { t with mPdManager := Function.update t.mPdManager k e }

end StreamTable

/-- The entry when `pthread_create` has returned. -/
def PdEntry.claimed (e : PdEntry) (param : ℕ) (c : OpenCalls) : PdEntry :=
  { e with used := 1, pidFlag := 1, buffer := c.malloc, param, pid := c.pid }

def OpenStream (stream : Int32) (param : ℕ) (c : OpenCalls) (t : StreamTable) : Int32 × StreamTable :=
  if c.socket = -1 then (-1, t)
  else
    let t := { t with fds := c.socket :: t.fds }
    if c.inetPton ≤ 0 then (-1, t.closeSock c.socket)
    else if c.setsockopt ≠ 0 then (-1, t.closeSock c.socket)
    else if c.connect < 0 then (-1, t.closeSock c.socket)
    else if c.write < 0 then (-1, t.closeSock c.socket)
    else if c.poll ≤ 0 then (-1, t.closeSock c.socket)
    else if rmsgRes c.answer ≠ 0 then (-1, t.closeSock c.socket)
    else match t.getManagerUnused with
      | none => (-1, t.closeSock c.socket)
      | some k =>
        let e := (t.mPdManager k).claimed param c
        -- the buffer is freed, and the entry still points to it
        if c.pthreadCreate ≠ 0 then (-1, (t.closeSock c.socket).put k e)
        else (Int32.ofNat k, t.put k { e with sock := c.socket, stream, handle := Int32.ofNat k, status := 0 })

/-- The steps that can fail, in their order. -/
inductive OpenStep where
  | socket
  | address
  | option
  | connect
  | request
  | poll
  | answer
  | slot
  | allocation
  | thread
  deriving DecidableEq

/-- The step before the search for an entry that fails. -/
def refusal (c : OpenCalls) : Option OpenStep :=
  if c.socket = -1 then some .socket
  else if c.inetPton ≤ 0 then some .address
  else if c.setsockopt ≠ 0 then some .option
  else if c.connect < 0 then some .connect
  else if c.write < 0 then some .request
  else if c.poll ≤ 0 then some .poll
  else if rmsgRes c.answer ≠ 0 then some .answer
  else none

def failing (c : OpenCalls) (t : StreamTable) : Option OpenStep :=
  match refusal c with
  | some s => some s
  | none =>
    if t.getManagerUnused = none then some .slot
    else if c.malloc = none then some .allocation
    else if c.pthreadCreate ≠ 0 then some .thread
    else none

/-- The table is as it was, the socket is closed, and the next call takes the entry that this one would have. -/
structure Undone (t : StreamTable) (sock : Int32) (t' : StreamTable) : Prop where
  table : t'.mPdManager = t.mPdManager
  closed : sock ≠ -1 → sock ∉ t'.fds
  next : t'.getManagerUnused = t.getManagerUnused

variable {t : StreamTable} {c : OpenCalls}

theorem undone_closeSock (t : StreamTable) (sock : Int32) (fds : List Int32) :
    Undone t sock (({ t with fds } : StreamTable).closeSock sock) := by
  refine ⟨rfl, fun _ h => ?_, rfl⟩
  exact absurd rfl (of_decide_eq_true (List.mem_filter.mp h).2)

theorem used_of_getManagerUnused {k : Fin 2} (h : t.getManagerUnused = some k) : (t.mPdManager k).used = 0 := by
  simpa using List.find?_some h

/-- An entry that is used now was not before. -/
theorem not_undone {k : Fin 2} (h : t.getManagerUnused = some k) {sock : Int32} {t' : StreamTable}
    (hk : (t'.mPdManager k).used = 1) : ¬ Undone t sock t' := by
  intro hu
  rw [hu.table, used_of_getManagerUnused h] at hk
  exact absurd hk (by decide)

/-- Up to the search for an entry, the socket is all there is to give back. -/
theorem openStream_refused {s : OpenStep} (h : refusal c = some s) (stream : Int32) (param : ℕ) :
    OpenStream stream param c t = if c.socket = -1 then (-1, t)
      else (-1, ({ t with fds := c.socket :: t.fds } : StreamTable).closeSock c.socket) := by
  unfold refusal at h
  unfold OpenStream
  split at h
  · next hs => rw [if_pos hs, if_pos hs]
  next hs =>
  rw [if_neg hs, if_neg hs]
  dsimp only
  iterate 6
    split at h
    · next hc => rw [if_pos hc]
    rename_i hc
    rw [if_neg hc]
  cases h

theorem undone_refused {s : OpenStep} (h : refusal c = some s) (stream : Int32) (param : ℕ) :
    (OpenStream stream param c t).1 = -1 ∧ Undone t c.socket (OpenStream stream param c t).2 := by
  rw [openStream_refused h]
  split
  · next hs => exact ⟨rfl, rfl, fun hn => absurd hs hn, rfl⟩
  · exact ⟨rfl, undone_closeSock t c.socket _⟩

/-- With the server's answer, the entry that is free is claimed. -/
theorem openStream_answered (h : refusal c = none) (stream : Int32) (param : ℕ) :
    OpenStream stream param c t = match t.getManagerUnused with
      | none => (-1, ({ t with fds := c.socket :: t.fds } : StreamTable).closeSock c.socket)
      | some k =>
        if c.pthreadCreate ≠ 0 then
          (-1, (({ t with fds := c.socket :: t.fds } : StreamTable).closeSock c.socket).put k ((t.mPdManager k).claimed param c))
        else (Int32.ofNat k, ({ t with fds := c.socket :: t.fds } : StreamTable).put k
          { (t.mPdManager k).claimed param c with sock := c.socket, stream, handle := Int32.ofNat k, status := 0 }) := by
  unfold refusal at h
  unfold OpenStream
  split at h
  · cases h
  next hs =>
  rw [if_neg hs]
  dsimp only
  iterate 6
    split at h
    · cases h
    rename_i hc
    rw [if_neg hc]
  rfl

theorem openStream_claims (h : refusal c = none) {k : Fin 2} (hk : t.getManagerUnused = some k) (stream : Int32) (param : ℕ) :
    ((OpenStream stream param c t).2.mPdManager k).used = 1 := by
  have hput (t : StreamTable) (e : PdEntry) : ((t.put k e).mPdManager k).used = e.used := by
    show (Function.update t.mPdManager k e k).used = e.used
    rw [Function.update_self]
  rw [openStream_answered h, hk]
  dsimp only
  split <;> exact hput ..

theorem refusal_ne {s : OpenStep} (h : refusal c = some s) : s ≠ .allocation ∧ s ≠ .thread := by
  unfold refusal at h
  iterate 7
    split at h
    · cases h
      exact ⟨nofun, nofun⟩
  cases h

theorem id_not_neg (k : Fin 2) : ¬ Int32.ofNat k < 0 := by revert k; decide

/-- A call that fails does so at one of the steps, and a buffer that is missing is no failure. -/
theorem fails_iff (stream : Int32) (param : ℕ) (c : OpenCalls) (t : StreamTable) : (OpenStream stream param c t).1 < 0 ↔
    ∃ s, failing c t = some s ∧ (s = .allocation → c.pthreadCreate ≠ 0) := by
  cases hr : refusal c with
  | some s =>
    rw [(undone_refused hr stream param).1, failing, hr]
    exact iff_of_true (by decide) ⟨s, rfl, fun h => absurd h (refusal_ne hr).1⟩
  | none =>
    rw [openStream_answered hr, failing, hr]
    cases hk : t.getManagerUnused with
    | none => exact iff_of_true (show (-1 : Int32) < 0 by decide) ⟨.slot, rfl, nofun⟩
    | some k =>
      dsimp only
      rw [if_neg (Option.some_ne_none k)]
      by_cases hp : c.pthreadCreate ≠ 0
      · rw [if_pos hp]
        refine iff_of_true (show (-1 : Int32) < 0 by decide) ?_
        split
        · exact ⟨.allocation, rfl, fun _ => hp⟩
        · exact ⟨.thread, rfl, nofun⟩
      · rw [if_neg hp, if_neg hp]
        refine iff_of_false (id_not_neg k) ?_
        rintro ⟨s, hs, hsp⟩
        split at hs <;> cases hs
        exact hp (hsp rfl)

theorem undone_iff {s : OpenStep} (hs : failing c t = some s) (stream : Int32) (param : ℕ) :
    Undone t c.socket (OpenStream stream param c t).2 ↔ s ≠ .allocation ∧ s ≠ .thread := by
  unfold failing at hs
  cases hr : refusal c with
  | some s' =>
    rw [hr] at hs
    cases hs
    exact iff_of_true (undone_refused hr stream param).2 (refusal_ne hr)
  | none =>
    simp only [hr] at hs
    cases hk : t.getManagerUnused with
    | none =>
      rw [if_pos hk] at hs
      cases hs
      rw [openStream_answered hr, hk]
      exact iff_of_true (undone_closeSock t c.socket _) ⟨nofun, nofun⟩
    | some k =>
      rw [if_neg (hk ▸ Option.some_ne_none k)] at hs
      refine iff_of_false (not_undone hk (openStream_claims hr hk stream param)) fun hne => ?_
      split_ifs at hs <;> cases hs
      · exact hne.1 rfl
      · exact hne.2 rfl

/-- **A failed open.** The call leaves the table as it was, with its socket closed, if and only if what failed is neither
the allocation, which it does not notice, nor the thread. -/
theorem failed_open_undone_iff {s : OpenStep} (hs : failing c t = some s) (stream : Int32) (param : ℕ) :
    (Undone t c.socket (OpenStream stream param c t).2 ↔ s ≠ .allocation ∧ s ≠ .thread) ∧
      ((OpenStream stream param c t).1 < 0 ↔ (s = .allocation → c.pthreadCreate ≠ 0)) := by
  refine ⟨undone_iff hs stream param, (fails_iff stream param c t).trans ⟨?_, fun h => ⟨s, hs, h⟩⟩⟩
  rintro ⟨s', hs', h⟩
  cases hs.symm.trans hs'
  exact h

def closedTable : StreamTable := ⟨fun _ => ⟨0, 0, 0, 0, 0, 0, 0, none, 0⟩, [0, 1, 2]⟩

/-- Socket 3 on a server that accepts. -/
def accepted (malloc : Option ℕ) (pthreadCreate : Int32) : OpenCalls :=
  ⟨3, 1, 0, 0, 12, 1, List.replicate 12 0, malloc, pthreadCreate, 1⟩

theorem failed_open_undone : Undone closedTable 3 (OpenStream 0 0 { accepted (some 4096) 0 with connect := -1 } closedTable).2 :=
  (failed_open_undone_iff (c := { accepted (some 4096) 0 with connect := -1 }) (t := closedTable) (s := .connect) rfl 0 0).1.mpr
    ⟨nofun, nofun⟩

/-- EAGAIN from `pthread_create`. -/
theorem failed_open_claims : (OpenStream 0 0 (accepted (some 4096) 11) closedTable).1 = -1 ∧
    ¬ Undone closedTable 3 (OpenStream 0 0 (accepted (some 4096) 11) closedTable).2 :=
  ⟨rfl, fun h => (undone_iff (c := accepted (some 4096) 11) (s := .thread) rfl 0 0 |>.mp h).2 rfl⟩

/-! ## The stream table -/

/-- The entry as the table of the streams has it. -/
def PdEntry.seen (e : PdEntry) : PdManager := ⟨e.used ≠ 0, e.sock, e.status⟩

def OpenCalls.outcome (c : OpenCalls) : Outcome :=
  if (refusal c).isSome then .refused
  else if c.pthreadCreate ≠ 0 then .noThread c.malloc.isSome
  else .up c.socket c.malloc.isSome

theorem closeSock_opened {sock : Int32} (h : sock ∉ t.fds) :
    ({ t with fds := sock :: t.fds } : StreamTable).closeSock sock = t := by
  have hfds : (sock :: t.fds).filter (fun fd => fd ≠ sock) = t.fds := by
    rw [List.filter_cons_of_neg (by simp), List.filter_eq_self.mpr]
    exact fun fd hfd => decide_eq_true fun he => h (he ▸ hfd)
  exact congrArg (StreamTable.mk t.mPdManager) hfds

theorem seen_put (t : StreamTable) (k : Fin 2) (e : PdEntry) : (fun j => ((t.put k e).mPdManager j).seen) =
    Function.update (fun j => (t.mPdManager j).seen) k e.seen := by
  funext j
  rcases eq_or_ne j k with rfl | hj
  · simp [StreamTable.put]
  · simp [StreamTable.put, hj]

theorem getManagerUnused_seen {b : Bridge} (hm : b.mPdManager = fun k => (t.mPdManager k).seen) :
    b.getManagerUnused = t.getManagerUnused := by
  unfold Bridge.getManagerUnused StreamTable.getManagerUnused
  rw [hm]
  congr 1
  funext k
  simp [PdEntry.seen]

/-- Each call does to the table of the streams what its outcome does. -/
theorem openStream_seen {b : Bridge} (hm : b.mPdManager = fun k => (t.mPdManager k).seen) (hf : b.fds = t.fds)
    (hsock : c.socket ≠ -1 → 0 ≤ c.socket ∧ c.socket ∉ t.fds) (stream : Int32) (param : ℕ) :
    ∃ b', b.openStream c.outcome = some ((OpenStream stream param c t).1, b') ∧
      b'.mPdManager = (fun k => ((OpenStream stream param c t).2.mPdManager k).seen) ∧
      b'.fds = (OpenStream stream param c t).2.fds := by
  have hunused := getManagerUnused_seen hm
  cases hr : refusal c with
  | some s =>
    have hback : OpenStream stream param c t = (-1, t) := by
      rw [openStream_refused hr]
      split
      · rfl
      · next hs => rw [closeSock_opened (hsock hs).2]
    rw [hback, OpenCalls.outcome, hr]
    exact ⟨b, rfl, hm, hf⟩
  | none =>
    have hs : c.socket ≠ -1 := by
      intro h
      rw [refusal, if_pos h] at hr
      cases hr
    obtain ⟨h0, hnew⟩ := hsock hs
    rw [openStream_answered hr, OpenCalls.outcome, hr, closeSock_opened hnew]
    simp only [Option.isSome_none, Bool.false_eq_true, if_false]
    by_cases hp : c.pthreadCreate ≠ 0
    · rw [if_pos hp]
      simp only [Bridge.openStream, hunused]
      cases hk : t.getManagerUnused with
      | none => exact ⟨b, rfl, hm, hf⟩
      | some k =>
        simp only [if_pos hp]
        refine ⟨_, rfl, ?_, hf⟩
        rw [seen_put]
        simp only [Bridge.claim, hm]
        rfl
    · rw [if_neg hp]
      have hopen : ¬ (c.socket < 0 ∨ c.socket ∈ b.fds) := by
        rw [hf, not_or, Int32.not_lt]
        exact ⟨h0, hnew⟩
      simp only [Bridge.openStream, if_neg hopen, hunused]
      cases hk : t.getManagerUnused with
      | none => exact ⟨b, rfl, hm, hf⟩
      | some k =>
        simp only [if_neg hp]
        refine ⟨_, rfl, ?_, congrArg (c.socket :: ·) hf⟩
        rw [seen_put]
        simp only [Bridge.claim, hm]
        rfl

end Uvc

end SabApp
