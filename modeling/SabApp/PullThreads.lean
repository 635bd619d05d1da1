import Mathlib.Algebra.Group.Int.Defs
import Mathlib.Algebra.GroupWithZero.Nat
import Mathlib.Data.Int.Basic
import Mathlib.Logic.Function.Basic
import SabApp.Pools

/-!
# The threads of the pull streams (PullStream.c)

`openStream` connects a socket, takes the first unused entry of `scMng` for it, starts a `PullThread` on the
entry and only then writes the socket and the handle into it. `closeStream` looks its entry up by the handle,
closes the socket and frees the buffer; `pid_flag`, for which the thread loops, is never reset, and the thread
tests `used` and `buffer` in the first entry of the table, whichever is its own.

A step of a process is one access to what the processes share, or one call to the system. It is `none`
where the process is aborted by a null pointer or a block freed twice.
-/

namespace SabApp

namespace PullStream

/-- NET_VIDEO_BUF -/
def netVideoBuf : ℕ := 800 * 1024

/-- The size of `ptc_frame_head_t`. -/
def headLen : ℕ := 32

/-- The numerals of `Fin 2` in this table share it. -/
scoped instance instNeZeroTwo : NeZero 2 := ⟨by decide⟩

/-- `sc_mng`. A buffer is the number of its block, `param` an entry of `av`. -/
structure ScMng where
  used : Bool
  handle : ℤ
  stream : ℤ
  sock : ℕ
  status : ℤ
  pidFlag : Bool
  buffer : Option ℕ
  param : Option (Fin 2)
  deriving DecidableEq

/-- Whose socket an open descriptor is: of a call that has no entry yet, or of the `gen`-th stream in an entry. -/
inductive Owner where
  | opening
  | stream (k : Fin 2) (gen : ℕ)
  deriving DecidableEq

/-- The tables, `av` by its handles, the open descriptors and the allocated blocks. `gen` counts how often an entry was
taken. -/
structure Shared where
  scMng : Fin 2 → ScMng
  av : Fin 2 → ℤ
  fds : ℕ → Option Owner
  live : List ℕ
  gen : Fin 2 → ℕ

/-- What a call to the system comes to. A number is a descriptor, a block or the length in the head of a frame; an idle call
is a poll that runs out of time, or a receive that brings only a part. -/
inductive Outcome where
  | failed
  | idle
  | ok
  | number (n : ℕ)
  deriving DecidableEq

/-- Where `closeStream` stands; `a` and `m` are what it found in `av` and `scMng`. -/
inductive ClosePc where
  | findAv (j : Fin 2)
  | findSc (a : Option (Fin 2)) (j : Fin 2)
  | write (a m : Fin 2)
  | closeFd (a m : Fin 2)
  | shutFd (a m : Fin 2)
  | freeBuf (a m : Fin 2)
  | nullBuf (a m : Fin 2)
  | unuse (a m : Fin 2)
  | avFree (a : Fin 2)
  | done
  deriving DecidableEq

/-- Where `PullThread` stands; a receive has its descriptor, its block and, after the head, the length that is to come. -/
inductive ThreadPc where
  | top
  | testUsed
  | testBuffer
  | head
  | recvHead (sock : ℕ) (buffer : Option ℕ)
  | body
  | recvBody (sock buffer len : ℕ)
  | callback
  | giveUp
  | closing (id : ℤ) (pc : ClosePc)
  | ended
  deriving DecidableEq

/-- Where `openStream` stands, with the entry of `av`, the socket, the entry of `scMng` with how often it was taken, and
its row before that. -/
inductive OpenPc where
  | findFree (j : Fin 2)
  | socket (a : Fin 2)
  | connect (a : Fin 2) (sock : ℕ)
  | search (a : Fin 2) (sock : ℕ) (j : Fin 2)
  | take (a : Fin 2) (sock : ℕ) (k : Fin 2)
  | malloc (a : Fin 2) (sock : ℕ) (k : Fin 2) (gen : ℕ) (before : ScMng)
  | create (a : Fin 2) (sock : ℕ) (k : Fin 2) (gen : ℕ) (before : ScMng)
  | undo (k : Fin 2) (before : ScMng)
  | setSock (a : Fin 2) (sock : ℕ) (k : Fin 2)
  | setHandle (a k : Fin 2)
  | setAv (a k : Fin 2)
  | opened (k : Fin 2)
  | failed
  deriving DecidableEq

inductive Proc where
  | openStream (ch : ℤ) (pc : OpenPc)
  | closeStream (id : ℤ) (pc : ClosePc)
  | pullThread (k : Fin 2) (gen : ℕ) (pc : ThreadPc)
  deriving DecidableEq

namespace Shared

def setRow (s : Shared) (k : Fin 2) (r : ScMng) : Shared := { s with scMng := Function.update s.scMng k r }

/-- `close` -/
def close (s : Shared) (f : ℕ) : Shared := { s with fds := Function.update s.fds f none }

/-- `free`, of a null pointer too. -/
def free (s : Shared) : Option ℕ → Option Shared
  | none => some s
  | some b => if b ∈ s.live then some { s with live := s.live.erase b } else none

/-- The descriptor is from now on the socket of a stream. -/
def adopt (s : Shared) (f : ℕ) (k : Fin 2) : Shared :=
  { s with
    fds := Function.update s.fds f ((s.fds f).map fun _ => .stream k (s.gen k + 1))
    gen := Function.update s.gen k (s.gen k + 1) }

def closeStream (s : Shared) (id : ℤ) : ClosePc → Option (Shared × ClosePc)
  | .findAv j => some (s, if s.av j = id then .findSc (some j) 0 else if j = 0 then .findAv 1 else .findSc none 0)
  | .findSc a j =>
    if (s.scMng j).handle = id then
      match a with
      | some a => some (s, .write a j)
      | none => some (s, .done)
    else if j = 0 then some (s, .findSc a 1)
    else some (s, .done)
  | .write a m => some (s, .closeFd a m)
  | .closeFd a m => some (s.close (s.scMng m).sock, .shutFd a m)
  -- the number may be another socket's by now
  | .shutFd a m => some (s, .freeBuf a m)
  | .freeBuf a m => (s.free (s.scMng m).buffer).map fun t =>
      (t, if (s.scMng m).buffer.isSome then .nullBuf a m else .unuse a m)
  | .nullBuf a m => some (s.setRow m { s.scMng m with buffer := none }, .unuse a m)
  | .unuse a m => some (s.setRow m { s.scMng m with status := -1, used := false }, .avFree a)
  | .avFree a => some ({ s with av := Function.update s.av a (-1) }, .done)
  | .done => some (s, .done)

/-- `openStream` with `sendPullMsg`; the threads that it starts are listed. -/
def openStream (s : Shared) (ch : ℤ) : OpenPc → Outcome → Option (Shared × OpenPc × List Proc)
  | .findFree j, _ => some (s, if s.av j < 0 then .socket j else if j = 0 then .findFree 1 else .failed, [])
  | .socket a, .number f =>
    if s.fds f = none then some ({ s with fds := Function.update s.fds f (some .opening) }, .connect a f, [])
    else some (s, .socket a, [])
  | .socket _, _ => some (s, .failed, [])
  -- all that comes before the answer to the request
  | .connect _ f, .failed => some (s.close f, .failed, [])
  | .connect a f, _ => some (s, .search a f 0, [])
  | .search a f j, _ =>
    if (s.scMng j).used = false then some (s, .take a f j, [])
    else if j = 0 then some (s, .search a f 1, [])
    else some (s.close f, .failed, [])
  | .take a f k, _ =>
    some ((s.adopt f k).setRow k { s.scMng k with used := true, pidFlag := true },
      .malloc a f k (s.gen k + 1) (s.scMng k), [])
  | .malloc a f k g r, .number b =>
    if b ∈ s.live then some (s, .malloc a f k g r, [])
    else
      some ({ s.setRow k { s.scMng k with buffer := some b, param := some a } with live := b :: s.live },
        .create a f k g r, [])
  | .malloc a f k g r, _ =>
    some (s.setRow k { s.scMng k with buffer := none, param := some a }, .create a f k g r, [])
  | .create _ f k _ r, .failed => some (s.close f, .undo k r, [])
  | .create a f k g _, _ => some (s, .setSock a f k, [.pullThread k g .top])
  -- `used` stays set, and the pointer to the buffer
  | .undo k _, _ => (s.free (s.scMng k).buffer).map fun t => (t, .failed, [])
  | .setSock a f k, _ => some (s.setRow k { s.scMng k with sock := f }, .setHandle a k, [])
  | .setHandle a k, _ =>
    some (s.setRow k { s.scMng k with stream := ch, handle := k.val, status := 0 }, .setAv a k, [])
  | .setAv a k, _ => some ({ s with av := Function.update s.av a k.val }, .opened k, [])
  | .opened k, _ => some (s, .opened k, [])
  | .failed, _ => some (s, .failed, [])

end Shared

/-- `PullThread` up to its `closeStream`, on the entry `own`; the tests of `used` and `buffer` look at `tested`. -/
def pullThread (tested own : ScMng) : ThreadPc → Outcome → Option ThreadPc
  | .top, o =>
    if own.pidFlag then
      match o with
      | .failed => some .giveUp
      | .idle => some .top
      | _ => some .testUsed
    else some .ended
  | .testUsed, _ => some (if tested.used then .testBuffer else .top)
  | .testBuffer, _ => some (if tested.buffer.isSome then .head else .top)
  | .head, _ => some (.recvHead own.sock own.buffer)
  | .recvHead _ none, _ => some .giveUp
  | .recvHead _ (some _), .failed => some .giveUp
  | .recvHead f (some b), .idle => some (.recvHead f (some b))
  | .recvHead _ (some _), _ => some .body
  | .body, .number len =>
    match own.buffer with
    | none => none
    | some b =>
      if len < 2 ^ 31 then some (.recvBody own.sock b len)
      -- a negative length: `recvBuf` returns 0
      else if len < 2 ^ 32 then some .giveUp
      else some .body
  | .body, _ => own.buffer.map fun _ => .body
  | .recvBody _ _ _, .failed => some .giveUp
  | .recvBody f b len, .idle => some (.recvBody f b len)
  | .recvBody _ _ _, _ => some .callback
  | .callback, _ => some .top
  | .giveUp, _ => some (.closing own.handle (.findAv 0))
  | .closing id pc, _ => some (.closing id pc)
  | .ended, _ => some .ended

/-- The thread ends with its `closeStream`. -/
def ThreadPc.close (id : ℤ) : ClosePc → ThreadPc
  | .done => .ended
  | pc => .closing id pc

def react (s : Shared) : Proc → Outcome → Option (Shared × Proc × List Proc)
  | .openStream ch pc, o => (s.openStream ch pc o).map fun r => (r.1, .openStream ch r.2.1, r.2.2)
  | .closeStream id pc, _ => (s.closeStream id pc).map fun r => (r.1, .closeStream id r.2, [])
  | .pullThread k g (.closing id pc), _ => (s.closeStream id pc).map fun r => (r.1, .pullThread k g (.close id r.2), [])
  -- `scMng->used` and `scMng->buffer` are in the first entry
  | .pullThread k g pc, o => (pullThread (s.scMng 0) (s.scMng k) pc o).map fun q => (s, .pullThread k g q, [])

inductive Act where
  | openStream (ch : ℤ)
  | closeStream (id : ℤ)
  | run (i : ℕ) (o : Outcome)

abbrev World := Pool Shared Proc

namespace World

def step (w : World) : Act → Option World
  | .openStream ch => some (w.spawn (.openStream ch (.findFree 0)))
  | .closeStream id => some (w.spawn (.closeStream id (.findAv 0)))
  | .run i o => w.run react i o

/-- After `StreamInit`. -/
def init : World where
  shared :=
    { scMng := fun _ => ⟨false, 0, 0, 0, 0, false, none, none⟩
      av := fun _ => -1
      fds := fun _ => none
      live := []
      gen := fun _ => 0 }
  procs := []

end World

end PullStream

end SabApp
