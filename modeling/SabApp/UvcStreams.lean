import Mathlib.Data.List.FinRange
import SabApp.Ledger
import SabApp.Runs

/-!
# Stream table of the UVC bridge (UvcNative.c)

`OpenStream` claims an entry of `mPdManager`, and `CloseStream` gives up the entry a stream id names: it tests the
id against the table with `>`, then the entry's `status`, which is 0 for an entry that was never used, and it frees
the buffer where there is none. Where no thread can be started `OpenStream` leaves the entry used.
-/

namespace SabApp

namespace Uvc

/-- `pd_manager`; its buffer is in the ledger. -/
structure PdManager where
  used : Bool
  sock : Int32
  status : Int32

/-- The pointers to buffers: `buffer` of an entry of `mPdManager`, `audiobuf` and `tempbuf` of an `av_t`. -/
inductive Ptr where
  | buffer (k : Fin 2)
  | audiobuf (i : Fin 2)
  | tempbuf (i : Fin 2)
  deriving DecidableEq

/-- What is at the index `CloseStream` goes to. -/
inductive Target where
  | outside
  | entry (used : Bool)
  deriving DecidableEq

/-- What the calls in `OpenStream` come to, with the descriptor of the socket and whether `malloc` has a buffer. -/
inductive Outcome where
  | refused
  | noThread (buffer : Bool)
  | up (sock : Int32) (buffer : Bool)

/-- What the calls in `Open` come to. Without memory for a buffer `memset` faults, and the handler leaves `Open`. -/
inductive OpenOutcome where
  | noAudiobuf
  | noTempbuf
  | buffers (o : Outcome)

inductive Act where
  | openCall (o : OpenOutcome)
  | openStream (o : Outcome)
  | closeStream (id : Int32)
  | close (handle : Int32)

/-- The tables, `av` by its handles, with the open descriptors. `indexed` tells where `CloseStream` went on. -/
structure Bridge where
  mPdManager : Fin 2 → PdManager
  av : Fin 2 → Int32
  heap : Ledger Ptr
  fds : List Int32
  indexed : List Target

namespace Bridge

/-- After `Init`; `mPdManager` is as the program starts with it. -/
def init (fds : List Int32) : Bridge := ⟨fun _ => ⟨false, 0, 0⟩, fun _ => -1, .empty, fds, []⟩

/-- The entry a stream id is the index of. -/
def entry (id : Int32) : Option (Fin 2) := (List.finRange 2).find? fun k => Int32.ofNat k = id

/-- `CloseStream`. The buffer is freed only where it is `NULL`, so never. -/
def closeStream (b : Bridge) (id : Int32) : Bridge :=
  if id < 0 ∨ 2 < id then b
  else
    match entry id with
    | none => { b with indexed := .outside :: b.indexed }
    | some k =>
      let m := b.mPdManager k
      if m.status = -1 then b
      else { b with mPdManager := Function.update b.mPdManager k { m with used := false, status := -1 }
                    fds := b.fds.filter fun fd => fd ≠ m.sock
                    indexed := .entry m.used :: b.indexed }

def getManagerUnused (b : Bridge) : Option (Fin 2) := (List.finRange 2).find? fun k => !(b.mPdManager k).used

/-- What `OpenStream` writes to the entry it takes. -/
def claim (b : Bridge) (k : Fin 2) (sock status : Int32) (buffer : Bool) : Bridge :=
  { b with mPdManager := Function.update b.mPdManager k ⟨true, sock, status⟩, heap := b.heap.malloc (.buffer k) buffer }

/-- `OpenStream`. A descriptor that is open is not given to a new socket. -/
def openStream (b : Bridge) : Outcome → Option (Int32 × Bridge)
  | .refused => some (-1, b)
  | .noThread buffer =>
    match b.getManagerUnused with
    | none => some (-1, b)
    | some k =>
      -- the entry stays used, with the socket and the status it had; the socket that was opened is closed
      let b := b.claim k (b.mPdManager k).sock (b.mPdManager k).status buffer
      some (-1, { b with heap := b.heap.free (.buffer k) })
  | .up sock buffer =>
    if sock < 0 ∨ sock ∈ b.fds then none
    else
      match b.getManagerUnused with
      | none => some (-1, b)
      | some k => some (Int32.ofNat k, { b.claim k sock 0 buffer with fds := sock :: b.fds })

def freeAv (b : Bridge) (i : Fin 2) : Bridge := { b with heap := (b.heap.release (.audiobuf i)).release (.tempbuf i) }

/-- `Open`. -/
def openCall (b : Bridge) (o : OpenOutcome) : Option Bridge :=
  match (List.finRange 2).find? fun i => b.av i < 0 with
  | none => some b
  | some i =>
    let b := b.freeAv i
    match o with
    | .noAudiobuf => some { b with heap := b.heap.malloc (.audiobuf i) false }
    | .noTempbuf => some { b with heap := (b.heap.malloc (.audiobuf i) true).malloc (.tempbuf i) false }
    | .buffers o =>
      let b := { b with heap := (b.heap.malloc (.audiobuf i) true).malloc (.tempbuf i) true }
      (b.openStream o).map fun (handle, b) =>
        if handle < 0 then b.freeAv i else { b with av := Function.update b.av i handle }

def close (b : Bridge) (handle : Int32) : Bridge :=
  let b := b.closeStream handle
  match (List.finRange 2).find? fun i => b.av i = handle with
  | none => b
  | some i => { b.freeAv i with av := Function.update b.av i (-1) }

def step (b : Bridge) : Act → Option Bridge
  | .openCall o => b.openCall o
  | .openStream o => (b.openStream o).map Prod.snd
  | .closeStream id => some (b.closeStream id)
  | .close handle => some (b.close handle)

/-- The buffer of an entry of `mPdManager` is held while the entry is used. -/
def Holds (b : Bridge) : Ptr → Prop
  | .buffer k => (b.mPdManager k).used = true
  | _ => True

/-- No two used entries have the same socket. -/
def Apart (m : Fin 2 → PdManager) : Prop :=
  ∀ i j, i ≠ j → (m i).used = true → (m j).used = true → 0 ≤ (m i).sock → (m i).sock ≠ (m j).sock

/-- The stream table is sound: used entries have sockets of their own, `CloseStream` went on with used entries only,
no buffer was freed twice, and every buffer that was not freed is held. -/
structure Sound (b : Bridge) : Prop where
  sockets : Apart b.mPdManager
  indexed : ∀ t ∈ b.indexed, t = .entry true
  once : b.heap.freed.Nodup
  kept : b.heap.Kept b.Holds

/-! ## Guards -/

/-- No used entry has the socket. -/
def Free (b : Bridge) (sock : Int32) : Prop := ∀ j, (b.mPdManager j).used = true → (b.mPdManager j).sock ≠ sock

instance (b : Bridge) (sock : Int32) : Decidable (b.Free sock) :=
  inferInstanceAs (Decidable (∀ j, (b.mPdManager j).used = true → (b.mPdManager j).sock ≠ sock))

/-- `CloseStream` names an entry that was closed before, or one in use whose buffer is not. -/
def MayClose (b : Bridge) (id : Int32) : Prop :=
  id < 0 ∨ 2 < id ∨ ∃ k, entry id = some k ∧
    ((b.mPdManager k).status = -1 ∨ (b.mPdManager k).used = true ∧ ¬ b.heap.Live (.buffer k))

instance (b : Bridge) (id : Int32) : Decidable (b.MayClose id) := inferInstanceAs (Decidable (_ ∨ _ ∨ _))

/-- The entry `OpenStream` takes comes to no socket that a used entry has. -/
def MayOpen (b : Bridge) : Outcome → Prop
  | .refused => True
  | .noThread _ => ∀ k, b.getManagerUnused = some k → 0 ≤ (b.mPdManager k).sock → b.Free (b.mPdManager k).sock
  | .up sock _ => ¬ (sock < 0 ∨ sock ∈ b.fds) → b.getManagerUnused ≠ none → b.Free sock

/-- The guard. -/
def Within (b : Bridge) : Act → Prop
  | .openCall (.buffers o) => (∃ i, b.av i < 0) → b.MayOpen o
  | .openCall _ => True
  | .openStream o => b.MayOpen o
  | .closeStream id => b.MayClose id
  | .close handle => b.MayClose handle

/-! ## Blocks -/

/-- The ledger is lawful, and the buffers of `av` are in use. -/
structure Lawful (b : Bridge) : Prop where
  heap : b.heap.Lawful
  audiobuf : ∀ i, b.heap.Unfreed (.audiobuf i)
  tempbuf : ∀ i, b.heap.Unfreed (.tempbuf i)

theorem Lawful.of_heap {b c : Bridge} (h : b.Lawful) (hh : c.heap = b.heap) : c.Lawful := by
  refine ⟨?_, fun i => ?_, fun i => ?_⟩
  · exact hh ▸ h.heap
  · exact hh ▸ h.audiobuf i
  · exact hh ▸ h.tempbuf i

theorem heap_closeStream (b : Bridge) (id : Int32) : (b.closeStream id).heap = b.heap := by
  unfold closeStream
  split
  · rfl
  · split
    · rfl
    · dsimp only
      split <;> rfl

theorem lawful_malloc {b : Bridge} (h : b.Lawful) (p : Ptr) (ok : Bool) :
    ({ b with heap := b.heap.malloc p ok } : Bridge).Lawful :=
  ⟨h.heap.malloc ok, fun i => (h.audiobuf i).malloc h.heap ok, fun i => (h.tempbuf i).malloc h.heap ok⟩

theorem lawful_freeAv {b : Bridge} (h : b.Lawful) (i : Fin 2) : (b.freeAv i).Lawful := by
  have ha := h.heap.release (h.audiobuf i)
  have ht := (h.tempbuf i).release (p := .audiobuf i) h.heap
  exact ⟨ha.release ht, fun j => ((h.audiobuf j).release h.heap).release ha,
    fun j => ((h.tempbuf j).release h.heap).release ha⟩

theorem lawful_claim {b : Bridge} (h : b.Lawful) (k : Fin 2) (sock status : Int32) (buffer : Bool) :
    (b.claim k sock status buffer).Lawful := (lawful_malloc h (.buffer k) buffer).of_heap rfl

theorem lawful_openStream {b c : Bridge} {o : Outcome} {handle : Int32} (h : b.Lawful)
    (ho : b.openStream o = some (handle, c)) : c.Lawful := by
  cases o with
  | refused =>
    cases ho
    exact h
  | noThread buffer =>
    simp only [openStream] at ho
    split at ho <;> cases ho
    · exact h
    · next k _ =>
      have hc := lawful_claim h k (b.mPdManager k).sock (b.mPdManager k).status buffer
      have hu : (b.claim k (b.mPdManager k).sock (b.mPdManager k).status buffer).heap.Unfreed (.buffer k) :=
        Ledger.unfreed_malloc h.heap buffer
      exact ⟨hc.heap.free hu, fun i => (hc.audiobuf i).free hc.heap nofun, fun i => (hc.tempbuf i).free hc.heap nofun⟩
  | up sock buffer =>
    simp only [openStream] at ho
    split at ho
    · cases ho
    · split at ho <;> cases ho
      · exact h
      · exact (lawful_claim h _ sock 0 buffer).of_heap rfl

theorem lawful_step {b c : Bridge} {a : Act} (h : b.Lawful) (hs : step b a = some c) : c.Lawful := by
  cases a with
  | openCall o =>
    simp only [step, openCall] at hs
    split at hs
    · cases hs
      exact h
    · next i _ =>
      have hf := lawful_freeAv h i
      have ha (ok : Bool) := lawful_malloc hf (.audiobuf i) ok
      cases o with
      | noAudiobuf =>
        cases hs
        exact ha false
      | noTempbuf =>
        cases hs
        exact lawful_malloc (ha true) (.tempbuf i) false
      | buffers o =>
        simp only [Option.map_eq_some_iff] at hs
        obtain ⟨⟨handle, d⟩, ho, hs⟩ := hs
        have hd := lawful_openStream (lawful_malloc (ha true) (.tempbuf i) true) ho
        dsimp only at hs
        split at hs <;> cases hs
        · exact lawful_freeAv hd i
        · exact hd.of_heap rfl
  | openStream o =>
    simp only [step, Option.map_eq_some_iff] at hs
    obtain ⟨⟨handle, d⟩, ho, rfl⟩ := hs
    exact lawful_openStream h ho
  | closeStream id =>
    cases hs
    exact h.of_heap (heap_closeStream b id)
  | close handle =>
    cases hs
    have hc := h.of_heap (heap_closeStream b handle)
    simp only [close]
    split
    · exact hc
    · exact (lawful_freeAv hc _).of_heap rfl

theorem lawful_init (fds : List Int32) : (init fds).Lawful :=
  ⟨Ledger.lawful_empty, fun _ _ h => (nomatch h), fun _ _ h => (nomatch h)⟩

/-- **No double free.** Whatever the calls and their outcomes, no buffer is freed twice. -/
theorem freed_once (fds : List Int32) (acts : List Act) :
    Reached step (fun b => b.heap.freed.Nodup) (init fds) acts :=
  reached_of_inv (fun _ _ _ => lawful_step) (fun _ h => h.heap.once)
    (lawful_init fds) acts

/-! ## The sound table -/

theorem Sound.of_table {b c : Bridge} (h : b.Sound) (hm : c.mPdManager = b.mPdManager) (hi : c.indexed = b.indexed)
    (hh : c.heap = b.heap) : c.Sound := by
  obtain ⟨m, av, heap, fds, indexed⟩ := c
  cases hm
  cases hi
  cases hh
  exact ⟨h.sockets, h.indexed, h.once, h.kept⟩

theorem sound_freeAv_iff {b : Bridge} (h : b.Lawful) (i : Fin 2) : (b.freeAv i).Sound ↔ b.Sound := by
  have hk : (b.freeAv i).heap.Kept b.Holds ↔ b.heap.Kept b.Holds :=
    (Ledger.kept_release_iff trivial).trans (Ledger.kept_release_iff trivial)
  refine ⟨fun hs => ?_, fun hs => ?_⟩
  · exact ⟨hs.sockets, hs.indexed, h.heap.once, hk.mp hs.kept⟩
  · exact ⟨hs.sockets, hs.indexed, (lawful_freeAv h i).heap.once, hk.mpr hs.kept⟩

theorem sound_malloc {b : Bridge} (hs : b.Sound) {p : Ptr} (hp : ¬ b.heap.Live p) (ho : b.Holds p) (ok : Bool) :
    ({ b with heap := b.heap.malloc p ok } : Bridge).Sound := by
  refine ⟨hs.sockets, hs.indexed, ?_, ?_⟩
  · simpa using hs.once
  · exact hs.kept.malloc hp ok ho fun _ _ h => h

theorem unused_of_getManagerUnused {b : Bridge} {k : Fin 2} (h : b.getManagerUnused = some k) :
    (b.mPdManager k).used = false := by
  simpa using List.find?_some h

theorem holds_update {b : Bridge} {k : Fin 2} {m : PdManager} {q : Ptr} (hq : q ≠ .buffer k) (h : b.Holds q) :
    ({ b with mPdManager := Function.update b.mPdManager k m } : Bridge).Holds q := by
  cases q with
  | buffer j =>
    have hj : j ≠ k := fun he => hq (he ▸ rfl)
    simpa [Holds, Function.update_of_ne hj] using h
  | _ => trivial

theorem sound_claim {b : Bridge} (h : b.Lawful) (hs : b.Sound) {k : Fin 2} (hk : (b.mPdManager k).used = false)
    {sock : Int32} (hf : 0 ≤ sock → b.Free sock) (status : Int32) (buffer : Bool) :
    (b.claim k sock status buffer).Sound := by
  have hn : ¬ b.Holds (.buffer k) := by simp [Holds, hk]
  refine ⟨fun i j hij hi hj h0 => ?_, hs.indexed, by simpa [claim] using hs.once, ?_⟩
  · by_cases hik : i = k
    · subst hik
      have hji : j ≠ i := fun he => hij he.symm
      simp only [claim, Function.update_self, Function.update_of_ne hji] at hj h0 ⊢
      exact fun he => hf h0 j hj he.symm
    · simp only [claim, Function.update_of_ne hik] at hi h0 ⊢
      by_cases hjk : j = k
      · subst hjk
        simp only [Function.update_self]
        exact fun he => hf (he ▸ h0) i hi he
      · simp only [claim, Function.update_of_ne hjk] at hj ⊢
        exact hs.sockets i j hij hi hj h0
  · refine hs.kept.malloc (h.heap.not_live hs.kept hn) buffer ?_ fun q hq => holds_update hq
    simp [Holds, claim]

theorem sound_openStream {b c : Bridge} {o : Outcome} {handle : Int32} (h : b.Lawful) (hs : b.Sound)
    (ha : b.MayOpen o) (ho : b.openStream o = some (handle, c)) : c.Sound := by
  have hl := lawful_openStream h ho
  cases o with
  | refused =>
    cases ho
    exact hs
  | noThread buffer =>
    simp only [openStream] at ho
    split at ho <;> cases ho
    · exact hs
    · next k hk =>
      have hc := sound_claim h hs (unused_of_getManagerUnused hk) (ha k hk) (b.mPdManager k).status buffer
      exact ⟨hc.sockets, hc.indexed, hl.heap.once, hc.kept.free⟩
  | up sock buffer =>
    simp only [openStream] at ho
    split at ho
    · cases ho
    · next hn =>
      split at ho <;> cases ho
      · exact hs
      · next k hk =>
        have hf := ha hn (by simp [hk])
        exact (sound_claim h hs (unused_of_getManagerUnused hk) (fun _ => hf) 0 buffer).of_table rfl rfl rfl

theorem not_apart_claim {b : Bridge} {k : Fin 2} (hk : (b.mPdManager k).used = false) {sock : Int32} (h0 : 0 ≤ sock)
    (hf : ¬ b.Free sock) (status : Int32) (buffer : Bool) : ¬ Apart (b.claim k sock status buffer).mPdManager := by
  intro hs
  simp only [Free, Classical.not_forall, not_not] at hf
  obtain ⟨j, hj, he⟩ := hf
  have hjk : j ≠ k := by
    intro he
    rw [he, hk] at hj
    cases hj
  have hkj := hs k j hjk.symm
  simp only [claim, Function.update_self, Function.update_of_ne hjk] at hkj
  exact hkj trivial hj h0 he.symm

/-- A socket that another used entry has is no part of a sound table. -/
theorem not_sound_openStream {b : Bridge} {o : Outcome} (ha : ¬ b.MayOpen o) :
    ∃ handle c, b.openStream o = some (handle, c) ∧ ¬ c.Sound := by
  cases o with
  | refused => exact absurd trivial ha
  | noThread buffer =>
    simp only [MayOpen, Classical.not_forall] at ha
    obtain ⟨k, hk, h0, hf⟩ := ha
    refine ⟨_, _, by simp only [openStream, hk]; rfl, fun hs => ?_⟩
    exact not_apart_claim (unused_of_getManagerUnused hk) h0 hf (b.mPdManager k).status buffer hs.sockets
  | up sock buffer =>
    simp only [MayOpen, Classical.not_imp] at ha
    obtain ⟨hn, hk, hf⟩ := ha
    obtain ⟨k, hk⟩ := Option.ne_none_iff_exists'.mp hk
    refine ⟨_, _, by simp only [openStream, if_neg hn, hk]; rfl, fun hs => ?_⟩
    rw [not_or, Int32.not_lt] at hn
    exact not_apart_claim (unused_of_getManagerUnused hk) hn.1 hf 0 buffer hs.sockets

theorem sound_closeStream {b : Bridge} {id : Int32} (hs : b.Sound) (ha : b.MayClose id) : (b.closeStream id).Sound := by
  by_cases hr : id < 0 ∨ 2 < id
  · rwa [closeStream, if_pos hr]
  rw [MayClose, ← or_assoc] at ha
  obtain ⟨k, hk, ha⟩ := ha.resolve_left hr
  simp only [closeStream, if_neg hr, hk]
  by_cases hst : (b.mPdManager k).status = -1
  · rwa [if_pos hst]
  obtain ⟨hu, hp⟩ := ha.resolve_left hst
  rw [if_neg hst]
  refine ⟨fun i j hij hi hj => ?_, fun t ht => ?_, hs.once, hs.kept.vacate hp fun q hq => holds_update hq⟩
  · have hne (l : Fin 2) (hl : (Function.update b.mPdManager k
        { b.mPdManager k with used := false, status := -1 } l).used = true) : l ≠ k := by
      rintro rfl
      simp at hl
    have hik := hne i hi
    have hjk := hne j hj
    simp only [Function.update_of_ne hik, Function.update_of_ne hjk] at hi hj ⊢
    exact hs.sockets i j hij hi hj
  · cases ht with
    | head => rw [hu]
    | tail _ ht => exact hs.indexed t ht

theorem not_sound_closeStream {b : Bridge} {id : Int32} (h : b.Lawful) (ha : ¬ b.MayClose id) :
    ¬ (b.closeStream id).Sound := by
  rw [MayClose, ← or_assoc, not_or] at ha
  obtain ⟨hr, ha⟩ := ha
  intro hs
  cases hk : entry id with
  | none =>
    simp only [closeStream, if_neg hr, hk] at hs
    exact absurd (hs.indexed _ (List.mem_cons_self ..)) nofun
  | some k =>
    have hn : ¬ ((b.mPdManager k).status = -1 ∨ (b.mPdManager k).used = true ∧ ¬ b.heap.Live (.buffer k)) :=
      fun hc => ha ⟨k, hk, hc⟩
    rw [not_or, not_and, not_not] at hn
    simp only [closeStream, if_neg hr, hk, if_neg hn.1] at hs
    have hu : (b.mPdManager k).used = true := by simpa using hs.indexed _ (List.mem_cons_self ..)
    -- the entry is given up with its buffer in use
    exact h.heap.not_live hs.kept (by simp [Holds]) (hn.2 hu)

theorem sound_close_iff {b : Bridge} (h : b.Lawful) (handle : Int32) :
    (b.close handle).Sound ↔ (b.closeStream handle).Sound := by
  have hc := h.of_heap (heap_closeStream b handle)
  simp only [close]
  split
  · exact Iff.rfl
  · next i _ =>
    refine ⟨fun hs => ?_, fun hs => ?_⟩
    · exact (sound_freeAv_iff hc i).mp (hs.of_table rfl rfl rfl)
    · exact ((sound_freeAv_iff hc i).mpr hs).of_table rfl rfl rfl

/-- The `av_t` an `Open` takes with its buffers. -/
def allocAv (b : Bridge) (i : Fin 2) : Bridge :=
  { b.freeAv i with heap := ((b.freeAv i).heap.malloc (.audiobuf i) true).malloc (.tempbuf i) true }

theorem lawful_allocAv {b : Bridge} (h : b.Lawful) (i : Fin 2) : (b.allocAv i).Lawful :=
  lawful_malloc (lawful_malloc (lawful_freeAv h i) (.audiobuf i) true) (.tempbuf i) true

theorem not_live_freeAv (b : Bridge) (i : Fin 2) :
    ¬ (b.freeAv i).heap.Live (.audiobuf i) ∧ ¬ (b.freeAv i).heap.Live (.tempbuf i) := by
  refine ⟨Ledger.not_live.mpr fun n hn => ?_, Ledger.not_live_release⟩
  exact absurd rfl (Ledger.ptr_release.mp (Ledger.ptr_release.mp hn).2).1

theorem sound_audiobuf {b : Bridge} (h : b.Lawful) (hs : b.Sound) (i : Fin 2) (ok : Bool) :
    ({ b.freeAv i with heap := (b.freeAv i).heap.malloc (.audiobuf i) ok } : Bridge).Sound :=
  sound_malloc ((sound_freeAv_iff h i).mpr hs) (not_live_freeAv b i).1 trivial ok

theorem sound_tempbuf {b : Bridge} (h : b.Lawful) (hs : b.Sound) (i : Fin 2) (ok : Bool) :
    ({ b.freeAv i with heap := ((b.freeAv i).heap.malloc (.audiobuf i) true).malloc (.tempbuf i) ok } : Bridge).Sound := by
  refine sound_malloc (p := .tempbuf i) (sound_audiobuf h hs i true) (Ledger.not_live.mpr fun n hn => ?_) trivial ok
  have hn : ((b.freeAv i).heap.malloc (.audiobuf i) true).ptr (.tempbuf i) = some n := hn
  obtain ⟨-, hn⟩ := (Ledger.ptr_malloc.mp hn).resolve_left (by simp)
  exact absurd rfl (Ledger.ptr_release.mp hn).1

theorem openCall_buffers {b : Bridge} {i : Fin 2} (hi : (List.finRange 2).find? (fun i => b.av i < 0) = some i)
    (o : Outcome) : b.openCall (.buffers o) = ((b.allocAv i).openStream o).map fun (handle, b) =>
      if handle < 0 then b.freeAv i else { b with av := Function.update b.av i handle } := by
  simp only [openCall, hi]
  rfl

/-- What `Open` does after `OpenStream` makes no difference to the stream table. -/
theorem sound_opened_iff {b : Bridge} (h : b.Lawful) (i : Fin 2) (handle : Int32) :
    (if handle < 0 then b.freeAv i else { b with av := Function.update b.av i handle }).Sound ↔ b.Sound := by
  split
  · exact sound_freeAv_iff h i
  · exact ⟨fun hs => hs.of_table rfl rfl rfl, fun hs => hs.of_table rfl rfl rfl⟩

theorem sound_step {b c : Bridge} {a : Act} (h : b.Lawful) (hs : b.Sound) (ha : b.Within a)
    (hc : step b a = some c) : c.Sound := by
  cases a with
  | openCall o =>
    cases hi : (List.finRange 2).find? fun i => b.av i < 0 with
    | none =>
      simp only [step, openCall, hi] at hc
      cases hc
      exact hs
    | some i =>
      cases o with
      | noAudiobuf =>
        simp only [step, openCall, hi] at hc
        cases hc
        exact sound_audiobuf h hs i false
      | noTempbuf =>
        simp only [step, openCall, hi] at hc
        cases hc
        exact sound_tempbuf h hs i false
      | buffers o =>
        have hav : b.av i < 0 := by simpa using List.find?_some hi
        simp only [step, openCall_buffers hi, Option.map_eq_some_iff] at hc
        obtain ⟨⟨handle, d⟩, ho, rfl⟩ := hc
        have hl := lawful_allocAv h i
        exact (sound_opened_iff (lawful_openStream hl ho) i handle).mpr
          (sound_openStream hl (sound_tempbuf h hs i true) (ha ⟨i, hav⟩) ho)
  | openStream o =>
    simp only [step, Option.map_eq_some_iff] at hc
    obtain ⟨⟨handle, d⟩, ho, rfl⟩ := hc
    exact sound_openStream h hs ha ho
  | closeStream id =>
    cases hc
    exact sound_closeStream hs ha
  | close handle =>
    cases hc
    exact (sound_close_iff h handle).mpr (sound_closeStream hs ha)

theorem not_sound_step {b : Bridge} {a : Act} (h : b.Lawful) (ha : ¬ b.Within a) :
    ∃ c, step b a = some c ∧ ¬ c.Sound := by
  cases a with
  | openCall o =>
    cases o with
    | buffers o =>
      simp only [Within, Classical.not_imp] at ha
      obtain ⟨⟨j, hj⟩, ha⟩ := ha
      obtain ⟨i, hi⟩ : ∃ i, (List.finRange 2).find? (fun i => b.av i < 0) = some i := by
        rw [← Option.isSome_iff_exists, List.find?_isSome]
        exact ⟨j, List.mem_finRange j, by simpa using hj⟩
      obtain ⟨handle, c, ho, hc⟩ := not_sound_openStream (b := b.allocAv i) ha
      refine ⟨_, by rw [step, openCall_buffers hi, ho]; rfl, fun hs => hc ?_⟩
      exact (sound_opened_iff (lawful_openStream (lawful_allocAv h i) ho) i handle).mp hs
    | _ => exact absurd trivial ha
  | openStream o =>
    obtain ⟨handle, c, ho, hc⟩ := not_sound_openStream ha
    exact ⟨c, by rw [step, ho]; rfl, hc⟩
  | closeStream id => exact ⟨_, rfl, not_sound_closeStream h ha⟩
  | close handle => exact ⟨_, rfl, fun hs => not_sound_closeStream h ha ((sound_close_iff h handle).mp hs)⟩

/-- **Stream slots.** The table is sound all along a run exactly when the run stays within the guard: `CloseStream`
names no entry that has a buffer in use, nor one that was never used or is not there, and no entry is claimed with a
socket that a used one has. -/
theorem slots_sound_iff (fds : List Int32) (acts : List Act) :
    Reached step Sound (init fds) acts ↔ Meets step Within (init fds) acts := by
  refine reached_iff_meets (I := fun b => b.Lawful ∧ b.Sound) (fun b a c h ha hs => ⟨lawful_step h.1 hs, sound_step h.1 h.2 ha hs⟩) (fun _ h => h.2)
    (fun b a h ha => not_sound_step h.1 ha) ⟨lawful_init fds, ?_⟩
  exact ⟨nofun, nofun, List.nodup_nil, Ledger.kept_empty _⟩

/-- A stream id one past the table; the id of an entry that was never used; a stream that is opened and closed, whose
buffer stays; and two entries left used, with the same socket, where no thread can be started. -/
theorem slots_unsound : ¬ Reached step Sound (init [0, 1, 2]) [.closeStream 2] ∧
    ¬ Reached step Sound (init [0, 1, 2]) [.closeStream 0] ∧
    ¬ Reached step Sound (init [0, 1, 2]) [.openCall (.buffers (.up 3 true)), .close 0] ∧
    ¬ Reached step Sound (init [0, 1, 2]) [.openStream (.noThread true), .openStream (.noThread true)] := by
  refine ⟨fun h => ?_, fun h => ?_, fun h => ?_, fun h => ?_⟩
  · have hs := h _ _ (List.prefix_refl _) rfl
    exact absurd (hs.indexed .outside (by decide)) (by decide)
  · have hs := h _ _ (List.prefix_refl _) rfl
    exact absurd (hs.indexed (.entry false) (by decide)) (by decide)
  · have hs := h _ _ (List.prefix_refl _) rfl
    obtain ⟨p, hp, hn⟩ := hs.kept 2 (by decide) (by decide)
    match p, hp, hn with
    | .buffer 0, hp, _ => cases hp
    | .buffer 1, hp, _ => cases hp
    | .audiobuf 0, _, hn => cases hn
    | .audiobuf 1, _, hn => cases hn
    | .tempbuf 0, _, hn => cases hn
    | .tempbuf 1, _, hn => cases hn
  · have hs := h _ _ (List.prefix_refl _) rfl
    exact hs.sockets 0 1 (by decide) rfl rfl (by decide) rfl

end Bridge

end Uvc

end SabApp
