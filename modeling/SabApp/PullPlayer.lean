import Mathlib.Algebra.GroupWithZero.Nat
import Mathlib.Data.List.FinRange
import Mathlib.Logic.Function.Basic
import SabApp.Runs

/-!
# Stream table of the pull player (Main.c, PullStream.c)

`Decode_open` looks for a free entry of `streamInfos`, opens the stream and then writes the entry; the test
for a full table stands inside the loop, where it never holds. `Decode_close` ends the stream and leaves the
entry as it is. The frame callback looks for its stream with a loop bound of `sizeof(streamInfos)`.
A step is `none` where an access goes past the table.
-/

namespace SabApp

namespace Pull

/-- The numerals of `Fin 2` in this table share it. -/
scoped instance instNeZeroTwo : NeZero 2 := ⟨by decide⟩

structure StreamInfo where
  streamId : Int32
  ch : Int32
  hardDecode : Int32
  justIframe : Int32

/-- `sc_mng`, with whether its buffer is set, the `av` entry in `param` and whether a `PullThread` runs on it. -/
structure ScMng where
  used : Bool
  handle : Int32
  buffer : Bool
  param : Fin 2
  thread : Bool

/-- What the socket calls in `sendPullMsg` and `pthread_create` come to. -/
inductive Outcome where
  | refused
  | noThread
  | ok

/-- The tables, `av` by its handles. `opening` is an open call that has its stream and has yet to write its entry at
the index it found; `closed` tells for each entry whether a close call has named it since. -/
structure World where
  streamInfos : Fin 2 → StreamInfo
  av : Fin 2 → Int32
  scMng : Fin 2 → ScMng
  opening : Option (ℕ × StreamInfo)
  closed : Fin 2 → Bool

inductive Act where
  | openCall (ch hardDecode justIframe : Int32) (o : Outcome)
  | opened
  | close (streamId : Int32)
  /-- A frame in the `PullThread` of an entry of `scMng`. -/
  | frame (k : Fin 2) (jpeg : Bool)
  /-- A `PullThread` whose socket fails. -/
  | lost (k : Fin 2)

namespace World

/-- After `Decode_init`; `scMng` is as the program starts with it. -/
def init : World := ⟨fun _ => ⟨-1, -1, -1, -1⟩, fun _ => -1, fun _ => ⟨false, 0, false, 0, false⟩, none, fun _ => false⟩

def Occupied (w : World) (i : Fin 2) : Prop := 0 ≤ (w.streamInfos i).streamId

instance (w : World) (i : Fin 2) : Decidable (w.Occupied i) := inferInstanceAs (Decidable (0 ≤ _))

/-- The index at which the loop of `Decode_open` ends. -/
def freeIndex (w : World) : ℕ := (List.finRange 2).findIdx fun i => (w.streamInfos i).streamId < 0

def sendPullMsg (w : World) (param : Fin 2) : Outcome → Int32 × World
  | .refused => (-1, w)
  | o =>
    match (List.finRange 2).find? fun k => !(w.scMng k).used with
    | none => (-1, w)
    | some k =>
      match o with
      | .ok => (Int32.ofNat k, { w with scMng := Function.update w.scMng k ⟨true, Int32.ofNat k, true, param, true⟩ })
      -- the entry stays used
      | _ => (-1, { w with scMng := Function.update w.scMng k { w.scMng k with used := true, buffer := true, param } })

def openStream (w : World) (o : Outcome) : Int32 × World :=
  match (List.finRange 2).find? fun i => w.av i < 0 with
  | none => (-1, w)
  | some i =>
    let (handle, w) := w.sendPullMsg i o
    if handle < 0 then (-1, w) else (handle, { w with av := Function.update w.av i handle })

def closeStream (w : World) (streamId : Int32) : World :=
  match (List.finRange 2).find? fun i => w.av i = streamId,
    (List.finRange 2).find? fun k => (w.scMng k).handle = streamId with
  | some i, some k =>
    { w with av := Function.update w.av i (-1)
             scMng := Function.update w.scMng k { w.scMng k with buffer := false, used := false } }
  | _, _ => w

/-- The search of `streamCallBack` where it stays within the table. -/
def lookup (w : World) (handle : Int32) : Option (Fin 2) :=
  (List.finRange 2).find? fun i => (w.streamInfos i).streamId = handle

/-- Whether the frame gets as far as the search. -/
def Searches (w : World) (k : Fin 2) (jpeg : Bool) : Prop :=
  ((w.scMng k).thread = true ∧ (w.scMng 0).used = true ∧ (w.scMng 0).buffer = true) ∧
    0 ≤ w.av (w.scMng k).param ∧ jpeg = false

instance (w : World) (k : Fin 2) (jpeg : Bool) : Decidable (w.Searches k jpeg) :=
  inferInstanceAs (Decidable (_ ∧ _))

/-- `Decode_open` up to the return of `openStream`. Calls from Java come one after the other. -/
def openCall (w : World) (ch hardDecode justIframe : Int32) (o : Outcome) : World :=
  if w.opening.isSome then w
  else
    let (streamId, t) := w.openStream o
    if 0 ≤ streamId then { t with opening := some (w.freeIndex, ⟨streamId, ch, hardDecode, justIframe⟩) } else t

/-- The write in `Decode_open`. -/
def opened (w : World) : Option World :=
  match w.opening with
  | none => some w
  | some (i, s) =>
    if h : i < 2 then
      some { w with streamInfos := Function.update w.streamInfos ⟨i, h⟩ s, opening := none,
                    closed := Function.update w.closed ⟨i, h⟩ false }
    else none

/-- `Decode_close`. -/
def close (w : World) (streamId : Int32) : World :=
  if w.opening.isSome ∨ streamId = -1 then w
  else { w.closeStream streamId with closed := fun i => w.closed i || (w.streamInfos i).streamId = streamId }

/-- The end of a `PullThread`. -/
def endThread (w : World) (k : Fin 2) : World :=
  { w with scMng := Function.update w.scMng k { w.scMng k with thread := false } }

def step (w : World) : Act → Option World
  | .openCall ch hardDecode justIframe o => some (w.openCall ch hardDecode justIframe o)
  | .opened => w.opened
  | .close streamId => some (w.close streamId)
  | .frame k jpeg => if w.Searches k jpeg ∧ w.lookup (w.scMng k).handle = none then none else some w
  | .lost k =>
    if (w.scMng k).thread then some ((w.closeStream (w.scMng k).handle).endThread k) else some w

/-- No entry is held past the close call that named it, and an open call under way has a free entry for its
stream if its index is one of the table's. -/
structure Lawful (w : World) : Prop where
  released : ∀ i, w.Occupied i → w.closed i = false
  free : ∀ i s, w.opening = some (i, s) → ∀ h : i < 2, ¬ w.Occupied ⟨i, h⟩

/-- The guard: a stream that comes up finds a free entry, no close call names one, and no frame is searched for whose
stream has no entry. -/
def Within (w : World) : Act → Prop
  | .opened => ∀ i s, w.opening = some (i, s) → i < 2
  | .close streamId => w.opening = none → ∀ i, w.Occupied i → (w.streamInfos i).streamId ≠ streamId
  | .frame k jpeg => w.Searches k jpeg → ∃ i, (w.streamInfos i).streamId = (w.scMng k).handle
  | _ => True

/-! ## What the calls leave alone -/

structure Frame (w t : World) : Prop where
  infos : t.streamInfos = w.streamInfos
  opening : t.opening = w.opening
  closed : t.closed = w.closed

theorem Frame.occupied {w t : World} (h : w.Frame t) (i : Fin 2) : t.Occupied i ↔ w.Occupied i := by
  rw [Occupied, h.infos, Occupied]

theorem frame_sendPullMsg (w : World) (param : Fin 2) (o : Outcome) : w.Frame (w.sendPullMsg param o).2 := by
  cases o with
  | refused => exact ⟨rfl, rfl, rfl⟩
  | _ =>
    simp only [sendPullMsg]
    split <;> exact ⟨rfl, rfl, rfl⟩

theorem frame_openStream (w : World) (o : Outcome) : w.Frame (w.openStream o).2 := by
  unfold openStream
  split
  · exact ⟨rfl, rfl, rfl⟩
  · next i _ =>
    obtain ⟨hi, ho, hc⟩ := frame_sendPullMsg w i o
    dsimp only
    split <;> exact ⟨hi, ho, hc⟩

theorem frame_closeStream (w : World) (id : Int32) : w.Frame (w.closeStream id) := by
  unfold closeStream
  split <;> exact ⟨rfl, rfl, rfl⟩

theorem frame_lost (w : World) (k : Fin 2) : w.Frame ((w.closeStream (w.scMng k).handle).endThread k) := by
  obtain ⟨hi, ho, hc⟩ := frame_closeStream w (w.scMng k).handle
  exact ⟨hi, ho, hc⟩

theorem Lawful.of_frame {w t : World} (h : w.Lawful) (hf : w.Frame t) : t.Lawful := by
  refine ⟨fun i hoc => ?_, fun i s hs hlt hoc => ?_⟩
  · rw [hf.closed]
    exact h.released i ((hf.occupied i).mp hoc)
  · exact h.free i s (hf.opening ▸ hs) hlt ((hf.occupied _).mp hoc)

theorem not_occupied_freeIndex {w : World} (h : w.freeIndex < 2) : ¬ w.Occupied ⟨w.freeIndex, h⟩ := by
  have hlt : (List.finRange 2).findIdx (fun i => (w.streamInfos i).streamId < 0) < (List.finRange 2).length := by
    simpa [freeIndex] using h
  have hf := List.findIdx_getElem (w := hlt)
  simp only [List.getElem_finRange, decide_eq_true_eq] at hf
  rw [Occupied, Int32.not_le]
  exact hf

theorem lookup_eq_none {w : World} {handle : Int32} :
    w.lookup handle = none ↔ ∀ i, (w.streamInfos i).streamId ≠ handle := by
  simp [lookup]

/-! ## The table -/

theorem lawful_openCall {w : World} (h : w.Lawful) (ch hd jf : Int32) (o : Outcome) :
    (w.openCall ch hd jf o).Lawful := by
  have hf := frame_openStream w o
  unfold openCall
  split
  · exact h
  dsimp only
  split
  · refine ⟨fun i hoc => ?_, fun i s hs hlt hoc => ?_⟩
    · rw [show _ = _ from hf.closed]
      exact h.released i ((hf.occupied i).mp hoc)
    · cases hs
      exact not_occupied_freeIndex hlt ((hf.occupied _).mp hoc)
  · exact h.of_frame hf

theorem lawful_step {w : World} {a : Act} (h : w.Lawful) (ha : Within w a) :
    ∃ t, step w a = some t ∧ t.Lawful := by
  cases a with
  | openCall ch hd jf o => exact ⟨_, rfl, lawful_openCall h ch hd jf o⟩
  | opened =>
    cases ho : w.opening with
    | none => exact ⟨w, by simp [step, opened, ho], h⟩
    | some p =>
      obtain ⟨i, s⟩ := p
      have hlt := ha i s ho
      refine ⟨_, by rw [step, opened, ho]; exact dif_pos hlt, fun j hoc => ?_, by simp⟩
      by_cases hj : j = ⟨i, hlt⟩
      · simp [hj]
      · simp only [Occupied, Function.update_of_ne hj] at hoc ⊢
        exact h.released j hoc
  | close id =>
    refine ⟨_, rfl, ?_⟩
    unfold close
    split
    · exact h
    · next hn =>
      rw [not_or] at hn
      have ho : w.opening = none := by simpa using hn.1
      have hf := frame_closeStream w id
      refine ⟨fun i hoc => ?_, fun i s hs => ?_⟩
      · have hoc := (hf.occupied i).mp hoc
        simp [h.released i hoc, ha ho i hoc]
      · rw [show _ = _ from hf.opening, ho] at hs
        cases hs
  | frame k jpeg =>
    refine ⟨w, ?_, h⟩
    rw [step, if_neg]
    rintro ⟨hs, hn⟩
    obtain ⟨i, hi⟩ := ha hs
    exact lookup_eq_none.mp hn i hi
  | lost k =>
    by_cases ht : (w.scMng k).thread = true
    · exact ⟨_, by rw [step, if_pos ht], h.of_frame (frame_lost w k)⟩
    · exact ⟨w, by rw [step, if_neg ht], h⟩

/-- A step out of bounds aborts or leaves an entry held past its close call. -/
theorem not_lawful_of_not_within {w t : World} {a : Act} (ha : ¬ Within w a) (hs : step w a = some t) : ¬ t.Lawful := by
  cases a with
  | openCall ch hd jf o => exact absurd trivial ha
  | opened =>
    simp only [Within, not_forall] at ha
    obtain ⟨i, s, ho, hlt⟩ := ha
    simp [step, opened, ho, hlt] at hs
  | close id =>
    simp only [Within, not_forall] at ha
    obtain ⟨ho, i, hoc, hid⟩ := ha
    rw [not_not] at hid
    have hne : ¬ (w.opening.isSome = true ∨ id = -1) := by
      rintro (h | h)
      · simp [ho] at h
      · rw [Occupied, hid, h] at hoc
        exact absurd hoc (by decide)
    cases hs
    intro hl
    have hc := hl.released i
    rw [close, if_neg hne] at hc
    have := hc (((frame_closeStream w id).occupied i).mpr hoc)
    simp [hid] at this
  | frame k jpeg =>
    simp only [Within, Classical.not_imp, not_exists] at ha
    rw [step, if_pos ⟨ha.1, lookup_eq_none.mpr ha.2⟩] at hs
    cases hs
  | lost k => exact absurd trivial ha

/-- **Stream table.** The player's table is lawful all along a run, without an access past it, exactly when the run
stays within it: no close call names an entry, and every stream that comes up finds a free one. -/
theorem table_lawful_iff (acts : List Act) : Always step Lawful init acts ↔ Meets step Within init acts :=
  always_iff_meets (fun _ _ => lawful_step) (fun _ h => h) (fun _ _ _ _ => not_lawful_of_not_within)
    ⟨fun _ _ => rfl, fun i s hs => by cases hs⟩

/-! ## Claimed entries -/

/-- An entry that is held and an open call under way have ids of streams. -/
def Named (i : Fin 2) (w : World) : Prop := w.Occupied i ∧ ∀ j s, w.opening = some (j, s) → 0 ≤ s.streamId

theorem Named.of_frame {i : Fin 2} {w t : World} (h : Named i w) (hf : w.Frame t) : Named i t :=
  ⟨(hf.occupied i).mpr h.1, by rw [hf.opening]; exact h.2⟩

theorem named_step {i : Fin 2} {w t : World} {a : Act} (h : Named i w) (hs : step w a = some t) : Named i t := by
  cases a with
  | openCall ch hd jf o =>
    have hf := frame_openStream w o
    cases hs
    unfold openCall
    split
    · exact h
    dsimp only
    split
    · next hid =>
      refine ⟨(hf.occupied i).mpr h.1, fun j s hj => ?_⟩
      cases hj
      exact hid
    · exact h.of_frame hf
  | opened =>
    cases ho : w.opening with
    | none =>
      simp only [step, World.opened, ho, Option.some.injEq] at hs
      exact hs ▸ h
    | some p =>
      obtain ⟨j, s⟩ := p
      simp only [step, World.opened, ho] at hs
      split at hs <;> cases hs
      next hlt =>
      refine ⟨?_, by simp⟩
      by_cases hj : i = ⟨j, hlt⟩
      · simpa [Occupied, hj] using h.2 j s ho
      · simpa [Occupied, Function.update_of_ne hj] using h.1
  | close id =>
    have hf := frame_closeStream w id
    cases hs
    unfold World.close
    split
    · exact h
    · exact ⟨(hf.occupied i).mpr h.1, by rw [show _ = _ from hf.opening]; exact h.2⟩
  | frame k jpeg =>
    simp only [step] at hs
    split at hs <;> cases hs
    exact h
  | lost k =>
    simp only [step] at hs
    split at hs <;> cases hs
    · exact h.of_frame (frame_lost w k)
    · exact h

/-- **No release.** An entry that was claimed once is never free again. -/
theorem occupied_forever {i : Fin 2} {w : World} (h : Named i w) (acts : List Act) :
    Reached step (fun t => t.Occupied i) w acts :=
  reached_of_inv (fun _ _ _ => named_step) (fun _ h => h.1) h acts

/-- The player is opened, closed and opened until its table is used up; or closed once; or a frame comes early. -/
theorem table_unlawful : exec step init [.openCall 0 1 0 .ok, .opened, .close 0, .openCall 0 1 0 .ok, .opened, .close 0,
      .openCall 0 1 0 .ok, .opened] = none ∧
    ¬ Always step Lawful init [.openCall 0 1 0 .ok, .opened, .close 0] ∧
    exec step init [.openCall 0 1 0 .ok, .frame 0 false] = none := by
  refine ⟨rfl, fun h => ?_, rfl⟩
  obtain ⟨t, ht, hl⟩ := h _ (List.prefix_refl _)
  cases ht
  exact absurd (hl.released 0 (by decide)) (by decide)

end World

end Pull

end SabApp
