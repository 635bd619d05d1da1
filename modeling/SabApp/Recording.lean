import Mathlib.Data.List.Flatten
import Mathlib.Data.List.Forall2
import SabApp.Files

/-!
# Local recordings (NetApi.c)

A recording is written frame by frame, from its first key frame on, behind the place of its header and
its table; both are written when it is stopped. The table has an entry for each key frame. A pause of
the stream begins a new file, and so does the key frame for which the table has no room. The new file
of a full table is begun within the branch for key frames, behind the point where the place of the
header is left free: its frames stand where its header goes.
-/

namespace SabApp

namespace Recording

/-- MAX_RECTABLEITEM -/
def maxItems : ℕ := 600

/-- MAX_INTERVAl, in seconds. -/
def maxInterval : ℕ := 15

/-- Bytes of a field of `n`. -/
abbrev Field (n : ℕ) := { bs : List UInt8 // bs.length = n }

/-! ## Frames -/

/-- A frame, its head and the bytes that its head says. -/
structure Frame where
  data : List UInt8
  length : data.length = 32 + word32 data 0

namespace Frame

def sec (f : Frame) : UInt32 := .ofNat (word32 f.data 8)

def isKey (f : Frame) : Bool := byteAt f.data 20 = 1

def rate (f : Frame) : UInt32 := .ofNat (byteAt f.data 22)

end Frame

/-! ## The header and the table -/

/-- `recTableItem_t`. -/
structure Item where
  no : UInt32
  frameRate : UInt32
  offset : UInt32
  size : UInt32
  timestamp : UInt32
  deriving DecidableEq

def Item.bytes (e : Item) : List UInt8 :=
  le32 e.no.toNat ++ le32 e.frameRate.toNat ++ le32 e.offset.toNat ++ le32 e.size.toNat ++ le32 e.timestamp.toNat

/-- `recTableInfo_t`; `dev` is what names the device, and `unuse` stays 0. -/
structure Info where
  dev : Field 140
  begTime : Int32
  endTime : Int32
  max : UInt32
  num : ℤ
  ver : UInt32
  item : ℕ → Item

namespace Info

def itemBytes (info : Info) : List UInt8 := (List.range maxItems).flatMap fun i => (info.item i).bytes

def bytes (info : Info) : List UInt8 :=
  info.dev.1 ++ le32 info.begTime.toUInt32.toNat ++ le32 info.endTime.toUInt32.toNat ++ le32 info.max.toNat ++
    le32 (info.num % 4294967296).toNat ++ le32 info.ver.toNat ++ List.replicate 128 0 ++ info.itemBytes

theorem flatMap_range_length {g : ℕ → List UInt8} {k : ℕ} (h : ∀ i, (g i).length = k) (n : ℕ) :
    ((List.range n).flatMap g).length = n * k := by
  induction n with
  | zero => rw [List.range_zero, Nat.zero_mul]; rfl
  | succ n ih =>
    rw [List.range_succ, List.flatMap_append, List.length_append, ih, List.flatMap_singleton, h, Nat.succ_mul]

theorem itemBytes_length (info : Info) : info.itemBytes.length = 12000 := by
  have hitem : ∀ i, (info.item i).bytes.length = 20 := fun i => by
    simp only [Item.bytes, List.length_append, le32_length]
  rw [itemBytes, flatMap_range_length hitem]
  rfl

theorem bytes_length (info : Info) : info.bytes.length = 12288 := by
  simp only [bytes, List.length_append, info.dev.2, le32_length, List.length_replicate, itemBytes_length]

end Info

/-- `recFileHeader_t`; behind the ten bytes of its text are those that stand behind the text in the program. -/
def fileHeader (behind : Field 54) : List UInt8 :=
  le32 123 ++ le32 456 ++ le32 789 ++ ([0x31, 0x32, 0x33, 0x34, 0x35, 0x36, 0x37, 0x38, 0x39, 0] ++ behind.1)

theorem fileHeader_length (behind : Field 54) : (fileHeader behind).length = 76 := by
  simp only [fileHeader, List.length_append, le32_length, behind.2, List.length_cons, List.length_nil]

/-- The header and the table. -/
def dataStart : ℕ := 76 + 12288

/-! ## The recorder -/

/-- A `FILE *`; the pointer of a file that was closed is kept. -/
inductive Fd where
  | null
  | opened (f : File)
  | closed

/-- A file under its last name, which has the two times. -/
structure Saved where
  begTime : Int32
  endTime : Int32
  bytes : List UInt8

/-- The fields of `av_t` that a recording uses, and the files that were saved. -/
structure Recorder where
  fd : Fd
  recflag : Bool
  firstFlag : Bool
  lastTime : Int32
  info : Info
  saved : List Saved

/-- The table after its last use: all is 0, and `num` is -1. -/
theorem zeros_length : (List.replicate 140 (0 : UInt8)).length = 140 := List.length_replicate

def noItem : Item := ⟨0, 0, 0, 0, 0⟩

def cleared : Info := ⟨⟨List.replicate 140 0, zeros_length⟩, 0, 0, 0, -1, 0, fun _ => noItem⟩

/-- A file of one key frame, or with a time of 0, is removed; the others get their header and their table. -/
def closeFile (behind : Field 54) (av : Recorder) (f : File) : Recorder :=
  if av.info.num < 0 ∨ av.info.begTime = 0 ∨ av.info.endTime = 0 ∨ av.info.begTime ≥ av.info.endTime then
    { av with fd := .null }
  else
    let info := { av.info with num := av.info.num + 1 }
    let f := ((f.seek 0).write (fileHeader behind)).write info.bytes
    { av with fd := .closed, info := info, saved := av.saved ++ [⟨info.begTime, info.endTime, f.bytes⟩] }

/-- `localRecordstop`; there is nothing behind a file that is used again after it was closed. -/
def localRecordstop (behind : Field 54) (flag : Bool) (av : Recorder) : Option Recorder :=
  match av.fd with
  | .null => some av
  | .closed => none
  | .opened f =>
    let av := closeFile behind (if flag then { av with recflag := false } else av) f
    some (if flag then { av with info := cleared } else av)

/-- `LocalRecordStart`; `opens` is whether the file can be opened. -/
def localRecordStart (opens : Bool) (dev : Field 140) (av : Recorder) : Recorder :=
  let info := { av.info with dev := dev, begTime := 0, endTime := 0, max := 600, num := -1, ver := 1 }
  if opens then { av with info := info, fd := .opened .empty, recflag := true, firstFlag := false }
  else { av with info := info, fd := .null }

/-- The file is stopped, and opened anew. -/
def reopen (behind : Field 54) (opens : Bool) (av : Recorder) : Option Recorder :=
  (localRecordstop behind false av).map fun av =>
    if opens then { av with fd := .opened .empty, info.num := -1 } else { av with fd := .null, recflag := false }

def onFile (av : Recorder) (g : File → Recorder) : Option Recorder :=
  match av.fd with
  | .opened file => some (g file)
  | _ => none

/-- The first key frame leaves the place of the header free. -/
def beginFile (f : Frame) (av : Recorder) : Option Recorder :=
  onFile av fun file => { av with info.begTime := f.sec.toInt32, fd := .opened (file.seek dataStart) }

def noteKey (f : Frame) (av : Recorder) : Option Recorder :=
  onFile av fun file =>
    let num := av.info.num + 1
    let e : Item := ⟨.ofNat num.toNat, f.rate, .ofNat file.pos, .ofNat f.data.length, f.sec⟩
    { av with info := { av.info with num := num, item := fun i => if (i : ℤ) = num then e else av.info.item i } }

def writeFrame (f : Frame) (av : Recorder) : Option Recorder :=
  if av.info.num ≥ 0 then onFile av fun file => { av with fd := .opened (file.write f.data) } else some av

/-- `localRecord` behind its look at the time. -/
def recordFrame (behind : Field 54) (opens : Bool) (f : Frame) (av : Recorder) : Option Recorder :=
  let av := { av with lastTime := f.sec.toInt32 }
  if f.isKey then
    let av := { av with info.endTime := f.sec.toInt32 }
    (if av.info.num = -1 then beginFile f av else some av).bind fun av =>
      if av.info.num ≥ maxItems - 1 then
        (reopen behind opens av).bind fun av => if opens then (noteKey f av).bind (writeFrame f) else some av
      else (noteKey f av).bind (writeFrame f)
  else writeFrame f av

/-- The stream has paused. -/
def gap (lastTime : Int32) (sec : UInt32) : Prop := (lastTime.toUInt32 - sec).toInt32.toInt.natAbs > maxInterval

instance (lastTime : Int32) (sec : UInt32) : Decidable (gap lastTime sec) := inferInstanceAs (Decidable (_ < _))

/-- `localRecord`. -/
def localRecord (behind : Field 54) (opens : Bool) (av : Recorder) (f : Frame) : Option Recorder :=
  let av := if av.firstFlag then av else { av with firstFlag := true, lastTime := f.sec.toInt32 }
  if gap av.lastTime f.sec then
    (reopen behind opens av).bind fun av => if opens then recordFrame behind opens f av else some av
  else recordFrame behind opens f av

/-! ## What a recording is -/

/-- The frames of one file: they begin at `base`, where the place of the header ends or at the front, and the file has
the times of its first and its last key frame. -/
structure Segment where
  base : ℕ
  begins : Int32
  ends : Int32
  frames : List Frame

def data (fs : List Frame) : List UInt8 := fs.flatMap (·.data)

def keys (fs : List Frame) : ℕ := fs.countP (·.isKey)

/-- The entries of the key frames, of which the first has the number `no`, of frames that stand at `pos`. -/
def entries : ℕ → ℕ → List Frame → List Item
  | _, _, [] => []
  | pos, no, f :: fs =>
    if f.isKey then
      ⟨.ofNat no, f.rate, .ofNat pos, .ofNat f.data.length, f.sec⟩ :: entries (pos + f.data.length) (no + 1) fs
    else entries (pos + f.data.length) no fs

namespace Segment

/-- The bytes before the header and the table are written. -/
def raw (seg : Segment) : List UInt8 := List.replicate seg.base 0 ++ data seg.frames

def entries (seg : Segment) : List Item := Recording.entries seg.base 0 seg.frames

/-- A file without a second key frame, or with times of 0, is removed. -/
def Kept (seg : Segment) : Prop := ¬(seg.begins = 0 ∨ seg.ends = 0 ∨ seg.begins ≥ seg.ends)

instance (seg : Segment) : Decidable seg.Kept := inferInstanceAs (Decidable (¬_))

end Segment

/-- The frames that were taken: those of the file under way, and of the files kept. -/
structure Tape where
  last : Option Int32
  current : Option Segment
  done : List Segment

namespace Tape

def start : Tape := ⟨none, none, []⟩

/-- The segments kept once `seg` is. -/
def keep (done : List Segment) (seg : Segment) : List Segment := if seg.Kept then done ++ [seg] else done

def close (t : Tape) : Tape :=
  match t.current with
  | none => t
  | some seg => { t with current := none, done := keep t.done seg }

/-- A frame of a stream without a pause. -/
def push (t : Tape) (f : Frame) : Tape :=
  let sec := f.sec.toInt32
  match t.current with
  | none => if f.isKey then { t with current := some ⟨dataStart, sec, sec, [f]⟩ } else t
  | some seg =>
    if f.isKey then
      -- the key frame that finds the table full ends the file, and begins the next one with the times it has
      if keys seg.frames ≥ maxItems then
        { t with current := some ⟨0, seg.begins, sec, [f]⟩, done := keep t.done { seg with ends := sec } }
      else { t with current := some { seg with ends := sec, frames := seg.frames ++ [f] } }
    else { t with current := some { seg with frames := seg.frames ++ [f] } }

def take (t : Tape) (f : Frame) : Tape :=
  let t := if gap (t.last.getD f.sec.toInt32) f.sec then t.close else t
  { t.push f with last := some f.sec.toInt32 }

def run (t : Tape) (fs : List Frame) : Tape := fs.foldl take t

end Tape

/-! ## Entries -/

theorem data_append (fs gs : List Frame) : data (fs ++ gs) = data fs ++ data gs := List.flatMap_append

theorem keys_append (fs gs : List Frame) : keys (fs ++ gs) = keys fs + keys gs := List.countP_append

theorem keys_cons (f : Frame) (fs : List Frame) : keys (f :: fs) = keys fs + if f.isKey then 1 else 0 :=
  List.countP_cons

theorem entries_length (fs : List Frame) (pos no : ℕ) : (entries pos no fs).length = keys fs := by
  induction fs generalizing pos no with
  | nil => rfl
  | cons f fs ih =>
    rw [entries, keys_cons]
    split
    · rw [List.length_cons, ih]
    · rw [ih, Nat.add_zero]

theorem entries_append (fs gs : List Frame) (pos no : ℕ) :
    entries pos no (fs ++ gs) = entries pos no fs ++ entries (pos + (data fs).length) (no + keys fs) gs := by
  induction fs generalizing pos no with
  | nil => rfl
  | cons f fs ih =>
    have hdata : data (f :: fs) = f.data ++ data fs := List.flatMap_cons
    rw [List.cons_append, entries, entries, ih, ih, hdata, List.length_append, keys_cons, ← Nat.add_assoc]
    split
    · rw [List.cons_append, Nat.add_assoc no, Nat.add_comm 1]
    · rfl

/-! ## The recorder holds the tape -/

/-- The table has the entries of the frames. -/
def Info.Lists (info : Info) (seg : Segment) : Prop := ∀ i e, seg.entries[i]? = some e → info.item i = e

/-- The file under way holds a segment. -/
structure Holds (av : Recorder) (seg : Segment) : Prop where
  file : av.fd = .opened ⟨seg.raw, seg.raw.length, false⟩
  num : av.info.num + 1 = keys seg.frames
  some_key : 0 < keys seg.frames
  begins : av.info.begTime = seg.begins
  ends : av.info.endTime = seg.ends
  lists : av.info.Lists seg

/-- A file has a segment: its header, a table of its entries, and its frames, as far as they stand behind the table. -/
structure Pictures (behind : Field 54) (seg : Segment) (file : Saved) : Prop where
  begins : file.begTime = seg.begins
  ends : file.endTime = seg.ends
  bytes : ∃ info : Info, info.num = keys seg.frames ∧ info.Lists seg ∧
    file.bytes = fileHeader behind ++ info.bytes ++ seg.raw.drop dataStart

structure Follows (behind : Field 54) (av : Recorder) (t : Tape) : Prop where
  recflag : av.recflag = true
  current : (t.current = none ∧ av.info.num = -1 ∧ av.fd = .opened .empty) ∨
    ∃ seg, t.current = some seg ∧ Holds av seg
  saved : List.Forall₂ (Pictures behind) t.done av.saved

variable {behind : Field 54} {av av' : Recorder} {t : Tape} {seg : Segment} {f : Frame}

/-! ### A stop -/

theorem drop_header (behind : Field 54) (info : Info) (b : List UInt8) :
    ((⟨b, 0, false⟩ : File).write (fileHeader behind) |>.write info.bytes).bytes =
      fileHeader behind ++ info.bytes ++ b.drop dataStart := by
  have hlen : (fileHeader behind ++ info.bytes).length = dataStart := by
    rw [List.length_append, fileHeader_length, info.bytes_length, dataStart]
  show File.overlay (File.overlay b 0 (fileHeader behind)) (0 + (fileHeader behind).length) info.bytes = _
  rw [File.overlay_overlay, File.overlay_front, hlen]

/-- What a stop leaves alone. -/
structure Same (av av' : Recorder) : Prop where
  recflag : av'.recflag = av.recflag
  firstFlag : av'.firstFlag = av.firstFlag
  lastTime : av'.lastTime = av.lastTime
  begTime : av'.info.begTime = av.info.begTime
  endTime : av'.info.endTime = av.info.endTime

theorem stop_false {file : File} (hfd : av.fd = .opened file) :
    localRecordstop behind false av = some (closeFile behind av file) := by
  rw [localRecordstop, hfd]
  rfl

/-- A file that holds a segment is saved, if it is kept at all. -/
theorem stop_holds (h : Holds av seg) {done : List Segment} (hsaved : List.Forall₂ (Pictures behind) done av.saved) :
    ∃ av', localRecordstop behind false av = some av' ∧ Same av av' ∧
      List.Forall₂ (Pictures behind) (Tape.keep done seg) av'.saved := by
  have hnum := h.num
  have hkey := h.some_key
  have hkept : (av.info.num < 0 ∨ av.info.begTime = 0 ∨ av.info.endTime = 0 ∨ av.info.begTime ≥ av.info.endTime) ↔
      ¬seg.Kept := by
    rw [Segment.Kept, h.begins, h.ends, not_not]
    exact ⟨fun hor => hor.resolve_left (by omega), .inr⟩
  rw [stop_false h.file, closeFile, Tape.keep]
  by_cases hk : seg.Kept
  · rw [if_pos hk, if_neg fun hor => hkept.mp hor hk]
    refine ⟨_, rfl, ⟨rfl, rfl, rfl, rfl, rfl⟩, List.rel_append hsaved (.cons ?_ .nil)⟩
    exact ⟨h.begins, h.ends, { av.info with num := av.info.num + 1 }, hnum, h.lists, drop_header behind _ _⟩
  · rw [if_neg hk, if_pos (hkept.mpr hk)]
    exact ⟨_, rfl, ⟨rfl, rfl, rfl, rfl, rfl⟩, hsaved⟩

theorem stop_follows (h : Follows behind av t) :
    ∃ av', localRecordstop behind false av = some av' ∧ Same av av' ∧
      List.Forall₂ (Pictures behind) t.close.done av'.saved := by
  rcases h.current with ⟨hcur, hnum, hfd⟩ | ⟨seg, hcur, hholds⟩
  · have hclose : t.close = t := by rw [Tape.close, hcur]
    rw [stop_false hfd, closeFile, if_pos (.inl (by omega)), hclose]
    exact ⟨_, rfl, ⟨rfl, rfl, rfl, rfl, rfl⟩, h.saved⟩
  · have hclose : t.close.done = Tape.keep t.done seg := by rw [Tape.close, hcur]
    rw [hclose]
    exact stop_holds hholds h.saved

theorem reopen_of_stop {done : List Segment} (h : ∃ av', localRecordstop behind false av = some av' ∧ Same av av' ∧
    List.Forall₂ (Pictures behind) done av'.saved) :
    ∃ av', reopen behind true av = some av' ∧ Same av av' ∧ av'.info.num = -1 ∧ av'.fd = .opened .empty ∧
      List.Forall₂ (Pictures behind) done av'.saved := by
  obtain ⟨av', hstop, hsame, hsaved⟩ := h
  rw [reopen, hstop, Option.map_some, if_pos rfl]
  exact ⟨_, rfl, ⟨hsame.recflag, hsame.firstFlag, hsame.lastTime, hsame.begTime, hsame.endTime⟩, rfl, rfl, hsaved⟩

/-! ### A frame -/

/-- The recorder with one more key frame. -/
def Recorder.noted (av : Recorder) (f : Frame) (file : File) : Recorder :=
  let num := av.info.num + 1
  let e : Item := ⟨.ofNat num.toNat, f.rate, .ofNat file.pos, .ofNat f.data.length, f.sec⟩
  { av with
    fd := .opened (file.write f.data)
    info := { av.info with num := num, item := fun i => if (i : ℤ) = num then e else av.info.item i } }

theorem noteKey_write {file : File} (hfd : av.fd = .opened file) (hnum : -1 ≤ av.info.num) :
    (noteKey f av).bind (writeFrame f) = some (av.noted f file) := by
  rw [noteKey, onFile, hfd, Option.bind_some, writeFrame, if_pos (show av.info.num + 1 ≥ 0 by omega)]
  rfl

theorem writeFrame_write {file : File} (hfd : av.fd = .opened file) (hnum : 0 ≤ av.info.num) :
    writeFrame f av = some { av with fd := .opened (file.write f.data) } := by
  rw [writeFrame, if_pos hnum, onFile, hfd]

theorem Segment.raw_length (seg : Segment) : seg.raw.length = seg.base + (data seg.frames).length := by
  rw [Segment.raw, List.length_append, List.length_replicate]

theorem Segment.raw_append (seg : Segment) (f : Frame) :
    { seg with frames := seg.frames ++ [f] }.raw = seg.raw ++ f.data := by
  show List.replicate seg.base 0 ++ data (seg.frames ++ [f]) = _
  rw [data_append, ← List.append_assoc]
  exact congrArg _ (List.append_nil f.data)

/-- The entries with one more frame. -/
theorem Segment.entries_append (seg : Segment) (f : Frame) :
    { seg with frames := seg.frames ++ [f] }.entries = seg.entries ++ if f.isKey then
      [⟨.ofNat (keys seg.frames), f.rate, .ofNat seg.raw.length, .ofNat f.data.length, f.sec⟩] else [] := by
  show Recording.entries seg.base 0 (seg.frames ++ [f]) = _
  rw [Recording.entries_append, Nat.zero_add, ← seg.raw_length]
  rfl

/-- The first key frame of a file. -/
theorem noted_first (base : ℕ) (hnum : av.info.num = -1) (hkey : f.isKey = true) :
    Holds (av.noted f ⟨[], base, false⟩) ⟨base, av.info.begTime, av.info.endTime, [f]⟩ := by
  have hkeys : keys [f] = 1 := by rw [keys_cons, hkey]; rfl
  have hdata : data [f] = f.data := List.append_nil f.data
  have hraw : File.overlay [] base f.data = List.replicate base 0 ++ f.data := File.overlay_end (Nat.zero_le _) _
  have hlen : (List.replicate base (0 : UInt8) ++ f.data).length = base + f.data.length := by
    rw [List.length_append, List.length_replicate]
  refine ⟨?_, by rw [hkeys]; show av.info.num + 1 + 1 = _; omega, by rw [hkeys]; decide, rfl, rfl, fun i e he => ?_⟩
  · show Fd.opened ⟨File.overlay [] base f.data, base + f.data.length, false⟩ = _
    rw [Segment.raw, hdata, hraw, hlen]
  · have hentries : Segment.entries ⟨base, av.info.begTime, av.info.endTime, [f]⟩ =
        [⟨.ofNat 0, f.rate, .ofNat base, .ofNat f.data.length, f.sec⟩] := by
      rw [Segment.entries, Recording.entries, if_pos hkey]
      rfl
    rw [hentries, List.getElem?_singleton] at he
    split at he
    · rename_i hi
      subst hi
      have hzero : ((0 : ℕ) : ℤ) = av.info.num + 1 := by omega
      have hnat : (av.info.num + 1).toNat = 0 := by omega
      show (if ((0 : ℕ) : ℤ) = av.info.num + 1 then _ else _) = e
      rw [if_pos hzero, hnat]
      exact Option.some.inj he
    · cases he

/-- One more key frame behind the frames that are there. -/
theorem noted_more (h : Holds av seg) (hkey : f.isKey = true) :
    Holds (av.noted f ⟨seg.raw, seg.raw.length, false⟩) { seg with frames := seg.frames ++ [f] } := by
  have hnum := h.num
  have hkeys : keys (seg.frames ++ [f]) = keys seg.frames + 1 := by
    rw [keys_append, keys_cons, hkey]
    rfl
  have hnat : (av.info.num + 1).toNat = keys seg.frames := by omega
  refine ⟨?_, ?_, by show 0 < keys (seg.frames ++ [f]); omega, h.begins, h.ends, fun i e he => ?_⟩
  · show Fd.opened ⟨File.overlay seg.raw seg.raw.length f.data, seg.raw.length + f.data.length, false⟩ = _
    rw [File.overlay_append, Segment.raw_append, List.length_append]
  · show av.info.num + 1 + 1 = (keys (seg.frames ++ [f]) : ℤ)
    omega
  · have hlen : seg.entries.length = keys seg.frames := entries_length _ _ _
    rw [Segment.entries_append, if_pos hkey] at he
    show (if (i : ℤ) = av.info.num + 1 then _ else av.info.item i) = e
    by_cases hi : i < seg.entries.length
    · rw [List.getElem?_append_left hi] at he
      rw [if_neg (by omega)]
      exact h.lists i e he
    · rw [List.getElem?_append_right (by omega), List.getElem?_singleton] at he
      split at he
      · rw [if_pos (by omega), hnat]
        exact Option.some.inj he
      · cases he

/-- A frame that is no key frame. -/
theorem written_more (h : Holds av seg) (hkey : f.isKey = false) :
    Holds { av with fd := .opened ((⟨seg.raw, seg.raw.length, false⟩ : File).write f.data) }
      { seg with frames := seg.frames ++ [f] } := by
  have hkeys : keys (seg.frames ++ [f]) = keys seg.frames := by
    rw [keys_append, keys_cons, hkey]
    rfl
  refine ⟨?_, by rw [hkeys]; exact h.num, by rw [hkeys]; exact h.some_key, h.begins, h.ends, fun i e he => ?_⟩
  · show Fd.opened ⟨File.overlay seg.raw seg.raw.length f.data, seg.raw.length + f.data.length, false⟩ = _
    rw [File.overlay_append, Segment.raw_append, List.length_append]
  · rw [Segment.entries_append, hkey, if_neg Bool.false_ne_true, List.append_nil] at he
    exact h.lists i e he

/-- The recorder at a key frame, with the time of the frame. -/
def Recorder.at (av : Recorder) (sec : Int32) : Recorder := { av with lastTime := sec, info.endTime := sec }

/-- With a file that was begun. -/
def Recorder.begun (av : Recorder) (f : Frame) : Recorder :=
  { av.at f.sec.toInt32 with
    fd := .opened ⟨[], dataStart, false⟩
    info := { av.info with begTime := f.sec.toInt32, endTime := f.sec.toInt32 } }

theorem Holds.at (h : Holds av seg) (sec : Int32) : Holds (av.at sec) { seg with ends := sec } :=
  ⟨h.file, h.num, h.some_key, h.begins, rfl, h.lists⟩

theorem recordFrame_key (hkey : f.isKey = true) : recordFrame behind true f av =
    (if av.info.num = -1 then beginFile f (av.at f.sec.toInt32) else some (av.at f.sec.toInt32)).bind fun av =>
      if av.info.num ≥ maxItems - 1 then (reopen behind true av).bind fun av => (noteKey f av).bind (writeFrame f)
      else (noteKey f av).bind (writeFrame f) := by
  rw [recordFrame]
  dsimp only
  rw [if_pos hkey]
  rfl

/-- A key frame behind others: the table has room for it, or a new file begins with it. -/
theorem recordKey_holds (h : Follows behind av t) (hcur : t.current = some seg) (hholds : Holds av seg)
    (hkey : f.isKey = true) : ∃ av', recordFrame behind true f av = some av' ∧ av'.firstFlag = av.firstFlag ∧
      av'.recflag = true ∧ av'.lastTime = f.sec.toInt32 ∧ ∃ seg', (t.push f).current = some seg' ∧ Holds av' seg' ∧
        List.Forall₂ (Pictures behind) (t.push f).done av'.saved := by
  have hnum := hholds.num
  have hsome := hholds.some_key
  have hat := hholds.at f.sec.toInt32
  have hatnum : (av.at f.sec.toInt32).info.num = av.info.num := rfl
  rw [recordFrame_key hkey, if_neg (by omega), Option.bind_some]
  unfold Tape.push
  rw [hcur]
  dsimp only
  rw [if_pos hkey]
  by_cases hfull : keys seg.frames ≥ maxItems
  · obtain ⟨av₁, hopen, hsame, hnum₁, hfd₁, hsaved₁⟩ := reopen_of_stop (stop_holds hat h.saved)
    rw [if_pos (by omega), hopen, Option.bind_some,
      noteKey_write hfd₁ (by omega), if_pos hfull]
    refine ⟨_, rfl, hsame.firstFlag, hsame.recflag.trans h.recflag, hsame.lastTime, _, rfl, ?_, hsaved₁⟩
    have hfirst := noted_first 0 hnum₁ hkey
    rw [hsame.begTime, hsame.endTime, hat.begins, hat.ends] at hfirst
    exact hfirst
  · rw [if_neg (by omega), noteKey_write hat.file (by omega), if_neg hfull]
    exact ⟨_, rfl, rfl, h.recflag, rfl, _, rfl, noted_more hat hkey, h.saved⟩

/-- **A frame**: the recorder takes it as the tape does. -/
theorem recordFrame_follows (h : Follows behind av t) (f : Frame) :
    ∃ av', recordFrame behind true f av = some av' ∧ av'.firstFlag = av.firstFlag ∧ av'.lastTime = f.sec.toInt32 ∧
      Follows behind av' (t.push f) := by
  cases hkey : f.isKey with
  | true =>
    rcases h.current with ⟨hcur, hnum, hfd⟩ | ⟨seg, hcur, hholds⟩
    · have hpush : t.push f = { t with current := some ⟨dataStart, f.sec.toInt32, f.sec.toInt32, [f]⟩ } := by
        rw [Tape.push, hcur]
        exact if_pos hkey
      have hbegin : beginFile f (av.at f.sec.toInt32) = some (av.begun f) := by
        rw [beginFile, onFile, show (av.at f.sec.toInt32).fd = _ from hfd]
        rfl
      have hbegun : (av.begun f).info.num = -1 := hnum
      have hroom : ¬(av.begun f).info.num ≥ maxItems - 1 := by
        rw [hbegun]
        decide
      rw [recordFrame_key hkey, if_pos hnum, hbegin, Option.bind_some, if_neg hroom, hpush,
        noteKey_write (show (av.begun f).fd = .opened ⟨[], dataStart, false⟩ from rfl) (by omega)]
      exact ⟨_, rfl, rfl, rfl, h.recflag, .inr ⟨_, rfl, noted_first _ hbegun hkey⟩, h.saved⟩
    · obtain ⟨av', hrec, hflag, hrecflag, htime, seg', hcur', hholds', hsaved⟩ := recordKey_holds h hcur hholds hkey
      exact ⟨av', hrec, hflag, htime, hrecflag, .inr ⟨seg', hcur', hholds'⟩, hsaved⟩
  | false =>
    have hrec : recordFrame behind true f av = writeFrame f { av with lastTime := f.sec.toInt32 } := by
      rw [recordFrame]
      dsimp only
      rw [hkey, if_neg Bool.false_ne_true]
    rw [hrec, Tape.push]
    rcases h.current with ⟨hcur, hnum, hfd⟩ | ⟨seg, hcur, hholds⟩
    · have hwrite : writeFrame f { av with lastTime := f.sec.toInt32 } =
          some { av with lastTime := f.sec.toInt32 } := by
        rw [writeFrame, if_neg (show ¬av.info.num ≥ 0 by omega)]
      rw [hwrite, hcur]
      dsimp only
      rw [hkey, if_neg Bool.false_ne_true]
      exact ⟨_, rfl, rfl, rfl, h.recflag, .inl ⟨hcur, hnum, hfd⟩, h.saved⟩
    · have hnum := hholds.num
      have hsome := hholds.some_key
      have hlater : Holds { av with lastTime := f.sec.toInt32 } seg :=
        ⟨hholds.file, hholds.num, hholds.some_key, hholds.begins, hholds.ends, hholds.lists⟩
      rw [writeFrame_write hlater.file (show 0 ≤ av.info.num by omega), hcur]
      dsimp only
      rw [hkey, if_neg Bool.false_ne_true]
      exact ⟨_, rfl, rfl, rfl, h.recflag, .inr ⟨_, rfl, written_more hlater hkey⟩, h.saved⟩

/-- The recorder has the time of the last frame that the tape took. -/
def Timed (av : Recorder) (t : Tape) : Prop := t.last = if av.firstFlag then some av.lastTime else none

/-- **A frame of a stream**, after a pause or without one. -/
theorem localRecord_follows (h : Follows behind av t) (ht : Timed av t) (f : Frame) :
    ∃ av', localRecord behind true av f = some av' ∧ Follows behind av' (t.take f) ∧ Timed av' (t.take f) := by
  obtain ⟨av₀, hav₀, hfirst, htime, hfollows⟩ : ∃ av₀, (if av.firstFlag then av
      else { av with firstFlag := true, lastTime := f.sec.toInt32 }) = av₀ ∧ av₀.firstFlag = true ∧
        t.last.getD f.sec.toInt32 = av₀.lastTime ∧ Follows behind av₀ t := by
    rw [Timed] at ht
    cases hflag : av.firstFlag with
    | true =>
      rw [hflag, if_pos rfl] at ht
      exact ⟨av, if_pos rfl, hflag, by rw [ht]; rfl, h⟩
    | false =>
      rw [hflag, if_neg Bool.false_ne_true] at ht
      refine ⟨_, if_neg Bool.false_ne_true, rfl, by rw [ht]; rfl, h.recflag,
        h.current.imp_right fun ⟨seg, hcur, hholds⟩ => ?_,
        h.saved⟩
      exact ⟨seg, hcur, hholds.file, hholds.num, hholds.some_key, hholds.begins, hholds.ends, hholds.lists⟩
  have hafter : ∀ {av' : Recorder} {t' : Tape}, av'.firstFlag = true → av'.lastTime = f.sec.toInt32 →
      Follows behind av' (t'.push f) → Follows behind av' { t'.push f with last := some f.sec.toInt32 } ∧
        Timed av' { t'.push f with last := some f.sec.toInt32 } := by
    intro av' t' h₁ h₂ h₃
    exact ⟨⟨h₃.recflag, h₃.current, h₃.saved⟩, by rw [Timed, h₁, h₂, if_pos rfl]⟩
  unfold localRecord Tape.take
  dsimp only
  rw [hav₀, htime]
  by_cases hgap : gap av₀.lastTime f.sec
  · obtain ⟨av₁, hopen, hsame, hnum, hfd, hsaved⟩ := reopen_of_stop (stop_follows hfollows)
    have hclosed : t.close.current = none := by
      unfold Tape.close
      split <;> first | assumption | rfl
    have hfollows₁ : Follows behind av₁ t.close :=
      ⟨hsame.recflag.trans hfollows.recflag, .inl ⟨hclosed, hnum, hfd⟩, hsaved⟩
    obtain ⟨av₂, hrec, hflag₂, htime₂, hfollows₂⟩ := recordFrame_follows hfollows₁ f
    rw [if_pos hgap, if_pos hgap, hopen, Option.bind_some, if_pos rfl, hrec]
    exact ⟨av₂, rfl, hafter (hflag₂.trans (hsame.firstFlag.trans hfirst)) htime₂ hfollows₂⟩
  · obtain ⟨av₂, hrec, hflag₂, htime₂, hfollows₂⟩ := recordFrame_follows hfollows f
    rw [if_neg hgap, if_neg hgap, hrec]
    exact ⟨av₂, rfl, hafter (hflag₂.trans hfirst) htime₂ hfollows₂⟩

/-! ### A session -/

/-- The frames of a session, as long as the file can be opened anew. -/
def recordAll (behind : Field 54) (av : Recorder) : List Frame → Option Recorder
  | [] => some av
  | f :: fs => (localRecord behind true av f).bind fun av => recordAll behind av fs

/-- A recording from its start to its end. -/
def session (behind : Field 54) (dev : Field 140) (fs : List Frame) (av : Recorder) : Option Recorder :=
  (recordAll behind (localRecordStart true dev av) fs).bind (localRecordstop behind true)

theorem recordAll_follows (fs : List Frame) (h : Follows behind av t) (ht : Timed av t) :
    ∃ av', recordAll behind av fs = some av' ∧ Follows behind av' (t.run fs) := by
  induction fs generalizing av t with
  | nil => exact ⟨av, rfl, h⟩
  | cons f fs ih =>
    obtain ⟨av₁, hrec, h₁, ht₁⟩ := localRecord_follows h ht f
    obtain ⟨av₂, hrun, h₂⟩ := ih h₁ ht₁
    exact ⟨av₂, by rw [recordAll, hrec, Option.bind_some, hrun], h₂⟩

theorem start_follows (behind : Field 54) (dev : Field 140) (av : Recorder) :
    Follows behind (localRecordStart true dev { av with saved := [] }) .start ∧
      Timed (localRecordStart true dev { av with saved := [] }) .start :=
  ⟨⟨rfl, .inl ⟨rfl, rfl, rfl⟩, .nil⟩, rfl⟩

theorem closeFile_saved (behind : Field 54) (av : Recorder) (file : File) :
    (closeFile behind { av with recflag := false } file).saved = (closeFile behind av file).saved := by
  unfold closeFile
  dsimp only
  split <;> rfl

/-- The last stop saves what one without its flag does. -/
theorem stop_true (h : Follows behind av t) :
    ∃ av', localRecordstop behind true av = some av' ∧ List.Forall₂ (Pictures behind) t.close.done av'.saved := by
  obtain ⟨file, hfd⟩ : ∃ file, av.fd = .opened file := by
    rcases h.current with ⟨-, -, hfd⟩ | ⟨seg, -, hholds⟩
    · exact ⟨_, hfd⟩
    · exact ⟨_, hholds.file⟩
  obtain ⟨av', hstop, -, hsaved⟩ := stop_follows h
  rw [stop_false hfd] at hstop
  rw [← Option.some.inj hstop, ← closeFile_saved] at hsaved
  refine ⟨{ closeFile behind { av with recflag := false } file with info := cleared }, ?_, hsaved⟩
  rw [localRecordstop, hfd]
  rfl

/-! ### The segments of a stream -/

/-- A segment has frames from a key frame on. -/
def Segment.Opens (seg : Segment) : Prop := ∃ f fs, seg.frames = f :: fs ∧ f.isKey = true

/-- The segments are parts of the stream, one behind the other. -/
structure Parts (segs : List Segment) (fs : List Frame) : Prop where
  opens : ∀ seg ∈ segs, seg.Opens
  order : (segs.flatMap (·.frames)).Sublist fs

namespace Parts

variable {segs segs' : List Segment} {fs : List Frame}

theorem mono (h : Parts segs fs) (hsub : segs'.Sublist segs) : Parts segs' fs :=
  ⟨fun seg hseg => h.opens seg (hsub.subset hseg), (hsub.flatMap _).trans h.order⟩

theorem more (h : Parts segs fs) (f : Frame) : Parts segs (fs ++ [f]) :=
  ⟨h.opens, h.order.trans (List.sublist_append_left fs [f])⟩

theorem add (h : Parts segs fs) {f : Frame} (hkey : f.isKey = true) (base : ℕ) (begins ends : Int32) :
    Parts (segs ++ [⟨base, begins, ends, [f]⟩]) (fs ++ [f]) where
  opens seg hseg := by
    rcases List.mem_append.mp hseg with hseg | hseg
    · exact h.opens seg hseg
    · rw [List.eq_of_mem_singleton hseg]
      exact ⟨f, [], rfl, hkey⟩
  order := by
    rw [List.flatMap_append, List.flatMap_singleton]
    exact h.order.append (List.Sublist.refl _)

theorem extend (h : Parts (segs ++ [seg]) fs) (f : Frame) (ends : Int32) :
    Parts (segs ++ [⟨seg.base, seg.begins, ends, seg.frames ++ [f]⟩]) (fs ++ [f]) where
  opens s hs := by
    rcases List.mem_append.mp hs with hs | hs
    · exact h.opens s (List.mem_append_left _ hs)
    · obtain ⟨k, ks, hframes, hkey⟩ := h.opens seg (List.mem_append_right _ List.mem_cons_self)
      rw [List.eq_of_mem_singleton hs]
      exact ⟨k, ks ++ [f], by rw [hframes]; rfl, hkey⟩
  order := by
    have horder := h.order
    rw [List.flatMap_append, List.flatMap_singleton] at horder ⊢
    rw [← List.append_assoc]
    exact horder.append (List.Sublist.refl _)

theorem retime (h : Parts (segs ++ [seg]) fs) (ends : Int32) : Parts (segs ++ [{ seg with ends := ends }]) fs where
  opens s hs := by
    rcases List.mem_append.mp hs with hs | hs
    · exact h.opens s (List.mem_append_left _ hs)
    · rw [List.eq_of_mem_singleton hs]
      exact h.opens seg (List.mem_append_right _ List.mem_cons_self)
  order := by
    have horder := h.order
    rw [List.flatMap_append, List.flatMap_singleton] at horder ⊢
    exact horder

end Parts

namespace Tape

/-- The segments kept, and the one under way. -/
def parts (t : Tape) : List Segment := t.done ++ t.current.toList

theorem keep_sublist (done : List Segment) (seg : Segment) : (keep done seg).Sublist (done ++ [seg]) := by
  unfold keep
  split
  · exact List.Sublist.refl _
  · exact List.sublist_append_left _ _

theorem close_parts {fs : List Frame} (h : Parts t.parts fs) : Parts t.close.parts fs := by
  refine h.mono ?_
  unfold close parts
  cases hcur : t.current with
  | none => rw [hcur]
  | some seg =>
    dsimp only
    rw [Option.toList_none, List.append_nil]
    exact keep_sublist t.done seg

theorem push_parts {fs : List Frame} (h : Parts t.parts fs) (f : Frame) : Parts (t.push f).parts (fs ++ [f]) := by
  unfold parts at h
  unfold push parts
  cases hcur : t.current with
  | none =>
    rw [hcur, Option.toList_none, List.append_nil] at h
    dsimp only
    split
    · rename_i hkey
      exact h.add hkey _ _ _
    · rw [hcur, Option.toList_none, List.append_nil]
      exact h.more f
  | some seg =>
    rw [hcur, Option.toList_some] at h
    dsimp only
    split
    · rename_i hkey
      split
      · exact ((h.retime f.sec.toInt32).mono (keep_sublist _ _)).add hkey _ _ _
      · exact h.extend f _
    · exact h.extend f _

theorem run_parts {fs : List Frame} (gs : List Frame) (h : Parts t.parts fs) : Parts (t.run gs).parts (fs ++ gs) := by
  induction gs generalizing t fs with
  | nil =>
    rw [List.append_nil]
    exact h
  | cons g gs ih =>
    have htake : Parts (t.take g).parts (fs ++ [g]) := by
      unfold take
      dsimp only
      split
      · exact push_parts (close_parts h) g
      · exact push_parts h g
    have hrun := ih htake
    rw [List.append_assoc] at hrun
    exact hrun

end Tape

end Recording

end SabApp
